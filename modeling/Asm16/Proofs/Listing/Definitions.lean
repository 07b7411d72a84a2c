-- SUMMARY: Definitions that change nothing: of a name that is defined already, and of a name that nothing mentions.
import Asm16.Proofs.Layout.Table
import Asm16.Proofs.Line.Label
import Asm16.Proofs.Listing.Relocation

/-!
# Inserted definitions

A line that defines a label and says nothing else has no code, so it moves nothing. What it can change
is what the operands of other lines mean. If its name is defined before it, it defines nothing. If its
name is defined nowhere and nothing in the program is spelled like it, the name becomes a label, and
every line is encoded as it was.
-/

namespace Asm16

variable {catalog : Catalog} {labels : LabelTable} {here a last : Address} {l : Line}
  {before after : List Line} {name other : Text} {listing : Listing}

/-! ## The first pass over an inserted line -/

namespace Layout

/-- A name that is defined already is not defined again. -/
theorem table_insert_of_contains (hl : l.code = []) (hlabel : l.label? = some name)
    (hcontains : (table catalog before here labels).contains name = true) :
    table catalog (before ++ l :: after) here labels = table catalog (before ++ after) here labels := by
  have hdefine : ∀ here', l.define (table catalog before here labels) here' =
      table catalog before here labels := by
    intro here'
    rw [Line.define, hlabel]
    dsimp only
    rw [LabelTable.define, dif_pos hcontains]
  rw [table_append_cons_of_no_code hl, hdefine, table_append]

/-- A name that is defined nowhere else gets the address reached. -/
theorem get?_table_insert (hl : l.code = []) (hlabel : l.label? = some name)
    (hfresh : ∀ x ∈ before ++ after, x.label? ≠ some name) :
    (table catalog (before ++ l :: after) 0 .empty).get? other =
      if other = name then some (BitVec.ofNat 32 (size catalog before))
      else (table catalog (before ++ after) 0 .empty).get? other := by
  obtain ⟨hbefore, -⟩ := List.forall_mem_append.1 hfresh
  rw [get?_table_empty, get?_table_empty]
  by_cases hother : other = name
  · rw [if_pos hother, hother, addressOf_of_first hbefore hlabel, Address.zero_add_ofNat]
  · have hskip : l.label? ≠ some other := by
      rw [hlabel]
      exact fun h => hother (Option.some.inj h).symm
    rw [if_neg hother, addressOf_append, addressOf, if_neg hskip, Line.size_of_no_code hl,
      BitVec.add_zero, addressOf_append]

end Layout

/-! ## Listings with an inserted definition -/

namespace Listing

/-- The address is that of the first of the last encodings of a listing, or the end of the listing if
there are none. -/
def StartsAt (listing : Listing) (a : Address) : List Encoding → Prop
  | [] => ∀ last, listing.endAddress? = some last → a = last
  | e :: _ => a = e.address

/-- The second listing has one more label than the first, where the lines are split, and is the same
otherwise. -/
structure Defines (before after : List Line) (name : Text) (listing defined : Listing) : Prop where
  encodings : defined.encodings = listing.encodings
  render : defined.render = listing.render
  /-- The name stands where the code of the lines after it begins, behind all the words before it. -/
  labels : ∃ a es fs, defined.labels.entries.Perm ((name, a) :: listing.labels.entries) ∧
    listing.encodings = es ++ fs ∧ es.map (·.line) = Layout.kept before ∧
    fs.map (·.line) = Layout.kept after ∧ listing.StartsAt a fs ∧
    a = BitVec.ofNat 32 (2 * (es.flatMap Encoding.words).length)

/-- If a listing has an end, it is after the last of its words. -/
theorem eq_of_endAddress?
    (h : Encoding.Consecutive catalog labels 0 before listing.encodings)
    (hlast : listing.endAddress? = some last) :
    last = BitVec.ofNat 32 (Encoding.size listing.encodings) := by
  rw [endAddress?] at hlast
  obtain hnil | ⟨es, e, hes⟩ := List.eq_nil_or_concat' listing.encodings
  · rw [hnil] at hlast ⊢
    exact (Option.some.inj hlast).symm
  · rw [hes, List.getLast?_concat] at hlast
    dsimp only at hlast
    rw [hes] at h ⊢
    obtain ⟨-, rfl⟩ := Address.after?_eq_some_iff.1 hlast
    rw [Address.after, h.address, Address.zero_add_ofNat, ← BitVec.ofNat_add, Encoding.size_append,
      Encoding.size_cons]
    rfl

/-- The lines before a place are encoded before it, and what stands there is the address reached. -/
theorem startsAt_of_split (h : ofLines catalog (before ++ after) = .ok listing) :
    ∃ es fs, listing.encodings = es ++ fs ∧ es.map (·.line) = Layout.kept before ∧
      fs.map (·.line) = Layout.kept after ∧
      listing.StartsAt (BitVec.ofNat 32 (Layout.size catalog before)) fs ∧
      Layout.size catalog before = 2 * (es.flatMap Encoding.words).length := by
  obtain ⟨-, -, hes⟩ := ofLines_eq_ok_iff.1 h
  have hsplit := hes
  rw [Layout.kept_append] at hsplit
  obtain ⟨es, fs, hencodings, hbefore, hafter⟩ := hsplit.split
  refine ⟨es, fs, hencodings, hbefore.map_line, hafter.map_line, ?_, hbefore.size_eq⟩
  rw [hbefore.size_eq]
  cases fs with
  | nil =>
    intro last hlast
    rw [eq_of_endAddress? hes hlast, hencodings, List.append_nil]
  | cons e fs =>
    rw [hencodings] at hes
    exact (hes.address.trans (Address.zero_add_ofNat _)).symm

/-- A line that defines a name may be inserted into a program. If a line before it defines the name,
the listing is the same. If the name is defined nowhere, and no operand or displacement is spelled like
it, then the name is a label more, and nothing else is changed. -/
theorem ofLines_insert_definition (h : ofLines catalog (before ++ after) = .ok listing)
    (hname : Line.IsLabelName name) (n : Nat) :
    ((∃ l ∈ before, l.label? = some name) →
      ofLines catalog (before ++ .definition n name :: after) = .ok listing) ∧
    ((∀ l ∈ before ++ after, l.label? ≠ some name ∧ ¬ l.Mentions name) →
      ∃ defined, ofLines catalog (before ++ .definition n name :: after) = .ok defined ∧
        Defines before after name listing defined) := by
  obtain ⟨hknown, hlabels, hes⟩ := ofLines_eq_ok_iff.1 h
  have hcode := Line.code_definition hname n
  have hlabel := Line.label?_definition hname n
  rw [← Layout.known_append_cons_of_no_code hcode] at hknown
  constructor
  · rintro ⟨l, hl, hdefined⟩
    have hcontains : (Layout.table catalog before 0 .empty).contains name = true := by
      rw [LabelTable.contains, ← Option.ne_none_iff_isSome, Layout.get?_table_empty, ne_eq,
        Layout.addressOf_eq_none_iff]
      exact fun hnone => hnone l hl hdefined
    refine ofLines_eq_ok_iff.2 ⟨hknown, ?_, ?_⟩
    · rw [Layout.table_insert_of_contains hcode hlabel hcontains, hlabels]
    · rw [Layout.kept_append_cons_of_no_code hcode]
      exact hes
  · intro hfresh
    generalize htable :
      Layout.table catalog (before ++ .definition n name :: after) 0 .empty = table
    have hget : ∀ other, table.get? other = if other = name then
        some (BitVec.ofNat 32 (Layout.size catalog before)) else listing.labels.get? other := by
      intro other
      rw [← htable, Layout.get?_table_insert hcode hlabel fun l hl => (hfresh l hl).1, hlabels]
    have hnone : listing.labels.get? name = none :=
      (get?_eq_none_iff h).2 fun l hl => (hfresh l hl).1
    -- no line takes its immediate from the new label
    have hagree : ∀ l ∈ Layout.kept (before ++ after), ∀ i operands t,
        l.Invokes catalog i operands → i.Takes operands t →
        table.get? t = listing.labels.get? t := by
      intro l hl i operands t hi ht
      obtain ⟨x, hx, rfl⟩ := Layout.exists_of_mem_kept hl
      rw [hget, if_neg]
      rintro rfl
      exact (hfresh x hx).2 (Line.mentions_of_takes hi ht)
    refine ⟨⟨table, listing.encodings⟩, ofLines_eq_ok_iff.2 ⟨hknown, htable.symm, ?_⟩, rfl, rfl, ?_⟩
    · rw [Layout.kept_append_cons_of_no_code hcode]
      exact hes.congr hagree
    · obtain ⟨es, fs, hencodings, hbefore, hafter, hstart, hsize⟩ := startsAt_of_split h
      exact ⟨_, es, fs, LabelTable.perm_cons_of_get? hnone hget, hencodings, hbefore, hafter, hstart,
        congrArg (BitVec.ofNat 32) hsize⟩

/-- Between an instruction and one that refers to a label, a second definition of the label, and a
definition of a name that only has a label's name in it. -/
theorem ofLines_insert_definition_spare :
    let before : List Line := [⟨1, "a: LIW r1, b".toList⟩]
    let after : List Line := [⟨2, "b: BR r0, a(r0)".toList⟩]
    ∃ listing defined, ofLines Catalog.sample (before ++ after) = .ok listing ∧
      ofLines Catalog.sample (before ++ .definition 5 "a".toList :: after) = .ok listing ∧
      ofLines Catalog.sample (before ++ .definition 5 "ab".toList :: after) = .ok defined ∧
      Defines before after "ab".toList listing defined := by
  intro before after
  have hok : ofLines Catalog.sample (before ++ after) = .ok _ := rfl
  have hknown : Line.IsLabelName "a".toList := by decide
  have hspare : Line.IsLabelName "ab".toList := by decide
  have hfresh : ∀ l ∈ before ++ after, l.label? ≠ some "ab".toList ∧ "ab".toList ∉ l.operands ∧
      ∀ b ∈ l.operands, b.before '(' ≠ "ab".toList := by decide
  obtain ⟨defined, hdefined, hdefines⟩ := (ofLines_insert_definition hok hspare 5).2 fun l hl =>
    ⟨(hfresh l hl).1, Line.not_mentions (hfresh l hl).2.1 (hfresh l hl).2.2⟩
  exact ⟨_, defined, hok, (ofLines_insert_definition hok hknown 5).1 ⟨_, List.mem_singleton_self _, rfl⟩,
    hdefined, hdefines⟩

end Listing
end Asm16
