-- SUMMARY: Both passes step through a program alike, so labels and encodings stand where their words do.
import Asm16.Program.Assembly
import Asm16.Proofs.Catalog.Sample
import Asm16.Proofs.Layout.Scan
import Asm16.Proofs.Listing.Consecutive

/-!
# Addresses

The first pass steps by the cycles of the instruction a line begins with, the second by the words it
has encoded. The two are the same for every line that is encoded, so an address that the first pass
gave to a label is the address at which the second goes on. `ofLines_placed` says where everything in
a listing stands.
-/

namespace Asm16

variable {catalog : Catalog} {labels : LabelTable} {here : Address} {l : Line}
  {lines : List Line} {e : Encoding} {es : List Encoding}

theorem Address.zero_add_ofNat (n : Nat) : (0 : Address) + BitVec.ofNat 32 n = BitVec.ofNat 32 n :=
  BitVec.zero_add _

theorem Address.toNat_ofNat_of_lt {n : Nat} (h : n < 2 ^ 32) :
    (BitVec.ofNat 32 n).toNat = n := by
  rw [BitVec.toNat_ofNat, Nat.mod_eq_of_lt h]

/-! ## The passes agree -/

/-- The mnemonic of a line that is encoded names an instruction, of the cycles of the encoding. -/
theorem Line.lookup?_of_encode (h : l.withoutLabel.encode catalog labels here = .ok e) :
    ∃ i, catalog.lookup? l.mnemonic = some i ∧ e.cycles = i.cycles := by
  obtain ⟨i, operands, ⟨name, hwords, hi⟩, hcycles⟩ := Encoding.cycles_of_encode h
  have hname : l.mnemonic = name := mnemonic_of_words hwords
  exact ⟨i, by rw [hname, hi], hcycles⟩

/-- The first pass steps over a line by the cycles of its encoding. -/
theorem Line.step?_of_encode (hc : l.code.isEmpty = false)
    (h : l.withoutLabel.encode catalog labels here = .ok e) : l.step? catalog = some e.cycles := by
  obtain ⟨i, hi, hcycles⟩ := lookup?_of_encode h
  simp [Line.step?, hc, hi, hcycles]

theorem Encoding.Consecutive.steps
    (h : Consecutive catalog labels here (Layout.kept lines) es) :
    List.Forall₂ (fun l e => l.step? catalog = some e.cycles) (Layout.coded lines) es := by
  induction lines generalizing here es with
  | nil =>
    cases h
    exact .nil
  | cons l lines ih =>
    cases hc : l.code.isEmpty with
    | true =>
      rw [Layout.kept_cons_of_isEmpty hc] at h
      rw [Layout.coded_cons_of_isEmpty hc]
      exact ih h
    | false =>
      rw [Layout.kept_cons_of_not_isEmpty hc] at h
      rw [Layout.coded_cons_of_not_isEmpty hc]
      cases h with
      | cons he h => exact .cons (Line.step?_of_encode hc he) (ih h)

/-- The first pass steps by as many bytes as the second pass encodes. -/
theorem Encoding.Consecutive.size_eq
    (h : Consecutive catalog labels here (Layout.kept lines) es) :
    Layout.size catalog lines = size es := by
  induction lines generalizing here es with
  | nil =>
    cases h
    rfl
  | cons l lines ih =>
    rw [Layout.size_cons]
    cases hc : l.code.isEmpty with
    | true =>
      rw [Layout.kept_cons_of_isEmpty hc] at h
      rw [ih h, Line.size_of_no_code (List.isEmpty_iff.1 hc), Nat.zero_add]
    | false =>
      rw [Layout.kept_cons_of_not_isEmpty hc] at h
      cases h with
      | cons he h => rw [ih h, Line.size, Line.step?_of_encode hc he, size_cons, Option.elim_some]

namespace Listing

variable {listing : Listing}

/-- An assembly, said of its two passes without their accumulators. -/
theorem ofLines_eq_ok_iff :
    ofLines catalog lines = .ok listing ↔
      Layout.Known catalog lines ∧ listing.labels = Layout.table catalog lines 0 .empty ∧
        Encoding.Consecutive catalog listing.labels 0 (Layout.kept lines) listing.encodings := by
  unfold ofLines
  constructor
  · intro h
    split at h
    · cases h
    · rename_i layout hlayout
      obtain ⟨hk, rfl⟩ := Layout.ofLines_eq_ok_iff.1 hlayout
      split at h
      · cases h
      · rename_i es hes
        cases h
        exact ⟨hk, rfl, Encoding.ofLines_eq_ok_iff.1 hes⟩
  · obtain ⟨labels, es⟩ := listing
    rintro ⟨hk, rfl, hes⟩
    rw [Layout.ofLines_eq_ok_iff.2 ⟨hk, rfl⟩]
    dsimp only
    rw [Encoding.ofLines_eq_ok_iff.2 hes]

/-- The labels are the names that lines define. -/
theorem get?_eq_none_iff {name : Text} (h : ofLines catalog lines = .ok listing) :
    listing.labels.get? name = none ↔ ∀ l ∈ lines, l.label? ≠ some name := by
  obtain ⟨-, hlabels, -⟩ := ofLines_eq_ok_iff.1 h
  rw [hlabels, Layout.get?_table_empty]
  exact Layout.addressOf_eq_none_iff

/-! ## The end of a program -/

theorem length_words (listing : Listing) :
    2 * listing.words.length = Encoding.size listing.encodings := rfl

/-- The address after the last instruction is the number of bytes, if that is an address. -/
theorem endAddress?_of_consecutive
    (h : Encoding.Consecutive catalog labels 0 lines listing.encodings)
    (hsize : 2 * listing.words.length < 2 ^ 32) :
    listing.endAddress? = some (BitVec.ofNat 32 (2 * listing.words.length)) := by
  rw [length_words] at hsize ⊢
  rw [endAddress?]
  obtain hnil | ⟨es, e, hlast⟩ := List.eq_nil_or_concat' listing.encodings
  · rw [hnil]
    rfl
  · rw [hlast] at h hsize ⊢
    rw [Encoding.size_append, Encoding.size_cons] at hsize ⊢
    have haddress := h.address
    rw [Address.zero_add_ofNat] at haddress
    rw [List.getLast?_concat]
    dsimp only
    refine Address.after?_eq_some_iff.2 ⟨?_, ?_⟩
    · rw [haddress, Address.toNat_ofNat_of_lt (by omega)]
      simp only [Encoding.size, List.flatMap_nil, List.length_nil] at hsize ⊢
      omega
    · rw [Address.after, haddress, ← BitVec.ofNat_add]
      rfl

/-! ## Where everything stands -/

theorem size_le {fs : List Encoding} (hsplit : listing.encodings = es ++ fs) :
    Encoding.size es ≤ 2 * listing.words.length := by
  rw [length_words, hsplit, Encoding.size_append]
  exact Nat.le_add_right _ _

theorem toNat_ofNat_size {fs : List Encoding} (hsplit : listing.encodings = es ++ fs)
    (hsize : 2 * listing.words.length < 2 ^ 32) :
    (BitVec.ofNat 32 (Encoding.size es)).toNat = Encoding.size es :=
  Address.toNat_ofNat_of_lt (Nat.lt_of_le_of_lt (size_le hsplit) hsize)

theorem address_eq {fs : List Encoding}
    (h : Encoding.Consecutive catalog labels 0 lines listing.encodings)
    (hsplit : listing.encodings = es ++ e :: fs) (hsize : 2 * listing.words.length < 2 ^ 32) :
    e.address.toNat = Encoding.size es := by
  rw [hsplit] at h
  rw [h.address, Address.zero_add_ofNat, toNat_ofNat_size hsplit hsize]

/-- The encodings and labels of a listing stand where the words of its lines put them. -/
structure Placed (catalog : Catalog) (lines : List Line) (listing : Listing) : Prop where
  /-- The encodings are those of the lines with code, one of each and in order. -/
  source : listing.encodings.map (·.line) = Layout.kept lines
  /-- An encoding stands after all the words before it. -/
  address : ∀ es e fs, listing.encodings = es ++ e :: fs →
    e.address.toNat = 2 * (es.flatMap Encoding.words).length
  /-- An encoding has as many words as the first pass took cycles to step over its line. -/
  step : List.Forall₂ (fun l e => ∃ c, l.step? catalog = some c ∧ e.words.length = c.words)
    (Layout.coded lines) listing.encodings
  /-- The labels are the names that lines define. -/
  names : ∀ name, listing.labels.contains name = true ↔ ∃ l ∈ lines, l.label? = some name
  /-- A label stands at the first encoding of its first line or of a later one, and at the end if
  there is none. -/
  label : ∀ pre l post name, lines = pre ++ l :: post → l.label? = some name →
    (∀ x ∈ pre, x.label? ≠ some name) →
    ∃ es fs, listing.encodings = es ++ fs ∧ es.map (·.line) = Layout.kept pre ∧
      fs.map (·.line) = Layout.kept (l :: post) ∧
      listing.labels.get? name =
        match fs with
        | [] => listing.endAddress?
        | e :: _ => some e.address
  /-- The end is after the last word. -/
  finish : ∃ last, listing.endAddress? = some last ∧ last.toNat = 2 * listing.words.length

theorem ofLines_placed (h : ofLines catalog lines = .ok listing)
    (hsize : 2 * listing.words.length < 2 ^ 32) : Placed catalog lines listing := by
  obtain ⟨hk, hlabels, hes⟩ := ofLines_eq_ok_iff.1 h
  have hend := endAddress?_of_consecutive hes hsize
  refine ⟨hes.map_line, ?_, ?_, ?_, ?_, _, hend, Address.toNat_ofNat_of_lt hsize⟩
  · intro es e fs hsplit
    exact address_eq hes hsplit hsize
  · refine hes.steps.imp ?_
    intro l e hstep
    exact ⟨e.cycles, hstep, Encoding.length_words e⟩
  · intro name
    rw [LabelTable.contains, ← Option.ne_none_iff_isSome, ne_eq, get?_eq_none_iff h]
    push Not
    rfl
  · rintro pre l post name rfl hl hfirst
    rw [Layout.kept_append] at hes
    obtain ⟨es, fs, hsplit, hpre, hpost⟩ := hes.split
    refine ⟨es, fs, hsplit, hpre.map_line, hpost.map_line, ?_⟩
    rw [hlabels, Layout.get?_table_empty, Layout.addressOf_of_first hfirst hl, hpre.size_eq]
    cases fs with
    | nil => rw [hend, length_words, hsplit, List.append_nil, Address.zero_add_ofNat]
    | cons e fs =>
      rw [hsplit] at hes
      dsimp only
      rw [hes.address]

/-- A program with labels on a line of their own, before code and at the end, one of them twice. -/
theorem ofLines_placed_labels :
    let lines := Line.numbered 1 ["a: LD r1, b(r2)".toList, "b:".toList, "b: ADD r1,r2,r3".toList,
      "BR r0, a(r0)".toList, "end:".toList]
    ∃ listing, ofLines Catalog.sample lines = .ok listing ∧
      2 * listing.words.length < 2 ^ 32 ∧ Placed Catalog.sample lines listing :=
  ⟨_, rfl, by decide, ofLines_placed rfl (by decide)⟩

end Listing
end Asm16
