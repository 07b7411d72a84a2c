-- SUMMARY: Labels may be renamed: the code of a program does not depend on what its labels are called.
import Asm16.Proofs.Listing.Mnemonics
import Asm16.Proofs.Listing.Relocation

/-!
# Renaming labels

A label's name stands where it is defined, as an operand, and as the displacement of an operand. If it
is replaced everywhere by a name that means nothing else in the program, the program has the same code.
A new name means something else if it is the name of another label, if it is read as something other
than a label, or if an operand or displacement that is no label is spelled like it.
-/

namespace Asm16

open Operand

/-! ## Renamings -/

namespace Operand

/-- The text can be the name of a label, and is read as one where it is an operand. -/
structure IsName (t : Text) : Prop where
  ne_nil : t ≠ []
  char : ∀ c ∈ t, Text.isSeparator c = false ∧ c ≠ ':' ∧ c ≠ '(' ∧ c ≠ ')'
  not_register : ∀ n, ¬ SpellsRegister t n

/-- The new name of a label. Other texts stay. -/
def renameLabel (f : Text → Text) (labels : LabelTable) (t : Text) : Text :=
  if labels.contains t then f t else t

/-- The operand with its label renamed, which is all of it or the displacement. An empty displacement
is no label. -/
def rename (f : Text → Text) (labels : LabelTable) (t : Text) : Text :=
  match classify labels t with
  | .ok (.label name) => f name
  | .ok (.displaced d _) => if d ≠ [] ∧ labels.contains d then f d ++ t.drop d.length else t
  | _ => t

end Operand

/-- The second line is the first one with its labels renamed. -/
structure Line.Renames (f : Text → Text) (labels : LabelTable) (l k : Line) : Prop where
  label : k.label? = l.label?.map f
  mnemonic : k.mnemonic = l.mnemonic
  operands : k.operands = l.operands.map (Operand.rename f labels)

/-- The new names are different names, and what the lines mention apart from labels is none of
them. -/
structure LabelTable.Hygienic (f : Text → Text) (labels : LabelTable) (lines : List Line) : Prop where
  injective : ∀ a b, labels.contains a = true → labels.contains b = true → f a = f b → a = b
  name : ∀ a, labels.contains a = true → IsName (f a)
  fresh : ∀ a, labels.contains a = true → ∀ l ∈ lines, ∀ t, l.Mentions t →
    labels.contains t = false → f a ≠ t

/-- The encodings have the same address and the same words. -/
structure Encoding.SameWords (e e' : Encoding) : Prop where
  address : e'.address = e.address
  word : e'.word = e.word
  value : e'.immediate.map (·.value) = e.immediate.map (·.value)

variable {catalog : Catalog} {labels table : LabelTable} {here : Address} {l k : Line}
  {lines others : List Line} {e : Encoding} {i : Instruction} {f : Text → Text}
  {operands : List Text} {fields : Fields} {source : Option Text} {t d name : Text} {x : Nibble}
  {listing : Listing}

/-! ## Operands -/

namespace Operand

theorem rename_of_register (h : SpellsRegister t x.toNat) : rename f labels t = t := by
  rw [rename, h.classify]

theorem rename_of_bare (h : SpellsDisplaced t [] x.toNat) : rename f labels t = t := by
  rw [rename, h.classify]
  simp

theorem rename_of_plain (h : SpellsPlain t) : rename f labels t = renameLabel f labels t := by
  rw [rename, h.classify, renameLabel]
  cases labels.contains t <;> rfl

theorem IsName.plain (h : IsName t) : SpellsPlain t := by
  refine ⟨?_, h.not_register⟩
  rintro ⟨a, b, c, rfl⟩
  exact (h.char '(' (by simp)).2.2.1 rfl

section

variable (hname : ∀ a, labels.contains a = true → IsName (f a))

include hname

theorem plain_renameLabel (h : SpellsPlain t) : SpellsPlain (renameLabel f labels t) := by
  rw [renameLabel]
  split
  · rename_i hlabel
    exact (hname t hlabel).plain
  · exact h

theorem displaced_rename (h : SpellsDisplaced t d x.toNat) (hd : d ≠ []) :
    SpellsDisplaced (rename f labels t) (renameLabel f labels d) x.toNat ∧
      renameLabel f labels d ≠ [] := by
  rw [rename, h.classify, renameLabel]
  dsimp only
  cases hlabel : labels.contains d with
  | false => exact ⟨by simpa using h, by simpa using hd⟩
  | true =>
    obtain ⟨r, rfl, -, hr⟩ := h
    rw [if_pos ⟨hd, rfl⟩, if_pos rfl, List.drop_left]
    exact ⟨⟨r, rfl, fun hmem => ((hname d hlabel).char _ hmem).2.2.1 rfl, hr⟩,
      (hname d hlabel).ne_nil⟩

theorem base_rename {source : Option Text} (h : SpellsBase t source x.toNat) :
    SpellsBase (rename f labels t) (source.map (renameLabel f labels)) x.toNat := by
  cases h with
  | register h =>
    rw [rename_of_register h]
    exact .register h
  | bare h =>
    rw [rename_of_bare h]
    exact .bare h
  | displaced h hd =>
    obtain ⟨h', hd'⟩ := displaced_rename hname h hd
    exact .displaced h' hd'

/-- Renamed operands are read as before, but for the text of the immediate. -/
theorem reads_rename (h : i.Reads operands fields source) :
    i.Reads (operands.map (rename f labels)) fields (source.map (renameLabel f labels)) := by
  cases h with
  | r hf ha hb hc =>
    simp only [List.map_cons, List.map_nil, rename_of_register ha, rename_of_register hb,
      rename_of_register hc]
    exact .r hf ha hb hc
  | s hf ha hb hd =>
    simp only [List.map_cons, List.map_nil, rename_of_register ha]
    exact .s hf ha (base_rename hname hb) (by simpa using hd)
  | u hf ha ht =>
    simp only [List.map_cons, List.map_nil, rename_of_register ha, rename_of_plain ht]
    exact .u hf ha (plain_renameLabel hname ht)
  | j hf ha hb hd =>
    simp only [List.map_cons, List.map_nil, rename_of_register ha]
    exact .j hf ha (base_rename hname hb) (by simpa using hd)

end

end Operand

/-! ## Immediates -/

theorem Immediate.resolve_rename {w : Width} {mode : Option AddressingMode} {v : Word}
    (h : resolve t w ⟨labels, mode, here⟩ = .ok v)
    (hget : table.get? (renameLabel f labels t) = labels.get? t) :
    resolve (renameLabel f labels t) w ⟨table, mode, here⟩ = .ok v := by
  cases ha : labels.get? t with
  | none =>
    have hsame : renameLabel f labels t = t := by
      rw [renameLabel, LabelTable.contains, ha]
      rfl
    rw [hsame, ha] at hget
    rw [hsame, resolve_of_not_label hget]
    exact (resolve_of_not_label ha).symm.trans h
  | some a =>
    rw [ha] at hget
    rw [resolve_of_label ha, reference] at h
    rw [resolve_of_label hget, reference]
    cases mode with
    | none => cases h
    | some mode => cases mode <;> exact h

theorem Instruction.finish_rename {p : Word × Option ImmediateWord}
    (h : i.finish fields source ⟨labels, i.addressing, here⟩ = .ok p)
    (hget : ∀ t, source = some t → table.get? (renameLabel f labels t) = labels.get? t) :
    ∃ q, i.finish fields (source.map (renameLabel f labels)) ⟨table, i.addressing, here⟩ = .ok q ∧
      q.1 = p.1 ∧ q.2.map (·.value) = p.2.map (·.value) := by
  obtain ⟨rfl, rfl⟩ | ⟨t, v, rfl, hv, rfl⟩ := finish_eq_ok h
  · exact ⟨_, rfl, rfl, rfl⟩
  · have hv' := Immediate.resolve_rename hv (hget t rfl)
    refine ⟨_, map_eq_ok.2 ⟨v, hv', rfl⟩, ?_⟩
    unfold emit
    cases i.cycles <;> exact ⟨rfl, rfl⟩

/-! ## Lines -/

namespace Line

theorem Renames.code_eq_nil_iff (h : l.Renames f labels k) : k.code = [] ↔ l.code = [] := by
  rw [← mnemonic_eq_nil_iff, ← mnemonic_eq_nil_iff, h.mnemonic]

theorem Renames.steps (h : l.Renames f labels k) : l.StepsAlike catalog k :=
  ⟨h.code_eq_nil_iff, by rw [h.mnemonic]⟩

theorem Renames.invokes (h : l.Renames f labels k) (hi : l.withoutLabel.Invokes catalog i operands) :
    k.withoutLabel.Invokes catalog i (operands.map (rename f labels)) := by
  obtain ⟨name, hwords, hi⟩ := hi
  change l.code.words = _ at hwords
  have hname : name.words ≠ [] :=
    Text.words_ne_nil_of_mem_words (hwords ▸ List.mem_cons_self)
  have hmnemonic : k.mnemonic = name := by rw [h.mnemonic, mnemonic_of_words hwords]
  obtain ⟨rest, hrest⟩ := words_of_mnemonic hmnemonic hname
  have hoperands := h.operands
  rw [Line.operands, Line.operands, hwords, hrest, List.tail_cons, List.tail_cons] at hoperands
  exact ⟨name, hoperands ▸ hrest, hi⟩

/-- A line with its labels renamed is encoded as before, if the new names have the addresses of the
old ones. -/
theorem Renames.encode (h : l.Renames f labels k)
    (hname : ∀ a, labels.contains a = true → IsName (f a))
    (hget : ∀ t, l.Mentions t → table.get? (renameLabel f labels t) = labels.get? t)
    (he : l.withoutLabel.encode catalog labels here = .ok e) :
    ∃ e', k.withoutLabel.encode catalog table here = .ok e' ∧ e.SameWords e' := by
  obtain ⟨i, operands, fields, source, p, hi, hr, hf, rfl⟩ := encode_eq_ok_iff.1 he
  have hmentions : ∀ t, source = some t → table.get? (renameLabel f labels t) = labels.get? t :=
    fun t ht => hget t (mentions_of_takes hi (hr.takes_iff.2 ht))
  obtain ⟨q, hq, hword, hvalue⟩ := Instruction.finish_rename hf hmentions
  exact ⟨_, encode_eq_ok_iff.2 ⟨i, _, fields, _, q, h.invokes hi, reads_rename hname hr, hq, rfl⟩,
    rfl, hword, hvalue⟩

end Line

theorem Encoding.SameWords.next {e' : Encoding} (h : e.SameWords e') : e'.next = e.next := by
  have hsome : e'.immediate.isSome = e.immediate.isSome := by
    rw [← Option.isSome_map, h.value, Option.isSome_map]
  rw [Encoding.next, Encoding.next, h.address, Encoding.cycles, Encoding.cycles, hsome]

/-! ## Label tables -/

namespace Layout

/-- The new name of a label has the address of the old one. -/
theorem addressOf_rename (h : List.Forall₂ (Line.Renames f labels) lines others)
    (hinjective : ∀ l ∈ lines, ∀ a, l.label? = some a → f a = f name → a = name) :
    addressOf catalog (f name) others here = addressOf catalog name lines here := by
  induction h generalizing here with
  | nil => rfl
  | @cons l k lines others hl _ ih =>
    obtain ⟨hfirst, hrest⟩ := List.forall_mem_cons.1 hinjective
    -- a line defines the new name exactly if it defined the old one
    have hlabel : k.label? = some (f name) ↔ l.label? = some name := by
      rw [hl.label, Option.map_eq_some_iff]
      constructor
      · rintro ⟨a, ha, hfa⟩
        rw [ha, hfirst a ha hfa]
      · intro ha
        exact ⟨name, ha, rfl⟩
    rw [addressOf, addressOf, hl.steps.size, ih hrest]
    simp only [hlabel]

/-- No other name has an address. -/
theorem exists_of_addressOf_rename {a : Address}
    (h : List.Forall₂ (Line.Renames f labels) lines others)
    (ha : addressOf catalog name others here = some a) :
    ∃ l ∈ lines, ∃ n, l.label? = some n ∧ name = f n := by
  induction h generalizing here with
  | nil => cases ha
  | cons hl _ ih =>
    rw [addressOf] at ha
    split at ha
    · rename_i hk
      rw [hl.label] at hk
      obtain ⟨n, hn, rfl⟩ := Option.map_eq_some_iff.1 hk
      exact ⟨_, List.mem_cons_self, n, hn, rfl⟩
    · obtain ⟨l, hl, n, hn⟩ := ih ha
      exact ⟨l, List.mem_cons_of_mem _ hl, n, hn⟩

end Layout

namespace Listing

theorem contains_of_label (h : ofLines catalog lines = .ok listing) (hl : l ∈ lines)
    (hname : l.label? = some name) : listing.labels.contains name = true := by
  rw [LabelTable.contains, ← Option.ne_none_iff_isSome, ne_eq, get?_eq_none_iff h]
  exact fun hnone => hnone l hl hname

/-- The labels of renamed lines are the renamed labels. -/
theorem get?_table_rename (h : ofLines catalog lines = .ok listing)
    (hf : listing.labels.Hygienic f lines)
    (hlines : List.Forall₂ (Line.Renames f listing.labels) lines others) :
    (∀ n, listing.labels.contains n = true →
      (Layout.table catalog others 0 .empty).get? (f n) = listing.labels.get? n) ∧
    ∀ name a, (Layout.table catalog others 0 .empty).get? name = some a →
      ∃ n, listing.labels.contains n = true ∧ name = f n := by
  constructor
  · intro n hn
    rw [(ofLines_eq_ok_iff.1 h).2.1, Layout.get?_table_empty, Layout.get?_table_empty]
    refine Layout.addressOf_rename hlines fun l hl a ha => ?_
    exact hf.injective a n (contains_of_label h hl ha) hn
  · intro name a ha
    rw [Layout.get?_table_empty] at ha
    obtain ⟨l, hl, n, hn, rfl⟩ := Layout.exists_of_addressOf_rename hlines ha
    exact ⟨n, contains_of_label h hl hn, rfl⟩

/-- A program with its labels renamed has the same code, and its labels are those of the program under
their new names. -/
theorem ofLines_rename (h : ofLines catalog lines = .ok listing)
    (hf : listing.labels.Hygienic f lines)
    (hlines : List.Forall₂ (Line.Renames f listing.labels) lines others) :
    ∃ renamed, ofLines catalog others = .ok renamed ∧
      (∀ name a, renamed.labels.get? name = some a ↔
        ∃ n, name = f n ∧ listing.labels.get? n = some a) ∧
      List.Forall₂ Encoding.SameWords listing.encodings renamed.encodings := by
  obtain ⟨hknown, -, hes⟩ := ofLines_eq_ok_iff.1 h
  obtain ⟨hlabel, hother⟩ := get?_table_rename h hf hlines
  generalize htable : Layout.table catalog others 0 .empty = table at hlabel hother
  -- what a line mentions means what it meant, as a label or as anything else
  have hmentions : ∀ l ∈ lines, ∀ t, l.Mentions t →
      table.get? (renameLabel f listing.labels t) = listing.labels.get? t := by
    intro l hl t ht
    rw [renameLabel]
    cases hdefined : listing.labels.contains t with
    | true => exact hlabel t hdefined
    | false =>
      have hnone : listing.labels.get? t = none := by simpa [LabelTable.contains] using hdefined
      rw [if_neg Bool.false_ne_true, hnone]
      refine Option.eq_none_iff_forall_ne_some.2 fun a ha => ?_
      obtain ⟨n, hn, rfl⟩ := hother t a ha
      exact hf.fresh n hn l hl _ ht hdefined rfl
  have hsteps : List.Forall₂ (Line.StepsAlike catalog) lines others :=
    hlines.imp fun _ _ hl => hl.steps
  have hkept : List.Forall₂ (fun l k => ∀ a e, l.encode catalog listing.labels a = .ok e →
      ∃ e', k.encode catalog table (id a) = .ok e' ∧ e'.next = id e.next ∧ e.SameWords e')
      (Layout.kept lines) (Layout.kept others) := by
    have hmem := (List.forall₂_and_left lines others).2 ⟨fun l hl => hl, hlines⟩
    refine Layout.forall₂_kept hmem (fun l k hl => hl.2.code_eq_nil_iff) ?_
    intro l k hl a e he
    obtain ⟨e', he', hsame⟩ := hl.2.encode hf.name (hmentions l hl.1) he
    exact ⟨e', he', hsame.next, hsame⟩
  obtain ⟨es, hes', hsame⟩ := hes.transfer id hkept
  refine ⟨⟨table, es⟩, ?_, ?_, hsame⟩
  · exact ofLines_eq_ok_iff.2 ⟨Layout.known_of_stepsAlike hsteps hknown, htable.symm, hes'⟩
  · intro name a
    constructor
    · intro ha
      obtain ⟨n, hn, rfl⟩ := hother name a ha
      exact ⟨n, rfl, (hlabel n hn).symm.trans ha⟩
    · rintro ⟨n, rfl, ha⟩
      exact (hlabel n (Option.isSome_iff_exists.2 ⟨a, ha⟩)).trans ha

/-- Two labels change names. One is referred to by a displacement, the other by its address. -/
theorem ofLines_rename_swapped :
    let lines : List Line := [⟨1, "a: BR r0, b(r1)".toList⟩, ⟨2, "b: LIA r2, a".toList⟩,
      ⟨3, "LIW r3, 7".toList⟩]
    let others : List Line := [⟨1, "b: BR r0, a(r1)".toList⟩, ⟨2, "a: LIA r2 b".toList⟩,
      ⟨4, "LIW r3, 7".toList⟩]
    let swap : Text → Text := fun t => if t = ['a'] then ['b'] else if t = ['b'] then ['a'] else t
    ∃ listing renamed, ofLines Catalog.sample lines = .ok listing ∧
      ofLines Catalog.sample others = .ok renamed ∧
      (∀ name a, renamed.labels.get? name = some a ↔
        ∃ n, name = swap n ∧ listing.labels.get? n = some a) ∧
      List.Forall₂ Encoding.SameWords listing.encodings renamed.encodings := by
  intro lines others swap
  let labels : LabelTable := ⟨[(['b'], 4), (['a'], 0)], by decide⟩
  obtain ⟨es, hlisting⟩ : ∃ es, ofLines Catalog.sample lines = .ok ⟨labels, es⟩ := ⟨_, rfl⟩
  have hmem : ∀ a, labels.contains a = true → a ∈ [['b'], ['a']] :=
    fun a ha => LabelTable.contains_iff_mem.1 ha
  have hinjective : ∀ a ∈ [['b'], ['a']], ∀ b ∈ [['b'], ['a']], swap a = swap b → a = b := by decide
  have hlabel : ∀ a ∈ [['b'], ['a']], labels.contains (swap a) = true := by decide
  have hname : ∀ a ∈ [['b'], ['a']], IsName a := by
    intro a ha
    have hspelling : ∀ a ∈ [['b'], ['a']], a ≠ [] ∧ (a.all fun c => !Text.isSeparator c &&
        c != ':' && c != '(' && c != ')') = true ∧ register? a = .ok none := by decide
    obtain ⟨hne, hchars, hregister⟩ := hspelling a ha
    refine ⟨hne, fun c hc => ?_, register?_eq_none_iff.1 hregister⟩
    simpa [and_assoc] using List.all_eq_true.1 hchars c hc
  have hf : labels.Hygienic swap lines := by
    refine ⟨fun a b ha hb => hinjective a (hmem a ha) b (hmem b hb),
      fun a ha => hname _ (hmem _ (hlabel a (hmem a ha))), fun a ha l hl t ht hfree heq => ?_⟩
    rw [← heq, hlabel a (hmem a ha)] at hfree
    cases hfree
  have hfirst : Line.Renames swap labels ⟨1, "a: BR r0, b(r1)".toList⟩
      ⟨1, "b: BR r0, a(r1)".toList⟩ := ⟨by decide, by decide, by decide⟩
  have hsecond : Line.Renames swap labels ⟨2, "b: LIA r2, a".toList⟩ ⟨2, "a: LIA r2 b".toList⟩ :=
    ⟨by decide, by decide, by decide⟩
  have hthird : Line.Renames swap labels ⟨3, "LIW r3, 7".toList⟩ ⟨4, "LIW r3, 7".toList⟩ :=
    ⟨by decide, by decide, by decide⟩
  obtain ⟨renamed, hrenamed, hcode⟩ :=
    ofLines_rename hlisting hf (.cons hfirst (.cons hsecond (.cons hthird .nil)))
  exact ⟨_, renamed, hlisting, hrenamed, hcode⟩

end Listing
end Asm16
