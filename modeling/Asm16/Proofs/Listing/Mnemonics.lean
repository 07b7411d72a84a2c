-- SUMMARY: The second pass finds the instruction that the first one stepped by, unless a mnemonic is made of separators.
import Asm16.Catalog.Builder
import Asm16.Proofs.Listing.Outcome
import Asm16.Proofs.Text.Lowercase

/-!
# Mnemonics in both passes

The first pass looks up the first word of a line's code, or all of the code if it has no word. The
second pass looks up the first word only. The two differ on code that is made of separators, which
the first pass is to refuse: it does so in every catalog but one with such a mnemonic. In a catalog
like that the line is kept, and the second pass ends with an unknown mnemonic.
-/

namespace Asm16

variable {catalog : Catalog} {labels : LabelTable} {here : Address} {l : Line}
  {lines : List Line} {i : Instruction} {name t : Text} {operands : List Text}

/-- No mnemonic is made of separators only. -/
def Catalog.HasWords (catalog : Catalog) : Prop :=
  ∀ i ∈ catalog.instructions, i.mnemonic ≠ [] → i.mnemonic.words ≠ []

instance : Decidable catalog.HasWords :=
  inferInstanceAs (Decidable (∀ i ∈ catalog.instructions, _))

/-- What the first pass finds out about mnemonics holds good in the second. -/
structure Layout.Settles (catalog : Catalog) (lines : List Line) : Prop where
  /-- A line that is kept has a first word, and the word stands for the instruction whose cycles the
  first pass stepped by. -/
  kept : ∀ layout, Layout.ofLines catalog lines = .ok layout →
    List.Forall₂ (fun l k => ∃ name operands i, k = l.withoutLabel ∧
      k.text.words = name :: operands ∧ catalog.lookup? name = some i ∧
      catalog.lookup? l.mnemonic = some i) (Layout.coded lines) layout.lines
  /-- Code without a word ends the first pass, unless an earlier line does. -/
  wordless : ∀ l ∈ lines, l.code ≠ [] → l.code.words = [] →
    ∃ x ∈ lines, Layout.ofLines catalog lines = .error ⟨x, .unresolvable x.mnemonic⟩
  /-- No line is refused for an unknown mnemonic. -/
  known : ∀ l name, Listing.ofLines catalog lines ≠ .error ⟨l, .unknownMnemonic name⟩

namespace Line

theorem mnemonic_eq_nil_iff : l.mnemonic = [] ↔ l.code = [] := by
  cases h : l.code.words with
  | nil => rw [mnemonic_of_wordless h]
  | cons name operands =>
    have hname : name ≠ [] := by
      rintro rfl
      exact Text.words_ne_nil_of_mem_words (h ▸ List.mem_cons_self) rfl
    refine iff_of_false (mnemonic_of_words h ▸ hname) fun hcode => ?_
    rw [hcode] at h
    cases h

/-- A mnemonic with a word in it is the first word of the code. -/
theorem words_of_mnemonic (h : l.mnemonic = name) (hname : name.words ≠ []) :
    ∃ operands, l.code.words = name :: operands := by
  cases hwords : l.code.words with
  | nil =>
    rw [mnemonic_of_wordless hwords] at h
    exact absurd (h ▸ hwords) hname
  | cons other operands => exact ⟨operands, by rw [← h, mnemonic_of_words hwords]⟩

/-- A text without words defines no label. -/
theorem splitLabel_of_wordless (h : t.words = []) : splitLabel t = none := by
  have hcolon : t.has ':' = false := by
    refine Bool.eq_false_iff.2 fun hmem => ?_
    have hseparator := Text.words_eq_nil_iff.1 h ':' (Text.has_iff_mem.1 hmem)
    exact absurd hseparator (by decide)
  rw [splitLabel, hcolon]
  rfl

theorem withoutLabel_of_wordless (h : l.text.words = []) : l.withoutLabel = l := by
  rw [withoutLabel, code, splitLabel_of_wordless h]

theorem define_of_wordless (h : l.text.words = []) : l.define labels here = labels := by
  rw [define, label?, splitLabel_of_wordless h, Option.map_none]

/-- Code that the catalog knows has words if every mnemonic has. -/
theorem words_ne_nil_of_lookup? (h : catalog.HasWords) (hcode : l.code ≠ [])
    (hi : catalog.lookup? l.mnemonic = some i) : l.code.words ≠ [] := by
  intro hwords
  have hsame : Text.sameWord i.mnemonic l.code = true := by
    rw [← mnemonic_of_wordless hwords]
    exact Catalog.isNamed_of_lookup? hi
  refine h i (Catalog.mem_of_lookup? hi) ?_ ((Text.words_eq_nil_iff_of_sameWord hsame).2 hwords)
  exact mt (Text.eq_nil_iff_of_sameWord hsame).1 hcode

/-- In such a catalog, the first word of a line that the first pass knows stands for the same
instruction. -/
theorem exists_words (h : catalog.HasWords) (hcode : l.code ≠ [])
    (hknown : (catalog.lookup? l.mnemonic).isSome) :
    ∃ name operands i, l.code.words = name :: operands ∧ catalog.lookup? name = some i ∧
      catalog.lookup? l.mnemonic = some i := by
  obtain ⟨i, hi⟩ := Option.isSome_iff_exists.1 hknown
  obtain ⟨name, operands, hwords⟩ := List.exists_cons_of_ne_nil (words_ne_nil_of_lookup? h hcode hi)
  refine ⟨name, operands, i, hwords, ?_, hi⟩
  rw [← mnemonic_of_words hwords]
  exact hi

/-- A line whose mnemonic is known is refused for its operands only. -/
theorem encode_ne_unknownMnemonic (hwords : l.text.words = name :: operands)
    (hi : catalog.lookup? name = some i) (other : Text) :
    l.encode catalog labels here ≠ .error (.unknownMnemonic other) := by
  unfold encode
  rw [hwords]
  dsimp only
  rw [hi]
  dsimp only
  split <;> simp

theorem encode_of_wordless (h : l.text.words = []) :
    l.encode catalog labels here = .error (.unknownMnemonic l.text) := by
  unfold encode
  rw [h]

end Line

namespace Layout

theorem lookup?_of_known (h : Known catalog lines) (hl : l ∈ lines) (hcode : l.code ≠ []) :
    (catalog.lookup? l.mnemonic).isSome :=
  h l (List.mem_filter.2 ⟨hl, by simpa using hcode⟩)

theorem settles_of_hasWords (h : catalog.HasWords) (lines : List Line) :
    Settles catalog lines := by
  constructor
  · intro layout hlayout
    obtain ⟨hknown, rfl⟩ := ofLines_eq_ok_iff.1 hlayout
    rw [kept, List.forall₂_map_right_iff, List.forall₂_same]
    intro l hl
    obtain ⟨hmem, hcode⟩ := List.mem_filter.1 hl
    obtain ⟨name, operands, i, hwords, hi⟩ :=
      Line.exists_words h (by simpa using hcode) (hknown l hl)
    exact ⟨name, operands, i, rfl, hwords, hi⟩
  · intro l hl hcode hwords
    have hunknown : ¬ Known catalog lines := by
      intro hknown
      obtain ⟨name, operands, i, hcons, -⟩ :=
        Line.exists_words h hcode (lookup?_of_known hknown hl hcode)
      exact absurd (hwords.symm.trans hcons) (List.cons_ne_nil _ _).symm
    obtain ⟨before, x, after, rfl, hbefore, hx⟩ := not_known_iff.1 hunknown
    exact ⟨x, by simp, ofLines_of_unresolvable hbefore hx⟩
  · intro l name herror
    obtain ⟨n, hfails⟩ := Listing.ofLines_eq_error_iff.1 herror
    cases hfails with
    | @refused before after x es cause hknown hlines hcode _ hrefused =>
      have hx : x ∈ lines := by simp [hlines]
      obtain ⟨first, operands, i, hwords, hi, -⟩ :=
        Line.exists_words h hcode (lookup?_of_known (known_iff.2 hknown) hx hcode)
      exact Line.encode_ne_unknownMnemonic hwords hi name hrefused

end Layout

namespace Listing

/-- Code that is made of separators is kept if it is a mnemonic, and ends the second pass. -/
theorem ofLines_of_wordless (hi : i ∈ catalog.instructions) (hne : i.mnemonic ≠ [])
    (hwords : i.mnemonic.words = []) (n : Nat) :
    Layout.ofLines catalog [⟨n, i.mnemonic⟩] = .ok ⟨.empty, [⟨n, i.mnemonic⟩]⟩ ∧
      ofLines catalog [⟨n, i.mnemonic⟩] =
        .error ⟨⟨n, i.mnemonic⟩, .unknownMnemonic i.mnemonic⟩ := by
  have hline : Line.withoutLabel ⟨n, i.mnemonic⟩ = ⟨n, i.mnemonic⟩ :=
    Line.withoutLabel_of_wordless hwords
  have hcode : Line.code ⟨n, i.mnemonic⟩ = i.mnemonic := congrArg Line.text hline
  have hcoded : Layout.coded [⟨n, i.mnemonic⟩] = [⟨n, i.mnemonic⟩] := by
    simp [Layout.coded, hcode, hne]
  have hknown : Layout.Known catalog [⟨n, i.mnemonic⟩] := by
    intro l hl
    rw [hcoded] at hl
    obtain rfl := List.mem_singleton.1 hl
    rw [Line.mnemonic_of_wordless (by rw [hcode, hwords]), hcode, Catalog.lookup?]
    exact List.find?_isSome.2 ⟨i, hi, Text.sameWord_refl _⟩
  have hlayout : Layout.ofLines catalog [⟨n, i.mnemonic⟩] = .ok ⟨.empty, [⟨n, i.mnemonic⟩]⟩ := by
    refine Layout.ofLines_eq_ok_iff.2 ⟨hknown, ?_⟩
    rw [Layout.table, Layout.table, Line.define_of_wordless hwords, Layout.kept, hcoded,
      List.map_singleton, hline]
  refine ⟨hlayout, ?_⟩
  rw [ofLines, hlayout]
  dsimp only
  rw [Encoding.ofLines, Encoding.run, Line.encode_of_wordless hwords]

/-- The second pass finds what the first one found, whatever the lines, exactly if no mnemonic is
made of separators. -/
theorem settles_iff_hasWords (catalog : Catalog) :
    (∀ lines, Layout.Settles catalog lines) ↔ catalog.HasWords := by
  constructor
  · intro h i hi hne hwords
    exact (h [⟨1, i.mnemonic⟩]).known _ _ (ofLines_of_wordless hi hne hwords 1).2
  · intro h lines
    exact Layout.settles_of_hasWords h lines

/-- A builder takes a comma for a mnemonic. The line of a comma is then kept without a word, and the
assembly fails in the second pass. -/
theorem ofSource_unknown_mnemonic :
    ∃ catalog, Script.catalog [.register ⟨[','], some 1, none, .one, none⟩] = .ok catalog ∧
      Line.ofSource [','] = [⟨1, [',']⟩] ∧ Text.words [','] = [] ∧
      Layout.ofLines catalog [⟨1, [',']⟩] = .ok ⟨.empty, [⟨1, [',']⟩]⟩ ∧
      ofLines catalog [⟨1, [',']⟩] = .error ⟨⟨1, [',']⟩, .unknownMnemonic [',']⟩ ∧
      ofSource catalog [','] = .error ⟨⟨1, [',']⟩, .unknownMnemonic [',']⟩ :=
  ⟨⟨[⟨[','], 1, .r, .one, none⟩]⟩, rfl, rfl, rfl, rfl, rfl, rfl⟩

end Listing
end Asm16
