-- SUMMARY: A catalog may grow at its end: a program that it could lay out is assembled as before.
import Asm16.Proofs.Listing.Mnemonics

/-!
# Larger catalogs

A mnemonic belongs to the first instruction that has it, so instructions added after all others change
no lookup that succeeds, whatever their names. Both passes ask a catalog for nothing but the mnemonics
of the program. Once the first pass has found them all, a larger catalog gives the same layout, and the
second pass comes to the same end, be it a listing or a refused line.
-/

namespace Asm16

variable {small large : Catalog} {labels : LabelTable} {here : Address} {l : Line}
  {lines : List Line} {name : Text} {i : Instruction} {layout : Layout}

/-! ## Lookups -/

theorem Catalog.lookup?_extended (h : small.instructions <+: large.instructions)
    (hi : small.lookup? name = some i) : large.lookup? name = some i := by
  obtain ⟨added, hadded⟩ := h
  rw [lookup?, ← hadded, List.find?_append, ← lookup?, hi, Option.some_or]

/-! ## The first pass -/

theorem Line.size_extended (h : small.instructions <+: large.instructions)
    (hknown : l.code ≠ [] → (small.lookup? l.mnemonic).isSome) : l.size large = l.size small := by
  rw [size, size, step?, step?]
  by_cases hcode : l.code = []
  · rw [hcode]
    rfl
  · obtain ⟨i, hi⟩ := Option.isSome_iff_exists.1 (hknown hcode)
    rw [hi, Catalog.lookup?_extended h hi]

namespace Layout

theorem table_extended (h : small.instructions <+: large.instructions)
    (hknown : Known small lines) (here : Address) (labels : LabelTable) :
    table large lines here labels = table small lines here labels := by
  induction lines generalizing here labels with
  | nil => rfl
  | cons l lines ih =>
    obtain ⟨hl, hlines⟩ := known_cons_iff.1 hknown
    rw [table, table, Line.size_extended h hl, ih hlines]

theorem known_extended (h : small.instructions <+: large.instructions)
    (hknown : Known small lines) : Known large lines := by
  intro l hl
  obtain ⟨i, hi⟩ := Option.isSome_iff_exists.1 (hknown l hl)
  exact Option.isSome_iff_exists.2 ⟨i, Catalog.lookup?_extended h hi⟩

theorem ofLines_extended (h : small.instructions <+: large.instructions)
    (hlayout : ofLines small lines = .ok layout) : ofLines large lines = .ok layout := by
  obtain ⟨hknown, rfl⟩ := ofLines_eq_ok_iff.1 hlayout
  exact ofLines_eq_ok_iff.2 ⟨known_extended h hknown, by rw [table_extended h hknown]⟩

end Layout

/-! ## The second pass -/

/-- A line that the first pass kept is encoded or refused as before. -/
theorem Line.encode_extended (h : small.instructions <+: large.instructions)
    (hknown : (small.lookup? l.mnemonic).isSome) :
    l.withoutLabel.encode large labels here = l.withoutLabel.encode small labels here := by
  cases hwords : l.code.words with
  | nil =>
    -- neither catalog is asked about code that has separators only
    rw [encode_of_wordless hwords, encode_of_wordless hwords]
  | cons name operands =>
    obtain ⟨i, hi⟩ := Option.isSome_iff_exists.1 hknown
    rw [mnemonic_of_words hwords] at hi
    have hsmall : l.withoutLabel.Invokes small i operands := ⟨name, hwords, hi⟩
    have hlarge : l.withoutLabel.Invokes large i operands :=
      ⟨name, hwords, Catalog.lookup?_extended h hi⟩
    rw [hsmall.encode, hlarge.encode]

/-- The second pass is the same under catalogs by which each line is encoded or refused alike. -/
theorem Encoding.run_congr {done : List Encoding}
    (hlines : ∀ l ∈ lines, ∀ here, l.encode large labels here = l.encode small labels here) :
    run large labels lines here done = run small labels lines here done := by
  induction lines generalizing here done with
  | nil => rfl
  | cons l lines ih =>
    obtain ⟨hl, hlines⟩ := List.forall_mem_cons.1 hlines
    rw [run, run, hl here]
    cases l.encode small labels here with
    | error cause => rfl
    | ok e => exact ih hlines

/-- No line is refused in the second pass for what the first pass refuses a line for. -/
theorem Line.encode_ne_unresolvable (l : Line) (catalog : Catalog) (name : Text) :
    l.encode catalog labels here ≠ .error (.unresolvable name) := by
  unfold encode
  split
  · simp
  · split
    · simp
    · split <;> simp

/-! ## Assemblies -/

namespace Listing

/-- A program that could be laid out comes to the same end. -/
theorem ofLines_of_layout (h : small.instructions <+: large.instructions)
    (hlayout : Layout.ofLines small lines = .ok layout) :
    ofLines large lines = ofLines small lines := by
  have hencodings : Encoding.ofLines large layout.labels layout.lines =
      Encoding.ofLines small layout.labels layout.lines := by
    obtain ⟨hknown, rfl⟩ := Layout.ofLines_eq_ok_iff.1 hlayout
    refine Encoding.run_congr fun k hk here => ?_
    obtain ⟨l, hl, rfl⟩ := List.mem_map.1 hk
    exact Line.encode_extended h (hknown l hl)
  rw [ofLines, ofLines, hlayout, Layout.ofLines_extended h hlayout]
  dsimp only
  rw [hencodings]

/-- The first pass succeeds exactly if the assembly does not end in a line without a known
mnemonic. -/
theorem exists_layout_iff (catalog : Catalog) (lines : List Line) :
    (∃ layout, Layout.ofLines catalog lines = .ok layout) ↔
      ∀ l name, ofLines catalog lines ≠ .error ⟨l, .unresolvable name⟩ := by
  constructor
  · rintro ⟨layout, hlayout⟩ l name herror
    obtain ⟨hknown, -⟩ := Layout.ofLines_eq_ok_iff.1 hlayout
    obtain ⟨n, hfails⟩ := ofLines_eq_error_iff.1 herror
    cases hfails with
    | unresolvable hlines hbefore hl => exact Layout.known_iff.1 hknown l (by simp [hlines]) hl
    | refused _ _ _ _ he => exact Line.encode_ne_unresolvable _ _ _ he
  · intro h
    by_contra hnone
    have hunknown : ¬ Layout.Known catalog lines := fun hknown =>
      hnone ⟨_, Layout.ofLines_eq_ok_iff.2 ⟨hknown, rfl⟩⟩
    obtain ⟨before, l, after, hlines, hbefore, hl⟩ := Layout.not_known_iff.1 hunknown
    exact h l _ (ofLines_eq_error_iff.2 ⟨_, .unresolvable hlines hbefore hl⟩)

/-- Under a larger catalog a program makes the same listing, or fails in the second pass with the same
error. It fails there if it fails for any other cause than a line without a known mnemonic. -/
theorem ofLines_extended_catalog (h : small.instructions <+: large.instructions)
    (lines : List Line) :
    (∀ listing, ofLines small lines = .ok listing → ofLines large lines = .ok listing) ∧
    (∀ d, ofLines small lines = .error d → (∀ name, d.cause ≠ .unresolvable name) →
      ofLines large lines = .error d) ∧
    ((∃ layout, Layout.ofLines small lines = .ok layout) ↔
      ∀ l name, ofLines small lines ≠ .error ⟨l, .unresolvable name⟩) := by
  refine ⟨?_, ?_, exists_layout_iff small lines⟩
  · intro listing hok
    have hresolved : ∀ l name, ofLines small lines ≠ .error ⟨l, .unresolvable name⟩ := by
      intro l name herror
      cases hok.symm.trans herror
    obtain ⟨layout, hlayout⟩ := (exists_layout_iff small lines).2 hresolved
    rw [ofLines_of_layout h hlayout, hok]
  · intro d herror hcause
    have hresolved : ∀ l name, ofLines small lines ≠ .error ⟨l, .unresolvable name⟩ := by
      intro l name hd
      cases herror.symm.trans hd
      exact hcause name rfl
    obtain ⟨layout, hlayout⟩ := (exists_layout_iff small lines).2 hresolved
    rw [ofLines_of_layout h hlayout, herror]

/-- The larger catalog has another instruction of the name in lower case, of another size. A program
with a label after such an instruction is assembled as before, and one with a literal too large for
its field is refused as before. -/
theorem ofLines_extended_catalog_duplicate :
    let large : Catalog := ⟨Catalog.sample.instructions ++
      [⟨"add".toList, 9, .r, .two, none⟩, ⟨"NOP".toList, 10, .r, .one, none⟩]⟩
    let lines := Line.numbered 1 ["add r1,r2,r3".toList, "a: BR r0, a(r1)".toList]
    let failing := Line.numbered 1 ["add r1,r2,r3".toList, "LI r1, 99".toList]
    (∃ listing, ofLines Catalog.sample lines = .ok listing ∧ ofLines large lines = .ok listing) ∧
      ∃ d, ofLines Catalog.sample failing = .error d ∧ ofLines large failing = .error d := by
  intro large lines failing
  have hlarge : Catalog.sample.instructions <+: large.instructions := List.prefix_append _ _
  have hok : ofLines Catalog.sample lines = .ok _ := rfl
  have herror : ofLines Catalog.sample failing = .error
      ⟨⟨2, "LI r1, 99".toList⟩, .operand (.outOfRange "99".toList .nibble)⟩ := rfl
  obtain ⟨hsame, -, -⟩ := ofLines_extended_catalog hlarge lines
  obtain ⟨-, hrefused, -⟩ := ofLines_extended_catalog hlarge failing
  exact ⟨⟨_, hok, hsame _ hok⟩, _, herror, hrefused _ herror fun _ => Cause.noConfusion⟩

end Listing
end Asm16
