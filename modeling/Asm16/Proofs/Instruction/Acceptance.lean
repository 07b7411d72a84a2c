-- SUMMARY: A line is encoded exactly if its operands follow the grammar of the instruction it begins with.
import Asm16.Proofs.Immediate.Literal
import Asm16.Proofs.Instruction.Reading

/-!
# Acceptance

Whether a line is encoded is decided in five places, from its words to the value of its immediate.
Here it is said as a grammar of the words after the mnemonic: one pattern for each format, in which
registers are numbered up to fifteen, and an immediate is a literal that fits, or a label that the
instruction has an addressing mode for. The address of the line plays no part.
-/

namespace Asm16

open Operand Immediate

variable {catalog : Catalog} {labels : LabelTable} {here : Address} {l : Line} {i : Instruction}
  {operands : List Text} {fields : Fields} {source : Option Text} {ctx : Context} {t b : Text}

/-- The text spells a register that there is. -/
def Operand.IsRegister (t : Text) : Prop := ∃ n ≤ 15, SpellsRegister t n

namespace Instruction

/-- The text is a register or a displaced address. A displacement that is not empty needs two cycles,
and a value in the second word. -/
def AcceptsBase (i : Instruction) (labels : LabelTable) (b : Text) : Prop :=
  IsRegister b ∨ ∃ d n, SpellsDisplaced b d n ∧ n ≤ 15 ∧
    (d ≠ [] → i.cycles = .two ∧ Resolves labels i.addressing d .word)

/-- The text neither spells a register nor has a parenthesis that opens before another closes, and it
has a value in the nibble of a single word or in the second of two. -/
def AcceptsImmediate (i : Instruction) (labels : LabelTable) (t : Text) : Prop :=
  ¬ t.Parenthesised ∧ (∀ n, ¬ SpellsRegister t n) ∧
    match i.cycles with
    | .one => Resolves labels i.addressing t .nibble
    | .two => Resolves labels i.addressing t .word

/-- The operands follow the grammar of the instruction: three registers in format R, and a register
and a second operand in the others. -/
def Accepts (i : Instruction) (labels : LabelTable) (operands : List Text) : Prop :=
  match i.format, operands with
  | .r, [a, b, c] => IsRegister a ∧ IsRegister b ∧ IsRegister c
  | .s _, [a, b] => IsRegister a ∧ i.AcceptsBase labels b
  | .u _, [a, t] => IsRegister a ∧ i.AcceptsImmediate labels t
  | .j _, [a, b] => IsRegister a ∧ i.AcceptsBase labels b
  | _, _ => False

end Instruction

/-! ## The parts of the grammar -/

theorem Operand.isRegister_iff : IsRegister t ↔ ∃ x : Nibble, SpellsRegister t x.toNat := by
  constructor
  · rintro ⟨n, hn, h⟩
    obtain ⟨x, rfl⟩ := Nibble.exists_toNat_eq hn
    exact ⟨x, h⟩
  · rintro ⟨x, h⟩
    exact ⟨x.toNat, Nat.le_of_lt_succ x.isLt, h⟩

namespace Instruction

/-- The text of an immediate, if there is one, has a value in the place the instruction has for it. -/
def HasValue (i : Instruction) (labels : LabelTable) (source : Option Text) : Prop :=
  ∀ t ∈ source, Resolves labels i.addressing t i.cycles.width

theorem hasValue_none : i.HasValue labels none := by simp [HasValue]

theorem hasValue_some :
    i.HasValue labels (some t) ↔ Resolves labels i.addressing t i.cycles.width := by
  simp [HasValue]

theorem acceptsBase_iff :
    i.AcceptsBase labels b ↔
      ∃ d, ∃ x : Nibble, SpellsBase b d x.toNat ∧ (d.isSome → i.cycles = .two) ∧
        i.HasValue labels d := by
  unfold AcceptsBase
  rw [isRegister_iff]
  constructor
  · rintro (⟨x, h⟩ | ⟨d, n, h, hn, hd⟩)
    · exact ⟨none, x, .register h, by simp, hasValue_none⟩
    · obtain ⟨x, rfl⟩ := Nibble.exists_toNat_eq hn
      by_cases hempty : d = []
      · exact ⟨none, x, .bare (hempty ▸ h), by simp, hasValue_none⟩
      · obtain ⟨htwo, hvalue⟩ := hd hempty
        refine ⟨some d, x, .displaced h hempty, fun _ => htwo, ?_⟩
        rw [hasValue_some, htwo]
        exact hvalue
  · rintro ⟨d, x, h, htwo, hvalue⟩
    have hx : x.toNat ≤ 15 := Nat.le_of_lt_succ x.isLt
    cases h with
    | register h => exact .inl ⟨x, h⟩
    | bare h => exact .inr ⟨[], _, h, hx, fun hne => absurd rfl hne⟩
    | @displaced d _ h hne =>
      have htwo : i.cycles = .two := htwo rfl
      rw [hasValue_some, htwo] at hvalue
      exact .inr ⟨d, _, h, hx, fun _ => ⟨htwo, hvalue⟩⟩

theorem acceptsImmediate_iff :
    i.AcceptsImmediate labels t ↔ SpellsPlain t ∧ i.HasValue labels (some t) := by
  rw [hasValue_some, SpellsPlain, and_assoc]
  unfold AcceptsImmediate
  cases i.cycles <;> rfl

/-! ## The grammar -/

/-- Operands follow the grammar exactly if they can be read and what is read has a value. -/
theorem accepts_iff :
    i.Accepts labels operands ↔
      ∃ fields source, i.Reads operands fields source ∧ i.HasValue labels source := by
  constructor
  · intro h
    unfold Accepts at h
    split at h
    case h_1 a b c hf =>
      simp only [isRegister_iff] at h
      obtain ⟨⟨x, hx⟩, ⟨y, hy⟩, ⟨z, hz⟩⟩ := h
      exact ⟨_, none, .r hf hx hy hz, hasValue_none⟩
    case h_2 func1 a b hf =>
      rw [isRegister_iff, acceptsBase_iff] at h
      obtain ⟨⟨x, hx⟩, d, y, hy, hd, hvalue⟩ := h
      exact ⟨_, d, .s hf hx hy hd, hvalue⟩
    case h_3 func2 a t hf =>
      rw [isRegister_iff, acceptsImmediate_iff] at h
      obtain ⟨⟨x, hx⟩, ht, hvalue⟩ := h
      exact ⟨_, some t, .u hf hx ht, hvalue⟩
    case h_4 func3 a b hf =>
      rw [isRegister_iff, acceptsBase_iff] at h
      obtain ⟨⟨x, hx⟩, d, y, hy, hd, hvalue⟩ := h
      exact ⟨_, d, .j hf hx hy hd, hvalue⟩
    case h_5 => cases h
  · rintro ⟨fields, source, hr, hvalue⟩
    unfold Accepts
    cases hr with
    | r hf ha hb hc =>
      rw [hf]
      exact ⟨isRegister_iff.2 ⟨_, ha⟩, isRegister_iff.2 ⟨_, hb⟩, isRegister_iff.2 ⟨_, hc⟩⟩
    | s hf ha hb hd =>
      rw [hf]
      exact ⟨isRegister_iff.2 ⟨_, ha⟩, acceptsBase_iff.2 ⟨_, _, hb, hd, hvalue⟩⟩
    | u hf ha ht =>
      rw [hf]
      exact ⟨isRegister_iff.2 ⟨_, ha⟩, acceptsImmediate_iff.2 ⟨ht, hvalue⟩⟩
    | j hf ha hb hd =>
      rw [hf]
      exact ⟨isRegister_iff.2 ⟨_, ha⟩, acceptsBase_iff.2 ⟨_, _, hb, hd, hvalue⟩⟩

/-- What was read is finished exactly if its immediate has a value. -/
theorem exists_finish_iff :
    (∃ p, i.finish fields source ⟨labels, i.addressing, here⟩ = .ok p) ↔
      i.HasValue labels source := by
  cases source with
  | none => simp [finish, hasValue_none]
  | some t =>
    have hresolve : (∃ v, resolve t i.cycles.width ⟨labels, i.addressing, here⟩ = .ok v) ↔
        Resolves labels i.addressing t i.cycles.width := exists_resolve_iff
    rw [hasValue_some, ← hresolve]
    simp only [finish, map_eq_ok]
    constructor
    · rintro ⟨_, v, hv, -⟩
      exact ⟨v, hv⟩
    · rintro ⟨v, hv⟩
      exact ⟨_, v, hv, rfl⟩

end Instruction

/-! ## Lines -/

namespace Line

/-- A line is encoded, under every label table and at every address, exactly if its first word is a
mnemonic of the catalog and the others follow the grammar of the instruction. -/
theorem exists_encode_iff (l : Line) (catalog : Catalog) (labels : LabelTable) (here : Address) :
    (∃ e, l.encode catalog labels here = .ok e) ↔
      ∃ name operands i, l.text.words = name :: operands ∧ catalog.lookup? name = some i ∧
        i.Accepts labels operands := by
  simp only [encode_eq_ok_iff]
  constructor
  · rintro ⟨e, i, operands, fields, source, p, ⟨name, hwords, hi⟩, hr, hf, -⟩
    have hvalue := Instruction.exists_finish_iff.1 ⟨p, hf⟩
    exact ⟨name, operands, i, hwords, hi, Instruction.accepts_iff.2 ⟨fields, source, hr, hvalue⟩⟩
  · rintro ⟨name, operands, i, hwords, hi, ha⟩
    obtain ⟨fields, source, hr, hvalue⟩ := Instruction.accepts_iff.1 ha
    obtain ⟨p, hf⟩ := Instruction.exists_finish_iff.2 hvalue
    exact ⟨_, i, operands, fields, source, p, ⟨name, hwords, hi⟩, hr, hf, rfl⟩

end Line
end Asm16
