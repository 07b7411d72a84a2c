-- SUMMARY: The grammar of immediates: which texts are literals, of which numbers, and which resolve to a width.
import Asm16.Proofs.Immediate.Value

/-!
# Spelling of immediates

`Immediate.literal` strips marks and signs, checks digits and then compares values. The grammar here
says which texts are literals and of which number. The number may be of any size; it has to fit the
width, signed or unsigned, or the literal is out of range.
-/

namespace Asm16

/-- The number fits the width as a signed or as an unsigned one. -/
def Width.Holds (w : Width) (n : Int) : Prop := -2 ^ (w.bits - 1) ≤ n ∧ n ≤ 2 ^ w.bits - 1

instance (w : Width) (n : Int) : Decidable (w.Holds n) := inferInstanceAs (Decidable (_ ∧ _))

namespace Immediate

/-- The text is a literal of the number: digits after `0x` or `0b`, or decimal ones with or without a
sign. -/
inductive SpellsLiteral : Text → Int → Prop where
  | hexadecimal {x digits} : (x = 'x' ∨ x = 'X') → Numeral.isNumeral 16 digits = true →
      SpellsLiteral ('0' :: x :: digits) (Numeral.value 16 digits)
  | binary {b digits} : (b = 'b' ∨ b = 'B') → Numeral.isNumeral 2 digits = true →
      SpellsLiteral ('0' :: b :: digits) (Numeral.value 2 digits)
  | decimal {digits} : Numeral.isNumeral 10 digits = true →
      SpellsLiteral digits (Numeral.value 10 digits)
  | positive {digits} : Numeral.isNumeral 10 digits = true →
      SpellsLiteral ('+' :: digits) (Numeral.value 10 digits)
  | negative {digits} : Numeral.isNumeral 10 digits = true →
      SpellsLiteral ('-' :: digits) (-Numeral.value 10 digits)

/-- The text resolves to a value of the width: as a label of the table, if there is an addressing mode
for it, or else as a literal of a number that fits. -/
def Resolves (labels : LabelTable) (mode : Option AddressingMode) (t : Text) (w : Width) : Prop :=
  if labels.contains t then mode ≠ none else ∃ n, SpellsLiteral t n ∧ w.Holds n

variable {raw digits : Text} {base : Nat} {why : Malformation} {w : Width} {n : Int}

/-! ## Literals -/

theorem unsigned_of_numeral (h : Numeral.isNumeral base digits = true) :
    unsigned raw digits base why w =
      if w.Holds (Numeral.value base digits) then .ok (w.wrap (Numeral.value base digits))
      else .error (.outOfRange raw w) := by
  have hfits : Numeral.value base digits ≤ w.max ↔ w.Holds (Numeral.value base digits) := by
    unfold Width.Holds
    cases w <;> simp only [Width.max, Width.modulus, Width.bits, Width.digits] <;> omega
  simp only [unsigned, h, Bool.not_true, Bool.false_eq_true, if_false, hfits]

theorem signed_of_unsign {negative : Bool} (hraw : unsign raw = (negative, digits))
    (h : Numeral.isNumeral 10 digits = true)
    (hn : n = if negative then -(Numeral.value 10 digits : Int) else Numeral.value 10 digits) :
    signed raw w = if w.Holds n then .ok (w.wrap n) else .error (.outOfRange raw w) := by
  have hfits : (-(w.modulus / 2 : Nat) ≤ n ∧ n < w.modulus) ↔ w.Holds n := by
    unfold Width.Holds
    cases w <;> simp only [Width.modulus, Width.bits, Width.digits] <;> omega
  simp only [signed, hraw, h, Bool.not_true, Bool.false_eq_true, if_false, ← hn, hfits]

/-- A text of decimal digits begins with none of the marks and signs. -/
theorem not_mark_of_numeral (h : Numeral.isNumeral 10 raw = true) {c : Char}
    (hc : c ∈ ['x', 'X', 'b', 'B', '+', '-']) : c ∉ raw := by
  intro hmem
  simp only [Numeral.isNumeral, Bool.and_eq_true, List.all_eq_true] at h
  have hno : (['x', 'X', 'b', 'B', '+', '-'].all fun c => !Numeral.isDigit 10 c) = true := rfl
  have hnot : Numeral.isDigit 10 c = false := by simpa using List.all_eq_true.1 hno c hc
  exact absurd (h.2 c hmem) (by rw [hnot]; exact Bool.false_ne_true)

theorem literal_of_decimal (h : Numeral.isNumeral 10 raw = true) :
    literal raw w = signed raw w ∧ unsign raw = (false, raw) := by
  have hmark := fun c hc => not_mark_of_numeral (c := c) h hc
  constructor
  · unfold literal
    split
    · exact absurd (List.mem_cons_of_mem _ List.mem_cons_self) (hmark 'x' (by decide))
    · exact absurd (List.mem_cons_of_mem _ List.mem_cons_self) (hmark 'X' (by decide))
    · exact absurd (List.mem_cons_of_mem _ List.mem_cons_self) (hmark 'b' (by decide))
    · exact absurd (List.mem_cons_of_mem _ List.mem_cons_self) (hmark 'B' (by decide))
    · rfl
  · unfold unsign
    split
    · exact absurd List.mem_cons_self (hmark '-' (by decide))
    · exact absurd List.mem_cons_self (hmark '+' (by decide))
    · rfl

/-- A literal has the residue of its number as its value, or is out of range. -/
theorem SpellsLiteral.literal (h : SpellsLiteral raw n) :
    literal raw w = if w.Holds n then .ok (w.wrap n) else .error (.outOfRange raw w) := by
  cases h with
  | hexadecimal hx hd => rcases hx with rfl | rfl <;> exact unsigned_of_numeral hd
  | binary hb hd => rcases hb with rfl | rfl <;> exact unsigned_of_numeral hd
  | decimal hd =>
    obtain ⟨hliteral, hunsign⟩ := literal_of_decimal (w := w) hd
    rw [hliteral]
    exact signed_of_unsign hunsign hd rfl
  | @positive digits hd =>
    have hunsign : unsign ('+' :: digits) = (false, digits) := rfl
    exact signed_of_unsign hunsign hd rfl
  | @negative digits hd =>
    have hunsign : unsign ('-' :: digits) = (true, digits) := rfl
    exact signed_of_unsign hunsign hd rfl

theorem exists_spells_of_signed (h : Numeral.isNumeral 10 (unsign raw).2 = true) :
    ∃ n, SpellsLiteral raw n := by
  unfold unsign at h
  split at h
  · exact ⟨_, .negative h⟩
  · exact ⟨_, .positive h⟩
  · exact ⟨_, .decimal h⟩

/-- Any other text is malformed. -/
theorem literal_of_not_spells (h : ∀ n, ¬ SpellsLiteral raw n) :
    ∃ why, Immediate.literal raw w = .error (.malformed raw why) := by
  have hunsigned : ∀ {digits base why}, (Numeral.isNumeral base digits = true → False) →
      unsigned raw digits base why w = .error (.malformed raw why) := by
    intro digits base why hd
    rw [unsigned, if_pos (by simpa using hd)]
  unfold Immediate.literal
  split
  · exact ⟨_, hunsigned fun hd => h _ (.hexadecimal (.inl rfl) hd)⟩
  · exact ⟨_, hunsigned fun hd => h _ (.hexadecimal (.inr rfl) hd)⟩
  · exact ⟨_, hunsigned fun hd => h _ (.binary (.inl rfl) hd)⟩
  · exact ⟨_, hunsigned fun hd => h _ (.binary (.inr rfl) hd)⟩
  · refine ⟨.notLiteral, ?_⟩
    have hd : ¬ Numeral.isNumeral 10 (unsign raw).2 = true := fun hd => by
      obtain ⟨n, hn⟩ := exists_spells_of_signed hd
      exact h n hn
    simp only [signed, hd, Bool.not_false, if_true]

/-! ## Resolution -/

/-- The grammar decides whether an immediate has a value; the address plays no part. -/
theorem exists_resolve_iff {ctx : Context} :
    (∃ v, resolve raw w ctx = .ok v) ↔ Resolves ctx.labels ctx.addressing raw w := by
  unfold Resolves
  cases hget : ctx.labels.get? raw with
  | some a =>
    have hlabel : ctx.labels.contains raw = true := by rw [LabelTable.contains, hget]; rfl
    rw [resolve_of_label hget, if_pos hlabel, reference]
    cases ctx.addressing with
    | none => simp
    | some mode => cases mode <;> simp
  | none =>
    have hlabel : ¬ ctx.labels.contains raw = true := by simp [LabelTable.contains, hget]
    rw [resolve_of_not_label hget, if_neg hlabel]
    constructor
    · rintro ⟨v, hv⟩
      by_cases hspells : ∃ n, SpellsLiteral raw n
      · obtain ⟨n, hn⟩ := hspells
        refine ⟨n, hn, ?_⟩
        by_contra hfits
        rw [hn.literal, if_neg hfits] at hv
        cases hv
      · obtain ⟨why, herror⟩ := literal_of_not_spells (w := w) (not_exists.1 hspells)
        rw [herror] at hv
        cases hv
    · rintro ⟨n, hn, hfits⟩
      exact ⟨w.wrap n, by rw [hn.literal, if_pos hfits]⟩

end Immediate
end Asm16
