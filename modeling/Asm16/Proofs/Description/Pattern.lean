-- SUMMARY: Bit patterns as a grammar, and that parsing follows it.
import Asm16.Description.Pattern
import Asm16.Proofs.Text.Digits
import Mathlib.Data.List.TakeWhile

/-!
# Spelling of bit patterns

`Pattern.parse` drops the zeros in front and counts the digits that are left. The grammar here says which
texts are bit patterns and of which number, which may be of any size. A number fits a nibble exactly if
no more than four digits are left of it, so what is left is always read and never more than a nibble.
-/

namespace Asm16
namespace Pattern

/-- The text is the binary digits of the number, after `0b` or `0B` if it is marked. -/
inductive Spells : Text → Nat → Prop where
  | plain {digits} : Numeral.isNumeral 2 digits = true → Spells digits (Numeral.value 2 digits)
  | marked {b digits} : (b = 'b' ∨ b = 'B') → Numeral.isNumeral 2 digits = true →
      Spells ('0' :: b :: digits) (Numeral.value 2 digits)

/-- What is wrong with a text that is no bit pattern of a nibble. -/
inductive Fails : Text → Fault → Prop where
  | notBinary {bits} : (∀ n, ¬ Spells bits n) → Fails bits .notBinary
  | tooWide {bits n} : Spells bits n → 15 < n → Fails bits .tooWide

/-- The text is a bit pattern of a nibble. -/
def IsNibble (bits : Text) : Prop := ∃ n ≤ 15, Spells bits n

variable {bits digits : Text} {n : Nat} {x : Nibble} {why : Fault}

theorem isDigit_two (c : Char) : Numeral.isDigit 2 c = (c == '0' || c == '1') := by
  have hzero : c = '0' ↔ c.toNat = 48 := Char.toNat_inj.symm
  have hone : c = '1' ↔ c.toNat = 49 := Char.toNat_inj.symm
  have hle : ∀ a b : Char, a ≤ b ↔ a.toNat ≤ b.toNat := fun _ _ => Iff.rfl
  rw [Bool.eq_iff_iff, Bool.or_eq_true, beq_iff_eq, beq_iff_eq, hzero, hone, Numeral.isDigit,
    Numeral.digit?]
  simp only [hle, Char.reduceToNat]
  split
  · simp only [Option.any_some, decide_eq_true_eq]; omega
  · split
    · simp only [Option.any_some, decide_eq_true_eq]; omega
    · split
      · simp only [Option.any_some, decide_eq_true_eq]; omega
      · simp only [Option.any_none, Bool.false_eq_true, false_iff]; omega

theorem isNumeral_two (t : Text) :
    Numeral.isNumeral 2 t = !(t.isEmpty || !t.all (fun c => c == '0' || c == '1')) := by
  rw [Numeral.isNumeral, funext isDigit_two, Bool.not_or, Bool.not_not]

theorem unmark_of_numeral (h : Numeral.isNumeral 2 digits = true) : unmark digits = digits := by
  unfold unmark
  split
  · exact absurd h (by simp [isNumeral_two])
  · exact absurd h (by simp [isNumeral_two])
  · rfl

/-- A text is a bit pattern if it is a numeral without its mark. -/
theorem spells_iff :
    Spells bits n ↔ Numeral.isNumeral 2 (unmark bits) = true ∧ Numeral.value 2 (unmark bits) = n := by
  constructor
  · rintro (h | ⟨rfl | rfl, h⟩)
    · rw [unmark_of_numeral h]
      exact ⟨h, rfl⟩
    · exact ⟨h, rfl⟩
    · exact ⟨h, rfl⟩
  · rintro ⟨h, rfl⟩
    unfold unmark at h ⊢
    split at h
    · exact .marked (.inl rfl) h
    · exact .marked (.inr rfl) h
    · exact .plain h

/-- More than four digits are left without the zeros in front exactly if the value is too large. -/
theorem four_lt_length_iff (h : Numeral.isNumeral 2 digits = true) :
    4 < (digits.dropWhile (· == '0')).length ↔ 15 < Numeral.value 2 digits := by
  have hdigits : ∀ c ∈ digits.dropWhile (· == '0'), Numeral.isDigit 2 c = true := by
    intro c hc
    simp only [Numeral.isNumeral, Bool.and_eq_true, List.all_eq_true] at h
    exact h.2 c ((List.dropWhile_suffix _).subset hc)
  have hlt : Numeral.value 2 (digits.dropWhile (· == '0')) < 2 ^ (digits.dropWhile (· == '0')).length :=
    Numeral.value_lt hdigits
  rw [← Numeral.value_dropWhile_zero]
  have hhead := List.head?_dropWhile_not (· == '0') digits
  cases hs : digits.dropWhile (· == '0') with
  | nil => simp [Numeral.value]
  | cons c rest =>
    rw [hs] at hlt hdigits hhead
    have hone : Numeral.digit? c = some 1 := by
      have hc := hdigits c List.mem_cons_self
      rw [isDigit_two] at hc
      simp only [List.head?_cons] at hhead
      rw [hhead, Bool.false_or, beq_iff_eq] at hc
      rw [hc]
      rfl
    have hvalue : Numeral.value 2 (c :: rest) = 2 ^ rest.length + Numeral.value 2 rest := by
      rw [Numeral.value_cons, hone, Option.getD_some, Nat.one_mul]
      rfl
    constructor
    · intro hlength
      have hpow : 2 ^ 4 ≤ 2 ^ rest.length :=
        Nat.pow_le_pow_right (by decide) (by rw [List.length_cons] at hlength; omega)
      omega
    · intro hlarge
      by_contra hlength
      have hpow : 2 ^ (c :: rest).length ≤ 2 ^ 4 :=
        Nat.pow_le_pow_right (by decide) (by omega)
      omega

/-- A numeral has no sign. -/
theorem byte?_of_numeral (h : Numeral.isNumeral 2 digits = true) :
    byte? digits = if Numeral.value 2 digits < 256 then some (Numeral.value 2 digits) else none := by
  unfold byte?
  split
  · exact absurd h (by simp [isNumeral_two])
  · simp [h]

/-- What is left without the zeros in front is a numeral of the same value, with one zero for all. -/
theorem numeral_significant (h : Numeral.isNumeral 2 digits = true) {significant : Text}
    (hs : significant = if (digits.dropWhile (· == '0')).isEmpty then ['0']
      else digits.dropWhile (· == '0')) :
    Numeral.isNumeral 2 significant = true ∧ Numeral.value 2 significant = Numeral.value 2 digits := by
  rw [← Numeral.value_dropWhile_zero 2 digits, hs]
  split
  · rename_i hempty
    rw [List.isEmpty_iff.1 hempty]
    exact ⟨rfl, rfl⟩
  · rename_i hempty
    refine ⟨?_, rfl⟩
    simp only [Numeral.isNumeral, Bool.and_eq_true, List.all_eq_true] at h ⊢
    exact ⟨by simpa using hempty, fun c hc => h.2 c ((List.dropWhile_suffix _).subset hc)⟩

/-- Reading a bit pattern ends in its number, if that fits a nibble. -/
theorem Spells.ending (h : Spells bits n) :
    ending bits = if n ≤ 15 then .nibble (.truncate n) else .tooWide := by
  obtain ⟨hnumeral, rfl⟩ := spells_iff.1 h
  have hbinary := hnumeral
  rw [isNumeral_two, Bool.not_eq_true'] at hbinary
  obtain ⟨hsignificant, hvalue⟩ := numeral_significant hnumeral rfl
  simp only [Pattern.ending, hbinary, Bool.false_eq_true, if_false, four_lt_length_iff hnumeral,
    byte?_of_numeral hsignificant, hvalue]
  split
  · rw [if_neg (by omega)]
  · rename_i hle
    have hnibble : Nibble.ofNat? (Numeral.value 2 (unmark bits)) =
        some (.truncate (Numeral.value 2 (unmark bits))) := if_pos (by omega)
    rw [if_pos (by omega), if_pos (by omega)]
    simp only [hnibble]

theorem ending_of_not_spells (h : ∀ n, ¬ Spells bits n) : ending bits = .notBinary := by
  have hnumeral : Numeral.isNumeral 2 (unmark bits) = false := by
    refine Bool.eq_false_iff.2 fun hnumeral => ?_
    exact h _ (spells_iff.2 ⟨hnumeral, rfl⟩)
  rw [isNumeral_two, Bool.not_eq_false'] at hnumeral
  simp only [ending, hnumeral, if_true]

/-- A bit pattern is parsed as its number, if that fits a nibble. -/
theorem Spells.parse (h : Spells bits n) :
    parse bits = if n ≤ 15 then .ok (.truncate n) else .error .tooWide := by
  have hresult := result_ending bits
  rw [h.ending] at hresult
  split at hresult
  · rename_i hn
    rw [if_pos hn]
    exact (Option.some.inj hresult).symm
  · rename_i hn
    rw [if_neg hn]
    exact (Option.some.inj hresult).symm

theorem parse_of_not_spells (h : ∀ n, ¬ Spells bits n) : parse bits = .error .notBinary := by
  have hresult := result_ending bits
  rw [ending_of_not_spells h] at hresult
  exact (Option.some.inj hresult).symm

theorem parse_eq_ok_iff : parse bits = .ok x ↔ Spells bits x.toNat := by
  constructor
  · intro h
    by_cases hspells : ∃ n, Spells bits n
    · obtain ⟨n, hn⟩ := hspells
      rw [hn.parse] at h
      split at h
      · rename_i hle
        have hx : x.toNat = n := by
          rw [← Except.ok.inj h, Nibble.truncate, BitVec.toNat_ofNat, Nat.mod_eq_of_lt (by omega)]
        rwa [hx]
      · cases h
    · rw [parse_of_not_spells (not_exists.1 hspells)] at h
      cases h
  · intro h
    rw [h.parse, if_pos (Nat.le_of_lt_succ x.isLt), Nibble.truncate, BitVec.ofNat_toNat,
      BitVec.setWidth_eq]

theorem exists_of_isNibble (h : IsNibble bits) : ∃ x : Nibble, Spells bits x.toNat := by
  obtain ⟨n, hn, hbits⟩ := h
  refine ⟨.truncate n, ?_⟩
  rwa [Nibble.truncate, BitVec.toNat_ofNat, Nat.mod_eq_of_lt (by omega)]

/-- The low bits of the number that a pattern shows. -/
def number (bits : Text) : Nibble := .truncate (Numeral.value 2 (unmark bits))

theorem number_of_spells (h : Spells bits x.toNat) : number bits = x := by
  rw [number, (spells_iff.1 h).2, Nibble.truncate, BitVec.ofNat_toNat, BitVec.setWidth_eq]

theorem Fails.parse (h : Fails bits why) : parse bits = .error why := by
  cases h with
  | notBinary h => exact parse_of_not_spells h
  | tooWide h hn => rw [h.parse, if_neg (Nat.not_le.2 hn)]

/-- A text is a bit pattern of a nibble, or it fails to be one in one of two ways. -/
theorem isNibble_or_fails (bits : Text) : IsNibble bits ∨ ∃ why, Fails bits why := by
  by_cases hspells : ∃ n, Spells bits n
  · obtain ⟨n, hn⟩ := hspells
    by_cases hle : n ≤ 15
    · exact .inl ⟨n, hle, hn⟩
    · exact .inr ⟨_, .tooWide hn (Nat.lt_of_not_le hle)⟩
  · exact .inr ⟨_, .notBinary (not_exists.1 hspells)⟩

end Pattern
end Asm16
