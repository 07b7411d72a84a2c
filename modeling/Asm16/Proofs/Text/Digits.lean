-- SUMMARY: The value of a digit text, and that digit texts of a fixed width show the number they were written for.
import Asm16.Machine.Word
import Mathlib.Algebra.Order.Ring.Int
import Mathlib.Data.List.Induction

/-!
# Digits

`Numeral.digits` writes the last digits of a number in a base, and `Numeral.value` reads a digit text,
whatever zeros it begins with. Reading what was written gives the number modulo the power of the base, for every base that has
digits. A word is below the power for its four hexadecimal digits, so it is read back as it is.
-/

namespace Asm16
namespace Numeral

variable {base d n width : Nat} {c : Char} {t : Text}

theorem digit?_digitChar (h : d < 36) : digit? (digitChar d) = some d := by
  have hall : ∀ d < 36, digit? (digitChar d) = some d := by decide
  exact hall d h

theorem value_append_singleton (base : Nat) (t : Text) (c : Char) :
    value base (t ++ [c]) = value base t * base + (digit? c).getD 0 := by
  rw [value, List.foldl_append, value]
  rfl

/-- Zeros in front do not count. -/
theorem value_dropWhile_zero (base : Nat) (t : Text) :
    value base (t.dropWhile (· == '0')) = value base t := by
  induction t with
  | nil => rfl
  | cons c t ih =>
    rw [List.dropWhile_cons]
    split
    · rename_i hc
      have hzero : digit? c = some 0 := by rw [beq_iff_eq.1 hc]; rfl
      rw [ih, value_cons, hzero, Option.getD_some, Nat.zero_mul, Nat.zero_add]
    · rfl

/-- The digits of a number have its value, less what is above them. -/
theorem value_digits (hpos : 0 < base) (hbase : base ≤ 36) (width n : Nat) :
    value base (digits base width n) = n % base ^ width := by
  induction width generalizing n with
  | zero => rw [digits, Nat.pow_zero, Nat.mod_one, value, List.foldl_nil]
  | succ width ih =>
    have hdigit : n % base < 36 := Nat.lt_of_lt_of_le (Nat.mod_lt n hpos) hbase
    rw [digits, value_append_singleton, ih, digit?_digitChar hdigit, Option.getD_some,
      Nat.pow_succ', Nat.mod_mul, Nat.mul_comm, Nat.add_comm]

theorem exists_of_mem_digits (hpos : 0 < base) (h : c ∈ digits base width n) :
    ∃ d < base, c = digitChar d := by
  induction width generalizing n with
  | zero => cases h
  | succ width ih =>
    rw [digits, List.mem_append, List.mem_singleton] at h
    obtain h | rfl := h
    · exact ih h
    · exact ⟨n % base, Nat.mod_lt n hpos, rfl⟩

/-- Hexadecimal digits are written in upper case. -/
theorem mem_of_mem_digits_sixteen (h : c ∈ digits 16 width n) : c ∈ "0123456789ABCDEF".toList := by
  obtain ⟨d, hd, rfl⟩ := exists_of_mem_digits (by decide) h
  have hall : ∀ d < 16, digitChar d ∈ "0123456789ABCDEF".toList := by decide
  exact hall d hd

end Numeral

namespace Word

variable {w : Word} {c : Char}

theorem length_hexadecimal (w : Word) : w.hexadecimal.length = 4 := Numeral.length_digits 16 4 _

theorem value_hexadecimal (w : Word) : Numeral.value 16 w.hexadecimal = w.toNat := by
  have hlt : w.toNat < 16 ^ 4 := w.isLt
  rw [hexadecimal, Numeral.value_digits (by decide) (by decide), Nat.mod_eq_of_lt hlt]

theorem mem_hexadecimal (h : c ∈ w.hexadecimal) : c ∈ "0123456789ABCDEF".toList :=
  Numeral.mem_of_mem_digits_sixteen h

end Word
end Asm16
