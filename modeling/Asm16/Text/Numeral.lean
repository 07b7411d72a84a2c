-- SUMMARY: Positional numerals: digits, the value of a digit text, and fixed-width digit texts.
import Asm16.Text.Basic

/-!
# Numerals

A digit text in a base has a value, most significant digit first, and a number has a digit text of
any width, which shows the number modulo the power of the base. Digits from ten on are letters; a
reader takes both cases, a writer the upper one.
-/

namespace Asm16
namespace Numeral

/-- The value of a digit; letters count from ten. -/
def digit? (c : Char) : Option Nat :=
  if '0' ≤ c ∧ c ≤ '9' then some (c.toNat - '0'.toNat)
  else if 'a' ≤ c ∧ c ≤ 'z' then some (c.toNat - 'a'.toNat + 10)
  else if 'A' ≤ c ∧ c ≤ 'Z' then some (c.toNat - 'A'.toNat + 10)
  else none

/-- Whether a character is a digit of a base. -/
def isDigit (base : Nat) (c : Char) : Bool := (digit? c).any (· < base)

/-- A numeral is one digit or more. -/
def isNumeral (base : Nat) (t : Text) : Bool := !t.isEmpty && t.all (isDigit base)

/-- The value of a digit text, most significant digit first. -/
def value (base : Nat) (t : Text) : Nat :=
  t.foldl (fun n c => n * base + (digit? c).getD 0) 0

/-- What is read before some digits counts the power of the base for their number. -/
theorem foldl_value (base : Nat) (t : Text) (n : Nat) :
    t.foldl (fun n c => n * base + (digit? c).getD 0) n = n * Nat.pow base t.length + value base t := by
  induction t generalizing n with
  | nil => exact (Nat.mul_one n).symm
  | cons c t ih =>
    rw [value, List.foldl_cons, List.foldl_cons, ih, ih (0 * base + _), Nat.zero_mul, Nat.zero_add,
      Nat.add_mul, Nat.mul_assoc, Nat.mul_comm base, Nat.add_assoc]
    rfl

/-- The first digit counts the power of the base for the digits after it. -/
theorem value_cons (base : Nat) (c : Char) (t : Text) :
    value base (c :: t) = (digit? c).getD 0 * Nat.pow base t.length + value base t := by
  rw [value, List.foldl_cons, foldl_value, Nat.zero_mul, Nat.zero_add]

/-- Digits have a value below the power of the base for their number. -/
theorem value_lt {base : Nat} {t : Text} (h : ∀ c ∈ t, isDigit base c = true) :
    value base t < Nat.pow base t.length := by
  induction t with
  | nil => exact Nat.zero_lt_one
  | cons c t ih =>
    obtain ⟨hc, ht⟩ := List.forall_mem_cons.1 h
    have hdigit : (digit? c).getD 0 < base := by
      rw [isDigit] at hc
      cases hd : digit? c with
      | none => rw [hd] at hc; cases hc
      | some d => simpa [hd] using hc
    calc value base (c :: t) = (digit? c).getD 0 * Nat.pow base t.length + value base t :=
          value_cons base c t
      _ < (digit? c).getD 0 * Nat.pow base t.length + Nat.pow base t.length :=
          Nat.add_lt_add_left (ih ht) _
      _ = ((digit? c).getD 0 + 1) * Nat.pow base t.length := (Nat.succ_mul _ _).symm
      _ ≤ base * Nat.pow base t.length := Nat.mul_le_mul_right _ hdigit
      _ = Nat.pow base (c :: t).length := Nat.mul_comm _ _

/-- The digit of a number below thirty-six, in upper case. -/
def digitChar (n : Nat) : Char :=
  if n < 10 then Char.ofNat ('0'.toNat + n) else Char.ofNat ('A'.toNat + (n - 10))

/-- The last `width` digits of a number. -/
def digits (base : Nat) : Nat → Nat → Text
  | 0, _ => []
  | width + 1, n => digits base width (n / base) ++ [digitChar (n % base)]

theorem length_digits (base width n : Nat) : (digits base width n).length = width := by
  induction width generalizing n with
  | zero => rfl
  | succ w ih => simp [digits, ih]

/-- The hexadecimal digits of a number, four or as many as it needs. -/
def hexadecimal (n : Nat) : Text := digits 16 (max 4 (n.log2 / 4 + 1)) n

end Numeral
end Asm16
