-- SUMMARY: Bit patterns, which descriptions write opcodes and slot values as.
import Asm16.Machine.Word

/-!
# Bit patterns

A bit pattern is one binary digit or more, after `0b` or `0B` if it is marked, and stands for a
nibble. Zeros in front do not count.
-/

namespace Asm16
namespace Pattern

/-- What is wrong with a bit pattern. -/
inductive Fault where
  | notBinary | tooWide
  deriving DecidableEq, Repr

/-- The wording of a fault. -/
def Fault.reason : Fault → String
  | notBinary => "expected binary digits"
  | tooWide => "does not fit in a nibble"

/-- A text without its base mark. -/
def unmark : Text → Text
  | '0' :: 'b' :: digits => digits
  | '0' :: 'B' :: digits => digits
  | digits => digits

/-- The number that a binary numeral shows, if it fits a byte. A plus sign may stand before the digits. -/
def byte? (t : Text) : Option Nat :=
  let digits := match t with
    | '+' :: digits => digits
    | digits => digits
  if Numeral.isNumeral 2 digits && Numeral.value 2 digits < 256 then
    some (Numeral.value 2 digits)
  else none

/-- What four digits show fits a nibble. -/
theorem byte?_lt {t : Text} {n : Nat} (h : byte? t = some n) (hlength : t.length ≤ 4) : n < 16 := by
  have hvalue : ∀ u : Text, u.length ≤ 4 → Numeral.isNumeral 2 u = true → Numeral.value 2 u < 16 := by
    intro u hu hdigits
    simp only [Numeral.isNumeral, Bool.and_eq_true, List.all_eq_true] at hdigits
    exact Nat.lt_of_lt_of_le (Numeral.value_lt hdigits.2) (Nat.pow_le_pow_right (by decide) hu)
  unfold byte? at h
  simp only [Option.ite_none_right_eq_some, Bool.and_eq_true, Option.some.injEq] at h
  obtain ⟨⟨hdigits, -⟩, rfl⟩ := h
  refine hvalue _ ?_ hdigits
  split
  · exact Nat.le_of_succ_le hlength
  · exact hlength

/-- Where the steps of reading a bit pattern end. -/
inductive Ending where
  | nibble (n : Nibble)
  /-- There is no digit, or a character that is none. -/
  | notBinary
  /-- More than four digits are left without the zeros in front. -/
  | tooWide
  /-- The digits that are left show no byte. -/
  | noByte
  /-- They show a byte that is no nibble, against what is asserted. -/
  | noNibble
  deriving DecidableEq, Repr

/-- What is answered at an end. There is no answer where the assertion fails. -/
def Ending.result : Ending → Option (Except Fault Nibble)
  | nibble n => some (.ok n)
  | notBinary => some (.error .notBinary)
  | tooWide => some (.error .tooWide)
  | noByte => some (.error .notBinary)
  | noNibble => none

/-- Reads a bit pattern. It fits if at most four digits are left without the zeros in front. -/
def ending (bits : Text) : Ending :=
  let digits := unmark bits
  if digits.isEmpty || !digits.all (fun c => c == '0' || c == '1') then .notBinary
  else
    let significant := digits.dropWhile (· == '0')
    if 4 < significant.length then .tooWide
    else match byte? (if significant.isEmpty then ['0'] else significant) with
      | none => .noByte
      | some n =>
        match Nibble.ofNat? n with
        | some x => .nibble x
        | none => .noNibble

/-- Four digits show no more than a nibble holds, so there is always an answer. -/
theorem isSome_result_ending (bits : Text) : (ending bits).result.isSome := by
  unfold ending
  dsimp only
  split
  · rfl
  · split
    · rfl
    · rename_i hlength
      split
      · rfl
      · rename_i n hbyte
        have hshort : (if ((unmark bits).dropWhile (· == '0')).isEmpty then ['0']
            else (unmark bits).dropWhile (· == '0')).length ≤ 4 := by
          split
          · decide
          · omega
        rw [Nibble.ofNat?, if_pos (byte?_lt hbyte hshort)]
        rfl

/-- The nibble that a bit pattern stands for. -/
def parse (bits : Text) : Except Fault Nibble := (ending bits).result.get (isSome_result_ending bits)

theorem result_ending (bits : Text) : (ending bits).result = some (parse bits) :=
  (Option.some_get _).symm

end Pattern
end Asm16
