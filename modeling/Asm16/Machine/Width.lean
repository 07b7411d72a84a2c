-- SUMMARY: The two widths of an immediate value and their two's complement residues.
import Asm16.Machine.Word

/-!
# Immediate widths

An immediate value is held in a nibble of its instruction word or in a word of its own. Both widths
hold signed values in two's complement: a value is kept modulo the number of values the width has.
-/

namespace Asm16

/-- Where an immediate value is held. -/
inductive Width where
  | nibble | word
  deriving DecidableEq, Repr

namespace Width

/-- The letter a width is known by. -/
def letter : Width → Text
  | nibble => ['A']
  | word => ['B']

/-- The number of hexadecimal digits of a value. -/
def digits : Width → Nat
  | nibble => 1
  | word => 4

/-- The number of bits of a value. -/
def bits (w : Width) : Nat := 4 * w.digits

/-- The number of values. -/
def modulus : Width → Nat
  | nibble => 16
  | word => 65536

/-- The greatest value. -/
def max (w : Width) : Nat := w.modulus - 1

/-- The residue of a number, in the low bits of a word. -/
def wrap (w : Width) (n : Int) : Word := BitVec.ofNat 16 (n % w.modulus).toNat

theorem toNat_wrap (w : Width) (n : Int) : ((w.wrap n).toNat : Int) = n % w.modulus := by
  have hpos : (0 : Int) < w.modulus := by cases w <;> decide
  have hle : (w.modulus : Int) ≤ 65536 := by cases w <;> decide
  have h0 := Int.emod_nonneg n (Int.ne_of_gt hpos)
  have h1 := Int.emod_lt_of_pos n hpos
  simp only [wrap, BitVec.toNat_ofNat]
  omega

end Width
end Asm16
