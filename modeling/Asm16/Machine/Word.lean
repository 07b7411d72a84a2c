-- SUMMARY: Nibbles, words and addresses, and the four nibble fields of an instruction word.
import Asm16.Text.Numeral

/-!
# Words and fields

The machine has words of sixteen bits and addresses every byte. An instruction word is made of four
nibbles, from low to high: the opcode and the fields one, two and three. What the three fields hold
depends on the instruction's format.
-/

namespace Asm16

/-- Four bits. -/
abbrev Nibble := BitVec 4

/-- A machine word. -/
abbrev Word := BitVec 16

/-- The address of a byte. -/
abbrev Address := BitVec 32

/-- The low four bits of a number. -/
def Nibble.truncate (n : Nat) : Nibble := BitVec.ofNat 4 n

/-- A number as a nibble, if it fits. -/
def Nibble.ofNat? (n : Nat) : Option Nibble := if n < 16 then some (BitVec.ofNat 4 n) else none

theorem Nibble.ofNat?_eq_some_iff {n : Nat} {x : Nibble} :
    Nibble.ofNat? n = some x ↔ x.toNat = n := by
  have hx : x.toNat < 16 := x.isLt
  unfold Nibble.ofNat?
  split
  · rename_i h
    rw [Option.some.injEq]
    constructor
    · rintro rfl; simp; omega
    · rintro rfl; simp
  · simp only [reduceCtorEq, false_iff]; omega

theorem Nibble.exists_toNat_eq {n : Nat} (h : n ≤ 15) : ∃ x : Nibble, x.toNat = n :=
  ⟨.ofNat 4 n, by rw [BitVec.toNat_ofNat, Nat.mod_eq_of_lt (by omega)]⟩

/-- A nibble in four binary digits. -/
def Nibble.binary (n : Nibble) : Text := Numeral.digits 2 4 n.toNat

/-- A word in four hexadecimal digits. -/
def Word.hexadecimal (w : Word) : Text := Numeral.digits 16 4 w.toNat

/-- An address as messages show it: `0x` and at least four hexadecimal digits. -/
def Address.shown (a : Address) : Text := '0' :: 'x' :: Numeral.hexadecimal a.toNat

-- ---------------------------------------------------------------------------
-- Fields
-- ---------------------------------------------------------------------------

/-- The fields of an instruction word. -/
inductive Field where
  | opcode | one | two | three
  deriving DecidableEq, Repr

namespace Field

/-- The place of a field, counted in nibbles from the low end. -/
def place : Field → Nat
  | opcode => 0
  | one => 1
  | two => 2
  | three => 3

/-- How far a field's value is shifted in its word. -/
def shift (f : Field) : Nat := 4 * f.place

/-- The word that holds a value in one field and zero in the others. -/
def encode (f : Field) (n : Nibble) : Word := n.setWidth 16 <<< f.shift

/-- The value a word holds in a field. -/
def decode (f : Field) (w : Word) : Nibble := (w >>> f.shift).setWidth 4

end Field

/-- A value for every field of an instruction word. -/
structure Fields where
  opcode : Nibble
  one : Nibble
  two : Nibble
  three : Nibble
  deriving DecidableEq, Repr

namespace Fields

/-- The value for one field. -/
def get (fs : Fields) : Field → Nibble
  | .opcode => fs.opcode
  | .one => fs.one
  | .two => fs.two
  | .three => fs.three

/-- The instruction word that holds all four values. -/
def pack (fs : Fields) : Word :=
  Field.opcode.encode fs.opcode ||| Field.one.encode fs.one |||
    Field.two.encode fs.two ||| Field.three.encode fs.three

/-- Packing loses nothing: every field of the word holds the value given for it. -/
theorem decode_pack (fs : Fields) (f : Field) : f.decode fs.pack = fs.get f := by
  obtain ⟨a, b, c, d⟩ := fs
  cases f <;>
    · apply BitVec.eq_of_getLsbD_eq
      intro i hi
      match i, hi with
      | 0, _ | 1, _ | 2, _ | 3, _ =>
        simp [Field.decode, pack, Field.encode, get, Field.shift, Field.place]

end Fields
end Asm16
