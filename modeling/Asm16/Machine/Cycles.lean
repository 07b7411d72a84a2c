-- SUMMARY: Cycle counts, which are instruction sizes, and the addresses they step through.
import Asm16.Machine.Word

/-!
# Cycles

An instruction takes one cycle for every word it is made of, so its cycle count is also its size.
Instructions follow each other without gaps: the address after an instruction is its own address
and its size. The sum is formed in two ways. Both passes over a program count from address zero
with `Address.after`, which wraps at the width of addresses; a program has to be of 2 ^ 31 words
for that to happen. The end of a listing is formed with `Address.after?`, which gives no address
in place of a wrapped one: encodings may be put in a listing at any address, the last included.
-/

namespace Asm16

/-- How many cycles an instruction takes. -/
inductive Cycles where
  | one | two
  deriving DecidableEq, Repr

namespace Cycles

/-- The number of words an instruction is made of. -/
def words : Cycles → Nat
  | one => 1
  | two => 2

/-- The number of bytes an instruction is made of. -/
def bytes (c : Cycles) : Nat := 2 * c.words

/-- The cycle count a number stands for. -/
def ofNat? : Nat → Option Cycles
  | 1 => some one
  | 2 => some two
  | _ => none

theorem ofNat?_eq_some_iff {n : Nat} {c : Cycles} : ofNat? n = some c ↔ c.words = n := by
  match n with
  | 0 => cases c <;> decide
  | 1 => cases c <;> decide
  | 2 => cases c <;> decide
  | n + 3 => cases c <;> simp [ofNat?, words]

end Cycles

namespace Address

/-- The address after an instruction at `a`, for counting through a program: it is there for every
address, and wraps. -/
def after (a : Address) (c : Cycles) : Address := a + BitVec.ofNat 32 c.bytes

/-- The address after an instruction at `a`, for the end of a listing: there is none if the
instruction reaches past the last address, where `after` wraps. -/
def after? (a : Address) (c : Cycles) : Option Address :=
  if a.toNat + c.bytes < 0x100000000 then some (a.after c) else none

/-- Where both give an address they give the same. -/
theorem after?_eq_some_iff {a b : Address} {c : Cycles} :
    a.after? c = some b ↔ a.toNat + c.bytes < 0x100000000 ∧ a.after c = b := by
  simp only [after?, Option.ite_none_right_eq_some, Option.some.injEq]

/-- The addresses of consecutive instructions from `a` on, and the address after the last. -/
def run (a : Address) : List Cycles → List Address
  | [] => [a]
  | c :: cs => a :: run (a.after c) cs

end Address
end Asm16
