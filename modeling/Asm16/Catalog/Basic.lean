-- SUMMARY: Catalogs: the instructions of a machine in order, looked up by mnemonic.
import Asm16.Catalog.Instruction

/-!
# Catalogs

A catalog lists instructions in the order in which they were declared. A mnemonic that several of
them share belongs to the first.
-/

namespace Asm16

/-- The instructions of a machine. -/
structure Catalog where
  instructions : List Instruction
  deriving DecidableEq, Repr

namespace Catalog

/-- The instruction that a name stands for. -/
def lookup? (c : Catalog) (name : Text) : Option Instruction :=
  c.instructions.find? (·.isNamed name)

/-- The place of the instruction that a name stands for. -/
def position? (c : Catalog) (name : Text) : Option Nat :=
  c.instructions.findIdx? (·.isNamed name)

theorem isNamed_of_lookup? {c : Catalog} {name : Text} {i : Instruction}
    (h : c.lookup? name = some i) : i.isNamed name = true :=
  by simpa using List.find?_some h

theorem mem_of_lookup? {c : Catalog} {name : Text} {i : Instruction}
    (h : c.lookup? name = some i) : i ∈ c.instructions :=
  List.mem_of_find?_eq_some h

/-- A lookup depends on its name up to case. -/
theorem lookup?_congr (c : Catalog) {a b : Text} (h : Text.sameWord a b = true) :
    c.lookup? a = c.lookup? b := by
  unfold lookup?
  congr 1
  funext i
  simp only [Instruction.isNamed, Text.sameWord, beq_iff_eq] at h ⊢
  rw [h]

end Catalog
end Asm16
