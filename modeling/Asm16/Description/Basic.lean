-- SUMMARY: Machine descriptions: instructions and nested groups as they are declared.
import Asm16.Catalog.Builder

/-!
# Machine descriptions

A description declares instructions at its top level and in groups, which may hold further groups.
Opcodes and slot values are still the texts they were written as.
-/

namespace Asm16

/-- An instruction as a description declares it. -/
structure Declaration where
  name : Text
  opcode : Option Text
  func1 : Option Text
  func2 : Option Text
  func3 : Option Text
  cycles : Nat
  addressing : Option AddressingMode
  deriving DecidableEq, Repr

/-- A group of a description: the opcode its instructions share, its own instructions, and the
groups within it. -/
inductive Group where
  | mk (opcode : Text) (instructions : List Declaration) (groups : List Group)
  deriving Repr

/-- A machine description. -/
structure Description where
  instructions : List Declaration
  groups : List Group
  deriving Repr

end Asm16
