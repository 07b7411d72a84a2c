-- SUMMARY: The form of a machine description as a document.
import Asm16.Description.Basic
import Asm16.Document.Reader

/-!
# The form of a description

At its top a description has the keys `instr` and `root`, for instructions and groups. A group has
its opcode as `opc` and again `instr` and `root`. An instruction has a `name` and may have `opc`,
`func1`, `func2`, `func3`, `cycles` and `addressing`. A key that is unknown, missing or given twice,
or that has a value of another kind, makes a document that is no description.

Instructions and groups may also be arrays of their values in this order. An instruction then has
all seven, and a group may leave out values at its end. An addressing mode may be written as a table
with the mode as its only key and an empty table as the value.
-/

namespace Asm16
namespace Description

open Document (Value Table)

/-- Whether a table has no key twice and none but these. -/
def hasOnly (known : List String) (t : Table) : Bool :=
  t.keys.all (known.map String.toList).contains && decide t.keys.Nodup

/-- The value of a key. -/
def find (t : Table) (key : String) : Option Value := t.lookup key.toList

/-- A value that has to be a text. -/
def text? : Value → Option Text
  | .text t => some t
  | _ => none

/-- A value that has to be a cycle count of one byte. -/
def count? : Value → Option Nat
  | .integer n => if 0 ≤ n ∧ n ≤ 255 then some n.toNat else none
  | _ => none

/-- The addressing mode that a word stands for. -/
def modeNamed? (word : Text) : Option AddressingMode :=
  if word = "absolute".toList then some .absolute
  else if word = "relative".toList ∨ word = "pc-relative".toList then some .relative
  else none

/-- A value that has to be an addressing mode. -/
def mode? : Value → Option AddressingMode
  | .text word => modeNamed? word
  | .table [(word, .table [])] => modeNamed? word
  | _ => none

/-- Reads a key that may be missing. -/
def optional (read : Value → Option α) (t : Table) (key : String) : Option (Option α) :=
  match find t key with
  | none => some none
  | some v => (read v).map some

/-- Reads an instruction. -/
def declaration? : Value → Option Declaration
  | .table t => do
    guard (hasOnly ["name", "opc", "func1", "func2", "func3", "cycles", "addressing"] t)
    return {
      name := ← text? (← find t "name")
      opcode := ← optional text? t "opc"
      func1 := ← optional text? t "func1"
      func2 := ← optional text? t "func2"
      func3 := ← optional text? t "func3"
      cycles := (← optional count? t "cycles").getD 1
      addressing := ← optional mode? t "addressing" }
  | .array [name, opcode, func1, func2, func3, cycles, addressing] => do
    return {
      name := ← text? name
      opcode := some (← text? opcode)
      func1 := some (← text? func1)
      func2 := some (← text? func2)
      func3 := some (← text? func3)
      cycles := ← count? cycles
      addressing := some (← mode? addressing) }
  | _ => none

/-- Reads an array of instructions. -/
def declarations? : Value → Option (List Declaration)
  | .array items => items.mapM declaration?
  | .tables items => items.mapM declaration?
  | _ => none

/-- Reads the instructions of a table, of which there may be none. -/
def ownDeclarations? (t : Table) : Option (List Declaration) :=
  match find t "instr" with
  | none => some []
  | some v => declarations? v

mutual

/-- Reads a group. -/
def group? : Value → Option Group
  | .table t => do
    guard (hasOnly ["opc", "instr", "root"] t)
    return .mk (← text? (← find t "opc")) (← ownDeclarations? t) (← ownGroups? t)
  | .array [opcode] => do
    return .mk (← text? opcode) [] []
  | .array [opcode, instructions] => do
    return .mk (← text? opcode) (← declarations? instructions) []
  | .array [opcode, instructions, groups] => do
    return .mk (← text? opcode) (← declarations? instructions) (← groups? groups)
  | _ => none

/-- Reads an array of groups. -/
def groups? : Value → Option (List Group)
  | .array items => groupList? items
  | .tables items => groupList? items
  | _ => none

/-- Reads the groups of a list. -/
def groupList? : List Value → Option (List Group)
  | [] => some []
  | v :: rest => do return (← group? v) :: (← groupList? rest)

/-- Reads the groups of a table, of which there may be none. -/
def ownGroups? : List (Text × Value) → Option (List Group)
  | [] => some []
  | (key, v) :: rest => if key = "root".toList then groups? v else ownGroups? rest

end

/-- Reads a description. -/
def ofTable? (t : Table) : Option Description := do
  guard (hasOnly ["instr", "root"] t)
  return ⟨← ownDeclarations? t, ← ownGroups? t⟩

/-- Reads the text of a description. -/
def parse? (source : Text) : Option Description := do
  ofTable? (← Document.read source)

end Description
end Asm16
