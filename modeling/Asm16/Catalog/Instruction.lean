-- SUMMARY: Instructions of the machine: formats, addressing modes, and the row that shows one.
import Asm16.Machine.Cycles
import Asm16.Text.Lowercase

/-!
# Instructions

An instruction is known by its mnemonic and encoded by its opcode and its format. In format R all
three fields hold registers. The formats S, U and J share an opcode among a group of instructions
and give one field to a fixed value that tells them apart: field one, two or three in this order.
-/

namespace Asm16

/-- How an instruction refers to a label: by its address, or by its distance from the instruction. -/
inductive AddressingMode where
  | absolute | relative
  deriving DecidableEq, Repr

/-- The name of an addressing mode in a catalog row. -/
def AddressingMode.name : AddressingMode → String
  | absolute => "absolute"
  | relative => "pc-relative"

/-- The field that tells the instructions of a group apart. -/
inductive Slot where
  | func1 | func2 | func3
  deriving DecidableEq, Repr

/-- The name of a slot. -/
def Slot.name : Slot → String
  | func1 => "func1"
  | func2 => "func2"
  | func3 => "func3"

/-- The layout of an instruction word, with the fixed value of its slot. -/
inductive Format where
  | r
  | s (func1 : Nibble)
  | u (func2 : Nibble)
  | j (func3 : Nibble)
  deriving DecidableEq, Repr

namespace Format

/-- The format of a group's instruction, given by its slot. -/
def ofSlot : Slot → Nibble → Format
  | .func1, n => s n
  | .func2, n => u n
  | .func3, n => j n

/-- The slot of a format and its fixed value; format R has none. -/
def slot? : Format → Option (Slot × Nibble)
  | r => none
  | s n => some (.func1, n)
  | u n => some (.func2, n)
  | j n => some (.func3, n)

/-- The letter a format is known by. -/
def letter : Format → String
  | r => "R"
  | s _ => "S"
  | u _ => "U"
  | j _ => "J"

end Format

/-- An instruction of the machine. -/
structure Instruction where
  mnemonic : Text
  opcode : Nibble
  format : Format
  cycles : Cycles
  addressing : Option AddressingMode
  deriving DecidableEq, Repr

namespace Instruction

/-- Whether a word of source text names the instruction. Case does not matter. -/
def isNamed (i : Instruction) (name : Text) : Bool := Text.sameWord i.mnemonic name

/-- The fixed value of an instruction as a row shows it. -/
def slotText (i : Instruction) : String :=
  match i.format.slot? with
  | some (k, n) => k.name ++ "=" ++ String.ofList n.binary
  | none => ""

/-- The row that shows an instruction in a catalog: mnemonic and fixed value are filled up to
eight and ten characters, and the addressing mode is left out if there is none. -/
def row (i : Instruction) : String :=
  let mode := match i.addressing with
    | some m => "  " ++ m.name
    | none => ""
  String.ofList (i.mnemonic.rightpad 8 ' ') ++ " " ++ i.format.letter ++
    "  opc=" ++ String.ofList i.opcode.binary ++
    "  " ++ String.ofList (i.slotText.toList.rightpad 10 ' ') ++
    " cycles=" ++ toString i.cycles.words ++ mode

end Instruction
end Asm16
