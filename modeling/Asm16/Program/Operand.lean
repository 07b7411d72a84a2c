-- SUMMARY: Operands: registers, displaced addresses, labels and immediates, and what is wrong with one.
import Asm16.Machine.Width
import Asm16.Program.Label

/-!
# Operands

The words after a mnemonic are its operands. A register is `r` or `R` and a number up to fifteen.
A displaced address is a displacement, which may be empty, and a register in parentheses after it.
Any other word is a label if the program defines it and an immediate if not; a word that looks like
a displaced address but is none is refused.
-/

namespace Asm16

/-- What is wrong with the form of an operand. -/
inductive Malformation where
  | notHexadecimal | notBinary | notLiteral
  | textAfterAddress | notRegisterInside
  | notThreeOperands | notTwoOperands
  | notRegister | notBase | notImmediate
  | displacementOnOneCycle
  deriving DecidableEq, Repr

/-- The wording of a malformation. -/
def Malformation.reason : Malformation → String
  | notHexadecimal => "expected hexadecimal digits"
  | notBinary => "expected binary digits"
  | notLiteral => "expected a label, or a decimal, hexadecimal (0x) or binary (0b) literal"
  | textAfterAddress => "unexpected text after displaced address"
  | notRegisterInside => "expected a register inside parentheses"
  | notThreeOperands => "expected exactly three operands"
  | notTwoOperands => "expected exactly two operands"
  | notRegister => "expected a register"
  | notBase => "expected a register or a displaced address"
  | notImmediate => "expected an immediate or a label"
  | displacementOnOneCycle => "a displacement needs a two-cycle instruction"

/-- Why an operand is refused. -/
inductive OperandError where
  | malformed (text : Text) (why : Malformation)
  | outOfRange (text : Text) (width : Width)
  | noAddressingMode (label : Text)
  deriving DecidableEq, Repr

/-- The wording of an operand error. -/
def OperandError.message : OperandError → String
  | malformed text why =>
    "Malformed operand '" ++ String.ofList text ++ "': " ++ why.reason
  | outOfRange text width =>
    "Operand '" ++ String.ofList text ++ "' does not fit in a " ++ toString width.bits ++
      "-bit field"
  | noAddressingMode label =>
    "Label '" ++ String.ofList label ++ "' used by an instruction with no addressing mode"

/-- An operand by its form. -/
inductive Operand where
  | register (number : Nibble)
  | displaced (displacement : Text) (base : Nibble)
  | label (name : Text)
  | immediate (text : Text)
  deriving DecidableEq, Repr

namespace Operand

/-- The register a text names, if it has the form of a register. -/
def register? : Text → Except OperandError (Option Nibble)
  | [] => .ok none
  | c :: digits =>
    if (c == 'r' || c == 'R') && Numeral.isNumeral 10 digits then
      match Nibble.ofNat? (Numeral.value 10 digits) with
      | some n => .ok (some n)
      | none => .error (.outOfRange (c :: digits) .nibble)
    else .ok none

/-- The displaced address a text stands for, if one of its parentheses opens before another
closes. The address has to end with the text and to hold a register between the two. -/
def displaced? (t : Text) : Except OperandError (Option Operand) :=
  if (t.after '(').has ')' then
    if t.getLast? != some ')' then .error (.malformed t .textAfterAddress)
    else do
      match ← register? (t.after '(').dropLast with
      | some base => return some (.displaced (t.before '(') base)
      | none => .error (.malformed t .notRegisterInside)
  else .ok none

/-- The operand that a word is. -/
def classify (labels : LabelTable) (t : Text) : Except OperandError Operand := do
  if let some address ← displaced? t then return address
  if let some number ← register? t then return .register number
  return if labels.contains t then .label t else .immediate t

end Operand

/-- A register as messages show it. -/
def Nibble.registerName (n : Nibble) : String := "r" ++ toString n.toNat

end Asm16
