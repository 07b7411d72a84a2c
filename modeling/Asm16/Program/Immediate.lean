-- SUMMARY: Immediate values: literals and label references, resolved to a width.
import Asm16.Catalog.Instruction
import Asm16.Program.Operand

/-!
# Immediate values

An immediate is a label of the program or a literal. A literal is hexadecimal after `0x`, binary
after `0b`, and decimal otherwise, then with a sign if there is one. Only a decimal literal can be
negative; it is taken in two's complement, and a hexadecimal or binary one as the bits it shows.

A label stands for its address or for its distance from the instruction, as the instruction's
addressing mode says. It is reduced to the width without a check.
-/

namespace Asm16

/-- What an immediate is resolved against. -/
structure Context where
  labels : LabelTable
  addressing : Option AddressingMode
  /-- The address of the instruction. -/
  here : Address

namespace Immediate

/-- A literal of unsigned digits after its base mark. -/
def unsigned (raw digits : Text) (base : Nat) (why : Malformation) (w : Width) :
    Except OperandError Word :=
  if !Numeral.isNumeral base digits then .error (.malformed raw why)
  else if Numeral.value base digits ≤ w.max then .ok (w.wrap (Numeral.value base digits))
  else .error (.outOfRange raw w)

/-- The digits of a decimal literal, and whether it is negative. -/
def unsign : Text → Bool × Text
  | '-' :: digits => (true, digits)
  | '+' :: digits => (false, digits)
  | digits => (false, digits)

/-- A decimal literal. -/
def signed (raw : Text) (w : Width) : Except OperandError Word :=
  let (negative, digits) := unsign raw
  if !Numeral.isNumeral 10 digits then .error (.malformed raw .notLiteral)
  else
    let magnitude : Int := Numeral.value 10 digits
    let n := if negative then -magnitude else magnitude
    if -(w.modulus / 2 : Nat) ≤ n ∧ n < w.modulus then .ok (w.wrap n)
    else .error (.outOfRange raw w)

/-- The value of a literal. -/
def literal (raw : Text) (w : Width) : Except OperandError Word :=
  match raw with
  | '0' :: 'x' :: digits => unsigned raw digits 16 .notHexadecimal w
  | '0' :: 'X' :: digits => unsigned raw digits 16 .notHexadecimal w
  | '0' :: 'b' :: digits => unsigned raw digits 2 .notBinary w
  | '0' :: 'B' :: digits => unsigned raw digits 2 .notBinary w
  | _ => signed raw w

/-- The value of a reference to a label at `address`. -/
def reference (name : Text) (address : Address) (w : Width) (ctx : Context) :
    Except OperandError Word :=
  match ctx.addressing with
  | some .absolute => .ok (w.wrap address.toNat)
  | some .relative => .ok (w.wrap (address.toNat - ctx.here.toNat))
  | none => .error (.noAddressingMode name)

/-- The value of an immediate. A label takes precedence over a literal of the same spelling. -/
def resolve (raw : Text) (w : Width) (ctx : Context) : Except OperandError Word :=
  match ctx.labels.get? raw with
  | some address => reference raw address w ctx
  | none => literal raw w

/-- The hexadecimal digits of a value of a width. -/
def shown (w : Width) (value : Word) : Text := Numeral.digits 16 w.digits value.toNat

/-- The value of an immediate in hexadecimal digits. -/
def format (raw : Text) (w : Width) (ctx : Context) : Except OperandError Text :=
  (resolve raw w ctx).map (shown w)

end Immediate
end Asm16
