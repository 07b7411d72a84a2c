-- SUMMARY: Why a program is refused, and at which line.
import Asm16.Program.Line
import Asm16.Program.Operand

/-!
# Diagnostics

A program is refused for one cause at one line.
-/

namespace Asm16

/-- Why a line is refused. -/
inductive Cause where
  | unknownMnemonic (name : Text)
  | unresolvable (name : Text)
  | operand (error : OperandError)
  deriving DecidableEq, Repr

/-- The wording of a cause. -/
def Cause.message : Cause → String
  | unknownMnemonic name => "Unknown mnemonic '" ++ String.ofList name ++ "'"
  | unresolvable name =>
    "Cannot interpret line, '" ++ String.ofList name ++
      "' is neither a label nor a known mnemonic"
  | operand error => error.message

/-- A cause and the line it arose at. -/
structure Diagnostic where
  line : Line
  cause : Cause
  deriving DecidableEq, Repr

/-- The wording of a diagnostic. -/
def Diagnostic.message (d : Diagnostic) : String :=
  "@" ++ d.line.shown ++ ": " ++ d.cause.message

end Asm16
