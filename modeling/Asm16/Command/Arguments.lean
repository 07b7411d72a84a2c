-- SUMMARY: Command lines of the two programs and the commands they ask for.
import Asm16.Text.Basic

/-!
# Command lines

There are two programs. The assembler takes a source and, if need be, the path of its listing. The
toolset takes a command first: `asm`, which is the assembler, or `isa`, which lists a catalog.

The options are `--isa`, with the path of the machine description, and `--stdout`. They may stand
anywhere, each once at most, until `--` ends them. The path follows `--isa` after an equals sign, or
as the next argument unless that one is an option or `--` itself; the default path stands in for a
path that is missing. A lone `-` is an argument like any other.
-/

namespace Asm16

/-- The programs. -/
inductive Tool where
  | assembler | toolset
  deriving DecidableEq, Repr

/-- What is asked for. -/
inductive Command where
  /-- Assemble `source`, with the listing to `target`, to the default path or to standard output. -/
  | assemble (source : Text) (target : Option Text) (description : Text) (toStdout : Bool)
  | list (description : Text)
  deriving DecidableEq, Repr

/-- An argument by its form. -/
inductive Arguments.Kind where
  | positional
  | endOfOptions
  | description (path : Option Text)
  | stdout
  | unknown
  deriving DecidableEq, Repr

/-- The arguments of a command, in order. -/
structure Arguments where
  positional : List Text
  descriptions : List Text
  stdouts : Nat
  deriving DecidableEq, Repr

namespace Arguments

/-- The path of the machine description if none is given. -/
def defaultDescription : Text := "isa.toml".toList

/-- The form of an argument. The dashes an option begins with do not count beyond the first two. -/
def kind (arg : Text) : Kind :=
  match arg with
  | ['-', '-'] => .endOfOptions
  | '-' :: '-' :: rest =>
    let option : Text := rest.dropWhile (· == '-')
    let name := Text.before '=' option
    if name = "isa".toList then
      .description (if Text.has '=' option then some ((Text.after '=' option).dropWhile (· == '=')) else none)
    else if name = "stdout".toList then .stdout
    else .unknown
  | '-' :: _ :: _ => .unknown
  | _ => .positional

/-- No argument yet. -/
def empty : Arguments := ⟨[], [], 0⟩

/-- Adds positional arguments. -/
def position (a : Arguments) (args : List Text) : Arguments :=
  { a with positional := a.positional ++ args }

/-- Adds a path of a machine description. -/
def describe (a : Arguments) (path : Text) : Arguments :=
  { a with descriptions := a.descriptions ++ [path] }

/-- Sorts arguments by their form; there are none if one is unknown. `awaiting` tells that the path
of a machine description may come next. -/
def scan (a : Arguments) (awaiting : Bool) : List Text → Option Arguments
  | [] => some (if awaiting then a.describe defaultDescription else a)
  | arg :: rest =>
    if awaiting && kind arg == .positional then scan (a.describe arg) false rest
    else
      let a := if awaiting then a.describe defaultDescription else a
      match kind arg with
      | .positional => scan (a.position [arg]) false rest
      | .endOfOptions => some (a.position rest)
      | .description (some path) => scan (a.describe path) false rest
      | .description none => scan a true rest
      | .stdout => scan { a with stdouts := a.stdouts + 1 } false rest
      | .unknown => none

/-- The path of the machine description, which may be given once. -/
def description? (a : Arguments) : Option Text :=
  match a.descriptions with
  | [] => some defaultDescription
  | [path] => some path
  | _ => none

end Arguments

namespace Command

/-- The command of the assembler's arguments. -/
def assemble? (args : List Text) : Option Command := do
  let a ← Arguments.empty.scan false args
  let description ← a.description?
  guard (a.stdouts ≤ 1)
  match a.positional with
  | [source] => return .assemble source none description (a.stdouts == 1)
  | [source, target] => return .assemble source (some target) description (a.stdouts == 1)
  | _ => none

/-- The command of the arguments of `isa`. -/
def list? (args : List Text) : Option Command := do
  let a ← Arguments.empty.scan false args
  guard (a.stdouts = 0 ∧ a.positional = [])
  return .list (← a.description?)

/-- The command of a program's arguments. -/
def parse? : Tool → List Text → Option Command
  | .assembler, args => assemble? args
  | .toolset, name :: args =>
    if name = "asm".toList then assemble? args
    else if name = "isa".toList then list? args
    else none
  | .toolset, [] => none

end Command
end Asm16
