-- SUMMARY: The command line program: runs the toolset on the files of the disk.
import Asm16.Command.Run

/-!
# The program

The only module that touches a disk or a terminal. It hands the arguments to `Tool.run` and does
what the outcome says.
-/

namespace Asm16

/-- The file error of a system error number, which some calls give negated. -/
def FileError.ofNumber? (n : UInt32) : Option FileError :=
  match min n (0 - n) with
  | 20 => some .notDirectory
  | 21 => some .isDirectory
  | 36 => some .nameTooLong
  | _ => none

/-- A system error as a file error. -/
def FileError.ofSystem (e : IO.Error) : FileError :=
  match e with
  | .noFileOrDirectory .. => .notFound
  | .inappropriateType _ n _ => (ofNumber? n).getD (.other (toString e))
  | .invalidArgument _ n _ => (ofNumber? n).getD (.other (toString e))
  | _ => .other (toString e)

/-- Does something to a file and catches its error. -/
def attempt (act : IO α) : IO (Except FileError α) := do
  try
    return .ok (← act)
  catch e =>
    return .error (.ofSystem e)

/-- Access to the files of the disk. -/
def diskAccess : FileAccess IO where
  read path := do
    match ← attempt (IO.FS.readBinFile (String.ofList path)) with
    | .error e => return .error e
    | .ok content =>
      match String.fromUTF8? content with
      | some s => return .ok s.toList
      | none => return .error .notText
  write path text := attempt (IO.FS.writeFile (String.ofList path) (String.ofList text))

end Asm16

/-- Runs the toolset. -/
def main (args : List String) : IO UInt32 := do
  let outcome ← Asm16.Tool.toolset.run Asm16.diskAccess (args.map String.toList)
  IO.print outcome.stdout
  IO.eprint outcome.stderr
  return outcome.exitCode.toUInt32
