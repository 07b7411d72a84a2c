-- SUMMARY: Running a command: what it reads and writes, what it prints, and its exit code.
import Asm16.Command.Arguments
import Asm16.Description.Load
import Asm16.Files.Access
import Asm16.Files.Path
import Asm16.Program.Assembly

/-!
# Running a command

A command loads its machine description first. The assembler then reads the source, assembles it and
only then writes, so that a run that fails has written nothing. Failures are reported on standard
error as a chain: what could not be done, and why.

How arguments and descriptions are written down is left to their readers. These are a parameter of a
run, which is `Readers.standard` where no others are given.
-/

namespace Asm16

/-- Why a command fails. -/
inductive Failure where
  | description (path : Text) (why : LoadError)
  | source (path : Text) (why : FileError)
  | program (path : Text) (why : Diagnostic)
  | target (path : Text) (why : FileError)
  deriving DecidableEq, Repr

namespace Failure

/-- What could not be done, and the reasons one after the other. A reason that passes another one
on is followed by it, though its own wording may repeat it. -/
def chain : Failure → List String
  | description path why =>
    ["Could not load ISA description '" ++ String.ofList path ++ "'", why.message] ++
      why.source?.toList
  | source path why => ["Could not read '" ++ String.ofList path ++ "'", why.message]
  | program path why => ["Could not assemble '" ++ String.ofList path ++ "'", why.message]
  | target path why => ["Could not write '" ++ String.ofList path ++ "'", why.message]

/-- The wording of a failure. -/
def message (f : Failure) : String := String.intercalate ": " f.chain

end Failure

/-- What a run leaves apart from files. -/
structure Outcome where
  exitCode : Nat
  stdout : String
  stderr : String
  deriving DecidableEq, Repr

namespace Outcome

/-- The outcome of a run that fails. -/
def failed (f : Failure) : Outcome :=
  ⟨1, "", "\x1b[1;31merror:\x1b[0m " ++ f.message ++ "\n"⟩

/-- The outcome of a run that prints a text. -/
def printed (text : String) : Outcome := ⟨0, text, ""⟩

/-- The outcome of a run that writes a listing of `n` words. -/
def wrote (path : Text) (n : Nat) : Outcome :=
  ⟨0, "", "\x1b[1;32mwrote\x1b[0m " ++ String.ofList path ++ " (" ++ toString n ++ " words)\n"⟩

/-- The outcome of a run whose arguments make no command. -/
def usage (tool : Tool) : Outcome :=
  let form := match tool with
    | .assembler => "<in.asm> [out.hex] [--isa <path>] [--stdout]"
    | .toolset => "asm <in.asm> [out.hex] [--isa <path>] [--stdout] | isa [--isa <path>]"
  ⟨1, "", "error: the arguments make no command\n\nusage: " ++ form ++ "\n"⟩

end Outcome

/-- What the programs read their arguments and their machine descriptions with. -/
structure Readers where
  command? : Tool → List Text → Option Command
  description? : Text → Option Description

/-- The readers of this library. -/
def Readers.standard : Readers := ⟨Command.parse?, Description.parse?⟩

namespace Command

variable {m : Type → Type} [Monad m]

/-- The catalog of the description at a path. -/
def loadFile (files : FileAccess m) (path : Text)
    (read : Text → Option Description := Description.parse?) : m (Except LoadError Catalog) := do
  match ← files.read path with
  | .error why => return .error (.unreadable path why)
  | .ok text => return Description.load text read

/-- The listing of the source at a path. -/
def assembleFile (files : FileAccess m) (catalog : Catalog) (source : Text) :
    m (Except Failure Listing) := do
  match ← files.read source with
  | .error why => return .error (.source source why)
  | .ok text =>
    match Listing.ofSource catalog text with
    | .error why => return .error (.program source why)
    | .ok listing => return .ok listing

/-- Assembles the source at a path and writes its listing to another. -/
def assembleTo (files : FileAccess m) (catalog : Catalog) (source target : Text) :
    m (Except Failure Listing) := do
  match ← assembleFile files catalog source with
  | .error why => return .error why
  | .ok listing =>
    match ← files.write target listing.render with
    | .error why => return .error (.target target why)
    | .ok () => return .ok listing

/-- Runs a command with a catalog. -/
def runWith (files : FileAccess m) (catalog : Catalog) : Command → m Outcome
  | .list _ =>
    return .printed (String.join (catalog.instructions.map (·.row ++ "\n")))
  | .assemble source _ _ true => do
    match ← assembleFile files catalog source with
    | .error why => return .failed why
    | .ok listing => return .printed (String.ofList listing.render)
  | .assemble source target _ false => do
    let target := target.getD (Path.defaultListing source)
    match ← assembleTo files catalog source target with
    | .error why => return .failed why
    | .ok listing => return .wrote target listing.words.length

/-- The path of a command's machine description. -/
def descriptionPath : Command → Text
  | .list path => path
  | .assemble _ _ path _ => path

/-- Runs a command. -/
def run (files : FileAccess m) (c : Command)
    (read : Text → Option Description := Description.parse?) : m Outcome := do
  match ← loadFile files c.descriptionPath read with
  | .error why => return .failed (.description c.descriptionPath why)
  | .ok catalog => runWith files catalog c

end Command

/-- Runs a program with its arguments. -/
def Tool.run {m : Type → Type} [Monad m] (tool : Tool) (files : FileAccess m) (args : List Text)
    (readers : Readers := .standard) : m Outcome :=
  match readers.command? tool args with
  | some c => c.run files readers.description?
  | none => return .usage tool

end Asm16
