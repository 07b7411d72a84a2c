-- SUMMARY: Laying a program out: the address of every label and the lines left to encode.
import Asm16.Catalog.Basic
import Asm16.Program.Diagnostic

/-!
# Layout

The first pass over a program finds where its labels are. It needs the size of every instruction
for that, hence its mnemonic, but not its operands: it steps an address through the lines, defines
each label at the address reached, and keeps the lines with code, less their labels. A line whose
mnemonic is not in the catalog ends the pass.
-/

namespace Asm16

/-- What the first pass over a program finds. -/
structure Layout where
  labels : LabelTable
  /-- The lines with code, without their labels. -/
  lines : List Line
  deriving DecidableEq, Repr

namespace Line

/-- The word that has to be a mnemonic: the first of a line's code, or all of the code if it has
separators only. -/
def mnemonic (l : Line) : Text := l.code.words.headD l.code

/-- The label table after a line at an address. -/
def define (l : Line) (labels : LabelTable) (here : Address) : LabelTable :=
  match l.label? with
  | some name => (labels.define name here).2
  | none => labels

end Line

namespace Layout

/-- Steps through the lines from an address on. `done` holds the lines kept so far, in reverse. -/
def scan (catalog : Catalog) : List Line → Address → LabelTable → List Line →
    Except Diagnostic Layout
  | [], _, labels, done => .ok ⟨labels, done.reverse⟩
  | l :: rest, here, labels, done =>
    let labels := l.define labels here
    if l.code.isEmpty then scan catalog rest here labels done
    else match catalog.lookup? l.mnemonic with
      | some i => scan catalog rest (here.after i.cycles) labels (l.withoutLabel :: done)
      | none => .error ⟨l, .unresolvable l.mnemonic⟩

/-- The layout of a program. -/
def ofLines (catalog : Catalog) (lines : List Line) : Except Diagnostic Layout :=
  scan catalog lines 0 .empty []

end Layout
end Asm16
