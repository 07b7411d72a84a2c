-- SUMMARY: Source lines: numbering and cleaning a source text, and splitting a label off a line.
import Asm16.Text.Basic

/-!
# Lines

A source text is read line by line. A comment runs from a semicolon to the end of its line; what is
left between blanks is the line's text, and a line without text is dropped. The others keep the
number they have in the source.

A line may define a label. A label line is a name, blanks, a colon and the rest: the name is not
empty and has no separator in it. The rest, less the blanks around it, is code like a line of its
own, or empty.
-/

namespace Asm16

/-- A line of source text and its number. -/
structure Line where
  number : Nat
  text : Text
  deriving DecidableEq, Repr

namespace Line

/-- A line as messages show it. -/
def shown (l : Line) : String :=
  "(line " ++ toString l.number ++ ": `" ++ String.ofList l.text ++ "`)"

/-- The texts numbered from `n` on. -/
def numbered (n : Nat) (texts : List Text) : List Line :=
  (texts.zipIdx n).map fun p => ⟨p.2, p.1⟩

-- ---------------------------------------------------------------------------
-- Cleaning
-- ---------------------------------------------------------------------------

/-- The text of a source line without its comment and the blanks around it. -/
def clean (t : Text) : Text := (t.trim.before ';').trim

/-- The lines of a source text that have any text. A line feed ends a line; a carriage return
before it is a blank like any other. -/
def ofSource (source : Text) : List Line :=
  (numbered 1 ((source.cutAt (· == '\n')).map clean)).filter (!·.text.isEmpty)

-- ---------------------------------------------------------------------------
-- Labels
-- ---------------------------------------------------------------------------

/-- The name that a text defines as a label, and the rest of the text. -/
def splitLabel (t : Text) : Option (Text × Text) :=
  if t.has ':' then
    let name := (t.before ':').trimEnd
    if name.isEmpty || name.any Text.isSeparator then none
    else some (name, (t.after ':').trim)
  else none

/-- The label a line defines. -/
def label? (l : Line) : Option Text := (splitLabel l.text).map (·.1)

/-- What a line says apart from defining a label. -/
def code (l : Line) : Text :=
  match splitLabel l.text with
  | some (_, rest) => rest
  | none => l.text

/-- The line without its label. -/
def withoutLabel (l : Line) : Line := { l with text := l.code }

end Line
end Asm16
