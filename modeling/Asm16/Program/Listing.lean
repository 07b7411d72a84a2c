-- SUMMARY: Listings: the encodings of a program, their words and their text.
import Asm16.Program.Encoding

/-!
# Listings

The second pass over a program encodes its lines one after the other, each at the address after the
one before it, against the complete label table. The listing that results is written one row for
every word.
-/

namespace Asm16

/-- An assembled program. -/
structure Listing where
  labels : LabelTable
  encodings : List Encoding
  deriving DecidableEq, Repr

namespace Encoding

/-- Encodes lines from an address on. `done` holds the encodings so far, in reverse. -/
def run (catalog : Catalog) (labels : LabelTable) : List Line → Address → List Encoding →
    Except Diagnostic (List Encoding)
  | [], _, done => .ok done.reverse
  | l :: rest, here, done =>
    match l.encode catalog labels here with
    | .ok e => run catalog labels rest e.next (e :: done)
    | .error cause => .error ⟨l, cause⟩

/-- The encodings of lines that begin at address zero. -/
def ofLines (catalog : Catalog) (labels : LabelTable) (lines : List Line) :
    Except Diagnostic (List Encoding) :=
  run catalog labels lines 0 []

/-- An encoding as a listing shows it. -/
def shown (e : Encoding) : Text := Text.join ['\n'] e.rows

end Encoding

namespace Listing

/-- The words of a program in order. -/
def words (l : Listing) : List Word := l.encodings.flatMap Encoding.words

/-- The address after the last instruction, if there is one. The sum is checked, unlike those of
the passes: a listing may hold an encoding at any address. -/
def endAddress? (l : Listing) : Option Address :=
  match l.encodings.getLast? with
  | some e => e.address.after? e.cycles
  | none => some 0

/-- The rows of a listing, one for every word. -/
def rows (l : Listing) : List Text := l.encodings.flatMap Encoding.rows

/-- The text of a listing: its rows, each ended by a line feed. -/
def render (l : Listing) : Text := l.rows.flatMap (· ++ ['\n'])

end Listing
end Asm16
