-- SUMMARY: Assembling a program: layout, then encoding against the complete label table.
import Asm16.Program.Layout
import Asm16.Program.Listing

/-!
# Assembly

A program is assembled in two passes, so that a line may refer to a label defined further down. A
refused line in either pass means that there is no listing at all.
-/

namespace Asm16
namespace Listing

/-- The listing of lines. -/
def ofLines (catalog : Catalog) (lines : List Line) : Except Diagnostic Listing :=
  match Layout.ofLines catalog lines with
  | .error d => .error d
  | .ok layout =>
    match Encoding.ofLines catalog layout.labels layout.lines with
    | .error d => .error d
    | .ok encodings => .ok ⟨layout.labels, encodings⟩

/-- The listing of a source text. -/
def ofSource (catalog : Catalog) (source : Text) : Except Diagnostic Listing :=
  ofLines catalog (Line.ofSource source)

end Listing
end Asm16
