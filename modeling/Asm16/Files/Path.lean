-- SUMMARY: Paths as text: file names, stems and extensions, and where a listing goes by default.
import Asm16.Text.Basic

/-!
# Paths

A path is a text of names between slashes. Empty names and single dots say nothing, so a path's file
name is the last of the others; two dots lead elsewhere and are no file name. The stem of a file name
is what stands before its last dot, unless that dot is its first character.
-/

namespace Asm16
namespace Path

/-- The length of a text in UTF-8, in which the lengths of names and paths are limited. -/
def byteLength (t : Text) : Nat := (String.ofList t).utf8ByteSize

/-- Whether a path begins at the root. -/
def isAbsolute (p : Text) : Bool := p.head? == some '/'

/-- Whether a path ends in a slash. -/
def isClosed (p : Text) : Bool := p.getLast? == some '/'

/-- The names of a path, dots included. -/
def steps (p : Text) : List Text := (p.cutAt (· == '/')).filter (· != [])

/-- The names of a path, without those that say nothing. -/
def names (p : Text) : List Text := (steps p).filter (· != ['.'])

/-- The file name of a path. -/
def fileName? (p : Text) : Option Text :=
  match (names p).getLast? with
  | some n => if n = ['.', '.'] then none else some n
  | none => none

/-- What stands before the last dot of a name, or all of it if there is nothing before. -/
def stem (name : Text) : Text :=
  match name.reverse.dropWhile (· != '.') with
  | _ :: c :: front => (c :: front).reverse
  | _ => name

/-- The stem of a path's file name. -/
def fileStem? (p : Text) : Option Text := (fileName? p).map stem

/-- What stands before the extension of a name, with the dot before the extension. A name has no
extension if it has no dot, or none but its first character. -/
def trunk (name : Text) : Text :=
  match name.reverse.dropWhile (· != '.') with
  | dot :: c :: front => (dot :: c :: front).reverse
  | _ => name

/-- Gives a file name another extension. First the name loses its own, up to the dot; what is no
file name, before or after that, is left as it is. -/
def withExtension (name ext : Text) : Text :=
  match (fileName? name).map trunk with
  | none => name
  | some t =>
    match fileName? t with
    | some n => stem n ++ '.' :: ext
    | none => t

/-- The extension of listings. -/
def listingExtension : Text := "hex".toList

/-- Where the listing of a source goes if nothing else is said: into the working directory, under
the stem of the source's name. -/
def defaultListing (source : Text) : Text :=
  withExtension ((fileStem? source).getD source) listingExtension

end Path
end Asm16
