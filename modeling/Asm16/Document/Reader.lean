-- SUMMARY: Reading a TOML document of texts, integers, arrays and tables.
import Asm16.Document.Token
import Asm16.Document.Value

/-!
# Reading a document

The reader takes the part of TOML that machine descriptions are made of: texts, integers, arrays,
inline tables and `[[...]]` headers. All else has no place in a description and is refused, whether
it is TOML or not: floats, booleans and dates, keys with dots, and `[...]` headers.

Keys may repeat here; a description is refused for it when it is built.
-/

namespace Asm16
namespace Document

-- ---------------------------------------------------------------------------
-- Integers
-- ---------------------------------------------------------------------------

/-- Whether a text is a numeral with single underscores between its digits. -/
def isGrouped (base : Nat) (t : Text) : Bool :=
  (t.cutAt (· == '_')).all (Numeral.isNumeral base)

/-- The value of a numeral with underscores. -/
def groupedValue (base : Nat) (t : Text) : Nat := Numeral.value base (t.filter (· != '_'))

/-- A numeral after its base mark. -/
def unsigned? (base : Nat) (t : Text) : Option Int :=
  if isGrouped base t then some (groupedValue base t) else none

/-- A decimal numeral. It has no zero in front of other digits. -/
def decimal? (t : Text) : Option Int :=
  if isGrouped 10 t && (t.head? != some '0' || t.length == 1) then some (groupedValue 10 t) else none

/-- The integer that a bare word stands for. A plus sign may stand before any form. -/
def integer? (word : Text) : Option Int :=
  let t := match word with
    | '+' :: rest => rest
    | _ => word
  match t with
  | '0' :: 'x' :: digits => unsigned? 16 digits
  | '0' :: 'o' :: digits => unsigned? 8 digits
  | '0' :: 'b' :: digits => unsigned? 2 digits
  | '-' :: digits => (decimal? digits).map (- ·)
  | digits => decimal? digits

-- ---------------------------------------------------------------------------
-- Values
-- ---------------------------------------------------------------------------

/-- Drops blanks. -/
def skipBlanks (ts : List Token) : List Token := ts.dropWhile (· == .blank)

/-- Drops blanks and line ends. -/
def skipLines (ts : List Token) : List Token :=
  ts.dropWhile fun t => t == .blank || t == .newline

/-- Takes a key: a bare word or a string on one line. -/
def key? : List Token → Option (Text × List Token)
  | .word t :: rest => if t.head? == some '+' then none else some (t, rest)
  | .quoted t false :: rest => some (t, rest)
  | _ => none

/-- Takes a key and the equals sign after it. -/
def keyEquals? (ts : List Token) : Option (Text × List Token) := do
  let (key, rest) ← key? ts
  match skipBlanks rest with
  | .equals :: rest => return (key, skipBlanks rest)
  | _ => none

mutual

/-- Takes a value. Each nesting and each item uses up one unit of `fuel`. -/
def value? : Nat → List Token → Option (Value × List Token)
  | 0, _ => none
  | fuel + 1, ts =>
    match ts with
    | .quoted t _ :: rest => some (.text t, rest)
    | .word t :: rest => (integer? t).map fun n => (.integer n, rest)
    | .openBracket :: rest => items? fuel (skipLines rest) []
    | .openBrace :: rest =>
      match skipBlanks rest with
      | .closeBrace :: rest => some (.table [], rest)
      | rest => entries? fuel rest []
    | _ => none

/-- Takes the items of an array up to its closing bracket. A comma may stand before the bracket. -/
def items? : Nat → List Token → List Value → Option (Value × List Token)
  | 0, _, _ => none
  | fuel + 1, ts, done =>
    match ts with
    | .closeBracket :: rest => some (.array done.reverse, rest)
    | _ => do
      let (v, rest) ← value? fuel ts
      match skipLines rest with
      | .comma :: rest => items? fuel (skipLines rest) (v :: done)
      | .closeBracket :: rest => return (.array (v :: done).reverse, rest)
      | _ => none

/-- Takes the entries of an inline table up to its closing brace. -/
def entries? : Nat → List Token → Table → Option (Value × List Token)
  | 0, _, _ => none
  | fuel + 1, ts, done => do
    let (key, rest) ← keyEquals? ts
    let (v, rest) ← value? fuel rest
    match skipBlanks rest with
    | .comma :: rest => entries? fuel (skipBlanks rest) ((key, v) :: done)
    | .closeBrace :: rest => return (.table ((key, v) :: done).reverse, rest)
    | _ => none

end

-- ---------------------------------------------------------------------------
-- Documents
-- ---------------------------------------------------------------------------

/-- Takes the end of a line or of the document. -/
def lineEnd? (ts : List Token) : Option (List Token) :=
  match skipBlanks ts with
  | [] => some []
  | .newline :: rest => some rest
  | _ => none

/-- Takes the path of a header up to its closing brackets. -/
def path? : Nat → List Token → List Text → Option (List Text × List Token)
  | 0, _, _ => none
  | fuel + 1, ts, done => do
    let (key, rest) ← key? (skipBlanks ts)
    match skipBlanks rest with
    | .dot :: rest => path? fuel rest (key :: done)
    | .closeBracket :: .closeBracket :: rest => return ((key :: done).reverse, rest)
    | _ => none

/-- A header, or nothing at the top of the document, and the entries that stand under it. -/
structure Part where
  header : List Text
  entries : Table

/-- Takes the lines of a document. `current` is the part being read, its entries in reverse. -/
def parts? : Nat → List Token → Part → List Part → Option (List Part)
  | 0, _, _, _ => none
  | fuel + 1, ts, current, done =>
    match skipLines ts with
    | [] => some (close current :: done).reverse
    | .openBracket :: .openBracket :: rest => do
      let (path, rest) ← path? fuel rest []
      let rest ← lineEnd? rest
      parts? fuel rest ⟨path, []⟩ (close current :: done)
    | ts => do
      let (key, rest) ← keyEquals? ts
      let (v, rest) ← value? fuel rest
      let rest ← lineEnd? rest
      parts? fuel rest { current with entries := (key, v) :: current.entries } done
where
  /-- A part whose entries are complete. -/
  close (p : Part) : Part := { p with entries := p.entries.reverse }

/-- The table of a document: the entries at its top, and a table for every header. -/
def build : List Part → Option Table
  | [] => some []
  | top :: rest => rest.foldlM (fun t p => Table.openAt p.entries p.header t) top.entries

/-- Reads a document. -/
def read (t : Text) : Option Table := do
  let ts ← tokens t
  build (← parts? (2 * ts.length + 2) ts ⟨[], []⟩ [])

end Document
end Asm16
