-- SUMMARY: Values of a TOML document and the tables that its headers build.
import Asm16.Text.Basic

/-!
# Values

A document is a table. Its values are texts, integers, arrays and tables; an array of tables is told
apart from other arrays if headers opened it, because only then can a further header extend it.
-/

namespace Asm16
namespace Document

/-- A value of a document. -/
inductive Value where
  | text (t : Text)
  | integer (n : Int)
  | array (items : List Value)
  | table (entries : List (Text × Value))
  /-- An array of tables that headers opened. -/
  | tables (items : List Value)
  deriving Inhabited

/-- A table: its keys and values in order. -/
abbrev Table := List (Text × Value)

namespace Table

/-- Gives the first entry of a key another value. -/
def replace (key : Text) (v : Value) : Table → Table
  | [] => []
  | e :: rest => if e.1 = key then (key, v) :: rest else e :: replace key v rest

/-- Opens a table under a header: it becomes the last of the array at the end of the path. Every
key before leads to the last table of an array that was opened before. -/
def openAt (opened : Table) : List Text → Table → Option Table
  | [], _ => none
  | [key], t =>
    match t.lookup key with
    | none => some (t ++ [(key, .tables [.table opened])])
    | some (.tables items) => some (replace key (.tables (items ++ [.table opened])) t)
    | some _ => none
  | key :: path, t =>
    match t.lookup key with
    | some (.tables items) =>
      match items.getLast? with
      | some (.table last) => do
        let last ← openAt opened path last
        return replace key (.tables (items.dropLast ++ [.table last])) t
      | _ => none
    | _ => none

/-- The keys of a table. -/
def keys (t : Table) : List Text := t.map (·.1)

end Table
end Document
end Asm16
