-- SUMMARY: Label tables: first definitions win, and the sorted view.
import Asm16.Machine.Word

/-!
# Labels

A label names an address. Names are told apart by case, and the first definition of a name stands:
a later one changes nothing.
-/

namespace Asm16

/-- The labels of a program, the latest definition first. -/
@[ext]
structure LabelTable where
  entries : List (Text × Address)
  /-- No name is defined twice. -/
  distinct : (entries.map (·.1)).Nodup
  deriving DecidableEq, Repr

namespace LabelTable

/-- The table without labels. -/
def empty : LabelTable := ⟨[], by simp⟩

/-- The address of a label. -/
def get? (t : LabelTable) (name : Text) : Option Address := t.entries.lookup name

/-- Whether a label is defined. -/
def contains (t : LabelTable) (name : Text) : Bool := (t.get? name).isSome

/-- The number of labels. -/
def size (t : LabelTable) : Nat := t.entries.length

theorem contains_iff_mem {t : LabelTable} {name : Text} :
    t.contains name = true ↔ name ∈ t.entries.map (·.1) := by
  unfold contains get?
  induction t.entries with
  | nil => simp
  | cons e rest ih =>
    rw [List.lookup_cons]
    by_cases h : name = e.1
    · simp [h]
    · rw [beq_eq_false_iff_ne.2 h, List.map_cons, List.mem_cons]
      simp only [h, false_or]
      exact ih

/-- Defines a label unless its name is taken; tells whether it did. -/
def define (t : LabelTable) (name : Text) (address : Address) : Bool × LabelTable :=
  if h : t.contains name then (false, t)
  else (true, ⟨(name, address) :: t.entries,
    List.nodup_cons.2 ⟨fun m => h (contains_iff_mem.2 m), t.distinct⟩⟩)

/-- The table after a run of definitions. -/
def ofList (definitions : List (Text × Address)) : LabelTable :=
  definitions.foldl (fun t d => (t.define d.1 d.2).2) empty

theorem get?_define (t : LabelTable) (name other : Text) (address : Address) :
    (t.define name address).2.get? other =
      if other = name then some ((t.get? name).getD address) else t.get? other := by
  unfold define
  split
  · rename_i h
    split
    · rename_i e
      subst e
      obtain ⟨a, ha⟩ := Option.isSome_iff_exists.1 h
      simp [ha]
    · rfl
  · rename_i h
    have hnone : t.get? name = none := by simpa [contains] using h
    rw [hnone]
    simp only [get?, List.lookup_cons]
    by_cases e : other = name
    · simp [e]
    · rw [beq_eq_false_iff_ne.2 e, if_neg e]

/-- The order of the sorted view: by address, and names that share one by their UTF-8 bytes. -/
def precedes (a b : Text × Address) : Bool :=
  a.2.toNat < b.2.toNat ||
    (a.2 == b.2 && decide (a.1.flatMap String.utf8EncodeChar ≤ b.1.flatMap String.utf8EncodeChar))

/-- The labels by address and name. -/
def sorted (t : LabelTable) : List (Text × Address) := t.entries.mergeSort precedes

end LabelTable
end Asm16
