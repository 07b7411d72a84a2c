-- SUMMARY: Label tables as maps: the entries are the look-ups, in whatever order they were made.
import Asm16.Program.Label
import Mathlib.Data.List.Nodup

/-!
# Label tables as maps

No name is defined twice, so a label table is a map, and the order of its entries says only when they
were made. Tables whose look-ups are the same have the same entries up to that order.
-/

namespace Asm16
namespace LabelTable

variable {t u : LabelTable} {name : Text} {a : Address}

theorem mem_entries_iff : (name, a) ∈ t.entries ↔ t.get? name = some a := by
  rw [get?, List.lookup_eq_some_iff]
  constructor
  · intro h
    obtain ⟨before, after, hsplit⟩ := List.append_of_mem h
    have hdistinct := t.distinct
    rw [hsplit, List.map_append, List.map_cons, List.nodup_middle, List.nodup_cons] at hdistinct
    refine ⟨before, after, hsplit, fun p hp => bne_iff_ne.2 ?_⟩
    rintro rfl
    exact hdistinct.1 (List.mem_append_left _ (List.mem_map.2 ⟨p, hp, rfl⟩))
  · rintro ⟨before, after, hsplit, -⟩
    rw [hsplit]
    exact List.mem_append_right _ List.mem_cons_self

theorem nodup_entries (t : LabelTable) : t.entries.Nodup := .of_map _ t.distinct

/-- A table with the look-ups of another and one more name has its entries and one more. -/
theorem perm_cons_of_get? (hname : t.get? name = none)
    (h : ∀ other, u.get? other = if other = name then some a else t.get? other) :
    u.entries.Perm ((name, a) :: t.entries) := by
  have hnew : (name, a) ∉ t.entries := by
    rw [mem_entries_iff, hname]
    simp
  refine (List.perm_ext_iff_of_nodup u.nodup_entries (List.nodup_cons.2 ⟨hnew, t.nodup_entries⟩)).2 ?_
  rintro ⟨other, b⟩
  rw [List.mem_cons, mem_entries_iff, mem_entries_iff, h, Prod.mk.injEq]
  by_cases hother : other = name
  · subst hother
    simp [hname, eq_comm]
  · simp [hother]

end LabelTable
end Asm16
