-- SUMMARY: What stands before and after the first occurrence of a character.
import Mathlib.Data.List.TakeWhile
import Asm16.Text.Basic

/-!
# Cutting at a character

A text that has a character is what stands before its first occurrence, the character, and what
stands after it, and there is no other way to take it apart at a first occurrence.
-/

namespace Asm16
namespace Text

variable {c : Char} {a b t : Text}

theorem has_iff_mem : t.has c = true ↔ c ∈ t := by simp [has]

theorem bne_of_not_mem (h : c ∉ t) : ∀ d ∈ t, (d != c) = true := by
  intro d hd
  exact bne_iff_ne.2 fun e => h (e ▸ hd)

theorem not_mem_before (c : Char) (t : Text) : c ∉ t.before c := by
  intro h
  have hne := List.mem_takeWhile_imp h
  simp at hne

/-- A text is taken apart at the first occurrence of a character it has. -/
theorem before_append_after (h : c ∈ t) : t.before c ++ c :: t.after c = t := by
  induction t with
  | nil => cases h
  | cons d t ih =>
    by_cases hd : d = c
    · subst hd; simp [before, after]
    · have hmem : c ∈ t := (List.mem_cons.1 h).resolve_left (Ne.symm hd)
      simpa [before, after, hd] using ih hmem

theorem before_append_cons (h : c ∉ a) : (a ++ c :: b).before c = a := by
  simp [before, List.takeWhile_append_of_pos (bne_of_not_mem h)]

theorem before_append_of_mem (h : c ∈ a) : (a ++ b).before c = a.before c := by
  rw [← before_append_after h, List.append_assoc, List.cons_append,
    before_append_cons (not_mem_before c a), before_append_cons (not_mem_before c a)]

theorem before_append_of_not_mem (h : c ∉ a) : (a ++ b).before c = a ++ b.before c :=
  List.takeWhile_append_of_pos (bne_of_not_mem h)

theorem before_of_not_mem (h : c ∉ t) : t.before c = t :=
  List.takeWhile_eq_self_iff.2 (bne_of_not_mem h)

theorem after_append_cons (h : c ∉ a) : (a ++ c :: b).after c = b := by
  simp [after, List.dropWhile_append_of_pos (bne_of_not_mem h)]

theorem after_of_not_mem (h : c ∉ t) : t.after c = [] := by
  rw [after, List.dropWhile_eq_nil_iff.2 (bne_of_not_mem h), List.drop_nil]

end Text
end Asm16
