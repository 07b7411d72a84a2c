-- SUMMARY: Which texts are label lines: a name, blanks, a colon and the rest.
import Asm16.Program.Line
import Asm16.Proofs.Text.Cut
import Asm16.Proofs.Text.Pieces

/-!
# Label lines

`Line.splitLabel` looks for the first colon and trims what stands before it. Said without searching: a
label line is a name, which has no separator and no colon in it, then blanks, a colon and the rest.
There is only one way to read a text like that.
-/

namespace Asm16
namespace Line

variable {t w u name rest : Text} {l : Line}

/-- The text can be the name of a label. -/
structure IsLabelName (t : Text) : Prop where
  ne_nil : t ≠ []
  char : ∀ c ∈ t, Text.isSeparator c = false ∧ c ≠ ':'

theorem isLabelName_iff :
    IsLabelName t ↔ (!t.isEmpty && t.all fun c => !Text.isSeparator c && c != ':') = true := by
  simp only [Bool.and_eq_true, List.all_eq_true, Bool.not_eq_true', List.isEmpty_eq_false_iff, bne_iff_ne]
  exact ⟨fun h => ⟨h.ne_nil, h.char⟩, fun h => ⟨h.1, h.2⟩⟩

instance (t : Text) : Decidable (IsLabelName t) := decidable_of_iff' _ isLabelName_iff

/-- The line that defines a name and says nothing else. -/
def definition (n : Nat) (name : Text) : Line := ⟨n, name ++ [':']⟩

theorem isBlank_of_not_isSeparator {c : Char} (h : Text.isSeparator c = false) :
    Text.isBlank c = false := by
  rw [Text.isSeparator, Bool.or_eq_false_iff] at h
  exact h.2

theorem colon_not_mem_of_isBlanks (h : w.IsBlanks) : ':' ∉ w :=
  fun hmem => absurd (h ':' hmem) (by decide)

theorem isSeparator_of_isBlanks (h : w.IsBlanks) : ∀ c ∈ w, Text.isSeparator c = true := by
  intro c hc
  rw [Text.isSeparator, h c hc, Bool.or_true]

theorem IsLabelName.colon_not_mem (h : IsLabelName name) : ':' ∉ name :=
  fun hmem => (h.char ':' hmem).2 rfl

theorem IsLabelName.separator (h : IsLabelName name) : ∀ c ∈ name, Text.isSeparator c = false :=
  fun c hc => (h.char c hc).1

theorem IsLabelName.trimEnd (h : IsLabelName name) (hw : w.IsBlanks) : (name ++ w).trimEnd = name := by
  rw [Text.trimEnd_append_right hw]
  exact Text.trimEnd_of_no_blank fun c hc => isBlank_of_not_isSeparator (h.separator c hc)

theorem IsLabelName.colon_not_mem_append (h : IsLabelName name) (hw : w.IsBlanks) : ':' ∉ name ++ w := by
  rw [List.mem_append, not_or]
  exact ⟨h.colon_not_mem, colon_not_mem_of_isBlanks hw⟩

theorem splitLabel_append (hname : IsLabelName name) (hw : w.IsBlanks) (u : Text) :
    splitLabel (name ++ (w ++ ':' :: u)) = some (name, u.trim) := by
  have hcolon := hname.colon_not_mem_append hw
  have hhas : ((name ++ w) ++ ':' :: u).has ':' = true := by
    rw [Text.has_iff_mem]
    simp
  have hvalid : ¬ (name.isEmpty || name.any Text.isSeparator) = true := by
    rw [Bool.or_eq_true, List.isEmpty_iff, List.any_eq_true]
    rintro (hnil | ⟨c, hc, hseparator⟩)
    · exact hname.ne_nil hnil
    · exact absurd hseparator (by simp [hname.separator c hc])
  rw [← List.append_assoc, splitLabel, if_pos hhas]
  simp only [Text.before_append_cons hcolon, Text.after_append_cons hcolon, hname.trimEnd hw,
    if_neg hvalid]

/-- A label line is a name, blanks, a colon, and text that is the rest when it is trimmed. -/
theorem splitLabel_eq_some_iff :
    splitLabel t = some (name, rest) ↔
      IsLabelName name ∧ ∃ w u : Text, w.IsBlanks ∧ t = name ++ (w ++ ':' :: u) ∧ rest = u.trim := by
  constructor
  · intro h
    rw [splitLabel] at h
    split at h
    · rename_i hhas
      dsimp only at h
      split at h
      · cases h
      · rename_i hvalid
        cases h
        obtain ⟨w, hw, hbefore⟩ := Text.exists_append_trimEnd (t.before ':')
        rw [Bool.or_eq_true, not_or, List.isEmpty_iff, Bool.not_eq_true, List.any_eq_false] at hvalid
        refine ⟨⟨hvalid.1, fun c hc => ⟨by simpa using hvalid.2 c hc, ?_⟩⟩, w, t.after ':', hw, ?_, rfl⟩
        · rintro rfl
          exact Text.not_mem_before ':' t ((Text.prefix_trimEnd _).subset hc)
        · rw [← List.append_assoc, ← hbefore, Text.before_append_after (Text.has_iff_mem.1 hhas)]
    · cases h
  · rintro ⟨hname, w, u, hw, rfl, rfl⟩
    exact splitLabel_append hname hw u

/-- Name and rest are taken from the text. -/
theorem subset_of_splitLabel (h : splitLabel t = some (name, rest)) : name ⊆ t ∧ rest ⊆ t := by
  obtain ⟨-, w, u, -, rfl, rfl⟩ := splitLabel_eq_some_iff.1 h
  constructor
  · exact List.subset_append_left _ _
  · intro c hc
    simp [(Text.infix_trim u).subset hc]

/-- The rest has no blanks at its ends. -/
theorem trim_of_splitLabel (h : splitLabel t = some (name, rest)) : rest.trim = rest := by
  obtain ⟨-, w, u, -, -, rfl⟩ := splitLabel_eq_some_iff.1 h
  exact Text.trim_trim u

/-- A label line has a colon in its first word or at the start of its second. -/
theorem words_of_splitLabel (h : splitLabel t = some (name, rest)) :
    (∃ v ws, t.words = (name ++ ':' :: v) :: ws) ∨ ∃ v ws, t.words = name :: (':' :: v) :: ws := by
  obtain ⟨hname, w, u, hw, rfl, -⟩ := splitLabel_eq_some_iff.1 h
  have hcolon : ∀ c ∈ [':'], Text.isSeparator c = false := List.forall_mem_singleton.2 (by decide)
  cases w with
  | nil =>
    left
    have hseparator : ∀ c ∈ name ++ [':'], Text.isSeparator c = false :=
      List.forall_mem_append.2 ⟨hname.separator, hcolon⟩
    obtain ⟨v, ws, hwords⟩ := Text.exists_words_append (by simp) hseparator u
    exact ⟨v, ws, by simpa using hwords⟩
  | cons b bs =>
    right
    obtain ⟨hb, hbs⟩ := List.forall_mem_cons.1 (isSeparator_of_isBlanks hw)
    obtain ⟨v, ws, hwords⟩ := Text.exists_words_append (by simp) hcolon u
    refine ⟨v, ws, ?_⟩
    rw [List.cons_append, Text.words_append_separator hname.ne_nil hname.separator hb,
      Text.words_append_of_separators hbs]
    exact congrArg (name :: ·) hwords

/-! ## Lines -/

theorem label?_of_splitLabel (h : splitLabel l.text = some (name, rest)) : l.label? = some name := by
  rw [label?, h, Option.map_some]

theorem code_of_splitLabel (h : splitLabel l.text = some (name, rest)) : l.code = rest := by
  rw [code, h]

/-! ## Lines that only define a name -/

theorem splitLabel_definition (h : IsLabelName name) : splitLabel (name ++ [':']) = some (name, []) :=
  splitLabel_append h (w := []) (by simp [Text.IsBlanks]) []

theorem label?_definition (h : IsLabelName name) (n : Nat) :
    (definition n name).label? = some name :=
  label?_of_splitLabel (splitLabel_definition h)

theorem code_definition (h : IsLabelName name) (n : Nat) : (definition n name).code = [] :=
  code_of_splitLabel (splitLabel_definition h)

end Line
end Asm16
