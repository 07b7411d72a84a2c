-- SUMMARY: Labels are split off the texts of one form, each in one way; the others are refused for what stands before the first colon.
import Asm16.Proofs.Line.Label

/-!
# The form of label lines

A label line is a name, blanks, a colon and a tail, whose blanks at the ends do not count. Splitting takes a
label off the texts of this form and off no others, and no text has the form in two ways. What is refused
can be told from the text as well: it has no colon, it begins with a blank or a colon, or a separator stands
inside the part before its first colon. The tail has no say in that, whether or not it has colons of its own.
-/

namespace Asm16
namespace Line

/-- The text is a name, blanks, a colon and a tail, and the rest is the tail without the blanks at its ends. -/
structure LabelForm (t name w tail rest : Text) : Prop where
  eq : t = name ++ (w ++ ':' :: tail)
  ne_nil : name ≠ []
  char : ∀ c ∈ name, Text.isBlank c = false ∧ c ≠ ',' ∧ c ≠ ':'
  isBlanks : w.IsBlanks
  trimsTo : tail.TrimsTo rest

/-- What keeps a text from being a label line: no colon, a blank or a colon in front, or a separator inside
what stands before the first colon. A comma is inside wherever it stands there; a blank is inside if not only
blanks follow it. -/
inductive Unlabelled : Text → Prop where
  | noColon {t} : ':' ∉ t → Unlabelled t
  | blankFirst {c t} : Text.isBlank c = true → Unlabelled (c :: t)
  | colonFirst {t} : Unlabelled (':' :: t)
  | separatorInside {a c b tail} : ':' ∉ a ++ c :: b →
      (c = ',' ∨ Text.isBlank c = true ∧ ¬ Text.IsBlanks b) →
        Unlabelled ((a ++ c :: b) ++ ':' :: tail)

variable {t name w tail rest name' w' tail' rest' front : Text}

/-! ## Label lines -/

theorem isSeparator_eq_false_iff {c : Char} :
    Text.isSeparator c = false ↔ Text.isBlank c = false ∧ c ≠ ',' := by
  rw [Text.isSeparator, Bool.or_eq_false_iff, beq_eq_false_iff_ne, and_comm]

theorem LabelForm.isLabelName (h : LabelForm t name w tail rest) : IsLabelName name where
  ne_nil := h.ne_nil
  char c hc := by
    obtain ⟨hblank, hcomma, hcolon⟩ := h.char c hc
    exact ⟨isSeparator_eq_false_iff.2 ⟨hblank, hcomma⟩, hcolon⟩

theorem LabelForm.before_eq (h : LabelForm t name w tail rest) : t.before ':' = name ++ w := by
  rw [h.eq, ← List.append_assoc, Text.before_append_cons (h.isLabelName.colon_not_mem_append h.isBlanks)]

theorem LabelForm.after_eq (h : LabelForm t name w tail rest) : t.after ':' = tail := by
  rw [h.eq, ← List.append_assoc, Text.after_append_cons (h.isLabelName.colon_not_mem_append h.isBlanks)]

/-- The name is what stands before the first colon, less the blanks after it. -/
theorem LabelForm.trimEnd_before (h : LabelForm t name w tail rest) : (t.before ':').trimEnd = name := by
  rw [h.before_eq, h.isLabelName.trimEnd h.isBlanks]

theorem LabelForm.unique (h : LabelForm t name w tail rest) (k : LabelForm t name' w' tail' rest') :
    name = name' ∧ w = w' ∧ tail = tail' ∧ rest = rest' := by
  obtain rfl : name = name' := h.trimEnd_before.symm.trans k.trimEnd_before
  obtain rfl : tail = tail' := h.after_eq.symm.trans k.after_eq
  refine ⟨rfl, ?_, rfl, ?_⟩
  · exact List.append_cancel_left (h.before_eq.symm.trans k.before_eq)
  · exact (Text.trim_eq_iff.2 h.trimsTo).symm.trans (Text.trim_eq_iff.2 k.trimsTo)

theorem splitLabel_eq_some_iff_labelForm :
    splitLabel t = some (name, rest) ↔ ∃ w tail, LabelForm t name w tail rest := by
  rw [splitLabel_eq_some_iff]
  constructor
  · rintro ⟨hname, w, tail, hw, ht, rfl⟩
    refine ⟨w, tail, ht, hname.ne_nil, fun c hc => ?_, hw, Text.trimsTo_trim tail⟩
    obtain ⟨hblank, hcomma⟩ := isSeparator_eq_false_iff.1 (hname.separator c hc)
    exact ⟨hblank, hcomma, (hname.char c hc).2⟩
  · rintro ⟨w, tail, h⟩
    exact ⟨h.isLabelName, w, tail, h.isBlanks, h.eq, (Text.trim_eq_iff.2 h.trimsTo).symm⟩

/-! ## The part before the first colon decides -/

/-- A label is taken off if what stands before the first colon is a name when the blanks after it are gone. -/
theorem splitLabel_append_colon (hfront : ':' ∉ front) (tail : Text) :
    splitLabel (front ++ ':' :: tail) =
      if IsLabelName front.trimEnd then some (front.trimEnd, tail.trim) else none := by
  split
  · rename_i hname
    obtain ⟨w, hw, hblanks⟩ := Text.exists_append_trimEnd front
    have hsplit := splitLabel_append hname hw tail
    rwa [← List.append_assoc, ← hblanks] at hsplit
  · rename_i hname
    rw [Option.eq_none_iff_forall_ne_some]
    rintro ⟨name, rest⟩ hsplit
    obtain ⟨w, tail', h⟩ := splitLabel_eq_some_iff_labelForm.1 hsplit
    have htrim := h.trimEnd_before
    rw [Text.before_append_cons hfront] at htrim
    exact hname (htrim ▸ h.isLabelName)

/-! ## Texts that are no label lines -/

/-- The first character of a label line is one of its name. -/
theorem LabelForm.mem_of_cons {c : Char} (h : LabelForm (c :: t) name w tail rest) : c ∈ name := by
  obtain ⟨d, ds, rfl⟩ := List.exists_cons_of_ne_nil h.ne_nil
  rw [(List.cons.inj h.eq).1]
  exact List.mem_cons_self

/-- Before the first colon there are blanks only from a character on that is not one of the name. -/
theorem LabelForm.isBlanks_of_not_mem {a b : Text} {c : Char} (h : LabelForm t name w tail rest)
    (hbefore : t.before ':' = a ++ c :: b) (hc : c ∉ name) : Text.IsBlanks (c :: b) := by
  rw [h.before_eq] at hbefore
  obtain ⟨l, rfl, hw⟩ | ⟨l, rfl, hl⟩ := List.append_eq_append_iff.1 hbefore
  · intro d hd
    exact h.isBlanks d (by rw [hw]; exact List.mem_append_right l hd)
  · cases l with
    | nil => exact hl ▸ h.isBlanks
    | cons d l =>
      rw [(List.cons.inj hl).1] at hc
      exact absurd (List.mem_append_right a List.mem_cons_self) hc

theorem LabelForm.not_unlabelled (h : LabelForm t name w tail rest) : ¬ Unlabelled t := by
  intro hunlabelled
  cases hunlabelled with
  | noColon hcolon => exact hcolon (by rw [h.eq]; simp)
  | blankFirst hblank => exact absurd hblank (by simp [(h.char _ h.mem_of_cons).1])
  | colonFirst => exact (h.char _ h.mem_of_cons).2.2 rfl
  | @separatorInside a c b u hcolon hinside =>
    have hbefore := Text.before_append_cons (b := u) hcolon
    rcases hinside with rfl | ⟨hblank, hb⟩
    · have hcomma : ',' ∉ name := fun hmem => (h.char ',' hmem).2.1 rfl
      exact absurd (h.isBlanks_of_not_mem hbefore hcomma ',' List.mem_cons_self) (by decide)
    · have hc : c ∉ name := fun hmem => absurd hblank (by simp [(h.char c hmem).1])
      exact hb (List.forall_mem_cons.1 (h.isBlanks_of_not_mem hbefore hc)).2

theorem exists_isSeparator_of_not_isLabelName (hne : t ≠ []) (hcolon : ':' ∉ t) (h : ¬ IsLabelName t) :
    ∃ c ∈ t, Text.isSeparator c = true := by
  by_contra hno
  refine h ⟨hne, fun c hc => ⟨?_, ?_⟩⟩
  · exact eq_false_of_ne_true fun hseparator => hno ⟨c, hc, hseparator⟩
  · exact ne_of_mem_of_not_mem hc hcolon

/-- What stands before the first colon shows why it is no name. -/
theorem unlabelled_of_not_isLabelName (hfront : ':' ∉ front) (h : ¬ IsLabelName front.trimEnd) :
    Unlabelled (front ++ ':' :: tail) := by
  obtain ⟨w, hw, hblanks⟩ := Text.exists_append_trimEnd front
  by_cases hnil : front.trimEnd = []
  · rw [hnil, List.nil_append] at hblanks
    subst hblanks
    cases front with
    | nil => exact .colonFirst
    | cons c u => exact .blankFirst (hw c List.mem_cons_self)
  · have hcolon : ':' ∉ front.trimEnd := fun hmem => hfront ((Text.prefix_trimEnd front).subset hmem)
    obtain ⟨c, hc, hseparator⟩ := exists_isSeparator_of_not_isLabelName hnil hcolon h
    obtain ⟨a, b, hcut⟩ := List.append_of_mem hc
    have hsplit : front = a ++ c :: (b ++ w) := by
      rw [hcut] at hblanks
      simpa using hblanks
    -- a blank that is left when the end is trimmed has more than blanks behind it
    have hinside : c = ',' ∨ Text.isBlank c = true ∧ ¬ Text.IsBlanks (b ++ w) := by
      rw [Text.isSeparator, Bool.or_eq_true, beq_iff_eq] at hseparator
      refine hseparator.imp_right fun hblank => ⟨hblank, fun hb => ?_⟩
      refine Text.not_isBlanks_of_trimEnd_eq hcut (List.forall_mem_cons.2 ⟨hblank, fun d hd => ?_⟩)
      exact hb d (List.mem_append_left w hd)
    rw [hsplit] at hfront ⊢
    exact .separatorInside hfront hinside

/-- A text is refused for what keeps it from being a label line. -/
theorem splitLabel_eq_none_iff : splitLabel t = none ↔ Unlabelled t := by
  constructor
  · intro h
    by_cases hcolon : ':' ∈ t
    · rw [← Text.before_append_after hcolon] at h ⊢
      have hfront := Text.not_mem_before ':' t
      rw [splitLabel_append_colon hfront] at h
      split at h
      · cases h
      · rename_i hname
        exact unlabelled_of_not_isLabelName hfront hname
    · exact .noColon hcolon
  · intro h
    rw [Option.eq_none_iff_forall_ne_some]
    rintro ⟨name, rest⟩ hsplit
    obtain ⟨w, tail, hform⟩ := splitLabel_eq_some_iff_labelForm.1 hsplit
    exact hform.not_unlabelled h

/-! ## Splitting by form -/

/-- How a text is split. -/
structure SplitsByForm (t : Text) : Prop where
  /-- A label is taken off if the text has the form of a label line, and from no other text. -/
  accepts : ∀ name rest, splitLabel t = some (name, rest) ↔ ∃ w tail, LabelForm t name w tail rest
  /-- The text has the form in one way at most. -/
  unique : ∀ name w tail rest name' w' tail' rest', LabelForm t name w tail rest →
    LabelForm t name' w' tail' rest' → name = name' ∧ w = w' ∧ tail = tail' ∧ rest = rest'
  /-- No label is taken off if something keeps the text from being a label line, and only then. -/
  refuses : splitLabel t = none ↔ Unlabelled t
  /-- With another tail, whatever colons it has, the name stays or the text is refused as it was. -/
  tail : ∀ front tail other : Text, t = front ++ ':' :: tail → ':' ∉ front → ∃ rest, other.TrimsTo rest ∧
    splitLabel (front ++ ':' :: other) = (splitLabel t).map fun p => (p.1, rest)

/-- Every text is split by its form. -/
theorem splitsByForm (t : Text) : SplitsByForm t where
  accepts name rest := splitLabel_eq_some_iff_labelForm
  unique name w tail rest name' w' tail' rest' h k := h.unique k
  refuses := splitLabel_eq_none_iff
  tail front tail other ht hfront := by
    refine ⟨Text.trim other, Text.trimsTo_trim other, ?_⟩
    rw [ht, splitLabel_append_colon hfront, splitLabel_append_colon hfront]
    split <;> rfl

/-- Blanks of any kind may stand before the colon and colons after it, but nothing in front of the name. -/
example : splitLabel "LOOP\t\u2003: x:y ".toList = some ("LOOP".toList, "x:y".toList) ∧
    splitLabel " LOOP: x".toList = none := by decide

end Line
end Asm16
