-- SUMMARY: Pieces, words and trimming: what they are made of and where they stand in the text.
import Asm16.Text.Basic
import Mathlib.Data.List.DropRight

/-!
# Pieces of a text

Cutting a text at a class of characters is core's `List.splitOnP`. A piece, a word or a trimmed text
stands somewhere in the text it was taken from as it is.
-/

namespace Asm16
namespace Text

variable {p : Char → Bool} {c : Char} {t u w : Text}

/-! ## Pieces -/

theorem cutAt_eq_splitOnP (p : Char → Bool) (t : Text) : cutAt p t = t.splitOnP p := by
  induction t with
  | nil => rfl
  | cons c t ih =>
    rw [List.splitOnP_cons_eq_if_modifyHead]
    cases h : p c with
    | true => rw [cutAt_cons_of_pos h, ih, if_pos rfl]
    | false => rw [cutAt_cons_of_neg h, ih, if_neg Bool.false_ne_true]

/-- The first piece begins the text, and every piece stands in it. -/
theorem cutAt_eq_cons (p : Char → Bool) (t : Text) :
    ∃ w ws, cutAt p t = w :: ws ∧ w <+: t ∧ ∀ u ∈ cutAt p t, u <:+: t := by
  induction t with
  | nil => exact ⟨[], [], rfl, List.nil_prefix, by simp [cutAt_nil]⟩
  | cons c t ih =>
    obtain ⟨w, ws, hcut, hfirst, hall⟩ := ih
    have hrest : ∀ u ∈ cutAt p t, u <:+: c :: t := by
      intro u hu
      exact (hall u hu).trans (List.suffix_cons c t).isInfix
    cases h : p c with
    | true =>
      refine ⟨[], w :: ws, by rw [cutAt_cons_of_pos h, hcut], List.nil_prefix, ?_⟩
      rw [cutAt_cons_of_pos h]
      exact List.forall_mem_cons.2 ⟨List.nil_infix, hrest⟩
    | false =>
      rw [hcut, List.forall_mem_cons] at hrest
      have hbegin : c :: w <+: c :: t := List.cons_prefix_cons.2 ⟨rfl, hfirst⟩
      rw [cutAt_cons_of_neg h, hcut, List.modifyHead_cons]
      exact ⟨c :: w, ws, rfl, hbegin, List.forall_mem_cons.2 ⟨hbegin.isInfix, hrest.2⟩⟩

theorem infix_of_mem_cutAt (h : w ∈ cutAt p t) : w <:+: t := by
  obtain ⟨_, _, -, -, hall⟩ := cutAt_eq_cons p t
  exact hall w h

/-- No character that is cut at is in a piece. -/
theorem not_of_mem_cutAt (h : w ∈ cutAt p t) : ∀ c ∈ w, p c = false := by
  induction t generalizing w with
  | nil =>
    rw [cutAt_nil, List.mem_singleton] at h
    simp [h]
  | cons c t ih =>
    cases hc : p c with
    | true =>
      rw [cutAt_cons_of_pos hc, List.mem_cons] at h
      obtain rfl | h := h
      · simp
      · exact ih h
    | false =>
      obtain ⟨u, us, hcut, -, -⟩ := cutAt_eq_cons p t
      rw [cutAt_cons_of_neg hc, hcut, List.modifyHead_cons, List.mem_cons] at h
      obtain rfl | h := h
      · exact List.forall_mem_cons.2 ⟨hc, ih (by simp [hcut])⟩
      · exact ih (by simp [hcut, h])

/-- Characters in front that are not cut at begin the first piece. -/
theorem cutAt_append (h : ∀ c ∈ w, p c = false) (t : Text) :
    cutAt p (w ++ t) = (cutAt p t).modifyHead (w ++ ·) := by
  induction w with
  | nil =>
    obtain ⟨u, us, hcut, -, -⟩ := cutAt_eq_cons p t
    rw [List.nil_append, hcut, List.modifyHead_cons, List.nil_append]
  | cons c w ih =>
    obtain ⟨hc, hw⟩ := List.forall_mem_cons.1 h
    rw [List.cons_append, cutAt_cons_of_neg hc, ih hw, List.modifyHead_modifyHead]
    rfl

/-! ## Words -/

theorem infix_of_mem_words (h : w ∈ t.words) : w <:+: t :=
  infix_of_mem_cutAt (List.mem_filter.1 h).1

theorem words_cons_of_separator (h : isSeparator c = true) : words (c :: t) = words t := by
  rw [words, cutAt_cons_of_pos h, List.filter_cons_of_neg (by simp), words]

theorem words_cons_ne_nil (h : isSeparator c = false) : words (c :: t) ≠ [] := by
  obtain ⟨w, ws, hcut, -, -⟩ := cutAt_eq_cons isSeparator t
  rw [words, cutAt_cons_of_neg h, hcut, List.modifyHead_cons, List.filter_cons_of_pos (by simp)]
  exact List.cons_ne_nil _ _

/-- A text without words has separators only. -/
theorem words_eq_nil_iff : t.words = [] ↔ ∀ c ∈ t, isSeparator c = true := by
  induction t with
  | nil => simp [words, cutAt_nil]
  | cons c t ih =>
    rw [List.forall_mem_cons]
    cases h : isSeparator c with
    | true => rw [words_cons_of_separator h, ih, eq_self_iff_true, true_and]
    | false => simp [words_cons_ne_nil h]

theorem ne_nil_of_mem_words (h : w ∈ t.words) : w ≠ [] := by
  simpa using (List.mem_filter.1 h).2

theorem not_isSeparator_of_mem_words (h : w ∈ t.words) : ∀ c ∈ w, isSeparator c = false :=
  not_of_mem_cutAt (List.mem_filter.1 h).1

/-- A word has words, since it has no separators. -/
theorem words_ne_nil_of_mem_words (h : w ∈ t.words) : w.words ≠ [] := by
  intro hnil
  obtain ⟨c, hc⟩ := List.exists_mem_of_ne_nil w (ne_nil_of_mem_words h)
  exact absurd (words_eq_nil_iff.1 hnil c hc) (by simp [not_isSeparator_of_mem_words h c hc])

/-- The words of a text and of another after a separator follow one another. -/
theorem words_append_cons (hc : isSeparator c = true) (t u : Text) :
    words (t ++ c :: u) = words t ++ words u := by
  rw [words, words, words, cutAt_eq_splitOnP, cutAt_eq_splitOnP, cutAt_eq_splitOnP,
    List.splitOnP_append_cons t u hc, List.filter_append]

/-- Characters in front that are no separators begin the first word, which goes on as it would after
any others. -/
theorem exists_forall_words_append (t : Text) :
    ∃ v ws, ∀ w : Text, w ≠ [] → (∀ c ∈ w, isSeparator c = false) → words (w ++ t) = (w ++ v) :: ws := by
  obtain ⟨v, vs, hcut, -, -⟩ := cutAt_eq_cons isSeparator t
  refine ⟨v, vs.filter (!·.isEmpty), fun w hne h => ?_⟩
  rw [words, cutAt_append h, hcut, List.modifyHead_cons, List.filter_cons_of_pos (by simp [hne])]

theorem exists_words_append (hne : w ≠ []) (h : ∀ c ∈ w, isSeparator c = false) (t : Text) :
    ∃ v ws, words (w ++ t) = (w ++ v) :: ws := by
  obtain ⟨v, ws, hwords⟩ := exists_forall_words_append t
  exact ⟨v, ws, hwords w hne h⟩

/-- A text that has no separators is one word. -/
theorem words_of_no_separator (hne : w ≠ []) (h : ∀ c ∈ w, isSeparator c = false) :
    words w = [w] := by
  have hcut := cutAt_append h []
  rw [cutAt_nil, List.modifyHead_cons, List.append_nil] at hcut
  rw [words, hcut, List.filter_cons_of_pos (by simp [hne]), List.filter_nil]

/-- A separator ends the first word. -/
theorem words_append_separator (hne : w ≠ []) (h : ∀ c ∈ w, isSeparator c = false)
    (hc : isSeparator c = true) (t : Text) : words (w ++ c :: t) = w :: words t := by
  rw [words_append_cons hc, words_of_no_separator hne h, List.singleton_append]

/-- A word ends where a separator follows, or nothing. -/
theorem words_append_of_head? (hne : w ≠ []) (h : ∀ c ∈ w, isSeparator c = false)
    (ht : ∀ c ∈ t.head?, isSeparator c = true) : words (w ++ t) = w :: words t := by
  cases t with
  | nil =>
    rw [List.append_nil, words_of_no_separator hne h]
    rfl
  | cons c t =>
    have hc : isSeparator c = true := ht c rfl
    rw [words_append_separator hne h hc, words_cons_of_separator hc]

theorem words_append_of_separators (h : ∀ c ∈ w, isSeparator c = true) (t : Text) :
    words (w ++ t) = words t := by
  induction w with
  | nil => rfl
  | cons c w ih =>
    obtain ⟨hc, hw⟩ := List.forall_mem_cons.1 h
    rw [List.cons_append, words_cons_of_separator hc, ih hw]

/-- The text is empty or ends in a separator, so that no word of it goes on after it. -/
def EndsApart (t : Text) : Prop := ∀ c ∈ t.getLast?, isSeparator c = true

theorem EndsApart.words_append (h : t.EndsApart) (u : Text) :
    words (t ++ u) = words t ++ words u := by
  obtain rfl | ⟨p, c, rfl⟩ := List.eq_nil_or_concat' t
  · rfl
  · have hc : isSeparator c = true := h c (by simp)
    have hnil : words [] = [] := rfl
    rw [List.append_assoc, List.singleton_append, words_append_cons hc, words_append_cons hc, hnil,
      List.append_nil]

/-- The first word stands after separators, and a separator follows it if anything does. -/
theorem exists_append_of_words_eq_cons {ws : List Text} (h : t.words = w :: ws) :
    ∃ pre post : Text, t = pre ++ (w ++ post) ∧ (∀ c ∈ pre, isSeparator c = true) ∧
      (∀ c ∈ post.head?, isSeparator c = true) ∧ post.words = ws := by
  induction t with
  | nil => cases h
  | cons c t ih =>
    cases hc : isSeparator c with
    | true =>
      rw [words_cons_of_separator hc] at h
      obtain ⟨pre, post, rfl, hpre, hpost⟩ := ih h
      exact ⟨c :: pre, post, rfl, List.forall_mem_cons.2 ⟨hc, hpre⟩, hpost⟩
    | false =>
      have ht := List.takeWhile_append_dropWhile (p := fun d => !isSeparator d) (l := t)
      have hw : ∀ d ∈ c :: t.takeWhile (!isSeparator ·), isSeparator d = false :=
        List.forall_mem_cons.2 ⟨hc, fun d hd => by simpa using List.mem_takeWhile_imp hd⟩
      have hrest : ∀ d ∈ (t.dropWhile (!isSeparator ·)).head?, isSeparator d = true := by
        intro d hd
        have hnot := List.head?_dropWhile_not (!isSeparator ·) t
        rw [hd] at hnot
        simpa using hnot
      rw [← ht, ← List.cons_append, words_append_of_head? (List.cons_ne_nil _ _) hw hrest] at h
      obtain ⟨rfl, rfl⟩ := List.cons.inj h
      exact ⟨[], _, by rw [List.nil_append, List.cons_append, ht], List.forall_mem_nil _, hrest, rfl⟩

/-- Every word stands between the words before it and those after it. -/
theorem exists_append_of_words_eq {vs ws : List Text} (h : t.words = vs ++ w :: ws) :
    ∃ pre post : Text, t = pre ++ (w ++ post) ∧ pre.EndsApart ∧ pre.words = vs ∧ post.words = ws := by
  induction vs generalizing t with
  | nil =>
    obtain ⟨pre, post, rfl, hpre, -, hpost⟩ := exists_append_of_words_eq_cons h
    exact ⟨pre, post, rfl, fun c hc => hpre c (List.mem_of_mem_getLast? hc),
      words_eq_nil_iff.2 hpre, hpost⟩
  | cons v vs ih =>
    obtain ⟨front, back, rfl, hfront, hback, hwords⟩ := exists_append_of_words_eq_cons h
    obtain ⟨pre, post, rfl, hpre, rfl, hpost⟩ := ih hwords
    have hv : v ∈ words (front ++ (v ++ (pre ++ (w ++ post)))) := h ▸ List.mem_cons_self
    have hw : w ∈ words (pre ++ (w ++ post)) := by rw [hwords]; simp
    -- a separator follows `v`, so it does not stand right before `w`
    obtain ⟨d, rest, rfl⟩ : ∃ d rest, pre = d :: rest := by
      refine List.exists_cons_of_ne_nil ?_
      rintro rfl
      obtain ⟨c, u, rfl⟩ := List.exists_cons_of_ne_nil (ne_nil_of_mem_words hw)
      have hc := not_isSeparator_of_mem_words hw c List.mem_cons_self
      rw [hback c rfl] at hc
      cases hc
    refine ⟨front ++ (v ++ d :: rest), post, by simp, ?_, ?_, hpost⟩
    · intro c hc
      exact hpre c (by simpa using hc)
    · rw [words_append_of_separators hfront, words_append_of_head? (ne_nil_of_mem_words hv)
        (not_isSeparator_of_mem_words hv) fun c hc => hback c (by simpa using hc)]

/-! ## Trimming -/

theorem prefix_trimEnd (t : Text) : t.trimEnd <+: t := by
  have h := List.reverse_prefix.2 (List.dropWhile_suffix isBlank (l := t.reverse))
  rwa [List.reverse_reverse] at h

theorem infix_trim (t : Text) : t.trim <:+: t :=
  (prefix_trimEnd t.trimStart).isInfix.trans (List.dropWhile_suffix isBlank).isInfix

/-- A text that is left after trimming begins with no blank. -/
theorem isBlank_of_trim_eq_cons (h : t.trim = c :: u) : isBlank c = false := by
  obtain ⟨v, hv⟩ := prefix_trimEnd t.trimStart
  have hhead : (t.dropWhile isBlank).head? = some c := by
    change trimEnd (trimStart t) = _ at h
    rw [← trimStart, ← hv, h]
    rfl
  have hnot := List.head?_dropWhile_not isBlank t
  rwa [hhead] at hnot

/-! ## Blanks at the ends -/

/-- The text has blanks only. -/
def IsBlanks (t : Text) : Prop := ∀ c ∈ t, isBlank c = true

theorem trim_append_left (h : w.IsBlanks) (t : Text) : (w ++ t).trim = t.trim := by
  rw [trim, trimStart, List.dropWhile_append_of_pos h, trim, trimStart]

theorem trimEnd_append_right (h : w.IsBlanks) (t : Text) : (t ++ w).trimEnd = t.trimEnd := by
  rw [trimEnd, List.reverse_append, List.dropWhile_append_of_pos, trimEnd]
  simpa [IsBlanks] using h

theorem trim_append_right (h : w.IsBlanks) (t : Text) : (t ++ w).trim = t.trim := by
  rw [trim, trimStart, List.dropWhile_append, trim, trimStart]
  split
  · rename_i hempty
    rw [List.isEmpty_iff.1 hempty, List.dropWhile_eq_nil_iff.2 h]
  · exact trimEnd_append_right h _

/-- A text is what trimming its end leaves of it, and blanks. -/
theorem exists_append_trimEnd (t : Text) : ∃ w : Text, w.IsBlanks ∧ t = t.trimEnd ++ w := by
  refine ⟨(t.reverse.takeWhile isBlank).reverse, ?_, ?_⟩
  · intro c hc
    exact List.mem_takeWhile_imp (List.mem_reverse.1 hc)
  · rw [trimEnd, ← List.reverse_append, List.takeWhile_append_dropWhile, List.reverse_reverse]

theorem isBlank_of_mem_getLast?_trimEnd (h : c ∈ t.trimEnd.getLast?) : isBlank c = false := by
  have hnot := List.head?_dropWhile_not isBlank t.reverse
  rw [trimEnd, List.getLast?_reverse, Option.mem_def] at h
  rwa [h] at hnot

/-- Wherever the text before the last blanks is cut, more than blanks is behind the cut. -/
theorem not_isBlanks_of_trimEnd_eq (h : t.trimEnd = u ++ c :: w) : ¬ IsBlanks (c :: w) := by
  intro hblanks
  have hlast : t.trimEnd.getLast? = some ((c :: w).getLast (List.cons_ne_nil c w)) := by
    rw [h, List.getLast?_append_of_ne_nil _ (List.cons_ne_nil c w), List.getLast?_eq_getLast_of_ne_nil]
  have hblank := isBlank_of_mem_getLast?_trimEnd hlast
  rw [hblanks _ (List.getLast_mem _)] at hblank
  cases hblank

theorem trimEnd_of_getLast? (h : ∀ c ∈ t.getLast?, isBlank c = false) : t.trimEnd = t := by
  obtain ⟨w, hw, ht⟩ := exists_append_trimEnd t
  obtain rfl | ⟨v, c, rfl⟩ := List.eq_nil_or_concat' w
  · rw [List.append_nil] at ht
    exact ht.symm
  · have hlast : t.getLast? = some c := by
      rw [ht, ← List.append_assoc, List.getLast?_concat]
    exact absurd (hw c (by simp)) (by simp [h c hlast])

theorem trimEnd_of_no_blank (h : ∀ c ∈ t, isBlank c = false) : t.trimEnd = t :=
  trimEnd_of_getLast? fun c hc => h c (List.mem_of_getLast? hc)

/-- A text is what trimming leaves of it, between blanks. -/
theorem exists_append_trim (t : Text) :
    ∃ w v : Text, w.IsBlanks ∧ v.IsBlanks ∧ t = w ++ (t.trim ++ v) := by
  obtain ⟨v, hv, hend⟩ := exists_append_trimEnd t.trimStart
  refine ⟨t.takeWhile isBlank, v, fun c hc => List.mem_takeWhile_imp hc, hv, ?_⟩
  rw [trim, ← hend, trimStart, List.takeWhile_append_dropWhile]

/-! ## Trimming without dropping -/

/-- The text is `u` between blanks, and `u` has no blank at its own ends. -/
structure TrimsTo (t u : Text) : Prop where
  between : ∃ w v : Text, w.IsBlanks ∧ v.IsBlanks ∧ t = w ++ (u ++ v)
  head : ∀ c ∈ u.head?, isBlank c = false
  last : ∀ c ∈ u.getLast?, isBlank c = false

theorem trimsTo_trim (t : Text) : t.TrimsTo t.trim where
  between := exists_append_trim t
  head c hc := by
    obtain ⟨u, hu⟩ := List.head?_eq_some_iff.1 hc
    exact isBlank_of_trim_eq_cons hu
  last _ hc := isBlank_of_mem_getLast?_trimEnd hc

/-- A text without blanks at its ends is left as it is. -/
theorem trim_of_ends (hhead : ∀ c ∈ t.head?, isBlank c = false)
    (hlast : ∀ c ∈ t.getLast?, isBlank c = false) : t.trim = t := by
  have hstart : t.trimStart = t := by
    cases t with
    | nil => rfl
    | cons c u => exact List.dropWhile_cons_of_neg (by simp [hhead c rfl])
  rw [trim, hstart, trimEnd_of_getLast? hlast]

/-- There is one text that is left when the blanks at both ends are gone. -/
theorem trim_eq_iff : t.trim = u ↔ t.TrimsTo u := by
  constructor
  · rintro rfl
    exact trimsTo_trim t
  · rintro ⟨⟨w, v, hw, hv, rfl⟩, hhead, hlast⟩
    rw [trim_append_left hw, trim_append_right hv, trim_of_ends hhead hlast]

/-- What is left after trimming has no blanks at its ends. -/
theorem trim_trim (t : Text) : t.trim.trim = t.trim :=
  trim_of_ends (trimsTo_trim t).head (trimsTo_trim t).last

theorem trim_of_no_blank (h : ∀ c ∈ t, isBlank c = false) : t.trim = t :=
  trim_of_ends (fun c hc => h c (List.mem_of_head? hc)) fun c hc => h c (List.mem_of_getLast? hc)

end Text
end Asm16
