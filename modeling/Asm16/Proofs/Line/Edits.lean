-- SUMMARY: Edits of a source text that say nothing: the lines they leave are the same, under other numbers.
import Asm16.Proofs.Line.Source
import Mathlib.Data.List.Induction

/-!
# Edits that say nothing

A source text may get lines without text, comments, blanks around its lines, and carriage returns
before its line feeds. None of these adds to what it says. On the pieces between line feeds such an
edit inserts one that has no text, or changes one that has the same text when it is cleaned. So the
same lines are left, and an edit comes to a function on their numbers.
-/

namespace Asm16
namespace Line

/-! ## Edits -/

/-- A line starts after the text. -/
def AtLineStart (pre : Text) : Prop := pre = [] ∨ ∃ p, pre = p ++ ['\n']

/-- A line ends before the text. -/
def AtLineEnd (post : Text) : Prop := post = [] ∨ ∃ q, post = '\n' :: q ∨ post = '\r' :: '\n' :: q

/-- The line is blank or a comment. -/
def IsBlankLine (t : Text) : Prop :=
  '\n' ∉ t ∧ ∃ w u : Text, t = w ++ u ∧ w.IsBlanks ∧ (u = [] ∨ ∃ v, u = ';' :: v)

/-- The number of a line when one is inserted after the first `k` lines. -/
def skip (k n : Nat) : Nat := if n ≤ k then n else n + 1

/-- The second line is the first one with a comment, or with blanks around it. -/
inductive Dressed : Text → Text → Prop where
  | comment {raw t} : '\n' ∉ t → Dressed raw (raw ++ ';' :: t)
  | indent {raw w} : Text.IsBlanks w → '\n' ∉ w → Dressed raw (w ++ raw)
  | trail {raw w} : Text.IsBlanks w → '\n' ∉ w → Dressed raw (raw ++ w)

/-- An edit of a source text, with the number that it gives to each line. -/
inductive Edit : Text → Text → (Nat → Nat) → Prop where
  /-- A line is inserted before a line, or at the end after a line feed. -/
  | insert {pre blank rest} : AtLineStart pre → IsBlankLine blank →
      Edit (pre ++ rest) (pre ++ (blank ++ '\n' :: rest)) (skip (pre.count '\n'))
  /-- A line is inserted after the last one. -/
  | append {source blank} : IsBlankLine blank →
      Edit source (source ++ '\n' :: blank) (skip (source.count '\n' + 1))
  | dress {pre raw raw' post} : AtLineStart pre → '\n' ∉ raw → AtLineEnd post → Dressed raw raw' →
      Edit (pre ++ (raw ++ post)) (pre ++ (raw' ++ post)) id
  | carriageReturn {pre post} : Edit (pre ++ '\n' :: post) (pre ++ '\r' :: '\n' :: post) id

/-- Edits one after the other. -/
inductive Edits : Text → Text → (Nat → Nat) → Prop where
  | refl {source} : Edits source source id
  | step {source edited last σ τ} : Edits source edited σ → Edit edited last τ →
      Edits source last (τ ∘ σ)

/-- The line under another number. -/
def renumber (σ : Nat → Nat) (l : Line) : Line := { l with number := σ l.number }

/-- What an edit does to the pieces between line feeds: one that cleans to nothing is inserted, or one
is changed that is cleaned as before. -/
inductive PiecesEdited : List Text → List Text → (Nat → Nat) → Prop where
  | insert {as bs blank} : clean blank = [] →
      PiecesEdited (as ++ bs) (as ++ blank :: bs) (skip as.length)
  | change {as bs raw raw'} : clean raw' = clean raw →
      PiecesEdited (as ++ raw :: bs) (as ++ raw' :: bs) id

variable {source edited raw t u w pre post : Text} {as bs ps qs : List Text} {σ τ : Nat → Nat}
  {n m k : Nat}

/-! ## Cleaning -/

theorem not_mem_of_isBlanks (h : w.IsBlanks) : ';' ∉ w :=
  fun hmem => absurd (h ';' hmem) (by decide)

/-- Blanks need not be dropped before the comment is. -/
theorem clean_eq (t : Text) : clean t = (t.before ';').trim := by
  obtain ⟨w, v, hw, hv, ht⟩ := Text.exists_append_trim t
  rw [clean]
  generalize t.trim = u at ht ⊢
  rw [ht, Text.before_append_of_not_mem (not_mem_of_isBlanks hw), Text.trim_append_left hw]
  by_cases hmem : ';' ∈ u
  · rw [Text.before_append_of_mem hmem]
  · rw [Text.before_append_of_not_mem hmem, Text.before_of_not_mem (not_mem_of_isBlanks hv),
      Text.trim_append_right hv, Text.before_of_not_mem hmem]

theorem clean_of_not_mem (h : ';' ∉ t) : clean t = t.trim := by
  rw [clean_eq, Text.before_of_not_mem h]

theorem not_mem_clean (t : Text) : ';' ∉ clean t := by
  rw [clean_eq]
  exact fun hmem => Text.not_mem_before ';' t ((Text.infix_trim _).subset hmem)

theorem clean_append_comment (raw t : Text) : clean (raw ++ ';' :: t) = clean raw := by
  rw [clean_eq, clean_eq]
  by_cases hmem : ';' ∈ raw
  · rw [Text.before_append_of_mem hmem]
  · rw [Text.before_append_cons hmem, Text.before_of_not_mem hmem]

theorem clean_append_left (h : w.IsBlanks) (t : Text) : clean (w ++ t) = clean t := by
  rw [clean_eq, clean_eq, Text.before_append_of_not_mem (not_mem_of_isBlanks h),
    Text.trim_append_left h]

theorem clean_append_right (h : w.IsBlanks) (t : Text) : clean (t ++ w) = clean t := by
  rw [clean_eq, clean_eq]
  by_cases hmem : ';' ∈ t
  · rw [Text.before_append_of_mem hmem]
  · rw [Text.before_append_of_not_mem hmem, Text.before_of_not_mem (not_mem_of_isBlanks h),
      Text.before_of_not_mem hmem, Text.trim_append_right h]

theorem IsBlankLine.clean (h : IsBlankLine t) : clean t = [] := by
  obtain ⟨-, w, u, rfl, hw, rfl | ⟨v, rfl⟩⟩ := h
  · rw [clean_append_left hw]
    rfl
  · rw [clean_append_left hw]
    exact clean_append_comment [] v

/-- A line is cleaned as before, whatever blanks end it. -/
theorem Dressed.clean (h : Dressed raw t) (hw : w.IsBlanks) :
    clean (t ++ w) = clean (raw ++ w) := by
  rw [clean_append_right hw, clean_append_right hw]
  cases h with
  | comment => exact clean_append_comment _ _
  | indent hv => exact clean_append_left hv _
  | trail hv => exact clean_append_right hv _

theorem Dressed.not_mem (h : Dressed raw t) (hraw : '\n' ∉ raw) : '\n' ∉ t := by
  cases h <;> simp_all

/-! ## Edits of pieces -/

theorem AtLineStart.cutAt (h : AtLineStart pre) :
    ∃ as : List Text, as.length = pre.count '\n' ∧
      ∀ t, (pre ++ t).cutAt (· == '\n') = as ++ t.cutAt (· == '\n') := by
  obtain rfl | ⟨p, rfl⟩ := h
  · exact ⟨[], rfl, fun _ => rfl⟩
  · refine ⟨p.cutAt (· == '\n'), ?_, fun t => ?_⟩
    · rw [length_cutAt_lineFeed, List.count_append]
      rfl
    · rw [List.append_assoc, List.singleton_append, cutAt_append_lineFeed]

theorem AtLineEnd.cutAt (h : AtLineEnd post) :
    ∃ (w : Text) (bs : List Text), w.IsBlanks ∧
      ∀ raw : Text, '\n' ∉ raw → (raw ++ post).cutAt (· == '\n') = (raw ++ w) :: bs := by
  obtain rfl | ⟨q, rfl | rfl⟩ := h
  · refine ⟨[], [], by simp [Text.IsBlanks], fun raw hraw => ?_⟩
    rw [List.append_nil, cutAt_of_not_mem hraw]
  · refine ⟨[], Text.cutAt (· == '\n') q, by simp [Text.IsBlanks], fun raw hraw => ?_⟩
    rw [cutAt_append_lineFeed, cutAt_of_not_mem hraw, List.append_nil]
    rfl
  · refine ⟨['\r'], Text.cutAt (· == '\n') q, by simp [Text.IsBlanks]; decide, fun raw hraw => ?_⟩
    have hline : '\n' ∉ raw ++ ['\r'] := by simp [hraw]
    rw [List.append_cons, cutAt_append_lineFeed, cutAt_of_not_mem hline]
    rfl

/-- A text has a last line. -/
theorem exists_lastLine (t : Text) :
    ∃ pre raw : Text, t = pre ++ raw ∧ AtLineStart pre ∧ '\n' ∉ raw := by
  induction t using List.reverseRecOn with
  | nil => exact ⟨[], [], rfl, .inl rfl, by simp⟩
  | append_singleton t c ih =>
    by_cases hc : c = '\n'
    · exact ⟨t ++ [c], [], by simp, .inr ⟨t, by rw [hc]⟩, by simp⟩
    · obtain ⟨pre, raw, rfl, hpre, hraw⟩ := ih
      exact ⟨pre, raw ++ [c], by simp, hpre, by simp [hraw, Ne.symm hc]⟩

theorem piecesEdited_of_dressed (hpre : AtLineStart pre) (hraw : '\n' ∉ raw)
    (hpost : AtLineEnd post) (h : Dressed raw t) :
    PiecesEdited ((pre ++ (raw ++ post)).cutAt (· == '\n'))
      ((pre ++ (t ++ post)).cutAt (· == '\n')) id := by
  obtain ⟨as, -, has⟩ := hpre.cutAt
  obtain ⟨w, bs, hw, hbs⟩ := hpost.cutAt
  rw [has, has, hbs raw hraw, hbs t (h.not_mem hraw)]
  exact .change (h.clean hw)

theorem Edit.pieces (h : Edit source edited σ) :
    PiecesEdited (source.cutAt (· == '\n')) (edited.cutAt (· == '\n')) σ := by
  cases h with
  | insert hpre hblank =>
    obtain ⟨as, hlength, has⟩ := hpre.cutAt
    rw [has, has, cutAt_append_lineFeed, cutAt_of_not_mem hblank.1, ← hlength]
    exact .insert hblank.clean
  | append hblank =>
    have hinsert : PiecesEdited (source.cutAt (· == '\n') ++ []) (source.cutAt (· == '\n') ++ [_])
        (skip (source.cutAt (· == '\n')).length) := .insert hblank.clean
    rwa [List.append_nil, length_cutAt_lineFeed, ← cutAt_of_not_mem hblank.1,
      ← cutAt_append_lineFeed] at hinsert
  | dress hpre hraw hpost h => exact piecesEdited_of_dressed hpre hraw hpost h
  | @carriageReturn pre post =>
    -- the carriage return is a blank at the end of the line before the line feed
    obtain ⟨pre, raw, rfl, hpre, hraw⟩ := exists_lastLine pre
    have htrail : Dressed raw (raw ++ ['\r']) := .trail (by simp [Text.IsBlanks]; decide) (by simp)
    have hedited := piecesEdited_of_dressed hpre hraw (.inr ⟨post, .inl rfl⟩) htrail
    simpa using hedited

/-! ## Lines of an edited text -/

theorem isPhysical_iff_getElem? :
    IsPhysical source n raw ↔ ∃ k, n = k + 1 ∧ (source.cutAt (· == '\n'))[k]? = some raw := by
  rw [isPhysical_iff]
  constructor
  · rintro ⟨as, bs, h, rfl⟩
    exact ⟨as.length, rfl, by simp [h]⟩
  · rintro ⟨k, rfl, h⟩
    obtain ⟨hk, rfl⟩ := List.getElem?_eq_some_iff.1 h
    refine ⟨(source.cutAt (· == '\n')).take k, (source.cutAt (· == '\n')).drop (k + 1), ?_, ?_⟩
    · rw [← List.drop_eq_getElem_cons hk, List.take_append_drop]
    · rw [List.length_take, Nat.min_eq_left (Nat.le_of_lt hk)]

/-- Each piece is found again under the number it is given. -/
theorem PiecesEdited.getElem? (h : PiecesEdited ps qs σ) (hk : ps[k]? = some raw) :
    ∃ j t, σ (k + 1) = j + 1 ∧ qs[j]? = some t ∧ clean t = clean raw := by
  cases h with
  | @insert as bs blank hblank =>
    by_cases hlt : k < as.length
    · rw [List.getElem?_append_left hlt] at hk
      refine ⟨k, raw, ?_, ?_, rfl⟩
      · rw [skip, if_pos (Nat.succ_le_of_lt hlt)]
      · rw [List.getElem?_append_left hlt, hk]
    · rw [List.getElem?_append_right (Nat.le_of_not_lt hlt)] at hk
      refine ⟨k + 1, raw, ?_, ?_, rfl⟩
      · rw [skip, if_neg (by omega)]
      · rw [List.getElem?_append_right (by omega), Nat.sub_add_comm (by omega),
          List.getElem?_cons_succ, hk]
  | @change as bs old new hclean =>
    refine ⟨k, ?_⟩
    obtain hlt | rfl | hgt := Nat.lt_trichotomy k as.length
    · rw [List.getElem?_append_left hlt] at hk
      exact ⟨raw, rfl, by rw [List.getElem?_append_left hlt, hk], rfl⟩
    · rw [List.getElem?_append_right (Nat.le_refl _), Nat.sub_self, List.getElem?_cons_zero] at hk
      obtain rfl := Option.some.inj hk
      refine ⟨new, rfl, ?_, hclean⟩
      rw [List.getElem?_append_right (Nat.le_refl _), Nat.sub_self, List.getElem?_cons_zero]
    · obtain ⟨i, hi⟩ := Nat.exists_eq_add_of_lt hgt
      have hrest : k - as.length = i + 1 := by omega
      rw [List.getElem?_append_right (by omega), hrest, List.getElem?_cons_succ] at hk
      refine ⟨raw, rfl, ?_, rfl⟩
      rw [List.getElem?_append_right (by omega), hrest, List.getElem?_cons_succ, hk]

/-- A physical line is found again under the number it is given, and is cleaned as before. -/
theorem Edits.isPhysical (h : Edits source edited σ) (hraw : IsPhysical source n raw) :
    ∃ t, IsPhysical edited (σ n) t ∧ clean t = clean raw := by
  induction h with
  | refl => exact ⟨raw, hraw, rfl⟩
  | step _ hedit ih =>
    obtain ⟨t, ht, hclean⟩ := ih
    obtain ⟨k, hk, hget⟩ := isPhysical_iff_getElem?.1 ht
    obtain ⟨j, u, hj, hu, hclean'⟩ := hedit.pieces.getElem? hget
    rw [← hk] at hj
    exact ⟨u, isPhysical_iff_getElem?.2 ⟨j, hj, hu⟩, hclean'.trans hclean⟩

theorem numbered_append (n : Nat) (as bs : List Text) :
    numbered n (as ++ bs) = numbered n as ++ numbered (n + as.length) bs := by
  induction as generalizing n with
  | nil => rfl
  | cons t as ih =>
    rw [List.cons_append, numbered_cons, numbered_cons, ih, List.cons_append, List.length_cons,
      Nat.add_right_comm, Nat.add_assoc]

theorem numbered_map_renumber (h : ∀ i < as.length, σ (n + i) = m + i) :
    (numbered n as).map (renumber σ) = numbered m as := by
  induction as generalizing n m with
  | nil => rfl
  | cons t as ih =>
    have hfirst : σ n = m := h 0 (by simp)
    have hrest : ∀ i < as.length, σ (n + 1 + i) = m + 1 + i := by
      intro i hi
      rw [Nat.add_assoc, Nat.add_comm 1, h (i + 1) (by simpa using hi), Nat.add_right_comm,
        Nat.add_assoc]
    rw [numbered_cons, numbered_cons, List.map_cons, ih hrest, renumber, hfirst]

theorem PiecesEdited.filter_numbered (h : PiecesEdited ps qs σ) :
    (numbered 1 (qs.map clean)).filter (!·.text.isEmpty) =
      ((numbered 1 (ps.map clean)).filter (!·.text.isEmpty)).map (renumber σ) := by
  have hfilter : ∀ lines : List Line, (lines.filter (!·.text.isEmpty)).map (renumber σ) =
      (lines.map (renumber σ)).filter (!·.text.isEmpty) := by
    intro lines
    rw [List.filter_map]
    rfl
  rw [hfilter]
  cases h with
  | @insert as bs blank hblank =>
    -- the lines before the new one keep their numbers, the lines after it move on by one
    have hbefore : (numbered 1 (as.map clean)).map (renumber (skip as.length)) =
        numbered 1 (as.map clean) := by
      refine numbered_map_renumber fun i hi => ?_
      rw [List.length_map] at hi
      rw [skip, if_pos (by omega)]
    have hafter : (numbered (1 + as.length) (bs.map clean)).map (renumber (skip as.length)) =
        numbered (1 + as.length + 1) (bs.map clean) := by
      refine numbered_map_renumber fun i hi => ?_
      rw [skip, if_neg (by omega)]
      omega
    rw [List.map_append, List.map_append, List.map_cons, hblank, numbered_append, numbered_append,
      numbered_cons, List.map_append, List.length_map, hbefore, hafter, List.filter_append,
      List.filter_append, List.filter_cons_of_neg (by simp)]
  | change hclean =>
    rw [List.map_append, List.map_append, List.map_cons, List.map_cons, hclean,
      numbered_map_renumber fun i _ => rfl]

/-- The lines of an edited text are those of the text, under the numbers they are given. -/
theorem Edits.ofSource (h : Edits source edited σ) :
    ofSource edited = (ofSource source).map (renumber σ) := by
  induction h with
  | refl => exact (List.map_id _).symm
  | step _ hedit ih =>
    rw [Line.ofSource, hedit.pieces.filter_numbered, ← Line.ofSource, ih, List.map_map]
    rfl

end Line
end Asm16
