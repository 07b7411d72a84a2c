-- SUMMARY: The lines of a source text are its physical lines, cleaned, in order and under their own numbers.
import Asm16.Proofs.Line.Label

/-!
# Lines of a source text

A physical line stands between two line feeds, or an end of the source text, and is numbered by the
line feeds before it. `Line.ofSource` finds just those, cleans them and drops the ones without text.
What is left of a line begins with no blank and has no line feed in it, also where a label was split
off: a listing relies on both.
-/

namespace Asm16
namespace Line

variable {source raw t u : Text} {c : Char} {n : Nat} {l : Line}

/-- The text between line feeds, or the ends of the source text, with one line feed fewer before it
than its number says. -/
def IsPhysical (source : Text) (n : Nat) (raw : Text) : Prop :=
  ∃ pre post, source = pre ++ raw ++ post ∧ '\n' ∉ raw ∧
    (pre = [] ∨ ∃ p, pre = p ++ ['\n']) ∧ (post = [] ∨ ∃ q, post = '\n' :: q) ∧
    n = pre.count '\n' + 1

/-! ## Physical lines are the pieces between line feeds -/

theorem cutAt_append_lineFeed (t u : Text) :
    (t ++ '\n' :: u).cutAt (· == '\n') = t.cutAt (· == '\n') ++ u.cutAt (· == '\n') := by
  simp only [Text.cutAt_eq_splitOnP]
  exact List.splitOnP_append_cons t u rfl

theorem cutAt_of_not_mem (h : '\n' ∉ t) : t.cutAt (· == '\n') = [t] := by
  rw [Text.cutAt_eq_splitOnP]
  exact List.splitOn_eq_singleton h

theorem length_cutAt_lineFeed (t : Text) : (t.cutAt (· == '\n')).length = t.count '\n' + 1 := by
  induction t with
  | nil => rfl
  | cons c t ih =>
    rw [List.count_cons]
    cases h : c == '\n' with
    | true => rw [Text.cutAt_cons_of_pos (p := (· == '\n')) h, List.length_cons, ih, if_pos rfl]
    | false =>
      rw [Text.cutAt_cons_of_neg (p := (· == '\n')) h, List.length_modifyHead, ih,
        if_neg Bool.false_ne_true, Nat.add_zero]

/-- The first piece is the text, or ends at its first line feed. -/
theorem eq_of_cutAt_eq_cons {ws : List Text} (h : source.cutAt (· == '\n') = raw :: ws) :
    '\n' ∉ raw ∧ ((ws = [] ∧ source = raw) ∨
      ∃ rest : Text, source = raw ++ '\n' :: rest ∧ rest.cutAt (· == '\n') = ws) := by
  by_cases hmem : '\n' ∈ source
  · have hbefore := Text.not_mem_before '\n' source
    have hsource := Text.before_append_after hmem
    rw [← hsource, cutAt_append_lineFeed, cutAt_of_not_mem hbefore, List.singleton_append] at h
    obtain ⟨rfl, rfl⟩ := List.cons.inj h
    exact ⟨hbefore, .inr ⟨_, hsource.symm, rfl⟩⟩
  · rw [cutAt_of_not_mem hmem] at h
    obtain ⟨rfl, rfl⟩ := List.cons.inj h
    exact ⟨hmem, .inl ⟨rfl, rfl⟩⟩

theorem isPhysical_of_cutAt_eq {as bs : List Text}
    (h : source.cutAt (· == '\n') = as ++ raw :: bs) : IsPhysical source (as.length + 1) raw := by
  induction as generalizing source with
  | nil =>
    obtain ⟨hraw, ⟨-, rfl⟩ | ⟨rest, rfl, -⟩⟩ := eq_of_cutAt_eq_cons h
    · exact ⟨[], [], by simp, hraw, .inl rfl, .inl rfl, rfl⟩
    · exact ⟨[], '\n' :: rest, by simp, hraw, .inl rfl, .inr ⟨rest, rfl⟩, rfl⟩
  | cons a as ih =>
    obtain ⟨ha, ⟨hnil, -⟩ | ⟨rest, rfl, hrest⟩⟩ := eq_of_cutAt_eq_cons h
    · exact absurd hnil (List.append_ne_nil_of_right_ne_nil as (List.cons_ne_nil raw bs))
    · obtain ⟨pre, post, rfl, hraw, hpre, hpost, hcount⟩ := ih hrest
      refine ⟨a ++ '\n' :: pre, post, by simp, hraw, .inr ?_, hpost, ?_⟩
      · obtain rfl | ⟨p, rfl⟩ := hpre
        · exact ⟨a, rfl⟩
        · exact ⟨a ++ '\n' :: p, by simp⟩
      · rw [List.count_append, List.count_eq_zero.2 ha, List.count_cons_self, List.length_cons,
          hcount, Nat.zero_add]

theorem isPhysical_iff :
    IsPhysical source n raw ↔
      ∃ as bs, source.cutAt (· == '\n') = as ++ raw :: bs ∧ n = as.length + 1 := by
  constructor
  · rintro ⟨pre, post, rfl, hraw, hpre, hpost, rfl⟩
    have hfirst : ∃ bs, (raw ++ post).cutAt (· == '\n') = raw :: bs := by
      obtain rfl | ⟨q, rfl⟩ := hpost
      · exact ⟨[], by rw [List.append_nil, cutAt_of_not_mem hraw]⟩
      · exact ⟨_, by rw [cutAt_append_lineFeed, cutAt_of_not_mem hraw, List.singleton_append]⟩
    obtain ⟨bs, hbs⟩ := hfirst
    obtain rfl | ⟨p, rfl⟩ := hpre
    · exact ⟨[], bs, hbs, rfl⟩
    · refine ⟨p.cutAt (· == '\n'), bs, ?_, ?_⟩
      · rw [← hbs, ← cutAt_append_lineFeed]
        simp
      · rw [length_cutAt_lineFeed, List.count_append]
        rfl
  · rintro ⟨as, bs, h, rfl⟩
    exact isPhysical_of_cutAt_eq h

/-! ## Numbering -/

theorem numbered_cons (n : Nat) (t : Text) (texts : List Text) :
    numbered n (t :: texts) = ⟨n, t⟩ :: numbered (n + 1) texts := rfl

theorem map_text_numbered (n : Nat) (texts : List Text) : (numbered n texts).map text = texts := by
  rw [numbered, List.map_map]
  exact List.zipIdx_map_fst n texts

theorem mem_numbered_iff {texts : List Text} :
    l ∈ numbered n texts ↔ ∃ as bs, texts = as ++ l.text :: bs ∧ l.number = n + as.length := by
  induction texts generalizing n with
  | nil => simp [numbered]
  | cons t texts ih =>
    rw [numbered_cons, List.mem_cons, ih]
    constructor
    · rintro (rfl | ⟨as, bs, rfl, hn⟩)
      · exact ⟨[], texts, rfl, rfl⟩
      · exact ⟨t :: as, bs, rfl, by rw [hn, List.length_cons]; omega⟩
    · rintro ⟨as, bs, h, hn⟩
      cases as with
      | nil =>
        obtain ⟨rfl, rfl⟩ := List.cons.inj h
        exact .inl (by rw [show n = l.number from hn.symm])
      | cons a as =>
        obtain ⟨rfl, rfl⟩ := List.cons.inj h
        exact .inr ⟨as, bs, rfl, by rw [hn, List.length_cons]; omega⟩

theorem pairwise_numbered (n : Nat) (texts : List Text) :
    (numbered n texts).Pairwise (·.number < ·.number) := by
  induction texts generalizing n with
  | nil => exact List.Pairwise.nil
  | cons t texts ih =>
    rw [numbered_cons]
    refine List.Pairwise.cons ?_ (ih (n + 1))
    intro l hl
    obtain ⟨as, _, -, hn⟩ := mem_numbered_iff.1 hl
    rw [hn]
    dsimp only
    omega

/-- The lines of a source text stand in order. -/
theorem pairwise_ofSource (source : Text) : (ofSource source).Pairwise (·.number < ·.number) :=
  (pairwise_numbered 1 _).filter _

/-- The lines of a source text are its physical lines that have text when they are cleaned. -/
theorem mem_ofSource_iff :
    l ∈ ofSource source ↔
      ∃ raw, IsPhysical source l.number raw ∧ l.text = clean raw ∧ l.text ≠ [] := by
  have htext : (!l.text.isEmpty) = true ↔ l.text ≠ [] := by simp
  rw [ofSource, List.mem_filter, mem_numbered_iff, htext]
  constructor
  · rintro ⟨⟨as, bs, h, hn⟩, hne⟩
    obtain ⟨as, ws, hcut, rfl, hws⟩ := List.map_eq_append_iff.1 h
    obtain ⟨raw, bs, rfl, hclean, rfl⟩ := List.map_eq_cons_iff.1 hws
    refine ⟨raw, isPhysical_iff.2 ⟨as, bs, hcut, ?_⟩, hclean.symm, hne⟩
    rw [hn, List.length_map, Nat.add_comm]
  · rintro ⟨raw, hraw, hclean, hne⟩
    obtain ⟨as, bs, hcut, hn⟩ := isPhysical_iff.1 hraw
    refine ⟨⟨as.map clean, bs.map clean, ?_, ?_⟩, hne⟩
    · rw [hcut, List.map_append, List.map_cons, hclean]
    · rw [hn, List.length_map, Nat.add_comm]

/-- The texts of the lines are the physical lines, cleaned, that have any text. -/
theorem map_text_ofSource (source : Text) :
    (ofSource source).map text =
      ((source.cutAt (· == '\n')).map clean).filter (!·.isEmpty) := by
  rw [← map_text_numbered 1 ((source.cutAt (· == '\n')).map clean), List.filter_map]
  rfl

/-! ## What cleaned text looks like -/

/-- The text begins with no blank and has no line feed in it. -/
structure Tidy (t : Text) : Prop where
  start : ∀ c u, t = c :: u → Text.isBlank c = false
  line : '\n' ∉ t

theorem tidy_trim (h : '\n' ∉ t) : Tidy t.trim :=
  ⟨fun _ _ => Text.isBlank_of_trim_eq_cons, fun hmem => h ((Text.infix_trim t).subset hmem)⟩

theorem tidy_clean (h : '\n' ∉ raw) : Tidy (clean raw) :=
  tidy_trim fun hmem => h ((Text.infix_trim raw).subset (List.takeWhile_subset _ hmem))

theorem tidy_of_mem_ofSource (h : l ∈ ofSource source) : Tidy l.text := by
  obtain ⟨raw, hraw, htext, -⟩ := mem_ofSource_iff.1 h
  obtain ⟨_, _, -, hline, -⟩ := hraw
  rw [htext]
  exact tidy_clean hline

/-- Splitting a label off leaves the text of a line tidy. -/
theorem Tidy.code (h : Tidy l.text) : Tidy l.code := by
  rw [Line.code]
  cases hsplit : splitLabel l.text with
  | none => exact h
  | some p =>
    dsimp only
    rw [← trim_of_splitLabel hsplit]
    exact tidy_trim fun hmem => h.line ((subset_of_splitLabel hsplit).2 hmem)

end Line
end Asm16
