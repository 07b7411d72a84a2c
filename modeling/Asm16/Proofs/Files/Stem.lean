-- SUMMARY: Where a listing goes by default: a name is cut at its last dot, and what is left of it at its last dot again.
import Asm16.Files.Path
import Asm16.Proofs.Text.Cut
import Asm16.Proofs.Text.Pieces

/-!
# Stems

A name is cut at its last dot, unless that is its first character. The default path of a listing cuts
twice: the source's name down to its stem, and the stem when it is given the extension of listings. The
second cut takes nothing from a stem that has no dot after its first character. From any other it takes a
part of the source's name, and nothing may be left that is a file name: the listing of `..x.asm` goes to `..`.
-/

namespace Asm16
namespace Path

variable {front ext n s p source : Text}

/-- The text can be one step of a path. -/
structure IsStep (n : Text) : Prop where
  ne_nil : n ≠ []
  slash : '/' ∉ n

/-- The path is a step that leads to the same directory or to the one above. -/
def IsDots (n : Text) : Prop := n = ['.'] ∨ n = ['.', '.']

instance : Decidable (IsDots n) := inferInstanceAs (Decidable (_ ∨ _))

/-! ## Cutting at the last dot -/

theorem dropWhile_reverse (hext : '.' ∉ ext) :
    (front ++ '.' :: ext).reverse.dropWhile (· != '.') = '.' :: front.reverse := by
  have hdrop : ∀ c ∈ ext.reverse, (c != '.') = true :=
    Text.bne_of_not_mem (by rwa [List.mem_reverse])
  rw [List.reverse_append, List.reverse_cons, List.append_assoc, List.dropWhile_append_of_pos hdrop]
  rfl

/-- A name has no dot after its first character, or it is cut at its last dot. -/
theorem exists_last_dot (n : Text) :
    '.' ∉ n.tail ∨ ∃ front ext, n = front ++ '.' :: ext ∧ front ≠ [] ∧ '.' ∉ ext := by
  cases n with
  | nil => simp
  | cons c rest =>
    refine or_iff_not_imp_left.2 fun h => ?_
    let back : Text := rest.reverse
    have hdot : '.' ∈ back := List.mem_reverse.2 (not_not.1 h)
    have hrest : (back.after '.').reverse ++ '.' :: (back.before '.').reverse = rest := by
      have hback := congrArg List.reverse (Text.before_append_after hdot)
      simpa [back] using hback
    refine ⟨c :: (back.after '.').reverse, (back.before '.').reverse, ?_, List.cons_ne_nil _ _, ?_⟩
    · rw [List.cons_append, hrest]
    · rw [List.mem_reverse]
      exact Text.not_mem_before '.' back

theorem stem_append (hfront : front ≠ []) (hext : '.' ∉ ext) : stem (front ++ '.' :: ext) = front := by
  obtain ⟨c, u, hu⟩ := List.exists_cons_of_ne_nil (mt List.reverse_eq_nil_iff.1 hfront)
  rw [stem, dropWhile_reverse hext, hu]
  exact (congrArg List.reverse hu).symm.trans (List.reverse_reverse front)

theorem trunk_append (hfront : front ≠ []) (hext : '.' ∉ ext) :
    trunk (front ++ '.' :: ext) = front ++ ['.'] := by
  obtain ⟨c, u, hu⟩ := List.exists_cons_of_ne_nil (mt List.reverse_eq_nil_iff.1 hfront)
  rw [trunk, dropWhile_reverse hext, hu]
  dsimp only
  rw [← hu, List.reverse_cons, List.reverse_reverse]

/-- Only the first character of the name can be a dot. -/
theorem dropWhile_reverse_of_not_mem_tail (h : '.' ∉ n.tail) :
    ∃ u, n.reverse.dropWhile (· != '.') = u ∧ u.length ≤ 1 := by
  refine ⟨_, rfl, ?_⟩
  cases n with
  | nil => simp
  | cons c rest =>
    have hdrop : ∀ d ∈ rest.reverse, (d != '.') = true :=
      Text.bne_of_not_mem (by rwa [List.mem_reverse])
    rw [List.reverse_cons, List.dropWhile_append_of_pos hdrop]
    exact (List.dropWhile_suffix _).length_le

theorem stem_of_not_mem_tail (h : '.' ∉ n.tail) : stem n = n := by
  obtain ⟨u, hu, hlength⟩ := dropWhile_reverse_of_not_mem_tail h
  rw [stem, hu]
  match u, hlength with
  | [], _ | [_], _ => rfl

theorem trunk_of_not_mem_tail (h : '.' ∉ n.tail) : trunk n = n := by
  obtain ⟨u, hu, hlength⟩ := dropWhile_reverse_of_not_mem_tail h
  rw [trunk, hu]
  match u, hlength with
  | [], _ | [_], _ => rfl

theorem stem_isPrefix (n : Text) : stem n <+: n := by
  obtain h | ⟨front, ext, rfl, hfront, hext⟩ := exists_last_dot n
  · exact ⟨[], by rw [List.append_nil, stem_of_not_mem_tail h]⟩
  · rw [stem_append hfront hext]
    exact List.prefix_append _ _

theorem stem_ne_nil (h : n ≠ []) : stem n ≠ [] := by
  obtain htail | ⟨front, ext, rfl, hfront, hext⟩ := exists_last_dot n
  · rwa [stem_of_not_mem_tail htail]
  · rwa [stem_append hfront hext]

/-- A name that is cut is not its own stem. -/
theorem stem_eq_self_iff : stem n = n ↔ '.' ∉ n.tail := by
  refine ⟨fun h => ?_, stem_of_not_mem_tail⟩
  obtain htail | ⟨front, ext, rfl, hfront, hext⟩ := exists_last_dot n
  · exact htail
  · rw [stem_append hfront hext, List.self_eq_append_right] at h
    cases h

theorem IsStep.stem (h : IsStep n) : IsStep (stem n) :=
  ⟨stem_ne_nil h.ne_nil, fun hmem => h.slash ((stem_isPrefix n).subset hmem)⟩

/-! ## File names -/

/-- A text that can be a step of a path has that step only. -/
theorem IsStep.steps (h : IsStep n) : steps n = [n] := by
  have hslash : ∀ c ∈ n, (c == '/') = false := fun c hc => beq_eq_false_iff_ne.2 fun e => h.slash (e ▸ hc)
  have hcut := Text.cutAt_append hslash []
  rw [List.append_nil, Text.cutAt_nil, List.modifyHead_cons, List.append_nil] at hcut
  rw [Path.steps, hcut, List.filter_cons_of_pos (by simpa using h.ne_nil), List.filter_nil]

theorem IsStep.fileName? (h : IsStep n) : fileName? n = if IsDots n then none else some n := by
  unfold Path.fileName? names IsDots
  rw [h.steps]
  by_cases hdot : n = ['.']
  · simp [hdot]
  · by_cases hdots : n = ['.', '.']
    · simp [hdots]
    · simp [hdot, hdots]

/-- A file name is one of the steps of its path. -/
theorem isStep_of_fileName? (h : fileName? p = some n) : IsStep n := by
  unfold fileName? at h
  split at h
  · rename_i last hlast
    split at h
    · cases h
    · obtain rfl := Option.some.inj h
      have hmem := (List.mem_filter.1 (List.mem_of_getLast? hlast)).1
      obtain ⟨hcut, hne⟩ := List.mem_filter.1 hmem
      exact ⟨by simpa using hne, fun hslash => absurd (Text.not_of_mem_cutAt hcut '/' hslash) (by decide)⟩
  · cases h

theorem isStep_of_fileStem? (h : fileStem? p = some s) : IsStep s := by
  obtain ⟨n, hn, rfl⟩ := Option.map_eq_some_iff.1 h
  exact (isStep_of_fileName? hn).stem

/-! ## Extensions -/

theorem not_isDots_append_extension (s : Text) : ¬ IsDots (s ++ '.' :: listingExtension) := by
  have hlast : (s ++ '.' :: listingExtension).getLast? = some 'x' := by simp [listingExtension]
  rintro (h | h) <;> rw [h] at hlast <;> cases hlast

theorem IsStep.append_extension (h : IsStep s) : IsStep (s ++ '.' :: listingExtension) := by
  refine ⟨List.append_ne_nil_of_right_ne_nil _ (List.cons_ne_nil _ _), fun hmem => ?_⟩
  obtain hmem | hmem := List.mem_append.1 hmem
  · exact h.slash hmem
  · exact absurd hmem (by decide)

/-- A name with the extension of listings has what stands before that as its stem. -/
theorem IsStep.fileStem?_append_extension (h : IsStep s) :
    fileStem? (s ++ '.' :: listingExtension) = some s := by
  rw [fileStem?, h.append_extension.fileName?, if_neg (not_isDots_append_extension s), Option.map_some,
    stem_append h.ne_nil (by decide)]

/-- A name without a dot to cut at gets the extension as it is. -/
theorem IsStep.withExtension_of_not_mem_tail (h : IsStep s) (htail : '.' ∉ s.tail) (hdot : s ≠ ['.']) :
    withExtension s ext = s ++ '.' :: ext := by
  have hdots : ¬ IsDots s := by
    rintro (rfl | rfl)
    · exact hdot rfl
    · exact htail List.mem_cons_self
  have hname : Path.fileName? s = some s := by rw [h.fileName?, if_neg hdots]
  rw [Path.withExtension, hname, Option.map_some, trunk_of_not_mem_tail htail]
  dsimp only
  rw [hname]
  dsimp only
  rw [stem_of_not_mem_tail htail]

/-- A name that is cut keeps the dot it is cut at until it gets the extension. If there is only a dot before
that one, the two are no file name, and stay. -/
theorem IsStep.withExtension_append {rest : Text} (h : IsStep (front ++ '.' :: rest))
    (hfront : front ≠ []) (hrest : '.' ∉ rest) :
    withExtension (front ++ '.' :: rest) ext =
      if front = ['.'] then ['.', '.'] else front ++ '.' :: ext := by
  by_cases hdots : IsDots (front ++ '.' :: rest)
  · have hsame : front ++ '.' :: rest = ['.', '.'] := by
      refine hdots.resolve_left fun hdot => ?_
      have hlength := congrArg List.length hdot
      have hpos := List.length_pos_iff.2 hfront
      simp only [List.length_append, List.length_cons, List.length_nil] at hlength
      omega
    have hdot : front = ['.'] := by
      have hstem := stem_append hfront hrest
      rw [hsame] at hstem
      exact hstem.symm
    rw [hsame, if_pos hdot]
    rfl
  · have hstep : IsStep (front ++ ['.']) := by
      refine ⟨List.append_ne_nil_of_left_ne_nil hfront _, fun hmem => h.slash ?_⟩
      rw [List.append_cons]
      exact List.mem_append_left _ hmem
    rw [Path.withExtension, h.fileName?, if_neg hdots, Option.map_some, trunk_append hfront hrest]
    dsimp only
    rw [hstep.fileName?]
    by_cases hdot : front = ['.']
    · rw [hdot]
      rfl
    · have hkept : ¬ IsDots (front ++ ['.']) := by
        rintro (hnil | htwo)
        · exact hfront (by simpa using hnil)
        · exact hdot (List.append_cancel_right (htwo : front ++ ['.'] = ['.'] ++ ['.']))
      rw [if_neg hkept, if_neg hdot]
      dsimp only
      rw [stem_append hfront List.not_mem_nil]

/-- With another extension a name is its stem and that, unless its stem is a dot alone. -/
theorem IsStep.withExtension (h : IsStep s) (ext : Text) :
    withExtension s ext =
      if s = ['.'] then ['.'] else if Path.stem s = ['.'] then ['.', '.']
      else Path.stem s ++ '.' :: ext := by
  by_cases hdot : s = ['.']
  · rw [hdot]
    rfl
  rw [if_neg hdot]
  obtain htail | ⟨front, rest, rfl, hfront, hrest⟩ := exists_last_dot s
  · rw [stem_of_not_mem_tail htail, if_neg hdot, h.withExtension_of_not_mem_tail htail hdot]
  · rw [stem_append hfront hrest, h.withExtension_append hfront hrest]

/-! ## Default listings -/

theorem defaultListing_eq (h : fileStem? source = some s) :
    defaultListing source =
      if s = ['.'] then ['.'] else if stem s = ['.'] then ['.', '.']
      else stem s ++ '.' :: listingExtension := by
  rw [defaultListing, h, Option.getD_some, (isStep_of_fileStem? h).withExtension]

theorem isStep_defaultListing (h : fileStem? source = some s) : IsStep (defaultListing source) := by
  rw [defaultListing_eq h]
  split
  · exact ⟨by simp, by decide⟩
  · split
    · exact ⟨by simp, by decide⟩
    · exact (isStep_of_fileStem? h).stem.append_extension

/-- The listing has the stem of the source's stem, or is no file name. -/
theorem fileStem?_defaultListing (h : fileStem? source = some s) :
    fileStem? (defaultListing source) = if stem s = ['.'] then none else some (stem s) := by
  rw [defaultListing_eq h]
  by_cases hdot : s = ['.']
  · rw [hdot]
    rfl
  · rw [if_neg hdot]
    split
    · rfl
    · exact (isStep_of_fileStem? h).stem.fileStem?_append_extension

/-- The stem has nothing that the second cut could take: no dot after its first character, and it is more
than a dot. -/
structure KeepsStem (s : Text) : Prop where
  tail : '.' ∉ s.tail
  ne_dot : s ≠ ['.']

instance : Decidable (KeepsStem s) :=
  decidable_of_iff ('.' ∉ s.tail ∧ s ≠ ['.']) ⟨fun h => ⟨h.1, h.2⟩, fun h => ⟨h.tail, h.ne_dot⟩⟩

theorem fileStem?_defaultListing_eq_iff (h : fileStem? source = some s) :
    fileStem? (defaultListing source) = some s ↔ KeepsStem s := by
  rw [fileStem?_defaultListing h]
  constructor
  · intro hkept
    split at hkept
    · cases hkept
    · rename_i hdot
      have hstem : stem s = s := Option.some.inj hkept
      exact ⟨stem_eq_self_iff.1 hstem, fun hs => hdot (hstem.trans hs)⟩
  · rintro ⟨htail, hdot⟩
    rw [stem_of_not_mem_tail htail, if_neg hdot]

theorem defaultListing_eq_append_iff (h : fileStem? source = some s) :
    defaultListing source = s ++ '.' :: listingExtension ↔ KeepsStem s := by
  constructor
  · intro hlisting
    rw [← fileStem?_defaultListing_eq_iff h, hlisting, (isStep_of_fileStem? h).fileStem?_append_extension]
  · rintro ⟨htail, hdot⟩
    rw [defaultListing_eq h, stem_of_not_mem_tail htail, if_neg hdot, if_neg hdot]

/-- Only a stem that is a dot has the working directory as its listing. -/
theorem defaultListing_eq_dot_iff (h : fileStem? source = some s) :
    defaultListing source = ['.'] ↔ s = ['.'] := by
  rw [defaultListing_eq h]
  by_cases hdot : s = ['.']
  · rw [if_pos hdot, iff_true_right hdot]
  · rw [if_neg hdot]
    refine iff_of_false (fun hlisting => ?_) hdot
    split at hlisting
    · cases hlisting
    · exact not_isDots_append_extension _ (.inl hlisting)

/-- Two sources share a default listing just if their stems are cut down to one text, in the same way. -/
theorem defaultListing_eq_iff {other r : Text} (h : fileStem? source = some s)
    (k : fileStem? other = some r) :
    defaultListing source = defaultListing other ↔ stem s = stem r ∧ (s = ['.'] ↔ r = ['.']) := by
  constructor
  · intro hlisting
    have hstems := congrArg fileStem? hlisting
    rw [fileStem?_defaultListing h, fileStem?_defaultListing k] at hstems
    refine ⟨?_, by rw [← defaultListing_eq_dot_iff h, ← defaultListing_eq_dot_iff k, hlisting]⟩
    split at hstems <;> split at hstems
    · rename_i hs hr
      exact hs.trans hr.symm
    · cases hstems
    · cases hstems
    · exact Option.some.inj hstems
  · rintro ⟨hstem, hdot⟩
    simp only [defaultListing_eq h, defaultListing_eq k, hstem, hdot]

end Path
end Asm16
