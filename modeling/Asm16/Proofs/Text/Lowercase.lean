-- SUMMARY: Lower case keeps separators and words apart, so a text without words is the same word as no other kind of text.
import Asm16.Proofs.Text.Pieces
import Asm16.Text.Lowercase
import Mathlib.Data.List.Basic

/-!
# Lower case and separators

No separator has a lower case form other than itself, and none is the lower case form of another
character. Texts that are the same word therefore both have words or both have none.
-/

namespace Asm16
namespace Text

variable {a b : Text} {c d : Char}

/-- The code points of separators, from the first to the last of each run. -/
def separatorRanges : List (Nat × Nat) := [
  (9, 13), (0x20, 0x20), (0x2C, 0x2C), (0x85, 0x85), (0xA0, 0xA0), (0x1680, 0x1680),
  (0x2000, 0x200A), (0x2028, 0x2029), (0x202F, 0x202F), (0x205F, 0x205F), (0x3000, 0x3000)]

/-- The code point is that of a separator. -/
def IsSeparatorCode (n : Nat) : Prop := ∃ s ∈ separatorRanges, s.1 ≤ n ∧ n ≤ s.2

theorem isSeparator_iff : isSeparator c = true ↔ IsSeparatorCode c.toNat := by
  have hcomma : c = ',' ↔ c.toNat = 0x2C := Char.toNat_inj.symm
  simp only [isSeparator, isBlank, IsSeparatorCode, separatorRanges, Bool.or_eq_true,
    Bool.and_eq_true, beq_iff_eq, decide_eq_true_eq, List.mem_cons, List.not_mem_nil, or_false,
    exists_eq_or_imp, exists_eq_left, hcomma]
  omega

/-- The run has no separator in it, nor among the lower case forms. -/
def CaseRun.Clear (r : CaseRun) : Prop :=
  ∀ s ∈ separatorRanges, (r.last < s.1 ∨ s.2 < r.first) ∧
    (r.last + r.offset < s.1 ∨ (s.2 : Int) < r.first + r.offset)

instance (r : CaseRun) : Decidable r.Clear :=
  inferInstanceAs (Decidable (∀ s ∈ separatorRanges, _))

theorem clear_of_mem_caseRuns : ∀ r ∈ caseRuns, r.Clear := by decide +kernel

theorem not_isSeparatorCode_zero : ¬ IsSeparatorCode 0 := by
  simp [IsSeparatorCode, separatorRanges]

theorem isSeparatorCode_of_ofNat {n : Nat} (h : isSeparator (Char.ofNat n) = true) :
    IsSeparatorCode n := by
  rw [isSeparator_iff] at h
  by_cases hvalid : n.isValidChar
  · have hcode : (Char.ofNat n).toNat = n := by
      rw [Char.ofNat, dif_pos hvalid]
      rfl
    rwa [hcode] at h
  · -- a number that is no code point makes the null character
    have hcode : (Char.ofNat n).toNat = 0 := by
      rw [Char.ofNat, dif_neg hvalid]
      rfl
    rw [hcode] at h
    exact absurd h not_isSeparatorCode_zero

theorem isSeparator_toLower_ascii :
    ∀ n < 0x80, isSeparator (Char.ofNat n).toLower = isSeparator (Char.ofNat n) := by
  decide +kernel

theorem CaseRun.isSeparator_eq {r : CaseRun} (hr : r ∈ caseRuns) (hc : r.holds c.toNat = true) :
    isSeparator c = false ∧ isSeparator (Char.ofNat (c.toNat + r.offset).toNat) = false := by
  have hclear := clear_of_mem_caseRuns r hr
  simp only [holds, Bool.and_eq_true, decide_eq_true_eq] at hc
  obtain ⟨⟨hfirst, hlast⟩, -⟩ := hc
  constructor
  · refine Bool.eq_false_iff.2 fun h => ?_
    obtain ⟨s, hs, hle⟩ := isSeparator_iff.1 h
    have hout := (hclear s hs).1
    omega
  · refine Bool.eq_false_iff.2 fun h => ?_
    have hcode := isSeparatorCode_of_ofNat h
    have hpos : (c.toNat + r.offset).toNat ≠ 0 := by
      intro hzero
      exact not_isSeparatorCode_zero (hzero ▸ hcode)
    obtain ⟨s, hs, hle⟩ := hcode
    have hout := (hclear s hs).2
    omega

theorem lowercase_ne_nil (c : Char) : lowercase c ≠ [] := by
  unfold lowercase
  split
  · exact List.cons_ne_nil _ _
  · split
    · exact List.cons_ne_nil _ _
    · split <;> exact List.cons_ne_nil _ _

/-- A lower case form is made of separators exactly if the character is one. -/
theorem isSeparator_of_mem_lowercase (h : d ∈ lowercase c) : isSeparator d = isSeparator c := by
  unfold lowercase at h
  split at h
  · rename_i hascii
    rw [List.mem_singleton.1 h]
    simpa using isSeparator_toLower_ascii _ hascii
  · split at h
    · rename_i hdotted
      have hc : c = Char.ofNat 0x130 := by rw [← hdotted, Char.ofNat_toNat]
      subst hc
      obtain rfl | rfl : d = 'i' ∨ d = Char.ofNat 0x307 := by simpa using h
      · rfl
      · rfl
    · split at h
      · rename_i r hr
        obtain ⟨hc, hd⟩ := CaseRun.isSeparator_eq (List.mem_of_find?_eq_some hr)
          (by simpa using List.find?_some hr)
        rw [List.mem_singleton.1 h, hc, hd]
      · rw [List.mem_singleton.1 h]

/-! ## The same word -/

theorem forall_flatMap_lowercase :
    (∀ d ∈ a.flatMap lowercase, isSeparator d = true) ↔ ∀ c ∈ a, isSeparator c = true := by
  simp only [List.mem_flatMap]
  constructor
  · intro h c hc
    obtain ⟨d, hd⟩ := List.exists_mem_of_ne_nil _ (lowercase_ne_nil c)
    rw [← isSeparator_of_mem_lowercase hd]
    exact h d ⟨c, hc, hd⟩
  · rintro h d ⟨c, hc, hd⟩
    rw [isSeparator_of_mem_lowercase hd]
    exact h c hc

theorem flatMap_lowercase_eq_nil_iff : a.flatMap lowercase = [] ↔ a = [] := by
  rw [List.flatMap_eq_nil_iff]
  constructor
  · intro h
    exact List.eq_nil_iff_forall_not_mem.2 fun c hc => lowercase_ne_nil c (h c hc)
  · rintro rfl
    simp

theorem eq_nil_iff_of_sameWord (h : sameWord a b = true) : a = [] ↔ b = [] := by
  have hlower : a.flatMap lowercase = b.flatMap lowercase := beq_iff_eq.1 h
  rw [← @flatMap_lowercase_eq_nil_iff a, hlower, flatMap_lowercase_eq_nil_iff]

/-- Of two texts that are the same word, both have words or neither has. -/
theorem words_eq_nil_iff_of_sameWord (h : sameWord a b = true) : a.words = [] ↔ b.words = [] := by
  have hlower : a.flatMap lowercase = b.flatMap lowercase := beq_iff_eq.1 h
  rw [words_eq_nil_iff, words_eq_nil_iff, ← @forall_flatMap_lowercase a, hlower,
    forall_flatMap_lowercase]

end Text
end Asm16
