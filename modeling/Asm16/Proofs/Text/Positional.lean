-- SUMMARY: Digit texts in the positional system: the value a reader finds is the number the digits denote.
import Asm16.Proofs.Text.Digits
import Mathlib.Data.List.Forall2
import Mathlib.Data.Nat.Digits.Defs

/-!
# Positional numerals

`Numeral.value` reads a digit text from left to right, and `Numeral.digit?` computes a digit from its
code. What a numeral denotes is said here without either: every character is listed as the digit of a
number below the base, and the numbers are the digits of the whole, the most significant one first. Both
say the same up to base sixteen, for texts of any length.
-/

namespace Asm16
namespace Numeral

/-- The character is listed as the digit of `d`. A digit from ten on is a letter of either case. -/
def IsListed (d : Nat) (c : Char) : Prop :=
  "0123456789abcdef".toList[d]? = some c ∨ "0123456789ABCDEF".toList[d]? = some c

instance (d : Nat) (c : Char) : Decidable (IsListed d c) := inferInstanceAs (Decidable (_ ∨ _))

/-- The text is a numeral of the number in the base: it has a digit or more, and they are those of the
number, the most significant one first. -/
def Denotes (base : Nat) (t : Text) (n : Nat) : Prop :=
  t ≠ [] ∧ ∃ ds, List.Forall₂ (fun c d => d < base ∧ IsListed d c) t ds ∧
    Nat.ofDigits base ds.reverse = n

variable {base d n : Nat} {c : Char} {t : Text} {ds : List Nat}

/-! ## Digits -/

theorem digit?_of_isListed (h : IsListed d c) : digit? c = some d := by
  have hlower : ∀ d < 16, "0123456789abcdef".toList[d]?.all (digit? · == some d) = true := by decide
  have hupper : ∀ d < 16, "0123456789ABCDEF".toList[d]?.all (digit? · == some d) = true := by decide
  rcases h with h | h
  · have hd := hlower d (List.getElem?_eq_some_iff.1 h).1
    rw [h] at hd
    exact beq_iff_eq.1 hd
  · have hd := hupper d (List.getElem?_eq_some_iff.1 h).1
    rw [h] at hd
    exact beq_iff_eq.1 hd

theorem toNat_lt_of_digit? (h : digit? c = some d) : c.toNat < 123 := by
  unfold digit? at h
  split at h
  · rename_i hc
    exact Nat.lt_of_le_of_lt hc.2 (by decide)
  · split at h
    · rename_i hc
      exact Nat.lt_of_le_of_lt hc.2 (by decide)
    · split at h
      · rename_i hc
        exact Nat.lt_of_le_of_lt hc.2 (by decide)
      · cases h

theorem isListed_of_digit? (h : digit? c = some d) (hd : d < 16) : IsListed d c := by
  have hall : ∀ code < 123, ∀ d ∈ digit? (Char.ofNat code), d < 16 → IsListed d (Char.ofNat code) := by
    decide +kernel
  have hlisted := hall c.toNat (toNat_lt_of_digit? h)
  rw [Char.ofNat_toNat] at hlisted
  exact hlisted d h hd

/-- Below a base up to sixteen, the digits that are computed are those that are listed. -/
theorem isDigit_iff (hbase : base ≤ 16) :
    (isDigit base c = true ∧ (digit? c).getD 0 = d) ↔ d < base ∧ IsListed d c := by
  constructor
  · rintro ⟨hc, hd⟩
    obtain ⟨e, he, hlt⟩ := (Option.any_eq_true _ _).1 hc
    rw [he, Option.getD_some] at hd
    subst hd
    have hlt : e < base := of_decide_eq_true hlt
    exact ⟨hlt, isListed_of_digit? he (Nat.lt_of_lt_of_le hlt hbase)⟩
  · rintro ⟨hlt, hlisted⟩
    have hd := digit?_of_isListed hlisted
    exact ⟨by simp [isDigit, hd, hlt], by rw [hd, Option.getD_some]⟩

/-! ## Numerals -/

theorem value_eq_ofDigits (base : Nat) (t : Text) :
    value base t = Nat.ofDigits base (t.map fun c => (digit? c).getD 0).reverse := by
  induction t using List.reverseRecOn with
  | nil => rfl
  | append_singleton t c ih =>
    rw [value_append_singleton, ih, List.map_append, List.map_singleton, List.reverse_append,
      List.reverse_singleton, List.singleton_append, Nat.ofDigits_cons, Nat.add_comm, Nat.mul_comm]

/-- The digits of a text are computed one by one. -/
theorem forall₂_isListed_iff (hbase : base ≤ 16) :
    List.Forall₂ (fun c d => d < base ∧ IsListed d c) t ds ↔
      (∀ c ∈ t, isDigit base c = true) ∧ (t.map fun c => (digit? c).getD 0) = ds := by
  induction t generalizing ds with
  | nil =>
    constructor
    · rintro ⟨⟩
      exact ⟨List.forall_mem_nil _, rfl⟩
    · rintro ⟨-, rfl⟩
      exact .nil
  | cons c t ih =>
    rw [List.forall₂_cons_left_iff, List.forall_mem_cons, List.map_cons]
    constructor
    · rintro ⟨d, ds, hd, hrest, rfl⟩
      obtain ⟨hc, rfl⟩ := (isDigit_iff hbase).2 hd
      obtain ⟨ht, rfl⟩ := ih.1 hrest
      exact ⟨⟨hc, ht⟩, rfl⟩
    · rintro ⟨⟨hc, ht⟩, rfl⟩
      exact ⟨_, _, (isDigit_iff hbase).1 ⟨hc, rfl⟩, ih.2 ⟨ht, rfl⟩, rfl⟩

/-- A text is a numeral for the reader exactly if it denotes a number, which is its value. -/
theorem denotes_iff (hbase : base ≤ 16) :
    Denotes base t n ↔ isNumeral base t = true ∧ value base t = n := by
  simp only [Denotes, forall₂_isListed_iff hbase, isNumeral, Bool.and_eq_true, List.all_eq_true,
    Bool.not_eq_true', List.isEmpty_eq_false_iff, value_eq_ofDigits]
  constructor
  · rintro ⟨hne, _, ⟨ht, rfl⟩, hn⟩
    exact ⟨⟨hne, ht⟩, hn⟩
  · rintro ⟨⟨hne, ht⟩, hn⟩
    exact ⟨hne, _, ⟨ht, rfl⟩, hn⟩

end Numeral
end Asm16
