-- SUMMARY: Every word is classified by its form: six forms, of which each word has one.
import Asm16.Proofs.Operand.Spelling
import Asm16.Proofs.Text.Positional

/-!
# Forms of operands

Every word has one of six forms. It is a register or a displaced address, with a number that a field can
hold or with one that it cannot; it has a parenthesis that opens before another closes and is no
displaced address; or it is none of these, and then a label if the program defines it and an immediate
if not. The number of a register is the one its digits denote, however many they are.
-/

namespace Asm16
namespace Operand

/-- The text is `r` or `R` and a decimal numeral of the number. -/
def DenotesRegister (t : Text) (n : Nat) : Prop :=
  ∃ digits, (t = 'r' :: digits ∨ t = 'R' :: digits) ∧ Numeral.Denotes 10 digits n

/-- What a word is classified as, or why it is refused, by its form. -/
inductive Form (labels : LabelTable) (t : Text) : Except OperandError Operand → Prop where
  | displaced {d r} {x : Nibble} : Encloses t d r → SpellsRegister r x.toNat →
      Form labels t (.ok (.displaced d x))
  | register {x : Nibble} : SpellsRegister t x.toNat → Form labels t (.ok (.register x))
  | baseOutOfRange {d r n} : Encloses t d r → SpellsRegister r n → 15 < n →
      Form labels t (.error (.outOfRange r .nibble))
  | registerOutOfRange {n} : SpellsRegister t n → 15 < n →
      Form labels t (.error (.outOfRange t .nibble))
  | textAfterAddress : t.Parenthesised → (∀ d r, ¬ Encloses t d r) →
      Form labels t (.error (.malformed t .textAfterAddress))
  | notRegisterInside {d r} : Encloses t d r → (∀ n, ¬ SpellsRegister r n) →
      Form labels t (.error (.malformed t .notRegisterInside))
  | label : SpellsPlain t → labels.contains t = true → Form labels t (.ok (.label t))
  | immediate : SpellsPlain t → labels.contains t = false → Form labels t (.ok (.immediate t))

variable {t d r : Text} {n : Nat} {labels : LabelTable}

/-! ## Registers -/

theorem denotesRegister_iff : DenotesRegister t n ↔ SpellsRegister t n := by
  unfold DenotesRegister SpellsRegister
  simp only [Numeral.denotes_iff (show 10 ≤ 16 by decide)]
  constructor
  · rintro ⟨digits, rfl | rfl, hdigits⟩
    · exact ⟨'r', digits, rfl, .inl rfl, hdigits⟩
    · exact ⟨'R', digits, rfl, .inr rfl, hdigits⟩
  · rintro ⟨c, digits, rfl, rfl | rfl, hdigits⟩
    · exact ⟨digits, .inl rfl, hdigits⟩
    · exact ⟨digits, .inr rfl, hdigits⟩

theorem SpellsRegister.register?_of_lt (h : SpellsRegister t n) (hn : 15 < n) :
    register? t = .error (.outOfRange t .nibble) := by
  obtain ⟨c, digits, rfl, hc, hdigits, rfl⟩ := h
  have hnibble : Nibble.ofNat? (Numeral.value 10 digits) = none := if_neg (by omega)
  have hmark : (c == 'r' || c == 'R') = true := by simpa using hc
  simp only [register?, hmark, hdigits, Bool.and_self, if_true, hnibble]

/-! ## Forms -/

theorem Form.classify {o : Except OperandError Operand} (h : Form labels t o) :
    Operand.classify labels t = o := by
  cases h with
  | displaced he hr => exact SpellsDisplaced.classify ⟨_, he.1, he.2, hr⟩
  | register hr => exact hr.classify
  | baseOutOfRange he hr hn => rw [Operand.classify, he.displaced?, hr.register?_of_lt hn]; rfl
  | registerOutOfRange hr hn =>
    rw [Operand.classify, displaced?_eq_none_iff.2 hr.not_parenthesised, hr.register?_of_lt hn]
    rfl
  | textAfterAddress hp hno =>
    have hlast : t.getLast? ≠ some ')' := by
      intro hlast
      obtain ⟨d, r, he⟩ := exists_encloses hp hlast
      exact hno d r he
    rw [Operand.classify, displaced?_of_getLast?_ne hp hlast]
    rfl
  | notRegisterInside he hr =>
    rw [Operand.classify, he.displaced?, register?_eq_none_iff.2 hr]
    rfl
  | label hp hlabel => rw [hp.classify, if_pos hlabel]
  | immediate hp hlabel => rw [hp.classify, if_neg (Bool.eq_false_iff.1 hlabel)]

theorem exists_form (labels : LabelTable) (t : Text) : ∃ o, Form labels t o := by
  by_cases hp : t.Parenthesised
  · by_cases he : ∃ d r, Encloses t d r
    · obtain ⟨d, r, he⟩ := he
      by_cases hr : ∃ n, SpellsRegister r n
      · obtain ⟨n, hr⟩ := hr
        by_cases hn : n ≤ 15
        · obtain ⟨x, rfl⟩ := Nibble.exists_toNat_eq hn
          exact ⟨_, .displaced he hr⟩
        · exact ⟨_, .baseOutOfRange he hr (Nat.lt_of_not_le hn)⟩
      · exact ⟨_, .notRegisterInside he (not_exists.1 hr)⟩
    · exact ⟨_, .textAfterAddress hp fun d r h => he ⟨d, r, h⟩⟩
  · by_cases hr : ∃ n, SpellsRegister t n
    · obtain ⟨n, hr⟩ := hr
      by_cases hn : n ≤ 15
      · obtain ⟨x, rfl⟩ := Nibble.exists_toNat_eq hn
        exact ⟨_, .register hr⟩
      · exact ⟨_, .registerOutOfRange hr (Nat.lt_of_not_le hn)⟩
    · have hplain : SpellsPlain t := ⟨hp, not_exists.1 hr⟩
      cases hlabel : labels.contains t with
      | true => exact ⟨_, .label hplain hlabel⟩
      | false => exact ⟨_, .immediate hplain hlabel⟩

/-- A word is classified as its form says, and it has no other form. -/
theorem classify_eq_iff {o : Except OperandError Operand} :
    Operand.classify labels t = o ↔ Form labels t o := by
  constructor
  · rintro rfl
    obtain ⟨o, ho⟩ := exists_form labels t
    exact ho.classify.symm ▸ ho
  · exact Form.classify

/-- Each classification and each refusal of a word has one form, every word has one of them, and a
displaced address is known from its classification up to the spelling of its register. -/
structure ClassifiesByForm (labels : LabelTable) (t : Text) : Prop where
  displaced : ∀ d x, classify labels t = .ok (.displaced d x) ↔
    ∃ r, Encloses t d r ∧ DenotesRegister r x.toNat
  register : ∀ x, classify labels t = .ok (.register x) ↔ DenotesRegister t x.toNat
  outOfRange : ∀ r, classify labels t = .error (.outOfRange r .nibble) ↔
    ∃ n, 15 < n ∧ DenotesRegister r n ∧ (r = t ∨ ∃ d, Encloses t d r)
  malformed : (∃ why, classify labels t = .error (.malformed t why)) ↔
    t.Parenthesised ∧ ∀ d r n, Encloses t d r → ¬ DenotesRegister r n
  label : classify labels t = .ok (.label t) ↔
    ¬ t.Parenthesised ∧ (∀ n, ¬ DenotesRegister t n) ∧ labels.contains t = true
  immediate : classify labels t = .ok (.immediate t) ↔
    ¬ t.Parenthesised ∧ (∀ n, ¬ DenotesRegister t n) ∧ labels.contains t = false
  exhaustive : (∃ d x, classify labels t = .ok (.displaced d x)) ∨
    (∃ x, classify labels t = .ok (.register x)) ∨
    (∃ r, classify labels t = .error (.outOfRange r .nibble)) ∨
    (∃ why, classify labels t = .error (.malformed t why)) ∨
    classify labels t = .ok (.label t) ∨ classify labels t = .ok (.immediate t)
  determined : ∀ table u d x, classify labels t = .ok (.displaced d x) →
    classify table u = .ok (.displaced d x) →
      ∃ r s, DenotesRegister r x.toNat ∧ DenotesRegister s x.toNat ∧
        t = d ++ '(' :: (r ++ [')']) ∧ u = d ++ '(' :: (s ++ [')'])

theorem classify_eq_displaced_iff {x : Nibble} :
    classify labels t = .ok (.displaced d x) ↔ ∃ r, Encloses t d r ∧ DenotesRegister r x.toNat := by
  simp only [classify_eq_iff, denotesRegister_iff]
  constructor
  · rintro ⟨he, hr⟩
    exact ⟨_, he, hr⟩
  · rintro ⟨r, he, hr⟩
    exact .displaced he hr

theorem classify_eq_outOfRange_iff :
    classify labels t = .error (.outOfRange r .nibble) ↔
      ∃ n, 15 < n ∧ DenotesRegister r n ∧ (r = t ∨ ∃ d, Encloses t d r) := by
  simp only [classify_eq_iff, denotesRegister_iff]
  constructor
  · intro h
    cases h with
    | baseOutOfRange he hr hn => exact ⟨_, hn, hr, .inr ⟨_, he⟩⟩
    | registerOutOfRange hr hn => exact ⟨_, hn, hr, .inl rfl⟩
  · rintro ⟨n, hn, hr, rfl | ⟨d, he⟩⟩
    · exact .registerOutOfRange hr hn
    · exact .baseOutOfRange he hr hn

theorem classify_eq_malformed_iff :
    (∃ why, classify labels t = .error (.malformed t why)) ↔
      t.Parenthesised ∧ ∀ d r n, Encloses t d r → ¬ DenotesRegister r n := by
  simp only [classify_eq_iff, denotesRegister_iff]
  constructor
  · rintro ⟨why, h⟩
    cases h with
    | textAfterAddress hp hno => exact ⟨hp, fun d r n he => absurd he (hno d r)⟩
    | notRegisterInside he hr =>
      refine ⟨he.parenthesised, fun d r n he' => ?_⟩
      rw [← (he.unique he').2]
      exact hr n
  · rintro ⟨hp, hno⟩
    by_cases he : ∃ d r, Encloses t d r
    · obtain ⟨d, r, he⟩ := he
      exact ⟨_, .notRegisterInside he fun n => hno d r n he⟩
    · exact ⟨_, .textAfterAddress hp fun d r h => he ⟨d, r, h⟩⟩

/-- Every word is classified by its form, under every label table. -/
theorem classifiesByForm (labels : LabelTable) (t : Text) : ClassifiesByForm labels t where
  displaced d x := classify_eq_displaced_iff
  register x := by
    rw [classify_eq_iff, denotesRegister_iff]
    exact ⟨fun | .register hr => hr, .register⟩
  outOfRange r := classify_eq_outOfRange_iff
  malformed := classify_eq_malformed_iff
  label := by
    simp only [classify_eq_iff, denotesRegister_iff]
    exact ⟨fun | .label hp hlabel => ⟨hp.1, hp.2, hlabel⟩,
      fun ⟨hp, hr, hlabel⟩ => .label ⟨hp, hr⟩ hlabel⟩
  immediate := by
    simp only [classify_eq_iff, denotesRegister_iff]
    exact ⟨fun | .immediate hp hlabel => ⟨hp.1, hp.2, hlabel⟩,
      fun ⟨hp, hr, hlabel⟩ => .immediate ⟨hp, hr⟩ hlabel⟩
  exhaustive := by
    obtain ⟨o, ho⟩ := exists_form labels t
    have hclassify := ho.classify
    cases ho with
    | displaced he hr => exact .inl ⟨_, _, hclassify⟩
    | register hr => exact .inr (.inl ⟨_, hclassify⟩)
    | baseOutOfRange he hr hn => exact .inr (.inr (.inl ⟨_, hclassify⟩))
    | registerOutOfRange hr hn => exact .inr (.inr (.inl ⟨_, hclassify⟩))
    | textAfterAddress hp hno => exact .inr (.inr (.inr (.inl ⟨_, hclassify⟩)))
    | notRegisterInside he hr => exact .inr (.inr (.inr (.inl ⟨_, hclassify⟩)))
    | label hp hlabel => exact .inr (.inr (.inr (.inr (.inl hclassify))))
    | immediate hp hlabel => exact .inr (.inr (.inr (.inr (.inr hclassify))))
  determined table u d x ht hu := by
    obtain ⟨r, he, hr⟩ := classify_eq_displaced_iff.1 ht
    obtain ⟨s, he', hs⟩ := classify_eq_displaced_iff.1 hu
    exact ⟨r, s, hr, hs, he.1, he'.1⟩

/-- A parenthesis may close in a displacement, and a register may have zeros in front. -/
example : classify .empty "a)b(R007)".toList = .ok (.displaced "a)b".toList 7) := rfl

end Operand
end Asm16
