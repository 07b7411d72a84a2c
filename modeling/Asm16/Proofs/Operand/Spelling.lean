-- SUMMARY: How operands are spelled, as a grammar, and that classification follows it.
import Asm16.Program.Operand
import Asm16.Proofs.Except
import Asm16.Proofs.Text.Cut

/-!
# Spelling of operands

`Operand.classify` looks for the first opening and the last closing parenthesis and cuts the text
between them. The predicates here say what it accepts without searching: a text spells a register if
it is `r` or `R` and decimal digits, and a displaced address if it is a displacement without an
opening parenthesis and a register in parentheses. The numbers are those of the digits, of any size.
-/

namespace Asm16

/-- Some parenthesis of the text opens before another closes. -/
def Text.Parenthesised (t : Text) : Prop := ∃ a b c, t = a ++ '(' :: (b ++ ')' :: c)

namespace Operand

/-- The text is `r` or `R` and the decimal digits of `n`. -/
def SpellsRegister (t : Text) (n : Nat) : Prop :=
  ∃ c digits, t = c :: digits ∧ (c = 'r' ∨ c = 'R') ∧
    Numeral.isNumeral 10 digits = true ∧ Numeral.value 10 digits = n

/-- The text is `d`, in which no parenthesis opens, and `r` in parentheses. -/
def Encloses (t d r : Text) : Prop := t = d ++ '(' :: (r ++ [')']) ∧ '(' ∉ d

/-- The text is the displacement `d`, which may be empty, and register `n` in parentheses. -/
def SpellsDisplaced (t d : Text) (n : Nat) : Prop :=
  ∃ r, t = d ++ '(' :: (r ++ [')']) ∧ '(' ∉ d ∧ SpellsRegister r n

/-- The text spells no register and does not look like a displaced address. -/
def SpellsPlain (t : Text) : Prop := ¬ t.Parenthesised ∧ ∀ n, ¬ SpellsRegister t n

/-- The text spells the base register `n`: plainly, or as a displaced address with the displacement
`d`, where an empty one counts as none. -/
inductive SpellsBase : Text → Option Text → Nat → Prop where
  | register {t n} : SpellsRegister t n → SpellsBase t none n
  | bare {t n} : SpellsDisplaced t [] n → SpellsBase t none n
  | displaced {t d n} : SpellsDisplaced t d n → d ≠ [] → SpellsBase t (some d) n

variable {t d r : Text} {n : Nat} {labels : LabelTable}

/-! ## Registers -/

/-- A register's spelling has no parenthesis in it. -/
theorem SpellsRegister.mem (h : SpellsRegister t n) {c : Char} (hc : c ∈ t) :
    c ≠ '(' ∧ c ≠ ')' := by
  obtain ⟨x, digits, rfl, hx, hd, -⟩ := h
  rcases List.mem_cons.1 hc with rfl | hmem
  · rcases hx with rfl | rfl <;> decide
  · have hdigit : Numeral.isDigit 10 c = true := by
      simp only [Numeral.isNumeral, Bool.and_eq_true, List.all_eq_true] at hd
      exact hd.2 c hmem
    constructor
    · rintro rfl; exact absurd hdigit (by decide)
    · rintro rfl; exact absurd hdigit (by decide)

theorem SpellsRegister.not_parenthesised (h : SpellsRegister t n) : ¬ t.Parenthesised := by
  rintro ⟨a, b, c, rfl⟩
  exact (h.mem (c := '(') (by simp)).1 rfl

theorem SpellsRegister.unique {m : Nat} (h : SpellsRegister t n) (k : SpellsRegister t m) : n = m := by
  obtain ⟨c, digits, rfl, -, -, rfl⟩ := h
  obtain ⟨c', digits', e, -, -, rfl⟩ := k
  cases e
  rfl

theorem register?_eq_some_iff {x : Nibble} :
    register? t = .ok (some x) ↔ SpellsRegister t x.toNat := by
  cases t with
  | nil => simp [register?, SpellsRegister]
  | cons c digits =>
    rw [register?]
    split
    · rename_i hcond
      simp only [Bool.and_eq_true, Bool.or_eq_true, beq_iff_eq] at hcond
      have hspell : SpellsRegister (c :: digits) x.toNat ↔ Numeral.value 10 digits = x.toNat := by
        constructor
        · rintro ⟨_, _, e, -, -, hv⟩
          rw [(List.cons.inj e).2, hv]
        · intro hv
          exact ⟨c, digits, rfl, hcond.1, hcond.2, hv⟩
      rw [hspell, eq_comm (b := x.toNat), ← Nibble.ofNat?_eq_some_iff]
      cases Nibble.ofNat? (Numeral.value 10 digits) <;> simp
    · rename_i hcond
      simp only [Bool.and_eq_true, Bool.or_eq_true, beq_iff_eq] at hcond
      simp only [Except.ok.injEq, reduceCtorEq, false_iff]
      rintro ⟨_, _, e, hc, hd, -⟩
      obtain ⟨rfl, rfl⟩ := List.cons.inj e
      exact hcond ⟨hc, hd⟩

theorem register?_eq_none_iff : register? t = .ok none ↔ ∀ n, ¬ SpellsRegister t n := by
  cases t with
  | nil => simp [register?, SpellsRegister]
  | cons c digits =>
    rw [register?]
    split
    · rename_i hcond
      simp only [Bool.and_eq_true, Bool.or_eq_true, beq_iff_eq] at hcond
      have hno : ¬ ∀ n, ¬ SpellsRegister (c :: digits) n := fun h =>
        h _ ⟨c, digits, rfl, hcond.1, hcond.2, rfl⟩
      simp only [hno, iff_false]
      cases Nibble.ofNat? (Numeral.value 10 digits) <;> simp
    · rename_i hcond
      simp only [Bool.and_eq_true, Bool.or_eq_true, beq_iff_eq] at hcond
      simp only [true_iff]
      rintro n ⟨_, _, e, hc, hd, -⟩
      obtain ⟨rfl, rfl⟩ := List.cons.inj e
      exact hcond ⟨hc, hd⟩

/-! ## Displaced addresses -/

theorem parenthesised_iff : t.Parenthesised ↔ (t.after '(').has ')' = true := by
  rw [Text.has_iff_mem]
  constructor
  · rintro ⟨a, b, c, rfl⟩
    -- the first opening parenthesis may stand before the one that is given
    by_cases ha : '(' ∈ a
    · have e := Text.before_append_after ha
      rw [← e, List.append_assoc, List.cons_append,
        Text.after_append_cons (Text.not_mem_before '(' a)]
      simp
    · rw [Text.after_append_cons ha]
      simp
  · intro h
    have hopen : '(' ∈ t := by
      by_contra hno
      rw [Text.after_of_not_mem hno] at h
      cases h
    exact ⟨t.before '(', (t.after '(').before ')', (t.after '(').after ')', by
      rw [Text.before_append_after h, Text.before_append_after hopen]⟩

theorem SpellsDisplaced.parenthesised (h : SpellsDisplaced t d n) : t.Parenthesised := by
  obtain ⟨r, rfl, -, -⟩ := h
  exact ⟨d, r, [], rfl⟩

/-- The displacement is what stands before the first opening parenthesis. -/
theorem SpellsDisplaced.before_eq (h : SpellsDisplaced t d n) : t.before '(' = d := by
  obtain ⟨r, rfl, hd, -⟩ := h
  exact Text.before_append_cons hd

theorem SpellsBase.eq_some {e : Option Text} {m : Nat} (h : SpellsBase t e m)
    (k : SpellsDisplaced t d n) (hd : d ≠ []) : e = some d := by
  cases h with
  | register h => exact absurd k.parenthesised h.not_parenthesised
  | bare h => exact absurd (k.before_eq.symm.trans h.before_eq) hd
  | displaced h => rw [← h.before_eq, k.before_eq]

theorem displaced?_eq_none_iff : displaced? t = .ok none ↔ ¬ t.Parenthesised := by
  rw [parenthesised_iff, displaced?]
  split
  · rename_i hp
    simp only [hp, not_true_eq_false, iff_false]
    split
    · simp
    · intro h
      obtain ⟨r, -, h⟩ := bind_eq_ok.1 h
      cases r <;> cases h
  · rename_i hp
    simp [hp]

theorem Encloses.parenthesised (h : Encloses t d r) : t.Parenthesised := ⟨d, r, [], h.1⟩

theorem Encloses.getLast? (h : Encloses t d r) : t.getLast? = some ')' := by
  rw [h.1, ← List.cons_append, ← List.append_assoc, List.getLast?_concat]

/-- There is one way to take a text apart into a displacement and what is enclosed. -/
theorem Encloses.unique {d' r' : Text} (h : Encloses t d r) (k : Encloses t d' r') :
    d = d' ∧ r = r' := by
  have hd : d = d' := by
    rw [← Text.before_append_cons h.2, ← h.1, k.1, Text.before_append_cons k.2]
  subst hd
  have hrest := List.append_cancel_left (h.1.symm.trans k.1)
  exact ⟨rfl, List.append_cancel_right (List.cons.inj hrest).2⟩

theorem SpellsDisplaced.unique {d' : Text} {m : Nat} (h : SpellsDisplaced t d n)
    (k : SpellsDisplaced t d' m) : n = m := by
  obtain ⟨r, ht, hd, hn⟩ := h
  obtain ⟨r', ht', hd', hm⟩ := k
  obtain ⟨-, rfl⟩ := Encloses.unique ⟨ht, hd⟩ ⟨ht', hd'⟩
  exact hn.unique hm

theorem SpellsBase.register_or_displaced {e : Option Text} (h : SpellsBase t e n) :
    SpellsRegister t n ∨ ∃ d, SpellsDisplaced t d n := by
  cases h with
  | register h => exact .inl h
  | bare h => exact .inr ⟨_, h⟩
  | displaced h => exact .inr ⟨_, h⟩

/-- A text spells one base register at most. -/
theorem SpellsBase.unique {e e' : Option Text} {m : Nat} (h : SpellsBase t e n)
    (k : SpellsBase t e' m) : n = m := by
  obtain h | ⟨d, h⟩ := h.register_or_displaced <;>
    obtain k | ⟨d', k⟩ := k.register_or_displaced
  · exact h.unique k
  · exact absurd k.parenthesised h.not_parenthesised
  · exact absurd h.parenthesised k.not_parenthesised
  · exact h.unique k

/-- A text with parentheses encloses what is between them, unless it goes on after them. -/
theorem exists_encloses (h : t.Parenthesised) (hlast : t.getLast? = some ')') :
    ∃ d r, Encloses t d r := by
  have hopen : '(' ∈ t := by
    obtain ⟨a, b, c, rfl⟩ := h
    simp
  have hne : t.after '(' ≠ [] := by
    intro hnil
    have hhas := parenthesised_iff.1 h
    rw [hnil] at hhas
    cases hhas
  -- the last character of the text is the last one after the opening parenthesis
  have hclose : (t.after '(').getLast? = some ')' := by
    rw [← Text.before_append_after hopen, List.append_cons,
      List.getLast?_append_of_ne_nil _ hne] at hlast
    exact hlast
  refine ⟨t.before '(', (t.after '(').dropLast, ?_, Text.not_mem_before '(' t⟩
  rw [List.dropLast_append_getLast? _ hclose, Text.before_append_after hopen]

/-- What is enclosed has to be a register. -/
theorem Encloses.displaced? (h : Encloses t d r) :
    displaced? t = register? r >>= fun
      | some base => .ok (some (.displaced d base))
      | none => .error (.malformed t .notRegisterInside) := by
  have hparenthesis := parenthesised_iff.1 h.parenthesised
  have hlast := h.getLast?
  obtain ⟨rfl, hd⟩ := h
  rw [Text.after_append_cons hd] at hparenthesis
  simp only [Operand.displaced?, Text.after_append_cons hd, Text.before_append_cons hd, hlast,
    hparenthesis, if_true, bne_self_eq_false, Bool.false_eq_true, if_false, List.dropLast_concat]
  rfl

theorem displaced?_of_getLast?_ne (h : t.Parenthesised) (hlast : t.getLast? ≠ some ')') :
    displaced? t = .error (.malformed t .textAfterAddress) := by
  rw [displaced?, if_pos (parenthesised_iff.1 h), if_pos (bne_iff_ne.2 hlast)]

theorem displaced?_eq_some_iff {o : Operand} :
    displaced? t = .ok (some o) ↔
      ∃ d x, o = .displaced d x ∧ SpellsDisplaced t d x.toNat := by
  constructor
  · intro h
    by_cases hparenthesis : t.Parenthesised
    · by_cases hlast : t.getLast? = some ')'
      · obtain ⟨d, r, hencloses⟩ := exists_encloses hparenthesis hlast
        rw [hencloses.displaced?] at h
        obtain ⟨x, hx, h⟩ := bind_eq_ok.1 h
        cases x with
        | none => cases h
        | some x =>
          cases h
          exact ⟨d, x, rfl, r, hencloses.1, hencloses.2, register?_eq_some_iff.1 hx⟩
      · rw [displaced?_of_getLast?_ne hparenthesis hlast] at h
        cases h
    · rw [displaced?_eq_none_iff.2 hparenthesis] at h
      cases h
  · rintro ⟨d, x, rfl, r, ht, hd, hr⟩
    rw [Encloses.displaced? ⟨ht, hd⟩, register?_eq_some_iff.2 hr]
    rfl

/-! ## Classification -/

theorem SpellsDisplaced.classify {x : Nibble} (h : SpellsDisplaced t d x.toNat) :
    classify labels t = .ok (.displaced d x) := by
  have hd : displaced? t = .ok (some (.displaced d x)) :=
    displaced?_eq_some_iff.2 ⟨d, x, rfl, h⟩
  rw [Operand.classify, hd]
  rfl

theorem SpellsRegister.classify {x : Nibble} (h : SpellsRegister t x.toNat) :
    classify labels t = .ok (.register x) := by
  have hd : displaced? t = .ok none := displaced?_eq_none_iff.2 h.not_parenthesised
  have hr : register? t = .ok (some x) := register?_eq_some_iff.2 h
  rw [Operand.classify, hd, hr]
  rfl

theorem SpellsPlain.classify (h : SpellsPlain t) :
    classify labels t = .ok (if labels.contains t then .label t else .immediate t) := by
  have hd : displaced? t = .ok none := displaced?_eq_none_iff.2 h.1
  have hr : register? t = .ok none := register?_eq_none_iff.2 h.2
  rw [Operand.classify, hd, hr]
  rfl

/-- An operand that is accepted is what its text spells. -/
theorem classify_eq_ok {o : Operand} (h : classify labels t = .ok o) :
    (∃ d x, o = .displaced d x ∧ SpellsDisplaced t d x.toNat) ∨
      (∃ x, o = .register x ∧ SpellsRegister t x.toNat) ∨
      ((o = .label t ∨ o = .immediate t) ∧ SpellsPlain t) := by
  rw [classify] at h
  obtain ⟨a, ha, h⟩ := bind_eq_ok.1 h
  cases a with
  | some a =>
    cases h
    exact .inl (displaced?_eq_some_iff.1 ha)
  | none =>
    obtain ⟨x, hx, h⟩ := bind_eq_ok.1 h
    cases x with
    | some x =>
      cases h
      exact .inr (.inl ⟨x, rfl, register?_eq_some_iff.1 hx⟩)
    | none =>
      refine .inr (.inr ⟨?_, displaced?_eq_none_iff.1 ha, register?_eq_none_iff.1 hx⟩)
      change Except.ok (if labels.contains t then Operand.label t else .immediate t) = .ok o at h
      split at h
      · exact .inl (Except.ok.inj h).symm
      · exact .inr (Except.ok.inj h).symm

end Operand
end Asm16
