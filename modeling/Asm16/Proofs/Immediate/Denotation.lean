-- SUMMARY: A literal is accepted if the number it denotes fits the width, and its value is that number's residue.
import Asm16.Proofs.Immediate.Literal
import Asm16.Proofs.Text.Positional

/-!
# What literals denote

A literal denotes a number in the usual notation, by any number of digits. Where its text is no label,
it is resolved to the residue of the number if that fits the width and it is out of range if not. A text
that denotes no number is malformed. Neither the addressing mode nor the address matters.
-/

namespace Asm16

namespace Immediate

/-- The text is a literal of the number: a hexadecimal numeral after `0x` or `0X`, a binary one after
`0b` or `0B`, or a decimal one after at most one sign. -/
inductive Denotes : Text → Int → Prop where
  | hexadecimal {x digits n} : x = 'x' ∨ x = 'X' → Numeral.Denotes 16 digits n →
      Denotes ('0' :: x :: digits) n
  | binary {b digits n} : b = 'b' ∨ b = 'B' → Numeral.Denotes 2 digits n →
      Denotes ('0' :: b :: digits) n
  | positive {sign digits n} : sign = [] ∨ sign = ['+'] → Numeral.Denotes 10 digits n →
      Denotes (sign ++ digits) n
  | negative {digits n} : Numeral.Denotes 10 digits n → Denotes ('-' :: digits) (-n)

variable {raw : Text} {w : Width} {ctx : Context} {n : Int} {v : Word}

theorem denotes_iff : Denotes raw n ↔ SpellsLiteral raw n := by
  constructor
  · intro h
    cases h with
    | hexadecimal hx hd =>
      obtain ⟨hnumeral, rfl⟩ := (Numeral.denotes_iff (by decide)).1 hd
      exact .hexadecimal hx hnumeral
    | binary hb hd =>
      obtain ⟨hnumeral, rfl⟩ := (Numeral.denotes_iff (by decide)).1 hd
      exact .binary hb hnumeral
    | positive hsign hd =>
      obtain ⟨hnumeral, rfl⟩ := (Numeral.denotes_iff (by decide)).1 hd
      rcases hsign with rfl | rfl
      · exact .decimal hnumeral
      · exact .positive hnumeral
    | negative hd =>
      obtain ⟨hnumeral, rfl⟩ := (Numeral.denotes_iff (by decide)).1 hd
      exact .negative hnumeral
  · intro h
    cases h with
    | hexadecimal hx hd => exact .hexadecimal hx ((Numeral.denotes_iff (by decide)).2 ⟨hd, rfl⟩)
    | binary hb hd => exact .binary hb ((Numeral.denotes_iff (by decide)).2 ⟨hd, rfl⟩)
    | decimal hd => exact .positive (.inl rfl) ((Numeral.denotes_iff (by decide)).2 ⟨hd, rfl⟩)
    | positive hd => exact .positive (.inr rfl) ((Numeral.denotes_iff (by decide)).2 ⟨hd, rfl⟩)
    | negative hd => exact .negative ((Numeral.denotes_iff (by decide)).2 ⟨hd, rfl⟩)

/-! ## Resolution -/

theorem Denotes.resolve (h : Denotes raw n) (hraw : ctx.labels.contains raw = false) :
    resolve raw w ctx = if w.Holds n then .ok (w.wrap n) else .error (.outOfRange raw w) := by
  rw [resolve_of_contains_eq_false hraw]
  exact (denotes_iff.1 h).literal

theorem resolve_of_not_denotes (h : ∀ n, ¬ Denotes raw n) (hraw : ctx.labels.contains raw = false) :
    ∃ why, resolve raw w ctx = .error (.malformed raw why) := by
  rw [resolve_of_contains_eq_false hraw]
  exact literal_of_not_spells fun n hn => h n (denotes_iff.2 hn)

/-- A text that is no label is resolved exactly if it denotes a number that fits the width, to the residue
of the number. It is out of range exactly if it denotes one that does not fit, and malformed exactly if it
denotes none. -/
theorem resolve_unlabelled (w : Width) (hraw : ctx.labels.contains raw = false) :
    (∀ v, resolve raw w ctx = .ok v ↔
      ∃ n, Denotes raw n ∧ w.Holds n ∧ (v.toNat : Int) = n % 2 ^ w.bits) ∧
    (resolve raw w ctx = .error (.outOfRange raw w) ↔ ∃ n, Denotes raw n ∧ ¬ w.Holds n) ∧
    ((∃ why, resolve raw w ctx = .error (.malformed raw why)) ↔ ∀ n, ¬ Denotes raw n) := by
  by_cases hdenotes : ∃ n, Denotes raw n
  · obtain ⟨n, hn⟩ := hdenotes
    have hresolve := fun m (hm : Denotes raw m) => hm.resolve (w := w) hraw
    refine ⟨fun v => ⟨fun h => ⟨n, hn, ?_⟩, ?_⟩, ⟨fun h => ⟨n, hn, ?_⟩, ?_⟩, ?_,
      fun h => absurd hn (h n)⟩
    · rw [hresolve n hn] at h
      split at h
      · rename_i hfits
        exact ⟨hfits, w.eq_wrap_iff.1 (Except.ok.inj h).symm⟩
      · cases h
    · rintro ⟨m, hm, hfits, hv⟩
      rw [hresolve m hm, if_pos hfits, w.eq_wrap_iff.2 hv]
    · intro hfits
      rw [hresolve n hn, if_pos hfits] at h
      cases h
    · rintro ⟨m, hm, hfits⟩
      rw [hresolve m hm, if_neg hfits]
    · rintro ⟨why, h⟩
      rw [hresolve n hn] at h
      split at h <;> cases h
  · have hnone := not_exists.1 hdenotes
    obtain ⟨why, herror⟩ := resolve_of_not_denotes (w := w) hnone hraw
    rw [herror]
    exact ⟨by simp [hnone], by simp [hnone], fun _ => hnone, fun _ => ⟨why, rfl⟩⟩

/-- Zeros in front do not count, however many, and the last negative number of a word is no number of a
nibble. -/
theorem resolve_unlabelled_zeros :
    let ctx : Context := ⟨⟨[("loop".toList, 4)], by decide⟩, some .relative, 6⟩
    let raw := "-000000000000000000000000032768".toList
    ctx.labels.contains raw = false ∧ resolve raw .word ctx = .ok 0x8000 ∧
      (∃ n, Denotes raw n ∧ Width.word.Holds n ∧ ((0x8000 : Word).toNat : Int) = n % 2 ^ 16) ∧
      ∃ n, Denotes raw n ∧ ¬ Width.nibble.Holds n := by
  intro ctx raw
  have hraw : ctx.labels.contains raw = false := rfl
  have hword : resolve raw .word ctx = .ok 0x8000 := rfl
  have hnibble : resolve raw .nibble ctx = .error (.outOfRange raw .nibble) := rfl
  exact ⟨hraw, hword, ((resolve_unlabelled .word hraw).1 0x8000).1 hword,
    (resolve_unlabelled .nibble hraw).2.1.1 hnibble⟩

end Immediate
end Asm16
