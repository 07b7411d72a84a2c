-- SUMMARY: A bit pattern is read as the number it denotes if that fits a nibble, and is refused for one of two reasons if not.
import Asm16.Proofs.Description.Loading
import Asm16.Proofs.Text.Positional

/-!
# What bit patterns denote

A bit pattern denotes a number by its binary digits, of which there may be any number. It is read as that
number if a nibble holds it and is too wide if not. A text that denotes no number has no binary digits to
show. Reading looks at the digits twice more, to make a byte of them and to make a nibble of the byte; by
then neither can fail.
-/

namespace Asm16

namespace Pattern

/-- The text is a binary numeral of the number, after `0b` or `0B` if it has a mark. -/
inductive Denotes : Text → Nat → Prop where
  | numeral {mark digits n} : mark = [] ∨ mark = ['0', 'b'] ∨ mark = ['0', 'B'] →
      Numeral.Denotes 2 digits n → Denotes (mark ++ digits) n

variable {bits : Text} {n : Nat}

theorem denotes_iff : Denotes bits n ↔ Spells bits n := by
  constructor
  · rintro ⟨hmark, hd⟩
    obtain ⟨hnumeral, rfl⟩ := (Numeral.denotes_iff (by decide)).1 hd
    rcases hmark with rfl | rfl | rfl
    · exact .plain hnumeral
    · exact .marked (.inl rfl) hnumeral
    · exact .marked (.inr rfl) hnumeral
  · rintro (hd | ⟨rfl | rfl, hd⟩)
    · exact .numeral (.inl rfl) ((Numeral.denotes_iff (by decide)).2 ⟨hd, rfl⟩)
    · exact .numeral (.inr (.inl rfl)) ((Numeral.denotes_iff (by decide)).2 ⟨hd, rfl⟩)
    · exact .numeral (.inr (.inr rfl)) ((Numeral.denotes_iff (by decide)).2 ⟨hd, rfl⟩)

/-- Reading ends at a nibble or at one of the two checks of the text. -/
theorem ending_cases (bits : Text) :
    (∃ x, ending bits = .nibble x) ∨ ending bits = .notBinary ∨ ending bits = .tooWide := by
  by_cases hspells : ∃ n, Spells bits n
  · obtain ⟨n, hn⟩ := hspells
    rw [hn.ending]
    split
    · exact .inl ⟨_, rfl⟩
    · exact .inr (.inr rfl)
  · exact .inr (.inl (ending_of_not_spells (not_exists.1 hspells)))

end Pattern

namespace Declaration

variable {bits : Text} {x : Nibble} {why : Pattern.Fault}

theorem nibble_eq_ok_iff : nibble bits = .ok x ↔ Pattern.Denotes bits x.toNat := by
  rw [Pattern.denotes_iff, ← Pattern.parse_eq_ok_iff, nibble]
  cases Pattern.parse bits <;> simp

theorem nibble_eq_error_iff : nibble bits = .error (.badBits bits why) ↔ Pattern.Fails bits why := by
  constructor
  · intro h
    obtain hnibble | ⟨fault, hfails⟩ := Pattern.isNibble_or_fails bits
    · obtain ⟨x, hx⟩ := Pattern.exists_of_isNibble hnibble
      rw [nibble_of_spells hx] at h
      cases h
    · rw [nibble_of_fails hfails] at h
      cases h
      exact hfails
  · exact nibble_of_fails

/-- A bit pattern is read as a number exactly if it denotes the number and that is fifteen at most. It does
not fit exactly if it denotes a greater one, and digits are missed exactly if it denotes none. Reading never
ends where a byte is made of the digits or a nibble of the byte. -/
theorem nibble_denotes (bits : Text) :
    (∀ n, (∃ x : Nibble, nibble bits = .ok x ∧ x.toNat = n) ↔ Pattern.Denotes bits n ∧ n ≤ 15) ∧
    ((∃ why, nibble bits = .error (.badBits bits why) ∧ why.reason = "does not fit in a nibble") ↔
      ∃ n, Pattern.Denotes bits n ∧ 15 < n) ∧
    ((∃ why, nibble bits = .error (.badBits bits why) ∧ why.reason = "expected binary digits") ↔
      ∀ n, ¬ Pattern.Denotes bits n) ∧
    Pattern.ending bits ≠ .noByte ∧ Pattern.ending bits ≠ .noNibble := by
  simp only [nibble_eq_ok_iff, nibble_eq_error_iff]
  refine ⟨fun n => ⟨?_, ?_⟩, ⟨?_, ?_⟩, ⟨?_, ?_⟩, ?_⟩
  · rintro ⟨x, hx, rfl⟩
    exact ⟨hx, Nat.le_of_lt_succ x.isLt⟩
  · rintro ⟨h, hn⟩
    obtain ⟨x, rfl⟩ := Nibble.exists_toNat_eq hn
    exact ⟨x, h, rfl⟩
  · rintro ⟨_, h | ⟨h, hn⟩, hreason⟩
    · exact absurd hreason (by decide)
    · exact ⟨_, Pattern.denotes_iff.2 h, hn⟩
  · rintro ⟨n, h, hn⟩
    exact ⟨.tooWide, .tooWide (Pattern.denotes_iff.1 h) hn, rfl⟩
  · rintro ⟨_, h | ⟨h, hn⟩, hreason⟩
    · exact fun n hn => h n (Pattern.denotes_iff.1 hn)
    · exact absurd hreason (by decide)
  · intro h
    exact ⟨.notBinary, .notBinary fun n hn => h n (Pattern.denotes_iff.2 hn), rfl⟩
  · obtain ⟨x, h⟩ | h | h := Pattern.ending_cases bits <;> simp [h]

/-- Zeros in front do not count, however many, and a second mark is no digit. -/
example : nibble "0B00000001010".toList = .ok 10 ∧
    nibble "0b0b1".toList = .error (.badBits "0b0b1".toList .notBinary) := by decide

end Declaration
end Asm16
