-- SUMMARY: Values of immediates are residues of their width; a label's is that of its address or distance.
import Asm16.Program.Immediate
import Asm16.Proofs.Except
import Mathlib.Algebra.Order.Ring.Int

/-!
# Values of immediates

Whatever an immediate is resolved from, its value is the residue of a number in the width it is
resolved to. For a literal the number is in the text. For a label it is the address, or the distance
of the address from the instruction, which leads back to the address modulo the width and is exact
where it fits as a signed number.
-/

namespace Asm16

/-! ## Residues -/

namespace Width

theorem modulus_eq (w : Width) : w.modulus = 2 ^ w.bits := by
  cases w <;> rfl

theorem wrap_lt (w : Width) (n : Int) : (w.wrap n).toNat < w.modulus := by
  have h := w.toNat_wrap n
  have hpos : (0 : Int) < w.modulus := by cases w <;> decide
  have hlt := Int.emod_lt_of_pos n hpos
  omega

theorem wrap_congr {w : Width} {m n : Int} (h : m % w.modulus = n % w.modulus) :
    w.wrap m = w.wrap n := by
  rw [wrap, wrap, h]

theorem toNat_wrap_natCast (w : Width) (n : Nat) : (w.wrap n).toNat = n % 2 ^ w.bits := by
  have h := w.toNat_wrap n
  rw [← modulus_eq]
  omega

/-- The residue of a number is the word with that remainder. -/
theorem eq_wrap_iff (w : Width) {v : Word} {n : Int} :
    v = w.wrap n ↔ (v.toNat : Int) = n % 2 ^ w.bits := by
  have hwrap : ((w.wrap n).toNat : Int) = n % 2 ^ w.bits := by
    rw [w.toNat_wrap, w.modulus_eq, Nat.cast_pow, Nat.cast_ofNat]
  rw [← hwrap, Nat.cast_inj, BitVec.toNat_inj]

/-- A word that fits the width is its own residue. -/
theorem wrap_toNat {w : Width} {v : Word} (h : v.toNat < w.modulus) : w.wrap v.toNat = v := by
  apply BitVec.eq_of_toNat_eq
  rw [toNat_wrap_natCast, ← modulus_eq, Nat.mod_eq_of_lt h]

/-- A distance leads back to where it was measured to. -/
theorem add_wrap_sub (w : Width) (a p : Nat) :
    (p + (w.wrap (a - p)).toNat) % 2 ^ w.bits = a % 2 ^ w.bits := by
  have h := w.toNat_wrap (a - p)
  rw [← modulus_eq]
  cases w <;> simp only [modulus] at h ⊢ <;> omega

/-- A number that fits as a signed one is read back from its residue. -/
theorem toInt_wrap {w : Width} {n : Int} (hle : -2 ^ (w.bits - 1) ≤ n)
    (hlt : n < 2 ^ (w.bits - 1)) : ((w.wrap n).setWidth w.bits).toInt = n := by
  rw [BitVec.toInt_setWidth, toNat_wrap, modulus_eq, Int.emod_bmod]
  cases w with
  | nibble =>
    simp only [bits, digits] at hle hlt ⊢
    exact Int.bmod_eq_of_le (by omega) (by omega)
  | word =>
    simp only [bits, digits] at hle hlt ⊢
    exact Int.bmod_eq_of_le (by omega) (by omega)

end Width

/-- A value of a nibble's width is not cut when it is put into a field. -/
theorem Nibble.setWidth_truncate {v : Word} (h : v.toNat < 16) :
    (Nibble.truncate v.toNat).setWidth 16 = v := by
  apply BitVec.eq_of_toNat_eq
  simp only [truncate, BitVec.toNat_setWidth, BitVec.toNat_ofNat]
  omega

/-! ## Resolution -/

namespace Immediate

variable {raw : Text} {w : Width} {ctx : Context} {v : Word}

theorem resolve_of_label {address : Address} (h : ctx.labels.get? raw = some address) :
    resolve raw w ctx = reference raw address w ctx := by
  rw [resolve, h]

theorem resolve_of_not_label (h : ctx.labels.get? raw = none) :
    resolve raw w ctx = literal raw w := by
  rw [resolve, h]

theorem resolve_of_contains_eq_false (h : ctx.labels.contains raw = false) :
    resolve raw w ctx = literal raw w :=
  resolve_of_not_label (by simpa [LabelTable.contains] using h)

theorem exists_wrap_of_unsigned {digits : Text} {base : Nat} {why : Malformation}
    (h : unsigned raw digits base why w = .ok v) : ∃ n, v = w.wrap n := by
  rw [unsigned] at h
  split at h
  · cases h
  · split at h
    · exact ⟨_, (Except.ok.inj h).symm⟩
    · cases h

theorem exists_wrap_of_signed (h : signed raw w = .ok v) : ∃ n, v = w.wrap n := by
  rw [signed] at h
  dsimp only at h
  split at h
  · cases h
  · -- the sign plays no part here
    generalize (if (unsign raw).1 = true then -(Numeral.value 10 (unsign raw).2 : Int)
      else Numeral.value 10 (unsign raw).2) = n at h
    split at h
    · exact ⟨n, (Except.ok.inj h).symm⟩
    · cases h

theorem exists_wrap_of_reference {address : Address} (h : reference raw address w ctx = .ok v) :
    ∃ n, v = w.wrap n := by
  rw [reference] at h
  split at h
  · exact ⟨_, (Except.ok.inj h).symm⟩
  · exact ⟨_, (Except.ok.inj h).symm⟩
  · cases h

theorem exists_wrap_of_resolve (h : resolve raw w ctx = .ok v) : ∃ n, v = w.wrap n := by
  rw [resolve] at h
  split at h
  · exact exists_wrap_of_reference h
  · unfold literal at h
    split at h
    · exact exists_wrap_of_unsigned h
    · exact exists_wrap_of_unsigned h
    · exact exists_wrap_of_unsigned h
    · exact exists_wrap_of_unsigned h
    · exact exists_wrap_of_signed h

/-- A value fits the width it is resolved to. -/
theorem resolve_lt (h : resolve raw w ctx = .ok v) : v.toNat < w.modulus := by
  obtain ⟨n, rfl⟩ := exists_wrap_of_resolve h
  exact w.wrap_lt n

end Immediate
end Asm16
