-- SUMMARY: Immediates written in hexadecimal: as many digits as the width has, and the same value when they are read.
import Asm16.Proofs.Immediate.Literal
import Asm16.Proofs.Text.Digits

/-!
# Immediates in hexadecimal

Whatever an immediate is, its value fits the width it is resolved to, so the width's digits show all of
it. With `0x` in front they are a literal, which has the value they were written for. A label may be
spelled like the literal; then the literal is not read.
-/

namespace Asm16
namespace Immediate

variable {raw t : Text} {w : Width} {ctx : Context} {v : Word} {c : Char}

theorem length_shown (w : Width) (v : Word) : (shown w v).length = w.digits :=
  Numeral.length_digits 16 w.digits _

theorem mem_shown (h : c ∈ shown w v) : c ∈ "0123456789ABCDEF".toList :=
  Numeral.mem_of_mem_digits_sixteen h

theorem value_shown (h : v.toNat < w.modulus) : Numeral.value 16 (shown w v) = v.toNat := by
  have hpow : w.modulus = 16 ^ w.digits := by cases w <;> rfl
  rw [shown, Numeral.value_digits (by decide) (by decide), Nat.mod_eq_of_lt (hpow ▸ h)]

theorem isNumeral_shown (w : Width) (v : Word) : Numeral.isNumeral 16 (shown w v) = true := by
  have hne : shown w v ≠ [] := by
    intro hnil
    have hlength := length_shown w v
    rw [hnil] at hlength
    cases w <;> cases hlength
  have hall : ("0123456789ABCDEF".toList.all (Numeral.isDigit 16)) = true := by decide
  have hdigits : ∀ c ∈ shown w v, Numeral.isDigit 16 c = true := fun c hc =>
    List.all_eq_true.1 hall c (mem_shown hc)
  simpa [Numeral.isNumeral, hne] using hdigits

/-- The digits of a value, read as a literal, are the value. -/
theorem literal_shown (h : v.toNat < w.modulus) : literal ('0' :: 'x' :: shown w v) w = .ok v := by
  have hspells := SpellsLiteral.hexadecimal (.inl rfl) (isNumeral_shown w v)
  have hfits : w.Holds v.toNat := by
    unfold Width.Holds
    cases w <;> simp only [Width.modulus, Width.bits, Width.digits] at h ⊢ <;> omega
  rw [hspells.literal, value_shown h, if_pos hfits, Width.wrap_toNat h]

/-- The literal that shows the value of an immediate resolves to the same value, if it is no label. -/
theorem resolve_shown (h : resolve raw w ctx = .ok v)
    (hlabel : ctx.labels.contains ('0' :: 'x' :: shown w v) = false) :
    resolve ('0' :: 'x' :: shown w v) w ctx = .ok v := by
  rw [resolve_of_contains_eq_false hlabel, literal_shown (resolve_lt h)]

end Immediate
end Asm16
