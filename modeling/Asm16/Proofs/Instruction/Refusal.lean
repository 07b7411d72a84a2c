-- SUMMARY: Why an instruction refuses its operands: every error names one of them, or the instruction itself if they are the wrong number.
import Asm16.Proofs.Immediate.Denotation
import Asm16.Proofs.Instruction.Reading
import Asm16.Proofs.Operand.Classification

/-!
# Refusals

Operands are refused in many places, and each of them makes its error from another piece of text: an operand
as it stands, the register within it, its displacement, or the mnemonic as the catalog spells it. `Blames`
has one constructor for each such place and says what is the case there. Every error of `Instruction.encode`
is one of these.
-/

namespace Asm16

open Operand

/-- The number of operands that a format asks for. -/
def Format.arity : Format → Nat
  | r => 3
  | s _ | u _ | j _ => 2

/-- What is said of another number of operands. -/
def Format.wrongCount : Format → Malformation
  | r => .notThreeOperands
  | s _ | u _ | j _ => .notTwoOperands

namespace Instruction

/-- The text names a number that does not fit a field of so many bits: that of a register, alone or in
parentheses, or that of an immediate, which is held in a nibble of a single word or in the second of two. -/
inductive Exceeds (i : Instruction) (operands : List Text) (t : Text) : Nat → Prop where
  | register {u n} : u ∈ operands → (t = u ∨ ∃ d, Encloses u d t) → DenotesRegister t n → 15 < n →
      Exceeds i operands t 4
  | nibble {func2 n} : i.cycles = .one → i.format = .u func2 → i.Takes operands t →
      Immediate.Denotes t n → ¬ Width.nibble.Holds n → Exceeds i operands t 4
  | word {n} : i.cycles = .two → i.Takes operands t → Immediate.Denotes t n →
      ¬ Width.word.Holds n → Exceeds i operands t 16

/-- What the error of an instruction says of its operands. -/
inductive Blames (i : Instruction) (labels : LabelTable) (operands : List Text) : OperandError → Prop where
  /-- An operand looks like a displaced address and is none. -/
  | address {t why} : t ∈ operands → t.Parenthesised →
      why ∈ [Malformation.textAfterAddress, .notRegisterInside] → Blames i labels operands (.malformed t why)
  /-- The operands are too many or too few. -/
  | count : operands.length ≠ i.format.arity →
      Blames i labels operands (.malformed i.mnemonic i.format.wrongCount)
  /-- An operand has a form that does not belong in its place. -/
  | form {t why} : t ∈ operands →
      why ∈ [Malformation.notRegister, .notBase, .notImmediate, .displacementOnOneCycle] →
      Blames i labels operands (.malformed t why)
  /-- The immediate is a label, and the instruction has no addressing mode for it. -/
  | mode {t} : i.Takes operands t → labels.contains t = true → i.addressing = none →
      Blames i labels operands (.noAddressingMode t)
  /-- The immediate is neither a label nor a literal. -/
  | literal {t why} : i.Takes operands t → labels.contains t = false → (∀ n, ¬ Immediate.Denotes t n) →
      why ∈ [Malformation.notHexadecimal, .notBinary, .notLiteral] →
      Blames i labels operands (.malformed t why)
  /-- A register or an immediate is out of range. -/
  | range {t w} : i.Exceeds operands t w.bits → Blames i labels operands (.outOfRange t w)

end Instruction

/-! ## Immediates -/

namespace Immediate

variable {raw digits : Text} {base : Nat} {w : Width} {ctx : Context} {e : OperandError}

theorem unsigned_eq_error {why : Malformation} (h : unsigned raw digits base why w = .error e) :
    e = .malformed raw why ∨ e = .outOfRange raw w := by
  unfold unsigned at h
  split at h
  · exact .inl (Except.error.inj h).symm
  · split at h
    · cases h
    · exact .inr (Except.error.inj h).symm

theorem signed_eq_error (h : signed raw w = .error e) :
    e = .malformed raw .notLiteral ∨ e = .outOfRange raw w := by
  unfold signed at h
  dsimp only at h
  split at h
  · exact .inl (Except.error.inj h).symm
  · generalize (if (unsign raw).1 then _ else _ : Int) = n at h
    split at h
    · cases h
    · exact .inr (Except.error.inj h).symm

theorem literal_eq_error (h : literal raw w = .error e) :
    (∃ why ∈ [Malformation.notHexadecimal, .notBinary, .notLiteral], e = .malformed raw why) ∨
      e = .outOfRange raw w := by
  unfold literal at h
  split at h
  case h_5 => exact (signed_eq_error h).imp_left fun he => ⟨_, by simp, he⟩
  -- the four prefixes differ in the base and in what is missed
  all_goals exact (unsigned_eq_error h).imp_left fun he => ⟨_, by simp, he⟩

/-- What the error of an immediate says of its text. -/
theorem resolve_eq_error (h : resolve raw w ctx = .error e) :
    (ctx.labels.contains raw = true ∧ ctx.addressing = none ∧ e = .noAddressingMode raw) ∨
      ctx.labels.contains raw = false ∧
        ((∀ n, ¬ Denotes raw n) ∧
          (∃ why ∈ [Malformation.notHexadecimal, .notBinary, .notLiteral], e = .malformed raw why) ∨
        ∃ n, Denotes raw n ∧ ¬ w.Holds n ∧ e = .outOfRange raw w) := by
  cases hlabel : ctx.labels.contains raw with
  | true =>
    left
    obtain ⟨a, ha⟩ := Option.isSome_iff_exists.1 hlabel
    rw [resolve_of_label ha, reference] at h
    split at h
    · cases h
    · cases h
    · rename_i hmode
      exact ⟨rfl, hmode, (Except.error.inj h).symm⟩
  | false =>
    refine .inr ⟨rfl, ?_⟩
    by_cases hdenotes : ∃ n, Denotes raw n
    · obtain ⟨n, hn⟩ := hdenotes
      rw [hn.resolve hlabel] at h
      split at h
      · cases h
      · rename_i hfits
        exact .inr ⟨n, hn, hfits, (Except.error.inj h).symm⟩
    · have hnone := not_exists.1 hdenotes
      obtain ⟨why, hmalformed⟩ := resolve_of_not_denotes (w := w) hnone hlabel
      rw [resolve_of_contains_eq_false hlabel] at h hmalformed
      rw [hmalformed] at h
      obtain hwhy | hrange := literal_eq_error hmalformed
      · exact .inl ⟨hnone, Except.error.inj h ▸ hwhy⟩
      · cases hrange

end Immediate

/-! ## Arguments -/

namespace Argument

variable {a : Argument} {e : OperandError}

theorem register_eq_error (h : a.register = .error e) : e = .malformed a.text .notRegister := by
  unfold register at h
  split at h
  · cases h
  · exact (Except.error.inj h).symm

theorem base_eq_error (h : a.base = .error e) : e = .malformed a.text .notBase := by
  unfold base at h
  split at h
  · cases h
  · cases h
  · exact (Except.error.inj h).symm

theorem immediate_eq_error (h : a.immediate = .error e) : e = .malformed a.text .notImmediate := by
  unfold immediate at h
  split at h
  · cases h
  · cases h
  · exact (Except.error.inj h).symm

/-- What the error of a displacement says of it. -/
theorem displacement_eq_error {d : Option Text} {c : Cycles} {ctx : Context}
    (h : a.displacement d c ctx = .error e) :
    e = .malformed a.text .displacementOnOneCycle ∨
      ∃ t, d.filter (!·.isEmpty) = some t ∧ c = .two ∧ Immediate.resolve t .word ctx = .error e := by
  rw [displacement_eq] at h
  split at h
  · cases h
  · exact .inl (Except.error.inj h).symm
  · cases h
  · rename_i t hd
    refine .inr ⟨t, hd, rfl, ?_⟩
    cases hresolve : Immediate.resolve t .word ctx with
    | ok v => rw [hresolve] at h; cases h
    | error why => rw [hresolve] at h; exact congrArg _ (Except.error.inj h)

end Argument

/-! ## Instructions -/

namespace Instruction

variable {i : Instruction} {labels : LabelTable} {operands : List Text} {args : List Argument}
  {here : Address} {e : OperandError} {t : Text}

/-- An operand that is not classified is blamed, whole or for the register within it. -/
theorem blames_of_classify (ht : t ∈ operands) (h : Operand.classify labels t = .error e) :
    i.Blames labels operands e := by
  cases classify_eq_iff.1 h with
  | baseOutOfRange he hr hn =>
    exact .range (.register ht (.inr ⟨_, he⟩) (denotesRegister_iff.2 hr) hn)
  | registerOutOfRange hr hn => exact .range (.register ht (.inl rfl) (denotesRegister_iff.2 hr) hn)
  | textAfterAddress hp hno => exact .address ht hp (by simp)
  | notRegisterInside he hr => exact .address ht he.parenthesised (by simp)

/-- An immediate that is not resolved is blamed as a label, for its form or for its range. -/
theorem blames_of_resolve (ht : i.Takes operands t)
    (hplace : i.cycles = .one → ∃ func2, i.format = .u func2)
    (h : Immediate.resolve t i.cycles.width ⟨labels, i.addressing, here⟩ = .error e) :
    i.Blames labels operands e := by
  obtain ⟨hlabel, hmode, rfl⟩ | ⟨hlabel, ⟨hno, why, hwhy, rfl⟩ | ⟨n, hn, hfits, rfl⟩⟩ :=
    Immediate.resolve_eq_error h
  · exact .mode ht hlabel hmode
  · exact .literal ht hlabel hno hwhy
  · refine .range ?_
    cases hcycles : i.cycles with
    | one =>
      obtain ⟨func2, hformat⟩ := hplace hcycles
      rw [hcycles] at hfits
      exact .nibble hcycles hformat ht hn hfits
    | two =>
      rw [hcycles] at hfits
      exact .word hcycles ht hn hfits

theorem blames_of_register {a : Argument} (ha : a.text ∈ operands) (h : a.register = .error e) :
    i.Blames labels operands e := by
  rw [Argument.register_eq_error h]
  exact .form ha (by simp)

/-- In formats S and J the second operand is blamed as a base, the first as a register, and then the second
again for its displacement. -/
theorem blames_of_base {a b : Argument} {f : Nibble → Nibble → Fields}
    (hb : b.Classified labels)
    (htakes : ∀ t n, SpellsDisplaced b.text t n → t ≠ [] → i.Takes [a.text, b.text] t)
    (h : (do
      let (x, d) ← b.base
      let y ← a.register
      let second ← b.displacement d i.cycles ⟨labels, i.addressing, here⟩
      return (f y x, second)) = .error e) :
    i.Blames labels [a.text, b.text] e := by
  obtain h | ⟨⟨x, d⟩, hbase, h⟩ := bind_eq_error.1 h
  · rw [Argument.base_eq_error h]
    exact .form (t := b.text) (by simp) (by simp)
  obtain h | ⟨y, -, h⟩ := bind_eq_error.1 h
  · exact blames_of_register (by simp) h
  obtain h | ⟨second, -, h⟩ := bind_eq_error.1 h
  · obtain rfl | ⟨t, ht, htwo, h⟩ := Argument.displacement_eq_error h
    · exact .form (t := b.text) (by simp) (by simp)
    · have hspells := Argument.spellsBase_of_base hb hbase
      rw [ht] at hspells
      cases hspells with
      | displaced hd hne =>
        refine blames_of_resolve (htakes t _ hd hne) (fun hone => ?_) (by rw [htwo]; exact h)
        cases htwo.symm.trans hone
  · cases h

/-- In format U the second operand is blamed for its form, the first as a register, and then the second
again for its value. -/
theorem blames_of_immediate {a b : Argument} {func2 : Nibble} (hf : i.format = .u func2)
    (hb : b.Classified labels) (h : i.fields [a, b] ⟨labels, i.addressing, here⟩ = .error e) :
    i.Blames labels [a.text, b.text] e := by
  simp only [Instruction.fields, hf] at h
  obtain h | ⟨raw, hraw, h⟩ := bind_eq_error.1 h
  · rw [Argument.immediate_eq_error h]
    exact .form (t := b.text) (by simp) (by simp)
  obtain h | ⟨x, -, h⟩ := bind_eq_error.1 h
  · exact blames_of_register (by simp) h
  obtain ⟨rfl, -⟩ := Argument.spellsPlain_of_immediate hb hraw
  suffices hresolve : Immediate.resolve b.text i.cycles.width ⟨labels, i.addressing, here⟩ = .error e from
    blames_of_resolve (.u hf) (fun _ => ⟨func2, hf⟩) hresolve
  unfold Cycles.width
  cases hcycles : i.cycles
  all_goals
    rw [hcycles] at h
    obtain h | ⟨v, -, h⟩ := bind_eq_error.1 h
    · exact h
    · cases h

theorem fields_of_length_ne {ctx : Context} (h : args.length ≠ i.format.arity) :
    i.fields args ctx = .error (.malformed i.mnemonic i.format.wrongCount) := by
  unfold Instruction.fields
  cases hf : i.format
  all_goals
    rw [hf] at h
    split <;> simp_all [Format.arity, Format.wrongCount]

/-- Arguments that make no fields are blamed for their number, or in the way of the format. -/
theorem blames_of_fields (hargs : ∀ a ∈ args, a.Classified labels)
    (h : i.fields args ⟨labels, i.addressing, here⟩ = .error e) :
    i.Blames labels (args.map Argument.text) e := by
  by_cases hcount : args.length = i.format.arity
  · cases hf : i.format with
    | r =>
      rw [hf] at hcount
      obtain ⟨a, b, c, rfl⟩ := List.length_eq_three.1 hcount
      simp only [Instruction.fields, hf] at h
      obtain h | ⟨x, -, h⟩ := bind_eq_error.1 h
      · exact blames_of_register (by simp) h
      obtain h | ⟨y, -, h⟩ := bind_eq_error.1 h
      · exact blames_of_register (by simp) h
      obtain h | ⟨z, -, h⟩ := bind_eq_error.1 h
      · exact blames_of_register (by simp) h
      · cases h
    | s func1 =>
      rw [hf] at hcount
      obtain ⟨a, b, rfl⟩ := List.length_eq_two.1 hcount
      simp only [Instruction.fields, hf] at h
      exact blames_of_base (f := fun y x => ⟨i.opcode, func1, y, x⟩) (hargs b (by simp))
        (fun _ _ => .s hf) h
    | u func2 =>
      rw [hf] at hcount
      obtain ⟨a, b, rfl⟩ := List.length_eq_two.1 hcount
      exact blames_of_immediate hf (hargs b (by simp)) h
    | j func3 =>
      rw [hf] at hcount
      obtain ⟨a, b, rfl⟩ := List.length_eq_two.1 hcount
      simp only [Instruction.fields, hf] at h
      exact blames_of_base (f := fun y x => ⟨i.opcode, y, x, func3⟩) (hargs b (by simp))
        (fun _ _ => .j hf) h
  · rw [fields_of_length_ne hcount] at h
    cases h
    exact .count (by rwa [List.length_map])

/-- Every error of an instruction blames its operands, or their number. -/
theorem blames_of_encode (h : i.encode operands labels here = .error e) :
    i.Blames labels operands e := by
  rw [encode] at h
  obtain h | ⟨args, hargs, h⟩ := bind_eq_error.1 h
  · obtain ⟨t, ht, h⟩ := exists_of_mapM_eq_error h
    obtain h | ⟨o, -, h⟩ := bind_eq_error.1 h
    · exact blames_of_classify ht h
    · cases h
  · obtain hfields | ⟨p, -, h⟩ := bind_eq_error.1 h
    · obtain ⟨rfl, hclass⟩ := Argument.ofTexts_eq_ok.1 hargs
      exact blames_of_fields hclass hfields
    · dsimp only at h
      cases hcycles : i.cycles <;> rw [hcycles] at h <;> cases h

end Instruction
end Asm16
