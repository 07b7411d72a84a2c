-- SUMMARY: What an instruction reads off its operands, and that encoding is reading and then finishing.
import Asm16.Program.Encoding
import Asm16.Proofs.Operand.Spelling

/-!
# Reading operands

`Instruction.encode` classifies, checks, resolves and packs in one go. It splits in two. Operands
are read by their spelling alone, which gives the fields of the instruction word and the text of an
immediate, if there is one. The labels and the address come in only after that, when the immediate is
resolved and the words are finished. A relation between encodings under different label tables or at
different addresses is thus a relation between the values of one immediate.
-/

namespace Asm16

open Operand

/-- The width of an immediate: a nibble of a single word, or the second of two. -/
def Cycles.width : Cycles → Width
  | one => .nibble
  | two => .word

namespace Instruction

/-- The operands have the form the instruction asks for. They give the fields, with zero for an
immediate, and the text of the immediate: the second operand in format U, the displacement of the
second operand in formats S and J. A displacement needs an instruction of two cycles. -/
inductive Reads (i : Instruction) : List Text → Fields → Option Text → Prop where
  | r {a b c x y z} :
      i.format = .r →
      SpellsRegister a x.toNat → SpellsRegister b y.toNat → SpellsRegister c z.toNat →
      Reads i [a, b, c] ⟨i.opcode, x, y, z⟩ none
  | s {func1 a b x y d} :
      i.format = .s func1 →
      SpellsRegister a x.toNat → SpellsBase b d y.toNat → (d.isSome → i.cycles = .two) →
      Reads i [a, b] ⟨i.opcode, func1, x, y⟩ d
  | u {func2 a t x} :
      i.format = .u func2 →
      SpellsRegister a x.toNat → SpellsPlain t →
      Reads i [a, t] ⟨i.opcode, x, func2, 0⟩ (some t)
  | j {func3 a b x y d} :
      i.format = .j func3 →
      SpellsRegister a x.toNat → SpellsBase b d y.toNat → (d.isSome → i.cycles = .two) →
      Reads i [a, b] ⟨i.opcode, x, y, func3⟩ d

/-- The text stands where the instruction takes an immediate from: it is the second operand in format
U, or the displacement of the second operand, and not empty, in formats S and J. -/
inductive Takes (i : Instruction) : List Text → Text → Prop where
  | u {func2 a t} : i.format = .u func2 → Takes i [a, t] t
  | s {func1 a b d n} : i.format = .s func1 → SpellsDisplaced b d n → d ≠ [] → Takes i [a, b] d
  | j {func3 a b d n} : i.format = .j func3 → SpellsDisplaced b d n → d ≠ [] → Takes i [a, b] d

/-- The words that hold fields and an immediate, given by its text and value. The value goes into
field three of a single word, or into the second of two. -/
def emit (i : Instruction) (fields : Fields) : Option (Text × Word) → Word × Option ImmediateWord
  | none =>
    match i.cycles with
    | .one => (fields.pack, none)
    | .two => (fields.pack, some .zero)
  | some (t, v) =>
    match i.cycles with
    | .one => ({ fields with three := .truncate v.toNat }.pack, none)
    | .two => (fields.pack, some ⟨v, t⟩)

/-- The words of an instruction from what it reads off its operands. -/
def finish (i : Instruction) (fields : Fields) (source : Option Text) (ctx : Context) :
    Except OperandError (Word × Option ImmediateWord) :=
  match source with
  | none => .ok (i.emit fields none)
  | some t => (Immediate.resolve t i.cycles.width ctx).map fun v => i.emit fields (some (t, v))

end Instruction

/-! ## Arguments -/

namespace Argument

/-- The operand of the argument is the one its text is classified as. -/
def Classified (labels : LabelTable) (a : Argument) : Prop :=
  Operand.classify labels a.text = .ok a.operand

variable {labels : LabelTable} {a : Argument} {t : Text} {x : Nibble} {d : Option Text}

theorem ofTexts_eq_ok {operands : List Text} {args : List Argument} :
    (operands.mapM fun t => return Argument.mk t (← Operand.classify labels t)) = .ok args ↔
      operands = args.map Argument.text ∧ ∀ a ∈ args, a.Classified labels := by
  have hstep : ∀ (t : Text) (a : Argument),
      (do return Argument.mk t (← Operand.classify labels t)) = Except.ok (ε := OperandError) a ↔
        t = a.text ∧ a.Classified labels := by
    intro t a
    rw [bind_eq_ok]
    constructor
    · rintro ⟨o, ho, h⟩
      cases h
      exact ⟨rfl, ho⟩
    · rintro ⟨rfl, ho⟩
      exact ⟨a.operand, ho, rfl⟩
  simp only [mapM_eq_ok, hstep]
  induction args generalizing operands with
  | nil => simp
  | cons a args ih => cases operands <;> simp [ih, and_assoc, and_left_comm]

theorem spellsRegister_of_register (hc : a.Classified labels) (h : a.register = .ok x) :
    SpellsRegister a.text x.toNat := by
  obtain ⟨d, y, e, hd⟩ | ⟨y, e, hy⟩ | ⟨e | e, hp⟩ := classify_eq_ok hc <;>
    simp only [register, e, reduceCtorEq, Except.ok.injEq] at h
  exact h ▸ hy

theorem spellsBase_of_base (hc : a.Classified labels) (h : a.base = .ok (x, d)) :
    SpellsBase a.text (d.filter (!·.isEmpty)) x.toNat := by
  obtain ⟨d, y, e, hd⟩ | ⟨y, e, hy⟩ | ⟨e | e, hp⟩ := classify_eq_ok hc <;>
    simp only [base, e, reduceCtorEq, Except.ok.injEq, Prod.mk.injEq] at h
  · obtain ⟨rfl, rfl⟩ := h
    cases d with
    | nil => exact .bare hd
    | cons c d => exact .displaced hd (List.cons_ne_nil c d)
  · obtain ⟨rfl, rfl⟩ := h
    exact .register hy

theorem spellsPlain_of_immediate (hc : a.Classified labels) (h : a.immediate = .ok t) :
    t = a.text ∧ SpellsPlain a.text := by
  obtain ⟨d, y, e, hd⟩ | ⟨y, e, hy⟩ | ⟨e | e, hp⟩ := classify_eq_ok hc <;>
    simp only [immediate, e, reduceCtorEq, Except.ok.injEq] at h
  all_goals exact ⟨h.symm, hp⟩

theorem exists_base_of_spellsBase (labels : LabelTable) (h : SpellsBase t d x.toNat) :
    ∃ o e, (Argument.mk t o).Classified labels ∧ (Argument.mk t o).base = .ok (x, e) ∧
      e.filter (!·.isEmpty) = d := by
  cases h with
  | register h => exact ⟨.register x, none, h.classify, rfl, rfl⟩
  | bare h => exact ⟨.displaced [] x, some [], h.classify, rfl, rfl⟩
  | displaced h hd =>
    refine ⟨.displaced _ x, some _, h.classify, rfl, ?_⟩
    rw [Option.filter_some, if_pos]
    simpa using hd

theorem exists_immediate_of_spellsPlain (labels : LabelTable) (h : SpellsPlain t) :
    ∃ o, (Argument.mk t o).Classified labels ∧ (Argument.mk t o).immediate = .ok t := by
  refine ⟨_, h.classify, ?_⟩
  cases labels.contains t <;> rfl

/-- A displacement is resolved under two cycles and refused under one. -/
theorem displacement_eq (a : Argument) (d : Option Text) (c : Cycles) (ctx : Context) :
    a.displacement d c ctx =
      match d.filter (!·.isEmpty), c with
      | none, .one => .ok none
      | some _, .one => .error (.malformed a.text .displacementOnOneCycle)
      | none, .two => .ok (some .zero)
      | some t, .two => (Immediate.resolve t .word ctx).map fun v => some ⟨v, t⟩ := by
  match d, c with
  | none, .one | none, .two | some [], .one | some [], .two | some (_ :: _), .one => rfl
  | some (c :: t), .two =>
    simp only [displacement, Option.getD_some, Option.filter_some, List.isEmpty_cons,
      Bool.not_false, if_true]
    cases Immediate.resolve (c :: t) .word ctx <;> rfl

end Argument

/-! ## Encoding -/

namespace Instruction

variable {i : Instruction} {operands : List Text} {labels : LabelTable} {here : Address}
  {fields : Fields} {source : Option Text}

/-- The words for packed fields: under two cycles there is always a second one. -/
private def padded (i : Instruction) (p : Fields × Option ImmediateWord) :
    Except OperandError (Word × Option ImmediateWord) :=
  match i.cycles with
  | .one => .ok (p.1.pack, none)
  | .two => .ok (p.1.pack, some (p.2.getD .zero))

private theorem encode_of_args {args : List Argument}
    (h : ∀ a ∈ args, a.Classified labels) :
    i.encode (args.map Argument.text) labels here =
      i.fields args ⟨labels, i.addressing, here⟩ >>= i.padded := by
  rw [encode, Argument.ofTexts_eq_ok.2 ⟨rfl, h⟩]
  rfl

/-- Formats S and J end alike: the displacement that was read is finished. -/
private theorem padded_displacement {a : Argument} {d e : Option Text} {ctx : Context}
    (he : e.filter (!·.isEmpty) = d) (hd : d.isSome → i.cycles = .two) :
    ((a.displacement e i.cycles ctx >>= fun second => pure (fields, second)) >>= i.padded) =
      i.finish fields d ctx := by
  rw [Argument.displacement_eq, he]
  cases d with
  | none =>
    unfold finish emit padded
    cases i.cycles <;> rfl
  | some t =>
    unfold finish emit padded Cycles.width
    rw [hd rfl]
    dsimp only
    cases Immediate.resolve t .word ctx <;> rfl

/-- Operands that can be read are encoded by finishing what was read. -/
theorem Reads.encode (h : i.Reads operands fields source) :
    i.encode operands labels here = i.finish fields source ⟨labels, i.addressing, here⟩ := by
  cases h with
  | @r a b c x y z hf ha hb hc =>
    have hargs : ∀ arg ∈ [Argument.mk a (.register x), ⟨b, .register y⟩, ⟨c, .register z⟩],
        arg.Classified labels := by
      simpa using ⟨ha.classify, hb.classify, hc.classify⟩
    refine (encode_of_args hargs).trans ?_
    simp only [Instruction.fields, hf, Argument.register, ok_bind]
    unfold finish emit padded
    cases i.cycles <;> rfl
  | @s _ a b x y _ hf ha hb hd =>
    obtain ⟨o, e, hclass, hbase, he⟩ := Argument.exists_base_of_spellsBase labels hb
    have hargs : ∀ arg ∈ [Argument.mk a (.register x), ⟨b, o⟩], arg.Classified labels := by
      simpa using ⟨ha.classify, hclass⟩
    refine (encode_of_args hargs).trans ?_
    simp only [Instruction.fields, hf, hbase, Argument.register, ok_bind]
    exact padded_displacement he hd
  | @u _ a t x hf ha ht =>
    obtain ⟨o, hclass, himm⟩ := Argument.exists_immediate_of_spellsPlain labels ht
    have hargs : ∀ arg ∈ [Argument.mk a (.register x), ⟨t, o⟩], arg.Classified labels := by
      simpa using ⟨ha.classify, hclass⟩
    refine (encode_of_args hargs).trans ?_
    simp only [Instruction.fields, hf, himm, Argument.register, ok_bind]
    unfold finish emit padded Cycles.width
    cases i.cycles with
    | one =>
      dsimp only
      cases Immediate.resolve t .nibble ⟨labels, i.addressing, here⟩ <;> rfl
    | two =>
      dsimp only
      cases Immediate.resolve t .word ⟨labels, i.addressing, here⟩ <;> rfl
  | @j _ a b x y _ hf ha hb hd =>
    obtain ⟨o, e, hclass, hbase, he⟩ := Argument.exists_base_of_spellsBase labels hb
    have hargs : ∀ arg ∈ [Argument.mk a (.register x), ⟨b, o⟩], arg.Classified labels := by
      simpa using ⟨ha.classify, hclass⟩
    refine (encode_of_args hargs).trans ?_
    simp only [Instruction.fields, hf, hbase, Argument.register, ok_bind]
    exact padded_displacement he hd

/-- A displacement that was taken is empty or stands under two cycles. -/
private theorem cycles_of_displacement {a : Argument} {d : Option Text} {c : Cycles}
    {ctx : Context} {second : Option ImmediateWord} (h : a.displacement d c ctx = .ok second) :
    (d.filter (!·.isEmpty)).isSome → c = .two := by
  rw [Argument.displacement_eq] at h
  intro hd
  obtain ⟨t, ht⟩ := Option.isSome_iff_exists.1 hd
  rw [ht] at h
  cases c with
  | one => cases h
  | two => rfl

/-- Operands that are encoded can be read. -/
theorem exists_reads_of_encode {p : Word × Option ImmediateWord}
    (h : i.encode operands labels here = .ok p) :
    ∃ fields source, i.Reads operands fields source := by
  rw [encode] at h
  obtain ⟨args, hargs, h⟩ := bind_eq_ok.1 h
  obtain ⟨q, hq, -⟩ := bind_eq_ok.1 h
  obtain ⟨rfl, hclass⟩ := Argument.ofTexts_eq_ok.1 hargs
  clear h hargs
  unfold Instruction.fields at hq
  split at hq
  case h_1 a b c hf =>
    obtain ⟨x, hx, hq⟩ := bind_eq_ok.1 hq
    obtain ⟨y, hy, hq⟩ := bind_eq_ok.1 hq
    obtain ⟨z, hz, -⟩ := bind_eq_ok.1 hq
    exact ⟨_, _, .r hf (Argument.spellsRegister_of_register (hclass a (by simp)) hx)
      (Argument.spellsRegister_of_register (hclass b (by simp)) hy)
      (Argument.spellsRegister_of_register (hclass c (by simp)) hz)⟩
  case h_2 func1 a b hf =>
    obtain ⟨⟨y, d⟩, hy, hq⟩ := bind_eq_ok.1 hq
    obtain ⟨x, hx, hq⟩ := bind_eq_ok.1 hq
    obtain ⟨second, hd, -⟩ := bind_eq_ok.1 hq
    exact ⟨_, _, .s hf (Argument.spellsRegister_of_register (hclass a (by simp)) hx)
      (Argument.spellsBase_of_base (hclass b (by simp)) hy) (cycles_of_displacement hd)⟩
  case h_3 func2 a b hf =>
    obtain ⟨t, ht, hq⟩ := bind_eq_ok.1 hq
    obtain ⟨x, hx, -⟩ := bind_eq_ok.1 hq
    obtain ⟨-, hplain⟩ := Argument.spellsPlain_of_immediate (hclass b (by simp)) ht
    exact ⟨_, _, .u hf (Argument.spellsRegister_of_register (hclass a (by simp)) hx) hplain⟩
  case h_4 func3 a b hf =>
    obtain ⟨⟨y, d⟩, hy, hq⟩ := bind_eq_ok.1 hq
    obtain ⟨x, hx, hq⟩ := bind_eq_ok.1 hq
    obtain ⟨second, hd, -⟩ := bind_eq_ok.1 hq
    exact ⟨_, _, .j hf (Argument.spellsRegister_of_register (hclass a (by simp)) hx)
      (Argument.spellsBase_of_base (hclass b (by simp)) hy) (cycles_of_displacement hd)⟩
  case h_5 => cases hq
  case h_6 => cases hq

theorem encode_eq_ok_iff {p : Word × Option ImmediateWord} :
    i.encode operands labels here = .ok p ↔
      ∃ fields source, i.Reads operands fields source ∧
        i.finish fields source ⟨labels, i.addressing, here⟩ = .ok p := by
  constructor
  · intro h
    obtain ⟨fields, source, hr⟩ := exists_reads_of_encode h
    exact ⟨fields, source, hr, hr.encode.symm.trans h⟩
  · rintro ⟨fields, source, hr, h⟩
    exact hr.encode.trans h

/-- In every format the first operand is a register. -/
theorem Reads.exists_register (h : i.Reads operands fields source) :
    ∃ a rest n, operands = a :: rest ∧ SpellsRegister a n := by
  cases h with
  | r _ ha _ _ => exact ⟨_, _, _, rfl, ha⟩
  | s _ ha _ _ => exact ⟨_, _, _, rfl, ha⟩
  | u _ ha _ => exact ⟨_, _, _, rfl, ha⟩
  | j _ ha _ _ => exact ⟨_, _, _, rfl, ha⟩

/-- There is a second word exactly under two cycles. -/
theorem emit_cycles (i : Instruction) (fields : Fields) (v : Option (Text × Word)) :
    (if (i.emit fields v).2.isSome then Cycles.two else .one) = i.cycles := by
  unfold emit
  cases v <;> cases i.cycles <;> rfl

/-- What is finished holds the value that the text of the immediate resolves to. -/
theorem finish_eq_ok {ctx : Context} {p : Word × Option ImmediateWord}
    (h : i.finish fields source ctx = .ok p) :
    (source = none ∧ p = i.emit fields none) ∨
      ∃ t v, source = some t ∧ Immediate.resolve t i.cycles.width ctx = .ok v ∧
        p = i.emit fields (some (t, v)) := by
  cases source with
  | none => exact .inl ⟨rfl, (Except.ok.inj h).symm⟩
  | some t =>
    obtain ⟨v, hv, rfl⟩ := map_eq_ok.1 h
    exact .inr ⟨t, v, rfl, hv, rfl⟩

theorem finish_cycles {ctx : Context} {p : Word × Option ImmediateWord}
    (h : i.finish fields source ctx = .ok p) :
    (if p.2.isSome then Cycles.two else .one) = i.cycles := by
  obtain ⟨-, rfl⟩ | ⟨t, v, -, -, rfl⟩ := finish_eq_ok h
  · exact emit_cycles i fields none
  · exact emit_cycles i fields _

/-- An immediate stands at the start of the second operand. -/
theorem Takes.exists_append {t : Text} (h : i.Takes operands t) : ∃ a u, operands = [a, t ++ u] := by
  cases h with
  | u hf => exact ⟨_, [], by rw [List.append_nil]⟩
  | s hf h hd =>
    obtain ⟨r, rfl, -, -⟩ := h
    exact ⟨_, _, rfl⟩
  | j hf h hd =>
    obtain ⟨r, rfl, -, -⟩ := h
    exact ⟨_, _, rfl⟩

theorem Takes.ne_nil {t : Text} (h : i.Takes operands t) (hoperands : ∀ b ∈ operands, b ≠ []) :
    t ≠ [] := by
  cases h with
  | u hf => exact hoperands _ (by simp)
  | s hf h hd => exact hd
  | j hf h hd => exact hd

/-- What is read as the text of an immediate is what stands in its place. -/
theorem Reads.takes_iff {t : Text} (h : i.Reads operands fields source) :
    i.Takes operands t ↔ source = some t := by
  constructor
  · intro ht
    cases h with
    | r hf => cases ht
    | s hf _ hb _ =>
      cases ht with
      | u hf' => cases hf.symm.trans hf'
      | s hf' ht hd => exact hb.eq_some ht hd
      | j hf' => cases hf.symm.trans hf'
    | u hf _ _ =>
      cases ht with
      | u hf' => rfl
      | s hf' => cases hf.symm.trans hf'
      | j hf' => cases hf.symm.trans hf'
    | j hf _ hb _ =>
      cases ht with
      | u hf' => cases hf.symm.trans hf'
      | s hf' => cases hf.symm.trans hf'
      | j hf' ht hd => exact hb.eq_some ht hd
  · rintro rfl
    cases h with
    | s hf _ hb _ =>
      cases hb with
      | displaced ht hd => exact .s hf ht hd
    | u hf _ _ => exact .u hf
    | j hf _ hb _ =>
      cases hb with
      | displaced ht hd => exact .j hf ht hd

end Instruction

/-! ## Lines -/

namespace Line

/-- The first word of the text names the instruction, and the others are its operands. -/
def Invokes (l : Line) (catalog : Catalog) (i : Instruction) (operands : List Text) : Prop :=
  ∃ name, l.text.words = name :: operands ∧ catalog.lookup? name = some i

variable {l : Line} {catalog : Catalog} {labels : LabelTable} {here : Address} {i : Instruction}
  {operands : List Text}

theorem Invokes.unique {j : Instruction} {others : List Text} (h : l.Invokes catalog i operands)
    (k : l.Invokes catalog j others) : i = j ∧ operands = others := by
  obtain ⟨name, hwords, hi⟩ := h
  obtain ⟨other, hwords', hj⟩ := k
  obtain ⟨rfl, rfl⟩ := List.cons.inj (hwords.symm.trans hwords')
  exact ⟨Option.some.inj (hi.symm.trans hj), rfl⟩

theorem Invokes.encode (h : l.Invokes catalog i operands) :
    l.encode catalog labels here =
      match i.encode operands labels here with
      | .error e => .error (.operand e)
      | .ok p => .ok ⟨here, p.1, p.2, l⟩ := by
  obtain ⟨name, hwords, hi⟩ := h
  unfold Line.encode
  rw [hwords]
  dsimp only
  rw [hi]
  dsimp only
  cases i.encode operands labels here <;> rfl

/-- A line that is encoded invokes an instruction whose operands are read and finished. -/
theorem encode_eq_ok_iff {e : Encoding} :
    l.encode catalog labels here = .ok e ↔
      ∃ i operands fields source p, l.Invokes catalog i operands ∧
        i.Reads operands fields source ∧
        i.finish fields source ⟨labels, i.addressing, here⟩ = .ok p ∧
        e = ⟨here, p.1, p.2, l⟩ := by
  constructor
  · intro h
    unfold Line.encode at h
    split at h
    · cases h
    · rename_i name operands hwords
      split at h
      · cases h
      · rename_i i hi
        split at h
        · cases h
        · rename_i word second he
          obtain ⟨fields, source, hr, hf⟩ := Instruction.encode_eq_ok_iff.1 he
          exact ⟨i, operands, fields, source, (word, second), ⟨name, hwords, hi⟩, hr, hf,
            (Except.ok.inj h).symm⟩
  · rintro ⟨i, operands, fields, source, p, hi, hr, hf, rfl⟩
    rw [hi.encode, hr.encode, hf]

/-- A line is encoded by its text, whatever its number. -/
theorem encode_of_text_eq {k : Line} (h : k.text = l.text) :
    k.encode catalog labels here =
      (l.encode catalog labels here).map fun e => { e with line := k } := by
  unfold Line.encode
  rw [h]
  cases l.text.words with
  | nil => rfl
  | cons name operands =>
    dsimp only
    cases catalog.lookup? name with
    | none => rfl
    | some i =>
      dsimp only
      cases i.encode operands labels here <;> rfl

end Line
end Asm16
