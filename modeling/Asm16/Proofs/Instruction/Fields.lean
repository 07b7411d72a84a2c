-- SUMMARY: The fields of an instruction word hold the numbers of the instruction and its operands, none of them cut.
import Asm16.Proofs.Catalog.Sample
import Asm16.Proofs.Description.Script
import Asm16.Proofs.Immediate.Value
import Asm16.Proofs.Instruction.Reading

/-!
# Fields

A field takes four bits of what it is given. The numbers that are given come from four places: the
steps that built the catalog, the registers among the operands, the immediate of a single word, and
the zero that stands for an immediate in a second word. `Entry.Gives` reads them off there, where they
may be of any size. They are found in the fields as they are, so each of them fits a field, and no bit
of them was dropped.
-/

namespace Asm16

open Operand

variable {catalog : Catalog} {labels : LabelTable} {here : Address} {l : Line} {e : Encoding}
  {i : Instruction} {entry : Entry Nat} {groups : List Nat} {operands : List Text} {fields : Fields}
  {source : Option Text} {ctx : Context} {p : Word × Option ImmediateWord}

/-- Numbers for the fields of an instruction word. -/
structure Numbers where
  opcode : Nat
  one : Nat
  two : Nat
  three : Nat

/-- The numbers that an entry among open groups and the operands give for the fields. Outside of any
group the opcode is that of the entry, and within one it is that of the innermost group. The immediate
of format U gives its value under one cycle, and zero under two, where it has a word of its own. -/
inductive Entry.Gives (entry : Entry Nat) (ctx : Context) :
    List Nat → List Text → Numbers → Prop where
  | r {a b c opcode one two three} :
      entry.opcode = some opcode →
      SpellsRegister a one → SpellsRegister b two → SpellsRegister c three →
      Gives entry ctx [] [a, b, c] ⟨opcode, one, two, three⟩
  | s {a b d opcode outer func1 two three} :
      entry.slot = some (.func1, func1) →
      SpellsRegister a two → SpellsBase b d three →
      Gives entry ctx (opcode :: outer) [a, b] ⟨opcode, func1, two, three⟩
  | u {a t opcode outer func2 one v} :
      entry.slot = some (.func2, func2) → entry.cycles = .one →
      SpellsRegister a one → Immediate.resolve t .nibble ctx = .ok v →
      Gives entry ctx (opcode :: outer) [a, t] ⟨opcode, one, func2, v.toNat⟩
  | wide {a t opcode outer func2 one} :
      entry.slot = some (.func2, func2) → entry.cycles = .two →
      SpellsRegister a one →
      Gives entry ctx (opcode :: outer) [a, t] ⟨opcode, one, func2, 0⟩
  | j {a b d opcode outer func3 one two} :
      entry.slot = some (.func3, func3) →
      SpellsRegister a one → SpellsBase b d two →
      Gives entry ctx (opcode :: outer) [a, b] ⟨opcode, one, two, func3⟩

namespace Encoding

/-- The number in a field of the instruction word. -/
def number (e : Encoding) (f : Field) : Nat := (f.decode e.word).toNat

/-- The numbers in the fields of the instruction word. -/
def numbers (e : Encoding) : Numbers :=
  ⟨e.number .opcode, e.number .one, e.number .two, e.number .three⟩

/-- The second word has the value of the immediate that is given for it. It is zero, if there is one
at all, where none is given. -/
def HoldsSecond (e : Encoding) (source : Option Text) (ctx : Context) : Prop :=
  match source with
  | none => ∀ second ∈ e.immediate, second.value = 0
  | some t => ∃ second, e.immediate = some second ∧
      Immediate.resolve t .word ctx = .ok second.value

/-- The operands and the code of the format are in the fields that the format calls for. -/
def HoldsFields (e : Encoding) (i : Instruction) (operands : List Text) (ctx : Context) : Prop :=
  match i.format, operands with
  | .r, [a, b, c] => SpellsRegister a (e.number .one) ∧ SpellsRegister b (e.number .two) ∧
      SpellsRegister c (e.number .three) ∧ e.HoldsSecond none ctx
  | .s func1, [a, b] => e.number .one = func1.toNat ∧ SpellsRegister a (e.number .two) ∧
      ∃ d, SpellsBase b d (e.number .three) ∧ e.HoldsSecond d ctx
  | .u func2, [a, t] => SpellsRegister a (e.number .one) ∧ e.number .two = func2.toNat ∧
      match i.cycles with
      | .one => ∃ v, Immediate.resolve t .nibble ctx = .ok v ∧ e.number .three = v.toNat
      | .two => e.number .three = 0 ∧ e.HoldsSecond (some t) ctx
  | .j func3, [a, b] => SpellsRegister a (e.number .one) ∧
      (∃ d, SpellsBase b d (e.number .two) ∧ e.HoldsSecond d ctx) ∧
      e.number .three = func3.toNat
  | _, _ => False

/-- The encoding holds the numbers of an instruction and its operands, each in the field that the
format calls for. -/
structure Carries (e : Encoding) (i : Instruction) (operands : List Text) (ctx : Context) : Prop
    where
  opcode : e.number .opcode = i.opcode.toNat
  fields : e.HoldsFields i operands ctx
  /-- There is a second word exactly under two cycles. -/
  second : e.immediate.isSome = true ↔ i.cycles = .two
  /-- An entry that declares the instruction gives numbers with the operands. -/
  given : ∀ (entry : Entry Nat) (groups : List Nat), entry.Declares groups i →
    ∃ n, entry.Gives ctx groups operands n
  /-- The numbers that are given make the word up without being cut to a nibble. -/
  whole : ∀ (entry : Entry Nat) (groups : List Nat) (n : Numbers), entry.Declares groups i →
    entry.Gives ctx groups operands n →
    e.word.toNat = n.opcode + 16 * n.one + 256 * n.two + 4096 * n.three
  /-- None of the numbers that are given exceeds a nibble. -/
  fit : ∀ (entry : Entry Nat) (groups : List Nat) (n : Numbers), entry.Declares groups i →
    entry.Gives ctx groups operands n →
    n.opcode ≤ 15 ∧ n.one ≤ 15 ∧ n.two ≤ 15 ∧ n.three ≤ 15

/-! ## Numbers in a word -/

theorem number_le (e : Encoding) (f : Field) : e.number f ≤ 15 :=
  Nat.le_of_lt_succ (f.decode e.word).isLt

theorem word_eq (e : Encoding) :
    e.word.toNat = e.number .opcode + 16 * e.number .one + 256 * e.number .two +
      4096 * e.number .three := by
  have hlt := e.word.isLt
  simp only [number, Field.decode, Field.shift, Field.place, BitVec.toNat_setWidth,
    BitVec.toNat_ushiftRight, Nat.shiftRight_eq_div_pow]
  omega

theorem number_of_pack (h : e.word = fields.pack) (f : Field) :
    e.number f = (fields.get f).toNat := by
  simp only [number, h, Fields.decode_pack]

/-! ## What is finished -/

/-- Where an immediate stands in a second word, the first one has the fields that were read. -/
theorem holdsSecond_of_finish (h : i.finish fields source ctx = .ok p)
    (hsource : source.isSome → i.cycles = .two) :
    p.1 = fields.pack ∧ HoldsSecond ⟨here, p.1, p.2, l⟩ source ctx := by
  obtain ⟨rfl, rfl⟩ | ⟨t, v, rfl, hv, rfl⟩ := Instruction.finish_eq_ok h
  · unfold Instruction.emit HoldsSecond
    cases i.cycles with
    | one =>
      refine ⟨rfl, ?_⟩
      intro second hsecond
      cases hsecond
    | two =>
      refine ⟨rfl, ?_⟩
      intro second hsecond
      cases hsecond
      rfl
  · have htwo : i.cycles = .two := hsource rfl
    have hemit : i.emit fields (some (t, v)) = (fields.pack, some ⟨v, t⟩) := by
      simp only [Instruction.emit, htwo]
    rw [htwo] at hv
    rw [hemit]
    exact ⟨rfl, _, rfl, hv⟩

/-- In a single word the immediate stands in field three. -/
theorem number_of_finish_one {t : Text} (h : i.finish fields (some t) ctx = .ok p)
    (hone : i.cycles = .one) :
    ∃ v, Immediate.resolve t .nibble ctx = .ok v ∧ v.toNat ≤ 15 ∧
      p.1 = { fields with three := .truncate v.toNat }.pack := by
  obtain ⟨v, hv, rfl⟩ := map_eq_ok.1 h
  rw [hone] at hv
  refine ⟨v, hv, Nat.le_of_lt_succ (Immediate.resolve_lt hv), ?_⟩
  simp only [Instruction.emit, hone]

/-- What is read and finished is in the fields. -/
theorem holdsFields_of_finish (hr : i.Reads operands fields source)
    (hf : i.finish fields source ctx = .ok p) :
    number ⟨here, p.1, p.2, l⟩ .opcode = i.opcode.toNat ∧
      HoldsFields ⟨here, p.1, p.2, l⟩ i operands ctx := by
  -- all but a single word's immediate is packed as it was read
  have hpacked : (source.isSome → i.cycles = .two) →
      (∀ f, number ⟨here, p.1, p.2, l⟩ f = (fields.get f).toNat) ∧
        HoldsSecond ⟨here, p.1, p.2, l⟩ source ctx := by
    intro hsource
    obtain ⟨hword, hholds⟩ := holdsSecond_of_finish hf hsource
    exact ⟨number_of_pack hword, hholds⟩
  unfold HoldsFields
  cases hr with
  | r hformat ha hb hc =>
    obtain ⟨hnumber, hholds⟩ := hpacked (by simp)
    refine ⟨hnumber .opcode, ?_⟩
    simp only [hformat, hnumber]
    exact ⟨ha, hb, hc, hholds⟩
  | s hformat ha hb hd =>
    obtain ⟨hnumber, hholds⟩ := hpacked hd
    refine ⟨hnumber .opcode, ?_⟩
    simp only [hformat, hnumber]
    exact ⟨rfl, ha, _, hb, hholds⟩
  | u hformat ha ht =>
    cases hc : i.cycles with
    | one =>
      obtain ⟨v, hv, hle, hword⟩ := number_of_finish_one hf hc
      have hnumber : ∀ f, number ⟨here, p.1, p.2, l⟩ f = _ := number_of_pack hword
      refine ⟨hnumber .opcode, ?_⟩
      have hthree : (Nibble.truncate v.toNat).toNat = v.toNat := by
        rw [Nibble.truncate, BitVec.toNat_ofNat]
        omega
      simp only [hformat, hnumber]
      exact ⟨ha, rfl, v, hv, hthree⟩
    | two =>
      obtain ⟨hnumber, hholds⟩ := hpacked fun _ => hc
      refine ⟨hnumber .opcode, ?_⟩
      simp only [hformat, hnumber]
      exact ⟨ha, rfl, rfl, hholds⟩
  | j hformat ha hb hd =>
    obtain ⟨hnumber, hholds⟩ := hpacked hd
    refine ⟨hnumber .opcode, ?_⟩
    simp only [hformat, hnumber]
    exact ⟨ha, ⟨_, hb, hholds⟩, rfl⟩

/-! ## What is given -/

/-- The numbers in the fields are given. -/
theorem gives_numbers (hopcode : e.number .opcode = i.opcode.toNat)
    (hfields : e.HoldsFields i operands ctx) (h : entry.Declares groups i) :
    entry.Gives ctx groups operands e.numbers := by
  unfold numbers
  rw [hopcode]
  unfold HoldsFields at hfields
  split at hfields
  case h_1 a b c hf =>
    obtain ⟨rfl, ho⟩ := h.of_r hf
    obtain ⟨ha, hb, hc, -⟩ := hfields
    exact .r ho ha hb hc
  case h_2 func1 a b hf =>
    obtain ⟨outer, rfl, hs⟩ := h.of_slot (k := .func1) hf
    obtain ⟨hcode, ha, d, hb, -⟩ := hfields
    rw [hcode]
    exact .s hs ha hb
  case h_3 func2 a t hf =>
    obtain ⟨outer, rfl, hs⟩ := h.of_slot (k := .func2) hf
    obtain ⟨ha, hcode, hvalue⟩ := hfields
    rw [hcode]
    cases hc : i.cycles with
    | one =>
      rw [hc] at hvalue
      obtain ⟨v, hv, hthree⟩ := hvalue
      rw [hthree]
      exact .u hs (h.cycles.trans hc) ha hv
    | two =>
      rw [hc] at hvalue
      rw [hvalue.1]
      exact .wide hs (h.cycles.trans hc) ha
  case h_4 func3 a b hf =>
    obtain ⟨outer, rfl, hs⟩ := h.of_slot (k := .func3) hf
    obtain ⟨ha, ⟨d, hb, -⟩, hcode⟩ := hfields
    rw [hcode]
    exact .j hs ha hb
  case h_5 => cases hfields

/-- No other numbers are given. -/
theorem eq_numbers_of_gives {n : Numbers} (hopcode : e.number .opcode = i.opcode.toNat)
    (hfields : e.HoldsFields i operands ctx) (h : entry.Declares groups i)
    (hgives : entry.Gives ctx groups operands n) : n = e.numbers := by
  unfold numbers
  rw [hopcode]
  unfold HoldsFields at hfields
  cases hgives with
  | r ho ha hb hc =>
    obtain ⟨hopcode', hf⟩ := h.numbers
    cases ho.symm.trans hopcode'
    simp only [hf] at hfields
    obtain ⟨ka, kb, kc, -⟩ := hfields
    rw [ha.unique ka, hb.unique kb, hc.unique kc]
  | s hs ha hb =>
    obtain ⟨x, rfl, hf⟩ := h.format hs
    simp only [hf, Format.ofSlot] at hfields
    obtain ⟨hcode, ka, d, kb, -⟩ := hfields
    rw [h.numbers.1, hcode, ha.unique ka, hb.unique kb]
  | u hs hc ha hv =>
    obtain ⟨x, rfl, hf⟩ := h.format hs
    simp only [hf, Format.ofSlot, ← h.cycles, hc] at hfields
    obtain ⟨ka, hcode, v, kv, hthree⟩ := hfields
    cases hv.symm.trans kv
    rw [h.numbers.1, hcode, hthree, ha.unique ka]
  | wide hs hc ha =>
    obtain ⟨x, rfl, hf⟩ := h.format hs
    simp only [hf, Format.ofSlot, ← h.cycles, hc] at hfields
    obtain ⟨ka, hcode, hthree, -⟩ := hfields
    rw [h.numbers.1, hcode, hthree, ha.unique ka]
  | j hs ha hb =>
    obtain ⟨x, rfl, hf⟩ := h.format hs
    simp only [hf, Format.ofSlot] at hfields
    obtain ⟨ka, ⟨d, kb, -⟩, hcode⟩ := hfields
    rw [h.numbers.1, hcode, ha.unique ka, hb.unique kb]

/-- What is read and finished is carried. -/
theorem carries_of_finish (hr : i.Reads operands fields source)
    (hf : i.finish fields source ctx = .ok p) : Carries ⟨here, p.1, p.2, l⟩ i operands ctx := by
  obtain ⟨hopcode, hfields⟩ : _ ∧ HoldsFields ⟨here, p.1, p.2, l⟩ i operands ctx :=
    holdsFields_of_finish hr hf
  have hcycles := Instruction.finish_cycles hf
  refine ⟨hopcode, hfields, ?_, ?_, ?_, ?_⟩
  · rw [← hcycles]
    cases p.2 <;> simp
  · intro entry groups h
    exact ⟨_, gives_numbers hopcode hfields h⟩
  · intro entry groups n h hgives
    rw [eq_numbers_of_gives hopcode hfields h hgives]
    exact word_eq _
  · intro entry groups n h hgives
    rw [eq_numbers_of_gives hopcode hfields h hgives]
    exact ⟨number_le _ _, number_le _ _, number_le _ _, number_le _ _⟩

end Encoding

/-! ## What is encoded -/

namespace Line

/-- Under a catalog that was built or loaded, an encoded line carries the numbers that its operands
spell and that the steps of the catalog declare. -/
theorem encode_carries
    (hcatalog : (∃ steps, Script.catalog steps = .ok catalog) ∨
      ∃ source read, Description.load source read = .ok catalog)
    (h : l.encode catalog labels here = .ok e) :
    ∃ i operands, l.Invokes catalog i operands ∧
      e.Carries i operands ⟨labels, i.addressing, here⟩ ∧
      (∃ steps, Script.catalog steps = .ok catalog) ∧
      ∀ steps, Script.catalog steps = .ok catalog → Script.Declares steps i := by
  have hbuilt : ∃ steps, Script.catalog steps = .ok catalog := by
    rcases hcatalog with hbuilt | ⟨source, read, hload⟩
    · exact hbuilt
    · exact Description.exists_script_of_load hload
  obtain ⟨i, operands, fields, source, p, hi, hr, hf, rfl⟩ := encode_eq_ok_iff.1 h
  refine ⟨i, operands, hi, Encoding.carries_of_finish hr hf, hbuilt, ?_⟩
  intro steps hsteps
  obtain ⟨name, -, hlookup⟩ := hi
  exact Script.declares_of_catalog hsteps (Catalog.mem_of_lookup? hlookup)

/-- A displaced address with a negative literal, under an instruction of a group. -/
theorem encode_carries_displaced :
    ∃ e i operands, (Line.mk 1 "LD r15, -2(r9)".toList).encode Catalog.sample .empty 6 = .ok e ∧
      e.Carries i operands ⟨.empty, i.addressing, 6⟩ ∧ Script.Declares Script.sample i ∧
      e.number .two = 15 ∧ e.number .three = 9 ∧
      ∃ (entry : Entry Nat) (groups : List Nat), entry.Declares groups i ∧
        entry.Gives ⟨.empty, i.addressing, 6⟩ groups operands ⟨8, 2, 15, 9⟩ := by
  have hencode : (Line.mk 1 "LD r15, -2(r9)".toList).encode Catalog.sample .empty 6 =
      .ok ⟨6, 0x9F28, some ⟨0xFFFE, "-2".toList⟩, ⟨1, "LD r15, -2(r9)".toList⟩⟩ := rfl
  obtain ⟨i, operands, -, hcarries, -, hdeclares⟩ :=
    encode_carries (.inl ⟨Script.sample, Script.catalog_sample⟩) hencode
  have hsteps := hdeclares _ Script.catalog_sample
  refine ⟨_, i, operands, hencode, hcarries, hsteps, rfl, rfl, ?_⟩
  obtain ⟨pre, entry, post, -, hentry⟩ := hsteps
  obtain ⟨n, hgives⟩ := hcarries.given entry _ hentry
  -- no other numbers fit and make the word up
  have hword : 0x9F28 = n.opcode + 16 * n.one + 256 * n.two + 4096 * n.three :=
    hcarries.whole entry _ n hentry hgives
  obtain ⟨hopcode, hone, htwo, hthree⟩ := hcarries.fit entry _ n hentry hgives
  have hn : n = ⟨8, 2, 15, 9⟩ := by
    rw [Numbers.mk.injEq]
    omega
  rw [hn] at hgives
  exact ⟨entry, _, hentry, hgives⟩

end Line
end Asm16
