-- SUMMARY: A label stands for the address of its first definition wherever it is used as an immediate.
import Asm16.Proofs.Immediate.Value
import Asm16.Proofs.Listing.Addresses

/-!
# References to labels

A label is used where an instruction takes an immediate: as the second operand in format U, or as the
displacement of the second operand in formats S and J. The value encoded there is the label's address
or its distance from the instruction, modulo the width of the field. The address is that of the first
definition, wherever it stands. An instruction without an addressing mode cannot use a label, and a
line that does so ends the second pass.
-/

namespace Asm16

open Operand

variable {catalog : Catalog} {labels : LabelTable} {here a : Address} {l : Line}
  {lines : List Line} {e : Encoding} {i : Instruction} {operands : List Text} {fields : Fields}
  {source : Option Text} {t d : Text} {n : Nat}

/-! ## The value encoded -/

namespace Instruction

/-- A label under an instruction without an addressing mode cannot be finished. -/
theorem finish_of_no_mode {ctx : Context} (hget : ctx.labels.get? t = some a)
    (hmode : ctx.addressing = none) :
    i.finish fields (some t) ctx = .error (.noAddressingMode t) := by
  have hresolve : ∀ w, Immediate.resolve t w ctx = .error (.noAddressingMode t) := by
    intro w
    rw [Immediate.resolve_of_label hget, Immediate.reference, hmode]
  simp only [finish, hresolve, Except.map]

end Instruction

namespace Encoding

/-- The width in which an encoding holds an immediate. -/
def width (e : Encoding) : Width := e.cycles.width

/-- The immediate an encoding holds: its second word, or else field three of the first. -/
def value (e : Encoding) : Word :=
  match e.immediate with
  | some second => second.value
  | none => (Field.three.decode e.word).setWidth 16

/-- The encoding holds a label at `a` as the addressing mode says: as the address, or as a distance
that leads from the instruction to the address, exactly so if the distance fits as a signed number. -/
def RefersTo (e : Encoding) (a : Address) : Option AddressingMode → Prop
  | some .absolute => e.value.toNat = a.toNat % 2 ^ e.width.bits
  | some .relative =>
    (e.address.toNat + e.value.toNat) % 2 ^ e.width.bits = a.toNat % 2 ^ e.width.bits ∧
      (-2 ^ (e.width.bits - 1) ≤ (a.toNat - e.address.toNat : Int) →
        (a.toNat - e.address.toNat : Int) < 2 ^ (e.width.bits - 1) →
        (e.value.setWidth e.width.bits).toInt = a.toNat - e.address.toNat)
  | none => False

/-- An encoding holds the value that was resolved for it. -/
theorem value_emit {v : Word} (hv : v.toNat < i.cycles.width.modulus) :
    value ⟨here, (i.emit fields (some (t, v))).1, (i.emit fields (some (t, v))).2, l⟩ = v := by
  unfold Instruction.emit
  cases hc : i.cycles with
  | one =>
    rw [hc] at hv
    simp only [value, Fields.decode_pack, Fields.get]
    exact Nibble.setWidth_truncate hv
  | two => rfl

theorem refersTo_of_resolve {mode : Option AddressingMode}
    (h : Immediate.resolve t e.width ⟨labels, mode, e.address⟩ = .ok e.value)
    (ha : labels.get? t = some a) : e.RefersTo a mode := by
  rw [Immediate.resolve_of_label ha, Immediate.reference] at h
  cases mode with
  | none => cases h
  | some mode =>
    cases mode with
    | absolute =>
      have hvalue := Except.ok.inj h
      rw [RefersTo, ← hvalue]
      exact Width.toNat_wrap_natCast _ _
    | relative =>
      have hvalue := Except.ok.inj h
      rw [RefersTo, ← hvalue]
      exact ⟨Width.add_wrap_sub _ _ _, Width.toInt_wrap⟩

end Encoding

/-! ## From end to end -/

namespace Listing

variable {listing : Listing}

/-- The address is where the encodings of the lines before the first definition of the name end. -/
def FirstDefined (listing : Listing) (lines : List Line) (name : Text) (a : Address) : Prop :=
  ∃ pre l post es fs, lines = pre ++ l :: post ∧ l.label? = some name ∧
    (∀ x ∈ pre, x.label? ≠ some name) ∧ listing.encodings = es ++ fs ∧
    es.map (·.line) = Layout.kept pre ∧ a.toNat = 2 * (es.flatMap Encoding.words).length

theorem firstDefined_of_get? (h : ofLines catalog lines = .ok listing)
    (hsize : 2 * listing.words.length < 2 ^ 32) (ha : listing.labels.get? t = some a) :
    listing.FirstDefined lines t a := by
  obtain ⟨hk, hlabels, hes⟩ := ofLines_eq_ok_iff.1 h
  rw [hlabels, Layout.get?_table_empty] at ha
  obtain ⟨pre, l, post, rfl, hl, hfirst, rfl⟩ := Layout.exists_first_of_addressOf ha
  rw [Layout.kept_append] at hes
  obtain ⟨es, fs, hsplit, hpre, -⟩ := hes.split
  refine ⟨pre, l, post, es, fs, rfl, hl, hfirst, hsplit, hpre.map_line, ?_⟩
  rw [hpre.size_eq, Address.zero_add_ofNat, toNat_ofNat_size hsplit hsize]
  rfl

theorem refersTo_of_takes (h : ofLines catalog lines = .ok listing) (he : e ∈ listing.encodings)
    (hi : e.line.Invokes catalog i operands) (ht : i.Takes operands t)
    (ha : listing.labels.get? t = some a) :
    e.cycles = i.cycles ∧ e.RefersTo a i.addressing := by
  obtain ⟨-, -, hes⟩ := ofLines_eq_ok_iff.1 h
  obtain ⟨j, others, fields, source, p, hj, hr, hf, heq⟩ :=
    Line.encode_eq_ok_iff.1 (hes.encode_of_mem he)
  obtain ⟨rfl, rfl⟩ := hi.unique hj
  obtain rfl := hr.takes_iff.1 ht
  have hcycles : e.cycles = i.cycles := by
    rw [heq]
    exact Instruction.finish_cycles hf
  refine ⟨hcycles, Encoding.refersTo_of_resolve ?_ ha⟩
  obtain ⟨v, hv, rfl⟩ := map_eq_ok.1 hf
  rw [Encoding.width, hcycles, hv, heq, Encoding.value_emit (Immediate.resolve_lt hv)]

/-- A line that uses a label without an addressing mode ends the second pass, unless an earlier one
does. -/
theorem ofLines_of_no_mode {layout : Layout} {pre post : List Line}
    (h : Layout.ofLines catalog (pre ++ l :: post) = .ok layout) (hc : l.code.isEmpty = false)
    (hi : l.withoutLabel.Invokes catalog i operands) (hmode : i.addressing = none)
    (hr : i.Reads operands fields (some t)) (ht : layout.labels.contains t = true) :
    ofLines catalog (pre ++ l :: post) =
      match Encoding.ofLines catalog layout.labels (Layout.kept pre) with
      | .error d => .error d
      | .ok _ => .error ⟨l.withoutLabel, .operand (.noAddressingMode t)⟩ := by
  have hkept : layout.lines = Layout.kept pre ++ l.withoutLabel :: Layout.kept post := by
    rw [(Layout.ofLines_eq_ok_iff.1 h).2, Layout.kept_append, Layout.kept_cons_of_not_isEmpty hc]
  unfold ofLines
  rw [h]
  dsimp only
  rw [hkept]
  cases hpre : Encoding.ofLines catalog layout.labels (Layout.kept pre) with
  | error d =>
    have hrun : Encoding.ofLines catalog layout.labels
        (Layout.kept pre ++ l.withoutLabel :: Layout.kept post) = .error d :=
      Encoding.run_append_of_error hpre
    simp only [hrun]
  | ok es =>
    obtain ⟨b, hb⟩ := Option.isSome_iff_exists.1 ht
    have hline : l.withoutLabel.encode catalog layout.labels
        (0 + BitVec.ofNat 32 (Encoding.size es)) = .error (.operand (.noAddressingMode t)) := by
      rw [hi.encode, hr.encode, Instruction.finish_of_no_mode hb hmode]
    simp only [Encoding.ofLines_of_error hpre hline]

/-- Labels are resolved from end to end. In a listing, a label stands where the words before its
first definition end, and every encoding that takes its immediate from the label refers to it there.
A line that takes one without an addressing mode makes the assembly fail, at this line unless an
earlier one is refused. -/
theorem ofLines_references (catalog : Catalog) (lines : List Line) :
    (∀ listing, ofLines catalog lines = .ok listing → 2 * listing.words.length < 2 ^ 32 →
      ∀ e ∈ listing.encodings, ∀ i operands t a, e.line.Invokes catalog i operands →
        i.Takes operands t → listing.labels.get? t = some a →
        listing.FirstDefined lines t a ∧ e.cycles = i.cycles ∧ e.RefersTo a i.addressing) ∧
    (∀ layout, Layout.ofLines catalog lines = .ok layout →
      ∀ pre l post i operands fields t, lines = pre ++ l :: post → l.code.isEmpty = false →
        l.withoutLabel.Invokes catalog i operands → i.addressing = none →
        i.Reads operands fields (some t) → layout.labels.contains t = true →
        ofLines catalog lines =
          match Encoding.ofLines catalog layout.labels (Layout.kept pre) with
          | .error d => .error d
          | .ok _ => .error ⟨l.withoutLabel, .operand (.noAddressingMode t)⟩) := by
  constructor
  · intro listing h hsize e he i operands t a hi ht ha
    exact ⟨firstDefined_of_get? h hsize ha, refersTo_of_takes h he hi ht ha⟩
  · rintro layout h pre l post i operands fields t rfl hc hi hmode hr ht
    exact ofLines_of_no_mode h hc hi hmode hr ht

/-- A distance back over two words, and a label used by an instruction that has no mode for it. -/
theorem ofLines_references_backwards :
    (∃ listing e, ofLines Catalog.sample
        (Line.numbered 1 ["a: LD r1, b(r2)".toList, "b: BR r0, a(r0)".toList]) = .ok listing ∧
      e ∈ listing.encodings ∧ e.address = 4 ∧ e.cycles = .two ∧ e.RefersTo 0 (some .relative)) ∧
    ofLines Catalog.sample (Line.numbered 1 ["ADD r1,r2,r3".toList, "x: LI r1, x".toList]) =
      .error ⟨⟨2, "LI r1, x".toList⟩, .operand (.noAddressingMode ['x'])⟩ := by
  constructor
  · have hregister : SpellsRegister ['r', '0'] 0 := ⟨'r', ['0'], rfl, .inl rfl, rfl, rfl⟩
    have hrefers := (ofLines_references Catalog.sample
      (Line.numbered 1 ["a: LD r1, b(r2)".toList, "b: BR r0, a(r0)".toList])).1 _ rfl (by decide)
      _ (.tail _ (.head _)) ⟨"BR".toList, 12, .j 2, .two, some .relative⟩
      [['r', '0'], "a(r0)".toList] ['a'] 0 ⟨"BR".toList, rfl, rfl⟩
      (.j rfl ⟨['r', '0'], rfl, by decide, hregister⟩ (by decide)) rfl
    exact ⟨_, _, rfl, .tail _ (.head _), rfl, hrefers.2⟩
  · have hregister : SpellsRegister ['r', '1'] 1 := ⟨'r', ['1'], rfl, .inl rfl, rfl, rfl⟩
    have hplain : SpellsPlain ['x'] :=
      ⟨displaced?_eq_none_iff.1 rfl, register?_eq_none_iff.1 rfl⟩
    exact (ofLines_references Catalog.sample
      (Line.numbered 1 ["ADD r1,r2,r3".toList, "x: LI r1, x".toList])).2 _ rfl
      [⟨1, "ADD r1,r2,r3".toList⟩] ⟨2, "x: LI r1, x".toList⟩ []
      ⟨"LI".toList, 8, .u 3, .one, none⟩ [['r', '1'], ['x']] ⟨8, 1, 3, 0⟩ ['x'] rfl rfl
      ⟨"LI".toList, rfl, rfl⟩ rfl (.u rfl hregister hplain) rfl

end Listing
end Asm16
