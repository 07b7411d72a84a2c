-- SUMMARY: Programs that do not use each other's labels can be joined: the later one is moved as a whole.
import Asm16.Proofs.Listing.References

/-!
# Joining programs

Two programs that are assembled on their own are assembled when joined, if neither uses a label of
the other and the later one defines none of the earlier one's. The encodings of the earlier program
stay. Those of the later one move by its length. Literals and distances between its own lines do not
change on the way. Only the addresses of its own labels do, by the same length, and with them the
values taken from them.
-/

namespace Asm16

open Operand

/-! ## What a line mentions -/

namespace Line

/-- The words of the code after the mnemonic. -/
def operands (l : Line) : List Text := l.code.words.tail

/-- The text is an operand of the line, or the displacement of one. -/
def Mentions (l : Line) (t : Text) : Prop :=
  t ∈ l.operands ∨ ∃ b ∈ l.operands, ∃ n, SpellsDisplaced b t n

/-- The line takes its immediate from a label, and as the label's address. -/
def UsesAddress (l : Line) (catalog : Catalog) (labels : LabelTable) : Prop :=
  ∃ i operands t, l.Invokes catalog i operands ∧ i.Takes operands t ∧
    labels.contains t = true ∧ i.addressing = some .absolute

end Line

variable {catalog : Catalog} {labels others : LabelTable} {here offset : Address} {l : Line}
  {lines : List Line} {e : Encoding} {es : List Encoding} {i : Instruction}
  {operands : List Text} {fields : Fields} {source : Option Text} {t : Text}

namespace Line

/-- An immediate is taken from what the line mentions. -/
theorem mentions_of_takes (hi : l.withoutLabel.Invokes catalog i operands)
    (ht : i.Takes operands t) : l.Mentions t := by
  obtain ⟨name, hwords, -⟩ := hi
  have hoperands : l.operands = operands := by
    have hcode : l.code.words = name :: operands := hwords
    rw [Line.operands, hcode, List.tail_cons]
  unfold Mentions
  rw [hoperands]
  cases ht with
  | u _ => exact .inl (by simp)
  | s _ hb _ => exact .inr ⟨_, by simp, _, hb⟩
  | j _ hb _ => exact .inr ⟨_, by simp, _, hb⟩

/-- Lines that mention none of a table's labels take no immediate from one. -/
theorem get?_of_not_mentions
    (hmentions : ∀ name, labels.contains name = true → ∀ l ∈ lines, ¬ l.Mentions name)
    (hl : l ∈ Layout.kept lines) (hi : l.Invokes catalog i operands) (ht : i.Takes operands t) :
    labels.get? t = none := by
  obtain ⟨x, hx, rfl⟩ := Layout.exists_of_mem_kept hl
  by_contra h
  exact hmentions t (Option.ne_none_iff_isSome.1 h) x hx (mentions_of_takes hi ht)

theorem not_mentions (hoperand : t ∉ l.operands) (hbefore : ∀ b ∈ l.operands, b.before '(' ≠ t) :
    ¬ l.Mentions t := by
  rintro (h | ⟨b, hb, n, h⟩)
  · exact hoperand h
  · exact hbefore b hb h.before_eq

theorem usesAddress_iff (hi : l.Invokes catalog i operands) (hr : i.Reads operands fields source) :
    l.UsesAddress catalog labels ↔
      ∃ t, source = some t ∧ labels.contains t = true ∧ i.addressing = some .absolute := by
  constructor
  · rintro ⟨j, others, t, hj, ht, hlabel, hmode⟩
    obtain ⟨rfl, rfl⟩ := hi.unique hj
    exact ⟨t, hr.takes_iff.1 ht, hlabel, hmode⟩
  · rintro ⟨t, hsource, hlabel, hmode⟩
    exact ⟨i, operands, t, hi, hr.takes_iff.2 hsource, hlabel, hmode⟩

end Line

/-! ## Other labels at the same addresses -/

theorem Immediate.resolve_congr {w : Width} {mode : Option AddressingMode}
    (h : others.get? t = labels.get? t) :
    resolve t w ⟨others, mode, here⟩ = resolve t w ⟨labels, mode, here⟩ := by
  simp only [resolve, h]
  rfl

/-- A line is encoded alike under tables that agree on what its immediate is taken from. -/
theorem Line.encode_congr (h : l.encode catalog labels here = .ok e)
    (hagree : ∀ i operands t, l.Invokes catalog i operands → i.Takes operands t →
      others.get? t = labels.get? t) :
    l.encode catalog others here = .ok e := by
  obtain ⟨i, operands, fields, source, p, hi, hr, hf, rfl⟩ := Line.encode_eq_ok_iff.1 h
  refine Line.encode_eq_ok_iff.2 ⟨i, operands, fields, source, p, hi, hr, ?_, rfl⟩
  cases source with
  | none => exact hf
  | some t =>
    have hget := hagree i operands t hi (hr.takes_iff.2 rfl)
    simp only [Instruction.finish, Immediate.resolve_congr hget]
    exact hf

theorem Encoding.Consecutive.congr (h : Consecutive catalog labels here lines es)
    (hagree : ∀ l ∈ lines, ∀ i operands t, l.Invokes catalog i operands → i.Takes operands t →
      others.get? t = labels.get? t) :
    Consecutive catalog others here lines es := by
  induction h with
  | nil => exact .nil
  | cons he _ ih =>
    have hagree := List.forall_mem_cons.1 hagree
    exact .cons (Line.encode_congr he hagree.1) (ih hagree.2)

/-! ## The same labels at other addresses -/

namespace Encoding

/-- The encoding with a number added to the value it holds, modulo the width of the value. -/
def addValue (e : Encoding) (n : Nat) : Encoding :=
  match e.immediate with
  | some second => { e with immediate := some ⟨second.value + BitVec.ofNat 16 n, second.source⟩ }
  | none =>
    { e with word := Fields.pack ⟨Field.opcode.decode e.word, Field.one.decode e.word,
        Field.two.decode e.word, Field.three.decode e.word + BitVec.ofNat 4 n⟩ }

/-- The second encoding is the first, moved by `offset`: it has another address, and another value
where it holds the address of a label. -/
def Moved (catalog : Catalog) (labels : LabelTable) (offset : Address) (e f : Encoding) : Prop :=
  (e.line.UsesAddress catalog labels →
    f = { e.addValue offset.toNat with address := e.address + offset }) ∧
  (¬ e.line.UsesAddress catalog labels → f = { e with address := e.address + offset })

theorem cycles_addValue (e : Encoding) (n : Nat) : (e.addValue n).cycles = e.cycles := by
  obtain ⟨address, word, second, line⟩ := e
  cases second <;> rfl

theorem Moved.next {f : Encoding} (h : e.Moved catalog labels offset f) :
    f.next = e.next + offset := by
  have hcycles : f.address = e.address + offset ∧ f.cycles = e.cycles := by
    by_cases huses : e.line.UsesAddress catalog labels
    · rw [h.1 huses]
      exact ⟨rfl, cycles_addValue e offset.toNat⟩
    · rw [h.2 huses]
      exact ⟨rfl, rfl⟩
  rw [Encoding.next, Encoding.next, Address.after, Address.after, hcycles.1, hcycles.2]
  ac_rfl

end Encoding

theorem Width.wrap_toNat_add (w : Width) (a offset : Address) :
    w.wrap (a + offset).toNat = w.wrap ((w.wrap a.toNat).toNat + offset.toNat : Nat) := by
  apply wrap_congr
  have h := w.toNat_wrap a.toNat
  rw [Int.natCast_add, BitVec.toNat_add, h]
  cases w <;> simp only [modulus] <;> omega

theorem Width.wrap_distance_add (w : Width) (a here offset : Address) :
    w.wrap ((a + offset).toNat - (here + offset).toNat) = w.wrap (a.toNat - here.toNat) := by
  apply wrap_congr
  rw [BitVec.toNat_add, BitVec.toNat_add]
  cases w <;> simp only [modulus] <;> omega

namespace Immediate

variable {w : Width} {mode : Option AddressingMode} {v : Word}

/-- An address is moved together with what it refers to. -/
theorem resolve_moved_of_address (h : resolve t w ⟨labels, mode, here⟩ = .ok v)
    (hget : others.get? t = (labels.get? t).map (· + offset)) (hlabel : labels.contains t = true)
    (hmode : mode = some .absolute) :
    resolve t w ⟨others, mode, here + offset⟩ = .ok (w.wrap (v.toNat + offset.toNat : Nat)) := by
  obtain ⟨a, ha⟩ := Option.isSome_iff_exists.1 hlabel
  rw [ha, Option.map_some] at hget
  rw [resolve_of_label ha, reference, hmode] at h
  rw [resolve_of_label hget, reference, hmode, ← Except.ok.inj h]
  exact congrArg Except.ok (w.wrap_toNat_add a offset)

/-- A literal or a distance stays. -/
theorem resolve_moved_of_not_address (h : resolve t w ⟨labels, mode, here⟩ = .ok v)
    (hget : others.get? t = (labels.get? t).map (· + offset))
    (hother : ¬ (labels.contains t = true ∧ mode = some .absolute)) :
    resolve t w ⟨others, mode, here + offset⟩ = .ok v := by
  cases ha : labels.get? t with
  | none =>
    rw [ha, Option.map_none] at hget
    rw [resolve_of_not_label hget]
    exact (resolve_of_not_label ha).symm.trans h
  | some a =>
    have hlabel : labels.contains t = true := Option.isSome_iff_exists.2 ⟨a, ha⟩
    rw [ha, Option.map_some] at hget
    rw [resolve_of_label ha, reference] at h
    rw [resolve_of_label hget, reference]
    cases mode with
    | none => cases h
    | some mode =>
      cases mode with
      | absolute => exact absurd ⟨hlabel, rfl⟩ hother
      | relative =>
        have hvalue := Except.ok.inj h
        rw [← hvalue]
        exact congrArg Except.ok (w.wrap_distance_add a here offset)

end Immediate

/-- Adding to the value of an encoding is encoding the sum. -/
theorem Encoding.addValue_emit {v : Word} (n : Nat) :
    addValue ⟨here, (i.emit fields (some (t, v))).1, (i.emit fields (some (t, v))).2, l⟩ n =
      ⟨here, (i.emit fields (some (t, i.cycles.width.wrap (v.toNat + n : Nat)))).1,
        (i.emit fields (some (t, i.cycles.width.wrap (v.toNat + n : Nat)))).2, l⟩ := by
  unfold Instruction.emit
  cases i.cycles with
  | one =>
    have hsum : Nibble.truncate v.toNat + BitVec.ofNat 4 n =
        .truncate (Width.nibble.wrap (v.toNat + n : Nat)).toNat := by
      apply BitVec.eq_of_toNat_eq
      have h := Width.toNat_wrap_natCast .nibble (v.toNat + n)
      simp only [Nibble.truncate, BitVec.toNat_add, BitVec.toNat_ofNat, h, Width.bits, Width.digits]
      omega
    simp only [addValue, Fields.decode_pack, Fields.get, hsum]
    rfl
  | two =>
    have hsum : v + BitVec.ofNat 16 n = Width.word.wrap (v.toNat + n : Nat) := by
      apply BitVec.eq_of_toNat_eq
      have h := Width.toNat_wrap_natCast .word (v.toNat + n)
      simp only [BitVec.toNat_add, BitVec.toNat_ofNat, h, Width.bits, Width.digits]
      omega
    simp only [addValue, hsum]
    rfl

/-- A line that is encoded is encoded further on under labels that stand further on. -/
theorem Line.encode_moved (h : l.encode catalog labels here = .ok e)
    (hagree : ∀ i operands t, l.Invokes catalog i operands → i.Takes operands t →
      others.get? t = (labels.get? t).map (· + offset)) :
    ∃ f, l.encode catalog others (here + offset) = .ok f ∧ e.Moved catalog labels offset f := by
  obtain ⟨i, operands, fields, source, p, hi, hr, hf, rfl⟩ := Line.encode_eq_ok_iff.1 h
  have huses : l.UsesAddress catalog labels ↔ _ := usesAddress_iff hi hr
  have hencode : ∀ q, i.finish fields source ⟨others, i.addressing, here + offset⟩ = .ok q →
      l.encode catalog others (here + offset) = .ok ⟨here + offset, q.1, q.2, l⟩ :=
    fun q hq => Line.encode_eq_ok_iff.2 ⟨i, operands, fields, source, q, hi, hr, hq, rfl⟩
  obtain ⟨rfl, rfl⟩ | ⟨t, v, rfl, hv, rfl⟩ := Instruction.finish_eq_ok hf
  · have hstays : ¬ l.UsesAddress catalog labels := by
      rw [huses]
      rintro ⟨t, ht, -⟩
      cases ht
    exact ⟨_, hencode _ rfl, fun h => absurd h hstays, fun _ => rfl⟩
  · have hget := hagree i operands t hi (hr.takes_iff.2 rfl)
    by_cases hlabel : labels.contains t = true ∧ i.addressing = some .absolute
    · have hmoves : l.UsesAddress catalog labels := huses.2 ⟨t, rfl, hlabel⟩
      have hv' := Immediate.resolve_moved_of_address hv hget hlabel.1 hlabel.2
      refine ⟨_, hencode _ (map_eq_ok.2 ⟨_, hv', rfl⟩), fun _ => ?_, fun h => absurd hmoves h⟩
      rw [Encoding.addValue_emit]
    · have hstays : ¬ l.UsesAddress catalog labels := by
        rw [huses]
        rintro ⟨s, hs, h⟩
        cases hs
        exact hlabel h
      have hv' := Immediate.resolve_moved_of_not_address hv hget hlabel
      exact ⟨_, hencode _ (map_eq_ok.2 ⟨_, hv', rfl⟩), fun h => absurd h hstays, fun _ => rfl⟩

/-- Lines that are encoded are encoded further on, each as far as every other. -/
theorem Encoding.Consecutive.moved (h : Consecutive catalog labels here lines es)
    (hagree : ∀ l ∈ lines, ∀ i operands t, l.Invokes catalog i operands → i.Takes operands t →
      others.get? t = (labels.get? t).map (· + offset)) :
    ∃ fs, Consecutive catalog others (here + offset) lines fs ∧
      List.Forall₂ (Moved catalog labels offset) es fs := by
  refine h.transfer (· + offset) (List.forall₂_same.2 fun l hl a e he => ?_)
  obtain ⟨f, hf, hmoved⟩ := Line.encode_moved he (hagree l hl)
  exact ⟨f, hf, hmoved.next, hmoved⟩

/-! ## Joined programs -/

namespace Listing

variable {rest : List Line} {listing first second : Listing}

theorem address_le (h : ofLines catalog lines = .ok listing)
    (hsize : 2 * listing.words.length < 2 ^ 32) (he : e ∈ listing.encodings) :
    e.address.toNat ≤ 2 * listing.words.length := by
  obtain ⟨es, fs, hsplit⟩ := List.append_of_mem he
  rw [address_eq (ofLines_eq_ok_iff.1 h).2.2 hsplit hsize]
  exact size_le hsplit

theorem label_le {a : Address} (h : ofLines catalog lines = .ok listing)
    (hsize : 2 * listing.words.length < 2 ^ 32) (ha : listing.labels.get? t = some a) :
    a.toNat ≤ 2 * listing.words.length := by
  obtain ⟨_, _, _, es, fs, -, -, -, hsplit, -, hvalue⟩ := firstDefined_of_get? h hsize ha
  rw [hvalue]
  exact size_le hsplit

/-- The joined listing is the first one and then the second, moved to `last`, where the first one
ends. -/
structure Joins (catalog : Catalog) (first second : Listing) (last : Address) (joined : Listing) :
    Prop where
  finish : first.endAddress? = some last
  labels : ∀ name a, joined.labels.get? name = some a ↔
    first.labels.get? name = some a ∨ ∃ b, second.labels.get? name = some b ∧ a = b + last
  encodings : ∃ es, joined.encodings = first.encodings ++ es ∧
    List.Forall₂ (Encoding.Moved catalog second.labels last) second.encodings es
  /-- No address wraps on the way. -/
  no_wrap : ∀ a, (∃ e ∈ second.encodings, a = e.address) ∨
      (∃ name, second.labels.get? name = some a) →
    (a + last).toNat = a.toNat + last.toNat

/-- The labels of joined lines are those of the first ones, and those of the others moved to where
the first ones end. A label of both is one of the first. -/
theorem get?_table_append {table : LabelTable} {last : Address}
    (hfirst : ofLines catalog lines = .ok first) (hsecond : ofLines catalog rest = .ok second)
    (htable : table = Layout.table catalog (lines ++ rest) 0 .empty)
    (hlast : last = BitVec.ofNat 32 (2 * first.words.length)) (name : Text) :
    table.get? name =
      (first.labels.get? name).or ((second.labels.get? name).map (· + last)) := by
  obtain ⟨-, hlabels₁, hes₁⟩ := ofLines_eq_ok_iff.1 hfirst
  obtain ⟨-, hlabels₂, -⟩ := ofLines_eq_ok_iff.1 hsecond
  have hstart : (0 : Address) + BitVec.ofNat 32 (Layout.size catalog lines) = 0 + last := by
    rw [hlast, length_words, hes₁.size_eq]
  rw [htable, Layout.get?_table_empty, Layout.addressOf_append, hstart, Layout.addressOf_add,
    hlabels₁, hlabels₂, Layout.get?_table_empty, Layout.get?_table_empty]

/-- Lines that do not mention a label of the other program are encoded as before, and lines of the
second program further on. -/
theorem ofLines_append (hfirst : ofLines catalog lines = .ok first)
    (hsecond : ofLines catalog rest = .ok second)
    (hsize : 2 * (first.words.length + second.words.length) < 2 ^ 32)
    (hforth : ∀ name, first.labels.contains name = true →
      ∀ l ∈ rest, l.label? ≠ some name ∧ ¬ l.Mentions name)
    (hback : ∀ name, second.labels.contains name = true → ∀ l ∈ lines, ¬ l.Mentions name) :
    ∃ joined last, ofLines catalog (lines ++ rest) = .ok joined ∧
      Joins catalog first second last joined := by
  obtain ⟨hk₁, -, hes₁⟩ := ofLines_eq_ok_iff.1 hfirst
  obtain ⟨hk₂, -, hes₂⟩ := ofLines_eq_ok_iff.1 hsecond
  have hsize₁ : 2 * first.words.length < 2 ^ 32 := by omega
  have hsize₂ : 2 * second.words.length < 2 ^ 32 := by omega
  have hfinish := endAddress?_of_consecutive hes₁ hsize₁
  generalize htable : Layout.table catalog (lines ++ rest) 0 .empty = table
  generalize hlast : BitVec.ofNat 32 (2 * first.words.length) = last at hfinish
  have hlabels := get?_table_append hfirst hsecond htable.symm hlast.symm
  -- neither program takes an immediate from a label of the other
  have hstay : ∀ l ∈ Layout.kept lines, ∀ i operands t, l.Invokes catalog i operands →
      i.Takes operands t → table.get? t = first.labels.get? t := by
    intro l hl i operands t hi ht
    rw [hlabels, Line.get?_of_not_mentions hback hl hi ht, Option.map_none, Option.or_none]
  have hmove : ∀ l ∈ Layout.kept rest, ∀ i operands t, l.Invokes catalog i operands →
      i.Takes operands t → table.get? t = (second.labels.get? t).map (· + last) := by
    intro l hl i operands t hi ht
    have habsent : first.labels.get? t = none :=
      Line.get?_of_not_mentions (fun name h x hx => (hforth name h x hx).2) hl hi ht
    rw [hlabels, habsent, Option.none_or]
  obtain ⟨es, hmoved, hmoves⟩ := hes₂.moved hmove
  have hjoined : ofLines catalog (lines ++ rest) = .ok ⟨table, first.encodings ++ es⟩ := by
    refine ofLines_eq_ok_iff.2 ⟨Layout.known_append.2 ⟨hk₁, hk₂⟩, htable.symm, ?_⟩
    rw [Layout.kept_append]
    refine (hes₁.congr hstay).append ?_
    rw [← length_words, hlast]
    exact hmoved
  have hunion : ∀ name a, table.get? name = some a ↔
      first.labels.get? name = some a ∨ ∃ b, second.labels.get? name = some b ∧ a = b + last := by
    intro name a
    rw [hlabels]
    cases ha : first.labels.get? name with
    | none => simp [eq_comm]
    | some b =>
      have hdefined : first.labels.contains name = true := Option.isSome_iff_exists.2 ⟨b, ha⟩
      have habsent : second.labels.get? name = none :=
        (get?_eq_none_iff hsecond).2 fun l hl => (hforth name hdefined l hl).1
      simp [habsent]
  refine ⟨_, last, hjoined, hfinish, hunion, ⟨es, rfl, hmoves⟩, ?_⟩
  intro a ha
  have hle : a.toNat ≤ 2 * second.words.length := by
    rcases ha with ⟨e, he, rfl⟩ | ⟨name, ha⟩
    · exact address_le hsecond hsize₂ he
    · exact label_le hsecond hsize₂ ha
  have hnat : last.toNat = 2 * first.words.length := by
    rw [← hlast, Address.toNat_ofNat_of_lt hsize₁]
  rw [BitVec.toNat_add, Nat.mod_eq_of_lt]
  omega

/-- The second program refers to its label as an address in both widths, as a distance and under a
literal's instruction; the first one ends with a label. -/
theorem ofLines_append_shifted :
    let lines := Line.numbered 1 ["a: LIW r1, b".toList, "BR r0, a(r0)".toList, "b:".toList]
    let rest := Line.numbered 4 ["LI r4, 7".toList, "c: LD r1, c(r2)".toList,
      "BR r0, c(r0)".toList, "LIA r3, c".toList]
    ∃ first second joined, ofLines Catalog.sample lines = .ok first ∧
      ofLines Catalog.sample rest = .ok second ∧
      ofLines Catalog.sample (lines ++ rest) = .ok joined ∧
      Joins Catalog.sample first second 8 joined := by
  intro lines rest
  have hforth : ∀ name ∈ [['b'], ['a']], ∀ l ∈ rest, l.label? ≠ some name ∧ name ∉ l.operands ∧
      ∀ b ∈ l.operands, b.before '(' ≠ name := by decide
  have hback : ∀ name ∈ [['c']], ∀ l ∈ lines, name ∉ l.operands ∧
      ∀ b ∈ l.operands, b.before '(' ≠ name := by decide
  have hfirst : ofLines Catalog.sample lines = .ok _ := rfl
  have hsecond : ofLines Catalog.sample rest = .ok _ := rfl
  obtain ⟨joined, last, hjoined, hjoins⟩ := ofLines_append hfirst hsecond (by decide)
    (fun name h l hl => by
      obtain ⟨hlabel, hoperand, hbefore⟩ := hforth name (LabelTable.contains_iff_mem.1 h) l hl
      exact ⟨hlabel, Line.not_mentions hoperand hbefore⟩)
    (fun name h l hl => by
      obtain ⟨hoperand, hbefore⟩ := hback name (LabelTable.contains_iff_mem.1 h) l hl
      exact Line.not_mentions hoperand hbefore)
  obtain rfl : last = 8 := Option.some.inj (hjoins.finish.symm.trans (by decide))
  exact ⟨_, _, joined, hfirst, hsecond, hjoined, hjoins⟩

end Listing
end Asm16
