-- SUMMARY: A description has a catalog of just what it declares, or it is refused for the first item that is wrong.
import Asm16.Proofs.Description.Items

/-!
# Loading item by item

Each item of a description is as it should be or has a fault, and what it adds to a catalog or is refused
with depends on nothing else. So the items that come before the first fault say nothing about the error,
and without a fault the catalog has one instruction for each declaration.
-/

namespace Asm16

namespace Declaration

/-- The bit pattern that a declaration gives for a slot. -/
def pattern (d : Declaration) : Slot → Option Text
  | .func1 => d.func1
  | .func2 => d.func2
  | .func3 => d.func3

/-- The declaration gives a value for the slot and for no other. -/
def GivesOnly (d : Declaration) (k : Slot) (bits : Text) : Prop :=
  d.pattern k = some bits ∧ ∀ j, j ≠ k → d.pattern j = none

/-- The cycle count is that of an instruction. -/
def HasCycles (d : Declaration) : Prop := d.cycles = 1 ∨ d.cycles = 2

/-- The opcode is a bit pattern of a nibble, if the declaration has one. -/
def HasNoBadOpcode (d : Declaration) : Prop := ∀ bits ∈ d.opcode, Pattern.IsNibble bits

/-- The declaration stands for the instruction, in a group with the opcode given or in none. -/
structure StandsFor (d : Declaration) (enclosing : Option Text) (i : Instruction) : Prop where
  name : i.mnemonic = d.name
  cycles : i.cycles.words = d.cycles
  addressing : i.addressing = d.addressing
  code : match enclosing with
    | none => i.format = .r ∧ ∃ bits, d.opcode = some bits ∧ Pattern.Spells bits i.opcode.toNat
    | some group => Pattern.Spells group i.opcode.toNat ∧ ∃ k bits n, d.GivesOnly k bits ∧
        Pattern.Spells bits (BitVec.toNat n) ∧ i.format = .ofSlot k n

end Declaration

namespace Item

/-- The item is as it should be. -/
def Valid : Item → Prop
  | group opcode => Pattern.IsNibble opcode
  | instruction none d => d.HasCycles ∧ ∃ bits, d.opcode = some bits ∧ Pattern.IsNibble bits
  | instruction (some _) d => d.HasCycles ∧ d.HasNoBadOpcode ∧
      ∃ k bits, d.GivesOnly k bits ∧ Pattern.IsNibble bits

/-- The first thing that is wrong with an item. Of an instruction, the cycle count comes first, then
its opcode, then its slots, and last what it lacks. -/
inductive Faulty : Item → LoadError → Prop where
  | group {opcode why} : Pattern.Fails opcode why → Faulty (.group opcode) (.badBits opcode why)
  | cycles {enclosing d} : ¬ d.HasCycles →
      Faulty (.instruction enclosing d) (.badCycles d.name d.cycles)
  | opcode {enclosing d bits why} : d.HasCycles → d.opcode = some bits → Pattern.Fails bits why →
      Faulty (.instruction enclosing d) (.badBits bits why)
  | missingOpcode {d} : d.HasCycles → d.opcode = none →
      Faulty (.instruction none d) (.entry (.missingOpcode d.name))
  | slots {opcode d j k} : d.HasCycles → d.HasNoBadOpcode → j ≠ k →
      (d.pattern j).isSome → (d.pattern k).isSome →
      Faulty (.instruction (some opcode) d) (.conflictingSlots d.name)
  | slot {opcode d k bits why} : d.HasCycles → d.HasNoBadOpcode → d.GivesOnly k bits →
      Pattern.Fails bits why → Faulty (.instruction (some opcode) d) (.badBits bits why)
  | missingSlot {opcode d} : d.HasCycles → d.HasNoBadOpcode → (∀ k, d.pattern k = none) →
      Faulty (.instruction (some opcode) d) (.entry (.missingSlot d.name))

/-- The instructions are those of the items, in their order. -/
inductive Lists : List Item → List Instruction → Prop where
  | nil : Lists [] []
  | group {opcode items is} : Lists items is → Lists (.group opcode :: items) is
  | instruction {enclosing d items i is} : d.StandsFor enclosing i → Lists items is →
      Lists (.instruction enclosing d :: items) (i :: is)

end Item

/-! ## Slots of a declaration -/

namespace Declaration

variable {d : Declaration} {enclosing : Option Text} {bits : Text} {j k : Slot} {x : Nibble}
  {why : Pattern.Fault}

theorem nibble_of_spells (h : Pattern.Spells bits x.toNat) : nibble bits = .ok x := by
  rw [nibble, Pattern.parse_eq_ok_iff.2 h]

theorem nibble_of_fails (h : Pattern.Fails bits why) : nibble bits = .error (.badBits bits why) := by
  rw [nibble, h.parse]

theorem slot_of_none (h : ∀ k, d.pattern k = none) : d.slot = .ok none := by
  have h1 : d.func1 = none := h .func1
  have h2 : d.func2 = none := h .func2
  have h3 : d.func3 = none := h .func3
  simp [slot, h1, h2, h3]

theorem slot_of_only (h : d.GivesOnly k bits) :
    d.slot = nibble bits >>= fun n => .ok (some (k, n)) := by
  have hpattern : ∀ j, d.pattern j = if j = k then some bits else none := by
    intro j
    split
    · rename_i hj
      rw [hj, h.1]
    · rename_i hj
      exact h.2 j hj
  have h1 : d.func1 = _ := hpattern .func1
  have h2 : d.func2 = _ := hpattern .func2
  have h3 : d.func3 = _ := hpattern .func3
  cases k <;> simp only [slot, h1, h2, h3] <;> rfl

theorem slot_of_several (hne : j ≠ k) (hj : (d.pattern j).isSome) (hk : (d.pattern k).isSome) :
    d.slot = .error (.conflictingSlots d.name) := by
  cases h1 : d.func1 <;> cases h2 : d.func2 <;> cases h3 : d.func3
  case none.none.none | none.none.some | none.some.none | some.none.none =>
    -- one slot at most is given
    cases j <;> cases k <;> simp [pattern, h1, h2, h3] at hne hj hk
  all_goals simp [slot, h1, h2, h3]

theorem patterns_cases (d : Declaration) :
    (∀ k, d.pattern k = none) ∨ (∃ k bits, d.GivesOnly k bits) ∨
      ∃ j k, j ≠ k ∧ (d.pattern j).isSome ∧ (d.pattern k).isSome := by
  by_cases hnone : ∀ k, d.pattern k = none
  · exact .inl hnone
  · obtain ⟨k, hk⟩ := not_forall.1 hnone
    obtain ⟨bits, hbits⟩ := Option.ne_none_iff_exists'.1 hk
    by_cases honly : ∀ j, j ≠ k → d.pattern j = none
    · exact .inr (.inl ⟨k, bits, hbits, honly⟩)
    · push Not at honly
      obtain ⟨j, hne, hj⟩ := honly
      exact .inr (.inr ⟨j, k, hne, Option.ne_none_iff_isSome.1 hj, Option.ne_none_iff_isSome.1 hk⟩)

/-! ## Entries of declarations -/

theorem ofNat?_of_hasCycles (h : d.HasCycles) : ∃ c : Cycles, Cycles.ofNat? d.cycles = some c := by
  obtain h | h := h <;> rw [h]
  · exact ⟨.one, rfl⟩
  · exact ⟨.two, rfl⟩

theorem ofNat?_of_not_hasCycles (h : ¬ d.HasCycles) : Cycles.ofNat? d.cycles = none := by
  cases hc : Cycles.ofNat? d.cycles with
  | none => rfl
  | some c =>
    have hwords := Cycles.ofNat?_eq_some_iff.1 hc
    cases c with
    | one => exact absurd (.inl hwords.symm) h
    | two => exact absurd (.inr hwords.symm) h

theorem entry_of_not_hasCycles (h : ¬ d.HasCycles) (grouped : Bool) :
    d.entry grouped = .error (.badCycles d.name d.cycles) := by
  rw [entry, ofNat?_of_not_hasCycles h]
  rfl

theorem entry_of_fails (hcycles : d.HasCycles) (ho : d.opcode = some bits)
    (h : Pattern.Fails bits why) (grouped : Bool) : d.entry grouped = .error (.badBits bits why) := by
  obtain ⟨c, hc⟩ := ofNat?_of_hasCycles hcycles
  simp only [entry, hc, ho, nibble_of_fails h]
  rfl

/-- With a cycle count and no bad opcode, all depends on the slots. -/
theorem entry_of_hasNoBadOpcode (hcycles : d.HasCycles) (h : d.HasNoBadOpcode) (grouped : Bool) :
    ∃ (c : Cycles) (opcode : Option Nibble), c.words = d.cycles ∧
      Option.Rel (fun bits x => Pattern.Spells bits x.toNat) d.opcode opcode ∧
      d.entry grouped = (if grouped then d.slot else pure none) >>= fun slot =>
        .ok ⟨d.name, opcode, slot, c, d.addressing⟩ := by
  obtain ⟨c, hc⟩ := ofNat?_of_hasCycles hcycles
  cases ho : d.opcode with
  | none =>
    refine ⟨c, none, Cycles.ofNat?_eq_some_iff.1 hc, .none, ?_⟩
    simp only [entry, hc, ho]
    cases grouped <;> rfl
  | some bits =>
    obtain ⟨x, hx⟩ := Pattern.exists_of_isNibble (h bits ho)
    refine ⟨c, some x, Cycles.ofNat?_eq_some_iff.1 hc, .some hx, ?_⟩
    simp only [entry, hc, ho, nibble_of_spells hx]
    cases grouped <;> rfl

end Declaration

/-! ## Items -/

namespace Item

variable {item : Item} {items before after : List Item} {d : Declaration} {e : LoadError}

/-- What a declaration of the top level adds depends on its opcode, if that is no bad one. -/
theorem instructions_root (hc : d.HasCycles) (ho : d.HasNoBadOpcode) :
    ∃ (c : Cycles) (opcode : Option Nibble), c.words = d.cycles ∧
      Option.Rel (fun bits x => Pattern.Spells bits x.toNat) d.opcode opcode ∧
      (Item.instruction none d).instructions =
        match opcode with
        | none => .error (.entry (.missingOpcode d.name))
        | some x => .ok [⟨d.name, x, .r, c, d.addressing⟩] := by
  obtain ⟨c, opcode, hwords, hopcode, hentry⟩ := Declaration.entry_of_hasNoBadOpcode hc ho false
  refine ⟨c, opcode, hwords, hopcode, ?_⟩
  rw [Item.instructions, Declaration.instruction, Option.map_none, Option.isSome_none, hentry]
  cases opcode <;> rfl

/-- What a declaration in a group adds depends on its slots, if its opcode is no bad one. -/
theorem instructions_grouped (hc : d.HasCycles) (ho : d.HasNoBadOpcode) (group : Text) :
    ∃ c : Cycles, c.words = d.cycles ∧
      (Item.instruction (some group) d).instructions = d.slot >>= fun slot =>
        match slot with
        | none => .error (.entry (.missingSlot d.name))
        | some (k, n) => .ok [⟨d.name, Pattern.number group, .ofSlot k n, c, d.addressing⟩] := by
  obtain ⟨c, opcode, hwords, -, hentry⟩ := Declaration.entry_of_hasNoBadOpcode hc ho true
  refine ⟨c, hwords, ?_⟩
  rw [Item.instructions, Declaration.instruction, Option.map_some, Option.isSome_some, hentry,
    if_pos rfl]
  cases d.slot with
  | error e => rfl
  | ok slot => cases slot <;> rfl

theorem Faulty.instructions (h : item.Faulty e) : item.instructions = .error e := by
  cases h with
  | group h =>
    rw [Item.instructions, Declaration.nibble_of_fails h]
    rfl
  | cycles h =>
    rw [Item.instructions, Declaration.instruction, Declaration.entry_of_not_hasCycles h]
    rfl
  | opcode hc ho h =>
    rw [Item.instructions, Declaration.instruction, Declaration.entry_of_fails hc ho h]
    rfl
  | missingOpcode hc ho =>
    obtain ⟨c, opcode, -, hopcode, h⟩ :=
      instructions_root hc (by simp [Declaration.HasNoBadOpcode, ho])
    rw [ho] at hopcode
    cases hopcode
    exact h
  | slots hc ho hne hj hk =>
    obtain ⟨c, -, h⟩ := instructions_grouped hc ho _
    rw [h, Declaration.slot_of_several hne hj hk]
    rfl
  | slot hc ho honly hfails =>
    obtain ⟨c, -, h⟩ := instructions_grouped hc ho _
    rw [h, Declaration.slot_of_only honly, Declaration.nibble_of_fails hfails]
    rfl
  | missingSlot hc ho hnone =>
    obtain ⟨c, -, h⟩ := instructions_grouped hc ho _
    rw [h, Declaration.slot_of_none hnone]
    rfl

/-- A declaration that is as it should be stands for an instruction, once the opcode of its group is a
bit pattern. -/
theorem instructions_of_valid {enclosing : Option Text} (h : (Item.instruction enclosing d).Valid) :
    ∃ i, (Item.instruction enclosing d).instructions = .ok [i] ∧
      ((∀ opcode ∈ enclosing, Pattern.IsNibble opcode) → d.StandsFor enclosing i) := by
  cases enclosing with
  | none =>
    obtain ⟨hc, bits, ho, hbits⟩ := h
    obtain ⟨c, opcode, hwords, hopcode, h⟩ :=
      instructions_root hc (by simpa [Declaration.HasNoBadOpcode, ho])
    rw [ho] at hopcode
    cases hopcode with
    | some hx => exact ⟨_, h, fun _ => ⟨rfl, hwords, rfl, rfl, bits, ho, hx⟩⟩
  | some group =>
    obtain ⟨hc, ho, k, bits, honly, hbits⟩ := h
    obtain ⟨n, hn⟩ := Pattern.exists_of_isNibble hbits
    obtain ⟨c, hwords, h⟩ := instructions_grouped hc ho group
    rw [Declaration.slot_of_only honly, Declaration.nibble_of_spells hn] at h
    refine ⟨_, h, fun hgroup => ?_⟩
    obtain ⟨x, hx⟩ := Pattern.exists_of_isNibble (hgroup group rfl)
    refine ⟨rfl, hwords, rfl, ?_, k, bits, n, honly, hn, rfl⟩
    rwa [Pattern.number_of_spells hx]

theorem valid_or_faulty (item : Item) : item.Valid ∨ ∃ e, item.Faulty e := by
  cases item with
  | group opcode =>
    obtain h | ⟨why, h⟩ := Pattern.isNibble_or_fails opcode
    · exact .inl h
    · exact .inr ⟨_, .group h⟩
  | instruction enclosing d =>
    by_cases hc : d.HasCycles
    · by_cases ho : d.HasNoBadOpcode
      · cases enclosing with
        | none =>
          cases hopcode : d.opcode with
          | none => exact .inr ⟨_, .missingOpcode hc hopcode⟩
          | some bits => exact .inl ⟨hc, bits, hopcode, ho bits hopcode⟩
        | some group =>
          obtain hnone | ⟨k, bits, honly⟩ | ⟨j, k, hne, hj, hk⟩ := d.patterns_cases
          · exact .inr ⟨_, .missingSlot hc ho hnone⟩
          · obtain hbits | ⟨why, hbits⟩ := Pattern.isNibble_or_fails bits
            · exact .inl ⟨hc, ho, k, bits, honly, hbits⟩
            · exact .inr ⟨_, .slot hc ho honly hbits⟩
          · exact .inr ⟨_, .slots hc ho hne hj hk⟩
      · rw [Declaration.HasNoBadOpcode] at ho
        push Not at ho
        obtain ⟨bits, hopcode, hbits⟩ := ho
        obtain ⟨why, hfails⟩ := (Pattern.isNibble_or_fails bits).resolve_left hbits
        exact .inr ⟨_, .opcode hc hopcode hfails⟩
    · exact .inr ⟨_, .cycles hc⟩

/-! ## Items in order -/

theorem collect_of_valid (h : ∀ item ∈ items, item.Valid)
    (hgroups : ∀ opcode d, Item.instruction (some opcode) d ∈ items → Pattern.IsNibble opcode) :
    ∃ is, collect items = .ok is ∧ Lists items is := by
  induction items with
  | nil => exact ⟨[], rfl, .nil⟩
  | cons item items ih =>
    obtain ⟨hitem, hitems⟩ := List.forall_mem_cons.1 h
    obtain ⟨is, his, hlists⟩ :=
      ih hitems fun opcode d hmem => hgroups opcode d (List.mem_cons_of_mem _ hmem)
    cases item with
    | group opcode =>
      obtain ⟨x, hx⟩ := Pattern.exists_of_isNibble hitem
      refine ⟨is, ?_, .group hlists⟩
      rw [collect, Item.instructions, Declaration.nibble_of_spells hx, his]
      rfl
    | instruction enclosing d =>
      obtain ⟨i, hi, hstands⟩ := instructions_of_valid hitem
      refine ⟨i :: is, ?_, .instruction (hstands ?_) hlists⟩
      · rw [collect, hi, his]
        rfl
      · rintro opcode rfl
        exact hgroups opcode d List.mem_cons_self

theorem exists_instructions_of_valid (h : item.Valid) : ∃ is, item.instructions = .ok is := by
  cases item with
  | group opcode =>
    obtain ⟨x, hx⟩ := Pattern.exists_of_isNibble h
    exact ⟨[], by rw [Item.instructions, Declaration.nibble_of_spells hx]; rfl⟩
  | instruction enclosing d =>
    obtain ⟨i, hi, -⟩ := instructions_of_valid h
    exact ⟨[i], hi⟩

/-- The first item with a fault is reported. -/
theorem collect_of_faulty (h : ∀ x ∈ before, x.Valid) (hitem : item.Faulty e) :
    collect (before ++ item :: after) = .error e := by
  induction before with
  | nil => rw [List.nil_append, collect, hitem.instructions]; rfl
  | cons x before ih =>
    obtain ⟨hx, hbefore⟩ := List.forall_mem_cons.1 h
    obtain ⟨is, his⟩ := exists_instructions_of_valid hx
    rw [List.cons_append, collect, his, ih hbefore]
    rfl

theorem valid_or_first_faulty (items : List Item) :
    (∀ item ∈ items, item.Valid) ∨ ∃ before item after e, items = before ++ item :: after ∧
      (∀ x ∈ before, x.Valid) ∧ item.Faulty e := by
  induction items with
  | nil => exact .inl (by simp)
  | cons x items ih =>
    obtain hx | ⟨e, he⟩ := valid_or_faulty x
    · obtain h | ⟨before, item, after, e, rfl, hbefore, he⟩ := ih
      · exact .inl (List.forall_mem_cons.2 ⟨hx, h⟩)
      · exact .inr ⟨x :: before, item, after, e, rfl, List.forall_mem_cons.2 ⟨hx, hbefore⟩, he⟩
    · exact .inr ⟨[], x, items, e, rfl, by simp, he⟩

end Item

/-! ## Descriptions -/

namespace Description

variable {d : Description}

theorem isNibble_of_valid (h : ∀ item ∈ d.items, item.Valid) {opcode : Text} {x : Declaration}
    (hmem : Item.instruction (some opcode) x ∈ d.items) : Pattern.IsNibble opcode := by
  rcases List.mem_append.1 hmem with hroot | hgroup
  · obtain ⟨_, -, hroot⟩ := List.mem_map.1 hroot
    cases hroot
  · exact h (.group opcode) (List.mem_append_right _ (Item.group_mem_ofGroups hgroup))

theorem catalog_of_valid (h : ∀ item ∈ d.items, item.Valid) :
    ∃ c, d.catalog = .ok c ∧ Item.Lists d.items c.instructions := by
  obtain ⟨is, his, hlists⟩ := Item.collect_of_valid h fun _ _ hmem => isNibble_of_valid h hmem
  refine ⟨⟨is⟩, ?_, hlists⟩
  rw [catalog_eq, his]
  rfl

theorem catalog_of_faulty {before after : List Item} {item : Item} {e : LoadError}
    (hitems : d.items = before ++ item :: after) (hbefore : ∀ x ∈ before, x.Valid)
    (h : item.Faulty e) : d.catalog = .error e := by
  rw [catalog_eq, hitems, Item.collect_of_faulty hbefore h]
  rfl

theorem exists_catalog_iff : (∃ c, d.catalog = .ok c) ↔ ∀ item ∈ d.items, item.Valid := by
  constructor
  · rintro ⟨c, hc⟩
    obtain h | ⟨before, item, after, e, hitems, hbefore, he⟩ := Item.valid_or_first_faulty d.items
    · exact h
    · cases hc.symm.trans (catalog_of_faulty hitems hbefore he)
  · intro h
    obtain ⟨c, hc, -⟩ := catalog_of_valid h
    exact ⟨c, hc⟩

theorem lists_of_catalog {c : Catalog} (h : d.catalog = .ok c) :
    Item.Lists d.items c.instructions := by
  obtain ⟨c', hc', hlists⟩ := catalog_of_valid (exists_catalog_iff.1 ⟨c, h⟩)
  obtain rfl := Except.ok.inj (h.symm.trans hc')
  exact hlists

theorem catalog_eq_error_iff {e : LoadError} :
    d.catalog = .error e ↔ ∃ before item after, d.items = before ++ item :: after ∧
      (∀ x ∈ before, x.Valid) ∧ item.Faulty e := by
  constructor
  · intro h
    obtain hvalid | ⟨before, item, after, why, hitems, hbefore, hwhy⟩ :=
      Item.valid_or_first_faulty d.items
    · obtain ⟨c, hc, -⟩ := catalog_of_valid hvalid
      cases h.symm.trans hc
    · obtain rfl := Except.error.inj (h.symm.trans (catalog_of_faulty hitems hbefore hwhy))
      exact ⟨before, item, after, hitems, hbefore, hwhy⟩
  · rintro ⟨before, item, after, hitems, hbefore, he⟩
    exact catalog_of_faulty hitems hbefore he

/-- A description whose items are all as they should be has a catalog of just their instructions, and
any other is refused for the first item that is not. -/
theorem catalog_items (d : Description) :
    ((∃ c, d.catalog = .ok c) ↔ ∀ item ∈ d.items, item.Valid) ∧
    (∀ c, d.catalog = .ok c → Item.Lists d.items c.instructions) ∧
    ∀ e, d.catalog = .error e ↔ ∃ before item after, d.items = before ++ item :: after ∧
      (∀ x ∈ before, x.Valid) ∧ item.Faulty e :=
  ⟨exists_catalog_iff, fun _ => lists_of_catalog, fun _ => catalog_eq_error_iff⟩

/-- A group within a group, and a group after both. -/
def nested : Description :=
  ⟨[⟨"SUB".toList, some "0b0010".toList, none, none, some "1111".toList, 1, none⟩],
    [.mk "1000".toList
        [⟨"LD".toList, none, some "01".toList, none, none, 2, some .absolute⟩]
        [.mk "1001".toList
          [⟨"BEQ".toList, some "1".toList, none, none, some "0011".toList, 2, some .relative⟩] []],
      .mk "1010".toList [⟨"LI".toList, none, none, some "0000".toList, none, 1, none⟩] []]⟩

/-- Two faults, of which the one in the group within is found first. -/
def conflicting : Description :=
  ⟨[], [.mk "1000".toList []
      [.mk "11".toList [⟨"X".toList, none, some "0".toList, some "1".toList, none, 1, none⟩] []],
    .mk "10000".toList [] []]⟩

/-- The machine that the nested description is of. -/
def nestedCatalog : Catalog := ⟨[
  ⟨"SUB".toList, 2, .r, .one, none⟩,
  ⟨"LD".toList, 8, .s 1, .two, some .absolute⟩,
  ⟨"BEQ".toList, 9, .j 3, .two, some .relative⟩,
  ⟨"LI".toList, 10, .u 0, .one, none⟩]⟩

theorem catalog_items_nested :
    (∀ item ∈ nested.items, item.Valid) ∧ Item.Lists nested.items nestedCatalog.instructions ∧
    ∃ before item after, conflicting.items = before ++ item :: after ∧
      (∀ x ∈ before, x.Valid) ∧ item.Faulty (.conflictingSlots "X".toList) :=
  have hnested : nested.catalog = .ok nestedCatalog := by rfl
  have hconflicting : conflicting.catalog = .error (.conflictingSlots "X".toList) := by rfl
  ⟨(catalog_items nested).1.1 ⟨_, hnested⟩, (catalog_items nested).2.1 _ hnested,
    ((catalog_items conflicting).2.2 _).1 hconflicting⟩

end Description
end Asm16
