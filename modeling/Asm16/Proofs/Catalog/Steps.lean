-- SUMMARY: What a builder does at a step, said of the steps before it.
import Asm16.Proofs.Catalog.Nesting

/-!
# Steps

What a builder does at a step is decided by the steps before it: by whether they leave a group open,
and which is the innermost. A number is a misuse only where it is used.
-/

namespace Asm16
namespace Script

/-- The step is a misuse after the others: it uses a number that is no nibble, or closes a group where
none is open. -/
inductive Misuses (before : List Step) : Step → Misuse → Prop where
  | groupOpcode {n} : 15 < n → Misuses before (.enter n) (.groupOpcode n)
  | noOpenGroup : Balanced before → Misuses before .leave .noOpenGroup
  | opcode {e n} : Balanced before → e.opcode = some n → 15 < n →
      Misuses before (.register e) (.opcode n)
  | slot {g e k n} : Within g before → e.slot = some (k, n) → 15 < n →
      Misuses before (.register e) (.slot n)

/-- The entry lacks what it needs after the steps: an opcode outside of any group, and a slot within
one. -/
inductive Skips (before : List Step) (e : Entry Nat) : EntryError → Prop where
  | missingOpcode : Balanced before → e.opcode = none → Skips before e (.missingOpcode e.name)
  | missingSlot {g} : Within g before → e.slot = none → Skips before e (.missingSlot e.name)

/-- The entry registers the instruction after the steps. Outside of any group it has its own opcode and
format R. Within one it has the opcode of the innermost group and the format of its slot. -/
inductive Registers (before : List Step) (e : Entry Nat) : Instruction → Prop where
  | root {x : Nibble} : Balanced before → e.opcode = some x.toNat →
      Registers before e ⟨e.name, x, .r, e.cycles, e.addressing⟩
  | s {g x : Nibble} : Within g.toNat before → e.slot = some (.func1, x.toNat) →
      Registers before e ⟨e.name, g, .s x, e.cycles, e.addressing⟩
  | u {g x : Nibble} : Within g.toNat before → e.slot = some (.func2, x.toNat) →
      Registers before e ⟨e.name, g, .u x, e.cycles, e.addressing⟩
  | j {g x : Nibble} : Within g.toNat before → e.slot = some (.func3, x.toNat) →
      Registers before e ⟨e.name, g, .j x, e.cycles, e.addressing⟩

/-- What a step does to a builder after the others. -/
inductive Takes (before : List Step) (b : Builder) :
    Step → Except Misuse (Builder × Option EntryError) → Prop where
  | enter (x : Nibble) : Takes before b (.enter x.toNat) (.ok (b.enter x, none))
  | leave {g} : Within g before → Takes before b .leave (.ok (b.leave, none))
  | registered {e i} : Registers before e i → Takes before b (.register e) (.ok (b.add i, none))
  | skipped {e why} : Skips before e why → Takes before b (.register e) (.ok (b, some why))
  | misused {s why} : Misuses before s why → Takes before b s (.error why)

variable {before : List Step} {b : Builder} {s : Step} {e : Entry Nat} {i : Instruction}
  {why : Misuse} {g n : Nat} {r : Except Misuse (Builder × Option EntryError)}

/-! ## Steps -/

theorem groups_of_balanced (h : Opens before b.opcodes) (hbefore : Balanced before) :
    b.groups = [] := by
  have hopcodes : b.opcodes = [] := h.groups.symm.trans hbefore.groups
  exact List.map_eq_nil_iff.1 hopcodes

theorem groups_of_within (h : Opens before b.opcodes) (hbefore : Within g before) :
    ∃ x outer, b.groups = x :: outer ∧ x.toNat = g := by
  obtain ⟨outer, hgroups⟩ := hbefore.groups
  rw [h.groups] at hgroups
  obtain ⟨x, xs, hb, hx, -⟩ := List.map_eq_cons_iff.1 hgroups
  exact ⟨x, xs, hb, hx⟩

theorem nibble_of_lt {misuse : Nat → Misuse} (h : 15 < n) :
    Step.nibble misuse n = .error (misuse n) := by
  have hnone : Nibble.ofNat? n = none := if_neg (by omega)
  rw [Step.nibble, hnone]

/-- A number fits a nibble or it does not. -/
theorem nibble_or_lt (n : Nat) : (∃ x : Nibble, x.toNat = n) ∨ 15 < n :=
  (Nat.lt_or_ge 15 n).symm.imp Nibble.exists_toNat_eq id

theorem Misuses.apply (h : Misuses before s why) (hb : Opens before b.opcodes) :
    s.apply b = .error why := by
  cases h with
  | groupOpcode hn => rw [Step.apply, nibble_of_lt hn]; rfl
  | noOpenGroup hbefore => rw [Step.apply, groups_of_balanced hb hbefore]; rfl
  | opcode hbefore ho hn =>
    rw [Step.apply_register_of_no_group _ (groups_of_balanced hb hbefore), ho]
    simp only [nibble_of_lt hn, Except.map]
  | slot hbefore hs hn =>
    obtain ⟨x, outer, hgroups, -⟩ := groups_of_within hb hbefore
    rw [Step.apply_register_of_group _ hgroups, hs]
    simp only [nibble_of_lt hn, Except.map]

theorem Skips.apply {lack : EntryError} (h : Skips before e lack) (hb : Opens before b.opcodes) :
    (Step.register e).apply b = .ok (b, some lack) := by
  cases h with
  | missingOpcode hbefore ho =>
    rw [Step.apply_register_of_no_group e (groups_of_balanced hb hbefore), ho]
  | missingSlot hbefore hs =>
    obtain ⟨x, outer, hgroups, -⟩ := groups_of_within hb hbefore
    rw [Step.apply_register_of_group e hgroups, hs]

theorem Registers.apply (h : Registers before e i) (hb : Opens before b.opcodes) :
    (Step.register e).apply b = .ok (b.add i, none) := by
  cases h with
  | root hbefore ho =>
    rw [Step.apply_register_of_no_group e (groups_of_balanced hb hbefore), ho]
    simp only [Step.nibble_toNat, Except.map]
  | s hbefore hs | u hbefore hs | j hbefore hs =>
    obtain ⟨x, outer, hgroups, hx⟩ := groups_of_within hb hbefore
    obtain rfl := BitVec.eq_of_toNat_eq hx
    rw [Step.apply_register_of_group e hgroups, hs]
    simp only [Step.nibble_toNat, Except.map, Format.ofSlot]

theorem Takes.apply (h : Takes before b s r) (hb : Opens before b.opcodes) : s.apply b = r := by
  cases h with
  | enter x => rw [Step.apply, Step.nibble_toNat]; rfl
  | leave hbefore =>
    obtain ⟨x, outer, hgroups, -⟩ := groups_of_within hb hbefore
    rw [Step.apply, hgroups]
    rfl
  | registered h => exact h.apply hb
  | skipped h => exact h.apply hb
  | misused h => exact h.apply hb

theorem exists_takes_register_of_balanced (hbefore : Balanced before) (b : Builder)
    (e : Entry Nat) : ∃ r, Takes before b (.register e) r := by
  cases ho : e.opcode with
  | none => exact ⟨_, .skipped (.missingOpcode hbefore ho)⟩
  | some n =>
    obtain ⟨x, rfl⟩ | hn := nibble_or_lt n
    · exact ⟨_, .registered (.root hbefore ho)⟩
    · exact ⟨_, .misused (.opcode hbefore ho hn)⟩

theorem exists_takes_register_of_within {g : Nibble} (hbefore : Within g.toNat before) (b : Builder)
    (e : Entry Nat) : ∃ r, Takes before b (.register e) r := by
  cases hs : e.slot with
  | none => exact ⟨_, .skipped (.missingSlot hbefore hs)⟩
  | some slot =>
    obtain ⟨k, n⟩ := slot
    obtain ⟨x, rfl⟩ | hn := nibble_or_lt n
    · cases k with
      | func1 => exact ⟨_, .registered (.s hbefore hs)⟩
      | func2 => exact ⟨_, .registered (.u hbefore hs)⟩
      | func3 => exact ⟨_, .registered (.j hbefore hs)⟩
    · exact ⟨_, .misused (.slot hbefore hs hn)⟩

theorem balanced_or_within (hb : Opens before b.opcodes) :
    Balanced before ∨ ∃ g : Nibble, Within g.toNat before := by
  obtain ⟨is, groups⟩ := b
  cases groups with
  | nil => exact .inl hb.balanced
  | cons g outer => exact .inr ⟨g, hb.within⟩

theorem exists_takes (hb : Opens before b.opcodes) (s : Step) : ∃ r, Takes before b s r := by
  cases s with
  | enter n =>
    obtain ⟨x, rfl⟩ | hn := nibble_or_lt n
    · exact ⟨_, .enter x⟩
    · exact ⟨_, .misused (.groupOpcode hn)⟩
  | leave =>
    obtain hbefore | ⟨g, hbefore⟩ := balanced_or_within hb
    · exact ⟨_, .misused (.noOpenGroup hbefore)⟩
    · exact ⟨_, .leave hbefore⟩
  | register e =>
    obtain hbefore | ⟨g, hbefore⟩ := balanced_or_within hb
    · exact exists_takes_register_of_balanced hbefore b e
    · exact exists_takes_register_of_within hbefore b e

theorem apply_eq_iff (hb : Opens before b.opcodes) : s.apply b = r ↔ Takes before b s r := by
  constructor
  · rintro rfl
    obtain ⟨r, hr⟩ := exists_takes hb s
    rwa [hr.apply hb]
  · exact fun h => h.apply hb

theorem apply_eq_error_iff (hb : Opens before b.opcodes) :
    s.apply b = .error why ↔ Misuses before s why := by
  rw [apply_eq_iff hb]
  constructor
  · intro h
    cases h with
    | misused h => exact h
  · exact .misused

end Script
end Asm16
