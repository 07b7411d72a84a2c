-- SUMMARY: Every instruction a builder lists is declared by one of its steps, with the numbers as they were given.
import Asm16.Catalog.Builder
import Asm16.Proofs.Except

/-!
# Scripts

A script gives its numbers as they come, of any size. Those that an instruction is made of fit a
nibble, or there is no catalog. The opcode of an instruction is its own outside of any group, and the
one of the innermost open group within. Which groups are open is said of the steps alone.
-/

namespace Asm16

/-- The opcodes of the open groups after a step, the innermost first. -/
def Step.groups : Step → List Nat → List Nat
  | .enter n, opcodes => n :: opcodes
  | .leave, opcodes => opcodes.tail
  | .register _, opcodes => opcodes

/-- The entry declares the instruction among open groups. The numbers that make the instruction up
are those of the entry and the innermost group, and none of them is cut. -/
structure Entry.Declares (e : Entry Nat) (groups : List Nat) (i : Instruction) : Prop where
  name : e.name = i.mnemonic
  cycles : e.cycles = i.cycles
  addressing : e.addressing = i.addressing
  numbers : match groups with
    | [] => e.opcode = some i.opcode.toNat ∧ i.format = .r
    | opcode :: _ => opcode = i.opcode.toNat ∧
        ∃ k n, e.slot = some (k, n.toNat) ∧ i.format = .ofSlot k n

namespace Script

/-- The opcodes of the groups that steps leave open, the innermost first. -/
def groups (steps : List Step) : List Nat := steps.foldl (fun opcodes s => s.groups opcodes) []

/-- One of the steps registers an entry that declares the instruction where it stands. -/
def Declares (steps : List Step) (i : Instruction) : Prop :=
  ∃ pre e post, steps = pre ++ .register e :: post ∧ e.Declares (groups pre) i

end Script

variable {b b' : Builder} {s : Step} {steps done : List Step} {skipped : Option EntryError}
  {e : Entry Nat} {i : Instruction} {catalog : Catalog}

/-- The opcodes of the open groups of a builder. -/
def Builder.opcodes (b : Builder) : List Nat := b.groups.map (·.toNat)

/-! ## Declarations -/

namespace Entry.Declares

variable {groups outer : List Nat} {opcode n : Nat} {k : Slot} {x : Nibble}

theorem format (h : e.Declares (opcode :: outer) i) (hs : e.slot = some (k, n)) :
    ∃ x : Nibble, x.toNat = n ∧ i.format = .ofSlot k x := by
  obtain ⟨-, j, x, hslot, hformat⟩ := h.numbers
  cases hs.symm.trans hslot
  exact ⟨x, rfl, hformat⟩

/-- Format R is declared outside of any group. -/
theorem of_r (h : e.Declares groups i) (hf : i.format = .r) :
    groups = [] ∧ e.opcode = some i.opcode.toNat := by
  cases groups with
  | nil => exact ⟨rfl, h.numbers.1⟩
  | cons opcode outer =>
    obtain ⟨-, k, x, -, hformat⟩ := h.numbers
    rw [hf] at hformat
    cases k <;> cases hformat

/-- Any other format is declared in a group, by its slot. -/
theorem of_slot (h : e.Declares groups i) (hf : i.format = .ofSlot k x) :
    ∃ outer, groups = i.opcode.toNat :: outer ∧ e.slot = some (k, x.toNat) := by
  cases groups with
  | nil =>
    have hformat := h.numbers.2
    rw [hf] at hformat
    cases k <;> cases hformat
  | cons opcode outer =>
    obtain ⟨rfl, j, y, hslot, hformat⟩ := h.numbers
    refine ⟨outer, rfl, ?_⟩
    rw [hf] at hformat
    cases k <;> cases j <;> cases hformat <;> exact hslot

end Entry.Declares

/-! ## Steps -/

namespace Step

theorem nibble_eq_ok_iff {misuse : Nat → Misuse} {n : Nat} {x : Nibble} :
    nibble misuse n = .ok x ↔ x.toNat = n := by
  rw [← Nibble.ofNat?_eq_some_iff, nibble]
  cases Nibble.ofNat? n <;> simp

/-- A nibble is used as the number it is. -/
theorem nibble_toNat (misuse : Nat → Misuse) (x : Nibble) : nibble misuse x.toNat = .ok x :=
  nibble_eq_ok_iff.2 rfl

theorem apply_register_of_no_group (e : Entry Nat) (hb : b.groups = []) :
    (Step.register e).apply b = match e.opcode with
      | none => .ok (b, some (.missingOpcode e.name))
      | some n => (nibble .opcode n).map fun x =>
          (b.add ⟨e.name, x, .r, e.cycles, e.addressing⟩, none) := by
  cases ho : e.opcode with
  | none => simp [apply, used, hb, ho, Builder.register, pure, Except.pure]
  | some n =>
    simp only [apply, used, hb, ho, List.isEmpty_nil, Bool.not_true, Bool.false_eq_true, if_false]
    cases nibble .opcode n with
    | error why => rfl
    | ok x =>
      simp only [ok_bind, pure_bind, Builder.register, hb]
      rfl

theorem apply_register_of_group {opcode : Nibble} {outer : List Nibble} (e : Entry Nat)
    (hb : b.groups = opcode :: outer) :
    (Step.register e).apply b = match e.slot with
      | none => .ok (b, some (.missingSlot e.name))
      | some (k, n) => (nibble .slot n).map fun x =>
          (b.add ⟨e.name, opcode, .ofSlot k x, e.cycles, e.addressing⟩, none) := by
  cases hs : e.slot with
  | none => simp [apply, used, hb, hs, Builder.register, pure, Except.pure]
  | some slot =>
    obtain ⟨k, n⟩ := slot
    simp only [apply, used, hb, hs, List.isEmpty_cons, Bool.not_false, if_true]
    cases nibble .slot n with
    | error why => rfl
    | ok x =>
      simp only [ok_bind, pure_bind, Builder.register, hb]
      rfl

/-- Outside of any group an entry is added with its opcode, or skipped. -/
theorem register_of_no_group (hb : b.groups = [])
    (h : (Step.register e).apply b = .ok (b', skipped)) :
    b' = b ∨ ∃ i, b' = b.add i ∧ e.Declares [] i := by
  rw [apply_register_of_no_group e hb] at h
  cases ho : e.opcode with
  | none =>
    rw [ho] at h
    cases h
    exact .inl rfl
  | some n =>
    rw [ho] at h
    obtain ⟨x, hx, hpair⟩ := map_eq_ok.1 h
    cases hpair
    exact .inr ⟨_, rfl, rfl, rfl, rfl, by rw [ho, nibble_eq_ok_iff.1 hx], rfl⟩

/-- In a group an entry is added with the opcode of the innermost group, or skipped. -/
theorem register_of_group {opcode : Nibble} {outer : List Nibble} (hb : b.groups = opcode :: outer)
    (h : (Step.register e).apply b = .ok (b', skipped)) :
    b' = b ∨ ∃ i, b' = b.add i ∧ ∀ rest, e.Declares (opcode.toNat :: rest) i := by
  rw [apply_register_of_group e hb] at h
  cases hs : e.slot with
  | none =>
    rw [hs] at h
    cases h
    exact .inl rfl
  | some slot =>
    obtain ⟨k, n⟩ := slot
    rw [hs] at h
    obtain ⟨x, hx, hpair⟩ := map_eq_ok.1 h
    cases hpair
    refine .inr ⟨_, rfl, fun _ => ⟨rfl, rfl, rfl, rfl, k, x, ?_, rfl⟩⟩
    rw [hs, nibble_eq_ok_iff.1 hx]

/-- A step opens or closes a group as its number says, and adds an instruction only if it declares
one among the groups that are open. -/
theorem apply_eq_ok (h : s.apply b = .ok (b', skipped)) :
    b'.opcodes = s.groups b.opcodes ∧
      (b'.instructions = b.instructions ∨ ∃ e i, s = .register e ∧ e.Declares b.opcodes i ∧
        b'.instructions = b.instructions ++ [i]) := by
  cases s with
  | enter n =>
    obtain ⟨x, hx, hpure⟩ := bind_eq_ok.1 h
    cases hpure
    refine ⟨?_, .inl rfl⟩
    rw [Step.groups, ← nibble_eq_ok_iff.1 hx]
    rfl
  | leave =>
    rw [apply] at h
    split at h
    · cases h
    · cases h
      exact ⟨List.map_tail, .inl rfl⟩
  | register e =>
    cases hb : b.groups with
    | nil =>
      obtain rfl | ⟨i, rfl, hi⟩ := register_of_no_group hb h
      · exact ⟨rfl, .inl rfl⟩
      · refine ⟨rfl, .inr ⟨e, i, rfl, ?_, rfl⟩⟩
        rw [Builder.opcodes, hb]
        exact hi
    | cons opcode outer =>
      obtain rfl | ⟨i, rfl, hi⟩ := register_of_group hb h
      · exact ⟨rfl, .inl rfl⟩
      · refine ⟨rfl, .inr ⟨e, i, rfl, ?_, rfl⟩⟩
        rw [Builder.opcodes, hb]
        exact hi _

end Step

/-! ## Runs -/

namespace Script

theorem run_append (b : Builder) (steps rest : List Step) :
    run b (steps ++ rest) = run b steps >>= fun b' => run b' rest := by
  induction steps generalizing b with
  | nil => rfl
  | cons s steps ih =>
    rw [List.cons_append, run, run]
    cases s.apply b with
    | error why => rfl
    | ok p => exact ih p.1

theorem groups_append (steps : List Step) (s : Step) :
    groups (steps ++ [s]) = s.groups (groups steps) := by
  simp [groups]

theorem Declares.append (h : Declares steps i) (rest : List Step) : Declares (steps ++ rest) i := by
  obtain ⟨pre, e, post, rfl, he⟩ := h
  exact ⟨pre, e, post ++ rest, by simp, he⟩

/-- The builder has the groups open that the steps leave open, and lists nothing else than what they
declare. -/
structure Follows (steps : List Step) (b : Builder) : Prop where
  opcodes : b.opcodes = groups steps
  instructions : ∀ i ∈ b.instructions, Declares steps i

theorem Follows.step (hb : Follows steps b) (h : s.apply b = .ok (b', skipped)) :
    Follows (steps ++ [s]) b' := by
  obtain ⟨hopcodes, hinstructions⟩ := Step.apply_eq_ok h
  refine ⟨?_, ?_⟩
  · rw [hopcodes, hb.opcodes, groups_append]
  · intro i hi
    obtain heq | ⟨e, j, rfl, hj, heq⟩ := hinstructions
    · rw [heq] at hi
      exact (hb.instructions i hi).append [s]
    · rw [heq] at hi
      rcases List.mem_append.1 hi with hi | hi
      · exact (hb.instructions i hi).append _
      · obtain rfl := List.mem_singleton.1 hi
        exact ⟨steps, e, [], rfl, hb.opcodes ▸ hj⟩

theorem Follows.run (hb : Follows done b) (h : run b steps = .ok b') :
    Follows (done ++ steps) b' := by
  induction steps generalizing b done with
  | nil =>
    cases h
    rw [List.append_nil]
    exact hb
  | cons s steps ih =>
    obtain ⟨⟨next, skipped⟩, hs, h⟩ := bind_eq_ok.1 h
    rw [List.append_cons]
    exact ih (hb.step hs) h

/-- Every instruction of the catalog that steps build is declared by one of them. -/
theorem declares_of_catalog (h : Script.catalog steps = .ok catalog) (hi : i ∈ catalog.instructions) :
    Declares steps i := by
  obtain ⟨b, hb, hclose⟩ := bind_eq_ok.1 h
  have hempty : Follows [] Builder.empty := ⟨rfl, by simp [Builder.empty]⟩
  have hfollows : Follows steps b := hempty.run hb
  rw [close] at hclose
  split at hclose
  · cases hclose
    exact hfollows.instructions i hi
  · cases hclose

end Script
end Asm16
