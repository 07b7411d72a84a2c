-- SUMMARY: Which groups are open after a list of steps, said by how the steps pair up, without a stack.
import Asm16.Proofs.Catalog.Script

/-!
# Nesting

A step that opens a group and one that closes it belong together if what stands between them pairs up
in the same way. After steps that pair up, no group is open. After any others, if no group was closed
that was not open, the innermost open group is the last one opened before steps that pair up.
-/

namespace Asm16
namespace Script

/-- Every group that the steps open they close, and they close no other. -/
inductive Balanced : List Step → Prop where
  | nil : Balanced []
  | register {steps} (e : Entry Nat) : Balanced steps → Balanced (steps ++ [.register e])
  | group {steps inner} (n : Nat) : Balanced steps → Balanced inner →
      Balanced (steps ++ .enter n :: (inner ++ [.leave]))

/-- The innermost group that the steps leave open has the opcode. -/
def Within (opcode : Nat) (steps : List Step) : Prop :=
  ∃ outer inner, steps = outer ++ .enter opcode :: inner ∧ Balanced inner

/-- The steps leave groups of these opcodes open, the innermost first. -/
inductive Opens : List Step → List Nat → Prop where
  | outside {steps} : Balanced steps → Opens steps []
  | inside {outer inner opcodes} (n : Nat) : Opens outer opcodes → Balanced inner →
      Opens (outer ++ .enter n :: inner) (n :: opcodes)

variable {steps inner : List Step} {opcodes : List Nat} {n : Nat}

/-! ## Open groups by their steps -/

/-- Steps that pair up leave the groups as they are. -/
theorem Balanced.foldl_groups (h : Balanced steps) (opcodes : List Nat) :
    steps.foldl (fun opcodes s => s.groups opcodes) opcodes = opcodes := by
  induction h generalizing opcodes with
  | nil => rfl
  | register e _ ih =>
    rw [List.foldl_append, ih]
    rfl
  | group n _ _ ih ihInner =>
    rw [List.foldl_append, ih, List.foldl_cons, List.foldl_append, ihInner]
    rfl

theorem Balanced.groups (h : Balanced steps) : groups steps = [] := h.foldl_groups []

theorem Within.groups (h : Within n steps) : ∃ outer, groups steps = n :: outer := by
  obtain ⟨outer, inner, rfl, hinner⟩ := h
  refine ⟨Script.groups outer, ?_⟩
  rw [Script.groups, List.foldl_append, List.foldl_cons, hinner.foldl_groups]
  rfl

theorem Opens.groups (h : Opens steps opcodes) : groups steps = opcodes := by
  induction h with
  | outside h => exact h.groups
  | inside n _ hinner ih =>
    rw [Script.groups, List.foldl_append, List.foldl_cons, hinner.foldl_groups, ← Script.groups, ih]
    rfl

theorem Opens.balanced (h : Opens steps []) : Balanced steps := by
  cases h with
  | outside h => exact h

theorem Opens.within (h : Opens steps (n :: opcodes)) : Within n steps := by
  cases h with
  | inside n houter hinner => exact ⟨_, _, rfl, hinner⟩

/-! ## Open groups step by step -/

theorem Opens.enter (h : Opens steps opcodes) (n : Nat) :
    Opens (steps ++ [.enter n]) (n :: opcodes) :=
  .inside n h .nil

theorem Opens.register (h : Opens steps opcodes) (e : Entry Nat) :
    Opens (steps ++ [.register e]) opcodes := by
  cases h with
  | outside h => exact .outside (h.register e)
  | inside n houter hinner =>
    rw [List.append_assoc, List.cons_append]
    exact .inside n houter (hinner.register e)

/-- A group is closed together with the steps since it was opened. -/
theorem Opens.group (h : Opens steps opcodes) (n : Nat) (hinner : Balanced inner) :
    Opens (steps ++ .enter n :: (inner ++ [.leave])) opcodes := by
  cases h with
  | outside h => exact .outside (h.group n hinner)
  | inside m houter hsteps =>
    rw [List.append_assoc, List.cons_append]
    exact .inside m houter (hsteps.group n hinner)

theorem Opens.leave (h : Opens steps (n :: opcodes)) : Opens (steps ++ [.leave]) opcodes := by
  cases h with
  | inside n houter hinner =>
    rw [List.append_assoc, List.cons_append]
    exact houter.group n hinner

end Script
end Asm16
