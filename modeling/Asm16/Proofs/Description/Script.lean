-- SUMMARY: The catalog of a description is the catalog of a script, so what holds of scripts holds of descriptions.
import Asm16.Description.Load
import Asm16.Proofs.Catalog.Script

/-!
# Descriptions as scripts

A description is loaded by a walk over its tree that registers instructions and opens and closes
groups. The walk is a script: a group is entered, its instructions and groups follow, and it is left.
-/

namespace Asm16

variable {b b' b'' : Builder} {e : Entry Nibble} {d : Description} {catalog : Catalog}

/-- The entry with its nibbles as plain numbers. -/
def Entry.numbers (e : Entry Nibble) : Entry Nat :=
  ⟨e.name, e.opcode.map (·.toNat), e.slot.map fun p => (p.1, p.2.toNat), e.cycles, e.addressing⟩

/-! ## Single steps -/

/-- An entry of nibbles is registered by a step. -/
theorem Step.apply_numbers (h : b.register e = .ok b') :
    (Step.register e.numbers).apply b = .ok (b', none) := by
  cases hb : b.groups with
  | nil =>
    simp only [Builder.register, hb] at h
    rw [Step.apply_register_of_no_group e.numbers hb]
    cases ho : e.opcode with
    | none =>
      rw [ho] at h
      cases h
    | some x =>
      rw [ho] at h
      cases h
      simp only [Entry.numbers, ho, Option.map_some, nibble_toNat, Except.map]
  | cons opcode outer =>
    simp only [Builder.register, hb] at h
    rw [Step.apply_register_of_group e.numbers hb]
    cases hs : e.slot with
    | none =>
      rw [hs] at h
      cases h
    | some slot =>
      rw [hs] at h
      cases h
      simp only [Entry.numbers, hs, Option.map_some, nibble_toNat, Except.map]

namespace Builder

theorem register_groups (h : b.register e = .ok b') : b'.groups = b.groups := by
  unfold register at h
  split at h
  · split at h
    · cases h
    · cases h
      rfl
  · split at h
    · cases h
    · cases h
      rfl

/-! ## Walks -/

/-- A script leads from one builder to another and leaves the groups as they are. -/
def Builds (b b' : Builder) : Prop :=
  b'.groups = b.groups ∧ ∃ steps, Script.run b steps = .ok b'

theorem Builds.refl (b : Builder) : Builds b b := ⟨rfl, [], rfl⟩

theorem Builds.trans (h : Builds b b') (k : Builds b' b'') : Builds b b'' := by
  obtain ⟨hgroups, steps, hsteps⟩ := h
  obtain ⟨kgroups, rest, hrest⟩ := k
  refine ⟨kgroups.trans hgroups, steps ++ rest, ?_⟩
  rw [Script.run_append, hsteps]
  exact hrest

/-- A script may stand between the opening and the closing of a group. -/
theorem Builds.group (x : Nibble) (h : Builds (b.enter x) b') : Builds b b'.leave := by
  obtain ⟨hgroups, steps, hsteps⟩ := h
  have hleave : b'.leave.groups = b.groups := by
    rw [leave, hgroups]
    rfl
  have henter : (Step.enter x.toNat).apply b = .ok (b.enter x, none) := by
    rw [Step.apply, Step.nibble_toNat, ok_bind]
    rfl
  have hopen : b'.groups.isEmpty = false := by
    rw [hgroups]
    rfl
  refine ⟨hleave, .enter x.toNat :: (steps ++ [.leave]), ?_⟩
  rw [Script.run, henter, ok_bind]
  dsimp only
  rw [Script.run_append, hsteps, ok_bind, Script.run, Step.apply, hopen]
  rfl

theorem builds_of_register (h : b.register e = .ok b') : Builds b b' := by
  refine ⟨register_groups h, [.register e.numbers], ?_⟩
  rw [Script.run, Step.apply_numbers h]
  rfl

theorem builds_of_declare {grouped : Bool} {ds : List Declaration}
    (h : declare grouped b ds = .ok b') : Builds b b' := by
  induction ds generalizing b with
  | nil =>
    cases h
    exact .refl _
  | cons d ds ih =>
    obtain ⟨e, -, h⟩ := bind_eq_ok.1 h
    cases hr : b.register e with
    | error why =>
      simp only [hr] at h
      cases h
    | ok next =>
      simp only [hr] at h
      exact (builds_of_register hr).trans (ih h)

mutual

theorem builds_of_declareGroup {b b' : Builder} {g : Group} (h : b.declareGroup g = .ok b') :
    Builds b b' := by
  match g with
  | .mk opcode instructions groups =>
    rw [declareGroup] at h
    obtain ⟨x, -, h⟩ := bind_eq_ok.1 h
    obtain ⟨declared, hdeclared, h⟩ := bind_eq_ok.1 h
    obtain ⟨last, hlast, h⟩ := bind_eq_ok.1 h
    cases h
    exact ((builds_of_declare hdeclared).trans (builds_of_declareGroups hlast)).group x

theorem builds_of_declareGroups {b b' : Builder} {gs : List Group}
    (h : b.declareGroups gs = .ok b') : Builds b b' := by
  match gs with
  | [] =>
    rw [declareGroups] at h
    cases h
    exact .refl _
  | g :: gs =>
    rw [declareGroups] at h
    obtain ⟨next, hnext, h⟩ := bind_eq_ok.1 h
    exact (builds_of_declareGroup hnext).trans (builds_of_declareGroups h)

end

end Builder

/-! ## Descriptions -/

namespace Description

theorem exists_script (h : d.catalog = .ok catalog) :
    ∃ steps, Script.catalog steps = .ok catalog := by
  obtain ⟨declared, hdeclared, h⟩ := bind_eq_ok.1 h
  obtain ⟨last, hlast, h⟩ := bind_eq_ok.1 h
  cases h
  obtain ⟨hgroups, steps, hsteps⟩ :=
    (Builder.builds_of_declare hdeclared).trans (Builder.builds_of_declareGroups hlast)
  refine ⟨steps, ?_⟩
  rw [Script.catalog, hsteps, ok_bind, Script.close, hgroups]
  rfl

/-- What a source text loads is built by a script, whatever it is read with. -/
theorem exists_script_of_load {source : Text} {read : Text → Option Description}
    (h : load source read = .ok catalog) : ∃ steps, Script.catalog steps = .ok catalog := by
  rw [load] at h
  split at h
  · exact exists_script h
  · cases h

end Description
end Asm16
