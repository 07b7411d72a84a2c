-- SUMMARY: What a builder answers along a script, where it is misused, and which catalog it ends with.
import Asm16.Proofs.Catalog.Steps

/-!
# Replies

A script is played up to its first misuse. A skipped entry leaves everything as it was, so the script
has the same catalog without it. A script whose steps are no misuse and pair up lists the instructions
of the entries that were not skipped, in their order.
-/

namespace Asm16
namespace Script

/-- No step is a misuse after those before it. -/
def Sound (steps : List Step) : Prop :=
  ∀ before s after why, steps = before ++ s :: after → ¬ Misuses before s why

/-- The instructions are those of the entries among the steps, in their order, but for the entries that
are skipped. -/
inductive Lists : List Step → List Instruction → Prop where
  | nil : Lists [] []
  | enter {steps is n} : Lists steps is → Lists (steps ++ [.enter n]) is
  | leave {steps is} : Lists steps is → Lists (steps ++ [.leave]) is
  | skipped {steps is e why} : Lists steps is → Skips steps e why →
      Lists (steps ++ [.register e]) is
  | registered {steps is e i} : Lists steps is → Registers steps e i →
      Lists (steps ++ [.register e]) (is ++ [i])

/-- What a builder answers to a step after the others. -/
inductive Answers (before : List Step) : Step → Reply → Prop where
  | entered {n} : n ≤ 15 → Answers before (.enter n) .done
  | left {g} : Within g before → Answers before .leave .done
  | registered {e i} : Registers before e i → Answers before (.register e) .done
  | skipped {e why} : Skips before e why → Answers before (.register e) (.skipped why)
  | misused {s why} : Misuses before s why → Answers before s (.misused why)

variable {steps before after : List Step} {b b' : Builder} {s : Step} {e : Entry Nat}
  {i : Instruction} {why : Misuse} {skipped : Option EntryError} {g k : Nat}

/-! ## Runs -/

/-- What the steps make of an empty builder. -/
structure Yields (steps : List Step) (b : Builder) : Prop where
  opens : Opens steps b.opcodes
  lists : Lists steps b.instructions

theorem Yields.empty : Yields [] .empty := ⟨.outside .nil, .nil⟩

theorem Yields.step (hb : Yields steps b) (h : s.apply b = .ok (b', skipped)) :
    Yields (steps ++ [s]) b' := by
  obtain ⟨hopens, hlists⟩ := hb
  cases (apply_eq_iff hopens).1 h with
  | enter x => exact ⟨hopens.enter x.toNat, hlists.enter⟩
  | leave hwithin =>
    obtain ⟨x, outer, hgroups, -⟩ := groups_of_within hopens hwithin
    rw [Builder.opcodes, hgroups] at hopens
    refine ⟨?_, hlists.leave⟩
    rw [Builder.opcodes, Builder.leave, hgroups]
    exact hopens.leave
  | registered hi => exact ⟨hopens.register _, hlists.registered hi⟩
  | skipped hwhy => exact ⟨hopens.register _, hlists.skipped hwhy⟩

theorem Yields.run (hb : Yields before b) (h : run b steps = .ok b') :
    Yields (before ++ steps) b' := by
  induction steps generalizing b before with
  | nil =>
    cases h
    rwa [List.append_nil]
  | cons s steps ih =>
    obtain ⟨⟨next, skipped⟩, hs, h⟩ := bind_eq_ok.1 h
    rw [List.append_cons]
    exact ih (hb.step hs) h

theorem yields_of_run (h : Script.run .empty steps = .ok b) : Yields steps b := Yields.empty.run h

/-- A run fails at the first step that fails. -/
theorem run_eq_error_iff : run b steps = .error why ↔ ∃ before s after b',
    steps = before ++ s :: after ∧ run b before = .ok b' ∧ s.apply b' = .error why := by
  constructor
  · intro h
    induction steps generalizing b with
    | nil => cases h
    | cons s steps ih =>
      cases hs : s.apply b with
      | error first =>
        rw [run, hs] at h
        cases h
        exact ⟨[], s, steps, b, rfl, rfl, hs⟩
      | ok p =>
        rw [run, hs] at h
        obtain ⟨before, t, after, b', rfl, hrun, ht⟩ := ih h
        refine ⟨s :: before, t, after, b', rfl, ?_, ht⟩
        rw [run, hs]
        exact hrun
  · rintro ⟨before, s, after, b', rfl, hrun, hs⟩
    rw [run_append, hrun, ok_bind, run, hs]
    rfl

/-- The steps have a builder at their end if none of them is a misuse. -/
theorem sound_iff : Sound steps ↔ ∃ b, run .empty steps = .ok b := by
  constructor
  · intro h
    cases hrun : run .empty steps with
    | ok b => exact ⟨b, rfl⟩
    | error why =>
      obtain ⟨before, s, after, b, hsteps, hbefore, hs⟩ := run_eq_error_iff.1 hrun
      exact absurd ((apply_eq_error_iff (yields_of_run hbefore).opens).1 hs)
        (h before s after why hsteps)
  · rintro ⟨b, hrun⟩ before s after why rfl hwhy
    obtain ⟨b', hbefore, hafter⟩ := bind_eq_ok.1 ((run_append _ _ _).symm.trans hrun)
    rw [run, hwhy.apply (yields_of_run hbefore).opens] at hafter
    cases hafter

/-- A run fails as the first misuse among its steps says. -/
theorem run_empty_eq_error_iff : run .empty steps = .error why ↔ ∃ before s after,
    steps = before ++ s :: after ∧ Sound before ∧ Misuses before s why := by
  rw [run_eq_error_iff]
  constructor
  · rintro ⟨before, s, after, b, hsteps, hrun, hs⟩
    exact ⟨before, s, after, hsteps, sound_iff.2 ⟨b, hrun⟩,
      (apply_eq_error_iff (yields_of_run hrun).opens).1 hs⟩
  · rintro ⟨before, s, after, hsteps, hsound, hwhy⟩
    obtain ⟨b, hrun⟩ := sound_iff.1 hsound
    exact ⟨before, s, after, b, hsteps, hrun, hwhy.apply (yields_of_run hrun).opens⟩

/-- The last step of a run is taken by the builder of the steps before it. -/
theorem exists_of_run_concat (h : run .empty (steps ++ [s]) = .ok b) :
    ∃ b' skipped, run .empty steps = .ok b' ∧ Takes steps b' s (.ok (b, skipped)) := by
  obtain ⟨b', hsteps, hs⟩ := bind_eq_ok.1 ((run_append _ _ _).symm.trans h)
  obtain ⟨⟨next, skipped⟩, hs, hnil⟩ := bind_eq_ok.1 hs
  cases hnil
  exact ⟨b', skipped, hsteps, (apply_eq_iff (yields_of_run hsteps).opens).1 hs⟩

/-- A run goes on after an entry that is skipped as it would without it. -/
theorem run_concat_of_skips {lack : EntryError} (h : Skips steps e lack) :
    run .empty (steps ++ [.register e]) = run .empty steps := by
  rw [run_append]
  cases hrun : run .empty steps with
  | error why => rfl
  | ok b =>
    rw [ok_bind, run, h.apply (yields_of_run hrun).opens]
    rfl

theorem run_concat_of_registers (h : Registers steps e i) (hrun : run .empty steps = .ok b) :
    run .empty (steps ++ [.register e]) = .ok (b.add i) := by
  rw [run_append, hrun, ok_bind, run, h.apply (yields_of_run hrun).opens]
  rfl

/-- What the steps list is what their builder holds. -/
theorem Lists.eq_instructions {is : List Instruction} (h : Lists steps is)
    (hrun : run .empty steps = .ok b) : is = b.instructions := by
  induction h generalizing b with
  | nil =>
    cases hrun
    rfl
  | enter _ ih =>
    obtain ⟨b', skipped, hsteps, htakes⟩ := exists_of_run_concat hrun
    cases htakes with
    | enter x => rw [ih hsteps]; rfl
  | leave _ ih =>
    obtain ⟨b', skipped, hsteps, htakes⟩ := exists_of_run_concat hrun
    cases htakes with
    | leave _ => rw [ih hsteps]; rfl
  | skipped _ hwhy ih =>
    rw [run_concat_of_skips hwhy] at hrun
    exact ih hrun
  | registered _ hi ih =>
    obtain ⟨b', -, hsteps, -⟩ := exists_of_run_concat hrun
    cases hrun.symm.trans (run_concat_of_registers hi hsteps)
    rw [ih hsteps]
    rfl

/-! ## Replies -/

/-- What a builder answers when it takes a step. -/
def reply : Except Misuse (Builder × Option EntryError) → Reply
  | .ok (_, none) => .done
  | .ok (_, some why) => .skipped why
  | .error why => .misused why

theorem play_cons (b : Builder) (s : Step) (steps : List Step) :
    (play b (s :: steps)).1 = reply (s.apply b) ::
      match s.apply b with
      | .ok p => (play p.1 steps).1
      | .error _ => [] := by
  rw [play]
  cases s.apply b with
  | error why => rfl
  | ok p => obtain ⟨b', _ | why⟩ := p <;> rfl

/-- A step is answered by the builder that the steps before it leave. -/
theorem getElem?_play_eq_some_iff {answer : Reply} :
    (play b steps).1[k]? = some answer ↔ ∃ before s after b', steps = before ++ s :: after ∧
      before.length = k ∧ run b before = .ok b' ∧ reply (s.apply b') = answer := by
  induction steps generalizing b k with
  | nil => simp [play]
  | cons s steps ih =>
    rw [play_cons]
    cases k with
    | zero =>
      constructor
      · intro h
        exact ⟨[], s, steps, b, rfl, rfl, rfl, Option.some.inj h⟩
      · rintro ⟨before, t, after, b', hsteps, hlength, hrun, ht⟩
        obtain rfl := List.length_eq_zero_iff.1 hlength
        cases hsteps
        cases hrun
        exact congrArg some ht
    | succ k =>
      constructor
      · intro h
        cases hs : s.apply b with
        | error why => simp [hs] at h
        | ok p =>
          rw [hs] at h
          obtain ⟨before, t, after, b', rfl, rfl, hrun, ht⟩ := ih.1 h
          refine ⟨s :: before, t, after, b', rfl, rfl, ?_, ht⟩
          rw [run, hs]
          exact hrun
      · rintro ⟨before, t, after, b', hsteps, hlength, hrun, ht⟩
        obtain ⟨u, before, rfl⟩ := List.exists_cons_of_length_eq_add_one hlength
        cases hsteps
        obtain ⟨p, hs, hrun⟩ := bind_eq_ok.1 hrun
        rw [hs]
        exact ih.2 ⟨before, t, after, b', rfl, Nat.succ.inj hlength, hrun, ht⟩

/-- The builder at the end of the replies is the one of the run. -/
theorem play_snd_eq_some_iff : (play b steps).2 = some b' ↔ run b steps = .ok b' := by
  induction steps generalizing b with
  | nil => simp [play, run]
  | cons s steps ih =>
    rw [play, run]
    cases s.apply b with
    | error why => simp [bind, Except.bind]
    | ok p => exact ih

theorem answers_iff {answer : Reply} (hb : Opens before b.opcodes) :
    reply (s.apply b) = answer ↔ Answers before s answer := by
  constructor
  · rintro rfl
    obtain ⟨r, hr⟩ := exists_takes hb s
    rw [hr.apply hb]
    cases hr with
    | enter x => exact .entered (Nat.le_of_lt_succ x.isLt)
    | leave hg => exact .left hg
    | registered hi => exact .registered hi
    | skipped hwhy => exact .skipped hwhy
    | misused hwhy => exact .misused hwhy
  · intro h
    cases h with
    | entered hn =>
      obtain ⟨x, rfl⟩ := Nibble.exists_toNat_eq hn
      rw [(Takes.enter x).apply hb]
      rfl
    | left hg => rw [(Takes.leave hg).apply hb]; rfl
    | registered hi => rw [hi.apply hb]; rfl
    | skipped hwhy => rw [hwhy.apply hb]; rfl
    | misused hwhy => rw [hwhy.apply hb]; rfl

theorem getElem?_play_empty_eq_some_iff {answer : Reply} :
    (play .empty steps).1[k]? = some answer ↔ ∃ before s after, steps = before ++ s :: after ∧
      before.length = k ∧ Sound before ∧ Answers before s answer := by
  rw [getElem?_play_eq_some_iff]
  constructor
  · rintro ⟨before, s, after, b, hsteps, hlength, hrun, hs⟩
    exact ⟨before, s, after, hsteps, hlength, sound_iff.2 ⟨b, hrun⟩,
      (answers_iff (yields_of_run hrun).opens).1 hs⟩
  · rintro ⟨before, s, after, hsteps, hlength, hsound, hs⟩
    obtain ⟨b, hrun⟩ := sound_iff.1 hsound
    exact ⟨before, s, after, b, hsteps, hlength, hrun,
      (answers_iff (yields_of_run hrun).opens).2 hs⟩

/-! ## Catalogs -/

variable {catalog : Catalog}

theorem catalog_of_run_error (h : run .empty steps = .error why) :
    Script.catalog steps = .error why := by
  rw [Script.catalog, h]
  rfl

theorem catalog_of_balanced (hrun : run .empty steps = .ok b) (h : Balanced steps) :
    Script.catalog steps = .ok b.catalog := by
  rw [Script.catalog, hrun, ok_bind, close, groups_of_balanced (yields_of_run hrun).opens h]
  rfl

theorem catalog_of_within (hrun : run .empty steps = .ok b) (h : Within g steps) :
    Script.catalog steps = .error .openGroup := by
  obtain ⟨x, outer, hgroups, -⟩ := groups_of_within (yields_of_run hrun).opens h
  rw [Script.catalog, hrun, ok_bind, close, hgroups]
  rfl

theorem catalog_eq_ok_iff : Script.catalog steps = .ok catalog ↔
    Sound steps ∧ Balanced steps ∧ Lists steps catalog.instructions := by
  constructor
  · intro h
    obtain ⟨b, hrun, -⟩ := bind_eq_ok.1 h
    obtain hbalanced | ⟨g, hwithin⟩ := balanced_or_within (yields_of_run hrun).opens
    · cases h.symm.trans (catalog_of_balanced hrun hbalanced)
      exact ⟨sound_iff.2 ⟨b, hrun⟩, hbalanced, (yields_of_run hrun).lists⟩
    · cases h.symm.trans (catalog_of_within hrun hwithin)
  · rintro ⟨hsound, hbalanced, hlists⟩
    obtain ⟨b, hrun⟩ := sound_iff.1 hsound
    rw [catalog_of_balanced hrun hbalanced, Builder.catalog, ← hlists.eq_instructions hrun]

theorem catalog_eq_error_iff : Script.catalog steps = .error why ↔
    (∃ before s after, steps = before ++ s :: after ∧ Sound before ∧ Misuses before s why) ∨
      (why = .openGroup ∧ Sound steps ∧ ∃ opcode, Within opcode steps) := by
  rw [← run_empty_eq_error_iff]
  constructor
  · intro h
    cases hrun : run .empty steps with
    | error first =>
      cases h.symm.trans (catalog_of_run_error hrun)
      exact .inl rfl
    | ok b =>
      obtain hbalanced | ⟨g, hwithin⟩ := balanced_or_within (yields_of_run hrun).opens
      · cases h.symm.trans (catalog_of_balanced hrun hbalanced)
      · cases h.symm.trans (catalog_of_within hrun hwithin)
        exact .inr ⟨rfl, sound_iff.2 ⟨b, hrun⟩, _, hwithin⟩
  · rintro (hrun | ⟨rfl, hsound, g, hwithin⟩)
    · exact catalog_of_run_error hrun
    · obtain ⟨b, hrun⟩ := sound_iff.1 hsound
      exact catalog_of_within hrun hwithin

theorem catalog_of_skips {lack : EntryError} (h : Skips before e lack) (after : List Step) :
    Script.catalog (before ++ after) = Script.catalog (before ++ .register e :: after) := by
  rw [Script.catalog, Script.catalog, List.append_cons, run_append, run_append _ _ after,
    run_concat_of_skips h]

/-- How a script is answered and what it builds. Which groups are open is said of its steps, not of the
builder that takes them. -/
structure Behaves (steps : List Step) : Prop where
  /-- A step is answered if no step before it is a misuse. -/
  replies : ∀ k answer, (play .empty steps).1[k]? = some answer ↔
    ∃ before s after, steps = before ++ s :: after ∧ before.length = k ∧ Sound before ∧
      Answers before s answer
  /-- What is built is the catalog of the builder that the replies end with. -/
  built : ∀ catalog, Script.catalog steps = .ok catalog ↔
    ∃ b, (play .empty steps).2 = some b ∧ close b = .ok catalog
  /-- There is no catalog after the first misuse, nor while a group is open. -/
  misused : ∀ why, Script.catalog steps = .error why ↔
    (∃ before s after, steps = before ++ s :: after ∧ Sound before ∧ Misuses before s why) ∨
      (why = .openGroup ∧ Sound steps ∧ ∃ opcode, Within opcode steps)
  /-- Otherwise there is one, of the instructions that are registered. -/
  listed : ∀ catalog, Script.catalog steps = .ok catalog ↔
    Sound steps ∧ Balanced steps ∧ Lists steps catalog.instructions
  /-- All its numbers are nibbles. -/
  nibbles : ∀ catalog, Script.catalog steps = .ok catalog → ∀ i ∈ catalog.instructions,
    i.opcode.toNat ≤ 15 ∧ ∀ k n, i.format.slot? = some (k, n) → n.toNat ≤ 15
  /-- A skipped entry leaves the builder as it was, and the catalog is the same without it. -/
  skipped : ∀ before e after why, steps = before ++ .register e :: after → Skips before e why →
    run .empty (before ++ [.register e]) = run .empty before ∧
      Script.catalog (before ++ after) = Script.catalog steps

/-- A builder answers every step as the steps before it say, and builds the catalog of what they
register. -/
theorem behaves (steps : List Step) : Behaves steps where
  replies _ _ := getElem?_play_empty_eq_some_iff
  built catalog := by
    rw [Script.catalog, bind_eq_ok]
    simp only [play_snd_eq_some_iff]
  misused _ := catalog_eq_error_iff
  listed _ := catalog_eq_ok_iff
  nibbles _ _ i _ := ⟨Nat.le_of_lt_succ i.opcode.isLt, fun _ n _ => Nat.le_of_lt_succ n.isLt⟩
  skipped _ _ after _ hsteps h := hsteps ▸ ⟨run_concat_of_skips h, catalog_of_skips h after⟩

-- An entry is read for its opcode outside of the group and for its slot within, and the numbers that
-- are not read do not fit.
example : Script.catalog [
    .register ⟨"ADD".toList, some 5, some (.func1, 200), .one, none⟩,
    .enter 8,
    .register ⟨"SKIP".toList, some 200, none, .one, none⟩,
    .register ⟨"LD".toList, some 200, some (.func1, 2), .two, some .absolute⟩,
    .leave] =
  .ok ⟨[⟨"ADD".toList, 5, .r, .one, none⟩, ⟨"LD".toList, 8, .s 2, .two, some .absolute⟩]⟩ := rfl

end Script
end Asm16
