-- SUMMARY: What the default listing keeps of its source's stem, and that a run leaves the default listings of other names alone.
import Asm16.Proofs.Command.Effects
import Asm16.Proofs.Files.Stem

/-!
# Default targets

A run of the assembler that is given no target writes to the default listing of its source, which is one
step from the working directory. Different steps lead to different places, so such a run leaves the default
listings of all sources alone but those that share its own. Which sources those are is a matter of stems.
-/

namespace Asm16

/-! ## Places of single steps -/

/-- One step from the working directory leads to it, to the directory above, or to what has the name. -/
theorem Place.step_below {n : Text} {p : Place} (h : (Place.below []).step n = .ok p) :
    n = ['.'] ∧ p = .below [] ∨ n = ['.', '.'] ∧ p = ⟨.above 1, []⟩ ∨ p = .below [n] := by
  unfold Place.step at h
  split at h
  · exact .inl ⟨‹_›, (Except.ok.inj h).symm⟩
  · split at h
    · exact .inr (.inl ⟨‹_›, (Except.ok.inj h).symm⟩)
    · split at h
      · cases h
      · exact .inr (.inr (Except.ok.inj h).symm)

theorem Place.step_below_inj {a b : Text} {p : Place} (ha : (Place.below []).step a = .ok p)
    (hb : (Place.below []).step b = .ok p) : a = b := by
  obtain ⟨rfl, rfl⟩ | ⟨rfl, rfl⟩ | rfl := Place.step_below ha <;>
    obtain ⟨rfl, h⟩ | ⟨rfl, h⟩ | h := Place.step_below hb <;> cases h <;> rfl

namespace FileTree

open Asm16.Path

variable {t : FileTree} {n a b : Text} {p : Place}

theorem step_of_locate? (hn : IsStep n) (h : t.locate? n = some p) : (Place.below []).step n = .ok p := by
  obtain ⟨r, hr, hp⟩ := locate?_eq_some_iff.1 h
  have hrelative : isAbsolute n = false := by
    obtain ⟨c, u, rfl⟩ := List.exists_cons_of_ne_nil hn.ne_nil
    have hc : c ≠ '/' := fun hc => hn.slash (hc ▸ List.mem_cons_self)
    simpa [isAbsolute] using hc
  unfold route at hr
  rw [hn.steps, hrelative] at hr
  split at hr
  · cases hr
  · split at hr
    · cases hr
    · split at hr
      · cases hr
      · obtain rfl := Except.ok.inj hr
        exact hp

/-- Steps that lead to one place are the same. -/
theorem locate?_inj (ha : IsStep a) (hb : IsStep b) (hpa : t.locate? a = some p)
    (hpb : t.locate? b = some p) : a = b :=
  Place.step_below_inj (step_of_locate? ha hpa) (step_of_locate? hb hpb)

end FileTree

/-! ## Runs without a target -/

namespace Command

open Asm16.Path

variable {t : FileTree} {source description other s r : Text} {p : Place}

/-- A run changes nothing at a place that its target does not lead to. -/
theorem content?_of_run (read : Text → Option Description) (t : FileTree) (source : Text)
    (target : Option Text) (description : Text) (toStdout : Bool)
    (h : t.locate? (target.getD (defaultListing source)) ≠ some p) :
    ((run FileTree.access (.assemble source target description toStdout) read).run t).2.content? p =
      t.content? p := by
  obtain ⟨outcome, after, hrun, heffect⟩ :=
    effect_of_run FileTree.system read t source target description toStdout
  have hafter :
      ((run FileTree.access (.assemble source target description toStdout) read).run t).2 = after :=
    congrArg Prod.snd hrun
  rw [hafter]
  cases heffect with
  | failed => rfl
  | printed => rfl
  | wrote hlists hwrites =>
    obtain ⟨l, hl, -, hrest⟩ := hwrites.changesOnly
    exact hrest p fun hp => h (hp ▸ hl)

/-- For a source with a stem the default listing is one step. It is the stem with the extension of listings,
and has the source's stem, just if the stem has no dot after its first character and is more than a dot. Any
other stem is cut again. Two sources have one default listing just if their stems are cut to the same, and if
they have not, assembling the first leaves the listing of the second as it is. -/
theorem run_default_listing (hs : fileStem? source = some s) :
    IsStep (defaultListing source) ∧
    (defaultListing source = s ++ '.' :: listingExtension ↔ KeepsStem s) ∧
    (fileStem? (defaultListing source) = some s ↔ KeepsStem s) ∧
    defaultListing source =
      (if s = ['.'] then ['.'] else if stem s = ['.'] then ['.', '.']
        else stem s ++ '.' :: listingExtension) ∧
    ∀ other r, fileStem? other = some r →
      (defaultListing source = defaultListing other ↔ stem s = stem r ∧ (s = ['.'] ↔ r = ['.'])) ∧
      (KeepsStem s → KeepsStem r → s ≠ r → defaultListing source ≠ defaultListing other) ∧
      ∀ (readers : Readers) (tool : Tool) (args : List Text) (description : Text) (t : FileTree)
        (p : Place),
        readers.command? tool args = some (.assemble source none description false) →
        defaultListing source ≠ defaultListing other → t.locate? (defaultListing other) = some p →
        ((tool.run FileTree.access args readers).run t).2.content? p = t.content? p := by
  refine ⟨isStep_defaultListing hs, defaultListing_eq_append_iff hs, fileStem?_defaultListing_eq_iff hs,
    defaultListing_eq hs, fun other r hr => ⟨defaultListing_eq_iff hs hr, ?_, ?_⟩⟩
  · intro hkeeps hother hne hlisting
    obtain ⟨hstem, -⟩ := (defaultListing_eq_iff hs hr).1 hlisting
    rw [stem_of_not_mem_tail hkeeps.tail, stem_of_not_mem_tail hother.tail] at hstem
    exact hne hstem
  · intro readers tool args description t p hparse hne hp
    rw [Tool.run, hparse]
    refine content?_of_run readers.description? t source none description false
      fun htarget => hne ?_
    exact FileTree.locate?_inj (isStep_defaultListing hs) (isStep_defaultListing hr) htarget hp

/-- The listing of `prog.asm` is written to `prog.hex`, and that of `lib.asm` stays. -/
theorem run_default_listing_apart :
    let machine := "[[instr]]\nname = \"ADD\"\nopc = \"0001\"\n".toList
    let tree : FileTree := ⟨[(.below ["isa.toml".toList], .file (FileTree.encode machine)),
      (.below ["prog.asm".toList], .file (FileTree.encode "ADD r1, r2, r3".toList)),
      (.below ["lib.hex".toList], .file (FileTree.encode "3211  //ADD r1, r1, r2\n".toList))]⟩
    let after := ((Tool.assembler.run FileTree.access ["prog.asm".toList]).run tree).2
    defaultListing "prog.asm".toList = "prog.hex".toList ∧
      fileStem? (defaultListing "prog.asm".toList) = some "prog".toList ∧
      after.content? (.below ["lib.hex".toList]) = tree.content? (.below ["lib.hex".toList]) := by
  intro machine tree after
  have hstem : fileStem? "prog.asm".toList = some "prog".toList := by decide +kernel
  have hother : fileStem? "lib.asm".toList = some "lib".toList := by decide +kernel
  have hkeeps : KeepsStem "prog".toList := by decide +kernel
  have hparse : Readers.standard.command? .assembler ["prog.asm".toList] =
      some (.assemble "prog.asm".toList none "isa.toml".toList false) := by decide +kernel
  have hplace : tree.locate? (defaultListing "lib.asm".toList) = some (.below ["lib.hex".toList]) := by
    decide +kernel
  obtain ⟨-, hlisting, hkept, -, hrest⟩ := run_default_listing hstem
  obtain ⟨-, hne, hrun⟩ := hrest "lib.asm".toList "lib".toList hother
  have hapart : defaultListing "prog.asm".toList ≠ defaultListing "lib.asm".toList :=
    hne hkeeps (by decide +kernel) (by decide +kernel)
  exact ⟨hlisting.2 hkeeps, hkept.2 hkeeps, hrun _ _ _ _ tree _ hparse hapart hplace⟩

/-- The stems `a.b` and `a.c` are cut again, so that their sources have one listing, which has neither
stem. -/
theorem defaultListing_cuts_again :
    fileStem? "a.b.asm".toList = some "a.b".toList ∧ fileStem? "a.c.asm".toList = some "a.c".toList ∧
      "a.b".toList ≠ "a.c".toList ∧
      defaultListing "a.b.asm".toList = "a.hex".toList ∧ defaultListing "a.c.asm".toList = "a.hex".toList ∧
      defaultListing "a.b.asm".toList ≠ "a.b".toList ++ '.' :: listingExtension ∧
      fileStem? (defaultListing "a.b.asm".toList) ≠ some "a.b".toList := by
  decide +kernel

end Command
end Asm16
