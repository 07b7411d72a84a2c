-- SUMMARY: What a run of the assembler leaves: an exit code, what it prints, and at most one file that is changed.
import Asm16.Command.Run
import Asm16.Proofs.Files.System

/-!
# Effects of a run

A run of the assembler reads the machine description and the source, and then prints or writes the
listing. Each stage may fail, and none of them leaves anything behind when it does: only the last one
changes a file, and only if it succeeds. So what a run comes to is one of three things. It fails, which is
just if there is no listing or no way to write it, and nothing is changed or printed. It prints the
listing, and nothing is changed. Or it writes the listing, and no file but its target is changed.

This is said of every file system, and of every reader of arguments and of descriptions.
-/

namespace Asm16

/-- Where an action is known to lead, the next one goes on. -/
theorem run_bind_of_eq {σ α β : Type} {x : StateM σ α} {f : α → StateM σ β} {s t : σ} {a : α}
    (h : x.run s = (a, t)) : (x >>= f).run s = (f a).run t := by
  rw [StateT.run_bind, h]
  rfl

namespace FileSystem

/-- The file is read, and its text loads as the catalog under a reader of descriptions. -/
def Loads (fs : FileSystem) (read : Text → Option Description) (s : fs.State) (path : Text)
    (catalog : Catalog) : Prop :=
  ∃ text, fs.Reads s path text ∧ Description.load text read = .ok catalog

/-- The file is read, and its text assembles to the listing. -/
def Assembles (fs : FileSystem) (s : fs.State) (catalog : Catalog) (path : Text)
    (listing : Listing) : Prop :=
  ∃ text, fs.Reads s path text ∧ Listing.ofSource catalog text = .ok listing

/-- The source assembles to the listing, with the catalog that the description loads as. -/
def Lists (fs : FileSystem) (read : Text → Option Description) (s : fs.State)
    (description source : Text) (listing : Listing) : Prop :=
  ∃ catalog, fs.Loads read s description catalog ∧ fs.Assembles s catalog source listing

variable {fs : FileSystem} {read : Text → Option Description} {s : fs.State}
  {path description source : Text} {catalog other : Catalog} {listing second : Listing}

theorem Loads.unique (h : fs.Loads read s path catalog) (k : fs.Loads read s path other) :
    catalog = other := by
  obtain ⟨text, hread, hload⟩ := h
  obtain ⟨text', hread', hload'⟩ := k
  obtain rfl := Except.ok.inj (hread.symm.trans hread')
  exact Except.ok.inj (hload.symm.trans hload')

theorem Assembles.unique (h : fs.Assembles s catalog path listing)
    (k : fs.Assembles s catalog path second) : listing = second := by
  obtain ⟨text, hread, hlisting⟩ := h
  obtain ⟨text', hread', hlisting'⟩ := k
  obtain rfl := Except.ok.inj (hread.symm.trans hread')
  exact Except.ok.inj (hlisting.symm.trans hlisting')

/-- A description and a source have one listing at most. -/
theorem Lists.unique (h : fs.Lists read s description source listing)
    (k : fs.Lists read s description source second) : listing = second := by
  obtain ⟨catalog, hloads, hassembles⟩ := h
  obtain ⟨other, hloads', hassembles'⟩ := k
  obtain rfl := hloads.unique hloads'
  exact hassembles.unique hassembles'

end FileSystem

/-- What a run of the assembler comes to, and the state that it leaves. -/
inductive Command.Effect (fs : FileSystem) (read : Text → Option Description) (s : fs.State)
    (description source target : Text) : Bool → Outcome → fs.State → Prop where
  /-- There is no listing, or there is one that cannot be written. -/
  | failed {toStdout why} :
      (∀ listing, fs.Lists read s description source listing →
        toStdout = false ∧ ∀ t, ¬ fs.Writes s target listing.render t) →
      Effect fs read s description source target toStdout (.failed why) s
  | printed {listing} :
      fs.Lists read s description source listing →
      Effect fs read s description source target true (.printed (String.ofList listing.render)) s
  | wrote {listing t} :
      fs.Lists read s description source listing → fs.Writes s target listing.render t →
      Effect fs read s description source target false (.wrote target listing.words.length) t

namespace Command

/-! ## Reading -/

theorem run_loadFile (fs : FileSystem) (read : Text → Option Description) (s : fs.State)
    (path : Text) :
    ∃ r, (loadFile fs.access path read).run s = (r, s) ∧
      ∀ catalog, r = .ok catalog ↔ fs.Loads read s path catalog := by
  rw [loadFile, run_bind_of_eq (fs.run_read s path)]
  unfold FileSystem.Loads FileSystem.Reads
  cases ((fs.access.read path).run s).1 with
  | error why => exact ⟨.error (.unreadable path why), rfl, by simp⟩
  | ok text => exact ⟨Description.load text read, rfl, by simp⟩

theorem run_assembleFile (fs : FileSystem) (s : fs.State) (catalog : Catalog) (path : Text) :
    ∃ r, (assembleFile fs.access catalog path).run s = (r, s) ∧
      ∀ listing, r = .ok listing ↔ fs.Assembles s catalog path listing := by
  rw [assembleFile, run_bind_of_eq (fs.run_read s path)]
  unfold FileSystem.Assembles FileSystem.Reads
  cases ((fs.access.read path).run s).1 with
  | error why => exact ⟨.error (.source path why), rfl, by simp⟩
  | ok text =>
    dsimp only
    cases hlisting : Listing.ofSource catalog text with
    | error why => exact ⟨.error (.program path why), rfl, by simp [hlisting]⟩
    | ok listing => exact ⟨.ok listing, rfl, by simp [hlisting]⟩

/-! ## Writing -/

/-- Either there is no listing that can be written, and nothing is changed, or one is written. -/
theorem run_assembleTo (fs : FileSystem) (s : fs.State) (catalog : Catalog) (source target : Text) :
    (∃ why, (assembleTo fs.access catalog source target).run s = (.error why, s) ∧
      ∀ listing, fs.Assembles s catalog source listing →
        ∀ t, ¬ fs.Writes s target listing.render t) ∨
    ∃ listing t, (assembleTo fs.access catalog source target).run s = (.ok listing, t) ∧
      fs.Assembles s catalog source listing ∧ fs.Writes s target listing.render t := by
  obtain ⟨r, hrun, hlisting⟩ := run_assembleFile fs s catalog source
  rw [assembleTo, run_bind_of_eq hrun]
  cases r with
  | error why =>
    left
    refine ⟨why, rfl, fun listing h => ?_⟩
    cases (hlisting listing).2 h
  | ok listing =>
    dsimp only
    cases hwrite : (fs.access.write target listing.render).run s with
    | mk written t =>
      rw [run_bind_of_eq hwrite]
      cases written with
      | error e =>
        left
        obtain rfl := fs.state_of_write_error hwrite
        refine ⟨.target target e, rfl, fun other h u hu => ?_⟩
        obtain rfl := Except.ok.inj ((hlisting other).2 h)
        cases hwrite.symm.trans hu
      | ok =>
        right
        exact ⟨listing, t, rfl, (hlisting listing).1 rfl, hwrite⟩

/-! ## Runs -/

theorem effect_of_run (fs : FileSystem) (read : Text → Option Description) (s : fs.State)
    (source : Text) (target : Option Text) (description : Text) (toStdout : Bool) :
    ∃ outcome t,
      (run fs.access (.assemble source target description toStdout) read).run s = (outcome, t) ∧
      Effect fs read s description source (target.getD (Path.defaultListing source)) toStdout
        outcome t := by
  obtain ⟨r, hload, hcatalog⟩ := run_loadFile fs read s description
  rw [run, descriptionPath, run_bind_of_eq hload]
  cases r with
  | error why =>
    refine ⟨_, _, rfl, .failed ?_⟩
    rintro listing ⟨catalog, hloads, -⟩
    cases (hcatalog catalog).2 hloads
  | ok catalog =>
    -- the description loads as this catalog and as no other
    have hlists : ∀ listing, fs.Lists read s description source listing ↔
        fs.Assembles s catalog source listing := by
      intro listing
      constructor
      · rintro ⟨other, hloads, hassembles⟩
        cases (hcatalog other).2 hloads
        exact hassembles
      · intro hassembles
        exact ⟨catalog, (hcatalog catalog).1 rfl, hassembles⟩
    dsimp only
    cases toStdout with
    | true =>
      obtain ⟨r, hrun, hlisting⟩ := run_assembleFile fs s catalog source
      rw [runWith, run_bind_of_eq hrun]
      cases r with
      | error why =>
        refine ⟨_, _, rfl, .failed fun listing h => ?_⟩
        cases (hlisting listing).2 ((hlists listing).1 h)
      | ok listing => exact ⟨_, _, rfl, .printed ((hlists listing).2 ((hlisting listing).1 rfl))⟩
    | false =>
      rw [runWith]
      obtain ⟨why, hrun, hnone⟩ | ⟨listing, t, hrun, hassembles, hwrites⟩ :=
        run_assembleTo fs s catalog source (target.getD (Path.defaultListing source))
      · rw [run_bind_of_eq hrun]
        exact ⟨_, _, rfl, .failed fun listing h => ⟨rfl, hnone listing ((hlists listing).1 h)⟩⟩
      · rw [run_bind_of_eq hrun]
        exact ⟨_, _, rfl, .wrote ((hlists listing).2 hassembles) hwrites⟩

namespace Effect

variable {fs : FileSystem} {read : Text → Option Description} {s t : fs.State}
  {description source target : Text} {toStdout : Bool} {outcome : Outcome}

theorem exitCode_eq_zero_iff (h : Effect fs read s description source target toStdout outcome t) :
    outcome.exitCode = 0 ↔ ∃ listing, fs.Lists read s description source listing ∧
      (toStdout = false → ∃ u, fs.Writes s target listing.render u) := by
  cases h with
  | failed hnone =>
    refine iff_of_false (by simp [Outcome.failed]) ?_
    rintro ⟨listing, hlists, hwrites⟩
    obtain ⟨hfile, hrefused⟩ := hnone listing hlists
    obtain ⟨u, hu⟩ := hwrites hfile
    exact hrefused u hu
  | printed hlists => exact iff_of_true rfl ⟨_, hlists, by simp⟩
  | wrote hlists hwrites => exact iff_of_true rfl ⟨_, hlists, fun _ => ⟨t, hwrites⟩⟩

theorem of_exitCode_ne_zero (h : Effect fs read s description source target toStdout outcome t)
    (hcode : outcome.exitCode ≠ 0) : outcome.exitCode = 1 ∧ t = s ∧ outcome.stdout = "" := by
  cases h with
  | failed => exact ⟨rfl, rfl, rfl⟩
  | printed => exact absurd rfl hcode
  | wrote => exact absurd rfl hcode

theorem of_exitCode_eq_zero (h : Effect fs read s description source target toStdout outcome t)
    (hcode : outcome.exitCode = 0) {listing : Listing}
    (hlisting : fs.Lists read s description source listing) :
    (toStdout = true → t = s ∧ outcome.stdout = String.ofList listing.render) ∧
    (toStdout = false → outcome.stdout = "" ∧ fs.ChangesOnly s target listing.render t) := by
  cases h with
  | failed => cases hcode
  | printed hlists =>
    obtain rfl := hlists.unique hlisting
    exact ⟨fun _ => ⟨rfl, rfl⟩, by simp⟩
  | wrote hlists hwrites =>
    obtain rfl := hlists.unique hlisting
    exact ⟨by simp, fun _ => ⟨rfl, hwrites.changesOnly⟩⟩

end Effect

/-- A run of the assembler ends with exit code zero just if the description loads, the source assembles,
and the listing can be written if it is to be written. Otherwise it ends with exit code one, nothing is
printed, and no file is changed. A listing that is printed is all that is printed, and no file is
changed. A listing that is written is all that its file says, no other file is changed, and nothing is
printed. This holds whatever the arguments and the description are read with. -/
theorem run_assemble_effects {readers : Readers} {tool : Tool} {args : List Text}
    {source description : Text} {target : Option Text} {toStdout : Bool}
    (h : readers.command? tool args = some (.assemble source target description toStdout))
    (fs : FileSystem) (s : fs.State) :
    let path := target.getD (Path.defaultListing source)
    let outcome := ((tool.run fs.access args readers).run s).1
    let after := ((tool.run fs.access args readers).run s).2
    (outcome.exitCode = 0 ↔ ∃ listing, fs.Lists readers.description? s description source listing ∧
      (toStdout = false → ∃ t, fs.Writes s path listing.render t)) ∧
    (outcome.exitCode ≠ 0 → outcome.exitCode = 1 ∧ after = s ∧ outcome.stdout = "") ∧
    ∀ listing, outcome.exitCode = 0 →
      fs.Lists readers.description? s description source listing →
      (toStdout = true → after = s ∧ outcome.stdout = String.ofList listing.render) ∧
      (toStdout = false → outcome.stdout = "" ∧ fs.ChangesOnly s path listing.render after) := by
  obtain ⟨outcome, after, hrun, heffect⟩ :=
    effect_of_run fs readers.description? s source target description toStdout
  have hresult : (tool.run fs.access args readers).run s = (outcome, after) := by
    rw [Tool.run, h]
    exact hrun
  rw [hresult]
  exact ⟨heffect.exitCode_eq_zero_iff, heffect.of_exitCode_ne_zero,
    fun _ hcode hlists => heffect.of_exitCode_eq_zero hcode hlists⟩

/-- A listing that is written beside its source, and a source that is not there. -/
theorem run_assemble_effects_tree :
    let machine := "[[instr]]\nname = \"ADD\"\nopc = \"0001\"\n".toList
    let tree : FileTree := ⟨[(.below ["isa.toml".toList], .file (FileTree.encode machine)),
      (.below ["a.asm".toList], .file (FileTree.encode "a: ADD r1, r2, r3".toList))]⟩
    let written := (Tool.assembler.run FileTree.access ["a.asm".toList]).run tree
    let refused := (Tool.toolset.run FileTree.access
      ["asm".toList, "b.asm".toList, "--stdout".toList]).run tree
    (written.1.exitCode = 0 ∧ written.1.stdout = "" ∧
      FileTree.system.ChangesOnly tree "a.hex".toList "3211  //ADD r1, r2, r3\n".toList written.2) ∧
    refused.1.exitCode = 1 ∧ refused.2 = tree ∧ refused.1.stdout = "" := by
  intro machine tree written refused
  let catalog : Catalog := ⟨[⟨"ADD".toList, 1, .r, .one, none⟩]⟩
  let listing : Listing :=
    ⟨.ofList [("a".toList, 0)], [⟨0, 0x3211, none, ⟨1, "ADD r1, r2, r3".toList⟩⟩]⟩
  have hrender : listing.render = "3211  //ADD r1, r2, r3\n".toList := by decide +kernel
  have hloads : FileTree.system.Loads Description.parse? tree "isa.toml".toList catalog :=
    ⟨machine, FileTree.read_eq_ok_iff.2 ⟨⟨.below [], "isa.toml".toList, false⟩,
      .below ["isa.toml".toList], by decide +kernel, by decide +kernel, rfl, rfl⟩, by decide +kernel⟩
  have hassembles : FileTree.system.Assembles tree catalog "a.asm".toList listing :=
    ⟨"a: ADD r1, r2, r3".toList, FileTree.read_eq_ok_iff.2 ⟨⟨.below [], "a.asm".toList, false⟩,
      .below ["a.asm".toList], by decide +kernel, by decide +kernel, rfl, rfl⟩, by decide +kernel⟩
  have hwrite : tree.write "a.hex".toList listing.render =
      .ok (tree.put (.below ["a.hex".toList]) (FileTree.encode listing.render)) :=
    FileTree.write_eq_ok_iff.2 ⟨⟨.below [], "a.hex".toList, false⟩, .below ["a.hex".toList],
      by decide +kernel, by decide +kernel, rfl, nofun, rfl⟩
  have hmissing : tree.read "b.asm".toList = .error .notFound := by rfl
  constructor
  · have hparse : Readers.standard.command? .assembler ["a.asm".toList] =
      some (.assemble "a.asm".toList none "isa.toml".toList false) := by decide +kernel
    obtain ⟨hzero, -, hfiles⟩ := run_assemble_effects hparse FileTree.system tree
    have hlists : FileTree.system.Lists Description.parse? tree "isa.toml".toList "a.asm".toList
        listing := ⟨catalog, hloads, hassembles⟩
    have hpath : Path.defaultListing "a.asm".toList = "a.hex".toList := by decide +kernel
    rw [Option.getD_none, hpath] at hzero hfiles
    have hcode : written.1.exitCode = 0 :=
      hzero.2 ⟨listing, hlists, fun _ => ⟨_, FileTree.run_write_eq_ok_iff.2 hwrite⟩⟩
    obtain ⟨hstdout, hchanges⟩ := (hfiles listing hcode hlists).2 rfl
    rw [hrender] at hchanges
    exact ⟨hcode, hstdout, hchanges⟩
  · have hparse : Readers.standard.command? .toolset
        ["asm".toList, "b.asm".toList, "--stdout".toList] =
      some (.assemble "b.asm".toList none "isa.toml".toList true) := by decide +kernel
    obtain ⟨hzero, hfailed, -⟩ := run_assemble_effects hparse FileTree.system tree
    refine hfailed (mt hzero.1 ?_)
    rintro ⟨listing, ⟨catalog, -, text, hread, -⟩, -⟩
    cases hmissing.symm.trans hread

end Command
end Asm16
