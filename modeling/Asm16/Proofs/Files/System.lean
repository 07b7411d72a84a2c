-- SUMMARY: What a command may rely on of files: reading changes nothing, and writing changes one file or nothing.
import Asm16.Files.Tree
import Asm16.Proofs.Except

/-!
# File systems

A command does to files what `FileAccess` lets it do. What it can rely on is said here of any system of
files: reading changes nothing, a write that fails changes nothing, and one that succeeds changes the
file at its path and no other. A file tree is such a system.
-/

namespace Asm16

/-- Files that are read and written by their paths. -/
structure FileSystem where
  State : Type
  /-- Where a file can stand. -/
  Location : Type
  access : FileAccess (StateM State)
  /-- The location that a path leads to. -/
  locate? : State → Text → Option Location
  /-- The bytes of the file at a location. -/
  content? : State → Location → Option ByteArray
  state_of_read (s : State) (path : Text) : ((access.read path).run s).2 = s
  state_of_write_error {s t : State} {path text : Text} {e : FileError} :
    (access.write path text).run s = (.error e, t) → t = s
  /-- What is written is what the file says from then on. The other files stay as they are. -/
  content_of_write {s t : State} {path text : Text} :
    (access.write path text).run s = (.ok (), t) →
    ∃ l, locate? s path = some l ∧ content? t l = some (FileTree.encode text) ∧
      ∀ other, other ≠ l → content? t other = content? s other

namespace FileSystem

variable {fs : FileSystem} {s t : fs.State} {path text : Text}

/-- Reading the file at the path gives the text. -/
def Reads (fs : FileSystem) (s : fs.State) (path text : Text) : Prop :=
  ((fs.access.read path).run s).1 = .ok text

/-- The text can be written to the path, which leads to the second state. -/
def Writes (fs : FileSystem) (s : fs.State) (path text : Text) (t : fs.State) : Prop :=
  (fs.access.write path text).run s = (.ok (), t)

/-- The second state has the text in the file that the path leads to, and is the first state in every
other file. -/
def ChangesOnly (fs : FileSystem) (s : fs.State) (path text : Text) (t : fs.State) : Prop :=
  ∃ l, fs.locate? s path = some l ∧ fs.content? t l = some (FileTree.encode text) ∧
    ∀ other, other ≠ l → fs.content? t other = fs.content? s other

theorem Writes.changesOnly (h : fs.Writes s path text t) : fs.ChangesOnly s path text t :=
  fs.content_of_write h

theorem run_read (fs : FileSystem) (s : fs.State) (path : Text) :
    (fs.access.read path).run s = (((fs.access.read path).run s).1, s) :=
  Prod.ext rfl (fs.state_of_read s path)

end FileSystem

/-! ## File trees -/

/-- The bytes of a file. -/
def Node.content? : Node → Option ByteArray
  | .file content => some content
  | .directory => none

namespace FileTree

variable {t u : FileTree} {p q : Place} {path text : Text} {bytes : ByteArray}

/-- The bytes of the file at a place. -/
def content? (t : FileTree) (p : Place) : Option ByteArray := (t.node? p).bind Node.content?

/-- The place that a path leads to. -/
def locate? (t : FileTree) (path : Text) : Option Place :=
  (t.route path >>= Route.place).toOption

/-- Only what is listed at a place can be a file there. -/
theorem content?_eq (t : FileTree) (p : Place) :
    t.content? p = if p.names = [] then none else (t.nodes.lookup p).bind Node.content? := by
  rw [content?, node?]
  by_cases hnames : p.names = []
  · rw [if_pos (by simpa using hnames), if_pos hnames]
    rfl
  · rw [if_neg (by simpa using hnames), if_neg hnames]
    cases t.nodes.lookup p with
    | some n => rfl
    | none =>
      dsimp only
      split <;> rfl

theorem lookup_filter_of_ne {nodes : List (Place × Node)} (h : q ≠ p) :
    (nodes.filter (·.1 != p)).lookup q = nodes.lookup q := by
  induction nodes with
  | nil => rfl
  | cons n nodes ih =>
    by_cases hn : n.1 = p
    · rw [List.filter_cons_of_neg (by simp [hn]), ih, List.lookup_cons, hn, beq_eq_false_iff_ne.2 h]
    · rw [List.filter_cons_of_pos (by simp [hn]), List.lookup_cons, List.lookup_cons, ih]

theorem content?_put_self (h : p.names ≠ []) : (t.put p bytes).content? p = some bytes := by
  rw [content?_eq, if_neg h, put, List.lookup_cons, beq_self_eq_true]
  rfl

theorem content?_put_of_ne (h : q ≠ p) : (t.put p bytes).content? q = t.content? q := by
  rw [content?_eq, content?_eq, put, List.lookup_cons, beq_eq_false_iff_ne.2 h]
  dsimp only
  rw [lookup_filter_of_ne h]

/-! ## Bytes and texts -/

theorem fromUTF8?_eq_some_iff {s : String} : String.fromUTF8? bytes = some s ↔ bytes = s.toUTF8 := by
  rw [String.fromUTF8?]
  constructor
  · intro h
    split at h
    · cases h
      rfl
    · cases h
  · rintro rfl
    exact dif_pos s.isValidUTF8

theorem decode_eq_ok_iff : decode bytes = .ok text ↔ bytes = encode text := by
  rw [decode, encode]
  constructor
  · intro h
    split at h
    · rename_i s hs
      cases h
      rw [fromUTF8?_eq_some_iff.1 hs, String.ofList_toList]
    · cases h
  · rintro rfl
    rw [fromUTF8?_eq_some_iff.2 rfl]
    dsimp only
    rw [String.toList_ofList]

/-! ## Reading and writing -/

theorem locate?_eq_some_iff :
    t.locate? path = some p ↔ ∃ r, t.route path = .ok r ∧ r.place = .ok p := by
  rw [locate?, ← bind_eq_ok]
  cases t.route path >>= Route.place with
  | ok q => simp [Except.toOption]
  | error e => simp [Except.toOption]

/-- A file is read if the path leads to it without a slash at the end, and its bytes are a text. -/
theorem read_eq_ok_iff : t.read path = .ok text ↔
    ∃ r p, t.route path = .ok r ∧ r.place = .ok p ∧ r.closed = false ∧
      t.content? p = some (encode text) := by
  rw [read, bind_eq_ok]
  constructor
  · rintro ⟨r, hr, h⟩
    obtain ⟨p, hp, h⟩ := bind_eq_ok.1 h
    split at h
    · cases h
    · cases h
    · rename_i content hnode
      split at h
      · cases h
      · rename_i hclosed
        refine ⟨r, p, hr, hp, by simpa using hclosed, ?_⟩
        rw [content?, hnode, ← decode_eq_ok_iff.1 h]
        rfl
  · rintro ⟨r, p, hr, hp, hclosed, hcontent⟩
    rw [content?, Option.bind_eq_some_iff] at hcontent
    obtain ⟨node, hnode, hcontent⟩ := hcontent
    cases node with
    | directory => cases hcontent
    | file content =>
      refine ⟨r, hr, bind_eq_ok.2 ⟨p, hp, ?_⟩⟩
      rw [hnode]
      dsimp only
      rw [hclosed, if_neg Bool.false_ne_true]
      exact decode_eq_ok_iff.2 (Option.some.inj hcontent)

/-- A file is written if the path leads to a place without a slash at the end, and there is no directory
there. -/
theorem write_eq_ok_iff : t.write path text = .ok u ↔
    ∃ r p, t.route path = .ok r ∧ r.place = .ok p ∧ r.closed = false ∧
      t.node? p ≠ some .directory ∧ u = t.put p (encode text) := by
  rw [write, bind_eq_ok]
  constructor
  · rintro ⟨r, hr, h⟩
    split at h
    · cases h
    · rename_i hclosed
      obtain ⟨p, hp, h⟩ := bind_eq_ok.1 h
      split at h
      · cases h
      · rename_i hnode
        exact ⟨r, p, hr, hp, by simpa using hclosed, hnode, (Except.ok.inj h).symm⟩
  · rintro ⟨r, p, hr, hp, hclosed, hnode, rfl⟩
    refine ⟨r, hr, ?_⟩
    rw [hclosed, if_neg Bool.false_ne_true]
    refine bind_eq_ok.2 ⟨p, hp, ?_⟩
    split
    · rename_i h
      exact absurd h hnode
    · rfl

theorem names_ne_nil_of_node? (h : t.node? p ≠ some .directory) : p.names ≠ [] := by
  intro hnames
  rw [node?, if_pos (by simpa using hnames)] at h
  exact h rfl

theorem run_write (t : FileTree) (path text : Text) :
    (access.write path text).run t =
      match t.write path text with
      | .ok u => (.ok (), u)
      | .error e => (.error e, t) := by
  have hrun : (access.write path text).run t =
      (match t.write path text with
        | .ok u => do set u; return .ok ()
        | .error e => return .error e : StateM FileTree (Except FileError Unit)).run t := rfl
  rw [hrun]
  cases t.write path text <;> rfl

theorem run_write_eq_ok_iff :
    (access.write path text).run t = (.ok (), u) ↔ t.write path text = .ok u := by
  rw [run_write]
  constructor
  · intro h
    split at h
    · rename_i hwrite
      cases h
      exact hwrite
    · cases h
  · intro h
    rw [h]

/-- File trees as a system of files. -/
def system : FileSystem where
  State := FileTree
  Location := Place
  access := access
  locate? := locate?
  content? := content?
  state_of_read _ _ := rfl
  state_of_write_error := by
    intro t u path text e h
    rw [run_write] at h
    split at h
    · cases h
    · cases h
      rfl
  content_of_write := by
    intro t u path text h
    obtain ⟨r, p, hr, hp, -, hnode, rfl⟩ := write_eq_ok_iff.1 (run_write_eq_ok_iff.1 h)
    exact ⟨p, locate?_eq_some_iff.2 ⟨r, hr, hp⟩, content?_put_self (names_ne_nil_of_node? hnode),
      fun q hq => content?_put_of_ne hq⟩

end FileTree
end Asm16
