-- SUMMARY: Trees of files as values, and how paths lead through them.
import Asm16.Files.Access
import Asm16.Files.Path

/-!
# File trees

A file tree holds files and directories. Places are named from the root, from the working directory,
or from a directory above the working directory; the tree does not say how these lie to each other.

Paths are walked name by name: every name but the last has to lead to a directory, and two dots lead
back. A path that ends in a slash can lead to a directory only. Therefore nothing is written there,
and that is found before the last name is looked at.
-/

namespace Asm16

/-- Where the names of a place are counted from. -/
inductive Origin where
  | root
  /-- A directory so many levels above the working directory, which itself is at level zero. -/
  | above (levels : Nat)
  deriving DecidableEq, Repr

/-- A place for a file or a directory: the names that lead to it. -/
structure Place where
  origin : Origin
  names : List Text
  deriving DecidableEq, Repr

namespace Place

/-- The root of all files. -/
def root : Place := ⟨.root, []⟩

/-- The place that names lead to from the working directory. -/
def below (names : List Text) : Place := ⟨.above 0, names⟩

/-- The names that lead to a place from the working directory. -/
def below? (p : Place) : Option (List Text) :=
  match p.origin with
  | .above 0 => some p.names
  | _ => none

/-- The directory that holds a place. The root holds itself. -/
def parent : Place → Place
  | ⟨.above n, []⟩ => ⟨.above (n + 1), []⟩
  | ⟨o, names⟩ => ⟨o, names.dropLast⟩

/-- Goes on from a directory by one name. -/
def step (p : Place) (name : Text) : Except FileError Place :=
  if name = ['.'] then .ok p
  else if name = ['.', '.'] then .ok p.parent
  else if 255 < Path.byteLength name then .error .nameTooLong
  else .ok ⟨p.origin, p.names ++ [name]⟩

end Place

/-- What a place holds. -/
inductive Node where
  | file (content : ByteArray)
  | directory

/-- Files and directories by their places. The directories on the way to a place need not be
listed. -/
structure FileTree where
  nodes : List (Place × Node)

/-- Where a path leads: to a name in a directory. -/
structure Route where
  directory : Place
  name : Text
  /-- A slash follows the name. -/
  closed : Bool
  deriving DecidableEq, Repr

/-- The place at the end of a route. -/
def Route.place (r : Route) : Except FileError Place := r.directory.step r.name

namespace FileTree

/-- What a place holds. -/
def node? (t : FileTree) (p : Place) : Option Node :=
  if p.names.isEmpty then some .directory
  else match t.nodes.lookup p with
    | some n => some n
    | none =>
      if t.nodes.any (fun n => n.1.origin == p.origin && p.names.isPrefixOf n.1.names) then
        some .directory
      else none

/-- Walks names from a directory on, each of which has to lead to a directory. -/
def walk (t : FileTree) : Place → List Text → Except FileError Place
  | p, [] => .ok p
  | p, name :: rest => do
    let q ← p.step name
    match t.node? q with
    | none => .error .notFound
    | some (.file _) => .error .notDirectory
    | some .directory => walk t q rest

/-- The route of a path. -/
def route (t : FileTree) (path : Text) : Except FileError Route :=
  if path.contains '\x00' then .error .nullInPath
  else if path.isEmpty then .error .notFound
  else if 4095 < Path.byteLength path then .error .nameTooLong
  else do
    let steps := Path.steps path
    let start := if Path.isAbsolute path then .root else .below []
    return ⟨← t.walk start steps.dropLast, steps.getLastD ['.'], Path.isClosed path⟩

/-- The text of bytes in UTF-8. -/
def decode (content : ByteArray) : Except FileError Text :=
  match String.fromUTF8? content with
  | some s => .ok s.toList
  | none => .error .notText

/-- The bytes of a text in UTF-8. -/
def encode (t : Text) : ByteArray := (String.ofList t).toUTF8

/-- The text of the file at a path. -/
def read (t : FileTree) (path : Text) : Except FileError Text := do
  let r ← t.route path
  match t.node? (← r.place) with
  | none => .error .notFound
  | some .directory => .error .isDirectory
  | some (.file content) => if r.closed then .error .notDirectory else decode content

/-- Puts a file at a place. -/
def put (t : FileTree) (p : Place) (content : ByteArray) : FileTree :=
  ⟨(p, .file content) :: t.nodes.filter (·.1 != p)⟩

/-- Makes a text the content of the file at a path; the file need not be there before, but its
directory has to. -/
def write (t : FileTree) (path text : Text) : Except FileError FileTree := do
  let r ← t.route path
  if r.closed then .error .isDirectory
  else
    let p ← r.place
    match t.node? p with
    | some .directory => .error .isDirectory
    | _ => .ok (t.put p (encode text))

/-- The files below the working directory that another tree does not have with the same content. -/
def newFiles (before after : FileTree) : List (List Text × ByteArray) :=
  after.nodes.filterMap fun n =>
    match n.1.below?, n.2, before.nodes.lookup n.1 with
    | none, _, _ => none
    | _, .directory, _ => none
    | some names, .file content, some (.file old) =>
      if content.data == old.data then none else some (names, content)
    | some names, .file content, _ => some (names, content)

/-- Access to the files of a tree that is kept as a state. -/
def access : FileAccess (StateM FileTree) where
  read path := return (← get).read path
  write path text := do
    match (← get).write path text with
    | .ok t => set t; return .ok ()
    | .error e => return .error e

end FileTree
end Asm16
