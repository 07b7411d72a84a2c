-- SUMMARY: Building a catalog entry by entry, with groups that share an opcode.
import Asm16.Catalog.Basic

/-!
# Building a catalog

Entries are registered one after the other. Outside of any group an entry has format R and its own
opcode, and a slot it declares means nothing. Inside a group it has the opcode of the innermost
group that is open, whatever opcode it declares, and the format its slot calls for. An entry that
lacks what it needs is skipped.

`Script` drives a builder with plain numbers in place of nibbles. A number is looked at only where
it is used; one that does not fit, or a group that is closed or left open out of turn, is a misuse,
after which there is no catalog.
-/

namespace Asm16

/-- An instruction as it is declared, with numbers of type `ν`. -/
structure Entry (ν : Type) where
  name : Text
  opcode : Option ν
  slot : Option (Slot × ν)
  cycles : Cycles
  addressing : Option AddressingMode
  deriving DecidableEq, Repr

/-- Why an entry is skipped. -/
inductive EntryError where
  | missingOpcode (name : Text)
  | missingSlot (name : Text)
  deriving DecidableEq, Repr

/-- What a skipped entry is reported with. -/
def EntryError.message : EntryError → String
  | missingOpcode name =>
    "Root-level instruction '" ++ String.ofList name ++ "' declares no opcode"
  | missingSlot name =>
    "Grouped instruction '" ++ String.ofList name ++ "' declares none of func1, func2 or func3"

/-- A catalog under construction: its instructions so far, and the opcodes of the open groups,
innermost first. -/
structure Builder where
  instructions : List Instruction
  groups : List Nibble
  deriving DecidableEq, Repr

namespace Builder

/-- Nothing registered and no group open. -/
def empty : Builder := ⟨[], []⟩

/-- Opens a group. -/
def enter (b : Builder) (opcode : Nibble) : Builder := { b with groups := opcode :: b.groups }

/-- Closes the innermost group. -/
def leave (b : Builder) : Builder := { b with groups := b.groups.tail }

/-- Adds an instruction after the others. -/
def add (b : Builder) (i : Instruction) : Builder :=
  { b with instructions := b.instructions ++ [i] }

/-- Registers an entry under the innermost open group, or under none. -/
def register (b : Builder) (e : Entry Nibble) : Except EntryError Builder :=
  match b.groups with
  | [] =>
    match e.opcode with
    | none => .error (.missingOpcode e.name)
    | some opcode => .ok (b.add ⟨e.name, opcode, .r, e.cycles, e.addressing⟩)
  | opcode :: _ =>
    match e.slot with
    | none => .error (.missingSlot e.name)
    | some (k, n) => .ok (b.add ⟨e.name, opcode, .ofSlot k n, e.cycles, e.addressing⟩)

/-- The catalog of what was registered. -/
def catalog (b : Builder) : Catalog := ⟨b.instructions⟩

end Builder

-- ---------------------------------------------------------------------------
-- Scripts
-- ---------------------------------------------------------------------------

/-- One call to a builder. -/
inductive Step where
  | enter (opcode : Nat)
  | leave
  | register (entry : Entry Nat)
  deriving DecidableEq, Repr

/-- Why there is no catalog. -/
inductive Misuse where
  | groupOpcode (n : Nat)
  | noOpenGroup
  | opcode (n : Nat)
  | slot (n : Nat)
  | openGroup
  deriving DecidableEq, Repr

/-- What a builder answers to a call. -/
inductive Reply where
  | done
  | skipped (why : EntryError)
  | misused (why : Misuse)
  deriving DecidableEq, Repr

namespace Step

/-- A number as a nibble, or the misuse it is. -/
def nibble (misuse : Nat → Misuse) (n : Nat) : Except Misuse Nibble :=
  match Nibble.ofNat? n with
  | some x => .ok x
  | none => .error (misuse n)

/-- The part of an entry that is used: its slot within a group and its opcode outside of any. -/
def used (e : Entry Nat) (grouped : Bool) : Except Misuse (Entry Nibble) :=
  if grouped then
    match e.slot with
    | none => .ok ⟨e.name, none, none, e.cycles, e.addressing⟩
    | some (k, n) => do
      let x ← nibble .slot n
      return ⟨e.name, none, some (k, x), e.cycles, e.addressing⟩
  else
    match e.opcode with
    | none => .ok ⟨e.name, none, none, e.cycles, e.addressing⟩
    | some n => do
      let x ← nibble .opcode n
      return ⟨e.name, some x, none, e.cycles, e.addressing⟩

/-- Takes one step: the builder after it, and the reason if an entry was skipped. -/
def apply (b : Builder) : Step → Except Misuse (Builder × Option EntryError)
  | enter opcode => do
    let x ← nibble .groupOpcode opcode
    return (b.enter x, none)
  | leave => if b.groups.isEmpty then .error .noOpenGroup else .ok (b.leave, none)
  | register e => do
    let entry ← used e (!b.groups.isEmpty)
    match b.register entry with
    | .ok b' => return (b', none)
    | .error why => return (b, some why)

end Step

namespace Script

/-- The replies to a list of steps, up to the first misuse, and the builder if there is none. -/
def play (b : Builder) : List Step → List Reply × Option Builder
  | [] => ([], some b)
  | s :: rest =>
    match s.apply b with
    | .error why => ([.misused why], none)
    | .ok (b', skipped) =>
      let reply := match skipped with
        | some why => Reply.skipped why
        | none => Reply.done
      let (replies, last) := play b' rest
      (reply :: replies, last)

/-- The catalog of a builder with no open group. -/
def close (b : Builder) : Except Misuse Catalog :=
  if b.groups.isEmpty then .ok b.catalog else .error .openGroup

/-- The builder after a list of steps. -/
def run (b : Builder) : List Step → Except Misuse Builder
  | [] => .ok b
  | s :: rest => do
    let (b', _) ← s.apply b
    run b' rest

/-- The catalog that a list of steps builds. -/
def catalog (steps : List Step) : Except Misuse Catalog := do
  close (← run .empty steps)

end Script
end Asm16
