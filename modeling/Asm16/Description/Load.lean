-- SUMMARY: Loading a description: its catalog, or the first thing wrong with it.
import Asm16.Description.Pattern
import Asm16.Description.Schema
import Asm16.Files.Error

/-!
# Loading a description

The catalog of a description lists the instructions of the top level and then those of each group,
a group's own before those of the groups within it. What is wrong is found in the same order. Within
one instruction the cycle count comes first, then the opcode if it declares one, then its slots, and
last what it lacks.

Nothing here depends on how a description is written down. The reader of its text is a parameter, which
is `Description.parse?` where no other is given.
-/

namespace Asm16

/-- Why a description is refused. -/
inductive LoadError where
  | unreadable (path : Text) (why : FileError)
  /-- The text is not a document of the form of a description. -/
  | malformed
  | badBits (bits : Text) (why : Pattern.Fault)
  | conflictingSlots (name : Text)
  | badCycles (name : Text) (cycles : Nat)
  | entry (why : EntryError)
  deriving DecidableEq, Repr

namespace LoadError

/-- What is said of a text that is no description. -/
def malformedReason : String := "the document does not have the form of a description"

/-- The wording of a load error. -/
def message : LoadError → String
  | unreadable path why => "Could not read '" ++ String.ofList path ++ "': " ++ why.message
  | malformed => "Malformed ISA description: " ++ malformedReason
  | badBits bits why => "Bad bit pattern '" ++ String.ofList bits ++ "': " ++ why.reason
  | conflictingSlots name =>
    "Instruction '" ++ String.ofList name ++ "' declares more than one of func1, func2 and func3"
  | badCycles name cycles =>
    "Instruction '" ++ String.ofList name ++ "' has " ++ toString cycles ++
      " cycles, expected 1 or 2"
  | entry why => why.message

/-- The wording of the error that a load error passes on, if it passes one on. -/
def source? : LoadError → Option String
  | unreadable _ why => some why.message
  | malformed => some malformedReason
  | entry why => some why.message
  | _ => none

end LoadError

namespace Declaration

/-- A bit pattern of a description. -/
def nibble (bits : Text) : Except LoadError Nibble :=
  match Pattern.parse bits with
  | .ok n => .ok n
  | .error why => .error (.badBits bits why)

/-- The slot a declaration gives, of which there may be at most one. -/
def slot (d : Declaration) : Except LoadError (Option (Slot × Nibble)) :=
  let given := [(Slot.func1, d.func1), (Slot.func2, d.func2), (Slot.func3, d.func3)].filterMap
    fun p => p.2.map (p.1, ·)
  match given with
  | [] => .ok none
  | [(k, bits)] => do return some (k, ← nibble bits)
  | _ => .error (.conflictingSlots d.name)

/-- The entry that a declaration makes. Slots are looked at in groups only. -/
def entry (d : Declaration) (grouped : Bool) : Except LoadError (Entry Nibble) := do
  let cycles ← match Cycles.ofNat? d.cycles with
    | some c => pure c
    | none => throw (.badCycles d.name d.cycles)
  let opcode ← match d.opcode with
    | some bits => some <$> nibble bits
    | none => pure none
  let slot ← if grouped then d.slot else pure none
  return ⟨d.name, opcode, slot, cycles, d.addressing⟩

end Declaration

namespace Builder

/-- Registers declared instructions. -/
def declare (grouped : Bool) : Builder → List Declaration → Except LoadError Builder
  | b, [] => .ok b
  | b, d :: rest => do
    let e ← d.entry grouped
    match b.register e with
    | .ok b => declare grouped b rest
    | .error why => .error (.entry why)

mutual

/-- Registers a group. -/
def declareGroup (b : Builder) : Group → Except LoadError Builder
  | .mk opcode instructions groups => do
    let n ← Declaration.nibble opcode
    let b ← (b.enter n).declare true instructions
    let b ← b.declareGroups groups
    return b.leave

/-- Registers groups. -/
def declareGroups (b : Builder) : List Group → Except LoadError Builder
  | [] => .ok b
  | g :: rest => do
    let b ← b.declareGroup g
    b.declareGroups rest

end

end Builder

namespace Description

/-- The catalog of a description. -/
def catalog (d : Description) : Except LoadError Catalog := do
  let b ← Builder.empty.declare false d.instructions
  let b ← b.declareGroups d.groups
  return b.catalog

/-- The catalog of the text of a description, as a reader of such texts takes it. -/
def load (source : Text) (read : Text → Option Description := parse?) : Except LoadError Catalog :=
  match read source with
  | some d => d.catalog
  | none => .error .malformed

end Description
end Asm16
