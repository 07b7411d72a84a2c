-- SUMMARY: The messages an assembly reports on its way, up to the line that is refused.
import Asm16.Program.Assembly

/-!
# Trace

Both passes report what they do: the first each label it meets, the second each line it encodes,
and a finished assembly its size. A pass that fails has reported everything up to its failure. The
label of a line is reported before the line's code is looked at.
-/

namespace Asm16

/-- How much a message matters. -/
inductive Level where
  | debug | info | warn
  deriving DecidableEq, Repr

/-- The name of a level. -/
def Level.name : Level → String
  | debug => "debug"
  | info => "info"
  | warn => "warn"

/-- A message of an assembly. -/
structure Message where
  level : Level
  text : String
  deriving DecidableEq, Repr

namespace Trace

/-- What is reported for a label at an address. -/
def definition (l : Line) (name : Text) (labels : LabelTable) (here : Address) : Message :=
  if labels.contains name then
    ⟨.warn, "label '" ++ String.ofList name ++ "' redefined " ++ l.shown ++
      ", keeping the first definition"⟩
  else ⟨.debug, "label '" ++ String.ofList name ++ "' at " ++ String.ofList here.shown⟩

/-- The messages of the first pass from an address on. -/
def scan (catalog : Catalog) : List Line → Address → LabelTable → List Message → List Message
  | [], _, _, done => done.reverse
  | l :: rest, here, labels, done =>
    let done := match l.label? with
      | some name => definition l name labels here :: done
      | none => done
    let labels := l.define labels here
    if l.code.isEmpty then scan catalog rest here labels done
    else match catalog.lookup? l.mnemonic with
      | some i => scan catalog rest (here.after i.cycles) labels done
      | none => done.reverse

/-- The messages of the first pass over a program. -/
def layout (catalog : Catalog) (lines : List Line) : List Message :=
  scan catalog lines 0 .empty []

/-- What is reported for an encoded line. -/
def encoded (e : Encoding) : Message :=
  ⟨.debug, String.ofList (e.address.shown ++ ": ".toList ++ e.line.text ++ " -> ".toList ++
    Text.join [' '] (e.words.map Word.hexadecimal))⟩

/-- The messages of the second pass from an address on. -/
def run (catalog : Catalog) (labels : LabelTable) : List Line → Address → List Message →
    List Message
  | [], _, done => done.reverse
  | l :: rest, here, done =>
    match l.encode catalog labels here with
    | .ok e => run catalog labels rest e.next (encoded e :: done)
    | .error _ => done.reverse

/-- The messages of the second pass over the lines of a layout. -/
def encodings (catalog : Catalog) (labels : LabelTable) (lines : List Line) : List Message :=
  run catalog labels lines 0 []

/-- What is reported for a finished assembly and the address after it. -/
def assembled (l : Listing) (last : Address) : Message :=
  ⟨.info, "assembled " ++ toString l.words.length ++ " word(s), " ++ toString l.labels.size ++
    " label(s), ending at " ++ String.ofList last.shown⟩

/-- The messages of an assembly. -/
def assembly (catalog : Catalog) (lines : List Line) : List Message :=
  layout catalog lines ++
    match Layout.ofLines catalog lines with
    | .error _ => []
    | .ok found =>
      encodings catalog found.labels found.lines ++
        match Encoding.ofLines catalog found.labels found.lines with
        | .error _ => []
        | .ok es =>
          let l : Listing := ⟨found.labels, es⟩
          (l.endAddress?.map (assembled l)).toList

/-- What is reported for a catalog that was read. -/
def loaded (catalog : Catalog) : Message :=
  ⟨.debug, "loaded " ++ toString catalog.instructions.length ++ " instruction descriptors"⟩

end Trace
end Asm16
