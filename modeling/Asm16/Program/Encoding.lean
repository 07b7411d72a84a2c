-- SUMMARY: Encoding one line into an instruction word and, for two cycles, an immediate word.
import Asm16.Catalog.Basic
import Asm16.Program.Diagnostic
import Asm16.Program.Immediate

/-!
# Encodings

A line names an instruction by its first word and gives the operands after it. The operands fill
the fields of the instruction word as the format says, with the nibbles from high to low:

* R: third register, second register, first register, opcode
* S: base, register, `func1`, opcode
* U: immediate, `func2`, register, opcode
* J: `func3`, base, register, opcode

The base is a register or the register of a displaced address. An instruction of two cycles has a
second word, which holds its displacement or its immediate, or zero if it has neither; the
immediate field of format U is zero then.
-/

namespace Asm16

/-- The second word of an instruction and the text it came from. -/
structure ImmediateWord where
  value : Word
  source : Text
  deriving DecidableEq, Repr

/-- The second word of an instruction that gives none. -/
def ImmediateWord.zero : ImmediateWord := ⟨0, ['0']⟩

/-- An encoded line. -/
structure Encoding where
  address : Address
  word : Word
  immediate : Option ImmediateWord
  line : Line
  deriving DecidableEq, Repr

namespace Encoding

/-- The cycles of an encoding, by whether it has a second word. -/
def cycles (e : Encoding) : Cycles := if e.immediate.isSome then .two else .one

/-- The words of an encoding. -/
def words (e : Encoding) : List Word := e.word :: (e.immediate.map (·.value)).toList

/-- The address after an encoding, where the second pass goes on. It wraps. -/
def next (e : Encoding) : Address := e.address.after e.cycles

/-- The rows of an encoding in a listing: each word with a comment, the source text after the
first and the immediate's text after the second. -/
def rows (e : Encoding) : List Text :=
  let first := e.word.hexadecimal ++ "  //".toList ++ e.line.text
  match e.immediate with
  | none => [first]
  | some i => [first, i.value.hexadecimal ++ "  //  imm ".toList ++ i.source]

end Encoding

-- ---------------------------------------------------------------------------
-- Operands by their use
-- ---------------------------------------------------------------------------

/-- An operand with the word it was read from. -/
structure Argument where
  text : Text
  operand : Operand
  deriving DecidableEq, Repr

namespace Argument

/-- An argument that has to be a register. -/
def register (a : Argument) : Except OperandError Nibble :=
  match a.operand with
  | .register n => .ok n
  | _ => .error (.malformed a.text .notRegister)

/-- An argument that has to be a base, with its displacement if it is a displaced address. -/
def base (a : Argument) : Except OperandError (Nibble × Option Text) :=
  match a.operand with
  | .register n => .ok (n, none)
  | .displaced d n => .ok (n, some d)
  | _ => .error (.malformed a.text .notBase)

/-- An argument that has to be an immediate or a label. -/
def immediate (a : Argument) : Except OperandError Text :=
  match a.operand with
  | .label t => .ok t
  | .immediate t => .ok t
  | _ => .error (.malformed a.text .notImmediate)

/-- The second word that a displacement makes. An empty displacement counts as none. -/
def displacement (a : Argument) (d : Option Text) (c : Cycles) (ctx : Context) :
    Except OperandError (Option ImmediateWord) :=
  match d.getD [], c with
  | [], .one => .ok none
  | _ :: _, .one => .error (.malformed a.text .displacementOnOneCycle)
  | [], .two => .ok (some .zero)
  | t, .two => do
    let value ← Immediate.resolve t .word ctx
    return some ⟨value, t⟩

end Argument

-- ---------------------------------------------------------------------------
-- Encoding a line
-- ---------------------------------------------------------------------------

namespace Instruction

/-- The fields of an instruction with its arguments, and the second word they ask for. -/
def fields (i : Instruction) (args : List Argument) (ctx : Context) :
    Except OperandError (Fields × Option ImmediateWord) :=
  match i.format, args with
  | .r, [a, b, c] => do
    let one ← a.register
    let two ← b.register
    let three ← c.register
    return (⟨i.opcode, one, two, three⟩, none)
  | .s func1, [a, b] => do
    let (base, d) ← b.base
    let reg ← a.register
    let second ← b.displacement d i.cycles ctx
    return (⟨i.opcode, func1, reg, base⟩, second)
  | .u func2, [a, b] => do
    let raw ← b.immediate
    let reg ← a.register
    match i.cycles with
    | .one => do
      let value ← Immediate.resolve raw .nibble ctx
      return (⟨i.opcode, reg, func2, .truncate value.toNat⟩, none)
    | .two => do
      let value ← Immediate.resolve raw .word ctx
      return (⟨i.opcode, reg, func2, 0⟩, some ⟨value, raw⟩)
  | .j func3, [a, b] => do
    let (base, d) ← b.base
    let reg ← a.register
    let second ← b.displacement d i.cycles ctx
    return (⟨i.opcode, reg, base, func3⟩, second)
  | .r, _ => .error (.malformed i.mnemonic .notThreeOperands)
  | _, _ => .error (.malformed i.mnemonic .notTwoOperands)

/-- The words of an instruction with its operands: the second is there if there are two cycles. -/
def encode (i : Instruction) (operands : List Text) (labels : LabelTable) (here : Address) :
    Except OperandError (Word × Option ImmediateWord) := do
  let args ← operands.mapM fun t => return Argument.mk t (← Operand.classify labels t)
  let (fields, second) ← i.fields args ⟨labels, i.addressing, here⟩
  match i.cycles with
  | .one => return (fields.pack, none)
  | .two => return (fields.pack, some (second.getD .zero))

end Instruction

namespace Line

/-- Encodes a line at an address. -/
def encode (l : Line) (catalog : Catalog) (labels : LabelTable) (here : Address) :
    Except Cause Encoding :=
  match l.text.words with
  | [] => .error (.unknownMnemonic l.text)
  | name :: operands =>
    match catalog.lookup? name with
    | none => .error (.unknownMnemonic name)
    | some i =>
      match i.encode operands labels here with
      | .error e => .error (.operand e)
      | .ok (word, second) => .ok ⟨here, word, second, l⟩

end Line
end Asm16
