import MipsBackend.Code.Opcode
import MipsBackend.Text.Blank

/-! Instructions of the three-address code: an opcode, up to three operands and an optional
label. Whether an operand is a variable, a literal or a label depends on the opcode. -/
namespace MipsBackend

/-- One instruction. Operands that the opcode does not take are empty. -/
structure Instruction where
  op : Opcode
  arg1 : String := ""
  arg2 : String := ""
  arg3 : String := ""
  label : Option String := none
  deriving DecidableEq

/-- A label is a text that is not empty. -/
def label? (s : String) : Option String := if s = "" then none else some s

/-- Whether an operand is a literal or a register by its first character. -/
def isImmediate (s : String) : Bool :=
  match s.toList with
  | [] => false
  | c :: _ => c == '$' || c.isDigit || c == '-' || c == '.'

namespace Instruction

/-- An instruction from a list of operands, of which the first three count. -/
def ofArgs (op : Opcode) (args : List String) : Instruction :=
  { op := op, arg1 := args.getD 0 "", arg2 := args.getD 1 "", arg3 := args.getD 2 "" }

def args (i : Instruction) : List String := [i.arg1, i.arg2, i.arg3]

/-- The label that the instruction jumps to, if it is a jump. -/
def target? (i : Instruction) : Option String :=
  match i.op with
  | .goto => some i.arg1
  | .branch _ => some i.arg3
  | _ => none

def isCall (i : Instruction) : Bool :=
  match i.op with
  | .call | .callr => true
  | _ => false

/-- Whether the instruction ends a block. Calls do, so that values can be saved around them. -/
def isTerminal (i : Instruction) : Bool :=
  match i.op with
  | .branch _ | .ret | .goto | .call | .callr => true
  | _ => false

/-- Whether control can reach the instruction after this one. -/
def fallsThrough (i : Instruction) : Bool :=
  match i.op with
  | .ret | .goto => false
  | _ => true

/-- The operands that the instruction assigns. -/
def defs (i : Instruction) : List String :=
  (match i.op with
    | .assign | .callr | .arrayLoad => [i.arg1]
    | .arith _ => [i.arg3]
    | _ => []).filter (· ≠ "")

/-- The operands that the instruction reads, one entry for each occurrence. -/
def uses (i : Instruction) : List String :=
  (match i.op with
    | .assign => [i.arg2, i.arg3]
    | .arith _ => [i.arg1, i.arg2]
    | .branch _ => [i.arg1, i.arg2]
    | .ret => [i.arg1]
    | .call => [i.arg2, i.arg3]
    | .callr => [i.arg3]
    | .arrayStore => [i.arg1, i.arg2, i.arg3]
    | .arrayLoad => [i.arg2, i.arg3]
    | _ => []).filter (· ≠ "")

def references (i : Instruction) (name : String) : Bool := i.args.contains name

/-- The written form: opcode and operands with commas between them. Empty operands at the end
are left out. -/
def text (i : Instruction) : String :=
  let given := (i.args.reverse.dropWhile (· = "")).reverse
  i.op.name ++ String.join (given.map (", " ++ ·))

/-- Characters cut off both ends of an operand. -/
def isPadding (c : Char) : Bool := c == ' ' || c == '\t' || c == ',' || c == '\r'

/-- The `n`-th field of a line, fields being separated by commas. -/
def field (fields : List (List Char)) (n : Nat) : String :=
  String.ofList (Text.trimBy isPadding (fields.getD n []))

/-- Read an instruction. Missing operands are empty, and what follows the third is ignored. -/
def ofChars (line : List Char) : Except UnknownOpcode Instruction :=
  let fields := Text.pieces ',' line
  match Opcode.ofName? (field fields 0) with
  | none => .error ⟨field fields 0⟩
  | some op =>
    .ok { op := op, arg1 := field fields 1, arg2 := field fields 2, arg3 := field fields 3 }

def ofText (line : String) : Except UnknownOpcode Instruction := ofChars line.toList

end Instruction

example : (Instruction.ofArgs (.arith .add) ["a", "1", "b"]).text = "add, a, 1, b" := by
  decide +kernel

example : (Instruction.ofText " assign ,x,, 3 ,4").toOption =
    some { op := .assign, arg1 := "x", arg2 := "", arg3 := "3" } := by decide +kernel

end MipsBackend
