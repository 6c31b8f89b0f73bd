import MipsBackend.Order.Map
import MipsBackend.Program.Block
import MipsBackend.Text.Numeral

/-! Functions: their declared variables, arrays and code, and the flow graph of the code. -/
namespace MipsBackend

/-- The width in bytes of every variable. -/
def wordSize : Nat := 4

/-- A function as it is declared. -/
structure FunctionDef where
  name : String
  /-- Parameters in order. -/
  params : List String := []
  /-- Integer variables; they take the first stack slots. -/
  ints : List String := []
  /-- Float variables; their slots come after those of the integers. -/
  floats : List String := []
  /-- Arrays with their length in words. -/
  arrays : NameMap Int := ∅
  code : List Instruction := []
  deriving DecidableEq

/-- A function with its flow graph; block 0 is the entry. -/
structure Function extends FunctionDef where
  blocks : List Block
  deriving DecidableEq

namespace Function

def entry? (f : Function) : Option Nat := if f.blocks.isEmpty then none else some 0

/-- The blocks on the way from the entry to the end of the code. No way visits more blocks than
there are. -/
def walk (f : Function) : List Block := walkFrom f.blocks f.blocks.length f.entry?

end Function

/-- A stack slot: byte offset from the stack pointer, and the type kept there. -/
structure Slot where
  offset : Nat
  isFloat : Bool
  deriving DecidableEq

namespace FunctionDef

def isInt (f : FunctionDef) (v : String) : Bool := f.ints.contains v

def isFloat (f : FunctionDef) (v : String) : Bool := f.floats.contains v

/-- Whether `v` is a declared variable of either type. -/
def isVar (f : FunctionDef) (v : String) : Bool := f.isInt v || f.isFloat v

def isArray (f : FunctionDef) (v : String) : Bool := f.arrays.contains v

/-- The number of stack slots of the declared variables. -/
def numVariables (f : FunctionDef) : Nat := f.ints.length + f.floats.length

/-- The stack slot of a declared variable: integers first, then floats, a word each. -/
def slot? (f : FunctionDef) (v : String) : Option Slot :=
  match f.ints.idxOf? v with
  | some n => some ⟨wordSize * n, false⟩
  | none => (f.floats.idxOf? v).map fun n => ⟨wordSize * f.ints.length + wordSize * n, true⟩

/-- Whether `v` is an operand anywhere in the code. -/
def references (f : FunctionDef) (v : String) : Bool := f.code.any (·.references v)

end FunctionDef

namespace Instruction

/-- The array that an instruction addresses, and the least number of words it needs. -/
def arrayUse? (i : Instruction) : Option (String × Int) :=
  match i.op with
  | .arrayStore => some (i.arg1, 1)
  | .arrayLoad => some (i.arg2, 1)
  | .assign =>
    if i.arg3 = "" then none
    else some (i.arg1, max 1 ((Text.integer? i.arg2.toList).getD 1))
  | _ => none

end Instruction

/-- Widen an array to at least `use.2` words. -/
def widenArray (arrays : NameMap Int) (use : String × Int) : NameMap Int :=
  arrays.alter use.1 0 (max · use.2)

namespace FunctionDef

/-- Record every operand that the code uses as an array. -/
def collectArrays (f : FunctionDef) : FunctionDef :=
  { f with arrays := (f.code.filterMap Instruction.arrayUse?).foldl widenArray f.arrays }

end FunctionDef

/-- A jump to a label that no block of its function carries. -/
structure UndefinedLabel where
  function : String
  target : String
  deriving DecidableEq

def UndefinedLabel.message (e : UndefinedLabel) : String :=
  e.function ++ ": instruction targeting nonexistent label " ++ e.target

/-- Build the flow graph of a function. It fails at the first block that jumps to a label which
no block carries. -/
def FunctionDef.build (f : FunctionDef) : Except UndefinedLabel Function :=
  match linkBlocks (layout 0 0 (cut f.code)) with
  | .error target => .error ⟨f.name, target⟩
  | .ok blocks => .ok { f.collectArrays with blocks := blocks }

end MipsBackend
