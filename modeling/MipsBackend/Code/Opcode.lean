import MipsBackend.Text.Quoted

/-! Opcodes of the three-address code: their names, and their numbers in the order in which
the code format lists them. -/
namespace MipsBackend

/-- Binary operations on two sources and a destination. -/
inductive Arith where
  | add | sub | mult | div | and | or
  deriving DecidableEq

inductive Comparison where
  | eq | ne | lt | gt | ge | le
  deriving DecidableEq

/-- What an instruction does. A number outside the list of opcodes is kept as `other`. -/
inductive Opcode where
  | assign
  | arith (op : Arith)
  | goto
  | branch (cmp : Comparison)
  | ret
  | call
  | callr
  | arrayStore
  | arrayLoad
  | other (number : Int)
  deriving DecidableEq

namespace Opcode

/-- The opcodes of the code format, in the order of their numbers. -/
def all : List Opcode :=
  [.assign, .arith .add, .arith .sub, .arith .mult, .arith .div, .arith .and, .arith .or, .goto,
    .branch .eq, .branch .ne, .branch .lt, .branch .gt, .branch .ge, .branch .le, .ret, .call,
    .callr, .arrayStore, .arrayLoad]

def number : Opcode → Int
  | .assign => 0
  | .arith .add => 1
  | .arith .sub => 2
  | .arith .mult => 3
  | .arith .div => 4
  | .arith .and => 5
  | .arith .or => 6
  | .goto => 7
  | .branch .eq => 8
  | .branch .ne => 9
  | .branch .lt => 10
  | .branch .gt => 11
  | .branch .ge => 12
  | .branch .le => 13
  | .ret => 14
  | .call => 15
  | .callr => 16
  | .arrayStore => 17
  | .arrayLoad => 18
  | .other n => n

def ofNumber (n : Int) : Opcode := (all.find? fun op => op.number = n).getD (.other n)

def name : Opcode → String
  | .assign => "assign"
  | .arith .add => "add"
  | .arith .sub => "sub"
  | .arith .mult => "mult"
  | .arith .div => "div"
  | .arith .and => "and"
  | .arith .or => "or"
  | .goto => "goto"
  | .branch .eq => "breq"
  | .branch .ne => "brneq"
  | .branch .lt => "brlt"
  | .branch .gt => "brgt"
  | .branch .ge => "brgeq"
  | .branch .le => "brleq"
  | .ret => "return"
  | .call => "call"
  | .callr => "callr"
  | .arrayStore => "array_store"
  | .arrayLoad => "array_load"
  | .other n => "Op(" ++ toString n ++ ")"

def ofName? (s : String) : Option Opcode := all.find? fun op => op.name = s

def isArith : Opcode → Bool
  | .arith _ => true
  | _ => false

def isBranch : Opcode → Bool
  | .branch _ => true
  | _ => false

/-- Whether the opcode belongs to the code format. -/
def isKnown : Opcode → Bool
  | .other _ => false
  | _ => true

@[simp] theorem number_ofNumber (n : Int) : (ofNumber n).number = n := by
  unfold ofNumber
  cases h : all.find? fun op => op.number = n with
  | none => rfl
  | some op => simpa using List.find?_some h

theorem mem_all {op : Opcode} : op ∈ all ↔ op.isKnown = true := by
  cases op with
  | arith a => cases a <;> decide
  | branch c => cases c <;> decide
  | other n => simp [all, isKnown]
  | _ => decide

/-- Every opcode of the code format is read back from its name. -/
theorem ofName?_name {op : Opcode} (h : op.isKnown = true) : ofName? op.name = some op := by
  have read : ∀ op ∈ all, ofName? op.name = some op := by decide +kernel
  exact read op (mem_all.mpr h)

theorem isKnown_of_ofName? {s : String} {op : Opcode} (h : ofName? s = some op) :
    op.isKnown = true :=
  mem_all.mp (List.mem_of_find?_eq_some h)

theorem name_of_ofName? {s : String} {op : Opcode} (h : ofName? s = some op) : op.name = s := by
  simpa using List.find?_some h

end Opcode

/-- A token in opcode position that is no opcode. -/
structure UnknownOpcode where
  token : String
  deriving DecidableEq

def UnknownOpcode.message (e : UnknownOpcode) : String := "unrecognized op: " ++ Text.quote e.token

end MipsBackend
