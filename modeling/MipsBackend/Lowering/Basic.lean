import MipsBackend.Asm.Register
import MipsBackend.Lowering.Action

/-! Lowering: from the code of a function to actions. -/
namespace MipsBackend
open Asm Asm.Register

def Arith.mnemonic : Arith → String
  | .add => "add"
  | .sub => "sub"
  | .mult => "mul"
  | .div => "div"
  | .and => "and"
  | .or => "or"

def Comparison.mnemonic : Comparison → String
  | .eq => "beq"
  | .ne => "bne"
  | .lt => "blt"
  | .gt => "bgt"
  | .ge => "bge"
  | .le => "ble"

/-- A comparison as it stands in notes. -/
def Comparison.sign : Comparison → String
  | .eq => "=="
  | .ne => "!="
  | .lt => "<"
  | .gt => ">"
  | .ge => ">="
  | .le => "<="

/-- A line without a note. -/
def Action.line (op : String) (args : List String) : Action := .emit op (args.map .text) none

/-- A source operand made ready for use. -/
structure Source where
  /-- What has to be done first. -/
  actions : List Action
  operand : Operand
  isFloat : Bool := false

namespace Source

/-- The operand as it is written. -/
def literal (s : String) : Source := ⟨[], .text s, false⟩

/-- The value of a variable. -/
def var (v scratch : String) (isFloat : Bool) : Source :=
  ⟨[.read v scratch], .held scratch, isFloat⟩

/-- A literal loaded into a register. -/
def loaded (op v scratch : String) (isFloat : Bool) : Source :=
  ⟨[.line op [scratch, v]], .text scratch, isFloat⟩

end Source

/-- A literal with a point is a float. -/
def isFloatLiteral (s : String) : Bool := s.toList.contains '.'

/-- The syscall code of the built-in printing functions. -/
def syscallCode? (name : String) : Option Nat :=
  if name = "printi" then some 1 else if name = "printf" then some 2 else none

namespace Scope
variable (s : Scope)

/-- The size of the stack frame: a word for each variable and one for the return address. -/
def frame : Nat := wordSize * (s.function.numVariables + 1)

/-- Where the return address is kept. -/
def returnSlot : String := stackSlot (s.frame - wordSize : Nat)

/-- An integer in a register. -/
def intSource (v scratch : String) : Source :=
  if s.isIntVar v then .var v scratch false else .loaded "li" v scratch false

/-- An integer or float variable, or a literal as it is written. -/
def plainSource (v intScratch floatScratch : String) : Source :=
  if s.isIntVar v then .var v intScratch false
  else if s.function.isFloat v then .var v floatScratch true
  else .literal v

def lowerAssign (i : Instruction) : List Action :=
  let src := s.plainSource i.arg2 t0 f0
  src.actions ++ [.write src.operand i.arg1]

/-- Set the words of an array to a value, one after the other. -/
def lowerArrayInit (i : Instruction) : List Action :=
  match Text.integer? i.arg2.toList with
  | none => [.fail (.badLength i.arg1 i.arg2)]
  | some n =>
    let v := s.intSource i.arg3 t1
    .line "la" [t0, i.arg1] :: v.actions ++
      (List.range n.toNat).map fun k =>
        .emit "sw" [v.operand, .text (address (wordSize * k : Nat) t0)] none

/-- The first operand of an operation, which must be in a register. -/
def leftSource (x : String) : Source :=
  if s.isIntVar x then .var x t0 false
  else if s.function.isFloat x then .var x f0 true
  else if isFloatLiteral x then .loaded "li.s" x f0 true
  else .loaded "li" x t0 false

/-- The second operand of an operation; only an integer may stay a literal. -/
def rightSource (y : String) : Source :=
  if s.isIntVar y then .var y t1 false
  else if s.function.isFloat y then .var y f2 true
  else if isFloatLiteral y then .loaded "li.s" y f2 true
  else .literal y

def lowerArith (op : Arith) (i : Instruction) : List Action :=
  let x := s.leftSource i.arg1
  let y := s.rightSource i.arg2
  let mnemonic := op.mnemonic ++ if x.isFloat || y.isFloat then ".s" else ""
  x.actions ++ y.actions ++ [.compute mnemonic i.arg3 x.operand y.operand]

def lowerBranch (cmp : Comparison) (i : Instruction) : List Action :=
  let x := s.intSource i.arg1 t0
  let y : Source := if s.isIntVar i.arg2 then .var i.arg2 t1 false else .literal i.arg2
  let note := "if (" ++ i.arg1 ++ " " ++ cmp.sign ++ " " ++ i.arg2 ++ ") goto " ++ i.arg3
  x.actions ++ y.actions ++ [.emit cmp.mnemonic [x.operand, y.operand, .text i.arg3] (some note)]

/-- Put a returned value where the caller expects it. -/
def lowerResult (v : String) : List Action :=
  if v = "" then []
  else if s.isIntVar v then [.read v v0]
  else if s.function.isFloat v then [.read v f0]
  else [.line "li" [v0, v]]

def lowerReturn (i : Instruction) : List Action :=
  s.lowerResult i.arg1 ++
    [.line "lw" [ra, s.returnSlot], .line "addiu" [sp, sp, toString s.frame],
      .line "jr" [ra]]

def lowerArgument (arg reg : String) (isFloat : Bool) : List Action :=
  if arg = "" then []
  else if s.function.isVar arg || s.program.isGlobal arg then [.read arg reg]
  else [.line (if isFloat then "li.s" else "li") [reg, arg]]

/-- Pass up to two arguments, then print by a system call or jump to the callee. -/
def lowerCall (position : Nat) (name arg1 arg2 : String) : List Action :=
  let isFloat := decide (name = "printf")
  let reg (n : Int) : Register := if isFloat then f12 else Register.arg n
  s.lowerArgument arg1 (reg 0) isFloat ++ s.lowerArgument arg2 (reg 1) isFloat ++
    match syscallCode? name with
    | some code => [.line "li" [v0, toString code], .emit "syscall" [] (some name)]
    | none => [.save position, .line "jal" [name], .restore position]

def lowerCallResult (dest : String) : Action :=
  .write (.text (if s.function.isFloat dest then f0 else v0)) dest

/-- Leave the address of an array element in `$t0`, with the scaled index in `scratch`. -/
def elementAddress (array index scratch : String) : List Action :=
  let i := s.intSource index scratch
  i.actions ++
    [.emit "sll" [.text scratch, i.operand, .text "2"] none, .line "la" [t0, array],
      .line "add" [t0, t0, scratch]]

def lowerArrayStore (i : Instruction) : List Action :=
  let v := s.intSource i.arg3 t1
  .comment "start array store" :: v.actions ++ s.elementAddress i.arg1 i.arg2 t2 ++
    [.emit "sw" [v.operand, .text (address 0 t0)] none, .comment "end array store"]

def lowerArrayLoad (i : Instruction) : List Action :=
  .comment "start array load" :: s.elementAddress i.arg2 i.arg3 t1 ++
    [.line "lw" [t1, address 0 t0], .write (.text t1) i.arg1, .comment "end array load"]

def lowerInstruction (position : Nat) (i : Instruction) : List Action :=
  match i.op with
  | .assign => if i.arg3 = "" then s.lowerAssign i else s.lowerArrayInit i
  | .arith op => s.lowerArith op i
  | .goto => [.line "j" [i.arg1]]
  | .branch cmp => s.lowerBranch cmp i
  | .ret => s.lowerReturn i
  | .call => s.lowerCall position i.arg1 i.arg2 i.arg3
  | .callr => s.lowerCall position i.arg2 i.arg3 "" ++ [s.lowerCallResult i.arg1]
  | .arrayStore => s.lowerArrayStore i
  | .arrayLoad => s.lowerArrayLoad i
  | .other n => [.fail (.unknownOpcode (.other n))]

/-- Make the frame, save the return address, and take the parameters out of the argument
registers, which any call overwrites. -/
def lowerPrologue : List Action :=
  [.line "addiu" [sp, sp, "-" ++ toString s.frame], .line "sw" [ra, s.returnSlot]] ++
    s.function.params.zipIdx.map fun (p, n) => .write (.text (Register.arg n)) p

/-- The label of a block. The function's own name is printed with the function. -/
def lowerLabel (b : Block) : List Action :=
  match b.label with
  | some l => if l = s.function.name then [] else [.label l]
  | none => []

/-- Lower a block. It is left before its terminal instruction, or at its end. -/
def lowerBlock (b : Block) : List Action :=
  s.lowerLabel b ++ .enterBlock b ::
    b.positioned.flatMap (fun (n, i) =>
      (if i.isTerminal then [.exitBlock b] else []) ++ s.lowerInstruction n i) ++
    if b.last?.any Instruction.isTerminal then [] else [.exitBlock b]

def lower : List Action :=
  .enterFunction :: s.lowerPrologue ++ s.function.walk.flatMap s.lowerBlock

end Scope
end MipsBackend
