import MipsBackend.Asm.Line
import MipsBackend.Program.Basic

/-! Actions: code for the machine that leaves open where variables live. An action either stands
for a line as it is, or asks for a variable to be read or written, or marks a place (the entry of
a function or block, a call) where a scheme of variable placement may have work to do. -/
namespace MipsBackend

inductive Operand where
  /-- A register, literal, address or label. -/
  | text (s : String)
  /-- The register that holds what was last read for the sake of this scratch register. -/
  | held (scratch : String)
  deriving DecidableEq

inductive Failure where
  /-- A variable is neither declared in the function nor global. -/
  | undeclared (function name : String)
  | badLength (array length : String)
  | unknownOpcode (op : Opcode)
  deriving DecidableEq

def Failure.message : Failure → String
  | .undeclared f v => f ++ ": variable " ++ Text.quote v ++ " is not declared"
  | .badLength a n => "array " ++ a ++ ": bad length " ++ Text.quote n
  | .unknownOpcode op => "cannot lower " ++ op.name

inductive Action where
  | comment (text : String)
  | label (name : String)
  | emit (op : String) (args : List Operand) (note : Option String)
  | enterFunction
  | enterBlock (b : Block)
  | exitBlock (b : Block)
  /-- Save what must survive the call at a position. -/
  | save (position : Nat)
  /-- Restore what was saved for the call at a position. -/
  | restore (position : Nat)
  /-- Have the value of a variable in a register, the scratch register if it has none. -/
  | read (var scratch : String)
  /-- Write a register or a literal to a variable. -/
  | write (src : Operand) (var : String)
  /-- Write the result of an operation to a variable. -/
  | compute (op var : String) (a b : Operand)
  /-- The code cannot be lowered any further. -/
  | fail (cause : Failure)
  deriving DecidableEq

/-- A function in the program that it is compiled with. -/
structure Scope where
  program : Program
  function : Function

namespace Scope

/-- Whether an operand is read as an integer variable. -/
def isIntVar (s : Scope) (v : String) : Bool := s.function.isInt v || s.program.isGlobal v

end Scope
end MipsBackend
