import MipsBackend.Asm.Register
import MipsBackend.Lowering.Action

/-! Variables in memory: a global by its symbol, a local variable in its stack slot. Every
scheme comes back to this for a variable that has no register. -/
namespace MipsBackend
open Asm Asm.Register

/-- Emitted lines, up to a failure if there is one. -/
structure Emission where
  lines : List Line
  failure : Option Failure := none
  deriving DecidableEq

namespace Emission

def nothing : Emission := ⟨[], none⟩

/-- What is emitted first, and then, unless that failed, the rest. -/
def andThen (x y : Emission) : Emission :=
  match x.failure with
  | some _ => x
  | none => ⟨x.lines ++ y.lines, y.failure⟩

/-- Emissions one after the other, up to the first that fails. -/
def sequence : List Emission → Emission
  | [] => nothing
  | x :: xs => x.andThen (sequence xs)

@[simp] theorem nothing_andThen (x : Emission) : nothing.andThen x = x := rfl

theorem andThen_assoc (x y z : Emission) : (x.andThen y).andThen z = x.andThen (y.andThen z) := by
  rcases x with ⟨lx, _ | _⟩ <;> rcases y with ⟨ly, _ | _⟩ <;> simp [andThen]

end Emission

def plainLine (op : String) (args : List String) : Line := .instr op args none

def notedLine (note op : String) (args : List String) : Line := .instr op args (some note)

/-- Where in memory a variable is, and its type. -/
structure Location where
  operand : String
  isFloat : Bool
  deriving DecidableEq

namespace Scope
variable (s : Scope)

def location? (v : String) : Option Location :=
  if s.program.isGlobal v then some ⟨v, s.function.isFloat v⟩
  else (s.function.slot? v).map fun slot => ⟨stackSlot slot.offset, slot.isFloat⟩

/-- Stop because a variable has no place. -/
def undeclared (v : String) : Emission := ⟨[], some (.undeclared s.function.name v)⟩

def load (v reg : String) : Emission :=
  match s.location? v with
  | none => s.undeclared v
  | some l =>
    ⟨[notedLine ("load from " ++ v) (if l.isFloat then "l.s" else "lw") [reg, l.operand]], none⟩

/-- Store a register or a literal to a variable; a literal goes through a scratch register. -/
def store (src v : String) : Emission :=
  match s.location? v with
  | none => s.undeclared v
  | some l =>
    let op := if l.isFloat then "s.s" else "sw"
    let note := "store to " ++ v
    if isRegister src then ⟨[notedLine note op [src, l.operand]], none⟩
    else
      let scratch := if l.isFloat then f0 else t0
      ⟨[plainLine (if l.isFloat then "li.s" else "li") [scratch, src],
        notedLine note op [scratch, l.operand]], none⟩

/-- Compute in a scratch register and store the result. -/
def computeAndStore (op v a b : String) : Emission :=
  let scratch := if s.function.isFloat v then f4 else t2
  Emission.andThen ⟨[plainLine op [scratch, a, b]], none⟩ (s.store scratch v)

end Scope
end MipsBackend
