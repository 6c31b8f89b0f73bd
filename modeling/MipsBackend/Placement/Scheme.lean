import MipsBackend.Asm.Register
import MipsBackend.Text.Quoted

/-! Schemes for placing variables, by name and number, and what makes a choice of scheme and
register count invalid. -/
namespace MipsBackend

/-- A scheme for placing variables. A number that stands for no scheme is kept as `other`. -/
inductive Scheme where
  /-- Every variable lives in memory. -/
  | naive
  /-- The most used variables of a block live in registers inside the block. -/
  | intra
  /-- Variables have registers for the whole function. -/
  | global
  | other (number : Int)
  deriving DecidableEq

/-- Why a scheme cannot be used. -/
inductive SchemeError where
  | unknownName (name : String)
  | unknownNumber (number : Int)
  | invalidRegisters (count : Int)
  deriving DecidableEq

namespace Scheme

def all : List Scheme := [.naive, .intra, .global]

def number : Scheme → Int
  | .naive => 0
  | .intra => 1
  | .global => 2
  | .other n => n

def name : Scheme → String
  | .naive => "naive"
  | .intra => "intra"
  | .global => "global"
  | .other n => "Scheme(" ++ toString n ++ ")"

def ofNumber (n : Int) : Scheme := (all.find? fun s => s.number = n).getD (.other n)

def ofName (s : String) : Except SchemeError Scheme :=
  match all.find? fun t => t.name = s with
  | some t => .ok t
  | none => .error (.unknownName s)

end Scheme

def SchemeError.message : SchemeError → String
  | .unknownName s =>
    "unknown allocation scheme " ++ Text.quote s ++ " (supported: naive, intra, global)"
  | .unknownNumber n => "unknown allocation scheme " ++ (Scheme.other n).name
  | .invalidRegisters k => "invalid register count: " ++ toString k ++ " (must be 1..8)"

/-- A scheme with the number of registers that it may use. -/
inductive Strategy where
  | memory
  | perBlock (registers : Nat)
  | perFunction (registers : Nat)
  deriving DecidableEq

/-- Whether a number of registers can be used. -/
def validRegisters (k : Int) : Bool := decide (1 ≤ k) && decide (k ≤ Asm.Register.savedCount)

/-- The strategy of a scheme with `k` registers. The count is checked before the scheme. -/
def Strategy.ofScheme (s : Scheme) (k : Int) : Except SchemeError Strategy :=
  if !validRegisters k then .error (.invalidRegisters k)
  else match s with
    | .naive => .ok .memory
    | .intra => .ok (.perBlock k.toNat)
    | .global => .ok (.perFunction k.toNat)
    | .other n => .error (.unknownNumber n)

end MipsBackend
