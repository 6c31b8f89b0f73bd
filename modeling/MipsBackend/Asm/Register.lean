import MipsBackend.Text.Blank

/-! Names of registers and of memory operands in MIPS assembly. -/
namespace MipsBackend.Asm

abbrev Register := String

namespace Register

def sp : Register := "$sp"
def ra : Register := "$ra"
def v0 : Register := "$v0"
/-- Carries the float argument of the print system call. -/
def f12 : Register := "$f12"

/-! Scratch registers for integers. -/
def t0 : Register := "$t0"
def t1 : Register := "$t1"
def t2 : Register := "$t2"

/-! Scratch registers for floats. -/
def f0 : Register := "$f0"
def f2 : Register := "$f2"
def f4 : Register := "$f4"

/-- The number of saved registers that can be allocated. -/
def savedCount : Nat := 8

def saved (n : Int) : Register := "$s" ++ toString n

def arg (n : Int) : Register := "$a" ++ toString n

end Register

def isRegister (s : String) : Bool := (Text.afterStart? ['$'] s.toList).isSome

def isArgOrReturn (s : String) : Bool :=
  (Text.afterStart? ['$', 'a'] s.toList).isSome || (Text.afterStart? ['$', 'v'] s.toList).isSome

/-- The memory operand at an offset from a base register. -/
def address (offset : Int) (base : Register) : String := toString offset ++ "(" ++ base ++ ")"

/-- The memory operand at an offset from the stack pointer. -/
def stackSlot (offset : Int) : String := address offset .sp

end MipsBackend.Asm
