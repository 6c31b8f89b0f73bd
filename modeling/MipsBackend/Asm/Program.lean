import MipsBackend.Asm.Line
import MipsBackend.Program.Listing

/-! Assembly programs: a data section with a word for each global variable and a block for each
array, and a text section with the functions. -/
namespace MipsBackend.Asm

structure Program where
  globals : List String
  arrays : List ArraySymbol
  functions : List Function
  deriving DecidableEq

/-- The size of an array in bytes, as a 64-bit number: a size beyond that range wraps around. -/
def spaceBytes (words : Int) : Int := (wordSize * words).bmod 18446744073709551616

namespace Program

/-- The data section; there is none without symbols. -/
def dataLines (p : Program) : List String :=
  if p.globals.isEmpty && p.arrays.isEmpty then []
  else ".data" :: p.globals.map (· ++ ": .word 0") ++
    p.arrays.map fun a => a.name ++ ": .space " ++ toString (spaceBytes a.words)

def functionLines (f : Function) : List String := (f.name ++ ":") :: f.lines.map Line.text

def textLines (p : Program) : List String :=
  p.dataLines ++ ".text" :: p.functions.flatMap functionLines

def text (p : Program) : String := unlines p.textLines

end Program
end MipsBackend.Asm
