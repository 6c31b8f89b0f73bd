/-! Lines of assembly text. -/
namespace MipsBackend.Asm

inductive Line where
  | label (name : String)
  /-- A mnemonic with its operands and, behind them, an optional note. -/
  | instr (op : String) (args : List String) (note : Option String)
  | comment (text : String)
  deriving DecidableEq

namespace Line

/-- The line of four parts, any of which may be empty: a label comes before an instruction, and
that before a comment. -/
def ofParts (label op : String) (args : List String) (comment : String) : Line :=
  if label ≠ "" then .label label
  else if op ≠ "" then .instr op args (if comment = "" then none else some comment)
  else .comment comment

def isLabel : Line → Bool
  | .label _ => true
  | _ => false

/-- Whether the line is a comment that holds a text. -/
def isComment : Line → Bool
  | .comment text => text ≠ ""
  | _ => false

def text : Line → String
  | .label name => name ++ ":"
  | .instr op args note =>
    op ++ String.join (args.map (", " ++ ·)) ++ note.elim "" (" # " ++ ·)
  | .comment text => "# " ++ text

end Line

example : (Line.instr "sw" ["$t0", "4($sp)"] (some "store to x")).text =
    "sw, $t0, 4($sp) # store to x" := by decide +kernel

/-- Lines being collected for a function. -/
structure Draft where
  lines : List Line := []
  deriving DecidableEq

/-- The lowered body of a function. -/
structure Function where
  name : String
  lines : List Line
  deriving DecidableEq

namespace Draft

def add (d : Draft) (l : Line) : Draft := ⟨d.lines ++ [l]⟩

def reset (_ : Draft) : Draft := ⟨[]⟩

/-- Turn the lines into a function and start afresh. -/
def finish (d : Draft) (name : String) : Function × Draft := (⟨name, d.lines⟩, ⟨[]⟩)

end Draft
end MipsBackend.Asm
