import MipsBackend.Allocation.Basic
import MipsBackend.Asm.Register
import MipsBackend.Report.Table

/-! Reports on a function: what is live where, and where its variables are kept. -/
namespace MipsBackend

def setCell (s : NameSet) : Cell :=
  .text (if s.toList.isEmpty then "-" else " ".intercalate s.toList)

/-- A title with the number of passes that an analysis took. -/
def passesTitle (what name : String) (passes : Nat) : String :=
  what ++ ": " ++ name ++ " (" ++ toString passes ++ " passes)"

namespace Function

def labelledText (i : Instruction) : String := i.label.elim "" (· ++ ": ") ++ i.text

def livenessTable (f : Function) (l : Liveness) : Table where
  title := passesTitle "Liveness" f.name l.passes
  header := ["#", "Block", "Instruction", "Live out"]
  rows := f.blocks.flatMap fun b => b.positioned.map fun (n, i) =>
    [.number n, .text ("B" ++ toString b.id), .text (labelledText i), setCell (l.liveOut n)]

def blockLivenessTable (f : Function) (l : Liveness) : Table where
  title := passesTitle "Block liveness" f.name l.passes
  header := ["Block", "Label", "Uses", "Defs", "Live out"]
  rows := f.blocks.map fun b =>
    [.text ("B" ++ toString b.id), .text (b.label.getD "-"), setCell (l.use b.id),
      setCell (l.defs b.id), setCell (l.liveOut b.id)]

/-- The stack slot of a variable as an operand. -/
def slotText (f : Function) (v : String) : String :=
  Asm.stackSlot ((f.slot? v).elim 0 fun s => (s.offset : Int))

end Function

/-- What is reported about where a variable is kept. -/
structure VariableReport where
  name : String
  type : String
  /-- The number of instructions that its web spans. -/
  webSize : Option Nat
  /-- The number of webs that it interferes with. -/
  degree : Option Nat
  location : String
  deriving DecidableEq

/-- Report where a declared variable is kept. -/
def Allocation.report (a : Allocation) (p : Program) (f : Function) (v : String) :
    VariableReport :=
  let type := if f.isFloat v then "float" else "int"
  if p.isGlobal v then ⟨v, type, none, none, v ++ " (global)"⟩
  else if f.isArray v then ⟨v, "int[]", none, none, v ++ " (array)"⟩
  else match a.webs.get? v with
    | none => ⟨v, type, some 0, none, f.slotText v⟩
    | some w =>
      let location := match a.register? v with
        | some r => Asm.Register.saved r
        | none => f.slotText v ++ " (spilled)"
      ⟨v, type, some w.points.size, some (a.graph.degree v), location⟩

/-- A number in a cell, or a dash. -/
def numberCell (n : Option Nat) : Cell := n.elim (.text "-") .number

/-- The row of a variable. -/
def VariableReport.cells (r : VariableReport) : List Cell :=
  [.text r.name, .text r.type, numberCell r.webSize, numberCell r.degree, .text r.location]

/-- Where every declared variable of a function is kept. -/
def Allocation.table (a : Allocation) (p : Program) (f : Function) : Table where
  title := "Allocation: " ++ f.name ++ " (K=" ++ toString a.k ++ ")"
  header := ["Variable", "Type", "Web size", "Degree", "Location"]
  rows := (f.ints ++ f.floats).map fun v => (a.report p f v).cells

end MipsBackend
