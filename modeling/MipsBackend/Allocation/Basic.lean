import MipsBackend.Allocation.Coloring
import MipsBackend.Liveness.Basic
import MipsBackend.Program.Basic

/-! Register allocation for a function. The web of a variable is the set of instructions after
which it is live or which define it; webs that meet interfere; the interference graph is
coloured with the available registers. Global variables and arrays have no web, since they live
in static storage, and webs of float variables are never coloured. -/
namespace MipsBackend

/-- The live range of a variable. -/
structure Web where
  isFloat : Bool
  /-- The positions of the instructions that it spans. -/
  points : OrdSet Int
  deriving DecidableEq

abbrev Webs := NameMap Web

namespace Webs

/-- All pairs of a list with the earlier member first. -/
def pairs : List String → List (String × String)
  | [] => []
  | a :: rest => rest.map (fun b => (a, b)) ++ pairs rest

/-- The points of a web, none if there is no web of that name. -/
def points (ws : Webs) (n : String) : OrdSet Int := (ws.get? n).elim ∅ Web.points

/-- The pairs of names whose webs meet. -/
def conflicts (ws : Webs) : List (String × String) :=
  (pairs ws.keys.toList).filter fun p => (ws.points p.1).intersects (ws.points p.2)

def interference (ws : Webs) : Interference :=
  ws.conflicts.foldl (fun g p => g.addEdge p.1 p.2)
    (ws.keys.toList.foldl Interference.addNode .empty)

def floats (ws : Webs) : List String := (ws.filter fun _ w => w.isFloat).keys.toList

def uncolored (ws : Webs) (colors : Colors) : NameSet :=
  (ws.filter fun n _ => !colors.contains n).keys

end Webs

namespace Function

def positions (f : Function) : List Nat := List.range f.code.length

/-- The variables that are live after instructions or defined by them, with the positions of these
instructions. -/
def occupations (f : Function) (l : Liveness) : List (String × Nat) :=
  f.positions.flatMap fun i => ((l.liveOut i).toList ++ (l.defs i).toList).map fun v => (v, i)

/-- Whether a variable can have a web. -/
def hasWeb (p : Program) (f : Function) (v : String) : Bool := !(p.isGlobal v || f.isArray v)

/-- Add an instruction to the web of a variable, a new one if it has none so far. -/
def addPoint (p : Program) (f : Function) (ws : Webs) (o : String × Nat) : Webs :=
  if f.hasWeb p o.1 then
    ws.alter o.1 { isFloat := f.isFloat o.1, points := ∅ } fun w =>
      { w with points := w.points.insert o.2 }
  else ws

def webs (p : Program) (f : Function) (l : Liveness) : Webs :=
  (f.occupations l).foldl (f.addPoint p) ∅

end Function

/-- The registers of a function's variables. -/
structure Allocation where
  k : Int
  liveness : Liveness
  webs : Webs
  graph : Interference
  coloring : Coloring

namespace Allocation

/-- Allocate registers for a function from `k` available ones. -/
def ofFunction (p : Program) (f : Function) (k : Int) : Allocation :=
  let l := f.liveness
  let ws := f.webs p l
  let g := ws.interference
  ⟨k, l, ws, g, .ofGraph g ws.floats k⟩

def register? (a : Allocation) (v : String) : Option Nat := a.coloring.colors.get? v

/-- The variables that have a web but no register. -/
def spilled (a : Allocation) : NameSet := a.webs.uncolored a.coloring.colors

/-- The variables kept in registers at instruction `i`, with their register numbers. -/
def liveAt (a : Allocation) (i : Nat) : List (String × Nat) :=
  a.webs.entries.filterMap fun (n, w) =>
    if w.points.contains (i : Int) then (a.register? n).map (n, ·) else none

def events (a : Allocation) (f : Function) : List Event :=
  a.liveness.instructionEvent f ::
    (a.webs.conflicts.map fun p => Event.interference p.1 p.2) ++
    (a.coloring.removals.filter (·.forced)).map (fun r => .spillCandidate r.node r.degree) ++
    a.coloring.removals.reverse.map fun r =>
      match a.register? r.node with
      | some c => .colorAssigned r.node c
      | none => .webSpilled r.node

end Allocation
end MipsBackend
