import MipsBackend.Allocation.Interference

/-! Colouring an interference graph with `k` colours. Nodes are removed one after the other: the
lowest name with fewer than `k` neighbours left, or, if there is none, the node with most of
them, as a candidate for spilling. They are then coloured in the opposite order, each with the
lowest colour that no coloured neighbour has; a node that finds none stays without. -/
namespace MipsBackend

structure Removal where
  node : String
  /-- How many neighbours it had left. -/
  degree : Nat
  /-- It was removed although it had `k` neighbours or more. -/
  forced : Bool
  deriving DecidableEq

abbrev Colors := NameMap Nat

namespace Interference

/-- The first of the nodes of highest degree, after `best`. -/
def highest (g : Interference) (best : String) : List String → String
  | [] => best
  | n :: ns => g.highest (if g.degree best < g.degree n then n else best) ns

def nextRemoval (g : Interference) (k : Int) : Option Removal :=
  match g.nodes.toList.find? fun n => (g.degree n : Int) < k with
  | some n => some ⟨n, g.degree n, false⟩
  | none =>
    match g.nodes.toList with
    | [] => none
    | n :: ns =>
      let m := g.highest n ns
      some ⟨m, g.degree m, true⟩

/-- Remove up to `fuel` nodes. -/
def removals (k : Int) : Nat → Interference → List Removal
  | 0, _ => []
  | fuel + 1, g =>
    match g.nextRemoval k with
    | none => []
    | some r => r :: removals k fuel (g.removeNode r.node)

/-- The order in which all nodes are removed. -/
def eliminate (g : Interference) (k : Int) : List Removal := removals k g.nodes.size g

/-- The colours of the coloured neighbours of a node. -/
def taken (g : Interference) (colors : Colors) (n : String) : List Nat :=
  (g.adjacent n).toList.filterMap colors.get?

/-- The lowest number that is not in a list. -/
def lowestFree (used : List Nat) : Nat :=
  ((List.range (used.length + 1)).find? fun c => !used.contains c).getD used.length

/-- The lowest colour below `k` that no coloured neighbour of `n` has. -/
def freeColor (g : Interference) (k : Int) (colors : Colors) (n : String) : Option Nat :=
  let c := lowestFree (g.taken colors n)
  if (c : Int) < k then some c else none

/-- Colour a node if a colour is free for it. -/
def colorNode (g : Interference) (k : Int) (colors : Colors) (n : String) : Colors :=
  match g.freeColor k colors n with
  | some c => colors.insert n c
  | none => colors

def colorAll (g : Interference) (k : Int) (order : List String) : Colors :=
  order.foldl (g.colorNode k) ∅

def removeAll (g : Interference) (ns : List String) : Interference := ns.foldl removeNode g

end Interference

/-- A colouring of a graph and how it came about. -/
structure Coloring where
  removals : List Removal
  colors : Colors

namespace Coloring

/-- Colour the nodes of a graph outside `excluded`. -/
def ofGraph (g : Interference) (excluded : List String) (k : Int) : Coloring :=
  let order := (g.removeAll excluded).eliminate k
  ⟨order, g.colorAll k (order.map Removal.node).reverse⟩

end Coloring
end MipsBackend
