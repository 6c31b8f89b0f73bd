import MipsBackend.Order.Map

/-! Interference graphs: undirected graphs without loops, whose nodes are names. A graph maps
every node to the set of its neighbours. -/
namespace MipsBackend

/-- An interference graph, given by the neighbours of every node. -/
structure Interference where
  neighbours : NameMap NameSet
  deriving DecidableEq

namespace Interference

def empty : Interference := ⟨∅⟩

def nodes (g : Interference) : NameSet := g.neighbours.keys

/-- The neighbours of `n`, none if it is no node. -/
def adjacent (g : Interference) (n : String) : NameSet := g.neighbours.getD n ∅

def hasEdge (g : Interference) (a b : String) : Bool := (g.adjacent a).contains b

def degree (g : Interference) (n : String) : Nat := (g.adjacent n).size

def addNode (g : Interference) (n : String) : Interference := ⟨g.neighbours.insert n (g.adjacent n)⟩

/-- Make `b` a neighbour of `a`, on the side of `a` only. -/
def addNeighbour (g : Interference) (a b : String) : Interference :=
  ⟨g.neighbours.insert a ((g.adjacent a).insert b)⟩

/-- The graph with an edge between two nodes. A name is never joined to itself. -/
def addEdge (g : Interference) (a b : String) : Interference :=
  if a = b then g else (g.addNeighbour a b).addNeighbour b a

def removeNode (g : Interference) (n : String) : Interference :=
  ⟨(g.neighbours.erase n).map fun _ ns => ns.erase n⟩

@[simp] theorem adjacent_empty (n : String) : empty.adjacent n = ∅ := rfl

@[simp] theorem adjacent_addNode (g : Interference) (n m : String) :
    (g.addNode n).adjacent m = g.adjacent m := by
  by_cases h : m = n <;> simp [addNode, adjacent, OrdMap.getD, h]

theorem adjacent_addNeighbour (g : Interference) (a b m : String) :
    (g.addNeighbour a b).adjacent m = if m = a then (g.adjacent a).insert b else g.adjacent m := by
  by_cases h : m = a <;> simp [addNeighbour, adjacent, OrdMap.getD, h]

@[simp] theorem adjacent_removeNode (g : Interference) (n m : String) :
    (g.removeNode n).adjacent m = if m = n then ∅ else (g.adjacent m).erase n := by
  by_cases h : m = n
  · simp [removeNode, adjacent, OrdMap.getD, h]
  · cases hm : g.neighbours.get? m <;>
      simp [removeNode, adjacent, OrdMap.getD, h, hm, OrdSet.erase]
    rfl

end Interference
end MipsBackend
