import MipsBackend.Order.Set

/-! Backward flow problems. Every node of a graph uses and defines some names, and a name is live
after a node if a path from there reaches a use before a definition. The solver sweeps over the
nodes in increasing order, recomputing each set from what is known of its successors at that
moment, until a sweep changes nothing. -/
namespace MipsBackend

/-- A graph whose nodes `0, 1, ...` use and define names. -/
structure Flow where
  succs : Array (List Nat)
  use : Array NameSet
  defs : Array NameSet

namespace Flow

def size (F : Flow) : Nat := F.succs.size

/-- The names live before node `s`, given those live after it. -/
def before (F : Flow) (out : Array NameSet) (s : Nat) : NameSet :=
  F.use.getD s ∅ ∪ (out.getD s ∅).diff (F.defs.getD s ∅)

/-- The names live after node `i`: those live before one of its successors. -/
def after (F : Flow) (out : Array NameSet) (i : Nat) : NameSet :=
  (F.succs.getD i []).foldl (fun acc s => acc ∪ F.before out s) ∅

/-- Live sets in the middle of a sweep, and whether it has changed one. -/
structure Sweep where
  out : Array NameSet
  changed : Bool

/-- Recompute the set of node `i`. -/
def visit (F : Flow) (s : Sweep) (i : Nat) : Sweep :=
  let new := F.after s.out i
  if new = s.out.getD i ∅ then s else ⟨s.out.setIfInBounds i new, true⟩

/-- Recompute all sets in place, in increasing order of nodes. -/
def sweep (F : Flow) (out : Array NameSet) : Sweep :=
  (List.range F.size).foldl F.visit ⟨out, false⟩

/-- Live sets and the number of sweeps made, the last one included, which changed nothing. -/
structure Solution where
  out : Array NameSet
  passes : Nat

/-- Sweep until nothing changes, at most `fuel` times, after `passes` sweeps already made. -/
def iterate (F : Flow) : Nat → Nat → Array NameSet → Solution
  | 0, passes, out => ⟨out, passes⟩
  | fuel + 1, passes, out =>
    let s := F.sweep out
    if s.changed then F.iterate fuel (passes + 1) s.out else ⟨s.out, passes + 1⟩

def names (F : Flow) : NameSet := F.use.foldl (· ∪ ·) ∅

/-- Solve the problem, starting from empty sets. Every sweep but the last adds a used name to
the set of a node, which bounds their number. -/
def solve (F : Flow) : Solution :=
  F.iterate (F.size * F.names.size + 1) 0 (Array.replicate F.size ∅)

end Flow
end MipsBackend
