import MipsBackend.Allocation.Basic

/-! Colouring webs in place. The webs of an allocator carry their colours, which a run takes away
before it gives them new ones, so the same webs can be coloured again with another number of
colours. -/
namespace MipsBackend

/-- A web with its colour, given in the last run or left over from an earlier one. -/
structure ColoredWeb extends Web where
  color : Option Nat := none
  deriving DecidableEq

structure Allocator where
  graph : Interference
  webs : NameMap ColoredWeb
  k : Int
  /-- The webs that the last run has left without a colour. -/
  spilled : NameSet := ∅
  deriving DecidableEq

namespace Allocator

/-- The colours of the webs that have one. -/
def colors (a : Allocator) : Colors := a.webs.filterMap fun _ w => w.color

/-- The webs without their colours. -/
def plain (a : Allocator) : Webs := a.webs.map fun _ w => w.toWeb

/-- Take all colours away. Webs of float variables are out of the running from the start. -/
def reset (a : Allocator) : Allocator :=
  { a with
    webs := a.webs.map fun _ w => { w with color := none }
    spilled := OrdSet.ofList a.plain.floats }

/-- Give a web the lowest colour that no neighbour has, or count it among the spilled ones. -/
def select (a : Allocator) (n : String) : Allocator :=
  match a.graph.freeColor a.k a.colors n with
  | some c => { a with webs := a.webs.map fun m w => if m = n then { w with color := some c } else w }
  | none => { a with spilled := a.spilled.insert n }

/-- The graph that is taken apart: the webs that can have a colour. -/
def work (a : Allocator) : Interference := a.graph.removeAll a.plain.floats

/-- The webs in the order in which they are coloured: those removed last come first. -/
def order (a : Allocator) : List String := ((a.work.eliminate a.k).map Removal.node).reverse

/-- Colour the webs anew. -/
def allocate (a : Allocator) : Allocator := a.order.foldl select a.reset

/-- An allocator for webs that have no colours yet. -/
def ofWebs (ws : Webs) (k : Int) : Allocator where
  graph := ws.interference
  webs := ws.map fun _ w => { toWeb := w }
  k := k

end Allocator
end MipsBackend
