import MipsBackend.Event
import MipsBackend.Liveness.Flow
import MipsBackend.Program.Function

/-! Liveness of a function's variables, after every instruction and after every block. Only
declared variables count: literals, labels and other names are ignored. -/
namespace MipsBackend

namespace FunctionDef

def defVars (f : FunctionDef) (i : Instruction) : List String := i.defs.filter f.isVar

/-- The variables that an instruction reads, one entry for each occurrence. -/
def useVars (f : FunctionDef) (i : Instruction) : List String := i.uses.filter f.isVar

end FunctionDef

namespace Function

/-- The position of the first instruction of block `id`. -/
def blockStart (f : Function) (id : Nat) : Nat := (f.blocks[id]?.map Block.start).getD 0

/-- The successors of the instructions of a block: the next one in the block, and after the
last one the first instructions of the blocks that follow. -/
def blockFlow (f : Function) (b : Block) : List (List Nat) :=
  (List.range' b.start b.body.length).map fun i =>
    if i + 1 < b.stop then [i + 1] else b.succs.map f.blockStart

def instructionFlow (f : Function) : Flow where
  succs := (f.blocks.flatMap f.blockFlow).toArray
  use := (f.code.map fun i => OrdSet.ofList (f.useVars i)).toArray
  defs := (f.code.map fun i => OrdSet.ofList (f.defVars i)).toArray

/-- The flow problem of the blocks. A block uses and defines what its instructions do,
whatever their order. -/
def blocksFlow (f : Function) : Flow where
  succs := (f.blocks.map Block.succs).toArray
  use := (f.blocks.map fun b => OrdSet.ofList (b.body.flatMap f.useVars)).toArray
  defs := (f.blocks.map fun b => OrdSet.ofList (b.body.flatMap f.defVars)).toArray

end Function

/-- The live variables of a function after each node of a flow problem. -/
structure Liveness where
  flow : Flow
  solution : Flow.Solution

namespace Liveness

def use (l : Liveness) (i : Nat) : NameSet := l.flow.use.getD i ∅

def defs (l : Liveness) (i : Nat) : NameSet := l.flow.defs.getD i ∅

/-- The variables live after node `i`. -/
def liveOut (l : Liveness) (i : Nat) : NameSet := l.solution.out.getD i ∅

/-- The variables live before node `i`. -/
def liveIn (l : Liveness) (i : Nat) : NameSet := l.flow.before l.solution.out i

def passes (l : Liveness) : Nat := l.solution.passes

end Liveness

namespace Function

def liveness (f : Function) : Liveness := ⟨f.instructionFlow, f.instructionFlow.solve⟩

def blockLiveness (f : Function) : Liveness := ⟨f.blocksFlow, f.blocksFlow.solve⟩

/-- How often each variable is read in a block. -/
def useCounts (f : Function) (b : Block) : NameMap Nat :=
  (b.body.flatMap f.useVars).foldl (fun m v => m.alter v 0 (· + 1)) ∅

end Function

def Liveness.instructionEvent (l : Liveness) (f : Function) : Event :=
  .instructionsConverged f.name l.passes

def Liveness.blockEvent (l : Liveness) (f : Function) : Event := .blocksConverged f.name l.passes

end MipsBackend
