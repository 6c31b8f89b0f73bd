import MipsBackend.Allocation.Basic
import MipsBackend.Lowering.Basic
import MipsBackend.Placement.Memory
import MipsBackend.Placement.Scheme

/-! Placement: turning the actions of a function into lines, with each variable where a plan
keeps it. A plan without registers for a variable falls back to memory. -/
namespace MipsBackend
open Asm Asm.Register

/-- Where the variables of a function live. -/
inductive Plan where
  | memory
  /-- The most used variables of each block have registers inside the block. -/
  | perBlock (registers : Nat) (live : Liveness)
  /-- Variables have the registers of an allocation. -/
  | perFunction (alloc : Allocation)

/-- A function in its program, with a plan for its variables. -/
structure Placement extends Scope where
  plan : Plan

/-- What a placement remembers between actions. -/
structure Cache where
  /-- The registers of the variables of the current block. -/
  assigned : NameMap Nat := ∅
  /-- The variables of the current block have been written back to memory. -/
  committed : Bool := false
  /-- The registers that hold what was read for the sake of scratch registers. -/
  held : NameMap String := ∅
  deriving DecidableEq

/-- Put an entry among entries in decreasing order of their counts, before those that count as
much. -/
def rankOne (e : String × Nat) : List (String × Nat) → List (String × Nat)
  | [] => [e]
  | x :: xs => if x.2 ≤ e.2 then e :: x :: xs else x :: rankOne e xs

/-- Entries in decreasing order of their counts; equals stay in their order. -/
def rank : List (String × Nat) → List (String × Nat)
  | [] => []
  | e :: es => rankOne e (rank es)

namespace Scope

/-- Whether a variable may have a register inside a block: an integer in its stack slot. -/
def isCacheable (s : Scope) (v : String) : Bool :=
  s.function.isInt v && !s.program.isGlobal v && !s.function.isArray v

/-- The variables that a block keeps in `k` registers: the most used ones, ties by name. -/
def workingSet (s : Scope) (k : Nat) (b : Block) : List String :=
  ((rank ((s.function.useCounts b).entries.filter fun e => s.isCacheable e.1)).map Prod.fst).take k

end Scope

namespace Cache

/-- The register that holds what was read for the sake of a scratch register. -/
def register (c : Cache) (scratch : String) : String := c.held.getD scratch scratch

def resolve (c : Cache) : Operand → String
  | .text s => s
  | .held scratch => c.register scratch

end Cache

namespace Placement
variable (p : Placement)

/-- The register that holds a variable now. -/
def register? (c : Cache) (v : String) : Option Nat :=
  match p.plan with
  | .memory => none
  | .perBlock _ _ => c.assigned.get? v
  | .perFunction a => a.register? v

/-- The register that a variable is to be written to. After a block has been committed, its
variables are written to memory. -/
def target? (c : Cache) (v : String) : Option Nat :=
  match p.plan with
  | .memory => none
  | .perBlock _ _ => if c.committed then none else c.assigned.get? v
  | .perFunction a => a.register? v

/-- The register in which a variable is found after it has been read. -/
def answer (c : Cache) (v scratch : String) : String :=
  match p.register? c v with
  | none => scratch
  | some r => if isArgOrReturn scratch then scratch else saved r

/-- The registers of the variables whose values must survive the call at a position; its own
result need not. -/
def liveAcross (a : Allocation) (position : Nat) : List (String × Nat) :=
  let defs := (p.function.code[position]?.map Instruction.defs).getD []
  (a.liveAt position).filter fun e => !defs.contains e.1

/-- The variables to write back at the end of a block: those that it defines and that are live
after it. -/
def writeBacks (live : Liveness) (c : Cache) (b : Block) : List (String × Nat) :=
  c.assigned.entries.filter fun e =>
    (live.defs b.id).contains e.1 && (live.liveOut b.id).contains e.1

/-- Store the registers of variables to memory. -/
def storeAll (es : List (String × Nat)) : Emission :=
  .sequence (es.map fun e => p.store (saved e.2) e.1)

/-- Load variables from memory into their registers. -/
def loadAll (es : List (String × Nat)) : Emission :=
  .sequence (es.map fun e => p.load e.1 (saved e.2))

def commentLine (text : String) : Emission := ⟨[.comment text], none⟩

def announce (a : Allocation) : List Line :=
  .comment ("enter " ++ p.function.name) :: a.webs.keys.toList.map fun v =>
    match a.register? v with
    | some r => .comment ("variable " ++ v ++ " assigned register " ++ saved r)
    | none => .comment ("variable " ++ v ++ " is spilled!")

/-- Load the working set of a block, whose members get the registers in order. -/
def loadWorkingSet (k : Nat) (b : Block) : Emission :=
  (commentLine "start of block - loading into registers").andThen
    (.sequence ((p.workingSet k b).zipIdx.map fun (v, r) =>
      (commentLine ("variable " ++ v ++ " is assigned register " ++ saved r)).andThen
        (p.load v (saved r))))

/-- Move a register or a literal into a register. -/
def moveLine (reg src : String) (note : Option String) : Line :=
  .instr (if isRegister src then "move" else "li") [reg, src] note

/-- The note on writing a variable's register. -/
def writeNote (v : String) : Option String :=
  match p.plan with
  | .perFunction _ => some ("store to " ++ v)
  | _ => none

/-- What an action emits. -/
def emission (c : Cache) : Action → Emission
  | .comment text => ⟨[.comment text], none⟩
  | .label name => ⟨[.label name], none⟩
  | .emit op args note => ⟨[.instr op (args.map c.resolve) note], none⟩
  | .enterFunction =>
    match p.plan with
    | .perFunction a => ⟨p.announce a, none⟩
    | _ => .nothing
  | .enterBlock b =>
    match p.plan with
    | .perBlock k _ => p.loadWorkingSet k b
    | _ => .nothing
  | .exitBlock b =>
    match p.plan with
    | .perBlock _ live =>
      (commentLine "begin spilling").andThen
        ((p.storeAll (writeBacks live c b)).andThen (commentLine "end of block"))
    | _ => .nothing
  | .save position =>
    match p.plan with
    | .perFunction a =>
      (commentLine "spilling for jal").andThen (p.storeAll (p.liveAcross a position))
    | _ => .nothing
  | .restore position =>
    match p.plan with
    | .perFunction a => (commentLine "unspilling").andThen (p.loadAll (p.liveAcross a position))
    | _ => .nothing
  | .read v scratch =>
    match p.register? c v with
    | none => p.load v scratch
    | some r =>
      if isArgOrReturn scratch then
        ⟨[notedLine ("move of " ++ v ++ " to fn arg/ret") "move" [scratch, saved r]], none⟩
      else .nothing
  | .write src v =>
    match p.target? c v with
    | none => p.store (c.resolve src) v
    | some r => ⟨[moveLine (saved r) (c.resolve src) (p.writeNote v)], none⟩
  | .compute op v a b =>
    match p.target? c v with
    | none => p.computeAndStore op v (c.resolve a) (c.resolve b)
    | some r => ⟨[plainLine op [saved r, c.resolve a, c.resolve b]], none⟩
  | .fail cause => ⟨[], some cause⟩

/-- Forget the register of a variable that is about to be written to memory. -/
def forget (c : Cache) (v : String) : Cache :=
  match p.target? c v with
  | none => { c with assigned := c.assigned.erase v }
  | some _ => c

/-- What is remembered after an action. -/
def next (c : Cache) : Action → Cache
  | .enterBlock b =>
    match p.plan with
    | .perBlock k _ =>
      { c with assigned := OrdMap.ofList (p.workingSet k b).zipIdx, committed := false }
    | _ => c
  | .exitBlock _ => { c with committed := true }
  | .read v scratch => { c with held := c.held.insert scratch (p.answer c v scratch) }
  | .write _ v => p.forget c v
  | .compute _ v _ _ => p.forget c v
  | _ => c

/-- Perform actions up to the first failure. -/
def run (c : Cache) : List Action → Emission
  | [] => .nothing
  | a :: as => (p.emission c a).andThen (run (p.next c a) as)

/-- What is remembered after actions that are performed up to the first failure. -/
def leave (c : Cache) : List Action → Cache
  | [] => c
  | a :: as => if (p.emission c a).failure.isSome then p.next c a else leave (p.next c a) as

/-- Begin a function. A plan for single blocks forgets where the last function left its
variables; the others look at no such thing. -/
def renew (c : Cache) : Cache :=
  match p.plan with
  | .perBlock _ _ => { c with assigned := ∅, committed := false }
  | _ => c

end Placement

namespace Strategy

def plan (s : Strategy) (sc : Scope) : Plan :=
  match s with
  | .memory => .memory
  | .perBlock k => .perBlock k sc.function.blockLiveness
  | .perFunction k => .perFunction (.ofFunction sc.program sc.function k)

def place (s : Strategy) (sc : Scope) : Placement := { sc with plan := s.plan sc }

end Strategy

/-- What making a plan recorded. -/
def Plan.events (f : Function) : Plan → List Event
  | .memory => []
  | .perBlock _ live => [live.blockEvent f]
  | .perFunction a => a.events f

end MipsBackend
