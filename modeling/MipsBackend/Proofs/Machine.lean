import MipsBackend.Placement.Basic
import MipsBackend.Proofs.Operands

/-! A machine that runs emitted lines. It knows registers by their names and memory by the texts
of memory operands. What literals are worth and what operations compute is left open, and so is
what a called function does, as long as it leaves the stack of its caller alone. Array accesses,
whose addresses are computed, are outside of this machine. -/
namespace MipsBackend
open Asm Asm.Register

/-- What a line does, by its mnemonic. -/
inductive Effect where
  | load | store | constant | move | call | branch | control | compute
  deriving DecidableEq

def Effect.of (op : String) : Effect :=
  if op = "lw" ∨ op = "l.s" then .load
  else if op = "sw" ∨ op = "s.s" then .store
  else if op = "li" ∨ op = "li.s" then .constant
  else if op = "move" then .move
  else if op = "jal" then .call
  else if op ∈ ["beq", "bne", "blt", "bgt", "bge", "ble"] then .branch
  else if op ∈ ["j", "jr", "syscall"] then .control
  else .compute

/-- The machine, for the symbols of a program. -/
structure Machine (p : Program) (V : Type) where
  literal : String → V
  compute : String → V → V → V
  /-- What the calls, in the order in which they are made, leave in `$v0` and `$f0`. -/
  result : Nat → Register → V
  /-- What they leave in the global symbols. -/
  symbol : Nat → String → V
  /-- What they leave in all other registers. -/
  clobbered : Nat → Register → V

namespace Machine

structure State (V : Type) where
  regs : Register → V
  mem : String → V
  /-- The number of calls made so far. -/
  calls : Nat

/-- What can be seen of a line by which control leaves the straight path. -/
structure Observation (V : Type) where
  op : String
  /-- The label or function that control goes to. -/
  target : String
  /-- The values that a branch compares. -/
  compared : List V
  /-- The registers at that moment. -/
  regs : Register → V

namespace State
variable {V : Type}

def setReg (s : State V) (r : Register) (x : V) : State V :=
  { s with regs := fun q => if q = r then x else s.regs q }

def setMem (s : State V) (a : String) (x : V) : State V :=
  { s with mem := fun b => if b = a then x else s.mem b }

@[simp] lemma regs_setReg (s : State V) (r q : Register) (x : V) :
    (s.setReg r x).regs q = if q = r then x else s.regs q := rfl

@[simp] lemma mem_setReg (s : State V) (r : Register) (x : V) : (s.setReg r x).mem = s.mem := rfl

@[simp] lemma calls_setReg (s : State V) (r : Register) (x : V) :
    (s.setReg r x).calls = s.calls := rfl

@[simp] lemma mem_setMem (s : State V) (a b : String) (x : V) :
    (s.setMem a x).mem b = if b = a then x else s.mem b := rfl

@[simp] lemma regs_setMem (s : State V) (a : String) (x : V) : (s.setMem a x).regs = s.regs := rfl

@[simp] lemma calls_setMem (s : State V) (a : String) (x : V) :
    (s.setMem a x).calls = s.calls := rfl

end State

variable {p : Program} {V : Type} (m : Machine p V)

/-- The value of a register or a literal. -/
def value (s : State V) (x : String) : V := if isRegister x then s.regs x else m.literal x

/-- The state after a call. -/
def afterCall (s : State V) : State V where
  regs r := if r = v0 ∨ r = f0 then m.result s.calls r else m.clobbered s.calls r
  mem a := if p.isGlobal a then m.symbol s.calls a else s.mem a
  calls := s.calls + 1

/-- The state after an instruction line. -/
def stepInstr (s : State V) (op : String) (args : List String) : State V :=
  match Effect.of op, args with
  | .load, [r, a] => s.setReg r (s.mem a)
  | .store, [r, a] => s.setMem a (s.regs r)
  | .constant, [r, x] => s.setReg r (m.literal x)
  | .move, [r, q] => s.setReg r (s.regs q)
  | .compute, [r, a, b] => s.setReg r (m.compute op (m.value s a) (m.value s b))
  | .call, _ => m.afterCall s
  | _, _ => s

/-- The state after a line. -/
def step (s : State V) : Line → State V
  | .instr op args _ => m.stepInstr s op args
  | _ => s

/-- What can be seen of a line. -/
def visible? (s : State V) : Line → Option (Observation V)
  | .instr op args _ =>
    match Effect.of op, args with
    | .branch, [a, b, l] => some ⟨op, l, [m.value s a, m.value s b], s.regs⟩
    | .call, _ => some ⟨op, args.headD "", [], s.regs⟩
    | .control, _ => some ⟨op, args.headD "", [], s.regs⟩
    | _, _ => none
  | _ => none

/-- The state after lines. -/
def run (s : State V) (ls : List Line) : State V := ls.foldl m.step s

/-- What can be seen of lines. -/
def observations (s : State V) : List Line → List (Observation V)
  | [] => []
  | l :: ls => (m.visible? s l).toList ++ observations (m.step s l) ls

lemma run_append (s : State V) (ls ls' : List Line) :
    m.run s (ls ++ ls') = m.run (m.run s ls) ls' := List.foldl_append

lemma observations_append (s : State V) (ls ls' : List Line) :
    m.observations s (ls ++ ls') = m.observations s ls ++ m.observations (m.run s ls) ls' := by
  induction ls generalizing s with
  | nil => rfl
  | cons l ls ih => simp [observations, run, ih]

/-- An emission does not fail, and its lines take the machine from `s` to `t`, where `os` can be
seen on the way. -/
structure Performs (e : Emission) (s : State V) (os : List (Observation V)) (t : State V) :
    Prop where
  succeeds : e.failure = none
  run : m.run s e.lines = t
  observed : m.observations s e.lines = os

variable {m} {s t u : State V} {os os' : List (Observation V)}

lemma performs_nothing : m.Performs .nothing s [] s := ⟨rfl, rfl, rfl⟩

lemma Performs.andThen {e e' : Emission} (h : m.Performs e s os t) (h' : m.Performs e' t os' u) :
    m.Performs (e.andThen e') s (os ++ os') u := by
  obtain ⟨hf, rfl, rfl⟩ := h
  obtain ⟨hf', rfl, rfl⟩ := h'
  simp only [Emission.andThen, hf]
  exact ⟨hf', m.run_append _ _ _, m.observations_append _ _ _⟩

lemma performs_line (l : Line) : m.Performs ⟨[l], none⟩ s (m.visible? s l).toList (m.step s l) :=
  ⟨rfl, rfl, by simp [observations]⟩

end Machine
end MipsBackend
