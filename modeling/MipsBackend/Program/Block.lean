import MipsBackend.Code.Instruction

/-! Basic blocks: straight runs of code that control enters at the first instruction only and
leaves after the last. Code is cut before every labelled instruction and after every terminal
one; blocks are then linked by falling through and by jump targets. -/
namespace MipsBackend

/-- A basic block of a function. Blocks are numbered from 0 in code order. -/
structure Block where
  id : Nat
  /-- Position of the first instruction in the code. -/
  start : Nat
  body : List Instruction
  /-- The block that comes next in the code. -/
  after : Option Nat
  succs : List Nat := []
  preds : List Nat := []
  deriving DecidableEq

namespace Block

/-- Position after the last instruction. -/
def stop (b : Block) : Nat := b.start + b.body.length

def last? (b : Block) : Option Instruction := b.body.getLast?

def label (b : Block) : Option String := b.body.head?.bind Instruction.label

/-- The jump target of the last instruction. -/
def target? (b : Block) : Option String := b.last?.bind Instruction.target?

/-- The block after this one, if control can fall through to it. -/
def next? (b : Block) : Option Nat := if b.last?.any (·.fallsThrough) then b.after else none

/-- The instructions with their positions in the code. -/
def positioned (b : Block) : List (Nat × Instruction) :=
  (List.range' b.start b.body.length).zip b.body

end Block

/-- Whether a block boundary lies between an instruction and the run that follows it. -/
def isBoundary (i : Instruction) (rest : List Instruction) : Bool :=
  i.isTerminal || (rest.head?.bind Instruction.label).isSome

/-- Cut code into the bodies of its blocks. -/
def cut : List Instruction → List (List Instruction)
  | [] => []
  | i :: code =>
    match cut code with
    | [] => [[i]]
    | b :: bs => if isBoundary i b then [i] :: b :: bs else (i :: b) :: bs

/-- Cutting loses nothing. -/
@[simp] theorem flatten_cut (code : List Instruction) : (cut code).flatten = code := by
  induction code with
  | nil => rfl
  | cons i code ih =>
    rw [cut]
    cases h : cut code with
    | nil => simp_all
    | cons b bs =>
      rw [h] at ih
      simp only
      split <;> simp_all

theorem ne_nil_of_mem_cut {code b : List Instruction} (h : b ∈ cut code) : b ≠ [] := by
  induction code generalizing b with
  | nil => simp [cut] at h
  | cons i code ih =>
    rw [cut] at h
    cases hc : cut code with
    | nil => simp_all
    | cons c cs =>
      rw [hc] at h ih
      simp only at h
      split at h <;> grind

/-- Number the bodies from `id` on and place them one after the other from position `start`. -/
def layout (id start : Nat) : List (List Instruction) → List Block
  | [] => []
  | b :: bs =>
    { id := id, start := start, body := b, after := if bs.isEmpty then none else some (id + 1) } ::
      layout (id + 1) (start + b.length) bs

/-- The blocks from one on, each where the one before says that it comes next. -/
def walkFrom (bs : List Block) : Nat → Option Nat → List Block
  | steps + 1, some n =>
    match bs[n]? with
    | some b => b :: walkFrom bs steps b.after
    | none => []
  | _, _ => []

/-- The first block that carries a label. The empty text is no label. -/
def findBlock (bs : List Block) (label : String) : Option Nat :=
  if label = "" then none else bs.findIdx? fun b => b.label = some label

/-- Link block `a` to block `b`, at both ends. A successor that is there already stays alone. -/
def link (bs : List Block) (a b : Nat) : List Block :=
  if bs[a]?.any (·.succs.contains b) then bs
  else (bs.modify a fun x => { x with succs := x.succs ++ [b] }).modify b
    fun x => { x with preds := x.preds ++ [a] }

/-- Link a block to the one that control can fall into, then to the target of its jump. It fails
with a target that no block carries. -/
def linkBlock (bs : List Block) (b : Block) : Except String (List Block) :=
  let fallen := match b.next? with
    | some n => link bs b.id n
    | none => bs
  match b.target? with
  | none => .ok fallen
  | some target =>
    match findBlock fallen target with
    | some n => .ok (link fallen b.id n)
    | none => .error target

/-- Link the blocks one after the other, as far as their targets are there. -/
def linkBlocks (bs : List Block) : Except String (List Block) := bs.foldlM linkBlock bs

end MipsBackend
