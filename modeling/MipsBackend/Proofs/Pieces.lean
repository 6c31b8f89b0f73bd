import MipsBackend.Proofs.Failures

/-! Pieces. The lines of a function fall into pieces in the order of its code: what each
instruction is lowered to, and what stands before, between and behind instructions. -/
namespace MipsBackend
open Asm Asm.Register

/-- A stretch of what a function is lowered to. Some belong to an instruction. -/
structure Piece (α : Type) where
  instruction? : Option Instruction
  items : List α
  deriving DecidableEq

namespace Scope
variable {s : Scope} {b : Block} {x : Piece Action}

/-- Make the frame and save the return address. -/
def openFrame (s : Scope) : List Action :=
  [.line "addiu" [sp, sp, "-" ++ toString s.frame], .line "sw" [ra, s.returnSlot]]

/-- Take the parameters out of the argument registers. -/
def takeParams (s : Scope) : List Action :=
  s.function.params.zipIdx.map fun x => .write (.text (Register.arg x.2)) x.1

/-- An instruction, behind the exit of its block if it is terminal. -/
def instructionPieces (s : Scope) (b : Block) (x : Nat × Instruction) : List (Piece Action) :=
  [⟨none, if x.2.isTerminal then [.exitBlock b] else []⟩, ⟨some x.2, s.lowerInstruction x.1 x.2⟩]

def blockPieces (s : Scope) (b : Block) : List (Piece Action) :=
  ⟨none, s.lowerLabel b ++ [.enterBlock b]⟩ :: (b.positioned.flatMap (s.instructionPieces b) ++
    [⟨none, if b.last?.any Instruction.isTerminal then [] else [.exitBlock b]⟩])

/-- The pieces that run inside of the frame. -/
def framedPieces (s : Scope) : List (Piece Action) :=
  ⟨none, s.takeParams⟩ :: s.function.walk.flatMap s.blockPieces

def pieces (s : Scope) : List (Piece Action) :=
  ⟨none, [.enterFunction]⟩ :: ⟨none, s.openFrame⟩ :: s.framedPieces

lemma items_blockPieces (b : Block) : (s.blockPieces b).flatMap Piece.items = s.lowerBlock b := by
  have hbody : (b.positioned.flatMap (s.instructionPieces b)).flatMap Piece.items =
      b.positioned.flatMap fun x => s.lowerIn b x.1 x.2 := by
    rw [List.flatMap_assoc]
    refine List.flatMap_congr fun x _ => ?_
    simp [instructionPieces, lowerIn]
  rw [blockPieces, List.flatMap_cons, List.flatMap_append, hbody, lowerBlock_eq, lowerBody]
  simp

/-- The pieces of a function make up what it is lowered to. -/
lemma items_pieces : s.pieces.flatMap Piece.items = s.lower := by
  have hblocks : (s.function.walk.flatMap s.blockPieces).flatMap Piece.items =
      s.function.walk.flatMap s.lowerBlock := by
    rw [List.flatMap_assoc]
    exact List.flatMap_congr fun b _ => items_blockPieces b
  simp only [pieces, framedPieces, List.flatMap_cons, hblocks]
  rfl

lemma instructions_blockPieces (b : Block) :
    (s.blockPieces b).filterMap Piece.instruction? = b.body := by
  have hbody : (b.positioned.flatMap (s.instructionPieces b)).filterMap Piece.instruction? =
      b.positioned.map Prod.snd := by
    rw [List.filterMap_flatMap, List.map_eq_flatMap]
    rfl
  rw [blockPieces, List.filterMap_cons, List.filterMap_append, hbody, b.map_snd_positioned]
  simp

/-- Each instruction of the code has its piece. -/
lemma instructions_framedPieces (hf : s.function.Built) :
    s.framedPieces.filterMap Piece.instruction? = s.function.code := by
  rw [← hf.code, framedPieces, hf.walk_eq, List.filterMap_cons, List.filterMap_flatMap]
  exact List.flatMap_congr fun b _ => instructions_blockPieces b

/-- What belongs to no instruction: a label, the entry or exit of a block, or a parameter. -/
def IsBetween (s : Scope) (a : Action) : Prop :=
  (∃ l, a = .label l) ∨ (∃ b, a = .enterBlock b) ∨ (∃ b, a = .exitBlock b) ∨ a ∈ s.takeParams

lemma mem_instructionPieces {y : Nat × Instruction} (hx : x ∈ s.instructionPieces b y) :
    (∀ a ∈ x.items, s.IsBetween a) ∧ x.instruction? = none ∨
      x = ⟨some y.2, s.lowerInstruction y.1 y.2⟩ := by
  simp only [instructionPieces, List.mem_cons, List.not_mem_nil, or_false] at hx
  rcases hx with rfl | rfl
  · refine Or.inl ⟨fun a ha => ?_, rfl⟩
    dsimp only at ha
    split at ha
    · exact Or.inr (Or.inr (Or.inl ⟨b, List.mem_singleton.mp ha⟩))
    · cases ha
  · exact Or.inr rfl

lemma mem_blockPieces (hx : x ∈ s.blockPieces b) :
    (∀ a ∈ x.items, s.IsBetween a) ∧ x.instruction? = none ∨
      ∃ n, ∃ i ∈ b.body, x = ⟨some i, s.lowerInstruction n i⟩ := by
  rcases List.mem_cons.mp hx with rfl | hx
  · refine Or.inl ⟨fun a ha => ?_, rfl⟩
    rcases List.mem_append.mp ha with ha | ha
    · exact Or.inl (eq_label_of_mem_lowerLabel ha)
    · exact Or.inr (Or.inl ⟨b, List.mem_singleton.mp ha⟩)
  rcases List.mem_append.mp hx with hx | hx
  · obtain ⟨y, hy, hx⟩ := List.mem_flatMap.mp hx
    exact (mem_instructionPieces hx).imp_right fun h => ⟨y.1, y.2, (List.of_mem_zip hy).2, h⟩
  · obtain rfl := List.mem_singleton.mp hx
    refine Or.inl ⟨fun a ha => ?_, rfl⟩
    dsimp only at ha
    split at ha
    · cases ha
    · exact Or.inr (Or.inr (Or.inl ⟨b, List.mem_singleton.mp ha⟩))

/-- A piece inside of the frame is what an instruction is lowered to, or belongs to none. -/
lemma mem_framedPieces (hf : s.function.Built) (hx : x ∈ s.framedPieces) :
    (∀ a ∈ x.items, s.IsBetween a) ∧ x.instruction? = none ∨
      ∃ n, ∃ i ∈ s.function.code, x = ⟨some i, s.lowerInstruction n i⟩ := by
  rcases List.mem_cons.mp hx with rfl | hx
  · exact Or.inl ⟨fun a ha => Or.inr (Or.inr (Or.inr ha)), rfl⟩
  · obtain ⟨b, hb, hx⟩ := List.mem_flatMap.mp hx
    refine (mem_blockPieces hx).imp_right ?_
    rintro ⟨n, i, hi, rfl⟩
    have hb := Function.mem_blocks_of_mem_walk hb
    exact ⟨n, i, hf.code ▸ List.mem_flatMap.mpr ⟨b, hb, hi⟩, rfl⟩

end Scope

/-! ### Lines -/

namespace Placement
variable {q : Placement} {c : Cache} {xs : List (Piece Action)} {y : Piece Line}

/-- The lines of pieces, one after the other. -/
def perform (q : Placement) (c : Cache) : List (Piece Action) → List (Piece Line)
  | [] => []
  | x :: xs =>
    ⟨x.instruction?, (q.run c x.items).lines⟩ :: perform q (q.nexts c x.items) xs

lemma instructions_perform :
    (q.perform c xs).filterMap Piece.instruction? = xs.filterMap Piece.instruction? := by
  induction xs generalizing c with
  | nil => rfl
  | cons x xs ih => rw [perform, List.filterMap_cons, List.filterMap_cons, ih]

lemma items_perform (h : (q.run c (xs.flatMap Piece.items)).failure = none) :
    (q.perform c xs).flatMap Piece.items = (q.run c (xs.flatMap Piece.items)).lines := by
  induction xs generalizing c with
  | nil => rfl
  | cons x xs ih =>
    rw [List.flatMap_cons] at h
    obtain ⟨hrest, hlines⟩ := lines_run_append h
    rw [perform, List.flatMap_cons, List.flatMap_cons, hlines, ih hrest]

/-- The lines of a piece come from its actions. -/
lemma of_mem_perform (h : (q.run c (xs.flatMap Piece.items)).failure = none)
    (hy : y ∈ q.perform c xs) : ∃ x ∈ xs, ∃ d, (q.run d x.items).failure = none ∧
      y = ⟨x.instruction?, (q.run d x.items).lines⟩ := by
  induction xs generalizing c with
  | nil => cases hy
  | cons x xs ih =>
    rw [List.flatMap_cons, run_append] at h
    obtain ⟨hfirst, hrest⟩ := Emission.failure_andThen.mp h
    rcases List.mem_cons.mp hy with rfl | hy
    · exact ⟨x, by simp, c, hfirst, rfl⟩
    · obtain ⟨x', hx', hd⟩ := ih hrest hy
      exact ⟨x', by simp [hx'], hd⟩

/-- The lines of a function in pieces. -/
def linePieces (q : Placement) : List (Piece Line) := q.perform {} q.pieces

lemma items_linePieces (h : (q.run {} q.lower).failure = none) :
    q.linePieces.flatMap Piece.items = (q.run {} q.lower).lines := by
  rw [← Scope.items_pieces] at h ⊢
  exact items_perform h

lemma instructions_linePieces (hf : q.function.Built) :
    q.linePieces.filterMap Piece.instruction? = q.function.code :=
  instructions_perform.trans (Scope.instructions_framedPieces hf)

/-- The piece of an instruction has the lines of the instruction. -/
lemma of_mem_linePieces {i : Instruction} (hf : q.function.Built)
    (h : (q.run {} q.lower).failure = none) (hy : y ∈ q.linePieces)
    (hi : y.instruction? = some i) : i ∈ q.function.code ∧ ∃ n d,
      (q.run d (q.lowerInstruction n i)).failure = none ∧
      y.items = (q.run d (q.lowerInstruction n i)).lines := by
  rw [← Scope.items_pieces] at h
  obtain ⟨x, hx, d, hok, rfl⟩ := of_mem_perform h hy
  have hframed : x ∈ q.framedPieces := by
    rcases List.mem_cons.mp hx with rfl | hx
    · cases hi
    rcases List.mem_cons.mp hx with rfl | hx
    · cases hi
    · exact hx
  rcases Scope.mem_framedPieces hf hframed with ⟨-, hnone⟩ | ⟨n, j, hj, rfl⟩
  · exact absurd (hnone.symm.trans hi) (by simp)
  · cases hi
    exact ⟨hj, n, d, hok, rfl⟩

end Placement

/-- A function that does not fail comes out as its pieces. -/
lemma Session.pieces_of_generate {p : Program} {g : Strategy} {f : Function} {a : Asm.Function}
    (h : (Session.generate { program := p, strategy := g } f).2 = .ok a) :
    ((g.place ⟨p, f⟩).run {} (Scope.lower ⟨p, f⟩)).failure = none ∧
      a.lines = (g.place ⟨p, f⟩).linePieces.flatMap Piece.items := by
  obtain ⟨hok, -, rfl⟩ := generate_eq_ok_iff.mp (Prod.ext rfl h)
  exact ⟨hok, (Placement.items_linePieces (q := g.place ⟨p, f⟩) hok).symm⟩

end MipsBackend
