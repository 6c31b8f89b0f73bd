import MipsBackend.Proofs.Blocks
import MipsBackend.Proofs.Flow

/-! Liveness of instructions and blocks as a property of the paths that control can take. -/
namespace MipsBackend
namespace Function

/-- Control can go from the instruction at `i` directly to the one at `j`: inside of a block to
the next one, at its end to the starts of its successors. -/
def Next (f : Function) (i j : Nat) : Prop :=
  ∃ b ∈ f.blocks, b.Contains i ∧
    (i + 1 < b.stop ∧ j = i + 1 ∨
      i + 1 = b.stop ∧ ∃ t ∈ f.blocks, t.id ∈ b.succs ∧ j = t.start)

/-- A path of control from `i` through `path` to an instruction that uses `v`, with no definition
of `v` before that. -/
structure LivePath (f : Function) (v : String) (i : Nat) (path : List Nat) : Prop where
  chain : (i :: path).IsChain f.Next
  use : ∃ u, path.getLast? = some u ∧ v ∈ f.liveness.use u
  clear : ∀ s ∈ path.dropLast, v ∉ f.liveness.defs s

/-- The equation of live variables: `v` is live after `i` if control can go to an instruction that
uses it, or to one that does not define it and after which it is live. -/
def LiveEquation (f : Function) (X : Nat → String → Prop) : Prop :=
  ∀ i v, X i v ↔ ∃ s, f.Next i s ∧ (v ∈ f.liveness.use s ∨ X s v ∧ v ∉ f.liveness.defs s)

variable {f : Function} {b : Block} {i j : Nat} {v : String}

namespace Built

lemma getElem?_id (hf : f.Built) (hb : b ∈ f.blocks) : f.blocks[b.id]? = some b := by
  obtain ⟨n, hn⟩ := List.mem_iff_getElem?.mp hb
  have := hf.tiles.id_of_getElem? hn
  rwa [show b.id = n by omega]

lemma exists_block (hf : f.Built) (hi : i < f.code.length) : ∃ b ∈ f.blocks, b.Contains i := by
  simpa using hf.tiles.exists_contains (by rwa [hf.code])

/-- The instruction at a position of a block. -/
lemma getElem?_code (hf : f.Built) (hb : b ∈ f.blocks) (hi : b.Contains i) :
    f.code[i]? = b.body[i - b.start]? := by
  have hn : i - b.start < b.body.length := by
    have := hi.1
    have := hi.2
    rw [Block.stop] at this
    omega
  rw [← hf.tiles.getElem?_flatMap (g := Block.body) (fun _ => rfl) hb hn, hf.code]
  congr 1
  have := hi.1
  omega

lemma lt_length (hf : f.Built) (hb : b ∈ f.blocks) (hi : b.Contains i) : i < f.code.length := by
  have hn : i - b.start < b.body.length := by
    have := hi.1
    have := hi.2
    rw [Block.stop] at this
    omega
  have h := hf.getElem?_code hb hi
  rw [List.getElem?_eq_getElem hn] at h
  exact (List.getElem?_eq_some_iff.mp h).1

lemma start_contains (hf : f.Built) (hb : b ∈ f.blocks) : b.Contains b.start := by
  have := List.length_pos_iff.mpr (hf.tiles.body_ne_nil hb)
  rw [Block.Contains, Block.stop]
  omega

lemma last_contains (hf : f.Built) (hb : b ∈ f.blocks) : b.Contains (b.stop - 1) := by
  have := List.length_pos_iff.mpr (hf.tiles.body_ne_nil hb)
  rw [Block.Contains, Block.stop]
  omega

lemma exists_succ (hf : f.Built) (hb : b ∈ f.blocks) {n : Nat} (hn : n ∈ b.succs) :
    ∃ t ∈ f.blocks, t.id = n ∧ f.blockStart n = t.start := by
  have hlt := hf.succs b hb n hn
  have ht := List.getElem?_eq_getElem hlt
  refine ⟨f.blocks[n], List.getElem_mem hlt, ?_, by simp [blockStart, ht]⟩
  have := hf.tiles.id_of_getElem? ht
  omega

lemma succs_getD (hf : f.Built) (hb : b ∈ f.blocks) (hi : b.Contains i) :
    f.instructionFlow.succs.getD i [] =
      if i + 1 < b.stop then [i + 1] else b.succs.map f.blockStart := by
  obtain ⟨h1, h2⟩ := hi
  rw [Block.stop] at h2
  have hn : i - b.start < b.body.length := by omega
  have hget := hf.tiles.getElem?_flatMap (g := f.blockFlow) (fun _ => by simp [blockFlow]) hb hn
  have hpos : b.start - 0 + (i - b.start) = i := by omega
  have hrange : b.start + (i - b.start) = i := by omega
  rw [hpos] at hget
  simp [instructionFlow, Array.getD_eq_getD_getElem?, hget, blockFlow, hn, hrange]

lemma edge_iff_next (hf : f.Built) : f.instructionFlow.Edge i j ↔ f.Next i j := by
  rw [Flow.Edge]
  constructor
  · intro h
    have hi : i < f.code.length := by
      by_contra hi
      have hlen : (f.blocks.flatMap f.blockFlow).length = f.code.length := by
        rw [← hf.code, List.length_flatMap, List.length_flatMap]
        simp [blockFlow]
      have : (f.blocks.flatMap f.blockFlow)[i]? = none :=
        List.getElem?_eq_none (by omega)
      simp [instructionFlow, Array.getD_eq_getD_getElem?, this] at h
    obtain ⟨b, hb, hbi⟩ := hf.exists_block hi
    rw [hf.succs_getD hb hbi] at h
    refine ⟨b, hb, hbi, ?_⟩
    split at h
    · next hlt => exact Or.inl ⟨hlt, by simpa using h⟩
    · next hlt =>
      obtain ⟨n, hn, rfl⟩ := List.mem_map.mp h
      obtain ⟨t, ht, rfl, hstart⟩ := hf.exists_succ hb hn
      have := hbi.2
      exact Or.inr ⟨by omega, t, ht, hn, hstart⟩
  · rintro ⟨b, hb, hbi, ⟨hlt, rfl⟩ | ⟨hstop, t, ht, hn, rfl⟩⟩
    · rw [hf.succs_getD hb hbi, if_pos hlt]
      simp
    · rw [hf.succs_getD hb hbi, if_neg (by omega)]
      exact List.mem_map.mpr ⟨t.id, hn, by simp [blockStart, hf.getElem?_id ht]⟩

end Built

/-! ### Uses and definitions -/

lemma mem_use : v ∈ f.liveness.use i ↔ ∃ ins, f.code[i]? = some ins ∧ v ∈ f.useVars ins := by
  rw [Liveness.use, liveness, instructionFlow]
  cases h : f.code[i]? <;> simp [Array.getD_eq_getD_getElem?, h]

lemma mem_defs : v ∈ f.liveness.defs i ↔ ∃ ins, f.code[i]? = some ins ∧ v ∈ f.defVars ins := by
  rw [Liveness.defs, liveness, instructionFlow]
  cases h : f.code[i]? <;> simp [Array.getD_eq_getD_getElem?, h]

lemma isVar_of_mem_use (h : v ∈ f.liveness.use i) : f.isVar v = true := by
  obtain ⟨ins, -, hv⟩ := mem_use.mp h
  exact (List.mem_filter.mp hv).2

lemma isVar_of_mem_defs (h : v ∈ f.liveness.defs i) : f.isVar v = true := by
  obtain ⟨ins, -, hv⟩ := mem_defs.mp h
  exact (List.mem_filter.mp hv).2

/-- Only declared variables are live. -/
lemma isVar_of_mem_liveOut (h : v ∈ f.liveness.liveOut i) : f.isVar v = true := by
  refine Flow.solve_le (F := f.instructionFlow) (X := fun _ v => f.isVar v = true) ?_ h
  rintro _ v ⟨s, -, hv | ⟨hv, -⟩⟩
  · exact isVar_of_mem_use hv
  · exact hv

lemma mem_liveIn : v ∈ f.liveness.liveIn i ↔
    v ∈ f.liveness.use i ∨ v ∈ f.liveness.liveOut i ∧ v ∉ f.liveness.defs i := Flow.mem_before

lemma isVar_of_mem_liveIn (h : v ∈ f.liveness.liveIn i) : f.isVar v = true := by
  rcases mem_liveIn.mp h with h | ⟨h, -⟩
  · exact isVar_of_mem_use h
  · exact isVar_of_mem_liveOut h

/-- What is live before an instruction is live after every instruction that leads to it. -/
lemma Built.mem_liveOut_of_next (hf : f.Built) (hn : f.Next i j) (hv : v ∈ f.liveness.liveIn j) :
    v ∈ f.liveness.liveOut i :=
  (Flow.solves_solve i v).mpr ⟨j, hf.edge_iff_next.mpr hn, mem_liveIn.mp hv⟩

/-! ### Path liveness -/

lemma Built.usePath_iff_livePath (hf : f.Built) {path : List Nat} :
    f.instructionFlow.UsePath v i path ↔ f.LivePath v i path := by
  have hedge : f.instructionFlow.Edge = f.Next := by
    funext a b
    exact propext hf.edge_iff_next
  constructor
  · rintro ⟨h1, h2, h3⟩
    exact ⟨hedge ▸ h1, h2, h3⟩
  · rintro ⟨h1, h2, h3⟩
    exact ⟨hedge ▸ h1, h2, h3⟩

lemma Built.liveEquation_iff_solves (hf : f.Built) {X : Nat → String → Prop} :
    f.LiveEquation X ↔ f.instructionFlow.Solves X := by
  refine forall₂_congr fun i v => iff_congr Iff.rfl ?_
  exact exists_congr fun s => and_congr hf.edge_iff_next.symm Iff.rfl

end Function

/-- Liveness analysis finds exactly path liveness: a variable is live after an instruction if and
only if control can reach a use of it from there before any definition. The live sets are the
least solution of the liveness equation, and another sweep over them changes nothing. -/
theorem liveOut_exact {d : FunctionDef} {f : Function} (h : d.build = .ok f) :
    (∀ i v, v ∈ f.liveness.liveOut i ↔ ∃ path, f.LivePath v i path) ∧
    f.LiveEquation (fun i v => v ∈ f.liveness.liveOut i) ∧
    (∀ X, f.LiveEquation X → ∀ i, ∀ v ∈ f.liveness.liveOut i, X i v) ∧
    (f.instructionFlow.sweep f.liveness.solution.out).changed = false := by
  have hf := d.built_of_build h
  refine ⟨fun i v => ?_, ?_, fun X hX i v hv => ?_, Flow.sweep_solve_unchanged⟩
  · refine Flow.mem_solve_iff_usePath.trans ?_
    exact exists_congr fun path => hf.usePath_iff_livePath
  · exact hf.liveEquation_iff_solves.mpr Flow.solves_solve
  · have hX := hf.liveEquation_iff_solves.mp hX
    exact Flow.solve_le (fun i v => (hX i v).mpr) hv

/-- A loop that subtracts `d` from what a call returns until nothing is left. -/
def countdown : FunctionDef where
  name := "f"
  params := ["n", "d"]
  ints := ["n", "d", "t"]
  code := [
    { op := .callr, arg1 := "t", arg2 := "g", arg3 := "n", label := some "loop" },
    { op := .arith .sub, arg1 := "t", arg2 := "d", arg3 := "n" },
    { op := .branch .ne, arg1 := "n", arg2 := "0", arg3 := "loop" },
    { op := .ret, arg1 := "d" }]

def countdownFunction : Function := countdown.build.toOption.get (by decide +kernel)

/-- Around the loop `n` and `d` are live after the branch, but `t` is not. -/
theorem liveOut_exact_countdown : countdown.build = .ok countdownFunction ∧
    (∃ path, countdownFunction.LivePath "n" 2 path) ∧
    (∃ path, countdownFunction.LivePath "d" 2 path) ∧
    ¬ ∃ path, countdownFunction.LivePath "t" 2 path := by
  have h : countdown.build = .ok countdownFunction := rfl
  have hexact := (liveOut_exact h).1
  refine ⟨h, (hexact 2 "n").mp (by decide +kernel), (hexact 2 "d").mp (by decide +kernel), ?_⟩
  rw [← hexact 2 "t"]
  decide +kernel

end MipsBackend
