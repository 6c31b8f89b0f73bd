import MipsBackend.Proofs.BlockLiveness

/-! How long the analyses of liveness take. Every set is computed anew in every sweep, yet no sweep
takes a member away: a sweep changes something exactly if a set has become larger. There is only so
much for the sets to hold, so the sweeps come to their end by themselves. -/
namespace MipsBackend
namespace Flow
variable {F : Flow} {out : Array NameSet} {names : NameSet} {v : String} {i n m : Nat}

/-- The live sets after `n` sweeps, which start from empty sets. -/
def setsAfter (F : Flow) : Nat → Array NameSet
  | 0 => Array.replicate F.size ∅
  | n + 1 => (F.sweep (F.setsAfter n)).out

/-- The sweeps over a flow problem grow to their end inside of `names`: no sweep takes a member
away, a sweep reports a change exactly if a set has got a new member, and the solution is what has
been found at the first sweep that reports none. -/
structure Converges (F : Flow) (names : NameSet) : Prop where
  grows : ∀ n i, ∀ v ∈ (F.setsAfter n).getD i ∅, v ∈ (F.setsAfter (n + 1)).getD i ∅
  changed_iff : ∀ n, (F.sweep (F.setsAfter n)).changed = true ↔
    ∃ i, ∃ v ∈ (F.setsAfter (n + 1)).getD i ∅, v ∉ (F.setsAfter n).getD i ∅
  within : ∀ n i, ∀ v ∈ (F.setsAfter n).getD i ∅, v ∈ names
  ends : ∃ n, (∀ m < n, (F.sweep (F.setsAfter m)).changed = true) ∧
    (F.sweep (F.setsAfter n)).changed = false ∧ F.solve = ⟨F.setsAfter n, n + 1⟩

/-! ### One sweep -/

lemma eq_of_getD_eq {a b : Array NameSet} (hsize : a.size = b.size)
    (h : ∀ i, a.getD i ∅ = b.getD i ∅) : a = b := by
  apply Array.ext hsize
  intro i ha hb
  have hi := h i
  rwa [Array.getD, Array.getD, dif_pos ha, dif_pos hb] at hi

/-- A sweep reports a change exactly if a set has got a new member. -/
lemma Growing.changed_sweep_iff (h : Growing F out) : (F.sweep out).changed = true ↔
    ∃ i, ∃ v ∈ (F.sweep out).out.getD i ∅, v ∉ out.getD i ∅ := by
  constructor
  · intro hchanged
    by_contra hnone
    push Not at hnone
    have hsame : (F.sweep out).out = out := by
      apply eq_of_getD_eq (by rw [h.sweep.size, h.size])
      intro i
      apply OrdSet.ext
      intro v
      exact ⟨hnone i v, h.le_sweep⟩
    have hlt := h.weight_sweep hchanged
    rw [hsame] at hlt
    exact Nat.lt_irrefl _ hlt
  · rintro ⟨i, v, hv, hnew⟩
    by_contra hunchanged
    rw [getD_sweep_of_unchanged (by simpa using hunchanged)] at hv
    exact hnew hv

/-! ### All sweeps -/

lemma growing_setsAfter (F : Flow) (n : Nat) : Growing F (F.setsAfter n) := by
  induction n with
  | zero => exact Growing.empty
  | succ n ih => exact ih.sweep

/-- The sets never leave what is closed under the flow equation. -/
lemma setsAfter_le {X : Nat → String → Prop} (hX : ∀ i v, F.Requires X i v → X i v) (n : Nat) :
    ∀ i, ∀ v ∈ (F.setsAfter n).getD i ∅, X i v := by
  induction n with
  | zero =>
    intro i v hv
    exact absurd hv (not_mem_replicate_empty F.size)
  | succ n ih =>
    intro i v hv
    exact (growing_setsAfter F n).sweep_le hX ih i hv

/-- Every sweep that changes something adds a member. -/
lemma le_weight_setsAfter (h : ∀ m < n, (F.sweep (F.setsAfter m)).changed = true) :
    n ≤ weight (F.setsAfter n).toList := by
  induction n with
  | zero => exact Nat.zero_le _
  | succ n ih =>
    have hle := ih fun m hm => h m (Nat.lt_succ_of_lt hm)
    have hlt := (growing_setsAfter F n).weight_sweep (h n (Nat.lt_succ_self n))
    rw [setsAfter]
    omega

/-- With enough fuel, sweeping goes on until a sweep changes nothing. -/
lemma iterate_setsAfter (fuel : Nat)
    (hfuel : F.size * F.names.size < weight (F.setsAfter n).toList + fuel) :
    ∃ m, (∀ l, n ≤ l → l < m → (F.sweep (F.setsAfter l)).changed = true) ∧
      (F.sweep (F.setsAfter m)).changed = false ∧
      F.iterate fuel n (F.setsAfter n) = ⟨F.setsAfter m, m + 1⟩ := by
  have hgrowing := growing_setsAfter F n
  induction fuel generalizing n with
  | zero =>
    have hle := hgrowing.weight_le (setsAfter_le names_closed n)
    omega
  | succ fuel ih =>
    rw [iterate]
    cases hchanged : (F.sweep (F.setsAfter n)).changed with
    | false =>
      refine ⟨n, fun l hnl hln => by omega, hchanged, ?_⟩
      rw [getD_sweep_of_unchanged hchanged]
      rfl
    | true =>
      have hlt := hgrowing.weight_sweep hchanged
      obtain ⟨m, hbefore, hlast, hm⟩ := ih (n := n + 1) (by rw [setsAfter]; omega) hgrowing.sweep
      refine ⟨m, fun l hnl hlm => ?_, hlast, hm⟩
      by_cases hl : l = n
      · rw [hl, hchanged]
      · exact hbefore l (by omega) hlm

/-- A flow problem converges inside of the names that it uses. -/
lemma converges_of_use (huse : ∀ i, ∀ v ∈ F.use.getD i ∅, v ∈ names) : F.Converges names where
  grows n i v hv := (growing_setsAfter F n).le_sweep hv
  changed_iff n := (growing_setsAfter F n).changed_sweep_iff
  within n := by
    apply setsAfter_le
    rintro i v ⟨s, -, hv | ⟨hv, -⟩⟩
    · exact huse s v hv
    · exact hv
  ends := by
    obtain ⟨n, hbefore, hlast, hn⟩ := iterate_setsAfter (F := F) (n := 0)
      (F.size * F.names.size + 1) (by omega)
    exact ⟨n, fun m hm => hbefore m (Nat.zero_le m) hm, hlast, hn⟩

/-- Every sweep but the last adds a member to a set, of which there is room for `names` in each. -/
lemma Converges.passes_le (h : F.Converges names) : F.solve.passes ≤ 1 + F.size * names.size := by
  obtain ⟨n, hbefore, -, hsolve⟩ := h.ends
  have hle := le_weight_setsAfter hbefore
  have hroom := (growing_setsAfter F n).weight_le (h.within n)
  rw [hsolve]
  change n + 1 ≤ _
  omega

end Flow

/-! ### Liveness of a function -/

/-- The declared variables of a function. -/
def FunctionDef.declared (f : FunctionDef) : NameSet := OrdSet.ofList (f.ints ++ f.floats)

lemma FunctionDef.mem_declared {f : FunctionDef} {v : String} :
    v ∈ f.declared ↔ f.isVar v = true := by
  simp [declared, isVar, isInt, isFloat]

namespace Function
variable {f : Function}

lemma Built.size_instructionFlow (hf : f.Built) : f.instructionFlow.size = f.code.length := by
  rw [Flow.size, instructionFlow, List.size_toArray, ← hf.code, List.length_flatMap,
    List.length_flatMap]
  simp [blockFlow]

lemma size_blocksFlow : f.blocksFlow.size = f.blocks.length := by
  simp [Flow.size, blocksFlow]

lemma isVar_of_mem_blocksUse {i : Nat} {v : String} (h : v ∈ f.blocksFlow.use.getD i ∅) :
    f.isVar v = true := by
  rw [blocksFlow, Array.getD_eq_getD_getElem?, List.getElem?_toArray, List.getElem?_map] at h
  cases hb : f.blocks[i]? with
  | none => simp [hb] at h
  | some b =>
    rw [hb, Option.map_some, Option.getD_some, OrdSet.mem_ofList, List.mem_flatMap] at h
    obtain ⟨ins, -, hv⟩ := h
    exact (List.mem_filter.mp hv).2

end Function

/-- Both analyses of liveness come to their end because sets only grow. No sweep takes a variable
away from a set, a sweep reports a change exactly if a set has got a new variable, only declared
variables get into the sets, and the number of sweeps is at most one more than that of the pairs of
a position, or a block, and a declared variable. -/
theorem liveness_converges {d : FunctionDef} {f : Function} (h : d.build = .ok f) :
    f.instructionFlow.Converges f.declared ∧
    f.liveness.passes ≤ 1 + f.code.length * f.declared.size ∧
    f.blocksFlow.Converges f.declared ∧
    f.blockLiveness.passes ≤ 1 + f.blocks.length * f.declared.size := by
  have hf := d.built_of_build h
  have hinstructions : f.instructionFlow.Converges f.declared := by
    apply Flow.converges_of_use
    intro i v hv
    exact FunctionDef.mem_declared.mpr (Function.isVar_of_mem_use hv)
  have hblocks : f.blocksFlow.Converges f.declared := by
    apply Flow.converges_of_use
    intro i v hv
    exact FunctionDef.mem_declared.mpr (Function.isVar_of_mem_blocksUse hv)
  have hpasses := hinstructions.passes_le
  have hblockPasses := hblocks.passes_le
  rw [hf.size_instructionFlow] at hpasses
  rw [Function.size_blocksFlow] at hblockPasses
  exact ⟨hinstructions, hpasses, hblocks, hblockPasses⟩

/-- The countdown needs three sweeps over its instructions and two over its blocks. -/
theorem liveness_converges_countdown : countdown.build = .ok countdownFunction ∧
    countdownFunction.instructionFlow.Converges countdownFunction.declared ∧
    countdownFunction.liveness.passes ≤ 13 ∧ countdownFunction.blockLiveness.passes ≤ 10 := by
  have h : countdown.build = .ok countdownFunction := rfl
  obtain ⟨hconverges, hpasses, -, hblocks⟩ := liveness_converges h
  exact ⟨h, hconverges, hpasses, hblocks⟩

example : countdownFunction.liveness.passes = 3 ∧ countdownFunction.blockLiveness.passes = 2 := by
  decide +kernel

end MipsBackend
