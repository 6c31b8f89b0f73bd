import MipsBackend.Proofs.Liveness

/-! Liveness of blocks covers liveness of instructions: what is live after the last instruction of
a block is found live after the block. The converse fails, since a block counts every use as one
before its definitions; it holds if all blocks read their variables before they write them. -/
namespace MipsBackend
namespace Function
variable {f : Function} {b : Block} {i j : Nat} {v : String} {ins : Instruction}

lemma Built.mem_body_iff (hf : f.Built) (hb : b ∈ f.blocks) :
    ins ∈ b.body ↔ ∃ j, b.Contains j ∧ f.code[j]? = some ins := by
  rw [List.mem_iff_getElem?]
  constructor
  · rintro ⟨n, hn⟩
    have hlt := (List.getElem?_eq_some_iff.mp hn).1
    have hc : b.Contains (b.start + n) := by
      rw [Block.Contains, Block.stop]
      omega
    refine ⟨b.start + n, hc, ?_⟩
    rw [hf.getElem?_code hb hc, Nat.add_sub_cancel_left, hn]
  · rintro ⟨j, hc, hj⟩
    exact ⟨j - b.start, by rw [← hf.getElem?_code hb hc, hj]⟩

lemma Built.mem_blockUse (hf : f.Built) (hb : b ∈ f.blocks) :
    v ∈ f.blockLiveness.use b.id ↔ ∃ j, b.Contains j ∧ v ∈ f.liveness.use j := by
  have hset : f.blockLiveness.use b.id = OrdSet.ofList (b.body.flatMap f.useVars) := by
    simp [Liveness.use, blockLiveness, blocksFlow, Array.getD_eq_getD_getElem?, hf.getElem?_id hb]
  simp only [hset, OrdSet.mem_ofList, List.mem_flatMap, hf.mem_body_iff hb]
  constructor
  · rintro ⟨ins, ⟨j, hc, hj⟩, hv⟩
    exact ⟨j, hc, mem_use.mpr ⟨ins, hj, hv⟩⟩
  · rintro ⟨j, hc, hv⟩
    obtain ⟨ins, hj, hv⟩ := mem_use.mp hv
    exact ⟨ins, ⟨j, hc, hj⟩, hv⟩

lemma Built.mem_blockDefs (hf : f.Built) (hb : b ∈ f.blocks) :
    v ∈ f.blockLiveness.defs b.id ↔ ∃ j, b.Contains j ∧ v ∈ f.liveness.defs j := by
  have hset : f.blockLiveness.defs b.id = OrdSet.ofList (b.body.flatMap f.defVars) := by
    simp [Liveness.defs, blockLiveness, blocksFlow, Array.getD_eq_getD_getElem?, hf.getElem?_id hb]
  simp only [hset, OrdSet.mem_ofList, List.mem_flatMap, hf.mem_body_iff hb]
  constructor
  · rintro ⟨ins, ⟨j, hc, hj⟩, hv⟩
    exact ⟨j, hc, mem_defs.mpr ⟨ins, hj, hv⟩⟩
  · rintro ⟨j, hc, hv⟩
    obtain ⟨ins, hj, hv⟩ := mem_defs.mp hv
    exact ⟨ins, ⟨j, hc, hj⟩, hv⟩

lemma Built.mem_blockLiveOut_of_succ (hf : f.Built) {t : Block} (hb : b ∈ f.blocks)
    (ht : t.id ∈ b.succs)
    (hv : v ∈ f.blockLiveness.use t.id ∨
      v ∈ f.blockLiveness.liveOut t.id ∧ v ∉ f.blockLiveness.defs t.id) :
    v ∈ f.blockLiveness.liveOut b.id := by
  refine (Flow.solves_solve b.id v).mpr ⟨t.id, ?_, hv⟩
  simpa [Flow.Edge, blocksFlow, Array.getD_eq_getD_getElem?, hf.getElem?_id hb] using ht

/-- What block liveness makes of a position: `v` is used further down in the block, or it is live
after the block and not defined further down. -/
def LiveInBlock (f : Function) (i : Nat) (v : String) : Prop :=
  ∃ b ∈ f.blocks, b.Contains i ∧
    ((∃ j, i < j ∧ j < b.stop ∧ v ∈ f.liveness.use j) ∨
      v ∈ f.blockLiveness.liveOut b.id ∧ ∀ j, i < j → j < b.stop → v ∉ f.liveness.defs j)

lemma Built.liveInBlock_closed (hf : f.Built) (hn : f.Next i j)
    (hv : v ∈ f.liveness.use j ∨ f.LiveInBlock j v ∧ v ∉ f.liveness.defs j) :
    f.LiveInBlock i v := by
  obtain ⟨b, hb, hbi, ⟨hlt, rfl⟩ | ⟨hstop, t, ht, hid, rfl⟩⟩ := hn
  · refine ⟨b, hb, hbi, ?_⟩
    rcases hv with hv | ⟨⟨b', hb', hc, hv⟩, hd⟩
    · exact Or.inl ⟨i + 1, by omega, hlt, hv⟩
    · -- the next position lies in the same block
      have hbc : b.Contains (i + 1) := ⟨Nat.le_succ_of_le hbi.1, hlt⟩
      obtain rfl := hf.tiles.unique hb hb' hbc hc
      rcases hv with ⟨j, hij, hj, hv⟩ | ⟨hv, hclear⟩
      · exact Or.inl ⟨j, by omega, hj, hv⟩
      · refine Or.inr ⟨hv, fun j hij hj => ?_⟩
        by_cases he : j = i + 1
        · rwa [he]
        · exact hclear j (by omega) hj
  · refine ⟨b, hb, hbi, Or.inr ⟨hf.mem_blockLiveOut_of_succ hb hid ?_, fun j _ _ => by omega⟩⟩
    have hstart := hf.start_contains ht
    rcases hv with hv | ⟨⟨t', ht', hc, hv⟩, hd⟩
    · exact Or.inl ((hf.mem_blockUse ht).mpr ⟨_, hstart, hv⟩)
    · obtain rfl := hf.tiles.unique ht ht' hstart hc
      rcases hv with ⟨j, hij, hj, hv⟩ | ⟨hv, hclear⟩
      · exact Or.inl ((hf.mem_blockUse ht).mpr ⟨j, ⟨by omega, hj⟩, hv⟩)
      · refine Or.inr ⟨hv, fun h => ?_⟩
        obtain ⟨j, hj, hdj⟩ := (hf.mem_blockDefs ht).mp h
        have := hj.1
        by_cases he : j = t.start
        · exact hd (he ▸ hdj)
        · exact hclear j (by omega) hj.2 hdj

/-- What is live after the last instruction of a block is live after the block. -/
lemma Built.mem_blockLiveOut (hf : f.Built) (hb : b ∈ f.blocks)
    (hv : v ∈ f.liveness.liveOut (b.stop - 1)) : v ∈ f.blockLiveness.liveOut b.id := by
  have hlast := hf.last_contains hb
  obtain ⟨b', hb', hc, hv⟩ : f.LiveInBlock (b.stop - 1) v := by
    refine Flow.solve_le (F := f.instructionFlow) (fun i v h => ?_) hv
    obtain ⟨j, hj, hv⟩ := h
    exact hf.liveInBlock_closed (hf.edge_iff_next.mp hj) hv
  obtain rfl := hf.tiles.unique hb hb' hlast hc
  rcases hv with ⟨j, hj, hlt, -⟩ | ⟨hv, -⟩
  · omega
  · exact hv

/-! ### Blocks that read before they write -/

/-- A definition of `u` in the block before position `n`. -/
def DefinedBefore (f : Function) (b : Block) (n : Nat) (u : String) : Prop :=
  ∃ j, b.start ≤ j ∧ j < n ∧ u ∈ f.liveness.defs j

/-- What is live inside of a block was live at its start, if it has not been defined since. -/
lemma Built.definedBefore_or_liveIn (hf : f.Built) (hb : b ∈ f.blocks) {n : Nat}
    (hn : b.Contains n) {u : String} (hu : u ∈ f.liveness.liveIn n) :
    f.DefinedBefore b n u ∨ u ∈ f.liveness.liveIn b.start := by
  obtain ⟨l, rfl⟩ := Nat.exists_eq_add_of_le hn.1
  induction l with
  | zero => exact Or.inr hu
  | succ l ih =>
    have hl : b.Contains (b.start + l) := ⟨by omega, by have := hn.2; omega⟩
    have hnext : f.Next (b.start + l) (b.start + (l + 1)) :=
      ⟨b, hb, hl, Or.inl ⟨by have := hn.2; omega, by omega⟩⟩
    by_cases hd : u ∈ f.liveness.defs (b.start + l)
    · exact Or.inl ⟨b.start + l, by omega, by omega, hd⟩
    · have hin := Function.mem_liveIn.mpr (Or.inr ⟨hf.mem_liveOut_of_next hnext hu, hd⟩)
      refine (ih hl hin).imp_left ?_
      rintro ⟨j, h1, h2, h3⟩
      exact ⟨j, h1, by omega, h3⟩

/-- Every variable that the block reads is read in it at or before its first definition there. -/
def ReadsFirst (f : Function) (b : Block) : Prop :=
  ∀ v ∈ f.blockLiveness.use b.id,
    ∃ j, b.Contains j ∧ v ∈ f.liveness.use j ∧ ¬ f.DefinedBefore b j v

instance (f : Function) (b : Block) (n : Nat) (u : String) : Decidable (f.DefinedBefore b n u) :=
  decidable_of_iff (∃ j ∈ List.range n, b.start ≤ j ∧ u ∈ f.liveness.defs j) (by
    simp only [DefinedBefore, List.mem_range, and_left_comm])

instance (f : Function) (b : Block) : Decidable (f.ReadsFirst b) :=
  decidable_of_iff (∀ v ∈ (f.blockLiveness.use b.id).toList, ∃ j ∈ List.range b.stop,
    b.start ≤ j ∧ v ∈ f.liveness.use j ∧ ¬ f.DefinedBefore b j v) (by
      simp only [ReadsFirst, Block.Contains, OrdSet.mem_toList, List.mem_range, and_assoc,
        and_left_comm])

/-- What is live after the last instruction of a block that does not define it is live at its
start. -/
lemma Built.mem_liveIn_start (hf : f.Built) (hb : b ∈ f.blocks)
    (hv : v ∈ f.liveness.liveOut (b.stop - 1)) (hd : v ∉ f.blockLiveness.defs b.id) :
    v ∈ f.liveness.liveIn b.start := by
  have hlast := hf.last_contains hb
  have hclear : ∀ j, b.Contains j → v ∉ f.liveness.defs j :=
    fun j hj h => hd ((hf.mem_blockDefs hb).mpr ⟨j, hj, h⟩)
  have hin : v ∈ f.liveness.liveIn (b.stop - 1) :=
    mem_liveIn.mpr (Or.inr ⟨hv, hclear _ hlast⟩)
  refine (hf.definedBefore_or_liveIn hb hlast hin).resolve_left ?_
  rintro ⟨j, h1, h2, h3⟩
  exact hclear j ⟨h1, Nat.lt_trans h2 hlast.2⟩ h3

/-- If blocks read before they write, what is live after a block is live after its last
instruction. -/
lemma Built.mem_liveOut_last (hf : f.Built) (hread : ∀ b ∈ f.blocks, f.ReadsFirst b)
    (hb : b ∈ f.blocks) (hv : v ∈ f.blockLiveness.liveOut b.id) :
    v ∈ f.liveness.liveOut (b.stop - 1) := by
  refine Flow.solve_le (F := f.blocksFlow)
    (X := fun n v => ∀ b ∈ f.blocks, b.id = n → v ∈ f.liveness.liveOut (b.stop - 1)) ?_ hv b hb rfl
  rintro _ v ⟨s, hs, hv⟩ b hb rfl
  have hsucc : s ∈ b.succs := by
    simpa [Flow.Edge, blocksFlow, Array.getD_eq_getD_getElem?, hf.getElem?_id hb] using hs
  obtain ⟨t, ht, rfl, -⟩ := hf.exists_succ hb hsucc
  have hlast := hf.last_contains hb
  have hnext : f.Next (b.stop - 1) t.start :=
    ⟨b, hb, hlast, Or.inr ⟨by have := hlast.2; omega, t, ht, hsucc, rfl⟩⟩
  refine hf.mem_liveOut_of_next hnext ?_
  rcases hv with hv | ⟨hv, hd⟩
  · obtain ⟨j, hj, huse, hclear⟩ := hread t ht v hv
    have hin : v ∈ f.liveness.liveIn j := mem_liveIn.mpr (Or.inl huse)
    exact (hf.definedBefore_or_liveIn ht hj hin).resolve_left hclear
  · exact hf.mem_liveIn_start ht (hv t ht rfl) hd

end Function

/-- Liveness of blocks refines liveness of instructions: what is live after the last instruction of
a block is found live after the block, and nothing else is if all blocks read their variables
before they write them. -/
theorem blockLiveOut_refines {d : FunctionDef} {f : Function} (h : d.build = .ok f) :
    (∀ b ∈ f.blocks, ∀ v ∈ f.liveness.liveOut (b.stop - 1), v ∈ f.blockLiveness.liveOut b.id) ∧
    ((∀ b ∈ f.blocks, f.ReadsFirst b) →
      ∀ b ∈ f.blocks, f.blockLiveness.liveOut b.id = f.liveness.liveOut (b.stop - 1)) := by
  have hf := d.built_of_build h
  refine ⟨fun b hb v hv => hf.mem_blockLiveOut hb hv, fun hread b hb => ?_⟩
  apply OrdSet.ext
  intro v
  exact ⟨fun hv => hf.mem_liveOut_last hread hb hv, fun hv => hf.mem_blockLiveOut hb hv⟩

/-- A loop that adds up the numbers below `n`. -/
def summation : FunctionDef where
  name := "f"
  params := ["n"]
  ints := ["n", "i", "s"]
  code := [
    { op := .branch .ge, arg1 := "i", arg2 := "n", arg3 := "done", label := some "loop" },
    { op := .arith .add, arg1 := "s", arg2 := "i", arg3 := "s" },
    { op := .arith .add, arg1 := "i", arg2 := "1", arg3 := "i" },
    { op := .goto, arg1 := "loop" },
    { op := .ret, arg1 := "s", label := some "done" }]

def summationFunction : Function := summation.build.toOption.get (by decide +kernel)

/-- The blocks of the summation read before they write, so both analyses agree on all of them. In
the countdown `n` is read after a definition in the same block: it is found live after the first
block, but is not live after its last instruction. -/
theorem blockLiveOut_refines_summation :
    summation.build = .ok summationFunction ∧
    (∀ b ∈ summationFunction.blocks, summationFunction.ReadsFirst b) ∧
    (∀ b ∈ summationFunction.blocks, summationFunction.blockLiveness.liveOut b.id =
      summationFunction.liveness.liveOut (b.stop - 1)) ∧
    (∀ b ∈ countdownFunction.blocks, ∀ v ∈ countdownFunction.liveness.liveOut (b.stop - 1),
      v ∈ countdownFunction.blockLiveness.liveOut b.id) ∧
    "n" ∈ countdownFunction.blockLiveness.liveOut 0 ∧
    "n" ∉ countdownFunction.liveness.liveOut 0 := by
  have hread : ∀ b ∈ summationFunction.blocks, summationFunction.ReadsFirst b := by
    decide +kernel
  exact ⟨rfl, hread, (blockLiveOut_refines (d := summation) rfl).2 hread,
    (blockLiveOut_refines (d := countdown) rfl).1, by decide +kernel, by decide +kernel⟩

end MipsBackend
