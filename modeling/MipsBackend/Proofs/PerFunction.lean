import MipsBackend.Proofs.Allocation
import MipsBackend.Proofs.Calls
import MipsBackend.Proofs.Reading
import MipsBackend.Proofs.Transfers

/-! Code with registers for the whole function follows code with all variables in memory, along
every path that control can take. -/
namespace MipsBackend
open Asm Asm.Register Machine

/-- Where an allocation keeps a variable: in its register, or in memory if it has none. -/
def Allocation.home (a : Allocation) (s : Scope) (v : String) : Place :=
  .of (s.cell v) (a.register? v)

/-- The allocation of `k` registers for the whole function. -/
abbrev Placement.allocation (q : Placement) (k : Int) : Allocation :=
  .ofFunction q.program q.function k

/-- Variables are placed as an allocation for the whole function has it. -/
def Placement.PerFunction (q : Placement) (k : Int) : Prop := q.plan = .perFunction (q.allocation k)

section
variable {q : Placement} {k : Int} {c : Cache} {V : Type} {m : Machine q.program V}
  {y : Nat → Register → V} {W : List Register} {F : Prop} {L K : String → Prop}
  {U : Twin V → Prop} {u v name : String} {n r : Nat} {i : Instruction}

namespace Placement.PerFunction
variable (hq : q.PerFunction k)
include hq

lemma register?_eq : q.register? c v = (q.allocation k).register? v := by
  rw [register?, hq]

lemma target?_eq : q.target? c v = (q.allocation k).register? v := by
  rw [target?, hq]

lemma home_eq : q.home c v = (q.allocation k).home q.toScope v := by
  rw [home, Allocation.home, hq.register?_eq]

lemma sound : q.Sound c := by
  intro v n h
  rw [hq.register?_eq] at h
  have h := Allocation.registered h
  exact ⟨h.isInt, h.local_⟩

omit hq in
lemma mem_liveAcross (hi : q.function.code[n]? = some i) :
    (v, r) ∈ q.liveAcross (q.allocation k) n ↔
      v ∈ q.function.liveness.occupied n ∧ (q.allocation k).register? v = some r ∧ v ∉ i.defs := by
  have hn : n < q.function.code.length := (List.getElem?_eq_some_iff.mp hi).1
  rw [liveAcross, List.mem_filter, Allocation.mem_liveAt, hi]
  simp [hn, and_assoc]

lemma register?_of_mem_liveAcross (hi : q.function.code[n]? = some i) {e : String × Nat}
    (he : e ∈ q.liveAcross (q.allocation k) n) (c : Cache) : q.register? c e.1 = some e.2 := by
  rw [hq.register?_eq]
  exact ((mem_liveAcross hi).mp he).2.1

omit hq in
/-- Variables that occupy the same instruction are in different registers. -/
lemma liveAcross_unique (hi : q.function.code[n]? = some i) :
    ∀ e ∈ q.liveAcross (q.allocation k) n, ∀ e' ∈ q.liveAcross (q.allocation k) n,
      e.2 = e'.2 → e = e' := by
  intro e he e' he' hr
  obtain ⟨h1, h2, -⟩ := (mem_liveAcross hi).mp he
  obtain ⟨h1', h2', -⟩ := (mem_liveAcross hi).mp he'
  by_contra hne
  have hn : n < q.function.code.length := (List.getElem?_eq_some_iff.mp hi).1
  refine Allocation.register?_ne h1 h1' hn (fun hname => hne (Prod.ext hname hr)) h2 ?_
  rw [h2', hr]

/-- What survives a call in a register is saved around it. -/
lemma mem_liveAcross_of_live (hi : q.function.code[n]? = some i) (hs : i.isScalar = true)
    (hv : v ∈ q.function.liveness.liveOut n) (hd : i.dest? ≠ some v)
    (hr : q.register? c v = some r) : (v, r) ∈ q.liveAcross (q.allocation k) n := by
  rw [hq.register?_eq] at hr
  exact (mem_liveAcross hi).mpr ⟨Function.mem_occupied.mpr (Or.inl hv), hr,
    fun hdef => hd (i.dest?_of_mem_defs hs hdef)⟩

/-- After the stores before a call, memory is up to date on all that is live across it. -/
lemma save_simulates (hi : q.function.code[n]? = some i) (hs : i.isScalar = true)
    (hK : ∀ v, K v → L v ∧ v ∈ q.function.liveness.liveOut n ∧ i.dest? ≠ some v)
    (hU : ∀ w w' : Twin V, w'.cache = w.cache → U w → U w') :
    Simulates m y W (fun w => Agree q F L (fun _ => False) w ∧ U w ∧ w.Same W)
      [.save n] (fun w => Agree q F L K w ∧ U w ∧ w.Same W) := by
  apply Simulates.silent
  rintro w ⟨hA, hw, hsame⟩
  have hmem : Agree q F L (fun u => L u ∧ q.register? w.cache u = none) w := by
    refine ⟨hA.sound, ?_, hA.vars, ?_, hA.globals, hA.calls, hA.float⟩
    · rintro v (hv | ⟨hv, -⟩) <;> exact hA.known v (Or.inl hv)
    · rintro v ⟨hv, hr⟩
      have := hA.vars v hv
      rwa [home_of_register? hr] at this
  obtain ⟨t, hp, hA', hregs⟩ := hmem.stores (m := m) (y := y)
    fun e he => hq.register?_of_mem_liveAcross hi he w.cache
  refine ⟨w.plain, t, performs_nothing, ?_, ?_, hU w _ rfl hw, fun r hr => ?_⟩
  · simp only [emission, show q.plan = _ from hq]
    exact (performs_line _).andThen hp
  · refine hA'.weaken id (fun _ h => h) fun v hv => ?_
    obtain ⟨hL, hout, hdest⟩ := hK v hv
    cases hr : q.register? w.cache v with
    | some r => exact Or.inl ⟨⟨r, hq.mem_liveAcross_of_live hi hs hout hdest hr⟩, hL⟩
    | none =>
      refine Or.inr ⟨fun r hmem => ?_, hL, rfl⟩
      rw [hq.register?_of_mem_liveAcross hi hmem] at hr
      cases hr
  · dsimp only
    rw [hregs, hsame r hr]

/-- The loads after a call bring all that is live across it back into its registers. -/
lemma restore_simulates (hi : q.function.code[n]? = some i) (hs : i.isScalar = true)
    (hK : ∀ v, K v → v ∈ q.function.liveness.liveOut n ∧ i.dest? ≠ some v)
    (hU : ∀ w w' : Twin V, w'.cache = w.cache → U w → U w') :
    Simulates m y W (fun w => Agree q F (fun _ => False) K w ∧ U w ∧ w.Same [v0, f0])
      [.restore n] (fun w => Agree q F K (fun _ => False) w ∧ U w ∧ w.Same [v0, f0]) := by
  apply Simulates.silent
  rintro w ⟨hA, hw, hsame⟩
  have hload : ∀ e ∈ q.liveAcross (q.allocation k) n, ∀ t : State V,
      (m.clobbering y).Performs (q.load e.1 (saved e.2)) t []
        (t.setReg (saved e.2) (t.mem (q.cell e.1))) := fun e he t =>
    load_performs (addressable_of_register? hA.sound
      (hq.register?_of_mem_liveAcross hi he w.cache)) _
  obtain ⟨t, hp, hA', hregs⟩ := hA.loads (K := K) (c := w.cache) hq.sound hload
    (liveAcross_unique hi)
    fun v hv => ⟨hv, fun r hr => hq.mem_liveAcross_of_live hi hs (hK v hv).1 (hK v hv).2 hr⟩
  refine ⟨w.plain, t, performs_nothing, ?_, hA'.weaken id (fun _ h => h) fun _ h => h.elim,
    hU w _ rfl hw, fun r hr => ?_⟩
  · simp only [emission, show q.plan = _ from hq]
    exact (performs_line _).andThen hp
  · have hscratch : Scratch r := by
      have hr : r = v0 ∨ r = f0 := by simpa using hr
      rcases hr with rfl | rfl
      · exact scratch_v0
      · exact scratch_f0
    dsimp only
    rw [hregs r hscratch, hsame r hr]

lemma call_simulates (hi : q.function.code[n]? = some i) (hs : i.isScalar = true)
    (hK : ∀ v, K v → L v ∧ v ∈ q.function.liveness.liveOut n ∧ i.dest? ≠ some v)
    (hU : ∀ w w' : Twin V, w'.cache = w.cache → U w → U w') :
    Simulates m y W (fun w => Agree q F L (fun _ => False) w ∧ U w ∧ w.Same W)
      [.save n, .line "jal" [name], .restore n]
      (fun w => Agree q F K (fun _ => False) w ∧ U w ∧ w.Same [v0, f0]) :=
  (hq.save_simulates hi hs hK hU).cons ((jal_simulates hU).cons
    (hq.restore_simulates hi hs (fun v hv => (hK v hv).2) hU))

/-- The destination of an instruction shares its register with nothing that is live after it. -/
lemma updates (hi : q.function.code[n]? = some i) (hs : q.Scalar i)
    (hname : q.function.isVar "" = false) :
    Updates q c i.dest? (fun v => v ∈ q.function.liveness.liveOut n ∧ i.dest? ≠ some v)
      (· ∈ q.function.liveness.liveOut n) (fun _ => False) (fun _ => False) := by
  refine ⟨fun u hu => ?_, fun _ h => h.elim⟩
  have hvar := Function.isVar_of_mem_liveOut hu
  by_cases hd : i.dest? = some u
  · exact Or.inl hd
  · refine Or.inr ⟨⟨hu, hd⟩, fun d hdest => ?_⟩
    have hud : u ≠ d := fun h => hd (h ▸ hdest)
    refine home_ne_dest (Or.inl hvar) (hs.dest d hdest) hud fun r hr => ?_
    rw [hq.target?_eq] at hr
    rw [hq.register?_eq]
    -- a destination with a register is declared, so it occupies the instruction
    have hdvar : q.function.isVar d = true := by
      simp [FunctionDef.isVar, (Allocation.registered hr).isInt]
    refine Allocation.register?_ne (Function.mem_occupied.mpr (Or.inr ?_))
      (Function.mem_occupied.mpr (Or.inl hu)) (List.getElem?_eq_some_iff.mp hi).1 (Ne.symm hud) hr
    exact Function.mem_defs_of_dest? hi hdest hname hdvar

/-- One instruction: from agreement on what is live before it to agreement on what is live
after it. -/
lemma step_simulates (hi : q.function.code[n]? = some i) (hs : q.Scalar i)
    (hname : q.function.isVar "" = false) (hF : q.readsStaleFloat i = true → F) :
    Simulates m y (q.handedOver i)
      (Agree q F (· ∈ q.function.liveness.liveIn n) (fun _ => False))
      (q.lowerInstruction n i)
      (Agree q F (· ∈ q.function.liveness.liveOut n) (fun _ => False)) := by
  have hK : ∀ v, v ∈ q.function.liveness.liveOut n ∧ i.dest? ≠ some v →
      v ∈ q.function.liveness.liveIn n :=
    fun v hv => Function.mem_liveIn_of_dest? hi hs.isScalar hv.1 hv.2
  refine (instruction_simulates hs (fun _ => rfl) hname
    (fun v hv => Function.mem_liveIn_of_useVars hi hv) hK hF fun _ name => ?_).pre
    fun w hA => ⟨hA, hq.updates hi hs hname⟩
  refine hq.call_simulates hi hs.isScalar (fun v hv => ⟨hK v hv, hv⟩) fun w w' hc hU => ?_
  rwa [hc]

lemma agree_caches {L M : String → Prop} {b c : Cache} {s t : State V}
    (h : Agree q F L M ⟨b, c, s, t⟩) (d e : Cache) : Agree q F L M ⟨d, e, s, t⟩ := by
  refine ⟨hq.sound, h.known, fun v hv => ?_, h.slots, h.globals, h.calls, h.float⟩
  have := h.vars v hv
  rw [hq.home_eq] at this ⊢
  exact this

end Placement.PerFunction

/-- What is emitted for the instruction at a position, when `c n` is what is remembered there. -/
def Placement.emissionAt (q : Placement) (c : Nat → Cache) (n : Nat) : Emission :=
  match q.function.code[n]? with
  | some i => q.run (c n) (q.lowerInstruction n i)
  | none => .nothing

lemma Placement.emissionAt_eq {b : Nat → Cache} (hi : q.function.code[n]? = some i) :
    q.emissionAt b n = q.run (b n) (q.lowerInstruction n i) := by simp only [emissionAt, hi]

/-- A path of instructions: from agreement before the first to agreement before the last. -/
lemma Placement.PerFunction.path_performs (hq : q.PerFunction k) (hf : q.function.WellFormed)
    {b c : Nat → Cache} {path : List Nat} {a : Nat} {s t : State V}
    (hpath : (path ++ [n]).IsChain q.function.Next) (ha : (path ++ [n]).head? = some a)
    (hcode : ∀ j ∈ path, ∃ i, q.function.code[j]? = some i ∧ q.Scalar i)
    (hF : ∀ j ∈ path, ∀ i, q.function.code[j]? = some i → q.readsStaleFloat i = true → F)
    (hA : Agree q F (· ∈ q.function.liveness.liveIn a) (fun _ => False) ⟨b a, c a, s, t⟩) :
    ∃ s' t' os os',
      m.Performs (.sequence (path.map (q.inMemory.emissionAt b))) s os s' ∧
      (m.clobbering y).Performs (.sequence (path.map (q.emissionAt c))) t os' t' ∧
      Agree q F (· ∈ q.function.liveness.liveIn n) (fun _ => False) ⟨b n, c n, s', t'⟩ := by
  induction path generalizing a s t with
  | nil =>
    obtain rfl : n = a := by simpa using ha
    exact ⟨s, t, [], [], performs_nothing, performs_nothing, hA⟩
  | cons j path ih =>
    obtain rfl : j = a := by simpa using ha
    obtain ⟨i, hi, hs⟩ := hcode j (by simp)
    obtain ⟨s₁, t₁, os, os', h1, h2, -, hA₁⟩ :=
      hq.step_simulates hi hs hf.named (hF j (by simp) i hi) (m := m) (y := y) _ hA
    obtain ⟨e, rest, hrest⟩ : ∃ e rest, path ++ [n] = e :: rest :=
      List.exists_cons_of_ne_nil (by simp)
    rw [List.cons_append, hrest, List.isChain_cons_cons, ← hrest] at hpath
    obtain ⟨hnext, hpath⟩ := hpath
    have he : (path ++ [n]).head? = some e := by simp [hrest]
    -- what is live before the next instruction is live after this one
    have hA₂ := hq.agree_caches (hA₁.weaken id
      (fun v hv => hf.built.mem_liveOut_of_next hnext hv) fun _ h => h) (b e) (c e)
    obtain ⟨s', t', us, us', h1', h2', hA'⟩ := ih hpath he (fun l hl => hcode l (by simp [hl]))
      (fun l hl => hF l (by simp [hl])) hA₂
    refine ⟨s', t', os ++ us, os' ++ us', ?_, ?_, hA'⟩
    · rw [List.map_cons, Placement.emissionAt_eq (q := q.inMemory) hi]
      exact h1.andThen h1'
    · rw [List.map_cons, Placement.emissionAt_eq hi]
      exact h2.andThen h2'

end

/-! ### The simulation -/

/-- The runs agree on live variables, each in its home, and on all globals. -/
structure Allocation.Agrees {V : Type} (a : Allocation) (s : Scope) (live : NameSet)
    (plain placed : State V) : Prop where
  vars : ∀ v ∈ live, placed.content (a.home s v) = plain.mem (s.cell v)
  globals : ∀ v, s.program.isGlobal v = true → placed.mem v = plain.mem v
  calls : placed.calls = plain.calls

lemma Strategy.perFunction_of_ofScheme {k : Int} {g : Strategy} (h : ofScheme .global k = .ok g)
    (s : Scope) : (g.place s).PerFunction k := by
  rw [ofScheme] at h
  split at h
  · cases h
  · next hk =>
    cases h
    have hk : 1 ≤ k := by
      simp [validRegisters] at hk
      exact hk.1
    have : (k.toNat : Int) = k := by omega
    simp [Placement.PerFunction, place, plan, this]

/-- Code with registers for the whole function simulates code with all variables in memory, along
every path of control through instructions that address no arrays. If the runs agree on what is
live before the path, neither fails, they agree on what is live after it, and when control leaves
at its last instruction it does so alike: to the same place, after the same comparison, with the
same values passed or returned. This holds whatever has been lowered before each instruction, and
whatever calls leave in registers that they need not keep, which may differ between the runs. Only
a printing call that is asked for a float result reads `$f0` as it was before. -/
theorem perFunction_simulates_memory {V : Type} {text : String} {p : Program} {f : Function}
    {k : Int} {g : Strategy} (hp : (readProgram text).result = .ok p) (hf : f ∈ p.functions)
    (hk : Strategy.ofScheme .global k = .ok g) (m : Machine p V) (y : Nat → Register → V)
    (b c : Nat → Cache) {path : List Nat} {a n : Nat} {i : Instruction}
    (hpath : (path ++ [n]).IsChain f.Next) (ha : (path ++ [n]).head? = some a)
    (hcode : ∀ j ∈ path ++ [n], ∃ i, f.code[j]? = some i ∧ Scope.Scalar ⟨p, f⟩ i)
    (hi : f.code[n]? = some i) {s t : State V}
    (hstart : (Allocation.ofFunction p f k).Agrees ⟨p, f⟩ (f.liveness.liveIn a) s t)
    (hfloat : ∀ j ∈ path ++ [n], ∀ i, f.code[j]? = some i →
      Scope.readsStaleFloat ⟨p, f⟩ i = true → s.regs f0 = t.regs f0) :
    ∃ s₁ t₁ s₂ t₂ os os' us us',
      m.Performs (.sequence (path.map ((Strategy.memory.place ⟨p, f⟩).emissionAt b))) s os s₁ ∧
      (m.clobbering y).Performs (.sequence (path.map ((g.place ⟨p, f⟩).emissionAt c))) t os' t₁ ∧
      m.Performs ((Strategy.memory.place ⟨p, f⟩).emissionAt b n) s₁ us s₂ ∧
      (m.clobbering y).Performs ((g.place ⟨p, f⟩).emissionAt c n) t₁ us' t₂ ∧
      List.Forall₂ (Observation.Matches (Scope.handedOver ⟨p, f⟩ i)) us us' ∧
      (Allocation.ofFunction p f k).Agrees ⟨p, f⟩ (f.liveness.liveOut n) s₂ t₂ := by
  have hwf := wellFormed_of_readProgram hp hf
  have hq := Strategy.perFunction_of_ofScheme hk ⟨p, f⟩
  have hA : Agree (g.place ⟨p, f⟩) (∃ j ∈ path ++ [n], ∃ i, f.code[j]? = some i ∧
      Scope.readsStaleFloat ⟨p, f⟩ i = true) (· ∈ f.liveness.liveIn a) (fun _ => False)
      ⟨b a, c a, s, t⟩ := by
    refine ⟨hq.sound, ?_, fun v hv => ?_, fun _ h => h.elim, hstart.globals, hstart.calls, ?_⟩
    · rintro v (hv | hv)
      · exact Or.inl (Function.isVar_of_mem_liveIn hv)
      · exact hv.elim
    · rw [hq.home_eq]
      exact hstart.vars v hv
    · rintro ⟨j, hj, i, hij, hstale⟩
      exact hfloat j hj i hij hstale
  obtain ⟨s₁, t₁, os, os', h1, h2, hA₁⟩ := hq.path_performs hwf (m := m) (y := y) hpath ha
    (fun j hj => hcode j (by simp [hj])) (fun j hj i hij h => ⟨j, by simp [hj], i, hij, h⟩) hA
  obtain ⟨i', hi', hs⟩ := hcode n (by simp)
  obtain rfl : i' = i := Option.some.inj (hi'.symm.trans hi)
  obtain ⟨s₂, t₂, us, us', h1', h2', hm, hA₂⟩ := hq.step_simulates hi hs hwf.named
    (fun h => ⟨n, by simp, i', hi, h⟩) (m := m) (y := y) _ hA₁
  refine ⟨s₁, t₁, s₂, t₂, os, os', us, us', h1, h2, ?_, ?_, hm, fun v hv => ?_, hA₂.globals,
    hA₂.calls⟩
  · rw [Placement.emissionAt_eq (q := Strategy.memory.place ⟨p, f⟩) hi]
    exact h1'
  · rw [Placement.emissionAt_eq hi]
    exact h2'
  · have := hA₂.vars v hv
    rwa [hq.home_eq] at this

/-- Once around the loop and through its call again: `t` and `d` are in the first two registers of
one run and on the stack of the other, whatever the calls leave in these registers. -/
theorem perFunction_simulates_countdown :
    (readProgram countdownText).result = .ok countdownProgram ∧
    ([0, 1, 2] ++ [0]).IsChain countdownFunction.Next ∧
    ∀ (m : Machine countdownProgram Int) (y : Nat → Register → Int) (b c : Nat → Cache),
      ∃ s₁ t₁ s₂ t₂ os os' us us',
        m.Performs (.sequence ([0, 1, 2].map ((Strategy.memory.place countdownScope).emissionAt b)))
          ⟨fun _ => 5, fun _ => 7, 0⟩ os s₁ ∧
        (m.clobbering y).Performs (.sequence ([0, 1, 2].map
          (((Strategy.perFunction 8).place countdownScope).emissionAt c)))
          ⟨fun _ => 7, fun _ => 7, 0⟩ os' t₁ ∧
        m.Performs ((Strategy.memory.place countdownScope).emissionAt b 0) s₁ us s₂ ∧
        (m.clobbering y).Performs (((Strategy.perFunction 8).place countdownScope).emissionAt c 0)
          t₁ us' t₂ ∧
        t₂.regs (saved 0) = s₂.mem (stackSlot 8) ∧ t₂.regs (saved 1) = s₂.mem (stackSlot 4) := by
  have hbuilt := (wellFormed_of_readProgram readProgram_countdown mem_countdownProgram).built
  have hedges : ([0, 1, 2] ++ [0]).IsChain
      (fun i j => j ∈ countdownFunction.instructionFlow.succs.getD i []) := by decide +kernel
  have hpath : ([0, 1, 2] ++ [0]).IsChain countdownFunction.Next :=
    hedges.imp fun _ _ => hbuilt.edge_iff_next.mp
  have hscalar : ∀ i ∈ countdownFunction.code,
      countdownScope.Scalar i ∧ countdownScope.readsStaleFloat i = false := by decide +kernel
  have hcode : ∀ j ∈ [0, 1, 2] ++ [0], ∃ i, countdownFunction.code[j]? = some i ∧
      countdownScope.Scalar i := by
    intro j hj
    have hlt : j < countdownFunction.code.length := by
      revert j
      decide +kernel
    exact ⟨_, List.getElem?_eq_getElem hlt, (hscalar _ (List.getElem_mem hlt)).1⟩
  have hstart : (Allocation.ofFunction countdownProgram countdownFunction 8).Agrees
      countdownScope (countdownFunction.liveness.liveIn 0)
      (⟨fun _ => 5, fun _ => 7, 0⟩ : State Int) ⟨fun _ => 7, fun _ => 7, 0⟩ :=
    ⟨fun v _ => by cases Allocation.home _ _ v <;> rfl, fun _ _ => rfl, rfl⟩
  refine ⟨readProgram_countdown, hpath, fun m y b c => ?_⟩
  obtain ⟨i, hi, -⟩ := hcode 0 (by decide)
  obtain ⟨s₁, t₁, s₂, t₂, os, os', us, us', h1, h2, h3, h4, -, hvars, -, -⟩ :=
    perFunction_simulates_memory readProgram_countdown mem_countdownProgram (k := 8) rfl m y b c
      hpath rfl hcode hi hstart fun j _ i hi hstale => by
        rw [(hscalar i (List.mem_of_getElem? hi)).2] at hstale
        cases hstale
  have ht : (Allocation.ofFunction countdownProgram countdownFunction 8).home countdownScope "t" =
      .register 0 ∧ countdownScope.cell "t" = stackSlot 8 := by decide +kernel
  have hd : (Allocation.ofFunction countdownProgram countdownFunction 8).home countdownScope "d" =
      .register 1 ∧ countdownScope.cell "d" = stackSlot 4 := by decide +kernel
  refine ⟨s₁, t₁, s₂, t₂, os, os', us, us', h1, h2, h3, h4, ?_, ?_⟩
  · have := hvars "t" (by decide +kernel)
    rwa [ht.1, ht.2] at this
  · have := hvars "d" (by decide +kernel)
    rwa [hd.1, hd.2] at this

/-- A float result of printing: nothing is live before the call, so the runs agree there with
different values in `$f0`, and these are stored to `x`, which is live after it. -/
theorem perFunction_diverges_on_stale_float :
    (readProgram echoText).result = .ok echoProgram ∧
    Strategy.ofScheme .global 8 = .ok (.perFunction 8) ∧
    (∃ i, echoFunction.code[0]? = some i ∧ echoScope.Scalar i) ∧
    ∀ (m : Machine echoProgram Int) (y : Nat → Register → Int),
      (Allocation.ofFunction echoProgram echoFunction 8).Agrees echoScope
        (echoFunction.liveness.liveIn 0) ⟨fun _ => 0, fun _ => 0, 0⟩ ⟨fun _ => 1, fun _ => 0, 0⟩ ∧
      ∃ s t os os',
        m.Performs ((Strategy.memory.place echoScope).emissionAt (fun _ => {}) 0)
          ⟨fun _ => 0, fun _ => 0, 0⟩ os s ∧
        (m.clobbering y).Performs
          (((Strategy.perFunction 8).place echoScope).emissionAt (fun _ => {}) 0)
          ⟨fun _ => 1, fun _ => 0, 0⟩ os' t ∧
        ¬ (Allocation.ofFunction echoProgram echoFunction 8).Agrees echoScope
          (echoFunction.liveness.liveOut 0) s t := by
  have hplain : (Strategy.memory.place echoScope).emissionAt (fun _ => {}) 0 =
      ⟨printToFloat "1" "x" (stackSlot 0), none⟩ := by decide +kernel
  have hplaced : ((Strategy.perFunction 8).place echoScope).emissionAt (fun _ => {}) 0 =
      ⟨printToFloat "1" "x" (stackSlot 0), none⟩ := by decide +kernel
  have hbefore : echoFunction.liveness.liveIn 0 = ∅ := by decide +kernel
  have hafter : "x" ∈ echoFunction.liveness.liveOut 0 := by decide +kernel
  have hhome : (Allocation.ofFunction echoProgram echoFunction 8).home echoScope "x" =
      .memory (stackSlot 0) ∧ echoScope.cell "x" = stackSlot 0 := by decide +kernel
  refine ⟨readProgram_echo, rfl, by decide +kernel, fun m y => ⟨⟨?_, fun _ _ => rfl, rfl⟩, ?_⟩⟩
  · rw [hbefore]
    intro v hv
    cases hv
  · rw [hplain, hplaced]
    refine ⟨_, _, _, _, ⟨rfl, rfl, rfl⟩, ⟨rfl, rfl, rfl⟩, fun hagree => ?_⟩
    have hx := hagree.vars "x" hafter
    rw [hhome.1, hhome.2, mem_run_printToFloat, State.content, mem_run_printToFloat] at hx
    exact absurd (show (1 : Int) = 0 from hx) (by decide)

end MipsBackend
