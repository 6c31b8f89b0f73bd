import MipsBackend.Proofs.Failures

/-! Sharing. The rest of a program reaches the code of a function only by making some of the
function's own names global. All else that lowering and placement look at is in the function. -/
namespace MipsBackend
open Asm Asm.Register

namespace OrdMap
variable {v : String}

lemma getD_tally (l : List String) (m : NameMap Nat) :
    (l.foldl (fun m v => m.alter v 0 (· + 1)) m).getD v 0 = m.getD v 0 + l.count v := by
  induction l generalizing m with
  | nil => rfl
  | cons u l ih =>
    rw [List.foldl_cons, ih, getD, get?_alter]
    by_cases h : v = u
    · subst h
      rw [if_pos rfl, List.count_cons_self, Option.getD_some]
      omega
    · rw [if_neg h, List.count_cons_of_ne (Ne.symm h), getD]

lemma mem_keys_tally (l : List String) (m : NameMap Nat) :
    v ∈ (l.foldl (fun m v => m.alter v 0 (· + 1)) m).keys ↔ v ∈ l ∨ v ∈ m.keys := by
  induction l generalizing m with
  | nil => simp
  | cons u l ih =>
    rw [List.foldl_cons, ih, alter, keys_insert, OrdSet.mem_insert, List.mem_cons]
    tauto

end OrdMap

/-! ### Names that functions share -/

lemma FunctionDef.references_iff {f : FunctionDef} {v : String} :
    f.references v = true ↔ v ∈ f.code.flatMap Instruction.args := by
  simp [references, Instruction.references]

namespace Program
variable {p q : Program} {f : Function} {fs gs : List Function} {v : String}

lemma count_mentioned (hv : v ≠ "") :
    f.mentioned.toList.count v = if f.references v then 1 else 0 := by
  have hmem : v ∈ f.mentioned.toList ↔ f.references v = true := by
    rw [FunctionDef.references_iff, FunctionDef.mentioned, OrdSet.mem_toList, OrdSet.mem_ofList,
      List.mem_filter, decide_eq_true_iff, and_iff_left hv]
  rw [f.mentioned.nodup_toList.count, if_congr hmem rfl rfl]

lemma getD_foldl_countMentions (hv : v ≠ "") (m : NameMap Nat) :
    (fs.foldl countMentions m).getD v 0 = m.getD v 0 + fs.countP fun f => f.references v := by
  induction fs generalizing m with
  | nil => rfl
  | cons f fs ih =>
    rw [List.foldl_cons, ih, countMentions, OrdMap.getD_tally, count_mentioned hv, List.countP_cons]
    omega

/-- A name is global if it is an operand in more than one function. -/
lemma isGlobal_ofFunctions : (ofFunctions fs).isGlobal v = true ↔
    v ≠ "" ∧ isImmediate v = false ∧ 1 < fs.countP fun f => f.references v := by
  rw [isGlobal_iff]
  refine and_congr_right fun hv => and_congr_right fun _ => ?_
  rw [ofFunctions, getD_foldl_countMentions hv]
  exact iff_of_eq (congrArg _ (Nat.zero_add _))

lemma isGlobal_of_perm (h : fs.Perm gs) :
    (ofFunctions fs).isGlobal = (ofFunctions gs).isGlobal := by
  funext v
  rw [Bool.eq_iff_iff, isGlobal_ofFunctions, isGlobal_ofFunctions, h.countP_eq]

/-- A function with names of its own makes no difference to the others. -/
lemma isGlobal_cons (h : ∀ f' ∈ fs, ∀ v, v ≠ "" → isImmediate v = false →
    f'.references v = true → f.references v = false) :
    (ofFunctions (f :: fs)).isGlobal = (ofFunctions fs).isGlobal := by
  funext v
  rw [Bool.eq_iff_iff, isGlobal_ofFunctions, isGlobal_ofFunctions]
  refine and_congr_right fun hv => and_congr_right fun hi => ?_
  rw [List.countP_cons]
  split
  · next hf =>
    -- no other function mentions the name
    have hzero : fs.countP (fun f => f.references v) = 0 := by
      rw [List.countP_eq_zero]
      intro f' hf' href
      have := h f' hf' v hv hi href
      simp_all
    omega
  · rw [Nat.add_zero]

/-- The same ones among some names are global in both programs. -/
def AgreeOn (p q : Program) (vs : List String) : Prop := ∀ v ∈ vs, p.isGlobal v = q.isGlobal v

end Program

/-- The names that a function is lowered with: parameters and operands. -/
def FunctionDef.names (f : FunctionDef) : List String :=
  f.params ++ f.code.flatMap Instruction.args

/-! ### Lowering -/

/-- The same function in another program. -/
def Scope.within (s : Scope) (p : Program) : Scope := ⟨p, s.function⟩

namespace Scope
variable {s : Scope} {p : Program} {i : Instruction} {b : Block} {u v r : String} {n : Nat}
  {a : Action}

lemma isIntVar_within (h : p.isGlobal v = s.program.isGlobal v) :
    (s.within p).isIntVar v = s.isIntVar v := by
  simp only [isIntVar, within, h]

lemma intSource_within (h : p.isGlobal v = s.program.isGlobal v) :
    (s.within p).intSource v r = s.intSource v r := by
  simp only [intSource, isIntVar_within h]

lemma lowerCall_within {name x y : String} (hx : p.isGlobal x = s.program.isGlobal x)
    (hy : p.isGlobal y = s.program.isGlobal y) :
    (s.within p).lowerCall n name x y = s.lowerCall n name x y := by
  simp only [lowerCall, lowerArgument, within, hx, hy]

/-- An instruction is lowered by what its operands are. -/
lemma lowerInstruction_within (h : p.AgreeOn s.program i.args) :
    (s.within p).lowerInstruction n i = s.lowerInstruction n i := by
  obtain ⟨op, x, y, z, label⟩ := i
  have hx := h x (by simp [Instruction.args])
  have hy := h y (by simp [Instruction.args])
  have hz := h z (by simp [Instruction.args])
  cases op with
  | goto | other => rfl
  | assign =>
    simp only [lowerInstruction, lowerAssign, lowerArrayInit, plainSource, isIntVar_within hy,
      intSource_within hz]
    rfl
  | arith op =>
    simp only [lowerInstruction, lowerArith, leftSource, rightSource, isIntVar_within hx,
      isIntVar_within hy]
    rfl
  | branch cmp =>
    simp only [lowerInstruction, lowerBranch, intSource_within hx, isIntVar_within hy]
  | ret =>
    simp only [lowerInstruction, lowerReturn, lowerResult, isIntVar_within hx]
    rfl
  | call => exact lowerCall_within hy hz
  | callr =>
    -- the second argument is no name
    have hnone : p.isGlobal "" = s.program.isGlobal "" := rfl
    simp only [lowerInstruction, lowerCall_within hz hnone]
    rfl
  | arrayStore =>
    simp only [lowerInstruction, lowerArrayStore, elementAddress, intSource_within hy,
      intSource_within hz]
  | arrayLoad => simp only [lowerInstruction, lowerArrayLoad, elementAddress, intSource_within hz]

lemma lowerBlock_within (h : ∀ i ∈ b.body, p.AgreeOn s.program i.args) :
    (s.within p).lowerBlock b = s.lowerBlock b := by
  have hbody : b.positioned.flatMap (fun x => (s.within p).lowerIn b x.1 x.2) =
      b.positioned.flatMap fun x => s.lowerIn b x.1 x.2 := by
    refine List.flatMap_congr fun x hx => ?_
    have hi : x.2 ∈ b.body := b.map_snd_positioned ▸ List.mem_map_of_mem hx
    rw [lowerIn, lowerIn, lowerInstruction_within (h x.2 hi)]
  rw [lowerBlock_eq, lowerBlock_eq, lowerBody, lowerBody, hbody]
  rfl

end Scope

/-- The variables whose places an action looks up. -/
def Action.names : Action → List String
  | .read v _ => [v]
  | .write _ v => [v]
  | .compute _ v _ _ => [v]
  | .enterBlock b => b.body.flatMap Instruction.args
  | _ => []

namespace Scope
variable {s : Scope} {p : Program} {i : Instruction} {b : Block} {u v r : String} {n : Nat}
  {a : Action}

lemma names_intSource (ha : a ∈ (s.intSource v r).actions) (hu : u ∈ a.names) : u = v := by
  unfold intSource at ha
  split at ha <;> simp_all [Source.var, Source.loaded, Action.names, Action.line]

lemma names_lowerCall {name x y : String} (ha : a ∈ s.lowerCall n name x y) (hu : u ∈ a.names) :
    u ≠ "" ∧ (u = x ∨ u = y) := by
  grind [lowerCall, lowerArgument, Action.names, Action.line]

lemma names_elementAddress {x y : String} (ha : a ∈ s.elementAddress x y r) (hu : u ∈ a.names) :
    u = y := by
  grind [elementAddress, names_intSource, Action.names, Action.line]

lemma names_lowerArrayInit (ha : a ∈ s.lowerArrayInit i) (hu : u ∈ a.names) : u = i.arg3 := by
  grind [lowerArrayInit, names_intSource, Action.names, Action.line]

lemma names_lowerInstruction (ha : a ∈ s.lowerInstruction n i) (hu : u ∈ a.names) :
    u ∈ i.args := by
  obtain ⟨op, x, y, z, label⟩ := i
  simp only [Instruction.args, List.mem_cons, List.not_mem_nil, or_false]
  cases op with
  | goto | other => simp_all [lowerInstruction, Action.names, Action.line]
  | assign =>
    by_cases hz : z = ""
    · grind [lowerInstruction, lowerAssign, plainSource, Source.var, Source.literal, Action.names]
    · simp only [lowerInstruction, if_neg hz] at ha
      exact Or.inr (Or.inr (names_lowerArrayInit ha hu))
  | arith op =>
    grind [lowerInstruction, lowerArith, leftSource, rightSource, Source.var, Source.literal,
      Source.loaded, Action.names, Action.line]
  | branch cmp =>
    grind [lowerInstruction, lowerBranch, names_intSource, Source.var, Source.literal,
      Action.names]
  | ret => grind [lowerInstruction, lowerReturn, lowerResult, Action.names, Action.line]
  | call => exact Or.inr (names_lowerCall ha hu).2
  | callr =>
    rcases List.mem_append.mp ha with ha | ha
    · obtain ⟨hne, rfl | rfl⟩ := names_lowerCall ha hu
      · exact Or.inr (Or.inr rfl)
      · exact absurd rfl hne
    · simp_all [lowerCallResult, Action.names]
  | arrayStore =>
    grind [lowerInstruction, lowerArrayStore, names_elementAddress, names_intSource, Action.names]
  | arrayLoad =>
    grind [lowerInstruction, lowerArrayLoad, names_elementAddress, Action.names, Action.line]

/-- The operands of the code that a function is lowered from, and its parameters. -/
lemma names_lower (hcode : ∀ b ∈ s.function.blocks, b.body ⊆ s.function.code)
    (ha : a ∈ s.lower) (hu : u ∈ a.names) : u ∈ s.function.names := by
  have hargs : ∀ b ∈ s.function.blocks, ∀ i ∈ b.body, u ∈ i.args → u ∈ s.function.names := by
    intro b hb i hi hu
    exact List.mem_append_right _ (List.mem_flatMap.mpr ⟨i, hcode b hb hi, hu⟩)
  rcases List.mem_cons.mp ha with rfl | ha
  · cases hu
  rcases List.mem_append.mp ha with ha | ha
  · rcases List.mem_append.mp ha with ha | ha
    · simp only [List.mem_cons, List.not_mem_nil, or_false] at ha
      rcases ha with rfl | rfl <;> cases hu
    · obtain ⟨x, hx, rfl⟩ := List.mem_map.mp ha
      obtain rfl : u = x.1 := by simpa [Action.names] using hu
      exact List.mem_append_left _ (List.fst_mem_of_mem_zipIdx hx)
  · obtain ⟨b, hb, ha⟩ := List.mem_flatMap.mp ha
    have hb := Function.mem_blocks_of_mem_walk hb
    rw [lowerBlock_eq] at ha
    rcases List.mem_append.mp ha with ha | ha
    · obtain ⟨l, rfl⟩ := eq_label_of_mem_lowerLabel ha
      cases hu
    rcases List.mem_cons.mp ha with rfl | ha
    · obtain ⟨i, hi, hu⟩ := List.mem_flatMap.mp hu
      exact hargs b hb i hi hu
    rcases List.mem_append.mp ha with ha | ha
    · obtain ⟨x, hx, ha⟩ := List.mem_flatMap.mp ha
      have hi : x.2 ∈ b.body := b.map_snd_positioned ▸ List.mem_map_of_mem hx
      rcases List.mem_append.mp ha with ha | ha
      · split at ha
        · obtain rfl := List.mem_singleton.mp ha
          cases hu
        · cases ha
      · exact hargs b hb x.2 hi (names_lowerInstruction ha hu)
    · split at ha
      · cases ha
      · obtain rfl := List.mem_singleton.mp ha
        cases hu

lemma lower_within (hcode : ∀ b ∈ s.function.blocks, b.body ⊆ s.function.code)
    (h : p.AgreeOn s.program s.function.names) : (s.within p).lower = s.lower := by
  have hblocks : s.function.walk.flatMap (s.within p).lowerBlock =
      s.function.walk.flatMap s.lowerBlock := by
    refine List.flatMap_congr fun b hb => lowerBlock_within fun i hi v hv => h v ?_
    have hb := Function.mem_blocks_of_mem_walk hb
    exact List.mem_append_right _ (List.mem_flatMap.mpr ⟨i, hcode b hb hi, hv⟩)
  rw [lower, lower, ← hblocks]
  rfl

end Scope

/-! ### Plans -/

namespace Function
variable {p q : Program} {f : Function} {v : String} {n : Nat}

lemma mem_args_of_mem_defVars {i : Instruction} (h : v ∈ f.defVars i) : v ∈ i.args := by
  obtain ⟨op, x, y, z, label⟩ := i
  cases op <;> simp_all [FunctionDef.defVars, Instruction.defs, Instruction.args]

lemma mem_args_of_mem_useVars {i : Instruction} (h : v ∈ f.useVars i) : v ∈ i.args := by
  obtain ⟨op, x, y, z, label⟩ := i
  cases op <;> simp_all [FunctionDef.useVars, Instruction.uses, Instruction.args]
  all_goals tauto

/-- Only operands are live. -/
lemma mem_names_of_mem_liveOut (h : v ∈ f.liveness.liveOut n) : v ∈ f.names := by
  refine Flow.solve_le (F := f.instructionFlow) (X := fun _ v => v ∈ f.names) ?_ h
  rintro _ v ⟨t, -, hv | ⟨hv, -⟩⟩
  · obtain ⟨i, hi, hv⟩ := mem_use.mp hv
    exact List.mem_append_right _ (List.mem_flatMap.mpr
      ⟨i, List.mem_of_getElem? hi, mem_args_of_mem_useVars hv⟩)
  · exact hv

lemma mem_names_of_mem_occupied (h : v ∈ f.liveness.occupied n) : v ∈ f.names := by
  rcases mem_occupied.mp h with h | h
  · exact mem_names_of_mem_liveOut h
  · obtain ⟨i, hi, hv⟩ := mem_defs.mp h
    exact List.mem_append_right _ (List.mem_flatMap.mpr
      ⟨i, List.mem_of_getElem? hi, mem_args_of_mem_defVars hv⟩)

/-- A function has the same webs in programs that share the same ones of its names. -/
lemma webs_congr (h : p.AgreeOn q f.names) : f.webs p f.liveness = f.webs q f.liveness := by
  refine OrdMap.ext_get? fun v => Option.ext fun w => ?_
  rw [get?_webs, get?_webs]
  apply and_congr_right
  rintro ⟨n, -, hv⟩
  rw [h v (mem_names_of_mem_occupied hv)]

end Function

lemma Strategy.plan_within {s : Scope} {p : Program} (g : Strategy)
    (h : p.AgreeOn s.program s.function.names) : g.plan (s.within p) = g.plan s := by
  cases g with
  | memory | perBlock => rfl
  | perFunction k =>
    simp only [plan, Allocation.ofFunction, Scope.within, Function.webs_congr h]

/-! ### Placement -/

namespace Scope
variable {s : Scope} {p : Program} {b : Block} {u v r op x y src : String} {k : Nat}

lemma location?_within (h : p.isGlobal v = s.program.isGlobal v) :
    (s.within p).location? v = s.location? v := by
  simp only [location?, within, h]

lemma load_within (h : p.isGlobal v = s.program.isGlobal v) :
    (s.within p).load v r = s.load v r := by
  rw [load, load, location?_within h]
  rfl

lemma store_within (h : p.isGlobal v = s.program.isGlobal v) :
    (s.within p).store src v = s.store src v := by
  rw [store, store, location?_within h]
  rfl

lemma computeAndStore_within (h : p.isGlobal v = s.program.isGlobal v) :
    (s.within p).computeAndStore op v x y = s.computeAndStore op v x y := by
  rw [computeAndStore, computeAndStore, store_within h]
  rfl

/-- The most used variables of a block are operands in it. -/
lemma workingSet_within (h : p.AgreeOn s.program (b.body.flatMap Instruction.args)) :
    (s.within p).workingSet k b = s.workingSet k b := by
  have hfilter : ((s.function.useCounts b).entries.filter fun e => (s.within p).isCacheable e.1) =
      (s.function.useCounts b).entries.filter fun e => s.isCacheable e.1 := by
    refine List.filter_congr fun e he => ?_
    have hkey : e.1 ∈ (s.function.useCounts b).keys :=
      OrdMap.mem_keys_iff.mpr ⟨e.2, OrdMap.get?_eq_some_iff.mpr he⟩
    rw [Function.useCounts, OrdMap.mem_keys_tally] at hkey
    obtain ⟨i, hi, hv⟩ := List.mem_flatMap.mp (hkey.resolve_right (OrdSet.not_mem_empty _))
    have hglobal := h e.1 (List.mem_flatMap.mpr ⟨i, hi, Function.mem_args_of_mem_useVars hv⟩)
    simp only [isCacheable, within, hglobal]
  rw [workingSet, workingSet, ← hfilter]
  rfl

end Scope

/-- The same plan in another program. -/
def Placement.within (q : Placement) (p : Program) : Placement := { q with program := p }

namespace Placement
variable {q : Placement} {p : Program} {c : Cache} {a : Action} {as : List Action}
  {es : List (String × Nat)}

/-- Variables in registers are global in neither program. -/
lemma isGlobal_of_register? {v : String} {n : Nat} (hc : q.Sound c) (hc' : (q.within p).Sound c)
    (h : q.register? c v = some n) : p.isGlobal v = q.program.isGlobal v :=
  (hc' v n h).2.trans (hc v n h).2.symm

lemma storeAll_within (hc : q.Sound c) (hc' : (q.within p).Sound c)
    (h : ∀ e ∈ es, q.register? c e.1 = some e.2) : (q.within p).storeAll es = q.storeAll es := by
  refine congrArg Emission.sequence (List.map_congr_left fun e he => Scope.store_within ?_)
  exact isGlobal_of_register? hc hc' (h e he)

lemma loadAll_within (hc : q.Sound c) (hc' : (q.within p).Sound c)
    (h : ∀ e ∈ es, q.register? c e.1 = some e.2) : (q.within p).loadAll es = q.loadAll es := by
  refine congrArg Emission.sequence (List.map_congr_left fun e he => Scope.load_within ?_)
  exact isGlobal_of_register? hc hc' (h e he)

lemma loadWorkingSet_within {k : Nat} {b : Block}
    (h : p.AgreeOn q.program (b.body.flatMap Instruction.args)) :
    (q.within p).loadWorkingSet k b = q.loadWorkingSet k b := by
  have hset : (q.within p).workingSet k b = q.workingSet k b := Scope.workingSet_within h
  rw [loadWorkingSet, loadWorkingSet, hset]
  refine congrArg _ (congrArg Emission.sequence (List.map_congr_left fun e he => ?_))
  have he : e.1 ∈ q.workingSet k b := List.fst_mem_of_mem_zipIdx he
  have hlocal : p.isGlobal e.1 = q.program.isGlobal e.1 :=
    (Scope.isGlobal_of_mem_workingSet (s := (q.within p).toScope) (hset ▸ he)).trans
      (Scope.isGlobal_of_mem_workingSet he).symm
  exact congrArg (Emission.andThen _) (Scope.load_within hlocal)

lemma emission_within (hc : q.Sound c) (hc' : (q.within p).Sound c)
    (h : p.AgreeOn q.program a.names) : (q.within p).emission c a = q.emission c a := by
  cases a with
  | comment | label | emit | enterFunction | fail => rfl
  | enterBlock b =>
    have hload : ∀ k, (q.within p).loadWorkingSet k b = q.loadWorkingSet k b :=
      fun k => loadWorkingSet_within h
    simp only [emission, hload]
    rfl
  | exitBlock b =>
    cases hp : q.plan with
    | memory | perFunction => simp only [emission, within, hp]
    | perBlock k live =>
      have hstore := storeAll_within hc hc' (register?_of_mem_writeBacks (b := b) hp)
      simp only [emission, show (q.within p).plan = q.plan from rfl, hp, hstore]
  | save n =>
    cases hp : q.plan with
    | memory | perBlock => simp only [emission, within, hp]
    | perFunction alloc =>
      have hstore := storeAll_within hc hc' (register?_of_mem_liveAcross (n := n) hp)
      simp only [emission, show (q.within p).plan = q.plan from rfl, hp]
      exact congrArg _ hstore
  | restore n =>
    cases hp : q.plan with
    | memory | perBlock => simp only [emission, within, hp]
    | perFunction alloc =>
      have hload := loadAll_within hc hc' (register?_of_mem_liveAcross (n := n) hp)
      simp only [emission, show (q.within p).plan = q.plan from rfl, hp]
      exact congrArg _ hload
  | read v r =>
    have hload : (q.within p).load v r = q.load v r :=
      Scope.load_within (h v (by simp [Action.names]))
    simp only [emission, hload]
    rfl
  | write src v =>
    have hstore : ∀ x, (q.within p).store x v = q.store x v :=
      fun x => Scope.store_within (h v (by simp [Action.names]))
    simp only [emission, hstore]
    rfl
  | compute op v x y =>
    have hstore : ∀ x y, (q.within p).computeAndStore op v x y = q.computeAndStore op v x y :=
      fun x y => Scope.computeAndStore_within (h v (by simp [Action.names]))
    simp only [emission, hstore]
    rfl

lemma next_within (h : p.AgreeOn q.program a.names) : (q.within p).next c a = q.next c a := by
  cases a with
  | enterBlock b =>
    have hset : ∀ k, (q.within p).workingSet k b = q.workingSet k b :=
      fun k => Scope.workingSet_within h
    simp only [next, hset]
    rfl
  | _ => rfl

lemma run_within (hc : q.Sound c) (hc' : (q.within p).Sound c)
    (h : ∀ a ∈ as, p.AgreeOn q.program a.names) : (q.within p).run c as = q.run c as := by
  induction as generalizing c with
  | nil => rfl
  | cons a as ih =>
    have ha := h a (by simp)
    have hnext := next_within (c := c) ha
    rw [run, run, emission_within hc hc' ha, hnext,
      ih (hc.next a) (hnext ▸ hc'.next a) fun b hb => h b (by simp [hb])]

end Placement

lemma Strategy.place_within {s : Scope} {p : Program} (g : Strategy)
    (h : p.AgreeOn s.program s.function.names) : g.place (s.within p) = (g.place s).within p := by
  rw [place, place, plan_within g h]
  rfl

namespace Session
variable {p q : Program} {g : Strategy} {f : Function} {s t : Session}

/-- A function comes out the same in programs that share the same ones of its names. -/
lemma Idle.result_congr (hcode : ∀ b ∈ f.blocks, b.body ⊆ f.code) (hs : Idle p g s)
    (ht : Idle q g t) (h : q.AgreeOn p f.names) : (s.generate f).2 = (t.generate f).2 := by
  have hplace : g.place ⟨q, f⟩ = (g.place ⟨p, f⟩).within q := g.place_within (s := ⟨p, f⟩) h
  have hlower : Scope.lower ⟨q, f⟩ = Scope.lower ⟨p, f⟩ :=
    Scope.lower_within (s := ⟨p, f⟩) hcode h
  have hemission : emissionOf { program := q, strategy := g } f =
      emissionOf { program := p, strategy := g } f := by
    rw [emissionOf, emissionOf, hlower, hplace]
    refine Placement.run_within (g.sound_place _) (hplace ▸ g.sound_place _) fun a ha v hv => ?_
    exact h v (Scope.names_lower hcode ha hv)
  rw [hs.result, ht.result, generate_eq, generate_eq, hemission]

end Session

/-- The rest of a program reaches the code of a function only by which of the function's own
parameters and operands are global. So neither the order of the functions nor a function that
mentions no name of the others makes any difference. -/
theorem generate_depends_on_sharing {f : Function} (hcode : ∀ b ∈ f.blocks, b.body ⊆ f.code)
    (g : Strategy) :
    (∀ p q s t, Session.Idle p g s → Session.Idle q g t →
      (∀ v, v ∈ f.params ∨ f.references v = true → p.isGlobal v = q.isGlobal v) →
      (s.generate f).2 = (t.generate f).2) ∧
    (∀ fs gs s t, fs.Perm gs → Session.Idle (.ofFunctions fs) g s →
      Session.Idle (.ofFunctions gs) g t → (s.generate f).2 = (t.generate f).2) ∧
    ∀ fs gs added s t, (added :: fs).Perm gs →
      (∀ f' ∈ fs, ∀ v, v ≠ "" → isImmediate v = false → f'.references v = true →
        added.references v = false) →
      Session.Idle (.ofFunctions fs) g s → Session.Idle (.ofFunctions gs) g t →
      (s.generate f).2 = (t.generate f).2 := by
  refine ⟨fun p q s t hs ht h => ?_, fun fs gs s t hperm hs ht => ?_,
    fun fs gs added s t hperm hfresh hs ht => ?_⟩
  · refine hs.result_congr hcode ht fun v hv => (h v ?_).symm
    rwa [FunctionDef.references_iff, ← List.mem_append]
  · refine hs.result_congr hcode ht fun v _ => ?_
    rw [Program.isGlobal_of_perm hperm]
  · refine hs.result_congr hcode ht fun v _ => ?_
    rw [← Program.isGlobal_of_perm hperm, Program.isGlobal_cons hfresh]

/-- A function that counts in a variable. -/
def counting (name v : String) : FunctionDef where
  name := name
  ints := [v]
  code := [{ op := .arith .add, arg1 := v, arg2 := "1", arg3 := v }, { op := .ret, arg1 := v }]

def countingFunction (name v : String) : Function :=
  { counting name v with
    blocks := (linkBlocks (layout 0 0 (cut (counting name v).code))).toOption.getD [] }

/-- A third function with a variable of its own changes nothing for the two that share theirs. -/
theorem generate_counting_unchanged :
    (Program.ofFunctions [countingFunction "f" "n", countingFunction "g" "n"]).isGlobal "n" = true ∧
    ∀ g : Strategy,
      (Session.generate
        { program := .ofFunctions [countingFunction "f" "n", countingFunction "g" "n"],
          strategy := g } (countingFunction "f" "n")).2 =
      (Session.generate
        { program := .ofFunctions [countingFunction "g" "n", countingFunction "h" "m",
            countingFunction "f" "n"],
          strategy := g } (countingFunction "f" "n")).2 := by
  have hcode : ∀ b ∈ (countingFunction "f" "n").blocks,
      b.body ⊆ (countingFunction "f" "n").code := by
    decide +kernel
  refine ⟨by decide +kernel, fun g => ?_⟩
  refine (generate_depends_on_sharing hcode g).2.2 _ _ (countingFunction "h" "m") _ _ ?_ ?_
    Session.idle_new Session.idle_new
  · decide +kernel
  · intro f' hf' v hv hi href
    have hargs : ∀ f' ∈ [countingFunction "f" "n", countingFunction "g" "n"],
        ∀ v ∈ f'.code.flatMap Instruction.args, v = "" ∨ isImmediate v = true ∨ v = "n" := by
      decide +kernel
    rcases hargs f' hf' v (FunctionDef.references_iff.mp href) with rfl | h | rfl
    · exact absurd rfl hv
    · rw [h] at hi
      cases hi
    · decide +kernel

-- alone, the first keeps its variable on the stack
example : (Session.generate
      { program := .ofFunctions [countingFunction "f" "n"], strategy := .memory }
      (countingFunction "f" "n")).2 ≠
    (Session.generate
      { program := .ofFunctions [countingFunction "f" "n", countingFunction "g" "n"],
        strategy := .memory } (countingFunction "f" "n")).2 := by
  decide +kernel

end MipsBackend
