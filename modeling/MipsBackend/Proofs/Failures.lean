import MipsBackend.Proofs.PerBlock
import MipsBackend.Proofs.PerFunction
import MipsBackend.Proofs.Sessions

/-! Failures. A function fails at its first parameter or destination without a place, bad array
length or unknown opcode, wherever its variables live. What a placement does on its own account, at
the ends of blocks and around calls, addresses only variables that have a place. -/
namespace MipsBackend
open Asm Asm.Register

namespace Scope
variable {s : Scope} {v r op a b src : String}

/-- What is wrong with a variable that has no place: it is neither declared nor global. -/
def unplaced? (s : Scope) (v : String) : Option Failure :=
  if s.function.isVar v || s.program.isGlobal v then none
  else some (.undeclared s.function.name v)

/-- What is wrong with an instruction. -/
def offence? (s : Scope) (i : Instruction) : Option Failure :=
  match i.op with
  | .assign =>
    if i.arg3 = "" then s.unplaced? i.arg1
    else if (Text.integer? i.arg2.toList).isNone then some (.badLength i.arg1 i.arg2)
    else none
  | .arith _ => s.unplaced? i.arg3
  | .callr => s.unplaced? i.arg1
  | .arrayLoad => s.unplaced? i.arg1
  | .other n => some (.unknownOpcode (.other n))
  | .goto | .branch _ | .ret | .call | .arrayStore => none

/-- The first thing that is wrong with a function: the parameters come before the code. -/
def firstOffence? (s : Scope) : Option Failure :=
  (s.function.params.findSome? s.unplaced?).or (s.function.code.findSome? s.offence?)

lemma unplaced?_of_addressable (h : s.Addressable v) : s.unplaced? v = none := by
  rcases h with h | h <;> simp [unplaced?, h]

lemma addressable_of_unplaced? (h : s.unplaced? v = none) : s.Addressable v := by
  by_contra hv
  rw [Addressable, ← Bool.or_eq_true] at hv
  rw [unplaced?, if_neg hv] at h
  cases h

lemma addressable_of_isIntVar (h : s.isIntVar v = true) : s.Addressable v := by
  rw [isIntVar, Bool.or_eq_true] at h
  exact h.imp_left fun h => by simp [FunctionDef.isVar, h]

lemma addressable_of_isFloat (h : s.function.isFloat v = true) : s.Addressable v :=
  Or.inl (by simp [FunctionDef.isVar, h])

lemma location?_eq_none (h : ¬ s.Addressable v) : s.location? v = none := by
  rw [Addressable, not_or, Bool.not_eq_true, Bool.not_eq_true, ← FunctionDef.isSome_slot?,
    Option.isSome_eq_false_iff, Option.isNone_iff_eq_none] at h
  simp [location?, h.1, h.2]

/-- Where nothing is stored or loaded for want of a place, the failure says so. -/
lemma unplaced?_of_location?_eq_none (h : s.location? v = none) :
    s.unplaced? v = some (.undeclared s.function.name v) := by
  by_cases hv : s.Addressable v
  · obtain ⟨l, hl, -⟩ := location?_of_addressable hv
    rw [h] at hl
    cases hl
  · rw [Addressable, ← Bool.or_eq_true] at hv
    rw [unplaced?, if_neg hv]

lemma unplaced?_of_location?_eq_some {l : Location} (h : s.location? v = some l) :
    s.unplaced? v = none := by
  apply unplaced?_of_addressable
  by_contra hv
  rw [location?_eq_none hv] at h
  cases h

lemma failure_load : (s.load v r).failure = s.unplaced? v := by
  unfold load
  split
  · next h => rw [unplaced?_of_location?_eq_none h, undeclared]
  · next h => rw [unplaced?_of_location?_eq_some h]

lemma failure_store : (s.store src v).failure = s.unplaced? v := by
  unfold store
  split
  · next h => rw [unplaced?_of_location?_eq_none h, undeclared]
  · next h =>
    rw [unplaced?_of_location?_eq_some h]
    dsimp only
    split <;> rfl

lemma failure_computeAndStore : (s.computeAndStore op v a b).failure = s.unplaced? v :=
  failure_store

end Scope

lemma Emission.failure_sequence {xs : List Emission} (h : ∀ x ∈ xs, x.failure = none) :
    (sequence xs).failure = none := by
  induction xs with
  | nil => rfl
  | cons x xs ih =>
    exact failure_andThen.mpr ⟨h x (by simp), ih fun y hy => h y (by simp [hy])⟩

namespace Action

/-- Reading, or an action by which a placement moves variables on its own account. -/
def isUpkeep : Action → Bool
  | .enterFunction | .enterBlock _ | .exitBlock _ | .save _ | .restore _ | .read _ _ => true
  | _ => false

/-- Only variables that have a place are read. -/
def ReadsPlaced (s : Scope) : Action → Prop
  | .read v _ => s.Addressable v
  | _ => True

end Action

namespace Scope

/-- How an action fails, wherever variables live. -/
def failure? (s : Scope) : Action → Option Failure
  | .write _ v => s.unplaced? v
  | .compute _ v _ _ => s.unplaced? v
  | .fail cause => some cause
  | _ => none

lemma failure?_of_isUpkeep {s : Scope} {a : Action} (h : a.isUpkeep = true) :
    s.failure? a = none := by
  cases a with
  | enterFunction | enterBlock | exitBlock | save | restore | read => rfl
  | comment | label | emit | write | compute | fail => cases h

end Scope

namespace Placement
variable {q : Placement} {c : Cache} {a : Action} {as : List Action} {es : List (String × Nat)}

lemma failure_storeAll (hc : q.Sound c) (h : ∀ e ∈ es, q.register? c e.1 = some e.2) :
    (q.storeAll es).failure = none := by
  apply Emission.failure_sequence
  intro x hx
  obtain ⟨e, he, rfl⟩ := List.mem_map.mp hx
  rw [Scope.failure_store, Scope.unplaced?_of_addressable (addressable_of_register? hc (h e he))]

lemma failure_loadAll (hc : q.Sound c) (h : ∀ e ∈ es, q.register? c e.1 = some e.2) :
    (q.loadAll es).failure = none := by
  apply Emission.failure_sequence
  intro x hx
  obtain ⟨e, he, rfl⟩ := List.mem_map.mp hx
  rw [Scope.failure_load, Scope.unplaced?_of_addressable (addressable_of_register? hc (h e he))]

lemma addressable_of_isCacheable {v : String} (h : q.isCacheable v = true) : q.Addressable v := by
  simp only [Scope.isCacheable, Bool.and_eq_true] at h
  exact Or.inl (by simp [FunctionDef.isVar, h.1.1])

lemma failure_loadWorkingSet (k : Nat) (b : Block) : (q.loadWorkingSet k b).failure = none := by
  refine Emission.failure_andThen.mpr ⟨rfl, Emission.failure_sequence fun x hx => ?_⟩
  obtain ⟨⟨v, n⟩, he, rfl⟩ := List.mem_map.mp hx
  have hv : v ∈ q.workingSet k b := List.fst_mem_of_mem_zipIdx he
  refine Emission.failure_andThen.mpr ⟨rfl, ?_⟩
  rw [Scope.failure_load, Scope.unplaced?_of_addressable
    (addressable_of_isCacheable (Scope.isCacheable_of_mem_workingSet hv))]

/-- Variables are written back from their registers. -/
lemma register?_of_mem_writeBacks {k : Nat} {live : Liveness} {b : Block}
    (hp : q.plan = .perBlock k live) : ∀ e ∈ writeBacks live c b, q.register? c e.1 = some e.2 := by
  intro e he
  rw [register?, hp]
  exact OrdMap.get?_eq_some_iff.mpr (List.mem_filter.mp he).1

/-- Variables are saved from and restored to their registers. -/
lemma register?_of_mem_liveAcross {alloc : Allocation} {n : Nat}
    (hp : q.plan = .perFunction alloc) :
    ∀ e ∈ q.liveAcross alloc n, q.register? c e.1 = some e.2 := by
  intro e he
  rw [register?, hp]
  obtain ⟨⟨v, w⟩, -, hv⟩ := List.mem_filterMap.mp (List.mem_filter.mp he).1
  dsimp only at hv
  split at hv
  · obtain ⟨m, hm, rfl⟩ := Option.map_eq_some_iff.mp hv
    exact hm
  · cases hv

/-- An action fails in the same way wherever variables live. -/
lemma failure_emission (hc : q.Sound c) (ha : a.ReadsPlaced q.toScope) :
    (q.emission c a).failure = q.failure? a := by
  cases a with
  | comment | label | emit | fail => rfl
  | enterFunction =>
    rw [emission]
    cases q.plan <;> rfl
  | enterBlock b =>
    rw [emission]
    cases q.plan with
    | memory | perFunction => rfl
    | perBlock k live => exact failure_loadWorkingSet k b
  | exitBlock b =>
    rw [emission]
    cases hp : q.plan with
    | memory | perFunction => rfl
    | perBlock k live =>
      refine Emission.failure_andThen.mpr ⟨rfl, Emission.failure_andThen.mpr ⟨?_, rfl⟩⟩
      exact failure_storeAll hc (register?_of_mem_writeBacks hp)
  | save n =>
    rw [emission]
    cases hp : q.plan with
    | memory | perBlock => rfl
    | perFunction alloc =>
      refine Emission.failure_andThen.mpr ⟨rfl, ?_⟩
      exact failure_storeAll hc (register?_of_mem_liveAcross hp)
  | restore n =>
    rw [emission]
    cases hp : q.plan with
    | memory | perBlock => rfl
    | perFunction alloc =>
      refine Emission.failure_andThen.mpr ⟨rfl, ?_⟩
      exact failure_loadAll hc (register?_of_mem_liveAcross hp)
  | read v r =>
    rw [emission]
    cases q.register? c v with
    | none => exact Scope.failure_load.trans (Scope.unplaced?_of_addressable ha)
    | some n =>
      dsimp only
      split <;> rfl
  | write src v =>
    rw [emission]
    cases ht : q.target? c v with
    | none => exact Scope.failure_store
    | some n =>
      have hv := addressable_of_register? hc (register?_of_target? ht)
      exact (Scope.unplaced?_of_addressable hv).symm
  | compute op v x y =>
    rw [emission]
    cases ht : q.target? c v with
    | none => exact Scope.failure_computeAndStore
    | some n =>
      have hv := addressable_of_register? hc (register?_of_target? ht)
      exact (Scope.unplaced?_of_addressable hv).symm

/-- Only local integer variables ever get registers. -/
lemma Sound.next (hc : q.Sound c) (a : Action) : q.Sound (q.next c a) := by
  cases a with
  | comment | label | emit | enterFunction | save | restore | fail => exact hc
  | write src v => exact hc.forget
  | compute op v x y => exact hc.forget
  | exitBlock b =>
    intro v n hv
    exact hc v n ((register?_congr rfl v).symm.trans hv)
  | read v r =>
    intro u n hu
    exact hc u n ((register?_congr rfl u).symm.trans hu)
  | enterBlock b =>
    intro v n hv
    cases hp : q.plan with
    | memory => simp [register?, hp] at hv
    | perFunction alloc =>
      apply hc v n
      simpa [register?, hp] using hv
    | perBlock k live =>
      have hv : (q.blockRegisters k b).get? v = some n := by
        simpa [register?, Placement.next, hp, Scope.blockRegisters] using hv
      have hcache := Scope.isCacheable_of_blockRegisters hv
      simp only [Scope.isCacheable, Bool.and_eq_true, Bool.not_eq_true'] at hcache
      exact hcache.1

lemma Sound.nexts (hc : q.Sound c) (as : List Action) : q.Sound (q.nexts c as) := by
  induction as generalizing c with
  | nil => exact hc
  | cons a as ih => exact ih (hc.next a)

/-- Actions fail where the first of them does. -/
lemma failure_run (hc : q.Sound c) (has : ∀ a ∈ as, a.ReadsPlaced q.toScope) :
    (q.run c as).failure = as.findSome? q.failure? := by
  induction as generalizing c with
  | nil => rfl
  | cons a as ih =>
    have ha := failure_emission hc (has a (by simp))
    have has := ih (hc.next a) fun b hb => has b (by simp [hb])
    rw [run, List.findSome?_cons, ← ha, ← has]
    unfold Emission.andThen
    split
    · next h => rw [h]
    · next h => rw [h]

end Placement

lemma Strategy.sound_place (g : Strategy) (s : Scope) : (g.place s).Sound {} := by
  cases g with
  | memory => exact fun v n h => by cases h
  | perBlock k => exact fun v n h => by cases h
  | perFunction k => exact Placement.PerFunction.sound (k := k) rfl

/-! ### What is lowered -/

lemma Block.map_snd_positioned (b : Block) : b.positioned.map Prod.snd = b.body :=
  List.map_snd_zip (by simp)

namespace Scope

/-- Actions that read only variables that have a place, and the first failure among them. -/
structure FailsWith (s : Scope) (as : List Action) (cause : Option Failure) : Prop where
  reads : ∀ a ∈ as, a.ReadsPlaced s
  first : as.findSome? s.failure? = cause

variable {s : Scope} {a : Action} {as bs : List Action} {x y : Option Failure} {v r op : String}
  {n : Nat} {i : Instruction}

namespace FailsWith

lemma nil : s.FailsWith [] none := ⟨by simp, rfl⟩

lemma single (h : a.ReadsPlaced s) : s.FailsWith [a] (s.failure? a) :=
  ⟨by simpa using h, by cases h : s.failure? a <;> simp [h]⟩

lemma append (ha : s.FailsWith as x) (hb : s.FailsWith bs y) :
    s.FailsWith (as ++ bs) (x.or y) :=
  ⟨List.forall_mem_append.mpr ⟨ha.reads, hb.reads⟩,
    by rw [List.findSome?_append, ha.first, hb.first]⟩

/-- Nothing fails before the actions. -/
lemma after (ha : s.FailsWith as none) (hb : s.FailsWith bs y) : s.FailsWith (as ++ bs) y := by
  simpa using ha.append hb

lemma emit {args : List Operand} {note : Option String} (has : s.FailsWith as x) :
    s.FailsWith (.emit op args note :: as) x :=
  (single (a := .emit op args note) trivial).after has

lemma comment {text : String} (has : s.FailsWith as x) : s.FailsWith (.comment text :: as) x :=
  (single (a := .comment text) trivial).after has

lemma read (hv : s.Addressable v) : s.FailsWith [.read v r] none := single (a := .read v r) hv

lemma flatMap {α : Type} {xs : List α} {g : α → List Action} {h : α → Option Failure}
    (hg : ∀ e ∈ xs, s.FailsWith (g e) (h e)) : s.FailsWith (xs.flatMap g) (xs.findSome? h) := by
  induction xs with
  | nil => exact nil
  | cons e xs ih =>
    have hxs := (hg e (by simp)).append (ih fun e' he' => hg e' (by simp [he']))
    rw [List.flatMap_cons, List.findSome?_cons]
    cases he : h e <;> simpa [he] using hxs

end FailsWith

lemma failsWith_intSource : s.FailsWith (s.intSource v r).actions none := by
  unfold intSource
  split
  · next h => exact .read (addressable_of_isIntVar h)
  · exact .emit .nil

lemma failsWith_plainSource {r' : String} : s.FailsWith (s.plainSource v r r').actions none := by
  unfold plainSource
  split
  · next h => exact .read (addressable_of_isIntVar h)
  · split
    · next h => exact .read (addressable_of_isFloat h)
    · exact .nil

lemma failsWith_leftSource : s.FailsWith (s.leftSource v).actions none := by
  unfold leftSource
  split
  · next h => exact .read (addressable_of_isIntVar h)
  · split
    · next h => exact .read (addressable_of_isFloat h)
    · split <;> exact .emit .nil

lemma failsWith_rightSource : s.FailsWith (s.rightSource v).actions none := by
  unfold rightSource
  split
  · next h => exact .read (addressable_of_isIntVar h)
  · split
    · next h => exact .read (addressable_of_isFloat h)
    · split
      · exact .emit .nil
      · exact .nil

lemma failsWith_write (src : Operand) : s.FailsWith [.write src v] (s.unplaced? v) :=
  .single (a := .write src v) trivial

lemma failsWith_lowerArrayInit : s.FailsWith (s.lowerArrayInit i)
    (if (Text.integer? i.arg2.toList).isNone then some (.badLength i.arg1 i.arg2) else none) := by
  unfold lowerArrayInit
  cases Text.integer? i.arg2.toList with
  | none => exact .single (a := .fail (.badLength i.arg1 i.arg2)) trivial
  | some n =>
    refine .emit (failsWith_intSource.after ?_)
    -- one store for each word
    generalize List.range n.toNat = ks
    induction ks with
    | nil => exact .nil
    | cons k ks ih => exact .emit ih

lemma failsWith_lowerBranch (cmp : Comparison) : s.FailsWith (s.lowerBranch cmp i) none := by
  have hright : s.FailsWith
      (if s.isIntVar i.arg2 then Source.var i.arg2 t1 false else .literal i.arg2).actions none := by
    split
    · next h => exact .read (addressable_of_isIntVar h)
    · exact .nil
  exact (failsWith_intSource.after hright).after (.emit .nil)

lemma failsWith_lowerReturn : s.FailsWith (s.lowerReturn i) none := by
  refine .after ?_ (.emit (.emit (.emit .nil)))
  unfold lowerResult
  split
  · exact .nil
  · split
    · next h => exact .read (addressable_of_isIntVar h)
    · split
      · next h => exact .read (addressable_of_isFloat h)
      · exact .emit .nil

lemma failsWith_lowerArgument {isFloat : Bool} :
    s.FailsWith (s.lowerArgument v r isFloat) none := by
  unfold lowerArgument
  split
  · exact .nil
  · split
    · next h => exact .read (Bool.or_eq_true_iff.mp h)
    · exact .emit .nil

lemma failsWith_lowerCall {name x y : String} : s.FailsWith (s.lowerCall n name x y) none := by
  refine (failsWith_lowerArgument.after failsWith_lowerArgument).after ?_
  split
  · exact .emit (.emit .nil)
  · exact ⟨by simp [Action.ReadsPlaced, Action.line], rfl⟩

lemma failsWith_elementAddress {array index scratch : String} :
    s.FailsWith (s.elementAddress array index scratch) none :=
  failsWith_intSource.after (.emit (.emit (.emit .nil)))

/-- An instruction fails if there is something wrong with it. -/
lemma failsWith_lowerInstruction (n : Nat) (i : Instruction) :
    s.FailsWith (s.lowerInstruction n i) (s.offence? i) := by
  obtain ⟨op, x, y, z, label⟩ := i
  cases op with
  | assign =>
    simp only [lowerInstruction, offence?]
    split
    · exact failsWith_plainSource.after (failsWith_write _)
    · exact failsWith_lowerArrayInit
  | arith op =>
    refine (failsWith_leftSource.after failsWith_rightSource).after ?_
    exact .single (a := .compute _ _ _ _) trivial
  | goto => exact .emit .nil
  | branch cmp => exact failsWith_lowerBranch cmp
  | ret => exact failsWith_lowerReturn
  | call => exact failsWith_lowerCall
  | callr => exact failsWith_lowerCall.after (failsWith_write _)
  | arrayStore =>
    simp only [lowerInstruction, lowerArrayStore, List.cons_append, List.append_assoc]
    refine .comment (failsWith_intSource.after (failsWith_elementAddress.after ?_))
    exact .emit (.comment .nil)
  | arrayLoad =>
    refine .comment (failsWith_elementAddress.after (.emit ?_))
    simpa [offence?] using (failsWith_write (.text t1)).append (.comment .nil)
  | other k => exact .single (a := .fail _) trivial

lemma failsWith_lowerIn (b : Block) (n : Nat) (i : Instruction) :
    s.FailsWith (s.lowerIn b n i) (s.offence? i) := by
  refine .after ?_ (failsWith_lowerInstruction n i)
  split
  · exact .single (a := .exitBlock b) trivial
  · exact .nil

lemma failsWith_lowerLabel (b : Block) : s.FailsWith (s.lowerLabel b) none := by
  unfold lowerLabel
  cases b.label with
  | none => exact .nil
  | some l =>
    dsimp only
    split
    · exact .nil
    · exact .single (a := .label l) trivial

/-- A block fails at the first of its instructions with which something is wrong. -/
lemma failsWith_lowerBlock (b : Block) :
    s.FailsWith (s.lowerBlock b) (b.body.findSome? s.offence?) := by
  have hbody : s.FailsWith (b.positioned.flatMap fun x => s.lowerIn b x.1 x.2)
      (b.positioned.findSome? fun x => s.offence? x.2) :=
    .flatMap fun x _ => failsWith_lowerIn b x.1 x.2
  have hexit : s.FailsWith
      (if b.last?.any Instruction.isTerminal then [] else [.exitBlock b]) none := by
    split
    · exact .nil
    · exact .single (a := .exitBlock b) trivial
  have hcode : (b.positioned.findSome? fun x => s.offence? x.2) = b.body.findSome? s.offence? := by
    rw [← b.map_snd_positioned, List.findSome?_map]
    rfl
  have hinside := (FailsWith.single (a := .enterBlock b) trivial).after (hbody.append hexit)
  rw [Option.or_none, hcode] at hinside
  rw [lowerBlock_eq]
  exact (failsWith_lowerLabel b).after hinside

lemma failsWith_lowerPrologue :
    s.FailsWith s.lowerPrologue (s.function.params.findSome? s.unplaced?) := by
  have hparams : s.FailsWith
      (s.function.params.zipIdx.flatMap fun x => [.write (.text (Register.arg x.2)) x.1])
      (s.function.params.zipIdx.findSome? fun x => s.unplaced? x.1) :=
    .flatMap fun x _ => failsWith_write _
  have hnames : (s.function.params.zipIdx.findSome? fun x => s.unplaced? x.1) =
      s.function.params.findSome? s.unplaced? := by
    conv_rhs => rw [← List.zipIdx_map_fst 0 s.function.params, List.findSome?_map]
    rfl
  rw [hnames, ← List.map_eq_flatMap] at hparams
  exact .emit (.emit hparams)

/-- A function fails at the first parameter or instruction with which something is wrong. -/
lemma failsWith_lower (hf : s.function.Built) : s.FailsWith s.lower s.firstOffence? := by
  have hblocks : s.FailsWith (s.function.blocks.flatMap s.lowerBlock)
      (s.function.blocks.findSome? fun b => b.body.findSome? s.offence?) :=
    .flatMap fun b _ => failsWith_lowerBlock b
  have hcode : (s.function.blocks.findSome? fun b => b.body.findSome? s.offence?) =
      s.function.code.findSome? s.offence? := by
    rw [← hf.code]
    induction s.function.blocks with
    | nil => rfl
    | cons b bs ih =>
      rw [List.flatMap_cons, List.findSome?_append, ← ih, List.findSome?_cons]
      cases b.body.findSome? s.offence? <;> rfl
  rw [hcode, ← hf.walk_eq] at hblocks
  exact (FailsWith.single (a := .enterFunction) trivial).after
    (failsWith_lowerPrologue.append hblocks)

end Scope

/-- Generating a function fails just if something is wrong with one of its parameters or
instructions, and the error is about the first of these, wherever variables live. Reading operands,
entering and leaving blocks, and saving registers around calls never fail. -/
theorem generate_fails_iff_offence {d : FunctionDef} {f : Function} (hf : d.build = .ok f)
    (p : Program) (g : Strategy) :
    (∀ e, (Session.generate { program := p, strategy := g } f).2 = .error e ↔
      ∃ cause, Scope.firstOffence? ⟨p, f⟩ = some cause ∧ e = ⟨f.name, cause⟩) ∧
    ∀ before a after, Scope.lower ⟨p, f⟩ = before ++ a :: after → a.isUpkeep = true →
      ((g.place ⟨p, f⟩).emission ((g.place ⟨p, f⟩).nexts {} before) a).failure = none := by
  have hlower := Scope.failsWith_lower (s := ⟨p, f⟩) (d.built_of_build hf)
  have hsound := g.sound_place ⟨p, f⟩
  constructor
  · intro e
    have hrun : (Session.emissionOf { program := p, strategy := g } f).failure =
        Scope.firstOffence? ⟨p, f⟩ :=
      (Placement.failure_run hsound hlower.reads).trans hlower.first
    rw [Session.generate_eq, hrun]
    cases Scope.firstOffence? ⟨p, f⟩ <;> simp [eq_comm]
  · intro before a after hsplit ha
    have hreads : a.ReadsPlaced ⟨p, f⟩ := hlower.reads a (by simp [hsplit])
    exact (Placement.failure_emission (hsound.nexts before) hreads).trans
      (Scope.failure?_of_isUpkeep ha)

/-- The first of two things that are wrong with a function stops it under every strategy. -/
theorem generate_fails_halfway : halfway.build = .ok halfwayFunction ∧ ∀ g : Strategy,
    (Session.generate { program := .ofFunctions [halfwayFunction], strategy := g }
      halfwayFunction).2 = .error ⟨"f", .undeclared "f" "b"⟩ := by
  have hbuild : halfway.build = .ok halfwayFunction := rfl
  refine ⟨hbuild, fun g => ((generate_fails_iff_offence hbuild _ g).1 _).mpr ⟨_, ?_, rfl⟩⟩
  decide +kernel

end MipsBackend
