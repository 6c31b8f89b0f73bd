import MipsBackend.Proofs.BlockLiveness
import MipsBackend.Proofs.Calls
import MipsBackend.Proofs.Reading
import MipsBackend.Proofs.Transfers

/-! Code that keeps the most used variables of a block in registers inside of the block has the
same effect on memory as code with all variables in memory, as far as memory matters later. -/
namespace MipsBackend
open Asm Asm.Register Machine

/-! ### Working sets -/

lemma rankOne_perm (e : String × Nat) (es : List (String × Nat)) :
    (rankOne e es).Perm (e :: es) := by
  induction es with
  | nil => exact .refl _
  | cons x xs ih =>
    rw [rankOne]
    split
    · exact .refl _
    · exact (ih.cons x).trans (.swap e x xs)

lemma rank_perm (es : List (String × Nat)) : (rank es).Perm es := by
  induction es with
  | nil => exact .refl _
  | cons e es ih => exact (rankOne_perm e (rank es)).trans (ih.cons e)

namespace Scope
variable {s : Scope} {k n : Nat} {b : Block} {u v : String}

lemma nodup_workingSet : (s.workingSet k b).Nodup := by
  refine List.Nodup.sublist (List.take_sublist _ _) ?_
  refine (((rank_perm _).map Prod.fst).nodup_iff).mpr ?_
  refine List.Nodup.sublist (List.filter_sublist.map Prod.fst) ?_
  exact (s.function.useCounts b).keys.nodup_toList

lemma isCacheable_of_mem_workingSet (h : v ∈ s.workingSet k b) : s.isCacheable v = true := by
  obtain ⟨e, he, rfl⟩ := List.mem_map.mp (List.mem_of_mem_take h)
  exact (List.mem_filter.mp ((rank_perm _).mem_iff.mp he)).2

lemma isGlobal_of_mem_workingSet (h : v ∈ s.workingSet k b) : s.program.isGlobal v = false := by
  have hcache := isCacheable_of_mem_workingSet h
  simp only [isCacheable, Bool.and_eq_true, Bool.not_eq_true'] at hcache
  exact hcache.1.2

/-- The registers of the variables of a block. -/
def blockRegisters (s : Scope) (k : Nat) (b : Block) : NameMap Nat :=
  OrdMap.ofList (s.workingSet k b).zipIdx

lemma get?_blockRegisters :
    (s.blockRegisters k b).get? v = some n ↔ (v, n) ∈ (s.workingSet k b).zipIdx := by
  apply OrdMap.get?_ofList_eq_some_iff
  rw [List.zipIdx_map_fst]
  exact nodup_workingSet

lemma blockRegisters_injective (hu : (s.blockRegisters k b).get? u = some n)
    (hv : (s.blockRegisters k b).get? v = some n) : u = v := by
  have hu := List.mem_zipIdx_iff_getElem?.mp (get?_blockRegisters.mp hu)
  have hv := List.mem_zipIdx_iff_getElem?.mp (get?_blockRegisters.mp hv)
  exact Option.some.inj (hu.symm.trans hv)

lemma isCacheable_of_blockRegisters (h : (s.blockRegisters k b).get? v = some n) :
    s.isCacheable v = true := by
  have h := List.mem_zipIdx_iff_getElem?.mp (get?_blockRegisters.mp h)
  exact isCacheable_of_mem_workingSet (List.mem_of_getElem? h)

end Scope

/-- Whether an action stays inside of a block. -/
def Action.isInner : Action → Bool
  | .enterBlock _ | .exitBlock _ => false
  | _ => true

lemma isInner_of_mem_lowerInstruction {s : Scope} {n : Nat} {i : Instruction} {a : Action}
    (hi : i.isScalar = true) (ht : i.isTerminal = false) (ha : a ∈ s.lowerInstruction n i) :
    a.isInner = true := by
  have hplain : ∀ x r r', ∀ a ∈ (s.plainSource x r r').actions, a.isInner = true := by
    intro x r r'
    unfold Scope.plainSource
    split_ifs <;> simp [Source.var, Source.literal, Action.isInner]
  have hleft : ∀ x, ∀ a ∈ (s.leftSource x).actions, a.isInner = true := by
    intro x
    unfold Scope.leftSource
    split_ifs <;> simp [Source.var, Source.loaded, Action.line, Action.isInner]
  have hright : ∀ x, ∀ a ∈ (s.rightSource x).actions, a.isInner = true := by
    intro x
    unfold Scope.rightSource
    split_ifs <;> simp [Source.var, Source.loaded, Source.literal, Action.line, Action.isInner]
  obtain ⟨op, x, z, u, label⟩ := i
  cases op with
  | assign =>
    have hu : u = "" := by simpa [Instruction.isScalar] using hi
    simp only [Scope.lowerInstruction, hu, if_true, Scope.lowerAssign, List.mem_append,
      List.mem_singleton] at ha
    rcases ha with ha | rfl
    · exact hplain _ _ _ a ha
    · rfl
  | arith op =>
    simp only [Scope.lowerInstruction, Scope.lowerArith, List.mem_append,
      List.mem_singleton] at ha
    rcases ha with (ha | ha) | rfl
    · exact hleft _ a ha
    · exact hright _ a ha
    · rfl
  | goto | branch | ret | call | callr => simp [Instruction.isTerminal] at ht
  | arrayStore | arrayLoad | other => simp [Instruction.isScalar] at hi

/-- Variables are in registers inside of blocks only. -/
def Placement.PerBlock (q : Placement) (k : Nat) : Prop :=
  q.plan = .perBlock k q.function.blockLiveness

/-- Inside of a block, which has not been committed yet. -/
structure Placement.InBlock (q : Placement) (k : Nat) (b : Block) (c : Cache) : Prop where
  assigned : ∀ v, c.assigned.get? v = (q.blockRegisters k b).get? v
  committed : c.committed = false

section
variable {q : Placement} {k n : Nat} {b : Block} {c : Cache} {V : Type}
  {m : Machine q.program V} {y : Nat → Register → V} {W : List Register} {F : Prop}
  {X M : String → Prop} {u v name : String} {i : Instruction}

namespace Placement.PerBlock
variable (hq : q.PerBlock k)
include hq

lemma register?_eq : q.register? c v = c.assigned.get? v := by rw [register?, hq]

lemma target?_of_committed (h : c.committed = true) : q.target? c v = none := by
  simp only [target?, show q.plan = _ from hq, h, if_true]

lemma target?_eq (h : c.committed = false) : q.target? c v = c.assigned.get? v := by
  simp only [target?, show q.plan = _ from hq, h, Bool.false_eq_true, if_false]

lemma sound (hc : q.InBlock k b c) : q.Sound c := by
  intro v n h
  rw [hq.register?_eq, hc.assigned] at h
  have h := Scope.isCacheable_of_blockRegisters h
  simp only [Scope.isCacheable, Bool.and_eq_true, Bool.not_eq_true'] at h
  exact ⟨h.1.1, h.1.2⟩

/-- Writing a variable without a register does not take any register away. -/
lemma inBlock_forget (hc : q.InBlock k b c) : q.InBlock k b (q.forget c v) := by
  unfold forget
  cases ht : q.target? c v with
  | some n => exact hc
  | none =>
    rw [hq.target?_eq hc.committed] at ht
    refine ⟨fun u => ?_, hc.committed⟩
    rw [OrdMap.get?_erase]
    split
    · next h => rw [← hc.assigned, h, ht]
    · exact hc.assigned u

lemma inBlock_nexts {as : List Action} (has : ∀ a ∈ as, a.isInner = true)
    (hc : q.InBlock k b c) : q.InBlock k b (q.nexts c as) := by
  induction as generalizing c with
  | nil => exact hc
  | cons a as ih =>
    refine ih (c := q.next c a) (fun a' ha' => has a' (by simp [ha'])) ?_
    have ha := has a (by simp)
    cases a with
    | enterBlock | exitBlock => exact absurd ha Bool.false_ne_true
    | write | compute => exact hq.inBlock_forget hc
    | read => exact ⟨hc.assigned, hc.committed⟩
    | comment | label | emit | enterFunction | save | restore | fail => exact hc

end Placement.PerBlock

/-! ### Entering, straight code, leaving -/

/-- The variables of `X` on which memory is up to date at position `n` of the block: those without
a register, and those that have not been defined in the block. -/
def Placement.Current (q : Placement) (k : Nat) (b : Block) (X : String → Prop) (n : Nat)
    (u : String) : Prop :=
  X u ∧ (q.blockRegisters k b).get? u = none ∨
    u ∈ q.function.liveness.liveIn b.start ∧ ¬ q.function.DefinedBefore b n u

/-- The runs agree at position `n` of the block on the variables of `X`. -/
structure Placement.Inside (q : Placement) (k : Nat) (b : Block) (F : Prop) (X : String → Prop)
    (n : Nat) (w : Twin V) : Prop where
  agree : Agree q F X (q.Current k b X n) w
  inBlock : q.InBlock k b w.cache

lemma Placement.Inside.mono {X' : String → Prop} {w : Twin V} (h : q.Inside k b F X n w)
    (hX : ∀ u, X' u → X u) : q.Inside k b F X' n w :=
  ⟨h.agree.weaken id hX fun _ hu => hu.imp_left fun ⟨h1, h2⟩ => ⟨hX _ h1, h2⟩, h.inBlock⟩

namespace Placement.PerBlock
variable (hq : q.PerBlock k)
include hq

/-- Entering a block loads its variables. -/
lemma enter_simulates :
    Simulates m y W
      (fun w => Agree q F (fun _ => False) (· ∈ q.function.liveness.liveIn b.start)
        ⟨w.plainCache, {}, w.plain, w.placed⟩)
      [.enterBlock b] (q.Inside k b F (· ∈ q.function.liveness.liveIn b.start) b.start) := by
  apply Simulates.silent
  intro w hA
  have hin : q.InBlock k b (q.next w.cache (.enterBlock b)) := by
    simp only [next, show q.plan = _ from hq]
    exact ⟨fun v => rfl, rfl⟩
  have hreg : ∀ v r, q.register? (q.next w.cache (.enterBlock b)) v = some r ↔
      (v, r) ∈ (q.workingSet k b).zipIdx := by
    intro v r
    rw [hq.register?_eq, hin.assigned]
    exact Scope.get?_blockRegisters
  have hload : ∀ e ∈ (q.workingSet k b).zipIdx, ∀ t : State V, (m.clobbering y).Performs
      ((commentLine ("variable " ++ e.1 ++ " is assigned register " ++ saved e.2)).andThen
        (q.load e.1 (saved e.2))) t [] (t.setReg (saved e.2) (t.mem (q.cell e.1))) := by
    intro e he t
    have haddr := addressable_of_register? (hq.sound hin) ((hreg _ _).mpr he)
    exact (performs_line _).andThen (load_performs haddr _)
  have huniq : ∀ e ∈ (q.workingSet k b).zipIdx, ∀ e' ∈ (q.workingSet k b).zipIdx,
      e.2 = e'.2 → e = e' := by
    intro e he e' he' hn
    have h1 := List.mem_zipIdx_iff_getElem?.mp he
    have h2 := List.mem_zipIdx_iff_getElem?.mp he'
    rw [hn, h2] at h1
    exact Prod.ext (Option.some.inj h1).symm hn
  obtain ⟨t, hp, hA', -⟩ := hA.loads (K := (· ∈ q.function.liveness.liveIn b.start))
    (hq.sound hin) hload huniq fun u hu => ⟨hu, fun r hr => (hreg u r).mp hr⟩
  refine ⟨w.plain, t, performs_nothing, ?_, hA'.weaken id (fun _ h => h) ?_, hin⟩
  · simp only [emission, show q.plan = _ from hq]
    exact (performs_line _).andThen hp
  · rintro u (⟨hu, -⟩ | ⟨hu, -⟩) <;> exact hu

/-- Leaving a block stores what it has defined and what is needed later. -/
lemma exit_simulates
    (hM : ∀ u, M u → X u ∧ u ∈ q.function.blockLiveness.liveOut b.id ∧
      (q.function.DefinedBefore b n u → u ∈ q.function.blockLiveness.defs b.id) ∧
      (q.function.DefinedBefore b n u ∨ u ∈ q.function.liveness.liveIn b.start)) :
    Simulates m y W (q.Inside k b F X n) [.exitBlock b]
      (fun w => Agree q F X M w ∧ w.cache.committed = true) := by
  apply Simulates.silent
  rintro w ⟨hA, hin⟩
  have hes : ∀ e ∈ writeBacks q.function.blockLiveness w.cache b,
      q.register? w.cache e.1 = some e.2 := by
    intro e he
    rw [hq.register?_eq]
    exact OrdMap.get?_eq_some_iff.mpr (List.mem_filter.mp he).1
  obtain ⟨t, hp, hA', -⟩ := hA.stores (m := m) (y := y) hes
  refine ⟨w.plain, t, performs_nothing, ?_, ?_, rfl⟩
  · simp only [emission, show q.plan = _ from hq]
    exact (performs_line _).andThen (hp.andThen (performs_line _))
  · have hreg : ∀ v, q.register? (q.next w.cache (.exitBlock b)) v = q.register? w.cache v :=
      register?_congr rfl
    have hA'' : Agree q F X _ ⟨q.inMemory.next w.plainCache (.exitBlock b),
        q.next w.cache (.exitBlock b), w.plain, t⟩ :=
      ⟨fun v n h => hA'.sound v n (hreg v ▸ h), hA'.known,
        fun v hv => by rw [home, hreg]; exact hA'.vars v hv, hA'.slots, hA'.globals, hA'.calls,
        hA'.float⟩
    refine hA''.weaken id (fun _ h => h) fun u hu => ?_
    obtain ⟨hX, hlive, hdefs, horigin⟩ := hM u hu
    by_cases hstored : ∃ n, (u, n) ∈ writeBacks q.function.blockLiveness w.cache b
    · exact Or.inl ⟨hstored, hX⟩
    · refine Or.inr ⟨fun n hn => hstored ⟨n, hn⟩, ?_⟩
      cases hr : (q.blockRegisters k b).get? u with
      | none => exact Or.inl ⟨hX, hr⟩
      | some r =>
        -- it has a register and is not stored, so the block has not defined it
        have hnot : ¬ q.function.DefinedBefore b n u := by
          intro hd
          refine hstored ⟨r, List.mem_filter.mpr ⟨OrdMap.get?_eq_some_iff.mp ?_, ?_⟩⟩
          · rw [hin.assigned, hr]
          · simpa using ⟨hdefs hd, hlive⟩
        exact Or.inr ⟨horigin.resolve_left hnot, hnot⟩

/-- The destination of an instruction has a register of its own. -/
lemma updates (hc : q.InBlock k b c) (hi : q.function.code[n]? = some i) (hs : q.Scalar i)
    (hn : b.start ≤ n) (hname : q.function.isVar "" = false) :
    Updates q c i.dest? (· ∈ q.function.liveness.liveIn n) (· ∈ q.function.liveness.liveOut n)
      (q.Current k b (· ∈ q.function.liveness.liveIn n) n)
      (q.Current k b (· ∈ q.function.liveness.liveOut n) (n + 1)) := by
  refine ⟨fun u hu => ?_, fun u hu => ?_⟩
  · by_cases hd : i.dest? = some u
    · exact Or.inl hd
    · refine Or.inr ⟨Function.mem_liveIn_of_dest? hi hs.isScalar hu hd, fun d hdest => ?_⟩
      have hud : u ≠ d := fun h => hd (h ▸ hdest)
      refine home_ne_dest (Or.inl (Function.isVar_of_mem_liveOut hu)) (hs.dest d hdest) hud
        fun r hr h => hud ?_
      rw [hq.target?_eq hc.committed, hc.assigned] at hr
      rw [hq.register?_eq, hc.assigned] at h
      exact Scope.blockRegisters_injective h hr
  · rcases hu with ⟨hu, hr⟩ | ⟨hu, hnot⟩
    · by_cases hd : i.dest? = some u
      · exact Or.inl ⟨hd, by rw [hq.target?_eq hc.committed, hc.assigned, hr]⟩
      · exact Or.inr ⟨hd, Or.inl ⟨Function.mem_liveIn_of_dest? hi hs.isScalar hu hd, hr⟩⟩
    · refine Or.inr ⟨fun hd => hnot ⟨n, hn, by omega, ?_⟩, Or.inr ⟨hu, ?_⟩⟩
      · exact Function.mem_defs_of_dest? hi hd hname (Function.isVar_of_mem_liveIn hu)
      · rintro ⟨j, h1, h2, h3⟩
        exact hnot ⟨j, h1, by omega, h3⟩

/-- An instruction that does not end the block. -/
lemma step_simulates (hi : q.function.code[n]? = some i) (hs : q.Scalar i)
    (ht : i.isTerminal = false) (hn : b.start ≤ n) (hname : q.function.isVar "" = false) :
    Simulates m y W (q.Inside k b F (· ∈ q.function.liveness.liveIn n) n)
      (q.lowerInstruction n i)
      (q.Inside k b F (· ∈ q.function.liveness.liveOut n) (n + 1)) := by
  have hcall : i.isCall = false ∧ q.readsStaleFloat i = false := by
    obtain ⟨op, x, z, u, label⟩ := i
    cases op <;> simp_all [Instruction.isTerminal, Instruction.isCall, Scope.readsStaleFloat]
  rintro w ⟨hA, hin⟩
  obtain ⟨s, t, os, os', h1, h2, h3, h4⟩ := instruction_simulates (m := m) (y := y) (W := W)
    (F := F) (n := n) (K := (· ∈ q.function.liveness.liveIn n)) hs (by simp [ht]) hname
    (fun v hv => Function.mem_liveIn_of_useVars hi hv)
    (fun _ h => h) (by simp [hcall.2]) (by simp [hcall.1]) w ⟨hA, hq.updates hin hi hs hn hname⟩
  exact ⟨s, t, os, os', h1, h2, h3, h4,
    hq.inBlock_nexts (fun a => isInner_of_mem_lowerInstruction hs.isScalar ht) hin⟩

/-- The instruction that ends the block, after the block has been left. -/
lemma terminal_simulates (hi : q.function.code[n]? = some i) (hs : q.Scalar i)
    (hname : q.function.isVar "" = false) (hF : q.readsStaleFloat i = true → F) :
    Simulates m y (q.handedOver i)
      (fun w => Agree q F (· ∈ q.function.liveness.liveIn n)
        (fun u => u ∈ q.function.liveness.liveOut n ∧ i.dest? ≠ some u) w ∧
        w.cache.committed = true)
      (q.lowerInstruction n i)
      (Agree q F (fun _ => False) (· ∈ q.function.liveness.liveOut n)) := by
  refine (instruction_simulates (K := fun _ => False) hs (fun _ => rfl) hname
    (fun v hv => Function.mem_liveIn_of_useVars hi hv)
    (fun _ h => h.elim) hF fun _ name => ?_).pre
    fun w hw => ⟨hw.1, fun _ h => h.elim, fun u hu => ?_⟩
  · -- nothing is saved or restored around a call
    have hnone : ∀ (P : Twin V → Prop) (a : Action), a = .save n ∨ a = .restore n →
        Simulates m y (q.handedOver i) P [a] P := by
      rintro P a (rfl | rfl) <;> refine .silent fun w hw => ⟨w.plain, w.placed, ?_, ?_, hw⟩
      · exact performs_nothing
      · simp only [emission, show q.plan = _ from hq]
        exact performs_nothing
      · exact performs_nothing
      · simp only [emission, show q.plan = _ from hq]
        exact performs_nothing
    refine (hnone _ _ (Or.inl rfl)).cons ((jal_simulates fun w w' hc hU => ?_).cons
      (hnone _ _ (Or.inr rfl)))
    rwa [hc]
  · by_cases hd : i.dest? = some u
    · exact Or.inl ⟨hd, hq.target?_of_committed hw.2⟩
    · exact Or.inr ⟨hd, hu, hd⟩

/-- Instructions that do not end the block, one after the other. -/
lemma straight_simulates (hf : q.function.WellFormed) (hb : b ∈ q.function.blocks)
    {l : List Instruction}
    (hl : ∀ j i, l[j]? = some i →
      q.function.code[n + j]? = some i ∧ q.Scalar i ∧ i.isTerminal = false)
    (hn : b.start ≤ n) (hstop : n + l.length < b.stop) :
    Simulates m y W (q.Inside k b F (· ∈ q.function.liveness.liveIn n) n)
      (((List.range' n l.length).zip l).flatMap fun (j, i) =>
        (if i.isTerminal then [.exitBlock b] else []) ++ q.lowerInstruction j i)
      (q.Inside k b F (· ∈ q.function.liveness.liveIn (n + l.length)) (n + l.length)) := by
  induction l generalizing n with
  | nil => exact .nil fun _ h => h
  | cons i l ih =>
    obtain ⟨hi, hs, ht⟩ := hl 0 i rfl
    have hlen : n + (i :: l).length = n + 1 + l.length := by
      rw [List.length_cons]
      omega
    have hnext : q.function.Next n (n + 1) :=
      ⟨b, hb, ⟨hn, by omega⟩, Or.inl ⟨by omega, rfl⟩⟩
    have hstep : Simulates m y W (q.Inside k b F (· ∈ q.function.liveness.liveIn n) n)
        (q.lowerInstruction n i)
        (q.Inside k b F (· ∈ q.function.liveness.liveIn (n + 1)) (n + 1)) :=
      (hq.step_simulates hi hs ht hn hf.named).post
        fun w h => h.mono fun u hu => hf.built.mem_liveOut_of_next hnext hu
    have hrest : ∀ j i', l[j]? = some i' → q.function.code[n + 1 + j]? = some i' ∧ q.Scalar i' ∧
        i'.isTerminal = false := by
      intro j i' hj
      have := hl (j + 1) i' (by simpa using hj)
      rwa [show n + (j + 1) = n + 1 + j by omega] at this
    have ih := ih hrest (by omega) (by omega)
    rw [hlen, List.length_cons, List.range'_succ, List.zip_cons_cons, List.flatMap_cons]
    simp only [ht, Bool.false_eq_true, if_false, List.nil_append]
    exact hstep.append ih

omit hq in
lemma label_simulates {P : Twin V → Prop} : Simulates m y W P (q.lowerLabel b) P := by
  unfold Scope.lowerLabel
  split
  · split
    · exact .nil fun _ h => h
    · exact .silent fun w hw => ⟨w.plain, w.placed, performs_line _, performs_line _, hw⟩
  · exact .nil fun _ h => h

/-- What follows the straight code of a block, if its last instruction is terminal. -/
lemma terminal_end (hf : q.function.WellFormed) (hb : b ∈ q.function.blocks)
    (hn : b.stop = n + 1) (hi : q.function.code[n]? = some i) (hs : q.Scalar i)
    (hF : q.readsStaleFloat i = true → F) :
    Simulates m y (q.handedOver i) (q.Inside k b F (· ∈ q.function.liveness.liveIn n) n)
      (.exitBlock b :: q.lowerInstruction n i)
      (Agree q F (fun _ => False) (· ∈ q.function.liveness.liveOut n)) := by
  have hlast : b.Contains n := by
    have := hf.built.last_contains hb
    rwa [hn] at this
  refine (hq.exit_simulates fun u hu => ?_).cons (hq.terminal_simulates hi hs hf.named hF)
  have hin := Function.mem_liveIn_of_dest? hi hs.isScalar hu.1 hu.2
  refine ⟨hin, hf.built.mem_blockLiveOut hb (by rw [hn]; exact hu.1), ?_,
    hf.built.definedBefore_or_liveIn hb hlast hin⟩
  rintro ⟨j, h1, h2, h3⟩
  exact (hf.built.mem_blockDefs hb).mpr ⟨j, ⟨h1, by omega⟩, h3⟩

/-- What follows it otherwise. -/
lemma fallthrough_end (hf : q.function.WellFormed) (hb : b ∈ q.function.blocks)
    (hn : b.stop = n + 1) (hi : q.function.code[n]? = some i) (hs : q.Scalar i)
    (ht : i.isTerminal = false) :
    Simulates m y W (q.Inside k b F (· ∈ q.function.liveness.liveIn n) n)
      (q.lowerInstruction n i ++ [.exitBlock b])
      (Agree q F (fun _ => False) (· ∈ q.function.liveness.liveOut n)) := by
  have hlast : b.Contains n := by
    have := hf.built.last_contains hb
    rwa [hn] at this
  have hexit : Simulates m y W (q.Inside k b F (· ∈ q.function.liveness.liveOut n) (n + 1))
      [.exitBlock b] (fun w => Agree q F (· ∈ q.function.liveness.liveOut n)
        (· ∈ q.function.liveness.liveOut n) w ∧ w.cache.committed = true) := by
    refine hq.exit_simulates fun u hu =>
      ⟨hu, hf.built.mem_blockLiveOut hb (by rw [hn]; exact hu), ?_, ?_⟩
    · rintro ⟨j, h1, h2, h3⟩
      exact (hf.built.mem_blockDefs hb).mpr ⟨j, ⟨h1, by omega⟩, h3⟩
    · by_cases hd : u ∈ q.function.liveness.defs n
      · exact Or.inl ⟨n, hlast.1, by omega, hd⟩
      · have hin := Function.mem_liveIn.mpr (Or.inr ⟨hu, hd⟩)
        refine (hf.built.definedBefore_or_liveIn hb hlast hin).imp_left ?_
        rintro ⟨j, h1, h2, h3⟩
        exact ⟨j, h1, by omega, h3⟩
  refine (hq.step_simulates hi hs ht hlast.1 hf.named).append (hexit.post ?_)
  rintro w ⟨hA, -⟩
  exact hA.weaken id (fun _ h => h.elim) fun _ h => h

/-- A whole block: from agreement of memory on what is live before it to agreement on what is live
after it. -/
lemma block_simulates (hf : q.function.WellFormed) (hb : b ∈ q.function.blocks)
    (hcode : ∀ i ∈ b.body, q.Scalar i) (hF : ∀ i ∈ b.body, q.readsStaleFloat i = true → F) :
    Simulates m y (b.last?.elim [] q.handedOver)
      (fun w => Agree q F (fun _ => False) (· ∈ q.function.liveness.liveIn b.start)
        ⟨w.plainCache, {}, w.plain, w.placed⟩)
      (q.lowerBlock b)
      (Agree q F (fun _ => False) (· ∈ q.function.liveness.liveOut (b.stop - 1))) := by
  obtain ⟨l, i, hbody⟩ : ∃ l i, b.body = l ++ [i] :=
    ⟨_, _, (List.dropLast_append_getLast (hf.built.tiles.body_ne_nil hb)).symm⟩
  have hstop : b.stop = b.start + l.length + 1 := by
    rw [Block.stop, hbody, List.length_append, List.length_singleton]
    omega
  have hlast : b.last? = some i := by rw [Block.last?, hbody, List.getLast?_concat]
  have hpositioned : b.positioned =
      (List.range' b.start l.length).zip l ++ [(b.start + l.length, i)] := by
    rw [Block.positioned, hbody, List.length_append, List.length_singleton, List.range'_concat,
      List.zip_append (by simp)]
    simp
  have hpos : ∀ j i', b.body[j]? = some i' → q.function.code[b.start + j]? = some i' := by
    intro j i' hj
    have hc : b.Contains (b.start + j) := by
      have := (List.getElem?_eq_some_iff.mp hj).1
      rw [Block.Contains, Block.stop]
      omega
    rw [hf.built.getElem?_code hb hc, Nat.add_sub_cancel_left, hj]
  have hi : q.function.code[b.start + l.length]? = some i := hpos _ _ (by simp [hbody])
  have hs : q.Scalar i := hcode i (by simp [hbody])
  have hl : ∀ j i', l[j]? = some i' → q.function.code[b.start + j]? = some i' ∧ q.Scalar i' ∧
      i'.isTerminal = false := by
    intro j i' hj
    have hmem := List.mem_of_getElem? hj
    refine ⟨hpos j i' ?_, hcode i' (by simp [hbody, hmem]), hf.built.terminal b hb i' ?_⟩
    · rw [hbody, List.getElem?_append_left (List.getElem?_eq_some_iff.mp hj).1, hj]
    · rwa [hbody, List.dropLast_concat]
  have hstraight := hq.straight_simulates (m := m) (y := y) (W := b.last?.elim [] q.handedOver)
    (F := F) hf hb hl (Nat.le_refl _) (by omega)
  have hn : b.stop - 1 = b.start + l.length := by omega
  rw [hlast] at hstraight
  rw [Scope.lowerBlock, hpositioned, List.flatMap_append, hlast, hn]
  simp only [List.flatMap_cons, List.flatMap_nil, List.append_nil, Option.any_some,
    List.append_assoc, List.cons_append]
  refine label_simulates.append (hq.enter_simulates.cons (hstraight.append ?_))
  by_cases ht : i.isTerminal = true
  · rw [if_pos ht, if_pos ht, List.append_nil, List.singleton_append]
    exact hq.terminal_end hf hb hstop hi hs (hF i (by simp [hbody]))
  · rw [if_neg ht, if_neg ht, List.nil_append]
    exact hq.fallthrough_end hf hb hstop hi hs (by simpa using ht)

end Placement.PerBlock
end

/-! ### The simulation -/

lemma Strategy.perBlock_of_ofScheme {k : Int} {g : Strategy} (h : ofScheme .intra k = .ok g)
    (s : Scope) : (g.place s).PerBlock k.toNat := by
  rw [ofScheme] at h
  split at h
  · cases h
  · cases h
    rfl

/-- The runs agree in memory: on the cells of live variables and on all globals. -/
structure Scope.MemoryAgrees {V : Type} (s : Scope) (live : NameSet) (plain placed : State V) :
    Prop where
  slots : ∀ v ∈ live, placed.mem (s.cell v) = plain.mem (s.cell v)
  globals : ∀ v, s.program.isGlobal v = true → placed.mem v = plain.mem v
  calls : placed.calls = plain.calls

/-- Code that keeps variables of a block in registers simulates code with all variables in memory.
If the memories agree on what is live before a block without array accesses, neither run fails,
the memories agree on what is live after it, and control leaves alike: to the same place, after
the same comparison, with the same values passed or returned. Registers need not agree, and calls
may leave in them whatever they like; only a printing call that is asked for a float result reads
`$f0` as it was before. -/
theorem perBlock_simulates_memory {V : Type} {text : String} {p : Program} {f : Function}
    {k : Int} {g : Strategy} (hp : (readProgram text).result = .ok p) (hf : f ∈ p.functions)
    (hk : Strategy.ofScheme .intra k = .ok g) (m : Machine p V) (y : Nat → Register → V)
    (c c' : Cache) {b : Block} (hb : b ∈ f.blocks)
    (hcode : ∀ i ∈ b.body, Scope.Scalar ⟨p, f⟩ i) {s t : State V}
    (hstart : Scope.MemoryAgrees ⟨p, f⟩ (f.liveness.liveIn b.start) s t)
    (hfloat : ∀ i ∈ b.body, Scope.readsStaleFloat ⟨p, f⟩ i = true → s.regs f0 = t.regs f0) :
    ∃ s' t' os os',
      m.Performs ((Strategy.memory.place ⟨p, f⟩).run c (Scope.lowerBlock ⟨p, f⟩ b)) s os s' ∧
      (m.clobbering y).Performs ((g.place ⟨p, f⟩).run c' (Scope.lowerBlock ⟨p, f⟩ b)) t os' t' ∧
      List.Forall₂ (Observation.Matches (b.last?.elim [] (Scope.handedOver ⟨p, f⟩))) os os' ∧
      Scope.MemoryAgrees ⟨p, f⟩ (f.liveness.liveOut (b.stop - 1)) s' t' := by
  have hwf := wellFormed_of_readProgram hp hf
  have hq := Strategy.perBlock_of_ofScheme hk ⟨p, f⟩
  have hA : Agree (g.place ⟨p, f⟩) (∃ i ∈ b.body, Scope.readsStaleFloat ⟨p, f⟩ i = true)
      (fun _ => False) (· ∈ f.liveness.liveIn b.start) ⟨c, {}, s, t⟩ := by
    refine ⟨fun v n h => ?_, ?_, fun _ h => h.elim, hstart.slots, hstart.globals, hstart.calls, ?_⟩
    · rw [hq.register?_eq] at h
      cases h
    · rintro v (hv | hv)
      · exact hv.elim
      · exact Or.inl (Function.isVar_of_mem_liveIn hv)
    · rintro ⟨i, hi, hstale⟩
      exact hfloat i hi hstale
  obtain ⟨s', t', os, os', h1, h2, h3, h4⟩ := hq.block_simulates (m := m) (y := y) hwf hb hcode
    (fun i hi hstale => ⟨i, hi, hstale⟩) ⟨c, c', s, t⟩ hA
  exact ⟨s', t', os, os', h1, h2, h3, h4.slots, h4.globals, h4.calls⟩

/-- The blocks of the loop: its call, its subtraction and branch, and the return after it. -/
theorem perBlock_simulates_countdown :
    (readProgram countdownText).result = .ok countdownProgram ∧
    countdownFunction.blocks.length = 3 ∧
    ∀ (m : Machine countdownProgram Int) (y : Nat → Register → Int) (c c' : Cache),
      ∀ b ∈ countdownFunction.blocks, ∃ s' t' os os',
        m.Performs ((Strategy.memory.place countdownScope).run c (countdownScope.lowerBlock b))
          ⟨fun _ => 5, fun _ => 7, 0⟩ os s' ∧
        (m.clobbering y).Performs (((Strategy.perBlock 8).place countdownScope).run c'
          (countdownScope.lowerBlock b)) ⟨fun _ => 6, fun _ => 7, 0⟩ os' t' ∧
        List.Forall₂ (Observation.Matches (b.last?.elim [] countdownScope.handedOver)) os os' ∧
        countdownScope.MemoryAgrees (countdownFunction.liveness.liveOut (b.stop - 1)) s' t' := by
  have hscalar : ∀ b ∈ countdownFunction.blocks, ∀ i ∈ b.body,
      countdownScope.Scalar i ∧ countdownScope.readsStaleFloat i = false := by decide +kernel
  refine ⟨readProgram_countdown, by decide +kernel, fun m y c c' b hb => ?_⟩
  refine perBlock_simulates_memory readProgram_countdown mem_countdownProgram (k := 8) rfl m y c c'
    hb (fun i hi => (hscalar b hb i hi).1) ⟨fun _ _ => rfl, fun _ _ => rfl, rfl⟩ ?_
  intro i hi hstale
  rw [(hscalar b hb i hi).2] at hstale
  cases hstale

/-- A float result of printing: the memories agree before the block, and differ after it at `x`,
which is live there, since the registers `$f0` differed. -/
theorem perBlock_diverges_on_stale_float :
    (readProgram echoText).result = .ok echoProgram ∧
    Strategy.ofScheme .intra 8 = .ok (.perBlock 8) ∧
    ∃ b ∈ echoFunction.blocks, (∀ i ∈ b.body, echoScope.Scalar i) ∧
      ∀ (m : Machine echoProgram Int) (y : Nat → Register → Int),
        echoScope.MemoryAgrees (echoFunction.liveness.liveIn b.start)
          (⟨fun _ => 0, fun _ => 0, 0⟩ : State Int) ⟨fun _ => 1, fun _ => 0, 0⟩ ∧
        ∃ s t os os',
          m.Performs ((Strategy.memory.place echoScope).run {} (echoScope.lowerBlock b))
            ⟨fun _ => 0, fun _ => 0, 0⟩ os s ∧
          (m.clobbering y).Performs
            (((Strategy.perBlock 8).place echoScope).run {} (echoScope.lowerBlock b))
            ⟨fun _ => 1, fun _ => 0, 0⟩ os' t ∧
          ¬ echoScope.MemoryAgrees (echoFunction.liveness.liveOut (b.stop - 1)) s t := by
  have hlower : ∃ b ∈ echoFunction.blocks, (∀ i ∈ b.body, echoScope.Scalar i) ∧
      "x" ∈ echoFunction.liveness.liveOut (b.stop - 1) ∧
      (Strategy.memory.place echoScope).run {} (echoScope.lowerBlock b) =
        ⟨printToFloat "1" "x" (stackSlot 0), none⟩ ∧
      ((Strategy.perBlock 8).place echoScope).run {} (echoScope.lowerBlock b) =
        ⟨[.comment "start of block - loading into registers", .comment "begin spilling",
          .comment "end of block"] ++ printToFloat "1" "x" (stackSlot 0), none⟩ := by
    decide +kernel
  have hcell : echoScope.cell "x" = stackSlot 0 := by decide +kernel
  obtain ⟨b, hb, hscalar, hafter, hplain, hplaced⟩ := hlower
  refine ⟨readProgram_echo, rfl, b, hb, hscalar, fun m y =>
    ⟨⟨fun _ _ => rfl, fun _ _ => rfl, rfl⟩, ?_⟩⟩
  rw [hplain, hplaced]
  refine ⟨_, _, _, _, ⟨rfl, rfl, rfl⟩, ⟨rfl, rfl, rfl⟩, fun hagree => ?_⟩
  have hx := hagree.slots "x" hafter
  rw [hcell, run_append, mem_run_printToFloat, mem_run_printToFloat] at hx
  exact absurd (show (1 : Int) = 0 from hx) (by decide)

end MipsBackend
