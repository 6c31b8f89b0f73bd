import MipsBackend.Proofs.Accesses
import MipsBackend.Proofs.Frame

/-! All lines of a function. A property of lines that can be told from the action that emits them
holds of all lines if it holds of all actions. Operands are read for the sake of scratch registers,
and the register that is held for one is of the same kind, a float register for a float. -/
namespace MipsBackend
open Asm Asm.Register

/-- Registers for floats are known by their names. -/
def Asm.isFloatRegister (s : String) : Bool := (Text.afterStart? ['$', 'f'] s.toList).isSome

@[simp] lemma isFloatRegister_saved (n : Nat) : isFloatRegister (saved n) = false := by
  rw [isFloatRegister, toList_saved, Option.isSome_eq_false_iff, Option.isNone_iff_eq_none]
  rfl

/-- The scratch registers that operands are read for. -/
def operandScratch : List Register := [t0, t1, t2, f0, f2]

lemma isRegister_of_mem_operandScratch : ∀ r ∈ operandScratch, isRegister r = true := by decide

/-- What is held for a scratch register is a register of its kind. -/
def Cache.Faithful (c : Cache) : Prop :=
  ∀ r ∈ operandScratch, isRegister (c.register r) = true ∧
    isFloatRegister (c.register r) = isFloatRegister r

namespace Cache.Faithful
variable {c d : Cache}

lemma empty : Faithful {} := fun r hr => ⟨isRegister_of_mem_operandScratch r hr, rfl⟩

lemma congr (h : c.Faithful) (hd : d.held = c.held) : d.Faithful := by
  simpa only [Faithful, register, hd] using h

end Cache.Faithful

/-- Operands are taken from scratch registers for operands, and no integer is read for the sake of
a float register, unless it has the property `X` and is to be printed as a float. -/
structure Action.Tame (s : Scope) (X : String → Prop) (a : Action) : Prop where
  refersTo : ∀ r ∈ a.refersTo, r ∈ operandScratch
  read : ∀ v r, a = .read v r → isRegister r = true ∧
    (isFloatRegister r = true → s.isIntVar v = false ∨ r = f12 ∧ X v)

/-- A comment, or a line that moves a saved register to memory or back. -/
def Asm.Line.IsUpkeep (l : Line) : Prop :=
  (∃ text, l = .comment text) ∨
    ∃ op ∈ ["lw", "sw"], ∃ n : Nat, ∃ x note, l = .instr op [saved n, x] note

namespace Placement
variable {q : Placement} {c : Cache} {X : String → Prop} {a : Action} {as : List Action}
  {v r : String}

lemma register_read (v r r' : String) : (q.next c (.read v r)).register r' =
    if r' = r then q.answer c v r else c.register r' := by
  simp only [next, Cache.register, OrdMap.getD, OrdMap.get?_insert]
  split <;> rfl

lemma held_forget : (q.forget c v).held = c.held := by
  unfold forget
  split <;> rfl

/-- Only integers have registers of their own, so a float is found in the scratch register. -/
lemma answer_kind (hc : q.Sound c) (ha : (Action.read v r).Tame q.toScope X)
    (hr : r ∈ operandScratch) : isRegister (q.answer c v r) = true ∧
      isFloatRegister (q.answer c v r) = isFloatRegister r := by
  have hscratch := isRegister_of_mem_operandScratch r hr
  unfold answer
  cases hv : q.register? c v with
  | none => exact ⟨hscratch, rfl⟩
  | some n =>
    dsimp only
    split
    · exact ⟨hscratch, rfl⟩
    · refine ⟨isRegister_saved n, ?_⟩
      rw [isFloatRegister_saved, eq_comm, Bool.eq_false_iff]
      intro hfloat
      rcases (ha.read v r rfl).2 hfloat with hint | ⟨rfl, -⟩
      · rw [Scope.isIntVar, (hc v n hv).1, Bool.true_or] at hint
        cases hint
      · revert hr
        decide

lemma faithful_next (hc : q.Sound c) (h : c.Faithful) (ha : a.Tame q.toScope X) :
    (q.next c a).Faithful := by
  cases a with
  | read v r =>
    intro r' hr'
    rw [register_read]
    split
    case isFalse => exact h r' hr'
    case isTrue he =>
      subst he
      exact answer_kind hc ha hr'
  | enterBlock b =>
    refine h.congr ?_
    unfold next
    dsimp only
    split <;> rfl
  | exitBlock b => exact h.congr rfl
  | write src v => exact h.congr held_forget
  | compute op v x y => exact h.congr held_forget
  | comment | label | emit | enterFunction | save | restore | fail => exact h

/-- What operands stand for: a literal for itself, what is held for a register. -/
lemma isFloatRegister_resolve (h : c.Faithful) {o : Operand}
    (ho : ∀ r ∈ o.scratch?, r ∈ operandScratch) :
    (∃ x, o = .text x ∧ c.resolve o = x) ∨ ∃ r ∈ operandScratch, o = .held r ∧
      isRegister (c.resolve o) = true ∧ isFloatRegister (c.resolve o) = isFloatRegister r := by
  cases o with
  | text x => exact Or.inl ⟨x, rfl, rfl⟩
  | held r =>
    have hr := ho r rfl
    exact Or.inr ⟨r, hr, rfl, h r hr⟩

/-- A property of lines holds of all lines of a run, if it can be told from the actions. -/
lemma forall_mem_run_iff {P : Line → Prop} {Q : Action → Prop}
    (hQ : ∀ c a, q.Sound c → c.Faithful → a.Tame q.toScope X → (q.emission c a).failure = none →
      ((∀ l ∈ (q.emission c a).lines, P l) ↔ Q a))
    (hc : q.Sound c) (hheld : c.Faithful) (htame : ∀ a ∈ as, a.Tame q.toScope X)
    (hs : (q.run c as).failure = none) :
    (∀ l ∈ (q.run c as).lines, P l) ↔ ∀ a ∈ as, Q a := by
  induction as generalizing c with
  | nil => simp [run, Emission.nothing]
  | cons a as ih =>
    obtain ⟨ha, has⟩ := Emission.failure_andThen.mp hs
    have hfirst := hQ c a hc hheld (htame a (by simp)) ha
    have hrest := ih (hc.next a) (faithful_next hc hheld (htame a (by simp)))
      (fun b hb => htame b (by simp [hb])) has
    rw [run, Emission.lines_andThen ha, List.forall_mem_append, hfirst, hrest,
      List.forall_mem_cons]

/-! ### Upkeep -/

lemma isUpkeep_load {n : Nat} {x : String} (h : q.location? v = some ⟨x, false⟩) :
    ∀ l ∈ (q.load v (saved n)).lines, l.IsUpkeep := by
  simp only [Scope.load, h, List.forall_mem_singleton]
  exact Or.inr ⟨"lw", by simp, n, x, _, rfl⟩

lemma isUpkeep_store {n : Nat} {x : String} (h : q.location? v = some ⟨x, false⟩) :
    ∀ l ∈ (q.store (saved n) v).lines, l.IsUpkeep := by
  simp only [Scope.store, h, isRegister_saved, if_true, List.forall_mem_singleton]
  exact Or.inr ⟨"sw", by simp, n, x, _, rfl⟩

lemma isUpkeep_commentLine (text : String) : ∀ l ∈ (commentLine text).lines, l.IsUpkeep :=
  List.forall_mem_singleton.mpr (Or.inl ⟨text, rfl⟩)

lemma isUpkeep_storeAll (hc : q.Sound c) {es : List (String × Nat)}
    (hes : ∀ e ∈ es, q.register? c e.1 = some e.2) : ∀ l ∈ (q.storeAll es).lines, l.IsUpkeep := by
  refine Emission.forall_lines_sequence fun x hx => ?_
  obtain ⟨e, he, rfl⟩ := List.mem_map.mp hx
  exact isUpkeep_store (location?_of_register? hc (hes e he))

lemma isUpkeep_loadAll (hc : q.Sound c) {es : List (String × Nat)}
    (hes : ∀ e ∈ es, q.register? c e.1 = some e.2) : ∀ l ∈ (q.loadAll es).lines, l.IsUpkeep := by
  refine Emission.forall_lines_sequence fun x hx => ?_
  obtain ⟨e, he, rfl⟩ := List.mem_map.mp hx
  exact isUpkeep_load (location?_of_register? hc (hes e he))

lemma isUpkeep_loadWorkingSet (k : Nat) (b : Block) :
    ∀ l ∈ (q.loadWorkingSet k b).lines, l.IsUpkeep := by
  refine Emission.forall_lines_andThen (isUpkeep_commentLine _)
    (Emission.forall_lines_sequence fun x hx => ?_)
  obtain ⟨⟨v, n⟩, he, rfl⟩ := List.mem_map.mp hx
  have hv : v ∈ q.workingSet k b := List.fst_mem_of_mem_zipIdx he
  have hcache := Scope.isCacheable_of_mem_workingSet hv
  simp only [Scope.isCacheable, Bool.and_eq_true] at hcache
  exact Emission.forall_lines_andThen (isUpkeep_commentLine _)
    (isUpkeep_load (Scope.location?_of_isInt (Scope.isGlobal_of_mem_workingSet hv) hcache.1.1))

/-- What a placement emits on its own account. -/
lemma isUpkeep_emission (hc : q.Sound c) (ha : a.isUpkeep = true) (hread : a.read? = none) :
    ∀ l ∈ (q.emission c a).lines, l.IsUpkeep := by
  cases a with
  | enterFunction =>
    rw [emission]
    cases q.plan with
    | memory | perBlock => simp [Emission.nothing]
    | perFunction alloc => exact fun l hl => Or.inl (eq_comment_of_mem_announce hl)
  | enterBlock b =>
    rw [emission]
    cases q.plan with
    | memory | perFunction => simp [Emission.nothing]
    | perBlock k live => exact isUpkeep_loadWorkingSet k b
  | exitBlock b =>
    rw [emission]
    cases hp : q.plan with
    | memory | perFunction => simp [Emission.nothing]
    | perBlock k live =>
      exact Emission.forall_lines_andThen (isUpkeep_commentLine _)
        (Emission.forall_lines_andThen (isUpkeep_storeAll hc (register?_of_mem_writeBacks hp))
          (isUpkeep_commentLine _))
  | save n =>
    rw [emission]
    cases hp : q.plan with
    | memory | perBlock => simp [Emission.nothing]
    | perFunction alloc =>
      exact Emission.forall_lines_andThen (isUpkeep_commentLine _)
        (isUpkeep_storeAll hc (register?_of_mem_liveAcross hp))
  | restore n =>
    rw [emission]
    cases hp : q.plan with
    | memory | perBlock => simp [Emission.nothing]
    | perFunction alloc =>
      exact Emission.forall_lines_andThen (isUpkeep_commentLine _)
        (isUpkeep_loadAll hc (register?_of_mem_liveAcross hp))
  | read => cases hread
  | comment | label | emit | write | compute | fail => cases ha

end Placement

/-! ### What is lowered -/

/-- What an instruction prints as a float. -/
def Instruction.printed (i : Instruction) : List String :=
  match i.op with
  | .call => if i.arg1 = "printf" then [i.arg2, i.arg3].filter (· ≠ "") else []
  | .callr => if i.arg2 = "printf" then [i.arg3].filter (· ≠ "") else []
  | _ => []

namespace Action
variable {s : Scope} {X : String → Prop} {a : Action} {v r : String}

lemma tame_read (hr : isRegister r = true)
    (h : isFloatRegister r = true → s.isIntVar v = false ∨ r = f12 ∧ X v) :
    (read v r).Tame s X := by
  refine ⟨by simp, fun v' r' he => ?_⟩
  cases he
  exact ⟨hr, h⟩

lemma tame_of_read? (hread : a.read? = none) (h : ∀ r ∈ a.refersTo, r ∈ operandScratch) :
    a.Tame s X := by
  refine ⟨h, fun v r he => ?_⟩
  rw [he] at hread
  cases hread

/-- An action with no operand that is held. -/
lemma tame_of_refersTo (hread : a.read? = none) (h : a.refersTo = []) : a.Tame s X :=
  tame_of_read? hread (by rw [h]; simp)

lemma tame_line (op : String) (args : List String) : (line op args).Tame s X :=
  tame_of_refersTo rfl (by simp [line])

end Action

/-- An operand that is made ready for use by tame actions. -/
structure Source.Tame (s : Scope) (X : String → Prop) (src : Source) : Prop where
  actions : ∀ a ∈ src.actions, a.Tame s X
  operand : ∀ r ∈ src.operand.scratch?, r ∈ operandScratch

namespace Source
variable {s : Scope} {X : String → Prop} {v r op : String} {isFloat : Bool}

lemma tame_literal (x : String) : (literal x).Tame s X :=
  ⟨by simp [literal], by simp [literal]⟩

lemma tame_loaded : (loaded op v r isFloat).Tame s X :=
  ⟨List.forall_mem_singleton.mpr (Action.tame_line _ _), by simp [loaded]⟩

lemma tame_var (hr : r ∈ operandScratch)
    (h : isFloatRegister r = true → s.isIntVar v = false) : (var v r isFloat).Tame s X := by
  refine ⟨List.forall_mem_singleton.mpr ?_, ?_⟩
  · exact Action.tame_read (isRegister_of_mem_operandScratch r hr) fun hf => Or.inl (h hf)
  · simpa [var, Operand.scratch?] using hr

lemma tame_varInt (hr : r ∈ [t0, t1, t2]) : (var v r isFloat).Tame s X := by
  have hscratch : ∀ r ∈ [t0, t1, t2], r ∈ operandScratch ∧ isFloatRegister r = false := by decide
  refine tame_var (hscratch r hr).1 fun hf => ?_
  rw [(hscratch r hr).2] at hf
  cases hf

lemma tame_varFloat (hr : r ∈ [f0, f2]) (h : ¬ s.isIntVar v = true) :
    (var v r isFloat).Tame s X := by
  have hscratch : ∀ r ∈ [f0, f2], r ∈ operandScratch := by decide
  exact tame_var (hscratch r hr) fun _ => Bool.eq_false_iff.mpr h

end Source

namespace Scope
variable {s : Scope} {X : String → Prop} {n : Nat} {i : Instruction} {a : Action}

lemma tame_intSource (x : String) {r : String} (hr : r ∈ [t0, t1, t2]) :
    (s.intSource x r).Tame s X := by
  unfold intSource
  split
  · exact Source.tame_varInt hr
  · exact Source.tame_loaded

lemma tame_plainSource (x : String) : (s.plainSource x t0 f0).Tame s X := by
  unfold plainSource
  split
  · exact Source.tame_varInt (by decide)
  · next hx =>
    split
    · exact Source.tame_varFloat (by decide) hx
    · exact Source.tame_literal x

lemma tame_leftSource (x : String) : (s.leftSource x).Tame s X := by
  unfold leftSource
  split
  · exact Source.tame_varInt (by decide)
  · next hx =>
    split
    · exact Source.tame_varFloat (by decide) hx
    · split <;> exact Source.tame_loaded

lemma tame_rightSource (x : String) : (s.rightSource x).Tame s X := by
  unfold rightSource
  split
  · exact Source.tame_varInt (by decide)
  · next hx =>
    split
    · exact Source.tame_varFloat (by decide) hx
    · split
      · exact Source.tame_loaded
      · exact Source.tame_literal x

lemma tame_lowerArgument (x : String) {r : String} (hr : isRegister r = true)
    (h : isFloatRegister r = true → x ≠ "" → r = f12 ∧ X x) (isFloat : Bool) :
    ∀ a ∈ s.lowerArgument x r isFloat, a.Tame s X := by
  unfold lowerArgument
  split
  · simp
  · next hx =>
    split
    · exact List.forall_mem_singleton.mpr (Action.tame_read hr fun hf => Or.inr (h hf hx))
    · exact List.forall_mem_singleton.mpr (Action.tame_line _ _)

lemma tame_lowerCall (n : Nat) (name x y : String)
    (hX : name = "printf" → ∀ z ∈ [x, y], z ≠ "" → X z) :
    ∀ a ∈ s.lowerCall n name x y, a.Tame s X := by
  have hreg : ∀ r ∈ [Register.arg 0, Register.arg 1],
      isRegister r = true ∧ isFloatRegister r = false := by decide
  have harg : ∀ r ∈ [Register.arg 0, Register.arg 1], ∀ z ∈ [x, y],
      ∀ a ∈ s.lowerArgument z (if decide (name = "printf") then f12 else r)
        (decide (name = "printf")), a.Tame s X := by
    intro r hr z hz
    by_cases hname : name = "printf"
    · rw [decide_eq_true hname, if_pos rfl]
      exact tame_lowerArgument z rfl (fun _ hne => ⟨rfl, hX hname z hz hne⟩) _
    · rw [decide_eq_false hname, if_neg Bool.false_ne_true]
      refine tame_lowerArgument z (hreg r hr).1 (fun hf => ?_) _
      rw [(hreg r hr).2] at hf
      cases hf
  refine List.forall_mem_append.mpr ⟨List.forall_mem_append.mpr ⟨?_, ?_⟩, ?_⟩
  · exact harg _ (by simp) x (by simp)
  · exact harg _ (by simp) y (by simp)
  · split
    · simpa using ⟨Action.tame_line _ _, Action.tame_of_refersTo rfl rfl⟩
    · simpa using ⟨Action.tame_of_refersTo rfl rfl, Action.tame_line _ _,
        Action.tame_of_refersTo rfl rfl⟩

lemma tame_elementAddress (array index : String) {r : String} (hr : r ∈ [t0, t1, t2]) :
    ∀ a ∈ s.elementAddress array index r, a.Tame s X := by
  have hi := s.tame_intSource (X := X) index hr
  refine List.forall_mem_append.mpr ⟨hi.actions, ?_⟩
  simp only [List.forall_mem_cons]
  refine ⟨Action.tame_of_read? rfl ?_, Action.tame_line _ _, Action.tame_line _ _, by simp⟩
  simpa [Operand.scratch?] using hi.operand

lemma tame_lowerAssign (i : Instruction) : ∀ a ∈ s.lowerAssign i, a.Tame s X := by
  have hsrc := s.tame_plainSource (X := X) i.arg2
  refine List.forall_mem_append.mpr ⟨hsrc.actions, List.forall_mem_singleton.mpr ?_⟩
  exact Action.tame_of_read? rfl (by simpa using hsrc.operand)

lemma tame_lowerArrayInit (i : Instruction) : ∀ a ∈ s.lowerArrayInit i, a.Tame s X := by
  have hsrc := s.tame_intSource (X := X) i.arg3 (r := t1) (by decide)
  unfold lowerArrayInit
  split
  · exact List.forall_mem_singleton.mpr (Action.tame_of_refersTo rfl rfl)
  · refine List.forall_mem_append.mpr ⟨List.forall_mem_cons.mpr
      ⟨Action.tame_line _ _, hsrc.actions⟩, List.forall_mem_map.mpr fun k _ => ?_⟩
    exact Action.tame_of_read? rfl (by simpa [Operand.scratch?] using hsrc.operand)

lemma tame_lowerArith (op : Arith) (i : Instruction) : ∀ a ∈ s.lowerArith op i, a.Tame s X := by
  have hx := s.tame_leftSource (X := X) i.arg1
  have hy := s.tame_rightSource (X := X) i.arg2
  refine List.forall_mem_append.mpr ⟨List.forall_mem_append.mpr ⟨hx.actions, hy.actions⟩, ?_⟩
  refine List.forall_mem_singleton.mpr (Action.tame_of_read? rfl ?_)
  simpa [or_imp, forall_and] using ⟨hx.operand, hy.operand⟩

lemma tame_lowerBranch (cmp : Comparison) (i : Instruction) :
    ∀ a ∈ s.lowerBranch cmp i, a.Tame s X := by
  have hx := s.tame_intSource (X := X) i.arg1 (r := t0) (by decide)
  have hy : Source.Tame s X (if s.isIntVar i.arg2 then .var i.arg2 t1 false
      else .literal i.arg2) := by
    split
    · exact Source.tame_varInt (by decide)
    · exact Source.tame_literal i.arg2
  refine List.forall_mem_append.mpr ⟨List.forall_mem_append.mpr ⟨hx.actions, hy.actions⟩, ?_⟩
  refine List.forall_mem_singleton.mpr (Action.tame_of_read? rfl fun r hr => ?_)
  obtain ⟨o, ho, hr⟩ := List.mem_filterMap.mp hr
  simp only [List.mem_cons, List.not_mem_nil, or_false] at ho
  rcases ho with rfl | rfl | rfl
  · exact hx.operand r hr
  · exact hy.operand r hr
  · cases hr

lemma tame_lowerReturn (i : Instruction) : ∀ a ∈ s.lowerReturn i, a.Tame s X := by
  refine List.forall_mem_append.mpr ⟨?_, ?_⟩
  · unfold lowerResult
    split
    · simp
    · split
      · exact List.forall_mem_singleton.mpr (Action.tame_read rfl fun hf => by cases hf)
      · next hx =>
        split
        · exact List.forall_mem_singleton.mpr
            (Action.tame_read rfl fun _ => Or.inl (Bool.eq_false_iff.mpr hx))
        · exact List.forall_mem_singleton.mpr (Action.tame_line _ _)
  · simpa using ⟨Action.tame_line _ _, Action.tame_line _ _, Action.tame_line _ _⟩

lemma tame_lowerArrayStore (i : Instruction) : ∀ a ∈ s.lowerArrayStore i, a.Tame s X := by
  have hsrc := s.tame_intSource (X := X) i.arg3 (r := t1) (by decide)
  refine List.forall_mem_append.mpr ⟨List.forall_mem_append.mpr ⟨List.forall_mem_cons.mpr
    ⟨Action.tame_of_refersTo rfl rfl, hsrc.actions⟩, tame_elementAddress _ _ (by decide)⟩, ?_⟩
  simp only [List.forall_mem_cons]
  refine ⟨Action.tame_of_read? rfl ?_, Action.tame_of_refersTo rfl rfl, by simp⟩
  simpa [Operand.scratch?] using hsrc.operand

lemma tame_lowerArrayLoad (i : Instruction) : ∀ a ∈ s.lowerArrayLoad i, a.Tame s X := by
  refine List.forall_mem_append.mpr ⟨List.forall_mem_cons.mpr
    ⟨Action.tame_of_refersTo rfl rfl, tame_elementAddress _ _ (by decide)⟩, ?_⟩
  simp only [List.forall_mem_cons]
  exact ⟨Action.tame_line _ _, Action.tame_of_refersTo rfl rfl, Action.tame_of_refersTo rfl rfl,
    by simp⟩

/-- What an instruction is lowered to. -/
lemma tame_lowerInstruction (n : Nat) (hX : ∀ x ∈ i.printed, X x) :
    ∀ a ∈ s.lowerInstruction n i, a.Tame s X := by
  obtain ⟨op, x, y, z, label⟩ := i
  cases op with
  | assign =>
    simp only [lowerInstruction]
    split
    · exact tame_lowerAssign _
    · exact tame_lowerArrayInit _
  | arith op => exact tame_lowerArith op _
  | goto => exact List.forall_mem_singleton.mpr (Action.tame_line _ _)
  | branch cmp => exact tame_lowerBranch cmp _
  | ret => exact tame_lowerReturn _
  | call =>
    refine tame_lowerCall n x y z fun hname u hu hne => hX u ?_
    simpa [Instruction.printed, hname, hne] using hu
  | callr =>
    refine List.forall_mem_append.mpr ⟨tame_lowerCall n y z "" fun hname u hu hne => hX u ?_,
      List.forall_mem_singleton.mpr (Action.tame_of_refersTo rfl rfl)⟩
    simpa [Instruction.printed, hname, hne] using hu
  | arrayStore => exact tame_lowerArrayStore _
  | arrayLoad => exact tame_lowerArrayLoad _
  | other => exact List.forall_mem_singleton.mpr (Action.tame_of_refersTo rfl rfl)

/-- What stands in a function whatever its code and parameters are. -/
def IsFixed (s : Scope) (a : Action) : Prop :=
  a = .enterFunction ∨ a ∈ s.openFrame ∨ (∃ l, a = .label l) ∨ (∃ b, a = .enterBlock b) ∨
    ∃ b, a = .exitBlock b

/-- A property holds of all actions of a function, if it holds for its parameters and for each of
its instructions. -/
lemma forall_mem_lower_iff (hf : s.function.Built) {P : Action → Prop} {C : Instruction → Prop}
    (hfixed : ∀ a, s.IsFixed a → P a)
    (hcode : ∀ n, ∀ i ∈ s.function.code, (∀ a ∈ s.lowerInstruction n i, P a) ↔ C i) :
    (∀ a ∈ s.lower, P a) ↔ (∀ a ∈ s.takeParams, P a) ∧ ∀ i ∈ s.function.code, C i := by
  rw [← items_pieces]
  constructor
  · intro h
    have hpiece : ∀ x ∈ s.framedPieces, ∀ a ∈ x.items, P a := fun x hx a ha =>
      h a (List.mem_flatMap.mpr ⟨x, List.mem_cons_of_mem _ (List.mem_cons_of_mem _ hx), ha⟩)
    refine ⟨fun a ha => hpiece _ List.mem_cons_self a ha, fun i hi => ?_⟩
    rw [← instructions_framedPieces hf] at hi
    obtain ⟨x, hx, hxi⟩ := List.mem_filterMap.mp hi
    rcases mem_framedPieces hf hx with ⟨-, hnone⟩ | ⟨n, j, hj, rfl⟩
    · rw [hnone] at hxi
      cases hxi
    · cases hxi
      exact (hcode n i hj).mp fun a ha => hpiece _ hx a ha
  · rintro ⟨hparams, hall⟩ a ha
    obtain ⟨x, hx, ha⟩ := List.mem_flatMap.mp ha
    simp only [pieces, List.mem_cons] at hx
    rcases hx with rfl | rfl | hx
    · exact hfixed a (Or.inl (List.mem_singleton.mp ha))
    · exact hfixed a (Or.inr (Or.inl ha))
    · rcases mem_framedPieces hf hx with ⟨hbetween, -⟩ | ⟨n, i, hi, rfl⟩
      · rcases hbetween a ha with hl | hb | hb | hp
        · exact hfixed a (Or.inr (Or.inr (Or.inl hl)))
        · exact hfixed a (Or.inr (Or.inr (Or.inr (Or.inl hb))))
        · exact hfixed a (Or.inr (Or.inr (Or.inr (Or.inr hb))))
        · exact hparams a hp
      · exact (hcode n i hi).mpr (hall i hi) a ha

lemma tame_lower (hf : s.function.Built) (hX : ∀ i ∈ s.function.code, ∀ x ∈ i.printed, X x) :
    ∀ a ∈ s.lower, a.Tame s X := by
  refine (forall_mem_lower_iff (C := fun _ => True) hf ?_ ?_).mpr ⟨?_, fun _ _ => trivial⟩
  · rintro a (rfl | ha | ⟨l, rfl⟩ | ⟨b, rfl⟩ | ⟨b, rfl⟩)
    · exact Action.tame_of_refersTo rfl rfl
    · simp only [openFrame, List.mem_cons, List.not_mem_nil, or_false] at ha
      rcases ha with rfl | rfl <;> exact Action.tame_line _ _
    · exact Action.tame_of_refersTo rfl rfl
    · exact Action.tame_of_refersTo rfl rfl
    · exact Action.tame_of_refersTo rfl rfl
  · exact fun n i hi => iff_true_intro (tame_lowerInstruction n (hX i hi))
  · intro a ha
    obtain ⟨x, -, rfl⟩ := List.mem_map.mp ha
    exact Action.tame_of_refersTo rfl rfl

end Scope

/-- A function that is lowered without a failure has nothing wrong with its instructions. -/
lemma Strategy.offence?_eq_none {g : Strategy} {s : Scope} (hf : s.function.Built)
    (hs : ((g.place s).run {} s.lower).failure = none) :
    ∀ i ∈ s.function.code, s.offence? i = none := by
  have hlower := Scope.failsWith_lower hf
  have hfirst := (Placement.failure_run (g.sound_place s) hlower.reads).trans hlower.first
  have hnone : s.firstOffence? = none := hfirst.symm.trans hs
  exact List.findSome?_eq_none_iff.mp (Option.or_eq_none_iff.mp hnone).2

/-- A property of the lines of a function, told from its parameters and its instructions. -/
lemma Strategy.forall_lines_iff {g : Strategy} {s : Scope} (hf : s.function.Built)
    {X : String → Prop} (hX : ∀ i ∈ s.function.code, ∀ x ∈ i.printed, X x)
    {P : Line → Prop} {Q : Action → Prop} {C : Instruction → Prop}
    (hQ : ∀ c a, (g.place s).Sound c → c.Faithful → a.Tame s X →
      ((g.place s).emission c a).failure = none →
      ((∀ l ∈ ((g.place s).emission c a).lines, P l) ↔ Q a))
    (hfixed : ∀ a, s.IsFixed a → Q a)
    (hcode : ∀ n, ∀ i ∈ s.function.code, (∀ a ∈ s.lowerInstruction n i, Q a) ↔ C i)
    (hs : ((g.place s).run {} s.lower).failure = none) :
    (∀ l ∈ ((g.place s).run {} s.lower).lines, P l) ↔
      (∀ a ∈ s.takeParams, Q a) ∧ ∀ i ∈ s.function.code, C i :=
  (Placement.forall_mem_run_iff hQ (g.sound_place s) .empty (Scope.tame_lower hf hX) hs).trans
    (Scope.forall_mem_lower_iff hf hfixed hcode)

end MipsBackend
