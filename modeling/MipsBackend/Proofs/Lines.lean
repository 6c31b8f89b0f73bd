import MipsBackend.Proofs.Places

/-! Lines of actions. Besides the line that an action spells out there are only comments and lines
that move values between registers and memory, and labels come from label actions alone. What
actions emit depends on what has been read before only as far as they refer to it. -/
namespace MipsBackend
open Asm Asm.Register

namespace Asm
variable {α β : Type} {op : String} {args : List α}

/-- The mnemonics of the conditional branches. -/
def branchOps : List String := ["beq", "bne", "blt", "bgt", "bge", "ble"]

/-- The operand of a jump or branch that holds its target. -/
def jumpOperand? (op : String) (args : List α) : Option α :=
  if op = "j" then args[0]? else if op ∈ branchOps then args[2]? else none

lemma jumpOperand?_map (g : α → β) :
    jumpOperand? op (args.map g) = (jumpOperand? op args).map g := by
  by_cases hj : op = "j"
  · simp [jumpOperand?, hj]
  · by_cases hb : op ∈ branchOps <;> simp [jumpOperand?, hj, hb]

lemma jumpOperand?_eq_none (h : op ∉ "j" :: branchOps) : jumpOperand? op args = none := by
  rw [List.mem_cons, not_or] at h
  rw [jumpOperand?, if_neg h.1, if_neg h.2]

end Asm

namespace Asm.Line

/-- The label that a line defines. -/
def defines? : Line → Option String
  | .label name => some name
  | _ => none

/-- The label that a line jumps or branches to. -/
def target? : Line → Option String
  | .instr op args _ => jumpOperand? op args
  | _ => none

/-- A comment, or a line that moves a value between registers and memory. -/
def IsMove : Line → Prop
  | .label _ => False
  | .comment _ => True
  | .instr op _ _ => op ∈ ["lw", "l.s", "sw", "s.s", "li", "li.s", "move"]

lemma IsMove.defines? {l : Line} (h : l.IsMove) : l.defines? = none := by
  cases l with
  | label => exact h.elim
  | comment | instr => rfl

lemma IsMove.target? {l : Line} (h : l.IsMove) : l.target? = none := by
  cases l with
  | label | comment => rfl
  | instr op args note =>
    refine jumpOperand?_eq_none fun hop => ?_
    simp only [IsMove, List.mem_cons, List.not_mem_nil, or_false] at h
    rcases h with rfl | rfl | rfl | rfl | rfl | rfl | rfl <;> simp [branchOps] at hop

lemma defines?_eq_some_iff {l : Line} {x : String} : l.defines? = some x ↔ l = .label x := by
  cases l <;> simp [defines?]

end Asm.Line

namespace Emission
variable {x y : Emission} {l : Line}

lemma failure_andThen : (x.andThen y).failure = none ↔ x.failure = none ∧ y.failure = none := by
  obtain ⟨ls, _ | c⟩ := x <;> simp [andThen]

lemma lines_andThen (h : x.failure = none) : (x.andThen y).lines = x.lines ++ y.lines := by
  simp only [andThen, h]

lemma mem_lines_andThen (h : l ∈ (x.andThen y).lines) : l ∈ x.lines ∨ l ∈ y.lines := by
  unfold andThen at h
  split at h
  · exact Or.inl h
  · exact List.mem_append.mp h

lemma mem_lines_sequence {xs : List Emission} (h : l ∈ (sequence xs).lines) :
    ∃ x ∈ xs, l ∈ x.lines := by
  induction xs with
  | nil => simp [sequence, nothing] at h
  | cons x xs ih =>
    rcases mem_lines_andThen h with h | h
    · exact ⟨x, by simp, h⟩
    · obtain ⟨y, hy, h⟩ := ih h
      exact ⟨y, by simp [hy], h⟩

end Emission

namespace Scope
variable {s : Scope} {l : Line} {v r op a b : String}

lemma isMove_of_mem_load (h : l ∈ (s.load v r).lines) : l.IsMove := by
  unfold load at h
  split at h
  · simp [undeclared] at h
  · obtain rfl := List.mem_singleton.mp h
    simp only [notedLine, Line.IsMove]
    split <;> simp

lemma isMove_of_mem_store (h : l ∈ (s.store a v).lines) : l.IsMove := by
  unfold store at h
  split at h
  · simp [undeclared] at h
  · next loc _ =>
    cases hf : loc.isFloat <;> cases hr : isRegister a <;>
      simp only [hf, hr, Bool.false_eq_true, if_true, if_false, List.mem_cons, List.not_mem_nil,
        or_false] at h
    all_goals rcases h with rfl | rfl <;> simp [plainLine, notedLine, Line.IsMove]

lemma mem_computeAndStore (h : l ∈ (s.computeAndStore op v a b).lines) :
    l.IsMove ∨ ∃ r, l = .instr op [r, a, b] none := by
  rcases Emission.mem_lines_andThen h with h | h
  · exact Or.inr ⟨_, List.mem_singleton.mp h⟩
  · exact Or.inl (isMove_of_mem_store h)

end Scope

namespace Action

/-- The label that an action defines. -/
def defines? : Action → Option String
  | .label name => some name
  | _ => none

/-- An action that neither defines a label nor jumps. -/
def IsStraight : Action → Prop
  | .label _ => False
  | .emit op _ _ => op ∉ "j" :: branchOps
  | .compute op _ _ _ => op ∉ "j" :: branchOps
  | _ => True

/-- An action that jumps to a label. -/
def JumpsTo (a : Action) (l : String) : Prop :=
  ∃ op args note, a = .emit op args note ∧ jumpOperand? op args = some (.text l)

lemma IsStraight.defines? {a : Action} (h : a.IsStraight) : a.defines? = none := by
  cases a with
  | label => exact h.elim
  | comment | emit | enterFunction | enterBlock | exitBlock | save | restore | read | write
  | compute | fail => rfl

end Action

namespace Placement
variable {q : Placement} {c c' : Cache} {a : Action} {as : List Action} {l : Line}

lemma isMove_of_mem_announce {alloc : Allocation} (h : l ∈ q.announce alloc) : l.IsMove := by
  rcases List.mem_cons.mp h with rfl | h
  · trivial
  · obtain ⟨v, -, rfl⟩ := List.mem_map.mp h
    split <;> trivial

lemma isMove_of_mem_commentLine {text : String} (h : l ∈ (commentLine text).lines) : l.IsMove := by
  obtain rfl := List.mem_singleton.mp h
  trivial

lemma isMove_of_mem_storeAll {es : List (String × Nat)} (h : l ∈ (q.storeAll es).lines) :
    l.IsMove := by
  obtain ⟨x, hx, h⟩ := Emission.mem_lines_sequence h
  obtain ⟨e, -, rfl⟩ := List.mem_map.mp hx
  exact Scope.isMove_of_mem_store h

lemma isMove_of_mem_loadAll {es : List (String × Nat)} (h : l ∈ (q.loadAll es).lines) :
    l.IsMove := by
  obtain ⟨x, hx, h⟩ := Emission.mem_lines_sequence h
  obtain ⟨e, -, rfl⟩ := List.mem_map.mp hx
  exact Scope.isMove_of_mem_load h

lemma isMove_of_mem_loadWorkingSet {k : Nat} {b : Block} (h : l ∈ (q.loadWorkingSet k b).lines) :
    l.IsMove := by
  rcases Emission.mem_lines_andThen h with h | h
  · exact isMove_of_mem_commentLine h
  · obtain ⟨x, hx, h⟩ := Emission.mem_lines_sequence h
    obtain ⟨e, -, rfl⟩ := List.mem_map.mp hx
    rcases Emission.mem_lines_andThen h with h | h
    · exact isMove_of_mem_commentLine h
    · exact Scope.isMove_of_mem_load h

/-- What an action can emit. -/
lemma mem_emission (h : l ∈ (q.emission c a).lines) :
    l.IsMove ∨ (∃ name, a = .label name ∧ l = .label name) ∨
    (∃ op args note, a = .emit op args note ∧ l = .instr op (args.map c.resolve) note) ∨
    ∃ op v x y, a = .compute op v x y ∧ ∃ r, l = .instr op [r, c.resolve x, c.resolve y] none := by
  cases a with
  | comment text => exact Or.inl (isMove_of_mem_commentLine h)
  | label name => exact Or.inr (Or.inl ⟨name, rfl, List.mem_singleton.mp h⟩)
  | emit op args note =>
    exact Or.inr (Or.inr (Or.inl ⟨op, args, note, rfl, List.mem_singleton.mp h⟩))
  | enterFunction =>
    rw [emission] at h
    split at h
    · exact Or.inl (isMove_of_mem_announce h)
    · simp [Emission.nothing] at h
  | enterBlock b =>
    rw [emission] at h
    split at h
    · exact Or.inl (isMove_of_mem_loadWorkingSet h)
    · simp [Emission.nothing] at h
  | exitBlock b =>
    rw [emission] at h
    split at h
    · rcases Emission.mem_lines_andThen h with h | h
      · exact Or.inl (isMove_of_mem_commentLine h)
      · rcases Emission.mem_lines_andThen h with h | h
        · exact Or.inl (isMove_of_mem_storeAll h)
        · exact Or.inl (isMove_of_mem_commentLine h)
    · simp [Emission.nothing] at h
  | save position =>
    rw [emission] at h
    split at h
    · rcases Emission.mem_lines_andThen h with h | h
      · exact Or.inl (isMove_of_mem_commentLine h)
      · exact Or.inl (isMove_of_mem_storeAll h)
    · simp [Emission.nothing] at h
  | restore position =>
    rw [emission] at h
    split at h
    · rcases Emission.mem_lines_andThen h with h | h
      · exact Or.inl (isMove_of_mem_commentLine h)
      · exact Or.inl (isMove_of_mem_loadAll h)
    · simp [Emission.nothing] at h
  | read v scratch =>
    rw [emission] at h
    split at h
    · exact Or.inl (Scope.isMove_of_mem_load h)
    · split at h
      · obtain rfl := List.mem_singleton.mp h
        exact Or.inl (by simp [notedLine, Line.IsMove])
      · simp [Emission.nothing] at h
  | write src v =>
    rw [emission] at h
    split at h
    · exact Or.inl (Scope.isMove_of_mem_store h)
    · obtain rfl := List.mem_singleton.mp h
      refine Or.inl ?_
      simp only [moveLine, Line.IsMove]
      split <;> simp
  | compute op v x y =>
    rw [emission] at h
    split at h
    · rcases Scope.mem_computeAndStore h with h | ⟨r, h⟩
      · exact Or.inl h
      · exact Or.inr (Or.inr (Or.inr ⟨op, v, x, y, rfl, r, h⟩))
    · exact Or.inr (Or.inr (Or.inr ⟨op, v, x, y, rfl, _, List.mem_singleton.mp h⟩))
  | fail cause => simp [emission] at h

lemma target?_of_isStraight (ha : a.IsStraight) (hl : l ∈ (q.emission c a).lines) :
    l.target? = none := by
  rcases mem_emission hl with h | ⟨name, rfl, rfl⟩ | ⟨op, args, note, rfl, rfl⟩ |
    ⟨op, v, x, y, rfl, r, rfl⟩
  · exact h.target?
  · rfl
  · exact jumpOperand?_eq_none ha
  · exact jumpOperand?_eq_none ha

lemma target?_of_jumpsTo {t : String} (ha : a.JumpsTo t) (hl : l ∈ (q.emission c a).lines) :
    l.target? = some t := by
  obtain ⟨op, args, note, rfl, ht⟩ := ha
  obtain rfl := List.mem_singleton.mp hl
  rw [Line.target?, jumpOperand?_map, ht]
  rfl

/-- Every line of actions is emitted by one of them. -/
lemma mem_lines_run (h : l ∈ (q.run c as).lines) :
    ∃ a ∈ as, ∃ c, l ∈ (q.emission c a).lines := by
  induction as generalizing c with
  | nil => simp [run, Emission.nothing] at h
  | cons a as ih =>
    rcases Emission.mem_lines_andThen h with h | h
    · exact ⟨a, by simp, c, h⟩
    · obtain ⟨a', ha', h⟩ := ih h
      exact ⟨a', by simp [ha'], h⟩

lemma defines_emission (q : Placement) (c : Cache) (a : Action) :
    (q.emission c a).lines.filterMap Line.defines? = a.defines?.toList := by
  cases a with
  | label name => rfl
  | comment | emit | enterFunction | enterBlock | exitBlock | save | restore | read | write
  | compute | fail =>
    refine List.filterMap_eq_nil_iff.mpr fun l hl => ?_
    rcases mem_emission hl with h | ⟨name, ha, -⟩ | ⟨op, args, note, -, rfl⟩ |
      ⟨op, v, x, y, -, r, rfl⟩
    · exact h.defines?
    · cases ha
    · rfl
    · rfl

/-- The labels that actions define are the labels of their lines, in the same order. -/
lemma defines_run (h : (q.run c as).failure = none) :
    (q.run c as).lines.filterMap Line.defines? = as.filterMap Action.defines? := by
  induction as generalizing c with
  | nil => rfl
  | cons a as ih =>
    obtain ⟨ha, has⟩ := Emission.failure_andThen.mp h
    rw [run, Emission.lines_andThen ha, List.filterMap_append, defines_emission, ih has,
      List.filterMap_cons]
    cases a.defines? <;> rfl

end Placement

/-! ### What actions refer to -/

/-- The scratch register whose content an operand stands for. -/
def Operand.scratch? : Operand → Option String
  | .text _ => none
  | .held scratch => some scratch

@[simp] lemma Operand.scratch?_text (s : String) : (text s).scratch? = none := rfl

namespace Action

/-- The scratch registers that an action refers to. -/
@[simp] def refersTo : Action → List String
  | .emit _ args _ => args.filterMap Operand.scratch?
  | .write src _ => src.scratch?.toList
  | .compute _ _ x y => x.scratch?.toList ++ y.scratch?.toList
  | _ => []

/-- The scratch register that an action reads a variable for. -/
def reads? : Action → Option String
  | .read _ scratch => some scratch
  | _ => none

/-- The actions refer to nothing but what is in `known` or has been read among them. -/
def SelfContained (known : List String) : List Action → Prop
  | [] => True
  | a :: as => (∀ r ∈ a.refersTo, r ∈ known) ∧ SelfContained (a.reads?.toList ++ known) as

variable {known known' : List String} {as bs : List Action}

lemma SelfContained.mono (h : SelfContained known as) (hk : ∀ r ∈ known, r ∈ known') :
    SelfContained known' as := by
  induction as generalizing known known' with
  | nil => trivial
  | cons a as ih =>
    refine ⟨fun r hr => hk r (h.1 r hr), ih h.2 fun r hr => ?_⟩
    rcases List.mem_append.mp hr with hr | hr
    · exact List.mem_append.mpr (Or.inl hr)
    · exact List.mem_append.mpr (Or.inr (hk r hr))

lemma SelfContained.append (ha : SelfContained known as)
    (hb : SelfContained (as.filterMap reads? ++ known) bs) : SelfContained known (as ++ bs) := by
  induction as generalizing known with
  | nil => exact hb
  | cons a as ih =>
    refine ⟨ha.1, ih ha.2 (hb.mono fun r hr => ?_)⟩
    rw [List.filterMap_cons] at hr
    cases h : a.reads? <;> simp_all [or_left_comm]

lemma SelfContained.flatMap {α : Type} {xs : List α} {g : α → List Action}
    (h : ∀ x ∈ xs, SelfContained [] (g x)) : SelfContained [] (xs.flatMap g) := by
  induction xs with
  | nil => trivial
  | cons x xs ih =>
    exact (h x (by simp)).append ((ih fun y hy => h y (by simp [hy])).mono (by simp))

end Action

namespace Placement
variable {q : Placement} {c c' : Cache} {a : Action} {as : List Action} {known : List String}

/-- Two memories that agree on where variables are and on what was read for the scratch registers
in `known`. Only a plan for single blocks remembers where variables are. -/
structure Alike (q : Placement) (known : List String) (c c' : Cache) : Prop where
  cached : ∀ k live, q.plan = .perBlock k live →
    c.assigned = c'.assigned ∧ c.committed = c'.committed
  held : ∀ r ∈ known, c.register r = c'.register r

namespace Alike

lemma register? (h : q.Alike known c c') (v : String) : q.register? c v = q.register? c' v := by
  unfold Placement.register?
  cases hp : q.plan with
  | memory | perFunction => rfl
  | perBlock k live => simp only [(h.cached k live hp).1]

lemma target? (h : q.Alike known c c') (v : String) : q.target? c v = q.target? c' v := by
  unfold Placement.target?
  cases hp : q.plan with
  | memory | perFunction => rfl
  | perBlock k live => simp only [(h.cached k live hp).1, (h.cached k live hp).2]

lemma resolve (h : q.Alike known c c') {o : Operand} (ho : ∀ r ∈ o.scratch?, r ∈ known) :
    c.resolve o = c'.resolve o := by
  cases o with
  | text s => rfl
  | held r => exact h.held r (ho r rfl)

lemma forget (h : q.Alike known c c') (v : String) :
    q.Alike known (q.forget c v) (q.forget c' v) := by
  unfold Placement.forget
  rw [← h.target? v]
  cases q.target? c v with
  | some n => exact h
  | none =>
    refine ⟨fun k live hp => ?_, h.held⟩
    simp only [(h.cached k live hp).1, (h.cached k live hp).2, and_self]

/-- Caches that agree on what an action refers to make it emit the same. -/
lemma emission (h : q.Alike known c c') (ha : ∀ r ∈ a.refersTo, r ∈ known) :
    q.emission c a = q.emission c' a := by
  cases a with
  | comment | label | enterFunction | enterBlock | save | restore | fail => rfl
  | emit op args note =>
    have hargs : args.map c.resolve = args.map c'.resolve := by
      refine List.map_congr_left fun o ho => h.resolve fun r hr => ha r ?_
      exact List.mem_filterMap.mpr ⟨o, ho, hr⟩
    simp only [Placement.emission, hargs]
  | exitBlock b =>
    simp only [Placement.emission]
    cases hp : q.plan with
    | memory | perFunction => rfl
    | perBlock k live => simp only [writeBacks, (h.cached k live hp).1]
  | read v scratch => simp only [Placement.emission, h.register? v]
  | write src v =>
    have hsrc : c.resolve src = c'.resolve src :=
      h.resolve fun r hr => ha r (Option.mem_toList.mpr hr)
    simp only [Placement.emission, h.target? v, hsrc]
  | compute op v x y =>
    have hx : c.resolve x = c'.resolve x := h.resolve fun r hr =>
      ha r (List.mem_append.mpr (Or.inl (Option.mem_toList.mpr hr)))
    have hy : c.resolve y = c'.resolve y := h.resolve fun r hr =>
      ha r (List.mem_append.mpr (Or.inr (Option.mem_toList.mpr hr)))
    simp only [Placement.emission, h.target? v, hx, hy]

/-- What an action reads is agreed on after it. -/
lemma next (h : q.Alike known c c') (a : Action) :
    q.Alike (a.reads?.toList ++ known) (q.next c a) (q.next c' a) := by
  cases a with
  | comment | label | emit | enterFunction | save | restore | fail => exact h
  | enterBlock b =>
    simp only [Placement.next]
    cases hp : q.plan with
    | memory | perFunction => exact h
    | perBlock k live => exact ⟨fun _ _ _ => ⟨rfl, rfl⟩, h.held⟩
  | exitBlock b => exact ⟨fun k live hp => ⟨(h.cached k live hp).1, rfl⟩, h.held⟩
  | write src v => exact h.forget v
  | compute op v x y => exact h.forget v
  | read v scratch =>
    refine ⟨h.cached, fun r hr => ?_⟩
    have hanswer : q.answer c v scratch = q.answer c' v scratch := by
      simp only [answer, h.register? v]
    simp only [Placement.next, Cache.register, OrdMap.getD, OrdMap.get?_insert, hanswer]
    by_cases hrs : r = scratch
    · simp [hrs]
    · have hk : r ∈ known := by simpa [Action.reads?, hrs] using hr
      simpa [hrs, Cache.register, OrdMap.getD] using h.held r hk

/-- Caches that agree on what actions refer to make them emit the same. -/
lemma run (h : q.Alike known c c') (has : Action.SelfContained known as) :
    q.run c as = q.run c' as := by
  induction as generalizing known c c' with
  | nil => rfl
  | cons a as ih => rw [Placement.run, Placement.run, h.emission has.1, ih (h.next a) has.2]

end Alike

/-- What is remembered at the entry of a block makes no difference. -/
lemma run_enterBlock {b : Block} (h : Action.SelfContained [] as) (c c' : Cache) :
    q.run c (.enterBlock b :: as) = q.run c' (.enterBlock b :: as) := by
  -- a plan for single blocks starts afresh here, and the others do not look at where variables are
  have hnext : q.Alike [] (q.next c (.enterBlock b)) (q.next c' (.enterBlock b)) := by
    refine ⟨fun k live hp => ?_, by simp⟩
    simp only [next, hp, and_self]
  rw [run, run, hnext.run h]
  rfl

end Placement
end MipsBackend
