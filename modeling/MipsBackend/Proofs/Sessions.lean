import MipsBackend.Generate
import MipsBackend.Proofs.BlockLines

/-! Sessions. The functions of a session share its draft and what their placements remember, also
after a failure. None of it reaches the next function: the draft is emptied at every end, and what
is remembered is forgotten or not looked at. -/
namespace MipsBackend
open Asm

lemma Action.selfContained_of_refersTo {known : List String} {as : List Action}
    (h : ∀ a ∈ as, a.refersTo = []) : SelfContained known as := by
  induction as generalizing known with
  | nil => trivial
  | cons a as ih =>
    refine ⟨?_, ih fun b hb => h b (by simp [hb])⟩
    rw [h a (by simp)]
    simp

namespace Scope
variable {s : Scope}

lemma selfContained_lowerPrologue : Action.SelfContained [] s.lowerPrologue := by
  apply Action.selfContained_of_refersTo
  intro a ha
  rcases List.mem_append.mp ha with ha | ha
  · simp only [List.mem_cons, List.not_mem_nil, or_false] at ha
    rcases ha with rfl | rfl <;> rfl
  · obtain ⟨x, -, rfl⟩ := List.mem_map.mp ha
    rfl

lemma selfContained_lowerBlock (b : Block) : Action.SelfContained [] (s.lowerBlock b) := by
  rw [lowerBlock_eq]
  apply Action.SelfContained.append
  · apply Action.selfContained_of_refersTo
    intro a ha
    obtain ⟨l, rfl⟩ := eq_label_of_mem_lowerLabel ha
    rfl
  · exact ⟨by simp, (selfContained_inside b).mono (by simp)⟩

/-- A function refers to nothing that was read before it. -/
lemma selfContained_lower : Action.SelfContained [] s.lower := by
  refine ⟨by simp, selfContained_lowerPrologue.append ?_⟩
  exact (Action.SelfContained.flatMap fun b _ => selfContained_lowerBlock b).mono (by simp)

end Scope

namespace Placement
variable {q : Placement} {as : List Action}

@[simp] lemma renew_empty : q.renew {} = {} := by
  unfold renew
  cases q.plan <;> rfl

lemma alike_renew (q : Placement) (c c' : Cache) : q.Alike [] (q.renew c) (q.renew c') := by
  refine ⟨fun k live hp => ?_, by simp⟩
  simp only [renew, hp, and_self]

/-- What an earlier function has left makes no difference. -/
lemma run_renew (h : Action.SelfContained [] as) (c : Cache) :
    q.run (q.renew c) as = q.run {} as := by
  rw [(q.alike_renew c {}).run h, renew_empty]

end Placement

namespace Session
variable {s t : Session} {f : Function} {a : Asm.Function}

/-- What a session makes of a function. -/
def emissionOf (s : Session) (f : Function) : Emission :=
  (s.strategy.place ⟨s.program, f⟩).run {} (Scope.lower ⟨s.program, f⟩)

/-- The session after a function. -/
def after (s : Session) (f : Function) : Session :=
  let q := s.strategy.place ⟨s.program, f⟩
  { s with
    draft := {}
    placement := some q
    cache := q.leave (q.renew s.cache) (Scope.lower ⟨s.program, f⟩) }

lemma serveAll_cons (r : Request) (rs : List Request) :
    s.serveAll (r :: rs) = if (s.serve r).2.failure.isSome then s.serve r
      else (((s.serve r).1.serveAll rs).1,
        (s.serve r).2.andThen ((s.serve r).1.serveAll rs).2) := by
  rw [serveAll]

lemma serve_perform {q : Placement} (hs : s.placement = some q) (a : Action) :
    s.serve (.perform a) = ({ s with cache := q.next s.cache a }, q.emission s.cache a) := by
  rw [serve, hs]

/-- The actions of a function are performed by its placement. -/
lemma serveAll_perform {q : Placement} (hs : s.placement = some q) (as : List Action) :
    s.serveAll (as.map .perform) =
      ({ s with cache := q.leave s.cache as }, q.run s.cache as) := by
  induction as generalizing s with
  | nil => rfl
  | cons a as ih =>
    rw [List.map_cons, serveAll_cons, serve_perform hs, Placement.leave, Placement.run]
    cases ha : (q.emission s.cache a).failure with
    | some cause => simp [Emission.andThen, ha]
    | none =>
      dsimp only
      rw [ih (s := { s with cache := q.next s.cache a }) hs]
      rfl

lemma serveAll_requests (s : Session) (f : Function) :
    s.serveAll (s.program.requests f) = ({ s.after f with draft := s.draft }, s.emissionOf f) := by
  have hrun : (s.strategy.place ⟨s.program, f⟩).run
      ((s.strategy.place ⟨s.program, f⟩).renew s.cache) (Scope.lower ⟨s.program, f⟩) =
        s.emissionOf f := Placement.run_renew Scope.selfContained_lower _
  rw [Program.requests, serveAll, serve]
  dsimp only
  rw [serveAll_perform rfl, hrun]
  rfl

/-- A function comes out as its own emission does, behind what was in the draft. -/
lemma generate_eq (s : Session) (f : Function) :
    s.generate f = (s.after f,
      match (s.emissionOf f).failure with
      | some cause => .error ⟨f.name, cause⟩
      | none => .ok ⟨f.name, s.draft.lines ++ (s.emissionOf f).lines⟩) := by
  unfold generate
  rw [serveAll_requests]
  dsimp only
  cases (s.emissionOf f).failure <;> rfl

lemma generate_eq_ok_iff : s.generate f = (t, .ok a) ↔
    (s.emissionOf f).failure = none ∧ t = s.after f ∧
      a = ⟨f.name, s.draft.lines ++ (s.emissionOf f).lines⟩ := by
  rw [generate_eq]
  cases (s.emissionOf f).failure <;> simp [eq_comm]

lemma generate_of_failure_eq_none (hs : s.draft = {}) (h : (s.emissionOf f).failure = none) :
    s.generate f = (s.after f, .ok ⟨f.name, (s.emissionOf f).lines⟩) := by
  rw [generate_eq_ok_iff, hs, List.nil_append]
  exact ⟨h, rfl, rfl⟩

/-- Generate functions one after the other: the session after each, and what came of it. -/
def history (s : Session) : List Function → List (Session × Except GenerateError Asm.Function)
  | [] => []
  | f :: fs => s.generate f :: history (s.generate f).1 fs

/-- Between two functions of a session for `p` and `g`. What is remembered is left open. -/
structure Idle (p : Program) (g : Strategy) (s : Session) : Prop where
  program : s.program = p
  strategy : s.strategy = g
  draft : s.draft = {}

variable {p : Program} {g : Strategy}

lemma idle_new : Idle p g { program := p, strategy := g } := ⟨rfl, rfl, rfl⟩

/-- A function leaves the session idle, whether it fails or not. -/
lemma Idle.generate (h : Idle p g s) (f : Function) : Idle p g (s.generate f).1 := by
  rw [generate_eq]
  exact ⟨h.program, h.strategy, rfl⟩

lemma Idle.result (h : Idle p g s) (f : Function) :
    (s.generate f).2 = (Session.generate { program := p, strategy := g } f).2 := by
  obtain ⟨rfl, rfl, hdraft⟩ := h
  rw [generate_eq, generate_eq, hdraft]
  rfl

lemma Idle.history (h : Idle p g s) (fs : List Function) :
    (s.history fs).map Prod.snd =
      fs.map (fun f => (Session.generate { program := p, strategy := g } f).2) ∧
    ∀ x ∈ s.history fs, Idle p g x.1 := by
  induction fs generalizing s with
  | nil => simp [Session.history]
  | cons f fs ih =>
    obtain ⟨hresults, hidle⟩ := ih (h.generate f)
    rw [Session.history, List.map_cons, List.map_cons, h.result f, hresults]
    exact ⟨rfl, List.forall_mem_cons.mpr ⟨h.generate f, hidle⟩⟩

end Session

/-- Whatever functions a session has generated before, in whatever order, and however they failed:
the next one comes out as in a new session, and nothing is left in the draft. -/
theorem history_eq_fresh (p : Program) (g : Strategy) (fs : List Function) :
    (Session.history { program := p, strategy := g } fs).map Prod.snd =
      fs.map (fun f => (Session.generate { program := p, strategy := g } f).2) ∧
    ∀ x ∈ Session.history { program := p, strategy := g } fs, x.1.draft.lines = [] := by
  obtain ⟨hresults, hidle⟩ := Session.idle_new.history fs
  refine ⟨hresults, fun x hx => ?_⟩
  rw [(hidle x hx).draft]

/-- A function that fails in the middle of a block. -/
def halfway : FunctionDef where
  name := "f"
  params := ["a"]
  ints := ["a"]
  code := [
    { op := .assign, arg1 := "a", arg2 := "1" },
    { op := .arith .add, arg1 := "a", arg2 := "a", arg3 := "b" },
    { op := .assign, arg1 := "t", arg2 := "many", arg3 := "0" }]

def halfwayFunction : Function := halfway.build.toOption.get (by decide +kernel)

-- its block is left with a variable in a register
example : (Session.generate { program := .ofFunctions [halfwayFunction], strategy := .perBlock 2 }
    halfwayFunction).1.cache.assigned.get? "a" = some 0 := by
  decide +kernel

end MipsBackend
