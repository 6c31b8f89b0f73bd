import MipsBackend.Asm.Program
import MipsBackend.Placement.Basic

/-! Generating assembly for functions and programs. -/
namespace MipsBackend

/-- A function that cannot be lowered. -/
structure GenerateError where
  function : String
  cause : Failure
  deriving DecidableEq

def GenerateError.message (e : GenerateError) : String :=
  "generate " ++ e.function ++ ": " ++ e.cause.message

/-- What a strategy is asked to do while functions are generated. -/
inductive Request where
  /-- Plan where the variables of a function live. -/
  | process (f : Function)
  /-- Perform an action of the function that was processed last. -/
  | perform (a : Action)

/-- All that is asked for the sake of a function. -/
def Program.requests (p : Program) (f : Function) : List Request :=
  .process f :: (Scope.lower ⟨p, f⟩).map .perform

/-- Generation of code for the functions of a program, one after the other. -/
structure Session where
  program : Program
  strategy : Strategy
  /-- Lines not yet delivered with a function. -/
  draft : Asm.Draft := {}
  /-- The function that was processed last, with the plan for its variables. -/
  placement : Option Placement := none
  /-- What the placement of the last function remembered when it came to its end or failed. -/
  cache : Cache := {}

namespace Session

/-- Serve a request. There is nothing to perform before a function is processed. -/
def serve (s : Session) : Request → Session × Emission
  | .process f =>
    let p := s.strategy.place ⟨s.program, f⟩
    ({ s with placement := some p, cache := p.renew s.cache }, .nothing)
  | .perform a =>
    match s.placement with
    | none => (s, .nothing)
    | some p => ({ s with cache := p.next s.cache a }, p.emission s.cache a)

/-- Serve requests up to the first failure. -/
def serveAll (s : Session) : List Request → Session × Emission
  | [] => (s, .nothing)
  | r :: rs =>
    let (t, e) := s.serve r
    if e.failure.isSome then (t, e)
    else
      let (u, rest) := t.serveAll rs
      (u, e.andThen rest)

/-- Generate a function. Nothing is left over in the draft, also on failure. -/
def generate (s : Session) (f : Function) : Session × Except GenerateError Asm.Function :=
  let (t, e) := s.serveAll (s.program.requests f)
  let draft : Asm.Draft := ⟨s.draft.lines ++ e.lines⟩
  match e.failure with
  | some cause => ({ t with draft := draft.reset }, .error ⟨f.name, cause⟩)
  | none =>
    let (g, d) := draft.finish f.name
    ({ t with draft := d }, .ok g)

/-- Generate functions up to the first that fails. -/
def generateAll (s : Session) : List Function → Except GenerateError (List Asm.Function)
  | [] => .ok []
  | f :: fs =>
    match s.generate f with
    | (_, .error e) => .error e
    | (t, .ok g) =>
      match generateAll t fs with
      | .error e => .error e
      | .ok gs => .ok (g :: gs)

end Session

def Program.generate (p : Program) (s : Strategy) : Except GenerateError Asm.Program :=
  match Session.generateAll { program := p, strategy := s } p.functions with
  | .error e => .error e
  | .ok fs => .ok { globals := p.globalInts, arrays := p.arrays, functions := fs }

/-- What generating recorded: the plans of the functions up to the first that fails. -/
def Program.generateEvents (p : Program) (s : Strategy) : List Function → List Event
  | [] => []
  | f :: fs =>
    let sc : Scope := ⟨p, f⟩
    let pl := s.place sc
    pl.plan.events f ++
      if (pl.run {} sc.lower).failure.isSome then [] else p.generateEvents s fs

end MipsBackend
