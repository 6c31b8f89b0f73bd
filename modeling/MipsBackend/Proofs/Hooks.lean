import MipsBackend.Proofs.Partition
import MipsBackend.Proofs.Pieces

/-! Hooks. For the sake of a function, a strategy is asked to process it and then to perform what
it is lowered to: it is told of the entry of the function, the entry and exit of each block, and of
each call. The blocks are found on a walk along what comes next. Each is entered and left once, left
right before the instruction that ends it, and each jump to a function stands between saving and
restoring for the instruction that it comes from. -/
namespace MipsBackend
open Asm Asm.Register

/-! ### Serving requests one by one -/

/-- A request with the lines that it emitted. -/
structure Step where
  request : Request
  lines : List Line

namespace Session
variable {s : Session} {rs : List Request} {x : Step}

/-- The requests that are served, up to the first that fails. -/
def steps (s : Session) : List Request → List Step
  | [] => []
  | r :: rs =>
    ⟨r, (s.serve r).2.lines⟩ ::
      if (s.serve r).2.failure.isSome then [] else (s.serve r).1.steps rs

/-- The lines of requests are those of their steps. -/
lemma lines_steps (s : Session) (rs : List Request) :
    (s.steps rs).flatMap Step.lines = (s.serveAll rs).2.lines := by
  induction rs generalizing s with
  | nil => rfl
  | cons r rs ih =>
    rw [steps, serveAll_cons, List.flatMap_cons]
    cases hr : (s.serve r).2.failure with
    | some cause => simp
    | none =>
      simp only [Option.isSome_none, Bool.false_eq_true, if_false, Emission.lines_andThen hr, ih]

/-- Without a failure all requests are served, and each changes the session. -/
lemma serveAll_eq_foldl (h : (s.serveAll rs).2.failure = none) :
    (s.steps rs).map Step.request = rs ∧
      (s.serveAll rs).1 = rs.foldl (fun t r => (t.serve r).1) s := by
  induction rs generalizing s with
  | nil => exact ⟨rfl, rfl⟩
  | cons r rs ih =>
    rw [serveAll_cons] at h ⊢
    cases hr : (s.serve r).2.failure with
    | some cause => simp [hr] at h
    | none =>
      simp only [hr, Option.isSome_none, Bool.false_eq_true, if_false] at h
      obtain ⟨hsteps, hsession⟩ := ih (Emission.failure_andThen.mp h).2
      simp only [steps, hr, Option.isSome_none, Bool.false_eq_true, if_false, List.map_cons, hsteps,
        List.foldl_cons, hsession, and_self]

lemma exists_of_mem_steps (hx : x ∈ s.steps rs) :
    x.request ∈ rs ∧ ∃ t : Session, x.lines = (t.serve x.request).2.lines := by
  induction rs generalizing s with
  | nil => cases hx
  | cons r rs ih =>
    rcases List.mem_cons.mp hx with rfl | hx
    · exact ⟨by simp, s, rfl⟩
    · split at hx
      · cases hx
      · obtain ⟨hmem, hlines⟩ := ih hx
        exact ⟨by simp [hmem], hlines⟩

/-- Lines are emitted by a placement that performs an action. -/
lemma exists_emission_of_mem {r : Request} {l : Line} (hl : l ∈ (s.serve r).2.lines) :
    ∃ (a : Action) (q : Placement) (c : Cache),
      r = .perform a ∧ (s.serve r).2 = q.emission c a := by
  cases r with
  | process f => cases hl
  | perform a =>
    cases hq : s.placement with
    | none =>
      rw [serve, hq] at hl
      cases hl
    | some q => exact ⟨a, q, s.cache, rfl, by rw [serve_perform hq]⟩

end Session

/-! ### Calls -/

/-- The function that a call by a name jumps to, unless it prints. -/
def jumped? (name : String) : Option String :=
  if (syscallCode? name).isNone then some name else none

/-- The function that an instruction jumps to. -/
def Instruction.callee? (i : Instruction) : Option String :=
  match i.op with
  | .call => jumped? i.arg1
  | .callr => jumped? i.arg2
  | _ => none

/-- A jump to a function. -/
def Asm.Line.isCall : Line → Bool
  | .instr op _ _ => op = "jal"
  | _ => false

namespace Action

/-- Whether an action asks the placement for something. -/
def asks : Action → Bool
  | .comment _ | .label _ | .emit _ _ _ | .fail _ => false
  | _ => true

/-- Entering the function, or entering or leaving a block. -/
def isBorder : Action → Bool
  | .enterFunction | .enterBlock _ | .exitBlock _ => true
  | _ => false

/-- Neither a border nor a part of a call. -/
def isPlain : Action → Bool
  | .enterFunction | .enterBlock _ | .exitBlock _ | .save _ | .restore _ => false
  | .emit op _ _ => op ≠ "jal"
  | .compute op _ _ _ => op ≠ "jal"
  | _ => true

/-- Jumps to functions stand between saving and restoring for the same position, and nothing is
saved or restored elsewhere. The calls are listed with their positions. -/
inductive Guarded : List Action → List (Nat × String) → Prop
  | nil : Guarded [] []
  | other {a : Action} {as : List Action} {xs : List (Nat × String)}
      (ha : a.isPlain = true ∨ a.isBorder = true) : Guarded as xs → Guarded (a :: as) xs
  | call (n : Nat) (name : String) {as : List Action} {xs : List (Nat × String)} :
      Guarded as xs →
        Guarded (.save n :: .line "jal" [name] :: .restore n :: as) ((n, name) :: xs)

lemma isBorder_of_isPlain {a : Action} (h : a.isPlain = true) : a.isBorder = false := by
  cases a with
  | enterFunction | enterBlock | exitBlock | save | restore => cases h
  | comment | label | emit | read | write | compute | fail => rfl

namespace Guarded
variable {as bs : List Action} {xs ys : List (Nat × String)}

lemma of_plain (h : ∀ a ∈ as, a.isPlain = true) : Guarded as [] := by
  induction as with
  | nil => exact .nil
  | cons a as ih => exact .other (Or.inl (h a (by simp))) (ih fun b hb => h b (by simp [hb]))

lemma append (ha : Guarded as xs) (hb : Guarded bs ys) : Guarded (as ++ bs) (xs ++ ys) := by
  induction ha with
  | nil => exact hb
  | other h _ ih => exact .other h ih
  | call n name _ ih => exact .call n name ih

lemma plain_append (ha : ∀ a ∈ as, a.isPlain = true) (hb : Guarded bs ys) :
    Guarded (as ++ bs) ys := (of_plain ha).append hb

lemma flatMap {α : Type} {l : List α} {g : α → List Action} {k : α → List (Nat × String)}
    (h : ∀ x ∈ l, Guarded (g x) (k x)) : Guarded (l.flatMap g) (l.flatMap k) := by
  induction l with
  | nil => exact .nil
  | cons x l ih =>
    rw [List.flatMap_cons, List.flatMap_cons]
    exact (h x (by simp)).append (ih fun y hy => h y (by simp [hy]))

end Guarded
end Action

/-- Making an operand ready for use is plain. -/
lemma Source.Shape.isPlain {src : Source} (h : src.Shape) :
    ∀ a ∈ src.actions, a.isPlain = true := by
  cases h with
  | literal x => simp [Source.literal]
  | var v r isFloat => simp [Source.var, Action.isPlain]
  | loaded x r isFloat hop =>
    rcases hop with rfl | rfl <;> simp [Source.loaded, Action.line, Action.isPlain]

namespace Scope
variable {s : Scope} {n : Nat} {i : Instruction} {a : Action}

lemma isPlain_lowerArgument (x r : String) (isFloat : Bool) :
    ∀ a ∈ s.lowerArgument x r isFloat, a.isPlain = true := by
  unfold lowerArgument
  split_ifs <;> simp [Action.line, Action.isPlain]

lemma isPlain_elementAddress (array index scratch : String) :
    ∀ a ∈ s.elementAddress array index scratch, a.isPlain = true := by
  refine List.forall_mem_append.mpr ⟨(shape_intSource _ _).isPlain, ?_⟩
  simp [Action.line, Action.isPlain]

/-- An instruction that jumps to no function and does not print. -/
lemma isPlain_lowerInstruction (hi : i.isCall = false) :
    ∀ a ∈ s.lowerInstruction n i, a.isPlain = true := by
  obtain ⟨op, x, y, z, label⟩ := i
  cases op with
  | assign =>
    simp only [lowerInstruction]
    split
    · exact List.forall_mem_append.mpr ⟨(shape_plainSource _ _ _).isPlain, by simp [Action.isPlain]⟩
    · unfold lowerArrayInit
      split
      · simp [Action.isPlain]
      · refine List.forall_mem_append.mpr ⟨List.forall_mem_cons.mpr
          ⟨by simp [Action.line, Action.isPlain], (shape_intSource _ _).isPlain⟩, ?_⟩
        simp [Action.isPlain]
  | arith op =>
    have hop : ∀ isFloat : Bool, op.mnemonic ++ (if isFloat then ".s" else "") ≠ "jal" := by
      cases op <;> decide
    refine List.forall_mem_append.mpr ⟨List.forall_mem_append.mpr
      ⟨(shape_leftSource _).isPlain, (shape_rightSource _).isPlain⟩, ?_⟩
    exact List.forall_mem_singleton.mpr (decide_eq_true (hop _))
  | goto => simp [lowerInstruction, Action.line, Action.isPlain]
  | branch cmp =>
    have hop : cmp.mnemonic ≠ "jal" := by cases cmp <;> decide
    refine List.forall_mem_append.mpr ⟨List.forall_mem_append.mpr
      ⟨(shape_intSource _ _).isPlain, ?_⟩, by simpa [Action.isPlain] using hop⟩
    split_ifs <;> simp [Source.var, Source.literal, Action.isPlain]
  | ret =>
    refine List.forall_mem_append.mpr ⟨?_, by simp [Action.line, Action.isPlain]⟩
    unfold lowerResult
    split_ifs <;> simp [Action.line, Action.isPlain]
  | call | callr => cases hi
  | arrayStore =>
    refine List.forall_mem_append.mpr ⟨List.forall_mem_append.mpr ⟨List.forall_mem_cons.mpr
      ⟨rfl, (shape_intSource _ _).isPlain⟩, isPlain_elementAddress _ _ _⟩, ?_⟩
    simp [Action.isPlain]
  | arrayLoad =>
    refine List.forall_mem_append.mpr ⟨List.forall_mem_cons.mpr
      ⟨rfl, isPlain_elementAddress _ _ _⟩, ?_⟩
    simp [Action.line, Action.isPlain]
  | other => simp [lowerInstruction, Action.isPlain]

lemma guarded_lowerCall (n : Nat) (name x y : String) :
    Action.Guarded (s.lowerCall n name x y) ((jumped? name).map fun z => (n, z)).toList := by
  refine .plain_append (List.forall_mem_append.mpr
    ⟨isPlain_lowerArgument _ _ _, isPlain_lowerArgument _ _ _⟩) ?_
  unfold jumped?
  cases syscallCode? name with
  | some code => exact .of_plain (by simp [Action.line, Action.isPlain])
  | none => exact .call n name .nil

/-- The call of an instruction is guarded for the position of the instruction. -/
lemma guarded_lowerInstruction (n : Nat) (i : Instruction) :
    Action.Guarded (s.lowerInstruction n i) (i.callee?.map fun name => (n, name)).toList := by
  obtain ⟨op, x, y, z, label⟩ := i
  cases op with
  | call => exact guarded_lowerCall n x y z
  | callr =>
    have hresult : Action.Guarded [s.lowerCallResult x] [] :=
      .of_plain (by simp [lowerCallResult, Action.isPlain])
    rw [← List.append_nil (Option.toList _)]
    exact (guarded_lowerCall n y z "").append hresult
  | assign | arith | goto | branch | ret | arrayStore | arrayLoad | other =>
    exact .of_plain (isPlain_lowerInstruction rfl)

/-- An instruction neither enters nor leaves a block. -/
lemma isBorder_lowerInstruction (ha : a ∈ s.lowerInstruction n i) : a.isBorder = false := by
  have hcall : ∀ name x y, ∀ a ∈ s.lowerCall n name x y, a.isBorder = false := by
    intro name x y
    refine List.forall_mem_append.mpr ⟨List.forall_mem_append.mpr ⟨?_, ?_⟩, ?_⟩
    · exact fun a ha => Action.isBorder_of_isPlain (isPlain_lowerArgument _ _ _ a ha)
    · exact fun a ha => Action.isBorder_of_isPlain (isPlain_lowerArgument _ _ _ a ha)
    · split <;> simp [Action.line, Action.isBorder]
  cases hi : i.isCall with
  | false => exact Action.isBorder_of_isPlain (isPlain_lowerInstruction hi a ha)
  | true =>
    obtain ⟨op, x, y, z, label⟩ := i
    cases op with
    | call => exact hcall _ _ _ a ha
    | callr =>
      rcases List.mem_append.mp ha with ha | ha
      · exact hcall _ _ _ a ha
      · obtain rfl := List.mem_singleton.mp ha
        rfl
    | assign | arith | goto | branch | ret | arrayStore | arrayLoad | other => cases hi

end Scope

/-! ### Blocks -/

section
variable {α β : Type} {p : α → Bool} {l : List α}

/-- At most the last one ends a run: what is put before that one, or else behind the run, stands
between the rest and the end. -/
lemma flatMap_before_end (g : α → List β) (e : β) (h : ∀ x ∈ l.dropLast, p x = false) :
    l.flatMap (fun x => (if p x then [e] else []) ++ g x) ++
        (if l.getLast?.any p then [] else [e]) =
      (l.takeWhile fun x => !p x).flatMap g ++ e :: (l.dropWhile fun x => !p x).flatMap g := by
  induction l with
  | nil => rfl
  | cons x l ih =>
    cases l with
    | nil => cases hx : p x <;> simp [hx]
    | cons y l =>
      have hx : p x = false := h x (by simp)
      have ih := ih fun z hz => h z (by simp [List.dropLast_cons_of_ne_nil, hz])
      rw [List.flatMap_cons, List.getLast?_cons_cons, List.append_assoc, ih]
      simp [hx]

lemma dropWhile_of_dropLast (h : ∀ x ∈ l.dropLast, p x = false) :
    (l.dropWhile fun x => !p x) = [] ∨
      ∃ x, p x = true ∧ (l.dropWhile fun x => !p x) = [x] := by
  induction l with
  | nil => exact Or.inl rfl
  | cons x l ih =>
    cases l with
    | nil => cases hx : p x <;> simp [hx]
    | cons y l =>
      have hx : p x = false := h x (by simp)
      have ih := ih fun z hz => h z (by simp [List.dropLast_cons_of_ne_nil, hz])
      simpa [hx] using ih

end

namespace Block
variable {b : Block}

/-- The instructions before the one that ends the block. -/
def straight (b : Block) : List (Nat × Instruction) :=
  b.positioned.takeWhile fun x => !x.2.isTerminal

/-- The instruction that ends the block, if one does. -/
def ending (b : Block) : List (Nat × Instruction) :=
  b.positioned.dropWhile fun x => !x.2.isTerminal

lemma isTerminal_of_mem_dropLast (h : ∀ i ∈ b.body.dropLast, i.isTerminal = false) :
    ∀ x ∈ b.positioned.dropLast, x.2.isTerminal = false := by
  intro x hx
  apply h
  rw [← b.map_snd_positioned, ← List.map_dropLast]
  exact List.mem_map_of_mem hx

lemma ending_cases (h : ∀ i ∈ b.body.dropLast, i.isTerminal = false) :
    b.ending = [] ∨ ∃ x, x.2.isTerminal = true ∧ b.ending = [x] :=
  dropWhile_of_dropLast (p := fun x : Nat × Instruction => x.2.isTerminal)
    (isTerminal_of_mem_dropLast h)

end Block

/-- The instructions of blocks have the positions of the code. -/
lemma Tiles.flatMap_positioned {id start : Nat} {bs : List Block} (h : Tiles id start bs) :
    bs.flatMap Block.positioned =
      (List.range' start (bs.flatMap Block.body).length).zip (bs.flatMap Block.body) := by
  induction bs generalizing id start with
  | nil => rfl
  | cons b bs ih =>
    obtain ⟨-, rfl, -, htiles⟩ := h
    rw [List.flatMap_cons, List.flatMap_cons, ih htiles, List.length_append, ← List.range'_append_1,
      List.zip_append (by simp)]
    rfl

namespace Scope
variable {s : Scope} {b : Block}

/-- What instructions ask for. -/
def asked (s : Scope) (xs : List (Nat × Instruction)) : List Action :=
  xs.flatMap fun x => (s.lowerInstruction x.1 x.2).filter Action.asks

lemma lowerBlock_eq_straight (h : ∀ i ∈ b.body.dropLast, i.isTerminal = false) :
    s.lowerBlock b = s.lowerLabel b ++ .enterBlock b ::
      ((b.straight.flatMap fun x => s.lowerInstruction x.1 x.2) ++
        .exitBlock b :: b.ending.flatMap fun x => s.lowerInstruction x.1 x.2) := by
  have hlast : b.last?.any Instruction.isTerminal =
      b.positioned.getLast?.any fun x => x.2.isTerminal := by
    rw [Block.last?, ← b.map_snd_positioned, List.getLast?_map, Option.any_map]
  rw [lowerBlock_eq, lowerBody, hlast]
  congr 2
  exact flatMap_before_end (p := fun x => x.2.isTerminal)
    (fun x : Nat × Instruction => s.lowerInstruction x.1 x.2) (.exitBlock b)
    (Block.isTerminal_of_mem_dropLast h)

lemma filter_lowerBlock (h : ∀ i ∈ b.body.dropLast, i.isTerminal = false) :
    (s.lowerBlock b).filter Action.asks =
      .enterBlock b :: s.asked b.straight ++ .exitBlock b :: s.asked b.ending := by
  have hlabel : (s.lowerLabel b).filter Action.asks = [] := by
    rw [List.filter_eq_nil_iff]
    intro a ha
    obtain ⟨l, rfl⟩ := eq_label_of_mem_lowerLabel ha
    exact Bool.false_ne_true
  rw [lowerBlock_eq_straight h, List.filter_append, hlabel]
  simp only [List.filter_cons, List.filter_append, List.filter_flatMap, asked, Action.asks]
  rfl

lemma filter_lower (hf : s.function.Built) : s.lower.filter Action.asks =
    .enterFunction :: s.takeParams ++ s.function.walk.flatMap fun b =>
      .enterBlock b :: s.asked b.straight ++ .exitBlock b :: s.asked b.ending := by
  have hparams : s.takeParams.filter Action.asks = s.takeParams := by
    rw [List.filter_eq_self]
    intro a ha
    obtain ⟨x, -, rfl⟩ := List.mem_map.mp ha
    rfl
  have hblocks : s.function.walk.flatMap (fun b => (s.lowerBlock b).filter Action.asks) =
      s.function.walk.flatMap fun b =>
        .enterBlock b :: s.asked b.straight ++ .exitBlock b :: s.asked b.ending :=
    List.flatMap_congr fun b hb =>
      filter_lowerBlock (hf.terminal b (Function.mem_blocks_of_mem_walk hb))
  rw [← hblocks, ← List.filter_flatMap, ← hparams]
  exact List.filter_append _ _

end Scope

/-- The calls in the code of a function, with their positions. -/
def Function.calls (f : Function) : List (Nat × String) :=
  ((List.range f.code.length).zip f.code).filterMap fun x =>
    x.2.callee?.map fun name => (x.1, name)

namespace Scope
variable {s : Scope}

lemma guarded_lowerBlock {b : Block} (h : ∀ i ∈ b.body.dropLast, i.isTerminal = false) :
    Action.Guarded (s.lowerBlock b)
      (b.positioned.filterMap fun x => x.2.callee?.map fun name => (x.1, name)) := by
  have hlabel : Action.Guarded (s.lowerLabel b) [] := by
    apply Action.Guarded.of_plain
    intro a ha
    obtain ⟨l, rfl⟩ := eq_label_of_mem_lowerLabel ha
    rfl
  have hbody := fun xs : List (Nat × Instruction) =>
    Action.Guarded.flatMap (l := xs) fun x _ => s.guarded_lowerInstruction x.1 x.2
  have hsplit : b.positioned = b.straight ++ b.ending := List.takeWhile_append_dropWhile.symm
  rw [lowerBlock_eq_straight h, hsplit, List.filterMap_append, List.filterMap_eq_flatMap_toList,
    List.filterMap_eq_flatMap_toList]
  exact hlabel.append (.other (Or.inr rfl) ((hbody _).append (.other (Or.inr rfl) (hbody _))))

lemma guarded_lower (hf : s.function.Built) : Action.Guarded s.lower s.function.calls := by
  have hprologue : Action.Guarded (.enterFunction :: s.lowerPrologue) [] := by
    refine .other (Or.inr rfl) (.of_plain (List.forall_mem_append.mpr ⟨?_, ?_⟩))
    · simp [Action.line, Action.isPlain]
    · intro a ha
      obtain ⟨x, -, rfl⟩ := List.mem_map.mp ha
      rfl
  have hblocks := Action.Guarded.flatMap fun b hb => s.guarded_lowerBlock (hf.terminal b hb)
  have hcalls : s.function.calls = s.function.blocks.flatMap fun b =>
      b.positioned.filterMap fun x => x.2.callee?.map fun name => (x.1, name) := by
    rw [Function.calls, ← List.filterMap_flatMap, hf.tiles.flatMap_positioned, hf.code,
      List.range_eq_range']
  rw [hcalls, lower, hf.walk_eq]
  exact hprologue.append hblocks

end Scope

/-! ### Functions -/

namespace Action.Guarded
variable {as : List Action} {xs : List (Nat × String)} {a : Action}

lemma cases_of_mem (h : Guarded as xs) (ha : a ∈ as) :
    a.isPlain = true ∨ a.isBorder = true ∨ (∃ n, a = .save n ∨ a = .restore n) ∨
      ∃ name, a = .line "jal" [name] := by
  induction h with
  | nil => cases ha
  | other hb _ ih =>
    rcases List.mem_cons.mp ha with rfl | ha
    · exact hb.elim Or.inl fun hb => Or.inr (Or.inl hb)
    · exact ih ha
  | call n name _ ih =>
    simp only [List.mem_cons] at ha
    rcases ha with rfl | rfl | rfl | ha
    · exact Or.inr (Or.inr (Or.inl ⟨n, Or.inl rfl⟩))
    · exact Or.inr (Or.inr (Or.inr ⟨name, rfl⟩))
    · exact Or.inr (Or.inr (Or.inl ⟨n, Or.inr rfl⟩))
    · exact ih ha

/-- What jumps to a function is the line between saving and restoring. -/
lemma eq_jal_of_isCall {q : Placement} {c : Cache} {l : Line} (h : Guarded as xs) (ha : a ∈ as)
    (hl : l ∈ (q.emission c a).lines) (hcall : l.isCall = true) :
    ∃ name, a = .line "jal" [name] := by
  rcases Placement.mem_emission hl with hmove | ⟨name, -, rfl⟩ | ⟨op, args, note, rfl, rfl⟩ |
    ⟨op, v, x, y, rfl, r, rfl⟩
  · cases l with
    | instr op args note =>
      obtain rfl : op = "jal" := by simpa [Line.isCall] using hcall
      simp [Line.IsMove] at hmove
    | label | comment => cases hcall
  · cases hcall
  · rcases h.cases_of_mem ha with hplain | hborder | ⟨n, hn⟩ | hjal
    · simp_all [isPlain, Line.isCall]
    · cases hborder
    · simp at hn
    · exact hjal
  · rcases h.cases_of_mem ha with hplain | hborder | ⟨n, hn⟩ | hjal
    · simp_all [isPlain, Line.isCall]
    · cases hborder
    · simp at hn
    · exact hjal

end Action.Guarded

namespace Request

/-- Whether a request needs more than a line to be written. -/
def asks : Request → Bool
  | .process _ => true
  | .perform a => a.asks

def action? : Request → Option Action
  | .process _ => none
  | .perform a => some a

end Request

lemma Program.action?_requests (p : Program) (f : Function) :
    (p.requests f).filterMap Request.action? = Scope.lower ⟨p, f⟩ := by
  rw [requests, List.filterMap_cons, List.filterMap_map]
  exact List.filterMap_some

/-- How the steps of a function are laid out. -/
structure Scope.Bracketed (s : Scope) (xs : List Step) : Prop where
  /-- The function is processed, then entered, and the parameters are stored. Then each block on the
  walk is entered, and left before the instruction that ends it. -/
  asked : (xs.map Step.request).filter Request.asks =
    .process s.function :: (.enterFunction :: s.takeParams ++ s.function.walk.flatMap fun b =>
      .enterBlock b :: s.asked b.straight ++ .exitBlock b :: s.asked b.ending).map .perform
  /-- The walk goes from the entry to where no block comes next. -/
  walk : Follows s.function.blocks s.function.entry? s.function.walk
  /-- It visits the blocks in the order of their numbers, each once. -/
  visits : s.function.walk = s.function.blocks
  order : s.function.walk.map Block.id = List.range s.function.blocks.length
  /-- Instructions do not enter or leave blocks. -/
  inside : ∀ b ∈ s.function.blocks, ∀ a ∈ s.asked b.positioned, a.isBorder = false
  /-- At most one instruction ends a block. -/
  ending : ∀ b ∈ s.function.blocks,
    b.ending = [] ∨ ∃ x, x.2.isTerminal = true ∧ b.ending = [x]
  code : s.function.walk.flatMap Block.positioned =
    (List.range s.function.code.length).zip s.function.code
  guarded : Action.Guarded ((xs.map Step.request).filterMap Request.action?) s.function.calls
  /-- No other step emits a jump to a function. -/
  jumps : ∀ x ∈ xs, ∀ l ∈ x.lines, l.isCall = true →
    ∃ name, x = ⟨.perform (.line "jal" [name]), [.instr "jal" [name] none]⟩

/-- The lines of a function are emitted, and the session is changed, by steps that begin with
processing the function. They enter and leave each block once and guard each call. -/
theorem generate_brackets_blocks {d : FunctionDef} {f : Function} (hd : d.build = .ok f)
    {s : Session} {a : Asm.Function} (hok : (s.generate f).2 = .ok a) :
    let xs := s.steps (s.program.requests f)
    a.lines = s.draft.lines ++ xs.flatMap Step.lines ∧
      (s.generate f).1 =
        { (xs.map Step.request).foldl (fun t r => (t.serve r).1) s with draft := {} } ∧
      Scope.Bracketed ⟨s.program, f⟩ xs := by
  intro xs
  have hf := d.built_of_build hd
  have hserve := s.serveAll_requests f
  obtain ⟨hfail, -, rfl⟩ := Session.generate_eq_ok_iff.mp (Prod.ext rfl hok)
  have hserved : (s.serveAll (s.program.requests f)).2.failure = none := by
    rw [hserve]
    exact hfail
  obtain ⟨hrequests, hsession⟩ := Session.serveAll_eq_foldl hserved
  have hguarded : Action.Guarded (Scope.lower ⟨s.program, f⟩) f.calls := Scope.guarded_lower hf
  refine ⟨?_, ?_, ?_⟩
  · rw [Session.lines_steps, hserve]
  · rw [hrequests, ← hsession, hserve, Session.generate_eq]
    rfl
  · constructor
    case asked =>
      rw [hrequests, Program.requests, List.filter_cons_of_pos rfl, List.filter_map,
        ← Scope.filter_lower hf]
      rfl
    case walk => exact hf.walk_eq.symm ▸ hf.follows
    case visits => exact hf.walk_eq
    case order =>
      rw [hf.walk_eq, hf.tiles.map_id]
      exact List.range_eq_range'.symm
    case inside =>
      intro b _ a ha
      obtain ⟨x, -, ha⟩ := List.mem_flatMap.mp ha
      exact Scope.isBorder_lowerInstruction (List.mem_filter.mp ha).1
    case ending => exact fun b hb => Block.ending_cases (hf.terminal b hb)
    case code => rw [hf.walk_eq, hf.tiles.flatMap_positioned, hf.code, List.range_eq_range']
    case guarded =>
      rw [hrequests, Program.action?_requests]
      exact hguarded
    case jumps =>
      rintro ⟨r, ls⟩ hx l hl hcall
      obtain ⟨hmem, t, hlines⟩ := Session.exists_of_mem_steps hx
      obtain rfl : ls = (t.serve r).2.lines := hlines
      obtain ⟨b, q, c, rfl, hq⟩ := Session.exists_emission_of_mem hl
      rw [hq] at hl ⊢
      have hmem : b ∈ Scope.lower ⟨s.program, f⟩ := by
        rw [← Program.action?_requests]
        exact List.mem_filterMap.mpr ⟨_, hmem, rfl⟩
      obtain ⟨name, rfl⟩ := hguarded.eq_jal_of_isCall hmem hl hcall
      exact ⟨name, rfl⟩

/-- The steps of the countdown with two registers for the whole function. -/
abbrev countdownSteps : List Step :=
  Session.steps { program := countdownProgram, strategy := .perFunction 2 }
    (countdownProgram.requests countdownFunction)

/-- The countdown calls from its first block. Each of its blocks is ended by an instruction. -/
theorem generate_brackets_countdown :
    countdown.build = .ok countdownFunction ∧
    (∃ a, (Session.generate { program := countdownProgram, strategy := .perFunction 2 }
        countdownFunction).2 = .ok a ∧ a.lines = countdownSteps.flatMap Step.lines) ∧
      Scope.Bracketed countdownScope countdownSteps ∧ countdownFunction.calls = [(0, "g")] ∧
      countdownFunction.walk.map (fun b => (b.straight.length, b.ending.length)) =
        [(0, 1), (1, 1), (0, 1)] := by
  let s : Session := { program := countdownProgram, strategy := .perFunction 2 }
  have hbuild : countdown.build = .ok countdownFunction := by decide +kernel
  have hfail : (s.emissionOf countdownFunction).failure = none := by decide +kernel
  have hok := congrArg Prod.snd (Session.generate_of_failure_eq_none (s := s) rfl hfail)
  obtain ⟨hlines, -, hsteps⟩ := generate_brackets_blocks hbuild hok
  refine ⟨hbuild, ⟨_, hok, hlines.trans (List.nil_append _)⟩, hsteps, ?_, ?_⟩ <;> decide +kernel

end MipsBackend
