import MipsBackend.Proofs.AllLines

/-! Literals. Where a line takes a literal, the name of a variable must not stand, for the variable
would not be read. Branches, array elements and what fills arrays take integers only, and a float
that is not shared passes for a literal there. All other variables are read. -/
namespace MipsBackend
open Asm Asm.Register

/-! ### Positions of literals -/

/-- The mnemonics of arithmetic. -/
def arithmeticOps : List String :=
  ["add", "sub", "mul", "div", "and", "or", "add.s", "sub.s", "mul.s", "div.s", "and.s", "or.s",
    "addiu", "sll"]

/-- Among operands those that may be literals: what is loaded as a constant, the last operand of
arithmetic, and what a branch compares. -/
def literalOperands {α : Type} (op : String) (args : List α) : List α :=
  if op ∈ ["li", "li.s"] then (args.drop 1).take 1
  else if op ∈ arithmeticOps then args.getLast?.toList
  else if op ∈ branchOps then args.take 2
  else []

lemma literalOperands_map {α β : Type} (g : α → β) (op : String) (args : List α) :
    literalOperands op (args.map g) = (literalOperands op args).map g := by
  unfold literalOperands
  split_ifs with h1 h2
  · simp
  · rw [List.getLast?_map]
    cases args.getLast? <;> rfl
  · simp
  · rfl

lemma literalOperands_eq_nil {α : Type} {op : String}
    (hop : op ∉ ["li", "li.s"] ++ arithmeticOps ++ branchOps) (args : List α) :
    literalOperands op args = [] := by
  simp only [List.mem_append, not_or] at hop
  simp only [literalOperands, hop, if_false]

namespace Asm.Line

def literals : Line → List String
  | .instr op args _ => literalOperands op args
  | _ => []

@[simp] lemma literals_load (isFloat : Bool) (args : List String) (note : Option String) :
    (instr (if isFloat then "l.s" else "lw") args note).literals = [] := by
  cases isFloat <;> exact literalOperands_eq_nil (by decide) args

@[simp] lemma literals_store (isFloat : Bool) (args : List String) (note : Option String) :
    (instr (if isFloat then "s.s" else "sw") args note).literals = [] := by
  cases isFloat <;> exact literalOperands_eq_nil (by decide) args

@[simp] lemma literals_move (args : List String) (note : Option String) :
    (instr "move" args note).literals = [] := literalOperands_eq_nil (by decide) args

@[simp] lemma literals_constant (isFloat : Bool) (r x : String) (note : Option String) :
    (instr (if isFloat then "li.s" else "li") [r, x] note).literals = [x] := by
  cases isFloat <;> rfl

lemma IsUpkeep.literals {l : Line} (h : l.IsUpkeep) : l.literals = [] := by
  rcases h with ⟨text, rfl⟩ | ⟨op, hop, n, x, note, rfl⟩
  · rfl
  · simp only [List.mem_cons, List.not_mem_nil, or_false] at hop
    rcases hop with rfl | rfl <;> exact literalOperands_eq_nil (by decide) _

end Asm.Line

/-- The text of an operand that does not stand for a register. -/
def Operand.text? : Operand → Option String
  | .text x => some x
  | .held _ => none

namespace Action

/-- What an action puts where literals stand. The destination of an operation is a register. -/
def literals : Action → List (Option String)
  | .emit op args _ => literalOperands op (args.map Operand.text?)
  | .write src _ => [src.text?]
  | .compute op _ x y => literalOperands op [none, x.text?, y.text?]
  | _ => []

lemma not_mem_literals_emit {op : String} (hop : op ∉ ["li", "li.s"] ++ arithmeticOps ++ branchOps)
    (x : Option String) (args : List Operand) (note : Option String) :
    x ∉ (emit op args note).literals := by
  rw [literals, literalOperands_eq_nil hop]
  exact List.not_mem_nil

@[simp] lemma literals_li (r x : String) : (line "li" [r, x]).literals = [some x] := rfl

@[simp] lemma literals_lis (r x : String) : (line "li.s" [r, x]).literals = [some x] := rfl

@[simp] lemma literals_add (x y z : String) : (line "add" [x, y, z]).literals = [some z] := rfl

@[simp] lemma literals_addiu (x y z : String) : (line "addiu" [x, y, z]).literals = [some z] := rfl

@[simp] lemma literals_sll (x y z : Operand) :
    (emit "sll" [x, y, z] none).literals = [z.text?] := rfl

@[simp] lemma literals_branch (cmp : Comparison) (x y z : Operand) (note : Option String) :
    (emit cmp.mnemonic [x, y, z] note).literals = [x.text?, y.text?] := by
  cases cmp <;> rfl

@[simp] lemma literals_arith (op : Arith) (isFloat : Bool) (u : String) (x y : Operand) :
    (compute (op.mnemonic ++ if isFloat then ".s" else "") u x y).literals = [y.text?] := by
  cases op <;> cases isFloat <;> rfl

end Action

section
variable {q : Placement} {c : Cache} {X : String → Prop} {a : Action} {v : String}

/-- Operands that are `v` or not at the same positions. -/
lemma mem_literalOperands_congr {op : String} {args : List String} {os : List (Option String)}
    (h : args.map (fun x => decide (x = v)) = os.map fun o => decide (o = some v)) :
    v ∈ literalOperands op args ↔ some v ∈ literalOperands op os := by
  have h := congrArg (fun l => true ∈ literalOperands op l) h
  simpa [literalOperands_map] using h

lemma resolve_eq_iff (hheld : c.Faithful) (hv : isRegister v = false) {o : Operand}
    (ho : ∀ r ∈ o.scratch?, r ∈ operandScratch) : c.resolve o = v ↔ o.text? = some v := by
  rcases Placement.isFloatRegister_resolve hheld ho with ⟨x, rfl, hx⟩ | ⟨r, -, rfl, hr, -⟩
  · simp [Operand.text?, hx]
  · simp only [Operand.text?, reduceCtorEq, iff_false]
    rintro rfl
    rw [hv] at hr
    cases hr

lemma literals_load {s : Scope} {u r : String} : ∀ l ∈ (s.load u r).lines, l.literals = [] := by
  unfold Scope.load
  split
  · simp [Scope.undeclared]
  · simp [notedLine]

lemma ne_of_isRegister {x : String} (hx : isRegister x = true) (hv : isRegister v = false) :
    x ≠ v := by
  rintro rfl
  rw [hv] at hx
  cases hx

/-- A text that is stored is loaded as a literal first, unless it is a register. -/
lemma literals_store {s : Scope} {u src : String} (hv : isRegister v = false)
    (hs : (s.store src u).failure = none) :
    (∀ l ∈ (s.store src u).lines, v ∉ l.literals) ↔ src ≠ v := by
  unfold Scope.store at hs ⊢
  split at hs
  · cases hs
  · dsimp only
    split
    · next hsrc => simpa [notedLine] using ne_of_isRegister hsrc hv
    · rw [List.forall_mem_cons, List.forall_mem_singleton]
      simp [plainLine, notedLine, eq_comm (a := v)]

lemma literals_moveLine {r src : String} {note : Option String} (hv : isRegister v = false) :
    v ∉ (Placement.moveLine r src note).literals ↔ src ≠ v := by
  unfold Placement.moveLine
  split
  · next hsrc => simpa using ne_of_isRegister hsrc hv
  · exact not_congr (List.mem_singleton.trans eq_comm)

/-- What an operation puts where literals stand, whatever register it computes in. -/
lemma literals_compute (hheld : c.Faithful) {op u r : String} {x y : Operand}
    (ha : (Action.compute op u x y).Tame q.toScope X) (hr : isRegister r = true)
    (hv : isRegister v = false) :
    v ∈ (plainLine op [r, c.resolve x, c.resolve y]).literals ↔
      some v ∈ (Action.compute op u x y).literals := by
  have hrv := ne_of_isRegister hr hv
  have hx := resolve_eq_iff hheld hv (o := x) fun r hr => ha.refersTo r (by simp_all)
  have hy := resolve_eq_iff hheld hv (o := y) fun r hr => ha.refersTo r (by simp_all)
  refine mem_literalOperands_congr ?_
  simp [hrv, hx, hy]

/-- Whether `v` stands where lines have literals can be told from the action. -/
lemma literals_emission (hc : q.Sound c) (hheld : c.Faithful) (ha : a.Tame q.toScope X)
    (hs : (q.emission c a).failure = none) (hv : isRegister v = false) :
    (∀ l ∈ (q.emission c a).lines, v ∉ l.literals) ↔ some v ∉ a.literals := by
  cases a with
  | comment | label => simp [Placement.emission, Line.literals, Action.literals]
  | emit op args note =>
    simp only [Placement.emission, Line.literals, Action.literals, List.forall_mem_singleton]
    refine not_congr (mem_literalOperands_congr ?_)
    rw [List.map_map, List.map_map]
    refine List.map_congr_left fun o ho => decide_eq_decide.mpr ?_
    refine resolve_eq_iff hheld hv fun r hr => ha.refersTo r ?_
    exact List.mem_filterMap.mpr ⟨o, ho, hr⟩
  | enterFunction | enterBlock | exitBlock | save | restore =>
    refine iff_of_true (fun l hl => ?_) (by simp [Action.literals])
    rw [(Placement.isUpkeep_emission hc rfl rfl l hl).literals]
    simp
  | read u r =>
    refine iff_of_true (fun l hl => ?_) (by simp [Action.literals])
    rw [Placement.emission] at hl
    split at hl
    · rw [literals_load l hl]
      simp
    · split at hl
      · obtain rfl := List.mem_singleton.mp hl
        simp [notedLine]
      · cases hl
  | write src u =>
    have hsrc := resolve_eq_iff hheld hv (o := src) fun r hr => ha.refersTo r (by simp_all)
    have hgoal : some v ∉ (Action.write src u).literals ↔ c.resolve src ≠ v := by
      simp [Action.literals, hsrc, eq_comm]
    rw [hgoal]
    rw [Placement.emission] at hs ⊢
    split at hs
    · exact literals_store hv hs
    · simpa using literals_moveLine hv
  | compute op u x y =>
    rw [Placement.emission] at hs ⊢
    split at hs
    · have hr : isRegister (if q.function.isFloat u then f4 else t2) = true := by
        split <;> rfl
      have hne := ne_of_isRegister hr hv
      rw [Scope.computeAndStore, Emission.lines_andThen rfl, List.forall_mem_append,
        List.forall_mem_singleton, literals_compute hheld ha hr hv,
        literals_store hv (Emission.failure_andThen.mp hs).2]
      exact and_iff_left hne
    · rw [List.forall_mem_singleton, literals_compute hheld ha (isRegister_saved _) hv]
  | fail => cases hs

end

/-! ### What is lowered -/

lemma isImmediate_toString (n : Nat) : isImmediate (toString n) = true := by
  have htext : (toString n).toList = Nat.toDigits 10 n ++ [] :=
    Nat.toList_repr.trans (List.append_nil _).symm
  exact isImmediate_of_toDigits htext

lemma isImmediate_minus (x : String) : isImmediate ("-" ++ x) = true := by
  have htext : ("-" ++ x).toList = '-' :: x.toList := by
    rw [String.toList_append]
    rfl
  rw [isImmediate, htext]
  rfl

namespace Scope
variable {s : Scope} {n : Nat} {i : Instruction} {v x r : String}

/-- A variable of the function whose name is not spelled like a literal or a register. -/
structure IsName (s : Scope) (v : String) : Prop where
  declared : s.function.isVar v = true
  spelled : isImmediate v = false

/-- The instruction takes integers only, and the variable is not taken for one. -/
def Misreads (s : Scope) (i : Instruction) (v : String) : Prop :=
  i.takesFloats = false ∧ v ∈ i.values ∧ s.isIntVar v = false

lemma not_misreads_of_takesFloats (h : i.takesFloats = true) : ¬ s.Misreads i v := by
  simp [Misreads, h]

lemma not_misreads_iff (h : i.takesFloats = false) :
    ¬ s.Misreads i v ↔ (s.isIntVar v = false → ∀ x ∈ i.values, x ≠ v) := by
  simp only [Misreads, h, true_and, not_and]
  exact ⟨fun h hint x hx he => h (he ▸ hx) hint, fun h hv hint => h hint v hv rfl⟩

namespace IsName
variable (hv : s.IsName v)
include hv

lemma ne_of_isImmediate (hx : isImmediate x = true) : x ≠ v := by
  rintro rfl
  rw [hv.spelled] at hx
  cases hx

lemma isRegister_eq_false : isRegister v = false := by
  rw [Bool.eq_false_iff]
  intro h
  obtain ⟨cs, hcs⟩ := isRegister_iff.mp h
  have : isImmediate v = true := by simp [isImmediate, hcs]
  rw [hv.spelled] at this
  cases this

/-- What is neither an integer variable nor a float is no variable. -/
lemma ne_of_undeclared (hint : ¬ s.isIntVar x = true) (hfloat : ¬ s.function.isFloat x = true) :
    x ≠ v := by
  rintro rfl
  have hvar := hv.declared
  rw [FunctionDef.isVar, Bool.or_eq_true] at hvar
  refine hvar.elim (fun h => hint ?_) hfloat
  rw [isIntVar, h, Bool.true_or]

/-- An operand that must be an integer is taken for a literal if it is none. -/
lemma literals_intSource (x r : String) :
    (∀ a ∈ (s.intSource x r).actions, some v ∉ a.literals) ↔ (s.isIntVar v = false → x ≠ v) := by
  unfold intSource
  split
  · next hx =>
    refine iff_of_true (by simp [Source.var, Action.literals]) fun hint => ?_
    rintro rfl
    rw [hx] at hint
    cases hint
  · next hx =>
    have hxv : x = v → s.isIntVar v = false := by
      rintro rfl
      exact Bool.eq_false_iff.mpr hx
    refine List.forall_mem_singleton.trans ?_
    rw [Action.literals_li, List.mem_singleton, Option.some.injEq]
    exact ⟨fun h _ he => h he.symm, fun h he => h (hxv he.symm) he.symm⟩

lemma text?_intSource (x : String) (hr : isImmediate r = true) :
    (s.intSource x r).operand.text? ≠ some v := by
  unfold intSource
  split
  · simp [Source.var, Operand.text?]
  · simpa [Source.loaded, Operand.text?] using hv.ne_of_isImmediate hr

/-- Where floats may stand, no variable is taken for a literal. -/
lemma literals_plainSource (x r r' : String) :
    (∀ a ∈ (s.plainSource x r r').actions, some v ∉ a.literals) ∧
      (s.plainSource x r r').operand.text? ≠ some v := by
  unfold plainSource
  split
  · simp [Source.var, Operand.text?, Action.literals]
  · next hint =>
    split
    · simp [Source.var, Operand.text?, Action.literals]
    · next hfloat =>
      simpa [Source.literal, Operand.text?] using hv.ne_of_undeclared hint hfloat

lemma literals_leftSource (x : String) :
    ∀ a ∈ (s.leftSource x).actions, some v ∉ a.literals := by
  unfold leftSource
  split
  · simp [Source.var, Action.literals]
  · next hint =>
    split
    · simp [Source.var, Action.literals]
    · next hfloat =>
      have hne := (hv.ne_of_undeclared hint hfloat).symm
      split <;> simpa [Source.loaded] using hne

lemma literals_rightSource (x : String) :
    (∀ a ∈ (s.rightSource x).actions, some v ∉ a.literals) ∧
      (s.rightSource x).operand.text? ≠ some v := by
  unfold rightSource
  split
  · simp [Source.var, Operand.text?, Action.literals]
  · next hint =>
    split
    · simp [Source.var, Operand.text?, Action.literals]
    · next hfloat =>
      have hne := hv.ne_of_undeclared hint hfloat
      split
      · refine ⟨by simpa [Source.loaded] using hne.symm, ?_⟩
        simpa [Source.loaded, Operand.text?] using hv.ne_of_isImmediate (x := f2) rfl
      · simpa [Source.literal, Operand.text?] using hne

lemma literals_lowerArgument (x r : String) (isFloat : Bool) :
    ∀ a ∈ s.lowerArgument x r isFloat, some v ∉ a.literals := by
  unfold lowerArgument
  split
  · simp
  · split
    · simp [Action.literals]
    · next hx =>
      have hne : v ≠ x := by
        rintro rfl
        simp [hv.declared] at hx
      cases isFloat <;> simpa using hne

lemma literals_lowerCall (n : Nat) (name x y : String) :
    ∀ a ∈ s.lowerCall n name x y, some v ∉ a.literals := by
  refine List.forall_mem_append.mpr ⟨List.forall_mem_append.mpr
    ⟨hv.literals_lowerArgument _ _ _, hv.literals_lowerArgument _ _ _⟩, ?_⟩
  split
  · next code _ =>
    have hcode := (hv.ne_of_isImmediate (isImmediate_toString code)).symm
    refine List.forall_mem_cons.mpr ⟨by simpa using hcode, List.forall_mem_singleton.mpr ?_⟩
    exact Action.not_mem_literals_emit (by decide) _ _ _
  · refine List.forall_mem_cons.mpr ⟨by simp [Action.literals], List.forall_mem_cons.mpr ⟨?_, ?_⟩⟩
    · exact Action.not_mem_literals_emit (by decide) _ _ _
    · simp [Action.literals]

lemma literals_elementAddress (array index : String) (hr : isImmediate r = true) :
    (∀ a ∈ s.elementAddress array index r, some v ∉ a.literals) ↔
      (s.isIntVar v = false → index ≠ v) := by
  rw [elementAddress, List.forall_mem_append, hv.literals_intSource]
  refine and_iff_left ?_
  have htwo : v ≠ "2" := (hv.ne_of_isImmediate rfl).symm
  have hscratch := (hv.ne_of_isImmediate hr).symm
  have hla : some v ∉ (Action.line "la" [t0, array]).literals :=
    Action.not_mem_literals_emit (by decide) _ _ _
  simp [Operand.text?, hla, htwo, hscratch]

lemma literals_lowerReturn (i : Instruction) : ∀ a ∈ s.lowerReturn i, some v ∉ a.literals := by
  refine List.forall_mem_append.mpr ⟨?_, ?_⟩
  · unfold lowerResult
    split
    · simp
    · split
      · simp [Action.literals]
      · next hint =>
        split
        · simp [Action.literals]
        · next hfloat => simpa using (hv.ne_of_undeclared hint hfloat).symm
  · have hframe := (hv.ne_of_isImmediate (isImmediate_toString s.frame)).symm
    refine List.forall_mem_cons.mpr ⟨Action.not_mem_literals_emit (by decide) _ _ _,
      List.forall_mem_cons.mpr ⟨by simpa using hframe, List.forall_mem_singleton.mpr ?_⟩⟩
    exact Action.not_mem_literals_emit (by decide) _ _ _

/-- What a branch compares with is a literal unless it is an integer variable. -/
lemma literals_compared (y : String) :
    (∀ a ∈ Source.actions (if s.isIntVar y then .var y t1 false else .literal y),
      some v ∉ a.literals) ∧
    (some v ≠ Operand.text?
        (Source.operand (if s.isIntVar y then .var y t1 false else .literal y)) ↔
      (s.isIntVar v = false → y ≠ v)) := by
  split
  · next hy =>
    refine ⟨by simp [Source.var, Action.literals],
      iff_of_true (by simp [Source.var, Operand.text?]) ?_⟩
    rintro hint rfl
    rw [hy] at hint
    cases hint
  · next hy =>
    refine ⟨by simp [Source.literal], ?_⟩
    simp only [Source.literal, Operand.text?, ne_eq, Option.some.injEq]
    refine ⟨fun h _ he => h he.symm, fun h he => h ?_ he.symm⟩
    rw [he]
    exact Bool.eq_false_iff.mpr hy

/-- Both sides of a branch are taken for literals if they are not integers. -/
lemma literals_lowerBranch (cmp : Comparison) (i : Instruction) :
    (∀ a ∈ s.lowerBranch cmp i, some v ∉ a.literals) ↔
      (s.isIntVar v = false → i.arg1 ≠ v ∧ i.arg2 ≠ v) := by
  have hleft := (hv.text?_intSource i.arg1 (r := t0) rfl).symm
  have hright := hv.literals_compared i.arg2
  unfold lowerBranch
  dsimp only
  rw [List.forall_mem_append, List.forall_mem_append, hv.literals_intSource,
    List.forall_mem_singleton, Action.literals_branch, List.mem_cons, List.mem_singleton, not_or,
    and_iff_left hright.1, and_iff_right hleft, ← ne_eq, hright.2, imp_and]

lemma literals_lowerAssign (i : Instruction) : ∀ a ∈ s.lowerAssign i, some v ∉ a.literals := by
  have hsrc := hv.literals_plainSource i.arg2 t0 f0
  refine List.forall_mem_append.mpr ⟨hsrc.1, List.forall_mem_singleton.mpr ?_⟩
  simpa [Action.literals, eq_comm] using hsrc.2

lemma literals_lowerArith (op : Arith) (i : Instruction) :
    ∀ a ∈ s.lowerArith op i, some v ∉ a.literals := by
  have hx := hv.literals_leftSource i.arg1
  have hy := hv.literals_rightSource i.arg2
  refine List.forall_mem_append.mpr ⟨List.forall_mem_append.mpr ⟨hx, hy.1⟩,
    List.forall_mem_singleton.mpr ?_⟩
  rw [Action.literals_arith, List.mem_singleton]
  exact hy.2.symm

/-- What fills an array is taken for a literal if it is not an integer. -/
lemma literals_lowerArrayInit (i : Instruction) (hlength : Text.integer? i.arg2.toList ≠ none) :
    (∀ a ∈ s.lowerArrayInit i, some v ∉ a.literals) ↔ (s.isIntVar v = false → i.arg3 ≠ v) := by
  unfold lowerArrayInit
  split
  · next hnone => exact absurd hnone hlength
  · have hla : some v ∉ (Action.line "la" [t0, i.arg1]).literals :=
      Action.not_mem_literals_emit (by decide) _ _ _
    have hsw : ∀ args, some v ∉ (Action.emit "sw" args none).literals :=
      fun args => Action.not_mem_literals_emit (by decide) _ _ _
    rw [List.forall_mem_append, List.forall_mem_cons, hv.literals_intSource]
    simp [hla, hsw]

lemma literals_lowerArrayStore (i : Instruction) :
    (∀ a ∈ s.lowerArrayStore i, some v ∉ a.literals) ↔
      (s.isIntVar v = false → i.arg3 ≠ v ∧ i.arg2 ≠ v) := by
  have hsw : ∀ args, some v ∉ (Action.emit "sw" args none).literals :=
    fun args => Action.not_mem_literals_emit (by decide) _ _ _
  have hcomment : ∀ text, some v ∉ (Action.comment text).literals := by simp [Action.literals]
  unfold lowerArrayStore
  dsimp only
  rw [List.forall_mem_append, List.forall_mem_append, List.forall_mem_cons,
    hv.literals_intSource, hv.literals_elementAddress _ _ rfl]
  simp [hsw, hcomment, imp_and]

lemma literals_lowerArrayLoad (i : Instruction) :
    (∀ a ∈ s.lowerArrayLoad i, some v ∉ a.literals) ↔ (s.isIntVar v = false → i.arg3 ≠ v) := by
  have hlw : some v ∉ (Action.line "lw" [t1, address 0 t0]).literals :=
    Action.not_mem_literals_emit (by decide) _ _ _
  have hwrite : some v ∉ (Action.write (.text t1) i.arg1).literals := by
    simpa [Action.literals, Operand.text?] using (hv.ne_of_isImmediate (x := t1) rfl).symm
  have hcomment : ∀ text, some v ∉ (Action.comment text).literals := by simp [Action.literals]
  unfold lowerArrayLoad
  rw [List.forall_mem_append, List.forall_mem_cons, hv.literals_elementAddress _ _ rfl]
  simp [hlw, hwrite, hcomment]

lemma literals_lowerCallResult (x : String) : some v ∉ (s.lowerCallResult x).literals := by
  have hresult : v ≠ if s.function.isFloat x then f0 else v0 := by
    split <;> exact (hv.ne_of_isImmediate rfl).symm
  simpa [lowerCallResult, Action.literals, Operand.text?] using hresult

/-- Whether an instruction takes a variable for a literal. -/
lemma literals_lowerInstruction (n : Nat) (hi : s.offence? i = none) :
    (∀ a ∈ s.lowerInstruction n i, some v ∉ a.literals) ↔ ¬ s.Misreads i v := by
  obtain ⟨op, x, y, z, label⟩ := i
  cases op with
  | assign =>
    simp only [lowerInstruction]
    split
    · next hz =>
      have hz : z = "" := hz
      exact iff_of_true (hv.literals_lowerAssign _)
        (not_misreads_of_takesFloats (by simp [Instruction.takesFloats, hz]))
    · next hz =>
      have hz : z ≠ "" := hz
      have hlength : Text.integer? y.toList ≠ none := by
        intro hnone
        simp [offence?, hz, hnone] at hi
      rw [not_misreads_iff (by simp [Instruction.takesFloats, hz])]
      refine (hv.literals_lowerArrayInit ⟨.assign, x, y, z, label⟩ hlength).trans ?_
      simp [Instruction.values, hz]
  | arith op =>
    exact iff_of_true (hv.literals_lowerArith op _) (not_misreads_of_takesFloats rfl)
  | goto =>
    refine iff_of_true (List.forall_mem_singleton.mpr ?_) (not_misreads_of_takesFloats rfl)
    exact Action.not_mem_literals_emit (by decide) _ _ _
  | branch cmp =>
    rw [not_misreads_iff rfl]
    exact (hv.literals_lowerBranch cmp _).trans (by simp [Instruction.values])
  | ret => exact iff_of_true (hv.literals_lowerReturn _) (not_misreads_of_takesFloats rfl)
  | call =>
    exact iff_of_true (hv.literals_lowerCall _ _ _ _) (not_misreads_of_takesFloats rfl)
  | callr =>
    exact iff_of_true (List.forall_mem_append.mpr ⟨hv.literals_lowerCall _ _ _ _,
      List.forall_mem_singleton.mpr (hv.literals_lowerCallResult x)⟩)
      (not_misreads_of_takesFloats rfl)
  | arrayStore =>
    rw [not_misreads_iff rfl]
    exact (hv.literals_lowerArrayStore _).trans (by simp [Instruction.values])
  | arrayLoad =>
    rw [not_misreads_iff rfl]
    exact (hv.literals_lowerArrayLoad _).trans (by simp [Instruction.values])
  | other => simp [offence?] at hi

end IsName

lemma not_mem_literals_of_isFixed (hv : s.IsName v) {a : Action} (ha : s.IsFixed a) :
    some v ∉ a.literals := by
  rcases ha with rfl | ha | ⟨l, rfl⟩ | ⟨b, rfl⟩ | ⟨b, rfl⟩
  · simp [Action.literals]
  · simp only [openFrame, List.mem_cons, List.not_mem_nil, or_false] at ha
    rcases ha with rfl | rfl
    · simpa using (hv.ne_of_isImmediate (isImmediate_minus _)).symm
    · exact Action.not_mem_literals_emit (by decide) _ _ _
  · simp [Action.literals]
  · simp [Action.literals]
  · simp [Action.literals]

lemma not_mem_literals_takeParams (hv : s.IsName v) :
    ∀ a ∈ s.takeParams, some v ∉ a.literals := by
  intro a ha
  obtain ⟨x, -, rfl⟩ := List.mem_map.mp ha
  have hne : isImmediate (Register.arg x.2) = true := by
    rw [isImmediate, toList_arg]
    rfl
  simpa [Action.literals, Operand.text?] using (hv.ne_of_isImmediate hne).symm

end Scope

/-- Whether a variable stands where a literal belongs. -/
lemma Strategy.forall_not_mem_literals_iff {g : Strategy} {s : Scope} {v : String}
    (hf : s.function.Built) (hv : s.IsName v)
    (hs : ((g.place s).run {} s.lower).failure = none) :
    (∀ l ∈ ((g.place s).run {} s.lower).lines, v ∉ l.literals) ↔
      ∀ i ∈ s.function.code, ¬ s.Misreads i v := by
  have hoffence := Strategy.offence?_eq_none hf hs
  have hall := Strategy.forall_lines_iff (C := fun i => ¬ s.Misreads i v) hf
    (X := fun _ => True) (fun _ _ _ _ => trivial)
    (fun c a hc hheld ha hs => literals_emission hc hheld ha hs hv.isRegister_eq_false)
    (fun a ha => Scope.not_mem_literals_of_isFixed hv ha)
    (fun n i hi => hv.literals_lowerInstruction n (hoffence i hi)) hs
  rwa [and_iff_right (Scope.not_mem_literals_takeParams hv)] at hall

/-- A variable stands where a literal belongs just if it is an operand of a branch, an array access
or an array that is filled, and is a float that no other function shares. -/
theorem literal_variable_iff_misread {text : String} {p : Program} {f : Function}
    (h : (readProgram text).result = .ok p) (hf : f ∈ p.functions) (g : Strategy) (left : Cache)
    {a : Asm.Function}
    (hok : (Session.generate { program := p, strategy := g, cache := left } f).2 = .ok a)
    {v : String} (hvar : f.isVar v = true) (hname : isImmediate v = false) :
    (∃ l ∈ a.lines, v ∈ l.literals) ↔
      ∃ i ∈ f.code, i.takesFloats = false ∧ v ∈ i.values ∧
        Scope.isIntVar ⟨p, f⟩ v = false := by
  have hbuilt := (wellFormed_of_readProgram h hf).built
  have hv : Scope.IsName ⟨p, f⟩ v := ⟨hvar, hname⟩
  obtain ⟨hs, -, rfl⟩ := Session.generate_eq_ok_iff.mp (Prod.ext rfl hok)
  have hall := Strategy.forall_not_mem_literals_iff (s := ⟨p, f⟩) hbuilt hv hs
  rw [← not_iff_not]
  simpa only [not_exists, not_and, List.nil_append, Session.emissionOf, Scope.Misreads] using hall

/-- No variable of the countdown is taken for a literal. -/
theorem literal_variable_countdown :
    (readProgram countdownText).result = .ok countdownProgram ∧
    ∃ a, (Session.generate { program := countdownProgram, strategy := .perBlock 2 }
        countdownFunction).2 = .ok a ∧
      ∀ v ∈ ["n", "d", "t"], countdownFunction.isVar v = true ∧ isImmediate v = false ∧
        ¬ ∃ l ∈ a.lines, v ∈ l.literals := by
  let s : Session := { program := countdownProgram, strategy := .perBlock 2 }
  have hfail : (s.emissionOf countdownFunction).failure = none := by decide +kernel
  have hok := congrArg Prod.snd (Session.generate_of_failure_eq_none (s := s) rfl hfail)
  have hnames : ∀ v ∈ ["n", "d", "t"], countdownFunction.isVar v = true ∧ isImmediate v = false ∧
      countdownScope.isIntVar v = true := by
    decide +kernel
  refine ⟨readProgram_countdown, _, hok, fun v hv => ?_⟩
  obtain ⟨hvar, hname, hint⟩ := hnames v hv
  refine ⟨hvar, hname, ?_⟩
  rw [literal_variable_iff_misread readProgram_countdown mem_countdownProgram (.perBlock 2) {} hok
    hvar hname]
  rintro ⟨i, -, -, -, hnot⟩
  rw [show Scope.isIntVar ⟨countdownProgram, countdownFunction⟩ v = true from hint] at hnot
  cases hnot

/-! ### A float that is compared -/

def comparing : FunctionDef where
  name := "f"
  floats := ["x"]
  code := [{ op := .branch .eq, arg1 := "x", arg2 := "0", arg3 := "l", label := some "l" },
    { op := .ret }]

def comparingFunction : Function := comparing.build.toOption.get (by decide +kernel)

def comparingLines : List String :=
  ["#start_function f\n", "int f()\n", "float-list: x\n", "l:\n", "breq, x, 0, l\n", "return\n",
    "#end_function\n"]

def comparingText : String := String.ofList (comparingLines.flatMap String.toList)

/-- The name of the float is loaded as if it were a number. -/
theorem compared_float_literal :
    (readProgram comparingText).result = .ok (.ofFunctions [comparingFunction]) ∧
    comparingFunction.isVar "x" = true ∧ isImmediate "x" = false ∧
    ∃ a, (Session.generate { program := .ofFunctions [comparingFunction], strategy := .memory }
        comparingFunction).2 = .ok a ∧
      ∃ l ∈ a.lines, "x" ∈ l.literals ∧ l.text = "li, $t0, x" := by
  have htext : comparingText.toList = comparingLines.flatMap String.toList := String.toList_ofList
  have hread : (readProgram comparingText).result = .ok (.ofFunctions [comparingFunction]) := by
    unfold readProgram
    rw [htext]
    decide +kernel
  let s : Session := { program := .ofFunctions [comparingFunction], strategy := .memory }
  have hfail : (s.emissionOf comparingFunction).failure = none := by decide +kernel
  have hok := congrArg Prod.snd (Session.generate_of_failure_eq_none (s := s) rfl hfail)
  have hline : .instr "li" ["$t0", "x"] none ∈ (s.emissionOf comparingFunction).lines := by
    decide +kernel
  exact ⟨hread, rfl, rfl, _, hok, _, hline, by decide, by decide +kernel⟩

end MipsBackend
