import MipsBackend.Proofs.Failures

/-! Accesses to variables. Liveness takes from the operands of an instruction which variables it
reads and writes; lowering takes it from its opcode. Both come to the same: what an instruction is
lowered to reads its uses and writes its definition, each as often as it stands among the operands,
and it reads before it writes. -/
namespace MipsBackend
open Asm Asm.Register

namespace Action

/-- The variable that an action reads. -/
def read? : Action → Option String
  | .read v _ => some v
  | _ => none

/-- The variable that an action writes. -/
def written? : Action → Option String
  | .write _ v => some v
  | .compute _ v _ _ => some v
  | _ => none

/-- Actions that read and write the variables of two lists, one after the other, and do not read
after they have written. -/
structure Accesses (as : List Action) (reads writes : List String) : Prop where
  reads : as.filterMap read? = reads
  writes : as.filterMap written? = writes
  order : as.Pairwise fun a b => a.written? = none ∨ b.read? = none

namespace Accesses
variable {as bs : List Action} {rs rs' ws : List String} {a : Action} {v r : String}

lemma nil : Accesses [] [] [] := ⟨rfl, rfl, .nil⟩

lemma read : Accesses [.read v r] [v] [] := ⟨rfl, rfl, List.pairwise_singleton _ _⟩

lemma write {src : Operand} : Accesses [.write src v] [] [v] :=
  ⟨rfl, rfl, List.pairwise_singleton _ _⟩

lemma compute {op : String} {x y : Operand} : Accesses [.compute op v x y] [] [v] :=
  ⟨rfl, rfl, List.pairwise_singleton _ _⟩

/-- What comes before the write, and what comes with it or after it. -/
lemma append (ha : Accesses as rs []) (hb : Accesses bs rs' ws) :
    Accesses (as ++ bs) (rs ++ rs') ws where
  reads := by rw [List.filterMap_append, ha.reads, hb.reads]
  writes := by rw [List.filterMap_append, ha.writes, hb.writes, List.nil_append]
  order := by
    refine List.pairwise_append.mpr ⟨ha.order, hb.order, fun a hmem b _ => Or.inl ?_⟩
    exact List.filterMap_eq_nil_iff.mp ha.writes a hmem

/-- Nothing is read any more. -/
lemma append_silent (ha : Accesses as rs ws) (hb : Accesses bs [] []) :
    Accesses (as ++ bs) rs ws where
  reads := by rw [List.filterMap_append, ha.reads, hb.reads, List.append_nil]
  writes := by rw [List.filterMap_append, ha.writes, hb.writes, List.append_nil]
  order := by
    refine List.pairwise_append.mpr ⟨ha.order, hb.order, fun a _ b hmem => Or.inr ?_⟩
    exact List.filterMap_eq_nil_iff.mp hb.reads b hmem

lemma then_write (ha : Accesses as rs []) (hb : Accesses bs [] ws) : Accesses (as ++ bs) rs ws :=
  List.append_nil rs ▸ ha.append hb

lemma cons (hread : a.read? = none) (hwrite : a.written? = none) (has : Accesses as rs ws) :
    Accesses (a :: as) rs ws where
  reads := by rw [List.filterMap_cons_none hread, has.reads]
  writes := by rw [List.filterMap_cons_none hwrite, has.writes]
  order := List.pairwise_cons.mpr ⟨fun _ _ => Or.inl hwrite, has.order⟩

lemma emit {op : String} {args : List Operand} {note : Option String} (has : Accesses as rs ws) :
    Accesses (.emit op args note :: as) rs ws := has.cons rfl rfl

lemma comment {text : String} (has : Accesses as rs ws) : Accesses (.comment text :: as) rs ws :=
  has.cons rfl rfl

end Accesses
end Action

/-! ### Operands -/

namespace Instruction
variable {i : Instruction}

/-- An assignment with three operands fills an array. -/
def fillsArray (i : Instruction) : Bool := decide (i.op = .assign) && decide (i.arg3 ≠ "")

/-- The operand that is used, but not for the value of a variable: the array that is addressed, or
the length to which one is filled. -/
def unread? (i : Instruction) : Option String :=
  match i.op with
  | .assign => if i.arg3 = "" then none else some i.arg2
  | .arrayStore => some i.arg1
  | .arrayLoad => some i.arg2
  | _ => none

/-- The operands whose values are needed, in the order in which they are fetched. -/
def values (i : Instruction) : List String :=
  match i.op with
  | .assign => if i.arg3 = "" then [i.arg2] else [i.arg3]
  | .arith _ | .branch _ => [i.arg1, i.arg2]
  | .ret => [i.arg1]
  | .call => [i.arg2, i.arg3]
  | .callr => [i.arg3]
  | .arrayStore => [i.arg3, i.arg2]
  | .arrayLoad => [i.arg3]
  | .goto | .other _ => []

/-- Whether the values may be floats: where they are moved, passed or computed with. -/
def takesFloats (i : Instruction) : Bool :=
  match i.op with
  | .assign => decide (i.arg3 = "")
  | .branch _ | .arrayStore | .arrayLoad => false
  | _ => true

/-- The operand to which the result goes. -/
def results (i : Instruction) : List String :=
  match i.op with
  | .assign => if i.arg3 = "" then [i.arg1] else []
  | .arith _ => [i.arg3]
  | .callr | .arrayLoad => [i.arg1]
  | .goto | .branch _ | .ret | .call | .arrayStore | .other _ => []

/-- The values that are needed are the uses without the operand that is not read. -/
lemma values_perm (i : Instruction) :
    (i.values.filter (· ≠ "")).Perm (i.uses.diff i.unread?.toList) := by
  obtain ⟨op, x, y, z, label⟩ := i
  cases op with
  | assign =>
    by_cases hz : z = ""
    · simp [values, uses, unread?, hz, List.filter_cons]
    · by_cases hy : y = "" <;> simp [values, uses, unread?, hz, hy]
  | arith | branch | ret | call | callr | goto | other => simp [values, uses, unread?]
  | arrayStore =>
    by_cases hx : x = "" <;> by_cases hy : y = "" <;> by_cases hz : z = "" <;>
      simp [values, uses, unread?, hx, hy, hz, List.Perm.swap]
  | arrayLoad =>
    by_cases hy : y = "" <;> by_cases hz : z = "" <;> simp [values, uses, unread?, hy, hz]

lemma mem_uses_of_mem_values {v : String} (h : v ∈ i.values) (hv : v ≠ "") : v ∈ i.uses := by
  have hmem : v ∈ i.values.filter (· ≠ "") := List.mem_filter.mpr ⟨h, by simpa using hv⟩
  exact List.diff_subset _ _ (i.values_perm.subset hmem)

lemma eq_singleton_of_mem_results {v : String} (h : v ∈ i.results) : i.results = [v] := by
  obtain ⟨op, x, y, z, label⟩ := i
  cases op with
  | assign =>
    by_cases hz : z = ""
    · simp_all [results]
    · simp [results, hz] at h
  | arith | callr | arrayLoad => simp_all [results]
  | goto | branch | ret | call | arrayStore | other => cases h

lemma defs_eq_filter_results (h : i.fillsArray = false) : i.defs = i.results.filter (· ≠ "") := by
  obtain ⟨op, x, y, z, label⟩ := i
  cases op <;> simp_all [defs, results, fillsArray]

lemma results_of_fillsArray (h : i.fillsArray = true) : i.results = [] := by
  obtain ⟨op, x, y, z, label⟩ := i
  cases op <;> simp_all [results, fillsArray]

end Instruction

/-! ### Lowering -/

namespace Scope
open MipsBackend.Action
variable {s : Scope} {i : Instruction} {v r : String} {n : Nat}

/-- Whether an instruction fetches the value of an operand from a variable. -/
def fetches (s : Scope) (i : Instruction) (v : String) : Bool :=
  if i.takesFloats then decide (s.Addressable v) else s.isIntVar v

lemma fetches_of_isIntVar (h : s.isIntVar v = true) : s.fetches i v = true := by
  unfold fetches
  split
  · exact decide_eq_true (addressable_of_isIntVar h)
  · exact h

lemma addressable_of_fetches (h : s.fetches i v = true) : s.Addressable v := by
  unfold fetches at h
  split at h
  · exact of_decide_eq_true h
  · exact addressable_of_isIntVar h

lemma addressable_iff : s.Addressable v ↔ s.isIntVar v = true ∨ s.function.isFloat v = true := by
  rw [Addressable, FunctionDef.isVar, isIntVar, Bool.or_eq_true, Bool.or_eq_true]
  tauto

lemma ne_empty_of_addressable (hname : ¬ s.Addressable "") (hv : s.Addressable v) : v ≠ "" := by
  rintro rfl
  exact hname hv

/-- Integer variables are fetched whatever the instruction takes. -/
lemma filter_fetches (hname : ¬ s.Addressable "") {vs : List String} :
    (vs.filter (s.fetches i)).filter s.isIntVar = (vs.filter (· ≠ "")).filter s.isIntVar := by
  rw [List.filter_filter, List.filter_filter]
  apply List.filter_congr
  intro v _
  cases hint : s.isIntVar v with
  | false => rfl
  | true =>
    simp [fetches_of_isIntVar hint, ne_empty_of_addressable hname (addressable_of_isIntVar hint)]

lemma filter_pair (p : String → Bool) (x y : String) :
    [x, y].filter p = [x].filter p ++ [y].filter p :=
  List.filter_append [x] [y]

/-- A variable is read. -/
lemma accesses_read {p : String → Bool} (h : p v = true) :
    Accesses [.read v r] ([v].filter p) [] := by
  rw [List.filter_singleton, h]
  exact .read

/-- Nothing is read for an operand that is no variable. -/
lemma accesses_unread {p : String → Bool} {as : List Action} (h : p v = false)
    (has : Accesses as [] []) : Accesses as ([v].filter p) [] := by
  rw [List.filter_singleton, h]
  exact has

lemma accesses_intSource : Accesses (s.intSource v r).actions ([v].filter s.isIntVar) [] := by
  unfold intSource
  split
  · next h => exact accesses_read h
  · next h => exact accesses_unread (Bool.eq_false_iff.mpr h) (.emit .nil)

/-- An operand that may be an integer or a float variable. -/
lemma accesses_choice {as bs cs : List Action} (ha : Accesses as [v] []) (hb : Accesses bs [v] [])
    (hc : Accesses cs [] []) :
    Accesses (if s.isIntVar v then as else if s.function.isFloat v then bs else cs)
      ([v].filter (s.Addressable ·)) [] := by
  rw [List.filter_singleton]
  split
  · next hint =>
    rw [decide_eq_true (addressable_of_isIntVar hint)]
    exact ha
  · next hint =>
    split
    · next hfloat =>
      rw [decide_eq_true (addressable_of_isFloat hfloat)]
      exact hb
    · next hfloat =>
      rw [decide_eq_false fun hv => (addressable_iff.mp hv).elim hint hfloat]
      exact hc

lemma accesses_plainSource {r' : String} :
    Accesses (s.plainSource v r r').actions ([v].filter (s.Addressable ·)) [] := by
  rw [plainSource, apply_ite Source.actions, apply_ite Source.actions]
  exact accesses_choice .read .read .nil

lemma accesses_leftSource :
    Accesses (s.leftSource v).actions ([v].filter (s.Addressable ·)) [] := by
  rw [leftSource, apply_ite Source.actions, apply_ite Source.actions]
  apply accesses_choice .read .read
  split <;> exact .emit .nil

lemma accesses_rightSource :
    Accesses (s.rightSource v).actions ([v].filter (s.Addressable ·)) [] := by
  rw [rightSource, apply_ite Source.actions, apply_ite Source.actions]
  apply accesses_choice .read .read
  split
  · exact .emit .nil
  · exact .nil

lemma accesses_lowerArrayInit (h : (Text.integer? i.arg2.toList).isNone = false) :
    Accesses (s.lowerArrayInit i) ([i.arg3].filter s.isIntVar) [] := by
  unfold lowerArrayInit
  cases hn : Text.integer? i.arg2.toList with
  | none =>
    rw [hn] at h
    cases h
  | some n =>
    refine .emit (accesses_intSource.append_silent ?_)
    -- one store for each word
    generalize List.range n.toNat = ks
    induction ks with
    | nil => exact .nil
    | cons k ks ih => exact .emit ih

lemma accesses_lowerBranch (cmp : Comparison) :
    Accesses (s.lowerBranch cmp i) ([i.arg1, i.arg2].filter s.isIntVar) [] := by
  have hright : Accesses
      (if s.isIntVar i.arg2 then Source.var i.arg2 t1 false else .literal i.arg2).actions
      ([i.arg2].filter s.isIntVar) [] := by
    split
    · next h => exact accesses_read h
    · next h => exact accesses_unread (Bool.eq_false_iff.mpr h) .nil
  rw [filter_pair]
  exact (accesses_intSource.append hright).append_silent (.emit .nil)

lemma accesses_lowerReturn (hname : ¬ s.Addressable "") :
    Accesses (s.lowerReturn i) ([i.arg1].filter (s.Addressable ·)) [] := by
  refine Accesses.append_silent ?_ (.emit (.emit (.emit .nil)))
  unfold lowerResult
  split
  · next h =>
    rw [h]
    exact accesses_unread (decide_eq_false hname) .nil
  · exact accesses_choice .read .read (.emit .nil)

lemma accesses_lowerArgument (hname : ¬ s.Addressable "") {isFloat : Bool} :
    Accesses (s.lowerArgument v r isFloat) ([v].filter (s.Addressable ·)) [] := by
  unfold lowerArgument
  split
  · next h =>
    rw [h]
    exact accesses_unread (decide_eq_false hname) .nil
  · split
    · next h => exact accesses_read (decide_eq_true (Bool.or_eq_true_iff.mp h))
    · next h =>
      exact accesses_unread (decide_eq_false fun hv => h (Bool.or_eq_true_iff.mpr hv)) (.emit .nil)

lemma accesses_lowerCall (hname : ¬ s.Addressable "") (name x y : String) :
    Accesses (s.lowerCall n name x y) ([x, y].filter (s.Addressable ·)) [] := by
  rw [filter_pair]
  refine ((accesses_lowerArgument hname).append (accesses_lowerArgument hname)).append_silent ?_
  split
  · exact .emit (.emit .nil)
  · exact .cons rfl rfl (.emit (.cons rfl rfl .nil))

lemma accesses_elementAddress (array index scratch : String) :
    Accesses (s.elementAddress array index scratch) ([index].filter s.isIntVar) [] :=
  accesses_intSource.append_silent (.emit (.emit (.emit .nil)))

/-- An instruction that can be lowered fetches the values that it needs and writes its result. -/
lemma accesses_lowerInstruction (hname : ¬ s.Addressable "") (h : s.offence? i = none) :
    Accesses (s.lowerInstruction n i) (i.values.filter (s.fetches i)) i.results := by
  obtain ⟨op, x, y, z, label⟩ := i
  cases op with
  | goto => exact .emit .nil
  | assign =>
    by_cases hz : z = ""
    · subst hz
      exact accesses_plainSource.then_write .write
    · have hfetches : s.fetches ⟨.assign, x, y, z, label⟩ = s.isIntVar := by
        funext v
        simp [fetches, Instruction.takesFloats, hz]
      rw [hfetches]
      simp only [lowerInstruction, Instruction.values, Instruction.results, if_neg hz]
      simp only [offence?, if_neg hz] at h
      apply accesses_lowerArrayInit
      by_contra hlength
      rw [if_pos (by simpa using hlength)] at h
      cases h
  | arith op =>
    have hsources := (accesses_leftSource (s := s) (v := x)).append
      (accesses_rightSource (s := s) (v := y))
    rw [← filter_pair] at hsources
    exact hsources.then_write .compute
  | branch cmp => exact accesses_lowerBranch cmp
  | ret => exact accesses_lowerReturn hname
  | call => exact accesses_lowerCall hname x y z
  | callr =>
    have hcall := accesses_lowerCall (n := n) hname y z ""
    rw [filter_pair, List.filter_singleton (a := ""), decide_eq_false hname] at hcall
    exact (List.append_nil _ ▸ hcall).then_write .write
  | arrayStore =>
    have hsources := (accesses_intSource (s := s) (v := z) (r := t1)).append
      (accesses_elementAddress (s := s) x y t2)
    rw [← filter_pair] at hsources
    exact (hsources.append_silent (.emit (.comment .nil))).comment
  | arrayLoad =>
    refine .comment ((accesses_elementAddress y z t1).then_write (.emit ?_))
    exact Accesses.append_silent .write (.comment .nil)
  | other k => cases h

/-- The result of an instruction that can be lowered has a place. -/
lemma addressable_of_mem_results (h : s.offence? i = none) (hv : v ∈ i.results) :
    s.Addressable v := by
  apply addressable_of_unplaced?
  obtain ⟨op, x, y, z, label⟩ := i
  cases op with
  | assign =>
    by_cases hz : z = ""
    · simp_all [Instruction.results, offence?]
    · simp [Instruction.results, hz] at hv
  | arith | callr | arrayLoad => simp_all [Instruction.results, offence?]
  | goto | branch | ret | call | arrayStore | other => cases hv

lemma defs_eq_results (hname : ¬ s.Addressable "") (h : s.offence? i = none)
    (hfills : i.fillsArray = false) : i.defs = i.results := by
  rw [Instruction.defs_eq_filter_results hfills]
  apply List.filter_eq_self.mpr
  intro v hv
  simpa using ne_empty_of_addressable hname (addressable_of_mem_results h hv)

/-- Actions access the variables that the operands of an instruction say. They read only uses and
write only definitions. The uses that are integer or global variables are all read, as often as they
stand among the operands, but for the one operand that is not read; the definition is written once,
unless it is an array that is filled; and nothing is read after it. -/
structure FollowsOperands (s : Scope) (i : Instruction) (as : List Action) : Prop where
  reads : ∀ v ∈ as.filterMap read?, v ∈ i.uses
  writes : ∀ v ∈ as.filterMap written?, v ∈ i.defs
  uses : ((as.filterMap read?).filter s.isIntVar).Perm
    ((i.uses.diff i.unread?.toList).filter s.isIntVar)
  defs : ∀ v ∈ i.defs, i.fillsArray = false → as.filterMap written? = [v]
  order : as.Pairwise fun a b => a.written? = none ∨ b.read? = none

lemma followsOperands_lowerInstruction (hname : ¬ s.Addressable "") (h : s.offence? i = none) :
    s.FollowsOperands i (s.lowerInstruction n i) := by
  have hacc := accesses_lowerInstruction (n := n) hname h
  refine ⟨?_, ?_, ?_, ?_, hacc.order⟩
  · intro v hv
    rw [hacc.reads] at hv
    obtain ⟨hvalue, hfetch⟩ := List.mem_filter.mp hv
    exact Instruction.mem_uses_of_mem_values hvalue
      (ne_empty_of_addressable hname (addressable_of_fetches hfetch))
  · intro v hv
    rw [hacc.writes] at hv
    cases hfills : i.fillsArray with
    | true =>
      rw [Instruction.results_of_fillsArray hfills] at hv
      cases hv
    | false => rwa [defs_eq_results hname h hfills]
  · rw [hacc.reads, filter_fetches hname]
    exact i.values_perm.filter _
  · intro v hv hfills
    rw [hacc.writes]
    apply Instruction.eq_singleton_of_mem_results
    rwa [← defs_eq_results hname h hfills]

end Scope

/-- Only local integer variables have registers when a function begins, whatever was done before. -/
lemma Strategy.sound_renew (g : Strategy) (s : Scope) (c : Cache) :
    (g.place s).Sound ((g.place s).renew c) := by
  cases g with
  | memory => exact fun v n h => by cases h
  | perBlock k => exact fun v n h => by cases h
  | perFunction k => exact Placement.PerFunction.sound (k := k) rfl

/-- Lowering accesses the variables that liveness counts on. In a program that has been read, what
an instruction is lowered to without failing, wherever variables live and whatever has been done
before it, reads the uses and writes the definition of the instruction. -/
theorem lowering_follows_operands {text : String} {p : Program} {f : Function}
    (h : (readProgram text).result = .ok p) (hf : f ∈ p.functions) (g : Strategy) (c : Cache)
    (before : List Action) (n : Nat) (i : Instruction)
    (hok : ((g.place ⟨p, f⟩).run ((g.place ⟨p, f⟩).renew c)
      (before ++ Scope.lowerInstruction ⟨p, f⟩ n i)).failure = none) :
    Scope.FollowsOperands ⟨p, f⟩ i (Scope.lowerInstruction ⟨p, f⟩ n i) := by
  have hname : ¬ Scope.Addressable ⟨p, f⟩ "" := by
    rintro (hvar | hglobal)
    · rw [(wellFormed_of_readProgram h hf).named] at hvar
      cases hvar
    · cases hglobal
  apply Scope.followsOperands_lowerInstruction hname
  have hfails := Scope.failsWith_lowerInstruction (s := ⟨p, f⟩) n i
  have hsound := (g.sound_renew ⟨p, f⟩ c).nexts before
  rw [Placement.run_append] at hok
  exact ((Placement.failure_run hsound hfails.reads).trans hfails.first).symm.trans
    (Emission.failure_andThen.mp hok).2

/-- The subtraction in the countdown. -/
abbrev countdownStep : Instruction :=
  { op := .arith .sub, arg1 := "t", arg2 := "d", arg3 := "n" }

/-- After the call of the countdown, the subtraction reads its two sources. -/
theorem lowering_follows_countdown :
    (readProgram countdownText).result = .ok countdownProgram ∧
    countdownFunction.code[1]? = some countdownStep ∧
    (countdownScope.lowerInstruction 1 countdownStep).filterMap Action.read? = ["t", "d"] ∧
    countdownScope.FollowsOperands countdownStep
      (countdownScope.lowerInstruction 1 countdownStep) := by
  refine ⟨readProgram_countdown, rfl, by decide +kernel, ?_⟩
  exact lowering_follows_operands readProgram_countdown mem_countdownProgram (.perFunction 2) {}
    (countdownScope.lowerInstruction 0 { op := .callr, arg1 := "t", arg2 := "g", arg3 := "n" }) 1
    countdownStep (by decide +kernel)

/-- Where the array and the index have one name, it is read for the index only. -/
example : (countdownScope.lowerInstruction 0
    { op := .arrayStore, arg1 := "t", arg2 := "t", arg3 := "d" }).filterMap Action.read? =
      ["d", "t"] := by decide +kernel

end MipsBackend
