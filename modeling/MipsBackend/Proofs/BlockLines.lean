import MipsBackend.Proofs.Labels
import MipsBackend.Proofs.Lines

/-! Lines of blocks. A block is lowered to the same lines whatever comes before it. Labels stand at
the heads of blocks, and jumps come from instructions at the ends of blocks. -/
namespace MipsBackend
open Asm Asm.Register

/-- How an operand can be made ready for use. -/
inductive Source.Shape : Source → Prop
  | literal (x : String) : Shape (.literal x)
  | var (v r : String) (isFloat : Bool) : Shape (.var v r isFloat)
  | loaded {op : String} (x r : String) (isFloat : Bool) (hop : op = "li" ∨ op = "li.s") :
      Shape (.loaded op x r isFloat)

namespace Scope
variable {s : Scope}

lemma shape_intSource (x r : String) : (s.intSource x r).Shape := by
  unfold intSource
  split
  · exact .var ..
  · exact .loaded _ _ _ (by simp)

lemma shape_plainSource (x r r' : String) : (s.plainSource x r r').Shape := by
  unfold plainSource
  split
  · exact .var ..
  · split
    · exact .var ..
    · exact .literal _

lemma shape_leftSource (x : String) : (s.leftSource x).Shape := by
  unfold leftSource
  split
  · exact .var ..
  · split
    · exact .var ..
    · split
      · exact .loaded _ _ _ (by simp)
      · exact .loaded _ _ _ (by simp)

lemma shape_rightSource (x : String) : (s.rightSource x).Shape := by
  unfold rightSource
  split
  · exact .var ..
  · split
    · exact .var ..
    · split
      · exact .loaded _ _ _ (by simp)
      · exact .literal _

end Scope

namespace Action

/-- An action of an instruction with the jump target `t`, if it has one: it defines no label, and
jumps there or not at all. -/
def Follows (a : Action) (t : Option String) : Prop :=
  a.IsStraight ∨ ∃ l, t = some l ∧ a.JumpsTo l

/-- Actions of an instruction with the jump target `t` that refer to nothing but what is in `known`
or has been read among them. -/
structure Fits (t : Option String) (known : List String) (as : List Action) : Prop where
  selfContained : SelfContained known as
  follows : ∀ a ∈ as, a.Follows t

variable {t : Option String} {known known' : List String} {a : Action} {as bs : List Action}

namespace Fits

lemma nil : Fits t known [] := ⟨trivial, by simp⟩

lemma cons (ha : a.Follows t) (hr : ∀ r ∈ a.refersTo, r ∈ known) (has : Fits t known as) :
    Fits t known (a :: as) :=
  ⟨⟨hr, has.selfContained.mono fun _ h => List.mem_append.mpr (Or.inr h)⟩,
    List.forall_mem_cons.mpr ⟨ha, has.follows⟩⟩

lemma mono (h : Fits t known as) (hk : ∀ r ∈ known, r ∈ known') : Fits t known' as :=
  ⟨h.selfContained.mono hk, h.follows⟩

lemma straight (ha : a.IsStraight) (hr : ∀ r ∈ a.refersTo, r ∈ known) (has : Fits t known as) :
    Fits t known (a :: as) := cons (Or.inl ha) hr has

lemma emit {op : String} {args : List Operand} {note : Option String}
    (hop : op ∉ "j" :: branchOps) (hargs : ∀ o ∈ args, ∀ r ∈ o.scratch?, r ∈ known)
    (has : Fits t known as) : Fits t known (.emit op args note :: as) := by
  refine has.straight hop fun r hr => ?_
  obtain ⟨o, ho, hr⟩ := List.mem_filterMap.mp hr
  exact hargs o ho r hr

lemma line {op : String} {args : List String} (hop : op ∉ "j" :: branchOps)
    (has : Fits t known as) : Fits t known (.line op args :: as) :=
  has.emit hop (by simp)

lemma append (ha : Fits t known as) (hb : Fits t known bs) : Fits t known (as ++ bs) :=
  ⟨ha.selfContained.append (hb.selfContained.mono fun _ h => List.mem_append.mpr (Or.inr h)),
    List.forall_mem_append.mpr ⟨ha.follows, hb.follows⟩⟩

end Fits
end Action

/-- What an operand needs comes first, and then the actions that use it. -/
lemma Source.Shape.fits {src : Source} {t : Option String} {known : List String}
    {as : List Action} (h : src.Shape)
    (has : Action.Fits t (src.operand.scratch?.toList ++ known) as) :
    Action.Fits t known (src.actions ++ as) := by
  cases h with
  | literal x => exact has
  | var v r isFloat =>
    exact ⟨⟨by simp, has.selfContained⟩,
      List.forall_mem_cons.mpr ⟨Or.inl trivial, has.follows⟩⟩
  | loaded x r isFloat hop =>
    refine has.line ?_
    rcases hop with rfl | rfl <;> decide

namespace Scope
variable {s : Scope} {n : Nat} {i : Instruction} {a : Action} {t : Option String}

lemma fits_lowerAssign : Action.Fits t [] (s.lowerAssign i) := by
  refine (shape_plainSource _ _ _).fits (.straight trivial ?_ .nil)
  simp

lemma fits_lowerArrayInit : Action.Fits t [] (s.lowerArrayInit i) := by
  unfold lowerArrayInit
  split
  · exact .straight trivial (by simp) .nil
  · refine .line (by decide) ((shape_intSource _ _).fits ?_)
    -- one store for each word, all of them of the same operand
    generalize List.range _ = ks
    induction ks with
    | nil => exact .nil
    | cons k ks ih =>
      refine ih.emit (by decide) ?_
      simp

lemma fits_lowerArith (op : Arith) : Action.Fits t [] (s.lowerArith op i) := by
  have hop : ∀ isFloat : Bool,
      op.mnemonic ++ (if isFloat then ".s" else "") ∉ "j" :: branchOps := by
    cases op <;> decide
  rw [lowerArith, List.append_assoc]
  refine (shape_leftSource _).fits ((shape_rightSource _).fits (.straight (hop _) ?_ .nil))
  grind [Action.refersTo]

lemma fits_lowerBranch (cmp : Comparison) : Action.Fits (some i.arg3) [] (s.lowerBranch cmp i) := by
  have hright : Source.Shape
      (if s.isIntVar i.arg2 then .var i.arg2 t1 false else .literal i.arg2) := by
    split
    · exact .var ..
    · exact .literal _
  have hjump : ∀ (x y : Operand) (note : Option String),
      (Action.emit cmp.mnemonic [x, y, .text i.arg3] note).JumpsTo i.arg3 := by
    cases cmp <;> exact fun _ _ _ => ⟨_, _, _, rfl, rfl⟩
  rw [lowerBranch, List.append_assoc]
  refine (shape_intSource _ _).fits (hright.fits (.cons (Or.inr ⟨_, rfl, hjump _ _ _⟩) ?_ .nil))
  simp only [Action.refersTo, List.mem_filterMap, List.mem_cons]
  grind [Operand.scratch?]

lemma fits_lowerReturn : Action.Fits t [] (s.lowerReturn i) := by
  have hresult : Action.Fits t [] (s.lowerResult i.arg1) := by
    unfold lowerResult
    split
    · exact .nil
    · split
      · exact .straight trivial (by simp) .nil
      · split
        · exact .straight trivial (by simp) .nil
        · exact .line (by decide) .nil
  exact hresult.append (.line (by decide) (.line (by decide) (.line (by decide) .nil)))

lemma fits_lowerArgument (arg reg : String) (isFloat : Bool) :
    Action.Fits t [] (s.lowerArgument arg reg isFloat) := by
  unfold lowerArgument
  split
  · exact .nil
  · split
    · exact .straight trivial (by simp) .nil
    · exact .line (by cases isFloat <;> decide) .nil

lemma fits_lowerCall (name arg1 arg2 : String) :
    Action.Fits t [] (s.lowerCall n name arg1 arg2) := by
  refine ((fits_lowerArgument _ _ _).append (fits_lowerArgument _ _ _)).append ?_
  split
  · exact .line (by decide) (.emit (by decide) (by simp) .nil)
  · refine .straight trivial ?_ (.line (by decide) (.straight trivial ?_ .nil)) <;>
      simp

lemma fits_elementAddress {known : List String} {as : List Action} (array index scratch : String)
    (has : Action.Fits t known as) :
    Action.Fits t known (s.elementAddress array index scratch ++ as) := by
  rw [elementAddress, List.append_assoc]
  apply (shape_intSource _ _).fits
  refine .emit (by decide) ?_ (.line (by decide) (.line (by decide) ?_))
  · simp +contextual
  · exact has.mono fun _ h => List.mem_append.mpr (Or.inr h)

lemma fits_lowerArrayStore : Action.Fits t [] (s.lowerArrayStore i) := by
  simp only [lowerArrayStore, List.cons_append, List.append_assoc]
  refine .straight trivial (by simp) ((shape_intSource _ _).fits ?_)
  refine fits_elementAddress _ _ _ (.emit (by decide) ?_ (.straight trivial ?_ .nil))
  · simp
  · simp

lemma fits_lowerArrayLoad : Action.Fits t [] (s.lowerArrayLoad i) := by
  refine .straight trivial (by simp) (fits_elementAddress _ _ _ ?_)
  refine .line (by decide) (.straight trivial ?_ (.straight trivial ?_ .nil)) <;>
    simp

/-- What an instruction is lowered to refers to nothing read before it, defines no label, and jumps
only to the target of the instruction. -/
lemma fits_lowerInstruction (n : Nat) (i : Instruction) :
    Action.Fits i.target? [] (s.lowerInstruction n i) := by
  obtain ⟨op, x, y, z, label⟩ := i
  cases op with
  | assign =>
    simp only [lowerInstruction]
    split
    · exact fits_lowerAssign
    · exact fits_lowerArrayInit
  | arith op => exact fits_lowerArith op
  | goto =>
    have hjump : (Action.line "j" [x]).JumpsTo x := ⟨_, _, _, rfl, rfl⟩
    exact .cons (Or.inr ⟨x, rfl, hjump⟩) (by simp [Action.line]) .nil
  | branch cmp => exact fits_lowerBranch cmp
  | ret => exact fits_lowerReturn
  | call => exact fits_lowerCall _ _ _
  | callr =>
    refine (fits_lowerCall _ _ _).append (.straight trivial ?_ .nil)
    simp [lowerCallResult]
  | arrayStore => exact fits_lowerArrayStore
  | arrayLoad => exact fits_lowerArrayLoad
  | other => exact .straight trivial (by simp) .nil

/-! ### Blocks -/

/-- The actions of an instruction in its block, which is left before a terminal one. -/
def lowerIn (s : Scope) (b : Block) (n : Nat) (i : Instruction) : List Action :=
  (if i.isTerminal then [.exitBlock b] else []) ++ s.lowerInstruction n i

/-- A block without its label. -/
def lowerBody (s : Scope) (b : Block) : List Action :=
  .enterBlock b :: (b.positioned.flatMap (fun x => s.lowerIn b x.1 x.2) ++
    if b.last?.any Instruction.isTerminal then [] else [.exitBlock b])

variable {b : Block}

lemma lowerBlock_eq (b : Block) : s.lowerBlock b = s.lowerLabel b ++ s.lowerBody b := by
  simp only [lowerBlock, lowerBody, lowerIn, List.append_assoc, List.cons_append]

lemma fits_lowerIn (b : Block) (n : Nat) (i : Instruction) :
    Action.Fits i.target? [] (s.lowerIn b n i) := by
  unfold lowerIn
  split
  · exact (fits_lowerInstruction n i).straight trivial (by simp)
  · exact fits_lowerInstruction n i

lemma fits_exit (b : Block) : Action.Fits none []
    (if b.last?.any Instruction.isTerminal then [] else [.exitBlock b]) := by
  split
  · exact .nil
  · exact .straight trivial (by simp) .nil

/-- Behind its entry a block refers to nothing that was read before it. -/
lemma selfContained_inside (b : Block) : Action.SelfContained []
    (b.positioned.flatMap (fun x => s.lowerIn b x.1 x.2) ++
      if b.last?.any Instruction.isTerminal then [] else [.exitBlock b]) :=
  .append (.flatMap fun x _ => (fits_lowerIn b x.1 x.2).selfContained)
    ((fits_exit b).selfContained.mono (by simp))

/-- The actions of a block follow the jumps of its instructions. -/
lemma follows_of_mem_lowerBody (ha : a ∈ s.lowerBody b) :
    ∃ t, a.Follows t ∧ ∀ l, t = some l → ∃ i ∈ b.body, i.target? = some l := by
  rcases List.mem_cons.mp ha with rfl | ha
  · exact ⟨none, Or.inl trivial, by simp⟩
  rcases List.mem_append.mp ha with ha | ha
  · obtain ⟨x, hx, ha⟩ := List.mem_flatMap.mp ha
    refine ⟨x.2.target?, (fits_lowerIn b x.1 x.2).follows a ha, fun l hl => ?_⟩
    exact ⟨x.2, (List.of_mem_zip hx).2, hl⟩
  · exact ⟨none, (fits_exit b).follows a ha, by simp⟩

end Scope

namespace Placement
variable {q : Placement} {c : Cache} {b : Block}

/-- The lines of a block behind its label. -/
def blockLines (q : Placement) (b : Block) : List Line := (q.run {} (q.lowerBody b)).lines

/-- Whatever is remembered when a block is entered, its lines are the same. -/
lemma lines_run_lowerBody (c : Cache) (b : Block) :
    (q.run c (q.lowerBody b)).lines = q.blockLines b :=
  congrArg Emission.lines (run_enterBlock (Scope.selfContained_inside b) c {})

end Placement

/-! ### Functions -/

namespace Scope
variable {s : Scope} {a : Action}

lemma isStraight_of_mem_lowerPrologue (ha : a ∈ s.lowerPrologue) : a.IsStraight := by
  rcases List.mem_append.mp ha with ha | ha
  · simp only [List.mem_cons, List.not_mem_nil, or_false] at ha
    rcases ha with rfl | rfl
    · exact (by decide : "addiu" ∉ "j" :: branchOps)
    · exact (by decide : "sw" ∉ "j" :: branchOps)
  · obtain ⟨x, -, rfl⟩ := List.mem_map.mp ha
    trivial

lemma eq_label_of_mem_lowerLabel {b : Block} (ha : a ∈ s.lowerLabel b) : ∃ l, a = .label l := by
  unfold lowerLabel at ha
  cases hl : b.label with
  | none => simp [hl] at ha
  | some l =>
    by_cases hname : l = s.function.name
    · simp [hl, hname] at ha
    · exact ⟨l, by simpa [hl, hname] using ha⟩

lemma defines_lowerBlock (b : Block) : (s.lowerBlock b).filterMap Action.defines? =
    b.label.toList.filter (· ≠ s.function.name) := by
  have hbody : (s.lowerBody b).filterMap Action.defines? = [] := by
    refine List.filterMap_eq_nil_iff.mpr fun a ha => ?_
    obtain ⟨t, ha | ⟨l, -, op, args, note, rfl, -⟩, -⟩ := follows_of_mem_lowerBody ha
    · exact ha.defines?
    · rfl
  rw [lowerBlock_eq, List.filterMap_append, hbody, List.append_nil, lowerLabel]
  cases b.label with
  | none => rfl
  | some l => by_cases hl : l = s.function.name <;> simp [hl, Action.defines?]

/-- The labels of blocks are defined, except for the name of the function. -/
lemma defines_lower (hf : s.function.Linked) :
    s.lower.filterMap Action.defines? = s.function.labels.filter (· ≠ s.function.name) := by
  have hstart : (.enterFunction :: s.lowerPrologue).filterMap Action.defines? = [] := by
    refine List.filterMap_eq_nil_iff.mpr fun a ha => ?_
    rcases List.mem_cons.mp ha with rfl | ha
    · rfl
    · exact (isStraight_of_mem_lowerPrologue ha).defines?
  rw [lower, List.filterMap_append, hstart, List.nil_append, ← hf.labels, hf.walk_eq]
  induction s.function.blocks with
  | nil => rfl
  | cons b bs ih =>
    rw [List.flatMap_cons, List.filterMap_append, ih, defines_lowerBlock, List.filterMap_cons]
    cases b.label with
    | none => rfl
    | some l => by_cases hl : l = s.function.name <;> simp [hl]

end Scope

lemma Instruction.isTerminal_of_target? {i : Instruction} {l : String} (h : i.target? = some l) :
    i.isTerminal = true := by
  obtain ⟨op, x, y, z, label⟩ := i
  cases op with
  | goto | branch => rfl
  | assign | arith | ret | call | callr | arrayStore | arrayLoad | other => cases h

/-- An instruction that jumps is the last one of its block. -/
lemma Function.Built.target?_of_mem_body {f : Function} (hf : f.Built) {b : Block}
    {i : Instruction} {l : String} (hb : b ∈ f.blocks) (hi : i ∈ b.body) (ht : i.target? = some l) :
    b.target? = some l := by
  have hne := List.ne_nil_of_mem hi
  rw [← List.dropLast_append_getLast hne, List.mem_append, List.mem_singleton] at hi
  rcases hi with hi | rfl
  · have := hf.terminal b hb i hi
    simp [Instruction.isTerminal_of_target? ht] at this
  · rw [Block.target?, Block.last?, List.getLast?_eq_some_getLast hne]
    exact ht

namespace Placement
variable {q : Placement} {c : Cache} {b : Block} {as bs : List Action} {l : String} {ln : Line}

lemma lines_run_append (h : (q.run c (as ++ bs)).failure = none) :
    (q.run (q.nexts c as) bs).failure = none ∧
      (q.run c (as ++ bs)).lines = (q.run c as).lines ++ (q.run (q.nexts c as) bs).lines := by
  rw [run_append] at h ⊢
  obtain ⟨ha, hb⟩ := Emission.failure_andThen.mp h
  exact ⟨hb, Emission.lines_andThen ha⟩

/-- The lines of a block follow its label. -/
lemma lines_lower (hf : q.function.Built) (h : (q.run {} q.lower).failure = none)
    (hb : b ∈ q.function.blocks) (hl : b.label = some l) (hne : l ≠ q.function.name) :
    ∃ before after, (q.run {} q.lower).lines =
      before ++ .label l :: (q.blockLines b ++ after) := by
  obtain ⟨bs, cs, hsplit⟩ := List.append_of_mem hb
  have hlabel : q.lowerLabel b = [.label l] := by rw [Scope.lowerLabel, hl]; simp [hne]
  have hlower : q.lower = (.enterFunction :: q.lowerPrologue ++ bs.flatMap q.lowerBlock) ++
      ([.label l] ++ (q.lowerBody b ++ cs.flatMap q.lowerBlock)) := by
    rw [Scope.lower, hf.walk_eq, hsplit, List.flatMap_append, List.flatMap_cons,
      Scope.lowerBlock_eq, hlabel]
    simp only [List.append_assoc, List.cons_append]
  rw [hlower] at h ⊢
  obtain ⟨h, hlines⟩ := lines_run_append h
  obtain ⟨h', hlines'⟩ := lines_run_append h
  obtain ⟨-, hlines''⟩ := lines_run_append h'
  rw [hlines, hlines', hlines'', lines_run_lowerBody]
  exact ⟨_, _, rfl⟩

/-- A jump is that of a block. -/
lemma exists_block_of_target? (hf : q.function.Built) (hln : ln ∈ (q.run c q.lower).lines)
    (ht : ln.target? = some l) : ∃ b ∈ q.function.blocks, b.target? = some l := by
  obtain ⟨a, ha, c', hln⟩ := mem_lines_run hln
  -- the line is a jump, so it comes from none of the straight actions
  have hnot : ¬ a.IsStraight := by
    intro hs
    rw [target?_of_isStraight hs hln] at ht
    cases ht
  rcases List.mem_append.mp ha with ha | ha
  · rcases List.mem_cons.mp ha with rfl | ha
    · exact absurd trivial hnot
    · exact absurd (Scope.isStraight_of_mem_lowerPrologue ha) hnot
  · obtain ⟨b, hb, ha⟩ := List.mem_flatMap.mp ha
    have hb := Function.mem_blocks_of_mem_walk hb
    rw [Scope.lowerBlock_eq] at ha
    rcases List.mem_append.mp ha with ha | ha
    · obtain ⟨name, rfl⟩ := Scope.eq_label_of_mem_lowerLabel ha
      obtain rfl := List.mem_singleton.mp hln
      cases ht
    · obtain ⟨t, hfollows, hbody⟩ := Scope.follows_of_mem_lowerBody ha
      obtain ⟨l', rfl, hjump⟩ := hfollows.resolve_left hnot
      obtain ⟨i, hi, hti⟩ := hbody l' rfl
      rw [target?_of_jumpsTo hjump hln] at ht
      cases ht
      exact ⟨b, hb, hf.target?_of_mem_body hb hi hti⟩

end Placement
end MipsBackend
