import MipsBackend.Proofs.RegisterKinds
import MipsBackend.Proofs.Symbols

/-! Code in which floats and integers do not meet. Its lines have registers of the right kinds, but
for two slips: a float parameter is taken out of an integer register, and a float that is shared
between functions is read as an integer. -/
namespace MipsBackend
open Asm Asm.Register

/-! ### Operands of one kind -/

namespace Instruction

/-- The operands that are to be of one kind. -/
def alike (i : Instruction) : List String :=
  match i.op with
  | .assign => if i.arg3 = "" then [i.arg1, i.arg2] else [i.arg3]
  | .arith _ => [i.arg1, i.arg2, i.arg3]
  | .branch _ => [i.arg1, i.arg2]
  | .call => [i.arg2, i.arg3].filter (· ≠ "")
  | .callr => [i.arg3].filter (· ≠ "")
  | .arrayStore => [i.arg2, i.arg3]
  | .arrayLoad => [i.arg1, i.arg3]
  | .goto | .ret | .other _ => []

/-- The kinds of which they may be, where floats are `true`. Only floats are printed as such. -/
def kinds (i : Instruction) : List Bool :=
  match i.op with
  | .assign => if i.arg3 = "" then [false, true] else [false]
  | .arith _ => [false, true]
  | .call => [decide (i.arg1 = "printf")]
  | .callr => [decide (i.arg2 = "printf")]
  | _ => [false]

end Instruction

namespace FunctionDef

/-- A number as it is written: neither a variable nor a register. -/
def IsLiteral (f : FunctionDef) (x : String) : Prop :=
  f.isVar x = false ∧ isImmediate x = true ∧ isRegister x = false

/-- A variable or a literal of a kind. -/
def IsOf (f : FunctionDef) (isFloat : Bool) (x : String) : Prop :=
  (if isFloat then f.isFloat x else f.isInt x) = true ∨ f.IsLiteral x ∧ isFloatLiteral x = isFloat

/-- Floats and integers do not meet in the instruction. -/
def Consistent (f : FunctionDef) (i : Instruction) : Prop :=
  ∃ isFloat ∈ i.kinds, ∀ x ∈ i.alike, f.IsOf isFloat x

/-- Floats and integers do not meet. -/
structure IsTyped (f : FunctionDef) : Prop where
  apart : f.Apart
  code : ∀ i ∈ f.code, f.Consistent i

instance (f : FunctionDef) (x : String) : Decidable (f.IsLiteral x) :=
  inferInstanceAs (Decidable (_ ∧ _))

instance (f : FunctionDef) (isFloat : Bool) (x : String) : Decidable (f.IsOf isFloat x) :=
  inferInstanceAs (Decidable (_ ∨ _))

instance (f : FunctionDef) (i : Instruction) : Decidable (f.Consistent i) :=
  inferInstanceAs (Decidable (∃ isFloat ∈ i.kinds, _))

instance (f : FunctionDef) : Decidable f.Apart :=
  decidable_of_iff (∀ v ∈ f.ints, f.isFloat v = false) (by simp [Apart, isInt])

instance (f : FunctionDef) : Decidable f.IsTyped :=
  decidable_of_iff (f.Apart ∧ ∀ i ∈ f.code, f.Consistent i)
    ⟨fun h => ⟨h.1, h.2⟩, fun h => ⟨h.apart, h.code⟩⟩

variable {f : FunctionDef} {p : Program} {isFloat : Bool} {x : String}

lemma IsLiteral.isGlobal (h : f.IsLiteral x) : p.isGlobal x = false := by
  simp [Program.isGlobal, h.2.1]

lemma IsOf.isVar_or (h : f.IsOf isFloat x) :
    f.isVar x = true ∨ f.IsLiteral x ∧ isFloatLiteral x = isFloat := by
  refine h.imp_left fun h => ?_
  cases isFloat <;> simp_all [isVar]

lemma IsOf.isFloat_eq (hapart : f.Apart) (h : f.IsOf isFloat x) (hvar : f.isVar x = true) :
    f.isFloat x = isFloat := by
  rcases h with h | ⟨h, -⟩
  · cases isFloat with
    | true => exact h
    | false => exact hapart x h
  · rw [h.1] at hvar
    cases hvar

end FunctionDef

namespace Scope
variable {s : Scope} {isFloat : Bool} {x r v : String}

/-- A float that is shared between functions. -/
def SharesFloat (s : Scope) (v : String) : Prop :=
  s.function.isFloat v = true ∧ s.program.isGlobal v = true

/-- A shared float is taken for an integer. -/
lemma sharesFloat_iff (hapart : s.function.Apart) :
    s.SharesFloat v ↔ s.isIntVar v = true ∧ s.function.isFloat v = true := by
  have hint := hapart v
  unfold SharesFloat isIntVar
  cases hi : s.function.isInt v with
  | true => simp [hint hi]
  | false => simp [and_comm]

/-- How an operand of a kind is fetched. -/
inductive Fetched (s : Scope) (isFloat : Bool) (x : String) : Prop
  | variable (hvar : s.isIntVar x = true ∨ s.function.isFloat x = true)
      (hkind : s.function.isFloat x = isFloat)
  | literal (hint : ¬ s.isIntVar x = true) (hfloat : ¬ s.function.isFloat x = true)
      (hkind : isFloatLiteral x = isFloat) (hregister : isRegister x = false)

lemma fetched_of_isOf (hapart : s.function.Apart) (h : s.function.IsOf isFloat x) :
    s.Fetched isFloat x := by
  rcases h.isVar_or with hvar | ⟨hx, hkind⟩
  · refine .variable ?_ (h.isFloat_eq hapart hvar)
    rw [FunctionDef.isVar, Bool.or_eq_true] at hvar
    exact hvar.imp_left fun hint => by rw [isIntVar, hint, Bool.true_or]
  · have hnone := hx.1
    rw [FunctionDef.isVar, Bool.or_eq_false_iff] at hnone
    refine .literal ?_ (by simp [hnone.2]) hkind hx.2.2
    simp [isIntVar, hnone.1, hx.isGlobal]

/-- What has a place is no literal. -/
lemma isFloat_of_addressable (hapart : s.function.Apart) (h : s.function.IsOf isFloat x)
    (haddr : s.Addressable x) : s.function.isFloat x = isFloat := by
  refine h.isFloat_eq hapart (haddr.elim id fun hglobal => ?_)
  rcases h.isVar_or with hvar | ⟨hx, -⟩
  · exact hvar
  · rw [hx.isGlobal] at hglobal
    cases hglobal

lemma not_sharesFloat_of_int (hapart : s.function.Apart) (h : s.function.IsOf false x) :
    ¬ s.SharesFloat x := by
  rintro ⟨hfloat, -⟩
  have hvar : s.function.isVar x = true := by simp [FunctionDef.isVar, hfloat]
  rw [h.isFloat_eq hapart hvar] at hfloat
  cases hfloat

end Scope

/-- An operand of a kind is fetched in registers of its kind, unless it is a shared float. -/
structure Source.Suits (s : Scope) (isFloat : Bool) (x : String) (src : Source) : Prop where
  actions : (∀ a ∈ src.actions, a.IsKinded s) ↔ ¬ s.SharesFloat x
  operand : ¬ s.SharesFloat x → src.operand.Suits isFloat

namespace Source
variable {s : Scope} {isFloat b : Bool} {x r : String}

/-- What is read as an integer is read for the sake of an integer register. -/
lemma suits_var (hapart : s.function.Apart)
    (hvar : s.isIntVar x = true ∨ s.function.isFloat x = true)
    (hr : isFloatRegister r = !s.isIntVar x) : (var x r b).Suits s (s.function.isFloat x) x := by
  have hkind : isFloatRegister r = s.function.isFloat x ↔ ¬ s.SharesFloat x := by
    rw [hr, Scope.sharesFloat_iff hapart]
    revert hvar
    cases s.isIntVar x <;> cases s.function.isFloat x <;> decide
  exact ⟨List.forall_mem_singleton.trans hkind, hkind.mpr⟩

lemma not_sharesFloat (hfloat : ¬ s.function.isFloat x = true) : ¬ s.SharesFloat x :=
  fun h => hfloat h.1

lemma suits_literal (hfloat : ¬ s.function.isFloat x = true) (hx : isRegister x = false) :
    (literal x).Suits s isFloat x :=
  ⟨iff_of_true (by simp [literal]) (not_sharesFloat hfloat), fun _ => suitsKind_of_not_register hx⟩

lemma suits_loaded (isFloat : Bool) (hfloat : ¬ s.function.isFloat x = true)
    (hx : isRegister x = false) (hr : isFloatRegister r = isFloat) :
    (loaded (if isFloat then "li.s" else "li") x r b).Suits s isFloat x := by
  have hsuits : SuitsKind isFloat r := fun _ => hr
  refine ⟨iff_of_true (List.forall_mem_singleton.mpr ?_) (not_sharesFloat hfloat), fun _ => hsuits⟩
  exact (Action.isKinded_constant _ _ _).mpr ⟨hsuits, suitsKind_of_not_register hx⟩

end Source

namespace Scope
variable {s : Scope} {isFloat : Bool} {n : Nat} {i : Instruction} {x y r v : String}

/-- An integer is fetched in an integer register. -/
lemma suits_intSource (hapart : s.function.Apart) (hx : s.function.IsOf false x)
    (hr : isFloatRegister r = false) : (∀ a ∈ (s.intSource x r).actions, a.IsKinded s) ∧
      (s.intSource x r).operand.Suits false := by
  have hshared := not_sharesFloat_of_int hapart hx
  suffices h : (s.intSource x r).Suits s false x from ⟨h.actions.mpr hshared, h.operand hshared⟩
  unfold intSource
  rcases fetched_of_isOf hapart hx with ⟨hvar, hkind⟩ | ⟨hint, hfloat, -, hregister⟩
  · have hint : s.isIntVar x = true := hvar.resolve_right (by simp [hkind])
    rw [if_pos hint, ← hkind]
    exact Source.suits_var hapart hvar (by rw [hr, hint]; rfl)
  · rw [if_neg hint]
    exact Source.suits_loaded false hfloat hregister hr

section
variable {src : Source} {t f : Register}

/-- Operands that may be floats are looked up among the integers first. -/
lemma suits_fetch (hapart : s.function.Apart) (hx : s.function.IsOf isFloat x)
    (ht : isFloatRegister t = false) (hf : isFloatRegister f = true)
    (hsrc : ¬ s.function.isFloat x = true → isRegister x = false →
      src.Suits s (isFloatLiteral x) x) :
    Source.Suits s isFloat x (if s.isIntVar x then .var x t false
      else if s.function.isFloat x then .var x f true else src) := by
  rcases fetched_of_isOf hapart hx with ⟨hvar, rfl⟩ | ⟨hint, hfloat, rfl, hregister⟩
  · split
    -- This takes in the shared floats, for which both sides of the equivalence fail.
    · next hint => exact Source.suits_var hapart hvar (by rw [ht, hint]; rfl)
    · next hint =>
      rw [if_pos (hvar.resolve_left hint)]
      exact Source.suits_var hapart hvar (by rw [hf, Bool.eq_false_iff.mpr hint]; rfl)
  · rw [if_neg hint, if_neg hfloat]
    exact hsrc hfloat hregister

/-- An operation on a float is one on floats, unless the float is shared. -/
lemma isFloat_fetch (hapart : s.function.Apart) (hx : s.function.IsOf isFloat x)
    (hshared : ¬ s.SharesFloat x) (hsrc : src.isFloat = isFloatLiteral x) :
    Source.isFloat (if s.isIntVar x then .var x t false
      else if s.function.isFloat x then .var x f true else src) = isFloat := by
  rw [sharesFloat_iff hapart, not_and, Bool.not_eq_true] at hshared
  rcases fetched_of_isOf hapart hx with ⟨hvar, rfl⟩ | ⟨hint, hfloat, rfl, -⟩
  · split
    · next hint => exact (hshared hint).symm
    · next hint =>
      have hfloat := hvar.resolve_left hint
      rw [if_pos hfloat, hfloat]
      rfl
  · rw [if_neg hint, if_neg hfloat, hsrc]

end

lemma suits_plainSource (hapart : s.function.Apart) (hx : s.function.IsOf isFloat x) :
    (s.plainSource x t0 f0).Suits s isFloat x :=
  suits_fetch hapart hx rfl rfl Source.suits_literal

lemma suits_leftSource (hapart : s.function.Apart) (hx : s.function.IsOf isFloat x) :
    (s.leftSource x).Suits s isFloat x ∧
      (¬ s.SharesFloat x → (s.leftSource x).isFloat = isFloat) := by
  constructor
  · refine suits_fetch hapart hx rfl rfl fun hfloat hregister => ?_
    cases isFloatLiteral x with
    | true => exact Source.suits_loaded true hfloat hregister rfl
    | false => exact Source.suits_loaded false hfloat hregister rfl
  · refine fun hshared => isFloat_fetch hapart hx hshared ?_
    cases isFloatLiteral x <;> rfl

lemma suits_rightSource (hapart : s.function.Apart) (hx : s.function.IsOf isFloat x) :
    (s.rightSource x).Suits s isFloat x ∧
      (¬ s.SharesFloat x → (s.rightSource x).isFloat = isFloat) := by
  constructor
  · refine suits_fetch hapart hx rfl rfl fun hfloat hregister => ?_
    cases isFloatLiteral x with
    | true => exact Source.suits_loaded true hfloat hregister rfl
    | false => exact Source.suits_literal hfloat hregister
  · refine fun hshared => isFloat_fetch hapart hx hshared ?_
    cases isFloatLiteral x <;> rfl

/-! ### What is lowered -/

lemma isKinded_lowerArgument (hapart : s.function.Apart) (hr : isFloatRegister r = isFloat)
    (hx : x ≠ "" → s.function.IsOf isFloat x) :
    ∀ a ∈ s.lowerArgument x r isFloat, a.IsKinded s := by
  unfold lowerArgument
  split
  · simp
  · next hne =>
    have hx := hx hne
    split
    · next hvar =>
      refine List.forall_mem_singleton.mpr (hr.trans (isFloat_of_addressable hapart hx ?_).symm)
      simpa [Addressable] using hvar
    · next hvar =>
      rcases hx.isVar_or with hx | ⟨hx, -⟩
      · exact absurd (by rw [hx, Bool.true_or]) hvar
      · exact List.forall_mem_singleton.mpr ((Action.isKinded_constant _ _ _).mpr
          ⟨fun _ => hr, suitsKind_of_not_register hx.2.2⟩)

lemma isKinded_lowerCall (hapart : s.function.Apart) (n : Nat) (name : String)
    (hargs : ∀ v ∈ [x, y], v ≠ "" → s.function.IsOf (decide (name = "printf")) v) :
    ∀ a ∈ s.lowerCall n name x y, a.IsKinded s := by
  have hregs : ∀ isFloat, ∀ r ∈ [Register.arg 0, Register.arg 1],
      isFloatRegister (if isFloat then f12 else r) = isFloat := by
    decide
  refine List.forall_mem_append.mpr ⟨List.forall_mem_append.mpr
    ⟨isKinded_lowerArgument hapart (hregs _ _ (by simp)) (hargs x (by simp)),
      isKinded_lowerArgument hapart (hregs _ _ (by simp)) (hargs y (by simp))⟩, ?_⟩
  split
  · next code _ =>
    refine List.forall_mem_cons.mpr ⟨(Action.isKinded_constant false _ _).mpr ⟨fun _ => rfl, ?_⟩,
      List.forall_mem_singleton.mpr (Action.isKinded_of_not_mem (by decide))⟩
    exact suitsKind_of_not_register (isRegister_toString code)
  · exact List.forall_mem_cons.mpr ⟨trivial, List.forall_mem_cons.mpr
      ⟨Action.isKinded_of_not_mem (by decide), List.forall_mem_singleton.mpr trivial⟩⟩

lemma isKinded_elementAddress (hapart : s.function.Apart) (array : String)
    (hx : s.function.IsOf false x) (hr : isFloatRegister r = false) :
    ∀ a ∈ s.elementAddress array x r, a.IsKinded s := by
  have hindex := suits_intSource hapart hx hr
  have hr : SuitsKind false r := fun _ => hr
  refine List.forall_mem_append.mpr ⟨hindex.1, ?_⟩
  simp only [List.forall_mem_cons, List.not_mem_nil, false_implies, implies_true, and_true]
  exact ⟨(Action.isKinded_step (by decide)).mpr ⟨hr, hindex.2, fun _ => rfl⟩,
    Action.isKinded_of_not_mem (by decide),
    (Action.isKinded_step (by decide)).mpr ⟨fun _ => rfl, fun _ => rfl, hr⟩⟩

/-- The instruction is no call, and one of its values is a shared float, or a float register that
is returned. -/
def Mixes (s : Scope) (i : Instruction) : Prop :=
  i.isCall = false ∧ ∃ v ∈ i.values, s.SharesFloat v ∨
    i.op = .ret ∧ s.function.isVar v = false ∧ isFloatRegister v = true

lemma not_mixes_iff (hcall : i.isCall = false) (hret : i.op ≠ .ret) :
    ¬ s.Mixes i ↔ ∀ v ∈ i.values, ¬ s.SharesFloat v := by
  simp [Mixes, hcall, hret]

/-- The name of a register is not that of an integer. -/
lemma isIntVar_of_isFloatRegister (hvar : s.function.isVar v = false)
    (h : isFloatRegister v = true) : s.isIntVar v = false := by
  rw [FunctionDef.isVar, Bool.or_eq_false_iff] at hvar
  simp [isIntVar, hvar.1, Program.isGlobal, (isRegister_of_isFloatRegister h).2]

/-- A returned value is put into a register of its kind, unless it is a shared float. -/
lemma isKinded_lowerResult (hapart : s.function.Apart) (v : String) :
    (∀ a ∈ s.lowerResult v, a.IsKinded s) ↔ ¬ s.SharesFloat v ∧
      ¬ (s.function.isVar v = false ∧ isFloatRegister v = true) := by
  unfold lowerResult
  split
  · next hv =>
    subst hv
    refine iff_of_true (by simp) ⟨fun h => ?_, fun h => ?_⟩
    · simp [SharesFloat, Program.isGlobal] at h
    · cases h.2
  · rw [sharesFloat_iff hapart]
    split
    · next hint =>
      have hv : ¬ (s.function.isVar v = false ∧ isFloatRegister v = true) := by
        rintro ⟨hvar, hregister⟩
        rw [isIntVar_of_isFloatRegister hvar hregister] at hint
        cases hint
      rw [List.forall_mem_singleton, and_iff_left hv, and_iff_right hint, Bool.not_eq_true]
      exact eq_comm
    · next hint =>
      rw [and_iff_right fun h => hint h.1]
      split
      · next hfloat =>
        refine iff_of_true (List.forall_mem_singleton.mpr hfloat.symm) ?_
        simp [FunctionDef.isVar, hfloat]
      · next hfloat =>
        have hvar : s.function.isVar v = false := by simp_all [FunctionDef.isVar, isIntVar]
        have hv0 : SuitsKind false v0 := fun _ => rfl
        rw [List.forall_mem_singleton, and_iff_right hvar, Bool.not_eq_true, ← suitsKind_false_iff]
        exact (Action.isKinded_constant false _ _).trans (and_iff_right hv0)

lemma isKinded_lowerReturn (i : Instruction) :
    (∀ a ∈ s.lowerReturn i, a.IsKinded s) ↔ ∀ a ∈ s.lowerResult i.arg1, a.IsKinded s := by
  refine List.forall_mem_append.trans (and_iff_left ?_)
  simp only [List.forall_mem_cons, List.not_mem_nil, false_implies, implies_true, and_true]
  exact ⟨Action.isKinded_lw.mpr fun _ => rfl, (Action.isKinded_step (by decide)).mpr
    ⟨fun _ => rfl, fun _ => rfl, suitsKind_of_not_register (isRegister_toString _)⟩,
    Action.isKinded_of_not_mem (by decide)⟩

/-- Arithmetic is done in registers of the kind of its operands. -/
lemma isKinded_arith (op : Arith) (isFloat : Bool) (a b : Operand) :
    (Action.compute (op.mnemonic ++ if isFloat then ".s" else "") v a b).IsKinded s ↔
      s.function.isFloat v = isFloat ∧ a.Suits isFloat ∧ b.Suits isFloat := by
  obtain ⟨hscratch, hkind⟩ := kind_scratch (s.function.isFloat v)
  have hdest : ∀ isFloat, (Operand.text (if s.function.isFloat v then f4 else t2)).Suits isFloat ↔
      s.function.isFloat v = isFloat := fun isFloat => by
    rw [Operand.Suits, suitsKind_iff hscratch, hkind]
  cases op <;> cases isFloat <;>
    simp [Action.IsKinded, hdest, Arith.mnemonic, valueOperands, memoryOps, floatOps, intOps]

lemma isKinded_lowerArith (hapart : s.function.Apart) (op : Arith)
    (hx : s.function.IsOf isFloat i.arg1) (hy : s.function.IsOf isFloat i.arg2)
    (hz : s.function.isFloat i.arg3 = isFloat) :
    (∀ a ∈ s.lowerArith op i, a.IsKinded s) ↔ ∀ v ∈ [i.arg1, i.arg2], ¬ s.SharesFloat v := by
  obtain ⟨hleft, hleftFloat⟩ := suits_leftSource hapart hx
  obtain ⟨hright, hrightFloat⟩ := suits_rightSource hapart hy
  rw [List.forall_mem_cons, List.forall_mem_singleton, ← hleft.actions, ← hright.actions]
  unfold lowerArith
  dsimp only
  rw [List.forall_mem_append, List.forall_mem_append, List.forall_mem_singleton]
  -- The mnemonic comes from both operands, so it is known only if neither is a shared float.
  refine and_iff_left_of_imp fun h => ?_
  have hx := hleft.actions.mp h.1
  have hy := hright.actions.mp h.2
  rw [hleftFloat hx, hrightFloat hy, Bool.or_self]
  exact (isKinded_arith op isFloat _ _).mpr ⟨hz, hleft.operand hx, hright.operand hy⟩

lemma isKinded_lowerAssign (hapart : s.function.Apart) (hy : s.function.IsOf isFloat i.arg2)
    (hx : s.function.isFloat i.arg1 = isFloat) :
    (∀ a ∈ s.lowerAssign i, a.IsKinded s) ↔ ¬ s.SharesFloat i.arg2 := by
  have hsrc := suits_plainSource hapart hy
  rw [← hsrc.actions]
  refine List.forall_mem_append.trans (and_iff_left_of_imp fun h => ?_)
  rw [List.forall_mem_singleton, Action.IsKinded, hx]
  exact hsrc.operand (hsrc.actions.mp h)

/-! Arrays and branches take integers only. -/

lemma isKinded_lowerArrayInit (hapart : s.function.Apart) (hz : s.function.IsOf false i.arg3) :
    ∀ a ∈ s.lowerArrayInit i, a.IsKinded s := by
  have hsrc := suits_intSource hapart hz (r := t1) rfl
  unfold lowerArrayInit
  split
  · simp [Action.IsKinded]
  · refine List.forall_mem_append.mpr ⟨List.forall_mem_cons.mpr
      ⟨Action.isKinded_of_not_mem (by decide), hsrc.1⟩, List.forall_mem_map.mpr fun k _ => ?_⟩
    exact Action.isKinded_sw.mpr hsrc.2

lemma isKinded_lowerBranch (hapart : s.function.Apart) (cmp : Comparison)
    (hargs : ∀ v ∈ [i.arg1, i.arg2], s.function.IsOf false v) :
    ∀ a ∈ s.lowerBranch cmp i, a.IsKinded s := by
  have hop : cmp.mnemonic ∉ memoryOps ++ (floatOps ++ intOps) := by cases cmp <;> decide
  have hleft := suits_intSource hapart (hargs i.arg1 (by simp)) (r := t0) rfl
  refine List.forall_mem_append.mpr ⟨List.forall_mem_append.mpr ⟨hleft.1, ?_⟩,
    List.forall_mem_singleton.mpr (Action.isKinded_of_not_mem hop)⟩
  split
  · next hint =>
    have hfloat := isFloat_of_addressable hapart (hargs i.arg2 (by simp))
      (addressable_of_isIntVar hint)
    exact List.forall_mem_singleton.mpr hfloat.symm
  · simp [Source.literal]

lemma isKinded_lowerArrayStore (hapart : s.function.Apart)
    (hargs : ∀ v ∈ [i.arg2, i.arg3], s.function.IsOf false v) :
    ∀ a ∈ s.lowerArrayStore i, a.IsKinded s := by
  have hsrc := suits_intSource hapart (hargs i.arg3 (by simp)) (r := t1) rfl
  refine List.forall_mem_append.mpr ⟨List.forall_mem_append.mpr ⟨List.forall_mem_cons.mpr
    ⟨trivial, hsrc.1⟩, isKinded_elementAddress hapart _ (hargs i.arg2 (by simp)) rfl⟩, ?_⟩
  exact List.forall_mem_cons.mpr ⟨Action.isKinded_sw.mpr hsrc.2,
    List.forall_mem_singleton.mpr trivial⟩

lemma isKinded_lowerArrayLoad (hapart : s.function.Apart) (hindex : s.function.IsOf false i.arg3)
    (hx : s.function.isFloat i.arg1 = false) : ∀ a ∈ s.lowerArrayLoad i, a.IsKinded s := by
  refine List.forall_mem_append.mpr ⟨List.forall_mem_cons.mpr
    ⟨trivial, isKinded_elementAddress hapart _ hindex rfl⟩, ?_⟩
  refine List.forall_mem_cons.mpr ⟨Action.isKinded_lw.mpr fun _ => rfl, List.forall_mem_cons.mpr
    ⟨?_, List.forall_mem_singleton.mpr trivial⟩⟩
  rw [Action.IsKinded, hx]
  exact fun _ => rfl

lemma isKinded_lowerCallResult (v : String) : (s.lowerCallResult v).IsKinded s := by
  change SuitsKind (s.function.isFloat v) (if s.function.isFloat v then f0 else v0)
  cases s.function.isFloat v <;> exact fun _ => rfl

/-- Whether an instruction leads to a register of the wrong kind. -/
lemma isKinded_lowerInstruction (hapart : s.function.Apart) (n : Nat)
    (hi : s.function.Consistent i) (hoffence : s.offence? i = none) :
    (∀ a ∈ s.lowerInstruction n i, a.IsKinded s) ↔ ¬ s.Mixes i := by
  obtain ⟨isFloat, hkind, hall⟩ := hi
  obtain ⟨op, x, y, z, label⟩ := i
  cases op with
  | assign =>
    simp only [lowerInstruction]
    by_cases hz : z = ""
    · simp only [Instruction.alike, hz, if_true, List.forall_mem_cons] at hall
      rw [offence?, if_pos hz] at hoffence
      have hdest := isFloat_of_addressable hapart hall.1 (addressable_of_unplaced? hoffence)
      rw [if_pos hz, not_mixes_iff rfl (by simp), isKinded_lowerAssign hapart hall.2.1 hdest]
      simp [Instruction.values, hz]
    · simp only [Instruction.alike, Instruction.kinds, hz, if_false, List.mem_singleton,
        forall_eq] at hall hkind
      subst hkind
      rw [if_neg hz, not_mixes_iff rfl (by simp)]
      refine iff_of_true (isKinded_lowerArrayInit hapart hall) ?_
      simpa [Instruction.values, hz] using not_sharesFloat_of_int hapart hall
  | arith op =>
    simp only [Instruction.alike, List.forall_mem_cons] at hall
    have hdest := isFloat_of_addressable hapart hall.2.2.1 (addressable_of_unplaced? hoffence)
    rw [not_mixes_iff rfl (by simp)]
    exact isKinded_lowerArith hapart op hall.1 hall.2.1 hdest
  | goto =>
    refine iff_of_true (List.forall_mem_singleton.mpr (Action.isKinded_of_not_mem (by decide))) ?_
    simp [Mixes, Instruction.values]
  | branch cmp =>
    obtain rfl := List.mem_singleton.mp hkind
    rw [not_mixes_iff rfl (by simp)]
    exact iff_of_true (isKinded_lowerBranch hapart cmp hall)
      fun v hv => not_sharesFloat_of_int hapart (hall v hv)
  | ret =>
    refine (isKinded_lowerReturn _).trans ((isKinded_lowerResult hapart x).trans ?_)
    simp [Mixes, Instruction.isCall, Instruction.values]
  | call =>
    obtain rfl := List.mem_singleton.mp hkind
    refine iff_of_true (isKinded_lowerCall hapart n x fun v hv hne => hall v ?_) ?_
    · exact List.mem_filter.mpr ⟨hv, by simpa using hne⟩
    · simp [Mixes, Instruction.isCall]
  | callr =>
    obtain rfl := List.mem_singleton.mp hkind
    refine iff_of_true (List.forall_mem_append.mpr
      ⟨isKinded_lowerCall hapart n y fun v hv hne => hall v ?_,
        List.forall_mem_singleton.mpr (isKinded_lowerCallResult x)⟩) ?_
    · exact List.mem_filter.mpr ⟨by simpa [hne] using hv, by simpa using hne⟩
    · simp [Mixes, Instruction.isCall]
  | arrayStore =>
    obtain rfl := List.mem_singleton.mp hkind
    rw [not_mixes_iff rfl (by simp)]
    refine iff_of_true (isKinded_lowerArrayStore hapart hall) fun v hv => ?_
    exact not_sharesFloat_of_int hapart (hall v (List.Perm.swap _ _ _ |>.mem_iff.mp hv))
  | arrayLoad =>
    obtain rfl := List.mem_singleton.mp hkind
    have hx := hall x List.mem_cons_self
    have hindex := hall z (List.mem_cons_of_mem _ List.mem_cons_self)
    have hdest := isFloat_of_addressable hapart hx (addressable_of_unplaced? hoffence)
    rw [not_mixes_iff rfl (by simp)]
    refine iff_of_true (isKinded_lowerArrayLoad hapart hindex hdest) ?_
    exact List.forall_mem_singleton.mpr (not_sharesFloat_of_int hapart hindex)
  | other => simp [offence?] at hoffence

lemma isKinded_of_isFixed {a : Action} (ha : s.IsFixed a) : a.IsKinded s := by
  rcases ha with rfl | ha | ⟨l, rfl⟩ | ⟨b, rfl⟩ | ⟨b, rfl⟩
  · trivial
  · simp only [openFrame, List.mem_cons, List.not_mem_nil, or_false] at ha
    rcases ha with rfl | rfl
    · exact (Action.isKinded_step (by decide)).mpr ⟨fun _ => rfl, fun _ => rfl,
        suitsKind_of_not_register (isRegister_minus _)⟩
    · exact Action.isKinded_sw.mpr fun _ => rfl
  · trivial
  · trivial
  · trivial

/-- Parameters come in integer registers. -/
lemma isKinded_takeParams :
    (∀ a ∈ s.takeParams, a.IsKinded s) ↔ ∀ v ∈ s.function.params, s.function.isFloat v = false := by
  have hwrite : ∀ x : String × Nat, (Action.write (.text (Register.arg x.2)) x.1).IsKinded s ↔
      s.function.isFloat x.1 = false := fun x => by
    rw [Action.IsKinded, Operand.Suits, suitsKind_iff (isRegister_arg _), isFloatRegister_arg]
    exact eq_comm
  rw [← List.zipIdx_map_fst 0 s.function.params, takeParams, List.forall_mem_map,
    List.forall_mem_map]
  exact forall₂_congr fun x _ => hwrite x

end Scope

/-- Only floats are printed as floats. -/
lemma FunctionDef.Consistent.isInt_printed {f : FunctionDef} {i : Instruction} (hapart : f.Apart)
    (hi : f.Consistent i) : ∀ x ∈ i.printed, f.isInt x = false := by
  obtain ⟨isFloat, hkind, hall⟩ := hi
  have hfloat : ∀ x, f.IsOf true x → f.isInt x = false := by
    intro x hx
    rw [Bool.eq_false_iff]
    intro hint
    have hvar : f.isVar x = true := by rw [isVar, hint, Bool.true_or]
    have hkind := hx.isFloat_eq hapart hvar
    rw [hapart x hint] at hkind
    cases hkind
  intro x hx
  obtain ⟨op, a, b, c, label⟩ := i
  cases op with
  | call | callr =>
    obtain rfl := List.mem_singleton.mp hkind
    simp only [Instruction.printed] at hx
    split at hx
    · next hname =>
      have hx := hall x hx
      rw [show _ = _ from hname] at hx
      exact hfloat x hx
    · cases hx
  | assign | arith | goto | branch | ret | arrayStore | arrayLoad | other => cases hx

/-- Whether all lines of a function have registers of the right kinds. -/
lemma Strategy.forall_isKinded_iff {g : Strategy} {s : Scope} (hf : s.function.Built)
    (htyped : s.function.IsTyped) (hs : ((g.place s).run {} s.lower).failure = none) :
    (∀ l ∈ ((g.place s).run {} s.lower).lines, l.IsKinded) ↔
      (∀ v ∈ s.function.params, s.function.isFloat v = false) ∧
        ∀ i ∈ s.function.code, ¬ s.Mixes i := by
  have hoffence := Strategy.offence?_eq_none hf hs
  rw [← Scope.isKinded_takeParams]
  exact Strategy.forall_lines_iff hf (X := fun v => s.function.isInt v = false)
    (fun i hi => (htyped.code i hi).isInt_printed htyped.apart)
    (fun c a hc hheld ha hs => isKinded_emission htyped.apart (fun _ h => h) hc hheld ha hs)
    (fun a ha => Scope.isKinded_of_isFixed ha)
    (fun n i hi => Scope.isKinded_lowerInstruction htyped.apart n (htyped.code i hi)
      (hoffence i hi)) hs

/-- In a program where floats and integers do not meet, every register has the kind of its line
just if no parameter is a float, no float that is shared is assigned, computed with or returned, and
no float register is returned by name. -/
theorem lines_kinded_iff {text : String} {p : Program} (h : (readProgram text).result = .ok p)
    (htyped : ∀ f ∈ p.functions, f.IsTyped) {g : Strategy} {a : Asm.Program}
    (hok : p.generate g = .ok a) :
    (∀ fn ∈ a.functions, ∀ l ∈ fn.lines, l.IsKinded) ↔
      ∀ f ∈ p.functions, (∀ v ∈ f.params, f.isFloat v = false) ∧
        ∀ i ∈ f.code, i.isCall = false → ∀ v ∈ i.values,
          ¬ (f.isFloat v = true ∧ p.isGlobal v = true) ∧
          (i.op = .ret → f.isVar v = false → isFloatRegister v = false) := by
  obtain ⟨hfails, rfl⟩ := Program.generate_eq_ok_iff.mp hok
  rw [List.forall_mem_map]
  refine forall₂_congr fun f hf => ?_
  have hbuilt := (wellFormed_of_readProgram h hf).built
  refine (Strategy.forall_isKinded_iff (s := ⟨p, f⟩) hbuilt (htyped f hf) (hfails f hf)).trans ?_
  refine and_congr_right fun _ => forall₂_congr fun i _ => ?_
  simp [Scope.Mixes, Scope.SharesFloat, not_or]

/-! ### Floats and integers side by side -/

def scaling : FunctionDef where
  name := "f"
  params := ["n"]
  ints := ["n", "d"]
  floats := ["x", "y"]
  code := [{ op := .assign, arg1 := "x", arg2 := "1.5" },
    { op := .arith .mult, arg1 := "x", arg2 := "2.5", arg3 := "y" },
    { op := .arith .add, arg1 := "n", arg2 := "1", arg3 := "d" },
    { op := .call, arg1 := "printf", arg2 := "y" },
    { op := .call, arg1 := "printi", arg2 := "d" },
    { op := .ret, arg1 := "y" }]

def scalingFunction : Function := scaling.build.toOption.get (by decide +kernel)

def scalingLines : List String :=
  ["#start_function f\n", "float f(int n)\n", "int-list: n, d\n", "float-list: x, y\n",
    "assign, x, 1.5\n", "mult, x, 2.5, y\n", "add, n, 1, d\n", "call, printf, y\n",
    "call, printi, d\n", "return, y\n", "#end_function\n"]

def scalingText : String := String.ofList (scalingLines.flatMap String.toList)

/-- Floats are computed, printed and returned in float registers, and integers are not. -/
theorem lines_kinded_scaling :
    (readProgram scalingText).result = .ok (.ofFunctions [scalingFunction]) ∧
    scalingFunction.IsTyped ∧
    ∃ a, (Program.ofFunctions [scalingFunction]).generate (.perBlock 2) = .ok a ∧
      ∀ fn ∈ a.functions, ∀ l ∈ fn.lines, l.IsKinded := by
  have htext : scalingText.toList = scalingLines.flatMap String.toList := String.toList_ofList
  have hread : (readProgram scalingText).result = .ok (.ofFunctions [scalingFunction]) := by
    unfold readProgram
    rw [htext]
    decide +kernel
  have htyped : ∀ f ∈ (Program.ofFunctions [scalingFunction]).functions, f.IsTyped := by
    decide +kernel
  have hgen := Program.generate_eq_ok_iff.mpr
    ⟨(by decide +kernel : ∀ f ∈ (Program.ofFunctions [scalingFunction]).functions,
      ((Program.ofFunctions [scalingFunction]).functionEmission (.perBlock 2) f).failure = none),
      rfl⟩
  refine ⟨hread, htyped _ List.mem_cons_self, _, hgen, ?_⟩
  exact (lines_kinded_iff hread htyped hgen).mpr (by decide +kernel)

/-! ### A float that is passed -/

def passing : FunctionDef where
  name := "f"
  params := ["x"]
  floats := ["x"]
  code := [{ op := .ret, arg1 := "x" }]

def passingFunction : Function := passing.build.toOption.get (by decide +kernel)

def passingLines : List String :=
  ["#start_function f\n", "float f(float x)\n", "float-list: x\n", "return, x\n",
    "#end_function\n"]

def passingText : String := String.ofList (passingLines.flatMap String.toList)

/-- A float is taken out of an integer register. -/
theorem passed_float_misplaced :
    (readProgram passingText).result = .ok (.ofFunctions [passingFunction]) ∧
    passingFunction.IsTyped ∧
    ∃ a, (Program.ofFunctions [passingFunction]).generate .memory = .ok a ∧
      ∃ fn ∈ a.functions, ∃ l ∈ fn.lines, ¬ l.IsKinded ∧
        l.text = "s.s, $a0, 0($sp) # store to x" := by
  have htext : passingText.toList = passingLines.flatMap String.toList := String.toList_ofList
  have hread : (readProgram passingText).result = .ok (.ofFunctions [passingFunction]) := by
    unfold readProgram
    rw [htext]
    decide +kernel
  have hgen := Program.generate_eq_ok_iff.mpr
    ⟨(by decide +kernel : ∀ f ∈ (Program.ofFunctions [passingFunction]).functions,
      ((Program.ofFunctions [passingFunction]).functionEmission .memory f).failure = none), rfl⟩
  have hline : .instr "s.s" ["$a0", "0($sp)"] (some "store to x") ∈
      ((Program.ofFunctions [passingFunction]).functionEmission .memory passingFunction).lines := by
    decide +kernel
  exact ⟨hread, by decide +kernel, _, hgen, _, List.mem_cons_self, _, hline, by decide +kernel,
    by decide +kernel⟩

end MipsBackend
