import MipsBackend.Proofs.Instructions
import MipsBackend.Proofs.Liveness

/-! Calls, and with them the code of any instruction that addresses no array. -/
namespace MipsBackend
open Asm Asm.Register Machine

namespace Scope
variable (s : Scope)

/-- The registers in which a call passes its arguments. `printf` takes floats only, so what it is
passed is left open if one of its arguments is an integer variable. -/
def passedRegisters (name a b : String) : List Register :=
  if name = "printf" then
    if a = "" ∧ b = "" ∨ s.function.isInt a = true ∨ s.function.isInt b = true then [] else [f12]
  else (if a = "" then [] else [Register.arg 0]) ++ (if b = "" then [] else [Register.arg 1])

/-- With the number of the system call. -/
def callRegisters (name a b : String) : List Register :=
  s.passedRegisters name a b ++ if (syscallCode? name).isSome then [v0] else []

/-- The registers in which an instruction hands over values when control leaves. -/
def handedOver (i : Instruction) : List Register :=
  match i.op with
  | .ret => s.resultRegisters i.arg1
  | .call => s.callRegisters i.arg1 i.arg2 i.arg3
  | .callr => s.callRegisters i.arg2 i.arg3 ""
  | _ => []

/-- A float result is taken from a system call, which does not set `$f0`. -/
def readsStaleFloat (i : Instruction) : Bool :=
  decide (i.op = .callr) && (syscallCode? i.arg2).isSome && s.function.isFloat i.arg1

end Scope

/-- Printing the integer `x`, with the result stored to the float `v` that lies at `a`. -/
def printToFloat (x v a : String) : List Line :=
  [.instr "li" [Register.arg 0, x] none, .instr "li" [v0, "1"] none,
    .instr "syscall" [] (some "printi"), .instr "s.s" [f0, a] (some ("store to " ++ v))]

/-- What is stored is what `$f0` held before the call. -/
lemma mem_run_printToFloat {p : Program} {V : Type} (m : Machine p V) (s : State V)
    (x v a : String) : (m.run s (printToFloat x v a)).mem a = s.regs f0 := by
  have harg : f0 ≠ Register.arg 0 := by decide +kernel
  have hnumber : f0 ≠ v0 := by decide +kernel
  simp [printToFloat, Machine.run, Machine.step, stepInstr, Effect.of, harg, hnumber]

section
variable {q : Placement} {V : Type} {m : Machine q.program V} {y : Nat → Register → V}
  {W S : List Register} {F : Prop} {L K L' M M' : String → Prop} {w w' : Twin V}
  {R U : Twin V → Prop} {a b d v name : String} {r : Register} {n : Nat}

lemma argument_simulates (isFloat : Bool) (ha : q.function.isVar a = true → L a)
    (hreg : isRegister r = true) (hr : Scratch r) (hf : r ≠ f0) (hR : Stable [r] R) :
    Simulates m y W (fun w => Agree q F L M w ∧ R w) (q.lowerArgument a r isFloat)
      (fun w => Agree q F L M w ∧ R w ∧
        (a ≠ "" → isArgOrReturn r = true ∨ q.function.isInt a = false → w.Same [r])) := by
  unfold Scope.lowerArgument
  split
  · next h => exact .nil fun w hw => ⟨hw.1, hw.2, fun hne => absurd h hne⟩
  · split
    · next h =>
      have hv : L a ∨ q.program.isGlobal a = true := by
        simp only [Bool.or_eq_true] at h
        exact h.imp_left ha
      apply Simulates.silent
      rintro w ⟨hA, hRw⟩
      obtain ⟨s, t, hs, ht, hk, hval, -⟩ := hA.read (m := m) (y := y) hv hreg
      refine ⟨s, t, hs, ht, hA.keeps hk (by simpa using hr) fun hm => ?_, hR _ _ hk hRw,
        fun _ hint => by simpa [Twin.Same] using hval hint⟩
      exact absurd (by simpa using hm) hf.symm
    · have hop : Effect.of (if isFloat then "li.s" else "li") = .constant := by
        cases isFloat <;> rfl
      apply (constant_simulates hop a hr hR).post
      rintro w ⟨hA, hRw, hs⟩
      exact ⟨hA, hRw, fun _ _ => hs⟩

lemma arguments_simulates (ha : q.function.isVar a = true → L a)
    (hb : q.function.isVar b = true → L b) (hU : ∀ S, Stable S U) :
    Simulates m y W (fun w => Agree q F L M w ∧ U w)
      (q.lowerArgument a (if decide (name = "printf") then f12 else Register.arg 0)
          (decide (name = "printf")) ++
        q.lowerArgument b (if decide (name = "printf") then f12 else Register.arg 1)
          (decide (name = "printf")))
      (fun w => Agree q F L M w ∧ U w ∧ w.Same (q.passedRegisters name a b)) := by
  unfold Scope.passedRegisters
  by_cases hname : name = "printf"
  · simp only [hname, decide_true, if_true]
    have h1 := argument_simulates (m := m) (y := y) (W := W) (F := F) (M := M) true ha
      (r := f12) rfl scratch_f12 (by decide) (hU _)
    by_cases hbe : b = ""
    · -- the second argument is missing, and the first one stays in `$f12`
      have hnil : q.lowerArgument b f12 true = [] := by simp [Scope.lowerArgument, hbe]
      rw [hnil, List.append_nil]
      apply h1.post
      rintro w ⟨hA, hw, hs⟩
      refine ⟨hA, hw, ?_⟩
      split
      · simp [Twin.Same]
      · next hcond =>
        simp only [hbe, and_true, not_or, Bool.not_eq_true] at hcond
        exact hs hcond.1 (Or.inr hcond.2.1)
    · have h2 := argument_simulates (m := m) (y := y) (W := W) (F := F) (M := M) true hb
        (r := f12) rfl scratch_f12 (by decide) (hU _)
      refine (h1.post fun w h => ⟨h.1, h.2.1⟩).append (h2.post ?_)
      rintro w ⟨hA, hw, hs⟩
      refine ⟨hA, hw, ?_⟩
      split
      · simp [Twin.Same]
      · next hcond =>
        simp only [not_or, Bool.not_eq_true] at hcond
        exact hs hbe (Or.inr hcond.2.2)
  · simp only [hname, decide_false, Bool.false_eq_true, if_false]
    have h1 := argument_simulates (m := m) (y := y) (W := W) (F := F) (M := M) false ha
      (r := Register.arg 0) rfl (scratch_arg 0) (arg_ne_f0 0) (hU _)
    have hstable : Stable [Register.arg 1] fun w : Twin V => U w ∧
        (a ≠ "" → isArgOrReturn (Register.arg 0) = true ∨ q.function.isInt a = false →
          w.Same [Register.arg 0]) := by
      refine (hU _).and fun w w' hk h hne hint => ?_
      exact stable_same (by decide) w w' hk (h hne hint)
    have h2 := argument_simulates (m := m) (y := y) (W := W) (F := F) (M := M) false hb
      (r := Register.arg 1) rfl (scratch_arg 1) (arg_ne_f0 1) hstable
    apply (h1.append h2).post
    rintro w ⟨hA, ⟨hw, hs⟩, hs'⟩
    refine ⟨hA, hw, fun r hr => ?_⟩
    rcases List.mem_append.mp hr with hr | hr
    · split at hr
      · simp at hr
      · next hne => exact hs hne (Or.inl rfl) r hr
    · split at hr
      · simp at hr
      · next hne => exact hs' hne (Or.inl rfl) r hr

lemma not_mem_passedRegisters : v0 ∉ q.passedRegisters name a b := by
  unfold Scope.passedRegisters
  split_ifs <;> decide

/-- A call goes well if jumping to a function does; of the variables in `L` those in `K` are
still there afterwards. -/
lemma call_simulates (ha : q.function.isVar a = true → L a) (hb : q.function.isVar b = true → L b)
    (hU : ∀ S, Stable S U) (hK : ∀ v, K v → L v)
    (hjal : syscallCode? name = none →
      Simulates m y (q.callRegisters name a b)
        (fun w => Agree q F L M w ∧ U w ∧ w.Same (q.callRegisters name a b))
        [.save n, .line "jal" [name], .restore n]
        (fun w => Agree q F K M w ∧ U w ∧ w.Same [v0, f0])) :
    Simulates m y (q.callRegisters name a b) (fun w => Agree q F L M w ∧ U w)
      (q.lowerCall n name a b)
      (fun w => Agree q F K M w ∧ U w ∧ w.Same [v0] ∧
        (syscallCode? name = none → w.Same [f0])) := by
  refine (arguments_simulates ha hb hU).append ?_
  cases hcode : syscallCode? name with
  | some code =>
    have hstable : Stable [v0] fun w : Twin V => U w ∧ w.Same (q.passedRegisters name a b) := by
      refine (hU _).and (stable_same fun r hr hmem => ?_)
      obtain rfl : r = v0 := by simpa using hmem
      exact not_mem_passedRegisters hr
    have hsame : ∀ w : Twin V, w.Same (q.passedRegisters name a b) → w.Same [v0] →
        w.Same (q.callRegisters name a b) := by
      intro w h1 h2 r hr
      rw [Scope.callRegisters, hcode] at hr
      rcases List.mem_append.mp hr with hr | hr
      · exact h1 r hr
      · exact h2 r hr
    refine (constant_simulates effect_li (toString code) scratch_v0 hstable).cons ?_
    apply (control_simulates [] effect_syscall fun w h => hsame w h.2.1.2 h.2.2).post
    rintro w ⟨hA, ⟨hw, -⟩, hs⟩
    exact ⟨hA.weaken id hK fun _ h => h, hw, hs, by simp⟩
  | none =>
    refine ((hjal hcode).pre ?_).post ?_
    · rintro w ⟨hA, hw, hs⟩
      exact ⟨hA, hw, by simpa [Scope.callRegisters, hcode] using hs⟩
    · rintro w ⟨hA, hw, hs⟩
      exact ⟨hA, hw, fun r hr => hs r (by simp_all), fun _ r hr => hs r (by simp_all)⟩

lemma callResult_simulates (hd : q.Addressable d) :
    Simulates m y W
      (fun w => Agree q F K M w ∧ Updates q w.cache (some d) K L' M M' ∧
        w.Same [if q.function.isFloat d then f0 else v0])
      [q.lowerCallResult d] (Agree q F L' M') := by
  apply (write_simulates (S := [v0, f0]) (L := K) (M := M) hd _).pre
  rintro w ⟨hA, hU, hs⟩
  refine ⟨hA, ?_, hU⟩
  have hs := hs _ (List.mem_singleton.mpr rfl)
  cases hf : q.function.isFloat d with
  | true => exact .loaded (by simp) rfl (by simpa [hf] using hs)
  | false => exact .loaded (by simp) rfl (by simpa [hf] using hs)

/-! ### Any instruction -/

/-- The variable that an instruction assigns. -/
def Instruction.dest? (i : Instruction) : Option String :=
  match i.op with
  | .assign | .callr => some i.arg1
  | .arith _ => some i.arg3
  | _ => none

/-- Whether an instruction is one of the code format that addresses no array. -/
def Instruction.isScalar (i : Instruction) : Bool :=
  match i.op with
  | .assign => decide (i.arg3 = "")
  | .arrayStore | .arrayLoad | .other _ => false
  | _ => true

/-- An instruction without arrays and registers that assigns a known variable, if any. -/
structure Scope.Scalar (s : Scope) (i : Instruction) : Prop where
  isScalar : i.isScalar = true
  operands : ∀ a ∈ i.args, isRegister a = false
  dest : ∀ d ∈ i.dest?, s.Addressable d

instance (s : Scope) (i : Instruction) : Decidable (s.Scalar i) :=
  decidable_of_iff (i.isScalar = true ∧ (∀ a ∈ i.args, isRegister a = false) ∧
    ∀ d ∈ i.dest?, s.Addressable d)
    ⟨fun h => ⟨h.1, h.2.1, h.2.2⟩, fun h => ⟨h.isScalar, h.operands, h.dest⟩⟩

lemma Updates.mono {c : Cache} {d : Option String} (h : Updates q c d K L' M M')
    (hK : ∀ v, K v → L v) : Updates q c d L L' M M' :=
  ⟨fun u hu => (h.vars u hu).imp_right fun h => ⟨hK u h.1, h.2⟩, h.slots⟩

/-- Without a destination nothing more can be claimed than before. -/
lemma Agree.updates_none (h : Agree q F L M w) {c : Cache} (hu : Updates q c none L L' M M') :
    Agree q F L' M' w := by
  refine h.weaken id (fun v hv => ?_) fun v hv => ?_
  · simpa using hu.vars v hv
  · simpa using hu.slots v hv

/-- The code of an instruction keeps the runs in agreement, if the variables it reads are among
those of `L`. After it they agree on all that the update of its destination allows. -/
lemma instruction_simulates {i : Instruction} (hi : q.Scalar i)
    (hW : i.isTerminal = true → W = q.handedOver i) (hname : q.function.isVar "" = false)
    (hL : ∀ v ∈ q.function.useVars i, L v) (hK : ∀ v, K v → L v)
    (hF : q.readsStaleFloat i = true → F)
    (hjal : i.isCall = true → ∀ name,
      Simulates m y W
        (fun w => Agree q F L M w ∧ Updates q w.cache i.dest? K L' M M' ∧ w.Same W)
        [.save n, .line "jal" [name], .restore n]
        (fun w => Agree q F K M w ∧ Updates q w.cache i.dest? K L' M M' ∧ w.Same [v0, f0])) :
    Simulates m y W (fun w => Agree q F L M w ∧ Updates q w.cache i.dest? K L' M M')
      (q.lowerInstruction n i) (Agree q F L' M') := by
  obtain ⟨op, x, z, u, label⟩ := i
  have hreg := hi.operands
  have hdest := hi.dest
  have huse : ∀ v, v ∈ Instruction.uses ⟨op, x, z, u, label⟩ ∨ v = "" →
      q.function.isVar v = true → L v := by
    rintro v (hv | rfl) hvar
    · exact hL v (List.mem_filter.mpr ⟨hv, hvar⟩)
    · simp [hname] at hvar
  cases op with
  | assign =>
    have hu : u = "" := by simpa [Instruction.isScalar] using hi.isScalar
    rw [Scope.lowerInstruction]
    simp only [hu, if_true]
    refine (assign_simulates (i := ⟨.assign, x, z, "", label⟩) (huse z ?_)
      (hreg z (by simp [Instruction.args])) (hdest x rfl)).pre fun w h => ⟨h.1, h.2.mono hK⟩
    by_cases hz : z = "" <;> simp [Instruction.uses, hz]
  | arith op =>
    refine (arith_simulates (i := ⟨.arith op, x, z, u, label⟩) (huse x ?_) (huse z ?_)
      (hreg z (by simp [Instruction.args])) (hdest u rfl)).pre fun w h => ⟨h.1, h.2.mono hK⟩
    · by_cases hx : x = "" <;> simp [Instruction.uses, hx]
    · by_cases hz : z = "" <;> simp [Instruction.uses, hz]
  | goto =>
    obtain rfl := hW rfl
    refine (control_simulates [x] (P := fun w => Agree q F L' M' w) effect_j
      fun w _ => by simp [Twin.Same, Scope.handedOver]).pre ?_
    rintro w ⟨hA, hU⟩
    exact hA.updates_none (hU.mono hK)
  | branch cmp =>
    obtain rfl := hW rfl
    rintro w ⟨hA, hU⟩
    refine (branch_simulates (i := ⟨.branch cmp, x, z, u, label⟩) (huse x ?_) (huse z ?_)
      (hreg z (by simp [Instruction.args]))).post (fun _ h => h.updates_none (hU.mono hK)) w hA
    · by_cases hx : x = "" <;> simp [Instruction.uses, hx]
    · by_cases hz : z = "" <;> simp [Instruction.uses, hz]
  | ret =>
    obtain rfl := hW rfl
    rintro w ⟨hA, hU⟩
    refine (return_simulates (huse x ?_)).post (fun _ h => h.updates_none (hU.mono hK)) w hA
    by_cases hx : x = "" <;> simp [Instruction.uses, hx]
  | call =>
    obtain rfl := hW rfl
    refine (call_simulates (huse z ?_) (huse u ?_) (fun _ => updates_stable) hK
      fun _ => hjal rfl x).post fun w h => h.1.updates_none h.2.1
    · by_cases hz : z = "" <;> simp [Instruction.uses, hz]
    · by_cases hu : u = "" <;> simp [Instruction.uses, hu]
  | callr =>
    obtain rfl := hW rfl
    have hcall := call_simulates (huse u ?_) (huse "" (Or.inr rfl))
      (fun _ => updates_stable) hK fun _ => hjal rfl z
    · refine hcall.append ((callResult_simulates (K := K) (M := M) (hdest x rfl)).pre ?_)
      rintro w ⟨hA, hU, hv, hf⟩
      refine ⟨hA, hU, ?_⟩
      split
      · next hfloat =>
        -- a function returns a float in `$f0`; after a system call `$f0` is as it was before
        cases hcode : syscallCode? z with
        | none => exact hf hcode
        | some code =>
          have hF : F := hF (by simp [Scope.readsStaleFloat, hcode, hfloat])
          simpa [Twin.Same] using hA.float hF
      · exact hv
    · by_cases hu : u = "" <;> simp [Instruction.uses, hu]
  | arrayStore => exact absurd hi.isScalar Bool.false_ne_true
  | arrayLoad => exact absurd hi.isScalar Bool.false_ne_true
  | other k => exact absurd hi.isScalar Bool.false_ne_true

end

/-! ### Destinations and liveness -/

lemma Instruction.dest?_of_mem_defs (i : Instruction) (hi : i.isScalar = true) {v : String}
    (h : v ∈ i.defs) : i.dest? = some v := by
  obtain ⟨op, x, z, u, label⟩ := i
  cases op <;> simp_all [defs, dest?, isScalar]

namespace Function
variable {f : Function} {n : Nat} {i : Instruction} {v : String}

lemma mem_defs_of_dest? (hi : f.code[n]? = some i) (hd : i.dest? = some v)
    (hname : f.isVar "" = false) (hv : f.isVar v = true) : v ∈ f.liveness.defs n := by
  have hne : v ≠ "" := by
    rintro rfl
    simp [hname] at hv
  have hdef : v ∈ i.defs := by
    obtain ⟨op, x, z, u, label⟩ := i
    cases op <;> simp_all [Instruction.defs, Instruction.dest?]
  exact mem_defs.mpr ⟨i, hi, List.mem_filter.mpr ⟨hdef, hv⟩⟩

lemma mem_liveIn_of_dest? (hi : f.code[n]? = some i) (hs : i.isScalar = true)
    (hv : v ∈ f.liveness.liveOut n) (hd : i.dest? ≠ some v) : v ∈ f.liveness.liveIn n := by
  refine mem_liveIn.mpr (Or.inr ⟨hv, fun h => ?_⟩)
  obtain ⟨j, hj, hv⟩ := mem_defs.mp h
  rw [hi] at hj
  cases hj
  exact hd (i.dest?_of_mem_defs hs (List.mem_filter.mp hv).1)

lemma mem_liveIn_of_useVars (hi : f.code[n]? = some i) (hv : v ∈ f.useVars i) :
    v ∈ f.liveness.liveIn n := mem_liveIn.mpr (Or.inl (mem_use.mpr ⟨i, hi, hv⟩))

end Function
end MipsBackend
