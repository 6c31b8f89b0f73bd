import MipsBackend.Lowering.Basic
import MipsBackend.Placement.Memory
import Mathlib.Tactic.ByContra
import Mathlib.Tactic.Lemma

/-! Names of registers and places in memory do not collide: the saved registers differ from each
other and from all scratch registers, and every variable has a memory operand of its own. -/
namespace MipsBackend
open Asm Asm.Register

namespace Asm.Register

/-- Not one of the registers that hold variables. -/
def Scratch (r : Register) : Prop := ∀ n : Nat, r ≠ saved n

lemma toList_saved (n : Nat) : (saved n).toList = '$' :: 's' :: Nat.toDigits 10 n := by
  have h : toString (n : Int) = n.repr := rfl
  rw [saved, h, String.toList_append, Nat.toList_repr]
  rfl

lemma toList_arg (n : Nat) : (arg n).toList = '$' :: 'a' :: Nat.toDigits 10 n := by
  have h : toString (n : Int) = n.repr := rfl
  rw [arg, h, String.toList_append, Nat.toList_repr]
  rfl

lemma toDigits_injective {n m : Nat} (h : Nat.toDigits 10 n = Nat.toDigits 10 m) : n = m := by
  rw [← Nat.ofDigitChars_ten_toDigits (n := n), h, Nat.ofDigitChars_ten_toDigits]

lemma saved_injective {n m : Nat} (h : saved n = saved m) : n = m := by
  have h := congrArg String.toList h
  rw [toList_saved, toList_saved] at h
  exact toDigits_injective (by simpa using h)

lemma arg_injective {n m : Nat} (h : arg n = arg m) : n = m := by
  have h := congrArg String.toList h
  rw [toList_arg, toList_arg] at h
  exact toDigits_injective (by simpa using h)

/-- A register whose name does not start like that of a saved register is none. -/
lemma scratch_of_second {r : Register} {c : Char} {cs : List Char} (h : r.toList = '$' :: c :: cs)
    (hc : c ≠ 's') : Scratch r := by
  intro n hn
  rw [hn, toList_saved] at h
  simp only [List.cons.injEq, true_and] at h
  exact hc h.1.symm

lemma scratch_arg (n : Nat) : Scratch (arg n) := scratch_of_second (toList_arg n) (by decide)

lemma scratch_t0 : Scratch t0 := scratch_of_second rfl (by decide)
lemma scratch_t1 : Scratch t1 := scratch_of_second rfl (by decide)
lemma scratch_t2 : Scratch t2 := scratch_of_second rfl (by decide)
lemma scratch_f0 : Scratch f0 := scratch_of_second rfl (by decide)
lemma scratch_f2 : Scratch f2 := scratch_of_second rfl (by decide)
lemma scratch_f4 : Scratch f4 := scratch_of_second rfl (by decide)
lemma scratch_f12 : Scratch f12 := scratch_of_second rfl (by decide)
lemma scratch_v0 : Scratch v0 := scratch_of_second rfl (by decide)
lemma scratch_ra : Scratch ra := scratch_of_second rfl (by decide)

/-- The name of the stack pointer goes on with a letter instead of a digit. -/
lemma scratch_sp : Scratch sp := by
  intro n hn
  have h := congrArg String.toList hn
  rw [toList_saved] at h
  have hp : 'p' ∈ Nat.toDigits 10 n := by
    have h : ['p'] = Nat.toDigits 10 n := by simpa [sp] using h
    rw [← h]
    simp
  have := Nat.isDigit_of_mem_toDigits (by decide) (by decide) hp
  revert this
  decide

/-- A register whose name does not start like that of an argument register is none. -/
lemma arg_ne_of_second {r : Register} {c : Char} {cs : List Char} (h : r.toList = '$' :: c :: cs)
    (hc : c ≠ 'a') (n : Nat) : arg n ≠ r := by
  rintro rfl
  rw [toList_arg] at h
  simp only [List.cons.injEq, true_and] at h
  exact hc h.1.symm

lemma arg_ne_f0 (n : Nat) : arg n ≠ f0 := arg_ne_of_second rfl (by decide) n

lemma arg_ne_sp (n : Nat) : arg n ≠ sp := arg_ne_of_second rfl (by decide) n

lemma arg_not_temporary (n : Nat) : arg n ∉ [t0, t2, f0, f4] := by
  have h0 : arg n ≠ t0 := arg_ne_of_second rfl (by decide) n
  have h2 : arg n ≠ t2 := arg_ne_of_second rfl (by decide) n
  have h4 : arg n ≠ f4 := arg_ne_of_second rfl (by decide) n
  simp [h0, h2, h4, arg_ne_f0]

end Asm.Register

lemma isRegister_iff {s : String} : isRegister s = true ↔ ∃ cs, s.toList = '$' :: cs := by
  rw [isRegister, Option.isSome_iff_exists]
  exact exists_congr fun cs => Text.afterStart?_eq_some

@[simp] lemma isRegister_saved (n : Nat) : isRegister (saved n) = true :=
  isRegister_iff.mpr ⟨_, toList_saved n⟩

@[simp] lemma isRegister_arg (n : Nat) : isRegister (Register.arg n) = true :=
  isRegister_iff.mpr ⟨_, toList_arg n⟩

/-! ### Memory operands -/

lemma toList_stackSlot (n : Nat) :
    (stackSlot n).toList = Nat.toDigits 10 n ++ ['(', '$', 's', 'p', ')'] := by
  have h : toString (n : Int) = n.repr := rfl
  rw [stackSlot, address, h, String.toList_append, String.toList_append, String.toList_append,
    Nat.toList_repr, List.append_assoc, List.append_assoc]
  rfl

lemma stackSlot_injective {n m : Nat} (h : stackSlot n = stackSlot m) : n = m := by
  have h := congrArg String.toList h
  rw [toList_stackSlot, toList_stackSlot] at h
  exact toDigits_injective (List.append_cancel_right h)

/-- What starts with a number is taken for a literal. -/
lemma isImmediate_of_toDigits {x : String} {n : Nat} {cs : List Char}
    (hx : x.toList = Nat.toDigits 10 n ++ cs) : isImmediate x = true := by
  rw [isImmediate, hx]
  cases h : Nat.toDigits 10 n with
  | nil => exact absurd h Nat.toDigits_ne_nil
  | cons c cs =>
    have hc : c.isDigit = true :=
      Nat.isDigit_of_mem_toDigits (b := 10) (n := n) (by decide) (by decide) (by simp [h])
    simp [hc]

lemma isImmediate_stackSlot (n : Nat) : isImmediate (stackSlot n) = true :=
  isImmediate_of_toDigits (toList_stackSlot n)

lemma Program.isGlobal_iff {p : Program} {v : String} : p.isGlobal v = true ↔
    v ≠ "" ∧ isImmediate v = false ∧ 1 < p.mentions.getD v 0 := by
  simp [isGlobal, and_assoc]

lemma Program.ne_stackSlot_of_isGlobal {p : Program} {v : String} (h : p.isGlobal v = true)
    (n : Nat) : v ≠ stackSlot n := by
  rintro rfl
  have := (Program.isGlobal_iff.mp h).2.1
  rw [isImmediate_stackSlot] at this
  cases this

namespace FunctionDef
variable {f : FunctionDef} {v : String} {s : Slot}

/-- A slot belongs to the position of its variable among all declared variables. -/
lemma exists_index_of_slot? (h : f.slot? v = some s) :
    ∃ n, (f.ints ++ f.floats)[n]? = some v ∧ s.offset = wordSize * n := by
  unfold slot? at h
  split at h
  · next n hn =>
    cases h
    obtain ⟨hlt, hget, -⟩ := List.idxOf?_eq_some_iff.mp hn
    refine ⟨n, ?_, rfl⟩
    rw [List.getElem?_append_left hlt, List.getElem?_eq_getElem hlt]
    simpa using hget
  · obtain ⟨n, hn, h⟩ := Option.map_eq_some_iff.mp h
    cases h
    obtain ⟨hlt, hget, -⟩ := List.idxOf?_eq_some_iff.mp hn
    refine ⟨f.ints.length + n, ?_, by rw [Nat.mul_add]⟩
    rw [List.getElem?_append_right (by omega), Nat.add_sub_cancel_left,
      List.getElem?_eq_getElem hlt]
    simpa using hget

lemma slot?_of_isInt (h : f.isInt v = true) : ∃ n, f.slot? v = some ⟨wordSize * n, false⟩ := by
  unfold slot?
  cases hn : f.ints.idxOf? v with
  | some n => exact ⟨n, rfl⟩
  | none =>
    rw [List.idxOf?_eq_none_iff] at hn
    simp [isInt] at h
    exact absurd h hn

lemma isSome_slot? : (f.slot? v).isSome = f.isVar v := by
  unfold slot? isVar isInt isFloat
  cases hn : f.ints.idxOf? v with
  | some n =>
    obtain ⟨hlt, hget, -⟩ := List.idxOf?_eq_some_iff.mp hn
    have hv : v ∈ f.ints := by
      have : f.ints[n] = v := by simpa using hget
      exact this ▸ List.getElem_mem hlt
    simp [hv]
  | none =>
    have hv := List.idxOf?_eq_none_iff.mp hn
    simp only [Option.isSome_map]
    cases hm : f.floats.idxOf? v with
    | some n =>
      obtain ⟨hlt, hget, -⟩ := List.idxOf?_eq_some_iff.mp hm
      have hw : v ∈ f.floats := by
        have : f.floats[n] = v := by simpa using hget
        exact this ▸ List.getElem_mem hlt
      simp [hw]
    | none =>
      have hw := List.idxOf?_eq_none_iff.mp hm
      simp [hv, hw]

end FunctionDef

namespace Scope
variable {s : Scope} {u v : String}

/-- The memory operand of a variable. -/
def cell (s : Scope) (v : String) : String := (s.location? v).elim "" Location.operand

/-- A variable that has a place in memory. -/
def Addressable (s : Scope) (v : String) : Prop :=
  s.function.isVar v = true ∨ s.program.isGlobal v = true

instance : Decidable (s.Addressable v) := inferInstanceAs (Decidable (_ ∨ _))

lemma cell_eq_operand {l : Location} (h : s.location? v = some l) : s.cell v = l.operand := by
  rw [cell, h, Option.elim_some]

lemma cell_of_isGlobal (h : s.program.isGlobal v = true) : s.cell v = v := by
  simp [cell, location?, h]

lemma cell_of_not_isGlobal (h : s.program.isGlobal v = false) (hv : s.function.isVar v = true) :
    ∃ n, (s.function.ints ++ s.function.floats)[n]? = some v ∧
      s.cell v = stackSlot (wordSize * n : Nat) := by
  rw [← FunctionDef.isSome_slot?, Option.isSome_iff_exists] at hv
  obtain ⟨t, ht⟩ := hv
  obtain ⟨n, hn, hoff⟩ := FunctionDef.exists_index_of_slot? ht
  refine ⟨n, hn, ?_⟩
  simp [cell, location?, h, ht, hoff]

lemma location?_of_addressable (h : s.Addressable v) :
    ∃ l, s.location? v = some l ∧ l.operand = s.cell v := by
  have hsome : (s.location? v).isSome = true := by
    unfold location?
    rcases h with h | h
    · rw [← FunctionDef.isSome_slot?] at h
      split
      · rfl
      · rw [Option.isSome_map, h]
    · rw [if_pos h]
      rfl
  obtain ⟨l, hl⟩ := Option.isSome_iff_exists.mp hsome
  exact ⟨l, hl, (cell_eq_operand hl).symm⟩

/-- A local integer variable is not kept as a float. -/
lemma location?_of_isInt (h : s.program.isGlobal v = false) (hv : s.function.isInt v = true) :
    s.location? v = some ⟨s.cell v, false⟩ := by
  obtain ⟨n, hn⟩ := FunctionDef.slot?_of_isInt hv
  simp [cell, location?, h, hn]

/-- Different variables are at different places. -/
lemma cell_injective (hu : s.Addressable u) (hv : s.Addressable v) (h : s.cell u = s.cell v) :
    u = v := by
  cases hgu : s.program.isGlobal u <;> cases hgv : s.program.isGlobal v
  · obtain ⟨n, hn, hcu⟩ := cell_of_not_isGlobal hgu (hu.resolve_right (by simp [hgu]))
    obtain ⟨m, hm, hcv⟩ := cell_of_not_isGlobal hgv (hv.resolve_right (by simp [hgv]))
    rw [hcu, hcv] at h
    have := stackSlot_injective h
    have hnm : n = m := by
      unfold wordSize at this
      omega
    rw [hnm, hm] at hn
    exact (Option.some.inj hn).symm
  · obtain ⟨n, -, hcu⟩ := cell_of_not_isGlobal hgu (hu.resolve_right (by simp [hgu]))
    rw [hcu, cell_of_isGlobal hgv] at h
    exact absurd h.symm (Program.ne_stackSlot_of_isGlobal hgv _)
  · obtain ⟨n, -, hcv⟩ := cell_of_not_isGlobal hgv (hv.resolve_right (by simp [hgv]))
    rw [hcv, cell_of_isGlobal hgu] at h
    exact absurd h (Program.ne_stackSlot_of_isGlobal hgu _)
  · rwa [cell_of_isGlobal hgu, cell_of_isGlobal hgv] at h

/-- The return address comes after all variables. -/
lemma returnSlot_eq : s.returnSlot = stackSlot (wordSize * s.function.numVariables : Nat) := by
  unfold returnSlot frame wordSize
  congr 2

/-- The return address is kept apart from all variables. -/
lemma cell_ne_returnSlot (hv : s.Addressable v) : s.cell v ≠ s.returnSlot := by
  rw [returnSlot_eq]
  cases hg : s.program.isGlobal v
  · obtain ⟨n, hn, hc⟩ := cell_of_not_isGlobal hg (hv.resolve_right (by simp [hg]))
    intro h
    rw [hc] at h
    have := stackSlot_injective h
    have hlt := (List.getElem?_eq_some_iff.mp hn).1
    rw [List.length_append] at hlt
    unfold wordSize FunctionDef.numVariables at this
    omega
  · rw [cell_of_isGlobal hg]
    exact Program.ne_stackSlot_of_isGlobal hg _

end Scope
end MipsBackend
