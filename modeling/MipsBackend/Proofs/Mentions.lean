import Mathlib.Data.List.Forall2
import MipsBackend.Proofs.Sharing

/-! Mentions. The index of a program counts the functions that mention a name, each of them once.
So a name is global just if two functions of the list have it as an operand, and neither the order
of functions and instructions matters nor how often a function has it. -/
namespace MipsBackend

/-- Two elements of a list satisfy `p` if it holds at two positions. -/
lemma one_lt_countP_iff {α : Type} {p : α → Bool} {xs : List α} :
    1 < xs.countP p ↔
      ∃ i j : Nat, i < j ∧ (∃ x, xs[i]? = some x ∧ p x = true) ∧
        ∃ y, xs[j]? = some y ∧ p y = true := by
  induction xs with
  | nil => simp
  | cons x xs ih =>
    rw [List.countP_cons]
    by_cases hx : p x = true
    · -- the first position is taken by the head, and any other one will do for the second
      rw [if_pos hx, Nat.lt_add_left_iff_pos, List.countP_pos_iff]
      constructor
      · rintro ⟨y, hy, hpy⟩
        obtain ⟨n, hn⟩ := List.getElem?_of_mem hy
        exact ⟨0, n + 1, Nat.succ_pos n, ⟨x, rfl, hx⟩, y, hn, hpy⟩
      · rintro ⟨i, j, hij, -, y, hy, hpy⟩
        obtain ⟨n, rfl⟩ := Nat.exists_eq_add_of_lt hij
        exact ⟨y, List.mem_of_getElem? (i := i + n) hy, hpy⟩
    · rw [if_neg hx, Nat.add_zero, ih]
      constructor
      · rintro ⟨i, j, hij, hi, hj⟩
        exact ⟨i + 1, j + 1, Nat.succ_lt_succ hij, hi, hj⟩
      · rintro ⟨i, j, hij, ⟨y, hy, hpy⟩, hj⟩
        cases i with
        | zero =>
          cases hy
          exact absurd hpy hx
        | succ i =>
          obtain ⟨n, rfl⟩ := Nat.exists_eq_add_of_lt hij
          exact ⟨i, i + n + 1, by omega, ⟨y, hy, hpy⟩, by simpa [Nat.add_right_comm] using hj⟩

lemma FunctionDef.references_of_perm {f g : FunctionDef} (h : f.code.Perm g.code) (v : String) :
    f.references v = g.references v := by
  rw [Bool.eq_iff_iff, references_iff, references_iff]
  exact (h.flatMap_right _).mem_iff

namespace Program
variable {fs gs : List Function} {v : String}

/-- The function at a position of the list has the name as an operand. -/
def ReferencedAt (fs : List Function) (n : Nat) (v : String) : Prop :=
  ∃ f, fs[n]? = some f ∧ f.references v = true

/-- Only whether a function has the name as an operand matters. -/
lemma isGlobal_congr (h : List.Forall₂ (fun f g => f.references v = g.references v) fs gs) :
    (ofFunctions gs).isGlobal v = (ofFunctions fs).isGlobal v := by
  have hcount : (gs.countP fun g => g.references v) = fs.countP fun f => f.references v := by
    induction h with
    | nil => rfl
    | cons hfg _ ih => rw [List.countP_cons, List.countP_cons, ih, hfg]
  rw [Bool.eq_iff_iff, isGlobal_ofFunctions, isGlobal_ofFunctions, hcount]

end Program

/-- A name is global just if it is neither empty nor a literal and is an operand in the functions at
two positions of the list. So the functions of the list and the instructions in each of them may
change places, and operands may be repeated. -/
theorem isGlobal_iff_referenced_twice (fs : List Function) (v : String) :
    ((Program.ofFunctions fs).isGlobal v = true ↔ v ≠ "" ∧ isImmediate v = false ∧
      ∃ i j, i < j ∧ Program.ReferencedAt fs i v ∧ Program.ReferencedAt fs j v) ∧
    (∀ gs : List Function, fs.Perm gs →
      (Program.ofFunctions gs).isGlobal v = (Program.ofFunctions fs).isGlobal v) ∧
    (∀ gs : List Function, List.Forall₂ (fun f g => f.code.Perm g.code) fs gs →
      (Program.ofFunctions gs).isGlobal v = (Program.ofFunctions fs).isGlobal v) ∧
    ∀ gs : List Function, List.Forall₂ (fun f g => f.references v = g.references v) fs gs →
      (Program.ofFunctions gs).isGlobal v = (Program.ofFunctions fs).isGlobal v := by
  refine ⟨?_, fun gs h => ?_, fun gs h => ?_, fun gs h => Program.isGlobal_congr h⟩
  · rw [Program.isGlobal_ofFunctions, one_lt_countP_iff]
    rfl
  · rw [Program.isGlobal_of_perm h]
  · exact Program.isGlobal_congr (h.imp fun f g hfg => FunctionDef.references_of_perm hfg v)

/-- Two functions that have `a` and the literal `-1` in common, while `t` is in the second only. -/
def mentioning : List Function :=
  [{ name := "f", code := [
      { op := .arith .add, arg1 := "a", arg2 := "-1", arg3 := "a" },
      { op := .ret, arg1 := "a" }] },
    { name := "g", code := [
      { op := .arith .add, arg1 := "t", arg2 := "-1", arg3 := "t" },
      { op := .assign, arg1 := "a", arg2 := "t" },
      { op := .ret }] }].filterMap fun d : FunctionDef => d.build.toOption

/-- In whatever order functions and instructions come `a` is shared, and code that comes twice does
not make `t` shared. -/
theorem isGlobal_iff_referenced_mentioning :
    Program.ReferencedAt mentioning 0 "a" ∧ Program.ReferencedAt mentioning 1 "a" ∧
    (Program.ofFunctions mentioning).isGlobal "a" = true ∧
    (Program.ofFunctions mentioning.reverse).isGlobal "a" = true ∧
    (Program.ofFunctions (mentioning.map fun f =>
      { f with code := f.code.reverse })).isGlobal "a" = true ∧
    (Program.ofFunctions (mentioning.map fun f =>
      { f with code := f.code ++ f.code })).isGlobal "t" = false := by
  obtain ⟨hglobal, hfunctions, hcode, -⟩ := isGlobal_iff_referenced_twice mentioning "a"
  obtain ⟨-, -, -, hrepeat⟩ := isGlobal_iff_referenced_twice mentioning "t"
  have hfirst : Program.ReferencedAt mentioning 0 "a" := ⟨_, rfl, by decide +kernel⟩
  have hsecond : Program.ReferencedAt mentioning 1 "a" := ⟨_, rfl, by decide +kernel⟩
  have ha := hglobal.mpr ⟨by decide, by decide, 0, 1, by decide, hfirst, hsecond⟩
  refine ⟨hfirst, hsecond, ha, ?_, ?_, ?_⟩
  · rw [hfunctions _ (List.reverse_perm _).symm, ha]
  · rw [hcode _ ?_, ha]
    exact List.forall₂_map_right_iff.mpr
      (List.forall₂_same.mpr fun f _ => (List.reverse_perm _).symm)
  · rw [hrepeat _ ?_]
    · decide +kernel
    · refine List.forall₂_map_right_iff.mpr (List.forall₂_same.mpr fun f _ => ?_)
      simp [FunctionDef.references]

end MipsBackend
