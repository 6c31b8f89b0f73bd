import MipsBackend.Proofs.Storage

/-! The data section. The shared integer variables and the arrays of a program are found by going
over its functions in different ways. Still each list has a name once, no name is in both, and so no
symbol is defined by two lines of what is printed. -/
namespace MipsBackend
open Asm

/-! ### First occurrences -/

lemma distinct_filter (p : String → Bool) (xs : List String) :
    distinct (xs.filter p) = (distinct xs).filter p := by
  induction xs with
  | nil => rfl
  | cons x xs ih =>
    rw [distinct]
    by_cases hx : p x = true
    · rw [List.filter_cons_of_pos hx, List.filter_cons_of_pos hx, distinct, ih, List.filter_comm]
    · rw [List.filter_cons_of_neg hx, List.filter_cons_of_neg hx, ih, List.filter_filter]
      -- the head is dropped in either case
      refine List.filter_congr fun y _ => ?_
      by_cases hy : y = x
      · simp [hy, hx]
      · simp [hy]

/-- Members come in the order of their first occurrences. -/
lemma pairwise_idxOf_distinct (xs : List String) :
    (distinct xs).Pairwise fun u v => xs.idxOf u < xs.idxOf v := by
  induction xs with
  | nil => exact .nil
  | cons x xs ih =>
    have hnext : ∀ y ∈ (distinct xs).filter (· ≠ x), (x :: xs).idxOf y = xs.idxOf y + 1 := by
      intro y hy
      have hne : y ≠ x := by simpa using (List.mem_filter.mp hy).2
      exact List.idxOf_cons_ne xs hne.symm
    refine List.pairwise_cons.mpr ⟨fun y hy => ?_, (ih.filter _).imp_of_mem fun hu hv huv => ?_⟩
    · rw [hnext y hy, List.idxOf_cons_self]
      exact Nat.succ_pos _
    · rw [hnext _ hu, hnext _ hv]
      exact Nat.succ_lt_succ huv

namespace Program

/-- The integer variables that functions declare, in order, with repetitions. -/
def declaredInts (p : Program) : List String := p.functions.flatMap (·.ints)

lemma pairwise_idxOf_globalInts (p : Program) :
    p.globalInts.Pairwise fun u v => p.declaredInts.idxOf u < p.declaredInts.idxOf v := by
  rw [globalInts, distinct_filter]
  exact (pairwise_idxOf_distinct _).filter _

end Program

/-! ### Lines -/

namespace Asm

/-- The line defines a symbol of the data section: a word, or a number of bytes. -/
def DefinesData (line x : String) : Prop :=
  line = x ++ ": .word 0" ∨ ∃ bytes : Int, line = x ++ ": .space " ++ toString bytes

lemma space_not_mem_toString (n : Int) : ' ' ∉ (toString n).toList := by
  have hdigits : ∀ k, ' ' ∉ Nat.toDigits 10 k := fun k hk =>
    absurd (Nat.isDigit_of_mem_toDigits (by decide) (by decide) hk) (by decide)
  rw [toList_toString_int]
  split
  · exact List.not_mem_cons_of_ne_of_not_mem (by decide) (hdigits _)
  · exact hdigits _

/-- What comes before the last space of such a line ends in the symbol and a directive. -/
lemma DefinesData.exists_directive {line x : String} (h : DefinesData line x) :
    ∃ directive ∈ [": .word".toList, ": .space".toList], ∃ size, ' ' ∉ size ∧
      line.toList = x.toList ++ directive ++ ' ' :: size := by
  rcases h with rfl | ⟨n, rfl⟩
  · exact ⟨_, List.mem_cons_self, ['0'], by decide, by simp⟩
  · refine ⟨_, List.mem_cons_of_mem _ List.mem_cons_self, _, space_not_mem_toString n, ?_⟩
    simp

/-- The last occurrence of an element cuts a list in one way only. -/
lemma append_inj_of_not_mem {α : Type} {a : α} {xs xs' ys ys' : List α}
    (h : xs ++ a :: ys = xs' ++ a :: ys') (hys : a ∉ ys) (hys' : a ∉ ys') : xs = xs' := by
  rcases List.append_eq_append_iff.mp h with ⟨zs, rfl, hzs⟩ | ⟨zs, rfl, hzs⟩
  · cases zs with
    | nil => rw [List.append_nil]
    | cons z zs => exact absurd ((List.cons.inj hzs).2 ▸ by simp) hys
  · cases zs with
    | nil => rw [List.append_nil]
    | cons z zs => exact absurd ((List.cons.inj hzs).2 ▸ by simp) hys'

/-- A line defines one symbol at most, whatever characters are in it. -/
lemma DefinesData.unique {line x y : String} (hx : DefinesData line x) (hy : DefinesData line y) :
    x = y := by
  obtain ⟨d, hd, n, hn, hline⟩ := hx.exists_directive
  obtain ⟨d', hd', n', hn', hline'⟩ := hy.exists_directive
  have hcut := append_inj_of_not_mem (hline.symm.trans hline') hn hn'
  -- the two directives end in different characters
  have hlast := congrArg List.getLast? hcut
  simp only [List.mem_cons, List.not_mem_nil, or_false] at hd hd'
  rcases hd with rfl | rfl <;> rcases hd' with rfl | rfl
  · exact String.toList_injective (List.append_cancel_right hcut)
  · simp at hlast
  · simp at hlast
  · exact String.toList_injective (List.append_cancel_right hcut)

lemma not_definesData_header {x : String} : ¬ DefinesData ".data" x := by
  intro h
  obtain ⟨d, -, n, -, hline⟩ := h.exists_directive
  have hspace : ' ' ∈ ".data".toList := by simp [hline]
  exact absurd hspace (by decide)

namespace Program
variable {a : Asm.Program} {x : String}

/-- The lines of the data section define the symbols that they are marked with. -/
lemma definesData_iff {e : String × Option String} (he : e ∈ a.markedData) :
    DefinesData e.1 x ↔ e.2 = some x := by
  have hentry : ∀ {line v : String}, DefinesData line v →
      (DefinesData line x ↔ some v = some x) := by
    intro line v hv
    rw [Option.some.injEq]
    constructor
    · exact fun hx => hv.unique hx
    · rintro rfl
      exact hv
  unfold markedData at he
  split at he
  · cases he
  · rcases List.mem_append.mp he with he | he
    · rcases List.mem_cons.mp he with rfl | he
      · exact iff_of_false not_definesData_header (by simp)
      · obtain ⟨v, -, rfl⟩ := List.mem_map.mp he
        exact hentry (Or.inl rfl)
    · obtain ⟨v, -, rfl⟩ := List.mem_map.mp he
      exact hentry (Or.inr ⟨_, rfl⟩)

/-- The data section defines the variables and the arrays. -/
lemma exists_definesData_iff : (∃ l ∈ a.dataLines, DefinesData l x) ↔
    x ∈ a.globals ∨ x ∈ a.arrays.map ArraySymbol.name := by
  rw [← List.mem_append, ← filterMap_snd_markedData, ← map_fst_markedData, List.mem_filterMap]
  simp only [List.mem_map, exists_exists_and_eq_and]
  exact exists_congr fun e => and_congr_right fun he => definesData_iff he

lemma pairwise_definesData (h : (a.globals ++ a.arrays.map ArraySymbol.name).Nodup) :
    a.dataLines.Pairwise fun l l' => ∀ x, DefinesData l x → ¬ DefinesData l' x := by
  rw [← filterMap_snd_markedData, List.Nodup, List.pairwise_filterMap] at h
  rw [← map_fst_markedData, List.pairwise_map]
  refine h.imp_of_mem fun he he' hne x hx hx' => ?_
  exact hne x ((definesData_iff he).mp hx) x ((definesData_iff he').mp hx') rfl

end Program
end Asm

/-- The global integer variables are the shared names that some function declares as an integer and
none has as an array, each once and in the order of their first declarations. The arrays are the
names that some function has as an array, each once, and no name is in both lists. So the data
section of the program defines these symbols, and none of them by two of its lines. -/
theorem dataSection_defines_once (p : Program) :
    (∀ v, v ∈ p.globalInts ↔ (∃ f ∈ p.functions, v ∈ f.ints) ∧ p.isGlobal v = true ∧
      ∀ f ∈ p.functions, f.isArray v = false) ∧
    p.globalInts.Nodup ∧
    p.globalInts.Pairwise (fun u v => p.declaredInts.idxOf u < p.declaredInts.idxOf v) ∧
    (∀ v, v ∈ p.arrays.map ArraySymbol.name ↔ ∃ f ∈ p.functions, f.isArray v = true) ∧
    (p.arrays.map ArraySymbol.name).Nodup ∧
    p.globalInts.Disjoint (p.arrays.map ArraySymbol.name) ∧
    ∀ g a, p.generate g = .ok a →
      (∀ x, (∃ l ∈ a.dataLines, DefinesData l x) ↔
        x ∈ p.globalInts ∨ x ∈ p.arrays.map ArraySymbol.name) ∧
      a.dataLines.Pairwise fun l l' => ∀ x, DefinesData l x → ¬ DefinesData l' x := by
  obtain ⟨hints, harrays, hdisjoint⟩ := List.nodup_append'.mp p.nodup_dataSymbols
  refine ⟨fun v => ?_, hints, p.pairwise_idxOf_globalInts, fun v => Program.mem_arrays, harrays,
    hdisjoint, fun g a ha => ?_⟩
  · simp only [Program.mem_globalInts, FunctionDef.isInt, List.contains_iff_mem, not_exists,
      not_and, Bool.not_eq_true]
    tauto
  · obtain ⟨-, rfl⟩ := Program.generate_eq_ok_iff.mp ha
    exact ⟨fun x => Asm.Program.exists_definesData_iff,
      Asm.Program.pairwise_definesData p.nodup_dataSymbols⟩

/-- Two functions that share `n`, `m` and `t`, where `t` is an array in the first one only and the
others are declared again and again. -/
def overlapping : Program :=
  .ofFunctions ([
    { name := "f", ints := ["n", "m", "n", "t"], code := [
      { op := .arrayStore, arg1 := "t", arg2 := "0", arg3 := "n" },
      { op := .ret, arg1 := "m" }] },
    { name := "g", ints := ["m", "t", "n"], code := [
      { op := .arith .add, arg1 := "n", arg2 := "m", arg3 := "t" },
      { op := .ret }] }].filterMap fun d : FunctionDef => d.build.toOption)

theorem dataSection_defines_once_overlapping :
    overlapping.globalInts = ["n", "m"] ∧ overlapping.arrays = [⟨"t", 1⟩] ∧
    ∃ a, overlapping.generate .memory = .ok a ∧
      a.dataLines = [".data", "n: .word 0", "m: .word 0", "t: .space 4"] ∧
      a.dataLines.Pairwise fun l l' => ∀ x, DefinesData l x → ¬ DefinesData l' x := by
  have hgen := Program.generate_eq_ok_iff.mpr
    ⟨(by decide +kernel : ∀ f ∈ overlapping.functions,
      (overlapping.functionEmission .memory f).failure = none), rfl⟩
  obtain ⟨-, -, -, -, -, -, hlines⟩ := dataSection_defines_once overlapping
  exact ⟨by decide +kernel, by decide +kernel, _, hgen, by decide +kernel, (hlines _ _ hgen).2⟩

end MipsBackend
