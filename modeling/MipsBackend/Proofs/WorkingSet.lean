import Mathlib.Data.Finset.Card
import MipsBackend.Proofs.PerBlock
import MipsBackend.Proofs.Sharing

/-! Working sets. A block keeps in registers the variables that it reads most. All names that are
eligible stand in one order, in which the number of reads counts before the name, and the working
set is as long a piece from the front of this order as there are registers. -/
namespace MipsBackend

/-! ### Ranking -/

/-- An entry has the larger count, or the same count and the smaller name. -/
def RanksBefore (x y : String × Nat) : Prop := y.2 < x.2 ∨ x.2 = y.2 ∧ x.1 < y.1

lemma pairwise_rankOne {e : String × Nat} {es : List (String × Nat)}
    (hes : es.Pairwise RanksBefore) (he : ∀ x ∈ es, e.1 < x.1) :
    (rankOne e es).Pairwise RanksBefore := by
  induction es with
  | nil => exact List.pairwise_singleton _ _
  | cons x xs ih =>
    obtain ⟨hx, hxs⟩ := List.pairwise_cons.mp hes
    rw [rankOne]
    split
    · next hle =>
      refine List.pairwise_cons.mpr ⟨fun y hy => ?_, hes⟩
      -- what follows has at most the count of `x`, and a larger name than the new entry
      have hyx : y.2 ≤ x.2 := by
        rcases List.mem_cons.mp hy with rfl | hy
        · exact Nat.le_refl _
        · rcases hx y hy with h | h <;> omega
      rcases Nat.lt_or_eq_of_le (Nat.le_trans hyx hle) with hlt | heq
      · exact Or.inl hlt
      · exact Or.inr ⟨heq.symm, he y hy⟩
    · next hlt =>
      refine List.pairwise_cons.mpr ⟨fun y hy => ?_, ih hxs fun y hy => he y (by simp [hy])⟩
      rcases List.mem_cons.mp ((rankOne_perm e xs).mem_iff.mp hy) with rfl | hy
      · exact Or.inl (Nat.lt_of_not_le hlt)
      · exact hx y hy

lemma pairwise_rank {es : List (String × Nat)} (hes : (es.map Prod.fst).Pairwise (· < ·)) :
    (rank es).Pairwise RanksBefore := by
  induction es with
  | nil => exact .nil
  | cons e es ih =>
    obtain ⟨he, hes⟩ := List.pairwise_cons.mp hes
    refine pairwise_rankOne (ih hes) fun x hx => ?_
    exact he x.1 (List.mem_map_of_mem ((rank_perm es).mem_iff.mp hx))

/-! ### Counting reads -/

namespace Block

/-- How often a block reads a name. -/
def readCount (b : Block) (v : String) : Nat := (b.body.flatMap Instruction.uses).count v

/-- A block reads a name more often than another, or as often and it is the smaller one. -/
def Outranks (b : Block) (u v : String) : Prop := RanksBefore (u, b.readCount u) (v, b.readCount v)

end Block

namespace Function
variable {f : Function} {b : Block} {e : String × Nat} {v : String}

lemma count_useVars (hv : f.isVar v = true) :
    (b.body.flatMap f.useVars).count v = b.readCount v := by
  have hfilter : b.body.flatMap f.useVars = (b.body.flatMap Instruction.uses).filter f.isVar :=
    (List.filter_flatMap ..).symm
  rw [hfilter, List.count_filter hv, Block.readCount]

/-- The index of a block counts the reads of the declared variables. -/
lemma mem_entries_useCounts (hv : f.isVar e.1 = true) :
    e ∈ (f.useCounts b).entries ↔ e.2 = b.readCount e.1 ∧ 0 < b.readCount e.1 := by
  have hcount : (f.useCounts b).getD e.1 0 = b.readCount e.1 := by
    rw [useCounts, OrdMap.getD_tally, count_useVars hv]
    exact Nat.zero_add _
  have hkey : e.1 ∈ (f.useCounts b).keys ↔ 0 < b.readCount e.1 := by
    rw [useCounts, OrdMap.mem_keys_tally, ← count_useVars hv, List.count_pos_iff]
    exact or_iff_left (OrdSet.not_mem_empty _)
  rw [← hkey, OrdMap.mem_keys_iff, ← hcount, OrdMap.getD]
  rw [show e = (e.1, e.2) from rfl, ← OrdMap.get?_eq_some_iff]
  constructor
  · intro h
    simp [h]
  · rintro ⟨h, n, hn⟩
    rw [hn, Option.getD_some] at h
    rw [hn, h]

end Function

/-! ### The eligible names -/

namespace Scope
variable {s : Scope} {b : Block} {v : String} {k : Nat}

/-- The integer variables in their stack slots, apart from arrays, that a block reads. -/
def eligible (s : Scope) (b : Block) : Finset String :=
  s.function.ints.toFinset.filter fun v =>
    s.program.isGlobal v = false ∧ s.function.isArray v = false ∧ 0 < b.readCount v

lemma mem_eligible : v ∈ s.eligible b ↔ s.isCacheable v = true ∧ 0 < b.readCount v := by
  simp [eligible, isCacheable, FunctionDef.isInt, and_assoc]

/-- The eligible names in their order. -/
def ranking (s : Scope) (b : Block) : List String :=
  (rank ((s.function.useCounts b).entries.filter fun e => s.isCacheable e.1)).map Prod.fst

lemma workingSet_eq : s.workingSet k b = (s.ranking b).take k := rfl

lemma isVar_of_isCacheable (h : s.isCacheable v = true) : s.function.isVar v = true := by
  simp only [isCacheable, Bool.and_eq_true] at h
  simp [FunctionDef.isVar, h.1.1]

lemma mem_ranking : v ∈ s.ranking b ↔ v ∈ s.eligible b := by
  rw [ranking, ((rank_perm _).map Prod.fst).mem_iff, mem_eligible, List.mem_map]
  constructor
  · rintro ⟨e, he, rfl⟩
    obtain ⟨he, hcache⟩ := List.mem_filter.mp he
    exact ⟨hcache, ((Function.mem_entries_useCounts (isVar_of_isCacheable hcache)).mp he).2⟩
  · rintro ⟨hcache, hread⟩
    refine ⟨(v, b.readCount v), List.mem_filter.mpr ⟨?_, hcache⟩, rfl⟩
    exact (Function.mem_entries_useCounts (isVar_of_isCacheable hcache)).mpr ⟨rfl, hread⟩

lemma pairwise_ranking : (s.ranking b).Pairwise b.Outranks := by
  have hnames : (((s.function.useCounts b).entries.filter fun e => s.isCacheable e.1).map
      Prod.fst).Pairwise (· < ·) := by
    refine List.Pairwise.sublist (List.filter_sublist.map Prod.fst) ?_
    exact (s.function.useCounts b).increasing.imp compareOfLessAndEq_eq_lt.mp
  have hcount : ∀ e ∈ rank ((s.function.useCounts b).entries.filter fun e => s.isCacheable e.1),
      e = (e.1, b.readCount e.1) := by
    intro e he
    obtain ⟨he, hcache⟩ := List.mem_filter.mp ((rank_perm _).mem_iff.mp he)
    exact Prod.ext rfl ((Function.mem_entries_useCounts (isVar_of_isCacheable hcache)).mp he).1
  refine List.pairwise_map.mpr ((pairwise_rank hnames).imp_of_mem fun {x y} hx hy hxy => ?_)
  rw [Block.Outranks, ← hcount x hx, ← hcount y hy]
  exact hxy

lemma length_ranking : (s.ranking b).length = (s.eligible b).card := by
  have hnodup : (s.ranking b).Nodup := by
    have := nodup_workingSet (s := s) (k := (s.ranking b).length) (b := b)
    rwa [workingSet_eq, List.take_length] at this
  have hset : (s.ranking b).toFinset = s.eligible b := by
    ext v
    rw [List.mem_toFinset, mem_ranking]
  rw [← hset, List.toFinset_card_of_nodup hnodup]

end Scope

/-- A block keeps in `k` registers the first `k` of the names that are eligible, or all of them if
there are fewer. They are listed in the order of their reads and names, and every other eligible
name comes after them. -/
theorem workingSet_takes_top (s : Scope) (b : Block) (k : Nat) :
    (s.workingSet k b).Nodup ∧
    (∀ v ∈ s.workingSet k b, v ∈ s.function.ints ∧ s.program.isGlobal v = false ∧
      s.function.isArray v = false ∧ ∃ i ∈ b.body, v ∈ i.uses) ∧
    (s.workingSet k b).Pairwise b.Outranks ∧
    (s.workingSet k b).length = min k (s.eligible b).card ∧
    ∀ u ∈ s.eligible b, u ∉ s.workingSet k b → ∀ v ∈ s.workingSet k b, b.Outranks v u := by
  have hsplit := (s.ranking b).take_append_drop k
  refine ⟨Scope.nodup_workingSet, fun v hv => ?_, ?_, ?_, fun u hu hout v hv => ?_⟩
  · have hv := Scope.mem_ranking.mp (List.mem_of_mem_take hv)
    simp only [Scope.eligible, Block.readCount, Finset.mem_filter, List.mem_toFinset,
      List.count_pos_iff, List.mem_flatMap] at hv
    exact hv
  · exact Scope.pairwise_ranking.sublist (List.take_sublist _ _)
  · rw [Scope.workingSet_eq, List.length_take, Scope.length_ranking]
  · have hrank : u ∈ (s.ranking b).take k ++ (s.ranking b).drop k := by
      rw [hsplit]
      exact Scope.mem_ranking.mpr hu
    have hdrop := (List.mem_append.mp hrank).resolve_left hout
    have hpair := Scope.pairwise_ranking (s := s) (b := b)
    rw [← hsplit] at hpair
    exact (List.pairwise_append.mp hpair).2.2 v hv u hdrop

/-- A function that reads `a` three times, the shared `g` twice, and the array `t`, `b` and `c` once
each. -/
def tallying : FunctionDef where
  name := "f"
  ints := ["c", "b", "a", "g", "t"]
  code := [
    { op := .arrayLoad, arg1 := "a", arg2 := "t", arg3 := "0" },
    { op := .arith .add, arg1 := "g", arg2 := "g", arg3 := "a" },
    { op := .arith .add, arg1 := "a", arg2 := "a", arg3 := "b" },
    { op := .arith .add, arg1 := "a", arg2 := "b", arg3 := "c" },
    { op := .ret, arg1 := "c" }]

/-- The function in a program with another one that names `g` too. -/
def tallyingScope : Scope where
  program := .ofFunctions ([tallying, { tallying with name := "g", code := [
    { op := .ret, arg1 := "g" }] }].filterMap fun d => d.build.toOption)
  function := tallying.build.toOption.get (by decide +kernel)

def tallyingBlock : Block := tallyingScope.function.blocks.get ⟨0, by decide +kernel⟩

/-- `g` and `t` are not eligible, and the tie of `b` and `c` is decided by their names. -/
theorem workingSet_takes_top_tallying :
    tallyingScope.workingSet 2 tallyingBlock = ["a", "b"] ∧
    tallyingScope.eligible tallyingBlock = {"a", "b", "c"} ∧
    tallyingBlock.readCount "g" = 2 ∧ tallyingBlock.Outranks "b" "c" := by
  have htop := workingSet_takes_top tallyingScope tallyingBlock 2
  have hset : tallyingScope.workingSet 2 tallyingBlock = ["a", "b"] := by decide +kernel
  have heligible : tallyingScope.eligible tallyingBlock = {"a", "b", "c"} := by decide +kernel
  rw [hset, heligible] at htop
  refine ⟨hset, heligible, by decide +kernel, ?_⟩
  exact htop.2.2.2.2 "c" (by decide) (by decide) "b" (by decide)

end MipsBackend
