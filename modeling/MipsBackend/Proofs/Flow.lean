import MipsBackend.Liveness.Flow
import MipsBackend.Proofs.Collections

/-! What the flow solver computes. Sets only grow during a sweep, also while it is under way and
whatever its order, so the sweeps end; they end in the least solution of the flow equation, whose
members are the names with a path to a use that no definition cuts off. -/
namespace MipsBackend.Flow
variable (F : Flow)

/-- The edges of the graph. -/
def Edge (i j : Nat) : Prop := j ∈ F.succs.getD i []

/-- A path from `i` through `path` to a use of `v`, with no definition of `v` on the way. -/
structure UsePath (v : String) (i : Nat) (path : List Nat) : Prop where
  chain : (i :: path).IsChain F.Edge
  use : ∃ u, path.getLast? = some u ∧ v ∈ F.use.getD u ∅
  clear : ∀ s ∈ path.dropLast, v ∉ F.defs.getD s ∅

/-- One unfolding of the flow equation: `v` is live after `i` if it is used by a successor, or
live after a successor that does not define it. -/
def Requires (X : Nat → String → Prop) (i : Nat) (v : String) : Prop :=
  ∃ s, F.Edge i s ∧ (v ∈ F.use.getD s ∅ ∨ X s v ∧ v ∉ F.defs.getD s ∅)

/-- Solutions of the flow equation. -/
def Solves (X : Nat → String → Prop) : Prop := ∀ i v, X i v ↔ F.Requires X i v

variable {F} {out : Array NameSet} {v : String} {i : Nat}

lemma Requires.mono {X Y : Nat → String → Prop} (h : ∀ i v, X i v → Y i v)
    (hx : F.Requires X i v) : F.Requires Y i v := by
  obtain ⟨s, hs, hv⟩ := hx
  exact ⟨s, hs, hv.imp id fun ⟨hx, hd⟩ => ⟨h s v hx, hd⟩⟩

lemma mem_before {s : Nat} : v ∈ F.before out s ↔
    v ∈ F.use.getD s ∅ ∨ v ∈ out.getD s ∅ ∧ v ∉ F.defs.getD s ∅ := by
  simp [before]

lemma mem_after : v ∈ F.after out i ↔ F.Requires (fun s v => v ∈ out.getD s ∅) i v := by
  simp [after, OrdSet.mem_foldl_union, mem_before, Requires, Edge]

/-! ### One visit -/

lemma getD_setIfInBounds {a : Array NameSet} (hi : i < a.size) (t : NameSet) (j : Nat) :
    (a.setIfInBounds i t).getD j ∅ = if j = i then t else a.getD j ∅ := by
  rw [Array.getD_eq_getD_getElem?, Array.getD_eq_getD_getElem?, Array.getElem?_setIfInBounds]
  by_cases hj : j = i
  · simp [hj, hi]
  · simp [hj, Ne.symm hj]

lemma visit_of_eq {s : Sweep} (h : F.after s.out i = s.out.getD i ∅) : F.visit s i = s :=
  if_pos h

lemma visit_of_ne {s : Sweep} (h : F.after s.out i ≠ s.out.getD i ∅) :
    F.visit s i = ⟨s.out.setIfInBounds i (F.after s.out i), true⟩ :=
  if_neg h

lemma getD_visit {s : Sweep} (hi : i < s.out.size) (j : Nat) :
    (F.visit s i).out.getD j ∅ = if j = i then F.after s.out i else s.out.getD j ∅ := by
  by_cases h : F.after s.out i = s.out.getD i ∅
  · rw [visit_of_eq h]
    by_cases hj : j = i
    · rw [if_pos hj, hj, h]
    · rw [if_neg hj]
  · rw [visit_of_ne h]
    exact getD_setIfInBounds hi _ j

@[simp] lemma size_visit (s : Sweep) (i : Nat) : (F.visit s i).out.size = s.out.size := by
  by_cases h : F.after s.out i = s.out.getD i ∅
  · rw [visit_of_eq h]
  · simp [visit_of_ne h]

/-- Sets of the right number, each contained in what the flow equation makes of them. -/
structure Growing (F : Flow) (out : Array NameSet) : Prop where
  size : out.size = F.size
  le_after : ∀ i, ∀ v ∈ out.getD i ∅, v ∈ F.after out i

lemma Growing.empty : Growing F (Array.replicate F.size ∅) where
  size := by simp
  le_after i v hv := by
    by_cases h : i < F.size <;> simp [h] at hv

lemma Growing.le_visit {s : Sweep} (h : Growing F s.out) (hi : i < F.size) (j : Nat)
    (hv : v ∈ s.out.getD j ∅) : v ∈ (F.visit s i).out.getD j ∅ := by
  rw [getD_visit (h.size ▸ hi)]
  split
  · next hj => exact h.le_after i v (hj ▸ hv)
  · exact hv

lemma Growing.visit {s : Sweep} (h : Growing F s.out) (hi : i < F.size) :
    Growing F (F.visit s i).out where
  size := by rw [size_visit, h.size]
  le_after j v hv := by
    have hle : ∀ j v, v ∈ s.out.getD j ∅ → v ∈ (F.visit s i).out.getD j ∅ :=
      fun j v => h.le_visit hi j
    rw [getD_visit (h.size ▸ hi)] at hv
    rw [mem_after]
    split at hv
    · next hj => exact (mem_after.mp (hj ▸ hv)).mono hle
    · exact (mem_after.mp (h.le_after j v hv)).mono hle

/-! ### Counting -/

/-- The number of members of all sets together. -/
def weight : List NameSet → Nat
  | [] => 0
  | s :: l => s.size + weight l

lemma weight_le {l : List NameSet} {n : Nat} (h : ∀ s ∈ l, s.size ≤ n) :
    weight l ≤ l.length * n := by
  induction l with
  | nil => simp [weight]
  | cons s l ih =>
    have hs := h s (by simp)
    have hl := ih fun t ht => h t (by simp [ht])
    rw [weight, List.length_cons, Nat.succ_mul]
    omega

lemma weight_lt_set {l : List NameSet} {t : NameSet} (hi : i < l.length)
    (h : (l.get ⟨i, hi⟩).size < t.size) : weight l < weight (l.set i t) := by
  induction l generalizing i with
  | nil => simp at hi
  | cons s l ih =>
    cases i with
    | zero =>
      have hs : s.size < t.size := h
      simp only [List.set_cons_zero, weight]
      omega
    | succ i =>
      have := ih (by simpa using hi) h
      simp only [List.set_cons_succ, weight]
      omega

/-- A visit that changes a set makes it larger. -/
lemma Growing.weight_visit {s : Sweep} (h : Growing F s.out) (hi : i < F.size) :
    F.visit s i = s ∨ (F.visit s i).changed = true ∧
      weight s.out.toList < weight (F.visit s i).out.toList := by
  by_cases hnew : F.after s.out i = s.out.getD i ∅
  · exact Or.inl (visit_of_eq hnew)
  · have hlen : i < s.out.toList.length := by simpa [h.size] using hi
    have hget : s.out.toList.get ⟨i, hlen⟩ = s.out.getD i ∅ := by
      simp [Array.getD, h.size, hi]
    have hlt := OrdSet.size_lt_of_subset (h.le_after i) (Ne.symm hnew)
    rw [visit_of_ne hnew]
    refine Or.inr ⟨rfl, ?_⟩
    rw [Array.toList_setIfInBounds]
    exact weight_lt_set hlen (hget ▸ hlt)

/-! ### Sweeps -/

/-- What one visit preserves, a sweep preserves. -/
lemma sweep_induction {P : Sweep → Prop} (h0 : P ⟨out, false⟩)
    (hstep : ∀ s i, i < F.size → P s → P (F.visit s i)) : P (F.sweep out) :=
  List.foldlRecOn _ _ h0 fun s hs i hi => hstep s i (List.mem_range.mp hi) hs

lemma Growing.sweep (h : Growing F out) : Growing F (F.sweep out).out :=
  sweep_induction (P := fun s => Growing F s.out) h fun _ _ hi hs => hs.visit hi

/-- Sets never shrink during a sweep. -/
lemma Growing.le_sweep (h : Growing F out) (hv : v ∈ out.getD i ∅) :
    v ∈ (F.sweep out).out.getD i ∅ :=
  (sweep_induction (P := fun s => Growing F s.out ∧ v ∈ s.out.getD i ∅) ⟨h, hv⟩
    fun _ _ hj hs => ⟨hs.1.visit hj, hs.1.le_visit hj i hs.2⟩).2

/-- A sweep that reports a change has made a set larger. -/
lemma Growing.weight_sweep (h : Growing F out) (hc : (F.sweep out).changed = true) :
    weight out.toList < weight (F.sweep out).out.toList := by
  have hs : Growing F (F.sweep out).out ∧
      ((F.sweep out).changed = false ∧ (F.sweep out).out = out ∨
        weight out.toList < weight (F.sweep out).out.toList) := by
    refine sweep_induction (P := fun s => Growing F s.out ∧
      (s.changed = false ∧ s.out = out ∨ weight out.toList < weight s.out.toList))
      ⟨h, Or.inl ⟨rfl, rfl⟩⟩ ?_
    rintro s i hi ⟨hg, hs⟩
    refine ⟨hg.visit hi, ?_⟩
    rcases hg.weight_visit hi with heq | ⟨-, hlt⟩
    · rw [heq]
      exact hs
    · rcases hs with ⟨-, rfl⟩ | hs
      · exact Or.inr hlt
      · exact Or.inr (Nat.lt_trans hs hlt)
  rcases hs.2 with ⟨hf, -⟩ | hlt
  · rw [hf] at hc
    cases hc
  · exact hlt

lemma changed_visit_of_changed {s : Sweep} (h : s.changed = true) :
    (F.visit s i).changed = true := by
  by_cases hnew : F.after s.out i = s.out.getD i ∅
  · rw [visit_of_eq hnew, h]
  · rw [visit_of_ne hnew]

lemma foldl_visit_changed {l : List Nat} {s : Sweep} (h : s.changed = true) :
    (l.foldl F.visit s).changed = true := by
  induction l generalizing s with
  | nil => exact h
  | cons i l ih => exact ih (changed_visit_of_changed h)

/-- Visits that report no change have found all their sets as they should be. -/
lemma foldl_visit_unchanged {l : List Nat}
    (h : (l.foldl F.visit ⟨out, false⟩).changed = false) :
    l.foldl F.visit ⟨out, false⟩ = ⟨out, false⟩ ∧ ∀ i ∈ l, F.after out i = out.getD i ∅ := by
  induction l with
  | nil => simp
  | cons i l ih =>
    rw [List.foldl_cons] at h ⊢
    by_cases hnew : F.after out i = out.getD i ∅
    · rw [visit_of_eq (s := ⟨out, false⟩) hnew] at h ⊢
      obtain ⟨he, hl⟩ := ih h
      exact ⟨he, List.forall_mem_cons.mpr ⟨hnew, hl⟩⟩
    · rw [visit_of_ne (s := ⟨out, false⟩) hnew, foldl_visit_changed rfl] at h
      cases h

/-- A sweep reports no change exactly if all sets are as the flow equation demands. -/
lemma Growing.sweep_unchanged_iff (h : Growing F out) :
    (F.sweep out).changed = false ↔ ∀ i, F.after out i = out.getD i ∅ := by
  constructor
  · intro hc i
    by_cases hi : i < F.size
    · exact (foldl_visit_unchanged hc).2 i (List.mem_range.mpr hi)
    · have hs : F.succs.getD i [] = [] := by
        have : ¬ i < F.succs.size := hi
        simp [Array.getD, this]
      have ho : out.getD i ∅ = ∅ := by
        have : ¬ i < out.size := h.size ▸ hi
        simp [Array.getD, this]
      rw [after, hs, ho, List.foldl_nil]
  · intro hall
    exact sweep_induction (P := fun s => s = ⟨out, false⟩) rfl
      (fun s i _ hs => by rw [hs]; exact visit_of_eq (hall i)) ▸ rfl

/-! ### The solution -/

lemma getD_sweep_of_unchanged (hc : (F.sweep out).changed = false) : (F.sweep out).out = out := by
  have h := (foldl_visit_unchanged hc).1
  rw [sweep, h]

/-- What a sweep preserves holds of the result of sweeping repeatedly. -/
lemma iterate_induction {P : Array NameSet → Prop} (hstep : ∀ out, P out → P (F.sweep out).out)
    (fuel passes : Nat) (h : P out) : P (F.iterate fuel passes out).out := by
  induction fuel generalizing passes out with
  | zero => exact h
  | succ fuel ih =>
    rw [iterate]
    split
    · exact ih (passes + 1) (hstep out h)
    · exact hstep out h

/-- A sweep does not leave what is closed under the flow equation. -/
lemma Growing.sweep_le {X : Nat → String → Prop} (hX : ∀ i v, F.Requires X i v → X i v)
    (h : Growing F out) (hout : ∀ i, ∀ v ∈ out.getD i ∅, X i v) (i : Nat)
    (hv : v ∈ (F.sweep out).out.getD i ∅) : X i v := by
  have hs : Growing F (F.sweep out).out ∧ ∀ i, ∀ v ∈ (F.sweep out).out.getD i ∅, X i v := by
    refine sweep_induction (P := fun s => Growing F s.out ∧ ∀ i, ∀ v ∈ s.out.getD i ∅, X i v)
      ⟨h, hout⟩ ?_
    rintro s j hj ⟨hg, hs⟩
    refine ⟨hg.visit hj, fun i v hv => ?_⟩
    rw [getD_visit (hg.size ▸ hj)] at hv
    split at hv
    · next hij =>
      subst hij
      exact hX i v ((mem_after.mp hv).mono hs)
    · exact hs i v hv
  exact hs.2 i v hv

lemma mem_names_of_use {s : Nat} (hv : v ∈ F.use.getD s ∅) : v ∈ F.names := by
  rw [names, ← Array.foldl_toList]
  have hs : F.use.getD s ∅ ∈ F.use.toList := by
    by_cases h : s < F.use.size
    · simp [Array.getD, h]
    · simp [Array.getD, h] at hv
  exact (OrdSet.mem_foldl_union id F.use.toList ∅ v).mpr (Or.inr ⟨_, hs, hv⟩)

lemma names_closed : ∀ i v, F.Requires (fun _ v => v ∈ F.names) i v → v ∈ F.names := by
  rintro i v ⟨s, -, hv | ⟨hv, -⟩⟩
  · exact mem_names_of_use hv
  · exact hv

lemma Growing.weight_le {names : NameSet} (h : Growing F out)
    (hout : ∀ i, ∀ v ∈ out.getD i ∅, v ∈ names) : weight out.toList ≤ F.size * names.size := by
  have hlen : out.toList.length = F.size := by simp [h.size]
  rw [← hlen]
  apply Flow.weight_le
  intro s hs
  obtain ⟨i, hi, rfl⟩ := List.mem_iff_getElem.mp hs
  refine OrdSet.size_le_of_subset fun v hv => hout i v ?_
  have hi' : i < out.size := by simpa using hi
  simpa [Array.getD, hi'] using hv

/-- With enough fuel, sweeping ends with sets that solve the flow equation. -/
lemma Growing.iterate_stable (h : Growing F out)
    (hout : ∀ i, ∀ v ∈ out.getD i ∅, v ∈ F.names) {fuel : Nat} (passes : Nat)
    (hfuel : F.size * F.names.size < weight out.toList + fuel) (i : Nat) :
    F.after (F.iterate fuel passes out).out i = (F.iterate fuel passes out).out.getD i ∅ := by
  induction fuel generalizing passes out with
  | zero =>
    have := h.weight_le hout
    omega
  | succ fuel ih =>
    rw [iterate]
    split
    · next hc =>
      have hlt := h.weight_sweep hc
      exact ih h.sweep (fun i _ => h.sweep_le names_closed hout i) (passes + 1) (by omega)
    · next hc =>
      have hf : (F.sweep out).changed = false := by simpa using hc
      rw [getD_sweep_of_unchanged hf]
      exact h.sweep_unchanged_iff.mp hf i

lemma not_mem_replicate_empty (n : Nat) : v ∉ (Array.replicate n (∅ : NameSet)).getD i ∅ := by
  by_cases h : i < n <;> simp [h]

lemma growing_solve : Growing F F.solve.out :=
  iterate_induction (fun _ h => h.sweep) _ _ Growing.empty

lemma after_solve (i : Nat) : F.after F.solve.out i = F.solve.out.getD i ∅ :=
  Growing.empty.iterate_stable (fun _ _ hv => absurd hv (not_mem_replicate_empty _)) 0 (by omega) i

lemma solves_solve : F.Solves fun i v => v ∈ F.solve.out.getD i ∅ := by
  intro i v
  rw [← mem_after, after_solve]

/-- The solution is contained in all that is closed under the flow equation. -/
lemma solve_le {X : Nat → String → Prop} (hX : ∀ i v, F.Requires X i v → X i v)
    (hv : v ∈ F.solve.out.getD i ∅) : X i v :=
  (iterate_induction
    (P := fun out => Growing F out ∧ ∀ i, ∀ v ∈ out.getD i ∅, X i v)
    (fun _ h => ⟨h.1.sweep, fun i _ => h.1.sweep_le hX h.2 i⟩) _ _
    ⟨Growing.empty, fun _ _ hv => absurd hv (not_mem_replicate_empty _)⟩).2 i v hv

/-! ### Paths -/

lemma UsePath.single {s : Nat} (hs : F.Edge i s) (hv : v ∈ F.use.getD s ∅) :
    F.UsePath v i [s] :=
  ⟨by simpa using hs, ⟨s, rfl, hv⟩, by simp⟩

lemma UsePath.cons {s : Nat} {path : List Nat} (hs : F.Edge i s) (hd : v ∉ F.defs.getD s ∅)
    (h : F.UsePath v s path) : F.UsePath v i (s :: path) := by
  obtain ⟨hchain, ⟨u, hu, huse⟩, hclear⟩ := h
  cases path with
  | nil => simp at hu
  | cons t path =>
    refine ⟨List.isChain_cons_cons.mpr ⟨hs, hchain⟩, ⟨u, by simpa using hu, huse⟩, ?_⟩
    intro r hr
    rw [List.dropLast_cons_cons, List.mem_cons] at hr
    rcases hr with rfl | hr
    · exact hd
    · exact hclear r hr

/-- Having a path to a use is closed under the flow equation. -/
lemma usePath_closed (i : Nat) (v : String)
    (h : F.Requires (fun s v => ∃ path, F.UsePath v s path) i v) : ∃ path, F.UsePath v i path := by
  obtain ⟨s, hs, hv | ⟨⟨path, hp⟩, hd⟩⟩ := h
  · exact ⟨[s], .single hs hv⟩
  · exact ⟨s :: path, .cons hs hd hp⟩

/-- Whatever is closed under the flow equation contains all names with a path to a use. -/
lemma UsePath.le {X : Nat → String → Prop} (hX : ∀ i v, F.Requires X i v → X i v)
    {path : List Nat} (h : F.UsePath v i path) : X i v := by
  induction path generalizing i with
  | nil =>
    obtain ⟨u, hu, -⟩ := h.use
    simp at hu
  | cons s path ih =>
    obtain ⟨hchain, ⟨u, hu, huse⟩, hclear⟩ := h
    cases path with
    | nil =>
      obtain rfl : s = u := by simpa using hu
      exact hX i v ⟨s, by simpa using hchain, Or.inl huse⟩
    | cons t path =>
      obtain ⟨hs, hchain⟩ := List.isChain_cons_cons.mp hchain
      have hrest : F.UsePath v s (t :: path) :=
        ⟨hchain, ⟨u, by simpa using hu, huse⟩, fun r hr => hclear r (by simp_all)⟩
      exact hX i v ⟨s, hs, Or.inr ⟨ih hrest, hclear s (by simp)⟩⟩

/-- The solver finds exactly the names with a path to a use. -/
lemma mem_solve_iff_usePath : v ∈ F.solve.out.getD i ∅ ↔ ∃ path, F.UsePath v i path :=
  ⟨solve_le usePath_closed, fun ⟨_, h⟩ => h.le fun i v => (solves_solve i v).mpr⟩

/-- One more sweep over the solution reports no change. -/
lemma sweep_solve_unchanged : (F.sweep F.solve.out).changed = false :=
  growing_solve.sweep_unchanged_iff.mpr after_solve

end MipsBackend.Flow
