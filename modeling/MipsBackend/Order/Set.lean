/-! Finite sets of an ordered type, kept as the strictly increasing list of their members.
The list is a normal form: two sets with the same members are equal (`ext`), and `toList` is
the order in which every report of a set is written. -/
namespace MipsBackend

/-- A finite set, represented by its members in increasing order. -/
structure OrdSet (α : Type) [Ord α] where
  toList : List α
  increasing : toList.Pairwise (fun a b => compare a b = .lt)

namespace OrdSet
variable {α : Type} [Ord α]

/-- Put `x` at its place in an increasing list, unless it is there already. -/
def place (x : α) : List α → List α
  | [] => [x]
  | y :: ys =>
    match compare x y with
    | .lt => x :: y :: ys
    | .eq => y :: ys
    | .gt => y :: place x ys

/-- Merge `x`, followed by what `rest` merges, into an increasing list. -/
def mergeFrom (x : α) (rest : List α → List α) : List α → List α
  | [] => x :: rest []
  | y :: ys =>
    match compare x y with
    | .lt => x :: rest (y :: ys)
    | .eq => x :: rest ys
    | .gt => y :: mergeFrom x rest ys

/-- Merge two increasing lists, keeping one copy of what they share. -/
def merge : List α → List α → List α
  | [] => id
  | x :: xs => mergeFrom x (merge xs)

/-- Whether `x`, or by `rest` a later element, occurs in an increasing list. -/
def meetsFrom (x : α) (rest : List α → Bool) : List α → Bool
  | [] => false
  | y :: ys =>
    match compare x y with
    | .lt => rest (y :: ys)
    | .eq => true
    | .gt => meetsFrom x rest ys

/-- Whether two increasing lists share an element. -/
def meets : List α → List α → Bool
  | [] => fun _ => false
  | x :: xs => meetsFrom x (meets xs)

theorem eq_of_compare_eq [Std.LawfulEqOrd α] {a b : α} (h : compare a b = .eq) : a = b :=
  Std.LawfulEqCmp.compare_eq_iff_eq.mp h

theorem lt_of_compare_gt [Std.OrientedOrd α] {a b : α} (h : compare a b = .gt) :
    compare b a = .lt :=
  Std.OrientedCmp.lt_of_gt h

theorem not_lt_self [Std.OrientedOrd α] {a : α} : compare a a ≠ .lt := by
  simp [Std.ReflCmp.compare_self]

theorem mem_place [Std.LawfulEqOrd α] {x a : α} {l : List α} :
    a ∈ place x l ↔ a = x ∨ a ∈ l := by
  induction l with
  | nil => simp [place]
  | cons y ys ih =>
    rw [place]
    split
    · simp
    · next h => simp [eq_of_compare_eq h]
    · simp only [List.mem_cons, ih]; grind

theorem mem_mergeFrom [Std.LawfulEqOrd α] {x a : α} {xs : List α} {rest : List α → List α}
    (hrest : ∀ l, a ∈ rest l ↔ a ∈ xs ∨ a ∈ l) (l : List α) :
    a ∈ mergeFrom x rest l ↔ a = x ∨ a ∈ xs ∨ a ∈ l := by
  induction l with
  | nil => simp [mergeFrom, hrest]
  | cons y ys ih =>
    rw [mergeFrom]
    split
    · simp [hrest]
    · next h => simp only [eq_of_compare_eq h, List.mem_cons, hrest]; grind
    · simp only [List.mem_cons, ih]; grind

theorem mem_merge [Std.LawfulEqOrd α] {a : α} {xs ys : List α} :
    a ∈ merge xs ys ↔ a ∈ xs ∨ a ∈ ys := by
  induction xs generalizing ys with
  | nil => simp [merge]
  | cons x xs ih =>
    rw [merge, mem_mergeFrom (fun l => ih)]
    simp [or_assoc]

section Ordered
variable [Std.TransOrd α] [Std.LawfulEqOrd α]

theorem increasing_place (x : α) {l : List α}
    (hl : l.Pairwise (fun a b => compare a b = .lt)) :
    (place x l).Pairwise (fun a b => compare a b = .lt) := by
  induction l with
  | nil => simp [place]
  | cons y ys ih =>
    obtain ⟨hy, hys⟩ := List.pairwise_cons.mp hl
    rw [place]
    split
    · next h =>
      refine List.pairwise_cons.mpr ⟨fun b hb => ?_, hl⟩
      rcases List.mem_cons.mp hb with rfl | hb
      · exact h
      · exact Std.TransCmp.lt_trans h (hy b hb)
    · exact hl
    · next h =>
      refine List.pairwise_cons.mpr ⟨fun b hb => ?_, ih hys⟩
      rcases mem_place.mp hb with rfl | hb
      · exact lt_of_compare_gt h
      · exact hy b hb

theorem increasing_mergeFrom (x : α) {xs : List α} {rest : List α → List α}
    (hmem : ∀ l a, a ∈ rest l ↔ a ∈ xs ∨ a ∈ l)
    (hinc : ∀ l, l.Pairwise (fun a b => compare a b = .lt) →
      (rest l).Pairwise (fun a b => compare a b = .lt))
    (hx : ∀ a ∈ xs, compare x a = .lt) {l : List α}
    (hl : l.Pairwise (fun a b => compare a b = .lt)) :
    (mergeFrom x rest l).Pairwise (fun a b => compare a b = .lt) := by
  induction l with
  | nil => exact List.pairwise_cons.mpr ⟨fun b hb => by simp_all, hinc [] hl⟩
  | cons y ys ih =>
    obtain ⟨hy, hys⟩ := List.pairwise_cons.mp hl
    rw [mergeFrom]
    split
    · next h =>
      refine List.pairwise_cons.mpr ⟨fun b hb => ?_, hinc _ hl⟩
      rcases (hmem _ _).mp hb with hb | hb
      · exact hx b hb
      · rcases List.mem_cons.mp hb with rfl | hb
        · exact h
        · exact Std.TransCmp.lt_trans h (hy b hb)
    · next h =>
      refine List.pairwise_cons.mpr ⟨fun b hb => ?_, hinc _ hys⟩
      rcases (hmem _ _).mp hb with hb | hb
      · exact hx b hb
      · exact eq_of_compare_eq h ▸ hy b hb
    · next h =>
      have hyx := lt_of_compare_gt h
      refine List.pairwise_cons.mpr ⟨fun b hb => ?_, ih hys⟩
      rcases (mem_mergeFrom (fun l => hmem l b) _).mp hb with rfl | hb | hb
      · exact hyx
      · exact Std.TransCmp.lt_trans hyx (hx b hb)
      · exact hy b hb

theorem increasing_merge {xs ys : List α} (hxs : xs.Pairwise (fun a b => compare a b = .lt))
    (hys : ys.Pairwise (fun a b => compare a b = .lt)) :
    (merge xs ys).Pairwise (fun a b => compare a b = .lt) := by
  induction xs generalizing ys with
  | nil => exact hys
  | cons x xs ih =>
    obtain ⟨hx, hxs⟩ := List.pairwise_cons.mp hxs
    exact increasing_mergeFrom x (fun l a => mem_merge) (fun l hl => ih hxs hl) hx hys

omit [Std.LawfulEqOrd α] in
/-- Increasing lists are determined by their members. -/
theorem eq_of_increasing {xs ys : List α} (hxs : xs.Pairwise (fun a b => compare a b = .lt))
    (hys : ys.Pairwise (fun a b => compare a b = .lt)) (h : ∀ a, a ∈ xs ↔ a ∈ ys) :
    xs = ys := by
  induction xs generalizing ys with
  | nil =>
    cases ys with
    | nil => rfl
    | cons y ys => exact absurd ((h y).mpr (by simp)) (by simp)
  | cons x xs ih =>
    cases ys with
    | nil => exact absurd ((h x).mp (by simp)) (by simp)
    | cons y ys =>
      obtain ⟨hx, hxs⟩ := List.pairwise_cons.mp hxs
      obtain ⟨hy, hys'⟩ := List.pairwise_cons.mp hys
      have hxy : x = y := by
        rcases List.mem_cons.mp ((h x).mp (by simp)) with e | hm
        · exact e
        rcases List.mem_cons.mp ((h y).mpr (by simp)) with e | hm'
        · exact e.symm
        exact absurd (Std.TransCmp.lt_trans (hx y hm') (hy x hm)) not_lt_self
      subst hxy
      congr 1
      refine ih hxs hys' fun a => ?_
      have ha := h a
      simp only [List.mem_cons] at ha
      constructor
      · intro hm
        rcases ha.mp (Or.inr hm) with rfl | hm'
        · exact absurd (hx a hm) not_lt_self
        · exact hm'
      · intro hm
        rcases ha.mpr (Or.inr hm) with rfl | hm'
        · exact absurd (hy a hm) not_lt_self
        · exact hm'

theorem meetsFrom_iff {x : α} {xs : List α} {rest : List α → Bool} {l : List α}
    (hl : l.Pairwise (fun a b => compare a b = .lt)) (hx : ∀ a ∈ xs, compare x a = .lt)
    (hrest : ∀ l, l.Pairwise (fun a b => compare a b = .lt) →
      (rest l = true ↔ ∃ a ∈ xs, a ∈ l)) :
    meetsFrom x rest l = true ↔ ∃ a ∈ x :: xs, a ∈ l := by
  induction l with
  | nil => simp [meetsFrom]
  | cons y ys ih =>
    obtain ⟨hy, hys⟩ := List.pairwise_cons.mp hl
    rw [meetsFrom]
    cases h : compare x y with
    | lt =>
      have hne : x ∉ y :: ys := by
        intro hm
        rcases List.mem_cons.mp hm with rfl | hm
        · exact not_lt_self h
        · exact not_lt_self (Std.TransCmp.lt_trans h (hy x hm))
      rw [hrest _ hl]
      grind
    | eq => simp [eq_of_compare_eq h]
    | gt =>
      have hyx := lt_of_compare_gt h
      have hne : y ∉ x :: xs := by
        intro hm
        rcases List.mem_cons.mp hm with rfl | hm
        · exact not_lt_self hyx
        · exact not_lt_self (Std.TransCmp.lt_trans hyx (hx y hm))
      rw [ih hys]
      grind

theorem meets_iff {xs ys : List α} (hxs : xs.Pairwise (fun a b => compare a b = .lt))
    (hys : ys.Pairwise (fun a b => compare a b = .lt)) :
    meets xs ys = true ↔ ∃ a ∈ xs, a ∈ ys := by
  induction xs generalizing ys with
  | nil => simp [meets]
  | cons x xs ih =>
    obtain ⟨hx, hxs⟩ := List.pairwise_cons.mp hxs
    exact meetsFrom_iff hys hx fun l hl => ih hxs hl

end Ordered

instance : Membership α (OrdSet α) := ⟨fun s a => a ∈ s.toList⟩

@[simp] theorem mem_toList {a : α} {s : OrdSet α} : a ∈ s.toList ↔ a ∈ s := Iff.rfl

theorem increasing_nil : ([] : List α).Pairwise (fun a b => compare a b = .lt) := .nil

instance : EmptyCollection (OrdSet α) := ⟨⟨[], increasing_nil⟩⟩

instance : Inhabited (OrdSet α) := ⟨∅⟩

@[simp] theorem not_mem_empty (a : α) : ¬ a ∈ (∅ : OrdSet α) := List.not_mem_nil

instance [DecidableEq α] : DecidableEq (OrdSet α) := fun s t =>
  decidable_of_iff (s.toList = t.toList) (by cases s; cases t; simp)

def size (s : OrdSet α) : Nat := s.toList.length

section Decidable
variable [DecidableEq α]

def contains (s : OrdSet α) (a : α) : Bool := s.toList.contains a

@[simp] theorem contains_iff {s : OrdSet α} {a : α} : s.contains a = true ↔ a ∈ s := by
  simp [contains]

def erase (s : OrdSet α) (a : α) : OrdSet α :=
  ⟨s.toList.filter (fun x => decide (x ≠ a)), s.increasing.filter _⟩

@[simp] theorem mem_erase {s : OrdSet α} {a x : α} : x ∈ s.erase a ↔ x ∈ s ∧ x ≠ a := by
  simp [← mem_toList, erase]

def diff (s t : OrdSet α) : OrdSet α :=
  ⟨s.toList.filter (fun x => !t.contains x), s.increasing.filter _⟩

@[simp] theorem mem_diff {s t : OrdSet α} {x : α} : x ∈ s.diff t ↔ x ∈ s ∧ ¬ x ∈ t := by
  rw [← mem_toList, diff, List.mem_filter, mem_toList]
  simp [← contains_iff]

end Decidable

section Ordered
variable [Std.TransOrd α] [Std.LawfulEqOrd α]

omit [Std.LawfulEqOrd α] in
/-- Sets with the same members are equal. -/
theorem ext {s t : OrdSet α} (h : ∀ a, a ∈ s ↔ a ∈ t) : s = t := by
  cases s with
  | mk l hl =>
    cases t with
    | mk m hm =>
      congr
      exact eq_of_increasing hl hm h

def insert (s : OrdSet α) (a : α) : OrdSet α := ⟨place a s.toList, increasing_place a s.increasing⟩

@[simp] theorem mem_insert {s : OrdSet α} {a x : α} : x ∈ s.insert a ↔ x = a ∨ x ∈ s := mem_place

def union (s t : OrdSet α) : OrdSet α :=
  ⟨merge s.toList t.toList, increasing_merge s.increasing t.increasing⟩

instance : Union (OrdSet α) := ⟨union⟩

@[simp] theorem mem_union {s t : OrdSet α} {x : α} : x ∈ s ∪ t ↔ x ∈ s ∨ x ∈ t := mem_merge

def intersects (s t : OrdSet α) : Bool := meets s.toList t.toList

theorem intersects_iff {s t : OrdSet α} : s.intersects t = true ↔ ∃ a, a ∈ s ∧ a ∈ t :=
  meets_iff s.increasing t.increasing

def ofList (l : List α) : OrdSet α := l.foldr (fun a s => s.insert a) ∅

@[simp] theorem mem_ofList {l : List α} {x : α} : x ∈ ofList l ↔ x ∈ l := by
  induction l with
  | nil => simp [ofList]
  | cons a l ih => rw [List.mem_cons, ← ih]; exact mem_insert

end Ordered

theorem nodup_toList [Std.OrientedOrd α] (s : OrdSet α) : s.toList.Nodup :=
  List.Pairwise.imp (fun {a b} h (e : a = b) => not_lt_self (e ▸ h : compare b b = .lt)) s.increasing

end OrdSet

abbrev NameSet := OrdSet String

example : ((OrdSet.ofList ["b", "a", "b"]) ∪ OrdSet.ofList ["c", "a"]).toList = ["a", "b", "c"] := by
  decide +kernel

end MipsBackend
