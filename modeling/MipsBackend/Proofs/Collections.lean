import Mathlib.Data.List.Nodup
import Mathlib.Data.List.Perm.Subperm
import MipsBackend.Order.Map

/-! Further facts about ordered sets and maps: counting members, unions over lists, and maps
read through their entries. -/
namespace MipsBackend
namespace OrdSet
variable {α β : Type} [Ord α] [Std.TransOrd α] [Std.LawfulEqOrd α]

instance [DecidableEq α] (a : α) (s : OrdSet α) : Decidable (a ∈ s) :=
  inferInstanceAs (Decidable (a ∈ s.toList))

lemma mem_foldl_union (g : β → OrdSet α) (l : List β) (s : OrdSet α) (x : α) :
    x ∈ l.foldl (fun acc b => acc ∪ g b) s ↔ x ∈ s ∨ ∃ b ∈ l, x ∈ g b := by
  induction l generalizing s with
  | nil => simp
  | cons b l ih => simp [ih, or_assoc]

omit [Std.LawfulEqOrd α] in
lemma size_le_of_subset {s t : OrdSet α} (h : ∀ x ∈ s, x ∈ t) : s.size ≤ t.size :=
  (s.nodup_toList.subperm h).length_le

omit [Std.LawfulEqOrd α] in
/-- A set that grows without becoming larger stays the same. -/
lemma eq_of_subset_of_size_le {s t : OrdSet α} (h : ∀ x ∈ s, x ∈ t) (hle : t.size ≤ s.size) :
    s = t := by
  have hp := (s.nodup_toList.subperm h).perm_of_length_le hle
  exact ext fun x => hp.mem_iff

omit [Std.LawfulEqOrd α] in
lemma size_lt_of_subset {s t : OrdSet α} (h : ∀ x ∈ s, x ∈ t) (hne : s ≠ t) : s.size < t.size := by
  by_contra hlt
  exact hne (eq_of_subset_of_size_le h (Nat.le_of_not_lt hlt))

end OrdSet

namespace OrdMap
variable {κ α : Type} [Ord κ] [Std.TransOrd κ] [Std.LawfulEqOrd κ] [DecidableEq κ]

omit [Std.LawfulEqOrd κ] in
lemma find_eq_some_iff {k : κ} {v : α} {es : List (κ × α)}
    (hes : (es.map Prod.fst).Pairwise (fun a b => compare a b = .lt)) :
    find k es = some v ↔ (k, v) ∈ es := by
  induction es with
  | nil => simp [find]
  | cons e es ih =>
    obtain ⟨he, hes⟩ := List.pairwise_cons.mp hes
    rw [find, List.mem_cons]
    split
    · next h =>
      subst h
      constructor
      · intro hv
        exact Or.inl (Prod.ext rfl (by simpa using hv.symm))
      · rintro (h | hm)
        · rw [← h]
        · exact absurd (he _ (List.mem_map_of_mem hm)) OrdSet.not_lt_self
    · next h =>
      rw [ih hes]
      constructor
      · exact Or.inr
      · rintro (rfl | hm)
        · exact absurd rfl h
        · exact hm

omit [Std.LawfulEqOrd κ] in
/-- Looking up a key finds its entry. -/
lemma get?_eq_some_iff {m : OrdMap κ α} {k : κ} {v : α} :
    m.get? k = some v ↔ (k, v) ∈ m.entries := find_eq_some_iff m.increasing

omit [Std.TransOrd κ] [Std.LawfulEqOrd κ] in
lemma mem_keys_iff {m : OrdMap κ α} {k : κ} : k ∈ m.keys ↔ ∃ v, m.get? k = some v := by
  rw [← contains_iff, contains, Option.isSome_iff_exists]

omit [Std.LawfulEqOrd κ] in
/-- A map is known by what is found in it. -/
lemma ext_get? {m m' : OrdMap κ α} (h : ∀ k, m.get? k = m'.get? k) : m = m' := by
  have hentries : ∀ m : OrdMap κ α,
      m.entries = m.keys.toList.filterMap fun k => (m.get? k).map (Prod.mk k) := by
    intro m
    rw [toList_keys, List.filterMap_map]
    refine List.filterMap_some.symm.trans (List.filterMap_congr fun e he => ?_)
    exact (congrArg (Option.map (Prod.mk e.1)) (get?_eq_some_iff.mpr he)).symm
  have hkeys : m.keys = m'.keys := OrdSet.ext fun k => by rw [mem_keys_iff, mem_keys_iff, h k]
  have hsame : m.entries = m'.entries := by simp only [hentries m, hentries m', hkeys, h]
  cases m
  cases m'
  cases hsame
  rfl

/-- The map of a list without repeated keys has exactly the listed entries. -/
lemma get?_ofList_eq_some_iff {es : List (κ × α)} (hes : (es.map Prod.fst).Nodup) {k : κ} {v : α} :
    (ofList es).get? k = some v ↔ (k, v) ∈ es := by
  suffices h : ∀ m : OrdMap κ α, (∀ e ∈ es, m.get? e.1 = none) →
      ((es.foldl (fun m e => m.insert e.1 e.2) m).get? k = some v ↔
        (k, v) ∈ es ∨ m.get? k = some v) by
    rw [ofList, h ∅ (by simp)]
    simp
  induction es with
  | nil => simp
  | cons e es ih =>
    intro m hm
    obtain ⟨he, hes⟩ := List.nodup_cons.mp hes
    have hfresh : ∀ e' ∈ es, (m.insert e.1 e.2).get? e'.1 = none := by
      intro e' he'
      have hne : e'.1 ≠ e.1 := by
        intro hee
        exact he (hee ▸ List.mem_map_of_mem he')
      rw [get?_insert, if_neg hne]
      exact hm e' (by simp [he'])
    rw [List.foldl_cons, ih hes _ hfresh, get?_insert, List.mem_cons]
    by_cases hk : k = e.1
    · have hnone := hm e (by simp)
      subst hk
      rw [if_pos rfl, hnone]
      constructor
      · rintro (h | h)
        · exact Or.inl (Or.inr h)
        · exact Or.inl (Or.inl (Prod.ext rfl (by simpa using h.symm)))
      · rintro ((h | h) | h)
        · exact Or.inr (by rw [← h])
        · exact Or.inl h
        · cases h
    · rw [if_neg hk]
      have hne : (k, v) ≠ e := fun h => hk (by rw [← h])
      simp [hne]

end OrdMap
end MipsBackend
