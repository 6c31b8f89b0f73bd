import MipsBackend.Order.Set

/-! Finite maps with an ordered key type, kept as the list of their entries with strictly
increasing keys. Every operation is described by what it does to `get?`. -/
namespace MipsBackend

/-- A finite map, represented by its entries in increasing order of their keys. -/
structure OrdMap (κ α : Type) [Ord κ] where
  entries : List (κ × α)
  increasing : (entries.map Prod.fst).Pairwise (fun a b => compare a b = .lt)

namespace OrdMap
variable {κ α β : Type}

/-- The value of the first entry with key `k`. -/
def find [DecidableEq κ] (k : κ) : List (κ × α) → Option α
  | [] => none
  | e :: es => if k = e.1 then some e.2 else find k es

theorem find_isSome [DecidableEq κ] {k : κ} {es : List (κ × α)} :
    (find k es).isSome = true ↔ k ∈ es.map Prod.fst := by
  induction es with
  | nil => simp [find]
  | cons e es ih =>
    rw [find]
    split
    · next h => simp [h]
    · next h => rw [ih, List.map_cons, List.mem_cons]; simp [h]

theorem find_map [DecidableEq κ] (f : κ → α → β) (k : κ) (es : List (κ × α)) :
    find k (es.map fun e => (e.1, f e.1 e.2)) = (find k es).map (f k) := by
  induction es with
  | nil => rfl
  | cons e es ih =>
    simp only [List.map_cons, find]
    split
    · next h => simp [h]
    · exact ih

theorem find_filter_ne [DecidableEq κ] {k j : κ} {es : List (κ × α)} :
    find j (es.filter fun e => decide (e.1 ≠ k)) = if j = k then none else find j es := by
  induction es with
  | nil => simp [find]
  | cons e es ih =>
    rw [List.filter_cons]
    split
    · next h =>
      simp only [find, ih]
      have : ¬ e.1 = k := by simpa using h
      grind
    · next h =>
      have : e.1 = k := by simpa using h
      simp only [ih, find]
      grind

theorem find_eq_none [DecidableEq κ] {k : κ} {es : List (κ × α)} (h : k ∉ es.map Prod.fst) :
    find k es = none := by
  rwa [← find_isSome, Bool.not_eq_true, Option.isSome_eq_false_iff, Option.isNone_iff_eq_none] at h

theorem find_filterMap [DecidableEq κ] (f : κ → α → Option β) {k : κ} {es : List (κ × α)}
    (hes : (es.map Prod.fst).Nodup) :
    find k (es.filterMap fun e => (f e.1 e.2).map (e.1, ·)) = (find k es).bind (f k) := by
  induction es with
  | nil => rfl
  | cons e es ih =>
    obtain ⟨he, hes⟩ := List.nodup_cons.mp hes
    rw [List.filterMap_cons, find]
    by_cases hk : k = e.1
    · subst hk
      rw [if_pos rfl, Option.bind_some]
      cases hf : f e.1 e.2 with
      | none =>
        rw [Option.map_none, ih hes, find_eq_none he, Option.bind_none]
      | some v => simp [find]
    · rw [if_neg hk, ← ih hes]
      cases f e.1 e.2 with
      | none => rfl
      | some v => simp [find, hk]

theorem fst_filterMap_sublist (f : κ → α → Option β) (es : List (κ × α)) :
    ((es.filterMap fun e => (f e.1 e.2).map (e.1, ·)).map Prod.fst).Sublist (es.map Prod.fst) := by
  induction es with
  | nil => exact .slnil
  | cons e es ih =>
    rw [List.filterMap_cons]
    cases f e.1 e.2 with
    | none => exact ih.cons _
    | some v => exact ih.cons_cons _

variable [Ord κ]

/-- Put an entry at its place, in the stead of one with the same key. -/
def put (k : κ) (v : α) : List (κ × α) → List (κ × α)
  | [] => [(k, v)]
  | e :: es =>
    match compare k e.1 with
    | .lt => (k, v) :: e :: es
    | .eq => (k, v) :: es
    | .gt => e :: put k v es

theorem keys_put [Std.LawfulEqOrd κ] (k : κ) (v : α) (es : List (κ × α)) :
    (put k v es).map Prod.fst = OrdSet.place k (es.map Prod.fst) := by
  induction es with
  | nil => rfl
  | cons e es ih =>
    rw [put, List.map_cons, OrdSet.place]
    cases h : compare k e.1 with
    | lt => simp
    | eq => simp [OrdSet.eq_of_compare_eq h]
    | gt => simp [ih]

theorem find_put [Std.LawfulEqOrd κ] [DecidableEq κ] (k j : κ) (v : α) (es : List (κ × α)) :
    find j (put k v es) = if j = k then some v else find j es := by
  induction es with
  | nil => simp [put, find]
  | cons e es ih =>
    rw [put]
    cases h : compare k e.1 with
    | lt => simp [find]
    | eq =>
      have := OrdSet.eq_of_compare_eq h
      simp only [find]
      grind
    | gt =>
      have hne : ¬ k = e.1 := by
        intro e
        simp [e, Std.ReflCmp.compare_self] at h
      simp only [find, ih]
      grind

instance : EmptyCollection (OrdMap κ α) := ⟨⟨[], OrdSet.increasing_nil⟩⟩

instance : Inhabited (OrdMap κ α) := ⟨∅⟩

instance [DecidableEq κ] [DecidableEq α] : DecidableEq (OrdMap κ α) := fun s t =>
  decidable_of_iff (s.entries = t.entries) (by cases s; cases t; simp)

def keys (m : OrdMap κ α) : OrdSet κ := ⟨m.entries.map Prod.fst, m.increasing⟩

def size (m : OrdMap κ α) : Nat := m.entries.length

/-- Apply `f` to every entry, keeping the keys. -/
def map (f : κ → α → β) (m : OrdMap κ α) : OrdMap κ β :=
  ⟨m.entries.map fun e => (e.1, f e.1 e.2), by
    rw [List.map_map]; exact m.increasing⟩

/-- Keep the entries whose key and value pass the test. -/
def filter (p : κ → α → Bool) (m : OrdMap κ α) : OrdMap κ α :=
  ⟨m.entries.filter fun e => p e.1 e.2,
    m.increasing.sublist (List.filter_sublist.map Prod.fst)⟩

/-- Keep the entries that `f` gives a new value. -/
def filterMap (f : κ → α → Option β) (m : OrdMap κ α) : OrdMap κ β :=
  ⟨m.entries.filterMap fun e => (f e.1 e.2).map (e.1, ·),
    m.increasing.sublist (fst_filterMap_sublist f m.entries)⟩

@[simp] theorem entries_empty : (∅ : OrdMap κ α).entries = [] := rfl

@[simp] theorem toList_keys (m : OrdMap κ α) : m.keys.toList = m.entries.map Prod.fst := rfl

@[simp] theorem keys_map (f : κ → α → β) (m : OrdMap κ α) : (m.map f).keys = m.keys := by
  simp only [keys, map, List.map_map]
  rfl

section Decidable
variable [DecidableEq κ]

def get? (m : OrdMap κ α) (k : κ) : Option α := find k m.entries

/-- The value stored under `k`, or `d` if there is none. -/
def getD (m : OrdMap κ α) (k : κ) (d : α) : α := (m.get? k).getD d

def contains (m : OrdMap κ α) (k : κ) : Bool := (m.get? k).isSome

def erase (m : OrdMap κ α) (k : κ) : OrdMap κ α := m.filter fun k' _ => decide (k' ≠ k)

@[simp] theorem get?_empty (k : κ) : (∅ : OrdMap κ α).get? k = none := rfl

@[simp] theorem contains_iff {m : OrdMap κ α} {k : κ} : m.contains k = true ↔ k ∈ m.keys :=
  find_isSome

@[simp] theorem get?_erase (m : OrdMap κ α) (k j : κ) :
    (m.erase k).get? j = if j = k then none else m.get? j := find_filter_ne

@[simp] theorem get?_map (f : κ → α → β) (m : OrdMap κ α) (k : κ) :
    (m.map f).get? k = (m.get? k).map (f k) := find_map f k m.entries

@[simp] theorem get?_filterMap [Std.OrientedOrd κ] (f : κ → α → Option β) (m : OrdMap κ α) (k : κ) :
    (m.filterMap f).get? k = (m.get? k).bind (f k) := find_filterMap f m.keys.nodup_toList

end Decidable

section Ordered
variable [Std.TransOrd κ] [Std.LawfulEqOrd κ]

def insert (m : OrdMap κ α) (k : κ) (v : α) : OrdMap κ α :=
  ⟨put k v m.entries, by rw [keys_put]; exact OrdSet.increasing_place k m.increasing⟩

@[simp] theorem keys_insert (m : OrdMap κ α) (k : κ) (v : α) :
    (m.insert k v).keys = m.keys.insert k := by
  simp only [keys, insert, OrdSet.insert, keys_put]

/-- The map of a list of entries; a later entry replaces an earlier one with the same key. -/
def ofList (es : List (κ × α)) : OrdMap κ α := es.foldl (fun m e => m.insert e.1 e.2) ∅

variable [DecidableEq κ]

@[simp] theorem get?_insert (m : OrdMap κ α) (k j : κ) (v : α) :
    (m.insert k v).get? j = if j = k then some v else m.get? j := find_put k j v m.entries

/-- Change the value under `k` by `f`, starting from `d` if there is none. -/
def alter (m : OrdMap κ α) (k : κ) (d : α) (f : α → α) : OrdMap κ α :=
  m.insert k (f (m.getD k d))

@[simp] theorem get?_alter (m : OrdMap κ α) (k j : κ) (d : α) (f : α → α) :
    (m.alter k d f).get? j = if j = k then some (f (m.getD k d)) else m.get? j :=
  get?_insert ..

end Ordered
end OrdMap

abbrev NameMap (α : Type) := OrdMap String α

end MipsBackend
