import MipsBackend.Proofs.Collections

/-! Interference graphs in memory. A graph that is changed in place refers to the set of its nodes
and, under every key of its edges, to a set of neighbours, and each of these sets is changed in
place as well. No set is referred to twice, be it by one graph or by two, so that a change of one
graph is not seen in another. -/
namespace MipsBackend

/-- A graph in memory, by the addresses of its sets: that of its nodes, and under every key that of
the neighbours. -/
structure StoredGraph where
  nodes : Nat
  edges : NameMap Nat

/-- The sets and the graphs that have been made so far, each known by its place. -/
structure Memory where
  sets : List NameSet
  graphs : List StoredGraph

/-- One of the sets that make up a graph. -/
inductive GraphPart where
  | nodes
  | neighbours (n : String)
  deriving DecidableEq

namespace Memory

def address? (m : Memory) (i : Nat) (p : GraphPart) : Option Nat :=
  m.graphs[i]?.bind fun g =>
    match p with
    | .nodes => some g.nodes
    | .neighbours n => g.edges.get? n

/-- The set that a graph has as one of its parts. -/
def content? (m : Memory) (i : Nat) (p : GraphPart) : Option NameSet :=
  (m.address? i p).bind fun a => m.sets[a]?

def nodes (m : Memory) (i : Nat) : NameSet := (m.content? i .nodes).getD ∅

def keys (m : Memory) (i : Nat) : NameSet := m.graphs[i]?.elim ∅ fun g => g.edges.keys

def neighbours (m : Memory) (i : Nat) (n : String) : NameSet :=
  (m.content? i (.neighbours n)).getD ∅

def hasEdge (m : Memory) (i : Nat) (a b : String) : Bool := (m.neighbours i a).contains b

def degree (m : Memory) (i : Nat) (n : String) : Nat := (m.neighbours i n).size

/-! ### Changes in place -/

/-- Change a set of a graph where it stands. -/
def change (m : Memory) (i : Nat) (p : GraphPart) (f : NameSet → NameSet) : Memory :=
  { m with sets := (m.address? i p).elim m.sets fun a => m.sets.modify a f }

/-- Put a new set under a key of a graph. -/
def attach (m : Memory) (i : Nat) (n : String) (s : NameSet) : Memory where
  sets := m.sets ++ [s]
  graphs := m.graphs.modify i fun g => { g with edges := g.edges.insert n m.sets.length }

/-- Take a key out of a graph. -/
def detach (m : Memory) (i : Nat) (n : String) : Memory :=
  { m with graphs := m.graphs.modify i fun g => { g with edges := g.edges.erase n } }

/-- Make a graph without nodes. -/
def create (m : Memory) : Memory where
  sets := m.sets ++ [∅]
  graphs := m.graphs ++ [⟨m.sets.length, ∅⟩]

def addNode (m : Memory) (i : Nat) (n : String) : Memory :=
  let m := m.change i .nodes (·.insert n)
  if (m.content? i (.neighbours n)).isSome then m else m.attach i n ∅

def addEdge (m : Memory) (i : Nat) (a b : String) : Memory :=
  if a = b then m
  else ((m.addNode i a).addNode i b).change i (.neighbours a) (·.insert b)
    |>.change i (.neighbours b) (·.insert a)

/-- Take a node out of the sets of its neighbours, then out of the nodes and the keys. -/
def removeNode (m : Memory) (i : Nat) (n : String) : Memory :=
  let m := (m.neighbours i n).toList.foldl
    (fun m b => m.change i (.neighbours b) (·.erase n)) m
  (m.change i .nodes (·.erase n)).detach i n

/-- Make another graph with the same nodes, and with copies of the sets of neighbours. -/
def copy (m : Memory) (i : Nat) : Memory :=
  let j := m.graphs.length
  let m := (m.nodes i).toList.foldl (fun m n => m.addNode j n) m.create
  (m.keys i).toList.foldl (fun m n => m.attach j n (m.neighbours i n)) m

/-! ### What a change does to the sets of all graphs -/

/-- Every reference is to a set, and no two are to the same. -/
structure Separated (m : Memory) : Prop where
  bound : ∀ i p a, m.address? i p = some a → a < m.sets.length
  injective : ∀ i p j q a, m.address? i p = some a → m.address? j q = some a → j = i ∧ q = p

variable {m m' : Memory} {i j : Nat} {p q : GraphPart} {f : NameSet → NameSet} {n : String}
  {s : NameSet}

lemma address?_change : (m.change i p f).address? j q = m.address? j q := rfl

lemma content?_change (h : m.Separated) : (m.change i p f).content? j q =
    if j = i ∧ q = p then (m.content? i p).map f else m.content? j q := by
  rw [content?, address?_change, content?, content?]
  cases hp : m.address? i p with
  | none =>
    rw [change, hp]
    split_ifs with heq
    · rw [heq.1, heq.2, hp]
      rfl
    · rfl
  | some a =>
    rw [change, hp]
    split_ifs with heq
    · rw [heq.1, heq.2, hp]
      exact List.getElem?_modify_eq ..
    · cases hq : m.address? j q with
      | none => rfl
      | some b =>
        have hab : a ≠ b := by
          rintro rfl
          exact heq (h.injective i p j q a hp hq)
        exact List.getElem?_modify_ne _ _ hab

lemma Separated.change (h : m.Separated) : (m.change i p f).Separated := by
  refine ⟨fun j q a ha => ?_, h.injective⟩
  have hlt := h.bound j q a ha
  unfold Memory.change
  cases m.address? i p with
  | none => exact hlt
  | some b => exact Nat.lt_of_lt_of_eq hlt (List.length_modify ..).symm

/-- Sets that are put behind the others are not referred to yet. -/
lemma Separated.content?_append (h : m.Separated) :
    ((m.address? j q).bind fun a => (m.sets ++ [s])[a]?) = m.content? j q := by
  rw [content?]
  cases hq : m.address? j q with
  | none => rfl
  | some a => exact List.getElem?_append_left (h.bound j q a hq)

/-- A reference to a new set, besides those that were there. -/
lemma Separated.of_fresh (h : m.Separated) (hlength : m'.sets.length = m.sets.length + 1)
    (haddress : ∀ k r a, m'.address? k r = some a →
      m.address? k r = some a ∨ k = i ∧ r = p ∧ a = m.sets.length) : m'.Separated := by
  refine ⟨fun k r a ha => ?_, fun k r k' r' a ha ha' => ?_⟩
  · rcases haddress k r a ha with hold | hnew
    · have := h.bound k r a hold
      omega
    · omega
  · -- the new address is above those that were there
    rcases haddress k r a ha with hold | ⟨hk, hr, hnew⟩ <;>
      rcases haddress k' r' a ha' with hold' | ⟨hk', hr', hnew'⟩
    · exact h.injective k r k' r' a hold hold'
    · exact absurd (h.bound k r a hold) (hnew' ▸ Nat.lt_irrefl _)
    · exact absurd (h.bound k' r' a hold') (hnew ▸ Nat.lt_irrefl _)
    · exact ⟨hk'.trans hk.symm, hr'.trans hr.symm⟩

lemma address?_attach (hi : i < m.graphs.length) : (m.attach i n s).address? j q =
    if j = i ∧ q = .neighbours n then some m.sets.length else m.address? j q := by
  unfold address? attach
  dsimp only
  by_cases hj : j = i
  · subst hj
    rw [List.getElem?_modify_eq, List.getElem?_eq_getElem hi]
    cases q with
    | nodes => simp
    | neighbours k => simp [OrdMap.get?_insert]
  · rw [List.getElem?_modify_ne _ _ (Ne.symm hj), if_neg (fun h => hj h.1)]

lemma content?_attach (h : m.Separated) (hi : i < m.graphs.length) :
    (m.attach i n s).content? j q =
      if j = i ∧ q = .neighbours n then some s else m.content? j q := by
  rw [content?, address?_attach hi]
  split_ifs
  · exact List.getElem?_concat_length
  · exact h.content?_append

lemma Separated.attach (h : m.Separated) (hi : i < m.graphs.length) :
    (m.attach i n s).Separated := by
  refine h.of_fresh (i := i) (p := .neighbours n) List.length_append fun k r a ha => ?_
  rw [address?_attach hi] at ha
  split_ifs at ha with hplace
  · exact Or.inr ⟨hplace.1, hplace.2, (Option.some.inj ha).symm⟩
  · exact Or.inl ha

lemma address?_detach : (m.detach i n).address? j q =
    if j = i ∧ q = .neighbours n then none else m.address? j q := by
  unfold address? detach
  dsimp only
  by_cases hj : j = i
  · subst hj
    rw [List.getElem?_modify_eq]
    cases m.graphs[j]? with
    | none => simp
    | some g =>
      cases q with
      | nodes => simp
      | neighbours k => simp
  · rw [List.getElem?_modify_ne _ _ (Ne.symm hj), if_neg (fun h => hj h.1)]

lemma content?_detach : (m.detach i n).content? j q =
    if j = i ∧ q = .neighbours n then none else m.content? j q := by
  rw [content?, address?_detach]
  split_ifs <;> rfl

lemma Separated.detach (h : m.Separated) : (m.detach i n).Separated := by
  have hkept : ∀ j q a, (m.detach i n).address? j q = some a → m.address? j q = some a := by
    intro j q a ha
    rw [address?_detach] at ha
    split_ifs at ha
    exact ha
  exact ⟨fun j q a ha => h.bound j q a (hkept j q a ha), fun j q j' q' a ha ha' =>
    h.injective j q j' q' a (hkept j q a ha) (hkept j' q' a ha')⟩

lemma address?_create : m.create.address? j q =
    if j = m.graphs.length then if q = .nodes then some m.sets.length else none
    else m.address? j q := by
  unfold address? create
  dsimp only
  split_ifs with hj hq
  · rw [hj, hq, List.getElem?_concat_length]
    rfl
  · rw [hj, List.getElem?_concat_length]
    cases q with
    | nodes => exact absurd rfl hq
    | neighbours k => rfl
  · congr 1
    rcases Nat.lt_or_gt_of_ne hj with hlt | hgt
    · exact List.getElem?_append_left hlt
    · rw [List.getElem?_eq_none (by simpa using Nat.succ_le_of_lt hgt),
        List.getElem?_eq_none (Nat.le_of_lt hgt)]

lemma content?_create (h : m.Separated) : m.create.content? j q =
    if j = m.graphs.length then if q = .nodes then some ∅ else none else m.content? j q := by
  rw [content?, address?_create]
  split_ifs
  · exact List.getElem?_concat_length
  · rfl
  · exact h.content?_append

lemma Separated.create (h : m.Separated) : m.create.Separated := by
  refine h.of_fresh (i := m.graphs.length) (p := .nodes) List.length_append fun k r a ha => ?_
  rw [address?_create] at ha
  split_ifs at ha with hk hr
  · exact Or.inr ⟨hk, hr, (Option.some.inj ha).symm⟩
  · exact Or.inl ha

/-! ### Changes of one graph -/

/-- What is left when only the graph at `i` has been changed: the other graphs are as they were. -/
structure Alters (m : Memory) (i : Nat) (m' : Memory) : Prop where
  separated : m'.Separated
  length_graphs : m'.graphs.length = m.graphs.length
  others : ∀ j q, j ≠ i → m'.content? j q = m.content? j q

lemma Alters.refl (h : m.Separated) (i : Nat) : m.Alters i m := ⟨h, rfl, fun _ _ _ => rfl⟩

lemma Alters.trans {m'' : Memory} (h : m.Alters i m') (h' : m'.Alters i m'') : m.Alters i m'' :=
  ⟨h'.separated, h'.length_graphs.trans h.length_graphs, fun j q hj =>
    (h'.others j q hj).trans (h.others j q hj)⟩

lemma alters_change (h : m.Separated) : m.Alters i (m.change i p f) :=
  ⟨h.change, rfl, fun j q hj => by rw [content?_change h, if_neg fun he => hj he.1]⟩

lemma alters_attach (h : m.Separated) (hi : i < m.graphs.length) : m.Alters i (m.attach i n s) :=
  ⟨h.attach hi, List.length_modify .., fun j q hj => by
    rw [content?_attach h hi, if_neg fun he => hj he.1]⟩

lemma alters_detach (h : m.Separated) : m.Alters i (m.detach i n) :=
  ⟨h.detach, List.length_modify .., fun j q hj => by
    rw [content?_detach, if_neg fun he => hj he.1]⟩

/-- A loop over steps that change one graph changes one graph. -/
lemma alters_foldl {α : Type} {t : Memory → α → Memory} (h : m.Separated)
    (hi : i < m.graphs.length)
    (ht : ∀ (m : Memory) x, m.Separated → i < m.graphs.length → m.Alters i (t m x))
    (xs : List α) : m.Alters i (xs.foldl t m) :=
  List.foldlRecOn xs t (motive := fun m' => m.Alters i m') (.refl h i) fun m' hm' x _ =>
    hm'.trans (ht m' x hm'.separated (hm'.length_graphs ▸ hi))

lemma alters_addNode (h : m.Separated) (hi : i < m.graphs.length) (n : String) :
    m.Alters i (m.addNode i n) := by
  unfold addNode
  dsimp only
  split_ifs
  · exact alters_change h
  · exact (alters_change h).trans (alters_attach h.change hi)

lemma alters_addEdge (h : m.Separated) (hi : i < m.graphs.length) (a b : String) :
    m.Alters i (m.addEdge i a b) := by
  unfold addEdge
  split_ifs
  · exact .refl h i
  · have ha := alters_addNode h hi a
    have hb := ha.trans (alters_addNode ha.separated (ha.length_graphs ▸ hi) b)
    exact hb.trans ((alters_change hb.separated).trans (alters_change hb.separated.change))

/-- The first part of a removal: the sets of the neighbours are changed. -/
lemma alters_foldl_change (h : m.Separated) (hi : i < m.graphs.length) (ns : List String) :
    m.Alters i (ns.foldl (fun m b => m.change i (.neighbours b) f) m) :=
  alters_foldl h hi (fun _ _ hm _ => alters_change hm) ns

lemma alters_removeNode (h : m.Separated) (hi : i < m.graphs.length) (n : String) :
    m.Alters i (m.removeNode i n) := by
  have hloop := alters_foldl_change (f := (·.erase n)) h hi (m.neighbours i n).toList
  exact hloop.trans ((alters_change hloop.separated).trans (alters_detach hloop.separated.change))

/-! ### Loops over sets of one graph -/

/-- Changing the sets under several names one after the other. -/
lemma content?_foldl_change (h : m.Separated) {ns : List String} (hns : ns.Nodup) :
    (ns.foldl (fun m n => m.change i (.neighbours n) f) m).content? i p =
      if p ∈ ns.map .neighbours then (m.content? i p).map f else m.content? i p := by
  induction ns generalizing m with
  | nil => rfl
  | cons n ns ih =>
    obtain ⟨hn, hns⟩ := List.nodup_cons.mp hns
    rw [List.foldl_cons, ih h.change hns, content?_change h]
    by_cases hp : p = .neighbours n
    · simp [hp, hn]
    · simp [hp]

/-- Putting copies of the sets of one graph under the keys of another. -/
lemma content?_foldl_attach (h : m.Separated) (hj : j < m.graphs.length) (hij : i ≠ j)
    (ns : List String) (k : String) :
    (ns.foldl (fun m n => m.attach j n (m.neighbours i n)) m).content? j (.neighbours k) =
      if k ∈ ns then some (m.neighbours i k) else m.content? j (.neighbours k) := by
  induction ns generalizing m with
  | nil => simp
  | cons n ns ih =>
    have hattach := alters_attach (n := n) (s := m.neighbours i n) h hj
    have hsame : (m.attach j n (m.neighbours i n)).neighbours i k = m.neighbours i k :=
      congrArg (Option.getD · ∅) (hattach.others i _ hij)
    rw [List.foldl_cons, ih hattach.separated (hattach.length_graphs ▸ hj), content?_attach h hj,
      hsame]
    by_cases hk : k = n
    · simp [hk]
    · simp [hk]

lemma content?_nodes_foldl_attach (h : m.Separated) (hj : j < m.graphs.length) (ns : List String) :
    (ns.foldl (fun m n => m.attach j n (m.neighbours i n)) m).content? j .nodes =
      m.content? j .nodes := by
  induction ns generalizing m with
  | nil => rfl
  | cons n ns ih =>
    have hattach := alters_attach (n := n) (s := m.neighbours i n) h hj
    rw [List.foldl_cons, ih hattach.separated (hattach.length_graphs ▸ hj), content?_attach h hj,
      if_neg (by simp)]

/-- The sets that there are under the keys of a graph. -/
lemma mem_keys (h : m.Separated) : n ∈ m.keys i ↔ ∃ s, m.content? i (.neighbours n) = some s := by
  have haddress : n ∈ m.keys i ↔ ∃ a, m.address? i (.neighbours n) = some a := by
    unfold keys address?
    cases m.graphs[i]? with
    | none => simp
    | some g => exact OrdMap.mem_keys_iff
  rw [haddress]
  constructor
  · rintro ⟨a, ha⟩
    have hlt := h.bound i _ a ha
    exact ⟨m.sets[a], by rw [content?, ha, Option.bind_some, List.getElem?_eq_getElem hlt]⟩
  · rintro ⟨s, hs⟩
    obtain ⟨a, ha, -⟩ := Option.bind_eq_some_iff.mp hs
    exact ⟨a, ha⟩

end Memory
end MipsBackend
