import Mathlib.Data.Set.Card
import MipsBackend.Proofs.GraphMemory
import MipsBackend.Proofs.Simplification

/-! Calls on interference graphs in memory, one after the other. Graphs in memory go through the
same changes as graphs that are values, where a copy is the graph itself: so they stay well formed,
and no graph sees what is called on another. -/
namespace MipsBackend

/-- All that can be asked of a graph. -/
structure GraphView where
  nodes : NameSet
  /-- The names under which there is a set of neighbours. -/
  keys : NameSet
  neighbours : String → NameSet
  hasEdge : String → String → Bool
  degree : String → Nat

/-- Edges and degrees are found in the sets of neighbours. -/
def GraphView.ofSets (nodes keys : NameSet) (neighbours : String → NameSet) : GraphView where
  nodes := nodes
  keys := keys
  neighbours := neighbours
  hasEdge a b := (neighbours a).contains b
  degree n := (neighbours n).size

def Interference.view (g : Interference) : GraphView :=
  ⟨g.nodes, g.neighbours.keys, g.adjacent, g.hasEdge, g.degree⟩

def Memory.view (m : Memory) (i : Nat) : GraphView :=
  ⟨m.nodes i, m.keys i, m.neighbours i, m.hasEdge i, m.degree i⟩

namespace Interference
variable {g : Interference} {a b n x : String}

/-- A set of a graph that is a value; there is none under a name that is no node. -/
def part? (g : Interference) : GraphPart → Option NameSet
  | .nodes => some g.nodes
  | .neighbours n => g.neighbours.get? n

lemma part?_neighbours (g : Interference) (n : String) :
    g.part? (.neighbours n) = if n ∈ g.nodes then some (g.adjacent n) else none := by
  rw [part?, adjacent, OrdMap.getD]
  split_ifs with hn
  · obtain ⟨s, hs⟩ := OrdMap.mem_keys_iff.mp hn
    rw [hs, Option.getD_some]
  · exact Option.eq_none_iff_forall_ne_some.mpr fun s hs => hn (OrdMap.mem_keys_iff.mpr ⟨s, hs⟩)

lemma adjacent_of_not_mem (hn : n ∉ g.nodes) : g.adjacent n = ∅ := by
  have hnone := g.part?_neighbours n
  rw [if_neg hn, part?] at hnone
  rw [adjacent, OrdMap.getD, hnone, Option.getD_none]

lemma nodes_addNode (g : Interference) (n : String) : (g.addNode n).nodes = g.nodes.insert n :=
  OrdMap.keys_insert ..

lemma nodes_addNeighbour (ha : a ∈ g.nodes) : (g.addNeighbour a b).nodes = g.nodes := by
  refine OrdSet.ext fun x => ?_
  rw [nodes, addNeighbour, OrdMap.keys_insert, OrdSet.mem_insert]
  exact or_iff_right_of_imp fun hx => hx ▸ ha

/-- An edge makes its ends nodes. -/
lemma addNeighbour_addNode (hab : a ≠ b) :
    (((g.addNode a).addNode b).addNeighbour a b).addNeighbour b a = g.addEdge a b := by
  rw [addEdge, if_neg hab]
  refine congrArg Interference.mk (OrdMap.ext_get? fun k => ?_)
  simp only [addNeighbour, addNode, OrdMap.get?_insert, adjacent, OrdMap.getD]
  grind

lemma nodes_removeNode (g : Interference) (n : String) :
    (g.removeNode n).nodes = g.nodes.erase n :=
  OrdSet.ext fun x => by rw [mem_nodes_removeNode, OrdSet.mem_erase]

lemma mem_adjacent_removeNode :
    b ∈ (g.removeNode n).adjacent a ↔ b ∈ g.adjacent a ∧ a ≠ n ∧ b ≠ n := by
  rw [adjacent_removeNode]
  by_cases ha : a = n <;> simp [ha]

lemma Undirected.removeNode (h : g.Undirected) (n : String) : (g.removeNode n).Undirected := by
  refine ⟨fun a b hb => ?_, fun a ha => h.irrefl a (mem_adjacent_removeNode.mp ha).1⟩
  obtain ⟨hb, han, hbn⟩ := mem_adjacent_removeNode.mp hb
  exact mem_adjacent_removeNode.mpr ⟨h.symm a b hb, hbn, han⟩

lemma Undirected.removeAll (h : g.Undirected) (ns : List String) : (g.removeAll ns).Undirected := by
  induction ns generalizing g with
  | nil => exact h
  | cons n ns ih => exact ih (h.removeNode n)

lemma degree_eq_ncard (g : Interference) (n : String) :
    g.degree n = {b | g.hasEdge n b = true}.ncard := by
  have hset : {b | g.hasEdge n b = true} = (g.adjacent n).toList.toFinset := by
    ext b
    simp [hasEdge]
  rw [hset, Set.ncard_coe_finset, List.toFinset_card_of_nodup (g.adjacent n).nodup_toList]
  rfl

end Interference

/-! ### Graphs in memory as values -/

namespace Memory
variable {m m' : Memory} {i : Nat} {n : String} {g : Interference}

/-- The graph at `i` has the sets of `g`. -/
def Holds (m : Memory) (i : Nat) (g : Interference) : Prop := ∀ p, m.content? i p = g.part? p

lemma Holds.neighbours_eq (hg : m.Holds i g) (n : String) : m.neighbours i n = g.adjacent n := by
  rw [neighbours, hg]
  rfl

lemma Holds.addNode (h : m.Separated) (hi : i < m.graphs.length) (hg : m.Holds i g) :
    (m.addNode i n).Holds i (g.addNode n) := by
  have hchange : ∀ q, (m.change i .nodes (·.insert n)).content? i q =
      if q = .nodes then some (g.nodes.insert n) else g.part? q := by
    intro q
    rw [content?_change h, hg, hg]
    simp [Interference.part?]
  have hkey := hchange (.neighbours n)
  rw [if_neg (by simp), Interference.part?_neighbours] at hkey
  unfold Memory.addNode
  dsimp only
  rw [hkey]
  intro p
  by_cases hn : n ∈ g.nodes
  · rw [if_pos hn, Option.isSome_some, if_pos rfl, hchange]
    cases p with
    | nodes => rw [if_pos rfl, Interference.part?, Interference.nodes_addNode]
    | neighbours k =>
      have hk : k ∈ (g.addNode n).nodes ↔ k ∈ g.nodes := by
        rw [Interference.mem_nodes_addNode]
        exact or_iff_right_of_imp fun hk => hk ▸ hn
      simp [Interference.part?_neighbours, hk]
  · rw [if_neg hn, Option.isSome_none, if_neg (by simp), content?_attach h.change hi, hchange]
    cases p with
    | nodes => simp [Interference.part?, Interference.nodes_addNode]
    | neighbours k =>
      by_cases hk : k = n
      · simp [Interference.part?_neighbours, Interference.mem_nodes_addNode, hk,
          Interference.adjacent_of_not_mem hn]
      · simp [Interference.part?_neighbours, Interference.mem_nodes_addNode, hk]

lemma Holds.foldl_addNode (h : m.Separated) (hi : i < m.graphs.length) (hg : m.Holds i g)
    (ns : List String) :
    (ns.foldl (fun m n => m.addNode i n) m).Holds i (ns.foldl Interference.addNode g) := by
  induction ns generalizing m g with
  | nil => exact hg
  | cons n ns ih =>
    have ha := alters_addNode h hi n
    exact ih ha.separated (ha.length_graphs ▸ hi) (hg.addNode h hi)

lemma Holds.addNeighbour {a b : String} (h : m.Separated) (hg : m.Holds i g) (ha : a ∈ g.nodes) :
    (m.change i (.neighbours a) (·.insert b)).Holds i (g.addNeighbour a b) := by
  intro p
  rw [content?_change h, hg, hg]
  cases p with
  | nodes => simp [Interference.part?, Interference.nodes_addNeighbour ha]
  | neighbours k =>
    by_cases hk : k = a
    · simp [Interference.part?_neighbours, Interference.nodes_addNeighbour ha,
        Interference.adjacent_addNeighbour, hk, ha]
    · simp [Interference.part?_neighbours, Interference.nodes_addNeighbour ha,
        Interference.adjacent_addNeighbour, hk]

lemma Holds.addEdge {a b : String} (h : m.Separated) (hi : i < m.graphs.length)
    (hg : m.Holds i g) : (m.addEdge i a b).Holds i (g.addEdge a b) := by
  by_cases hab : a = b
  · rw [Memory.addEdge, Interference.addEdge, if_pos hab, if_pos hab]
    exact hg
  have ha := alters_addNode h hi a
  have hi' := ha.length_graphs ▸ hi
  have hb := alters_addNode ha.separated hi' b
  have hadded := (hg.addNode (n := a) h hi).addNode (n := b) ha.separated hi'
  rw [← Interference.addNeighbour_addNode hab, Memory.addEdge, if_neg hab]
  refine (hadded.addNeighbour hb.separated ?_).addNeighbour hb.separated.change ?_
  · simp [Interference.mem_nodes_addNode]
  · simp [Interference.addNeighbour, Interference.nodes, Interference.addNode]

lemma Holds.removeNode (h : m.Separated) (hi : i < m.graphs.length) (hg : m.Holds i g)
    (hu : g.Undirected) : (m.removeNode i n).Holds i (g.removeNode n) := by
  have hloop := alters_foldl_change (f := (·.erase n)) h hi (m.neighbours i n).toList
  have hnodup := (m.neighbours i n).nodup_toList
  intro p
  unfold Memory.removeNode
  dsimp only
  rw [content?_detach, content?_change hloop.separated, content?_foldl_change h hnodup,
    content?_foldl_change h hnodup, hg, hg, hg.neighbours_eq]
  cases p with
  | nodes => simp [Interference.part?, Interference.nodes_removeNode]
  | neighbours k =>
    simp only [Interference.part?_neighbours, Interference.nodes_removeNode, OrdSet.mem_erase,
      Interference.adjacent_removeNode]
    by_cases hk : k = n
    · simp [hk]
    by_cases hadjacent : k ∈ g.adjacent n
    · by_cases hnode : k ∈ g.nodes <;> simp [hk, hadjacent, hnode]
    · -- `n` is not in the set of `k` either
      have herase : (g.adjacent k).erase n = g.adjacent k := OrdSet.ext fun x => by
        rw [OrdSet.mem_erase]
        exact and_iff_left_of_imp fun hx hxn => hadjacent (hu.symm k n (hxn ▸ hx))
      simp [hk, hadjacent, herase]

lemma Holds.keys_eq (h : m.Separated) (hg : m.Holds i g) : m.keys i = g.nodes := by
  refine OrdSet.ext fun n => ?_
  rw [mem_keys h, hg]
  exact OrdMap.mem_keys_iff.symm

/-- What is left when a graph has been added: it has the sets of `g`, and the graphs that were there
are as they were. -/
structure Gains (m : Memory) (g : Interference) (m' : Memory) : Prop where
  separated : m'.Separated
  length_graphs : m'.graphs.length = m.graphs.length + 1
  others : ∀ j q, j < m.graphs.length → m'.content? j q = m.content? j q
  holds : m'.Holds m.graphs.length g

lemma gains_create (h : m.Separated) : m.Gains .empty m.create where
  separated := h.create
  length_graphs := List.length_append
  others j q hj := by rw [content?_create h, if_neg hj.ne]
  holds p := by
    rw [content?_create h, if_pos rfl]
    cases p <;> rfl

/-- Changes of the graph that has been added. -/
lemma Gains.alters {g' : Interference} {m'' : Memory} (h : m.Gains g m')
    (ha : m'.Alters m.graphs.length m'') (hg : m''.Holds m.graphs.length g') : m.Gains g' m'' where
  separated := ha.separated
  length_graphs := ha.length_graphs.trans h.length_graphs
  others j q hj := (ha.others j q hj.ne).trans (h.others j q hj)
  holds := hg

lemma gains_copy (h : m.Separated) (hi : i < m.graphs.length) (hg : m.Holds i g) :
    m.Gains g (m.copy i) := by
  have hcreate := gains_create h
  have hj : m.graphs.length < m.create.graphs.length := by
    rw [hcreate.length_graphs]
    exact Nat.lt_succ_self _
  have hnodes : m.nodes i = g.nodes := by
    rw [nodes, hg]
    rfl
  -- first the nodes, which get empty sets of neighbours
  have hadd : m.Gains _ _ := hcreate.alters
    (alters_foldl hcreate.separated hj (fun m n hm hj => alters_addNode hm hj n) g.nodes.toList)
    (hcreate.holds.foldl_addNode hcreate.separated hj g.nodes.toList)
  unfold copy
  dsimp only
  rw [hnodes]
  generalize g.nodes.toList.foldl (fun m' n => m'.addNode m.graphs.length n) m.create = m₁ at hadd
  -- then the copies of the sets
  have hj₁ : m.graphs.length < m₁.graphs.length := by
    rw [hadd.length_graphs]
    exact Nat.lt_succ_self _
  have hg₁ : m₁.Holds i g := fun p => (hadd.others i p hi).trans (hg p)
  refine hadd.alters (alters_foldl hadd.separated hj₁
    (fun m n hm hj => alters_attach hm hj) _) fun p => ?_
  have hmem : ∀ n, n ∈ (g.nodes.toList.foldl Interference.addNode .empty).nodes ↔ n ∈ g.nodes := by
    intro n
    rw [Webs.mem_nodes_foldl_addNode, OrdSet.mem_toList]
    exact or_iff_left (OrdSet.not_mem_empty n)
  cases p with
  | nodes =>
    rw [content?_nodes_foldl_attach hadd.separated hj₁, hadd.holds, Interference.part?,
      Interference.part?, OrdSet.ext hmem]
  | neighbours n =>
    rw [content?_foldl_attach hadd.separated hj₁ hi.ne, hg₁.keys_eq hadd.separated, hadd.holds,
      hg₁.neighbours_eq, Interference.part?_neighbours, Interference.part?_neighbours]
    by_cases hn : n ∈ g.nodes <;> simp [hn, hmem]

end Memory

/-! ### Calls, one after the other -/

/-- A call on the graph at `i`. -/
inductive GraphCall where
  | addNode (i : Nat) (n : String)
  | addEdge (i : Nat) (a b : String)
  | removeNode (i : Nat) (n : String)
  | copy (i : Nat)

namespace GraphCall

/-- The graph that is called on. -/
def graph : GraphCall → Nat
  | .addNode i _ | .addEdge i _ _ | .removeNode i _ | .copy i => i

/-- Whether a call is not to change the graph at `i`. To copy a graph is no change of it. -/
def Spares (i : Nat) : GraphCall → Prop
  | .addNode j _ | .addEdge j _ _ | .removeNode j _ => j ≠ i
  | .copy _ => True

/-- Carry out a call in memory. There is none on a graph that has not been made. -/
def perform (m : Memory) (c : GraphCall) : Memory :=
  if c.graph < m.graphs.length then
    match c with
    | .addNode i n => m.addNode i n
    | .addEdge i a b => m.addEdge i a b
    | .removeNode i n => m.removeNode i n
    | .copy i => m.copy i
  else m

/-- Carry out a call on graphs that are values, where a copy is the graph itself. -/
def onValues (gs : List Interference) : GraphCall → List Interference
  | .addNode i n => gs.modify i (·.addNode n)
  | .addEdge i a b => gs.modify i (·.addEdge a b)
  | .removeNode i n => gs.modify i (·.removeNode n)
  | .copy i => gs ++ gs[i]?.toList

lemma onValues_of_length_le {gs : List Interference} {c : GraphCall} (h : gs.length ≤ c.graph) :
    c.onValues gs = gs := by
  have hnone : gs[c.graph]? = none := List.getElem?_eq_none h
  have hmodify : ∀ f, gs.modify c.graph f = gs := by
    intro f
    refine List.ext_getElem? fun j => ?_
    by_cases hj : c.graph = j
    · rw [← hj, List.getElem?_modify_eq, hnone]
      rfl
    · exact List.getElem?_modify_ne _ _ hj
  cases c with
  | addNode i n => exact hmodify _
  | addEdge i a b => exact hmodify _
  | removeNode i n => exact hmodify _
  | copy i =>
    have hnone : gs[i]? = none := hnone
    rw [onValues, hnone, Option.toList_none, List.append_nil]

/-- A call leaves the values of the graphs alone that it spares. -/
lemma getElem?_onValues {gs : List Interference} {c : GraphCall} {i : Nat} (hi : i < gs.length)
    (h : c.Spares i) : (c.onValues gs)[i]? = gs[i]? := by
  cases c with
  | addNode j n => exact List.getElem?_modify_ne _ _ h
  | addEdge j a b => exact List.getElem?_modify_ne _ _ h
  | removeNode j n => exact List.getElem?_modify_ne _ _ h
  | copy j => exact List.getElem?_append_left hi

lemma length_le_onValues (gs : List Interference) (c : GraphCall) :
    gs.length ≤ (c.onValues gs).length := by
  cases c <;> simp [onValues]

/-- The graphs after calls, as values. -/
def values (calls : List GraphCall) : List Interference := calls.foldl onValues [.empty]

lemma values_concat (calls : List GraphCall) (c : GraphCall) :
    values (calls ++ [c]) = c.onValues (values calls) := List.foldl_append

lemma getElem?_values_append {calls later : List GraphCall} {i : Nat}
    (hi : i < (values calls).length) (h : ∀ c ∈ later, c.Spares i) :
    (values (calls ++ later))[i]? = (values calls)[i]? := by
  unfold values at hi ⊢
  rw [List.foldl_append]
  generalize calls.foldl onValues [.empty] = gs at hi ⊢
  induction later generalizing gs with
  | nil => rfl
  | cons c later ih =>
    obtain ⟨hc, hlater⟩ := List.forall_mem_cons.mp h
    rw [List.foldl_cons, ih hlater _ (hi.trans_le (length_le_onValues gs c)),
      getElem?_onValues hi hc]

end GraphCall

namespace Memory
variable {m m' : Memory} {i : Nat} {gs : List Interference}

/-- The memory with one graph, which has no nodes. -/
def initial : Memory := create ⟨[], []⟩

/-- The memory after calls from the first graph on. -/
def run (calls : List GraphCall) : Memory := calls.foldl GraphCall.perform initial

/-- Graphs in memory that are those of a list of undirected graphs. -/
structure Stores (m : Memory) (gs : List Interference) : Prop where
  separated : m.Separated
  length_graphs : m.graphs.length = gs.length
  each : ∀ i g, gs[i]? = some g → m.Holds i g ∧ g.Undirected

lemma Stores.alters {f : Interference → Interference} (h : m.Stores gs) (ha : m.Alters i m')
    (hf : ∀ g, gs[i]? = some g → m'.Holds i (f g) ∧ (f g).Undirected) :
    m'.Stores (gs.modify i f) := by
  refine ⟨ha.separated, by rw [ha.length_graphs, h.length_graphs, List.length_modify], ?_⟩
  intro j g' hg'
  by_cases hj : j = i
  · subst hj
    rw [List.getElem?_modify_eq] at hg'
    obtain ⟨g, hg, rfl⟩ := Option.map_eq_some_iff.mp hg'
    exact hf g hg
  · rw [List.getElem?_modify_ne _ _ (Ne.symm hj)] at hg'
    obtain ⟨hholds, hu⟩ := h.each j g' hg'
    exact ⟨fun p => (ha.others j p hj).trans (hholds p), hu⟩

lemma Stores.gains {g : Interference} (h : m.Stores gs) (hm : m.Gains g m') (hg : g.Undirected) :
    m'.Stores (gs ++ [g]) := by
  refine ⟨hm.separated, by rw [hm.length_graphs, h.length_graphs, List.length_append]; rfl, ?_⟩
  intro j g' hg'
  rcases Nat.lt_trichotomy j gs.length with hj | rfl | hj
  · rw [List.getElem?_append_left hj] at hg'
    obtain ⟨hholds, hu⟩ := h.each j g' hg'
    exact ⟨fun p => (hm.others j p (h.length_graphs ▸ hj)).trans (hholds p), hu⟩
  · rw [List.getElem?_concat_length] at hg'
    cases hg'
    exact ⟨h.length_graphs ▸ hm.holds, hg⟩
  · rw [List.getElem?_eq_none (by simpa using hj)] at hg'
    cases hg'

/-- A call does the same in memory as on values. -/
lemma Stores.perform (h : m.Stores gs) (c : GraphCall) :
    (c.perform m).Stores (c.onValues gs) := by
  unfold GraphCall.perform
  split_ifs with hi
  · cases c with
    | addNode i n =>
      refine h.alters (alters_addNode h.separated hi n) fun g hg => ?_
      obtain ⟨hholds, hu⟩ := h.each i g hg
      exact ⟨hholds.addNode h.separated hi, hu.addNode n⟩
    | addEdge i a b =>
      refine h.alters (alters_addEdge h.separated hi a b) fun g hg => ?_
      obtain ⟨hholds, hu⟩ := h.each i g hg
      exact ⟨hholds.addEdge h.separated hi, hu.addEdge a b⟩
    | removeNode i n =>
      refine h.alters (alters_removeNode h.separated hi n) fun g hg => ?_
      obtain ⟨hholds, hu⟩ := h.each i g hg
      exact ⟨hholds.removeNode h.separated hi hu, hu.removeNode n⟩
    | copy i =>
      obtain ⟨g, hg⟩ : ∃ g, gs[i]? = some g := ⟨_, List.getElem?_eq_getElem (h.length_graphs ▸ hi)⟩
      obtain ⟨hholds, hu⟩ := h.each i g hg
      rw [GraphCall.onValues, hg]
      exact h.gains (gains_copy h.separated hi hholds) hu
  · rwa [GraphCall.onValues_of_length_le (h.length_graphs ▸ Nat.le_of_not_lt hi)]

/-- After any calls the graphs in memory are those that the calls make of values. -/
lemma stores_run (calls : List GraphCall) : (run calls).Stores (GraphCall.values calls) := by
  have hseparated : (⟨[], []⟩ : Memory).Separated := ⟨nofun, nofun⟩
  have hempty : (⟨[], []⟩ : Memory).Stores [] :=
    ⟨hseparated, rfl, nofun⟩
  have hinitial : initial.Stores [.empty] :=
    hempty.gains (gains_create hseparated) Interference.undirected_empty
  unfold run GraphCall.values
  induction calls using List.reverseRecOn with
  | nil => exact hinitial
  | append_singleton calls c ih =>
    rw [List.foldl_append, List.foldl_append]
    exact ih.perform c

lemma view_eq_ofSets (m : Memory) (i : Nat) :
    m.view i = .ofSets (m.nodes i) (m.keys i) (m.neighbours i) := rfl

/-- What is seen of a graph in memory is what is seen of its value. -/
lemma Stores.view_eq (h : m.Stores gs) (i : Nat) : m.view i = (gs[i]?.getD .empty).view := by
  suffices hsame : m.nodes i = (gs[i]?.getD .empty).nodes ∧ m.keys i = (gs[i]?.getD .empty).nodes ∧
      m.neighbours i = (gs[i]?.getD .empty).adjacent by
    obtain ⟨hnodes, hkeys, hadjacent⟩ := hsame
    rw [view_eq_ofSets, hnodes, hkeys, hadjacent]
    rfl
  cases hg : gs[i]? with
  | some g =>
    have hholds := (h.each i g hg).1
    exact ⟨congrArg (Option.getD · ∅) (hholds .nodes), hholds.keys_eq h.separated,
      funext hholds.neighbours_eq⟩
  | none =>
    have hi : m.graphs[i]? = none := by
      rw [List.getElem?_eq_none_iff] at hg ⊢
      rwa [h.length_graphs]
    have hnone : ∀ p, m.content? i p = none := fun p => by rw [content?, address?, hi]; rfl
    refine ⟨?_, ?_, funext fun n => ?_⟩
    · rw [nodes, hnone]
      rfl
    · rw [keys, hi]
      rfl
    · rw [neighbours, hnone]
      rfl

end Memory

/-! ### Well-formed graphs -/

namespace GraphView

/-- A graph whose keys are its nodes, with edges between different nodes that are seen from both
ends, and whose degrees count them. -/
structure WellFormed (v : GraphView) : Prop where
  keys_eq : v.keys = v.nodes
  mem_nodes : ∀ a b, b ∈ v.neighbours a → b ∈ v.nodes
  hasEdge_comm : ∀ a b, v.hasEdge a b = v.hasEdge b a
  hasEdge_self : ∀ a, v.hasEdge a a = false
  degree_eq : ∀ n, v.degree n = {b | v.hasEdge n b = true}.ncard

/-- `w` is what `v` induces on the nodes other than `n`. -/
structure IsWithout (v : GraphView) (n : String) (w : GraphView) : Prop where
  nodes_eq : w.nodes = v.nodes.erase n
  hasEdge_iff : ∀ a b, w.hasEdge a b = true ↔ v.hasEdge a b = true ∧ a ≠ n ∧ b ≠ n

end GraphView

namespace Interference
variable {g : Interference}

lemma Undirected.wellFormed_view (h : g.Undirected) : g.view.WellFormed where
  keys_eq := rfl
  mem_nodes _ _ := h.mem_nodes
  hasEdge_comm := h.hasEdge_comm
  hasEdge_self a := Bool.eq_false_iff.mpr fun ha => h.irrefl a (OrdSet.contains_iff.mp ha)
  degree_eq := g.degree_eq_ncard

lemma isWithout_removeNode (g : Interference) (n : String) :
    g.view.IsWithout n (g.removeNode n).view where
  nodes_eq := g.nodes_removeNode n
  hasEdge_iff a b := by
    simp only [view, hasEdge, OrdSet.contains_iff]
    exact mem_adjacent_removeNode

end Interference

/-- Whatever is called on graphs in memory, from one without nodes on: every graph is well formed,
and looks as if graphs were values; removing a node leaves the graph that is induced on the others;
a copy goes on to look as its original did when it was made, and so does every graph, as long as
it is not itself called on to change. -/
theorem stored_graphs_wellFormed (calls : List GraphCall) :
    let m := Memory.run calls
    (∀ i, (m.view i).WellFormed) ∧
    (∀ i, m.view i = ((GraphCall.values calls)[i]?.getD .empty).view) ∧
    (∀ i n, (m.view i).IsWithout n ((Memory.run (calls ++ [.removeNode i n])).view i)) ∧
    (∀ i later, i < m.graphs.length → (∀ c ∈ later, c.Spares m.graphs.length) →
      (Memory.run (calls ++ .copy i :: later)).view m.graphs.length = m.view i) ∧
    (∀ i later, i < m.graphs.length → (∀ c ∈ later, c.Spares i) →
      (Memory.run (calls ++ later)).view i = m.view i) := by
  intro m
  have hm := Memory.stores_run calls
  have hview := fun calls => (Memory.stores_run calls).view_eq
  have hframe : ∀ calls later i, i < (GraphCall.values calls).length →
      (∀ c ∈ later, c.Spares i) →
      (Memory.run (calls ++ later)).view i = (Memory.run calls).view i := by
    intro calls later i hi hlater
    rw [hview, hview, GraphCall.getElem?_values_append hi hlater]
  refine ⟨fun i => ?_, hview calls, fun i n => ?_, fun i later hi hlater => ?_,
    fun i later hi hlater => hframe calls later i (hm.length_graphs ▸ hi) hlater⟩
  · rw [hview]
    cases hg : (GraphCall.values calls)[i]? with
    | some g => exact (hm.each i g hg).2.wellFormed_view
    | none => exact Interference.undirected_empty.wellFormed_view
  · rw [hview, hview, GraphCall.values_concat, GraphCall.onValues, List.getElem?_modify_eq]
    cases (GraphCall.values calls)[i]? with
    | some g => exact g.isWithout_removeNode n
    | none => exact Interference.empty.isWithout_removeNode n
  · have hcopy := GraphCall.values_concat calls (.copy i)
    obtain ⟨g, hg⟩ : ∃ g, (GraphCall.values calls)[i]? = some g :=
      ⟨_, List.getElem?_eq_getElem (hm.length_graphs ▸ hi)⟩
    rw [GraphCall.onValues, hg, Option.toList_some] at hcopy
    rw [hm.length_graphs] at hlater ⊢
    rw [List.append_cons, hframe _ later _ (by rw [hcopy]; simp) hlater, hview, hview, hcopy,
      List.getElem?_concat_length, hg]

/-- The copy of a path of three nodes still has both edges when the middle has been removed from
the original. -/
theorem stored_graphs_wellFormed_path :
    let calls : List GraphCall := [.addEdge 0 "a" "b", .addEdge 0 "b" "c"]
    let after := Memory.run (calls ++ .copy 0 :: [.removeNode 0 "b", .addNode 0 "d"])
    (after.view 1).hasEdge "a" "b" = true ∧ (after.view 1).degree "b" = 2 ∧
    (after.view 0).WellFormed ∧ (after.view 0).nodes.toList = ["a", "c", "d"] ∧
    (after.view 0).hasEdge "a" "b" = false := by
  intro calls after
  have hlength : (Memory.run calls).graphs.length = 1 := by decide +kernel
  obtain ⟨-, -, -, hcopies, -⟩ := stored_graphs_wellFormed calls
  have hcopy := hcopies 0 [.removeNode 0 "b", .addNode 0 "d"] (by rw [hlength]; decide)
    (by rw [hlength]; simp [GraphCall.Spares])
  have hformed := (stored_graphs_wellFormed
    (calls ++ .copy 0 :: [.removeNode 0 "b", .addNode 0 "d"])).1 0
  rw [hlength] at hcopy
  change (after.view 1) = _ at hcopy
  rw [hcopy]
  exact ⟨by decide +kernel, by decide +kernel, hformed, by decide +kernel, by decide +kernel⟩

end MipsBackend
