import MipsBackend.Proofs.StoredGraphs

/-! Colouring with the graph in memory. A copy of the graph is taken apart, and then the colours are
chosen by what the graph itself says about neighbours. This comes to the same as on values, since
none of the graphs that were in memory before sees anything of it. -/
namespace MipsBackend

namespace Memory
variable {m m' : Memory} {i : Nat} {g : Interference} {k : Int} {n : String}

/-- The graph at `i` as a value. -/
def graph (m : Memory) (i : Nat) : Interference :=
  ⟨OrdMap.ofList ((m.keys i).toList.map fun n => (n, m.neighbours i n))⟩

/-- Take up to `fuel` nodes out of the graph at `i`, each chosen from what is left of it. -/
def removals (k : Int) (i : Nat) : Nat → Memory → List Removal × Memory
  | 0, m => ([], m)
  | fuel + 1, m =>
    match (m.graph i).nextRemoval k with
    | none => ([], m)
    | some r =>
      let rest := removals k i fuel (m.removeNode i r.node)
      (r :: rest.1, rest.2)

lemma Holds.graph_eq (h : m.Separated) (hg : m.Holds i g) : m.graph i = g := by
  have hnodup : (((m.keys i).toList.map fun n => (n, m.neighbours i n)).map Prod.fst).Nodup := by
    rw [List.map_map]
    exact (List.map_id _).symm ▸ (m.keys i).nodup_toList
  refine congrArg Interference.mk (OrdMap.ext_get? fun n => Option.ext fun s => ?_)
  rw [OrdMap.get?_ofList_eq_some_iff hnodup, hg.keys_eq h]
  have hpart := g.part?_neighbours n
  rw [Interference.part?] at hpart
  rw [hpart]
  simp only [List.mem_map, OrdSet.mem_toList, Prod.mk.injEq, hg.neighbours_eq]
  constructor
  · rintro ⟨x, hx, rfl, rfl⟩
    exact if_pos hx
  · intro hs
    split_ifs at hs with hn
    exact ⟨n, hn, rfl, Option.some.inj hs⟩

lemma view_congr (h : m.Separated) (h' : m'.Separated)
    (hsame : ∀ q, m'.content? i q = m.content? i q) : m'.view i = m.view i := by
  have hnodes : m'.nodes i = m.nodes i := congrArg (Option.getD · ∅) (hsame .nodes)
  have hneighbours : m'.neighbours i = m.neighbours i :=
    funext fun n => congrArg (Option.getD · ∅) (hsame (.neighbours n))
  have hkeys : m'.keys i = m.keys i := OrdSet.ext fun n => by rw [mem_keys h, mem_keys h', hsame]
  rw [view_eq_ofSets, view_eq_ofSets, hnodes, hkeys, hneighbours]

/-! ### Taking a copy apart -/

lemma Gains.lt_length (h : m.Gains g m') : m.graphs.length < m'.graphs.length := by
  rw [h.length_graphs]
  exact Nat.lt_succ_self _

lemma Gains.removeNode (h : m.Gains g m') (hg : g.Undirected) (n : String) :
    m.Gains (g.removeNode n) (m'.removeNode m.graphs.length n) :=
  h.alters (alters_removeNode h.separated h.lt_length n)
    (h.holds.removeNode h.separated h.lt_length hg)

lemma Gains.removeAll (h : m.Gains g m') (hg : g.Undirected) (ns : List String) :
    m.Gains (g.removeAll ns) (ns.foldl (fun m' n => m'.removeNode m.graphs.length n) m') := by
  induction ns generalizing g m' with
  | nil => exact h
  | cons n ns ih => exact ih (h.removeNode hg n) (hg.removeNode n)

/-- The nodes are chosen as on values. -/
lemma Gains.removals (h : m.Gains g m') (hg : g.Undirected) (fuel : Nat) :
    (Memory.removals k m.graphs.length fuel m').1 = Interference.removals k fuel g ∧
      m.Gains (g.removeAll ((Interference.removals k fuel g).map Removal.node))
        (Memory.removals k m.graphs.length fuel m').2 := by
  induction fuel generalizing g m' with
  | zero => exact ⟨rfl, h⟩
  | succ fuel ih =>
    rw [Memory.removals, Interference.removals, h.holds.graph_eq h.separated]
    cases g.nextRemoval k with
    | none => exact ⟨rfl, h⟩
    | some r =>
      obtain ⟨hrest, hgains⟩ := ih (h.removeNode hg r.node) (hg.removeNode r.node)
      exact ⟨congrArg (r :: ·) hrest, hgains⟩

end Memory

/-! ### Runs of an allocator -/

/-- Webs that carry their colours, with their graph in memory. -/
structure StoredAllocator where
  memory : Memory
  /-- Where the graph is. -/
  place : Nat
  webs : NameMap ColoredWeb
  k : Int
  spilled : NameSet := ∅

namespace StoredAllocator
variable {s : StoredAllocator} {a : Allocator} {n : String} {ns : List String} {m : Memory}

/-- The allocator with the graph as a value. -/
def value (s : StoredAllocator) : Allocator := ⟨s.memory.graph s.place, s.webs, s.k, s.spilled⟩

/-- Do with the webs what is done on values. -/
def lift (f : Allocator → Allocator) (s : StoredAllocator) : StoredAllocator :=
  { s with webs := (f s.value).webs, spilled := (f s.value).spilled }

/-- Copy the graph and take the float webs out of the copy. -/
def prepare (s : StoredAllocator) : Memory :=
  s.value.plain.floats.foldl (fun m n => m.removeNode s.memory.graphs.length n)
    (s.memory.copy s.place)

/-- Take the copy apart. -/
def simplify (s : StoredAllocator) : List Removal × Memory :=
  Memory.removals s.k s.memory.graphs.length (s.prepare.nodes s.memory.graphs.length).size s.prepare

/-- Colour the webs anew. What is taken apart is the copy, while colours are chosen by the
neighbours in the graph. -/
def allocate (s : StoredAllocator) : StoredAllocator :=
  (s.simplify.1.map Removal.node).reverse.foldl (fun s n => s.lift (·.select n))
    { s.lift Allocator.reset with memory := s.simplify.2 }

/-- The same allocator, with its graph in memory. -/
structure Represents (s : StoredAllocator) (a : Allocator) : Prop where
  separated : s.memory.Separated
  bound : s.place < s.memory.graphs.length
  holds : s.memory.Holds s.place a.graph
  webs : s.webs = a.webs
  k : s.k = a.k
  spilled : s.spilled = a.spilled

lemma Represents.value_eq (h : s.Represents a) : s.value = a := by
  rw [value, h.holds.graph_eq h.separated, h.webs, h.k, h.spilled]

lemma Represents.lift {f : Allocator → Allocator} (h : s.Represents a)
    (hgraph : (f a).graph = a.graph) (hk : (f a).k = a.k) : (s.lift f).Represents (f a) where
  separated := h.separated
  bound := h.bound
  holds := hgraph ▸ h.holds
  webs := congrArg (fun b => (f b).webs) h.value_eq
  k := h.k.trans hk.symm
  spilled := congrArg (fun b => (f b).spilled) h.value_eq

lemma Represents.foldl_select (h : s.Represents a) (ns : List String) :
    (ns.foldl (fun s n => s.lift (·.select n)) s).Represents (ns.foldl Allocator.select a) := by
  induction ns generalizing s a with
  | nil => exact h
  | cons n ns ih => exact ih (h.lift Allocator.graph_select Allocator.k_select)

/-- Another graph in memory makes no difference. -/
lemma Represents.gains {g : Interference} (h : s.Represents a) (hm : s.memory.Gains g m) :
    { s with memory := m : StoredAllocator }.Represents a where
  separated := hm.separated
  bound := h.bound.trans hm.lt_length
  holds p := (hm.others s.place p h.bound).trans (h.holds p)
  webs := h.webs
  k := h.k
  spilled := h.spilled

lemma memory_foldl_lift (f : String → Allocator → Allocator) (s : StoredAllocator)
    (ns : List String) : (ns.foldl (fun s n => s.lift (f n)) s).memory = s.memory := by
  induction ns generalizing s with
  | nil => rfl
  | cons n ns ih => exact ih _

lemma Represents.gains_prepare (h : s.Represents a) (hg : a.graph.Undirected) :
    s.memory.Gains a.work s.prepare := by
  rw [prepare, h.value_eq]
  exact (Memory.gains_copy h.separated h.bound h.holds).removeAll hg a.plain.floats

/-- The copy is taken apart as the value is, until no node is left. -/
lemma Represents.simplify (h : s.Represents a) (hg : a.graph.Undirected) :
    s.simplify.1 = a.work.eliminate a.k ∧
      s.memory.Gains (a.work.removeAll ((a.work.eliminate a.k).map Removal.node)) s.simplify.2 := by
  have hprepare := h.gains_prepare hg
  have hnodes : s.prepare.nodes s.memory.graphs.length = a.work.nodes :=
    congrArg (Option.getD · ∅) (hprepare.holds .nodes)
  rw [StoredAllocator.simplify, hnodes, h.k]
  exact hprepare.removals (hg.removeAll a.plain.floats) _

lemma Represents.allocate (h : s.Represents a) (hg : a.graph.Undirected) :
    s.allocate.Represents a.allocate := by
  obtain ⟨hremovals, hgains⟩ := h.simplify hg
  unfold StoredAllocator.allocate
  rw [hremovals]
  exact ((h.lift (f := Allocator.reset) rfl rfl).gains hgains).foldl_select a.order

lemma memory_allocate (s : StoredAllocator) : s.allocate.memory = s.simplify.2 :=
  memory_foldl_lift (fun n => (·.select n)) ..

/-- A run leaves the graphs that were in memory as they were. -/
lemma Represents.view_allocate (h : s.Represents a) (hg : a.graph.Undirected) {j : Nat}
    (hj : j < s.memory.graphs.length) : s.allocate.memory.view j = s.memory.view j := by
  obtain ⟨-, hgains⟩ := h.simplify hg
  rw [memory_allocate]
  exact Memory.view_congr h.separated hgains.separated fun q => hgains.others j q hj

/-- The copy has no nodes left. -/
lemma Represents.nodes_allocate (h : s.Represents a) (hg : a.graph.Undirected) :
    s.allocate.memory.nodes s.memory.graphs.length = ∅ := by
  obtain ⟨-, hgains⟩ := h.simplify hg
  rw [memory_allocate, ← Interference.nodes_removeAll_eliminate (g := a.work) (k := a.k)]
  exact congrArg (Option.getD · ∅) (hgains.holds .nodes)

end StoredAllocator

/-- Colouring webs, whatever their colours were before, colours them greedily. Taking the graph
apart for it comes to an end with no node left, the graph and all else about the webs stay as they
are, and the earlier colours have no influence. If the graph is in memory, and its copy is what is
taken apart, then the run gives the same, the copy ends up without nodes, and the graph looks as
before, as do all others that were there. -/
theorem allocate_colors_greedily (a : Allocator) (hg : a.graph.Undirected)
    (hnodes : a.graph.nodes = a.webs.keys) :
    a.allocate.Greedy ∧ a.allocate.graph = a.graph ∧ a.allocate.k = a.k ∧
      a.allocate.plain = a.plain ∧
    (∀ b : Allocator, b.graph = a.graph → b.k = a.k → b.plain = a.plain →
      b.allocate = a.allocate) ∧
    (∀ fuel, a.work.nodes.size ≤ fuel →
      Interference.removals a.k fuel a.work = a.work.eliminate a.k) ∧
    (a.work.removeAll ((a.work.eliminate a.k).map Removal.node)).nodes = ∅ ∧
    ∀ s : StoredAllocator, s.Represents a →
      s.allocate.Represents a.allocate ∧
      s.allocate.memory.nodes s.memory.graphs.length = ∅ ∧
      ∀ j < s.memory.graphs.length, s.allocate.memory.view j = s.memory.view j := by
  refine ⟨Allocator.greedy_allocate hg hnodes, Allocator.graph_allocate, Allocator.k_allocate,
    Allocator.plain_allocate, ?_, fun fuel => Interference.removals_of_le,
    Interference.nodes_removeAll_eliminate, fun s hs =>
      ⟨hs.allocate hg, hs.nodes_allocate hg, fun j => hs.view_allocate hg⟩⟩
  intro b hgraph hk hplain
  rw [Allocator.allocate, Allocator.allocate, Allocator.reset_congr hgraph hk hplain,
    Allocator.order, Allocator.order, Allocator.work, Allocator.work, hgraph, hk, hplain]

/-- Calls that make three webs that meet each other, and one of a float variable. -/
def triangleCalls : List GraphCall :=
  [.addEdge 0 "a" "b", .addEdge 0 "b" "c", .addEdge 0 "a" "c", .addNode 0 "x"]

/-- The webs of the triangle with colours from a run with more of them. -/
def triangleAllocator : Allocator where
  graph := (((Interference.empty.addEdge "a" "b").addEdge "b" "c").addEdge "a" "c").addNode "x"
  webs := OrdMap.ofList [
    ("a", { isFloat := false, points := ∅, color := some 2 }),
    ("b", { isFloat := false, points := ∅, color := some 1 }),
    ("c", { isFloat := false, points := ∅, color := some 0 }),
    ("x", { isFloat := true, points := ∅, color := some 0 })]
  k := 2

/-- The same with the graph in memory. -/
def triangleStored : StoredAllocator where
  memory := .run triangleCalls
  place := 0
  webs := triangleAllocator.webs
  k := 2

theorem allocate_colors_triangle :
    triangleAllocator.graph.Undirected ∧
      triangleAllocator.graph.nodes = triangleAllocator.webs.keys ∧
      triangleAllocator.allocate.Greedy ∧
      triangleAllocator.reset.allocate = triangleAllocator.allocate ∧
      triangleStored.Represents triangleAllocator ∧
      triangleStored.allocate.webs = triangleAllocator.allocate.webs ∧
      triangleStored.allocate.memory.nodes 1 = ∅ ∧
      triangleStored.allocate.memory.view 0 = triangleStored.memory.view 0 := by
  have hstores := Memory.stores_run triangleCalls
  obtain ⟨hholds, hg⟩ := hstores.each 0 triangleAllocator.graph rfl
  have hlength : triangleStored.memory.graphs.length = 1 := hstores.length_graphs
  have hnodes : triangleAllocator.graph.nodes = triangleAllocator.webs.keys := by decide +kernel
  have hrep : triangleStored.Represents triangleAllocator :=
    ⟨hstores.separated, hlength ▸ Nat.one_pos, hholds, rfl, rfl, rfl⟩
  obtain ⟨hgreedy, -, -, -, hcolors, -, -, hstored⟩ :=
    allocate_colors_greedily triangleAllocator hg hnodes
  obtain ⟨hrun, hcopy, hview⟩ := hstored triangleStored hrep
  rw [hlength] at hcopy hview
  exact ⟨hg, hnodes, hgreedy, hcolors triangleAllocator.reset rfl rfl Allocator.plain_reset, hrep,
    hrun.webs, hcopy, hview 0 Nat.one_pos⟩

example : triangleAllocator.allocate.colors.entries = [("b", 1), ("c", 0)] ∧
    triangleAllocator.allocate.spilled.toList = ["a", "x"] := by decide +kernel

end MipsBackend
