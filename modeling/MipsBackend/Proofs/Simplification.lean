import MipsBackend.Proofs.Greedy

/-! Simplification. Taking nodes out of a graph only lowers the degrees of the others, so it does
not matter which node of low degree goes first: if the nodes can go in some order in which each has
fewer than `k` neighbours left, taking the lowest name first finds such an order too. A node that
had fewer than `k` neighbours left finds a colour when its turn comes, since no other neighbours are
coloured by then. -/
namespace MipsBackend
namespace Interference
variable {g : Interference} {k : Int} {n m : String} {ns : List String} {fuel : Nat} {r : Removal}
  {before after : List Removal}

/-- Every name of the list is followed by fewer than `k` of its neighbours. -/
def Simplifies (g : Interference) (k : Int) (order : List String) : Prop :=
  ∀ before n after, order = before ++ n :: after → (after.countP (g.hasEdge n) : Int) < k

lemma simplifies_nil : g.Simplifies k [] := by
  intro before n after h
  simp at h

lemma simplifies_cons :
    g.Simplifies k (n :: ns) ↔ (ns.countP (g.hasEdge n) : Int) < k ∧ g.Simplifies k ns := by
  constructor
  · intro h
    refine ⟨h [] n ns rfl, fun before m after hns => ?_⟩
    exact h (n :: before) m after (congrArg (n :: ·) hns)
  · rintro ⟨hfirst, hrest⟩ before m after h
    cases before with
    | nil =>
      cases h
      exact hfirst
    | cons x before =>
      cases h
      exact hrest before m after rfl

instance decidableSimplifies (g : Interference) (k : Int) :
    (order : List String) → Decidable (g.Simplifies k order)
  | [] => .isTrue simplifies_nil
  | n :: ns =>
    have := decidableSimplifies g k ns
    decidable_of_iff ((ns.countP (g.hasEdge n) : Int) < k ∧ g.Simplifies k ns) simplifies_cons.symm

/-! ### What is left of a graph -/

lemma mem_adjacent_removeAll :
    m ∈ (g.removeAll ns).adjacent n ↔ m ∈ g.adjacent n ∧ n ∉ ns ∧ m ∉ ns := by
  unfold removeAll
  induction ns generalizing g with
  | nil => simp
  | cons x ns ih =>
    rw [List.foldl_cons, ih, adjacent_removeNode]
    by_cases hn : n = x
    · simp [hn]
    · simp [hn]
      tauto

lemma removeAll_append (ms : List String) :
    g.removeAll (ns ++ ms) = (g.removeAll ns).removeAll ms :=
  List.foldl_append

/-- Only nodes have neighbours, so a neighbour is a node. -/
lemma Undirected.mem_nodes (hg : g.Undirected) (h : m ∈ g.adjacent n) : m ∈ g.nodes := by
  have hn := hg.symm n m h
  apply OrdMap.mem_keys_iff.mpr
  cases hm : g.neighbours.get? m with
  | some s => exact ⟨s, rfl⟩
  | none =>
    rw [adjacent, OrdMap.getD, hm] at hn
    exact absurd hn (OrdSet.not_mem_empty n)

/-! ### The order of removal -/

/-- A node is chosen for its low degree, or because no node has a low one. -/
lemma nextRemoval_eq_some (h : g.nextRemoval k = some r) :
    r.forced = false ∧ (g.degree r.node : Int) < k ∨
      r.forced = true ∧ ∀ m ∈ g.nodes, k ≤ (g.degree m : Int) := by
  unfold nextRemoval at h
  split at h
  · next x hx =>
    cases h
    exact Or.inl ⟨rfl, by simpa using List.find?_some hx⟩
  · next hnone =>
    split at h
    · cases h
    · cases h
      refine Or.inr ⟨rfl, fun m hm => ?_⟩
      have hhigh := List.find?_eq_none.mp hnone m hm
      simpa using hhigh

lemma removals_eq_cons (h : removals k fuel g = r :: after) :
    g.nextRemoval k = some r ∧ ∃ fuel', after = removals k fuel' (g.removeNode r.node) := by
  cases fuel with
  | zero => cases h
  | succ fuel =>
    rw [removals] at h
    split at h
    · cases h
    · next q hq =>
      cases h
      exact ⟨hq, fuel, rfl⟩

/-- Each node is chosen from what the removals before it have left of the graph, and so are those
that come after it. -/
lemma removals_eq_append (h : removals k fuel g = before ++ r :: after) :
    (g.removeAll (before.map Removal.node)).nextRemoval k = some r ∧
      ∃ fuel', after = removals k fuel'
        ((g.removeAll (before.map Removal.node)).removeNode r.node) := by
  induction before generalizing g fuel with
  | nil => exact removals_eq_cons h
  | cons q before ih =>
    obtain ⟨-, fuel', hrest⟩ := removals_eq_cons h
    exact ih hrest.symm

/-- Of the nodes that are left, the first in the list has fewer than `k` neighbours left: they all
come after it. -/
lemma Simplifies.exists_degree_lt {order : List String} (h : g.Simplifies k order)
    (hg : g.Undirected) (hall : ∀ x ∈ (g.removeAll ns).nodes, x ∈ order)
    (hm : m ∈ (g.removeAll ns).nodes) :
    ∃ x ∈ (g.removeAll ns).nodes, ((g.removeAll ns).degree x : Int) < k := by
  obtain ⟨x, hx⟩ : ∃ x, order.find? (g.removeAll ns).nodes.contains = some x := by
    rw [← Option.isSome_iff_exists, List.find?_isSome]
    exact ⟨m, hall m hm, OrdSet.contains_iff.mpr hm⟩
  obtain ⟨hleft, before, after, rfl, hbefore⟩ := List.find?_eq_some_iff_append.mp hx
  have hlater : ∀ y ∈ ((g.removeAll ns).adjacent x).toList, y ∈ after.filter (g.hasEdge x) := by
    intro y hy
    obtain ⟨hedge, -, hyns⟩ := mem_adjacent_removeAll.mp hy
    have hynodes := mem_nodes_removeAll.mpr ⟨hg.mem_nodes hedge, hyns⟩
    have hyx : y ≠ x := by
      rintro rfl
      exact hg.irrefl y hedge
    have hybefore : y ∉ before := by
      intro hmem
      have hgone := hbefore y hmem
      rw [OrdSet.contains_iff.mpr hynodes] at hgone
      cases hgone
    have hyorder := hall y hynodes
    rw [List.mem_append, List.mem_cons] at hyorder
    refine List.mem_filter.mpr ⟨?_, OrdSet.contains_iff.mpr hedge⟩
    exact (hyorder.resolve_left hybefore).resolve_left hyx
  have hdegree : (g.removeAll ns).degree x ≤ after.countP (g.hasEdge x) := by
    rw [List.countP_eq_length_filter]
    exact ((OrdSet.nodup_toList _).subperm hlater).length_le
  have hfew := h before x after rfl
  exact ⟨x, OrdSet.contains_iff.mp hleft, by omega⟩

/-! ### Colours for nodes of low degree -/

lemma lowestFree_le (used : List Nat) : lowestFree used ≤ used.length := by
  unfold lowestFree
  cases h : (List.range (used.length + 1)).find? fun c => !used.contains c with
  | none => exact Nat.le_refl _
  | some c =>
    have hc := List.mem_range.mp (List.mem_of_find?_eq_some h)
    exact Nat.le_of_lt_succ hc

/-- Fewer than `k` coloured neighbours leave a colour free. -/
lemma exists_freeColor {colors : Colors} (h : ((g.taken colors n).length : Int) < k) :
    ∃ c, g.freeColor k colors n = some c := by
  have hle := lowestFree_le (g.taken colors n)
  refine ⟨lowestFree (g.taken colors n), ?_⟩
  rw [freeColor]
  exact if_pos (by omega)

/-- A node finds a colour if fewer than `k` neighbours have their turn before it. -/
lemma exists_get?_colorAll {earlier later : List String} (hnodup : (earlier ++ n :: later).Nodup)
    (hfew : ((g.adjacent n).toList.countP (earlier.contains ·) : Int) < k) :
    ∃ c, (g.colorAll k (earlier ++ n :: later)).get? n = some c := by
  obtain ⟨-, hlater, hapart⟩ := List.nodup_append.mp hnodup
  have hcolored : ∀ m, ((g.colorAll k earlier).get? m).isSome = true →
      earlier.contains m = true := by
    intro m hm
    obtain ⟨c, hc⟩ := Option.isSome_iff_exists.mp hm
    exact List.contains_iff_mem.mpr (get?_colorAll hc).1
  have hfresh : (g.colorAll k earlier).get? n = none := by
    rw [← Option.not_isSome_iff_eq_none]
    intro hsome
    exact hapart n (List.contains_iff_mem.mp (hcolored n hsome)) n List.mem_cons_self rfl
  have htaken : (g.taken (g.colorAll k earlier) n).length ≤
      (g.adjacent n).toList.countP (earlier.contains ·) := by
    rw [taken, List.length_filterMap_eq_countP]
    exact List.countP_mono_left fun m _ hm => hcolored m hm
  have hroom : ((g.taken (g.colorAll k earlier) n).length : Int) < k := by omega
  obtain ⟨c, hc⟩ := exists_freeColor hroom
  refine ⟨c, ?_⟩
  rw [colorAll, List.foldl_append, List.foldl_cons,
    get?_foldl_colorNode_of_not_mem (List.nodup_cons.mp hlater).1]
  exact (get?_colorNode_self hfresh).trans hc

/-- A node finds a colour if it had fewer than `k` neighbours left when it was removed: the others
have their turn after it. -/
lemma exists_color_of_degree_lt {excluded : List String}
    (h : (g.removeAll excluded).eliminate k = before ++ r :: after)
    (hlow :
      (((g.removeAll excluded).removeAll (before.map Removal.node)).degree r.node : Int) < k) :
    ∃ c, (g.colorAll k (((g.removeAll excluded).eliminate k).map Removal.node).reverse).get?
      r.node = some c := by
  obtain ⟨hnext, fuel', hafter⟩ := removals_eq_append h
  rw [← removeAll_append] at hlow hnext hafter
  have hnodup : (((g.removeAll excluded).eliminate k).map Removal.node).reverse.Nodup :=
    List.nodup_reverse.mpr nodup_removals
  rw [h, List.map_append, List.map_cons, List.reverse_append, List.reverse_cons, List.append_assoc,
    List.singleton_append] at hnodup ⊢
  apply exists_get?_colorAll hnodup
  have hleft : ∀ m ∈ (g.adjacent r.node).toList.filter
      ((after.map Removal.node).reverse.contains ·),
      m ∈ ((g.removeAll (excluded ++ before.map Removal.node)).adjacent r.node).toList := by
    intro m hm
    obtain ⟨hedge, hm⟩ := List.mem_filter.mp hm
    obtain ⟨q, hq, rfl⟩ := List.mem_map.mp (List.mem_reverse.mp (List.contains_iff_mem.mp hm))
    rw [hafter] at hq
    have hqnode := (mem_nodes_removeNode.mp (node_mem_of_mem_removals hq)).1
    exact mem_adjacent_removeAll.mpr ⟨hedge,
      (mem_nodes_removeAll.mp (node_mem_of_nextRemoval hnext)).2,
      (mem_nodes_removeAll.mp hqnode).2⟩
  have hle := (((OrdSet.nodup_toList _).filter _).subperm hleft).length_le
  rw [← List.countP_eq_length_filter] at hle
  rw [degree, OrdSet.size] at hlow
  omega

/-- If some order simplifies the graph, no removal is forced. -/
lemma Simplifies.forced_eq_false {order : List String} (h : g.Simplifies k order)
    (hg : g.Undirected) (excluded : List String)
    (hall : ∀ x ∈ (g.removeAll excluded).nodes, x ∈ order)
    (hr : r ∈ (g.removeAll excluded).eliminate k) : r.forced = false := by
  obtain ⟨before, after, hsplit⟩ := List.append_of_mem hr
  obtain ⟨hnext, -⟩ := removals_eq_append hsplit
  rw [← removeAll_append] at hnext
  have hall' : ∀ x ∈ (g.removeAll (excluded ++ before.map Removal.node)).nodes, x ∈ order := by
    intro x hx
    obtain ⟨hnode, hout⟩ := mem_nodes_removeAll.mp hx
    rw [List.mem_append, not_or] at hout
    exact hall x (mem_nodes_removeAll.mpr ⟨hnode, hout.1⟩)
  obtain ⟨x, hx, hlow⟩ := h.exists_degree_lt hg hall' (node_mem_of_nextRemoval hnext)
  rcases nextRemoval_eq_some hnext with ⟨hfree, -⟩ | ⟨-, hhigh⟩
  · exact hfree
  · have hk := hhigh x hx
    omega

end Interference

/-! ### Webs -/

namespace Allocator
variable {a : Allocator} {n : String} {before after : List Removal} {r : Removal}

/-- The graph at the moment when some webs have been removed. -/
def remaining (a : Allocator) (before : List Removal) : Interference :=
  a.work.removeAll (before.map Removal.node)

/-- A web that is removed for its low degree gets a colour. -/
lemma exists_color_of_unforced (hnodes : a.graph.nodes = a.webs.keys)
    (h : a.work.eliminate a.k = before ++ r :: after) (hr : r.forced = false) :
    ∃ c, a.allocate.color? r.node = some c := by
  obtain ⟨hnext, -⟩ := Interference.removals_eq_append h
  rw [← get?_colors, colors_allocate hnodes]
  apply Interference.exists_color_of_degree_lt h
  rcases Interference.nextRemoval_eq_some hnext with ⟨-, hlow⟩ | ⟨hforced, -⟩
  · exact hlow
  · rw [hr] at hforced
    cases hforced

/-- Every web that is to be coloured is removed at some moment. -/
lemma exists_removal (hn : n ∈ a.order) :
    ∃ before r after, a.work.eliminate a.k = before ++ r :: after ∧ r.node = n := by
  obtain ⟨r, hr, hnode⟩ := List.mem_map.mp (List.mem_reverse.mp hn)
  obtain ⟨before, after, hsplit⟩ := List.append_of_mem hr
  exact ⟨before, r, after, hsplit, hnode⟩

lemma color?_of_mem_spilled (hnodes : a.graph.nodes = a.webs.keys) (h : n ∈ a.allocate.spilled) :
    a.allocate.color? n = none := by
  obtain ⟨w, hw, hnone⟩ := (spilled_iff hnodes).mp h
  rw [color?, hw, Option.bind_some, hnone]

end Allocator

/-- Colouring webs spills none without need. If the webs that are not of float variables can be
listed so that each is followed by fewer than `k` of its neighbours, they all get colours, in
whatever order they are removed. In general, such a web that is spilled was removed as a candidate
for it, when each web that was left had `k` neighbours left or more. -/
theorem allocate_spills_only_candidates (a : Allocator) (hgraph : a.graph = a.plain.interference) :
    (∀ order : List String,
      (∀ n, n ∈ order ↔ ∃ w, a.webs.get? n = some w ∧ w.isFloat = false) →
      a.graph.Simplifies a.k order → ∀ n ∈ order, ∃ c, a.allocate.color? n = some c) ∧
    ∀ n w, a.webs.get? n = some w → w.isFloat = false → n ∈ a.allocate.spilled →
      ∃ before r after, a.work.eliminate a.k = before ++ r :: after ∧ r.node = n ∧
        r.forced = true ∧
        ∀ m ∈ (a.remaining before).nodes, a.k ≤ ((a.remaining before).degree m : Int) := by
  have hg : a.graph.Undirected := by
    rw [hgraph]
    exact Webs.undirected_interference
  have hnodes : a.graph.nodes = a.webs.keys := by
    rw [hgraph, ← Allocator.keys_plain]
    exact OrdSet.ext fun n => Webs.mem_nodes_interference
  constructor
  · intro order hlist horder n hn
    have hmem : ∀ m, m ∈ a.order ↔ m ∈ order := fun m =>
      (Allocator.mem_order hnodes).trans (hlist m).symm
    obtain ⟨before, r, after, hsplit, rfl⟩ := Allocator.exists_removal ((hmem n).mpr hn)
    apply Allocator.exists_color_of_unforced hnodes hsplit
    apply horder.forced_eq_false hg a.plain.floats
    · intro x hx
      apply (hmem x).mp
      exact List.mem_reverse.mpr (Interference.mem_eliminate_iff.mpr hx)
    · exact hsplit ▸ List.mem_append_right before List.mem_cons_self
  · intro n w hw hfloat hspilled
    have horder := (Allocator.mem_order hnodes).mpr ⟨w, hw, hfloat⟩
    obtain ⟨before, r, after, hsplit, rfl⟩ := Allocator.exists_removal horder
    have hforced : r.forced = true := by
      by_contra hfree
      obtain ⟨c, hc⟩ := Allocator.exists_color_of_unforced hnodes hsplit (by simpa using hfree)
      rw [Allocator.color?_of_mem_spilled hnodes hspilled] at hc
      cases hc
    refine ⟨before, r, after, hsplit, rfl, hforced, ?_⟩
    rcases Interference.nextRemoval_eq_some (Interference.removals_eq_append hsplit).1 with
      ⟨hfree, -⟩ | ⟨-, hhigh⟩
    · rw [hfree] at hforced
      cases hforced
    · exact hhigh

/-- Three webs that meet each other, and one of a float variable that meets them all. -/
def meetingWebs : Webs := OrdMap.ofList [
  ("a", { isFloat := false, points := OrdSet.ofList [0, 1] }),
  ("b", { isFloat := false, points := OrdSet.ofList [1, 2] }),
  ("c", { isFloat := false, points := OrdSet.ofList [0, 2] }),
  ("x", { isFloat := true, points := OrdSet.ofList [0, 1, 2] })]

abbrev meetingAllocator (k : Int) : Allocator := .ofWebs meetingWebs k

/-- With three colours the webs can be listed from the last name to the first, though they are
removed from the first to the last, and each gets a colour. With two colours the first is spilled,
when all had two neighbours left. -/
theorem allocate_spills_only_candidates_meeting :
    (meetingAllocator 3).graph.Simplifies 3 ["c", "b", "a"] ∧
    ((meetingAllocator 3).work.eliminate 3).map Removal.node = ["a", "b", "c"] ∧
    (∀ n ∈ ["c", "b", "a"], ∃ c, (meetingAllocator 3).allocate.color? n = some c) ∧
    "a" ∈ (meetingAllocator 2).allocate.spilled ∧
    ∃ before r after, (meetingAllocator 2).work.eliminate 2 = before ++ r :: after ∧
      r.node = "a" ∧ r.forced = true ∧
      ∀ m ∈ ((meetingAllocator 2).remaining before).nodes,
        2 ≤ (((meetingAllocator 2).remaining before).degree m : Int) := by
  have hgraph : ∀ k, (meetingAllocator k).graph = (meetingAllocator k).plain.interference := by
    intro k
    rw [Allocator.plain_ofWebs]
    rfl
  have horder : (meetingAllocator 3).order = ["c", "b", "a"] := by decide +kernel
  have hsimple : (meetingAllocator 3).graph.Simplifies 3 ["c", "b", "a"] := by decide +kernel
  have hspilled : "a" ∈ (meetingAllocator 2).allocate.spilled := by decide +kernel
  refine ⟨hsimple, by decide +kernel, ?_, hspilled, ?_⟩
  · apply (allocate_spills_only_candidates _ (hgraph 3)).1 _ _ hsimple
    intro n
    rw [← horder]
    exact Allocator.mem_order (Allocator.nodes_ofWebs meetingWebs 3)
  · obtain ⟨w, hw, hfloat⟩ : ∃ w, (meetingAllocator 2).webs.get? "a" = some w ∧
        w.isFloat = false := ⟨_, rfl, rfl⟩
    exact (allocate_spills_only_candidates _ (hgraph 2)).2 "a" w hw hfloat hspilled

end MipsBackend
