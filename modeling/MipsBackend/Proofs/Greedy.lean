import MipsBackend.Allocation.Allocator
import MipsBackend.Proofs.Allocation

/-! Greedy colouring. Taking a graph apart removes every node once, and a node that is coloured
later than its neighbours misses no colour below its own: they are all held by neighbours, and
stay so to the end. -/
namespace MipsBackend
namespace Interference
variable {g : Interference} {k : Int} {n m x : String} {colors : Colors} {fuel : Nat}

/-! ### Taking a graph apart -/

lemma nextRemoval_eq_none (h : g.nextRemoval k = none) : x ∉ g.nodes := by
  unfold nextRemoval at h
  split at h
  · cases h
  · split at h
    · next hnil =>
      intro hx
      have hmem : x ∈ g.nodes.toList := hx
      rw [hnil] at hmem
      cases hmem
    · cases h

lemma size_removeNode (h : n ∈ g.nodes) : (g.removeNode n).nodes.size < g.nodes.size := by
  apply OrdSet.size_lt_of_subset
  · intro x hx
    exact (mem_nodes_removeNode.mp hx).1
  · intro heq
    rw [← heq] at h
    exact (mem_nodes_removeNode.mp h).2 rfl

/-- Every node is removed. -/
lemma mem_removals_iff (hfuel : g.nodes.size ≤ fuel) :
    x ∈ (removals k fuel g).map Removal.node ↔ x ∈ g.nodes := by
  induction fuel generalizing g with
  | zero =>
    have hnil : g.nodes.toList = [] := List.length_eq_zero_iff.mp (Nat.le_zero.mp hfuel)
    rw [← OrdSet.mem_toList, hnil]
    rfl
  | succ fuel ih =>
    rw [removals]
    cases hnext : g.nextRemoval k with
    | none => simpa using nextRemoval_eq_none hnext
    | some r =>
      have hr := node_mem_of_nextRemoval hnext
      have hsize := size_removeNode hr
      dsimp only
      rw [List.map_cons, List.mem_cons, ih (by omega), mem_nodes_removeNode]
      constructor
      · rintro (rfl | hx)
        · exact hr
        · exact hx.1
      · intro hx
        by_cases hxr : x = r.node
        · exact Or.inl hxr
        · exact Or.inr ⟨hx, hxr⟩

/-- No node is removed twice. -/
lemma nodup_removals : ((removals k fuel g).map Removal.node).Nodup := by
  induction fuel generalizing g with
  | zero => exact List.nodup_nil
  | succ fuel ih =>
    rw [removals]
    cases g.nextRemoval k with
    | none => exact List.nodup_nil
    | some r =>
      dsimp only
      rw [List.map_cons, List.nodup_cons]
      refine ⟨fun hmem => ?_, ih⟩
      obtain ⟨q, hq, hnode⟩ := List.mem_map.mp hmem
      have hleft := mem_nodes_removeNode.mp (node_mem_of_mem_removals hq)
      exact hleft.2 hnode

lemma removals_succ (hfuel : g.nodes.size ≤ fuel) :
    removals k (fuel + 1) g = removals k fuel g := by
  induction fuel generalizing g with
  | zero =>
    rw [removals, removals]
    cases hnext : g.nextRemoval k with
    | none => rfl
    | some r =>
      have hsize := size_removeNode (node_mem_of_nextRemoval hnext)
      omega
  | succ fuel ih =>
    rw [removals, removals]
    cases hnext : g.nextRemoval k with
    | none => rfl
    | some r =>
      have hsize := size_removeNode (node_mem_of_nextRemoval hnext)
      dsimp only
      rw [ih (by omega)]

/-- The removal comes to its end by itself: more steps than there are nodes change nothing. -/
lemma removals_of_le (hfuel : g.nodes.size ≤ fuel) : removals k fuel g = g.eliminate k := by
  obtain ⟨extra, rfl⟩ := Nat.exists_eq_add_of_le hfuel
  clear hfuel
  induction extra with
  | zero => rfl
  | succ extra ih => rw [← Nat.add_assoc, removals_succ (by omega), ih]

lemma mem_eliminate_iff : x ∈ (g.eliminate k).map Removal.node ↔ x ∈ g.nodes :=
  mem_removals_iff (Nat.le_refl _)

/-- Nothing is left of the graph. -/
lemma nodes_removeAll_eliminate :
    (g.removeAll ((g.eliminate k).map Removal.node)).nodes = ∅ := by
  apply OrdSet.ext
  intro x
  rw [mem_nodes_removeAll, mem_eliminate_iff]
  simp

/-! ### Lowest colours -/

lemma mem_of_lt_lowestFree {used : List Nat} {c : Nat} (h : c < lowestFree used) : c ∈ used := by
  unfold lowestFree at h
  cases hfind : (List.range (used.length + 1)).find? fun c => !used.contains c with
  | some d =>
    rw [hfind] at h
    have hbefore := (List.find?_range_eq_some.mp hfind).2.2 c h
    simpa using hbefore
  | none =>
    rw [hfind] at h
    have hall := List.find?_eq_none.mp hfind c (List.mem_range.mpr (Nat.lt_succ_of_lt h))
    simpa using hall

/-- Every colour below that of a node is held by a neighbour; if the node has none, every colour
there is. -/
def Least (g : Interference) (k : Int) (colors : Colors) (n : String) : Prop :=
  ∀ c : Nat, (colors.get? n).elim ((c : Int) < k) (c < ·) →
    ∃ m ∈ g.adjacent n, colors.get? m = some c

lemma exists_of_freeColor {c : Nat} (h : (g.freeColor k colors n).elim ((c : Int) < k) (c < ·)) :
    ∃ m ∈ g.adjacent n, colors.get? m = some c := by
  apply mem_taken.mp
  apply mem_of_lt_lowestFree
  unfold freeColor at h
  dsimp only at h
  split at h
  · exact h
  · next hk =>
    have hc : (c : Int) < k := h
    omega

lemma colorNode_of_some {c : Nat} (h : g.freeColor k colors n = some c) :
    g.colorNode k colors n = colors.insert n c := by
  simp only [colorNode, h]

lemma colorNode_of_none (h : g.freeColor k colors n = none) : g.colorNode k colors n = colors := by
  simp only [colorNode, h]

lemma get?_colorNode_of_ne (h : m ≠ n) : (g.colorNode k colors n).get? m = colors.get? m := by
  cases hc : g.freeColor k colors n with
  | some c => rw [colorNode_of_some hc, OrdMap.get?_insert, if_neg h]
  | none => rw [colorNode_of_none hc]

lemma get?_colorNode_self (h : colors.get? n = none) :
    (g.colorNode k colors n).get? n = g.freeColor k colors n := by
  cases hc : g.freeColor k colors n with
  | some c => rw [colorNode_of_some hc, OrdMap.get?_insert, if_pos rfl]
  | none => rw [colorNode_of_none hc, h]

/-- A colour that has been given stays. -/
lemma get?_colorNode_of_some {c : Nat} (hn : colors.get? n = none) (hm : colors.get? m = some c) :
    (g.colorNode k colors n).get? m = some c := by
  have hne : m ≠ n := by
    intro heq
    rw [heq, hn] at hm
    cases hm
  rw [get?_colorNode_of_ne hne, hm]

lemma least_colorNode_self (h : colors.get? n = none) : g.Least k (g.colorNode k colors n) n := by
  intro c hc
  rw [get?_colorNode_self h] at hc
  obtain ⟨m, hm, hmc⟩ := exists_of_freeColor hc
  exact ⟨m, hm, get?_colorNode_of_some h hmc⟩

lemma Least.colorNode (h : g.Least k colors x) (hn : colors.get? n = none) (hx : x ≠ n) :
    g.Least k (g.colorNode k colors n) x := by
  intro c hc
  rw [get?_colorNode_of_ne hx] at hc
  obtain ⟨m, hm, hmc⟩ := h c hc
  exact ⟨m, hm, get?_colorNode_of_some hn hmc⟩

section Run
variable {ns : List String}

lemma get?_foldl_colorNode_of_not_mem (h : x ∉ ns) :
    (ns.foldl (g.colorNode k) colors).get? x = colors.get? x := by
  induction ns generalizing colors with
  | nil => rfl
  | cons n ns ih =>
    rw [List.mem_cons, not_or] at h
    rw [List.foldl_cons, ih h.2, get?_colorNode_of_ne h.1]

/-- The others are still without a colour when the first has been looked at. -/
lemma fresh_colorNode (hns : (n :: ns).Nodup) (hfresh : ∀ m ∈ n :: ns, colors.get? m = none) :
    ∀ m ∈ ns, (g.colorNode k colors n).get? m = none := by
  intro m hm
  have hne : m ≠ n := by
    intro heq
    rw [heq] at hm
    exact (List.nodup_cons.mp hns).1 hm
  rw [get?_colorNode_of_ne hne]
  exact hfresh m (List.mem_cons_of_mem n hm)

/-- Every node has the lowest colour once its turn has come. -/
lemma least_foldl_colorNode (hns : ns.Nodup) (hfresh : ∀ n ∈ ns, colors.get? n = none)
    (h : x ∈ ns ∨ g.Least k colors x) : g.Least k (ns.foldl (g.colorNode k) colors) x := by
  induction ns generalizing colors with
  | nil => exact h.resolve_left List.not_mem_nil
  | cons n ns ih =>
    have hn := hfresh n List.mem_cons_self
    rw [List.foldl_cons]
    apply ih (List.nodup_cons.mp hns).2 (fresh_colorNode hns hfresh)
    by_cases hx : x = n
    · rw [hx]
      exact Or.inr (least_colorNode_self hn)
    · refine h.imp (fun hmem => ?_) fun hleast => hleast.colorNode hn hx
      exact (List.mem_cons.mp hmem).resolve_left hx

end Run
end Interference

lemma Webs.mem_floats {ws : Webs} {n : String} :
    n ∈ ws.floats ↔ ∃ w, ws.get? n = some w ∧ w.isFloat = true := by
  rw [floats, OrdMap.toList_keys, List.mem_map]
  constructor
  · rintro ⟨⟨m, w⟩, he, rfl⟩
    obtain ⟨he, hw⟩ := List.mem_filter.mp he
    exact ⟨w, OrdMap.get?_eq_some_iff.mpr he, hw⟩
  · rintro ⟨w, hget, hw⟩
    exact ⟨(n, w), List.mem_filter.mpr ⟨OrdMap.get?_eq_some_iff.mp hget, hw⟩, rfl⟩

lemma Webs.mem_uncolored {ws : Webs} {colors : Colors} {n : String} :
    n ∈ ws.uncolored colors ↔ n ∈ ws.keys ∧ colors.get? n = none := by
  rw [OrdMap.mem_keys_iff, ← OrdSet.mem_toList, uncolored, OrdMap.toList_keys, List.mem_map]
  constructor
  · rintro ⟨⟨m, w⟩, he, rfl⟩
    obtain ⟨he, hc⟩ := List.mem_filter.mp he
    exact ⟨⟨w, OrdMap.get?_eq_some_iff.mpr he⟩, by simpa [OrdMap.contains] using hc⟩
  · rintro ⟨⟨w, hw⟩, hc⟩
    refine ⟨(n, w), List.mem_filter.mpr ⟨OrdMap.get?_eq_some_iff.mp hw, ?_⟩, rfl⟩
    simp [OrdMap.contains, hc]

/-! ### Webs with colours -/

namespace Allocator
variable {a : Allocator} {n x : String} {ns : List String}

/-- The colour of a web, if it has one. -/
def color? (a : Allocator) (n : String) : Option Nat := (a.webs.get? n).bind ColoredWeb.color

/-- The webs are coloured greedily: float webs have no colour, the webs without one are those that
count as spilled, colours are below `k`, neighbours have different ones, and none could be lower. -/
structure Greedy (a : Allocator) : Prop where
  float : ∀ n w, a.webs.get? n = some w → w.isFloat = true → w.color = none
  spilled : ∀ n, n ∈ a.spilled ↔ ∃ w, a.webs.get? n = some w ∧ w.color = none
  bound : ∀ n w c, a.webs.get? n = some w → w.color = some c → (c : Int) < a.k
  proper : ∀ n m c, m ∈ a.graph.adjacent n → a.color? n = some c → a.color? m ≠ some c
  least : ∀ n w, a.webs.get? n = some w → w.isFloat = false →
    ∀ c : Nat, w.color.elim ((c : Int) < a.k) (c < ·) →
      ∃ m ∈ a.graph.adjacent n, a.color? m = some c

lemma get?_colors : a.colors.get? n = a.color? n := OrdMap.get?_filterMap ..

lemma select_of_some {c : Nat} (h : a.graph.freeColor a.k a.colors n = some c) :
    a.select n =
      { a with webs := a.webs.map fun m w => if m = n then { w with color := some c } else w } := by
  simp only [select, h]

lemma select_of_none (h : a.graph.freeColor a.k a.colors n = none) :
    a.select n = { a with spilled := a.spilled.insert n } := by
  simp only [select, h]

@[simp] lemma graph_select : (a.select n).graph = a.graph := by
  cases h : a.graph.freeColor a.k a.colors n with
  | some c => rw [select_of_some h]
  | none => rw [select_of_none h]

@[simp] lemma k_select : (a.select n).k = a.k := by
  cases h : a.graph.freeColor a.k a.colors n with
  | some c => rw [select_of_some h]
  | none => rw [select_of_none h]

@[simp] lemma plain_select : (a.select n).plain = a.plain := by
  cases h : a.graph.freeColor a.k a.colors n with
  | some c =>
    rw [select_of_some h]
    apply OrdMap.ext_get?
    intro m
    rw [plain, plain, OrdMap.get?_map, OrdMap.get?_map, OrdMap.get?_map]
    cases a.webs.get? m with
    | none => rfl
    | some w =>
      rw [Option.map_some, Option.map_some, Option.map_some]
      split <;> rfl
  | none =>
    rw [select_of_none h]
    rfl

lemma keys_plain : a.plain.keys = a.webs.keys := OrdMap.keys_map ..

lemma colors_reset : a.reset.colors = ∅ := by
  apply OrdMap.ext_get?
  intro n
  rw [get?_colors, color?, reset, OrdMap.get?_map]
  cases a.webs.get? n <;> rfl

/-- Giving a colour to a web is giving it to its node. -/
lemma colors_select (hn : n ∈ a.webs.keys) :
    (a.select n).colors = a.graph.colorNode a.k a.colors n := by
  cases h : a.graph.freeColor a.k a.colors n with
  | some c =>
    rw [select_of_some h, Interference.colorNode_of_some h]
    apply OrdMap.ext_get?
    intro m
    rw [get?_colors, color?, OrdMap.get?_map, OrdMap.get?_insert, get?_colors, color?]
    by_cases hm : m = n
    · obtain ⟨w, hw⟩ := OrdMap.mem_keys_iff.mp hn
      rw [hm, hw]
      simp
    · rw [if_neg hm]
      cases a.webs.get? m <;> simp [hm]
  | none =>
    rw [select_of_none h, Interference.colorNode_of_none h]
    rfl

lemma mem_spilled_select : x ∈ (a.select n).spilled ↔
    x ∈ a.spilled ∨ x = n ∧ a.graph.freeColor a.k a.colors n = none := by
  cases h : a.graph.freeColor a.k a.colors n with
  | some c =>
    rw [select_of_some h]
    simp
  | none =>
    rw [select_of_none h, OrdSet.mem_insert]
    simp [or_comm]

/-! ### A whole run -/

lemma keys_select : (a.select n).webs.keys = a.webs.keys := by
  rw [← keys_plain, plain_select, keys_plain]

@[simp] lemma graph_foldl_select : (ns.foldl select a).graph = a.graph := by
  induction ns generalizing a with
  | nil => rfl
  | cons n ns ih => rw [List.foldl_cons, ih, graph_select]

@[simp] lemma k_foldl_select : (ns.foldl select a).k = a.k := by
  induction ns generalizing a with
  | nil => rfl
  | cons n ns ih => rw [List.foldl_cons, ih, k_select]

@[simp] lemma plain_foldl_select : (ns.foldl select a).plain = a.plain := by
  induction ns generalizing a with
  | nil => rfl
  | cons n ns ih => rw [List.foldl_cons, ih, plain_select]

lemma colors_foldl_select (hns : ∀ n ∈ ns, n ∈ a.webs.keys) :
    (ns.foldl select a).colors = ns.foldl (a.graph.colorNode a.k) a.colors := by
  induction ns generalizing a with
  | nil => rfl
  | cons n ns ih =>
    have hn := hns n List.mem_cons_self
    rw [List.foldl_cons, ih, graph_select, k_select, colors_select hn, List.foldl_cons]
    intro m hm
    rw [keys_select]
    exact hns m (List.mem_cons_of_mem n hm)

/-- The spilled webs are those that find no colour when their turn comes. -/
lemma mem_spilled_foldl_select (hkeys : ∀ n ∈ ns, n ∈ a.webs.keys) (hns : ns.Nodup)
    (hfresh : ∀ n ∈ ns, a.colors.get? n = none) : x ∈ (ns.foldl select a).spilled ↔
      x ∈ a.spilled ∨ x ∈ ns ∧ (ns.foldl select a).colors.get? x = none := by
  induction ns generalizing a with
  | nil => simp
  | cons n ns ih =>
    have hn := hkeys n List.mem_cons_self
    have hkeys' : ∀ m ∈ ns, m ∈ (a.select n).webs.keys := by
      intro m hm
      rw [keys_select]
      exact hkeys m (List.mem_cons_of_mem n hm)
    have hfresh' : ∀ m ∈ ns, (a.select n).colors.get? m = none := by
      rw [colors_select hn]
      exact Interference.fresh_colorNode hns hfresh
    -- what is decided for the first web is not changed by the others
    have hfirst : (ns.foldl select (a.select n)).colors.get? n =
        a.graph.freeColor a.k a.colors n := by
      rw [colors_foldl_select hkeys',
        Interference.get?_foldl_colorNode_of_not_mem (List.nodup_cons.mp hns).1, colors_select hn,
        Interference.get?_colorNode_self (hfresh n List.mem_cons_self)]
    rw [List.foldl_cons, ih hkeys' (List.nodup_cons.mp hns).2 hfresh', mem_spilled_select, ← hfirst,
      List.mem_cons]
    by_cases hx : x = n
    · simp [hx, (List.nodup_cons.mp hns).1]
    · simp [hx]

lemma webs_reset : a.reset.webs = a.plain.map fun _ w => { toWeb := w } := by
  apply OrdMap.ext_get?
  intro n
  rw [reset, plain, OrdMap.get?_map, OrdMap.get?_map, OrdMap.get?_map]
  cases a.webs.get? n <;> rfl

lemma plain_reset : a.reset.plain = a.plain := by
  apply OrdMap.ext_get?
  intro n
  rw [plain, webs_reset, OrdMap.get?_map, OrdMap.get?_map]
  cases a.plain.get? n <;> rfl

lemma keys_reset : a.reset.webs.keys = a.webs.keys := by
  rw [← keys_plain, plain_reset, keys_plain]

/-- A run starts from the same place whatever colours there are. -/
lemma reset_congr {b : Allocator} (hgraph : b.graph = a.graph) (hk : b.k = a.k)
    (hplain : b.plain = a.plain) : b.reset = a.reset := by
  have hwebs : b.reset.webs = a.reset.webs := by rw [webs_reset, webs_reset, hplain]
  unfold reset at hwebs ⊢
  rw [hgraph, hk, hplain]
  congr

lemma nodup_order : a.order.Nodup := List.nodup_reverse.mpr Interference.nodup_removals

/-- Exactly the webs that are not of float variables are to be coloured. -/
lemma mem_order (hnodes : a.graph.nodes = a.webs.keys) :
    n ∈ a.order ↔ ∃ w, a.webs.get? n = some w ∧ w.isFloat = false := by
  rw [order, List.mem_reverse, Interference.mem_eliminate_iff, work,
    Interference.mem_nodes_removeAll, hnodes, OrdMap.mem_keys_iff, Webs.mem_floats, plain,
    OrdMap.get?_map]
  cases a.webs.get? n <;> simp

lemma mem_keys_of_mem_order (hnodes : a.graph.nodes = a.webs.keys) (hn : n ∈ a.order) :
    n ∈ a.reset.webs.keys := by
  obtain ⟨w, hw, -⟩ := (mem_order hnodes).mp hn
  rw [keys_reset]
  exact OrdMap.mem_keys_iff.mpr ⟨w, hw⟩

/-- The webs get the colours of their nodes. -/
lemma colors_allocate (hnodes : a.graph.nodes = a.webs.keys) :
    a.allocate.colors = a.graph.colorAll a.k a.order := by
  rw [allocate, colors_foldl_select fun n hn => mem_keys_of_mem_order hnodes hn, colors_reset]
  rfl

lemma mem_spilled_allocate (hnodes : a.graph.nodes = a.webs.keys) :
    n ∈ a.allocate.spilled ↔
      n ∈ a.plain.floats ∨ n ∈ a.order ∧ a.allocate.colors.get? n = none := by
  have hfresh : ∀ n ∈ a.order, a.reset.colors.get? n = none := by
    intro n _
    rw [colors_reset, OrdMap.get?_empty]
  rw [allocate, mem_spilled_foldl_select (fun n hn => mem_keys_of_mem_order hnodes hn) nodup_order
    hfresh, reset, OrdSet.mem_ofList]

@[simp] lemma graph_allocate : a.allocate.graph = a.graph := by
  rw [allocate, graph_foldl_select]
  rfl

@[simp] lemma k_allocate : a.allocate.k = a.k := by
  rw [allocate, k_foldl_select]
  rfl

@[simp] lemma plain_allocate : a.allocate.plain = a.plain := by
  rw [allocate, plain_foldl_select, plain_reset]

/-- A run changes nothing about a web but its colour. -/
lemma exists_web_of_allocate {w : ColoredWeb} (h : a.allocate.webs.get? n = some w) :
    ∃ v, a.webs.get? n = some v ∧ v.isFloat = w.isFloat := by
  have hplain : a.plain.get? n = some w.toWeb := by
    rw [← plain_allocate, plain, OrdMap.get?_map, h, Option.map_some]
  rw [plain, OrdMap.get?_map, Option.map_eq_some_iff] at hplain
  obtain ⟨v, hv, hvw⟩ := hplain
  exact ⟨v, hv, congrArg Web.isFloat hvw⟩

lemma color_of_get? {w : ColoredWeb} (h : a.webs.get? n = some w) : w.color = a.colors.get? n := by
  rw [get?_colors, color?, h, Option.bind_some]

/-- A float web is left without a colour, since it is not among those to be coloured. -/
lemma color_of_isFloat (hnodes : a.graph.nodes = a.webs.keys) {w : ColoredWeb}
    (h : a.allocate.webs.get? n = some w) (hfloat : w.isFloat = true) : w.color = none := by
  rw [color_of_get? h, colors_allocate hnodes]
  by_contra hne
  obtain ⟨c, hc⟩ := Option.ne_none_iff_exists'.mp hne
  obtain ⟨v, hv, hvf⟩ := (mem_order hnodes).mp (Interference.get?_colorAll hc).1
  obtain ⟨u, hu, huf⟩ := exists_web_of_allocate h
  rw [hv] at hu
  cases hu
  rw [hvf, hfloat] at huf
  cases huf

lemma mem_order_of_allocate (hnodes : a.graph.nodes = a.webs.keys) {w : ColoredWeb}
    (h : a.allocate.webs.get? n = some w) (hfloat : w.isFloat = false) : n ∈ a.order := by
  obtain ⟨v, hv, hvf⟩ := exists_web_of_allocate h
  exact (mem_order hnodes).mpr ⟨v, hv, hvf.trans hfloat⟩

lemma exists_allocate_of_mem (h : n ∈ a.webs.keys) : ∃ w, a.allocate.webs.get? n = some w := by
  apply OrdMap.mem_keys_iff.mp
  rwa [← keys_plain, plain_allocate, keys_plain]

lemma spilled_iff (hnodes : a.graph.nodes = a.webs.keys) :
    n ∈ a.allocate.spilled ↔ ∃ w, a.allocate.webs.get? n = some w ∧ w.color = none := by
  rw [mem_spilled_allocate hnodes]
  constructor
  · rintro (hfloat | ⟨horder, hnone⟩)
    · obtain ⟨v, hv, hvf⟩ := Webs.mem_floats.mp hfloat
      rw [← plain_allocate, plain, OrdMap.get?_map, Option.map_eq_some_iff] at hv
      obtain ⟨w, hw, rfl⟩ := hv
      exact ⟨w, hw, color_of_isFloat hnodes hw hvf⟩
    · obtain ⟨v, hv, -⟩ := (mem_order hnodes).mp horder
      obtain ⟨w, hw⟩ := exists_allocate_of_mem (OrdMap.mem_keys_iff.mpr ⟨v, hv⟩)
      exact ⟨w, hw, (color_of_get? hw).trans hnone⟩
  · rintro ⟨w, hw, hnone⟩
    cases hfloat : w.isFloat with
    | true =>
      left
      apply Webs.mem_floats.mpr
      rw [← plain_allocate, plain, OrdMap.get?_map, hw]
      exact ⟨w.toWeb, rfl, hfloat⟩
    | false =>
      exact Or.inr ⟨mem_order_of_allocate hnodes hw hfloat, by rw [← color_of_get? hw, hnone]⟩

lemma greedy_allocate (hg : a.graph.Undirected) (hnodes : a.graph.nodes = a.webs.keys) :
    a.allocate.Greedy := by
  constructor
  case float => exact fun n w hw hfloat => color_of_isFloat hnodes hw hfloat
  case spilled => exact fun n => spilled_iff hnodes
  case bound =>
    intro n w c hw hc
    rw [color_of_get? hw, colors_allocate hnodes] at hc
    rw [k_allocate]
    exact (Interference.get?_colorAll hc).2
  case proper =>
    intro n m c hm
    rw [← get?_colors, ← get?_colors, colors_allocate hnodes]
    rw [graph_allocate] at hm
    exact Interference.proper_colorAll hg a.order n m c hm
  case least =>
    intro n w hw hfloat c hc
    have horder := mem_order_of_allocate hnodes hw hfloat
    have hleast : a.graph.Least a.k (a.graph.colorAll a.k a.order) n :=
      Interference.least_foldl_colorNode nodup_order (fun _ _ => OrdMap.get?_empty _)
        (Or.inl horder)
    rw [color_of_get? hw, colors_allocate hnodes, k_allocate] at hc
    obtain ⟨m, hm, hmc⟩ := hleast c hc
    refine ⟨m, by rwa [graph_allocate], ?_⟩
    rw [← get?_colors, colors_allocate hnodes, hmc]

/-! ### Allocation for a function -/

lemma plain_ofWebs (ws : Webs) (k : Int) : (ofWebs ws k).plain = ws := by
  apply OrdMap.ext_get?
  intro n
  rw [plain, ofWebs, OrdMap.get?_map, OrdMap.get?_map]
  cases ws.get? n <;> rfl

lemma nodes_ofWebs (ws : Webs) (k : Int) :
    (ofWebs ws k).graph.nodes = (ofWebs ws k).webs.keys := by
  rw [← keys_plain, plain_ofWebs]
  apply OrdSet.ext
  intro n
  exact Webs.mem_nodes_interference

/-- The allocation of a function is a run on its webs. -/
theorem allocate_ofWebs (p : Program) (f : Function) (k : Int) :
    (ofWebs (f.webs p f.liveness) k).allocate.colors =
        (Allocation.ofFunction p f k).coloring.colors ∧
      (ofWebs (f.webs p f.liveness) k).allocate.spilled =
        (Allocation.ofFunction p f k).spilled := by
  have hnodes := nodes_ofWebs (f.webs p f.liveness) k
  have hcolors : (ofWebs (f.webs p f.liveness) k).allocate.colors =
      (Allocation.ofFunction p f k).coloring.colors := by
    rw [colors_allocate hnodes, order, work, plain_ofWebs]
    simp only [ofWebs, Allocation.ofFunction, Coloring.ofGraph]
  refine ⟨hcolors, OrdSet.ext fun n => ?_⟩
  rw [spilled_iff hnodes, Allocation.spilled, Webs.mem_uncolored, ← hcolors]
  constructor
  · rintro ⟨w, hw, hnone⟩
    obtain ⟨v, hv, -⟩ := exists_web_of_allocate hw
    have hkey : n ∈ (ofWebs (f.webs p f.liveness) k).webs.keys := OrdMap.mem_keys_iff.mpr ⟨v, hv⟩
    rw [← keys_plain, plain_ofWebs] at hkey
    exact ⟨hkey, (color_of_get? hw).symm.trans hnone⟩
  · rintro ⟨hkey, hnone⟩
    have hkey' : n ∈ (f.webs p f.liveness).keys := hkey
    rw [← plain_ofWebs (f.webs p f.liveness) k, keys_plain] at hkey'
    obtain ⟨w, hw⟩ := exists_allocate_of_mem hkey'
    exact ⟨w, hw, (color_of_get? hw).trans hnone⟩

end Allocator

end MipsBackend
