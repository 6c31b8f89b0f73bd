import MipsBackend.Allocation.Coloring
import MipsBackend.Proofs.Collections

/-! Interference graphs are undirected, and colouring one gives no two neighbours the same
colour. -/
namespace MipsBackend
namespace Interference
variable {g : Interference} {a b n x y : String} {k : Int}

/-- Neighbours are neighbours of each other, and nothing is its own neighbour. -/
structure Undirected (g : Interference) : Prop where
  symm : ∀ a b, b ∈ g.adjacent a → a ∈ g.adjacent b
  irrefl : ∀ a, a ∉ g.adjacent a

lemma Undirected.hasEdge_comm (h : g.Undirected) (a b : String) :
    g.hasEdge a b = g.hasEdge b a := by
  rw [Bool.eq_iff_iff, hasEdge, hasEdge, OrdSet.contains_iff, OrdSet.contains_iff]
  exact ⟨h.symm a b, h.symm b a⟩

lemma mem_adjacent_addEdge : x ∈ (g.addEdge a b).adjacent y ↔
    x ∈ g.adjacent y ∨ a ≠ b ∧ (y = a ∧ x = b ∨ y = b ∧ x = a) := by
  unfold addEdge
  by_cases hab : a = b
  · simp [hab]
  · rw [if_neg hab, adjacent_addNeighbour, adjacent_addNeighbour, adjacent_addNeighbour]
    by_cases hya : y = a
    · subst hya
      simp [hab]
      tauto
    · by_cases hyb : y = b
      · subst hyb
        simp [hya]
        tauto
      · simp [hya, hyb]

lemma mem_nodes_addNode : x ∈ (g.addNode n).nodes ↔ x = n ∨ x ∈ g.nodes := by
  simp [nodes, addNode]

lemma mem_nodes_addEdge : x ∈ (g.addEdge a b).nodes ↔
    x ∈ g.nodes ∨ a ≠ b ∧ (x = a ∨ x = b) := by
  unfold addEdge
  by_cases hab : a = b
  · simp [hab]
  · simp [hab, nodes, addNeighbour]
    tauto

lemma mem_nodes_removeNode : x ∈ (g.removeNode n).nodes ↔ x ∈ g.nodes ∧ x ≠ n := by
  rw [nodes, nodes, removeNode, OrdMap.keys_map, ← OrdMap.contains_iff, ← OrdMap.contains_iff,
    OrdMap.contains, OrdMap.contains, OrdMap.get?_erase]
  by_cases h : x = n <;> simp [h]

lemma mem_nodes_removeAll {ns : List String} :
    x ∈ (g.removeAll ns).nodes ↔ x ∈ g.nodes ∧ x ∉ ns := by
  unfold removeAll
  induction ns generalizing g with
  | nil => simp
  | cons n ns ih =>
    rw [List.foldl_cons, ih, mem_nodes_removeNode, List.mem_cons, not_or, and_assoc]

lemma undirected_empty : empty.Undirected := ⟨by simp, by simp⟩

lemma Undirected.addNode (h : g.Undirected) (n : String) : (g.addNode n).Undirected := by
  refine ⟨fun a b hb => ?_, fun a ha => ?_⟩
  · rw [adjacent_addNode] at hb ⊢
    exact h.symm a b hb
  · rw [adjacent_addNode] at ha
    exact h.irrefl a ha

lemma Undirected.addEdge (h : g.Undirected) (a b : String) : (g.addEdge a b).Undirected := by
  refine ⟨fun c d hd => ?_, fun c hc => ?_⟩
  · rw [mem_adjacent_addEdge] at hd ⊢
    rcases hd with hd | ⟨hab, hd⟩
    · exact Or.inl (h.symm c d hd)
    · exact Or.inr ⟨hab, hd.symm.imp And.symm And.symm⟩
  · rcases mem_adjacent_addEdge.mp hc with hc | ⟨hab, ⟨h1, h2⟩ | ⟨h1, h2⟩⟩
    · exact h.irrefl c hc
    · exact hab (h1.symm.trans h2)
    · exact hab (h2.symm.trans h1)

/-! ### Removal -/

lemma highest_mem (best : String) (ns : List String) : g.highest best ns ∈ best :: ns := by
  induction ns generalizing best with
  | nil => simp [highest]
  | cons n ns ih =>
    rw [highest]
    rcases List.mem_cons.mp (ih (if g.degree best < g.degree n then n else best)) with h | h
    · rw [h]
      split <;> simp
    · simp [h]

lemma node_mem_of_nextRemoval {r : Removal} (h : g.nextRemoval k = some r) : r.node ∈ g.nodes := by
  unfold nextRemoval at h
  split at h
  · next n hn =>
    cases h
    exact List.mem_of_find?_eq_some hn
  · split at h
    · cases h
    · next n ns hn =>
      cases h
      have := g.highest_mem n ns
      rwa [← hn] at this

/-- Only nodes are removed. -/
lemma node_mem_of_mem_removals {fuel : Nat} {r : Removal} (h : r ∈ removals k fuel g) :
    r.node ∈ g.nodes := by
  induction fuel generalizing g with
  | zero => simp [removals] at h
  | succ fuel ih =>
    rw [removals] at h
    split at h
    · simp at h
    · next q hq =>
      rcases List.mem_cons.mp h with rfl | h
      · exact node_mem_of_nextRemoval hq
      · exact (mem_nodes_removeNode.mp (ih h)).1

/-! ### Colours -/

/-- Among the numbers up to the length of a list there is one that is not in the list. -/
lemma lowestFree_not_mem (used : List Nat) : lowestFree used ∉ used := by
  unfold lowestFree
  cases h : (List.range (used.length + 1)).find? fun c => !used.contains c with
  | some c => simpa using List.find?_some h
  | none =>
    have hall : ∀ c ∈ List.range (used.length + 1), c ∈ used := by
      intro c hc
      simpa using List.find?_eq_none.mp h c hc
    have := (List.nodup_range.subperm hall).length_le
    rw [List.length_range] at this
    omega

lemma mem_taken {colors : Colors} {c : Nat} :
    c ∈ g.taken colors n ↔ ∃ m ∈ g.adjacent n, colors.get? m = some c := by
  simp [taken]

/-- No two neighbours have the same colour. -/
def Proper (g : Interference) (colors : Colors) : Prop :=
  ∀ a b c, b ∈ g.adjacent a → colors.get? a = some c → colors.get? b ≠ some c

lemma freeColor_eq_some {colors : Colors} {c : Nat} (h : g.freeColor k colors n = some c) :
    (c : Int) < k ∧ ∀ m ∈ g.adjacent n, colors.get? m ≠ some c := by
  unfold freeColor at h
  dsimp only at h
  split at h
  · next hk =>
    cases h
    refine ⟨hk, fun m hm hc => ?_⟩
    exact lowestFree_not_mem _ (mem_taken.mpr ⟨m, hm, hc⟩)
  · cases h

lemma get?_colorNode {colors : Colors} {c : Nat} (h : (g.colorNode k colors n).get? x = some c) :
    colors.get? x = some c ∨ x = n ∧ g.freeColor k colors n = some c := by
  unfold colorNode at h
  split at h
  · next d hd =>
    rw [OrdMap.get?_insert] at h
    split at h
    · next hx =>
      cases h
      exact Or.inr ⟨hx, hd⟩
    · exact Or.inl h
  · exact Or.inl h

lemma Proper.colorNode {colors : Colors} (hg : g.Undirected) (h : g.Proper colors) :
    g.Proper (g.colorNode k colors n) := by
  cases hc : g.freeColor k colors n with
  | none =>
    simpa [Interference.colorNode, hc] using h
  | some c =>
    obtain ⟨-, hfree⟩ := freeColor_eq_some hc
    intro a b d hb ha hd
    simp only [Interference.colorNode, hc, OrdMap.get?_insert] at ha hd
    by_cases han : a = n
    · have hbn : b ≠ n := by
        intro hbn
        rw [han, hbn] at hb
        exact hg.irrefl n hb
      rw [if_pos han] at ha
      rw [if_neg hbn] at hd
      cases ha
      exact hfree b (han ▸ hb) hd
    · rw [if_neg han] at ha
      by_cases hbn : b = n
      · rw [if_pos hbn] at hd
        cases hd
        exact hfree a (hg.symm a n (hbn ▸ hb)) ha
      · rw [if_neg hbn] at hd
        exact h a b d hb ha hd

lemma proper_colorAll (hg : g.Undirected) (order : List String) :
    g.Proper (g.colorAll k order) :=
  List.foldlRecOn order _ (fun _ _ _ _ h => by simp at h) fun _ h _ _ => h.colorNode hg

/-- A coloured node is one of those that were to be coloured, and its colour is below `k`. -/
lemma get?_colorAll {order : List String} {c : Nat} (h : (g.colorAll k order).get? x = some c) :
    x ∈ order ∧ (c : Int) < k := by
  have hall : ∀ x c, (g.colorAll k order).get? x = some c → x ∈ order ∧ (c : Int) < k := by
    refine List.foldlRecOn order _
      (motive := fun cs : Colors => ∀ x c, cs.get? x = some c → x ∈ order ∧ (c : Int) < k)
      ?_ ?_
    · intro x c h
      simp at h
    · intro colors ih n hn x c h
      rcases get?_colorNode h with h | ⟨rfl, h⟩
      · exact ih x c h
      · exact ⟨hn, (freeColor_eq_some h).1⟩
  exact hall x c h

end Interference

namespace Coloring
variable {g : Interference} {excluded : List String} {k : Int} {x : String} {c : Nat}

lemma get?_ofGraph (h : (ofGraph g excluded k).colors.get? x = some c) :
    x ∈ g.nodes ∧ x ∉ excluded ∧ (c : Int) < k := by
  obtain ⟨hx, hc⟩ := Interference.get?_colorAll h
  obtain ⟨r, hr, rfl⟩ := List.mem_map.mp (List.mem_reverse.mp hx)
  obtain ⟨hn, hex⟩ := Interference.mem_nodes_removeAll.mp (Interference.node_mem_of_mem_removals hr)
  exact ⟨hn, hex, hc⟩

lemma proper_ofGraph (hg : g.Undirected) : g.Proper (ofGraph g excluded k).colors :=
  Interference.proper_colorAll hg _

end Coloring
end MipsBackend
