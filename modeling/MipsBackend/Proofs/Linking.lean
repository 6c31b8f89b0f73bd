import Mathlib.Data.List.Nodup
import MipsBackend.Program.Function

/-! Linking. Edges are entered one at a time, and whether an edge is there already is looked up at
one of its ends only. Both ends agree nevertheless after every step, so after a whole run each edge
is there once, at both ends, and it leads where the code of its block does. -/
namespace MipsBackend

/-- A block without its links. -/
def Block.bare (b : Block) : Block := { b with succs := [], preds := [] }

/-- The target of a block's jump, if no block carries it. -/
def undefinedTarget? (bs : List Block) (b : Block) : Option String :=
  b.target?.filter fun t => (findBlock bs t).isNone

/-- The blocks that control can reach from the end of a block: the next one, then the jump
target if it is another one. -/
def successors (bs : List Block) (b : Block) : List Nat :=
  let next := b.next?.toList
  next ++ (b.target?.bind (findBlock bs)).toList.filter (!next.contains ·)

/-- Every edge has both its ends, and none is there twice. -/
structure Paired (bs : List Block) : Prop where
  succs_nodup : ∀ b ∈ bs, b.succs.Nodup
  preds_nodup : ∀ b ∈ bs, b.preds.Nodup
  mem_preds : ∀ (n : Nat) (b : Block), bs[n]? = some b →
    ∀ p, p ∈ b.preds ↔ ∃ q, bs[p]? = some q ∧ n ∈ q.succs

lemma Paired.of_unlinked {bs : List Block} (h : ∀ b ∈ bs, b.succs = [] ∧ b.preds = []) :
    Paired bs := by
  refine ⟨fun b hb => ?_, fun b hb => ?_, fun n b hn p => ?_⟩
  · rw [(h b hb).1]
    exact List.nodup_nil
  · rw [(h b hb).2]
    exact List.nodup_nil
  · rw [(h b (List.mem_of_getElem? hn)).2]
    constructor
    · intro hp
      cases hp
    · rintro ⟨q, hq, hmem⟩
      rw [(h q (List.mem_of_getElem? hq)).1] at hmem
      cases hmem

/-! ### One edge -/

/-- Block number `n` once there is an edge from `a` to `b`. -/
def Block.gain (a b n : Nat) (x : Block) : Block :=
  { x with
    succs := if a = n then x.succs ++ [b] else x.succs
    preds := if b = n then x.preds ++ [a] else x.preds }

section
variable {bs cs : List Block} {a b n : Nat}

/-- Nothing happens to an edge that is there, and a new one is entered at both ends. -/
lemma link_cases (ha : a < bs.length) :
    (∃ q, bs[a]? = some q ∧ b ∈ q.succs) ∧ link bs a b = bs ∨
    (∃ q, bs[a]? = some q ∧ b ∉ q.succs) ∧
      ∀ n : Nat, (link bs a b)[n]? = bs[n]?.map (Block.gain a b n) := by
  have hq := List.getElem?_eq_getElem ha
  by_cases hb : b ∈ bs[a].succs
  · refine Or.inl ⟨⟨_, hq, hb⟩, ?_⟩
    rw [link, if_pos (by simpa [hq] using hb)]
  · refine Or.inr ⟨⟨_, hq, hb⟩, fun n => ?_⟩
    rw [link, if_neg (by simpa [hq] using hb), List.getElem?_modify, List.getElem?_modify]
    unfold Block.gain
    cases bs[n]? with
    | none => rfl
    | some x =>
      by_cases h1 : a = n <;> by_cases h2 : b = n <;> simp only [h1, h2, if_true, if_false] <;> rfl

lemma map_bare_link (ha : a < bs.length) : (link bs a b).map Block.bare = bs.map Block.bare := by
  rcases link_cases (b := b) ha with ⟨-, hlink⟩ | ⟨-, hlink⟩
  · rw [hlink]
  · apply List.ext_getElem?
    intro n
    rw [List.getElem?_map, List.getElem?_map, hlink, Option.map_map]
    rfl

lemma succs_link (ha : a < bs.length) : (link bs a b)[n]?.map Block.succs =
    (bs[n]?.map Block.succs).map fun s => if a = n ∧ b ∉ s then s ++ [b] else s := by
  rw [Option.map_map]
  rcases link_cases (b := b) ha with ⟨⟨q, hq, hb⟩, hlink⟩ | ⟨⟨q, hq, hb⟩, hlink⟩
  · rw [hlink]
    by_cases hn : a = n
    · rw [← hn, hq]
      simp [hb]
    · simp [hn, Function.comp_def]
  · rw [hlink, Option.map_map]
    by_cases hn : a = n
    · rw [← hn, hq]
      simp [hb, Block.gain]
    · simp [hn, Block.gain, Function.comp_def]

/-- It is enough to look at one end: as both agree, an edge that is new there is new at the
other. -/
lemma Paired.link (h : Paired bs) (ha : a < bs.length) : Paired (link bs a b) := by
  rcases link_cases (b := b) ha with ⟨-, hlink⟩ | ⟨⟨q, hq, hb⟩, hlink⟩
  · rwa [hlink]
  have hold : ∀ {n : Nat} {x : Block}, (MipsBackend.link bs a b)[n]? = some x →
      ∃ y, bs[n]? = some y ∧ x = y.gain a b n := by
    intro n x hx
    rw [hlink, Option.map_eq_some_iff] at hx
    obtain ⟨y, hy, rfl⟩ := hx
    exact ⟨y, hy, rfl⟩
  refine ⟨fun x hx => ?_, fun x hx => ?_, fun n x hx p => ?_⟩
  · obtain ⟨n, hn⟩ := List.mem_iff_getElem?.mp hx
    obtain ⟨y, hy, rfl⟩ := hold hn
    have hnodup := h.succs_nodup y (List.mem_of_getElem? hy)
    unfold Block.gain
    dsimp only
    split
    · next hna =>
      obtain rfl : y = q := by simpa [← hna, hq] using hy.symm
      exact List.concat_eq_append ▸ hnodup.concat hb
    · exact hnodup
  · obtain ⟨n, hn⟩ := List.mem_iff_getElem?.mp hx
    obtain ⟨y, hy, rfl⟩ := hold hn
    have hnodup := h.preds_nodup y (List.mem_of_getElem? hy)
    unfold Block.gain
    dsimp only
    split
    · next hnb =>
      have hnew : a ∉ y.preds := by
        rw [h.mem_preds n y hy]
        rintro ⟨q', hq', hmem⟩
        rw [hq, Option.some.injEq] at hq'
        exact hb (hnb ▸ hq' ▸ hmem)
      exact List.concat_eq_append ▸ hnodup.concat hnew
    · exact hnodup
  · obtain ⟨y, hy, rfl⟩ := hold hx
    have hsuccs : (∃ r, (MipsBackend.link bs a b)[p]? = some r ∧ n ∈ r.succs) ↔
        (∃ r, bs[p]? = some r ∧ n ∈ r.succs) ∨ p = a ∧ n = b := by
      rw [hlink]
      by_cases hp : a = p
      · rw [← hp, hq]
        simp [Block.gain]
      · simp [hp, Ne.symm hp, Block.gain]
    rw [hsuccs, ← h.mem_preds n y hy]
    unfold Block.gain
    dsimp only
    split
    · next hnb => simp [hnb]
    · next hnb => simp [Ne.symm hnb]

end

/-! ### One block -/

section
variable {bs cs : List Block} {b : Block} {l : String} {n : Nat}

lemma findBlock_congr (h : bs.map Block.bare = cs.map Block.bare) :
    findBlock bs = findBlock cs := by
  have hfind : ∀ (ds : List Block) (l : String), (ds.findIdx? fun b => b.label = some l) =
      (ds.map Block.bare).findIdx? fun b => b.label = some l := by
    intro ds l
    rw [List.findIdx?_map]
    rfl
  funext l
  rw [findBlock, findBlock, hfind bs, hfind cs, h]

lemma undefinedTarget?_congr (h : bs.map Block.bare = cs.map Block.bare) :
    undefinedTarget? bs = undefinedTarget? cs := by
  funext b
  rw [undefinedTarget?, undefinedTarget?, findBlock_congr h]

lemma successors_congr (h : bs.map Block.bare = cs.map Block.bare) :
    successors bs = successors cs := by
  funext b
  rw [successors, successors, findBlock_congr h]

/-- The blocks with the edges that leave one of them. -/
def withEdges (bs : List Block) (b : Block) : List Block :=
  (b.next?.toList ++ (b.target?.bind (findBlock bs)).toList).foldl (link · b.id) bs

/-- The edges of a block are entered, unless its jump has no target. -/
lemma linkBlock_eq (hb : b.id < bs.length) : linkBlock bs b =
    match undefinedTarget? bs b with
    | some l => .error l
    | none => .ok (withEdges bs b) := by
  have hfallen : ∀ n, findBlock (link bs b.id n) = findBlock bs :=
    fun n => findBlock_congr (map_bare_link hb)
  unfold linkBlock undefinedTarget? withEdges
  cases b.next? with
  | none =>
    cases b.target? with
    | none => rfl
    | some l => cases hl : findBlock bs l <;> simp [hl, Option.filter]
  | some n =>
    cases b.target? with
    | none => rfl
    | some l => cases hl : findBlock bs l <;> simp [hfallen, hl, Option.filter]

/-- What linking keeps, edge by edge. -/
structure Extends (bs cs : List Block) : Prop where
  bare : cs.map Block.bare = bs.map Block.bare
  paired : Paired bs → Paired cs

lemma Extends.length (h : Extends bs cs) : cs.length = bs.length := by
  simpa using congrArg List.length h.bare

lemma Extends.trans {ds : List Block} (h : Extends bs cs) (h' : Extends cs ds) : Extends bs ds :=
  ⟨h'.bare.trans h.bare, fun hbs => h'.paired (h.paired hbs)⟩

lemma extends_foldl_link {a : Nat} (ms : List Nat) (ha : a < bs.length) :
    Extends bs (ms.foldl (link · a) bs) := by
  induction ms generalizing bs with
  | nil => exact ⟨rfl, id⟩
  | cons m ms ih =>
    have hstep : Extends bs (link bs a m) := ⟨map_bare_link ha, fun h => h.link ha⟩
    exact hstep.trans (ih (hstep.length ▸ ha))

/-- The edges of a block that had none lead to its successors. -/
lemma succs_withEdges (hb : bs[b.id]?.map Block.succs = some []) :
    (withEdges bs b)[n]?.map Block.succs =
      if n = b.id then some (successors bs b) else bs[n]?.map Block.succs := by
  have ha : b.id < bs.length := by
    obtain ⟨x, hx, -⟩ := Option.map_eq_some_iff.mp hb
    exact (List.getElem?_eq_some_iff.mp hx).1
  have ha' : ∀ m, b.id < (link bs b.id m).length := by
    intro m
    have hlength := (extends_foldl_link [m] ha).length
    rw [List.foldl_cons, List.foldl_nil] at hlength
    rwa [hlength]
  rw [withEdges, successors]
  by_cases hn : n = b.id
  · rw [if_pos hn, hn]
    cases b.next? with
    | none =>
      cases b.target?.bind (findBlock bs) with
      | none => simpa using hb
      | some l => simp [succs_link ha, hb]
    | some m =>
      cases b.target?.bind (findBlock bs) with
      | none => simp [succs_link ha, hb]
      | some l =>
        by_cases hl : l = m <;> simp [succs_link ha, succs_link (ha' m), hb, hl]
  · rw [if_neg hn]
    cases b.next? <;> cases b.target?.bind (findBlock bs) <;>
      simp [succs_link ha, succs_link (ha' _), Ne.symm hn, Function.comp_def]

end

/-! ### All blocks -/

section
variable {bs cs rest : List Block} {b : Block} {l : String}

/-- The links of blocks that had none, entered one block after the other. -/
structure Entered (rest bs cs : List Block) : Prop extends Extends bs cs where
  succs : ∀ b ∈ rest, cs[b.id]?.map Block.succs = some (successors bs b)
  others : ∀ n, n ∉ rest.map Block.id → cs[n]?.map Block.succs = bs[n]?.map Block.succs

/-- The run stops at the first block whose jump has no target. -/
lemma foldlM_linkBlock_eq_error (hrange : ∀ b ∈ rest, b.id < bs.length)
    (h : rest.findSome? (undefinedTarget? bs) = some l) :
    rest.foldlM linkBlock bs = .error l := by
  induction rest generalizing bs with
  | nil => cases h
  | cons b rest ih =>
    have hb := hrange b (by simp)
    rw [List.foldlM_cons, linkBlock_eq hb]
    rw [List.findSome?_cons] at h
    cases hl : undefinedTarget? bs b with
    | some l' =>
      rw [hl] at h
      cases h
      rfl
    | none =>
      rw [hl] at h
      have hstep : Extends bs (withEdges bs b) := extends_foldl_link _ hb
      refine ih (fun c hc => ?_) (undefinedTarget?_congr hstep.bare ▸ h)
      rw [hstep.length]
      exact hrange c (by simp [hc])

/-- A run that finds all targets enters the edges of all its blocks. -/
lemma exists_foldlM_linkBlock (hrest : (rest.map Block.id).Nodup)
    (hnew : ∀ b ∈ rest, bs[b.id]?.map Block.succs = some [])
    (h : ∀ b ∈ rest, undefinedTarget? bs b = none) :
    ∃ cs, rest.foldlM linkBlock bs = .ok cs ∧ Entered rest bs cs := by
  induction rest generalizing bs with
  | nil => exact ⟨bs, rfl, ⟨rfl, id⟩, by simp, fun _ _ => rfl⟩
  | cons b rest ih =>
    obtain ⟨hb, hrest⟩ := List.nodup_cons.mp hrest
    have hnewb := hnew b (by simp)
    have hrange : b.id < bs.length := by
      obtain ⟨x, hx, -⟩ := Option.map_eq_some_iff.mp hnewb
      exact (List.getElem?_eq_some_iff.mp hx).1
    have hne : ∀ c ∈ rest, c.id ≠ b.id := fun c hc heq => hb (heq ▸ List.mem_map_of_mem hc)
    rw [List.foldlM_cons, linkBlock_eq hrange, h b (by simp)]
    have hsuccs := fun n => succs_withEdges (n := n) hnewb
    have hstep : Extends bs (withEdges bs b) := extends_foldl_link _ hrange
    -- the rest of the run starts from what this block has left
    obtain ⟨cs, hrun, hcs⟩ := ih hrest
      (fun c hc => by rw [hsuccs, if_neg (hne c hc)]; exact hnew c (by simp [hc]))
      (fun c hc => by rw [undefinedTarget?_congr hstep.bare]; exact h c (by simp [hc]))
    refine ⟨cs, hrun, hstep.trans hcs.toExtends, fun c hc => ?_, fun n hn => ?_⟩
    · rcases List.mem_cons.mp hc with rfl | hc
      · rw [hcs.others _ hb, hsuccs, if_pos rfl]
      · rw [hcs.succs c hc, successors_congr hstep.bare]
    · rw [List.map_cons, List.mem_cons, not_or] at hn
      rw [hcs.others n hn.2, hsuccs, if_neg hn.1]

/-- Blocks with all their links. -/
structure LinkedFrom (bs cs : List Block) : Prop where
  bare : cs.map Block.bare = bs.map Block.bare
  succs : ∀ b ∈ cs, b.succs = successors bs b
  targets : ∀ b ∈ bs, undefinedTarget? bs b = none
  paired : Paired cs

lemma linkBlocks_cases (hids : bs.map Block.id = List.range bs.length)
    (hbare : bs.map Block.bare = bs) :
    (∃ l, bs.findSome? (undefinedTarget? bs) = some l ∧ linkBlocks bs = .error l) ∨
      ∃ cs, linkBlocks bs = .ok cs ∧ LinkedFrom bs cs := by
  have hlinks : ∀ b ∈ bs, b.succs = [] ∧ b.preds = [] := by
    intro b hb
    rw [← hbare] at hb
    obtain ⟨c, -, rfl⟩ := List.mem_map.mp hb
    exact ⟨rfl, rfl⟩
  have hid : ∀ (n : Nat) (b : Block), bs[n]? = some b → b.id = n := by
    intro n b hb
    have hn := congrArg (·[n]?) hids
    rw [List.getElem?_map, hb, List.getElem?_range (List.getElem?_eq_some_iff.mp hb).1] at hn
    exact Option.some.inj hn
  have hat : ∀ b ∈ bs, bs[b.id]? = some b := by
    intro b hb
    obtain ⟨n, hn⟩ := List.mem_iff_getElem?.mp hb
    rw [hid n b hn, hn]
  cases hfind : bs.findSome? (undefinedTarget? bs) with
  | some l =>
    refine Or.inl ⟨l, rfl, foldlM_linkBlock_eq_error (fun b hb => ?_) hfind⟩
    exact (List.getElem?_eq_some_iff.mp (hat b hb)).1
  | none =>
    have htargets := List.findSome?_eq_none_iff.mp hfind
    have hnodup : (bs.map Block.id).Nodup := hids ▸ List.nodup_range
    obtain ⟨cs, hrun, hcs⟩ := exists_foldlM_linkBlock hnodup
      (fun b hb => by rw [hat b hb, Option.map_some, (hlinks b hb).1]) htargets
    refine Or.inr ⟨cs, hrun, hcs.bare, fun c hc => ?_, htargets, hcs.paired (.of_unlinked hlinks)⟩
    obtain ⟨n, hn⟩ := List.mem_iff_getElem?.mp hc
    have hc' : (cs.map Block.bare)[n]? = some c.bare := by
      rw [List.getElem?_map, hn, Option.map_some]
    rw [hcs.bare, hbare] at hc'
    have hsuccs := hcs.succs _ (List.mem_of_getElem? hc')
    rw [hid n _ hc', hn] at hsuccs
    exact Option.some.inj hsuccs

end
end MipsBackend
