import Mathlib.Data.List.Induction
import MipsBackend.Allocation.Basic
import MipsBackend.Proofs.Coloring
import MipsBackend.Proofs.Liveness

/-! Registers of a function's variables: two variables that occupy the same instruction never
share one, only local integer variables have any, and no instruction keeps more of them than
there are registers. Variables interfere exactly if they occupy the same instruction. -/
namespace MipsBackend
namespace Webs
variable {ws : Webs} {a b x y : String}

lemma points_of_get? {w : Web} (h : ws.get? a = some w) : ws.points a = w.points := by
  rw [points, h, Option.elim_some]

lemma mem_pairs {l : List String} (hl : l.Nodup) :
    ((a, b) ∈ pairs l ∨ (b, a) ∈ pairs l) ↔ a ∈ l ∧ b ∈ l ∧ a ≠ b := by
  induction l with
  | nil => simp [pairs]
  | cons c l ih =>
    obtain ⟨hc, hl⟩ := List.nodup_cons.mp hl
    have ih := ih hl
    simp only [pairs, List.mem_append, List.mem_map, Prod.mk.injEq, List.mem_cons]
    constructor
    · rintro ((⟨d, hd, rfl, rfl⟩ | h) | (⟨d, hd, rfl, rfl⟩ | h))
      · exact ⟨Or.inl rfl, Or.inr hd, fun h => hc (h ▸ hd)⟩
      · obtain ⟨h1, h2, h3⟩ := ih.mp (Or.inl h)
        exact ⟨Or.inr h1, Or.inr h2, h3⟩
      · exact ⟨Or.inr hd, Or.inl rfl, fun h => hc (h ▸ hd)⟩
      · obtain ⟨h1, h2, h3⟩ := ih.mp (Or.inr h)
        exact ⟨Or.inr h1, Or.inr h2, h3⟩
    · rintro ⟨rfl | ha, rfl | hb, hab⟩
      · exact absurd rfl hab
      · exact Or.inl (Or.inl ⟨b, hb, rfl, rfl⟩)
      · exact Or.inr (Or.inl ⟨a, ha, rfl, rfl⟩)
      · exact (ih.mpr ⟨ha, hb, hab⟩).imp Or.inr Or.inr

lemma mem_adjacent_foldl_addEdge (ps : List (String × String)) (g : Interference) :
    x ∈ (ps.foldl (fun g p => g.addEdge p.1 p.2) g).adjacent y ↔
      x ∈ g.adjacent y ∨ x ≠ y ∧ ((y, x) ∈ ps ∨ (x, y) ∈ ps) := by
  induction ps generalizing g with
  | nil => simp
  | cons p ps ih =>
    obtain ⟨c, d⟩ := p
    rw [List.foldl_cons, ih, Interference.mem_adjacent_addEdge]
    simp only [List.mem_cons, Prod.mk.injEq]
    grind

lemma mem_nodes_foldl_addEdge (ps : List (String × String)) (g : Interference)
    (h : ∀ p ∈ ps, p.1 ∈ g.nodes ∧ p.2 ∈ g.nodes) :
    x ∈ (ps.foldl (fun g p => g.addEdge p.1 p.2) g).nodes ↔ x ∈ g.nodes := by
  induction ps generalizing g with
  | nil => simp
  | cons p ps ih =>
    have hp := h p (by simp)
    have hnodes : ∀ x, x ∈ (g.addEdge p.1 p.2).nodes ↔ x ∈ g.nodes := by
      intro x
      rw [Interference.mem_nodes_addEdge]
      constructor
      · rintro (hx | ⟨-, rfl | rfl⟩)
        · exact hx
        · exact hp.1
        · exact hp.2
      · exact Or.inl
    rw [List.foldl_cons, ih _ (fun q hq => ?_), hnodes]
    rw [hnodes, hnodes]
    exact h q (by simp [hq])

lemma adjacent_foldl_addNode (ns : List String) (g : Interference) :
    (ns.foldl Interference.addNode g).adjacent x = g.adjacent x := by
  induction ns generalizing g with
  | nil => rfl
  | cons n ns ih => rw [List.foldl_cons, ih, Interference.adjacent_addNode]

lemma mem_nodes_foldl_addNode (ns : List String) (g : Interference) :
    x ∈ (ns.foldl Interference.addNode g).nodes ↔ x ∈ ns ∨ x ∈ g.nodes := by
  induction ns generalizing g with
  | nil => simp
  | cons n ns ih =>
    rw [List.foldl_cons, ih, Interference.mem_nodes_addNode, List.mem_cons]
    tauto

/-- Webs are neighbours exactly if they are different and meet. -/
lemma mem_adjacent_interference : b ∈ ws.interference.adjacent a ↔
    a ∈ ws.keys ∧ b ∈ ws.keys ∧ a ≠ b ∧ ∃ i, i ∈ ws.points a ∧ i ∈ ws.points b := by
  have hpairs := mem_pairs (a := a) (b := b) ws.keys.nodup_toList
  rw [interference, mem_adjacent_foldl_addEdge, adjacent_foldl_addNode]
  simp only [Interference.adjacent_empty, OrdSet.not_mem_empty, false_or, conflicts,
    List.mem_filter, OrdSet.intersects_iff]
  rw [OrdSet.mem_toList, OrdSet.mem_toList] at hpairs
  constructor
  · rintro ⟨-, ⟨h, hi⟩ | ⟨h, hi⟩⟩
    · obtain ⟨h1, h2, h3⟩ := hpairs.mp (Or.inl h)
      exact ⟨h1, h2, h3, hi⟩
    · obtain ⟨h1, h2, h3⟩ := hpairs.mp (Or.inr h)
      obtain ⟨i, hb, ha⟩ := hi
      exact ⟨h1, h2, h3, i, ha, hb⟩
  · rintro ⟨h1, h2, h3, i, ha, hb⟩
    refine ⟨Ne.symm h3, ?_⟩
    rcases hpairs.mpr ⟨h1, h2, h3⟩ with h | h
    · exact Or.inl ⟨h, i, ha, hb⟩
    · exact Or.inr ⟨h, i, hb, ha⟩

lemma mem_nodes_interference : x ∈ ws.interference.nodes ↔ x ∈ ws.keys := by
  have hkeys : ∀ x, x ∈ (ws.keys.toList.foldl Interference.addNode .empty).nodes ↔ x ∈ ws.keys := by
    intro x
    rw [mem_nodes_foldl_addNode, OrdSet.mem_toList]
    have hempty : x ∉ Interference.empty.nodes := OrdSet.not_mem_empty x
    simp [hempty]
  rw [interference, mem_nodes_foldl_addEdge, hkeys]
  intro p hp
  rw [hkeys, hkeys]
  obtain ⟨h1, h2, -⟩ := (mem_pairs ws.keys.nodup_toList).mp (Or.inl (List.mem_filter.mp hp).1)
  exact ⟨h1, h2⟩

lemma undirected_interference : ws.interference.Undirected := by
  refine ⟨fun a b hb => ?_, fun a ha => ?_⟩
  · obtain ⟨h1, h2, h3, i, h4, h5⟩ := mem_adjacent_interference.mp hb
    exact mem_adjacent_interference.mpr ⟨h2, h1, Ne.symm h3, i, h5, h4⟩
  · exact (mem_adjacent_interference.mp ha).2.2.1 rfl

end Webs

/-- The variables that instruction `i` keeps alive or defines. -/
def Liveness.occupied (l : Liveness) (i : Nat) : NameSet := l.liveOut i ∪ l.defs i

namespace Function
variable {p : Program} {f : Function} {l : Liveness} {v : String} {i : Nat}
  {os : List (String × Nat)} {ws : Webs}

lemma mem_occupied : v ∈ l.occupied i ↔ v ∈ l.liveOut i ∨ v ∈ l.defs i := by
  simp [Liveness.occupied]

lemma mem_occupations : (v, i) ∈ f.occupations l ↔ i < f.code.length ∧ v ∈ l.occupied i := by
  simp only [occupations, positions, List.mem_flatMap, List.mem_range, List.mem_map,
    List.mem_append, OrdSet.mem_toList, Prod.mk.injEq, mem_occupied]
  constructor
  · rintro ⟨i, hi, v, hv, rfl, rfl⟩
    exact ⟨hi, hv⟩
  · rintro ⟨hi, hv⟩
    exact ⟨i, hi, v, hv, rfl, rfl⟩

lemma hasWeb_iff : f.hasWeb p v = true ↔ p.isGlobal v = false ∧ f.isArray v = false := by
  simp [hasWeb]

/-- The webs are those of the occupations `os`: the web of a variable has the variable's type and
its instructions, and there is one at least. -/
structure Spans (p : Program) (f : Function) (os : List (String × Nat)) (ws : Webs) : Prop where
  points : ∀ v n, n ∈ ws.points v ↔ f.hasWeb p v = true ∧ ∃ i, (v, i) ∈ os ∧ n = i
  nonempty : ∀ v w, ws.get? v = some w → ∃ n, n ∈ w.points
  isFloat : ∀ v w, ws.get? v = some w → w.isFloat = f.isFloat v

lemma get?_addPoint (hv : f.hasWeb p v = true) (u : String) :
    (f.addPoint p ws (v, i)).get? u = if u = v then
      some ⟨(ws.get? v).elim (f.isFloat v) Web.isFloat, (ws.points v).insert i⟩
    else ws.get? u := by
  rw [addPoint, if_pos hv, OrdMap.get?_alter, OrdMap.getD, Webs.points]
  cases ws.get? v <;> rfl

lemma Spans.addPoint (h : f.Spans p os ws) (v : String) (i : Nat) :
    f.Spans p (os ++ [(v, i)]) (f.addPoint p ws (v, i)) := by
  cases hv : f.hasWeb p v with
  | false =>
    have hskip : f.addPoint p ws (v, i) = ws := if_neg (by simp [hv])
    rw [hskip]
    refine ⟨fun u n => (h.points u n).trans (and_congr_right fun hu => ?_), h.nonempty, h.isFloat⟩
    have huv : u ≠ v := by
      rintro rfl
      rw [hv] at hu
      cases hu
    simp [huv]
  | true =>
    refine ⟨fun u n => ?_, fun u w hw => ?_, fun u w hw => ?_⟩
    · rw [Webs.points, get?_addPoint hv]
      split
      · next huv =>
        subst huv
        rw [Option.elim_some, OrdSet.mem_insert, h.points]
        simp [hv, or_and_right, exists_or, or_comm]
      · next huv =>
        refine (h.points u n).trans (and_congr_right fun _ => ?_)
        simp [huv]
    · rw [get?_addPoint hv] at hw
      split at hw
      · cases hw
        exact ⟨i, OrdSet.mem_insert.mpr (Or.inl rfl)⟩
      · exact h.nonempty u w hw
    · rw [get?_addPoint hv] at hw
      split at hw
      · next huv =>
        subst huv
        cases hw
        cases hold : ws.get? u with
        | none => rfl
        | some w => exact h.isFloat u w hold
      · exact h.isFloat u w hw

lemma spans_webs : f.Spans p (f.occupations l) (f.webs p l) := by
  unfold webs
  induction f.occupations l using List.reverseRecOn with
  | nil => exact ⟨fun v n => by simp [Webs.points], by simp, by simp⟩
  | append_singleton os o ih =>
    rw [List.foldl_append]
    exact ih.addPoint o.1 o.2

lemma mem_points_iff {n : Int} : n ∈ (f.webs p l).points v ↔
    f.hasWeb p v = true ∧ ∃ i < f.code.length, v ∈ l.occupied i ∧ n = i := by
  rw [spans_webs.points]
  simp only [mem_occupations, and_assoc]

lemma exists_web (hv : f.hasWeb p v = true) (hi : i < f.code.length) (hocc : v ∈ l.occupied i) :
    ∃ w, (f.webs p l).get? v = some w := by
  have hmem : (i : Int) ∈ (f.webs p l).points v := mem_points_iff.mpr ⟨hv, i, hi, hocc, rfl⟩
  rw [Webs.points] at hmem
  cases hw : (f.webs p l).get? v with
  | none =>
    rw [hw] at hmem
    exact absurd hmem (OrdSet.not_mem_empty _)
  | some w => exact ⟨w, rfl⟩

/-- A web has the type of its variable and the instructions that the variable occupies. Globals
and arrays have none. -/
lemma get?_webs {w : Web} : (f.webs p l).get? v = some w ↔
    (∃ i < f.code.length, v ∈ l.occupied i) ∧ p.isGlobal v = false ∧ f.isArray v = false ∧
      w.isFloat = f.isFloat v ∧
      ∀ n : Int, n ∈ w.points ↔ ∃ i < f.code.length, v ∈ l.occupied i ∧ n = i := by
  have hspans : f.Spans p (f.occupations l) (f.webs p l) := spans_webs
  constructor
  · intro hw
    have hpoints := Webs.points_of_get? hw
    obtain ⟨n, hn⟩ := hspans.nonempty v w hw
    obtain ⟨hv, i, hi, hocc, -⟩ := mem_points_iff.mp (hpoints ▸ hn)
    obtain ⟨hglobal, harray⟩ := hasWeb_iff.mp hv
    refine ⟨⟨i, hi, hocc⟩, hglobal, harray, hspans.isFloat v w hw, fun n => ?_⟩
    rw [← hpoints, mem_points_iff]
    exact and_iff_right hv
  · rintro ⟨⟨i, hi, hocc⟩, hglobal, harray, hfloat, hpoints⟩
    have hv : f.hasWeb p v = true := hasWeb_iff.mpr ⟨hglobal, harray⟩
    obtain ⟨w', hw'⟩ := exists_web hv hi hocc
    have hsame : w'.points = w.points := by
      refine OrdSet.ext fun n => ?_
      rw [← Webs.points_of_get? hw', mem_points_iff, hpoints]
      exact and_iff_right hv
    have htype : w'.isFloat = w.isFloat := (hspans.isFloat v w' hw').trans hfloat.symm
    rw [hw', Option.some_inj]
    cases w
    cases w'
    exact congrArg₂ Web.mk htype hsame

lemma mem_points_webs {w : Web} (h : (f.webs p l).get? v = some w) :
    (i : Int) ∈ (f.webs p l).points v ↔ i < f.code.length ∧ v ∈ l.occupied i := by
  rw [Webs.points_of_get? h, (get?_webs.mp h).2.2.2.2]
  constructor
  · rintro ⟨j, hj, hv, hij⟩
    obtain rfl : i = j := by omega
    exact ⟨hj, hv⟩
  · rintro ⟨hi, hv⟩
    exact ⟨i, hi, hv, rfl⟩

end Function

namespace Allocation
variable {p : Program} {f : Function} {k : Int} {u v : String} {r i : Nat}

/-- A variable with a register is a local integer variable with a web, and the number of the
register is below `k`. -/
structure Registered (p : Program) (f : Function) (k : Int) (v : String) (r : Nat) : Prop where
  occupies : ∃ i < f.code.length, v ∈ f.liveness.occupied i
  local_ : p.isGlobal v = false
  notArray : f.isArray v = false
  isInt : f.isInt v = true
  notFloat : f.isFloat v = false
  bound : (r : Int) < k

lemma registered (h : (ofFunction p f k).register? v = some r) : Registered p f k v r := by
  obtain ⟨hnode, hfloat, hr⟩ := Coloring.get?_ofGraph h
  obtain ⟨w, hw⟩ := OrdMap.mem_keys_iff.mp (Webs.mem_nodes_interference.mp hnode)
  obtain ⟨hocc, hglobal, harray, hwf, -⟩ := Function.get?_webs.mp hw
  have hnf : f.isFloat v = false := by
    by_contra hf
    have hwt : w.isFloat = true := by simpa [hwf] using hf
    refine hfloat (List.mem_map.mpr ⟨(v, w), ?_, rfl⟩)
    rw [OrdMap.filter, List.mem_filter]
    exact ⟨OrdMap.get?_eq_some_iff.mp hw, hwt⟩
  have hvar : f.isVar v = true := by
    obtain ⟨i, -, hi⟩ := hocc
    rcases Function.mem_occupied.mp hi with hi | hi
    · exact Function.isVar_of_mem_liveOut hi
    · exact Function.isVar_of_mem_defs hi
  have hint : f.isInt v = true := by simpa [FunctionDef.isVar, hnf] using hvar
  exact ⟨hocc, hglobal, harray, hint, hnf, hr⟩

/-- Two variables that occupy the same instruction have different registers. -/
lemma register?_ne (hu : u ∈ f.liveness.occupied i) (hv : v ∈ f.liveness.occupied i)
    (hi : i < f.code.length) (huv : u ≠ v) (h : (ofFunction p f k).register? u = some r) :
    (ofFunction p f k).register? v ≠ some r := by
  intro h'
  obtain ⟨hu1, -, -⟩ := Coloring.get?_ofGraph h
  obtain ⟨hv1, -, -⟩ := Coloring.get?_ofGraph h'
  have hu2 := Webs.mem_nodes_interference.mp hu1
  have hv2 := Webs.mem_nodes_interference.mp hv1
  obtain ⟨wu, hwu⟩ := OrdMap.mem_keys_iff.mp hu2
  obtain ⟨wv, hwv⟩ := OrdMap.mem_keys_iff.mp hv2
  have hadj : v ∈ (f.webs p f.liveness).interference.adjacent u := by
    refine Webs.mem_adjacent_interference.mpr ⟨hu2, hv2, huv, (i : Int), ?_, ?_⟩
    · exact (Function.mem_points_webs hwu).mpr ⟨hi, hu⟩
    · exact (Function.mem_points_webs hwv).mpr ⟨hi, hv⟩
  exact Coloring.proper_ofGraph Webs.undirected_interference u v r hadj h h'

lemma mem_liveAt : (v, r) ∈ (ofFunction p f k).liveAt i ↔
    i < f.code.length ∧ v ∈ f.liveness.occupied i ∧ (ofFunction p f k).register? v = some r := by
  rw [liveAt, List.mem_filterMap]
  constructor
  · rintro ⟨⟨n, w⟩, hw, h⟩
    dsimp only at h
    split at h
    · next hc =>
      obtain ⟨s, hs, h⟩ := Option.map_eq_some_iff.mp h
      obtain ⟨rfl, rfl⟩ := Prod.mk.inj h
      have hget : (f.webs p f.liveness).get? n = some w := OrdMap.get?_eq_some_iff.mpr hw
      have hmem : (i : Int) ∈ (f.webs p f.liveness).points n := by
        rw [Webs.points_of_get? hget]
        exact OrdSet.contains_iff.mp hc
      obtain ⟨h1, h2⟩ := (Function.mem_points_webs hget).mp hmem
      exact ⟨h1, h2, hs⟩
    · cases h
  · rintro ⟨hi, hv, hr⟩
    have hnode := Webs.mem_nodes_interference.mp (Coloring.get?_ofGraph hr).1
    obtain ⟨w, hw⟩ := OrdMap.mem_keys_iff.mp hnode
    refine ⟨(v, w), OrdMap.get?_eq_some_iff.mp hw, ?_⟩
    have hmem := (Function.mem_points_webs hw).mpr ⟨hi, hv⟩
    rw [Webs.points_of_get? hw] at hmem
    dsimp only
    rw [if_pos (OrdSet.contains_iff.mpr hmem), hr, Option.map_some]

/-- No variable is listed twice. -/
lemma names_liveAt (a : Allocation) (i : Nat) : (a.liveAt i).Pairwise fun e e' => e.1 ≠ e'.1 := by
  have hkeys : a.webs.entries.Pairwise fun e e' => e.1 ≠ e'.1 :=
    List.pairwise_map.mp a.webs.keys.nodup_toList
  have hname : ∀ (e : String × Web) (x : String × Nat),
      (if e.2.points.contains (i : Int) then (a.register? e.1).map (e.1, ·) else none) = some x →
      x.1 = e.1 := by
    intro e x hx
    split at hx
    · obtain ⟨r, -, rfl⟩ := Option.map_eq_some_iff.mp hx
      rfl
    · cases hx
  refine List.pairwise_filterMap.mpr (hkeys.imp ?_)
  intro e e' hne x hx x' hx' heq
  rw [hname e x hx, hname e' x' hx'] at heq
  exact hne heq

/-- The variables in registers at an instruction are in different ones. -/
lemma nodup_registers_liveAt : (((ofFunction p f k).liveAt i).map Prod.snd).Nodup := by
  refine List.pairwise_map.mpr ((names_liveAt _ i).imp_of_mem ?_)
  rintro ⟨u, r⟩ ⟨v, s⟩ hu hv huv rfl
  obtain ⟨hi, hou, hur⟩ := mem_liveAt.mp hu
  obtain ⟨-, hov, hvr⟩ := mem_liveAt.mp hv
  exact register?_ne hou hov hi huv hur hvr

/-- No more variables are in registers at an instruction than there are registers. -/
lemma length_liveAt_le : ((ofFunction p f k).liveAt i).length ≤ k.toNat := by
  have hbound : ∀ r ∈ ((ofFunction p f k).liveAt i).map Prod.snd, r ∈ List.range k.toNat := by
    intro r hr
    obtain ⟨⟨v, s⟩, hv, rfl⟩ := List.mem_map.mp hr
    have hlt := (registered (mem_liveAt.mp hv).2.2).bound
    rw [List.mem_range]
    omega
  have hle := (nodup_registers_liveAt.subperm hbound).length_le
  rwa [List.length_map, List.length_range] at hle

end Allocation

/-- Allocation is sound, for any number of registers. A variable that is live after an instruction
shares its register with none that is live there or defined there, even if that definition is never
read. Only local integer variables have registers, with numbers below `k`, so never more than `k`
are kept at an instruction. -/
theorem allocation_keeps_live_apart (p : Program) (f : Function) (k : Int) :
    (∀ i < f.code.length, ∀ a b : String,
      a ∈ (Allocation.ofFunction p f k).liveness.liveOut i →
      b ∈ (Allocation.ofFunction p f k).liveness.liveOut i ∨
        b ∈ (Allocation.ofFunction p f k).liveness.defs i →
      a ≠ b → ∀ r s, (Allocation.ofFunction p f k).register? a = some r →
        (Allocation.ofFunction p f k).register? b = some s → r ≠ s) ∧
    (∀ v r, (Allocation.ofFunction p f k).register? v = some r →
      (r : Int) < k ∧ f.isInt v = true ∧ f.isFloat v = false ∧ p.isGlobal v = false ∧
        f.isArray v = false) ∧
    ∀ i, (((Allocation.ofFunction p f k).liveAt i).length : Int) ≤ max k 0 := by
  refine ⟨fun i hi a b ha hb hab r s hr hs hrs => ?_, fun v r hv => ?_, fun i => ?_⟩
  · have hoa : a ∈ f.liveness.occupied i := Function.mem_occupied.mpr (Or.inl ha)
    have hob : b ∈ f.liveness.occupied i := Function.mem_occupied.mpr hb
    exact Allocation.register?_ne hoa hob hi hab hr (hrs ▸ hs)
  · have h := Allocation.registered hv
    exact ⟨h.bound, h.isInt, h.notFloat, h.local_, h.notArray⟩
  · have hle := Allocation.length_liveAt_le (p := p) (f := f) (k := k) (i := i)
    omega

/-- A function with a definition that is never read. -/
def deadStore : FunctionDef where
  name := "f"
  ints := ["a", "b"]
  code := [
    { op := .assign, arg1 := "a", arg2 := "1" },
    { op := .assign, arg1 := "b", arg2 := "2" },
    { op := .ret, arg1 := "a" }]

def deadStoreFunction : Function := deadStore.build.toOption.get (by decide +kernel)

abbrev deadStoreAllocation (k : Int) : Allocation :=
  .ofFunction (.ofFunctions [deadStoreFunction]) deadStoreFunction k

/-- The dead definition of `b` does not overwrite `a`, which is live across it: with two registers
each has its own, and with one register one of them has none. -/
theorem allocation_keeps_live_apart_deadStore :
    deadStore.build = .ok deadStoreFunction ∧
    (∀ k, "a" ∈ (deadStoreAllocation k).liveness.liveOut 1 ∧
      "b" ∈ (deadStoreAllocation k).liveness.defs 1 ∧
      ∀ r s, (deadStoreAllocation k).register? "a" = some r →
        (deadStoreAllocation k).register? "b" = some s → r ≠ s) ∧
    ((deadStoreAllocation 2).register? "a").isSome = true ∧
    ((deadStoreAllocation 2).register? "b").isSome = true ∧
    ((deadStoreAllocation 1).liveAt 1).length ≤ 1 := by
  refine ⟨rfl, fun k => ?_, by decide +kernel, by decide +kernel, ?_⟩
  · have ha : "a" ∈ deadStoreFunction.liveness.liveOut 1 := by decide +kernel
    have hb : "b" ∈ deadStoreFunction.liveness.defs 1 := by decide +kernel
    exact ⟨ha, hb, (allocation_keeps_live_apart _ deadStoreFunction k).1 1 (by decide +kernel)
      "a" "b" ha (Or.inr hb) (by decide)⟩
  · have hle : (((deadStoreAllocation 1).liveAt 1).length : Int) ≤ max 1 0 :=
      (allocation_keeps_live_apart _ deadStoreFunction 1).2.2 1
    omega

/-! ### Interference -/

namespace Allocation
variable {p : Program} {f : Function} {k : Int} {u v : String}

/-- Variable `v` is live after instruction `i` or defined by it. -/
def Occupies (a : Allocation) (i : Nat) (v : String) : Prop :=
  v ∈ a.liveness.liveOut i ∨ v ∈ a.liveness.defs i

lemma occupies_iff {i : Nat} : (ofFunction p f k).Occupies i v ↔ v ∈ f.liveness.occupied i :=
  Function.mem_occupied.symm

lemma mem_keys_webs : v ∈ (ofFunction p f k).webs.keys ↔
    p.isGlobal v = false ∧ f.isArray v = false ∧
      ∃ i < f.code.length, (ofFunction p f k).Occupies i v := by
  simp only [occupies_iff]
  rw [OrdMap.mem_keys_iff]
  constructor
  · rintro ⟨w, hw⟩
    obtain ⟨hocc, hglobal, harray, -⟩ := Function.get?_webs.mp hw
    exact ⟨hglobal, harray, hocc⟩
  · rintro ⟨hglobal, harray, i, hi, hocc⟩
    exact Function.exists_web (Function.hasWeb_iff.mpr ⟨hglobal, harray⟩) hi hocc

/-- The points of a web are the instructions that its variable occupies. -/
lemma mem_points_iff {w : Web} (h : (ofFunction p f k).webs.get? v = some w) (n : Int) :
    n ∈ w.points ↔ ∃ i < f.code.length, (ofFunction p f k).Occupies i v ∧ n = i := by
  simp only [occupies_iff]
  exact (Function.get?_webs.mp h).2.2.2.2 n

lemma hasEdge_iff : (ofFunction p f k).graph.hasEdge u v = true ↔
    u ∈ (ofFunction p f k).webs.keys ∧ v ∈ (ofFunction p f k).webs.keys ∧ u ≠ v ∧
      ∃ i < f.code.length,
        (ofFunction p f k).Occupies i u ∧ (ofFunction p f k).Occupies i v := by
  rw [Interference.hasEdge, OrdSet.contains_iff]
  refine Webs.mem_adjacent_interference.trans (and_congr_right fun hu => and_congr_right fun hv =>
    and_congr_right fun _ => ?_)
  obtain ⟨wu, hwu⟩ := OrdMap.mem_keys_iff.mp hu
  obtain ⟨wv, hwv⟩ := OrdMap.mem_keys_iff.mp hv
  constructor
  · rintro ⟨n, hnu, hnv⟩
    obtain ⟨i, hi, hiu, rfl⟩ := (mem_points_iff hwu n).mp (Webs.points_of_get? hwu ▸ hnu)
    obtain ⟨j, -, hjv, hij⟩ := (mem_points_iff hwv i).mp (Webs.points_of_get? hwv ▸ hnv)
    obtain rfl : i = j := by omega
    exact ⟨i, hi, hiu, hjv⟩
  · rintro ⟨i, hi, hiu, hiv⟩
    refine ⟨i, ?_, ?_⟩
    · exact Webs.points_of_get? hwu ▸ (mem_points_iff hwu i).mpr ⟨i, hi, hiu, rfl⟩
    · exact Webs.points_of_get? hwv ▸ (mem_points_iff hwv i).mpr ⟨i, hi, hiv, rfl⟩

end Allocation

/-- Interference is occupation of the same instruction. A variable has a web exactly if it is
neither global nor an array and some instruction keeps it alive or defines it, the web spans just
these instructions, and two webs interfere exactly if they are different and have one of them in
common, in whichever order they are asked for. -/
theorem interference_iff_occupied_together (p : Program) (f : Function) (k : Int) :
    (∀ v, v ∈ (Allocation.ofFunction p f k).webs.keys ↔
      p.isGlobal v = false ∧ f.isArray v = false ∧
        ∃ i < f.code.length, (Allocation.ofFunction p f k).Occupies i v) ∧
    (∀ v w, (Allocation.ofFunction p f k).webs.get? v = some w → ∀ n : Int,
      n ∈ w.points ↔ ∃ i < f.code.length, (Allocation.ofFunction p f k).Occupies i v ∧ n = i) ∧
    (∀ a b, (Allocation.ofFunction p f k).graph.hasEdge a b = true ↔
      a ∈ (Allocation.ofFunction p f k).webs.keys ∧
      b ∈ (Allocation.ofFunction p f k).webs.keys ∧ a ≠ b ∧
        ∃ i < f.code.length, (Allocation.ofFunction p f k).Occupies i a ∧
          (Allocation.ofFunction p f k).Occupies i b) ∧
    ∀ a b, (Allocation.ofFunction p f k).graph.hasEdge a b =
      (Allocation.ofFunction p f k).graph.hasEdge b a := by
  refine ⟨fun v => Allocation.mem_keys_webs, fun v w hw n => Allocation.mem_points_iff hw n,
    fun a b => Allocation.hasEdge_iff, fun a b => ?_⟩
  exact Webs.undirected_interference.hasEdge_comm a b

/-- A definition that is never read has a web at its instruction alone, which meets that of the
variable live across it. -/
theorem interference_iff_occupied_deadStore :
    (deadStoreAllocation 2).Occupies 1 "b" ∧ (deadStoreAllocation 2).Occupies 1 "a" ∧
    ((deadStoreAllocation 2).webs.points "b").toList = [1] ∧
    (deadStoreAllocation 2).graph.hasEdge "b" "a" = true := by
  have ha : "a" ∈ deadStoreFunction.liveness.liveOut 1 := by decide +kernel
  have hb : "b" ∈ deadStoreFunction.liveness.defs 1 := by decide +kernel
  obtain ⟨hkeys, -, hedge, -⟩ :=
    interference_iff_occupied_together (.ofFunctions [deadStoreFunction]) deadStoreFunction 2
  refine ⟨Or.inr hb, Or.inl ha, by decide +kernel, (hedge "b" "a").mpr ⟨?_, ?_, by decide, ?_⟩⟩
  · exact (hkeys "b").mpr ⟨by decide +kernel, by decide +kernel, 1, by decide +kernel, Or.inr hb⟩
  · exact (hkeys "a").mpr ⟨by decide +kernel, by decide +kernel, 1, by decide +kernel, Or.inl ha⟩
  · exact ⟨1, by decide +kernel, Or.inr hb, Or.inl ha⟩

end MipsBackend
