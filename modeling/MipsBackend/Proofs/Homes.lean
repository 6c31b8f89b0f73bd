import MipsBackend.Proofs.Failures

/-! Homes in memory. Every variable that has a place has one of its own, and none is the place of
the return address. So where all variables are kept in memory, one that is read has the value that
was stored to it last. -/
namespace MipsBackend
open Asm Asm.Register Machine

namespace Scope
variable {s : Scope} {u v : String} {l l' : Location}

lemma addressable_of_location? (h : s.location? v = some l) : s.Addressable v :=
  addressable_of_unplaced? (unplaced?_of_location?_eq_some h)

/-- The variables with a place are those that are shared or declared. -/
lemma exists_location?_iff : (∃ l, s.location? v = some l) ↔
    s.program.isGlobal v = true ∨ v ∈ s.function.ints ∨ v ∈ s.function.floats := by
  have haddr : s.Addressable v ↔
      s.program.isGlobal v = true ∨ v ∈ s.function.ints ∨ v ∈ s.function.floats := by
    simp only [Addressable, FunctionDef.isVar, FunctionDef.isInt, FunctionDef.isFloat,
      Bool.or_eq_true, List.contains_iff_mem]
    exact or_comm
  rw [← haddr]
  constructor
  · rintro ⟨l, hl⟩
    exact addressable_of_location? hl
  · intro hv
    obtain ⟨l, hl, -⟩ := location?_of_addressable hv
    exact ⟨l, hl⟩

lemma operand_injective (hu : s.location? u = some l) (hv : s.location? v = some l')
    (h : l.operand = l'.operand) : u = v := by
  rw [← cell_eq_operand hu, ← cell_eq_operand hv] at h
  exact cell_injective (addressable_of_location? hu) (addressable_of_location? hv) h

end Scope

/-- Stores of registers or literals to variables, in order. -/
def Action.stores (xs : List (String × String)) : List Action :=
  xs.map fun x => .write (.text x.1) x.2

namespace Machine
variable {q : Placement} {V : Type} {m : Machine q.program V} {c : Cache} {t : State V}
  {src v : String} {xs before after : List (String × String)}

/-- A store to a variable in memory changes the cell of that variable alone. -/
lemma store_step (hq : q.plan = .memory) (hv : q.Addressable v) (src : String) :
    ∃ t', m.Performs (q.emission c (.write (.text src) v)) t [] t' ∧
      t'.mem (q.cell v) = m.value t src ∧
      ∀ u, q.Addressable u → u ≠ v → t'.mem (q.cell u) = t.mem (q.cell u) := by
  have hsound : q.Sound c := by
    intro u n hu
    simp [Placement.register?, hq] at hu
  have htarget : q.target? c v = none := by simp [Placement.target?, hq]
  obtain ⟨t', hperforms, hwrites, -⟩ := write_spec (m := m) (t := t) hsound hv (.text src)
  exact ⟨t', hperforms, hwrites.mem_cell htarget, fun u hu huv => hwrites.mem_cell_of_ne hu hv huv⟩

/-- Stores leave the cells of all other variables alone. -/
lemma stores_run (hq : q.plan = .memory) (hxs : ∀ x ∈ xs, q.Addressable x.2) :
    ∃ t', m.Performs (q.run c (Action.stores xs)) t [] t' ∧
      ∀ u, q.Addressable u → (∀ x ∈ xs, x.2 ≠ u) → t'.mem (q.cell u) = t.mem (q.cell u) := by
  induction xs generalizing c t with
  | nil => exact ⟨t, performs_nothing, fun _ _ _ => rfl⟩
  | cons x xs ih =>
    obtain ⟨t₁, hfirst, -, hother⟩ :=
      store_step (m := m) (c := c) (t := t) hq (hxs x (by simp)) x.1
    obtain ⟨t₂, hrest, hothers⟩ := ih (c := q.next c (.write (.text x.1) x.2)) (t := t₁)
      fun y hy => hxs y (by simp [hy])
    refine ⟨t₂, performs_run_cons hfirst hrest, fun u hu hne => ?_⟩
    rw [hothers u hu fun y hy => hne y (by simp [hy]), hother u hu (hne x (by simp)).symm]

/-- Stores leave in the cell of a variable what the last of them to that variable has stored. -/
lemma stores_last (hq : q.plan = .memory)
    (hxs : ∀ x ∈ before ++ (src, v) :: after, q.Addressable x.2) (hlast : ∀ x ∈ after, x.2 ≠ v) :
    ∃ t', m.Performs (q.run c (Action.stores (before ++ (src, v) :: after))) t [] t' ∧
      t'.mem (q.cell v) = m.value (m.run t (q.run c (Action.stores before)).lines) src := by
  have hv : q.Addressable v := hxs (src, v) (by simp)
  obtain ⟨t₁, hbefore, -⟩ := stores_run (m := m) (c := c) (t := t) hq
    fun x hx => hxs x (List.mem_append_left _ hx)
  have hafter : ∀ x ∈ after, q.Addressable x.2 := fun x hx => hxs x (by simp [hx])
  obtain ⟨t₂, hstore, hvalue, -⟩ :=
    store_step (m := m) (c := q.nexts c (Action.stores before)) (t := t₁) hq hv src
  obtain ⟨t₃, hrest, hkeep⟩ := stores_run (m := m) (t := t₂)
    (c := q.next (q.nexts c (Action.stores before)) (.write (.text src) v)) hq hafter
  refine ⟨t₃, ?_, ?_⟩
  · rw [Action.stores, List.map_append, Placement.run_append]
    exact hbefore.andThen (performs_run_cons hstore hrest)
  · rw [hkeep v hv hlast, hvalue, hbefore.run]

/-- A variable that is read after stores has what they have left in its cell. -/
lemma read_after_stores (hq : q.plan = .memory) (hv : q.Addressable v) {t' : State V}
    (h : m.Performs (q.run c (Action.stores xs)) t [] t') (r : Register) :
    (q.run c (Action.stores xs ++ [.read v r])).failure = none ∧
      (m.run t (q.run c (Action.stores xs ++ [.read v r])).lines).regs r = t'.mem (q.cell v) := by
  have hread := read_performs_memory (m := m) (t := t') (c := q.nexts c (Action.stores xs)) hv
    (by simp [Placement.register?, hq]) r
  rw [Placement.run_append, Placement.run_singleton]
  obtain ⟨hok, hrun, -⟩ := h.andThen hread
  exact ⟨hok, by rw [hrun, State.regs_setReg, if_pos rfl]⟩

end Machine

/-- In every function, the variables that can be addressed are those that are shared or declared.
Different ones have different memory operands, and none of these is the slot behind all variables,
where the return address is kept. So where variables are kept in memory, stores to some of them and
then a read leave in a register what was stored to the variable last, or what was in its cell before
if nothing was stored to it. -/
theorem memory_homes_apart (p : Program) (f : Function) :
    let s : Scope := ⟨p, f⟩
    let q := Strategy.memory.place s
    (∀ v, (∃ l, s.location? v = some l) ↔ p.isGlobal v = true ∨ v ∈ f.ints ∨ v ∈ f.floats) ∧
    (∀ u v l l', s.location? u = some l → s.location? v = some l' → u ≠ v →
      l.operand ≠ l'.operand) ∧
    s.returnSlot = stackSlot (wordSize * f.numVariables : Nat) ∧
    (∀ v l, s.location? v = some l → l.operand ≠ s.returnSlot) ∧
    ∀ {V : Type} (m : Machine p V) (t : State V) (c : Cache) (xs : List (String × String))
      (v r : String) (l : Location),
      (∀ x ∈ xs, ∃ l, s.location? x.2 = some l) → s.location? v = some l →
      let e := q.run c (Action.stores xs ++ [.read v r])
      e.failure = none ∧
      (∀ before src after, xs = before ++ (src, v) :: after → (∀ x ∈ after, x.2 ≠ v) →
        (m.run t e.lines).regs r = m.value (m.run t (q.run c (Action.stores before)).lines) src) ∧
      ((∀ x ∈ xs, x.2 ≠ v) → (m.run t e.lines).regs r = t.mem l.operand) := by
  intro s q
  refine ⟨fun v => Scope.exists_location?_iff, fun u v l l' hu hv huv h => ?_, Scope.returnSlot_eq,
    fun v l hv => ?_, fun {V} m t c xs v r l hxs hl => ?_⟩
  · exact huv (Scope.operand_injective hu hv h)
  · rw [← Scope.cell_eq_operand hv]
    exact Scope.cell_ne_returnSlot (Scope.addressable_of_location? hv)
  · have hq : q.plan = .memory := rfl
    have haddr : ∀ x ∈ xs, q.Addressable x.2 := fun x hx =>
      (hxs x hx).elim fun _ h => Scope.addressable_of_location? (s := s) h
    have hv : q.Addressable v := Scope.addressable_of_location? (s := s) hl
    obtain ⟨t', hstores, hkeep⟩ := stores_run (m := m) (c := c) (t := t) hq haddr
    obtain ⟨hok, hread⟩ := read_after_stores hq hv hstores r
    refine ⟨hok, fun before src after hsplit hlast => ?_, fun hnone => ?_⟩
    · subst hsplit
      obtain ⟨t'', hstores', hvalue⟩ := stores_last (m := m) (c := c) (t := t) hq haddr hlast
      obtain rfl : t' = t'' := hstores.run.symm.trans hstores'.run
      exact hread.trans hvalue
    · have hcell : q.cell v = l.operand := Scope.cell_eq_operand (s := s) hl
      exact hread.trans ((hkeep v hv hnone).trans (congrArg t.mem hcell))

/-- A function that declares `a` three times, once as a float, and shares `g`. -/
def redeclaring : FunctionDef where
  name := "f"
  ints := ["a", "b", "a"]
  floats := ["a", "x"]
  code := [{ op := .assign, arg1 := "g", arg2 := "a" }, { op := .ret }]

def redeclaringScope : Scope where
  program := .ofFunctions ([redeclaring, { redeclaring with name := "g", code := [
    { op := .ret, arg1 := "g" }] }].filterMap fun d => d.build.toOption)
  function := redeclaring.build.toOption.get (by decide +kernel)

/-- The second store passes on what the first one has left in `$t0`. -/
abbrev redeclaringStores : List (String × String) :=
  [("5", "a"), ("$t0", "x"), ("3", "a"), ("$t0", "g")]

theorem memory_homes_apart_redeclaring :
    ["a", "b", "x", "g"].map redeclaringScope.location? =
      [some ⟨"0($sp)", false⟩, some ⟨"4($sp)", false⟩, some ⟨"16($sp)", true⟩,
        some ⟨"g", false⟩] ∧
    redeclaringScope.returnSlot = "20($sp)" ∧
    ∀ (m : Machine redeclaringScope.program Int) (t : State Int),
      (m.run t ((Strategy.memory.place redeclaringScope).run {}
        (Action.stores redeclaringStores ++ [.read "x" "$f2"])).lines).regs "$f2" =
          m.literal "5" ∧
      (m.run t ((Strategy.memory.place redeclaringScope).run {}
        (Action.stores redeclaringStores ++ [.read "b" "$t1"])).lines).regs "$t1" =
          t.mem "4($sp)" := by
  have hplaces : ["a", "b", "x", "g"].map redeclaringScope.location? =
      [some ⟨"0($sp)", false⟩, some ⟨"4($sp)", false⟩, some ⟨"16($sp)", true⟩,
        some ⟨"g", false⟩] := by
    decide +kernel
  have hstored : ∀ x ∈ redeclaringStores, ∃ l, redeclaringScope.location? x.2 = some l := by
    simp only [← Option.isSome_iff_exists]
    decide +kernel
  refine ⟨hplaces, by decide +kernel, fun m t => ?_⟩
  simp only [List.map_cons, List.map_nil, List.cons.injEq, and_true] at hplaces
  obtain ⟨-, -, -, -, hreads⟩ :=
    memory_homes_apart redeclaringScope.program redeclaringScope.function
  constructor
  · have hx := (hreads m t {} redeclaringStores "x" "$f2" _ hstored hplaces.2.2.1).2.1
      [("5", "a")] "$t0" [("3", "a"), ("$t0", "g")] rfl (by decide)
    have hfirst : ((Strategy.memory.place redeclaringScope).run {}
        (Action.stores [("5", "a")])).lines =
          [plainLine "li" ["$t0", "5"], notedLine "store to a" "sw" ["$t0", "0($sp)"]] := by
      decide +kernel
    refine hx.trans ?_
    rw [hfirst]
    rfl
  · exact (hreads m t {} redeclaringStores "b" "$t1" _ hstored hplaces.2.1).2.2 (by decide)

end MipsBackend
