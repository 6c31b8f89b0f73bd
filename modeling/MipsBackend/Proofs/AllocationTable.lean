import MipsBackend.Placement.Basic
import MipsBackend.Proofs.Greedy
import MipsBackend.Proofs.Operands
import MipsBackend.Report.Basic

/-! The table of an allocation tells where the code keeps each variable. The table finds this out on
its own, from what is global and from the webs, and the code from the registers and from memory;
both come to the same home. -/
namespace MipsBackend
open Asm Asm.Register

/-- The table has a row for the name that ends in the location. -/
def Table.Tells (t : Table) (v location : String) : Prop :=
  ∃ row ∈ t.rows, row.head? = some (.text v) ∧ row.getLast? = some (.text location)

instance (t : Table) (v location : String) : Decidable (t.Tells v location) :=
  inferInstanceAs (Decidable (∃ row ∈ t.rows, _))

namespace Allocation
variable {p : Program} {f : Function} {k : Int} {v : String}

/-- What the table adds to the place of a variable. -/
def mark (a : Allocation) (p : Program) (v : String) : String :=
  (if p.isGlobal v then " (global)" else "") ++
    if v ∈ a.webs.keys ∧ v ∈ a.spilled then " (spilled)" else ""

/-- The register of a variable, or its memory operand if it has none. -/
def homeText (a : Allocation) (s : Scope) (v : String) : String :=
  (a.register? v).elim (s.cell v) fun r => saved r

lemma name_report (a : Allocation) (p : Program) (f : Function) (v : String) :
    (a.report p f v).name = v := by
  unfold report
  dsimp only
  repeat' split
  all_goals rfl

/-- All rows for a name end in the location that is reported for it. -/
lemma tells_table {a : Allocation} (hv : v ∈ f.ints ++ f.floats) (l : String) :
    (a.table p f).Tells v l ↔ l = (a.report p f v).location := by
  constructor
  · rintro ⟨row, hrow, hhead, hlast⟩
    obtain ⟨u, -, rfl⟩ := List.mem_map.mp hrow
    have hu : (a.report p f u).name = v := Cell.text.inj (Option.some.inj hhead)
    rw [name_report] at hu
    rw [← hu]
    exact (Cell.text.inj (Option.some.inj hlast)).symm
  · rintro rfl
    refine ⟨_, List.mem_map.mpr ⟨v, hv, rfl⟩, ?_, rfl⟩
    rw [VariableReport.cells, name_report]
    rfl

lemma slotText_eq_cell (hglobal : p.isGlobal v = false) (hv : f.isVar v = true) :
    f.slotText v = Scope.cell ⟨p, f⟩ v := by
  rw [← FunctionDef.isSome_slot?] at hv
  obtain ⟨s, hs⟩ := Option.isSome_iff_exists.mp hv
  simp [Function.slotText, Scope.cell, Scope.location?, hglobal, hs]

lemma mem_spilled_iff {a : Allocation} :
    v ∈ a.webs.keys ∧ v ∈ a.spilled ↔ v ∈ a.webs.keys ∧ a.register? v = none := by
  rw [spilled, Webs.mem_uncolored, and_self_left]
  rfl

/-- A variable without a web has no register. -/
lemma register?_of_not_mem (h : v ∉ (ofFunction p f k).webs.keys) :
    (ofFunction p f k).register? v = none := by
  refine Option.eq_none_iff_forall_ne_some.mpr fun r hr => h ?_
  have hreg := registered hr
  obtain ⟨i, hi, hocc⟩ := hreg.occupies
  exact mem_keys_webs.mpr ⟨hreg.local_, hreg.notArray, i, hi, occupies_iff.mpr hocc⟩

/-- The cascade of the report comes to the home of the variable. -/
lemma location_report (hv : f.isVar v = true) (harray : f.isArray v = false) :
    ((ofFunction p f k).report p f v).location =
      (ofFunction p f k).homeText ⟨p, f⟩ v ++ (ofFunction p f k).mark p v := by
  generalize ha : ofFunction p f k = a
  have hkeys : p.isGlobal v = true → v ∉ a.webs.keys := by
    intro hglobal hmem
    rw [← ha] at hmem
    exact Bool.false_ne_true ((mem_keys_webs.mp hmem).1.symm.trans hglobal)
  have hregister : v ∉ a.webs.keys → a.register? v = none := ha ▸ register?_of_not_mem
  unfold report mark homeText
  simp only [mem_spilled_iff]
  -- Arrays aside, the report asks first whether the name is global and then for a web.
  by_cases hglobal : p.isGlobal v = true
  · have hcell : Scope.cell ⟨p, f⟩ v = v := Scope.cell_of_isGlobal hglobal
    simp [hglobal, hkeys hglobal, hregister (hkeys hglobal), hcell]
  · have hcell := slotText_eq_cell (eq_false_of_ne_true hglobal) hv
    cases hweb : a.webs.get? v with
    | none =>
      have hmem : v ∉ a.webs.keys := fun hmem => by
        obtain ⟨w, hw⟩ := OrdMap.mem_keys_iff.mp hmem
        cases hweb.symm.trans hw
      simp [hglobal, harray, hmem, hregister hmem, hcell]
    | some w =>
      have hmem : v ∈ a.webs.keys := OrdMap.mem_keys_iff.mpr ⟨w, hweb⟩
      cases hreg : a.register? v with
      | none => simp [hglobal, harray, hmem, hcell]
      | some r => simp [hglobal, harray]

lemma mark_of_register? {r : Nat} (h : (ofFunction p f k).register? v = some r) :
    (ofFunction p f k).mark p v = "" := by
  have hspilled : ¬(v ∈ (ofFunction p f k).webs.keys ∧ v ∈ (ofFunction p f k).spilled) := by
    rw [mem_spilled_iff, h]
    simp
  rw [mark, if_neg hspilled, (registered h).local_]
  rfl

/-- A parenthesis tells a place in memory from a register. -/
lemma paren_mem_location {a : Allocation} (hv : f.isVar v = true) (hreg : a.register? v = none) :
    ')' ∈ (a.homeText ⟨p, f⟩ v ++ a.mark p v).toList := by
  rw [homeText, hreg, Option.elim_none, mark, String.toList_append, String.toList_append,
    List.mem_append, List.mem_append]
  by_cases hglobal : p.isGlobal v = true
  · rw [if_pos hglobal]
    exact Or.inr (Or.inl (by decide))
  · obtain ⟨n, -, hcell⟩ :=
      Scope.cell_of_not_isGlobal (s := ⟨p, f⟩) (eq_false_of_ne_true hglobal) hv
    rw [hcell, toList_stackSlot]
    exact Or.inl (List.mem_append_right _ (by decide))

end Allocation

lemma paren_not_mem_saved (r : Nat) : ')' ∉ (saved r).toList := by
  rw [toList_saved]
  intro h
  have hdigit : ')' ∈ Nat.toDigits 10 r := by simpa using h
  exact absurd (Nat.isDigit_of_mem_toDigits (by decide) (by decide) hdigit) (by decide)

namespace Placement
variable {q : Placement} {c : Cache} {v : String}

/-- A variable in memory is loaded from its cell. -/
lemma read_of_register?_eq_none (hv : q.Addressable v) (h : q.register? c v = none) :
    ∃ op ∈ ["lw", "l.s"], q.emission c (.read v t0) =
      ⟨[notedLine ("load from " ++ v) op [t0, q.cell v]], none⟩ := by
  obtain ⟨l, hl, hcell⟩ := Scope.location?_of_addressable hv
  refine ⟨if l.isFloat then "l.s" else "lw", by split <;> simp, ?_⟩
  simp only [emission, h, Scope.load, hl, hcell]

/-- A variable in a register stays there. -/
lemma read_of_register?_eq_some {r : Nat} (h : q.register? c v = some r) :
    q.emission c (.read v t0) = .nothing ∧ q.answer c v t0 = saved r := by
  have ht0 : isArgOrReturn t0 = false := by decide
  simp [emission, answer, h, ht0]

end Placement

/-- For every variable that a function declares, unless it is an array, the table of the allocation
tells one location. This is the register in which code for that allocation finds the variable
without loading it, or else it begins with the memory operand from which the code loads it. Marks
say which variables are global and whose webs are among those that the allocator has spilled. -/
theorem allocation_table_tells_home (p : Program) (f : Function) (k : Nat) (v : String)
    (hv : v ∈ f.ints ++ f.floats) (harray : f.isArray v = false) (c : Cache) :
    let a := Allocation.ofFunction p f k
    let q := (Strategy.perFunction k).place ⟨p, f⟩
    a.spilled = (Allocator.ofWebs a.webs k).allocate.spilled ∧
    ∃ home,
      (∀ location, (a.table p f).Tells v location ↔ location = home ++ a.mark p v) ∧
      (∀ r : Nat, (a.table p f).Tells v (saved r) ↔
        q.emission c (.read v t0) = .nothing ∧ q.answer c v t0 = saved r) ∧
      ((∃ r : Nat, home = saved r ∧ a.mark p v = "") ∨
        ∃ op ∈ ["lw", "l.s"], q.emission c (.read v t0) =
          ⟨[notedLine ("load from " ++ v) op [t0, home]], none⟩) := by
  intro a q
  have hvar : f.isVar v = true := by
    simpa [FunctionDef.isVar, FunctionDef.isInt, FunctionDef.isFloat] using hv
  have htells : ∀ location, (a.table p f).Tells v location ↔
      location = a.homeText ⟨p, f⟩ v ++ a.mark p v := by
    intro location
    rw [Allocation.tells_table hv, Allocation.location_report hvar harray]
  refine ⟨(Allocator.allocate_ofWebs p f k).2.symm, a.homeText ⟨p, f⟩ v, htells, ?_⟩
  simp only [htells]
  cases hreg : a.register? v with
  | some r' =>
    obtain ⟨hnothing, hanswer⟩ := Placement.read_of_register?_eq_some (q := q) (c := c) hreg
    have hmark : a.mark p v = "" := Allocation.mark_of_register? hreg
    have hhome : a.homeText ⟨p, f⟩ v = saved r' := by
      rw [Allocation.homeText, hreg, Option.elim_some]
    refine ⟨fun r => ?_, Or.inl ⟨r', hhome, hmark⟩⟩
    rw [hnothing, hanswer, hmark, hhome, String.append_empty]
    exact ⟨fun h => ⟨rfl, h.symm⟩, fun h => h.2.symm⟩
  | none =>
    obtain ⟨op, hop, hload⟩ :=
      Placement.read_of_register?_eq_none (q := q) (c := c) (Or.inl hvar) hreg
    have hhome : a.homeText ⟨p, f⟩ v = q.cell v := by
      rw [Allocation.homeText, hreg, Option.elim_none]
      rfl
    refine ⟨fun r => ⟨fun h => ?_, fun h => ?_⟩, Or.inr ⟨op, hop, hhome ▸ hload⟩⟩
    · exact absurd (h ▸ Allocation.paren_mem_location hvar hreg) (paren_not_mem_saved r)
    · cases hload.symm.trans h.1

/-- A function with a variable of each kind: `a` has a register, `g` is shared, `d` is never used
and `x` is a float. -/
def sampler : FunctionDef where
  name := "f"
  ints := ["a", "g", "d"]
  floats := ["x"]
  code := [{ op := .assign, arg1 := "a", arg2 := "1" }, { op := .assign, arg1 := "x", arg2 := "2" },
    { op := .assign, arg1 := "g", arg2 := "a" }, { op := .ret }]

/-- The sampler with another function that mentions `g`. -/
def samplers : Program :=
  .ofFunctions ([sampler, { name := "h", code := [{ op := .ret, arg1 := "g" }] }].filterMap
    fun d : FunctionDef => d.build.toOption)

def samplerFunction : Function := sampler.build.toOption.get (by decide +kernel)

def samplerTable : Table :=
  (Allocation.ofFunction samplers samplerFunction 1).table samplers samplerFunction

/-- The register of `a` is where the table says, and so is the operand from which `x` is loaded. -/
theorem allocation_table_tells_sampler :
    let q := (Strategy.perFunction 1).place ⟨samplers, samplerFunction⟩
    samplerTable.Tells "g" "g (global)" ∧ samplerTable.Tells "d" "8($sp)" ∧
    samplerTable.Tells "a" "$s0" ∧
    q.emission {} (.read "a" t0) = .nothing ∧ q.answer {} "a" t0 = "$s0" ∧
    samplerTable.Tells "x" "12($sp) (spilled)" ∧
    ∃ op ∈ ["lw", "l.s"], q.emission {} (.read "x" t0) =
      ⟨[notedLine "load from x" op [t0, "12($sp)"]], none⟩ := by
  intro q
  have hvars : ∀ v ∈ ["a", "x"], v ∈ samplerFunction.ints ++ samplerFunction.floats ∧
      samplerFunction.isArray v = false := by decide +kernel
  have ha := hvars "a" (by decide)
  have hx := hvars "x" (by decide)
  have hrows : samplerTable.Tells "g" "g (global)" ∧ samplerTable.Tells "d" "8($sp)" ∧
      samplerTable.Tells "a" "$s0" ∧ samplerTable.Tells "x" "12($sp) (spilled)" := by
    decide +kernel
  obtain ⟨hg, hd, hrow, hrow'⟩ := hrows
  have hmark : (Allocation.ofFunction samplers samplerFunction 1).mark samplers "x" =
      " (spilled)" := by decide +kernel
  obtain ⟨-, -, -, hregister, -⟩ :=
    allocation_table_tells_home samplers samplerFunction 1 "a" ha.1 ha.2 {}
  obtain ⟨-, home, htells, -, hplace⟩ :=
    allocation_table_tells_home samplers samplerFunction 1 "x" hx.1 hx.2 {}
  obtain ⟨hnothing, hanswer⟩ := (hregister 0).mp hrow
  refine ⟨hg, hd, hrow, hnothing, hanswer, hrow', ?_⟩
  obtain rfl : "12($sp)" = home := by
    have hlocation : "12($sp)" ++ " (spilled)" = home ++ " (spilled)" :=
      hmark ▸ (htells "12($sp) (spilled)").mp hrow'
    exact (String.append_left_inj " (spilled)").mp hlocation
  rcases hplace with ⟨-, -, hnone⟩ | hload
  · exact absurd (hmark.symm.trans hnone) (by decide)
  · exact hload

end MipsBackend
