import MipsBackend.Proofs.PerFunction

/-! The prologue of a function hands its arguments over to the parameters, one after the other.
Where parameters share a register, the last of them stays. -/
namespace MipsBackend
open Asm Asm.Register Machine

lemma Machine.Performs.unique {p : Program} {V : Type} {m : Machine p V} {e : Emission}
    {s t u : State V} {os os' : List (Observation V)} (h : m.Performs e s os t)
    (h' : m.Performs e s os' u) : t = u := h.run.symm.trans h'.run

namespace Placement.PerFunction
variable {q : Placement} {k : Int} {c : Cache} {V : Type} {m : Machine q.program V} {t : State V}
  {v : String} {n : Nat}
variable (hq : q.PerFunction k)
include hq

lemma dest_eq : q.dest c v = (q.allocation k).home q.toScope v := by
  rw [dest, Allocation.home, hq.target?_eq]

/-- A place ends with the value that it has or is given, if no other value is written to it. -/
lemma takes_perform {l : List (String × Nat)} (hl : ∀ e ∈ l, q.Addressable e.1) :
    ∃ t', m.Performs (q.run c (l.map fun e => .write (.text (arg e.2)) e.1)) t [] t' ∧
      (∀ n : Nat, t'.regs (arg n) = t.regs (arg n)) ∧
      ∀ a x, (∀ e ∈ l, (q.allocation k).home q.toScope e.1 = a → t.regs (arg e.2) = x) →
        (t.content a = x ∨ ∃ e ∈ l, (q.allocation k).home q.toScope e.1 = a) →
        t'.content a = x := by
  induction l generalizing c t with
  | nil => exact ⟨t, performs_nothing, fun _ => rfl, fun a x _ h => by simpa using h⟩
  | cons e l ih =>
    obtain ⟨t₁, h₁, hw, -⟩ := write_spec (m := m) (t := t) (hq.sound (c := c)) (hl e (by simp))
      (.text (arg e.2))
    have hvalue : m.value t (c.resolve (.text (arg e.2))) = t.regs (arg e.2) := by
      simp [Cache.resolve, value]
    rw [hvalue, hq.dest_eq] at hw
    have hargs : ∀ n : Nat, t₁.regs (arg n) = t.regs (arg n) :=
      fun n => hw.regs _ (scratch_arg n) (arg_not_temporary n)
    obtain ⟨t', h', hargs', hplaces⟩ := ih (c := q.next c (.write (.text (arg e.2)) e.1)) (t := t₁)
      fun e he => hl e (by simp [he])
    refine ⟨t', performs_run_cons h₁ h', fun n => (hargs' n).trans (hargs n), ?_⟩
    intro a x hall hx
    refine hplaces a x (fun e' he' ha => ?_) ?_
    · rw [hargs]
      exact hall e' (by simp [he']) ha
    · rw [hw.content]
      split
      · next ha => exact Or.inl (hall e (by simp) ha.symm)
      · next ha =>
        rcases hx with hx | ⟨e', he', hx⟩
        · exact Or.inl hx
        · rcases List.mem_cons.mp he' with rfl | he'
          · exact absurd hx.symm ha
          · exact Or.inr ⟨e', he', hx⟩

omit hq in
lemma mem_drop_zipIdx {l : List String} {n j : Nat} :
    (v, j) ∈ l.zipIdx.drop n ↔ n ≤ j ∧ l[j]? = some v := by
  rw [List.mem_iff_getElem?]
  simp only [List.getElem?_drop, List.getElem?_zipIdx, Option.map_eq_some_iff, Prod.mk.injEq]
  constructor
  · rintro ⟨i, u, hu, rfl, hj⟩
    obtain rfl : n + i = j := by omega
    exact ⟨by omega, hu⟩
  · rintro ⟨hn, hv⟩
    have hj : n + (j - n) = j := by omega
    exact ⟨j - n, v, by rw [hj, hv], rfl, by omega⟩

/-- The parameters from a position on decide what ends in a place, if one of them is there. -/
lemma prologue_performs (hparams : ∀ v ∈ q.function.params, q.Addressable v) (n : Nat) :
    ∃ t', m.Performs (q.run c q.lowerPrologue) t [] t' ∧
      ∀ a x, (∀ (j : Nat) v, n ≤ j → q.function.params[j]? = some v →
          (q.allocation k).home q.toScope v = a → t.regs (arg j) = x) →
        (∃ (j : Nat) (v : String), n ≤ j ∧ q.function.params[j]? = some v ∧
          (q.allocation k).home q.toScope v = a) →
        t'.content a = x := by
  have hl : ∀ e ∈ q.function.params.zipIdx, q.Addressable e.1 :=
    fun e he => hparams _ (List.fst_mem_of_mem_zipIdx he)
  -- the frame and the return address leave the argument registers alone
  have hframe := compute_line_performs (q := q) (m := m) (c := c) (t := t) effect_addiu sp sp
    ("-" ++ toString q.frame)
  set t₁ := t.setReg sp (m.compute "addiu" (m.value t sp) (m.value t ("-" ++ toString q.frame)))
  have hsave : m.Performs (q.emission c (.line "sw" [ra, q.returnSlot])) t₁ []
      (t₁.setMem q.returnSlot (t₁.regs ra)) := line_performs "sw" [ra, q.returnSlot]
  have hargs : ∀ n : Nat, (t₁.setMem q.returnSlot (t₁.regs ra)).regs (arg n) = t.regs (arg n) := by
    intro n
    simp [t₁, arg_ne_sp]
  obtain ⟨t₂, h₂, hargs₂, -⟩ := hq.takes_perform (m := m) (c := c)
    (t := t₁.setMem q.returnSlot (t₁.regs ra)) fun e he => hl e (List.mem_of_mem_take (i := n) he)
  obtain ⟨t₃, h₃, -, hplaces⟩ := hq.takes_perform (m := m) (t := t₂)
    (c := q.nexts c ((q.function.params.zipIdx.take n).map fun e => .write (.text (arg e.2)) e.1))
    fun e he => hl e (List.mem_of_mem_drop (i := n) he)
  refine ⟨t₃, ?_, fun a x hall ⟨j, v, hj, hv, ha⟩ => hplaces a x (fun e he hea => ?_) ?_⟩
  · have htakes := h₂.andThen h₃
    rw [← run_append, ← List.map_append, List.take_append_drop] at htakes
    exact performs_run_cons hframe (performs_run_cons hsave htakes)
  · obtain ⟨hn, hv⟩ := mem_drop_zipIdx.mp he
    rw [hargs₂, hargs]
    exact hall e.2 e.1 hn hv hea
  · exact Or.inr ⟨(v, j), mem_drop_zipIdx.mpr ⟨hj, hv⟩, ha⟩

/-- A parameter whose home is not that of a later one has its argument in the end. -/
lemma prologue_holds (hparams : ∀ v ∈ q.function.params, q.Addressable v) {t' : State V}
    {u : String} {i : Nat} (ht' : m.Performs (q.run c q.lowerPrologue) t [] t')
    (hu : q.function.params[i]? = some u)
    (hhome : ∀ (j : Nat) v, i < j → q.function.params[j]? = some v →
      (q.allocation k).home q.toScope v ≠ (q.allocation k).home q.toScope u) :
    t'.content ((q.allocation k).home q.toScope u) = t.regs (arg i) := by
  obtain ⟨t'', ht'', hplaces⟩ := hq.prologue_performs (m := m) (c := c) (t := t) hparams i
  obtain rfl := ht'.unique ht''
  refine hplaces _ _ (fun j v hij hv hsame => ?_) ⟨i, u, Nat.le_refl i, hu, rfl⟩
  by_cases hne : j = i
  · rw [hne]
  · exact absurd hsame (hhome j v (by omega) hv)

/-- A parameter whose home is that of a later one can lose its argument. -/
lemma prologue_overwrites [Nontrivial V] (hparams : ∀ v ∈ q.function.params, q.Addressable v)
    (m : Machine q.program V) (c : Cache) {u : String} {i j : Nat} (hij : i < j)
    (hv : q.function.params[j]? = some v)
    (hhome : (q.allocation k).home q.toScope v = (q.allocation k).home q.toScope u) :
    ∃ t t', m.Performs (q.run c q.lowerPrologue) t [] t' ∧
      t'.content ((q.allocation k).home q.toScope u) ≠ t.regs (arg i) := by
  obtain ⟨x, y, hxy⟩ := exists_pair_ne V
  -- a state in which all other arguments are equal, but not to that of `u`
  obtain ⟨t', ht', hplaces⟩ := hq.prologue_performs (m := m) (c := c)
    (t := ⟨fun r => if r = arg i then x else y, fun _ => y, 0⟩) hparams (i + 1)
  have hother : ∀ n : Nat, i + 1 ≤ n → arg n ≠ arg i := fun n hn h => by
    have := arg_injective h
    omega
  have hy := hplaces _ y (fun n _ hn _ _ => if_neg (hother n hn)) ⟨j, v, hij, hv, hhome⟩
  refine ⟨_, t', ht', ?_⟩
  rw [hy]
  simpa using hxy.symm

end Placement.PerFunction

lemma Function.Built.lt_length_of_mem_occupied {f : Function} (hf : f.Built) {v : String} {i : Nat}
    (h : v ∈ f.liveness.occupied i) : i < f.code.length := by
  rcases mem_occupied.mp h with h | h
  · obtain ⟨s, hedge, -⟩ := (Flow.solves_solve i v).mp h
    obtain ⟨b, hb, hbi, -⟩ := hf.edge_iff_next.mp hedge
    exact hf.lt_length hb hbi
  · obtain ⟨ins, hi, -⟩ := mem_defs.mp h
    exact (List.getElem?_eq_some_iff.mp hi).1

lemma Allocation.home_of_register? {a : Allocation} {s : Scope} {v : String} {r : Nat}
    (h : a.register? v = some r) : a.home s v = .register r := by
  rw [home, h, Place.of_some]

/-- Two variables have the same home only if they have the same register. -/
lemma Allocation.exists_register?_of_home_eq {a : Allocation} {s : Scope} {u v : String}
    (hu : s.Addressable u) (hv : s.Addressable v) (huv : u ≠ v) (h : a.home s u = a.home s v) :
    ∃ r, a.register? u = some r ∧ a.register? v = some r := by
  rcases Place.eq_of_of_eq_of h with h | hcell
  · exact h
  · exact absurd (Scope.cell_injective hu hv hcell) huv

/-- The prologue hands every parameter that is live at entry its argument, from whatever state it
starts, if and only if none of them has the register of a later parameter. Parameters that occupy
the first instruction do not share registers, but those that are read there for the last time
can. -/
theorem prologue_delivers_iff {V : Type} [Nontrivial V] {text : String} {p : Program}
    {f : Function} {k : Int} {g : Strategy} (hp : (readProgram text).result = .ok p)
    (hf : f ∈ p.functions) (hk : Strategy.ofScheme .global k = .ok g) (hnodup : f.params.Nodup)
    (hparams : ∀ v ∈ f.params, f.isInt v = true ∧ p.isGlobal v = false) (m : Machine p V)
    (c : Cache) :
    ((∀ t : State V, ∃ t',
        m.Performs ((g.place ⟨p, f⟩).run c (Scope.lowerPrologue ⟨p, f⟩)) t [] t' ∧
        ∀ (i : Nat) v, f.params[i]? = some v → v ∈ f.liveness.liveIn 0 →
          t'.content ((Allocation.ofFunction p f k).home ⟨p, f⟩ v) = t.regs (arg i)) ↔
      ∀ (i j : Nat) u v r, i < j → f.params[i]? = some u → f.params[j]? = some v →
        u ∈ f.liveness.liveIn 0 → (Allocation.ofFunction p f k).register? u = some r →
        (Allocation.ofFunction p f k).register? v ≠ some r) ∧
    ∀ u ∈ f.params, ∀ v ∈ f.params, u ≠ v → u ∈ f.liveness.occupied 0 →
      v ∈ f.liveness.occupied 0 → ∀ r, (Allocation.ofFunction p f k).register? u = some r →
      (Allocation.ofFunction p f k).register? v ≠ some r := by
  have hq := Strategy.perFunction_of_ofScheme hk ⟨p, f⟩
  have haddr : ∀ v ∈ f.params, Scope.Addressable ⟨p, f⟩ v :=
    fun v hv => Or.inl (by simp [FunctionDef.isVar, (hparams v hv).1])
  refine ⟨⟨fun hdeliver i j u v r hij hu hv hlive hur hvr => ?_, fun hapart t => ?_⟩, ?_⟩
  · have hhome : (Allocation.ofFunction p f k).home ⟨p, f⟩ v =
        (Allocation.ofFunction p f k).home ⟨p, f⟩ u := by
      rw [Allocation.home_of_register? hur, Allocation.home_of_register? hvr]
    obtain ⟨t, t', ht', hlost⟩ := hq.prologue_overwrites haddr m c hij hv hhome
    obtain ⟨t'', ht'', hcontent⟩ := hdeliver t
    obtain rfl := ht'.unique ht''
    exact hlost (hcontent i u hu hlive)
  · obtain ⟨t', ht', -⟩ := hq.prologue_performs (m := m) (c := c) (t := t) haddr 0
    refine ⟨t', ht', fun i u hu hlive => hq.prologue_holds haddr ht' hu fun j v hij hv hhome => ?_⟩
    have huv : v ≠ u := by
      rintro rfl
      have := (List.getElem?_inj (List.getElem?_eq_some_iff.mp hu).1 hnodup).mp (hu.trans hv.symm)
      omega
    obtain ⟨r, hvr, hur⟩ := Allocation.exists_register?_of_home_eq
      (haddr v (List.mem_of_getElem? hv)) (haddr u (List.mem_of_getElem? hu)) huv hhome
    exact hapart i j u v r hij hu hv hlive hur hvr
  · intro u _ v _ huv hou hov r hur
    have hbuilt := (wellFormed_of_readProgram hp hf).built
    exact Allocation.register?_ne hou hov (hbuilt.lt_length_of_mem_occupied hou) huv hur

/-- In the loop `n` and `d` are live together, so both arguments arrive. -/
theorem prologue_delivers_countdown :
    (readProgram countdownText).result = .ok countdownProgram ∧
    ∀ (m : Machine countdownProgram Bool) (c : Cache) (t : State Bool), ∃ t',
      m.Performs (((Strategy.perFunction 8).place countdownScope).run c
        countdownScope.lowerPrologue) t [] t' ∧
      t'.regs (saved 0) = t.regs (arg 0) ∧ t'.regs (saved 1) = t.regs (arg 1) := by
  refine ⟨readProgram_countdown, fun m c t => ?_⟩
  have hn : (Allocation.ofFunction countdownProgram countdownFunction 8).register? "n" =
      some 0 := by decide +kernel
  have hd : (Allocation.ofFunction countdownProgram countdownFunction 8).register? "d" =
      some 1 := by decide +kernel
  have hparams : countdownFunction.params = ["n", "d"] := by decide +kernel
  have hapart : ∀ (i j : Nat) u v r, i < j → countdownFunction.params[i]? = some u →
      countdownFunction.params[j]? = some v → u ∈ countdownFunction.liveness.liveIn 0 →
      (Allocation.ofFunction countdownProgram countdownFunction 8).register? u = some r →
      (Allocation.ofFunction countdownProgram countdownFunction 8).register? v ≠ some r := by
    intro i j u v r hij hu hv _ hur hvr
    rw [hparams] at hu hv
    have hj : j < 2 := (List.getElem?_eq_some_iff.mp hv).1
    obtain ⟨rfl, rfl⟩ : i = 0 ∧ j = 1 := by omega
    cases hu
    cases hv
    rw [hn] at hur
    rw [hd, ← hur] at hvr
    cases hvr
  obtain ⟨t', ht', hcontent⟩ := (prologue_delivers_iff readProgram_countdown mem_countdownProgram
    (k := 8) rfl (by decide +kernel) (by decide +kernel) m c).1.mpr hapart t
  refine ⟨t', ht', ?_, ?_⟩
  · have hcontent := hcontent 0 "n" (by rw [hparams]; rfl) (by decide +kernel)
    rwa [Allocation.home_of_register? hn] at hcontent
  · have hcontent := hcontent 1 "d" (by rw [hparams]; rfl) (by decide +kernel)
    rwa [Allocation.home_of_register? hd] at hcontent

/-- A function that reads both of its parameters for the last time in its first instruction. -/
def shared : FunctionDef where
  name := "f"
  params := ["a", "b"]
  ints := ["a", "b"]
  code := [
    { op := .arith .add, arg1 := "a", arg2 := "b", arg3 := "a" },
    { op := .assign, arg1 := "b", arg2 := "a" },
    { op := .ret, arg1 := "b" }]

def sharedFunction : Function := shared.build.toOption.get (by decide +kernel)

def sharedLines : List String :=
  ["#start_function f\n", "int f(int a, int b)\n", "int-list: a, b\n", "float-list:\n",
    "add, a, b, a\n", "assign, b, a\n", "return, b\n", "#end_function\n"]

def sharedText : String := String.ofList (sharedLines.flatMap String.toList)

abbrev sharedProgram : Program := .ofFunctions [sharedFunction]

abbrev sharedScope : Scope := ⟨sharedProgram, sharedFunction⟩

lemma readProgram_shared : (readProgram sharedText).result = .ok sharedProgram := by
  have h : sharedText.toList = sharedLines.flatMap String.toList := String.toList_ofList
  unfold readProgram
  rw [h]
  decide +kernel

/-- Both parameters are live at entry and both have the first register, so the argument of the
first can be lost. -/
theorem prologue_loses_argument :
    (readProgram sharedText).result = .ok sharedProgram ∧
    sharedFunction.params = ["a", "b"] ∧
    (∀ v ∈ sharedFunction.params, v ∈ sharedFunction.liveness.liveIn 0 ∧
      sharedFunction.isInt v = true ∧ sharedProgram.isGlobal v = false ∧
      (Allocation.ofFunction sharedProgram sharedFunction 8).register? v = some 0) ∧
    ∀ (m : Machine sharedProgram Bool) (c : Cache), ∃ t t',
      m.Performs (((Strategy.perFunction 8).place sharedScope).run c sharedScope.lowerPrologue)
        t [] t' ∧
      t'.regs (saved 0) ≠ t.regs (arg 0) := by
  have hparams : sharedFunction.params = ["a", "b"] := by decide +kernel
  have hshare : ∀ v ∈ sharedFunction.params, v ∈ sharedFunction.liveness.liveIn 0 ∧
      sharedFunction.isInt v = true ∧ sharedProgram.isGlobal v = false ∧
      (Allocation.ofFunction sharedProgram sharedFunction 8).register? v = some 0 := by
    decide +kernel
  have hhome : ∀ v ∈ sharedFunction.params,
      (Allocation.ofFunction sharedProgram sharedFunction 8).home sharedScope v = .register 0 :=
    fun v hv => Allocation.home_of_register? (hshare v hv).2.2.2
  refine ⟨readProgram_shared, hparams, hshare, fun m c => ?_⟩
  have haddr : ∀ v ∈ sharedFunction.params, sharedScope.Addressable v :=
    fun v hv => Or.inl (by simp [FunctionDef.isVar, (hshare v hv).2.1])
  have ha := hhome "a" (by simp [hparams])
  have hb := hhome "b" (by simp [hparams])
  have hlast : sharedFunction.params[1]? = some "b" := by rw [hparams]; rfl
  have hq := Strategy.perFunction_of_ofScheme (k := 8) rfl sharedScope
  obtain ⟨t, t', ht', hlost⟩ :=
    hq.prologue_overwrites haddr m c Nat.zero_lt_one hlast (hb.trans ha.symm)
  exact ⟨t, t', ht', fun hsame => hlost ((congrArg t'.content ha).trans hsame)⟩

end MipsBackend
