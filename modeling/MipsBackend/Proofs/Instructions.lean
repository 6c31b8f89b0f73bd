import MipsBackend.Proofs.Agreement

/-! The code of single instructions keeps a placed run in agreement with a plain one. What a call
does to the variables depends on the plan and is left to it. -/
namespace MipsBackend
open Asm Asm.Register Machine

lemma Cache.register_insert (c : Cache) (r r' a : String) :
    Cache.register { c with held := c.held.insert r a } r' =
      if r' = r then a else c.register r' := by
  unfold Cache.register OrdMap.getD
  rw [OrdMap.get?_insert]
  split <;> rfl

section
variable {q : Placement} {V : Type} {m : Machine q.program V} {y : Nat → Register → V}
  {W S : List Register} {F : Prop} {L L' M M' : String → Prop} {w w' : Twin V}
  {R : Twin V → Prop} {u v : String} {r : Register}

/-! ### Reading -/

lemma Twin.keeps_held {a b : String} {s t : State V}
    (hs : ∀ r' ≠ r, s.regs r' = w.plain.regs r') (ht : ∀ r' ≠ r, t.regs r' = w.placed.regs r')
    (hs' : s.mem = w.plain.mem ∧ s.calls = w.plain.calls)
    (ht' : t.mem = w.placed.mem ∧ t.calls = w.placed.calls) :
    w.Keeps [r] ⟨{ w.plainCache with held := w.plainCache.held.insert r a },
      { w.cache with held := w.cache.held.insert r b }, s, t⟩ where
  assigned := rfl
  committed := rfl
  plainHeld r' hr' := by rw [Cache.register_insert, if_neg (by simpa using hr')]
  placedHeld r' hr' := by rw [Cache.register_insert, if_neg (by simpa using hr')]
  plainRegs r' hr' := hs r' (by simpa using hr')
  placedRegs r' hr' := ht r' (by simpa using hr')
  plainMem := hs'.1
  placedMem := ht'.1
  plainCalls := hs'.2
  placedCalls := ht'.2

/-- Reading a variable makes it ready; an argument or return register gets it itself, and so does
any register if the variable is no integer. -/
lemma Agree.read (h : Agree q F L M w) (hv : L v ∨ q.program.isGlobal v = true)
    (hreg : isRegister r = true) :
    ∃ s t, m.Performs (q.inMemory.emission w.plainCache (.read v r)) w.plain [] s ∧
      (m.clobbering y).Performs (q.emission w.cache (.read v r)) w.placed [] t ∧
      w.Keeps [r] ⟨q.inMemory.next w.plainCache (.read v r), q.next w.cache (.read v r), s, t⟩ ∧
      (isArgOrReturn r = true ∨ q.function.isInt v = false → s.regs r = t.regs r) ∧
      (isArgOrReturn r = false → Ready [r]
        ⟨q.inMemory.next w.plainCache (.read v r), q.next w.cache (.read v r), s, t⟩
        (.held r)) := by
  have haddr := h.addressable hv
  have hval := h.content_home hv
  refine ⟨w.plain.setReg r (w.plain.mem (q.cell v)), ?_⟩
  have hs := read_performs_memory (q := q.inMemory) (m := m) (c := w.plainCache) (t := w.plain)
    haddr rfl r
  have hset : ∀ (s : State V) (x : V), ∀ r' ≠ r, (s.setReg r x).regs r' = s.regs r' :=
    fun s x r' hr' => by simp [hr']
  cases hn : q.register? w.cache v with
  | none =>
    have hmem : w.placed.mem (q.cell v) = w.plain.mem (q.cell v) := by
      rwa [Placement.home_of_register? hn] at hval
    refine ⟨w.placed.setReg r (w.placed.mem (q.cell v)), hs, read_performs_memory haddr hn r,
      Twin.keeps_held (hset _ _) (hset _ _) ⟨rfl, rfl⟩ ⟨rfl, rfl⟩, fun _ => ?_, fun _ => ?_⟩
    · simp [hmem]
    · refine .held (x := r) (by simp) hreg hreg (by simp) ?_ ?_ (by simp [hmem])
      · simp [Placement.next, Cache.register_insert, Placement.answer, Placement.register?]
      · simp [Placement.next, Cache.register_insert, Placement.answer, hn]
  | some n =>
    have hmem : w.placed.regs (saved n) = w.plain.mem (q.cell v) := by
      rwa [Placement.home, hn] at hval
    cases ha : isArgOrReturn r with
    | true =>
      refine ⟨w.placed.setReg r (w.placed.regs (saved n)), hs, read_performs_move hn ha,
        Twin.keeps_held (hset _ _) (hset _ _) ⟨rfl, rfl⟩ ⟨rfl, rfl⟩, fun _ => ?_, by simp⟩
      simp [hmem]
    | false =>
      refine ⟨w.placed, hs, read_performs_register hn ha,
        Twin.keeps_held (hset _ _) (fun _ _ => rfl) ⟨rfl, rfl⟩ ⟨rfl, rfl⟩, fun hint => ?_,
        fun _ => ?_⟩
      · have := (h.sound v n hn).1
        simp [this] at hint
      · refine .held (x := saved n) (by simp) hreg (by simp) (Or.inr ⟨n, rfl⟩) ?_ ?_ ?_
        · simp [Placement.next, Cache.register_insert, Placement.answer, Placement.register?]
        · simp [Placement.next, Cache.register_insert, Placement.answer, hn, ha]
        · simp [hmem]

lemma Twin.keeps_setReg (w : Twin V) (r : Register) (x x' : V) :
    w.Keeps [r] ⟨w.plainCache, w.cache, w.plain.setReg r x, w.placed.setReg r x'⟩ where
  assigned := rfl
  committed := rfl
  plainHeld _ _ := rfl
  placedHeld _ _ := rfl
  plainRegs r' hr' := by simp_all
  placedRegs r' hr' := by simp_all
  plainMem := rfl
  placedMem := rfl
  plainCalls := rfl
  placedCalls := rfl

/-- A line that sets a register to a literal. -/
lemma constant_simulates {op : String} (hop : Effect.of op = .constant) (x : String)
    (hr : Scratch r) (hR : Stable [r] R) :
    Simulates m y W (fun w => Agree q F L M w ∧ R w) [.line op [r, x]]
      (fun w => Agree q F L M w ∧ R w ∧ w.Same [r]) := by
  apply Simulates.silent
  rintro w ⟨hA, hRw⟩
  have hk := w.keeps_setReg r (m.literal x) (m.literal x)
  refine ⟨w.plain.setReg r (m.literal x), w.placed.setReg r (m.literal x), ?_, ?_,
    hA.keeps hk (by simpa using hr) ?_, hR _ _ hk hRw, ?_⟩
  · exact constant_performs (q := q.inMemory) hop r x
  · exact constant_performs hop r x
  · intro hf
    obtain rfl : f0 = r := by simpa using hf
    simp
  · simp [Twin.Same]

/-! ### Source operands -/

lemma Twin.Keeps.mono {S' : List Register} (h : w.Keeps S w') (hS : ∀ r ∈ S, r ∈ S') :
    w.Keeps S' w' where
  assigned := h.assigned
  committed := h.committed
  plainHeld r hr := h.plainHeld r fun hm => hr (hS r hm)
  placedHeld r hr := h.placedHeld r fun hm => hr (hS r hm)
  plainRegs r hr := h.plainRegs r fun hm => hr (hS r hm)
  placedRegs r hr := h.placedRegs r fun hm => hr (hS r hm)
  plainMem := h.plainMem
  placedMem := h.placedMem
  plainCalls := h.plainCalls
  placedCalls := h.placedCalls

lemma Stable.mono {S' : List Register} (h : Stable S' R) (hS : ∀ r ∈ S, r ∈ S') : Stable S R :=
  fun w w' hk hw => h w w' (hk.mono hS) hw

lemma Ready.mono {S' : List Register} {o : Operand} (h : Ready S w o) (hS : ∀ r ∈ S, r ∈ S') :
    Ready S' w o := by
  cases h with
  | literal h => exact .literal h
  | loaded hr h hval => exact .loaded (hS _ hr) h hval
  | held hr h h' hr' hplain hplaced hval =>
    exact .held (hS _ hr) h h' (hr'.imp_left (hS _)) hplain hplaced hval

/-- A register that holds an operand for the time of an instruction. -/
structure Temporary (r : Register) : Prop where
  isRegister : isRegister r = true
  isArgOrReturn : isArgOrReturn r = false
  scratch : Scratch r

lemma temporary_left : ∀ r ∈ [t0, f0], Temporary r := by
  simp only [List.mem_cons, List.not_mem_nil, or_false, forall_eq_or_imp, forall_eq]
  exact ⟨⟨rfl, rfl, scratch_t0⟩, ⟨rfl, rfl, scratch_f0⟩⟩

lemma temporary_right : ∀ r ∈ [t1, f2], Temporary r := by
  simp only [List.mem_cons, List.not_mem_nil, or_false, forall_eq_or_imp, forall_eq]
  exact ⟨⟨rfl, rfl, scratch_t1⟩, ⟨rfl, rfl, scratch_f2⟩⟩

/-- A source that the registers of `S` can serve, with its variable, if it is one, in `L` or
global. Only variables that are no integers go through `$f0`. -/
inductive Source.Usable (s : Scope) (L : String → Prop) (S : List Register) : Source → Prop
  | literal {x : String} (h : isRegister x = false) : Usable s L S (.literal x)
  | var {v r : String} {isFloat : Bool} (hr : r ∈ S) (hv : L v ∨ s.program.isGlobal v = true)
      (hf : r = f0 → s.function.isInt v = false) : Usable s L S (.var v r isFloat)
  | loaded {op x r : String} {isFloat : Bool} (hr : r ∈ S) (hop : Effect.of op = .constant) :
      Usable s L S (.loaded op x r isFloat)

lemma source_simulates {src : Source} (hS : ∀ r ∈ S, Temporary r)
    (hsrc : src.Usable q.toScope L S) (hR : Stable S R) :
    Simulates m y W (fun w => Agree q F L M w ∧ R w) src.actions
      (fun w => Agree q F L M w ∧ R w ∧ Ready S w src.operand) := by
  cases hsrc with
  | literal h => exact .nil fun w hw => ⟨hw.1, hw.2, .literal h⟩
  | @var v r isFloat hr hv hf =>
    have hsub : ∀ r' ∈ [r], r' ∈ S := by simpa using hr
    apply Simulates.silent
    rintro w ⟨hA, hRw⟩
    obtain ⟨s, t, hs, ht, hk, hval, hready⟩ := hA.read (m := m) (y := y) hv (hS r hr).isRegister
    refine ⟨s, t, hs, ht, hA.keeps hk (by simpa using (hS r hr).scratch) fun hm => ?_,
      hR _ _ (hk.mono hsub) hRw, (hready (hS r hr).isArgOrReturn).mono hsub⟩
    obtain rfl : f0 = r := by simpa using hm
    exact hval (Or.inr (hf rfl))
  | @loaded op x r isFloat hr hop =>
    have hsub : ∀ r' ∈ [r], r' ∈ S := by simpa using hr
    apply (constant_simulates hop x (hS r hr).scratch (hR.mono hsub)).post
    rintro w ⟨hA, hRw, hsame⟩
    exact ⟨hA, hRw, .loaded hr (hS r hr).isRegister (hsame r (by simp))⟩

section Sources
variable {s : Scope} {x : String} (hx : s.function.isVar x = true → L x)
include hx

lemma mem_or_isGlobal_of_isIntVar (h : s.isIntVar x = true) :
    L x ∨ s.program.isGlobal x = true := by
  simp only [Scope.isIntVar, Bool.or_eq_true] at h
  exact h.imp_left fun hi => hx (by simp [FunctionDef.isVar, hi])

lemma mem_of_isFloat (h : s.function.isFloat x = true) : L x :=
  hx (by simp [FunctionDef.isVar, h])

omit hx in
lemma isInt_of_not_isIntVar (h : ¬ s.isIntVar x = true) : s.function.isInt x = false := by
  simp only [Scope.isIntVar, Bool.or_eq_true, not_or] at h
  simpa using h.1

lemma usable_intSource {r : Register} (hr : r ∈ S) (hf : r ≠ f0) :
    (s.intSource x r).Usable s L S := by
  unfold Scope.intSource
  split
  · next h => exact .var hr (mem_or_isGlobal_of_isIntVar hx h) fun he => absurd he hf
  · exact .loaded hr effect_li

lemma usable_plainSource (hreg : isRegister x = false) :
    (s.plainSource x t0 f0).Usable s L [t0, f0] := by
  unfold Scope.plainSource
  split
  · next h => exact .var (by simp) (mem_or_isGlobal_of_isIntVar hx h) (by simp [t0, f0])
  · next h =>
    split
    · next hf =>
      exact .var (by simp) (Or.inl (mem_of_isFloat hx hf)) fun _ => isInt_of_not_isIntVar h
    · exact .literal hreg

lemma usable_leftSource : (s.leftSource x).Usable s L [t0, f0] := by
  unfold Scope.leftSource
  split
  · next h => exact .var (by simp) (mem_or_isGlobal_of_isIntVar hx h) (by simp [t0, f0])
  · next h =>
    split
    · next hf =>
      exact .var (by simp) (Or.inl (mem_of_isFloat hx hf)) fun _ => isInt_of_not_isIntVar h
    · split
      · exact .loaded (by simp) effect_lis
      · exact .loaded (by simp) effect_li

lemma usable_rightSource (hreg : isRegister x = false) :
    (s.rightSource x).Usable s L [t1, f2] := by
  unfold Scope.rightSource
  split
  · next h => exact .var (by simp) (mem_or_isGlobal_of_isIntVar hx h) (by simp [t1, f0])
  · split
    · next hf => exact .var (by simp) (Or.inl (mem_of_isFloat hx hf)) (by simp [f2, f0])
    · split
      · exact .loaded (by simp) effect_lis
      · exact .literal hreg

end Sources

/-! ### Instructions without calls -/

lemma assign_simulates {i : Instruction} (hx : q.function.isVar i.arg2 = true → L i.arg2)
    (hreg : isRegister i.arg2 = false) (hd : q.Addressable i.arg1) :
    Simulates m y W (fun w => Agree q F L M w ∧ Updates q w.cache (some i.arg1) L L' M M')
      (q.lowerAssign i) (Agree q F L' M') := by
  refine (source_simulates temporary_left (usable_plainSource hx hreg) updates_stable).append ?_
  exact (write_simulates hd _).pre fun w h => ⟨h.1, h.2.2, h.2.1⟩

lemma arith_simulates {i : Instruction} {op : Arith}
    (hx : q.function.isVar i.arg1 = true → L i.arg1)
    (hy : q.function.isVar i.arg2 = true → L i.arg2) (hreg : isRegister i.arg2 = false)
    (hd : q.Addressable i.arg3) :
    Simulates m y W (fun w => Agree q F L M w ∧ Updates q w.cache (some i.arg3) L L' M M')
      (q.lowerArith op i) (Agree q F L' M') := by
  have hdisjoint : ∀ r ∈ [t0, f0], r ∉ [t1, f2] := by decide
  have hU : ∀ S, Stable (V := V) S fun w => Updates q w.cache (some i.arg3) L L' M M' :=
    fun _ => updates_stable
  have hx := source_simulates (m := m) (y := y) (W := W) (F := F) (M := M) temporary_left
    (usable_leftSource hx) (hU _)
  have hy := source_simulates (m := m) (y := y) (W := W) (F := F) (M := M) temporary_right
    (usable_rightSource hy hreg)
    ((hU _).and (Ready.stable (o := (q.leftSource i.arg1).operand) hdisjoint
      fun r hr => (temporary_right r hr).scratch))
  refine (hx.append hy).append ?_
  exact (compute_simulates hd (effect_arith op _) _ _).pre
    fun w h => ⟨h.1, h.2.1.2, h.2.2, h.2.1.1⟩

/-- A line that only transfers control. -/
lemma control_simulates {P : Twin V → Prop} {op : String} (args : List String)
    {note : Option String} (hop : Effect.of op = .control) (hP : ∀ w, P w → w.Same W) :
    Simulates m y W P [.emit op (args.map .text) note] P := by
  apply Simulates.seen
  intro w hw
  have hargs : ∀ c : Cache, (args.map Operand.text).map c.resolve = args := by
    intro c
    rw [List.map_map]
    exact List.map_id args
  rw [hargs, hargs]
  refine ⟨⟨op, args.headD "", [], w.plain.regs⟩, ⟨op, args.headD "", [], w.placed.regs⟩, ?_, ?_,
    ⟨rfl, rfl, rfl, hP w hw⟩, ?_⟩
  · simp [visible?, hop]
  · simp [visible?, hop]
  · simpa [stepInstr, hop] using hw

lemma compare_simulates (cmp : Comparison) {a b : Operand} {l : String} {note : Option String}
    {S' : List Register} :
    Simulates m y [] (fun w => Agree q F L M w ∧ Ready S w a ∧ Ready S' w b)
      [.emit cmp.mnemonic [a, b, .text l] note] (Agree q F L M) := by
  apply Simulates.seen
  rintro w ⟨hA, ha, hb⟩
  refine ⟨⟨cmp.mnemonic, l, [m.value w.plain (w.plainCache.resolve a),
      m.value w.plain (w.plainCache.resolve b)], w.plain.regs⟩,
    ⟨cmp.mnemonic, l, [(m.clobbering y).value w.placed (w.cache.resolve a),
      (m.clobbering y).value w.placed (w.cache.resolve b)], w.placed.regs⟩, ?_, ?_,
    ⟨rfl, rfl, ?_, by simp⟩, ?_⟩
  · simp [visible?, Cache.resolve]
  · simp [visible?, Cache.resolve]
  · rw [ha.value_eq, hb.value_eq]
  · simpa [stepInstr] using hA

lemma branch_simulates {i : Instruction} {cmp : Comparison}
    (hx : q.function.isVar i.arg1 = true → L i.arg1)
    (hy : q.function.isVar i.arg2 = true → L i.arg2) (hreg : isRegister i.arg2 = false) :
    Simulates m y [] (Agree q F L M) (q.lowerBranch cmp i) (Agree q F L M) := by
  have hdisjoint : ∀ r ∈ [t0, f0], r ∉ [t1, f2] := by decide
  have hright : Source.Usable q.toScope L [t1, f2]
      (if q.isIntVar i.arg2 then .var i.arg2 t1 false else .literal i.arg2) := by
    split
    · next h => exact .var (by simp) (mem_or_isGlobal_of_isIntVar hy h) (by simp [t1, f0])
    · exact .literal hreg
  have hx := source_simulates (m := m) (y := y) (W := []) (F := F) (M := M) (R := fun _ => True)
    temporary_left (usable_intSource hx (r := t0) (by simp) (by decide)) fun _ _ _ _ => trivial
  have hy := source_simulates (m := m) (y := y) (W := []) (F := F) (M := M) temporary_right hright
    (Ready.stable (o := (q.intSource i.arg1 t0).operand) hdisjoint
      fun r hr => (temporary_right r hr).scratch)
  have hx := hx.pre fun w (h : Agree q F L M w) => ⟨h, trivial⟩
  refine ((hx.post fun w h => ⟨h.1, h.2.2⟩).append hy).append ?_
  exact compare_simulates cmp

/-! ### Returning -/

lemma load_line_simulates {P : Twin V → Prop} {op : String} (hop : Effect.of op = .load)
    (a : String) (hP : Stable [r] P) : Simulates m y W P [.line op [r, a]] P :=
  .silent fun w hw => ⟨_, _, load_line_performs (q := q.inMemory) hop r a,
    load_line_performs hop r a, hP _ _ (w.keeps_setReg r _ _) hw⟩

lemma compute_line_simulates {P : Twin V → Prop} {op : String} (hop : Effect.of op = .compute)
    (a b : String) (hP : Stable [r] P) : Simulates m y W P [.line op [r, a, b]] P :=
  .silent fun w hw => ⟨_, _, compute_line_performs (q := q.inMemory) hop r a b,
    compute_line_performs hop r a b, hP _ _ (w.keeps_setReg r _ _) hw⟩

/-- The register in which a value is returned. -/
def Scope.resultRegisters (s : Scope) (v : String) : List Register :=
  if v = "" then [] else if s.isIntVar v then [v0] else if s.function.isFloat v then [f0] else [v0]

lemma result_simulates (hv : q.function.isVar v = true → L v) :
    Simulates m y W (Agree q F L M) (q.lowerResult v)
      (fun w => Agree q F L M w ∧ w.Same (q.resultRegisters v)) := by
  unfold Scope.lowerResult Scope.resultRegisters
  split
  · exact .nil fun w hA => ⟨hA, by simp [Twin.Same]⟩
  · split
    · next h =>
      apply Simulates.silent
      intro w hA
      obtain ⟨s, t, hs, ht, hk, hval, -⟩ := hA.read (m := m) (y := y) (r := v0)
        (mem_or_isGlobal_of_isIntVar hv h) rfl
      refine ⟨s, t, hs, ht, hA.keeps hk (by simpa using scratch_v0) (by simp [f0, v0]), ?_⟩
      simpa [Twin.Same] using hval (Or.inl rfl)
    · next h =>
      split
      · next hf =>
        apply Simulates.silent
        intro w hA
        obtain ⟨s, t, hs, ht, hk, hval, -⟩ := hA.read (m := m) (y := y) (r := f0)
          (Or.inl (mem_of_isFloat hv hf)) rfl
        have hsame := hval (Or.inr (isInt_of_not_isIntVar h))
        exact ⟨s, t, hs, ht, hA.keeps hk (by simpa using scratch_f0) fun _ => hsame,
          by simpa [Twin.Same] using hsame⟩
      · have hli := constant_simulates (q := q) (m := m) (y := y) (W := W) (F := F) (L := L)
          (M := M) (R := fun _ => True) effect_li v scratch_v0 fun _ _ _ _ => trivial
        exact (hli.pre fun w h => ⟨h, trivial⟩).post fun w h => ⟨h.1, h.2.2⟩

lemma result_stable (hr : Scratch r) (hv : r ≠ v0) (hf : r ≠ f0) :
    Stable (V := V) [r] fun w => Agree q F L M w ∧ w.Same (q.resultRegisters v) := by
  have hmem : ∀ r' ∈ q.resultRegisters v, r' = v0 ∨ r' = f0 := by
    unfold Scope.resultRegisters
    split_ifs <;> simp
  refine (Agree.stable (by simpa using hr) (by simpa using hf.symm)).and (stable_same ?_)
  intro r' hr' hmem'
  obtain rfl : r' = r := by simpa using hmem'
  rcases hmem r' hr' with h | h
  · exact hv h
  · exact hf h

lemma return_simulates {i : Instruction} (hv : q.function.isVar i.arg1 = true → L i.arg1) :
    Simulates m y (q.resultRegisters i.arg1) (Agree q F L M) (q.lowerReturn i)
      (Agree q F L M) := by
  refine (result_simulates hv).append ?_
  refine (load_line_simulates effect_lw _
    (result_stable scratch_ra (by decide) (by decide))).cons ?_
  refine (compute_line_simulates effect_addiu _ _
    (result_stable scratch_sp (by decide) (by decide))).cons ?_
  exact (control_simulates [ra] effect_jr fun w h => h.2).post fun _ h => h.1

end
end MipsBackend
