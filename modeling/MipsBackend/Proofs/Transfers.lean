import MipsBackend.Proofs.Agreement

/-! Moving variables between registers and memory, and calls, which leave only memory behind. -/
namespace MipsBackend
open Asm Asm.Register Machine

section
variable {q : Placement} {V : Type} {m : Machine q.program V} {y : Nat → Register → V}
  {W : List Register} {F : Prop} {L K M : String → Prop} {w : Twin V} {t : State V}
  {U : Twin V → Prop} {es : List (String × Nat)} {v name : String}

/-- Entries that name the registers of variables have a variable once. -/
lemma unique_of_register? {c : Cache} (hes : ∀ e ∈ es, q.register? c e.1 = some e.2) :
    ∀ e ∈ es, ∀ e' ∈ es, e.1 = e'.1 → e = e' := by
  intro e he e' he' hname
  have hn := hes e he
  rw [hname, hes e' he'] at hn
  exact Prod.ext hname (Option.some.inj hn).symm

/-- Registers stored one after the other: each variable gets its own, the rest of the memory is
left alone. -/
lemma storeAll_performs (haddr : ∀ e ∈ es, q.Addressable e.1)
    (huniq : ∀ e ∈ es, ∀ e' ∈ es, e.1 = e'.1 → e = e') :
    ∃ t', m.Performs (q.storeAll es) t [] t' ∧ t'.regs = t.regs ∧ t'.calls = t.calls ∧
      (∀ e ∈ es, t'.mem (q.cell e.1) = t.regs (saved e.2)) ∧
      ∀ a, (∀ e ∈ es, a ≠ q.cell e.1) → t'.mem a = t.mem a := by
  induction es generalizing t with
  | nil => exact ⟨t, performs_nothing, rfl, rfl, by simp, fun _ _ => rfl⟩
  | cons e es ih =>
    have he := haddr e (by simp)
    obtain ⟨t', hp, hregs, hcalls, hnew, hold⟩ :=
      ih (t := t.setMem (q.cell e.1) (t.regs (saved e.2))) (fun e' h => haddr e' (by simp [h]))
        fun e' h' e'' h'' => huniq e' (by simp [h']) e'' (by simp [h''])
    have hstore := storeRegister_performs (m := m) (t := t) he (isRegister_saved e.2)
    refine ⟨t', hstore.andThen hp, hregs, hcalls, fun e' he' => ?_, fun a ha => ?_⟩
    · rcases List.mem_cons.mp he' with rfl | he'
      · by_cases hagain : e' ∈ es
        · exact hnew e' hagain
        · rw [hold _ fun e'' h'' hc => ?_]
          · simp
          · have hname := Scope.cell_injective he (haddr e'' (by simp [h''])) hc
            exact hagain (huniq e' (by simp) e'' (by simp [h'']) hname ▸ h'')
      · exact hnew e' he'
    · rw [hold a fun e' h => ha e' (by simp [h])]
      simp [ha e (by simp)]

/-- Variables loaded one after the other into different registers. -/
lemma loads_perform {g : String × Nat → Emission}
    (hg : ∀ e ∈ es, ∀ t, m.Performs (g e) t [] (t.setReg (saved e.2) (t.mem (q.cell e.1))))
    (huniq : ∀ e ∈ es, ∀ e' ∈ es, e.2 = e'.2 → e = e') :
    ∃ t', m.Performs (.sequence (es.map g)) t [] t' ∧ t'.mem = t.mem ∧ t'.calls = t.calls ∧
      (∀ e ∈ es, t'.regs (saved e.2) = t.mem (q.cell e.1)) ∧
      ∀ r, (∀ e ∈ es, r ≠ saved e.2) → t'.regs r = t.regs r := by
  induction es generalizing t with
  | nil => exact ⟨t, performs_nothing, rfl, rfl, by simp, fun _ _ => rfl⟩
  | cons e es ih =>
    obtain ⟨t', hp, hmem, hcalls, hnew, hold⟩ :=
      ih (t := t.setReg (saved e.2) (t.mem (q.cell e.1))) (fun e' h => hg e' (by simp [h]))
        fun e' h' e'' h'' => huniq e' (by simp [h']) e'' (by simp [h''])
    refine ⟨t', (hg e (by simp) t).andThen hp, hmem, hcalls, fun e' he' => ?_, fun r hr => ?_⟩
    · rcases List.mem_cons.mp he' with rfl | he'
      · by_cases hagain : e' ∈ es
        · exact hnew e' hagain
        · rw [hold _ fun e'' h'' hc => ?_]
          · simp
          · have hnumber := saved_injective hc
            exact hagain (huniq e' (by simp) e'' (by simp [h'']) hnumber ▸ h'')
      · exact hnew e' he'
    · rw [hold r fun e' h => hr e' (by simp [h])]
      simp [hr e (by simp)]

/-! ### In agreement -/

/-- Variables stored from the registers that they are in are up to date in memory, if they were in
the registers. -/
lemma Agree.stores (h : Agree q F L M w)
    (hes : ∀ e ∈ es, q.register? w.cache e.1 = some e.2) :
    ∃ t, (m.clobbering y).Performs (q.storeAll es) w.placed [] t ∧
      Agree q F L (fun u => (∃ n, (u, n) ∈ es) ∧ L u ∨ (∀ n, (u, n) ∉ es) ∧ M u)
        ⟨w.plainCache, w.cache, w.plain, t⟩ ∧ t.regs = w.placed.regs := by
  have haddr : ∀ e ∈ es, q.Addressable e.1 := fun e he =>
    Placement.addressable_of_register? h.sound (hes e he)
  obtain ⟨t, hp, hregs, hcalls, hnew, hold⟩ :=
    storeAll_performs (m := m.clobbering y) (t := w.placed) haddr (unique_of_register? hes)
  have hkeep : ∀ u, q.Addressable u → (∀ n, (u, n) ∉ es) →
      t.mem (q.cell u) = w.placed.mem (q.cell u) := by
    intro u hu hnot
    refine hold _ fun e he hc => ?_
    obtain rfl := Scope.cell_injective hu (haddr e he) hc
    exact hnot e.2 he
  refine ⟨t, hp, ⟨h.sound, ?_, ?_, ?_, ?_, by dsimp only; rw [hcalls, h.calls], ?_⟩, hregs⟩
  · rintro u (hu | ⟨⟨-, hu⟩ | ⟨-, hu⟩⟩)
    · exact h.known u (Or.inl hu)
    · exact h.known u (Or.inl hu)
    · exact h.known u (Or.inr hu)
  · intro u hu
    rw [← h.vars u hu]
    cases hr : q.register? w.cache u with
    | some n => simp [Placement.home, hr, State.content, hregs]
    | none =>
      rw [Placement.home_of_register? hr]
      refine hkeep u (h.known u (Or.inl hu)) fun n hn => ?_
      rw [hes _ hn] at hr
      cases hr
  · rintro u (⟨⟨n, hn⟩, hu⟩ | ⟨hn, hu⟩)
    · rw [hnew _ hn, ← h.vars u hu, Placement.home, hes _ hn]
      rfl
    · rw [hkeep u (h.known u (Or.inr hu)) hn, h.slots u hu]
  · intro u hu
    have hc := Scope.cell_of_isGlobal (s := q.toScope) hu
    have := hkeep u (Or.inr hu) fun n hn => by
      have := (h.sound _ _ (hes _ hn)).2
      simp [hu] at this
    rw [hc] at this
    rw [this, h.globals u hu]
  · intro hF
    rw [hregs]
    exact h.float hF

/-- Variables loaded into the registers that they are to be in. -/
lemma Agree.loads (h : Agree q F L M w) {c : Cache} (hc : q.Sound c)
    {g : String × Nat → Emission}
    (hg : ∀ e ∈ es, ∀ t, (m.clobbering y).Performs (g e) t []
      (t.setReg (saved e.2) (t.mem (q.cell e.1))))
    (huniq : ∀ e ∈ es, ∀ e' ∈ es, e.2 = e'.2 → e = e')
    (hK : ∀ u, K u → M u ∧ ∀ n, q.register? c u = some n → (u, n) ∈ es) :
    ∃ t, (m.clobbering y).Performs (.sequence (es.map g)) w.placed [] t ∧
      Agree q F K M ⟨w.plainCache, c, w.plain, t⟩ ∧
      ∀ r, Scratch r → t.regs r = w.placed.regs r := by
  obtain ⟨t, hp, hmem, hcalls, hnew, hold⟩ :=
    loads_perform (m := m.clobbering y) (t := w.placed) hg huniq
  have hscratch : ∀ r, Scratch r → t.regs r = w.placed.regs r :=
    fun r hr => hold r fun e _ => hr e.2
  refine ⟨t, hp, ⟨hc, ?_, ?_, ?_, ?_, by dsimp only; rw [hcalls, h.calls], ?_⟩, hscratch⟩
  · rintro u (hu | hu)
    · exact h.known u (Or.inr (hK u hu).1)
    · exact h.known u (Or.inr hu)
  · intro u hu
    rw [← h.slots u (hK u hu).1]
    cases hr : q.register? c u with
    | some n => simpa [Placement.home, hr, State.content] using hnew _ ((hK u hu).2 n hr)
    | none => simp [Placement.home, hr, State.content, hmem]
  · intro u hu
    rw [hmem, h.slots u hu]
  · intro u hu
    rw [hmem, h.globals u hu]
  · intro hF
    rw [hscratch f0 scratch_f0]
    exact h.float hF

/-- A call leaves the same results, and memory as it was but for the globals, which change alike.
What was in registers is lost. -/
lemma jal_simulates (hU : ∀ w w' : Twin V, w'.cache = w.cache → U w → U w') :
    Simulates m y W (fun w => Agree q F L M w ∧ U w ∧ w.Same W) [.line "jal" [name]]
      (fun w => Agree q F (fun _ => False) M w ∧ U w ∧ w.Same [v0, f0]) := by
  apply Simulates.seen
  rintro w ⟨hA, hw, hs⟩
  have hresult : ∀ r ∈ [v0, f0],
      (m.afterCall w.plain).regs r = ((m.clobbering y).afterCall w.placed).regs r := by
    intro r hr
    have hr : r = v0 ∨ r = f0 := by simpa using hr
    simp [afterCall, hr, hA.calls, clobbering]
  refine ⟨⟨"jal", name, [], w.plain.regs⟩, ⟨"jal", name, [], w.placed.regs⟩, rfl, rfl,
    ⟨rfl, rfl, rfl, hs⟩, ?_, hU w _ rfl hw, hresult⟩
  refine ⟨hA.sound, fun v hv => hA.known v (Or.inr (by simpa using hv)), fun _ h => h.elim,
    fun v hv => ?_, fun v hv => ?_, ?_, fun _ => hresult f0 (by simp)⟩
  · have := hA.slots v hv
    simp [stepInstr, afterCall, hA.calls, this, clobbering]
  · simp [stepInstr, afterCall, hA.calls, hv, clobbering]
  · simp [stepInstr, afterCall, hA.calls]

end
end MipsBackend
