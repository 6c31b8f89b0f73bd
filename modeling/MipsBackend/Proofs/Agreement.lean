import MipsBackend.Proofs.Simulation

/-! Agreement of a placed run with a plain one, and the single actions that keep it. -/
namespace MipsBackend
open Asm Asm.Register Machine

/-- The placed run agrees with the plain one: the variables of `L` are where the plan has them,
those of `M` are up to date in memory, and so are all globals. Where `F` holds, `$f0` is the same
too; a system call does not set it, so a call result may be taken from what it held before. -/
structure Agree {V : Type} (q : Placement) (F : Prop) (L M : String → Prop) (w : Twin V) :
    Prop where
  sound : q.Sound w.cache
  known : ∀ v, L v ∨ M v → q.Addressable v
  vars : ∀ v, L v → w.placed.content (q.home w.cache v) = w.plain.mem (q.cell v)
  slots : ∀ v, M v → w.placed.mem (q.cell v) = w.plain.mem (q.cell v)
  globals : ∀ v, q.program.isGlobal v = true → w.placed.mem v = w.plain.mem v
  calls : w.placed.calls = w.plain.calls
  float : F → w.plain.regs f0 = w.placed.regs f0

/-- What may be claimed after a write to `d`: of a variable other than `d` only what is not
overwritten, and that memory is up to date on `d` only if the write goes there. -/
structure Updates (q : Placement) (c : Cache) (d : Option String) (L L' M M' : String → Prop) :
    Prop where
  vars : ∀ u, L' u → d = some u ∨ L u ∧ ∀ v ∈ d, q.home c u ≠ q.dest c v
  slots : ∀ u, M' u → d = some u ∧ q.target? c u = none ∨ d ≠ some u ∧ M u

section
variable {q : Placement} {V : Type} {m : Machine q.program V} {y : Nat → Register → V}
  {W S : List Register} {F : Prop} {L L' M M' : String → Prop} {w w' : Twin V}
  {R : Twin V → Prop} {u v : String} {r : Register}

lemma Placement.register?_of_isGlobal {c : Cache} (hc : q.Sound c)
    (hv : q.program.isGlobal v = true) : q.register? c v = none := by
  cases h : q.register? c v with
  | none => rfl
  | some n =>
    have := (hc v n h).2
    simp [hv] at this

lemma Placement.target?_of_isGlobal {c : Cache} (hc : q.Sound c)
    (hv : q.program.isGlobal v = true) : q.target? c v = none := by
  cases h : q.target? c v with
  | none => rfl
  | some n =>
    have hr := register?_of_isGlobal hc hv
    rw [register?_of_target? h] at hr
    cases hr

lemma Placement.home_of_register? {c : Cache} (h : q.register? c v = none) :
    q.home c v = .memory (q.cell v) := by simp [home, h]

namespace Agree

lemma addressable (h : Agree q F L M w) (hv : L v ∨ q.program.isGlobal v = true) :
    q.Addressable v := by
  rcases hv with hv | hv
  · exact h.known v (Or.inl hv)
  · exact Or.inr hv

/-- A variable of interest, or a global, has its value in its home. -/
lemma content_home (h : Agree q F L M w) (hv : L v ∨ q.program.isGlobal v = true) :
    w.placed.content (q.home w.cache v) = w.plain.mem (q.cell v) := by
  rcases hv with hv | hv
  · exact h.vars v hv
  · rw [Placement.home_of_register? (Placement.register?_of_isGlobal h.sound hv),
      Scope.cell_of_isGlobal hv]
    exact h.globals v hv

lemma weaken (h : Agree q F L M w) {F' : Prop} (hF : F' → F) (hL : ∀ v, L' v → L v)
    (hM : ∀ v, M' v → M v) : Agree q F' L' M' w where
  sound := h.sound
  known v hv := h.known v (hv.imp (hL v) (hM v))
  vars v hv := h.vars v (hL v hv)
  slots v hv := h.slots v (hM v hv)
  globals := h.globals
  calls := h.calls
  float hf := h.float (hF hf)

lemma keeps (h : Agree q F L M w) (hk : w.Keeps S w') (hS : ∀ r ∈ S, Scratch r)
    (hf : f0 ∈ S → w'.plain.regs f0 = w'.placed.regs f0) : Agree q F L M w' := by
  have hreg := Placement.register?_congr (q := q) hk.assigned
  refine ⟨fun v n hv => ?_, h.known, fun v hv => ?_, fun v hv => ?_, fun v hv => ?_, ?_,
    fun hF => ?_⟩
  · rw [hreg] at hv
    exact h.sound v n hv
  · have hhome : q.home w'.cache v = q.home w.cache v := by
      rw [Placement.home, Placement.home, hreg]
    rw [hhome, hk.plainMem, ← h.vars v hv]
    cases q.home w.cache v with
    | register n => exact hk.placedRegs _ fun hn => hS _ hn n rfl
    | memory a => exact congrFun hk.placedMem a
  · rw [hk.plainMem, hk.placedMem, h.slots v hv]
  · rw [hk.plainMem, hk.placedMem, h.globals v hv]
  · rw [hk.plainCalls, hk.placedCalls, h.calls]
  · by_cases hm : f0 ∈ S
    · exact hf hm
    · rw [hk.plainRegs _ hm, hk.placedRegs _ hm, h.float hF]

lemma stable (hS : ∀ r ∈ S, Scratch r) (hf : f0 ∉ S) :
    Stable S (Agree (V := V) q F L M) :=
  fun _ _ hk h => h.keeps hk hS fun hm => absurd hm hf

end Agree

lemma updates_stable {d : Option String} :
    Stable (V := V) S fun w => Updates q w.cache d L L' M M' := by
  intro w w' hk h
  have hreg := Placement.register?_congr (q := q) hk.assigned
  have htarget := Placement.target?_congr (q := q) hk.assigned hk.committed
  refine ⟨fun u hu => ?_, fun u hu => ?_⟩
  · simpa only [Placement.home, Placement.dest, hreg, htarget] using h.vars u hu
  · simpa only [htarget] using h.slots u hu

/-! ### Writing -/

lemma Agree.addressable_of_updates (h : Agree q F L M w) (hv : q.Addressable v)
    (hu : Updates q w.cache (some v) L L' M M') (u : String) (hL : L' u ∨ M' u) :
    q.Addressable u := by
  rcases hL with hL | hM
  · rcases hu.vars u hL with hd | ⟨hL, -⟩
    · exact Option.some.inj hd ▸ hv
    · exact h.known u (Or.inl hL)
  · rcases hu.slots u hM with ⟨hd, -⟩ | ⟨-, hM⟩
    · exact Option.some.inj hd ▸ hv
    · exact h.known u (Or.inr hM)

/-- When both runs write the same to a variable, they agree on it and still on all that was not
overwritten. -/
lemma Agree.writes (h : Agree q F L M w) (hv : q.Addressable v)
    (hu : Updates q w.cache (some v) L L' M M') {d : Cache} {s t : State V} {x : V}
    (hs : Writes w.plain s (q.inMemory.dest w.plainCache v) x)
    (ht : Writes w.placed t (q.dest w.cache v) x) (hf : F → s.regs f0 = t.regs f0) :
    Agree q F L' M' ⟨d, q.forget w.cache v, s, t⟩ := by
  have hknown := h.addressable_of_updates hv hu
  have hnew : s.mem (q.cell v) = x := hs.mem_cell rfl
  have hold : ∀ u, q.Addressable u → u ≠ v → s.mem (q.cell u) = w.plain.mem (q.cell u) :=
    fun u hu huv => hs.mem_cell_of_ne hu hv huv
  refine ⟨h.sound.forget, hknown, fun u hL => ?_, fun u hM => ?_, fun u hg => ?_, ?_, hf⟩
  · dsimp only
    rw [Placement.home_forget, ht.content]
    by_cases huv : u = v
    · subst huv
      rw [if_pos rfl, if_pos rfl, hnew]
    · obtain hd | ⟨hLu, hne⟩ := hu.vars u hL
      · exact absurd (Option.some.inj hd).symm huv
      · rw [if_neg huv, if_neg (hne v rfl), h.vars u hLu, hold u (hknown u (Or.inl hL)) huv]
  · dsimp only
    obtain ⟨hd, hn⟩ | ⟨hd, hMu⟩ := hu.slots u hM
    · cases hd
      rw [ht.mem_cell hn, hnew]
    · have huv : u ≠ v := fun he => hd (by rw [he])
      have haddr := hknown u (Or.inr hM)
      rw [ht.mem_cell_of_ne haddr hv huv, h.slots u hMu, hold u haddr huv]
  · -- a global is its own cell and never in a register
    have hc : q.cell u = u := Scope.cell_of_isGlobal hg
    have hgoal : t.mem (q.cell u) = s.mem (q.cell u) := by
      by_cases huv : u = v
      · subst huv
        rw [ht.mem_cell (Placement.target?_of_isGlobal h.sound hg), hnew]
      · have hglobal := h.globals u hg
        rw [← hc] at hglobal
        rw [ht.mem_cell_of_ne (Or.inr hg) hv huv, hold u (Or.inr hg) huv, hglobal]
    rwa [hc] at hgoal
  · dsimp only
    rw [hs.calls, ht.calls, h.calls]

lemma write_simulates (hv : q.Addressable v) (o : Operand) :
    Simulates m y W
      (fun w => Agree q F L M w ∧ Ready S w o ∧ Updates q w.cache (some v) L L' M M')
      [.write o v] (Agree q F L' M') := by
  apply Simulates.silent
  rintro w ⟨hA, ho, hu⟩
  have hplain : q.inMemory.Sound w.plainCache := fun _ _ h => by cases h
  obtain ⟨s, hs, hsw, hsf⟩ :=
    write_spec (q := q.inMemory) (m := m) (t := w.plain) hplain hv o
  obtain ⟨t, ht, htw, htf⟩ :=
    write_spec (m := m.clobbering y) (t := w.placed) hA.sound hv o
  refine ⟨s, t, hs, ht, hA.writes hv hu hsw (ho.value_eq ▸ htw) fun hF => ?_⟩
  obtain ⟨hreg, hlit⟩ := ho.literal_eq
  rw [hsf, htf, hreg]
  split
  · next hcond =>
    rw [hlit (by rw [hreg]; simp_all)]
    rfl
  · exact hA.float hF

lemma compute_simulates (hv : q.Addressable v) {op : String} (hop : Effect.of op = .compute)
    (a b : Operand) {S' : List Register} :
    Simulates m y W
      (fun w => Agree q F L M w ∧ Ready S w a ∧ Ready S' w b ∧
        Updates q w.cache (some v) L L' M M')
      [.compute op v a b] (Agree q F L' M') := by
  apply Simulates.silent
  rintro w ⟨hA, ha, hb, hu⟩
  obtain ⟨s, hs, hsw, hsf⟩ :=
    compute_spec (q := q.inMemory) (m := m) (c := w.plainCache) (t := w.plain) hv hop a b
  obtain ⟨t, ht, htw, htf⟩ :=
    compute_spec (m := m.clobbering y) (c := w.cache) (t := w.placed) hv hop a b
  rw [ha.value_eq, hb.value_eq] at htw
  refine ⟨s, t, hs, ht, hA.writes hv hu hsw htw fun hF => ?_⟩
  rw [hsf, htf, hA.float hF]

end
end MipsBackend
