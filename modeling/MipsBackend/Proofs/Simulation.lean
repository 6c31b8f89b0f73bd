import Mathlib.Data.List.Forall2
import MipsBackend.Proofs.Places

/-! Two runs of the same actions side by side: a plain one with all variables in memory, and one
with the variables placed where a plan keeps them. `Simulates` says that neither fails, that the
same can be seen of both, and what relates them before and after. -/
namespace MipsBackend
open Asm Asm.Register Machine

/-- The same function with all variables in memory. -/
abbrev Placement.inMemory (q : Placement) : Placement := { q with plan := .memory }

/-- The same machine, on which calls leave other values in the registers they may change. -/
def Machine.clobbering {p : Program} {V : Type} (m : Machine p V) (y : Nat → Register → V) :
    Machine p V := { m with clobbered := y }

/-- The same is seen, of the registers only what is in those of `W`. -/
structure Machine.Observation.Matches {V : Type} (W : List Register) (a b : Observation V) :
    Prop where
  op : a.op = b.op
  target : a.target = b.target
  compared : a.compared = b.compared
  regs : ∀ r ∈ W, a.regs r = b.regs r

/-- Two runs in progress. -/
structure Twin (V : Type) where
  plainCache : Cache
  cache : Cache
  plain : State V
  placed : State V

section
variable {q : Placement} {V : Type}

/-- From twins with `P`, the actions lead to twins with `Q`, and what is seen on the way is the
same. -/
def Simulates (m : Machine q.program V) (y : Nat → Register → V) (W : List Register)
    (P : Twin V → Prop) (as : List Action) (Q : Twin V → Prop) : Prop :=
  ∀ w, P w → ∃ s t os os',
    m.Performs (q.inMemory.run w.plainCache as) w.plain os s ∧
    (m.clobbering y).Performs (q.run w.cache as) w.placed os' t ∧
    List.Forall₂ (Observation.Matches W) os os' ∧
    Q ⟨q.inMemory.nexts w.plainCache as, q.nexts w.cache as, s, t⟩

namespace Simulates
variable {m : Machine q.program V} {y : Nat → Register → V} {W : List Register}
  {P P' Q Q' R : Twin V → Prop} {as bs : List Action}

lemma nil (h : ∀ w, P w → Q w) : Simulates m y W P [] Q :=
  fun w hw => ⟨w.plain, w.placed, [], [], performs_nothing, performs_nothing, .nil, h w hw⟩

lemma append (h : Simulates m y W P as Q) (h' : Simulates m y W Q bs R) :
    Simulates m y W P (as ++ bs) R := by
  intro w hw
  obtain ⟨s, t, os, os', h1, h2, h3, h4⟩ := h w hw
  obtain ⟨s', t', us, us', h1', h2', h3', h4'⟩ := h' _ h4
  refine ⟨s', t', os ++ us, os' ++ us', ?_, ?_, List.rel_append h3 h3', ?_⟩
  · rw [Placement.run_append]
    exact h1.andThen h1'
  · rw [Placement.run_append]
    exact h2.andThen h2'
  · rwa [Placement.nexts_append, Placement.nexts_append]

lemma cons {a : Action} (h : Simulates m y W P [a] Q) (h' : Simulates m y W Q as R) :
    Simulates m y W P (a :: as) R := h.append h'

lemma pre (h : Simulates m y W P as Q) (hP : ∀ w, P' w → P w) : Simulates m y W P' as Q :=
  fun w hw => h w (hP w hw)

lemma post (h : Simulates m y W P as Q) (hQ : ∀ w, Q w → Q' w) : Simulates m y W P as Q' := by
  intro w hw
  obtain ⟨s, t, os, os', h1, h2, h3, h4⟩ := h w hw
  exact ⟨s, t, os, os', h1, h2, h3, hQ _ h4⟩

/-- An action of which nothing is seen. -/
lemma silent {a : Action}
    (h : ∀ w, P w → ∃ s t, m.Performs (q.inMemory.emission w.plainCache a) w.plain [] s ∧
      (m.clobbering y).Performs (q.emission w.cache a) w.placed [] t ∧
      Q ⟨q.inMemory.next w.plainCache a, q.next w.cache a, s, t⟩) :
    Simulates m y W P [a] Q := by
  intro w hw
  obtain ⟨s, t, h1, h2, h3⟩ := h w hw
  refine ⟨s, t, [], [], ?_, ?_, .nil, h3⟩
  · rwa [Placement.run_singleton]
  · rwa [Placement.run_singleton]

/-- A line of which something is seen. -/
lemma seen {op : String} {args : List Operand} {note : Option String}
    (h : ∀ w, P w → ∃ a b,
      m.visible? w.plain (.instr op (args.map w.plainCache.resolve) note) = some a ∧
      (m.clobbering y).visible? w.placed (.instr op (args.map w.cache.resolve) note) = some b ∧
      a.Matches W b ∧
      Q ⟨w.plainCache, w.cache, m.stepInstr w.plain op (args.map w.plainCache.resolve),
        (m.clobbering y).stepInstr w.placed op (args.map w.cache.resolve)⟩) :
    Simulates m y W P [.emit op args note] Q := by
  intro w hw
  obtain ⟨a, b, h1, h2, h3, h4⟩ := h w hw
  refine ⟨_, _, [a], [b], ?_, ?_, .cons h3 .nil, h4⟩
  · have := emit_performs (q := q.inMemory) (m := m) (c := w.plainCache) (t := w.plain) op args note
    rwa [h1, ← Placement.run_singleton] at this
  · have := emit_performs (m := m.clobbering y) (c := w.cache) (t := w.placed) op args note
    rwa [h2, ← Placement.run_singleton] at this

end Simulates

/-! ### What stays the same -/

/-- From `w` to `w'` only the scratch registers of `S` have changed. -/
structure Twin.Keeps (S : List Register) (w w' : Twin V) : Prop where
  assigned : w'.cache.assigned = w.cache.assigned
  committed : w'.cache.committed = w.cache.committed
  plainHeld : ∀ r ∉ S, w'.plainCache.register r = w.plainCache.register r
  placedHeld : ∀ r ∉ S, w'.cache.register r = w.cache.register r
  plainRegs : ∀ r ∉ S, w'.plain.regs r = w.plain.regs r
  placedRegs : ∀ r ∉ S, w'.placed.regs r = w.placed.regs r
  plainMem : w'.plain.mem = w.plain.mem
  placedMem : w'.placed.mem = w.placed.mem
  plainCalls : w'.plain.calls = w.plain.calls
  placedCalls : w'.placed.calls = w.placed.calls

/-- What does not depend on the registers of `S`. -/
def Stable (S : List Register) (R : Twin V → Prop) : Prop := ∀ w w', w.Keeps S w' → R w → R w'

/-- The registers of `W` hold the same in both runs. -/
def Twin.Same (W : List Register) (w : Twin V) : Prop :=
  ∀ r ∈ W, w.plain.regs r = w.placed.regs r

lemma Stable.and {S : List Register} {R R' : Twin V → Prop} (h : Stable S R) (h' : Stable S R') :
    Stable S fun w => R w ∧ R' w := fun w w' hk hR => ⟨h w w' hk hR.1, h' w w' hk hR.2⟩

lemma stable_same {S W : List Register} (h : ∀ r ∈ W, r ∉ S) : Stable S (Twin.Same (V := V) W) := by
  intro w w' hk hs r hr
  rw [hk.plainRegs r (h r hr), hk.placedRegs r (h r hr), hs r hr]

/-- An operand stands for the same value in both runs. If it has been read for the sake of a
scratch register, that is one of `S`. -/
inductive Ready (S : List Register) (w : Twin V) : Operand → Prop
  | literal {x : String} (h : isRegister x = false) : Ready S w (.text x)
  | loaded {r : Register} (hr : r ∈ S) (h : isRegister r = true)
      (hval : w.plain.regs r = w.placed.regs r) : Ready S w (.text r)
  | held {r x : Register} (hr : r ∈ S) (h : isRegister r = true) (h' : isRegister x = true)
      (hx : x ∈ S ∨ ∃ n : Nat, x = saved n) (hplain : w.plainCache.register r = r)
      (hplaced : w.cache.register r = x) (hval : w.plain.regs r = w.placed.regs x) :
      Ready S w (.held r)

namespace Ready
variable {S S' : List Register} {w : Twin V} {o : Operand} {m : Machine q.program V}
  {y : Nat → Register → V}

lemma value_eq (h : Ready S w o) : (m.clobbering y).value w.placed (w.cache.resolve o) =
    m.value w.plain (w.plainCache.resolve o) := by
  cases h with
  | literal h => simp [value, Cache.resolve, h, clobbering]
  | loaded hr h hval => simp [value, Cache.resolve, h, hval]
  | held hr h h' hr' hplain hplaced hval =>
    simp [value, Cache.resolve, hplain, hplaced, h, h', hval]

/-- A literal is the same text in both runs. -/
lemma literal_eq (h : Ready S w o) : isRegister (w.cache.resolve o) =
    isRegister (w.plainCache.resolve o) ∧ (isRegister (w.cache.resolve o) = false →
      w.cache.resolve o = w.plainCache.resolve o) := by
  cases h with
  | literal h => exact ⟨rfl, fun _ => rfl⟩
  | loaded hr h hval => exact ⟨rfl, fun _ => rfl⟩
  | held hr h h' hr' hplain hplaced hval => simp [Cache.resolve, hplain, hplaced, h, h']

lemma stable (hS : ∀ r ∈ S, r ∉ S') (hS' : ∀ r ∈ S', Scratch r) :
    Stable S' fun w : Twin V => Ready S w o := by
  intro w w' hk h
  cases h with
  | literal h => exact .literal h
  | loaded hr h hval =>
    exact .loaded hr h (by rw [hk.plainRegs _ (hS _ hr), hk.placedRegs _ (hS _ hr), hval])
  | @held r x hr h h' hx hplain hplaced hval =>
    have hout : x ∉ S' := by
      rcases hx with hx | ⟨n, rfl⟩
      · exact hS _ hx
      · exact fun hn => hS' _ hn n rfl
    refine .held hr h h' hx ?_ ?_ ?_
    · rw [hk.plainHeld _ (hS _ hr), hplain]
    · rw [hk.placedHeld _ (hS _ hr), hplaced]
    · rw [hk.plainRegs _ (hS _ hr), hk.placedRegs _ hout, hval]

end Ready
end
end MipsBackend
