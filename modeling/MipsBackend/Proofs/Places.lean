import MipsBackend.Proofs.Execution

/-! Places of variables. Wherever a placement keeps its variables, writing one changes the content
of one place only. -/
namespace MipsBackend
open Asm Asm.Register Machine

/-- A place where a variable can be: a saved register or a memory operand. -/
inductive Place where
  | register (n : Nat)
  | memory (operand : String)
  deriving DecidableEq

namespace Place

/-- A register, or a memory operand where there is none. -/
def of (cell : String) : Option Nat → Place
  | some n => .register n
  | none => .memory cell

@[simp] lemma of_some (cell : String) (n : Nat) : of cell (some n) = .register n := rfl

@[simp] lemma of_none (cell : String) : of cell none = .memory cell := rfl

lemma eq_of_of_eq_of {a b : String} {x y : Option Nat} (h : of a x = of b y) :
    (∃ n, x = some n ∧ y = some n) ∨ a = b := by
  cases x with
  | some n =>
    cases y with
    | some k =>
      cases h
      exact Or.inl ⟨n, rfl, rfl⟩
    | none => cases h
  | none =>
    cases y with
    | some k => cases h
    | none => exact Or.inr (Place.memory.inj h)

end Place

namespace Machine.State
variable {V : Type} (t : State V) {r : Register} {x : V}

/-- What is at a place. -/
def content : Place → V
  | .register n => t.regs (saved n)
  | .memory a => t.mem a

lemma content_setReg_saved (n : Nat) (x : V) (a : Place) :
    (t.setReg (saved n) x).content a = if a = .register n then x else t.content a := by
  cases a with
  | register k =>
    by_cases h : k = n
    · simp [content, h]
    · have hne : saved k ≠ saved n := fun hs => h (saved_injective hs)
      simp [content, h, hne]
  | memory a => simp [content]

lemma content_setReg_scratch (hr : Scratch r) (x : V) (a : Place) :
    (t.setReg r x).content a = t.content a := by
  cases a with
  | register k => simp [content, (hr k).symm]
  | memory a => rfl

lemma content_setMem (b : String) (x : V) (a : Place) :
    (t.setMem b x).content a = if a = .memory b then x else t.content a := by
  cases a <;> simp [content]

end Machine.State

namespace Placement
variable {q : Placement} {c : Cache} {u v : String} {n : Nat}

/-- Where a variable is read from. -/
def home (q : Placement) (c : Cache) (v : String) : Place := .of (q.cell v) (q.register? c v)

/-- Where a variable is written to. -/
def dest (q : Placement) (c : Cache) (v : String) : Place := .of (q.cell v) (q.target? c v)

/-- Only local integer variables are in registers. -/
def Sound (q : Placement) (c : Cache) : Prop :=
  ∀ v n, q.register? c v = some n → q.function.isInt v = true ∧ q.program.isGlobal v = false

lemma register?_of_target? (h : q.target? c v = some n) : q.register? c v = some n := by
  unfold target? at h
  unfold register?
  cases hp : q.plan with
  | memory => simp [hp] at h
  | perFunction a => simpa [hp] using h
  | perBlock k l =>
    simp only [hp] at h
    split at h
    · cases h
    · exact h

/-- Reading and performing anything but an entry or exit of a block or a write leaves the places
of variables as they are. -/
lemma register?_congr {d : Cache} (h : d.assigned = c.assigned) (v : String) :
    q.register? d v = q.register? c v := by
  simp [register?, h]

lemma target?_congr {d : Cache} (h : d.assigned = c.assigned) (h' : d.committed = c.committed)
    (v : String) : q.target? d v = q.target? c v := by
  simp [target?, h, h']

lemma register?_forget : q.register? (q.forget c v) u =
    if u = v then q.target? c v else q.register? c u := by
  unfold forget
  cases ht : q.target? c v with
  | some n =>
    dsimp only
    by_cases huv : u = v
    · rw [if_pos huv, huv, register?_of_target? ht]
    · rw [if_neg huv]
  | none =>
    unfold target? at ht
    unfold register?
    cases hp : q.plan with
    | memory => simp
    | perFunction a =>
      simp only [hp] at ht
      by_cases huv : u = v
      · simp [huv, ht]
      · simp [huv]
    | perBlock k l => simp

/-- A variable is found where it has been written to, and all others stay where they are. -/
lemma home_forget : q.home (q.forget c v) u = if u = v then q.dest c v else q.home c u := by
  by_cases huv : u = v
  · subst huv
    simp [home, dest, register?_forget]
  · simp [home, register?_forget, huv]

lemma Sound.forget (h : q.Sound c) : q.Sound (q.forget c v) := by
  intro u n hu
  rw [register?_forget] at hu
  split at hu
  · next huv =>
    subst huv
    exact h u n (register?_of_target? hu)
  · exact h u n hu

lemma location?_of_register? (h : q.Sound c) (hv : q.register? c v = some n) :
    q.location? v = some ⟨q.cell v, false⟩ :=
  Scope.location?_of_isInt (h v n hv).2 (h v n hv).1

lemma addressable_of_register? (h : q.Sound c) (hv : q.register? c v = some n) :
    q.Addressable v :=
  Or.inl (by simp [FunctionDef.isVar, (h v n hv).1])

/-- A write to `v` leaves another variable alone, unless it goes to the register of that. -/
lemma home_ne_dest (hu : q.Addressable u) (hv : q.Addressable v) (huv : u ≠ v)
    (h : ∀ n, q.target? c v = some n → q.register? c u ≠ some n) : q.home c u ≠ q.dest c v := by
  intro he
  rcases Place.eq_of_of_eq_of he with ⟨n, hr, ht⟩ | hcell
  · exact h n ht hr
  · exact huv (Scope.cell_injective hu hv hcell)

end Placement

namespace Machine
variable {q : Placement} {V : Type} {m : Machine q.program V} {c : Cache} {t : State V} {v : String}

/-- One place has a new content. -/
structure Writes (t t' : State V) (a : Place) (x : V) : Prop where
  content : ∀ b, t'.content b = if b = a then x else t.content b
  calls : t'.calls = t.calls
  regs : ∀ r, Scratch r → r ∉ [t0, t2, f0, f4] → t'.regs r = t.regs r

lemma writes_setReg (n : Nat) (x : V) : Writes t (t.setReg (saved n) x) (.register n) x where
  content := t.content_setReg_saved n x
  calls := rfl
  regs r hr _ := by simp [hr n]

lemma writes_setMem {r : Register} (hr : r ∈ [t0, t2, f0, f4]) (hs : Scratch r) (y : V)
    (a : String) (x : V) : Writes t ((t.setReg r y).setMem a x) (.memory a) x where
  content b := by rw [State.content_setMem, State.content_setReg_scratch _ hs]
  calls := rfl
  regs r' _ hr' := by
    have hne : r' ≠ r := fun h => hr' (h ▸ hr)
    simp [hne]

lemma Writes.mem_cell {t' : State V} {x : V} (h : Writes t t' (q.dest c v) x)
    (hv : q.target? c v = none) : t'.mem (q.cell v) = x := by
  have := h.content (.memory (q.cell v))
  rwa [Placement.dest, hv, Place.of_none, if_pos rfl] at this

/-- The cells of other variables are left alone, whatever the destination is. -/
lemma Writes.mem_cell_of_ne {t' : State V} {x : V} {u : String}
    (h : Writes t t' (q.dest c v) x) (hu : q.Addressable u) (hv : q.Addressable v) (huv : u ≠ v) :
    t'.mem (q.cell u) = t.mem (q.cell u) := by
  have hne : q.cell u ≠ q.cell v := fun hc => huv (Scope.cell_injective hu hv hc)
  have hdest : Place.memory (q.cell u) ≠ q.dest c v := by
    unfold Placement.dest
    cases q.target? c v with
    | some n => simp
    | none => simpa using hne
  have := h.content (.memory (q.cell u))
  rwa [if_neg hdest] at this

/-- Writing a variable changes the content of its destination, and `$f0` only to pass a float
literal through it. -/
lemma write_spec (hc : q.Sound c) (hv : q.Addressable v) (o : Operand) :
    ∃ t', m.Performs (q.emission c (.write o v)) t [] t' ∧
      Writes t t' (q.dest c v) (m.value t (c.resolve o)) ∧
      t'.regs f0 = if (q.location? v).any Location.isFloat && !isRegister (c.resolve o)
        then m.literal (c.resolve o) else t.regs f0 := by
  obtain ⟨l, hl, -⟩ := Scope.location?_of_addressable hv
  cases ht : q.target? c v with
  | some n =>
    have hloc := Placement.location?_of_register? hc (Placement.register?_of_target? ht)
    refine ⟨_, write_performs_register ht o, ?_, ?_⟩
    · simpa only [Placement.dest, ht, Place.of_some] using writes_setReg n _
    · simp [hloc, scratch_f0 n]
  | none =>
    refine ⟨_, write_performs_memory hl ht o, ?_, ?_⟩
    · simp only [Placement.dest, ht, Place.of_none, stored]
      cases isRegister (c.resolve o)
      · cases l.isFloat
        · exact writes_setMem (by decide) scratch_t0 _ _ _
        · exact writes_setMem (by decide) scratch_f0 _ _ _
      · exact ⟨fun b => t.content_setMem _ _ b, rfl, fun _ _ _ => rfl⟩
    · simp only [stored, hl, Option.any_some]
      cases isRegister (c.resolve o)
      · cases l.isFloat <;> simp [f0, t0]
      · simp

/-- Computing into a variable changes the content of its destination. -/
lemma compute_spec (hv : q.Addressable v) {op : String} (hop : Effect.of op = .compute)
    (a b : Operand) :
    ∃ t', m.Performs (q.emission c (.compute op v a b)) t [] t' ∧
      Writes t t' (q.dest c v)
        (m.compute op (m.value t (c.resolve a)) (m.value t (c.resolve b))) ∧
      t'.regs f0 = t.regs f0 := by
  cases ht : q.target? c v with
  | some n =>
    refine ⟨_, compute_performs_register ht hop a b, ?_, ?_⟩
    · simpa only [Placement.dest, ht, Place.of_some] using writes_setReg n _
    · simp [scratch_f0 n]
  | none =>
    refine ⟨_, compute_performs_memory hv ht hop a b, ?_, ?_⟩
    · simp only [Placement.dest, ht, Place.of_none]
      cases q.function.isFloat v
      · exact writes_setMem (by decide) scratch_t2 _ _ _
      · exact writes_setMem (by decide) scratch_f4 _ _ _
    · cases q.function.isFloat v <;> simp [f0, f4, t2]

end Machine
end MipsBackend
