import MipsBackend.Proofs.Machine

/-! What the lines of actions do on the machine, wherever variables are kept. -/
namespace MipsBackend
open Asm Asm.Register Machine

@[simp] lemma effect_lw : Effect.of "lw" = .load := rfl
@[simp] lemma effect_ls : Effect.of "l.s" = .load := rfl
@[simp] lemma effect_sw : Effect.of "sw" = .store := rfl
@[simp] lemma effect_ss : Effect.of "s.s" = .store := rfl
@[simp] lemma effect_li : Effect.of "li" = .constant := rfl
@[simp] lemma effect_lis : Effect.of "li.s" = .constant := rfl
@[simp] lemma effect_move : Effect.of "move" = .move := rfl
@[simp] lemma effect_jal : Effect.of "jal" = .call := rfl
@[simp] lemma effect_j : Effect.of "j" = .control := rfl
@[simp] lemma effect_jr : Effect.of "jr" = .control := rfl
@[simp] lemma effect_syscall : Effect.of "syscall" = .control := rfl
@[simp] lemma effect_addiu : Effect.of "addiu" = .compute := rfl

@[simp] lemma effect_branch (cmp : Comparison) : Effect.of cmp.mnemonic = .branch := by
  cases cmp <;> rfl

@[simp] lemma effect_arith (op : Arith) (isFloat : Bool) :
    Effect.of (op.mnemonic ++ if isFloat then ".s" else "") = .compute := by
  cases op <;> cases isFloat <;> rfl

namespace Emission

@[simp] lemma andThen_nothing (e : Emission) : e.andThen nothing = e := by
  obtain ⟨ls, _ | c⟩ := e <;> simp [andThen, nothing]

end Emission

namespace Machine
variable {q : Placement} {V : Type} {m : Machine q.program V} {c : Cache} {t : State V} {v : String}

/-- The state after a register or literal has been stored to memory; a literal leaves its value
in a scratch register as well. -/
def stored (m : Machine q.program V) (isFloat : Bool) (t : State V) (src cell : String) :
    State V :=
  (if isRegister src then t
    else t.setReg (if isFloat then f0 else t0) (m.literal src)).setMem cell (m.value t src)

/-! ### Single lines -/

/-- Only branches, calls and other transfers of control can be seen. -/
lemma performs_quiet (op : String) (hop : Effect.of op ∉ [.branch, .call, .control])
    (args : List String) (note : Option String) :
    m.Performs ⟨[.instr op args note], none⟩ t [] (m.stepInstr t op args) := by
  have hnone : m.visible? t (.instr op args note) = none := by
    unfold visible?
    dsimp only
    generalize Effect.of op = effect at hop ⊢
    cases effect <;> first | rfl | simp at hop
  have hline := performs_line (m := m) (s := t) (.instr op args note)
  rwa [hnone] at hline

lemma performs_load {op : String} (hop : Effect.of op = .load) (r : Register) (a : String)
    (note : Option String) :
    m.Performs ⟨[.instr op [r, a] note], none⟩ t [] (t.setReg r (t.mem a)) := by
  have hline := performs_quiet (m := m) (t := t) op (by simp [hop]) [r, a] note
  unfold stepInstr at hline
  rwa [hop] at hline

lemma performs_store {op : String} (hop : Effect.of op = .store) (r : Register) (a : String)
    (note : Option String) :
    m.Performs ⟨[.instr op [r, a] note], none⟩ t [] (t.setMem a (t.regs r)) := by
  have hline := performs_quiet (m := m) (t := t) op (by simp [hop]) [r, a] note
  unfold stepInstr at hline
  rwa [hop] at hline

lemma performs_constant {op : String} (hop : Effect.of op = .constant) (r : Register) (x : String)
    (note : Option String) :
    m.Performs ⟨[.instr op [r, x] note], none⟩ t [] (t.setReg r (m.literal x)) := by
  have hline := performs_quiet (m := m) (t := t) op (by simp [hop]) [r, x] note
  unfold stepInstr at hline
  rwa [hop] at hline

lemma performs_compute {op : String} (hop : Effect.of op = .compute) (r : Register) (a b : String)
    (note : Option String) :
    m.Performs ⟨[.instr op [r, a, b] note], none⟩ t []
      (t.setReg r (m.compute op (m.value t a) (m.value t b))) := by
  have hline := performs_quiet (m := m) (t := t) op (by simp [hop]) [r, a, b] note
  unfold stepInstr at hline
  rwa [hop] at hline

lemma load_performs (h : q.Addressable v) (r : Register) :
    m.Performs (q.load v r) t [] (t.setReg r (t.mem (q.cell v))) := by
  obtain ⟨⟨a, isFloat⟩, hl, hc⟩ := Scope.location?_of_addressable h
  simp only [Scope.load, hl, ← hc]
  cases isFloat <;> exact performs_line _

lemma store_performs {l : Location} (h : q.location? v = some l) (src : String) :
    m.Performs (q.store src v) t [] (m.stored l.isFloat t src (q.cell v)) := by
  obtain ⟨a, isFloat⟩ := l
  have hc : q.cell v = a := Scope.cell_eq_operand h
  simp only [Scope.store, h, hc, stored, value]
  cases isRegister src
  · have hstore : ∀ (op : String) (r : Register) note, Effect.of op = .store →
        m.Performs ⟨[.instr op [r, a] note], none⟩ (t.setReg r (m.literal src)) []
          ((t.setReg r (m.literal src)).setMem a (m.literal src)) := by
      intro op r note hop
      have hline := performs_store (m := m) (t := t.setReg r (m.literal src)) hop r a note
      rwa [State.regs_setReg, if_pos rfl] at hline
    cases isFloat
    · exact (performs_constant effect_li t0 src _).andThen (hstore _ _ _ effect_sw)
    · exact (performs_constant effect_lis f0 src _).andThen (hstore _ _ _ effect_ss)
  · cases isFloat <;> exact performs_line _

lemma storeRegister_performs (h : q.Addressable v) {src : String} (hs : isRegister src = true) :
    m.Performs (q.store src v) t [] (t.setMem (q.cell v) (t.regs src)) := by
  obtain ⟨l, hl, -⟩ := Scope.location?_of_addressable h
  have hp := store_performs (m := m) (t := t) hl src
  rwa [stored, value, if_pos hs, if_pos hs] at hp

/-! ### Single actions -/

lemma read_performs_memory (h : q.Addressable v) (hr : q.register? c v = none) (r : Register) :
    m.Performs (q.emission c (.read v r)) t [] (t.setReg r (t.mem (q.cell v))) := by
  rw [Placement.emission, hr]
  exact load_performs h r

lemma read_performs_move {n : Nat} {r : Register} (hr : q.register? c v = some n)
    (ha : isArgOrReturn r = true) :
    m.Performs (q.emission c (.read v r)) t [] (t.setReg r (t.regs (saved n))) := by
  simp only [Placement.emission, hr, ha, if_true]
  exact performs_line _

lemma read_performs_register {n : Nat} {r : Register} (hr : q.register? c v = some n)
    (ha : isArgOrReturn r = false) : m.Performs (q.emission c (.read v r)) t [] t := by
  simp only [Placement.emission, hr, ha, Bool.false_eq_true, if_false]
  exact performs_nothing

lemma write_performs_memory {l : Location} (hl : q.location? v = some l)
    (ht : q.target? c v = none) (o : Operand) :
    m.Performs (q.emission c (.write o v)) t []
      (m.stored l.isFloat t (c.resolve o) (q.cell v)) := by
  rw [Placement.emission, ht]
  exact store_performs hl _

lemma write_performs_register {n : Nat} (ht : q.target? c v = some n) (o : Operand) :
    m.Performs (q.emission c (.write o v)) t []
      (t.setReg (saved n) (m.value t (c.resolve o))) := by
  simp only [Placement.emission, ht, Placement.moveLine, value]
  cases isRegister (c.resolve o) <;> exact performs_line _

lemma compute_performs_memory (h : q.Addressable v) (ht : q.target? c v = none) {op : String}
    (hop : Effect.of op = .compute) (a b : Operand) :
    m.Performs (q.emission c (.compute op v a b)) t []
      ((t.setReg (if q.function.isFloat v then f4 else t2)
        (m.compute op (m.value t (c.resolve a)) (m.value t (c.resolve b)))).setMem (q.cell v)
        (m.compute op (m.value t (c.resolve a)) (m.value t (c.resolve b)))) := by
  simp only [Placement.emission, ht, Scope.computeAndStore]
  have hr : isRegister (if q.function.isFloat v then f4 else t2) = true := by
    cases q.function.isFloat v <;> rfl
  generalize (if q.function.isFloat v then f4 else t2) = r at hr ⊢
  generalize hx : m.compute op (m.value t (c.resolve a)) (m.value t (c.resolve b)) = x
  have hline : m.Performs ⟨[plainLine op [r, c.resolve a, c.resolve b]], none⟩ t []
      (t.setReg r x) := hx ▸ performs_compute hop r _ _ none
  have hstore := storeRegister_performs (m := m) (t := t.setReg r x) h hr
  rw [State.regs_setReg, if_pos rfl] at hstore
  exact hline.andThen hstore

lemma compute_performs_register {n : Nat} (ht : q.target? c v = some n) {op : String}
    (hop : Effect.of op = .compute) (a b : Operand) :
    m.Performs (q.emission c (.compute op v a b)) t []
      (t.setReg (saved n)
        (m.compute op (m.value t (c.resolve a)) (m.value t (c.resolve b)))) := by
  rw [Placement.emission, ht]
  exact performs_compute hop _ _ _ none

lemma emit_performs (op : String) (args : List Operand) (note : Option String) :
    m.Performs (q.emission c (.emit op args note)) t
      (m.visible? t (.instr op (args.map c.resolve) note)).toList
      (m.stepInstr t op (args.map c.resolve)) :=
  performs_line _

lemma line_performs (op : String) (args : List String) :
    m.Performs (q.emission c (.line op args)) t (m.visible? t (.instr op args none)).toList
      (m.stepInstr t op args) := by
  have hargs : (args.map Operand.text).map c.resolve = args := by
    rw [List.map_map]
    exact List.map_id args
  have := emit_performs (q := q) (m := m) (c := c) (t := t) op (args.map .text) none
  rwa [hargs] at this

lemma constant_performs {op : String} (hop : Effect.of op = .constant) (r : Register)
    (x : String) :
    m.Performs (q.emission c (.line op [r, x])) t [] (t.setReg r (m.literal x)) :=
  performs_constant hop r x none

lemma load_line_performs {op : String} (hop : Effect.of op = .load) (r : Register) (a : String) :
    m.Performs (q.emission c (.line op [r, a])) t [] (t.setReg r (t.mem a)) :=
  performs_load hop r a none

lemma compute_line_performs {op : String} (hop : Effect.of op = .compute) (r : Register)
    (a b : String) :
    m.Performs (q.emission c (.line op [r, a, b])) t []
      (t.setReg r (m.compute op (m.value t a) (m.value t b))) :=
  performs_compute hop r a b none

/-! ### Lists of actions -/

lemma performs_run_cons {a : Action} {as : List Action} {os os' : List (Observation V)}
    {t' t'' : State V} (h : m.Performs (q.emission c a) t os t')
    (h' : m.Performs (q.run (q.next c a) as) t' os' t'') :
    m.Performs (q.run c (a :: as)) t (os ++ os') t'' := h.andThen h'

end Machine

namespace Placement
variable (q : Placement)

/-- What is remembered after actions. -/
def nexts (c : Cache) (as : List Action) : Cache := as.foldl q.next c

lemma nexts_append (c : Cache) (as bs : List Action) :
    q.nexts c (as ++ bs) = q.nexts (q.nexts c as) bs := List.foldl_append

lemma run_append (c : Cache) (as bs : List Action) :
    q.run c (as ++ bs) = (q.run c as).andThen (q.run (q.nexts c as) bs) := by
  induction as generalizing c with
  | nil => rfl
  | cons a as ih =>
    rw [List.cons_append, run, run, ih, Emission.andThen_assoc]
    rfl

@[simp] lemma run_singleton (c : Cache) (a : Action) : q.run c [a] = q.emission c a := by
  rw [run, run, Emission.andThen_nothing]

end Placement
end MipsBackend
