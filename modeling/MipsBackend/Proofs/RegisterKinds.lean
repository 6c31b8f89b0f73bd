import MipsBackend.Proofs.AllLines

/-! Kinds of registers. Lines that work on floats take float registers, and lines that work on
integers take others. Whether a line keeps to that can be told from its action, if no variable is
declared both as an integer and as a float. -/
namespace MipsBackend
open Asm Asm.Register

/-! ### Lines -/

/-- The mnemonics of lines that work on floats. -/
def floatOps : List String :=
  ["l.s", "s.s", "li.s", "add.s", "sub.s", "mul.s", "div.s", "and.s", "or.s"]

/-- The mnemonics of lines that work on integers. -/
def intOps : List String :=
  ["lw", "sw", "li", "move", "add", "sub", "mul", "div", "and", "or", "addiu", "sll"]

/-- The operands that can be registers for values. The second operand of a load or store is an
address. -/
def valueOperands {α : Type} (op : String) (args : List α) : List α :=
  if op ∈ memoryOps then args.take 1
  else if op ∈ floatOps ++ intOps then args
  else []

lemma valueOperands_map {α β : Type} (g : α → β) (op : String) (args : List α) :
    valueOperands op (args.map g) = (valueOperands op args).map g := by
  unfold valueOperands
  split_ifs
  · rw [List.map_take]
  · rfl
  · rfl

/-- Not a register of the other kind. -/
def SuitsKind (isFloat : Bool) (x : String) : Prop :=
  isRegister x = true → isFloatRegister x = isFloat

/-- Among the operands of a line there is no register of the wrong kind. -/
def Asm.Line.IsKinded : Line → Prop
  | .instr op args _ => ∀ x ∈ valueOperands op args, SuitsKind (decide (op ∈ floatOps)) x
  | _ => True

instance (isFloat : Bool) (x : String) : Decidable (SuitsKind isFloat x) :=
  inferInstanceAs (Decidable (_ → _))

instance : (l : Line) → Decidable l.IsKinded
  | .instr op args _ => inferInstanceAs (Decidable (∀ x ∈ valueOperands op args, _))
  | .label _ => inferInstanceAs (Decidable True)
  | .comment _ => inferInstanceAs (Decidable True)

@[simp] lemma isFloatRegister_arg (n : Nat) : isFloatRegister (Register.arg n) = false := by
  rw [isFloatRegister, toList_arg, Option.isSome_eq_false_iff, Option.isNone_iff_eq_none]
  rfl

lemma isRegister_toString (n : Nat) : isRegister (toString n) = false := by
  rw [Bool.eq_false_iff]
  intro h
  obtain ⟨cs, hcs⟩ := isRegister_iff.mp h
  have hmem : '$' ∈ Nat.toDigits 10 n := by
    rw [← Nat.toList_repr]
    exact hcs ▸ List.mem_cons_self
  have hdigit := Nat.isDigit_of_mem_toDigits (by decide) (by decide) hmem
  revert hdigit
  decide

lemma isRegister_minus (x : String) : isRegister ("-" ++ x) = false := by
  rw [isRegister, String.toList_append]
  rfl

lemma isRegister_of_isFloatRegister {x : String} (h : isFloatRegister x = true) :
    isRegister x = true ∧ isImmediate x = true := by
  obtain ⟨cs, hcs⟩ := Option.isSome_iff_exists.mp h
  have htext := Text.afterStart?_eq_some.mp hcs
  exact ⟨isRegister_iff.mpr ⟨_, htext⟩, by rw [isImmediate, htext]; rfl⟩

lemma suitsKind_of_not_register {isFloat : Bool} {x : String} (h : isRegister x = false) :
    SuitsKind isFloat x := by
  intro hx
  rw [h] at hx
  cases hx

lemma suitsKind_iff {isFloat : Bool} {x : String} (h : isRegister x = true) :
    SuitsKind isFloat x ↔ isFloatRegister x = isFloat := by
  simp [SuitsKind, h]

lemma suitsKind_false_iff {v : String} : SuitsKind false v ↔ isFloatRegister v = false := by
  refine ⟨fun h => ?_, fun h _ => h⟩
  rw [Bool.eq_false_iff]
  intro hregister
  rw [h (isRegister_of_isFloatRegister hregister).1] at hregister
  cases hregister

namespace Asm.Line
variable {isFloat : Bool} {r x a : String} {note : Option String}

@[simp] lemma isKinded_load : (instr (if isFloat then "l.s" else "lw") [r, a] note).IsKinded ↔
    SuitsKind isFloat r := by
  cases isFloat <;> simp [IsKinded, valueOperands, memoryOps, floatOps]

@[simp] lemma isKinded_store : (instr (if isFloat then "s.s" else "sw") [r, a] note).IsKinded ↔
    SuitsKind isFloat r := by
  cases isFloat <;> simp [IsKinded, valueOperands, memoryOps, floatOps]

@[simp] lemma isKinded_constant (isFloat : Bool) :
    (instr (if isFloat then "li.s" else "li") [r, x] note).IsKinded ↔
      SuitsKind isFloat r ∧ SuitsKind isFloat x := by
  cases isFloat <;> simp [IsKinded, valueOperands, memoryOps, floatOps, intOps]

@[simp] lemma isKinded_move : (instr "move" [r, x] note).IsKinded ↔
    SuitsKind false r ∧ SuitsKind false x := by
  simp [IsKinded, valueOperands, memoryOps, floatOps, intOps]

lemma IsUpkeep.isKinded {l : Line} (h : l.IsUpkeep) : l.IsKinded := by
  rcases h with ⟨text, rfl⟩ | ⟨op, hop, n, x, note, rfl⟩
  · trivial
  · have hn : SuitsKind false (saved n) := fun _ => isFloatRegister_saved n
    simp only [List.mem_cons, List.not_mem_nil, or_false] at hop
    rcases hop with rfl | rfl
    · exact isKinded_load.mpr hn
    · exact isKinded_store.mpr hn

end Asm.Line

/-! ### Actions -/

/-- An operand whose register is not of the other kind. What is held for a scratch register is of
its kind. -/
def Operand.Suits (isFloat : Bool) : Operand → Prop
  | .text x => SuitsKind isFloat x
  | .held r => isFloatRegister r = isFloat

/-- An action of which no line has a register of the wrong kind. -/
def Action.IsKinded (s : Scope) : Action → Prop
  | .emit op args _ => ∀ o ∈ valueOperands op args, o.Suits (decide (op ∈ floatOps))
  | .read v r => isFloatRegister r = s.function.isFloat v
  | .write src v => src.Suits (s.function.isFloat v)
  | .compute op v x y =>
    ∀ o ∈ valueOperands op [.text (if s.function.isFloat v then f4 else t2), x, y],
      o.Suits (decide (op ∈ floatOps))
  | _ => True

namespace Action
variable {s : Scope} {x y z : Operand} {args : List Operand} {note : Option String}

@[simp] lemma isKinded_constant (isFloat : Bool) (r v : String) :
    (line (if isFloat then "li.s" else "li") [r, v]).IsKinded s ↔
      SuitsKind isFloat r ∧ SuitsKind isFloat v := by
  cases isFloat <;>
    simp [line, IsKinded, valueOperands, memoryOps, floatOps, intOps, Operand.Suits]

@[simp] lemma isKinded_lw : (emit "lw" (x :: args) note).IsKinded s ↔ x.Suits false := by
  simp [IsKinded, valueOperands, memoryOps, floatOps]

@[simp] lemma isKinded_sw : (emit "sw" (x :: args) note).IsKinded s ↔ x.Suits false := by
  simp [IsKinded, valueOperands, memoryOps, floatOps]

/-- Integer arithmetic that is not written in the code. -/
lemma isKinded_step {op : String} (hop : op ∈ ["add", "addiu", "sll"]) :
    (emit op [x, y, z] note).IsKinded s ↔ x.Suits false ∧ y.Suits false ∧ z.Suits false := by
  simp only [List.mem_cons, List.not_mem_nil, or_false] at hop
  rcases hop with rfl | rfl | rfl <;>
    simp [IsKinded, valueOperands, memoryOps, floatOps, intOps]

/-- Jumps and the like take registers of no kind. -/
lemma isKinded_of_not_mem {op : String} (hop : op ∉ memoryOps ++ (floatOps ++ intOps)) :
    (emit op args note).IsKinded s := by
  rw [List.mem_append, not_or] at hop
  rw [IsKinded, valueOperands, if_neg hop.1, if_neg hop.2]
  simp

end Action

/-- No variable is declared both as an integer and as a float. -/
def FunctionDef.Apart (f : FunctionDef) : Prop := ∀ v, f.isInt v = true → f.isFloat v = false

section
variable {q : Placement} {c : Cache} {X : String → Prop} {a : Action} {v : String}

/-- A variable is stored as what it is declared to be. -/
lemma FunctionDef.isFloat_slot? {f : FunctionDef} (hapart : f.Apart) {slot : Slot}
    (h : f.slot? v = some slot) : slot.isFloat = f.isFloat v := by
  cases hint : f.isInt v with
  | true =>
    obtain ⟨n, hn⟩ := slot?_of_isInt hint
    rw [h] at hn
    cases hn
    exact (hapart v hint).symm
  | false =>
    have hvar : f.isVar v = true := by
      rw [← isSome_slot?, h]
      rfl
    have hnone : f.ints.idxOf? v = none := by simpa [isInt] using hint
    rw [slot?, hnone] at h
    obtain ⟨n, -, rfl⟩ := Option.map_eq_some_iff.mp h
    rw [isVar, hint, Bool.false_or] at hvar
    exact hvar.symm

lemma isFloat_location {s : Scope} (hapart : s.function.Apart) {l : Location}
    (h : s.location? v = some l) : l.isFloat = s.function.isFloat v := by
  unfold Scope.location? at h
  split at h
  · cases h
    rfl
  · obtain ⟨slot, hslot, rfl⟩ := Option.map_eq_some_iff.mp h
    exact FunctionDef.isFloat_slot? hapart hslot

lemma suits_iff (isFloat : Bool) (hheld : c.Faithful) {o : Operand}
    (ho : ∀ r ∈ o.scratch?, r ∈ operandScratch) :
    SuitsKind isFloat (c.resolve o) ↔ o.Suits isFloat := by
  rcases Placement.isFloatRegister_resolve hheld ho with ⟨x, rfl, hx⟩ | ⟨r, -, rfl, hr, hkind⟩
  · rw [hx]
    rfl
  · rw [suitsKind_iff hr, hkind]
    rfl

lemma isKinded_load {s : Scope} (hapart : s.function.Apart) {r : String}
    (hs : (s.load v r).failure = none) :
    (∀ l ∈ (s.load v r).lines, l.IsKinded) ↔ SuitsKind (s.function.isFloat v) r := by
  unfold Scope.load at hs ⊢
  split at hs
  · cases hs
  · next l hl =>
    rw [List.forall_mem_singleton, notedLine, Line.isKinded_load, isFloat_location hapart hl]

lemma isKinded_store {s : Scope} (hapart : s.function.Apart) {src : String}
    (hs : (s.store src v).failure = none) :
    (∀ l ∈ (s.store src v).lines, l.IsKinded) ↔ SuitsKind (s.function.isFloat v) src := by
  unfold Scope.store at hs ⊢
  split at hs
  · cases hs
  · next l hl =>
    dsimp only
    split
    · rw [List.forall_mem_singleton, notedLine, Line.isKinded_store, isFloat_location hapart hl]
    · next hsrc =>
      have hscratch : SuitsKind l.isFloat (if l.isFloat then f0 else t0) := by
        cases l.isFloat <;> decide
      have hsrc : ∀ isFloat, SuitsKind isFloat src := fun _ =>
        suitsKind_of_not_register (Bool.eq_false_iff.mpr hsrc)
      rw [List.forall_mem_cons, List.forall_mem_singleton, plainLine, notedLine,
        Line.isKinded_constant, Line.isKinded_store]
      exact iff_of_true ⟨⟨hscratch, hsrc _⟩, hscratch⟩ (hsrc _)

/-- The operands of a line are those of its action. -/
lemma forall_suits_iff (hheld : c.Faithful) {os : List Operand} {isFloat : Bool}
    (hos : ∀ o ∈ os, ∀ r ∈ o.scratch?, r ∈ operandScratch) :
    (∀ x ∈ os.map c.resolve, SuitsKind isFloat x) ↔ ∀ o ∈ os, o.Suits isFloat := by
  rw [List.forall_mem_map]
  exact forall₂_congr fun o ho => suits_iff isFloat hheld (hos o ho)

lemma mem_of_mem_valueOperands {α : Type} {op : String} {args : List α} {x : α}
    (h : x ∈ valueOperands op args) : x ∈ args := by
  unfold valueOperands at h
  split_ifs at h
  · exact List.mem_of_mem_take h
  · exact h
  · cases h

lemma forall_valueOperands_congr {α : Type} {P : α → Prop} {d d' : α} (h : P d ↔ P d')
    (op : String) (xs : List α) :
    (∀ x ∈ valueOperands op (d :: xs), P x) ↔ ∀ x ∈ valueOperands op (d' :: xs), P x := by
  unfold valueOperands
  split_ifs <;> simp [h]

/-- The register in which a variable that is kept in memory is computed. -/
lemma kind_scratch (isFloat : Bool) : isRegister (if isFloat then f4 else t2) = true ∧
    isFloatRegister (if isFloat then f4 else t2) = isFloat := by
  cases isFloat <;> decide

/-- What an operation in a register takes. -/
lemma isKinded_compute (hheld : c.Faithful) {op u r : String} {x y : Operand} {s : Scope}
    (ha : (Action.compute op u x y).Tame s X) (hr : isRegister r = true)
    (hkind : isFloatRegister r = s.function.isFloat u) :
    (plainLine op [r, c.resolve x, c.resolve y]).IsKinded ↔
      (Action.compute op u x y).IsKinded s := by
  obtain ⟨hscratch, hscratchKind⟩ := kind_scratch (s.function.isFloat u)
  have hdest : (Operand.text r).Suits (decide (op ∈ floatOps)) ↔
      (Operand.text (if s.function.isFloat u then f4 else t2)).Suits (decide (op ∈ floatOps)) := by
    simp only [Operand.Suits, suitsKind_iff hr, suitsKind_iff hscratch, hkind, hscratchKind]
  have hline : (plainLine op [r, c.resolve x, c.resolve y]).IsKinded ↔
      ∀ o ∈ valueOperands op [.text r, x, y], o.Suits (decide (op ∈ floatOps)) := by
    refine Iff.trans ?_ (forall_suits_iff hheld fun o ho r' hr' => ha.refersTo r' ?_)
    · rw [← valueOperands_map]
      rfl
    · have ho := mem_of_mem_valueOperands ho
      simp only [List.mem_cons, List.not_mem_nil, or_false] at ho
      rcases ho with rfl | rfl | rfl
      · cases hr'
      · simp_all
      · simp_all
  exact hline.trans (forall_valueOperands_congr hdest op [x, y])

/-- What is read is held in a register of its kind, if it is held in a register at all. -/
lemma isKinded_read (hapart : q.function.Apart) (hX : ∀ v, X v → q.function.isInt v = false)
    (hc : q.Sound c) {u r : String} (ha : (Action.read u r).Tame q.toScope X)
    (hs : (q.emission c (.read u r)).failure = none) :
    (∀ l ∈ (q.emission c (.read u r)).lines, l.IsKinded) ↔
      (Action.read u r).IsKinded q.toScope := by
  obtain ⟨hr, hfloat⟩ := ha.read u r rfl
  rw [Placement.emission] at hs ⊢
  cases hu : q.register? c u with
  | none =>
    rw [hu] at hs
    exact (isKinded_load hapart hs).trans (suitsKind_iff hr)
  | some n =>
    have hint := (hc u n hu).1
    -- Only integers have registers of their own, and none is read for a float register.
    have hkind : isFloatRegister r = false := by
      rw [Bool.eq_false_iff]
      intro hf
      rcases hfloat hf with hnot | ⟨-, hx⟩
      · rw [Scope.isIntVar, hint, Bool.true_or] at hnot
        cases hnot
      · rw [hX u hx] at hint
        cases hint
    refine iff_of_true ?_ (hkind.trans (hapart u hint).symm)
    dsimp only
    split
    · rw [List.forall_mem_singleton]
      exact Line.isKinded_move.mpr ⟨fun _ => hkind, fun _ => isFloatRegister_saved n⟩
    · simp [Emission.nothing]

lemma isKinded_write (hapart : q.function.Apart) (hc : q.Sound c) (hheld : c.Faithful)
    {src : Operand} {u : String} (ha : (Action.write src u).Tame q.toScope X)
    (hs : (q.emission c (.write src u)).failure = none) :
    (∀ l ∈ (q.emission c (.write src u)).lines, l.IsKinded) ↔
      (Action.write src u).IsKinded q.toScope := by
  have hsrc := fun isFloat => suits_iff isFloat hheld (o := src) fun r hr =>
    ha.refersTo r (by simp_all)
  rw [Placement.emission] at hs ⊢
  cases hu : q.target? c u with
  | none =>
    rw [hu] at hs
    exact (isKinded_store hapart hs).trans (hsrc _)
  | some n =>
    have hfloat := hapart u (hc u n (Placement.register?_of_target? hu)).1
    have hn : SuitsKind false (saved n) := fun _ => isFloatRegister_saved n
    rw [Action.IsKinded, hfloat, ← hsrc, List.forall_mem_singleton, Placement.moveLine]
    split
    · exact Line.isKinded_move.trans (and_iff_right hn)
    · exact (Line.isKinded_constant false).trans (and_iff_right hn)

/-- Whether the lines of an action take registers of the right kinds. -/
lemma isKinded_emission (hapart : q.function.Apart) (hX : ∀ v, X v → q.function.isInt v = false)
    (hc : q.Sound c) (hheld : c.Faithful) (ha : a.Tame q.toScope X)
    (hs : (q.emission c a).failure = none) :
    (∀ l ∈ (q.emission c a).lines, l.IsKinded) ↔ a.IsKinded q.toScope := by
  cases a with
  | comment | label => simp [Placement.emission, Line.IsKinded, Action.IsKinded]
  | emit op args note =>
    simp only [Placement.emission, List.forall_mem_singleton, Line.IsKinded, Action.IsKinded]
    rw [valueOperands_map]
    refine forall_suits_iff hheld fun o ho r hr => ha.refersTo r ?_
    exact List.mem_filterMap.mpr ⟨o, mem_of_mem_valueOperands ho, hr⟩
  | enterFunction | enterBlock | exitBlock | save | restore =>
    refine iff_of_true (fun l hl => ?_) trivial
    exact (Placement.isUpkeep_emission hc rfl rfl l hl).isKinded
  | read u r => exact isKinded_read hapart hX hc ha hs
  | write src u => exact isKinded_write hapart hc hheld ha hs
  | compute op u x y =>
    rw [Placement.emission] at hs ⊢
    cases hu : q.target? c u with
    | none =>
      rw [hu] at hs
      obtain ⟨hr, hkind⟩ := kind_scratch (q.function.isFloat u)
      rw [Scope.computeAndStore, Emission.lines_andThen rfl, List.forall_mem_append,
        List.forall_mem_singleton, isKinded_store hapart (Emission.failure_andThen.mp hs).2]
      exact (and_iff_left ((suitsKind_iff hr).mpr hkind)).trans (isKinded_compute hheld ha hr hkind)
    | some n =>
      have hint := (hc u n (Placement.register?_of_target? hu)).1
      exact List.forall_mem_singleton.trans (isKinded_compute hheld ha (isRegister_saved n)
        ((isFloatRegister_saved n).trans (hapart u hint).symm))
  | fail => cases hs

end
end MipsBackend
