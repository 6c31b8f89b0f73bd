import MipsBackend.Proofs.Failures

/-! Addressing. The symbols that lines address, and how they follow from the actions that the
lines are emitted for. -/
namespace MipsBackend
open Asm Asm.Register

namespace Asm

/-- A memory operand of the form `offset(base)`. -/
def IsOffset (a : String) : Prop := ∃ (n : Int) (base : Register), a = address n base

/-- The mnemonics of loads and stores. -/
def memoryOps : List String := ["lw", "sw", "l.s", "s.s"]

/-- The line addresses a symbol: it loads from or stores to it, or takes its address. -/
def Line.Addresses : Line → String → Prop
  | .instr op args _, x => args[1]? = some x ∧ (op ∈ memoryOps ∧ ¬ IsOffset x ∨ op = "la")
  | .label _, _ => False
  | .comment _, _ => False

lemma toList_address (n : Int) (base : Register) :
    (address n base).toList = (toString n).toList ++ ('(' :: base.toList ++ [')']) := by
  rw [address, String.toList_append, String.toList_append, String.toList_append, List.append_assoc,
    List.append_assoc]
  rfl

lemma toList_toString_int (n : Int) : (toString n).toList =
    if n < 0 then '-' :: Nat.toDigits 10 n.natAbs else Nat.toDigits 10 n.natAbs := by
  cases n with
  | ofNat k => exact Nat.toList_repr
  | negSucc k =>
    have h : toString (Int.negSucc k) = "-" ++ (k + 1).repr := rfl
    rw [h, String.toList_append, Nat.toList_repr, if_pos (Int.negSucc_lt_zero k)]
    rfl

/-- Different offsets from a register are different operands. -/
lemma address_injective {n m : Int} {base : Register} (h : address n base = address m base) :
    n = m := by
  have h := congrArg String.toList h
  rw [toList_address, toList_address] at h
  have h := List.append_cancel_right h
  have hminus : ∀ k, '-' ∉ Nat.toDigits 10 k := fun k hk =>
    absurd (Nat.isDigit_of_mem_toDigits (by decide) (by decide) hk) (by decide)
  rw [toList_toString_int, toList_toString_int] at h
  by_cases hn : n < 0 <;> by_cases hm : m < 0
  · rw [if_pos hn, if_pos hm] at h
    have := toDigits_injective (List.cons.inj h).2
    omega
  · rw [if_pos hn, if_neg hm] at h
    exact absurd (h ▸ List.mem_cons_self) (hminus _)
  · rw [if_neg hn, if_pos hm] at h
    exact absurd (h ▸ List.mem_cons_self) (hminus _)
  · rw [if_neg hn, if_neg hm] at h
    have := toDigits_injective h
    omega

lemma isImmediate_address (n : Int) (base : Register) : isImmediate (address n base) = true := by
  have htext := (toList_address n base).trans (congrArg (· ++ _) (toList_toString_int n))
  split_ifs at htext
  · rw [isImmediate, htext]
    rfl
  · exact isImmediate_of_toDigits htext

end Asm

lemma Program.not_isOffset {p : Program} {v : String} (h : p.isGlobal v = true) : ¬ IsOffset v := by
  rintro ⟨n, base, rfl⟩
  have := (Program.isGlobal_iff.mp h).2.1
  rw [isImmediate_address] at this
  cases this

/-- One of the lines addresses a symbol. -/
def Emission.Addresses (e : Emission) (x : String) : Prop := ∃ l ∈ e.lines, l.Addresses x

namespace Emission
variable {e e' : Emission} {es : List Emission} {x : String}

lemma addresses_andThen (h : e.failure = none) :
    (e.andThen e').Addresses x ↔ e.Addresses x ∨ e'.Addresses x := by
  rw [Addresses, lines_andThen h]
  simp [Addresses, or_and_right, exists_or]

lemma not_addresses_sequence (h : ∀ e ∈ es, ¬ e.Addresses x) : ¬ (sequence es).Addresses x := by
  rintro ⟨l, hl, hx⟩
  obtain ⟨e, he, hl⟩ := mem_lines_sequence hl
  exact h e he ⟨l, hl, hx⟩

/-- Lines that move values between registers address nothing. -/
lemma not_addresses_line {op : String} {args : List String} {note : Option String}
    (hop : op ∉ "la" :: memoryOps) : ¬ Addresses ⟨[.instr op args note], none⟩ x := by
  rintro ⟨l, hl, hx⟩
  obtain rfl := List.mem_singleton.mp hl
  obtain ⟨-, h | rfl⟩ := hx
  · exact hop (List.mem_cons_of_mem _ h.1)
  · exact hop (by simp)

end Emission

namespace Scope
variable {s : Scope} {v r src op a b x : String}

/-- The symbol of a variable: shared variables have their names, local ones have none. -/
lemma symbol_cell (hv : s.Addressable v) :
    (s.cell v = x ∧ ¬ IsOffset x) ↔ s.program.isGlobal v = true ∧ v = x := by
  cases hg : s.program.isGlobal v with
  | true =>
    rw [cell_of_isGlobal hg]
    constructor
    · rintro ⟨rfl, -⟩
      exact ⟨rfl, rfl⟩
    · rintro ⟨-, rfl⟩
      exact ⟨rfl, Program.not_isOffset hg⟩
  | false =>
    obtain ⟨n, -, hcell⟩ := cell_of_not_isGlobal hg (hv.resolve_right (by simp [hg]))
    have hoffset : IsOffset (s.cell v) := ⟨_, sp, hcell⟩
    constructor
    · rintro ⟨rfl, h⟩
      exact absurd hoffset h
    · rintro ⟨h, -⟩
      cases h

lemma addresses_load (hv : s.Addressable v) :
    (s.load v r).Addresses x ↔ s.program.isGlobal v = true ∧ v = x := by
  obtain ⟨l, hl, hcell⟩ := location?_of_addressable hv
  have hop : (if l.isFloat then "l.s" else "lw") ∈ memoryOps := by split <;> decide
  have hla : (if l.isFloat then "l.s" else "lw") ≠ "la" := by split <;> decide
  rw [← symbol_cell hv, load, hl]
  simp [Emission.Addresses, notedLine, Line.Addresses, hop, hla, hcell]

lemma addresses_store (hv : s.Addressable v) :
    (s.store src v).Addresses x ↔ s.program.isGlobal v = true ∧ v = x := by
  obtain ⟨⟨operand, isFloat⟩, hl, rfl⟩ := location?_of_addressable hv
  rw [← symbol_cell hv, store, hl]
  cases isFloat <;> cases isRegister src <;>
    simp [Emission.Addresses, plainLine, notedLine, Line.Addresses, memoryOps]

lemma addresses_computeAndStore (hv : s.Addressable v) (hop : op ∉ "la" :: memoryOps) :
    (s.computeAndStore op v a b).Addresses x ↔ s.program.isGlobal v = true ∧ v = x := by
  rw [computeAndStore, Emission.addresses_andThen rfl, addresses_store hv, or_iff_right]
  exact Emission.not_addresses_line hop

end Scope

namespace Action

/-- The action addresses a symbol. -/
def Addresses (s : Scope) : Action → String → Prop
  | .read v _, x => s.program.isGlobal v = true ∧ v = x
  | .write _ v, x => s.program.isGlobal v = true ∧ v = x
  | .compute _ v _ _, x => s.program.isGlobal v = true ∧ v = x
  | .emit op args _, x =>
    args[1]? = some (.text x) ∧ (op ∈ memoryOps ∧ ¬ IsOffset x ∨ op = "la")
  | _, _ => False

/-- What the action addresses by itself it spells out. -/
def IsExplicit : Action → Prop
  | .emit op args _ => op ∈ "la" :: memoryOps → ∃ x, args[1]? = some (.text x)
  | .compute op _ _ _ => op ∉ "la" :: memoryOps
  | _ => True

end Action

namespace Placement
variable {q : Placement} {c : Cache} {a : Action} {as : List Action} {es : List (String × Nat)}
  {v x : String} {n : Nat}

lemma not_addresses_comment {text : String} : ¬ (commentLine text).Addresses x := by
  rintro ⟨l, hl, hx⟩
  obtain rfl := List.mem_singleton.mp hl
  exact hx

lemma not_addresses_announce {alloc : Allocation} :
    ¬ Emission.Addresses ⟨q.announce alloc, none⟩ x := by
  rintro ⟨l, hl, hx⟩
  rcases List.mem_cons.mp hl with rfl | hl
  · exact hx
  · obtain ⟨v, -, rfl⟩ := List.mem_map.mp hl
    split at hx <;> exact hx

lemma not_addresses_storeAll (hc : q.Sound c) (h : ∀ e ∈ es, q.register? c e.1 = some e.2) :
    ¬ (q.storeAll es).Addresses x := by
  apply Emission.not_addresses_sequence
  intro y hy
  obtain ⟨e, he, rfl⟩ := List.mem_map.mp hy
  have hreg := h e he
  rw [Scope.addresses_store (addressable_of_register? hc hreg), (hc _ _ hreg).2]
  simp

lemma not_addresses_loadAll (hc : q.Sound c) (h : ∀ e ∈ es, q.register? c e.1 = some e.2) :
    ¬ (q.loadAll es).Addresses x := by
  apply Emission.not_addresses_sequence
  intro y hy
  obtain ⟨e, he, rfl⟩ := List.mem_map.mp hy
  have hreg := h e he
  rw [Scope.addresses_load (addressable_of_register? hc hreg), (hc _ _ hreg).2]
  simp

lemma not_addresses_loadWorkingSet {k : Nat} {b : Block} :
    ¬ (q.loadWorkingSet k b).Addresses x := by
  rw [loadWorkingSet, Emission.addresses_andThen rfl, not_or]
  refine ⟨not_addresses_comment, Emission.not_addresses_sequence fun e he => ?_⟩
  obtain ⟨⟨v, r⟩, hv, rfl⟩ := List.mem_map.mp he
  have hset : v ∈ q.workingSet k b := List.fst_mem_of_mem_zipIdx hv
  have hcache := Scope.isCacheable_of_mem_workingSet hset
  rw [Emission.addresses_andThen rfl, Scope.addresses_load (addressable_of_isCacheable hcache),
    Scope.isGlobal_of_mem_workingSet hset]
  simp [not_addresses_comment]

lemma addresses_emit {op : String} {args : List Operand} {note : Option String}
    (h : (Action.emit op args note).IsExplicit) :
    (q.emission c (.emit op args note)).Addresses x ↔
      (Action.emit op args note).Addresses q.toScope x := by
  by_cases hop : op ∈ "la" :: memoryOps
  · obtain ⟨y, hy⟩ := h hop
    simp [emission, Emission.Addresses, Line.Addresses, Action.Addresses, hy, Cache.resolve]
  · refine iff_of_false (Emission.not_addresses_line hop) ?_
    rintro ⟨-, h | rfl⟩
    · exact hop (List.mem_cons_of_mem _ h.1)
    · exact hop (by simp)

/-- A variable in a register has no symbol. -/
lemma not_isGlobal_of_target? (hc : q.Sound c) (h : q.target? c v = some n) :
    ¬ (q.program.isGlobal v = true ∧ v = x) := by
  rw [(hc v n (register?_of_target? h)).2]
  simp

/-- The lines of an action address what the action does, wherever variables live. -/
lemma addresses_emission (hc : q.Sound c) (hr : a.ReadsPlaced q.toScope) (ha : a.IsExplicit)
    (hok : q.failure? a = none) :
    (q.emission c a).Addresses x ↔ a.Addresses q.toScope x := by
  cases a with
  | comment text => exact iff_of_false not_addresses_comment id
  | label name =>
    refine iff_of_false ?_ id
    rintro ⟨l, hl, hx⟩
    obtain rfl := List.mem_singleton.mp hl
    exact hx
  | emit op args note => exact addresses_emit ha
  | enterFunction =>
    refine iff_of_false ?_ id
    rw [emission]
    cases q.plan with
    | memory | perBlock => simp [Emission.Addresses, Emission.nothing]
    | perFunction alloc => exact not_addresses_announce
  | enterBlock b =>
    refine iff_of_false ?_ id
    rw [emission]
    cases q.plan with
    | memory | perFunction => simp [Emission.Addresses, Emission.nothing]
    | perBlock k live => exact not_addresses_loadWorkingSet
  | exitBlock b =>
    refine iff_of_false ?_ id
    rw [emission]
    cases hp : q.plan with
    | memory | perFunction => simp [Emission.Addresses, Emission.nothing]
    | perBlock k live =>
      have hregs := register?_of_mem_writeBacks (c := c) (b := b) hp
      dsimp only
      rw [Emission.addresses_andThen rfl, Emission.addresses_andThen (failure_storeAll hc hregs)]
      simp [not_addresses_comment, not_addresses_storeAll hc hregs]
  | save n =>
    refine iff_of_false ?_ id
    rw [emission]
    cases hp : q.plan with
    | memory | perBlock => simp [Emission.Addresses, Emission.nothing]
    | perFunction alloc =>
      have hregs := register?_of_mem_liveAcross (c := c) (n := n) hp
      dsimp only
      rw [Emission.addresses_andThen rfl]
      simp [not_addresses_comment, not_addresses_storeAll hc hregs]
  | restore n =>
    refine iff_of_false ?_ id
    rw [emission]
    cases hp : q.plan with
    | memory | perBlock => simp [Emission.Addresses, Emission.nothing]
    | perFunction alloc =>
      have hregs := register?_of_mem_liveAcross (c := c) (n := n) hp
      dsimp only
      rw [Emission.addresses_andThen rfl]
      simp [not_addresses_comment, not_addresses_loadAll hc hregs]
  | read v r =>
    rw [emission]
    cases hreg : q.register? c v with
    | none => exact Scope.addresses_load hr
    | some n =>
      refine iff_of_false ?_ (by simp [Action.Addresses, (hc v n hreg).2])
      dsimp only
      split
      · exact Emission.not_addresses_line (by decide)
      · simp [Emission.Addresses, Emission.nothing]
  | write src v =>
    rw [emission]
    cases ht : q.target? c v with
    | none => exact Scope.addresses_store (Scope.addressable_of_unplaced? hok)
    | some n =>
      refine iff_of_false (Emission.not_addresses_line ?_) (not_isGlobal_of_target? hc ht)
      split <;> decide
  | compute op v y z =>
    rw [emission]
    cases ht : q.target? c v with
    | none => exact Scope.addresses_computeAndStore (Scope.addressable_of_unplaced? hok) ha
    | some n => exact iff_of_false (Emission.not_addresses_line ha) (not_isGlobal_of_target? hc ht)
  | fail cause => cases hok

/-- The lines of actions that do not fail address what the actions do. -/
lemma addresses_run (hc : q.Sound c) (hr : ∀ a ∈ as, a.ReadsPlaced q.toScope)
    (ha : ∀ a ∈ as, a.IsExplicit) (hok : (q.run c as).failure = none) :
    (q.run c as).Addresses x ↔ ∃ a ∈ as, a.Addresses q.toScope x := by
  induction as generalizing c with
  | nil => simp [run, Emission.nothing, Emission.Addresses]
  | cons a as ih =>
    obtain ⟨hfirst, hrest⟩ := Emission.failure_andThen.mp hok
    have hcause := (failure_emission hc (hr a (by simp))).symm.trans hfirst
    rw [run, Emission.addresses_andThen hfirst,
      addresses_emission hc (hr a (by simp)) (ha a (by simp)) hcause,
      ih (hc.next a) (fun b hb => hr b (by simp [hb])) (fun b hb => ha b (by simp [hb])) hrest,
      List.exists_mem_cons_iff]

end Placement

end MipsBackend
