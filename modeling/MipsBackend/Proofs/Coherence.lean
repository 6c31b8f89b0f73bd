import MipsBackend.Proofs.Accesses

/-! Coherence. A plan for single blocks keeps a variable now in a register and now in memory: it
loads variables when a block is entered, stores some of them when it is left, and forgets a register
when its variable is written after that. Whatever it is asked for in between and in whatever order,
a variable that is read has the value that was written to it last. -/
namespace MipsBackend
open Asm Asm.Register Machine

/-- Entering or leaving a block, or reading or writing a variable. Variables are not read into
registers that hold variables, and what is computed is an operation of the machine. -/
def Action.IsRequest : Action → Prop
  | .enterBlock _ | .exitBlock _ | .write _ _ => True
  | .read _ r => Scratch r
  | .compute op _ _ _ => Effect.of op = .compute
  | _ => False

/-- Whether an action gives out the registers anew. -/
def Action.isEntry : Action → Bool
  | .enterBlock _ => true
  | _ => false

/-- The variable that an action writes, and the value. -/
def Machine.written? {p : Program} {V : Type} (m : Machine p V) (c : Cache) (t : State V) :
    Action → Option (String × V)
  | .write src v => some (v, m.value t (c.resolve src))
  | .compute op v a b =>
    some (v, m.compute op (m.value t (c.resolve a)) (m.value t (c.resolve b)))
  | _ => none

lemma Machine.written?_eq {p : Program} {V : Type} (m : Machine p V) {c : Cache} {t : State V}
    {a : Action} {v : String} {x : V} (h : m.written? c t a = some (v, x)) :
    a.written? = some v := by
  cases a with
  | write | compute =>
    cases h
    rfl
  | comment | label | emit | enterFunction | enterBlock | exitBlock => cases h
  | save | restore | read | fail => cases h

/-- The registers given out are among the first `k`, and no two variables have the same one. -/
structure Cache.Apart (k : Nat) (c : Cache) : Prop where
  injective : ∀ u v n, c.assigned.get? u = some n → c.assigned.get? v = some n → u = v
  bounded : ∀ v n, c.assigned.get? v = some n → n < k

namespace Cache.Apart
variable {k : Nat} {c d : Cache}

lemma empty (h : c.assigned = ∅) : c.Apart k := by
  have hnone : ∀ v n, c.assigned.get? v ≠ some n := by
    intro v n hv
    rw [h] at hv
    cases hv
  exact ⟨fun u v n hu _ => absurd hu (hnone u n), fun v n hv => absurd hv (hnone v n)⟩

/-- Registers may be taken away. -/
lemma mono (hc : c.Apart k) (h : ∀ v n, d.assigned.get? v = some n → c.assigned.get? v = some n) :
    d.Apart k :=
  ⟨fun u v n hu hv => hc.injective u v n (h u n hu) (h v n hv),
    fun v n hv => hc.bounded v n (h v n hv)⟩

end Cache.Apart

namespace Placement
variable {q : Placement} {k n : Nat} {c : Cache} {a : Action} {as : List Action} {V : Type}
  {m : Machine q.program V} {t : State V} {u v : String} {r : Register} {x : V}

/-! ### Registers given out -/

lemma get?_assigned_forget (h : (q.forget c v).assigned.get? u = some n) :
    c.assigned.get? u = some n := by
  unfold forget at h
  split at h
  · dsimp only at h
    rw [OrdMap.get?_erase] at h
    split at h
    · cases h
    · exact h
  · exact h

lemma PerBlock.apart_next (hq : q.PerBlock k) (hc : c.Apart k) (a : Action) :
    (q.next c a).Apart k := by
  cases a with
  | enterBlock b =>
    simp only [next, show q.plan = _ from hq]
    refine ⟨fun u v n => Scope.blockRegisters_injective, fun v n hv => ?_⟩
    have hv := List.mem_zipIdx_iff_getElem?.mp (Scope.get?_blockRegisters.mp hv)
    have hlt := (List.getElem?_eq_some_iff.mp hv).1
    exact Nat.lt_of_lt_of_le hlt (List.length_take_le _ _)
  | write src v => exact hc.mono fun _ _ => get?_assigned_forget
  | compute op v x y => exact hc.mono fun _ _ => get?_assigned_forget
  | exitBlock | read => exact hc.mono fun _ _ h => h
  | comment | label | emit | enterFunction | save | restore | fail => exact hc

lemma PerBlock.apart_nexts (hq : q.PerBlock k) (hc : c.Apart k) (as : List Action) :
    (q.nexts c as).Apart k := by
  induction as generalizing c with
  | nil => exact hc
  | cons a as ih => exact ih (hq.apart_next hc a)

lemma PerBlock.apart_renew (hq : q.PerBlock k) (c : Cache) : (q.renew c).Apart k := by
  apply Cache.Apart.empty
  simp only [renew, show q.plan = _ from hq]

/-! ### Single requests -/

/-- What is read or written has a place, if that does not fail. -/
lemma addressable_of_failure (hc : q.Sound c) (hs : (q.emission c a).failure = none)
    (ha : a.read? = some v ∨ a.written? = some v) : q.Addressable v := by
  cases a with
  | read u r =>
    obtain rfl : u = v := by simpa [Action.read?, Action.written?] using ha
    cases hr : q.register? c u with
    | some n => exact addressable_of_register? hc hr
    | none =>
      simp only [emission, hr] at hs
      exact Scope.addressable_of_unplaced? (Scope.failure_load.symm.trans hs)
  | write src u =>
    obtain rfl : u = v := by simpa [Action.read?, Action.written?] using ha
    have hf := failure_emission (a := .write src u) hc trivial
    exact Scope.addressable_of_unplaced? (hf.symm.trans hs)
  | compute op u x y =>
    obtain rfl : u = v := by simpa [Action.read?, Action.written?] using ha
    have hf := failure_emission (a := .compute op u x y) hc trivial
    exact Scope.addressable_of_unplaced? (hf.symm.trans hs)
  | comment | label | emit | enterFunction | enterBlock | exitBlock | save | restore | fail =>
    simp [Action.read?, Action.written?] at ha

/-- A write puts the value where the variable is found from then on, and changes no other place. -/
lemma content_of_written? (hc : q.Sound c) (ha : a.IsRequest)
    (hs : (q.emission c a).failure = none) (hw : m.written? c t a = some (v, x)) :
    q.next c a = q.forget c v ∧ ∀ b, (m.run t (q.emission c a).lines).content b =
      if b = q.dest c v then x else t.content b := by
  cases a with
  | write src u =>
    obtain ⟨rfl, rfl⟩ : u = v ∧ m.value t (c.resolve src) = x := by simpa [written?] using hw
    have hv := addressable_of_failure hc hs (Or.inr rfl)
    obtain ⟨t', hp, hwrites, -⟩ := write_spec (m := m) (t := t) hc hv src
    exact ⟨rfl, hp.run ▸ hwrites.content⟩
  | compute op u y z =>
    obtain ⟨rfl, rfl⟩ :
        u = v ∧ m.compute op (m.value t (c.resolve y)) (m.value t (c.resolve z)) = x := by
      simpa [written?] using hw
    have hv := addressable_of_failure hc hs (Or.inr rfl)
    obtain ⟨t', hp, hwrites, -⟩ := compute_spec (m := m) (t := t) (c := c) hv ha y z
    exact ⟨rfl, hp.run ▸ hwrites.content⟩
  | comment | label | emit | enterFunction | enterBlock | exitBlock => cases hw
  | save | restore | read | fail => cases hw

/-- Reading leaves every place alone, and the value is in the register that is answered. -/
lemma read_spec (hc : q.Sound c) (hr : Scratch r)
    (hs : (q.emission c (.read v r)).failure = none) :
    (m.run t (q.emission c (.read v r)).lines).regs (q.answer c v r) = t.content (q.home c v) ∧
      ∀ b, (m.run t (q.emission c (.read v r)).lines).content b = t.content b := by
  cases hv : q.register? c v with
  | none =>
    have haddr := addressable_of_failure hc hs (Or.inl rfl)
    rw [(read_performs_memory (m := m) (t := t) haddr hv r).run]
    refine ⟨?_, t.content_setReg_scratch hr _⟩
    simp [answer, home, hv, State.content]
  | some n =>
    cases hscratch : isArgOrReturn r with
    | true =>
      rw [(read_performs_move (m := m) (t := t) hv hscratch).run]
      refine ⟨?_, t.content_setReg_scratch hr _⟩
      simp [answer, home, hv, hscratch, State.content]
    | false =>
      rw [(read_performs_register (m := m) (t := t) hv hscratch).run]
      refine ⟨?_, fun _ => rfl⟩
      simp [answer, home, hv, hscratch, State.content]

/-- Leaving a block stores registers to the slots of their own variables, so that what is read
from the slot of another one does not change. -/
lemma PerBlock.content_exitBlock (hq : q.PerBlock k) (hc : q.Sound c) (hv : q.Addressable v)
    (b : Block) :
    (m.run t (q.emission c (.exitBlock b)).lines).content (q.home c v) =
      t.content (q.home c v) := by
  have hes := register?_of_mem_writeBacks (c := c) (b := b) hq
  have haddr := fun e he => addressable_of_register? hc (hes e he)
  obtain ⟨t', hp, hregs, -, -, hold⟩ :=
    storeAll_performs (m := m) (t := t) haddr (unique_of_register? hes)
  have hexit : m.Performs (q.emission c (.exitBlock b)) t [] t' := by
    simp only [emission, show q.plan = _ from hq]
    exact (performs_line _).andThen (hp.andThen (performs_line _))
  rw [hexit.run]
  cases hr : q.register? c v with
  | some n => simp [home, hr, State.content, hregs]
  | none =>
    simp only [home, hr, Place.of_none, State.content]
    refine hold _ fun e he hcell => ?_
    obtain rfl := Scope.cell_injective hv (haddr e he) hcell
    rw [hes e he] at hr
    cases hr

/-- No request but a write to a variable itself changes what is found where it is, as long as the
registers are not given out anew. -/
lemma PerBlock.content_step (hq : q.PerBlock k) (hc : q.Sound c) (hapart : c.Apart k)
    (ha : a.IsRequest) (hs : (q.emission c a).failure = none) (hv : q.Addressable v)
    (hentry : a.isEntry = false) (hw : a.written? ≠ some v) :
    (m.run t (q.emission c a).lines).content (q.home (q.next c a) v) = t.content (q.home c v) := by
  have hother : ∀ u y, m.written? c t a = some (u, y) → a.written? = some u →
      (m.run t (q.emission c a).lines).content (q.home (q.next c a) v) =
        t.content (q.home c v) := by
    intro u y hwrite hu
    have huv : v ≠ u := by
      rintro rfl
      exact hw hu
    obtain ⟨hnext, hcontent⟩ := content_of_written? hc ha hs hwrite
    have hne : q.home c v ≠ q.dest c u := by
      refine home_ne_dest hv (addressable_of_failure hc hs (Or.inr hu)) huv fun n ht hr => ?_
      have ht := register?_of_target? ht
      rw [hq.register?_eq] at ht hr
      exact huv (hapart.injective v u n hr ht)
    rw [hnext, home_forget, if_neg huv, hcontent, if_neg hne]
  cases a with
  | enterBlock b => cases hentry
  | exitBlock b => exact hq.content_exitBlock hc hv b
  | read u r => exact (read_spec hc ha hs).2 _
  | write src u => exact hother u _ rfl rfl
  | compute op u y z => exact hother u _ rfl rfl
  | comment | label | emit | enterFunction | save | restore | fail => exact ha.elim

/-! ### Runs -/

/-- The lines of actions without a failure, and where they leave the machine. -/
lemma run_lines_append (as : List Action) {bs : List Action}
    (hs : (q.run c (as ++ bs)).failure = none) :
    (q.run c as).failure = none ∧ (q.run (q.nexts c as) bs).failure = none ∧
      m.run t (q.run c (as ++ bs)).lines =
        m.run (m.run t (q.run c as).lines) (q.run (q.nexts c as) bs).lines := by
  rw [run_append] at hs ⊢
  have h := Emission.failure_andThen.mp hs
  rw [Emission.lines_andThen h.1, m.run_append]
  exact ⟨h.1, h.2, rfl⟩

lemma PerBlock.content_run (hq : q.PerBlock k) (hc : q.Sound c) (hapart : c.Apart k)
    (has : ∀ a ∈ as, a.IsRequest) (hs : (q.run c as).failure = none) (hv : q.Addressable v)
    (hkeep : ∀ a ∈ as, a.isEntry = false ∧ a.written? ≠ some v) :
    (m.run t (q.run c as).lines).content (q.home (q.nexts c as) v) = t.content (q.home c v) := by
  induction as generalizing c t with
  | nil => rfl
  | cons a as ih =>
    obtain ⟨ha, hrest, hlines⟩ := run_lines_append [a] (m := m) (t := t) hs
    rw [run_singleton] at ha hlines
    have hstep := hq.content_step (m := m) (t := t) hc hapart (has a (by simp)) ha hv
      (hkeep a (by simp)).1 (hkeep a (by simp)).2
    refine (congrArg (fun t' => State.content t' _) hlines).trans (.trans ?_ hstep)
    exact ih (hc.next a) (hq.apart_next hapart a) (fun b hb => has b (by simp [hb])) hrest
      fun b hb => hkeep b (by simp [hb])

/-- After other requests, a variable still has the value that was written to it. -/
lemma PerBlock.content_of_write (hq : q.PerBlock k) (hc : q.Sound c) (hapart : c.Apart k)
    (has : ∀ b ∈ a :: as, b.IsRequest) (hs : (q.run c (a :: as)).failure = none)
    (hw : m.written? c t a = some (v, x))
    (hkeep : ∀ b ∈ as, b.isEntry = false ∧ b.written? ≠ some v) :
    (m.run t (q.run c (a :: as)).lines).content (q.home (q.nexts c (a :: as)) v) = x := by
  obtain ⟨ha, hrest, hlines⟩ := run_lines_append [a] (m := m) (t := t) hs
  rw [run_singleton] at ha hlines
  obtain ⟨hnext, hcontent⟩ := content_of_written? hc (has a (by simp)) ha hw
  have hv : q.Addressable v := by
    refine addressable_of_failure hc ha (Or.inr ?_)
    exact m.written?_eq hw
  have hrun := hq.content_run (m := m) (t := m.run t (q.emission c a).lines) (hc.next a)
    (hq.apart_next hapart a) (fun b hb => has b (by simp [hb])) hrest hv hkeep
  refine (congrArg (fun t' => State.content t' _) hlines).trans (hrun.trans ?_)
  rw [hnext, home_forget, if_pos rfl, hcontent, if_pos rfl]

/-- A read after that answers a register with the value. -/
lemma PerBlock.regs_answer (hq : q.PerBlock k) (hapart : c.Apart k) (hc : q.Sound c)
    {before between after : List Action} {w : Action}
    (has : ∀ a ∈ before ++ w :: between ++ .read v r :: after, a.IsRequest)
    (hs : (q.run c (before ++ w :: between ++ .read v r :: after)).failure = none)
    (hw : m.written? (q.nexts c before) (m.run t (q.run c before).lines) w = some (v, x))
    (hkeep : ∀ a ∈ between, a.isEntry = false ∧ a.written? ≠ some v) :
    (m.run t (q.run c (before ++ w :: between ++ [.read v r])).lines).regs
      (q.answer (q.nexts c (before ++ w :: between)) v r) = x := by
  have hsplit : before ++ w :: between ++ .read v r :: after =
      before ++ w :: between ++ [.read v r] ++ after := by simp
  rw [hsplit] at hs
  -- The run is cut behind the read, before it, and before the write.
  obtain ⟨hs, -, -⟩ := run_lines_append _ (m := m) (t := t) hs
  obtain ⟨hmid, hread, hlines⟩ := run_lines_append _ (m := m) (t := t) hs
  obtain ⟨-, hwrite, hlines'⟩ := run_lines_append _ (m := m) (t := t) hmid
  rw [run_singleton] at hread hlines
  rw [hlines, (read_spec (hc.nexts _) (has (.read v r) (by simp)) hread).1, hlines', nexts_append]
  have hrequests : ∀ a ∈ w :: between, a.IsRequest := fun a ha =>
    has a (List.mem_append_left _ (List.mem_append_right _ ha))
  exact hq.content_of_write (hc.nexts before) (hq.apart_nexts hapart before) hrequests hwrite hw
    hkeep

end Placement

/-- Whatever is asked for and in whatever order, the registers given out are different ones among
the first `k`. And a variable that is read has the value that was written to it last, as long as no
block has been entered since. -/
theorem perBlock_reads_last_write (p : Program) (f : Function) (k : Nat) (left : Cache)
    {V : Type} (m : Machine p V) (t : State V) (as : List Action) :
    let q := (Strategy.perBlock k).place ⟨p, f⟩
    let c := q.renew left
    (∀ a ∈ as, a.IsRequest) → (q.run c as).failure = none →
      (∀ before after, as = before ++ after → (q.nexts c before).Apart k) ∧
      ∀ before w between v r after x, as = before ++ w :: between ++ .read v r :: after →
        m.written? (q.nexts c before) (m.run t (q.run c before).lines) w = some (v, x) →
        (∀ a ∈ between, a.isEntry = false ∧ a.written? ≠ some v) →
        (m.run t (q.run c (before ++ w :: between ++ [.read v r])).lines).regs
          (q.answer (q.nexts c (before ++ w :: between)) v r) = x := by
  intro q c has hs
  have hq : q.PerBlock k := rfl
  refine ⟨fun before after _ => hq.apart_nexts (hq.apart_renew left) before, ?_⟩
  rintro before w between v r after x rfl hw hkeep
  exact hq.regs_answer (hq.apart_renew left) ((Strategy.perBlock k).sound_renew ⟨p, f⟩ left) has
    hs hw hkeep

/-- The block of the countdown that ends in its branch. -/
abbrev countdownTest : Block := countdownFunction.blocks.get ⟨1, by decide +kernel⟩

abbrev countdownPlacement : Placement := (Strategy.perBlock 2).place countdownScope

/-- Requests that find `n` in a register first, and in memory once the block has been left. -/
abbrev countdownRequests : List Action :=
  [.enterBlock countdownTest, .write (.text "7") "n", .exitBlock countdownTest,
    .write (.text "3") "n", .write (.text "5") "d", .read "n" "$t1"]

theorem perBlock_reads_last_write_countdown :
    (∀ a ∈ countdownRequests, a.IsRequest) ∧
      (countdownPlacement.run (countdownPlacement.renew {}) countdownRequests).failure = none ∧
      (countdownPlacement.nexts (countdownPlacement.renew {})
        (countdownRequests.take 3)).assigned.get? "n" = some 1 ∧
      ∀ (m : Machine countdownProgram Int) (t : State Int),
        (countdownPlacement.nexts (countdownPlacement.renew {}) countdownRequests).Apart 2 ∧
        (m.run t (countdownPlacement.run (countdownPlacement.renew {})
          countdownRequests).lines).regs "$t1" = m.literal "3" := by
  have hrequests : ∀ a ∈ countdownRequests, a.IsRequest := by
    simp [Action.IsRequest, show Scratch "$t1" from scratch_t1]
  have hs : (countdownPlacement.run (countdownPlacement.renew {}) countdownRequests).failure =
      none := by
    decide +kernel
  have hanswer : countdownPlacement.answer (countdownPlacement.nexts (countdownPlacement.renew {})
      (countdownRequests.take 5)) "n" "$t1" = "$t1" := by
    decide +kernel
  refine ⟨hrequests, hs, by decide +kernel, fun m t => ?_⟩
  have hmain := perBlock_reads_last_write countdownProgram countdownFunction 2 {} m t
    countdownRequests hrequests hs
  refine ⟨hmain.1 countdownRequests [] rfl, ?_⟩
  have hread := hmain.2 (countdownRequests.take 3) (.write (.text "3") "n")
    [.write (.text "5") "d"] "n" "$t1" [] (m.literal "3") rfl
    (congrArg (fun x => some ("n", x)) (if_neg (by decide)))
    (by simp [Action.isEntry, Action.written?])
  have hcut : countdownRequests.take 3 ++ .write (.text "3") "n" :: [.write (.text "5") "d"] =
    countdownRequests.take 5 := rfl
  have hall : countdownRequests.take 5 ++ [.read "n" "$t1"] = countdownRequests := rfl
  rw [hcut, hanswer, hall] at hread
  exact hread

end MipsBackend
