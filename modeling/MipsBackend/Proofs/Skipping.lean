import Mathlib.Data.Finset.Basic
import Mathlib.Data.Nat.Count
import MipsBackend.Proofs.Concatenation

/-! Skipped lines have no influence. All that such a line changes is the number of the next line
and what is reported. So a text is read in the same way without some of its skipped lines, and the
others are reported with their new numbers. -/
namespace MipsBackend

/-! ### Texts without some of their lines -/

namespace Text
variable {S : Finset Nat} {n : Nat} {s l : List Char} {ls : List (List Char)}

/-- A text without the lines whose numbers are in `S`, its first line having number `n`. A line
goes together with the line feed that ends it. -/
def eraseLinesFrom (S : Finset Nat) (n : Nat) : List Char → List Char
  | [] => []
  | c :: cs =>
    let rest := eraseLinesFrom S (if c = '\n' then n + 1 else n) cs
    if n ∈ S then rest else c :: rest

/-- A text without the lines whose numbers are in `S`. -/
def eraseLines (S : Finset Nat) (s : List Char) : List Char := eraseLinesFrom S 1 s

/-- The lines whose numbers are not in `S`, the first having number `n`. -/
def keepLinesFrom (S : Finset Nat) (n : Nat) : List (List Char) → List (List Char)
  | [] => []
  | l :: ls => if n ∈ S then keepLinesFrom S (n + 1) ls else l :: keepLinesFrom S (n + 1) ls

lemma mem_of_mem_keepLinesFrom (h : l ∈ keepLinesFrom S n ls) : l ∈ ls := by
  induction ls generalizing n with
  | nil => exact h
  | cons k ls ih =>
    rw [keepLinesFrom] at h
    split at h
    · exact List.mem_cons_of_mem k (ih h)
    · rcases List.mem_cons.mp h with rfl | h
      · exact List.mem_cons_self
      · exact List.mem_cons_of_mem k (ih h)

lemma keepLinesFrom_map (f : List Char → List Char) :
    keepLinesFrom S n (ls.map f) = (keepLinesFrom S n ls).map f := by
  induction ls generalizing n with
  | nil => rfl
  | cons k ls ih =>
    rw [List.map_cons, keepLinesFrom, keepLinesFrom]
    split
    · exact ih
    · rw [ih, List.map_cons]

/-- Nothing of the line that is being read has been kept if it is to be erased. -/
lemma rawLinesFrom_eraseLinesFrom (cur s : List Char) :
    rawLinesFrom (if n ∈ S then [] else cur) (eraseLinesFrom S n s) =
      keepLinesFrom S n (rawLinesFrom cur s) := by
  induction s generalizing n cur with
  | nil =>
    rw [eraseLinesFrom, rawLinesFrom, rawLinesFrom]
    by_cases hn : n ∈ S <;> cases cur <;> simp [keepLinesFrom, hn]
  | cons c cs ih =>
    rw [eraseLinesFrom, rawLinesFrom]
    by_cases hc : c = '\n'
    · have hrest := ih (n := n + 1) []
      rw [ite_self] at hrest
      by_cases hn : n ∈ S
      · simp only [if_pos hc, if_pos hn, keepLinesFrom, hrest]
      · simp only [if_pos hc, if_neg hn, keepLinesFrom, rawLinesFrom, hrest]
    · have hrest := ih (n := n) (c :: cur)
      by_cases hn : n ∈ S
      · simp only [if_neg hc, if_pos hn] at hrest ⊢
        exact hrest
      · simp only [if_neg hc, if_neg hn, rawLinesFrom] at hrest ⊢
        exact hrest

lemma readLines_eraseLines (h : (readLines s).cutShort = false) :
    readLines (eraseLines S s) = ⟨keepLinesFrom S 1 (readLines s).lines, false⟩ := by
  have hraw : rawLines (eraseLines S s) = keepLinesFrom S 1 (rawLines s) := by
    have hall := rawLinesFrom_eraseLinesFrom (S := S) (n := 1) [] s
    rwa [ite_self] at hall
  have hfits := forall_fits h
  have hkept : ∀ l ∈ keepLinesFrom S 1 (rawLines s), fits l = true :=
    fun l hl => hfits l (mem_of_mem_keepLinesFrom hl)
  rw [readLines, readLines, hraw, List.takeWhile_eq_self_iff.mpr hfits,
    List.takeWhile_eq_self_iff.mpr hkept, keepLinesFrom_map, List.all_eq_true.mpr hkept,
    Bool.not_true]

end Text

example : Text.eraseLines {2, 3} "a\nb\nc\nd".toList = "a\nd".toList := by decide

/-! ### What is reported of skipped lines -/

/-- The number of a skipped line and what it says. -/
def Event.skipped? : Event → Option (Nat × String)
  | .lineSkipped n text _ => some (n, text)
  | _ => none

/-- A line with the number that it has when the lines in `S` are gone. -/
def renumber (S : Finset Nat) (line : Nat × String) : Nat × String :=
  (line.1 - Nat.count (· ∈ S) line.1, line.2)

/-- The text that reports a skipped line. -/
def skipNote (line : Nat × String) : String := "line " ++ toString line.1 ++ ": " ++ line.2

/-- The lines that were skipped, with their numbers. -/
def Reading.skippedLines (r : Reading) : List (Nat × String) := r.events.filterMap Event.skipped?

lemma Reading.skipped_eq_map (r : Reading) : r.skipped = r.skippedLines.map skipNote := by
  rw [skipped, skippedLines, List.map_filterMap]
  congr 1
  funext e
  cases e <;> rfl

/-- What is reported of an item on line `n`. -/
def Item.skipped (n : Nat) : Item → List (Nat × String)
  | .code text => (Instruction.ofChars text).toOption.elim [(n, String.ofList text)] fun _ => []
  | _ => []

lemma Item.map_renumber_skipped (S : Finset Nat) (x : Item) (n : Nat) :
    (x.skipped n).map (renumber S) = x.skipped (n - Nat.count (· ∈ S) n) := by
  cases x with
  | code text =>
    rw [skipped, skipped]
    cases Instruction.ofChars text <;> rfl
  | blank | start | finish | declarations | label => rfl

lemma Item.fst_of_mem_skipped {x : Item} {n : Nat} {e : Nat × String} (h : e ∈ x.skipped n) :
    e.1 = n := by
  cases x with
  | code text =>
    rw [skipped] at h
    cases hi : Instruction.ofChars text with
    | error c =>
      rw [hi] at h
      rw [List.mem_singleton.mp h]
    | ok i => simp [hi, Except.toOption] at h
  | blank | start | finish | declarations | label => cases h

namespace ReadState
variable {s t s' : ReadState} {S : Finset Nat} {l : List Char} {ls : List (List Char)} {x : Item}

def skippedLines (s : ReadState) : List (Nat × String) := s.events.filterMap Event.skipped?

/-- What is reported of the next line. A signature is never skipped. -/
def skips (s : ReadState) (l : List Char) : List (Nat × String) :=
  match s.phase with
  | .signature _ => []
  | _ => (Item.ofLine l).skipped (s.line + 1)

lemma step_of_phase (h : ∀ name, s.phase ≠ .signature name) :
    s.step l = item { s with line := s.line + 1 } (Item.ofLine l) := by
  cases hphase : s.phase with
  | signature name => exact absurd hphase (h name)
  | between | inside => simp only [step, hphase]

lemma skips_of_phase (h : ∀ name, s.phase ≠ .signature name) :
    s.skips l = (Item.ofLine l).skipped (s.line + 1) := by
  cases hphase : s.phase with
  | signature name => exact absurd hphase (h name)
  | between | inside => simp only [skips, hphase]

lemma fst_of_mem_skips {e : Nat × String} (h : e ∈ s.skips l) : e.1 = s.line + 1 := by
  rw [skips] at h
  split at h
  · cases h
  · exact Item.fst_of_mem_skipped h

lemma skippedLines_item (h : s.item x = .ok t) :
    t.skippedLines = s.skippedLines ++ x.skipped s.line := by
  have hnone : ∀ es : List Event, (∀ e ∈ es, e.skipped? = none) →
      (s.events ++ es).filterMap Event.skipped? = s.skippedLines ++ [] := by
    intro es hes
    rw [List.filterMap_append, List.filterMap_eq_nil_iff.mpr hes]
    rfl
  cases x with
  | blank =>
    cases h
    exact (List.append_nil _).symm
  | start name =>
    simp only [item] at h
    split at h
    · cases h
    · split at h <;> cases h
      exact (List.append_nil _).symm
  | finish =>
    simp only [item] at h
    split at h
    · split at h
      · cases h
      · cases h
        refine hnone _ ?_
        split <;> simp [Event.skipped?]
    · cases h
  | declarations type list =>
    simp only [item] at h
    split at h
    · split at h <;> cases h
      exact (List.append_nil _).symm
    · cases h
  | label name =>
    cases h
    refine hnone _ ?_
    cases s.label <;> simp [Event.skipped?]
  | code text =>
    simp only [item] at h
    cases hi : Instruction.ofChars text with
    | error c =>
      rw [hi] at h
      cases h
      rw [skippedLines, List.filterMap_append, Item.skipped, hi]
      rfl
    | ok i =>
      rw [hi] at h
      dsimp only at h
      split at h <;> cases h
      rw [Item.skipped, hi]
      exact (List.append_nil _).symm

lemma skippedLines_step (h : s.step l = .ok t) :
    t.skippedLines = s.skippedLines ++ s.skips l := by
  by_cases hphase : ∀ name, s.phase ≠ .signature name
  · rw [step_of_phase hphase] at h
    rw [skips_of_phase hphase]
    exact skippedLines_item h
  · obtain ⟨name, hname⟩ := not_forall_not.mp hphase
    simp only [step, hname] at h
    split at h <;> cases h
    simp only [skips, hname]
    exact (List.append_nil _).symm

/-- Lines that are skipped later have higher numbers. -/
lemma exists_skippedLines_steps (h : s.steps ls = (t, none)) :
    ∃ es, t.skippedLines = s.skippedLines ++ es ∧ ∀ e ∈ es, s.line < e.1 := by
  induction ls generalizing s with
  | nil =>
    cases h
    exact ⟨[], (List.append_nil _).symm, by simp⟩
  | cons l ls ih =>
    rw [steps] at h
    split at h
    · cases h
    · next u hu =>
      obtain ⟨es, hes, hlater⟩ := ih h
      refine ⟨s.skips l ++ es, by rw [hes, skippedLines_step hu, List.append_assoc], ?_⟩
      intro e he
      rcases List.mem_append.mp he with he | he
      · have := fst_of_mem_skips he
        omega
      · have := hlater e he
        have := line_step hu
        omega

/-! ### Two runs -/

/-- States that differ at most in the number of the line and in what has happened. -/
structure Matches (s t : ReadState) : Prop where
  phase : t.phase = s.phase
  label : t.label = s.label
  functions : t.functions = s.functions

lemma Matches.item (h : Matches s t) (hx : s.item x = .ok s') :
    ∃ t', t.item x = .ok t' ∧ Matches s' t' := by
  cases x with
  | blank =>
    cases hx
    exact ⟨t, rfl, h⟩
  | start name =>
    simp only [ReadState.item, h.phase] at hx ⊢
    split at hx
    · cases hx
    · split at hx
      · cases hx
      · next hname =>
        cases hx
        exact ⟨_, if_neg hname, rfl, h.label, h.functions⟩
  | finish =>
    simp only [ReadState.item, h.phase] at hx ⊢
    split at hx
    · split at hx
      · cases hx
      · cases hx
        exact ⟨_, rfl, rfl, rfl, by rw [h.functions]⟩
    · cases hx
  | declarations type list =>
    simp only [ReadState.item, h.phase] at hx ⊢
    split at hx
    · split at hx
      · cases hx
      · cases hx
        exact ⟨_, rfl, rfl, h.label, h.functions⟩
    · cases hx
  | label name =>
    cases hx
    exact ⟨_, rfl, h.phase, rfl, h.functions⟩
  | code text =>
    simp only [ReadState.item, h.phase, h.label] at hx ⊢
    split at hx
    · cases hx
      exact ⟨_, rfl, rfl, rfl, h.functions⟩
    · split at hx
      · cases hx
        exact ⟨_, rfl, rfl, rfl, h.functions⟩
      · cases hx

lemma Matches.step (h : Matches s t) (hl : s.step l = .ok s') :
    ∃ t', t.step l = .ok t' ∧ Matches s' t' := by
  have hnext : Matches { s with line := s.line + 1 } { t with line := t.line + 1 } :=
    ⟨h.phase, h.label, h.functions⟩
  simp only [ReadState.step] at hl ⊢
  rw [h.phase]
  split at hl
  · split at hl
    · cases hl
    · cases hl
      exact ⟨_, rfl, rfl, rfl, h.functions⟩
  · rw [← h.phase]
    exact hnext.item hl

/-- A line that is skipped changes nothing else. -/
lemma matches_of_skips (hl : s.step l = .ok s') (hskip : s.skips l ≠ []) : Matches s' s := by
  have hphase : ∀ name, s.phase ≠ .signature name := by
    intro name hname
    simp [skips, hname] at hskip
  rw [step_of_phase hphase] at hl
  rw [skips_of_phase hphase] at hskip
  cases hx : Item.ofLine l with
  | code text =>
    rw [hx] at hl hskip
    cases hi : Instruction.ofChars text with
    | error c =>
      simp only [item, hi] at hl
      cases hl
      exact ⟨rfl, rfl, rfl⟩
    | ok i => simp [Item.skipped, hi, Except.toOption] at hskip
  | blank | start | finish | declarations | label =>
    rw [hx] at hskip
    exact absurd rfl hskip

/-- The lines in `S` have been read in `s` only, where they were skipped. -/
structure Thins (S : Finset Nat) (s t : ReadState) : Prop extends Matches s t where
  line : s.line = t.line + Nat.count (· ∈ S) (s.line + 1)
  skipped : t.skippedLines = (s.skippedLines.filter fun e => e.1 ∉ S).map (renumber S)

namespace Thins

lemma start (h : 0 ∉ S) : Thins S {} {} where
  phase := rfl
  label := rfl
  functions := rfl
  line := by simp [Nat.count_succ, h]
  skipped := rfl

/-- A skipped line is left out. -/
lemma erase (h : Thins S s t) (hl : s.step l = .ok s') (hn : s.line + 1 ∈ S)
    (hskip : s.skips l ≠ []) : Thins S s' t where
  phase := h.phase.trans (matches_of_skips hl hskip).phase
  label := h.label.trans (matches_of_skips hl hskip).label
  functions := h.functions.trans (matches_of_skips hl hskip).functions
  line := by
    have := h.line
    rw [line_step hl, Nat.count_succ, if_pos hn]
    omega
  skipped := by
    have hgone : (s.skips l).filter (fun e => e.1 ∉ S) = [] := by
      refine List.filter_eq_nil_iff.mpr fun e he => ?_
      simpa [fst_of_mem_skips he] using hn
    rw [skippedLines_step hl, List.filter_append, hgone, List.append_nil, h.skipped]

/-- Any other line is read by both. -/
lemma keep (h : Thins S s t) (hl : s.step l = .ok s') (hn : s.line + 1 ∉ S) :
    ∃ t', t.step l = .ok t' ∧ Thins S s' t' := by
  obtain ⟨t', ht, hmatch⟩ := h.toMatches.step hl
  have hline := h.line
  refine ⟨t', ht, hmatch, ?_, ?_⟩
  · rw [line_step hl, line_step ht, Nat.count_succ, if_neg hn]
    omega
  · have hskips : t.skips l = ((s.skips l).filter fun e => e.1 ∉ S).map (renumber S) := by
      have hkept : (s.skips l).filter (fun e => e.1 ∉ S) = s.skips l :=
        List.filter_eq_self.mpr fun e he => by simpa [fst_of_mem_skips he] using hn
      rw [hkept]
      by_cases hphase : ∀ name, s.phase ≠ .signature name
      · rw [skips_of_phase hphase, skips_of_phase (h.phase ▸ hphase), Item.map_renumber_skipped]
        congr 1
        omega
      · obtain ⟨name, hname⟩ := not_forall_not.mp hphase
        simp only [skips, h.phase, hname, List.map_nil]
    rw [skippedLines_step ht, skippedLines_step hl, List.filter_append, List.map_append, h.skipped,
      hskips]

/-- If the lines of `S` that are still to come are all skipped, the text can be read without
them. -/
lemma steps (h : Thins S s t) (hs : s.steps ls = (s', none)) {es : List (Nat × String)}
    (hes : s'.skippedLines = s.skippedLines ++ es)
    (hS : ∀ n ∈ S, s.line < n → ∃ e ∈ es, e.1 = n) :
    ∃ t', t.steps (Text.keepLinesFrom S (s.line + 1) ls) = (t', none) ∧ Thins S s' t' := by
  induction ls generalizing s t es with
  | nil =>
    cases hs
    exact ⟨t, rfl, h⟩
  | cons l ls ih =>
    rw [ReadState.steps] at hs
    split at hs
    · cases hs
    · next u hu =>
      obtain ⟨es', hes', hlater⟩ := exists_skippedLines_steps hs
      obtain rfl : es = s.skips l ++ es' := by
        rw [hes', skippedLines_step hu, List.append_assoc] at hes
        exact (List.append_cancel_left hes).symm
      have hline := line_step hu
      have hS' : ∀ n ∈ S, u.line < n → ∃ e ∈ es', e.1 = n := by
        intro n hn hlt
        obtain ⟨e, he, rfl⟩ := hS n hn (by omega)
        rcases List.mem_append.mp he with he | he
        · have := fst_of_mem_skips he
          omega
        · exact ⟨e, he, rfl⟩
      rw [Text.keepLinesFrom, ← hline]
      by_cases hn : u.line ∈ S
      · rw [if_pos hn]
        -- The lines skipped after this one have higher numbers.
        have hskip : s.skips l ≠ [] := by
          obtain ⟨e, he, heq⟩ := hS u.line hn (by omega)
          rcases List.mem_append.mp he with he | he
          · exact List.ne_nil_of_mem he
          · exact absurd (hlater e he) (by omega)
        exact ih (h.erase hu (hline ▸ hn) hskip) hs hes' hS'
      · rw [if_neg hn]
        obtain ⟨t', ht, h'⟩ := h.keep hu (hline ▸ hn)
        rw [ReadState.steps, ht]
        exact ih h' hs hes' hS'

end Thins
end ReadState

section
variable {t : String} {p : Program} {S : Finset Nat}

lemma skippedLines_readProgram (t : String) : (readProgram t).skippedLines =
    (ReadState.steps {} (Text.readLines t.toList).lines).1.skippedLines := by
  rw [Reading.skippedLines, events_readProgram]
  rfl

/-- A program that can be read can be read without some of the lines that are skipped in it. It has
exactly the same functions then. What is reported are the other skipped lines, with the same texts
in the same order and with the numbers that they have now. -/
theorem readProgram_eraseLines (h : (readProgram t).result = .ok p)
    (hS : ∀ n ∈ S, ∃ line ∈ (readProgram t).skippedLines, line.1 = n) :
    let u := String.ofList (Text.eraseLines S t.toList)
    let others := (readProgram t).skippedLines.filter fun line => line.1 ∉ S
    (readProgram u).result = .ok p ∧
    (readProgram u).skippedLines.map Prod.snd = others.map Prod.snd ∧
    (readProgram u).skipped = others.map fun line => skipNote (renumber S line) := by
  intro u others
  obtain ⟨s, hs, hphase, hcut, rfl⟩ := readProgram_eq_ok_iff.mp h
  have hskipped : (readProgram t).skippedLines = s.skippedLines := by
    rw [skippedLines_readProgram, hs]
  obtain ⟨es, hes, hpos⟩ := ReadState.exists_skippedLines_steps hs
  have hes' : s.skippedLines = es := hes
  rw [hskipped, hes'] at hS
  have hzero : 0 ∉ S := by
    intro h0
    obtain ⟨e, he, heq⟩ := hS 0 h0
    exact absurd (hpos e he) (by rw [heq]; exact Nat.lt_irrefl 0)
  obtain ⟨s', hs', hthin⟩ :=
    (ReadState.Thins.start hzero).steps hs hes fun n hn _ => hS n hn
  have hlines : Text.readLines u.toList =
      ⟨Text.keepLinesFrom S 1 (Text.readLines t.toList).lines, false⟩ := by
    rw [String.toList_ofList, Text.readLines_eraseLines hcut]
  have hrun : ReadState.steps {} (Text.readLines u.toList).lines = (s', none) := by
    rw [hlines]
    exact hs'
  have hothers : (readProgram u).skippedLines = others.map (renumber S) := by
    rw [skippedLines_readProgram, hrun, hthin.skipped, ← hskipped]
  refine ⟨readProgram_eq_ok_iff.mpr ⟨s', hrun, ?_, by rw [hlines], ?_⟩, ?_, ?_⟩
  · exact hthin.phase.trans hphase
  · rw [hthin.functions]
  · rw [hothers, List.map_map]
    rfl
  · rw [Reading.skipped_eq_map, hothers, List.map_map]
    rfl

end

/-- A function with skipped lines around its only instruction, the first behind the label. -/
def pausingLines : List String :=
  ["#start_function f\n", "int f()\n", "x:\n", "nop\n", "return\n", "halt\n", "#end_function\n"]

def pausingText : String := String.ofList (pausingLines.flatMap String.toList)

def pausingProgram : Program :=
  .ofFunctions ([{ stub "f" with code := [{ op := .ret, label := some "x" }] }].filterMap
    fun d : FunctionDef => d.build.toOption)

theorem readProgram_eraseLines_pausing :
    (readProgram pausingText).result = .ok pausingProgram ∧
    (readProgram pausingText).skipped = ["line 4: nop", "line 6: halt"] ∧
    let u := String.ofList (Text.eraseLines {4} pausingText.toList)
    (readProgram u).result = .ok pausingProgram ∧ (readProgram u).skipped = ["line 5: halt"] := by
  have hread : (readProgram pausingText).result = .ok pausingProgram ∧
      (readProgram pausingText).skippedLines = [(4, "nop"), (6, "halt")] := by
    have h : pausingText.toList = pausingLines.flatMap String.toList := String.toList_ofList
    rw [readProgram, h]
    decide +kernel
  have hS : ∀ n ∈ ({4} : Finset Nat),
      ∃ line ∈ (readProgram pausingText).skippedLines, line.1 = n := by
    rw [hread.2]
    decide
  obtain ⟨hresult, -, hskipped⟩ := readProgram_eraseLines hread.1 hS
  refine ⟨hread.1, ?_, hresult, ?_⟩
  · rw [Reading.skipped_eq_map, hread.2]
    rfl
  · rw [hskipped, hread.2]
    rfl

end MipsBackend
