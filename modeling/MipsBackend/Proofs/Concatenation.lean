import MipsBackend.Proofs.Cutting
import MipsBackend.Reader

/-! Texts one after another. Between two functions the reader carries the number of the line and
perhaps a label that waits. The number only counts in what is reported of skipped lines, and the
label is dropped before the next function begins, so a program can be read in parts. -/
namespace MipsBackend

/-! ### Lines -/

namespace Text
variable {s u : List Char}

/-- The last line, if there is any, is ended by a line feed. -/
def EndsLine (s : List Char) : Prop := s = [] ∨ s.getLast? = some '\n'

instance : Decidable (EndsLine s) := inferInstanceAs (Decidable (_ ∨ _))

lemma rawLinesFrom_append_break (cur s u : List Char) :
    rawLinesFrom cur (s ++ '\n' :: u) = rawLinesFrom cur (s ++ ['\n']) ++ rawLines u := by
  induction s generalizing cur with
  | nil => rfl
  | cons c s ih =>
    rw [List.cons_append, List.cons_append, rawLinesFrom, rawLinesFrom]
    split
    · rw [ih, List.cons_append]
    · exact ih _

lemma EndsLine.rawLines_append (h : EndsLine s) (u : List Char) :
    rawLines (s ++ u) = rawLines s ++ rawLines u := by
  rcases h with rfl | h
  · rfl
  · obtain ⟨r, rfl⟩ := List.getLast?_eq_some_iff.mp h
    rw [List.append_assoc]
    exact rawLinesFrom_append_break [] r u

lemma length_rawLinesFrom (cur s : List Char) :
    (rawLinesFrom cur (s ++ ['\n'])).length = s.count '\n' + 1 := by
  induction s generalizing cur with
  | nil => rfl
  | cons c s ih =>
    rw [List.cons_append, rawLinesFrom, List.count_cons]
    split
    · next h => rw [List.length_cons, ih, if_pos (beq_iff_eq.mpr h)]
    · next h => rw [ih, if_neg (fun he => h (beq_iff_eq.mp he)), Nat.add_zero]

lemma EndsLine.length_rawLines (h : EndsLine s) : (rawLines s).length = s.count '\n' := by
  rcases h with rfl | h
  · rfl
  · obtain ⟨r, rfl⟩ := List.getLast?_eq_some_iff.mp h
    rw [rawLines, length_rawLinesFrom, List.count_append, List.count_singleton_self]

lemma forall_fits (h : (readLines s).cutShort = false) : ∀ raw ∈ rawLines s, fits raw = true := by
  simpa [readLines] using h

/-- Lines are read in parts if the first part ends with a line. -/
lemma EndsLine.readLines_append (h : EndsLine s) (hs : (readLines s).cutShort = false)
    (u : List Char) : readLines (s ++ u) =
      ⟨(readLines s).lines ++ (readLines u).lines, (readLines u).cutShort⟩ := by
  have hfits := forall_fits hs
  simp only [readLines, h.rawLines_append, List.all_append, List.all_eq_true.mpr hfits,
    Bool.true_and, List.takeWhile_append_of_pos hfits, List.takeWhile_eq_self_iff.mpr hfits,
    List.map_append]

lemma EndsLine.length_lines (h : EndsLine s) (hs : (readLines s).cutShort = false) :
    (readLines s).lines.length = s.count '\n' := by
  rw [← h.length_rawLines, readLines, List.length_map,
    List.takeWhile_eq_self_iff.mpr (forall_fits hs)]

end Text

/-! ### Reading on -/

/-- The event if it had happened `n` lines later. -/
def Event.later (n : Nat) : Event → Event
  | .labelReplaced line old => .labelReplaced (n + line) old
  | .lineSkipped line text cause => .lineSkipped (n + line) text cause
  | e => e

lemma Event.skippedLine_later {e : Event} {n : Nat} (h : Reading.skippedLine e = none) :
    Reading.skippedLine (e.later n) = none := by
  cases e with
  | lineSkipped => cases h
  | labelReplaced | graphBuilt | instructionsConverged | blocksConverged | interference
  | spillCandidate | colorAssigned | webSpilled | assemblyWritten => rfl

/-- The reading if the text had begun `n` lines later. -/
def Reading.later (n : Nat) (r : Reading) : Reading := { r with events := r.events.map (.later n) }

namespace ReadState
variable {r s t s' : ReadState} {ls ms : List (List Char)}

lemma steps_append (h : s.steps ls = (t, none)) : s.steps (ls ++ ms) = t.steps ms := by
  induction ls generalizing s with
  | nil =>
    cases h
    rfl
  | cons l ls ih =>
    rw [steps] at h
    rw [List.cons_append, steps]
    split at h
    · cases h
    · exact ih h

lemma line_item {x : Item} (h : s.item x = .ok t) : t.line = s.line := by
  unfold item at h
  split at h <;> repeat' split at h
  all_goals cases h <;> rfl

lemma line_step {l : List Char} (h : s.step l = .ok t) : t.line = s.line + 1 := by
  simp only [step] at h
  split at h
  · split at h <;> cases h
    rfl
  · exact line_item h

lemma line_steps (h : s.steps ls = (t, none)) : t.line = s.line + ls.length := by
  induction ls generalizing s with
  | nil =>
    cases h
    rfl
  | cons l ls ih =>
    rw [steps] at h
    split at h
    · cases h
    · next hl => rw [ih h, line_step hl, List.length_cons, Nat.add_assoc, Nat.add_comm 1]

/-- What `s`, read from the start of a text, has become in `t`, which comes after `r`. The label
that waits is the same only inside of a function. -/
structure Continues (r s t : ReadState) : Prop where
  line : t.line = r.line + s.line
  phase : t.phase = s.phase
  label : ∀ d, s.phase = .inside d → t.label = s.label
  functions : t.functions = r.functions ++ s.functions
  skipped : t.events.filterMap Reading.skippedLine =
    r.events.filterMap Reading.skippedLine ++
      (s.events.map (.later r.line)).filterMap Reading.skippedLine

namespace Continues

lemma start (hr : r.phase = .between) : Continues r {} r where
  line := rfl
  phase := hr
  label := by simp
  functions := (List.append_nil _).symm
  skipped := (List.append_nil _).symm

/-- Events that are not about skipped lines make no difference. -/
lemma skipped_append (h : Continues r s t) {es es' : List Event}
    (hes : ∀ e ∈ es, Reading.skippedLine e = none)
    (hes' : ∀ e ∈ es', Reading.skippedLine e = none) :
    (t.events ++ es').filterMap Reading.skippedLine =
      r.events.filterMap Reading.skippedLine ++
        ((s.events ++ es).map (.later r.line)).filterMap Reading.skippedLine := by
  have hlater : (es.map (.later r.line)).filterMap Reading.skippedLine = [] := by
    refine List.filterMap_eq_nil_iff.mpr fun e he => ?_
    obtain ⟨e', he', rfl⟩ := List.mem_map.mp he
    exact Event.skippedLine_later (hes e' he')
  rw [List.filterMap_append, h.skipped, List.filterMap_eq_nil_iff.mpr hes', List.map_append,
    List.filterMap_append, hlater, List.append_nil, List.append_nil]

/-- What is made of a line does not depend on what came before the text. -/
lemma item (h : Continues r s t) {x : Item} (hx : s.item x = .ok s') :
    ∃ t', t.item x = .ok t' ∧ Continues r s' t' := by
  cases x with
  | blank =>
    cases hx
    exact ⟨t, rfl, h⟩
  | start name =>
    simp only [ReadState.item, h.phase] at hx ⊢
    split at hx
    · cases hx
    · split at hx
      · cases hx
      · next hname =>
        cases hx
        exact ⟨_, if_neg hname, h.line, rfl, by simp, h.functions, h.skipped⟩
  | finish =>
    simp only [ReadState.item, h.phase] at hx ⊢
    split at hx
    · split at hx
      · cases hx
      · next g hg =>
        cases hx
        have hbuilt : ∀ e ∈ if g.code.isEmpty then []
            else [Event.graphBuilt g.name g.blocks.length g.code.length],
            Reading.skippedLine e = none := by
          split <;> simp [Reading.skippedLine]
        refine ⟨_, rfl, h.line, rfl, by simp, ?_, h.skipped_append hbuilt hbuilt⟩
        rw [h.functions, List.append_assoc]
    · cases hx
  | declarations type list =>
    simp only [ReadState.item, h.phase] at hx ⊢
    split at hx
    · next d hd =>
      split at hx
      · cases hx
      · cases hx
        exact ⟨_, rfl, h.line, rfl, fun _ _ => h.label d hd, h.functions, h.skipped⟩
    · cases hx
  | label name =>
    cases hx
    have hreplaced : ∀ (old : Option String) (n : Nat),
        ∀ e ∈ (old.map (Event.labelReplaced n)).toList, Reading.skippedLine e = none := by
      intro old n
      cases old <;> simp [Reading.skippedLine]
    exact ⟨_, rfl, h.line, h.phase, fun _ _ => rfl, h.functions,
      h.skipped_append (hreplaced _ _) (hreplaced _ _)⟩
  | code text =>
    simp only [ReadState.item, h.phase] at hx ⊢
    split at hx
    · cases hx
      refine ⟨_, rfl, h.line, rfl, h.label, h.functions, ?_⟩
      simp only [List.filterMap_append, List.map_append, h.skipped, h.line, List.append_assoc]
      rfl
    · split at hx
      · next d hd =>
        cases hx
        rw [h.label d hd]
        exact ⟨_, rfl, h.line, rfl, fun _ _ => rfl, h.functions, h.skipped⟩
      · cases hx

lemma step (h : Continues r s t) {l : List Char} (hl : s.step l = .ok s') :
    ∃ t', t.step l = .ok t' ∧ Continues r s' t' := by
  have hnext : Continues r { s with line := s.line + 1 } { t with line := t.line + 1 } :=
    ⟨by rw [h.line, Nat.add_assoc], h.phase, h.label, h.functions, h.skipped⟩
  simp only [ReadState.step] at hl ⊢
  rw [h.phase]
  split at hl
  · split at hl
    · cases hl
    · cases hl
      -- a label that waits is dropped here, on both sides
      exact ⟨_, rfl, hnext.line, rfl, fun _ _ => rfl, h.functions, h.skipped⟩
  · rw [← h.phase]
    exact hnext.item hl

/-- Lines that are read at the start of a text are read behind another one. -/
lemma steps (h : Continues r s t) (hs : s.steps ls = (s', none)) :
    ∃ t', t.steps ls = (t', none) ∧ Continues r s' t' := by
  induction ls generalizing s t with
  | nil =>
    cases hs
    exact ⟨t, rfl, h⟩
  | cons l ls ih =>
    rw [ReadState.steps] at hs
    split at hs
    · cases hs
    · next hl =>
      obtain ⟨t', ht, h'⟩ := h.step hl
      rw [ReadState.steps, ht]
      exact ih h' hs

end Continues
end ReadState

section
variable {t u : String} {p q : Program}

lemma readProgram_eq_ok_iff : (readProgram t).result = .ok p ↔
    ∃ s, ReadState.steps {} (Text.readLines t.toList).lines = (s, none) ∧ s.phase = .between ∧
      (Text.readLines t.toList).cutShort = false ∧ p = .ofFunctions s.functions := by
  unfold readProgram
  dsimp only
  generalize ReadState.steps {} (Text.readLines t.toList).lines = x
  obtain ⟨s, e⟩ := x
  cases e with
  | some e => simp
  | none =>
    cases hphase : s.phase <;> cases hcut : (Text.readLines t.toList).cutShort <;>
      simp [ReadState.endError?, hphase, eq_comm]

lemma events_readProgram (t : String) : (readProgram t).events =
    (ReadState.steps {} (Text.readLines t.toList).lines).1.events := by
  unfold readProgram
  dsimp only
  split <;> rfl

/-- Texts that can be read one by one can be read together, if a line ends where they meet. The
functions of the second follow those of the first as they are, and what is skipped in it is
reported with its later lines. -/
theorem readProgram_append (ht : (readProgram t).result = .ok p)
    (hu : (readProgram u).result = .ok q) (hend : Text.EndsLine t.toList) :
    (readProgram (t ++ u)).result = .ok (.ofFunctions (p.functions ++ q.functions)) ∧
    (readProgram (t ++ u)).skipped = (readProgram t).skipped ++
      ((readProgram u).later (t.toList.count '\n')).skipped := by
  obtain ⟨r, hr, hbetween, hcut, rfl⟩ := readProgram_eq_ok_iff.mp ht
  obtain ⟨s, hs, hphase, hcut', rfl⟩ := readProgram_eq_ok_iff.mp hu
  obtain ⟨s', hs', hcont⟩ := (ReadState.Continues.start hbetween).steps hs
  have hlines : Text.readLines (t ++ u).toList = ⟨(Text.readLines t.toList).lines ++
      (Text.readLines u.toList).lines, false⟩ := by
    rw [String.toList_append, hend.readLines_append hcut, hcut']
  have hall : ReadState.steps {} (Text.readLines (t ++ u).toList).lines = (s', none) := by
    rw [hlines, ReadState.steps_append hr, hs']
  have hline : r.line = t.toList.count '\n' := by
    rw [ReadState.line_steps hr, hend.length_lines hcut, Nat.zero_add]
  constructor
  · refine readProgram_eq_ok_iff.mpr ⟨s', hall, hcont.phase.trans hphase, by rw [hlines], ?_⟩
    rw [hcont.functions]
    rfl
  · simp only [Reading.skipped, Reading.later, events_readProgram, hall, hr, hs, hcont.skipped,
      hline]

end

/-- A function that returns at once. -/
def stub (name : String) : FunctionDef where
  name := name
  code := [{ op := .ret }]

def stubs (names : List String) : Program :=
  .ofFunctions (names.filterMap fun name => (stub name).build.toOption)

/-- A function with lines around it. -/
def stubLines (before name after : String) : List String :=
  [before, "#start_function ", name, "\nint ", name, "()\nreturn\n#end_function\n", after]

def stubText (before name after : String) : String :=
  String.ofList ((stubLines before name after).flatMap String.toList)

lemma toList_stubText (before name after : String) : (stubText before name after).toList =
    (stubLines before name after).flatMap String.toList := String.toList_ofList

/-- The first text ends in a label that waits and a skipped line, and the second starts with
one. -/
theorem readProgram_append_stubs :
    (readProgram (stubText "" "f" "x:\nnop\n")).result = .ok (stubs ["f"]) ∧
    (readProgram (stubText "nop\n" "g" "")).result = .ok (stubs ["g"]) ∧
    Text.EndsLine (stubText "" "f" "x:\nnop\n").toList ∧
    (readProgram (stubText "" "f" "x:\nnop\n" ++ stubText "nop\n" "g" "")).result =
      .ok (stubs ["f", "g"]) ∧
    (readProgram (stubText "" "f" "x:\nnop\n" ++ stubText "nop\n" "g" "")).skipped =
      ["line 6: nop", "line 7: nop"] := by
  have hfirst : (readProgram (stubText "" "f" "x:\nnop\n")).result = .ok (stubs ["f"]) ∧
      (readProgram (stubText "" "f" "x:\nnop\n")).skipped = ["line 6: nop"] := by
    rw [readProgram, toList_stubText]
    decide +kernel
  have hsecond : (readProgram (stubText "nop\n" "g" "")).result = .ok (stubs ["g"]) ∧
      ((readProgram (stubText "nop\n" "g" "")).later 6).skipped = ["line 7: nop"] := by
    rw [readProgram, toList_stubText]
    decide +kernel
  have hend : Text.EndsLine (stubText "" "f" "x:\nnop\n").toList ∧
      (stubText "" "f" "x:\nnop\n").toList.count '\n' = 6 := by
    rw [toList_stubText]
    decide +kernel
  obtain ⟨hresult, hskipped⟩ := readProgram_append hfirst.1 hsecond.1 hend.1
  refine ⟨hfirst.1, hsecond.1, hend.1, hresult, ?_⟩
  rw [hskipped, hfirst.2, hend.2, hsecond.2]
  rfl

end MipsBackend
