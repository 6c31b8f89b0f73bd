import MipsBackend.Proofs.Writing

/-! Reading undoes writing. A written function takes the reader from one state between functions to
another, line by line, and a written program is read by an induction over its functions. -/
namespace MipsBackend

namespace ReadState
variable {s t : ReadState} {f d : FunctionDef} {l : List Char} {ls : List (List Char)}

lemma steps_cons (h : s.step l = .ok t) : s.steps (l :: ls) = t.steps ls := by
  rw [steps, h]

lemma step_of_not_signature (h : ∀ name, s.phase ≠ .signature name) :
    s.step l = { s with line := s.line + 1 }.item (Item.ofLine l) := by
  rw [step]
  split
  · next name hname => exact absurd hname (h name)
  · rfl

/-- The state `n` lines later, in another phase and without a label that waits. -/
def later (s : ReadState) (n : Nat) (phase : Phase) : ReadState :=
  { s with line := s.line + n, phase := phase, label := none }

lemma step_declarations {type : VarType} {names : List String} {n : Nat} (hd : d.Writable)
    (hl : Item.ofLine l = .declarations type (d.declarations names).toList)
    (hnames : ∀ v ∈ names, v ∈ d.ints ++ d.floats) :
    (s.later n (.inside f)).step l = .ok (s.later (n + 1)
      (.inside (f.extend type names (FunctionDef.addSizes d.arrays f.arrays names)))) := by
  rw [step_of_not_signature (by simp [later]), hl, item]
  dsimp only [later]
  rw [hd.declareAll_pieces hnames]
  rfl

lemma steps_heading (hs : s.phase = .between) (hd : d.Writable) :
    s.steps (d.heading.map String.toList ++ ls) =
      (s.later 4 (.inside { d with code := [] })).steps ls := by
  have hstart : s.step ("#start_function " ++ d.name).toList =
      .ok { s with line := s.line + 1, phase := .signature d.name } := by
    have hne : d.name ≠ "" := fun he => Text.toList_ne_nil hd.name (he ▸ rfl)
    rw [step_of_not_signature (by simp [hs]), Item.ofLine_start hd.name, item]
    simp [hs, hne]
  have hsignature : step { s with line := s.line + 1, phase := .signature d.name }
      d.signature.toList = .ok (s.later 2 (.inside { name := d.name, params := d.params })) := by
    rw [step]
    dsimp only
    rw [hd.signatureParams?]
    rfl
  have hints : ∀ v ∈ d.ints, v ∈ d.ints ++ d.floats := fun v => List.mem_append_left _
  have hfloats : ∀ v ∈ d.floats, v ∈ d.ints ++ d.floats := fun v => List.mem_append_right _
  have hint : Item.ofLine ("int-list:" ++ d.declarations d.ints).toList =
      .declarations .int (d.declarations d.ints).toList := by
    rw [String.toList_append]
    exact Item.ofLine_int (hd.getLast?_declarations hints)
  have hfloat : Item.ofLine ("float-list:" ++ d.declarations d.floats).toList =
      .declarations .float (d.declarations d.floats).toList := by
    rw [String.toList_append]
    exact Item.ofLine_float (hd.getLast?_declarations hfloats)
  -- One line after another; the arrays are complete after the second list.
  rw [FunctionDef.heading, List.map_cons, List.map_cons, List.map_cons, List.map_cons, List.map_nil,
    List.cons_append, List.cons_append, List.cons_append, List.cons_append, List.nil_append,
    steps_cons hstart, steps_cons hsignature, steps_cons (step_declarations hd hint hints),
    steps_cons (step_declarations hd hfloat hfloats)]
  simp only [FunctionDef.extend, hd.addSizes_eq, List.nil_append]

lemma step_label {name : String} {n : Nat} (h : Text.isIdentifier name = true) :
    (s.later n (.inside f)).step (name ++ ":").toList =
      .ok { s.later (n + 1) (.inside f) with label := some name } := by
  have hne : name ≠ "" := fun he => Text.toList_ne_nil h (he ▸ rfl)
  rw [step_of_not_signature (by simp [later]), Item.ofLine_label h, item]
  simp [later, label?, hne, Nat.add_assoc]

lemma step_text {i : Instruction} {n : Nat} (h : i.Writable) :
    step { s.later n (.inside f) with label := i.label } i.text.toList =
      .ok (s.later (n + 1) (.inside { f with code := f.code ++ [i] })) := by
  rw [step_of_not_signature (by simp [later]), Item.ofLine_code h, item, h.ofChars_text]
  simp [later, Nat.add_assoc]

lemma steps_instruction {i : Instruction} (h : i.Writable) (n : Nat) :
    (s.later n (.inside f)).steps (i.lines.map String.toList ++ ls) =
      (s.later (n + i.lines.length) (.inside { f with code := f.code ++ [i] })).steps ls := by
  have htext := fun m => step_text (s := s) (f := f) (n := m) h
  cases hlabel : i.label with
  | none =>
    have hlines : i.lines = [i.text] := by simp [Instruction.lines, hlabel]
    have hfirst := htext n
    rw [hlabel] at hfirst
    rw [hlines]
    exact steps_cons hfirst
  | some name =>
    -- The label waits for the text, which comes next.
    have hlines : i.lines = [name ++ ":", i.text] := by simp [Instruction.lines, hlabel]
    have hsecond := htext (n + 1)
    rw [hlabel] at hsecond
    rw [hlines]
    exact (steps_cons (step_label (h.label name hlabel))).trans (steps_cons hsecond)

lemma steps_code {is : List Instruction} (h : ∀ i ∈ is, i.Writable) (n : Nat) :
    (s.later n (.inside f)).steps ((is.flatMap Instruction.lines).map String.toList ++ ls) =
      (s.later (n + (is.flatMap Instruction.lines).length)
        (.inside { f with code := f.code ++ is })).steps ls := by
  induction is generalizing n f with
  | nil => simp
  | cons i is ih =>
    rw [List.flatMap_cons, List.map_append, List.append_assoc, steps_instruction (h i (by simp)),
      ih fun j hj => h j (by simp [hj])]
    simp [Nat.add_assoc]

/-- A function is read up to its last line. -/
lemma steps_body (hs : s.phase = .between) (hd : d.Writable) :
    s.steps (d.body.map String.toList ++ ls) =
      (s.later d.body.length (.inside d)).steps ls := by
  rw [FunctionDef.body, List.map_append, List.append_assoc, steps_heading hs hd,
    steps_code hd.code, List.length_append]
  rfl

/-- Between two functions: `t` is `n` lines after `s`, and `gs` have been read since. -/
structure Advances (s t : ReadState) (n : Nat) (gs : List Function) : Prop where
  phase : t.phase = .between
  line : t.line = s.line + n
  functions : t.functions = s.functions ++ gs
  skipped : t.events.filterMap Reading.skippedLine = s.events.filterMap Reading.skippedLine

lemma Advances.trans {r : ReadState} {m n : Nat} {gs hs : List Function}
    (h : r.Advances s m gs) (h' : s.Advances t n hs) : r.Advances t (m + n) (gs ++ hs) where
  phase := h'.phase
  line := by rw [h'.line, h.line, Nat.add_assoc]
  functions := by rw [h'.functions, h.functions, List.append_assoc]
  skipped := h'.skipped.trans h.skipped

lemma steps_lines (hs : s.phase = .between) (hd : d.Writable) :
    s.steps (d.lines.map String.toList ++ ls) =
      (s.later d.body.length (.inside d)).steps ("#end_function".toList :: ls) := by
  rw [FunctionDef.lines, List.map_append, List.append_assoc, steps_body hs hd]
  rfl

lemma step_end {n : Nat} : (s.later n (.inside d)).step "#end_function".toList =
    (s.later (n + 1) (.inside d)).item .finish := by
  rw [step_of_not_signature (by simp [later]), Item.ofLine_end]
  rfl

/-- A function that can be built is read. -/
lemma steps_of_build_ok {g : Function} (hs : s.phase = .between) (hd : d.Writable)
    (hg : d.build = .ok g) : ∃ t, s.Advances t d.lines.length [g] ∧
      ∀ ls, s.steps (d.lines.map String.toList ++ ls) = t.steps ls := by
  have hend := step_end (s := s) (d := d) (n := d.body.length)
  simp only [item, later, hg] at hend
  refine ⟨_, ⟨rfl, ?_, rfl, ?_⟩, fun ls => (steps_lines hs hd).trans (steps_cons hend)⟩
  · rw [d.length_lines]
  · dsimp only
    rw [List.filterMap_append]
    split <;> simp [Reading.skippedLine]

/-- A function that cannot be built stops the reading at its last line. -/
lemma steps_of_build_error {u : UndefinedLabel} (hs : s.phase = .between) (hd : d.Writable)
    (hu : d.build = .error u) : ∃ t : ReadState, t.events = s.events ∧
      ∀ ls, s.steps (d.lines.map String.toList ++ ls) =
        (t, some (.undefinedLabel (s.line + d.lines.length) u)) := by
  have hend := step_end (s := s) (d := d) (n := d.body.length)
  simp only [item, later, hu] at hend
  refine ⟨s.later d.body.length (.inside d), rfl, fun ls => (steps_lines hs hd).trans ?_⟩
  rw [steps, later, hend, d.length_lines]

/-- Functions that can be built are read. -/
lemma steps_functions {ds : List FunctionDef} {gs : List Function} (hs : s.phase = .between)
    (hw : ∀ d ∈ ds, d.Writable) (hbuild : ds.map FunctionDef.build = gs.map .ok) :
    ∃ t, s.Advances t (ds.flatMap FunctionDef.lines).length gs ∧
      ∀ ls, s.steps ((ds.flatMap FunctionDef.lines).map String.toList ++ ls) = t.steps ls := by
  induction ds generalizing s gs with
  | nil =>
    obtain rfl : gs = [] := by simpa using hbuild
    exact ⟨s, ⟨hs, rfl, by simp, rfl⟩, fun ls => rfl⟩
  | cons d ds ih =>
    obtain ⟨g, gs, rfl, hg, hgs⟩ := List.map_eq_cons_iff.mp hbuild.symm
    obtain ⟨t, hadv, hsteps⟩ := steps_of_build_ok hs (hw d (by simp)) hg.symm
    obtain ⟨t', hadv', hsteps'⟩ := ih hadv.phase (fun e he => hw e (by simp [he])) hgs.symm
    refine ⟨t', ?_, fun ls => ?_⟩
    · rw [List.flatMap_cons, List.length_append]
      exact hadv.trans hadv'
    · rw [List.flatMap_cons, List.map_append, List.append_assoc, hsteps, hsteps']

end ReadState

/-- Either all functions can be built, or there is a first one that cannot. -/
lemma FunctionDef.build_all_or_first (ds : List FunctionDef) :
    (∃ gs : List Function, ds.map build = gs.map .ok) ∨
      ∃ (before : List FunctionDef) (gs : List Function) (d : FunctionDef)
        (after : List FunctionDef) (u : UndefinedLabel),
        ds = before ++ d :: after ∧ before.map build = gs.map .ok ∧ d.build = .error u := by
  induction ds with
  | nil => exact Or.inl ⟨[], rfl⟩
  | cons d ds ih =>
    cases hd : d.build with
    | error u => exact Or.inr ⟨[], [], d, ds, u, rfl, rfl, hd⟩
    | ok g =>
      rcases ih with ⟨gs, hgs⟩ | ⟨before, gs, e, after, u, rfl, hgs, hu⟩
      · exact Or.inl ⟨g :: gs, by rw [List.map_cons, List.map_cons, hd, hgs]⟩
      · exact Or.inr ⟨d :: before, g :: gs, e, after, u, rfl,
          by rw [List.map_cons, List.map_cons, hd, hgs], hu⟩

/-! ### Lines -/

/-- A text whose only blanks are spaces. -/
def IsLine (s : String) : Prop := ∀ c ∈ s.toList, Text.isBlank c = false ∨ c = ' '

namespace IsLine
variable {s t : String}

instance : Decidable (IsLine s) :=
  decidable_of_iff ((s.toList.all fun c => !Text.isBlank c || c == ' ') = true) (by simp [IsLine])

lemma append (hs : IsLine s) (ht : IsLine t) : IsLine (s ++ t) := by
  unfold IsLine
  rw [String.toList_append]
  exact List.forall_mem_append.mpr ⟨hs, ht⟩

lemma intercalate {ts : List String} (hs : IsLine s) (hts : ∀ t ∈ ts, IsLine t) :
    IsLine (s.intercalate ts) := by
  induction ts with
  | nil => simp [IsLine]
  | cons t ts ih =>
    have hrest := ih fun u hu => hts u (by simp [hu])
    cases ts with
    | nil => simpa using hts t (by simp)
    | cons u ts =>
      rw [String.intercalate_cons_cons]
      exact ((hts t (by simp)).append hs).append hrest

lemma of_isIdentifier (h : Text.isIdentifier s = true) : IsLine s :=
  fun _ hc => Or.inl (Text.isPlain_of_isIdentifier h hc).1

end IsLine

lemma Instruction.Writable.isLine {i : Instruction} (hi : i.Writable) {l : String}
    (hl : l ∈ i.lines) : IsLine l := by
  rcases List.mem_append.mp hl with hl | hl
  · obtain ⟨name, hname, rfl⟩ := Option.map_eq_some_iff.mp (Option.mem_toList.mp hl)
    exact (IsLine.of_isIdentifier (hi.label name hname)).append (by decide)
  · obtain rfl := List.mem_singleton.mp hl
    intro c hc
    rcases hi.mem_text hc with hplain | rfl | rfl
    · exact Or.inl hplain.1
    · decide
    · decide

lemma FunctionDef.Writable.isLine {d : FunctionDef} (hd : d.Writable) {l : String}
    (hl : l ∈ d.lines) : IsLine l := by
  have hname := IsLine.of_isIdentifier hd.name
  have hparams : IsLine (", ".intercalate (d.params.map ("int " ++ ·))) := by
    refine .intercalate (by decide) fun t ht => ?_
    obtain ⟨v, hv, rfl⟩ := List.mem_map.mp ht
    exact .append (by decide) (.of_isIdentifier (hd.params v hv))
  have hdeclarations : ∀ names : List String, (∀ v ∈ names, v ∈ d.ints ++ d.floats) →
      IsLine (d.declarations names) := by
    refine fun names hnames => .intercalate (by decide) fun t ht => ?_
    obtain ⟨v, hv, rfl⟩ := List.mem_map.mp ht
    exact .append (by decide) fun c hc => Or.inl (hd.mem_declaration (hnames v hv) hc).1
  simp only [lines, body, heading, List.mem_append, List.mem_cons, List.not_mem_nil,
    or_false] at hl
  rcases hl with ((rfl | rfl | rfl | rfl) | hl) | rfl
  · exact .append (by decide) hname
  · exact (((IsLine.append (by decide) hname).append (by decide)).append hparams).append (by decide)
  · exact .append (by decide) (hdeclarations _ fun v => List.mem_append_left _)
  · exact .append (by decide) (hdeclarations _ fun v => List.mem_append_right _)
  · obtain ⟨i, hi, hl⟩ := List.mem_flatMap.mp hl
    exact (hd.code i hi).isLine hl
  · decide

/-! ### Reading programs back -/

section
variable {fs : List FunctionDef} {gs : List Function}

lemma toList_writeProgram (fs : List FunctionDef) : (writeProgram fs).toList =
    ((fs.flatMap FunctionDef.lines).map String.toList).flatMap (· ++ ['\n']) := by
  rw [writeProgram, String.toList_join, List.flatMap_map, List.flatMap_map]
  exact List.flatMap_congr fun l _ => String.toList_append

section
variable (hw : ∀ f ∈ fs, f.Writable)
  (hfits : ∀ l ∈ fs.flatMap FunctionDef.lines, Text.bytes l.toList < Text.lineLimit)
include hw hfits

/-- The lines of a written program are read back. -/
lemma readLines_writeProgram : Text.readLines (writeProgram fs).toList =
    ⟨(fs.flatMap FunctionDef.lines).map String.toList, false⟩ := by
  rw [toList_writeProgram]
  refine Text.readLines_flatMap fun cs hcs => ?_
  obtain ⟨l, hl, rfl⟩ := List.mem_map.mp hcs
  obtain ⟨f, hf, hlf⟩ := List.mem_flatMap.mp hl
  have hline := (hw f hf).isLine hlf
  refine ⟨fun hc => ?_, fun hc => ?_, hfits l hl⟩
  · exact absurd (hline _ hc) (by decide)
  · exact absurd (hline _ hc) (by decide)

/-- What reading a written program comes to, from what becomes of its lines. -/
lemma readProgram_writeProgram {t : ReadState} {e : Option ReadError}
    (hsteps : ReadState.steps {} ((fs.flatMap FunctionDef.lines).map String.toList) = (t, e)) :
    readProgram (writeProgram fs) = ⟨(e.or (t.endError? false)).elim
      (.ok (Program.ofFunctions t.functions)) .error, t.events⟩ := by
  rw [readProgram, readLines_writeProgram hw hfits, hsteps]
  dsimp only
  cases e.or (t.endError? false) <;> rfl

lemma readProgram_of_build_ok (hbuild : fs.map FunctionDef.build = gs.map .ok) :
    (readProgram (writeProgram fs)).result = .ok (Program.ofFunctions gs) ∧
      (readProgram (writeProgram fs)).skipped = [] := by
  obtain ⟨t, hadv, hsteps⟩ := ReadState.steps_functions (s := {}) rfl hw hbuild
  have hall := hsteps []
  rw [List.append_nil, ReadState.steps] at hall
  have hend : t.endError? false = none := by
    rw [ReadState.endError?, hadv.phase]
    rfl
  rw [readProgram_writeProgram hw hfits hall, hend, hadv.functions]
  exact ⟨rfl, hadv.skipped⟩

lemma readProgram_of_build_error {before after : List FunctionDef} {f : FunctionDef}
    {u : UndefinedLabel} (hfs : fs = before ++ f :: after)
    (hbuild : before.map FunctionDef.build = gs.map .ok) (hu : f.build = .error u) :
    (readProgram (writeProgram fs)).result =
        .error (.undefinedLabel ((before ++ [f]).flatMap FunctionDef.lines).length u) ∧
      (readProgram (writeProgram fs)).skipped = [] := by
  subst hfs
  obtain ⟨t, hadv, hsteps⟩ := ReadState.steps_functions (s := {}) rfl
    (fun g hg => hw g (by simp [hg])) hbuild
  obtain ⟨t', hevents, hstop⟩ := ReadState.steps_of_build_error hadv.phase (hw f (by simp)) hu
  have hall : ReadState.steps {}
      (((before ++ f :: after).flatMap FunctionDef.lines).map String.toList) =
      (t', some (.undefinedLabel (t.line + f.lines.length) u)) := by
    rw [List.flatMap_append, List.flatMap_cons, List.map_append, List.map_append, hsteps, hstop]
  have hlength : t.line + f.lines.length =
      ((before ++ [f]).flatMap FunctionDef.lines).length := by
    rw [hadv.line, List.flatMap_append, List.length_append, List.flatMap_singleton]
    exact congrArg (· + f.lines.length) (Nat.zero_add _)
  rw [readProgram_writeProgram hw hfits hall, hlength]
  exact ⟨rfl, (congrArg (List.filterMap Reading.skippedLine) hevents).trans hadv.skipped⟩

lemma result_eq_ok_iff {p : Program} : (readProgram (writeProgram fs)).result = .ok p ↔
    ∃ gs : List Function, fs.map FunctionDef.build = gs.map .ok ∧ p = Program.ofFunctions gs := by
  constructor
  · intro hp
    rcases FunctionDef.build_all_or_first fs with ⟨gs, hgs⟩ | ⟨_, _, _, _, _, hfs, hgs, hu⟩
    · rw [(readProgram_of_build_ok hw hfits hgs).1] at hp
      cases hp
      exact ⟨gs, hgs, rfl⟩
    · rw [(readProgram_of_build_error hw hfits hfs hgs hu).1] at hp
      cases hp
  · rintro ⟨gs, hgs, rfl⟩
    exact (readProgram_of_build_ok hw hfits hgs).1

lemma result_eq_error_iff {e : ReadError} : (readProgram (writeProgram fs)).result = .error e ↔
    ∃ (before : List FunctionDef) (gs : List Function) (f : FunctionDef)
      (after : List FunctionDef) (u : UndefinedLabel), fs = before ++ f :: after ∧
      before.map FunctionDef.build = gs.map .ok ∧ f.build = .error u ∧
      e = .undefinedLabel ((before ++ [f]).flatMap FunctionDef.lines).length u := by
  constructor
  · intro he
    rcases FunctionDef.build_all_or_first fs with
      ⟨gs, hgs⟩ | ⟨before, gs, f, after, u, hfs, hgs, hu⟩
    · rw [(readProgram_of_build_ok hw hfits hgs).1] at he
      cases he
    · rw [(readProgram_of_build_error hw hfits hfs hgs hu).1] at he
      cases he
      exact ⟨before, gs, f, after, u, hfs, hgs, hu, rfl⟩
  · rintro ⟨before, gs, f, after, u, hfs, hgs, hu, rfl⟩
    exact (readProgram_of_build_error hw hfits hfs hgs hu).1

end

/-- Reading undoes writing. A written program is read as its functions, each as it is built, and no
line is skipped. Reading fails just if a function cannot be built, at the last line of the first
such function and with the error of building it. -/
theorem read_undoes_write (fs : List FunctionDef) (hw : ∀ f ∈ fs, f.Writable)
    (hfits : ∀ l ∈ fs.flatMap FunctionDef.lines, Text.bytes l.toList < Text.lineLimit) :
    (readProgram (writeProgram fs)).skipped = [] ∧
    (∀ p, (readProgram (writeProgram fs)).result = .ok p ↔ ∃ gs : List Function,
      fs.map FunctionDef.build = gs.map .ok ∧ p = Program.ofFunctions gs) ∧
    (∀ e, (readProgram (writeProgram fs)).result = .error e ↔
      ∃ (before : List FunctionDef) (gs : List Function) (f : FunctionDef)
        (after : List FunctionDef) (u : UndefinedLabel), fs = before ++ f :: after ∧
        before.map FunctionDef.build = gs.map .ok ∧ f.build = .error u ∧
        e = .undefinedLabel ((before ++ [f]).flatMap FunctionDef.lines).length u) ∧
    ((∃ e, (readProgram (writeProgram fs)).result = .error e) ↔
      ∃ f ∈ fs, ∃ u, f.build = .error u) := by
  refine ⟨?_, fun p => result_eq_ok_iff hw hfits, fun e => result_eq_error_iff hw hfits, ?_, ?_⟩
  · rcases FunctionDef.build_all_or_first fs with ⟨gs, hgs⟩ | ⟨_, _, _, _, _, hfs, hgs, hu⟩
    · exact (readProgram_of_build_ok hw hfits hgs).2
    · exact (readProgram_of_build_error hw hfits hfs hgs hu).2
  · rintro ⟨e, he⟩
    obtain ⟨before, gs, f, after, u, rfl, -, hu, -⟩ := (result_eq_error_iff hw hfits).mp he
    exact ⟨f, by simp, u, hu⟩
  · rintro ⟨f, hf, u, hu⟩
    rcases FunctionDef.build_all_or_first fs with ⟨gs, hgs⟩ | ⟨_, _, _, _, _, hfs, hgs, hu⟩
    · have hmem : f.build ∈ gs.map .ok := hgs ▸ List.mem_map_of_mem hf
      obtain ⟨g, -, hg⟩ := List.mem_map.mp hmem
      rw [hu] at hg
      cases hg
    · exact ⟨_, (readProgram_of_build_error hw hfits hfs hgs hu).1⟩

end

/-- A function with an array, a label, and a call without a first argument. -/
def survey : FunctionDef where
  name := "survey"
  params := ["n", "d"]
  ints := ["n", "d", "A"]
  floats := ["x"]
  arrays := OrdMap.ofList [("A", 10)]
  code := [
    { op := .assign, arg1 := "A", arg2 := "10", arg3 := "-1" },
    { op := .arrayLoad, arg1 := "d", arg2 := "A", arg3 := "n", label := some "loop" },
    { op := .call, arg1 := "printf", arg3 := "x" },
    { op := .branch .ne, arg1 := "n", arg2 := "d", arg3 := "loop" },
    { op := .ret }]

def surveyFunction : Function := survey.build.toOption.get (by decide +kernel)

/-- A function that jumps to a label of another. -/
def astray : FunctionDef where
  name := "astray"
  code := [{ op := .goto, arg1 := "loop" }]

/-- One function is read back; with the other behind it, reading fails at line 17. -/
theorem read_undoes_write_survey :
    (∀ f ∈ [survey, astray], f.Writable) ∧
    (∀ l ∈ [survey, astray].flatMap FunctionDef.lines, Text.bytes l.toList < Text.lineLimit) ∧
    (readProgram (writeProgram [survey])).result = .ok (.ofFunctions [surveyFunction]) ∧
    (readProgram (writeProgram [survey])).skipped = [] ∧
    (readProgram (writeProgram [survey, astray])).result =
      .error (.undefinedLabel 17 ⟨"astray", "loop"⟩) := by
  have hw : ∀ f ∈ [survey, astray], f.Writable := by decide +kernel
  have hfits : ∀ l ∈ [survey, astray].flatMap FunctionDef.lines,
      Text.bytes l.toList < Text.lineLimit := by
    decide +kernel
  have hsurvey := read_undoes_write [survey] (fun f hf => hw f (by simp_all))
    fun l hl => hfits l (by simp_all)
  refine ⟨hw, hfits, (hsurvey.2.1 _).mpr ⟨[surveyFunction], rfl, rfl⟩, hsurvey.1, ?_⟩
  refine ((read_undoes_write _ hw hfits).2.2.1 _).mpr
    ⟨[survey], [surveyFunction], astray, [], _, rfl, rfl, rfl, ?_⟩
  decide +kernel

end MipsBackend
