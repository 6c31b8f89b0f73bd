import MipsBackend.Proofs.CommandLine
import MipsBackend.Proofs.Delivery

/-! Where each setting has its value from: the command line, else the environment, else the settings
file, else the default. The sources of one setting do not matter to another. -/
namespace MipsBackend

/-- A field has what its source says: the value that `read` makes of it, or none. -/
structure Conveys {σ α : Type} (source : Option σ) (read : σ → Option α) (field : Option α) :
    Prop where
  of_some : ∀ v, source = some v → ∃ a, read v = some a ∧ field = some a
  of_none : source = none → field = none

lemma Conveys.none {σ α : Type} {read : σ → Option α} : Conveys .none read .none :=
  ⟨nofun, fun _ => rfl⟩

lemma Conveys.self {α : Type} (source : Option α) : Conveys source some source :=
  ⟨fun v hv => ⟨v, rfl, hv⟩, id⟩

/-- How a setting comes by its value `x`: by what is given on the command line, else by the
environment, else by a line of the settings file, else by default. -/
structure IsChosen {α : Type} (x : α) (given : Option String) (read : String → Option α)
    (environment : Option α) (line : Option Scalar) (readLine : Scalar → Option α) (default : α) :
    Prop where
  of_given : ∀ v, given = some v → read v = some x
  of_environment : given = none → ∀ a, environment = some a → x = a
  of_line : given = none → environment = none → ∀ v, line = some v → readLine v = some x
  of_default : given = none → environment = none → line = none → x = default

lemma isChosen_of_conveys {α : Type} {given : Option String} {read : String → Option α}
    {line : Option Scalar} {readLine : Scalar → Option α} {front environment back : Option α}
    (hgiven : Conveys given read front) (hline : Conveys line readLine back) (default : α) :
    IsChosen (front.getD (environment.getD (back.getD default))) given read environment line
      readLine default := by
  constructor
  · intro v hv
    obtain ⟨a, ha, rfl⟩ := hgiven.of_some v hv
    exact ha
  · intro hnone a ha
    rw [hgiven.of_none hnone, ha]
    rfl
  · intro hnone henv v hv
    obtain ⟨a, ha, rfl⟩ := hline.of_some v hv
    rw [hgiven.of_none hnone, henv]
    exact ha
  · intro hnone henv hl
    rw [hgiven.of_none hnone, henv, hline.of_none hl]
    rfl

/-! ### Lines of the settings file -/

/-- The lines with a key and a value. -/
def FlatDocument.lines : FlatDocument → List FlatEntry
  | .entries es => es
  | _ => []

/-- The lines with a key and a value in the file at a path. An empty path is that of no file. -/
def Directory.settingLines (d : Directory) (path : String) : List FlatEntry :=
  if path = "" then []
  else ((d.read path).toOption.map fun content => (FlatDocument.ofText content).lines).getD []

/-- The value on the line with a key. Null is no value. -/
def FlatEntry.valueOf? (key : String) (es : List FlatEntry) : Option Scalar :=
  ((es.find? fun e => e.key.text = key).map FlatEntry.value).filter fun v => v.value ≠ .null

lemma FlatEntry.valueOf?_singleton {key : String} {e : FlatEntry} : valueOf? key [e] =
    if e.key.text = key ∧ e.value.value ≠ .null then some e.value else none := by
  by_cases hk : e.key.text = key <;> by_cases hv : e.value.value = .null <;>
    simp [valueOf?, hk, hv, Option.filter]

lemma FlatEntry.valueOf?_cons {key : String} {e : FlatEntry} {es : List FlatEntry} :
    valueOf? key (e :: es) = if e.key.text = key then valueOf? key [e] else valueOf? key es := by
  by_cases hk : e.key.text = key <;> simp [valueOf?, hk]

namespace Layer
variable {e : FlatEntry} {es : List FlatEntry} {l : Layer}

/-- A layer has what lines say on each of the settings. -/
structure Reads (l : Layer) (es : List FlatEntry) : Prop where
  scheme : Conveys (FlatEntry.valueOf? "scheme" es) (fun v => some v.text) l.scheme
  registers : Conveys (FlatEntry.valueOf? "registers" es) Scalar.integer? l.registers
  output : Conveys (FlatEntry.valueOf? "output" es) (fun v => some v.text) l.output
  verbose : Conveys (FlatEntry.valueOf? "verbose" es) Scalar.boolean? l.verbose

lemma value_of_known {k : Scalar} (h : k.text ∈ ["scheme", "registers", "output", "verbose"]) :
    k.value = .text := by
  obtain ⟨t, quoted⟩ := k
  cases quoted with
  | true => rfl
  | false =>
    simp only [List.mem_cons, List.not_mem_nil, or_false] at h
    rcases h with rfl | rfl | rfl | rfl <;> decide

lemma conveys_text {key : String} (hk : e.key.text = key) :
    Conveys (FlatEntry.valueOf? key [e]) (fun v => some v.text) e.value.text? := by
  rw [FlatEntry.valueOf?_singleton, Scalar.text?]
  by_cases hv : e.value.value = .null
  · simp [hv, Conveys.none]
  · simp only [hk, hv, ne_eq, not_false_eq_true, and_self, if_true, if_false]
    exact ⟨fun v hv => ⟨v.text, rfl, by cases hv; rfl⟩, nofun⟩

lemma conveys_typed {α : Type} {key : String} {line : Nat} {wanted : Wanted}
    {read : Scalar → Option α} {a : Option α} (hk : e.key.text = key)
    (h : typed line e.value wanted read = .ok a) : Conveys (FlatEntry.valueOf? key [e]) read a := by
  rw [FlatEntry.valueOf?_singleton]
  unfold typed at h
  split_ifs at h with hv
  · cases h
    simp [hv, Conveys.none]
  · rw [if_pos ⟨hk, hv⟩]
    split at h
    · next b hb =>
      cases h
      exact ⟨fun v hv => ⟨b, by cases hv; exact hb, rfl⟩, nofun⟩
    · cases h

/-- A line gives its value to the setting of its key, and none to the others. -/
lemma reads_ofEntry (h : ofEntry e = .ok l) : l.Reads [e] := by
  have hother : ∀ {α : Type} {read : Scalar → Option α} (key : String), e.key.text ≠ key →
      Conveys (FlatEntry.valueOf? key [e]) read none := by
    intro α read key hk
    rw [FlatEntry.valueOf?_singleton, if_neg fun h => hk h.1]
    exact .none
  unfold ofEntry at h
  split_ifs at h with hkey
  · cases h
    have hknown : ∀ key ∈ ["scheme", "registers", "output", "verbose"], e.key.text ≠ key := by
      rintro key hk rfl
      simp [value_of_known hk] at hkey
    exact ⟨hother _ (hknown _ (by decide)), hother _ (hknown _ (by decide)),
      hother _ (hknown _ (by decide)), hother _ (hknown _ (by decide))⟩
  · split at h
    · next hk =>
      cases h
      exact ⟨conveys_text hk, hother _ (by simp [hk]), hother _ (by simp [hk]),
        hother _ (by simp [hk])⟩
    · next hk =>
      cases ht : typed e.line e.value .integer Scalar.integer? with
      | error f =>
        rw [ht] at h
        cases h
      | ok a =>
        rw [ht] at h
        cases h
        exact ⟨hother _ (by simp [hk]), conveys_typed hk ht, hother _ (by simp [hk]),
          hother _ (by simp [hk])⟩
    · next hk =>
      cases h
      exact ⟨hother _ (by simp [hk]), hother _ (by simp [hk]), conveys_text hk,
        hother _ (by simp [hk])⟩
    · next hk =>
      cases ht : typed e.line e.value .boolean Scalar.boolean? with
      | error f =>
        rw [ht] at h
        cases h
      | ok a =>
        rw [ht] at h
        cases h
        exact ⟨hother _ (by simp [hk]), hother _ (by simp [hk]), hother _ (by simp [hk]),
          conveys_typed hk ht⟩
    · cases h

/-- A line with a key that does not come again, before other lines. -/
lemma conveys_cons {α : Type} {key : String} {read : Scalar → Option α} {a b : Option α}
    (hne : ∀ f ∈ es, f.key.text ≠ e.key.text) (he : Conveys (FlatEntry.valueOf? key [e]) read a)
    (hes : Conveys (FlatEntry.valueOf? key es) read b) :
    Conveys (FlatEntry.valueOf? key (e :: es)) read (b.or a) := by
  rw [FlatEntry.valueOf?_cons]
  split_ifs with hk
  · have hnone : FlatEntry.valueOf? key es = none := by
      have hfind : (es.find? fun f => f.key.text = key) = none := by
        simpa [hk] using hne
      rw [FlatEntry.valueOf?, hfind]
      rfl
    rw [hes.of_none hnone]
    exact he
  · have hnone : FlatEntry.valueOf? key [e] = none := by
      rw [FlatEntry.valueOf?_singleton, if_neg fun h => hk h.1]
    rw [he.of_none hnone, Option.or_none]
    exact hes

lemma reads_ofEntries (hkeys : repeatedKeys es = []) (hfaults : (ofEntries es).2 = []) :
    (ofEntries es).1.Reads es := by
  induction es with
  | nil => exact ⟨.none, .none, .none, .none⟩
  | cons e es ih =>
    rw [repeatedKeys, List.append_eq_nil_iff, List.map_eq_nil_iff] at hkeys
    have hne : ∀ f ∈ es, f.key.text ≠ e.key.text := by
      simpa using hkeys.1
    rw [ofEntries] at hfaults ⊢
    cases he : ofEntry e with
    | error f =>
      rw [he] at hfaults
      cases hfaults
    | ok m =>
      rw [he] at hfaults
      have hes := ih hkeys.2 hfaults
      have hm := reads_ofEntry he
      exact ⟨conveys_cons hne hm.scheme hes.scheme, conveys_cons hne hm.registers hes.registers,
        conveys_cons hne hm.output hes.output, conveys_cons hne hm.verbose hes.verbose⟩

lemma reads_nil : Reads {} [] := ⟨.none, .none, .none, .none⟩

lemma reads_ofMapping (h : (ofMapping es).2 = none) : (ofMapping es).1.Reads es := by
  unfold ofMapping at h ⊢
  dsimp only at h ⊢
  split_ifs at h ⊢ with hkeys hmerge
  have hkeys : repeatedKeys es = [] := by simpa using hkeys
  have hfaults : (ofEntries es).2 = [] := by
    unfold faultsError at h
    split_ifs at h with hempty
    simpa using hempty
  exact reads_ofEntries hkeys hfaults

/-- A file without an error has what its lines say. -/
lemma reads_ofText {content : String} (h : (ofText content).2 = none) :
    (ofText content).1.Reads (FlatDocument.ofText content).lines := by
  unfold ofText at h ⊢
  split_ifs at h ⊢
  cases hdoc : FlatDocument.ofText content with
  | empty => exact reads_nil
  | scalar n v => exact reads_nil
  | entries es =>
    rw [hdoc] at h
    exact reads_ofMapping h

end Layer

namespace Settings

/-- Settings that are loaded without an error are the defaults with two layers on top. -/
lemma exists_load {d : Directory} {env : NameMap String} {path : String}
    (h : (load d env path).2 = none) : ∃ l : Layer, l.Reads (d.settingLines path) ∧
      load d env path = ((default.overlay l).overlay (.ofEnvironment env), none) := by
  unfold load Decoder.load at h ⊢
  unfold Directory.settingLines
  by_cases hpath : path = ""
  · rw [if_pos hpath, if_pos hpath]
    exact ⟨{}, Layer.reads_nil, rfl⟩
  · rw [if_neg hpath] at h ⊢
    rw [if_neg hpath]
    unfold Decoder.loadFile at h ⊢
    cases hread : d.read path with
    | error e =>
      rw [hread] at h
      cases h
    | ok content =>
      rw [hread] at h
      have hnone : (Layer.ofText content).2 = none := Option.map_eq_none_iff.mp h
      refine ⟨(Layer.ofText content).1, Layer.reads_ofText hnone, ?_⟩
      dsimp only
      rw [hnone]
      rfl

/-- The names of schemes that can be used, with any number of registers in range. -/
lemma exists_ofScheme {name : String} {k : Int} :
    (∃ t g, Scheme.ofName name = .ok t ∧ Strategy.ofScheme t k = .ok g) ↔
      name ∈ ["naive", "intra", "global"] ∧ 1 ≤ k ∧ k ≤ 8 := by
  have hvalid : validRegisters k = true ↔ 1 ≤ k ∧ k ≤ 8 := by
    rw [validRegisters, Bool.and_eq_true, decide_eq_true_iff, decide_eq_true_iff]
    rfl
  rw [← hvalid]
  constructor
  · rintro ⟨t, g, ht, hg⟩
    unfold Scheme.ofName at ht
    unfold Strategy.ofScheme at hg
    split_ifs at hg with hk
    refine ⟨?_, by simpa using hk⟩
    split at ht
    · next t' ht' =>
      have hname : t'.name = name := by simpa using List.find?_some ht'
      rw [← hname]
      exact List.mem_map_of_mem (f := Scheme.name) (List.mem_of_find?_eq_some ht')
    · cases ht
  · rintro ⟨hname, hk⟩
    have hok : ∀ t ∈ Scheme.all, ∃ g, Strategy.ofScheme t k = .ok g := by
      simp [Scheme.all, Strategy.ofScheme, hk]
    simp only [List.mem_cons, List.not_mem_nil, or_false] at hname
    rcases hname with rfl | rfl | rfl
    · exact ⟨.naive, (hok .naive (by decide)).imp fun g hg => ⟨rfl, hg⟩⟩
    · exact ⟨.intra, (hok .intra (by decide)).imp fun g hg => ⟨rfl, hg⟩⟩
    · exact ⟨.global, (hok .global (by decide)).imp fun g hg => ⟨rfl, hg⟩⟩

/-- Settings that pass the check. -/
lemma exists_check {s : Settings} : (∃ job, s.check = .ok job) ↔
    s.scheme ∈ ["naive", "intra", "global"] ∧ 1 ≤ s.registers ∧ s.registers ≤ 8 ∧
      s.output ≠ "" := by
  rw [← and_assoc (b := 1 ≤ s.registers), ← and_assoc, and_assoc (b := 1 ≤ s.registers),
    ← exists_ofScheme]
  constructor
  · rintro ⟨job, hjob⟩
    obtain ⟨t, g, ht, hg, ho, -⟩ := check_eq_ok_iff.mp hjob
    exact ⟨⟨t, g, ht, hg⟩, ho⟩
  · rintro ⟨⟨t, g, ht, hg⟩, ho⟩
    exact ⟨_, check_eq_ok_iff.mpr ⟨t, g, ht, hg, ho, rfl⟩⟩

end Settings

/-- The settings that flags, other arguments, an environment and lines of a file come to. -/
structure Settings.AreChosen (s : Settings) (fs : List (Flag × String)) (xs : List String)
    (env : NameMap String) (lines : List FlatEntry) : Prop where
  scheme : IsChosen s.scheme xs[1]? some (Layer.given? env "RALPH_MIPS_SCHEME")
    (FlatEntry.valueOf? "scheme" lines) (fun v => some v.text) ""
  registers : IsChosen s.registers (Flag.registers.lastValue? fs)
    (fun v => Text.prefixedInteger? v.toList)
    ((Layer.given? env "RALPH_MIPS_REGISTERS").bind fun v => Text.integer? v.toList)
    (FlatEntry.valueOf? "registers" lines) Scalar.integer? 8
  output : IsChosen s.output (Flag.output.lastValue? fs) some (Layer.given? env "RALPH_MIPS_OUTPUT")
    (FlatEntry.valueOf? "output" lines) (fun v => some v.text) "out.s"
  verbose : IsChosen s.verbose (Flag.verbose.lastValue? fs) Flag.switchValue?
    ((Layer.given? env "RALPH_MIPS_VERBOSE").map Layer.affirmations.contains)
    (FlatEntry.valueOf? "verbose" lines) Scalar.boolean? false

namespace Options
variable {o : Options} {fs : List (Flag × String)}

lemma IsField.conveys {α : Type} {field : Options → Option α} {f : Flag} {read : String → Option α}
    (hfield : IsField field f read) (hnone : field {} = none)
    (h : Options.setAll {} fs = .ok o) : Conveys (f.lastValue? fs) read (field o) :=
  ⟨(hfield.setAll h).1, fun hlast => ((hfield.setAll h).2 hlast).trans hnone⟩

lemma config_of_setAll (h : setAll {} fs = .ok o) :
    o.config = (Flag.config.lastValue? fs).getD "" := by
  obtain ⟨hsome, hnone⟩ := isField_config.setAll h
  cases hlast : Flag.config.lastValue? fs with
  | none => exact Option.some.inj (hnone hlast)
  | some v =>
    obtain ⟨a, ha, hconfig⟩ := hsome v hlast
    exact Option.some.inj (hconfig.trans ha.symm)

end Options

/-- Whatever the command line, the environment and the settings file, as long as they can be read:
every setting has its value from the first of its sources that has one, and the settings can be
used if and only if each of them is in range. -/
theorem settings_by_precedence {args : List String} {env : NameMap String} {d : Directory}
    {o : Options} (hargs : Options.ofArgs args = .ok o)
    (hload : (Settings.load d env o.config).2 = none) :
    (∃ fs, CommandLine (expandDumps args) fs o.arguments) ∧
    ∃ s, o.resolve d env = .ok s ∧
      (∀ fs xs, CommandLine (expandDumps args) fs xs →
        s.AreChosen fs xs env (d.settingLines ((Flag.config.lastValue? fs).getD ""))) ∧
      ((∃ job, s.check = .ok job) ↔ s.scheme ∈ ["naive", "intra", "global"] ∧
        1 ≤ s.registers ∧ s.registers ≤ 8 ∧ s.output ≠ "") := by
  obtain ⟨l, hl, hloaded⟩ := Settings.exists_load hload
  have hresolve : o.resolve d env = .ok ((((Settings.default.overlay l).overlay
      (.ofEnvironment env)).overlay { scheme := o.arguments[1]? }).overlay o.settings) := by
    have hdecode : Library.own.decode.load d env o.config = _ := hloaded
    rw [Options.resolve, Library.resolve, hdecode]
  refine ⟨Options.exists_flags hargs, _, hresolve, fun fs xs hline => ?_, Settings.exists_check⟩
  obtain ⟨o', hset, rfl⟩ := Options.exists_setAll hargs hline
  have hscheme : o'.settings.scheme = none := Options.scheme_of_setAll hset
  rw [← Options.config_of_setAll hset]
  refine ⟨?_, ?_, ?_, ?_⟩
  · dsimp only [Settings.overlay]
    rw [hscheme]
    exact isChosen_of_conveys (.self _) hl.scheme ""
  · exact isChosen_of_conveys (Options.isField_registers.conveys rfl hset) hl.registers 8
  · exact isChosen_of_conveys (Options.isField_output.conveys rfl hset) hl.output "out.s"
  · exact isChosen_of_conveys (Options.isField_verbose.conveys rfl hset) hl.verbose false

/-- A command line that gives the number of registers twice. -/
def mixedArgs : List String := ["p", "-k", "2", "--registers=3", "--config", "c"]

def mixedFlags : List (Flag × String) := [(.registers, "2"), (.registers, "3"), (.config, "c")]

def mixedEnvironment : NameMap String :=
  .ofList [("RALPH_MIPS_OUTPUT", "e"), ("RALPH_MIPS_REGISTERS", "x"), ("RALPH_MIPS_VERBOSE", "")]

def mixedDirectory : Directory :=
  { files := .ofList [("c", "scheme: intra\noutput: f\nverbose: on\nregisters: 5")] }

lemma commandLine_mixed : CommandLine (expandDumps mixedArgs) mixedFlags ["p"] := by
  have hargs : expandDumps mixedArgs = mixedArgs := by decide
  rw [hargs]
  have hk : Flag.Argument ['k'] [] (some .registers) := .letters (by decide) (.waiting rfl rfl)
  have hregisters : Flag.Argument ('-' :: Flag.registers.name.toList ++ ['=', '3'])
    [(.registers, "3")] none := .assigned .registers ['3']
  have hconfig : Flag.Argument ('-' :: Flag.config.name.toList) [] (some .config) := .waiting rfl
  exact .argument (Or.inl (by decide)) (.valued (by decide) hk
    (.flags (by decide) hregisters (.valued (by decide) hconfig .nil)))

/-- The scheme and verbosity are from the file, the output is from the environment, and the number
of registers is the last on the command line. -/
theorem settings_by_precedence_mixed :
    ∃ o s, Options.ofArgs mixedArgs = .ok o ∧
      (Settings.load mixedDirectory mixedEnvironment o.config).2 = none ∧
      o.resolve mixedDirectory mixedEnvironment = .ok s ∧
      s.scheme = "intra" ∧ s.registers = 3 ∧ s.output = "e" ∧ s.verbose = true ∧
      ∃ job, s.check = .ok job := by
  have hargs : Options.ofArgs mixedArgs = .ok
      { config := "c", settings := { registers := some 3 }, arguments := ["p"] } := by
    decide +kernel
  have hload : (Settings.load mixedDirectory mixedEnvironment "c").2 = none := by decide +kernel
  obtain ⟨-, s, hs, hchosen, hcheck⟩ := settings_by_precedence hargs hload
  obtain ⟨hscheme, hregisters, houtput, hverbose⟩ := hchosen mixedFlags ["p"] commandLine_mixed
  have hconfig : (Flag.config.lastValue? mixedFlags).getD "" = "c" := by decide
  rw [hconfig] at hscheme hverbose
  have hscheme : s.scheme = "intra" :=
    Option.some.inj (hscheme.of_line rfl (by decide +kernel) ⟨"intra", false⟩
      (by decide +kernel)).symm
  have hregisters : s.registers = 3 :=
    Option.some.inj ((hregisters.of_given "3" (by decide)).symm.trans (by decide))
  have houtput : s.output = "e" := houtput.of_environment (by decide) "e" (by decide +kernel)
  have hverbose : s.verbose = true :=
    Option.some.inj ((hverbose.of_line (by decide) (by decide +kernel) ⟨"on", false⟩
      (by decide +kernel)).symm.trans (by decide))
  refine ⟨_, s, hargs, hload, hs, hscheme, hregisters, houtput, hverbose, hcheck.mpr ?_⟩
  rw [hscheme, hregisters, houtput]
  decide

end MipsBackend
