import MipsBackend.Command.Basic
import MipsBackend.Proofs.Files
import MipsBackend.Proofs.Reading

/-! The output of a run. It is opened after everything that can go wrong has gone well, so a run
that fails leaves it alone, and then written to its end, as far as there is room. Dumps and log
records go elsewhere, as long as the log file is a file of its own. How command lines and settings
files are read is left open. -/
namespace MipsBackend

/-- What the steps of a compilation come to, from the command line to the output. -/
structure Delivery (lib : Library) (args : List String) (env : NameMap String) (d : Directory) where
  options : Options
  input : String
  settings : Settings
  scheme : Scheme
  strategy : Strategy
  text : String
  program : Program
  assembly : Asm.Program
  /-- The plain path of the output. -/
  file : String
  options_eq : lib.parse args = .ok options
  head_arguments : options.arguments.head? = some input
  length_arguments : options.arguments.length ≤ 2
  settings_eq : lib.resolve options d env = .ok settings
  scheme_eq : Scheme.ofName settings.scheme = .ok scheme
  strategy_eq : Strategy.ofScheme scheme settings.registers = .ok strategy
  log : options.logFile = "" ∨ ∃ p, d.Accepts options.logFile p
  text_eq : d.read input = .ok text
  program_eq : (readProgram text).result = .ok program
  assembly_eq : program.generate strategy = .ok assembly
  accepts : d.Accepts settings.output file

section
variable (lib : Library) (args : List String) (env : NameMap String) (d : Directory)

end

/-! ### Settings and log -/

lemma Settings.check_eq_ok_iff {s : Settings} {job : Job} : s.check = .ok job ↔
    ∃ scheme strategy, Scheme.ofName s.scheme = .ok scheme ∧
      Strategy.ofScheme scheme s.registers = .ok strategy ∧ s.output ≠ "" ∧
      job = ⟨scheme, s.registers, strategy, s.output⟩ := by
  have hempty : ∀ t, Scheme.ofName "" ≠ .ok t := by
    intro t h
    cases h
  unfold check
  by_cases hs : s.scheme = ""
  · rw [if_pos hs, hs]
    simp [hempty]
  rw [if_neg hs]
  cases Scheme.ofName s.scheme with
  | error e => simp
  | ok scheme =>
    dsimp only
    cases hg : Strategy.ofScheme scheme s.registers with
    | error e => simp [hg]
    | ok strategy =>
      by_cases ho : s.output = ""
      · simp [ho]
      · simp [hg, ho, eq_comm]

/-- Log records go to files at `C` only. -/
def LogTarget.Within (t : LogTarget) (d : Directory) (C : String → Prop) : Prop :=
  ∀ path, t = .file path → ∀ x, d.locate path = .ok x → C x

section
variable {d d' : Directory} {C C' : String → Prop} {t : LogTarget} {w : Progress}
  {events : List Event} {o : Options} {job : Job} {p : Program} {input : String}

lemma Directory.Keeps.log (h : d.Keeps C w.directory) (ht : t.Within d C) :
    d.Keeps C (w.log t events).directory := by
  cases t with
  | nowhere => exact h
  | console => exact h
  | file path =>
    exact List.foldlRecOn events _ (motive := fun d' : Directory => d.Keeps C d') h
      fun _ hd' _ _ => hd'.append (ht path rfl)

namespace Directory.Keeps

lemma print {text : String} (h : d.Keeps C w.directory) : d.Keeps C (w.print text).directory := h

lemma report {text : String} (h : d.Keeps C w.directory) : d.Keeps C (w.report text).directory := h

lemma dumpFunction {k : Int} {f : Function} (h : d.Keeps C w.directory) (ht : t.Within d C) :
    d.Keeps C (o.dumpFunction p k t w f).directory := by
  unfold Options.dumpFunction
  dsimp only
  split
  · split
    · exact (((h.log ht).print.log ht).print.log ht).print
    · exact (h.log ht).print
  · split
    · exact ((h.log ht).print.log ht).print
    · exact h

/-- Dumps change no file but the log. -/
lemma dump {k : Int} (h : d.Keeps C w.directory) (ht : t.Within d C) :
    d.Keeps C (o.dump p k t w).directory := by
  unfold Options.dump
  dsimp only
  refine List.foldlRecOn p.functions _ (motive := fun w : Progress => d.Keeps C w.directory) ?_
    fun w hw f _ => hw.dumpFunction ht
  split
  · exact h.print
  · exact h

end Directory.Keeps

/-! ### How a run ends -/

/-- A run ends in one of two ways. Either there is nothing to deliver, and it fails with no other
files changed than those at `C`; or it succeeds, and the file that the delivery is for has its
content. -/
def Outcome.Settles (r : Outcome) (d : Directory) (C : String → Prop)
    (P : String → String → Prop) : Prop :=
  (r.success = false ∧ (∀ q content, ¬ P q content) ∧ d.Keeps C r.progress.directory) ∨
    ∃ q content, r.success = true ∧ P q content ∧
      d.Keeps (fun x => x = q ∨ C x) r.progress.directory ∧
      r.progress.directory.files.get? q = some content

lemma Outcome.Settles.congr {r : Outcome} {P Q : String → String → Prop} (h : r.Settles d C P)
    (hPQ : ∀ q content, P q content ↔ Q q content) : r.Settles d C Q := by
  unfold Settles at h ⊢
  simp only [← hPQ]
  exact h

lemma Outcome.Settles.agree {r r' : Outcome} {P : String → String → Prop} (h : r.Settles d C P)
    (h' : r'.Settles d C P)
    (hP : ∀ q content q' content', P q content → P q' content' → q' = q ∧ content' = content) :
    r'.success = r.success ∧ ∀ x, ¬ C x →
      r'.progress.directory.files.get? x = r.progress.directory.files.get? x := by
  rcases h with ⟨hr, hnone, hkeeps⟩ | ⟨q, content, hr, hq, hkeeps, hcontent⟩
  · rcases h' with ⟨hr', -, hkeeps'⟩ | ⟨q', content', -, hq', -⟩
    · refine ⟨hr'.trans hr.symm, fun x hx => ?_⟩
      rw [hkeeps'.files x hx, hkeeps.files x hx]
    · exact absurd hq' (hnone q' content')
  · rcases h' with ⟨-, hnone, -⟩ | ⟨q', content', hr', hq', hkeeps', hcontent'⟩
    · exact absurd hq (hnone q content)
    · obtain ⟨rfl, rfl⟩ := hP q content q' content' hq hq'
      refine ⟨hr'.trans hr.symm, fun x hx => ?_⟩
      by_cases hxq : x = q'
      · rw [hxq, hcontent', hcontent]
      · have hx : ¬ (x = q' ∨ C x) := not_or.mpr ⟨hxq, hx⟩
        rw [hkeeps'.files x hx, hkeeps.files x hx]

end

/-! ### Command lines that compile -/

section
variable {lib : Library} {args args' : List String} {env env' : NameMap String} {d : Directory}
  {o : Options} {q content input : String}

/-- The output is decided on by the input, the scheme, the number of registers and the path of the
output. -/
lemma Delivery.eq_of_settings (v : Delivery lib args env d) (v' : Delivery lib args' env' d)
    (hinput : v'.input = v.input) (hscheme : v'.settings.scheme = v.settings.scheme)
    (hregisters : v'.settings.registers = v.settings.registers)
    (houtput : v'.settings.output = v.settings.output) :
    v'.file = v.file ∧ v'.assembly = v.assembly := by
  have hs := v'.scheme_eq
  rw [hscheme, v.scheme_eq] at hs
  have hg := v'.strategy_eq
  rw [← Except.ok.inj hs, hregisters, v.strategy_eq] at hg
  have ht := v'.text_eq
  rw [hinput, v.text_eq] at ht
  have hp := v'.program_eq
  rw [← Except.ok.inj ht, v.program_eq] at hp
  have ha := v'.assembly_eq
  rw [← Except.ok.inj hp, ← Except.ok.inj hg, v.assembly_eq] at ha
  have hq := v'.accepts.locate
  rw [houtput, v.accepts.locate] at hq
  exact ⟨(Except.ok.inj hq).symm, (Except.ok.inj ha).symm⟩

lemma Delivery.unique (v v' : Delivery lib args env d) :
    v'.file = v.file ∧ v'.assembly = v.assembly := by
  have ho : v'.options = v.options := Except.ok.inj (v'.options_eq.symm.trans v.options_eq)
  have hi := v'.head_arguments
  rw [ho, v.head_arguments] at hi
  have hs := v'.settings_eq
  rw [ho, v.settings_eq] at hs
  have hs := Except.ok.inj hs
  exact v.eq_of_settings v' (Option.some.inj hi).symm (by rw [hs]) (by rw [hs]) (by rw [hs])

/-- Command lines and environments that differ in the dumps that they ask for and in verbosity
only. -/
def SameButReports (lib : Library) (args : List String) (env : NameMap String) (args' : List String)
    (env' : NameMap String) : Prop :=
  (∀ name, name ≠ "RALPH_MIPS_VERBOSE" → env'.get? name = env.get? name) ∧
    ∃ o graph liveness allocation verbose, lib.parse args = .ok o ∧
      lib.parse args' = .ok { o with
        showGraph := graph, showLiveness := liveness, showAllocation := allocation
        settings := { o.settings with verbose := verbose } }

lemma SameButReports.symm (h : SameButReports lib args env args' env') :
    SameButReports lib args' env' args env := by
  obtain ⟨henv, o, graph, liveness, allocation, verbose, ho, ho'⟩ := h
  exact ⟨fun name hname => (henv name hname).symm, _, o.showGraph, o.showLiveness,
    o.showAllocation, o.settings.verbose, ho', ho⟩

lemma Layer.ofEnvironment_of_agree
    (henv : ∀ name, name ≠ "RALPH_MIPS_VERBOSE" → env'.get? name = env.get? name) :
    ofEnvironment env' =
      { ofEnvironment env with verbose := (ofEnvironment env').verbose } := by
  unfold ofEnvironment given?
  rw [henv "RALPH_MIPS_SCHEME" (by decide), henv "RALPH_MIPS_REGISTERS" (by decide),
    henv "RALPH_MIPS_OUTPUT" (by decide)]

lemma SameButReports.options (h : SameButReports lib args env args' env')
    (ho : lib.parse args = .ok o) : ∃ o', lib.parse args' = .ok o' ∧
      o'.arguments = o.arguments ∧ o'.logFile = o.logFile ∧ o'.help = o.help ∧
      o'.version = o.version ∧ ∀ d s, lib.resolve o d env = .ok s →
        ∃ b, lib.resolve o' d env' = .ok { s with verbose := b } := by
  obtain ⟨henv, o₁, graph, liveness, allocation, verbose, ho₁, ho'⟩ := h
  obtain rfl : o = o₁ := Except.ok.inj (ho.symm.trans ho₁)
  refine ⟨_, ho', rfl, rfl, rfl, rfl, fun d s hs => ?_⟩
  unfold Library.resolve Decoder.load at hs ⊢
  rw [Layer.ofEnvironment_of_agree henv]
  dsimp only at hs ⊢
  generalize (if o.config = "" then (Settings.default, none)
    else lib.decode.loadFile .default d o.config) = r at hs ⊢
  obtain ⟨s₀, e⟩ := r
  cases e with
  | some e => cases hs
  | none =>
    cases hs
    exact ⟨_, rfl⟩

end

-- without room for all of it, only the beginning of the output is there
example :
    let d : Directory := { files := .ofList [("a", "")], limits := .ofList [("out.s", 3)] }
    let r := runCommand ["a", "naive"] ∅ d
    r.success = true ∧ r.progress.directory.files.get? "out.s" = some ".te" := by
  decide +kernel

end MipsBackend
