import MipsBackend.Lowering.Action
import MipsBackend.Proofs.Liveness
import MipsBackend.Reader

/-! What reading a program guarantees: all its functions are built, and no variable is declared
without a name. -/
namespace MipsBackend

namespace FunctionDef
variable {f g : FunctionDef}

lemma isVar_declare (f : FunctionDef) (type : VarType) (d : Declaration) :
    (f.declare type d).isVar "" = f.isVar "" := by
  have hnames : "" ∉ (if d.name = "" then [] else [d.name]) := by
    split
    · simp
    · next h => simpa using Ne.symm h
  cases type <;> simp_all [declare, isVar, isInt, isFloat]

lemma isVar_declareAll {type : VarType} {ps : List (List Char)}
    (h : f.declareAll type ps = .ok g) : g.isVar "" = f.isVar "" := by
  induction ps generalizing f with
  | nil =>
    cases h
    rfl
  | cons p ps ih =>
    rw [declareAll] at h
    split at h
    · cases h
    · rw [ih h, isVar_declare]

lemma isVar_of_build {f : Function} {d : FunctionDef} (h : d.build = .ok f) (v : String) :
    f.isVar v = d.isVar v := by
  obtain ⟨blocks, -, rfl⟩ := exists_of_build h
  rfl

end FunctionDef

/-- What is known of a function of a program that has been read. -/
structure Function.WellFormed (f : Function) : Prop where
  built : f.Built
  named : f.isVar "" = false

namespace ReadState
variable {s t : ReadState}

/-- The functions read so far have been built, and every one declares only names, also the one
being read. -/
structure Sane (s : ReadState) : Prop where
  functions : ∀ f ∈ s.functions, ∃ d : FunctionDef, d.build = .ok f ∧ d.isVar "" = false
  phase : ∀ d, s.phase = .inside d → d.isVar "" = false

lemma Sane.item {x : Item} (h : s.Sane) (hx : s.item x = .ok t) : t.Sane := by
  cases x with
  | blank =>
    cases hx
    exact h
  | start name =>
    simp only [ReadState.item] at hx
    split at hx
    · cases hx
    · split at hx
      · cases hx
      · cases hx
        exact ⟨h.functions, by simp⟩
  | finish =>
    simp only [ReadState.item] at hx
    split at hx
    · next d hd =>
      split at hx
      · cases hx
      · next f hf =>
        cases hx
        refine ⟨fun g hg => ?_, by simp⟩
        rcases List.mem_append.mp hg with hg | hg
        · exact h.functions g hg
        · obtain rfl : g = f := by simpa using hg
          exact ⟨d, hf, h.phase d hd⟩
    · cases hx
  | declarations type list =>
    simp only [ReadState.item] at hx
    split at hx
    · next d hd =>
      split at hx
      · cases hx
      · next g hg =>
        cases hx
        refine ⟨h.functions, fun e he => ?_⟩
        cases he
        rw [d.isVar_declareAll hg, h.phase d hd]
    · cases hx
  | label name =>
    cases hx
    exact ⟨h.functions, h.phase⟩
  | code text =>
    simp only [ReadState.item] at hx
    split at hx
    · cases hx
      exact ⟨h.functions, h.phase⟩
    · split at hx
      · next d hd =>
        cases hx
        refine ⟨h.functions, fun e he => ?_⟩
        cases he
        exact h.phase d hd
      · cases hx

lemma Sane.step {line : List Char} (h : s.Sane) (hx : s.step line = .ok t) : t.Sane := by
  have h' : Sane { s with line := s.line + 1 } := ⟨h.functions, h.phase⟩
  simp only [ReadState.step] at hx
  split at hx
  · split at hx
    · cases hx
    · cases hx
      refine ⟨h.functions, fun d hd => ?_⟩
      cases hd
      rfl
  · exact h'.item hx

lemma Sane.steps {lines : List (List Char)} (h : s.Sane) : (s.steps lines).1.Sane := by
  induction lines generalizing s with
  | nil => exact h
  | cons l ls ih =>
    rw [ReadState.steps]
    split
    · exact h
    · next t ht => exact ih (h.step ht)

end ReadState

section
variable {text : String} {p : Program} {f : Function}

lemma exists_build_of_readProgram (h : (readProgram text).result = .ok p) (hf : f ∈ p.functions) :
    ∃ d : FunctionDef, d.build = .ok f ∧ d.isVar "" = false := by
  have hinit : ReadState.Sane {} := ⟨by simp, by simp⟩
  simp only [readProgram] at h
  split at h
  · cases h
  · cases h
    exact hinit.steps.functions f hf

lemma wellFormed_of_readProgram (h : (readProgram text).result = .ok p) (hf : f ∈ p.functions) :
    f.WellFormed := by
  obtain ⟨d, hd, hname⟩ := exists_build_of_readProgram h hf
  exact ⟨d.built_of_build hd, by rw [d.isVar_of_build hd, hname]⟩

end

/-! ### The loop as a text -/

def countdownLines : List String :=
  ["#start_function f\n", "int f(int n, int d)\n", "int-list: n, d, t\n", "loop:\n",
    "callr, t, g, n\n", "sub, t, d, n\n", "brneq, n, 0, loop\n", "return, d\n",
    "#end_function\n"]

def countdownText : String := String.ofList (countdownLines.flatMap String.toList)

abbrev countdownProgram : Program := .ofFunctions [countdownFunction]

abbrev countdownScope : Scope := ⟨countdownProgram, countdownFunction⟩

lemma mem_countdownProgram : countdownFunction ∈ countdownProgram.functions :=
  List.mem_singleton.mpr rfl

lemma readProgram_countdown : (readProgram countdownText).result = .ok countdownProgram := by
  have h : countdownText.toList = countdownLines.flatMap String.toList := String.toList_ofList
  unfold readProgram
  rw [h]
  decide +kernel

/-! ### A float result of printing -/

def echo : FunctionDef where
  name := "f"
  floats := ["x"]
  code := [
    { op := .callr, arg1 := "x", arg2 := "printi", arg3 := "1" },
    { op := .ret, arg1 := "x" }]

def echoFunction : Function := echo.build.toOption.get (by decide +kernel)

def echoLines : List String :=
  ["#start_function f\n", "float f()\n", "float-list: x\n", "callr, x, printi, 1\n", "return, x\n",
    "#end_function\n"]

def echoText : String := String.ofList (echoLines.flatMap String.toList)

abbrev echoProgram : Program := .ofFunctions [echoFunction]

abbrev echoScope : Scope := ⟨echoProgram, echoFunction⟩

lemma readProgram_echo : (readProgram echoText).result = .ok echoProgram := by
  have h : echoText.toList = echoLines.flatMap String.toList := String.toList_ofList
  unfold readProgram
  rw [h]
  decide +kernel

end MipsBackend
