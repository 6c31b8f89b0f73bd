import Mathlib.Data.List.Pairwise
import MipsBackend.Proofs.Sessions

/-! Jumps. A jump in the lines of a function goes to the label that its block links to, and the
lines of that block follow the label. The name of the function is the exception: it is printed once,
before the function, so a jump to a block with this label enters the function anew. -/
namespace MipsBackend
open Asm

/-- A label that is defined once, right before the lines of a block. -/
structure LandsOn (lines : List Line) (label : String) (block : List Line) : Prop where
  once : lines.count (.label label) = 1
  followed : ∃ before after, lines = before ++ .label label :: (block ++ after)

lemma count_label (lines : List Line) (l : String) :
    lines.count (.label l) = (lines.filterMap Line.defines?).count l := by
  rw [List.count_filterMap, List.count]
  refine List.countP_congr fun ln _ => ?_
  rw [beq_iff_eq, beq_iff_eq, Line.defines?_eq_some_iff]

/-- Blocks are told apart by their labels. -/
lemma Function.Linked.label_injective {f : Function} (hf : f.Linked) (hlabels : f.labels.Nodup)
    {b b' : Block} {l : String} (hb : b ∈ f.blocks) (hb' : b' ∈ f.blocks) (hl : b.label = some l)
    (hl' : b'.label = some l) : b = b' := by
  rw [← hf.labels, List.Nodup, List.pairwise_filterMap] at hlabels
  by_contra hne
  have hsymm : Std.Symm fun c c' : Block =>
      ∀ x, c.label = some x → ∀ x', c'.label = some x' → x ≠ x' :=
    ⟨fun c c' h x hx x' hx' he => h x' hx' x hx he.symm⟩
  exact hlabels.forall hb hb' hne l hl l hl' rfl

namespace Placement
variable {q : Placement} {b : Block} {l : String} {ln : Line}

/-- How often a label is defined. -/
lemma count_label_lower (hf : q.function.Linked) (hlabels : q.function.labels.Nodup)
    (h : (q.run {} q.lower).failure = none) (hb : b ∈ q.function.blocks) (hl : b.label = some l) :
    (q.run {} q.lower).lines.count (.label l) = if l = q.function.name then 0 else 1 := by
  rw [count_label, defines_run h, Scope.defines_lower hf]
  split
  · next he => exact List.count_eq_zero.mpr (by simp [he])
  · next hne =>
    rw [List.count_filter (by simpa using hne),
      List.count_eq_one_of_mem hlabels (hf.mem_labels hb hl)]

lemma landsOn_iff (hf : q.function.Linked) (hlabels : q.function.labels.Nodup)
    (h : (q.run {} q.lower).failure = none) (hb : b ∈ q.function.blocks) (hl : b.label = some l) :
    LandsOn (q.run {} q.lower).lines l (q.blockLines b) ↔ l ≠ q.function.name := by
  have hcount := count_label_lower hf hlabels h hb hl
  constructor
  · intro hlands he
    rw [if_pos he, hlands.once] at hcount
    cases hcount
  · intro hne
    rw [if_neg hne] at hcount
    exact ⟨hcount, lines_lower hf.toBuilt h hb hl hne⟩

/-- A jump is that of a block, and its target is the label of a block that this one leads to. -/
lemma exists_link (hf : q.function.Linked) (hln : ln ∈ (q.run {} q.lower).lines)
    (ht : ln.target? = some l) :
    ∃ c ∈ q.function.blocks, c.target? = some l ∧
      ∃ b ∈ q.function.blocks, b.label = some l ∧ b.id ∈ c.succs := by
  obtain ⟨c, hc, hct⟩ := exists_block_of_target? hf.toBuilt hln ht
  exact ⟨c, hc, hct, hf.targets c hc l hct⟩

end Placement

/-- A jump in the lines of a function goes to the label of the one block that carries it, to which
its own block leads. If the label is not the name of the function, it is defined once, right before
the lines of that block; otherwise it is not defined among the lines. -/
theorem jump_lands_iff {text : String} {p : Program} {f : Function} {g : Strategy} {t : Session}
    {a : Asm.Function} (hp : (readProgram text).result = .ok p) (hf : f ∈ p.functions)
    (hlabels : f.labels.Nodup)
    (ha : Session.generate { program := p, strategy := g } f = (t, .ok a)) {ln : Line} {l : String}
    (hln : ln ∈ a.lines) (ht : ln.target? = some l) :
    ∃ c ∈ f.blocks, c.target? = some l ∧ ∃ b ∈ f.blocks, b.label = some l ∧ b.id ∈ c.succs ∧
      (∀ b' ∈ f.blocks, b'.label = some l → b' = b) ∧
      (LandsOn a.lines l ((g.place ⟨p, f⟩).blockLines b) ↔ l ≠ f.name) ∧
      (l = f.name → .label l ∉ a.lines) := by
  obtain ⟨d, hd, -⟩ := exists_build_of_readProgram hp hf
  have hlinked := d.linked_of_build hd
  obtain ⟨hfail, -, rfl⟩ := Session.generate_eq_ok_iff.mp ha
  obtain ⟨c, hc, hct, b, hb, hl, hsucc⟩ :=
    Placement.exists_link (q := g.place ⟨p, f⟩) hlinked hln ht
  refine ⟨c, hc, hct, b, hb, hl, hsucc, fun b' hb' hl' => ?_, ?_, fun he => ?_⟩
  · exact hlinked.label_injective hlabels hb' hb hl' hl
  · exact Placement.landsOn_iff (q := g.place ⟨p, f⟩) hlinked hlabels hfail hb hl
  · have hcount := Placement.count_label_lower (q := g.place ⟨p, f⟩) hlinked hlabels hfail hb hl
    exact List.count_eq_zero.mp (hcount.trans (if_pos he))

/-- The branch of the loop goes back to its first block. -/
theorem jump_lands_countdown :
    ∃ t a, Session.generate { program := countdownProgram, strategy := .perFunction 2 }
        countdownFunction = (t, .ok a) ∧
      (∃ ln ∈ a.lines, ln.target? = some "loop") ∧
      ∃ b ∈ countdownFunction.blocks, b.label = some "loop" ∧ LandsOn a.lines "loop"
        (((Strategy.perFunction 2).place countdownScope).blockLines b) := by
  let s : Session := { program := countdownProgram, strategy := .perFunction 2 }
  have hfail : (s.emissionOf countdownFunction).failure = none := by decide +kernel
  have hjump : ∃ ln ∈ (s.emissionOf countdownFunction).lines, ln.target? = some "loop" := by
    decide +kernel
  have hgen := Session.generate_of_failure_eq_none rfl hfail
  refine ⟨_, _, hgen, hjump, ?_⟩
  obtain ⟨ln, hln, ht⟩ := hjump
  obtain ⟨-, -, -, b, hb, hl, -, -, hlands, -⟩ :=
    jump_lands_iff readProgram_countdown mem_countdownProgram (by decide +kernel) hgen hln ht
  exact ⟨b, hb, hl, hlands.mpr (by decide)⟩

/-- A function with a loop behind its first instruction that has the name of the function. -/
def retry : FunctionDef where
  name := "f"
  params := ["n"]
  ints := ["n"]
  code := [
    { op := .assign, arg1 := "n", arg2 := "3" },
    { op := .arith .sub, arg1 := "n", arg2 := "1", arg3 := "n", label := some "f" },
    { op := .branch .ne, arg1 := "n", arg2 := "0", arg3 := "f" },
    { op := .ret, arg1 := "n" }]

def retryFunction : Function := retry.build.toOption.get (by decide +kernel)

def retryLines : List String :=
  ["#start_function f\n", "int f(int n)\n", "int-list: n\n", "float-list:\n", "assign, n, 3\n",
    "f:\n", "sub, n, 1, n\n", "brneq, n, 0, f\n", "return, n\n", "#end_function\n"]

def retryText : String := String.ofList (retryLines.flatMap String.toList)

abbrev retryProgram : Program := .ofFunctions [retryFunction]

/-- The branch back to the loop finds no label, so it goes to the entry of the function. -/
theorem jump_misses_retry :
    (readProgram retryText).result = .ok retryProgram ∧ retryFunction.labels = ["f"] ∧
    ∃ t a, Session.generate { program := retryProgram, strategy := .memory } retryFunction =
        (t, .ok a) ∧
      (∃ ln ∈ a.lines, ln.target? = some "f") ∧ .label "f" ∉ a.lines ∧
      ∃ c ∈ retryFunction.blocks, c.target? = some "f" ∧ c.id = 1 ∧ c.label = some "f" ∧
        1 ∈ c.succs := by
  let s : Session := { program := retryProgram, strategy := .memory }
  have hread : (readProgram retryText).result = .ok retryProgram := by
    have h : retryText.toList = retryLines.flatMap String.toList := String.toList_ofList
    unfold readProgram
    rw [h]
    decide +kernel
  have hfail : (s.emissionOf retryFunction).failure = none := by decide +kernel
  have hgen := Session.generate_of_failure_eq_none rfl hfail
  exact ⟨hread, by decide +kernel, _, _, hgen, by decide +kernel, by decide +kernel,
    by decide +kernel⟩

end MipsBackend
