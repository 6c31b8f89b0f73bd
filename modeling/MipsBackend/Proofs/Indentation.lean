import Mathlib.Data.List.Forall2
import Mathlib.Tactic.Lemma
import MipsBackend.Proofs.Concatenation

/-! Blanks around lines have no influence. What a line says is told by its trimmed text, a signature
by what is between its parentheses. So two texts whose lines are the same but for blanks around them
are read in the same way, up to the blanks around a signature that an error quotes. Line feeds may
have carriage returns before them, since these are blanks too. -/
namespace MipsBackend

namespace Text

/-- Carriage returns are blanks, so it makes no difference whether they are dropped first. -/
lemma trim_dropReturns (s : List Char) : trim (dropReturns s) = trim s := by
  obtain ⟨w, hw, hreturn⟩ := exists_trimRight_append (· == '\r') s
  have hblank : ∀ c ∈ w, isBlank c = true := by
    intro c hc
    rw [beq_iff_eq.mp (hreturn c hc)]
    decide
  have htrim := trimBy_append_right (s := dropReturns s) hblank
  rw [dropReturns, ← hw] at htrim
  exact htrim.symm

end Text

/-! ### Blanks around a signature -/

lemma parenthesized?_append_left {u s : List Char} (hu : '(' ∉ u) :
    parenthesized? (u ++ s) = parenthesized? s := by
  have hskip : ∀ c ∈ u, decide (c ≠ '(') = true := fun c hc => decide_eq_true fun he => hu (he ▸ hc)
  rw [parenthesized?, List.dropWhile_append_of_pos hskip, parenthesized?]

lemma parenthesized?_append_right {s w : List Char} (hopen : '(' ∉ w) (hclose : ')' ∉ w) :
    parenthesized? (s ++ w) = parenthesized? s := by
  have hskip : ∀ c ∈ w, decide (c ≠ '(') = true :=
    fun c hc => decide_eq_true fun he => hopen (he ▸ hc)
  have hskip' : ∀ c ∈ w.reverse, decide (c ≠ ')') = true :=
    fun c hc => decide_eq_true fun he => hclose (he ▸ List.mem_reverse.mp hc)
  rw [parenthesized?, parenthesized?, List.dropWhile_append]
  cases h : s.dropWhile (· ≠ '(') with
  | nil => rw [List.isEmpty_nil, if_pos rfl, List.dropWhile_eq_nil_iff.mpr hskip]
  | cons c inner =>
    rw [List.isEmpty_cons, if_neg Bool.false_ne_true, List.cons_append]
    dsimp only
    rw [List.reverse_append, List.dropWhile_append_of_pos hskip']

lemma parenthesized?_trim (s : List Char) : parenthesized? (Text.trim s) = parenthesized? s := by
  obtain ⟨u, w, hs, hu, hw⟩ := Text.exists_trimBy_append Text.isBlank s
  have hnone : ∀ {c : Char} {v : List Char}, Text.isBlank c = false →
      (∀ d ∈ v, Text.isBlank d = true) → c ∉ v :=
    fun hc hv hmem => Bool.false_ne_true (hc.symm.trans (hv _ hmem))
  have hopen : Text.isBlank '(' = false := by decide
  have hclose : Text.isBlank ')' = false := by decide
  calc parenthesized? (Text.trim s)
    _ = parenthesized? (Text.trim s ++ w) :=
      (parenthesized?_append_right (hnone hopen hw) (hnone hclose hw)).symm
    _ = parenthesized? (u ++ (Text.trim s ++ w)) :=
      (parenthesized?_append_left (hnone hopen hu)).symm
    _ = parenthesized? s := congrArg parenthesized? hs.symm

lemma signatureParams?_congr {l l' : List Char} (h : Text.trim l = Text.trim l') :
    signatureParams? l = signatureParams? l' := by
  rw [signatureParams?, signatureParams?, ← parenthesized?_trim, h, parenthesized?_trim]

lemma Item.ofLine_congr {l l' : List Char} (h : Text.trim l = Text.trim l') :
    Item.ofLine l = Item.ofLine l' := by
  rw [Item.ofLine, Item.ofLine, h]

/-! ### Reading -/

/-- The error without the blanks around a signature that it quotes. -/
def ReadError.unindented : ReadError → ReadError
  | .malformed n (.badSignature f s) =>
    .malformed n (.badSignature f (String.ofList (Text.trim s.toList)))
  | e => e

/-- What kind of error it is, whatever it says and wherever it is. -/
inductive ReadError.Kind where
  | malformed | undefinedLabel | lineTooLong
  deriving DecidableEq

def ReadError.kind : ReadError → ReadError.Kind
  | .malformed _ _ => .malformed
  | .undefinedLabel _ _ => .undefinedLabel
  | .lineTooLong => .lineTooLong

lemma ReadError.kind_unindented (e : ReadError) : e.unindented.kind = e.kind := by
  unfold unindented
  split <;> rfl

namespace ReadState
variable {s : ReadState} {l l' : List Char} {ls ls' : List (List Char)}

/-- Lines that are the same but for blanks lead to the same state, or to the same error. -/
lemma step_congr (s : ReadState) (h : Text.trim l = Text.trim l') :
    (∃ t, s.step l = .ok t ∧ s.step l' = .ok t) ∨
      ∃ e e', s.step l = .error e ∧ s.step l' = .error e' ∧ e.unindented = e'.unindented := by
  cases hphase : s.phase with
  | signature name =>
    simp only [step, hphase, ← signatureParams?_congr h]
    cases signatureParams? l with
    | some params => exact Or.inl ⟨_, rfl, rfl⟩
    | none =>
      -- Only here a line is quoted as it is.
      refine Or.inr ⟨_, _, rfl, rfl, ?_⟩
      simp only [ReadError.unindented, String.toList_ofList, h]
  | between | inside =>
    have hsame : s.step l' = s.step l := by simp only [step, hphase, Item.ofLine_congr h]
    rw [hsame]
    cases s.step l with
    | ok t => exact Or.inl ⟨t, rfl, rfl⟩
    | error e => exact Or.inr ⟨e, e, rfl, rfl, rfl⟩

/-- Lines that are the same but for blanks are read in the same way. -/
lemma steps_congr (s : ReadState) (h : ls.map Text.trim = ls'.map Text.trim) :
    (s.steps ls).1 = (s.steps ls').1 ∧
      (s.steps ls).2.map ReadError.unindented = (s.steps ls').2.map ReadError.unindented := by
  induction ls generalizing s ls' with
  | nil =>
    obtain rfl := List.map_eq_nil_iff.mp h.symm
    exact ⟨rfl, rfl⟩
  | cons l ls ih =>
    obtain ⟨l', ls', rfl, hl, hls⟩ := List.map_eq_cons_iff.mp h.symm
    rw [steps, steps]
    rcases s.step_congr hl.symm with ⟨t, ht, ht'⟩ | ⟨e, e', he, he', heq⟩
    · rw [ht, ht']
      exact ih t hls.symm
    · rw [he, he']
      exact ⟨rfl, congrArg some heq⟩

end ReadState

/-- The text with a carriage return before every line feed. -/
def Text.withReturns (s : List Char) : List Char :=
  s.flatMap fun c => if c = '\n' then ['\r', '\n'] else [c]

/-- Every line of the text is short enough to be read. -/
def Text.Readable (s : List Char) : Prop := ∀ l ∈ rawLines s, bytes l < lineLimit

instance (s : List Char) : Decidable (Text.Readable s) :=
  inferInstanceAs (Decidable (∀ l ∈ Text.rawLines s, _))

/-- Two readings with the same outcome: the same functions, or an error of the same kind on the same
line, which is even the same error but for blanks around a signature. What is reported of skipped
lines is the same in either case. -/
structure Reading.Alike (r q : Reading) : Prop where
  skipped : r.skipped = q.skipped
  result : (∃ p, r.result = .ok p ∧ q.result = .ok p) ∨
    ∃ e e', r.result = .error e ∧ q.result = .error e' ∧ e.kind = e'.kind ∧
      e.unindented = e'.unindented

lemma Reading.Alike.result_eq_ok {r q : Reading} {p : Program} (h : r.Alike q)
    (hr : r.result = .ok p) : q.result = .ok p := by
  rcases h.result with ⟨p', hp, hq⟩ | ⟨e, e', he, -⟩
  · cases hr.symm.trans hp
    exact hq
  · cases hr.symm.trans he

namespace Text
variable {s : List Char}

lemma Readable.readLines_eq (h : Readable s) :
    readLines s = ⟨(rawLines s).map dropReturns, false⟩ := by
  have hfits : ∀ l ∈ rawLines s, fits l = true := fun l hl => decide_eq_true (h l hl)
  rw [readLines, List.takeWhile_eq_self_iff.mpr hfits, List.all_eq_true.mpr hfits, Bool.not_true]

lemma forall₂_rawLinesFrom_withReturns (cur s : List Char) :
    List.Forall₂ (fun l l' => l' = l ∨ l' = l ++ ['\r']) (rawLinesFrom cur s)
      (rawLinesFrom cur (withReturns s)) := by
  induction s generalizing cur with
  | nil => exact List.forall₂_same.mpr fun l _ => Or.inl rfl
  | cons c cs ih =>
    rw [withReturns, List.flatMap_cons, ← withReturns, rawLinesFrom]
    by_cases hc : c = '\n'
    · rw [if_pos hc, if_pos hc]
      exact .cons (Or.inr List.reverse_cons) (ih [])
    · rw [if_neg hc, if_neg hc, List.singleton_append, rawLinesFrom, if_neg hc]
      exact ih _

lemma map_trim_withReturns (s : List Char) :
    (rawLines s).map trim = (rawLines (withReturns s)).map trim := by
  have hlines := forall₂_rawLinesFrom_withReturns [] s
  have hblank : ∀ c ∈ ['\r'], isBlank c = true := by
    intro c hc
    rw [List.mem_singleton.mp hc]
    decide
  rw [← List.forall₂_eq_eq_eq, List.forall₂_map_left_iff, List.forall₂_map_right_iff]
  refine hlines.imp fun l l' h => ?_
  rcases h with rfl | rfl
  · rfl
  · exact (trimBy_append_right hblank).symm

lemma bytes_le_append (s u : List Char) : bytes s ≤ bytes (s ++ u) := by
  induction s with
  | nil => exact Nat.zero_le _
  | cons c s ih => exact Nat.add_le_add_left ih c.utf8Size

lemma Readable.of_withReturns (h : Readable (withReturns s)) : Readable s := by
  intro l hl
  have hlines := forall₂_rawLinesFrom_withReturns [] s
  obtain ⟨⟨i, hi⟩, rfl⟩ := List.get_of_mem hl
  have hi' : i < (rawLines (withReturns s)).length := hlines.length_eq ▸ hi
  have hbound := h _ (List.get_mem _ ⟨i, hi'⟩)
  rcases hlines.get hi hi' with heq | heq
  · exact heq ▸ hbound
  · exact lt_of_le_of_lt (bytes_le_append _ ['\r']) (heq ▸ hbound)

end Text

section
variable {t u : String}

lemma readProgram_alike (ht : Text.Readable t.toList) (hu : Text.Readable u.toList)
    (h : (Text.rawLines t.toList).map Text.trim = (Text.rawLines u.toList).map Text.trim) :
    (readProgram t).Alike (readProgram u) := by
  have hlines : ((Text.rawLines t.toList).map Text.dropReturns).map Text.trim =
      ((Text.rawLines u.toList).map Text.dropReturns).map Text.trim := by
    simp only [List.map_map, Function.comp_def, Text.trim_dropReturns, h]
  obtain ⟨hstate, herror⟩ := ReadState.steps_congr {} hlines
  constructor
  · rw [Reading.skipped, Reading.skipped, events_readProgram, events_readProgram, ht.readLines_eq,
      hu.readLines_eq, hstate]
  · simp only [readProgram, ht.readLines_eq, hu.readLines_eq, ← hstate]
    generalize ReadState.steps {} ((Text.rawLines t.toList).map _) = x at herror ⊢
    generalize (ReadState.steps {} ((Text.rawLines u.toList).map _)).2 = e' at herror ⊢
    obtain ⟨s, e⟩ := x
    cases e with
    | some e =>
      obtain ⟨e', rfl, heq⟩ := Option.map_eq_some_iff.mp herror.symm
      refine Or.inr ⟨e, e', rfl, rfl, ?_, heq.symm⟩
      rw [← e.kind_unindented, ← heq, e'.kind_unindented]
    | none =>
      obtain rfl := Option.map_eq_none_iff.mp herror.symm
      cases hend : s.endError? false with
      | some e => exact Or.inr ⟨e, e, rfl, rfl, rfl, rfl⟩
      | none => exact Or.inl ⟨_, rfl, rfl⟩

end

/-- Blanks around lines have no influence. Two texts of short enough lines that are the same line by
line once they are trimmed are read alike. In particular carriage returns before the line feeds make
no difference. -/
theorem readProgram_ignores_indentation :
    (∀ t u : String, Text.Readable t.toList → Text.Readable u.toList →
      (Text.rawLines t.toList).map Text.trim = (Text.rawLines u.toList).map Text.trim →
      (readProgram t).Alike (readProgram u)) ∧
    ∀ t : String, Text.Readable (Text.withReturns t.toList) →
      (readProgram t).Alike (readProgram (String.ofList (Text.withReturns t.toList))) := by
  refine ⟨fun t u => readProgram_alike, fun t h => readProgram_alike h.of_withReturns ?_ ?_⟩
  · rwa [String.toList_ofList]
  · rw [String.toList_ofList]
    exact Text.map_trim_withReturns t.toList

/-- A function that returns at once, with blanks of several kinds around its lines. -/
def indentedLines : List String :=
  ["\t#start_function f\n", "  int f()\r\n", " return \n", "\u3000#end_function\r"]

def indentedText : String := String.ofList (indentedLines.flatMap String.toList)

theorem readProgram_ignores_indentation_stub :
    let t := stubText "" "f" ""
    let u := String.ofList (Text.withReturns t.toList)
    Text.Readable t.toList ∧ Text.Readable indentedText.toList ∧ Text.Readable u.toList ∧
    (Text.rawLines t.toList).map Text.trim = (Text.rawLines indentedText.toList).map Text.trim ∧
    (readProgram t).result = .ok (stubs ["f"]) ∧
    (readProgram indentedText).result = .ok (stubs ["f"]) ∧
    (readProgram u).result = .ok (stubs ["f"]) := by
  intro t u
  have ht : t.toList = (stubLines "" "f" "").flatMap String.toList := toList_stubText "" "f" ""
  have hindented : indentedText.toList = indentedLines.flatMap String.toList :=
    String.toList_ofList
  have hread : (readProgram t).result = .ok (stubs ["f"]) := by
    rw [readProgram, ht]
    decide +kernel
  have hlines : Text.Readable t.toList ∧ Text.Readable indentedText.toList ∧
      Text.Readable (Text.withReturns t.toList) ∧
      (Text.rawLines t.toList).map Text.trim =
        (Text.rawLines indentedText.toList).map Text.trim := by
    rw [ht, hindented]
    decide +kernel
  obtain ⟨hshort, hshort', hreturns, htrim⟩ := hlines
  have hu : u.toList = Text.withReturns t.toList := String.toList_ofList
  obtain ⟨hall, hcrlf⟩ := readProgram_ignores_indentation
  exact ⟨hshort, hshort', hu ▸ hreturns, htrim, hread,
    (hall t indentedText hshort hshort' htrim).result_eq_ok hread,
    (hcrlf t hreturns).result_eq_ok hread⟩

end MipsBackend
