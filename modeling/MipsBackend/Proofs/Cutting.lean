import Mathlib.Data.List.TakeWhile
import Mathlib.Tactic.Lemma
import MipsBackend.Text.Lines
import MipsBackend.Text.Numeral

/-! Cutting undoes putting together: texts that were joined with a separator, a blank or a line
feed fall into the same parts again. -/
namespace MipsBackend.Text
variable {p : Char → Bool} {sep c : Char} {s w u : List Char} {ps ls : List (List Char)}

lemma isBlank_of_all (h : (s.all fun c => !isBlank c) = true) : ∀ c ∈ s, isBlank c = false := by
  simpa using h

/-! ### Trimming -/

lemma dropWhile_of_head? (h : ∀ c ∈ s.head?, p c = false) : s.dropWhile p = s := by
  cases s with
  | nil => rfl
  | cons c cs => exact List.dropWhile_cons_of_neg (by simp [h c rfl])

lemma trimRight_of_getLast? (h : ∀ c ∈ s.getLast?, p c = false) : trimRight p s = s := by
  rw [trimRight, dropWhile_of_head? (by simpa using h), List.reverse_reverse]

/-- Only the ends of a text matter when it is trimmed. -/
lemma trimBy_of_ends (hfirst : ∀ c ∈ s.head?, p c = false)
    (hlast : ∀ c ∈ s.getLast?, p c = false) : trimBy p s = s := by
  rw [trimBy, dropWhile_of_head? hfirst, trimRight_of_getLast? hlast]

lemma trimBy_of_forall (h : ∀ c ∈ s, p c = false) : trimBy p s = s :=
  trimBy_of_ends (fun c hc => h c (List.mem_of_mem_head? hc))
    (fun c hc => h c (List.mem_of_mem_getLast? hc))

lemma trimBy_cons (h : p c = true) : trimBy p (c :: s) = trimBy p s := by
  rw [trimBy, List.dropWhile_cons_of_pos h, trimBy]

/-- Nothing is cut off a text that starts with a word and does not end in a blank. -/
lemma trim_append (hw : w ≠ []) (hword : ∀ c ∈ w, isBlank c = false)
    (hlast : ∀ c ∈ s.getLast?, isBlank c = false) : trim (w ++ s) = w ++ s := by
  refine trimBy_of_ends (fun c hc => ?_) fun c hc => ?_
  · rw [List.head?_append] at hc
    rcases Option.or_eq_some_iff.mp hc with hc | ⟨hnil, -⟩
    · exact hword c (List.mem_of_mem_head? hc)
    · exact absurd (List.head?_eq_none_iff.mp hnil) hw
  · rw [List.getLast?_append] at hc
    rcases Option.or_eq_some_iff.mp hc with hc | ⟨-, hc⟩
    · exact hlast c hc
    · exact hword c (List.mem_of_mem_getLast? hc)

lemma trimRight_append (hw : ∀ c ∈ w, p c = true) : trimRight p (s ++ w) = trimRight p s := by
  rw [trimRight, List.reverse_append, List.dropWhile_append_of_pos (by simpa using hw), trimRight]

lemma trimBy_append_right (hw : ∀ c ∈ w, p c = true) : trimBy p (s ++ w) = trimBy p s := by
  rw [trimBy, trimBy, List.dropWhile_append]
  split
  · next h =>
    have hnil : w.dropWhile p = [] := List.dropWhile_eq_nil_iff.mpr hw
    rw [hnil, List.isEmpty_iff.mp h]
  · exact trimRight_append hw

lemma exists_trimRight_append (p : Char → Bool) (s : List Char) :
    ∃ w, s = trimRight p s ++ w ∧ ∀ c ∈ w, p c = true := by
  refine ⟨(s.reverse.takeWhile p).reverse, ?_, fun c hc => ?_⟩
  · rw [trimRight, ← List.reverse_append, List.takeWhile_append_dropWhile, List.reverse_reverse]
  · exact List.mem_takeWhile_imp (List.mem_reverse.mp hc)

/-- What trimming cuts off. -/
lemma exists_trimBy_append (p : Char → Bool) (s : List Char) :
    ∃ u w, s = u ++ (trimBy p s ++ w) ∧ (∀ c ∈ u, p c = true) ∧ ∀ c ∈ w, p c = true := by
  obtain ⟨w, hw, hblank⟩ := exists_trimRight_append p (s.dropWhile p)
  refine ⟨s.takeWhile p, w, ?_, fun c hc => List.mem_takeWhile_imp hc, hblank⟩
  rw [trimBy, ← hw, List.takeWhile_append_dropWhile]

lemma mem_of_mem_trimBy (h : c ∈ trimBy p s) : c ∈ s := by
  obtain ⟨u, w, hs, -, -⟩ := exists_trimBy_append p s
  rw [hs]
  exact List.mem_append_right u (List.mem_append_left w h)

lemma of_mem_head?_trimBy (h : c ∈ (trimBy p s).head?) : p c = false := by
  obtain ⟨w, hw, -⟩ := exists_trimRight_append p (s.dropWhile p)
  have hhead : (s.dropWhile p).head? = some c := by
    rw [hw, List.head?_append]
    exact Option.or_eq_some_iff.mpr (Or.inl h)
  have hnot := List.head?_dropWhile_not p s
  rwa [hhead] at hnot

lemma of_mem_getLast?_trimBy (h : c ∈ (trimBy p s).getLast?) : p c = false := by
  rw [trimBy, trimRight, List.getLast?_reverse] at h
  have hnot := List.head?_dropWhile_not p (s.dropWhile p).reverse
  rwa [Option.mem_def.mp h] at hnot

/-! ### Marks at the ends -/

lemma afterStart?_eq_none (hw : c ∈ w) (hs : c ∉ s) : afterStart? w s = none := by
  refine Option.eq_none_iff_forall_ne_some.mpr fun r hr => hs ?_
  rw [afterStart?_eq_some.mp hr]
  exact List.mem_append_left r hw

lemma beforeEnd?_append (w s : List Char) : beforeEnd? w (s ++ w) = some s := by
  rw [beforeEnd?, List.reverse_append, afterStart?_eq_some.mpr rfl, Option.map_some,
    List.reverse_reverse]

/-! ### Pieces -/

lemma join_cons (sep : Char) (s : List Char) (ps : List (List Char)) :
    join sep (s :: ps) = s ++ ps.flatMap (sep :: ·) := by
  induction ps generalizing s with
  | nil => simp [join]
  | cons q ps ih => rw [join, ih, List.flatMap_cons, List.cons_append]

lemma piecesFrom_append (h : sep ∉ s) (cur u : List Char) :
    piecesFrom sep cur (s ++ u) = piecesFrom sep (s.reverse ++ cur) u := by
  induction s generalizing cur with
  | nil => rfl
  | cons c s ih =>
    rw [List.mem_cons, not_or] at h
    rw [List.cons_append, piecesFrom, if_neg (Ne.symm h.1), ih h.2, List.reverse_cons,
      List.append_assoc, List.singleton_append]

lemma not_mem_of_mem_piecesFrom {cur q : List Char} (hcur : sep ∉ cur)
    (h : q ∈ piecesFrom sep cur s) : sep ∉ q := by
  induction s generalizing cur with
  | nil =>
    rw [List.mem_singleton.mp h]
    simpa using hcur
  | cons c s ih =>
    rw [piecesFrom] at h
    split at h
    · rcases List.mem_cons.mp h with rfl | h
      · simpa using hcur
      · exact ih List.not_mem_nil h
    · next hc => exact ih (List.not_mem_cons_of_ne_of_not_mem (Ne.symm hc) hcur) h

/-- Splitting undoes joining. -/
lemma pieces_join (hs : sep ∉ s) (hps : ∀ q ∈ ps, sep ∉ q) :
    pieces sep (join sep (s :: ps)) = s :: ps := by
  rw [join_cons, pieces, piecesFrom_append hs, List.append_nil]
  induction ps generalizing s with
  | nil => simp [piecesFrom]
  | cons q ps ih =>
    have hq : sep ∉ q := hps q (by simp)
    rw [List.flatMap_cons, List.cons_append, piecesFrom, if_pos rfl, List.reverse_reverse,
      piecesFrom_append hq, List.append_nil, ih hq fun r hr => hps r (by simp [hr])]

lemma join_map_cons_blank (s : List Char) (ps : List (List Char)) :
    join ',' (s :: ps.map (' ' :: ·)) = [',', ' '].intercalate (s :: ps) := by
  induction ps generalizing s with
  | nil => simp [join]
  | cons q ps ih =>
    rw [List.intercalate_cons_cons, ← ih, List.map_cons, join, join_cons, join_cons]
    simp

lemma intercalate_eq_join (sep : Char) (ps : List (List Char)) :
    [sep].intercalate ps = join sep ps := by
  induction ps with
  | nil => rfl
  | cons q ps ih =>
    cases ps with
    | nil => simp [join]
    | cons r ps => rw [List.intercalate_cons_cons, ih, join, List.append_assoc,
        List.singleton_append]

/-- A joined text ends as its last piece does. -/
lemma getLast?_join (hlast : s ∈ ps.getLast?) (hne : s ≠ []) :
    (join sep ps).getLast? = s.getLast? := by
  induction ps with
  | nil => cases hlast
  | cons q ps ih =>
    cases ps with
    | nil =>
      cases hlast
      rfl
    | cons r ps =>
      have hrest := ih (by simpa using hlast)
      rw [join, List.append_cons, List.getLast?_append, hrest,
        Option.or_of_isSome (by simpa using hne)]

/-! ### Words -/

lemma wordsFrom_append (h : ∀ c ∈ w, isBlank c = false) (cur u : List Char) :
    wordsFrom cur (w ++ u) = wordsFrom (w.reverse ++ cur) u := by
  induction w generalizing cur with
  | nil => rfl
  | cons c w ih =>
    rw [List.cons_append, wordsFrom, if_neg (by simp [h c]), ih fun d hd => h d (by simp [hd]),
      List.reverse_cons, List.append_assoc, List.singleton_append]

lemma words_cons_blank (hc : isBlank c = true) : words (c :: s) = words s := by
  rw [words, wordsFrom, if_pos hc]
  rfl

/-- A word that starts a text and is followed by a blank. -/
lemma words_append (hw : w ≠ []) (h : ∀ c ∈ w, isBlank c = false) (hc : isBlank c = true) :
    words (w ++ c :: s) = w :: words s := by
  have hne : (w.reverse).isEmpty = false := by simpa using hw
  rw [words, wordsFrom_append h, List.append_nil, wordsFrom, if_pos hc, hne, List.reverse_reverse]
  rfl

lemma words_of_forall (hw : w ≠ []) (h : ∀ c ∈ w, isBlank c = false) : words w = [w] := by
  have hne : (w.reverse).isEmpty = false := by simpa using hw
  have happ := wordsFrom_append h [] []
  rw [List.append_nil, List.append_nil] at happ
  rw [words, happ, wordsFrom, hne, List.reverse_reverse]
  rfl

/-! ### Lines -/

lemma rawLinesFrom_append (h : '\n' ∉ s) (cur u : List Char) :
    rawLinesFrom cur (s ++ u) = rawLinesFrom (s.reverse ++ cur) u := by
  induction s generalizing cur with
  | nil => rfl
  | cons c s ih =>
    rw [List.mem_cons, not_or] at h
    rw [List.cons_append, rawLinesFrom, if_neg (Ne.symm h.1), ih h.2, List.reverse_cons,
      List.append_assoc, List.singleton_append]

lemma rawLines_flatMap (h : ∀ l ∈ ls, '\n' ∉ l) : rawLines (ls.flatMap (· ++ ['\n'])) = ls := by
  induction ls with
  | nil => rfl
  | cons l ls ih =>
    have hrest := ih fun l' hl' => h l' (by simp [hl'])
    rw [rawLines] at hrest ⊢
    rw [List.flatMap_cons, List.append_assoc, rawLinesFrom_append (h l (by simp)), List.append_nil,
      List.singleton_append, rawLinesFrom, if_pos rfl, hrest, List.reverse_reverse]

/-- Lines that are written one after another, each short enough and without line breaks, are read
back. -/
lemma readLines_flatMap (h : ∀ l ∈ ls, '\n' ∉ l ∧ '\r' ∉ l ∧ bytes l < lineLimit) :
    readLines (ls.flatMap (· ++ ['\n'])) = ⟨ls, false⟩ := by
  have hfits : ∀ l ∈ ls, fits l = true := fun l hl => decide_eq_true (h l hl).2.2
  have hreturns : ∀ l ∈ ls, dropReturns l = l := by
    refine fun l hl => trimRight_of_getLast? fun c hc => ?_
    have hmem := List.mem_of_mem_getLast? hc
    exact beq_false_of_ne fun he => (h l hl).2.1 (he ▸ hmem)
  rw [readLines, rawLines_flatMap fun l hl => (h l hl).1, List.takeWhile_eq_self_iff.mpr hfits,
    List.map_congr_left hreturns, List.map_id', List.all_eq_true.mpr hfits]
  rfl

/-! ### Numerals -/

lemma digitsFrom_of_isDigit (h : ∀ c ∈ s, c.isDigit = true) (n : Nat) :
    digitsFrom n s = some (Nat.ofDigitChars 10 s n) := by
  induction s generalizing n with
  | nil => rfl
  | cons c s ih =>
    rw [digitsFrom, if_pos (h c (by simp)), ih fun d hd => h d (by simp [hd])]
    rfl

lemma isDigit_of_mem_repr {n : Nat} (h : c ∈ n.repr.toList) : c.isDigit = true := by
  rw [Nat.toList_repr] at h
  exact Nat.isDigit_of_mem_toDigits (b := 10) (n := n) (by decide) (by decide) h

lemma digits?_repr (n : Nat) : digits? n.repr.toList = some n := by
  have hne : n.repr.toList.isEmpty = false := by
    rw [Nat.toList_repr, List.isEmpty_eq_false_iff]
    exact Nat.toDigits_ne_nil
  rw [digits?, hne, if_neg Bool.false_ne_true,
    digitsFrom_of_isDigit fun c hc => isDigit_of_mem_repr hc, Nat.toList_repr,
    Nat.ofDigitChars_ten_toDigits]

/-- A number that fits is read back from its digits. -/
lemma integer?_repr {n : Nat} (h : (n : Int) < wordLimit) :
    integer? n.repr.toList = some (n : Int) := by
  have hword : inWord n = true := by
    simp only [inWord, Bool.and_eq_true, decide_eq_true_eq]
    exact ⟨by unfold wordLimit; omega, h⟩
  have hnone : ∀ c r, n.repr.toList = c :: r → c ≠ '-' ∧ c ≠ '+' := by
    intro c r hcr
    have hc : c.isDigit = true := isDigit_of_mem_repr (by rw [hcr]; exact List.mem_cons_self)
    constructor <;> rintro rfl <;> exact absurd hc (by decide)
  unfold integer? signed?
  split
  · next r hr => exact absurd rfl (hnone _ _ hr).1
  · next r hr => exact absurd rfl (hnone _ _ hr).2
  · rw [digits?_repr]
    change Option.filter inWord (some (n : Int)) = some (n : Int)
    rw [Option.filter_some, hword, if_pos rfl]

end MipsBackend.Text
