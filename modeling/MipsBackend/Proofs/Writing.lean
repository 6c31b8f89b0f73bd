import MipsBackend.Proofs.Collections
import MipsBackend.Proofs.Cutting
import MipsBackend.Reader

/-! Writing programs in the format that the reader takes, and how the reader takes each line that
is written. Names are identifiers; operands are identifiers, numerals or missing. -/
namespace MipsBackend

namespace Text
variable {c : Char} {s : String}

/-- A letter of an identifier: an underscore, a letter of ASCII, or a character beyond ASCII that
is not blank. -/
def isLetter (c : Char) : Bool := c == '_' || c.isAlpha || (decide (0x80 ≤ c.toNat) && !isBlank c)

/-- A letter or underscore, then letters, digits and underscores. -/
def isIdentifier (s : String) : Bool :=
  s.toList.head?.any isLetter && s.toList.all fun c => isLetter c || c.isDigit

/-- A sign or a decimal point. -/
def isSign (c : Char) : Bool := c == '+' || c == '-' || c == '.'

/-- A digit, sign or point, then digits, signs, points, and letters for bases and exponents. -/
def isNumeral (s : String) : Bool :=
  s.toList.head?.any (fun c => c.isDigit || isSign c) &&
    s.toList.all fun c => c.isAlphanum || isSign c

/-- The characters that have a meaning to the reader. -/
def marks : List Char := [',', ':', '(', ')', '[', ']', '#']

/-- A character that the reader takes as it is. -/
def IsPlain (c : Char) : Prop := isBlank c = false ∧ c ∉ marks

lemma isPlain_of_isAlphanum (h : c.isAlphanum = true) : IsPlain c := by
  constructor
  · refine Bool.eq_false_iff.mpr fun hb => ?_
    simp only [isBlank, Bool.or_eq_true, Bool.and_eq_true, decide_eq_true_eq, beq_iff_eq] at hb
    change ((decide ('A'.val ≤ c.val ∧ c.val ≤ 'Z'.val) ||
      (decide ('a'.val ≤ c.val) && decide (c.val ≤ 'z'.val))) ||
      (decide ('0'.val ≤ c.val) && decide (c.val ≤ '9'.val))) = true at h
    simp only [UInt32.le_iff_toNat_le, Bool.or_eq_true, Bool.and_eq_true, decide_eq_true_eq,
      Char.toNat_val, Char.reduceToNat] at h
    omega
  · have hmarks : (marks.all fun c => !c.isAlphanum) = true := by decide
    exact fun hc => absurd h (by simpa using List.all_eq_true.mp hmarks c hc)

lemma isPlain_of_isDigit (h : c.isDigit = true) : IsPlain c :=
  isPlain_of_isAlphanum (by simp [Char.isAlphanum, h])

lemma isPlain_of_isSign (h : isSign c = true) : IsPlain c := by
  simp only [isSign, Bool.or_eq_true, beq_iff_eq] at h
  rcases h with (rfl | rfl) | rfl <;> exact ⟨by decide, by decide⟩

lemma isPlain_of_isLetter (h : isLetter c = true) : IsPlain c := by
  simp only [isLetter, Bool.or_eq_true, Bool.and_eq_true, beq_iff_eq, decide_eq_true_eq,
    Bool.not_eq_true'] at h
  rcases h with (rfl | h) | ⟨hbeyond, h⟩
  · exact ⟨by decide, by decide⟩
  · exact isPlain_of_isAlphanum (by simp [Char.isAlphanum, h])
  · refine ⟨h, fun hc => ?_⟩
    have hmarks : (marks.all fun c => decide (c.toNat < 0x80)) = true := by decide
    exact absurd (of_decide_eq_true (List.all_eq_true.mp hmarks c hc)) (by omega)

/-- What is known of the characters of an identifier. -/
lemma isPlain_of_isIdentifier (h : isIdentifier s = true) (hc : c ∈ s.toList) : IsPlain c := by
  have hall := List.all_eq_true.mp (Bool.and_eq_true_iff.mp h).2 c hc
  rcases Bool.or_eq_true_iff.mp hall with hc | hc
  · exact isPlain_of_isLetter hc
  · exact isPlain_of_isDigit hc

lemma hyphen_not_mem (h : isIdentifier s = true) : '-' ∉ s.toList := fun hc =>
  absurd (List.all_eq_true.mp (Bool.and_eq_true_iff.mp h).2 _ hc) (by decide)

lemma toList_ne_nil (h : isIdentifier s = true) : s.toList ≠ [] := by
  intro he
  simp [isIdentifier, he] at h

lemma isPlain_of_isNumeral (h : isNumeral s = true) (hc : c ∈ s.toList) : IsPlain c := by
  have hall := List.all_eq_true.mp (Bool.and_eq_true_iff.mp h).2 c hc
  rcases Bool.or_eq_true_iff.mp hall with hc | hc
  · exact isPlain_of_isAlphanum hc
  · exact isPlain_of_isSign hc

lemma IsPlain.isPadding (h : IsPlain c) : Instruction.isPadding c = false := by
  refine Bool.eq_false_iff.mpr fun hc => ?_
  simp only [Instruction.isPadding, Bool.or_eq_true, beq_iff_eq] at hc
  rcases hc with ((rfl | rfl) | rfl) | rfl
  · exact absurd h.1 (by decide)
  · exact absurd h.1 (by decide)
  · exact h.2 (by decide)
  · exact absurd h.1 (by decide)

end Text

/-! ### The written form -/

namespace Instruction

/-- An operand that can be written: none, an identifier or a numeral. -/
def isOperand (a : String) : Bool := a == "" || Text.isIdentifier a || Text.isNumeral a

structure Writable (i : Instruction) : Prop where
  op : i.op.isKnown = true
  args : ∀ a ∈ i.args, isOperand a = true
  label : ∀ l ∈ i.label, Text.isIdentifier l = true

instance (i : Instruction) : Decidable i.Writable :=
  decidable_of_iff (i.op.isKnown = true ∧ (∀ a ∈ i.args, isOperand a = true) ∧
      ∀ l ∈ i.label, Text.isIdentifier l = true)
    ⟨fun h => ⟨h.1, h.2.1, h.2.2⟩, fun h => ⟨h.op, h.args, h.label⟩⟩

/-- The lines of an instruction: its label, if it has one, and its text. -/
def lines (i : Instruction) : List String := (i.label.map (· ++ ":")).toList ++ [i.text]

end Instruction

namespace FunctionDef

/-- Names are identifiers, and arrays are declared and have a size that fits. -/
structure Writable (f : FunctionDef) : Prop where
  name : Text.isIdentifier f.name = true
  params : ∀ v ∈ f.params, Text.isIdentifier v = true
  vars : ∀ v ∈ f.ints ++ f.floats, Text.isIdentifier v = true
  arrays : ∀ e ∈ f.arrays.entries, e.1 ∈ f.ints ++ f.floats ∧ 1 ≤ e.2 ∧ e.2 < Text.wordLimit
  code : ∀ i ∈ f.code, i.Writable

instance (f : FunctionDef) : Decidable f.Writable :=
  decidable_of_iff (Text.isIdentifier f.name = true ∧
      (∀ v ∈ f.params, Text.isIdentifier v = true) ∧
      (∀ v ∈ f.ints ++ f.floats, Text.isIdentifier v = true) ∧
      (∀ e ∈ f.arrays.entries, e.1 ∈ f.ints ++ f.floats ∧ 1 ≤ e.2 ∧ e.2 < Text.wordLimit) ∧
      ∀ i ∈ f.code, i.Writable)
    ⟨fun h => ⟨h.1, h.2.1, h.2.2.1, h.2.2.2.1, h.2.2.2.2⟩,
      fun h => ⟨h.name, h.params, h.vars, h.arrays, h.code⟩⟩

def signature (f : FunctionDef) : String :=
  "int " ++ f.name ++ "(" ++ ", ".intercalate (f.params.map ("int " ++ ·)) ++ ")"

/-- A declared name, with its size if it is an array. -/
def declaration (f : FunctionDef) (v : String) : String :=
  (f.arrays.get? v).elim v fun n => v ++ "[" ++ toString n ++ "]"

def declarations (f : FunctionDef) (names : List String) : String :=
  ",".intercalate (names.map fun v => " " ++ f.declaration v)

/-- The lines in front of the code. -/
def heading (f : FunctionDef) : List String :=
  ["#start_function " ++ f.name, f.signature, "int-list:" ++ f.declarations f.ints,
    "float-list:" ++ f.declarations f.floats]

/-- The lines of a function but the last. -/
def body (f : FunctionDef) : List String := f.heading ++ f.code.flatMap Instruction.lines

def lines (f : FunctionDef) : List String := f.body ++ ["#end_function"]

lemma length_lines (f : FunctionDef) : f.lines.length = f.body.length + 1 := by simp [lines]

end FunctionDef

/-- Write functions one after another. -/
def writeProgram (fs : List FunctionDef) : String :=
  String.join ((fs.flatMap FunctionDef.lines).map (· ++ "\n"))

/-! ### Reading a line back -/

lemma Opcode.isPlain_name {op : Opcode} (h : op.isKnown = true) :
    ∀ c ∈ op.name.toList, Text.IsPlain c := by
  have hall : ∀ op ∈ all, op.name.toList.all Text.isLetter = true := by decide +kernel
  exact fun c hc => Text.isPlain_of_isLetter (List.all_eq_true.mp (hall op (mem_all.mpr h)) c hc)

lemma Opcode.name_ne_nil {op : Opcode} (h : op.isKnown = true) : op.name.toList ≠ [] := by
  have hall : ∀ op ∈ all, op.name.toList ≠ [] := by decide +kernel
  exact hall op (mem_all.mpr h)

namespace Instruction
variable {i : Instruction} {a : String}

/-- The operands that are written: all but the empty ones at the end. -/
def given (i : Instruction) : List String := (i.args.reverse.dropWhile (· = "")).reverse

lemma mem_args_of_mem_given (h : a ∈ i.given) : a ∈ i.args := by
  rw [given, List.mem_reverse] at h
  exact List.mem_reverse.mp ((List.dropWhile_sublist _).subset h)

lemma ne_empty_of_mem_getLast?_given (h : a ∈ i.given.getLast?) : a ≠ "" := by
  have hnot := List.head?_dropWhile_not (fun x : String => decide (x = "")) i.args.reverse
  rw [given, List.getLast?_reverse] at h
  rw [Option.mem_def.mp h] at hnot
  simpa using hnot

lemma getD_given (i : Instruction) (n : Nat) : i.given.getD n "" = i.args.getD n "" := by
  obtain ⟨op, x, y, z, label⟩ := i
  by_cases hz : z = "" <;> by_cases hy : y = "" <;> by_cases hx : x = "" <;>
    rcases n with _ | _ | _ | n <;> simp [given, args, hx, hy, hz]

lemma toList_text (i : Instruction) : i.text.toList =
    Text.join ',' (i.op.name.toList :: i.given.map fun a => ' ' :: a.toList) := by
  have htext : i.text = i.op.name ++ String.join (i.given.map (", " ++ ·)) := rfl
  rw [htext, String.toList_append, String.toList_join, Text.join_cons, List.flatMap_map,
    List.flatMap_map]
  congr 1
  exact List.flatMap_congr fun a _ => String.toList_append

lemma isPlain_of_isOperand (h : isOperand a = true) : ∀ c ∈ a.toList, Text.IsPlain c := by
  intro c hc
  simp only [isOperand, Bool.or_eq_true, beq_iff_eq] at h
  rcases h with (rfl | h) | h
  · cases hc
  · exact Text.isPlain_of_isIdentifier h hc
  · exact Text.isPlain_of_isNumeral h hc

/-- An instruction is read back from its text, if its operands have no commas and nothing at
their ends that is cut off. -/
lemma ofChars_text (hop : i.op.isKnown = true) (hargs : ∀ a ∈ i.args,
    ',' ∉ a.toList ∧ Text.trimBy isPadding a.toList = a.toList) :
    ofChars i.text.toList = .ok { i with label := none } := by
  have hname : ',' ∉ i.op.name.toList := fun hc =>
    (Opcode.isPlain_name hop _ hc).2 (by decide)
  have hpieces : Text.pieces ',' i.text.toList =
      i.op.name.toList :: i.given.map fun a => ' ' :: a.toList := by
    rw [toList_text]
    refine Text.pieces_join hname fun q hq => ?_
    obtain ⟨a, ha, rfl⟩ := List.mem_map.mp hq
    simpa using (hargs a (mem_args_of_mem_given ha)).1
  have hop' : field (Text.pieces ',' i.text.toList) 0 = i.op.name := by
    rw [hpieces, field, List.getD_cons_zero, Text.trimBy_of_forall, String.ofList_toList]
    exact fun c hc => (Opcode.isPlain_name hop c hc).isPadding
  have harg : ∀ n, field (Text.pieces ',' i.text.toList) (n + 1) = i.args.getD n "" := by
    intro n
    rw [hpieces, field, List.getD_cons_succ, ← getD_given, List.getD_eq_getElem?_getD,
      List.getD_eq_getElem?_getD, List.getElem?_map]
    cases hn : i.given[n]? with
    | none => rfl
    | some a =>
      have ha : a ∈ i.args := mem_args_of_mem_given (List.mem_of_getElem? hn)
      rw [Option.map_some, Option.getD_some, Text.trimBy_cons (by decide), (hargs a ha).2,
        String.ofList_toList, Option.getD_some]
  rw [ofChars]
  simp only [hop', Opcode.ofName?_name hop, harg]
  rfl

lemma Writable.ofChars_text (h : i.Writable) :
    ofChars i.text.toList = .ok { i with label := none } := by
  refine Instruction.ofChars_text h.op fun a ha => ?_
  have hplain := isPlain_of_isOperand (h.args a ha)
  exact ⟨fun hc => (hplain _ hc).2 (by decide),
    Text.trimBy_of_forall fun c hc => (hplain c hc).isPadding⟩

/-- The characters of the text of an instruction. -/
lemma Writable.mem_text (h : i.Writable) {c : Char} (hc : c ∈ i.text.toList) :
    Text.IsPlain c ∨ c = ',' ∨ c = ' ' := by
  rw [toList_text, Text.join_cons, List.mem_append, List.mem_flatMap] at hc
  rcases hc with hc | ⟨q, hq, hc⟩
  · exact Or.inl (Opcode.isPlain_name h.op c hc)
  · obtain ⟨a, ha, rfl⟩ := List.mem_map.mp hq
    rcases List.mem_cons.mp hc with rfl | hc
    · exact Or.inr (Or.inl rfl)
    · rcases List.mem_cons.mp hc with rfl | hc
      · exact Or.inr (Or.inr rfl)
      · exact Or.inl (isPlain_of_isOperand (h.args a (mem_args_of_mem_given ha)) c hc)

lemma Writable.trim_text (h : i.Writable) : Text.trim i.text.toList = i.text.toList := by
  rw [toList_text, Text.join_cons, List.flatMap_map]
  refine Text.trim_append (Opcode.name_ne_nil h.op)
    (fun c hc => (Opcode.isPlain_name h.op c hc).1) fun c hc => ?_
  rcases List.eq_nil_or_concat i.given with hnil | ⟨as, a, hlast⟩
  · rw [hnil] at hc
    cases hc
  · -- The last operand that is written is not empty.
    have hne : a.toList ≠ [] := by
      simpa using ne_empty_of_mem_getLast?_given (i := i) (a := a) (by simp [hlast])
    have ha : a ∈ i.args := mem_args_of_mem_given (by simp [hlast])
    have htail : i.given.flatMap (fun b => ',' :: ' ' :: b.toList) =
        as.flatMap (fun b => ',' :: ' ' :: b.toList) ++ [',', ' '] ++ a.toList := by
      simp [hlast]
    rw [htail, List.getLast?_append_of_ne_nil _ hne] at hc
    exact (isPlain_of_isOperand (h.args a ha) c (List.mem_of_mem_getLast? hc)).1

end Instruction

namespace Item

lemma ofLine_eq {t : List Char} (hne : t ≠ []) (h : Text.trim t = t) :
    ofLine t = ofTrimmed t := by
  rw [ofLine, h]
  exact if_neg (by simpa using hne)

lemma ofLine_append {w s : List Char} (hw : w ≠ []) (hword : ∀ c ∈ w, Text.isBlank c = false)
    (hlast : ∀ c ∈ s.getLast?, Text.isBlank c = false) : ofLine (w ++ s) = ofTrimmed (w ++ s) :=
  ofLine_eq (List.append_ne_nil_of_left_ne_nil hw s) (Text.trim_append hw hword hlast)

lemma ofLine_start {name : String} (h : Text.isIdentifier name = true) :
    ofLine ("#start_function " ++ name).toList = .start name := by
  have hline : ("#start_function " ++ name).toList = startMark ++ ' ' :: name.toList := by
    have hmark : "#start_function ".toList = startMark ++ [' '] := by decide
    rw [String.toList_append, hmark, List.append_assoc, List.singleton_append]
  have hplain : ∀ c ∈ name.toList, Text.isBlank c = false :=
    fun c hc => (Text.isPlain_of_isIdentifier h hc).1
  have hlast : ∀ c ∈ (' ' :: name.toList).getLast?, Text.isBlank c = false := by
    intro c hc
    rw [List.getLast?_cons_of_ne_nil (Text.toList_ne_nil h)] at hc
    exact hplain c (List.mem_of_mem_getLast? hc)
  have hname : Text.trim (' ' :: name.toList) = name.toList := by
    rw [Text.trim, Text.trimBy_cons (by decide), Text.trimBy_of_forall hplain]
  rw [hline, ofLine_append (by decide) (Text.isBlank_of_all (by decide)) hlast, ofTrimmed,
    Text.afterStart?_eq_some.mpr rfl]
  dsimp only
  rw [hname, String.ofList_toList]

lemma ofLine_end : ofLine "#end_function".toList = .finish := by decide +kernel

lemma ofLine_int {list : List Char} (hlast : ∀ c ∈ list.getLast?, Text.isBlank c = false) :
    ofLine (intMark ++ list) = .declarations .int list := by
  have hstart : Text.afterStart? startMark (intMark ++ list) = none := rfl
  have hend : Text.afterStart? endMark (intMark ++ list) = none := rfl
  rw [ofLine_append (by decide) (Text.isBlank_of_all (by decide)) hlast, ofTrimmed, hstart, hend,
    Text.afterStart?_eq_some.mpr rfl]
  rfl

lemma ofLine_float {list : List Char} (hlast : ∀ c ∈ list.getLast?, Text.isBlank c = false) :
    ofLine (floatMark ++ list) = .declarations .float list := by
  have hstart : Text.afterStart? startMark (floatMark ++ list) = none := rfl
  have hend : Text.afterStart? endMark (floatMark ++ list) = none := rfl
  have hint : Text.afterStart? intMark (floatMark ++ list) = none := rfl
  rw [ofLine_append (by decide) (Text.isBlank_of_all (by decide)) hlast, ofTrimmed, hstart, hend,
    hint, Text.afterStart?_eq_some.mpr rfl]
  rfl

/-- A line without the characters of the other marks is a label or code. -/
lemma ofTrimmed_of_not_mem {t : List Char} (hhash : '#' ∉ t) (hmark : '-' ∉ t ∨ ':' ∉ t) :
    ofTrimmed t = (Text.beforeEnd? [':'] t).elim (.code t) fun name =>
      .label (String.ofList (Text.trim name)) := by
  have hlist : Text.afterStart? intMark t = none ∧ Text.afterStart? floatMark t = none := by
    rcases hmark with h | h
    · exact ⟨Text.afterStart?_eq_none (c := '-') (by decide) h,
        Text.afterStart?_eq_none (c := '-') (by decide) h⟩
    · exact ⟨Text.afterStart?_eq_none (c := ':') (by decide) h,
        Text.afterStart?_eq_none (c := ':') (by decide) h⟩
  rw [ofTrimmed, Text.afterStart?_eq_none (c := '#') (by decide) hhash,
    Text.afterStart?_eq_none (c := '#') (by decide) hhash, hlist.1, hlist.2]
  cases Text.beforeEnd? [':'] t <;> rfl

lemma ofLine_label {name : String} (h : Text.isIdentifier name = true) :
    ofLine (name ++ ":").toList = .label name := by
  have hplain := fun c (hc : c ∈ name.toList) => Text.isPlain_of_isIdentifier h hc
  have hline : (name ++ ":").toList = name.toList ++ [':'] := String.toList_append
  have hhash : '#' ∉ name.toList ++ [':'] := by
    simpa using fun hc => (hplain _ hc).2 (by decide)
  have hhyphen : '-' ∉ name.toList ++ [':'] := by simpa using Text.hyphen_not_mem h
  have hname : Text.trim name.toList = name.toList :=
    Text.trimBy_of_forall fun c hc => (hplain c hc).1
  have hlast : ∀ c ∈ [':'].getLast?, Text.isBlank c = false := by
    rintro c ⟨rfl⟩
    decide
  rw [hline, ofLine_append (Text.toList_ne_nil h) (fun c hc => (hplain c hc).1) hlast,
    ofTrimmed_of_not_mem hhash (Or.inl hhyphen),
    Text.beforeEnd?_append, Option.elim_some, hname, String.ofList_toList]

lemma ofLine_code {i : Instruction} (h : i.Writable) :
    ofLine i.text.toList = .code i.text.toList := by
  have hmark : ∀ c ∈ Text.marks, c ≠ ',' → c ∉ i.text.toList := by
    intro c hc hne hmem
    rcases h.mem_text hmem with hplain | rfl | rfl
    · exact hplain.2 hc
    · exact hne rfl
    · exact absurd hc (by decide)
  have hcolon := hmark ':' (by decide) (by decide)
  have hend : Text.beforeEnd? [':'] i.text.toList = none := by
    rw [Text.beforeEnd?, Text.afterStart?_eq_none (c := ':') (by decide) (by simpa using hcolon)]
    rfl
  have hne : i.text.toList ≠ [] := by
    rw [Instruction.toList_text, Text.join_cons]
    simp [Opcode.name_ne_nil h.op]
  rw [ofLine_eq hne h.trim_text,
    ofTrimmed_of_not_mem (hmark '#' (by decide) (by decide)) (Or.inr hcolon), hend]
  rfl

end Item

/-! ### Reading the heading of a function back -/

lemma parenthesized?_append {w inner : List Char} (hw : '(' ∉ w) :
    parenthesized? (w ++ '(' :: (inner ++ [')'])) = some inner := by
  have hskip : ∀ c ∈ w, decide (c ≠ '(') = true :=
    fun c hc => decide_eq_true fun he => hw (he ▸ hc)
  have hopen : (w ++ '(' :: (inner ++ [')'])).dropWhile (· ≠ '(') = '(' :: (inner ++ [')']) := by
    rw [List.dropWhile_append_of_pos hskip, List.dropWhile_cons_of_neg (by decide)]
  rw [parenthesized?, hopen]
  dsimp only
  rw [List.reverse_append, List.reverse_singleton, List.singleton_append,
    List.dropWhile_cons_of_neg (by decide)]
  simp

namespace FunctionDef
variable {f d : FunctionDef} {v : String} {names : List String} {type : VarType}

lemma toList_signature (f : FunctionDef) : f.signature.toList =
    ("int ".toList ++ f.name.toList) ++ '(' ::
      ([',', ' '].intercalate (f.params.map fun v => "int ".toList ++ v.toList) ++ [')']) := by
  have hparams : (", ".intercalate (f.params.map ("int " ++ ·))).toList =
      [',', ' '].intercalate (f.params.map fun v => "int ".toList ++ v.toList) := by
    rw [String.toList_intercalate, List.map_map]
    congr 1
    exact List.map_congr_left fun v _ => String.toList_append
  simp only [signature, String.toList_append, hparams, List.append_assoc]
  rfl

lemma getLast?_words (h : Text.isIdentifier v = true) :
    (Text.words ("int ".toList ++ v.toList)).getLast?.map String.ofList = some v := by
  have hwords : Text.words ("int".toList ++ ' ' :: v.toList) = ["int".toList, v.toList] := by
    rw [Text.words_append (by decide) (Text.isBlank_of_all (by decide)) (by decide),
      Text.words_of_forall (Text.toList_ne_nil h)
        fun c hc => (Text.isPlain_of_isIdentifier h hc).1]
  have hsplit : "int ".toList ++ v.toList = "int".toList ++ ' ' :: v.toList := rfl
  rw [hsplit, hwords]
  exact congrArg some String.ofList_toList

lemma filterMap_pieces {vs : List String} (h : ∀ v ∈ vs, Text.isIdentifier v = true) :
    (Text.pieces ',' ([',', ' '].intercalate (vs.map fun v => "int ".toList ++ v.toList))).filterMap
      (fun p => (Text.words p).getLast?.map String.ofList) = vs := by
  cases vs with
  | nil => rfl
  | cons v vs =>
    have hcomma : ∀ u ∈ v :: vs, ',' ∉ "int ".toList ++ u.toList := by
      intro u hu
      rw [List.mem_append, not_or]
      exact ⟨by decide, fun hc => (Text.isPlain_of_isIdentifier (h u hu) hc).2 (by decide)⟩
    have hpieces : Text.pieces ',' ([',', ' '].intercalate
        ((v :: vs).map fun u => "int ".toList ++ u.toList)) =
        ("int ".toList ++ v.toList) :: vs.map fun u => ' ' :: ("int ".toList ++ u.toList) := by
      rw [List.map_cons, ← Text.join_map_cons_blank, List.map_map]
      refine Text.pieces_join (hcomma v (by simp)) fun q hq => ?_
      obtain ⟨u, hu, rfl⟩ := List.mem_map.mp hq
      simpa using hcomma u (by simp [hu])
    have hrest : ∀ u ∈ vs,
        (Text.words (' ' :: ("int ".toList ++ u.toList))).getLast?.map String.ofList = some u := by
      intro u hu
      rw [Text.words_cons_blank (by decide), getLast?_words (h u (by simp [hu]))]
    rw [hpieces, List.filterMap_cons, getLast?_words (h v (by simp)), List.filterMap_map]
    exact congrArg (v :: ·) ((List.filterMap_congr hrest).trans List.filterMap_some)

/-- The parameters are read back from the signature. -/
lemma Writable.signatureParams? (hf : f.Writable) :
    signatureParams? f.signature.toList = some f.params := by
  have hopen : '(' ∉ "int ".toList ++ f.name.toList := by
    rw [List.mem_append, not_or]
    exact ⟨by decide, fun hc => (Text.isPlain_of_isIdentifier hf.name hc).2 (by decide)⟩
  rw [MipsBackend.signatureParams?, toList_signature, parenthesized?_append hopen, Option.map_some,
    filterMap_pieces hf.params]

lemma declaration_of_none (h : f.arrays.get? v = none) : f.declaration v = v := by
  rw [declaration, h, Option.elim_none]

lemma toList_declaration {n : Nat} (h : f.arrays.get? v = some (n : Int)) :
    (f.declaration v).toList = v.toList ++ '[' :: (n.repr.toList ++ [']']) := by
  have htext : f.declaration v = v ++ "[" ++ n.repr ++ "]" := by
    rw [declaration, h, Option.elim_some]
    rfl
  rw [htext, String.toList_append, String.toList_append, String.toList_append, List.append_assoc,
    List.append_assoc]
  rfl

/-- The size of an array is a number that fits. -/
lemma Writable.size (hd : d.Writable) {n : Int} (h : d.arrays.get? v = some n) :
    ∃ k : Nat, n = k ∧ 1 ≤ k ∧ (k : Int) < Text.wordLimit := by
  obtain ⟨-, hpos, hlt⟩ := hd.arrays _ (OrdMap.get?_eq_some_iff.mp h)
  obtain ⟨k, rfl⟩ := Int.eq_ofNat_of_zero_le (by omega : 0 ≤ n)
  exact ⟨k, rfl, by omega, hlt⟩

/-- The characters of a declaration. -/
lemma Writable.mem_declaration (hd : d.Writable) (hv : v ∈ d.ints ++ d.floats) {c : Char}
    (hc : c ∈ (d.declaration v).toList) : Text.isBlank c = false ∧ c ≠ ',' := by
  have hplain : ∀ c, Text.IsPlain c → Text.isBlank c = false ∧ c ≠ ',' := by
    rintro c ⟨hblank, hmark⟩
    exact ⟨hblank, by rintro rfl; exact hmark (by decide)⟩
  have hname : ∀ c ∈ v.toList, Text.isBlank c = false ∧ c ≠ ',' :=
    fun c hc => hplain c (Text.isPlain_of_isIdentifier (hd.vars v hv) hc)
  cases hn : d.arrays.get? v with
  | none =>
    rw [declaration_of_none hn] at hc
    exact hname c hc
  | some n =>
    obtain ⟨k, rfl, -⟩ := hd.size hn
    rw [toList_declaration hn] at hc
    simp only [List.mem_append, List.mem_cons, List.not_mem_nil, or_false] at hc
    rcases hc with hc | rfl | hc | rfl
    · exact hname c hc
    · decide
    · exact hplain c (Text.isPlain_of_isDigit (Text.isDigit_of_mem_repr hc))
    · decide

lemma Writable.declaration_ne_nil (hd : d.Writable) (hv : v ∈ d.ints ++ d.floats) :
    (d.declaration v).toList ≠ [] := by
  have hne := Text.toList_ne_nil (hd.vars v hv)
  cases hn : d.arrays.get? v with
  | none => rwa [declaration_of_none hn]
  | some n =>
    obtain ⟨k, rfl, -⟩ := hd.size hn
    rw [toList_declaration hn]
    exact List.append_ne_nil_of_left_ne_nil hne _

/-- A declaration is read back with its size. -/
lemma Writable.ofChars_declaration (hd : d.Writable) (hv : v ∈ d.ints ++ d.floats) :
    Declaration.ofChars (' ' :: (d.declaration v).toList) = .ok ⟨v, d.arrays.get? v⟩ := by
  have htrim : Text.trim (' ' :: (d.declaration v).toList) = (d.declaration v).toList := by
    rw [Text.trim, Text.trimBy_cons (by decide)]
    exact Text.trimBy_of_forall fun c hc => (hd.mem_declaration hv hc).1
  have hskip : ∀ c ∈ v.toList, decide (c ≠ '[') = true := by
    refine fun c hc => decide_eq_true ?_
    rintro rfl
    exact (Text.isPlain_of_isIdentifier (hd.vars v hv) hc).2 (by decide)
  rw [Declaration.ofChars, htrim]
  cases hn : d.arrays.get? v with
  | none =>
    rw [declaration_of_none hn, List.dropWhile_eq_nil_iff.mpr hskip]
    dsimp only
    rw [String.ofList_toList]
  | some n =>
    obtain ⟨k, rfl, hpos, hlt⟩ := hd.size hn
    have hne : v.toList.isEmpty = false := by
      simpa using Text.toList_ne_nil (hd.vars v hv)
    rw [toList_declaration hn, List.takeWhile_append_of_pos hskip,
      List.dropWhile_append_of_pos hskip, List.dropWhile_cons_of_neg (by decide),
      List.takeWhile_cons_of_neg (by decide), List.append_nil]
    dsimp only
    rw [hne, Text.beforeEnd?_append, Option.getD_some, Text.integer?_repr hlt]
    dsimp only
    rw [if_neg Bool.false_ne_true, if_neg (by omega), String.ofList_toList]

lemma toList_declarations (d : FunctionDef) (names : List String) : (d.declarations names).toList =
    Text.join ',' (names.map fun v => ' ' :: (d.declaration v).toList) := by
  rw [declarations, String.toList_intercalate, List.map_map]
  refine (Text.intercalate_eq_join ',' _).trans (congrArg _ ?_)
  exact List.map_congr_left fun v _ => String.toList_append

lemma Writable.getLast?_declarations (hd : d.Writable)
    (hnames : ∀ v ∈ names, v ∈ d.ints ++ d.floats) :
    ∀ c ∈ (d.declarations names).toList.getLast?, Text.isBlank c = false := by
  intro c hc
  rw [toList_declarations] at hc
  rcases List.eq_nil_or_concat names with rfl | ⟨vs, v, rfl⟩
  · cases hc
  · have hv := hnames v (by simp)
    rw [Text.getLast?_join (s := ' ' :: (d.declaration v).toList) (by simp) (by simp),
      List.getLast?_cons_of_ne_nil (hd.declaration_ne_nil hv)] at hc
    exact (hd.mem_declaration hv (List.mem_of_mem_getLast? hc)).1

/-- Sizes of the arrays among the names, put into a map. -/
def addSizes (arrays m : NameMap Int) (names : List String) : NameMap Int :=
  names.foldl (fun m v => (arrays.get? v).elim m fun n => m.insert v n) m

lemma get?_addSizes {arrays m : NameMap Int} : (addSizes arrays m names).get? v =
    if v ∈ names then (arrays.get? v).or (m.get? v) else m.get? v := by
  induction names generalizing m with
  | nil => rfl
  | cons u names ih =>
    have hcons : addSizes arrays m (u :: names) =
        addSizes arrays ((arrays.get? u).elim m fun n => m.insert u n) names := rfl
    have hfirst : ((arrays.get? u).elim m fun n => m.insert u n).get? v =
        if v = u then (arrays.get? v).or (m.get? v) else m.get? v := by
      split
      · next h =>
        subst h
        cases arrays.get? v <;> simp
      · next h => cases arrays.get? u <;> simp [h]
    rw [hcons, ih, hfirst]
    by_cases hu : v = u <;> by_cases hnames : v ∈ names <;> cases arrays.get? v <;>
      simp [hu, hnames]

/-- A function with more declarations. -/
def extend (f : FunctionDef) (type : VarType) (names : List String) (arrays : NameMap Int) :
    FunctionDef :=
  match type with
  | .int => { f with ints := f.ints ++ names, arrays := arrays }
  | .float => { f with floats := f.floats ++ names, arrays := arrays }

lemma Writable.declareAll_map (hd : d.Writable) (hnames : ∀ v ∈ names, v ∈ d.ints ++ d.floats) :
    f.declareAll type (names.map fun v => ' ' :: (d.declaration v).toList) =
      .ok (f.extend type names (addSizes d.arrays f.arrays names)) := by
  induction names generalizing f with
  | nil => cases type <;> simp [declareAll, extend, addSizes]
  | cons v names ih =>
    have hv := hnames v (by simp)
    have hne : v ≠ "" := by
      rintro rfl
      exact Text.toList_ne_nil (hd.vars _ hv) rfl
    rw [List.map_cons, declareAll, hd.ofChars_declaration hv]
    dsimp only
    rw [ih fun u hu => hnames u (by simp [hu])]
    cases type <;> simp [declare, extend, addSizes, hne]

/-- A list of declarations is read back. -/
lemma Writable.declareAll_pieces (hd : d.Writable) (hnames : ∀ v ∈ names, v ∈ d.ints ++ d.floats) :
    f.declareAll type (Text.pieces ',' (d.declarations names).toList) =
      .ok (f.extend type names (addSizes d.arrays f.arrays names)) := by
  rw [← hd.declareAll_map hnames, toList_declarations]
  cases names with
  | nil =>
    -- The empty text is read as one declaration without a name.
    have hempty : Declaration.ofChars [] = .ok ⟨"", none⟩ := rfl
    change f.declareAll type [[]] = .ok f
    rw [declareAll, hempty]
    cases type <;> simp [declareAll, declare]
  | cons v names =>
    have hcomma : ∀ u ∈ v :: names, ',' ∉ ' ' :: (d.declaration u).toList := by
      intro u hu
      rw [List.mem_cons, not_or]
      exact ⟨by decide, fun hc => (hd.mem_declaration (hnames u hu) hc).2 rfl⟩
    rw [List.map_cons, Text.pieces_join (hcomma v (by simp)) fun q hq => ?_]
    obtain ⟨u, hu, rfl⟩ := List.mem_map.mp hq
    exact hcomma u (by simp [hu])

/-- All arrays are found with the declared names. -/
lemma Writable.addSizes_eq (hd : d.Writable) :
    addSizes d.arrays (addSizes d.arrays ∅ d.ints) d.floats = d.arrays := by
  refine OrdMap.ext_get? fun v => ?_
  rw [get?_addSizes, get?_addSizes, OrdMap.get?_empty, Option.or_none]
  cases hn : d.arrays.get? v with
  | none => simp
  | some n =>
    have hv := (hd.arrays _ (OrdMap.get?_eq_some_iff.mp hn)).1
    rcases List.mem_append.mp hv with hv | hv <;> simp [hv]

end FunctionDef

end MipsBackend
