import MipsBackend.Text.Blank

/-! Templates. A percent sign starts a directive: flags, the number of an argument in brackets, a
width, a precision after a point, and at the end a letter. Two percent signs stand for one. The
templates here have no arguments, so every other directive shows as a fault. -/
namespace MipsBackend.Template

/-- Whether a character is a flag of a directive. -/
def isFlag (c : Char) : Bool := "#0+- ".toList.contains c

/-- The largest number that may be followed by another digit. -/
def numberLimit : Nat := 1000000

/-- What follows a number, of which the digits worth `n` have been read. A number that is too
large takes all the rest with it. -/
def afterNumber (n : Nat) : List Char → List Char
  | [] => []
  | c :: cs =>
    if !c.isDigit then c :: cs
    else if numberLimit < n then []
    else afterNumber (10 * n + (c.toNat - '0'.toNat)) cs

/-- Whether a text is a number that is not too large, after digits worth `n`. -/
def isNumber (n : Nat) : List Char → Bool
  | [] => true
  | c :: cs =>
    c.isDigit && decide (n ≤ numberLimit) && isNumber (10 * n + (c.toNat - '0'.toNat)) cs

/-- What stands before the first closing bracket, and what follows it. -/
def closing? : List Char → Option (List Char × List Char)
  | [] => none
  | c :: cs =>
    if c = ']' then some ([], cs) else (closing? cs).map fun (inside, rest) => (c :: inside, rest)

/-- A directive that is being read. -/
structure Directive where
  /-- The faults it has shown so far. -/
  shown : List Char
  /-- Whether it asks for an argument by number. There is none. -/
  badIndex : Bool
  /-- Whether the number of an argument has just been read. -/
  afterIndex : Bool
  /-- What has not been read yet. -/
  rest : List Char
  deriving DecidableEq

namespace Directive

/-- Read the number of an argument. One that is not closed, or no number, is a fault too. -/
def index (d : Directive) : Directive :=
  match d.rest with
  | '[' :: cs =>
    let d := { d with badIndex := true, afterIndex := false, rest := cs }
    if cs.length < 2 then d
    else match closing? cs with
      | none => d
      | some (inside, rest) =>
        { d with afterIndex := !inside.isEmpty && isNumber 0 inside, rest := rest }
  | _ => { d with afterIndex := false }

/-- Read a number, or a star, which asks for an argument and shows as `fault`. -/
def number (fault : String) (d : Directive) : Directive :=
  match d.rest with
  | '*' :: cs => { d with shown := d.shown ++ fault.toList, afterIndex := false, rest := cs }
  | cs => { d with rest := afterNumber 0 cs }

/-- Read a precision. -/
def precision (d : Directive) : Directive :=
  match d.rest with
  | '.' :: cs => ({ d with rest := cs }).index.number "%!(BADPREC)"
  | _ => d

/-- Read a directive up to its letter. -/
def read (s : List Char) : Directive :=
  let d : Directive := ⟨[], false, false, s.dropWhile isFlag⟩
  let d := (d.index.number "%!(BADWIDTH)").precision
  if d.afterIndex then d else d.index

/-- What a directive with the letter `c` shows. -/
def letter (d : Directive) (c : Char) : List Char :=
  d.shown ++
    if c = '%' then ['%']
    else '%' :: '!' :: c :: (if d.badIndex then "(BADINDEX)" else "(MISSING)").toList

theorem length_afterNumber_le (n : Nat) (s : List Char) : (afterNumber n s).length ≤ s.length := by
  induction s generalizing n with
  | nil => simp [afterNumber]
  | cons c cs ih =>
    rw [afterNumber]
    split
    · exact Nat.le_refl _
    · split
      · simp
      · exact Nat.le_succ_of_le (ih _)

theorem length_closing?_lt {s inside rest : List Char} (h : closing? s = some (inside, rest)) :
    rest.length < s.length := by
  induction s generalizing inside with
  | nil => simp [closing?] at h
  | cons c cs ih =>
    rw [closing?] at h
    split at h
    · simp_all
    · obtain ⟨⟨_, _⟩, hr, he⟩ := Option.map_eq_some_iff.mp h
      cases he
      exact Nat.lt_succ_of_lt (ih hr)

theorem length_rest_index_le (d : Directive) : d.index.rest.length ≤ d.rest.length := by
  rw [index]
  split
  · next cs h =>
    simp only [h, List.length_cons]
    split
    · simp
    · split
      · simp
      · next hc => have := length_closing?_lt hc; simp only; omega
  · simp

theorem length_rest_number_le (fault : String) (d : Directive) :
    (d.number fault).rest.length ≤ d.rest.length := by
  rw [number]
  split
  · next h => simp [h]
  · exact length_afterNumber_le 0 _

theorem length_rest_precision_le (d : Directive) : d.precision.rest.length ≤ d.rest.length := by
  rw [precision]
  split
  · next cs h =>
    refine Nat.le_trans (length_rest_number_le _ _) (Nat.le_trans (length_rest_index_le _) ?_)
    simp [h]
  · exact Nat.le_refl _

theorem length_rest_read_le (s : List Char) : (read s).rest.length ≤ s.length := by
  rw [read]
  have h (d : Directive) :
      (d.index.number "%!(BADWIDTH)").precision.rest.length ≤ d.rest.length :=
    Nat.le_trans (length_rest_precision_le _)
      (Nat.le_trans (length_rest_number_le _ _) (length_rest_index_le _))
  have hs : (s.dropWhile isFlag).length ≤ s.length := (List.dropWhile_suffix isFlag).length_le
  split
  · exact Nat.le_trans (h _) hs
  · exact Nat.le_trans (length_rest_index_le _) (Nat.le_trans (h _) hs)

end Directive

/-- The text of a template that has no arguments. A directive without a letter ends it. -/
def expand : List Char → List Char
  | [] => []
  | c :: cs =>
    if c = '%' then
      let d := Directive.read cs
      match h : d.rest with
      | [] => d.shown ++ "%!(NOVERB)".toList
      | l :: rest =>
        have : rest.length < cs.length := by
          have := Directive.length_rest_read_le cs
          simp only [show (Directive.read cs).rest = l :: rest from h, List.length_cons] at this
          omega
        d.letter l ++ expand rest
    else c :: expand cs
  termination_by s => s.length

example : expand "100% (8), %%, %[1]d, %*x".toList =
    "100%!((MISSING)8), %, %!d(BADINDEX), %!(BADWIDTH)%!x(MISSING)".toList := by decide +kernel

end MipsBackend.Template
