/-! Blank characters, and cutting texts at them and at separators. Texts are lists of
characters here; names and messages become strings at the edges. -/
namespace MipsBackend.Text

/-- White space as Unicode has it. -/
def isBlank (c : Char) : Bool :=
  let n := c.toNat
  (9 ≤ n && n ≤ 13) || n == 0x20 || n == 0x85 || n == 0xa0 || n == 0x1680 ||
    (0x2000 ≤ n && n ≤ 0x200a) || n == 0x2028 || n == 0x2029 || n == 0x202f || n == 0x205f ||
    n == 0x3000

example (c : Char) (h : c.isWhitespace) : isBlank c := by
  simp only [Char.isWhitespace, Bool.or_eq_true, decide_eq_true_eq] at h
  rcases h with ((rfl | rfl) | rfl) | rfl <;> decide

/-- Cut the characters that pass the test off the end. -/
def trimRight (p : Char → Bool) (s : List Char) : List Char := (s.reverse.dropWhile p).reverse

/-- Cut the characters that pass the test off both ends. -/
def trimBy (p : Char → Bool) (s : List Char) : List Char := trimRight p (s.dropWhile p)

/-- Cut blank characters off both ends. -/
def trim (s : List Char) : List Char := trimBy isBlank s

/-- `piecesFrom sep cur s` splits `s` at every `sep`; `cur` holds the piece being read,
last character first. -/
def piecesFrom (sep : Char) (cur : List Char) : List Char → List (List Char)
  | [] => [cur.reverse]
  | c :: cs => if c = sep then cur.reverse :: piecesFrom sep [] cs else piecesFrom sep (c :: cur) cs

/-- Split a text at every `sep`; the empty text is one empty piece. -/
def pieces (sep : Char) (s : List Char) : List (List Char) := piecesFrom sep [] s

/-- A carriage return before a line feed does not count. -/
def unifyBreaks : List Char → List Char
  | [] => []
  | '\r' :: '\n' :: cs => '\n' :: unifyBreaks cs
  | c :: cs => c :: unifyBreaks cs

/-- The pieces put together again with `sep` between them. -/
def join (sep : Char) : List (List Char) → List Char
  | [] => []
  | [p] => p
  | p :: q :: ps => p ++ sep :: join sep (q :: ps)

theorem piecesFrom_ne_nil (sep : Char) (cur s : List Char) : piecesFrom sep cur s ≠ [] := by
  induction s generalizing cur with
  | nil => simp [piecesFrom]
  | cons c cs ih => rw [piecesFrom]; split <;> simp [ih]

theorem join_piecesFrom (sep : Char) (cur s : List Char) :
    join sep (piecesFrom sep cur s) = cur.reverse ++ s := by
  induction s generalizing cur with
  | nil => simp [piecesFrom, join]
  | cons c cs ih =>
    rw [piecesFrom]
    split
    · next h =>
      have h2 := ih []
      cases hp : piecesFrom sep [] cs with
      | nil => exact absurd hp (piecesFrom_ne_nil sep [] cs)
      | cons q ps => simp_all [join]
    · simp [ih]

/-- Splitting loses nothing. -/
@[simp] theorem join_pieces (sep : Char) (s : List Char) : join sep (pieces sep s) = s := by
  simp [pieces, join_piecesFrom]

/-- `wordsFrom cur s` are the maximal runs of characters that are not blank, `cur` being the
part already read of the first one, last character first. -/
def wordsFrom (cur : List Char) : List Char → List (List Char)
  | [] => if cur.isEmpty then [] else [cur.reverse]
  | c :: cs =>
    if isBlank c then
      if cur.isEmpty then wordsFrom [] cs else cur.reverse :: wordsFrom [] cs
    else wordsFrom (c :: cur) cs

/-- The maximal runs of characters that are not blank. -/
def words (s : List Char) : List (List Char) := wordsFrom [] s

/-- What follows `p` at the start of a text. -/
def afterStart? : List Char → List Char → Option (List Char)
  | [], s => some s
  | _ :: _, [] => none
  | c :: p, d :: s => if c = d then afterStart? p s else none

theorem afterStart?_eq_some {p s r : List Char} : afterStart? p s = some r ↔ s = p ++ r := by
  induction p generalizing s with
  | nil => simp [afterStart?]
  | cons c p ih =>
    cases s with
    | nil => simp [afterStart?]
    | cons d s =>
      rw [afterStart?]
      split
      · next h => simp [h, ih]
      · next h => simp [Ne.symm h]

/-- What stands before `p` at the end of a text. -/
def beforeEnd? (p s : List Char) : Option (List Char) :=
  (afterStart? p.reverse s.reverse).map List.reverse

example : (pieces ',' "a,,b".toList) = ["a".toList, [], "b".toList] := by decide

example : words " int\tx  y ".toList = ["int".toList, "x".toList, "y".toList] := by decide

end MipsBackend.Text
