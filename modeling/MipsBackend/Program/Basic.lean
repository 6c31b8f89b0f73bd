import MipsBackend.Program.Function

/-! Programs: the functions compiled together, and what they share. A name that several
functions mention is global and gets static storage; so does every array. -/
namespace MipsBackend

/-- The members of a list, each at its first occurrence. -/
def distinct : List String → List String
  | [] => []
  | x :: xs => x :: (distinct xs).filter (· ≠ x)

@[simp] theorem mem_distinct {x : String} {xs : List String} : x ∈ distinct xs ↔ x ∈ xs := by
  induction xs with
  | nil => simp [distinct]
  | cons y ys ih => simp only [distinct, List.mem_cons, List.mem_filter, ih]; grind

theorem nodup_distinct (xs : List String) : (distinct xs).Nodup := by
  induction xs with
  | nil => simp [distinct]
  | cons y ys ih => exact List.nodup_cons.mpr ⟨by simp, ih.filter _⟩

/-- The operands that a function mentions. -/
def FunctionDef.mentioned (f : FunctionDef) : NameSet :=
  OrdSet.ofList ((f.code.flatMap Instruction.args).filter (· ≠ ""))

/-- An ordered list of functions with an index of the names they mention. -/
structure Program where
  functions : List Function
  /-- How many functions mention each name. -/
  mentions : NameMap Nat
  deriving DecidableEq

/-- Static storage of an array. -/
structure ArraySymbol where
  name : String
  words : Int
  deriving DecidableEq

namespace Program

/-- Count one function in the index. -/
def countMentions (index : NameMap Nat) (f : Function) : NameMap Nat :=
  f.mentioned.toList.foldl (fun m v => m.alter v 0 (· + 1)) index

def ofFunctions (fs : List Function) : Program := ⟨fs, fs.foldl countMentions ∅⟩

/-- Whether `v` is shared: a name, not a literal, that more than one function mentions. -/
def isGlobal (p : Program) (v : String) : Bool :=
  v ≠ "" && !isImmediate v && decide (1 < p.mentions.getD v 0)

def isArray (p : Program) (v : String) : Bool := p.functions.any (·.isArray v)

/-- The global integer variables in the order of their first declaration. -/
def globalInts (p : Program) : List String :=
  distinct ((p.functions.flatMap (·.ints)).filter fun v => p.isGlobal v && !p.isArray v)

/-- The arrays of a function: the declared ones in order of declaration, then the others in
order of their names. -/
def arrayNames (f : Function) : List String :=
  f.ints.filter f.isArray ++ f.arrays.keys.toList.filter (!f.isInt ·)

/-- Add the storage that a function needs for an array. The functions share one symbol for it, of
the size that is needed most. -/
def addArray (out : List ArraySymbol) (a : ArraySymbol) : List ArraySymbol :=
  if out.any (·.name = a.name) then
    out.map fun b => if b.name = a.name then { b with words := max b.words a.words } else b
  else out ++ [a]

/-- The arrays that the functions use, with the sizes that they need. -/
def arrayUses (p : Program) : List ArraySymbol :=
  p.functions.flatMap fun f => (arrayNames f).map fun v => ⟨v, f.arrays.getD v 0⟩

/-- The arrays of the program in the order of their first declaration. -/
def arrays (p : Program) : List ArraySymbol := p.arrayUses.foldl addArray []

end Program
end MipsBackend
