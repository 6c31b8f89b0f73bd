import MipsBackend.Program.Basic

/-! A readable listing of a program: declarations, blocks with their instructions, and the
edges of the flow graph. -/
namespace MipsBackend

/-- A number right-aligned in three columns. -/
def alignThree (n : Nat) : String :=
  let s := toString n
  String.ofList (List.replicate (3 - s.length) ' ') ++ s

def blockNames (ids : List Nat) : String :=
  if ids.isEmpty then "-" else " ".intercalate (ids.map fun n => "B" ++ toString n)

def Block.listing (b : Block) : List String :=
  let name := "B" ++ toString b.id ++ (b.label.elim "" fun l => " (" ++ l ++ ")")
  ("  " ++ name ++ ":") ::
    b.positioned.map (fun (n, i) => "    " ++ alignThree n ++ "  " ++ i.text) ++
    ["    succs: " ++ blockNames b.succs, "    preds: " ++ blockNames b.preds]

def Function.listing (f : Function) : List String :=
  ["function " ++ f.name ++ "(" ++ ", ".intercalate f.params ++ ")",
    "  int-list: " ++ ", ".intercalate f.ints,
    "  float-list: " ++ ", ".intercalate f.floats] ++ f.blocks.flatMap Block.listing

/-- The lines of a text, each ended by a line feed. -/
def unlines (ls : List String) : String := String.join (ls.map (· ++ "\n"))

/-- The listing of all functions, with an empty line between two of them. -/
def Program.listing (p : Program) : String :=
  "\n".intercalate (p.functions.map fun f => unlines f.listing)

end MipsBackend
