import MipsBackend.Code.Opcode

/-! The steps of a compilation that are worth a record in its log. -/
namespace MipsBackend

inductive Event where
  /-- A label was given while another one still waited for its instruction. -/
  | labelReplaced (line : Nat) (old : String)
  /-- A line was ignored because it starts with no opcode. -/
  | lineSkipped (line : Nat) (text : String) (cause : UnknownOpcode)
  | graphBuilt (function : String) (blocks instructions : Nat)
  | instructionsConverged (function : String) (passes : Nat)
  | blocksConverged (function : String) (passes : Nat)
  | interference (a b : String)
  /-- A web was set aside although it has too many neighbours. -/
  | spillCandidate (web : String) (degree : Nat)
  | colorAssigned (web : String) (color : Nat)
  | webSpilled (web : String)
  | assemblyWritten (output scheme : String) (functions : Nat)
  deriving DecidableEq

end MipsBackend
