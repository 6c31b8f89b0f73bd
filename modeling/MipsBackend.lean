import MipsBackend.Allocation.Allocator
import MipsBackend.Allocation.Basic
import MipsBackend.Allocation.Coloring
import MipsBackend.Allocation.Interference
import MipsBackend.Asm.Line
import MipsBackend.Asm.Program
import MipsBackend.Asm.Register
import MipsBackend.Code.Instruction
import MipsBackend.Code.Opcode
import MipsBackend.Command.Basic
import MipsBackend.Command.Flags
import MipsBackend.Directory
import MipsBackend.Event
import MipsBackend.Generate
import MipsBackend.Liveness.Basic
import MipsBackend.Liveness.Flow
import MipsBackend.Log
import MipsBackend.Lowering.Action
import MipsBackend.Lowering.Basic
import MipsBackend.Main
import MipsBackend.Order.Map
import MipsBackend.Order.Set
import MipsBackend.Placement.Basic
import MipsBackend.Placement.Memory
import MipsBackend.Placement.Scheme
import MipsBackend.Program.Basic
import MipsBackend.Program.Block
import MipsBackend.Program.Function
import MipsBackend.Program.Listing
import MipsBackend.Proofs.Addressing
import MipsBackend.Proofs.Agreement
import MipsBackend.Proofs.Allocation
import MipsBackend.Proofs.Arrays
import MipsBackend.Proofs.BlockLines
import MipsBackend.Proofs.BlockLiveness
import MipsBackend.Proofs.Blocks
import MipsBackend.Proofs.Calls
import MipsBackend.Proofs.Collections
import MipsBackend.Proofs.Coloring
import MipsBackend.Proofs.Concatenation
import MipsBackend.Proofs.Cutting
import MipsBackend.Proofs.Delivery
import MipsBackend.Proofs.Edges
import MipsBackend.Proofs.Execution
import MipsBackend.Proofs.Failures
import MipsBackend.Proofs.Files
import MipsBackend.Proofs.Flow
import MipsBackend.Proofs.Frame
import MipsBackend.Proofs.Greedy
import MipsBackend.Proofs.Instructions
import MipsBackend.Proofs.Jumps
import MipsBackend.Proofs.Labels
import MipsBackend.Proofs.Lines
import MipsBackend.Proofs.Liveness
import MipsBackend.Proofs.Machine
import MipsBackend.Proofs.Operands
import MipsBackend.Proofs.Partition
import MipsBackend.Proofs.PerBlock
import MipsBackend.Proofs.PerFunction
import MipsBackend.Proofs.Pieces
import MipsBackend.Proofs.Places
import MipsBackend.Proofs.Prologue
import MipsBackend.Proofs.Reading
import MipsBackend.Proofs.RoundTrip
import MipsBackend.Proofs.Sessions
import MipsBackend.Proofs.Sharing
import MipsBackend.Proofs.Simulation
import MipsBackend.Proofs.Storage
import MipsBackend.Proofs.Symbols
import MipsBackend.Proofs.Transfers
import MipsBackend.Proofs.Writing
import MipsBackend.Reader
import MipsBackend.Report.Basic
import MipsBackend.Report.Table
import MipsBackend.Report.Template
import MipsBackend.Report.Wrap
import MipsBackend.Settings.Basic
import MipsBackend.Settings.Flat
import MipsBackend.Settings.Fraction
import MipsBackend.Settings.Scalar
import MipsBackend.Settings.Timestamp
import MipsBackend.Text.Blank
import MipsBackend.Text.Escape
import MipsBackend.Text.Lines
import MipsBackend.Text.Numeral
import MipsBackend.Text.Prefixed
import MipsBackend.Text.Printable
import MipsBackend.Text.Quoted
import MipsBackend.Text.Range
import MipsBackend.Text.Width
import MipsBackend.Proofs.Simplification
import MipsBackend.Proofs.Accesses
import MipsBackend.Proofs.Convergence
import MipsBackend.Proofs.AllLines
import MipsBackend.Proofs.Coherence
import MipsBackend.Proofs.Hooks
import MipsBackend.Proofs.Literals
import MipsBackend.Proofs.RegisterKinds
import MipsBackend.Proofs.TypedCode
import MipsBackend.Proofs.DataSection
import MipsBackend.Proofs.Homes
import MipsBackend.Proofs.Mentions
import MipsBackend.Proofs.WorkingSet
import MipsBackend.Proofs.AllocationTable
import MipsBackend.Proofs.Indentation
import MipsBackend.Proofs.InstructionText
import MipsBackend.Proofs.Skipping
import MipsBackend.Proofs.GraphMemory
import MipsBackend.Proofs.StoredGraphs
import MipsBackend.Proofs.StoredColoring
import MipsBackend.Proofs.CommandLine
import MipsBackend.Proofs.Precedence
