import TaskletMachine.Code.Assembler
import TaskletMachine.Code.Decode
import TaskletMachine.Code.Instruction
import TaskletMachine.Code.LineMap
import TaskletMachine.Code.Opcode
import TaskletMachine.Code.Operator
import TaskletMachine.Code.Script
import TaskletMachine.Code.Unit
import TaskletMachine.Host.Basic
import TaskletMachine.Host.Toolkit
import TaskletMachine.Library.Asking
import TaskletMachine.Library.Attributes
import TaskletMachine.Library.Builtins
import TaskletMachine.Library.Call
import TaskletMachine.Library.Convert
import TaskletMachine.Library.Dicts
import TaskletMachine.Library.Lists
import TaskletMachine.Library.Reply
import TaskletMachine.Library.Sort
import TaskletMachine.Library.StableSort
import TaskletMachine.Library.Strings
import TaskletMachine.Library.Tables
import TaskletMachine.Library.Tasklets
import TaskletMachine.Machine.Arguments
import TaskletMachine.Machine.Blocks
import TaskletMachine.Machine.Call
import TaskletMachine.Machine.Context
import TaskletMachine.Machine.Exec
import TaskletMachine.Machine.Frame
import TaskletMachine.Machine.Operators
import TaskletMachine.Machine.Run
import TaskletMachine.Machine.Step
import TaskletMachine.Machine.Unwind
import TaskletMachine.Number.Binary64
import TaskletMachine.Number.Decimal
import TaskletMachine.Number.Shortest
import TaskletMachine.Number.Word
import TaskletMachine.Operator.Compare
import TaskletMachine.Operator.Equality
import TaskletMachine.Operator.Number
import TaskletMachine.Operator.Ordering
import TaskletMachine.Operator.Sequence
import TaskletMachine.Operator.Subscript
import TaskletMachine.Proofs.Code.Assembly
import TaskletMachine.Proofs.Code.Decoding
import TaskletMachine.Proofs.Code.Diagnostics
import TaskletMachine.Proofs.Code.Encoding
import TaskletMachine.Proofs.Code.Reading
import TaskletMachine.Proofs.Code.SourceLines
import TaskletMachine.Proofs.Effect.Caution
import TaskletMachine.Proofs.Effect.Growth
import TaskletMachine.Proofs.Effect.Harmless
import TaskletMachine.Proofs.Effect.Keeping
import TaskletMachine.Proofs.Effect.Library
import TaskletMachine.Proofs.Effect.Tame
import TaskletMachine.Proofs.Library.Exceptions
import TaskletMachine.Proofs.Library.Merging
import TaskletMachine.Proofs.Library.ShortRows
import TaskletMachine.Proofs.Library.Sorter
import TaskletMachine.Proofs.Library.Sorting
import TaskletMachine.Proofs.Library.SpawnedCode
import TaskletMachine.Proofs.Library.StableSort
import TaskletMachine.Proofs.Library.Strings
import TaskletMachine.Proofs.Machine.Arguments
import TaskletMachine.Proofs.Machine.Blind
import TaskletMachine.Proofs.Machine.CallEndings
import TaskletMachine.Proofs.Machine.Calls
import TaskletMachine.Proofs.Machine.Calm
import TaskletMachine.Proofs.Machine.CalmInstructions
import TaskletMachine.Proofs.Machine.Cleanup
import TaskletMachine.Proofs.Machine.Entering
import TaskletMachine.Proofs.Machine.Exceptions
import TaskletMachine.Proofs.Machine.HookEndings
import TaskletMachine.Proofs.Machine.Hooks
import TaskletMachine.Proofs.Machine.Instructions
import TaskletMachine.Proofs.Machine.Introspection
import TaskletMachine.Proofs.Machine.InvariantSteps
import TaskletMachine.Proofs.Machine.Invariants
import TaskletMachine.Proofs.Machine.Inversion
import TaskletMachine.Proofs.Machine.Iteration
import TaskletMachine.Proofs.Machine.IteratorAgreement
import TaskletMachine.Proofs.Machine.IteratorCalls
import TaskletMachine.Proofs.Machine.Lifecycle
import TaskletMachine.Proofs.Machine.Locality
import TaskletMachine.Proofs.Machine.Locals
import TaskletMachine.Proofs.Machine.Lockstep
import TaskletMachine.Proofs.Machine.LockstepLinks
import TaskletMachine.Proofs.Machine.LockstepSteps
import TaskletMachine.Proofs.Machine.Loops
import TaskletMachine.Proofs.Machine.Moves
import TaskletMachine.Proofs.Machine.Naming
import TaskletMachine.Proofs.Machine.Origins
import TaskletMachine.Proofs.Machine.Pending
import TaskletMachine.Proofs.Machine.Places
import TaskletMachine.Proofs.Machine.Protocol
import TaskletMachine.Proofs.Machine.RelationSteps
import TaskletMachine.Proofs.Machine.Relations
import TaskletMachine.Proofs.Machine.Resolution
import TaskletMachine.Proofs.Machine.Restoration
import TaskletMachine.Proofs.Machine.Search
import TaskletMachine.Proofs.Machine.SpawnedRuns
import TaskletMachine.Proofs.Machine.Stepping
import TaskletMachine.Proofs.Machine.Steps
import TaskletMachine.Proofs.Machine.Takeover
import TaskletMachine.Proofs.Machine.Tame
import TaskletMachine.Proofs.Machine.Timing
import TaskletMachine.Proofs.Machine.Tracebacks
import TaskletMachine.Proofs.Machine.Twins
import TaskletMachine.Proofs.Machine.Unwinding
import TaskletMachine.Proofs.Number.Word
import TaskletMachine.Proofs.Operator.Arithmetic
import TaskletMachine.Proofs.Operator.Bisimilarity
import TaskletMachine.Proofs.Operator.Indexing
import TaskletMachine.Proofs.Operator.Membership
import TaskletMachine.Proofs.Operator.Native
import TaskletMachine.Proofs.Operator.Ordering
import TaskletMachine.Proofs.Schedule.Callbacks
import TaskletMachine.Proofs.Schedule.Events
import TaskletMachine.Proofs.Schedule.Faults
import TaskletMachine.Proofs.Schedule.Partition
import TaskletMachine.Proofs.Schedule.Registration
import TaskletMachine.Proofs.Schedule.SpawnedCalls
import TaskletMachine.Proofs.Schedule.Spawning
import TaskletMachine.Proofs.Schedule.Ticks
import TaskletMachine.Proofs.Schedule.Turns
import TaskletMachine.Proofs.Schedule.Waiting
import TaskletMachine.Proofs.Schedule.Wakeups
import TaskletMachine.Proofs.Text.Bytes
import TaskletMachine.Proofs.Text.Search
import TaskletMachine.Proofs.Value.Growth
import TaskletMachine.Proofs.Value.Hashing
import TaskletMachine.Proofs.Value.Identity
import TaskletMachine.Proofs.Value.Keys
import TaskletMachine.Proofs.Value.Lineage
import TaskletMachine.Proofs.Value.ListIteration
import TaskletMachine.Proofs.Value.Parts
import TaskletMachine.Proofs.Value.RangeIteration
import TaskletMachine.Proofs.Value.Rendering
import TaskletMachine.Proofs.Value.Tables
import TaskletMachine.Schedule.Display
import TaskletMachine.Schedule.Pool
import TaskletMachine.Schedule.Scheduler
import TaskletMachine.Schedule.World
import TaskletMachine.Text.Blank
import TaskletMachine.Text.Case
import TaskletMachine.Text.CaseData
import TaskletMachine.Text.Hex
import TaskletMachine.Text.Search
import TaskletMachine.Value.Basic
import TaskletMachine.Value.Class
import TaskletMachine.Value.Entries
import TaskletMachine.Value.Error
import TaskletMachine.Value.Hash
import TaskletMachine.Value.Heap
import TaskletMachine.Value.Iterator
import TaskletMachine.Value.Key
import TaskletMachine.Value.Render
import TaskletMachine.Value.Traits
