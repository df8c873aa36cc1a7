import ObjectModel.Behavior.Buffers
import ObjectModel.Behavior.Functions
import ObjectModel.Behavior.Libraries
import ObjectModel.Behavior.Lists
import ObjectModel.Behavior.Maps
import ObjectModel.Behavior.Natives
import ObjectModel.Behavior.Nodes
import ObjectModel.Behavior.Numbers
import ObjectModel.Behavior.Shared
import ObjectModel.Behavior.Singlets
import ObjectModel.Behavior.Streams
import ObjectModel.Behavior.Strings
import ObjectModel.Binary64
import ObjectModel.Builtin.Body
import ObjectModel.Builtin.Globals
import ObjectModel.Builtin.Inspection
import ObjectModel.Builtin.Name
import ObjectModel.Builtin.Prelude
import ObjectModel.Capability
import ObjectModel.Code.Basic
import ObjectModel.Code.Fields
import ObjectModel.Decimal.Double
import ObjectModel.Decimal.Fixed
import ObjectModel.Decimal.Nearest
import ObjectModel.Decimal.Shortest
import ObjectModel.Fault
import ObjectModel.Files.Mode
import ObjectModel.Files.Store
import ObjectModel.Files.Stream
import ObjectModel.Host.Probes
import ObjectModel.Host.TreeWalk
import ObjectModel.Integer
import ObjectModel.Interpreter
import ObjectModel.Iteration
import ObjectModel.Kind
import ObjectModel.Machine
import ObjectModel.Map.Cells
import ObjectModel.Map.Hooks
import ObjectModel.Memory.Format
import ObjectModel.Memory.Space
import ObjectModel.Memory.View
import ObjectModel.Object.Heap
import ObjectModel.Object.Payload
import ObjectModel.Operation
import ObjectModel.Proofs.Calls.Context
import ObjectModel.Proofs.Calls.Nesting
import ObjectModel.Proofs.Calls.Parameters
import ObjectModel.Proofs.Calls.Starts
import ObjectModel.Proofs.Code.Copies
import ObjectModel.Proofs.Code.Fields
import ObjectModel.Proofs.Code.Shapes
import ObjectModel.Proofs.Code.Writes
import ObjectModel.Proofs.Comparison.Contents
import ObjectModel.Proofs.Comparison.Equality
import ObjectModel.Proofs.Comparison.Order
import ObjectModel.Proofs.Comparison.Termination
import ObjectModel.Proofs.Comparison.Ties
import ObjectModel.Proofs.Comparison.Values
import ObjectModel.Proofs.Errors.Caught
import ObjectModel.Proofs.Errors.Raises
import ObjectModel.Proofs.Errors.Imbalance
import ObjectModel.Proofs.Errors.Pending
import ObjectModel.Proofs.Errors.Raised
import ObjectModel.Proofs.Functions.Attributes
import ObjectModel.Proofs.Functions.Names
import ObjectModel.Proofs.Functions.Parts
import ObjectModel.Proofs.Iteration.Bounds
import ObjectModel.Proofs.Iteration.Interleavings
import ObjectModel.Proofs.Iteration.Scratch
import ObjectModel.Proofs.Iteration.Steps
import ObjectModel.Proofs.Laws.Basic
import ObjectModel.Proofs.Laws.Buffers
import ObjectModel.Proofs.Laws.Builtins
import ObjectModel.Proofs.Laws.Code
import ObjectModel.Proofs.Laws.Containers
import ObjectModel.Proofs.Laws.Endings
import ObjectModel.Proofs.Laws.Initial
import ObjectModel.Proofs.Laws.Machines
import ObjectModel.Proofs.Laws.Programs
import ObjectModel.Proofs.Laws.Steps
import ObjectModel.Proofs.Laws.Values
import ObjectModel.Proofs.Laws.Walks
import ObjectModel.Proofs.Lists.Sequences
import ObjectModel.Proofs.Lists.Traversals
import ObjectModel.Proofs.Maps.Bindings
import ObjectModel.Proofs.Maps.Delegation
import ObjectModel.Proofs.Maps.Histories
import ObjectModel.Proofs.Maps.Keys
import ObjectModel.Proofs.Maps.Labels
import ObjectModel.Proofs.Maps.Lookup
import ObjectModel.Proofs.Maps.Names
import ObjectModel.Proofs.Maps.Separation
import ObjectModel.Proofs.Maps.Sums
import ObjectModel.Proofs.Maps.Tables
import ObjectModel.Proofs.Maps.Uniqueness
import ObjectModel.Proofs.Memory.Access
import ObjectModel.Proofs.Memory.Aliasing
import ObjectModel.Proofs.Memory.Evolution
import ObjectModel.Proofs.Memory.Keepers
import ObjectModel.Proofs.Memory.Layouts
import ObjectModel.Proofs.Memory.Parts
import ObjectModel.Proofs.Memory.Regions
import ObjectModel.Proofs.Numbers.Division
import ObjectModel.Proofs.Numbers.Operands
import ObjectModel.Proofs.Numbers.Powers
import ObjectModel.Proofs.Operators.Additions
import ObjectModel.Proofs.Operators.Behaviors
import ObjectModel.Proofs.Operators.Lookups
import ObjectModel.Proofs.Operators.Merges
import ObjectModel.Proofs.Operators.Undisturbed
import ObjectModel.Proofs.References.Counts
import ObjectModel.Proofs.References.Pins
import ObjectModel.Proofs.Rendering.Answers
import ObjectModel.Proofs.Rendering.Graphs
import ObjectModel.Proofs.Rendering.Outlines
import ObjectModel.Proofs.Rendering.Texts
import ObjectModel.Proofs.Scopes.Assignments
import ObjectModel.Proofs.Streams.Amounts
import ObjectModel.Proofs.Streams.Closed
import ObjectModel.Proofs.Streams.Lines
import ObjectModel.Proofs.Streams.Readings
import ObjectModel.Proofs.Text.Arguments
import ObjectModel.Proofs.Text.Codes
import ObjectModel.Proofs.Text.Conversions
import ObjectModel.Proofs.Text.Copies
import ObjectModel.Proofs.Text.Decimals
import ObjectModel.Proofs.Text.Numerals
import ObjectModel.Proofs.Text.Occurrences
import ObjectModel.Proofs.Text.Printed
import ObjectModel.Proofs.Text.Slices
import ObjectModel.Proofs.Text.Splits
import ObjectModel.Proofs.Text.Tokens
import ObjectModel.Rendering
import ObjectModel.State.Action
import ObjectModel.State.Basic
import ObjectModel.State.References
import ObjectModel.State.Scopes
import ObjectModel.Text.Bytes
import ObjectModel.Text.Hidden
import ObjectModel.Text.Numeral
import ObjectModel.Text.Quoted
import ObjectModel.Text.Search
