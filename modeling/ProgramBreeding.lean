import ProgramBreeding.Breeding.Crossover
import ProgramBreeding.Breeding.Evolution
import ProgramBreeding.Breeding.Fitness
import ProgramBreeding.Breeding.Harness
import ProgramBreeding.Breeding.Mutation
import ProgramBreeding.Breeding.Score
import ProgramBreeding.Breeding.Selection
import ProgramBreeding.Breeding.Settings
import ProgramBreeding.Breeding.Variant
import ProgramBreeding.Chance
import ProgramBreeding.CommandLine.Command
import ProgramBreeding.CommandLine.Run
import ProgramBreeding.CommandLine.Summary
import ProgramBreeding.CommandLine.Switch
import ProgramBreeding.Execution.Arithmetic
import ProgramBreeding.Execution.Builtin
import ProgramBreeding.Execution.Compare
import ProgramBreeding.Execution.Datum
import ProgramBreeding.Execution.Error
import ProgramBreeding.Execution.Eval
import ProgramBreeding.Execution.Method
import ProgramBreeding.Execution.Session
import ProgramBreeding.Execution.State
import ProgramBreeding.Execution.Value
import ProgramBreeding.Generator
import ProgramBreeding.Json.Basic
import ProgramBreeding.Json.Outline
import ProgramBreeding.Json.Reader
import ProgramBreeding.Json.Skip
import ProgramBreeding.Json.Token
import ProgramBreeding.Json.Writer
import ProgramBreeding.Main
import ProgramBreeding.Number.Binary
import ProgramBreeding.Number.Checked
import ProgramBreeding.Number.Double
import ProgramBreeding.Number.Layout
import ProgramBreeding.Number.Numeral
import ProgramBreeding.Number.Real
import ProgramBreeding.Number.Shortest
import ProgramBreeding.Proofs.Breeding.Offspring
import ProgramBreeding.Proofs.Execution.Accounts
import ProgramBreeding.Proofs.Execution.Agreement
import ProgramBreeding.Proofs.Execution.Bindings
import ProgramBreeding.Proofs.Execution.ElementUpdate
import ProgramBreeding.Proofs.Execution.Fuel
import ProgramBreeding.Proofs.Execution.Interruption
import ProgramBreeding.Proofs.Execution.Lockstep
import ProgramBreeding.Proofs.Execution.Matching
import ProgramBreeding.Proofs.Execution.Operations
import ProgramBreeding.Proofs.Execution.Polling
import ProgramBreeding.Proofs.Execution.Programs
import ProgramBreeding.Proofs.Execution.Simulation
import ProgramBreeding.Proofs.Number.Numeral
import ProgramBreeding.Proofs.Number.RoundTrip
import ProgramBreeding.Proofs.Number.Rounding
import ProgramBreeding.Proofs.Number.Shortest
import ProgramBreeding.Proofs.Rule.AugmentedAssign
import ProgramBreeding.Proofs.Rule.Behaviour
import ProgramBreeding.Proofs.Rule.ConstantFold
import ProgramBreeding.Proofs.Rule.DeadBranch
import ProgramBreeding.Proofs.Rule.Derived
import ProgramBreeding.Proofs.Rule.Sites
import ProgramBreeding.Proofs.Rule.Steps
import ProgramBreeding.Proofs.Rule.UnreachableCode
import ProgramBreeding.Proofs.Rule.WellFormed
import ProgramBreeding.Proofs.Rule.Writable
import ProgramBreeding.Proofs.Source.Lexemes
import ProgramBreeding.Proofs.Source.Lexing
import ProgramBreeding.Proofs.Source.Limits
import ProgramBreeding.Proofs.Source.Lines
import ProgramBreeding.Proofs.Source.Nesting
import ProgramBreeding.Proofs.Source.Printed
import ProgramBreeding.Proofs.Source.Reading
import ProgramBreeding.Proofs.Source.Rebuilding
import ProgramBreeding.Proofs.Source.Reread
import ProgramBreeding.Proofs.Source.RoundTrip
import ProgramBreeding.Proofs.Source.Scanning
import ProgramBreeding.Proofs.Source.Writable
import ProgramBreeding.Proofs.Tree.Numbering
import ProgramBreeding.Proofs.Tree.Parts
import ProgramBreeding.Proofs.Tree.Path
import ProgramBreeding.Proofs.Tree.Focus
import ProgramBreeding.Proofs.Tree.Place
import ProgramBreeding.Proofs.Tree.Replacement
import ProgramBreeding.Proofs.Tree.Sites
import ProgramBreeding.Proofs.Tree.Splicing
import ProgramBreeding.Proofs.Tree.WellFormed
import ProgramBreeding.Proofs.Tree.Writable
import ProgramBreeding.Rule.Application
import ProgramBreeding.Rule.Basic
import ProgramBreeding.Rule.Constant
import ProgramBreeding.Rule.Jump
import ProgramBreeding.Rule.Length
import ProgramBreeding.Rule.Loop
import ProgramBreeding.Source.Error
import ProgramBreeding.Source.Lexer
import ProgramBreeding.Source.Parser
import ProgramBreeding.Source.Printer
import ProgramBreeding.Source.Token
import ProgramBreeding.Text.Case
import ProgramBreeding.Text.Character
import ProgramBreeding.Text.CodeRange
import ProgramBreeding.Text.Search
import ProgramBreeding.Text.Table.Alphabetic
import ProgramBreeding.Text.Table.CaseMap
import ProgramBreeding.Text.Table.Cased
import ProgramBreeding.Text.Table.Extending
import ProgramBreeding.Text.Table.Numeric
import ProgramBreeding.Text.Table.Unprintable
import ProgramBreeding.Tree.Basic
import ProgramBreeding.Tree.Category
import ProgramBreeding.Tree.Edit
import ProgramBreeding.Tree.Labelled
import ProgramBreeding.Tree.Names
import ProgramBreeding.Tree.Operator
import ProgramBreeding.Proofs.Breeding.Replay
import ProgramBreeding.Proofs.Breeding.Generations
import ProgramBreeding.Proofs.Number.Order
import ProgramBreeding.Proofs.Breeding.Selection
import ProgramBreeding.Proofs.Breeding.Best
import ProgramBreeding.Proofs.Breeding.Course
import ProgramBreeding.Proofs.Breeding.Draws
import ProgramBreeding.Proofs.Breeding.Brood
import ProgramBreeding.Proofs.Breeding.Rescoring
import ProgramBreeding.Proofs.Breeding.Cancellation
import ProgramBreeding.Proofs.Breeding.Stopping
import ProgramBreeding.Proofs.Breeding.Elitism
import ProgramBreeding.Proofs.Breeding.Exhaustion
import ProgramBreeding.Proofs.Breeding.Attempts
import ProgramBreeding.Proofs.Execution.Sizes
import ProgramBreeding.Proofs.Execution.Growth
import ProgramBreeding.Proofs.Execution.Halting
import ProgramBreeding.Proofs.Execution.CheckedGrowth
import ProgramBreeding.Proofs.Rule.Branches
import ProgramBreeding.Proofs.Rule.Bulk
import ProgramBreeding.Proofs.Rule.Rereading
import ProgramBreeding.Proofs.Tree.Total
import ProgramBreeding.Proofs.Breeding.Grafting
import ProgramBreeding.Proofs.Source.Parametric
import ProgramBreeding.Proofs.Source.Progress
import ProgramBreeding.Proofs.Source.Columns
import ProgramBreeding.Proofs.Source.LineEnds
import ProgramBreeding.Proofs.Source.Blocks
import ProgramBreeding.Proofs.Source.Depth
import ProgramBreeding.Proofs.Number.Words
import ProgramBreeding.Proofs.Execution.Integers
import ProgramBreeding.Proofs.Execution.Comparison
import ProgramBreeding.Proofs.Execution.Sorting
import ProgramBreeding.Proofs.Execution.Ranges
import ProgramBreeding.Proofs.Number.TotalOrder
import ProgramBreeding.Proofs.Breeding.Ranking
import ProgramBreeding.Proofs.Number.Sums
import ProgramBreeding.Proofs.Breeding.Parents
import ProgramBreeding.Proofs.Source.Positions
import ProgramBreeding.Proofs.Source.ErrorPositions
import ProgramBreeding.Proofs.Source.Bracketing
import ProgramBreeding.Proofs.Rule.FreshName
import ProgramBreeding.Proofs.Rule.HoistedLength
import ProgramBreeding.Proofs.Execution.PlainData
import ProgramBreeding.Proofs.Execution.Assumption
import ProgramBreeding.Proofs.Execution.OneSided
import ProgramBreeding.Proofs.Execution.Gathering
import ProgramBreeding.Proofs.Rule.Scope
import ProgramBreeding.Proofs.Rule.SimpleLoop
import ProgramBreeding.Proofs.Rule.GatheringLoop
import ProgramBreeding.Proofs.Rule.AppendLoop
import ProgramBreeding.Proofs.Rule.SumLoop
import ProgramBreeding.Proofs.Rule.HoistedLoop
