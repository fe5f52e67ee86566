import EntityQuery.Catalog.Basic
import EntityQuery.Catalog.Definition
import EntityQuery.Catalog.Field
import EntityQuery.Catalog.Lookup
import EntityQuery.Catalog.Validate
import EntityQuery.Command
import EntityQuery.Config
import EntityQuery.Expr.Basic
import EntityQuery.Expr.Eval
import EntityQuery.Expr.Fault
import EntityQuery.Expr.Operator
import EntityQuery.Expr.Typing
import EntityQuery.Fault
import EntityQuery.Filter.Hooks
import EntityQuery.Filter.Operator
import EntityQuery.Filter.Parameter
import EntityQuery.Filter.Predicate
import EntityQuery.Filter.Reader
import EntityQuery.Filter.Tree
import EntityQuery.Filter.Walk
import EntityQuery.Flow.Aggregate
import EntityQuery.Flow.Basic
import EntityQuery.Flow.Fault
import EntityQuery.Flow.Group
import EntityQuery.Flow.Order
import EntityQuery.Flow.Pull
import EntityQuery.Flow.Schema
import EntityQuery.Flow.Signal
import EntityQuery.Json.Basic
import EntityQuery.Json.Printer
import EntityQuery.Json.Reader
import EntityQuery.Json.Shape
import EntityQuery.Json.Written
import EntityQuery.Keyed
import EntityQuery.Main
import EntityQuery.Number.Binary64
import EntityQuery.Number.Decimal
import EntityQuery.Number.Width
import EntityQuery.Path
import EntityQuery.Path.Spelling
import EntityQuery.Proofs.Catalog.Attributes
import EntityQuery.Proofs.Catalog.Complete
import EntityQuery.Proofs.Catalog.Lineage
import EntityQuery.Proofs.Catalog.Listing
import EntityQuery.Proofs.Catalog.Places
import EntityQuery.Proofs.Catalog.Provider
import EntityQuery.Proofs.Catalog.Subtype
import EntityQuery.Proofs.Expr.Agreeing
import EntityQuery.Proofs.Expr.Binding
import EntityQuery.Proofs.Expr.ByName
import EntityQuery.Proofs.Expr.Expanded
import EntityQuery.Proofs.Expr.Soundness
import EntityQuery.Proofs.Expr.Truth
import EntityQuery.Proofs.Expr.Typing
import EntityQuery.Proofs.Filter.Complete
import EntityQuery.Proofs.Filter.Evaluation
import EntityQuery.Proofs.Filter.Filterable
import EntityQuery.Proofs.Filter.Grammar
import EntityQuery.Proofs.Filter.LetterCase
import EntityQuery.Proofs.Filter.Meaning
import EntityQuery.Proofs.Filter.Sound
import EntityQuery.Proofs.Filter.Typing
import EntityQuery.Proofs.Filter.Walk
import EntityQuery.Proofs.Flow.Blocks
import EntityQuery.Proofs.Flow.Built
import EntityQuery.Proofs.Flow.Calls
import EntityQuery.Proofs.Flow.Distinct
import EntityQuery.Proofs.Flow.Grouping
import EntityQuery.Proofs.Flow.Listed
import EntityQuery.Proofs.Flow.OuterJoin
import EntityQuery.Proofs.Flow.Overflow
import EntityQuery.Proofs.Flow.Precedence
import EntityQuery.Proofs.Flow.Rows
import EntityQuery.Proofs.Flow.Sorting
import EntityQuery.Proofs.Flow.Stable
import EntityQuery.Proofs.Flow.Stages
import EntityQuery.Proofs.Flow.Sums
import EntityQuery.Proofs.Flow.Tallies
import EntityQuery.Proofs.Flow.Total
import EntityQuery.Proofs.Flow.TypedAnswers
import EntityQuery.Proofs.Flow.TypedRows
import EntityQuery.Proofs.Flow.Yield
import EntityQuery.Proofs.Number.Binary64
import EntityQuery.Proofs.Number.Finite
import EntityQuery.Proofs.Outcome
import EntityQuery.Proofs.Path
import EntityQuery.Proofs.Path.Spelling
import EntityQuery.Proofs.Path.Wrapper
import EntityQuery.Proofs.Search.Answers
import EntityQuery.Proofs.Search.Complete
import EntityQuery.Proofs.Search.Count
import EntityQuery.Proofs.Search.Demands
import EntityQuery.Proofs.Search.Entities
import EntityQuery.Proofs.Search.Existence
import EntityQuery.Proofs.Search.Faults
import EntityQuery.Proofs.Search.Fields
import EntityQuery.Proofs.Search.Grouped
import EntityQuery.Proofs.Search.Labels
import EntityQuery.Proofs.Search.Linked
import EntityQuery.Proofs.Search.Nested
import EntityQuery.Proofs.Search.Normal
import EntityQuery.Proofs.Search.Ordered
import EntityQuery.Proofs.Search.Pages
import EntityQuery.Proofs.Search.Parameters
import EntityQuery.Proofs.Search.Partition
import EntityQuery.Proofs.Search.Placed
import EntityQuery.Proofs.Search.Predicate
import EntityQuery.Proofs.Search.Records
import EntityQuery.Proofs.Search.Restored
import EntityQuery.Proofs.Search.Safety
import EntityQuery.Proofs.Search.Shown
import EntityQuery.Proofs.Search.Source
import EntityQuery.Proofs.Search.Spelled
import EntityQuery.Proofs.Search.Stages
import EntityQuery.Proofs.Search.Unique
import EntityQuery.Proofs.Search.Whole
import EntityQuery.Proofs.Store.Appended
import EntityQuery.Proofs.Store.Cancelled
import EntityQuery.Proofs.Store.Columns
import EntityQuery.Proofs.Store.Expansion
import EntityQuery.Proofs.Store.Filled
import EntityQuery.Proofs.Store.History
import EntityQuery.Proofs.Store.Identified
import EntityQuery.Proofs.Store.Inserted
import EntityQuery.Proofs.Store.Inverse
import EntityQuery.Proofs.Store.Layout
import EntityQuery.Proofs.Store.Rearranged
import EntityQuery.Proofs.Store.Writable
import EntityQuery.Proofs.Text.Casing
import EntityQuery.Proofs.Text.Digits
import EntityQuery.Proofs.Time.Valid
import EntityQuery.Proofs.Time.Written
import EntityQuery.Proofs.Uuid
import EntityQuery.Proofs.Value.Conforming
import EntityQuery.Proofs.Value.EqualKeys
import EntityQuery.Proofs.Value.ReadAgain
import EntityQuery.Proofs.Value.SameKey
import EntityQuery.Proofs.Value.Written
import EntityQuery.Search.Aggregates
import EntityQuery.Search.Page
import EntityQuery.Search.Planner
import EntityQuery.Search.Rebuild
import EntityQuery.Search.Request
import EntityQuery.Search.Run
import EntityQuery.Store.Basic
import EntityQuery.Store.Fetch
import EntityQuery.Store.Plan
import EntityQuery.Store.Table
import EntityQuery.Text.Basic
import EntityQuery.Text.CaseTable
import EntityQuery.Text.Casing
import EntityQuery.Text.LetterTable
import EntityQuery.Time.Calendar
import EntityQuery.Time.Printer
import EntityQuery.Time.Reader
import EntityQuery.Uuid
import EntityQuery.Value.Basic
import EntityQuery.Value.Literal
import EntityQuery.Value.Record
import EntityQuery.Value.ScalarType
