import Traversal.Decimal.Shortest
import Traversal.Directory
import Traversal.Ids
import Traversal.InputError
import Traversal.Json.Decode
import Traversal.Json.Node
import Traversal.Json.Number
import Traversal.Json.Token
import Traversal.Json.Value
import Traversal.LoadOptions
import Traversal.NameTable
import Traversal.NodeList
import Traversal.Overlay
import Traversal.Path.Basic
import Traversal.Path.Compile
import Traversal.Path.Outline
import Traversal.Path.Reverse
import Traversal.Plan.Basic
import Traversal.Plan.Describe
import Traversal.Plan.Evaluate
import Traversal.Plan.Outline
import Traversal.Quad.Basic
import Traversal.Quad.Json
import Traversal.Query
import Traversal.Registry
import Traversal.Source
import Traversal.Statement.Basic
import Traversal.Statement.Read
import Traversal.Store.Basic
import Traversal.Store.File
import Traversal.Store.Index
import Traversal.Store.Load
import Traversal.StoreError
import Traversal.Text.Blank
import Traversal.Text.Hidden
import Traversal.Text.Outline
import Traversal.Text.Quoted
import Traversal.Text.Segments
import Traversal.Proofs.Store.Numbering
import Traversal.Proofs.Store.Names
import Traversal.Proofs.Store.Index
import Traversal.Proofs.Store.Valid
import Traversal.Proofs.Store.Reachable
import Traversal.Proofs.Store.Exact
import Traversal.Proofs.Store.Lines
import Traversal.Proofs.Store.Demand
import Traversal.Proofs.Store.Append
import Traversal.Proofs.Store.Replay
import Traversal.Proofs.Store.Reload
import Traversal.Proofs.Store.Tsv
import Traversal.Proofs.Json.Escape
import Traversal.Proofs.Json.Digits
import Traversal.Proofs.Json.Written
import Traversal.Proofs.Store.JsonLines
import Traversal.Proofs.Plan.Meaning
import Traversal.Proofs.Plan.Failure
import Traversal.Proofs.Plan.EarlyExit
import Traversal.Proofs.Plan.Operands
import Traversal.Proofs.Plan.Tags
import Traversal.Proofs.Path.Compile
import Traversal.Proofs.Path.Lookups
import Traversal.Proofs.Query.Growth
import Traversal.Proofs.Plan.Kind
import Traversal.Proofs.Path.Kind
import Traversal.Proofs.Path.Converse
import Traversal.Proofs.Path.Additive
import Traversal.Proofs.Path.Reverse
import Traversal.Proofs.Path.Inline
import Traversal.Proofs.Path.Binding
import Traversal.Proofs.Path.Failure
import Traversal.Proofs.Path.PredicateList
import Traversal.Proofs.Path.Transfer
import Traversal.Proofs.Store.Content
import Traversal.Proofs.Query.Answer
import Traversal.Proofs.Query.ArrivalOrder
import Traversal.Proofs.Query.Positive
import Traversal.Proofs.Query.Faults
import Traversal.Proofs.Store.Requests
import Traversal.Proofs.Store.Malformed
import Traversal.Proofs.Store.Layout
import Traversal.Proofs.Path.Untag
import Traversal.Proofs.Path.Tags
import Traversal.Proofs.Path.Closed
import Traversal.Proofs.Query.Named
import Traversal.Proofs.Store.Interning
import Traversal.Proofs.Plan.Describe
import Traversal.Proofs.Json.Reading
import Traversal.Proofs.Json.Members
import Traversal.Proofs.Store.Members
import Traversal.Proofs.Directory
import Traversal.Proofs.Store.Options
