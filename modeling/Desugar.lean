import Desugar.Span
import Desugar.Ty
import Desugar.Tree
import Desugar.Tree.Visit
import Desugar.Tree.Rebuild
import Desugar.Tree.Build
import Desugar.Tree.Names
import Desugar.Path
import Desugar.Fault
import Desugar.Event
import Desugar.Fresh
import Desugar.Imports
import Desugar.Settings
import Desugar.Ty.Lowering
import Desugar.Signature
import Desugar.LocalTypes
import Desugar.NilFlow
import Desugar.ValueTypes
import Desugar.Noted
import Desugar.Pass
import Desugar.Template.Syntax
import Desugar.Text
import Desugar.Template.Split
import Desugar.Template.Expand
import Desugar.Tree.Bindings
import Desugar.Propagation
import Desugar.Dispatch
import Desugar.Compile
import Desugar.Decimal.Shortest
import Desugar.Emit.Literal
import Desugar.Emit.Ty
import Desugar.Emit.Code
import Desugar.Support
import Desugar.Emit
import Desugar.Task.State
import Desugar.Task.Board
import Desugar.Report
import Desugar.Settings.Document.Text
import Desugar.Settings.Document.Node
import Desugar.Settings.Document
import Desugar.Settings.Load
import Desugar.Proofs.Tree.Nodes
import Desugar.Proofs.Tree.Sites
import Desugar.Proofs.Tree.Occurrence
import Desugar.Proofs.Fresh
import Desugar.Proofs.Pass
import Desugar.Proofs.Ty.Lowering
import Desugar.Proofs.Template.Expand
import Desugar.Proofs.Meaning.Env
import Desugar.Proofs.Meaning
import Desugar.Proofs.Meaning.Rules
import Desugar.Proofs.Propagation.Names
import Desugar.Proofs.Propagation.Order
import Desugar.Proofs.Propagation.Simulation
import Desugar.Proofs.Propagation.Operands
import Desugar.Proofs.Propagation.Statements
import Desugar.Proofs.Propagation.Parts
import Desugar.Proofs.Propagation.Behaviour
import Desugar.Proofs.Task.Interleaving
import Desugar.Proofs.Signature
import Desugar.Proofs.Tree.Lowered
import Desugar.Proofs.Pass.Yields
import Desugar.Proofs.Pass.Supply
import Desugar.Proofs.ValueTypes
import Desugar.Proofs.Propagation.Complete
import Desugar.Proofs.Dispatch.Complete
import Desugar.Proofs.Template.Complete
import Desugar.Proofs.Lowering
import Desugar.Proofs.Dispatch.Scope
import Desugar.Proofs.Dispatch.Untouched
import Desugar.Proofs.Dispatch.Redirect
import Desugar.Proofs.Propagation.Trade
import Desugar.Proofs.Propagation.Account
import Desugar.Proofs.Propagation.Discipline
import Desugar.Proofs.Propagation.Returns
import Desugar.Proofs.Propagation.Calls
import Desugar.Proofs.Stable.Types
import Desugar.Proofs.Dispatch.Unbound
import Desugar.Proofs.Stable.NilFlow
import Desugar.Proofs.Stable.Propagation
import Desugar.Proofs.Stable.Templates
import Desugar.Proofs.Template.Kept
import Desugar.Proofs.Stable
import Desugar.Proofs.Idempotent
import Desugar.Proofs.Emit.Accepted
import Desugar.Proofs.Tree.Bindings
import Desugar.Proofs.Base
import Desugar.Proofs.Emit.Lowered
import Desugar.Proofs.Emit.Grammar
import Desugar.Proofs.Emit.ReadBack
import Desugar.Proofs.Dispatch.Wiring
import Desugar.Proofs.Propagation.Sequence
import Desugar.Proofs.Dispatch.Capture
import Desugar.Proofs.Tree.Headers
import Desugar.Proofs.Dispatch.Headers
import Desugar.Proofs.Propagation.Headers
import Desugar.Proofs.Bindings
import Desugar.Proofs.Emit.Types
import Desugar.Proofs.NilFlow
import Desugar.Proofs.Template.Nesting
import Desugar.Proofs.Template.Split
import Desugar.Proofs.Template.Quoted
import Desugar.Proofs.Template.Format
import Desugar.Proofs.Template.Verbatim
import Desugar.Proofs.Template.Offsets
import Desugar.Proofs.Template.Places
import Desugar.Proofs.Pass.Draws
import Desugar.Proofs.Pass.Settles
import Desugar.Proofs.Signature.Keys
import Desugar.Proofs.Ty.Values
import Desugar.Proofs.Propagation.Survey
import Desugar.Proofs.Tree.Survey
import Desugar.Proofs.Tree.Names
import Desugar.Proofs.NewNames
import Desugar.Proofs.Emit.Balanced
import Desugar.Proofs.Emit.Exposed
import Desugar.Proofs.Emit.Headers
import Desugar.Proofs.Pass.Covers
import Desugar.Proofs.Dispatch.Survey
import Desugar.Proofs.Template.Survey
import Desugar.Proofs.Imports
import Desugar.Proofs.LocalTypes
import Desugar.Proofs.Declarations
import Desugar.Proofs.HelperPackages
import Desugar.Proofs.Fresh.Least
import Desugar.Proofs.Propagation.Unhoisted
import Desugar.Proofs.Task.Delivery
import Desugar.Proofs.Ty.Options
import Desugar.Proofs.Task.Dispatched
import Desugar.Proofs.Tree.Address
import Desugar.Proofs.Tree.Traversal
