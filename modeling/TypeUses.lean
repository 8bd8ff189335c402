import TypeUses.Main
import TypeUses.Resolution.Descent
import TypeUses.Scope.Operation
import TypeUses.Tree.Call
import TypeUses.Tree.Children
import TypeUses.Tree.Description
import TypeUses.Proofs.Resolution.Extension
import TypeUses.Proofs.Resolution.Hygiene
import TypeUses.Proofs.Resolution.Naming
import TypeUses.Proofs.Resolution.Totality
import TypeUses.Proofs.Resolution.Numbering
import TypeUses.Proofs.Resolution.Recursion
import TypeUses.Proofs.Resolution.Contexts
import TypeUses.Proofs.Scope.Kinds
import TypeUses.Proofs.Resolution.Kinds
import TypeUses.Proofs.Resolution.Visibility
import TypeUses.Proofs.Scope.Leaving
import TypeUses.Proofs.Scope.Locals
import TypeUses.Proofs.Scope.Nesting
import TypeUses.Proofs.Scope.WriteOnce
import TypeUses.Proofs.Scope.Tags
import TypeUses.Proofs.Scope.Completion
import TypeUses.Proofs.Tree.Building
import TypeUses.Proofs.Scope.History
import TypeUses.Proofs.Scope.Replay
import TypeUses.Proofs.Resolution.Tables
import TypeUses.Proofs.Resolution.Classes
import TypeUses.Proofs.Scope.Body
import TypeUses.Proofs.Scope.Shut
import TypeUses.Proofs.Resolution.Parameters
import TypeUses.Proofs.Tree.Search
import TypeUses.Proofs.Resolution.Comments
import TypeUses.Proofs.Resolution.Counting
import TypeUses.Proofs.Resolution.Order
import TypeUses.Proofs.Command.Search
import TypeUses.Proofs.Command.Strictness
import TypeUses.Proofs.Resolution.Functions
import TypeUses.Proofs.Resolution.Labels
import TypeUses.Proofs.Resolution.Qualified
import TypeUses.Proofs.Resolution.Typedefs
import TypeUses.Proofs.Resolution.Carriers
import TypeUses.Proofs.Resolution.Reopening
import TypeUses.Proofs.Resolution.Open
import TypeUses.Proofs.Resolution.OwnNames
import TypeUses.Proofs.Config.Extensions
