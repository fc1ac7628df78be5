import DecisionGraph.Expression.Printer
import DecisionGraph.Main
import DecisionGraph.Proofs.Propagation.Fresh
import DecisionGraph.Proofs.Propagation.Cycles
import DecisionGraph.Proofs.Content.Agreement
import DecisionGraph.Proofs.Behavior.Determined
import DecisionGraph.Proofs.Propagation.Memo
import DecisionGraph.Proofs.Diff.Current
import DecisionGraph.Proofs.Diff.Partners
import DecisionGraph.Proofs.Diff.SameContent
import DecisionGraph.Proofs.Propagation.Unannotated
import DecisionGraph.Proofs.Topology.Search
import DecisionGraph.Proofs.Topology.Complete
import DecisionGraph.Proofs.Expression.Grammar
import DecisionGraph.Proofs.Expression.Order
import DecisionGraph.Proofs.Double.Reread
import DecisionGraph.Proofs.Expression.Everywhere
import DecisionGraph.Proofs.Expression.Levels
import DecisionGraph.Proofs.Expression.Lexing
import DecisionGraph.Proofs.Expression.Grouping
import DecisionGraph.Proofs.Expression.Height
import DecisionGraph.Proofs.Expression.Printed
import DecisionGraph.Proofs.Expression.Reparse
import DecisionGraph.Proofs.Expression.Tower
import DecisionGraph.Proofs.Shape.Order
import DecisionGraph.Proofs.Shape.Normal
import DecisionGraph.Proofs.Shape.Documents
import DecisionGraph.Proofs.Shape.Inferred
import DecisionGraph.Proofs.Propagation.Bounded
import DecisionGraph.Proofs.Diff.Conservation
import DecisionGraph.Proofs.Propagation.Incremental
import DecisionGraph.Proofs.Propagation.Cone
import DecisionGraph.Proofs.Diff.Rewiring
import DecisionGraph.Proofs.Diff.Mirror
import DecisionGraph.Proofs.Diff.Transitive
import DecisionGraph.Proofs.Double.Numeral
import DecisionGraph.Proofs.Json.Reread
import DecisionGraph.Proofs.Diff.Direction
import DecisionGraph.Proofs.Diff.Layout
import DecisionGraph.Proofs.Diff.Rows
import DecisionGraph.Proofs.Diff.Undo
import DecisionGraph.Proofs.Diff.Reordered
import DecisionGraph.Proofs.Canonical
import DecisionGraph.Proofs.Malformed
import DecisionGraph.Proofs.Behavior.Results
import DecisionGraph.Proofs.Shape.Truncated
import DecisionGraph.Proofs.Shape.Merged
import DecisionGraph.Proofs.Shape.Conforming
import DecisionGraph.Proofs.Shape.Gathered
import DecisionGraph.Proofs.Expression.Location
import DecisionGraph.Proofs.Expression.Strict
import DecisionGraph.Proofs.Expression.Coalesce
import DecisionGraph.Proofs.Expression.Splitting
import DecisionGraph.Proofs.Expression.Separated
import DecisionGraph.Proofs.Expression.Parentheses
import DecisionGraph.Proofs.Expression.Quotes
import DecisionGraph.Proofs.Expression.Literals
import DecisionGraph.Proofs.Diff.Insertion
import DecisionGraph.Proofs.Behavior.Looped
import DecisionGraph.Proofs.Propagation.Dirty
import DecisionGraph.Proofs.Topology.Validity
import DecisionGraph.Proofs.Topology.Settling
import DecisionGraph.Proofs.Graph.Reread
