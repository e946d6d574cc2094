import QueryPlan.Builder
import QueryPlan.Optimizer.Basic
import QueryPlan.Proofs.Elimination.Step
import QueryPlan.Proofs.Graph.Import
import QueryPlan.Proofs.Graph.Renumbering
import QueryPlan.Proofs.Graph.Replacement
import QueryPlan.Proofs.Plan.BreadthFirst
import QueryPlan.Proofs.Plan.Building
import QueryPlan.Proofs.Plan.Construction
import QueryPlan.Proofs.Run.Iteration
import QueryPlan.Proofs.Equality.Form
import QueryPlan.Proofs.Rewrite.Tree
import QueryPlan.Proofs.Run.Optimization
import QueryPlan.Proofs.Rewrite.Alike
import QueryPlan.Proofs.Rewrite.Confluence
import QueryPlan.Proofs.Run.Confluence
import QueryPlan.Proofs.Elimination.Outcome
import QueryPlan.Proofs.Elimination.Requests
import QueryPlan.Proofs.Elimination.Shape
import QueryPlan.Proofs.Graph.Levels
import QueryPlan.Proofs.Plan.Rebuilding
import QueryPlan.Proofs.Run.Reachable
import QueryPlan.Proofs.Run.RoundTrip
import QueryPlan.Proofs.Run.Sharing
import QueryPlan.Proofs.Run.Substitution
import QueryPlan.Proofs.Run.Order
import QueryPlan.Proofs.Run.Trace
import QueryPlan.Proofs.Typing.Soundness
import QueryPlan.Proofs.Elimination.Indifference
import QueryPlan.Proofs.Plan.Matching
import QueryPlan.Proofs.Plan.Traversal
import QueryPlan.Proofs.Typing.Checking
import QueryPlan.Proofs.Typing.Conjunction
import QueryPlan.Proofs.Text.Outline
import QueryPlan.Proofs.Text.Expression
import QueryPlan.Proofs.Equality.Congruence
import QueryPlan.Proofs.Store.Invariant
