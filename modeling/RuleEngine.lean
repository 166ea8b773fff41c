import RuleEngine.Engine.Observed
import RuleEngine.Engine.Text
import RuleEngine.Explanation
import RuleEngine.Failure.Place
import RuleEngine.Proofs.Engine.Cascade
import RuleEngine.Proofs.Engine.Pause
import RuleEngine.Proofs.Engine.Selection
import RuleEngine.Proofs.Join.Tuples
import RuleEngine.Proofs.Pattern.Stability
import RuleEngine.Trace.Tracer
import RuleEngine.Value.Document
import RuleEngine.Value.Lemmas
import RuleEngine.Proofs.Expr.Agreement
import RuleEngine.Proofs.Join.Stages
import RuleEngine.Proofs.Engine.QueryPaths
import RuleEngine.Proofs.Engine.Rounds
import RuleEngine.Proofs.Trace.ReadBack
import RuleEngine.Proofs.Store.Lifetime
import RuleEngine.Proofs.Engine.Changes
import RuleEngine.Proofs.Engine.Budget
import RuleEngine.Proofs.Engine.Precedence
import RuleEngine.Proofs.Explanation.Completeness
import RuleEngine.Proofs.Expr.Leniency
import RuleEngine.Proofs.Pattern.Containment
import RuleEngine.Proofs.Pattern.Repetition
import RuleEngine.Proofs.Query.Shaping
import RuleEngine.Proofs.Expr.Grammar
import RuleEngine.Proofs.Pattern.Destructuring
import RuleEngine.Proofs.Schema.Conformance
import RuleEngine.Proofs.Engine.Lifecycle
import RuleEngine.Proofs.Trace.Views
import RuleEngine.Proofs.Trace.Values
import RuleEngine.Proofs.Event.Dispatch
import RuleEngine.Proofs.Explanation.Depth
import RuleEngine.Proofs.Accumulator.Concatenation
import RuleEngine.Proofs.Engine.Isolation
import RuleEngine.Proofs.Value.StrictEquality
import RuleEngine.Proofs.Trace.Lines
import RuleEngine.Proofs.Query.Sorting
import RuleEngine.Proofs.Pattern.Following
