import RuleEngine.Condition.Basic
import RuleEngine.Expr.Eval
import RuleEngine.Pattern.Match

/-! The join of conditions: every way in which facts meet a list of conditions from left to right.
Each choice of a fact carries bindings of its own, and facts are chosen in the order of their
identities, so matches come in lexicographic order.

A match of a pattern may never come to an end, and whoever joins is then caught in it. The steps of
a join mark where that is. They go on behind the mark as if the match had failed, so what stands
there is what would follow, and the steps are those that are taken only if nothing is marked.
-/

namespace RuleEngine

structure Match where
  bindings : Bindings
  /-- The facts of the pattern conditions, in the order of the conditions. -/
  consumed : List FactId

/-- What happens in the course of a join. -/
inductive JoinStep where
  /-- A guard cannot be evaluated, and its candidate is given up. -/
  | fault (guard : Expr) (failure : Failure)
  /-- A match of a pattern never comes to an end, and nothing that follows happens. -/
  | endless
  | found (m : Match)

namespace JoinStep

def match? : JoinStep → Option Match
  | fault .. | endless => none
  | found m => some m

/-- The step with a fact put in front of those that its match consumes. -/
def consuming (id : FactId) : JoinStep → JoinStep
  | fault guard failure => fault guard failure
  | endless => endless
  | found m => found { m with consumed := id :: m.consumed }

end JoinStep

/-- The bindings that a value leaves after matching a pattern, if it matches. A match without an
outcome leaves none; whoever tries it has to mark that it has none.
-/
def Pattern.bind? (p : Pattern) (v : Value) (b : Bindings) : Option Bindings :=
  match p.match? v b with
  | some ⟨true, bindings⟩ => some bindings
  | _ => none

def Pattern.accepts (p : Pattern) (f : Fact) (b : Bindings) : Bool :=
  (p.bind? (.fact f) b).isSome

inductive GuardOutcome where
  | passed
  | failed
  | fault (guard : Expr) (failure : Failure)

/-- Puts guards to bindings, up to the first that is not true. -/
def checkGuards (b : Bindings) : List Expr → GuardOutcome
  | [] => .passed
  | guard :: guards =>
    match guard.evaluate b with
    | .error failure => .fault guard failure
    | .ok v => if v.isTruthy then checkGuards b guards else .failed

namespace Join

/-- Matches a value and goes on with the bindings that it leaves, if it matches. -/
def attempt (p : Pattern) (v : Value) (b : Bindings) (onward : Bindings → List JoinStep)
    : List JoinStep :=
  match p.match? v b with
  | none => [.endless]
  | some ⟨true, bindings⟩ => onward bindings
  | some ⟨false, _⟩ => []

/-- Matches facts only to see which of them match. -/
def probe (p : Pattern) (b : Bindings) (facts : List Fact) : List JoinStep :=
  facts.flatMap fun f => attempt p (.fact f) b fun _ => []

/-- The aggregate of the facts that match. -/
def aggregate (facts : List Fact) (c : AccumulateCondition) (b : Bindings) : Value :=
  c.accumulator.apply (facts.filter (c.pattern.accepts · b))

/-- Goes on with a fact that passes the guards of a pattern condition. -/
def guarded (c : PatternCondition) (onward : Bindings → List JoinStep) (f : Fact) (b : Bindings)
    : List JoinStep :=
  match checkGuards b c.guards with
  | .passed => (onward b).map (·.consuming f.id)
  | .failed => []
  | .fault guard failure => [.fault guard failure]

/-- Goes on with a fact that meets a pattern condition. A name given to the fact is bound with the
question mark, as a variable, and without it.
-/
def choose (c : PatternCondition) (onward : Bindings → List JoinStep) (b : Bindings) (f : Fact)
    : List JoinStep :=
  attempt c.pattern (.fact f) b fun b =>
    match c.factName with
    | none => guarded c onward f b
    | some name =>
      attempt (.varNamed name) (.fact f) b fun b => guarded c onward f (b.insert name (.fact f))

/-- The steps of a join. `facts` gives the facts of a kind in the order of their identities. -/
def steps (facts : String → List Fact) : List Condition → Bindings → List JoinStep
  | [], b => [.found ⟨b, []⟩]
  | .lacks c :: rest, b =>
    -- The first fact that matches is the last one that is looked at.
    probe c.pattern b ((facts c.kind).takeWhile (!c.pattern.accepts · b))
      ++ if (facts c.kind).any (c.pattern.accepts · b) then [] else steps facts rest b
  | .accumulate c :: rest, b =>
    probe c.pattern b (facts c.kind)
      ++ attempt (.var c.target) (aggregate (facts c.kind) c b) b (steps facts rest)
  | .pattern c :: rest, b => (facts c.kind).flatMap (choose c (steps facts rest) b)

/-- The steps up to the match with which the limit is reached. The limit is looked at after each
match, so no limit keeps the first match out.
-/
def untilFound : Nat → List JoinStep → List JoinStep
  | _, [] => []
  | limit, .found m :: rest => .found m :: if limit ≤ 1 then [] else untilFound (limit - 1) rest
  | limit, .fault guard failure :: rest => .fault guard failure :: untilFound limit rest
  | limit, .endless :: rest => .endless :: untilFound limit rest

def upTo (limit : Option Nat) (steps : List JoinStep) : List JoinStep :=
  match limit with
  | none => steps
  | some limit => untilFound limit steps

def found (steps : List JoinStep) : List Match := steps.filterMap (·.match?)

end Join

end RuleEngine
