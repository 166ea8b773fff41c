import RuleEngine.Variable

/-! Variables bound to variables. Such a chain is followed until it leaves the bare variables, or
until it meets a variable for the second time.
-/

namespace RuleEngine

namespace Bindings

inductive ChainEnd where
  /-- At a variable that is not bound. -/
  | unbound (name : String)
  /-- At a value that is no bare variable. -/
  | value (v : Value)
  /-- At a value that names a variable of the chain itself. -/
  | cycle (v : Value)

/-- The variable that a value consists of. -/
def bareVariable? : Value → Option String
  | .string s => if Variable.isVariable s then some s else none
  | _ => none

/-- Follows a chain for a number of steps. The names in `seen` are those that were passed, and
`name` is the next one.
-/
def chase (b : Bindings) : Nat → List String → String → Option ChainEnd
  | 0, _, _ => none
  | steps + 1, seen, name =>
    match b.get? name with
    | none => some (.unbound name)
    | some bound =>
      match bareVariable? bound with
      | none => some (.value bound)
      | some next =>
        if seen.contains next then some (.cycle bound)
        else b.chase steps (next :: seen) next

/-- The end of the chain that starts at a variable. All its names but the last are bound and
differ, so it has at most one more than there are bindings.
-/
def chainEnd? (b : Bindings) (name : String) : Option ChainEnd :=
  chase b (b.size + 1) [name] name

end Bindings

end RuleEngine
