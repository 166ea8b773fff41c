import Mathlib.Data.List.Basic
import RuleEngine.Expr.Eval

/-! What operators fail with. Whatever their operands are, as long as they have the number of
operands that they take, they find fault with an operand or divide by zero, and nothing else.
-/

namespace RuleEngine

/-- A failure that an operator finds by itself, apart from the look-up of a variable. -/
inductive Failure.IsFault : Failure → Prop where
  | guard (fault : GuardFault) : IsFault (.guard fault)
  | divisionByZero : IsFault .divisionByZero

/-- A result fails with nothing but certain failures. -/
def FailsOnly {α : Type} (among : Failure → Prop) (x : Except Failure α) : Prop :=
  ∀ failure, x = .error failure → among failure

namespace FailsOnly

variable {α β : Type} {among : Failure → Prop} {x : Except Failure α}

theorem ok (a : α) : FailsOnly among (.ok a) := nofun

theorem error {failure : Failure} (member : among failure)
    : FailsOnly among (.error failure : Except Failure α) := by
  rintro _ ⟨⟩
  exact member

theorem bind {f : α → Except Failure β} (first : FailsOnly among x)
    (rest : ∀ a, x = .ok a → FailsOnly among (f a))
    : FailsOnly among (x.bind f) := by
  cases x with
  | error failure => exact error (first failure rfl)
  | ok a => exact rest a rfl

theorem map (fails : FailsOnly among x) (f : α → β) : FailsOnly among (x.map f) := by
  cases x with
  | error failure => exact error (fails failure rfl)
  | ok a => exact ok (f a)

theorem mono {among' : Failure → Prop} (fails : FailsOnly among x)
    (le : ∀ failure, among failure → among' failure)
    : FailsOnly among' x :=
  fun failure failed => le failure (fails failure failed)

end FailsOnly

namespace Operator

theorem numeric_faults (o : Operator) (v : Value) : FailsOnly Failure.IsFault (o.numeric v) := by
  unfold numeric
  split
  · exact .ok _
  · exact .error (.guard _)

/-- By induction on the operands. -/
theorem foldNumbers_faults (o : Operator) (combine : Number → Number → Number) (start : Number)
    (vs : List Value)
    : FailsOnly Failure.IsFault (o.foldNumbers combine start vs) := by
  induction vs generalizing start with
  | nil => exact .ok start
  | cons v vs ih => exact ((o.numeric_faults v).map (combine start)).bind fun n _ => ih n

theorem comparison_faults (o : Operator) (test : Number → Number → Bool) (a b : Value)
    : FailsOnly Failure.IsFault (o.comparison test a b) :=
  (o.numeric_faults a).bind fun _ _ => (o.numeric_faults b).bind fun _ _ => .ok _

theorem sum_faults (vs : List Value) : FailsOnly Failure.IsFault (sum vs) := by
  unfold sum
  split
  · exact .ok _
  · exact (foldNumbers_faults add _ _ vs).map _

theorem quotient_faults (a b : Value) : FailsOnly Failure.IsFault (quotient a b) := by
  refine (numeric_faults divide a).bind fun _ _ => (numeric_faults divide b).bind fun _ _ => ?_
  split
  · exact .error .divisionByZero
  · exact .ok _

/-- Whether an operator looks at its operands' values only, so that all of them are evaluated
first.
-/
def isEager : Operator → Bool
  | path | pathOr | hasSize => false
  | _ => true

/-- Operators get as many operands as they take, so they never find the number changed. -/
theorem apply_faults {o : Operator} {vs : List Value} (eager : o.isEager)
    (accepted : o.arity.accepts vs.length)
    : FailsOnly Failure.IsFault (o.apply vs) := by
  cases o with
  | path | pathOr | hasSize => cases eager
  | greater | greaterEq | less | lessEq =>
    obtain ⟨a, b, rfl⟩ := List.length_eq_two.mp (by simpa [arity, Arity.accepts] using accepted)
    exact comparison_faults _ _ a b
  | equal | unequal =>
    obtain ⟨a, b, rfl⟩ := List.length_eq_two.mp (by simpa [arity, Arity.accepts] using accepted)
    exact .ok _
  | isNil | isDefined =>
    obtain ⟨v, rfl⟩ := List.length_eq_one_iff.mp (by simpa [arity, Arity.accepts] using accepted)
    exact .ok _
  | divide =>
    obtain ⟨a, b, rfl⟩ := List.length_eq_two.mp (by simpa [arity, Arity.accepts] using accepted)
    exact quotient_faults a b
  | add => exact sum_faults vs
  | multiply => exact (foldNumbers_faults multiply _ _ vs).map _
  | subtract =>
    rcases vs with _ | ⟨v, _ | ⟨w, vs⟩⟩
    · cases accepted
    · exact (numeric_faults subtract v).map _
    · exact (numeric_faults subtract v).bind fun n _ =>
        (foldNumbers_faults subtract _ n (w :: vs)).map _

end Operator

end RuleEngine
