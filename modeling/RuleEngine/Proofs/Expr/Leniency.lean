import RuleEngine.Proofs.Expr.Agreement

/-! Strict and lenient evaluation. Lenient evaluation is strict evaluation under bindings in which
every variable that was not bound is undefined, so the two differ only where the strict one meets
such a variable.
-/

namespace RuleEngine

/-- Bindings with undefined for those of some names that are not bound. -/
def Bindings.completed (b : Bindings) (names : List String) : Bindings :=
  names.foldl (fun b name => if b.contains name then b else b.insert name .undefined) b

/-- What was bound is looked up as before, and any other of the names is undefined; by induction on
the names.
-/
theorem Bindings.get?_completed (b : Bindings) (names : List String) (name : String)
    : (b.completed names).get? name
      = (b.get? name).or (if name ∈ names then some .undefined else none) := by
  induction names generalizing b with
  | nil => simp [completed]
  | cons first rest ih =>
    have onward : b.completed (first :: rest)
        = completed (if b.contains first then b else b.insert first .undefined) rest := rfl
    rw [onward, ih]
    by_cases same : name = first
    · subst same
      cases bound : b.get? name with
      | none => simp [Fields.contains, bound]
      | some v => simp [Fields.contains, bound]
    · by_cases bound : b.contains first <;> simp [bound, same]

namespace Expr

theorem compatible_eq : Compatible fun {_} x y => x = y where
  refl _ := rfl
  bind {_ _ x _ _ _} same continued := by
    subst same
    cases x with
    | error failure => rfl
    | ok a => exact continued a rfl

/-- The first of two results fails with nothing but certain failures, among them the faults that
operators find.
-/
theorem compatible_failsOnly {among : Failure → Prop}
    (faults : ∀ failure, failure.IsFault → among failure)
    : Compatible fun {_} x _ => FailsOnly among x where
  refl fails := fails.mono faults
  bind first rest := first.bind rest

/-- A variable that is not bound is what a lenient look-up finds undefined and a strict one fails
at.
-/
theorem lookup_lenient_eq (b : Bindings) {names : List String} {name : String}
    (member : name ∈ names)
    : lookup .lenient b name = lookup .strict (b.completed names) name := by
  unfold lookup
  rw [Bindings.get?_completed, if_pos member]
  cases b.get? name <;> rfl

/-- A variable of an expression is not bound, and that is how evaluation fails. -/
def FailsAt (e : Expr) (b : Bindings) (failure : Failure) : Prop :=
  ∃ name ∈ e.varNames, b.get? name = none ∧ failure = .unbound name

/-- Strict evaluation fails at an unbound variable of the expression or finds a fault. -/
theorem evaluate_failsOnly (e : Expr) (b : Bindings)
    : FailsOnly (fun failure => failure.IsFault ∨ e.FailsAt b failure) (e.evaluate b) := by
  refine @Compatible.eval _ (compatible_failsOnly fun _ => .inl) .strict .strict b b e
    fun name occurs => ?_
  unfold lookup
  cases bound : b.get? name with
  | none => exact .error (.inr ⟨name, occurs, bound, rfl⟩)
  | some v => exact .ok v

/-- Lenient evaluation comes to what strict evaluation comes to under bindings in which the
variables that were not bound are undefined. What strict evaluation succeeds with is what either
comes to under all bindings that extend the given ones. Lenient evaluation fails with faults of
operators and operands only, and strict evaluation besides at variables of the expression that are
not bound.
-/
theorem evaluation_modes_agree (e : Expr) (b : Bindings)
    : e.evaluateLenient b = e.evaluate (b.completed e.varNames)
      ∧ (∀ v, e.evaluate b = .ok v → ∀ b', b'.Extends b →
          e.evaluate b' = .ok v ∧ e.evaluateLenient b' = .ok v)
      ∧ (∀ failure, e.evaluateLenient b = .error failure → failure.IsFault)
      ∧ ∀ failure, e.evaluate b = .error failure → failure.IsFault ∨ e.FailsAt b failure := by
  have lenient : e.evaluateLenient b = e.evaluate (b.completed e.varNames) :=
    compatible_eq.eval fun name occurs => lookup_lenient_eq b occurs
  refine ⟨lenient, fun v value b' more => ?_, fun failure failed => ?_, e.evaluate_failsOnly b⟩
  · have moreOn : b'.ExtendsOn (fun _ => True) b := .of_extends more
    have everywhere (mode : Strictness) : e.eval mode b' = .ok v :=
      eval_of_extendsOn mode moreOn (fun _ _ => trivial) value
    exact ⟨everywhere .strict, everywhere .lenient⟩
  · rw [lenient] at failed
    rcases evaluate_failsOnly _ _ failure failed with fault | ⟨name, occurs, unbound, -⟩
    · exact fault
    · cases before : b.get? name <;> simp [Bindings.get?_completed, occurs, before] at unbound

end Expr

end RuleEngine
