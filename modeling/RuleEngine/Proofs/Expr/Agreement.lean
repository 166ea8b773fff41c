import RuleEngine.Proofs.Expr.Faults
import RuleEngine.Proofs.Pattern.Growth

/-! Evaluation under two bindings. Expressions look at bindings only through their variables, so
what relates the look-ups of the variables relates the values of the expression. What evaluation
comes to is therefore either what a look-up comes to or found without one.
-/

namespace RuleEngine

namespace Expr

/-- Induction on expressions: what holds of the operands of a call holds of it. -/
@[elab_as_elim]
theorem induction {motive : Expr → Prop} (var : ∀ name, motive (var name))
    (lit : ∀ v, motive (lit v))
    (call : ∀ operator operands, (∀ e ∈ operands, motive e) → motive (call operator operands))
    (matcher : ∀ accepts, motive (matcher accepts))
    : ∀ e, motive e := by
  intro e
  apply @Expr.rec motive (fun operands => ∀ e ∈ operands, motive e)
  case var => exact var
  case lit => exact lit
  case call => exact call
  case matcher => exact matcher
  case nil => exact nofun
  case cons =>
    intro first rest here there e member
    rcases List.mem_cons.mp member with rfl | later
    · exact here
    · exact there e later

mutual

/-- The variables that occur in an expression. -/
def varNames : Expr → List String
  | var name => [name]
  | call _ operands => varNamesAll operands
  | lit _ | matcher _ => []

def varNamesAll : List Expr → List String
  | [] => []
  | e :: es => e.varNames ++ varNamesAll es

end

theorem mem_varNamesAll {operands : List Expr} {e : Expr} {name : String} (operand : e ∈ operands)
    (occurs : name ∈ e.varNames)
    : name ∈ varNamesAll operands := by
  induction operands with
  | nil => cases operand
  | cons first rest ih =>
    rcases List.mem_cons.mp operand with rfl | later
    · exact List.mem_append_left _ occurs
    · exact List.mem_append_right _ (ih later)

/-- A relation of results that goes over from steps to what is made of them, and that relates to
itself whatever operators come to.
-/
structure Compatible (R : {α : Type} → Except Failure α → Except Failure α → Prop) : Prop where
  refl : ∀ {α : Type} {x : Except Failure α}, FailsOnly Failure.IsFault x → R x x
  bind : ∀ {α β : Type} {x y : Except Failure α} {f g : α → Except Failure β}, R x y →
    (∀ a, x = .ok a → R (f a) (g a)) → R (x.bind f) (y.bind g)

/-- Operands are evaluated to as many values, by induction on them. -/
theorem length_of_evalAll {mode : Strictness} {b : Bindings} {operands : List Expr}
    {vs : List Value} (values : evalAll mode b operands = .ok vs)
    : vs.length = operands.length := by
  induction operands generalizing vs with
  | nil =>
    simp only [evalAll, Except.ok.injEq] at values
    simp [← values]
  | cons e es ih =>
    simp only [evalAll] at values
    cases first : eval mode b e with
    | error failure => simp [first, Except.bind] at values
    | ok v =>
      cases rest : evalAll mode b es with
      | error failure => simp [first, rest, Except.bind, Except.map] at values
      | ok ws =>
        simp only [first, rest, Except.bind, Except.map, Except.ok.injEq] at values
        simp [← values, ih rest]

namespace Compatible

variable {R : {α : Type} → Except Failure α → Except Failure α → Prop} (compatible : Compatible R)
  {mode mode' : Strictness} {b b' : Bindings}

include compatible

theorem ok {α : Type} (a : α) : R (.ok a) (.ok a) := compatible.refl (.ok a)

theorem fault {α : Type} (fault : GuardFault)
    : R (.error (.guard fault) : Except Failure α) (.error (.guard fault)) :=
  compatible.refl (.error (.guard fault))

theorem map {α β : Type} {x y : Except Failure α} (related : R x y) (f : α → β)
    : R (x.map f) (y.map f) := by
  have asBind (z : Except Failure α) : z.map f = z.bind fun a => .ok (f a) := by
    cases z <;> rfl
  rw [asBind, asBind]
  exact compatible.bind related fun a _ => compatible.ok (f a)

/-- By induction on the operands. -/
theorem evalAll {operands : List Expr}
    (each : ∀ e ∈ operands, R (eval mode b e) (eval mode' b' e))
    : R (evalAll mode b operands) (evalAll mode' b' operands) := by
  induction operands with
  | nil =>
    simp only [Expr.evalAll]
    exact compatible.ok _
  | cons e es ih =>
    simp only [Expr.evalAll]
    have rest := ih fun e member => each e (List.mem_cons_of_mem _ member)
    exact compatible.bind (each e List.mem_cons_self) fun v _ => compatible.map rest (v :: ·)

/-- By induction on the keys. -/
theorem walk {keys : List Expr} (each : ∀ e ∈ keys, R (eval mode b e) (eval mode' b' e))
    (v : Value)
    : R (walk mode b v keys) (walk mode' b' v keys) := by
  induction keys generalizing v with
  | nil =>
    simp only [Expr.walk]
    exact compatible.ok _
  | cons key keys ih =>
    simp only [Expr.walk]
    refine compatible.bind (each key List.mem_cons_self) fun key _ => ?_
    cases Operator.step? v key with
    | none => exact compatible.ok _
    | some next => exact ih (fun e member => each e (List.mem_cons_of_mem _ member)) next

theorem evalPath {operands : List Expr}
    (each : ∀ e ∈ operands, R (eval mode b e) (eval mode' b' e))
    : R (evalPath mode b operands) (evalPath mode' b' operands) := by
  cases operands with
  | nil =>
    simp only [Expr.evalPath]
    exact compatible.ok _
  | cons target keys =>
    simp only [Expr.evalPath]
    exact compatible.bind (each target List.mem_cons_self) fun v _ =>
      compatible.walk (fun e member => each e (List.mem_cons_of_mem _ member)) v

theorem evalPathOr {operands : List Expr}
    (each : ∀ e ∈ operands, R (eval mode b e) (eval mode' b' e))
    : R (evalPathOr mode b operands) (evalPathOr mode' b' operands) := by
  rcases operands with _ | ⟨fallback, _ | ⟨target, keys⟩⟩
  · simp only [Expr.evalPathOr]
    exact compatible.ok _
  · simp only [Expr.evalPathOr]
    exact compatible.ok _
  · simp only [Expr.evalPathOr]
    refine compatible.bind (each target (by simp)) fun v _ => ?_
    refine compatible.bind (compatible.walk (fun e member => each e (by simp [member])) v) ?_
    intro found _
    split
    · exact each fallback List.mem_cons_self
    · exact compatible.ok _

theorem compareSize (size expected : Value)
    : R (compareSize size expected) (compareSize size expected) := by
  unfold Expr.compareSize
  split
  · exact compatible.ok _
  · exact compatible.fault _

theorem evalHasSize {operands : List Expr}
    (each : ∀ e ∈ operands, R (eval mode b e) (eval mode' b' e))
    : R (evalHasSize mode b operands) (evalHasSize mode' b' operands) := by
  unfold Expr.evalHasSize
  split
  · rename_i target expected
    refine compatible.bind (each target (by simp)) fun v _ => ?_
    cases v.size? with
    | none => exact compatible.ok _
    | some size =>
      cases expected with
      | matcher accepts => exact compatible.ok _
      | var | lit | call =>
        exact compatible.bind (each _ (by simp)) fun _ _ => compatible.compareSize _ _
  · exact compatible.ok _

/-- By cases on the operator, the unknown and the wrongly used ones first. -/
theorem evalCall {operands : List Expr} (operator : String)
    (each : ∀ e ∈ operands, R (eval mode b e) (eval mode' b' e))
    : R (eval mode b (call operator operands)) (eval mode' b' (call operator operands)) := by
  simp only [eval]
  cases Operator.named? operator with
  | none => exact compatible.fault _
  | some o =>
    dsimp only
    split
    · rename_i accepted
      -- An operator that takes its operands as values gets one for each.
      have eager (isEager : o.isEager)
          : R ((Expr.evalAll mode b operands).bind o.apply)
              ((Expr.evalAll mode' b' operands).bind o.apply) := by
        refine compatible.bind (compatible.evalAll each) fun vs values => compatible.refl ?_
        exact Operator.apply_faults isEager (length_of_evalAll values ▸ accepted)
      cases o with
      | path => exact compatible.evalPath each
      | pathOr => exact compatible.evalPathOr each
      | hasSize => exact compatible.evalHasSize each
      | _ => exact eager rfl
    · exact compatible.fault _

/-- What relates the look-ups of the variables of an expression relates its values, by induction on
the expression.
-/
theorem eval {e : Expr}
    (lookups : ∀ name ∈ e.varNames, R (lookup mode b name) (lookup mode' b' name))
    : R (eval mode b e) (eval mode' b' e) := by
  induction e using Expr.induction with
  | var name =>
    simp only [Expr.eval]
    exact lookups name (by simp [varNames])
  | lit v =>
    simp only [Expr.eval]
    exact compatible.ok _
  | matcher accepts =>
    simp only [Expr.eval]
    exact compatible.fault _
  | call operator operands ih =>
    refine compatible.evalCall operator fun e operand => ih e operand fun name occurs => ?_
    exact lookups name (mem_varNamesAll operand occurs)

end Compatible

/-- Every value of a result is one of another. -/
def Succeeds {α : Type} (x y : Except Failure α) : Prop := ∀ a, x = .ok a → y = .ok a

theorem compatible_succeeds : Compatible Succeeds where
  refl _ _ same := same
  bind {_ _ x _ _ _} related continued c reached := by
    cases x with
    | error failure => cases reached
    | ok a =>
      rw [related a rfl]
      exact continued a rfl c reached

/-- An expression keeps its value under bindings that hold what others hold of its variables, and
whether unbound variables fail or not.
-/
theorem eval_of_extendsOn {among : String → Prop} {b b' : Bindings} {e : Expr} {v : Value}
    (mode : Strictness) (more : b'.ExtendsOn among b)
    (occurring : ∀ name ∈ e.varNames, among name) (value : e.evaluate b = .ok v)
    : e.eval mode b' = .ok v := by
  refine compatible_succeeds.eval (fun name occurs w found => ?_) v value
  unfold lookup at found ⊢
  cases bound : b.get? name with
  | none => simp [bound] at found
  | some u =>
    simp only [bound] at found
    simpa [more name u (occurring name occurs) bound] using found

/-- An expression keeps its value under bindings that hold what others hold of its variables. -/
theorem evaluate_of_extendsOn {among : String → Prop} {b b' : Bindings} {e : Expr} {v : Value}
    (more : b'.ExtendsOn among b) (occurring : ∀ name ∈ e.varNames, among name)
    (value : e.evaluate b = .ok v)
    : e.evaluate b' = .ok v :=
  eval_of_extendsOn .strict more occurring value

end Expr

end RuleEngine
