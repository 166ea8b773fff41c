import Mathlib.Data.List.Forall2
import RuleEngine.Proofs.Expr.Agreement
import RuleEngine.Value.Lemmas

/-! Which data is an expression, and how an expression is written as data. Reading and writing are
inverse to each other, so no data is read as something that could have been written otherwise.
-/

namespace RuleEngine

/-- Data that is a call: a list of an operator's name and operands, among which every list is a
call again. Lists inside maps are not operands.
-/
inductive Value.IsCall : Value → Prop where
  | call (operator : String) {operands : List Value}
    (nested : ∀ items, list items ∈ operands → IsCall (list items))
    : IsCall (list (string operator :: operands))

/-- A failure finds data that is no expression. -/
def Failure.IsMalformed (failure : Failure) : Prop := ∃ data, failure = .guard (.malformed data)

namespace Expr

mutual

/-- An expression as data. A matcher is a function and cannot be written. -/
def written : Expr → Value
  | var name => .string name
  | lit value => value
  | call operator operands => .list (.string operator :: writtenAll operands)
  | matcher _ => .undefined

def writtenAll : List Expr → List Value
  | [] => []
  | e :: es => e.written :: writtenAll es

end

/-- An expression that can be told from what is written for it: it has no matchers, its variables
are marked, and its literals are neither lists nor the names of variables.
-/
inductive IsLegible : Expr → Prop where
  | var {name : String} (isVariable : Variable.isVariable name) : IsLegible (var name)
  | lit {value : Value} (notList : ∀ items, value ≠ .list items)
    (notVariable : ∀ s, value = .string s → Variable.isVariable s = false)
    : IsLegible (lit value)
  | call (operator : String) {operands : List Expr} (each : ∀ e ∈ operands, IsLegible e)
    : IsLegible (call operator operands)

theorem writtenAll_eq_map (operands : List Expr) : writtenAll operands = operands.map written := by
  induction operands with
  | nil => rfl
  | cons e es ih => simp [writtenAll, ih]

-- --------------------------------------------------------------------------------------
-- Operands
-- --------------------------------------------------------------------------------------

/-- Operands are read one by one, by induction on the values. -/
theorem ofOperands_eq_ok_iff {vs : List Value} {es : List Expr}
    : ofOperands vs = .ok es ↔ List.Forall₂ (fun v e => ofOperand v = .ok e) vs es := by
  induction vs generalizing es with
  | nil => cases es <;> simp [ofOperands]
  | cons v vs ih =>
    unfold ofOperands
    cases es with
    | nil => cases ofOperand v <;> cases ofOperands vs <;> simp [Except.map]
    | cons e es =>
      rw [List.forall₂_cons, ← ih]
      cases ofOperand v <;> cases ofOperands vs <;> simp [Except.map]

/-- A list is read as a call of the operator that it names first. -/
theorem ofItems_eq_ok_iff {items : List Value} {e : Expr}
    : ofItems items = .ok e
      ↔ ∃ operator operands es, items = .string operator :: operands
          ∧ List.Forall₂ (fun v e => ofOperand v = .ok e) operands es ∧ e = call operator es := by
  constructor
  · intro read
    unfold ofItems at read
    split at read
    · rename_i operator operands
      cases all : ofOperands operands with
      | error failure => simp [all, Except.map] at read
      | ok es =>
        simp only [all, Except.map, Except.ok.injEq] at read
        exact ⟨operator, operands, es, rfl, ofOperands_eq_ok_iff.mp all, read.symm⟩
    · cases read
  · rintro ⟨operator, operands, es, rfl, each, rfl⟩
    simp [ofItems, ofOperands_eq_ok_iff.mpr each, Except.map]

/-- What is neither a list nor the name of a variable is read as itself. -/
theorem ofOperand_of_lit {v : Value} (notList : ∀ items, v ≠ .list items)
    (notVariable : ∀ s, v = .string s → Variable.isVariable s = false)
    : ofOperand v = .ok (lit v) := by
  cases v with
  | list items => exact absurd rfl (notList items)
  | string s => simp [ofOperand, ofText, notVariable s rfl]
  | _ => rfl

/-- What is read from values is legible and written as the values if each of them is so read; by
induction on the values.
-/
theorem legible_of_each {vs : List Value} {es : List Expr}
    (read : List.Forall₂ (fun v e => ofOperand v = .ok e) vs es)
    (each : ∀ v ∈ vs, ∀ e, ofOperand v = .ok e → e.IsLegible ∧ e.written = v)
    : (∀ e ∈ es, e.IsLegible) ∧ writtenAll es = vs := by
  induction read with
  | nil => exact ⟨nofun, rfl⟩
  | cons first _ ih =>
    obtain ⟨here, others⟩ := List.forall_mem_cons.mp each
    obtain ⟨legible, same⟩ := here _ first
    obtain ⟨legibleRest, sameRest⟩ := ih others
    exact ⟨List.forall_mem_cons.mpr ⟨legible, legibleRest⟩, by rw [writtenAll, same, sameRest]⟩

/-- What is read from a value is legible, and writing it gives the value back; by induction on the
value.
-/
theorem legible_of_ofOperand {v : Value} {e : Expr} (read : ofOperand v = .ok e)
    : e.IsLegible ∧ e.written = v := by
  induction v using Value.induction generalizing e with
  | list items ih =>
    obtain ⟨operator, operands, es, rfl, each, rfl⟩ := ofItems_eq_ok_iff.mp read
    obtain ⟨legible, same⟩ := legible_of_each each fun v member _ =>
      ih v (List.mem_cons_of_mem _ member)
    exact ⟨.call operator legible, by rw [written, same]⟩
  | string s =>
    obtain rfl := Except.ok.inj read
    unfold ofText
    split
    · rename_i isVariable
      exact ⟨.var isVariable, rfl⟩
    · rename_i notVariable
      refine ⟨.lit nofun ?_, rfl⟩
      rintro _ ⟨⟩
      simpa using notVariable
  | _ =>
    obtain rfl := Except.ok.inj read
    exact ⟨.lit nofun nofun, rfl⟩

/-- A legible expression is read from what is written for it, by induction on the expression. -/
theorem ofOperand_written {e : Expr} (legible : e.IsLegible) : ofOperand e.written = .ok e := by
  induction legible with
  | var isVariable => simp [written, ofOperand, ofText, isVariable]
  | lit notList notVariable => exact ofOperand_of_lit notList notVariable
  | @call operator operands each ih =>
    refine ofItems_eq_ok_iff.mpr ⟨operator, _, operands, rfl, ?_, rfl⟩
    rw [writtenAll_eq_map, List.forall₂_map_left_iff]
    exact List.forall₂_same.mpr ih

-- --------------------------------------------------------------------------------------
-- Expressions
-- --------------------------------------------------------------------------------------

/-- Exactly the calls that are legible are read, each from what is written for it. -/
theorem ofValue_eq_ok_iff {v : Value} {e : Expr}
    : ofValue v = .ok e
      ↔ e.IsLegible ∧ e.written = v ∧ ∃ operator operands, e = call operator operands := by
  constructor
  · intro read
    cases v with
    | list items =>
      obtain ⟨legible, same⟩ := legible_of_ofOperand (v := .list items) read
      obtain ⟨operator, -, es, -, -, isCall⟩ := ofItems_eq_ok_iff.mp read
      exact ⟨legible, same, operator, es, isCall⟩
    | _ => cases read
  · rintro ⟨legible, rfl, operator, operands, rfl⟩
    exact ofOperand_written legible

/-- By induction on the values. -/
theorem ofOperands_malformed {vs : List Value}
    (each : ∀ v ∈ vs, FailsOnly Failure.IsMalformed (ofOperand v))
    : FailsOnly Failure.IsMalformed (ofOperands vs) := by
  induction vs with
  | nil => exact .ok _
  | cons v vs ih =>
    obtain ⟨here, others⟩ := List.forall_mem_cons.mp each
    unfold ofOperands
    cases first : ofOperand v with
    | error failure => exact .error (here failure first)
    | ok e => exact (ih others).map _

/-- What cannot be read is malformed, wherever in the value it stands; by induction on the value. -/
theorem ofOperand_malformed (v : Value) : FailsOnly Failure.IsMalformed (ofOperand v) := by
  induction v using Value.induction with
  | list items ih =>
    unfold ofOperand ofItems
    split
    · rename_i operator operands
      exact .map (ofOperands_malformed fun v member => ih v (List.mem_cons_of_mem _ member)) _
    · exact .error ⟨_, rfl⟩
  | _ => exact .ok _

/-- Operands that can all be read are read together, by induction on them. -/
theorem exists_ofOperands {vs : List Value} (each : ∀ v ∈ vs, ∃ e, ofOperand v = .ok e)
    : ∃ es, List.Forall₂ (fun v e => ofOperand v = .ok e) vs es := by
  induction vs with
  | nil => exact ⟨[], .nil⟩
  | cons v vs ih =>
    obtain ⟨⟨e, first⟩, others⟩ := List.forall_mem_cons.mp each
    obtain ⟨es, rest⟩ := ih others
    exact ⟨e :: es, .cons first rest⟩

/-- Every call can be read, by induction on the call. -/
theorem exists_of_isCall {v : Value} (isCall : v.IsCall) : ∃ e, ofValue v = .ok e := by
  induction isCall with
  | @call operator operands nested ih =>
    have each : ∀ v ∈ operands, ∃ e, ofOperand v = .ok e := by
      intro v member
      cases v with
      | list items => exact ih items member
      | _ => exact ⟨_, rfl⟩
    obtain ⟨es, read⟩ := exists_ofOperands each
    exact ⟨call operator es, ofItems_eq_ok_iff.mpr ⟨operator, operands, es, rfl, read, rfl⟩⟩

/-- A list that is written for a legible expression is a call, by induction on the expression. -/
theorem isCall_of_written {e : Expr} (legible : e.IsLegible) {items : List Value}
    (isList : e.written = .list items)
    : (Value.list items).IsCall := by
  induction legible generalizing items with
  | var => cases isList
  | lit notList => exact absurd isList (notList items)
  | @call operator operands each ih =>
    rw [written, writtenAll_eq_map] at isList
    obtain rfl := Value.list.inj isList
    refine .call operator fun items member => ?_
    obtain ⟨e, operand, same⟩ := List.mem_map.mp member
    exact ih e operand same

theorem ofValue_malformed (v : Value) : FailsOnly Failure.IsMalformed (ofValue v) := by
  cases v with
  | list items => exact ofOperand_malformed (.list items)
  | _ => exact .error ⟨_, rfl⟩

/-- Exactly the calls can be read. -/
theorem exists_ofValue_iff {v : Value} : (∃ e, ofValue v = .ok e) ↔ v.IsCall := by
  constructor
  · rintro ⟨e, read⟩
    obtain ⟨legible, same, operator, operands, rfl⟩ := ofValue_eq_ok_iff.mp read
    obtain rfl := same
    exact isCall_of_written legible rfl
  · exact exists_of_isCall

/-- Reading takes exactly the calls and loses nothing. Whatever else it is given it finds malformed,
which is a failure of a guard; what it reads is written as the data that was read, so different data
is read differently; and every call that is legible is read from what is written for it.
-/
theorem reads_what_is_written
    : (∀ v, (∃ e, ofValue v = .ok e) ↔ v.IsCall)
      ∧ (∀ v failure, ofValue v = .error failure → ∃ data, failure = .guard (.malformed data))
      ∧ (∀ v e, ofValue v = .ok e → e.written = v)
      ∧ (∀ v w e, ofValue v = .ok e → ofValue w = .ok e → v = w)
      ∧ ∀ operator operands, (call operator operands).IsLegible →
        ofValue (call operator operands).written = .ok (call operator operands) := by
  have recovered (v : Value) (e : Expr) (read : ofValue v = .ok e) : e.written = v :=
    (ofValue_eq_ok_iff.mp read).2.1
  refine ⟨fun v => exists_ofValue_iff, ofValue_malformed, recovered, fun v w e here there => ?_,
    fun operator operands legible => ?_⟩
  · exact (recovered v e here).symm.trans (recovered w e there)
  · exact ofValue_eq_ok_iff.mpr ⟨legible, rfl, operator, operands, rfl⟩

end Expr

namespace Sample

/-- A comparison with a sum, in which a list inside a map stays a literal. -/
def bounded : Expr :=
  .call "<"
    [.var "?total",
      .call "+" [.lit (.bool true), .lit (.map (.ofList [("limits", .list [.number .one])]))]]

theorem bounded_reads_back
    : bounded.IsLegible
      ∧ Expr.ofValue bounded.written = .ok bounded
      ∧ ¬∃ e,
          Expr.ofValue (.list [.string "<", .string "?total", .list [.number .one]]) = .ok e := by
  obtain ⟨reads, -, -, -, readsBack⟩ := Expr.reads_what_is_written
  have sum : (Expr.call "+"
      [.lit (.bool true), .lit (.map (.ofList [("limits", .list [.number .one])]))]).IsLegible := by
    refine .call _ ?_
    simp only [List.forall_mem_cons]
    exact ⟨.lit nofun nofun, .lit nofun nofun, nofun⟩
  have legible : bounded.IsLegible := by
    refine .call _ ?_
    simp only [List.forall_mem_cons]
    exact ⟨.var rfl, sum, nofun⟩
  refine ⟨legible, readsBack _ _ legible, fun read => ?_⟩
  obtain ⟨operator, nested⟩ := (reads _).mp read
  cases nested [.number .one] (by simp)

end Sample

end RuleEngine
