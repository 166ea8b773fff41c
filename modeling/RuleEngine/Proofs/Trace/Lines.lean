import RuleEngine.Proofs.Text.LineBreaks
import RuleEngine.Trace.Record

/-! The lines of trace records. Whatever the engine adds of its own to the line of a record is free
of line breaks. Names and messages are shown as they are, so the line has their line breaks, and the
record takes one line exactly if they have none.
-/

namespace RuleEngine

open Text

-- --------------------------------------------------------------------------------------
-- Failures
-- --------------------------------------------------------------------------------------

/-- The texts that a message shows as they are, in order. Of data that is no expression these are
the kinds of its facts.
-/
def GuardFault.shown : GuardFault → List String
  | stated message => [message]
  | malformed data => data.kinds
  | unknownOperator name => [name]
  | operandCount operator _ _ => [operator]
  | notNumeric operator typeName => [operator, typeName]
  | sizeOperand | misplacedMatcher => []

def Violation.shown : Violation → List String
  | stated message => [message]
  | mistyped expected actual => [expected, actual]
  | missing | rejected => []

def Failure.shown : Failure → List String
  | definition message => [message]
  | validation kind field violation => [kind, field] ++ violation.shown
  | unknownType name => [name]
  | guard fault => fault.shown
  | unbound name => [name]
  | projection field message => [field, message]
  | action name message => [name, message]
  | unknownDefinition id => [id]
  | internal message => [message]
  | missingKind | divisionByZero | factNotFound _ | limit _ => []

@[simp]
theorem Arity.breaks_text (arity : Arity) : breaks arity.text = [] := by
  cases arity <;> simp (disch := decide) [Arity.text, breaks_of_isEmpty]

@[simp]
theorem GuardFault.breaks_message (fault : GuardFault)
    : breaks fault.message = fault.shown.flatMap breaks := by
  unfold message
  cases fault <;> simp (disch := decide) [shown, Value.breaks_source, breaks_of_isEmpty]

@[simp]
theorem Violation.breaks_message (violation : Violation)
    : breaks violation.message = violation.shown.flatMap breaks := by
  unfold message
  cases violation <;> simp (disch := decide) [shown, breaks_of_isEmpty]

@[simp]
theorem Failure.breaks_message (failure : Failure)
    : breaks failure.message = failure.shown.flatMap breaks := by
  unfold message
  cases failure <;> simp (disch := decide) [shown, breaks_of_isEmpty]

-- --------------------------------------------------------------------------------------
-- Events
-- --------------------------------------------------------------------------------------

namespace Event

/-- The texts that the text of an event shows as they are, in order. -/
def shown : Event → List String
  | definitionAdded id _ _ => [id]
  | definitionRemoved id _ => [id]
  | factAsserted fact _ _ => [fact.kind]
  | factRetracted fact => [fact.kind]
  | schemaError failure => failure.shown
  | activationSelected rule _ => [rule]
  | preConditionPassed rule => [rule]
  | preConditionFailed rule failure => rule :: failure.elim [] Failure.shown
  | guardError definition guard failure => [definition, guard] ++ failure.shown
  | activationFired _ rule _ => [rule]
  | actionErrorHandled rule failure => [rule] ++ failure.shown
  | postConditionFailed rule _ => [rule]
  | hookError rule hook failure => [rule, hook] ++ failure.shown
  | engineError definition failure => definition.toList ++ failure.shown
  | projectionError query field failure => [query, field] ++ failure.shown
  | queryStarted query => [query]
  | queryCompleted query _ => [query]
  | activationInvalidated _ rule _ => [rule]
  | activationsFound .. | logicalRetracted .. => []

theorem breaks_name (e : Event) : breaks e.name = [] := by
  cases e <;> simp only [name] <;> decide

theorem breaks_remark {text : String} (unbroken : breaks text = []) (applies : Bool)
    : breaks (remark applies text) = [] := by
  cases applies <;> simp (disch := decide) [remark, unbroken, breaks_of_isEmpty]

@[simp]
theorem breaks_kindText (kind : DefinitionKind) : breaks kind.text = [] := by
  cases kind <;> simp only [DefinitionKind.text] <;> decide

@[simp]
theorem breaks_activationText (id : ActivationId) : breaks id.text = [] := by
  simp (disch := decide) [ActivationId.text, breaks_of_isEmpty]

theorem breaks_details (e : Event) : breaks e.details = e.shown.flatMap breaks := by
  cases e with
  | preConditionFailed rule failure =>
    cases failure <;> simp (disch := decide) [details, shown, breaks_of_isEmpty]
  | engineError definition failure =>
    cases definition <;> simp (disch := decide) [details, shown, breaks_of_isEmpty]
  | _ => simp (disch := decide) [details, shown, breaks_remark, breaks_of_isEmpty]

theorem breaks_text (e : Event) : breaks e.text = e.shown.flatMap breaks := by
  simp [text, breaks_name, breaks_details]

end Event

-- --------------------------------------------------------------------------------------
-- Records
-- --------------------------------------------------------------------------------------

namespace TraceRecord

theorem breaks_spanText (nanoseconds : Nat) : breaks (spanText nanoseconds) = [] := by
  unfold spanText
  dsimp only
  split_ifs <;> simp (disch := decide) [breaks_of_isEmpty]

theorem breaks_alignedRight (width : Nat) (s : String)
    : breaks (alignedRight width s) = breaks s := by
  have spaces : breaks (String.ofList (List.replicate (width - s.length) ' ')) = [] := by
    refine breaks_ofList fun c member => ?_
    rw [List.eq_of_mem_replicate member]
    rfl
  simp [alignedRight, spaces]

theorem breaks_indent (e : Event) : breaks (indent e) = [] := by
  cases e <;> simp only [indent] <;> decide

/-- What precedes the text of the event in a line is free of line breaks. -/
theorem breaks_line (style : LineStyle) (r : TraceRecord)
    : breaks (r.line style) = r.event.shown.flatMap breaks := by
  have marked : breaks (if r.isError then "!!" else "  ") = [] := by
    split <;> decide
  have numbered : breaks (if style.ids then "[" ++ zeroPadded 6 r.id ++ "] " else "") = [] := by
    split <;> simp (disch := decide) [breaks_of_isEmpty]
  have timed : breaks
      (if style.timestamps then alignedRight 10 (spanText r.timestamp) ++ " " else "") = [] := by
    split <;> simp (disch := decide) [breaks_alignedRight, breaks_spanText, breaks_of_isEmpty]
  simp (disch := decide) [line, marked, numbered, timed, breaks_indent, Event.breaks_text,
    breaks_of_isEmpty]

/-- The line of a record has the line breaks of the texts that its event shows, in their order, and
no others. Records one below the other take a line each and one more for every line feed in these
texts; so line by line they are the records exactly if the texts have no line feed.
-/
theorem broken_by_shown (style : LineStyle)
    : (∀ r : TraceRecord, breaks (r.line style) = r.event.shown.flatMap breaks)
      ∧ (∀ r : TraceRecord, breaks (r.line style) = [] ↔ ∀ s ∈ r.event.shown, breaks s = [])
      ∧ ∀ rs : List TraceRecord, rs ≠ [] →
          (linesOf (lines style rs)).length
            = rs.length + (rs.flatMap fun r => r.event.shown.flatMap breaks).count '\n'
          ∧ (linesOf (lines style rs) = rs.map (line style)
            ↔ ∀ r ∈ rs, ∀ s ∈ r.event.shown, '\n' ∉ s.toList) := by
  refine ⟨breaks_line style, fun r => ?_, fun rs nonempty => ?_⟩
  · rw [breaks_line, List.flatMap_eq_nil_iff]
  · have nonempty : rs.map (line style) ≠ [] := by simpa using nonempty
    constructor
    · rw [length_linesOf, lines, count_intercalate nonempty]
      simp [List.flatMap_map, breaks_line]
    · rw [lines, linesOf_intercalate_iff nonempty, List.forall_mem_map]
      refine forall₂_congr fun r _ => ?_
      simp only [← lineFeed_mem_breaks, breaks_line, List.mem_flatMap, not_exists, not_and]

/-- The record of a query whose name runs over two lines. -/
def ofTwoLineName : TraceRecord := ⟨7, 12, 0, .queryStarted "low\nlevels"⟩

/-- What should be its line are two. -/
theorem ofTwoLineName_breaks
    : breaks (ofTwoLineName.line {}) = ['\n']
        ∧ linesOf (lines {} [ofTwoLineName]) = ["S00012    query-started low", "levels"] := by
  decide +kernel

end TraceRecord

end RuleEngine
