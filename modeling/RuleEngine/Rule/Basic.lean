import RuleEngine.Rule.View

/-! Rules, and the programs that are their bodies. A program asks the engine for one thing after
the other and goes on with the reply; it ends well or with a failure. It may leave notes and look at
all notes that were left, so the same program may do something else each time that it runs.
-/

namespace RuleEngine

/-- What the body of a rule knows about the activation that it runs for. -/
structure Context where
  rule : String
  activation : ActivationId
  bindings : Bindings

namespace Context

/-- A binding by its name; the question mark may be left out. -/
def get? (c : Context) (name : String) : Option Value :=
  (c.bindings.get? name).orElse fun _ =>
    if name.toList.head? = some '?' then none else c.bindings.get? ("?" ++ name)

/-- The fact that a condition named. -/
def fact? (c : Context) (name : String) : Option Fact := (c.get? name).bind Value.fact?

def source (c : Context) : String :=
  Text.openRecord "ActionContext"
    [("rule", Text.quoted c.rule), ("activation", c.activation.source),
      ("bindings", c.bindings.source)]

end Context

inductive ReplyKind where
  | stored
  | removed
  | removedAll
  | defined
  | found
  | rows
  | view

abbrev ReplyKind.Reply (ν : Type) : ReplyKind → Type
  | stored => Except Failure Fact
  | removed => Option Fact
  | removedAll => List Fact
  | defined => Except Failure Unit
  | found => Bool
  | rows => Except Failure (List Record)
  | view => View ν

mutual

/-- The body of a rule. Only with `wrapping` may it let the rule's action proceed. The notes that
it leaves are of type `ν`; they stay, and whatever state bodies keep or share is told by them.
-/
inductive Program (ν : Type) : (wrapping : Bool) → Type where
  | done {wrapping : Bool} : Program ν wrapping
  | fail {wrapping : Bool} (failure : Failure) : Program ν wrapping
  | note {wrapping : Bool} (n : ν) (next : Program ν wrapping) : Program ν wrapping
  | ask {wrapping : Bool} {k : ReplyKind} (request : Request ν k)
    (next : k.Reply ν → Program ν wrapping) : Program ν wrapping
  /-- Lets the action run, and goes on with its failure, if it fails. -/
  | proceed (next : Option Failure → Program ν true) : Program ν true

/-- What a program may ask of the engine. -/
inductive Request (ν : Type) : ReplyKind → Type where
  | assert (record : Record) : Request ν .stored
  /-- Store a record as a fact that this activation justifies. -/
  | assertLogical (record : Record) : Request ν .stored
  | retract (id : FactId) : Request ν .removed
  | modify (id : FactId) (changes : Record) : Request ν .stored
  | update (id : FactId) (record : Record) : Request ν .stored
  | retractMatching (kind : String) (pattern : Pattern) : Request ν .removedAll
  | addRule (rule : Rule ν) : Request ν .defined
  | addQuery (query : Query) : Request ν .defined
  | removeDefinition (id : String) : Request ν .found
  /-- Ask for the rows of a query, or only for those of so many matches. -/
  | query (id : String) (params : Bindings) (stopAfter : Option Nat) : Request ν .rows
  | look : Request ν .view

/-- A rule. Its conditions select facts, its guards are put to the selected match, and its action
runs between its hooks.
-/
structure Rule (ν : Type) where
  id : String
  /-- The priority: of two matches the one of the rule with more of it fires. -/
  salience : Int
  conditions : List Condition
  /-- What must be true of the match that is selected. -/
  guards : List Expr
  /-- The conditions that are looked at after the action. -/
  postConditions : List Condition
  action : Context → Program ν false
  /-- The hook that decides whether the action proceeds. -/
  around : Option (Context → Program ν true)
  /-- The hook that runs last, with the failure there was. -/
  after : Option (Context → Option Failure → Program ν false)
  /-- The handlers of failures by their names. -/
  handlers : List (String × (Context → Failure → Program ν false))

end

namespace Rule

variable {ν : Type}

def handler? (r : Rule ν) (name : String) : Option (Context → Failure → Program ν false) :=
  r.handlers.lookup name

def outline (r : Rule ν) : Outline where
  id := r.id
  salience := r.salience
  conditions := r.conditions
  guards := r.guards
  postConditions := r.postConditions
  around := r.around.isSome
  after := r.after.isSome
  handled := r.handlers.map (·.1)

def source (r : Rule ν) : String := r.outline.source

end Rule

/-- The kind of the facts that a rule publishes. -/
def eventKind : String := "Event"

/-- The request to publish something under a name, as a stated fact. -/
def Request.publish {ν : Type} (name : String) (payload : Value) : Request ν .stored :=
  .assert
    (.ofList
      [(Fact.kindField, .string eventKind), ("name", .string name), ("payload", payload)])

end RuleEngine
