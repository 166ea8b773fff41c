import RuleEngine.Failure.Basic
import RuleEngine.Schema.Basic

/-! The registry of schemas, and the validation of records against it. -/

namespace RuleEngine

/-- The schemas, at most one for a kind. -/
structure Registry where
  schemas : List Schema := []

namespace Registry

def empty : Registry := {}

def schema? (g : Registry) (kind : String) : Option Schema := g.schemas.find? (·.kind == kind)

def contains (g : Registry) (kind : String) : Bool := (g.schema? kind).isSome

def size (g : Registry) : Nat := g.schemas.length

def isEmpty (g : Registry) : Bool := g.schemas.isEmpty

/-- Sets the schema of a kind in place of an earlier one. -/
def register (g : Registry) (s : Schema) : Registry :=
  ⟨g.schemas.filter (·.kind != s.kind) ++ [s]⟩

/-- Whether a value has a declared type. For a named type it must name that kind; its other
fields are not looked at.
-/
def hasType (type : FieldType) (v : Value) : Bool :=
  match type with
  | .named kind => (v.field? Fact.kindField).bind Value.string? == some kind
  | type => (type.accepts? v).getD false

/-- Whether a type is a shape or the name of a schema. -/
def isKnown (g : Registry) : FieldType → Bool
  | .named kind => g.contains kind
  | _ => true

/-- Sets an absent field to its default, which is thereby used. -/
def fillDefault (f : FieldSchema) (r : Record) : Record × FieldSchema :=
  match f.default with
  | some default =>
    if ((r.get? f.name).getD .undefined).isUndefined then
      let (v, default) := default.produce
      (r.insert f.name v, { f with default := some default })
    else (r, f)
  | none => (r, f)

/-- Why the value of a field breaks the schema, if it does. -/
def violation? (f : FieldSchema) (v : Value) : Option Violation :=
  if v.isNil then if f.required then some .missing else none
  else if !hasType f.type v then some (.mistyped f.type.name v.typeName)
  else if f.validator.any (!· v) then some .rejected
  else none

/-- Checks the fields of a record one after the other and fills in defaults. The fields come back
with the uses of their defaults counted, also those used before a failure.
-/
def checkFields (g : Registry) (kind : String) : List FieldSchema → Record
    → Except Failure Record × List FieldSchema
  | [], r => (.ok r, [])
  | f :: rest, r =>
    if g.isKnown f.type then
      let (r, f) := fillDefault f r
      match violation? f ((r.get? f.name).getD .undefined) with
      | some violation => (.error (.validation kind f.name violation), f :: rest)
      | none =>
        let (result, rest) := g.checkFields kind rest r
        (result, f :: rest)
    else (.error (.unknownType f.type.name), f :: rest)

def schemaOf? (g : Registry) (r : Record) : Option Schema :=
  ((r.get? Fact.kindField).bind Value.string?).bind g.schema?

def update (g : Registry) (s : Schema) : Registry :=
  ⟨g.schemas.map fun t => if t.kind == s.kind then s else t⟩

/-- Validates a record against the schema of its kind and fills in defaults. A record whose kind
has no schema is left as it is.
-/
def validate (g : Registry) (r : Record) : Except Failure Record × Registry :=
  match g.schemaOf? r with
  | none => (.ok r, g)
  | some s =>
    let (result, fields) := g.checkFields s.kind s.fields r
    (result, g.update { s with fields })

end Registry

end RuleEngine
