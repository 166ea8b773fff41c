import RuleEngine.Value.Basic

/-! Names of variables, and bindings of them. A variable is marked by a question mark; in front
of a variable three dots ask for the rest of a list.
-/

namespace RuleEngine

namespace Variable

/-- Drops the three dots at the front of a name. -/
def dropDots? (name : String) : Option String :=
  match name.toList with
  | '.' :: '.' :: '.' :: rest => some (String.ofList rest)
  | _ => none

/-- Whether a text is a question mark and something after it. -/
def isVariable (name : String) : Bool :=
  match name.toList with
  | '?' :: _ :: _ => true
  | _ => false

/-- Whether a text asks for the rest of a list. -/
def isRest (name : String) : Bool := (dropDots? name).any isVariable

/-- The name with its question mark, which is added where it is missing. -/
def marked (name : String) : String :=
  if name.toList.head? = some '?' then name else "?" ++ name

/-- The variable that a name stands for, with or without dots and question mark. -/
def ofName (name : String) : String := marked ((dropDots? name).getD name)

end Variable

/-- Values of variables by name. Names without a question mark are aliases of facts. -/
abbrev Bindings := Record

/-- The bindings that belong to the rule's own variables: neither the kind nor a whole fact. -/
def Fields.userVariables (b : Bindings) : Record :=
  b.filter fun name value => name != Fact.kindField && value.fact?.isNone

end RuleEngine
