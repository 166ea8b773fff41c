import RuleEngine.Number.Text
import RuleEngine.Text.Layout
import RuleEngine.Text.Quoted
import RuleEngine.Value.Basic

/-! Texts of values. The shown text is what a reader sees, as in a joined message; the source
text keeps apart what the shown text runs together.
-/

namespace RuleEngine

def FactId.text (id : FactId) : String := "#" ++ toString id.number

/-- The text of an identity inside structured text. -/
def FactId.source (id : FactId) : String := Text.tagged "FactId" (toString id.number)

def Fact.label (f : Fact) : String := f.kind ++ f.id.text

namespace Value

def typeName : Value → String
  | undefined => "undefined"
  | null => "null"
  | bool _ => "boolean"
  | number _ => "number"
  | string _ => "string"
  | date _ => "date"
  | list _ => "array"
  | map _ => "object"
  | fact _ => "fact"

mutual

/-- The source text: texts are quoted, lists and maps are shown with their parts. -/
def source : Value → String
  | undefined => "undefined"
  | null => "null"
  | bool b => Text.flag b
  | number n => n.text
  | string s => Text.quoted s
  | date i => i.text .millis
  | list items => Text.list (sourceItems items)
  | map fields => Text.entries (sourceEntries fields)
  | fact f => sourceFact f

def sourceItems : List Value → List String
  | [] => []
  | item :: rest => item.source :: sourceItems rest

def sourceEntries {bound : Option String} : Fields bound → List (String × String)
  | .nil => []
  | .cons key _ value rest => (Text.quoted key, value.source) :: sourceEntries rest

def sourceFact : Fact → String
  | ⟨id, kind, fields⟩ => kind ++ id.text ++ " " ++ Text.entries (sourceEntries fields)

end

mutual

/-- The shown text: texts stand as they are, lists are joined by commas, and null and undefined
leave no trace in them.
-/
def text : Value → String
  | string s => s
  | list items => ",".intercalate (textItems items)
  | map _ => "[object Object]"
  | fact f => f.label
  | undefined => "undefined"
  | null => "null"
  | bool b => Text.flag b
  | number n => n.text
  | date i => i.text .millis

def textItems : List Value → List String
  | [] => []
  | item :: rest => (if item.isNil then "" else item.text) :: textItems rest

end

end Value

/-- The source text of a fact: its label and its fields. -/
def Fact.source (f : Fact) : String := Value.sourceFact f

def Fields.source (r : Record) : String := Text.entries (Value.sourceEntries r)

end RuleEngine
