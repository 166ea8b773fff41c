import RuleEngine.Json.Basic
import RuleEngine.Number.Text

/-! JSON documents as text, without any white space. -/

namespace RuleEngine

namespace Json

/-- Whether a character is a control by its general category. -/
def isControl (c : Char) : Bool := c.toNat < 0x20 || (0x7F ≤ c.toNat && c.toNat ≤ 0x9F)

def hexFour (n : Nat) : String :=
  let digits := Nat.toDigits 16 n
  String.ofList (List.replicate (4 - digits.length) '0' ++ digits)

/-- A character as it stands in a string: the quote, the backslash and controls are escaped. -/
def escapedChar (c : Char) : String :=
  if c = '"' then "\\\""
  else if c = '\\' then "\\\\"
  else if c = '\n' then "\\n"
  else if c = '\r' then "\\r"
  else if c = '\t' then "\\t"
  else if isControl c then "\\u" ++ hexFour c.toNat
  else c.toString

/-- A string between its quotes. -/
def escaped (s : String) : String :=
  "\"" ++ String.join (s.toList.map escapedChar) ++ "\""

mutual

/-- The text of a document. Numbers have to be finite. -/
def text : Json → String
  | null => "null"
  | bool b => if b then "true" else "false"
  | number n => n.plain
  | nat n => toString n
  | string s => escaped s
  | array items => "[" ++ ",".intercalate (textItems items) ++ "]"
  | object members => "\x7b" ++ ",".intercalate (textMembers members) ++ "\x7d"

def textItems : List Json → List String
  | [] => []
  | item :: items => item.text :: textItems items

def textMembers : List (String × Json) → List String
  | [] => []
  | (key, value) :: members => (escaped key ++ ":" ++ value.text) :: textMembers members

end

end Json

end RuleEngine
