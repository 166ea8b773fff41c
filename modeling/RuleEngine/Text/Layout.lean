/-!
Layout of structured text: lists, keyed entries, and named records whose parts are labelled. An
open record ends in two dots, which stand for parts that are not shown.
-/

namespace RuleEngine.Text

def list (items : List String) : String :=
  "[" ++ ", ".intercalate items ++ "]"

/-- Entries between braces, each a key and a value. -/
def entries (pairs : List (String × String)) : String :=
  "\x7b" ++ ", ".intercalate (pairs.map fun pair => pair.1 ++ ": " ++ pair.2) ++ "\x7d"

/-- A name and its labelled parts. -/
def record (name : String) (parts : List (String × String)) : String :=
  name ++ " \x7b " ++ ", ".intercalate (parts.map fun part => part.1 ++ ": " ++ part.2) ++ " \x7d"

/-- A name and those of its labelled parts that are shown. -/
def openRecord (name : String) (parts : List (String × String)) : String :=
  name ++ " \x7b " ++
    ", ".intercalate (parts.map (fun part => part.1 ++ ": " ++ part.2) ++ [".."]) ++ " \x7d"

/-- A name applied to one part. -/
def tagged (name part : String) : String := name ++ "(" ++ part ++ ")"

/-- A part that may be absent. -/
def optional (part : Option String) : String :=
  match part with
  | none => "None"
  | some part => tagged "Some" part

def flag (b : Bool) : String := if b then "true" else "false"

end RuleEngine.Text
