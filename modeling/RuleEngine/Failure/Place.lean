import RuleEngine.Failure.Basic

/-! Where a failure arose, beside what it is. -/

namespace RuleEngine

/-- A definition, and the stages that a failure passed through on its way out. -/
structure Place where
  definition : Option String
  stages : List String
deriving DecidableEq

def Place.text (p : Place) : String :=
  (match p.definition with
    | none => ""
    | some definition => "in " ++ definition) ++
  String.join (p.stages.map (" / " ++ ·))

/-- A failure together with the place where it arose, if that is known. -/
structure LocatedFailure where
  failure : Failure
  place : Option Place

end RuleEngine
