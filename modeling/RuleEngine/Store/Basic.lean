import RuleEngine.Failure.Basic

/-! The store of facts. Identities are issued in ascending order and never a second time, so the
entries stand in the order in which their facts were asserted.
-/

namespace RuleEngine

structure ActivationId where
  number : Nat
deriving DecidableEq, Inhabited

def ActivationId.text (id : ActivationId) : String := "activation " ++ toString id.number

/-- The text of an activation's identity inside structured text. -/
def ActivationId.source (id : ActivationId) : String :=
  Text.tagged "ActivationId" (toString id.number)

/-- Why a fact is stored: it was stated, or an activation justifies it. -/
inductive Origin where
  | stated
  | logical (activation : ActivationId)
deriving DecidableEq

namespace Origin

def isLogical : Origin → Bool
  | stated => false
  | logical _ => true

def activation? : Origin → Option ActivationId
  | stated => none
  | logical activation => some activation

end Origin

structure Entry where
  fact : Fact
  origin : Origin

namespace Entry

def id (e : Entry) : FactId := e.fact.id

/-- Whether an activation justifies the fact. -/
def isJustifiedBy (e : Entry) (activation : ActivationId) : Bool :=
  e.origin == .logical activation

end Entry

/-- Facts filed under their kinds, kinds ascending and facts in the order of their identities. -/
abbrev KindIndex := List (String × List Fact)

namespace KindIndex

def file (f : Fact) : KindIndex → KindIndex
  | [] => [(f.kind, [f])]
  | (kind, facts) :: rest =>
    if f.kind = kind then (kind, facts ++ [f]) :: rest
    else if f.kind < kind then (f.kind, [f]) :: (kind, facts) :: rest
    else (kind, facts) :: file f rest

/-- Takes a fact out, and its kind too if nothing is left of it. -/
def unfile (f : Fact) : KindIndex → KindIndex
  | [] => []
  | (kind, facts) :: rest =>
    if f.kind = kind then
      match facts.filter (·.id != f.id) with
      | [] => rest
      | facts => (kind, facts) :: rest
    else (kind, facts) :: unfile f rest

end KindIndex

structure Store where
  /-- The entries in the order of their identities. -/
  entries : List Entry := []
  index : KindIndex := []
  next : Nat := 1

namespace Store

def empty : Store := {}

/-- The kind that a record names, which must not be empty. -/
def kindOf? (r : Record) : Option String :=
  match r.get? Fact.kindField with
  | some (.string kind) => if kind.isEmpty then none else some kind
  | _ => none

/-- Stores a record as a fact under a fresh identity. -/
def assert (s : Store) (r : Record) (origin : Origin) : Except Failure (Entry × Store) :=
  match kindOf? r with
  | none => .error .missingKind
  | some kind =>
    let fact := Fact.ofRecord ⟨s.next⟩ kind r
    let entry : Entry := ⟨fact, origin⟩
    .ok (entry, ⟨s.entries ++ [entry], KindIndex.file fact s.index, s.next + 1⟩)

def entry? (s : Store) (id : FactId) : Option Entry := s.entries.find? (·.id == id)

def fact? (s : Store) (id : FactId) : Option Fact := (s.entry? id).map (·.fact)

def contains (s : Store) (id : FactId) : Bool := (s.entry? id).isSome

/-- Takes a fact out. There is no answer if it is not stored. -/
def retract? (s : Store) (id : FactId) : Option (Entry × Store) :=
  (s.entry? id).map fun entry =>
    (entry,
      ⟨s.entries.filter (·.id != id), KindIndex.unfile entry.fact s.index, s.next⟩)

/-- The facts of a kind in the order of their identities. -/
def factsOfKind (s : Store) (kind : String) : List Fact := (s.index.lookup kind).getD []

def kinds (s : Store) : List String := s.index.map (·.1)

def facts (s : Store) : List Fact := s.entries.map (·.fact)

def size (s : Store) : Nat := s.entries.length

def isEmpty (s : Store) : Bool := s.entries.isEmpty

end Store

end RuleEngine
