import RuleEngine.Value.Basic

/-! The agenda: facts that came or went and have not been dealt with, first come first served. -/

namespace RuleEngine

inductive Change where
  | asserted
  | retracted
deriving DecidableEq

structure Task where
  change : Change
  fact : Fact

structure Agenda where
  tasks : List Task := []

namespace Agenda

def empty : Agenda := {}

def push (a : Agenda) (t : Task) : Agenda := ⟨a.tasks ++ [t]⟩

def putBack (a : Agenda) (t : Task) : Agenda := ⟨t :: a.tasks⟩

def next? (a : Agenda) : Option (Task × Agenda) :=
  match a.tasks with
  | [] => none
  | t :: rest => some (t, ⟨rest⟩)

theorem tasks_of_next? {a rest : Agenda} {t : Task} (taken : a.next? = some (t, rest))
    : a.tasks = t :: rest.tasks := by
  obtain ⟨tasks⟩ := a
  cases tasks with
  | nil => cases taken
  | cons first others =>
    obtain ⟨rfl, rfl⟩ := Prod.mk.inj (Option.some.inj taken)
    rfl

def size (a : Agenda) : Nat := a.tasks.length

def isEmpty (a : Agenda) : Bool := a.tasks.isEmpty

end Agenda

end RuleEngine
