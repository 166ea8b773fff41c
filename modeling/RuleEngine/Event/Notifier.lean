import RuleEngine.Event.Basic

/-! The notifier, which passes events on to listeners. A listener may leave notes, subscribe
listeners, unsubscribe any listener, and break off; none of this touches the dispatch under way.
-/

namespace RuleEngine

structure ListenerId where
  number : Nat
deriving DecidableEq, Inhabited

/-- What a listener does about an event. The notes that it leaves are of type `ν`. -/
inductive Reaction (ν : Type) where
  | done
  | abort
  | note (n : ν) (next : Reaction ν)
  | subscribe (listener : Event → Reaction ν) (next : ListenerId → Reaction ν)
  | unsubscribe (id : ListenerId) (next : Bool → Reaction ν)

abbrev Listener (ν : Type) := Event → Reaction ν

/-- The listeners in the order of their subscription. -/
structure Notifier (ν : Type) where
  listeners : List (ListenerId × Listener ν) := []
  /-- The number of subscriptions so far. -/
  issued : Nat := 0

namespace Notifier

variable {ν : Type}

def empty : Notifier ν := {}

def size (n : Notifier ν) : Nat := n.listeners.length

def isEmpty (n : Notifier ν) : Bool := n.listeners.isEmpty

def subscribe (n : Notifier ν) (l : Listener ν) : ListenerId × Notifier ν :=
  let id : ListenerId := ⟨n.issued + 1⟩
  (id, ⟨n.listeners ++ [(id, l)], n.issued + 1⟩)

/-- Removes a listener, and tells whether it was subscribed. -/
def unsubscribe (n : Notifier ν) (id : ListenerId) : Bool × Notifier ν :=
  (n.listeners.any (·.1 == id), { n with listeners := n.listeners.filter (·.1 != id) })

/-- Carries out a reaction, up to its end or to where it breaks off. -/
def react (n : Notifier ν) : Reaction ν → Notifier ν × List ν
  | .done => (n, [])
  | .abort => (n, [])
  | .note x next =>
    let (n, notes) := n.react next
    (n, x :: notes)
  | .subscribe l next =>
    let (id, n) := n.subscribe l
    n.react (next id)
  | .unsubscribe id next =>
    let (found, n) := n.unsubscribe id
    n.react (next found)

/-- Carries out the reactions of some listeners to an event, one after the other. -/
def dispatch (e : Event) : List (ListenerId × Listener ν) → Notifier ν → Notifier ν × List ν
  | [], n => (n, [])
  | (_, l) :: rest, n =>
    let (n, notes) := n.react (l e)
    let (n, more) := dispatch e rest n
    (n, notes ++ more)

/-- Passes an event on to the listeners that are subscribed as it is emitted. -/
def emit (n : Notifier ν) (e : Event) : Notifier ν × List ν := dispatch e n.listeners n

def source (n : Notifier ν) : String := Text.record "Notifier" [("listeners", toString n.size)]

end Notifier

end RuleEngine
