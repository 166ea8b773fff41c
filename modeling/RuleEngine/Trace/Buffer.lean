import RuleEngine.Trace.Record

/-! A buffer of trace records that keeps the latest ones. Identities go up by one with every
record and are never given again, so those in the buffer are consecutive.
-/

namespace RuleEngine

structure BufferStats where
  size : Nat
  capacity : Nat
  evicted : Nat
  errors : Nat
  oldest : Option Nat
  newest : Option Nat
  /-- How many records there are of each name, names ascending. -/
  counts : List (String × Nat)

structure TraceBuffer where
  capacity : Nat := 10000
  records : List TraceRecord := []
  next : Nat := 0
  /-- How many records had to go because there was no room. -/
  evicted : Nat := 0

namespace TraceBuffer

def ofCapacity (capacity : Nat) : TraceBuffer := { capacity }

def size (b : TraceBuffer) : Nat := b.records.length

def isEmpty (b : TraceBuffer) : Bool := b.records.isEmpty

/-- Appends a record, for which the oldest ones make room. -/
def push (b : TraceBuffer) (sequence timestamp : Nat) (event : Event) : Nat × TraceBuffer :=
  let records := b.records ++ [⟨b.next, sequence, timestamp, event⟩]
  let excess := records.length - b.capacity
  (b.next,
    { b with records := records.drop excess, next := b.next + 1, evicted := b.evicted + excess })

/-- Removes all records. Identities go on from where they were. -/
def clear (b : TraceBuffer) : TraceBuffer := { b with records := [] }

/-- The record with an identity, found by its distance from the oldest. -/
def get? (b : TraceBuffer) (id : Nat) : Option TraceRecord :=
  match b.records with
  | [] => none
  | oldest :: _ => if id < oldest.id then none else b.records[id - oldest.id]?

def recent (b : TraceBuffer) (count : Nat) : List TraceRecord :=
  b.records.drop (b.size - count)

def filter (b : TraceBuffer) (test : TraceRecord → Bool) : List TraceRecord := b.records.filter test

def byName (b : TraceBuffer) (name : String) : List TraceRecord := b.filter (·.name == name)

/-- The records about a rule or a query. -/
def byDefinition (b : TraceBuffer) (id : String) : List TraceRecord :=
  b.filter (·.definition? == some id)

def errors (b : TraceBuffer) : List TraceRecord := b.filter (·.isError)

/-- Counts a name among others that ascend. -/
def countName (name : String) : List (String × Nat) → List (String × Nat)
  | [] => [(name, 1)]
  | (name', n) :: rest =>
    if name = name' then (name', n + 1) :: rest
    else if name < name' then (name, 1) :: (name', n) :: rest
    else (name', n) :: countName name rest

def stats (b : TraceBuffer) : BufferStats where
  size := b.size
  capacity := b.capacity
  evicted := b.evicted
  errors := b.errors.length
  oldest := b.records.head?.map (·.sequence)
  newest := b.records.getLast?.map (·.sequence)
  counts := b.records.foldl (fun counts r => countName r.name counts) []

end TraceBuffer

end RuleEngine
