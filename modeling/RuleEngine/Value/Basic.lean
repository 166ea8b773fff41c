import RuleEngine.Calendar.Instant
import RuleEngine.Number.Basic

/-! Data: values, facts and records. A record holds its keys in ascending order, and the order is
part of its type, so records with the same entries are the same record.
-/

namespace RuleEngine

/-- The identity of a fact, which a store issues once. -/
structure FactId where
  number : Nat
deriving DecidableEq, Inhabited

/-- Whether a key lies above a bound, where there is one. -/
def KeyAbove : Option String → String → Prop
  | none, _ => True
  | some bound, key => bound < key

instance (bound : Option String) (key : String) : Decidable (KeyAbove bound key) := by
  cases bound <;> unfold KeyAbove <;> infer_instance

/-- Without a bound every key will do. -/
theorem keyAbove_none (key : String) : KeyAbove none key := trivial

theorem keyAbove_of_lt {bound key : String} (below : bound < key) : KeyAbove (some bound) key :=
  below

/-- A key that is neither below another nor equal to it lies above it. -/
theorem keyAbove_of_not_lt {bound key : String} (differ : key ≠ bound) (notBelow : ¬key < bound)
    : KeyAbove (some bound) key :=
  Std.lt_of_le_of_ne (String.not_lt.mp notBelow) (Ne.symm differ)

/-- What lies above a key that lies above a bound lies above the bound. -/
theorem keyAbove_trans {bound : Option String} {key name : String} (above : KeyAbove bound key)
    (beyond : KeyAbove (some key) name)
    : KeyAbove bound name := by
  cases bound with
  | none => exact keyAbove_none name
  | some _ => exact String.lt_trans above beyond

mutual

inductive Value where
  /-- The value of what is absent. -/
  | undefined
  | null
  | bool (b : Bool)
  | number (n : Number)
  | string (s : String)
  | date (i : Instant)
  | list (items : List Value)
  | map (fields : Fields none)
  | fact (f : Fact)

/-- A stored record with its identity. Its kind is also one of its fields. -/
structure Fact where
  id : FactId
  kind : String
  fields : Fields none

/-- Entries with ascending keys that all lie above a bound. -/
inductive Fields : Option String → Type where
  | nil {bound : Option String} : Fields bound
  | cons {bound : Option String} (key : String) (above : KeyAbove bound key) (value : Value)
    (rest : Fields (some key)) : Fields bound

end

abbrev Record := Fields none

instance : Inhabited Value := ⟨.undefined⟩

instance {bound : Option String} : Inhabited (Fields bound) := ⟨.nil⟩

instance : Inhabited Fact := ⟨⟨default, "", .nil⟩⟩

-- --------------------------------------------------------------------------------------
-- Records
-- --------------------------------------------------------------------------------------

namespace Fields

variable {bound : Option String}

def toList {bound : Option String} : Fields bound → List (String × Value)
  | .nil => []
  | .cons key _ value rest => (key, value) :: rest.toList

def size (r : Fields bound) : Nat := r.toList.length

def keys (r : Fields bound) : List String := r.toList.map (·.1)

def values (r : Fields bound) : List Value := r.toList.map (·.2)

def isEmpty : Fields bound → Bool
  | .nil => true
  | .cons .. => false

def get? {bound : Option String} (r : Fields bound) (key : String) : Option Value :=
  match r with
  | .nil => none
  | .cons key' _ value rest => if key = key' then some value else rest.get? key

def contains (r : Fields bound) (key : String) : Bool := (r.get? key).isSome

/-- Sets one entry of a record whose keys lie above a bound, in one pass. -/
def insertAbove {bound : Option String} (r : Fields bound) (key : String)
    (above : KeyAbove bound key) (value : Value) : Fields bound :=
  match r with
  | .nil => .cons key above value .nil
  | .cons key' above' value' rest =>
    if differ : key = key' then .cons key' above' value rest
    else if below : key < key' then
      .cons key above value (.cons key' (keyAbove_of_lt below) value' rest)
    else .cons key' above' value' (rest.insertAbove key (keyAbove_of_not_lt differ below) value)

def insert (r : Record) (key : String) (value : Value) : Record :=
  r.insertAbove key (keyAbove_none key) value

/-- Keys above a key that lies above a bound lie above the bound. -/
def weaken {key : String} (above : KeyAbove bound key) : Fields (some key) → Fields bound
  | .nil => .nil
  | .cons key' above' value rest => .cons key' (keyAbove_trans above above') value rest

def erase {bound : Option String} (r : Fields bound) (key : String) : Fields bound :=
  match r with
  | .nil => .nil
  | .cons key' above value rest =>
    if key = key' then rest.weaken above else .cons key' above value (rest.erase key)

def filter {bound : Option String} (test : String → Value → Bool) (r : Fields bound)
    : Fields bound :=
  match r with
  | .nil => .nil
  | .cons key above value rest =>
    if test key value then .cons key above value (rest.filter test)
    else (rest.filter test).weaken above

def empty : Record := .nil

/-- Sets entries one after the other, so that of equal keys the last counts. -/
def insertMany (r : Record) (entries : List (String × Value)) : Record :=
  entries.foldl (fun r entry => r.insert entry.1 entry.2) r

def ofList (entries : List (String × Value)) : Record := empty.insertMany entries

/-- The entries of both records, those of `upper` where they share a key. -/
def overlay (r : Record) (upper : Fields bound) : Record := r.insertMany upper.toList

end Fields

-- --------------------------------------------------------------------------------------
-- Facts
-- --------------------------------------------------------------------------------------

namespace Fact

/-- The field that holds the kind of a fact. -/
def kindField : String := "kind"

/-- A fact of a kind, which is set among its fields. -/
def ofRecord (id : FactId) (kind : String) (fields : Record) : Fact :=
  ⟨id, kind, fields.insert kindField (.string kind)⟩

def get? (f : Fact) (field : String) : Option Value := f.fields.get? field

end Fact

-- --------------------------------------------------------------------------------------
-- Values
-- --------------------------------------------------------------------------------------

namespace Value

def isUndefined : Value → Bool
  | undefined => true
  | _ => false

def isNil : Value → Bool
  | undefined | null => true
  | _ => false

/-- Whether a value counts as true: undefined, null, false, zero, not-a-number and the empty
text do not.
-/
def isTruthy : Value → Bool
  | undefined | null => false
  | bool b => b
  | number n => !n.isNaN && n.ordinal != 0
  | string s => !s.isEmpty
  | _ => true

def bool? : Value → Option Bool
  | bool b => some b
  | _ => none

def number? : Value → Option Number
  | number n => some n
  | _ => none

/-- A number, or a truth value counted as one or zero. -/
def numeric? : Value → Option Number
  | number n => some n
  | bool b => some (.ofBool b)
  | _ => none

def string? : Value → Option String
  | string s => some s
  | _ => none

def date? : Value → Option Instant
  | date i => some i
  | _ => none

def list? : Value → Option (List Value)
  | list items => some items
  | _ => none

/-- The entries of a map or of a fact. -/
def record? : Value → Option Record
  | map fields => some fields
  | fact f => some f.fields
  | _ => none

def fact? : Value → Option Fact
  | fact f => some f
  | _ => none

/-- An entry of a map or of a fact. -/
def field? (v : Value) (name : String) : Option Value :=
  v.record?.bind (·.get? name)

/-- The number of characters of a text, of items of a list, or of entries. -/
def size? : Value → Option Nat
  | string s => some s.length
  | list items => some items.length
  | map fields => some fields.size
  | fact f => some f.fields.size
  | _ => none

/-- The items from one position up to another; bounds past the end are clamped. -/
def slice (items : List Value) (start stop : Nat) : List Value := (items.take stop).drop start

def ofNat (n : Nat) : Value := number (.ofNat n)

def ofInt (n : Int) : Value := number (.ofInt n)

def ofOption : Option Value → Value
  | none => undefined
  | some v => v

end Value

end RuleEngine
