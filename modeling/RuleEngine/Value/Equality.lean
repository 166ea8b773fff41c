import RuleEngine.Value.Basic

/-! Two equalities on values. Sameness tells apart what can be told apart and takes a fact for
its identity; strict equality compares numbers as numbers, at any depth.
-/

namespace RuleEngine

namespace Value

mutual

/-- Sameness: not-a-number is the same as itself, the two zeros differ, facts are compared by
identity, and values of different types are never the same.
-/
def same : Value → Value → Bool
  | undefined, undefined => true
  | null, null => true
  | bool a, bool b => a == b
  | number a, number b => a.same b
  | string a, string b => a == b
  | date a, date b => a == b
  | list a, list b => sameItems a b
  | map a, map b => sameFields a b
  | fact a, fact b => a.id == b.id
  | _, _ => false

def sameItems : List Value → List Value → Bool
  | [], [] => true
  | a :: as, b :: bs => a.same b && sameItems as bs
  | _, _ => false

def sameFields {bound bound' : Option String} : Fields bound → Fields bound' → Bool
  | .nil, .nil => true
  | .cons k _ a as, .cons l _ b bs => k == l && a.same b && sameFields as bs
  | _, _ => false

end

mutual

/-- Strict equality: like sameness, but numbers are compared as numbers, so that not-a-number
equals nothing and the zeros are equal. Two maps are equal if they have as many entries and the
second has the entries of the first.
-/
def strictEq : Value → Value → Bool
  | number a, number b => a.numericEq b
  | list a, list b => strictEqItems a b
  | map a, map b => a.size == b.size && strictEqEntries a b
  | a, b => a.same b

def strictEqItems : List Value → List Value → Bool
  | [], [] => true
  | a :: as, b :: bs => a.strictEq b && strictEqItems as bs
  | _, _ => false

/-- Whether a record holds, under the keys of some entries, values that are equal to theirs. -/
def strictEqEntries {bound bound' : Option String} : Fields bound → Fields bound' → Bool
  | .nil, _ => true
  | .cons key _ v rest, r => (r.get? key).any (v.strictEq ·) && strictEqEntries rest r

end

def isAmong (v : Value) (vs : List Value) : Bool := vs.any fun w => w.same v

end Value

/-- Whether two records have the same keys with the same values. -/
def Fields.same (a b : Record) : Bool := Value.sameFields a b

end RuleEngine
