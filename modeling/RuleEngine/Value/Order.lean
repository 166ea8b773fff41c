import RuleEngine.Value.Basic

/-! Two orders on values: a partial one within each type, which conditions use, and a total one,
by which rows are sorted.
-/

namespace RuleEngine

namespace Value

/-- The comparison of two values of one type that has an order. Not-a-number compares with
nothing; facts compare by identity.
-/
def compare? : Value → Value → Option Ordering
  | bool a, bool b => some (compare a b)
  | number a, number b => a.compare? b
  | string a, string b => some (compare a b)
  | date a, date b => some (a.compare b)
  | fact a, fact b => some (compare a.id.number b.id.number)
  | _, _ => none

/-- The place of a value's type in the total order. -/
def typeRank : Value → Nat
  | undefined => 0
  | null => 1
  | bool _ => 2
  | number _ => 3
  | string _ => 4
  | date _ => 5
  | list _ => 6
  | map _ => 7
  | fact _ => 8

/-- The total order: by type, then within a type. Numbers are ordered by their words; any two
lists, and any two maps, rank alike.
-/
def totalCompare : Value → Value → Ordering
  | bool a, bool b => compare a b
  | number a, number b => compare a.totalRank b.totalRank
  | string a, string b => compare a b
  | date a, date b => a.compare b
  | fact a, fact b => compare a.id.number b.id.number
  | a, b => compare a.typeRank b.typeRank

end Value

end RuleEngine
