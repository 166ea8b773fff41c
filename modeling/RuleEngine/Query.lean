import RuleEngine.Condition.Basic
import RuleEngine.Value.Order

/-! Queries: conditions whose matches become rows, and the shape of the rows. Rows lose their
duplicates, are sorted, and are cut to a page, in this order.
-/

namespace RuleEngine

inductive Direction where
  | ascending
  | descending
deriving DecidableEq

structure Query where
  id : String
  conditions : List Condition
  /-- The fields of a row. Without them a row holds the variables of the match. -/
  projection : Option (List (String × Expr)) := none
  distinct : Bool := false
  orderBy : Option (String × Direction) := none
  /-- The number of rows that are left out at the front. -/
  offset : Nat := 0
  /-- The number of rows at most; zero sets no bound. -/
  limit : Option Nat := none

namespace Query

/-- Whether the first match already gives the first row. -/
def isStreaming (q : Query) : Bool := !q.distinct && q.orderBy.isNone && q.offset == 0

/-- The rows without those that are the same as an earlier one. -/
def distinctRows (rows : List Record) : List Record :=
  rows.foldl (fun seen row => if seen.any (·.same row) then seen else seen ++ [row]) []

/-- The value that a row is sorted by: the field or else the variable of that name, unless it is
undefined.
-/
def sortValue? (row : Record) (key : String) : Option Value :=
  ((row.get? key).orElse fun _ => row.get? ("?" ++ key)).filter (!·.isUndefined)

/-- The order of two rows. Rows without a value come last in both directions. -/
def compareRows (key : String) (direction : Direction) (a b : Record) : Ordering :=
  match sortValue? a key, sortValue? b key with
  | none, none => .eq
  | none, some _ => .gt
  | some _, none => .lt
  | some v, some w =>
    match direction with
    | .ascending => v.totalCompare w
    | .descending => (v.totalCompare w).swap

/-- The rows in their order; rows that compare equal keep theirs. -/
def sortRows (key : String) (direction : Direction) (rows : List Record) : List Record :=
  rows.mergeSort fun a b => (compareRows key direction a b).isLE

/-- The rows from the offset on, as many as the limit allows. -/
def page (q : Query) (rows : List Record) : List Record :=
  let rows := rows.drop q.offset
  match q.limit with
  | none | some 0 => rows
  | some (limit + 1) => rows.take (limit + 1)

/-- The rows of a query from the rows of its matches. -/
def shape (q : Query) (rows : List Record) : List Record :=
  let rows := if q.distinct then distinctRows rows else rows
  let rows := match q.orderBy with
    | none => rows
    | some (key, direction) => sortRows key direction rows
  q.page rows

end Query

end RuleEngine
