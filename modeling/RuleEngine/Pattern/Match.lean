import RuleEngine.Pattern.Basic
import RuleEngine.Pattern.Chain
import RuleEngine.Value.Equality
import RuleEngine.Value.Size

/-! Matching of a value against a pattern under bindings. What a variable is bound to is read as a
pattern again, so data can make a match run in circles: a variable bound to the list whose only
item is its own rest. Matching is therefore bounded in depth and has no outcome past the bound.
-/

namespace RuleEngine

/-- The outcome of a match. A failed match keeps what it bound before the step that failed. -/
structure MatchResult where
  isMatch : Bool
  bindings : Bindings

namespace MatchResult

/-- Goes on after a match, and keeps a failure. -/
def andThen (r : MatchResult) (next : Bindings → Option MatchResult) : Option MatchResult :=
  if r.isMatch then next r.bindings else some r

end MatchResult

namespace Pattern

/-- A list pattern by where its rest stands. -/
inductive Sequence where
  | plain (items : List Pattern)
  | split (head : List Pattern) (name : String) (tail : List Pattern)
  /-- More than one rest, which matches nothing. -/
  | ambiguous

/-- Splits the items of a list pattern at their rest. -/
def sequence (items : List Pattern) : Sequence :=
  match items.dropWhile (!·.isRest) with
  | rest name :: tail =>
    if tail.any isRest then .ambiguous else .split (items.takeWhile (!·.isRest)) name tail
  | _ => .plain items

/-- How a pattern is matched one level down. -/
abbrev Matcher := Pattern → Value → Bindings → Option MatchResult

/-- Matches items against values position by position, as far as both go. -/
def matchItems (inner : Matcher) : List Pattern → List Value → Bindings → Option MatchResult
  | item :: items, v :: vs, b =>
    (inner item v b).bind (·.andThen (matchItems inner items vs))
  | _, _, b => some ⟨true, b⟩

/-- Matches named fields in their order, each of which the record must have. -/
def matchFields (inner : Matcher) : List (String × Pattern) → Record → Bindings → Option MatchResult
  | [], _, b => some ⟨true, b⟩
  | (name, field) :: fields, r, b =>
    match r.get? name with
    | none => some ⟨false, b⟩
    | some v => (inner field v b).bind (·.andThen (matchFields inner fields r))

/-- Matches a variable: an unbound one is bound to the value, and what a bound one leads to is
matched as a pattern.
-/
def matchVar (inner : Matcher) (name : String) (v : Value) (b : Bindings) : Option MatchResult :=
  (b.chainEnd? name).bind fun
    | .unbound last => some ⟨true, b.insert last v⟩
    | .cycle bound => some ⟨bound.same v, b⟩
    | .value bound => inner (ofValue bound) v b

/-- Matches a list pattern. The items before and after the rest take the ends of the list, and
the rest is bound to what lies between them.
-/
def matchSequence (inner : Matcher) (items : List Pattern) (vs : List Value) (b : Bindings)
    : Option MatchResult :=
  match sequence items with
  | .ambiguous => some ⟨false, b⟩
  | .plain items =>
    if vs.length = items.length then matchItems inner items vs b else some ⟨false, b⟩
  | .split head name tail =>
    if vs.length < head.length + tail.length then some ⟨false, b⟩
    else
      let tailStart := vs.length - tail.length
      let middle := Value.slice vs head.length tailStart
      (matchItems inner head vs b).bind (·.andThen fun b =>
        (matchVar inner name (.list middle) b).bind (·.andThen fun b =>
          matchItems inner tail (vs.drop tailStart) b))

/-- Matches a value within a depth. There is no outcome if the depth does not suffice. -/
def matchWithin : Nat → Matcher
  | 0, _, _, _ => none
  | depth + 1, p, v, b =>
    let inner := matchWithin depth
    match p with
    | wildcard => some ⟨true, b⟩
    | test accepts => some ⟨accepts v, b⟩
    | var name => matchVar inner name v b
    | rest _ => some ⟨false, b⟩
    | seq items =>
      match v.list? with
      | none => some ⟨false, b⟩
      | some vs => matchSequence inner items vs b
    | record fields =>
      match v.record? with
      | none => some ⟨false, b⟩
      | some r => matchFields inner fields r b
    | exact expected => some ⟨expected.same v, b⟩

/-- A depth that suffices for every match that has an outcome. While the value stays the same, a
match only passes from a variable to the rest of a list that the variable is bound to, and
meets no variable twice; so it meets fewer than there are nodes before the value gets smaller.
-/
def sufficientDepth (p : Pattern) (v : Value) (b : Bindings) : Nat :=
  (v.nodes + 1) * (2 * (p.size + v.nodes + Value.nodesFields b) + 2)

/-- Matches a value against a pattern. There is no outcome if the match runs in circles. -/
def match? (p : Pattern) (v : Value) (b : Bindings) : Option MatchResult :=
  matchWithin (sufficientDepth p v b) p v b

end Pattern

end RuleEngine
