import RuleEngine.Proofs.Pattern.Depth
import RuleEngine.Proofs.Pattern.Way
import RuleEngine.Value.Lemmas

/-! What a match does to bindings. It binds one variable after the other that was not bound, each to
a part of the value: the value itself, an item of its lists, a stretch of them, or a field of its
records. What every such binding keeps is thereby kept by the match.
-/

namespace RuleEngine

/-- A property of values that goes over to their parts. -/
structure Value.Hereditary (good : Value → Prop) : Prop where
  item : ∀ {vs v}, good (.list vs) → v ∈ vs → good v
  slice : ∀ {vs start stop}, good (.list vs) → good (.list (Value.slice vs start stop))
  field : ∀ {v : Value} {r name w}, good v → v.record? = some r → r.get? name = some w → good w

/-- All bound values have a property. -/
def Bindings.All (good : Value → Prop) (b : Bindings) : Prop :=
  ∀ name v, b.get? name = some v → good v

theorem Bindings.All.insert {good : Value → Prop} {b : Bindings} (all : b.All good) (name : String)
    {v : Value} (holds : good v)
    : Bindings.All good (Fields.insert b name v) := by
  intro other w bound
  rw [Fields.get?_insert] at bound
  split at bound
  · exact Option.some.inj bound ▸ holds
  · exact all other w bound

namespace Pattern

variable {good : Value → Prop} {P : Bindings → Prop}

/-- Binding a variable that is not bound to a good value keeps a property of bindings. -/
def KeptByBinding (good : Value → Prop) (P : Bindings → Prop) : Prop :=
  ∀ b name v, good v → b.get? name = none → P b → P (Fields.insert b name v)

/-- A matcher keeps a property of bindings when it matches good values. -/
def Matcher.Keeps (good : Value → Prop) (P : Bindings → Prop) (inner : Matcher) : Prop :=
  ∀ p v b r, good v → P b → inner p v b = some r → P r.bindings

/-- A matcher binds nothing but parts of the value. -/
def Matcher.BindsParts (good : Value → Prop) (inner : Matcher) : Prop :=
  ∀ p v b r, good v → b.All good → inner p v b = some r → r.bindings.All good

section

variable {inner : Matcher} {b : Bindings} {r : MatchResult}

/-- Steps one after the other keep what each keeps. -/
theorem bind_andThen_keeps {first : Option MatchResult} {next : Bindings → Option MatchResult}
    (firsts : ∀ r, first = some r → P r.bindings)
    (nexts : ∀ b r, P b → next b = some r → P r.bindings)
    (outcome : first.bind (·.andThen next) = some r)
    : P r.bindings := by
  obtain ⟨⟨isMatch, reached⟩, found, rest⟩ := Option.bind_eq_some_iff.mp outcome
  cases isMatch with
  | false => exact Option.some.inj rest ▸ firsts _ found
  | true => exact nexts _ _ (firsts _ found) rest

/-- By induction on the items. -/
theorem matchItems_keeps (keeps : inner.Keeps good P) {items : List Pattern} {vs : List Value}
    (holds : ∀ v ∈ vs, good v) (before : P b) (outcome : matchItems inner items vs b = some r)
    : P r.bindings := by
  induction items generalizing vs b r with
  | nil =>
    simp only [matchItems] at outcome
    exact Option.some.inj outcome ▸ before
  | cons item items ih =>
    cases vs with
    | nil =>
      simp only [matchItems] at outcome
      exact Option.some.inj outcome ▸ before
    | cons v vs =>
      refine bind_andThen_keeps (P := P) (fun r first => ?_) (fun b r before rest => ?_) outcome
      · exact keeps item v b r (holds v (List.mem_cons_self ..)) before first
      · exact ih (fun w member => holds w (List.mem_cons_of_mem _ member)) before rest

/-- By induction on the fields. -/
theorem matchFields_keeps (keeps : inner.Keeps good P) {fields : List (String × Pattern)}
    {record : Record} (holds : ∀ name v, record.get? name = some v → good v) (before : P b)
    (outcome : matchFields inner fields record b = some r)
    : P r.bindings := by
  induction fields generalizing b r with
  | nil => exact Option.some.inj outcome ▸ before
  | cons first fields ih =>
    unfold matchFields at outcome
    cases found : record.get? first.1 with
    | none =>
      rw [found] at outcome
      exact Option.some.inj outcome ▸ before
    | some v =>
      rw [found] at outcome
      refine bind_andThen_keeps (P := P) (fun r first => ?_) (fun b r before rest => ?_) outcome
      · exact keeps _ v b r (holds _ v found) before first
      · exact ih before rest

theorem matchVar_keeps (keeps : inner.Keeps good P) (binding : KeptByBinding good P)
    {name : String} {v : Value} (holds : good v) (before : P b)
    (outcome : matchVar inner name v b = some r)
    : P r.bindings := by
  obtain ⟨chainEnd, ends, rest⟩ := Option.bind_eq_some_iff.mp outcome
  cases chainEnd with
  | unbound last =>
    have unbound := Bindings.get?_of_chainEnd?_unbound ends
    exact Option.some.inj rest ▸ binding b last v holds unbound before
  | cycle bound => exact Option.some.inj rest ▸ before
  | value bound => exact keeps _ v b r holds before rest

theorem matchSequence_keeps (hereditary : Value.Hereditary good) (keeps : inner.Keeps good P)
    (binding : KeptByBinding good P) {items : List Pattern} {vs : List Value}
    (holds : good (.list vs)) (before : P b)
    (outcome : matchSequence inner items vs b = some r)
    : P r.bindings := by
  have each : ∀ v ∈ vs, good v := fun v => hereditary.item holds
  unfold matchSequence at outcome
  split at outcome
  · exact Option.some.inj outcome ▸ before
  · split at outcome
    · exact matchItems_keeps keeps each before outcome
    · exact Option.some.inj outcome ▸ before
  · split at outcome
    · exact Option.some.inj outcome ▸ before
    · refine bind_andThen_keeps (P := P) (fun r head => ?_) (fun b r before rest => ?_) outcome
      · exact matchItems_keeps keeps each before head
      · refine bind_andThen_keeps (P := P) (fun r middle => ?_) (fun b r before tail => ?_) rest
        · exact matchVar_keeps keeps binding (hereditary.slice holds) before middle
        · exact matchItems_keeps keeps (fun v member => each v (List.mem_of_mem_drop member))
            before tail

end

/-- A match keeps what binding one more variable keeps, by induction on the depth. -/
theorem matchWithin_keeps (hereditary : Value.Hereditary good) (binding : KeptByBinding good P)
    (depth : Nat)
    : Matcher.Keeps good P (matchWithin depth) := by
  induction depth with
  | zero =>
    intro p v b r _ _ outcome
    cases outcome
  | succ depth ih =>
    intro p v b r holds before outcome
    cases p with
    | wildcard | test | rest | exact => exact Option.some.inj outcome ▸ before
    | var name =>
      rw [matchWithin] at outcome
      exact matchVar_keeps ih binding holds before outcome
    | seq items =>
      rw [matchWithin] at outcome
      split at outcome
      · exact Option.some.inj outcome ▸ before
      · rename_i vs list
        have isList := Value.list?_eq_some_iff.mp list
        exact matchSequence_keeps hereditary ih binding (isList ▸ holds) before outcome
    | record fields =>
      rw [matchWithin] at outcome
      split at outcome
      · exact Option.some.inj outcome ▸ before
      · rename_i record isRecord
        exact matchFields_keeps ih (fun name w => hereditary.field holds isRecord) before outcome

/-- A match binds parts of the value, because each variable is bound to one. -/
theorem matchWithin_bindsParts (hereditary : Value.Hereditary good) (depth : Nat)
    : Matcher.BindsParts good (matchWithin depth) :=
  matchWithin_keeps hereditary (fun _ name _ holds _ all => all.insert name holds) depth

/-- What a match leaves bound are parts of the value, and what was bound before. -/
theorem Outcome.bindsParts {p : Pattern} {v : Value} {b : Bindings} {r : MatchResult}
    (outcome : Outcome p v b r) (hereditary : Value.Hereditary good) (holds : good v)
    (all : b.All good)
    : r.bindings.All good := by
  obtain ⟨depth, within⟩ := outcome
  exact matchWithin_bindsParts hereditary depth p v b r holds all within

end Pattern

end RuleEngine
