import RuleEngine.Pattern.Match

/-! Depth and outcome. An outcome that a match has within some depth it has within every greater
depth, so a match has at most one outcome.
-/

namespace RuleEngine

namespace MatchResult

variable {next next' : Bindings → Option MatchResult}

@[simp]
theorem andThen_matched (b : Bindings) : (⟨true, b⟩ : MatchResult).andThen next = next b := rfl

@[simp]
theorem andThen_failed (b : Bindings)
    : (⟨false, b⟩ : MatchResult).andThen next = some ⟨false, b⟩ :=
  rfl

end MatchResult

namespace Pattern

/-- Every outcome of a matcher is one of another. -/
def Matcher.Refines (inner inner' : Matcher) : Prop :=
  ∀ p v b r, inner p v b = some r → inner' p v b = some r

section

variable {inner inner' : Matcher} {b : Bindings} {r : MatchResult}

/-- Steps that refine others still do so one after the other. -/
theorem bind_andThen_mono {first first' : Option MatchResult}
    {next next' : Bindings → Option MatchResult}
    (firsts : ∀ r, first = some r → first' = some r)
    (nexts : ∀ b r, next b = some r → next' b = some r)
    (outcome : first.bind (·.andThen next) = some r)
    : first'.bind (·.andThen next') = some r := by
  obtain ⟨⟨isMatch, reached⟩, found, rest⟩ := Option.bind_eq_some_iff.mp outcome
  rw [firsts _ found]
  cases isMatch with
  | false => exact rest
  | true => exact nexts _ _ rest

/-- By induction on the items. -/
theorem matchItems_mono (refines : inner.Refines inner') (items : List Pattern) (vs : List Value)
    (outcome : matchItems inner items vs b = some r)
    : matchItems inner' items vs b = some r := by
  induction items generalizing vs b r with
  | nil => simpa [matchItems] using outcome
  | cons item items ih =>
    cases vs with
    | nil => simpa [matchItems] using outcome
    | cons v vs =>
      exact bind_andThen_mono (refines item v b) (fun _ _ => ih vs) outcome

/-- By induction on the fields. -/
theorem matchFields_mono (refines : inner.Refines inner') (fields : List (String × Pattern))
    (record : Record) (outcome : matchFields inner fields record b = some r)
    : matchFields inner' fields record b = some r := by
  induction fields generalizing b r with
  | nil => exact outcome
  | cons first fields ih =>
    unfold matchFields at outcome ⊢
    cases found : record.get? first.1 with
    | none => simpa [found] using outcome
    | some v =>
      rw [found] at outcome
      exact bind_andThen_mono (refines first.2 v b) (fun _ _ => ih) outcome

theorem matchVar_mono (refines : inner.Refines inner') {name : String} {v : Value}
    (outcome : matchVar inner name v b = some r)
    : matchVar inner' name v b = some r := by
  obtain ⟨chainEnd, ends, rest⟩ := Option.bind_eq_some_iff.mp outcome
  rw [matchVar, ends]
  cases chainEnd with
  | unbound last => exact rest
  | cycle bound => exact rest
  | value bound => exact refines _ _ _ _ rest

theorem matchSequence_mono (refines : inner.Refines inner') {items : List Pattern}
    {vs : List Value} (outcome : matchSequence inner items vs b = some r)
    : matchSequence inner' items vs b = some r := by
  unfold matchSequence at outcome ⊢
  cases parts : sequence items with
  | ambiguous => simpa [parts] using outcome
  | plain plain =>
    simp only [parts] at outcome ⊢
    split at outcome
    · rename_i sameLength
      simpa [sameLength] using matchItems_mono refines plain vs outcome
    · rename_i differ
      simpa [differ] using outcome
  | split head name tail =>
    simp only [parts] at outcome ⊢
    split at outcome
    · rename_i short
      simpa [short] using outcome
    · rename_i long
      rw [if_neg long]
      refine bind_andThen_mono (fun _ => matchItems_mono refines head vs) (fun _ _ => ?_) outcome
      exact bind_andThen_mono (fun _ => matchVar_mono refines) fun _ _ =>
        matchItems_mono refines tail _

end

/-- One level more changes no outcome, by induction on the depth. -/
theorem matchWithin_refines_succ (depth : Nat)
    : Matcher.Refines (matchWithin depth) (matchWithin (depth + 1)) := by
  induction depth with
  | zero =>
    intro p v b r outcome
    cases outcome
  | succ depth ih =>
    intro p v b r outcome
    cases p with
    | wildcard | test | rest | exact => exact outcome
    | var name =>
      rw [matchWithin] at outcome ⊢
      exact matchVar_mono ih outcome
    | seq items =>
      unfold matchWithin at outcome ⊢
      cases list : v.list? with
      | none => simpa [list] using outcome
      | some vs => simpa [list] using matchSequence_mono ih (by simpa [list] using outcome)
    | record fields =>
      unfold matchWithin at outcome ⊢
      cases fields' : v.record? with
      | none => simpa [fields'] using outcome
      | some record =>
        simpa [fields'] using matchFields_mono ih fields record (by simpa [fields'] using outcome)

/-- A greater depth changes no outcome. -/
theorem matchWithin_refines {depth depth' : Nat} (le : depth ≤ depth')
    : Matcher.Refines (matchWithin depth) (matchWithin depth') := by
  induction le with
  | refl => exact fun _ _ _ _ outcome => outcome
  | step _ ih =>
    intro p v b r outcome
    exact matchWithin_refines_succ _ p v b r (ih p v b r outcome)

/-- A match has an outcome within some depth. -/
def Outcome (p : Pattern) (v : Value) (b : Bindings) (r : MatchResult) : Prop :=
  ∃ depth, matchWithin depth p v b = some r

/-- A depth that suffices for a match gives the outcome of the match. -/
theorem Outcome.eq {p : Pattern} {v : Value} {b : Bindings} {r r' : MatchResult} {depth : Nat}
    (outcome : Outcome p v b r) (within : matchWithin depth p v b = some r')
    : r' = r := by
  obtain ⟨depth', reached⟩ := outcome
  have here := matchWithin_refines (Nat.le_max_left depth depth') p v b r' within
  have there := matchWithin_refines (Nat.le_max_right depth depth') p v b r reached
  exact Option.some.inj (here.symm.trans there)

end Pattern

end RuleEngine
