import RuleEngine.Proofs.Join.Conditions

/-! What the steps of a join find. Marks of matches without an end find nothing, so what is found
goes from condition to condition by the bindings that matches leave.
-/

namespace RuleEngine

namespace Join

variable {facts : String → List Fact}

@[simp]
theorem found_append (steps more : List JoinStep)
    : found (steps ++ more) = found steps ++ found more :=
  List.filterMap_append

/-- An attempt finds what is found with the bindings that the match leaves. -/
theorem found_attempt (p : Pattern) (v : Value) (b : Bindings)
    (onward : Bindings → List JoinStep)
    : found (attempt p v b onward)
      = match p.bind? v b with
        | none => []
        | some b' => found (onward b') := by
  unfold attempt Pattern.bind?
  rcases p.match? v b with _ | ⟨_ | _, b'⟩ <;> rfl

@[simp]
theorem found_probe (p : Pattern) (b : Bindings) (facts : List Fact)
    : found (probe p b facts) = [] := by
  rw [found, probe, List.filterMap_flatMap, List.flatMap_eq_nil_iff]
  intro f _
  refine (found_attempt p (.fact f) b fun _ => []).trans ?_
  split <;> rfl

/-- Putting a fact in front of what steps consume puts it in front of what matches consume. -/
theorem found_map_consuming (id : FactId) (steps : List JoinStep)
    : found (steps.map (·.consuming id))
      = (found steps).map fun m => { m with consumed := id :: m.consumed } := by
  induction steps with
  | nil => rfl
  | cons step rest ih => cases step <;> simpa [found, JoinStep.consuming, JoinStep.match?] using ih

theorem found_guarded (c : PatternCondition) (onward : Bindings → List JoinStep) (f : Fact)
    (b : Bindings)
    : found (guarded c onward f b)
      = if checkGuards b c.guards matches .passed then
          (found (onward b)).map fun m => { m with consumed := f.id :: m.consumed }
        else [] := by
  unfold guarded
  cases checkGuards b c.guards with
  | passed => simp [found_map_consuming]
  | failed | fault => rfl

/-- A candidate contributes the matches of what follows if it is admitted, and otherwise none. -/
theorem found_choose (c : PatternCondition) (onward : Bindings → List JoinStep) (b : Bindings)
    (f : Fact)
    : found (choose c onward b f)
      = match c.admit? f b with
        | none => []
        | some b' =>
          (found (onward b')).map fun m => { m with consumed := f.id :: m.consumed } := by
  have admitted (b' : Bindings) : found (guarded c onward f b')
      = match (some b').filter fun b' => checkGuards b' c.guards matches .passed with
        | none => []
        | some b' =>
          (found (onward b')).map fun m => { m with consumed := f.id :: m.consumed } := by
    rw [found_guarded]
    split <;> simp_all [Option.filter]
  rw [choose, found_attempt, PatternCondition.admit?, PatternCondition.bindFact?]
  cases c.pattern.bind? (.fact f) b with
  | none => rfl
  | some matched =>
    cases c.factName with
    | none => exact admitted matched
    | some name =>
      simp only [found_attempt, Option.bind_some]
      cases (Pattern.varNamed name).bind? (.fact f) matched with
      | none => rfl
      | some named => exact admitted _

/-- The matches of a pattern condition and others are those of the others, candidate by candidate.
-/
theorem found_pattern (c : PatternCondition) (rest : List Condition) (b : Bindings)
    : found (steps facts (.pattern c :: rest) b)
      = (facts c.kind).flatMap fun f =>
          match c.admit? f b with
          | none => []
          | some b' => (found (steps facts rest b')).map fun m =>
              { m with consumed := f.id :: m.consumed } := by
  rw [steps, found, List.filterMap_flatMap]
  exact congrArg (fun g => (facts c.kind).flatMap g) (funext fun f => found_choose c _ b f)

theorem found_accumulate (c : AccumulateCondition) (rest : List Condition) (b : Bindings)
    : found (steps facts (.accumulate c :: rest) b)
      = match (Pattern.var c.target).bind? (aggregate (facts c.kind) c b) b with
        | none => []
        | some b' => found (steps facts rest b') := by
  rw [steps, found_append, found_probe, List.nil_append, found_attempt]

theorem found_lacks (c : LacksCondition) (rest : List Condition) (b : Bindings)
    : found (steps facts (.lacks c :: rest) b)
      = if (facts c.kind).any (c.pattern.accepts · b) then [] else found (steps facts rest b) := by
  rw [steps, found_append, found_probe, List.nil_append]
  split <;> rfl

-- --------------------------------------------------------------------------------------
-- Steps up to a limit
-- --------------------------------------------------------------------------------------

/-- As many of the first matches as a limit leaves. No limit leaves out the first of all. -/
def withinLimit (limit : Option Nat) (found : List Match) : List Match :=
  match limit with
  | none => found
  | some limit => found.take (max limit 1)

@[simp]
theorem withinLimit_none (found : List Match) : withinLimit none found = found := rfl

@[simp]
theorem withinLimit_eq_nil_iff {limit : Option Nat} {found : List Match}
    : withinLimit limit found = [] ↔ found = [] := by
  cases limit with
  | none => rfl
  | some limit =>
    have some : max limit 1 ≠ 0 := by omega
    simp [withinLimit, List.take_eq_nil_iff, some]

theorem head?_withinLimit (limit : Option Nat) (found : List Match)
    : (withinLimit limit found).head? = found.head? := by
  cases limit with
  | none => rfl
  | some limit =>
    have some : max limit 1 ≠ 0 := by omega
    simp [withinLimit, List.head?_take, some]

/-- Stopping at a limit leaves as many matches as the limit allows, and the first one at least. -/
theorem found_untilFound (limit : Nat) (steps : List JoinStep)
    : found (untilFound limit steps) = (found steps).take (max limit 1) := by
  induction steps generalizing limit with
  | nil => exact List.take_nil.symm
  | cons step rest ih =>
    cases step with
    | fault guard failure | endless => exact ih limit
    | found m =>
      have first : found (.found m :: rest) = m :: found rest := rfl
      unfold untilFound
      split
      · rename_i reached
        rw [first, Nat.max_eq_right reached]
        rfl
      · rename_i below
        have more : max limit 1 = max (limit - 1) 1 + 1 := by omega
        rw [first, more, List.take_succ_cons, ← ih (limit - 1)]
        rfl

/-- A limit leaves a prefix of the matches. -/
theorem found_upTo (limit : Option Nat) (steps : List JoinStep)
    : found (upTo limit steps) = withinLimit limit (found steps) := by
  cases limit with
  | none => rfl
  | some limit => exact found_untilFound limit steps

/-- The steps up to a limit are the first of all steps, by induction. -/
theorem untilFound_prefix (limit : Nat) (steps : List JoinStep)
    : untilFound limit steps <+: steps := by
  induction steps generalizing limit with
  | nil => exact List.prefix_refl _
  | cons step rest ih =>
    cases step with
    | fault guard failure | endless => exact (List.prefix_cons_inj _).mpr (ih limit)
    | found m =>
      unfold untilFound
      refine (List.prefix_cons_inj _).mpr ?_
      split
      · exact List.nil_prefix
      · exact ih _

theorem upTo_prefix (limit : Option Nat) (steps : List JoinStep)
    : upTo limit steps <+: steps := by
  cases limit with
  | none => exact List.prefix_refl _
  | some limit => exact untilFound_prefix limit steps

end Join

end RuleEngine
