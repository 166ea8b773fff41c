import RuleEngine.Proofs.Pattern.Plain

/-! Outcomes from outcomes. What a match comes to is put together from what its parts come to, each
within a depth of its own, so that matches can be reasoned about without depths.
-/

namespace RuleEngine

namespace Pattern

/-- What the match of items comes to. -/
def ItemsOutcome (items : List Pattern) (vs : List Value) (b : Bindings) (r : MatchResult) : Prop :=
  ∃ depth, matchItems (matchWithin depth) items vs b = some r

/-- What the match of fields comes to. -/
def FieldsOutcome (fields : List (String × Pattern)) (record : Record) (b : Bindings)
    (r : MatchResult)
    : Prop :=
  ∃ depth, matchFields (matchWithin depth) fields record b = some r

section

variable {p : Pattern} {v : Value} {b b' : Bindings} {r : MatchResult}

/-- A match with an outcome is given that outcome. -/
theorem Outcome.match?_eq (outcome : Outcome p v b r) : p.match? v b = some r := by
  have straight : ¬Circles p v b := by
    intro circles
    obtain ⟨depth, within⟩ := outcome
    rw [circles.eq_none depth] at within
    cases within
  obtain ⟨r', answer⟩ := Option.isSome_iff_exists.mp (match?_isSome_of_not_circles straight)
  rw [answer, outcome.eq answer]

theorem match?_eq_some_iff : p.match? v b = some r ↔ Outcome p v b r :=
  ⟨fun answer => ⟨_, answer⟩, Outcome.match?_eq⟩

/-- At least one level is needed. -/
theorem outcome_iff_succ : Outcome p v b r ↔ ∃ depth, matchWithin (depth + 1) p v b = some r := by
  constructor
  · rintro ⟨depth, within⟩
    exact ⟨depth, matchWithin_refines (Nat.le_succ depth) p v b r within⟩
  · rintro ⟨depth, within⟩
    exact ⟨depth + 1, within⟩

-- --------------------------------------------------------------------------------------
-- One step after the other
-- --------------------------------------------------------------------------------------

/-- A step that has an outcome has it within every greater depth. -/
def Lasting (step : Nat → Option MatchResult) : Prop :=
  ∀ depth depth' r, depth ≤ depth' → step depth = some r → step depth' = some r

theorem lasting_of_mono {step : Matcher → Option MatchResult}
    (mono : ∀ inner inner' r, inner.Refines inner' → step inner = some r → step inner' = some r)
    : Lasting fun depth => step (matchWithin depth) :=
  fun _ _ r le outcome => mono _ _ r (matchWithin_refines le) outcome

/-- What one step after another comes to is what the second comes to from where the first one
ends, or what the first comes to if it fails.
-/
theorem exists_bind_andThen_iff {first : Nat → Option MatchResult}
    {next : Nat → Bindings → Option MatchResult} (lasting : Lasting first)
    (lastingNext : ∀ b, Lasting fun depth => next depth b)
    : (∃ depth, (first depth).bind (·.andThen (next depth)) = some r)
      ↔ ∃ r', (∃ depth, first depth = some r') ∧ ∃ depth, r'.andThen (next depth) = some r := by
  constructor
  · rintro ⟨depth, outcome⟩
    obtain ⟨r', here, there⟩ := Option.bind_eq_some_iff.mp outcome
    exact ⟨r', ⟨depth, here⟩, depth, there⟩
  · rintro ⟨⟨isMatch, reached⟩, ⟨depth, here⟩, depth', there⟩
    refine ⟨max depth depth', Option.bind_eq_some_iff.mpr ⟨⟨isMatch, reached⟩, ?_, ?_⟩⟩
    · exact lasting _ _ _ (Nat.le_max_left ..) here
    · cases isMatch with
      | false => exact there
      | true => exact lastingNext reached _ _ _ (Nat.le_max_right ..) there

/-- One step after another succeeds exactly if both do. -/
theorem exists_bind_andThen_matched_iff {first : Nat → Option MatchResult}
    {next : Nat → Bindings → Option MatchResult} (lasting : Lasting first)
    (lastingNext : ∀ b, Lasting fun depth => next depth b)
    : (∃ depth, (first depth).bind (·.andThen (next depth)) = some ⟨true, b'⟩)
      ↔ ∃ c, (∃ depth, first depth = some ⟨true, c⟩) ∧ ∃ depth, next depth c = some ⟨true, b'⟩ := by
  rw [exists_bind_andThen_iff lasting lastingNext]
  constructor
  · rintro ⟨⟨isMatch, c⟩, here, depth, there⟩
    cases isMatch with
    | false => cases there
    | true => exact ⟨c, here, depth, there⟩
  · rintro ⟨c, here, depth, there⟩
    exact ⟨⟨true, c⟩, here, depth, there⟩

-- --------------------------------------------------------------------------------------
-- Items and fields
-- --------------------------------------------------------------------------------------

theorem lasting_matchItems (items : List Pattern) (vs : List Value) (b : Bindings)
    : Lasting fun depth => matchItems (matchWithin depth) items vs b :=
  lasting_of_mono fun _ _ _ refines => matchItems_mono refines items vs

theorem lasting_matchFields (fields : List (String × Pattern)) (record : Record) (b : Bindings)
    : Lasting fun depth => matchFields (matchWithin depth) fields record b :=
  lasting_of_mono fun _ _ _ refines => matchFields_mono refines fields record

theorem lasting_matchWithin (p : Pattern) (v : Value) (b : Bindings)
    : Lasting fun depth => matchWithin depth p v b :=
  fun _ _ r le => matchWithin_refines le p v b r

theorem lasting_matchVar (name : String) (v : Value) (b : Bindings)
    : Lasting fun depth => matchVar (matchWithin depth) name v b :=
  lasting_of_mono fun _ _ _ refines => matchVar_mono refines

theorem itemsOutcome_nil (vs : List Value) : ItemsOutcome [] vs b r ↔ r = ⟨true, b⟩ := by
  simp [ItemsOutcome, matchItems, eq_comm]

theorem itemsOutcome_cons {items : List Pattern} {vs : List Value}
    : ItemsOutcome (p :: items) (v :: vs) b r
      ↔ ∃ r', Outcome p v b r'
          ∧ ∃ depth, r'.andThen (matchItems (matchWithin depth) items vs) = some r :=
  exists_bind_andThen_iff (lasting_matchWithin p v b) (lasting_matchItems items vs)

/-- Items fail with the first of them that fails. -/
theorem ItemsOutcome.of_failed {items : List Pattern} {vs : List Value}
    (failed : Outcome p v b ⟨false, b'⟩)
    : ItemsOutcome (p :: items) (v :: vs) b ⟨false, b'⟩ :=
  itemsOutcome_cons.mpr ⟨_, failed, 0, rfl⟩

/-- After an item that matches items come to what the others come to. -/
theorem ItemsOutcome.of_matched {items : List Pattern} {vs : List Value}
    (matched : Outcome p v b ⟨true, b'⟩) (rest : ItemsOutcome items vs b' r)
    : ItemsOutcome (p :: items) (v :: vs) b r :=
  itemsOutcome_cons.mpr ⟨_, matched, rest⟩

/-- For items to pass is for their match to succeed. -/
theorem itemsOutcome_matched_iff {items : List Pattern} {vs : List Value}
    : ItemsOutcome items vs b ⟨true, b'⟩ ↔ ItemsPass items vs b b' :=
  Iff.rfl

theorem itemsPass_nil (vs : List Value) : ItemsPass [] vs b b' ↔ b' = b := by
  simp [ItemsPass, matchItems, eq_comm]

theorem itemsPass_cons {items : List Pattern} {vs : List Value}
    : ItemsPass (p :: items) (v :: vs) b b'
      ↔ ∃ c, Outcome p v b ⟨true, c⟩ ∧ ItemsPass items vs c b' :=
  exists_bind_andThen_matched_iff (lasting_matchWithin p v b) (lasting_matchItems items vs)

/-- Values past the last item are not looked at, and items pass stretch by stretch; by induction on
the first stretch.
-/
theorem itemsPass_append {items more : List Pattern} {vs ws : List Value}
    (fits : vs.length = items.length)
    : ItemsPass (items ++ more) (vs ++ ws) b b'
      ↔ ∃ c, ItemsPass items vs b c ∧ ItemsPass more ws c b' := by
  induction items generalizing vs b with
  | nil =>
    obtain rfl := List.length_eq_zero_iff.mp fits
    simp [itemsPass_nil]
  | cons item items ih =>
    cases vs with
    | nil => cases fits
    | cons v vs =>
      simp only [List.cons_append, itemsPass_cons, ih (Nat.succ.inj fits)]
      constructor
      · rintro ⟨c, first, d, here, there⟩
        exact ⟨d, ⟨c, first, here⟩, there⟩
      · rintro ⟨d, ⟨c, first, here⟩, there⟩
        exact ⟨c, first, d, here, there⟩

theorem fieldsOutcome_nil (record : Record) : FieldsOutcome [] record b r ↔ r = ⟨true, b⟩ := by
  simp [FieldsOutcome, matchFields, eq_comm]

theorem fieldsOutcome_missing {name : String} {fields : List (String × Pattern)} {record : Record}
    (missing : record.get? name = none)
    : FieldsOutcome ((name, p) :: fields) record b r ↔ r = ⟨false, b⟩ := by
  simp [FieldsOutcome, matchFields, missing, eq_comm]

theorem fieldsOutcome_cons {name : String} {fields : List (String × Pattern)} {record : Record}
    (found : record.get? name = some v)
    : FieldsOutcome ((name, p) :: fields) record b r
      ↔ ∃ r', Outcome p v b r'
          ∧ ∃ depth, r'.andThen (matchFields (matchWithin depth) fields record) = some r := by
  simp only [FieldsOutcome, matchFields, found]
  exact exists_bind_andThen_iff (lasting_matchWithin p v b) (lasting_matchFields fields record)

/-- Fields fail with the first of them that fails. -/
theorem FieldsOutcome.of_failed {name : String} {fields : List (String × Pattern)}
    {record : Record} (found : record.get? name = some v) (failed : Outcome p v b ⟨false, b'⟩)
    : FieldsOutcome ((name, p) :: fields) record b ⟨false, b'⟩ :=
  (fieldsOutcome_cons found).mpr ⟨_, failed, 0, rfl⟩

/-- After a field that matches fields come to what the others come to. -/
theorem FieldsOutcome.of_matched {name : String} {fields : List (String × Pattern)}
    {record : Record} (found : record.get? name = some v) (matched : Outcome p v b ⟨true, b'⟩)
    (rest : FieldsOutcome fields record b' r)
    : FieldsOutcome ((name, p) :: fields) record b r :=
  (fieldsOutcome_cons found).mpr ⟨_, matched, rest⟩

theorem fieldsOutcome_cons_matched {name : String} {fields : List (String × Pattern)}
    {record : Record} (found : record.get? name = some v)
    : FieldsOutcome ((name, p) :: fields) record b ⟨true, b'⟩
      ↔ ∃ c, Outcome p v b ⟨true, c⟩ ∧ FieldsOutcome fields record c ⟨true, b'⟩ := by
  simp only [FieldsOutcome, matchFields, found]
  exact exists_bind_andThen_matched_iff (lasting_matchWithin p v b)
    (lasting_matchFields fields record)

-- --------------------------------------------------------------------------------------
-- Patterns
-- --------------------------------------------------------------------------------------

@[simp]
theorem outcome_wildcard : Outcome wildcard v b r ↔ r = ⟨true, b⟩ := by
  simp [outcome_iff_succ, matchWithin, eq_comm]

@[simp]
theorem outcome_exact {expected : Value}
    : Outcome (exact expected) v b r ↔ r = ⟨expected.same v, b⟩ := by
  simp [outcome_iff_succ, matchWithin, eq_comm]

theorem outcome_record {fields : List (String × Pattern)} {record : Record}
    (isRecord : v.record? = some record)
    : Outcome (.record fields) v b r ↔ FieldsOutcome fields record b r := by
  simp [outcome_iff_succ, FieldsOutcome, matchWithin, isRecord]

theorem outcome_record_of_none {fields : List (String × Pattern)} (noRecord : v.record? = none)
    : Outcome (.record fields) v b r ↔ r = ⟨false, b⟩ := by
  simp [outcome_iff_succ, matchWithin, noRecord, eq_comm]

theorem outcome_seq_of_none {items : List Pattern} (noList : v.list? = none)
    : Outcome (seq items) v b r ↔ r = ⟨false, b⟩ := by
  simp [outcome_iff_succ, matchWithin, noList, eq_comm]

/-- A list pattern without a rest is matched item by item if the list has as many items. -/
theorem outcome_seq_plain {items : List Pattern} {vs : List Value}
    (noRests : ∀ p ∈ items, p.isRest = false) (fits : vs.length = items.length)
    : Outcome (seq items) (.list vs) b r ↔ ItemsOutcome items vs b r := by
  simp [outcome_iff_succ, ItemsOutcome, matchWithin, Value.list?, matchSequence,
    sequence_of_no_rests noRests, fits]

/-- A list pattern without a rest fails at lists with another number of items. -/
theorem outcome_seq_misfit {items : List Pattern} {vs : List Value}
    (noRests : ∀ p ∈ items, p.isRest = false) (misfit : vs.length ≠ items.length)
    : Outcome (seq items) (.list vs) b r ↔ r = ⟨false, b⟩ := by
  simp [outcome_iff_succ, matchWithin, Value.list?, matchSequence, sequence_of_no_rests noRests,
    misfit, eq_comm]

/-- A list pattern with more than one rest matches no list. -/
theorem outcome_seq_ambiguous {items : List Pattern} {vs : List Value}
    (parts : sequence items = .ambiguous)
    : Outcome (seq items) (.list vs) b r ↔ r = ⟨false, b⟩ := by
  simp [outcome_iff_succ, matchWithin, Value.list?, matchSequence, parts, eq_comm]

/-- A list pattern with one rest matches if the list is long enough, the head and the tail take its
ends, and the variable of the rest what lies between them.
-/
theorem outcome_seq_split {items head tail : List Pattern} {name : String} {vs : List Value}
    (parts : sequence items = .split head name tail)
    (fits : head.length + tail.length ≤ vs.length)
    : Outcome (seq items) (.list vs) b ⟨true, b'⟩
      ↔ ∃ c d, ItemsPass head vs b c
          ∧ Outcome (var name) (middleOf vs head tail) c ⟨true, d⟩
          ∧ ItemsPass tail (vs.drop (vs.length - tail.length)) d b' := by
  have lastingTail (c : Bindings) := lasting_matchItems tail (vs.drop (vs.length - tail.length)) c
  have lastingMiddle (c : Bindings) : Lasting fun depth =>
      (matchVar (matchWithin depth) name (middleOf vs head tail) c).bind
        (·.andThen (matchItems (matchWithin depth) tail (vs.drop (vs.length - tail.length)))) := by
    intro depth depth' r le outcome
    have refines := matchWithin_refines le
    exact bind_andThen_mono (fun _ => matchVar_mono refines)
      (fun _ _ => matchItems_mono refines tail _) outcome
  simp only [outcome_iff_succ, matchWithin, Value.list?, matchSequence, parts,
    if_neg (Nat.not_lt.mpr fits)]
  rw [exists_bind_andThen_matched_iff (lasting_matchItems head vs b) lastingMiddle]
  refine exists_congr fun c => ?_
  rw [exists_bind_andThen_matched_iff (lasting_matchVar name _ c) lastingTail]
  constructor
  · rintro ⟨first, d, second, last⟩
    exact ⟨d, first, second, last⟩
  · rintro ⟨d, first, second, last⟩
    exact ⟨first, d, second, last⟩

-- --------------------------------------------------------------------------------------
-- Variables
-- --------------------------------------------------------------------------------------

section

variable {name : String}

/-- What a variable comes to is told by where its chain ends. -/
theorem outcome_var_of_chainEnd? {chainEnd : Bindings.ChainEnd}
    (ends : b.chainEnd? name = some chainEnd)
    : Outcome (var name) v b r ↔ match chainEnd with
      | .unbound last => r = ⟨true, b.insert last v⟩
      | .cycle bound => r = ⟨bound.same v, b⟩
      | .value bound => Outcome (ofValue bound) v b r := by
  simp only [outcome_iff_succ (p := var name), matchWithin, matchVar, ends, Option.bind_some]
  cases chainEnd with
  | unbound last | cycle bound => simp [eq_comm]
  | value bound => exact Iff.rfl

theorem outcome_var_of_unbound (unbound : b.get? name = none)
    : Outcome (var name) v b r ↔ r = ⟨true, b.insert name v⟩ :=
  outcome_var_of_chainEnd? (Bindings.chainEnd?_of_unbound unbound)

/-- What a variable is bound to is matched as a pattern, unless it is a variable itself. -/
theorem outcome_var_of_bound {bound : Value} (isBound : b.get? name = some bound)
    (notBare : Bindings.bareVariable? bound = none)
    : Outcome (var name) v b r ↔ Outcome (ofValue bound) v b r :=
  outcome_var_of_chainEnd? (Bindings.chainEnd?_of_bound isBound notBare)

/-- A variable that is bound to an unbound one is matched like this one. -/
theorem outcome_var_of_bare_unbound {next : String} (isVariable : Variable.isVariable next)
    (bound : b.get? name = some (.string next)) (unbound : b.get? next = none)
    : Outcome (var name) v b r ↔ r = ⟨true, b.insert next v⟩ :=
  outcome_var_of_chainEnd? (Bindings.chainEnd?_of_bare_unbound isVariable bound unbound)

/-- A variable that is bound to one that is bound to itself accepts the name of this one. -/
theorem outcome_var_of_bare_own {next : String} (isVariable : Variable.isVariable next)
    (bound : b.get? name = some (.string next)) (own : b.get? next = some (.string next))
    : Outcome (var name) v b r ↔ r = ⟨(Value.string next).same v, b⟩ :=
  outcome_var_of_chainEnd? (Bindings.chainEnd?_of_bare_own isVariable bound own)

/-- A variable that is bound to itself accepts its own name. -/
theorem outcome_var_of_own (isVariable : Variable.isVariable name)
    (bound : b.get? name = some (.string name))
    : Outcome (var name) v b r ↔ r = ⟨(Value.string name).same v, b⟩ :=
  outcome_var_of_chainEnd? (Bindings.chainEnd?_of_own isVariable bound)

end

end

end Pattern

end RuleEngine
