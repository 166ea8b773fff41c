import RuleEngine.Proofs.Pattern.Chain

/-! Matches that run in circles. What a match comes to on its way is matched in turn, and a match
has no outcome exactly if it comes to a variable from which rests lead on and on.
-/

namespace RuleEngine

namespace Pattern

/-- Items match one after the other up to one of them, which then has its turn. -/
inductive ItemReached : List Pattern → List Value → Bindings → Pattern → Value → Bindings → Prop
    where
  | here {item : Pattern} {items : List Pattern} {v : Value} {vs : List Value} {b : Bindings}
    : ItemReached (item :: items) (v :: vs) b item v b
  | later {item p : Pattern} {items : List Pattern} {v w : Value} {vs : List Value}
    {b b' b'' : Bindings} (matched : Outcome item v b ⟨true, b'⟩)
    (reached : ItemReached items vs b' p w b'')
    : ItemReached (item :: items) (v :: vs) b p w b''

/-- Fields match one after the other up to one of them, which then has its turn. -/
inductive FieldReached
    : List (String × Pattern) → Record → Bindings → Pattern → Value → Bindings → Prop where
  | here {name : String} {p : Pattern} {fields : List (String × Pattern)} {record : Record}
    {v : Value} {b : Bindings} (found : record.get? name = some v)
    : FieldReached ((name, p) :: fields) record b p v b
  | later {name : String} {p q : Pattern} {fields : List (String × Pattern)} {record : Record}
    {v w : Value} {b b' b'' : Bindings} (found : record.get? name = some v)
    (matched : Outcome p v b ⟨true, b'⟩) (reached : FieldReached fields record b' q w b'')
    : FieldReached ((name, p) :: fields) record b q w b''

/-- All of some items match. -/
def ItemsPass (items : List Pattern) (vs : List Value) (b b' : Bindings) : Prop :=
  ∃ depth, matchItems (matchWithin depth) items vs b = some ⟨true, b'⟩

/-- The middle of a list, between what the head and the tail of a list pattern take. -/
abbrev middleOf (vs : List Value) (head tail : List Pattern) : Value :=
  .list (Value.slice vs head.length (vs.length - tail.length))

/-- What the match of a pattern comes to next: a pattern, a value and bindings. -/
inductive Subgoal : Pattern → Value → Bindings → Pattern → Value → Bindings → Prop where
  | bound {name : String} {v bound : Value} {b : Bindings}
    (ends : b.chainEnd? name = some (.value bound))
    : Subgoal (var name) v b (ofValue bound) v b
  | item {items plain : List Pattern} {vs : List Value} {p : Pattern} {w : Value} {b b' : Bindings}
    (parts : sequence items = .plain plain) (fits : vs.length = plain.length)
    (reached : ItemReached plain vs b p w b')
    : Subgoal (seq items) (.list vs) b p w b'
  | head {items head tail : List Pattern} {name : String} {vs : List Value} {p : Pattern}
    {w : Value} {b b' : Bindings} (parts : sequence items = .split head name tail)
    (fits : ¬vs.length < head.length + tail.length) (reached : ItemReached head vs b p w b')
    : Subgoal (seq items) (.list vs) b p w b'
  | middle {items head tail : List Pattern} {name : String} {vs : List Value} {b b' : Bindings}
    (parts : sequence items = .split head name tail)
    (fits : ¬vs.length < head.length + tail.length) (passed : ItemsPass head vs b b')
    : Subgoal (seq items) (.list vs) b (var name) (middleOf vs head tail) b'
  | tail {items head tail : List Pattern} {name : String} {vs : List Value} {p : Pattern}
    {w : Value} {b b' b'' c : Bindings} (parts : sequence items = .split head name tail)
    (fits : ¬vs.length < head.length + tail.length) (passed : ItemsPass head vs b b')
    (matched : Outcome (var name) (middleOf vs head tail) b' ⟨true, b''⟩)
    (reached : ItemReached tail (vs.drop (vs.length - tail.length)) b'' p w c)
    : Subgoal (seq items) (.list vs) b p w c
  | field {fields : List (String × Pattern)} {v : Value} {r : Record} {p : Pattern} {w : Value}
    {b b' : Bindings} (isRecord : v.record? = some r) (reached : FieldReached fields r b p w b')
    : Subgoal (record fields) v b p w b'

/-- A match comes to matching a list with a variable from which rests lead on and on. -/
inductive Circles : Pattern → Value → Bindings → Prop where
  | endless {name : String} {vs : List Value} {b : Bindings} (endless : b.Endless name)
    : Circles (var name) (.list vs) b
  | within {p q : Pattern} {v w : Value} {b b' : Bindings} (subgoal : Subgoal p v b q w b')
    (circles : Circles q w b')
    : Circles p v b

section

variable {p : Pattern} {v : Value} {b b' : Bindings} {depth : Nat}

/-- By induction on the items that match first. -/
theorem ItemReached.eq_none {items : List Pattern} {vs : List Value}
    (reached : ItemReached items vs b p v b') (none : matchWithin depth p v b' = none)
    : matchItems (matchWithin depth) items vs b = .none := by
  induction reached with
  | here => simp [matchItems, none]
  | @later item _ _ w _ _ b _ _ matched _ ih =>
    simp only [matchItems]
    cases within : matchWithin depth item w _ with
    | none => rfl
    | some r =>
      obtain rfl := matched.eq within
      simpa using ih none

/-- By induction on the fields that match first. -/
theorem FieldReached.eq_none {fields : List (String × Pattern)} {r : Record}
    (reached : FieldReached fields r b p v b') (none : matchWithin depth p v b' = none)
    : matchFields (matchWithin depth) fields r b = .none := by
  induction reached with
  | here found => simp [matchFields, found, none]
  | @later _ q _ _ _ w _ _ _ _ found matched _ ih =>
    simp only [matchFields, found]
    cases within : matchWithin depth q w _ with
    | none => rfl
    | some r =>
      obtain rfl := matched.eq within
      simpa using ih none

/-- A depth that suffices for items that match gives what they leave bound. -/
theorem ItemsPass.eq {items : List Pattern} {vs : List Value} {r : MatchResult}
    (passed : ItemsPass items vs b b')
    (within : matchItems (matchWithin depth) items vs b = some r)
    : r = ⟨true, b'⟩ := by
  obtain ⟨depth', reached⟩ := passed
  have here := matchItems_mono (matchWithin_refines (Nat.le_max_left depth depth')) items vs within
  have there :=
    matchItems_mono (matchWithin_refines (Nat.le_max_right depth depth')) items vs reached
  exact Option.some.inj (here.symm.trans there)

/-- A list pattern that asks for a rest alone is matched like the variable of the rest. -/
theorem matchSequence_soleRest (inner : Matcher) (name : String) (vs : List Value) (b : Bindings)
    : matchSequence inner [rest name] vs b = matchVar inner name (.list vs) b := by
  have parts : sequence [rest name] = .split [] name [] := rfl
  have whole : Value.slice vs 0 vs.length = vs := by simp [Value.slice]
  have ends (r : MatchResult) : r.andThen (fun b => some ⟨true, b⟩) = some r := by
    obtain ⟨isMatch, b⟩ := r
    cases isMatch <;> rfl
  simp [matchSequence, parts, matchItems, whole, ends]

/-- A match has no outcome if what it comes to has none. -/
theorem Subgoal.eq_none {q : Pattern} {w : Value} (subgoal : Subgoal p v b q w b')
    (none : ∀ depth, matchWithin depth q w b' = none) (depth : Nat)
    : matchWithin depth p v b = .none := by
  cases depth with
  | zero => rfl
  | succ depth =>
    cases subgoal with
    | bound ends => simpa [matchWithin, matchVar, ends] using none depth
    | item parts fits reached =>
      simpa [matchWithin, Value.list?, matchSequence, parts, fits]
        using reached.eq_none (none depth)
    | head parts fits reached =>
      have stuck := reached.eq_none (none depth)
      simp [matchWithin, Value.list?, matchSequence, parts, fits, stuck]
    | middle parts fits passed =>
      have stuck := none (depth + 1)
      rw [matchWithin] at stuck
      simp only [matchWithin, Value.list?, matchSequence, parts, if_neg fits]
      cases within : matchItems (matchWithin depth) _ _ b with
      | none => rfl
      | some r =>
        obtain rfl := passed.eq within
        simp [stuck]
    | tail parts fits passed matched reached =>
      have stuck := reached.eq_none (none depth)
      simp only [matchWithin, Value.list?, matchSequence, parts, if_neg fits]
      cases within : matchItems (matchWithin depth) _ _ b with
      | none => rfl
      | some r =>
        obtain rfl := passed.eq within
        simp only [Option.bind_some, MatchResult.andThen_matched]
        cases middle : matchVar (matchWithin depth) _ _ _ with
        | none => rfl
        | some r =>
          have outcome : matchWithin (depth + 1) (var _) _ _ = some r := middle
          obtain rfl := matched.eq outcome
          simpa using stuck
    | field isRecord reached =>
      simpa [matchWithin, isRecord] using reached.eq_none (none depth)

/-- Where rests lead on and on no depth suffices, by induction on the depth. -/
theorem eq_none_of_endless {name : String} (endless : b.Endless name) (vs : List Value)
    (depth : Nat)
    : matchWithin depth (var name) (.list vs) b = none := by
  induction depth generalizing name with
  | zero => rfl
  | succ depth ih =>
    obtain ⟨next, leads, further⟩ := endless.next
    unfold Bindings.nextRest? at leads
    split at leads
    · rename_i bound ends
      rw [matchWithin, matchVar, ends]
      simp only [Option.bind_some, eq_of_soleRest? leads]
      cases depth with
      | zero => rfl
      | succ depth =>
        have stuck := ih further
        rw [matchWithin] at stuck
        simpa [matchWithin, Value.list?, matchSequence_soleRest] using stuck
    · cases leads

/-- A match that runs in circles has no outcome, by induction on what it comes to. -/
theorem Circles.eq_none (circles : Circles p v b) (depth : Nat)
    : matchWithin depth p v b = none := by
  induction circles generalizing depth with
  | endless endless => exact eq_none_of_endless endless _ depth
  | within subgoal _ ih => exact subgoal.eq_none ih depth

end

-- --------------------------------------------------------------------------------------
-- What circles take
-- --------------------------------------------------------------------------------------

section

variable {good : Value → Prop} {p q : Pattern} {v w : Value} {b b' : Bindings}

/-- Items are reached with parts of the values bound, by induction on the items that match first. -/
theorem ItemReached.keeps {items : List Pattern} {vs : List Value}
    (reached : ItemReached items vs b p w b') (hereditary : Value.Hereditary good)
    (holds : ∀ v ∈ vs, good v) (all : b.All good)
    : good w ∧ b'.All good := by
  induction reached with
  | here => exact ⟨holds _ (List.mem_cons_self ..), all⟩
  | later matched _ ih =>
    exact ih (fun v member => holds v (List.mem_cons_of_mem _ member))
      (matched.bindsParts hereditary (holds _ (List.mem_cons_self ..)) all)

/-- By induction on the fields that match first. -/
theorem FieldReached.keeps {fields : List (String × Pattern)} {r : Record}
    (reached : FieldReached fields r b p w b') (hereditary : Value.Hereditary good)
    (holds : ∀ name v, r.get? name = some v → good v) (all : b.All good)
    : good w ∧ b'.All good := by
  induction reached with
  | here found => exact ⟨holds _ _ found, all⟩
  | later found matched _ ih =>
    exact ih holds (matched.bindsParts hereditary (holds _ _ found) all)

/-- What a match comes to are parts of the value, under bindings of parts. -/
theorem Subgoal.keeps (subgoal : Subgoal p v b q w b') (hereditary : Value.Hereditary good)
    (holds : good v) (all : b.All good)
    : good w ∧ b'.All good := by
  have passes {items : List Pattern} {vs : List Value} {c c' : Bindings}
      (passed : ItemsPass items vs c c') (holds : good (.list vs)) (all : c.All good)
      : c'.All good := by
    obtain ⟨depth, within⟩ := passed
    exact matchItems_keeps (matchWithin_bindsParts hereditary depth)
      (fun v => hereditary.item holds) all within
  cases subgoal with
  | bound => exact ⟨holds, all⟩
  | item _ _ reached => exact reached.keeps hereditary (fun v => hereditary.item holds) all
  | head _ _ reached => exact reached.keeps hereditary (fun v => hereditary.item holds) all
  | middle _ _ passed => exact ⟨hereditary.slice holds, passes passed holds all⟩
  | tail _ _ passed matched reached =>
    refine reached.keeps hereditary ?_ ?_
    · exact fun v member => hereditary.item holds (List.mem_of_mem_drop member)
    · exact matched.bindsParts hereditary (hereditary.slice holds) (passes passed holds all)
  | field isRecord reached =>
    exact reached.keeps hereditary (fun name v => hereditary.field holds isRecord) all

/-- A match that runs in circles comes upon data with a text that asks for a rest, by induction on
what it comes to.
-/
theorem Circles.exists_rest (circles : Circles p v b) (hereditary : Value.Hereditary good)
    (holds : good v) (all : b.All good)
    : ∃ w, good w ∧ ∃ s ∈ w.texts, Variable.isRest s := by
  induction circles with
  | endless endless =>
    obtain ⟨next, leads, -⟩ := endless.next
    obtain ⟨w, among, s, here, isRest, -⟩ := Bindings.exists_text_of_nextRest? all leads
    exact ⟨w, among, s, here, isRest⟩
  | within subgoal _ ih =>
    obtain ⟨holds', all'⟩ := subgoal.keeps hereditary holds all
    exact ih holds' all'

end

end Pattern

end RuleEngine
