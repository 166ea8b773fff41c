import RuleEngine.Proofs.Join.Tuples
import RuleEngine.Proofs.Pattern.Growth
import RuleEngine.Proofs.Pattern.Occurrences

/-! Variables that occur again. What a variable is bound to is read as a pattern when the variable
is met again, so it accepts the same value if that value, read as a pattern, reads as itself.
-/

namespace RuleEngine

/-- Variables that are named as rests are named once. -/
def Occurrence.Once (occurrences : List Occurrence) : Prop :=
  occurrences.Pairwise fun occurrence other =>
    occurrence.name = other.name → occurrence.isBare ∧ other.isBare

/-- A variable is not bound, or named by its bare name and bound to it. -/
def Occurrence.IsFree (b : Bindings) (occurrence : Occurrence) : Prop :=
  b.get? occurrence.name = none
    ∨ occurrence.isBare ∧ b.get? occurrence.name = some (.string occurrence.name)

/-- A value is unambiguous, and what it names is free and, as a rest, named once. -/
structure Value.ReadsAsItself (v : Value) (b : Bindings) : Prop where
  unambiguous : v.isUnambiguous
  free : ∀ occurrence ∈ v.occurrences, occurrence.IsFree b
  once : Occurrence.Once v.occurrences

namespace Pattern

variable {b b' : Bindings} {occurrence other : Occurrence}

-- --------------------------------------------------------------------------------------
-- One occurrence
-- --------------------------------------------------------------------------------------

/-- A variable that is bound to its bare name accepts what an occurrence leaves for it if that is
its bare name.
-/
theorem outcome_of_own (isVariable : Variable.isVariable occurrence.name)
    (own : b.get? occurrence.name = some (.string occurrence.name)) {r : MatchResult}
    : Outcome (var occurrence.name) occurrence.text b r ↔ r = ⟨occurrence.isBare, b⟩ := by
  rw [outcome_var_of_own isVariable own]
  cases occurrence with
  | bare => simp [Occurrence.text, Occurrence.name, Occurrence.isBare, Value.same]
  | rest => simp [Occurrence.text, Occurrence.isBare, Value.same]

/-- From a variable that is bound to its own rest alone rests lead on and on. -/
theorem endless_of_own_rest {s : String} (isRest : Variable.isRest s)
    (bound : b.get? (Variable.ofName s) = some (.list [.string s]))
    : b.Endless (Variable.ofName s) := by
  have leads : b.nextRest? (Variable.ofName s) = some (Variable.ofName s) := by
    rw [Bindings.nextRest?, Bindings.chainEnd?_of_bound bound rfl]
    simp [ofValue, ofItems, isRest, restNamed, soleRest?]
  intro n stops
  exact Nat.succ_ne_self n (Bindings.Stops.unique (.onward leads stops) stops)

/-- A variable that is bound to what one occurrence leaves for it accepts what another one leaves
for it only if both are bare.
-/
theorem isBare_of_outcome (same : other.name = occurrence.name)
    (bound : b.get? occurrence.name = some other.text)
    (accepts : Outcome (var occurrence.name) occurrence.text b ⟨true, b'⟩)
    : other.isBare ∧ occurrence.isBare := by
  cases other with
  | bare name isVariable =>
    obtain rfl : name = occurrence.name := same
    rw [outcome_of_own isVariable bound, MatchResult.mk.injEq] at accepts
    exact ⟨rfl, accepts.1.symm⟩
  | rest s isRest =>
    rw [← same] at bound accepts
    cases occurrence with
    | bare name isVariable =>
      have outcome := (outcome_var_of_bound bound rfl).mp accepts
      simp only [Occurrence.text, ofValue, outcome_seq_of_none (v := .string name) rfl] at outcome
      cases outcome
    | rest s' isRest' =>
      obtain ⟨depth, within⟩ := accepts
      have stuck := eq_none_of_endless (endless_of_own_rest isRest bound) [.string s'] depth
      cases stuck.symm.trans within

-- --------------------------------------------------------------------------------------
-- Occurrences one after the other
-- --------------------------------------------------------------------------------------

/-- Free variables accept, one after the other, what they are named by; by induction on the
occurrences.
-/
theorem exists_occurrencesPass {occurrences : List Occurrence}
    (free : ∀ occurrence ∈ occurrences, occurrence.IsFree b) (once : Occurrence.Once occurrences)
    : ∃ b', OccurrencesPass occurrences b b' := by
  induction occurrences generalizing b with
  | nil => exact ⟨b, rfl⟩
  | cons occurrence occurrences ih =>
    obtain ⟨here, there⟩ := List.forall_mem_cons.mp free
    obtain ⟨again, onceThere⟩ := List.pairwise_cons.mp once
    rcases here with unbound | ⟨isBare, own⟩
    · have free' : ∀ other ∈ occurrences,
          other.IsFree (Fields.insert b occurrence.name occurrence.text) := by
        intro other member
        by_cases same : occurrence.name = other.name
        · obtain ⟨bare, bare'⟩ := again other member same
          refine .inr ⟨bare', ?_⟩
          simp [← same, Occurrence.text_of_isBare bare]
        · simpa [Occurrence.IsFree, Ne.symm same] using there other member
      obtain ⟨b', passed⟩ := ih free' onceThere
      exact ⟨b', _, match?_eq_some_iff.mpr ((outcome_var_of_unbound unbound).mpr rfl), passed⟩
    · obtain ⟨b', passed⟩ := ih there onceThere
      refine ⟨b', b, match?_eq_some_iff.mpr ?_, passed⟩
      rw [outcome_of_own (Occurrence.isVariable_of_isBare isBare) own, isBare]

/-- A variable is not bound, or bound to what an occurrence of it leaves for it. -/
def BoundByNaming (b : Bindings) (occurrence : Occurrence) : Prop :=
  ∀ v, b.get? occurrence.name = some v →
    ∃ other : Occurrence, other.name = occurrence.name ∧ v = other.text

/-- Where variables that are bound by naming, if at all, accept one after the other what is left for
them, all occurrences of those that are bound already or named again are bare; by induction on the
occurrences.
-/
theorem OccurrencesPass.once {occurrences : List Occurrence}
    (passed : OccurrencesPass occurrences b b')
    (naming : ∀ occurrence ∈ occurrences, BoundByNaming b occurrence)
    : (∀ occurrence ∈ occurrences, ∀ other : Occurrence, other.name = occurrence.name →
        b.get? occurrence.name = some other.text → other.isBare ∧ occurrence.isBare)
      ∧ Occurrence.Once occurrences := by
  induction occurrences generalizing b with
  | nil => exact ⟨nofun, .nil⟩
  | cons occurrence occurrences ih =>
    obtain ⟨c, accepts, rest⟩ := passed
    rw [match?_eq_some_iff] at accepts
    obtain ⟨namingHere, namingThere⟩ := List.forall_mem_cons.mp naming
    have bareHere (other : Occurrence) (same : other.name = occurrence.name)
        (bound : b.get? occurrence.name = some other.text) :=
      isBare_of_outcome same bound accepts
    cases bound : b.get? occurrence.name with
    | none =>
      rw [outcome_var_of_unbound bound, MatchResult.mk.injEq] at accepts
      obtain ⟨-, rfl⟩ := accepts
      have naming' : ∀ other ∈ occurrences,
          BoundByNaming (Fields.insert b occurrence.name occurrence.text) other := by
        intro other member v found
        by_cases same : occurrence.name = other.name
        · exact ⟨occurrence, same, by simpa [← same, eq_comm] using found⟩
        · exact namingThere other member v (by simpa [Ne.symm same] using found)
      obtain ⟨bare, onceThere⟩ := ih rest naming'
      refine ⟨List.forall_mem_cons.mpr ⟨bareHere, fun other member another same found => ?_⟩,
        List.pairwise_cons.mpr ⟨fun other member same => ?_, onceThere⟩⟩
      · have differ : other.name ≠ occurrence.name := fun same => by simp [same, bound] at found
        exact bare other member another same (by simpa [differ] using found)
      · exact bare other member occurrence same (by simp [same])
    | some v =>
      obtain ⟨first, same, rfl⟩ := namingHere v bound
      obtain ⟨isBare, isBare'⟩ := bareHere first same bound
      rw [Occurrence.text_of_isBare isBare, same] at bound
      rw [outcome_of_own (Occurrence.isVariable_of_isBare isBare') bound,
        MatchResult.mk.injEq] at accepts
      obtain ⟨-, rfl⟩ := accepts
      obtain ⟨bare, onceThere⟩ := ih rest namingThere
      refine ⟨List.forall_mem_cons.mpr ⟨bareHere, bare⟩,
        List.pairwise_cons.mpr ⟨fun other member same => ⟨isBare', ?_⟩, onceThere⟩⟩
      refine (bare other member occurrence same ?_).2
      rw [← same, bound, Occurrence.text_of_isBare isBare']

-- --------------------------------------------------------------------------------------
-- The same value again
-- --------------------------------------------------------------------------------------

section

variable {v w : Value} {x : String}

/-- A variable that is bound to a value accepts the same value if it reads as itself. -/
theorem exists_outcome_of_readsAsItself (same : v.same w) (bound : b.get? x = some v)
    (reads : v.ReadsAsItself b)
    : ∃ b', Outcome (var x) w b ⟨true, b'⟩ := by
  cases bare : Bindings.bareVariable? v with
  | none =>
    obtain ⟨b', passed⟩ := exists_occurrencesPass reads.free reads.once
    exact ⟨b', (outcome_var_of_bound bound bare).mpr
      ((readsBack v w same b b').mpr ⟨reads.unambiguous, passed⟩)⟩
  | some next =>
    obtain ⟨rfl, isVariable⟩ := Bindings.eq_string_of_bareVariable? bare
    have free : Occurrence.IsFree b (.bare next isVariable) :=
      reads.free _ (by simp [Value.occurrences, isVariable])
    rcases free with unbound | ⟨-, own⟩
    · exact ⟨_, (outcome_var_of_bare_unbound isVariable bound unbound).mpr rfl⟩
    · exact ⟨b, (outcome_var_of_bare_own isVariable bound own).mpr (by rw [same])⟩

/-- The bindings of a variable alone. -/
abbrev bindingOf (x : String) (v : Value) : Bindings := Fields.insert .empty x v

/-- A pair of a variable and itself binds it to the first value and then matches it again. -/
theorem outcome_pair_iff
    : Outcome (seq [var x, var x]) (.list [v, w]) .empty ⟨true, b'⟩
      ↔ Outcome (var x) w (bindingOf x v) ⟨true, b'⟩ := by
  have unbound : (Fields.empty : Bindings).get? x = none := rfl
  rw [outcome_seq_plain (by simp [isRest]) rfl, itemsOutcome_matched_iff, itemsPass_cons]
  simp [outcome_var_of_unbound unbound, itemsPass_cons, itemsPass_nil]

/-- Where a variable is bound to a value that does not name it, it accepts the same value only if
this reads as itself.
-/
theorem readsAsItself_of_outcome (same : v.same w) (apart : ∀ o ∈ v.occurrences, o.name ≠ x)
    (accepts : Outcome (var x) w (bindingOf x v) ⟨true, b'⟩)
    : v.ReadsAsItself (bindingOf x v) := by
  have bound : (bindingOf x v).get? x = some v := by simp
  have unbound : ∀ o ∈ v.occurrences, (bindingOf x v).get? o.name = none := by
    intro o member
    simp [apart o member, Fields.empty, Fields.get?]
  have free : ∀ o ∈ v.occurrences, Occurrence.IsFree (bindingOf x v) o :=
    fun o member => .inl (unbound o member)
  cases bare : Bindings.bareVariable? v with
  | none =>
    rw [outcome_var_of_bound bound bare, readsBack v w same] at accepts
    obtain ⟨unambiguous, passed⟩ := accepts
    obtain ⟨-, once⟩ := passed.once fun o member v found => by simp [unbound o member] at found
    exact ⟨unambiguous, free, once⟩
  | some next =>
    obtain ⟨rfl, isVariable⟩ := Bindings.eq_string_of_bareVariable? bare
    exact ⟨rfl, free, by simp [Value.occurrences, isVariable, Occurrence.Once]⟩

/-- The condition that asks for a fact of a kind and matches a variable against a field of it. -/
def sharing (kind key x : String) : Condition :=
  .pattern ⟨kind, record [(key, var x)], none, []⟩

/-- A fact is asked for by the field that the variable matches. -/
theorem sharing_metBy {f : Fact} {key : String} (found : f.fields.get? key = some v)
    (accepts : Outcome (var x) v b ⟨true, b'⟩)
    : PatternCondition.MetBy ⟨f.kind, record [(key, var x)], none, []⟩ f b b' := by
  refine ⟨rfl, ⟨b', ?_, .unnamed⟩, nofun⟩
  have fields : FieldsOutcome [(key, var x)] f.fields b ⟨true, b'⟩ :=
    .of_matched found accepts ((fieldsOutcome_nil _).mpr rfl)
  exact match?_eq_some_iff.mpr ((outcome_record rfl).mpr fields)

/-- A join on a shared variable finds every pair of facts with the same value if it reads as itself.
-/
theorem exists_mem_join_sharing {s : Store} (coherent : s.Coherent) {f g : Fact} {key key' : String}
    (stored : f ∈ s.facts) (stored' : g ∈ s.facts) (found : f.fields.get? key = some v)
    (found' : g.fields.get? key' = some w) (same : v.same w)
    (reads : v.ReadsAsItself (bindingOf x v))
    : ∃ m ∈ s.join [sharing f.kind key x, sharing g.kind key' x] .empty,
        m.consumed = [f.id, g.id] := by
  have first : Outcome (var x) v .empty ⟨true, bindingOf x v⟩ :=
    (outcome_var_of_unbound rfl).mpr rfl
  have bound : (bindingOf x v).get? x = some v := by simp
  obtain ⟨b', again⟩ := exists_outcome_of_readsAsItself same bound reads
  have meets : s.Meets [sharing f.kind key x, sharing g.kind key' x] .empty [f, g] b' :=
    .pattern stored (sharing_metBy found first)
      (.pattern stored' (sharing_metBy found' again) (.done b'))
  exact ⟨⟨b', _⟩, coherent.mem_join_iff.mpr ⟨_, meets, rfl⟩, rfl⟩

/-- A variable that is bound to a value accepts the same value if it reads as itself. More exactly,
unless the value is a variable, it does if and only if the value is unambiguous and the variables in
it accept, one after the other, what is left for each of them. So a repeated variable, or one that
a join shares, accepts the same value where it reads as itself; an engine comes to the end of such a
join if every match that is tried has an outcome. Where the value does not read as itself a match
with an outcome fails, unless the value names the variable.
-/
theorem repeated_accepts_same (same : v.same w) (x : String)
    : (∀ b, b.get? x = some v →
        (v.ReadsAsItself b → ∃ b', (var x).Matches w b b')
        ∧ (Bindings.bareVariable? v = none →
          ∀ b', (var x).Matches w b b' ↔ v.isUnambiguous ∧ OccurrencesPass v.occurrences b b'))
      ∧ (v.ReadsAsItself (bindingOf x v) →
        (∃ b', (seq [var x, var x]).Matches (.list [v, w]) .empty b' ∧ b'.get? x = some v)
        ∧ ∀ (s : Store) (f g : Fact) (key key' : String), s.Coherent → f ∈ s.facts → g ∈ s.facts →
          f.fields.get? key = some v → g.fields.get? key' = some w →
          ∃ m ∈ s.join [sharing f.kind key x, sharing g.kind key' x] .empty,
            m.consumed = [f.id, g.id]
            ∧ ∀ {ν : Type} (e : Engine ν) (definition : String), e.store = s →
              s.JoinReturns [sharing f.kind key x, sharing g.kind key' x] .empty →
              ∃ found, (Engine.matchesFor definition
                [sharing f.kind key x, sharing g.kind key' x] .empty none).Yields e found
                ∧ m ∈ found)
      ∧ ((∀ o ∈ v.occurrences, o.name ≠ x) → ¬v.ReadsAsItself (bindingOf x v) →
        ∀ r, (seq [var x, var x]).match? (.list [v, w]) .empty = some r → r.isMatch = false) := by
  refine ⟨fun b bound => ⟨fun reads => ?_, fun notBare b' => ?_⟩, fun reads => ⟨?_, ?_⟩, ?_⟩
  · obtain ⟨b', again⟩ := exists_outcome_of_readsAsItself same bound reads
    exact ⟨b', again.match?_eq⟩
  · rw [Matches, match?_eq_some_iff, outcome_var_of_bound bound notBare, readsBack v w same]
  · have bound : (bindingOf x v).get? x = some v := by simp
    obtain ⟨b', again⟩ := exists_outcome_of_readsAsItself same bound reads
    exact ⟨b', (outcome_pair_iff.mpr again).match?_eq,
      extends_of_match? again.match?_eq x v bound⟩
  · intro s f g key key' coherent stored stored' found found'
    obtain ⟨m, member, consumed⟩ :=
      exists_mem_join_sharing coherent stored stored' found found' same reads
    refine ⟨m, member, consumed, ?_⟩
    rintro ν e definition rfl returns
    exact ⟨_, Engine.yields_matchesFor coherent returns, member⟩
  · rintro apart misreads ⟨isMatch, b'⟩ outcome
    cases isMatch with
    | false => rfl
    | true =>
      have again := outcome_pair_iff.mp (match?_eq_some_iff.mp outcome)
      exact absurd (readsAsItself_of_outcome same apart again) misreads

end

end Pattern

namespace Sample

open Pattern

/-- Data that names a variable twice and another one as the rest of a list. -/
def template : Value :=
  .map (.ofList [("from", .string "?a"), ("path", .list [.string "...?p", .string "?a"])])

/-- A list that asks for two rests. -/
def ambiguous : Value := .list [.string "...?a", .string "...?b"]

/-- The template reads as itself. -/
theorem repeated_accepts_template
    : template.same template
        ∧ ∃ b', (seq [var "?x", var "?x"]).Matches (.list [template, template]) .empty b'
          ∧ b'.get? "?x" = some template := by
  have same : template.same template := by decide +kernel
  have named : template.occurrences
      = [.bare "?a" (by decide +kernel), .rest "...?p" (by decide +kernel),
        .bare "?a" (by decide +kernel)] := by
    rfl
  have path : Variable.ofName "...?p" = "?p" := by decide +kernel
  have reads : template.ReadsAsItself (bindingOf "?x" template) := by
    refine ⟨by decide +kernel, ?_, ?_⟩
    · simp [named, path, Occurrence.IsFree, Occurrence.name, Fields.empty, Fields.get?]
    · simp [named, path, Occurrence.Once, Occurrence.name, Occurrence.isBare]
  exact ⟨same, ((repeated_accepts_same same "?x").2.1 reads).1⟩

/-- A list with two rests is not accepted by a variable that is bound to it. -/
theorem repeated_rejects_ambiguous
    : ((seq [var "?x", var "?x"]).match? (.list [ambiguous, ambiguous]) .empty).map (·.isMatch)
      = some false := by
  decide +kernel

end Sample

end RuleEngine
