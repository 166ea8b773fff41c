import RuleEngine.Proofs.Pattern.Growth
import RuleEngine.Proofs.Pattern.Plain

/-! Matching of plain data is hygienic and stable. A match binds nothing but variables of its
pattern, and all of them if it succeeds; from what it leaves bound the same match succeeds again
and binds nothing more, whatever plain bindings are added in the meantime.
-/

namespace RuleEngine

namespace Pattern

-- --------------------------------------------------------------------------------------
-- Steps of a match
-- --------------------------------------------------------------------------------------

/-- A step of a match, by the depth to which it may go and the bindings that it begins with. -/
abbrev Step := Nat → Bindings → Option MatchResult

/-- What a step with some variables comes to from plain bindings. It keeps what is bound and adds
plain values of those variables, if it succeeds of all of them. If it succeeds, then from any plain
bindings that extend what it leaves it comes to these bindings, within whatever depth it has an
outcome.
-/
structure Settles (step : Step) (names : List String) (b : Bindings) (r : MatchResult)
    : Prop where
  kept : r.bindings.Extends b
  plain : r.bindings.All Value.IsPlain
  added : ∀ name, r.bindings.contains name = true → b.contains name = true ∨ name ∈ names
  bound : r.isMatch = true → ∀ name ∈ names, r.bindings.contains name = true
  again : r.isMatch = true → ∀ b', b'.Extends r.bindings → b'.All Value.IsPlain →
    ∀ depth r', step depth b' = some r' → r' = ⟨true, b'⟩

/-- All that a step comes to within a depth settles. -/
def Settling (depth : Nat) (step : Step) (names : List String) : Prop :=
  ∀ b r, b.All Value.IsPlain → step depth b = some r → Settles step names b r

section

variable {depth : Nat} {step next : Step} {names more : List String}

/-- A step that binds nothing has no variables, unless it fails. -/
theorem settling_unchanged (isMatch : Bool) (none : isMatch = true → names = [])
    : Settling depth (fun _ b => some ⟨isMatch, b⟩) names := by
  intro b r plain outcome
  obtain rfl := Option.some.inj outcome
  refine ⟨.refl b, plain, fun _ bound => .inl bound, ?_, ?_⟩
  · intro matched name member
    rw [none matched] at member
    cases member
  · intro matched b' _ _ _ r' outcome'
    rw [← Option.some.inj outcome', show isMatch = true from matched]

/-- A step that fails at once settles whatever its variables are. -/
theorem settling_failed : Settling depth (fun _ b => some ⟨false, b⟩) names :=
  settling_unchanged false fun matched => by cases matched

theorem Settling.congr (same : ∀ d b, next d b = step d b)
    (settling : Settling depth step names)
    : Settling depth next names := by
  obtain rfl : next = step := funext fun d => funext (same d)
  exact settling

/-- A step one level down. -/
theorem Settling.deepen (zero : ∀ b, next 0 b = none) (succ : ∀ d b, next (d + 1) b = step d b)
    (settling : Settling depth step names)
    : Settling (depth + 1) next names := by
  intro b r plain outcome
  rw [succ] at outcome
  have settles := settling b r plain outcome
  refine ⟨settles.kept, settles.plain, settles.added, settles.bound, ?_⟩
  intro matched b' extending plain' d r' outcome'
  cases d with
  | zero => cases (zero b').symm.trans outcome'
  | succ d => exact settles.again matched b' extending plain' d r' (succ d b' ▸ outcome')

/-- Two steps one after the other have the variables of both. -/
theorem Settling.andThen (first : Settling depth step names) (rest : Settling depth next more)
    : Settling depth (fun d b => (step d b).bind (·.andThen (next d))) (names ++ more) := by
  intro b r plain outcome
  obtain ⟨⟨isMatch, b₁⟩, found, later⟩ := Option.bind_eq_some_iff.mp outcome
  have settles := first b _ plain found
  cases isMatch with
  | false =>
    obtain rfl := Option.some.inj later
    refine ⟨settles.kept, settles.plain, fun name bound => ?_, nofun, nofun⟩
    exact (settles.added name bound).imp_right (List.mem_append_left _)
  | true =>
    have settles' := rest b₁ r settles.plain later
    refine ⟨settles'.kept.trans settles.kept, settles'.plain, ?_, ?_, ?_⟩
    · intro name bound
      rcases settles'.added name bound with before | among
      · exact (settles.added name before).imp_right (List.mem_append_left _)
      · exact .inr (List.mem_append_right _ among)
    · intro matched name member
      rcases List.mem_append.mp member with among | among
      · exact settles'.kept.contains (settles.bound rfl name among)
      · exact settles'.bound matched name among
    · intro matched b' extending plain' d r' outcome'
      obtain ⟨r₁, found', later'⟩ := Option.bind_eq_some_iff.mp outcome'
      obtain rfl := settles.again rfl b' (extending.trans settles'.kept) plain' d r₁ found'
      exact settles'.again matched b' extending plain' d r' later'

end

-- --------------------------------------------------------------------------------------
-- Parts of a match
-- --------------------------------------------------------------------------------------

/-- Plain values settle with every pattern within a depth. -/
def SettlesWithin (depth : Nat) : Prop :=
  ∀ (p : Pattern) (v : Value), v.IsPlain →
    Settling depth (fun d => matchWithin d p v) p.varNames

namespace SettlesWithin

variable {depth : Nat}

/-- By induction on the items, each of which has a value. -/
theorem items (settles : SettlesWithin depth) {items : List Pattern} {vs : List Value}
    (plain : ∀ v ∈ vs, v.IsPlain) (enough : items.length ≤ vs.length)
    : Settling depth (fun d => matchItems (matchWithin d) items vs) (varNamesItems items) := by
  induction items generalizing vs with
  | nil =>
    simp only [matchItems]
    exact settling_unchanged true fun _ => rfl
  | cons item items ih =>
    cases vs with
    | nil => cases enough
    | cons v vs =>
      have first := settles item v (plain v List.mem_cons_self)
      have others := ih (fun w member => plain w (List.mem_cons_of_mem _ member))
        (Nat.le_of_succ_le_succ enough)
      exact first.andThen others

/-- By induction on the fields. -/
theorem fields (settles : SettlesWithin depth) {fields : List (String × Pattern)}
    {record : Record} (plain : ∀ name v, record.get? name = some v → v.IsPlain)
    : Settling depth (fun d => matchFields (matchWithin d) fields record)
        (varNamesFields fields) := by
  induction fields with
  | nil => exact settling_unchanged true fun _ => rfl
  | cons field fields ih =>
    obtain ⟨name, p⟩ := field
    cases found : record.get? name with
    | none =>
      simp only [matchFields, found]
      exact settling_failed
    | some v =>
      simp only [matchFields, found]
      exact (settles p v (plain name v found)).andThen ih

/-- A variable that is not bound is bound to the value, which matches itself from then on. What a
bound one is bound to has no variables of its own.
-/
theorem var (settles : SettlesWithin depth) (name : String) {v : Value} (plain : v.IsPlain)
    : Settling depth (fun d => matchVar (matchWithin d) name v) [name] := by
  intro b r plainBindings outcome
  -- Later on the variable is bound, so what it is bound to is matched.
  have later {b' : Bindings} {w : Value} (plain' : b'.All Value.IsPlain)
      (bound : b'.get? name = some w) (d : Nat)
      : matchVar (matchWithin d) name v b' = matchWithin d (ofValue w) v b' := by
    simp [matchVar, plain'.chainEnd? name, bound]
  cases bound : b.get? name with
  | none =>
    simp only [matchVar, plainBindings.chainEnd? name, bound, Option.bind_some] at outcome
    obtain rfl := Option.some.inj outcome
    have here : Fields.get? (Fields.insert b name v) name = some v := by simp
    refine ⟨.insert bound v, plainBindings.insert name plain, ?_, ?_, ?_⟩
    · intro other bound'
      by_cases same : other = name
      · exact .inr (List.mem_singleton.mpr same)
      · exact .inl (by simpa [Fields.contains, same] using bound')
    · intro _ other member
      obtain rfl := List.mem_singleton.mp member
      simp [Fields.contains]
    · intro _ b' extending plain' d r' outcome'
      have bound' := extending name v here
      exact matchWithin_ofValue_self plain ((later plain' bound' d).symm.trans outcome')
  | some w =>
    have settles' := settles (ofValue w) v plain b r plainBindings
      ((later plainBindings bound depth).symm.trans outcome)
    have none := varNames_ofValue (plainBindings name w bound)
    refine ⟨settles'.kept, settles'.plain, ?_, ?_, ?_⟩
    · intro other bound'
      rcases settles'.added other bound' with before | among
      · exact .inl before
      · rw [none] at among
        cases among
    · intro _ other member
      obtain rfl := List.mem_singleton.mp member
      exact settles'.kept.contains (by simp [Fields.contains, bound])
    · intro matched b' extending plain' d r' outcome'
      have bound' := extending name w (settles'.kept name w bound)
      exact settles'.again matched b' extending plain' d r'
        ((later plain' bound' d).symm.trans outcome')

/-- The head of a list, its rest and its tail settle one after the other. -/
theorem sequence (settles : SettlesWithin depth) (items : List Pattern) {vs : List Value}
    (plain : (Value.list vs).IsPlain)
    : Settling depth (fun d => matchSequence (matchWithin d) items vs) (varNamesItems items) := by
  have hereditary := Value.hereditary_isPlain
  have each : ∀ v ∈ vs, v.IsPlain := fun v => hereditary.item plain
  cases parts : Pattern.sequence items with
  | ambiguous =>
    exact settling_failed.congr fun d b => by simp only [matchSequence, parts]
  | plain same =>
    obtain rfl := (eq_of_sequence_plain parts).symm
    by_cases fits : vs.length = items.length
    · refine (settles.items each (Nat.le_of_eq fits.symm)).congr fun d b => ?_
      simp only [matchSequence, parts, if_pos fits]
    · refine settling_failed.congr fun d b => ?_
      simp only [matchSequence, parts, if_neg fits]
  | split head name tail =>
    by_cases fits : vs.length < head.length + tail.length
    · refine settling_failed.congr fun d b => ?_
      simp only [matchSequence, parts, if_pos fits]
    · have middlePlain : (middleOf vs head tail).IsPlain := hereditary.slice plain
      have tailPlain : ∀ v ∈ vs.drop (vs.length - tail.length), v.IsPlain := fun v member =>
        each v (List.mem_of_mem_drop member)
      have first := settles.items each (Nat.le_trans (Nat.le_add_right _ _) (Nat.not_lt.mp fits))
      have middle := settles.var name middlePlain
      have enough : tail.length ≤ (vs.drop (vs.length - tail.length)).length := by
        rw [List.length_drop]
        omega
      have last := settles.items tailPlain enough
      have names : varNamesItems items
          = varNamesItems head ++ ([name] ++ varNamesItems tail) := by
        simp [eq_of_sequence_split parts, varNamesItems_eq_flatMap, varNames]
      rw [names]
      refine (first.andThen (middle.andThen last)).congr fun d b => ?_
      simp only [matchSequence, parts, if_neg fits]

end SettlesWithin

/-- Plain values settle with every pattern, by induction on the depth. -/
theorem settlesWithin (depth : Nat) : SettlesWithin depth := by
  induction depth with
  | zero =>
    intro p v _ b r _ outcome
    cases outcome
  | succ depth ih =>
    intro p v plain
    cases p with
    | wildcard =>
      exact (settling_unchanged true fun _ => rfl).deepen (fun _ => rfl) fun _ _ => rfl
    | test accepts =>
      exact (settling_unchanged (accepts v) fun _ => rfl).deepen (fun _ => rfl) fun _ _ => rfl
    | exact expected =>
      exact (settling_unchanged (expected.same v) fun _ => rfl).deepen (fun _ => rfl)
        fun _ _ => rfl
    | rest name =>
      exact settling_failed.deepen (fun _ => rfl) fun _ _ => rfl
    | var name => exact (ih.var name plain).deepen (fun _ => rfl) fun _ _ => rfl
    | seq items =>
      cases v with
      | list vs => exact (ih.sequence items plain).deepen (fun _ => rfl) fun _ _ => rfl
      | _ => exact settling_failed.deepen (fun _ => rfl) fun _ _ => rfl
    | record fields =>
      cases isRecord : v.record? with
      | none =>
        refine settling_failed.deepen (fun _ => rfl) fun d b => ?_
        simp [matchWithin, isRecord]
      | some record =>
        have each (name : String) (w : Value) (found : record.get? name = some w) : w.IsPlain :=
          Value.hereditary_isPlain.field plain isRecord found
        refine (ih.fields each).deepen (fun _ => rfl) fun d b => ?_
        simp [matchWithin, isRecord]

-- --------------------------------------------------------------------------------------
-- Matches of plain data
-- --------------------------------------------------------------------------------------

/-- Plain data asks for no rests, so every match of it has an outcome. -/
theorem exists_match?_of_plain (p : Pattern) {v : Value} {b : Bindings} (plain : v.IsPlain)
    (plainBindings : b.All Value.IsPlain)
    : ∃ r, p.match? v b = some r := by
  refine Option.isSome_iff_exists.mp (match?_isSome_of_no_rests (fun s among => ?_) p)
  rcases List.mem_append.mp among with here | there
  · exact (plain s here).isRest
  · exact (plainBindings.plainTexts s there).isRest

/-- Matching of plain data is hygienic and stable. A match has an outcome. It keeps what was bound
and adds plain values of variables of the pattern; if it succeeds, all of them are bound, and from
what it leaves bound or any plain extension of it the match succeeds again and changes nothing.
-/
theorem match?_hygienic (p : Pattern) {v : Value} {b : Bindings} (plain : v.IsPlain)
    (plainBindings : b.All Value.IsPlain)
    : ∃ r, p.match? v b = some r
        ∧ r.bindings.Extends b
        ∧ r.bindings.All Value.IsPlain
        ∧ (∀ name, r.bindings.contains name = true →
            b.contains name = true ∨ name ∈ p.varNames)
        ∧ (r.isMatch = true →
            (∀ name, r.bindings.contains name = true
              ↔ b.contains name = true ∨ name ∈ p.varNames)
            ∧ ∀ b', b'.Extends r.bindings → b'.All Value.IsPlain →
                p.match? v b' = some ⟨true, b'⟩) := by
  obtain ⟨r, outcome⟩ := exists_match?_of_plain p plain plainBindings
  have settles := settlesWithin _ p v plain b r plainBindings outcome
  refine ⟨r, outcome, settles.kept, settles.plain, settles.added, fun matched => ⟨?_, ?_⟩⟩
  · intro name
    refine ⟨settles.added name, ?_⟩
    rintro (before | among)
    · exact settles.kept.contains before
    · exact settles.bound matched name among
  · intro b' extending plain'
    obtain ⟨r', outcome'⟩ := exists_match?_of_plain p plain plain'
    rw [outcome', settles.again matched b' extending plain' _ r' outcome']

end Pattern

namespace Sample

open Pattern

/-- A list that begins and ends with the same item. -/
def bracketed : Pattern := seq [varNamed "end", restNamed "middle", varNamed "end"]

def bracket : Value := .list [.string "a", .string "b", .string "c", .string "a"]

/-- Bindings of the item at the end. -/
def ends : Bindings := Fields.insert .empty "?end" (.string "a")

/-- The rest of the list is bound besides, and with one more binding the list matches again. -/
theorem bracketed_hygienic
    : ∃ r, bracketed.match? bracket ends = some r
        ∧ r.isMatch = true
        ∧ (∀ name, r.bindings.contains name = true ↔ name = "?end" ∨ name = "?middle")
        ∧ bracketed.match? bracket (r.bindings.insert "?more" (.string "d"))
          = some ⟨true, r.bindings.insert "?more" (.string "d")⟩ := by
  have plain : bracket.IsPlain := by decide +kernel
  have plainEnds : ends.All Value.IsPlain := Bindings.All.insert nofun "?end" (by decide +kernel)
  obtain ⟨r, outcome, -, plainFound, -, success⟩ := match?_hygienic bracketed plain plainEnds
  have matched : r.isMatch = true := by
    have found : (bracketed.match? bracket ends).map (·.isMatch) = some true := by decide +kernel
    simpa [outcome] using found
  obtain ⟨bound, again⟩ := success matched
  have occurring : bracketed.varNames = ["?end", "?middle", "?end"] := by decide +kernel
  have names (name : String)
      : r.bindings.contains name = true ↔ name = "?end" ∨ name = "?middle" := by
    rw [bound, occurring]
    by_cases same : name = "?end" <;> simp [Fields.contains, ends, same]
  have unbound : r.bindings.get? "?more" = none := by
    have absent : ¬r.bindings.contains "?more" = true := by simp [names]
    simpa [Fields.contains] using absent
  exact ⟨r, outcome, matched, names,
    again _ (.insert unbound _) (plainFound.insert "?more" (by decide +kernel))⟩

end Sample

end RuleEngine
