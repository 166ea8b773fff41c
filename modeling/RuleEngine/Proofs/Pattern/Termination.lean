import RuleEngine.Proofs.Pattern.Circles

/-! Termination of matches. A match that does not run in circles has an outcome within a depth that
the nodes of the value and the texts in the data bound, and matching goes that deep.
-/

namespace RuleEngine

namespace Pattern

/-- A depth suffices for the matches of values with up to some number of nodes that do not run in
circles, as long as the texts in the data are among given ones.
-/
def Suffices (S : List String) (depth nodes : Nat) : Prop :=
  ∀ p v b, v.nodes ≤ nodes → v.texts ⊆ S → b.All (·.texts ⊆ S) → ¬Circles p v b →
    ∃ r, matchWithin depth p v b = some r

variable {S : List String} {depth nodes : Nat}

-- --------------------------------------------------------------------------------------
-- Parts of a value
-- --------------------------------------------------------------------------------------

/-- A depth that suffices for each item suffices for all, by induction on the items. -/
theorem Suffices.items (enough : Suffices S depth nodes) {items : List Pattern} {vs : List Value}
    {b : Bindings} (small : ∀ v ∈ vs, v.nodes ≤ nodes) (within : ∀ v ∈ vs, v.texts ⊆ S)
    (texts : b.All (·.texts ⊆ S))
    (straight : ∀ p v b', ItemReached items vs b p v b' → ¬Circles p v b')
    : ∃ r, matchItems (matchWithin depth) items vs b = some r := by
  induction items generalizing vs b with
  | nil => exact ⟨⟨true, b⟩, by simp [matchItems]⟩
  | cons item items ih =>
    cases vs with
    | nil => exact ⟨⟨true, b⟩, by simp [matchItems]⟩
    | cons v vs =>
      have here := List.mem_cons_self (a := v) (l := vs)
      obtain ⟨⟨isMatch, b'⟩, first⟩ := enough item v b (small v here) (within v here) texts
        (straight item v b .here)
      have kept : b'.All (·.texts ⊆ S) :=
        Outcome.bindsParts ⟨depth, first⟩ (Value.hereditary_texts S) (within v here) texts
      cases isMatch with
      | false => exact ⟨⟨false, b'⟩, by simp [matchItems, first]⟩
      | true =>
        obtain ⟨r, rest⟩ := ih (fun w member => small w (List.mem_cons_of_mem _ member))
          (fun w member => within w (List.mem_cons_of_mem _ member)) kept
          (fun p w b'' reached => straight p w b'' (.later ⟨depth, first⟩ reached))
        exact ⟨r, by simp [matchItems, first, rest]⟩

/-- A depth that suffices for each field suffices for all, by induction on the fields. -/
theorem Suffices.fields (enough : Suffices S depth nodes) {fields : List (String × Pattern)}
    {record : Record} {b : Bindings}
    (small : ∀ name v, record.get? name = some v → v.nodes ≤ nodes)
    (within : ∀ name v, record.get? name = some v → v.texts ⊆ S) (texts : b.All (·.texts ⊆ S))
    (straight : ∀ p v b', FieldReached fields record b p v b' → ¬Circles p v b')
    : ∃ r, matchFields (matchWithin depth) fields record b = some r := by
  induction fields generalizing b with
  | nil => exact ⟨⟨true, b⟩, rfl⟩
  | cons field fields ih =>
    obtain ⟨name, p⟩ := field
    cases found : record.get? name with
    | none => exact ⟨⟨false, b⟩, by simp [matchFields, found]⟩
    | some v =>
      obtain ⟨⟨isMatch, b'⟩, first⟩ := enough p v b (small name v found) (within name v found)
        texts (straight p v b (.here found))
      have kept : b'.All (·.texts ⊆ S) :=
        Outcome.bindsParts ⟨depth, first⟩ (Value.hereditary_texts S) (within name v found) texts
      cases isMatch with
      | false => exact ⟨⟨false, b'⟩, by simp [matchFields, found, first]⟩
      | true =>
        obtain ⟨r, rest⟩ := ih kept
          (fun q w b'' reached => straight q w b'' (.later found ⟨depth, first⟩ reached))
        exact ⟨r, by simp [matchFields, found, first, rest]⟩

/-- A rest stands between what comes before it and what comes after it. -/
theorem eq_of_sequence_split {items head tail : List Pattern} {name : String}
    (parts : sequence items = .split head name tail)
    : items = head ++ rest name :: tail := by
  unfold sequence at parts
  split at parts
  · rename_i found last begins
    split at parts
    · cases parts
    · obtain ⟨rfl, rfl, rfl⟩ := Sequence.split.inj parts
      rw [← begins]
      exact (List.takeWhile_append_dropWhile ..).symm
  · cases parts

theorem eq_of_sequence_plain {items plain : List Pattern} (parts : sequence items = .plain plain)
    : plain = items := by
  unfold sequence at parts
  split at parts
  · split at parts <;> cases parts
  · exact (Sequence.plain.inj parts).symm

/-- The middle of a list is smaller than the list unless a pattern asks for the rest alone. -/
theorem nodes_middleOf_lt {items head tail : List Pattern} {name : String} {vs : List Value}
    (parts : sequence items = .split head name tail)
    (fits : ¬vs.length < head.length + tail.length) (notSole : (seq items).soleRest? = none)
    : (middleOf vs head tail).nodes < (Value.list vs).nodes := by
  have taken : 0 < head.length + tail.length := by
    rcases Nat.eq_zero_or_pos (head.length + tail.length) with nothing | something
    · obtain ⟨noHead, noTail⟩ := Nat.add_eq_zero_iff.mp nothing
      rw [eq_of_sequence_split parts, List.length_eq_zero_iff.mp noHead,
        List.length_eq_zero_iff.mp noTail] at notSole
      cases notSole
    · exact something
  have below := Value.nodes_slice vs head.length (vs.length - tail.length)
  have length : (Value.slice vs head.length (vs.length - tail.length)).length
      = vs.length - tail.length - head.length := by
    simp [Value.slice]
  rw [length] at below
  unfold middleOf
  omega

/-- A depth that suffices for the items of a list and for a middle that is smaller than the list
suffices for the list.
-/
theorem Suffices.list (enough : Suffices S depth nodes) {items : List Pattern} {vs : List Value}
    {b : Bindings} (small : (Value.list vs).nodes ≤ nodes + 1) (within : (Value.list vs).texts ⊆ S)
    (texts : b.All (·.texts ⊆ S)) (straight : ¬Circles (seq items) (.list vs) b)
    (notSole : (seq items).soleRest? = none)
    : ∃ r, matchSequence (matchWithin depth) items vs b = some r := by
  have hereditary := Value.hereditary_texts S
  have each : ∀ w ∈ vs, w.nodes ≤ nodes := fun w member => by
    have fewer := Value.nodes_lt_of_mem member
    omega
  have inside : ∀ w ∈ vs, w.texts ⊆ S := fun w => hereditary.item within
  unfold matchSequence
  cases parts : sequence items with
  | ambiguous => exact ⟨_, rfl⟩
  | plain plain =>
    by_cases fits : vs.length = plain.length
    · simp only [if_pos fits]
      exact enough.items each inside texts fun q w b' reached circles =>
        straight (.within (.item parts fits reached) circles)
    · exact ⟨_, by simp only [if_neg fits]; rfl⟩
  | split head name tail =>
    by_cases fits : vs.length < head.length + tail.length
    · exact ⟨_, by simp only [if_pos fits]; rfl⟩
    · simp only [if_neg fits]
      obtain ⟨⟨isMatch, b'⟩, first⟩ := enough.items each inside texts
        fun q w b' reached circles => straight (.within (.head parts fits reached) circles)
      cases isMatch with
      | false => exact ⟨⟨false, b'⟩, by simp [first]⟩
      | true =>
        have passed : ItemsPass head vs b b' := ⟨depth, first⟩
        have texts' : b'.All (·.texts ⊆ S) := matchItems_keeps
          (matchWithin_bindsParts hereditary depth) inside texts first
        have middleWithin : (middleOf vs head tail).texts ⊆ S := hereditary.slice within
        have fewer := nodes_middleOf_lt parts fits notSole
        obtain ⟨⟨isMatch, b''⟩, found⟩ := enough (var name) (middleOf vs head tail) b' (by omega)
          middleWithin texts' fun circles => straight (.within (.middle parts fits passed) circles)
        have second := matchWithin_refines_succ depth _ _ _ _ found
        rw [matchWithin] at second
        cases isMatch with
        | false => exact ⟨⟨false, b''⟩, by simp [first, second]⟩
        | true =>
          have texts'' : b''.All (·.texts ⊆ S) :=
            Outcome.bindsParts ⟨depth, found⟩ hereditary middleWithin texts'
          obtain ⟨r, last⟩ := enough.items (fun w member => each w (List.mem_of_mem_drop member))
            (fun w member => inside w (List.mem_of_mem_drop member)) texts''
            fun q w c reached circles =>
              straight (.within (.tail parts fits passed ⟨depth, found⟩ reached) circles)
          exact ⟨r, by simp [first, second, last]⟩

/-- One level more suffices for values with one node more, unless the pattern is a variable or
asks for a rest alone: only parts of the value are matched on the way.
-/
theorem Suffices.descend (enough : Suffices S depth nodes) {p : Pattern} {v : Value} {b : Bindings}
    (small : v.nodes ≤ nodes + 1) (within : v.texts ⊆ S) (texts : b.All (·.texts ⊆ S))
    (straight : ¬Circles p v b) (notVar : ∀ name, p ≠ var name) (notSole : p.soleRest? = none)
    : ∃ r, matchWithin (depth + 1) p v b = some r := by
  cases p with
  | wildcard | test | rest | exact => exact ⟨_, rfl⟩
  | var name => exact absurd rfl (notVar name)
  | record fields =>
    rw [matchWithin]
    cases isRecord : v.record? with
    | none => exact ⟨_, rfl⟩
    | some record =>
      refine enough.fields (fun name w found => ?_)
        (fun name w => (Value.hereditary_texts S).field within isRecord) texts
        fun q w b' reached circles => straight (.within (.field isRecord reached) circles)
      have fewer := Value.nodes_lt_of_field isRecord found
      omega
  | seq items =>
    cases v with
    | list vs => exact enough.list small within texts straight notSole
    | _ => exact ⟨_, rfl⟩

-- --------------------------------------------------------------------------------------
-- Rests of the same value
-- --------------------------------------------------------------------------------------

theorem ofValue_ne_var {v : Value} (notBare : Bindings.bareVariable? v = none) (name : String)
    : ofValue v ≠ var name := by
  intro same
  cases v with
  | string s =>
    simp only [ofValue, ofText] at same
    split at same
    · cases same
    · split at same
      · rename_i isVariable
        simp [Bindings.bareVariable?, isVariable] at notBare
      · cases same
  | undefined | null | bool | number | date | list | map | fact => cases same

/-- A list pattern that asks for a rest alone comes to the variable of the rest and the same list.
-/
theorem Subgoal.soleRest (name : String) (vs : List Value) (b : Bindings)
    : Subgoal (seq [rest name]) (.list vs) b (var name) (.list vs) b := by
  have passed : ItemsPass [] vs b b := ⟨0, by simp [matchItems]⟩
  have whole : Value.slice vs 0 vs.length = vs := by simp [Value.slice]
  have parts : sequence [rest name] = .split [] name [] := rfl
  have middle := Subgoal.middle parts (Nat.not_lt_zero _) passed
  simpa [middleOf, whole] using middle

/-- Where rests stop leading on, each of them takes one level, and the last is left for a smaller
value; by induction on the steps.
-/
theorem Suffices.stops (enough : Suffices S depth nodes) {name : String} {n : Nat} {vs : List Value}
    {b : Bindings} (stops : b.Stops name n) (small : (Value.list vs).nodes ≤ nodes + 1)
    (within : (Value.list vs).texts ⊆ S) (texts : b.All (·.texts ⊆ S))
    (straight : ¬Circles (var name) (.list vs) b)
    : ∃ r, matchVar (matchWithin (depth + 1 + n)) name (.list vs) b = some r := by
  induction stops with
  | @here name last =>
    obtain ⟨chainEnd, ends⟩ := Option.isSome_iff_exists.mp (b.chainEnd?_isSome name)
    cases chainEnd with
    | unbound other => exact ⟨_, by rw [matchVar, ends]; rfl⟩
    | cycle bound => exact ⟨_, by rw [matchVar, ends]; rfl⟩
    | value bound =>
      obtain ⟨key, -, notBare⟩ := Bindings.exists_bound_of_chainEnd?_value ends
      have notSole : (ofValue bound).soleRest? = none := by
        simpa [Bindings.nextRest?, ends] using last
      obtain ⟨r, outcome⟩ := enough.descend small within texts
        (fun circles => straight (.within (.bound ends) circles)) (ofValue_ne_var notBare) notSole
      exact ⟨r, by simpa [matchVar, ends] using outcome⟩
  | @onward name next n leads _ ih =>
    unfold Bindings.nextRest? at leads
    split at leads
    · rename_i bound ends
      have sole := eq_of_soleRest? leads
      have subgoal : Subgoal (var name) (.list vs) b (seq [rest next]) (.list vs) b :=
        sole ▸ .bound ends
      obtain ⟨r, outcome⟩ := ih fun circles =>
        straight (.within subgoal (.within (.soleRest next vs b) circles))
      refine ⟨r, ?_⟩
      rw [matchVar, ends]
      simp only [Option.bind_some, sole]
      rw [← Nat.add_assoc, matchWithin]
      simpa [Value.list?, matchSequence_soleRest] using outcome
    · cases leads

/-- A level for each text suffices for the rests of a list, unless they lead on and on. -/
theorem Suffices.rests (enough : Suffices S depth nodes) {name : String} {vs : List Value}
    {b : Bindings} (small : (Value.list vs).nodes ≤ nodes + 1)
    (within : (Value.list vs).texts ⊆ S) (texts : b.All (·.texts ⊆ S))
    (straight : ¬Circles (var name) (.list vs) b)
    : ∃ r, matchVar (matchWithin (depth + 1 + S.length)) name (.list vs) b = some r := by
  by_cases endless : b.Endless name
  · exact absurd (.endless endless) straight
  · obtain ⟨n, stops⟩ := Classical.not_forall_not.mp endless
    obtain ⟨r, outcome⟩ := enough.stops stops small within texts straight
    have below := Nat.add_le_add_left (stops.le_length texts) (depth + 1)
    exact ⟨r, matchVar_mono (matchWithin_refines below) outcome⟩

-- --------------------------------------------------------------------------------------
-- All matches
-- --------------------------------------------------------------------------------------

/-- A value with one node more takes a level for the variable that it is matched with, one for each
text, and one to get to its parts.
-/
theorem Suffices.step (enough : Suffices S depth nodes)
    : Suffices S (depth + 1 + S.length + 1) (nodes + 1) := by
  intro p v b small within texts straight
  have deeper {q : Pattern} {c : Bindings} {d : Nat} (le : depth + 1 ≤ d) {r : MatchResult}
      (outcome : matchWithin (depth + 1) q v c = some r) : matchWithin d q v c = some r :=
    matchWithin_refines le q v c r outcome
  -- A rest alone is left to the lemma above, and any other pattern but a variable descends.
  have others (q : Pattern) (notVar : ∀ name, q ≠ var name) (straight : ¬Circles q v b)
      (apart : q.soleRest? = none ∨ v.list? = none)
      : ∃ r, matchWithin (depth + 1) q v b = some r := by
    cases sole : q.soleRest? with
    | none => exact enough.descend small within texts straight notVar sole
    | some name =>
      have notList : v.list? = none := by simpa [sole] using apart
      exact ⟨⟨false, b⟩, by simp [eq_of_soleRest? sole, matchWithin, notList]⟩
  cases list : v.list? with
  | none =>
    by_cases isVar : ∃ name, p = var name
    · obtain ⟨name, rfl⟩ := isVar
      obtain ⟨chainEnd, ends⟩ := Option.isSome_iff_exists.mp (b.chainEnd?_isSome name)
      cases chainEnd with
      | unbound other => exact ⟨_, by rw [matchWithin, matchVar, ends]; rfl⟩
      | cycle bound => exact ⟨_, by rw [matchWithin, matchVar, ends]; rfl⟩
      | value bound =>
        obtain ⟨key, -, notBare⟩ := Bindings.exists_bound_of_chainEnd?_value ends
        obtain ⟨r, outcome⟩ := others (ofValue bound) (ofValue_ne_var notBare)
          (fun circles => straight (.within (.bound ends) circles)) (.inr list)
        refine ⟨r, ?_⟩
        rw [matchWithin, matchVar, ends]
        exact deeper (Nat.le_add_right ..) outcome
    · obtain ⟨r, outcome⟩ := others p (fun name same => isVar ⟨name, same⟩) straight (.inr list)
      exact ⟨r, deeper (by omega) outcome⟩
  | some vs =>
    obtain rfl := Value.list?_eq_some_iff.mp list
    by_cases isVar : ∃ name, p = var name
    · obtain ⟨name, rfl⟩ := isVar
      obtain ⟨r, outcome⟩ := enough.rests small within texts straight
      exact ⟨r, by rw [matchWithin]; exact outcome⟩
    · cases sole : p.soleRest? with
      | some name =>
        obtain rfl := eq_of_soleRest? sole
        obtain ⟨r, outcome⟩ := enough.rests small within texts fun circles =>
          straight (.within (.soleRest name vs b) circles)
        exact ⟨r, by simpa [matchWithin, Value.list?, matchSequence_soleRest] using outcome⟩
      | none =>
        obtain ⟨r, outcome⟩ := others p (fun name same => isVar ⟨name, same⟩) straight (.inl sole)
        exact ⟨r, deeper (by omega) outcome⟩

/-- By induction on the nodes; there is no value without a node. -/
theorem suffices_mul (S : List String) (nodes : Nat)
    : Suffices S (nodes * (S.length + 2)) nodes := by
  induction nodes with
  | zero =>
    intro p v b small
    have positive := v.nodes_pos
    omega
  | succ nodes ih =>
    have level : (nodes + 1) * (S.length + 2) = nodes * (S.length + 2) + 1 + S.length + 1 := by
      rw [Nat.succ_mul]
      omega
    rw [level]
    exact ih.step

/-- A match that does not run in circles has an outcome within the depth that matching goes to. -/
theorem match?_isSome_of_not_circles {p : Pattern} {v : Value} {b : Bindings}
    (straight : ¬Circles p v b)
    : (p.match? v b).isSome := by
  have bound := Bindings.all_texts b (List.subset_append_right v.texts (Value.textsFields b))
  obtain ⟨r, outcome⟩ := suffices_mul (v.texts ++ Value.textsFields b) v.nodes p v b (Nat.le_refl _)
    (List.subset_append_left _ _) bound straight
  have ofValue := v.length_texts
  have ofBindings := Value.length_textsFields b
  have le : v.nodes * ((v.texts ++ Value.textsFields b).length + 2) ≤ sufficientDepth p v b := by
    refine Nat.mul_le_mul (Nat.le_succ _) ?_
    rw [List.length_append]
    omega
  have deep := matchWithin_refines le p v b r outcome
  exact Option.isSome_iff_exists.mpr ⟨r, deep⟩

/-- Where no text in the data asks for a rest, every match has an outcome. -/
theorem match?_isSome_of_no_rests {v : Value} {b : Bindings}
    (noRests : ∀ s ∈ v.texts ++ Value.textsFields b, Variable.isRest s = false) (p : Pattern)
    : (p.match? v b).isSome := by
  refine match?_isSome_of_not_circles fun circles => ?_
  obtain ⟨w, among, s, here, isRest⟩ := circles.exists_rest
    (Value.hereditary_texts (v.texts ++ Value.textsFields b)) (List.subset_append_left _ _)
    (Bindings.all_texts b (List.subset_append_right _ _))
  rw [noRests s (among here)] at isRest
  cases isRest

/-- A match has an outcome within some depth exactly if it does not run in circles: if it never
comes to matching a list with a variable from which rests lead on and on. Matching then goes deep
enough to give the outcome.
-/
theorem outcome_iff_not_circles (p : Pattern) (v : Value) (b : Bindings)
    : ((∃ r, Outcome p v b r) ↔ ¬Circles p v b)
      ∧ ∀ r, Outcome p v b r ↔ p.match? v b = some r := by
  have straight {r : MatchResult} (outcome : Outcome p v b r) : ¬Circles p v b := by
    intro circles
    obtain ⟨depth, within⟩ := outcome
    rw [circles.eq_none depth] at within
    cases within
  have found {r : MatchResult} (answer : p.match? v b = some r) : Outcome p v b r := ⟨_, answer⟩
  refine ⟨⟨fun ⟨r, outcome⟩ => straight outcome, ?_⟩, fun r => ⟨?_, found⟩⟩
  · intro notCircles
    obtain ⟨r, answer⟩ := Option.isSome_iff_exists.mp (match?_isSome_of_not_circles notCircles)
    exact ⟨r, found answer⟩
  · intro outcome
    obtain ⟨r', answer⟩ := Option.isSome_iff_exists.mp
      (match?_isSome_of_not_circles (straight outcome))
    rw [answer, outcome.eq answer]

/-- A variable that is bound to the list of its own rest is never done with a list. -/
theorem not_outcome_of_own_rest
    : ¬∃ r, Outcome (varNamed "r") (.list []) (.ofList [("?r", .list [.string "...?r"])]) r := by
  have leads : Bindings.nextRest? (.ofList [("?r", .list [.string "...?r"])]) "?r" = some "?r" := by
    decide +kernel
  have endless : Bindings.Endless (.ofList [("?r", .list [.string "...?r"])]) "?r" := by
    intro n stops
    induction n with
    | zero =>
      cases stops with
      | here last => simp [leads] at last
    | succ n ih =>
      cases stops with
      | onward leads' stops =>
        obtain rfl := Option.some.inj (leads.symm.trans leads')
        exact ih stops
  have name : Variable.ofName "r" = "?r" := by decide +kernel
  rintro ⟨r, depth, outcome⟩
  rw [varNamed, name, eq_none_of_endless endless [] depth] at outcome
  cases outcome

end Pattern

end RuleEngine
