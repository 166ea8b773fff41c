import RuleEngine.Proofs.Schema.Validation

/-! Valid records hold what their schema declares. Fields are checked in the order of their
declarations while defaults are filled in, so a declaration holds of the valid record unless its
field was open when it was checked and a later default set it; and a valid record is valid again if
no declaration is passed by in this way.
-/

namespace RuleEngine

/-- What a declared type says of a value. -/
inductive FieldType.Describes : FieldType → Value → Prop where
  | any (v : Value) : Describes any v
  | string (s : String) : Describes string (.string s)
  | number (n : Number) : Describes number (.number n)
  | boolean (b : Bool) : Describes boolean (.bool b)
  | date (i : Instant) : Describes date (.date i)
  | array (items : List Value) : Describes array (.list items)
  | map (fields : Record) : Describes object (.map fields)
  | fact (f : Fact) : Describes object (.fact f)
  | named {kind : String} {v : Value} (carries : v.field? Fact.kindField = some (.string kind))
    : Describes (named kind) v

/-- What a record holds under a name, where nothing counts as undefined. -/
def Registry.held (r : Record) (name : String) : Value := (r.get? name).getD .undefined

namespace FieldSchema

/-- What a declaration demands of a record. -/
structure HoldsOf (f : FieldSchema) (g : Registry) (r : Record) : Prop where
  /-- The type is a shape or has a schema. -/
  known : ∀ kind, f.type = .named kind → ∃ s ∈ g.schemas, s.kind = kind
  present : f.required = true → ∃ v, r.get? f.name = some v ∧ v.isNil = false
  typed : ∀ v, r.get? f.name = some v → v.isNil = false → f.type.Describes v
  accepted : ∀ v accepts, r.get? f.name = some v → v.isNil = false →
    f.validator = some accepts → accepts v = true

/-- What the default gives at its next use. -/
def supply (f : FieldSchema) : Value := (f.default.map (·.produce.1)).getD .undefined

/-- A field that was open when it was checked is set by a later declaration. -/
structure Overtaken (f : FieldSchema) (before after : List FieldSchema) (r : Record) : Prop where
  unset : Registry.held r f.name = .undefined
  unsupplied : ∀ e ∈ before ++ [f], e.name = f.name → e.supply = .undefined
  supplied : ∃ later ∈ after, later.name = f.name ∧ later.supply ≠ .undefined

/-- A default that gives nothing gives nothing at its next use either. -/
def Steady (f : FieldSchema) : Prop :=
  ∀ default, f.default = some default → default.produce.1 = .undefined →
    default.produce.2.produce.1 = .undefined

/-- A literal always gives the same. -/
theorem steady_of_value {f : FieldSchema} {v : Value} (literal : f.default = some (.value v))
    : f.Steady := by
  intro default has nothing
  obtain rfl := Option.some.inj (literal.symm.trans has)
  exact nothing

theorem steady_of_none {f : FieldSchema} (hasNone : f.default = none) : f.Steady :=
  fun default has => by simp [hasNone] at has

end FieldSchema

namespace Registry

variable {g : Registry} {kind name : String} {f : FieldSchema} {fields fields' : List FieldSchema}
  {r r' m : Record} {v : Value}

-- --------------------------------------------------------------------------------------
-- One declaration
-- --------------------------------------------------------------------------------------

theorem hasType_iff_describes {type : FieldType} : hasType type v = true ↔ type.Describes v := by
  constructor
  · intro has
    cases type with
    | named kind =>
      obtain ⟨w, found, text⟩ := Option.bind_eq_some_iff.mp (eq_of_beq has)
      obtain rfl := Value.string?_eq_some_iff.mp text
      exact .named found
    | _ => cases v <;> first | constructor | cases has
  · rintro (_ | _ | _ | _ | _ | _ | _ | _ | carries)
    case named => simp [hasType, carries, Value.string?]
    all_goals rfl

theorem isKnown_iff {type : FieldType}
    : g.isKnown type = true ↔ ∀ kind, type = .named kind → ∃ s ∈ g.schemas, s.kind = kind := by
  cases type with
  | named kind => simp [isKnown, contains, schema?]
  | _ => simp [isKnown]

/-- No violation is found in what is nil unless it is required, nor in what has the declared type
and is accepted.
-/
theorem violation?_eq_none_iff
    : violation? f v = none
      ↔ if v.isNil then f.required = false
        else f.type.Describes v ∧ ∀ accepts, f.validator = some accepts → accepts v = true := by
  unfold violation?
  split
  · cases f.required <;> simp
  · rw [← hasType_iff_describes]
    cases hasType f.type v with
    | false => simp
    | true => cases f.validator <;> simp

theorem held_of_get? (found : r.get? name = some v) : held r name = v := by
  rw [held, found, Option.getD_some]

theorem held_eq_undefined_iff
    : held r name = .undefined ↔ r.get? name = none ∨ r.get? name = some .undefined := by
  unfold held
  cases r.get? name <;> simp

/-- What is not nil is there. -/
theorem get?_of_held (notNil : (held r name).isNil = false)
    : r.get? name = some (held r name) := by
  cases found : r.get? name with
  | none => simp [held, found, Value.isNil] at notNil
  | some v => rw [held_of_get? found]

/-- A declaration is checked against no more than what the record holds under its name. -/
theorem holdsOf_iff
    : f.HoldsOf g r ↔ g.isKnown f.type = true ∧ violation? f (held r f.name) = none := by
  rw [isKnown_iff, violation?_eq_none_iff]
  constructor
  · rintro ⟨known, present, typed, accepted⟩
    refine ⟨known, ?_⟩
    split
    · rename_i isNil
      refine Bool.eq_false_iff.mpr fun required => ?_
      obtain ⟨v, found, notNil⟩ := present required
      rw [held_of_get? found, notNil] at isNil
      cases isNil
    · rename_i isNil
      have notNil := Bool.eq_false_iff.mpr isNil
      have found := get?_of_held notNil
      exact ⟨typed _ found notNil, fun accepts => accepted _ accepts found notNil⟩
  · rintro ⟨known, sound⟩
    refine ⟨known, fun required => ?_, fun v found notNil => ?_, fun v accepts found notNil => ?_⟩
    · cases isNil : (held r f.name).isNil with
      | false => exact ⟨_, get?_of_held isNil, isNil⟩
      | true =>
        rw [if_pos isNil, required] at sound
        cases sound
    · rw [held_of_get? found, notNil] at sound
      exact sound.1
    · rw [held_of_get? found, notNil] at sound
      exact sound.2 accepts

-- --------------------------------------------------------------------------------------
-- Records that are filled in
-- --------------------------------------------------------------------------------------

/-- A record has what another has, except that undefined fields may be set. -/
def Completes (r' r : Record) : Prop :=
  ∀ name v, r.get? name = some v →
    r'.get? name = some v ∨ v = .undefined ∧ ∃ w, r'.get? name = some w

theorem Completes.refl (r : Record) : Completes r r := fun _ _ found => .inl found

theorem Completes.trans {r'' : Record} (later : Completes r'' r') (first : Completes r' r)
    : Completes r'' r := by
  intro name v found
  obtain kept | ⟨rfl, w, set⟩ := first name v found
  · exact later name v kept
  · obtain kept | ⟨rfl, u, set'⟩ := later name w set
    · exact .inr ⟨rfl, w, kept⟩
    · exact .inr ⟨rfl, u, set'⟩

/-- Records that complete each other are the same. -/
theorem Completes.antisymm (there : Completes r' r) (back : Completes r r') : r' = r := by
  refine Fields.ext_get? fun name => ?_
  cases before : r.get? name with
  | none =>
    cases after : r'.get? name with
    | none => rfl
    | some w =>
      obtain found | ⟨-, v, found⟩ := back name w after <;> simp [before] at found
  | some v =>
    obtain kept | ⟨rfl, w, set⟩ := there name v before
    · exact kept
    · obtain found | ⟨rfl, -⟩ := back name w set
      · exact set.trans (found.symm.trans before)
      · exact set

/-- What is set is kept. -/
theorem Completes.held_eq (more : Completes r' r) (set : held r name ≠ .undefined)
    : held r' name = held r name := by
  cases found : r.get? name with
  | none => simp [held, found] at set
  | some v =>
    obtain kept | ⟨rfl, -⟩ := more name v found
    · rw [held_of_get? kept, held_of_get? found]
    · exact absurd (held_of_get? found) set

/-- What is open in the end was open before. -/
theorem Completes.unset (more : Completes r' r) (unset : held r' name = .undefined)
    : held r name = .undefined := by
  by_cases set : held r name = .undefined
  · exact set
  · exact (more.held_eq set).symm.trans unset

theorem get?_fillDefault_of_ne (differ : name ≠ f.name)
    : (fillDefault f r).1.get? name = r.get? name := by
  unfold fillDefault
  split
  · dsimp only
    split
    · simp [differ]
    · rfl
  · rfl

/-- A default is used where its field is open. -/
theorem fillDefault_of_open {default : FieldDefault} (has : f.default = some default)
    (unset : held r f.name = .undefined)
    : fillDefault f r
      = (r.insert f.name default.produce.1, { f with default := some default.produce.2 }) := by
  have isOpen : ((r.get? f.name).getD .undefined).isUndefined = true :=
    Value.isUndefined_iff.mpr unset
  simp only [fillDefault, has, if_pos isOpen]

theorem fillDefault_of_set (set : held r f.name ≠ .undefined) : fillDefault f r = (r, f) := by
  have notOpen : ((r.get? f.name).getD .undefined).isUndefined ≠ true :=
    fun isOpen => set (Value.isUndefined_iff.mp isOpen)
  unfold fillDefault
  split
  · rw [if_neg notOpen]
  · rfl

theorem fillDefault_of_none (hasNone : f.default = none) : fillDefault f r = (r, f) := by
  simp only [fillDefault, hasNone]

/-- A declaration changes only in its default. -/
theorem exists_fillDefault_eq (f : FieldSchema) (r : Record)
    : ∃ default, (fillDefault f r).2 = { f with default } := by
  unfold fillDefault
  split
  · dsimp only
    split
    · exact ⟨_, rfl⟩
    · exact ⟨f.default, rfl⟩
  · exact ⟨f.default, rfl⟩

theorem completes_fillDefault (f : FieldSchema) (r : Record)
    : Completes (fillDefault f r).1 r := by
  intro name v found
  by_cases undefined : v = .undefined
  · by_cases same : name = f.name
    · subst same
      have unset : held r f.name = .undefined := (held_of_get? found).trans undefined
      cases has : f.default with
      | none =>
        rw [fillDefault_of_none has]
        exact .inl found
      | some default =>
        rw [fillDefault_of_open has unset]
        exact .inr ⟨undefined, default.produce.1, by simp⟩
    · rw [get?_fillDefault_of_ne same]
      exact .inl found
  · have isSet := Bool.eq_false_iff.mpr (undefined ∘ Value.isUndefined_iff.mp)
    exact .inl (get?_fillDefault f found isSet)

/-- A field is open after a default if it was open before and the default does not set it. -/
theorem held_fillDefault_eq_undefined_iff
    : held (fillDefault f r).1 name = .undefined
      ↔ held r name = .undefined ∧ (f.name = name → f.supply = .undefined) := by
  by_cases same : name = f.name
  · subst same
    by_cases unset : held r f.name = .undefined
    · cases has : f.default with
      | none => simp [fillDefault_of_none has, FieldSchema.supply, has]
      | some default =>
        rw [fillDefault_of_open has unset]
        simp [FieldSchema.supply, has, unset, held_of_get?]
    · rw [fillDefault_of_set unset]
      simp [unset]
  · have differ : ¬f.name = name := fun eq => same eq.symm
    rw [held, get?_fillDefault_of_ne same]
    simp [held, differ]

/-- A default changes nothing where its field is set, or already holds what the default gives. -/
theorem fillDefault_eq_self_iff
    : (fillDefault f r).1 = r
      ↔ ∀ default, f.default = some default → held r f.name = .undefined →
          r.get? f.name = some default.produce.1 := by
  constructor
  · intro same default has unset
    rw [fillDefault_of_open has unset] at same
    rw [← same]
    simp
  · intro stored
    by_cases unset : held r f.name = .undefined
    · cases has : f.default with
      | none => rw [fillDefault_of_none has]
      | some default =>
        rw [fillDefault_of_open has unset]
        refine Fields.ext_get? fun name => ?_
        by_cases same : name = f.name
        · subst same
          simp [stored default has unset]
        · simp [same]
    · rw [fillDefault_of_set unset]

/-- A default that is used again changes nothing of what came of its first use exactly if its field
is set or it is steady.
-/
theorem fillDefault_again (more : Completes r' (fillDefault f r).1)
    : (fillDefault (fillDefault f r).2 r').1 = r' ↔ (held r' f.name = .undefined → f.Steady) := by
  by_cases unset : held r' f.name = .undefined
  · obtain ⟨unsetBefore, nothing⟩ := held_fillDefault_eq_undefined_iff.mp (more.unset unset)
    cases has : f.default with
    | none =>
      rw [fillDefault_of_none has, fillDefault_of_none has]
      exact iff_of_true rfl fun _ => FieldSchema.steady_of_none has
    | some default =>
      rw [fillDefault_of_open has unsetBefore] at more ⊢
      obtain ⟨w, stored⟩ : ∃ w, r'.get? f.name = some w := by
        obtain kept | ⟨-, set⟩ := more f.name default.produce.1 (by simp)
        · exact ⟨_, kept⟩
        · exact set
      obtain rfl : w = .undefined := (held_of_get? stored).symm.trans unset
      have gaveNothing : default.produce.1 = .undefined := by
        simpa [FieldSchema.supply, has] using nothing rfl
      rw [fillDefault_eq_self_iff]
      simp [FieldSchema.Steady, has, unset, stored, gaveNothing, eq_comm]
  · obtain ⟨after, changed⟩ := exists_fillDefault_eq f r
    rw [changed, fillDefault_of_set (f := { f with default := after }) unset]
    exact iff_of_true rfl fun isUnset => absurd isUnset unset

-- --------------------------------------------------------------------------------------
-- One declaration after the other
-- --------------------------------------------------------------------------------------

/-- Each declaration holds of the record once its own default is filled in. The declarations that
come out have the uses of their defaults counted.
-/
inductive Passes (g : Registry) : List FieldSchema → Record → Record → List FieldSchema → Prop where
  | nil (r : Record) : Passes g [] r r []
  | cons {f : FieldSchema} {fields fields' : List FieldSchema} {r r' : Record}
    (here : f.HoldsOf g (fillDefault f r).1)
    (others : Passes g fields (fillDefault f r).1 r' fields')
    : Passes g (f :: fields) r r' ((fillDefault f r).2 :: fields')

/-- A check goes on exactly after a declaration that holds. -/
theorem checkFields_cons_eq_ok_iff
    : g.checkFields kind (f :: fields) r = (.ok r', fields')
      ↔ f.HoldsOf g (fillDefault f r).1
        ∧ ∃ rest, g.checkFields kind fields (fillDefault f r).1 = (.ok r', rest)
            ∧ fields' = (fillDefault f r).2 :: rest := by
  obtain ⟨default, changed⟩ := exists_fillDefault_eq f r
  have sameCheck (v : Value) : violation? (fillDefault f r).2 v = violation? f v := by
    rw [changed]
    rfl
  have sameName : (fillDefault f r).2.name = f.name := by rw [changed]
  rw [holdsOf_iff, held]
  simp only [checkFields, sameCheck, sameName]
  cases g.isKnown f.type with
  | false => simp
  | true =>
    cases violation? f (((fillDefault f r).1.get? f.name).getD .undefined) with
    | some violation => simp
    | none =>
      cases g.checkFields kind fields (fillDefault f r).1
      simp [and_assoc, eq_comm]

/-- The checks of fields succeed exactly for declarations that hold one after the other, by
induction on the fields.
-/
theorem checkFields_eq_ok_iff
    : g.checkFields kind fields r = (.ok r', fields') ↔ Passes g fields r r' fields' := by
  induction fields generalizing r fields' with
  | nil =>
    constructor
    · intro ok
      obtain ⟨same, rfl⟩ := Prod.mk.inj ok
      obtain rfl := Except.ok.inj same
      exact .nil r
    · rintro ⟨⟩
      rfl
  | cons f rest ih =>
    rw [checkFields_cons_eq_ok_iff]
    constructor
    · rintro ⟨here, rest', others, rfl⟩
      exact .cons here (ih.mp others)
    · rintro (_ | ⟨here, others⟩)
      exact ⟨here, _, ih.mpr others, rfl⟩

namespace Passes

theorem completes (passes : Passes g fields r r' fields') : Completes r' r := by
  induction passes with
  | nil r => exact .refl r
  | cons _ _ ih => exact ih.trans (completes_fillDefault _ _)

theorem isKnown (passes : Passes g fields r r' fields') {f : FieldSchema} (member : f ∈ fields)
    : g.isKnown f.type = true := by
  induction passes with
  | nil => cases member
  | cons here _ ih =>
    obtain rfl | member := List.mem_cons.mp member
    · exact (holdsOf_iff.mp here).1
    · exact ih member

/-- A field stays open if no declaration of it supplies a value, by induction on the checks. -/
theorem held_eq_undefined_iff (passes : Passes g fields r r' fields')
    : held r' name = .undefined
      ↔ held r name = .undefined ∧ ∀ f ∈ fields, f.name = name → f.supply = .undefined := by
  induction passes with
  | nil => simp
  | cons _ _ ih => rw [ih, held_fillDefault_eq_undefined_iff, List.forall_mem_cons, and_assoc]

/-- A field changes only if it was open and a declaration of it has a default, by induction on the
checks.
-/
theorem open_of_get?_ne (passes : Passes g fields r r' fields')
    (differ : r'.get? name ≠ r.get? name)
    : held r name = .undefined ∧ ∃ f ∈ fields, f.name = name ∧ f.default.isSome = true := by
  induction passes with
  | nil => exact absurd rfl differ
  | @cons f fields _ r _ here others ih =>
    by_cases changed : (fillDefault f r).1.get? name = r.get? name
    · rw [← changed] at differ
      obtain ⟨unset, declared, member, named⟩ := ih differ
      exact ⟨(held_fillDefault_eq_undefined_iff.mp unset).1, declared, .tail _ member, named⟩
    · by_cases same : name = f.name
      · subst same
        by_cases unset : held r f.name = .undefined
        · cases has : f.default with
          | none => exact absurd (by rw [fillDefault_of_none has]) changed
          | some default => exact ⟨unset, f, .head _, rfl, by rw [has]; rfl⟩
        · exact absurd (by rw [fillDefault_of_set unset]) changed
      · exact absurd (get?_fillDefault_of_ne same) changed

/-- Checks can be cut in two, by induction on the declarations before the cut. -/
theorem append {before after : List FieldSchema} (passes : Passes g (before ++ after) r r' fields')
    : ∃ m done rest, Passes g before r m done ∧ Passes g after m r' rest := by
  induction before generalizing r fields' with
  | nil => exact ⟨r, [], fields', .nil r, passes⟩
  | cons f before ih =>
    obtain _ | ⟨here, others⟩ := passes
    obtain ⟨m, done, rest, first, second⟩ := ih others
    exact ⟨m, _, rest, .cons here first, second⟩

/-- A declaration holds in the end unless it is overtaken: what it was checked against is what the
record still holds.
-/
theorem holdsOf {before after : List FieldSchema}
    (passes : Passes g (before ++ f :: after) r r' fields') (foremost : ¬f.Overtaken before after r)
    : f.HoldsOf g r' := by
  obtain ⟨m, _, _, first, second⟩ := passes.append
  obtain _ | ⟨here, later⟩ := second
  have kept : held r' f.name = held (fillDefault f m).1 f.name := by
    by_cases unset : held (fillDefault f m).1 f.name = .undefined
    · obtain ⟨unsetBefore, ownSupply⟩ := held_fillDefault_eq_undefined_iff.mp unset
      obtain ⟨unsetFirst, supplies⟩ := first.held_eq_undefined_iff.mp unsetBefore
      rw [unset]
      refine later.held_eq_undefined_iff.mpr ⟨unset, fun g member same => ?_⟩
      by_cases supply : g.supply = .undefined
      · exact supply
      · refine absurd ⟨unsetFirst, fun e among => ?_, g, member, same, supply⟩ foremost
        obtain among | isOwn := List.mem_append.mp among
        · exact supplies e among
        · obtain rfl := List.mem_singleton.mp isOwn
          exact ownSupply
    · exact later.completes.held_eq unset
  rw [holdsOf_iff] at here ⊢
  rwa [kept]

/-- Checks change nothing exactly if each declaration holds and its default changes nothing: what
one default would change no later one changes back.
-/
theorem unchanged_iff
    : (∃ fields', Passes g fields r r fields')
      ↔ ∀ f ∈ fields, f.HoldsOf g r ∧ (fillDefault f r).1 = r := by
  induction fields with
  | nil => exact iff_of_true ⟨[], .nil r⟩ nofun
  | cons f fields ih =>
    rw [List.forall_mem_cons, ← ih]
    constructor
    · rintro ⟨fields', passes⟩
      obtain _ | ⟨here, others⟩ := passes
      have same : (fillDefault f r).1 = r :=
        (completes_fillDefault f r).antisymm others.completes
      rw [same] at here others
      exact ⟨⟨here, same⟩, _, others⟩
    · rintro ⟨⟨here, same⟩, fields', others⟩
      have onward : Passes g fields (fillDefault f r).1 r fields' := by rwa [same]
      rw [← same] at here
      exact ⟨_, .cons here onward⟩

/-- The declarations that come out of checks hold of the outcome and change nothing in it exactly if
those that went in hold of it and are steady where it is open; by induction on the checks.
-/
theorem again_iff (passes : Passes g fields r r' fields')
    : (∀ f ∈ fields', f.HoldsOf g r' ∧ (fillDefault f r').1 = r')
      ↔ ∀ f ∈ fields, f.HoldsOf g r' ∧ (held r' f.name = .undefined → f.Steady) := by
  induction passes with
  | nil => exact iff_of_true nofun nofun
  | @cons f _ _ r r' _ others ih =>
    have sameDemands : (fillDefault f r).2.HoldsOf g r' ↔ f.HoldsOf g r' := by
      obtain ⟨default, changed⟩ := exists_fillDefault_eq f r
      rw [changed, holdsOf_iff, holdsOf_iff]
      exact Iff.rfl
    rw [List.forall_mem_cons, List.forall_mem_cons, ih, sameDemands,
      fillDefault_again others.completes]

end Passes

-- --------------------------------------------------------------------------------------
-- Registries
-- --------------------------------------------------------------------------------------

variable {s t : Schema}

theorem kind_of_schema? (found : g.schema? kind = some s) : s.kind = kind :=
  eq_of_beq (List.find?_some (p := fun u : Schema => u.kind == kind) found)

theorem schemaOf?_eq_some_iff
    : g.schemaOf? r = some s
      ↔ r.get? Fact.kindField = some (.string s.kind) ∧ g.schema? s.kind = some s := by
  constructor
  · intro found
    obtain ⟨kind, named, declared⟩ := Option.bind_eq_some_iff.mp found
    obtain ⟨v, present, text⟩ := Option.bind_eq_some_iff.mp named
    obtain rfl := Value.string?_eq_some_iff.mp text
    obtain rfl : s.kind = kind := kind_of_schema? declared
    exact ⟨present, declared⟩
  · rintro ⟨present, declared⟩
    simp [schemaOf?, present, Value.string?, declared]

/-- A schema that takes the place of others is found in their place. -/
theorem schema?_update
    : (g.update t).schema? kind
      = (g.schema? kind).map fun u => if u.kind == t.kind then t else u := by
  have sameKinds : ((·.kind == kind) ∘ fun u => if u.kind == t.kind then t else u)
      = (fun u : Schema => u.kind == kind) := by
    funext u
    simp only [Function.comp_apply]
    split
    · rename_i same
      rw [eq_of_beq same]
    · rfl
  rw [schema?, update, List.find?_map, sameKinds, schema?]

/-- A schema takes the place of others for no other kind, so the same types are known. -/
theorem isKnown_update {type : FieldType} : (g.update t).isKnown type = g.isKnown type := by
  cases type with
  | named kind => simp [isKnown, contains, schema?_update]
  | _ => rfl

theorem holdsOf_update : f.HoldsOf (g.update t) r ↔ f.HoldsOf g r := by
  rw [holdsOf_iff, holdsOf_iff, isKnown_update]

/-- To validate is to check the declarations of the schema, and to count the uses of their
defaults.
-/
theorem exists_passes_of_validate (valid : (g.validate r).1 = .ok r')
    (declared : g.schemaOf? r = some s)
    : ∃ fields, Passes g s.fields r r' fields ∧ (g.validate r).2 = g.update { s with fields } := by
  simp only [validate, declared] at valid ⊢
  exact ⟨_, checkFields_eq_ok_iff.mp (Prod.ext valid rfl), rfl⟩

/-- A record that is still of its kind stays valid exactly if its declarations change nothing. -/
theorem validate_eq_ok_self_iff (declared : g.schemaOf? r = some s)
    : (g.validate r).1 = .ok r ↔ ∀ f ∈ s.fields, f.HoldsOf g r ∧ (fillDefault f r).1 = r := by
  rw [← Passes.unchanged_iff]
  constructor
  · intro valid
    obtain ⟨fields, passes, -⟩ := exists_passes_of_validate valid declared
    exact ⟨fields, passes⟩
  · rintro ⟨fields, passes⟩
    simp only [validate, declared, checkFields_eq_ok_iff.mpr passes]

/-- A record that names the same kind belongs to the schema that took the place of the other. -/
theorem schemaOf?_update {fields : List FieldSchema} (declared : g.schemaOf? r = some s)
    (sameKind : r'.get? Fact.kindField = r.get? Fact.kindField)
    : (g.update { s with fields }).schemaOf? r' = some { s with fields } := by
  obtain ⟨present, found⟩ := schemaOf?_eq_some_iff.mp declared
  exact schemaOf?_eq_some_iff.mpr ⟨sameKind.trans present, by simp [schema?_update, found]⟩

/-- A valid record holds what its schema declares, but for declarations that are overtaken: their
field was open when it was checked, and a later declaration of the same field has set it. Validation
changes a field only if it was open and has a default, and it does not change the kind. To validate
once more changes nothing exactly if every declaration holds and every default that has left its
field open does so again. This is so if no field is declared twice and every default is steady, as
literals are.
-/
theorem valid_record_conforms (valid : (g.validate r).1 = .ok r')
    (declared : g.schemaOf? r = some s)
    : (∀ before f after, s.fields = before ++ f :: after → ¬f.Overtaken before after r →
        f.HoldsOf g r')
      ∧ (∀ f ∈ s.fields, ∀ kind, f.type = .named kind → ∃ t ∈ g.schemas, t.kind = kind)
      ∧ (∀ name, r'.get? name ≠ r.get? name →
          (r.get? name = none ∨ r.get? name = some .undefined)
          ∧ ∃ f ∈ s.fields, f.name = name ∧ f.default.isSome = true)
      ∧ r'.get? Fact.kindField = r.get? Fact.kindField
      ∧ (((g.validate r).2.validate r').1 = .ok r'
          ↔ ∀ f ∈ s.fields, f.HoldsOf g r' ∧ (held r' f.name = .undefined → f.Steady))
      ∧ ((s.fields.map (·.name)).Nodup → (∀ f ∈ s.fields, f.Steady) →
          ((g.validate r).2.validate r').1 = .ok r') := by
  obtain ⟨fields, passes, counted⟩ := exists_passes_of_validate valid declared
  have kindKept : r'.get? Fact.kindField = r.get? Fact.kindField := by
    obtain ⟨present, -⟩ := schemaOf?_eq_some_iff.mp declared
    rw [present, get?_validate valid present rfl]
  have conforms (before : List FieldSchema) (f : FieldSchema) (after : List FieldSchema)
      (split : s.fields = before ++ f :: after) (foremost : ¬f.Overtaken before after r)
      : f.HoldsOf g r' := by
    rw [split] at passes
    exact passes.holdsOf foremost
  have again : ((g.validate r).2.validate r').1 = .ok r'
      ↔ ∀ f ∈ s.fields, f.HoldsOf g r' ∧ (held r' f.name = .undefined → f.Steady) := by
    rw [counted, validate_eq_ok_self_iff (schemaOf?_update declared kindKept), ← passes.again_iff]
    simp only [holdsOf_update]
  refine ⟨conforms, fun f member => isKnown_iff.mp (passes.isKnown member), fun name differ => ?_,
    kindKept, again, fun distinct steady => again.mpr fun f member =>
      ⟨?_, fun _ => steady f member⟩⟩
  · obtain ⟨unset, declaredWith⟩ := passes.open_of_get?_ne differ
    exact ⟨held_eq_undefined_iff.mp unset, declaredWith⟩
  · obtain ⟨before, after, split⟩ := List.append_of_mem member
    refine conforms before f after split fun overtaken => ?_
    obtain ⟨later, among, same, -⟩ := overtaken.supplied
    rw [split, List.map_append, List.map_cons] at distinct
    have apart := (List.nodup_cons.mp (List.nodup_append.mp distinct).2.1).1
    exact apart (List.mem_map.mpr ⟨later, among, same⟩)

end Registry

namespace Sample

/-- Customers need a name that is not empty, and have a tier. -/
def customer : Schema where
  kind := "Customer"
  fields :=
    [⟨"name", .string, true, none, some fun v => v.size? != some 0⟩,
      ⟨"tier", .string, false, some (.value (.string "basic")), none⟩]

def ann : Record := .ofList [("kind", .string "Customer"), ("name", .string "Ann")]

def annBasic : Record := ann.insert "tier" (.string "basic")

theorem ann_conforms
    : (Registry.validate ⟨[customer]⟩ ann).1 = .ok annBasic
      ∧ Registry.schemaOf? ⟨[customer]⟩ ann = some customer
      ∧ (∀ f ∈ customer.fields, f.HoldsOf ⟨[customer]⟩ annBasic)
      ∧ ((Registry.validate ⟨[customer]⟩ ann).2.validate annBasic).1 = .ok annBasic := by
  have valid : (Registry.validate ⟨[customer]⟩ ann).1 = .ok annBasic := by rfl
  have declared : Registry.schemaOf? ⟨[customer]⟩ ann = some customer := by rfl
  obtain ⟨-, -, -, -, again, onceEach⟩ := Registry.valid_record_conforms valid declared
  have steady : ∀ f ∈ customer.fields, f.Steady := by
    simp only [customer, List.forall_mem_cons]
    exact ⟨FieldSchema.steady_of_none rfl, FieldSchema.steady_of_value rfl, nofun⟩
  have valid' := onceEach (by decide) steady
  exact ⟨valid, declared, fun f member => (again.mp valid' f member).1, valid'⟩

/-- An order whose status is declared as a number first and then as a text with a default. -/
def restated : Schema where
  kind := "Order"
  fields :=
    [⟨"status", .number, false, none, none⟩,
      ⟨"status", .string, false, some (.value (.string "new")), none⟩]

/-- An order whose status is not known until it is asked for a second time. -/
def awaited : Schema where
  kind := "Order"
  fields :=
    [⟨"status", .string, false,
      some (.producer (fun used => if used = 0 then .undefined else .string "new") 0), none⟩]

def bareOrder : Record := .ofList [("kind", .string "Order")]

def orderWith (status : Value) : Record := bareOrder.insert "status" status

/-- A later default can leave a record in breach of an earlier declaration, so that it is not valid
again; and a default that gives nothing at first can change a valid record later.
-/
theorem valid_order_need_not_conform
    : (Registry.validate ⟨[restated]⟩ bareOrder).1 = .ok (orderWith (.string "new"))
      ∧ (∃ f ∈ restated.fields, ¬f.HoldsOf ⟨[restated]⟩ (orderWith (.string "new")))
      ∧ ((Registry.validate ⟨[restated]⟩ bareOrder).2.validate (orderWith (.string "new"))).1
        = .error (.validation "Order" "status" (.mistyped "number" "string"))
      ∧ (Registry.validate ⟨[awaited]⟩ bareOrder).1 = .ok (orderWith .undefined)
      ∧ ((Registry.validate ⟨[awaited]⟩ bareOrder).2.validate (orderWith .undefined)).1
        = .ok (orderWith (.string "new")) := by
  refine ⟨by rfl, ⟨_, .head _, fun holds => ?_⟩, by rfl, by rfl, by rfl⟩
  cases holds.typed (.string "new") (by rfl) rfl

end Sample

end RuleEngine
