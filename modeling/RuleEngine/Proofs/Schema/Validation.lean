import RuleEngine.Proofs.Store.Coherence
import RuleEngine.Schema.Registry

/-! What validation does to a record. Defaults fill what is absent and nothing else, whatever the
schema says, so a valid record still names the kind that it named before.
-/

namespace RuleEngine

namespace Registry

variable {r r' : Record} {name : String} {v : Value}

/-- A default is set only where a field is absent or undefined. -/
theorem get?_fillDefault (f : FieldSchema) (present : r.get? name = some v)
    (defined : v.isUndefined = false)
    : (fillDefault f r).1.get? name = some v := by
  unfold fillDefault
  cases f.default with
  | none => exact present
  | some default =>
    by_cases same : name = f.name
    · subst same
      simp [present, defined]
    · dsimp only
      split
      · simp [same, present]
      · exact present

/-- The checks of fields leave a defined field as it is, by induction on the fields. -/
theorem get?_checkFields (g : Registry) {kind : String} {fields : List FieldSchema}
    (valid : (g.checkFields kind fields r).1 = .ok r') (present : r.get? name = some v)
    (defined : v.isUndefined = false)
    : r'.get? name = some v := by
  induction fields generalizing r with
  | nil =>
    obtain rfl := Except.ok.inj valid
    exact present
  | cons f rest ih =>
    have kept := get?_fillDefault f present defined
    unfold checkFields at valid
    split at valid
    · dsimp only at valid
      split at valid
      · cases valid
      · exact ih valid kept
    · cases valid

/-- A valid record has every field of the record that was validated, except undefined ones. -/
theorem get?_validate {g : Registry} (valid : (g.validate r).1 = .ok r')
    (present : r.get? name = some v) (defined : v.isUndefined = false)
    : r'.get? name = some v := by
  unfold validate at valid
  split at valid
  · obtain rfl := Except.ok.inj valid
    exact present
  · exact g.get?_checkFields valid present defined

/-- A valid record names the kind that it named before, which no default can set. -/
theorem kindOf?_validate {g : Registry} {kind : String} (valid : (g.validate r).1 = .ok r')
    (named : Store.kindOf? r = some kind)
    : Store.kindOf? r' = some kind := by
  obtain ⟨present, notEmpty⟩ := Store.kindOf?_eq_some_iff.mp named
  exact Store.kindOf?_eq_some_iff.mpr ⟨get?_validate valid present rfl, notEmpty⟩

end Registry

end RuleEngine
