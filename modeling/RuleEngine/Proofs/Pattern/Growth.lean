import RuleEngine.Proofs.Pattern.Parts

/-! Bindings only grow. Whatever a match comes to, each variable that was bound before it is bound
to the same value after it.
-/

namespace RuleEngine

/-- Bindings hold all that others hold. -/
def Bindings.Extends (b' b : Bindings) : Prop :=
  ∀ name v, b.get? name = some v → b'.get? name = some v

namespace Bindings.Extends

variable {b b' b'' : Bindings}

theorem refl (b : Bindings) : b.Extends b := fun _ _ bound => bound

theorem trans (later : b''.Extends b') (first : b'.Extends b) : b''.Extends b :=
  fun name v bound => later name v (first name v bound)

/-- What is bound stays bound. -/
theorem contains (more : b'.Extends b) {name : String} (bound : b.contains name = true)
    : b'.contains name = true := by
  obtain ⟨v, found⟩ := Option.isSome_iff_exists.mp bound
  simp [Fields.contains, more name v found]

/-- Binding a variable that is not bound. -/
theorem insert {name : String} (unbound : b.get? name = none) (v : Value)
    : Bindings.Extends (Fields.insert b name v) b := by
  intro other w bound
  have differ : other ≠ name := fun same => by simp [same, unbound] at bound
  simpa [differ] using bound

end Bindings.Extends

/-- Bindings hold what others hold of some names. -/
def Bindings.ExtendsOn (among : String → Prop) (b' b : Bindings) : Prop :=
  ∀ name v, among name → b.get? name = some v → b'.get? name = some v

namespace Bindings.ExtendsOn

variable {among : String → Prop} {b b' b'' : Bindings}

theorem refl (b : Bindings) : b.ExtendsOn among b := fun _ _ _ bound => bound

theorem trans (later : b''.ExtendsOn among b') (first : b'.ExtendsOn among b)
    : b''.ExtendsOn among b :=
  fun name v member bound => later name v member (first name v member bound)

theorem of_extends (more : b'.Extends b) : b'.ExtendsOn among b :=
  fun name v _ bound => more name v bound

/-- Setting a name that is not among those that count. -/
theorem insert {name : String} (apart : ¬among name) (v : Value)
    : Bindings.ExtendsOn among (Fields.insert b name v) b := by
  intro other w member bound
  have differ : other ≠ name := fun same => apart (same ▸ member)
  simpa [differ] using bound

end Bindings.ExtendsOn

namespace Pattern

/-- A match keeps what is bound, whether it succeeds or fails, because it binds no variable a second
time.
-/
theorem extends_of_match? {p : Pattern} {v : Value} {b : Bindings} {r : MatchResult}
    (outcome : p.match? v b = some r)
    : r.bindings.Extends b := by
  have anything : Value.Hereditary fun _ => True :=
    ⟨fun _ _ => trivial, fun _ => trivial, fun _ _ _ => trivial⟩
  have binding : KeptByBinding (fun _ => True) (Bindings.Extends · b) :=
    fun _ name w _ unbound kept => (Bindings.Extends.insert unbound w).trans kept
  exact matchWithin_keeps anything binding _ p v b r trivial (.refl b) outcome

end Pattern

end RuleEngine
