import Mathlib.Data.List.Basic
import RuleEngine.Pattern.Chain
import RuleEngine.Value.Lemmas

/-! The way along a chain of bare variables. It meets no variable twice, and all that it leaves
behind are bound, so it is never longer than the bindings are many, and the chain has an end. How
the chain ends can be told from where the way has got to, and the search for it takes one step for
each variable on the way.
-/

namespace RuleEngine

namespace Bindings

variable {b : Bindings}

theorem eq_string_of_bareVariable? {v : Value} {next : String} (bare : bareVariable? v = some next)
    : v = .string next ∧ Variable.isVariable next := by
  unfold bareVariable? at bare
  split at bare
  · split at bare
    · rename_i isVariable
      obtain rfl := Option.some.inj bare
      exact ⟨rfl, isVariable⟩
    · cases bare
  · cases bare

theorem mem_keys_of_get? {name : String} {v : Value} (bound : b.get? name = some v)
    : name ∈ b.keys :=
  List.mem_map_of_mem ((Fields.mem_toList_iff b).mpr bound)

/-- The way along a chain from its start to a variable, with the variables that were passed, the
last one first. Each is bound to the name of the next one, and none is met twice.
-/
inductive Way (b : Bindings) (start : String) : String → List String → Prop where
  | here : Way b start start []
  | onward {name next : String} {passed : List String} (way : Way b start name passed)
    (bound : b.get? name = some (.string next)) (isVariable : Variable.isVariable next)
    (fresh : next ∉ name :: passed) : Way b start next (name :: passed)

/-- How a chain ends at a variable, behind those that were passed. -/
inductive EndsIn (b : Bindings) (name : String) (passed : List String) : ChainEnd → Prop where
  | unbound (unbound : b.get? name = none) : EndsIn b name passed (.unbound name)
  | value {v : Value} (bound : b.get? name = some v) (notBare : bareVariable? v = none)
    : EndsIn b name passed (.value v)
  | cycle {next : String} (bound : b.get? name = some (.string next))
    (isVariable : Variable.isVariable next) (met : next ∈ name :: passed)
    : EndsIn b name passed (.cycle (.string next))

section

variable {start name : String} {passed : List String} {chainEnd : ChainEnd}

/-- A chain ends at a variable, or its way leads on. -/
theorem Way.ends_or_onward (way : b.Way start name passed)
    : (∃ chainEnd, b.EndsIn name passed chainEnd) ∨ ∃ next, b.Way start next (name :: passed) := by
  cases bound : b.get? name with
  | none => exact .inl ⟨_, .unbound bound⟩
  | some v =>
    cases bare : bareVariable? v with
    | none => exact .inl ⟨_, .value bound bare⟩
    | some next =>
      obtain ⟨rfl, isVariable⟩ := eq_string_of_bareVariable? bare
      by_cases met : next ∈ name :: passed
      · exact .inl ⟨_, .cycle bound isVariable met⟩
      · exact .inr ⟨next, .onward way bound isVariable met⟩

theorem Way.nodup (way : b.Way start name passed) : (name :: passed).Nodup := by
  induction way with
  | here => simp
  | onward _ _ _ fresh ih => exact List.nodup_cons.mpr ⟨fresh, ih⟩

theorem Way.passed_subset (way : b.Way start name passed) : passed ⊆ b.keys := by
  induction way with
  | here => exact List.nil_subset _
  | onward _ bound _ _ ih => exact List.cons_subset.mpr ⟨mem_keys_of_get? bound, ih⟩

/-- The variables that were passed are bound and differ. -/
theorem Way.length_le (way : b.Way start name passed) : passed.length ≤ b.size := by
  have below := (List.nodup_cons.mp way.nodup).2.length_le_of_subset way.passed_subset
  simpa [Fields.keys, Fields.size] using below

/-- Wherever the way has got to, the chain has an end; by induction on how many more variables there
can be.
-/
theorem Way.exists_end (way : b.Way start name passed) (more : Nat)
    (enough : b.size < more + passed.length)
    : ∃ last passed' chainEnd, b.Way start last passed' ∧ b.EndsIn last passed' chainEnd := by
  induction more generalizing name passed with
  | zero => exact absurd way.length_le (by omega)
  | succ more ih =>
    rcases way.ends_or_onward with ⟨chainEnd, ends⟩ | ⟨next, onward⟩
    · exact ⟨name, passed, chainEnd, way, ends⟩
    · exact ih onward (by simp only [List.length_cons]; omega)

-- --------------------------------------------------------------------------------------
-- The search for the end
-- --------------------------------------------------------------------------------------

theorem EndsIn.chase_eq (ends : b.EndsIn name passed chainEnd) (steps : Nat)
    : b.chase (steps + 1) (name :: passed) name = some chainEnd := by
  cases ends with
  | unbound unbound => simp [chase, unbound]
  | value bound notBare => simp [chase, bound, notBare]
  | cycle bound isVariable met =>
    simp only [chase, bound, bareVariable?, isVariable, if_true]
    rw [if_pos (List.contains_iff_mem.mpr met)]

/-- The search comes along the way, a step for each variable that is passed. -/
theorem Way.chase_eq (way : b.Way start name passed) (steps : Nat)
    : b.chase (steps + passed.length) [start] start = b.chase steps (name :: passed) name := by
  induction way generalizing steps with
  | here => rfl
  | @onward name next passed _ bound isVariable fresh ih =>
    rw [List.length_cons, Nat.add_comm passed.length 1, ← Nat.add_assoc, ih]
    simp only [chase, bound, bareVariable?, isVariable, if_true]
    rw [if_neg (by simpa using fresh)]

/-- The search has not come to an end before it has come along the way, by induction on the way. -/
theorem Way.chase_eq_none (way : b.Way start name passed) {steps : Nat}
    (few : steps ≤ passed.length)
    : b.chase steps [start] start = none := by
  induction way generalizing steps with
  | here =>
    obtain rfl := Nat.le_zero.mp few
    rfl
  | @onward name next passed way bound isVariable fresh ih =>
    rcases Nat.le_or_eq_of_le_succ few with fewer | rfl
    · exact ih fewer
    · have reached := (Way.onward way bound isVariable fresh).chase_eq 0
      rw [Nat.zero_add] at reached
      exact reached

/-- The search for the end takes as many steps as there are variables on the way. -/
theorem Way.chase_eq_ite (way : b.Way start name passed) (ends : b.EndsIn name passed chainEnd)
    (steps : Nat)
    : b.chase steps [start] start = if passed.length < steps then some chainEnd else none := by
  split
  · rename_i enough
    obtain ⟨more, rfl⟩ := Nat.exists_eq_add_of_lt enough
    rw [show passed.length + more + 1 = (more + 1) + passed.length by omega, way.chase_eq,
      ends.chase_eq]
  · rename_i few
    exact way.chase_eq_none (Nat.not_lt.mp few)

theorem Way.chainEnd?_eq (way : b.Way start name passed) (ends : b.EndsIn name passed chainEnd)
    : b.chainEnd? start = some chainEnd := by
  rw [chainEnd?, way.chase_eq_ite ends, if_pos (Nat.lt_succ_of_le way.length_le)]

theorem exists_way (b : Bindings) (start : String)
    : ∃ name passed chainEnd, b.Way start name passed ∧ b.EndsIn name passed chainEnd :=
  Way.here.exists_end (b.size + 1) (Nat.lt_succ_self _)

/-- Every chain of bare variables ends. -/
theorem chainEnd?_isSome (b : Bindings) (name : String) : (b.chainEnd? name).isSome := by
  obtain ⟨last, passed, chainEnd, way, ends⟩ := b.exists_way name
  exact Option.isSome_of_eq_some (way.chainEnd?_eq ends)

/-- The end that is found is that of a way. -/
theorem exists_way_of_chainEnd? (found : b.chainEnd? start = some chainEnd)
    : ∃ name passed, b.Way start name passed ∧ b.EndsIn name passed chainEnd := by
  obtain ⟨name, passed, chainEnd', way, ends⟩ := b.exists_way start
  obtain rfl := Option.some.inj ((way.chainEnd?_eq ends).symm.trans found)
  exact ⟨name, passed, way, ends⟩

theorem get?_of_chainEnd?_unbound {last : String} (found : b.chainEnd? start = some (.unbound last))
    : b.get? last = none := by
  obtain ⟨name, passed, -, ends⟩ := exists_way_of_chainEnd? found
  cases ends with
  | unbound unbound => exact unbound

theorem exists_bound_of_chainEnd?_value {v : Value} (found : b.chainEnd? start = some (.value v))
    : ∃ key, b.get? key = some v ∧ bareVariable? v = none := by
  obtain ⟨name, passed, -, ends⟩ := exists_way_of_chainEnd? found
  cases ends with
  | value bound notBare => exact ⟨name, bound, notBare⟩

-- --------------------------------------------------------------------------------------
-- Short chains
-- --------------------------------------------------------------------------------------

theorem chainEnd?_of_unbound (unbound : b.get? name = none)
    : b.chainEnd? name = some (.unbound name) :=
  Way.here.chainEnd?_eq (.unbound unbound)

/-- A chain ends at once at what is no bare variable. -/
theorem chainEnd?_of_bound {v : Value} (bound : b.get? name = some v)
    (notBare : bareVariable? v = none)
    : b.chainEnd? name = some (.value v) :=
  Way.here.chainEnd?_eq (.value bound notBare)

/-- A variable that is bound to itself closes its chain. -/
theorem chainEnd?_of_own (isVariable : Variable.isVariable name)
    (bound : b.get? name = some (.string name))
    : b.chainEnd? name = some (.cycle (.string name)) :=
  Way.here.chainEnd?_eq (.cycle bound isVariable (List.mem_cons_self ..))

/-- A chain ends at the variable that a variable is bound to if it ends there by itself. -/
theorem chainEnd?_of_bare_unbound {next : String} (isVariable : Variable.isVariable next)
    (bound : b.get? name = some (.string next)) (unbound : b.get? next = none)
    : b.chainEnd? name = some (.unbound next) := by
  have differ : next ≠ name := fun same => by simp [same, bound] at unbound
  exact (Way.here.onward bound isVariable (by simpa using differ)).chainEnd?_eq (.unbound unbound)

theorem chainEnd?_of_bare_own {next : String} (isVariable : Variable.isVariable next)
    (bound : b.get? name = some (.string next)) (own : b.get? next = some (.string next))
    : b.chainEnd? name = some (.cycle (.string next)) := by
  by_cases same : next = name
  · subst same
    exact chainEnd?_of_own isVariable own
  · exact (Way.here.onward bound isVariable (by simpa using same)).chainEnd?_eq
      (.cycle own isVariable (List.mem_cons_self ..))

end

end Bindings

end RuleEngine
