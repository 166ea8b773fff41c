import RuleEngine.Pattern.Basic
import RuleEngine.Pattern.Chain
import RuleEngine.Proofs.Pattern.Texts
import RuleEngine.Value.Lemmas

/-! Chains of rests. Unlike a chain of bare variables, one that goes on through lists whose only
item is a rest need not end; if it stops, it stops within as many steps as there are texts.
-/

namespace RuleEngine

/-- The variable whose rest is all that a pattern asks of a list. -/
def Pattern.soleRest? : Pattern → Option String
  | seq [rest name] => some name
  | _ => none

theorem Pattern.eq_of_soleRest? {p : Pattern} {name : String} (sole : p.soleRest? = some name)
    : p = seq [rest name] := by
  unfold soleRest? at sole
  split at sole
  · rw [Option.some.inj sole]
  · cases sole

/-- Only a list whose single item is a text that asks for a rest is read as a rest alone. -/
theorem Pattern.exists_text_of_soleRest? {v : Value} {name : String}
    (sole : (ofValue v).soleRest? = some name)
    : ∃ s ∈ v.texts, Variable.isRest s ∧ name = Variable.ofName s := by
  have pattern := eq_of_soleRest? sole
  cases v with
  | string s =>
    simp only [ofValue, ofText] at pattern
    split at pattern
    · cases pattern
    · split at pattern <;> cases pattern
  | list items =>
    simp only [ofValue, seq.injEq] at pattern
    cases items with
    | nil => cases pattern
    | cons item items =>
      cases item with
      | string s =>
        simp only [ofItems, List.cons.injEq] at pattern
        obtain ⟨first, -⟩ := pattern
        split at first
        · rename_i isRest
          exact ⟨s, by simp [Value.texts, Value.textsItems], isRest, (rest.inj first).symm⟩
        · unfold ofText at first
          split at first
          · cases first
          · split at first <;> cases first
      | _ => simp [ofItems, ofValue] at pattern
  | _ => simp [ofValue] at pattern

namespace Bindings

variable {b : Bindings}

/-- The variable that a variable leads to through a list whose only item is the rest of the
former.
-/
def nextRest? (b : Bindings) (name : String) : Option String :=
  match b.chainEnd? name with
  | some (.value v) => (Pattern.ofValue v).soleRest?
  | _ => none

/-- A variable leads on only through a text that asks for a rest. -/
theorem exists_text_of_nextRest? {good : Value → Prop} (all : b.All good) {name next : String}
    (leads : b.nextRest? name = some next)
    : ∃ v, good v ∧ ∃ s ∈ v.texts, Variable.isRest s ∧ next = Variable.ofName s := by
  unfold nextRest? at leads
  split at leads
  · rename_i v ends
    obtain ⟨key, bound, -⟩ := exists_bound_of_chainEnd?_value ends
    exact ⟨v, all key v bound, Pattern.exists_text_of_soleRest? leads⟩
  · cases leads

/-- From a variable it takes a number of steps to where no rest leads on. -/
inductive Stops (b : Bindings) : String → Nat → Prop where
  | here {name : String} (last : b.nextRest? name = none) : Stops b name 0
  | onward {name next : String} {n : Nat} (leads : b.nextRest? name = some next)
    (stops : Stops b next n) : Stops b name (n + 1)

/-- From a variable rests lead on and on. -/
def Endless (b : Bindings) (name : String) : Prop := ∀ n, ¬b.Stops name n

theorem Endless.next {name : String} (endless : b.Endless name)
    : ∃ next, b.nextRest? name = some next ∧ b.Endless next := by
  cases leads : b.nextRest? name with
  | none => exact absurd (.here leads) (endless 0)
  | some next => exact ⟨next, rfl, fun n stops => endless (n + 1) (.onward leads stops)⟩

/-- The number of steps is determined, by induction on them. -/
theorem Stops.unique {name : String} {n m : Nat} (stops : b.Stops name n) (again : b.Stops name m)
    : n = m := by
  induction stops generalizing m with
  | here last =>
    cases again with
    | here => rfl
    | onward leads => simp [last] at leads
  | onward leads _ ih =>
    cases again with
    | here last => simp [leads] at last
    | onward leads' stops' =>
      obtain rfl := Option.some.inj (leads.symm.trans leads')
      rw [ih stops']

/-- The variables that rests lead to differ, because from each of them it takes a different number
of steps; by induction on the steps.
-/
theorem Stops.path {S : List String} (texts : b.All (·.texts ⊆ S)) {name : String} {n : Nat}
    (stops : b.Stops name n)
    : ∃ path : List String, path.length = n ∧ path.Nodup ∧ path ⊆ S.map Variable.ofName
        ∧ ∀ next ∈ path, ∃ m < n, b.Stops next m := by
  induction stops with
  | here => exact ⟨[], rfl, .nil, List.nil_subset _, nofun⟩
  | @onward name next n leads stops ih =>
    obtain ⟨path, length, distinct, inside, fewer⟩ := ih
    refine ⟨next :: path, by simp [length], List.nodup_cons.mpr ⟨?_, distinct⟩, ?_, ?_⟩
    · intro again
      obtain ⟨m, below, stops'⟩ := fewer next again
      exact Nat.ne_of_lt below (stops'.unique stops)
    · obtain ⟨v, among, s, here, -, rfl⟩ := exists_text_of_nextRest? texts leads
      exact List.cons_subset.mpr ⟨List.mem_map_of_mem (among here), inside⟩
    · intro other member
      rcases List.mem_cons.mp member with rfl | later
      · exact ⟨n, Nat.lt_succ_self n, stops⟩
      · obtain ⟨m, below, stops'⟩ := fewer other later
        exact ⟨m, Nat.lt_succ_of_lt below, stops'⟩

/-- Where rests stop leading on, they do so within as many steps as there are texts. -/
theorem Stops.le_length {S : List String} (texts : b.All (·.texts ⊆ S)) {name : String} {n : Nat}
    (stops : b.Stops name n)
    : n ≤ S.length := by
  obtain ⟨path, rfl, distinct, inside, -⟩ := stops.path texts
  simpa using distinct.length_le_of_subset inside

end Bindings

end RuleEngine
