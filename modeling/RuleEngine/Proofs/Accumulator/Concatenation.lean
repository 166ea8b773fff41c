import RuleEngine.Accumulator
import RuleEngine.Proofs.Query.Order
import RuleEngine.Proofs.Value.Distinct
import RuleEngine.Proofs.Value.Sameness

/-! Aggregates of facts that are put together. What an aggregate gives for two lists of facts, one
after the other, is made of what it gives for each of them: counts are added, collected values put
together, and of the least or the greatest values one is picked.
-/

namespace RuleEngine

open Std

instance : TransCmp Instant.compare :=
  inferInstanceAs (TransCmp (compareLex (compareOn Instant.seconds) (compareOn Instant.nanos)))

instance : LawfulEqCmp Instant.compare where
  eq_of_compare {a b} same := by
    cases a
    cases b
    simpa [Instant.compare, Ordering.then_eq_eq] using same

/-- Of two results the one that comes first in a direction. One that stands for no value gives way
to the other one.
-/
def Value.firstOf (direction : Direction) (v w : Value) : Value :=
  if v.isNil then w
  else if w.isNil then v
  else if Query.compareValues direction w v = .lt then w else v

/-- The aggregates that pick one of the values that they can use: the least or the greatest, which
is the first in a direction. A marker stands for none. What is used of a value is the date that it
gives, if any, or the text or the truth value that it is.
-/
inductive Aggregate.Picks
    : Aggregate → Direction → Value → (Value → Option Value) → Prop where
  | minDate : Picks .minDate .ascending .null fun v => (Accumulator.instant? v).map .date
  | maxDate : Picks .maxDate .descending .null fun v => (Accumulator.instant? v).map .date
  | minString
    : Picks .minString .ascending .undefined fun v => (Accumulator.plainText? v).map .string
  | maxString
    : Picks .maxString .descending .undefined fun v => (Accumulator.plainText? v).map .string
  | minBoolean : Picks .minBoolean .ascending .null fun v => v.bool?.map .bool
  | maxBoolean : Picks .maxBoolean .descending .null fun v => v.bool?.map .bool

namespace Accumulator

-- --------------------------------------------------------------------------------------
-- The first item
-- --------------------------------------------------------------------------------------

section

variable {α : Type} {order : α → α → Ordering}

/-- Of two items the one that comes first in an order; if they tie, the one that is named first. -/
def earlier (order : α → α → Ordering) (x y : α) : α := if order y x == .lt then y else x

theorem isLE_iff_not_lt [OrientedCmp order] {x y : α} : (order x y).isLE ↔ ¬order y x = .lt := by
  have turned : order x y = (order y x).swap := OrientedCmp.eq_swap
  rw [turned]
  cases order y x <;> simp

instance [TransCmp order] : Std.Associative (earlier order) where
  assoc x y z := by
    simp only [earlier, beq_iff_eq]
    by_cases second : order y x = .lt
    · by_cases third : order z y = .lt
      · simp [second, third, TransCmp.lt_trans third second]
      · simp [second, third]
    · by_cases third : order z y = .lt
      · simp [second, third]
      · have notThird : ¬order z x = .lt := by
          rw [← isLE_iff_not_lt] at second third ⊢
          exact TransCmp.isLE_trans second third
        simp [second, third, notThird]

instance [TransCmp order] [LawfulEqCmp order] : Std.Commutative (earlier order) where
  comm x y := by
    simp only [earlier, beq_iff_eq]
    have turned : order x y = (order y x).swap := OrientedCmp.eq_swap
    rw [turned]
    cases compared : order y x with
    | lt => simp
    | gt => simp
    | eq => simp [LawfulEqCmp.eq_of_compare compared]

theorem first?_cons (x : α) (xs : List α)
    : first? order (x :: xs) = some (xs.foldl (earlier order) x) :=
  rfl

/-- The first item of two lists is the earlier one of the first items of both. -/
theorem first?_append [TransCmp order] (xs ys : List α)
    : first? order (xs ++ ys) = (first? order xs).merge (earlier order) (first? order ys) := by
  cases xs with
  | nil => cases ys <;> rfl
  | cons x xs =>
    cases ys with
    | nil => simp [first?]
    | cons y ys =>
      simp only [List.cons_append, first?_cons, List.foldl_append, List.foldl_cons,
        List.foldl_assoc, Option.merge]

/-- The first item does not depend on the order in which the items are listed. -/
theorem first?_perm [TransCmp order] [LawfulEqCmp order] {xs ys : List α} (perm : xs.Perm ys)
    : first? order xs = first? order ys := by
  induction perm with
  | nil => rfl
  | cons x _ ih =>
    rw [← List.singleton_append, first?_append, ih, ← first?_append, List.singleton_append]
  | swap x y xs =>
    have swapped : first? order ([y] ++ [x]) = first? order ([x] ++ [y]) := by
      rw [first?_append, first?_append]
      exact Std.Commutative.comm _ _
    have both (a b : α) : a :: b :: xs = [a] ++ [b] ++ xs := rfl
    rw [both, both, first?_append, swapped, ← first?_append]
  | trans _ _ ih ih' => exact ih.trans ih'

/-- The last item in an order is the first one in the order turned around. -/
theorem last?_eq_first? [OrientedCmp order] : last? order = first? (flip order) := by
  funext xs
  cases xs with
  | nil => rfl
  | cons x xs =>
    have turned (y best : α) : (order y best == .gt) = (flip order y best == .lt) := by
      have swapped : order y best = (order best y).swap := OrientedCmp.eq_swap
      rw [flip, swapped]
      cases order best y <;> rfl
    simp only [last?, first?, turned]

instance [OrientedCmp order] [LawfulEqCmp order] : LawfulEqCmp (flip order) where
  eq_of_compare {x y} same := (LawfulEqCmp.eq_of_compare (show order y x = .eq from same)).symm

end

-- --------------------------------------------------------------------------------------
-- What is read
-- --------------------------------------------------------------------------------------

/-- What is read from a fact: what it holds under the name of the field, or undefined if it holds
nothing there. Without a field it is the fact.
-/
inductive Reads : Option String → Fact → Value → Prop where
  | fact (f : Fact) : Reads none f (.fact f)
  | present {name : String} {f : Fact} {v : Value} (found : f.get? name = some v)
    : Reads (some name) f v
  | missing {name : String} {f : Fact} (absent : f.get? name = none)
    : Reads (some name) f .undefined

theorem reads_iff {field : Option String} {f : Fact} {v : Value} (a : Aggregate)
    : Reads field f v ↔ project ⟨a, field⟩ f = v := by
  constructor
  · intro read
    cases read with
    | fact => rfl
    | present found | missing found => simp [project, Value.ofOption, found]
  · rintro rfl
    unfold project
    cases field with
    | none => exact .fact f
    | some name =>
      dsimp only
      cases found : f.get? name with
      | none => exact .missing found
      | some v => exact .present found

theorem forall₂_reads (a : Accumulator) (facts : List Fact)
    : List.Forall₂ (Reads a.field) facts (facts.map a.project) :=
  List.forall₂_map_right_iff.mpr (List.forall₂_same.mpr fun _ _ => (reads_iff a.aggregate).mpr rfl)

-- --------------------------------------------------------------------------------------
-- Picking
-- --------------------------------------------------------------------------------------

/-- How an aggregate picks: it takes items from the values that it can use, and gives the first one
in an order of the items that is the order of the values it gives.
-/
structure Choice (a : Aggregate) (direction : Direction) (marker : Value)
    (use? : Value → Option Value) where
  Item : Type
  item? : Value → Option Item
  present : Item → Value
  order : Item → Item → Ordering
  trans : TransCmp order
  lawful : LawfulEqCmp order
  nil : marker.isNil
  notNil : ∀ x, (present x).isNil = false
  used : ∀ v, use? v = (item? v).map present
  ordered : ∀ x y, Query.compareValues direction (present x) (present y) = order x y
  applied : ∀ field facts,
    apply ⟨a, field⟩ facts
      = orElse marker present (first? order ((facts.map (project ⟨a, field⟩)).filterMap item?))

theorem choice_of_picks {a : Aggregate} {direction : Direction} {marker : Value}
    {use? : Value → Option Value} (picks : a.Picks direction marker use?)
    : Nonempty (Choice a direction marker use?) := by
  cases picks with
  | minDate =>
    exact ⟨Instant, instant?, .date, Instant.compare, inferInstance, inferInstance, rfl,
      fun _ => rfl, fun _ => rfl, fun _ _ => rfl, fun _ _ => rfl⟩
  | maxDate =>
    exact ⟨Instant, instant?, .date, flip Instant.compare, inferInstance, inferInstance, rfl,
      fun _ => rfl, fun _ => rfl, fun _ _ => rfl, fun _ _ => by rw [← last?_eq_first?]; rfl⟩
  | minString =>
    exact ⟨String, plainText?, .string, compare, inferInstance, inferInstance, rfl,
      fun _ => rfl, fun _ => rfl, fun _ _ => rfl, fun _ _ => rfl⟩
  | maxString =>
    exact ⟨String, plainText?, .string, flip compare, inferInstance, inferInstance, rfl,
      fun _ => rfl, fun _ => rfl, fun _ _ => rfl, fun _ _ => by rw [← last?_eq_first?]; rfl⟩
  | minBoolean =>
    exact ⟨Bool, Value.bool?, .bool, compare, inferInstance, inferInstance, rfl,
      fun _ => rfl, fun _ => rfl, fun _ _ => rfl, fun _ _ => rfl⟩
  | maxBoolean =>
    exact ⟨Bool, Value.bool?, .bool, flip compare, inferInstance, inferInstance, rfl,
      fun _ => rfl, fun _ => rfl, fun _ _ => rfl, fun _ _ => by rw [← last?_eq_first?]; rfl⟩

section

variable {a : Aggregate} {direction : Direction} {marker : Value} {use? : Value → Option Value}

/-- The earlier of two items, each of which may be missing, gives the first of what they give. -/
theorem Choice.orElse_merge (c : Choice a direction marker use?) (o o' : Option c.Item)
    : orElse marker c.present (o.merge (earlier c.order) o')
      = (orElse marker c.present o).firstOf direction (orElse marker c.present o') := by
  cases o with
  | none => cases o' <;> simp [orElse, Value.firstOf, Option.merge, c.nil]
  | some x =>
    cases o' with
    | none => simp [orElse, Value.firstOf, Option.merge, c.nil, c.notNil]
    | some y =>
      simp only [orElse, Value.firstOf, Option.merge, c.notNil, c.ordered, earlier, beq_iff_eq]
      split <;> rfl

theorem apply_append_of_picks (picks : a.Picks direction marker use?) (field : Option String)
    (xs ys : List Fact)
    : apply ⟨a, field⟩ (xs ++ ys)
      = (apply ⟨a, field⟩ xs).firstOf direction (apply ⟨a, field⟩ ys) := by
  obtain ⟨c⟩ := choice_of_picks picks
  have := c.trans
  rw [c.applied, c.applied, c.applied, List.map_append, List.filterMap_append, first?_append,
    c.orElse_merge]

theorem apply_nil_of_picks (picks : a.Picks direction marker use?) (field : Option String)
    : apply ⟨a, field⟩ [] = marker := by
  cases picks <;> rfl

/-- Of one fact an aggregate gives what it can use of the value that it reads. -/
theorem apply_singleton_of_picks (picks : a.Picks direction marker use?) {field : Option String}
    {f : Fact} {v : Value} (read : Reads field f v)
    : apply ⟨a, field⟩ [f] = (use? v).getD marker := by
  obtain ⟨c⟩ := choice_of_picks picks
  rw [c.applied, c.used, List.map_singleton, (reads_iff a).mp read]
  cases item : c.item? v <;> simp [item, orElse, first?]

theorem apply_perm_of_picks (picks : a.Picks direction marker use?) (field : Option String)
    {xs ys : List Fact} (perm : xs.Perm ys)
    : apply ⟨a, field⟩ xs = apply ⟨a, field⟩ ys := by
  obtain ⟨c⟩ := choice_of_picks picks
  have := c.trans
  have := c.lawful
  rw [c.applied, c.applied, first?_perm ((perm.map _).filterMap _)]

end

-- --------------------------------------------------------------------------------------
-- Concatenation
-- --------------------------------------------------------------------------------------

theorem distinct_append (vs ws : List Value)
    : distinct (vs ++ ws)
      = distinct vs ++ (distinct ws).filter fun w => !(distinct vs).any (·.same w) :=
  keepFirst_append Value.same (fun _ _ _ => Value.same_trans) vs ws

theorem countP_distinct {vs : List Value} {v : Value} (member : v ∈ vs)
    : (distinct vs).countP (·.same v) = 1 :=
  countP_keepFirst Value.same (fun _ _ _ => Value.same_trans) Value.same_refl
    (fun _ _ => Value.same_symm) member

theorem map_filter_distinct (vs : List Value)
    : (vs.zipIdx.filter (standsFirst Value.same vs)).map Prod.fst = distinct vs :=
  map_filter_standsFirst Value.same (fun _ _ _ => Value.same_trans) vs

/-- The aggregates of two lists of facts, one after the other. The count is the sum of both counts.
What is collected is collected from the one and then from the other, a value for each fact. An
aggregate that picks a value gives what it can use of a single fact, picks one from the two that it
picks for each list, the marker standing for none, and does not depend on the order of the facts.
The distinct values are those of the one and then, of those of the other, the ones that are new;
together they hold each collected value exactly once, where it stands first.
-/
theorem aggregates_of_append (field : Option String) (xs ys : List Fact)
    : ((∀ facts, apply ⟨.count, field⟩ facts = .ofNat facts.length)
        ∧ apply ⟨.count, field⟩ (xs ++ ys) = .ofNat (xs.length + ys.length))
      ∧ (∃ vs ws,
          apply ⟨.collect, field⟩ xs = .list vs ∧ List.Forall₂ (Reads field) xs vs
          ∧ apply ⟨.collect, field⟩ ys = .list ws ∧ List.Forall₂ (Reads field) ys ws
          ∧ apply ⟨.collect, field⟩ (xs ++ ys) = .list (vs ++ ws))
      ∧ (∀ a direction marker use?, a.Picks direction marker use? →
          (∀ f v, Reads field f v → apply ⟨a, field⟩ [f] = (use? v).getD marker)
          ∧ apply ⟨a, field⟩ (xs ++ ys)
            = (apply ⟨a, field⟩ xs).firstOf direction (apply ⟨a, field⟩ ys)
          ∧ apply ⟨a, field⟩ [] = marker
          ∧ marker.firstOf direction (apply ⟨a, field⟩ xs) = apply ⟨a, field⟩ xs
          ∧ (apply ⟨a, field⟩ xs).firstOf direction marker = apply ⟨a, field⟩ xs
          ∧ ∀ facts, facts.Perm (xs ++ ys) →
            apply ⟨a, field⟩ facts = apply ⟨a, field⟩ (xs ++ ys))
      ∧ ∃ vs ds ds' both,
          apply ⟨.collect, field⟩ (xs ++ ys) = .list vs
          ∧ apply ⟨.distinctCollect, field⟩ xs = .list ds
          ∧ apply ⟨.distinctCollect, field⟩ ys = .list ds'
          ∧ apply ⟨.distinctCollect, field⟩ (xs ++ ys) = .list both
          ∧ both = ds ++ ds'.filter (fun d => !ds.any (·.same d))
          ∧ both = (vs.zipIdx.filter (standsFirst Value.same vs)).map Prod.fst
          ∧ ∀ v ∈ vs, both.countP (·.same v) = 1 := by
  refine ⟨⟨fun facts => rfl, ?_⟩, ?_, fun a direction marker use? picks => ?_, ?_⟩
  · simp [apply]
  · exact ⟨_, _, rfl, forall₂_reads ⟨.collect, field⟩ xs, rfl,
      forall₂_reads ⟨.collect, field⟩ ys, by simp [apply]⟩
  · have empty := apply_nil_of_picks picks field
    refine ⟨fun f v read => apply_singleton_of_picks picks read,
      apply_append_of_picks picks field xs ys, empty, ?_, ?_,
      fun facts perm => apply_perm_of_picks picks field perm⟩
    · rw [← empty, ← apply_append_of_picks picks, List.nil_append]
    · rw [← empty, ← apply_append_of_picks picks, List.append_nil]
  · let vs := xs.map (project ⟨.distinctCollect, field⟩)
    let ws := ys.map (project ⟨.distinctCollect, field⟩)
    have read : (xs ++ ys).map (project ⟨.distinctCollect, field⟩) = vs ++ ws := List.map_append
    refine ⟨vs ++ ws, distinct vs, distinct ws, distinct (vs ++ ws), ?_, rfl, rfl, ?_,
      distinct_append vs ws, (map_filter_distinct _).symm, fun v member => countP_distinct member⟩
    · exact congrArg Value.list read
    · exact congrArg (Value.list ∘ distinct) read

end Accumulator

namespace Sample

/-- A reading that was taken some seconds after the first day of 1970 began. -/
def readingAt (id : Nat) (seconds : Int) : Fact :=
  .ofRecord ⟨id⟩ "Reading" (.ofList [("at", .date ⟨seconds, 0⟩), ("level", .number .one)])

/-- A reading that has no date. -/
def undated : Fact := .ofRecord ⟨0⟩ "Reading" (.ofList [("level", .number .one)])

/-- A reading without a date counts for nothing among the dates, wherever it is listed, and is
undefined among the values that are collected. Of equal levels one is kept.
-/
theorem readings_aggregates_of_append
    : Accumulator.apply ⟨.minDate, some "at"⟩ [undated] = .null
      ∧ Accumulator.apply ⟨.minDate, some "at"⟩ ([undated] ++ [readingAt 1 9])
        = .date ⟨9, 0⟩
      ∧ Accumulator.apply ⟨.minDate, some "at"⟩ [readingAt 1 9, undated] = .date ⟨9, 0⟩
      ∧ Accumulator.apply ⟨.collect, some "at"⟩ ([undated] ++ [readingAt 1 9])
        = .list [.undefined, .date ⟨9, 0⟩]
      ∧ Accumulator.apply ⟨.distinctCollect, some "level"⟩ ([undated] ++ [readingAt 1 9])
        = .list [.number .one] := by
  obtain ⟨-, ⟨vs, ws, left, -, right, -, collected⟩, picks, -⟩ :=
    Accumulator.aggregates_of_append (some "at") [undated] [readingAt 1 9]
  obtain ⟨-, -, -, -, ds, ds', both, -, kept, kept', together, rfl, -⟩ :=
    Accumulator.aggregates_of_append (some "level") [undated] [readingAt 1 9]
  obtain ⟨alone, merged, -, -, -, anyOrder⟩ := picks _ _ _ _ .minDate
  have single : Accumulator.apply ⟨.minDate, some "at"⟩ [readingAt 1 9] = .date ⟨9, 0⟩ :=
    alone (readingAt 1 9) (.date ⟨9, 0⟩) (.present rfl)
  have none : Accumulator.apply ⟨.minDate, some "at"⟩ [undated] = .null :=
    alone undated .undefined (.missing rfl)
  rw [none, single] at merged
  obtain rfl : [.undefined] = vs := Value.list.inj left
  obtain rfl : [.date ⟨9, 0⟩] = ws := Value.list.inj right
  obtain rfl : [.number .one] = ds := Value.list.inj kept
  obtain rfl : [.number .one] = ds' := Value.list.inj kept'
  refine ⟨none, merged, ?_, collected, together⟩
  rw [anyOrder [readingAt 1 9, undated] (.swap _ _ _), merged]
  rfl

end Sample

end RuleEngine
