import RuleEngine.Proofs.Expr.Agreement
import RuleEngine.Proofs.Join.Tuples

/-! Stages of a join. The matches of the first conditions are the stages that the others start from.
What a stage binds to a variable stays bound to the end, so the guards that were true there still
are.
-/

namespace RuleEngine

/-- A name begins with a question mark, as those of variables do. -/
def Variable.IsMarked (name : String) : Prop := name.toList.head? = some '?'

/-- An expression looks at variables only, and not at facts by their bare names. -/
def Expr.OfVariables (e : Expr) : Prop := ∀ name ∈ e.varNames, Variable.IsMarked name

/-- A condition names its fact, if at all, without a question mark in front. -/
def Condition.NamesBare : Condition → Prop
  | pattern c => ∀ name, c.factName = some name → ¬Variable.IsMarked name
  | accumulate _ | lacks _ => True

/-- The name that a condition is given loses its question marks. -/
theorem Condition.not_isMarked_bareName (name : String)
    : ¬Variable.IsMarked (Condition.bareName name) := by
  intro marked
  have first := List.head?_dropWhile_not (· == '?') name.toList
  simp only [Variable.IsMarked, bareName, String.toList_ofList] at marked
  simp [marked] at first

theorem Condition.namesBare_matching (kind : String) (p : Pattern) (name : Option String)
    (guards : List Expr)
    : (Condition.matching kind p name guards).NamesBare := by
  intro bare named
  obtain ⟨given, -, rfl⟩ := Option.map_eq_some_iff.mp named
  exact not_isMarked_bareName given

/-- A match of conditions with a match of the conditions that follow them. -/
def Match.followedBy (stage m : Match) : Match := ⟨m.bindings, stage.consumed ++ m.consumed⟩

-- --------------------------------------------------------------------------------------
-- Single conditions
-- --------------------------------------------------------------------------------------

/-- A match keeps the variables, because it keeps all that is bound. -/
theorem Pattern.Matches.extendsOn {among : String → Prop} {p : Pattern} {v : Value}
    {b b' : Bindings} (found : p.Matches v b b')
    : b'.ExtendsOn among b :=
  .of_extends (extends_of_match? found)

/-- The name of a fact is the only binding that is overwritten, and it is no variable. -/
theorem PatternCondition.extendsOn_of_admit? {c : PatternCondition} {f : Fact} {b b' : Bindings}
    (bare : (Condition.pattern c).NamesBare) (admitted : c.admit? f b = some b')
    : b'.ExtendsOn Variable.IsMarked b := by
  obtain ⟨⟨matched, found, names⟩, -⟩ := admit?_eq_some_iff.mp admitted
  refine .trans ?_ found.extendsOn
  cases factName : c.factName with
  | none =>
    rw [factName] at names
    cases names
    exact .refl b'
  | some name =>
    rw [factName] at names
    cases names with
    | named agrees => exact .trans (.insert (bare name factName) _) agrees.extendsOn

namespace Store

variable {s : Store}

/-- Every match keeps the variables that the join begins with, by induction on the conditions. -/
theorem extendsOn_of_mem_join {conditions : List Condition} {b : Bindings} {m : Match}
    (bare : ∀ c ∈ conditions, c.NamesBare) (found : m ∈ s.join conditions b)
    : m.bindings.ExtendsOn Variable.IsMarked b := by
  induction conditions generalizing b m with
  | nil =>
    obtain rfl := List.mem_singleton.mp found
    exact .refl b
  | cons condition rest ih =>
    have others := fun c member => bare c (List.mem_cons_of_mem _ member)
    cases condition with
    | pattern c =>
      obtain ⟨f, -, b', admitted, onward, later, rfl⟩ := mem_join_pattern_iff.mp found
      have first := PatternCondition.extendsOn_of_admit? (bare _ List.mem_cons_self) admitted
      exact (ih others later).trans first
    | accumulate c =>
      obtain ⟨b', agrees, later⟩ := mem_join_accumulate_iff.mp found
      exact (ih others later).trans agrees.extendsOn
    | lacks c => exact ih others (mem_join_lacks_iff.mp found).2

-- --------------------------------------------------------------------------------------
-- Conditions one after the other
-- --------------------------------------------------------------------------------------

/-- A join continues each stage on its own, by induction on the conditions that come first. -/
theorem join_append (s : Store) (earlier later : List Condition) (b : Bindings)
    : s.join (earlier ++ later) b
      = (s.join earlier b).flatMap fun stage =>
          (s.join later stage.bindings).map stage.followedBy := by
  induction earlier generalizing b with
  | nil =>
    have unchanged : Match.followedBy ⟨b, []⟩ = id := rfl
    simp [join_nil, unchanged]
  | cons condition rest ih =>
    rw [List.cons_append]
    cases condition with
    | pattern c =>
      rw [join_pattern, join_pattern, List.flatMap_assoc]
      congr 1
      funext f
      cases c.admit? f b with
      | none => rfl
      | some b' =>
        simp only [ih b', List.map_flatMap, List.flatMap_map, List.map_map]
        rfl
    | accumulate c =>
      rw [join_accumulate, join_accumulate]
      split
      · rfl
      · exact ih _
    | lacks c =>
      rw [join_lacks, join_lacks]
      split
      · rfl
      · exact ih b

/-- What a stage binds has passed the guards of the condition that leads to it. -/
theorem guardsHold_of_mem_join {before : List Condition} {c : PatternCondition} {b : Bindings}
    {stage : Match} (reached : stage ∈ s.join (before ++ [.pattern c]) b)
    : GuardsHold stage.bindings c.guards := by
  rw [join_append] at reached
  obtain ⟨earlier, -, last⟩ := List.mem_flatMap.mp reached
  obtain ⟨m, found, rfl⟩ := List.mem_map.mp last
  obtain ⟨f, -, b', admitted, onward, ended, rfl⟩ := mem_join_pattern_iff.mp found
  obtain rfl := List.mem_singleton.mp ended
  exact (PatternCondition.admit?_eq_some_iff.mp admitted).2

end Store

/-- Bindings only grow. A match keeps all that was bound, whether it succeeds or fails. A join goes
from stage to stage, and what a stage or the beginning binds to a variable the complete matches
still bind to it; so the guards of the condition that leads to a stage, as far as they look at
variables only, evaluate under each of them to what they did there, which counts as true.
-/
theorem bindings_persist
    : (∀ (p : Pattern) (v : Value) (b : Bindings) (r : MatchResult),
        p.match? v b = some r → r.bindings.Extends b)
      ∧ ∀ (s : Store) (earlier later : List Condition) (b : Bindings),
        (∀ c ∈ earlier ++ later, c.NamesBare) →
        s.join (earlier ++ later) b
            = (s.join earlier b).flatMap (fun stage =>
                (s.join later stage.bindings).map stage.followedBy)
          ∧ ∀ stage ∈ s.join earlier b, ∀ m ∈ s.join later stage.bindings,
            stage.bindings.ExtendsOn Variable.IsMarked b
              ∧ m.bindings.ExtendsOn Variable.IsMarked stage.bindings
              ∧ ∀ before c, earlier = before ++ [.pattern c] →
                ∀ guard ∈ c.guards, guard.OfVariables →
                  ∃ v, guard.evaluate stage.bindings = .ok v ∧ v.isTruthy
                    ∧ guard.evaluate m.bindings = .ok v := by
  refine ⟨fun p v b r => Pattern.extends_of_match?, fun s earlier later b bare => ?_⟩
  refine ⟨s.join_append earlier later b, fun stage reached m found => ?_⟩
  have first := Store.extendsOn_of_mem_join
    (fun c member => bare c (List.mem_append_left _ member)) reached
  have onward := Store.extendsOn_of_mem_join
    (fun c member => bare c (List.mem_append_right _ member)) found
  refine ⟨first, onward, ?_⟩
  rintro before c rfl guard member marked
  obtain ⟨v, value, truthy⟩ := Store.guardsHold_of_mem_join reached guard member
  exact ⟨v, value, truthy, Expr.evaluate_of_extendsOn onward marked value⟩

namespace Sample

/-- A guard that a level is low. -/
def isLow : Expr := .call "===" [.varNamed "a", .lit (.string "low")]

/-- A named reading of a low level. -/
def lowReading : List Condition :=
  [.matching "Reading" (.record [("level", .varNamed "a")]) (some "?first") [isLow]]

/-- All but the first of the conditions for two readings. -/
def otherReading : List Condition := twoReadings.drop 1

/-- A list that fails at its second item, after its first was bound. -/
def failing : Option MatchResult :=
  (Pattern.seq [.varNamed "a", .varNamed "b"]).match? (.list [.string "low", .string "low"])
    (Fields.insert .empty "?b" (.string "high"))

/-- The store has one low reading and one other, and the level that is bound first stays low; the
failing match leaves the variable that it fails at as it was.
-/
theorem lowReading_persists
    : (∃ r, failing = some r ∧ r.isMatch = false ∧ r.bindings.contains "?a" = true
        ∧ r.bindings.get? "?b" = some (.string "high"))
      ∧ ∃ s : Store, s.Built
        ∧ (s.join (lowReading ++ otherReading) .empty).map (·.consumed) = [[⟨1⟩, ⟨3⟩]]
        ∧ ∀ stage ∈ s.join lowReading .empty, ∀ m ∈ s.join otherReading stage.bindings,
            m.bindings.ExtendsOn Variable.IsMarked stage.bindings
              ∧ ∃ v, isLow.evaluate stage.bindings = .ok v ∧ v.isTruthy
                ∧ isLow.evaluate m.bindings = .ok v := by
  obtain ⟨grows, stages⟩ := bindings_persist
  constructor
  · have failed
        : failing.map (fun r => (r.isMatch, r.bindings.contains "?a")) = some (false, true) := by
      decide +kernel
    obtain ⟨r, outcome, parts⟩ := Option.map_eq_some_iff.mp failed
    obtain ⟨isMatch, bound⟩ := Prod.mk.inj parts
    exact ⟨r, outcome, isMatch, bound, grows _ _ _ r outcome "?b" (.string "high") (by simp)⟩
  · have built := built_state .empty
      [levelOf "Reading" "low", levelOf "Place" "low", levelOf "Reading" "high"]
    have bare : ∀ c ∈ lowReading ++ otherReading, c.NamesBare := by
      intro c member
      simp only [lowReading, otherReading, twoReadings, List.drop_succ_cons, List.drop_zero,
        List.cons_append, List.nil_append, List.mem_cons, List.not_mem_nil, or_false] at member
      rcases member with rfl | rfl | rfl | rfl
      · exact Condition.namesBare_matching _ _ _ _
      · trivial
      · trivial
      · exact Condition.namesBare_matching _ _ _ _
    obtain ⟨-, kept⟩ := stages _ lowReading otherReading .empty bare
    refine ⟨_, built, by decide +kernel, fun stage reached m found => ?_⟩
    obtain ⟨-, onward, guards⟩ := kept stage reached m found
    refine ⟨onward, guards [] _ rfl isLow List.mem_cons_self ?_⟩
    intro name occurs
    obtain rfl : name = "?a" := by
      simpa [isLow, Expr.varNamed, Expr.varNames, Expr.varNamesAll, Variable.marked] using occurs
    rfl

end Sample

end RuleEngine
