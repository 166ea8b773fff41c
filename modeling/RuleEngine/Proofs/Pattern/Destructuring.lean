import RuleEngine.Proofs.Pattern.Growth
import RuleEngine.Proofs.Pattern.Outcomes

/-! List patterns with a rest. What comes before the rest takes the beginning of the list, what
comes after it takes the end, and the rest takes all that lies between: no item is left out, and
none is taken twice.
-/

namespace RuleEngine

namespace Pattern

/-- Patterns match as many values, each under what is bound by then. -/
inductive MatchEach : List Pattern → List Value → Bindings → Bindings → Prop where
  | nil (b : Bindings) : MatchEach [] [] b b
  | cons {p : Pattern} {ps : List Pattern} {v : Value} {vs : List Value} {b c b' : Bindings}
    (here : p.match? v b = some ⟨true, c⟩) (others : MatchEach ps vs c b')
    : MatchEach (p :: ps) (v :: vs) b b'

/-- A list falls into what the patterns before a rest take, what the rest takes and what the
patterns after it take; `c` is bound once the first part is matched, and `d` once the rest is.
-/
structure Destructures (head : List Pattern) (name : String) (tail : List Pattern) (vs : List Value)
    (b b' : Bindings) (first middle last : List Value) (c d : Bindings) : Prop where
  /-- No item is left out, and none is taken twice. -/
  parts : first ++ middle ++ last = vs
  front : MatchEach head first b c
  between : (var name).match? (.list middle) c = some ⟨true, d⟩
  back : MatchEach tail last d b'

variable {head tail items : List Pattern} {name : String} {v : Value}
  {vs first middle last : List Value} {b b' c d : Bindings}

theorem MatchEach.length_eq (each : MatchEach items vs b b') : vs.length = items.length := by
  induction each with
  | nil => rfl
  | cons _ _ ih => simp [ih]

/-- What is bound stays bound, by induction on the matches. -/
theorem MatchEach.keeps (each : MatchEach items vs b b') : b'.Extends b := by
  induction each with
  | nil => exact .refl _
  | cons here _ ih => exact ih.trans (extends_of_match? here)

/-- Items that pass on as many values match one by one, by induction on the items. -/
theorem itemsPass_iff_matchEach (fits : vs.length = items.length)
    : ItemsPass items vs b b' ↔ MatchEach items vs b b' := by
  induction items generalizing vs b with
  | nil =>
    obtain rfl := List.length_eq_zero_iff.mp fits
    rw [itemsPass_nil]
    constructor
    · rintro rfl
      exact .nil _
    · rintro ⟨⟩
      rfl
  | cons item items ih =>
    cases vs with
    | nil => cases fits
    | cons v vs =>
      rw [itemsPass_cons]
      constructor
      · rintro ⟨c, here, others⟩
        exact .cons here.match?_eq ((ih (Nat.succ.inj fits)).mp others)
      · rintro ⟨⟩
        rename_i c here others
        exact ⟨c, match?_eq_some_iff.mp here, (ih (Nat.succ.inj fits)).mpr others⟩

-- --------------------------------------------------------------------------------------
-- Where the rest stands
-- --------------------------------------------------------------------------------------

theorem sequence_of_single (single : ∀ p ∈ head ++ tail, p.isRest = false)
    : sequence (head ++ rest name :: tail) = .split head name tail := by
  obtain ⟨before, after⟩ := List.forall_mem_append.mp single
  have noRest : ∀ p ∈ head, (!p.isRest) = true := by simpa using before
  have first : (rest name).isRest = true := rfl
  have noOther : tail.any isRest = false := by simpa using after
  simp [sequence, List.dropWhile_append_of_pos noRest, List.takeWhile_append_of_pos noRest, first,
    noOther]

/-- Of several rests the first is followed by another one. -/
theorem sequence_of_several (several : 2 ≤ items.countP isRest) : sequence items = .ambiguous := by
  have none : (items.takeWhile (!·.isRest)).countP isRest = 0 := by
    rw [List.countP_eq_zero]
    intro p member
    simpa using List.mem_takeWhile_imp member
  have counted : 2 ≤ (items.dropWhile (!·.isRest)).countP isRest := by
    rw [← List.takeWhile_append_dropWhile (p := (!·.isRest)) (l := items), List.countP_append,
      none, Nat.zero_add] at several
    exact several
  unfold sequence
  split
  · rename_i name tail begins
    rw [begins, List.countP_cons_of_pos (by rfl)] at counted
    have another : tail.any isRest := by
      rw [List.any_eq_true, ← List.countP_pos_iff]
      omega
    rw [if_pos another]
  · rename_i begins
    cases dropped : items.dropWhile (!·.isRest) with
    | nil => simp [dropped] at counted
    | cons p ps =>
      have isRest : p.isRest := by
        have stops := List.head_dropWhile_not (fun p : Pattern => !p.isRest) (l := items)
          (by simp [dropped])
        simpa [dropped] using stops
      cases p with
      | rest name => exact absurd dropped (begins name ps)
      | _ => cases isRest

/-- A list pattern with one rest fails at once at lists that are too short for its other items. -/
theorem outcome_seq_short {r : MatchResult} (parts : sequence items = .split head name tail)
    (short : vs.length < head.length + tail.length)
    : Outcome (seq items) (.list vs) b r ↔ r = ⟨false, b⟩ := by
  simp [outcome_iff_succ, matchWithin, Value.list?, matchSequence, parts, short, eq_comm]

-- --------------------------------------------------------------------------------------
-- The parts of a list
-- --------------------------------------------------------------------------------------

/-- Where a list that is long enough is cut. The second cut is not before the first one, and the
three parts are the list again.
-/
theorem cuts_of_le (fits : head.length + tail.length ≤ vs.length)
    : head.length ≤ vs.length - tail.length ∧ vs.length - tail.length + tail.length = vs.length
      ∧ vs.take head.length ++ Value.slice vs head.length (vs.length - tail.length)
        ++ vs.drop (vs.length - tail.length) = vs := by
  have ordered : head.length ≤ vs.length - tail.length := by omega
  refine ⟨ordered, by omega, ?_⟩
  have front : (vs.take (vs.length - tail.length)).take head.length = vs.take head.length := by
    rw [List.take_take, Nat.min_eq_left ordered]
  rw [Value.slice, ← front, List.take_append_drop, List.take_append_drop]

namespace Destructures

theorem length_le (parted : Destructures head name tail vs b b' first middle last c d)
    : head.length + tail.length ≤ vs.length := by
  rw [← parted.parts, ← parted.front.length_eq, ← parted.back.length_eq]
  simp only [List.length_append]
  omega

/-- There is only one way to cut a list. -/
theorem eq_cuts (parted : Destructures head name tail vs b b' first middle last c d)
    : first = vs.take head.length
      ∧ middle = Value.slice vs head.length (vs.length - tail.length)
      ∧ last = vs.drop (vs.length - tail.length) := by
  have fits := parted.length_le
  obtain ⟨-, -, cut⟩ := cuts_of_le fits
  have sameEnd : last.length = (vs.drop (vs.length - tail.length)).length := by
    rw [parted.back.length_eq, List.length_drop]
    omega
  have sameStart : first.length = (vs.take head.length).length := by
    rw [parted.front.length_eq, List.length_take]
    omega
  obtain ⟨upTo, isLast⟩ := List.append_inj' (parted.parts.trans cut.symm) sameEnd
  obtain ⟨isFirst, isMiddle⟩ := List.append_inj upTo sameStart
  exact ⟨isFirst, isMiddle, isLast⟩

/-- A rest that is not bound yet is bound to its part of the list, and stays so. -/
theorem get?_eq (parted : Destructures head name tail vs b b' first middle last c d)
    (unbound : c.get? name = none)
    : d = c.insert name (.list middle) ∧ b'.get? name = some (.list middle) := by
  have bound : (⟨true, d⟩ : MatchResult) = ⟨true, c.insert name (.list middle)⟩ :=
    (outcome_var_of_unbound unbound).mp (match?_eq_some_iff.mp parted.between)
  obtain rfl := (MatchResult.mk.inj bound).2
  exact ⟨rfl, parted.back.keeps name _ (by simp)⟩

end Destructures

/-- Values past the last item are not looked at. -/
theorem itemsPass_append_iff (fits : vs.length = head.length)
    : ItemsPass head (vs ++ last) b b' ↔ MatchEach head vs b b' := by
  have split : ItemsPass (head ++ []) (vs ++ last) b b'
      ↔ ∃ c, ItemsPass head vs b c ∧ ItemsPass [] last c b' := itemsPass_append fits
  rw [List.append_nil] at split
  rw [split, ← itemsPass_iff_matchEach fits]
  constructor
  · rintro ⟨c, pass, rest⟩
    obtain rfl := (itemsPass_nil _).mp rest
    exact pass
  · intro pass
    exact ⟨b', pass, (itemsPass_nil _).mpr rfl⟩

-- --------------------------------------------------------------------------------------
-- List patterns
-- --------------------------------------------------------------------------------------

/-- A list pattern fails at everything that is no list, and binds nothing there. -/
theorem match?_seq_of_no_list (noList : v.list? = none)
    : (seq items).match? v b = some ⟨false, b⟩ :=
  ((outcome_seq_of_none noList).mpr rfl).match?_eq

/-- List patterns match nothing but lists. -/
theorem exists_eq_list_of_match? (matched : (seq items).match? v b = some ⟨true, b'⟩)
    : ∃ vs, v = .list vs := by
  cases isList : v.list? with
  | none =>
    rw [match?_seq_of_no_list isList] at matched
    cases matched
  | some vs => exact ⟨vs, Value.list?_eq_some_iff.mp isList⟩

/-- A list pattern with one rest matches exactly the lists that fall into its parts. -/
theorem match?_list_of_single (single : ∀ p ∈ head ++ tail, p.isRest = false)
    : (seq (head ++ rest name :: tail)).match? (.list vs) b = some ⟨true, b'⟩
      ↔ ∃ first middle last c d, Destructures head name tail vs b b' first middle last c d := by
  have parts : sequence (head ++ rest name :: tail) = .split head name tail :=
    sequence_of_single single
  rw [match?_eq_some_iff]
  constructor
  · intro outcome
    have fits : head.length + tail.length ≤ vs.length := by
      by_contra short
      cases (outcome_seq_short parts (Nat.lt_of_not_le short)).mp outcome
    obtain ⟨ordered, whole, cut⟩ := cuts_of_le fits
    have frontFits : (vs.take head.length).length = head.length := by
      rw [List.length_take]
      omega
    have backFits : (vs.drop (vs.length - tail.length)).length = tail.length := by
      rw [List.length_drop]
      omega
    obtain ⟨c, d, front, between, back⟩ := (outcome_seq_split parts fits).mp outcome
    rw [← List.take_append_drop head.length vs] at front
    exact ⟨_, _, _, c, d, cut, (itemsPass_append_iff frontFits).mp front, between.match?_eq,
      (itemsPass_iff_matchEach backFits).mp back⟩
  · rintro ⟨first, middle, last, c, d, parted⟩
    obtain ⟨-, isMiddle, isLast⟩ := parted.eq_cuts
    refine (outcome_seq_split parts parted.length_le).mpr ⟨c, d, ?_, ?_, ?_⟩
    · rw [← parted.parts, List.append_assoc]
      exact (itemsPass_append_iff parted.front.length_eq).mpr parted.front
    · rw [middleOf, ← isMiddle]
      exact match?_eq_some_iff.mp parted.between
    · rw [← isLast]
      exact (itemsPass_iff_matchEach parted.back.length_eq).mpr parted.back

/-- A list pattern with several rests matches nothing and binds nothing. -/
theorem match?_of_several (several : 2 ≤ items.countP isRest)
    : (seq items).match? v b = some ⟨false, b⟩ := by
  cases isList : v.list? with
  | none => exact match?_seq_of_no_list isList
  | some vs =>
    rw [Value.list?_eq_some_iff.mp isList]
    exact ((outcome_seq_ambiguous (sequence_of_several several)).mpr rfl).match?_eq

/-- A list pattern without a rest matches exactly the lists of its length that match one by one. -/
theorem match?_list_of_no_rests (noRests : ∀ p ∈ items, p.isRest = false)
    : (seq items).match? (.list vs) b = some ⟨true, b'⟩
      ↔ vs.length = items.length ∧ MatchEach items vs b b' := by
  rw [match?_eq_some_iff]
  constructor
  · intro outcome
    have fits : vs.length = items.length := by
      by_contra misfit
      cases (outcome_seq_misfit noRests misfit).mp outcome
    exact ⟨fits, (itemsPass_iff_matchEach fits).mp ((outcome_seq_plain noRests fits).mp outcome)⟩
  · rintro ⟨fits, each⟩
    exact (outcome_seq_plain noRests fits).mpr ((itemsPass_iff_matchEach fits).mpr each)

/-- A list pattern with one rest divides a list among its items and the rest. It matches exactly if
the value is a list whose first items match the head and whose last items match the tail one by one,
with the rest matched against all that is between; the bindings go from the head to the rest to the
tail, and a rest that is not bound after the head is bound to what is between. A list that is too
short fails at once, so that a list is cut only where both cuts are inside it and in order. With
several rests a list pattern matches nothing and binds nothing, and with none it matches only lists
of its own length.
-/
theorem rest_takes_what_lies_between
    : (∀ head name tail, (∀ p ∈ head ++ tail, p.isRest = false) →
        (∀ v b b', (seq (head ++ rest name :: tail)).match? v b = some ⟨true, b'⟩
          ↔ ∃ vs first middle last c d,
              v = .list vs ∧ Destructures head name tail vs b b' first middle last c d)
        ∧ (∀ vs b b' first middle last c d,
            Destructures head name tail vs b b' first middle last c d →
              first.length = head.length ∧ last.length = tail.length
              ∧ (c.get? name = none →
                  d = c.insert name (.list middle) ∧ b'.get? name = some (.list middle)))
        ∧ ∀ vs b,
            if vs.length < head.length + tail.length then
              (seq (head ++ rest name :: tail)).match? (.list vs) b = some ⟨false, b⟩
            else
              head.length ≤ vs.length - tail.length
              ∧ vs.length - tail.length + tail.length = vs.length
              ∧ vs.take head.length ++ Value.slice vs head.length (vs.length - tail.length)
                ++ vs.drop (vs.length - tail.length) = vs)
      ∧ (∀ items v b, 2 ≤ items.countP isRest → (seq items).match? v b = some ⟨false, b⟩)
      ∧ ∀ items v b b', (∀ p ∈ items, p.isRest = false) →
          ((seq items).match? v b = some ⟨true, b'⟩
            ↔ ∃ vs, v = .list vs ∧ vs.length = items.length ∧ MatchEach items vs b b') := by
  refine ⟨fun head name tail single => ⟨fun v b b' => ⟨?_, ?_⟩, ?_, fun vs b => ?_⟩,
    fun items v b several => match?_of_several several, fun items v b b' noRests => ⟨?_, ?_⟩⟩
  · intro matched
    obtain ⟨vs, rfl⟩ := exists_eq_list_of_match? matched
    obtain ⟨first, middle, last, c, d, parted⟩ := (match?_list_of_single single).mp matched
    exact ⟨vs, first, middle, last, c, d, rfl, parted⟩
  · rintro ⟨vs, first, middle, last, c, d, rfl, parted⟩
    exact (match?_list_of_single single).mpr ⟨first, middle, last, c, d, parted⟩
  · intro vs b b' first middle last c d parted
    exact ⟨parted.front.length_eq, parted.back.length_eq, parted.get?_eq⟩
  · split
    · rename_i short
      exact ((outcome_seq_short (sequence_of_single single) short).mpr rfl).match?_eq
    · rename_i fits
      exact cuts_of_le (Nat.le_of_not_lt fits)
  · intro matched
    obtain ⟨vs, rfl⟩ := exists_eq_list_of_match? matched
    exact ⟨vs, rfl, (match?_list_of_no_rests noRests).mp matched⟩
  · rintro ⟨vs, rfl, each⟩
    exact (match?_list_of_no_rests noRests).mpr each

end Pattern

namespace Sample

/-- A list that is framed by the same item on both sides. -/
def framed : List Pattern := [.var "?frame", .rest "?inside", .var "?frame"]

/-- What a list that is framed by null leaves bound. -/
def framedInside (inside : List Value) : Bindings :=
  Fields.insert (Fields.insert .empty "?frame" .null) "?inside" (.list inside)

theorem framed_takes_inside
    : (Pattern.seq framed).match? (.list [.null, .bool true, .bool false, .null]) .empty
        = some ⟨true, framedInside [.bool true, .bool false]⟩
      ∧ (Pattern.seq framed).match? (.list [.null, .null]) .empty
        = some ⟨true, framedInside []⟩
      ∧ (Pattern.seq framed).match? (.list [.null]) .empty = some ⟨false, .empty⟩
      ∧ (Pattern.seq (framed ++ framed)).match? (.list [.null, .null]) .empty
        = some ⟨false, .empty⟩
      ∧ ¬∃ b, (Pattern.seq [.wildcard]).match? (.list [.null, .null]) .empty = some ⟨true, b⟩ := by
  obtain ⟨single, several, noRests⟩ := Pattern.rest_takes_what_lies_between
  obtain ⟨parts, -, cut⟩ := single [.var "?frame"] "?inside" [.var "?frame"] (by decide)
  have frames (inside : List Value)
      : Pattern.Destructures [.var "?frame"] "?inside" [.var "?frame"]
        ([.null] ++ inside ++ [.null]) .empty (framedInside inside) [.null] inside [.null]
        (Fields.insert .empty "?frame" .null) (framedInside inside) :=
    ⟨rfl, .cons rfl (.nil _), rfl, .cons rfl (.nil _)⟩
  refine ⟨(parts ..).mpr ⟨_, _, _, _, _, _, rfl, frames [.bool true, .bool false]⟩,
    (parts ..).mpr ⟨_, _, _, _, _, _, rfl, frames []⟩, cut [.null] .empty,
    several _ _ _ (by decide), ?_⟩
  rintro ⟨b, matched⟩
  obtain ⟨vs, same, fits, -⟩ := (noRests _ _ _ _ (by decide)).mp matched
  cases same
  cases fits

end Sample

end RuleEngine
