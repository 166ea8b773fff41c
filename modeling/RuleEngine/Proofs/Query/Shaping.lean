import RuleEngine.Proofs.Query.Order
import RuleEngine.Proofs.Query.StableSort
import RuleEngine.Proofs.Value.Distinct
import RuleEngine.Proofs.Value.Sameness

/-! The shape of the rows of a query. Whichever page is asked for, it is cut from one list, in which
each row stands once for its position among the rows. That list is given by which rows it holds and
by which of two rows comes first.
-/

namespace RuleEngine

open Std

namespace Query

/-- A row comes before another one if it belongs before it, and otherwise, unless it belongs after
it, if it has the lower position. Without a key only the positions count.
-/
def Before (orderBy : Option (String × Direction)) (entry entry' : Record × Nat) : Prop :=
  match orderBy with
  | none => entry.2 < entry'.2
  | some (key, direction) =>
    Precedes key direction entry.1 entry'.1
      ∨ ¬Precedes key direction entry'.1 entry.1 ∧ entry.2 < entry'.2

/-- The rows that are kept, each with its position, one before the other. A position is kept unless
the same row stands at an earlier one and is not to be repeated.
-/
structure Arranged (distinct : Bool) (orderBy : Option (String × Direction)) (rows : List Record)
    (entries : List (Record × Nat)) : Prop where
  kept : ∀ row i, (row, i) ∈ entries
    ↔ rows[i]? = some row
      ∧ (distinct → ∀ j other, j < i → rows[j]? = some other → other.same row = false)
  ordered : entries.Pairwise (Before orderBy)

/-- The rows at the positions from an offset on and below the offset and the limit together. No
limit, and the limit zero, is no bound.
-/
def window (offset : Nat) (limit : Option Nat) (rows : List Record) : List Record :=
  match limit with
  | none | some 0 => rows.drop offset
  | some (limit + 1) => (rows.take (offset + (limit + 1))).drop offset

-- --------------------------------------------------------------------------------------
-- Duplicates
-- --------------------------------------------------------------------------------------

/-- Whether a row stands nowhere before its position. -/
def isFirst (rows : List Record) (entry : Record × Nat) : Bool :=
  !(rows.take entry.2).any (·.same entry.1)

/-- The distinct rows are those that stand nowhere before. -/
theorem map_filter_isFirst (rows : List Record)
    : (rows.zipIdx.filter (isFirst rows)).map Prod.fst = distinctRows rows :=
  map_filter_standsFirst Fields.same (fun _ _ _ => Fields.same_trans) rows

-- --------------------------------------------------------------------------------------
-- Sorting
-- --------------------------------------------------------------------------------------

section

variable {key : String} {direction : Direction}

/-- The entries in the order of their rows; those whose rows compare equal keep theirs. -/
def sortEntries (key : String) (direction : Direction) (entries : List (Record × Nat))
    : List (Record × Nat) :=
  entries.mergeSort fun entry entry' => (compareRows key direction entry.1 entry'.1).isLE

theorem map_sortEntries (entries : List (Record × Nat))
    : (sortEntries key direction entries).map Prod.fst
      = sortRows key direction (entries.map Prod.fst) :=
  List.map_mergeSort fun _ _ _ _ => rfl

/-- Entries are compared by their rows. -/
theorem stablySorted_sortEntries (key : String) (direction : Direction)
    (entries : List (Record × Nat))
    : StablySorted (Ordering.byKey Prod.fst (compareRows key direction)) entries
        (sortEntries key direction entries) :=
  stablySorted_mergeSort entries

theorem before_some_iff {entry entry' : Record × Nat}
    : Before (some (key, direction)) entry entry'
      ↔ compareRows key direction entry.1 entry'.1 = .lt
        ∨ compareRows key direction entry.1 entry'.1 = .eq ∧ entry.2 < entry'.2 := by
  simp only [Before, precedes_iff]
  rw [compareRows_swap key direction entry.1 entry'.1]
  cases compareRows key direction entry.1 entry'.1 <;> simp

/-- Entries by ascending position are sorted into the order in which one comes before another. -/
theorem pairwise_sortEntries {entries : List (Record × Nat)}
    (ascending : entries.Pairwise fun entry entry' => entry.2 < entry'.2)
    : (sortEntries key direction entries).Pairwise (Before (some (key, direction))) := by
  refine List.pairwise_of_forall_sublist fun {entry entry'} both => ?_
  have stably := stablySorted_sortEntries key direction entries
  have ordered := List.pairwise_iff_forall_sublist.mp stably.ordered both
  rw [before_some_iff]
  cases compared : compareRows key direction entry.1 entry'.1 with
  | lt => exact .inl rfl
  | gt => exact absurd compared ordered
  | eq =>
    have ties := both.filter (Ordering.byKey Prod.fst (compareRows key direction) entry · == .eq)
    rw [stably.stable entry] at ties
    have before : [entry, entry'].Sublist entries :=
      .trans (by simpa [Ordering.byKey, compared, ReflCmp.compare_self] using ties)
        List.filter_sublist
    exact .inr ⟨rfl, List.pairwise_iff_forall_sublist.mp ascending before⟩

end

-- --------------------------------------------------------------------------------------
-- The one list
-- --------------------------------------------------------------------------------------

theorem Before.asymm {orderBy : Option (String × Direction)} {entry entry' : Record × Nat}
    (before : Before orderBy entry entry')
    : ¬Before orderBy entry' entry := by
  cases orderBy with
  | none => exact Nat.lt_asymm before
  | some order =>
    obtain ⟨key, direction⟩ := order
    rw [before_some_iff] at before ⊢
    rw [compareRows_swap key direction entry.1 entry'.1]
    rcases before with less | ⟨tied, below⟩
    · simp [less]
    · simpa [tied] using Nat.le_of_lt below

theorem Arranged.nodup {distinct : Bool} {orderBy : Option (String × Direction)}
    {rows : List Record} {entries : List (Record × Nat)}
    (arranged : Arranged distinct orderBy rows entries)
    : entries.Nodup :=
  arranged.ordered.imp fun before same => (same ▸ before).asymm (same ▸ before)

/-- The rows that are kept can be arranged in one way only. -/
theorem Arranged.eq {distinct : Bool} {orderBy : Option (String × Direction)}
    {rows : List Record} {entries entries' : List (Record × Nat)}
    (arranged : Arranged distinct orderBy rows entries)
    (arranged' : Arranged distinct orderBy rows entries')
    : entries = entries' := by
  have perm : entries.Perm entries' := by
    refine (List.perm_ext_iff_of_nodup arranged.nodup arranged'.nodup).mpr fun ⟨row, i⟩ => ?_
    rw [arranged.kept, arranged'.kept]
  exact perm.eq_of_pairwise (fun _ _ _ _ before after => absurd after before.asymm)
    arranged.ordered arranged'.ordered

/-- The rows with their positions, without the duplicates if they are to be distinct. -/
def keptEntries (distinct : Bool) (rows : List Record) : List (Record × Nat) :=
  if distinct then rows.zipIdx.filter (isFirst rows) else rows.zipIdx

/-- The entries that are kept, in the order that is asked for. -/
def arrange (distinct : Bool) (orderBy : Option (String × Direction)) (rows : List Record)
    : List (Record × Nat) :=
  match orderBy with
  | none => keptEntries distinct rows
  | some (key, direction) => sortEntries key direction (keptEntries distinct rows)

theorem isFirst_iff {rows : List Record} {entry : Record × Nat}
    : isFirst rows entry
      ↔ ∀ j other, j < entry.2 → rows[j]? = some other → other.same entry.1 = false := by
  simp only [isFirst, Bool.not_eq_true', List.any_eq_false, List.mem_iff_getElem?,
    List.getElem?_take, Bool.not_eq_true]
  constructor
  · intro first j other below there
    exact first other ⟨j, by rw [if_pos below, there]⟩
  · rintro first other ⟨j, there⟩
    by_cases below : j < entry.2
    · exact first j other below (by rwa [if_pos below] at there)
    · simp [below] at there

theorem mem_keptEntries {distinct : Bool} {rows : List Record} {row : Record} {i : Nat}
    : (row, i) ∈ keptEntries distinct rows
      ↔ rows[i]? = some row
        ∧ (distinct → ∀ j other, j < i → rows[j]? = some other → other.same row = false) := by
  cases distinct with
  | false => simp [keptEntries, List.mem_zipIdx_iff_getElem?]
  | true => simp [keptEntries, List.mem_filter, List.mem_zipIdx_iff_getElem?, isFirst_iff]

theorem pairwise_keptEntries (distinct : Bool) (rows : List Record)
    : (keptEntries distinct rows).Pairwise fun entry entry' => entry.2 < entry'.2 := by
  have ascending : rows.zipIdx.Pairwise fun entry entry' => entry.2 < entry'.2 := by
    rw [← List.pairwise_map (f := Prod.snd), List.zipIdx_map_snd]
    exact List.pairwise_lt_range'
  unfold keptEntries
  split
  · exact ascending.filter _
  · exact ascending

theorem arranged_arrange (distinct : Bool) (orderBy : Option (String × Direction))
    (rows : List Record)
    : Arranged distinct orderBy rows (arrange distinct orderBy rows) := by
  cases orderBy with
  | none => exact ⟨fun _ _ => mem_keptEntries, pairwise_keptEntries distinct rows⟩
  | some order =>
    refine ⟨fun row i => ?_, pairwise_sortEntries (pairwise_keptEntries distinct rows)⟩
    rw [← mem_keptEntries]
    exact (stablySorted_sortEntries _ _ _).perm.mem_iff

-- --------------------------------------------------------------------------------------
-- Pages
-- --------------------------------------------------------------------------------------

theorem page_eq_window (q : Query) (rows : List Record)
    : q.page rows = window q.offset q.limit rows := by
  unfold page window
  rcases q.limit with _ | _ | limit
  · rfl
  · rfl
  · simp [List.drop_take]

theorem shape_eq_page (q : Query) (rows : List Record)
    : q.shape rows = q.page ((arrange q.distinct q.orderBy rows).map Prod.fst) := by
  have kept : (keptEntries q.distinct rows).map Prod.fst
      = if q.distinct then distinctRows rows else rows := by
    unfold keptEntries
    split
    · exact map_filter_isFirst rows
    · exact List.zipIdx_map_fst 0 rows
  unfold shape arrange
  rw [← kept]
  cases q.orderBy with
  | none => rfl
  | some order => rw [map_sortEntries]

/-- Pages one after the other make up the rows up to where the last of them ends, by induction on
their number.
-/
theorem flatMap_window (size : Nat) (rows : List Record) (count : Nat)
    : (List.range count).flatMap (fun page => window (page * (size + 1)) (some (size + 1)) rows)
      = rows.take (count * (size + 1)) := by
  induction count with
  | zero => simp
  | succ count ih =>
    rw [List.range_succ, List.flatMap_append, ih, Nat.add_mul, Nat.one_mul, List.take_add]
    simp [window, List.drop_take]

/-- Whichever offset and limit a query has, its shape cuts its window out of one list, the only
arrangement of the rows. Pages of one size at the multiples of that size make up what the query
gives without an offset and a limit, as soon as they are enough to hold it.
-/
theorem shape_eq_window (q : Query) (rows : List Record)
    : ∃ entries,
        (∀ entries', Arranged q.distinct q.orderBy rows entries' ↔ entries' = entries)
        ∧ (∀ offset limit,
            { q with offset, limit }.shape rows = window offset limit (entries.map Prod.fst))
        ∧ ∀ size, 0 < size → ∀ count, entries.length ≤ count * size →
            (List.range count).flatMap
                (fun page => { q with offset := page * size, limit := some size }.shape rows)
              = { q with offset := 0, limit := none }.shape rows := by
  have shaped : ∀ offset limit, { q with offset, limit }.shape rows
      = window offset limit ((arrange q.distinct q.orderBy rows).map Prod.fst) := by
    intro offset limit
    rw [shape_eq_page, page_eq_window]
  have arranged := arranged_arrange q.distinct q.orderBy rows
  refine ⟨_, fun entries' => ⟨fun other => other.eq arranged, fun same => same ▸ arranged⟩,
    shaped, fun size positive count enough => ?_⟩
  obtain ⟨size, rfl⟩ := Nat.exists_eq_add_one.mpr positive
  simp only [shaped]
  rw [flatMap_window, List.take_of_length_le (by simpa using enough)]
  rfl

end Query

end RuleEngine
