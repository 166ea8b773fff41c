import Mathlib.Data.List.DropRight
import RuleEngine.Trace.Buffer

/-! What a trace buffer retains. Whatever is pushed and cleared, in any order and with room for any
number of records, the buffer holds the latest of what was pushed since it was cleared, and every
record that was pushed is still there, was evicted for want of room, or went when the buffer was
cleared. Identities are consecutive all along, so that a record is found by its distance from the
oldest.
-/

namespace RuleEngine

namespace TraceBuffer

-- --------------------------------------------------------------------------------------
-- What is done to a buffer
-- --------------------------------------------------------------------------------------

inductive Command where
  | push (sequence timestamp : Nat) (event : Event)
  | clear

namespace Command

/-- The buffer after a command. -/
def perform (b : TraceBuffer) : Command → TraceBuffer
  | push sequence timestamp event => (b.push sequence timestamp event).2
  | clear => b.clear

/-- The identity that a buffer answers a command with. -/
def issued? (b : TraceBuffer) : Command → Option Nat
  | push sequence timestamp event => some (b.push sequence timestamp event).1
  | clear => none

def isPush : Command → Bool
  | push .. => true
  | clear => false

/-- The record that a command brings. -/
def record? (id : Nat) : Command → Option TraceRecord
  | push sequence timestamp event => some ⟨id, sequence, timestamp, event⟩
  | clear => none

/-- What is held, and behind it the record that a command brings. -/
def joined (b : TraceBuffer) (c : Command) : List TraceRecord :=
  b.records ++ (c.record? b.next).toList

/-- The records that a command takes out of a buffer, or does not let into it. -/
def lost (b : TraceBuffer) (c : Command) : List TraceRecord :=
  (c.joined b).filter fun r => (c.perform b).records.all (·.id != r.id)

end Command

/-- A buffer with room for so many records, after some commands. -/
def after (capacity : Nat) (commands : List Command) : TraceBuffer :=
  commands.foldl Command.perform (ofCapacity capacity)

/-- All records that some commands push, numbered from `id` on. -/
def pushedFrom (id : Nat) : List Command → List TraceRecord
  | [] => []
  | .push sequence timestamp event :: rest =>
    ⟨id, sequence, timestamp, event⟩ :: pushedFrom (id + 1) rest
  | .clear :: rest => pushedFrom id rest

def pushed (commands : List Command) : List TraceRecord := pushedFrom 0 commands

/-- How many records are pushed behind the last clearing. -/
def sinceClear (commands : List Command) : Nat := (commands.rtakeWhile Command.isPush).length

/-- What each of some commands comes with in its turn. -/
def gather {α : Type} (f : TraceBuffer → Command → List α) : TraceBuffer → List Command → List α
  | _, [] => []
  | b, c :: rest => f b c ++ gather f (c.perform b) rest

/-- The identities that are issued, in order. -/
def issued (capacity : Nat) (commands : List Command) : List Nat :=
  gather (fun b c => (c.issued? b).toList) (ofCapacity capacity) commands

/-- The records that are lost as others are pushed. -/
def evictions (capacity : Nat) (commands : List Command) : List TraceRecord :=
  gather (fun b c => if c.isPush then c.lost b else []) (ofCapacity capacity) commands

/-- The records that are lost as the buffer is cleared. -/
def removals (capacity : Nat) (commands : List Command) : List TraceRecord :=
  gather (fun b c => if c.isPush then [] else c.lost b) (ofCapacity capacity) commands

variable {capacity : Nat} {commands : List Command} {sequence timestamp : Nat} {event : Event}

theorem after_append_singleton (c : Command)
    : after capacity (commands ++ [c]) = c.perform (after capacity commands) := by
  simp [after]

theorem gather_append_singleton {α : Type} (f : TraceBuffer → Command → List α)
    (b : TraceBuffer) (c : Command)
    : gather f b (commands ++ [c])
      = gather f b commands ++ f (commands.foldl Command.perform b) c := by
  induction commands generalizing b with
  | nil => simp [gather]
  | cons first rest ih => simp [gather, ih]

theorem pushedFrom_push (commands : List Command) (id : Nat)
    : pushedFrom id (commands ++ [.push sequence timestamp event])
      = pushedFrom id commands
        ++ [⟨id + (pushedFrom id commands).length, sequence, timestamp, event⟩] := by
  induction commands generalizing id with
  | nil => rfl
  | cons c rest ih =>
    cases c with
    | push => simp [pushedFrom, ih, Nat.add_assoc, Nat.add_comm 1]
    | clear => exact ih id

theorem pushedFrom_clear (commands : List Command) (id : Nat)
    : pushedFrom id (commands ++ [.clear]) = pushedFrom id commands := by
  induction commands generalizing id with
  | nil => rfl
  | cons c rest ih =>
    cases c with
    | push => exact congrArg (List.cons _) (ih (id + 1))
    | clear => exact ih id

theorem map_id_pushedFrom (commands : List Command) (id : Nat)
    : (pushedFrom id commands).map (·.id) = List.range' id (pushedFrom id commands).length := by
  induction commands generalizing id with
  | nil => rfl
  | cons c rest ih =>
    cases c with
    | push => simpa [pushedFrom, List.range'_succ] using ih (id + 1)
    | clear => exact ih id

@[simp]
theorem pushed_push
    : pushed (commands ++ [.push sequence timestamp event])
      = pushed commands ++ [⟨(pushed commands).length, sequence, timestamp, event⟩] := by
  simpa [pushed] using pushedFrom_push commands 0

@[simp]
theorem pushed_clear : pushed (commands ++ [.clear]) = pushed commands :=
  pushedFrom_clear commands 0

@[simp]
theorem sinceClear_push
    : sinceClear (commands ++ [.push sequence timestamp event]) = sinceClear commands + 1 := by
  simp [sinceClear, List.rtakeWhile_concat, Command.isPush]

@[simp]
theorem sinceClear_clear : sinceClear (commands ++ [.clear]) = 0 := by
  simp [sinceClear, Command.isPush]

theorem sinceClear_le (commands : List Command)
    : sinceClear commands ≤ (pushed commands).length := by
  induction commands using List.reverseRecOn with
  | nil => exact Nat.le_refl 0
  | append_singleton commands c ih =>
    cases c with
    | push => simpa using ih
    | clear => simp

-- --------------------------------------------------------------------------------------
-- The latest records
-- --------------------------------------------------------------------------------------

theorem length_rtake {α : Type} (l : List α) (n : Nat) : (l.rtake n).length = min n l.length := by
  rw [List.rtake, List.length_drop]
  omega

theorem rtake_rtake {α : Type} (l : List α) (m n : Nat)
    : (l.rtake n).rtake m = l.rtake (min m n) := by
  rw [List.rtake, length_rtake, List.rtake, List.drop_drop, List.rtake]
  congr 1
  omega

/-- A pushed record is the latest, and the oldest ones make room for it. -/
theorem records_push (b : TraceBuffer) (sequence timestamp : Nat) (event : Event)
    : (b.push sequence timestamp event).2.records
      = (b.records ++ [TraceRecord.mk b.next sequence timestamp event]).rtake b.capacity :=
  rfl

/-- A buffer holds the latest of the records that some commands push. -/
structure Retains (capacity : Nat) (commands : List Command) (b : TraceBuffer) : Prop where
  room : b.capacity = capacity
  next : b.next = (pushed commands).length
  records : b.records = (pushed commands).rtake (min capacity (sinceClear commands))

namespace Retains

variable {b : TraceBuffer}

theorem size_eq (retains : Retains capacity commands b)
    : b.size = min capacity (sinceClear commands) := by
  have bounded := sinceClear_le commands
  rw [size, retains.records, length_rtake]
  omega

/-- There is room for what is held. -/
theorem size_le (retains : Retains capacity commands b) : b.size ≤ b.capacity := by
  rw [retains.size_eq, retains.room]
  exact Nat.min_le_left _ _

theorem size_le_next (retains : Retains capacity commands b) : b.size ≤ b.next := by
  have bounded := sinceClear_le commands
  rw [retains.size_eq, retains.next]
  omega

/-- The identities of what is held go up to the next one without a gap. -/
theorem map_id (retains : Retains capacity commands b)
    : b.records.map (·.id) = List.range' (b.next - b.size) b.size := by
  have bounded := retains.size_le_next
  rw [retains.records, List.rtake, List.map_drop, pushed, map_id_pushedFrom, List.drop_range',
    ← pushed, ← retains.next, ← retains.size_eq]
  congr 1 <;> omega

theorem push (retains : Retains capacity commands b)
    : Retains capacity (commands ++ [.push sequence timestamp event])
        (b.push sequence timestamp event).2 where
  room := retains.room
  next := by simp [TraceBuffer.push, retains.next]
  records := by
    rw [records_push, retains.records, retains.next, retains.room, ← List.rtake_concat_succ,
      rtake_rtake, pushed_push, sinceClear_push]
    congr 1
    omega

theorem clear (retains : Retains capacity commands b)
    : Retains capacity (commands ++ [.clear]) b.clear where
  room := retains.room
  next := by simpa [TraceBuffer.clear] using retains.next
  records := by simp [TraceBuffer.clear]

end Retains

/-- By induction on the commands, the last one first. -/
theorem retains_after (capacity : Nat) (commands : List Command)
    : Retains capacity commands (after capacity commands) := by
  induction commands using List.reverseRecOn with
  | nil => exact ⟨rfl, rfl, (List.rtake_nil ..).symm⟩
  | append_singleton commands c ih =>
    rw [after_append_singleton]
    cases c with
    | push => exact ih.push
    | clear => exact ih.clear

-- --------------------------------------------------------------------------------------
-- Look-ups
-- --------------------------------------------------------------------------------------

/-- Where identities are consecutive, a record stands as far from the oldest as its identity does.
-/
theorem getElem?_eq_some_iff {records : List TraceRecord} {first : Nat}
    (consecutive : records.map (·.id) = List.range' first records.length) (i : Nat)
    (r : TraceRecord)
    : records[i]? = some r ↔ r ∈ records ∧ r.id = first + i := by
  have number (j : Nat) (r' : TraceRecord) (here : records[j]? = some r') : r'.id = first + j := by
    have ids := congrArg (·[j]?) consecutive
    have inside : j < records.length := (List.getElem?_eq_some_iff.mp here).1
    rw [List.getElem?_map, here, List.getElem?_range' inside] at ids
    simpa using ids
  constructor
  · exact fun here => ⟨List.mem_of_getElem? here, number i r here⟩
  · rintro ⟨member, same⟩
    obtain ⟨j, here⟩ := List.getElem?_of_mem member
    obtain rfl : j = i := Nat.add_left_cancel ((number j r here).symm.trans same)
    exact here

/-- Where identities are consecutive, a record is found under its identity and under no other. -/
theorem get?_eq_some_iff {b : TraceBuffer} {first : Nat}
    (consecutive : b.records.map (·.id) = List.range' first b.size) (id : Nat) (r : TraceRecord)
    : b.get? id = some r ↔ r ∈ b.records ∧ r.id = id := by
  have places := getElem?_eq_some_iff consecutive
  unfold get?
  split
  · rename_i empty
    simp [empty]
  · rename_i oldest rest held
    have start : oldest.id = first := ((places 0 oldest).mp (by simp [held])).2
    rw [start]
    split
    · rename_i before
      have above (member : r ∈ b.records) : first ≤ r.id := by
        obtain ⟨i, here⟩ := List.getElem?_of_mem member
        have number := ((places i r).mp here).2
        omega
      refine ⟨nofun, fun ⟨member, same⟩ => ?_⟩
      have := above member
      omega
    · rw [places]
      refine and_congr_right fun _ => ?_
      omega

theorem length_recent (b : TraceBuffer) (count : Nat)
    : (b.recent count).length = min count b.size := by
  rw [recent, List.length_drop, ← size]
  omega

-- --------------------------------------------------------------------------------------
-- What is lost
-- --------------------------------------------------------------------------------------

/-- Of records with distinct identities, those that are not among the last are the first. -/
theorem filter_notMem_drop {records : List TraceRecord} (distinct : (records.map (·.id)).Nodup)
    (k : Nat)
    : (records.filter fun r => (records.drop k).all (·.id != r.id)) = records.take k := by
  have parts := List.take_append_drop k records
  generalize records.take k = front at parts ⊢
  generalize records.drop k = back at parts ⊢
  subst parts
  rw [List.map_append, List.nodup_append] at distinct
  obtain ⟨-, -, apart⟩ := distinct
  have front' : (front.filter fun r => back.all (·.id != r.id)) = front := by
    refine List.filter_eq_self.mpr fun r member => List.all_eq_true.mpr fun r' later => ?_
    exact bne_iff_ne.mpr
      (apart _ (List.mem_map_of_mem member) _ (List.mem_map_of_mem later)).symm
  have back' : (back.filter fun r => back.all (·.id != r.id)) = [] := by
    refine List.filter_eq_nil_iff.mpr fun r member all => ?_
    exact bne_iff_ne.mp (List.all_eq_true.mp all r member) rfl
  rw [List.filter_append, front', back', List.append_nil]

/-- Clearing costs all that is held. -/
theorem lost_clear (b : TraceBuffer) : Command.clear.lost b = b.records := by
  simp [Command.lost, Command.joined, Command.record?, Command.perform, TraceBuffer.clear]

namespace Retains

variable {b : TraceBuffer}

/-- There is a record too many exactly if the buffer is full. -/
theorem excess_eq (retains : Retains capacity commands b)
    : b.size + 1 - b.capacity = if b.size = b.capacity then 1 else 0 := by
  have room := retains.size_le
  split <;> omega

theorem records_perform_push (b : TraceBuffer)
    : ((Command.push sequence timestamp event).perform b).records
      = ((Command.push sequence timestamp event).joined b).drop (b.size + 1 - b.capacity) := by
  simp [Command.perform, TraceBuffer.push, Command.joined, Command.record?, size]

/-- A push costs the oldest record exactly if the buffer is full. -/
theorem lost_push (retains : Retains capacity commands b)
    : (Command.push sequence timestamp event).lost b
      = ((Command.push sequence timestamp event).joined b).take
        (if b.size = b.capacity then 1 else 0) := by
  have latest := Nat.sub_add_cancel retains.size_le_next
  have ids : ((Command.push sequence timestamp event).joined b).map (·.id)
      = List.range' (b.next - b.size) (b.size + 1) := by
    simp [Command.joined, Command.record?, retains.map_id, List.range'_concat, latest]
  rw [Command.lost, records_perform_push, ← retains.excess_eq]
  exact filter_notMem_drop (ids ▸ List.nodup_range') _

/-- What is held and what a command brings is lost or held afterwards. -/
theorem joined_eq (retains : Retains capacity commands b) (c : Command)
    : c.joined b = c.lost b ++ (c.perform b).records := by
  cases c with
  | push =>
    rw [retains.lost_push, records_perform_push, retains.excess_eq, List.take_append_drop]
  | clear =>
    rw [lost_clear]
    rfl

/-- What is lost as a record is pushed counts as evicted. -/
theorem evicted_perform (retains : Retains capacity commands b) (c : Command)
    : (c.perform b).evicted = b.evicted + (if c.isPush then c.lost b else []).length := by
  cases c with
  | push sequence timestamp event =>
    have all : ((Command.push sequence timestamp event).joined b).length = b.size + 1 := by
      simp [Command.joined, Command.record?, size]
    have more : ((Command.push sequence timestamp event).perform b).evicted
        = b.evicted + (b.size + 1 - b.capacity) := by
      simp [Command.perform, TraceBuffer.push, size]
    rw [more, Command.isPush, if_pos rfl, retains.lost_push, ← retains.excess_eq,
      List.length_take, all, Nat.min_eq_left (Nat.sub_le ..)]
  | clear => rfl

end Retains

/-- Of all that was pushed, a part is held, a part was evicted, and a part went with a clearing. -/
structure Accounted (capacity : Nat) (commands : List Command) : Prop where
  evicted : (after capacity commands).evicted = (evictions capacity commands).length
  parts : (evictions capacity commands ++ removals capacity commands
    ++ (after capacity commands).records).Perm (pushed commands)

theorem pushed_append_singleton (c : Command)
    : pushed (commands ++ [c])
      = pushed commands ++ (c.record? (pushed commands).length).toList := by
  cases c <;> simp [Command.record?]

/-- By induction on the commands, the last one first. -/
theorem accounted (capacity : Nat) (commands : List Command) : Accounted capacity commands := by
  induction commands using List.reverseRecOn with
  | nil => exact ⟨rfl, .nil⟩
  | append_singleton commands c ih =>
    have retains := retains_after capacity commands
    have evictions' : evictions capacity (commands ++ [c])
        = evictions capacity commands
          ++ if c.isPush then c.lost (after capacity commands) else [] :=
      gather_append_singleton ..
    have removals' : removals capacity (commands ++ [c])
        = removals capacity commands
          ++ if c.isPush then [] else c.lost (after capacity commands) :=
      gather_append_singleton ..
    constructor
    · rw [after_append_singleton, retains.evicted_perform, evictions', List.length_append,
        ih.evicted]
    · have parts := ih.parts.append_right (c.record? (after capacity commands).next).toList
      rw [List.append_assoc _ (records _), ← Command.joined, retains.joined_eq, retains.next,
        ← pushed_append_singleton] at parts
      rw [evictions', removals', after_append_singleton]
      refine List.Perm.trans ?_ parts
      generalize evictions capacity commands = gone
      generalize removals capacity commands = cleared
      cases c.isPush with
      | true =>
        simpa using (List.perm_append_comm.append_right _).append_left gone
      | false => simp

-- --------------------------------------------------------------------------------------
-- Counts
-- --------------------------------------------------------------------------------------

/-- The sum of the counts of those names that pass a test. -/
def countOf (test : String → Bool) (counts : List (String × Nat)) : Nat :=
  counts.foldr (fun count total => (if test count.1 then count.2 else 0) + total) 0

theorem countOf_cons (test : String → Bool) (name : String) (n : Nat)
    (rest : List (String × Nat))
    : countOf test ((name, n) :: rest) = (if test name then n else 0) + countOf test rest :=
  rfl

/-- A name is counted once more, wherever it stands. -/
theorem countOf_countName (test : String → Bool) (name : String) (counts : List (String × Nat))
    : countOf test (countName name counts)
      = countOf test counts + if test name then 1 else 0 := by
  induction counts with
  | nil => rw [countName, countOf_cons, Nat.add_comm]
  | cons count rest ih =>
    obtain ⟨name', n⟩ := count
    unfold countName
    split_ifs with same before
    all_goals
      simp only [countOf_cons, ih]
      grind

/-- By induction on the records, the last one first. -/
theorem countOf_counts (b : TraceBuffer) (test : String → Bool)
    : countOf test b.stats.counts = (b.filter (test ·.name)).length := by
  simp only [stats, filter]
  induction b.records using List.reverseRecOn with
  | nil => rfl
  | append_singleton records r ih =>
    rw [List.foldl_append, List.filter_append, List.length_append, ← ih]
    cases passes : test r.name <;> simp [countOf_countName, passes]

-- --------------------------------------------------------------------------------------
-- The buffer as a whole
-- --------------------------------------------------------------------------------------

theorem issued_eq (capacity : Nat) (commands : List Command)
    : issued capacity commands = List.range (pushed commands).length := by
  induction commands using List.reverseRecOn with
  | nil => rfl
  | append_singleton commands c ih =>
    have answered : issued capacity (commands ++ [c])
        = issued capacity commands ++ (c.issued? (after capacity commands)).toList :=
      gather_append_singleton ..
    have next := (retains_after capacity commands).next
    rw [answered, ih]
    cases c with
    | push => simp [Command.issued?, TraceBuffer.push, next, List.range_succ]
    | clear => simp [Command.issued?]

/-- Whatever was pushed and cleared, with room for any number of records or for none, a buffer holds
the latest of what was pushed since it was cleared, in order. Pushes are answered with the numbers
from zero on, and a record is found under the number of its push as long as it is held, and under no
other; the most recent ones are the last of those held. A push costs the oldest record if the buffer
is full, and nothing otherwise; what went that way is what counts as evicted, and together with what
was cleared and what is held it is all that was ever pushed. The counts by name add up to what is
held, and those of any names to the records of these names.
-/
theorem keeps_latest (capacity : Nat) (commands : List Command)
    : (after capacity commands).records
        = (pushed commands).rtake (min capacity (sinceClear commands))
      ∧ issued capacity commands = List.range (pushed commands).length
      ∧ (∀ id r, (after capacity commands).get? id = some r
        ↔ r ∈ (after capacity commands).records ∧ r.id = id)
      ∧ (∀ count, (after capacity commands).recent count <:+ (after capacity commands).records
        ∧ ((after capacity commands).recent count).length
          = min count (after capacity commands).size)
      ∧ (∀ sequence timestamp event,
        (Command.push sequence timestamp event).lost (after capacity commands)
          = ((Command.push sequence timestamp event).joined (after capacity commands)).take
            (if (after capacity commands).size = capacity then 1 else 0))
      ∧ (after capacity commands).evicted = (evictions capacity commands).length
      ∧ (evictions capacity commands ++ removals capacity commands
        ++ (after capacity commands).records).Perm (pushed commands)
      ∧ (after capacity commands).evicted + (removals capacity commands).length
          + (after capacity commands).size
        = (pushed commands).length
      ∧ countOf (fun _ => true) (after capacity commands).stats.counts
        = (after capacity commands).size
      ∧ ∀ test, countOf test (after capacity commands).stats.counts
        = ((after capacity commands).filter (test ·.name)).length := by
  have retains := retains_after capacity commands
  have account := accounted capacity commands
  have counted := countOf_counts (after capacity commands)
  refine ⟨retains.records, issued_eq capacity commands, get?_eq_some_iff retains.map_id,
    fun count => ⟨List.drop_suffix .., length_recent ..⟩, fun _ _ _ => ?_, account.evicted,
    account.parts, ?_, ?_, counted⟩
  · simpa only [retains.room] using retains.lost_push
  · rw [account.evicted, size, ← List.length_append, ← List.length_append]
    exact account.parts.length_eq
  · have total := counted fun _ => true
    rwa [filter, List.filter_eq_self.mpr fun _ _ => rfl] at total

end TraceBuffer

end RuleEngine
