import RuleEngine.Proofs.Trace.Retention
import RuleEngine.Trace.Tracer

/-! Tracers as views of one stream. What a tracer numbers depends on the stream alone, not on the
names that it keeps, on its room or on its clock. So a tracer holds just those of the latest events
that one without a filter and with room for all of them holds, under the same numbers.
-/

namespace RuleEngine

namespace Tracer

-- --------------------------------------------------------------------------------------
-- Streams
-- --------------------------------------------------------------------------------------

/-- What happens to a tracer. -/
inductive Step where
  | observe (event : Event)
  | setEnabled (enabled : Bool)
  | clear

namespace Step

def perform (time : Nat) (t : Tracer) : Step → Tracer
  | observe event => t.record time event
  | setEnabled enabled => t.setEnabled enabled
  | clear => t.clear

def isClear : Step → Bool
  | clear => true
  | observe _ | setEnabled _ => false

/-- Whether a tracer is enabled after a step. -/
def enables (enabled : Bool) : Step → Bool
  | setEnabled enabled => enabled
  | observe _ | clear => enabled

end Step

/-- A tracer after a stream of steps. The clock tells the time of each of them. -/
def run (clock : Nat → Nat) (t : Tracer) (steps : List Step) : Tracer :=
  steps.zipIdx.foldl (fun t (step, i) => step.perform (clock i) t) t

/-- The events of a stream that are observed while tracing is enabled. -/
def observedEvents (enabled : Bool) : List Step → List Event
  | [] => []
  | step :: rest =>
    match step with
    | .observe event =>
      if enabled then event :: observedEvents enabled rest else observedEvents enabled rest
    | .setEnabled enabled => observedEvents enabled rest
    | .clear => observedEvents enabled rest

/-- The observed events, each with the number of those before it. -/
def numbered (enabled : Bool) (steps : List Step) : List (Nat × Event) :=
  (observedEvents enabled steps).zipIdx.map Prod.swap

/-- The numbered events behind the last clearing. -/
def received (enabled : Bool) (steps : List Step) : List (Nat × Event) :=
  (numbered enabled steps).drop
    (observedEvents enabled (steps.rdropWhile fun step => !step.isClear)).length

/-- The numbers and the events of the records that a tracer holds. -/
def held (t : Tracer) : List (Nat × Event) := t.buffer.records.map fun r => (r.sequence, r.event)

variable {enabled : Bool} {steps : List Step}

theorem run_append_singleton (clock : Nat → Nat) (t : Tracer) (step : Step)
    : run clock t (steps ++ [step]) = step.perform (clock steps.length) (run clock t steps) := by
  simp [run, List.zipIdx_append]

theorem observedEvents_append (enabled : Bool) (steps more : List Step)
    : observedEvents enabled (steps ++ more)
      = observedEvents enabled steps ++ observedEvents (steps.foldl Step.enables enabled) more := by
  induction steps generalizing enabled with
  | nil => rfl
  | cons step rest ih =>
    cases step with
    | observe event => cases enabled <;> simp [observedEvents, Step.enables, ih]
    | setEnabled enabled' => exact ih enabled'
    | clear => exact ih enabled

/-- Nothing more is observed. -/
theorem received_append_of_quiet {step : Step} (kept : step.isClear = false)
    (quiet : observedEvents (steps.foldl Step.enables enabled) [step] = [])
    : received enabled (steps ++ [step]) = received enabled steps := by
  rw [received, numbered, observedEvents_append, quiet, List.append_nil,
    List.rdropWhile_concat_pos _ _ _ (by simp [kept])]
  rfl

theorem length_observedEvents_le (enabled : Bool) (steps : List Step)
    : (observedEvents enabled (steps.rdropWhile fun step => !step.isClear)).length
      ≤ (observedEvents enabled steps).length := by
  obtain ⟨rest, parts⟩ := List.rdropWhile_prefix (fun step : Step => !step.isClear) (l := steps)
  have longer := congrArg (fun all => (observedEvents enabled all).length) parts
  simp only [observedEvents_append, List.length_append] at longer
  omega

/-- An event is received under the number of those that were observed before it. -/
theorem received_observe (on : steps.foldl Step.enables enabled = true) (event : Event)
    : received enabled (steps ++ [.observe event])
      = received enabled steps ++ [((observedEvents enabled steps).length, event)] := by
  have bounded := length_observedEvents_le enabled steps
  have before : (numbered enabled steps).length = (observedEvents enabled steps).length := by
    simp [numbered]
  have next : numbered enabled (steps ++ [.observe event])
      = numbered enabled steps ++ [((observedEvents enabled steps).length, event)] := by
    simp [numbered, observedEvents_append, on, observedEvents, List.zipIdx_append]
  rw [received, next, List.rdropWhile_concat_pos _ _ _ rfl,
    List.drop_append_of_le_length (before ▸ bounded)]
  rfl

theorem received_clear : received enabled (steps ++ [.clear]) = [] := by
  rw [received, List.rdropWhile_concat_neg _ _ _ (by simp [Step.isClear])]
  exact List.drop_of_length_le (by simp [numbered])

-- --------------------------------------------------------------------------------------
-- What tracers hold
-- --------------------------------------------------------------------------------------

/-- A tracer holds the latest of what it received and keeps. -/
structure Views (config : TracerConfig) (steps : List Step) (t : Tracer) : Prop where
  settings : t.config = { config with enabled := steps.foldl Step.enables config.enabled }
  room : t.buffer.capacity = config.capacity
  observed : t.observed = (observedEvents config.enabled steps).length
  held : t.held
    = ((received config.enabled steps).filter (config.keeps ·.2)).rtake config.capacity

theorem rtake_append_rtake {α : Type} (l : List α) (n : Nat) (x : α)
    : (l.rtake n ++ [x]).rtake n = (l ++ [x]).rtake n := by
  rw [← List.rtake_concat_succ, TraceBuffer.rtake_rtake, Nat.min_eq_left (Nat.le_succ n)]

namespace Views

variable {config : TracerConfig} {t : Tracer}

/-- While the tracer is disabled, nothing happens. -/
theorem ignore (views : Views config steps t) (off : t.config.enabled = false) (time : Nat)
    (event : Event)
    : Views config (steps ++ [.observe event]) (t.record time event) := by
  have quiet : observedEvents (steps.foldl Step.enables config.enabled) [.observe event] = [] := by
    have same : steps.foldl Step.enables config.enabled = false := by
      rw [← off, views.settings]
    simp [same, observedEvents]
  have unchanged : t.record time event = t := by simp [record, off]
  rw [unchanged]
  refine ⟨by simpa [Step.enables] using views.settings, views.room, ?_, ?_⟩
  · rw [observedEvents_append, quiet, List.append_nil, views.observed]
  · rw [received_append_of_quiet rfl quiet, views.held]

/-- While the tracer is enabled, an event is numbered, and held if it is kept. -/
theorem observe (views : Views config steps t) (on : t.config.enabled = true) (time : Nat)
    (event : Event)
    : Views config (steps ++ [.observe event]) (t.record time event) := by
  have on' : steps.foldl Step.enables config.enabled = true := by rw [← on, views.settings]
  have keeps : t.config.keeps event = config.keeps event := by
    rw [views.settings]
    rfl
  refine ⟨?_, ?_, ?_, ?_⟩
  · simpa [record, on, Step.enables] using views.settings
  · cases kept : config.keeps event <;>
      simp [record, on, keeps, kept, TraceBuffer.push, views.room]
  · simp [record, on, on', views.observed, observedEvents_append, observedEvents]
  · rw [received_observe on', List.filter_append]
    cases kept : config.keeps event with
    | false => simpa [record, on, keeps, kept, Tracer.held] using views.held
    | true =>
      have pushed : (t.record time event).held
          = (t.held ++ [(t.observed, event)]).rtake t.buffer.capacity := by
        simp only [Tracer.held, record, on, keeps, kept, if_true, TraceBuffer.records_push]
        simp [List.rtake]
      rw [pushed, views.held, views.observed, views.room, rtake_append_rtake]
      simp [kept]

theorem setEnabled (views : Views config steps t) (enabled : Bool)
    : Views config (steps ++ [.setEnabled enabled]) (t.setEnabled enabled) where
  settings := by simp [Tracer.setEnabled, views.settings, Step.enables]
  room := views.room
  observed := by
    rw [observedEvents_append]
    simpa [observedEvents, Tracer.setEnabled] using views.observed
  held := by
    rw [received_append_of_quiet rfl rfl]
    exact views.held

theorem clear (views : Views config steps t) : Views config (steps ++ [.clear]) t.clear where
  settings := by simpa [Tracer.clear, Step.enables] using views.settings
  room := views.room
  observed := by
    rw [observedEvents_append]
    simpa [observedEvents, Tracer.clear] using views.observed
  held := by simp [received_clear, Tracer.clear, Tracer.held, TraceBuffer.clear]

end Views

/-- By induction on the steps, the last one first. -/
theorem views_run (config : TracerConfig) (clock : Nat → Nat) (steps : List Step)
    : Views config steps (run clock (ofConfig config) steps) := by
  induction steps using List.reverseRecOn with
  | nil => exact ⟨rfl, rfl, rfl, (List.rtake_nil ..).symm⟩
  | append_singleton steps step ih =>
    rw [run_append_singleton]
    cases step with
    | observe event =>
      cases on : (run clock (ofConfig config) steps).config.enabled with
      | false => exact ih.ignore on _ event
      | true => exact ih.observe on _ event
    | setEnabled enabled => exact ih.setEnabled enabled
    | clear => exact ih.clear

theorem length_observedEvents_le_length (enabled : Bool) (steps : List Step)
    : (observedEvents enabled steps).length ≤ steps.length := by
  induction steps generalizing enabled with
  | nil => exact Nat.le_refl 0
  | cons step rest ih =>
    cases step with
    | observe event =>
      cases enabled with
      | false => exact Nat.le_succ_of_le (ih false)
      | true => exact Nat.succ_le_succ (ih true)
    | setEnabled enabled' => exact Nat.le_succ_of_le (ih enabled')
    | clear => exact Nat.le_succ_of_le (ih enabled)

/-- Without a filter and with room for the whole stream, a tracer holds all that it received. -/
theorem held_of_unfiltered (config : TracerConfig) (clock : Nat → Nat) {room : Nat}
    (enough : steps.length ≤ room)
    : (run clock (ofConfig { config with kept := [], capacity := room }) steps).held
      = received config.enabled steps := by
  have bounded := length_observedEvents_le_length config.enabled steps
  have all : (received config.enabled steps).length - room = 0 := by
    rw [received, List.length_drop, numbered, List.length_map, List.length_zipIdx]
    omega
  have kept : (received config.enabled steps).filter
      (fun p => { config with kept := [], capacity := room }.keeps p.2)
      = received config.enabled steps :=
    List.filter_eq_self.mpr fun _ _ => rfl
  have held := (views_run { config with kept := [], capacity := room } clock steps).held
  rwa [kept, List.rtake, all, List.drop_zero] at held

theorem numbered_eq_some_of_mem {p : Nat × Event} (member : p ∈ received enabled steps)
    : (observedEvents enabled steps)[p.1]? = some p.2 := by
  obtain ⟨q, here, rfl⟩ := List.mem_map.mp (List.mem_of_mem_drop member)
  exact List.mem_zipIdx_iff_getElem?.mp here

theorem pairwise_received (enabled : Bool) (steps : List Step)
    : (received enabled steps).Pairwise (·.1 < ·.1) := by
  refine List.Pairwise.drop (List.pairwise_map.mpr ?_)
  have numbers : ((observedEvents enabled steps).zipIdx.map Prod.snd).Pairwise (· < ·) := by
    rw [List.zipIdx_map_snd]
    exact List.pairwise_lt_range'
  exact List.pairwise_map.mp numbers

theorem Views.sublist {config : TracerConfig} {t : Tracer} (views : Views config steps t)
    : t.held.Sublist (received config.enabled steps) := by
  rw [views.held]
  exact (List.drop_sublist ..).trans List.filter_sublist

/-- Every record is of the event that its number tells, counted among all that were observed. -/
theorem Views.event_eq {config : TracerConfig} {t : Tracer} (views : Views config steps t)
    {r : TraceRecord} (member : r ∈ t.buffer.records)
    : (observedEvents config.enabled steps)[r.sequence]? = some r.event :=
  numbered_eq_some_of_mem (views.sublist.subset (List.mem_map_of_mem member))

/-- Take a tracer and a stream of events during which it is enabled, disabled and cleared, and let
another one without a filter and with room for the whole stream follow the same stream by a clock of
its own. The other one holds every event that was observed since it was cleared, under the number of
those observed before. The tracer holds the latest of them whose names it keeps, as many as it has
room for, under the same numbers. So numbers ascend, and if another tracer of the same stream, with
whatever filter, room and clock, holds a record of the same number, it is of the same event.
-/
theorem holds_view_of_unfiltered (config : TracerConfig) (clock clock' : Nat → Nat)
    (steps : List Step) {room : Nat} (enough : steps.length ≤ room)
    : (run clock (ofConfig config) steps).held
        = ((run clock' (ofConfig { config with kept := [], capacity := room }) steps).held.filter
          fun p => config.kept = [] ∨ p.2.name ∈ config.kept).rtake config.capacity
      ∧ (run clock' (ofConfig { config with kept := [], capacity := room }) steps).held
        = received config.enabled steps
      ∧ (run clock (ofConfig config) steps).observed
        = (observedEvents config.enabled steps).length
      ∧ (run clock (ofConfig config) steps).held.Pairwise (·.1 < ·.1)
      ∧ (∀ r ∈ (run clock (ofConfig config) steps).buffer.records,
        (observedEvents config.enabled steps)[r.sequence]? = some r.event)
      ∧ ∀ kept capacity clock'', ∀ r ∈ (run clock (ofConfig config) steps).buffer.records,
        ∀ r' ∈ (run clock'' (ofConfig { config with kept, capacity }) steps).buffer.records,
          r.sequence = r'.sequence → r.event = r'.event := by
  have views := views_run config clock steps
  have all := held_of_unfiltered config clock' enough
  have keeps (p : Nat × Event)
      : config.keeps p.2 = decide (config.kept = [] ∨ p.2.name ∈ config.kept) := by
    have empty : config.kept.isEmpty = decide (config.kept = []) := by
      cases config.kept <;> rfl
    simp [TracerConfig.keeps, empty]
  refine ⟨?_, all, views.observed, (pairwise_received _ steps).sublist views.sublist,
    fun r => views.event_eq, fun kept capacity clock'' r member r' member' same => ?_⟩
  · simp only [all, views.held, keeps]
  · have here := views.event_eq member
    have there := (views_run { config with kept, capacity } clock'' steps).event_eq member'
    rw [same] at here
    exact Option.some.inj (here.symm.trans there)

end Tracer

namespace Sample

open Tracer

/-- Two of the queries that came to an end. -/
def completions : TracerConfig := { enabled := true, capacity := 2, kept := ["query-completed"] }

/-- A stream with events before a clearing, while the tracer is disabled, and that are not kept. -/
def stream : List Step :=
  [.observe (.queryStarted "late"), .observe (.queryCompleted "late" 1), .clear,
    .observe (.queryCompleted "late" 2), .setEnabled false, .observe (.queryCompleted "late" 3),
    .setEnabled true, .observe (.queryStarted "late"), .observe (.queryCompleted "late" 4),
    .observe (.queryCompleted "late" 5)]

/-- The two last ones are held under the numbers that a tracer without a filter gives them. -/
theorem completions_holds_view
    : stream.length ≤ 10
      ∧ (run id (ofConfig completions) stream).held
        = [(4, .queryCompleted "late" 4), (5, .queryCompleted "late" 5)]
      ∧ (run id (ofConfig completions) stream).held
        = ((run (· * 2) (ofConfig { completions with kept := [], capacity := 10 })
            stream).held.filter fun p =>
          completions.kept = [] ∨ p.2.name ∈ completions.kept).rtake 2
      ∧ ∃ r ∈ (run id (ofConfig completions) stream).buffer.records,
        ∃ r' ∈ (run (· * 3) (ofConfig { completions with kept := [], capacity := 3 })
            stream).buffer.records,
          r.sequence = r'.sequence ∧ r.id ≠ r'.id ∧ r.event = r'.event := by
  obtain ⟨view, -, -, -, -, agree⟩ :=
    holds_view_of_unfiltered completions id (· * 2) stream (show stream.length ≤ 10 by decide)
  let first : TraceRecord := ⟨2, 4, 8, .queryCompleted "late" 4⟩
  let other : TraceRecord := ⟨4, 4, 24, .queryCompleted "late" 4⟩
  have held : first ∈ (run id (ofConfig completions) stream).buffer.records := .head _
  have heard : other ∈ (run (· * 3) (ofConfig { completions with kept := [], capacity := 3 })
      stream).buffer.records :=
    .tail _ (.head _)
  exact ⟨by decide, rfl, view, first, held, other, heard, rfl, by decide,
    agree [] 3 (· * 3) first held other heard rfl⟩

end Sample

end RuleEngine
