import RuleEngine.Proofs.Engine.Tasks
import RuleEngine.Proofs.Join.Tuples

/-! The course of a rule that is fired: its action and the handlers of failures, the conditions that
are looked at afterwards, and the hooks around and after these. Each stage begins where the one
before it has left the engine, and a failure takes nothing back.
-/

namespace RuleEngine

variable {ν : Type}

/-- What comes of a program, if what it lets proceed comes to what `Lets` says. What was done before
a failure stays done, and what was noted stays for all that runs later.
-/
inductive Program.Course (c : Context) (Lets : Engine ν → Ran ν (Option Failure) → Prop)
    : {wrapping : Bool} → Program ν wrapping → Engine ν → Ran ν (Option Failure) → Prop where
  | done {wrapping : Bool} (e : Engine ν)
    : Course c Lets (.done : Program ν wrapping) e ⟨none, e, []⟩
  | fail {wrapping : Bool} (failure : Failure) (e : Engine ν)
    : Course c Lets (.fail failure : Program ν wrapping) e ⟨some failure, e, []⟩
  | note {wrapping : Bool} {next : Program ν wrapping} {e : Engine ν}
    {ran : Ran ν (Option Failure)} (n : ν)
    (onward : Course c Lets next { e with notes := e.notes ++ [n] } ran)
    : Course c Lets (.note n next) e { ran with output := .note n :: ran.output }
  | ask {wrapping : Bool} {k : ReplyKind} {request : Request ν k}
    {next : k.Reply ν → Program ν wrapping} {e e' : Engine ν} {reply : k.Reply ν}
    {out : List (Output ν)} {ran : Ran ν (Option Failure)}
    (answered : (request.perform c).run e = ⟨reply, e', out⟩)
    (onward : Course c Lets (next reply) e' ran)
    : Course c Lets (.ask request next) e { ran with output := out ++ ran.output }
  | proceed {next : Option Failure → Program ν true} {e e' : Engine ν} {failure? : Option Failure}
    {out : List (Output ν)} {ran : Ran ν (Option Failure)} (lets : Lets e ⟨failure?, e', out⟩)
    (onward : Course c Lets (next failure?) e' ran)
    : Course c Lets (.proceed next) e { ran with output := out ++ ran.output }

/-- The course of a program that wraps nothing. -/
abbrev Program.Alone (c : Context) (p : Program ν false) (e : Engine ν)
    (ran : Ran ν (Option Failure))
    : Prop :=
  p.Course c (fun _ _ => False) e ran

/-- The condition for afterwards that output reports as met by nothing. -/
def Output.unmet? : Output ν → Option (String × Nat)
  | event (.postConditionFailed rule index) => some (rule, index)
  | _ => none

@[simp]
theorem Output.unmet?_postConditionFailed (rule : String) (index : Nat)
    : (event (.postConditionFailed rule index) : Output ν).unmet? = some (rule, index) :=
  rfl

namespace Rule

/-- The action runs once. If it fails the first handler for the name of the failure takes over, if
there is one, and what it comes to is the outcome.
-/
inductive Acted (r : Rule ν) (c : Context) (e : Engine ν) : Ran ν (Option Failure) → Prop where
  | succeeded {ran : Ran ν (Option Failure)} (acts : (r.action c).Alone c e ran)
    (succeeds : ran.result = none)
    : Acted r c e ran
  | handled {acted ran : Ran ν (Option Failure)} {failure : Failure}
    {handler : Context → Failure → Program ν false}
    {before after : List (String × (Context → Failure → Program ν false))}
    (acts : (r.action c).Alone c e acted) (fails : acted.result = some failure)
    (split : r.handlers = before ++ (failure.name, handler) :: after)
    (first : ∀ entry ∈ before, entry.1 ≠ failure.name)
    (handles : (handler c failure).Alone c acted.engine ran)
    : Acted r c e
        { ran with
          output := acted.output ++ .event (.actionErrorHandled r.id failure) :: ran.output }
  | unhandled {ran : Ran ν (Option Failure)} {failure : Failure}
    (acts : (r.action c).Alone c e ran) (fails : ran.result = some failure)
    (none : ∀ entry ∈ r.handlers, entry.1 ≠ failure.name)
    : Acted r c e ran

/-- Looking at the conditions for afterwards only reports, and reports those that nothing meets. -/
structure Checked (r : Rule ν) (c : Context) (e : Engine ν) (out : List (Output ν)) : Prop where
  reports : ∀ o ∈ out, o.isReport
  unmet : out.filterMap (·.unmet?)
    = (r.postConditions.zipIdx.filter fun (condition, _) =>
        (e.store.join [condition] c.bindings).isEmpty).map fun (_, index) => (c.rule, index)

/-- To proceed is to act, and to look at the conditions for afterwards exactly if nothing is left to
complain of.
-/
inductive Proceeded (r : Rule ν) (c : Context) (e : Engine ν) : Ran ν (Option Failure) → Prop where
  | checked {ran : Ran ν (Option Failure)} {checks : List (Output ν)} (acted : r.Acted c e ran)
    (succeeds : ran.result = none) (checked : r.Checked c ran.engine checks)
    : Proceeded r c e { ran with output := ran.output ++ checks }
  | failed {ran : Ran ν (Option Failure)} {failure : Failure} (acted : r.Acted c e ran)
    (fails : ran.result = some failure)
    : Proceeded r c e ran

/-- The hook around decides whether and how often the rule proceeds, and what the outcome is. -/
inductive Wrapped (r : Rule ν) (c : Context) (e : Engine ν) : Ran ν (Option Failure) → Prop where
  | bare {ran : Ran ν (Option Failure)} (noHook : r.around = none) (proceeds : r.Proceeded c e ran)
    : Wrapped r c e ran
  | hooked {around : Context → Program ν true} {ran : Ran ν (Option Failure)}
    (hook : r.around = some around) (course : (around c).Course c (r.Proceeded c) e ran)
    : Wrapped r c e ran

/-- The last hook runs once, with the failure there was. Its own failure is only reported. -/
inductive Afterwards (r : Rule ν) (c : Context) (outcome : Option Failure) (e : Engine ν)
    : Engine ν → List (Output ν) → Prop where
  | bare (noHook : r.after = none) : Afterwards r c outcome e e []
  | quiet {after : Context → Option Failure → Program ν false} {ran : Ran ν (Option Failure)}
    (hook : r.after = some after) (course : (after c outcome).Alone c e ran)
    (succeeds : ran.result = none)
    : Afterwards r c outcome e ran.engine ran.output
  | failing {after : Context → Option Failure → Program ν false} {ran : Ran ν (Option Failure)}
    {failure : Failure} (hook : r.after = some after) (course : (after c outcome).Alone c e ran)
    (fails : ran.result = some failure)
    : Afterwards r c outcome e ran.engine
        (ran.output ++ [.event (.hookError r.id "after" failure)])

end Rule

-- --------------------------------------------------------------------------------------
-- Programs
-- --------------------------------------------------------------------------------------

/-- Running a program takes its course, by recursion on the program. -/
theorem Program.course_run {c : Context} {proceed : EngineM ν (Option Failure)}
    {Lets : Engine ν → Ran ν (Option Failure) → Prop}
    : ∀ {wrapping : Bool} (p : Program ν wrapping) (e : Engine ν),
        (wrapping = true → ∀ e, Lets e (proceed.run e)) →
          p.Course c Lets e ((p.run c proceed).run e)
  | _, .done, e, _ => .done e
  | _, .fail failure, e, _ => .fail failure e
  | _, .note n next, _, lets => .note n (course_run next _ lets)
  | _, .ask _ next, _, lets => .ask rfl (course_run (next _) _ lets)
  | _, .proceed next, e, lets => .proceed (lets rfl e) (course_run (next _) _ lets)

theorem Program.alone_execute (c : Context) (p : Program ν false) (e : Engine ν)
    : p.Alone c e ((p.execute c).run e) :=
  course_run p e nofun

/-- The handler for a name is the first that is registered for it. -/
theorem Rule.handler?_eq_some {r : Rule ν} {name : String}
    {handler : Context → Failure → Program ν false} (found : r.handler? name = some handler)
    : ∃ before after, r.handlers = before ++ (name, handler) :: after
        ∧ ∀ entry ∈ before, entry.1 ≠ name := by
  obtain ⟨before, after, split, first⟩ := List.lookup_eq_some_iff.mp found
  refine ⟨before, after, split, fun entry member same => ?_⟩
  simpa [same] using first entry member

theorem Rule.handler?_eq_none {r : Rule ν} {name : String} (none : r.handler? name = none)
    : ∀ entry ∈ r.handlers, entry.1 ≠ name := by
  intro entry member same
  simpa [same] using List.lookup_eq_none_iff.mp none entry member

namespace Engine

open EngineM

variable (r : Rule ν) (c : Context) (e : Engine ν)

/-- By cases on the outcome of the action and on whether there is a handler. -/
theorem act_acted : r.Acted c e ((act r c).run e) := by
  have acts := Program.alone_execute c (r.action c) e
  unfold act
  rw [run_bind]
  generalize ((r.action c).execute c).run e = acted at acts
  obtain ⟨outcome, e', out⟩ := acted
  cases outcome with
  | none => simpa using Rule.Acted.succeeded acts rfl
  | some failure =>
    cases found : r.handler? failure.name with
    | none => simpa [found] using Rule.Acted.unhandled acts rfl (Rule.handler?_eq_none found)
    | some handler =>
      obtain ⟨before, after, split, first⟩ := Rule.handler?_eq_some found
      simpa [found] using
        Rule.Acted.handled acts rfl split first (Program.alone_execute c (handler c failure) e')

/-- Looking at matches reports no condition for afterwards, by induction on the steps. -/
theorem unmet?_reportFaults (definition : String) (steps : List JoinStep)
    : ((reportFaults definition steps).run e).output.filterMap (·.unmet?) = [] := by
  induction steps with
  | nil => rfl
  | cons step rest ih =>
    cases step with
    | found m => exact ih
    | fault | endless => simpa [reportFaults, Output.unmet?] using ih

theorem unmet?_matchesFor (definition : String) (conditions : List Condition) (b : Bindings)
    (limit : Option Nat)
    : ((matchesFor definition conditions b limit).run e).output.filterMap (·.unmet?) = [] := by
  simpa [matchesFor] using unmet?_reportFaults e definition _

/-- By induction on the conditions. -/
theorem unmet?_checkPostConditions (index : Nat) (conditions : List Condition)
    : ((checkPostConditions c index conditions).run e).output.filterMap (·.unmet?)
      = ((conditions.zipIdx index).filter fun (condition, _) =>
          (e.store.join [condition] c.bindings).isEmpty).map fun (_, i) => (c.rule, i) := by
  induction conditions generalizing index with
  | nil => rfl
  | cons condition rest ih =>
    obtain ⟨same, -⟩ := Observes.reading.matchesFor c.rule [condition] c.bindings (some 1) e
    have result := result_matchesFor c.rule [condition] c.bindings (some 1) e
    have quiet := unmet?_matchesFor e c.rule [condition] c.bindings (some 1)
    unfold checkPostConditions
    rw [run_bind, result, same]
    cases found : e.store.join [condition] c.bindings with
    | nil => simp [found, quiet, ih]
    | cons m ms => simp [found, quiet, ih]

theorem proceed_proceeded : r.Proceeded c e ((proceed r c).run e) := by
  have acted := act_acted r c e
  unfold proceed
  rw [run_bind]
  generalize (act r c).run e = ran at acted
  obtain ⟨outcome, e', out⟩ := ran
  cases outcome with
  | some failure => simpa using Rule.Proceeded.failed acted rfl
  | none =>
    obtain ⟨same, reports⟩ := Observes.reading.checkPostConditions c 0 r.postConditions e'
    have checked : r.Checked c e' ((checkPostConditions c 0 r.postConditions).run e').output :=
      ⟨reports, unmet?_checkPostConditions c e' 0 r.postConditions⟩
    simpa [same] using Rule.Proceeded.checked acted rfl checked

theorem wrapped_wrapped : r.Wrapped c e ((wrapped r c).run e) := by
  unfold wrapped
  cases hook : r.around with
  | none => exact .bare hook (proceed_proceeded r c e)
  | some around =>
    exact .hooked hook (Program.course_run (around c) e fun _ => proceed_proceeded r c)

theorem runAfter_afterwards (outcome : Option Failure)
    : r.Afterwards c outcome e ((runAfter r c outcome).run e).engine
        ((runAfter r c outcome).run e).output := by
  unfold runAfter
  cases hook : r.after with
  | none => exact .bare hook
  | some after =>
    have course := Program.alone_execute c (after c outcome) e
    dsimp only
    rw [run_bind]
    generalize ((after c outcome).execute c).run e = ran at course
    obtain ⟨left, e', out⟩ := ran
    cases left with
    | none => simpa using Rule.Afterwards.quiet hook course rfl
    | some failure => simpa using Rule.Afterwards.failing hook course rfl

end Engine

end RuleEngine
