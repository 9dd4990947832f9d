import MpcCoordinator.Browser.Effects

namespace MpcCoordinator.CoordinatorBrowserState

open CoordinatorExecutionState (perform)

variable (listener : CoordinatorListener)

/-- The live execution under an id. -/
def live (s : CoordinatorBrowserState) (e : ExecutionId) : Option CoordinatorExecutionState :=
  s.coordinator.executions.lookup e

/-- The call that a step of the coordinator makes on one execution. -/
def callAt (e : ExecutionId) (τ : Transition CoordinatorBrowserState ServerEvent) :
    Option (Transition CoordinatorExecutionState Call) :=
  match sectionOf listener τ.source τ.event with
  | none => none
  | some (executionId, caller, action) =>
    if executionId = e then
      (τ.source.live e).bind fun d =>
        (perform listener.topology d caller action).map fun result => ⟨d, ⟨caller, action, result.1⟩, result.2⟩
    else none

/-- The calls made on an execution so far. They start anew when its id becomes
live, since what was there before is another execution. -/
def record (e : ExecutionId) (calls : List (Transition CoordinatorExecutionState Call))
    (τ : Transition CoordinatorBrowserState ServerEvent) : List (Transition CoordinatorExecutionState Call) :=
  if (τ.source.live e).isNone then [] else calls ++ (callAt listener e τ).toList

def callsOn (e : ExecutionId) (trace : List (Transition CoordinatorBrowserState ServerEvent)) :
    List (Transition CoordinatorExecutionState Call) :=
  trace.foldl (record listener e) []

theorem callsOn_append (e : ExecutionId) (trace : List (Transition CoordinatorBrowserState ServerEvent))
    (τ : Transition CoordinatorBrowserState ServerEvent) :
    callsOn listener e (trace ++ [τ]) = record listener e (callsOn listener e trace) τ := by
  simp [callsOn]

/-- What a step of the coordinator is for one execution id. -/
inductive Seen (e : ExecutionId) (τ : Transition CoordinatorBrowserState ServerEvent) :
    Option CoordinatorExecutionState → Option CoordinatorExecutionState → Prop
  | untouched {state} : callAt listener e τ = none → Seen e τ state state
  | called {d call d'} : callAt listener e τ = some ⟨d, call, d'⟩ → d.Step listener.topology call d' →
      Seen e τ (some d) (some d')
  | created {party registration order d} : τ.event = .register party registration order →
      registration.executionId = e → CoordinatorExecutionState.new registration listener.topology.n = .ok d →
      Seen e τ none (some d)
  | dropped {party registration order d} : τ.event = .register party registration order →
      τ.source.evictedBy listener party registration order = some e → Seen e τ (some d) none

variable {listener} {e : ExecutionId} {s s' : CoordinatorBrowserState} {event : ServerEvent}

theorem callAt_of_none (aside : sectionOf listener s event = none) : callAt listener e ⟨s, event, s'⟩ = none := by
  simp only [callAt, aside]

theorem Step.seen_section {executionId : ExecutionId} {caller : ClientIdentity} {action : Action}
    {reply : RpcResult Unit} (here : sectionOf listener s event = some (executionId, caller, action))
    (performed : (CoordinatorRPCServerConnectionBase.mk listener.topology caller).atExecution s.coordinator executionId
      action = some (reply, s'.coordinator)) : Seen listener e ⟨s, event, s'⟩ (s.live e) (s'.live e) := by
  rcases CoordinatorRPCServerConnectionBase.atExecution_cases performed with
    ⟨absent, _, same⟩ | ⟨d, after, present, step, stored⟩
  · simp only [live, same]
    refine .untouched ?_
    simp only [callAt, here]
    split
    · rename_i named
      rw [live, ← named, absent, Option.bind_none]
    · rfl
  by_cases named : executionId = e
  · subst named
    have before : s.live executionId = some d := present
    have later : s'.live executionId = some after := by
      rw [live, stored]
      exact CoordinatorRPCServerSharedBase.lookup_put_self after
    rw [before, later]
    refine .called ?_ step
    simp only [callAt, here, if_true, before, Option.bind_some]
    rw [show perform listener.topology d caller action = _ from step]
    rfl
  · have later : s'.live e = s.live e := by
      rw [live, stored]
      exact CoordinatorRPCServerSharedBase.lookup_put_of_ne after (Ne.symm named)
    rw [later]
    exact .untouched (by simp only [callAt, here, named, if_false])

theorem Step.seen (step : s.Step listener event s') (e : ExecutionId) :
    Seen listener e ⟨s, event, s'⟩ (s.live e) (s'.live e) := by
  cases step.touches with
  | nothing aside same =>
    simp only [live, same]
    exact .untouched (callAt_of_none aside)
  | @registration party registration order _ result =>
    have aside : callAt listener e ⟨s, .register party registration order, s'⟩ = none := callAt_of_none rfl
    simp only [live, result, CoordinatorRPCServerConnectionBase.registerExecution]
    split
    · exact .untouched aside
    rename_i member
    have member : listener.topology.isParty party = true := by simpa using member
    rw [CoordinatorRPCServerConnectionBase.answer_snd]
    have effect := s.coordinator.registerExecution_effect listener.topology registration order e
    generalize (s.coordinator.registerExecution listener.topology registration order).2.executions.lookup e = outcome
      at effect ⊢
    cases effect with
    | same => exact .untouched aside
    | created named absent admitted =>
      rw [absent]
      exact .created rfl named admitted
    | dropped gone present =>
      rw [present]
      exact .dropped rfl (by simp only [evictedBy, member, if_true, gone])
  | criticalSection here performed => exact Step.seen_section here performed

/-- The calls on a live execution are a run of it, from the state in which its
registration was admitted. -/
theorem exists_run_on {trace : List (Transition CoordinatorBrowserState ServerEvent)} {final : CoordinatorBrowserState}
    {d : CoordinatorExecutionState} (run : Run (Step listener) start trace final) (here : final.live e = some d) :
    ∃ registration initial, registration.executionId = e ∧
      CoordinatorExecutionState.new registration listener.topology.n = .ok initial ∧
      Run (CoordinatorExecutionState.Step listener.topology) initial (callsOn listener e trace) d := by
  induction run generalizing d with
  | start => cases here
  | @next earlier current event after previous step ih =>
    rw [callsOn_append]
    have seen := step.seen e
    simp only [record]
    generalize current.live e = before at ih seen ⊢
    rw [here] at seen
    cases seen with
    | untouched aside =>
      obtain ⟨registration, initial, named, admitted, run⟩ := ih rfl
      exact ⟨registration, initial, named, admitted, by simpa [aside] using run⟩
    | called call step =>
      obtain ⟨registration, initial, named, admitted, run⟩ := ih rfl
      exact ⟨registration, initial, named, admitted, by simpa [call] using run.next step⟩
    | created _ named admitted => exact ⟨_, d, named, admitted, .start⟩

end MpcCoordinator.CoordinatorBrowserState
