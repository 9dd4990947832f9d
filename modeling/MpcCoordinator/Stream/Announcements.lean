import MpcCoordinator.Stream.Tracking
import MpcCoordinator.Execution.Waiting
import MpcCoordinator.Browser.Provenance

namespace MpcCoordinator.StreamServerState

open CoordinatorExecutionState (noticesFor RoundEffect)

variable {listener : CoordinatorListener} {s : StreamServerState} {e : ExecutionId} {round : Round}
  {sink : SubscriptionSink} {d d' : CoordinatorExecutionState} {queued : List StreamMessage}
  {sends : List (StreamMessage × Bool)}

/-- How a subscription to a round stands: it is parked and was sent nothing, or
the round was entered and its event is all that was sent or will be. -/
def RoundServed (d : CoordinatorExecutionState) (round : Round) (sink : SubscriptionSink)
    (queued : List StreamMessage) (sends : List (StreamMessage × Bool)) : Prop :=
  (d.transEvents round = none ∧ sink ∈ d.sinkList (.round round) ∧ queued = [] ∧ sends = []) ∨
    ∃ event, d.transEvents round = some event ∧ sends.map Prod.fst ++ queued = [.event event]

/-- The round subscription that a section brings is parked or answered. -/
theorem RoundServed.of_subscription {caller : ClientIdentity} {reply : RpcResult Unit} (starts : round ≠ .idle)
    (moved : d.Step listener.topology ⟨caller, .subRound round sink, reply⟩ d') :
    RoundServed d' round sink (newNotices listener e d ⟨caller, .subRound round sink, reply⟩ (.round round) sink) [] := by
  rcases CoordinatorExecutionState.handed_subRound moved with
    ⟨_, idle, _⟩ | ⟨event, recorded, rfl, told⟩ | ⟨_, absent, rfl, told⟩
  · exact absurd idle starts
  · refine Or.inr ⟨event, recorded, ?_⟩
    simp [newNotices, told, noticesFor, Mail.select, Notice.addressed]
  · refine Or.inl ⟨absent, ?_, by simp [newNotices, told, noticesFor], rfl⟩
    simp [CoordinatorExecutionState.sinkList]

/-- Any other section leaves it so, or enters the round and tells the parked. -/
theorem RoundServed.of_effect {notices : List Notice} {action : Action}
    (served : RoundServed d round sink queued sends) (effect : RoundEffect round d action d' notices)
    (single : (d.sinkList (.round round)).Nodup) (other : action ≠ .subRound round sink) :
    RoundServed d' round sink (queued ++ Mail.select ⟨e, .round round, sink⟩ (notices.map (Notice.addressed e)))
      sends := by
  cases effect with
  | still events parked nothing =>
    subst nothing
    simpa [RoundServed, CoordinatorExecutionState.sinkList, events, parked] using served
  | parked new _ _ absent still parked nothing =>
    subst nothing
    rcases served with ⟨_, member, unqueued, unsent⟩ | ⟨event, entered, _⟩
    · refine Or.inl ⟨still, ?_, by simp [unqueued], unsent⟩
      simp only [CoordinatorExecutionState.sinkList, parked, Option.getD_some]
      exact List.mem_append_left _ member
    · simp [absent] at entered
  | answered new event asks _ same told =>
    subst same told
    have elsewhere : new ≠ sink := by
      rintro rfl
      exact other asks
    have nothing : Mail.select ⟨e, .round round, sink⟩
        ([⟨.round round, new, .event event⟩].map (Notice.addressed e)) = [] :=
      Mail.select_eq_nil (by simp [Notice.addressed, elsewhere])
    rw [nothing, List.append_nil]
    exact served
  | announced event _ absent entered _ told =>
    subst told
    rcases served with ⟨_, member, unqueued, unsent⟩ | ⟨earlier, before, _⟩
    · refine Or.inr ⟨event, entered, ?_⟩
      rw [List.map_map, unqueued, unsent]
      exact Mail.select_map (fun sink => (⟨e, .round round, sink⟩ : StreamSubscription)) single
        (fun _ _ same => congrArg StreamSubscription.sink same) (fun _ => StreamMessage.event event) member
    · simp [absent] at before

theorem newSends_round (call : Call) : newSends e d call (.round round) sink = [] := by
  rw [newSends, CoordinatorExecutionState.sendsFor_round]
  rfl

theorem rounds_tracked (listener : CoordinatorListener) (e : ExecutionId) :
    Tracks listener .round e RoundServed where
  brought := by
    rintro d ⟨caller, action, reply⟩ d' round sink delivered moved rfl starts _
    rw [newSends_round]
    exact .of_subscription (fun idle => starts (by rw [idle])) moved
  kept := by
    intro registration d call d' round sink queued sends coherent moved served single other _
    rw [newSends_round, List.append_nil]
    refine served.of_effect (moved.roundEffect coherent round) ?_ (other fun _ => true)
    simpa [CoordinatorExecutionState.takenSinks] using single
  sent := by
    rintro d round sink queued sends message (⟨_, _, rfl, _⟩ | ⟨event, entered, total⟩) member
    · cases member
    -- the one message there is cannot have been sent before
    · cases sends with
      | nil =>
        rw [List.map_nil, List.nil_append] at total
        subst total
        obtain rfl := List.mem_singleton.mp member
        exact ⟨rfl, fun delivered => Or.inr ⟨event, entered, rfl⟩⟩
      | cons first rest =>
        have empty := (List.append_eq_nil_iff.mp (List.cons.inj total).2).2
        rw [empty] at member
        cases member

/-- The messages of a round subscription: the event of its round, once that was entered. -/
theorem round_messages {trace : List (Transition StreamServerState StreamEvent)} (run : Run (Step listener) start trace s)
    (remains : Remains e trace) (here : s.live e = some d) (member : ⟨e, .round round, sink⟩ ∈ s.accepted) :
    (s.sentOn sink).map Prod.fst ++ s.owedOn sink = (d.transEvents round).toList.map .event := by
  have addressed : WellAddressed s := .of_run run
  rw [addressed.sentOn_eq member, addressed.owedOn_eq member]
  rcases ((rounds_tracked listener e).of_run run remains).standing d here round sink member with
    ⟨absent, _, unqueued, unsent⟩ | ⟨event, entered, total⟩
  · simp [absent, unqueued, unsent]
  · simp [entered, total]

/-- Whenever it subscribed, before, during or after a change of rounds, a
subscription to a round of an execution that stays registered is sent the event
of that round exactly once, and nothing before the round is entered; what is
still owed is sent in the end. Nobody is parked for a round that was entered. -/
theorem round_subscribers_told_once {trace : List (Transition StreamServerState StreamEvent)}
    (run : Run (Step listener) start trace s) (remains : Remains e trace) (here : s.live e = some d) :
    (∀ round, (d.transEvents round).isSome = true → d.sinks round = none) ∧
    (∀ round sink, ⟨e, .round round, sink⟩ ∈ s.accepted →
      (s.sentOn sink).map Prod.fst ++ s.owedOn sink = (d.transEvents round).toList.map .event) ∧
    ∃ sends settled, Run (Step listener) s sends settled ∧ settled.server = s.server ∧
      ∀ round sink, ⟨e, .round round, sink⟩ ∈ s.accepted →
        (settled.sentOn sink).map Prod.fst = (d.transEvents round).toList.map .event := by
  obtain ⟨registration, initial, calls, admitted, executed⟩ := exists_execution_run run here
  refine ⟨(CoordinatorExecutionState.ParkedAhead.of_run admitted executed).entered, fun round sink member => ?_, ?_⟩
  · exact round_messages run remains here member
  obtain ⟨sends, settled, sending, kept, server, accepted, empty⟩ := exists_settled listener true s
  refine ⟨sends, settled, sending, server, fun round sink member => ?_⟩
  have whole := run.append sending
  have remaining : Remains e (trace ++ sends) := fun τ inside =>
    (List.mem_append.mp inside).elim (remains τ) (kept e τ)
  have still : settled.live e = some d := by rw [live, server]; exact here
  have messages := round_messages whole remaining still (accepted ▸ member)
  have nothing : settled.owedOn sink = [] := by simp [owedOn, empty]
  rwa [nothing, List.append_nil] at messages

end MpcCoordinator.StreamServerState

namespace MpcCoordinator.Scenario

def roundCall (peer : ClientIdentity) : SubscriptionCall := ⟨execution, .round .preprocessing, peer, by decide⟩

/-- Two parties ask for `preprocessing`. One is parked when it starts, the other
has its handshake under way. -/
def askAround : List StreamEvent :=
  [.server (.register [1] (.unassigned 0 []) []), .request execution (.round .preprocessing) [1],
    .request execution (.round .preprocessing) [2], .subscribe (roundCall [1]) 0 (fun _ => true),
    .server (transition .preprocessing), .subscribe (roundCall [2]) 1 (fun _ => true),
    .send ⟨execution, .round .preprocessing, ⟨1, [2]⟩⟩ (.event (.preprocessingStarted [1])) true]

open StreamServerState in
theorem round_subscribers_told_once_around :
    ∃ trace s d, Run (Step .recorded) start trace s ∧ Remains execution trace ∧ s.live execution = some d ∧
      s.accepted = [⟨execution, .round .preprocessing, ⟨0, [1]⟩⟩, ⟨execution, .round .preprocessing, ⟨1, [2]⟩⟩] ∧
      ∀ round sink, ⟨execution, .round round, sink⟩ ∈ s.accepted →
        (s.sentOn sink).map Prod.fst ++ s.owedOn sink = (d.transEvents round).toList.map .event := by
  obtain ⟨trace, s, run, remains, seen⟩ := exists_run_of_events .recorded execution askAround
    (fun s => ((s.live execution).isSome, s.accepted))
    (true, [⟨execution, .round .preprocessing, ⟨0, [1]⟩⟩, ⟨execution, .round .preprocessing, ⟨1, [2]⟩⟩])
    (by decide +kernel)
  obtain ⟨present, accepted⟩ := Prod.mk.inj seen
  obtain ⟨d, here⟩ := Option.isSome_iff_exists.mp present
  exact ⟨trace, s, d, run, remains, here, accepted, (round_subscribers_told_once run remains here).2.1⟩

end MpcCoordinator.Scenario
