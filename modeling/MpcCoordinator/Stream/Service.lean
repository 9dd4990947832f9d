import MpcCoordinator.Execution.Streams
import MpcCoordinator.Browser.Projection
import MpcCoordinator.General.Mail

namespace MpcCoordinator

/-- A subscription call that found its execution and whose handshake is under
way; `idle`, which never starts, is turned down before. -/
structure SubscriptionCall where
  executionId : ExecutionId
  topic : Topic
  peer : ClientIdentity
  starts : topic ≠ .round .idle
  deriving DecidableEq

/-- An accepted subscription. -/
structure StreamSubscription where
  executionId : ExecutionId
  topic : Topic
  sink : SubscriptionSink
  deriving DecidableEq, Repr

/-- A coordinator with the subscription calls that are in flight, the
subscriptions that were accepted in order, and the messages to them. -/
structure StreamServerState where
  server : CoordinatorBrowserState
  accepting : List SubscriptionCall
  accepted : List StreamSubscription
  mail : Mail StreamSubscription StreamMessage

/-- The critical sections of subscription calls and of all others, and what
happens on the network: handshakes and sends succeed or not. -/
inductive StreamEvent where
  | server (event : ServerEvent)
  | request (executionId : ExecutionId) (topic : Topic) (peer : ClientIdentity)
  | abandon (call : SubscriptionCall)
  | subscribe (call : SubscriptionCall) (handle : Nat) (delivered : Nat → Bool)
  | send (subscription : StreamSubscription) (message : StreamMessage) (delivered : Bool)

/-- The section is the last one of a subscription call. -/
def Action.isSubscription : Action → Bool
  | .subRound .. | .subReservedIndices .. | .subMaskedInputs .. | .subAssignedReservedIndices ..
  | .subAssignedMaskedInputs .. => true
  | _ => false

theorem Topic.isSubscription (topic : Topic) (sink : SubscriptionSink) (delivered : Nat → Bool) :
    (topic.subscription sink delivered).isSubscription = true := by
  rcases topic with start | stream
  · rfl
  · cases stream <;> rfl

/-- The notices of an execution, with the subscriptions they are for. -/
def Notice.addressed (e : ExecutionId) (notice : Notice) : StreamSubscription × StreamMessage :=
  (⟨e, notice.topic, notice.sink⟩, notice.message)

/-- The sends of an execution, with the subscriptions they were for. -/
def addressedSend (e : ExecutionId) (send : Notice × Bool) : StreamSubscription × StreamMessage × Bool :=
  (⟨e, send.1.topic, send.1.sink⟩, send.1.message, send.2)

def EventStream.all : List EventStream :=
  [.reservedIndices, .maskedInputs, .assignedReservedIndices, .assignedMaskedInputs]

theorem EventStream.mem_all (stream : EventStream) : stream ∈ EventStream.all := by
  cases stream <;> decide

namespace StreamServerState

variable (listener : CoordinatorListener) (s : StreamServerState)

def start : StreamServerState := ⟨.start, [], [], .empty⟩

def live (e : ExecutionId) : Option CoordinatorExecutionState := s.server.live e

/-- The messages after a critical section on an execution. -/
def correspond (executionId : ExecutionId) (caller : ClientIdentity) (action : Action) :
    Mail StreamSubscription StreamMessage :=
  match s.live executionId with
  | none => s.mail
  | some d =>
    (s.mail.hand ((d.handed listener.topology caller action).map (Notice.addressed executionId))).post
      ((d.posted caller action).map (addressedSend executionId))

/-- The end of a submission reports what became of its sends. -/
def reports (executionId : ExecutionId) (delivered : SubscriptionSink → Bool) : Bool :=
  match s.live executionId with
  | none => true
  | some d => EventStream.all.all fun stream => (d.takenSinks (.stream stream)).all fun sink =>
      decide (s.mail.queuedFor ⟨executionId, .stream stream, sink⟩ = [] ∧
        s.mail.lastOutcome ⟨executionId, .stream stream, sink⟩ = some (delivered sink))

/-- Subscriptions of native connections are run by the calls in flight, and a
submission only goes on when all its sends are done. -/
def mayRun (event : ServerEvent) : Bool :=
  match CoordinatorBrowserState.sectionOf listener s.server event with
  | none => true
  | some (executionId, _, .finishSubmission delivered) => s.reports executionId delivered
  | some (_, _, action) => !action.isSubscription

/-- The checks of a subscription call before its handshake. -/
def request (executionId : ExecutionId) (topic : Topic) (peer : ClientIdentity) : StreamServerState :=
  if idle : topic = .round .idle then s
  else if (s.live executionId).isNone then s
  else { s with accepting := ⟨executionId, topic, peer, idle⟩ :: s.accepting }

/-- The critical section after the handshake, in which the sink is registered
or told the history. -/
def subscribe (call : SubscriptionCall) (handle : Nat) (delivered : Nat → Bool) : Option StreamServerState :=
  let sink : SubscriptionSink := ⟨handle, call.peer⟩
  let action := call.topic.subscription sink delivered
  (s.server.next listener (.native call.executionId call.peer action)).map fun server =>
    { server := server
      accepting := s.accepting.erase call
      accepted := s.accepted ++ [⟨call.executionId, call.topic, sink⟩]
      mail := s.correspond listener call.executionId call.peer action }

/-- A section of another call, with the messages it gives rise to. -/
def serve (event : ServerEvent) : Option StreamServerState :=
  (s.server.next listener event).map fun server =>
    { s with
      server := server
      mail :=
        match CoordinatorBrowserState.sectionOf listener s.server event with
        | none => s.mail
        | some (executionId, caller, action) => s.correspond listener executionId caller action }

/-- A call only goes on while it is in flight, each accepted subscription is a
new one, and only what was handed over is sent. -/
def enabled : StreamEvent → Bool
  | .server event => s.mayRun listener event
  | .request .. => true
  | .abandon call => decide (call ∈ s.accepting)
  | .subscribe call handle _ =>
    decide (call ∈ s.accepting) && decide (⟨handle, call.peer⟩ ∉ s.accepted.map StreamSubscription.sink)
  | .send subscription message _ => decide ((subscription, message) ∈ s.mail.outbox)

def run : StreamEvent → Option StreamServerState
  | .server event => s.serve listener event
  | .request executionId topic peer => some (s.request executionId topic peer)
  | .abandon call => some { s with accepting := s.accepting.erase call }
  | .subscribe call handle delivered => s.subscribe listener call handle delivered
  | .send subscription message delivered =>
    some { s with mail := s.mail.send (subscription, message) delivered }

def next (event : StreamEvent) : Option StreamServerState :=
  if s.enabled listener event then s.run listener event else none

/-- One step of the coordinator, with its subscriptions in view. -/
def Step (event : StreamEvent) (s' : StreamServerState) : Prop := s.next listener event = some s'

/-- What a step is for one execution. Every property of subscriptions is proved
by these cases. -/
inductive Observed (e : ExecutionId) (s s' : StreamServerState) : Prop
  | aside : s'.live e = s.live e →
      (∀ subscription, subscription.executionId = e → (subscription ∈ s'.accepted ↔ subscription ∈ s.accepted)) →
      (∀ subscription, subscription.executionId = e → Mail.SameFor subscription s.mail s'.mail) → Observed e s s'
  | called (d : CoordinatorExecutionState) (call : Call) (d' : CoordinatorExecutionState) :
      s.live e = some d → s'.live e = some d' → d.Step listener.topology call d' →
      call.action.isSubscription = false →
      (∀ delivered, call.action = .finishSubmission delivered → s.reports e delivered = true) →
      s'.accepted = s.accepted → s'.mail = s.correspond listener e call.caller call.action → Observed e s s'
  | subscribed (d : CoordinatorExecutionState) (topic : Topic) (sink : SubscriptionSink) (delivered : Nat → Bool)
      (call : Call) (d' : CoordinatorExecutionState) :
      s.live e = some d → s'.live e = some d' → d.Step listener.topology call d' →
      call.action = topic.subscription sink delivered → topic ≠ .round .idle →
      sink ∉ s.accepted.map StreamSubscription.sink → s'.accepted = s.accepted ++ [⟨e, topic, sink⟩] →
      s'.mail = s.correspond listener e call.caller call.action → Observed e s s'
  | sent (subscription : StreamSubscription) (message : StreamMessage) (delivered : Bool) :
      (subscription, message) ∈ s.mail.outbox → s'.live e = s.live e → s'.accepted = s.accepted →
      s'.mail = s.mail.send (subscription, message) delivered → Observed e s s'
  | created (registration : ExecutionRegistration) (d : CoordinatorExecutionState) : s.live e = none →
      s'.live e = some d → CoordinatorExecutionState.new registration listener.topology.n = .ok d →
      s'.accepted = s.accepted → s'.mail = s.mail → Observed e s s'
  | gone : s'.live e = none →
      (∀ subscription ∈ s'.accepted, subscription.executionId = e →
        subscription ∈ s.accepted ∨ ∃ call ∈ s.accepting, call.executionId = e) →
      (∀ subscription, subscription.executionId = e → Mail.SameFor subscription s.mail s'.mail) → Observed e s s'

variable {listener s} {event : StreamEvent} {s' : StreamServerState} {e : ExecutionId}

theorem Step.enabled_run (step : s.Step listener event s') :
    s.enabled listener event = true ∧ s.run listener event = some s' := by
  unfold Step next at step
  split at step
  · rename_i enabled
    exact ⟨enabled, step⟩
  · cases step

/-- A subscription call is turned away, or let in to its handshake when its
execution is live. -/
theorem request_cases (executionId : ExecutionId) (topic : Topic) (peer : ClientIdentity) :
    s.request executionId topic peer = s ∨ ∃ call : SubscriptionCall, (s.live call.executionId).isSome = true ∧
      s.request executionId topic peer = { s with accepting := call :: s.accepting } := by
  unfold request
  split
  · exact .inl rfl
  split
  · exact .inl rfl
  · rename_i found
    exact .inr ⟨_, by simpa [Option.isSome_iff_ne_none] using found, rfl⟩

/-- The messages of one execution are none of another's. -/
theorem correspond_sameFor {executionId : ExecutionId} (different : executionId ≠ e) {subscription : StreamSubscription}
    (named : subscription.executionId = e) (caller : ClientIdentity) (action : Action) :
    Mail.SameFor subscription s.mail (s.correspond listener executionId caller action) := by
  unfold correspond
  split
  · exact .refl _ _
  · refine Mail.sameFor_of_select (Mail.select_eq_nil ?_) (Mail.select_eq_nil ?_)
    · intro entry member same
      obtain ⟨notice, _, rfl⟩ := List.mem_map.mp member
      exact different (by rw [← named, ← same]; rfl)
    · intro entry member same
      obtain ⟨send, _, rfl⟩ := List.mem_map.mp member
      exact different (by rw [← named, ← same]; rfl)

/-- What a section on an execution hands over for a subscription to it. -/
theorem queuedFor_correspond {d : CoordinatorExecutionState} (here : s.live e = some d) (caller : ClientIdentity)
    (action : Action) (topic : Topic) (sink : SubscriptionSink) :
    (s.correspond listener e caller action).queuedFor ⟨e, topic, sink⟩ = s.mail.queuedFor ⟨e, topic, sink⟩ ++
      Mail.select ⟨e, topic, sink⟩ ((CoordinatorExecutionState.noticesFor topic
        (d.handed listener.topology caller action)).map (Notice.addressed e)) := by
  simp only [correspond, here, Mail.queuedFor_post, Mail.queuedFor_hand]
  congr 1
  refine (Mail.select_map_filter fun notice named => ?_).symm
  exact decide_eq_true (congrArg StreamSubscription.topic named)

/-- What a section on an execution sends on a subscription to it. -/
theorem sendsTo_correspond {d : CoordinatorExecutionState} (here : s.live e = some d) (caller : ClientIdentity)
    (action : Action) (topic : Topic) (sink : SubscriptionSink) :
    (s.correspond listener e caller action).sendsTo ⟨e, topic, sink⟩ = s.mail.sendsTo ⟨e, topic, sink⟩ ++
      Mail.select ⟨e, topic, sink⟩ ((CoordinatorExecutionState.sendsFor topic (d.posted caller action)).map
        (addressedSend e)) := by
  simp only [correspond, here, Mail.sendsTo_post, Mail.sendsTo_hand]
  congr 1
  refine (Mail.select_map_filter fun send named => ?_).symm
  exact decide_eq_true (congrArg StreamSubscription.topic named)

/-- A critical section of the server, seen from one execution. -/
theorem section_cases {request : ServerEvent} {server : CoordinatorBrowserState}
    {executionId : ExecutionId} {caller : ClientIdentity} {action : Action} (e : ExecutionId)
    (step : s.server.Step listener request server)
    (here : CoordinatorBrowserState.sectionOf listener s.server request = some (executionId, caller, action)) :
    (executionId ≠ e ∧ server.live e = s.live e) ∨
      (executionId = e ∧ s.live e = none ∧ server.live e = none) ∨
      ∃ d reply d', executionId = e ∧ s.live e = some d ∧ server.live e = some d' ∧
        d.Step listener.topology ⟨caller, action, reply⟩ d' := by
  cases step.touches with
  | nothing aside => simp [here] at aside
  | registration => cases here
  | criticalSection there performed =>
    cases Option.some.inj (here.symm.trans there)
    rcases CoordinatorRPCServerConnectionBase.atExecution_cases performed with
      ⟨absent, _, same⟩ | ⟨d, d', present, moved, stored⟩
    · by_cases named : executionId = e
      · subst named
        exact Or.inr (Or.inl ⟨rfl, absent, by rw [CoordinatorBrowserState.live, same]; exact absent⟩)
      · exact Or.inl ⟨named, by rw [CoordinatorBrowserState.live, same]; rfl⟩
    · by_cases named : executionId = e
      · subst named
        refine Or.inr (Or.inr ⟨d, _, d', rfl, present, ?_, moved⟩)
        rw [CoordinatorBrowserState.live, stored]
        exact CoordinatorRPCServerSharedBase.lookup_put_self d'
      · refine Or.inl ⟨named, ?_⟩
        rw [CoordinatorBrowserState.live, stored]
        exact CoordinatorRPCServerSharedBase.lookup_put_of_ne d' (Ne.symm named)

/-- A step of the server that is no critical section of an execution. -/
theorem administration_cases {request : ServerEvent} {server : CoordinatorBrowserState} (e : ExecutionId)
    (step : s.server.Step listener request server)
    (aside : CoordinatorBrowserState.sectionOf listener s.server request = none) :
    server.live e = s.live e ∨ server.live e = none ∨
      ∃ registration d, s.live e = none ∧ server.live e = some d ∧
        CoordinatorExecutionState.new registration listener.topology.n = .ok d := by
  have seen := step.seen e
  have silent : CoordinatorBrowserState.callAt listener e ⟨s.server, request, server⟩ = none :=
    CoordinatorBrowserState.callAt_of_none aside
  unfold live
  generalize s.server.live e = before, server.live e = after at seen ⊢
  cases seen with
  | untouched => exact Or.inl rfl
  | called call =>
    rw [silent] at call
    cases call
  | created _ _ admitted => exact Or.inr (Or.inr ⟨_, _, rfl, rfl, admitted⟩)
  | dropped => exact Or.inr (Or.inl rfl)

theorem mayRun_section {request : ServerEvent} {executionId : ExecutionId} {caller : ClientIdentity} {action : Action}
    (here : CoordinatorBrowserState.sectionOf listener s.server request = some (executionId, caller, action))
    (permitted : s.mayRun listener request = true) :
    action.isSubscription = false ∧
      ∀ delivered, action = .finishSubmission delivered → s.reports executionId delivered = true := by
  unfold mayRun at permitted
  rw [here] at permitted
  cases action <;> simp_all [Action.isSubscription]

theorem Observed.of_serve {request : ServerEvent} (permitted : s.mayRun listener request = true)
    (served : s.serve listener request = some s') : Observed listener e s s' := by
  obtain ⟨server, step, rfl⟩ := Option.map_eq_some_iff.mp served
  have step : s.server.Step listener request server := step
  cases here : CoordinatorBrowserState.sectionOf listener s.server request with
  | none =>
    rcases administration_cases e step here with same | absent | ⟨registration, d, vacant, created, admitted⟩
    · exact .aside same (fun _ _ => Iff.rfl) fun subscription _ => .refl _ _
    · exact .gone absent (fun _ member _ => Or.inl member) fun subscription _ => .refl _ _
    · exact .created registration d vacant created admitted rfl rfl
  | some place =>
    obtain ⟨executionId, caller, action⟩ := place
    rcases section_cases e step here with ⟨elsewhere, same⟩ | ⟨rfl, vacant, absent⟩ | ⟨d, reply, d', rfl, before, after, moved⟩
    · exact .aside same (fun _ _ => Iff.rfl) fun subscription named => correspond_sameFor elsewhere named _ _
    · refine .gone absent (fun _ member _ => Or.inl member) fun subscription _ => ?_
      simp only [correspond, vacant]
      exact .refl _ _
    · obtain ⟨other, reported⟩ := mayRun_section here permitted
      exact .called d ⟨caller, action, reply⟩ d' before after moved other reported rfl rfl

theorem Observed.of_subscribe {call : SubscriptionCall} {handle : Nat} {delivered : Nat → Bool}
    (under : call ∈ s.accepting) (fresh : (⟨handle, call.peer⟩ : SubscriptionSink) ∉ s.accepted.map StreamSubscription.sink)
    (subscribed : s.subscribe listener call handle delivered = some s') : Observed listener e s s' := by
  obtain ⟨server, step, rfl⟩ := Option.map_eq_some_iff.mp subscribed
  have step : s.server.Step listener (.native call.executionId call.peer
    (call.topic.subscription ⟨handle, call.peer⟩ delivered)) server := step
  rcases section_cases e step rfl with ⟨elsewhere, same⟩ | ⟨named, vacant, absent⟩ | ⟨d, reply, d', named, before, after, moved⟩
  · refine .aside same (fun subscription named => ?_) fun subscription named => correspond_sameFor elsewhere named _ _
    rw [List.mem_append, List.mem_singleton, or_iff_left_iff_imp]
    rintro rfl
    exact absurd named elsewhere
  · refine .gone absent (fun _ _ _ => Or.inr ⟨call, under, named⟩) fun subscription _ => ?_
    subst named
    simp only [correspond, vacant]
    exact .refl _ _
  · subst named
    exact .subscribed d call.topic ⟨handle, call.peer⟩ delivered ⟨call.peer, _, reply⟩ d' before after moved rfl
      call.starts fresh rfl rfl

theorem Step.observed (step : s.Step listener event s') (e : ExecutionId) : Observed listener e s s' := by
  obtain ⟨enabled, moved⟩ := step.enabled_run
  cases event with
  | server request => exact .of_serve enabled moved
  | request executionId topic peer =>
    cases moved
    rcases request_cases executionId topic peer with same | ⟨call, _, same⟩
    · rw [same]
      exact .aside rfl (fun _ _ => Iff.rfl) fun _ _ => .refl _ _
    · rw [same]
      exact .aside rfl (fun _ _ => Iff.rfl) fun _ _ => .refl _ _
  | abandon call =>
    cases moved
    exact .aside rfl (fun _ _ => Iff.rfl) fun _ _ => .refl _ _
  | subscribe call handle delivered =>
    simp only [StreamServerState.enabled, Bool.and_eq_true, decide_eq_true_eq] at enabled
    exact .of_subscribe enabled.1 enabled.2 moved
  | send subscription message delivered =>
    cases moved
    exact .sent subscription message delivered (of_decide_eq_true enabled) rfl rfl rfl

/-- Accepted subscriptions are not forgotten, and every new one is new. -/
theorem Step.accepted (step : s.Step listener event s') :
    s'.accepted = s.accepted ∨
      ∃ subscription, subscription.sink ∉ s.accepted.map StreamSubscription.sink ∧ s'.accepted = s.accepted ++ [subscription] := by
  obtain ⟨enabled, moved⟩ := step.enabled_run
  cases event with
  | server request =>
    obtain ⟨server, _, rfl⟩ := Option.map_eq_some_iff.mp moved
    exact Or.inl rfl
  | request executionId topic peer =>
    cases moved
    rcases request_cases executionId topic peer with same | ⟨call, _, same⟩
    · exact Or.inl (by rw [same])
    · exact Or.inl (by rw [same])
  | abandon | send =>
    cases moved
    exact Or.inl rfl
  | subscribe call handle delivered =>
    obtain ⟨server, _, rfl⟩ := Option.map_eq_some_iff.mp moved
    simp only [StreamServerState.enabled, Bool.and_eq_true, decide_eq_true_eq] at enabled
    exact Or.inr ⟨_, enabled.2, rfl⟩

/-- A call is only let in to its handshake when its execution is live. -/
theorem Step.accepting (step : s.Step listener event s') {call : SubscriptionCall} (member : call ∈ s'.accepting) :
    call ∈ s.accepting ∨ ((s.live call.executionId).isSome = true ∧ s'.server = s.server) := by
  obtain ⟨_, moved⟩ := step.enabled_run
  cases event with
  | server request =>
    obtain ⟨server, _, rfl⟩ := Option.map_eq_some_iff.mp moved
    exact Or.inl member
  | request executionId topic peer =>
    cases moved
    rcases request_cases executionId topic peer with same | ⟨opened, found, same⟩
    · rw [same] at member
      exact Or.inl member
    · rw [same] at member ⊢
      rcases List.mem_cons.mp member with rfl | old
      · exact Or.inr ⟨found, rfl⟩
      · exact Or.inl old
  | abandon call =>
    cases moved
    exact Or.inl (List.mem_of_mem_erase member)
  | send =>
    cases moved
    exact Or.inl member
  | subscribe call handle delivered =>
    obtain ⟨server, _, rfl⟩ := Option.map_eq_some_iff.mp moved
    exact Or.inl (List.mem_of_mem_erase member)

/-- The coordinator itself takes its usual steps. -/
theorem Step.server (step : s.Step listener event s') :
    s'.server = s.server ∨ ∃ request, s.server.Step listener request s'.server := by
  obtain ⟨_, moved⟩ := step.enabled_run
  cases event with
  | server request =>
    obtain ⟨server, taken, rfl⟩ := Option.map_eq_some_iff.mp moved
    exact Or.inr ⟨request, taken⟩
  | request executionId topic peer =>
    cases moved
    rcases request_cases executionId topic peer with same | ⟨call, _, same⟩
    · exact Or.inl (by rw [same])
    · exact Or.inl (by rw [same])
  | abandon | send =>
    cases moved
    exact Or.inl rfl
  | subscribe call handle delivered =>
    obtain ⟨server, taken, rfl⟩ := Option.map_eq_some_iff.mp moved
    exact Or.inr ⟨_, taken⟩

theorem exists_server_run {trace : List (Transition StreamServerState StreamEvent)}
    (run : Run (Step listener) start trace s) :
    ∃ requests, Run (CoordinatorBrowserState.Step listener) .start requests s.server := by
  induction run with
  | start => exact ⟨[], .start⟩
  | next _ step ih =>
    obtain ⟨requests, served⟩ := ih
    rcases step.server with same | ⟨request, taken⟩
    · exact ⟨requests, by rwa [same]⟩
    · exact ⟨_, served.next taken⟩

theorem exists_execution_run {trace : List (Transition StreamServerState StreamEvent)}
    {d : CoordinatorExecutionState} (run : Run (Step listener) start trace s) (here : s.live e = some d) :
    ∃ registration initial calls, CoordinatorExecutionState.new registration listener.topology.n = .ok initial ∧
      Run (CoordinatorExecutionState.Step listener.topology) initial calls d := by
  obtain ⟨requests, served⟩ := exists_server_run run
  obtain ⟨registration, initial, _, admitted, calls⟩ := CoordinatorBrowserState.exists_run_on served here
  exact ⟨registration, initial, _, admitted, calls⟩

end StreamServerState

end MpcCoordinator
