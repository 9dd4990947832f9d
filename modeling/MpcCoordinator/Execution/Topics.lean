import MpcCoordinator.Execution.Coherent

namespace MpcCoordinator

/-- The four streams of an execution that subscribers follow from its start. -/
inductive EventStream where
  | reservedIndices
  | maskedInputs
  | assignedReservedIndices
  | assignedMaskedInputs
  deriving DecidableEq, Repr

/-- What can be subscribed to: the start of a round, or a stream. -/
inductive Topic where
  | round (round : Round)
  | stream (stream : EventStream)
  deriving DecidableEq, Repr

/-- One message on a subscription. The assigned streams send batches. -/
inductive StreamMessage where
  | event (event : Event)
  | assignedReservations (reservations : List AssignedMaskReservation)
  | assignedInputs (events : List AssignedMaskedInputEvent)
  deriving DecidableEq, Repr

/-- One entry of a history. -/
inductive StreamItem where
  | event (event : Event)
  | assignedReservation (reservation : AssignedMaskReservation)
  | assignedInput (event : AssignedMaskedInputEvent)
  deriving DecidableEq, Repr

/-- The entries that a message carries. -/
def StreamMessage.items : StreamMessage → List StreamItem
  | .event item => [.event item]
  | .assignedReservations reservations => reservations.map .assignedReservation
  | .assignedInputs events => events.map .assignedInput

/-- A message for one subscriber of a topic. -/
structure Notice where
  topic : Topic
  sink : SubscriptionSink
  message : StreamMessage
  deriving DecidableEq, Repr

/-- The critical section that ends a subscription call. -/
def Topic.subscription (sink : SubscriptionSink) (delivered : Nat → Bool) : Topic → Action
  | .round start => .subRound start sink
  | .stream .reservedIndices => .subReservedIndices sink delivered
  | .stream .maskedInputs => .subMaskedInputs sink delivered
  | .stream .assignedReservedIndices => .subAssignedReservedIndices sink delivered
  | .stream .assignedMaskedInputs => .subAssignedMaskedInputs sink delivered

theorem Topic.subscription_inj {asked topic : Topic} {new sink : SubscriptionSink} {outcomes delivered : Nat → Bool}
    (same : asked.subscription new outcomes = topic.subscription sink delivered) : asked = topic ∧ new = sink := by
  rcases asked with start | stream <;> rcases topic with other | stream'
  · cases same
    exact ⟨rfl, rfl⟩
  · cases stream' <;> cases same
  · cases stream <;> cases same
  · cases stream <;> cases stream' <;> cases same <;> exact ⟨rfl, rfl⟩

/-- The notices of the rounds that a cascade applied. -/
def announcements (deliveries : List TransitionDelivery) : List Notice :=
  deliveries.flatMap fun delivery => delivery.2.2.map fun sink => ⟨.round delivery.1, sink, .event delivery.2.1⟩

/-- What a submission sends to the sinks it took. -/
def PendingSubmission.notices (pending : PendingSubmission) : List Notice :=
  (pending.sinks.map fun sink => ⟨.stream .maskedInputs, sink, .event pending.event⟩) ++
    pending.assignedSinks.map fun sink => ⟨.stream .assignedMaskedInputs, sink, .assignedInputs pending.assignedEvents⟩

namespace CoordinatorExecutionState

/-- The history of a topic; that of a round is the event it started with. -/
def history (d : CoordinatorExecutionState) : Topic → List StreamItem
  | .round round => (d.transEvents round).toList.map .event
  | .stream .reservedIndices => d.reservedIndexEvents.map .event
  | .stream .maskedInputs => d.maskedInputEvents.map .event
  | .stream .assignedReservedIndices => d.assignedReservedIndexEvents.map .assignedReservation
  | .stream .assignedMaskedInputs => d.assignedMaskedInputEvents.map .assignedInput

/-- The sink list of a topic. -/
def sinkList (d : CoordinatorExecutionState) : Topic → List SubscriptionSink
  | .round round => (d.sinks round).getD []
  | .stream .reservedIndices => d.reservedIndexSinks
  | .stream .maskedInputs => d.maskedInputSinks
  | .stream .assignedReservedIndices => d.assignedReservedIndexSinks
  | .stream .assignedMaskedInputs => d.assignedMaskedInputSinks

/-- The sinks that a submission took out of the list and is sending to. -/
def takenSinks (d : CoordinatorExecutionState) : Topic → List SubscriptionSink
  | .stream .maskedInputs => (d.maskedInputDelivery.map PendingSubmission.sinks).getD []
  | .stream .assignedMaskedInputs => (d.maskedInputDelivery.map PendingSubmission.assignedSinks).getD []
  | _ => []

/-- An execution starts without subscribers. -/
theorem fresh_sinkList (registration : ExecutionRegistration) (topic : Topic) :
    (fresh registration).sinkList topic ++ (fresh registration).takenSinks topic = [] := by
  rcases topic with round | stream
  · rfl
  · cases stream <;> rfl

/-- The messages in which a new subscriber of a stream gets its history. -/
def replayed (d : CoordinatorExecutionState) : EventStream → List StreamMessage
  | .reservedIndices => d.reservedIndexEvents.map .event
  | .maskedInputs => d.maskedInputEvents.map .event
  | .assignedReservedIndices => (asBatch d.assignedReservedIndexEvents).map .assignedReservations
  | .assignedMaskedInputs => (asBatch d.assignedMaskedInputEvents).map .assignedInputs

/-- The sends of a replay, with their outcomes: it stops at the first failure.
`delivered k` is the outcome of the send number `k`. -/
def replaySends {μ : Type} (delivered : Nat → Bool) : Nat → List μ → List (μ × Bool)
  | _, [] => []
  | k, message :: rest =>
    if delivered k then (message, true) :: replaySends delivered (k + 1) rest else [(message, false)]

/-- What a critical section leaves its call to send once the lock is released. -/
def handed (topology : Topology) (d : CoordinatorExecutionState) (caller : ClientIdentity) : Action → List Notice
  | .transition nextRound =>
    match (CoordinatorRPCServerConnectionBase.mk topology caller).transition d nextRound with
    | .error _ => []
    | .ok (_, deliveries) => announcements deliveries
  | .submitMaskedInputs maskedInputs reservedIndices =>
    match (CoordinatorRPCServerConnectionBase.mk topology caller).submitMaskedInputs d maskedInputs reservedIndices with
    | .error _ => []
    | .ok d' => (d'.maskedInputDelivery.map PendingSubmission.notices).getD []
  | .finishSubmission delivered =>
    match d.maskedInputDelivery with
    | none => []
    | some pending =>
      announcements ((CoordinatorRPCServerConnectionBase.mk topology caller).finishSubmission d pending delivered).2
  | .subRound round sink =>
    match d.subRound round sink with
    | .ok (_, some event) => [⟨.round round, sink, .event event⟩]
    | _ => []
  | _ => []

/-- What a reservation broadcasts, with the outcomes. -/
def reservationSends (d : CoordinatorExecutionState) (id : ClientIdentity) (indices : List UInt64)
    (delivered : SubscriptionSink → Bool) : List (Notice × Bool) :=
  (d.reservedIndexSinks.map fun sink =>
    (⟨.stream .reservedIndices, sink, .event (.reservedInputEvent id indices)⟩, delivered sink)) ++
    if (d.assignedReservations id indices).isEmpty then []
    else d.assignedReservedIndexSinks.map fun sink =>
      (⟨.stream .assignedReservedIndices, sink, .assignedReservations (d.assignedReservations id indices)⟩,
        delivered sink)

/-- What a new subscriber of a stream is sent, with the outcomes. -/
def joinSends (d : CoordinatorExecutionState) (stream : EventStream) (sink : SubscriptionSink)
    (delivered : Nat → Bool) : List (Notice × Bool) :=
  (replaySends delivered 0 (d.replayed stream)).map fun send => (⟨.stream stream, sink, send.1⟩, send.2)

/-- What a critical section sends while it holds the lock, with the outcomes. -/
def posted (d : CoordinatorExecutionState) (caller : ClientIdentity) : Action → List (Notice × Bool)
  | .reserveMaskIndices indices delivered =>
    match d.checkReservation caller indices with
    | .error _ => []
    | .ok () => d.reservationSends caller indices delivered
  | .subReservedIndices sink delivered => d.joinSends .reservedIndices sink delivered
  | .subMaskedInputs sink delivered => d.joinSends .maskedInputs sink delivered
  | .subAssignedReservedIndices sink delivered => d.joinSends .assignedReservedIndices sink delivered
  | .subAssignedMaskedInputs sink delivered => d.joinSends .assignedMaskedInputs sink delivered
  | _ => []

/-- What a critical section does to the subscribers of a round, with the
notices it hands over: a new one is parked or answered from the history, and
when the round is entered all who are parked are told. -/
inductive RoundEffect (round : Round) (d : CoordinatorExecutionState) (action : Action)
    (d' : CoordinatorExecutionState) (notices : List Notice) : Prop
  | still : d'.transEvents round = d.transEvents round → d'.sinks round = d.sinks round → notices = [] →
      RoundEffect round d action d' notices
  | parked (sink : SubscriptionSink) : action = .subRound round sink → round ≠ .idle → d.transEvents round = none →
      d'.transEvents round = none → d'.sinks round = some ((d.sinks round).getD [] ++ [sink]) → notices = [] →
      RoundEffect round d action d' notices
  | answered (sink : SubscriptionSink) (event : Event) : action = .subRound round sink →
      d.transEvents round = some event → d' = d → notices = [⟨.round round, sink, .event event⟩] →
      RoundEffect round d action d' notices
  | announced (event : Event) : roundIndex d.round < roundIndex round → d.transEvents round = none →
      d'.transEvents round = some event → d'.sinks round = none →
      notices = ((d.sinks round).getD []).map (fun sink => ⟨.round round, sink, .event event⟩) →
      RoundEffect round d action d' notices

/-- What a critical section does to a stream: its history, its sink list and
the sinks that a submission took, with what is handed over and what is sent. -/
inductive StreamEffect (stream : EventStream) (d : CoordinatorExecutionState) (action : Action)
    (d' : CoordinatorExecutionState) (notices : List Notice) (sends : List (Notice × Bool)) : Prop
  | still : d'.history (.stream stream) = d.history (.stream stream) →
      d'.sinkList (.stream stream) = d.sinkList (.stream stream) →
      d'.takenSinks (.stream stream) = d.takenSinks (.stream stream) → notices = [] → sends = [] →
      StreamEffect stream d action d' notices sends
  | joined (sink : SubscriptionSink) (delivered : Nat → Bool) :
      action = (Topic.stream stream).subscription sink delivered →
      d'.history (.stream stream) = d.history (.stream stream) →
      d'.sinkList (.stream stream) = d.sinkList (.stream stream) ++ [sink] →
      d'.takenSinks (.stream stream) = d.takenSinks (.stream stream) → notices = [] →
      sends = (d.replayed stream).map (fun message => (⟨.stream stream, sink, message⟩, true)) →
      StreamEffect stream d action d' notices sends
  | turnedAway (sink : SubscriptionSink) (delivered : Nat → Bool) :
      action = (Topic.stream stream).subscription sink delivered → d' = d → notices = [] →
      (∀ send ∈ sends, send.1.topic = .stream stream ∧ send.1.sink = sink) → (∃ send ∈ sends, send.2 = false) →
      StreamEffect stream d action d' notices sends
  | broadcast (message : StreamMessage) (delivered : SubscriptionSink → Bool) :
      d.takenSinks (.stream stream) = [] → d'.history (.stream stream) = d.history (.stream stream) ++ message.items →
      d'.sinkList (.stream stream) = (d.sinkList (.stream stream)).filter delivered →
      d'.takenSinks (.stream stream) = [] → notices = [] →
      sends = (d.sinkList (.stream stream)).map (fun sink => (⟨.stream stream, sink, message⟩, delivered sink)) →
      StreamEffect stream d action d' notices sends
  | begun (message : StreamMessage) : d.takenSinks (.stream stream) = [] →
      d'.history (.stream stream) = d.history (.stream stream) ++ message.items →
      d'.sinkList (.stream stream) = [] → d'.takenSinks (.stream stream) = d.sinkList (.stream stream) →
      notices = (d.sinkList (.stream stream)).map (fun sink => ⟨.stream stream, sink, message⟩) → sends = [] →
      StreamEffect stream d action d' notices sends
  | finished (delivered : SubscriptionSink → Bool) : action = .finishSubmission delivered →
      d'.history (.stream stream) = d.history (.stream stream) →
      d'.sinkList (.stream stream) =
        d.sinkList (.stream stream) ++ (d.takenSinks (.stream stream)).filter delivered →
      d'.takenSinks (.stream stream) = [] → notices = [] → sends = [] →
      StreamEffect stream d action d' notices sends

/-- The notices among some that are for a topic. -/
def noticesFor (topic : Topic) (notices : List Notice) : List Notice :=
  notices.filter fun notice => decide (notice.topic = topic)

/-- The sends among some that are for a topic. -/
def sendsFor (topic : Topic) (sends : List (Notice × Bool)) : List (Notice × Bool) :=
  sends.filter fun send => decide (send.1.topic = topic)

section Cascade

variable {quorum : Nat} {rosterHead : ClientIdentity} {d d' : CoordinatorExecutionState}

theorem noticesFor_append (topic : Topic) (before after : List Notice) :
    noticesFor topic (before ++ after) = noticesFor topic before ++ noticesFor topic after :=
  List.filter_append ..

theorem noticesFor_map {topic other : Topic} (sinks : List SubscriptionSink) (message : StreamMessage) :
    noticesFor topic (sinks.map fun sink => ⟨other, sink, message⟩) =
      if other = topic then sinks.map (fun sink => ⟨other, sink, message⟩) else [] := by
  split
  · rename_i same
    exact List.filter_eq_self.mpr (by simp [same])
  · rename_i different
    exact List.filter_eq_nil_iff.mpr (by simp [different])

theorem noticesFor_announcements_stream (stream : EventStream) (deliveries : List TransitionDelivery) :
    noticesFor (.stream stream) (announcements deliveries) = [] := by
  refine List.filter_eq_nil_iff.mpr fun notice member => ?_
  obtain ⟨delivery, _, told⟩ := List.mem_flatMap.mp member
  obtain ⟨sink, _, rfl⟩ := List.mem_map.mp told
  simp

/-- What a cascade does to a round and those parked for it: nothing, or it
enters the round and tells them all. -/
def Enters (round : Round) (d d' : CoordinatorExecutionState) (notices : List Notice) : Prop :=
  (d'.transEvents round = d.transEvents round ∧ d'.sinks round = d.sinks round ∧ notices = []) ∨
    (roundIndex d.round < roundIndex round ∧ d.transEvents round = none ∧ ∃ event,
      d'.transEvents round = some event ∧ d'.sinks round = none ∧
      notices = ((d.sinks round).getD []).map fun sink => ⟨.round round, sink, .event event⟩)

theorem announcements_cons (round : Round) (delivery : TransitionDelivery) (deliveries : List TransitionDelivery) :
    noticesFor (.round round) (announcements (delivery :: deliveries)) =
      (if delivery.1 = round then delivery.2.2.map fun sink => ⟨.round round, sink, .event delivery.2.1⟩ else []) ++
        noticesFor (.round round) (announcements deliveries) := by
  rw [announcements, List.flatMap_cons, noticesFor_append, noticesFor_map]
  by_cases same : delivery.1 = round
  · simp [same, announcements]
  · simp [same, announcements]

/-- No round is entered twice: each pass goes up, and the history of an
execution does not reach past its current round. -/
theorem run_advanceOnce_enters (round : Round) (fuel : Nat)
    (entered_le : ∀ round, (d.transEvents round).isSome = true → roundIndex round ≤ roundIndex d.round) :
    Enters round d (Loop.run (advanceOnce quorum rosterHead) fuel d).1
      (noticesFor (.round round) (announcements (Loop.run (advanceOnce quorum rosterHead) fuel d).2)) := by
  induction fuel generalizing d with
  | zero => exact Or.inl ⟨rfl, rfl, rfl⟩
  | succ fuel ih =>
    unfold Loop.run
    split
    · exact Or.inl ⟨rfl, rfl, rfl⟩
    rename_i delivery after applied
    have up := advanceOnce_lt applied
    obtain ⟨found, _, _, sinks, rfl⟩ := advanceOnce_next applied
    rw [enter_round] at up
    have rest := ih (d := d.enter delivery.2.1 delivery.1) (by
      intro other entered
      rw [enter_transEvents, Table.insert_apply] at entered
      split at entered
      · rename_i same
        rw [same, enter_round]
      · exact (entered_le other entered).trans up.le)
    rw [announcements_cons]
    by_cases same : delivery.1 = round
    · subst same
      have vacant : d.transEvents delivery.1 = none := by
        by_contra entered
        have passed := entered_le _ (Option.isSome_iff_ne_none.mpr entered)
        omega
      rcases rest with ⟨events, parked, nothing⟩ | ⟨_, absent, _⟩
      · refine Or.inr ⟨up, vacant, delivery.2.1, ?_, ?_, ?_⟩
        · simpa using events
        · simpa [enter, Table.erase_apply] using parked
        · rw [nothing, if_pos rfl, List.append_nil, sinks]
      · simp at absent
    · have events : (d.enter delivery.2.1 delivery.1).transEvents round = d.transEvents round :=
        Table.insert_of_ne _ _ (Ne.symm same)
      have parked : (d.enter delivery.2.1 delivery.1).sinks round = d.sinks round :=
        Table.erase_of_ne _ (Ne.symm same)
      rw [if_neg same, List.nil_append]
      simp only [Enters, events, parked, enter_round] at rest
      refine rest.imp_right ?_
      rintro ⟨later, entered⟩
      exact ⟨up.trans later, entered⟩

theorem Coherent.tryAdvance_enters {registration : ExecutionRegistration} (coherent : Coherent registration d)
    (quorum : Nat) (rosterHead : ClientIdentity) (round : Round) : Enters round d (d.tryAdvance quorum rosterHead).1
      (noticesFor (.round round) (announcements (d.tryAdvance quorum rosterHead).2)) :=
  run_advanceOnce_enters round 7 coherent.entered_le

end Cascade

section Steps

variable {topology : Topology} {registration : ExecutionRegistration} {d d' : CoordinatorExecutionState}
  {caller : ClientIdentity} {reply : RpcResult Unit} {round : Round} {stream : EventStream} {action : Action}
  {call : Call}

/-- The cascade at the end of a section that itself left the rounds alone. -/
theorem Coherent.cascade_effect {start : CoordinatorExecutionState} {quorum : Nat} {rosterHead : ClientIdentity}
    (coherent : Coherent registration start) (current : start.round = d.round)
    (events : start.transEvents = d.transEvents) (parked : start.sinks = d.sinks) :
    RoundEffect round d action (start.tryAdvance quorum rosterHead).1
      (noticesFor (.round round) (announcements (start.tryAdvance quorum rosterHead).2)) := by
  have enters := coherent.tryAdvance_enters quorum rosterHead round
  simp only [Enters, current, events, parked] at enters
  rcases enters with ⟨sameEvents, sameParked, nothing⟩ | ⟨later, absent, event, entered, taken, told⟩
  · exact .still sameEvents sameParked nothing
  · exact .announced event later absent entered taken told

/-- A proposal changes nothing and hands over nothing, or it is recorded and
hands over the notices of the rounds that the cascade enters. -/
theorem handed_transition {nextRound : Round}
    (step : d.perform topology caller (.transition nextRound) = some (reply, d')) :
    (d' = d ∧ d.handed topology caller (.transition nextRound) = []) ∨
      (d' = ((d.recordVote caller nextRound).tryAdvance topology.transitionQuorum.toNat topology.rosterHead).1 ∧
        d.handed topology caller (.transition nextRound) = announcements
          ((d.recordVote caller nextRound).tryAdvance topology.transitionQuorum.toNat topology.rosterHead).2) := by
  simp only [perform] at step
  simp only [handed]
  cases answer : (CoordinatorRPCServerConnectionBase.mk topology caller).transition d nextRound with
  | error refusal =>
    rw [answer] at step
    cases step
    exact Or.inl ⟨rfl, rfl⟩
  | ok result =>
    obtain ⟨after, deliveries⟩ := result
    simp only [answer] at step
    split at step
    · cases step
    cases step
    obtain ⟨_, _, ⟨_, same, nothing⟩ | ⟨_, cascade⟩⟩ :=
      CoordinatorRPCServerConnectionBase.transition_cases _ answer
    · exact Or.inl ⟨same, by simp [nothing, announcements]⟩
    · have notices : deliveries = _ := congrArg Prod.snd cascade
      exact Or.inr ⟨congrArg Prod.fst cascade, by rw [notices]; rfl⟩

theorem handed_finishSubmission {delivered : SubscriptionSink → Bool}
    (step : d.perform topology caller (.finishSubmission delivered) = some (reply, d')) :
    ∃ pending, d.maskedInputDelivery = some pending ∧
      d' = ((d.restoreSinks pending delivered).tryAdvance topology.transitionQuorum.toNat topology.rosterHead).1 ∧
      d.handed topology caller (.finishSubmission delivered) = announcements
        ((d.restoreSinks pending delivered).tryAdvance topology.transitionQuorum.toNat topology.rosterHead).2 := by
  cases held : d.maskedInputDelivery with
  | none => simp [perform, held] at step
  | some pending =>
    simp only [perform, held] at step
    cases step
    refine ⟨pending, rfl, rfl, ?_⟩
    simp only [handed, held]
    rfl

/-- A submission changes nothing, or it is recorded and hands over the notices
for the sinks it takes. -/
theorem handed_submitMaskedInputs {maskedInputs : List Bytes} {reservedIndices : List UInt64}
    (step : d.perform topology caller (.submitMaskedInputs maskedInputs reservedIndices) = some (reply, d')) :
    (d' = d ∧ d.handed topology caller (.submitMaskedInputs maskedInputs reservedIndices) = []) ∨
      (d.maskedInputDelivery = none ∧ ∃ pending,
        d' = d.recordSubmission caller (reservedIndices.zip maskedInputs) ∧ d'.maskedInputDelivery = some pending ∧
        d.handed topology caller (.submitMaskedInputs maskedInputs reservedIndices) = pending.notices) := by
  simp only [handed, CoordinatorRPCServerConnectionBase.submitMaskedInputs]
  obtain ⟨free, ⟨refusal, refused, _, rfl⟩ | ⟨checked, _, rfl⟩⟩ := perform_submitMaskedInputs_cases step
  · rw [refused]
    exact Or.inl ⟨rfl, rfl⟩
  · rw [checked]
    exact Or.inr ⟨free, _, rfl, rfl, rfl⟩

/-- A reservation changes nothing, or it is recorded and broadcast. -/
theorem posted_reserveMaskIndices {indices : List UInt64} {delivered : SubscriptionSink → Bool}
    (step : d.perform topology caller (.reserveMaskIndices indices delivered) = some (reply, d')) :
    (d' = d ∧ d.posted caller (.reserveMaskIndices indices delivered) = []) ∨
      (d' = (d.recordReservation caller indices).broadcastReservation (d.assignedReservations caller indices) delivered ∧
        d.posted caller (.reserveMaskIndices indices delivered) = d.reservationSends caller indices delivered) := by
  simp only [posted]
  rcases perform_reserveMaskIndices_cases step with ⟨refusal, refused, _, rfl⟩ | ⟨checked, _, rfl⟩
  · rw [refused]
    exact Or.inl ⟨rfl, rfl⟩
  · rw [checked]
    exact Or.inr ⟨rfl, rfl⟩

/-- A round subscription is refused, answered at once or parked. -/
theorem handed_subRound {sink : SubscriptionSink} {asked : Round}
    (step : d.perform topology caller (.subRound asked sink) = some (reply, d')) :
    (d' = d ∧ asked = .idle ∧ d.handed topology caller (.subRound asked sink) = []) ∨
      (∃ event, d.transEvents asked = some event ∧ d' = d ∧
        d.handed topology caller (.subRound asked sink) = [⟨.round asked, sink, .event event⟩]) ∨
      (asked ≠ .idle ∧ d.transEvents asked = none ∧
        d' = { d with sinks := d.sinks.insert asked ((d.sinks asked).getD [] ++ [sink]) } ∧
        d.handed topology caller (.subRound asked sink) = []) := by
  simp only [perform, subRound] at step
  simp only [handed, subRound]
  by_cases idle : roundBefore asked = none
  · rw [if_pos idle] at step
    cases step
    exact Or.inl ⟨rfl, roundBefore_eq_none.mp idle, by rw [if_pos idle]⟩
  rw [if_neg idle] at step ⊢
  cases recorded : d.transEvents asked with
  | some event =>
    rw [recorded] at step
    cases step
    exact Or.inr (Or.inl ⟨event, rfl, rfl, rfl⟩)
  | none =>
    rw [recorded] at step
    cases step
    exact Or.inr (Or.inr ⟨fun same => idle (roundBefore_eq_none.mpr same), rfl, rfl, rfl⟩)

theorem RoundEffect.of_onlyOutputs (only : OnlyOutputs d d') : RoundEffect round d action d' [] := by
  rw [only]
  exact .still rfl rfl rfl

theorem RoundEffect.of_subRound {sink : SubscriptionSink} {asked : Round}
    (step : d.perform topology caller (.subRound asked sink) = some (reply, d')) :
    RoundEffect round d (.subRound asked sink) d'
      (noticesFor (.round round) (d.handed topology caller (.subRound asked sink))) := by
  rcases handed_subRound step with ⟨rfl, _, notices⟩ | ⟨event, recorded, rfl, notices⟩ | ⟨started, absent, rfl, notices⟩
  · exact .still rfl rfl (by rw [notices]; rfl)
  · by_cases same : asked = round
    · subst same
      exact .answered sink event rfl recorded rfl (by simp [notices, noticesFor])
    · exact .still rfl rfl (by simp [notices, noticesFor, same])
  · by_cases same : asked = round
    · subst same
      exact .parked sink rfl started absent absent (Table.insert_self _ _ _) (by rw [notices]; rfl)
    · exact .still rfl (Table.insert_of_ne _ _ (Ne.symm same)) (by rw [notices]; rfl)

/-- Everything a critical section can do to the subscribers of a round. -/
theorem Step.roundEffect (coherent : Coherent registration d) (step : Step topology d call d') (round : Round) :
    RoundEffect round d call.action d' (noticesFor (.round round) (d.handed topology call.caller call.action)) := by
  obtain ⟨caller, action, reply⟩ := call
  simp only [Step] at step
  cases action with
  | transition nextRound =>
    rcases handed_transition step with ⟨rfl, nothing⟩ | ⟨rfl, notices⟩
    · rw [nothing]
      exact .still rfl rfl rfl
    · rw [notices]
      exact (coherent.recordVote caller nextRound).cascade_effect rfl rfl rfl
  | reserveMaskIndices indices delivered =>
    rcases posted_reserveMaskIndices step with ⟨rfl, _⟩ | ⟨rfl, _⟩
    · exact .still rfl rfl rfl
    · exact .still rfl rfl rfl
  | submitMaskedInputs maskedInputs reservedIndices =>
    rcases handed_submitMaskedInputs step with ⟨rfl, nothing⟩ | ⟨_, pending, rfl, _, notices⟩
    · rw [nothing]
      exact .still rfl rfl rfl
    · rw [notices, PendingSubmission.notices, noticesFor_append, noticesFor_map, noticesFor_map]
      exact .still rfl rfl rfl
  | finishSubmission delivered =>
    obtain ⟨pending, _, rfl, notices⟩ := handed_finishSubmission step
    rw [notices]
    exact (coherent.restoreSinks pending delivered).cascade_effect rfl rfl rfl
  | subRound asked sink => exact .of_subRound step
  | subReservedIndices sink delivered =>
    cases step
    simp only [subscribeReservedIndices]
    split <;> exact .still rfl rfl rfl
  | subMaskedInputs sink delivered =>
    cases step
    simp only [subscribeMaskedInputs]
    split <;> exact .still rfl rfl rfl
  | subAssignedReservedIndices sink delivered =>
    cases step
    simp only [subscribeAssignedReservedIndices]
    split <;> exact .still rfl rfl rfl
  | subAssignedMaskedInputs sink delivered =>
    cases step
    simp only [subscribeAssignedMaskedInputs]
    split <;> exact .still rfl rfl rfl
  | _ => exact .of_onlyOutputs (onlyOutputs_of_perform step trivial)

end Steps

end CoordinatorExecutionState

end MpcCoordinator
