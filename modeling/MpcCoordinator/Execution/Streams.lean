import MpcCoordinator.Execution.Topics

namespace MpcCoordinator.CoordinatorExecutionState

variable {topology : Topology} {registration : ExecutionRegistration} {d d' : CoordinatorExecutionState}
  {caller : ClientIdentity} {reply : RpcResult Unit} {round : Round} {stream : EventStream} {action : Action}
  {call : Call}

theorem replays_map {μ ν : Type} (f : μ → ν) (messages : List μ) (delivered : Nat → Bool) :
    replays (messages.map f) delivered = replays messages delivered := by
  rw [replays, List.zipIdx_map, List.all_map]
  rfl

/-- A replay that gets through sends every message; one that does not ends with
a failed send. -/
theorem replaySends_cases {μ : Type} (delivered : Nat → Bool) (k : Nat) (messages : List μ) :
    ((messages.zipIdx k).all (fun entry => delivered entry.2) = true ∧
        replaySends delivered k messages = messages.map fun message => (message, true)) ∨
      ((messages.zipIdx k).all (fun entry => delivered entry.2) = false ∧
        ∃ send ∈ replaySends delivered k messages, send.2 = false) := by
  induction messages generalizing k with
  | nil => exact Or.inl ⟨rfl, rfl⟩
  | cons message rest ih =>
    cases reached : delivered k with
    | false => exact Or.inr (by simp [replaySends, reached])
    | true =>
      rcases ih (k + 1) with ⟨all, sends⟩ | ⟨stopped, send, member, failed⟩
      · exact Or.inl (by simp [replaySends, reached, sends, all])
      · refine Or.inr ⟨by simp [reached, stopped], send, ?_, failed⟩
        simp [replaySends, reached, member]

/-- The replay of a stream holds its history, entry by entry. -/
theorem replayed_items (d : CoordinatorExecutionState) (stream : EventStream) :
    (d.replayed stream).flatMap StreamMessage.items = d.history (.stream stream) := by
  cases stream with
  | reservedIndices =>
    rw [replayed, history, List.flatMap_map, List.map_eq_flatMap]
    rfl
  | maskedInputs =>
    rw [replayed, history, List.flatMap_map, List.map_eq_flatMap]
    rfl
  | assignedReservedIndices =>
    cases entries : d.assignedReservedIndexEvents <;>
      simp [replayed, history, asBatch, StreamMessage.items, entries]
  | assignedMaskedInputs =>
    cases entries : d.assignedMaskedInputEvents <;>
      simp [replayed, history, asBatch, StreamMessage.items, entries]

theorem mem_joinSends {asked : EventStream} {sink : SubscriptionSink} {delivered : Nat → Bool}
    {send : Notice × Bool} (member : send ∈ d.joinSends asked sink delivered) :
    send.1.topic = .stream asked ∧ send.1.sink = sink := by
  obtain ⟨entry, _, rfl⟩ := List.mem_map.mp member
  exact ⟨rfl, rfl⟩

theorem sendsFor_joinSends (stream : EventStream) (sink : SubscriptionSink) (delivered : Nat → Bool) :
    sendsFor (.stream stream) (d.joinSends stream sink delivered) = d.joinSends stream sink delivered :=
  List.filter_eq_self.mpr fun send member => by simp [(mem_joinSends member).1]

/-- What a subscription does to the stream it asks for: the newcomer joins behind
its replay, or the replay fails and the newcomer is turned away. -/
def Joins (stream : EventStream) (sink : SubscriptionSink) (d d' : CoordinatorExecutionState)
    (sends : List (Notice × Bool)) : Prop :=
  (d'.history (.stream stream) = d.history (.stream stream) ∧
      d'.sinkList (.stream stream) = d.sinkList (.stream stream) ++ [sink] ∧
      d'.takenSinks (.stream stream) = d.takenSinks (.stream stream) ∧
      sends = (d.replayed stream).map fun message => (⟨.stream stream, sink, message⟩, true)) ∨
    (d' = d ∧ (∀ send ∈ sends, send.1.topic = .stream stream ∧ send.1.sink = sink) ∧ ∃ send ∈ sends, send.2 = false)

/-- A section that replays a stream to a new subscriber: `after` is the state
when the replay gets through. -/
structure Replays (asked : EventStream) (sink : SubscriptionSink) (delivered : Nat → Bool)
    (d after d' : CoordinatorExecutionState) : Prop where
  outcome : d' = if replays (d.replayed asked) delivered then after else d
  histories : ∀ stream, after.history (.stream stream) = d.history (.stream stream)
  lists : ∀ stream, after.sinkList (.stream stream) =
    d.sinkList (.stream stream) ++ if stream = asked then [sink] else []
  taken : ∀ stream, after.takenSinks (.stream stream) = d.takenSinks (.stream stream)

theorem Replays.joins {sink : SubscriptionSink} {delivered : Nat → Bool} {after : CoordinatorExecutionState}
    (shown : Replays stream sink delivered d after d') :
    Joins stream sink d d' (d.joinSends stream sink delivered) := by
  rcases replaySends_cases delivered 0 (d.replayed stream) with ⟨all, sends⟩ | ⟨stopped, failed⟩
  · rw [shown.outcome, if_pos (show replays _ _ = true from all), joinSends, sends, List.map_map]
    exact Or.inl ⟨shown.histories stream, by simpa using shown.lists stream, shown.taken stream, rfl⟩
  · have lost : ¬ replays (d.replayed stream) delivered = true := by
      simpa [replays] using stopped
    rw [shown.outcome, if_neg lost]
    obtain ⟨send, member, failed⟩ := failed
    exact Or.inr ⟨rfl, fun send => mem_joinSends, _, List.mem_map_of_mem member, failed⟩

/-- The other streams do not notice. -/
theorem Replays.effect {asked : EventStream} {sink : SubscriptionSink} {delivered : Nat → Bool}
    {after : CoordinatorExecutionState} (shown : Replays asked sink delivered d after d') (stream : EventStream) :
    StreamEffect stream d ((Topic.stream asked).subscription sink delivered) d' []
      (sendsFor (.stream stream) (d.joinSends asked sink delivered)) := by
  by_cases same : stream = asked
  · subst same
    rw [sendsFor_joinSends]
    rcases shown.joins with ⟨histories, lists, taken, sends⟩ | ⟨unchanged, own, failed⟩
    · exact .joined sink delivered rfl histories lists taken rfl sends
    · exact .turnedAway sink delivered rfl unchanged rfl own failed
  · have nothing : sendsFor (.stream stream) (d.joinSends asked sink delivered) = [] :=
      List.filter_eq_nil_iff.mpr fun send member => by simp [(mem_joinSends member).1, Ne.symm same]
    have lists := shown.lists stream
    rw [if_neg same, List.append_nil] at lists
    rw [nothing, shown.outcome]
    split
    · exact .still (shown.histories stream) lists (shown.taken stream) rfl rfl
    · exact .still rfl rfl rfl rfl rfl

/-- The four subscription methods are this with their own list and history. -/
theorem exists_replays {stream : EventStream} {sink : SubscriptionSink} {delivered : Nat → Bool}
    (step : d.perform topology caller ((Topic.stream stream).subscription sink delivered) = some (reply, d')) :
    (∃ after, Replays stream sink delivered d after d') ∧
      d.handed topology caller ((Topic.stream stream).subscription sink delivered) = [] ∧
      d.posted caller ((Topic.stream stream).subscription sink delivered) = d.joinSends stream sink delivered := by
  -- the same in each case: the method's own list grows, the other three do not
  cases stream <;> cases step <;>
    refine ⟨⟨_, by rw [replayed, replays_map]; rfl, fun other => ?_, fun other => ?_, fun other => ?_⟩, rfl, rfl⟩
  all_goals cases other <;> first | rfl | simp [sinkList]

theorem StreamEffect.of_subscription (asked : EventStream) {sink : SubscriptionSink} {delivered : Nat → Bool}
    (step : d.perform topology caller ((Topic.stream asked).subscription sink delivered) = some (reply, d')) :
    StreamEffect stream d ((Topic.stream asked).subscription sink delivered) d'
      (noticesFor (.stream stream) (d.handed topology caller ((Topic.stream asked).subscription sink delivered)))
      (sendsFor (.stream stream) (d.posted caller ((Topic.stream asked).subscription sink delivered))) := by
  obtain ⟨⟨after, shown⟩, nothing, sends⟩ := exists_replays step
  rw [nothing, sends]
  exact shown.effect stream

theorem StreamEffect.of_onlyOutputs (only : OnlyOutputs d d') : StreamEffect stream d action d' [] [] := by
  rw [only]
  cases stream <;> exact .still rfl rfl rfl rfl rfl

theorem sendsFor_reservationSends (id : ClientIdentity) (indices : List UInt64)
    (delivered : SubscriptionSink → Bool) (stream : EventStream) :
    sendsFor (.stream stream) (d.reservationSends id indices delivered) =
      match stream with
      | .reservedIndices => d.reservedIndexSinks.map fun sink =>
          (⟨.stream .reservedIndices, sink, .event (.reservedInputEvent id indices)⟩, delivered sink)
      | .assignedReservedIndices =>
        if (d.assignedReservations id indices).isEmpty then []
        else d.assignedReservedIndexSinks.map fun sink =>
          (⟨.stream .assignedReservedIndices, sink, .assignedReservations (d.assignedReservations id indices)⟩,
            delivered sink)
      | _ => [] := by
  cases stream <;> by_cases assigned : (d.assignedReservations id indices).isEmpty = true <;>
    simp [sendsFor, reservationSends, assigned, List.filter_append, List.filter_map, Function.comp_def]

theorem StreamEffect.of_reservation {indices : List UInt64} {delivered : SubscriptionSink → Bool}
    (step : d.perform topology caller (.reserveMaskIndices indices delivered) = some (reply, d')) :
    StreamEffect stream d (.reserveMaskIndices indices delivered) d' []
      (sendsFor (.stream stream) (d.posted caller (.reserveMaskIndices indices delivered))) := by
  rcases posted_reserveMaskIndices step with ⟨rfl, nothing⟩ | ⟨rfl, sends⟩
  · rw [nothing]
    exact .still rfl rfl rfl rfl rfl
  rw [sends, sendsFor_reservationSends]
  cases stream with
  | reservedIndices =>
    exact .broadcast (.event (.reservedInputEvent caller indices)) delivered rfl
      (by simp [history, recordReservation, broadcastReservation, StreamMessage.items]) rfl rfl rfl rfl
  | maskedInputs => exact .still rfl rfl rfl rfl rfl
  | assignedMaskedInputs => exact .still rfl rfl rfl rfl rfl
  | assignedReservedIndices =>
    by_cases assigned : (d.assignedReservations caller indices).isEmpty = true
    · have empty := List.isEmpty_iff.mp assigned
      simp only [assigned, if_true]
      exact .still (by simp [history, recordReservation, broadcastReservation, empty])
        (by simp [sinkList, recordReservation, broadcastReservation, empty]) rfl rfl rfl
    · exact .broadcast (.assignedReservations (d.assignedReservations caller indices)) delivered rfl
        (by simp [history, recordReservation, broadcastReservation, StreamMessage.items])
        (by simp [sinkList, recordReservation, broadcastReservation, assigned]) rfl rfl (by simp [assigned, sinkList])

theorem StreamEffect.of_submission {maskedInputs : List Bytes} {reservedIndices : List UInt64}
    (step : d.perform topology caller (.submitMaskedInputs maskedInputs reservedIndices) = some (reply, d')) :
    StreamEffect stream d (.submitMaskedInputs maskedInputs reservedIndices) d'
      (noticesFor (.stream stream) (d.handed topology caller (.submitMaskedInputs maskedInputs reservedIndices))) [] := by
  rcases handed_submitMaskedInputs step with ⟨rfl, nothing⟩ | ⟨free, pending, rfl, held, notices⟩
  · rw [nothing]
    exact .still rfl rfl rfl rfl rfl
  rw [notices, PendingSubmission.notices, noticesFor_append, noticesFor_map, noticesFor_map]
  cases Option.some.inj held
  cases stream with
  | reservedIndices => exact .still rfl rfl rfl rfl rfl
  | assignedReservedIndices => exact .still rfl rfl rfl rfl rfl
  | maskedInputs =>
    exact .begun (.event (.maskedInputEvent caller (reservedIndices.zip maskedInputs)))
      (by simp [takenSinks, free]) (by simp [history, recordSubmission, StreamMessage.items]) rfl rfl
      (by simp [sinkList]) rfl
  | assignedMaskedInputs =>
    by_cases assigned : (d.assignedInputs caller (reservedIndices.zip maskedInputs)).isEmpty = true
    · have empty := List.isEmpty_iff.mp assigned
      simp only [empty]
      exact .still (by simp [history, recordSubmission, empty]) (by simp [sinkList, recordSubmission, empty])
        (by simp [takenSinks, recordSubmission, empty, free]) rfl rfl
    · exact .begun (.assignedInputs (d.assignedInputs caller (reservedIndices.zip maskedInputs)))
        (by simp [takenSinks, free]) (by simp [history, recordSubmission, StreamMessage.items])
        (by simp [sinkList, recordSubmission, assigned]) (by simp [takenSinks, recordSubmission, sinkList, assigned])
        (by simp [sinkList, assigned]) rfl

theorem StreamEffect.of_finish {delivered : SubscriptionSink → Bool}
    (step : d.perform topology caller (.finishSubmission delivered) = some (reply, d')) :
    StreamEffect stream d (.finishSubmission delivered) d' [] [] := by
  obtain ⟨pending, held, rfl, _⟩ := handed_finishSubmission step
  have only : OnlyRounds (d.restoreSinks pending delivered) ((d.restoreSinks pending delivered).tryAdvance
      topology.transitionQuorum.toNat topology.rosterHead).1 := tryAdvance_onlyRounds _
  rw [only.eq]
  cases stream with
  | reservedIndices => exact .still rfl rfl rfl rfl rfl
  | assignedReservedIndices => exact .still rfl rfl rfl rfl rfl
  | maskedInputs =>
    exact .finished delivered rfl rfl (by simp [sinkList, takenSinks, held, restoreSinks]) rfl rfl rfl
  | assignedMaskedInputs =>
    exact .finished delivered rfl rfl (by simp [sinkList, takenSinks, held, restoreSinks]) rfl rfl rfl

/-- Everything a critical section can do to a stream. -/
theorem Step.streamEffect (step : Step topology d call d') (stream : EventStream) :
    StreamEffect stream d call.action d' (noticesFor (.stream stream) (d.handed topology call.caller call.action))
      (sendsFor (.stream stream) (d.posted call.caller call.action)) := by
  obtain ⟨caller, action, reply⟩ := call
  simp only [Step] at step
  cases action with
  | transition nextRound =>
    rcases handed_transition step with ⟨rfl, nothing⟩ | ⟨rfl, notices⟩
    · rw [nothing]
      exact .still rfl rfl rfl rfl rfl
    · rw [notices, noticesFor_announcements_stream]
      have only : OnlyRounds (d.recordVote caller nextRound) ((d.recordVote caller nextRound).tryAdvance
          topology.transitionQuorum.toNat topology.rosterHead).1 := tryAdvance_onlyRounds _
      rw [only.eq]
      cases stream <;> exact .still rfl rfl rfl rfl rfl
  | reserveMaskIndices indices delivered => exact .of_reservation step
  | submitMaskedInputs maskedInputs reservedIndices => exact .of_submission step
  | finishSubmission delivered =>
    obtain ⟨pending, _, _, notices⟩ := handed_finishSubmission step
    rw [notices, noticesFor_announcements_stream]
    exact .of_finish step
  | subRound asked sink =>
    rcases handed_subRound step with ⟨rfl, _, notices⟩ | ⟨event, _, rfl, notices⟩ | ⟨_, _, rfl, notices⟩
    · rw [notices]
      exact .still rfl rfl rfl rfl rfl
    · rw [notices]
      exact .still rfl rfl rfl rfl rfl
    · rw [notices]
      cases stream <;> exact .still rfl rfl rfl rfl rfl
  | subReservedIndices sink delivered => exact .of_subscription .reservedIndices step
  | subMaskedInputs sink delivered => exact .of_subscription .maskedInputs step
  | subAssignedReservedIndices sink delivered => exact .of_subscription .assignedReservedIndices step
  | subAssignedMaskedInputs sink delivered => exact .of_subscription .assignedMaskedInputs step
  | _ => exact .of_onlyOutputs (onlyOutputs_of_perform step trivial)

/-- Nothing is sent to a subscriber of a round while the lock is held. -/
theorem sendsFor_round (round : Round) : sendsFor (.round round) (d.posted caller action) = [] := by
  refine List.filter_eq_nil_iff.mpr fun send member => ?_
  have streams : ∃ stream, send.1.topic = .stream stream := by
    unfold posted at member
    split at member
    · split at member
      · cases member
      · rcases List.mem_append.mp member with plain | assigned
        · obtain ⟨sink, _, rfl⟩ := List.mem_map.mp plain
          exact ⟨_, rfl⟩
        · split at assigned
          · cases assigned
          · obtain ⟨sink, _, rfl⟩ := List.mem_map.mp assigned
            exact ⟨_, rfl⟩
    · exact ⟨_, (mem_joinSends member).1⟩
    · exact ⟨_, (mem_joinSends member).1⟩
    · exact ⟨_, (mem_joinSends member).1⟩
    · exact ⟨_, (mem_joinSends member).1⟩
    · cases member
  obtain ⟨stream, topic⟩ := streams
  simp [topic]

/-- The sink is on the topic's list, with a submission, or just subscribing. -/
def Concerns (d : CoordinatorExecutionState) (action : Action) (topic : Topic) (sink : SubscriptionSink) : Prop :=
  sink ∈ d.sinkList topic ++ d.takenSinks topic ∨ ∃ delivered, action = topic.subscription sink delivered

/-- Whoever is on a list after a section was there before or just subscribed,
and nobody else is sent anything. -/
structure OnlyConcerned (topic : Topic) (d : CoordinatorExecutionState) (action : Action)
    (d' : CoordinatorExecutionState) (notices : List Notice) (sends : List (Notice × Bool)) : Prop where
  listed : ∀ sink ∈ d'.sinkList topic ++ d'.takenSinks topic, d.Concerns action topic sink
  notices : ∀ notice ∈ notices, d.Concerns action topic notice.sink
  sends : ∀ send ∈ sends, d.Concerns action topic send.1.sink

theorem RoundEffect.onlyConcerned {notices : List Notice} (effect : RoundEffect round d action d' notices) :
    OnlyConcerned (.round round) d action d' notices [] := by
  cases effect with
  | still _ parked nothing =>
    subst nothing
    refine ⟨fun sink member => Or.inl ?_, by simp, by simp⟩
    simpa [sinkList, takenSinks, parked] using member
  | parked sink asks _ _ _ parked nothing =>
    subst nothing
    refine ⟨fun other member => ?_, by simp, by simp⟩
    simp only [sinkList, takenSinks, parked, Option.getD_some, List.append_nil, List.mem_append,
      List.mem_singleton] at member
    rcases member with old | rfl
    · exact Or.inl (by simpa [sinkList, takenSinks] using old)
    · exact Or.inr ⟨fun _ => true, asks⟩
  | answered sink event asks _ same told =>
    subst same told
    refine ⟨fun _ member => Or.inl member, fun notice member => ?_, by simp⟩
    rw [List.mem_singleton.mp member]
    exact Or.inr ⟨fun _ => true, asks⟩
  | announced event _ _ _ taken told =>
    subst told
    refine ⟨by simp [sinkList, takenSinks, taken], fun notice member => ?_, by simp⟩
    obtain ⟨sink, parked, rfl⟩ := List.mem_map.mp member
    exact Or.inl (by simpa [sinkList, takenSinks] using parked)

theorem StreamEffect.onlyConcerned {notices : List Notice} {sends : List (Notice × Bool)}
    (effect : StreamEffect stream d action d' notices sends) :
    OnlyConcerned (.stream stream) d action d' notices sends := by
  cases effect with
  | still _ lists taken nothing silent =>
    subst nothing silent
    refine ⟨fun sink member => Or.inl ?_, by simp, by simp⟩
    rwa [lists, taken] at member
  | joined sink delivered asks _ lists taken nothing told =>
    subst nothing told
    refine ⟨fun other member => ?_, by simp, fun send member => ?_⟩
    · rw [lists, taken, List.append_assoc, List.mem_append, List.mem_append] at member
      rcases member with old | new | held
      · exact Or.inl (List.mem_append_left _ old)
      · rw [List.mem_singleton.mp new]
        exact Or.inr ⟨delivered, asks⟩
      · exact Or.inl (List.mem_append_right _ held)
    · obtain ⟨message, _, rfl⟩ := List.mem_map.mp member
      exact Or.inr ⟨delivered, asks⟩
  | turnedAway sink delivered asks same nothing own _ =>
    subst same nothing
    refine ⟨fun other member => Or.inl member, by simp, fun send member => ?_⟩
    rw [(own send member).2]
    exact Or.inr ⟨delivered, asks⟩
  | broadcast message delivered _ _ lists taken nothing told =>
    subst nothing told
    refine ⟨fun sink member => Or.inl ?_, by simp, fun send member => ?_⟩
    · rw [lists, taken, List.append_nil] at member
      exact List.mem_append_left _ (List.mem_of_mem_filter member)
    · obtain ⟨sink, listed, rfl⟩ := List.mem_map.mp member
      exact Or.inl (List.mem_append_left _ listed)
  | begun message _ _ lists taken told silent =>
    subst told silent
    refine ⟨fun sink member => Or.inl ?_, fun notice member => ?_, by simp⟩
    · rw [lists, taken, List.nil_append] at member
      exact List.mem_append_left _ member
    · obtain ⟨sink, listed, rfl⟩ := List.mem_map.mp member
      exact Or.inl (List.mem_append_left _ listed)
  | finished delivered _ _ lists taken nothing silent =>
    subst nothing silent
    refine ⟨fun sink member => Or.inl ?_, by simp, by simp⟩
    rw [lists, taken, List.append_nil, List.mem_append] at member
    exact List.mem_append.mpr (member.imp_right List.mem_of_mem_filter)

theorem Step.onlyConcerned (coherent : Coherent registration d) (step : Step topology d call d') (topic : Topic) :
    OnlyConcerned topic d call.action d' (noticesFor topic (d.handed topology call.caller call.action))
      (sendsFor topic (d.posted call.caller call.action)) := by
  cases topic with
  | round round =>
    rw [sendsFor_round]
    exact (step.roundEffect coherent round).onlyConcerned
  | stream stream => exact (step.streamEffect stream).onlyConcerned

theorem RoundEffect.nodup {notices : List Notice} (effect : RoundEffect round d action d' notices)
    (single : (d.sinkList (.round round)).Nodup)
    (fresh : ∀ sink, action = .subRound round sink → sink ∉ d.sinkList (.round round)) :
    (d'.sinkList (.round round)).Nodup := by
  cases effect with
  | still _ parked => simpa [sinkList, parked] using single
  | parked new asks _ _ _ parked =>
    simp only [sinkList, parked, Option.getD_some]
    exact single.append (List.nodup_singleton _) (by simpa using fresh new asks)
  | answered _ _ _ _ same => exact same ▸ single
  | announced _ _ _ _ taken => simp [sinkList, taken]

theorem StreamEffect.nodup {notices : List Notice} {sends : List (Notice × Bool)}
    (effect : StreamEffect stream d action d' notices sends)
    (single : (d.sinkList (.stream stream) ++ d.takenSinks (.stream stream)).Nodup)
    (fresh : ∀ sink delivered, action = (Topic.stream stream).subscription sink delivered →
      sink ∉ d.sinkList (.stream stream) ++ d.takenSinks (.stream stream)) :
    (d'.sinkList (.stream stream) ++ d'.takenSinks (.stream stream)).Nodup := by
  cases effect with
  | still _ lists taken => rwa [lists, taken]
  | joined sink delivered asks _ lists taken =>
    have absent := fresh sink delivered asks
    rw [lists, taken, List.append_assoc]
    exact (List.perm_middle.nodup_iff).mpr (List.nodup_cons.mpr ⟨absent, single⟩)
  | turnedAway _ _ _ same => rwa [same]
  | broadcast _ delivered _ _ lists taken =>
    rw [lists, taken, List.append_nil]
    exact (List.nodup_append.mp single).1.filter _
  | begun _ _ _ lists taken =>
    rw [lists, taken, List.nil_append]
    exact (List.nodup_append.mp single).1
  | finished delivered _ _ lists taken =>
    rw [lists, taken, List.append_nil]
    exact single.sublist (List.Sublist.append_left List.filter_sublist _)

/-- No sink is on a list twice, if every new one is new. -/
theorem Step.sinks_nodup (coherent : Coherent registration d) (step : Step topology d call d') (topic : Topic)
    (single : (d.sinkList topic ++ d.takenSinks topic).Nodup)
    (fresh : ∀ sink delivered, call.action = topic.subscription sink delivered →
      sink ∉ d.sinkList topic ++ d.takenSinks topic) : (d'.sinkList topic ++ d'.takenSinks topic).Nodup := by
  cases topic with
  | round round =>
    simp only [takenSinks, List.append_nil] at single fresh ⊢
    exact (step.roundEffect coherent round).nodup single fun sink asks => fresh sink (fun _ => true) asks
  | stream stream => exact (step.streamEffect stream).nodup single fresh

end MpcCoordinator.CoordinatorExecutionState
