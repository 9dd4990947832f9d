import MpcCoordinator.Execution.Subscribe
import MpcCoordinator.General.Run

namespace MpcCoordinator

/-- The critical sections that calls make on one execution. Network outcomes,
which the coordinator cannot choose, are part of the action. -/
inductive Action where
  | transition (nextRound : Round)
  | reserveMaskIndices (indices : List UInt64) (delivered : SubscriptionSink → Bool)
  | submitMaskedInputs (maskedInputs : List Bytes) (reservedIndices : List UInt64)
  | finishSubmission (delivered : SubscriptionSink → Bool)
  | subRound (round : Round) (sink : SubscriptionSink)
  | subReservedIndices (sink : SubscriptionSink) (delivered : Nat → Bool)
  | subMaskedInputs (sink : SubscriptionSink) (delivered : Nat → Bool)
  | subAssignedReservedIndices (sink : SubscriptionSink) (delivered : Nat → Bool)
  | subAssignedMaskedInputs (sink : SubscriptionSink) (delivered : Nat → Bool)
  | sendOutputShares (clientId : ClientIdentity) (encShares : EncryptedShares)
  | deliverReadyOutput (clientId : ClientIdentity) (isClosed : SubscriptionSink → Bool)
  | outputSendFailed (clientId : ClientIdentity) (waiter : SubscriptionSink)
  | requestOutputShares (isClosed : SubscriptionSink → Bool)
  | obtainOutputShares (sink : SubscriptionSink) (isClosed : SubscriptionSink → Bool)
  | retireExecution

/-- The sections that deliver outputs or count retirements, and no others. -/
def Action.concernsOutputs : Action → Prop
  | .sendOutputShares .. | .deliverReadyOutput .. | .outputSendFailed .. | .requestOutputShares ..
  | .obtainOutputShares .. | .retireExecution => True
  | _ => False

/-- A critical section that was run: by whom, what, and what it answered. -/
structure Call where
  caller : ClientIdentity
  action : Action
  reply : RpcResult Unit

namespace CoordinatorExecutionState

/-- Runs one critical section. There is no result while the section would
have to wait for the delivery guard; a refused call leaves the state alone. -/
def perform (topology : Topology) (d : CoordinatorExecutionState) (caller : ClientIdentity) :
    Action → Option (RpcResult Unit × CoordinatorExecutionState)
  | .transition nextRound =>
    match (CoordinatorRPCServerConnectionBase.mk topology caller).transition d nextRound with
    | .error refusal => some (.error refusal, d)
    | .ok (d', _) => if d.maskedInputDelivery.isSome then none else some (.ok (), d')
  | .reserveMaskIndices indices delivered =>
    match (CoordinatorRPCServerConnectionBase.mk topology caller).reserveMaskIndices d indices delivered with
    | .error refusal => some (.error refusal, d)
    | .ok d' => some (.ok (), d')
  | .submitMaskedInputs maskedInputs reservedIndices =>
    if d.maskedInputDelivery.isSome then none
    else
      match (CoordinatorRPCServerConnectionBase.mk topology caller).submitMaskedInputs d maskedInputs reservedIndices with
      | .error refusal => some (.error refusal, d)
      | .ok d' => some (.ok (), d')
  | .finishSubmission delivered =>
    match d.maskedInputDelivery with
    | none => none
    | some pending =>
      some (.ok (), ((CoordinatorRPCServerConnectionBase.mk topology caller).finishSubmission d pending delivered).1)
  | .subRound round sink =>
    match d.subRound round sink with
    | .error refusal => some (.error refusal, d)
    | .ok (d', _) => some (.ok (), d')
  | .subReservedIndices sink delivered => some (.ok (), d.subscribeReservedIndices sink delivered)
  | .subMaskedInputs sink delivered => some (.ok (), d.subscribeMaskedInputs sink delivered)
  | .subAssignedReservedIndices sink delivered => some (.ok (), d.subscribeAssignedReservedIndices sink delivered)
  | .subAssignedMaskedInputs sink delivered => some (.ok (), d.subscribeAssignedMaskedInputs sink delivered)
  | .sendOutputShares clientId encShares =>
    match (CoordinatorRPCServerConnectionBase.mk topology caller).sendOutputShares d clientId encShares with
    | .error refusal => some (.error refusal, d)
    | .ok d' => some (.ok (), d')
  | .deliverReadyOutput clientId isClosed =>
    some (.ok (), (d.readyOutputSnapshot clientId d.registration.minOutputShares.toNat isClosed).1)
  | .outputSendFailed clientId waiter => some (.ok (), d.forgetOutputSink clientId waiter)
  | .requestOutputShares isClosed =>
    some ((CoordinatorRPCServerConnectionBase.mk topology caller).checkObtainOutputShares d isClosed, d)
  | .obtainOutputShares sink isClosed =>
    some (.ok (), (CoordinatorRPCServerConnectionBase.mk topology caller).obtainOutputShares d sink isClosed)
  | .retireExecution =>
    match (CoordinatorRPCServerConnectionBase.mk topology caller).retireExecution d with
    | .error refusal => some (.error refusal, d)
    | .ok d' => some (.ok (), d')

/-- One step of an execution: a call runs a critical section. -/
def Step (topology : Topology) (d : CoordinatorExecutionState) (call : Call) (d' : CoordinatorExecutionState) : Prop :=
  d.perform topology call.caller call.action = some (call.reply, d')

/-- The call has no place in the protocol or was refused it: it is neither a
vote that counts, nor an accepted batch, nor the end of a submission. -/
structure Unrecorded (topology : Topology) (d : CoordinatorExecutionState) (call : Call) : Prop where
  late : ∀ nextRound, call.action = .transition nextRound → call.caller ∈ topology.parties →
    nextRound ≠ .idle → roundIndex nextRound ≤ roundIndex d.round
  unreserved : ∀ indices delivered, call.action = .reserveMaskIndices indices delivered →
    d.checkReservation call.caller indices ≠ .ok () ∧ call.reply ≠ .ok ()
  unsubmitted : ∀ inputs indices, call.action = .submitMaskedInputs inputs indices →
    d.checkSubmission call.caller inputs indices ≠ .ok () ∧ call.reply ≠ .ok ()
  unfinished : ∀ delivered, call.action ≠ .finishSubmission delivered

/-- What a step can do to the protocol. Every invariant of executions is
proved by these five cases. -/
inductive Effect (topology : Topology) (d : CoordinatorExecutionState) : Call → CoordinatorExecutionState → Prop
  | quiet {call d'} : SameProtocol d d' → Unrecorded topology d call → Effect topology d call d'
  | vote {id nextRound} : id ∈ topology.parties → nextRound ≠ .idle → d.maskedInputDelivery = none →
      roundIndex d.round < roundIndex nextRound →
      Effect topology d ⟨id, .transition nextRound, .ok ()⟩
        ((d.recordVote id nextRound).tryAdvance topology.transitionQuorum.toNat topology.rosterHead).1
  | reserve {id indices delivered d'} : d.checkReservation id indices = .ok () →
      SameProtocol (d.recordReservation id indices) d' →
      Effect topology d ⟨id, .reserveMaskIndices indices delivered, .ok ()⟩ d'
  | submit {id maskedInputs reservedIndices} : d.maskedInputDelivery = none →
      d.checkSubmission id maskedInputs reservedIndices = .ok () →
      Effect topology d ⟨id, .submitMaskedInputs maskedInputs reservedIndices, .ok ()⟩
        (d.recordSubmission id (reservedIndices.zip maskedInputs))
  | finish {id delivered pending} : d.maskedInputDelivery = some pending →
      Effect topology d ⟨id, .finishSubmission delivered, .ok ()⟩
        ((d.restoreSinks pending delivered).tryAdvance topology.transitionQuorum.toNat topology.rosterHead).1

variable {topology : Topology} {d d' : CoordinatorExecutionState} {caller : ClientIdentity} {reply : RpcResult Unit}

theorem Effect.of_transition {nextRound : Round}
    (step : d.perform topology caller (.transition nextRound) = some (reply, d')) :
    Effect topology d ⟨caller, .transition nextRound, reply⟩ d' := by
  simp only [perform] at step
  split at step
  · rename_i refusal refused
    cases step
    refine .quiet rfl ⟨?_, by simp, by simp, by simp⟩
    rintro _ ⟨⟩ party entered
    obtain ⟨_, _, accepted⟩ := CoordinatorRPCServerConnectionBase.transition_accepts ⟨topology, caller⟩ d party entered
    rw [refused] at accepted
    cases accepted
  · rename_i after deliveries accepted
    split at step
    · cases step
    rename_i free
    cases step
    obtain ⟨party, entered, effect⟩ := CoordinatorRPCServerConnectionBase.transition_cases _ accepted
    rcases effect with ⟨late, rfl, _⟩ | ⟨early, cascade⟩
    · refine .quiet rfl ⟨?_, by simp, by simp, by simp⟩
      rintro _ ⟨⟩ _ _
      exact late
    · have same := congrArg Prod.fst cascade
      simp only at same
      rw [same]
      exact .vote party entered (by simpa using free) early

/-- A reservation is refused, or it is recorded and broadcast. -/
theorem perform_reserveMaskIndices_cases {indices : List UInt64} {delivered : SubscriptionSink → Bool}
    (step : d.perform topology caller (.reserveMaskIndices indices delivered) = some (reply, d')) :
    (∃ refusal, d.checkReservation caller indices = .error refusal ∧ reply = .error refusal ∧ d' = d) ∨
      d.checkReservation caller indices = .ok () ∧ reply = .ok () ∧
        d' = (d.recordReservation caller indices).broadcastReservation (d.assignedReservations caller indices) delivered := by
  simp only [perform, CoordinatorRPCServerConnectionBase.reserveMaskIndices] at step
  cases checked : d.checkReservation caller indices with
  | error refusal =>
    rw [checked] at step
    cases step
    exact .inl ⟨refusal, rfl, rfl, rfl⟩
  | ok =>
    rw [checked] at step
    cases step
    exact .inr ⟨rfl, rfl, rfl⟩

/-- A submission, once no other is being delivered, is refused or recorded. -/
theorem perform_submitMaskedInputs_cases {maskedInputs : List Bytes} {reservedIndices : List UInt64}
    (step : d.perform topology caller (.submitMaskedInputs maskedInputs reservedIndices) = some (reply, d')) :
    d.maskedInputDelivery = none ∧
      ((∃ refusal, d.checkSubmission caller maskedInputs reservedIndices = .error refusal ∧ reply = .error refusal ∧ d' = d) ∨
        d.checkSubmission caller maskedInputs reservedIndices = .ok () ∧ reply = .ok () ∧
          d' = d.recordSubmission caller (reservedIndices.zip maskedInputs)) := by
  simp only [perform, CoordinatorRPCServerConnectionBase.submitMaskedInputs] at step
  split at step
  · cases step
  rename_i free
  refine ⟨by simpa using free, ?_⟩
  cases checked : d.checkSubmission caller maskedInputs reservedIndices with
  | error refusal =>
    rw [checked] at step
    cases step
    exact .inl ⟨refusal, rfl, rfl, rfl⟩
  | ok =>
    rw [checked] at step
    cases step
    exact .inr ⟨rfl, rfl, rfl⟩

theorem Effect.of_reserveMaskIndices {indices : List UInt64} {delivered : SubscriptionSink → Bool}
    (step : d.perform topology caller (.reserveMaskIndices indices delivered) = some (reply, d')) :
    Effect topology d ⟨caller, .reserveMaskIndices indices delivered, reply⟩ d' := by
  rcases perform_reserveMaskIndices_cases step with ⟨refusal, refused, rfl, rfl⟩ | ⟨checked, rfl, rfl⟩
  · refine .quiet rfl ⟨by simp, ?_, by simp, by simp⟩
    rintro _ _ ⟨⟩
    rw [refused]
    exact ⟨nofun, nofun⟩
  · exact .reserve checked rfl

theorem Effect.of_submitMaskedInputs {maskedInputs : List Bytes} {reservedIndices : List UInt64}
    (step : d.perform topology caller (.submitMaskedInputs maskedInputs reservedIndices) = some (reply, d')) :
    Effect topology d ⟨caller, .submitMaskedInputs maskedInputs reservedIndices, reply⟩ d' := by
  obtain ⟨free, ⟨refusal, refused, rfl, rfl⟩ | ⟨checked, rfl, rfl⟩⟩ := perform_submitMaskedInputs_cases step
  · refine .quiet rfl ⟨by simp, by simp, ?_, by simp⟩
    rintro _ _ ⟨⟩
    rw [refused]
    exact ⟨nofun, nofun⟩
  · exact .submit free checked

theorem Effect.of_finishSubmission {delivered : SubscriptionSink → Bool}
    (step : d.perform topology caller (.finishSubmission delivered) = some (reply, d')) :
    Effect topology d ⟨caller, .finishSubmission delivered, reply⟩ d' := by
  simp only [perform] at step
  split at step
  · cases step
  · rename_i pending held
    cases step
    exact .finish held

/-- A call that may be refused and otherwise only delivers outputs. -/
theorem onlyOutputs_of_result {result : RpcResult CoordinatorExecutionState}
    (step : (match result with
      | .error refusal => some (.error refusal, d)
      | .ok after => some (.ok (), after)) = some (reply, d'))
    (served : ∀ after, result = .ok after → OnlyOutputs d after) : OnlyOutputs d d' := by
  cases result with
  | error refusal =>
    cases step
    rfl
  | ok after =>
    cases step
    exact served _ rfl

theorem onlyOutputs_of_perform {action : Action} (step : d.perform topology caller action = some (reply, d'))
    (outputs : action.concernsOutputs) : OnlyOutputs d d' := by
  cases action with
  | sendOutputShares clientId encShares =>
    exact onlyOutputs_of_result step fun after => CoordinatorRPCServerConnectionBase.sendOutputShares_onlyOutputs
  | deliverReadyOutput clientId isClosed =>
    cases step
    exact readyOutputSnapshot_onlyOutputs d _ _ _
  | outputSendFailed clientId waiter =>
    cases step
    exact forgetOutputSink_onlyOutputs d _ _
  | requestOutputShares isClosed =>
    simp only [perform, Option.some.injEq, Prod.mk.injEq] at step
    obtain ⟨_, rfl⟩ := step
    rfl
  | obtainOutputShares sink isClosed =>
    cases step
    exact CoordinatorRPCServerConnectionBase.obtainOutputShares_onlyOutputs _ _
  | retireExecution =>
    exact onlyOutputs_of_result step fun after => CoordinatorRPCServerConnectionBase.retireExecution_onlyOutputs
  | _ => exact absurd outputs id

theorem Step.effect {call : Call} (step : Step topology d call d') : Effect topology d call d' := by
  obtain ⟨caller, action, reply⟩ := call
  simp only [Step] at step
  cases action with
  | transition nextRound => exact .of_transition step
  | reserveMaskIndices indices delivered => exact .of_reserveMaskIndices step
  | submitMaskedInputs maskedInputs reservedIndices => exact .of_submitMaskedInputs step
  | finishSubmission delivered => exact .of_finishSubmission step
  | subRound round sink =>
    refine .quiet ?_ ⟨by simp, by simp, by simp, by simp⟩
    simp only [perform] at step
    split at step
    · cases step
      rfl
    · rename_i accepted
      cases step
      exact subRound_sameProtocol accepted
  | subReservedIndices sink delivered =>
    cases step
    exact .quiet (subscribeReservedIndices_sameProtocol d sink delivered) ⟨by simp, by simp, by simp, by simp⟩
  | subMaskedInputs sink delivered =>
    cases step
    exact .quiet (subscribeMaskedInputs_sameProtocol d sink delivered) ⟨by simp, by simp, by simp, by simp⟩
  | subAssignedReservedIndices sink delivered =>
    cases step
    exact .quiet (subscribeAssignedReservedIndices_sameProtocol d sink delivered) ⟨by simp, by simp, by simp, by simp⟩
  | subAssignedMaskedInputs sink delivered =>
    cases step
    exact .quiet (subscribeAssignedMaskedInputs_sameProtocol d sink delivered) ⟨by simp, by simp, by simp, by simp⟩
  | sendOutputShares clientId encShares =>
    exact .quiet (onlyOutputs_of_perform step trivial).sameProtocol ⟨by simp, by simp, by simp, by simp⟩
  | deliverReadyOutput clientId isClosed =>
    exact .quiet (onlyOutputs_of_perform step trivial).sameProtocol ⟨by simp, by simp, by simp, by simp⟩
  | outputSendFailed clientId waiter =>
    exact .quiet (onlyOutputs_of_perform step trivial).sameProtocol ⟨by simp, by simp, by simp, by simp⟩
  | requestOutputShares isClosed =>
    exact .quiet (onlyOutputs_of_perform step trivial).sameProtocol ⟨by simp, by simp, by simp, by simp⟩
  | obtainOutputShares sink isClosed =>
    exact .quiet (onlyOutputs_of_perform step trivial).sameProtocol ⟨by simp, by simp, by simp, by simp⟩
  | retireExecution =>
    exact .quiet (onlyOutputs_of_perform step trivial).sameProtocol ⟨by simp, by simp, by simp, by simp⟩

/-- A step as a partial function, for running calls one after the other. -/
def next (topology : Topology) (d : CoordinatorExecutionState) (call : Call) : Option CoordinatorExecutionState :=
  match d.perform topology call.caller call.action, call.reply with
  | some (.ok (), d'), .ok () => some d'
  | some (.error refusal, d'), .error expected => if refusal = expected then some d' else none
  | _, _ => none

theorem Step.of_next {topology : Topology} (d : CoordinatorExecutionState) (call : Call)
    (d' : CoordinatorExecutionState) (moved : next topology d call = some d') : Step topology d call d' := by
  unfold next at moved
  unfold Step
  split at moved
  · rename_i performed replied
    rw [performed, replied, Option.some.inj moved]
  · rename_i performed replied
    split at moved
    · rename_i expected
      rw [performed, replied, expected, Option.some.inj moved]
    · cases moved
  · cases moved

/-- What is seen at the end of a list of calls is seen at the end of a run. -/
theorem exists_run_of_calls {β : Type} (topology : Topology) (initial : CoordinatorExecutionState)
    (calls : List Call) (view : CoordinatorExecutionState → β) (seen : β)
    (done : (Run.execute (next topology) initial calls).map view = some seen) :
    ∃ trace final, Run (Step topology) initial trace final ∧ trace.map Transition.event = calls ∧
      view final = seen :=
  Run.exists_of_execute Step.of_next done

/-- The same for calls that pass a check before each step. -/
theorem exists_run_of_checked {β : Type} (topology : Topology) (initial : CoordinatorExecutionState)
    (calls : List Call) (check : CoordinatorExecutionState → Call → Bool) (view : CoordinatorExecutionState → β) (seen : β)
    (done : (Run.execute (fun d call => if check d call then next topology d call else none) initial calls).map view =
      some seen) :
    ∃ trace final, Run (Step topology) initial trace final ∧ trace.map Transition.event = calls ∧
      view final = seen ∧ ∀ τ ∈ trace, check τ.source τ.event = true :=
  Run.exists_of_checked Step.of_next done

end CoordinatorExecutionState

end MpcCoordinator
