import MpcCoordinator.Execution.Step

namespace MpcCoordinator.CoordinatorExecutionState

/-- What holds of an execution at all times, whoever calls what: its layout is
the registered one, inputs are only touched from `inputCollection` on, the round
history ends at the current round, and a submission in flight holds the round. -/
structure Coherent (registration : ExecutionRegistration) (d : CoordinatorExecutionState) : Prop where
  registration_eq : d.registration = registration
  outputClients_eq : d.outputClients = registration.outputClients
  inputAssignments_eq : d.inputAssignments = expandInputRanges registration.inputAssignment.ranges
  maskedInputs_length : d.maskedInputs.length = registration.nInputs.toNat
  reservedIndices_length : d.reservedIndices.length = registration.nInputs.toNat
  untouched : roundIndex d.round < roundIndex .inputCollection → ∀ i, d.maskedInputs.read i = none
  entered_le : ∀ round, (d.transEvents round).isSome = true → roundIndex round ≤ roundIndex d.round
  entered_self : d.round ≠ .idle → (d.transEvents d.round).isSome = true
  collects_after_reserving : d.round = .inputCollection → (d.transEvents .inputMaskReservation).isSome = true
  pending_round : d.maskedInputDelivery.isSome = true → d.round = .inputCollection

variable {topology : Topology} {registration : ExecutionRegistration} {quorum : Nat}
  {rosterHead : ClientIdentity} {d d' : CoordinatorExecutionState}

theorem Coherent.fresh (registration : ExecutionRegistration) : Coherent registration (fresh registration) where
  registration_eq := rfl
  outputClients_eq := rfl
  inputAssignments_eq := rfl
  maskedInputs_length := by simp [CoordinatorExecutionState.fresh]
  reservedIndices_length := by simp [CoordinatorExecutionState.fresh]
  untouched := fun _ i => Slots.read_replicate _ i
  entered_le := by simp [CoordinatorExecutionState.fresh]
  entered_self := by simp [CoordinatorExecutionState.fresh]
  collects_after_reserving := by simp [CoordinatorExecutionState.fresh]
  pending_round := by simp [CoordinatorExecutionState.fresh]

theorem Coherent.of_new {n : UInt64} (admitted : new registration n = .ok d) : Coherent registration d := by
  rw [(new_cases admitted).1]
  exact .fresh registration

theorem Coherent.advanceOnce {delivery : TransitionDelivery} (coherent : Coherent registration d)
    (free : d.maskedInputDelivery = none) (applied : advanceOnce quorum rosterHead d = some (delivery, d')) :
    Coherent registration d' ∧ d'.maskedInputDelivery = none := by
  have up := advanceOnce_lt applied
  obtain ⟨found, _, _, _, rfl⟩ := advanceOnce_next applied
  refine ⟨{ coherent with
    untouched := ?_
    entered_le := ?_
    entered_self := ?_
    collects_after_reserving := ?_
    pending_round := ?_ }, free⟩
  · intro early i
    exact coherent.untouched (up.trans early) i
  · intro round entered
    rw [enter_transEvents, Table.insert_apply] at entered
    split at entered
    · rename_i same
      rw [same, enter_round]
    · exact (coherent.entered_le round entered).trans up.le
  · simp
  · intro collecting
    rw [enter_round] at collecting
    have from_reservation : d.round = .inputMaskReservation := by
      have follows := (nextQuorumRound_some found).1
      rw [collecting] at follows
      simpa [Follows, roundBefore, eq_comm] using follows
    have entered := coherent.entered_self (by simp [from_reservation])
    rw [from_reservation] at entered
    rw [enter_transEvents, collecting, Table.insert_of_ne _ _ (by decide)]
    exact entered
  · simp [enter, free]

theorem Coherent.tryAdvance (coherent : Coherent registration d) (free : d.maskedInputDelivery = none) :
    Coherent registration (tryAdvance quorum rosterHead d).1 ∧
      (CoordinatorExecutionState.tryAdvance quorum rosterHead d).1.maskedInputDelivery = none :=
  tryAdvance_invariant (P := fun d => Coherent registration d ∧ d.maskedInputDelivery = none) ⟨coherent, free⟩
    fun _ _ _ before applied => before.1.advanceOnce before.2 applied

theorem Coherent.of_sameProtocol (coherent : Coherent registration d) (same : SameProtocol d d') :
    Coherent registration d' := by
  rw [same]
  exact { coherent with }

theorem Coherent.recordVote (coherent : Coherent registration d) (id : ClientIdentity) (nextRound : Round) :
    Coherent registration (d.recordVote id nextRound) := { coherent with }

theorem Coherent.restoreSinks (coherent : Coherent registration d) (pending : PendingSubmission)
    (delivered : SubscriptionSink → Bool) : Coherent registration (d.restoreSinks pending delivered) :=
  { coherent with pending_round := by simp [CoordinatorExecutionState.restoreSinks] }

theorem Coherent.recordReservation (coherent : Coherent registration d) (id : ClientIdentity)
    (indices : List UInt64) : Coherent registration (d.recordReservation id indices) :=
  { coherent with
    reservedIndices_length := by
      simp only [CoordinatorExecutionState.recordReservation, Slots.length_writeAll]
      exact coherent.reservedIndices_length }

theorem Coherent.recordSubmission (coherent : Coherent registration d) (atRound : d.round = .inputCollection)
    (id : ClientIdentity) (pairs : List (UInt64 × Bytes)) : Coherent registration (d.recordSubmission id pairs) :=
  { coherent with
    maskedInputs_length := by
      simp only [CoordinatorExecutionState.recordSubmission, Slots.length_writeAll]
      exact coherent.maskedInputs_length
    untouched := by
      intro early
      simp only [CoordinatorExecutionState.recordSubmission, atRound] at early
      omega
    pending_round := fun _ => atRound }

theorem Coherent.step {call : Call} (coherent : Coherent registration d) (step : Step topology d call d') :
    Coherent registration d' := by
  cases step.effect with
  | quiet same => exact coherent.of_sameProtocol same
  | vote _ _ free _ => exact ((coherent.recordVote _ _).tryAdvance free).1
  | reserve _ same => exact (coherent.recordReservation _ _).of_sameProtocol same
  | submit _ checked => exact coherent.recordSubmission (checkSubmission_ok.mp checked).1 _ _
  | finish _ => exact ((coherent.restoreSinks _ _).tryAdvance rfl).1

/-- Every state of every run of an admitted execution is coherent. -/
theorem Coherent.of_run {n : UInt64} {trace : List (Transition CoordinatorExecutionState Call)}
    (admitted : new registration n = .ok d) (run : Run (Step topology) d trace d') : Coherent registration d' :=
  run.invariant (.of_new admitted) fun _ _ _ coherent step => coherent.step step

end MpcCoordinator.CoordinatorExecutionState
