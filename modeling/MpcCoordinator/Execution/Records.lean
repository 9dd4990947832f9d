import MpcCoordinator.Execution.Coherent

namespace MpcCoordinator.CoordinatorExecutionState

/-- What has been reserved and submitted is as before, and so are the histories
of it. Rounds, votes, subscriptions and outputs may have moved. -/
def SameRecords (d d' : CoordinatorExecutionState) : Prop :=
  d' = { d with
    retirementAcks := d'.retirementAcks
    transitionVotes := d'.transitionVotes
    sinks := d'.sinks
    transEvents := d'.transEvents
    reservedIndexSinks := d'.reservedIndexSinks
    assignedReservedIndexSinks := d'.assignedReservedIndexSinks
    maskedInputSinks := d'.maskedInputSinks
    assignedMaskedInputSinks := d'.assignedMaskedInputSinks
    maskedInputDelivery := d'.maskedInputDelivery
    round := d'.round
    outputShares := d'.outputShares
    outputSinks := d'.outputSinks }

/-- What a step records: nothing, a reservation batch or a submission batch. The
batches are those that pass the checks, and they are applied whole. -/
inductive Recorded (d : CoordinatorExecutionState) : Call → CoordinatorExecutionState → Prop
  | nothing {call d'} : SameRecords d d' →
      (∀ indices delivered, call.action = .reserveMaskIndices indices delivered →
        d.checkReservation call.caller indices ≠ .ok () ∧ call.reply ≠ .ok ()) →
      (∀ inputs indices, call.action = .submitMaskedInputs inputs indices →
        d.checkSubmission call.caller inputs indices ≠ .ok () ∧ call.reply ≠ .ok ()) → Recorded d call d'
  | reservation {id indices delivered d'} : d.checkReservation id indices = .ok () →
      SameRecords (d.recordReservation id indices) d' →
      Recorded d ⟨id, .reserveMaskIndices indices delivered, .ok ()⟩ d'
  | submission {id maskedInputs reservedIndices} : d.checkSubmission id maskedInputs reservedIndices = .ok () →
      Recorded d ⟨id, .submitMaskedInputs maskedInputs reservedIndices, .ok ()⟩
        (d.recordSubmission id (reservedIndices.zip maskedInputs))

variable {topology : Topology} {d d' : CoordinatorExecutionState} {call : Call}

theorem SameRecords.of_sameProtocol (same : SameProtocol d d') : SameRecords d d' := by
  rw [same]
  rfl

theorem SameRecords.of_onlyRounds (only : OnlyRounds d d') : SameRecords d d' := by
  rw [only.eq]
  rfl

theorem SameRecords.trans {a b c : CoordinatorExecutionState} (first : SameRecords a b) (second : SameRecords b c) :
    SameRecords a c := by
  rw [second, first]
  rfl

theorem Step.recorded (step : Step topology d call d') : Recorded d call d' := by
  cases step.effect with
  | quiet same unrecorded => exact .nothing (.of_sameProtocol same) unrecorded.unreserved unrecorded.unsubmitted
  | @vote id nextRound =>
    have voted : SameRecords d (d.recordVote id nextRound) := rfl
    exact .nothing (voted.trans (.of_onlyRounds (tryAdvance_onlyRounds _))) nofun nofun
  | reserve checked same => exact .reservation checked (.of_sameProtocol same)
  | submit _ checked => exact .submission checked
  | @finish _ delivered pending =>
    have restored : SameRecords d (d.restoreSinks pending delivered) := rfl
    exact .nothing (restored.trans (.of_onlyRounds (tryAdvance_onlyRounds _))) nofun nofun

end MpcCoordinator.CoordinatorExecutionState
