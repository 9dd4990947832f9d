import MpcCoordinator.Execution.MaskedHistory
import MpcCoordinator.Execution.Provenance

namespace MpcCoordinator.CoordinatorExecutionState

variable {topology : Topology} {registration : ExecutionRegistration} {initial final d d' : CoordinatorExecutionState}
  {call : Call} {trace : List (Transition CoordinatorExecutionState Call)}

/-- Every event of the masked inputs is a batch of one client, which owns all
indices in it. -/
def BatchesOwned (d : CoordinatorExecutionState) : Prop :=
  ∀ event ∈ d.maskedInputEvents, ∃ id, event = .maskedInputEvent id event.maskedPairs ∧
    ∀ pair ∈ event.maskedPairs, d.reservedIndices.read pair.1.toNat = some id

/-- What a step adds to the history of the masked inputs: nothing, or the batch
of its caller. -/
theorem Step.maskedInputEvents_cases (step : Step topology d call d') :
    d'.maskedInputEvents = d.maskedInputEvents ∨
      ∃ id maskedInputs reservedIndices, call.action = .submitMaskedInputs maskedInputs reservedIndices ∧
        d.checkSubmission id maskedInputs reservedIndices = .ok () ∧
        d'.maskedInputEvents = d.maskedInputEvents ++ [.maskedInputEvent id (reservedIndices.zip maskedInputs)] := by
  cases step.recorded with
  | nothing same => exact Or.inl (by rw [same])
  | reservation _ same =>
    refine Or.inl ?_
    rw [same]
    rfl
  | submission checked => exact Or.inr ⟨_, _, _, rfl, checked, rfl⟩

theorem BatchesOwned.step (owned : BatchesOwned d) (step : Step topology d call d') : BatchesOwned d' := by
  have kept := TablesKept.step step
  have old : ∀ event ∈ d.maskedInputEvents, ∃ id, event = .maskedInputEvent id event.maskedPairs ∧
      ∀ pair ∈ event.maskedPairs, d'.reservedIndices.read pair.1.toNat = some id := by
    intro event member
    obtain ⟨id, shape, owner⟩ := owned event member
    exact ⟨id, shape, fun pair inside => kept.owner _ _ (owner pair inside)⟩
  rcases step.maskedInputEvents_cases with same | ⟨id, maskedInputs, reservedIndices, _, checked, grown⟩
  · intro event member
    exact old event (same ▸ member)
  · intro event member
    rw [grown, List.mem_append, List.mem_singleton] at member
    rcases member with before | rfl
    · exact old event before
    · obtain ⟨_, _, _, checks⟩ := checkSubmission_ok.mp checked
      refine ⟨id, rfl, fun pair inside => kept.owner _ _ ?_⟩
      exact (checks pair.1 (List.of_mem_zip inside).1).2.1

theorem BatchesOwned.of_run (admitted : new registration topology.n = .ok initial)
    (run : Run (Step topology) initial trace final) : BatchesOwned final := by
  refine run.invariant (P := BatchesOwned) ?_ fun _ _ _ owned step => owned.step step
  rw [(new_cases admitted).1]
  exact fun _ member => absurd member List.not_mem_nil

/-- The history of the masked inputs only grows. -/
theorem Step.exists_maskedPairs (step : Step topology d call d') : ∃ batch, d'.maskedPairs = d.maskedPairs ++ batch := by
  rcases step.maskedInputEvents_cases with same | ⟨id, maskedInputs, reservedIndices, _, _, grown⟩
  · exact ⟨[], by rw [maskedPairs, same, List.append_nil]; rfl⟩
  · exact ⟨reservedIndices.zip maskedInputs, by simp [maskedPairs, grown, Event.maskedPairs]⟩

/-- A step after which no index occurs twice in the history keeps the journal. -/
theorem InputsRecorded.step_of_once (recorded : InputsRecorded d) (step : Step topology d call d')
    (once : (d'.maskedPairs.map Prod.fst).Nodup) : InputsRecorded d' := by
  rw [recorded.step_iff step]
  intro maskedInputs reservedIndices submitted accepted
  cases step.recorded with
  | nothing _ _ unsubmitted => exact absurd accepted (unsubmitted _ _ submitted).1
  | reservation => cases submitted
  | submission checked =>
    cases submitted
    obtain ⟨_, lengths, _, _⟩ := checkSubmission_ok.mp checked
    rw [maskedPairs_recordSubmission, List.map_append, List.map_fst_zip lengths.ge] at once
    exact once.of_append_right

/-- The journal is right at the end of a run if no index occurs twice in it then. -/
theorem InputsRecorded.of_run (admitted : new registration topology.n = .ok initial)
    (run : Run (Step topology) initial trace final) (once : (final.maskedPairs.map Prod.fst).Nodup) :
    InputsRecorded final := by
  induction run with
  | start =>
    rw [(new_cases admitted).1]
    exact .empty _
  | next _ step ih =>
    obtain ⟨batch, grown⟩ := step.exists_maskedPairs
    have before := once
    rw [grown, List.map_append] at before
    exact (ih before.of_append_left).step_of_once step once

end MpcCoordinator.CoordinatorExecutionState
