import MpcCoordinator.Execution.Reserve

namespace MpcCoordinator

namespace CoordinatorExecutionState

/-- The checks that `submit_masked_inputs` makes of one index of a batch. -/
def checkSubmittable (d : CoordinatorExecutionState) (id : ClientIdentity) (rawReservedIndex : UInt64) :
    RpcResult Unit :=
  if d.maskedInputs.length ≤ rawReservedIndex.toNat then
    CoordinatorRPCBaseError.indexOutOfBounds.reply
      s!"The index {rawReservedIndex} is out of bounds, there are only {d.maskedInputs.length} input masks."
  else
    match d.reservedIndices.read rawReservedIndex.toNat with
    | none =>
      CoordinatorRPCBaseError.indexNotReserved.reply
        s!"Cannot submit a masked input for index {rawReservedIndex}, since it has not been reserved"
    | some publicKey =>
      if publicKey ≠ id then
        CoordinatorRPCBaseError.badID.reply
          s!"Client {id} cannot submit a masked input for index {rawReservedIndex}, since this index has been reserved by {publicKey}"
      else if (d.maskedInputs.read rawReservedIndex.toNat).isSome then
        CoordinatorRPCBaseError.maskedInputAlreadySubmitted.reply
          s!"Client {id} has already submitted a masked input for index {rawReservedIndex}"
      else .ok ()

/-- Every check made before a submission batch is applied. All of them look
at the state before the batch. -/
def checkSubmission (d : CoordinatorExecutionState) (id : ClientIdentity) (maskedInputs : List Bytes)
    (reservedIndices : List UInt64) : RpcResult Unit :=
  if d.round ≠ .inputCollection then
    CoordinatorRPCBaseError.wrongRound.reply
      s!"Need round {Round.inputCollection}, current round is {d.round}"
  else if maskedInputs.length ≠ reservedIndices.length then
    CoordinatorRPCBaseError.mismatchedBatchLengths.reply
      s!"Got {maskedInputs.length} masked inputs but {reservedIndices.length} reserved indices; these must match."
  else if reservedIndices.isEmpty then
    CoordinatorRPCBaseError.emptyBatch.reply "Cannot submit an empty batch of masked inputs."
  else reservedIndices.forM (d.checkSubmittable id)

/-- The assigned events a batch gives rise to, one per assigned slot. -/
def assignedInputs (d : CoordinatorExecutionState) (id : ClientIdentity) (pairs : List (UInt64 × Bytes)) :
    List AssignedMaskedInputEvent :=
  pairs.filterMap fun pair =>
    d.inputAssignments[pair.1.toNat]?.map fun slot => ⟨id, pair.1, slot.label, pair.2⟩

/-- Records a checked batch, takes the subscriber lists it is to be sent to
and keeps the delivery guard for the rest of the call. -/
def recordSubmission (d : CoordinatorExecutionState) (id : ClientIdentity) (pairs : List (UInt64 × Bytes)) :
    CoordinatorExecutionState :=
  { d with
    maskedInputs := d.maskedInputs.writeAll (pairs.map fun pair => (pair.1.toNat, pair.2))
    maskedInputEvents := d.maskedInputEvents ++ [.maskedInputEvent id pairs]
    assignedMaskedInputEvents := d.assignedMaskedInputEvents ++ d.assignedInputs id pairs
    maskedInputSinks := []
    assignedMaskedInputSinks := if (d.assignedInputs id pairs).isEmpty then d.assignedMaskedInputSinks else []
    maskedInputDelivery := some {
      sinks := d.maskedInputSinks
      assignedSinks := if (d.assignedInputs id pairs).isEmpty then [] else d.assignedMaskedInputSinks
      event := .maskedInputEvent id pairs
      assignedEvents := d.assignedInputs id pairs } }

/-- Puts back the subscribers that a submission reached, behind those that
joined meanwhile, and lets go of the delivery guard. -/
def restoreSinks (d : CoordinatorExecutionState) (pending : PendingSubmission)
    (delivered : SubscriptionSink → Bool) : CoordinatorExecutionState :=
  { d with
    maskedInputSinks := d.maskedInputSinks ++ pending.sinks.filter delivered
    assignedMaskedInputSinks := d.assignedMaskedInputSinks ++ pending.assignedSinks.filter delivered
    maskedInputDelivery := none }

end CoordinatorExecutionState

namespace CoordinatorRPCServerConnectionBase

variable (connection : CoordinatorRPCServerConnectionBase)

/-- The first critical section of `submit_masked_inputs`, entered with the
delivery guard held. -/
def submitMaskedInputs (d : CoordinatorExecutionState) (maskedInputs : List Bytes) (reservedIndices : List UInt64) :
    RpcResult CoordinatorExecutionState :=
  match d.checkSubmission connection.id maskedInputs reservedIndices with
  | .error refusal => .error refusal
  | .ok () => .ok (d.recordSubmission connection.id (reservedIndices.zip maskedInputs))

/-- The second critical section of `submit_masked_inputs`: this input may have
been the last one that `MPCExecution` was waiting on. -/
def finishSubmission (d : CoordinatorExecutionState) (pending : PendingSubmission)
    (delivered : SubscriptionSink → Bool) : CoordinatorExecutionState × List TransitionDelivery :=
  (d.restoreSinks pending delivered).tryAdvance connection.quorum connection.topology.rosterHead

end CoordinatorRPCServerConnectionBase

namespace CoordinatorExecutionState

variable {d : CoordinatorExecutionState} {id : ClientIdentity} {i : UInt64} {maskedInputs : List Bytes}
  {reservedIndices : List UInt64}

theorem checkSubmittable_ok : d.checkSubmittable id i = .ok () ↔
    i.toNat < d.maskedInputs.length ∧ d.reservedIndices.read i.toNat = some id ∧
      d.maskedInputs.read i.toNat = none := by
  unfold checkSubmittable CoordinatorRPCBaseError.reply
  by_cases outside : d.maskedInputs.length ≤ i.toNat
  · simp [outside]
  cases owner : d.reservedIndices.read i.toNat with
  | none => simp [outside]
  | some publicKey =>
    by_cases own : publicKey = id
    · cases sent : d.maskedInputs.read i.toNat with
      | some input => simp [outside, own]
      | none => simp [outside, own]; omega
    · simp [outside, own]

/-- Acceptance of a submission batch, check by check. As with reservations
nothing compares the elements of the batch with each other. -/
theorem checkSubmission_ok : d.checkSubmission id maskedInputs reservedIndices = .ok () ↔
    d.round = .inputCollection ∧ maskedInputs.length = reservedIndices.length ∧ reservedIndices ≠ [] ∧
      ∀ i ∈ reservedIndices, i.toNat < d.maskedInputs.length ∧ d.reservedIndices.read i.toNat = some id ∧
        d.maskedInputs.read i.toNat = none := by
  unfold checkSubmission CoordinatorRPCBaseError.reply
  by_cases atRound : d.round = .inputCollection
  · by_cases lengths : maskedInputs.length = reservedIndices.length
    · by_cases empty : reservedIndices = []
      · simp [atRound, lengths, empty]
      · simp only [atRound, ne_eq, not_true_eq_false, if_false, lengths, List.isEmpty_iff, empty,
          forM_ok_iff, checkSubmittable_ok, not_false_eq_true, true_and]
    · simp [atRound, lengths]
  · simp [atRound]

end CoordinatorExecutionState

end MpcCoordinator
