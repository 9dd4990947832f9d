import MpcCoordinator.Execution.Vote

namespace MpcCoordinator

/-- How an optional slot owner is printed in messages. -/
def debugOwner : Option ClientIdentity → String
  | some owner => s!"Some({owner})"
  | none => "None"

namespace CoordinatorExecutionState

/-- The checks that `reserve_mask_indices` makes of one index of a batch. -/
def checkReservable (d : CoordinatorExecutionState) (id : ClientIdentity) (i : UInt64) : RpcResult Unit :=
  if d.reservedIndices.length ≤ i.toNat then
    CoordinatorRPCBaseError.indexOutOfBounds.reply
      s!"The index {i} is out of bounds, there are only {d.reservedIndices.length} input masks."
  else if (d.reservedIndices.read i.toNat).isSome then
    CoordinatorRPCBaseError.indexAlreadyReserved.reply s!"Index {i} already reserved."
  else
    match d.inputAssignments[i.toNat]? with
    | none => .ok ()
    | some slot =>
      if d.inputSlotClient slot = some id then .ok ()
      else
        CoordinatorRPCBaseError.unauthorizedClientIo.reply
          s!"Client {id} cannot reserve assigned input index {i}, which belongs to {debugOwner (d.inputSlotClient slot)}"

/-- Every check made before a reservation batch is applied. All of them look
at the state before the batch. -/
def checkReservation (d : CoordinatorExecutionState) (id : ClientIdentity) (indices : List UInt64) : RpcResult Unit :=
  if d.round ≠ .inputMaskReservation then
    CoordinatorRPCBaseError.wrongRound.reply
      s!"Need round {Round.inputMaskReservation}, current round is {d.round}"
  else if indices.isEmpty then
    CoordinatorRPCBaseError.emptyBatch.reply "Cannot reserve an empty batch of indices."
  else if d.reservedIndices.any fun owner => decide (owner = some id) then
    CoordinatorRPCBaseError.clientAlreadyReserved.reply
      s!"Client {id} has already made a reservation call; all indices must be reserved in a single call."
  else indices.forM (d.checkReservable id)

/-- The assigned reservations a batch gives rise to, one per assigned slot. -/
def assignedReservations (d : CoordinatorExecutionState) (id : ClientIdentity) (indices : List UInt64) :
    List AssignedMaskReservation :=
  indices.filterMap fun i =>
    d.inputAssignments[i.toNat]?.map fun slot => ⟨id, i, slot.label⟩

/-- Reserves a checked batch: owners, counter and both histories. -/
def recordReservation (d : CoordinatorExecutionState) (id : ClientIdentity) (indices : List UInt64) :
    CoordinatorExecutionState :=
  { d with
    reservedIndices := d.reservedIndices.writeAll (indices.map fun i => (i.toNat, id))
    nReserved := d.nReserved + UInt64.ofNat indices.length
    reservedIndexEvents := d.reservedIndexEvents ++ [.reservedInputEvent id indices]
    assignedReservedIndexEvents := d.assignedReservedIndexEvents ++ d.assignedReservations id indices }

/-- Drops the subscribers that a reservation broadcast did not reach. The
assigned list is only served when the batch has assigned reservations. -/
def broadcastReservation (d : CoordinatorExecutionState) (assigned : List AssignedMaskReservation)
    (delivered : SubscriptionSink → Bool) : CoordinatorExecutionState :=
  { d with
    reservedIndexSinks := d.reservedIndexSinks.filter delivered
    assignedReservedIndexSinks :=
      if assigned.isEmpty then d.assignedReservedIndexSinks else d.assignedReservedIndexSinks.filter delivered }

end CoordinatorExecutionState

/-- Reserves every index of a batch for the caller, holding the state lock
throughout. `delivered` says which subscribers the broadcast reaches. -/
def CoordinatorRPCServerConnectionBase.reserveMaskIndices (connection : CoordinatorRPCServerConnectionBase)
    (d : CoordinatorExecutionState) (indices : List UInt64) (delivered : SubscriptionSink → Bool) :
    RpcResult CoordinatorExecutionState :=
  match d.checkReservation connection.id indices with
  | .error refusal => .error refusal
  | .ok () =>
    .ok ((d.recordReservation connection.id indices).broadcastReservation
      (d.assignedReservations connection.id indices) delivered)

namespace CoordinatorExecutionState

variable {d : CoordinatorExecutionState} {id : ClientIdentity} {i : UInt64} {indices : List UInt64}

theorem checkReservable_ok : d.checkReservable id i = .ok () ↔
    i.toNat < d.reservedIndices.length ∧ d.reservedIndices.read i.toNat = none ∧
      ∀ slot, d.inputAssignments[i.toNat]? = some slot → d.inputSlotClient slot = some id := by
  unfold checkReservable CoordinatorRPCBaseError.reply
  by_cases outside : d.reservedIndices.length ≤ i.toNat
  · simp [outside]
  cases taken : d.reservedIndices.read i.toNat with
  | some owner => simp [outside]
  | none =>
    cases assigned : d.inputAssignments[i.toNat]? with
    | none => simp [outside]; omega
    | some slot =>
      by_cases own : d.inputSlotClient slot = some id
      · simp [outside, own]; omega
      · simp [outside, own]

/-- Acceptance of a reservation batch, check by check. The batch may still
repeat an index: each element is only compared with the state before it. -/
theorem checkReservation_ok : d.checkReservation id indices = .ok () ↔
    d.round = .inputMaskReservation ∧ indices ≠ [] ∧ some id ∉ d.reservedIndices ∧
      ∀ i ∈ indices, i.toNat < d.reservedIndices.length ∧ d.reservedIndices.read i.toNat = none ∧
        ∀ slot, d.inputAssignments[i.toNat]? = some slot → d.inputSlotClient slot = some id := by
  unfold checkReservation CoordinatorRPCBaseError.reply
  by_cases atRound : d.round = .inputMaskReservation
  · by_cases empty : indices = []
    · simp [atRound, empty]
    · by_cases again : some id ∈ d.reservedIndices
      · have repeated : d.reservedIndices.any (fun owner => decide (owner = some id)) = true :=
          List.any_eq_true.mpr ⟨_, again, by simp⟩
        simp [atRound, empty, repeated, again]
      · have single : d.reservedIndices.any (fun owner => decide (owner = some id)) = false :=
          List.any_eq_false.mpr (by rintro owner member; simpa using fun same : owner = some id => again (same ▸ member))
        simp only [atRound, ne_eq, not_true_eq_false, if_false, List.isEmpty_iff, empty, single,
          Bool.false_eq_true, forM_ok_iff, checkReservable_ok, not_false_eq_true, true_and, again]
  · simp [atRound]

end CoordinatorExecutionState

end MpcCoordinator
