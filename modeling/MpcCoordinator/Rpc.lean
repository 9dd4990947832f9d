import MpcCoordinator.Shared

namespace MpcCoordinator

/-- An error reply as it goes over the wire, without optional data. -/
structure ErrorObjectOwned where
  code : Int
  message : Message
  deriving DecidableEq, Repr

abbrev RpcResult (α : Type) := Except ErrorObjectOwned α

/-- The code of the predefined invalid-parameters error. -/
def invalidParams : Int := -32602

inductive CoordinatorRPCBaseError where
  | notDesignatedParty
  | wrongRound
  | indexOutOfBounds
  | badID
  | maskedInputAlreadySubmitted
  | indexNotReserved
  | indexAlreadyReserved
  | outputSharesAlreadySent
  | outputSharesAlreadyRequested
  | notParty
  | sendingFailed
  | notOutputClient
  | mismatchedBatchLengths
  | clientAlreadyReserved
  | unauthorizedClientIo
  | executionNotFound
  | executionAlreadyRegistered
  | shutdownNotAccepted
  | emptyBatch
  deriving DecidableEq, Repr

def CoordinatorRPCBaseError.code : CoordinatorRPCBaseError → Int
  | .notDesignatedParty => 1
  | .wrongRound => 2
  | .indexOutOfBounds => 3
  | .badID => 4
  | .maskedInputAlreadySubmitted => 5
  | .indexNotReserved => 6
  | .indexAlreadyReserved => 7
  | .outputSharesAlreadySent => 8
  | .outputSharesAlreadyRequested => 9
  | .notParty => 10
  | .sendingFailed => 11
  | .notOutputClient => 12
  | .mismatchedBatchLengths => 13
  | .clientAlreadyReserved => 14
  | .unauthorizedClientIo => 15
  | .executionNotFound => 16
  | .executionAlreadyRegistered => 17
  | .shutdownNotAccepted => 18
  | .emptyBatch => 19

/-- A server error with the numeric code of its kind. -/
def CoordinatorRPCBaseError.reply {α : Type} (kind : CoordinatorRPCBaseError) (message : Message) : RpcResult α :=
  .error ⟨kind.code, message⟩

/-- An accepted subscription. `peer` is the identity its connection was
authenticated as, which is where everything sent on it goes. -/
structure SubscriptionSink where
  handle : Nat
  peer : ClientIdentity
  deriving DecidableEq, Repr

/-- Events that mimic those of the on-chain coordinator. -/
inductive Event where
  | coordinatorInitialized (creationBlock : UInt64) (designatedParty : ClientIdentity)
  | maskedInputEvent (client : ClientIdentity) (maskedInputs : List (UInt64 × Bytes))
  | indexBufferEvent (totalIndices : UInt64) (designatedParty : ClientIdentity)
  | reservedInputEvent (client : ClientIdentity) (reservedIndices : List UInt64)
  | preprocessingStarted (designatedParty : ClientIdentity)
  | inputCollectionStarted
  | inputMaskReservationStarted
  | mpcStarted
  | executionDone
  | outputSendingStarted
  | outputsPublished
  | clientInputMaskReservationEvent
  | clientOutputCollection
  | preprocessingRoundExecuted
  deriving DecidableEq, Repr

structure AssignedMaskReservation where
  client : ClientIdentity
  reservedIndex : UInt64
  inputOrdinal : UInt64
  deriving DecidableEq, Repr

structure AssignedMaskedInputEvent where
  client : ClientIdentity
  reservedIndex : UInt64
  inputOrdinal : UInt64
  maskedInput : Bytes
  deriving DecidableEq, Repr

structure AssignedMaskShare where
  reservedIndex : UInt64
  shareBytes : Bytes
  deriving DecidableEq, Repr

/-- Checking a batch element by element succeeds when every element does. -/
theorem forM_ok_iff {ε α : Type} {check : α → Except ε Unit} {batch : List α} :
    batch.forM check = .ok () ↔ ∀ x ∈ batch, check x = .ok () := by
  induction batch with
  | nil => simp [pure, Except.pure]
  | cons x rest ih =>
    cases first : check x with
    | error e => simp [first, bind, Except.bind]
    | ok => simpa [first, bind, Except.bind] using ih

end MpcCoordinator
