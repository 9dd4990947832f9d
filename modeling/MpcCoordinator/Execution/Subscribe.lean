import MpcCoordinator.Execution.Submit

namespace MpcCoordinator

namespace CoordinatorExecutionState

/-- Whether a replay gets through: it stops at the first message that the
subscriber does not take. `delivered k` is the outcome of the send number `k`. -/
def replays {μ : Type} (messages : List μ) (delivered : Nat → Bool) : Bool :=
  messages.zipIdx.all fun entry => delivered entry.2

def subscribeReservedIndices (d : CoordinatorExecutionState) (sink : SubscriptionSink) (delivered : Nat → Bool) :
    CoordinatorExecutionState :=
  if replays d.reservedIndexEvents delivered then
    { d with reservedIndexSinks := d.reservedIndexSinks ++ [sink] }
  else d

def subscribeMaskedInputs (d : CoordinatorExecutionState) (sink : SubscriptionSink) (delivered : Nat → Bool) :
    CoordinatorExecutionState :=
  if replays d.maskedInputEvents delivered then
    { d with maskedInputSinks := d.maskedInputSinks ++ [sink] }
  else d

/-- A history that is replayed as one message, or not at all when empty. -/
def asBatch {μ : Type} (history : List μ) : List (List μ) :=
  if history.isEmpty then [] else [history]

def subscribeAssignedReservedIndices (d : CoordinatorExecutionState) (sink : SubscriptionSink)
    (delivered : Nat → Bool) : CoordinatorExecutionState :=
  if replays (asBatch d.assignedReservedIndexEvents) delivered then
    { d with assignedReservedIndexSinks := d.assignedReservedIndexSinks ++ [sink] }
  else d

def subscribeAssignedMaskedInputs (d : CoordinatorExecutionState) (sink : SubscriptionSink)
    (delivered : Nat → Bool) : CoordinatorExecutionState :=
  if replays (asBatch d.assignedMaskedInputEvents) delivered then
    { d with assignedMaskedInputSinks := d.assignedMaskedInputSinks ++ [sink] }
  else d

/-- Registers a round subscription once its handshake is done: a round that
was entered is replayed, any other parks the sink. -/
def subRound (d : CoordinatorExecutionState) (round : Round) (sink : SubscriptionSink) :
    RpcResult (CoordinatorExecutionState × Option Event) :=
  if roundBefore round = none then
    .error ⟨invalidParams, s!"Cannot subscribe to round {round}"⟩
  else
    match d.transEvents round with
    | some event => .ok (d, some event)
    | none => .ok ({ d with sinks := d.sinks.insert round ((d.sinks round).getD [] ++ [sink]) }, none)

/-- The shares stored for one output client, in the order of the map. -/
def storedShares (d : CoordinatorExecutionState) (clientId : ClientIdentity) : List EncryptedShares :=
  (d.outputShares.entries.filter fun entry => decide (entry.1.1 = clientId)).map fun entry => entry.2

/-- The snapshot due to a waiting client. A closed waiter is forgotten. -/
def readyOutputSnapshot (d : CoordinatorExecutionState) (clientId : ClientIdentity) (minShares : Nat)
    (isClosed : SubscriptionSink → Bool) :
    CoordinatorExecutionState × Option (SubscriptionSink × List EncryptedShares) :=
  match d.outputSinks clientId with
  | none => (d, none)
  | some waiter =>
    if isClosed waiter then ({ d with outputSinks := d.outputSinks.erase clientId }, none)
    else if (d.storedShares clientId).length < minShares then (d, none)
    else (d, some (waiter, d.storedShares clientId))

/-- After a failed send: forgets the waiter unless another took its place. -/
def forgetOutputSink (d : CoordinatorExecutionState) (clientId : ClientIdentity) (waiter : SubscriptionSink) :
    CoordinatorExecutionState :=
  if d.outputSinks clientId = some waiter then { d with outputSinks := d.outputSinks.erase clientId } else d

/-- Counts a party's acknowledgement that it is done with the execution. -/
def acknowledgeRetirement (d : CoordinatorExecutionState) (party : ClientIdentity) : CoordinatorExecutionState :=
  { d with retirementAcks := insert party d.retirementAcks }

end CoordinatorExecutionState

namespace CoordinatorRPCServerConnectionBase

variable (connection : CoordinatorRPCServerConnectionBase)

/-- Stores a party's encrypted output shares for a client, once. -/
def sendOutputShares (d : CoordinatorExecutionState) (clientId : ClientIdentity) (encShares : EncryptedShares) :
    RpcResult CoordinatorExecutionState :=
  if connection.topology.isParty connection.id = false then
    CoordinatorRPCBaseError.notParty.reply "Only parties can send output shares."
  else if d.outputClients.contains clientId = false then
    CoordinatorRPCBaseError.notOutputClient.reply "Output client is not authorized for this execution."
  else if (d.outputShares.lookup (clientId, connection.id)).isSome then
    CoordinatorRPCBaseError.outputSharesAlreadySent.reply
      s!"Client {clientId} already has submitted their output shares."
  else .ok { d with outputShares := d.outputShares.insert (clientId, connection.id) encShares }

/-- The checks of `obtain_output_shares` before its handshake. -/
def checkObtainOutputShares (d : CoordinatorExecutionState) (isClosed : SubscriptionSink → Bool) : RpcResult Unit :=
  if d.outputClients.contains connection.id = false then
    CoordinatorRPCBaseError.notOutputClient.reply
      s!"Client {connection.id} is not an authorized output client."
  else if (d.outputSinks connection.id).any fun sink => !isClosed sink then
    CoordinatorRPCBaseError.outputSharesAlreadyRequested.reply "Output shares already requested."
  else .ok ()

/-- Registers the accepted sink after the handshake, unless a racing
subscription of the same identity got there first. -/
def obtainOutputShares (d : CoordinatorExecutionState) (sink : SubscriptionSink)
    (isClosed : SubscriptionSink → Bool) : CoordinatorExecutionState :=
  if d.outputClients.contains connection.id = false ∨
      (d.outputSinks connection.id).any (fun current => !isClosed current) = true then d
  else { d with outputSinks := d.outputSinks.insert connection.id sink }

/-- Acknowledges that the calling party has finished with a live execution. -/
def retireExecution (d : CoordinatorExecutionState) : RpcResult CoordinatorExecutionState :=
  if connection.topology.isParty connection.id = false then
    CoordinatorRPCBaseError.notParty.reply "Only configured MPC parties can retire executions."
  else .ok (d.acknowledgeRetirement connection.id)

end CoordinatorRPCServerConnectionBase

namespace CoordinatorExecutionState

/-- Only subscriptions, output delivery and retirement moved: rounds, votes,
reservations, inputs and their histories are as before. -/
def SameProtocol (d d' : CoordinatorExecutionState) : Prop :=
  d' = { d with
    retirementAcks := d'.retirementAcks
    sinks := d'.sinks
    reservedIndexSinks := d'.reservedIndexSinks
    assignedReservedIndexSinks := d'.assignedReservedIndexSinks
    maskedInputSinks := d'.maskedInputSinks
    assignedMaskedInputSinks := d'.assignedMaskedInputSinks
    outputShares := d'.outputShares
    outputSinks := d'.outputSinks }

/-- Only the delivery of outputs and retirement moved. -/
def OnlyOutputs (d d' : CoordinatorExecutionState) : Prop :=
  d' = { d with
    retirementAcks := d'.retirementAcks
    outputShares := d'.outputShares
    outputSinks := d'.outputSinks }

variable (d : CoordinatorExecutionState)

theorem subscribeReservedIndices_sameProtocol (sink : SubscriptionSink) (delivered : Nat → Bool) :
    SameProtocol d (d.subscribeReservedIndices sink delivered) := by
  unfold subscribeReservedIndices
  split <;> rfl

theorem subscribeMaskedInputs_sameProtocol (sink : SubscriptionSink) (delivered : Nat → Bool) :
    SameProtocol d (d.subscribeMaskedInputs sink delivered) := by
  unfold subscribeMaskedInputs
  split <;> rfl

theorem subscribeAssignedReservedIndices_sameProtocol (sink : SubscriptionSink) (delivered : Nat → Bool) :
    SameProtocol d (d.subscribeAssignedReservedIndices sink delivered) := by
  unfold subscribeAssignedReservedIndices
  split <;> rfl

theorem subscribeAssignedMaskedInputs_sameProtocol (sink : SubscriptionSink) (delivered : Nat → Bool) :
    SameProtocol d (d.subscribeAssignedMaskedInputs sink delivered) := by
  unfold subscribeAssignedMaskedInputs
  split <;> rfl

theorem readyOutputSnapshot_onlyOutputs (clientId : ClientIdentity) (minShares : Nat)
    (isClosed : SubscriptionSink → Bool) : OnlyOutputs d (d.readyOutputSnapshot clientId minShares isClosed).1 := by
  unfold readyOutputSnapshot
  split
  · rfl
  · split
    · rfl
    · split <;> rfl

theorem forgetOutputSink_onlyOutputs (clientId : ClientIdentity) (waiter : SubscriptionSink) :
    OnlyOutputs d (d.forgetOutputSink clientId waiter) := by
  unfold forgetOutputSink
  split <;> rfl

variable {d}

theorem OnlyOutputs.sameProtocol {d' : CoordinatorExecutionState} (only : OnlyOutputs d d') : SameProtocol d d' := by
  unfold SameProtocol
  rw [only]

theorem subRound_sameProtocol {d' : CoordinatorExecutionState} {round : Round} {sink : SubscriptionSink}
    {event : Option Event} (accepted : d.subRound round sink = .ok (d', event)) : SameProtocol d d' := by
  unfold subRound at accepted
  split at accepted
  · cases accepted
  · split at accepted <;> cases accepted <;> rfl

end CoordinatorExecutionState

namespace CoordinatorRPCServerConnectionBase

variable {connection : CoordinatorRPCServerConnectionBase} {d d' : CoordinatorExecutionState}

theorem sendOutputShares_onlyOutputs {clientId : ClientIdentity} {encShares : EncryptedShares}
    (accepted : connection.sendOutputShares d clientId encShares = .ok d') : d.OnlyOutputs d' := by
  unfold sendOutputShares CoordinatorRPCBaseError.reply at accepted
  split at accepted
  · cases accepted
  split at accepted
  · cases accepted
  split at accepted <;> cases accepted
  rfl

theorem obtainOutputShares_onlyOutputs (sink : SubscriptionSink) (isClosed : SubscriptionSink → Bool) :
    d.OnlyOutputs (connection.obtainOutputShares d sink isClosed) := by
  unfold obtainOutputShares
  split <;> rfl

theorem retireExecution_onlyOutputs (accepted : connection.retireExecution d = .ok d') : d.OnlyOutputs d' := by
  unfold retireExecution CoordinatorRPCBaseError.reply at accepted
  split at accepted <;> cases accepted
  rfl

end CoordinatorRPCServerConnectionBase

end MpcCoordinator
