import MpcCoordinator.Browser.Credentials
import MpcCoordinator.General.Table
import MpcCoordinator.General.Run

namespace MpcCoordinator

/-- The errors that the node's state returns. -/
inductive NodeRPCError where
  | executionNotFound
  | indexAlreadyAdded
  | indexNotAdded
  | serializationError
  | authenticationFailed (id : ClientIdentity)
  deriving DecidableEq, Repr

instance : ToString NodeRPCError where
  toString
    | .executionNotFound => "Execution is not registered or is ambiguous"
    | .indexAlreadyAdded => "Index already added"
    | .indexNotAdded => "Index not added"
    | .serializationError => "Serialization error"
    | .authenticationFailed id => s!"Authentication failed for client with TLS identity {id}"

/-- The encoders of other libraries: a share's compressed form, which may fail,
and whether a list of shares has a JSON form. -/
structure ShareCodec (S : Type) where
  serializeCompressed : S → Option Bytes
  toJson : List AssignedMaskShare → Except String Unit

/-- A request for a range of shares that waits for some of them. -/
structure AssignedMaskRequest where
  start : UInt64
  count : UInt64
  sink : SubscriptionSink
  deriving DecidableEq, Repr

/-- The body of a browser's poll. -/
structure MaskRange where
  start : UInt64
  count : UInt64
  deriving DecidableEq, Repr

/-- What a node keeps for one execution. Calls hold a handle to it, so what
becomes of the execution's id meanwhile does not matter to them. -/
structure NodeRPCExecutionState where
  indexToClient : Table UInt64 ClientIdentity
  assignedReservations : Table UInt64 AssignedMaskReservation
  assignedSinks : Table ClientIdentity AssignedMaskRequest
  maskShares : Table UInt64 Bytes

/-- Shares that leave the node, with the range they were requested for. -/
structure MaskReply where
  recipient : ClientIdentity
  start : UInt64
  count : UInt64
  shares : List AssignedMaskShare
  deriving DecidableEq, Repr

namespace NodeRPCExecutionState

variable {S : Type} (codec : ShareCodec S) (d : NodeRPCExecutionState)

def new : NodeRPCExecutionState := ⟨Table.empty, Table.empty, Table.empty, Table.empty⟩

def assignedMaskShare (reservedIndex : UInt64) (shareBytes : Bytes) : Except NodeRPCError AssignedMaskShare :=
  match d.assignedReservations reservedIndex with
  | none => .error .indexNotAdded
  | some _ => .ok ⟨reservedIndex, shareBytes⟩

/-- The loop over a requested range, from index `i` with `n` indices to go. -/
def collectShares (id : ClientIdentity) :
    Nat → UInt64 → List AssignedMaskShare → Except NodeRPCError (Option (List AssignedMaskShare))
  | 0, _, assignedShares => .ok (some assignedShares)
  | n + 1, i, assignedShares =>
    match d.indexToClient i with
    | none => .ok none
    | some client =>
      if client ≠ id then .error (.authenticationFailed id)
      else
        match d.maskShares i with
        | none => .ok none
        | some share =>
          match d.assignedMaskShare i share with
          | .error refusal => .error refusal
          | .ok assigned => collectShares id n (i + 1) (assignedShares ++ [assigned])

/-- The shares of a range, if the client owns all of it and all are there. -/
def assignedMaskSharesForClient (id : ClientIdentity) (start count : UInt64) :
    Except NodeRPCError (Option (List AssignedMaskShare)) :=
  if start.toNat + count.toNat < 2 ^ 64 then d.collectShares id count.toNat start []
  else .error .indexNotAdded

def park (id : ClientIdentity) (request : AssignedMaskRequest) : NodeRPCExecutionState :=
  { d with assignedSinks := d.assignedSinks.insert id request }

def unpark (id : ClientIdentity) : NodeRPCExecutionState :=
  { d with assignedSinks := d.assignedSinks.erase id }

/-- The loop over the clients that a batch touched. A failure ends it, with the
requests taken out so far gone and nothing sent. -/
def completeRequests : List ClientIdentity → NodeRPCExecutionState → List MaskReply →
    Except NodeRPCError (List MaskReply) × NodeRPCExecutionState
  | [], d, pendingSends => (.ok pendingSends, d)
  | id :: rest, d, pendingSends =>
    match d.assignedSinks id with
    | none => completeRequests rest d pendingSends
    | some request =>
      match (d.unpark id).assignedMaskSharesForClient id request.start request.count with
      | .error refusal => (.error refusal, d.unpark id)
      | .ok none => completeRequests rest ((d.unpark id).park id request) pendingSends
      | .ok (some assignedShares) =>
        match codec.toJson assignedShares with
        | .error _ => (.error .serializationError, d.unpark id)
        | .ok () =>
          completeRequests rest (d.unpark id)
            (pendingSends ++ [⟨request.sink.peer, request.start, request.count, assignedShares⟩])

def touch (touched : List ClientIdentity) (id : ClientIdentity) : List ClientIdentity :=
  if id ∈ touched then touched else touched ++ [id]

/-- Records one reservation. -/
def recordReservation (reservation : AssignedMaskReservation) : NodeRPCExecutionState :=
  { d with
    indexToClient := d.indexToClient.insert reservation.reservedIndex reservation.client
    assignedReservations := d.assignedReservations.insert reservation.reservedIndex reservation }

def addAssignedReservedIndices (reservations : List AssignedMaskReservation) :
    Except NodeRPCError (List MaskReply) × NodeRPCExecutionState :=
  if reservations.any fun reservation => (d.indexToClient reservation.reservedIndex).isSome then
    (.error .indexAlreadyAdded, d)
  else
    let touchedClients := (reservations.map AssignedMaskReservation.client).foldl touch []
    completeRequests codec touchedClients (reservations.foldl recordReservation d) []

/-- Records one share. -/
def recordShare (i : UInt64) (shareBytes : Bytes) : NodeRPCExecutionState :=
  { d with maskShares := d.maskShares.insert i shareBytes }

/-- The loop that records a batch of shares. A share that does not serialize
ends it, with the shares before it recorded. -/
def recordShares : List (UInt64 × S) → NodeRPCExecutionState → List ClientIdentity →
    Except NodeRPCError (List ClientIdentity) × NodeRPCExecutionState
  | [], d, touchedClients => (.ok touchedClients, d)
  | (i, share) :: rest, d, touchedClients =>
    match codec.serializeCompressed share with
    | none => (.error .serializationError, d)
    | some shareBytes =>
      recordShares rest (d.recordShare i shareBytes)
        (match d.indexToClient i with
          | none => touchedClients
          | some id => touch touchedClients id)

def addMaskShares (shares : List (UInt64 × S)) : Except NodeRPCError (List MaskReply) × NodeRPCExecutionState :=
  if shares.any fun entry => (d.maskShares entry.1).isSome then (.error .indexAlreadyAdded, d)
  else
    match recordShares codec shares d [] with
    | (.error refusal, d) => (.error refusal, d)
    | (.ok touchedClients, d) => completeRequests codec touchedClients d []

/-- A native subscription of `id`, which supersedes an earlier one. `accepted`
is the handle of the accepted sink, if the handshake succeeds. -/
def receiveAssignedMaskShares (id : ClientIdentity) (start count : UInt64) (accepted : Option Nat) :
    RpcResult (List MaskReply) × NodeRPCExecutionState :=
  match (d.unpark id).assignedMaskSharesForClient id start count with
  | .error error => (rpcError 1 s!"Serializing assigned shares failed: {error}", d.unpark id)
  | .ok (some assignedShares) =>
    match codec.toJson assignedShares with
    | .error error => (rpcError 1 s!"Converting assigned shares to JSON failed: {error}", d.unpark id)
    | .ok () =>
      match accepted with
      | none => (.ok [], d.unpark id)
      | some _ => (.ok [⟨id, start, count, assignedShares⟩], d.unpark id)
  | .ok none =>
    match accepted with
    | none => (.ok [], d.unpark id)
    | some handle => (.ok [], (d.unpark id).park id ⟨start, count, ⟨handle, id⟩⟩)

/-- A poll of a browser session that acts for `identity`. -/
def browserAssignedMaskShares (identity : ClientIdentity) (range : MaskRange) :
    RpcResult (Option (List AssignedMaskShare)) :=
  match d.assignedMaskSharesForClient identity range.start range.count with
  | .error error => rpcError (-32051) (toString error)
  | .ok result => .ok result

end NodeRPCExecutionState

/-- The calls on one execution of a node. -/
inductive NodeAction (S : Type) where
  | addAssignedReservedIndices (reservations : List AssignedMaskReservation)
  | addMaskShares (shares : List (UInt64 × S))
  | receiveAssignedMaskShares (id : ClientIdentity) (start count : UInt64) (accepted : Option Nat)
  | browserAssignedMaskShares (identity : ClientIdentity) (range : MaskRange)

/-- A call that was made, and the replies with shares that it caused. -/
structure NodeCall (S : Type) where
  action : NodeAction S
  replies : List MaskReply

namespace NodeRPCExecutionState

variable {S : Type} (codec : ShareCodec S) (d : NodeRPCExecutionState)

/-- The shares that a call sends: none if it failed. -/
def sends {ε : Type} (result : Except ε (List MaskReply) × NodeRPCExecutionState) :
    List MaskReply × NodeRPCExecutionState :=
  match result with
  | (.error _, d) => ([], d)
  | (.ok pendingSends, d) => (pendingSends, d)

def respond : NodeAction S → List MaskReply × NodeRPCExecutionState
  | .addAssignedReservedIndices reservations => sends (d.addAssignedReservedIndices codec reservations)
  | .addMaskShares shares => sends (d.addMaskShares codec shares)
  | .receiveAssignedMaskShares id start count accepted =>
    sends (d.receiveAssignedMaskShares codec id start count accepted)
  | .browserAssignedMaskShares identity range =>
    match d.browserAssignedMaskShares identity range with
    | .ok (some assignedShares) => ([⟨identity, range.start, range.count, assignedShares⟩], d)
    | _ => ([], d)

def Step (call : NodeCall S) (d' : NodeRPCExecutionState) : Prop := d.respond codec call.action = (call.replies, d')

end NodeRPCExecutionState

end MpcCoordinator
