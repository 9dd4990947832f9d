import MpcCoordinator.Rpc
import MpcCoordinator.General.Table
import MpcCoordinator.General.Run
import Mathlib.Data.Finset.Insert

namespace MpcCoordinator.OnChain

/-- An Ethereum address, which is what identifies a client here. -/
structure Address where
  bytes : Vector UInt8 20
  deriving DecidableEq, Repr

/-- The functions of other libraries that the node calls: Keccak-256, signatures
from which the address of the signer is recovered, the ABI encoding of a number
and the printed form of an address. Nothing is assumed of them. -/
structure EthereumPrimitives where
  Signature : Type
  signatureFromRaw : Bytes → Option Signature
  recoverAddressFromMsg : Signature → Bytes → Option Address
  keccak256 : Bytes → Vector UInt8 32
  abiEncode : UInt64 → Bytes
  toChecksum : Address → String

/-- The encoders of other libraries: a share's compressed form and the JSON
form of bytes, either of which may fail with a message. -/
structure ShareEncoding (S : Type) where
  serializeCompressed : S → Except String Bytes
  toJson : Bytes → Except String Unit

/-- The parameters that a node is started with. -/
structure NodeSetup (S : Type) where
  primitives : EthereumPrimitives
  encoding : ShareEncoding S
  baseNonce : UInt64

namespace EthereumPrimitives

variable (primitives : EthereumPrimitives)

/-- What a client signs: the hash of its nonce, which is its index counted from
the base. The sum wraps as it does in a release build. -/
def nonceHash (baseNonce i : UInt64) : Bytes := (primitives.keccak256 (primitives.abiEncode (baseNonce + i))).toList

/-- There is no result if the bytes are no signature, or give no address. -/
def verifyClientSig (baseNonce i : UInt64) (addr : Address) (sigBytes : Bytes) : Option Bool :=
  match primitives.signatureFromRaw sigBytes with
  | none => none
  | some sig =>
    (primitives.recoverAddressFromMsg sig (primitives.nonceHash baseNonce i)).map fun sigAddr => decide (sigAddr = addr)

end EthereumPrimitives

/-- The errors that operations of the node return. -/
inductive NodeRPCError where
  | jsonError
  | serializationError
  | authenticationFailed (tlsId : Bytes)
  deriving DecidableEq, Repr

instance : ToString NodeRPCError where
  toString
    | .jsonError => "JSON error"
    | .serializationError => "Serialization error"
    | .authenticationFailed tlsId => s!"Authentication failed for client with TLS identity {tlsId}"

/-- A client that has requested its share. `pendingSig` is what awaits the
reservation of an index. -/
structure ClientEntry where
  tlsId : Bytes
  addr : Address
  pendingSig : Option Bytes
  deriving DecidableEq, Repr

structure NodeRPCServerShared (S : Type) where
  indexToClient : Table UInt64 Address
  clientToIndex : Table Address UInt64
  authenticated : Finset Address
  sinks : Table Address SubscriptionSink
  maskShares : Table UInt64 S
  idsAndAddrs : List ClientEntry

/-- A share that is sent on a subscription, whether or not it arrives. -/
structure ShareMessage where
  sink : SubscriptionSink
  index : UInt64
  shareBytes : Bytes
  delivered : Bool
  deriving DecidableEq, Repr

/-- How an operation ends. A request is aborted when its handshake fails, or
the first send on its subscription. -/
inductive Outcome where
  | done
  | rejected (error : ErrorObjectOwned)
  | aborted
  | failed (error : NodeRPCError)
  | panicked
  deriving DecidableEq, Repr

abbrev Response (S : Type) := Outcome × List ShareMessage × NodeRPCServerShared S

namespace NodeRPCServerShared

variable {S : Type} (setup : NodeSetup S) (d : NodeRPCServerShared S)

def new : NodeRPCServerShared S := ⟨Table.empty, Table.empty, ∅, Table.empty, Table.empty, []⟩

/-- The result of `verify_client_sig`, with its errors counted as refusals. -/
def verifies (i : UInt64) (addr : Address) (sigBytes : Bytes) : Bool :=
  (setup.primitives.verifyClientSig setup.baseNonce i addr sigBytes).getD false

def recordReservation (addr : Address) (i : UInt64) : NodeRPCServerShared S :=
  { d with
    indexToClient := d.indexToClient.insert i addr
    clientToIndex := d.clientToIndex.insert addr i }

def authenticate (addr : Address) : NodeRPCServerShared S :=
  { d with authenticated := insert addr d.authenticated }

/-- The first entry of an address. -/
def entryOf (addr : Address) : Option ClientEntry :=
  d.idsAndAddrs.find? fun entry => decide (entry.addr = addr)

@[simp] theorem recordReservation_maskShares (addr : Address) (i : UInt64) :
    (d.recordReservation addr i).maskShares = d.maskShares := rfl

@[simp] theorem recordReservation_sinks (addr : Address) (i : UInt64) :
    (d.recordReservation addr i).sinks = d.sinks := rfl

@[simp] theorem recordReservation_authenticated (addr : Address) (i : UInt64) :
    (d.recordReservation addr i).authenticated = d.authenticated := rfl

@[simp] theorem recordReservation_idsAndAddrs (addr : Address) (i : UInt64) :
    (d.recordReservation addr i).idsAndAddrs = d.idsAndAddrs := rfl

@[simp] theorem recordReservation_entryOf (addr other : Address) (i : UInt64) :
    (d.recordReservation addr i).entryOf other = d.entryOf other := rfl

@[simp] theorem authenticate_authenticated (addr : Address) :
    (d.authenticate addr).authenticated = insert addr d.authenticated := rfl

@[simp] theorem authenticate_maskShares (addr : Address) : (d.authenticate addr).maskShares = d.maskShares := rfl

@[simp] theorem authenticate_idsAndAddrs (addr : Address) : (d.authenticate addr).idsAndAddrs = d.idsAndAddrs := rfl

@[simp] theorem authenticate_sinks (addr : Address) : (d.authenticate addr).sinks = d.sinks := rfl

/-- Takes the signature out of the first entry of an address. -/
def takeSig (addr : Address) : List ClientEntry → List ClientEntry
  | [] => []
  | entry :: rest =>
    if entry.addr = addr then { entry with pendingSig := none } :: rest else entry :: takeSig addr rest

/-- Sends a share on the subscription that is stored for an address, if any. -/
def sendShare (addr : Address) (i : UInt64) (share : S) (delivered : Bool) : Outcome × List ShareMessage :=
  match d.sinks addr with
  | none => (.done, [])
  | some sink =>
    match setup.encoding.serializeCompressed share with
    | .error _ => (.failed .serializationError, [])
    | .ok shareBytes =>
      match setup.encoding.toJson shareBytes with
      | .error _ => (.failed .serializationError, [])
      | .ok () => (if delivered then .done else .failed .jsonError, [⟨sink, i, shareBytes, delivered⟩])

/-- Called when the client has reserved an index at the contract. An assertion
that fails after the tables were written leaves them written. -/
def addReservedIndex (addr : Address) (i : UInt64) (delivered : Bool) : Response S :=
  if (d.indexToClient i).isSome then (.panicked, [], d)
  else
    let d := d.recordReservation addr i
    match d.entryOf addr with
    | none => (.done, [], d)
    | some entry =>
      match entry.pendingSig with
      | none => (.panicked, [], d)
      | some sigBytes =>
        let d := { d with idsAndAddrs := takeSig addr d.idsAndAddrs }
        if verifies setup i addr sigBytes = false then (.failed (.authenticationFailed entry.tlsId), [], d)
        else
          let d := d.authenticate addr
          match d.maskShares i with
          | none => (.done, [], d)
          | some share => ((d.sendShare setup addr i share delivered).1, (d.sendShare setup addr i share delivered).2, d)

/-- Called when preprocessing has generated the share of an index. -/
def addMaskShare (i : UInt64) (share : S) (delivered : Bool) : Response S :=
  if (d.maskShares i).isSome then (.panicked, [], d)
  else
    let d := { d with maskShares := d.maskShares.insert i share }
    match d.indexToClient i with
    | none => (.done, [], d)
    | some addr =>
      if addr ∈ d.authenticated then
        ((d.sendShare setup addr i share delivered).1, (d.sendShare setup addr i share delivered).2, d)
      else (.done, [], d)

/-- The end of a request whose share cannot be sent yet. `accepted` is the
handle of the subscription, if the handshake succeeds. -/
def storeSink (tlsId : Bytes) (addr : Address) (pendingSig : Option Bytes) (accepted : Option Nat) : Response S :=
  match accepted with
  | none => (.aborted, [], d)
  | some handle => (.done, [], { d with
      sinks := d.sinks.insert addr ⟨handle, tlsId⟩
      idsAndAddrs := d.idsAndAddrs ++ [⟨tlsId, addr, pendingSig⟩] })

/-- The end of a request whose share is there: it is sent at once. -/
def answerRequest (tlsId : Bytes) (addr : Address) (i : UInt64) (share : S) (accepted : Option Nat)
    (delivered : Bool) : Response S :=
  match setup.encoding.serializeCompressed share with
  | .error error => (.rejected ⟨1, s!"Serializing share bytes failed: {error}"⟩, [], d)
  | .ok shareBytes =>
    match setup.encoding.toJson shareBytes with
    | .error error => (.rejected ⟨1, s!"Converting serialized shares to JSON failed: {error}"⟩, [], d)
    | .ok () =>
      match accepted with
      | none => (.aborted, [], d)
      | some handle =>
        if delivered then
          (.done, [⟨⟨handle, tlsId⟩, i, shareBytes, true⟩],
            { d with idsAndAddrs := d.idsAndAddrs ++ [⟨tlsId, addr, none⟩] })
        else (.aborted, [⟨⟨handle, tlsId⟩, i, shareBytes, false⟩], d)

/-- A request that comes over a connection of `tlsId`. -/
def receiveMaskShare (tlsId sigBytes : Bytes) (addr : Address) (accepted : Option Nat) (delivered : Bool) : Response S :=
  if d.idsAndAddrs.any fun entry => decide (tlsId = entry.tlsId ∨ addr = entry.addr) then
    (.rejected ⟨invalidParams, s!"Client {setup.primitives.toChecksum addr} already requested mask share"⟩, [], d)
  else
    match d.clientToIndex addr with
    | none => d.storeSink tlsId addr (some sigBytes) accepted
    | some i =>
      if verifies setup i addr sigBytes = false then
        (.rejected ⟨invalidParams, s!"Authentication failed for address {setup.primitives.toChecksum addr}"⟩, [], d)
      else
        let d := d.authenticate addr
        match d.maskShares i with
        | none => d.storeSink tlsId addr none accepted
        | some share => d.answerRequest setup tlsId addr i share accepted delivered

end NodeRPCServerShared

/-- The clients that a node reports as authenticated, with their TLS identities. -/
def NodeRPCServer.idsAndAddrs {S : Type} (d : NodeRPCServerShared S) : List (Bytes × Address) :=
  (d.idsAndAddrs.filter fun entry => entry.pendingSig.isNone).map fun entry => (entry.tlsId, entry.addr)

end MpcCoordinator.OnChain
