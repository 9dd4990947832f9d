import MpcCoordinator.Rpc
import Mathlib.Data.Vector.Basic

namespace MpcCoordinator

/-- The three fields of `clientDataJSON` that are looked at. A field is absent
when it is missing or not a string. -/
structure ClientData where
  type : Option String
  origin : Option String
  challenge : Option String
  deriving DecidableEq, Repr

structure MaskedInputBatch where
  reservedIndices : List UInt64
  maskedInputs : List Bytes
  deriving DecidableEq, Repr

/-- The functions of other libraries that the browser transport calls: P-256
ECDSA, SHA-256, unpadded URL-safe base64 and JSON. Nothing is assumed of them. -/
structure Primitives where
  VerifyingKey : Type
  Signature : Type
  keyFromSec1Bytes : Bytes → Option VerifyingKey
  signatureFromSlice : Bytes → Option Signature
  signatureFromDer : Bytes → Option Signature
  verify : VerifyingKey → Bytes → Signature → Bool
  sha256 : Bytes → Vector UInt8 32
  encodeBase64 : Vector UInt8 32 → String
  decodeBase64 : String → Option Bytes
  parseClientData : Bytes → Option ClientData
  parseIndices : Bytes → Except String (List UInt64)
  parseBatch : Bytes → Except String MaskedInputBatch

/-- A request signed with an ephemeral key, and the session that authorizes it. -/
structure SignedBrowserRequest where
  publicKey : Bytes
  created : UInt64
  nonce : Bytes
  signature : Bytes
  body : Bytes
  sessionToken : String
  deriving DecidableEq, Repr

structure BrowserCall where
  executionId : ExecutionId
  request : SignedBrowserRequest
  deriving DecidableEq, Repr

structure WebauthnAssertion where
  authenticatorData : Bytes
  clientDataJson : Bytes
  signature : Bytes
  deriving DecidableEq, Repr

def u32FromBeBytes (a b c d : UInt8) : UInt32 :=
  a.toUInt32 <<< 24 ||| b.toUInt32 <<< 16 ||| c.toUInt32 <<< 8 ||| d.toUInt32

/-- The sign count that the authenticator data carries after the relying party
and the flags. -/
def WebauthnAssertion.signCount (assertion : WebauthnAssertion) : UInt32 :=
  u32FromBeBytes (assertion.authenticatorData.getD 33 0) (assertion.authenticatorData.getD 34 0)
    (assertion.authenticatorData.getD 35 0) (assertion.authenticatorData.getD 36 0)

/-- The request that starts a bind ceremony at the coordinator. -/
structure BindWebauthnIdentity where
  executionId : ExecutionId
  assertion : WebauthnAssertion
  ecdsaPublicKey : Bytes
  ecdhPublicKey : Bytes
  credentialId : Bytes
  deriving DecidableEq, Repr

def rpcError {α : Type} (code : Int) (message : String) : RpcResult α := .error ⟨code, message⟩

def authError {α : Type} (message : String) : RpcResult α := rpcError (-32050) message

def executionNotRegistered {α : Type} : RpcResult α := rpcError (-32016) "execution is not registered"

/-- The body of a signed request, or the refusal to read it. -/
def parseBody {α : Type} (parsed : Except String α) : RpcResult α :=
  match parsed with
  | .error error => rpcError (-32602) s!"invalid signed request body: {error}"
  | .ok body => .ok body

def utf8 (text : String) : Bytes := text.toUTF8.toList

def authDomain : Bytes := utf8 "stoffel-browser-rpc-auth"

def leBytes64 (x : UInt64) : Bytes := (List.range 8).map fun i => (x >>> (8 * UInt64.ofNat i)).toUInt8

namespace Primitives

variable (primitives : Primitives)

/-- What a browser signs for one request. -/
def authenticationMessage (method : String) (executionId : ExecutionId) (created : UInt64) (nonce body : Bytes)
    (sessionToken : String) : Bytes :=
  authDomain ++ [0] ++ utf8 method ++ [0] ++ executionId.bytes.toList ++ leBytes64 created ++ nonce ++
    (primitives.sha256 body).toList ++ utf8 sessionToken

/-- The challenge of a bind ceremony commits to the keys being bound. -/
def webauthnBindChallenge (ecdsaPublicKey ecdhPublicKey : Bytes) : Vector UInt8 32 :=
  primitives.sha256 (utf8 "stoffel-browser-webauthn-bind-v1" ++ ecdsaPublicKey ++ ecdhPublicKey)

/-- Verifies an assertion against one candidate key, and returns its sign count. -/
def verifyWebauthnAssertion (assertion : WebauthnAssertion) (candidatePublicKey : Bytes)
    (expectedRpIdHash : Vector UInt8 32) (expectedOrigin : String) (expectedChallenge : Vector UInt8 32) :
    Option UInt32 := do
  let clientData ← primitives.parseClientData assertion.clientDataJson
  guard (clientData.type = some "webauthn.get")
  guard (clientData.origin = some expectedOrigin)
  let challenge ← primitives.decodeBase64 (← clientData.challenge)
  guard (challenge = expectedChallenge.toList)
  guard (37 ≤ assertion.authenticatorData.length)
  guard (assertion.authenticatorData.take 32 = expectedRpIdHash.toList)
  let flags := assertion.authenticatorData.getD 32 0
  guard (flags &&& 0x01 ≠ 0 ∧ flags &&& 0x04 ≠ 0)
  let key ← primitives.keyFromSec1Bytes candidatePublicKey
  let signature ← primitives.signatureFromDer assertion.signature
  guard (primitives.verify key
    (assertion.authenticatorData ++ (primitives.sha256 assertion.clientDataJson).toList) signature)
  return u32FromBeBytes (assertion.authenticatorData.getD 33 0) (assertion.authenticatorData.getD 34 0)
    (assertion.authenticatorData.getD 35 0) (assertion.authenticatorData.getD 36 0)

variable {primitives} in
/-- An assertion that verifies carries the challenge in its client data, and its
sign count in its authenticator data. -/
theorem verifyWebauthnAssertion_some {assertion : WebauthnAssertion} {candidatePublicKey : Bytes}
    {expectedRpIdHash expectedChallenge : Vector UInt8 32} {expectedOrigin : String} {signCount : UInt32}
    (passed : primitives.verifyWebauthnAssertion assertion candidatePublicKey expectedRpIdHash expectedOrigin
      expectedChallenge = some signCount) :
    signCount = assertion.signCount ∧ ∃ clientData text,
      primitives.parseClientData assertion.clientDataJson = some clientData ∧ clientData.challenge = some text ∧
        primitives.decodeBase64 text = some expectedChallenge.toList := by
  unfold verifyWebauthnAssertion at passed
  simp only [Option.bind_eq_bind, Option.bind_eq_some_iff, Option.pure_def, Option.some.injEq] at passed
  obtain ⟨clientData, parsed, _, _, _, _, text, listed, challenge, decoded, _, same, rest⟩ := passed
  obtain ⟨_, _, _, _, _, _, _, _, _, _, _, _, count⟩ := rest
  rw [Option.guard_eq_some'] at same
  exact ⟨count.symm, clientData, text, parsed, listed, by rw [decoded, same]⟩

/-- The part of `authenticate` that needs no table: the shape of the request
and its signature. It yields the nonce. -/
def verifySignedRequest (method : String) (call : BrowserCall) : RpcResult (Vector UInt8 16) :=
  if exact : call.request.nonce.toArray.size = 16 then
    match primitives.keyFromSec1Bytes call.request.publicKey with
    | none => authError "invalid P-256 public key"
    | some key =>
      match primitives.signatureFromSlice call.request.signature with
      | none => authError "invalid P-256 signature"
      | some signature =>
        let message := primitives.authenticationMessage method call.executionId call.request.created
          call.request.nonce call.request.body call.request.sessionToken
        if primitives.verify key message signature then .ok ⟨call.request.nonce.toArray, exact⟩
        else authError "request signature did not verify"
  else authError "invalid nonce length"

end Primitives

end MpcCoordinator
