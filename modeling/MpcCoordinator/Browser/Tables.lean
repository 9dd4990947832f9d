import MpcCoordinator.Browser.Credentials
import MpcCoordinator.General.Table

namespace MpcCoordinator

/-- What one ceremony bound: an ephemeral key pair that acts for an identity. -/
structure WebauthnBinding where
  clientIdentity : ClientIdentity
  ecdsaPublicKey : Bytes
  ecdhPublicKey : Bytes
  deriving DecidableEq, Repr

/-- The sessions of a process, and the session whose key outputs of an
execution are encrypted to, for each of its clients. -/
structure WebauthnBindings where
  byToken : Table String WebauthnBinding
  byExecutionAndClientIdentity : Table (ExecutionId × ClientIdentity) WebauthnBinding

namespace WebauthnBindings

variable (bindings : WebauthnBindings)

def empty : WebauthnBindings := ⟨Table.empty, Table.empty⟩

/-- The token of a new session: the first random draw that is not yet taken.
There is none as long as the loop has not found one. -/
def freshToken (encodeBase64 : Vector UInt8 32 → String) (draws : List (Vector UInt8 32)) : Option String :=
  (draws.map encodeBase64).find? fun token => (bindings.byToken token).isNone

/-- Stores a session under a fresh token. A node passes no execution. -/
def insert (executionId : Option ExecutionId) (binding : WebauthnBinding) (token : String) : WebauthnBindings where
  byToken := bindings.byToken.insert token binding
  byExecutionAndClientIdentity :=
    match executionId with
    | some executionId => bindings.byExecutionAndClientIdentity.insert (executionId, binding.clientIdentity) binding
    | none => bindings.byExecutionAndClientIdentity

def get (token : String) : Option WebauthnBinding := bindings.byToken token

/-- The key that outputs of an execution are encrypted to for a client. -/
def resolveEcdhPublicKey (executionId : ExecutionId) (clientId : ClientIdentity) : Option Bytes :=
  (bindings.byExecutionAndClientIdentity (executionId, clientId)).map WebauthnBinding.ecdhPublicKey

/-- Makes the calling session the encryption target of its identity again. -/
def pinBindingFromToken (executionId : ExecutionId) (sessionToken : String) : WebauthnBindings :=
  match bindings.byToken sessionToken with
  | none => bindings
  | some binding => { bindings with
      byExecutionAndClientIdentity :=
        bindings.byExecutionAndClientIdentity.insert (executionId, binding.clientIdentity) binding }

/-- The second half of `authenticate`: who a signed request acts for. -/
def identify (call : BrowserCall) : RpcResult ClientIdentity :=
  match bindings.get call.request.sessionToken with
  | none => authError "unknown or expired session token"
  | some binding =>
    if binding.ecdsaPublicKey ≠ call.request.publicKey then
      authError "session token is not bound to this signing key"
    else .ok binding.clientIdentity

variable {bindings}

theorem freshToken_vacant {encodeBase64 : Vector UInt8 32 → String} {draws : List (Vector UInt8 32)} {token : String}
    (found : bindings.freshToken encodeBase64 draws = some token) : bindings.byToken token = none := by
  have vacant := List.find?_some found
  simpa using vacant

theorem identify_ok {call : BrowserCall} {identity : ClientIdentity} (identified : bindings.identify call = .ok identity) :
    ∃ binding, bindings.byToken call.request.sessionToken = some binding ∧ binding.clientIdentity = identity ∧
      binding.ecdsaPublicKey = call.request.publicKey := by
  unfold identify get at identified
  split at identified
  · cases identified
  · rename_i binding held
    split at identified
    · cases identified
    · rename_i signing
      cases identified
      exact ⟨binding, held, rfl, not_not.mp signing⟩

/-- A session, once stored, keeps its binding. -/
theorem byToken_insert {executionId : Option ExecutionId} {added binding : WebauthnBinding} {token held : String}
    (vacant : bindings.byToken token = none) (stored : bindings.byToken held = some binding) :
    (bindings.insert executionId added token).byToken held = some binding := by
  have different : held ≠ token := by
    rintro rfl
    rw [vacant] at stored
    cases stored
  exact (Table.insert_of_ne _ _ different).trans stored

@[simp] theorem byToken_pinBindingFromToken (executionId : ExecutionId) (sessionToken : String) :
    (bindings.pinBindingFromToken executionId sessionToken).byToken = bindings.byToken := by
  unfold pinBindingFromToken
  split <;> rfl

theorem resolve_pinBindingFromToken {executionId : ExecutionId} {sessionToken : String} {binding : WebauthnBinding}
    (stored : bindings.byToken sessionToken = some binding) :
    (bindings.pinBindingFromToken executionId sessionToken).resolveEcdhPublicKey executionId binding.clientIdentity =
      some binding.ecdhPublicKey := by
  simp [pinBindingFromToken, stored, resolveEcdhPublicKey]

/-- Pinning moves no other target. -/
theorem resolve_pinBindingFromToken_of_ne {executionId e : ExecutionId} {sessionToken : String} {c : ClientIdentity}
    {binding : WebauthnBinding} (stored : bindings.byToken sessionToken = some binding)
    (elsewhere : (e, c) ≠ (executionId, binding.clientIdentity)) :
    (bindings.pinBindingFromToken executionId sessionToken).resolveEcdhPublicKey e c =
      bindings.resolveEcdhPublicKey e c := by
  simp only [pinBindingFromToken, stored, resolveEcdhPublicKey]
  rw [Table.insert_of_ne _ _ elsewhere]

theorem resolve_insert_of_ne {executionId e : ExecutionId} {added : WebauthnBinding} {token : String}
    {c : ClientIdentity} (elsewhere : (e, c) ≠ (executionId, added.clientIdentity)) :
    (bindings.insert (some executionId) added token).resolveEcdhPublicKey e c = bindings.resolveEcdhPublicKey e c := by
  simp only [insert, resolveEcdhPublicKey]
  rw [Table.insert_of_ne _ _ elsewhere]

end WebauthnBindings

/-- How long a signed request stays valid, in seconds. -/
def nonceWindowSeconds : Nat := 120

/-- Recently seen nonces with their timestamps, for each execution and identity. -/
structure NonceBook where
  seen : Table (ExecutionId × ClientIdentity) (List (UInt64 × Vector UInt8 16))

namespace NonceBook

def empty : NonceBook := ⟨Table.empty⟩

/-- Accepts a nonce once within the window. A refused nonce still leaves an
entry for its key, with the stale part dropped. -/
def accept (book : NonceBook) (executionId : ExecutionId) (identity : ClientIdentity) (created : UInt64)
    (nonce : Vector UInt8 16) (now : UInt64) : RpcResult Unit × NonceBook :=
  if nonceWindowSeconds < (Int.natAbs (now.toNat - created.toNat)) then
    (authError "request timestamp is outside the accepted window", book)
  else
    let entries := ((book.seen (executionId, identity)).getD []).filter fun entry =>
      decide (now.toNat - entry.1.toNat ≤ nonceWindowSeconds)
    if entries.any fun entry => entry.2 == nonce then
      (authError "request nonce was already used", ⟨book.seen.insert (executionId, identity) entries⟩)
    else (.ok (), ⟨book.seen.insert (executionId, identity) (entries ++ [(created, nonce)])⟩)

end NonceBook

/-- The last known sign count of each identity's authenticator. -/
structure SignCounts where
  lastKnown : Table ClientIdentity UInt32

namespace SignCounts

def empty : SignCounts := ⟨Table.empty⟩

/-- Refuses a count that does not increase, unless the authenticator does not
count at all. -/
def accept (counts : SignCounts) (identity : ClientIdentity) (signCount : UInt32) : RpcResult SignCounts :=
  let stored := (counts.lastKnown identity).getD 0
  if (signCount ≠ 0 ∨ stored ≠ 0) ∧ signCount ≤ stored then
    authError "authenticator signCount did not increase - possible cloned authenticator"
  else .ok ⟨counts.lastKnown.insert identity signCount⟩

end SignCounts

end MpcCoordinator
