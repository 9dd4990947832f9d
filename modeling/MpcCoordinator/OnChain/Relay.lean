import MpcCoordinator.OnChain.Authentication

namespace MpcCoordinator.OnChain

/-- The private key of an address. -/
structure PrivateKeySigner (primitives : EthereumPrimitives) where
  address : Address
  signMessage : Bytes → Option Bytes
  genuine : ∀ message raw, signMessage message = some raw →
    ∃ sig, primitives.signatureFromRaw raw = some sig ∧ primitives.recoverAddressFromMsg sig message = some address

def generateClientSig {primitives : EthereumPrimitives} (baseNonce i : UInt64) (signer : PrivateKeySigner primitives) :
    Option Bytes :=
  signer.signMessage (primitives.nonceHash baseNonce i)

/-- A client that follows the protocol. It sends one signature to all nodes,
over connections with one TLS identity. -/
structure HonestClient {S : Type} (setup : NodeSetup S) where
  signer : PrivateKeySigner setup.primitives
  index : UInt64
  tlsId : Bytes
  sigBytes : Bytes
  signed : generateClientSig setup.baseNonce index signer = some sigBytes

/-- The honest nodes, and whether the client has been at the node of the adversary. -/
structure RelayState (ν S : Type) where
  nodes : ν → NodeState S
  leaked : Bool

/-- What happens at the honest nodes `ν` and at the one of the adversary, which
learns the signature there. All connections but those of the client are `other`. -/
inductive RelayEvent (ν S : Type) where
  | reserved (n : ν) (addr : Address) (i : UInt64) (delivered : Bool)
  | generated (n : ν) (i : UInt64) (share : S) (delivered : Bool)
  | client (n : ν) (accepted : Option Nat) (delivered : Bool)
  | leak
  | other (n : ν) (tlsId sigBytes : Bytes) (addr : Address) (accepted : Option Nat) (delivered : Bool)

section

variable {ν S : Type} {setup : NodeSetup S} (client : HonestClient setup)

/-- The operation that an event is at an honest node. -/
def RelayEvent.operation : RelayEvent ν S → Option (ν × NodeEvent S)
  | .reserved n addr i delivered => some (n, .addReservedIndex addr i delivered)
  | .generated n i share delivered => some (n, .addMaskShare i share delivered)
  | .client n accepted delivered =>
    some (n, .receiveMaskShare client.tlsId client.sigBytes client.signer.address accepted delivered)
  | .leak => none
  | .other n tlsId sigBytes addr accepted delivered =>
    some (n, .receiveMaskShare tlsId sigBytes addr accepted delivered)

namespace RelayState

def start : RelayState ν S := ⟨fun _ => NodeState.start, false⟩

/-- Nobody else has the TLS key of the client, and signatures are ideal: one
that is valid for the client's address was made by the client and then leaked. -/
def Permitted (s : RelayState ν S) : RelayEvent ν S → Prop
  | .other _ tlsId sigBytes addr _ _ => tlsId ≠ client.tlsId ∧
    (addr = client.signer.address → ∀ i, NodeRPCServerShared.verifies setup i addr sigBytes = true → s.leaked = true)
  | _ => True

/-- Whoever else presents bytes that are verified for the client's address
comes after the client, or after someone who has named its address. One
signature has several encodings, so these need not be the bytes that were leaked. -/
def ClientFirst (s : RelayState ν S) : RelayEvent ν S → Prop
  | .other n _ sigBytes addr _ _ => addr = client.signer.address →
    (∃ i, NodeRPCServerShared.verifies setup i addr sigBytes = true) →
      ∃ entry ∈ (s.nodes n).shared.idsAndAddrs, entry.addr = client.signer.address
  | _ => True

variable [DecidableEq ν]

def next (s : RelayState ν S) (event : RelayEvent ν S) : Option (RelayState ν S) :=
  match event.operation client with
  | none => some { s with leaked := true }
  | some (n, operation) =>
    ((s.nodes n).next setup operation).map fun node => { s with nodes := Function.update s.nodes n node }

def Step (s : RelayState ν S) (event : RelayEvent ν S) (s' : RelayState ν S) : Prop :=
  s.Permitted client event ∧ s.next client event = some s'

variable {client} {trace : List (Transition (RelayState ν S) (RelayEvent ν S))} {s s' final : RelayState ν S}
  {event : RelayEvent ν S} {n : ν}

theorem Step.operation (step : s.Step client event s') {operation : NodeEvent S}
    (here : event.operation client = some (n, operation)) : (s.nodes n).Step setup operation (s'.nodes n) := by
  have moved := step.2
  simp only [next, here] at moved
  obtain ⟨node, answer, rfl⟩ := Option.map_eq_some_iff.mp moved
  simp only [Function.update_self]
  exact answer

theorem Step.cases (step : s.Step client event s') (n : ν) :
    s'.nodes n = s.nodes n ∨ ∃ operation, event.operation client = some (n, operation) := by
  have moved := step.2
  unfold next at moved
  split at moved
  · cases moved
    exact Or.inl rfl
  · rename_i m operation here
    obtain ⟨node, answer, rfl⟩ := Option.map_eq_some_iff.mp moved
    by_cases same : n = m
    · exact Or.inr ⟨operation, same ▸ here⟩
    · exact Or.inl (Function.update_of_ne same ..)

/-- What an honest node does in a run of all is a run of its own. -/
theorem exists_node_run (run : Run (Step client) start trace final) (n : ν) :
    ∃ own, Run (NodeState.Step setup) NodeState.start own (final.nodes n) ∧
      ∀ τ ∈ own, ∃ ρ ∈ trace, ρ.event.operation client = some (n, τ.event) ∧ ρ.source.nodes n = τ.source := by
  induction run with
  | start => exact ⟨[], .start, by simp⟩
  | @next earlier current event after previous taken ih =>
    obtain ⟨own, nodeRun, known⟩ := ih
    have kept : ∀ τ ∈ own, ∃ ρ ∈ earlier ++ [⟨current, event, after⟩],
        ρ.event.operation client = some (n, τ.event) ∧ ρ.source.nodes n = τ.source := by
      intro τ member
      obtain ⟨ρ, old, rest⟩ := known τ member
      exact ⟨ρ, List.mem_append_left _ old, rest⟩
    rcases taken.cases n with same | ⟨operation, here⟩
    · exact ⟨own, same ▸ nodeRun, kept⟩
    · refine ⟨own ++ [⟨current.nodes n, operation, after.nodes n⟩], nodeRun.next (taken.operation here), fun τ member => ?_⟩
      rcases List.mem_append.mp member with old | last
      · exact kept τ old
      · rw [List.mem_singleton.mp last]
        exact ⟨⟨current, event, after⟩, by simp, here, rfl⟩

omit [DecidableEq ν] in
/-- A request for the client's address that can be verified, and is not turned
away, is the client's own. -/
theorem tlsId_of_request {ρ : Transition (RelayState ν S) (RelayEvent ν S)} {tlsId sigBytes : Bytes} {i : UInt64}
    {accepted : Option Nat} {delivered : Bool} (ahead : ρ.source.ClientFirst client ρ.event)
    (request : ρ.event.operation client =
      some (n, .receiveMaskShare tlsId sigBytes client.signer.address accepted delivered))
    (unlisted : (ρ.source.nodes n).shared.Unlisted tlsId client.signer.address)
    (verified : NodeRPCServerShared.verifies setup i client.signer.address sigBytes = true) :
    tlsId = client.tlsId := by
  obtain ⟨source, event, target⟩ := ρ
  cases event with
  | client =>
    cases request
    rfl
  | other =>
    cases request
    obtain ⟨entry, member, same⟩ := ahead rfl ⟨i, verified⟩
    exact absurd same (unlisted entry member).2
  | reserved => cases request
  | generated => cases request
  | leak => cases request

omit [DecidableEq ν] in
theorem tlsId_of_requested {own : List (Transition (NodeState S) (NodeEvent S))} {tlsId sigBytes : Bytes} {handle : Nat}
    {d : NodeRPCServerShared S} (ahead : ∀ τ ∈ trace, τ.source.ClientFirst client τ.event)
    (known : ∀ τ ∈ own, ∃ ρ ∈ trace, ρ.event.operation client = some (n, τ.event) ∧ ρ.source.nodes n = τ.source)
    (requested : Requested own tlsId sigBytes client.signer.address handle)
    (verified : d.Verified setup client.signer.address sigBytes) : tlsId = client.tlsId := by
  obtain ⟨τ, member, unlisted, delivered, asked⟩ := requested
  obtain ⟨ρ, inside, here, same⟩ := known τ member
  obtain ⟨i, _, accepted⟩ := verified
  rw [asked] at here
  rw [← same] at unlisted
  exact tlsId_of_request (ahead ρ inside) here unlisted accepted

end RelayState

end

namespace Scenario

def honestClient : HonestClient NodeSetup.recorded where
  signer := {
    address := owner
    signMessage := fun message => if message = nonceZero.toList then some ownerSig else none
    genuine := by
      intro message raw signed
      split at signed
      · rename_i same
        cases signed
        subst same
        have known : (recovered.map Prod.fst).find? (· == ownerSig) = some ownerSig := by decide +kernel
        exact ⟨ownerSig, known, by decide +kernel⟩
      · cases signed }
  index := 0
  tlsId := [1]
  sigBytes := ownerSig
  signed := by decide +kernel

/-- The others only ever present the leaked signature, over the TLS identity 2. -/
def relays (s : RelayState Unit Bytes) : RelayEvent Unit Bytes → Bool
  | .other _ tlsId sigBytes _ _ _ => decide (tlsId = [2] ∧ s.leaked = true ∧ sigBytes = ownerSig)
  | _ => true

theorem exists_relay_run {β : Type} (events : List (RelayEvent Unit Bytes))
    (check : RelayState Unit Bytes → RelayEvent Unit Bytes → Bool) (view : RelayState Unit Bytes → β) (seen : β)
    (done : (Run.execute (fun s event => if check s event then
      (if relays s event then s.next honestClient event else none) else none) .start events).map view = some seen) :
    ∃ trace final, Run (RelayState.Step honestClient) RelayState.start trace final ∧
      trace.map Transition.event = events ∧ view final = seen ∧ ∀ τ ∈ trace, check τ.source τ.event = true := by
  refine Run.exists_of_checked (fun s event s' moved => ?_) done
  split at moved
  · rename_i allowed
    refine ⟨?_, moved⟩
    cases event with
    | other n tlsId sigBytes addr accepted delivered =>
      obtain ⟨rfl, leaked, rfl⟩ := of_decide_eq_true allowed
      exact ⟨by decide, fun _ _ _ => leaked⟩
    | reserved => trivial
    | generated => trivial
    | client => trivial
    | leak => trivial
  · cases moved

/-- The client asks the node of the adversary first, which passes the signature on. -/
def relayed : List (RelayEvent Unit Bytes) :=
  [.reserved () owner 0 true, .leak, .other () [2] ownerSig owner (some 0) true]

/-- The client is at the honest node before its signature is passed on. -/
def overtaken : List (RelayEvent Unit Bytes) :=
  [.client () (some 0) true, .reserved () owner 0 true, .leak, .other () [2] ownerSig owner (some 0) true]

end Scenario

end MpcCoordinator.OnChain
