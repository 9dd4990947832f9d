import MpcCoordinator.Client.ObtainOutputs

namespace MpcCoordinator

/-- The primitives by which output shares are encrypted, with public keys `P`.
What the random generator yields is the last argument of the seal. -/
structure HpkeSender (S P R : Type) where
  serializeShares : List S → Option Bytes
  publicKeyFromBytes : Bytes → Option P
  singleShotSeal : P → (info plaintext aad : Bytes) → R → Option EncryptedShares

/-- The errors of a party that sends output shares. -/
inductive SendOutputError where
  | parsingPublicKeyFailed
  | serializationError
  | encryptionError
  | jsonError (message : String)
  deriving DecidableEq, Repr

/-- The key that shares are encrypted to. A lookup that fails counts as one
that finds no session. -/
def outputEncryptionKey (resolved : Except String (Option Bytes)) (key : Bytes) : Bytes :=
  match resolved with
  | .ok (some sessionKey) => sessionKey
  | .ok none => key
  | .error _ => key

namespace OffChainCoordinatorClient

variable {S V P K E R : Type} (client : OffChainCoordinatorClient) (sender : HpkeSender S P R)

/-- What a party sends for a client: its shares of all outputs in one message,
which only opens for this execution. -/
def sealOutputShares (resolved : Except String (Option Bytes)) (key : Bytes) (outputShares : List S) (rng : R) :
    Except SendOutputError EncryptedShares :=
  match sender.publicKeyFromBytes (outputEncryptionKey resolved key) with
  | none => .error .parsingPublicKeyFailed
  | some clientPk =>
    match sender.serializeShares outputShares with
    | none => .error .serializationError
    | some outputSharesBytes =>
      match sender.singleShotSeal clientPk (executionEncInfo client.executionId) outputSharesBytes [] rng with
      | none => .error .encryptionError
      | some encShares => .ok encShares

/-- The whole call. `answer` is what the coordinator makes of the message. -/
def sendOutputShares (resolved : Except String (Option Bytes)) (key : Bytes) (outputShares : List S) (rng : R)
    (answer : EncryptedShares → Except String Unit) : Except SendOutputError Unit :=
  match client.sealOutputShares sender resolved key outputShares rng with
  | .error error => .error error
  | .ok encShares =>
    match answer encShares with
    | .error error => .error (.jsonError error)
    | .ok () => .ok ()

end OffChainCoordinatorClient

variable {S V P K E R : Type}

/-- The two ends use one cipher and one encoding: what is sealed to the key opens
with the secret key, in the same context, and decodes to what was encoded. -/
structure HpkeSender.Matches (sender : HpkeSender S P R) (hpke : Hpke K E) (scheme : ShareBound S V) (key : Bytes)
    (clientSk : K) : Prop where
  opens : ∀ clientPk info plaintext rng encShares, sender.publicKeyFromBytes key = some clientPk →
    sender.singleShotSeal clientPk info plaintext [] rng = some encShares →
    ∃ encappedKey, hpke.encappedKeyFromBytes encShares.1 = some encappedKey ∧
      hpke.singleShotOpen clientSk encappedKey info encShares.2 [] = some plaintext
  decodes : ∀ shares bytes, sender.serializeShares shares = some bytes → scheme.deserializeShares bytes = some shares

/-- A snapshot with a correct entry of enough different parties ends the loop with the outputs. -/
theorem OffChainCoordinatorClient.obtainOutputsLoop_of_correct {client : OffChainCoordinatorClient} {hpke : Hpke K E}
    {scheme : ShareBound S V} {clientSk : K} {share : Nat → Nat → S} {output : Nat → V}
    {snapshot : List (Nat × EncryptedShares)} (distinct : (snapshot.map Prod.fst).Nodup)
    (parties : ∀ entry ∈ snapshot, entry.1 < client.nParties.toNat)
    (correct : ∀ entry ∈ snapshot, client.CorrectEntry hpke scheme clientSk share entry)
    (enough : client.minShares scheme ≤ snapshot.length) (recovers : client.Recovers scheme share output) (closed : Bool)
    (rest : List (Option (List EncryptedShares))) :
    client.obtainOutputsLoop hpke scheme clientSk closed (some (snapshot.map Prod.snd) :: rest) =
      .returned ((List.range client.nOutputs.toNat).map output) := by
  have kept : ∀ entry ∈ snapshot.map Prod.snd, client.Opens hpke scheme clientSk entry ∧
      (client.sharesOf hpke scheme clientSk entry).isSome = true := by
    intro entry member
    obtain ⟨own, listed, rfl⟩ := List.mem_map.mp member
    obtain ⟨shares, kept, _⟩ := (correct own listed).sharesOf_eq
    exact ⟨⟨_, correct own listed⟩, by rw [kept]; rfl⟩
  have long : client.minShares scheme ≤ (snapshot.map Prod.snd).length := by
    rwa [List.length_map]
  have usable : client.usable hpke scheme clientSk (snapshot.map Prod.snd) = (snapshot.map Prod.snd).length :=
    List.countP_eq_length.mpr fun entry member => (kept entry member).2
  refine (obtainOutputsLoop_returned_iff closed ⟨distinct, parties, fun entry member => Or.inl (correct entry member)⟩
    recovers rest).mpr ⟨⟨long, fun entry member => (kept entry member).1⟩, Or.inl (Or.inr ?_)⟩
  rwa [usable]

/-- What a party has sealed for an execution opens there, and gives its shares. -/
theorem OffChainCoordinatorClient.openShares_of_sealed {client party : OffChainCoordinatorClient}
    {sender : HpkeSender S P R} {hpke : Hpke K E} {scheme : ShareBound S V} {clientSk : K} {key : Bytes}
    {resolved : Except String (Option Bytes)} {outputShares : List S} {rng : R} {encShares : EncryptedShares}
    (matching : sender.Matches hpke scheme (outputEncryptionKey resolved key) clientSk)
    (same : party.executionId = client.executionId)
    (sealed : party.sealOutputShares sender resolved key outputShares rng = .ok encShares) :
    client.openShares hpke scheme clientSk encShares = .ok outputShares := by
  unfold sealOutputShares at sealed
  split at sealed
  · cases sealed
  rename_i clientPk parsed
  split at sealed
  · cases sealed
  rename_i outputSharesBytes serialized
  split at sealed
  · cases sealed
  rename_i encrypted
  cases sealed
  obtain ⟨encappedKey, encapped, opened⟩ := matching.opens _ _ _ _ _ parsed encrypted
  rw [same] at opened
  simp only [openShares, encapped, opened, matching.decodes _ _ serialized]

namespace Scenario

/-- The cipher without secrecy, from the side of the parties. -/
def plainSender : HpkeSender UInt8 Unit Unit where
  serializeShares := some
  publicKeyFromBytes _ := some ()
  singleShotSeal _ _ plaintext _ _ := if plaintext = [] then none else some ([1], plaintext)

theorem plainSender_matches (key : Bytes) : plainSender.Matches plainHpke .plain key () := by
  constructor
  · intro clientPk info plaintext rng encShares _ sealed
    by_cases empty : plaintext = []
    · simp [plainSender, empty] at sealed
    · simp only [plainSender, if_neg empty, Option.some.injEq] at sealed
      subst sealed
      exact ⟨(), rfl, by simp [plainHpke, empty]⟩
  · intro shares bytes serialized
    cases serialized
    rfl

end Scenario

end MpcCoordinator
