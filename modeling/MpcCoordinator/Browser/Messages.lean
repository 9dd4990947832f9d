import MpcCoordinator.Browser.Authentication
import MpcCoordinator.General.Framing

namespace MpcCoordinator

/-- What the loop behind `ByteArray.toList` still has to read goes to the end of what it has read. -/
theorem toList_loop {bytes : ByteArray} {i left : Nat} (size : bytes.size = i + left) (done : List UInt8) :
    ByteArray.toList.loop bytes i done = done.reverse ++ bytes.data.toList.drop i := by
  induction left generalizing i done with
  | zero =>
    have ended : bytes.data.toList.drop i = [] := List.drop_eq_nil_of_le size.le
    rw [ByteArray.toList.loop, if_neg (by omega), ended, List.append_nil]
  | succ left ih =>
    have inside : i < bytes.size := by omega
    have next : bytes.data.toList.drop i = bytes.get! i :: bytes.data.toList.drop (i + 1) := by
      rw [List.drop_eq_getElem_cons (show i < bytes.data.toList.length from inside), ByteArray.get!,
        getElem!_pos bytes.data i inside, Array.getElem_toList]
    rw [ByteArray.toList.loop, if_pos inside, ih (by omega), next, List.reverse_cons, List.append_assoc]
    rfl

theorem utf8_injective : Function.Injective utf8 := by
  intro text text' same
  have read : ∀ text : String, utf8 text = text.toByteArray.data.toList := fun text =>
    toList_loop (Nat.zero_add _).symm []
  rw [read, read] at same
  exact String.toByteArray_inj.mp (ByteArray.ext (Array.toList_inj.mp same))

theorem leBytes64_injective : Function.Injective leBytes64 := by
  intro x y same
  refine UInt64.eq_of_byteAt fun i inside => ?_
  exact List.map_inj_left.mp same i (List.mem_range.mpr inside)

theorem leBytes64_framed : Framed Set.univ leBytes64 :=
  .of_length leBytes64_injective.injOn fun _ _ => List.length_map _

theorem vector_framed (n : Nat) : Framed Set.univ fun bytes : Vector UInt8 n => bytes.toList :=
  .of_length (fun _ _ _ _ same => Vector.toList_inj.mp same) fun _ _ => Vector.length_toList

theorem method_framed : Framed {method : String | 0 ∉ utf8 method} fun method => utf8 method ++ [0] :=
  .terminated utf8_injective.injOn fun _ clean => clean

namespace Primitives

variable {primitives : Primitives} {inputs : Set Bytes}

/-- Among the strings on which SHA-256 has no collisions, a string can be read
off its hash. -/
theorem sha256_framed (ideal : inputs.InjOn primitives.sha256) :
    Framed inputs fun input => (primitives.sha256 input).toList :=
  .of_length (fun _ inside _ inside' same => ideal inside inside' (Vector.toList_inj.mp same))
    fun _ _ => Vector.length_toList

/-- The message of a request determines the request: the method ends at the
first zero, the token is what is left, and the parts between have one length. -/
theorem authenticationMessage_injective (ideal : inputs.InjOn primitives.sha256) {method method' : String}
    {executionId executionId' : ExecutionId} {created created' : UInt64} {nonce nonce' body body' : Bytes}
    {sessionToken sessionToken' : String} (clean : 0 ∉ utf8 method) (clean' : 0 ∉ utf8 method')
    (exact : nonce.length = 16) (exact' : nonce'.length = 16) (inside : body ∈ inputs) (inside' : body' ∈ inputs)
    (same : primitives.authenticationMessage method executionId created nonce body sessionToken =
      primitives.authenticationMessage method' executionId' created' nonce' body' sessionToken') :
    method = method' ∧ executionId = executionId' ∧ created = created' ∧ nonce = nonce' ∧ body = body' ∧
      sessionToken = sessionToken' := by
  simp only [authenticationMessage, List.append_assoc] at same
  replace same := List.append_cancel_left (List.append_cancel_left same)
  rw [← List.append_assoc, ← List.append_assoc (utf8 method')] at same
  obtain ⟨methods, same⟩ := method_framed clean clean' same
  obtain ⟨ids, same⟩ := vector_framed 32 (Set.mem_univ _) (Set.mem_univ _) same
  obtain ⟨times, same⟩ := leBytes64_framed (Set.mem_univ _) (Set.mem_univ _) same
  obtain ⟨nonces, same⟩ := List.append_inj same (exact.trans exact'.symm)
  obtain ⟨bodies, tokens⟩ := sha256_framed ideal inside inside' same
  exact ⟨methods, by cases executionId; cases executionId'; exact congrArg _ ids, times, nonces, bodies,
    utf8_injective tokens⟩

/-- The message that the signature of a call is checked against. -/
def messageOf (primitives : Primitives) (method : String) (call : BrowserCall) : Bytes :=
  primitives.authenticationMessage method call.executionId call.request.created call.request.nonce call.request.body
    call.request.sessionToken

/-- Requests that pass with one key and one signature: the signature verifies
for the message of either. -/
theorem verify_both {method method' : String} {call call' : BrowserCall} {nonce nonce' : Vector UInt8 16}
    (keys : call.request.publicKey = call'.request.publicKey)
    (signatures : call.request.signature = call'.request.signature)
    (passed : primitives.verifySignedRequest method call = .ok nonce)
    (passed' : primitives.verifySignedRequest method' call' = .ok nonce') :
    ∃ key signature, primitives.keyFromSec1Bytes call.request.publicKey = some key ∧
      primitives.signatureFromSlice call.request.signature = some signature ∧
      primitives.verify key (primitives.messageOf method call) signature = true ∧
      primitives.verify key (primitives.messageOf method' call') signature = true := by
  obtain ⟨⟨key, signature, parsed, read, verified⟩, _⟩ := verifySignedRequest_ok passed
  obtain ⟨⟨key', signature', parsed', read', verified'⟩, _⟩ := verifySignedRequest_ok passed'
  rw [keys, parsed'] at parsed
  rw [signatures, read'] at read
  obtain rfl := Option.some.inj parsed
  obtain rfl := Option.some.inj read
  exact ⟨key', signature', keys ▸ parsed', signatures ▸ read', verified, verified'⟩

section Requests

open Scenario

theorem recorded_bodies_injOn : ({reserveBody, submitBody} : Set Bytes).InjOn Primitives.recorded.sha256 := by
  have distinct : Primitives.recorded.sha256 reserveBody ≠ Primitives.recorded.sha256 submitBody := by decide +kernel
  exact Set.injOn_pair.mpr fun same => absurd same distinct

theorem recorded_signatureFromSlice {raw signature : Bytes}
    (read : Primitives.recorded.signatureFromSlice raw = some signature) : signature = raw := by
  have found : (verified.map fun entry => entry.2.2).find? (· == raw) = some signature := read
  have same := List.find?_some found
  exact eq_of_beq same

theorem recorded_verify {key message signature : Bytes}
    (accepted : Primitives.recorded.verify key message signature = true) : (key, message, signature) ∈ verified :=
  List.contains_iff_mem.mp accepted

/-- The second request of a session with the signature of the first. -/
def resignedCall : BrowserCall := ⟨execution, { submitCall.request with signature := reserveSignature }⟩

/-- A P-256 key that was made for the two requests of a session: it is
computed from the hashes of their messages, so that one signature verifies for
both. -/
def twinKey : Bytes :=
  bytesOf 65 0x0455be14065b46bad0bcf96979c655735635aec1594930e13e6737348a3b735044f83a0e1b9d83328b6c0b1122c7c62c06a802496254825f94bb4b13c802e0d7ec

def twinSignature : Bytes :=
  bytesOf 64 0x9bece2a08e2cd04cbb9ba5102a51870f54b1e450c2fd417da83efe16707a190636b2ae2c7795c40d3a764c0c4f3eb28d24b8f40c155382cf501f9af439eadec9

def twinChallenge : Nat := 0xfee1007ddf2a01d37fc2689c5c2124cb0e7b8bcb292bec70fbb0dff39229cebd

def twinChallengeText : String := "_uEAfd8qAdN_wmicXCEkyw57i8spK-xw-7Df85Ipzr0"

/-- What the client's authenticator signed for the ceremony that binds the key. -/
def twinAssertion : Bytes :=
  bytesOf 71 0x30450220022f559339d9c28739ac071624899bab069decd86c7fd9ccc94bba0267e3eae7022100f2e0c759744052bb3c321f6e57622858e8ddf6873a79738e545d8c175e2b1ef1

def twinBind : BindWebauthnIdentity :=
  ⟨execution, ⟨authenticatorData 1, clientDataJson twinChallengeText, twinAssertion⟩, twinKey, ecdhKeyA, []⟩

def twinVerified : List (Bytes × Bytes × Bytes) :=
  [(client, authenticatorData 1 ++ bytesOf 32 0xa4a53a49f058ae681b417b4a20ecba5974ab02630931d172df53de297f4f35e3,
      twinAssertion),
    (twinKey, reserveMessage, twinSignature), (twinKey, submitMessage, twinSignature)]

def twinHashed : List (Bytes × Nat) :=
  [(utf8 "stoffel-browser-webauthn-bind-v1" ++ twinKey ++ ecdhKeyA, twinChallenge),
    (clientDataJson twinChallengeText, 0xa4a53a49f058ae681b417b4a20ecba5974ab02630931d172df53de297f4f35e3)] ++ hashed

/-- The library functions on what a client with such a key sends. -/
def twin : Primitives where
  VerifyingKey := Bytes
  Signature := Bytes
  keyFromSec1Bytes key := [client, twinKey].find? (· == key)
  signatureFromSlice signature := (twinVerified.map fun entry => entry.2.2).find? (· == signature)
  signatureFromDer signature := (twinVerified.map fun entry => entry.2.2).find? (· == signature)
  verify key message signature := twinVerified.contains (key, message, signature)
  sha256 input := digest ((twinHashed.lookup input).getD 0)
  encodeBase64 := Primitives.recorded.encodeBase64
  decodeBase64 text := if text = twinChallengeText then some (bytesOf 32 twinChallenge) else none
  parseClientData json := if json = clientDataJson twinChallengeText then
    some ⟨some "webauthn.get", some "https://vote.example.com", some twinChallengeText⟩ else none
  parseIndices := Primitives.recorded.parseIndices
  parseBatch := Primitives.recorded.parseBatch

def twinReserveCall : BrowserCall :=
  ⟨execution, { reserveCall.request with publicKey := twinKey, signature := twinSignature }⟩

def twinSubmitCall : BrowserCall :=
  ⟨execution, { submitCall.request with publicKey := twinKey, signature := twinSignature }⟩

end Requests

/-- What the challenge of a ceremony is the hash of. -/
def bindPreimage (ecdsaPublicKey ecdhPublicKey : Bytes) : Bytes :=
  utf8 "stoffel-browser-webauthn-bind-v1" ++ ecdsaPublicKey ++ ecdhPublicKey

variable {a b a' b' : Bytes}

/-- The challenge commits to the two keys written one after the other. -/
theorem webauthnBindChallenge_eq_iff (ideal : inputs.InjOn primitives.sha256) (inside : bindPreimage a b ∈ inputs)
    (inside' : bindPreimage a' b' ∈ inputs) :
    primitives.webauthnBindChallenge a b = primitives.webauthnBindChallenge a' b' ↔ a ++ b = a' ++ b' := by
  constructor
  · intro same
    have preimages := ideal inside inside' same
    rw [bindPreimage, bindPreimage, List.append_assoc, List.append_assoc] at preimages
    exact List.append_cancel_left preimages
  · intro same
    rw [webauthnBindChallenge, webauthnBindChallenge, List.append_assoc, List.append_assoc, same]

/-- An assertion is for one challenge, whoever verifies it. -/
theorem challenge_of_assertion {assertion : WebauthnAssertion} {candidate candidate' : Bytes} {origin origin' : String}
    {rpIdHash rpIdHash' challenge challenge' : Vector UInt8 32} {signCount signCount' : UInt32}
    (passed : primitives.verifyWebauthnAssertion assertion candidate rpIdHash origin challenge = some signCount)
    (passed' : primitives.verifyWebauthnAssertion assertion candidate' rpIdHash' origin' challenge' = some signCount') :
    challenge = challenge' := by
  obtain ⟨_, clientData, text, parsed, listed, decoded⟩ := verifyWebauthnAssertion_some passed
  obtain ⟨_, clientData', text', parsed', listed', decoded'⟩ := verifyWebauthnAssertion_some passed'
  obtain rfl := Option.some.inj (parsed.symm.trans parsed')
  obtain rfl := Option.some.inj (listed.symm.trans listed')
  exact Vector.toList_inj.mp (Option.some.inj (decoded.symm.trans decoded'))

theorem split_eq_iff (same : a ++ b = a' ++ b') : (a = a' ∧ b = b') ↔ a.length = a'.length :=
  ⟨fun pair => congrArg List.length pair.1, fun lengths => List.append_inj same lengths⟩

/-- Where SHA-256 has no collisions, a challenge, and so an assertion for it,
tells apart two pairs of keys iff their first keys have one length. -/
theorem bind_challenge_commits_iff (ideal : inputs.InjOn primitives.sha256) (inside : bindPreimage a b ∈ inputs)
    (inside' : bindPreimage a' b' ∈ inputs) :
    (primitives.webauthnBindChallenge a b = primitives.webauthnBindChallenge a' b' →
      ((a = a' ∧ b = b') ↔ a.length = a'.length)) ∧
    ∀ assertion candidate candidate' rpIdHash rpIdHash' origin origin' signCount signCount',
      primitives.verifyWebauthnAssertion assertion candidate rpIdHash origin
        (primitives.webauthnBindChallenge a b) = some signCount →
      primitives.verifyWebauthnAssertion assertion candidate' rpIdHash' origin'
        (primitives.webauthnBindChallenge a' b') = some signCount' →
      ((a = a' ∧ b = b') ↔ a.length = a'.length) := by
  have commits : primitives.webauthnBindChallenge a b = primitives.webauthnBindChallenge a' b' →
      ((a = a' ∧ b = b') ↔ a.length = a'.length) := fun same =>
    split_eq_iff ((webauthnBindChallenge_eq_iff ideal inside inside').mp same)
  exact ⟨commits, fun _ _ _ _ _ _ _ _ _ passed passed' => commits (challenge_of_assertion passed passed')⟩

section Ceremonies

open Scenario

/-- The values of SHA-256 that the ceremonies need are distinct. -/
theorem recorded_injOn : {input | input ∈ hashed.map Prod.fst}.InjOn Primitives.recorded.sha256 := by
  have distinct : ((hashed.map Prod.fst).map Primitives.recorded.sha256).Nodup := by decide +kernel
  exact fun _ inside _ inside' same => List.inj_on_of_nodup_map distinct inside inside' same

/-- The challenges of two ceremonies tell their keys apart. -/
theorem bind_challenge_commits_iff_of_ceremonies :
    Primitives.recorded.webauthnBindChallenge requestKey ecdhKeyA ≠
      Primitives.recorded.webauthnBindChallenge requestKey ecdhKeyB := by
  intro same
  have keys := ((@bind_challenge_commits_iff _ _ requestKey ecdhKeyA requestKey ecdhKeyB recorded_injOn (by decide +kernel)
    (by decide +kernel)).1 same).mpr rfl
  exact absurd keys.2 (by decide +kernel)

/-- A ceremony with the client's assertion in which one byte has moved from the
second key to the first. -/
def shiftedBind : BindWebauthnIdentity :=
  { bindA with ecdsaPublicKey := requestKey ++ [101], ecdhPublicKey := utf8 "cdh-key-a" }

/-- The coordinator accepts the assertion for the keys it was made for, and for
those of the shifted ceremony. -/
theorem shifted_keys_accepted :
    shiftedBind.assertion = bindA.assertion ∧ shiftedBind.ecdsaPublicKey ≠ bindA.ecdsaPublicKey ∧
      shiftedBind.ecdhPublicKey ≠ bindA.ecdhPublicKey ∧
      Primitives.recorded.webauthnBindChallenge shiftedBind.ecdsaPublicKey shiftedBind.ecdhPublicKey =
        Primitives.recorded.webauthnBindChallenge bindA.ecdsaPublicKey bindA.ecdhPublicKey ∧
      {input | input ∈ hashed.map Prod.fst}.InjOn Primitives.recorded.sha256 ∧
      bindPreimage bindA.ecdsaPublicKey bindA.ecdhPublicKey ∈ hashed.map Prod.fst ∧
      bindPreimage shiftedBind.ecdsaPublicKey shiftedBind.ecdhPublicKey ∈ hashed.map Prod.fst ∧
      ∃ trace final, Run (CoordinatorBrowserState.Step .recorded) .start trace final ∧
        CoordinatorListener.recorded.checkBind final.coordinator bindA [client] = .ok (client, 1) ∧
        CoordinatorListener.recorded.checkBind final.coordinator shiftedBind [client] = .ok (client, 1) := by
  refine ⟨rfl, by decide +kernel, by decide +kernel, by decide +kernel, recorded_injOn, by decide +kernel,
    by decide +kernel, ?_⟩
  obtain ⟨trace, final, run, _, seen, _⟩ := CoordinatorBrowserState.exists_run_of_events .recorded
    [.register [1] .assigned []] (fun _ _ => true) (fun s =>
      [bindA, shiftedBind].map fun request => CoordinatorListener.recorded.checkBind s.coordinator request [client])
    [.ok (client, 1), .ok (client, 1)] (by decide +kernel)
  obtain ⟨first, second⟩ := List.cons.inj seen
  exact ⟨trace, final, run, first, List.head_eq_of_cons_eq second⟩

end Ceremonies

end Primitives

end MpcCoordinator
