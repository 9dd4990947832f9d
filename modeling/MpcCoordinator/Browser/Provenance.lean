import MpcCoordinator.Browser.Projection
import MpcCoordinator.Execution.Provenance

namespace MpcCoordinator

open CoordinatorExecutionState (Provenance TablesKept SubmittedIn)

namespace CoordinatorBrowserState

variable {listener : CoordinatorListener} {trace : List (Transition CoordinatorBrowserState ServerEvent)}
  {final : CoordinatorBrowserState} {e : ExecutionId} {d d' : CoordinatorExecutionState}

theorem provenance_of_run (run : Run (Step listener) start trace final) (here : final.live e = some d) :
    Provenance (callsOn listener e trace) d := by
  obtain ⟨_, _, _, admitted, calls⟩ := exists_run_on run here
  exact (Provenance.of_run admitted calls).1

theorem tablesKept_of_step {s s' : CoordinatorBrowserState} {event : ServerEvent} (step : s.Step listener event s')
    (before : s.live e = some d) (after : s'.live e = some d') : TablesKept d d' := by
  have seen := step.seen e
  rw [before, after] at seen
  cases seen with
  | untouched => exact .refl d
  | called _ moved => exact .step moved

/-- Whoever calls, natively or from a browser: every recorded owner and input
of every execution comes from calls of the right client in the right round, no
client reserves twice, and nothing that is recorded changes. -/
theorem input_provenance (run : Run (Step listener) start trace final) :
    (∀ e d, final.live e = some d → Provenance (callsOn listener e trace) d) ∧
      ∀ τ ∈ trace, ∀ e d d', τ.source.live e = some d → τ.target.live e = some d' → TablesKept d d' :=
  ⟨fun _ _ here => provenance_of_run run here,
    fun _ member _ _ _ before after => tablesKept_of_step (run.taken_of_mem member) before after⟩

end CoordinatorBrowserState

namespace Scenario

/-- A byte string, read off a number in base 256. -/
def bytesOf (length n : Nat) : Bytes :=
  (List.range length).map fun i => UInt8.ofNat (n / 256 ^ (length - 1 - i))

def digest (n : Nat) : Vector UInt8 32 := Vector.ofFn fun i => UInt8.ofNat (n / 256 ^ (31 - i.val))

def base64Digit (n : Nat) : Char :=
  if n < 26 then Char.ofNat (65 + n) else if n < 52 then Char.ofNat (71 + n)
  else if n < 62 then Char.ofNat (n - 4) else if n = 62 then '-' else '_'

/-- Unpadded URL-safe base64. -/
def base64 : List Nat → List Char
  | a :: b :: c :: rest => base64Digit (a / 4) :: base64Digit (a % 4 * 16 + b / 16) ::
      base64Digit (b % 16 * 4 + c / 64) :: base64Digit (c % 64) :: base64 rest
  | [a, b] => [base64Digit (a / 4), base64Digit (a % 4 * 16 + b / 16), base64Digit (b % 16 * 4)]
  | [a] => [base64Digit (a / 4), base64Digit (a % 4 * 16)]
  | [] => []

def execution : ExecutionId := ⟨Vector.replicate 32 1⟩

/-- The registered P-256 key of a client. -/
def client : ClientIdentity :=
  bytesOf 65 0x047135fa4fd93a09dce98bbf681b4bfcf50e7c0d6354e62afb0bff2a3429617865ed4c1f02ddb9023ee56a557e515d6a9dc66c11f220960de594334df588776724

/-- The P-256 key that its sessions sign requests with. -/
def requestKey : Bytes :=
  bytesOf 65 0x0417adbc1de77fa5af22a3414cfc950e493e11597d5b4e2161d2bbbc91bd9e566259115fb966343e7f07e0c3621b430b3c9f4c2df928be60c28920efccd2fa1281

def ecdhKeyA : Bytes := utf8 "ecdh-key-a"

def ecdhKeyB : Bytes := utf8 "ecdh-key-b"

def rpIdHash : Vector UInt8 32 := digest 0xe0d72cab76f513157dedd619d8d4abcb17d7198c0741a4f49b27c60cc98fbb2f

def challengeA : Nat := 0x5b1ef93eb7de1bc7b0c5502b905fe01c728ee995037b927fd677e608f380cde9

def challengeB : Nat := 0x1d2c4d4c7e52561ada6bb2cd98d3823b04c064c4eafc0a270bac8ab9b521f3f6

def challengeTextA : String := "Wx75PrfeG8ewxVArkF_gHHKO6ZUDe5J_1nfmCPOAzek"

def challengeTextB : String := "HSxNTH5SVhraa7LNmNOCOwTAZMTq_AonC6yKubUh8_Y"

def clientDataJson (challenge : String) : Bytes :=
  utf8 "\x7b\"challenge\":\"" ++ utf8 challenge ++ utf8 "\",\"origin\":\"" ++ utf8 "https://vote.example.com" ++
    utf8 "\",\"type\":\"webauthn.get\"\x7d"

/-- What an authenticator signs around the client data: who asks, that the user
was present and verified, and the count. -/
def authenticatorData (count : UInt8) : Bytes := rpIdHash.toList ++ [5, 0, 0, 0, count]

/-- What the client's authenticator signed for the first ceremony. -/
def signatureA : Bytes :=
  bytesOf 71 0x304502206d6d180ccf850c5870890e822e6d511755be52320778301b9bc5acb029702ef1022100f1948c3ccc198ede8fb4178c8c81ff3b840f16ec49678a24decc2acc45cb8812

def signatureB : Bytes :=
  bytesOf 71 0x3045022100c237b9703f817fe2546918250c0815c2728b61244246ae100956eb04d7d5261602204ef16d4c902e1ec72719b816c5f5e4e9479ef302d269ce036e776e302ab347fa

def bindA : BindWebauthnIdentity :=
  ⟨execution, ⟨authenticatorData 1, clientDataJson challengeTextA, signatureA⟩, requestKey, ecdhKeyA, []⟩

def bindB : BindWebauthnIdentity :=
  ⟨execution, ⟨authenticatorData 2, clientDataJson challengeTextB, signatureB⟩, requestKey, ecdhKeyB, []⟩

def draw (byte : UInt8) : Vector UInt8 32 := Vector.replicate 32 byte

def reserveBody : Bytes := utf8 "[0]"

def submitBody : Bytes := utf8 "\x7b\"reserved_indices\":[0],\"masked_inputs\":[[7]]\x7d"

def sessionToken : String := "QUFBQUFBQUFBQUFBQUFBQUFBQUFBQUFBQUFBQUFBQUE"

def reserveSignature : Bytes :=
  bytesOf 64 0x29c2884415c78695e16092e6a40b59327a5c7d82eacd166e1e563be442247e99f4c13bd00d64a0e0c82cb0fcb6470be8ac09ffe89707afa09ec2efe695bb0555

def submitSignature : Bytes :=
  bytesOf 64 0x818810f2565de93c5ed1237ee8ec29c512e7d8739fd7d482d46523f8a0210e82b32169872bf35ade254c921389e239b92105730c8d8568b126205c136d75c50a

/-- The two requests of the first session, and what it signed for them. -/
def reserveCall : BrowserCall :=
  ⟨execution, ⟨requestKey, 1700000000, List.replicate 16 1, reserveSignature, reserveBody, sessionToken⟩⟩

def submitCall : BrowserCall :=
  ⟨execution, ⟨requestKey, 1700000000, List.replicate 16 2, submitSignature, submitBody, sessionToken⟩⟩

def reserveMessage : Bytes :=
  bytesOf 185 0x73746f6666656c2d62726f777365722d7270632d617574680062726f777365725f726573657276655f6d61736b5f696e646963657300010101010101010101010101010101010101010101010101010101010101010100f153650000000001010101010101010101010101010101d0bca111f8628137adc4c16f123496dcdd1d590d06cb5d9acd68b39fe656fb9751554642515546425155464251554642515546425155464251554642515546425155464251554642515545

def submitMessage : Bytes :=
  bytesOf 185 0x73746f6666656c2d62726f777365722d7270632d617574680062726f777365725f7375626d69745f6d61736b65645f696e7075747300010101010101010101010101010101010101010101010101010101010101010100f1536500000000020202020202020202020202020202024cc9427a95f552c1b6edf458ede25b79ade5022c32ed842ec8f8778c01a66bc651554642515546425155464251554642515546425155464251554642515546425155464251554642515545

/-- The signatures that verify: key, message and signature. -/
def verified : List (Bytes × Bytes × Bytes) :=
  [(client, authenticatorData 1 ++ bytesOf 32 0xd91494e6ad1026ed2f7089ce6a9ed5e04c47a7db7c0c4688a3201bbecd3a44ff, signatureA),
    (client, authenticatorData 2 ++ bytesOf 32 0x67a70199cb8571e3698edc182a3f297682c89818b23100cef57547ad76218e00, signatureB),
    (requestKey, reserveMessage, reserveSignature),
    (requestKey, submitMessage, submitSignature)]

/-- The values of SHA-256 that the requests need. -/
def hashed : List (Bytes × Nat) :=
  [(utf8 "stoffel-browser-webauthn-bind-v1" ++ requestKey ++ ecdhKeyA, challengeA),
    (utf8 "stoffel-browser-webauthn-bind-v1" ++ requestKey ++ ecdhKeyB, challengeB),
    (clientDataJson challengeTextA, 0xd91494e6ad1026ed2f7089ce6a9ed5e04c47a7db7c0c4688a3201bbecd3a44ff),
    (clientDataJson challengeTextB, 0x67a70199cb8571e3698edc182a3f297682c89818b23100cef57547ad76218e00),
    (reserveBody, 0xd0bca111f8628137adc4c16f123496dcdd1d590d06cb5d9acd68b39fe656fb97),
    (submitBody, 0x4cc9427a95f552c1b6edf458ede25b79ade5022c32ed842ec8f8778c01a66bc6)]

end Scenario

/-- The library functions, as far as the requests of one client need them: the
results are those of the libraries themselves. -/
def Primitives.recorded : Primitives where
  VerifyingKey := Bytes
  Signature := Bytes
  keyFromSec1Bytes key := [Scenario.client, Scenario.requestKey].find? (· == key)
  signatureFromSlice signature := (Scenario.verified.map fun entry => entry.2.2).find? (· == signature)
  signatureFromDer signature := (Scenario.verified.map fun entry => entry.2.2).find? (· == signature)
  verify key message signature := Scenario.verified.contains (key, message, signature)
  sha256 input := Scenario.digest ((Scenario.hashed.lookup input).getD 0)
  encodeBase64 bytes := String.ofList (Scenario.base64 (bytes.toList.map UInt8.toNat))
  decodeBase64 text :=
    if text = Scenario.challengeTextA then some (Scenario.bytesOf 32 Scenario.challengeA)
    else if text = Scenario.challengeTextB then some (Scenario.bytesOf 32 Scenario.challengeB)
    else none
  parseClientData json :=
    let fields := fun challenge => (⟨some "webauthn.get", some "https://vote.example.com", some challenge⟩ : ClientData)
    if json = Scenario.clientDataJson Scenario.challengeTextA then some (fields Scenario.challengeTextA)
    else if json = Scenario.clientDataJson Scenario.challengeTextB then some (fields Scenario.challengeTextB)
    else none
  parseIndices body := if body = Scenario.reserveBody then .ok [0] else .error "expected value at line 1 column 1"
  parseBatch body := if body = Scenario.submitBody then .ok ⟨[0], [[7]]⟩ else .error "expected value at line 1 column 1"

/-- A coordinator of one node that serves browsers. -/
def CoordinatorListener.recorded : CoordinatorListener where
  topology := .lone [1]
  primitives := .recorded
  rpIdHash := Scenario.rpIdHash
  origin := "https://vote.example.com"
  credentialIdIndex := Table.empty

/-- One input slot, assigned to the client. -/
def ExecutionRegistration.assigned : ExecutionRegistration :=
  { ExecutionRegistration.unassigned 1 [Scenario.client] with inputAssignment := ⟨[Scenario.client], [⟨0, 1⟩]⟩ }

namespace Scenario

def transition (round : Round) : ServerEvent := .native execution [1] (.transition round)

/-- The sections of a ceremony before its session is stored. -/
def bindStart (request : BindWebauthnIdentity) (count : UInt32) : List ServerEvent :=
  [.bindCheck request [client], .bindCount request client count]

def authenticate (method : BrowserMethod) (call : BrowserCall) (nonce : UInt8) : List ServerEvent :=
  [.identify method call, .readClock method call (Vector.replicate 16 nonce) client 1700000001,
    .acceptNonce method call (Vector.replicate 16 nonce) client 1700000001]

/-- A browser client binds a session, and reserves index zero with it. -/
def opening (registration : ExecutionRegistration) : List ServerEvent :=
  [.register [1] registration [], transition .preprocessing, transition .inputMaskReservation] ++ bindStart bindA 1 ++
    [.bindInsert bindA client [draw 65]] ++ authenticate .reserveMaskIndices reserveCall 1 ++
    [.reserve reserveCall client fun _ => true, transition .inputCollection]

def submission : List ServerEvent :=
  authenticate .submitMaskedInputs submitCall 2 ++ [.submit submitCall client]

def completion : List ServerEvent :=
  [.finish submitCall client fun _ => true, .pin submitCall client]

end Scenario

namespace CoordinatorBrowserState

open Scenario in
/-- A run in which a browser client reserves and submits. -/
theorem input_provenance_of_browser_client :
    ∃ trace final d, Run (Step .recorded) start trace final ∧ final.live execution = some d ∧
      d.maskedInputs = [some [7]] ∧ d.reservedIndices = [some client] ∧
      ∃ τ ∈ callsOn .recorded execution trace, SubmittedIn τ client 0 [7] := by
  obtain ⟨trace, final, run, _, seen, _⟩ := exists_run_of_events .recorded
    (opening .assigned ++ submission ++ completion) (fun _ _ => true) (fun s => (s.live execution).map fun d =>
      (d.maskedInputs, d.reservedIndices)) (some ([some [7]], [some client])) (by decide +kernel)
  obtain ⟨d, here, tables⟩ := Option.map_eq_some_iff.mp seen
  obtain ⟨inputs, owners⟩ := Prod.mk.inj tables
  obtain ⟨id, owner, τ, member, submitted⟩ :=
    ((input_provenance run).1 execution d here).submitted 0 [7] (by rw [inputs]; rfl)
  rw [owners] at owner
  obtain rfl : client = id := Option.some.inj owner
  exact ⟨trace, final, d, run, here, inputs, owners, τ, member, submitted⟩

end CoordinatorBrowserState

end MpcCoordinator
