import MpcCoordinator.Node.Server
import MpcCoordinator.Node.Wakeup
import MpcCoordinator.Browser.Authentication

namespace MpcCoordinator

namespace NodeBrowserState

variable {listener : NodeListener} {s s' final : NodeBrowserState} {event : NodeBindEvent}
  {trace : List (Transition NodeBrowserState NodeBindEvent)}

/-- What a step can do: one section of a ceremony, with all that it checks and stores. -/
inductive Runs (listener : NodeListener) (s : NodeBrowserState) : NodeBindEvent → NodeBrowserState → Prop
  | rejected {request} : Runs listener s (.verify request) s
  | verified {request signCount} : listener.verifyBind request = .ok signCount →
      Runs listener s (.verify request) { s with inFlight := .verified request signCount :: s.inFlight }
  | refused {request signCount} :
      Runs listener s (.count request signCount) { s with inFlight := s.inFlight.erase (.verified request signCount) }
  | counted {request signCount signCounts} : .verified request signCount ∈ s.inFlight →
      Runs listener s (.count request signCount) { s with
        signCounts := signCounts
        inFlight := .counted request :: s.inFlight.erase (.verified request signCount) }
  | inserted {request draws token} : .counted request ∈ s.inFlight →
      s.bindings.freshToken listener.primitives.encodeBase64 draws = some token →
      Runs listener s (.insert request draws) { s with
        bindings := s.bindings.insert none ⟨request.clientIdentity, request.ecdsaPublicKey, request.ecdhPublicKey⟩ token
        inFlight := s.inFlight.erase (.counted request) }

theorem Step.runs (step : s.Step listener event s') : Runs listener s event s' := by
  unfold Step next at step
  split at step
  · split at step
    · cases step
      exact .rejected
    · rename_i passed
      cases step
      exact .verified passed
  · split at step
    · rename_i flying
      split at step <;> cases step
      · exact .refused
      · exact .counted flying
    · cases step
  · split at step
    · rename_i flying
      obtain ⟨token, fresh, rfl⟩ := Option.map_eq_some_iff.mp step
      exact .inserted flying fresh
    · cases step

/-- A ceremony went through all its sections, in their order, on an assertion
that verified under the key it names. -/
def CeremonyIn (listener : NodeListener) (events : List NodeBindEvent) (request : BindWebauthnIdentityToNode) : Prop :=
  ∃ signCount draws, listener.verifyBind request = .ok signCount ∧
    [.verify request, .count request signCount, .insert request draws].Sublist events

/-- How far the ceremonies in flight have come. -/
structure Underway (listener : NodeListener) (events : List NodeBindEvent) (s : NodeBrowserState) : Prop where
  verified : ∀ request signCount, .verified request signCount ∈ s.inFlight →
    listener.verifyBind request = .ok signCount ∧ [.verify request].Sublist events
  counted : ∀ request, .counted request ∈ s.inFlight → ∃ signCount, listener.verifyBind request = .ok signCount ∧
    [.verify request, .count request signCount].Sublist events

theorem Underway.step {events : List NodeBindEvent} (underway : Underway listener events s)
    (step : s.Step listener event s') : Underway listener (events ++ [event]) s' := by
  have later : ∀ {done : List NodeBindEvent}, done.Sublist events → done.Sublist (events ++ [event]) := fun earlier =>
    earlier.trans (List.sublist_append_left _ _)
  have verified : ∀ request signCount, .verified request signCount ∈ s.inFlight →
      listener.verifyBind request = .ok signCount ∧ [.verify request].Sublist (events ++ [event]) := by
    intro request signCount member
    obtain ⟨passed, earlier⟩ := underway.verified request signCount member
    exact ⟨passed, later earlier⟩
  have counted : ∀ request, .counted request ∈ s.inFlight → ∃ signCount, listener.verifyBind request = .ok signCount ∧
      [.verify request, .count request signCount].Sublist (events ++ [event]) := by
    intro request member
    obtain ⟨signCount, passed, earlier⟩ := underway.counted request member
    exact ⟨signCount, passed, later earlier⟩
  cases step.runs with
  | rejected => exact ⟨verified, counted⟩
  | refused | inserted =>
    exact ⟨fun request signCount member => verified request signCount (List.mem_of_mem_erase member),
      fun request member => counted request (List.mem_of_mem_erase member)⟩
  | verified passed =>
    refine ⟨fun request signCount member => ?_, fun request member => ?_⟩
    · rcases List.mem_cons.mp member with same | old
      · cases same
        exact ⟨passed, List.sublist_append_right _ _⟩
      · exact verified request signCount old
    · rcases List.mem_cons.mp member with same | old
      · cases same
      · exact counted request old
  | @counted request signCount _ flying =>
    refine ⟨fun other count member => ?_, fun other member => ?_⟩
    · rcases List.mem_cons.mp member with same | old
      · cases same
      · exact verified other count (List.mem_of_mem_erase old)
    · rcases List.mem_cons.mp member with same | old
      · cases same
        obtain ⟨passed, earlier⟩ := underway.verified request signCount flying
        exact ⟨signCount, passed, earlier.append (List.Sublist.refl _)⟩
      · exact counted other (List.mem_of_mem_erase old)

theorem underway_of_run (run : Run (Step listener) start trace final) :
    Underway listener (trace.map Transition.event) final := by
  induction run with
  | start => exact ⟨by simp [start], by simp [start]⟩
  | next _ step ih =>
    rw [List.map_append]
    exact ih.step step

/-- What a step does to the sessions of a node. -/
theorem Step.sessions (step : s.Step listener event s') : s'.bindings = s.bindings ∨
    ∃ request draws token, event = .insert request draws ∧ .counted request ∈ s.inFlight ∧
      s.bindings.freshToken listener.primitives.encodeBase64 draws = some token ∧ s'.bindings =
        s.bindings.insert none ⟨request.clientIdentity, request.ecdsaPublicKey, request.ecdhPublicKey⟩ token := by
  cases step.runs with
  | rejected | verified | refused | counted => exact Or.inl rfl
  | inserted flying fresh => exact Or.inr ⟨_, _, _, rfl, flying, fresh, rfl⟩

theorem Step.byToken_kept (step : s.Step listener event s') {token : String} {binding : WebauthnBinding}
    (stored : s.bindings.byToken token = some binding) : s'.bindings.byToken token = some binding := by
  rcases step.sessions with same | ⟨_, _, _, _, _, fresh, same⟩
  · rw [same]
    exact stored
  · rw [same]
    exact WebauthnBindings.byToken_insert (WebauthnBindings.freshToken_vacant fresh) stored

/-- Every session of a node was stored by a ceremony for its identity and key. -/
theorem session_bound (run : Run (Step listener) start trace final) {token : String} {binding : WebauthnBinding}
    (stored : final.bindings.byToken token = some binding) :
    ∃ request, CeremonyIn listener (trace.map Transition.event) request ∧
      binding = ⟨request.clientIdentity, request.ecdsaPublicKey, request.ecdhPublicKey⟩ := by
  induction run with
  | start => cases stored
  | @next earlier current event after previous step ih =>
    have known : current.bindings.byToken token = some binding →
        ∃ request, CeremonyIn listener (earlier.map Transition.event ++ [event]) request ∧
          binding = ⟨request.clientIdentity, request.ecdsaPublicKey, request.ecdhPublicKey⟩ := by
      intro old
      obtain ⟨request, ⟨signCount, draws, verified, done⟩, same⟩ := ih old
      exact ⟨request, ⟨signCount, draws, verified, done.trans (List.sublist_append_left _ _)⟩, same⟩
    rw [List.map_append]
    rcases step.sessions with same | ⟨request, draws, issued, rfl, flying, fresh, same⟩
    · exact known (same ▸ stored)
    rw [same] at stored
    by_cases mine : token = issued
    · subst mine
      obtain ⟨signCount, verified, done⟩ := (underway_of_run previous).counted request flying
      have bound : binding = ⟨request.clientIdentity, request.ecdsaPublicKey, request.ecdhPublicKey⟩ := by
        simpa [WebauthnBindings.insert, eq_comm] using stored
      exact ⟨request, ⟨signCount, draws, verified, done.append (List.Sublist.refl _)⟩, bound⟩
    · exact known ((Table.insert_of_ne _ _ mine).symm.trans stored)

end NodeBrowserState

/-- The call reserves an index for a client. -/
def NodeAction.Reserves {S : Type} (i : UInt64) (c : ClientIdentity) : NodeAction S → Prop
  | .addAssignedReservedIndices reservations => ∃ reservation ∈ reservations,
      reservation.reservedIndex = i ∧ reservation.client = c
  | _ => False

/-- The call brings a share of an index, with these bytes. -/
def NodeAction.Brings {S : Type} (codec : ShareCodec S) (i : UInt64) (bytes : Bytes) : NodeAction S → Prop
  | .addMaskShares shares => ∃ entry ∈ shares, entry.1 = i ∧ codec.serializeCompressed entry.2 = some bytes
  | _ => False

theorem NodeAction.Reserves.isPoll {S : Type} {action : NodeAction S} {i : UInt64} {c : ClientIdentity}
    (reserves : action.Reserves i c) : action.isPoll = false := by
  cases action with
  | addAssignedReservedIndices => rfl
  | _ => cases reserves

theorem NodeAction.Brings.isPoll {S : Type} {codec : ShareCodec S} {action : NodeAction S} {i : UInt64} {bytes : Bytes}
    (brings : action.Brings codec i bytes) : action.isPoll = false := by
  cases action with
  | addMaskShares => rfl
  | _ => cases brings

namespace NodeRPCExecutionState

variable {S : Type} {codec : ShareCodec S} {d d' : NodeRPCExecutionState} {i : UInt64} {c : ClientIdentity} {bytes : Bytes}

theorem completeRequests_store {clients : List ClientIdentity} {sent : List MaskReply} :
    (completeRequests codec clients d sent).2.indexToClient = d.indexToClient ∧
      (completeRequests codec clients d sent).2.maskShares = d.maskShares := by
  induction clients generalizing d sent with
  | nil => exact ⟨rfl, rfl⟩
  | cons id rest ih =>
    rw [completeRequests]
    split
    · exact ih
    split
    · exact ⟨rfl, rfl⟩
    · exact ih
    split
    · exact ⟨rfl, rfl⟩
    · exact ih

theorem recordReservations_reserved {reservations : List AssignedMaskReservation}
    (owned : (reservations.foldl recordReservation d).indexToClient i = some c) :
    d.indexToClient i = some c ∨ ∃ reservation ∈ reservations, reservation.reservedIndex = i ∧ reservation.client = c := by
  induction reservations generalizing d with
  | nil => exact Or.inl owned
  | cons reservation rest ih =>
    rcases ih owned with before | ⟨later, member, mine⟩
    · simp only [recordReservation, Table.insert_apply] at before
      split at before
      · rename_i same
        exact Or.inr ⟨reservation, List.mem_cons_self, same.symm, Option.some.inj before⟩
      · exact Or.inl before
    · exact Or.inr ⟨later, List.mem_cons_of_mem _ member, mine⟩

theorem recordShares_brought {shares : List (UInt64 × S)} {touched : List ClientIdentity}
    (stored : (recordShares codec shares d touched).2.maskShares i = some bytes) :
    d.maskShares i = some bytes ∨ ∃ entry ∈ shares, entry.1 = i ∧ codec.serializeCompressed entry.2 = some bytes := by
  induction shares generalizing d touched with
  | nil => exact Or.inl stored
  | cons entry rest ih =>
    rw [recordShares] at stored
    split at stored
    · exact Or.inl stored
    rename_i shareBytes serialized
    rcases ih stored with before | ⟨later, member, brings⟩
    · simp only [recordShare, Table.insert_apply] at before
      split at before
      · rename_i same
        cases before
        exact Or.inr ⟨entry, List.mem_cons_self, same.symm, serialized⟩
      · exact Or.inl before
    · exact Or.inr ⟨later, List.mem_cons_of_mem _ member, brings⟩

theorem sends_snd {ε : Type} (result : Except ε (List MaskReply) × NodeRPCExecutionState) :
    (sends result).2 = result.2 := by
  obtain ⟨_ | _, _⟩ := result <;> rfl

/-- A call leaves the owners and shares as they are, or stores its batch. -/
theorem Step.store {call : NodeCall S} (step : d.Step codec call d') :
    d'.indexToClient = d.indexToClient ∧ d'.maskShares = d.maskShares ∨
      d'.indexToClient = (d.recorded codec call.action).indexToClient ∧
        d'.maskShares = (d.recorded codec call.action).maskShares := by
  obtain ⟨action, replies⟩ := call
  have after : (d.respond codec action).2 = d' := by rw [show d.respond codec action = (replies, d') from step]
  rw [← after]
  cases action with
  | addAssignedReservedIndices reservations =>
    rw [respond, sends_snd, addAssignedReservedIndices]
    split
    · exact Or.inl ⟨rfl, rfl⟩
    · exact Or.inr completeRequests_store
  | addMaskShares shares =>
    rw [respond, sends_snd, addMaskShares]
    split
    · exact Or.inl ⟨rfl, rfl⟩
    split
    · rename_i done
      rw [recorded, done]
      exact Or.inr ⟨rfl, rfl⟩
    · rename_i done
      rw [recorded, done]
      exact Or.inr completeRequests_store
  | receiveAssignedMaskShares id start count accepted =>
    rw [respond, sends_snd]
    unfold receiveAssignedMaskShares
    split
    · exact Or.inl ⟨rfl, rfl⟩
    · split
      · exact Or.inl ⟨rfl, rfl⟩
      split <;> exact Or.inl ⟨rfl, rfl⟩
    · split <;> exact Or.inl ⟨rfl, rfl⟩
  | browserAssignedMaskShares identity range =>
    rw [respond]
    split <;> exact Or.inl ⟨rfl, rfl⟩

theorem Step.reserves {call : NodeCall S} (step : d.Step codec call d') (vacant : d.indexToClient i ≠ some c)
    (owned : d'.indexToClient i = some c) : call.action.Reserves i c := by
  rcases step.store with ⟨same, _⟩ | ⟨same, _⟩
  · exact absurd (same ▸ owned) vacant
  rw [same] at owned
  cases action : call.action with
  | addAssignedReservedIndices reservations =>
    rw [action] at owned
    exact (recordReservations_reserved owned).resolve_left vacant
  | addMaskShares shares =>
    rw [action, recorded, (recordShares_frame (Prod.eta _).symm).1] at owned
    exact absurd owned vacant
  | receiveAssignedMaskShares | browserAssignedMaskShares =>
    rw [action] at owned
    exact absurd owned vacant

theorem Step.brings {call : NodeCall S} (step : d.Step codec call d') (vacant : d.maskShares i ≠ some bytes)
    (stored : d'.maskShares i = some bytes) : call.action.Brings codec i bytes := by
  rcases step.store with ⟨_, same⟩ | ⟨_, same⟩
  · exact absurd (same ▸ stored) vacant
  rw [same] at stored
  cases action : call.action with
  | addAssignedReservedIndices reservations =>
    rw [action, recorded, recordReservations_shares] at stored
    exact absurd stored vacant
  | addMaskShares shares =>
    rw [action] at stored
    exact (recordShares_brought stored).resolve_left vacant
  | receiveAssignedMaskShares | browserAssignedMaskShares =>
    rw [action] at stored
    exact absurd stored vacant

variable {seen : List (Transition NodeRPCExecutionState (NodeCall S))}

/-- Every owner of an index was named by a reservation call. -/
theorem reserved_of_run (run : Run (Step codec) new seen d) (owned : d.indexToClient i = some c) :
    ∃ τ ∈ seen, τ.event.action.Reserves i c := by
  obtain ⟨τ, member, vacant, there⟩ := run.exists_change (Q := fun d => d.indexToClient i = some c) (by simp [new]) owned
  exact ⟨τ, member, (run.taken_of_mem member).reserves vacant there⟩

/-- Every stored share was brought by a call. -/
theorem brought_of_run (run : Run (Step codec) new seen d) (stored : d.maskShares i = some bytes) :
    ∃ τ ∈ seen, τ.event.action.Brings codec i bytes := by
  obtain ⟨τ, member, vacant, there⟩ := run.exists_change (Q := fun d => d.maskShares i = some bytes) (by simp [new]) stored
  exact ⟨τ, member, (run.taken_of_mem member).brings vacant there⟩

end NodeRPCExecutionState

namespace Scenario

def rangeBody : Bytes := utf8 "\x7b\"start\":0,\"count\":2\x7d"

def rangeSignature : Bytes :=
  bytesOf 64 0x0f3b6fd22dd955ff5e84cdc3a2fadc521102ac3c201d210610daf1e0f62d62a7b59d4a5cc11dab5a37dc5c331bf961a659743d4984ed19b90cdf7444dea2499e

/-- A poll of the client's session for its two shares. -/
def rangeCall : BrowserCall :=
  ⟨execution, ⟨requestKey, 1700000000, List.replicate 16 4, rangeSignature, rangeBody, sessionToken⟩⟩

def rangeMessage : Bytes :=
  bytesOf 185 0x73746f6666656c2d62726f777365722d7270632d617574680062726f777365725f61737369676e65645f6d61736b5f73686172657300010101010101010101010101010101010101010101010101010101010101010100f1536500000000040404040404040404040404040404042d7ecb87bf4d97b7f592af2d20762518c918264dc3be683b5c5d3873d503966751554642515546425155464251554642515546425155464251554642515546425155464251554642515545

/-- The library functions, with the signature and the hash of the poll. -/
def rangePrimitives : Primitives :=
  { Primitives.recorded with
    VerifyingKey := Bytes
    Signature := Bytes
    keyFromSec1Bytes := Primitives.recorded.keyFromSec1Bytes
    signatureFromDer := Primitives.recorded.signatureFromDer
    signatureFromSlice := fun signature =>
      if signature = rangeSignature then some signature else Primitives.recorded.signatureFromSlice signature
    verify := fun key message signature =>
      decide ((key, message, signature) = (requestKey, rangeMessage, rangeSignature)) ||
        Primitives.recorded.verify key message signature
    sha256 := fun input =>
      if input = rangeBody then digest 0x2d7ecb87bf4d97b7f592af2d20762518c918264dc3be683b5c5d3873d5039667
      else Primitives.recorded.sha256 input }

/-- A node that stores machine integers as shares. -/
def machineNode : NodeTransport UInt64 where
  codec := NodeRPCExecutionState.machineCodec
  listener := { nodeListener with primitives := rangePrimitives }
  parseRange body := if body = rangeBody then .ok ⟨0, 2⟩ else .error "expected value at line 1 column 1"

def reservePair : NodeAction UInt64 := .addAssignedReservedIndices [⟨client, 0, 0⟩, ⟨client, 1, 1⟩]

def bringPair : NodeAction UInt64 := .addMaskShares [(1, 8), (0, 7)]

def pairReply : MaskReply := ⟨client, 0, 2, [⟨0, leBytes64 7⟩, ⟨1, leBytes64 8⟩]⟩

/-- A client binds a session and polls for its shares. Its execution is retired
and registered anew before the poll reads them. -/
def retiredWhilePolled : List (NodeEvent UInt64) :=
  [.register execution, .call execution reservePair, .act (.calling 0 reservePair) [], .call execution bringPair,
    .act (.calling 0 bringPair) [], .bind (.verify nodeBind), .bind (.count nodeBind 1),
    .bind (.insert nodeBind [draw 65]), .identify rangeCall,
    .acceptNonce rangeCall (Vector.replicate 16 4) client 1700000001, .locate rangeCall client, .retire execution,
    .register execution, .act (.polling 0 rangeCall client ⟨0, 2⟩) [pairReply]]

end Scenario

namespace NodeServerState

variable {S : Type} [DecidableEq S] {transport : NodeTransport S} {s s' final : NodeServerState S} {event : NodeEvent S}
  {trace : List (Transition (NodeServerState S) (NodeEvent S))} {e : ExecutionId} {h : Nat}

/-- The ceremonies of a node are those of its browser tables. -/
def ceremonies (transport : NodeTransport S) : Refinement (Step transport) (NodeBrowserState.Step transport.listener) where
  view := browser
  label _ event :=
    match event with
    | .bind event => some event
    | _ => none
  Sound _ := True
  kept _ _ := trivial
  seen := by
    intro s event s' _ step
    cases step.effect with
    | unregistered | registered | retired | lost | called | unidentified | identified | refused | accepted | unlocated |
        located | acted => exact Or.inl ⟨rfl, rfl⟩
    | bound moved => exact Or.inr ⟨_, rfl, moved⟩

/-- A session, once stored, keeps its binding. -/
theorem Step.byToken_kept (step : s.Step transport event s') {token : String} {binding : WebauthnBinding}
    (stored : s.browser.bindings.byToken token = some binding) : s'.browser.bindings.byToken token = some binding := by
  rcases (ceremonies transport).seen trivial step with ⟨_, same⟩ | ⟨_, _, moved⟩
  · rw [show s'.browser = s.browser from same]
    exact stored
  · exact NodeBrowserState.Step.byToken_kept moved stored

/-- A native call was given the handle under the id. -/
def CalledIn (trace : List (Transition (NodeServerState S) (NodeEvent S))) (e : ExecutionId) (h : Nat)
    (action : NodeAction S) : Prop :=
  ∃ τ ∈ trace, τ.event = .call e action ∧ τ.source.executionState e = some h

/-- A poll was given the handle under the id that it is signed for. -/
def LocatedIn (trace : List (Transition (NodeServerState S) (NodeEvent S))) (call : BrowserCall)
    (identity : ClientIdentity) (h : Nat) : Prop :=
  ∃ τ ∈ trace, τ.event = .locate call identity ∧ τ.source.executionState call.executionId = some h

/-- The nonce of a signed request was accepted. -/
def AcceptedIn (trace : List (Transition (NodeServerState S) (NodeEvent S))) (call : BrowserCall)
    (identity : ClientIdentity) : Prop :=
  ∃ τ ∈ trace, ∃ nonce now, τ.event = .acceptNonce call nonce identity now ∧
    (τ.source.nonces.accept call.executionId identity call.request.created nonce now).1 = .ok ()

/-- The signature of a request verifies, and its session is bound to the
identity and to the key that signed it. -/
def Authentic (transport : NodeTransport S) (s : NodeServerState S) (call : BrowserCall) (identity : ClientIdentity) :
    Prop :=
  transport.listener.primitives.Signed assignedMaskSharesMethod call ∧
    ∃ binding, s.browser.bindings.byToken call.request.sessionToken = some binding ∧ binding.clientIdentity = identity ∧
      binding.ecdsaPublicKey = call.request.publicKey

/-- What a call in flight has been through. -/
def Accounts (transport : NodeTransport S) (trace : List (Transition (NodeServerState S) (NodeEvent S)))
    (s : NodeServerState S) : NodeTask S → Prop
  | .calling h action => action.isPoll = false ∧ ∃ e, CalledIn trace e h action
  | .identified call _ identity => Authentic transport s call identity
  | .authenticated call identity => Authentic transport s call identity ∧ AcceptedIn trace call identity
  | .polling h call identity range => Authentic transport s call identity ∧ AcceptedIn trace call identity ∧
      LocatedIn trace call identity h ∧ transport.parseRange call.request.body = .ok range

theorem Authentic.step {call : BrowserCall} {identity : ClientIdentity} (authentic : Authentic transport s call identity)
    (step : s.Step transport event s') : Authentic transport s' call identity := by
  obtain ⟨signed, binding, stored, same⟩ := authentic
  exact ⟨signed, binding, step.byToken_kept stored, same⟩

theorem Accounts.step {task : NodeTask S} (accounts : Accounts transport trace s task) (step : s.Step transport event s') :
    Accounts transport (trace ++ [⟨s, event, s'⟩]) s' task := by
  have later : ∀ {P : Transition (NodeServerState S) (NodeEvent S) → Prop}, (∃ τ ∈ trace, P τ) →
      ∃ τ ∈ trace ++ [⟨s, event, s'⟩], P τ := by
    rintro P ⟨τ, member, holds⟩
    exact ⟨τ, List.mem_append_left _ member, holds⟩
  cases task with
  | calling h action =>
    obtain ⟨native, e, called⟩ := accounts
    exact ⟨native, e, later called⟩
  | identified call nonce identity => exact Authentic.step accounts step
  | authenticated call identity => exact ⟨accounts.1.step step, later accounts.2⟩
  | polling h call identity range =>
    obtain ⟨authentic, accepted, located, parsed⟩ := accounts
    exact ⟨authentic.step step, later accepted, later located, parsed⟩

theorem accounts_of_run (run : Run (Step transport) start trace final) :
    ∀ task ∈ final.inFlight, Accounts transport trace final task := by
  induction run with
  | start => simp [start]
  | @next earlier current event after _ step ih =>
    intro task member
    rcases step.arrives member with old | new
    · exact (ih task old).step step
    cases new with
    | calling here native => exact ⟨native, _, ⟨current, _, after⟩, by simp, rfl, here⟩
    | identified verified found =>
      obtain ⟨binding, stored, same⟩ := WebauthnBindings.identify_ok found
      exact ⟨(Primitives.verifySignedRequest_ok verified).1, binding, step.byToken_kept stored, same⟩
    | authenticated flying accepted =>
      exact ⟨Authentic.step (ih _ flying) step, ⟨current, _, after⟩, by simp, _, _, rfl, accepted⟩
    | polling flying parsed here =>
      obtain ⟨authentic, accepted⟩ := (ih _ flying).step step
      exact ⟨authentic, accepted, ⟨⟨current, _, after⟩, by simp, rfl, here⟩, parsed⟩

theorem handles_call {τ : Transition (NodeServerState S) (NodeEvent S)} {action : NodeAction S} {replies : List MaskReply}
    (called : (handles transport).call τ.event = some (h, ⟨action, replies⟩)) :
    ∃ task, τ.event = .act task replies ∧ task.onExecution = some (h, action) := by
  obtain ⟨s, event, s'⟩ := τ
  cases event with
  | act task sent =>
    obtain ⟨held, onExecution, same⟩ := Option.map_eq_some_iff.mp called
    cases same
    exact ⟨task, rfl, onExecution⟩
  | _ => cases called

/-- The call was given the handle under the id, in one way or the other. -/
def Directed (trace : List (Transition (NodeServerState S) (NodeEvent S))) (e : ExecutionId) (h : Nat)
    (action : NodeAction S) : Prop :=
  CalledIn trace e h action ∨ ∃ call identity range, action = .browserAssignedMaskShares identity range ∧
    call.executionId = e ∧ LocatedIn trace call identity h

/-- Whatever runs a section on an execution was let in before, by all it takes. -/
theorem accounts_of_call (run : Run (Step transport) start trace final)
    {call : NodeCall S} (member : call ∈ (handles transport).callsOn h trace) :
    ∃ before τ task, before ++ [τ] <+: trace ∧ Run (Step transport) start before τ.source ∧
      Accounts transport before τ.source task ∧ task.onExecution = some (h, call.action) := by
  obtain ⟨τ, inside, called⟩ := (handles transport).mem_callsOn.mp member
  obtain ⟨task, acts, onExecution⟩ := handles_call called
  obtain ⟨before, after, rfl, first, step, _⟩ := run.split inside
  have flying : task ∈ τ.source.inFlight := by
    rw [acts] at step
    exact step.flying
  exact ⟨before, τ, task, ⟨after, by simp⟩, first, accounts_of_run first task flying, onExecution⟩

/-- The handle that a call was given belongs to the registration of its id. -/
theorem registrations_of_located (run : Run (Step transport) start trace final)
    {τ : Transition (NodeServerState S) (NodeEvent S)} (member : τ ∈ trace) (here : τ.source.executionState e = some h) :
    (registrations trace)[h]? = some e := by
  obtain ⟨before, after, rfl, first, _, _⟩ := run.split member
  have name := (named_of_run first).name e h here
  rw [registrations_append, List.getElem?_append_left (List.getElem?_eq_some_iff.mp name).1]
  exact name

theorem Directed.registered {action : NodeAction S} (directed : Directed trace e h action)
    (run : Run (Step transport) start trace final) : (registrations trace)[h]? = some e := by
  rcases directed with ⟨τ, member, _, here⟩ | ⟨call, identity, range, _, rfl, τ, member, _, here⟩
  · exact registrations_of_located run member here
  · exact registrations_of_located run member here

omit [DecidableEq S] in
theorem Accounts.directed {before : List (Transition (NodeServerState S) (NodeEvent S))} {task : NodeTask S}
    {action : NodeAction S} (accounts : Accounts transport before s task)
    (onExecution : task.onExecution = some (h, action)) : ∃ e, Directed before e h action := by
  cases task with
  | calling place own =>
    cases onExecution
    obtain ⟨_, e, called⟩ := accounts
    exact ⟨e, Or.inl called⟩
  | polling place call identity range =>
    cases onExecution
    exact ⟨call.executionId, Or.inr ⟨call, identity, range, rfl, rfl, accounts.2.2.1⟩⟩
  | identified | authenticated => cases onExecution

omit [DecidableEq S] in
theorem Directed.append {action : NodeAction S} {before : List (Transition (NodeServerState S) (NodeEvent S))}
    (directed : Directed before e h action) (earlier : before <+: trace) : Directed trace e h action := by
  rcases directed with ⟨τ, member, called⟩ | ⟨call, identity, range, poll, same, τ, member, located⟩
  · exact Or.inl ⟨τ, earlier.subset member, called⟩
  · exact Or.inr ⟨call, identity, range, poll, same, τ, earlier.subset member, located⟩

/-- Executions of a node do not share anything, whatever is registered, retired
and registered again while calls are under way. There are never more than the
capacity admits, none has the zero id, and an id leads to its last registration.
The state that a registration made is the outcome of the calls that were given
its handle, and these came under its own id. -/
theorem node_executions_isolated (run : Run (Step transport) start trace final) :
    final.executions.keys.card ≤ defaultMaxConcurrentExecutions ∧
    (∀ e h, final.executionState e = some h → e.isZero = false ∧ (registrations trace)[h]? = some e ∧
      ∀ later, (registrations trace)[later]? = some e → later ≤ h) ∧
    final.states.length = (registrations trace).length ∧
    ∀ h d, final.states[h]? = some d → ∃ e seen, (registrations trace)[h]? = some e ∧
      Run (NodeRPCExecutionState.Step transport.codec) .new seen d ∧
      seen.map Transition.event = (handles transport).callsOn h trace ∧
      ∀ call ∈ (handles transport).callsOn h trace, Directed trace e h call.action := by
  have named := named_of_run run
  refine ⟨named.bounded, fun e h here => ⟨named.nonzero e h here, named.name e h here, fun later => named.latest e h later here⟩,
    named.count, fun h d here => ?_⟩
  obtain ⟨seen, own, events⟩ := (handles transport).exists_run_on rfl run here
  have inside : h < (registrations trace).length := by
    rw [← named.count]
    exact (List.getElem?_eq_some_iff.mp here).1
  refine ⟨(registrations trace)[h], seen, List.getElem?_eq_getElem inside, own, events, fun call member => ?_⟩
  obtain ⟨before, τ, task, earlier, _, accounts, onExecution⟩ := accounts_of_call run member
  obtain ⟨e, early⟩ := accounts.directed onExecution
  have directed := early.append ((List.prefix_append _ _).trans earlier)
  have mine := directed.registered run
  rw [List.getElem?_eq_getElem inside] at mine
  exact Option.some.inj mine ▸ directed

section Runs

open Scenario

theorem exists_run_of_events {β : Type} (transport : NodeTransport S) (events : List (NodeEvent S))
    (view : NodeServerState S → β) (seen : β)
    (done : (Run.execute (fun s event => s.next transport event) start events).map view = some seen) :
    ∃ trace final, Run (Step transport) start trace final ∧ trace.map Transition.event = events ∧ view final = seen :=
  Run.exists_of_execute (fun _ _ _ moved => moved) done

/-- The poll has read the state of the first registration, and the id leads to the second. -/
theorem node_executions_isolated_of_retired :
    ∃ trace final, Run (Step machineNode) start trace final ∧ trace.map Transition.event = retiredWhilePolled ∧
      final.executionState execution = some 1 ∧ (registrations trace)[1]? = some execution ∧
      final.states.length = (registrations trace).length := by
  obtain ⟨trace, final, run, events, here⟩ := exists_run_of_events machineNode retiredWhilePolled
    (fun s => s.executionState execution) (some 1) (by decide +kernel)
  obtain ⟨_, names, count, _⟩ := node_executions_isolated run
  exact ⟨trace, final, run, events, here, (names execution 1 here).2.1, count⟩

end Runs

/-- How a client came to ask for what it is sent: by a native subscription in its
own name, or by a poll that it signed for this execution with a key that a
ceremony of its own had bound. -/
inductive RequestedIn (transport : NodeTransport S) (trace : List (Transition (NodeServerState S) (NodeEvent S)))
    (e : ExecutionId) (h : Nat) (reply : MaskReply) : Prop
  | native (accepted : Option Nat) :
      CalledIn trace e h (.receiveAssignedMaskShares reply.recipient reply.start reply.count accepted) →
      RequestedIn transport trace e h reply
  | polled (call : BrowserCall) (request : BindWebauthnIdentityToNode) : call.executionId = e →
      transport.listener.primitives.Signed assignedMaskSharesMethod call →
      transport.parseRange call.request.body = .ok ⟨reply.start, reply.count⟩ → AcceptedIn trace call reply.recipient →
      LocatedIn trace call reply.recipient h →
      NodeBrowserState.CeremonyIn transport.listener ((ceremonies transport).labels trace) request →
      request.clientIdentity = reply.recipient → request.ecdsaPublicKey = call.request.publicKey →
      RequestedIn transport trace e h reply

/-- An authentic request belongs to an identity that bound its key. -/
theorem Authentic.ceremony {call : BrowserCall} {identity : ClientIdentity} (authentic : Authentic transport s call identity)
    (run : Run (Step transport) start trace s) :
    ∃ request, NodeBrowserState.CeremonyIn transport.listener ((ceremonies transport).labels trace) request ∧
      request.clientIdentity = identity ∧ request.ecdsaPublicKey = call.request.publicKey := by
  obtain ⟨_, binding, stored, same, key⟩ := authentic
  obtain ⟨seen, ceremonial, events⟩ := (ceremonies transport).exists_run trivial run
  obtain ⟨request, ceremony, rfl⟩ := NodeBrowserState.session_bound ceremonial stored
  rw [events] at ceremony
  exact ⟨request, ceremony, same, key⟩

theorem CeremonyIn.append {before : List (Transition (NodeServerState S) (NodeEvent S))}
    {request : BindWebauthnIdentityToNode} (earlier : before <+: trace)
    (ceremony : NodeBrowserState.CeremonyIn transport.listener ((ceremonies transport).labels before) request) :
    NodeBrowserState.CeremonyIn transport.listener ((ceremonies transport).labels trace) request := by
  obtain ⟨signCount, draws, verified, done⟩ := ceremony
  exact ⟨signCount, draws, verified, done.trans (earlier.sublist.filterMap _)⟩

/-- A task that asks for shares was let in for whom and for what it asks. -/
theorem Accounts.requested {before : List (Transition (NodeServerState S) (NodeEvent S))} {task : NodeTask S}
    {action : NodeAction S} {reply : MaskReply} (accounts : Accounts transport before s task)
    (run : Run (Step transport) start before s) (onExecution : task.onExecution = some (h, action))
    (asks : action.Asks reply.recipient reply.start reply.count) : ∃ e, RequestedIn transport before e h reply := by
  cases task with
  | identified | authenticated => cases onExecution
  | calling place own =>
    cases onExecution
    obtain ⟨native, e, called⟩ := accounts
    cases action with
    | addAssignedReservedIndices | addMaskShares => cases asks
    | browserAssignedMaskShares => cases native
    | receiveAssignedMaskShares id start count accepted =>
      obtain ⟨rfl, rfl, rfl⟩ := asks
      exact ⟨e, .native accepted called⟩
  | polling place call identity range =>
    cases onExecution
    obtain ⟨rfl, start, count⟩ := asks
    obtain ⟨authentic, accepted, located, parsed⟩ := accounts
    obtain ⟨request, ceremony, same, key⟩ := authentic.ceremony run
    rw [show range = ⟨reply.start, reply.count⟩ by rw [← start, ← count]] at parsed
    exact ⟨call.executionId, .polled call request rfl authentic.1 parsed accepted located ceremony same key⟩

theorem RequestedIn.append {before : List (Transition (NodeServerState S) (NodeEvent S))} {reply : MaskReply}
    (requested : RequestedIn transport before e h reply) (earlier : before <+: trace) :
    RequestedIn transport trace e h reply := by
  have later : ∀ {P : Transition (NodeServerState S) (NodeEvent S) → Prop}, (∃ τ ∈ before, P τ) → ∃ τ ∈ trace, P τ := by
    rintro P ⟨τ, member, holds⟩
    exact ⟨τ, earlier.subset member, holds⟩
  cases requested with
  | native accepted called => exact .native accepted (later called)
  | polled call request same signed parsed accepted located ceremony identity key =>
    exact .polled call request same signed parsed (later accepted) (later located) (CeremonyIn.append earlier ceremony)
      identity key

theorem RequestedIn.registered {reply : MaskReply} (requested : RequestedIn transport trace e h reply)
    (run : Run (Step transport) start trace final) : (registrations trace)[h]? = some e := by
  cases requested with
  | native accepted called =>
    obtain ⟨τ, member, _, here⟩ := called
    exact registrations_of_located run member here
  | polled call request same signed parsed accepted located =>
    obtain ⟨τ, member, _, here⟩ := located
    exact registrations_of_located run member (same ▸ here)

omit [DecidableEq S] in
theorem CalledIn.append {action : NodeAction S} {before : List (Transition (NodeServerState S) (NodeEvent S))}
    (called : CalledIn before e h action) (earlier : before <+: trace) : CalledIn trace e h action := by
  obtain ⟨τ, member, holds⟩ := called
  exact ⟨τ, earlier.subset member, holds⟩

omit [DecidableEq S] in
/-- Nobody polls by a native call, so whatever is no poll was called. -/
theorem Accounts.called {before : List (Transition (NodeServerState S) (NodeEvent S))} {task : NodeTask S}
    {action : NodeAction S} (accounts : Accounts transport before s task)
    (onExecution : task.onExecution = some (h, action)) (native : action.isPoll = false) :
    ∃ e, CalledIn before e h action := by
  cases task with
  | calling place own =>
    cases onExecution
    exact accounts.2
  | polling =>
    cases onExecution
    cases native
  | identified | authenticated => cases onExecution

/-- The calls on an execution up to a section of it were all let in before that section. -/
theorem accounts_until {τ : Transition (NodeServerState S) (NodeEvent S)} (run : Run (Step transport) start trace τ.source)
    (step : τ.source.Step transport τ.event τ.target) {call : NodeCall S}
    (member : call ∈ (handles transport).callsOn h (trace ++ [τ])) :
    ∃ before s task, before <+: trace ∧ Run (Step transport) start before s ∧ Accounts transport before s task ∧
      task.onExecution = some (h, call.action) := by
  obtain ⟨before, ρ, task, earlier, first, accounts, onExecution⟩ := accounts_of_call (run.next step) member
  refine ⟨before, ρ.source, task, ?_, first, accounts, onExecution⟩
  rcases List.prefix_concat_iff.mp earlier with same | inside
  · obtain ⟨rfl, _⟩ := List.append_inj' same rfl
    exact List.prefix_refl _
  · exact (List.prefix_append _ _).trans inside

end NodeServerState

end MpcCoordinator
