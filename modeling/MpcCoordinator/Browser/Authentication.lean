import MpcCoordinator.Browser.Pinning

namespace MpcCoordinator

namespace CoordinatorExecutionState

variable {d : CoordinatorExecutionState} {c : ClientIdentity}

/-- A client with an assigned input, or with a right to the output. -/
def Admitted (d : CoordinatorExecutionState) (c : ClientIdentity) : Prop :=
  (∃ slot ∈ d.inputAssignments, d.inputSlotClient slot = some c) ∨ c ∈ d.outputClients

theorem mem_candidates : c ∈ d.candidates ↔ d.Admitted c := by
  simp [candidates, Admitted]

end CoordinatorExecutionState

namespace CoordinatorListener

variable {listener : CoordinatorListener} {d : CoordinatorExecutionState} {request : BindWebauthnIdentity}
  {order : List ClientIdentity} {c : ClientIdentity} {signCount : UInt32}

theorem indexedMatch_some (found : listener.indexedMatch d.candidates request = some (c, signCount)) :
    c ∈ d.candidates ∧ listener.verifyBind request c = some signCount := by
  unfold indexedMatch at found
  split at found
  · cases found
  split at found
  · cases found
  split at found
  · rename_i candidate _ member
    obtain ⟨count, verified, same⟩ := Option.map_eq_some_iff.mp found
    obtain ⟨rfl, rfl⟩ := Prod.mk.inj same
    exact ⟨member, verified⟩
  · cases found

theorem scanCandidates_some (found : listener.scanCandidates order request = some (c, signCount)) :
    c ∈ order ∧ listener.verifyBind request c = some signCount := by
  obtain ⟨candidate, member, tried⟩ := List.exists_of_findSome?_eq_some found
  obtain ⟨count, verified, same⟩ := Option.map_eq_some_iff.mp tried
  obtain ⟨rfl, rfl⟩ := Prod.mk.inj same
  exact ⟨member, verified⟩

/-- Whether by the catalog or by the scan, the identity is one of the
candidates, and the assertion verifies under its key. -/
theorem resolveIdentity_ok (listed : order.toFinset = d.candidates)
    (resolved : listener.resolveIdentity d request order = .ok (c, signCount)) :
    d.Admitted c ∧ listener.verifyBind request c = some signCount := by
  unfold resolveIdentity at resolved
  split at resolved
  · rename_i found matched
    cases resolved
    rcases Option.or_eq_some_iff.mp matched with indexed | ⟨_, scanned⟩
    · obtain ⟨member, verified⟩ := indexedMatch_some indexed
      exact ⟨CoordinatorExecutionState.mem_candidates.mp member, verified⟩
    · obtain ⟨member, verified⟩ := scanCandidates_some scanned
      rw [← List.mem_toFinset, listed] at member
      exact ⟨CoordinatorExecutionState.mem_candidates.mp member, verified⟩
  · cases resolved

end CoordinatorListener

namespace Primitives

variable {primitives : Primitives} {method : String} {call : BrowserCall} {nonce : Vector UInt8 16}

/-- The signature verifies under the request's own key, over the message that
is made of the method, the execution, the timestamp, the nonce, the hash of the
body and the token. -/
def Signed (primitives : Primitives) (method : String) (call : BrowserCall) : Prop :=
  ∃ key signature, primitives.keyFromSec1Bytes call.request.publicKey = some key ∧
    primitives.signatureFromSlice call.request.signature = some signature ∧
    primitives.verify key (primitives.authenticationMessage method call.executionId call.request.created
      call.request.nonce call.request.body call.request.sessionToken) signature = true

theorem verifySignedRequest_ok (passed : primitives.verifySignedRequest method call = .ok nonce) :
    primitives.Signed method call ∧ nonce.toList = call.request.nonce := by
  unfold verifySignedRequest authError rpcError at passed
  split at passed
  swap
  · cases passed
  split at passed
  · cases passed
  rename_i key parsed
  split at passed
  · cases passed
  rename_i signature read
  dsimp only at passed
  split at passed
  · rename_i verified
    cases passed
    exact ⟨⟨key, signature, parsed, read, verified⟩, rfl⟩
  · cases passed

end Primitives

/-- What an `authenticate` call that has not returned yet has established. -/
def BrowserTask.claims : BrowserTask → Option (BrowserMethod × BrowserCall × Vector UInt8 16 × ClientIdentity)
  | .identified method call nonce identity => some (method, call, nonce, identity)
  | .timed method call nonce identity _ => some (method, call, nonce, identity)
  | _ => none

/-- The ceremony that a task is, and the identity it is for. -/
def BrowserTask.ceremony : BrowserTask → Option (BindWebauthnIdentity × ClientIdentity)
  | .checked request identity _ => some (request, identity)
  | .counted request identity => some (request, identity)
  | _ => none

namespace CoordinatorBrowserState

variable {listener : CoordinatorListener} {trace : List (Transition CoordinatorBrowserState ServerEvent)}
  {s s' final : CoordinatorBrowserState} {event : ServerEvent} {c : ClientIdentity}

/-- The step checks a ceremony: its assertion verifies under the identity's own
key, for the challenge made of the keys to be bound, and the identity is
admitted in the execution. -/
def Verifies (listener : CoordinatorListener) (request : BindWebauthnIdentity) (c : ClientIdentity)
    (τ : Transition CoordinatorBrowserState ServerEvent) : Prop :=
  ∃ order signCount d, τ.event = .bindCheck request order ∧ τ.source.live request.executionId = some d ∧ d.Admitted c ∧
    listener.primitives.verifyWebauthnAssertion request.assertion c listener.rpIdHash listener.origin
      (listener.primitives.webauthnBindChallenge request.ecdsaPublicKey request.ecdhPublicKey) = some signCount

/-- The step ends a ceremony, and issues a token that is not in use. -/
def Issues (listener : CoordinatorListener) (request : BindWebauthnIdentity) (c : ClientIdentity) (token : String)
    (τ : Transition CoordinatorBrowserState ServerEvent) : Prop :=
  (∃ draws, τ.event = .bindInsert request c draws ∧
    τ.source.bindings.freshToken listener.primitives.encodeBase64 draws = some token) ∧
    τ.source.bindings.get token = none ∧
    τ.target.bindings.get token = some ⟨c, request.ecdsaPublicKey, request.ecdhPublicKey⟩

/-- A ceremony was checked and then ended, with this token for this key. -/
def BoundIn (listener : CoordinatorListener) (trace : List (Transition CoordinatorBrowserState ServerEvent))
    (token : String) (ecdsaPublicKey : Bytes) (c : ClientIdentity) : Prop :=
  ∃ first τ rest request, trace = first ++ τ :: rest ∧ Issues listener request c token τ ∧
    request.ecdsaPublicKey = ecdsaPublicKey ∧ ∃ σ ∈ first, Verifies listener request c σ

theorem Step.verifies {request : BindWebauthnIdentity} {order : List ClientIdentity} {signCount : UInt32}
    (step : s.Step listener (.bindCheck request order) s')
    (passed : listener.checkBind s.coordinator request order = .ok (c, signCount)) :
    Verifies listener request c ⟨s, .bindCheck request order, s'⟩ := by
  obtain ⟨d, here, resolved, _⟩ := CoordinatorListener.checkBind_ok passed
  have listed : order.toFinset = d.candidates := by
    unfold Step next at step
    split at step
    · rename_i enabled
      simpa [CoordinatorBrowserState.enabled, enumerates, here] using enabled
    · cases step
  obtain ⟨admitted, verified⟩ := CoordinatorListener.resolveIdentity_ok listed resolved
  exact ⟨order, signCount, d, rfl, here, admitted, verified⟩

/-- Every ceremony in flight was checked. -/
theorem ceremony_verified (run : Run (Step listener) start trace final) {task : BrowserTask}
    {request : BindWebauthnIdentity} (member : task ∈ final.inFlight) (mine : task.ceremony = some (request, c)) :
    ∃ τ ∈ trace, Verifies listener request c τ := by
  induction run generalizing task with
  | start => cases member
  | @next earlier current event after _ step ih =>
    have known : ∀ task ∈ current.inFlight, task.ceremony = some (request, c) →
        ∃ τ ∈ earlier ++ [⟨current, event, after⟩], Verifies listener request c τ := by
      intro task inside same
      obtain ⟨τ, listed, verifies⟩ := ih inside same
      exact ⟨τ, List.mem_append_left _ listed, verifies⟩
    rcases step.arrives member with old | new
    · exact known task old mine
    · cases new with
      | checked passed =>
        cases mine
        exact ⟨_, by simp, step.verifies passed⟩
      | counted _ earlier => exact known _ earlier mine
      | identified | timed | authenticated | submitting | submitted | orphaned => cases mine

theorem BoundIn.append {token : String} {ecdsaPublicKey : Bytes} (bound : BoundIn listener trace token ecdsaPublicKey c)
    (τ : Transition CoordinatorBrowserState ServerEvent) : BoundIn listener (trace ++ [τ]) token ecdsaPublicKey c := by
  obtain ⟨first, issue, rest, request, rfl, issues, same, verified⟩ := bound
  exact ⟨first, issue, rest ++ [τ], request, by simp, issues, same, verified⟩

/-- Every session that is stored was bound by a ceremony. -/
theorem session_bound (run : Run (Step listener) start trace final) {token : String} {binding : WebauthnBinding}
    (stored : final.bindings.byToken token = some binding) :
    BoundIn listener trace token binding.ecdsaPublicKey binding.clientIdentity := by
  induction run with
  | start => cases stored
  | @next earlier current event after previous step ih =>
    by_cases before : current.bindings.byToken token = some binding
    · exact (ih before).append _
    -- the session is new, so the step ends its ceremony
    have moved := step.rebinds
    generalize found : after.bindings = bindings at moved
    rw [found] at stored
    cases moved with
    | nothing => exact absurd stored before
    | pinned =>
      rw [WebauthnBindings.byToken_pinBindingFromToken] at stored
      exact absurd stored before
    | @session request clientIdentity draws issued fresh =>
      have vacant := WebauthnBindings.freshToken_vacant fresh
      by_cases same : token = issued
      · subst same
        have bound : binding = ⟨clientIdentity, request.ecdsaPublicKey, request.ecdhPublicKey⟩ := by
          simpa [WebauthnBindings.insert, eq_comm] using stored
        subst bound
        have verified := ceremony_verified previous (step.in_flight rfl) rfl
        refine ⟨earlier, _, [], request, rfl, ⟨⟨draws, rfl, fresh⟩, vacant, ?_⟩, rfl, verified⟩
        simp only [WebauthnBindings.get, found]
        exact stored
      · exact absurd ((Table.insert_of_ne _ _ same).symm.trans stored) before

/-- An `authenticate` call in flight has a request whose signature verifies, and
acts for the identity that its session is bound to, with its key. -/
def Identified (listener : CoordinatorListener) (s : CoordinatorBrowserState) : Prop :=
  ∀ task ∈ s.inFlight, ∀ method call nonce identity, task.claims = some (method, call, nonce, identity) →
    listener.primitives.Signed method.name call ∧
      ∃ binding, s.bindings.byToken call.request.sessionToken = some binding ∧ binding.clientIdentity = identity ∧
        binding.ecdsaPublicKey = call.request.publicKey

theorem Identified.step (identified : Identified listener s) (step : s.Step listener event s') :
    Identified listener s' := by
  have known : ∀ task ∈ s.inFlight, ∀ method call nonce identity, task.claims = some (method, call, nonce, identity) →
      listener.primitives.Signed method.name call ∧
        ∃ binding, s'.bindings.byToken call.request.sessionToken = some binding ∧ binding.clientIdentity = identity ∧
          binding.ecdsaPublicKey = call.request.publicKey := by
    intro task member method call nonce identity claims
    obtain ⟨signed, binding, stored, same⟩ := identified task member method call nonce identity claims
    exact ⟨signed, binding, step.byToken_kept stored, same⟩
  intro task member method call nonce identity claims
  rcases step.arrives member with old | new
  · exact known task old method call nonce identity claims
  cases new with
  | identified verified found =>
    cases claims
    obtain ⟨binding, stored, same⟩ := WebauthnBindings.identify_ok found
    exact ⟨(Primitives.verifySignedRequest_ok verified).1, binding, step.byToken_kept stored, same⟩
  | timed earlier => exact known _ earlier method call nonce identity claims
  | checked | counted | authenticated | submitting | submitted | orphaned => cases claims

/-- A request whose nonce is looked up was signed, with a session that a ceremony bound. -/
theorem Step.bound_of_acceptNonce {method : BrowserMethod} {call : BrowserCall} {nonce : Vector UInt8 16} {now : UInt64}
    (run : Run (Step listener) start trace s) (step : s.Step listener (.acceptNonce method call nonce c now) s') :
    listener.primitives.Signed method.name call ∧
      BoundIn listener trace call.request.sessionToken call.request.publicKey c := by
  have identified : Identified listener s :=
    run.invariant (by simp [Identified, start]) fun _ _ _ known step => known.step step
  obtain ⟨signed, binding, stored, rfl, key⟩ := identified _ (step.in_flight rfl) method call nonce c rfl
  rw [← key]
  exact ⟨signed, session_bound run stored⟩

/-- End to end: when `authenticate` returns an identity, the request's signature
verifies, and a ceremony has issued its token before, for that identity and the
key of the request, on an assertion that verified under the identity's own key.
A token that is issued is never bound anew. -/
theorem authenticate_sound (run : Run (Step listener) start trace final) :
    (∀ before τ after method call nonce c now, trace = before ++ τ :: after →
      τ.event = .acceptNonce method call nonce c now →
      (τ.source.nonces.accept call.executionId c call.request.created nonce now).1 = .ok () →
        listener.primitives.Signed method.name call ∧
          BoundIn listener before call.request.sessionToken call.request.publicKey c) ∧
      ∀ τ ∈ trace, ∀ token binding, τ.source.bindings.get token = some binding →
        τ.target.bindings.get token = some binding := by
  constructor
  · intro before τ after method call nonce c now same accepts _
    obtain ⟨earlier, step, _⟩ := run.split_at same
    rw [accepts] at step
    exact step.bound_of_acceptNonce earlier
  · intro τ member token binding stored
    exact (run.taken_of_mem member).byToken_kept stored

section Runs

open Scenario

def acceptsNonce (s : CoordinatorBrowserState) : ServerEvent → Bool
  | .acceptNonce _ call nonce identity now =>
    decide ((s.nonces.accept call.executionId identity call.request.created nonce now).1 = .ok ())
  | _ => true

/-- The first request of a browser client comes from a session that it bound. -/
theorem authenticate_sound_for_browser_client :
    ∃ trace final before, Run (Step .recorded) start trace final ∧ trace.map Transition.event = opening .assigned ∧
      before <+: trace ∧ Primitives.recorded.Signed "browser_reserve_mask_indices" reserveCall ∧
      BoundIn .recorded before sessionToken requestKey client := by
  obtain ⟨trace, final, run, events, _, checked⟩ := exists_run_of_events .recorded (opening .assigned) acceptsNonce
    (fun _ => ()) () (by decide +kernel)
  have apart : opening .assigned = (opening .assigned).take 8 ++
      .acceptNonce .reserveMaskIndices reserveCall (Vector.replicate 16 1) client 1700000001 ::
        (opening .assigned).drop 9 := rfl
  obtain ⟨before, τ, after, same, _, accepts, _⟩ := Run.split_events (events.trans apart)
  have answered := checked τ (by simp [same])
  rw [accepts] at answered
  obtain ⟨signed, bound⟩ := (authenticate_sound run).1 before τ after _ _ _ _ _ same accepts (of_decide_eq_true answered)
  exact ⟨trace, final, before, run, events, ⟨τ :: after, same.symm⟩, signed, bound⟩

end Runs

end CoordinatorBrowserState

end MpcCoordinator
