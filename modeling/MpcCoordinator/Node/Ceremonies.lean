import MpcCoordinator.Browser.SignCounts

namespace MpcCoordinator

/-- The request that starts a bind ceremony at a node. It names the identity,
since a node has no roster to look for it. -/
structure BindWebauthnIdentityToNode where
  clientIdentity : ClientIdentity
  assertion : WebauthnAssertion
  ecdsaPublicKey : Bytes
  ecdhPublicKey : Bytes
  deriving DecidableEq, Repr

/-- What does not change while a node serves browsers. -/
structure NodeListener where
  primitives : Primitives
  rpIdHash : Vector UInt8 32
  origin : String

/-- The check of a ceremony, which takes no lock. -/
def NodeListener.verifyBind (listener : NodeListener) (request : BindWebauthnIdentityToNode) : RpcResult UInt32 :=
  match listener.primitives.verifyWebauthnAssertion request.assertion request.clientIdentity listener.rpIdHash
      listener.origin (listener.primitives.webauthnBindChallenge request.ecdsaPublicKey request.ecdhPublicKey) with
  | none => authError "WebAuthn assertion did not verify against the claimed identity"
  | some signCount => .ok signCount

theorem NodeListener.verifyBind_ok {listener : NodeListener} {request : BindWebauthnIdentityToNode} {signCount : UInt32}
    (passed : listener.verifyBind request = .ok signCount) : signCount = request.assertion.signCount := by
  unfold verifyBind at passed
  split at passed
  · cases passed
  · rename_i verified
    cases passed
    exact (Primitives.verifyWebauthnAssertion_some verified).1

/-- A ceremony between two of its critical sections. -/
inductive NodeBindTask where
  | verified (request : BindWebauthnIdentityToNode) (signCount : UInt32)
  | counted (request : BindWebauthnIdentityToNode)
  deriving DecidableEq, Repr

def NodeBindTask.pending : NodeBindTask → Option (WebauthnAssertion × ClientIdentity)
  | .counted request => some (request.assertion, request.clientIdentity)
  | .verified _ _ => none

/-- The tables of a node that ceremonies write, and the ceremonies in flight. -/
structure NodeBrowserState where
  bindings : WebauthnBindings
  signCounts : SignCounts
  inFlight : List NodeBindTask

/-- The sections of a ceremony: the check, the sign count and the session. -/
inductive NodeBindEvent where
  | verify (request : BindWebauthnIdentityToNode)
  | count (request : BindWebauthnIdentityToNode) (signCount : UInt32)
  | insert (request : BindWebauthnIdentityToNode) (draws : List (Vector UInt8 32))

namespace NodeBrowserState

variable (listener : NodeListener) (s : NodeBrowserState)

def start : NodeBrowserState := ⟨.empty, .empty, []⟩

def next : NodeBindEvent → Option NodeBrowserState
  | .verify request =>
    match listener.verifyBind request with
    | .error _ => some s
    | .ok signCount => some { s with inFlight := .verified request signCount :: s.inFlight }
  | .count request signCount =>
    if .verified request signCount ∈ s.inFlight then
      match s.signCounts.accept request.clientIdentity signCount with
      | .error _ => some { s with inFlight := s.inFlight.erase (.verified request signCount) }
      | .ok signCounts => some { s with
          signCounts := signCounts
          inFlight := .counted request :: s.inFlight.erase (.verified request signCount) }
    else none
  | .insert request draws =>
    if .counted request ∈ s.inFlight then
      (s.bindings.freshToken listener.primitives.encodeBase64 draws).map fun token => { s with
        bindings := s.bindings.insert none ⟨request.clientIdentity, request.ecdsaPublicKey, request.ecdhPublicKey⟩ token
        inFlight := s.inFlight.erase (.counted request) }
    else none

/-- One step of a node: a ceremony runs a section. -/
def Step (event : NodeBindEvent) (s' : NodeBrowserState) : Prop := s.next listener event = some s'

/-- What is found in the steps that a list of events takes is found in a run. -/
theorem exists_run_of_trail (listener : NodeListener) (events : List NodeBindEvent)
    (Q : List (Transition NodeBrowserState NodeBindEvent) → Prop)
    (done : (Run.execute (fun s event => s.next listener event) start events).isSome = true)
    (found : Q (Run.trail (fun s event => s.next listener event) start events)) :
    ∃ trace final, Run (Step listener) start trace final ∧ trace.map Transition.event = events ∧ Q trace :=
  Run.exists_of_trail (fun _ _ _ moved => moved) done found

/-- What a step can do to the ceremonies in flight and to the sign counts. -/
inductive Shifts : NodeBindEvent → List NodeBindTask → SignCounts → Prop
  | rejected {request} : Shifts (.verify request) s.inFlight s.signCounts
  | verified {request signCount} : signCount = request.assertion.signCount →
      Shifts (.verify request) (.verified request signCount :: s.inFlight) s.signCounts
  | refused {request signCount refusal} : .verified request signCount ∈ s.inFlight →
      s.signCounts.accept request.clientIdentity signCount = .error refusal →
      Shifts (.count request signCount) (s.inFlight.erase (.verified request signCount)) s.signCounts
  | counted {request signCount signCounts} : .verified request signCount ∈ s.inFlight →
      s.signCounts.accept request.clientIdentity signCount = .ok signCounts →
      Shifts (.count request signCount) (.counted request :: s.inFlight.erase (.verified request signCount)) signCounts
  | inserted {request draws} : .counted request ∈ s.inFlight →
      Shifts (.insert request draws) (s.inFlight.erase (.counted request)) s.signCounts

/-- What a step does for a ceremony: a sign count is accepted, or a session is stored. -/
def ceremonyOf : NodeBindEvent → Option BindEvent
  | .verify _ => none
  | .count request signCount =>
    match s.signCounts.accept request.clientIdentity signCount with
    | .ok _ => some (.counted request.assertion request.clientIdentity signCount)
    | .error _ => none
  | .insert request _ => some (.bound request.assertion request.clientIdentity)

def ceremonies (trace : List (Transition NodeBrowserState NodeBindEvent)) : List BindEvent :=
  trace.filterMap fun τ => τ.source.ceremonyOf τ.event

def ledger : BindLedger := ⟨s.signCounts, ↑(s.inFlight.filterMap NodeBindTask.pending)⟩

/-- The ceremonies in flight carry the sign counts of their assertions. -/
def CarriesCounts : Prop :=
  ∀ request signCount, .verified request signCount ∈ s.inFlight → signCount = request.assertion.signCount

variable {listener s} {event : NodeBindEvent} {s' final : NodeBrowserState}
  {trace : List (Transition NodeBrowserState NodeBindEvent)}

theorem Step.shifts (step : s.Step listener event s') : s.Shifts event s'.inFlight s'.signCounts := by
  unfold Step next at step
  split at step
  · split at step
    · cases step
      exact .rejected
    · rename_i passed
      cases step
      exact .verified (NodeListener.verifyBind_ok passed)
  · split at step
    · rename_i member
      split at step
      · rename_i refused
        cases step
        exact .refused member refused
      · rename_i accepted
        cases step
        exact .counted member accepted
    · cases step
  · split at step
    · rename_i member
      obtain ⟨token, _, rfl⟩ := Option.map_eq_some_iff.mp step
      exact .inserted member
    · cases step

theorem CarriesCounts.step (carries : s.CarriesCounts) (step : s.Step listener event s') : s'.CarriesCounts := by
  intro request signCount member
  have shifted := step.shifts
  generalize s'.inFlight = inFlight, s'.signCounts = signCounts at shifted member
  cases shifted with
  | rejected => exact carries request signCount member
  | verified carried =>
    rcases List.mem_cons.mp member with same | old
    · cases same
      exact carried
    · exact carries request signCount old
  | refused | inserted => exact carries request signCount (List.mem_of_mem_erase member)
  | counted =>
    rcases List.mem_cons.mp member with same | old
    · cases same
    · exact carries request signCount (List.mem_of_mem_erase old)

/-- A step is one of the ledger, or leaves it as it is. -/
theorem Step.ledger_cases (carries : s.CarriesCounts) (step : s.Step listener event s') :
    s.ceremonyOf event = none ∧ s'.ledger = s.ledger ∨
      ∃ name, s.ceremonyOf event = some name ∧ BindLedger.Step s.ledger name s'.ledger := by
  have shifted := step.shifts
  unfold ledger
  generalize s'.inFlight = inFlight, s'.signCounts = signCounts at shifted
  cases shifted with
  | rejected | verified => exact .inl ⟨rfl, rfl⟩
  | refused member refused =>
    rw [coe_filterMap_erase NodeBindTask.pending member]
    exact .inl ⟨by simp only [ceremonyOf, refused], rfl⟩
  | @counted request signCount _ member accepted =>
    rw [coe_filterMap_erase NodeBindTask.pending member]
    obtain rfl := carries request signCount member
    exact .inr ⟨_, by simp only [ceremonyOf, accepted], .counted accepted⟩
  | @inserted request draws member =>
    rw [coe_filterMap_erase NodeBindTask.pending member]
    let others := (s.inFlight.erase (.counted request)).filterMap NodeBindTask.pending
    exact .inr ⟨_, rfl, @BindLedger.Step.bound s.signCounts ↑others request.assertion request.clientIdentity⟩

/-- A node is a ledger of ceremonies, as a coordinator is. -/
def nodeLedger (listener : NodeListener) : Refinement (Step listener) BindLedger.Step where
  view := ledger
  label := ceremonyOf
  Sound := CarriesCounts
  kept carries step := carries.step step
  seen carries step := step.ledger_cases carries

theorem exists_ledger_run (run : Run (Step listener) start trace final) :
    ∃ seen, Run BindLedger.Step .empty seen final.ledger ∧ seen.map Transition.event = ceremonies trace :=
  (nodeLedger listener).exists_run (fun _ _ member => by cases member) run

end NodeBrowserState

/-- In every interleaving of ceremonies at one coordinator or at one node, the
sign counts that are accepted for an identity are zeros and then increasing
counts, and an assertion with a count binds at most once. -/
theorem counted_assertion_binds_once (c : ClientIdentity) :
    (∀ listener trace final, Run (CoordinatorBrowserState.Step listener) .start trace final →
      CountsUp (acceptedCounts c (CoordinatorBrowserState.ceremonies trace)) ∧
      ∀ assertion : WebauthnAssertion, assertion.signCount ≠ 0 →
        (CoordinatorBrowserState.ceremonies trace).count (.bound assertion c) ≤ 1) ∧
    (∀ listener trace final, Run (NodeBrowserState.Step listener) .start trace final →
      CountsUp (acceptedCounts c (NodeBrowserState.ceremonies trace)) ∧
      ∀ assertion : WebauthnAssertion, assertion.signCount ≠ 0 →
        (NodeBrowserState.ceremonies trace).count (.bound assertion c) ≤ 1) := by
  constructor
  · intro listener trace final run
    obtain ⟨seen, ledgerRun, same⟩ := CoordinatorBrowserState.exists_ledger_run run
    rw [← same]
    exact ⟨(BindLedger.countsUp_of_run ledgerRun c).1, fun _ counts => BindLedger.bound_at_most_once ledgerRun counts⟩
  · intro listener trace final run
    obtain ⟨seen, ledgerRun, same⟩ := NodeBrowserState.exists_ledger_run run
    rw [← same]
    exact ⟨(BindLedger.countsUp_of_run ledgerRun c).1, fun _ counts => BindLedger.bound_at_most_once ledgerRun counts⟩

section Ceremonies

open Scenario

def nodeListener : NodeListener := ⟨.recorded, rpIdHash, "https://vote.example.com"⟩

/-- The ceremony of the client at a node, with the assertion it made for the coordinator. -/
def nodeBind : BindWebauthnIdentityToNode := ⟨client, bindA.assertion, requestKey, ecdhKeyA⟩

/-- The assertion is sent twice to a coordinator and twice to a node. -/
theorem counted_assertion_binds_once_of_resent :
    (∃ trace final, Run (CoordinatorBrowserState.Step .recorded) .start trace final ∧
      CoordinatorBrowserState.ceremonies trace = [.counted bindA.assertion client 1, .bound bindA.assertion client] ∧
      (CoordinatorBrowserState.ceremonies trace).count (.bound bindA.assertion client) ≤ 1) ∧
    ∃ trace final, Run (NodeBrowserState.Step nodeListener) .start trace final ∧
      NodeBrowserState.ceremonies trace = [.counted bindA.assertion client 1, .bound bindA.assertion client] ∧
      (NodeBrowserState.ceremonies trace).count (.bound bindA.assertion client) ≤ 1 := by
  have counts : bindA.assertion.signCount ≠ 0 := by decide +kernel
  constructor
  · obtain ⟨trace, final, run, _, seen⟩ := CoordinatorBrowserState.exists_run_of_trail .recorded
      ([.register [1] .assigned [], .bindCheck bindA [client], .bindCheck bindA [client], .bindCount bindA client 1,
        .bindCount bindA client 1, .bindInsert bindA client [draw 65]])
      (fun trace => CoordinatorBrowserState.ceremonies trace =
        [.counted bindA.assertion client 1, .bound bindA.assertion client]) (by decide +kernel) (by decide +kernel)
    exact ⟨trace, final, run, seen, ((counted_assertion_binds_once client).1 _ _ _ run).2 _ counts⟩
  · obtain ⟨trace, final, run, _, seen⟩ := NodeBrowserState.exists_run_of_trail nodeListener
      [.verify nodeBind, .verify nodeBind, .count nodeBind 1, .count nodeBind 1, .insert nodeBind [draw 65]]
      (fun trace => NodeBrowserState.ceremonies trace =
        [.counted bindA.assertion client 1, .bound bindA.assertion client]) (by decide +kernel) (by decide +kernel)
    exact ⟨trace, final, run, seen, ((counted_assertion_binds_once client).2 _ _ _ run).2 _ counts⟩

end Ceremonies

end MpcCoordinator
