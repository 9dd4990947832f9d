import MpcCoordinator.Browser.Bind
import MpcCoordinator.General.Run

namespace MpcCoordinator

/-- The methods of the coordinator that take a signed request. -/
inductive BrowserMethod where
  | executionStatus
  | reserveMaskIndices
  | submitMaskedInputs
  | outputShares
  deriving DecidableEq, Repr

def BrowserMethod.name : BrowserMethod → String
  | .executionStatus => "browser_execution_status"
  | .reserveMaskIndices => "browser_reserve_mask_indices"
  | .submitMaskedInputs => "browser_submit_masked_inputs"
  | .outputShares => "browser_output_shares"

/-- A browser request between two of its critical sections, with what it
carries from one to the next. -/
inductive BrowserTask where
  | checked (request : BindWebauthnIdentity) (clientIdentity : ClientIdentity) (signCount : UInt32)
  | counted (request : BindWebauthnIdentity) (clientIdentity : ClientIdentity)
  | identified (method : BrowserMethod) (call : BrowserCall) (nonce : Vector UInt8 16) (identity : ClientIdentity)
  | timed (method : BrowserMethod) (call : BrowserCall) (nonce : Vector UInt8 16) (identity : ClientIdentity)
      (now : UInt64)
  | authenticated (method : BrowserMethod) (call : BrowserCall) (identity : ClientIdentity)
  | submitting (call : BrowserCall) (identity : ClientIdentity)
  | submitted (call : BrowserCall) (identity : ClientIdentity)
  deriving DecidableEq, Repr

/-- The request holds the delivery guard of an execution. -/
def BrowserTask.holdsDelivery (executionId : ExecutionId) : BrowserTask → Bool
  | .submitting call _ => decide (call.executionId = executionId)
  | _ => false

/-- What becomes of a request when an execution loses its slot: the submission
that holds its delivery guard looks the execution up again, finds it gone and
returns as accepted, with its pin still to come. That it does so before the id
is registered anew is assumed. -/
def BrowserTask.afterDrop (executionId : ExecutionId) : BrowserTask → BrowserTask
  | .submitting call identity =>
    if call.executionId = executionId then .submitted call identity else .submitting call identity
  | task => task

/-- The request is a bind ceremony for an identity in an execution that has
passed its checks and has not stored its session yet. -/
def BrowserTask.binds (executionId : ExecutionId) (clientIdentity : ClientIdentity) : BrowserTask → Bool
  | .checked request identity _ => decide (request.executionId = executionId ∧ identity = clientIdentity)
  | .counted request identity => decide (request.executionId = executionId ∧ identity = clientIdentity)
  | _ => false

/-- A coordinator that serves native connections and browsers. -/
structure CoordinatorBrowserState where
  coordinator : CoordinatorRPCServerSharedBase
  nonces : NonceBook
  bindings : WebauthnBindings
  signCounts : SignCounts
  inFlight : List BrowserTask

/-- The critical sections that requests run, each under one lock. What the
environment chooses is part of the event: network outcomes, the wall clock,
random draws and the order in which hash maps are walked. -/
inductive ServerEvent where
  | register (party : ClientIdentity) (registration : ExecutionRegistration) (order : List ExecutionId)
  | retire (party : ClientIdentity) (executionId : ExecutionId)
  | watch (executionId : ExecutionId)
  | requestShutdown (party : ClientIdentity)
  | native (executionId : ExecutionId) (caller : ClientIdentity) (action : Action)
  | bindCheck (request : BindWebauthnIdentity) (order : List ClientIdentity)
  | bindCount (request : BindWebauthnIdentity) (clientIdentity : ClientIdentity) (signCount : UInt32)
  | bindInsert (request : BindWebauthnIdentity) (clientIdentity : ClientIdentity) (draws : List (Vector UInt8 32))
  | identify (method : BrowserMethod) (call : BrowserCall)
  | readClock (method : BrowserMethod) (call : BrowserCall) (nonce : Vector UInt8 16) (identity : ClientIdentity)
      (now : UInt64)
  | acceptNonce (method : BrowserMethod) (call : BrowserCall) (nonce : Vector UInt8 16) (identity : ClientIdentity)
      (now : UInt64)
  | reserve (call : BrowserCall) (identity : ClientIdentity) (delivered : SubscriptionSink → Bool)
  | submit (call : BrowserCall) (identity : ClientIdentity)
  | finish (call : BrowserCall) (identity : ClientIdentity) (delivered : SubscriptionSink → Bool)
  | pin (call : BrowserCall) (identity : ClientIdentity)

namespace CoordinatorBrowserState

variable (listener : CoordinatorListener) (s : CoordinatorBrowserState)

def start : CoordinatorBrowserState := ⟨.new, .empty, .empty, .empty, []⟩

/-- A request returns. -/
def leave (task : BrowserTask) : CoordinatorBrowserState :=
  { s with inFlight := s.inFlight.erase task }

/-- A request goes on to its next critical section. -/
def advance (task later : BrowserTask) : CoordinatorBrowserState :=
  { s with inFlight := later :: s.inFlight.erase task }

/-- The execution that loses its slot to a registration call. -/
def evictedBy (party : ClientIdentity) (registration : ExecutionRegistration) (order : List ExecutionId) :
    Option ExecutionId :=
  if listener.topology.isParty party then s.coordinator.evicted listener.topology registration order else none

/-- Registration over a native connection. -/
def register (party : ClientIdentity) (registration : ExecutionRegistration) (order : List ExecutionId) :
    CoordinatorBrowserState :=
  let connection : CoordinatorRPCServerConnectionBase := ⟨listener.topology, party⟩
  { s with
    coordinator := (connection.registerExecution s.coordinator registration order).2
    inFlight :=
      match s.evictedBy listener party registration order with
      | some executionId => s.inFlight.map (BrowserTask.afterDrop executionId)
      | none => s.inFlight }

/-- What a native connection does not run here: retirement is a method of the
server and not of one execution, and a submission is finished by whoever began it. -/
def foreign (executionId : ExecutionId) : Action → Bool
  | .retireExecution => true
  | .finishSubmission _ => s.inFlight.any (BrowserTask.holdsDelivery executionId)
  | _ => false

/-- A critical section of a native connection. -/
def native (executionId : ExecutionId) (caller : ClientIdentity) (action : Action) :
    Option CoordinatorBrowserState :=
  if s.foreign executionId action then none
  else
    ((CoordinatorRPCServerConnectionBase.mk listener.topology caller).atExecution s.coordinator executionId action).map
      fun result => { s with coordinator := result.2 }

/-- The order lists the candidates of the execution, if that is live. -/
def enumerates (executionId : ExecutionId) (order : List ClientIdentity) : Bool :=
  match s.coordinator.executions.lookup executionId with
  | none => true
  | some d => decide (order.toFinset = d.candidates)

def bindCheck (request : BindWebauthnIdentity) (order : List ClientIdentity) : CoordinatorBrowserState :=
  match listener.checkBind s.coordinator request order with
  | .error _ => s
  | .ok (clientIdentity, signCount) => { s with inFlight := .checked request clientIdentity signCount :: s.inFlight }

def bindCount (request : BindWebauthnIdentity) (clientIdentity : ClientIdentity) (signCount : UInt32) :
    CoordinatorBrowserState :=
  match s.signCounts.accept clientIdentity signCount with
  | .error _ => s.leave (.checked request clientIdentity signCount)
  | .ok signCounts =>
    { s.advance (.checked request clientIdentity signCount) (.counted request clientIdentity) with
      signCounts := signCounts }

/-- Stores the session of a ceremony; there is no result until a random draw
gives an unused token. -/
def bindInsert (request : BindWebauthnIdentity) (clientIdentity : ClientIdentity) (draws : List (Vector UInt8 32)) :
    Option CoordinatorBrowserState :=
  (s.bindings.freshToken listener.primitives.encodeBase64 draws).map fun token =>
    { s.leave (.counted request clientIdentity) with
      bindings := s.bindings.insert (some request.executionId)
        ⟨clientIdentity, request.ecdsaPublicKey, request.ecdhPublicKey⟩ token }

def identify (method : BrowserMethod) (call : BrowserCall) : CoordinatorBrowserState :=
  match listener.primitives.verifySignedRequest method.name call with
  | .error _ => s
  | .ok nonce =>
    match s.bindings.identify call with
    | .error _ => s
    | .ok identity => { s with inFlight := .identified method call nonce identity :: s.inFlight }

def acceptNonce (method : BrowserMethod) (call : BrowserCall) (nonce : Vector UInt8 16) (identity : ClientIdentity)
    (now : UInt64) : CoordinatorBrowserState :=
  let task : BrowserTask := .timed method call nonce identity now
  match s.nonces.accept call.executionId identity call.request.created nonce now with
  | (.error _, nonces) => { s.leave task with nonces := nonces }
  | (.ok (), nonces) => { s.advance task (.authenticated method call identity) with nonces := nonces }

def reserve (call : BrowserCall) (identity : ClientIdentity) (delivered : SubscriptionSink → Bool) :
    Option CoordinatorBrowserState :=
  let task : BrowserTask := .authenticated .reserveMaskIndices call identity
  match parseBody (listener.primitives.parseIndices call.request.body) with
  | .error _ => some (s.leave task)
  | .ok indices =>
    ((CoordinatorRPCServerConnectionBase.mk listener.topology identity).atExecution s.coordinator call.executionId
      (.reserveMaskIndices indices delivered)).map fun result => { s.leave task with coordinator := result.2 }

def submit (call : BrowserCall) (identity : ClientIdentity) : Option CoordinatorBrowserState :=
  let task : BrowserTask := .authenticated .submitMaskedInputs call identity
  match parseBody (listener.primitives.parseBatch call.request.body) with
  | .error _ => some (s.leave task)
  | .ok batch =>
    ((CoordinatorRPCServerConnectionBase.mk listener.topology identity).atExecution s.coordinator call.executionId
      (.submitMaskedInputs batch.maskedInputs batch.reservedIndices)).map fun result =>
        match result with
        | (.error _, coordinator) => { s.leave task with coordinator := coordinator }
        | (.ok (), coordinator) => { s.advance task (.submitting call identity) with coordinator := coordinator }

def finish (call : BrowserCall) (identity : ClientIdentity) (delivered : SubscriptionSink → Bool) :
    Option CoordinatorBrowserState :=
  let task : BrowserTask := .submitting call identity
  ((CoordinatorRPCServerConnectionBase.mk listener.topology identity).atExecution s.coordinator call.executionId
    (.finishSubmission delivered)).map fun result =>
      -- an execution that is gone is no error here
      { s.advance task (.submitted call identity) with coordinator := result.2 }

def pin (call : BrowserCall) (identity : ClientIdentity) : CoordinatorBrowserState :=
  { s.leave (.submitted call identity) with
    bindings := s.bindings.pinBindingFromToken call.executionId call.request.sessionToken }

/-- The request whose next critical section an event is. -/
def taskOf : ServerEvent → Option BrowserTask
  | .bindCount request clientIdentity signCount => some (.checked request clientIdentity signCount)
  | .bindInsert request clientIdentity _ => some (.counted request clientIdentity)
  | .readClock method call nonce identity _ => some (.identified method call nonce identity)
  | .acceptNonce method call nonce identity now => some (.timed method call nonce identity now)
  | .reserve call identity _ => some (.authenticated .reserveMaskIndices call identity)
  | .submit call identity => some (.authenticated .submitMaskedInputs call identity)
  | .finish call identity _ => some (.submitting call identity)
  | .pin call identity => some (.submitted call identity)
  | _ => none

/-- What an event does to the state, given that its request is in flight. -/
def run : ServerEvent → Option CoordinatorBrowserState
  | .register party registration order => some (s.register listener party registration order)
  | .retire party executionId => some { s with
      coordinator := ((CoordinatorRPCServerConnectionBase.mk listener.topology party).retire s.coordinator executionId).2 }
  | .watch executionId => some { s with coordinator := s.coordinator.watchForShutdownRequest executionId }
  | .requestShutdown party => some { s with
      coordinator := ((CoordinatorRPCServerConnectionBase.mk listener.topology party).requestShutdown s.coordinator).2 }
  | .native executionId caller action => s.native listener executionId caller action
  | .bindCheck request order => some (s.bindCheck listener request order)
  | .bindCount request clientIdentity signCount => some (s.bindCount request clientIdentity signCount)
  | .bindInsert request clientIdentity draws => s.bindInsert listener request clientIdentity draws
  | .identify method call => some (s.identify listener method call)
  | .readClock method call nonce identity now =>
    some (s.advance (.identified method call nonce identity) (.timed method call nonce identity now))
  | .acceptNonce method call nonce identity now => some (s.acceptNonce method call nonce identity now)
  | .reserve call identity delivered => s.reserve listener call identity delivered
  | .submit call identity => s.submit listener call identity
  | .finish call identity delivered => s.finish listener call identity delivered
  | .pin call identity => some (s.pin call identity)

/-- The environment's choices are ones it can make: a request only goes on
while it is in flight, and hash tables are walked over all they hold. -/
def enabled : ServerEvent → Bool
  | .register _ _ order => decide (order.toFinset = s.coordinator.executions.keys)
  | .bindCheck request order => s.enumerates request.executionId order
  | event => (taskOf event).all fun task => decide (task ∈ s.inFlight)

def next (event : ServerEvent) : Option CoordinatorBrowserState :=
  if s.enabled event then s.run listener event else none

/-- One step of the coordinator: a request runs a critical section. -/
def Step (event : ServerEvent) (s' : CoordinatorBrowserState) : Prop := s.next listener event = some s'

/-- What is seen at the end of a list of events is seen at the end of a run,
and what is checked before each event is true before each step. -/
theorem exists_run_of_events {β : Type} (listener : CoordinatorListener) (events : List ServerEvent)
    (check : CoordinatorBrowserState → ServerEvent → Bool) (view : CoordinatorBrowserState → β) (seen : β)
    (done : (Run.execute (fun s event => if check s event then s.next listener event else none) start events).map view =
      some seen) :
    ∃ trace final, Run (Step listener) start trace final ∧ trace.map Transition.event = events ∧ view final = seen ∧
      ∀ τ ∈ trace, check τ.source τ.event = true :=
  Run.exists_of_checked (fun _ _ _ moved => moved) done

/-- What is found in the steps that a list of events takes is found in a run. -/
theorem exists_run_of_trail (listener : CoordinatorListener) (events : List ServerEvent)
    (Q : List (Transition CoordinatorBrowserState ServerEvent) → Prop)
    (done : (Run.execute (fun s event => s.next listener event) start events).isSome = true)
    (found : Q (Run.trail (fun s event => s.next listener event) start events)) :
    ∃ trace final, Run (Step listener) start trace final ∧ trace.map Transition.event = events ∧ Q trace :=
  Run.exists_of_trail (fun _ _ _ moved => moved) done found

end CoordinatorBrowserState

end MpcCoordinator
