import MpcCoordinator.Browser.Effects
import MpcCoordinator.Execution.Outputs
import MpcCoordinator.Execution.Topics
import MpcCoordinator.General.Purge

namespace MpcCoordinator

/-- How far a native call has come that has another critical section before it,
with what it carries there. -/
inductive NativeStage where
  | subscribing (topic : Topic)
  | submitting
  | obtaining
  | delivering (clientId : ClientIdentity) (minShares : Nat)
  | sending (clientId : ClientIdentity) (waiter : SubscriptionSink) (outputShares : List EncryptedShares)
  | failed (clientId : ClientIdentity) (waiter : SubscriptionSink)
  deriving DecidableEq, Repr

/-- A native call between two of its critical sections. -/
structure NativeTask where
  executionId : ExecutionId
  caller : ClientIdentity
  stage : NativeStage
  deriving DecidableEq

/-- The critical sections of the native methods that name an execution, each
with what the network decides in it: how handshakes and sends turn out, and
which subscriptions are closed. -/
inductive NativeSection where
  | retireExecution
  | availableInputMasks
  | resolveOutputEncryptionKey (clientId : ClientIdentity)
  | transition (nextRound : Round)
  | reserveMaskIndices (indices : List UInt64) (delivered : SubscriptionSink → Bool)
  | submitMaskedInputs (maskedInputs : List Bytes) (reservedIndices : List UInt64)
  | finishSubmission (delivered : SubscriptionSink → Bool)
  | subscribe (topic : Topic)
  | accept (topic : Topic) (handle : Nat) (delivered : Nat → Bool)
  | sendOutputShares (clientId : ClientIdentity) (encShares : EncryptedShares)
  | obtainOutputShares (isClosed : SubscriptionSink → Bool)
  | acceptOutput (handle : Nat) (isClosed : SubscriptionSink → Bool)
  | abandon (stage : NativeStage)
  | deliver (clientId : ClientIdentity) (minShares : Nat) (isClosed : SubscriptionSink → Bool)
  | send (clientId : ClientIdentity) (waiter : SubscriptionSink) (outputShares : List EncryptedShares) (delivered : Bool)
  | forget (clientId : ClientIdentity) (waiter : SubscriptionSink)

/-- A critical section of a native call, on the connection of its caller. -/
inductive NativeCall where
  | registerExecution (caller : ClientIdentity) (registration : ExecutionRegistration)
  | requestShutdown (caller : ClientIdentity)
  | within (executionId : ExecutionId) (caller : ClientIdentity) (part : NativeSection)

/-- The execution that a call names. A shutdown request names none. -/
def NativeCall.executionId : NativeCall → Option ExecutionId
  | .registerExecution _ registration => some registration.executionId
  | .requestShutdown _ => none
  | .within executionId _ _ => some executionId

/-- What the caller has after a critical section. -/
inductive NativeReply where
  | returned (result : RpcResult Unit)
  | inputMasks (result : RpcResult UInt64)
  | encryptionKey (result : RpcResult (Option Bytes))
  | goesOn
  | abandoned
  | panicked

/-- The reply of a critical section, and what is sent because of it: the notices
that it leaves to send, those it sends under the lock, and output shares. -/
structure NativeOutcome where
  reply : NativeReply
  handed : List Notice
  posted : List (Notice × Bool)
  outputs : List (SubscriptionSink × List EncryptedShares × Bool)

/-- A reply with which nothing is sent. -/
def NativeOutcome.plain (reply : NativeReply) : NativeOutcome := ⟨reply, [], [], []⟩

namespace NativeSection

variable (topology : Topology) (caller : ClientIdentity)

/-- The stage in which a call runs the section, unless it is its first one. -/
def stage : NativeSection → Option NativeStage
  | .finishSubmission _ => some .submitting
  | .accept topic _ _ => some (.subscribing topic)
  | .acceptOutput _ _ => some .obtaining
  | .abandon stage => some stage
  | .deliver clientId minShares _ => some (.delivering clientId minShares)
  | .send clientId waiter outputShares _ => some (.sending clientId waiter outputShares)
  | .forget clientId waiter => some (.failed clientId waiter)
  | _ => none

/-- What is refused before the execution is looked up. -/
def refusal : NativeSection → Option (RpcResult Unit)
  | .transition nextRound =>
    if topology.isParty caller = false then
      some (CoordinatorRPCBaseError.notParty.reply "Only configured MPC parties can propose transitions.")
    else if roundBefore nextRound = none then
      some (.error ⟨invalidParams, s!"Round {Round.idle} cannot be transitioned to"⟩)
    else none
  | .subscribe (.round round) =>
    if roundBefore round = none then some (.error ⟨invalidParams, s!"Cannot subscribe to round {round}"⟩) else none
  | _ => none

/-- A section that finds no execution. A call that was under way returns
quietly, except that a delivery expects the execution to be there. -/
def absent (executionId : ExecutionId) : NativeSection → NativeReply
  | .availableInputMasks => .inputMasks (executionNotFound executionId)
  | .finishSubmission _ | .accept .. | .acceptOutput .. | .forget .. => .returned (.ok ())
  | .deliver .. => .panicked
  | _ => .returned (executionNotFound executionId)

variable (d : CoordinatorExecutionState)

/-- The call returns the result of an action, or goes on when that is accepted
and there is another stage. -/
def actOn (action : Action) (next : Option NativeStage) :
    Option (NativeOutcome × CoordinatorExecutionState × Option NativeStage) :=
  (d.perform topology caller action).map fun result =>
    let after := match result.1 with
      | .ok () => next
      | .error _ => none
    (⟨if after.isSome then .goesOn else .returned result.1, d.handed topology caller action, d.posted caller action, []⟩,
      result.2, after)

/-- A section on a live execution: what comes of it, the state it leaves, and
the stage that the call goes on to. -/
def performOn : NativeSection → Option (NativeOutcome × CoordinatorExecutionState × Option NativeStage)
  | .availableInputMasks => some (.plain (.inputMasks (.ok d.availableInputMasks)), d, none)
  | .transition nextRound => actOn topology caller d (.transition nextRound) none
  | .reserveMaskIndices indices delivered => actOn topology caller d (.reserveMaskIndices indices delivered) none
  | .submitMaskedInputs maskedInputs reservedIndices =>
    actOn topology caller d (.submitMaskedInputs maskedInputs reservedIndices) (some .submitting)
  | .finishSubmission delivered => actOn topology caller d (.finishSubmission delivered) none
  | .subscribe topic => some (.plain .goesOn, d, some (.subscribing topic))
  | .accept topic handle delivered => actOn topology caller d (topic.subscription ⟨handle, caller⟩ delivered) none
  | .sendOutputShares clientId encShares =>
    actOn topology caller d (.sendOutputShares clientId encShares)
      (some (.delivering clientId d.registration.minOutputShares.toNat))
  | .obtainOutputShares isClosed => actOn topology caller d (.requestOutputShares isClosed) (some .obtaining)
  | .acceptOutput handle isClosed =>
    actOn topology caller d (.obtainOutputShares ⟨handle, caller⟩ isClosed)
      (match (CoordinatorRPCServerConnectionBase.mk topology caller).checkObtainOutputShares d isClosed with
        | .ok () => some (.delivering caller d.registration.minOutputShares.toNat)
        | .error _ => none)
  | .deliver clientId minShares isClosed =>
    match d.readyOutputSnapshot clientId minShares isClosed with
    | (d', none) => some (.plain (.returned (.ok ())), d', none)
    | (d', some (waiter, outputShares)) => some (.plain .goesOn, d', some (.sending clientId waiter outputShares))
  | .forget clientId waiter => actOn topology caller d (.outputSendFailed clientId waiter) none
  | .retireExecution | .resolveOutputEncryptionKey _ | .abandon _ | .send .. => none

variable {topology caller d} {d' : CoordinatorExecutionState} {outcome : NativeOutcome} {next : Option NativeStage}

theorem actOn_some {action : Action} {stage : Option NativeStage}
    (moved : actOn topology caller d action stage = some (outcome, d', next)) :
    ∃ reply, d.perform topology caller action = some (reply, d') := by
  obtain ⟨⟨reply, after⟩, performed, same⟩ := Option.map_eq_some_iff.mp moved
  cases same
  exact ⟨reply, performed⟩

/-- A section changes a live execution by one of its actions, or not at all. -/
theorem performOn_action {part : NativeSection} (moved : part.performOn topology caller d = some (outcome, d', next)) :
    d' = d ∨ ∃ action reply, action ≠ .retireExecution ∧ d.perform topology caller action = some (reply, d') := by
  have acts : ∀ action stage, actOn topology caller d action stage = some (outcome, d', next) →
      action ≠ .retireExecution → d' = d ∨ ∃ action reply, action ≠ .retireExecution ∧
        d.perform topology caller action = some (reply, d') := by
    intro action stage moved other
    obtain ⟨reply, performed⟩ := actOn_some moved
    exact Or.inr ⟨action, reply, other, performed⟩
  cases part with
  | availableInputMasks | subscribe =>
    cases moved
    exact Or.inl rfl
  | retireExecution | resolveOutputEncryptionKey | abandon | send => cases moved
  | accept topic =>
    refine acts _ _ moved ?_
    rcases topic with round | stream
    · nofun
    · cases stream <;> nofun
  | deliver clientId minShares isClosed =>
    have same : d' = (d.readyOutputSnapshot clientId minShares isClosed).1 := by
      simp only [performOn] at moved
      split at moved <;> rename_i found <;> rw [found] <;> cases moved <;> rfl
    refine Or.inr ⟨.deliverReadyOutput clientId isClosed, .ok (), nofun, ?_⟩
    rw [same, CoordinatorExecutionState.readyOutputSnapshot_fst _ _ d.registration.minOutputShares.toNat]
    rfl
  | _ => exact acts _ _ moved nofun

end NativeSection

/-- A coordinator that serves native connections, with the calls in flight. The
sessions are bound by browsers, and native calls only read them. -/
structure NativeServerState where
  shared : CoordinatorRPCServerSharedBase
  bindings : WebauthnBindings
  inFlight : List NativeTask

namespace NativeServerState

variable (topology : Topology) (s : NativeServerState)

def start : NativeServerState := ⟨.new, .empty, []⟩

/-- The calls in flight after a section of one: it has left the stage that it
was in, and is in the next one if there is one. -/
def goOn (executionId : ExecutionId) (caller : ClientIdentity) (part : NativeSection) (next : Option NativeStage) :
    List NativeTask :=
  next.toList.map (NativeTask.mk executionId caller) ++
    match part.stage with
    | none => s.inFlight
    | some stage => s.inFlight.erase ⟨executionId, caller, stage⟩

/-- A section that looks its execution up, as `execution_state` does. -/
def lookUp (executionId : ExecutionId) (caller : ClientIdentity) (part : NativeSection) :
    Option (NativeOutcome × NativeServerState) :=
  match part.refusal topology caller with
  | some refused => some (.plain (.returned refused), s)
  | none =>
    match s.shared.executions.lookup executionId with
    | none => some (.plain (part.absent executionId), { s with inFlight := s.goOn executionId caller part none })
    | some d => (part.performOn topology caller d).map fun (outcome, d', next) =>
        (outcome, { s with shared := s.shared.put executionId d', inFlight := s.goOn executionId caller part next })

/-- A section of a call that names an execution. -/
def within (executionId : ExecutionId) (caller : ClientIdentity) (part : NativeSection) :
    Option (NativeOutcome × NativeServerState) :=
  match part with
  | .retireExecution =>
    let result := (CoordinatorRPCServerConnectionBase.mk topology caller).retire s.shared executionId
    some (.plain (.returned result.1), { s with shared := result.2 })
  | .resolveOutputEncryptionKey clientId =>
    some (.plain (.encryptionKey (.ok (s.bindings.resolveEcdhPublicKey executionId clientId))), s)
  | .abandon _ => some (.plain .abandoned, { s with inFlight := s.goOn executionId caller part none })
  | .send clientId waiter outputShares delivered =>
    some (⟨if delivered then .returned (.ok ()) else .goesOn, [], [], [(waiter, outputShares, delivered)]⟩,
      { s with inFlight := s.goOn executionId caller part (if delivered then none else some (.failed clientId waiter)) })
  | part => s.lookUp topology executionId caller part

/-- What a call does; `order` is the order in which the hash map of executions
is walked. -/
def run (order : List ExecutionId) : NativeCall → Option (NativeOutcome × NativeServerState)
  | .registerExecution caller registration =>
    let result := (CoordinatorRPCServerConnectionBase.mk topology caller).registerExecution s.shared registration order
    some (.plain (.returned result.1), { s with shared := result.2 })
  | .requestShutdown caller =>
    let result := (CoordinatorRPCServerConnectionBase.mk topology caller).requestShutdown s.shared
    some (.plain (.returned result.1), { s with shared := result.2 })
  | .within executionId caller part => s.within topology executionId caller part

/-- The task whose next critical section a call runs. -/
def taskOf : NativeCall → Option NativeTask
  | .within executionId caller part => part.stage.map (NativeTask.mk executionId caller)
  | _ => none

/-- A handshake is what a call is waiting for that can be abandoned. -/
def isHandshake : NativeStage → Bool
  | .subscribing _ => true
  | .obtaining => true
  | _ => false

/-- A call only goes on while it is in flight. -/
def enabled (call : NativeCall) : Bool :=
  ((taskOf call).all fun task => decide (task ∈ s.inFlight)) &&
    match call with
    | .within _ _ (.abandon stage) => isHandshake stage
    | _ => true

def next (order : List ExecutionId) (call : NativeCall) : Option (NativeOutcome × NativeServerState) :=
  if s.enabled call then s.run topology order call else none

/-- One step of the coordinator: a native call runs a critical section. -/
def Step (exchange : Exchange NativeCall NativeOutcome) (s' : NativeServerState) : Prop :=
  ∃ order : List ExecutionId, order.toFinset = s.shared.executions.keys ∧
    s.next topology order exchange.call = some (exchange.outcome, s')

/-- The server as part of one that has a listener for browsers, on which
nothing has been requested. -/
def alongside : CoordinatorBrowserState := ⟨s.shared, .empty, s.bindings, .empty, []⟩

variable {topology s} {s' : NativeServerState} {executionId : ExecutionId} {caller : ClientIdentity}
  {part : NativeSection} {outcome : NativeOutcome}

/-- A section that looks its execution up is one of the actions on it, or changes nothing. -/
theorem lookUp_shared (moved : s.lookUp topology executionId caller part = some (outcome, s')) :
    s'.bindings = s.bindings ∧ (s'.shared = s.shared ∨ ∃ action reply, action ≠ .retireExecution ∧
      (CoordinatorRPCServerConnectionBase.mk topology caller).atExecution s.shared executionId action =
        some (reply, s'.shared)) := by
  unfold lookUp at moved
  split at moved
  · cases moved
    exact ⟨rfl, Or.inl rfl⟩
  split at moved
  · cases moved
    exact ⟨rfl, Or.inl rfl⟩
  rename_i d live
  obtain ⟨⟨answer, d', next⟩, performed, same⟩ := Option.map_eq_some_iff.mp moved
  cases same
  refine ⟨rfl, ?_⟩
  rcases NativeSection.performOn_action performed with rfl | ⟨action, reply, other, moved⟩
  · exact Or.inl (CoordinatorRPCServerSharedBase.put_self live)
  · refine Or.inr ⟨action, reply, other, ?_⟩
    simp only [CoordinatorRPCServerConnectionBase.atExecution, live, moved]
    rfl

theorem step_native_of_idle {listener : CoordinatorListener} {server : CoordinatorBrowserState} {action : Action}
    {reply : RpcResult Unit} {after : CoordinatorRPCServerSharedBase} (idle : server.inFlight = [])
    (other : action ≠ .retireExecution)
    (performed : (CoordinatorRPCServerConnectionBase.mk listener.topology caller).atExecution server.coordinator
      executionId action = some (reply, after)) :
    server.Step listener (.native executionId caller action) { server with coordinator := after } := by
  have own : server.foreign executionId action = false := by
    cases action <;> first | rfl | exact absurd rfl other | simp [CoordinatorBrowserState.foreign, idle]
  show server.native listener executionId caller action = _
  rw [CoordinatorBrowserState.native, own, if_neg Bool.false_ne_true, performed]
  rfl

theorem server_of_within {listener : CoordinatorListener}
    (moved : s.within listener.topology executionId caller part = some (outcome, s')) :
    s'.alongside = s.alongside ∨ ∃ event, s.alongside.Step listener event s'.alongside := by
  unfold within at moved
  split at moved
  · cases moved
    exact Or.inr ⟨.retire caller executionId, rfl⟩
  · cases moved
    exact Or.inl rfl
  · cases moved
    exact Or.inl rfl
  · cases moved
    exact Or.inl rfl
  · obtain ⟨kept, same | ⟨action, reply, other, performed⟩⟩ := lookUp_shared moved
    · exact Or.inl (by rw [alongside, alongside, same, kept])
    · have later : s'.alongside = { s.alongside with coordinator := s'.shared } := by
        rw [alongside, kept]
        rfl
      rw [later]
      exact Or.inr ⟨_, step_native_of_idle rfl other performed⟩

/-- A step of the native server is one of the server with a listener, unless it
leaves the coordinator alone. -/
theorem Step.server {listener : CoordinatorListener} {exchange : Exchange NativeCall NativeOutcome}
    (step : s.Step listener.topology exchange s') :
    s'.alongside = s.alongside ∨ ∃ event, s.alongside.Step listener event s'.alongside := by
  obtain ⟨order, walked, moved⟩ := step
  unfold next at moved
  split at moved
  swap
  · cases moved
  obtain ⟨call, outcome⟩ := exchange
  cases call with
  | registerExecution caller registration =>
    cases moved
    refine Or.inr ⟨.register caller registration order, ?_⟩
    show (if decide (order.toFinset = s.shared.executions.keys) then _ else none) = _
    rw [if_pos (decide_eq_true walked)]
    simp only [CoordinatorBrowserState.run, CoordinatorBrowserState.register, alongside]
    split <;> rfl
  | requestShutdown caller =>
    cases moved
    exact Or.inr ⟨.requestShutdown caller, rfl⟩
  | within executionId caller part => exact server_of_within moved

/-- What is true of every run of the server with a listener is true of the
native one: its runs are such runs. -/
theorem exists_server_run {listener : CoordinatorListener} {origin final : NativeServerState}
    {trace : List (Transition NativeServerState (Exchange NativeCall NativeOutcome))}
    (run : Run (Step listener.topology) origin trace final) :
    ∃ events, Run (CoordinatorBrowserState.Step listener) origin.alongside events final.alongside := by
  induction run with
  | start => exact ⟨[], .start⟩
  | next _ step ih =>
    obtain ⟨events, earlier⟩ := ih
    rcases step.server with same | ⟨event, taken⟩
    · exact ⟨events, by rwa [same]⟩
    · exact ⟨_, earlier.next taken⟩

end NativeServerState

end MpcCoordinator
