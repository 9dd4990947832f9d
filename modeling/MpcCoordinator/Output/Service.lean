import MpcCoordinator.Server.Retirement

namespace MpcCoordinator

/-- A call of `send_output_shares` or `obtain_output_shares` between two of its
critical sections, with what it carries from one to the next. -/
inductive OutputTask where
  | accepting (executionId : ExecutionId) (clientId : ClientIdentity)
  | delivering (executionId : ExecutionId) (clientId : ClientIdentity) (minShares : Nat)
  | sending (executionId : ExecutionId) (clientId : ClientIdentity) (waiter : SubscriptionSink)
      (outputShares : List EncryptedShares)
  | failed (executionId : ExecutionId) (clientId : ClientIdentity) (waiter : SubscriptionSink)
  deriving DecidableEq, Repr

/-- The call is on behalf of one client's outputs of one execution. -/
def OutputTask.serves (e : ExecutionId) (c : ClientIdentity) : OutputTask → Bool
  | .accepting executionId clientId => decide (executionId = e ∧ clientId = c)
  | .delivering executionId clientId _ => decide (executionId = e ∧ clientId = c)
  | .sending executionId clientId _ _ => decide (executionId = e ∧ clientId = c)
  | .failed executionId clientId _ => decide (executionId = e ∧ clientId = c)

/-- The section is one of an output call. -/
def Action.isOutput : Action → Bool
  | .sendOutputShares _ _ => true
  | .deliverReadyOutput _ _ => true
  | .outputSendFailed _ _ => true
  | .requestOutputShares _ => true
  | .obtainOutputShares _ _ => true
  | _ => false

/-- A snapshot that a waiting client was sent. -/
structure OutputMessage where
  executionId : ExecutionId
  clientId : ClientIdentity
  waiter : SubscriptionSink
  outputShares : List EncryptedShares
  deriving DecidableEq, Repr

/-- A coordinator with the output calls that are in flight, the subscriptions
accepted for them in order, those that are closed, and what was sent. -/
structure OutputServerState where
  server : CoordinatorBrowserState
  inFlight : List OutputTask
  accepted : List SubscriptionSink
  closed : Finset SubscriptionSink
  sent : List OutputMessage

/-- The critical sections of output calls and of all others, and what happens on
the network: handshakes and sends succeed or not, and subscriptions close. -/
inductive OutputEvent where
  | server (event : ServerEvent)
  | sendOutputShares (executionId : ExecutionId) (party clientId : ClientIdentity) (encShares : EncryptedShares)
  | requestOutputShares (executionId : ExecutionId) (clientId : ClientIdentity)
  | abandon (executionId : ExecutionId) (clientId : ClientIdentity)
  | obtainOutputShares (executionId : ExecutionId) (clientId : ClientIdentity) (handle : Nat)
  | deliver (executionId : ExecutionId) (clientId : ClientIdentity) (minShares : Nat)
  | send (executionId : ExecutionId) (clientId : ClientIdentity) (waiter : SubscriptionSink)
      (outputShares : List EncryptedShares) (delivered : Bool)
  | forget (executionId : ExecutionId) (clientId : ClientIdentity) (waiter : SubscriptionSink)
  | close (sink : SubscriptionSink)

namespace OutputServerState

variable (listener : CoordinatorListener) (s : OutputServerState)

def start : OutputServerState := ⟨.start, [], [], ∅, []⟩

def live (e : ExecutionId) : Option CoordinatorExecutionState := s.server.live e

def isClosed (sink : SubscriptionSink) : Bool := decide (sink ∈ s.closed)

/-- A call returns. -/
def leave (task : OutputTask) : OutputServerState := { s with inFlight := s.inFlight.erase task }

/-- A call begins, or goes on to its next critical section. -/
def enter (task : OutputTask) : OutputServerState := { s with inFlight := task :: s.inFlight }

def put (executionId : ExecutionId) (d : CoordinatorExecutionState) : OutputServerState :=
  { s with server := { s.server with coordinator := s.server.coordinator.put executionId d } }

/-- Output sections of native connections are run by the calls in flight. -/
def isOutputSection : ServerEvent → Bool
  | .native _ _ action => action.isOutput
  | _ => false

def sendOutputShares (executionId : ExecutionId) (party clientId : ClientIdentity) (encShares : EncryptedShares) :
    OutputServerState :=
  match s.live executionId with
  | none => s
  | some d =>
    match (CoordinatorRPCServerConnectionBase.mk listener.topology party).sendOutputShares d clientId encShares with
    | .error _ => s
    | .ok d' => (s.put executionId d').enter (.delivering executionId clientId d.registration.minOutputShares.toNat)

def requestOutputShares (executionId : ExecutionId) (clientId : ClientIdentity) : OutputServerState :=
  match s.live executionId with
  | none => s
  | some d =>
    match (CoordinatorRPCServerConnectionBase.mk listener.topology clientId).checkObtainOutputShares d s.isClosed with
    | .error _ => s
    | .ok () => s.enter (.accepting executionId clientId)

/-- What becomes of an accepted subscription: it waits, unless its execution is
gone or another subscription of the client waits already. -/
def obtainOutputShares (executionId : ExecutionId) (clientId : ClientIdentity) (handle : Nat) : OutputServerState :=
  let sink : SubscriptionSink := ⟨handle, clientId⟩
  let s := { s.leave (.accepting executionId clientId) with accepted := s.accepted ++ [sink] }
  match s.live executionId with
  | none => s
  | some d =>
    if d.outputClients.contains clientId = false ∨
        (d.outputSinks clientId).any (fun current => !s.isClosed current) = true then s
    else
      (s.put executionId { d with outputSinks := d.outputSinks.insert clientId sink }).enter
        (.delivering executionId clientId d.registration.minOutputShares.toNat)

/-- The second critical section of both calls. It expects that the execution
is still registered; otherwise it panics, and the call ends there. -/
def deliverReadyOutputWaiters (executionId : ExecutionId) (clientId : ClientIdentity) (minShares : Nat) :
    OutputServerState :=
  let s := s.leave (.delivering executionId clientId minShares)
  match s.live executionId with
  | none => s
  | some d =>
    match d.readyOutputSnapshot clientId minShares s.isClosed with
    | (d', none) => s.put executionId d'
    | (d', some (waiter, outputShares)) =>
      (s.put executionId d').enter (.sending executionId clientId waiter outputShares)

def send (executionId : ExecutionId) (clientId : ClientIdentity) (waiter : SubscriptionSink)
    (outputShares : List EncryptedShares) (delivered : Bool) : OutputServerState :=
  let s := s.leave (.sending executionId clientId waiter outputShares)
  if delivered then { s with sent := s.sent ++ [⟨executionId, clientId, waiter, outputShares⟩] }
  else s.enter (.failed executionId clientId waiter)

def forgetOutputSink (executionId : ExecutionId) (clientId : ClientIdentity) (waiter : SubscriptionSink) :
    OutputServerState :=
  let s := s.leave (.failed executionId clientId waiter)
  match s.live executionId with
  | none => s
  | some d => s.put executionId (d.forgetOutputSink clientId waiter)

/-- The call whose next critical section an event is. -/
def taskOf : OutputEvent → Option OutputTask
  | .abandon executionId clientId => some (.accepting executionId clientId)
  | .obtainOutputShares executionId clientId _ => some (.accepting executionId clientId)
  | .deliver executionId clientId minShares => some (.delivering executionId clientId minShares)
  | .send executionId clientId waiter outputShares _ => some (.sending executionId clientId waiter outputShares)
  | .forget executionId clientId waiter => some (.failed executionId clientId waiter)
  | _ => none

/-- A call only goes on while it is in flight, and each accepted subscription is a new one. -/
def enabled (event : OutputEvent) : Bool :=
  ((taskOf event).all fun task => decide (task ∈ s.inFlight)) &&
    match event with
    | .server event => !isOutputSection event
    | .obtainOutputShares _ clientId handle => decide (⟨handle, clientId⟩ ∉ s.accepted)
    | _ => true

def run : OutputEvent → Option OutputServerState
  | .server event => (s.server.next listener event).map fun server => { s with server := server }
  | .sendOutputShares executionId party clientId encShares =>
    some (s.sendOutputShares listener executionId party clientId encShares)
  | .requestOutputShares executionId clientId => some (s.requestOutputShares listener executionId clientId)
  | .abandon executionId clientId => some (s.leave (.accepting executionId clientId))
  | .obtainOutputShares executionId clientId handle => some (s.obtainOutputShares executionId clientId handle)
  | .deliver executionId clientId minShares => some (s.deliverReadyOutputWaiters executionId clientId minShares)
  | .send executionId clientId waiter outputShares delivered =>
    some (s.send executionId clientId waiter outputShares delivered)
  | .forget executionId clientId waiter => some (s.forgetOutputSink executionId clientId waiter)
  | .close sink => some { s with closed := insert sink s.closed }

def next (event : OutputEvent) : Option OutputServerState :=
  if s.enabled event then s.run listener event else none

/-- One step of the coordinator, with its output calls in view. -/
def Step (event : OutputEvent) (s' : OutputServerState) : Prop := s.next listener event = some s'

/-- What a step can do. Every property of output calls is proved by these cases. -/
inductive Effect : OutputEvent → OutputServerState → Prop
  | server {event server} : isOutputSection event = false → s.server.Step listener event server →
      Effect (.server event) { s with server := server }
  | unshared {executionId party clientId encShares} : Effect (.sendOutputShares executionId party clientId encShares) s
  | unrequested {executionId clientId} : Effect (.requestOutputShares executionId clientId) s
  | shared {executionId party clientId encShares d d'} : s.live executionId = some d →
      (CoordinatorRPCServerConnectionBase.mk listener.topology party).sendOutputShares d clientId encShares = .ok d' →
      Effect (.sendOutputShares executionId party clientId encShares)
        ((s.put executionId d').enter (.delivering executionId clientId d.registration.minOutputShares.toNat))
  | requested {executionId clientId} : Effect (.requestOutputShares executionId clientId)
      (s.enter (.accepting executionId clientId))
  | abandoned {executionId clientId} : Effect (.abandon executionId clientId) (s.leave (.accepting executionId clientId))
  | late {executionId clientId handle} : ⟨handle, clientId⟩ ∉ s.accepted →
      Effect (.obtainOutputShares executionId clientId handle)
        { s.leave (.accepting executionId clientId) with accepted := s.accepted ++ [⟨handle, clientId⟩] }
  | waiting {executionId clientId handle d} : ⟨handle, clientId⟩ ∉ s.accepted → s.live executionId = some d →
      clientId ∈ d.outputClients → (∀ current, d.outputSinks clientId = some current → current ∈ s.closed) →
      Effect (.obtainOutputShares executionId clientId handle)
        ((put { s.leave (.accepting executionId clientId) with accepted := s.accepted ++ [⟨handle, clientId⟩] } executionId
          { d with outputSinks := d.outputSinks.insert clientId ⟨handle, clientId⟩ }).enter
          (.delivering executionId clientId d.registration.minOutputShares.toNat))
  | panicked {executionId clientId minShares} : s.live executionId = none →
      Effect (.deliver executionId clientId minShares) (s.leave (.delivering executionId clientId minShares))
  | unready {executionId clientId minShares d d'} : s.live executionId = some d →
      d.readyOutputSnapshot clientId minShares s.isClosed = (d', none) →
      Effect (.deliver executionId clientId minShares)
        ((s.leave (.delivering executionId clientId minShares)).put executionId d')
  | ready {executionId clientId minShares d d' waiter outputShares} : s.live executionId = some d →
      d.readyOutputSnapshot clientId minShares s.isClosed = (d', some (waiter, outputShares)) →
      Effect (.deliver executionId clientId minShares)
        (((s.leave (.delivering executionId clientId minShares)).put executionId d').enter
          (.sending executionId clientId waiter outputShares))
  | delivered {executionId clientId waiter outputShares} :
      Effect (.send executionId clientId waiter outputShares true)
        { s.leave (.sending executionId clientId waiter outputShares) with
          sent := s.sent ++ [⟨executionId, clientId, waiter, outputShares⟩] }
  | undelivered {executionId clientId waiter outputShares} :
      Effect (.send executionId clientId waiter outputShares false)
        ((s.leave (.sending executionId clientId waiter outputShares)).enter (.failed executionId clientId waiter))
  | vanished {executionId clientId waiter} : s.live executionId = none →
      Effect (.forget executionId clientId waiter) (s.leave (.failed executionId clientId waiter))
  | forgotten {executionId clientId waiter d} : s.live executionId = some d →
      Effect (.forget executionId clientId waiter)
        ((s.leave (.failed executionId clientId waiter)).put executionId (d.forgetOutputSink clientId waiter))
  | closed {sink} : Effect (.close sink) { s with closed := insert sink s.closed }

variable {listener s} {event : OutputEvent} {s' : OutputServerState}

theorem Step.enabled_run (step : s.Step listener event s') : s.enabled event = true ∧ s.run listener event = some s' := by
  unfold Step next at step
  split at step
  · rename_i enabled
    exact ⟨enabled, step⟩
  · cases step

/-- A call that goes on was in flight. -/
theorem Step.in_flight (step : s.Step listener event s') {task : OutputTask} (mine : taskOf event = some task) :
    task ∈ s.inFlight := by
  have enabled := (Bool.and_eq_true_iff.mp step.enabled_run.1).1
  simpa [mine] using enabled

theorem Step.effect (step : s.Step listener event s') : Effect listener s event s' := by
  obtain ⟨enabled, moved⟩ := step.enabled_run
  cases event with
  | server event =>
    obtain ⟨server, taken, rfl⟩ := Option.map_eq_some_iff.mp moved
    exact .server (by simpa [OutputServerState.enabled, taskOf] using enabled) taken
  | sendOutputShares executionId party clientId encShares =>
    cases moved
    unfold sendOutputShares
    split
    · exact .unshared
    · rename_i here
      split
      · exact .unshared
      · rename_i stored
        exact .shared here stored
  | requestOutputShares executionId clientId =>
    cases moved
    unfold requestOutputShares
    split
    · exact .unrequested
    · split
      · exact .unrequested
      · exact .requested
  | abandon executionId clientId =>
    cases moved
    exact .abandoned
  | obtainOutputShares executionId clientId handle =>
    cases moved
    have fresh : ⟨handle, clientId⟩ ∉ s.accepted := by
      simpa [OutputServerState.enabled] using (Bool.and_eq_true_iff.mp enabled).2
    unfold obtainOutputShares
    dsimp only
    split
    · exact .late fresh
    · rename_i d here
      split
      · exact .late fresh
      · rename_i free
        simp only [not_or, Bool.not_eq_false, Bool.not_eq_true, List.contains_iff_mem] at free
        refine .waiting fresh here free.1 fun current held => ?_
        have shut := free.2
        rw [held, Option.any_some, Bool.not_eq_false'] at shut
        exact of_decide_eq_true shut
  | deliver executionId clientId minShares =>
    cases moved
    unfold deliverReadyOutputWaiters
    dsimp only
    split
    · rename_i absent
      exact .panicked absent
    · rename_i d here
      split
      · rename_i snapshot
        exact .unready here snapshot
      · rename_i snapshot
        exact .ready here snapshot
  | send executionId clientId waiter outputShares delivered =>
    cases moved
    cases delivered with
    | true => exact .delivered
    | false => exact .undelivered
  | forget executionId clientId waiter =>
    cases moved
    unfold forgetOutputSink
    dsimp only
    split
    · rename_i absent
      exact .vanished absent
    · rename_i d here
      exact .forgotten here
  | close sink =>
    cases moved
    exact .closed

/-- How a call gets to its next critical section. -/
inductive Arrives (s : OutputServerState) : OutputEvent → OutputTask → Prop
  | requested {executionId clientId} : Arrives s (.requestOutputShares executionId clientId)
      (.accepting executionId clientId)
  | shared {executionId party clientId encShares d} : s.live executionId = some d →
      Arrives s (.sendOutputShares executionId party clientId encShares)
        (.delivering executionId clientId d.registration.minOutputShares.toNat)
  | waiting {executionId clientId handle d} : s.live executionId = some d →
      Arrives s (.obtainOutputShares executionId clientId handle)
        (.delivering executionId clientId d.registration.minOutputShares.toNat)
  | ready {executionId clientId minShares d waiter outputShares} : s.live executionId = some d →
      d.readyOutputSnapshot clientId minShares s.isClosed = (d, some (waiter, outputShares)) →
      Arrives s (.deliver executionId clientId minShares) (.sending executionId clientId waiter outputShares)
  | undelivered {executionId clientId waiter outputShares} :
      Arrives s (.send executionId clientId waiter outputShares false) (.failed executionId clientId waiter)

theorem mem_enter {task other : OutputTask} (member : task ∈ (s.enter other).inFlight) : task = other ∨ task ∈ s.inFlight :=
  List.mem_cons.mp member

theorem mem_advance {task old new : OutputTask} (member : task ∈ new :: s.inFlight.erase old) :
    task = new ∨ task ∈ s.inFlight :=
  (List.mem_cons.mp member).imp_right List.mem_of_mem_erase

theorem Step.arrives (step : s.Step listener event s') {task : OutputTask} (member : task ∈ s'.inFlight) :
    task ∈ s.inFlight ∨ Arrives s event task := by
  cases step.effect with
  | server | unshared | unrequested | closed => exact Or.inl member
  | abandoned | late | panicked | unready | delivered | vanished | forgotten =>
    exact Or.inl (List.mem_of_mem_erase member)
  | requested =>
    rcases mem_enter member with rfl | old
    · exact Or.inr .requested
    · exact Or.inl old
  | shared here _ =>
    rcases mem_enter member with rfl | old
    · exact Or.inr (.shared here)
    · exact Or.inl old
  | waiting _ here _ _ =>
    rcases mem_advance member with rfl | old
    · exact Or.inr (.waiting here)
    · exact Or.inl old
  | ready here snapshot =>
    obtain ⟨rfl, _⟩ := CoordinatorExecutionState.readyOutputSnapshot_some.mp snapshot
    rcases mem_advance member with rfl | old
    · exact Or.inr (.ready here snapshot)
    · exact Or.inl old
  | undelivered =>
    rcases mem_advance member with rfl | old
    · exact Or.inr .undelivered
    · exact Or.inl old

/-- What was sent was with a call that was sending it. -/
theorem Step.sent_cases (step : s.Step listener event s') {message : OutputMessage} (member : message ∈ s'.sent) :
    message ∈ s.sent ∨
      .sending message.executionId message.clientId message.waiter message.outputShares ∈ s.inFlight := by
  cases step.effect with
  | delivered =>
    have sending := step.in_flight rfl
    rcases List.mem_append.mp member with old | new
    · exact Or.inl old
    · cases List.mem_singleton.mp new
      exact Or.inr sending
  | _ => exact Or.inl member

theorem step_native {server : CoordinatorBrowserState} {executionId : ExecutionId} {caller : ClientIdentity}
    {action : Action} {reply : RpcResult Unit} {d d' : CoordinatorExecutionState}
    (domestic : server.foreign executionId action = false) (here : server.live executionId = some d)
    (performed : d.perform listener.topology caller action = some (reply, d')) :
    server.Step listener (.native executionId caller action)
      { server with coordinator := server.coordinator.put executionId d' } := by
  have present : server.coordinator.executions.lookup executionId = some d := here
  rw [CoordinatorBrowserState.Step, CoordinatorBrowserState.next, if_pos (by rfl)]
  simp only [CoordinatorBrowserState.run, CoordinatorBrowserState.native, domestic,
    CoordinatorRPCServerConnectionBase.atExecution, present, performed]
  rfl

theorem perform_deliver {d d' : CoordinatorExecutionState} {clientId caller : ClientIdentity} {minShares : Nat}
    {isClosed : SubscriptionSink → Bool} (moved : (d.readyOutputSnapshot clientId minShares isClosed).1 = d') :
    d.perform listener.topology caller (.deliverReadyOutput clientId isClosed) = some (.ok (), d') := by
  rw [CoordinatorExecutionState.perform, CoordinatorExecutionState.readyOutputSnapshot_fst clientId _ minShares, moved]

/-- With its output calls out of view, a step is one of the coordinator, or
none: a registration stays one, and all else that moves executions is native. -/
theorem Step.server_cases (step : s.Step listener event s') :
    s'.server = s.server ∨ ∃ serverEvent, s.server.Step listener serverEvent s'.server ∧
      (event = .server serverEvent ∨ ∃ executionId caller action, serverEvent = .native executionId caller action) := by
  cases step.effect with
  | server _ taken => exact Or.inr ⟨_, taken, Or.inl rfl⟩
  | unshared | unrequested | requested | abandoned | late | panicked | delivered | undelivered | vanished | closed =>
    exact Or.inl rfl
  | @shared executionId party clientId encShares d d' here stored =>
    refine Or.inr ⟨.native executionId party (.sendOutputShares clientId encShares), ?_, Or.inr ⟨_, _, _, rfl⟩⟩
    have performed : d.perform listener.topology party (.sendOutputShares clientId encShares) = some (.ok (), d') := by
      simp only [CoordinatorExecutionState.perform, stored]
    exact step_native rfl here performed
  | @waiting executionId clientId handle d _ here authorized free =>
    refine Or.inr ⟨.native executionId clientId (.obtainOutputShares ⟨handle, clientId⟩ s.isClosed), ?_,
      Or.inr ⟨_, _, _, rfl⟩⟩
    have waits : (CoordinatorRPCServerConnectionBase.mk listener.topology clientId).obtainOutputShares d
        ⟨handle, clientId⟩ s.isClosed =
          { d with outputSinks := d.outputSinks.insert clientId ⟨handle, clientId⟩ } := by
      rw [CoordinatorRPCServerConnectionBase.obtainOutputShares, if_neg]
      rw [not_or, Bool.not_eq_false, List.contains_iff_mem]
      refine ⟨authorized, ?_⟩
      cases held : d.outputSinks clientId with
      | none => simp
      | some current => simp [isClosed, free current held]
    have performed : d.perform listener.topology clientId (.obtainOutputShares ⟨handle, clientId⟩ s.isClosed) =
        some (.ok (), { d with outputSinks := d.outputSinks.insert clientId ⟨handle, clientId⟩ }) := by
      rw [CoordinatorExecutionState.perform, waits]
    exact step_native rfl here performed
  | @unready executionId clientId minShares d d' here snapshot =>
    refine Or.inr ⟨.native executionId clientId (.deliverReadyOutput clientId s.isClosed), ?_, Or.inr ⟨_, _, _, rfl⟩⟩
    exact step_native rfl here (perform_deliver (by rw [snapshot]))
  | @ready executionId clientId minShares d d' waiter outputShares here snapshot =>
    refine Or.inr ⟨.native executionId clientId (.deliverReadyOutput clientId s.isClosed), ?_, Or.inr ⟨_, _, _, rfl⟩⟩
    exact step_native rfl here (perform_deliver (by rw [snapshot]))
  | @forgotten executionId clientId waiter d here =>
    refine Or.inr ⟨.native executionId clientId (.outputSendFailed clientId waiter), ?_, Or.inr ⟨_, _, _, rfl⟩⟩
    exact step_native rfl here rfl

theorem isOutput_of_sectionOf {server : CoordinatorBrowserState} {serverEvent : ServerEvent} {executionId : ExecutionId}
    {caller : ClientIdentity} {action : Action} (aside : isOutputSection serverEvent = false)
    (here : CoordinatorBrowserState.sectionOf listener server serverEvent = some (executionId, caller, action)) :
    action.isOutput = false := by
  cases serverEvent with
  | native =>
    cases here
    exact aside
  | finish =>
    cases here
    rfl
  | retire | reserve | submit =>
    simp only [CoordinatorBrowserState.sectionOf] at here
    split at here <;> cases here
    rfl
  | _ => cases here

/-- A run with output calls in view is one of the coordinator. -/
theorem exists_server_run {trace : List (Transition OutputServerState OutputEvent)} {final : OutputServerState}
    (run : Run (Step listener) start trace final) :
    ∃ serverTrace, Run (CoordinatorBrowserState.Step listener) .start serverTrace final.server := by
  induction run with
  | start => exact ⟨[], .start⟩
  | next _ step ih =>
    obtain ⟨serverTrace, server⟩ := ih
    rcases step.server_cases with same | ⟨serverEvent, taken, _⟩
    · rw [same]
      exact ⟨serverTrace, server⟩
    · exact ⟨_, server.next taken⟩

/-- Calls that register and retire executions can be made around output calls. -/
theorem exists_run_of_roster {first last : CoordinatorBrowserState}
    {serverTrace : List (Transition CoordinatorBrowserState ServerEvent)}
    (run : Run (CoordinatorBrowserState.RosterStep listener) first serverTrace last) (begins : s.server = first) :
    ∃ trace, Run (Step listener) s trace { s with server := last } := by
  induction run with
  | start =>
    subst begins
    exact ⟨[], .start⟩
  | @next _ current event after _ taken ih =>
    obtain ⟨trace, earlier⟩ := ih
    have aside : isOutputSection event = false := by
      cases event <;> first | rfl | exact absurd taken.2 id
    have step : Step listener { s with server := current } (.server event) { s with server := after } := by
      rw [Step, next, if_pos (by simp [enabled, taskOf, aside]), OutputServerState.run,
        show current.next listener event = some after from taken.1]
      rfl
    exact ⟨_, earlier.next step⟩

theorem step_of_run (enabled : s.enabled event = true) (moved : s.run listener event = some s') :
    s.Step listener event s' := by
  rw [Step, next, if_pos enabled, moved]

theorem step_sendOutputShares {executionId : ExecutionId} {party clientId : ClientIdentity} {encShares : EncryptedShares}
    {d d' : CoordinatorExecutionState} (here : s.live executionId = some d)
    (stored : (CoordinatorRPCServerConnectionBase.mk listener.topology party).sendOutputShares d clientId encShares =
      .ok d') : s.Step listener (.sendOutputShares executionId party clientId encShares)
        ((s.put executionId d').enter (.delivering executionId clientId d.registration.minOutputShares.toNat)) := by
  refine step_of_run rfl ?_
  simp only [OutputServerState.run, sendOutputShares, here, stored]

/-- A delivery that is due can always take place. -/
theorem step_deliver (listener : CoordinatorListener) {executionId : ExecutionId} {clientId : ClientIdentity}
    {minShares : Nat} (due : .delivering executionId clientId minShares ∈ s.inFlight) :
    s.Step listener (.deliver executionId clientId minShares)
      (s.deliverReadyOutputWaiters executionId clientId minShares) :=
  step_of_run (by simp [enabled, taskOf, due]) rfl

/-- A delivery that finds enough shares goes on to send them. -/
theorem step_deliver_ready (listener : CoordinatorListener) {executionId : ExecutionId} {clientId : ClientIdentity}
    {minShares : Nat} {d d' : CoordinatorExecutionState} {waiter : SubscriptionSink} {outputShares : List EncryptedShares}
    (due : .delivering executionId clientId minShares ∈ s.inFlight) (here : s.live executionId = some d)
    (snapshot : d.readyOutputSnapshot clientId minShares s.isClosed = (d', some (waiter, outputShares))) :
    s.Step listener (.deliver executionId clientId minShares)
      (((s.leave (.delivering executionId clientId minShares)).put executionId d').enter
        (.sending executionId clientId waiter outputShares)) := by
  have found : (s.leave (.delivering executionId clientId minShares)).live executionId = some d := here
  have ready : d.readyOutputSnapshot clientId minShares
      (s.leave (.delivering executionId clientId minShares)).isClosed = (d', some (waiter, outputShares)) := snapshot
  refine step_of_run (by simp [enabled, taskOf, due]) ?_
  simp only [OutputServerState.run, deliverReadyOutputWaiters, found, ready]

theorem live_of_put {executionId : ExecutionId} {d : CoordinatorExecutionState}
    (same : s'.server = (s.put executionId d).server) (e : ExecutionId) :
    s'.live e = if e = executionId then some d else s.live e := by
  rw [live, same]
  split
  · rename_i named
    rw [named]
    exact CoordinatorRPCServerSharedBase.lookup_put_self d
  · rename_i different
    exact CoordinatorRPCServerSharedBase.lookup_put_of_ne d different

/-- A client without a subscription can be given one. -/
theorem exists_run_subscribed (listener : CoordinatorListener) {executionId : ExecutionId} {clientId : ClientIdentity} {handle : Nat}
    {d : CoordinatorExecutionState} (here : s.live executionId = some d) (authorized : clientId ∈ d.outputClients)
    (free : d.outputSinks clientId = none) (fresh : ⟨handle, clientId⟩ ∉ s.accepted) :
    ∃ trace s', Run (Step listener) s trace s' ∧
      s'.live executionId = some { d with outputSinks := d.outputSinks.insert clientId ⟨handle, clientId⟩ } ∧
      s'.inFlight = .delivering executionId clientId d.registration.minOutputShares.toNat :: s.inFlight ∧
      s'.closed = s.closed := by
  have checked : (CoordinatorRPCServerConnectionBase.mk listener.topology clientId).checkObtainOutputShares d s.isClosed =
      .ok () := by
    simp [CoordinatorRPCServerConnectionBase.checkObtainOutputShares, authorized, free]
  have requesting : s.Step listener (.requestOutputShares executionId clientId)
      (s.enter (.accepting executionId clientId)) := by
    refine step_of_run rfl ?_
    simp only [OutputServerState.run, requestOutputShares, here, checked]
  have left : (s.enter (.accepting executionId clientId)).leave (.accepting executionId clientId) = s := by
    simp [enter, leave]
  have found : ({ s with accepted := s.accepted ++ [⟨handle, clientId⟩] } : OutputServerState).live executionId = some d :=
    here
  have obtaining : (s.enter (.accepting executionId clientId)).Step listener
      (.obtainOutputShares executionId clientId handle)
      ((put { s with accepted := s.accepted ++ [⟨handle, clientId⟩] } executionId
        { d with outputSinks := d.outputSinks.insert clientId ⟨handle, clientId⟩ }).enter
          (.delivering executionId clientId d.registration.minOutputShares.toNat)) := by
    refine step_of_run (by simp [enabled, taskOf, enter, fresh]) ?_
    simp only [OutputServerState.run, obtainOutputShares, left]
    simp only [enter, found, free, authorized, Option.any_none, Bool.false_eq_true, or_false, List.contains_eq_mem,
      decide_true, Bool.true_eq_false, if_false]
  exact ⟨_, _, (Run.start.next requesting).next obtaining, (live_of_put (s := s) rfl executionId).trans (if_pos rfl),
    rfl, rfl⟩

theorem eq_of_put {executionId : ExecutionId} {d after : CoordinatorExecutionState}
    (same : s'.server = (s.put executionId d).server) (here : s'.live executionId = some after) : after = d := by
  rw [live_of_put same, if_pos rfl] at here
  exact (Option.some.inj here).symm

end OutputServerState

end MpcCoordinator
