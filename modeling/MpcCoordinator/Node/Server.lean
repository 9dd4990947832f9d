import MpcCoordinator.General.Handles
import MpcCoordinator.General.Refinement
import MpcCoordinator.Node.Ownership
import MpcCoordinator.Node.Ceremonies

namespace MpcCoordinator

deriving instance DecidableEq for NodeAction

/-- The call is a browser's poll, which comes in by the other transport. -/
def NodeAction.isPoll {S : Type} : NodeAction S → Bool
  | .browserAssignedMaskShares _ _ => true
  | _ => false

/-- What does not change while a node runs. -/
structure NodeTransport (S : Type) where
  codec : ShareCodec S
  listener : NodeListener
  parseRange : Bytes → Except String MaskRange

/-- A call between two of its critical sections. One that has found its
execution holds a handle to it, and no longer depends on what the id names. -/
inductive NodeTask (S : Type) where
  | calling (handle : Nat) (action : NodeAction S)
  | identified (call : BrowserCall) (nonce : Vector UInt8 16) (identity : ClientIdentity)
  | authenticated (call : BrowserCall) (identity : ClientIdentity)
  | polling (handle : Nat) (call : BrowserCall) (identity : ClientIdentity) (range : MaskRange)
  deriving DecidableEq

/-- The section that a call runs on its execution, and the handle it holds. -/
def NodeTask.onExecution {S : Type} : NodeTask S → Option (Nat × NodeAction S)
  | .calling handle action => some (handle, action)
  | .polling handle _ identity range => some (handle, .browserAssignedMaskShares identity range)
  | _ => none

/-- A node that serves native connections and browsers. `states` has the state
of every execution that was ever registered: a handle is a place in it, and
`executions` has the handles that calls are given now. -/
structure NodeServerState (S : Type) where
  executions : Finmap fun _ : ExecutionId => Nat
  states : List NodeRPCExecutionState
  nonces : NonceBook
  browser : NodeBrowserState
  inFlight : List (NodeTask S)

/-- The critical sections that calls run. The wall clock and random draws are
part of the event, and so are the replies that a section sends. -/
inductive NodeEvent (S : Type) where
  | register (executionId : ExecutionId)
  | retire (executionId : ExecutionId)
  | call (executionId : ExecutionId) (action : NodeAction S)
  | bind (event : NodeBindEvent)
  | identify (call : BrowserCall)
  | acceptNonce (call : BrowserCall) (nonce : Vector UInt8 16) (identity : ClientIdentity) (now : UInt64)
  | locate (call : BrowserCall) (identity : ClientIdentity)
  | act (task : NodeTask S) (replies : List MaskReply)

def assignedMaskSharesMethod : String := "browser_assigned_mask_shares"

namespace NodeServerState

variable {S : Type} [DecidableEq S] (transport : NodeTransport S) (s : NodeServerState S)

def start : NodeServerState S := ⟨∅, [], .empty, .start, []⟩

def registerExecution (executionId : ExecutionId) : Except CoordinatorError Unit × NodeServerState S :=
  if executionId.isZero then
    (.error (.jsonError "zero execution IDs are not valid for persistent RPC listeners"), s)
  else if executionId ∈ s.executions then
    (.error (.jsonError (.about "Execution " executionId " is already registered")), s)
  else if defaultMaxConcurrentExecutions ≤ s.executions.keys.card then
    (.error (.jsonError s!"Execution capacity {defaultMaxConcurrentExecutions} reached"), s)
  else
    (.ok (), { s with
      executions := s.executions.insert executionId s.states.length
      states := s.states ++ [.new] })

def retireExecution (executionId : ExecutionId) : Bool × NodeServerState S :=
  ((s.executions.lookup executionId).isSome, { s with executions := s.executions.erase executionId })

/-- The handle that a call is given. -/
def executionState (executionId : ExecutionId) : Option Nat := s.executions.lookup executionId

def enter (task : NodeTask S) : NodeServerState S := { s with inFlight := task :: s.inFlight }

def leave (task : NodeTask S) : NodeServerState S := { s with inFlight := s.inFlight.erase task }

/-- A call of the node's own process or of a native connection looks its
execution up. It fails if there is none. -/
def call (executionId : ExecutionId) (action : NodeAction S) : NodeServerState S :=
  match s.executionState executionId with
  | none => s
  | some handle => s.enter (.calling handle action)

/-- The first half of `authenticate`, up to the lock on the nonces. -/
def identify (call : BrowserCall) : NodeServerState S :=
  match transport.listener.primitives.verifySignedRequest assignedMaskSharesMethod call with
  | .error _ => s
  | .ok nonce =>
    match s.browser.bindings.identify call with
    | .error _ => s
    | .ok identity => s.enter (.identified call nonce identity)

def acceptNonce (call : BrowserCall) (nonce : Vector UInt8 16) (identity : ClientIdentity) (now : UInt64) :
    NodeServerState S :=
  match s.nonces.accept call.executionId identity call.request.created nonce now with
  | (.error _, nonces) => { s.leave (.identified call nonce identity) with nonces := nonces }
  | (.ok (), nonces) =>
    { (s.leave (.identified call nonce identity)).enter (.authenticated call identity) with nonces := nonces }

/-- What a poll that is refused is told. -/
def locateRange (call : BrowserCall) : RpcResult (Nat × MaskRange) :=
  match parseBody (transport.parseRange call.request.body) with
  | .error refusal => .error refusal
  | .ok range =>
    match s.executionState call.executionId with
    | none => executionNotRegistered
    | some handle => .ok (handle, range)

def locate (call : BrowserCall) (identity : ClientIdentity) : NodeServerState S :=
  match s.locateRange transport call with
  | .error _ => s.leave (.authenticated call identity)
  | .ok (handle, range) => (s.leave (.authenticated call identity)).enter (.polling handle call identity range)

/-- A call runs its section on its execution and returns. -/
def act (task : NodeTask S) (replies : List MaskReply) : Option (NodeServerState S) :=
  match task.onExecution with
  | none => none
  | some (handle, action) =>
    match s.states[handle]? with
    | none => none
    | some d =>
      if (d.respond transport.codec action).1 = replies then
        some { s.leave task with states := s.states.set handle (d.respond transport.codec action).2 }
      else none

/-- The call whose next critical section an event is. -/
def taskOf : NodeEvent S → Option (NodeTask S)
  | .acceptNonce call nonce identity _ => some (.identified call nonce identity)
  | .locate call identity => some (.authenticated call identity)
  | .act task _ => some task
  | _ => none

/-- A call only goes on while it is in flight, and polls are no native calls. -/
def enabled (event : NodeEvent S) : Bool :=
  ((taskOf event).all fun task => decide (task ∈ s.inFlight)) &&
    match event with
    | .call _ action => !action.isPoll
    | _ => true

def run : NodeEvent S → Option (NodeServerState S)
  | .register executionId => some (s.registerExecution executionId).2
  | .retire executionId => some (s.retireExecution executionId).2
  | .call executionId action => some (s.call executionId action)
  | .bind event => (s.browser.next transport.listener event).map fun browser => { s with browser := browser }
  | .identify call => some (s.identify transport call)
  | .acceptNonce call nonce identity now => some (s.acceptNonce call nonce identity now)
  | .locate call identity => some (s.locate transport call identity)
  | .act task replies => s.act transport task replies

def next (event : NodeEvent S) : Option (NodeServerState S) :=
  if s.enabled event then s.run transport event else none

/-- One step of the node: a call runs a critical section. -/
def Step (event : NodeEvent S) (s' : NodeServerState S) : Prop := s.next transport event = some s'

/-- What a step can do. Every property of the node is proved by these cases. -/
inductive Effect : NodeEvent S → NodeServerState S → Prop
  | unregistered {executionId} : (s.registerExecution executionId).1 ≠ .ok () → Effect (.register executionId) s
  | registered {executionId} : executionId.isZero = false → executionId ∉ s.executions →
      s.executions.keys.card < defaultMaxConcurrentExecutions → (s.registerExecution executionId).1 = .ok () →
      Effect (.register executionId)
        { s with executions := s.executions.insert executionId s.states.length, states := s.states ++ [.new] }
  | retired {executionId} : Effect (.retire executionId) { s with executions := s.executions.erase executionId }
  | lost {executionId action} : Effect (.call executionId action) s
  | called {executionId action handle} : s.executionState executionId = some handle → action.isPoll = false →
      Effect (.call executionId action) (s.enter (.calling handle action))
  | bound {event browser} : s.browser.Step transport.listener event browser →
      Effect (.bind event) { s with browser := browser }
  | unidentified {call} : Effect (.identify call) s
  | identified {call nonce identity} :
      transport.listener.primitives.verifySignedRequest assignedMaskSharesMethod call = .ok nonce →
      s.browser.bindings.identify call = .ok identity →
      Effect (.identify call) (s.enter (.identified call nonce identity))
  | refused {call nonce identity now nonces} :
      Effect (.acceptNonce call nonce identity now) { s.leave (.identified call nonce identity) with nonces := nonces }
  | accepted {call nonce identity now nonces} : .identified call nonce identity ∈ s.inFlight →
      s.nonces.accept call.executionId identity call.request.created nonce now = (.ok (), nonces) →
      Effect (.acceptNonce call nonce identity now)
        { (s.leave (.identified call nonce identity)).enter (.authenticated call identity) with nonces := nonces }
  | unlocated {call identity} : Effect (.locate call identity) (s.leave (.authenticated call identity))
  | located {call identity handle range} : .authenticated call identity ∈ s.inFlight →
      transport.parseRange call.request.body = .ok range → s.executionState call.executionId = some handle →
      Effect (.locate call identity)
        ((s.leave (.authenticated call identity)).enter (.polling handle call identity range))
  | acted {task replies handle action d d'} : task ∈ s.inFlight → task.onExecution = some (handle, action) →
      s.states[handle]? = some d → d.Step transport.codec ⟨action, replies⟩ d' →
      Effect (.act task replies) { s.leave task with states := s.states.set handle d' }

variable {transport s} {event : NodeEvent S} {s' final : NodeServerState S}
  {trace : List (Transition (NodeServerState S) (NodeEvent S))}

omit [DecidableEq S] in
theorem locateRange_ok {call : BrowserCall} {handle : Nat} {range : MaskRange}
    (found : s.locateRange transport call = .ok (handle, range)) :
    transport.parseRange call.request.body = .ok range ∧ s.executionState call.executionId = some handle := by
  unfold locateRange at found
  split at found
  · cases found
  rename_i read
  split at found
  · cases found
  rename_i here
  cases found
  unfold parseBody at read
  split at read
  · cases read
  · rename_i parsed
    cases read
    exact ⟨parsed, here⟩

theorem effect_registerExecution (executionId : ExecutionId) :
    s.Effect transport (.register executionId) (s.registerExecution executionId).2 := by
  by_cases admitted : (s.registerExecution executionId).1 = .ok ()
  · have answered := admitted
    unfold registerExecution at answered ⊢
    split
    · rename_i zero
      rw [if_pos zero] at answered
      cases answered
    rename_i nonzero
    rw [if_neg nonzero] at answered
    split
    · rename_i known
      rw [if_pos known] at answered
      cases answered
    rename_i unknown
    rw [if_neg unknown] at answered
    split
    · rename_i full
      rw [if_pos full] at answered
      cases answered
    · rename_i room
      exact .registered (Bool.eq_false_iff.mpr nonzero) unknown (Nat.lt_of_not_le room) admitted
  · have same : (s.registerExecution executionId).2 = s := by
      unfold registerExecution at admitted ⊢
      split_ifs at admitted ⊢ with zero known full <;> first | rfl | exact absurd rfl admitted
    rw [same]
    exact .unregistered admitted

theorem Step.effect (step : s.Step transport event s') : s.Effect transport event s' := by
  unfold Step next at step
  split at step
  swap
  · cases step
  rename_i enabled
  obtain ⟨flying, native⟩ := (Bool.and_eq_true _ _).mp enabled
  cases event with
  | register executionId =>
    cases step
    exact effect_registerExecution executionId
  | retire executionId =>
    cases step
    exact .retired
  | call executionId action =>
    cases step
    unfold NodeServerState.call
    split
    · exact .lost
    · rename_i here
      exact .called here (by simpa using native)
  | bind event =>
    obtain ⟨browser, moved, rfl⟩ := Option.map_eq_some_iff.mp step
    exact .bound moved
  | identify call =>
    cases step
    unfold NodeServerState.identify
    split
    · exact .unidentified
    rename_i verified
    split
    · exact .unidentified
    · rename_i found
      exact .identified verified found
  | acceptNonce call nonce identity now =>
    cases step
    unfold NodeServerState.acceptNonce
    split
    · exact .refused
    · rename_i accepted
      exact .accepted (by simpa [taskOf] using flying) accepted
  | locate call identity =>
    cases step
    unfold NodeServerState.locate
    split
    · exact .unlocated
    · rename_i found
      obtain ⟨parsed, here⟩ := locateRange_ok found
      exact .located (by simpa [taskOf] using flying) parsed here
  | act task replies =>
    have moved : s.act transport task replies = some s' := step
    unfold NodeServerState.act at moved
    split at moved
    · cases moved
    rename_i handle action onExecution
    split at moved
    · cases moved
    rename_i d here
    split at moved
    · rename_i sent
      cases moved
      exact .acted (by simpa [taskOf] using flying) onExecution here (Prod.ext sent rfl)
    · cases moved

/-- The tasks that a step can bring in. -/
inductive Arrives (transport : NodeTransport S) (s : NodeServerState S) : NodeEvent S → NodeTask S → Prop
  | calling {executionId action handle} : s.executionState executionId = some handle → action.isPoll = false →
      Arrives transport s (.call executionId action) (.calling handle action)
  | identified {call nonce identity} :
      transport.listener.primitives.verifySignedRequest assignedMaskSharesMethod call = .ok nonce →
      s.browser.bindings.identify call = .ok identity →
      Arrives transport s (.identify call) (.identified call nonce identity)
  | authenticated {call nonce identity now} : .identified call nonce identity ∈ s.inFlight →
      (s.nonces.accept call.executionId identity call.request.created nonce now).1 = .ok () →
      Arrives transport s (.acceptNonce call nonce identity now) (.authenticated call identity)
  | polling {call identity handle range} : .authenticated call identity ∈ s.inFlight →
      transport.parseRange call.request.body = .ok range → s.executionState call.executionId = some handle →
      Arrives transport s (.locate call identity) (.polling handle call identity range)

theorem Step.arrives (step : s.Step transport event s') {task : NodeTask S} (member : task ∈ s'.inFlight) :
    task ∈ s.inFlight ∨ Arrives transport s event task := by
  cases step.effect with
  | unregistered | registered | retired | lost | bound | unidentified => exact Or.inl member
  | refused | unlocated | acted => exact Or.inl (List.mem_of_mem_erase member)
  | called here native =>
    rcases List.mem_cons.mp member with rfl | old
    · exact Or.inr (.calling here native)
    · exact Or.inl old
  | identified verified found =>
    rcases List.mem_cons.mp member with rfl | old
    · exact Or.inr (.identified verified found)
    · exact Or.inl old
  | accepted flying accepted =>
    rcases List.mem_cons.mp member with rfl | old
    · exact Or.inr (.authenticated flying (by rw [accepted]))
    · exact Or.inl (List.mem_of_mem_erase old)
  | located flying parsed here =>
    rcases List.mem_cons.mp member with rfl | old
    · exact Or.inr (.polling flying parsed here)
    · exact Or.inl (List.mem_of_mem_erase old)

theorem Step.flying {task : NodeTask S} {replies : List MaskReply} (step : s.Step transport (.act task replies) s') :
    task ∈ s.inFlight := by
  cases step.effect with
  | acted flying => exact flying

theorem Step.onExecution {task : NodeTask S} {replies : List MaskReply} (step : s.Step transport (.act task replies) s') :
    ∃ handle action, task.onExecution = some (handle, action) := by
  cases step.effect with
  | acted _ onExecution => exact ⟨_, _, onExecution⟩

/-- The executions of a node are objects behind handles: each is changed by the
calls that hold its handle, and by nothing else. -/
def handles (transport : NodeTransport S) :
    Handles (Step transport) (NodeRPCExecutionState.Step transport.codec) .new where
  objects := states
  call
    | .act task replies => task.onExecution.map fun held => (held.1, ⟨held.2, replies⟩)
    | _ => none
  moves := by
    intro s event s' step
    cases step.effect with
    | unregistered | retired | lost | called | bound | unidentified | identified | refused | accepted | unlocated |
        located => exact Or.inl ⟨rfl, Or.inl rfl⟩
    | registered => exact Or.inl ⟨rfl, Or.inr rfl⟩
    | @acted task replies handle action d d' _ onExecution here moved =>
      exact Or.inr ⟨handle, ⟨action, replies⟩, d, d', by simp [onExecution], here, moved, rfl⟩

/-- The execution that a step registers. -/
def registeredBy (τ : Transition (NodeServerState S) (NodeEvent S)) : Option ExecutionId :=
  match τ.event with
  | .register executionId => if (τ.source.registerExecution executionId).1 = .ok () then some executionId else none
  | _ => none

/-- The registrations so far. The one at place `h` made the state behind handle `h`. -/
def registrations (trace : List (Transition (NodeServerState S) (NodeEvent S))) : List ExecutionId :=
  trace.filterMap registeredBy

omit [DecidableEq S] in
theorem registrations_append (rest : List (Transition (NodeServerState S) (NodeEvent S))) :
    registrations (trace ++ rest) = registrations trace ++ registrations rest :=
  List.filterMap_append

/-- What the table of executions has to do with the registrations so far: an id
leads to the state that its last registration made. -/
structure Named (registered : List ExecutionId) (s : NodeServerState S) : Prop where
  count : s.states.length = registered.length
  bounded : s.executions.keys.card ≤ defaultMaxConcurrentExecutions
  name : ∀ e h, s.executionState e = some h → registered[h]? = some e
  nonzero : ∀ e h, s.executionState e = some h → e.isZero = false
  latest : ∀ e h later, s.executionState e = some h → registered[later]? = some e → later ≤ h

omit [DecidableEq S] in
theorem Named.register {registered : List ExecutionId} {executionId : ExecutionId} (named : Named registered s)
    (nonzero : executionId.isZero = false) (unknown : executionId ∉ s.executions)
    (room : s.executions.keys.card < defaultMaxConcurrentExecutions) :
    Named (registered ++ [executionId])
      { s with executions := s.executions.insert executionId s.states.length, states := s.states ++ [.new] } := by
  have inside : ∀ e h, s.executionState e = some h → h < registered.length := fun e h here =>
    (List.getElem?_eq_some_iff.mp (named.name e h here)).1
  have found : ∀ e h, Finmap.lookup e (s.executions.insert executionId s.states.length) = some h →
      e = executionId ∧ h = registered.length ∨ e ≠ executionId ∧ s.executionState e = some h := by
    intro e h here
    by_cases same : e = executionId
    · subst same
      rw [Finmap.lookup_insert, named.count] at here
      exact Or.inl ⟨rfl, (Option.some.inj here).symm⟩
    · rw [Finmap.lookup_insert_of_ne _ same] at here
      exact Or.inr ⟨same, here⟩
  refine ⟨by simp [named.count], ?_, ?_, ?_, ?_⟩
  · have keys : (s.executions.insert executionId s.states.length).keys = insert executionId s.executions.keys := by
      ext e
      simp [Finmap.mem_keys, Finmap.mem_insert]
    show (s.executions.insert executionId s.states.length).keys.card ≤ _
    rw [keys]
    exact (Finset.card_insert_le _ _).trans room
  · intro e h here
    rcases found e h here with ⟨rfl, rfl⟩ | ⟨_, old⟩
    · simp
    · rw [List.getElem?_append_left (inside e h old)]
      exact named.name e h old
  · intro e h here
    rcases found e h here with ⟨rfl, _⟩ | ⟨_, old⟩
    · exact nonzero
    · exact named.nonzero e h old
  · intro e h later here again
    have reach : later < registered.length + 1 := by
      simpa using (List.getElem?_eq_some_iff.mp again).1
    rcases found e h here with ⟨_, rfl⟩ | ⟨other, old⟩
    · exact Nat.lt_succ_iff.mp reach
    · rcases Nat.lt_or_ge later registered.length with early | beyond
      · rw [List.getElem?_append_left early] at again
        exact named.latest e h later old again
      · rw [List.getElem?_append_right beyond] at again
        exact absurd (List.mem_singleton.mp (List.mem_of_getElem? again)) other

theorem Named.step {registered : List ExecutionId} (named : Named registered s) (step : s.Step transport event s') :
    Named (registered ++ registrations [⟨s, event, s'⟩]) s' := by
  have kept : registeredBy ⟨s, event, s'⟩ = none → s'.states.length = s.states.length →
      s'.executions = s.executions → Named (registered ++ registrations [⟨s, event, s'⟩]) s' := by
    intro none count same
    rw [show registrations [⟨s, event, s'⟩] = [] by simp [registrations, none], List.append_nil]
    have states : s'.executionState = s.executionState := by
      funext e
      simp [executionState, same]
    exact ⟨count.trans named.count, same ▸ named.bounded, states ▸ named.name, states ▸ named.nonzero,
      states ▸ named.latest⟩
  cases step.effect with
  | unregistered refused => exact kept (by simp [registeredBy, refused]) rfl rfl
  | @registered executionId nonzero unknown room admitted =>
    rw [show registrations [⟨s, .register executionId, _⟩] = [executionId] by
      simp [registrations, registeredBy, admitted]]
    exact named.register nonzero unknown room
  | @retired executionId =>
    rw [show registrations [⟨s, .retire executionId, _⟩] = [] from rfl, List.append_nil]
    have found : ∀ e h, Finmap.lookup e (s.executions.erase executionId) = some h → s.executionState e = some h := by
      intro e h here
      by_cases same : e = executionId
      · rw [same, Finmap.lookup_erase] at here
        cases here
      · rwa [Finmap.lookup_erase_ne same] at here
    have fewer : (s.executions.erase executionId).keys ⊆ s.executions.keys := by
      intro e member
      rw [Finmap.mem_keys, Finmap.mem_erase] at member
      exact Finmap.mem_keys.mpr member.2
    exact ⟨named.count, (Finset.card_le_card fewer).trans named.bounded, fun e h here => named.name e h (found e h here),
      fun e h here => named.nonzero e h (found e h here), fun e h later here => named.latest e h later (found e h here)⟩
  | acted => exact kept rfl (List.length_set ..) rfl
  | lost | called | bound | unidentified | identified | refused | accepted | unlocated | located => exact kept rfl rfl rfl

theorem named_of_run (run : Run (Step transport) start trace final) : Named (registrations trace) final := by
  induction run with
  | start => exact ⟨rfl, Nat.zero_le _, by simp [executionState, start], by simp [executionState, start],
      by simp [executionState, start]⟩
  | next _ step ih =>
    rw [registrations_append]
    exact ih.step step

end NodeServerState

end MpcCoordinator
