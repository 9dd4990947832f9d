import MpcCoordinator.Browser.Listener

namespace MpcCoordinator

namespace CoordinatorRPCServerConnectionBase

variable {connection : CoordinatorRPCServerConnectionBase} {shared : CoordinatorRPCServerSharedBase}

theorem answer_snd (kind : CoordinatorRPCBaseError)
    (result : Except CoordinatorError Unit × CoordinatorRPCServerSharedBase) : (answer kind result).2 = result.2 := by
  obtain ⟨_ | _, _⟩ := result <;> rfl

theorem requestShutdown_executions :
    (connection.requestShutdown shared).2.executions = shared.executions := by
  unfold requestShutdown
  repeat' split
  all_goals rfl

/-- Retirement leaves executions alone when the caller is no party or the
execution has a tombstone; otherwise it is a critical section like others. -/
theorem retire_executions {executionId : ExecutionId}
    (aside : connection.topology.isParty connection.id = false ∨ shared.retired.contains executionId = true) :
    (connection.retire shared executionId).2.executions = shared.executions := by
  unfold retire
  split
  · rfl
  rename_i party
  have sealed := aside.resolve_left party
  rw [answer_snd, CoordinatorRPCServerSharedBase.retireExecution, if_neg party]
  obtain ⟨acks, held⟩ := Option.isSome_iff_exists.mp sealed
  have acknowledged : (shared.retired.acknowledge executionId connection.id connection.topology.mpcNodes.val.length).1 = true := by
    simp only [RetiredExecutions.acknowledge, held]
    split <;> rfl
  split
  · rfl
  · rename_i outcome
    rw [outcome] at acknowledged
    cases acknowledged

theorem retire_atExecution {executionId : ExecutionId} (party : connection.topology.isParty connection.id = true)
    (unsealed : shared.retired.contains executionId = false) :
    ∃ reply, connection.atExecution shared executionId .retireExecution =
      some (reply, (connection.retire shared executionId).2) := by
  have vacant : shared.retired.acks executionId = none := by
    simpa [RetiredExecutions.contains] using unsealed
  simp only [retire, party, Bool.true_eq_false, if_false, answer_snd,
    CoordinatorRPCServerSharedBase.retireExecution, RetiredExecutions.acknowledge, vacant, atExecution]
  cases live : shared.executions.lookup executionId with
  | none => exact ⟨_, rfl⟩
  | some d =>
    refine ⟨.ok (), ?_⟩
    simp [CoordinatorExecutionState.perform, retireExecution, party]

end CoordinatorRPCServerConnectionBase

theorem BrowserTask.afterDrop_cases (task : BrowserTask) (executionId : ExecutionId) :
    task.afterDrop executionId = task ∨
      ∃ call identity, task = .submitting call identity ∧ call.executionId = executionId ∧
        task.afterDrop executionId = .submitted call identity := by
  cases task with
  | submitting call identity =>
    by_cases here : call.executionId = executionId
    · exact Or.inr ⟨call, identity, rfl, here, if_pos here⟩
    · exact Or.inl (if_neg here)
  | _ => exact Or.inl rfl

namespace CoordinatorBrowserState

variable (listener : CoordinatorListener) (s : CoordinatorBrowserState)

/-- The critical section on an execution that an event is, if it is one. -/
def sectionOf : ServerEvent → Option (ExecutionId × ClientIdentity × Action)
  | .native executionId caller action => some (executionId, caller, action)
  | .retire party executionId =>
    if listener.topology.isParty party && !s.coordinator.retired.contains executionId then
      some (executionId, party, .retireExecution)
    else none
  | .reserve call identity delivered =>
    match parseBody (listener.primitives.parseIndices call.request.body) with
    | .error _ => none
    | .ok indices => some (call.executionId, identity, .reserveMaskIndices indices delivered)
  | .submit call identity =>
    match parseBody (listener.primitives.parseBatch call.request.body) with
    | .error _ => none
    | .ok batch => some (call.executionId, identity, .submitMaskedInputs batch.maskedInputs batch.reservedIndices)
  | .finish call identity delivered => some (call.executionId, identity, .finishSubmission delivered)
  | _ => none

/-- The event registers an execution or names the one to watch. -/
def isAdministrative : ServerEvent → Bool
  | .register _ _ _ => true
  | .watch _ => true
  | _ => false

/-- What a step can do to the coordinator. -/
inductive Moves : ServerEvent → CoordinatorRPCServerSharedBase → Prop
  | nothing {event} : isAdministrative event = false → sectionOf listener s event = none → Moves event s.coordinator
  | registration {party registration order} : Moves (.register party registration order)
      ((CoordinatorRPCServerConnectionBase.mk listener.topology party).registerExecution s.coordinator registration order).2
  | retirement {party executionId} : Moves (.retire party executionId)
      ((CoordinatorRPCServerConnectionBase.mk listener.topology party).retire s.coordinator executionId).2
  | watched {executionId} : Moves (.watch executionId) (s.coordinator.watchForShutdownRequest executionId)
  | shutdown {party} : Moves (.requestShutdown party)
      ((CoordinatorRPCServerConnectionBase.mk listener.topology party).requestShutdown s.coordinator).2
  | criticalSection {event executionId caller action reply after} : isAdministrative event = false →
      sectionOf listener s event = some (executionId, caller, action) →
      (CoordinatorRPCServerConnectionBase.mk listener.topology caller).atExecution s.coordinator executionId action =
        some (reply, after) → Moves event after

/-- What a step can do to the tables of sessions and nonces. -/
inductive Writes : ServerEvent → WebauthnBindings → NonceBook → Prop
  | nothing {event} : Writes event s.bindings s.nonces
  | session {request clientIdentity draws token} :
      s.bindings.freshToken listener.primitives.encodeBase64 draws = some token →
      Writes (.bindInsert request clientIdentity draws) (s.bindings.insert (some request.executionId)
        ⟨clientIdentity, request.ecdsaPublicKey, request.ecdhPublicKey⟩ token) s.nonces
  | checked {method call nonce identity now} : Writes (.acceptNonce method call nonce identity now) s.bindings
      (s.nonces.accept call.executionId identity call.request.created nonce now).2
  | pinned {call identity} : Writes (.pin call identity)
      (s.bindings.pinBindingFromToken call.executionId call.request.sessionToken) s.nonces

/-- What a step can do to the executions. -/
inductive Touches : ServerEvent → CoordinatorBrowserState → Prop
  | nothing {event s'} : sectionOf listener s event = none →
      s'.coordinator.executions = s.coordinator.executions → Touches event s'
  | registration {party registration order s'} :
      s'.coordinator = ((CoordinatorRPCServerConnectionBase.mk listener.topology party).registerExecution
        s.coordinator registration order).2 → Touches (.register party registration order) s'
  | criticalSection {event executionId caller action reply s'} :
      sectionOf listener s event = some (executionId, caller, action) →
      (CoordinatorRPCServerConnectionBase.mk listener.topology caller).atExecution s.coordinator executionId action =
        some (reply, s'.coordinator) → Touches event s'

/-- What a step can do to the sessions. -/
inductive Rebinds : ServerEvent → WebauthnBindings → Prop
  | nothing {event} : Rebinds event s.bindings
  | session {request clientIdentity draws token} :
      s.bindings.freshToken listener.primitives.encodeBase64 draws = some token →
      Rebinds (.bindInsert request clientIdentity draws) (s.bindings.insert (some request.executionId)
        ⟨clientIdentity, request.ecdsaPublicKey, request.ecdhPublicKey⟩ token)
  | pinned {call identity} : Rebinds (.pin call identity)
      (s.bindings.pinBindingFromToken call.executionId call.request.sessionToken)

/-- How a request comes to be at a stage: by the critical section before it. -/
inductive Arrives (s' : CoordinatorBrowserState) : ServerEvent → BrowserTask → Prop
  | checked {request order clientIdentity signCount} :
      listener.checkBind s.coordinator request order = .ok (clientIdentity, signCount) →
      Arrives s' (.bindCheck request order) (.checked request clientIdentity signCount)
  | counted {request clientIdentity signCount signCounts} :
      s.signCounts.accept clientIdentity signCount = .ok signCounts →
      .checked request clientIdentity signCount ∈ s.inFlight →
      Arrives s' (.bindCount request clientIdentity signCount) (.counted request clientIdentity)
  | identified {method call nonce identity} :
      listener.primitives.verifySignedRequest method.name call = .ok nonce →
      s.bindings.identify call = .ok identity →
      Arrives s' (.identify method call) (.identified method call nonce identity)
  | timed {method call nonce identity now} :
      .identified method call nonce identity ∈ s.inFlight →
      Arrives s' (.readClock method call nonce identity now) (.timed method call nonce identity now)
  | authenticated {method call nonce identity now} :
      .timed method call nonce identity now ∈ s.inFlight →
      (s.nonces.accept call.executionId identity call.request.created nonce now).1 = .ok () →
      Arrives s' (.acceptNonce method call nonce identity now) (.authenticated method call identity)
  | submitting {call identity batch} :
      .authenticated .submitMaskedInputs call identity ∈ s.inFlight →
      parseBody (listener.primitives.parseBatch call.request.body) = .ok batch →
      (CoordinatorRPCServerConnectionBase.mk listener.topology identity).atExecution s.coordinator call.executionId
        (.submitMaskedInputs batch.maskedInputs batch.reservedIndices) = some (.ok (), s'.coordinator) →
      Arrives s' (.submit call identity) (.submitting call identity)
  | submitted {call identity delivered} :
      .submitting call identity ∈ s.inFlight →
      Arrives s' (.finish call identity delivered) (.submitted call identity)
  | orphaned {party registration order call identity} :
      .submitting call identity ∈ s.inFlight →
      s.evictedBy listener party registration order = some call.executionId →
      Arrives s' (.register party registration order) (.submitted call identity)

/-- What a step can do to the requests in flight and to the sign counts. -/
inductive Shifts (s' : CoordinatorBrowserState) : ServerEvent → List BrowserTask → SignCounts → Prop
  | nothing {event} : taskOf event = none → Shifts s' event s.inFlight s.signCounts
  | evicting {party registration order executionId} :
      s.evictedBy listener party registration order = some executionId →
      Shifts s' (.register party registration order) (s.inFlight.map (BrowserTask.afterDrop executionId)) s.signCounts
  | arriving {event task} : taskOf event = none → Arrives listener s s' event task →
      Shifts s' event (task :: s.inFlight) s.signCounts
  | leaving {event task} : taskOf event = some task →
      (∀ request clientIdentity signCount signCounts, event = .bindCount request clientIdentity signCount →
        s.signCounts.accept clientIdentity signCount ≠ .ok signCounts) →
      Shifts s' event (s.inFlight.erase task) s.signCounts
  | advancing {event task later} : taskOf event = some task → Arrives listener s s' event later →
      (∀ request clientIdentity, later ≠ .counted request clientIdentity) →
      Shifts s' event (later :: s.inFlight.erase task) s.signCounts
  | counting {request clientIdentity signCount signCounts} :
      s.signCounts.accept clientIdentity signCount = .ok signCounts →
      .checked request clientIdentity signCount ∈ s.inFlight →
      Shifts s' (.bindCount request clientIdentity signCount)
        (.counted request clientIdentity :: s.inFlight.erase (.checked request clientIdentity signCount)) signCounts

variable {listener s} {event : ServerEvent} {s' : CoordinatorBrowserState}

theorem Step.run_eq (step : s.Step listener event s') : s.run listener event = some s' := by
  unfold Step next at step
  split at step
  · exact step
  · cases step

/-- A request that goes on was in flight. -/
theorem Step.in_flight (step : s.Step listener event s') {task : BrowserTask} (mine : taskOf event = some task) :
    task ∈ s.inFlight := by
  unfold Step next at step
  split at step
  · rename_i enabled
    cases event <;> cases mine
    all_goals simpa [CoordinatorBrowserState.enabled, taskOf] using enabled
  · cases step

theorem Step.moves (step : s.Step listener event s') : Moves listener s event s'.coordinator := by
  have moved := step.run_eq
  cases event with
  | register party registration order =>
    cases moved
    exact .registration
  | retire party executionId =>
    cases moved
    exact .retirement
  | watch executionId =>
    cases moved
    exact .watched
  | requestShutdown party =>
    cases moved
    exact .shutdown
  | native executionId caller action =>
    simp only [run, native] at moved
    split at moved
    · cases moved
    · obtain ⟨result, performed, rfl⟩ := Option.map_eq_some_iff.mp moved
      exact .criticalSection rfl rfl performed
  | bindCheck request order =>
    cases moved
    unfold bindCheck
    split <;> exact .nothing rfl rfl
  | bindCount request clientIdentity signCount =>
    cases moved
    unfold bindCount
    split <;> exact .nothing rfl rfl
  | bindInsert request clientIdentity draws =>
    obtain ⟨token, _, rfl⟩ := Option.map_eq_some_iff.mp moved
    exact .nothing rfl rfl
  | identify method call =>
    cases moved
    unfold identify
    repeat' split
    all_goals exact .nothing rfl rfl
  | readClock | pin =>
    cases moved
    exact .nothing rfl rfl
  | acceptNonce method call nonce identity now =>
    cases moved
    simp only [acceptNonce]
    split <;> exact .nothing rfl rfl
  | reserve call identity delivered =>
    simp only [run, reserve] at moved
    split at moved
    · rename_i unread
      cases moved
      exact .nothing rfl (by simp only [sectionOf, unread])
    · rename_i indices parsed
      obtain ⟨result, performed, rfl⟩ := Option.map_eq_some_iff.mp moved
      exact .criticalSection rfl (by simp only [sectionOf, parsed]) performed
  | submit call identity =>
    simp only [run, submit] at moved
    split at moved
    · rename_i unread
      cases moved
      exact .nothing rfl (by simp only [sectionOf, unread])
    · rename_i batch parsed
      obtain ⟨⟨_ | _, coordinator⟩, performed, rfl⟩ := Option.map_eq_some_iff.mp moved
      · exact .criticalSection rfl (by simp only [sectionOf, parsed]) performed
      · exact .criticalSection rfl (by simp only [sectionOf, parsed]) performed
  | finish call identity delivered =>
    obtain ⟨result, performed, rfl⟩ := Option.map_eq_some_iff.mp moved
    exact .criticalSection rfl rfl performed

theorem Step.acceptNonce_tables {method : BrowserMethod} {call : BrowserCall} {nonce : Vector UInt8 16}
    {identity : ClientIdentity} {now : UInt64} (step : s.Step listener (.acceptNonce method call nonce identity now) s') :
    s'.bindings = s.bindings ∧
      s'.nonces = (s.nonces.accept call.executionId identity call.request.created nonce now).2 := by
  obtain rfl := Option.some.inj step.run_eq
  simp only [acceptNonce]
  split <;> rename_i answered <;> rw [answered] <;> exact ⟨rfl, rfl⟩

theorem Step.writes (step : s.Step listener event s') : Writes listener s event s'.bindings s'.nonces := by
  have moved := step.run_eq
  cases event with
  | register | retire | watch | requestShutdown | readClock =>
    cases moved
    exact .nothing
  | native executionId caller action =>
    simp only [run, native] at moved
    split at moved
    · cases moved
    · obtain ⟨result, _, rfl⟩ := Option.map_eq_some_iff.mp moved
      exact .nothing
  | bindCheck request order =>
    cases moved
    unfold bindCheck
    split <;> exact .nothing
  | bindCount request clientIdentity signCount =>
    cases moved
    unfold bindCount
    split <;> exact .nothing
  | bindInsert request clientIdentity draws =>
    obtain ⟨token, fresh, rfl⟩ := Option.map_eq_some_iff.mp moved
    exact .session fresh
  | identify method call =>
    cases moved
    unfold identify
    repeat' split
    all_goals exact .nothing
  | acceptNonce method call nonce identity now =>
    rw [step.acceptNonce_tables.1, step.acceptNonce_tables.2]
    exact .checked
  | reserve call identity delivered =>
    simp only [run, reserve] at moved
    split at moved
    · cases moved
      exact .nothing
    · obtain ⟨result, _, rfl⟩ := Option.map_eq_some_iff.mp moved
      exact .nothing
  | submit call identity =>
    simp only [run, submit] at moved
    split at moved
    · cases moved
      exact .nothing
    · obtain ⟨⟨_ | _, coordinator⟩, _, rfl⟩ := Option.map_eq_some_iff.mp moved <;> exact .nothing
  | finish call identity delivered =>
    obtain ⟨result, _, rfl⟩ := Option.map_eq_some_iff.mp moved
    exact .nothing
  | pin call identity =>
    cases moved
    exact .pinned

theorem Step.touches (step : s.Step listener event s') : Touches listener s event s' := by
  have moved := step.moves
  generalize found : s'.coordinator = after at moved
  cases moved with
  | nothing _ aside => exact .nothing aside (by rw [found])
  | registration => exact .registration found
  | @retirement party executionId =>
    by_cases direct : (listener.topology.isParty party && !s.coordinator.retired.contains executionId) = true
    · obtain ⟨member, unsealed⟩ := (Bool.and_eq_true _ _).mp direct
      let connection : CoordinatorRPCServerConnectionBase := ⟨listener.topology, party⟩
      have member : connection.topology.isParty connection.id = true := member
      obtain ⟨reply, performed⟩ := connection.retire_atExecution member (by simpa using unsealed)
      exact .criticalSection (by simp only [sectionOf, direct, if_true]) (performed.trans (by rw [found]))
    · refine .nothing (by simp only [sectionOf, direct]; rfl) ?_
      rw [found]
      refine CoordinatorRPCServerConnectionBase.retire_executions ?_
      rw [← Bool.not_eq_true, ← imp_iff_not_or]
      simpa using direct
  | watched => exact .nothing rfl (by rw [found]; rfl)
  | shutdown => exact .nothing rfl (by rw [found]; exact CoordinatorRPCServerConnectionBase.requestShutdown_executions)
  | criticalSection _ here performed => exact .criticalSection here (performed.trans (by rw [found]))

theorem Step.rebinds (step : s.Step listener event s') : Rebinds listener s event s'.bindings := by
  have moved := step.writes
  generalize s'.bindings = bindings, s'.nonces = nonces at moved
  cases moved with
  | nothing => exact .nothing
  | checked => exact .nothing
  | session fresh => exact .session fresh
  | pinned => exact .pinned

theorem Step.shifts (step : s.Step listener event s') : Shifts listener s s' event s'.inFlight s'.signCounts := by
  have moved := step.run_eq
  have origin : ∀ earlier, taskOf event = some earlier → earlier ∈ s.inFlight := fun _ mine => step.in_flight mine
  cases event with
  | register party registration order =>
    cases moved
    simp only [register]
    split
    · rename_i gone
      exact .evicting gone
    · exact .nothing rfl
  | retire | watch | requestShutdown =>
    cases moved
    exact .nothing rfl
  | native executionId caller action =>
    simp only [run, native] at moved
    split at moved
    · cases moved
    · obtain ⟨result, _, rfl⟩ := Option.map_eq_some_iff.mp moved
      exact .nothing rfl
  | bindCheck request order =>
    cases moved
    unfold bindCheck
    split
    · exact .nothing rfl
    · rename_i passed
      exact .arriving rfl (.checked passed)
  | bindCount request clientIdentity signCount =>
    cases moved
    unfold bindCount
    split
    · rename_i refused
      refine .leaving rfl ?_
      rintro _ _ _ signCounts ⟨⟩ accepted
      rw [refused] at accepted
      cases accepted
    · rename_i accepted
      exact .counting accepted (origin _ rfl)
  | bindInsert request clientIdentity draws =>
    obtain ⟨token, _, rfl⟩ := Option.map_eq_some_iff.mp moved
    exact .leaving rfl (by rintro _ _ _ _ ⟨⟩)
  | identify method call =>
    cases moved
    unfold identify
    split
    · exact .nothing rfl
    rename_i verified
    split
    · exact .nothing rfl
    · rename_i identified
      exact .arriving rfl (.identified verified identified)
  | readClock method call nonce identity now =>
    cases moved
    exact .advancing rfl (.timed (origin _ rfl)) (by rintro _ _ ⟨⟩)
  | acceptNonce method call nonce identity now =>
    cases moved
    simp only [acceptNonce]
    split
    · exact .leaving rfl (by rintro _ _ _ _ ⟨⟩)
    · rename_i accepted
      exact .advancing rfl (.authenticated (origin _ rfl) (by rw [accepted])) (by rintro _ _ ⟨⟩)
  | reserve call identity delivered =>
    simp only [run, reserve] at moved
    split at moved
    · cases moved
      exact .leaving rfl (by rintro _ _ _ _ ⟨⟩)
    · obtain ⟨result, _, rfl⟩ := Option.map_eq_some_iff.mp moved
      exact .leaving rfl (by rintro _ _ _ _ ⟨⟩)
  | submit call identity =>
    simp only [run, submit] at moved
    split at moved
    · cases moved
      exact .leaving rfl (by rintro _ _ _ _ ⟨⟩)
    · rename_i batch parsed
      obtain ⟨⟨_ | _, coordinator⟩, performed, rfl⟩ := Option.map_eq_some_iff.mp moved
      · exact .leaving rfl (by rintro _ _ _ _ ⟨⟩)
      · exact .advancing rfl (.submitting (origin _ rfl) parsed performed) (by rintro _ _ ⟨⟩)
  | finish call identity delivered =>
    obtain ⟨result, _, rfl⟩ := Option.map_eq_some_iff.mp moved
    exact .advancing rfl (.submitted (origin _ rfl)) (by rintro _ _ ⟨⟩)
  | pin call identity =>
    cases moved
    exact .leaving rfl (by rintro _ _ _ _ ⟨⟩)

/-- A request that is in flight after a step was so before it, or the step is
the section that brought it there. -/
theorem Step.arrives (step : s.Step listener event s') {task : BrowserTask} (member : task ∈ s'.inFlight) :
    task ∈ s.inFlight ∨ Arrives listener s s' event task := by
  have shifted := step.shifts
  generalize s'.inFlight = inFlight, s'.signCounts = signCounts at shifted member
  cases shifted with
  | nothing => exact Or.inl member
  | @evicting party registration order executionId gone =>
    obtain ⟨earlier, old, rfl⟩ := List.mem_map.mp member
    rcases earlier.afterDrop_cases executionId with kept | ⟨call, identity, rfl, rfl, dropped⟩
    · rw [kept]
      exact Or.inl old
    · rw [dropped]
      exact Or.inr (.orphaned old gone)
  | leaving => exact Or.inl (List.mem_of_mem_erase member)
  | arriving _ arrived =>
    rcases List.mem_cons.mp member with rfl | old
    · exact Or.inr arrived
    · exact Or.inl old
  | advancing _ arrived =>
    rcases List.mem_cons.mp member with rfl | old
    · exact Or.inr arrived
    · exact Or.inl (List.mem_of_mem_erase old)
  | counting accepted checked =>
    rcases List.mem_cons.mp member with rfl | old
    · exact Or.inr (.counted accepted checked)
    · exact Or.inl (List.mem_of_mem_erase old)

end CoordinatorBrowserState

end MpcCoordinator
