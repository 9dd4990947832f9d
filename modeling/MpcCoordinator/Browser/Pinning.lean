import MpcCoordinator.Browser.Provenance

namespace MpcCoordinator

open CoordinatorExecutionState (TablesKept)

/-- The signed request that a task acts on, and who it acts for. -/
def BrowserTask.actor : BrowserTask → Option (BrowserCall × ClientIdentity)
  | .checked _ _ _ => none
  | .counted _ _ => none
  | .identified _ call _ identity => some (call, identity)
  | .timed _ call _ identity _ => some (call, identity)
  | .authenticated _ call identity => some (call, identity)
  | .submitting call identity => some (call, identity)
  | .submitted call identity => some (call, identity)

/-- The request is a submission of an identity to an execution that the
coordinator has recorded. -/
def BrowserTask.submits (executionId : ExecutionId) (clientIdentity : ClientIdentity) : BrowserTask → Bool
  | .submitting call identity => decide (call.executionId = executionId ∧ identity = clientIdentity)
  | .submitted call identity => decide (call.executionId = executionId ∧ identity = clientIdentity)
  | _ => false

namespace CoordinatorExecutionState

variable {topology : Topology} {registration : ExecutionRegistration} {initial d d' : CoordinatorExecutionState}
  {call : Call} {calls : List (Transition CoordinatorExecutionState Call)} {c : ClientIdentity}

/-- The test for an earlier submission never turns negative again. -/
theorem Step.alreadySubmitted_kept (step : Step topology d call d') (before : d.alreadySubmitted c = true) :
    d'.alreadySubmitted c = true := by
  obtain ⟨i, slot, assigned, owned, filled⟩ := d.alreadySubmitted_iff.mp before
  obtain ⟨x, held⟩ := Option.isSome_iff_exists.mp filled
  obtain ⟨slots, registered⟩ := step.layout
  refine d'.alreadySubmitted_iff.mpr ⟨i, slot, by rw [slots]; exact assigned, ?_, ?_⟩
  · simpa only [inputSlotClient, registered] using owned
  · rw [(TablesKept.step step).input i x held]
    rfl

/-- With an input assignment, the test finds every accepted submission. -/
theorem alreadySubmitted_of_accepted {maskedInputs : List Bytes} {reservedIndices : List UInt64}
    (admitted : new registration topology.n = .ok initial) (run : Run (Step topology) initial calls d)
    (assigned : registration.inputAssignment.ranges ≠ [])
    (step : Step topology d ⟨c, .submitMaskedInputs maskedInputs reservedIndices, .ok ()⟩ d') :
    d'.alreadySubmitted c = true := by
  have coherent := Coherent.of_run admitted run
  have layout := step.layout
  cases step.recorded with
  | nothing _ _ refused => exact absurd rfl (refused _ _ rfl).2
  | submission checked =>
    obtain ⟨_, lengths, nonempty, checks⟩ := checkSubmission_ok.mp checked
    obtain ⟨i, rest, rfl⟩ := List.exists_cons_of_ne_nil nonempty
    obtain ⟨bound, owned, _⟩ := checks i List.mem_cons_self
    have covered := inputs_covered admitted assigned
    rw [coherent.maskedInputs_length] at bound
    have inside : i.toNat < d.inputAssignments.length := by
      rw [coherent.inputAssignments_eq]
      omega
    have slot := List.getElem?_eq_getElem inside
    have mine := ((Provenance.of_run admitted run).1.reserved i.toNat c owned).2 _ slot
    refine (alreadySubmitted_iff _).mpr ⟨i.toNat, _, slot, mine, ?_⟩
    have named : i.toNat ∈ ((((i :: rest).zip maskedInputs).map fun pair => (pair.1.toNat, pair.2)).map Prod.fst) := by
      cases maskedInputs with
      | nil => simp at lengths
      | cons x others => simp
    obtain ⟨x, _, value⟩ := Slots.read_writeAll_of_mem named (coherent.maskedInputs_length ▸ bound)
    exact Option.isSome_iff_exists.mpr ⟨x, value⟩

end CoordinatorExecutionState

namespace CoordinatorBrowserState

variable {listener : CoordinatorListener} {trace : List (Transition CoordinatorBrowserState ServerEvent)}
  {s s' final : CoordinatorBrowserState} {event : ServerEvent} {e : ExecutionId} {c : ClientIdentity}

/-- Sessions are never taken back. -/
theorem Step.byToken_kept (step : s.Step listener event s') {token : String} {binding : WebauthnBinding}
    (stored : s.bindings.byToken token = some binding) : s'.bindings.byToken token = some binding := by
  have moved := step.rebinds
  generalize s'.bindings = bindings at moved
  cases moved with
  | nothing => exact stored
  | session fresh => exact WebauthnBindings.byToken_insert (WebauthnBindings.freshToken_vacant fresh) stored
  | pinned => rwa [WebauthnBindings.byToken_pinBindingFromToken]

/-- Every signed request in flight acts for the identity its session is bound to. -/
def Sessions (s : CoordinatorBrowserState) : Prop :=
  ∀ task ∈ s.inFlight, ∀ call identity, task.actor = some (call, identity) →
    ∃ binding, s.bindings.byToken call.request.sessionToken = some binding ∧ binding.clientIdentity = identity

theorem Sessions.step (sessions : Sessions s) (step : s.Step listener event s') : Sessions s' := by
  have known : ∀ task ∈ s.inFlight, ∀ call identity, task.actor = some (call, identity) →
      ∃ binding, s'.bindings.byToken call.request.sessionToken = some binding ∧ binding.clientIdentity = identity := by
    intro task member call identity acts
    obtain ⟨binding, stored, same⟩ := sessions task member call identity acts
    exact ⟨binding, step.byToken_kept stored, same⟩
  intro task member call identity acts
  rcases step.arrives member with old | new
  · exact known task old call identity acts
  cases new with
  | checked => cases acts
  | counted => cases acts
  | identified _ found =>
    cases acts
    obtain ⟨binding, stored, same, _⟩ := WebauthnBindings.identify_ok found
    exact ⟨binding, step.byToken_kept stored, same⟩
  | timed earlier => exact known _ earlier call identity acts
  | authenticated earlier => exact known _ earlier call identity acts
  | submitting earlier => exact known _ earlier call identity acts
  | submitted earlier => exact known _ earlier call identity acts
  | orphaned earlier => exact known _ earlier call identity acts

theorem Sessions.of_run (run : Run (Step listener) start trace final) : Sessions final :=
  run.invariant (by simp [Sessions, start]) fun _ _ _ sessions step => sessions.step step

/-- What a step has to respect for a pin of `c` in `e` to be final: the
execution is registered with an input assignment and keeps its slot, and no bind
ceremony of the identity is under way when one of its submissions is pinned. -/
def LeavesPinsFinal (listener : CoordinatorListener) (e : ExecutionId) (c : ClientIdentity)
    (s : CoordinatorBrowserState) : ServerEvent → Prop
  | .register party registration order =>
    (s.live e = none → registration.executionId = e → registration.inputAssignment.ranges ≠ []) ∧
      s.evictedBy listener party registration order ≠ some e
  | .pin call identity => call.executionId = e → identity = c → ∀ task ∈ s.inFlight, task.binds e c = false
  | _ => True

/-- The test for an earlier submission finds one of `c` in the live execution `e`. -/
def HasSubmitted (s : CoordinatorBrowserState) (e : ExecutionId) (c : ClientIdentity) : Prop :=
  ∃ d, s.live e = some d ∧ d.alreadySubmitted c = true

theorem HasSubmitted.step (submitted : HasSubmitted s e c) (step : s.Step listener event s')
    (guarded : LeavesPinsFinal listener e c s event) : HasSubmitted s' e c := by
  obtain ⟨d, here, before⟩ := submitted
  have seen := step.seen e
  unfold HasSubmitted
  rw [here] at seen
  generalize s'.live e = after at seen ⊢
  cases seen with
  | untouched => exact ⟨d, rfl, before⟩
  | called _ moved => exact ⟨_, rfl, moved.alreadySubmitted_kept before⟩
  | dropped registers gone =>
    subst registers
    exact absurd gone guarded.2

/-- The registration that made an execution live has an input assignment. -/
theorem assigned_of_run (run : Run (Step listener) start trace final)
    (guarded : ∀ τ ∈ trace, LeavesPinsFinal listener e c τ.source τ.event) {d : CoordinatorExecutionState}
    (here : final.live e = some d) : d.registration.inputAssignment.ranges ≠ [] := by
  induction run generalizing d with
  | start => cases here
  | @next earlier current event after previous step ih =>
    have known : ∀ d, current.live e = some d → d.registration.inputAssignment.ranges ≠ [] := fun _ live =>
      ih (fun τ member => guarded τ (List.mem_append_left _ member)) live
    have guard : LeavesPinsFinal listener e c current event := guarded ⟨current, event, after⟩ (by simp)
    have seen := step.seen e
    rw [here] at seen
    generalize atSource : current.live e = source at seen
    cases seen with
    | untouched => exact known _ atSource
    | called _ moved =>
      rw [moved.layout.2]
      exact known _ atSource
    | created registers named admitted =>
      subst registers
      rw [(CoordinatorExecutionState.new_cases admitted).1]
      exact guard.1 atSource named

theorem submits_of_run (run : Run (Step listener) start trace final)
    (guarded : ∀ τ ∈ trace, LeavesPinsFinal listener e c τ.source τ.event) {task : BrowserTask}
    (member : task ∈ final.inFlight) (submits : task.submits e c = true) : HasSubmitted final e c := by
  induction run generalizing task with
  | start => cases member
  | @next earlier current event after previous step ih =>
    have before : ∀ τ ∈ earlier, LeavesPinsFinal listener e c τ.source τ.event := fun τ inside =>
      guarded τ (List.mem_append_left _ inside)
    have guard : LeavesPinsFinal listener e c current event := guarded ⟨current, event, after⟩ (by simp)
    have known : ∀ task ∈ current.inFlight, task.submits e c = true → HasSubmitted after e c := fun _ inside mine =>
      (ih before inside mine).step step guard
    rcases step.arrives member with old | new
    · exact known task old submits
    cases new with
    | checked | counted | identified | timed | authenticated => cases submits
    | submitting _ _ performed =>
      obtain ⟨rfl, rfl⟩ := of_decide_eq_true submits
      obtain ⟨d, d', here, moved, later⟩ := CoordinatorRPCServerConnectionBase.atExecution_ok performed
      obtain ⟨registration, initial, _, admitted, calls⟩ := exists_run_on previous here
      have assigned := assigned_of_run previous before here
      rw [(CoordinatorExecutionState.Coherent.of_run admitted calls).registration_eq] at assigned
      exact ⟨d', later, CoordinatorExecutionState.alreadySubmitted_of_accepted admitted calls assigned moved⟩
    | submitted earlier => exact known _ earlier submits
    | orphaned earlier => exact known _ earlier submits

/-- The session whose key outputs of `e` are encrypted to for `c`, in a state
in which no ceremony can move that any more. -/
structure PinnedTo (e : ExecutionId) (c : ClientIdentity) (token : String) (binding : WebauthnBinding)
    (s : CoordinatorBrowserState) : Prop where
  stored : s.bindings.byToken token = some binding
  identity : binding.clientIdentity = c
  target : s.bindings.resolveEcdhPublicKey e c = some binding.ecdhPublicKey
  submitted : HasSubmitted s e c
  quiet : ∀ task ∈ s.inFlight, task.binds e c = false

/-- A ceremony of an identity that has submitted does not pass its checks. -/
theorem PinnedTo.quiet_step {token : String} {binding : WebauthnBinding} (pinned : PinnedTo e c token binding s)
    (step : s.Step listener event s') {task : BrowserTask} (member : task ∈ s'.inFlight) : task.binds e c = false := by
  rcases step.arrives member with old | new
  · exact pinned.quiet task old
  cases new with
  | @checked request order clientIdentity signCount passed =>
    by_contra binds
    obtain ⟨rfl, rfl⟩ := of_decide_eq_true (Bool.of_not_eq_false binds)
    obtain ⟨d, here, _, unsubmitted⟩ := CoordinatorListener.checkBind_ok passed
    obtain ⟨d', same, submitted⟩ := pinned.submitted
    rw [live, here] at same
    cases same
    rw [unsubmitted] at submitted
    cases submitted
  | counted _ earlier =>
    have checked := pinned.quiet _ earlier
    exact checked
  | identified | timed | authenticated | submitting | submitted | orphaned => rfl

theorem PinnedTo.step {token : String} {binding : WebauthnBinding} (pinned : PinnedTo e c token binding s)
    (sessions : Sessions s) (step : s.Step listener event s') (guarded : LeavesPinsFinal listener e c s event)
    (last : ∀ other, event = .pin other c → other.executionId = e → other.request.sessionToken = token) :
    PinnedTo e c token binding s' := by
  refine ⟨step.byToken_kept pinned.stored, pinned.identity, ?_, pinned.submitted.step step guarded,
    fun task member => pinned.quiet_step step member⟩
  have moved := step.rebinds
  generalize s'.bindings = bindings at moved
  cases moved with
  | nothing => exact pinned.target
  | @session request clientIdentity draws fresh _ =>
    have ceremony := pinned.quiet _ (step.in_flight rfl)
    rw [WebauthnBindings.resolve_insert_of_ne]
    · exact pinned.target
    · intro same
      obtain ⟨rfl, rfl⟩ := Prod.mk.inj same
      simp [BrowserTask.binds] at ceremony
  | @pinned call identity =>
    obtain ⟨bound, stored, same⟩ := sessions _ (step.in_flight rfl) call identity rfl
    by_cases mine : call.executionId = e ∧ identity = c
    · obtain ⟨rfl, rfl⟩ := mine
      have token := last call rfl rfl
      rw [token] at stored ⊢
      rw [pinned.stored] at stored
      cases stored
      rw [← same]
      exact WebauthnBindings.resolve_pinBindingFromToken pinned.stored
    · rw [WebauthnBindings.resolve_pinBindingFromToken_of_ne stored]
      · exact pinned.target
      · intro together
        obtain ⟨rfl, rfl⟩ := Prod.mk.inj together
        exact mine ⟨rfl, same.symm⟩

/-- The step that pins a submission makes its session the target. -/
theorem PinnedTo.of_pin {call : BrowserCall} (run : Run (Step listener) start trace s)
    (guarded : ∀ τ ∈ trace, LeavesPinsFinal listener call.executionId c τ.source τ.event)
    (step : s.Step listener (.pin call c) s') (guard : LeavesPinsFinal listener call.executionId c s (.pin call c)) :
    ∃ binding, PinnedTo call.executionId c call.request.sessionToken binding s' := by
  have mine : .submitted call c ∈ s.inFlight := step.in_flight rfl
  obtain ⟨binding, stored, same⟩ := Sessions.of_run run _ mine call c rfl
  have submitted := submits_of_run run guarded mine (by simp [BrowserTask.submits])
  refine ⟨binding, step.byToken_kept stored, same, ?_, submitted.step step guard, ?_⟩
  · obtain rfl := Option.some.inj step.run_eq
    rw [← same]
    exact WebauthnBindings.resolve_pinBindingFromToken stored
  · intro task member
    rcases step.arrives member with old | new
    · exact guard rfl rfl task old
    · cases new

theorem PinnedTo.of_run {token : String} {binding : WebauthnBinding} (run : Run (Step listener) s trace final)
    (pinned : PinnedTo e c token binding s) (sessions : Sessions s)
    (guarded : ∀ τ ∈ trace, LeavesPinsFinal listener e c τ.source τ.event)
    (last : ∀ τ ∈ trace, ∀ other, τ.event = .pin other c → other.executionId = e →
      other.request.sessionToken = token) : PinnedTo e c token binding final ∧ Sessions final := by
  induction run with
  | start => exact ⟨pinned, sessions⟩
  | @next earlier current event after previous step ih =>
    obtain ⟨before, known⟩ := ih (fun τ member => guarded τ (List.mem_append_left _ member))
      (fun τ member => last τ (List.mem_append_left _ member))
    have newest : (⟨current, event, after⟩ : Transition _ _) ∈ earlier ++ [⟨current, event, after⟩] := by simp
    exact ⟨before.step known step (guarded _ newest) (last _ newest), known.step step⟩

/-- After a submission from a browser has returned, outputs for its client are
encrypted to the key of the session that made it, until another session of the
client submits: in every run in which the execution has an input assignment and
keeps its slot, and no ceremony of the client is under way at a pin. -/
theorem pinned_key_is_final {before after : List (Transition CoordinatorBrowserState ServerEvent)}
    {τ : Transition CoordinatorBrowserState ServerEvent} {call : BrowserCall}
    (run : Run (Step listener) start trace final) (returned : trace = before ++ τ :: after)
    (pinned : τ.event = .pin call c)
    (guarded : ∀ σ ∈ trace, LeavesPinsFinal listener call.executionId c σ.source σ.event)
    (last : ∀ σ ∈ after, ∀ other, σ.event = .pin other c → other.executionId = call.executionId →
      other.request.sessionToken = call.request.sessionToken) :
    ∃ binding, final.bindings.get call.request.sessionToken = some binding ∧ binding.clientIdentity = c ∧
      final.bindings.resolveEcdhPublicKey call.executionId c = some binding.ecdhPublicKey := by
  obtain ⟨first, step, rest⟩ := run.split_at returned
  subst returned
  rw [pinned] at step
  have guard := guarded τ (by simp)
  rw [pinned] at guard
  have early : ∀ σ ∈ before, LeavesPinsFinal listener call.executionId c σ.source σ.event := fun σ member =>
    guarded σ (List.mem_append_left _ member)
  obtain ⟨binding, fixed⟩ := PinnedTo.of_pin first early step guard
  have final_target := (fixed.of_run rest ((Sessions.of_run first).step step)
    (fun σ member => guarded σ (by simp [member])) last).1
  exact ⟨binding, final_target.stored, final_target.identity, final_target.target⟩

section Runs

open Scenario

/-- The condition on steps, as far as it can be checked by evaluation. -/
def checksPins (s : CoordinatorBrowserState) : ServerEvent → Bool
  | .register party registration order => !registration.inputAssignment.ranges.isEmpty &&
      (s.evictedBy .recorded party registration order).isNone
  | .pin _ _ => s.inFlight.all fun task => !task.binds execution client
  | _ => true

theorem leavesPinsFinal_of_check {s : CoordinatorBrowserState} {event : ServerEvent}
    (checked : s.checksPins event = true) : LeavesPinsFinal .recorded execution client s event := by
  cases event with
  | register party registration order =>
    simp only [checksPins, Bool.and_eq_true, Bool.not_eq_true', List.isEmpty_eq_false_iff, Option.isNone_iff_eq_none]
      at checked
    exact ⟨fun _ _ => checked.1, by simp [checked.2]⟩
  | pin call identity =>
    simp only [checksPins, List.all_eq_true, Bool.not_eq_true'] at checked
    exact fun _ _ => checked
  | _ => trivial

/-- A later ceremony of a client that has submitted is refused. -/
theorem pinned_key_is_final_for_browser_client :
    ∃ trace final, Run (Step .recorded) start trace final ∧
      trace.map Transition.event = opening .assigned ++ submission ++ completion ++ [.bindCheck bindB [client]] ∧
      final.bindings.resolveEcdhPublicKey execution client = some ecdhKeyA := by
  obtain ⟨trace, final, run, events, seen, checked⟩ := exists_run_of_events .recorded
    (opening .assigned ++ submission ++ completion ++ [.bindCheck bindB [client]]) checksPins
    (fun s => (s.bindings.get submitCall.request.sessionToken).map WebauthnBinding.ecdhPublicKey) (some ecdhKeyA)
    (by decide +kernel)
  refine ⟨trace, final, run, events, ?_⟩
  have apart : opening .assigned ++ submission ++ completion ++ [.bindCheck bindB [client]] =
      (opening .assigned ++ submission ++ [.finish submitCall client fun _ => true]) ++
        .pin submitCall client :: [.bindCheck bindB [client]] := by
    simp [completion]
  rw [apart] at events
  obtain ⟨before, τ, after, returned, _, pinned, afterEvents⟩ := Run.split_events events
  have last : ∀ σ ∈ after, ∀ other, σ.event = .pin other client → other.executionId = submitCall.executionId →
      other.request.sessionToken = submitCall.request.sessionToken := by
    intro σ member other pins _
    have listed : σ.event ∈ after.map Transition.event := List.mem_map_of_mem member
    rw [afterEvents, List.mem_singleton, pins] at listed
    cases listed
  obtain ⟨binding, stored, _, target⟩ := pinned_key_is_final run returned pinned
    (fun σ member => leavesPinsFinal_of_check (checked σ member)) last
  rw [stored] at seen
  exact target.trans seen

/-- Events after which outputs of the client go to the key of a session that
did not submit for it, and not to that of the one that did. -/
def MovesTarget (events : List ServerEvent) : Prop :=
  ∃ trace final, Run (Step .recorded) start trace final ∧ trace.map Transition.event = events ∧
    (final.bindings.get submitCall.request.sessionToken).map WebauthnBinding.ecdhPublicKey = some ecdhKeyA ∧
    final.bindings.resolveEcdhPublicKey execution client = some ecdhKeyB

theorem movesTarget_of_execute {events : List ServerEvent}
    (done : (Run.execute (fun s event => if true then s.next .recorded event else none) start events).map
      (fun s : CoordinatorBrowserState =>
        ((s.bindings.get submitCall.request.sessionToken).map WebauthnBinding.ecdhPublicKey,
          s.bindings.resolveEcdhPublicKey execution client)) = some (some ecdhKeyA, some ecdhKeyB)) :
    MovesTarget events := by
  obtain ⟨trace, final, run, same, seen, _⟩ := exists_run_of_events .recorded events (fun _ _ => true) _ _ done
  obtain ⟨bound, resolved⟩ := Prod.mk.inj seen
  exact ⟨trace, final, run, same, bound, resolved⟩

/-- A ceremony that is checked before the submission and stored after its pin
moves the target; so does any later ceremony in an execution without an input
assignment. -/
theorem ceremony_moves_pinned_key :
    MovesTarget (opening .assigned ++ bindStart bindB 2 ++ submission ++ completion ++
        [.bindInsert bindB client [draw 66]]) ∧
      MovesTarget (opening (.unassigned 1 [client]) ++ submission ++ completion ++ bindStart bindB 2 ++
        [.bindInsert bindB client [draw 66]]) :=
  ⟨movesTarget_of_execute (by decide +kernel), movesTarget_of_execute (by decide +kernel)⟩

end Runs

end CoordinatorBrowserState

end MpcCoordinator
