import MpcCoordinator.Output.Service

namespace MpcCoordinator

namespace CoordinatorBrowserState

variable {listener : CoordinatorListener} {s s' : CoordinatorBrowserState} {e : ExecutionId}

theorem Step.evicts {party : ClientIdentity} {registration : ExecutionRegistration} {order : List ExecutionId}
    (step : s.Step listener (.register party registration order) s')
    (gone : s.evictedBy listener party registration order = some e) : s'.live e = none := by
  unfold evictedBy at gone
  split at gone
  swap
  · cases gone
  rename_i member
  obtain ⟨missing, _, candidate, made⟩ := CoordinatorRPCServerSharedBase.evicted_some gone
  obtain ⟨d, here, _⟩ := CoordinatorRPCServerSharedBase.evictable_live candidate
  have dropped : (s.coordinator.evict e).executions.lookup e = none :=
    CoordinatorRPCServerSharedBase.lookup_evict_self here
  have moved := step.administers
  generalize found : s'.coordinator = after at moved
  unfold live
  rw [found]
  cases moved with
  | nothing other => cases other
  | registration admission =>
    cases admission with
    | unchanged idle =>
      rcases idle with outsider | held | crowded
      · rw [show listener.topology.isParty party = false from outsider] at member
        cases member
      · exact absurd missing held
      · rw [show s.coordinator.makeRoom listener.topology order = none from crowded] at made
        cases made
    | refused _ room _ =>
      rw [show s.coordinator.makeRoom listener.topology order = some after from room] at made
      rw [Option.some.inj made, dropped]
    | @admitted space d' _ _ room _ =>
      rw [show s.coordinator.makeRoom listener.topology order = some space from room] at made
      rw [Option.some.inj made, CoordinatorRPCServerSharedBase.lookup_put_of_ne _ ?_, dropped]
      rintro rfl
      rw [missing] at here
      cases here

end CoordinatorBrowserState

/-- A coordinator of three nodes. -/
def CoordinatorListener.trio : CoordinatorListener := { CoordinatorListener.recorded with topology := .trio }

/-- An execution with one output client, and a threshold for its output. -/
def ExecutionRegistration.forOutput (minOutputShares : UInt64) : ExecutionRegistration :=
  { ExecutionRegistration.blank 0 with outputClients := [[9]], minOutputShares := minOutputShares }

namespace OutputServerState

variable {listener : CoordinatorListener} {s s' final : OutputServerState} {event : OutputEvent} {e : ExecutionId}
  {trace : List (Transition OutputServerState OutputEvent)}

/-- An execution keeps its slot in every step but a registration that takes it. -/
theorem Step.live_kept (step : s.Step listener event s') (here : (s.live e).isSome = true)
    (kept : ∀ party registration order, event = .server (.register party registration order) →
      s.server.evictedBy listener party registration order ≠ some e) : (s'.live e).isSome = true := by
  rcases step.server_cases with same | ⟨serverEvent, taken, origin⟩
  · rwa [live, same]
  · obtain ⟨d, here⟩ := Option.isSome_iff_exists.mp here
    have seen := taken.seen e
    rw [show s.server.live e = some d from here] at seen
    unfold live
    generalize s'.server.live e = after at seen ⊢
    cases seen with
    | untouched => rfl
    | called => rfl
    | dropped registers gone =>
      subst registers
      rcases origin with same | ⟨_, _, _, native⟩
      · exact absurd gone (kept _ _ _ same)
      · cases native

/-- A call that is about to deliver has just stored its share or its
subscription, and carries the threshold of its execution. -/
theorem Step.delivering_arrives (step : s.Step listener event s') {c : ClientIdentity} {m : Nat}
    (member : .delivering e c m ∈ s'.inFlight) : .delivering e c m ∈ s.inFlight ∨
      (∀ serverEvent, event ≠ .server serverEvent) ∧
        ∃ d, s.live e = some d ∧ d.registration.minOutputShares.toNat = m := by
  rcases step.arrives member with old | arrives
  · exact Or.inl old
  · cases arrives with
    | shared here | waiting here => exact Or.inr ⟨nofun, _, here, rfl⟩

/-- Every call that is about to deliver finds its execution registered. -/
def Deliverable (s : OutputServerState) : Prop :=
  ∀ e c m, .delivering e c m ∈ s.inFlight → (s.live e).isSome = true

/-- A registration takes no slot of an execution on which a delivery is due. -/
def SparesPending (listener : CoordinatorListener) (s : OutputServerState) : OutputEvent → Prop
  | .server (.register party registration order) => ∀ e c m,
      s.server.evictedBy listener party registration order = some e → .delivering e c m ∉ s.inFlight
  | _ => True

theorem Deliverable.step_iff (deliverable : Deliverable s) (step : s.Step listener event s') :
    Deliverable s' ↔ SparesPending listener s event := by
  constructor
  · intro after
    cases step.effect with
    | @server serverEvent server _ taken =>
      cases serverEvent with
      | register party registration order =>
        intro e c m gone pending
        have absent : server.live e = none := taken.evicts gone
        have found := after e c m pending
        rw [live, absent] at found
        cases found
      | _ => trivial
    | _ => trivial
  · intro spares e c m member
    rcases step.delivering_arrives member with old | ⟨other, d, here, _⟩
    · refine step.live_kept (deliverable e c m old) ?_
      rintro party registration order rfl gone
      exact spares e c m gone old
    · exact step.live_kept (Option.isSome_iff_exists.mpr ⟨d, here⟩) fun _ _ _ same => absurd same (other _)

/-- The lookup of a delivery finds its execution in every state exactly when no
registration takes the slot of an execution on which a delivery is due. No step
of such a run panics. -/
theorem output_execution_remains_registered_iff (run : Run (Step listener) start trace final) :
    ((∀ s ∈ Run.reached start trace, Deliverable s) ↔ ∀ τ ∈ trace, SparesPending listener τ.source τ.event) ∧
      ((∀ τ ∈ trace, SparesPending listener τ.source τ.event) → ∀ τ ∈ trace, ∀ e c m, τ.event = .deliver e c m →
        (τ.source.live e).isSome = true) := by
  have always : (∀ s ∈ Run.reached start trace, Deliverable s) ↔ ∀ τ ∈ trace, SparesPending listener τ.source τ.event :=
    run.always_iff (I := fun _ => True) trivial (fun _ _ _ _ _ => trivial) (by simp [Deliverable, start])
      (fun _ _ _ _ deliverable step => deliverable.step_iff step)
  refine ⟨always, ?_⟩
  intro guarded τ member e c m delivers
  have pending := (run.taken_of_mem member).in_flight (by rw [delivers]; rfl)
  exact always.mpr guarded _ (run.source_reached member) e c m pending

section Runs

theorem exists_run_of_events {β : Type} (listener : CoordinatorListener) (events : List OutputEvent)
    (check : OutputServerState → OutputEvent → Bool) (view : OutputServerState → β) (seen : β)
    (done : (Run.execute (fun s event => if check s event then s.next listener event else none) start events).map view =
      some seen) :
    ∃ trace final, Run (Step listener) start trace final ∧ trace.map Transition.event = events ∧ view final = seen ∧
      ∀ τ ∈ trace, check τ.source τ.event = true :=
  Run.exists_of_checked (fun _ _ _ moved => moved) done

/-- Three nodes serve one output client. A node sends its share while the client
waits for it, and the client is sent a snapshot. -/
def servedClient : List OutputEvent :=
  [.server (.register [1] (.forOutput 1) []), .requestOutputShares (.numbered 0) [9],
    .obtainOutputShares (.numbered 0) [9] 0, .deliver (.numbered 0) [9] 1,
    .sendOutputShares (.numbered 0) [1] [9] ([7], [8]), .deliver (.numbered 0) [9] 1,
    .send (.numbered 0) [9] ⟨0, [9]⟩ [([7], [8])] true]

/-- The condition on registrations, as far as it can be checked by evaluation. -/
def checksEvictions (s : OutputServerState) : OutputEvent → Bool
  | .server (.register party registration order) => (s.server.evictedBy .trio party registration order).isNone
  | _ => true

theorem sparesPending_of_check (checked : s.checksEvictions event = true) : SparesPending .trio s event := by
  cases event with
  | server serverEvent =>
    cases serverEvent with
    | register party registration order =>
      intro e c m gone
      rw [checksEvictions, gone] at checked
      cases checked
    | _ => trivial
  | _ => trivial

/-- Both deliveries to the client find the execution. -/
theorem output_execution_remains_registered_for_client :
    ∃ trace final, Run (Step .trio) start trace final ∧ trace.map Transition.event = servedClient ∧
      final.sent = [⟨.numbered 0, [9], ⟨0, [9]⟩, [([7], [8])]⟩] ∧
      ∀ τ ∈ trace, τ.event = .deliver (.numbered 0) [9] 1 → (τ.source.live (.numbered 0)).isSome = true := by
  obtain ⟨trace, final, run, events, sent, checked⟩ := exists_run_of_events .trio servedClient checksEvictions
    OutputServerState.sent [⟨.numbered 0, [9], ⟨0, [9]⟩, [([7], [8])]⟩] (by decide +kernel)
  refine ⟨trace, final, run, events, sent, fun τ member delivers => ?_⟩
  exact (output_execution_remains_registered_iff run).2 (fun σ listed => sparesPending_of_check (checked σ listed)) τ
    member _ _ _ delivers

theorem isParty_of_mem_trio :
    ∀ party ∈ ([[2], [3]] : List ClientIdentity), CoordinatorListener.trio.topology.isParty party = true := by
  decide

/-- A node of a full coordinator is between storing its share and delivering it,
while the others are done with the execution. -/
theorem exists_run_pending : ∃ trace server d,
    Run (Step .trio) start trace ⟨server, [.delivering (.numbered 0) [9] 1], [], ∅, []⟩ ∧ server.inFlight = [] ∧
      Crowded d server.coordinator ∧ d.retirementAcks = {[2], [3]} := by
  obtain ⟨_, shared, filling, full⟩ := CoordinatorBrowserState.exists_run_crowded (isParty_of_mem_trio [2] (by simp))
    rfl (rfl : CoordinatorExecutionState.new (.forOutput 1) 3 = .ok (.fresh (.forOutput 1)))
  obtain ⟨first, filled⟩ := exists_run_of_roster filling (s := start) rfl
  -- the node stores its share
  let stored := { CoordinatorExecutionState.fresh (.forOutput 1) with
    outputShares := (∅ : AList fun _ => EncryptedShares).insert ([9], [1]) ([7], [8]) }
  have accepted : (CoordinatorRPCServerConnectionBase.mk CoordinatorListener.trio.topology [1]).sendOutputShares
      (.fresh (.forOutput 1)) [9] ([7], [8]) = .ok stored := rfl
  have storing := step_sendOutputShares (s := { start with server := { CoordinatorBrowserState.start with
    coordinator := shared } }) full.first accepted
  -- the others retire the execution
  have crowded : Crowded stored (shared.put (.numbered 0) stored) := full.put stored
  obtain ⟨_, drained, retiring, finished⟩ := CoordinatorBrowserState.exists_run_drained
    (s := { CoordinatorBrowserState.start with coordinator := shared.put (.numbered 0) stored }) isParty_of_mem_trio crowded
  obtain ⟨rest, retired⟩ := exists_run_of_roster retiring
    (s := ⟨_, [.delivering (.numbered 0) [9] 1], [], ∅, []⟩) rfl
  exact ⟨_, _, _, (filled.next storing).append retired, rfl, finished, rfl⟩

/-- A registration then takes the slot of the execution, and the delivery does
not find it. -/
theorem eviction_panics_delivery :
    ∃ trace s s', Run (Step .trio) start trace s ∧ s.live (.numbered 0) = none ∧
      s.Step .trio (.deliver (.numbered 0) [9] 1) s' := by
  obtain ⟨trace, server, d, run, idle, crowded, acks⟩ := exists_run_pending
  obtain ⟨order, shared, dropping, _, gone, _⟩ := CoordinatorBrowserState.exists_step_dropping idle
    (isParty_of_mem_trio [2] (by simp)) crowded (by rw [acks]; decide)
  obtain ⟨rest, dropped⟩ := exists_run_of_roster (Run.start.next dropping)
    (s := ⟨server, [.delivering (.numbered 0) [9] 1], [], ∅, []⟩) rfl
  exact ⟨_, _, _, run.append dropped, gone, step_deliver .trio (by simp)⟩

end Runs

end OutputServerState

end MpcCoordinator
