import MpcCoordinator.Server.Tombstones

namespace MpcCoordinator

namespace CoordinatorRPCServerConnectionBase

variable {connection : CoordinatorRPCServerConnectionBase} {shared shared' : CoordinatorRPCServerSharedBase}
  {executionId : ExecutionId}

theorem atExecution_rest {action : Action} {reply : RpcResult Unit}
    (performed : connection.atExecution shared executionId action = some (reply, shared')) :
    shared'.retired = shared.retired ∧ shared'.oneOffExecution = shared.oneOffExecution ∧
      shared'.executions.keys = shared.executions.keys := by
  rcases atExecution_cases performed with ⟨_, _, rfl⟩ | ⟨d, d', live, _, rfl⟩
  · exact ⟨rfl, rfl, rfl⟩
  · exact ⟨rfl, rfl, CoordinatorRPCServerSharedBase.keys_put_of_live _ live⟩

theorem requestShutdown_rest : (connection.requestShutdown shared).2.retired = shared.retired ∧
    (connection.requestShutdown shared).2.oneOffExecution = shared.oneOffExecution := by
  unfold requestShutdown
  repeat' split
  all_goals exact ⟨rfl, rfl⟩

/-- A retirement call touches no tombstone but the one it acknowledges. -/
theorem retire_rest : ((connection.retire shared executionId).2.retired = shared.retired ∨
      (connection.retire shared executionId).2.retired =
        (shared.retired.acknowledge executionId connection.id connection.topology.mpcNodes.val.length).2) ∧
    (connection.retire shared executionId).2.oneOffExecution = shared.oneOffExecution := by
  unfold retire
  split
  · exact ⟨Or.inl rfl, rfl⟩
  rename_i party
  rw [answer_snd, CoordinatorRPCServerSharedBase.retireExecution, if_neg party]
  split
  · rename_i acknowledged
    exact ⟨Or.inr (by rw [acknowledged]), rfl⟩
  · split <;> exact ⟨Or.inl rfl, rfl⟩

/-- What a registration call comes to. -/
inductive Admission (connection : CoordinatorRPCServerConnectionBase) (shared : CoordinatorRPCServerSharedBase)
    (registration : ExecutionRegistration) (order : List ExecutionId) : CoordinatorRPCServerSharedBase → Prop
  | unchanged : connection.topology.isParty connection.id = false ∨
      shared.executions.lookup registration.executionId ≠ none ∨ shared.makeRoom connection.topology order = none →
      Admission connection shared registration order shared
  | refused {room refusal} : shared.executions.lookup registration.executionId = none →
      shared.makeRoom connection.topology order = some room →
      CoordinatorExecutionState.new registration connection.topology.n = .error refusal →
      Admission connection shared registration order room
  | admitted {room d} : connection.topology.isParty connection.id = true →
      shared.executions.lookup registration.executionId = none →
      shared.makeRoom connection.topology order = some room →
      CoordinatorExecutionState.new registration connection.topology.n = .ok d →
      Admission connection shared registration order (room.put registration.executionId d)

theorem registerExecution_admission (connection : CoordinatorRPCServerConnectionBase)
    (shared : CoordinatorRPCServerSharedBase) (registration : ExecutionRegistration) (order : List ExecutionId) :
    Admission connection shared registration order (connection.registerExecution shared registration order).2 := by
  unfold registerExecution
  split
  · rename_i outsider
    exact .unchanged (Or.inl outsider)
  rename_i party
  rw [answer_snd]
  cases known : shared.executions.lookup registration.executionId with
  | some existing =>
    have held : shared.executions.lookup registration.executionId ≠ none := by simp [known]
    simp only [CoordinatorRPCServerSharedBase.registerExecution, known]
    split <;> exact .unchanged (Or.inr (Or.inl held))
  | none =>
    rw [CoordinatorRPCServerSharedBase.registerExecution_eq known]
    split
    · rename_i crowded
      exact .unchanged (Or.inr (Or.inr crowded))
    · rename_i room made
      unfold CoordinatorRPCServerSharedBase.enroll
      split
      · rename_i checked
        exact .refused known made checked
      · rename_i checked
        exact .admitted (by simpa using party) known made checked

end CoordinatorRPCServerConnectionBase

namespace CoordinatorBrowserState

variable (listener : CoordinatorListener) (s : CoordinatorBrowserState)

/-- What a step can do to the tombstones and to the watched execution. -/
inductive Administers : ServerEvent → CoordinatorRPCServerSharedBase → Prop
  | nothing {event after} : isAdministrative event = false → after.retired = s.coordinator.retired →
      after.oneOffExecution = s.coordinator.oneOffExecution → Administers event after
  | registration {party registration order after} :
      CoordinatorRPCServerConnectionBase.Admission ⟨listener.topology, party⟩ s.coordinator registration order after →
      Administers (.register party registration order) after
  | acknowledgement {party executionId after} :
      after.retired = (s.coordinator.retired.acknowledge executionId party listener.topology.mpcNodes.val.length).2 →
      after.oneOffExecution = s.coordinator.oneOffExecution → Administers (.retire party executionId) after
  | watched {executionId} : Administers (.watch executionId) (s.coordinator.watchForShutdownRequest executionId)

variable {listener s} {event : ServerEvent} {s' : CoordinatorBrowserState} {e : ExecutionId}

theorem Step.administers (step : s.Step listener event s') : Administers listener s event s'.coordinator := by
  have moved := step.moves
  generalize s'.coordinator = after at moved
  cases moved with
  | nothing other _ => exact .nothing other rfl rfl
  | registration => exact .registration (CoordinatorRPCServerConnectionBase.registerExecution_admission _ _ _ _)
  | retirement =>
    obtain ⟨retired, unwatched⟩ := CoordinatorRPCServerConnectionBase.retire_rest
    rcases retired with same | acknowledged
    · exact .nothing rfl same unwatched
    · exact .acknowledgement acknowledged unwatched
  | watched => exact .watched
  | shutdown =>
    obtain ⟨retired, unwatched⟩ := CoordinatorRPCServerConnectionBase.requestShutdown_rest
    exact .nothing rfl retired unwatched
  | criticalSection other _ performed =>
    obtain ⟨retired, unwatched, _⟩ := CoordinatorRPCServerConnectionBase.atExecution_rest performed
    exact .nothing other retired unwatched

/-- No live execution has a tombstone. -/
def Apart (s : CoordinatorBrowserState) : Prop :=
  ∀ e d, s.live e = some d → s.coordinator.retired.acks e = none

/-- A registration call makes a new execution: it comes from a roster party, its
id is not live, a slot is free or can be freed, and its metadata passes the checks. -/
structure Admits (listener : CoordinatorListener) (s : CoordinatorBrowserState) (party : ClientIdentity)
    (registration : ExecutionRegistration) (order : List ExecutionId) : Prop where
  member : listener.topology.isParty party = true
  absent : s.live registration.executionId = none
  room : s.coordinator.executions.keys.card < defaultMaxConcurrentExecutions ∨
    ∃ e ∈ order, s.coordinator.evictable listener.topology e = true
  valid : ∃ d, CoordinatorExecutionState.new registration listener.topology.n = .ok d

/-- A registration that is admitted names an id without a tombstone, or one
whose tombstone is forgotten as the registration drops another execution. -/
def NamesNoTombstone (listener : CoordinatorListener) (s : CoordinatorBrowserState) : ServerEvent → Prop
  | .register party registration order => Admits listener s party registration order →
      s.coordinator.retired.acks registration.executionId = none ∨
        defaultMaxConcurrentExecutions ≤ s.coordinator.executions.keys.card ∧
          s.coordinator.retired.isForgotten registration.executionId = true
  | _ => True

/-- The tombstones are listed, in the order in which they are forgotten. -/
def TombstonesListed (s : CoordinatorBrowserState) : Prop := s.coordinator.retired.Listed

theorem tombstones_makeRoom {topology : Topology} {shared room : CoordinatorRPCServerSharedBase} {order : List ExecutionId}
    (made : shared.makeRoom topology order = some room) : room.retired = shared.retired ∨
      ∃ call : TombstoneCall, call.Rostered topology ∧ shared.retired.Step call room.retired := by
  rcases CoordinatorRPCServerSharedBase.makeRoom_cases made with ⟨_, rfl⟩ | ⟨gone, d, live, _, _, rfl⟩
  · exact .inl rfl
  · refine .inr ⟨.sealExecution gone d.retirementAcks, trivial, ?_⟩
    simp only [CoordinatorRPCServerSharedBase.evict, live]
    rfl

/-- A step makes at most one call to the tombstones, and counts on all parties
of the roster. -/
theorem Step.tombstones (step : s.Step listener event s') : s'.coordinator.retired = s.coordinator.retired ∨
    ∃ call : TombstoneCall, call.Rostered listener.topology ∧
      s.coordinator.retired.Step call s'.coordinator.retired := by
  have moved := step.administers
  generalize s'.coordinator = after at moved ⊢
  cases moved with
  | nothing _ same _ => exact .inl same
  | @acknowledgement party executionId after same _ =>
    exact .inr ⟨.acknowledge ⟨executionId, party, listener.topology.mpcNodes.val.length⟩, rfl, same⟩
  | watched => exact .inl rfl
  | registration admission =>
    cases admission with
    | unchanged => exact .inl rfl
    | refused _ made _ => exact tombstones_makeRoom made
    | admitted _ _ made _ =>
      have roomy := tombstones_makeRoom made
      exact roomy

theorem TombstonesListed.step (listed : TombstonesListed s) (step : s.Step listener event s') : TombstonesListed s' := by
  unfold TombstonesListed at listed ⊢
  rcases step.tombstones with same | ⟨call, _, served⟩
  · rwa [same]
  · exact listed.step served

/-- The tombstones of a coordinator are always what some calls make of none. -/
theorem exists_run_tombstones {trace : List (Transition CoordinatorBrowserState ServerEvent)}
    {final : CoordinatorBrowserState} (run : Run (Step listener) start trace final) :
    ∃ calls, Run RetiredExecutions.Step .empty calls final.coordinator.retired ∧
      ∀ τ ∈ calls, τ.event.Rostered listener.topology := by
  induction run with
  | start => exact ⟨[], .start, by simp⟩
  | next _ step ih =>
    obtain ⟨calls, served, rostered⟩ := ih
    rcases step.tombstones with same | ⟨call, counts, next⟩
    · rw [same]
      exact ⟨calls, served, rostered⟩
    · refine ⟨_, served.next next, fun τ member => ?_⟩
      rcases List.mem_append.mp member with old | new
      · exact rostered τ old
      · rw [List.mem_singleton.mp new]
        exact counts

/-- Making room leaves every other execution without a tombstone, and forgets
at most one tombstone. -/
theorem Apart.makeRoom {order : List ExecutionId} {room : CoordinatorRPCServerSharedBase} (apart : Apart s)
    (listed : TombstonesListed s) (made : s.coordinator.makeRoom listener.topology order = some room) :
    (∀ e d, room.executions.lookup e = some d → room.retired.acks e = none) ∧
      ∀ e, s.live e = none → (room.retired.acks e = none ↔ s.coordinator.retired.acks e = none ∨
        defaultMaxConcurrentExecutions ≤ s.coordinator.executions.keys.card ∧
          s.coordinator.retired.isForgotten e = true) := by
  rcases CoordinatorRPCServerSharedBase.makeRoom_cases made with ⟨free, rfl⟩ | ⟨gone, dropped, here, _, full, rfl⟩
  · exact ⟨apart, fun e _ => (or_iff_left fun forgotten => absurd free (Nat.not_lt.mpr forgotten.1)).symm⟩
  have fresh := apart gone dropped here
  have retired : (s.coordinator.evict gone).retired =
      s.coordinator.retired.sealExecution gone dropped.retirementAcks := by
    simp only [CoordinatorRPCServerSharedBase.evict, here]
  rw [retired]
  constructor
  · intro e d live
    have different : e ≠ gone := by
      rintro rfl
      rw [CoordinatorRPCServerSharedBase.lookup_evict_self here] at live
      cases live
    rw [CoordinatorRPCServerSharedBase.lookup_evict_of_ne different] at live
    exact (listed.acks_sealExecution_none_iff _ fresh different).mpr (Or.inl (apart e d live))
  · intro e absent
    have different : e ≠ gone := by
      rintro rfl
      rw [live, here] at absent
      cases absent
    rw [listed.acks_sealExecution_none_iff _ fresh different]
    exact or_congr_right (and_iff_right full).symm

/-- A registration keeps live executions and tombstones apart exactly when it
does not reopen a tombstone. -/
theorem Apart.register_iff {party : ClientIdentity} {registration : ExecutionRegistration} {order : List ExecutionId}
    (listed : TombstonesListed s) (apart : Apart s) (step : s.Step listener (.register party registration order) s') :
    Apart s' ↔ NamesNoTombstone listener s (.register party registration order) := by
  have moved := step.administers
  generalize found : s'.coordinator = after at moved
  cases moved with
  | nothing other => cases other
  | registration admission =>
    unfold Apart CoordinatorBrowserState.live
    rw [found]
    cases admission with
    | unchanged idle =>
      refine iff_of_true apart fun admits => ?_
      have member := admits.member
      have roomy := CoordinatorRPCServerSharedBase.makeRoom_isSome.mpr admits.room
      rcases idle with outsider | held | crowded
      · rw [show listener.topology.isParty party = false from outsider] at member
        cases member
      · exact absurd admits.absent held
      · rw [show s.coordinator.makeRoom listener.topology order = none from crowded] at roomy
        cases roomy
    | refused _ made checked =>
      refine iff_of_true (apart.makeRoom listed made).1 fun admits => ?_
      obtain ⟨d, admitted⟩ := admits.valid
      rw [show CoordinatorExecutionState.new registration listener.topology.n = _ from checked] at admitted
      cases admitted
    | @admitted room d member absent made checked =>
      obtain ⟨others, forgotten⟩ := apart.makeRoom listed made
      have roomy := CoordinatorRPCServerSharedBase.makeRoom_isSome.mp (Option.isSome_iff_exists.mpr ⟨room, made⟩)
      have guarded : NamesNoTombstone listener s (.register party registration order) ↔
          room.retired.acks registration.executionId = none := by
        rw [forgotten _ absent]
        exact ⟨fun named => named ⟨member, absent, roomy, d, checked⟩, fun vacant _ => vacant⟩
      rw [guarded]
      constructor
      · intro kept
        exact kept _ d (CoordinatorRPCServerSharedBase.lookup_put_self d)
      · intro vacant e d' here
        by_cases named : e = registration.executionId
        · rw [named]
          exact vacant
        · rw [CoordinatorRPCServerSharedBase.lookup_put_of_ne _ named] at here
          exact others e d' here

/-- An id that becomes live in a registration call was admitted by it. -/
theorem Step.admits {party : ClientIdentity} {registration : ExecutionRegistration} {order : List ExecutionId}
    {d : CoordinatorExecutionState} (step : s.Step listener (.register party registration order) s')
    (absent : s.live registration.executionId = none) (here : s'.live registration.executionId = some d) :
    Admits listener s party registration order := by
  have moved := step.administers
  generalize found : s'.coordinator = after at moved
  rw [live, found] at here
  cases moved with
  | nothing other => cases other
  | registration admission =>
    cases admission with
    | unchanged =>
      rw [live, here] at absent
      cases absent
    | refused _ made _ =>
      rcases CoordinatorRPCServerSharedBase.makeRoom_cases made with ⟨_, rfl⟩ | ⟨gone, _, held, _, _, rfl⟩
      · rw [live, here] at absent
        cases absent
      · have different : registration.executionId ≠ gone := by
          rintro same
          rw [live, same, held] at absent
          cases absent
        rw [CoordinatorRPCServerSharedBase.lookup_evict_of_ne different] at here
        rw [live, here] at absent
        cases absent
    | @admitted room d member _ made checked =>
      exact ⟨member, absent, CoordinatorRPCServerSharedBase.makeRoom_isSome.mp (Option.isSome_iff_exists.mpr ⟨room, made⟩),
        d, checked⟩

/-- No other step makes an execution live or adds a tombstone. -/
theorem Apart.kept (apart : Apart s) (step : s.Step listener event s')
    (other : ∀ party registration order, event ≠ .register party registration order) : Apart s' := by
  intro e d here
  have before : ∃ d, s.live e = some d := by
    have seen := step.seen e
    rw [here] at seen
    generalize s.live e = source at seen ⊢
    cases seen with
    | untouched => exact ⟨_, rfl⟩
    | called => exact ⟨_, rfl⟩
    | created registers => exact absurd registers (other _ _ _)
  obtain ⟨earlier, held⟩ := before
  have vacant := apart e earlier held
  have moved := step.administers
  generalize s'.coordinator = after at moved ⊢
  cases moved with
  | nothing _ same _ => rwa [same]
  | registration => exact absurd rfl (other _ _ _)
  | acknowledgement same _ =>
    rw [same]
    exact RetiredExecutions.acks_acknowledge_none vacant
  | watched => exact vacant

theorem Apart.step_iff (listed : TombstonesListed s) (apart : Apart s) (step : s.Step listener event s') :
    Apart s' ↔ NamesNoTombstone listener s event := by
  cases event with
  | register party registration order => exact apart.register_iff listed step
  | _ => exact iff_of_true (apart.kept step nofun) trivial

/-- A retirement call of a roster party reaches a live execution that has no tombstone. -/
theorem Apart.retire_recorded {party : ClientIdentity} {d : CoordinatorExecutionState} (apart : Apart s)
    (step : s.Step listener (.retire party e) s') (member : listener.topology.isParty party = true)
    (here : s.live e = some d) : ∃ d', s'.live e = some d' ∧ party ∈ d'.retirementAcks := by
  have recorded := step_retire member here (apart e d here)
  obtain rfl := Option.some.inj (step.symm.trans recorded.1)
  exact ⟨_, CoordinatorRPCServerSharedBase.lookup_put_self _, Finset.mem_insert_self _ _⟩

/-- A retirement call for an id that has a tombstone reaches no execution. -/
theorem step_retire_diverted (listener : CoordinatorListener) (party : ClientIdentity)
    (held : s.coordinator.retired.contains e = true) :
    ∃ s', s.Step listener (.retire party e) s' ∧ s'.live e = s.live e := by
  let connection : CoordinatorRPCServerConnectionBase := ⟨listener.topology, party⟩
  refine ⟨{ s with coordinator := (connection.retire s.coordinator e).2 }, rfl, ?_⟩
  exact congrArg _ (CoordinatorRPCServerConnectionBase.retire_executions (Or.inr held))

/-- Live executions and tombstones never overlap exactly when no registration
reopens a tombstone, and then every retirement call of a roster party for a live
execution is counted there. -/
theorem live_and_retired_apart_iff {trace : List (Transition CoordinatorBrowserState ServerEvent)}
    {final : CoordinatorBrowserState} (run : Run (Step listener) start trace final) :
    ((∀ s ∈ Run.reached start trace, Apart s) ↔ ∀ τ ∈ trace, NamesNoTombstone listener τ.source τ.event) ∧
      ((∀ τ ∈ trace, NamesNoTombstone listener τ.source τ.event) → ∀ τ ∈ trace, ∀ party e d,
        τ.event = .retire party e → listener.topology.isParty party = true → τ.source.live e = some d →
          ∃ d', τ.target.live e = some d' ∧ party ∈ d'.retirementAcks) := by
  have disjoint : (∀ s ∈ Run.reached start trace, Apart s) ↔
      ∀ τ ∈ trace, NamesNoTombstone listener τ.source τ.event :=
    run.always_iff (I := TombstonesListed) RetiredExecutions.Listed.empty (fun _ _ _ listed step => listed.step step)
      (by simp [Apart, live, start, CoordinatorRPCServerSharedBase.new])
      (fun _ _ _ listed apart step => Apart.step_iff listed apart step)
  refine ⟨disjoint, ?_⟩
  intro guarded τ member party e d retires party_member here
  have apart := disjoint.mpr guarded _ (run.source_reached member)
  have step := run.taken_of_mem member
  rw [retires] at step
  exact apart.retire_recorded step party_member here

/-- The condition on steps, as far as it can be checked by evaluation, and that
retirement calls are for live executions. -/
def checksTombstones (s : CoordinatorBrowserState) : ServerEvent → Bool
  | .register _ registration _ => (s.coordinator.retired.acks registration.executionId).isNone
  | .retire _ e => (s.live e).isSome
  | _ => true

theorem namesNoTombstone_of_check (checked : s.checksTombstones event = true) : NamesNoTombstone listener s event := by
  cases event with
  | register party registration order => exact fun _ => Or.inl (Option.isNone_iff_eq_none.mp checked)
  | _ => trivial

open Scenario in
/-- A party retires the execution it registered. -/
theorem live_and_retired_apart_iff_after_retirement :
    ∃ trace final, Run (Step .recorded) start trace final ∧
      trace.map Transition.event = [.register [1] (.unassigned 0 []) [], .retire [1] execution] ∧
      (∀ s ∈ Run.reached start trace, Apart s) ∧
      ∃ τ ∈ trace, ∃ d, τ.target.live execution = some d ∧ [1] ∈ d.retirementAcks := by
  obtain ⟨trace, final, run, events, _, checked⟩ := exists_run_of_events .recorded
    [.register [1] (.unassigned 0 []) [], .retire [1] execution] checksTombstones
    (fun s => (s.live execution).isSome) true (by decide +kernel)
  have guarded : ∀ τ ∈ trace, NamesNoTombstone .recorded τ.source τ.event := fun τ member =>
    namesNoTombstone_of_check (checked τ member)
  obtain ⟨apart, recorded⟩ := live_and_retired_apart_iff run
  have listed : ServerEvent.retire [1] execution ∈ trace.map Transition.event := by simp [events]
  obtain ⟨τ, member, retires⟩ := List.mem_map.mp listed
  have here := checked τ member
  rw [retires] at here
  obtain ⟨d, here⟩ := Option.isSome_iff_exists.mp here
  exact ⟨trace, final, run, events, apart.mpr guarded, τ, member,
    recorded guarded τ member [1] execution d retires rfl here⟩

/-- An id that is registered anew is live and has a tombstone, and a later
retirement call for it is not counted. -/
theorem reused_id_diverts_retirement :
    ∃ trace s s' d d', Run (Step .recorded) start trace s ∧ s.live (.numbered 0) = some d ∧
      s.coordinator.retired.acks (.numbered 0) = some {[1]} ∧
      s.Step .recorded (.retire [1] (.numbered 0)) s' ∧ s'.live (.numbered 0) = some d' ∧
      d'.retirementAcks = ∅ := by
  obtain ⟨first, drained, finishing, crowded⟩ := exists_run_finished
  obtain ⟨second, reused, registering, here, held⟩ := exists_run_reused (s := { start with coordinator := drained }) rfl
    (isParty_of_mem_lone [1] (by simp)) isParty_of_mem_lone crowded (by decide) (by decide) rfl
    (new_blank (.lone [1]) (by decide : 0 < 65535))
  obtain ⟨s', retired, same⟩ := step_retire_diverted (s := { start with coordinator := reused }) .recorded [1]
    (by rw [RetiredExecutions.contains, held]; rfl)
  exact ⟨_, _, s', _, _, (finishing.append registering).mono fun _ _ _ step => step.1, here, held, retired,
    same.trans here, rfl⟩

section Quorum

variable {trace : List (Transition CoordinatorBrowserState ServerEvent)} {final : CoordinatorBrowserState}
  {party : ClientIdentity} {d : CoordinatorExecutionState}

/-- The execution that was last given to the shutdown watch. -/
def lastWatched (trace : List (Transition CoordinatorBrowserState ServerEvent)) : Option ExecutionId :=
  trace.foldl (fun watched τ => match τ.event with
    | .watch e => some e
    | _ => watched) none

theorem lastWatched_append (τ : Transition CoordinatorBrowserState ServerEvent) :
    lastWatched (trace ++ [τ]) = match τ.event with
      | .watch e => some e
      | _ => lastWatched trace := by
  simp only [lastWatched, List.foldl_append, List.foldl_cons, List.foldl_nil]

theorem makeRoom_oneOffExecution {topology : Topology} {shared room : CoordinatorRPCServerSharedBase}
    {order : List ExecutionId} (made : shared.makeRoom topology order = some room) :
    room.oneOffExecution = shared.oneOffExecution := by
  rcases CoordinatorRPCServerSharedBase.makeRoom_cases made with ⟨_, rfl⟩ | ⟨gone, d, live, _, _, rfl⟩
  · rfl
  · simp only [CoordinatorRPCServerSharedBase.evict, live]

theorem oneOffExecution_eq_lastWatched (run : Run (Step listener) start trace final) :
    final.coordinator.oneOffExecution = lastWatched trace := by
  induction run with
  | start => rfl
  | @next earlier current event after previous step ih =>
    rw [lastWatched_append]
    have moved := step.administers
    generalize after.coordinator = coordinator at moved
    cases moved with
    | nothing other _ unwatched =>
      rw [unwatched, ih]
      cases event <;> first | rfl | cases other
    | acknowledgement _ unwatched => rw [unwatched, ih]
    | watched => rfl
    | registration admission =>
      cases admission with
      | unchanged => exact ih
      | refused _ made _ => exact (makeRoom_oneOffExecution made).trans ih
      | admitted _ _ made _ => exact (makeRoom_oneOffExecution made).trans ih

/-- No more executions are live than there are slots. -/
def Bounded (s : CoordinatorBrowserState) : Prop :=
  s.coordinator.executions.keys.card ≤ defaultMaxConcurrentExecutions

theorem card_keys_makeRoom {topology : Topology} {shared room : CoordinatorRPCServerSharedBase}
    {order : List ExecutionId} (made : shared.makeRoom topology order = some room)
    (bounded : shared.executions.keys.card ≤ defaultMaxConcurrentExecutions) :
    room.executions.keys.card < defaultMaxConcurrentExecutions := by
  rcases CoordinatorRPCServerSharedBase.makeRoom_cases made with ⟨free, rfl⟩ | ⟨gone, d, live, _, full, rfl⟩
  · exact free
  · have member : gone ∈ shared.executions.keys := CoordinatorRPCServerSharedBase.mem_keys_iff.mpr (by simp [live])
    rw [CoordinatorRPCServerSharedBase.keys_evict live]
    exact (Finset.card_erase_lt_of_mem member).trans_le bounded

theorem Bounded.step (bounded : Bounded s) (step : s.Step listener event s') : Bounded s' := by
  unfold Bounded at bounded ⊢
  cases step.touches with
  | nothing _ same => rwa [same]
  | criticalSection _ performed =>
    rwa [(CoordinatorRPCServerConnectionBase.atExecution_rest performed).2.2]
  | @registration party registration order _ result =>
    rw [result]
    have admission := CoordinatorRPCServerConnectionBase.registerExecution_admission ⟨listener.topology, party⟩
      s.coordinator registration order
    generalize (CoordinatorRPCServerConnectionBase.registerExecution ⟨listener.topology, party⟩ s.coordinator
      registration order).2 = after at admission ⊢
    cases admission with
    | unchanged => exact bounded
    | refused _ made _ => exact (card_keys_makeRoom made bounded).le
    | admitted _ _ made _ =>
      rw [CoordinatorRPCServerSharedBase.keys_put]
      exact (Finset.card_insert_le _ _).trans (card_keys_makeRoom made bounded)

/-- A party has acknowledged an execution that was live then and is so since. -/
def AcknowledgedIn (trace : List (Transition CoordinatorBrowserState ServerEvent)) (e : ExecutionId)
    (party : ClientIdentity) : Prop :=
  Run.Since (fun σ => σ.event = .retire party e) (fun s => (s.live e).isSome = true) trace

theorem sectionOf_of_callAt {τ : Transition CoordinatorBrowserState ServerEvent} {call : Call}
    {d' : CoordinatorExecutionState} (called : callAt listener e τ = some ⟨d, call, d'⟩) :
    sectionOf listener τ.source τ.event = some (e, call.caller, call.action) := by
  unfold callAt at called
  split at called
  · cases called
  · rename_i here
    split at called
    · rename_i named
      obtain ⟨before, _, performed⟩ := Option.bind_eq_some_iff.mp called
      obtain ⟨result, _, same⟩ := Option.map_eq_some_iff.mp performed
      cases same
      rw [here, named]
    · cases called

/-- The only event that acknowledges an execution is the retirement call. -/
theorem Step.retire_of_callAt {d' : CoordinatorExecutionState} {reply : RpcResult Unit} (step : s.Step listener event s')
    (call : callAt listener e ⟨s, event, s'⟩ = some ⟨d, ⟨party, .retireExecution, reply⟩, d'⟩) :
    event = .retire party e := by
  have here := sectionOf_of_callAt call
  cases event with
  | retire other executionId =>
    simp only [sectionOf] at here
    split at here
    · cases here
      rfl
    · cases here
  | native executionId caller action =>
    cases here
    have moved := step.run_eq
    simp [CoordinatorBrowserState.run, native, foreign] at moved
  | reserve call identity delivered =>
    simp only [sectionOf] at here
    split at here <;> cases here
  | submit call identity =>
    simp only [sectionOf] at here
    split at here <;> cases here
  | _ => cases here

theorem acknowledged_of_run (run : Run (Step listener) start trace final) (here : final.live e = some d) :
    d.retirementAcks ⊆ listener.topology.parties ∧ ∀ party ∈ d.retirementAcks, AcknowledgedIn trace e party := by
  induction run generalizing d with
  | start => cases here
  | @next earlier current event after previous step ih =>
    have seen := step.seen e
    rw [here] at seen
    generalize atSource : current.live e = source at seen
    cases seen with
    | untouched =>
      obtain ⟨members, acknowledged⟩ := ih atSource
      exact ⟨members, fun party given => (acknowledged party given).append (by simp [atSource])⟩
    | @called before call _ called moved =>
      obtain ⟨members, acknowledged⟩ := ih atSource
      have kept : ∀ party ∈ before.retirementAcks, AcknowledgedIn (earlier ++ [⟨current, event, after⟩]) e party :=
        fun party given => (acknowledged party given).append (by simp [atSource])
      cases moved.outputs with
      | same unmoved =>
        rw [unmoved.retirementAcks]
        exact ⟨members, kept⟩
      | share | waiter | closed | failed => exact ⟨members, kept⟩
      | @acknowledged party member =>
        refine ⟨Finset.insert_subset member members, ?_⟩
        intro other given
        rcases Finset.mem_insert.mp given with rfl | old
        · exact .now (step.retire_of_callAt called) (by simp [atSource])
        · exact kept other old
    | created _ _ admitted =>
      rw [(CoordinatorExecutionState.new_cases admitted).1]
      exact ⟨Finset.empty_subset _, by simp [CoordinatorExecutionState.fresh]⟩

/-- Execution state is dropped only by quorum: in every run, no more executions
are live than there are slots, and one that leaves its slot does so in a
registration call of a roster party at full capacity. It is then not the watched
one, and at least `n - t` roster parties have acknowledged it since it became live. -/
theorem dropped_only_by_quorum (run : Run (Step listener) start trace final) :
    (∀ s ∈ Run.reached start trace, s.coordinator.executions.keys.card ≤ defaultMaxConcurrentExecutions) ∧
      ∀ before τ after e d, trace = before ++ τ :: after → τ.source.live e = some d → τ.target.live e = none →
        (∃ party registration order, τ.event = .register party registration order ∧
          listener.topology.isParty party = true) ∧
        τ.source.coordinator.executions.keys.card = defaultMaxConcurrentExecutions ∧ lastWatched before ≠ some e ∧
        d.retirementAcks ⊆ listener.topology.parties ∧
        listener.topology.n.toNat - listener.topology.t.toNat ≤ d.retirementAcks.card ∧
        ∀ party ∈ d.retirementAcks, AcknowledgedIn before e party := by
  have bounded : ∀ {trace s}, Run (Step listener) start trace s → Bounded s := fun run =>
    run.invariant (Nat.zero_le _) fun _ _ _ before step => before.step step
  refine ⟨fun s member => ?_, ?_⟩
  · obtain ⟨_, first⟩ := run.reached_cases member
    exact bounded first
  intro before τ after e d split here gone
  obtain ⟨first, step, _⟩ := run.split_at split
  have seen := step.seen e
  rw [here, gone] at seen
  cases seen with
  | @dropped party registration order _ registers evicted =>
    unfold evictedBy at evicted
    split at evicted
    · rename_i member
      obtain ⟨_, full, candidate, _⟩ := CoordinatorRPCServerSharedBase.evicted_some evicted
      obtain ⟨d', live, unwatched, quorum⟩ := CoordinatorRPCServerSharedBase.evictable_live candidate
      obtain rfl := Option.some.inj (here.symm.trans live)
      obtain ⟨members, acknowledged⟩ := acknowledged_of_run first here
      rw [oneOffExecution_eq_lastWatched first] at unwatched
      rw [Topology.retirementQuorum, Topology.livenessBound_toNat] at quorum
      exact ⟨⟨party, registration, order, registers, member⟩, (bounded first).antisymm full, unwatched, members, quorum,
        acknowledged⟩
    · cases evicted

/-- A full coordinator drops an execution that its only node has acknowledged. -/
theorem dropped_only_by_quorum_of_one :
    ∃ before τ, Run (Step .recorded) start (before ++ [τ]) τ.target ∧ (τ.source.live (.numbered 0)).isSome = true ∧
      τ.target.live (.numbered 0) = none ∧ AcknowledgedIn before (.numbered 0) [1] := by
  obtain ⟨trace, drained, finishing, crowded⟩ := exists_run_finished
  obtain ⟨order, after, dropping, _, gone, _⟩ := exists_step_dropping (s := { start with coordinator := drained }) rfl
    (isParty_of_mem_lone [1] (by simp)) crowded (by decide)
  have run := (finishing.next dropping).mono fun _ _ _ step => step.1
  obtain ⟨_, _, _, _, _, acknowledged⟩ := (dropped_only_by_quorum run).2 _ _ [] _ _ rfl crowded.first gone
  exact ⟨_, _, run, by simp only [live, crowded.first, Option.isSome_some], gone,
    acknowledged [1] (Finset.mem_insert_self _ _)⟩

end Quorum

end CoordinatorBrowserState

end MpcCoordinator
