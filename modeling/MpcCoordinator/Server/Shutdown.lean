import MpcCoordinator.Server.Retirement

namespace MpcCoordinator

theorem isOk_iff {result : RpcResult Unit} : result.isOk = true ↔ result = .ok () := by
  cases result with
  | error => exact iff_of_false (fun success => by cases success) fun success => by cases success
  | ok => exact iff_of_true rfl rfl

theorem CoordinatorRPCServerSharedBase.makeRoom_shutdownNotify {topology : Topology}
    {shared room : CoordinatorRPCServerSharedBase} {order : List ExecutionId}
    (made : shared.makeRoom topology order = some room) : room.shutdownNotify = shared.shutdownNotify := by
  rcases makeRoom_cases made with ⟨_, rfl⟩ | ⟨gone, d, live, _, _, rfl⟩
  · rfl
  · simp only [evict, live]

namespace CoordinatorRPCServerConnectionBase

variable {connection : CoordinatorRPCServerConnectionBase} {shared shared' : CoordinatorRPCServerSharedBase}
  {executionId : ExecutionId}

theorem atExecution_shutdownNotify {action : Action} {reply : RpcResult Unit}
    (performed : connection.atExecution shared executionId action = some (reply, shared')) :
    shared'.shutdownNotify = shared.shutdownNotify := by
  rcases atExecution_cases performed with ⟨_, _, rfl⟩ | ⟨d, d', _, _, rfl⟩
  · rfl
  · rfl

theorem retire_shutdownNotify : (connection.retire shared executionId).2.shutdownNotify = shared.shutdownNotify := by
  unfold retire
  split
  · rfl
  rename_i party
  rw [answer_snd, CoordinatorRPCServerSharedBase.retireExecution, if_neg party]
  repeat' split
  all_goals rfl

theorem registerExecution_rest {registration : ExecutionRegistration} {order : List ExecutionId} :
    (connection.registerExecution shared registration order).2.oneOffExecution = shared.oneOffExecution ∧
      (connection.registerExecution shared registration order).2.shutdownNotify = shared.shutdownNotify := by
  have admission := connection.registerExecution_admission shared registration order
  generalize (connection.registerExecution shared registration order).2 = after at admission ⊢
  have kept : ∀ room, shared.makeRoom connection.topology order = some room →
      room.oneOffExecution = shared.oneOffExecution ∧ room.shutdownNotify = shared.shutdownNotify :=
    fun _ made => ⟨CoordinatorBrowserState.makeRoom_oneOffExecution made,
      CoordinatorRPCServerSharedBase.makeRoom_shutdownNotify made⟩
  cases admission with
  | unchanged => exact ⟨rfl, rfl⟩
  | refused _ made _ => exact kept _ made
  | admitted _ _ made _ =>
    obtain ⟨watched, notifier⟩ := kept _ made
    exact ⟨watched, notifier⟩

/-- A shutdown request succeeds for the head of the roster, while the watched
execution is finished and nobody has taken the notifier. -/
theorem requestShutdown_ok_iff : (connection.requestShutdown shared).1 = .ok () ↔
    connection.id = connection.topology.rosterHead ∧ shared.shutdownNotify = true ∧
      ∃ e, shared.oneOffExecution = some e ∧ shared.round e = some .programFinished := by
  unfold requestShutdown
  split
  · rename_i other
    simp [CoordinatorRPCBaseError.reply, other]
  rename_i head
  split
  · rename_i standing
    simp [CoordinatorRPCBaseError.reply, standing]
  rename_i executionId watched
  split
  · rename_i early
    simp [CoordinatorRPCBaseError.reply, watched, early]
  rename_i finished
  split
  · rename_i waiting
    exact iff_of_true rfl ⟨by simpa using head, waiting, executionId, watched, by simpa using finished⟩
  · rename_i taken
    simp [CoordinatorRPCBaseError.reply, taken]

/-- A request that succeeds takes the notifier, and one that fails leaves everything as it is. -/
theorem requestShutdown_cases (connection : CoordinatorRPCServerConnectionBase) (shared : CoordinatorRPCServerSharedBase) :
    ((connection.requestShutdown shared).1 = .ok () ∧
        (connection.requestShutdown shared).2 = { shared with shutdownNotify := false }) ∨
      ((connection.requestShutdown shared).1 ≠ .ok () ∧ (connection.requestShutdown shared).2 = shared) := by
  unfold requestShutdown
  repeat' split
  all_goals first
    | exact Or.inl ⟨rfl, rfl⟩
    | exact Or.inr ⟨by simp [CoordinatorRPCBaseError.reply], rfl⟩

end CoordinatorRPCServerConnectionBase

namespace CoordinatorBrowserState

variable (listener : CoordinatorListener) {s s' final : CoordinatorBrowserState} {event : ServerEvent}
  {e : ExecutionId} {pending : Bool} {trace : List (Transition CoordinatorBrowserState ServerEvent)}

/-- The step is a shutdown request that succeeds. -/
def shutsDown (τ : Transition CoordinatorBrowserState ServerEvent) : Bool :=
  match τ.event with
  | .requestShutdown party =>
    ((CoordinatorRPCServerConnectionBase.mk listener.topology party).requestShutdown τ.source.coordinator).1.isOk
  | _ => false

/-- A coordinator that watches for the end of one execution. -/
structure Watching (e : ExecutionId) (pending : Bool) (s : CoordinatorBrowserState) : Prop where
  watched : s.coordinator.oneOffExecution = some e
  present : s.live e ≠ none
  notifier : s.coordinator.shutdownNotify = pending

variable {listener}

/-- The watched execution is never the one that loses its slot. -/
theorem Step.watched_present (step : s.Step listener event s') (watched : s.coordinator.oneOffExecution = some e)
    (present : s.live e ≠ none) : s'.live e ≠ none := by
  have seen := step.seen e
  generalize s.live e = before, s'.live e = after at seen present ⊢
  cases seen with
  | untouched => exact present
  | called => simp
  | created => simp
  | @dropped party registration order _ _ gone =>
    dsimp only [evictedBy] at gone
    split at gone
    · unfold CoordinatorRPCServerSharedBase.evicted at gone
      split at gone
      · cases gone
      · obtain ⟨_, _, unwatched, _⟩ := CoordinatorRPCServerSharedBase.evictable_live (List.find?_some gone)
        exact absurd watched unwatched
    · cases gone

/-- All but a shutdown request and a new watch leave the notifier and the watched execution. -/
theorem Step.watch_kept (step : s.Step listener event s') (once : ∀ other, event ≠ .watch other)
    (request : ∀ party, event ≠ .requestShutdown party) :
    s'.coordinator.oneOffExecution = s.coordinator.oneOffExecution ∧
      s'.coordinator.shutdownNotify = s.coordinator.shutdownNotify := by
  have moved := step.moves
  generalize s'.coordinator = after at moved ⊢
  cases moved with
  | nothing => exact ⟨rfl, rfl⟩
  | watched => exact absurd rfl (once _)
  | shutdown => exact absurd rfl (request _)
  | retirement =>
    exact ⟨CoordinatorRPCServerConnectionBase.retire_rest.2, CoordinatorRPCServerConnectionBase.retire_shutdownNotify⟩
  | criticalSection _ _ performed =>
    exact ⟨(CoordinatorRPCServerConnectionBase.atExecution_rest performed).2.1,
      CoordinatorRPCServerConnectionBase.atExecution_shutdownNotify performed⟩
  | registration => exact CoordinatorRPCServerConnectionBase.registerExecution_rest

theorem Watching.step (watching : Watching e pending s) (step : s.Step listener event s')
    (once : ∀ other, event ≠ .watch other) :
    (shutsDown listener ⟨s, event, s'⟩ = false ∧ Watching e pending s') ∨
      (shutsDown listener ⟨s, event, s'⟩ = true ∧ pending = true ∧ Watching e false s') := by
  have present := step.watched_present watching.watched watching.present
  by_cases request : ∃ party, event = .requestShutdown party
  · obtain ⟨party, rfl⟩ := request
    have moved : s'.coordinator =
        ((CoordinatorRPCServerConnectionBase.mk listener.topology party).requestShutdown s.coordinator).2 := by
      rw [← Option.some.inj step.run_eq]
    rcases CoordinatorRPCServerConnectionBase.requestShutdown_cases ⟨listener.topology, party⟩ s.coordinator with
      ⟨accepted, after⟩ | ⟨refused, after⟩
    · obtain ⟨_, waiting, _⟩ := CoordinatorRPCServerConnectionBase.requestShutdown_ok_iff.mp accepted
      rw [after] at moved
      refine Or.inr ⟨isOk_iff.mpr accepted, watching.notifier.symm.trans waiting, ?_, present, ?_⟩
      · rw [moved]
        exact watching.watched
      · rw [moved]
    · rw [after] at moved
      exact Or.inl ⟨Bool.eq_false_iff.mpr fun success => refused (isOk_iff.mp success),
        moved ▸ watching.watched, present, moved ▸ watching.notifier⟩
  · have apart : ∀ party, event ≠ .requestShutdown party := fun party same => request ⟨party, same⟩
    obtain ⟨watched, notifier⟩ := step.watch_kept once apart
    refine Or.inl ⟨?_, watched.trans watching.watched, present, notifier.trans watching.notifier⟩
    unfold shutsDown
    split
    · rename_i party same
      exact absurd same (apart party)
    · rfl

/-- The notifier is there as long as no request has succeeded. -/
theorem Watching.run (watching : Watching e true s) (run : Run (Step listener) s trace final)
    (once : ∀ τ ∈ trace, ∀ other, τ.event ≠ .watch other) :
    Watching e (decide (trace.countP (shutsDown listener) = 0)) final ∧ trace.countP (shutsDown listener) ≤ 1 := by
  induction run with
  | start => exact ⟨watching, by simp⟩
  | @next earlier current event target previous taken ih =>
    obtain ⟨held, bound⟩ := ih fun τ member => once τ (List.mem_append_left _ member)
    rw [List.countP_append, List.countP_singleton]
    rcases held.step taken (once ⟨current, event, target⟩ (by simp)) with ⟨refused, still⟩ | ⟨success, first, closed⟩
    · rw [if_neg (by simp [refused]), Nat.add_zero]
      exact ⟨still, bound⟩
    · have zero : earlier.countP (shutsDown listener) = 0 := of_decide_eq_true first
      rw [if_pos success, zero]
      exact ⟨closed, Nat.le_refl 1⟩

/-- A request that succeeds is one of the head of the roster, when the program is finished. -/
theorem Watching.shutsDown_finished (watching : Watching e pending s)
    (success : shutsDown listener ⟨s, event, s'⟩ = true) :
    event = .requestShutdown listener.topology.rosterHead ∧ s.coordinator.round e = some .programFinished := by
  unfold shutsDown at success
  split at success
  · rename_i party same
    obtain ⟨head, _, other, watched, finished⟩ :=
      CoordinatorRPCServerConnectionBase.requestShutdown_ok_iff.mp (isOk_iff.mp success)
    cases watching.watched.symm.trans watched
    exact ⟨same.trans (congrArg ServerEvent.requestShutdown head), finished⟩
  · cases success

/-- A coordinator that registers an execution and then watches for its end, once:
the execution stays, and one shutdown request succeeds at most, which is one that
the head of the roster makes when the program is finished. The first such request
does succeed. -/
theorem shutdown_once_when_finished {party : ClientIdentity} {registration : ExecutionRegistration}
    {order : List ExecutionId} {first second : Transition CoordinatorBrowserState ServerEvent}
    {rest : List (Transition CoordinatorBrowserState ServerEvent)}
    (run : Run (Step listener) start (first :: second :: rest) final)
    (registers : first.event = .register party registration order ∧ second.source.live registration.executionId ≠ none)
    (watches : second.event = .watch registration.executionId) (once : ∀ τ ∈ rest, ∀ e, τ.event ≠ .watch e) :
    rest.countP (shutsDown listener) ≤ 1 ∧
      (∀ τ ∈ rest, shutsDown listener τ = true → τ.event = .requestShutdown listener.topology.rosterHead ∧
        τ.source.coordinator.round registration.executionId = some .programFinished) ∧
      (∀ s ∈ Run.reached second.target rest, s.live registration.executionId ≠ none) ∧
      (final.coordinator.round registration.executionId = some .programFinished →
        rest.countP (shutsDown listener) = 0 →
        ((CoordinatorRPCServerConnectionBase.mk listener.topology listener.topology.rosterHead).requestShutdown
          final.coordinator).1 = .ok ()) := by
  obtain ⟨_, taken, later⟩ := run.split_at (show _ = [first] ++ second :: rest from rfl)
  rw [watches] at taken
  have moved := Option.some.inj taken.run_eq
  have watching : Watching registration.executionId true second.target := by
    rw [← moved]
    exact ⟨rfl, registers.2, rfl⟩
  obtain ⟨held, bound⟩ := watching.run later once
  refine ⟨bound, fun τ member success => ?_, fun s member => ?_, fun finished unused => ?_⟩
  · obtain ⟨before, after, split, first, _, _⟩ := later.split member
    have earlier := (watching.run first fun ρ inside => once ρ (by simp [split, inside])).1
    exact earlier.shutsDown_finished success
  · rcases List.mem_cons.mp member with rfl | inside
    · exact watching.present
    · obtain ⟨τ, within, rfl⟩ := List.mem_map.mp inside
      obtain ⟨before, after, split, first, taken, _⟩ := later.split within
      have earlier := (watching.run first fun ρ inside => once ρ (by simp [split, inside])).1
      exact taken.watched_present earlier.watched earlier.present
  · rw [decide_eq_true unused] at held
    exact CoordinatorRPCServerConnectionBase.requestShutdown_ok_iff.mpr
      ⟨rfl, held.notifier, registration.executionId, held.watched, finished⟩

open Scenario in
/-- A run of an execution without inputs and outputs, which is shut down at its end. -/
theorem shutdown_once_of_finished_execution :
    ∃ trace final, Run (Step .recorded) start trace final ∧
      ((CoordinatorRPCServerConnectionBase.mk (.lone [1]) [1]).requestShutdown final.coordinator).1 = .ok () := by
  obtain ⟨trace, final, run, events, seen, checked⟩ := exists_run_of_events .recorded
    [.register [1] (.unassigned 0 []) [], .watch execution, transition .preprocessing, transition .mpcExecution,
      transition .programFinished]
    (fun s event => match event with
      | .watch e => (s.live e).isSome
      | .requestShutdown _ => false
      | _ => true)
    (fun s => s.coordinator.round execution) (some .programFinished) (by decide +kernel)
  rcases trace with _ | ⟨first, _ | ⟨second, rest⟩⟩
  · simp at events
  · simp at events
  obtain ⟨registers, events⟩ := List.cons.inj events
  obtain ⟨watches, events⟩ := List.cons.inj events
  have present := checked second (by simp)
  rw [watches] at present
  have others : ∀ τ ∈ rest, ∃ round, τ.event = transition round := by
    intro τ member
    have inside := List.mem_map_of_mem (f := Transition.event) member
    rw [events] at inside
    simp only [List.mem_cons, List.not_mem_nil, or_false] at inside
    rcases inside with same | same | same
    · exact ⟨_, same⟩
    · exact ⟨_, same⟩
    · exact ⟨_, same⟩
  have once : ∀ τ ∈ rest, ∀ e, τ.event ≠ .watch e := by
    intro τ member e same
    obtain ⟨round, other⟩ := others τ member
    rw [other] at same
    cases same
  have unused : rest.countP (shutsDown .recorded) = 0 := by
    rw [List.countP_eq_zero]
    intro τ member success
    obtain ⟨round, other⟩ := others τ member
    simp only [shutsDown, other, transition] at success
    cases success
  have outcome := shutdown_once_when_finished run ⟨registers, Option.isSome_iff_ne_none.mp present⟩ watches once
  exact ⟨_, final, run, outcome.2.2.2 seen unused⟩

end CoordinatorBrowserState

end MpcCoordinator
