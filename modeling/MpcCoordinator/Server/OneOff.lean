import MpcCoordinator.Server.Shutdown
import MpcCoordinator.Server.Progress

namespace MpcCoordinator

theorem Topology.isParty_rosterHead (topology : Topology) : topology.isParty topology.rosterHead = true := by
  obtain ⟨head, rest, roster⟩ := List.exists_cons_of_ne_nil topology.checks.1
  simp [isParty, rosterHead, roster]

/-- How long a one-off coordinator sleeps between two looks at the
acknowledgements, in milliseconds. -/
def oneOffRetirementPollInterval : Nat := 10

/-- The execution that a one-off coordinator serves, and how many milliseconds it
waits for acknowledgements of its end. -/
structure OneOffShutdownConfig where
  executionId : ExecutionId
  grace : Nat

/-- What a connection over the native listener runs. A one-off coordinator has no
other listener. -/
def ServerEvent.isNative : ServerEvent → Bool
  | .register .. | .retire .. | .requestShutdown .. | .native .. => true
  | _ => false

/-- Where `start_coord_one_off` is once its listener runs. -/
inductive OneOffPhase where
  | awaitingRequest
  | checking
  | sleeping
  | reporting
  | stopping
  | returned
  deriving DecidableEq, Repr

/-- A one-off coordinator and the function that runs it. The times count since the
shutdown request and since it last fell asleep, and `reported` is what it prints
when the grace expires. -/
structure OneOffServerState where
  server : CoordinatorBrowserState
  phase : OneOffPhase
  waited : Nat
  slept : Nat
  reported : Option (Nat × Nat)

inductive OneOffEvent where
  | call (event : ServerEvent)
  | elapse (millis : Nat)
  | requested
  | check
  | awake
  | expire
  | report
  | shutdown

namespace OneOffServerState

/-- The state that `run_coord_one_off` hands over to the listener. -/
def start (topology : Topology) (registration : ExecutionRegistration) : Except CoordinatorError OneOffServerState :=
  match CoordinatorRPCServerSharedBase.new.registerExecution topology registration [] with
  | (.error refusal, _) => .error refusal
  | (.ok (), shared) =>
    let shared := shared.watchForShutdownRequest registration.executionId
    .ok ⟨{ CoordinatorBrowserState.start with coordinator := shared }, .awaitingRequest, 0, 0, none⟩

variable (listener : CoordinatorListener) (config : OneOffShutdownConfig) (s : OneOffServerState)

def retirementProgress : Nat × Nat × Bool :=
  s.server.coordinator.retirementProgress listener.topology config.executionId

/-- The calls are served until the function returns. The request resolves when
the notifier has been taken. An expiry is noticed at any time after the grace. -/
def next : OneOffEvent → Option OneOffServerState
  | .call event =>
    if s.phase ≠ .returned ∧ event.isNative = true then
      (s.server.next listener event).map fun server => { s with server := server }
    else none
  | .elapse millis => some { s with waited := s.waited + millis, slept := s.slept + millis }
  | .requested =>
    if s.phase = .awaitingRequest ∧ s.server.coordinator.shutdownNotify = false then
      some { s with phase := .checking, waited := 0 }
    else none
  | .check =>
    if s.phase = .checking then
      if (s.retirementProgress listener config).2.2 then some { s with phase := .stopping }
      else some { s with phase := .sleeping, slept := 0 }
    else none
  | .awake =>
    if s.phase = .sleeping ∧ oneOffRetirementPollInterval ≤ s.slept then some { s with phase := .checking } else none
  | .expire =>
    if (s.phase = .checking ∨ s.phase = .sleeping) ∧ config.grace ≤ s.waited then some { s with phase := .reporting }
    else none
  | .report =>
    if s.phase = .reporting then
      let (acknowledged, parties, _) := s.retirementProgress listener config
      some { s with phase := .stopping, reported := some (acknowledged, parties) }
    else none
  | .shutdown => if s.phase = .stopping then some { s with phase := .returned } else none

def Step (event : OneOffEvent) (s' : OneOffServerState) : Prop := s.next listener config event = some s'

/-- The calls of a run, as steps of the coordinator. -/
def calls (trace : List (Transition OneOffServerState OneOffEvent)) :
    List (Transition CoordinatorBrowserState ServerEvent) :=
  trace.filterMap fun τ =>
    match τ.event with
    | .call event => some ⟨τ.source.server, event, τ.target.server⟩
    | _ => none

variable {listener config s} {s' initial final : OneOffServerState} {event : OneOffEvent}
  {trace : List (Transition OneOffServerState OneOffEvent)} {registration : ExecutionRegistration}

/-- A call is a step of the coordinator, and everything else leaves it alone. -/
theorem Step.server (step : s.Step listener config event s') :
    (∃ called, event = .call called ∧ called.isNative = true ∧ s.server.Step listener called s'.server ∧
      s' = { s with server := s'.server }) ∨
    calls [⟨s, event, s'⟩] = [] ∧ s'.server = s.server := by
  unfold Step next at step
  cases event with
  | call called =>
    simp only at step
    split at step
    · rename_i enabled
      obtain ⟨server, moved, rfl⟩ := Option.map_eq_some_iff.mp step
      exact Or.inl ⟨called, rfl, enabled.2, moved, rfl⟩
    · cases step
  | elapse =>
    cases step
    exact Or.inr ⟨rfl, rfl⟩
  | requested | awake | expire | shutdown =>
    simp only [Option.ite_none_right_eq_some] at step
    cases step.2
    exact Or.inr ⟨rfl, rfl⟩
  | check =>
    refine Or.inr ⟨rfl, ?_⟩
    simp only at step
    split at step
    · split at step
      · cases step
        rfl
      · cases step
        rfl
    · cases step
  | report =>
    refine Or.inr ⟨rfl, ?_⟩
    simp only [Option.ite_none_right_eq_some] at step
    cases step.2
    rfl

theorem calls_append (before after : List (Transition OneOffServerState OneOffEvent)) :
    calls (before ++ after) = calls before ++ calls after := List.filterMap_append

theorem server_run (run : Run (Step listener config) initial trace final) :
    Run (CoordinatorBrowserState.Step listener) initial.server (calls trace) final.server := by
  induction run with
  | start => exact .start
  | next _ step ih =>
    rw [calls_append]
    rcases step.server with ⟨called, rfl, _, moved, _⟩ | ⟨silent, same⟩
    · exact .next ih moved
    · rwa [silent, List.append_nil, same]

theorem start_eq (topology : Topology) (registration : ExecutionRegistration) :
    start topology registration =
      match CoordinatorExecutionState.new registration topology.n with
      | .error refusal => .error refusal
      | .ok d => .ok ⟨{ CoordinatorBrowserState.start with
          coordinator := (CoordinatorRPCServerSharedBase.new.put registration.executionId d).watchForShutdownRequest
            registration.executionId }, .awaitingRequest, 0, 0, none⟩ := by
  have enrolled : CoordinatorRPCServerSharedBase.new.registerExecution topology registration [] =
      CoordinatorRPCServerSharedBase.new.enroll topology registration := rfl
  rw [start, enrolled, CoordinatorRPCServerSharedBase.enroll]
  cases CoordinatorExecutionState.new registration topology.n with
  | error refusal => rfl
  | ok d => rfl

theorem start_ok {topology : Topology} (started : start topology registration = .ok initial) :
    ∃ d, CoordinatorExecutionState.new registration topology.n = .ok d ∧
      initial.server = { CoordinatorBrowserState.start with
        coordinator := (CoordinatorRPCServerSharedBase.new.put registration.executionId d).watchForShutdownRequest
          registration.executionId } ∧
      initial.phase = .awaitingRequest ∧ initial.reported = none := by
  rw [start_eq] at started
  cases admitted : CoordinatorExecutionState.new registration topology.n with
  | error refusal =>
    rw [admitted] at started
    cases started
  | ok d =>
    rw [admitted] at started
    cases started
    exact ⟨d, rfl, rfl, rfl, rfl⟩

/-- The coordinator starts as after a registration by a party and a watch. -/
theorem exists_prelude (started : start listener.topology registration = .ok initial) :
    ∃ first second : Transition CoordinatorBrowserState ServerEvent,
      Run (CoordinatorBrowserState.Step listener) .start [first, second] initial.server ∧
      first.event = .register listener.topology.rosterHead registration [] ∧
      second.event = .watch registration.executionId ∧ second.source = first.target ∧
      (first.target.live registration.executionId).isSome = true ∧
      CoordinatorBrowserState.Watching registration.executionId true initial.server := by
  obtain ⟨d, admitted, server, _⟩ := start_ok started
  let registered : CoordinatorBrowserState :=
    { CoordinatorBrowserState.start with coordinator := CoordinatorRPCServerSharedBase.new.put registration.executionId d }
  have here : registered.live registration.executionId = some d := CoordinatorRPCServerSharedBase.lookup_put_self d
  have enrolled : CoordinatorRPCServerSharedBase.new.enroll listener.topology registration =
      (.ok (), CoordinatorRPCServerSharedBase.new.put registration.executionId d) := by
    rw [CoordinatorRPCServerSharedBase.enroll, admitted]
  have registers : CoordinatorBrowserState.start.Step listener
      (.register listener.topology.rosterHead registration []) registered := by
    have enabled : CoordinatorBrowserState.start.enabled
        (.register listener.topology.rosterHead registration []) = true := rfl
    have moved : ((CoordinatorRPCServerConnectionBase.mk listener.topology listener.topology.rosterHead).registerExecution
        CoordinatorRPCServerSharedBase.new registration []).2 =
          CoordinatorRPCServerSharedBase.new.put registration.executionId d := by
      rw [CoordinatorRPCServerConnectionBase.registerExecution, if_neg (by simp [listener.topology.isParty_rosterHead]),
        CoordinatorRPCServerConnectionBase.answer_snd]
      exact congrArg Prod.snd enrolled
    have result : CoordinatorBrowserState.start.register listener listener.topology.rosterHead registration [] =
        registered := by
      unfold CoordinatorBrowserState.register
      dsimp only
      rw [show CoordinatorBrowserState.start.coordinator = .new from rfl, moved]
      split
      · rfl
      · rfl
    rw [CoordinatorBrowserState.Step, CoordinatorBrowserState.next, if_pos enabled, CoordinatorBrowserState.run, result]
  have watches : registered.Step listener (.watch registration.executionId) initial.server := by
    rw [server]
    rfl
  refine ⟨⟨_, _, registered⟩, ⟨registered, _, initial.server⟩, .next (.next .start registers) watches, rfl, rfl,
    rfl, by rw [here]; rfl, ?_⟩
  rw [server]
  exact ⟨rfl, Option.isSome_iff_ne_none.mp (Option.isSome_of_mem here), rfl⟩

section Acknowledgements

open CoordinatorBrowserState (Watching Registered RegisteredOnce HasAcknowledged acknowledgers shutsDown)

/-- A party has called to retire an execution. -/
def RetiredBy (e : ExecutionId) (calls : List (Transition CoordinatorBrowserState ServerEvent)) (party : ClientIdentity) :
    Prop := ∃ τ ∈ calls, τ.event = .retire party e

/-- No call of a run sets a new watch. -/
theorem unwatched (run : Run (Step listener config) initial trace s) :
    ∀ τ ∈ calls trace, ∀ other, τ.event ≠ .watch other := by
  intro τ member other same
  obtain ⟨ρ, inside, shown⟩ := List.mem_filterMap.mp member
  rcases (run.taken_of_mem inside).server with ⟨called, calling, native, _⟩ | ⟨silent, _⟩
  · rw [calling] at shown
    cases shown
    cases same
    cases native
  · have here : τ ∈ calls [⟨ρ.source, ρ.event, ρ.target⟩] :=
      List.mem_filterMap.mpr ⟨ρ, List.mem_singleton_self ρ, shown⟩
    rw [silent] at here
    cases here

/-- The watch holds, and the notifier is there as long as no request has succeeded. -/
theorem watching_of_run (started : start listener.topology registration = .ok initial)
    (run : Run (Step listener config) initial trace s) :
    Watching registration.executionId (decide ((calls trace).countP (shutsDown listener) = 0)) s.server ∧
      (calls trace).countP (shutsDown listener) ≤ 1 := by
  obtain ⟨_, _, _, _, _, _, _, watching⟩ := exists_prelude started
  exact watching.run (server_run run) (unwatched run)

/-- The execution is registered once: it never loses its slot. -/
theorem registeredOnce_of_run {first second : Transition CoordinatorBrowserState ServerEvent}
    (here : (second.source.live registration.executionId).isSome = true)
    (watching : Watching registration.executionId true initial.server)
    (run : Run (Step listener config) initial trace s) :
    RegisteredOnce registration.executionId (first :: second :: calls trace) := by
  intro before τ after split registered absent
  rcases before with _ | ⟨_, _ | ⟨_, rest⟩⟩
  · obtain ⟨_, member, _⟩ := registered
    cases member
  · obtain ⟨_, split⟩ := List.cons.inj split
    obtain ⟨rfl, _⟩ := List.cons.inj split
    rw [absent] at here
    cases here
  · obtain ⟨_, split⟩ := List.cons.inj split
    obtain ⟨_, split⟩ := List.cons.inj split
    have earlier := ((server_run run).split_at split).1
    have unset : ∀ ρ ∈ rest, ∀ other, ρ.event ≠ .watch other :=
      fun ρ member => unwatched run ρ (by rw [split]; exact List.mem_append_left _ member)
    exact absurd absent (watching.run earlier unset).1.present

/-- Since the execution is there from the start, every retire call counts. -/
theorem hasAcknowledged_iff {first second : Transition CoordinatorBrowserState ServerEvent} {e : ExecutionId}
    {rest : List (Transition CoordinatorBrowserState ServerEvent)} {party : ClientIdentity}
    (here : (first.target.live e).isSome = true) (firstCall : ∀ party, first.event ≠ .retire party e)
    (secondCall : ∀ party, second.event ≠ .retire party e) :
    HasAcknowledged e (first :: second :: rest) party ↔ RetiredBy e rest party := by
  constructor
  · rintro ⟨before, τ, after, split, _, retires⟩
    have member : τ ∈ first :: second :: rest := by
      rw [split]
      exact List.mem_append_right _ List.mem_cons_self
    rcases List.mem_cons.mp member with rfl | member
    · exact absurd retires (firstCall party)
    rcases List.mem_cons.mp member with rfl | member
    · exact absurd retires (secondCall party)
    exact ⟨τ, member, retires⟩
  · rintro ⟨τ, member, retires⟩
    obtain ⟨before, after, split⟩ := List.append_of_mem member
    exact ⟨first :: second :: before, τ, after, by rw [split]; rfl, ⟨first, List.mem_cons_self, here⟩, retires⟩

/-- The progress that a one-off coordinator reads is that of the calls so far. -/
theorem progress_of_run (started : start listener.topology registration = .ok initial)
    (same : config.executionId = registration.executionId) (run : Run (Step listener config) initial trace s) :
    ∃ acks : Finset ClientIdentity,
      (∀ party, party ∈ acks ↔ party ∈ listener.topology.parties ∧ RetiredBy config.executionId (calls trace) party) ∧
      s.retirementProgress listener config = (acks.card, listener.topology.mpcNodes.val.length,
        decide (∀ party ∈ listener.topology.parties, party ∈ acks)) := by
  obtain ⟨first, second, prelude, registers, watches, next, here, watching⟩ := exists_prelude started
  have full := prelude.append (server_run run)
  have once : RegisteredOnce registration.executionId ([first, second] ++ calls trace) :=
    registeredOnce_of_run (next ▸ here) watching run
  have counts : ∀ party, HasAcknowledged registration.executionId ([first, second] ++ calls trace) party ↔
      RetiredBy registration.executionId (calls trace) party :=
    fun party => hasAcknowledged_iff here (by simp [registers]) (by simp [watches])
  have standing := CoordinatorBrowserState.standing_of_run full once
  obtain ⟨file, filed, holds⟩ := standing.registered ⟨first, by simp, here⟩
  have present := (watching_of_run started run).1.present
  cases filed with
  | tombstone absent _ | gone absent _ => exact absurd absent present
  | @live d acks live exact untombed =>
    obtain rfl : acks = acknowledgers listener.topology registration.executionId ([first, second] ++ calls trace) := holds
    refine ⟨acknowledgers listener.topology registration.executionId ([first, second] ++ calls trace), fun party => ?_, ?_⟩
    · rw [CoordinatorBrowserState.mem_acknowledgers, counts, listener.topology.isParty_iff, same]
    · have progress : s.server.coordinator.retirementProgress listener.topology registration.executionId = _ :=
        (CoordinatorRPCServerSharedBase.Filed.live live exact untombed).retirementProgress_eq
      rw [retirementProgress, same, progress]
      simp only [AckFile.progress, Prod.mk.injEq, true_and, decide_eq_decide]
      rw [← CoordinatorBrowserState.all_acknowledged_iff]
      refine forall₂_congr fun party member => ?_
      rw [CoordinatorBrowserState.mem_acknowledgers, listener.topology.isParty_iff]
      exact (and_iff_right member).symm

/-- What the phase of a one-off coordinator says about the calls so far. -/
structure Stands (topology : Topology) (config : OneOffShutdownConfig)
    (calls : List (Transition CoordinatorBrowserState ServerEvent)) (s : OneOffServerState) : Prop where
  requested : s.phase ≠ .awaitingRequest → s.server.coordinator.shutdownNotify = false
  expired : s.phase = .reporting → config.grace ≤ s.waited
  unreported : s.phase ≠ .stopping → s.phase ≠ .returned → s.reported = none
  drained : s.phase = .stopping ∨ s.phase = .returned → s.reported = none →
    ∀ party ∈ topology.parties, RetiredBy config.executionId calls party
  reported : ∀ acknowledged parties, s.reported = some (acknowledged, parties) → config.grace ≤ s.waited ∧
    parties = topology.mpcNodes.val.length ∧ ∃ (earlier : List (Transition CoordinatorBrowserState ServerEvent))
      (acks : Finset ClientIdentity), earlier <+: calls ∧ acks.card = acknowledged ∧
        ∀ party, party ∈ acks ↔ party ∈ topology.parties ∧ RetiredBy config.executionId earlier party

theorem Stands.start (started : OneOffServerState.start listener.topology registration = .ok initial) :
    Stands listener.topology config [] initial := by
  obtain ⟨_, _, _, awaiting, unreported⟩ := start_ok started
  refine ⟨fun left => absurd awaiting left, fun reporting => ?_, fun _ _ => unreported, fun ended => ?_,
    fun _ _ reported => ?_⟩
  · rw [awaiting] at reporting
    cases reporting
  · rw [awaiting] at ended
    rcases ended with ended | ended
    · cases ended
    · cases ended
  · rw [unreported] at reported
    cases reported

theorem RetiredBy.append {e : ExecutionId} {before after : List (Transition CoordinatorBrowserState ServerEvent)}
    {party : ClientIdentity} (retired : RetiredBy e before party) : RetiredBy e (before ++ after) party := by
  obtain ⟨τ, member, retires⟩ := retired
  exact ⟨τ, List.mem_append_left _ member, retires⟩

/-- A call changes neither the phase nor the times, and there is only more to
acknowledge by. -/
theorem Stands.call {past : List (Transition CoordinatorBrowserState ServerEvent)}
    {τ : Transition CoordinatorBrowserState ServerEvent} (stands : Stands listener.topology config past s)
    (notified : s.server.coordinator.shutdownNotify = false → τ.target.coordinator.shutdownNotify = false) :
    Stands listener.topology config (past ++ [τ]) { s with server := τ.target } where
  requested left := notified (stands.requested left)
  expired := stands.expired
  unreported := stands.unreported
  drained ended unreported party member := (stands.drained ended unreported party member).append
  reported acknowledged parties reported := by
    obtain ⟨expired, roster, earlier, acks, within, rest⟩ := stands.reported acknowledged parties reported
    exact ⟨expired, roster, earlier, acks, within.trans (List.prefix_append _ _), rest⟩

/-- While nothing is reported, the phase may move up to the report. -/
theorem Stands.moved {past : List (Transition CoordinatorBrowserState ServerEvent)} {phase : OneOffPhase}
    {waited slept : Nat} (notified : s.server.coordinator.shutdownNotify = false) (unreported : s.reported = none)
    (draining : phase ≠ .stopping ∧ phase ≠ .returned) (expired : phase = .reporting → config.grace ≤ waited) :
    Stands listener.topology config past { s with phase := phase, waited := waited, slept := slept } where
  requested _ := notified
  expired := expired
  unreported _ _ := unreported
  drained ended := absurd ended (not_or.mpr draining)
  reported _ _ reported := by
    rw [show s.reported = some _ from reported] at unreported
    cases unreported

/-- A call that is served leaves a notifier that has been taken as it is. -/
theorem Stands.served {called : ServerEvent} (started : OneOffServerState.start listener.topology registration = .ok initial)
    (run : Run (Step listener config) initial trace s) (stands : Stands listener.topology config (calls trace) s)
    (step : s.Step listener config (.call called) s') :
    Stands listener.topology config (calls trace ++ [⟨s.server, called, s'.server⟩]) s' := by
  rcases step.server with ⟨_, ⟨⟩, native, moved, after⟩ | ⟨silent, _⟩
  · rw [after]
    refine stands.call (τ := ⟨s.server, called, s'.server⟩) fun taken => ?_
    have watching := (watching_of_run started run).1
    rw [watching.notifier] at taken
    rw [taken] at watching
    rcases watching.step moved (fun other => by rintro rfl; cases native) with ⟨_, still⟩ | ⟨_, pending, _⟩
    · exact still.notifier
    · cases pending
  · cases silent

/-- A check ends the wait only if all parties have retired the execution. -/
theorem Stands.checked (started : OneOffServerState.start listener.topology registration = .ok initial)
    (same : config.executionId = registration.executionId) (run : Run (Step listener config) initial trace s)
    (stands : Stands listener.topology config (calls trace) s) (step : s.Step listener config .check s') :
    Stands listener.topology config (calls trace) s' := by
  simp only [Step, next, Option.ite_none_right_eq_some] at step
  obtain ⟨checking, step⟩ := step
  have notified := stands.requested (by simp [checking])
  have unreported := stands.unreported (by simp [checking]) (by simp [checking])
  split at step
  · rename_i complete
    cases step
    obtain ⟨acks, members, progress⟩ := progress_of_run started same run
    rw [progress] at complete
    refine ⟨fun _ => notified, by simp, fun running => absurd rfl running, fun _ _ party member => ?_,
      fun acknowledged parties reported => ?_⟩
    · exact ((members party).mp (of_decide_eq_true complete party member)).2
    · rw [show s.reported = some _ from reported] at unreported
      cases unreported
  · cases step
    exact .moved notified unreported (by simp) (by simp)

/-- What is reported is how many parties have retired the execution by then. -/
theorem Stands.noted (started : OneOffServerState.start listener.topology registration = .ok initial)
    (same : config.executionId = registration.executionId) (run : Run (Step listener config) initial trace s)
    (stands : Stands listener.topology config (calls trace) s) (step : s.Step listener config .report s') :
    Stands listener.topology config (calls trace) s' := by
  simp only [Step, next, Option.ite_none_right_eq_some] at step
  obtain ⟨reporting, step⟩ := step
  cases step
  obtain ⟨acks, members, progress⟩ := progress_of_run started same run
  refine ⟨fun _ => stands.requested (by simp [reporting]), by simp, fun running => absurd rfl running, by simp, ?_⟩
  intro acknowledged parties reported
  cases reported
  refine ⟨stands.expired reporting, ?_, calls trace, acks, List.prefix_rfl, ?_, members⟩
  · rw [progress]
  · rw [progress]

theorem Stands.step (started : OneOffServerState.start listener.topology registration = .ok initial)
    (same : config.executionId = registration.executionId) (run : Run (Step listener config) initial trace s)
    (stands : Stands listener.topology config (calls trace) s) (step : s.Step listener config event s') :
    Stands listener.topology config (calls (trace ++ [⟨s, event, s'⟩])) s' := by
  rw [calls_append]
  cases event with
  | call called => exact stands.served started run step
  | elapse millis =>
    cases step
    rw [show calls [_] = [] from rfl, List.append_nil]
    refine { stands with expired := fun reporting => ?_, reported := fun acknowledged parties reported => ?_ }
    · exact (stands.expired reporting).trans (Nat.le_add_right _ _)
    · obtain ⟨expired, rest⟩ := stands.reported acknowledged parties reported
      exact ⟨expired.trans (Nat.le_add_right _ _), rest⟩
  | requested =>
    simp only [Step, next, Option.ite_none_right_eq_some] at step
    obtain ⟨⟨awaiting, notified⟩, ⟨⟩⟩ := step
    have unreported := stands.unreported (by simp [awaiting]) (by simp [awaiting])
    exact .moved notified unreported (by simp) (by simp)
  | check =>
    rw [show calls [_] = [] from rfl, List.append_nil]
    exact stands.checked started same run step
  | awake =>
    simp only [Step, next, Option.ite_none_right_eq_some] at step
    obtain ⟨⟨sleeping, _⟩, ⟨⟩⟩ := step
    have unreported := stands.unreported (by simp [sleeping]) (by simp [sleeping])
    exact .moved (stands.requested (by simp [sleeping])) unreported (by simp) (by simp)
  | expire =>
    simp only [Step, next, Option.ite_none_right_eq_some] at step
    obtain ⟨⟨draining, expired⟩, ⟨⟩⟩ := step
    have begun : s.phase ≠ .awaitingRequest ∧ s.phase ≠ .stopping ∧ s.phase ≠ .returned := by
      rcases draining with phase | phase
      · simp [phase]
      · simp [phase]
    exact .moved (stands.requested begun.1) (stands.unreported begun.2.1 begun.2.2) (by simp) fun _ => expired
  | report =>
    rw [show calls [_] = [] from rfl, List.append_nil]
    exact stands.noted started same run step
  | shutdown =>
    simp only [Step, next, Option.ite_none_right_eq_some] at step
    obtain ⟨stopping, ⟨⟩⟩ := step
    rw [show calls [_] = [] from rfl, List.append_nil]
    exact ⟨fun _ => stands.requested (by simp [stopping]), by simp, fun _ running => absurd rfl running,
      fun _ => stands.drained (Or.inl stopping), stands.reported⟩

theorem stands_of_run (started : OneOffServerState.start listener.topology registration = .ok initial)
    (same : config.executionId = registration.executionId) (run : Run (Step listener config) initial trace s) :
    Stands listener.topology config (calls trace) s := by
  induction run with
  | start => exact .start started
  | next previous step ih => exact ih.step started same previous step

/-- The function that runs a one-off coordinator, on its own from some state on. -/
def Returns (listener : CoordinatorListener) (config : OneOffShutdownConfig) (s final : OneOffServerState) : Prop :=
  ∃ own, Run (Step listener config) s own final ∧ calls own = [] ∧ final.phase = .returned

theorem Returns.cons {middle : OneOffServerState} (step : s.Step listener config event middle)
    (silent : calls [⟨s, event, middle⟩] = []) (returns : Returns listener config middle final) :
    Returns listener config s final := by
  obtain ⟨own, run, none, returned⟩ := returns
  refine ⟨_, (Run.next .start step).append run, ?_, returned⟩
  rw [calls_append, none, List.append_nil]
  exact silent

theorem returns_of_stopping (stopping : s.phase = .stopping) :
    Returns listener config s { s with phase := .returned } := by
  have stops : s.Step listener config .shutdown { s with phase := .returned } := by simp [Step, next, stopping]
  exact .cons stops rfl ⟨[], .start, rfl, rfl⟩

theorem exists_returns_of_reporting (reporting : s.phase = .reporting) : ∃ final, Returns listener config s final := by
  have reports : s.Step listener config .report { s with
      phase := .stopping
      reported := some ((s.retirementProgress listener config).1, (s.retirementProgress listener config).2.1) } := by
    simp [Step, next, reporting]
  exact ⟨_, .cons reports rfl (returns_of_stopping rfl)⟩

/-- Once it drains, the grace runs out at last. -/
theorem exists_returns_of_draining (draining : s.phase = .checking ∨ s.phase = .sleeping) :
    ∃ final, Returns listener config s final := by
  let late : OneOffServerState := { s with waited := s.waited + config.grace, slept := s.slept + config.grace }
  have waits : s.Step listener config (.elapse config.grace) late := rfl
  have expires : late.Step listener config .expire { late with phase := .reporting } := by
    simp [Step, next, late, draining]
  obtain ⟨final, returns⟩ : ∃ final, Returns listener config { late with phase := .reporting } final :=
    exists_returns_of_reporting rfl
  exact ⟨final, .cons waits rfl (.cons expires rfl returns)⟩

theorem exists_returns (notified : s.server.coordinator.shutdownNotify = false) :
    ∃ final, Returns listener config s final := by
  cases phase : s.phase with
  | returned => exact ⟨s, [], .start, rfl, phase⟩
  | stopping => exact ⟨_, returns_of_stopping phase⟩
  | reporting => exact exists_returns_of_reporting phase
  | checking => exact exists_returns_of_draining (Or.inl phase)
  | sleeping => exact exists_returns_of_draining (Or.inr phase)
  | awaitingRequest =>
    have resolves : s.Step listener config .requested { s with phase := .checking, waited := 0 } := by
      simp [Step, next, phase, notified]
    obtain ⟨final, returns⟩ : ∃ final, Returns listener config { s with phase := .checking, waited := 0 } final :=
      exists_returns_of_draining (Or.inl rfl)
    exact ⟨final, .cons resolves rfl returns⟩

/-- When all parties have acknowledged, the next check ends the wait. -/
theorem returns_of_checking (checking : s.phase = .checking) (complete : (s.retirementProgress listener config).2.2 = true) :
    Returns listener config s { s with phase := .returned } := by
  have checks : s.Step listener config .check { s with phase := .stopping } := by simp [Step, next, checking, complete]
  exact .cons checks rfl (returns_of_stopping rfl)

/-- That check is at most one sleep away. -/
theorem exists_returns_soon (notified : s.server.coordinator.shutdownNotify = false)
    (complete : (s.retirementProgress listener config).2.2 = true) (unreported : s.reported = none)
    (waits : s.phase = .awaitingRequest ∨ s.phase = .checking ∨ s.phase = .sleeping) :
    ∃ final, Returns listener config s final ∧ final.reported = none ∧
      final.waited ≤ s.waited + oneOffRetirementPollInterval := by
  rcases waits with phase | phase | phase
  · have resolves : s.Step listener config .requested { s with phase := .checking, waited := 0 } := by
      simp [Step, next, phase, notified]
    exact ⟨_, .cons resolves rfl (returns_of_checking rfl complete), unreported, Nat.zero_le _⟩
  · exact ⟨_, returns_of_checking phase complete, unreported, Nat.le_add_right _ _⟩
  · let later : OneOffServerState := { s with
      waited := s.waited + oneOffRetirementPollInterval
      slept := s.slept + oneOffRetirementPollInterval }
    have sleeps : s.Step listener config (.elapse oneOffRetirementPollInterval) later := rfl
    have wakes : later.Step listener config .awake { later with phase := .checking } := by
      simp [Step, next, later, phase]
    exact ⟨_, .cons sleeps rfl (.cons wakes rfl (returns_of_checking rfl complete)), unreported, Nat.le_refl _⟩

/-- A one-off coordinator, over any calls to it and any timing: it leaves its wait
only after the head of the roster has asked for the shutdown, with the program
finished. It returns only when every party has retired the execution, or when
the grace has passed, and then prints how many had by then. After the request it
can always return, within one interval if every party has retired the execution
before the grace expired. -/
theorem one_off_returns_when_acknowledged
    (started : OneOffServerState.start listener.topology registration = .ok initial)
    (same : config.executionId = registration.executionId) (run : Run (Step listener config) initial trace s) :
    (s.phase ≠ .awaitingRequest → ∃ τ ∈ calls trace, shutsDown listener τ = true ∧
      τ.event = .requestShutdown listener.topology.rosterHead ∧
      τ.source.coordinator.round config.executionId = some .programFinished) ∧
    (s.phase = .returned → s.reported = none →
      ∀ party ∈ listener.topology.parties, RetiredBy config.executionId (calls trace) party) ∧
    (∀ acknowledged parties, s.reported = some (acknowledged, parties) → config.grace ≤ s.waited ∧
      parties = listener.topology.mpcNodes.val.length ∧
      ∃ (earlier : List (Transition CoordinatorBrowserState ServerEvent)) (acks : Finset ClientIdentity),
        earlier <+: calls trace ∧ acks.card = acknowledged ∧
        ∀ party, party ∈ acks ↔ party ∈ listener.topology.parties ∧ RetiredBy config.executionId earlier party) ∧
    (0 < (calls trace).countP (shutsDown listener) → (∃ final, Returns listener config s final) ∧
      ((∀ party ∈ listener.topology.parties, RetiredBy config.executionId (calls trace) party) →
        s.phase = .awaitingRequest ∨ s.phase = .checking ∨ s.phase = .sleeping →
        ∃ final, Returns listener config s final ∧ final.reported = none ∧
          final.waited ≤ s.waited + oneOffRetirementPollInterval)) := by
  have stands := stands_of_run started same run
  have watching := (watching_of_run started run).1
  refine ⟨fun left => ?_, fun returned => stands.drained (Or.inr returned), stands.reported, fun accepted => ?_⟩
  · have taken := stands.requested left
    rw [watching.notifier, decide_eq_false_iff_not, List.countP_eq_zero] at taken
    push Not at taken
    obtain ⟨τ, member, success⟩ := taken
    obtain ⟨_, _, _, _, _, _, _, first⟩ := exists_prelude started
    obtain ⟨before, after, split, earlier, _⟩ := (server_run run).split member
    have unset : ∀ ρ ∈ before, ∀ other, ρ.event ≠ .watch other :=
      fun ρ inside => unwatched run ρ (by rw [split]; exact List.mem_append_left _ inside)
    rw [same]
    exact ⟨τ, member, success, (first.run earlier unset).1.shutsDown_finished success⟩
  · have notified : s.server.coordinator.shutdownNotify = false := by
      rw [watching.notifier, decide_eq_false_iff_not]
      omega
    refine ⟨exists_returns notified, fun all waits => ?_⟩
    obtain ⟨acks, members, progress⟩ := progress_of_run started same run
    have complete : (s.retirementProgress listener config).2.2 = true := by
      rw [progress]
      exact decide_eq_true fun party member => (members party).mpr ⟨member, all party member⟩
    refine exists_returns_soon notified complete (stands.unreported ?_ ?_) waits
    · rcases waits with phase | phase | phase <;> simp [phase]
    · rcases waits with phase | phase | phase <;> simp [phase]

end Acknowledgements

end OneOffServerState

namespace Scenario

/-- A one-off coordinator of one party, before its listener starts. -/
def oneOff : OneOffServerState :=
  ⟨{ CoordinatorBrowserState.start with
      coordinator := (CoordinatorRPCServerSharedBase.new.put execution
        (.fresh (.unassigned 0 []))).watchForShutdownRequest execution }, .awaitingRequest, 0, 0, none⟩

/-- The party retires the execution only after a first check. -/
def servedOnce : List OneOffEvent :=
  [.call (transition .preprocessing), .call (transition .mpcExecution), .call (transition .programFinished),
    .call (.requestShutdown [1]), .requested, .check, .call (.retire [1] execution), .elapse 10, .awake, .check, .shutdown]

end Scenario

open Scenario in
theorem OneOffServerState.one_off_returns_when_acknowledged_by_one :
    ∃ trace s, Run (Step .recorded ⟨execution, 60000⟩) oneOff trace s ∧ s.phase = .returned ∧ s.reported = none ∧
      ∀ party ∈ (Topology.lone [1]).parties, RetiredBy execution (calls trace) party := by
  have done : (Run.execute (fun s event => s.next .recorded ⟨execution, 60000⟩ event) oneOff servedOnce).map
      (fun s => (s.phase, s.reported)) = some (.returned, none) := by decide +kernel
  have sound : ∀ (s : OneOffServerState) event s', s.next .recorded ⟨execution, 60000⟩ event = some s' →
      Step .recorded ⟨execution, 60000⟩ s event s' := fun _ _ _ moved => moved
  obtain ⟨trace, s, run, _, seen⟩ := Run.exists_of_execute sound done
  obtain ⟨returned, unreported⟩ := Prod.mk.inj seen
  have started : OneOffServerState.start CoordinatorListener.recorded.topology (.unassigned 0 []) = .ok oneOff := rfl
  exact ⟨trace, s, run, returned, unreported,
    (one_off_returns_when_acknowledged started rfl run).2.1 returned unreported⟩

end MpcCoordinator
