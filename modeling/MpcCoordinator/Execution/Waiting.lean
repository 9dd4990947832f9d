import MpcCoordinator.Execution.Topics
import MpcCoordinator.Execution.Quorum

namespace MpcCoordinator.CoordinatorExecutionState

/-- Sinks are only parked for rounds that were not entered, and never for
`idle`, which is not entered at all. -/
structure ParkedAhead (d : CoordinatorExecutionState) : Prop where
  entered : ∀ round, (d.transEvents round).isSome = true → d.sinks round = none
  idle : d.transEvents .idle = none ∧ d.sinks .idle = none

/-- A subscription to the round is answered at once, with its own event. -/
def AnswersAtOnce (d : CoordinatorExecutionState) (round : Round) : Prop :=
  ∃ event, d.transEvents round = some event ∧ ∀ sink, d.subRound round sink = .ok (d, some event)

/-- Nobody is parked for the current round or an earlier one, and whoever asks
for such a round is answered at once. -/
def NobodyWaits (d : CoordinatorExecutionState) : Prop :=
  ∀ round, roundIndex round ≤ roundIndex d.round → d.sinks round = none ∧ (round ≠ .idle → d.AnswersAtOnce round)

/-- Every round up to the current one was entered. -/
def EnteredAll (d : CoordinatorExecutionState) : Prop :=
  ∀ round, round ≠ .idle → roundIndex round ≤ roundIndex d.round → (d.transEvents round).isSome = true

/-- The round that is due, if any, is the next one in protocol order and not
one of the shortcuts. -/
def InOrder (topology : Topology) (d : CoordinatorExecutionState) : Prop :=
  ∀ next, d.nextQuorumRound topology.transitionQuorum.toNat = some next → roundBefore next = some d.round

/-- The execution went past the round without entering it. -/
structure PassedOver (round : Round) (d : CoordinatorExecutionState) : Prop where
  started : round ≠ .idle
  passed : roundIndex round ≤ roundIndex d.round
  absent : d.transEvents round = none

variable {topology : Topology} {registration : ExecutionRegistration} {initial final d d' : CoordinatorExecutionState}
  {call : Call} {trace : List (Transition CoordinatorExecutionState Call)} {round : Round}

theorem ParkedAhead.fresh (registration : ExecutionRegistration) :
    ParkedAhead (CoordinatorExecutionState.fresh registration) :=
  ⟨fun _ _ => rfl, rfl, rfl⟩

theorem ParkedAhead.step (coherent : Coherent registration d) (ahead : ParkedAhead d)
    (step : Step topology d call d') : ParkedAhead d' := by
  refine ⟨fun round entered => ?_, ?_⟩
  · cases step.roundEffect coherent round with
    | still events parked =>
      rw [parked]
      exact ahead.entered round (by rwa [events] at entered)
    | parked _ _ _ _ absent => simp [absent] at entered
    | answered _ _ _ _ same =>
      subst same
      exact ahead.entered round entered
    | announced _ _ _ _ taken => exact taken
  · cases step.roundEffect coherent .idle with
    | still events parked => exact ⟨events.trans ahead.idle.1, parked.trans ahead.idle.2⟩
    | parked _ _ started => exact absurd rfl started
    | answered _ _ _ recorded => simp [ahead.idle.1] at recorded
    | announced _ later => exact absurd later (Nat.not_lt_zero _)

theorem ParkedAhead.of_run (admitted : new registration topology.n = .ok initial)
    (run : Run (Step topology) initial trace final) : ParkedAhead final := by
  have both : Coherent registration final ∧ ParkedAhead final := by
    refine run.invariant (P := fun d => Coherent registration d ∧ ParkedAhead d) ⟨.of_new admitted, ?_⟩ ?_
    · rw [(new_cases admitted).1]
      exact .fresh registration
    · intro d call d' before step
      exact ⟨before.1.step step, before.2.step before.1 step⟩
  exact both.2

/-- Who asks for a round that was entered gets the event it started with. -/
theorem answersAtOnce_iff : d.AnswersAtOnce round ↔ (d.transEvents round).isSome = true ∧ round ≠ .idle := by
  constructor
  · rintro ⟨event, recorded, answered⟩
    refine ⟨by simp [recorded], ?_⟩
    rintro rfl
    have refused := answered ⟨0, []⟩
    simp [subRound, roundBefore] at refused
  · rintro ⟨entered, started⟩
    obtain ⟨event, recorded⟩ := Option.isSome_iff_exists.mp entered
    refine ⟨event, recorded, fun sink => ?_⟩
    have legal : roundBefore round ≠ none := fun idle => started (roundBefore_eq_none.mp idle)
    simp [subRound, legal, recorded]

theorem ParkedAhead.nobodyWaits_iff (ahead : ParkedAhead d) : NobodyWaits d ↔ EnteredAll d := by
  constructor
  · intro nobody round started passed
    exact (answersAtOnce_iff.mp ((nobody round passed).2 started)).1
  · intro all round passed
    by_cases idle : round = .idle
    · subst idle
      exact ⟨ahead.idle.2, fun started => absurd rfl started⟩
    · have entered := all round idle passed
      exact ⟨ahead.entered round entered, fun _ => answersAtOnce_iff.mpr ⟨entered, idle⟩⟩

/-- A shortcut leaves out the round before the one it leads to. -/
theorem exists_skipped {earlier later : Round} (follows : Follows earlier later)
    (shortcut : roundBefore later ≠ some earlier) :
    ∃ skipped, skipped ≠ .idle ∧ roundIndex earlier < roundIndex skipped ∧ roundIndex skipped < roundIndex later := by
  rcases follows with before | ⟨rfl, rfl⟩ | ⟨rfl, rfl⟩
  · exact absurd before shortcut
  · exact ⟨.inputCollection, by decide, by decide, by decide⟩
  · exact ⟨.outputDistribution, by decide, by decide, by decide⟩

theorem enteredAll_pass {delivery : TransitionDelivery} {rosterHead : ClientIdentity}
    (coherent : Coherent registration d) (all : EnteredAll d)
    (applied : advanceOnce topology.transitionQuorum.toNat rosterHead d = some (delivery, d')) :
    EnteredAll d' ↔ InOrder topology d := by
  obtain ⟨found, _, _, _, rfl⟩ := advanceOnce_next applied
  have follows := (nextQuorumRound_some found).1
  constructor
  · intro after next due
    have same : delivery.1 = next := Option.some.inj (found.symm.trans due)
    subst same
    by_contra shortcut
    obtain ⟨skipped, started, above, below⟩ := exists_skipped follows shortcut
    have entered := after skipped started (by rw [enter_round]; omega)
    rw [enter_transEvents, Table.insert_of_ne _ _ (by rintro rfl; omega)] at entered
    have passed := coherent.entered_le skipped entered
    omega
  · intro ordered round started passed
    have next := roundIndex_of_roundBefore (ordered _ found)
    rw [enter_round] at passed
    rw [enter_transEvents, Table.insert_apply]
    split
    · rfl
    · rename_i different
      have earlier : roundIndex round ≠ roundIndex delivery.1 := fun same => different (roundIndex_injective same)
      exact all round started (by omega)

theorem enteredAll_lost {quorum : Nat} {rosterHead : ClientIdentity} {delivery : TransitionDelivery}
    (missing : ¬ EnteredAll d) (applied : advanceOnce quorum rosterHead d = some (delivery, d')) :
    ¬ EnteredAll d' := by
  intro after
  apply missing
  intro round started passed
  have up := advanceOnce_lt applied
  have entered := after round started (passed.trans up.le)
  rwa [advanceOnce_transEvents applied passed] at entered

theorem enteredAll_iff (admitted : new registration topology.n = .ok initial)
    (run : Run (Step topology) initial trace final) :
    (∀ d ∈ Run.reached initial trace, EnteredAll d) ↔
      ∀ τ ∈ trace, ∀ entry ∈ appliedBy topology τ.source τ.event, InOrder topology entry.1 := by
  refine always_iff_applied admitted run ?_ ?_ (fun _ _ _ => enteredAll_pass) fun _ _ _ => enteredAll_lost
  · rw [(new_cases admitted).1]
    intro round started passed
    have zero : roundIndex round = roundIndex .idle := Nat.le_zero.mp passed
    exact absurd (roundIndex_injective zero) started
  · intro d d' all same round started passed
    rw [same.round_eq] at passed
    rw [same.transEvents_eq]
    exact all round started passed

/-- A round that was passed over stays so: it is not announced any more, and
nobody who is parked for it is told or taken off the list. -/
theorem PassedOver.step (coherent : Coherent registration d) (skipped : PassedOver round d)
    (step : Step topology d call d') :
    PassedOver round d' ∧ (d.sinks round).getD [] ⊆ (d'.sinks round).getD [] ∧
      noticesFor (.round round) (d.handed topology call.caller call.action) = [] := by
  have passed := skipped.passed.trans (step.round_le coherent)
  cases step.roundEffect coherent round with
  | still events parked nothing =>
    exact ⟨⟨skipped.started, passed, events.trans skipped.absent⟩, by rw [parked]; exact List.Subset.refl _, nothing⟩
  | parked sink _ _ _ absent parked nothing =>
    refine ⟨⟨skipped.started, passed, absent⟩, ?_, nothing⟩
    rw [parked]
    exact List.subset_append_left _ _
  | answered _ _ _ recorded => simp [skipped.absent] at recorded
  | announced _ ahead => exact absurd skipped.passed (by omega)

theorem PassedOver.run (coherent : Coherent registration d) (skipped : PassedOver round d)
    (run : Run (Step topology) d trace d') :
    PassedOver round d' ∧ (d.sinks round).getD [] ⊆ (d'.sinks round).getD [] ∧
      ∀ τ ∈ trace, noticesFor (.round round) (τ.source.handed topology τ.event.caller τ.event.action) = [] := by
  induction run with
  | start => exact ⟨skipped, List.Subset.refl _, by simp⟩
  | @next earlier current call after previous taken ih =>
    obtain ⟨still, waiting, silent⟩ := ih
    have reached := previous.invariant coherent fun _ _ _ before step => before.step step
    obtain ⟨later, kept, nothing⟩ := still.step reached taken
    refine ⟨later, List.Subset.trans waiting kept, fun τ member => ?_⟩
    rcases List.mem_append.mp member with old | last
    · exact silent τ old
    · rw [List.mem_singleton.mp last]
      exact nothing

section Runs

/-- Nobody is parked for a round that was entered, and whoever asks for it is
answered at once. Of the rounds up to the current one all were entered exactly
when no shortcut was taken: a round that was passed over is never announced,
whoever is parked for it stays parked, and still a vote for it counts as applied. -/
theorem waits_only_for_rounds_not_entered (admitted : new registration topology.n = .ok initial)
    (run : Run (Step topology) initial trace final) :
    (∀ d ∈ Run.reached initial trace, ∀ round, (d.transEvents round).isSome = true →
      d.sinks round = none ∧ d.AnswersAtOnce round) ∧
    ((∀ d ∈ Run.reached initial trace, NobodyWaits d) ↔
      ∀ τ ∈ trace, ∀ entry ∈ appliedBy topology τ.source τ.event, InOrder topology entry.1) ∧
    ∀ before after d, trace = before ++ after → Run (Step topology) initial before d →
      Run (Step topology) d after final → ∀ round, PassedOver round d →
        (∀ id ∈ topology.parties, (CoordinatorRPCServerConnectionBase.mk topology id).transition d round = .ok (d, [])) ∧
        (∀ sink, ∃ d', d.subRound round sink = .ok (d', none)) ∧
        (d.sinks round).getD [] ⊆ (final.sinks round).getD [] ∧
        ∀ τ ∈ after, noticesFor (.round round) (τ.source.handed topology τ.event.caller τ.event.action) = [] := by
  have ahead : ∀ d ∈ Run.reached initial trace, ParkedAhead d := by
    intro d member
    obtain ⟨earlier, reaching⟩ := run.reached_cases member
    exact .of_run admitted reaching
  refine ⟨fun d member round entered => ?_, ?_, ?_⟩
  · have started : round ≠ .idle := by
      rintro rfl
      simp [(ahead d member).idle.1] at entered
    exact ⟨(ahead d member).entered round entered, answersAtOnce_iff.mpr ⟨entered, started⟩⟩
  · rw [← enteredAll_iff admitted run]
    exact forall₂_congr fun d member => (ahead d member).nobodyWaits_iff
  · intro before after d _ reaching later round skipped
    have coherent : Coherent registration d := .of_run admitted reaching
    have legal : roundBefore round ≠ none := fun idle => skipped.started (roundBefore_eq_none.mp idle)
    obtain ⟨_, waiting, silent⟩ := skipped.run coherent later
    refine ⟨fun id party => ?_, fun sink => ?_, waiting, silent⟩
    · simp [CoordinatorRPCServerConnectionBase.transition, topology.isParty_iff.mpr party, legal, skipped.passed]
    · simp [subRound, legal, skipped.absent]

/-- A party asks for a round before and another after it is entered. -/
theorem waits_only_for_rounds_not_entered_of_preprocessing :
    ∃ trace final, Run (Step (.lone [1])) (fresh (.unassigned 0 [])) trace final ∧ final.round = .preprocessing ∧
      (∀ d ∈ Run.reached (fresh (.unassigned 0 [])) trace, ∀ round, (d.transEvents round).isSome = true →
        d.sinks round = none ∧ d.AnswersAtOnce round) ∧
      ((∀ d ∈ Run.reached (fresh (.unassigned 0 [])) trace, NobodyWaits d) ↔
        ∀ τ ∈ trace, ∀ entry ∈ appliedBy (.lone [1]) τ.source τ.event, InOrder (.lone [1]) entry.1) := by
  obtain ⟨trace, final, run, _, preprocessing⟩ := exists_run_of_calls (.lone [1]) (fresh (.unassigned 0 []))
    [⟨[1], .subRound .preprocessing ⟨0, [1]⟩, .ok ()⟩, ⟨[1], .transition .preprocessing, .ok ()⟩,
      ⟨[2], .subRound .preprocessing ⟨1, [2]⟩, .ok ()⟩]
    round .preprocessing (by decide)
  obtain ⟨answered, ordered, _⟩ := waits_only_for_rounds_not_entered (new_unassigned 0 []) run
  exact ⟨trace, final, run, preprocessing, answered, ordered⟩

/-- An execution without inputs takes the shortcut that is meant for it, and
whoever had asked for `inputMaskReservation` is left parked. -/
theorem exists_run_waiting_for_the_past :
    ∃ trace final, new (.unassigned 0 []) 1 = .ok (fresh (.unassigned 0 [])) ∧
      Run (Step (.lone [1])) (fresh (.unassigned 0 [])) trace final ∧ final.round = .mpcExecution ∧
      final.sinks .inputMaskReservation = some [⟨0, [2]⟩] ∧ ¬ final.AnswersAtOnce .inputMaskReservation ∧
      ¬ NobodyWaits final := by
  obtain ⟨trace, final, run, _, seen⟩ := exists_run_of_calls (.lone [1]) (fresh (.unassigned 0 []))
    [⟨[2], .subRound .inputMaskReservation ⟨0, [2]⟩, .ok ()⟩, ⟨[1], .transition .preprocessing, .ok ()⟩,
      ⟨[1], .transition .mpcExecution, .ok ()⟩]
    (fun d => (d.round, d.sinks .inputMaskReservation, d.transEvents .inputMaskReservation))
    (.mpcExecution, some [⟨0, [2]⟩], none) (by decide)
  simp only [Prod.mk.injEq] at seen
  obtain ⟨executing, parked, absent⟩ := seen
  refine ⟨trace, final, rfl, run, executing, parked, fun answered => ?_, fun nobody => ?_⟩
  · have entered := (answersAtOnce_iff.mp answered).1
    simp [absent] at entered
  · have unparked := (nobody .inputMaskReservation (by rw [executing]; decide)).1
    simp [parked] at unparked

end Runs

end MpcCoordinator.CoordinatorExecutionState
