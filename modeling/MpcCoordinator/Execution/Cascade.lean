import MpcCoordinator.Execution.Applied

namespace MpcCoordinator.CoordinatorExecutionState

/-- The rounds that can follow a round, in protocol order. -/
def followers : Round → List Round
  | .idle => [.preprocessing]
  | .preprocessing => [.inputMaskReservation, .mpcExecution]
  | .inputMaskReservation => [.inputCollection]
  | .inputCollection => [.mpcExecution]
  | .mpcExecution => [.outputDistribution, .programFinished]
  | .outputDistribution => [.programFinished]
  | .programFinished => []

/-- The cascade gets to `preprocessing`, by the votes on record. -/
def ReachesPreprocessing (d : CoordinatorExecutionState) (quorum : Nat) : Prop :=
  match d.round with
  | .idle => d.hasQuorum quorum .preprocessing = true
  | .preprocessing => True
  | _ => False

/-- The cascade gets to `mpcExecution`, by the votes on record and the inputs
that were submitted. -/
def ReachesExecution (d : CoordinatorExecutionState) (quorum : Nat) : Prop :=
  match d.round with
  | .idle => d.hasQuorum quorum .preprocessing = true ∧ d.hasQuorum quorum .mpcExecution = true ∧
      (d.hasQuorum quorum .inputMaskReservation = true →
        d.hasQuorum quorum .inputCollection = true ∧ none ∉ d.maskedInputs)
  | .preprocessing => d.hasQuorum quorum .mpcExecution = true ∧
      (d.hasQuorum quorum .inputMaskReservation = true →
        d.hasQuorum quorum .inputCollection = true ∧ none ∉ d.maskedInputs)
  | .inputMaskReservation => d.hasQuorum quorum .inputCollection = true ∧
      d.hasQuorum quorum .mpcExecution = true ∧ none ∉ d.maskedInputs
  | .inputCollection => d.hasQuorum quorum .mpcExecution = true ∧ none ∉ d.maskedInputs
  | .mpcExecution => True
  | .outputDistribution => False
  | .programFinished => False

instance decidableReachesPreprocessing (d : CoordinatorExecutionState) (quorum : Nat) :
    Decidable (d.ReachesPreprocessing quorum) := by
  unfold ReachesPreprocessing
  cases d.round <;> infer_instance

instance decidableReachesExecution (d : CoordinatorExecutionState) (quorum : Nat) :
    Decidable (d.ReachesExecution quorum) := by
  unfold ReachesExecution
  cases d.round <;> infer_instance

/-- The cascade applies a round while it stands in `round`. -/
def Leaves (quorum : Nat) (rosterHead : ClientIdentity) (d : CoordinatorExecutionState) (round : Round) : Prop :=
  ∃ entry ∈ applications quorum rosterHead d, entry.1.round = round

variable {d d' : CoordinatorExecutionState} {quorum : Nat} {rosterHead : ClientIdentity} {round next : Round}

theorem nextQuorumRound_eq : d.nextQuorumRound quorum = (followers d.round).find? (d.hasQuorum quorum) := by
  unfold nextQuorumRound
  cases atRound : d.round <;>
    simp [orderedRounds, followers, skipsEmptyInputRounds, skipsEmptyOutputRounds, roundBefore, atRound,
      List.find?_cons]

/-- A round that can follow and has its quorum makes some round due. -/
theorem exists_nextQuorumRound (follows : next ∈ followers d.round) (votes : d.hasQuorum quorum next = true) :
    ∃ due, d.nextQuorumRound quorum = some due := by
  rw [nextQuorumRound_eq, ← Option.isSome_iff_exists, List.find?_isSome]
  exact ⟨next, follows, votes⟩

theorem applications_eq : applications quorum rosterHead d =
    match advanceOnce quorum rosterHead d with
    | none => []
    | some (delivery, d') => (d, delivery) :: applications quorum rosterHead d' := by
  have decreases : ∀ d delivery d', advanceOnce quorum rosterHead d = some (delivery, d') →
      6 - roundIndex d'.round < 6 - roundIndex d.round := by
    intro d delivery d' applied
    have up := advanceOnce_lt applied
    have top := roundIndex_le_six d'.round
    omega
  unfold applications
  rw [Loop.iterations]
  cases applied : advanceOnce quorum rosterHead d with
  | none => rfl
  | some result =>
    have less := decreases _ _ _ applied
    have same := Loop.iterations_fuel decreases (show 6 - roundIndex result.2.round < 6 by omega)
    dsimp only
    rw [same]

/-- The loop goes on where a round is due and not held back. -/
theorem exists_advance (found : d.nextQuorumRound quorum = some next) (free : d.blockingPrecondition next = none) :
    ∃ event sinks, advanceOnce quorum rosterHead d = some ((next, event, sinks), d.enter event next) := by
  cases applied : advanceOnce quorum rosterHead d with
  | none =>
    rcases advanceOnce_none.mp applied with none | ⟨other, again, held⟩
    · rw [none] at found
      cases found
    · rw [Option.some.inj (again.symm.trans found), free] at held
      cases held
  | some result =>
    obtain ⟨⟨other, event, sinks⟩, d'⟩ := result
    obtain ⟨again, _, _, _, rfl⟩ := advanceOnce_next applied
    cases again.symm.trans found
    exact ⟨event, sinks, rfl⟩

theorem leaves_iff : Leaves quorum rosterHead d round ↔ ∃ delivery d',
    advanceOnce quorum rosterHead d = some (delivery, d') ∧ (d.round = round ∨ Leaves quorum rosterHead d' round) := by
  unfold Leaves
  rw [applications_eq]
  cases advanceOnce quorum rosterHead d with
  | none => simp
  | some result =>
    obtain ⟨delivery, d'⟩ := result
    simp

theorem leaves_self (found : d.nextQuorumRound quorum = some next) (free : d.blockingPrecondition next = none) :
    Leaves quorum rosterHead d d.round := by
  obtain ⟨event, sinks, applied⟩ := exists_advance found free
  exact leaves_iff.mpr ⟨_, _, applied, Or.inl rfl⟩

/-- What the cascade does from elsewhere, it does from the round that it enters next. -/
theorem leaves_next {P : Prop} (elsewhere : d.round ≠ round) (found : d.nextQuorumRound quorum = some next)
    (free : d.blockingPrecondition next = none)
    (there : ∀ event, Leaves quorum rosterHead (d.enter event next) round ↔ P) : Leaves quorum rosterHead d round ↔ P := by
  obtain ⟨event, sinks, applied⟩ := @exists_advance d quorum rosterHead next found free
  rw [← there event, leaves_iff]
  simp [applied, elsewhere]

theorem not_leaves (stuck : ∀ next, d.nextQuorumRound quorum = some next → d.blockingPrecondition next ≠ none) :
    ¬ Leaves quorum rosterHead d round := by
  intro leaves
  obtain ⟨delivery, d', applied, _⟩ := leaves_iff.mp leaves
  obtain ⟨found, free, _⟩ := advanceOnce_next applied
  exact stuck _ found free

/-- The cascade does not come back to a round. -/
theorem not_leaves_passed (passed : roundIndex round < roundIndex d.round) : ¬ Leaves quorum rosterHead d round := by
  rintro ⟨entry, member, rfl⟩
  have later := (applications_onlyRounds member).round_le
  omega

/-- The same where only one round can follow. -/
theorem leaves_only {P : Prop} (elsewhere : d.round ≠ round) (only : followers d.round = [next])
    (there : ∀ event, Leaves quorum rosterHead (d.enter event next) round ↔ P) :
    Leaves quorum rosterHead d round ↔ d.hasQuorum quorum next = true ∧ d.blockingPrecondition next = none ∧ P := by
  cases due : d.hasQuorum quorum next with
  | false =>
    refine iff_of_false (not_leaves fun other found => ?_) (by simp)
    simp [nextQuorumRound_eq, only, due] at found
  | true =>
    have found : d.nextQuorumRound quorum = some next := by simp [nextQuorumRound_eq, only, due]
    cases held : d.blockingPrecondition next with
    | none => simpa using leaves_next elsewhere found held there
    | some reason =>
      refine iff_of_false (not_leaves fun other again free => ?_) (by simp)
      cases again.symm.trans found
      rw [held] at free
      cases free

theorem blockingPrecondition_of_ne (elsewhere : next ≠ .mpcExecution) : d.blockingPrecondition next = none :=
  blockingPrecondition_none.mpr fun same => absurd same elsewhere

theorem leaves_at_preprocessing (atRound : d.round = .preprocessing)
    (executes : d.hasQuorum quorum .mpcExecution = true) : Leaves quorum rosterHead d .preprocessing := by
  obtain ⟨next, found⟩ := exists_nextQuorumRound (by simp [atRound, followers]) executes
  rw [← atRound]
  exact leaves_self found (blockingPrecondition_none.mpr fun _ elsewhere => absurd atRound elsewhere)

/-- If `mpcExecution` has its quorum, the cascade does not stop in `preprocessing`. -/
theorem leaves_preprocessing_iff (executes : d.hasQuorum quorum .mpcExecution = true) :
    Leaves quorum rosterHead d .preprocessing ↔ d.ReachesPreprocessing quorum := by
  unfold ReachesPreprocessing
  cases atRound : d.round with
  | idle =>
    refine (leaves_only (P := True) (by simp [atRound]) (by rw [atRound]; rfl) fun event =>
      iff_of_true (leaves_at_preprocessing rfl executes) trivial).trans ?_
    simp [blockingPrecondition_of_ne]
  | preprocessing => exact iff_of_true (leaves_at_preprocessing atRound executes) trivial
  | inputMaskReservation => exact iff_of_false (not_leaves_passed (by rw [atRound]; decide)) id
  | inputCollection => exact iff_of_false (not_leaves_passed (by rw [atRound]; decide)) id
  | mpcExecution => exact iff_of_false (not_leaves_passed (by rw [atRound]; decide)) id
  | outputDistribution => exact iff_of_false (not_leaves_passed (by rw [atRound]; decide)) id
  | programFinished => exact iff_of_false (not_leaves_passed (by rw [atRound]; decide)) id

theorem leaves_at_execution (atRound : d.round = .mpcExecution)
    (finishes : d.hasQuorum quorum .programFinished = true) : Leaves quorum rosterHead d .mpcExecution := by
  obtain ⟨next, found⟩ := exists_nextQuorumRound (by simp [atRound, followers]) finishes
  have follows := (nextQuorumRound_some found).1
  rw [← atRound]
  refine leaves_self found (blockingPrecondition_of_ne ?_)
  rintro rfl
  rw [atRound] at follows
  exact absurd follows.lt (by decide)

theorem leaves_from_collection (atRound : d.round = .inputCollection)
    (finishes : d.hasQuorum quorum .programFinished = true) :
    Leaves quorum rosterHead d .mpcExecution ↔ d.hasQuorum quorum .mpcExecution = true ∧ none ∉ d.maskedInputs := by
  refine (leaves_only (P := True) (by simp [atRound]) (by rw [atRound]; rfl) fun event =>
    iff_of_true (leaves_at_execution rfl finishes) trivial).trans ?_
  simp [blockingPrecondition_none, atRound]

theorem leaves_from_reservation (atRound : d.round = .inputMaskReservation)
    (finishes : d.hasQuorum quorum .programFinished = true) :
    Leaves quorum rosterHead d .mpcExecution ↔ d.hasQuorum quorum .inputCollection = true ∧
      d.hasQuorum quorum .mpcExecution = true ∧ none ∉ d.maskedInputs := by
  have there : ∀ event, Leaves quorum rosterHead (d.enter event .inputCollection) .mpcExecution ↔
      d.hasQuorum quorum .mpcExecution = true ∧ none ∉ d.maskedInputs :=
    fun event => leaves_from_collection rfl finishes
  rw [leaves_only (by simp [atRound]) (by rw [atRound]; rfl) there, blockingPrecondition_of_ne (by decide), eq_self,
    true_and]

theorem leaves_from_preprocessing (atRound : d.round = .preprocessing)
    (finishes : d.hasQuorum quorum .programFinished = true) :
    Leaves quorum rosterHead d .mpcExecution ↔ d.hasQuorum quorum .mpcExecution = true ∧
      (d.hasQuorum quorum .inputMaskReservation = true →
        d.hasQuorum quorum .inputCollection = true ∧ none ∉ d.maskedInputs) := by
  have elsewhere : d.round ≠ .mpcExecution := by simp [atRound]
  cases reserves : d.hasQuorum quorum .inputMaskReservation with
  | true =>
    have found : d.nextQuorumRound quorum = some .inputMaskReservation := by
      simp [nextQuorumRound_eq, atRound, followers, reserves]
    have there : ∀ event, Leaves quorum rosterHead (d.enter event .inputMaskReservation) .mpcExecution ↔
        d.hasQuorum quorum .inputCollection = true ∧ d.hasQuorum quorum .mpcExecution = true ∧ none ∉ d.maskedInputs :=
      fun event => leaves_from_reservation rfl finishes
    rw [leaves_next elsewhere found (blockingPrecondition_of_ne (by decide)) there]
    constructor
    · rintro ⟨collects, executes, complete⟩
      exact ⟨executes, fun _ => ⟨collects, complete⟩⟩
    · rintro ⟨executes, rest⟩
      exact ⟨(rest rfl).1, executes, (rest rfl).2⟩
  | false =>
    cases executes : d.hasQuorum quorum .mpcExecution with
    | true =>
      have found := (nextQuorumRound_preprocessing atRound).mpr ⟨executes, reserves⟩
      have free : d.blockingPrecondition .mpcExecution = none :=
        blockingPrecondition_none.mpr fun _ other => absurd atRound other
      refine (leaves_next (P := True) elsewhere found free fun event =>
        iff_of_true (leaves_at_execution rfl finishes) trivial).trans ?_
      simp
    | false =>
      refine iff_of_false (not_leaves fun next found => ?_) (by simp)
      simp [nextQuorumRound_eq, atRound, followers, reserves, executes] at found

/-- If `programFinished` has its quorum, the cascade does not stop in `mpcExecution`. -/
theorem leaves_execution_iff (finishes : d.hasQuorum quorum .programFinished = true) :
    Leaves quorum rosterHead d .mpcExecution ↔ d.ReachesExecution quorum := by
  unfold ReachesExecution
  cases atRound : d.round with
  | idle =>
    have there : ∀ event, Leaves quorum rosterHead (d.enter event .preprocessing) .mpcExecution ↔
        d.hasQuorum quorum .mpcExecution = true ∧ (d.hasQuorum quorum .inputMaskReservation = true →
          d.hasQuorum quorum .inputCollection = true ∧ none ∉ d.maskedInputs) :=
      fun event => leaves_from_preprocessing rfl finishes
    rw [leaves_only (by simp [atRound]) (by rw [atRound]; rfl) there, blockingPrecondition_of_ne (by decide), eq_self,
      true_and]
  | preprocessing => exact leaves_from_preprocessing atRound finishes
  | inputMaskReservation => exact leaves_from_reservation atRound finishes
  | inputCollection => exact leaves_from_collection atRound finishes
  | mpcExecution => exact iff_of_true (leaves_at_execution atRound finishes) trivial
  | outputDistribution => exact iff_of_false (not_leaves_passed (by rw [atRound]; decide)) id
  | programFinished => exact iff_of_false (not_leaves_passed (by rw [atRound]; decide)) id

end MpcCoordinator.CoordinatorExecutionState
