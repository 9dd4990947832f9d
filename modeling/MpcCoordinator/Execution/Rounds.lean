import MpcCoordinator.Execution.State
import MpcCoordinator.General.Loop

namespace MpcCoordinator

/-- Every round except `idle`, in protocol order. -/
def orderedRounds : List Round :=
  [.preprocessing, .inputMaskReservation, .inputCollection, .mpcExecution, .outputDistribution, .programFinished]

/-- A round that was applied: its event and the subscribers to be told. -/
abbrev TransitionDelivery := Round × Event × List SubscriptionSink

/-- The event announcing a round; `idle` is never entered and has none. -/
def transitionEvent (rosterHead : ClientIdentity) : Round → Option Event
  | .idle => none
  | .preprocessing => some (.preprocessingStarted rosterHead)
  | .inputMaskReservation => some .inputMaskReservationStarted
  | .inputCollection => some .inputCollectionStarted
  | .mpcExecution => some .mpcStarted
  | .outputDistribution => some .outputSendingStarted
  | .programFinished => some .executionDone

namespace CoordinatorExecutionState

def skipsEmptyInputRounds (d : CoordinatorExecutionState) (nextRound : Round) : Bool :=
  decide (d.round = .preprocessing ∧ nextRound = .mpcExecution)

def skipsEmptyOutputRounds (d : CoordinatorExecutionState) (nextRound : Round) : Bool :=
  decide (d.round = .mpcExecution ∧ nextRound = .programFinished)

/-- A reason the coordinator must not enter `nextRound` yet, independent of
how many parties proposed it. -/
def blockingPrecondition (d : CoordinatorExecutionState) (nextRound : Round) : Option String :=
  if nextRound = .mpcExecution ∧ ¬ d.skipsEmptyInputRounds nextRound then
    if 0 < d.maskedInputs.countP Option.isNone then
      some s!"{d.maskedInputs.countP Option.isNone} of {d.maskedInputs.length} masked inputs have not been submitted"
    else none
  else none

/-- Whether the recorded proposers of a round reach the quorum. -/
def hasQuorum (d : CoordinatorExecutionState) (quorum : Nat) (candidate : Round) : Bool :=
  match d.transitionVotes candidate with
  | some voters => decide (quorum ≤ voters.card)
  | none => false

/-- The next round that both follows the current one and has reached the
proposer quorum; of two the earlier in protocol order. -/
def nextQuorumRound (d : CoordinatorExecutionState) (quorum : Nat) : Option Round :=
  orderedRounds.find? fun candidate =>
    (decide (roundBefore candidate = some d.round) || d.skipsEmptyInputRounds candidate ||
      d.skipsEmptyOutputRounds candidate) && d.hasQuorum quorum candidate

/-- Enters a round: its subscribers are taken, its event is kept for replay. -/
def enter (d : CoordinatorExecutionState) (event : Event) (round : Round) : CoordinatorExecutionState :=
  { d with sinks := d.sinks.erase round, transEvents := d.transEvents.insert round event, round := round }

def transition (d : CoordinatorExecutionState) (event : Event) (round : Round) :
    Except CoordinatorError (CoordinatorExecutionState × List SubscriptionSink) :=
  if roundBefore round = none then .error .cannotTransitionToIdle
  else .ok (d.enter event round, (d.sinks round).getD [])

/-- One pass of the loop in `try_advance`: leave it, or apply one round. The
error branch is the code's `expect`; `advanceOnce_next` shows it is not met. -/
def advanceOnce (quorum : Nat) (rosterHead : ClientIdentity) (d : CoordinatorExecutionState) :
    Option (TransitionDelivery × CoordinatorExecutionState) :=
  match d.nextQuorumRound quorum with
  | none => none
  | some nextRound =>
    match d.blockingPrecondition nextRound with
    | some _ => none
    | none =>
      match transitionEvent rosterHead nextRound with
      | none => none
      | some event =>
        match d.transition event nextRound with
        | .error _ => none
        | .ok (d', sinks) => some ((nextRound, event, sinks), d')

/-- Applies every round whose proposer quorum is already satisfied. Rounds
only ever go up, so seven passes always reach the end of the loop. -/
def tryAdvance (quorum : Nat) (rosterHead : ClientIdentity) (d : CoordinatorExecutionState) :
    CoordinatorExecutionState × List TransitionDelivery :=
  Loop.run (advanceOnce quorum rosterHead) 7 d

/-- The passes of `tryAdvance` that apply a round, each with the state that
the round was applied in. -/
def applications (quorum : Nat) (rosterHead : ClientIdentity) (d : CoordinatorExecutionState) :
    List (CoordinatorExecutionState × TransitionDelivery) :=
  Loop.iterations (advanceOnce quorum rosterHead) 7 d

end CoordinatorExecutionState

/-- The edges of the round machine: the protocol order and two shortcuts. -/
def Follows (earlier later : Round) : Prop :=
  roundBefore later = some earlier ∨ (earlier = .preprocessing ∧ later = .mpcExecution) ∨
    (earlier = .mpcExecution ∧ later = .programFinished)

instance (earlier later : Round) : Decidable (Follows earlier later) :=
  inferInstanceAs (Decidable (_ ∨ _ ∨ _))

theorem Follows.lt {earlier later : Round} (follows : Follows earlier later) :
    roundIndex earlier < roundIndex later := by
  rcases follows with before | ⟨rfl, rfl⟩ | ⟨rfl, rfl⟩
  · have next := roundIndex_of_roundBefore before
    omega
  · decide
  · decide

theorem Follows.ne_idle {earlier later : Round} (follows : Follows earlier later) : later ≠ .idle := by
  rintro rfl
  exact absurd follows.lt (by simp [roundIndex])

theorem mem_orderedRounds {round : Round} : round ∈ orderedRounds ↔ round ≠ .idle := by
  cases round <;> decide

namespace CoordinatorExecutionState

variable {d d' : CoordinatorExecutionState} {quorum : Nat} {rosterHead : ClientIdentity}

@[simp] theorem enter_round (event : Event) (round : Round) : (d.enter event round).round = round := rfl

@[simp] theorem enter_transEvents (event : Event) (round : Round) :
    (d.enter event round).transEvents = d.transEvents.insert round event := rfl

theorem candidate_iff {candidate : Round} :
    ((decide (roundBefore candidate = some d.round) || d.skipsEmptyInputRounds candidate ||
      d.skipsEmptyOutputRounds candidate) && d.hasQuorum quorum candidate) = true ↔
      Follows d.round candidate ∧ d.hasQuorum quorum candidate = true := by
  simp only [skipsEmptyInputRounds, skipsEmptyOutputRounds, Follows, Bool.and_eq_true, Bool.or_eq_true,
    decide_eq_true_eq, or_assoc]

theorem nextQuorumRound_some {next : Round} (found : d.nextQuorumRound quorum = some next) :
    Follows d.round next ∧ d.hasQuorum quorum next = true := by
  have chosen := List.find?_some found
  exact candidate_iff.mp chosen

theorem nextQuorumRound_none : d.nextQuorumRound quorum = none ↔
    ∀ candidate, Follows d.round candidate → d.hasQuorum quorum candidate = false := by
  simp only [nextQuorumRound, List.find?_eq_none, candidate_iff]
  constructor
  · intro absent candidate follows
    have refused := absent candidate (mem_orderedRounds.mpr follows.ne_idle)
    simpa [follows] using refused
  · rintro absent candidate _ ⟨follows, reached⟩
    simp [absent candidate follows] at reached

/-- Protocol order breaks the tie at `preprocessing`: the shortcut to
`mpcExecution` is only taken when `inputMaskReservation` has no quorum. -/
theorem nextQuorumRound_preprocessing (atRound : d.round = .preprocessing) :
    d.nextQuorumRound quorum = some .mpcExecution ↔
      d.hasQuorum quorum .mpcExecution = true ∧ d.hasQuorum quorum .inputMaskReservation = false := by
  cases reserve : d.hasQuorum quorum .inputMaskReservation <;>
    cases execute : d.hasQuorum quorum .mpcExecution <;>
      simp [nextQuorumRound, orderedRounds, skipsEmptyInputRounds, skipsEmptyOutputRounds, roundBefore,
        atRound, reserve, execute]

theorem nextQuorumRound_mpcExecution (atRound : d.round = .mpcExecution) :
    d.nextQuorumRound quorum = some .programFinished ↔
      d.hasQuorum quorum .programFinished = true ∧ d.hasQuorum quorum .outputDistribution = false := by
  cases distribute : d.hasQuorum quorum .outputDistribution <;>
    cases finish : d.hasQuorum quorum .programFinished <;>
      simp [nextQuorumRound, orderedRounds, skipsEmptyInputRounds, skipsEmptyOutputRounds, roundBefore,
        atRound, distribute, finish]

theorem blockingPrecondition_some {next : Round} (held : (d.blockingPrecondition next).isSome = true) :
    next = .mpcExecution ∧ d.round ≠ .preprocessing ∧ none ∈ d.maskedInputs := by
  unfold blockingPrecondition at held
  split at held
  · rename_i gate
    split at held
    · rename_i missing
      obtain ⟨entry, member, empty⟩ := List.countP_pos_iff.mp missing
      refine ⟨gate.1, ?_, by rwa [Option.isNone_iff_eq_none.mp empty] at member⟩
      intro atRound
      exact gate.2 (by simp [skipsEmptyInputRounds, atRound, gate.1])
    · cases held
  · cases held

theorem blockingPrecondition_none {next : Round} :
    d.blockingPrecondition next = none ↔
      (next = .mpcExecution → d.round ≠ .preprocessing → none ∉ d.maskedInputs) := by
  simp only [blockingPrecondition, skipsEmptyInputRounds]
  by_cases toExecution : next = .mpcExecution <;> by_cases skips : d.round = .preprocessing <;>
    simp [toExecution, skips]

/-- Everything one pass of the loop can do: the round it applies follows the
current one, has its quorum and is not held back, and nothing else changes. -/
theorem advanceOnce_next {delivery : TransitionDelivery}
    (applied : advanceOnce quorum rosterHead d = some (delivery, d')) :
    d.nextQuorumRound quorum = some delivery.1 ∧ d.blockingPrecondition delivery.1 = none ∧
      transitionEvent rosterHead delivery.1 = some delivery.2.1 ∧
      delivery.2.2 = (d.sinks delivery.1).getD [] ∧ d' = d.enter delivery.2.1 delivery.1 := by
  unfold advanceOnce at applied
  split at applied
  · cases applied
  rename_i next found
  split at applied
  · cases applied
  rename_i free
  split at applied
  · cases applied
  rename_i event announced
  have entered : roundBefore next ≠ none :=
    fun idle => (nextQuorumRound_some found).1.ne_idle (roundBefore_eq_none.mp idle)
  simp only [transition, if_neg entered, Option.some.injEq, Prod.mk.injEq] at applied
  obtain ⟨rfl, rfl⟩ := applied
  exact ⟨found, free, announced, rfl, rfl⟩

/-- The loop is left only when no round is due or the due one is held back. -/
theorem advanceOnce_none : advanceOnce quorum rosterHead d = none ↔
    d.nextQuorumRound quorum = none ∨
      ∃ next, d.nextQuorumRound quorum = some next ∧ (d.blockingPrecondition next).isSome = true := by
  unfold advanceOnce
  cases found : d.nextQuorumRound quorum with
  | none => simp
  | some next =>
    cases held : d.blockingPrecondition next with
    | some reason => simp [held]
    | none =>
      have entered := (nextQuorumRound_some found).1.ne_idle
      have legal : roundBefore next ≠ none := fun idle => entered (roundBefore_eq_none.mp idle)
      obtain ⟨event, announced⟩ : ∃ event, transitionEvent rosterHead next = some event := by
        cases next <;> first | exact absurd rfl entered | exact ⟨_, rfl⟩
      simp [held, announced, transition, legal]

theorem advanceOnce_lt {delivery : TransitionDelivery}
    (applied : advanceOnce quorum rosterHead d = some (delivery, d')) :
    roundIndex d.round < roundIndex d'.round := by
  obtain ⟨found, _, _, _, rfl⟩ := advanceOnce_next applied
  exact (nextQuorumRound_some found).1.lt

/-- Entering a later round leaves the history of the earlier ones alone. -/
theorem advanceOnce_transEvents {delivery : TransitionDelivery} {round : Round}
    (applied : advanceOnce quorum rosterHead d = some (delivery, d'))
    (passed : roundIndex round ≤ roundIndex d.round) : d'.transEvents round = d.transEvents round := by
  have up := advanceOnce_lt applied
  obtain ⟨_, _, _, _, rfl⟩ := advanceOnce_next applied
  rw [enter_transEvents, Table.insert_of_ne]
  rintro rfl
  rw [enter_round] at up
  omega

theorem tryAdvance_invariant {P : CoordinatorExecutionState → Prop} (initial : P d)
    (preserved : ∀ d delivery d', P d → advanceOnce quorum rosterHead d = some (delivery, d') → P d') :
    P (tryAdvance quorum rosterHead d).1 :=
  Loop.run_invariant initial preserved

/-- Nothing is due when the loop ends: seven passes are more than the rounds. -/
theorem tryAdvance_stops : advanceOnce quorum rosterHead (tryAdvance quorum rosterHead d).1 = none := by
  refine Loop.run_stops (m := fun d => 6 - roundIndex d.round) ?_ (by omega)
  intro d delivery d' applied
  have up := advanceOnce_lt applied
  have top := roundIndex_le_six d'.round
  omega

/-- The fields that rounds and their announcements live in. -/
structure OnlyRounds (d d' : CoordinatorExecutionState) : Prop where
  eq : d' = { d with sinks := d'.sinks, transEvents := d'.transEvents, round := d'.round }
  round_le : roundIndex d.round ≤ roundIndex d'.round

theorem OnlyRounds.refl (d : CoordinatorExecutionState) : OnlyRounds d d := ⟨rfl, le_rfl⟩

theorem OnlyRounds.trans {a b c : CoordinatorExecutionState} (first : OnlyRounds a b) (second : OnlyRounds b c) :
    OnlyRounds a c := by
  refine ⟨?_, first.round_le.trans second.round_le⟩
  rw [second.eq, first.eq]

theorem OnlyRounds.of_advanceOnce {delivery : TransitionDelivery}
    (applied : advanceOnce quorum rosterHead d = some (delivery, d')) : OnlyRounds d d' := by
  have up := advanceOnce_lt applied
  obtain ⟨_, _, _, _, rfl⟩ := advanceOnce_next applied
  exact ⟨rfl, up.le⟩

theorem OnlyRounds.maskedInputs_eq (same : OnlyRounds d d') : d'.maskedInputs = d.maskedInputs := by
  rw [same.eq]

theorem OnlyRounds.registration_eq (same : OnlyRounds d d') : d'.registration = d.registration := by
  rw [same.eq]

/-- The cascade changes the round, its history and the waiting subscribers of
the rounds it enters, and leaves votes, inputs and reservations alone. -/
theorem tryAdvance_onlyRounds (d : CoordinatorExecutionState) :
    OnlyRounds d (tryAdvance quorum rosterHead d).1 :=
  Loop.run_related OnlyRounds.refl (fun _ _ _ => OnlyRounds.trans) fun _ _ _ => OnlyRounds.of_advanceOnce

theorem applications_onlyRounds {entry : CoordinatorExecutionState × TransitionDelivery}
    (member : entry ∈ applications quorum rosterHead d) : OnlyRounds d entry.1 :=
  Loop.iterations_invariant (P := OnlyRounds d) (OnlyRounds.refl d)
    (fun _ _ _ before applied => before.trans (.of_advanceOnce applied)) member

end CoordinatorExecutionState

end MpcCoordinator
