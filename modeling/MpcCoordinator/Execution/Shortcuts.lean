import MpcCoordinator.Execution.Cascade

namespace MpcCoordinator.CoordinatorExecutionState

/-- From `mpcExecution` on every masked input is there, and the input rounds
were only passed over when there are no inputs at all. -/
def InputsComplete (d : CoordinatorExecutionState) : Prop :=
  d.round = .mpcExecution ∨ d.round = .outputDistribution ∨ d.round = .programFinished →
    (∀ input ∈ d.maskedInputs, input.isSome = true) ∧
      (d.transEvents .inputMaskReservation = none ∨ d.transEvents .inputCollection = none →
        d.registration.nInputs = 0)

/-- A call that makes the coordinator count the votes: the proposal of a party
for a round that is still ahead, or the end of a submission. -/
def Polls (topology : Topology) (d : CoordinatorExecutionState) (call : Call) : Prop :=
  match call.action with
  | .transition nextRound =>
    call.caller ∈ topology.parties ∧ nextRound ≠ .idle ∧ roundIndex d.round < roundIndex nextRound
  | .finishSubmission _ => d.maskedInputDelivery ≠ none
  | _ => False

/-- The state before a call, with the vote of the call on record. -/
def ballot (d : CoordinatorExecutionState) (call : Call) : CoordinatorExecutionState :=
  match call.action with
  | .transition nextRound => d.recordVote call.caller nextRound
  | _ => d

/-- The votes lead to `preprocessing` and from there to `mpcExecution`, past the input rounds. -/
def LeadsPastInputs (d : CoordinatorExecutionState) (quorum : Nat) : Prop :=
  d.ReachesPreprocessing quorum ∧ d.hasQuorum quorum .mpcExecution = true ∧
    d.hasQuorum quorum .inputMaskReservation = false

/-- The votes lead to `mpcExecution` and from there to the end, past the output round. -/
def LeadsPastOutputs (d : CoordinatorExecutionState) (quorum : Nat) : Prop :=
  d.ReachesExecution quorum ∧ d.hasQuorum quorum .programFinished = true ∧
    d.hasQuorum quorum .outputDistribution = false

instance decidableLeadsPastInputs (d : CoordinatorExecutionState) (quorum : Nat) :
    Decidable (d.LeadsPastInputs quorum) :=
  inferInstanceAs (Decidable (_ ∧ _))

instance decidableLeadsPastOutputs (d : CoordinatorExecutionState) (quorum : Nat) :
    Decidable (d.LeadsPastOutputs quorum) :=
  inferInstanceAs (Decidable (_ ∧ _))

/-- A call after which the votes lead past the input rounds is only made in an
execution without inputs. -/
def InputShortcutJustified (topology : Topology) (d : CoordinatorExecutionState) (call : Call) : Prop :=
  Polls topology d call → (d.ballot call).LeadsPastInputs topology.transitionQuorum.toNat → d.registration.nInputs = 0

/-- The same for the output round and an execution without output clients. -/
def OutputShortcutJustified (topology : Topology) (d : CoordinatorExecutionState) (call : Call) : Prop :=
  Polls topology d call → (d.ballot call).LeadsPastOutputs topology.transitionQuorum.toNat → d.outputClients = []

/-- A pass of the cascade goes past the input rounds only if there are no inputs. -/
def InputPassJustified (topology : Topology) (d : CoordinatorExecutionState) : Prop :=
  d.round = .preprocessing → d.hasQuorum topology.transitionQuorum.toNat .mpcExecution = true →
    d.hasQuorum topology.transitionQuorum.toNat .inputMaskReservation = false → d.registration.nInputs = 0

/-- A finished execution that never distributed outputs had nobody to
distribute them to. -/
def OutputsDistributed (d : CoordinatorExecutionState) : Prop :=
  d.round = .programFinished → d.transEvents .outputDistribution = none → d.outputClients = []

/-- A pass of the cascade goes past the output round only if there are no output clients. -/
def OutputPassJustified (topology : Topology) (d : CoordinatorExecutionState) : Prop :=
  d.round = .mpcExecution → d.hasQuorum topology.transitionQuorum.toNat .programFinished = true →
    d.hasQuorum topology.transitionQuorum.toNat .outputDistribution = false → d.outputClients = []

theorem late_iff (round : Round) : round = .mpcExecution ∨ round = .outputDistribution ∨ round = .programFinished ↔
    roundIndex .mpcExecution ≤ roundIndex round := by
  cases round <;> decide

variable {topology : Topology} {registration : ExecutionRegistration} {d d' : CoordinatorExecutionState}
  {delivery : TransitionDelivery} {quorum : Nat} {rosterHead : ClientIdentity}

/-- The only ways into the late rounds: on from one of them, from
`inputCollection` with every input there, or by the shortcut. -/
theorem advanceOnce_late (applied : advanceOnce quorum rosterHead d = some (delivery, d'))
    (late : roundIndex .mpcExecution ≤ roundIndex d'.round) :
    roundIndex .mpcExecution ≤ roundIndex d.round ∨
      (d.round = .inputCollection ∧ d'.round = .mpcExecution ∧ ∀ input ∈ d.maskedInputs, input.isSome = true) ∨
      (d.round = .preprocessing ∧ d'.round = .mpcExecution ∧ d.hasQuorum quorum .mpcExecution = true ∧
        d.hasQuorum quorum .inputMaskReservation = false) := by
  obtain ⟨found, free, _, _, rfl⟩ := advanceOnce_next applied
  have follows := (nextQuorumRound_some found).1
  rw [enter_round] at late ⊢
  rcases follows with before | ⟨atRound, next⟩ | ⟨atRound, _⟩
  · have index := roundIndex_of_roundBefore before
    by_cases already : roundIndex .mpcExecution ≤ roundIndex d.round
    · exact Or.inl already
    · have entering : delivery.1 = .mpcExecution := roundIndex_injective (by omega)
      have leaving : d.round = .inputCollection := by
        rw [entering] at before
        simpa [roundBefore, eq_comm] using before
      refine Or.inr (Or.inl ⟨leaving, entering, ?_⟩)
      have complete := blockingPrecondition_none.mp free entering (by simp [leaving])
      intro input member
      cases input with
      | none => exact absurd member complete
      | some _ => rfl
  · rw [next] at found
    have votes := (nextQuorumRound_preprocessing atRound).mp found
    exact Or.inr (Or.inr ⟨atRound, next, votes.1, votes.2⟩)
  · exact Or.inl (by simp [atRound])

/-- An execution with inputs has none of them yet while it preprocesses. -/
theorem Coherent.input_missing (coherent : Coherent registration d)
    (early : roundIndex d.round < roundIndex .inputCollection) (inputs : d.registration.nInputs ≠ 0) :
    none ∈ d.maskedInputs := by
  have length := coherent.maskedInputs_length
  rw [← coherent.registration_eq] at length
  have positive : 0 < d.maskedInputs.length := by
    rw [length]
    exact Nat.pos_of_ne_zero fun zero => inputs (UInt64.toNat_inj.mp (by simpa using zero))
  have vacant := coherent.untouched early 0
  simp only [Slots.read, List.getElem?_eq_getElem positive, Option.join_some] at vacant
  exact vacant ▸ List.getElem_mem positive

theorem Coherent.no_inputs (coherent : Coherent registration d) (inputs : d.registration.nInputs = 0) :
    d.maskedInputs = [] := by
  have length := coherent.maskedInputs_length
  rw [← coherent.registration_eq, inputs] at length
  exact List.length_eq_zero_iff.mp (by simpa using length)

theorem inputsComplete_pass (coherent : Coherent registration d) (complete : InputsComplete d)
    (applied : advanceOnce topology.transitionQuorum.toNat rosterHead d = some (delivery, d')) :
    InputsComplete d' ↔ InputPassJustified topology d := by
  have same := OnlyRounds.of_advanceOnce applied
  obtain ⟨found, _, _, _, entered⟩ := advanceOnce_next applied
  constructor
  · intro after atRound executes reserves
    have shortcut := (nextQuorumRound_preprocessing atRound).mpr ⟨executes, reserves⟩
    have entering : d'.round = .mpcExecution := by
      rw [entered, enter_round]
      exact Option.some.inj (found.symm.trans shortcut)
    by_contra inputs
    have missing := coherent.input_missing (by rw [atRound]; decide) inputs
    have present := (after (Or.inl entering)).1 none (by rwa [same.maskedInputs_eq])
    cases present
  · intro justified late
    rw [same.maskedInputs_eq, same.registration_eq]
    rcases advanceOnce_late applied ((late_iff _).mp late) with already | ⟨leaving, _, all⟩ | ⟨atRound, _, executes, reserves⟩
    · rw [advanceOnce_transEvents applied (le_trans (by decide) already),
        advanceOnce_transEvents applied (le_trans (by decide) already)]
      exact complete ((late_iff _).mpr already)
    · refine ⟨all, fun skipped => ?_⟩
      have reserved := coherent.collects_after_reserving leaving
      have collected := coherent.entered_self (by simp [leaving])
      rw [leaving] at collected
      rw [advanceOnce_transEvents applied (by simp [leaving, roundIndex]),
        advanceOnce_transEvents applied (by simp [leaving])] at skipped
      rcases skipped with absent | absent <;> simp [absent] at reserved collected
    · have empty := justified atRound executes reserves
      refine ⟨?_, fun _ => empty⟩
      simp [coherent.no_inputs empty]

theorem inputsComplete_lost (incomplete : ¬ InputsComplete d)
    (applied : advanceOnce quorum rosterHead d = some (delivery, d')) : ¬ InputsComplete d' := by
  have up := advanceOnce_lt applied
  have same := OnlyRounds.of_advanceOnce applied
  intro after
  apply incomplete
  intro late
  have index := (late_iff _).mp late
  have complete := after ((late_iff _).mpr (index.trans up.le))
  rwa [same.maskedInputs_eq, same.registration_eq, advanceOnce_transEvents applied (le_trans (by decide) index),
    advanceOnce_transEvents applied (le_trans (by decide) index)] at complete

theorem outputsDistributed_pass (coherent : Coherent registration d)
    (applied : advanceOnce topology.transitionQuorum.toNat rosterHead d = some (delivery, d')) :
    OutputsDistributed d' ↔ OutputPassJustified topology d := by
  have same := OnlyRounds.of_advanceOnce applied
  have clients : d'.outputClients = d.outputClients := by rw [same.eq]
  obtain ⟨found, _, _, _, entered⟩ := advanceOnce_next applied
  have atNext : d'.round = delivery.1 := by rw [entered, enter_round]
  constructor
  · intro after atRound finishes distributes
    have shortcut := (nextQuorumRound_mpcExecution atRound).mpr ⟨finishes, distributes⟩
    have entering : delivery.1 = .programFinished := Option.some.inj (found.symm.trans shortcut)
    rw [← clients]
    refine after (atNext.trans entering) ?_
    rw [entered, enter_transEvents, entering, Table.insert_of_ne _ _ (by decide), ← Option.not_isSome_iff_eq_none]
    intro distributed
    have passed := coherent.entered_le _ distributed
    rw [atRound] at passed
    exact absurd passed (by decide)
  · intro justified finished absent
    have entering : delivery.1 = .programFinished := atNext.symm.trans finished
    rw [entering] at found
    rcases (nextQuorumRound_some found).1 with before | ⟨_, impossible⟩ | ⟨atRound, _⟩
    · have leaving : d.round = .outputDistribution := (Option.some.inj before).symm
      have distributed := coherent.entered_self (by simp [leaving])
      rw [leaving] at distributed
      rw [advanceOnce_transEvents applied (by simp [leaving])] at absent
      simp [absent] at distributed
    · cases impossible
    · have votes := (nextQuorumRound_mpcExecution atRound).mp found
      rw [clients]
      exact justified atRound votes.1 votes.2

/-- `programFinished` is the last round, so nothing is applied after it. -/
theorem advanceOnce_ne_finished (applied : advanceOnce quorum rosterHead d = some (delivery, d')) :
    d.round ≠ .programFinished := by
  intro finished
  have up := advanceOnce_lt applied
  have top := roundIndex_le_six d'.round
  rw [finished, show roundIndex .programFinished = 6 from rfl] at up
  omega

theorem OnlyRounds.hasQuorum_eq (same : OnlyRounds d d') (round : Round) :
    d'.hasQuorum quorum round = d.hasQuorum quorum round := by
  rw [same.eq]
  rfl

/-- The votes stay the same while the cascade runs, so what its passes go by can
be read off before it starts. -/
theorem input_passes_iff : (∀ entry ∈ applications topology.transitionQuorum.toNat rosterHead d,
    InputPassJustified topology entry.1) ↔
      (d.LeadsPastInputs topology.transitionQuorum.toNat → d.registration.nInputs = 0) := by
  constructor
  · rintro justified ⟨reached, executes, reserves⟩
    obtain ⟨entry, member, atRound⟩ := (leaves_preprocessing_iff executes).mpr reached
    have same := applications_onlyRounds member
    rw [← same.registration_eq]
    refine justified entry member atRound ?_ ?_
    · rwa [same.hasQuorum_eq]
    · rwa [same.hasQuorum_eq]
  · intro justified entry member atRound executes reserves
    have same := applications_onlyRounds member
    rw [same.hasQuorum_eq] at executes reserves
    rw [same.registration_eq]
    exact justified ⟨(leaves_preprocessing_iff executes).mp ⟨entry, member, atRound⟩, executes, reserves⟩

theorem output_passes_iff : (∀ entry ∈ applications topology.transitionQuorum.toNat rosterHead d,
    OutputPassJustified topology entry.1) ↔
      (d.LeadsPastOutputs topology.transitionQuorum.toNat → d.outputClients = []) := by
  have clients : ∀ {d'}, OnlyRounds d d' → d'.outputClients = d.outputClients := fun same => by rw [same.eq]
  constructor
  · rintro justified ⟨reached, finishes, distributes⟩
    obtain ⟨entry, member, atRound⟩ := (leaves_execution_iff finishes).mpr reached
    have same := applications_onlyRounds member
    rw [← clients same]
    refine justified entry member atRound ?_ ?_
    · rwa [same.hasQuorum_eq]
    · rwa [same.hasQuorum_eq]
  · intro justified entry member atRound finishes distributes
    have same := applications_onlyRounds member
    rw [same.hasQuorum_eq] at finishes distributes
    rw [clients same]
    exact justified ⟨(leaves_execution_iff finishes).mp ⟨entry, member, atRound⟩, finishes, distributes⟩

/-- What holds of the passes of a call depends on the state that it polls in. -/
theorem appliedBy_iff {call : Call} {guard : CoordinatorExecutionState → Prop} {Q : CoordinatorExecutionState → Prop}
    (passes : ∀ d, (∀ entry ∈ applications topology.transitionQuorum.toNat topology.rosterHead d, guard entry.1) ↔ Q d)
    (sinks : ∀ pending delivered, Q (d.restoreSinks pending delivered) ↔ Q d) :
    (∀ entry ∈ appliedBy topology d call, guard entry.1) ↔ (Polls topology d call → Q (d.ballot call)) := by
  unfold appliedBy Polls ballot
  cases call.action with
  | transition nextRound =>
    dsimp only
    split
    · rename_i counted
      rw [passes]
      exact ⟨fun holds _ => holds, fun holds => holds counted⟩
    · rename_i ignored
      exact iff_of_true (by simp) fun counted => absurd counted ignored
  | finishSubmission delivered =>
    dsimp only
    split
    · rename_i pending held
      rw [passes, sinks]
      exact ⟨fun holds _ => holds, fun holds => holds (by simp [held])⟩
    · rename_i free
      exact iff_of_true (by simp) fun held => absurd free held
  | _ => simp

theorem ballot_eq (d : CoordinatorExecutionState) (call : Call) :
    d.ballot call = { d with transitionVotes := (d.ballot call).transitionVotes } := by
  unfold ballot
  cases call.action <;> rfl

theorem inputShortcut_iff {call : Call} : (∀ entry ∈ appliedBy topology d call, InputPassJustified topology entry.1) ↔
    InputShortcutJustified topology d call := by
  rw [appliedBy_iff (fun _ => input_passes_iff) fun _ _ => Iff.rfl, InputShortcutJustified,
    show (d.ballot call).registration = d.registration by rw [ballot_eq]]

theorem outputShortcut_iff {call : Call} : (∀ entry ∈ appliedBy topology d call, OutputPassJustified topology entry.1) ↔
    OutputShortcutJustified topology d call := by
  rw [appliedBy_iff (fun _ => output_passes_iff) fun _ _ => Iff.rfl, OutputShortcutJustified,
    show (d.ballot call).outputClients = d.outputClients by rw [ballot_eq]]

section Runs

variable {initial final : CoordinatorExecutionState} {trace : List (Transition CoordinatorExecutionState Call)}

/-- Whatever the callers do, the late rounds are only entered on a complete set
of inputs, exactly when no vote is cast that leads past the input rounds of an
execution that has inputs. The code does not check that. -/
theorem inputsComplete_iff (admitted : new registration topology.n = .ok initial)
    (run : Run (Step topology) initial trace final) :
    (∀ d ∈ Run.reached initial trace, InputsComplete d) ↔
      ∀ τ ∈ trace, InputShortcutJustified topology τ.source τ.event := by
  refine (always_iff_applied admitted run ?_ ?_ (fun _ _ _ => inputsComplete_pass)
    fun _ _ _ => inputsComplete_lost).trans (forall₂_congr fun τ _ => inputShortcut_iff)
  · rw [(new_cases admitted).1]
    simp [InputsComplete, fresh]
  · intro d d' complete same late
    rw [same.round_eq] at late
    have elsewhere : d.round ≠ .inputCollection := by
      rintro collecting
      simp [collecting] at late
    rw [same.maskedInputs_eq elsewhere, same.transEvents_eq, same.registration_eq]
    exact complete late

/-- The node proposes every round, and its client reserves and submits in between. -/
def wholeProtocol : List Call :=
  [⟨[1], .transition .preprocessing, .ok ()⟩, ⟨[1], .transition .inputMaskReservation, .ok ()⟩,
    ⟨[2], .reserveMaskIndices [0] fun _ => true, .ok ()⟩, ⟨[1], .transition .inputCollection, .ok ()⟩,
    ⟨[1], .transition .mpcExecution, .ok ()⟩, ⟨[2], .submitMaskedInputs [[9]] [0], .ok ()⟩,
    ⟨[2], .finishSubmission fun _ => true, .ok ()⟩, ⟨[1], .transition .outputDistribution, .ok ()⟩,
    ⟨[1], .transition .programFinished, .ok ()⟩]

/-- An execution with an input goes through its input rounds. -/
theorem inputsComplete_of_whole_protocol :
    ∃ trace final, Run (Step (.lone [1])) (fresh (.unassigned 1 [[2]])) trace final ∧ final.round = .programFinished ∧
      trace.map Transition.event = wholeProtocol ∧
      ∀ d ∈ Run.reached (fresh (.unassigned 1 [[2]])) trace, InputsComplete d := by
  obtain ⟨trace, final, run, events, finished, checked⟩ := exists_run_of_checked (.lone [1]) (fresh (.unassigned 1 [[2]]))
    wholeProtocol (fun d call => !decide ((d.ballot call).LeadsPastInputs (Topology.lone [1]).transitionQuorum.toNat))
    round .programFinished (by decide +kernel)
  refine ⟨trace, final, run, finished, events, (inputsComplete_iff (new_unassigned 1 [[2]]) run).mpr ?_⟩
  intro τ member _ leads
  exact absurd leads (by simpa using checked τ member)

/-- One node that proposes `mpcExecution` right after `preprocessing` starts the
computation on an input that nobody has submitted. -/
theorem exists_run_truncating_inputs :
    ∃ trace final, new (.unassigned 1 []) 1 = .ok (fresh (.unassigned 1 [])) ∧
      Run (Step (.lone [1])) (fresh (.unassigned 1 [])) trace final ∧ ¬ InputsComplete final := by
  obtain ⟨trace, final, run, _, seen⟩ := exists_run_of_calls (.lone [1]) (fresh (.unassigned 1 []))
    [⟨[1], .transition .preprocessing, .ok ()⟩, ⟨[1], .transition .mpcExecution, .ok ()⟩]
    (fun d => (d.round, d.maskedInputs)) (.mpcExecution, [none]) (by decide)
  obtain ⟨executing, inputs⟩ := Prod.mk.inj seen
  refine ⟨trace, final, rfl, run, fun complete => ?_⟩
  have present := (complete (Or.inl executing)).1 none (by simp [inputs])
  cases present

/-- A finished execution without an output round has no output clients, exactly
when no vote is cast that leads past that round while there are some. The code
does not check that either. -/
theorem outputsDistributed_iff (admitted : new registration topology.n = .ok initial)
    (run : Run (Step topology) initial trace final) :
    (∀ d ∈ Run.reached initial trace, OutputsDistributed d) ↔
      ∀ τ ∈ trace, OutputShortcutJustified topology τ.source τ.event := by
  refine (always_iff_applied admitted run ?_ ?_ (fun _ _ _ coherent _ => outputsDistributed_pass coherent) ?_).trans
    (forall₂_congr fun τ _ => outputShortcut_iff)
  · rw [(new_cases admitted).1]
    simp [OutputsDistributed, fresh]
  · intro d d' complete same
    simpa only [OutputsDistributed, same.round_eq, same.transEvents_eq, same.outputClients_eq] using complete
  · intro d delivery d' broken applied
    exact absurd (fun finished => absurd finished (advanceOnce_ne_finished applied)) broken

/-- An execution with an output client goes through its output round. -/
theorem outputsDistributed_of_whole_protocol :
    ∃ trace final, Run (Step (.lone [1])) (fresh (.unassigned 1 [[2]])) trace final ∧ final.round = .programFinished ∧
      trace.map Transition.event = wholeProtocol ∧
      ∀ d ∈ Run.reached (fresh (.unassigned 1 [[2]])) trace, OutputsDistributed d := by
  obtain ⟨trace, final, run, events, finished, checked⟩ := exists_run_of_checked (.lone [1]) (fresh (.unassigned 1 [[2]]))
    wholeProtocol (fun d call => !decide ((d.ballot call).LeadsPastOutputs (Topology.lone [1]).transitionQuorum.toNat))
    round .programFinished (by decide +kernel)
  refine ⟨trace, final, run, finished, events, (outputsDistributed_iff (new_unassigned 1 [[2]]) run).mpr ?_⟩
  intro τ member _ leads
  exact absurd leads (by simpa using checked τ member)

/-- One node that proposes `programFinished` from `mpcExecution` finishes an
execution whose client never gets its output round. -/
theorem exists_run_skipping_outputs :
    ∃ trace final, new (.unassigned 0 [[2]]) 1 = .ok (fresh (.unassigned 0 [[2]])) ∧
      Run (Step (.lone [1])) (fresh (.unassigned 0 [[2]])) trace final ∧ ¬ OutputsDistributed final := by
  obtain ⟨trace, final, run, _, seen⟩ := exists_run_of_calls (.lone [1]) (fresh (.unassigned 0 [[2]]))
    [⟨[1], .transition .preprocessing, .ok ()⟩, ⟨[1], .transition .mpcExecution, .ok ()⟩,
      ⟨[1], .transition .programFinished, .ok ()⟩]
    (fun d => (d.round, d.transEvents .outputDistribution, d.outputClients)) (.programFinished, none, [[2]]) (by decide)
  obtain ⟨finished, rest⟩ := Prod.mk.inj seen
  obtain ⟨absent, clients⟩ := Prod.mk.inj rest
  refine ⟨trace, final, rfl, run, fun distributed => ?_⟩
  have empty := distributed finished absent
  rw [clients] at empty
  cases empty

end Runs

end MpcCoordinator.CoordinatorExecutionState
