import MpcCoordinator.Server.Retirement
import MpcCoordinator.Server.Worn

namespace MpcCoordinator

theorem Topology.card_parties (topology : Topology) : topology.parties.card = topology.mpcNodes.val.length :=
  List.toFinset_card_of_nodup topology.checks.2.2.2.2

/-- Where the acknowledgements of one execution are kept. -/
inductive AckFile where
  | live (acks : Finset ClientIdentity)
  | tombstone (acks : Finset ClientIdentity)
  | gone

/-- It holds exactly these acknowledgements, unless it is gone. -/
def AckFile.Holds (acks : Finset ClientIdentity) : AckFile → Prop
  | .live given => given = acks
  | .tombstone given => given = acks
  | .gone => True

/-- The progress that is read off it, where `n` parties are to acknowledge. -/
def AckFile.progress (n : Nat) : AckFile → Nat × Nat × Bool
  | .live acks => (acks.card, n, decide (n ≤ acks.card))
  | .tombstone acks => (acks.card, n, false)
  | .gone => (n, n, true)

namespace CoordinatorRPCServerSharedBase

/-- How many parties have acknowledged an execution, how many there are, and
whether that is all. An id without a trace counts as acknowledged by all. -/
def retirementProgress (topology : Topology) (shared : CoordinatorRPCServerSharedBase) (executionId : ExecutionId) :
    Nat × Nat × Bool :=
  let n := topology.mpcNodes.val.length
  match shared.executions.lookup executionId with
  | some execution => (execution.retirementAcks.card, n, decide (n ≤ execution.retirementAcks.card))
  | none =>
    match shared.retired.acks executionId with
    | some acks => (acks.card, n, false)
    | none => (n, n, true)

/-- An execution has a state or a tombstone, never both, or neither. -/
inductive Filed (shared : CoordinatorRPCServerSharedBase) (e : ExecutionId) : AckFile → Prop
  | live {d acks} : shared.executions.lookup e = some d → d.retirementAcks = acks → shared.retired.acks e = none →
      Filed shared e (.live acks)
  | tombstone {acks} : shared.executions.lookup e = none → shared.retired.acks e = some acks →
      Filed shared e (.tombstone acks)
  | gone : shared.executions.lookup e = none → shared.retired.acks e = none → Filed shared e .gone

/-- What a registration can do to the acknowledgements of an execution. -/
inductive Reclaimed : AckFile → AckFile → Prop
  | kept {file} : Reclaimed file file
  | sealed {acks} : Reclaimed (.live acks) (.tombstone acks)
  | forgotten {acks} : Reclaimed (.tombstone acks) .gone

variable {topology : Topology} {shared shared' room : CoordinatorRPCServerSharedBase} {e executionId : ExecutionId}
  {file : AckFile} {order : List ExecutionId}

theorem Filed.congr (filed : Filed shared e file)
    (acks : (shared'.executions.lookup e).map CoordinatorExecutionState.retirementAcks =
      (shared.executions.lookup e).map CoordinatorExecutionState.retirementAcks)
    (retired : shared'.retired.acks e = shared.retired.acks e) : Filed shared' e file := by
  cases filed with
  | live here given vacant =>
    rw [here, Option.map_some] at acks
    obtain ⟨d', here', same⟩ := Option.map_eq_some_iff.mp acks
    exact .live here' (same.trans given) (retired.trans vacant)
  | tombstone absent held =>
    rw [absent, Option.map_none, Option.map_eq_none_iff] at acks
    exact .tombstone acks (retired.trans held)
  | gone absent vacant =>
    rw [absent, Option.map_none, Option.map_eq_none_iff] at acks
    exact .gone acks (retired.trans vacant)

theorem Filed.unique {file' : AckFile} (filed : Filed shared e file) (filed' : Filed shared e file') : file' = file := by
  cases filed <;> cases filed' <;> simp_all

theorem Filed.retirementProgress_eq (filed : Filed shared e file) :
    shared.retirementProgress topology e = file.progress topology.mpcNodes.val.length := by
  cases filed with
  | live here given _ => simp only [retirementProgress, here, given, AckFile.progress]
  | tombstone absent held => simp only [retirementProgress, absent, held, AckFile.progress]
  | gone absent vacant => simp only [retirementProgress, absent, vacant, AckFile.progress]

end CoordinatorRPCServerSharedBase

namespace RetiredExecutions

variable {retired : RetiredExecutions} {e executionId : ExecutionId}

/-- A tombstone is added, and the oldest one is forgotten for it if need be. -/
theorem Listed.acks_sealExecution (listed : Listed retired) (executionId : ExecutionId) (acks : Finset ClientIdentity) :
    (retired.sealExecution executionId acks).acks = retired.acks.insert executionId acks ∨
      ∃ oldest ≠ executionId,
        (retired.sealExecution executionId acks).acks = (retired.acks.insert executionId acks).erase oldest := by
  have sealed := listed.sealed executionId acks
  generalize retired.sealExecution executionId acks = after at sealed ⊢
  cases sealed with
  | held => exact .inl rfl
  | added => exact .inl rfl
  | @replaced oldest rest unheld known _ =>
    refine .inr ⟨oldest, ?_, rfl⟩
    rintro rfl
    exact unheld (by simp [known])

theorem Listed.acks_sealExecution_self (listed : Listed retired) (executionId : ExecutionId)
    (acks : Finset ClientIdentity) : (retired.sealExecution executionId acks).acks executionId = some acks := by
  rcases listed.acks_sealExecution executionId acks with same | ⟨oldest, different, same⟩
  · rw [same, Table.insert_self]
  · rw [same, Table.erase_of_ne _ different.symm, Table.insert_self]

/-- Another tombstone is kept as it is, or forgotten. -/
theorem Listed.acks_sealExecution_of_ne (listed : Listed retired) (acks : Finset ClientIdentity)
    (different : e ≠ executionId) : (retired.sealExecution executionId acks).acks e = retired.acks e ∨
      (retired.sealExecution executionId acks).acks e = none := by
  rcases listed.acks_sealExecution executionId acks with same | ⟨oldest, _, same⟩
  · rw [same]
    exact .inl (Table.insert_of_ne _ _ different)
  · rw [same, Table.erase_apply, Table.insert_of_ne _ _ different]
    split
    · exact .inr rfl
    · exact .inl rfl

end RetiredExecutions

namespace CoordinatorRPCServerSharedBase

variable {topology : Topology} {shared room : CoordinatorRPCServerSharedBase} {e : ExecutionId} {file : AckFile}
  {order : List ExecutionId}

theorem Filed.makeRoom (filed : Filed shared e file) (listed : shared.retired.Listed)
    (made : shared.makeRoom topology order = some room) : ∃ file', Reclaimed file file' ∧ Filed room e file' := by
  rcases makeRoom_cases made with ⟨_, rfl⟩ | ⟨gone, d, here, _, _, rfl⟩
  · exact ⟨file, .kept, filed⟩
  have retired : (shared.evict gone).retired = shared.retired.sealExecution gone d.retirementAcks := by
    simp only [evict, here]
  by_cases own : e = gone
  · subst own
    cases filed with
    | live present given vacant =>
      obtain rfl := Option.some.inj (here.symm.trans present)
      refine ⟨_, .sealed, .tombstone (lookup_evict_self here) ?_⟩
      rw [retired, ← given]
      exact listed.acks_sealExecution_self _ _
    | tombstone absent _ =>
      rw [here] at absent
      cases absent
    | gone absent _ =>
      rw [here] at absent
      cases absent
  · have same : (shared.evict gone).executions.lookup e = shared.executions.lookup e := lookup_evict_of_ne own
    have outcome := listed.acks_sealExecution_of_ne d.retirementAcks own
    rw [← retired] at outcome
    cases filed with
    | live present given vacant => exact ⟨_, .kept, .live (same.trans present) given (outcome.elim (·.trans vacant) id)⟩
    | tombstone absent held =>
      rcases outcome with kept | forgotten
      · exact ⟨_, .kept, .tombstone (same.trans absent) (kept.trans held)⟩
      · exact ⟨_, .forgotten, .gone (same.trans absent) forgotten⟩
    | gone absent vacant => exact ⟨_, .kept, .gone (same.trans absent) (outcome.elim (·.trans vacant) id)⟩

end CoordinatorRPCServerSharedBase

/-- What a step can do to the acknowledgements of an execution. -/
inductive Refiled (topology : Topology) (e : ExecutionId) : ServerEvent → AckFile → AckFile → Prop
  | kept {event file} : (∀ party, topology.isParty party = true → event ≠ .retire party e) →
      Refiled topology e event file file
  | created {party registration order} : Refiled topology e (.register party registration order) .gone (.live ∅)
  | sealed {party registration order acks} :
      Refiled topology e (.register party registration order) (.live acks) (.tombstone acks)
  | forgotten {party registration order acks} :
      Refiled topology e (.register party registration order) (.tombstone acks) .gone
  | counted {party acks} : topology.isParty party = true →
      Refiled topology e (.retire party e) (.live acks) (.live (insert party acks))
  | noted {party acks} : topology.isParty party = true → (insert party acks).card < topology.mpcNodes.val.length →
      Refiled topology e (.retire party e) (.tombstone acks) (.tombstone (insert party acks))
  | drained {party acks} : topology.isParty party = true → topology.mpcNodes.val.length ≤ (insert party acks).card →
      Refiled topology e (.retire party e) (.tombstone acks) .gone
  | late {party} : topology.isParty party = true → Refiled topology e (.retire party e) .gone .gone

theorem CoordinatorRPCServerSharedBase.Reclaimed.refiled {topology : Topology} {e : ExecutionId} {file file' : AckFile}
    (reclaimed : Reclaimed file file') (party : ClientIdentity) (registration : ExecutionRegistration)
    (order : List ExecutionId) : Refiled topology e (.register party registration order) file file' := by
  cases reclaimed with
  | kept => exact .kept fun other _ same => by cases same
  | sealed => exact .sealed
  | forgotten => exact .forgotten

namespace CoordinatorRPCServerSharedBase

variable {topology : Topology} {shared : CoordinatorRPCServerSharedBase} {e executionId : ExecutionId} {file : AckFile}
  {party : ClientIdentity}

theorem Filed.retireExecution (filed : Filed shared e file) (member : topology.isParty party = true) :
    ∃ file', Refiled topology e (.retire party e) file file' ∧
      Filed (shared.retireExecution topology e party).2 e file' := by
  rw [CoordinatorRPCServerSharedBase.retireExecution, if_neg (by simp [member])]
  simp only [RetiredExecutions.acknowledge]
  cases filed with
  | live here given vacant =>
    simp only [vacant, here]
    refine ⟨_, .counted member, .live (lookup_put_self _) ?_ vacant⟩
    rw [← given]
    rfl
  | tombstone absent held =>
    simp only [held]
    rename_i acks
    by_cases all : topology.mpcNodes.val.length ≤ (insert party acks).card
    · simp only [all, if_true]
      exact ⟨_, .drained member all, .gone absent ((Table.erase_apply _ _ _).trans (if_pos rfl))⟩
    · simp only [all, if_false]
      exact ⟨_, .noted member (Nat.lt_of_not_le all), .tombstone absent (Table.insert_self _ _ _)⟩
  | gone absent vacant =>
    simp only [vacant, absent]
    exact ⟨_, .late member, .gone absent vacant⟩

/-- No acknowledgement is filed with another execution. -/
theorem Filed.retireExecution_of_ne (filed : Filed shared e file) (different : e ≠ executionId) :
    Filed (shared.retireExecution topology executionId party).2 e file := by
  unfold CoordinatorRPCServerSharedBase.retireExecution
  split
  · exact filed
  split
  · rename_i acknowledged
    refine filed.congr rfl ?_
    have same := @RetiredExecutions.acks_acknowledge_of_ne shared.retired e executionId party
      topology.mpcNodes.val.length different
    rwa [acknowledged] at same
  · split
    · exact filed
    · exact filed.congr (by rw [lookup_put_of_ne _ different]) rfl

end CoordinatorRPCServerSharedBase

namespace CoordinatorBrowserState

variable {listener : CoordinatorListener} {s s' : CoordinatorBrowserState} {event : ServerEvent} {e : ExecutionId}
  {file : AckFile}

/-- Only a registration drops an execution, and only a retirement call of a
roster party acknowledges it. -/
theorem Step.retirementAcks_kept (step : s.Step listener event s')
    (unregistering : ∀ party registration order, event ≠ .register party registration order)
    (aside : ∀ party, listener.topology.isParty party = true → event ≠ .retire party e) :
    (s'.live e).map CoordinatorExecutionState.retirementAcks = (s.live e).map CoordinatorExecutionState.retirementAcks := by
  have seen := step.seen e
  generalize s.live e = source, s'.live e = target at seen
  cases seen with
  | untouched => rfl
  | called called moved =>
    cases moved.outputs with
    | same unmoved => rw [Option.map_some, unmoved.retirementAcks, Option.map_some]
    | share | waiter | closed | failed => rfl
    | acknowledged member =>
      exact absurd (step.retire_of_callAt called) (aside _ (listener.topology.isParty_iff.mpr member))
  | created registers => exact absurd registers (unregistering _ _ _)
  | dropped registers => exact absurd registers (unregistering _ _ _)

theorem Step.refiled_register {party : ClientIdentity} {registration : ExecutionRegistration} {order : List ExecutionId}
    (step : s.Step listener (.register party registration order) s') (listed : TombstonesListed s)
    (filed : s.coordinator.Filed e file) (fresh : s.live e = none → s'.live e ≠ none → file = .gone) :
    ∃ file', Refiled listener.topology e (.register party registration order) file file' ∧ s'.coordinator.Filed e file' := by
  have moved := step.administers
  generalize found : s'.coordinator = after at moved ⊢
  cases moved with
  | nothing other => cases other
  | registration admission =>
    cases admission with
    | unchanged => exact ⟨file, .kept (fun other _ same => by cases same), filed⟩
    | refused _ made _ =>
      obtain ⟨file', reclaimed, roomy⟩ := filed.makeRoom listed made
      exact ⟨file', reclaimed.refiled _ _ _, roomy⟩
    | @admitted room d member absent made checked =>
      obtain ⟨file', reclaimed, roomy⟩ := filed.makeRoom listed made
      by_cases own : e = registration.executionId
      · subst own
        have here : s'.live registration.executionId = some d := by
          rw [live, found]
          exact CoordinatorRPCServerSharedBase.lookup_put_self d
        have blank : d.retirementAcks = ∅ := by
          rw [(CoordinatorExecutionState.new_cases checked).1]
          rfl
        obtain rfl := fresh absent (by simp [here])
        cases reclaimed with
        | kept =>
          cases roomy with
          | gone _ vacant =>
            exact ⟨_, .created, .live (CoordinatorRPCServerSharedBase.lookup_put_self d) blank vacant⟩
      · refine ⟨file', reclaimed.refiled _ _ _, roomy.congr ?_ rfl⟩
        rw [CoordinatorRPCServerSharedBase.lookup_put_of_ne _ own]

theorem Step.refiled_retire {party : ClientIdentity} {executionId : ExecutionId}
    (step : s.Step listener (.retire party executionId) s') (filed : s.coordinator.Filed e file) :
    ∃ file', Refiled listener.topology e (.retire party executionId) file file' ∧ s'.coordinator.Filed e file' := by
  let connection : CoordinatorRPCServerConnectionBase := ⟨listener.topology, party⟩
  have taken : s.Step listener (.retire party executionId)
    { s with coordinator := (connection.retire s.coordinator executionId).2 } := rfl
  obtain rfl := Option.some.inj (taken.symm.trans step)
  dsimp only
  unfold CoordinatorRPCServerConnectionBase.retire
  split
  · rename_i outsider
    refine ⟨file, .kept fun other member same => ?_, filed⟩
    cases same
    exact absurd member (by rw [show listener.topology.isParty party = false from outsider]; decide)
  · rename_i member
    rw [CoordinatorRPCServerConnectionBase.answer_snd]
    by_cases own : e = executionId
    · subst own
      exact filed.retireExecution (by simpa using member)
    · refine ⟨file, .kept fun other _ same => ?_, filed.retireExecution_of_ne own⟩
      cases same
      exact own rfl

/-- Every other event leaves the acknowledgements where they are. -/
theorem Step.refiled_other (step : s.Step listener event s')
    (unregistering : ∀ party registration order, event ≠ .register party registration order)
    (unretiring : ∀ party executionId, event ≠ .retire party executionId) (filed : s.coordinator.Filed e file) :
    ∃ file', Refiled listener.topology e event file file' ∧ s'.coordinator.Filed e file' := by
  have aside : ∀ party, listener.topology.isParty party = true → event ≠ .retire party e :=
    fun party _ => unretiring party e
  refine ⟨file, .kept aside, filed.congr (step.retirementAcks_kept unregistering aside) ?_⟩
  have moved := step.administers
  generalize s'.coordinator = after at moved ⊢
  cases moved with
  | nothing _ same _ => rw [same]
  | registration => exact absurd rfl (unregistering _ _ _)
  | acknowledgement => exact absurd rfl (unretiring _ _)
  | watched => rfl

theorem Step.refiled (step : s.Step listener event s') (listed : TombstonesListed s)
    (filed : s.coordinator.Filed e file) (fresh : s.live e = none → s'.live e ≠ none → file = .gone) :
    ∃ file', Refiled listener.topology e event file file' ∧ s'.coordinator.Filed e file' := by
  cases event with
  | register => exact step.refiled_register listed filed fresh
  | retire => exact step.refiled_retire filed
  | _ => exact step.refiled_other (fun _ _ _ same => by cases same) (fun _ _ same => by cases same) filed

section History

variable {trace before after : List (Transition CoordinatorBrowserState ServerEvent)}
  {τ : Transition CoordinatorBrowserState ServerEvent} {party : ClientIdentity}

/-- An execution has been registered under this id. -/
def Registered (e : ExecutionId) (trace : List (Transition CoordinatorBrowserState ServerEvent)) : Prop :=
  ∃ τ ∈ trace, (τ.target.live e).isSome = true

/-- It was not registered again after it had lost its slot. -/
def RegisteredOnce (e : ExecutionId) (trace : List (Transition CoordinatorBrowserState ServerEvent)) : Prop :=
  ∀ before τ after, trace = before ++ τ :: after → Registered e before → τ.source.live e = none → τ.target.live e = none

/-- A party has called to retire an execution since it was registered. -/
def HasAcknowledged (e : ExecutionId) (trace : List (Transition CoordinatorBrowserState ServerEvent))
    (party : ClientIdentity) : Prop :=
  ∃ before τ after, trace = before ++ τ :: after ∧ Registered e before ∧ τ.event = .retire party e

open Classical in
/-- The roster parties that have. -/
noncomputable def acknowledgers (topology : Topology) (e : ExecutionId)
    (trace : List (Transition CoordinatorBrowserState ServerEvent)) : Finset ClientIdentity :=
  topology.parties.filter fun party => HasAcknowledged e trace party

theorem registered_append : Registered e (trace ++ [τ]) ↔ Registered e trace ∨ (τ.target.live e).isSome = true := by
  simp [Registered, or_and_right, exists_or]

theorem RegisteredOnce.of_append (once : RegisteredOnce e (before ++ after)) : RegisteredOnce e before := by
  intro first σ rest same
  exact once first σ (rest ++ after) (by rw [same, List.append_assoc, List.cons_append])

theorem Registered.append (registered : Registered e before) : Registered e (before ++ after) := by
  obtain ⟨τ, member, here⟩ := registered
  exact ⟨τ, List.mem_append_left _ member, here⟩

theorem HasAcknowledged.append (acknowledged : HasAcknowledged e before party) :
    HasAcknowledged e (before ++ after) party := by
  obtain ⟨first, σ, rest, rfl, registered, retires⟩ := acknowledged
  exact ⟨first, σ, rest ++ after, by simp, registered, retires⟩

theorem hasAcknowledged_append : HasAcknowledged e (trace ++ [τ]) party ↔
    HasAcknowledged e trace party ∨ Registered e trace ∧ τ.event = .retire party e := by
  constructor
  · rintro ⟨before, σ, after, same, registered, retires⟩
    rcases List.eq_nil_or_concat after with rfl | ⟨rest, last, rfl⟩
    · obtain ⟨rfl, last⟩ := List.append_inj' same rfl
      obtain rfl := List.singleton_inj.mp last
      exact .inr ⟨registered, retires⟩
    · rw [List.concat_eq_append, ← List.cons_append, ← List.append_assoc] at same
      exact .inl ⟨before, σ, rest, (List.append_inj' same rfl).1, registered, retires⟩
  · rintro (acknowledged | ⟨registered, retires⟩)
    · exact acknowledged.append
    · exact ⟨trace, τ, [], rfl, registered, retires⟩

variable {topology : Topology}

theorem mem_acknowledgers : party ∈ acknowledgers topology e trace ↔
    topology.isParty party = true ∧ HasAcknowledged e trace party := by
  simp only [acknowledgers, Finset.mem_filter, topology.isParty_iff]

theorem acknowledgers_append_of_ne (aside : ∀ party, topology.isParty party = true → τ.event ≠ .retire party e) :
    acknowledgers topology e (trace ++ [τ]) = acknowledgers topology e trace := by
  ext party
  rw [mem_acknowledgers, mem_acknowledgers, hasAcknowledged_append]
  exact and_congr_right fun member => or_iff_left fun retired => aside party member retired.2

theorem acknowledgers_append_retire (member : topology.isParty party = true) (registered : Registered e trace)
    (retires : τ.event = .retire party e) :
    acknowledgers topology e (trace ++ [τ]) = insert party (acknowledgers topology e trace) := by
  ext other
  rw [Finset.mem_insert, mem_acknowledgers, mem_acknowledgers, hasAcknowledged_append, retires]
  constructor
  · rintro ⟨inside, old | ⟨_, same⟩⟩
    · exact .inr ⟨inside, old⟩
    · cases same
      exact .inl rfl
  · rintro (rfl | ⟨inside, old⟩)
    · exact ⟨member, .inr ⟨registered, rfl⟩⟩
    · exact ⟨inside, .inl old⟩

theorem acknowledgers_of_unregistered (unregistered : ¬ Registered e trace) : acknowledgers topology e trace = ∅ := by
  rw [Finset.eq_empty_iff_forall_notMem]
  intro party member
  obtain ⟨before, σ, after, rfl, registered, _⟩ := (mem_acknowledgers.mp member).2
  exact unregistered registered.append

theorem acknowledgers_mono : acknowledgers topology e before ⊆ acknowledgers topology e (before ++ after) := by
  intro party member
  rw [mem_acknowledgers] at member ⊢
  exact ⟨member.1, member.2.append⟩

theorem acknowledgers_subset : acknowledgers topology e trace ⊆ topology.parties := fun _ member =>
  topology.isParty_iff.mp (mem_acknowledgers.mp member).1

/-- All parties have acknowledged an execution as soon as that many have. -/
theorem all_acknowledged_iff : (∀ party ∈ topology.parties, HasAcknowledged e trace party) ↔
    topology.mpcNodes.val.length ≤ (acknowledgers topology e trace).card := by
  rw [← topology.card_parties]
  constructor
  · intro all
    refine Finset.card_le_card fun party member => ?_
    exact mem_acknowledgers.mpr ⟨topology.isParty_iff.mpr member, all party member⟩
  · intro many party member
    rw [← Finset.eq_of_subset_of_card_le acknowledgers_subset many] at member
    exact (mem_acknowledgers.mp member).2

/-- The progress that is reported is that of the run so far. -/
structure ReportsExactly (topology : Topology) (e : ExecutionId)
    (trace : List (Transition CoordinatorBrowserState ServerEvent)) (s : CoordinatorBrowserState) : Prop where
  acknowledged : (s.coordinator.retirementProgress topology e).1 = (acknowledgers topology e trace).card
  parties : (s.coordinator.retirementProgress topology e).2.1 = topology.mpcNodes.val.length
  complete : (s.coordinator.retirementProgress topology e).2.2 = true ↔
    ∀ party ∈ topology.parties, HasAcknowledged e trace party

theorem reportsExactly_iff : ReportsExactly topology e trace s ↔ s.coordinator.retirementProgress topology e =
    AckFile.progress topology.mpcNodes.val.length (.live (acknowledgers topology e trace)) := by
  constructor
  · rintro ⟨acknowledged, parties, complete⟩
    refine Prod.ext acknowledged (Prod.ext parties (Bool.eq_iff_iff.mpr ?_))
    rw [complete, all_acknowledged_iff]
    simp [AckFile.progress]
  · intro same
    refine ⟨by rw [same]; rfl, by rw [same]; rfl, ?_⟩
    rw [same, all_acknowledged_iff]
    simp [AckFile.progress]

theorem reportsExactly_of_live (filed : s.coordinator.Filed e (.live (acknowledgers topology e trace))) :
    ReportsExactly topology e trace s :=
  reportsExactly_iff.mpr filed.retirementProgress_eq

theorem reportsExactly_tombstone_iff (filed : s.coordinator.Filed e (.tombstone (acknowledgers topology e trace))) :
    ReportsExactly topology e trace s ↔ (acknowledgers topology e trace).card < topology.mpcNodes.val.length := by
  rw [reportsExactly_iff, filed.retirementProgress_eq]
  simp [AckFile.progress]

theorem reportsExactly_gone_iff (filed : s.coordinator.Filed e .gone) :
    ReportsExactly topology e trace s ↔ topology.mpcNodes.val.length ≤ (acknowledgers topology e trace).card := by
  have most := Finset.card_le_card (@acknowledgers_subset e trace topology)
  rw [topology.card_parties] at most
  rw [reportsExactly_iff, filed.retirementProgress_eq]
  simp only [AckFile.progress, Prod.mk.injEq, true_and]
  constructor
  · exact fun same => same.1.le
  · exact fun many => ⟨many.antisymm most, (decide_eq_true many).symm⟩

/-- What is on file for an execution in the course of a run. -/
structure Standing (topology : Topology) (e : ExecutionId)
    (trace : List (Transition CoordinatorBrowserState ServerEvent)) (s : CoordinatorBrowserState) : Prop where
  listed : TombstonesListed s
  registered : Registered e trace → ∃ file, s.coordinator.Filed e file ∧ file.Holds (acknowledgers topology e trace)
  unregistered : ¬ Registered e trace → s.coordinator.Filed e .gone

/-- An acknowledgement of a registered execution is filed, if anything still is. -/
theorem holds_of_refiled {file' : AckFile} (refiled : Refiled topology e τ.event file file')
    (registered : Registered e trace) (uncreated : file' = .live ∅ → file ≠ .gone)
    (holds : file.Holds (acknowledgers topology e trace)) : file'.Holds (acknowledgers topology e (trace ++ [τ])) := by
  generalize found : τ.event = event at refiled
  cases refiled with
  | kept aside =>
    subst found
    rwa [acknowledgers_append_of_ne aside]
  | created => exact absurd rfl (uncreated rfl)
  | sealed =>
    rw [acknowledgers_append_of_ne (by simp [found])]
    exact holds
  | forgotten => trivial
  | counted member =>
    rw [acknowledgers_append_retire member registered found]
    exact congrArg _ holds
  | noted member _ =>
    rw [acknowledgers_append_retire member registered found]
    exact congrArg _ holds
  | drained => trivial
  | late => trivial

/-- A step of a run in which an execution has been registered. -/
theorem Standing.refiled (standing : Standing listener.topology e trace τ.source)
    (once : RegisteredOnce e (trace ++ [τ])) (step : τ.source.Step listener τ.event τ.target)
    (registered : Registered e trace) :
    ∃ file file', τ.source.coordinator.Filed e file ∧ file.Holds (acknowledgers listener.topology e trace) ∧
      Refiled listener.topology e τ.event file file' ∧ τ.target.coordinator.Filed e file' ∧
      file'.Holds (acknowledgers listener.topology e (trace ++ [τ])) := by
  obtain ⟨file, filed, holds⟩ := standing.registered registered
  have unmade : τ.source.live e = none → τ.target.live e = none := once trace τ [] rfl registered
  obtain ⟨file', refiled, filed'⟩ := step.refiled standing.listed filed fun absent made => absurd (unmade absent) made
  refine ⟨file, file', filed, holds, refiled, filed', holds_of_refiled refiled registered ?_ holds⟩
  rintro rfl rfl
  cases filed with
  | gone absent _ =>
    cases filed' with
    | live here _ _ =>
      have still := unmade absent
      rw [live, here] at still
      cases still

/-- Before that, a step can only register it. -/
theorem Standing.refiled_first (standing : Standing listener.topology e trace τ.source)
    (step : τ.source.Step listener τ.event τ.target) (unregistered : ¬ Registered e trace) :
    τ.target.coordinator.Filed e .gone ∧ ¬ Registered e (trace ++ [τ]) ∨
      τ.target.coordinator.Filed e (.live (acknowledgers listener.topology e (trace ++ [τ]))) := by
  obtain ⟨file', refiled, filed'⟩ := step.refiled standing.listed (standing.unregistered unregistered) fun _ _ => rfl
  have unmade (filed : τ.target.coordinator.Filed e .gone) : ¬ Registered e (trace ++ [τ]) := by
    rw [registered_append]
    cases filed with
    | gone absent _ => simp [unregistered, live, absent]
  generalize found : τ.event = event at refiled
  cases refiled with
  | kept => exact .inl ⟨filed', unmade filed'⟩
  | late => exact .inl ⟨filed', unmade filed'⟩
  | created =>
    rw [acknowledgers_append_of_ne (by simp [found]), acknowledgers_of_unregistered unregistered]
    exact .inr filed'

theorem Standing.step (standing : Standing listener.topology e trace τ.source)
    (once : RegisteredOnce e (trace ++ [τ])) (step : τ.source.Step listener τ.event τ.target) :
    Standing listener.topology e (trace ++ [τ]) τ.target := by
  have listed := standing.listed.step step
  by_cases registered : Registered e trace
  · obtain ⟨_, file', _, _, _, filed', holds⟩ := standing.refiled once step registered
    exact ⟨listed, fun _ => ⟨file', filed', holds⟩,
      fun unregistered => absurd registered.append unregistered⟩
  · rcases standing.refiled_first step registered with ⟨filed', unregistered⟩ | filed'
    · exact ⟨listed, fun made => absurd made unregistered, fun _ => filed'⟩
    · have made : Registered e (trace ++ [τ]) := by
        cases filed' with
        | live here _ _ => exact registered_append.mpr (.inr (by simp [live, here]))
      exact ⟨listed, fun _ => ⟨_, filed', rfl⟩, fun unregistered => absurd made unregistered⟩

theorem standing_of_run {final : CoordinatorBrowserState} (run : Run (Step listener) start trace final)
    (once : RegisteredOnce e trace) : Standing listener.topology e trace final := by
  induction run with
  | start =>
    refine ⟨RetiredExecutions.Listed.empty, ?_, fun _ => .gone rfl rfl⟩
    rintro ⟨τ, member, _⟩
    cases member
  | next _ step ih => exact (ih once.of_append).step once step

/-- A registration drops an execution that all parties have acknowledged, or
forgets the tombstone of one that some have not. -/
def Misfiles (topology : Topology) (e : ExecutionId) (τ : Transition CoordinatorBrowserState ServerEvent) : Prop :=
  (∃ d, τ.source.live e = some d ∧ τ.target.live e = none ∧ topology.mpcNodes.val.length ≤ d.retirementAcks.card) ∨
    ∃ acks, τ.source.coordinator.retired.acks e = some acks ∧ τ.target.coordinator.retired.acks e = none ∧
      acks.card < topology.mpcNodes.val.length ∧ ∃ party registration order, τ.event = .register party registration order

theorem not_misfiles_of_gone (filed : τ.source.coordinator.Filed e .gone) : ¬ Misfiles topology e τ := by
  cases filed with
  | gone absent vacant => simp [Misfiles, live, absent, vacant]

theorem not_misfiles_of_live {acks acks' : Finset ClientIdentity} (filed : τ.source.coordinator.Filed e (.live acks))
    (filed' : τ.target.coordinator.Filed e (.live acks')) : ¬ Misfiles topology e τ := by
  cases filed with
  | live _ _ vacant =>
    cases filed' with
    | live here' _ _ => simp [Misfiles, live, here', vacant]

theorem not_misfiles_of_tombstone {acks acks' : Finset ClientIdentity}
    (filed : τ.source.coordinator.Filed e (.tombstone acks)) (filed' : τ.target.coordinator.Filed e (.tombstone acks')) :
    ¬ Misfiles topology e τ := by
  cases filed with
  | tombstone absent _ =>
    cases filed' with
    | tombstone _ held' => simp [Misfiles, live, absent, held']

theorem misfiles_sealed_iff {acks : Finset ClientIdentity} (filed : τ.source.coordinator.Filed e (.live acks))
    (filed' : τ.target.coordinator.Filed e (.tombstone acks)) :
    Misfiles topology e τ ↔ topology.mpcNodes.val.length ≤ acks.card := by
  cases filed with
  | live here given vacant =>
    cases filed' with
    | tombstone absent' _ => simp [Misfiles, live, here, given, vacant, absent']

theorem misfiles_forgotten_iff {acks : Finset ClientIdentity} (filed : τ.source.coordinator.Filed e (.tombstone acks))
    (filed' : τ.target.coordinator.Filed e .gone) : Misfiles topology e τ ↔
      acks.card < topology.mpcNodes.val.length ∧ ∃ party registration order, τ.event = .register party registration order := by
  cases filed with
  | tombstone absent held =>
    cases filed' with
    | gone _ vacant' => simp [Misfiles, live, absent, held, vacant']

/-- Only where an execution is misfiled does an exact report cease to be one. -/
theorem ReportsExactly.append_iff (standing : Standing listener.topology e trace τ.source)
    (once : RegisteredOnce e (trace ++ [τ])) (step : τ.source.Step listener τ.event τ.target)
    (registered : Registered e trace) (exactly : ReportsExactly listener.topology e trace τ.source) :
    ReportsExactly listener.topology e (trace ++ [τ]) τ.target ↔ ¬ Misfiles listener.topology e τ := by
  obtain ⟨file, file', filed, holds, refiled, filed', holds'⟩ := standing.refiled once step registered
  have more : (acknowledgers listener.topology e trace).card ≤ (acknowledgers listener.topology e (trace ++ [τ])).card :=
    Finset.card_le_card acknowledgers_mono
  generalize found : τ.event = event at refiled
  cases refiled with
  | kept aside =>
    subst found
    have same := @acknowledgers_append_of_ne e trace τ listener.topology aside
    cases file with
    | live acks =>
      obtain rfl := holds'
      exact iff_of_true (reportsExactly_of_live filed') (not_misfiles_of_live filed filed')
    | tombstone acks =>
      obtain rfl := holds
      rw [reportsExactly_tombstone_iff filed] at exactly
      rw [← same] at filed' exactly
      exact iff_of_true ((reportsExactly_tombstone_iff filed').mpr exactly) (not_misfiles_of_tombstone filed filed')
    | gone =>
      rw [reportsExactly_gone_iff filed] at exactly
      exact iff_of_true ((reportsExactly_gone_iff filed').mpr (exactly.trans more)) (not_misfiles_of_gone filed)
  | created => exact iff_of_true (reportsExactly_of_live (holds' ▸ filed')) (not_misfiles_of_gone filed)
  | sealed =>
    rw [misfiles_sealed_iff filed filed', Nat.not_le]
    obtain rfl := holds'
    exact reportsExactly_tombstone_iff filed'
  | forgotten =>
    obtain rfl := holds
    have few := (reportsExactly_tombstone_iff filed).mp exactly
    rw [reportsExactly_gone_iff filed', misfiles_forgotten_iff filed filed',
      acknowledgers_append_of_ne (by simp [found])]
    exact iff_of_false (Nat.not_le.mpr few) fun filedWell => filedWell ⟨few, _, _, _, found⟩
  | counted => exact iff_of_true (reportsExactly_of_live (holds' ▸ filed')) (not_misfiles_of_live filed filed')
  | noted _ few =>
    refine iff_of_true ?_ (not_misfiles_of_tombstone filed filed')
    rw [show insert _ _ = _ from holds'] at filed' few
    exact (reportsExactly_tombstone_iff filed').mpr few
  | @drained party acks member all =>
    obtain rfl := holds
    rw [reportsExactly_gone_iff filed', acknowledgers_append_retire member registered found,
      misfiles_forgotten_iff filed filed']
    refine iff_of_true all ?_
    rintro ⟨_, _, _, _, registers⟩
    rw [found] at registers
    cases registers
  | late =>
    rw [reportsExactly_gone_iff filed] at exactly
    exact iff_of_true ((reportsExactly_gone_iff filed').mpr (exactly.trans more)) (not_misfiles_of_gone filed)

/-- For an execution that is registered once, the reports of its retirement are
exact throughout a run if and only if no registration drops it after all parties
have acknowledged it, or forgets its tombstone before they have. Once complete
in such a run, it stays complete. -/
theorem retirement_progress_exact_iff {final : CoordinatorBrowserState} (run : Run (Step listener) start trace final)
    (once : RegisteredOnce e trace) :
    ((∀ before after s, trace = before ++ after → Run (Step listener) start before s → Registered e before →
        ReportsExactly listener.topology e before s) ↔
      ∀ τ ∈ trace, ¬ Misfiles listener.topology e τ) ∧
    ((∀ τ ∈ trace, ¬ Misfiles listener.topology e τ) →
      ∀ before after s, trace = before ++ after → Run (Step listener) start before s → Registered e before →
        (s.coordinator.retirementProgress listener.topology e).2.2 = true →
          (final.coordinator.retirementProgress listener.topology e).2.2 = true) := by
  have reports : (∀ before after s, trace = before ++ after → Run (Step listener) start before s → Registered e before →
      ReportsExactly listener.topology e before s) ↔ ∀ τ ∈ trace, ¬ Misfiles listener.topology e τ := by
    refine run.history_iff_of_closed (Q := RegisteredOnce e)
      (P := fun before s => Registered e before → ReportsExactly listener.topology e before s)
      (fun _ _ held => held.of_append) once ?_ ?_
    · rintro ⟨τ, member, _⟩
      cases member
    · intro before τ once first step exactly
      have standing := standing_of_run first once.of_append
      by_cases registered : Registered e before
      · rw [← ReportsExactly.append_iff standing once step registered (exactly registered)]
        exact ⟨fun given => given registered.append, fun given _ => given⟩
      · refine iff_of_true ?_ (not_misfiles_of_gone (standing.unregistered registered))
        rcases standing.refiled_first step registered with ⟨_, unregistered⟩ | filed
        · exact fun made => absurd made unregistered
        · exact fun _ => reportsExactly_of_live filed
  refine ⟨reports, fun guarded before after s same first registered complete => ?_⟩
  subst same
  have exactly := reports.mpr guarded
  have all := (exactly before after s rfl first registered).complete.mp complete
  refine (exactly (before ++ after) [] final (by simp) run registered.append).complete.mpr fun party member => ?_
  exact (all party member).append

theorem Step.registers (step : s.Step listener event s') (absent : s.live e = none) (here : (s'.live e).isSome = true) :
    ∃ party registration order, event = .register party registration order ∧ registration.executionId = e := by
  have seen := step.seen e
  rw [absent] at seen
  generalize s'.live e = target at seen here
  cases seen with
  | untouched => cases here
  | created registers named _ => exact ⟨_, _, _, registers, named⟩

theorem mem_registeredIds {registration : ExecutionRegistration} {order : List ExecutionId} (member : τ ∈ trace)
    (registers : τ.event = .register party registration order) (named : registration.executionId = e) :
    e ∈ registeredIds trace :=
  List.mem_filterMap.mpr ⟨τ.event, List.mem_map_of_mem member, by simp only [registers, named]⟩

theorem registered_of_live {final : CoordinatorBrowserState} (run : Run (Step listener) start trace final)
    (here : (final.live e).isSome = true) : Registered e trace := by
  rcases List.mem_cons.mp run.final_reached with rfl | target
  · simp [live, start, CoordinatorRPCServerSharedBase.new] at here
  · obtain ⟨τ, member, rfl⟩ := List.mem_map.mp target
    exact ⟨τ, member, here⟩

/-- An id that is live was registered. -/
theorem Registered.mem_registeredIds {final : CoordinatorBrowserState} (run : Run (Step listener) start trace final)
    (registered : Registered e trace) : e ∈ registeredIds trace := by
  obtain ⟨σ, member, here⟩ := registered
  obtain ⟨before, after, rfl, first, step, _⟩ := run.split member
  have absent : ¬ (start.live e).isSome = true := by simp [live, start, CoordinatorRPCServerSharedBase.new]
  obtain ⟨ρ, inside, away, present⟩ := (first.next step).exists_change (Q := fun s => (s.live e).isSome = true) absent here
  have listed : ρ ∈ before ++ σ :: after := by
    rw [← List.singleton_append, ← List.append_assoc]
    exact List.mem_append_left _ inside
  obtain ⟨party, registration, order, registers, named⟩ :=
    (run.taken_of_mem listed).registers (by simpa using away) present
  exact CoordinatorBrowserState.mem_registeredIds listed registers named

theorem registeredOnce_of_nodup {final : CoordinatorBrowserState} (run : Run (Step listener) start trace final)
    (distinct : (registeredIds trace).Nodup) : RegisteredOnce e trace := by
  intro before τ after same registered absent
  obtain ⟨first, step, _⟩ := run.split_at same
  by_contra present
  obtain ⟨party, registration, order, registers, named⟩ := step.registers absent (Option.isSome_iff_ne_none.mpr present)
  rw [same, registeredIds_append] at distinct
  exact List.disjoint_of_nodup_append distinct (registered.mem_registeredIds first)
    (mem_registeredIds (List.mem_cons_self ..) registers named)

/-- Only a registration misfiles an execution, and one that is on file. -/
theorem not_misfiles_of_step (step : τ.source.Step listener τ.event τ.target)
    (spared : ∀ party registration order, τ.event = .register party registration order →
      τ.source.live e = none ∧ τ.source.coordinator.retired.acks e = none) : ¬ Misfiles topology e τ := by
  rintro (⟨d, here, gone, _⟩ | ⟨acks, held, _, _, party, registration, order, registers⟩)
  · have seen := step.seen e
    rw [here, gone] at seen
    cases seen with
    | dropped registers _ =>
      rw [(spared _ _ _ registers).1] at here
      cases here
  · rw [(spared _ _ _ registers).2] at held
    cases held

/-- The condition on registrations, as it can be checked by evaluation. -/
def checksUnfiled (e : ExecutionId) (s : CoordinatorBrowserState) : ServerEvent → Bool
  | .register _ _ _ => (s.live e).isNone && (s.coordinator.retired.acks e).isNone
  | _ => true

open Scenario in
/-- A party retires the execution it registered, and completes it. -/
theorem retirement_progress_exact_iff_of_lone_party :
    ∃ trace final, Run (Step .recorded) start trace final ∧
      trace.map Transition.event = [.register [1] (.unassigned 0 []) [], .retire [1] execution] ∧
      RegisteredOnce execution trace ∧ ReportsExactly (.lone [1]) execution trace final ∧
      final.coordinator.retirementProgress (.lone [1]) execution = (1, 1, true) := by
  obtain ⟨trace, final, run, events, seen, checked⟩ := exists_run_of_events .recorded
    [.register [1] (.unassigned 0 []) [], .retire [1] execution] (checksUnfiled execution)
    (fun s => ((s.live execution).isSome, s.coordinator.retirementProgress (.lone [1]) execution)) (true, 1, 1, true)
    (by decide +kernel)
  obtain ⟨here, progress⟩ := Prod.mk.inj seen
  have once : RegisteredOnce execution trace := by
    refine registeredOnce_of_nodup run ?_
    rw [registeredIds, events]
    decide
  have guarded : ∀ τ ∈ trace, ¬ Misfiles (.lone [1]) execution τ := fun τ member => by
    refine not_misfiles_of_step (run.taken_of_mem member) fun party registration order registers => ?_
    have unfiled := checked τ member
    rw [registers, checksUnfiled, Bool.and_eq_true, Option.isNone_iff_eq_none, Option.isNone_iff_eq_none] at unfiled
    exact unfiled
  have exactly := (retirement_progress_exact_iff run once).1.mpr guarded trace [] final (by simp) run
    (registered_of_live run here)
  exact ⟨trace, final, run, events, once, exactly, progress⟩

/-- What is on file for an execution shows who has acknowledged it. -/
theorem acknowledgers_of_filed {final : CoordinatorBrowserState} {acks : Finset ClientIdentity}
    (run : Run (Step listener) start trace final) (once : RegisteredOnce e trace)
    (filed : final.coordinator.Filed e (.live acks) ∨ final.coordinator.Filed e (.tombstone acks)) :
    Registered e trace ∧ acknowledgers listener.topology e trace = acks := by
  have standing := standing_of_run run once
  have registered : Registered e trace := by
    by_contra unregistered
    have gone := standing.unregistered unregistered
    rcases filed with here | held
    · cases here.unique gone
    · cases held.unique gone
  obtain ⟨file, found, holds⟩ := standing.registered registered
  refine ⟨registered, ?_⟩
  rcases filed with here | held
  · obtain rfl := here.unique found
    exact holds.symm
  · obtain rfl := held.unique found
    exact holds.symm

/-- A party that is alone acknowledges an execution, which is then reported as
complete, and after it was dropped as not complete. With three parties, one that
two have acknowledged is reported as complete once its tombstone is forgotten. -/
theorem retirement_progress_misreported :
    (∃ trace τ, Run (Step .recorded) start (trace ++ [τ]) τ.target ∧ RegisteredOnce (.numbered 0) (trace ++ [τ]) ∧
      HasAcknowledged (.numbered 0) trace [1] ∧
      τ.source.coordinator.retirementProgress (.lone [1]) (.numbered 0) = (1, 1, true) ∧
      τ.target.coordinator.retirementProgress (.lone [1]) (.numbered 0) = (1, 1, false)) ∧
    ∃ trace final, Run (Step { CoordinatorListener.recorded with topology := .trio }) start trace final ∧
      RegisteredOnce (.numbered 0) trace ∧ Registered (.numbered 0) trace ∧ ¬ HasAcknowledged (.numbered 0) trace [1] ∧
      final.coordinator.retirementProgress .trio (.numbered 0) = (3, 3, true) := by
  constructor
  · obtain ⟨trace, τ, shared, running, replaced, _, distinct, worn, ripe, after⟩ :=
      exists_run_replacing (isParty_of_mem_lone [1] (by simp)) isParty_of_mem_lone (by decide) (Nat.zero_le _)
    have run := running.mono fun _ _ _ step => step.1
    have once := registeredOnce_of_nodup (e := .numbered 0) (run.next replaced.1) distinct
    have filed : τ.source.coordinator.Filed (.numbered 0) (.live {[1]}) := by
      refine .live ripe.first rfl ?_
      rw [ripe.retired, worn.acks 0 (by decide), if_neg (lt_irrefl 0)]
    have later := worn.next ripe (by decide)
    have filed' : τ.target.coordinator.Filed (.numbered 0) (.tombstone {[1]}) := by
      rw [after]
      refine .tombstone ?_ ?_
      · rw [later.slots 0 (by decide), if_neg (by simp)]
      · rw [later.acks 0 (by decide), if_pos (by decide)]
        rfl
    obtain ⟨_, acknowledged⟩ := acknowledgers_of_filed run once.of_append (.inl filed)
    refine ⟨trace, τ, run.next replaced.1, once, ?_, filed.retirementProgress_eq, filed'.retirementProgress_eq⟩
    exact (mem_acknowledgers.mp (acknowledged.symm ▸ Finset.mem_singleton_self [1])).2
  · let listener : CoordinatorListener := { CoordinatorListener.recorded with topology := .trio }
    have members : ∀ party ∈ ([[2], [3]] : List ClientIdentity), listener.topology.isParty party = true := by decide
    obtain ⟨trace, τ, shared, running, replaced, ⟨order, registers⟩, distinct, worn, ripe, after⟩ :=
      exists_run_replacing (members [2] (by simp)) members (by decide) (le_refl defaultMaxRetiredExecutions)
    have run := running.mono fun _ _ _ step => step.1
    have once := registeredOnce_of_nodup (e := .numbered 0) (run.next replaced.1) distinct
    have filed : τ.source.coordinator.Filed (.numbered 0) (.tombstone {[2], [3]}) := by
      refine .tombstone ?_ ?_
      · rw [ripe.others _ (ExecutionId.numbered_ne_zeroth (by decide) (by decide)).symm, worn.slots 0 (by decide),
          if_neg fun inside => absurd inside.1 (by decide)]
      · rw [ripe.retired, worn.acks 0 (by decide), if_pos (by decide)]
        rfl
    have filed' : τ.target.coordinator.Filed (.numbered 0) .gone := by
      rw [after]
      exact .gone (worn.forgets ripe).1 (worn.forgets ripe).2
    obtain ⟨registered, acknowledged⟩ := acknowledgers_of_filed run once.of_append (.inr filed)
    refine ⟨trace ++ [τ], _, run.next replaced.1, once, registered.append, ?_, filed'.retirementProgress_eq⟩
    rw [hasAcknowledged_append]
    rintro (old | ⟨_, retires⟩)
    · have member : [1] ∈ acknowledgers listener.topology (.numbered 0) trace := mem_acknowledgers.mpr ⟨by decide, old⟩
      rw [acknowledged] at member
      exact absurd member (by decide)
    · rw [registers] at retires
      cases retires

end History

end CoordinatorBrowserState

end MpcCoordinator
