import MpcCoordinator.Server.Crowded
import MpcCoordinator.Browser.Provenance
import MpcCoordinator.Execution.Outputs

namespace MpcCoordinator

namespace RetiredExecutions

variable {retired : RetiredExecutions} {e executionId : ExecutionId}

/-- While there is room, a tombstone is added and none is forgotten. -/
theorem sealExecution_of_room (acks : Finset ClientIdentity) (fresh : retired.acks executionId = none)
    (room : retired.order.length < defaultMaxRetiredExecutions) :
    retired.sealExecution executionId acks = ⟨retired.acks.insert executionId acks, retired.order ++ [executionId]⟩ := by
  simp only [sealExecution, fresh, Option.isNone_none, if_true]
  cases known : retired.order with
  | nil => simp [trim, defaultMaxRetiredExecutions]
  | cons oldest rest =>
    rw [known, List.length_cons] at room
    rw [List.cons_append, trim, if_neg]
    simp only [List.length_append, List.length_singleton]
    omega

/-- A full list of tombstones makes room by forgetting the oldest. -/
theorem sealExecution_of_full (acks : Finset ClientIdentity) (fresh : retired.acks executionId = none)
    {oldest : ExecutionId} {rest : List ExecutionId} (known : retired.order = oldest :: rest)
    (full : retired.order.length = defaultMaxRetiredExecutions) :
    retired.sealExecution executionId acks =
      ⟨(retired.acks.insert executionId acks).erase oldest, rest ++ [executionId]⟩ := by
  rw [known, List.length_cons] at full
  simp only [sealExecution, fresh, Option.isNone_none, if_true, known, List.cons_append, trim, List.length_append,
    List.length_singleton]
  rw [if_pos (by omega)]
  cases rest with
  | nil => simp [trim, defaultMaxRetiredExecutions]
  | cons second others =>
    rw [List.cons_append, trim, if_neg]
    rw [List.length_cons] at full
    simp only [List.length_append, List.length_singleton]
    omega

/-- The order lists the tombstones, each once, and they fit. -/
structure Listed (retired : RetiredExecutions) : Prop where
  mem_iff : ∀ e, e ∈ retired.order ↔ (retired.acks e).isSome = true
  nodup : retired.order.Nodup
  length_le : retired.order.length ≤ defaultMaxRetiredExecutions

theorem Listed.empty : Listed .empty := ⟨by simp [RetiredExecutions.empty], by simp [RetiredExecutions.empty],
  by simp [RetiredExecutions.empty]⟩

/-- A tombstone that is there already is written over in its place. -/
theorem Listed.sealExecution_of_held (listed : Listed retired) (acks : Finset ClientIdentity)
    (held : executionId ∈ retired.order) :
    retired.sealExecution executionId acks = ⟨retired.acks.insert executionId acks, retired.order⟩ := by
  have known : (retired.acks executionId).isNone = false := by
    rw [← Option.not_isSome, (listed.mem_iff executionId).mp held]
    rfl
  have fits := listed.length_le
  simp only [sealExecution, known, Bool.false_eq_true, if_false]
  cases order : retired.order with
  | nil => rfl
  | cons oldest rest =>
    rw [order, List.length_cons] at fits
    rw [trim, if_neg (by omega)]

theorem Listed.fresh (listed : Listed retired) (unheld : executionId ∉ retired.order) :
    retired.acks executionId = none := by
  simpa using mt (listed.mem_iff executionId).mpr unheld

/-- What sealing an execution can do: its tombstone is written over, or added, or
takes the place of the oldest one. -/
inductive Sealed (retired : RetiredExecutions) (executionId : ExecutionId) (acks : Finset ClientIdentity) :
    RetiredExecutions → Prop
  | held : executionId ∈ retired.order →
      Sealed retired executionId acks ⟨retired.acks.insert executionId acks, retired.order⟩
  | added : executionId ∉ retired.order → retired.order.length < defaultMaxRetiredExecutions →
      Sealed retired executionId acks ⟨retired.acks.insert executionId acks, retired.order ++ [executionId]⟩
  | replaced {oldest rest} : executionId ∉ retired.order → retired.order = oldest :: rest →
      retired.order.length = defaultMaxRetiredExecutions →
      Sealed retired executionId acks ⟨(retired.acks.insert executionId acks).erase oldest, rest ++ [executionId]⟩

theorem Listed.sealed (listed : Listed retired) (executionId : ExecutionId) (acks : Finset ClientIdentity) :
    Sealed retired executionId acks (retired.sealExecution executionId acks) := by
  by_cases held : executionId ∈ retired.order
  · rw [listed.sealExecution_of_held acks held]
    exact .held held
  have fresh := listed.fresh held
  rcases Nat.lt_or_eq_of_le listed.length_le with room | full
  · rw [sealExecution_of_room acks fresh room]
    exact .added held room
  · cases known : retired.order with
    | nil => simp [known, defaultMaxRetiredExecutions] at full
    | cons oldest rest =>
      rw [sealExecution_of_full acks fresh known full]
      exact .replaced held known full

theorem Listed.sealExecution (listed : Listed retired) (executionId : ExecutionId) (acks : Finset ClientIdentity) :
    Listed (retired.sealExecution executionId acks) := by
  have members (e : ExecutionId) :
      e ∈ retired.order ++ [executionId] ↔ ((retired.acks.insert executionId acks) e).isSome = true := by
    rw [Table.insert_apply, List.mem_append, List.mem_singleton]
    by_cases here : e = executionId
    · simp [here]
    · simp [here, listed.mem_iff]
  have distinct (unheld : executionId ∉ retired.order) : (retired.order ++ [executionId]).Nodup := by
    rw [List.nodup_append]
    refine ⟨listed.nodup, List.nodup_singleton _, ?_⟩
    rintro e old _ new rfl
    exact unheld (List.mem_singleton.mp new ▸ old)
  have sealed := listed.sealed executionId acks
  generalize retired.sealExecution executionId acks = after at sealed ⊢
  cases sealed with
  | held held =>
    refine ⟨fun e => ?_, listed.nodup, listed.length_le⟩
    dsimp only
    rw [Table.insert_apply, listed.mem_iff]
    by_cases here : e = executionId
    · simp [here, (listed.mem_iff executionId).mp held]
    · simp [here]
  | added unheld room => exact ⟨members, distinct unheld, by simpa using Nat.succ_le_of_lt room⟩
  | @replaced oldest rest unheld known full =>
    have distinct := distinct unheld
    rw [known, List.cons_append] at members distinct
    obtain ⟨absent, distinct⟩ := List.nodup_cons.mp distinct
    refine ⟨fun e => ?_, distinct, ?_⟩
    · dsimp only
      rw [Table.erase_apply]
      by_cases here : e = oldest
      · simpa [here] using absent
      · rw [if_neg here, ← members e, List.mem_cons, or_iff_right here]
    · rw [known, List.length_cons] at full
      rw [List.length_append, List.length_singleton]
      omega

/-- The tombstone of an execution is forgotten when one is added: it is the
oldest of as many as are kept. -/
def isForgotten (retired : RetiredExecutions) (executionId : ExecutionId) : Bool :=
  decide (retired.order.length = defaultMaxRetiredExecutions) && decide (retired.order.head? = some executionId)

theorem Listed.acks_sealExecution_none_iff (listed : Listed retired) (acks : Finset ClientIdentity)
    (fresh : retired.acks executionId = none) (different : e ≠ executionId) :
    (retired.sealExecution executionId acks).acks e = none ↔ retired.acks e = none ∨ retired.isForgotten e = true := by
  have sealed := listed.sealed executionId acks
  generalize retired.sealExecution executionId acks = after at sealed ⊢
  cases sealed with
  | held held =>
    rw [listed.mem_iff, fresh] at held
    cases held
  | added _ room =>
    simp only [Table.insert_of_ne _ _ different, isForgotten, Nat.ne_of_lt room, decide_false, Bool.false_and,
      Bool.false_eq_true, or_false]
  | @replaced oldest rest _ known full =>
    have head : retired.isForgotten e = decide (oldest = e) := by
      rw [isForgotten, decide_eq_true full, Bool.true_and, known, List.head?_cons]
      simp
    dsimp only
    rw [head, decide_eq_true_iff, Table.erase_apply]
    by_cases here : e = oldest
    · simp [here]
    · rw [if_neg here, Table.insert_of_ne _ _ different, or_iff_left (Ne.symm here)]

/-- An acknowledgement changes no other tombstone. -/
theorem acks_acknowledge_of_ne {party : ClientIdentity} {n : Nat} (different : e ≠ executionId) :
    (retired.acknowledge executionId party n).2.acks e = retired.acks e := by
  unfold acknowledge
  split
  · rfl
  · dsimp only
    split
    · exact Table.erase_of_ne _ different
    · exact Table.insert_of_ne _ _ different

/-- An acknowledgement never adds a tombstone. -/
theorem acks_acknowledge_none {party : ClientIdentity} {n : Nat} (absent : retired.acks e = none) :
    (retired.acknowledge executionId party n).2.acks e = none := by
  by_cases own : e = executionId
  · subst own
    simp only [acknowledge, absent]
  · rw [acks_acknowledge_of_ne own, absent]

theorem Listed.acknowledge (listed : Listed retired) (executionId : ExecutionId) (party : ClientIdentity) (n : Nat) :
    Listed (retired.acknowledge executionId party n).2 := by
  unfold RetiredExecutions.acknowledge
  split
  · exact listed
  rename_i acks held
  dsimp only
  split
  · refine ⟨fun e => ?_, listed.nodup.filter _, (List.length_filter_le _ _).trans listed.length_le⟩
    dsimp only
    rw [Table.erase_apply, List.mem_filter, listed.mem_iff]
    by_cases here : e = executionId <;> simp [here]
  · refine ⟨fun e => ?_, listed.nodup, listed.length_le⟩
    dsimp only
    rw [Table.insert_apply, listed.mem_iff]
    by_cases here : e = executionId
    · simp [here, held]
    · simp [here]

end RetiredExecutions

namespace CoordinatorRPCServerSharedBase

variable {topology : Topology} {shared : CoordinatorRPCServerSharedBase} {registration : ExecutionRegistration}
  {order : List ExecutionId} {e : ExecutionId}

/-- An execution that loses its slot is one that may, at full capacity. -/
theorem evicted_some (gone : shared.evicted topology registration order = some e) :
    shared.executions.lookup registration.executionId = none ∧
      defaultMaxConcurrentExecutions ≤ shared.executions.keys.card ∧ shared.evictable topology e = true ∧
      shared.makeRoom topology order = some (shared.evict e) := by
  unfold evicted at gone
  split at gone
  · cases gone
  · rename_i full
    obtain ⟨missing, full⟩ := not_or.mp full
    refine ⟨Finmap.lookup_eq_none.mpr missing, Nat.le_of_not_lt full, List.find?_some gone, ?_⟩
    rw [makeRoom, if_neg full, gone]
    rfl

/-- There is room for a new id while a slot is free or can be freed. -/
theorem makeRoom_isSome : (shared.makeRoom topology order).isSome = true ↔
    shared.executions.keys.card < defaultMaxConcurrentExecutions ∨ ∃ e ∈ order, shared.evictable topology e = true := by
  unfold makeRoom
  split
  · rename_i free
    exact iff_of_true rfl (Or.inl free)
  · rename_i full
    rw [Option.isSome_map, List.find?_isSome, or_iff_right full]

/-- Nothing is dropped to make room for a registration. -/
def KeepsAll (topology : Topology) (shared : CoordinatorRPCServerSharedBase) (order : List ExecutionId) : Prop :=
  shared.executions.keys.card < defaultMaxConcurrentExecutions ∨ ∀ e ∈ order, shared.evictable topology e = false

theorem KeepsAll.makeRoom_cases (keeps : KeepsAll topology shared order) :
    shared.makeRoom topology order = some shared ∨ shared.makeRoom topology order = none := by
  rw [makeRoom]
  rcases keeps with free | kept
  · exact Or.inl (if_pos free)
  · split
    · exact Or.inl rfl
    · rw [List.find?_eq_none.mpr (by simpa using kept)]
      exact Or.inr rfl

/-- The call changed neither the executions nor the tombstones. -/
structure Unchanged (shared after : CoordinatorRPCServerSharedBase) : Prop where
  executions : after.executions = shared.executions
  retired : after.retired = shared.retired

theorem evict_changes {d : CoordinatorExecutionState} (live : shared.executions.lookup e = some d) :
    ¬ Unchanged shared (shared.evict e) := by
  intro unchanged
  have gone : (shared.evict e).executions.lookup e = none := lookup_evict_self live
  rw [unchanged.executions, live] at gone
  cases gone

section Registration

variable {registration : ExecutionRegistration} {d : CoordinatorExecutionState} {reply : Except CoordinatorError Unit}
  {refusal : CoordinatorError} {after : CoordinatorRPCServerSharedBase}

/-- A call for an id that is live changes nothing, and succeeds for the same metadata only. -/
theorem registerExecution_live (known : shared.executions.lookup registration.executionId = some d)
    (called : shared.registerExecution topology registration order = (reply, after)) :
    after = shared ∧ (reply = .ok () → d.registration = registration) := by
  simp only [registerExecution, known] at called
  split at called
  · rename_i same
    cases called
    exact ⟨rfl, fun _ => same⟩
  · cases called
    refine ⟨rfl, ?_⟩
    rintro ⟨⟩

theorem refused_unchanged (absent : shared.executions.lookup registration.executionId = none)
    (spared : KeepsAll topology shared order ∨ ∃ d, CoordinatorExecutionState.new registration topology.n = .ok d)
    (called : shared.registerExecution topology registration order = (.error refusal, after)) : Unchanged shared after := by
  rw [registerExecution_eq absent] at called
  split at called
  · cases called
    exact ⟨rfl, rfl⟩
  · rename_i room made
    unfold enroll at called
    split at called
    · rename_i checked
      cases called
      rcases spared with keeps | ⟨d, valid⟩
      · rcases keeps.makeRoom_cases with same | crowded
        · rw [Option.some.inj (made.symm.trans same)]
          exact ⟨rfl, rfl⟩
        · rw [crowded] at made
          cases made
      · rw [checked] at valid
        cases valid
    · cases called

/-- The room is made before the checks run. -/
theorem refused_changes (absent : shared.executions.lookup registration.executionId = none)
    (drops : ¬ KeepsAll topology shared order)
    (checked : CoordinatorExecutionState.new registration topology.n = .error refusal) :
    ∃ after, shared.registerExecution topology registration order = (.error refusal, after) ∧
      ¬ Unchanged shared after := by
  simp only [KeepsAll, not_or, not_forall, Bool.not_eq_false] at drops
  obtain ⟨full, e, listed, candidate⟩ := drops
  obtain ⟨gone, found⟩ := Option.isSome_iff_exists.mp (List.find?_isSome.mpr ⟨e, listed, candidate⟩)
  obtain ⟨d, live, _⟩ := evictable_live (List.find?_some found)
  have made : shared.makeRoom topology order = some (shared.evict gone) := by simp [makeRoom, full, found]
  refine ⟨shared.evict gone, ?_, evict_changes live⟩
  rw [registerExecution_eq absent, made]
  simp only [enroll, checked]

end Registration

/-- A registration that is refused leaves executions and tombstones alone, and
one that is repeated does too, exactly when its metadata passes the checks or no
other execution is dropped for it. -/
theorem refused_registration_unchanged_iff (topology : Topology) (shared : CoordinatorRPCServerSharedBase)
    (registration : ExecutionRegistration) (order : List ExecutionId) :
    (∀ reply after, shared.registerExecution topology registration order = (reply, after) →
      (∀ refusal, reply = .error refusal → Unchanged shared after) ∧
      ∀ d, reply = .ok () → shared.executions.lookup registration.executionId = some d →
        after = shared ∧ d.registration = registration) ↔
    (shared.executions.lookup registration.executionId).isSome = true ∨ KeepsAll topology shared order ∨
      ∃ d, CoordinatorExecutionState.new registration topology.n = .ok d := by
  constructor
  · intro unchanged
    cases known : shared.executions.lookup registration.executionId with
    | some existing => exact Or.inl rfl
    | none =>
      refine Or.inr ?_
      by_contra neither
      rw [not_or] at neither
      obtain ⟨drops, invalid⟩ := neither
      cases checked : CoordinatorExecutionState.new registration topology.n with
      | ok d => exact invalid ⟨d, checked⟩
      | error refusal =>
        obtain ⟨after, called, changed⟩ := refused_changes known drops checked
        exact changed ((unchanged _ after called).1 refusal rfl)
  · intro spared reply after called
    cases known : shared.executions.lookup registration.executionId with
    | some existing =>
      obtain ⟨rfl, repeated⟩ := registerExecution_live known called
      refine ⟨fun _ _ => ⟨rfl, rfl⟩, ?_⟩
      rintro d accepted ⟨⟩
      exact ⟨rfl, repeated accepted⟩
    | none =>
      rw [known] at spared
      constructor
      · rintro refusal rfl
        exact refused_unchanged known (spared.resolve_left (by simp)) called
      · rintro d _ ⟨⟩

end CoordinatorRPCServerSharedBase

/-- A registration whose program hash is zero. -/
def ExecutionRegistration.hashless (k : Nat) : ExecutionRegistration :=
  { ExecutionRegistration.blank k with programHash := Vector.replicate 32 0 }

theorem new_hashless (n : UInt64) {k : Nat} (small : k < 65535) :
    CoordinatorExecutionState.new (.hashless k) n = .error (.jsonError "program hash must be nonzero") := by
  have id : (ExecutionRegistration.hashless k).executionId = .numbered k := rfl
  have hash : (ExecutionRegistration.hashless k).programHash = Vector.replicate 32 0 := rfl
  simp [CoordinatorExecutionState.new, id, hash, ExecutionId.numbered_not_zero small]

namespace CoordinatorBrowserState

theorem isParty_of_mem_lone :
    ∀ party ∈ ([[1]] : List ClientIdentity), CoordinatorListener.recorded.topology.isParty party = true := by
  decide

/-- The only node of a full coordinator is done with the execution in the first slot. -/
theorem exists_run_finished : ∃ trace shared,
    Run (RosterStep .recorded) start trace { start with coordinator := shared } ∧
    Crowded ((CoordinatorExecutionState.fresh (.blank 0)).acknowledgeRetirement [1]) shared := by
  obtain ⟨first, shared, filling, full⟩ := exists_run_crowded (isParty_of_mem_lone [1] (by simp)) rfl
    (new_blank (.lone [1]) (by decide : 0 < 65535))
  obtain ⟨rest, drained, retiring, crowded⟩ :=
    exists_run_drained (s := { start with coordinator := shared }) isParty_of_mem_lone full
  exact ⟨_, drained, filling.append retiring, crowded⟩

/-- A registration with a zero program hash is refused, and the execution that
was dropped to make room for it is gone. -/
theorem refused_registration_drops_execution :
    ∃ trace s order after, Run (Step .recorded) start trace s ∧ order.toFinset = s.coordinator.executions.keys ∧
      (s.live (.numbered 0)).isSome = true ∧
      s.coordinator.registerExecution (.lone [1]) (.hashless defaultMaxConcurrentExecutions) order =
        (.error (.jsonError "program hash must be nonzero"), after) ∧
      after.executions.lookup (.numbered 0) = none ∧ after.retired.acks (.numbered 0) = some {[1]} := by
  obtain ⟨trace, drained, run, crowded⟩ := exists_run_finished
  have candidate : drained.evictable (.lone [1]) (.numbered 0) = true := crowded.evictable (by decide)
  obtain ⟨order, listed, found⟩ := CoordinatorRPCServerSharedBase.exists_order candidate
  refine ⟨_, _, order, drained.evict (.numbered 0), run.mono fun _ _ _ step => step.1, listed, ?_, ?_,
    CoordinatorRPCServerSharedBase.lookup_evict_self crowded.first, ?_⟩
  · simp only [live, crowded.first, Option.isSome_some]
  · rw [CoordinatorRPCServerSharedBase.registerExecution_eq crowded.absent, CoordinatorRPCServerSharedBase.makeRoom,
      crowded.full, if_neg (lt_irrefl _), found]
    simp only [Option.map_some, CoordinatorRPCServerSharedBase.enroll]
    rw [new_hashless _ (by decide : defaultMaxConcurrentExecutions < 65535)]
  · simp only [CoordinatorRPCServerSharedBase.evict, crowded.first, crowded.retired]
    rw [RetiredExecutions.sealExecution_of_room _ rfl (by decide)]
    rfl

variable {listener : CoordinatorListener} {s : CoordinatorBrowserState} {party : ClientIdentity}
  {d : CoordinatorExecutionState}

/-- The execution in the first slot makes room for another. -/
theorem exists_step_dropping (idle : s.inFlight = []) (member : listener.topology.isParty party = true)
    (crowded : Crowded d s.coordinator) (quorum : listener.topology.retirementQuorum.toNat ≤ d.retirementAcks.card) :
    ∃ order shared,
      s.RosterStep listener (.register party (.blank defaultMaxConcurrentExecutions) order) { s with coordinator := shared } ∧
      shared.executions.keys.card = defaultMaxConcurrentExecutions ∧ shared.executions.lookup (.numbered 0) = none ∧
      (∃ d', shared.executions.lookup (.numbered 1) = some d') ∧
      shared.retired = ⟨Table.empty.insert (.numbered 0) d.retirementAcks, [.numbered 0]⟩ ∧
      shared.oneOffExecution = none := by
  have absent : s.live (ExecutionRegistration.blank defaultMaxConcurrentExecutions).executionId = none := crowded.absent
  obtain ⟨order, _, replaced⟩ := exists_step_replacing idle member absent crowded.full (crowded.evictable quorum)
    (new_blank listener.topology (by decide))
  refine ⟨order, _, replaced, ?_, ?_, crowded.second.imp fun d' second => ?_, ?_, ?_⟩
  · rw [CoordinatorRPCServerSharedBase.card_keys_replace crowded.first absent, crowded.full]
  · rw [CoordinatorRPCServerSharedBase.lookup_put_of_ne, CoordinatorRPCServerSharedBase.lookup_evict_self crowded.first]
    exact (ExecutionId.numbered_ne_zeroth (by decide) (by decide)).symm
  · rw [CoordinatorRPCServerSharedBase.lookup_put_of_ne,
      CoordinatorRPCServerSharedBase.lookup_evict_of_ne (ExecutionId.numbered_ne_zeroth (by decide) (by decide)), second]
    intro same
    have same := ExecutionId.numbered_inj (by decide) (by decide) same
    cases same
  · simp only [CoordinatorRPCServerSharedBase.put, CoordinatorRPCServerSharedBase.evict, crowded.first, crowded.retired]
    exact RetiredExecutions.sealExecution_of_room _ rfl (by decide)
  · simp only [CoordinatorRPCServerSharedBase.put, CoordinatorRPCServerSharedBase.evict, crowded.first, crowded.unwatched]

/-- The id of an execution that was dropped can be registered anew, while its
tombstone is still there. -/
theorem exists_run_reused {parties : List ClientIdentity} {again : ExecutionRegistration}
    (idle : s.inFlight = []) (member : listener.topology.isParty party = true)
    (members : ∀ party ∈ parties, listener.topology.isParty party = true) (crowded : Crowded d s.coordinator)
    (quorum : listener.topology.retirementQuorum.toNat ≤ d.retirementAcks.card)
    (enough : listener.topology.retirementQuorum.toNat ≤ parties.toFinset.card)
    (named : again.executionId = .numbered 0)
    (admitted : CoordinatorExecutionState.new again listener.topology.n = .ok (.fresh again)) :
    ∃ trace shared, Run (RosterStep listener) s trace { s with coordinator := shared } ∧
      shared.executions.lookup (.numbered 0) = some (.fresh again) ∧
      shared.retired.acks (.numbered 0) = some d.retirementAcks := by
  have apart : ExecutionId.numbered 1 ≠ .numbered 0 := ExecutionId.numbered_ne_zeroth (by decide) (by decide)
  obtain ⟨order, shared, dropping, full, gone, ⟨d', second⟩, sealed, unwatched⟩ :=
    exists_step_dropping idle member crowded quorum
  -- then the execution in the second slot makes room for the first id
  have unsealed : shared.retired.acks (.numbered 1) = none := by
    simp only [sealed]
    rw [Table.insert_of_ne _ _ apart]
    rfl
  obtain ⟨rest, drained, retiring, keys, here, others, retired, still, _⟩ :=
    exists_run_retired (s := { s with coordinator := shared }) members second unsealed
  have candidate : drained.evictable listener.topology (.numbered 1) = true := by
    simp only [CoordinatorRPCServerSharedBase.evictable, here, still, unwatched]
    simpa using enough.trans (Finset.card_le_card Finset.subset_union_right)
  obtain ⟨_, _, replaced⟩ := exists_step_replacing (s := { s with coordinator := drained }) idle member
    (by rw [live, named, others _ apart.symm, gone]) (by rw [keys, full]) candidate admitted
  refine ⟨_, _, (Run.start.next dropping).append (retiring.next replaced), ?_, ?_⟩
  · rw [named]
    exact CoordinatorRPCServerSharedBase.lookup_put_self _
  · simp only [CoordinatorRPCServerSharedBase.put, CoordinatorRPCServerSharedBase.evict, here, retired]
    rw [RetiredExecutions.sealExecution_of_room _ unsealed (by simp [sealed, defaultMaxRetiredExecutions])]
    simp only [sealed]
    rw [Table.insert_of_ne _ _ apart.symm, Table.insert_self]

end CoordinatorBrowserState

end MpcCoordinator
