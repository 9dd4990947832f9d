import MpcCoordinator.Browser.Projection

namespace MpcCoordinator

namespace ExecutionId

/-- Execution ids by number, low byte first. -/
def numbered (k : Nat) : ExecutionId :=
  ⟨Vector.ofFn fun i : Fin 32 =>
    if i.val = 0 then UInt8.ofNat (k + 1) else if i.val = 1 then UInt8.ofNat ((k + 1) / 256) else 0⟩

theorem numbered_low (k : Nat) : (numbered k).bytes[0].toNat = (k + 1) % 256 := by
  simp only [numbered, Vector.getElem_ofFn]
  exact UInt8.toNat_ofNat'

theorem numbered_high (k : Nat) : (numbered k).bytes[1].toNat = (k + 1) / 256 % 256 := by
  simp only [numbered, Vector.getElem_ofFn]
  exact UInt8.toNat_ofNat'

theorem numbered_inj {j k : Nat} (small : j < 65535) (little : k < 65535) (same : numbered j = numbered k) : j = k := by
  have low := numbered_low j
  have high := numbered_high j
  rw [same, numbered_low] at low
  rw [same, numbered_high] at high
  omega

theorem nodup_numbered {m : Nat} (small : m < 65535) : ((List.range m).map numbered).Nodup := by
  refine List.Nodup.map_on ?_ List.nodup_range
  intro j inside k within same
  rw [List.mem_range] at inside within
  exact numbered_inj (inside.trans small) (within.trans small) same

theorem numbered_ne {j k : Nat} (small : j < 65535) (little : k < 65535) (different : j ≠ k) : numbered j ≠ numbered k :=
  fun same => different (numbered_inj small little same)

theorem numbered_ne_zeroth {k : Nat} (positive : 0 < k) (small : k < 65535) : numbered k ≠ numbered 0 :=
  numbered_ne small (by decide) positive.ne'

theorem numbered_not_zero {k : Nat} (small : k < 65535) : (numbered k).isZero = false := by
  rw [isZero, beq_eq_false_iff_ne]
  intro zero
  have low := numbered_low k
  have high := numbered_high k
  rw [zero, Vector.getElem_replicate] at low high
  simp only [UInt8.toNat_zero] at low high
  omega

end ExecutionId

namespace CoordinatorRPCServerSharedBase

/-- Executions that were registered one after the other, and nothing else. -/
def filled (registrations : List ExecutionRegistration) : CoordinatorRPCServerSharedBase :=
  registrations.foldl (fun shared registration => shared.put registration.executionId (.fresh registration)) .new

theorem filled_append (registrations : List ExecutionRegistration) (registration : ExecutionRegistration) :
    filled (registrations ++ [registration]) =
      (filled registrations).put registration.executionId (.fresh registration) := by
  simp [filled]

theorem keys_filled (registrations : List ExecutionRegistration) :
    (filled registrations).executions.keys = (registrations.map ExecutionRegistration.executionId).toFinset := by
  induction registrations using List.reverseRecOn with
  | nil => rfl
  | append_singleton earlier registration ih =>
    rw [filled_append, keys_put, ih]
    ext id
    simp

theorem lookup_filled_none {registrations : List ExecutionRegistration} {e : ExecutionId}
    (absent : e ∉ registrations.map ExecutionRegistration.executionId) :
    (filled registrations).executions.lookup e = none := by
  rw [Finmap.lookup_eq_none, ← Finmap.mem_keys, keys_filled, List.mem_toFinset]
  exact absent

theorem lookup_filled {registrations : List ExecutionRegistration} {registration : ExecutionRegistration}
    (distinct : (registrations.map ExecutionRegistration.executionId).Nodup) (member : registration ∈ registrations) :
    (filled registrations).executions.lookup registration.executionId = some (.fresh registration) := by
  induction registrations using List.reverseRecOn with
  | nil => cases member
  | append_singleton earlier last ih =>
    rw [List.map_append, List.map_singleton] at distinct
    rw [filled_append]
    rcases List.mem_append.mp member with old | new
    · have apart : registration.executionId ≠ last.executionId := by
        have disjoint := (List.nodup_append.mp distinct).2.2
        exact disjoint _ (List.mem_map_of_mem old) _ (List.mem_singleton_self _)
      rw [lookup_put_of_ne _ apart]
      exact ih (List.nodup_append.mp distinct).1 old
    · obtain rfl := List.mem_singleton.mp new
      exact lookup_put_self _

theorem filled_rest (registrations : List ExecutionRegistration) :
    (filled registrations).retired = .empty ∧ (filled registrations).oneOffExecution = none := by
  induction registrations using List.reverseRecOn with
  | nil => exact ⟨rfl, rfl⟩
  | append_singleton earlier registration ih =>
    rw [filled_append]
    exact ih

/-- The hash map may yield any key first, in particular one that may be dropped. -/
theorem exists_order {shared : CoordinatorRPCServerSharedBase} {topology : Topology} {e : ExecutionId}
    (candidate : shared.evictable topology e = true) :
    ∃ order : List ExecutionId, order.toFinset = shared.executions.keys ∧
      order.find? (shared.evictable topology) = some e := by
  obtain ⟨d, live, _⟩ := evictable_live candidate
  have member : e ∈ shared.executions.keys := mem_keys_iff.mpr (by simp [live])
  refine ⟨e :: (shared.executions.keys.erase e).toList, ?_, by simp [candidate]⟩
  rw [List.toFinset_cons, Finset.toList_toFinset, Finset.insert_erase member]

/-- Dropping one execution for another keeps the number of executions. -/
theorem card_keys_replace {shared : CoordinatorRPCServerSharedBase} {e executionId : ExecutionId}
    {d d' : CoordinatorExecutionState} (gone : shared.executions.lookup e = some d)
    (absent : shared.executions.lookup executionId = none) :
    ((shared.evict e).put executionId d').executions.keys.card = shared.executions.keys.card := by
  have member : e ∈ shared.executions.keys := mem_keys_iff.mpr (by simp [gone])
  have missing : executionId ∉ shared.executions.keys.erase e := by
    rw [Finset.mem_erase, mem_keys_iff]
    exact fun held => held.2 absent
  rw [keys_put, keys_evict gone, Finset.card_insert_of_notMem missing, Finset.card_erase_add_one member]

end CoordinatorRPCServerSharedBase

/-- A coordinator whose slots are all taken by executions with numbered ids,
the first one in state `d`, and which has dropped nothing yet. -/
structure Crowded (d : CoordinatorExecutionState) (shared : CoordinatorRPCServerSharedBase) : Prop where
  full : shared.executions.keys.card = defaultMaxConcurrentExecutions
  first : shared.executions.lookup (.numbered 0) = some d
  second : ∃ d', shared.executions.lookup (.numbered 1) = some d'
  absent : shared.executions.lookup (.numbered defaultMaxConcurrentExecutions) = none
  retired : shared.retired = .empty
  unwatched : shared.oneOffExecution = none

namespace Crowded

variable {d d' : CoordinatorExecutionState} {shared : CoordinatorRPCServerSharedBase} {topology : Topology}

theorem put (crowded : Crowded d shared) (d' : CoordinatorExecutionState) : Crowded d' (shared.put (.numbered 0) d') := by
  obtain ⟨other, second⟩ := crowded.second
  refine ⟨?_, CoordinatorRPCServerSharedBase.lookup_put_self _, ⟨other, ?_⟩, ?_, crowded.retired, crowded.unwatched⟩
  · rw [CoordinatorRPCServerSharedBase.keys_put_of_live _ crowded.first, crowded.full]
  · exact (CoordinatorRPCServerSharedBase.lookup_put_of_ne _ (ExecutionId.numbered_ne_zeroth (by decide) (by decide))).trans second
  · exact (CoordinatorRPCServerSharedBase.lookup_put_of_ne _ (ExecutionId.numbered_ne_zeroth (by decide) (by decide))).trans crowded.absent

theorem evictable (crowded : Crowded d shared) (quorum : topology.retirementQuorum.toNat ≤ d.retirementAcks.card) :
    shared.evictable topology (.numbered 0) = true := by
  simp [CoordinatorRPCServerSharedBase.evictable, crowded.first, crowded.unwatched, quorum]

end Crowded

/-- An execution without inputs and outputs, under a numbered id. -/
def ExecutionRegistration.blank (k : Nat) : ExecutionRegistration :=
  { ExecutionRegistration.unassigned 0 [] with executionId := .numbered k }

theorem ExecutionRegistration.blank_executionId (k : Nat) : (blank k).executionId = .numbered k := rfl

/-- As many executions as may be live at once. -/
@[irreducible] def crowd (first : ExecutionRegistration) : List ExecutionRegistration :=
  first :: (List.range (defaultMaxConcurrentExecutions - 1)).map fun k => .blank (k + 1)

theorem new_blank (topology : Topology) {k : Nat} (small : k < 65535) :
    CoordinatorExecutionState.new (.blank k) topology.n = .ok (.fresh (.blank k)) := by
  have hash : ExecutionRegistration.programHash (.blank k) ≠ Vector.replicate 32 0 := by
    rw [show ExecutionRegistration.programHash (.blank k) = Vector.replicate 32 1 from rfl]
    decide
  have positive : ¬ topology.n < 1 := by
    have below := topology.t_lt_n
    rw [UInt64.lt_iff_toNat_lt]
    simp only [UInt64.toNat_one]
    omega
  simp only [CoordinatorExecutionState.new, ExecutionRegistration.blank_executionId,
    ExecutionId.numbered_not_zero small, hash, if_false]
  simp [ExecutionRegistration.blank, ExecutionRegistration.unassigned, positive]

section Crowd

variable {first : ExecutionRegistration}

theorem mem_crowd {registration : ExecutionRegistration} : registration ∈ crowd first ↔
    registration = first ∨ ∃ k, k + 1 < defaultMaxConcurrentExecutions ∧ .blank (k + 1) = registration := by
  simp only [crowd, List.mem_cons, List.mem_map, List.mem_range, Nat.lt_sub_iff_add_lt]

theorem ids_crowd (named : first.executionId = .numbered 0) :
    (crowd first).map ExecutionRegistration.executionId =
      (List.range defaultMaxConcurrentExecutions).map ExecutionId.numbered := by
  have counted : defaultMaxConcurrentExecutions = (defaultMaxConcurrentExecutions - 1) + 1 := rfl
  rw [counted, List.range_succ_eq_map, crowd, List.map_cons, List.map_cons, List.map_map, List.map_map, named]
  rfl

theorem ids_crowd_nodup (named : first.executionId = .numbered 0) :
    ((crowd first).map ExecutionRegistration.executionId).Nodup := by
  rw [ids_crowd named]
  exact ExecutionId.nodup_numbered (by decide)

end Crowd

namespace CoordinatorBrowserState

variable {listener : CoordinatorListener} {s : CoordinatorBrowserState} {party : ClientIdentity}

/-- A step in which a roster party registers or retires an execution. -/
def RosterStep (listener : CoordinatorListener) (s : CoordinatorBrowserState) (event : ServerEvent)
    (s' : CoordinatorBrowserState) : Prop :=
  s.Step listener event s' ∧ match event with
    | .register _ _ _ => True
    | .retire _ _ => True
    | _ => False

/-- The ids that are registered in the course of a run, in order. -/
def registeredIds (trace : List (Transition CoordinatorBrowserState ServerEvent)) : List ExecutionId :=
  (trace.map Transition.event).filterMap fun event => match event with
    | .register _ registration _ => some registration.executionId
    | _ => none

theorem registeredIds_append (first second : List (Transition CoordinatorBrowserState ServerEvent)) :
    registeredIds (first ++ second) = registeredIds first ++ registeredIds second := by
  rw [registeredIds, List.map_append, List.filterMap_append]
  rfl

/-- A registration of a new id, while no browser request is in flight. -/
theorem step_register {registration : ExecutionRegistration} {order : List ExecutionId}
    {room : CoordinatorRPCServerSharedBase} {d : CoordinatorExecutionState} (idle : s.inFlight = [])
    (member : listener.topology.isParty party = true) (absent : s.live registration.executionId = none)
    (listed : order.toFinset = s.coordinator.executions.keys)
    (made : s.coordinator.makeRoom listener.topology order = some room)
    (admitted : CoordinatorExecutionState.new registration listener.topology.n = .ok d) :
    s.RosterStep listener (.register party registration order)
      { s with coordinator := room.put registration.executionId d } := by
  refine ⟨?_, trivial⟩
  have enabled : s.enabled (.register party registration order) = true := by
    simp [CoordinatorBrowserState.enabled, listed]
  have registered : s.coordinator.registerExecution listener.topology registration order =
      (.ok (), room.put registration.executionId d) := by
    rw [CoordinatorRPCServerSharedBase.registerExecution_eq absent, made]
    simp only [CoordinatorRPCServerSharedBase.enroll, admitted]
  rw [Step, next, if_pos enabled]
  simp only [run, register, CoordinatorRPCServerConnectionBase.registerExecution, member, registered,
    CoordinatorRPCServerConnectionBase.answer, idle]
  congr 2
  split <;> rfl

theorem step_retire {e : ExecutionId} {d : CoordinatorExecutionState}
    (member : listener.topology.isParty party = true) (live : s.live e = some d)
    (unsealed : s.coordinator.retired.acks e = none) :
    s.RosterStep listener (.retire party e)
      { s with coordinator := s.coordinator.put e (d.acknowledgeRetirement party) } := by
  refine ⟨?_, trivial⟩
  have present : s.coordinator.executions.lookup e = some d := live
  rw [Step, next, if_pos (by rfl)]
  simp only [run, CoordinatorRPCServerConnectionBase.retire, member, CoordinatorRPCServerSharedBase.retireExecution,
    RetiredExecutions.acknowledge, unsealed, present, CoordinatorRPCServerConnectionBase.answer]
  rfl

/-- Registrations with distinct ids can be made one after the other. -/
theorem exists_run_filled {registrations : List ExecutionRegistration} (member : listener.topology.isParty party = true)
    (distinct : (registrations.map ExecutionRegistration.executionId).Nodup)
    (few : registrations.length ≤ defaultMaxConcurrentExecutions)
    (admissible : ∀ registration ∈ registrations,
      CoordinatorExecutionState.new registration listener.topology.n = .ok (.fresh registration)) :
    ∃ trace, Run (RosterStep listener) start trace { start with coordinator := .filled registrations } ∧
      registeredIds trace = registrations.map ExecutionRegistration.executionId := by
  induction registrations using List.reverseRecOn with
  | nil => exact ⟨[], .start, rfl⟩
  | append_singleton earlier registration ih =>
    rw [List.map_append, List.map_singleton] at distinct
    rw [List.length_append, List.length_singleton] at few
    obtain ⟨before, _, apart⟩ := List.nodup_append.mp distinct
    obtain ⟨trace, run, ids⟩ := ih before (by omega) fun other old => admissible other (List.mem_append_left _ old)
    have absent : registration.executionId ∉ earlier.map ExecutionRegistration.executionId :=
      fun old => apart _ old _ (List.mem_singleton_self _) rfl
    have space : (CoordinatorRPCServerSharedBase.filled earlier).makeRoom listener.topology
        (earlier.map ExecutionRegistration.executionId) = some (.filled earlier) := by
      rw [CoordinatorRPCServerSharedBase.makeRoom, if_pos]
      rw [CoordinatorRPCServerSharedBase.keys_filled, List.toFinset_card_of_nodup before, List.length_map]
      omega
    rw [CoordinatorRPCServerSharedBase.filled_append]
    refine ⟨_, run.next (step_register rfl member (CoordinatorRPCServerSharedBase.lookup_filled_none absent)
      (CoordinatorRPCServerSharedBase.keys_filled earlier).symm space (admissible registration (by simp))), ?_⟩
    rw [registeredIds_append, ids, List.map_append]
    rfl

/-- A coordinator can be full, with any execution in its first slot. -/
theorem exists_run_crowded {first : ExecutionRegistration} (member : listener.topology.isParty party = true)
    (named : first.executionId = .numbered 0)
    (admitted : CoordinatorExecutionState.new first listener.topology.n = .ok (.fresh first)) :
    ∃ trace shared, Run (RosterStep listener) start trace { start with coordinator := shared } ∧
      Crowded (.fresh first) shared := by
  have distinct := ids_crowd_nodup named
  have count : (crowd first).length = defaultMaxConcurrentExecutions := by simp [crowd, defaultMaxConcurrentExecutions]
  have admissible : ∀ registration ∈ crowd first,
      CoordinatorExecutionState.new registration listener.topology.n = .ok (.fresh registration) := by
    intro registration listed
    rcases mem_crowd.mp listed with rfl | ⟨k, inside, rfl⟩
    · exact admitted
    · rw [defaultMaxConcurrentExecutions] at inside
      exact new_blank listener.topology (by omega)
  obtain ⟨trace, run, _⟩ := exists_run_filled member distinct count.le admissible
  obtain ⟨retired, unwatched⟩ := CoordinatorRPCServerSharedBase.filled_rest (crowd first)
  refine ⟨trace, _, run, ?_, ?_, ⟨.fresh (.blank 1), ?_⟩, ?_, retired, unwatched⟩
  · rw [CoordinatorRPCServerSharedBase.keys_filled, List.toFinset_card_of_nodup distinct, List.length_map, count]
  · rw [← named]
    exact CoordinatorRPCServerSharedBase.lookup_filled distinct (mem_crowd.mpr (Or.inl rfl))
  · rw [← ExecutionRegistration.blank_executionId]
    exact CoordinatorRPCServerSharedBase.lookup_filled distinct (mem_crowd.mpr (Or.inr ⟨0, by decide, rfl⟩))
  · refine CoordinatorRPCServerSharedBase.lookup_filled_none ?_
    rw [ids_crowd named, List.mem_map]
    rintro ⟨j, inside, same⟩
    rw [List.mem_range] at inside
    have small : j < 65535 := inside.trans (by decide)
    exact inside.ne (ExecutionId.numbered_inj small (by decide) same)

/-- Parties can acknowledge an execution that has no tombstone. -/
theorem exists_run_retired {e : ExecutionId} {d : CoordinatorExecutionState} {parties : List ClientIdentity}
    (members : ∀ party ∈ parties, listener.topology.isParty party = true) (live : s.live e = some d)
    (unsealed : s.coordinator.retired.acks e = none) :
    ∃ trace shared, Run (RosterStep listener) s trace { s with coordinator := shared } ∧
      shared.executions.keys = s.coordinator.executions.keys ∧
      shared.executions.lookup e = some { d with retirementAcks := d.retirementAcks ∪ parties.toFinset } ∧
      (∀ other ≠ e, shared.executions.lookup other = s.coordinator.executions.lookup other) ∧
      shared.retired = s.coordinator.retired ∧ shared.oneOffExecution = s.coordinator.oneOffExecution ∧
      registeredIds trace = [] := by
  induction parties using List.reverseRecOn with
  | nil =>
    refine ⟨[], s.coordinator, .start, rfl, ?_, fun _ _ => rfl, rfl, rfl, rfl⟩
    rw [List.toFinset_nil, Finset.union_empty]
    exact live
  | append_singleton earlier party ih =>
    obtain ⟨trace, shared, run, keys, here, others, retired, unwatched, ids⟩ :=
      ih fun other old => members other (List.mem_append_left _ old)
    rw [← retired] at unsealed
    have step := step_retire (s := { s with coordinator := shared }) (members party (by simp)) here unsealed
    refine ⟨_, _, run.next step, ?_, ?_, ?_, retired, unwatched, ?_⟩
    · exact (CoordinatorRPCServerSharedBase.keys_put_of_live _ here).trans keys
    · rw [CoordinatorRPCServerSharedBase.lookup_put_self]
      simp [CoordinatorExecutionState.acknowledgeRetirement, Finset.union_insert]
    · intro other different
      exact (CoordinatorRPCServerSharedBase.lookup_put_of_ne _ different).trans (others other different)
    · rw [registeredIds_append, ids]
      rfl

/-- In particular, the execution in the first slot of a full coordinator. -/
theorem exists_run_drained {d : CoordinatorExecutionState} {parties : List ClientIdentity}
    (members : ∀ party ∈ parties, listener.topology.isParty party = true) (crowded : Crowded d s.coordinator) :
    ∃ trace shared, Run (RosterStep listener) s trace { s with coordinator := shared } ∧
      Crowded { d with retirementAcks := d.retirementAcks ∪ parties.toFinset } shared := by
  have unsealed : s.coordinator.retired.acks (.numbered 0) = none := by
    rw [crowded.retired]
    rfl
  obtain ⟨trace, shared, run, keys, here, others, retired, unwatched, _⟩ := exists_run_retired members crowded.first unsealed
  obtain ⟨d', second⟩ := crowded.second
  refine ⟨trace, shared, run, ?_, here, ⟨d', ?_⟩, ?_, retired.trans crowded.retired, unwatched.trans crowded.unwatched⟩
  · rw [keys, crowded.full]
  · rw [others _ (ExecutionId.numbered_ne_zeroth (by decide) (by decide)), second]
  · rw [others _ (ExecutionId.numbered_ne_zeroth (by decide) (by decide)), crowded.absent]

/-- At a full coordinator, a registration can take the slot of any execution
that may be dropped. -/
theorem exists_step_replacing {registration : ExecutionRegistration} {e : ExecutionId} {d : CoordinatorExecutionState}
    (idle : s.inFlight = []) (member : listener.topology.isParty party = true)
    (absent : s.live registration.executionId = none)
    (full : s.coordinator.executions.keys.card = defaultMaxConcurrentExecutions)
    (candidate : s.coordinator.evictable listener.topology e = true)
    (admitted : CoordinatorExecutionState.new registration listener.topology.n = .ok d) :
    ∃ order, s.coordinator.evicted listener.topology registration order = some e ∧
      s.RosterStep listener (.register party registration order)
        { s with coordinator := (s.coordinator.evict e).put registration.executionId d } := by
  obtain ⟨order, listed, found⟩ := CoordinatorRPCServerSharedBase.exists_order candidate
  refine ⟨order, ?_, step_register idle member absent listed ?_ admitted⟩
  · rw [CoordinatorRPCServerSharedBase.evicted_eq absent, full, if_neg (lt_irrefl _), found]
  · rw [CoordinatorRPCServerSharedBase.makeRoom, full, if_neg (lt_irrefl _), found]
    rfl

end CoordinatorBrowserState

end MpcCoordinator
