import MpcCoordinator.Node.Wakeup
import MpcCoordinator.General.Batch

namespace MpcCoordinator

namespace NodeRPCExecutionState

variable {S : Type} {codec : ShareCodec S} {d d' : NodeRPCExecutionState} {id : ClientIdentity}
  {request : AssignedMaskRequest}

/-- The same tables with other parked requests. -/
def withSinks (d : NodeRPCExecutionState) (sinks : Table ClientIdentity AssignedMaskRequest) : NodeRPCExecutionState :=
  { d with assignedSinks := sinks }

@[simp] theorem assignedSinks_withSinks (sinks : Table ClientIdentity AssignedMaskRequest) :
    (d.withSinks sinks).assignedSinks = sinks := rfl

@[simp] theorem withSinks_withSinks (sinks others : Table ClientIdentity AssignedMaskRequest) :
    (d.withSinks sinks).withSinks others = d.withSinks others := rfl

@[simp] theorem assignedMaskSharesForClient_withSinks (sinks : Table ClientIdentity AssignedMaskRequest)
    (start count : UInt64) :
    (d.withSinks sinks).assignedMaskSharesForClient id start count = d.assignedMaskSharesForClient id start count := by
  simp only [assignedMaskSharesForClient, withSinks, collectShares_sinks]

@[simp] theorem rejected_withSinks {sinks : Table ClientIdentity AssignedMaskRequest} :
    Rejected codec (d.withSinks sinks) id request ↔ Rejected codec d id request := by
  simp only [Rejected, assignedMaskSharesForClient_withSinks]

/-- Owners and shares stay, and an index with an owner gets no other reservation. -/
structure Extends (d d' : NodeRPCExecutionState) : Prop extends Grows d d' where
  filed : ∀ i c, d.indexToClient i = some c → d'.assignedReservations i = d.assignedReservations i

theorem Extends.refl (d : NodeRPCExecutionState) : Extends d d := ⟨.refl d, fun _ _ _ => rfl⟩

theorem Extends.trans {a b c : NodeRPCExecutionState} (first : Extends a b) (second : Extends b c) : Extends a c :=
  ⟨first.toGrows.trans second.toGrows, fun i owner held =>
    (second.filed i owner (first.owner i owner held)).trans (first.filed i owner held)⟩

/-- A range that does not wait has the same answer later. -/
theorem collectShares_extends (extension : Extends d d') {n : Nat} {i : UInt64} {before : List AssignedMaskShare} :
    d.collectShares id n i before = .ok none ∨ d'.collectShares id n i before = d.collectShares id n i before := by
  induction n generalizing i before with
  | zero => exact Or.inr rfl
  | succ n ih =>
    simp only [collectShares]
    cases owned : d.indexToClient i with
    | none => exact Or.inl rfl
    | some owner =>
      rw [extension.owner i owner owned]
      by_cases other : owner ≠ id
      · simp [other]
      simp only [other, if_false]
      cases stored : d.maskShares i with
      | none => exact Or.inl rfl
      | some share =>
        rw [extension.share i share stored]
        simp only [assignedMaskShare, extension.filed i owner owned]
        cases d.assignedReservations i with
        | none => exact Or.inr rfl
        | some reservation => exact ih

variable (id) in
theorem assignedMaskSharesForClient_extends (extension : Extends d d') (start count : UInt64) :
    d.assignedMaskSharesForClient id start count = .ok none ∨
      d'.assignedMaskSharesForClient id start count = d.assignedMaskSharesForClient id start count := by
  unfold assignedMaskSharesForClient
  split
  · exact collectShares_extends extension
  · exact Or.inr rfl

theorem Rejected.mono (rejected : Rejected codec d id request) (extension : Extends d d') :
    Rejected codec d' id request := by
  rcases assignedMaskSharesForClient_extends id extension request.start request.count with waits | same
  · simp [Rejected, waits] at rejected
  · rwa [Rejected, same]

/-- A range that waits lacks an owner or a share. -/
theorem collectShares_none {n : Nat} {i : UInt64} {before : List AssignedMaskShare} (bound : i.toNat + n < 2 ^ 64)
    (waits : d.collectShares id n i before = .ok none) :
    ∃ j, (i.toNat ≤ j.toNat ∧ j.toNat < i.toNat + n) ∧ (d.indexToClient j = none ∨ d.maskShares j = none) := by
  induction n generalizing i before with
  | zero => cases waits
  | succ n ih =>
    rw [collectShares] at waits
    have here : i.toNat ≤ i.toNat ∧ i.toNat < i.toNat + (n + 1) := by omega
    cases owned : d.indexToClient i with
    | none => exact ⟨i, here, Or.inl owned⟩
    | some owner =>
      cases stored : d.maskShares i with
      | none => exact ⟨i, here, Or.inr stored⟩
      | some share =>
        simp only [owned, stored] at waits
        split at waits
        · cases waits
        split at waits
        · cases waits
        have next : (i + 1).toNat = i.toNat + 1 := by
          rw [UInt64.toNat_add, UInt64.toNat_one]
          omega
        obtain ⟨j, inside, lacking⟩ := ih (by omega) waits
        exact ⟨j, by omega, lacking⟩

/-- A range that is served is ready. -/
theorem Serves.ready {reply : MaskReply} {i : UInt64} (serves : Serves d reply)
    (covered : reply.start.toNat ≤ i.toNat ∧ i.toNat < reply.start.toNat + reply.count.toNat) :
    d.indexToClient i = some reply.recipient ∧ (d.maskShares i).isSome = true := by
  have inside : i.toNat ∈ reply.shares.map fun share => share.reservedIndex.toNat := by
    rw [serves.listed]
    exact List.mem_range'_1.mpr covered
  obtain ⟨share, member, same⟩ := List.mem_map.mp inside
  obtain rfl := UInt64.toNat_inj.mp same
  exact ⟨serves.owned share member, by simp [serves.stored share member]⟩

/-- The reply that a parked request gets from the tables as they are. -/
def answer (d : NodeRPCExecutionState) (id : ClientIdentity) : Option MaskReply :=
  (d.assignedSinks id).bind fun request =>
    match d.assignedMaskSharesForClient id request.start request.count with
    | .ok (some assignedShares) => some ⟨request.sink.peer, request.start, request.count, assignedShares⟩
    | _ => none

/-- The requests that are left when those of some clients have been answered. -/
def unserved (d : NodeRPCExecutionState) (clients : List ClientIdentity) : Table ClientIdentity AssignedMaskRequest :=
  fun id => if clients.contains id = true ∧ (d.answer id).isSome = true then none else d.assignedSinks id

theorem unserved_apply {clients : List ClientIdentity} : d.unserved clients id =
    if id ∈ clients ∧ (d.answer id).isSome = true then none else d.assignedSinks id := by
  simp [unserved]

theorem answer_unpark {other : ClientIdentity} (different : other ≠ id) : (d.unpark id).answer other = d.answer other := by
  simp only [answer, unpark_of_ne different]
  congr 1
  funext request
  rw [show d.unpark id = d.withSinks (d.assignedSinks.erase id) from rfl, assignedMaskSharesForClient_withSinks]

/-- One round of the loop over the touched clients, if it does not end there. -/
theorem completeRequests_cons {rest : List ClientIdentity} {sent : List MaskReply}
    (unrejected : ∀ request, d.assignedSinks id = some request → ¬ Rejected codec d id request) :
    completeRequests codec (id :: rest) d sent =
      match d.answer id with
      | none => completeRequests codec rest d sent
      | some reply => completeRequests codec rest (d.unpark id) (sent ++ [reply]) := by
  rw [completeRequests]
  cases held : d.assignedSinks id with
  | none => simp [answer, held]
  | some request =>
    have readable := unrejected request held
    have same : (d.unpark id).assignedMaskSharesForClient id request.start request.count =
        d.assignedMaskSharesForClient id request.start request.count := assignedMaskSharesForClient_withSinks ..
    simp only [same, answer, held, Option.bind_some]
    unfold Rejected at readable
    cases collected : d.assignedMaskSharesForClient id request.start request.count with
    | error refusal => simp [collected] at readable
    | ok waiting =>
      cases waiting with
      | none => simp only [park_unpark held]
      | some shares =>
        simp only [collected] at readable
        cases json : codec.toJson shares with
        | error error => exact absurd ⟨error, json⟩ readable
        | ok _ => simp only [json]

theorem unserved_cons_none {rest : List ClientIdentity} (unanswered : d.answer id = none) :
    d.unserved (id :: rest) = d.unserved rest := by
  funext other
  by_cases same : other = id
  · subst same
    simp [unserved, unanswered]
  · simp [unserved, same]

theorem unserved_cons_some {rest : List ClientIdentity} {reply : MaskReply} (answered : d.answer id = some reply)
    (absent : id ∉ rest) : d.unserved (id :: rest) = (d.unpark id).unserved rest := by
  funext other
  by_cases same : other = id
  · subst same
    simp [unserved, answered, absent, unpark_self]
  · simp [unserved, same, answer_unpark, unpark_of_ne]

theorem completeRequests_eq {clients : List ClientIdentity} {sent : List MaskReply} (distinct : clients.Nodup)
    (unrejected : ∀ id ∈ clients, ∀ request, d.assignedSinks id = some request → ¬ Rejected codec d id request) :
    completeRequests codec clients d sent =
      (.ok (sent ++ clients.filterMap d.answer), d.withSinks (d.unserved clients)) := by
  induction clients generalizing d sent with
  | nil =>
    have all : d.unserved [] = d.assignedSinks := by
      funext id
      simp [unserved]
    simp [completeRequests, all, withSinks]
  | cons id rest ih =>
    obtain ⟨absent, others⟩ := List.nodup_cons.mp distinct
    obtain ⟨first, later⟩ := List.forall_mem_cons.mp unrejected
    rw [completeRequests_cons first]
    cases answered : d.answer id with
    | none => simp only [ih others later, List.filterMap_cons_none answered, unserved_cons_none answered]
    | some reply =>
      have apart : ∀ other ∈ rest, other ≠ id := fun other member same => absent (same ▸ member)
      have still : ∀ other ∈ rest, ∀ request, (d.unpark id).assignedSinks other = some request →
          ¬ Rejected codec (d.unpark id) other request := by
        intro other member request held
        rw [rejected_unpark]
        exact later other member request ((unpark_of_ne (apart other member)).symm.trans held)
      have replies : rest.filterMap (d.unpark id).answer = rest.filterMap d.answer :=
        List.filterMap_congr fun other member => answer_unpark (apart other member)
      simp only [ih others still, replies, List.filterMap_cons_some answered, unserved_cons_some answered absent,
        List.append_assoc]
      rfl

theorem completeRequests_cons_error {rest : List ClientIdentity} {sent : List MaskReply}
    (held : d.assignedSinks id = some request) (rejected : Rejected codec d id request) :
    ∃ refusal, completeRequests codec (id :: rest) d sent = (.error refusal, d.unpark id) := by
  have same : (d.unpark id).assignedMaskSharesForClient id request.start request.count =
      d.assignedMaskSharesForClient id request.start request.count := assignedMaskSharesForClient_withSinks ..
  simp only [completeRequests, held, same]
  unfold Rejected at rejected
  split
  · exact ⟨_, rfl⟩
  · rename_i waits
    simp [waits] at rejected
  · rename_i shares collected
    rw [collected] at rejected
    obtain ⟨error, unreadable⟩ := rejected
    rw [unreadable]
    exact ⟨_, rfl⟩

/-- A parked request that is rejected ends the loop, which has not changed the
tables by then. -/
theorem completeRequests_error {clients : List ClientIdentity} {sent : List MaskReply}
    (rejected : ∃ id ∈ clients, ∃ request, d.assignedSinks id = some request ∧ Rejected codec d id request) :
    ∃ refusal sinks, completeRequests codec clients d sent = (.error refusal, d.withSinks sinks) := by
  induction clients generalizing d sent with
  | nil => simp at rejected
  | cons id rest ih =>
    by_cases here : ∃ request, d.assignedSinks id = some request ∧ Rejected codec d id request
    · obtain ⟨request, held, refused⟩ := here
      obtain ⟨refusal, failed⟩ := completeRequests_cons_error held refused
      exact ⟨refusal, _, failed⟩
    · obtain ⟨other, member, request, held, refused⟩ := rejected
      have different : other ≠ id := by
        rintro rfl
        exact here ⟨request, held, refused⟩
      have later := (List.mem_cons.mp member).resolve_left different
      rw [completeRequests_cons fun request held refused => here ⟨request, held, refused⟩]
      split
      · exact ih ⟨other, later, request, held, refused⟩
      · exact ih ⟨other, later, request, (unpark_of_ne different).trans held, rejected_unpark.mpr refused⟩

theorem answer_extends {reply : MaskReply} (extension : Extends d d') (sinks : d'.assignedSinks = d.assignedSinks)
    (answered : d.answer id = some reply) : d'.answer id = some reply := by
  unfold answer at answered ⊢
  rw [sinks]
  obtain ⟨request, held, replied⟩ := Option.bind_eq_some_iff.mp answered
  rw [held, Option.bind_some]
  rcases assignedMaskSharesForClient_extends id extension request.start request.count with waits | same
  · simp [waits] at replied
  · rw [same]
    exact replied

/-- What is answered only after an extension has waited for an index in it. -/
theorem exists_lacking {reply : MaskReply} (extension : Extends d d') (sinks : d'.assignedSinks = d.assignedSinks)
    (unanswered : d.answer id = none) (answered : d'.answer id = some reply) :
    ∃ i, (d.indexToClient i = none ∨ d.maskShares i = none) ∧ d'.indexToClient i = some id ∧
      (d'.maskShares i).isSome = true := by
  unfold answer at answered unanswered
  rw [sinks] at answered
  obtain ⟨request, held, replied⟩ := Option.bind_eq_some_iff.mp answered
  rw [held, Option.bind_some] at unanswered
  rcases assignedMaskSharesForClient_extends id extension request.start request.count with waits | same
  · cases collected : d'.assignedMaskSharesForClient id request.start request.count with
    | error refusal => simp [collected] at replied
    | ok shares =>
      cases shares with
      | none => simp [collected] at replied
      | some shares =>
        have bound := bound_of_waits waits
        rw [assignedMaskSharesForClient, if_pos bound] at waits
        obtain ⟨i, inside, lacking⟩ := collectShares_none bound waits
        obtain ⟨owned, there⟩ := (assignedMaskSharesForClient_some collected).ready inside
        exact ⟨i, lacking, owned, there⟩
  · rw [same, unanswered] at replied
    cases replied

theorem answer_withSinks_none {sinks : Table ClientIdentity AssignedMaskRequest} (gone : sinks id = none) :
    (d.withSinks sinks).answer id = none := by
  simp [answer, withSinks, gone]

theorem answer_withSinks_eq {sinks : Table ClientIdentity AssignedMaskRequest} (same : sinks id = d.assignedSinks id) :
    (d.withSinks sinks).answer id = d.answer id := by
  simp only [answer, assignedMaskSharesForClient_withSinks, assignedSinks_withSinks, same]

section

-- Requests are answered from `first` to the clients in `early`, and from `whole`
-- to those in `later`, instead of from `whole` to all of them.
variable {first whole : NodeRPCExecutionState} {early later clients : List ClientIdentity}

theorem answer_rest_of_answered {reply : MaskReply} (member : id ∈ early) (answered : first.answer id = some reply) :
    (whole.withSinks (first.unserved early)).answer id = none :=
  answer_withSinks_none (by simp [unserved, member, answered])

theorem answer_rest_of_not (sinks : whole.assignedSinks = first.assignedSinks)
    (waits : ¬ (id ∈ early ∧ (first.answer id).isSome = true)) :
    (whole.withSinks (first.unserved early)).answer id = whole.answer id :=
  answer_withSinks_eq (by rw [unserved_apply, if_neg waits, sinks])

theorem mem_later (both : ∀ id, id ∈ clients ↔ id ∈ early ∨ id ∈ later)
    (again : ∀ id, first.answer id = none → id ∉ later → whole.answer id = none)
    (waits : ¬ (id ∈ early ∧ (first.answer id).isSome = true)) (member : id ∈ clients)
    (answered : (whole.answer id).isSome = true) : id ∈ later := by
  rcases (both id).mp member with inEarly | inLater
  · by_contra absent
    have none : first.answer id = none := Option.not_isSome_iff_eq_none.mp fun some => waits ⟨inEarly, some⟩
    simp [again id none absent] at answered
  · exact inLater

theorem unserved_rest (extension : Extends first whole) (sinks : whole.assignedSinks = first.assignedSinks)
    (both : ∀ id, id ∈ clients ↔ id ∈ early ∨ id ∈ later)
    (again : ∀ id, first.answer id = none → id ∉ later → whole.answer id = none) :
    (whole.withSinks (first.unserved early)).unserved later = whole.unserved clients := by
  funext id
  by_cases served : id ∈ early ∧ (first.answer id).isSome = true
  · obtain ⟨reply, answered⟩ := Option.isSome_iff_exists.mp served.2
    have same := answer_extends extension sinks answered
    have gone : first.unserved early id = none := by rw [unserved_apply, if_pos served]
    have done : whole.unserved clients id = none := by
      rw [unserved_apply, if_pos ⟨(both id).mpr (Or.inl served.1), by simp [same]⟩]
    rw [done, unserved_apply, assignedSinks_withSinks, gone, ite_self]
  · have left : first.unserved early id = whole.assignedSinks id := by rw [unserved_apply, if_neg served, sinks]
    have same : id ∈ later ∧ (whole.answer id).isSome = true ↔ id ∈ clients ∧ (whole.answer id).isSome = true :=
      ⟨fun ⟨member, answered⟩ => ⟨(both id).mpr (Or.inr member), answered⟩,
        fun ⟨member, answered⟩ => ⟨mem_later both again served member answered, answered⟩⟩
    rw [unserved_apply, answer_rest_of_not sinks served, assignedSinks_withSinks, left, if_congr same rfl rfl,
      unserved_apply]

theorem perm_answers (distinct : clients.Nodup) (distinctEarly : early.Nodup) (distinctLater : later.Nodup)
    (extension : Extends first whole) (sinks : whole.assignedSinks = first.assignedSinks)
    (both : ∀ id, id ∈ clients ↔ id ∈ early ∨ id ∈ later)
    (again : ∀ id, first.answer id = none → id ∉ later → whole.answer id = none) :
    (clients.filterMap whole.answer).Perm
      (early.filterMap first.answer ++ later.filterMap (whole.withSinks (first.unserved early)).answer) := by
  refine Batch.perm_filterMap distinct distinctEarly distinctLater ?_ ?_ ?_
  · intro id member reply answered
    exact ⟨(both id).mpr (Or.inl member), answer_extends extension sinks answered,
      answer_rest_of_answered member answered⟩
  · intro id member reply answered
    refine ⟨(both id).mpr (Or.inr member), ?_⟩
    by_cases served : id ∈ early ∧ (first.answer id).isSome = true
    · obtain ⟨earlier, before⟩ := Option.isSome_iff_exists.mp served.2
      cases (answer_rest_of_answered served.1 before).symm.trans answered
    · rwa [answer_rest_of_not sinks served] at answered
  · intro id member answered
    by_cases served : id ∈ early ∧ (first.answer id).isSome = true
    · exact Or.inl served
    · rw [answer_rest_of_not sinks served]
      exact Or.inr ⟨mem_later both again served member answered, answered⟩

end

theorem nodup_foldl_touch {clients touched : List ClientIdentity} (distinct : touched.Nodup) :
    (clients.foldl touch touched).Nodup := by
  induction clients generalizing touched with
  | nil => exact distinct
  | cons client rest ih =>
    refine ih ?_
    unfold touch
    split
    · exact distinct
    · rename_i absent
      exact List.nodup_middle.mpr (List.nodup_cons.mpr ⟨by simpa using absent, by simpa using distinct⟩)

end NodeRPCExecutionState

end MpcCoordinator
