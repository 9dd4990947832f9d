import MpcCoordinator.Node.Ownership

namespace MpcCoordinator

/-- The indices of a request. -/
def AssignedMaskRequest.Covers (request : AssignedMaskRequest) (i : UInt64) : Prop :=
  request.start.toNat ≤ i.toNat ∧ i.toNat < request.start.toNat + request.count.toNat

/-- The reply is for the request of a client. -/
def AssignedMaskRequest.answeredBy (id : ClientIdentity) (request : AssignedMaskRequest) (reply : MaskReply) : Bool :=
  decide (reply.recipient = id ∧ reply.start = request.start ∧ reply.count = request.count)

namespace NodeRPCExecutionState

variable {S : Type} (codec : ShareCodec S)

/-- The whole range is the client's, and all its shares are there. -/
def Ready (d : NodeRPCExecutionState) (id : ClientIdentity) (request : AssignedMaskRequest) : Prop :=
  ∀ i, request.Covers i → d.indexToClient i = some id ∧ (d.maskShares i).isSome = true

/-- Some index of the range belongs to another client. -/
def Foreign (d : NodeRPCExecutionState) (id : ClientIdentity) (request : AssignedMaskRequest) : Prop :=
  ∃ i owner, request.Covers i ∧ d.indexToClient i = some owner ∧ owner ≠ id

/-- A parked request that ends the loop over the touched clients. -/
def Rejected (d : NodeRPCExecutionState) (id : ClientIdentity) (request : AssignedMaskRequest) : Prop :=
  match d.assignedMaskSharesForClient id request.start request.count with
  | .error _ => True
  | .ok none => False
  | .ok (some assignedShares) => ∃ error, codec.toJson assignedShares = .error error

variable {codec} {d d' : NodeRPCExecutionState} {id : ClientIdentity} {request : AssignedMaskRequest}

theorem Foreign.not_ready (foreign : Foreign d id request) : ¬ Ready d id request := by
  obtain ⟨i, owner, covered, owned, other⟩ := foreign
  intro ready
  rw [(ready i covered).1] at owned
  exact other (Option.some.inj owned).symm

theorem Foreign.mono (foreign : Foreign d id request) (grows : Grows d d') : Foreign d' id request := by
  obtain ⟨i, owner, covered, owned, other⟩ := foreign
  exact ⟨i, owner, covered, grows.owner _ _ owned, other⟩

theorem Ready.mono (ready : Ready d id request) (grows : Grows d d') : Ready d' id request := by
  intro i covered
  obtain ⟨owned, there⟩ := ready i covered
  obtain ⟨share, stored⟩ := Option.isSome_iff_exists.mp there
  exact ⟨grows.owner _ _ owned, by rw [grows.share _ _ stored]; rfl⟩

/-- Every owned index has its reservation on file. -/
def Filed (d : NodeRPCExecutionState) : Prop :=
  ∀ i, (d.indexToClient i).isSome = true → (d.assignedReservations i).isSome = true

/-- How the loop over a range ends: with all of it, at an index that lacks its
owner or its share, or at one that belongs to another client. -/
inductive Collected (d : NodeRPCExecutionState) (id : ClientIdentity) (covers : UInt64 → Prop) :
    Except NodeRPCError (Option (List AssignedMaskShare)) → Prop
  | all {shares} : (∀ i, covers i → d.indexToClient i = some id ∧ (d.maskShares i).isSome = true) →
      Collected d id covers (.ok (some shares))
  | missing {i} : covers i → ¬ (d.indexToClient i = some id ∧ (d.maskShares i).isSome = true) →
      Collected d id covers (.ok none)
  | foreign {i owner refusal} : covers i → d.indexToClient i = some owner → owner ≠ id →
      Collected d id covers (.error refusal)

theorem Collected.widen {covers wider : UInt64 → Prop} {first : UInt64}
    {result : Except NodeRPCError (Option (List AssignedMaskShare))} (collected : Collected d id covers result)
    (split : ∀ i, wider i ↔ i = first ∨ covers i) (owned : d.indexToClient first = some id)
    (there : (d.maskShares first).isSome = true) : Collected d id wider result := by
  cases collected with
  | all rest =>
    refine .all fun i covered => ?_
    rcases (split i).mp covered with rfl | later
    · exact ⟨owned, there⟩
    · exact rest i later
  | missing covered lacking => exact .missing ((split _).mpr (Or.inr covered)) lacking
  | foreign covered held other => exact .foreign ((split _).mpr (Or.inr covered)) held other

theorem collectShares_outcome (filed : Filed d) {n : Nat} {i : UInt64} {before : List AssignedMaskShare}
    (bound : i.toNat + n < 2 ^ 64) :
    Collected d id (fun j => i.toNat ≤ j.toNat ∧ j.toNat < i.toNat + n) (d.collectShares id n i before) := by
  induction n generalizing i before with
  | zero => exact .all fun j inside => by omega
  | succ n ih =>
    have here : i.toNat ≤ i.toNat ∧ i.toNat < i.toNat + (n + 1) := by omega
    rw [collectShares]
    split
    · rename_i vacant
      exact .missing here (by simp [vacant])
    rename_i owner owned
    split
    · rename_i other
      exact .foreign here owned other
    rename_i mine
    obtain rfl := not_not.mp mine
    split
    · rename_i absent
      exact .missing here (by simp [absent])
    rename_i share stored
    obtain ⟨reservation, onFile⟩ := Option.isSome_iff_exists.mp (filed i (by simp [owned]))
    simp only [assignedMaskShare, onFile]
    have next : (i + 1).toNat = i.toNat + 1 := by
      rw [UInt64.toNat_add, UInt64.toNat_one]
      omega
    refine (ih (by omega)).widen (fun j => ?_) owned (by simp [stored])
    rw [next, ← UInt64.toNat_inj]
    omega

theorem assignedMaskSharesForClient_outcome (filed : Filed d)
    (bound : request.start.toNat + request.count.toNat < 2 ^ 64) :
    Collected d id request.Covers
      (d.assignedMaskSharesForClient id request.start request.count) := by
  rw [assignedMaskSharesForClient, if_pos bound]
  exact collectShares_outcome filed bound

theorem bound_of_waits {start count : UInt64} (waits : d.assignedMaskSharesForClient id start count = .ok none) :
    start.toNat + count.toNat < 2 ^ 64 := by
  unfold assignedMaskSharesForClient at waits
  split at waits
  · assumption
  · cases waits

theorem not_ready_of_waits (filed : Filed d)
    (waits : d.assignedMaskSharesForClient id request.start request.count = .ok none) : ¬ Ready d id request := by
  have outcome : Collected d id request.Covers _ := assignedMaskSharesForClient_outcome filed (bound_of_waits waits)
  rw [waits] at outcome
  cases outcome with
  | missing covered lacking => exact fun ready => lacking (ready _ covered)

/-- Which requests are parked does not matter to the shares of a range. -/
theorem collectShares_sinks (sinks : Table ClientIdentity AssignedMaskRequest) {n : Nat} {i : UInt64}
    {before : List AssignedMaskShare} :
    { d with assignedSinks := sinks }.collectShares id n i before = d.collectShares id n i before := by
  induction n generalizing i before with
  | zero => rfl
  | succ n ih =>
    simp only [collectShares, assignedMaskShare, ih]

theorem rejected_unpark {other : ClientIdentity} :
    Rejected codec (d.unpark other) id request ↔ Rejected codec d id request := by
  simp only [Rejected, assignedMaskSharesForClient, NodeRPCExecutionState.unpark, collectShares_sinks]

/-- The state that a loop over clients works on: only requests are taken out. -/
structure Drained (d d' : NodeRPCExecutionState) : Prop where
  store : d' = { d with assignedSinks := d'.assignedSinks }
  taken : ∀ id request, d'.assignedSinks id = some request → d.assignedSinks id = some request

theorem Drained.refl (d : NodeRPCExecutionState) : Drained d d := ⟨rfl, fun _ _ held => held⟩

theorem Drained.unpark (id : ClientIdentity) (drained : Drained (d.unpark id) d') : Drained d d' := by
  refine ⟨drained.store, fun other request held => ?_⟩
  have before := drained.taken other request held
  simp only [NodeRPCExecutionState.unpark, Table.erase_apply] at before
  split at before
  · cases before
  · exact before

theorem park_unpark (held : d.assignedSinks id = some request) : (d.unpark id).park id request = d := by
  have same : (d.assignedSinks.erase id).insert id request = d.assignedSinks := by
    funext other
    rw [Table.insert_apply, Table.erase_apply]
    split
    · rename_i this
      rw [this, held]
    · rfl
  simp [NodeRPCExecutionState.unpark, NodeRPCExecutionState.park, same]

variable (codec) in
/-- The loop got through: a touched client either is not ready or was sent its
shares, and nobody else was sent any. -/
structure Finished (clients : List ClientIdentity) (sent sends : List MaskReply) (d d' : NodeRPCExecutionState) :
    Prop extends Drained d d' where
  answered : ∀ id request, d.assignedSinks id = some request →
    (d'.assignedSinks id = some request ∧ (id ∈ clients → ¬ Ready d id request)) ∨
      d'.assignedSinks id = none ∧ ∃ reply ∈ sends, request.answeredBy request.sink.peer reply = true
  sends_cases : ∀ reply ∈ sends, reply ∈ sent ∨ ∃ id request, d.assignedSinks id = some request ∧
    d'.assignedSinks id = none ∧ reply.recipient = request.sink.peer
  sent_sends : ∀ reply ∈ sent, reply ∈ sends
  unrejected : ∀ id ∈ clients, ∀ request, d.assignedSinks id = some request → ¬ Rejected codec d id request

variable (codec) in
/-- The loop stopped at a client: what it took out was ready, or is asked for
by somebody who does not own it. -/
structure Broken (clients : List ClientIdentity) (d d' : NodeRPCExecutionState) : Prop extends Drained d d' where
  lost : ∀ id request, d.assignedSinks id = some request →
    d'.assignedSinks id = some request ∨ Ready d id request ∨ Foreign d id request
  cause : ∃ id ∈ clients, ∃ request, d.assignedSinks id = some request ∧ Rejected codec d id request

/-- Every parked request is for a range of machine indices. -/
def Bounded (d : NodeRPCExecutionState) : Prop :=
  ∀ id request, d.assignedSinks id = some request → request.start.toNat + request.count.toNat < 2 ^ 64

theorem unpark_self (d : NodeRPCExecutionState) (id : ClientIdentity) : (d.unpark id).assignedSinks id = none := by
  simp [NodeRPCExecutionState.unpark, Table.erase_apply]

theorem unpark_of_ne {other : ClientIdentity} (different : other ≠ id) :
    (d.unpark id).assignedSinks other = d.assignedSinks other := by
  simp [NodeRPCExecutionState.unpark, Table.erase_apply, different]

theorem Bounded.unpark (bounded : Bounded d) (id : ClientIdentity) : Bounded (d.unpark id) :=
  fun other request held => bounded other request ((Drained.refl _).unpark id |>.taken other request held)

theorem Finished.skip {clients : List ClientIdentity} {sent sends : List MaskReply}
    (finished : Finished codec clients sent sends d d')
    (waits : ∀ request, d.assignedSinks id = some request → ¬ Ready d id request ∧ ¬ Rejected codec d id request) :
    Finished codec (id :: clients) sent sends d d' := by
  refine { finished with answered := fun other request held => ?_, unrejected := fun other member request held => ?_ }
  · refine (finished.answered other request held).imp_left (And.imp_right fun early member => ?_)
    rcases List.mem_cons.mp member with rfl | later
    · exact (waits request held).1
    · exact early later
  · rcases List.mem_cons.mp member with rfl | later
    · exact (waits request held).2
    · exact finished.unrejected other later request held

theorem Finished.answer {clients : List ClientIdentity} {sent sends : List MaskReply} {reply : MaskReply}
    (finished : Finished codec clients (sent ++ [reply]) sends (d.unpark id) d')
    (held : d.assignedSinks id = some request) (fits : request.answeredBy request.sink.peer reply = true)
    (readable : ¬ Rejected codec d id request) : Finished codec (id :: clients) sent sends d d' := by
  have gone : d'.assignedSinks id = none := by
    by_contra there
    obtain ⟨request, kept⟩ := Option.ne_none_iff_exists'.mp there
    have before := finished.taken id request kept
    rw [unpark_self] at before
    cases before
  have recipient : reply.recipient = request.sink.peer := by
    simp only [AssignedMaskRequest.answeredBy, decide_eq_true_eq] at fits
    exact fits.1
  refine { finished.toDrained.unpark id with answered := ?_, sends_cases := ?_, sent_sends := ?_, unrejected := ?_ }
  · intro other wanted parked
    by_cases same : other = id
    · subst same
      cases held.symm.trans parked
      exact Or.inr ⟨gone, reply, finished.sent_sends reply (by simp), fits⟩
    · rcases finished.answered other wanted ((unpark_of_ne same).trans parked) with ⟨kept, unready⟩ | done
      · refine Or.inl ⟨kept, fun member => ?_⟩
        exact unready ((List.mem_cons.mp member).resolve_left same)
      · exact Or.inr done
  · intro other member
    rcases finished.sends_cases other member with early | ⟨client, wanted, parked, done, recipient⟩
    · rcases List.mem_append.mp early with old | this
      · exact Or.inl old
      · cases List.mem_singleton.mp this
        exact Or.inr ⟨id, request, held, gone, recipient⟩
    · exact Or.inr ⟨client, wanted, (Drained.refl _).unpark id |>.taken client wanted parked, done, recipient⟩
  · exact fun other member => finished.sent_sends other (List.mem_append_left _ member)
  · intro other member wanted parked
    by_cases same : other = id
    · subst same
      cases held.symm.trans parked
      exact readable
    · rw [← rejected_unpark]
      exact finished.unrejected other ((List.mem_cons.mp member).resolve_left same) wanted
        ((unpark_of_ne same).trans parked)

theorem Broken.later {clients : List ClientIdentity} (broken : Broken codec clients d d') :
    Broken codec (id :: clients) d d' := by
  obtain ⟨other, member, cause⟩ := broken.cause
  exact { broken with cause := ⟨other, List.mem_cons_of_mem _ member, cause⟩ }

theorem Broken.unpark {clients : List ClientIdentity} (broken : Broken codec clients (d.unpark id) d')
    (held : d.assignedSinks id = some request) (ready : Ready d id request) : Broken codec (id :: clients) d d' := by
  refine { broken.toDrained.unpark id with lost := fun other wanted parked => ?_, cause := ?_ }
  · by_cases same : other = id
    · subst same
      cases held.symm.trans parked
      exact Or.inr (Or.inl ready)
    · exact broken.lost other wanted ((unpark_of_ne same).trans parked)
  · obtain ⟨other, member, wanted, parked, rejected⟩ := broken.cause
    exact ⟨other, List.mem_cons_of_mem _ member, wanted, (Drained.refl _).unpark id |>.taken other wanted parked,
      rejected_unpark.mp rejected⟩

theorem Broken.here {clients : List ClientIdentity} (held : d.assignedSinks id = some request)
    (rejected : Rejected codec d id request) (fate : Ready d id request ∨ Foreign d id request) :
    Broken codec (id :: clients) d (d.unpark id) := by
  refine { (Drained.refl (d.unpark id)).unpark id with lost := fun other wanted parked => ?_, cause := ?_ }
  · by_cases same : other = id
    · subst same
      cases held.symm.trans parked
      exact Or.inr fate
    · exact Or.inl ((unpark_of_ne same).trans parked)
  · exact ⟨id, List.mem_cons_self, request, held, rejected⟩

theorem completeRequests_outcome (filed : Filed d) (bounded : Bounded d) {clients : List ClientIdentity}
    {sent : List MaskReply} {result : Except NodeRPCError (List MaskReply)}
    (completed : completeRequests codec clients d sent = (result, d')) :
    (∀ sends, result = .ok sends → Finished codec clients sent sends d d') ∧
      ∀ refusal, result = .error refusal → Broken codec clients d d' := by
  induction clients generalizing d sent with
  | nil =>
    cases completed
    constructor
    · rintro _ ⟨⟩
      exact { Drained.refl _ with
        answered := fun _ _ held => Or.inl ⟨held, by simp⟩
        sends_cases := fun _ member => Or.inl member
        sent_sends := fun _ member => member
        unrejected := by simp }
    · rintro refusal ⟨⟩
  | cons id rest ih =>
    rw [completeRequests] at completed
    split at completed
    · rename_i vacant
      obtain ⟨fine, broken⟩ := ih filed bounded completed
      refine ⟨fun sends done => (fine sends done).skip ?_, fun refusal stopped => (broken refusal stopped).later⟩
      intro request held
      rw [vacant] at held
      cases held
    rename_i request held
    have outcome : Collected d id request.Covers _ := assignedMaskSharesForClient_outcome filed (bounded id request held)
    have answer : (d.unpark id).assignedMaskSharesForClient id request.start request.count =
        d.assignedMaskSharesForClient id request.start request.count := by
      simp only [assignedMaskSharesForClient, NodeRPCExecutionState.unpark, collectShares_sinks]
    rw [answer] at completed
    split at completed
    · rename_i refusal refused
      cases completed
      rw [refused] at outcome
      constructor
      · rintro sends ⟨⟩
      · intro _ _
        refine .here held (by simp [Rejected, refused]) (Or.inr ?_)
        cases outcome with
        | foreign covered owned other => exact ⟨_, _, covered, owned, other⟩
    · rename_i waits
      rw [park_unpark held] at completed
      obtain ⟨fine, broken⟩ := ih filed bounded completed
      refine ⟨fun sends done => (fine sends done).skip fun wanted parked => ?_,
        fun refusal stopped => (broken refusal stopped).later⟩
      cases held.symm.trans parked
      exact ⟨not_ready_of_waits filed waits, by simp [Rejected, waits]⟩
    · rename_i shares collected
      rw [collected] at outcome
      have ready : Ready d id request := by
        cases outcome with
        | all whole => exact whole
      split at completed
      · rename_i error unreadable
        cases completed
        constructor
        · rintro sends ⟨⟩
        · intro _ _
          exact .here held (by simp [Rejected, collected, unreadable]) (Or.inl ready)
      · rename_i readable
        obtain ⟨fine, broken⟩ := ih (d := d.unpark id) filed (bounded.unpark id) completed
        refine ⟨fun sends done => (fine sends done).answer held ?_ ?_,
          fun refusal stopped => (broken refusal stopped).unpark held ready⟩
        · simp [AssignedMaskRequest.answeredBy]
        · simp [Rejected, collected, readable]

/-- No index of the batch of a call is there already. -/
def Admits (d : NodeRPCExecutionState) : NodeAction S → Prop
  | .addAssignedReservedIndices reservations =>
    ∀ reservation ∈ reservations, d.indexToClient reservation.reservedIndex = none
  | .addMaskShares shares => ∀ entry ∈ shares, d.maskShares entry.1 = none
  | _ => False

variable (codec) in
/-- The state with the batch of a call in it, before parked requests are looked at. -/
def recorded (d : NodeRPCExecutionState) : NodeAction S → NodeRPCExecutionState
  | .addAssignedReservedIndices reservations => reservations.foldl recordReservation d
  | .addMaskShares shares => (recordShares codec shares d []).2
  | _ => d

/-- The batch of a call has an index of the client. -/
def Concerns (d : NodeRPCExecutionState) (id : ClientIdentity) : NodeAction S → Prop
  | .addAssignedReservedIndices reservations => ∃ reservation ∈ reservations, reservation.client = id
  | .addMaskShares shares => ∃ entry ∈ shares, d.indexToClient entry.1 = some id
  | _ => False

variable (codec) in
/-- The batch of a call has a share that does not serialize. -/
def Unserializable : NodeAction S → Prop
  | .addMaskShares shares => ∃ entry ∈ shares, codec.serializeCompressed entry.2 = none
  | _ => False

variable (codec) in
/-- The call records its batch and does not get to its end. -/
def Stops (d : NodeRPCExecutionState) (action : NodeAction S) : Prop :=
  Admits d action ∧ (Unserializable codec action ∨ ∃ id request, Concerns d id action ∧
    d.assignedSinks id = some request ∧ Rejected codec (d.recorded codec action) id request)

/-- What recording a batch does to a state. -/
structure Records (d : NodeRPCExecutionState) (action : NodeAction S) (d' : NodeRPCExecutionState) : Prop where
  grows : Grows d d'
  sinks : d'.assignedSinks = d.assignedSinks
  filed : Filed d → Filed d'
  untouched : ∀ id request, ¬ Concerns d id action → Ready d' id request → Ready d id request

theorem recordReservations_owner {reservations : List AssignedMaskReservation} {i : UInt64}
    (owned : (reservations.foldl recordReservation d).indexToClient i = some id) :
    d.indexToClient i = some id ∨ ∃ reservation ∈ reservations, reservation.client = id := by
  induction reservations generalizing d with
  | nil => exact Or.inl owned
  | cons reservation rest ih =>
    rcases ih owned with before | ⟨later, member, mine⟩
    · simp only [recordReservation, Table.insert_apply] at before
      split at before
      · exact Or.inr ⟨reservation, List.mem_cons_self, Option.some.inj before⟩
      · exact Or.inl before
    · exact Or.inr ⟨later, List.mem_cons_of_mem _ member, mine⟩

theorem recordReservations_filed {reservations : List AssignedMaskReservation} (filed : Filed d) :
    Filed (reservations.foldl recordReservation d) := by
  induction reservations generalizing d with
  | nil => exact filed
  | cons reservation rest ih =>
    refine ih fun i owned => ?_
    simp only [recordReservation, Table.insert_apply] at owned ⊢
    split
    · rfl
    · rename_i elsewhere
      rw [if_neg elsewhere] at owned
      exact filed i owned

theorem recordReservations_shares {reservations : List AssignedMaskReservation} :
    (reservations.foldl recordReservation d).maskShares = d.maskShares := by
  induction reservations generalizing d with
  | nil => rfl
  | cons reservation rest ih => exact ih

theorem Records.of_reservations {reservations : List AssignedMaskReservation}
    (vacant : ∀ reservation ∈ reservations, d.indexToClient reservation.reservedIndex = none) :
    Records d (.addAssignedReservedIndices reservations : NodeAction S) (reservations.foldl recordReservation d) := by
  obtain ⟨grows, sinks⟩ := recordReservations_spec vacant
  refine ⟨grows, sinks, recordReservations_filed, fun id request apart ready i covered => ?_⟩
  obtain ⟨owned, there⟩ := ready i covered
  rw [recordReservations_shares] at there
  exact ⟨(recordReservations_owner owned).resolve_right apart, there⟩

theorem Records.of_shares {shares : List (UInt64 × S)} (vacant : ∀ entry ∈ shares, d.maskShares entry.1 = none) :
    Records d (.addMaskShares shares) (recordShares codec shares d []).2 := by
  have done : recordShares codec shares d [] = (_, _) := (Prod.eta _).symm
  obtain ⟨owners, reservations, sinks⟩ := recordShares_frame done
  refine ⟨recordShares_grows vacant done, sinks, fun filed => ?_, fun id request apart ready i covered => ?_⟩
  · rwa [Filed, owners, reservations]
  · obtain ⟨owned, there⟩ := ready i covered
    rw [owners] at owned
    refine ⟨owned, ?_⟩
    rw [recordShares_spec done] at there
    · exact there
    · intro inside
      obtain ⟨entry, member, rfl⟩ := List.mem_map.mp inside
      exact apart ⟨entry, member, owned⟩

theorem Records.of_admits {action : NodeAction S} (admits : Admits d action) :
    Records d action (d.recorded codec action) := by
  cases action with
  | addAssignedReservedIndices reservations => exact .of_reservations admits
  | addMaskShares shares => exact .of_shares admits
  | _ => cases admits

theorem mem_touch {touched : List ClientIdentity} {other : ClientIdentity} :
    id ∈ touch touched other ↔ id ∈ touched ∨ id = other := by
  unfold touch
  split
  · rename_i there
    exact ⟨Or.inl, fun member => member.elim (fun old => old) fun this => this ▸ there⟩
  · simp

theorem mem_foldl_touch {clients touched : List ClientIdentity} :
    id ∈ clients.foldl touch touched ↔ id ∈ touched ∨ id ∈ clients := by
  induction clients generalizing touched with
  | nil => simp
  | cons client rest ih => rw [List.foldl_cons, ih, mem_touch, List.mem_cons, or_assoc]

/-- A batch of shares is recorded as a whole exactly when all of it serializes;
the clients it touches are then the owners of its indices. -/
theorem recordShares_result {shares : List (UInt64 × S)} {touched : List ClientIdentity}
    {result : Except NodeRPCError (List ClientIdentity)} (recorded : recordShares codec shares d touched = (result, d')) :
    (∀ refusal, result = .error refusal → ∃ entry ∈ shares, codec.serializeCompressed entry.2 = none) ∧
      ∀ clients, result = .ok clients → (∀ entry ∈ shares, codec.serializeCompressed entry.2 ≠ none) ∧
        ∀ id, id ∈ clients ↔ id ∈ touched ∨ ∃ entry ∈ shares, d.indexToClient entry.1 = some id := by
  induction shares generalizing d touched with
  | nil =>
    cases recorded
    constructor
    · rintro refusal ⟨⟩
    · rintro _ ⟨⟩
      simp
  | cons entry rest ih =>
    rw [recordShares] at recorded
    split at recorded
    · rename_i unserialized
      cases recorded
      constructor
      · intro refusal _
        exact ⟨entry, List.mem_cons_self, unserialized⟩
      · rintro clients ⟨⟩
    · rename_i bytes serialized
      obtain ⟨failed, done⟩ := ih recorded
      refine ⟨fun refusal stopped => ?_, fun clients finished => ?_⟩
      · obtain ⟨later, member, unserialized⟩ := failed refusal stopped
        exact ⟨later, List.mem_cons_of_mem _ member, unserialized⟩
      · obtain ⟨whole, touches⟩ := done clients finished
        refine ⟨by simpa [serialized] using whole, fun id => ?_⟩
        rw [touches]
        simp only [recordShare, List.mem_cons, exists_eq_or_imp]
        split
        · rename_i vacant
          simp [vacant]
        · rename_i owner owned
          rw [mem_touch, owned, Option.some.injEq, or_assoc, eq_comm (a := id)]

variable (codec) in
/-- How a batch call ends: refused at once, with every client that it concerns
looked after, or stopped on the way. -/
inductive BatchOutcome (d : NodeRPCExecutionState) (action : NodeAction S) : List MaskReply → NodeRPCExecutionState → Prop
  | refused : ¬ Admits d action → BatchOutcome d action [] d
  | finished {clients replies after} : Admits d action → ¬ Stops codec d action →
      (∀ id, Concerns d id action → id ∈ clients) →
      Finished codec clients [] replies (d.recorded codec action) after → BatchOutcome d action replies after
  | stopped {after} : Stops codec d action → Drained (d.recorded codec action) after →
      (∀ id request, d.assignedSinks id = some request → after.assignedSinks id = some request ∨
        Ready (d.recorded codec action) id request ∨ Foreign (d.recorded codec action) id request) →
      BatchOutcome d action [] after

/-- The loop over the clients of a recorded batch. -/
theorem BatchOutcome.of_loop {action : NodeAction S} {clients : List ClientIdentity} {replies : List MaskReply}
    (filed : Filed d) (bounded : Bounded d) (admits : Admits d action) (whole : ¬ Unserializable codec action)
    (concerned : ∀ id, id ∈ clients ↔ Concerns d id action)
    (sent : sends (completeRequests codec clients (d.recorded codec action) []) = (replies, d')) :
    BatchOutcome codec d action replies d' := by
  have records : Records d action (d.recorded codec action) := .of_admits admits
  have limits : Bounded (d.recorded codec action) := by
    rw [Bounded, records.sinks]
    exact bounded
  cases result : completeRequests codec clients (d.recorded codec action) [] with
  | mk outcome after =>
    rw [result] at sent
    obtain ⟨fine, broken⟩ := completeRequests_outcome (records.filed filed) limits result
    cases outcome with
    | error refusal =>
      cases sent
      have stopped := broken refusal rfl
      obtain ⟨id, member, request, held, rejected⟩ := stopped.cause
      rw [records.sinks] at held
      refine .stopped ⟨admits, Or.inr ⟨id, request, (concerned id).mp member, held, rejected⟩⟩ stopped.toDrained ?_
      intro other wanted parked
      exact stopped.lost other wanted (by rw [records.sinks]; exact parked)
    | ok pendingSends =>
      cases sent
      have finished := fine _ rfl
      refine .finished admits ?_ (fun id => (concerned id).mpr) finished
      rintro ⟨_, unserialized | ⟨id, request, concerns, held, rejected⟩⟩
      · exact whole unserialized
      · exact finished.unrejected id ((concerned id).mpr concerns) request (by rw [records.sinks]; exact held) rejected

theorem BatchOutcome.of_reservations {reservations : List AssignedMaskReservation} {replies : List MaskReply}
    (filed : Filed d) (bounded : Bounded d)
    (sent : sends (d.addAssignedReservedIndices codec reservations) = (replies, d')) :
    BatchOutcome codec d (.addAssignedReservedIndices reservations) replies d' := by
  unfold NodeRPCExecutionState.addAssignedReservedIndices at sent
  split at sent
  · rename_i taken
    cases sent
    refine .refused fun admits => ?_
    obtain ⟨reservation, member, there⟩ := List.any_eq_true.mp taken
    simp [admits reservation member] at there
  · rename_i fresh
    refine .of_loop filed bounded (by simpa [Admits] using fresh) nofun (fun id => ?_) sent
    simp [mem_foldl_touch, Concerns]

theorem BatchOutcome.of_shares {shares : List (UInt64 × S)} {replies : List MaskReply} (filed : Filed d)
    (bounded : Bounded d) (sent : sends (d.addMaskShares codec shares) = (replies, d')) :
    BatchOutcome codec d (.addMaskShares shares) replies d' := by
  unfold NodeRPCExecutionState.addMaskShares at sent
  split at sent
  · rename_i taken
    cases sent
    refine .refused fun admits => ?_
    obtain ⟨entry, member, there⟩ := List.any_eq_true.mp taken
    simp [admits entry member] at there
  rename_i fresh
  have admits : Admits d (.addMaskShares shares) := by simpa [Admits] using fresh
  split at sent
  · rename_i refusal after done
    cases sent
    have here : d.recorded codec (.addMaskShares shares) = d' := by rw [recorded, done]
    refine .stopped ⟨admits, Or.inl ((recordShares_result done).1 _ rfl)⟩ (here ▸ Drained.refl d') ?_
    intro id request held
    left
    rwa [(recordShares_frame done).2.2]
  · rename_i clients after done
    have here : d.recorded codec (.addMaskShares shares) = after := by rw [recorded, done]
    obtain ⟨whole, concerned⟩ := (recordShares_result done).2 clients rfl
    refine .of_loop filed bounded admits ?_ (fun id => ?_) (here.symm ▸ sent)
    · rintro ⟨entry, member, unserialized⟩
      exact whole entry member unserialized
    · simp [concerned, Concerns]

/-- Those who still wait after replies have gone out. -/
def unanswered (waiting : Table ClientIdentity AssignedMaskRequest) (replies : List MaskReply) :
    Table ClientIdentity AssignedMaskRequest :=
  fun id => (waiting id).filter fun request => !replies.any (request.answeredBy id)

variable (codec) in
/-- What clients wait for after one more call. A subscription supersedes the
earlier one of its client, and waits when it is accepted and not served at
once; a batch call serves some that wait. A poll serves no subscription. -/
def await (waiting : Table ClientIdentity AssignedMaskRequest) (τ : Transition NodeRPCExecutionState (NodeCall S)) :
    Table ClientIdentity AssignedMaskRequest :=
  match τ.event.action with
  | .receiveAssignedMaskShares id start count accepted =>
    match (τ.source.receiveAssignedMaskShares codec id start count accepted).1, accepted with
    | .ok [], some handle => waiting.insert id ⟨start, count, ⟨handle, id⟩⟩
    | _, _ => waiting.erase id
  | .browserAssignedMaskShares _ _ => waiting
  | _ => unanswered waiting τ.event.replies

variable (codec) in
/-- The accepted requests that their clients have not superseded and that no
shares were sent for. -/
def outstanding (trace : List (Transition NodeRPCExecutionState (NodeCall S))) : Table ClientIdentity AssignedMaskRequest :=
  trace.foldl (await codec) Table.empty

variable (codec) in
/-- Nobody waits for shares that are all there. -/
def NoneLost (trace : List (Transition NodeRPCExecutionState (NodeCall S))) (d : NodeRPCExecutionState) : Prop :=
  ∀ id request, outstanding codec trace id = some request → ¬ Ready d id request

variable (codec) in
/-- A call that records its batch and does not get to its end finds no parked
request that the batch makes ready. -/
def LosesNone (d : NodeRPCExecutionState) (action : NodeAction S) : Prop :=
  Stops codec d action → ∀ id request, d.assignedSinks id = some request → ¬ Ready (d.recorded codec action) id request

/-- Who waits is parked, or asks for what is another client's, or was passed
over; who is parked waits. -/
structure Watches (waiting : Table ClientIdentity AssignedMaskRequest) (d : NodeRPCExecutionState) : Prop where
  filed : Filed d
  bounded : Bounded d
  parked : ∀ id request, d.assignedSinks id = some request → request.sink.peer = id ∧ waiting id = some request
  fate : ∀ id request, waiting id = some request →
    d.assignedSinks id = some request ∨ Foreign d id request ∨ Ready d id request

theorem poll_keeps {range : MaskRange} {replies : List MaskReply}
    (step : d.Step codec ⟨.browserAssignedMaskShares id range, replies⟩ d') : d' = d := by
  simp only [Step, respond] at step
  split at step <;> exact (Prod.mk.inj step).2.symm

/-- What a subscription does: it leaves its client without a parked request, or
parks the new one because something of its range is missing. -/
theorem await_subscription (waiting : Table ClientIdentity AssignedMaskRequest) {start count : UInt64} {accepted : Option Nat} {replies : List MaskReply}
    (step : d.Step codec ⟨.receiveAssignedMaskShares id start count accepted, replies⟩ d') :
    (await codec waiting ⟨d, ⟨.receiveAssignedMaskShares id start count accepted, replies⟩, d'⟩ = waiting.erase id ∧
        d' = d.unpark id) ∨
      ∃ handle, await codec waiting ⟨d, ⟨.receiveAssignedMaskShares id start count accepted, replies⟩, d'⟩ =
          waiting.insert id ⟨start, count, ⟨handle, id⟩⟩ ∧
        d' = (d.unpark id).park id ⟨start, count, ⟨handle, id⟩⟩ ∧
        d.assignedMaskSharesForClient id start count = .ok none := by
  have answer : (d.unpark id).assignedMaskSharesForClient id start count =
      d.assignedMaskSharesForClient id start count := by
    simp only [assignedMaskSharesForClient, NodeRPCExecutionState.unpark, collectShares_sinks]
  have sent : sends (d.receiveAssignedMaskShares codec id start count accepted) = (replies, d') := step
  simp only [await]
  simp only [NodeRPCExecutionState.receiveAssignedMaskShares, answer] at sent ⊢
  cases collected : d.assignedMaskSharesForClient id start count with
  | error refusal =>
    rw [collected] at sent
    cases sent
    exact Or.inl ⟨rfl, rfl⟩
  | ok answer =>
    rw [collected] at sent
    cases answer with
    | none =>
      cases accepted with
      | none =>
        cases sent
        exact Or.inl ⟨rfl, rfl⟩
      | some handle =>
        cases sent
        exact Or.inr ⟨handle, rfl, rfl, rfl⟩
    | some shares =>
      refine Or.inl ?_
      cases read : codec.toJson shares with
      | error unreadable =>
        simp only [read, sends, rpcError, Prod.mk.injEq] at sent ⊢
        exact ⟨trivial, sent.2.symm⟩
      | ok =>
        cases accepted <;> simp only [read, sends, Prod.mk.injEq] at sent ⊢ <;> exact ⟨trivial, sent.2.symm⟩

variable {waiting : Table ClientIdentity AssignedMaskRequest}

theorem Watches.erase (watches : Watches waiting d) (id : ClientIdentity) : Watches (waiting.erase id) (d.unpark id) := by
  refine ⟨watches.filed, watches.bounded.unpark id, fun other request held => ?_, fun other request waits => ?_⟩
  · have different : other ≠ id := by
      rintro rfl
      rw [unpark_self] at held
      cases held
    obtain ⟨mine, waits⟩ := watches.parked other request ((unpark_of_ne different).symm.trans held)
    exact ⟨mine, by rw [Table.erase_apply, if_neg different]; exact waits⟩
  · rw [Table.erase_apply] at waits
    split at waits
    · cases waits
    · rename_i different
      exact (watches.fate other request waits).imp_left (unpark_of_ne different).trans

theorem Watches.insert (watches : Watches waiting d) (mine : request.sink.peer = id)
    (bound : request.start.toNat + request.count.toNat < 2 ^ 64) :
    Watches (waiting.insert id request) ((d.unpark id).park id request) := by
  have aside := watches.erase id
  have sinks : ∀ other, ((d.unpark id).park id request).assignedSinks other =
      if other = id then some request else (d.unpark id).assignedSinks other :=
    fun other => Table.insert_apply _ _ _ _
  have table : ∀ other, waiting.insert id request other =
      if other = id then some request else waiting.erase id other := by
    intro other
    rw [Table.insert_apply, Table.erase_apply]
    split <;> rfl
  refine ⟨watches.filed, fun other wanted held => ?_, fun other wanted held => ?_, fun other wanted waits => ?_⟩
  · rw [sinks] at held
    split at held
    · cases held
      exact bound
    · exact aside.bounded other wanted held
  · rw [sinks] at held
    rw [table]
    split at held
    · rename_i same
      cases held
      rw [if_pos same, same]
      exact ⟨mine, rfl⟩
    · rename_i different
      rw [if_neg different]
      exact aside.parked other wanted held
  · rw [table] at waits
    rw [sinks]
    split at waits
    · rename_i same
      cases waits
      rw [if_pos same]
      exact Or.inl rfl
    · rename_i different
      rw [if_neg different]
      exact aside.fate other wanted waits

theorem unanswered_nil : unanswered waiting [] = waiting := by
  funext id
  rw [unanswered]
  cases waiting id <;> rfl

theorem unanswered_eq_some {replies : List MaskReply} : unanswered waiting replies id = some request ↔
    waiting id = some request ∧ ∀ reply ∈ replies, request.answeredBy id reply = false := by
  simp [unanswered, Option.filter_eq_some_iff]

theorem Drained.ready (drained : Drained d d') : Ready d' id request ↔ Ready d id request := by
  rw [drained.store]
  exact Iff.rfl

theorem Drained.foreign (drained : Drained d d') : Foreign d' id request ↔ Foreign d id request := by
  rw [drained.store]
  exact Iff.rfl

theorem Drained.filed (drained : Drained d d') (filed : Filed d) : Filed d' := by
  rw [drained.store]
  exact filed

/-- A client whose request is still parked was sent nothing. -/
theorem Watches.unsent {action : NodeAction S} {clients : List ClientIdentity} {replies : List MaskReply}
    (watches : Watches waiting d) (records : Records d action (d.recorded codec action))
    (finished : Finished codec clients [] replies (d.recorded codec action) d') (kept : d'.assignedSinks id = some request)
    {reply : MaskReply} (member : reply ∈ replies) : request.answeredBy id reply = false := by
  rw [← Bool.not_eq_true]
  intro answered
  simp only [AssignedMaskRequest.answeredBy, decide_eq_true_eq] at answered
  rcases finished.sends_cases reply member with none | ⟨other, parked, held, gone, recipient⟩
  · cases none
  · rw [records.sinks] at held
    obtain rfl : other = id := (watches.parked other parked held).1.symm.trans (recipient.symm.trans answered.1)
    rw [gone] at kept
    cases kept

theorem Watches.batch {action : NodeAction S} {replies : List MaskReply} (watches : Watches waiting d)
    (outcome : BatchOutcome codec d action replies d') : Watches (unanswered waiting replies) d' := by
  cases outcome with
  | refused => rwa [unanswered_nil]
  | @finished clients _ _ admits _ _ finished =>
    have records : Records d action (d.recorded codec action) := .of_admits admits
    have before : ∀ id request, d'.assignedSinks id = some request → d.assignedSinks id = some request := by
      intro id request held
      rw [← records.sinks]
      exact finished.taken id request held
    refine ⟨finished.toDrained.filed (records.filed watches.filed), fun id request held =>
      watches.bounded id request (before id request held), fun id request held => ?_, fun id request waits => ?_⟩
    · obtain ⟨mine, waits⟩ := watches.parked id request (before id request held)
      exact ⟨mine, unanswered_eq_some.mpr ⟨waits, fun _ member => watches.unsent records finished held member⟩⟩
    · obtain ⟨waits, unsent⟩ := unanswered_eq_some.mp waits
      rw [finished.toDrained.foreign, finished.toDrained.ready]
      rcases watches.fate id request waits with held | foreign | ready
      · rcases finished.answered id request (by rw [records.sinks]; exact held) with ⟨kept, _⟩ | ⟨_, reply, member, answered⟩
        · exact Or.inl kept
        · rw [(watches.parked id request held).1, unsent reply member] at answered
          cases answered
      · exact Or.inr (Or.inl (foreign.mono records.grows))
      · exact Or.inr (Or.inr (ready.mono records.grows))
  | stopped stops drained lost =>
    have records : Records d action (d.recorded codec action) := .of_admits stops.1
    have before : ∀ id request, d'.assignedSinks id = some request → d.assignedSinks id = some request := by
      intro id request held
      rw [← records.sinks]
      exact drained.taken id request held
    rw [unanswered_nil]
    refine ⟨drained.filed (records.filed watches.filed), fun id request held =>
      watches.bounded id request (before id request held), fun id request held =>
      watches.parked id request (before id request held), fun id request waits => ?_⟩
    rw [drained.foreign, drained.ready]
    rcases watches.fate id request waits with held | foreign | ready
    · exact (lost id request held).imp_right Or.symm
    · exact Or.inr (Or.inl (foreign.mono records.grows))
    · exact Or.inr (Or.inr (ready.mono records.grows))

/-- A batch call leaves nobody waiting for what is there exactly when it is
not stopped while somebody's request is ready. -/
theorem Watches.batch_iff {action : NodeAction S} {replies : List MaskReply} (watches : Watches waiting d)
    (outcome : BatchOutcome codec d action replies d')
    (none : ∀ id request, waiting id = some request → ¬ Ready d id request) :
    (∀ id request, unanswered waiting replies id = some request → ¬ Ready d' id request) ↔ LosesNone codec d action := by
  cases outcome with
  | refused refused =>
    rw [unanswered_nil]
    exact iff_of_true none fun stops => absurd stops.1 refused
  | finished admits unstopped concerned finished =>
    have records : Records d action (d.recorded codec action) := .of_admits admits
    refine iff_of_true (fun id request waits => ?_) fun stops => absurd stops unstopped
    obtain ⟨waits, unsent⟩ := unanswered_eq_some.mp waits
    rw [finished.toDrained.ready]
    intro ready
    rcases watches.fate id request waits with held | foreign | early
    · rcases finished.answered id request (by rw [records.sinks]; exact held) with ⟨_, unready⟩ | ⟨_, reply, member, answered⟩
      · by_cases concerns : Concerns d id action
        · exact unready (concerned id concerns) ready
        · exact none id request waits (records.untouched id request concerns ready)
      · rw [(watches.parked id request held).1, unsent reply member] at answered
        cases answered
    · exact (foreign.mono records.grows).not_ready ready
    · exact none id request waits early
  | stopped stops drained lost =>
    have records : Records d action (d.recorded codec action) := .of_admits stops.1
    rw [unanswered_nil]
    constructor
    · intro unready _ id request held
      rw [← drained.ready]
      exact unready id request (watches.parked id request held).2
    · intro guarded id request waits
      rw [drained.ready]
      rcases watches.fate id request waits with held | foreign | early
      · exact guarded stops id request held
      · exact (foreign.mono records.grows).not_ready
      · exact absurd early (none id request waits)

theorem Watches.step {call : NodeCall S} (watches : Watches waiting d) (step : d.Step codec call d') :
    Watches (await codec waiting ⟨d, call, d'⟩) d' := by
  obtain ⟨action, replies⟩ := call
  cases action with
  | addAssignedReservedIndices reservations =>
    exact watches.batch (.of_reservations watches.filed watches.bounded step)
  | addMaskShares shares => exact watches.batch (.of_shares watches.filed watches.bounded step)
  | receiveAssignedMaskShares id start count accepted =>
    rcases await_subscription waiting step with ⟨table, after⟩ | ⟨handle, table, after, waits⟩
    · rw [table, after]
      exact watches.erase id
    · rw [table, after]
      exact watches.insert rfl (bound_of_waits waits)
  | browserAssignedMaskShares identity range =>
    obtain rfl := poll_keeps step
    exact watches

/-- One call leaves nobody waiting for what is there exactly when it is no
batch call that is stopped while somebody's request is ready. -/
theorem Watches.step_iff {call : NodeCall S} (watches : Watches waiting d)
    (none : ∀ id request, waiting id = some request → ¬ Ready d id request) (step : d.Step codec call d') :
    (∀ id request, await codec waiting ⟨d, call, d'⟩ id = some request → ¬ Ready d' id request) ↔
      LosesNone codec d call.action := by
  obtain ⟨action, replies⟩ := call
  cases action with
  | addAssignedReservedIndices reservations =>
    exact watches.batch_iff (.of_reservations watches.filed watches.bounded step) none
  | addMaskShares shares => exact watches.batch_iff (.of_shares watches.filed watches.bounded step) none
  | receiveAssignedMaskShares id start count accepted =>
    refine iff_of_true (fun other request waits => ?_) fun stops => stops.1.elim
    rcases await_subscription waiting step with ⟨table, after⟩ | ⟨handle, table, after, collected⟩
    · rw [after]
      rw [table, Table.erase_apply] at waits
      split at waits
      · cases waits
      · exact none other request waits
    · rw [after]
      rw [table, Table.insert_apply] at waits
      split at waits
      · rename_i same
        cases waits
        subst same
        have unready : ¬ Ready d other ⟨start, count, ⟨handle, other⟩⟩ := not_ready_of_waits watches.filed collected
        exact unready
      · exact none other request waits
  | browserAssignedMaskShares identity range =>
    obtain rfl := poll_keeps step
    exact iff_of_true none fun stops => stops.1.elim

variable {trace : List (Transition NodeRPCExecutionState (NodeCall S))} {final : NodeRPCExecutionState}

theorem outstanding_append (τ : Transition NodeRPCExecutionState (NodeCall S)) :
    outstanding codec (trace ++ [τ]) = await codec (outstanding codec trace) τ := by
  simp [outstanding]

/-- After every call of a run nobody waits for shares that are all there,
exactly when no batch call is stopped while somebody's request is ready. -/
theorem no_lost_wakeup_iff (run : Run (Step codec) new trace final) :
    (∀ before after d, trace = before ++ after → Run (Step codec) new before d → NoneLost codec before d) ↔
      ∀ τ ∈ trace, LosesNone codec τ.source τ.event.action := by
  refine run.history_iff (I := fun trace d => Watches (outstanding codec trace) d)
    (P := NoneLost codec) (G := fun d call => LosesNone codec d call.action) ?_ ?_ ?_ ?_
  · exact ⟨nofun, nofun, nofun, nofun⟩
  · intro trace d call d' watches step
    rw [outstanding_append]
    exact watches.step step
  · exact nofun
  · intro trace d call d' watches none step
    rw [NoneLost, outstanding_append]
    exact watches.step_iff none step

variable (codec) in
/-- Whether a client has a parked request that would end the loop. -/
def rejects (d : NodeRPCExecutionState) (sinks : Table ClientIdentity AssignedMaskRequest) (id : ClientIdentity) : Bool :=
  (sinks id).any fun request =>
    match d.assignedMaskSharesForClient id request.start request.count with
    | .error _ => true
    | .ok none => false
    | .ok (some assignedShares) => (codec.toJson assignedShares).toOption.isNone

theorem rejects_of_rejected {sinks : Table ClientIdentity AssignedMaskRequest} (held : sinks id = some request)
    (rejected : Rejected codec d id request) : rejects codec d sinks id = true := by
  simp only [rejects, held, Option.any_some]
  unfold Rejected at rejected
  split
  · rfl
  · rename_i waits
    rw [waits] at rejected
    cases rejected
  · rename_i shares collected
    rw [collected] at rejected
    obtain ⟨error, unreadable⟩ := rejected
    rw [unreadable]
    rfl

variable (codec) in
/-- Whether a call may be stopped, by evaluation. -/
def mayStop (d : NodeRPCExecutionState) (call : NodeCall S) : Bool :=
  match call.action with
  | .addAssignedReservedIndices reservations =>
    reservations.any fun reservation => rejects codec (d.recorded codec call.action) d.assignedSinks reservation.client
  | .addMaskShares shares => shares.any fun entry => (codec.serializeCompressed entry.2).isNone ||
      (d.indexToClient entry.1).any (rejects codec (d.recorded codec call.action) d.assignedSinks)
  | _ => false

theorem losesNone_of_check {call : NodeCall S} (checked : mayStop codec d call = false) :
    LosesNone codec d call.action := by
  obtain ⟨action, replies⟩ := call
  rintro ⟨admits, unserialized | ⟨id, request, concerns, held, rejected⟩⟩
  · cases action with
    | addMaskShares shares =>
      obtain ⟨entry, member, none⟩ := unserialized
      simp only [mayStop, List.any_eq_false] at checked
      exact absurd (by simp [none]) (checked entry member)
    | _ => cases unserialized
  · have stops := rejects_of_rejected held rejected
    cases action with
    | addAssignedReservedIndices reservations =>
      obtain ⟨reservation, member, rfl⟩ := concerns
      simp only [mayStop, List.any_eq_false] at checked
      exact absurd stops (checked reservation member)
    | addMaskShares shares =>
      obtain ⟨entry, member, owned⟩ := concerns
      simp only [mayStop, List.any_eq_false] at checked
      exact absurd (by simp [owned, stops]) (checked entry member)
    | _ => cases concerns

/-- A client that waits for two shares is served when both are there, and
nobody waits in vain on the way. -/
theorem no_lost_wakeup_iff_after_waiting :
    ∃ trace final, Run (Step machineCodec) new trace final ∧ trace.map Transition.event = waitingCalls ∧
      ∀ before after d, trace = before ++ after → Run (Step machineCodec) new before d →
        NoneLost machineCodec before d := by
  have done : (Run.execute (fun d call => if !mayStop machineCodec d call then next machineCodec d call else none) new
      waitingCalls).map (fun _ => ()) = some () := by decide +kernel
  obtain ⟨trace, final, run, events, _, checked⟩ := Run.exists_of_checked Step.of_next done
  refine ⟨trace, final, run, events, (no_lost_wakeup_iff run).mpr fun τ member => ?_⟩
  exact losesNone_of_check (by simpa using checked τ member)

/-- One client waits for indices 0 and 1, and another for 0. A batch gives the
second index to the first client and the first index to the second. -/
def strandingCalls : List (NodeCall UInt64) :=
  [⟨.receiveAssignedMaskShares [3] 0 2 (some 0), []⟩,
    ⟨.receiveAssignedMaskShares [2] 0 1 (some 1), []⟩,
    ⟨.addMaskShares [(0, 7), (1, 8)], []⟩,
    ⟨.addAssignedReservedIndices [⟨[3], 1, 0⟩, ⟨[2], 0, 0⟩], []⟩]

/-- The first client's request stops the batch call. The second client owns
all of its range, the share is there, and nothing is sent to it. -/
theorem exists_run_stranding_client :
    ∃ trace final, Run (Step machineCodec) new trace final ∧ trace.map Transition.event = strandingCalls ∧
      outstanding machineCodec trace [2] = some ⟨0, 1, ⟨1, [2]⟩⟩ ∧ Ready final [2] ⟨0, 1, ⟨1, [2]⟩⟩ := by
  have done : (Run.execute (next machineCodec) new strandingCalls).map
      (fun d => (d.indexToClient 0, d.maskShares 0)) = some (some [2], some (leBytes64 7)) := by decide +kernel
  obtain ⟨final, reached, seen⟩ := Option.map_eq_some_iff.mp done
  obtain ⟨run, events⟩ := Run.of_execute Step.of_next reached
  obtain ⟨owned, stored⟩ := Prod.mk.inj seen
  refine ⟨_, final, run, events, by decide +kernel, fun i covered => ?_⟩
  obtain rfl : i = 0 := by
    have low : i.toNat < 0 + 1 := covered.2
    rw [← UInt64.toNat_inj]
    exact Nat.lt_one_iff.mp low
  exact ⟨owned, by simp [stored]⟩

end NodeRPCExecutionState

end MpcCoordinator
