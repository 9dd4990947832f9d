import MpcCoordinator.Node.State

namespace MpcCoordinator

/-- The call asks for the shares of a range, in the name of `id`. -/
def NodeAction.Asks {S : Type} (id : ClientIdentity) (start count : UInt64) : NodeAction S → Prop
  | .receiveAssignedMaskShares caller first length _ => caller = id ∧ first = start ∧ length = count
  | .browserAssignedMaskShares caller range => caller = id ∧ range.start = start ∧ range.count = count
  | _ => False

namespace NodeRPCExecutionState

variable {S : Type} {codec : ShareCodec S} {d d' : NodeRPCExecutionState} {id : ClientIdentity}

/-- A reply lists its range in ascending order, and every share in it is the
one stored for an index that its recipient owns. -/
structure Serves (d : NodeRPCExecutionState) (reply : MaskReply) : Prop where
  listed : reply.shares.map (fun share => share.reservedIndex.toNat) =
    List.range' reply.start.toNat reply.count.toNat
  owned : ∀ share ∈ reply.shares, d.indexToClient share.reservedIndex = some reply.recipient
  stored : ∀ share ∈ reply.shares, d.maskShares share.reservedIndex = some share.shareBytes

/-- Owners and shares stay once they are there. -/
structure Grows (d d' : NodeRPCExecutionState) : Prop where
  owner : ∀ i c, d.indexToClient i = some c → d'.indexToClient i = some c
  share : ∀ i x, d.maskShares i = some x → d'.maskShares i = some x

theorem Grows.refl (d : NodeRPCExecutionState) : Grows d d := ⟨fun _ _ held => held, fun _ _ held => held⟩

theorem Grows.trans {a b c : NodeRPCExecutionState} (first : Grows a b) (second : Grows b c) : Grows a c :=
  ⟨fun i x held => second.owner i x (first.owner i x held), fun i x held => second.share i x (first.share i x held)⟩

theorem Serves.mono {reply : MaskReply} (serves : Serves d reply) (grows : Grows d d') : Serves d' reply :=
  ⟨serves.listed, fun share member => grows.owner _ _ (serves.owned share member),
    fun share member => grows.share _ _ (serves.stored share member)⟩

/-- What the loop over a range adds to the shares it has. -/
theorem collectShares_some {n : Nat} {i : UInt64} {before shares : List AssignedMaskShare}
    (bound : i.toNat + n < 2 ^ 64) (collected : d.collectShares id n i before = .ok (some shares)) :
    ∃ added, shares = before ++ added ∧
      added.map (fun share => share.reservedIndex.toNat) = List.range' i.toNat n ∧
      (∀ share ∈ added, d.indexToClient share.reservedIndex = some id) ∧
      ∀ share ∈ added, d.maskShares share.reservedIndex = some share.shareBytes := by
  induction n generalizing i before with
  | zero =>
    cases collected
    exact ⟨[], by simp, rfl, by simp, by simp⟩
  | succ n ih =>
    rw [collectShares] at collected
    split at collected
    · cases collected
    rename_i client owner
    split at collected
    · cases collected
    rename_i mine
    obtain rfl := not_not.mp mine
    split at collected
    · cases collected
    rename_i bytes share
    unfold assignedMaskShare at collected
    split at collected
    · cases collected
    rename_i assigned found
    split at found
    · cases found
    cases found
    have next : (i + 1).toNat = i.toNat + 1 := by
      rw [UInt64.toNat_add, UInt64.toNat_one]
      omega
    obtain ⟨added, rfl, listed, owned, stored⟩ := ih (by omega) collected
    refine ⟨⟨i, bytes⟩ :: added, by simp, ?_, ?_, ?_⟩
    · rw [List.map_cons, listed, next, List.range'_succ]
    · simpa using ⟨owner, owned⟩
    · simpa using ⟨share, stored⟩

theorem assignedMaskSharesForClient_some {start count : UInt64} {shares : List AssignedMaskShare}
    (answered : d.assignedMaskSharesForClient id start count = .ok (some shares)) :
    Serves d ⟨id, start, count, shares⟩ := by
  unfold assignedMaskSharesForClient at answered
  split at answered
  · rename_i bound
    obtain ⟨added, rfl, listed, owned, stored⟩ := collectShares_some bound answered
    exact ⟨listed, owned, stored⟩
  · cases answered

/-- Every parked request belongs to the client it is filed under, who asked
for its range. -/
def Parked (asked : ClientIdentity → UInt64 → UInt64 → Prop) (d : NodeRPCExecutionState) : Prop :=
  ∀ id request, d.assignedSinks id = some request →
    request.sink.peer = id ∧ asked id request.start request.count

variable {asked : ClientIdentity → UInt64 → UInt64 → Prop}

theorem Parked.unpark (parked : Parked asked d) (id : ClientIdentity) : Parked asked (d.unpark id) := by
  intro other request held
  simp only [NodeRPCExecutionState.unpark, Table.erase_apply] at held
  split at held
  · cases held
  · exact parked other request held

theorem Parked.park {request : AssignedMaskRequest} (parked : Parked asked d) (mine : request.sink.peer = id)
    (wanted : asked id request.start request.count) : Parked asked (d.park id request) := by
  intro other held found
  simp only [NodeRPCExecutionState.park, Table.insert_apply] at found
  split at found
  · rename_i same
    cases found
    exact same ▸ ⟨mine, wanted⟩
  · exact parked other held found

/-- What the loop over touched clients does: no owner or share moves, requests
stay filed right, and what it sends serves a request that was parked. -/
theorem completeRequests_spec {clients : List ClientIdentity} {sent : List MaskReply}
    {result : Except NodeRPCError (List MaskReply)} (parked : Parked asked d)
    (completed : completeRequests codec clients d sent = (result, d')) :
    Grows d d' ∧ Parked asked d' ∧ ∀ pendingSends, result = .ok pendingSends → ∀ reply ∈ pendingSends,
      reply ∈ sent ∨ Serves d' reply ∧ asked reply.recipient reply.start reply.count := by
  induction clients generalizing d sent with
  | nil =>
    cases completed
    refine ⟨.refl _, parked, ?_⟩
    rintro _ ⟨⟩ reply member
    exact Or.inl member
  | cons id rest ih =>
    rw [completeRequests] at completed
    split at completed
    · exact ih parked completed
    rename_i request held
    obtain ⟨mine, wanted⟩ := parked id request held
    have aside : Grows d (d.unpark id) := { Grows.refl d with }
    split at completed
    · cases completed
      exact ⟨aside, parked.unpark id, nofun⟩
    · obtain ⟨grows, filed, served⟩ := ih ((parked.unpark id).park mine wanted) completed
      have back : Grows d ((d.unpark id).park id request) := { Grows.refl d with }
      exact ⟨back.trans grows, filed, served⟩
    · rename_i shares answered
      split at completed
      · cases completed
        exact ⟨aside, parked.unpark id, nofun⟩
      · obtain ⟨grows, filed, served⟩ := ih (parked.unpark id) completed
        refine ⟨aside.trans grows, filed, fun pendingSends sends reply member => ?_⟩
        rcases served pendingSends sends reply member with earlier | new
        · rcases List.mem_append.mp earlier with old | this
          · exact Or.inl old
          · obtain rfl := List.mem_singleton.mp this
            rw [mine]
            exact Or.inr ⟨(assignedMaskSharesForClient_some answered).mono grows, wanted⟩
        · exact Or.inr new

theorem recordReservations_spec {reservations : List AssignedMaskReservation}
    (vacant : ∀ reservation ∈ reservations, d.indexToClient reservation.reservedIndex = none) :
    Grows d (reservations.foldl recordReservation d) ∧
      (reservations.foldl recordReservation d).assignedSinks = d.assignedSinks := by
  have kept : ∀ (batch : List AssignedMaskReservation) (before : NodeRPCExecutionState),
      (∀ i, i ∉ batch.map AssignedMaskReservation.reservedIndex →
        (batch.foldl recordReservation before).indexToClient i = before.indexToClient i) ∧
      (batch.foldl recordReservation before).maskShares = before.maskShares ∧
      (batch.foldl recordReservation before).assignedSinks = before.assignedSinks := by
    intro batch
    induction batch with
    | nil => exact fun before => ⟨fun _ _ => rfl, rfl, rfl⟩
    | cons reservation rest ih =>
      intro before
      obtain ⟨owners, shares, sinks⟩ := ih (before.recordReservation reservation)
      refine ⟨fun i outside => ?_, shares, sinks⟩
      simp only [List.map_cons, List.mem_cons, not_or] at outside
      rw [List.foldl_cons, owners i outside.2]
      exact Table.insert_of_ne _ _ outside.1
  obtain ⟨owners, shares, sinks⟩ := kept reservations d
  refine ⟨⟨fun i c held => ?_, fun i x held => by rw [shares]; exact held⟩, sinks⟩
  rw [owners i]
  · exact held
  · intro inside
    obtain ⟨reservation, member, rfl⟩ := List.mem_map.mp inside
    rw [vacant reservation member] at held
    cases held

theorem recordShares_spec {shares : List (UInt64 × S)} {touched : List ClientIdentity}
    {result : Except NodeRPCError (List ClientIdentity)} {i : UInt64}
    (recorded : recordShares codec shares d touched = (result, d')) (outside : i ∉ shares.map Prod.fst) :
    d'.maskShares i = d.maskShares i := by
  induction shares generalizing d touched with
  | nil =>
    cases recorded
    rfl
  | cons entry rest ih =>
    obtain ⟨j, share⟩ := entry
    simp only [List.map_cons, List.mem_cons, not_or] at outside
    rw [recordShares] at recorded
    split at recorded
    · cases recorded
      rfl
    · exact (ih recorded outside.2).trans (Table.insert_of_ne _ _ outside.1)

theorem recordShares_frame {shares : List (UInt64 × S)} {touched : List ClientIdentity}
    {result : Except NodeRPCError (List ClientIdentity)} (recorded : recordShares codec shares d touched = (result, d')) :
    d'.indexToClient = d.indexToClient ∧ d'.assignedReservations = d.assignedReservations ∧
      d'.assignedSinks = d.assignedSinks := by
  induction shares generalizing d touched with
  | nil =>
    cases recorded
    exact ⟨rfl, rfl, rfl⟩
  | cons entry rest ih =>
    rw [recordShares] at recorded
    split at recorded
    · cases recorded
      exact ⟨rfl, rfl, rfl⟩
    · have later := ih recorded
      exact later

/-- A batch of shares only adds shares, also when it stops halfway. -/
theorem recordShares_grows {shares : List (UInt64 × S)} {touched : List ClientIdentity}
    {result : Except NodeRPCError (List ClientIdentity)}
    (vacant : ∀ entry ∈ shares, d.maskShares entry.1 = none)
    (recorded : recordShares codec shares d touched = (result, d')) : Grows d d' := by
  refine ⟨fun i c held => by rw [(recordShares_frame recorded).1]; exact held, fun i x held => ?_⟩
  rw [recordShares_spec recorded]
  · exact held
  · intro inside
    obtain ⟨entry, member, rfl⟩ := List.mem_map.mp inside
    rw [vacant entry member] at held
    cases held

/-- What a call can do, given who asked for what so far. -/
structure Conforms (asked : ClientIdentity → UInt64 → UInt64 → Prop) (d d' : NodeRPCExecutionState)
    (replies : List MaskReply) : Prop where
  grows : Grows d d'
  parked : Parked asked d'
  serves : ∀ reply ∈ replies, Serves d' reply ∧ asked reply.recipient reply.start reply.count

theorem Conforms.of_sends {result : Except NodeRPCError (List MaskReply) × NodeRPCExecutionState}
    {replies : List MaskReply} (sent : sends result = (replies, d')) (grows : Grows d result.2)
    (parked : Parked asked result.2)
    (serves : ∀ pendingSends, result.1 = .ok pendingSends → ∀ reply ∈ pendingSends,
      Serves result.2 reply ∧ asked reply.recipient reply.start reply.count) : Conforms asked d d' replies := by
  obtain ⟨_ | pendingSends, after⟩ := result
  · cases sent
    exact ⟨grows, parked, by simp⟩
  · cases sent
    exact ⟨grows, parked, serves _ rfl⟩

theorem completeRequests_conforms {clients : List ClientIdentity} {middle : NodeRPCExecutionState}
    {replies : List MaskReply} (grows : Grows d middle) (parked : Parked asked middle)
    (sent : sends (completeRequests codec clients middle []) = (replies, d')) : Conforms asked d d' replies := by
  obtain ⟨later, filed, served⟩ := completeRequests_spec parked (Prod.eta _).symm
  refine .of_sends sent (grows.trans later) filed fun pendingSends sends reply member => ?_
  exact (served pendingSends sends reply member).resolve_left (by simp)

theorem Conforms.addAssignedReservedIndices {reservations : List AssignedMaskReservation} {replies : List MaskReply}
    (parked : Parked asked d) (sent : sends (d.addAssignedReservedIndices codec reservations) = (replies, d')) :
    Conforms asked d d' replies := by
  unfold NodeRPCExecutionState.addAssignedReservedIndices at sent
  split at sent
  · exact .of_sends sent (.refl d) parked nofun
  · rename_i fresh
    have vacant : ∀ reservation ∈ reservations, d.indexToClient reservation.reservedIndex = none := by
      simpa using fresh
    obtain ⟨grows, sinks⟩ := recordReservations_spec vacant
    refine completeRequests_conforms grows ?_ sent
    simpa only [Parked, sinks] using parked

theorem Conforms.addMaskShares {shares : List (UInt64 × S)} {replies : List MaskReply} (parked : Parked asked d)
    (sent : sends (d.addMaskShares codec shares) = (replies, d')) : Conforms asked d d' replies := by
  unfold NodeRPCExecutionState.addMaskShares at sent
  split at sent
  · exact .of_sends sent (.refl d) parked nofun
  rename_i fresh
  have vacant : ∀ entry ∈ shares, d.maskShares entry.1 = none := by
    simpa using fresh
  split at sent
  · rename_i recorded
    refine .of_sends sent (recordShares_grows vacant recorded) ?_ nofun
    simpa only [Parked, (recordShares_frame recorded).2.2] using parked
  · rename_i recorded
    refine completeRequests_conforms (recordShares_grows vacant recorded) ?_ sent
    simpa only [Parked, (recordShares_frame recorded).2.2] using parked

theorem Conforms.receiveAssignedMaskShares {start count : UInt64} {accepted : Option Nat} {replies : List MaskReply}
    (parked : Parked asked d) (wanted : asked id start count)
    (sent : sends (d.receiveAssignedMaskShares codec id start count accepted) = (replies, d')) :
    Conforms asked d d' replies := by
  have aside : Grows d (d.unpark id) := { Grows.refl d with }
  have filed := parked.unpark id
  unfold NodeRPCExecutionState.receiveAssignedMaskShares at sent
  split at sent
  · cases sent
    exact ⟨aside, filed, by simp⟩
  · rename_i shares answered
    split at sent
    · cases sent
      exact ⟨aside, filed, by simp⟩
    split at sent
    · cases sent
      exact ⟨aside, filed, by simp⟩
    · cases sent
      refine ⟨aside, filed, fun reply member => ?_⟩
      obtain rfl := List.mem_singleton.mp member
      exact ⟨assignedMaskSharesForClient_some answered, wanted⟩
  · split at sent
    · cases sent
      exact ⟨aside, filed, by simp⟩
    · cases sent
      exact ⟨{ Grows.refl d with }, filed.park rfl wanted, by simp⟩

theorem Conforms.browserAssignedMaskShares {range : MaskRange} {replies : List MaskReply} (parked : Parked asked d)
    (wanted : asked id range.start range.count)
    (sent : d.respond codec (.browserAssignedMaskShares id range) = (replies, d')) : Conforms asked d d' replies := by
  simp only [respond, NodeRPCExecutionState.browserAssignedMaskShares] at sent
  split at sent
  · rename_i shares polled
    cases sent
    refine ⟨.refl _, parked, fun reply member => ?_⟩
    obtain rfl := List.mem_singleton.mp member
    split at polled
    · cases polled
    · rename_i answered
      cases polled
      exact ⟨assignedMaskSharesForClient_some answered, wanted⟩
  · cases sent
    exact ⟨.refl _, parked, by simp⟩

theorem Conforms.step {call : NodeCall S} (parked : Parked asked d) (step : d.Step codec call d')
    (wanted : ∀ id start count, call.action.Asks id start count → asked id start count) :
    Conforms asked d d' call.replies := by
  obtain ⟨action, replies⟩ := call
  cases action with
  | addAssignedReservedIndices reservations => exact .addAssignedReservedIndices parked step
  | addMaskShares shares => exact .addMaskShares parked step
  | receiveAssignedMaskShares id start count accepted =>
    exact .receiveAssignedMaskShares parked (wanted id start count ⟨rfl, rfl, rfl⟩) step
  | browserAssignedMaskShares identity range =>
    exact .browserAssignedMaskShares parked (wanted identity _ _ ⟨rfl, rfl, rfl⟩) step

variable {trace : List (Transition NodeRPCExecutionState (NodeCall S))} {final : NodeRPCExecutionState}

/-- Some call asked for the range in the name of `id`. -/
def AskedIn (calls : List (Transition NodeRPCExecutionState (NodeCall S))) (id : ClientIdentity)
    (start count : UInt64) : Prop :=
  ∃ τ ∈ calls, τ.event.action.Asks id start count

theorem Conforms.of_run {call : NodeCall S} (parked : Parked (AskedIn trace) d) (step : d.Step codec call d') :
    Conforms (AskedIn (trace ++ [⟨d, call, d'⟩])) d d' call.replies := by
  refine .step ?_ step fun id start count asks => ⟨⟨d, call, d'⟩, by simp, asks⟩
  intro id request held
  obtain ⟨mine, τ, member, asks⟩ := parked id request held
  exact ⟨mine, τ, List.mem_append_left _ member, asks⟩

theorem parked_of_run (run : Run (Step codec) new trace final) : Parked (AskedIn trace) final := by
  induction run with
  | start => exact nofun
  | next _ step ih => exact (Conforms.of_run ih step).parked

/-- From any state that calls lead to, owners and shares stay. -/
theorem grows_of_run {later : List (Transition NodeRPCExecutionState (NodeCall S))}
    (first : Run (Step codec) new trace d) (rest : Run (Step codec) d later final) : Grows d final := by
  induction rest with
  | start => exact .refl d
  | next previous step ih => exact ih.trans (Conforms.of_run (parked_of_run (first.append previous)) step).grows

/-- A node's mask shares only go to their owner: no call changes the owner of
an index, and every reply with shares is for a range its recipient has asked
for, lists exactly that range, and holds what is stored for indices of the
recipient, from the call that caused it on. -/
theorem mask_shares_go_to_owner (run : Run (Step codec) new trace final) :
    (∀ τ ∈ trace, ∀ i c, τ.source.indexToClient i = some c → τ.target.indexToClient i = some c) ∧
      ∀ before τ after, trace = before ++ τ :: after → ∀ reply ∈ τ.event.replies,
        AskedIn (before ++ [τ]) reply.recipient reply.start reply.count ∧
          ∀ d ∈ Run.reached τ.target after, Serves d reply := by
  have conforms : ∀ before τ after, trace = before ++ τ :: after →
      Conforms (AskedIn (before ++ [τ])) τ.source τ.target τ.event.replies := by
    intro before τ after same
    obtain ⟨first, taken, _⟩ := run.split_at same
    exact .of_run (parked_of_run first) taken
  refine ⟨fun τ member i c held => ?_, fun before τ after same reply sent => ?_⟩
  · obtain ⟨before, after, same⟩ := List.append_of_mem member
    exact (conforms before τ after same).grows.owner i c held
  · obtain ⟨serves, asked⟩ := (conforms before τ after same).serves reply sent
    obtain ⟨first, taken, rest⟩ := run.split_at same
    refine ⟨asked, fun d member => ?_⟩
    obtain ⟨later, towards⟩ := rest.reached_cases member
    exact serves.mono (grows_of_run (first.next taken) towards)

/-- A step as a partial function, for running calls one after the other. -/
def next (codec : ShareCodec S) (d : NodeRPCExecutionState) (call : NodeCall S) : Option NodeRPCExecutionState :=
  if (d.respond codec call.action).1 = call.replies then some (d.respond codec call.action).2 else none

theorem Step.of_next (d : NodeRPCExecutionState) (call : NodeCall S) (d' : NodeRPCExecutionState)
    (moved : next codec d call = some d') : d.Step codec call d' := by
  unfold next at moved
  split at moved
  · rename_i replies
    exact Prod.ext replies (Option.some.inj moved)
  · cases moved

/-- Machine integers as shares: eight bytes each, the low one first. -/
def machineCodec : ShareCodec UInt64 := ⟨fun share => some (leBytes64 share), fun _ => .ok ()⟩

/-- A client asks for two shares before they are there, gets both once they
are, and another client that polls for one of them gets nothing. -/
def waitingCalls : List (NodeCall UInt64) :=
  [⟨.receiveAssignedMaskShares [2] 0 2 (some 0), []⟩,
    ⟨.addAssignedReservedIndices [⟨[2], 0, 0⟩, ⟨[2], 1, 1⟩], []⟩,
    ⟨.addMaskShares [(1, 8), (0, 7)], [⟨[2], 0, 2, [⟨0, leBytes64 7⟩, ⟨1, leBytes64 8⟩]⟩]⟩,
    ⟨.browserAssignedMaskShares [3] ⟨0, 1⟩, []⟩]

theorem mask_shares_go_to_owner_after_waiting :
    ∃ trace final, Run (Step machineCodec) new trace final ∧ trace.map Transition.event = waitingCalls ∧
      Serves final ⟨[2], 0, 2, [⟨0, leBytes64 7⟩, ⟨1, leBytes64 8⟩]⟩ := by
  have done : (Run.execute (next machineCodec) new waitingCalls).map (fun _ => ()) = some () := by decide +kernel
  obtain ⟨trace, final, run, events, _⟩ := Run.exists_of_execute Step.of_next done
  refine ⟨trace, final, run, events, ?_⟩
  obtain ⟨before, rest, same, _, restEvents⟩ := List.map_eq_append_iff.mp
    (show trace.map Transition.event = waitingCalls.take 2 ++ waitingCalls.drop 2 from events)
  obtain ⟨τ, after, rfl, sending, _⟩ := List.map_eq_cons_iff.mp restEvents
  obtain ⟨_, served⟩ := (mask_shares_go_to_owner run).2 before τ after same
    ⟨[2], 0, 2, [⟨0, leBytes64 7⟩, ⟨1, leBytes64 8⟩]⟩ (by rw [sending]; exact List.mem_singleton_self _)
  exact served final (run.split_at same).2.2.final_reached

end NodeRPCExecutionState

end MpcCoordinator
