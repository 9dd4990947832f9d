import MpcCoordinator.Node.Completion
import MpcCoordinator.Node.Disclosure
import MpcCoordinator.Client.ReceiveMasks

namespace MpcCoordinator

/-- The client whose subscription the call is. -/
def NodeAction.subscriber {S : Type} : NodeAction S → Option ClientIdentity
  | .receiveAssignedMaskShares id _ _ _ => some id
  | _ => none

namespace NodeRPCExecutionState

variable {S : Type} {codec : ShareCodec S} {d d' final : NodeRPCExecutionState} {id : ClientIdentity}
  {start count : UInt64} {request : AssignedMaskRequest}
  {trace after : List (Transition NodeRPCExecutionState (NodeCall S))}

/-- What one call sends over the subscriptions of a client: a poll is answered by
the other transport. -/
def sentBy (id : ClientIdentity) (τ : Transition NodeRPCExecutionState (NodeCall S)) : List MaskReply :=
  if τ.event.action.isPoll then [] else τ.event.replies.filter fun reply => reply.recipient = id

theorem mem_sentBy {τ : Transition NodeRPCExecutionState (NodeCall S)} {reply : MaskReply} :
    reply ∈ sentBy id τ ↔ τ.event.action.isPoll = false ∧ reply ∈ τ.event.replies ∧ reply.recipient = id := by
  unfold sentBy
  split <;> simp_all

/-- The range is what `id` asks for, if it is `id` who asks. -/
def AsksRange (id : ClientIdentity) (start count : UInt64) (caller : ClientIdentity) (first length : UInt64) : Prop :=
  caller = id → first = start ∧ length = count

/-- A call of somebody else only parks and sends what was asked for. -/
theorem Step.conforms_range {call : NodeCall S} (parked : Parked (AsksRange id start count) d)
    (step : d.Step codec call d') (other : call.action.subscriber ≠ some id) :
    Grows d d' ∧ Parked (AsksRange id start count) d' ∧
      ∀ reply ∈ sentBy id ⟨d, call, d'⟩, Serves d' reply ∧ reply.start = start ∧ reply.count = count := by
  by_cases poll : call.action.isPoll = true
  · obtain ⟨action, replies⟩ := call
    cases action with
    | browserAssignedMaskShares identity range =>
      obtain rfl := poll_keeps step
      exact ⟨.refl _, parked, by simp [mem_sentBy, poll]⟩
    | _ => cases poll
  · have conforms : Conforms (AsksRange id start count) d d' call.replies := by
      refine .step parked step fun caller first length asks same => ?_
      cases action : call.action with
      | receiveAssignedMaskShares =>
        rw [action] at asks other
        exact absurd (congrArg some (asks.1.trans same)) other
      | browserAssignedMaskShares => exact absurd (by rw [action]; rfl) poll
      | _ =>
        rw [action] at asks
        cases asks
    refine ⟨conforms.grows, conforms.parked, fun reply member => ?_⟩
    obtain ⟨_, sent, mine⟩ := mem_sentBy.mp member
    obtain ⟨serves, asked⟩ := conforms.serves reply sent
    exact ⟨serves, asked mine⟩

/-- What is sent to a client that does not subscribe anew is for the range that
it asked for, and holds what is stored for it. -/
theorem serves_of_run (run : Run (Step codec) d after final) (parked : Parked (AsksRange id start count) d)
    (others : ∀ τ ∈ after, τ.event.action.subscriber ≠ some id) :
    Grows d final ∧ Parked (AsksRange id start count) final ∧
      ∀ reply ∈ after.flatMap (sentBy id), Serves final reply ∧ reply.start = start ∧ reply.count = count := by
  induction run with
  | start => exact ⟨.refl d, parked, by simp⟩
  | @next earlier current call target _ step ih =>
    obtain ⟨grows, still, served⟩ := ih fun τ member => others τ (List.mem_append_left _ member)
    obtain ⟨more, parked', sent⟩ := step.conforms_range still (others ⟨current, call, target⟩ (by simp))
    refine ⟨grows.trans more, parked', fun reply member => ?_⟩
    rw [List.flatMap_append, List.mem_append, List.flatMap_singleton] at member
    rcases member with old | new
    · obtain ⟨serves, range⟩ := served reply old
      exact ⟨serves.mono more, range⟩
    · exact sent reply new

theorem watches_of_run (run : Run (Step codec) new trace final) : Watches (outstanding codec trace) final := by
  induction run with
  | start => exact ⟨by simp [Filed, new], by simp [Bounded, new], by simp [new], by simp [outstanding, Table.empty]⟩
  | next _ step ih =>
    rw [outstanding_append]
    exact ih.step step

theorem noneLost_of_run (run : Run (Step codec) new trace final)
    (lossless : ∀ τ ∈ trace, LosesNone codec τ.source τ.event.action) : NoneLost codec trace final := by
  induction run with
  | start => exact fun id request waits => by simp [outstanding, Table.empty] at waits
  | @next earlier current call target previous step ih =>
    have before := ih fun τ member => lossless τ (List.mem_append_left _ member)
    rw [NoneLost, outstanding_append]
    exact ((watches_of_run previous).step_iff before step).mpr (lossless ⟨current, call, target⟩ (by simp))

theorem await_of_unsent {waiting : Table ClientIdentity AssignedMaskRequest}
    {τ : Transition NodeRPCExecutionState (NodeCall S)} (waits : waiting id = some request)
    (other : τ.event.action.subscriber ≠ some id) (unsent : sentBy id τ = []) :
    await codec waiting τ id = some request := by
  have batch : τ.event.action.isPoll = false → unanswered waiting τ.event.replies id = some request := by
    intro native
    refine unanswered_eq_some.mpr ⟨waits, fun reply member => ?_⟩
    rw [← Bool.not_eq_true]
    intro answered
    simp only [AssignedMaskRequest.answeredBy, decide_eq_true_eq] at answered
    have sent : reply ∈ sentBy id τ := mem_sentBy.mpr ⟨native, member, answered.1⟩
    rw [unsent] at sent
    cases sent
  unfold await
  cases action : τ.event.action with
  | addAssignedReservedIndices => exact batch (by rw [action]; rfl)
  | addMaskShares => exact batch (by rw [action]; rfl)
  | receiveAssignedMaskShares caller first length accepted =>
    have different : id ≠ caller := by
      rintro rfl
      exact other (by rw [action]; rfl)
    have erased : waiting.erase caller id = some request := (Table.erase_of_ne _ different).trans waits
    dsimp only
    generalize τ.source.receiveAssignedMaskShares codec caller first length accepted = answer
    obtain ⟨_ | _ | _, _⟩ := answer <;> cases accepted <;> first
      | exact erased
      | exact (Table.insert_of_ne _ _ different).trans waits
  | browserAssignedMaskShares => exact waits

/-- A client that is sent nothing and does not subscribe anew goes on waiting. -/
theorem outstanding_of_unsent (waits : outstanding codec trace id = some request)
    (others : ∀ τ ∈ after, τ.event.action.subscriber ≠ some id) (unsent : after.flatMap (sentBy id) = []) :
    outstanding codec (trace ++ after) id = some request := by
  induction after using List.reverseRecOn with
  | nil => simpa using waits
  | append_singleton after τ ih =>
    rw [List.flatMap_append, List.append_eq_nil_iff, List.flatMap_singleton] at unsent
    have still := ih (fun other member => others other (List.mem_append_left _ member)) unsent.1
    rw [← List.append_assoc, outstanding_append]
    exact await_of_unsent still (others τ (by simp)) unsent.2

/-- How a subscription for a client's own range ends: it is served at once, or parked. -/
def Subscribed (d : NodeRPCExecutionState) (id : ClientIdentity) (request : AssignedMaskRequest) (replies : List MaskReply)
    (d' : NodeRPCExecutionState) : Prop :=
  (∃ shares, replies = [⟨id, request.start, request.count, shares⟩] ∧ d' = d.unpark id ∧
      Serves d ⟨id, request.start, request.count, shares⟩) ∨
    (replies = [] ∧ d' = (d.unpark id).park id request)

theorem Step.subscribed {handle : Nat} {replies : List MaskReply} (filed : Filed d)
    (bound : start.toNat + count.toNat < 2 ^ 64) (own : ¬ Foreign d id ⟨start, count, ⟨handle, id⟩⟩)
    (json : ∀ shares, codec.toJson shares = .ok ())
    (step : d.Step codec ⟨.receiveAssignedMaskShares id start count (some handle), replies⟩ d') :
    (d.receiveAssignedMaskShares codec id start count (some handle)).1 = .ok replies ∧
      Subscribed d id ⟨start, count, ⟨handle, id⟩⟩ replies d' := by
  have answer : (d.unpark id).assignedMaskSharesForClient id start count =
      d.assignedMaskSharesForClient id start count := assignedMaskSharesForClient_withSinks ..
  have outcome : Collected d id (AssignedMaskRequest.Covers ⟨start, count, ⟨handle, id⟩⟩)
      (d.assignedMaskSharesForClient id start count) := assignedMaskSharesForClient_outcome filed bound
  have sent : sends (d.receiveAssignedMaskShares codec id start count (some handle)) = (replies, d') := step
  simp only [NodeRPCExecutionState.receiveAssignedMaskShares, answer] at sent ⊢
  cases collected : d.assignedMaskSharesForClient id start count with
  | error refusal =>
    rw [collected] at outcome
    cases outcome with
    | foreign covered owned other => exact absurd ⟨_, _, covered, owned, other⟩ own
  | ok found =>
    rw [collected] at sent
    cases found with
    | none =>
      cases sent
      exact ⟨rfl, Or.inr ⟨rfl, rfl⟩⟩
    | some shares =>
      simp only [json] at sent ⊢
      cases sent
      exact ⟨rfl, Or.inl ⟨shares, rfl, rfl, assignedMaskSharesForClient_some collected⟩⟩

end NodeRPCExecutionState

open NodeRPCExecutionState

/-- The last subscription of a client at a node for the shares of a range, with
all that the node did before and since. -/
structure MaskSubscription {S : Type} (codec : ShareCodec S) (id : ClientIdentity) (start count : UInt64) where
  handle : Nat
  before : List (Transition NodeRPCExecutionState (NodeCall S))
  source : NodeRPCExecutionState
  replies : List MaskReply
  target : NodeRPCExecutionState
  after : List (Transition NodeRPCExecutionState (NodeCall S))
  final : NodeRPCExecutionState
  earlier : Run (Step codec) new before source
  opens : source.Step codec ⟨.receiveAssignedMaskShares id start count (some handle), replies⟩ target
  later : Run (Step codec) target after final
  last : ∀ τ ∈ after, τ.event.action.subscriber ≠ some id

namespace MaskSubscription

variable {S V : Type} {codec : ShareCodec S} {id : ClientIdentity} {start count : UInt64}
  (sub : MaskSubscription codec id start count)

def request : AssignedMaskRequest := ⟨start, count, ⟨sub.handle, id⟩⟩

def opening : Transition NodeRPCExecutionState (NodeCall S) :=
  ⟨sub.source, ⟨.receiveAssignedMaskShares id start count (some sub.handle), sub.replies⟩, sub.target⟩

def trace : List (Transition NodeRPCExecutionState (NodeCall S)) := sub.before ++ sub.opening :: sub.after

/-- What has come in on the subscription. -/
def received : List MaskReply := (sub.opening :: sub.after).flatMap (sentBy id)

/-- Why the node refuses the subscription, if it does. -/
def refusal : Option Message :=
  match (sub.source.receiveAssignedMaskShares codec id start count (some sub.handle)).1 with
  | .error error => some error.message
  | .ok _ => none

/-- What the client that waits for one item gets. -/
def next : Option NodeReply := sub.received.head?.map fun reply => .shares reply.shares

theorem since : Run (Step codec) sub.source (sub.opening :: sub.after) sub.final :=
  (Run.start.next sub.opens).append sub.later

theorem run : Run (Step codec) new sub.trace sub.final := sub.earlier.append sub.since

variable {sub}

/-- The range belongs to nobody else, and can be asked for. -/
structure Proper (sub : MaskSubscription codec id start count) : Prop where
  bound : start.toNat + count.toNat < 2 ^ 64
  own : ¬ Foreign sub.final id sub.request
  json : ∀ shares, codec.toJson shares = .ok ()

theorem Proper.subscribed (proper : sub.Proper) :
    (sub.source.receiveAssignedMaskShares codec id start count (some sub.handle)).1 = .ok sub.replies ∧
      Subscribed sub.source id sub.request sub.replies sub.target :=
  sub.opens.subscribed (watches_of_run sub.earlier).filed proper.bound
    (fun foreign => proper.own (foreign.mono (grows_of_run sub.earlier sub.since))) proper.json

theorem Proper.refusal_eq (proper : sub.Proper) : sub.refusal = none := by
  rw [refusal, proper.subscribed.1]

theorem Proper.sentBy_opening (proper : sub.Proper) : sentBy id sub.opening = sub.replies := by
  have sent : sentBy id sub.opening = sub.replies.filter fun reply => reply.recipient = id := rfl
  rw [sent, List.filter_eq_self]
  rcases proper.subscribed.2 with ⟨shares, sent, _⟩ | ⟨sent, _⟩ <;> simp [sent]

/-- Everything that comes in is for the range, and is what the node has stored for it. -/
theorem Proper.serves (proper : sub.Proper) {reply : MaskReply} (member : reply ∈ sub.received) :
    Serves sub.final reply ∧ reply.start = start ∧ reply.count = count := by
  have peers := parked_of_run sub.earlier
  have unparked : Parked (AsksRange id start count) (sub.source.unpark id) := by
    intro other request held
    have different : other ≠ id := by
      rintro rfl
      rw [unpark_self] at held
      cases held
    rw [unpark_of_ne different] at held
    exact ⟨(peers other request held).1, fun same => absurd same different⟩
  have parked : Parked (AsksRange id start count) sub.target := by
    rcases proper.subscribed.2 with ⟨_, _, target, _⟩ | ⟨_, target⟩
    · rw [target]
      exact unparked
    · rw [target]
      exact unparked.park rfl fun _ => ⟨rfl, rfl⟩
  rw [received, List.flatMap_cons, List.mem_append, proper.sentBy_opening] at member
  rcases member with first | later
  · rcases proper.subscribed.2 with ⟨shares, sent, _, serves⟩ | ⟨sent, _⟩
    · rw [sent, List.mem_singleton] at first
      rw [first]
      exact ⟨serves.mono (grows_of_run sub.earlier sub.since), rfl, rfl⟩
    · rw [sent] at first
      cases first
  · exact (serves_of_run sub.later parked sub.last).2.2 reply later

theorem recipient_of_received {reply : MaskReply} (member : reply ∈ sub.received) : reply.recipient = id := by
  obtain ⟨τ, _, sent⟩ := List.mem_flatMap.mp member
  exact (mem_sentBy.mp sent).2.2

/-- The node has sent the shares exactly if it has them all, unless one of its calls
stopped half way while they were there. -/
theorem Proper.next_isSome_iff (proper : sub.Proper)
    (lossless : ∀ τ ∈ sub.trace, LosesNone codec τ.source τ.event.action) :
    sub.next.isSome = true ↔ Ready sub.final id sub.request := by
  have some_iff : sub.next.isSome = true ↔ sub.received ≠ [] := by
    cases received : sub.received <;> simp [next, received]
  rw [some_iff]
  constructor
  · intro nonempty i covered
    obtain ⟨reply, member⟩ := List.exists_mem_of_ne_nil _ nonempty
    obtain ⟨serves, first, length⟩ := proper.serves member
    obtain ⟨owned, there⟩ := serves.ready (by rw [first, length]; exact covered)
    exact ⟨owned.trans (congrArg some (recipient_of_received member)), there⟩
  · intro ready nothing
    rw [received, List.flatMap_cons, List.append_eq_nil_iff, proper.sentBy_opening] at nothing
    have opened : outstanding codec (sub.before ++ [sub.opening]) id = some sub.request := by
      rw [outstanding_append]
      simp only [await, opening, proper.subscribed.1, nothing.1]
      exact Table.insert_self ..
    have still := outstanding_of_unsent opened sub.last nothing.2
    rw [← List.append_cons] at still
    exact noneLost_of_run sub.run lossless id sub.request still ready

/-- Whatever share of the range the node is given is its own one. -/
def Faithful (sub : MaskSubscription codec id start count) (share : UInt64 → S) : Prop :=
  ∀ τ ∈ sub.trace, ∀ shares, τ.event.action = .addMaskShares shares →
    ∀ entry ∈ shares, entry.1 ∈ expectedIndices start count → entry.2 = share entry.1

end MaskSubscription

theorem NodeRPCClient.receiveAssignedMasks_of_blocked {S V : Type} {client : NodeRPCClient} {scheme : ShareBound S V}
    {start count : UInt64} {refusals : List (Option Message)} {replies : List NodeReply} {complete : Bool}
    (nonzero : count ≠ 0) (bound : start.toNat + count.toNat < 2 ^ 64) (accepted : ∀ refusal ∈ refusals, refusal = none)
    (waits : client.collectReplies scheme (expectedIndices start count) complete Table.empty replies = .blocked) :
    client.receiveAssignedMasks scheme start count refusals replies complete = .blocked := by
  have refused : refusals.findSome? id = none := by simpa using accepted
  rw [receiveAssignedMasks, if_neg (not_le.mpr bound), if_neg nonzero, refused, waits]

/-- What a node encodes, a client of the scheme decodes. -/
def ShareCodec.Matches {S V : Type} (codec : ShareCodec S) (scheme : ShareBound S V) : Prop :=
  ∀ share bytes, codec.serializeCompressed share = some bytes → scheme.deserializeShare bytes = some share

section

variable {S V : Type} {codec : ShareCodec S} {id : ClientIdentity} {start count : UInt64} {scheme : ShareBound S V}
  {client : NodeRPCClient} {share : UInt64 → Nat → S} {mask : UInt64 → V}

/-- The indices of a reply are those of its range, in order. -/
theorem map_reservedIndex_of_serves {d : NodeRPCExecutionState} {reply : MaskReply} (serves : Serves d reply)
    (bound : reply.start.toNat + reply.count.toNat < 2 ^ 64) :
    reply.shares.map AssignedMaskShare.reservedIndex = expectedIndices reply.start reply.count := by
  apply List.map_injective_iff.mpr (fun _ _ same => UInt64.toNat_inj.mp same : Function.Injective UInt64.toNat)
  rw [List.map_map, show UInt64.toNat ∘ AssignedMaskShare.reservedIndex = fun share => share.reservedIndex.toNat from rfl,
    serves.listed, expectedIndices, List.map_map, List.range'_eq_map_range]
  refine List.map_congr_left fun k inside => ?_
  exact (toNat_mem_expected bound (List.mem_range.mp inside)).symm

/-- What comes in first from a node is its correct reply. -/
theorem MaskSubscription.correct_of_next {sub : MaskSubscription codec id start count} {k : Nat} {reply : NodeReply}
    (proper : sub.Proper) (matching : codec.Matches scheme) (faithful : sub.Faithful fun i => share i k)
    (arrived : sub.next = some reply) : CorrectReply scheme (expectedIndices start count) share (k, reply) := by
  obtain ⟨first, head, rfl⟩ := Option.map_eq_some_iff.mp arrived
  obtain ⟨serves, rfl, rfl⟩ := proper.serves (List.mem_of_mem_head? head)
  have listed := map_reservedIndex_of_serves serves proper.bound
  refine ⟨first.shares, rfl, by rw [listed], fun assigned member => ?_⟩
  obtain ⟨τ, called, brings⟩ := brought_of_run sub.run (serves.stored assigned member)
  cases action : τ.event.action with
  | addMaskShares shares =>
    rw [action] at brings
    obtain ⟨entry, inside, index, encoded⟩ := brings
    have expected : entry.1 ∈ expectedIndices first.start first.count := by
      rw [index, ← listed]
      exact List.mem_map_of_mem member
    rw [faithful τ called shares action entry inside expected, index] at encoded
    exact matching _ _ encoded
  | _ =>
    rw [action] at brings
    cases brings

/-- Too few correct replies keep the client waiting. -/
theorem NodeRPCClient.collectReplies_blocked {expected : List UInt64} {replies : List (Nat × NodeReply)} {nodes : List Nat}
    {shareSets : ShareSets S} (ascending : expected.Pairwise (· < ·)) (nonempty : expected ≠ [])
    (correct : ∀ reply ∈ replies, CorrectReply scheme expected share reply)
    (holds : HoldsShares expected share nodes shareSets)
    (few : nodes.length + replies.length < scheme.minShares client.t) :
    client.collectReplies scheme expected false shareSets (replies.map Prod.snd) = .blocked := by
  induction replies generalizing nodes shareSets with
  | nil => rfl
  | cons reply rest ih =>
    obtain ⟨first, others⟩ := List.forall_mem_cons.mp correct
    obtain ⟨next, more, step⟩ := collectReplies_correct client false ascending first holds (rest.map Prod.snd)
    rw [List.length_cons] at few
    have short : client.enough scheme expected next ≠ true := by
      rw [Ne, enough_iff more nonempty, List.length_append, List.length_singleton]
      omega
    rw [List.map_cons, step, if_neg short]
    exact ih others more (by rw [List.length_append, List.length_singleton]; omega)

/-- Enough correct replies give the masks. -/
theorem NodeRPCClient.receiveAssignedMasks_of_correct {refusals : List (Option Message)} {replies : List (Nat × NodeReply)}
    (complete : Bool) (nonzero : count ≠ 0) (bound : start.toNat + count.toNat < 2 ^ 64)
    (accepted : ∀ refusal ∈ refusals, refusal = none) (once : (replies.map Prod.fst).Nodup)
    (correct : ∀ reply ∈ replies, CorrectReply scheme (expectedIndices start count) share reply)
    (recovers : ∀ i ∈ expectedIndices start count, ∀ senders : List Nat, senders.Nodup →
      (∀ sender ∈ senders, sender ∈ replies.map Prod.fst) → scheme.minShares client.t ≤ senders.length →
      scheme.recoverSecret (senders.map (share i)) client.n client.t = some (mask i))
    (many : scheme.minShares client.t ≤ replies.length) :
    client.receiveAssignedMasks scheme start count refusals (replies.map Prod.snd) complete =
      .returned ((expectedIndices start count).map mask) := by
  have ascending := pairwise_expectedIndices bound
  have noShares : HoldsShares (expectedIndices start count) share [] Table.empty := fun _ _ => rfl
  have all : contributors replies = replies.map Prod.fst := by
    rw [contributors, List.filter_eq_self.mpr]
    intro reply member
    obtain ⟨_, sent, _⟩ := correct reply member
    simp [sent]
  obtain ⟨shareSets, kept, collected, held, enough, within⟩ := collectReplies_returns complete ascending
    (expectedIndices_ne_nil nonzero) (fun reply member => Or.inl (correct reply member)) noShares
    (scheme.minShares_pos client.t) (by simpa [all] using many) []
  rw [List.append_nil] at collected
  rw [List.nil_append, all] at within
  have present : kept ≠ [] := List.ne_nil_of_length_pos (lt_of_lt_of_le (scheme.minShares_pos client.t) enough)
  refine (receiveAssignedMasks_returned_iff nonzero).mpr ⟨bound, accepted, shareSets, collected, ?_⟩
  refine recoverMasks_eq (ascending.imp UInt64.ne_of_lt) (fun i member => ?_) enough
    (fun i member => recovers i member kept (once.sublist within) (fun _ kept => within.subset kept) enough) []
  rw [held i member, if_neg present]

variable {sub : Fin client.n → MaskSubscription codec id start count}

/-- The replies that have come in, with the nodes that they come from. -/
def arrivals (sub : Fin client.n → MaskSubscription codec id start count) (order : List (Fin client.n)) :
    List (Nat × NodeReply) :=
  order.filterMap fun k => (sub k).next.map fun reply => (k.val, reply)

theorem map_snd_arrivals (order : List (Fin client.n)) :
    (arrivals sub order).map Prod.snd = order.filterMap fun k => (sub k).next := by
  rw [arrivals, List.map_filterMap]
  refine List.filterMap_congr fun k _ => ?_
  rw [Option.map_map]
  exact Option.map_id' ..

theorem map_fst_arrivals (order : List (Fin client.n)) : ((arrivals sub order).map Prod.fst).Sublist (order.map Fin.val) := by
  induction order with
  | nil => exact List.Sublist.slnil
  | cons k rest ih =>
    cases arrived : (sub k).next with
    | none =>
      rw [arrivals, List.filterMap_cons_none (by rw [arrived]; rfl), List.map_cons]
      exact ih.cons _
    | some reply =>
      rw [arrivals, List.filterMap_cons_some (by rw [arrived]; rfl), List.map_cons, List.map_cons]
      exact ih.cons_cons _

/-- The way of a range of masks from the nodes to the client that reserved it. The
client has subscribed at every node, before or after the node had the shares, and
whatever else the nodes do and in whatever order their replies come in: it waits
until enough of them have come, and then gets the masks. A node has replied once
it has the shares, unless it was stopped on the way. -/
theorem masks_round_trip (client : NodeRPCClient) (scheme : ShareBound S V)
    (sub : Fin client.n → MaskSubscription codec id start count) (share : UInt64 → Nat → S) (mask : UInt64 → V)
    (matching : codec.Matches scheme) (nonzero : count ≠ 0) (proper : ∀ k, (sub k).Proper)
    (faithful : ∀ k, (sub k).Faithful fun i => share i k)
    (recovers : ∀ i ∈ expectedIndices start count, ∀ senders : List Nat, senders.Nodup →
      (∀ sender ∈ senders, sender < client.n) → scheme.minShares client.t ≤ senders.length →
      scheme.recoverSecret (senders.map (share i)) client.n client.t = some (mask i))
    (suffice : scheme.minShares client.t ≤ client.n) :
    (∀ order : List (Fin client.n), order.Nodup → ∀ complete,
      (complete = true → ∀ k, k ∈ order ∧ (sub k).next.isSome = true) →
      client.receiveAssignedMasks scheme start count ((List.finRange client.n).map fun k => (sub k).refusal)
          (order.filterMap fun k => (sub k).next) complete =
        if scheme.minShares client.t ≤ (order.filterMap fun k => (sub k).next).length then
          .returned ((expectedIndices start count).map mask)
        else .blocked) ∧
    ∀ k, (∀ τ ∈ (sub k).trace, LosesNone codec τ.source τ.event.action) →
      ((sub k).next.isSome = true ↔ Ready (sub k).final id (sub k).request) := by
  refine ⟨fun order once complete all => ?_, fun k => (proper k).next_isSome_iff⟩
  have bound := (proper ⟨0, lt_of_lt_of_le (scheme.minShares_pos client.t) suffice⟩).bound
  have accepted : ∀ refusal ∈ (List.finRange client.n).map fun k => (sub k).refusal, refusal = none := by
    intro refusal member
    obtain ⟨k, _, rfl⟩ := List.mem_map.mp member
    exact (proper k).refusal_eq
  have correct : ∀ reply ∈ arrivals sub order, CorrectReply scheme (expectedIndices start count) share reply := by
    intro reply member
    obtain ⟨k, _, arrived⟩ := List.mem_filterMap.mp member
    obtain ⟨item, came, rfl⟩ := Option.map_eq_some_iff.mp arrived
    exact MaskSubscription.correct_of_next (proper k) matching (faithful k) came
  have senders : ((arrivals sub order).map Prod.fst).Sublist (order.map Fin.val) := map_fst_arrivals order
  rw [← map_snd_arrivals, List.length_map]
  split
  · rename_i many
    refine NodeRPCClient.receiveAssignedMasks_of_correct complete nonzero bound accepted
      ((once.map Fin.val_injective).sublist senders) correct (fun i member nodes distinct from_ => ?_) many
    refine recovers i member nodes distinct fun sender inside => ?_
    obtain ⟨k, _, rfl⟩ := List.mem_map.mp (senders.subset (from_ sender inside))
    exact k.2
  · rename_i few
    have unfinished : complete = false := by
      rw [← Bool.not_eq_true]
      intro done
      have replied : (arrivals sub order).length = order.length := by
        rw [← List.length_map, map_snd_arrivals, List.length_filterMap_eq_countP, List.countP_eq_length]
        exact fun k _ => (all done k).2
      have nodes : (List.finRange client.n).length ≤ order.length :=
        (List.subperm_of_subset (List.nodup_finRange client.n) fun k _ => (all done k).1).length_le
      rw [List.length_finRange] at nodes
      omega
    have noShares : HoldsShares (expectedIndices start count) share [] Table.empty := fun _ _ => rfl
    rw [unfinished]
    exact NodeRPCClient.receiveAssignedMasks_of_blocked nonzero bound accepted
      (NodeRPCClient.collectReplies_blocked (pairwise_expectedIndices bound)
        (NodeRPCClient.expectedIndices_ne_nil nonzero) correct noShares (by simpa using few))

end

namespace Scenario

/-- A byte is its own compressed form. -/
def byteCodec : ShareCodec UInt8 := ⟨fun share => some [share], fun _ => .ok ()⟩

def reserveTwo : NodeAction UInt8 := .addAssignedReservedIndices [⟨[2], 0, 0⟩, ⟨[2], 1, 1⟩]

def askForTwo : NodeAction UInt8 := .receiveAssignedMaskShares [2] 0 2 (some 0)

def bringTwo : NodeAction UInt8 := .addMaskShares [(1, 8), (0, 7)]

def afterReserving : NodeRPCExecutionState := (new.respond byteCodec reserveTwo).2

def afterAsking : NodeRPCExecutionState := (afterReserving.respond byteCodec askForTwo).2

def afterBringing : NodeRPCExecutionState := (afterAsking.respond byteCodec bringTwo).2

def bothShares : MaskReply := ⟨[2], 0, 2, [⟨0, [7]⟩, ⟨1, [8]⟩]⟩

theorem reserving_run : Run (Step byteCodec) new [⟨new, ⟨reserveTwo, []⟩, afterReserving⟩] afterReserving := .next .start rfl

theorem asking_step : afterReserving.Step byteCodec ⟨askForTwo, []⟩ afterAsking := rfl

theorem bringing_run :
    Run (Step byteCodec) afterAsking [⟨afterAsking, ⟨bringTwo, [bothShares]⟩, afterBringing⟩] afterBringing :=
  .next .start rfl

theorem bringing_subscriber : ∀ τ ∈ [(⟨afterAsking, ⟨bringTwo, [bothShares]⟩, afterBringing⟩ :
    Transition NodeRPCExecutionState (NodeCall UInt8))], τ.event.action.subscriber ≠ some [2] := by
  simp [bringTwo, NodeAction.subscriber]

/-- A client subscribes after its reservations and before the shares are there. -/
def earlySubscription : MaskSubscription byteCodec [2] 0 2 where
  handle := 0
  before := [⟨new, ⟨reserveTwo, []⟩, afterReserving⟩]
  source := afterReserving
  replies := []
  target := afterAsking
  after := [⟨afterAsking, ⟨bringTwo, [bothShares]⟩, afterBringing⟩]
  final := afterBringing
  earlier := reserving_run
  opens := asking_step
  later := bringing_run
  last := bringing_subscriber

def threeNodes : NodeRPCClient := ⟨3, 1⟩

theorem masks_round_trip_of_three :
    threeNodes.receiveAssignedMasks .plain 0 2 ((List.finRange 3).map fun _ => earlySubscription.refusal)
      (([2, 0, 1] : List (Fin 3)).filterMap fun _ => earlySubscription.next) true = .returned [7, 8] := by
  have calls : ∀ τ ∈ earlySubscription.trace,
      τ.event.action = reserveTwo ∨ τ.event.action = askForTwo ∨ τ.event.action = bringTwo := by
    intro τ member
    rcases List.mem_cons.mp member with rfl | rest
    · exact Or.inl rfl
    rcases List.mem_cons.mp rest with rfl | last
    · exact Or.inr (Or.inl rfl)
    · rw [List.mem_singleton.mp last]
      exact Or.inr (Or.inr rfl)
  have proper : earlySubscription.Proper := by
    refine ⟨by decide, ?_, fun _ => rfl⟩
    rintro ⟨i, owner, _, owned, other⟩
    obtain ⟨τ, member, reserves⟩ := reserved_of_run earlySubscription.run owned
    rcases calls τ member with same | same | same <;> rw [same] at reserves
    · obtain ⟨reservation, named, _, rfl⟩ := reserves
      simp only [List.mem_cons, List.not_mem_nil, or_false] at named
      rcases named with rfl | rfl <;> exact other rfl
    · cases reserves
    · cases reserves
  have faithful : earlySubscription.Faithful fun i => i.toUInt8 + 7 := by
    intro τ member shares brings entry inside _
    rcases calls τ member with same | same | same <;> rw [same] at brings <;> cases brings
    simp only [List.mem_cons, List.not_mem_nil, or_false] at inside
    rcases inside with rfl | rfl <;> rfl
  have order : ([2, 0, 1] : List (Fin 3)).Nodup := by decide
  have all : ∀ k : Fin 3, k ∈ ([2, 0, 1] : List (Fin 3)) := by decide
  have trip := masks_round_trip threeNodes .plain (fun _ => earlySubscription) (fun i _ => i.toUInt8 + 7)
    (fun i => i.toUInt8 + 7) (by rintro share _ ⟨⟩; rfl) (by decide) (fun _ => proper) (fun _ => faithful)
    (fun i _ senders _ _ many => (ShareBound.plain_recoverSecret _ senders _ _).trans (if_pos many)) (by decide)
  exact (trip.1 _ order true fun _ k => ⟨all k, rfl⟩).trans rfl

end Scenario

end MpcCoordinator
