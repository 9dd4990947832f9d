import MpcCoordinator.Client.Shares
import MpcCoordinator.OnChain.Exchange
import Mathlib.Data.List.FinRange

namespace MpcCoordinator.OnChain

/-- What becomes of the task that waits for the item of one node. -/
inductive NodeItem where
  | joinError
  | closed
  | failed
  | share (shareBytes : Bytes)
  deriving DecidableEq, Repr

/-- A client with its connections. That it has one to each of the `n` nodes is
for whoever starts it to see to. -/
structure NodeRPCClient where
  nodeRpcs : Nat
  n : Nat
  t : Nat
  deriving DecidableEq, Repr

namespace NodeRPCClient

variable {S V : Type} (client : NodeRPCClient) (scheme : ShareBound S V)

/-- The one attempt at the mask, with the shares that there are by then. -/
def recover (maskShares : List S) : Waited V :=
  match scheme.recoverSecret maskShares client.n client.t with
  | some mask => .returned mask
  | none => .failed (.maskReconstructionFailed maskShares.length)

/-- The loop over the items in the order of their arrival. `complete` says that
there are no others to come. Whatever is no share is unwrapped all the same. -/
def collectShares (complete : Bool) : List S → List NodeItem → Waited V
  | maskShares, [] => if complete then .failed (.maskReconstructionFailed maskShares.length) else .blocked
  | maskShares, .share shareBytes :: rest =>
    match scheme.deserializeShare shareBytes with
    | none => .panicked
    | some share =>
      if scheme.minShares client.t ≤ (maskShares ++ [share]).length then client.recover scheme (maskShares ++ [share])
      else collectShares complete (maskShares ++ [share]) rest
  | _, _ :: _ => .panicked

/-- The requests go out one after the other. Each waits for the answer of its
node, if there is none yet, and unwraps it. -/
def subscribe : List (Option Outcome) → Waited Unit
  | [] => .returned ()
  | none :: _ => .blocked
  | some .done :: rest => subscribe rest
  | some _ :: _ => .panicked

/-- Requests the share of its mask over all connections, and then reads what
comes in. `answers` are the outcomes of the requests so far. -/
def receiveMask (answers : Fin client.nodeRpcs → Option Outcome) (items : List NodeItem) (complete : Bool) : Waited V :=
  match subscribe (List.ofFn answers) with
  | .returned () => client.collectShares scheme complete [] items
  | .failed error => .failed error
  | .panicked => .panicked
  | .blocked => .blocked

variable {client scheme}

theorem subscribe_of_done {answers : List (Option Outcome)} (accepted : ∀ outcome, some outcome ∈ answers → outcome = .done) :
    subscribe answers = if none ∈ answers then .blocked else .returned () := by
  induction answers with
  | nil => rfl
  | cons answer rest ih =>
    cases answer with
    | none => simp [subscribe]
    | some outcome =>
      obtain rfl := accepted outcome (List.mem_cons_self ..)
      rw [subscribe, ih fun outcome member => accepted outcome (List.mem_cons_of_mem _ member)]
      simp

/-- Of shares that can all be decoded, the loop takes as many as it needs. -/
theorem collectShares_of_decoded (complete : Bool) {maskShares : List S} {items : List (Bytes × S)}
    (decoded : ∀ item ∈ items, scheme.deserializeShare item.1 = some item.2)
    (few : maskShares.length < scheme.minShares client.t) :
    client.collectShares scheme complete maskShares (items.map fun item => .share item.1) =
      if scheme.minShares client.t ≤ maskShares.length + items.length then
        client.recover scheme (maskShares ++ (items.map Prod.snd).take (scheme.minShares client.t - maskShares.length))
      else if complete then .failed (.maskReconstructionFailed (maskShares.length + items.length)) else .blocked := by
  induction items generalizing maskShares with
  | nil => simp [collectShares, Nat.not_le.mpr few]
  | cons item rest ih =>
    obtain ⟨first, others⟩ := List.forall_mem_cons.mp decoded
    have longer : (maskShares ++ [item.2]).length = maskShares.length + 1 := by simp
    obtain ⟨left, needed⟩ : ∃ left, scheme.minShares client.t - maskShares.length = left + 1 :=
      ⟨scheme.minShares client.t - maskShares.length - 1, by omega⟩
    rw [List.map_cons, collectShares, first]
    dsimp only
    rw [longer, List.map_cons, needed, List.take_succ_cons, List.length_cons]
    by_cases enough : scheme.minShares client.t ≤ maskShares.length + 1
    · have done : left = 0 := by omega
      rw [if_pos enough, if_pos (by omega), done, List.take_zero]
    · rw [if_neg enough, ih others (by omega), longer, List.append_assoc,
        show scheme.minShares client.t - (maskShares.length + 1) = left by omega,
        show maskShares.length + 1 + rest.length = maskShares.length + (rest.length + 1) by omega]
      rfl

/-- Once all nodes have answered, the client gets its mask from the first so many
nodes whose shares come in. -/
theorem receiveMask_of_nodes {answers : Fin client.nodeRpcs → Option Outcome} {complete : Bool}
    {nodes : List (Fin client.nodeRpcs)} {shareBytes : Fin client.nodeRpcs → Bytes} {share : Nat → S} {mask : V}
    (accepted : ∀ node outcome, answers node = some outcome → outcome = .done)
    (decodes : ∀ node, scheme.deserializeShare (shareBytes node) = some (share node))
    (recovers : ∀ senders : List Nat, senders.Nodup → (∀ sender ∈ senders, sender < client.nodeRpcs) →
      senders.length = scheme.minShares client.t →
      scheme.recoverSecret (senders.map share) client.n client.t = some mask)
    (distinct : nodes.Nodup) (unfinished : nodes.length < scheme.minShares client.t → complete = false) :
    client.receiveMask scheme answers (nodes.map fun node => .share (shareBytes node)) complete =
      if (∀ node, answers node ≠ none) ∧ scheme.minShares client.t ≤ nodes.length then .returned mask else .blocked := by
  have subscribed : subscribe (List.ofFn answers) = if none ∈ List.ofFn answers then .blocked else .returned () := by
    refine subscribe_of_done fun outcome member => ?_
    obtain ⟨node, same⟩ := List.mem_ofFn.mp member
    exact accepted node outcome same
  have waiting : none ∈ List.ofFn answers ↔ ¬ ∀ node, answers node ≠ none := by simp [List.mem_ofFn]
  by_cases answered : ∀ node, answers node ≠ none
  swap
  · rw [receiveMask, subscribed, if_pos (waiting.mpr answered), if_neg fun both => answered both.1]
  rw [receiveMask, subscribed, if_neg fun missing => waiting.mp missing answered]
  simp only [answered, ne_eq, not_false_eq_true, implies_true, true_and]
  have decoded : ∀ item ∈ nodes.map fun node => (shareBytes node, share node),
      scheme.deserializeShare item.1 = some item.2 := by
    intro item member
    obtain ⟨node, _, rfl⟩ := List.mem_map.mp member
    exact decodes node
  have none : ([] : List S).length < scheme.minShares client.t := scheme.minShares_pos client.t
  have collected := collectShares_of_decoded complete decoded none
  simp only [List.map_map, Function.comp_def, List.length_nil, Nat.zero_add, List.length_map, List.nil_append,
    Nat.sub_zero] at collected
  rw [collected]
  split
  · rename_i enough
    have attempt := recovers ((nodes.take (scheme.minShares client.t)).map Fin.val)
      ((distinct.sublist (List.take_sublist ..)).map Fin.val_injective) ?_ (by simpa using enough)
    · rw [List.map_map] at attempt
      rw [recover, ← List.map_take, show (fun node : Fin client.nodeRpcs => share node) = share ∘ Fin.val from rfl, attempt]
    · intro sender member
      obtain ⟨node, _, rfl⟩ := List.mem_map.mp member
      exact node.2
  · rename_i few
    rw [unfinished (Nat.lt_of_not_le few)]
    rfl

end NodeRPCClient

/-- What has happened at one node for the clients, each event at most once. -/
structure NodeExchange {ι S : Type} (clients : ι → MaskClient S) where
  setup : NodeSetup S
  schedule : List (ι × Part)
  trace : List (Transition (NodeState S) (NodeEvent S))
  final : NodeState S
  prepared : Prepared setup clients
  once : schedule.Nodup
  run : Run (NodeState.Step setup) NodeState.start trace final
  events : trace.map Transition.event = schedule.map fun entry => (clients entry.1).event entry.2

namespace NodeExchange

variable {ι S : Type} {clients : ι → MaskClient S} (exchange : NodeExchange clients) (k : ι)

/-- How the node has answered the request of a client, if it has. -/
def answer : Option Outcome :=
  (exchange.trace.find? fun τ => decide (τ.event.opens = some (clients k).sink)).map fun τ =>
    τ.source.outcome exchange.setup τ.event

/-- What the task of the client gets that waits for one item of the node. -/
def item : Option NodeItem :=
  (sentTo exchange.setup (clients k).sink exchange.trace).head?.map fun message => .share message.shareBytes

variable [DecidableEq ι]

theorem exchanged : Exchanged exchange.setup clients exchange.schedule exchange.trace exchange.final :=
  .of_run exchange.prepared exchange.once exchange.run exchange.events

theorem item_eq :
    exchange.item k = if Complete exchange.schedule k then some (.share (clients k).shareBytes) else none := by
  rw [item, exchange.exchanged.sent k]
  split <;> rfl

/-- A client opens no subscription but the one that it requests. -/
theorem answer_eq : exchange.answer k = if (k, .requested) ∈ exchange.schedule then some .done else none := by
  unfold answer
  cases found : exchange.trace.find? fun τ => decide (τ.event.opens = some (clients k).sink) with
  | none =>
    have absent := List.find?_eq_none.mp found
    rw [if_neg fun requested => ?_, Option.map_none]
    have event : (clients k).event .requested ∈ exchange.trace.map Transition.event := by
      rw [exchange.events]
      exact List.mem_map.mpr ⟨(k, .requested), requested, rfl⟩
    obtain ⟨τ, member, same⟩ := List.mem_map.mp event
    exact absent τ member (by rw [same]; exact decide_eq_true rfl)
  | some τ =>
    have member := List.mem_of_find?_eq_some found
    have opens := List.find?_some found
    rw [decide_eq_true_eq] at opens
    have event : τ.event ∈ exchange.schedule.map fun entry => (clients entry.1).event entry.2 := by
      rw [← exchange.events]
      exact List.mem_map_of_mem member
    obtain ⟨⟨other, part⟩, listed, same⟩ := List.mem_map.mp event
    rw [← same] at opens
    obtain ⟨rfl, sinks⟩ := MaskClient.opens_event opens
    obtain rfl := exchange.prepared.tlsIds other k (congrArg SubscriptionSink.peer sinks)
    rw [if_pos listed, Option.map_some, exchange.exchanged.succeeded τ member]

end NodeExchange

section

variable {ι S V : Type} [DecidableEq ι] {client : NodeRPCClient} {clients : Fin client.nodeRpcs → ι → MaskClient S}

/-- The items of a client come from the nodes at which nothing is missing any more. -/
theorem items_eq (exchange : ∀ node, NodeExchange (clients node)) (k : ι) (order : List (Fin client.nodeRpcs)) :
    (order.filterMap fun node => (exchange node).item k) =
      (order.filter fun node => decide (Complete (exchange node).schedule k)).map fun node =>
        .share (clients node k).shareBytes := by
  induction order with
  | nil => rfl
  | cons node rest ih =>
    by_cases complete : Complete (exchange node).schedule k
    · rw [List.filterMap_cons_some (by rw [NodeExchange.item_eq, if_pos complete]), ih,
        List.filter_cons_of_pos (by simpa using complete), List.map_cons]
    · rw [List.filterMap_cons_none (by rw [NodeExchange.item_eq, if_neg complete]), ih,
        List.filter_cons_of_neg (by simpa using complete)]

/-- The way of a mask from the nodes to the client that reserved its index at the
contract. Each node may learn of the reservation, get its share and see the
client's request in any order among the other clients' events, and what the nodes
send may come in in any order: the client waits until all nodes have answered its
request and nothing is missing at enough of them, and then it has its mask. -/
theorem on_chain_mask_round_trip (client : NodeRPCClient) (scheme : ShareBound S V)
    (clients : Fin client.nodeRpcs → ι → MaskClient S) (exchange : ∀ node, NodeExchange (clients node)) (k : ι)
    (share : Nat → S) (mask : V)
    (decodes : ∀ node, scheme.deserializeShare (clients node k).shareBytes = some (share node))
    (recovers : ∀ senders : List Nat, senders.Nodup → (∀ sender ∈ senders, sender < client.nodeRpcs) →
      senders.length = scheme.minShares client.t →
      scheme.recoverSecret (senders.map share) client.n client.t = some mask)
    (suffice : scheme.minShares client.t ≤ client.nodeRpcs) (order : List (Fin client.nodeRpcs)) (once : order.Nodup) (complete : Bool)
    (all : complete = true → ∀ node, node ∈ order ∧ ((exchange node).item k).isSome = true) :
    client.receiveMask scheme (fun node => (exchange node).answer k)
        (order.filterMap fun node => (exchange node).item k) complete =
      if (∀ node, (k, .requested) ∈ (exchange node).schedule) ∧
          scheme.minShares client.t ≤ (order.filter fun node => decide (Complete (exchange node).schedule k)).length then
        .returned mask
      else .blocked := by
  have answered : ∀ node, (exchange node).answer k ≠ none ↔ (k, .requested) ∈ (exchange node).schedule := by
    intro node
    rw [NodeExchange.answer_eq]
    split <;> simp_all
  rw [items_eq, NodeRPCClient.receiveMask_of_nodes (fun node outcome same => ?_) decodes recovers (once.filter _) fun few => ?_]
  · simp only [answered]
  · rw [NodeExchange.answer_eq] at same
    split at same
    · exact (Option.some.inj same).symm
    · cases same
  · rw [← Bool.not_eq_true]
    intro done
    have everywhere : ∀ node ∈ order, decide (Complete (exchange node).schedule k) = true := by
      intro node _
      have arrived := (all done node).2
      rw [NodeExchange.item_eq] at arrived
      split at arrived
      · rename_i complete
        exact decide_eq_true complete
      · cases arrived
    have nodes : (List.finRange client.nodeRpcs).length ≤ order.length :=
      (List.subperm_of_subset (List.nodup_finRange client.nodeRpcs) fun node _ => (all done node).1).length_le
    rw [List.filter_eq_self.mpr everywhere] at few
    rw [List.length_finRange] at nodes
    omega

end

namespace Scenario

/-- Bytes that are their own shares, and encoded as they are. -/
def byteScheme : ShareBound Bytes Bytes where
  computeMaskedInput value _ := some value
  minShares := RobustShare.minShares
  recoverSecret shares _ t := if RobustShare.minShares t ≤ shares.length then shares.head? else none
  deserializeValue := some
  deserializeShare := some
  deserializeShares bytes := some [bytes]
  minShares_pos := ShareBound.plain.minShares_pos

theorem byteScheme_recoverSecret {senders : List Nat} {n t : Nat} (enough : senders.length = RobustShare.minShares t) :
    byteScheme.recoverSecret (senders.map fun _ => [7]) n t = some [7] := by
  cases senders with
  | nil => simp [RobustShare.minShares] at enough
  | cons sender rest => simp [byteScheme, ← enough]

/-- What has happened at four nodes: three have all they need for the first
client, the last has heard of its request only. -/
def schedules (node : Fin 4) : List (Bool × Part) :=
  if node = 3 then [(true, .generated), (false, .requested)]
  else [(false, .requested), (true, .requested), (false, .reserved), (false, .generated)]

theorem on_chain_mask_round_trip_of_four :
    ∃ exchange : Fin 4 → NodeExchange maskClients, (∀ node, (exchange node).schedule = schedules node) ∧
      (NodeRPCClient.mk 4 4 1).receiveMask byteScheme (fun node => (exchange node).answer false)
        (([1, 2, 0] : List (Fin 4)).filterMap fun node => (exchange node).item false) false = .returned [7] := by
  have made : ∀ node, ∃ exchange : NodeExchange maskClients, exchange.schedule = schedules node := by
    intro node
    have once : (schedules node).Nodup := by
      revert node
      decide
    obtain ⟨trace, final, run, events⟩ := exists_run_of_schedule mask_clients_prepared once
    exact ⟨⟨.recorded, _, trace, final, mask_clients_prepared, once, run, events⟩, rfl⟩
  choose exchange same using made
  refine ⟨exchange, same, ?_⟩
  have trip := on_chain_mask_round_trip ⟨4, 4, 1⟩ byteScheme (fun _ => maskClients) exchange false (fun _ => [7]) [7]
    (fun _ => rfl) (fun senders _ _ enough => byteScheme_recoverSecret enough) (by decide) [1, 2, 0] (by decide) false
    nofun
  simp only [same] at trip
  rw [trip, if_pos]
  decide

end Scenario

end MpcCoordinator.OnChain
