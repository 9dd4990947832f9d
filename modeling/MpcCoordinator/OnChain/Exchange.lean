import MpcCoordinator.OnChain.Authentication

namespace MpcCoordinator.OnChain

/-- What has to happen before a client is sent its share, in any order. -/
inductive Part where
  | reserved
  | generated
  | requested
  deriving DecidableEq, Repr

/-- A client with its reserved index, and the share that a node has for it. -/
structure MaskClient (S : Type) where
  addr : Address
  index : UInt64
  share : S
  shareBytes : Bytes
  tlsId : Bytes
  sigBytes : Bytes
  handle : Nat

namespace MaskClient

variable {S : Type} (client : MaskClient S)

def sink : SubscriptionSink := ⟨client.handle, client.tlsId⟩

def message : ShareMessage := ⟨client.sink, client.index, client.shareBytes, true⟩

def event : Part → NodeEvent S
  | .reserved => .addReservedIndex client.addr client.index true
  | .generated => .addMaskShare client.index client.share true
  | .requested => .receiveMaskShare client.tlsId client.sigBytes client.addr (some client.handle) true

theorem opens_event {client : MaskClient S} {part : Part} {sink : SubscriptionSink}
    (opens : (client.event part).opens = some sink) : part = .requested ∧ client.sink = sink := by
  cases part with
  | reserved | generated => cases opens
  | requested => exact ⟨rfl, Option.some.inj opens⟩

end MaskClient

/-- The signature of a client is valid, and its share can be encoded. -/
structure Able {S : Type} (setup : NodeSetup S) (client : MaskClient S) : Prop where
  signed : NodeRPCServerShared.verifies setup client.index client.addr client.sigBytes = true
  encoded : setup.encoding.serializeCompressed client.share = .ok client.shareBytes
  json : setup.encoding.toJson client.shareBytes = .ok ()

/-- How a node stands with a client, from what has happened for it so far. -/
structure Standing {S : Type} (client : MaskClient S) (reserved generated requested : Bool)
    (d : NodeRPCServerShared S) : Prop where
  owner : d.indexToClient client.index = if reserved then some client.addr else none
  index : d.clientToIndex client.addr = if reserved then some client.index else none
  share : d.maskShares client.index = if generated then some client.share else none
  entry : d.entryOf client.addr =
    if requested then some ⟨client.tlsId, client.addr, if reserved then none else some client.sigBytes⟩ else none
  known : client.addr ∈ d.authenticated ↔ reserved = true ∧ requested = true
  sink : requested = true → ¬ (reserved = true ∧ generated = true) → d.sinks client.addr = some client.sink

/-- All that concerns a client is the same. -/
structure Untouched {S : Type} (client : MaskClient S) (d d' : NodeRPCServerShared S) : Prop where
  owner : d'.indexToClient client.index = d.indexToClient client.index
  index : d'.clientToIndex client.addr = d.clientToIndex client.addr
  share : d'.maskShares client.index = d.maskShares client.index
  entry : d'.entryOf client.addr = d.entryOf client.addr
  known : client.addr ∈ d'.authenticated ↔ client.addr ∈ d.authenticated
  sink : d'.sinks client.addr = d.sinks client.addr

section

variable {S : Type} {setup : NodeSetup S} {client other : MaskClient S} {reserved generated requested : Bool}
  {d d' : NodeRPCServerShared S}

theorem Standing.new : Standing client false false false .new where
  owner := rfl
  index := rfl
  share := rfl
  entry := rfl
  known := by simp [NodeRPCServerShared.new]
  sink asked := by cases asked

theorem Standing.frame (standing : Standing client reserved generated requested d) (same : Untouched client d d') :
    Standing client reserved generated requested d' where
  owner := same.owner.trans standing.owner
  index := same.index.trans standing.index
  share := same.share.trans standing.share
  entry := same.entry.trans standing.entry
  known := same.known.trans standing.known
  sink asked incomplete := same.sink.trans (standing.sink asked incomplete)

theorem entryOf_takeSig (addr other : Address) (entries : List ClientEntry) :
    (NodeRPCServerShared.takeSig addr entries).find? (fun entry => decide (entry.addr = other)) =
      (entries.find? fun entry => decide (entry.addr = other)).map fun entry =>
        if other = addr then { entry with pendingSig := none } else entry := by
  induction entries with
  | nil => rfl
  | cons entry rest ih =>
    unfold NodeRPCServerShared.takeSig
    by_cases here : entry.addr = other
    · by_cases same : entry.addr = addr
      · simp [here, ← same]
      · have apart : other ≠ addr := fun equal => same (here.trans equal)
        simp [here, apart]
    · by_cases same : entry.addr = addr
      · have apart : other ≠ addr := fun equal => here (same.trans equal.symm)
        simp [same, apart, Ne.symm apart]
      · simp [same, here, ih]

theorem entryOf_takeSig_of_ne {addr other : Address} (different : other ≠ addr) (entries : List ClientEntry) :
    (NodeRPCServerShared.takeSig addr entries).find? (fun entry => decide (entry.addr = other)) =
      entries.find? fun entry => decide (entry.addr = other) := by
  rw [entryOf_takeSig]
  simp [different]

/-- What happens for one client leaves the others alone. -/
theorem untouched_of_effect {part : Part} {sends : List ShareMessage}
    (effect : d.Effect setup (other.event part) sends d') (addrs : client.addr ≠ other.addr)
    (indices : client.index ≠ other.index) : Untouched client d d' := by
  have known : client.addr ∈ insert other.addr d.authenticated ↔ client.addr ∈ d.authenticated := by simp [addrs]
  have append : ∀ tlsId pendingSig, (d.idsAndAddrs ++ [ClientEntry.mk tlsId other.addr pendingSig]).find?
      (fun entry => decide (entry.addr = client.addr)) = d.entryOf client.addr := by
    intro tlsId pendingSig
    simp [List.find?_append, NodeRPCServerShared.entryOf, Ne.symm addrs]
  cases part with
  | reserved =>
    cases effect with
    | taken => exact ⟨rfl, rfl, rfl, rfl, Iff.rfl, rfl⟩
    | reserved =>
      exact ⟨Table.insert_of_ne _ _ indices, Table.insert_of_ne _ _ addrs, rfl, rfl, Iff.rfl, rfl⟩
    | unverified =>
      exact ⟨Table.insert_of_ne _ _ indices, Table.insert_of_ne _ _ addrs, rfl, entryOf_takeSig_of_ne addrs _, Iff.rfl, rfl⟩
    | verified =>
      exact ⟨Table.insert_of_ne _ _ indices, Table.insert_of_ne _ _ addrs, rfl, entryOf_takeSig_of_ne addrs _, known, rfl⟩
  | generated =>
    cases effect with
    | generated => exact ⟨rfl, rfl, rfl, rfl, Iff.rfl, rfl⟩
    | shared => exact ⟨rfl, rfl, Table.insert_of_ne _ _ indices, rfl, Iff.rfl, rfl⟩
  | requested =>
    cases effect with
    | turnedAway => exact ⟨rfl, rfl, rfl, rfl, Iff.rfl, rfl⟩
    | parked => exact ⟨rfl, rfl, rfl, append _ _, Iff.rfl, Table.insert_of_ne _ _ addrs⟩
    | waiting => exact ⟨rfl, rfl, rfl, append _ _, known, Table.insert_of_ne _ _ addrs⟩
    | answered => exact ⟨rfl, rfl, rfl, append _ _, known, rfl⟩
    | cut => exact ⟨rfl, rfl, rfl, rfl, known, rfl⟩

theorem Able.sendShare_eq (able : Able setup client) (stored : d.sinks client.addr = some client.sink) :
    d.sendShare setup client.addr client.index client.share true = (.done, [client.message]) := by
  simp [NodeRPCServerShared.sendShare, stored, able.encoded, able.json, MaskClient.message]

/-- The reservation: the client is verified if it has made its request, and served if its share is there too. -/
theorem Standing.reserve (able : Able setup client) (standing : Standing client false generated requested d) :
    ∃ d', d.respond setup (client.event .reserved) =
        (.done, if generated && requested then [client.message] else [], d') ∧
      Standing client true generated requested d' := by
  have free : d.indexToClient client.index = none := standing.owner
  have share := standing.share
  have entry := standing.entry
  have known := standing.known
  simp only [Bool.false_eq_true, if_false, false_and, iff_false] at entry known
  cases requested with
  | false =>
    refine ⟨d.recordReservation client.addr client.index, ?_, Table.insert_self .., Table.insert_self .., share,
      entry, by simpa using known, fun asked => by cases asked⟩
    have absent : d.entryOf client.addr = none := entry
    simp [NodeRPCServerShared.respond, MaskClient.event, NodeRPCServerShared.addReservedIndex, free, absent]
  | true =>
    have stored := standing.sink rfl (by simp)
    have waiting : d.entryOf client.addr = some ⟨client.tlsId, client.addr, some client.sigBytes⟩ := entry
    refine ⟨{ d.recordReservation client.addr client.index with
      idsAndAddrs := NodeRPCServerShared.takeSig client.addr d.idsAndAddrs }.authenticate client.addr, ?_,
      Table.insert_self .., Table.insert_self .., share, ?_, by simp, fun _ _ => stored⟩
    · cases generated <;>
        simp [NodeRPCServerShared.respond, MaskClient.event, NodeRPCServerShared.addReservedIndex, free, waiting,
          able.signed, share, able.sendShare_eq, stored]
    · unfold NodeRPCServerShared.entryOf at waiting
      exact (entryOf_takeSig client.addr client.addr d.idsAndAddrs).trans (by simp [waiting])

/-- The share: it is sent if the client is verified already. -/
theorem Standing.generate (able : Able setup client) (standing : Standing client reserved false requested d) :
    ∃ d', d.respond setup (client.event .generated) =
        (.done, if reserved && requested then [client.message] else [], d') ∧
      Standing client reserved true requested d' := by
  have free : d.maskShares client.index = none := standing.share
  have owner := standing.owner
  have known := standing.known
  have sink := standing.sink
  refine ⟨{ d with maskShares := d.maskShares.insert client.index client.share }, ?_, standing.owner, standing.index,
    Table.insert_self .., standing.entry, standing.known, fun asked incomplete => ?_⟩
  · cases reserved with
    | false => simp [NodeRPCServerShared.respond, MaskClient.event, NodeRPCServerShared.addMaskShare, free, owner]
    | true =>
      cases requested with
      | false =>
        simp [NodeRPCServerShared.respond, MaskClient.event, NodeRPCServerShared.addMaskShare, free, owner, known]
      | true =>
        have stored := sink rfl (by simp)
        simp [NodeRPCServerShared.respond, MaskClient.event, NodeRPCServerShared.addMaskShare, free, owner, known,
          able.sendShare_eq, stored]
  · exact sink asked (by simp)

/-- The request: the client is verified if its index is reserved, and served if its share is there too. -/
theorem Standing.request (able : Able setup client) (standing : Standing client reserved generated false d)
    (unlisted : d.Unlisted client.tlsId client.addr) :
    ∃ d', d.respond setup (client.event .requested) =
        (.done, if reserved && generated then [client.message] else [], d') ∧
      Standing client reserved generated true d' := by
  have owner := standing.owner
  have share := standing.share
  have index := standing.index
  have absent : d.entryOf client.addr = none := standing.entry
  have known := standing.known
  have new := NodeRPCServerShared.unlisted_iff.mpr unlisted
  unfold NodeRPCServerShared.entryOf at absent
  have append : ∀ pendingSig, (d.idsAndAddrs ++ [ClientEntry.mk client.tlsId client.addr pendingSig]).find?
      (fun entry => decide (entry.addr = client.addr)) = some ⟨client.tlsId, client.addr, pendingSig⟩ := by
    intro pendingSig
    simp [List.find?_append, absent]
  simp only [NodeRPCServerShared.respond, MaskClient.event, NodeRPCServerShared.receiveMaskShare, if_neg new]
  cases reserved with
  | false =>
    refine ⟨{ d with
      sinks := d.sinks.insert client.addr client.sink
      idsAndAddrs := d.idsAndAddrs ++ [⟨client.tlsId, client.addr, some client.sigBytes⟩] }, ?_, owner, index, share,
      append _, by simpa using known, fun _ _ => Table.insert_self ..⟩
    simp [index, NodeRPCServerShared.storeSink, MaskClient.sink]
  | true =>
    cases generated with
    | false =>
      refine ⟨{ d.authenticate client.addr with
        sinks := d.sinks.insert client.addr client.sink
        idsAndAddrs := d.idsAndAddrs ++ [⟨client.tlsId, client.addr, none⟩] }, ?_, owner, index, share,
        append _, by simp, fun _ _ => Table.insert_self ..⟩
      simp [index, able.signed, share, NodeRPCServerShared.storeSink, MaskClient.sink]
    | true =>
      refine ⟨{ d.authenticate client.addr with
        idsAndAddrs := d.idsAndAddrs ++ [⟨client.tlsId, client.addr, none⟩] }, ?_, owner, index, share,
        append _, by simp, fun _ incomplete => absurd ⟨rfl, rfl⟩ incomplete⟩
      simp [index, able.signed, share, NodeRPCServerShared.answerRequest, able.encoded, able.json, MaskClient.message,
        MaskClient.sink]

/-- The entries of a node are those from before, and that of the client. -/
theorem listed_of_effect {part : Part} {sends : List ShareMessage} (effect : d.Effect setup (client.event part) sends d')
    {entry : ClientEntry} (member : entry ∈ d'.idsAndAddrs) :
    (∃ old ∈ d.idsAndAddrs, (old.tlsId, old.addr) = (entry.tlsId, entry.addr)) ∨
      (entry.tlsId, entry.addr) = (client.tlsId, client.addr) := by
  have append : ∀ {pendingSig}, entry ∈ d.idsAndAddrs ++ [⟨client.tlsId, client.addr, pendingSig⟩] →
      (∃ old ∈ d.idsAndAddrs, (old.tlsId, old.addr) = (entry.tlsId, entry.addr)) ∨
        (entry.tlsId, entry.addr) = (client.tlsId, client.addr) := by
    intro pendingSig member
    rcases List.mem_append.mp member with old | last
    · exact Or.inl ⟨entry, old, rfl⟩
    · rw [List.mem_singleton.mp last]
      exact Or.inr rfl
  have taken : entry ∈ NodeRPCServerShared.takeSig client.addr d.idsAndAddrs →
      ∃ old ∈ d.idsAndAddrs, (old.tlsId, old.addr) = (entry.tlsId, entry.addr) := by
    intro member
    have pair := List.mem_map_of_mem (f := fun entry : ClientEntry => (entry.tlsId, entry.addr)) member
    rw [NodeRPCServerShared.takeSig_pairs] at pair
    exact List.mem_map.mp pair
  cases part with
  | reserved =>
    cases effect with
    | taken => exact Or.inl ⟨entry, member, rfl⟩
    | reserved => exact Or.inl ⟨entry, member, rfl⟩
    | unverified => exact Or.inl (taken member)
    | verified => exact Or.inl (taken member)
  | generated =>
    cases effect with
    | generated => exact Or.inl ⟨entry, member, rfl⟩
    | shared => exact Or.inl ⟨entry, member, rfl⟩
  | requested =>
    cases effect with
    | turnedAway => exact Or.inl ⟨entry, member, rfl⟩
    | parked => exact append member
    | waiting => exact append member
    | answered => exact append member
    | cut => exact Or.inl ⟨entry, member, rfl⟩

end

section

variable {ι S : Type} [DecidableEq ι] {setup : NodeSetup S} {clients : ι → MaskClient S} {done : List (ι × Part)}
  {d : NodeRPCServerShared S} {k : ι}

/-- The clients differ in their addresses, their indices and their TLS identities. -/
structure Prepared {ι : Type} (setup : NodeSetup S) (clients : ι → MaskClient S) : Prop where
  addrs : ∀ a b, (clients a).addr = (clients b).addr → a = b
  indices : ∀ a b, (clients a).index = (clients b).index → a = b
  tlsIds : ∀ a b, (clients a).tlsId = (clients b).tlsId → a = b
  able : ∀ k, Able setup (clients k)

/-- A client has all that it needs. -/
abbrev Complete (done : List (ι × Part)) (k : ι) : Prop :=
  (k, .reserved) ∈ done ∧ (k, .generated) ∈ done ∧ (k, .requested) ∈ done

/-- The state of a node is known from what has happened so far. -/
structure Progress (clients : ι → MaskClient S) (done : List (ι × Part)) (d : NodeRPCServerShared S) : Prop where
  standing : ∀ k, Standing (clients k) (decide ((k, .reserved) ∈ done)) (decide ((k, .generated) ∈ done))
    (decide ((k, .requested) ∈ done)) d
  listed : ∀ entry ∈ d.idsAndAddrs, ∃ k, (entry.tlsId, entry.addr) = ((clients k).tlsId, (clients k).addr)

theorem Progress.new : Progress clients [] (.new : NodeRPCServerShared S) :=
  ⟨fun _ => .new, fun entry member => by cases member⟩

theorem Progress.unlisted (prepared : Prepared setup clients) (progress : Progress clients done d)
    (fresh : (k, .requested) ∉ done) : d.Unlisted (clients k).tlsId (clients k).addr := by
  have absent := (progress.standing k).entry
  simp only [fresh, decide_false, Bool.false_eq_true, if_false] at absent
  have apart : ∀ entry ∈ d.idsAndAddrs, entry.addr ≠ (clients k).addr := by
    simpa [NodeRPCServerShared.entryOf] using absent
  intro entry member
  refine ⟨fun same => ?_, apart entry member⟩
  obtain ⟨other, pair⟩ := progress.listed entry member
  obtain ⟨tlsId, addr⟩ := Prod.mk.inj pair
  rw [prepared.tlsIds other k (tlsId.symm.trans same)] at addr
  exact apart entry member addr

/-- What happens for a client succeeds, and sends its share exactly when nothing is missing any more. -/
theorem Progress.own (prepared : Prepared setup clients) (progress : Progress clients done d) {part : Part}
    (fresh : (k, part) ∉ done) :
    ∃ d', d.respond setup ((clients k).event part) =
        (.done, if Complete (done ++ [(k, part)]) k then [(clients k).message] else [], d') ∧
      Standing (clients k) (decide ((k, .reserved) ∈ done ++ [(k, part)]))
        (decide ((k, .generated) ∈ done ++ [(k, part)])) (decide ((k, .requested) ∈ done ++ [(k, part)])) d' := by
  have standing := progress.standing k
  have able := prepared.able k
  cases part with
  | reserved =>
    rw [decide_eq_false fresh] at standing
    obtain ⟨d', answer, after⟩ := standing.reserve able
    exact ⟨d', by simpa [Complete] using answer, by simpa using after⟩
  | generated =>
    rw [decide_eq_false fresh] at standing
    obtain ⟨d', answer, after⟩ := standing.generate able
    exact ⟨d', by simpa [Complete] using answer, by simpa using after⟩
  | requested =>
    have unlisted := progress.unlisted prepared fresh
    rw [decide_eq_false fresh] at standing
    obtain ⟨d', answer, after⟩ := standing.request able unlisted
    exact ⟨d', by simpa [Complete] using answer, by simpa using after⟩

theorem Progress.step (prepared : Prepared setup clients) (progress : Progress clients done d) {part : Part}
    (fresh : (k, part) ∉ done) :
    ∃ d', d.respond setup ((clients k).event part) =
        (.done, if Complete (done ++ [(k, part)]) k then [(clients k).message] else [], d') ∧
      Progress clients (done ++ [(k, part)]) d' := by
  obtain ⟨d', answer, own⟩ := progress.own prepared fresh
  have effect := NodeRPCServerShared.effect_of_respond answer
  refine ⟨d', answer, fun other => ?_, fun entry member => ?_⟩
  · by_cases same : other = k
    · rw [same]
      exact own
    · have untouched := untouched_of_effect effect (fun equal => same (prepared.addrs _ _ equal))
        fun equal => same (prepared.indices _ _ equal)
      simpa [same] using (progress.standing other).frame untouched
  · rcases listed_of_effect effect member with ⟨old, listed, pair⟩ | new
    · rw [← pair]
      exact progress.listed old listed
    · exact ⟨k, new⟩

/-- What is sent on the subscription of a client along a run. -/
def sentTo (setup : NodeSetup S) (sink : SubscriptionSink) (trace : List (Transition (NodeState S) (NodeEvent S))) :
    List ShareMessage :=
  (trace.flatMap fun τ => τ.source.sends setup τ.event).filter fun message => decide (message.sink = sink)

/-- Everything succeeds so far, and those who have all they need were sent their share once. -/
structure Exchanged (setup : NodeSetup S) (clients : ι → MaskClient S) (done : List (ι × Part))
    (trace : List (Transition (NodeState S) (NodeEvent S))) (s : NodeState S) : Prop where
  progress : Progress clients done s.shared
  succeeded : ∀ τ ∈ trace, τ.source.outcome setup τ.event = .done
  sent : ∀ k, sentTo setup (clients k).sink trace = if Complete done k then [(clients k).message] else []

theorem Exchanged.step (prepared : Prepared setup clients) {trace : List (Transition (NodeState S) (NodeEvent S))}
    {s s' : NodeState S} {part : Part} (exchanged : Exchanged setup clients done trace s) (fresh : (k, part) ∉ done)
    (step : s.Step setup ((clients k).event part) s') :
    Exchanged setup clients (done ++ [(k, part)]) (trace ++ [⟨s, (clients k).event part, s'⟩]) s' := by
  obtain ⟨d', answer, progress⟩ := exchanged.progress.step prepared fresh
  have shared := step.shared_eq.1
  rw [answer] at shared
  refine ⟨shared ▸ progress, fun τ member => ?_, fun other => ?_⟩
  · rcases List.mem_append.mp member with old | last
    · exact exchanged.succeeded τ old
    · rw [List.mem_singleton.mp last]
      exact congrArg Prod.fst answer
  · have sends : s.sends setup ((clients k).event part) =
        if Complete (done ++ [(k, part)]) k then [(clients k).message] else [] := congrArg (fun r => r.2.1) answer
    have before := exchanged.sent other
    unfold sentTo at before ⊢
    rw [List.flatMap_append, List.filter_append, before, List.flatMap_singleton, sends]
    by_cases same : other = k
    · subst same
      have incomplete : ¬ Complete done other := by
        rintro ⟨reserved, generated, requested⟩
        cases part <;> contradiction
      rw [if_neg incomplete]
      split <;> simp [MaskClient.message]
    · have apart : (clients k).sink ≠ (clients other).sink := fun equal =>
        same (prepared.tlsIds _ _ (congrArg SubscriptionSink.peer equal)).symm
      have silent : (if Complete (done ++ [(k, part)]) k then [(clients k).message] else []).filter
          (fun message => decide (message.sink = (clients other).sink)) = [] := by
        split <;> simp [MaskClient.message, apart]
      rw [silent, List.append_nil]
      simp [Complete, same]

theorem Exchanged.of_run (prepared : Prepared setup clients) {schedule : List (ι × Part)} (once : schedule.Nodup)
    {trace : List (Transition (NodeState S) (NodeEvent S))} {final : NodeState S}
    (run : Run (NodeState.Step setup) NodeState.start trace final)
    (events : trace.map Transition.event = schedule.map fun entry => (clients entry.1).event entry.2) :
    Exchanged setup clients schedule trace final := by
  induction run generalizing schedule with
  | start =>
    cases List.map_eq_nil_iff.mp events.symm
    exact ⟨.new, by simp, by simp [sentTo]⟩
  | @next earlier current event after previous taken ih =>
    rw [List.map_append] at events
    obtain ⟨done, last, rfl, front, final⟩ := List.map_eq_append_iff.mp events.symm
    obtain ⟨⟨k, part⟩, rfl, same⟩ := List.map_eq_singleton_iff.mp final
    cases same
    obtain ⟨distinct, _, apart⟩ := List.nodup_append.mp once
    have fresh : (k, part) ∉ done := fun member => apart _ member _ (List.mem_singleton_self _) rfl
    exact (ih distinct front.symm).step prepared fresh taken

omit [DecidableEq ι] in
/-- Each client opens one subscription, so that the events can come in any order. -/
theorem exists_run_of_schedule (prepared : Prepared setup clients) {schedule : List (ι × Part)} (once : schedule.Nodup) :
    ∃ trace final, Run (NodeState.Step setup) NodeState.start trace final ∧
      trace.map Transition.event = schedule.map fun entry => (clients entry.1).event entry.2 := by
  induction schedule using List.reverseRecOn with
  | nil => exact ⟨[], _, .start, rfl⟩
  | append_singleton done entry ih =>
    obtain ⟨k, part⟩ := entry
    obtain ⟨distinct, _, apart⟩ := List.nodup_append.mp once
    obtain ⟨trace, s, run, events⟩ := ih distinct
    have fresh : ∀ sink, ((clients k).event part).opens = some sink → sink ∉ s.opened := by
      intro sink opens opened
      obtain ⟨rfl, rfl⟩ := MaskClient.opens_event opens
      rw [NodeState.opened_eq run] at opened
      obtain ⟨τ, member, held⟩ := List.mem_flatMap.mp opened
      have known := List.mem_map_of_mem (f := Transition.event) member
      rw [events] at known
      obtain ⟨⟨other, part⟩, listed, same⟩ := List.mem_map.mp known
      rw [← same] at held
      obtain ⟨rfl, sink⟩ := MaskClient.opens_event (Option.mem_toList.mp held)
      obtain rfl := prepared.tlsIds other k (congrArg SubscriptionSink.peer sink)
      exact apart _ listed _ (List.mem_singleton_self _) rfl
    have taken : s.next setup ((clients k).event part) = some _ := if_pos (by
      cases opens : ((clients k).event part).opens with
      | none => rfl
      | some sink => exact decide_eq_true (fresh sink opens))
    exact ⟨_, _, run.next taken, by simp [events]⟩

/-- The events of the clients can come in any order, and then no operation fails,
and each client is sent its share once, when its three events have happened. -/
theorem share_sent_exactly_once (prepared : Prepared setup clients) {schedule : List (ι × Part)} (once : schedule.Nodup) :
    (∃ trace final, Run (NodeState.Step setup) NodeState.start trace final ∧
      trace.map Transition.event = schedule.map fun entry => (clients entry.1).event entry.2) ∧
    ∀ trace final, Run (NodeState.Step setup) NodeState.start trace final →
      trace.map Transition.event = (schedule.map fun entry => (clients entry.1).event entry.2) →
      (∀ τ ∈ trace, τ.source.outcome setup τ.event = .done) ∧
        ∀ k, sentTo setup (clients k).sink trace = if Complete schedule k then [(clients k).message] else [] := by
  refine ⟨exists_run_of_schedule prepared once, fun trace final run events => ?_⟩
  have exchanged := Exchanged.of_run prepared once run events
  exact ⟨exchanged.succeeded, exchanged.sent⟩

end

namespace Scenario

/-- The client of the recorded signature, which has reserved the index 0. -/
def maskClient : MaskClient Bytes := ⟨owner, 0, [7], [7], [1], ownerSig, 0⟩

/-- Two clients with adjacent indices. -/
def maskClients : Bool → MaskClient Bytes
  | false => maskClient
  | true => ⟨neighbour, 1, [8], [8], [2], neighbourSig, 1⟩

theorem mask_clients_prepared : Prepared .recorded maskClients where
  addrs := by decide +kernel
  indices := by decide +kernel
  tlsIds := by decide +kernel
  able k := ⟨by cases k <;> decide +kernel, by cases k <;> rfl, by cases k <;> rfl⟩

/-- The events of the two clients alternate. The share of the second comes first
for it and last for the first, and the second has no reservation yet. -/
theorem share_sent_exactly_once_interleaved :
    ∃ trace final, Run (NodeState.Step .recorded) NodeState.start trace final ∧
      (∀ τ ∈ trace, τ.source.outcome .recorded τ.event = .done) ∧
      sentTo .recorded (maskClients false).sink trace = [(maskClients false).message] ∧
      sentTo .recorded (maskClients true).sink trace = [] := by
  have once : [(false, Part.requested), (true, .generated), (false, .reserved), (true, .requested),
    (false, .generated)].Nodup := by decide
  obtain ⟨⟨trace, final, run, events⟩, exchanged⟩ := share_sent_exactly_once mask_clients_prepared once
  obtain ⟨succeeded, sent⟩ := exchanged trace final run events
  exact ⟨trace, final, run, succeeded, sent false, sent true⟩

end Scenario

end MpcCoordinator.OnChain
