import MpcCoordinator.Stream.Histories
import MpcCoordinator.Execution.Batches
import MpcCoordinator.Client.WaitForInputs

namespace MpcCoordinator

variable {S V : Type} {scheme : ShareBound S V} {maskShares : List S} {encode : V → Bytes}

/-- What a node reads of an item that it takes for an event. -/
def StreamItem.asEvent : StreamItem → Option Event
  | .event reported => some reported
  | _ => none

/-- The inputs of an execution, as its tables have them. -/
structure InputsOf (encode : MaskedInput V → Bytes) (d : CoordinatorExecutionState) (inputs : List (MaskedInput V)) :
    Prop where
  once : (inputs.map MaskedInput.index).Nodup
  held : ∀ input, input ∈ inputs ↔ d.maskedInputs.read input.index.toNat = some (encode input) ∧
    d.reservedIndices.read input.index.toNat = some input.client

theorem InputsOf.index_lt {registration : ExecutionRegistration} {d : CoordinatorExecutionState}
    {bytes : MaskedInput V → Bytes} {inputs : List (MaskedInput V)} (inputsOf : InputsOf bytes d inputs)
    (coherent : d.Coherent registration) : ∀ input ∈ inputs, input.index < d.registration.nInputs := by
  intro input member
  have bound := Slots.lt_of_read ((inputsOf.held input).mp member).1
  rw [coherent.maskedInputs_length, ← coherent.registration_eq] at bound
  exact UInt64.lt_iff_toNat_lt.mpr bound

section Batches

variable {batches arrived later : List (InputBatch V)}

theorem maskedPairs_batches (batches : List (InputBatch V)) :
    (batches.map (InputBatch.event encode)).flatMap Event.maskedPairs =
      (batches.flatMap InputBatch.inputs).map fun input => (input.index, encode input.value) := by
  rw [List.flatMap_map, List.map_flatMap]
  refine List.flatMap_congr fun batch _ => ?_
  simp [InputBatch.event, InputBatch.inputs, Event.maskedPairs, Function.comp_def]

/-- Batches of encoded values are the batches of those values. -/
theorem exists_batches {events : List Event}
    (shapes : ∀ event ∈ events, ∃ id, event = .maskedInputEvent id event.maskedPairs)
    (encoded : ∀ pair ∈ events.flatMap Event.maskedPairs, ∃ value, pair.2 = encode value) :
    ∃ batches : List (InputBatch V), events = batches.map (InputBatch.event encode) := by
  have each : events ∈ Set.range (List.map (InputBatch.event encode)) := by
    rw [Set.range_list_map]
    intro event member
    obtain ⟨id, shape⟩ := shapes event member
    have values : event.maskedPairs ∈ Set.range (List.map fun pair : UInt64 × V => (pair.1, encode pair.2)) := by
      rw [Set.range_list_map]
      intro pair inside
      obtain ⟨value, same⟩ := encoded pair (List.mem_flatMap.mpr ⟨event, member, inside⟩)
      exact ⟨(pair.1, value), Prod.ext rfl same.symm⟩
    obtain ⟨pairs, same⟩ := values
    exact ⟨⟨id, pairs⟩, (congrArg (Event.maskedInputEvent id) same).trans shape.symm⟩
  obtain ⟨batches, same⟩ := each
  exact ⟨batches, same.symm⟩

/-- Where batches come short of what is awaited, the loop goes on waiting. -/
theorem waitForInputsLoop_of_short {share : MaskedInput V → S}
    (roundTrip : ∀ value, scheme.deserializeValue (encode value) = some value) {nInputs received : UInt64} {closed : Bool}
    (computed : ∀ input ∈ batches.flatMap InputBatch.inputs, scheme.shareOf maskShares input = some (share input))
    (missing : received.toNat + (batches.flatMap InputBatch.inputs).length < nInputs.toNat)
    (map : IndexedInputs ClientIdentity S) :
    waitForInputsLoop scheme maskShares nInputs closed received map
        (batches.map fun batch => some (batch.event encode)) =
      if closed then .failed subscriptionEnded else .blocked := by
  have more : received < nInputs := by
    rw [UInt64.lt_iff_toNat_lt]
    omega
  induction batches generalizing received map with
  | nil => simp [waitForInputsLoop, more]
  | cons batch rest ih =>
    have size : batch.inputs.length = batch.pairs.length := List.length_map ..
    rw [List.flatMap_cons, List.length_append, size] at missing
    rw [List.flatMap_cons] at computed
    have here := addMaskedInputs_eq roundTrip (fun input member => computed input (List.mem_append_left _ member)) map
    have counted : (received + UInt64.ofNat batch.pairs.length).toNat = received.toNat + batch.pairs.length := by
      have top := nInputs.toNat_lt
      rw [UInt64.toNat_add, UInt64.toNat_ofNat']
      omega
    simp only [List.map_cons, InputBatch.event, waitForInputsLoop, more, if_true, here, List.length_map]
    refine ih (fun input member => computed input (List.mem_append_right _ member)) (by omega) _ ?_
    rw [UInt64.lt_iff_toNat_lt]
    omega

theorem length_le_of_once {nInputs : UInt64} {inputs : List (MaskedInput V)}
    (once : (inputs.map MaskedInput.index).Nodup) (bounded : ∀ input ∈ inputs, input.index < nInputs) :
    inputs.length ≤ nInputs.toNat := by
  have inside : (inputs.map fun input => input.index.toNat) ⊆ List.range nInputs.toNat := by
    intro i named
    obtain ⟨input, member, rfl⟩ := List.mem_map.mp named
    exact List.mem_range.mpr (UInt64.lt_iff_toNat_lt.mp (bounded input member))
  have apart : (inputs.map fun input => input.index.toNat).Nodup := by
    have mapped := once.map fun _ _ same => UInt64.toNat_inj.mp same
    rwa [List.map_map] at mapped
  simpa using (apart.subperm inside).length_le

/-- With an input to wait for there is a mask share, so that every input can be
given a share. -/
theorem exists_shares {nInputs : UInt64} {inputs : List (MaskedInput V)} (nonzero : nInputs ≠ 0)
    (bounded : ∀ input ∈ inputs, input.index < nInputs) (dealt : nInputs.toNat ≤ maskShares.length)
    (computes : ∀ value, ∀ maskShare ∈ maskShares, (scheme.computeMaskedInput value maskShare).isSome = true) :
    ∃ share : MaskedInput V → S, ∀ input ∈ inputs, scheme.shareOf maskShares input = some (share input) := by
  obtain ⟨fallback, _⟩ : ∃ maskShare, maskShare ∈ maskShares := by
    refine List.exists_mem_of_length_pos (lt_of_lt_of_le (Nat.pos_of_ne_zero fun none => nonzero ?_) dealt)
    exact UInt64.toNat_inj.mp none
  refine ⟨fun input => (scheme.shareOf maskShares input).getD fallback, fun input member => ?_⟩
  have stored := List.getElem?_eq_getElem (lt_of_lt_of_le (UInt64.lt_iff_toNat_lt.mp (bounded input member)) dealt)
  obtain ⟨result, known⟩ := Option.isSome_iff_exists.mp (computes input.value _ (List.mem_of_getElem? stored))
  simp [ShareBound.shareOf, stored, known]

/-- A node that has received some of the batches returns exactly if no input is
missing, and then with the shares of all of them. -/
theorem waitForInputs_of_arrived (roundTrip : ∀ value, scheme.deserializeValue (encode value) = some value)
    {nInputs : UInt64} {inputs : List (MaskedInput V)} (split : inputs = (arrived ++ later).flatMap InputBatch.inputs)
    (once : (inputs.map MaskedInput.index).Nodup) (bounded : ∀ input ∈ inputs, input.index < nInputs)
    (dealt : nInputs.toNat ≤ maskShares.length)
    (computes : ∀ value, ∀ maskShare ∈ maskShares, (scheme.computeMaskedInput value maskShare).isSome = true)
    (closed : Bool) :
    ((arrived.flatMap InputBatch.inputs).length = nInputs.toNat → ∃ map, Reconstructs scheme maskShares inputs map ∧
      waitForInputs scheme maskShares nInputs (.ok ⟨arrived.map fun batch => some (batch.event encode), closed⟩) =
        .returned map) ∧
    ((arrived.flatMap InputBatch.inputs).length ≠ nInputs.toNat →
      waitForInputs scheme maskShares nInputs (.ok ⟨arrived.map fun batch => some (batch.event encode), closed⟩) =
        if closed then .failed subscriptionEnded else .blocked) := by
  rw [List.flatMap_append] at split
  have total := length_le_of_once once bounded
  have few : (arrived.flatMap InputBatch.inputs).length ≤ nInputs.toNat := by
    rw [split, List.length_append] at total
    omega
  by_cases zero : nInputs = 0
  · subst zero
    have none : inputs = [] := List.eq_nil_of_length_eq_zero (Nat.le_zero.mp total)
    refine ⟨fun _ => ⟨Table.empty, ?_, waitForInputsLoop_zero closed Table.empty _⟩, fun short => ?_⟩
    · rw [none]
      exact ⟨by simp, by simp⟩
    · exact absurd (Nat.le_zero.mp few) short
  obtain ⟨share, computed⟩ := exists_shares zero bounded dealt computes
  have arrivedComputed : ∀ input ∈ arrived.flatMap InputBatch.inputs,
      scheme.shareOf maskShares input = some (share input) :=
    fun input member => computed input (split ▸ List.mem_append_left _ member)
  refine ⟨fun all => ?_, fun short => ?_⟩
  · have nothing : later.flatMap InputBatch.inputs = [] := by
      rw [split, List.length_append] at total
      exact List.eq_nil_of_length_eq_zero (by omega)
    rw [nothing, List.append_nil] at split
    have missing : (0 : UInt64).toNat + (arrived.flatMap InputBatch.inputs).length = nInputs.toNat := by
      simpa using all
    have returned : waitForInputsLoop scheme maskShares nInputs closed 0 Table.empty
        (arrived.map (fun batch => some (batch.event encode)) ++ []) = _ :=
      waitForInputsLoop_eq roundTrip arrivedComputed missing Table.empty
    rw [List.append_nil, ← split] at returned
    exact ⟨_, reconstructs_collect once computed, returned⟩
  · exact waitForInputsLoop_of_short roundTrip arrivedComputed (by simpa using lt_of_le_of_ne few short) Table.empty

end Batches

namespace CoordinatorExecutionState

variable {topology : Topology} {registration : ExecutionRegistration} {initial d : CoordinatorExecutionState}
  {calls : List (Transition CoordinatorExecutionState Call)}

/-- The batches of an execution hold its inputs, where no index was accepted twice
and every input is an encoded value. -/
theorem exists_inputBatches (admitted : new registration topology.n = .ok initial)
    (run : Run (Step topology) initial calls d) (once : (d.maskedPairs.map Prod.fst).Nodup)
    (roundTrip : ∀ value, scheme.deserializeValue (encode value) = some value)
    (encoded : ∀ i x, d.maskedInputs.read i = some x → ∃ value, x = encode value) :
    ∃ batches : List (InputBatch V), d.maskedInputEvents = batches.map (InputBatch.event encode) ∧
      InputsOf (fun input => encode input.value) d (batches.flatMap InputBatch.inputs) := by
  have recorded : InputsRecorded d := .of_run admitted run once
  have owned : BatchesOwned d := .of_run admitted run
  have written : ∀ (i : UInt64) (x : Bytes), d.maskedInputs.read i.toNat = some x ↔ (i, x) ∈ d.maskedPairs :=
    fun i x => (recorded.written i.toNat x).trans mem_slotWrite
  obtain ⟨batches, same⟩ := exists_batches
    (fun event member => (owned event member).imp fun _ both => both.1)
    fun pair member => encoded _ _ ((written pair.1 pair.2).mpr member)
  have pairs : d.maskedPairs =
      (batches.flatMap InputBatch.inputs).map fun input => (input.index, encode input.value) := by
    rw [maskedPairs, same, maskedPairs_batches]
  have owner : ∀ input ∈ batches.flatMap InputBatch.inputs,
      d.reservedIndices.read input.index.toNat = some input.client := by
    intro input member
    obtain ⟨batch, listed, inside⟩ := List.mem_flatMap.mp member
    obtain ⟨pair, carried, rfl⟩ := List.mem_map.mp inside
    obtain ⟨id, shape, owns⟩ := owned (batch.event encode) (same ▸ List.mem_map_of_mem listed)
    cases shape
    exact owns (pair.1, encode pair.2) (List.mem_map_of_mem carried)
  refine ⟨batches, same, ?_, fun input => ⟨fun member => ⟨?_, owner input member⟩, fun both => ?_⟩⟩
  · rw [pairs, List.map_map] at once
    exact once
  · rw [written, pairs]
    exact List.mem_map_of_mem member
  · have listed := (written _ _).mp both.1
    rw [pairs] at listed
    obtain ⟨other, member, agrees⟩ := List.mem_map.mp listed
    obtain ⟨index, bytes⟩ := Prod.mk.inj agrees
    have value : other.value = input.value := by
      have decoded := congrArg scheme.deserializeValue bytes
      rw [roundTrip, roundTrip] at decoded
      exact Option.some.inj decoded
    have client : other.client = input.client := by
      have first := owner other member
      rw [index, both.2] at first
      exact (Option.some.inj first).symm
    obtain rfl : other = input := by
      cases other
      cases input
      simp_all
    exact member

end CoordinatorExecutionState

namespace StreamServerState

variable {listener : CoordinatorListener} {s : StreamServerState} {e : ExecutionId} {stream : EventStream}
  {sink : SubscriptionSink} {d : CoordinatorExecutionState} {trace : List (Transition StreamServerState StreamEvent)}

/-- The events that a subscriber has received so far. -/
def received (s : StreamServerState) (sink : SubscriptionSink) : List (Option Event) :=
  (itemsOf (s.sentOn sink)).map StreamItem.asEvent

/-- The masked inputs in them. -/
def inputsReceived (s : StreamServerState) (sink : SubscriptionSink) : List (UInt64 × Bytes) :=
  ((s.received sink).filterMap id).flatMap Event.maskedPairs

/-- The sink is that of a subscription to the masked inputs, and every send to it
went through. -/
def Follows (s : StreamServerState) (e : ExecutionId) (sink : SubscriptionSink) : Prop :=
  ⟨e, .stream .maskedInputs, sink⟩ ∈ s.accepted ∧ ∀ send ∈ s.sentOn sink, send.2 = true

instance : Decidable (s.Follows e sink) := inferInstanceAs (Decidable (_ ∧ _))

/-- A subscriber to whom every send went through has the history from its start,
and what is still to be sent to it is the rest. -/
theorem itemsOf_of_unfailed (run : Run (Step listener) start trace s) (remains : Remains e trace)
    (here : s.live e = some d) (member : ⟨e, .stream stream, sink⟩ ∈ s.accepted)
    (unfailed : ∀ send ∈ s.sentOn sink, send.2 = true) :
    itemsOf (s.sentOn sink) ++ (s.owedOn sink).flatMap StreamMessage.items = d.history (.stream stream) := by
  have addressed : WellAddressed s := .of_run run
  have tracked := (streams_tracked listener e).of_run run remains
  rw [addressed.sentOn_eq member] at unfailed
  rw [addressed.sentOn_eq member, addressed.owedOn_eq member]
  cases tracked.standing d here stream sink member with
  | listed _ unqueued _ items | reached _ unqueued _ items => simp [unqueued, items]
  | awaited message _ queued _ items => simp [queued, items]
  | missed _ _ last =>
    obtain ⟨send, final, failed⟩ := Option.map_eq_some_iff.mp last
    rw [unfailed send (List.mem_of_getLast? final)] at failed
    cases failed
  | dropped _ _ failed =>
    obtain ⟨send, sent, outcome⟩ := failed
    rw [unfailed send sent] at outcome
    cases outcome

/-- What such a subscriber to the masked inputs has received, in batches. -/
theorem exists_arrived {batches : List (InputBatch V)} (run : Run (Step listener) start trace s)
    (remains : Remains e trace) (here : s.live e = some d)
    (events : d.maskedInputEvents = batches.map (InputBatch.event encode))
    (follows : s.Follows e sink) :
    ∃ arrived later, batches = arrived ++ later ∧
      s.received sink = arrived.map (fun batch => some (batch.event encode)) ∧ (s.owedOn sink = [] → later = []) := by
  have items := itemsOf_of_unfailed run remains here follows.1 follows.2
  have history : d.history (.stream .maskedInputs) = batches.map fun batch => StreamItem.event (batch.event encode) := by
    rw [CoordinatorExecutionState.history, events, List.map_map]
    rfl
  rw [history] at items
  obtain ⟨arrived, later, rfl, first, rest⟩ := List.map_eq_append_iff.mp items.symm
  refine ⟨arrived, later, rfl, ?_, fun settled => ?_⟩
  · rw [received, ← first, List.map_map]
    rfl
  · rw [settled] at rest
    exact List.map_eq_nil_iff.mp rest

theorem length_inputsReceived {arrived : List (InputBatch V)}
    (same : s.received sink = arrived.map fun batch => some (batch.event encode)) :
    (s.inputsReceived sink).length = (arrived.flatMap InputBatch.inputs).length := by
  have events : (s.received sink).filterMap id = arrived.map (InputBatch.event encode) := by
    rw [same, List.filterMap_map]
    exact congrFun (List.filterMap_eq_map (f := InputBatch.event encode)) arrived
  rw [inputsReceived, events, maskedPairs_batches, List.length_map]

/-- Whatever calls are interleaved in an execution that stays registered, and
where it accepted no batch that repeats an index: the nodes that follow its
inputs over subscriptions of their own go on waiting until they have received
all of them. Each then gets, from its mask shares, shares of the very inputs
that the coordinator has from their owners. -/
theorem nodes_agree_on_inputs (run : Run (Step listener) start trace s) (remains : Remains e trace)
    (here : s.live e = some d) (once : (d.maskedPairs.map Prod.fst).Nodup)
    (roundTrip : ∀ value, scheme.deserializeValue (encode value) = some value)
    (encoded : ∀ i x, d.maskedInputs.read i = some x → ∃ value, x = encode value) :
    ∃ inputs : List (MaskedInput V), InputsOf (fun input => encode input.value) d inputs ∧
      ∀ (sink : SubscriptionSink) (maskShares : List S) (closed : Bool),
        s.Follows e sink → d.registration.nInputs.toNat ≤ maskShares.length →
        (∀ value, ∀ maskShare ∈ maskShares, (scheme.computeMaskedInput value maskShare).isSome = true) →
        (s.owedOn sink = [] → (s.inputsReceived sink).length = inputs.length) ∧
        ((s.inputsReceived sink).length = d.registration.nInputs.toNat →
          ∃ map, Reconstructs scheme maskShares inputs map ∧
            waitForInputs scheme maskShares d.registration.nInputs (.ok ⟨s.received sink, closed⟩) = .returned map) ∧
        ((s.inputsReceived sink).length ≠ d.registration.nInputs.toNat →
          waitForInputs scheme maskShares d.registration.nInputs (.ok ⟨s.received sink, closed⟩) =
            if closed then .failed subscriptionEnded else .blocked) := by
  obtain ⟨registration, initial, calls, admitted, served⟩ := exists_execution_run run here
  obtain ⟨batches, events, inputsOf⟩ :=
    CoordinatorExecutionState.exists_inputBatches admitted served once roundTrip encoded
  have bounded := inputsOf.index_lt (.of_run admitted served)
  refine ⟨_, inputsOf, fun sink maskShares closed follows dealt computes => ?_⟩
  obtain ⟨arrived, later, rfl, same, settled⟩ := exists_arrived run remains here events follows
  rw [length_inputsReceived same, same]
  refine ⟨fun empty => ?_, waitForInputs_of_arrived roundTrip rfl inputsOf.once bounded dealt computes closed⟩
  rw [settled empty, List.append_nil]

open Scenario in
theorem nodes_agree_on_inputs_of_follower :
    ∃ trace s d inputs map, Run (Step .recorded) start trace s ∧ s.live execution = some d ∧
      d.maskedInputs = [some [7]] ∧ InputsOf (fun input => [input.value]) d inputs ∧
      Reconstructs .plain [3] inputs map ∧
      waitForInputs .plain [3] 1 (.ok ⟨s.received follower, false⟩) = .returned map := by
  obtain ⟨trace, s, run, remains, seen⟩ := exists_run_of_events .recorded execution followInputs
    (fun s => ((s.live execution).map fun d : CoordinatorExecutionState => decide (d.maskedPairs = [(0, [7])] ∧
      d.maskedInputs = [some [7]] ∧ d.registration.nInputs = 1 ∧ s.Follows execution follower ∧
      (s.inputsReceived follower).length = 1))) (some true) (by decide +kernel)
  obtain ⟨d, here, visible⟩ := Option.map_eq_some_iff.mp seen
  obtain ⟨pairs, table, nInputs, follows, count⟩ := of_decide_eq_true visible
  have encoded : ∀ i x, d.maskedInputs.read i = some x → ∃ value : UInt8, x = [value] := by
    intro i x held
    have stored := Slots.some_mem_iff.mpr ⟨i, held⟩
    rw [table, List.mem_singleton] at stored
    exact ⟨7, Option.some.inj stored⟩
  have roundTrip : ∀ value : UInt8, ShareBound.plain.deserializeValue [value] = some value := fun _ => rfl
  obtain ⟨inputs, inputsOf, agree⟩ := nodes_agree_on_inputs run remains here (by simp [pairs]) roundTrip encoded
  obtain ⟨map, reconstructs, returned⟩ := (agree follower [3] false follows (by simp [nInputs])
    (fun _ _ _ => rfl)).2.1 (by rw [count, nInputs]; rfl)
  rw [nInputs] at returned
  exact ⟨trace, s, d, inputs, map, run, here, table, inputsOf, reconstructs, returned⟩

end StreamServerState

end MpcCoordinator
