import MpcCoordinator.OnChain.Authentication

namespace MpcCoordinator.OnChain

/-- The index that an operation adds as reserved. -/
def NodeEvent.reserves {S : Type} : NodeEvent S → Option UInt64
  | .addReservedIndex _ i _ => some i
  | _ => none

/-- The index whose share an operation adds. -/
def NodeEvent.generates {S : Type} : NodeEvent S → Option UInt64
  | .addMaskShare i _ _ => some i
  | _ => none

/-- The address that an operation adds an index for. -/
def NodeEvent.reservesFor {S : Type} : NodeEvent S → Option Address
  | .addReservedIndex addr _ _ => some addr
  | _ => none

/-- The address of a request that the node accepts, and lists from then on. -/
def NodeState.lists {S : Type} (setup : NodeSetup S) (s : NodeState S) (event : NodeEvent S) : Option Address :=
  match event with
  | .receiveMaskShare _ _ addr _ _ => if s.outcome setup event = .done then some addr else none
  | _ => none

section

variable {S : Type} {setup : NodeSetup S} {trace : List (Transition (NodeState S) (NodeEvent S))}
  {s s' final : NodeState S} {event : NodeEvent S}

open NodeRPCServerShared

/-- The node adds no index twice as reserved, and no share twice. How many
indices an address reserves is left open. -/
structure OncePerIndex (trace : List (Transition (NodeState S) (NodeEvent S))) : Prop where
  reserved : (trace.filterMap fun τ => τ.event.reserves).Nodup
  generated : (trace.filterMap fun τ => τ.event.generates).Nodup

/-- Once a request for an address is listed, no index is added for the address
if it has one already. -/
def OneIndexIfListed (setup : NodeSetup S) (trace : List (Transition (NodeState S) (NodeEvent S))) : Prop :=
  ∀ before τ after, trace = before ++ τ :: after → ∀ addr, τ.event.reservesFor = some addr →
    addr ∈ before.filterMap (fun ρ => ρ.event.reservesFor) →
      addr ∉ before.filterMap fun ρ => ρ.source.lists setup ρ.event

/-- An assertion that fails: the index is there already, or the client that is
listed under the address has no signature left to check. -/
inductive FailsAssertion (d : NodeRPCServerShared S) : NodeEvent S → Prop
  | reserved {addr i delivered} : d.indexToClient i ≠ none → FailsAssertion d (.addReservedIndex addr i delivered)
  | consumed {addr i delivered entry} : d.entryOf addr = some entry → entry.pendingSig = none →
      FailsAssertion d (.addReservedIndex addr i delivered)
  | generated {i share delivered} : d.maskShares i ≠ none → FailsAssertion d (.addMaskShare i share delivered)

theorem sendShare_ne_panicked {d : NodeRPCServerShared S} {addr : Address} {i : UInt64} {share : S} {delivered : Bool} :
    (d.sendShare setup addr i share delivered).1 ≠ .panicked := by
  unfold sendShare
  repeat' split
  all_goals simp

theorem addReservedIndex_panicked {d : NodeRPCServerShared S} {addr : Address} {i : UInt64} {delivered : Bool} :
    (d.addReservedIndex setup addr i delivered).1 = .panicked ↔ FailsAssertion d (.addReservedIndex addr i delivered) := by
  constructor
  · intro panicked
    unfold addReservedIndex at panicked
    split at panicked
    · rename_i taken
      exact .reserved (Option.isSome_iff_ne_none.mp taken)
    simp only [recordReservation_entryOf] at panicked
    split at panicked
    · cases panicked
    rename_i entry found
    split at panicked
    · rename_i consumed
      exact .consumed found consumed
    -- from here on the operation has passed its assertions
    split at panicked
    · cases panicked
    split at panicked
    · cases panicked
    · exact absurd panicked sendShare_ne_panicked
  · intro fails
    cases fails with
    | reserved taken => simp [addReservedIndex, Option.isSome_iff_ne_none.mpr taken]
    | consumed found consumed =>
      simp only [addReservedIndex, recordReservation_entryOf, found, consumed]
      split <;> rfl

theorem addMaskShare_panicked {d : NodeRPCServerShared S} {i : UInt64} {share : S} {delivered : Bool} :
    (d.addMaskShare setup i share delivered).1 = .panicked ↔ FailsAssertion d (.addMaskShare i share delivered) := by
  constructor
  · intro panicked
    unfold addMaskShare at panicked
    split at panicked
    · rename_i taken
      exact .generated (Option.isSome_iff_ne_none.mp taken)
    dsimp only at panicked
    split at panicked
    · cases panicked
    split at panicked
    · exact absurd panicked sendShare_ne_panicked
    · cases panicked
  · intro fails
    cases fails with
    | generated taken => simp [addMaskShare, Option.isSome_iff_ne_none.mpr taken]

theorem receiveMaskShare_ne_panicked {d : NodeRPCServerShared S} {tlsId sigBytes : Bytes} {addr : Address}
    {accepted : Option Nat} {delivered : Bool} :
    (d.receiveMaskShare setup tlsId sigBytes addr accepted delivered).1 ≠ .panicked := by
  unfold receiveMaskShare storeSink answerRequest
  dsimp only
  repeat' split
  all_goals simp

theorem panicked_iff : s.outcome setup event = .panicked ↔ FailsAssertion s.shared event := by
  cases event with
  | addReservedIndex addr i delivered => exact addReservedIndex_panicked
  | addMaskShare i share delivered => exact addMaskShare_panicked
  | receiveMaskShare tlsId sigBytes addr accepted delivered =>
    exact iff_of_false receiveMaskShare_ne_panicked nofun

/-- Indices and shares get into the tables by the operation that adds them. -/
theorem NodeState.Step.keys (step : s.Step setup event s') (i : UInt64) :
    (s'.shared.indexToClient i ≠ none → s.shared.indexToClient i ≠ none ∨ event.reserves = some i) ∧
      (s'.shared.maskShares i ≠ none → s.shared.maskShares i ≠ none ∨ event.generates = some i) := by
  have effect := step.effect
  have inserted : ∀ {addr : Address} {j : UInt64}, (s.shared.recordReservation addr j).indexToClient i ≠ none →
      s.shared.indexToClient i ≠ none ∨ some j = some i := by
    intro addr j present
    by_cases same : i = j
    · exact Or.inr (congrArg some same.symm)
    · simp only [recordReservation, Table.insert_of_ne _ _ same] at present
      exact Or.inl present
  generalize s.sends setup event = sends at effect
  obtain ⟨d', opened⟩ := s'
  dsimp only at effect ⊢
  cases effect with
  | reserved => exact ⟨inserted, Or.inl⟩
  | unverified => exact ⟨inserted, Or.inl⟩
  | verified => exact ⟨inserted, Or.inl⟩
  | @shared j =>
    refine ⟨Or.inl, fun present => ?_⟩
    by_cases same : i = j
    · exact Or.inr (congrArg some same.symm)
    · simp only [Table.insert_of_ne _ _ same] at present
      exact Or.inl present
  | taken => exact ⟨Or.inl, Or.inl⟩
  | generated => exact ⟨Or.inl, Or.inl⟩
  | turnedAway => exact ⟨Or.inl, Or.inl⟩
  | parked => exact ⟨Or.inl, Or.inl⟩
  | waiting => exact ⟨Or.inl, Or.inl⟩
  | answered => exact ⟨Or.inl, Or.inl⟩
  | cut => exact ⟨Or.inl, Or.inl⟩

theorem mem_of_keys (run : Run (NodeState.Step setup) NodeState.start trace final) (i : UInt64) :
    (final.shared.indexToClient i ≠ none → i ∈ trace.filterMap fun τ => τ.event.reserves) ∧
      (final.shared.maskShares i ≠ none → i ∈ trace.filterMap fun τ => τ.event.generates) := by
  induction run with
  | start => exact ⟨fun present => absurd rfl present, fun present => absurd rfl present⟩
  | next _ taken ih =>
    obtain ⟨reserved, generated⟩ := taken.keys i
    simp only [List.filterMap_append, List.mem_append]
    refine ⟨fun present => ?_, fun present => ?_⟩
    · exact (reserved present).imp ih.1 fun adds => by simp [adds]
    · exact (generated present).imp ih.2 fun adds => by simp [adds]

theorem receiveMaskShare_idsAndAddrs {d : NodeRPCServerShared S} {tlsId sigBytes : Bytes} {addr : Address}
    {accepted : Option Nat} {delivered : Bool} :
    (d.receiveMaskShare setup tlsId sigBytes addr accepted delivered).2.2.idsAndAddrs.map ClientEntry.addr =
      d.idsAndAddrs.map ClientEntry.addr ++
        if (d.receiveMaskShare setup tlsId sigBytes addr accepted delivered).1 = .done then [addr] else [] := by
  unfold receiveMaskShare storeSink answerRequest
  dsimp only
  repeat' split
  all_goals simp_all

/-- The requests that are listed are those that were accepted, one after the other. -/
theorem NodeState.Step.listed (step : s.Step setup event s') :
    s'.shared.idsAndAddrs.map ClientEntry.addr =
      s.shared.idsAndAddrs.map ClientEntry.addr ++ (s.lists setup event).toList := by
  cases event with
  | receiveMaskShare tlsId sigBytes addr accepted delivered =>
    rw [step.shared_eq.1]
    refine receiveMaskShare_idsAndAddrs.trans (congrArg _ ?_)
    by_cases accepts : (s.shared.receiveMaskShare setup tlsId sigBytes addr accepted delivered).1 = .done
    · simp [NodeState.lists, NodeState.outcome, respond, accepts]
    · simp [NodeState.lists, NodeState.outcome, respond, accepts]
  | addReservedIndex addr i delivered =>
    have effect := step.effect
    generalize s.sends setup _ = sends at effect
    obtain ⟨d', opened⟩ := s'
    dsimp only [NodeState.lists, Option.toList] at effect ⊢
    rw [List.append_nil]
    cases effect with
    | taken => rfl
    | reserved => rfl
    | unverified => exact takeSig_addrs ..
    | verified => exact takeSig_addrs ..
  | addMaskShare i share delivered =>
    have effect := step.effect
    generalize s.sends setup _ = sends at effect
    obtain ⟨d', opened⟩ := s'
    dsimp only [NodeState.lists, Option.toList] at effect ⊢
    rw [List.append_nil]
    cases effect <;> rfl

theorem listed_eq (run : Run (NodeState.Step setup) NodeState.start trace final) :
    final.shared.idsAndAddrs.map ClientEntry.addr = trace.filterMap fun τ => τ.source.lists setup τ.event := by
  induction run with
  | start => rfl
  | next _ taken ih =>
    rw [taken.listed, ih, List.filterMap_append]
    simp only [List.filterMap_cons, List.filterMap_nil]
    split <;> simp_all

/-- An address has an index as soon as one that is free is added for it. -/
theorem NodeState.Step.indexed (step : s.Step setup event s') (addr : Address) :
    (s'.shared.clientToIndex addr ≠ none → s.shared.clientToIndex addr ≠ none ∨ event.reservesFor = some addr) ∧
      (s.shared.clientToIndex addr ≠ none → s'.shared.clientToIndex addr ≠ none) ∧
      (event.reservesFor = some addr → s'.shared.clientToIndex addr ≠ none ∨
        ∃ i, event.reserves = some i ∧ s.shared.indexToClient i ≠ none) := by
  have effect := step.effect
  have inserted : ∀ {other : Address} {j : UInt64},
      (s.shared.recordReservation other j).clientToIndex addr ≠ none ↔
        s.shared.clientToIndex addr ≠ none ∨ some other = some addr := by
    intro other j
    by_cases same : addr = other
    · simp [recordReservation, same]
    · simp [recordReservation, Table.insert_of_ne _ _ same, Ne.symm same]
  generalize s.sends setup event = sends at effect
  obtain ⟨d', opened⟩ := s'
  dsimp only at effect ⊢
  cases effect with
  | reserved | unverified | verified =>
    exact ⟨inserted.mp, inserted.mpr ∘ Or.inl, Or.inl ∘ inserted.mpr ∘ Or.inr⟩
  | taken held => exact ⟨Or.inl, id, fun _ => Or.inr ⟨_, rfl, held⟩⟩
  | shared | generated | turnedAway | parked | waiting | answered | cut =>
    refine ⟨Or.inl, id, fun adds => ?_⟩
    cases adds

/-- While no index is added twice, the addresses that have an index are those
that one was added for. -/
theorem indexed_iff (run : Run (NodeState.Step setup) NodeState.start trace final)
    (once : (trace.filterMap fun τ => τ.event.reserves).Nodup) (addr : Address) :
    final.shared.clientToIndex addr ≠ none ↔ addr ∈ trace.filterMap fun τ => τ.event.reservesFor := by
  induction run with
  | start => simp [NodeState.start, NodeRPCServerShared.new, Table.empty]
  | @next trace s event s' first taken ih =>
    obtain ⟨origin, kept, added⟩ := taken.indexed addr
    rw [List.filterMap_append, List.nodup_append] at once
    rw [List.filterMap_append, List.mem_append, ← ih once.1]
    constructor
    · intro present
      exact (origin present).imp id fun adds => by simp [adds]
    · rintro (old | adds)
      · exact kept old
      · have adds : event.reservesFor = some addr := by simpa [List.mem_filterMap] using adds
        refine (added adds).resolve_right ?_
        rintro ⟨i, here, held⟩
        have earlier := (mem_of_keys first i).1 held
        exact once.2.2 i earlier i (by simp [here]) rfl

/-- A client whose signature was taken has an index. -/
def SignaturesTaken (d : NodeRPCServerShared S) : Prop :=
  ∀ entry ∈ d.idsAndAddrs, entry.pendingSig = none → d.clientToIndex entry.addr ≠ none

theorem NodeRPCServerShared.Effect.signaturesTaken {d d' : NodeRPCServerShared S} {sends : List ShareMessage}
    (effect : Effect setup d event sends d') (agree : d.Agree) (known : SignaturesTaken d) : SignaturesTaken d' := by
  have recorded : ∀ {addr : Address} {i : UInt64} {other : Address}, d.clientToIndex other ≠ none ∨ other = addr →
      (d.recordReservation addr i).clientToIndex other ≠ none := by
    intro addr i other present
    by_cases same : other = addr
    · simp [recordReservation, same]
    · simpa [recordReservation, Table.insert_of_ne _ _ same] using present.resolve_right same
  have appended : ∀ {new : ClientEntry}, (new.pendingSig = none → d.clientToIndex new.addr ≠ none) →
      ∀ entry ∈ d.idsAndAddrs ++ [new], entry.pendingSig = none → d.clientToIndex entry.addr ≠ none := by
    intro new fits entry member consumed
    rcases List.mem_append.mp member with old | last
    · exact known entry old consumed
    · rw [List.mem_singleton.mp last] at consumed ⊢
      exact fits consumed
  have taken : ∀ {addr : Address} {i : UInt64}, ∀ entry ∈ takeSig addr d.idsAndAddrs, entry.pendingSig = none →
      (d.recordReservation addr i).clientToIndex entry.addr ≠ none := by
    intro addr i entry member consumed
    rcases mem_takeSig agree.distinct member with ⟨old, _⟩ | ⟨old, _, same, rfl⟩
    · exact recorded (Or.inl (known entry old consumed))
    · exact recorded (Or.inr same)
  cases effect with
  | reserved => exact fun entry member consumed => recorded (Or.inl (known entry member consumed))
  | unverified => exact taken
  | verified => exact taken
  | parked =>
    refine appended fun consumed => ?_
    cases consumed
  | waiting _ held _ => exact appended fun _ => by simp [held]
  | answered _ held _ _ _ => exact appended fun _ => by simp [held]
  | taken => exact known
  | generated => exact known
  | turnedAway => exact known
  | shared => exact known
  | cut => exact known

theorem signaturesTaken_of_run (run : Run (NodeState.Step setup) NodeState.start trace final) :
    SignaturesTaken final.shared := by
  induction run with
  | start => exact fun entry member => by cases member
  | next first taken ih => exact taken.effect.signaturesTaken (Coherent.of_run first).agree ih

/-- The signature of a client is gone exactly if its request is listed and an
index was added for its address, in whichever order. -/
theorem consumed_iff (run : Run (NodeState.Step setup) NodeState.start trace final)
    (once : (trace.filterMap fun τ => τ.event.reserves).Nodup) {addr : Address} :
    (∃ entry, final.shared.entryOf addr = some entry ∧ entry.pendingSig = none) ↔
      addr ∈ (trace.filterMap fun τ => τ.event.reservesFor) ∧
        addr ∈ trace.filterMap fun τ => τ.source.lists setup τ.event := by
  have agree := (Coherent.of_run run).agree
  rw [← indexed_iff run once, ← listed_eq run]
  constructor
  · rintro ⟨entry, found, consumed⟩
    obtain ⟨member, rfl⟩ := entryOf_some found
    exact ⟨signaturesTaken_of_run run entry member consumed, List.mem_map_of_mem member⟩
  · rintro ⟨indexed, listed⟩
    obtain ⟨entry, member, rfl⟩ := List.mem_map.mp listed
    refine ⟨entry, agree.entryOf_of_mem member, ?_⟩
    by_contra pending
    exact indexed (agree.unreserved entry member pending)

/-- While no index is added twice, an operation panics only where it adds
another index for a client that is listed. -/
theorem panicked_iff_of_once {before after : List (Transition (NodeState S) (NodeEvent S))}
    {τ : Transition (NodeState S) (NodeEvent S)} (run : Run (NodeState.Step setup) NodeState.start trace final)
    (once : OncePerIndex trace) (split : trace = before ++ τ :: after) :
    τ.source.outcome setup τ.event = .panicked ↔
      ∃ addr, τ.event.reservesFor = some addr ∧ addr ∈ (before.filterMap fun ρ => ρ.event.reservesFor) ∧
        addr ∈ before.filterMap fun ρ => ρ.source.lists setup ρ.event := by
  obtain ⟨first, _, _⟩ := run.split_at split
  obtain ⟨reserved, generated⟩ := once
  simp only [split, List.filterMap_append, List.filterMap_cons, List.nodup_append] at reserved generated
  rw [panicked_iff]
  constructor
  · intro fails
    generalize read : τ.event = event at fails
    cases fails with
    | @reserved addr i delivered taken =>
      have old := (mem_of_keys first i).1 taken
      rw [read] at reserved
      exact absurd rfl (reserved.2.2 i old i (by simp [NodeEvent.reserves]))
    | consumed found consumed => exact ⟨_, rfl, (consumed_iff first reserved.1).mp ⟨_, found, consumed⟩⟩
    | @generated i share delivered taken =>
      have old := (mem_of_keys first i).2 taken
      rw [read] at generated
      exact absurd rfl (generated.2.2 i old i (by simp [NodeEvent.generates]))
  · rintro ⟨addr, here, again⟩
    obtain ⟨entry, found, consumed⟩ := (consumed_iff first reserved.1).mpr again
    generalize read : τ.event = event at here
    cases event with
    | addReservedIndex addr i delivered =>
      cases here
      exact .consumed found consumed
    | addMaskShare => cases here
    | receiveMaskShare => cases here

/-- No assertion of a node fails exactly when no address that has an index gets
another one after its request was listed: verified or refused, a client that
gets a second index is asserted to be waiting still. -/
theorem no_panic_iff (run : Run (NodeState.Step setup) NodeState.start trace final) (once : OncePerIndex trace) :
    (∀ τ ∈ trace, τ.source.outcome setup τ.event ≠ .panicked) ↔ OneIndexIfListed setup trace := by
  constructor
  · intro silent before τ after split addr here indexed listed
    exact silent τ (by simp [split]) ((panicked_iff_of_once run once split).mpr ⟨addr, here, indexed, listed⟩)
  · intro condition τ member panicked
    obtain ⟨before, after, split⟩ := List.append_of_mem member
    obtain ⟨addr, here, indexed, listed⟩ := (panicked_iff_of_once run once split).mp panicked
    exact condition before τ after split addr here indexed listed

end

theorem OncePerIndex.of_events {S : Type} {trace : List (Transition (NodeState S) (NodeEvent S))}
    {events : List (NodeEvent S)} (same : trace.map Transition.event = events)
    (reserved : (events.filterMap NodeEvent.reserves).Nodup) (generated : (events.filterMap NodeEvent.generates).Nodup) :
    OncePerIndex trace := by
  subst same
  rw [List.filterMap_map] at reserved generated
  exact ⟨reserved, generated⟩

namespace Scenario

/-- The client has two indices before it asks. -/
def reservedTwice : List (NodeEvent Bytes) :=
  [.addReservedIndex owner 1 true, .addReservedIndex owner 0 true, .receiveMaskShare [1] ownerSig owner (some 0) true,
    .addMaskShare 0 [7] true]

/-- The condition of `no_panic_iff`, as it is checked on a run. -/
def oneIndexIfListed (s : NodeState Bytes) : NodeEvent Bytes → Bool
  | .addReservedIndex addr _ _ => (s.shared.clientToIndex addr).isNone || (s.shared.entryOf addr).isNone
  | _ => true

theorem oneIndexIfListed_sound {trace : List (Transition (NodeState Bytes) (NodeEvent Bytes))} {final : NodeState Bytes}
    (run : Run (NodeState.Step .recorded) NodeState.start trace final) (once : OncePerIndex trace)
    (checked : ∀ τ ∈ trace, oneIndexIfListed τ.source τ.event = true) : OneIndexIfListed .recorded trace := by
  intro before τ after split addr here indexed listed
  obtain ⟨first, _, _⟩ := run.split_at split
  have reserved := once.reserved
  rw [split, List.filterMap_append, List.nodup_append] at reserved
  have held := (indexed_iff first reserved.1 addr).mpr indexed
  obtain ⟨entry, found, _⟩ := (consumed_iff first reserved.1).mpr ⟨indexed, listed⟩
  have allowed := checked τ (by simp [split])
  generalize τ.event = event at here allowed
  cases event with
  | addReservedIndex other i delivered =>
    cases here
    simp [oneIndexIfListed, held, found] at allowed
  | addMaskShare => cases here
  | receiveMaskShare => cases here

theorem reserved_twice_never_panics :
    ∃ trace final, Run (NodeState.Step .recorded) NodeState.start trace final ∧ OncePerIndex trace ∧
      trace.map Transition.event = reservedTwice ∧ owner ∈ final.shared.authenticated ∧
      ∀ τ ∈ trace, τ.source.outcome .recorded τ.event ≠ .panicked := by
  obtain ⟨trace, final, run, events, known, checked⟩ := NodeState.exists_run_of_checked .recorded reservedTwice
    oneIndexIfListed (fun s => decide (owner ∈ s.shared.authenticated)) true (by decide +kernel)
  have once : OncePerIndex trace := .of_events events (by decide) (by decide)
  exact ⟨trace, final, run, once, events, of_decide_eq_true known,
    (no_panic_iff run once).mpr (oneIndexIfListed_sound run once checked)⟩

/-- The client has two indices. Its request is verified for the first of them. -/
def firstIndex : List (NodeEvent Bytes) :=
  [.receiveMaskShare [1] ownerSig owner (some 0) true, .addReservedIndex owner 0 true]

theorem second_index_panics :
    ∃ trace final, Run (NodeState.Step .recorded) NodeState.start trace final ∧ OncePerIndex trace ∧
      trace.map Transition.event = firstIndex ++ [.addReservedIndex owner 1 true] ∧
      ∃ τ ∈ trace, owner ∈ τ.source.shared.authenticated ∧ τ.source.outcome .recorded τ.event = .panicked := by
  obtain ⟨trace, s, run, first, seen⟩ := NodeState.exists_run_of_events .recorded firstIndex
    (fun s => (decide (owner ∈ s.shared.authenticated), (s.shared.entryOf owner).map ClientEntry.pendingSig))
    (true, some none) (by decide +kernel)
  obtain ⟨verified, listed⟩ := Prod.mk.inj seen
  obtain ⟨entry, found, consumed⟩ := Option.map_eq_some_iff.mp listed
  let last : NodeEvent Bytes := .addReservedIndex owner 1 true
  have panics : s.outcome .recorded last = .panicked := panicked_iff.mpr (.consumed found consumed)
  obtain ⟨final, step⟩ : ∃ final, s.Step .recorded last final := ⟨_, rfl⟩
  have events : (trace ++ [Transition.mk s last final]).map Transition.event = firstIndex ++ [last] := by
    rw [List.map_append, first]
    rfl
  refine ⟨_, final, run.next step, .of_events events (by decide) (by decide), events, ⟨s, last, final⟩, ?_,
    of_decide_eq_true verified, panics⟩
  exact List.mem_append_right _ (List.mem_singleton_self _)

end Scenario

end MpcCoordinator.OnChain
