import MpcCoordinator.OnChain.State

namespace MpcCoordinator.OnChain

/-- The operations of a node. Each holds the lock of the node's state from its
beginning to its end. Network outcomes are part of the event. -/
inductive NodeEvent (S : Type) where
  | addReservedIndex (addr : Address) (i : UInt64) (delivered : Bool)
  | addMaskShare (i : UInt64) (share : S) (delivered : Bool)
  | receiveMaskShare (tlsId sigBytes : Bytes) (addr : Address) (accepted : Option Nat) (delivered : Bool)

/-- The subscription that an event opens, if its handshake takes place. -/
def NodeEvent.opens {S : Type} : NodeEvent S → Option SubscriptionSink
  | .receiveMaskShare tlsId _ _ (some handle) _ => some ⟨handle, tlsId⟩
  | _ => none

/-- A node with the subscriptions that were opened so far. -/
structure NodeState (S : Type) where
  shared : NodeRPCServerShared S
  opened : List SubscriptionSink

namespace NodeRPCServerShared

variable {S : Type} (setup : NodeSetup S) (d : NodeRPCServerShared S)

def respond : NodeEvent S → Response S
  | .addReservedIndex addr i delivered => d.addReservedIndex setup addr i delivered
  | .addMaskShare i share delivered => d.addMaskShare setup i share delivered
  | .receiveMaskShare tlsId sigBytes addr accepted delivered =>
    d.receiveMaskShare setup tlsId sigBytes addr accepted delivered

/-- No client has requested a share over this connection, or for this address. -/
def Unlisted (tlsId : Bytes) (addr : Address) : Prop :=
  ∀ entry ∈ d.idsAndAddrs, entry.tlsId ≠ tlsId ∧ entry.addr ≠ addr

/-- A message holds the share of an index. -/
def Carries (i : UInt64) (message : ShareMessage) : Prop :=
  message.index = i ∧ ∃ share, d.maskShares i = some share ∧
    setup.encoding.serializeCompressed share = .ok message.shareBytes

/-- What an operation can do. Every property of the node is proved by these cases. -/
inductive Effect : NodeEvent S → List ShareMessage → NodeRPCServerShared S → Prop
  | taken {addr i delivered} : d.indexToClient i ≠ none → Effect (.addReservedIndex addr i delivered) [] d
  | generated {i share delivered} : d.maskShares i ≠ none → Effect (.addMaskShare i share delivered) [] d
  | turnedAway {tlsId sigBytes addr accepted delivered} :
      Effect (.receiveMaskShare tlsId sigBytes addr accepted delivered) [] d
  | reserved {addr i delivered} : d.indexToClient i = none →
      (∀ entry, d.entryOf addr = some entry → entry.pendingSig = none) →
      Effect (.addReservedIndex addr i delivered) [] (d.recordReservation addr i)
  | unverified {addr i delivered entry sigBytes} : d.indexToClient i = none → d.entryOf addr = some entry →
      entry.pendingSig = some sigBytes → verifies setup i addr sigBytes = false →
      Effect (.addReservedIndex addr i delivered) []
        { d.recordReservation addr i with idsAndAddrs := takeSig addr d.idsAndAddrs }
  | verified {addr i delivered entry sigBytes sends} : d.indexToClient i = none → d.entryOf addr = some entry →
      entry.pendingSig = some sigBytes → verifies setup i addr sigBytes = true →
      (∀ message ∈ sends, d.sinks addr = some message.sink ∧ d.Carries setup i message) →
      Effect (.addReservedIndex addr i delivered) sends
        ({ d.recordReservation addr i with idsAndAddrs := takeSig addr d.idsAndAddrs }.authenticate addr)
  | shared {i share delivered sends} : d.maskShares i = none →
      (∀ message ∈ sends, ∃ addr, d.indexToClient i = some addr ∧ addr ∈ d.authenticated ∧
        d.sinks addr = some message.sink ∧
        { d with maskShares := d.maskShares.insert i share }.Carries setup i message) →
      Effect (.addMaskShare i share delivered) sends { d with maskShares := d.maskShares.insert i share }
  | parked {tlsId sigBytes addr handle delivered} : d.Unlisted tlsId addr → d.clientToIndex addr = none →
      Effect (.receiveMaskShare tlsId sigBytes addr (some handle) delivered) []
        { d with
          sinks := d.sinks.insert addr ⟨handle, tlsId⟩
          idsAndAddrs := d.idsAndAddrs ++ [⟨tlsId, addr, some sigBytes⟩] }
  | waiting {tlsId sigBytes addr handle delivered i} : d.Unlisted tlsId addr → d.clientToIndex addr = some i →
      verifies setup i addr sigBytes = true →
      Effect (.receiveMaskShare tlsId sigBytes addr (some handle) delivered) []
        { d.authenticate addr with
          sinks := d.sinks.insert addr ⟨handle, tlsId⟩
          idsAndAddrs := d.idsAndAddrs ++ [⟨tlsId, addr, none⟩] }
  | answered {tlsId sigBytes addr handle i message} : d.Unlisted tlsId addr → d.clientToIndex addr = some i →
      verifies setup i addr sigBytes = true → message.sink = ⟨handle, tlsId⟩ → d.Carries setup i message →
      Effect (.receiveMaskShare tlsId sigBytes addr (some handle) true) [message]
        { d.authenticate addr with idsAndAddrs := d.idsAndAddrs ++ [⟨tlsId, addr, none⟩] }
  | cut {tlsId sigBytes addr accepted delivered i sends} : d.Unlisted tlsId addr → d.clientToIndex addr = some i →
      verifies setup i addr sigBytes = true →
      (∀ message ∈ sends, d.Carries setup i message ∧
        ∃ handle, accepted = some handle ∧ message.sink = ⟨handle, tlsId⟩) →
      Effect (.receiveMaskShare tlsId sigBytes addr accepted delivered) sends (d.authenticate addr)

variable {setup d}

/-- A share only ever goes to the sink that is stored for the address. -/
theorem mem_sendShare {addr : Address} {i : UInt64} {share : S} {delivered : Bool} {message : ShareMessage}
    (member : message ∈ (d.sendShare setup addr i share delivered).2) :
    d.sinks addr = some message.sink ∧ message.index = i ∧
      setup.encoding.serializeCompressed share = .ok message.shareBytes := by
  unfold sendShare at member
  split at member
  · cases member
  rename_i sink stored
  split at member
  · cases member
  rename_i shareBytes encoded
  split at member
  · cases member
  rw [List.mem_singleton.mp member]
  exact ⟨stored, rfl, encoded⟩

theorem effect_addReservedIndex {addr : Address} {i : UInt64} {delivered : Bool} {outcome : Outcome}
    {sends : List ShareMessage} {d' : NodeRPCServerShared S}
    (answered : d.addReservedIndex setup addr i delivered = (outcome, sends, d')) :
    Effect setup d (.addReservedIndex addr i delivered) sends d' := by
  unfold addReservedIndex at answered
  dsimp only at answered
  split at answered
  · rename_i held
    cases answered
    exact .taken (Option.isSome_iff_ne_none.mp held)
  rename_i free
  have free : d.indexToClient i = none := by simpa using free
  have same : (d.recordReservation addr i).entryOf addr = d.entryOf addr := rfl
  rw [same] at answered
  split at answered
  · rename_i absent
    cases answered
    exact .reserved free fun entry found => by rw [absent] at found; cases found
  rename_i entry found
  split at answered
  · rename_i consumed
    cases answered
    refine .reserved free fun other again => ?_
    rw [← Option.some.inj (found.symm.trans again)]
    exact consumed
  rename_i sigBytes pending
  split at answered
  · rename_i refuted
    cases answered
    exact .unverified free found pending refuted
  rename_i verified
  have verified : verifies setup i addr sigBytes = true := by simpa using verified
  split at answered
  · cases answered
    exact .verified free found pending verified (by simp)
  · rename_i share stored
    cases answered
    refine .verified free found pending verified fun message member => ?_
    obtain ⟨sink, index, encoded⟩ := mem_sendShare member
    exact ⟨sink, index, share, stored, encoded⟩

theorem effect_addMaskShare {i : UInt64} {share : S} {delivered : Bool} {outcome : Outcome}
    {sends : List ShareMessage} {d' : NodeRPCServerShared S}
    (answered : d.addMaskShare setup i share delivered = (outcome, sends, d')) :
    Effect setup d (.addMaskShare i share delivered) sends d' := by
  unfold addMaskShare at answered
  dsimp only at answered
  split at answered
  · rename_i held
    cases answered
    exact .generated (Option.isSome_iff_ne_none.mp held)
  rename_i free
  have free : d.maskShares i = none := by simpa using free
  split at answered
  · cases answered
    exact .shared free (by simp)
  rename_i addr owner
  split at answered
  · rename_i known
    cases answered
    refine .shared free fun message member => ?_
    obtain ⟨sink, index, encoded⟩ := mem_sendShare member
    exact ⟨addr, owner, known, sink, index, share, Table.insert_self .., encoded⟩
  · cases answered
    exact .shared free (by simp)

theorem unlisted_iff {tlsId : Bytes} {addr : Address} :
    ¬ (d.idsAndAddrs.any fun entry => decide (tlsId = entry.tlsId ∨ addr = entry.addr)) = true ↔ d.Unlisted tlsId addr := by
  simp only [List.any_eq_true, decide_eq_true_eq, not_exists, not_and, not_or, Unlisted]
  constructor
  · exact fun apart entry member => ⟨Ne.symm (apart entry member).1, Ne.symm (apart entry member).2⟩
  · exact fun apart entry member => ⟨Ne.symm (apart entry member).1, Ne.symm (apart entry member).2⟩

theorem effect_receiveMaskShare {tlsId sigBytes : Bytes} {addr : Address} {accepted : Option Nat} {delivered : Bool}
    {outcome : Outcome} {sends : List ShareMessage} {d' : NodeRPCServerShared S}
    (answered : d.receiveMaskShare setup tlsId sigBytes addr accepted delivered = (outcome, sends, d')) :
    Effect setup d (.receiveMaskShare tlsId sigBytes addr accepted delivered) sends d' := by
  unfold receiveMaskShare at answered
  dsimp only at answered
  split at answered
  · cases answered
    exact .turnedAway
  rename_i unlisted
  have unlisted := unlisted_iff.mp unlisted
  split at answered
  · rename_i unreserved
    unfold storeSink at answered
    split at answered
    · cases answered
      exact .turnedAway
    · cases answered
      exact .parked unlisted unreserved
  rename_i i reserved
  split at answered
  · cases answered
    exact .turnedAway
  rename_i verified
  have verified : verifies setup i addr sigBytes = true := by simpa using verified
  split at answered
  · unfold storeSink at answered
    split at answered
    · cases answered
      exact .cut unlisted reserved verified (by simp)
    · cases answered
      exact .waiting unlisted reserved verified
  rename_i share stored
  unfold answerRequest at answered
  split at answered
  · cases answered
    exact .cut unlisted reserved verified (by simp)
  rename_i shareBytes encoded
  split at answered
  · cases answered
    exact .cut unlisted reserved verified (by simp)
  split at answered
  · cases answered
    exact .cut unlisted reserved verified (by simp)
  rename_i handle
  split at answered
  · rename_i arrived
    cases answered
    subst arrived
    exact .answered unlisted reserved verified rfl ⟨rfl, share, stored, encoded⟩
  · cases answered
    refine .cut unlisted reserved verified fun message member => ?_
    rw [List.mem_singleton.mp member]
    exact ⟨⟨rfl, share, stored, encoded⟩, handle, rfl, rfl⟩

theorem effect_of_respond {event : NodeEvent S} {outcome : Outcome} {sends : List ShareMessage}
    {d' : NodeRPCServerShared S} (answered : d.respond setup event = (outcome, sends, d')) :
    Effect setup d event sends d' := by
  cases event with
  | addReservedIndex addr i delivered => exact effect_addReservedIndex answered
  | addMaskShare i share delivered => exact effect_addMaskShare answered
  | receiveMaskShare tlsId sigBytes addr accepted delivered => exact effect_receiveMaskShare answered

end NodeRPCServerShared

namespace NodeState

variable {S : Type} (setup : NodeSetup S) (s : NodeState S)

def start : NodeState S := ⟨.new, []⟩

/-- How an operation ends. -/
def outcome (event : NodeEvent S) : Outcome := (s.shared.respond setup event).1

/-- What an operation sends. -/
def sends (event : NodeEvent S) : List ShareMessage := (s.shared.respond setup event).2.1

/-- An operation runs. A subscription that a request opens is a new one. -/
def next (event : NodeEvent S) : Option (NodeState S) :=
  if event.opens.all fun sink => decide (sink ∉ s.opened) then
    some ⟨(s.shared.respond setup event).2.2, s.opened ++ event.opens.toList⟩
  else none

def Step (event : NodeEvent S) (s' : NodeState S) : Prop := s.next setup event = some s'

variable {setup s} {event : NodeEvent S} {s' : NodeState S}

theorem Step.shared_eq (step : s.Step setup event s') :
    s'.shared = (s.shared.respond setup event).2.2 ∧ s'.opened = s.opened ++ event.opens.toList := by
  unfold Step next at step
  split at step
  · cases step
    exact ⟨rfl, rfl⟩
  · cases step

theorem Step.effect (step : s.Step setup event s') : s.shared.Effect setup event (s.sends setup event) s'.shared := by
  rw [step.shared_eq.1]
  exact NodeRPCServerShared.effect_of_respond rfl

theorem Step.fresh (step : s.Step setup event s') {sink : SubscriptionSink} (opens : event.opens = some sink) :
    sink ∉ s.opened := by
  unfold Step next at step
  split at step
  · rename_i fresh
    simpa [opens] using fresh
  · cases step

theorem exists_run_of_events {β : Type} (setup : NodeSetup S) (events : List (NodeEvent S)) (view : NodeState S → β)
    (seen : β) (done : (Run.execute (next setup) start events).map view = some seen) :
    ∃ trace final, Run (Step setup) start trace final ∧ trace.map Transition.event = events ∧ view final = seen :=
  Run.exists_of_execute (fun _ _ _ => id) done

/-- The same for events that pass a check before each step. -/
theorem exists_run_of_checked {β : Type} (setup : NodeSetup S) (events : List (NodeEvent S))
    (check : NodeState S → NodeEvent S → Bool) (view : NodeState S → β) (seen : β)
    (done : (Run.execute (fun s event => if check s event then s.next setup event else none) start events).map view =
      some seen) :
    ∃ trace final, Run (Step setup) start trace final ∧ trace.map Transition.event = events ∧ view final = seen ∧
      ∀ τ ∈ trace, check τ.source τ.event = true :=
  Run.exists_of_checked (fun _ _ _ => id) done

theorem opened_eq {trace : List (Transition (NodeState S) (NodeEvent S))} {final : NodeState S}
    (run : Run (Step setup) start trace final) : final.opened = trace.flatMap fun τ => τ.event.opens.toList := by
  induction run with
  | start => rfl
  | next _ taken ih => rw [taken.shared_eq.2, ih, List.flatMap_append, List.flatMap_singleton]

/-- A subscription is opened by one request only. -/
theorem opens_once {trace before after : List (Transition (NodeState S) (NodeEvent S))} {final : NodeState S}
    {request : Transition (NodeState S) (NodeEvent S)} {sink : SubscriptionSink}
    (run : Run (Step setup) start trace final) (split : trace = before ++ request :: after)
    (opens : request.event.opens = some sink) : ∀ τ ∈ before ++ after, τ.event.opens ≠ some sink := by
  obtain ⟨first, taken, _⟩ := run.split_at split
  intro τ member again
  rcases List.mem_append.mp member with old | later
  · apply taken.fresh opens
    rw [opened_eq first]
    exact List.mem_flatMap.mpr ⟨τ, old, by simp [again]⟩
  · obtain ⟨middle, rest, rfl⟩ := List.append_of_mem later
    have split : trace = (before ++ request :: middle) ++ τ :: rest := by simp [split]
    obtain ⟨second, taken, _⟩ := run.split_at split
    apply taken.fresh again
    rw [opened_eq second]
    exact List.mem_flatMap.mpr ⟨request, by simp, by simp [opens]⟩

end NodeState

end MpcCoordinator.OnChain
