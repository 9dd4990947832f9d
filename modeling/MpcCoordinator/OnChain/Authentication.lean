import MpcCoordinator.OnChain.Requests

namespace MpcCoordinator.OnChain

section

variable {S : Type} {setup : NodeSetup S} {trace : List (Transition (NodeState S) (NodeEvent S))}
  {s s' final : NodeState S} {event : NodeEvent S}

open NodeRPCServerShared (verifies takeSig Verified)

theorem mem_reported {d : NodeRPCServerShared S} {pair : Bytes × Address} :
    pair ∈ NodeRPCServer.idsAndAddrs d ↔
      ∃ entry ∈ d.idsAndAddrs, entry.pendingSig = none ∧ (entry.tlsId, entry.addr) = pair := by
  simp only [NodeRPCServer.idsAndAddrs, List.mem_map, List.mem_filter, Option.isNone_iff_eq_none, and_assoc]

/-- Every pair that is reported was established by a request of the TLS
identity, with a signature that was verified for the address. -/
def ReportedVerified (setup : NodeSetup S) (trace : List (Transition (NodeState S) (NodeEvent S)))
    (s : NodeState S) : Prop :=
  ∀ pair ∈ NodeRPCServer.idsAndAddrs s.shared, pair.2 ∈ s.shared.authenticated ∧
    ∃ sigBytes handle, Requested trace pair.1 sigBytes pair.2 handle ∧ Verified setup s.shared pair.2 sigBytes

/-- If the reservation of a waiting client arrives, then its signature is valid for the index. -/
def DeferredVerifies (setup : NodeSetup S) (s : NodeState S) (event : NodeEvent S) : Prop :=
  ∀ addr i delivered entry sigBytes, event = .addReservedIndex addr i delivered →
    s.shared.indexToClient i = none → s.shared.entryOf addr = some entry → entry.pendingSig = some sigBytes →
    verifies setup i addr sigBytes = true

/-- Only the arrival of a reservation checks a signature that was kept. -/
theorem deferredVerifies_of_ne (other : ∀ addr i delivered, event ≠ .addReservedIndex addr i delivered) :
    DeferredVerifies setup s event := by
  intro addr i delivered entry sigBytes same
  exact absurd same (other addr i delivered)

/-- Every client that keeps no signature is authenticated. -/
def Settled (entries : List ClientEntry) (authenticated : Finset Address) : Prop :=
  ∀ entry ∈ entries, entry.pendingSig = none → entry.addr ∈ authenticated

theorem Settled.append {entries : List ClientEntry} {authenticated known : Finset Address} {new : ClientEntry}
    (settled : Settled entries authenticated) (within : authenticated ⊆ known)
    (own : new.pendingSig = none → new.addr ∈ known) : Settled (entries ++ [new]) known := by
  intro entry member consumed
  rcases List.mem_append.mp member with old | last
  · exact within (settled entry old consumed)
  · rw [List.mem_singleton.mp last] at consumed ⊢
    exact own consumed

/-- The requests are known, so that only the authentication is in question. -/
theorem Coherent.reported_iff (coherent : Coherent setup trace s) :
    ReportedVerified setup trace s ↔ Settled s.shared.idsAndAddrs s.shared.authenticated := by
  constructor
  · intro reported entry member settled
    exact (reported _ (mem_reported.mpr ⟨entry, member, settled, rfl⟩)).1
  · intro known pair member
    obtain ⟨entry, listed, settled, rfl⟩ := mem_reported.mp member
    obtain ⟨sigBytes, handle, origin⟩ := coherent.traced entry listed
    have here := known entry listed settled
    exact ⟨here, sigBytes, handle, origin.requested, origin.verified here⟩

theorem consumed_mem_takeSig {addr : Address} {entries : List ClientEntry} {entry : ClientEntry}
    (found : entries.find? (fun entry => decide (entry.addr = addr)) = some entry) :
    { entry with pendingSig := none } ∈ takeSig addr entries := by
  induction entries with
  | nil => cases found
  | cons first rest ih =>
    unfold takeSig
    rw [List.find?_cons] at found
    split
    · rename_i same
      simp only [same, decide_true, Option.some.injEq] at found
      rw [found]
      exact List.mem_cons_self ..
    · rename_i different
      simp only [different, decide_false] at found
      exact List.mem_cons_of_mem _ (ih found)

theorem Coherent.reported_step (coherent : Coherent setup trace s) (reported : ReportedVerified setup trace s)
    (step : s.Step setup event s') :
    ReportedVerified setup (trace ++ [⟨s, event, s'⟩]) s' ↔ DeferredVerifies setup s event := by
  rw [(coherent.step step).reported_iff]
  rw [coherent.reported_iff] at reported
  have effect := step.effect
  generalize s.sends setup event = sends at effect
  obtain ⟨d', opened⟩ := s'
  dsimp only at effect ⊢
  cases effect with
  | taken held =>
    refine iff_of_true reported fun addr i delivered entry sigBytes same free => ?_
    cases same
    exact absurd free held
  | reserved _ consumed =>
    refine iff_of_true reported fun addr i delivered entry sigBytes same free found pending => ?_
    cases same
    cases (consumed entry found).symm.trans pending
  | @unverified addr i _ entry sigBytes free found pending refuted =>
    -- the signature is gone, and so the client counts as authenticated
    refine iff_of_false (fun known => ?_) fun deferred => ?_
    · obtain ⟨member, same⟩ := NodeRPCServerShared.entryOf_some found
      refine coherent.agree.pending_unauthenticated member (by simp [pending]) ?_
      exact known { entry with pendingSig := none } (consumed_mem_takeSig found) rfl
    · have accepted := deferred addr i _ entry sigBytes rfl free found pending
      rw [refuted] at accepted
      cases accepted
  | @verified addr i _ entry sigBytes _ free found pending accepted _ =>
    refine iff_of_true (fun other member settled => ?_) fun addr' i' delivered' entry' sigBytes' same free' found' pending' => ?_
    · rcases NodeRPCServerShared.mem_takeSig coherent.agree.distinct member with ⟨old, _⟩ | ⟨_, _, rfl, rfl⟩
      · exact Finset.mem_insert_of_mem (reported other old settled)
      · exact Finset.mem_insert_self ..
    · cases same
      cases found.symm.trans found'
      cases pending.symm.trans pending'
      exact accepted
  | generated => exact iff_of_true reported (deferredVerifies_of_ne nofun)
  | shared => exact iff_of_true reported (deferredVerifies_of_ne nofun)
  | turnedAway => exact iff_of_true reported (deferredVerifies_of_ne nofun)
  | parked => exact iff_of_true (reported.append (Finset.Subset.refl _) nofun) (deferredVerifies_of_ne nofun)
  | waiting =>
    refine iff_of_true ?_ (deferredVerifies_of_ne nofun)
    exact reported.append (Finset.subset_insert ..) fun _ => Finset.mem_insert_self ..
  | answered =>
    refine iff_of_true ?_ (deferredVerifies_of_ne nofun)
    exact reported.append (Finset.subset_insert ..) fun _ => Finset.mem_insert_self ..
  | cut =>
    refine iff_of_true (fun entry member settled => ?_) (deferredVerifies_of_ne nofun)
    exact Finset.mem_insert_of_mem (reported entry member settled)

/-- What a node reports was verified, in all states of a run, exactly when the
signature of every client that waits for its reservation turns out valid. -/
theorem reported_verified_iff (run : Run (NodeState.Step setup) NodeState.start trace final) :
    (∀ before after s, trace = before ++ after → Run (NodeState.Step setup) NodeState.start before s →
        ReportedVerified setup before s) ↔
      ∀ τ ∈ trace, DeferredVerifies setup τ.source τ.event :=
  run.history_iff Coherent.start (fun _ _ _ _ coherent taken => coherent.step taken)
    (fun pair member => by cases member) fun _ _ _ _ coherent reported taken => coherent.reported_step reported taken

end

/-- A byte string of a given length, read off a number in base 256. -/
def wordOf (length n : Nat) : Vector UInt8 length :=
  Vector.ofFn fun i => UInt8.ofNat (n >>> (8 * (length - 1 - i.val)))

namespace Scenario

/-- The address of a client, which has a private key for it. -/
def owner : Address := ⟨wordOf 20 0xf39fd6e51aad88f6f4ce6ab8827279cfffb92266⟩

/-- The hash of the nonce 0. -/
def nonceZero : Vector UInt8 32 := wordOf 32 0x290decd9548b62a8d60345a988386fc84ba6bc95484008f6362f93160ef3e563

/-- The client's signature of it, as a message. -/
def ownerSig : Bytes :=
  (wordOf 65 0x924aa4c958f953b567e1aaafea58fc144bb6e16ff2eb67c72ea1551f312acd5823d13a17aa30d53462751d3a287d820c70a694e04ca3e09ce8ef46ab7e752a7e1c).toList

/-- A second client, the hash of the nonce 1 and its signature of that. -/
def neighbour : Address := ⟨wordOf 20 0x70997970c51812dc3a010c7d01b50e0d17dc79c8⟩

def nonceOne : Vector UInt8 32 := wordOf 32 0xb10e2d527612073b26eecdfd717e6a320cf44b4afac2b0732d9fcbe2b7fa0cf6

def neighbourSig : Bytes :=
  (wordOf 65 0x63b7b2a5c24218010e9cb706f8b60976f75ccddf886121afccb946f4adc92ba232fb6ee0eeceb7e1df21ebe49ec6a035d939418c61ceabdae0d3f81d32bc98aa1b).toList

/-- The signatures with what they sign, and whom they recover to. -/
def recovered : List (Bytes × Bytes × Address) :=
  [(ownerSig, nonceZero.toList, owner), (neighbourSig, nonceOne.toList, neighbour)]

/-- A number as one word of 32 bytes, the highest first. -/
def abiWord (x : UInt64) : Bytes :=
  List.replicate 24 0 ++ (List.range 8).map fun i => (x >>> (8 * UInt64.ofNat (7 - i))).toUInt8

def checksummed : List (Address × String) :=
  [(owner, "0xf39Fd6e51aad88F6F4ce6aB8827279cffFb92266"), (neighbour, "0x70997970C51812dc3A010C7d01b50e0d17dc79C8")]

end Scenario

/-- Keccak-256 and secp256k1 on the values that the runs below evaluate. -/
def EthereumPrimitives.recorded : EthereumPrimitives where
  Signature := Bytes
  signatureFromRaw bytes := (Scenario.recovered.map Prod.fst).find? (· == bytes)
  recoverAddressFromMsg sig message :=
    (Scenario.recovered.find? fun entry => entry.1 == sig && entry.2.1 == message).map fun entry => entry.2.2
  keccak256 input :=
    if input = Scenario.abiWord 0 then Scenario.nonceZero
    else if input = Scenario.abiWord 1 then Scenario.nonceOne
    else wordOf 32 0
  abiEncode := Scenario.abiWord
  toChecksum addr := (Scenario.checksummed.lookup addr).getD ""

/-- A node whose first nonce is 0. Its shares are bytes already. -/
def NodeSetup.recorded : NodeSetup Bytes where
  primitives := .recorded
  encoding := ⟨.ok, fun _ => .ok ()⟩
  baseNonce := 0

namespace Scenario

/-- The client requests its share before its reservation is known. -/
def earlyRequest : List (NodeEvent Bytes) :=
  [.receiveMaskShare [1] ownerSig owner (some 0) true, .addReservedIndex owner 0 true, .addMaskShare 0 [7] true]

/-- Someone who has no signature requests the share. -/
def forgedRequest : List (NodeEvent Bytes) :=
  [.receiveMaskShare [2] [] owner (some 0) true, .addReservedIndex owner 0 true]

/-- The condition of `reported_verified_iff`, as it is checked on a run. -/
def deferredVerifies (setup : NodeSetup Bytes) (s : NodeState Bytes) : NodeEvent Bytes → Bool
  | .addReservedIndex addr i _ =>
    ((s.shared.entryOf addr).bind ClientEntry.pendingSig).all fun sigBytes =>
      NodeRPCServerShared.verifies setup i addr sigBytes
  | _ => true

theorem deferredVerifies_sound {setup : NodeSetup Bytes} {s : NodeState Bytes} {event : NodeEvent Bytes}
    (checked : deferredVerifies setup s event = true) : DeferredVerifies setup s event := by
  rintro addr i delivered entry sigBytes rfl _ found pending
  simpa [deferredVerifies, found, pending] using checked

theorem early_request_reported :
    ∃ trace final, Run (NodeState.Step .recorded) NodeState.start trace final ∧
      NodeRPCServer.idsAndAddrs final.shared = [([1], owner)] ∧ ReportedVerified .recorded trace final := by
  obtain ⟨trace, final, run, _, seen, checked⟩ := NodeState.exists_run_of_checked .recorded earlyRequest
    (deferredVerifies .recorded) (fun s => NodeRPCServer.idsAndAddrs s.shared) [([1], owner)] (by decide +kernel)
  have verified := (reported_verified_iff run).mpr fun τ member => deferredVerifies_sound (checked τ member)
  exact ⟨trace, final, run, seen, verified trace [] final (by simp) run⟩

/-- After the reservation has failed, the pair is reported all the same. -/
theorem forged_request_reported :
    ∃ trace final, Run (NodeState.Step .recorded) NodeState.start trace final ∧
      trace.map Transition.event = forgedRequest ∧ ([2], owner) ∈ NodeRPCServer.idsAndAddrs final.shared ∧
      owner ∉ final.shared.authenticated ∧ ¬ ReportedVerified .recorded trace final := by
  obtain ⟨trace, final, run, events, seen⟩ := NodeState.exists_run_of_events .recorded forgedRequest
    (fun s => (NodeRPCServer.idsAndAddrs s.shared, decide (owner ∈ s.shared.authenticated))) ([([2], owner)], false)
    (by decide +kernel)
  obtain ⟨reported, unknown⟩ := Prod.mk.inj seen
  have listed : ([2], owner) ∈ NodeRPCServer.idsAndAddrs final.shared := by simp [reported]
  have unknown : owner ∉ final.shared.authenticated := of_decide_eq_false unknown
  exact ⟨trace, final, run, events, listed, unknown, fun verified => unknown (verified _ listed).1⟩

end Scenario

section

variable {S : Type} {setup : NodeSetup S} {trace : List (Transition (NodeState S) (NodeEvent S))}
  {s s' final : NodeState S} {event : NodeEvent S}

open NodeRPCServerShared (Verified)

/-- What an operation sends goes to the subscription of a client that was
verified, which is the owner of the index. -/
theorem Coherent.sent_to_requester (coherent : Coherent setup trace s) (step : s.Step setup event s')
    {message : ShareMessage} (sent : message ∈ s.sends setup event) :
    ∃ addr sigBytes, Requested (trace ++ [⟨s, event, s'⟩]) message.sink.peer sigBytes addr message.sink.handle ∧
      s'.shared.indexToClient message.index = some addr ∧ Verified setup s'.shared addr sigBytes ∧
      s'.shared.Carries setup message.index message := by
  have within : trace ⊆ trace ++ [⟨s, event, s'⟩] := List.subset_append_left ..
  have here : (⟨s, event, s'⟩ : Transition _ _) ∈ trace ++ [⟨s, event, s'⟩] := by simp
  have agree := coherent.agree
  have effect := step.effect
  generalize s.sends setup event = sends at effect sent
  obtain ⟨d', opened⟩ := s'
  dsimp only at effect within here ⊢
  cases effect with
  | taken => cases sent
  | generated => cases sent
  | turnedAway => cases sent
  | reserved => cases sent
  | unverified => cases sent
  | parked => cases sent
  | waiting => cases sent
  | @verified addr i _ entry sigBytes _ free found pending accepted sending =>
    obtain ⟨stored, rfl, carried⟩ := sending message sent
    obtain ⟨member, rfl⟩ := NodeRPCServerShared.entryOf_some found
    obtain ⟨sig, handle, origin⟩ := coherent.traced entry member
    cases origin.pending _ pending
    rw [origin.sink _ stored]
    exact ⟨entry.addr, sigBytes, origin.requested.mono within, Table.insert_self ..,
      ⟨message.index, Table.insert_self .., accepted⟩, rfl, carried⟩
  | @shared i share _ _ free sending =>
    obtain ⟨addr, owner, known, stored, rfl, carried⟩ := sending message sent
    obtain ⟨entry, member, rfl⟩ := agree.listed addr message.sink stored
    obtain ⟨sig, handle, origin⟩ := coherent.traced entry member
    rw [origin.sink _ stored]
    exact ⟨entry.addr, sig, origin.requested.mono within, owner, origin.verified known, rfl, carried⟩
  | @answered tlsId sigBytes addr handle i _ unlisted held accepted own carried =>
    obtain rfl := List.mem_singleton.mp sent
    obtain ⟨rfl, carried⟩ := carried
    rw [own]
    exact ⟨addr, sigBytes, ⟨_, here, unlisted, true, rfl⟩, agree.owner addr _ held, ⟨_, agree.owner addr _ held, accepted⟩,
      rfl, carried⟩
  | @cut tlsId sigBytes addr opening delivered i _ unlisted held accepted sending =>
    obtain ⟨⟨rfl, carried⟩, handle, rfl, own⟩ := sending message sent
    rw [own]
    exact ⟨addr, sigBytes, ⟨_, here, unlisted, delivered, rfl⟩, agree.owner addr _ held, ⟨_, agree.owner addr _ held, accepted⟩,
      rfl, carried⟩

theorem sink_kept_of_run (run : Run (NodeState.Step setup) s trace final) (agree : s.shared.Agree) {addr : Address}
    {sink : SubscriptionSink} (stored : s.shared.sinks addr = some sink) : final.shared.sinks addr = some sink := by
  have kept : final.shared.Agree ∧ final.shared.sinks addr = some sink :=
    run.invariant (P := fun s => s.shared.Agree ∧ s.shared.sinks addr = some sink) ⟨agree, stored⟩
      fun _ _ _ held taken => ⟨taken.effect.agree held.1, taken.effect.sink_kept held.1 held.2⟩
  exact kept.2

/-- A share is only sent on a subscription whose own request named the owner of
the index, with a signature that was verified for the owner and an index it has
reserved. The sink of a subscription is never replaced. -/
theorem share_sent_to_verified_owner (run : Run (NodeState.Step setup) NodeState.start trace final)
    {τ : Transition (NodeState S) (NodeEvent S)} (member : τ ∈ trace) :
    (∀ message ∈ τ.source.sends setup τ.event, τ.target.shared.Carries setup message.index message ∧
        ∃ before request after addr sigBytes delivered, trace = before ++ request :: after ∧
          request.event = .receiveMaskShare message.sink.peer sigBytes addr (some message.sink.handle) delivered ∧
          (∀ ρ ∈ before ++ after, ρ.event.opens ≠ some message.sink) ∧
          τ.target.shared.indexToClient message.index = some addr ∧ Verified setup τ.target.shared addr sigBytes) ∧
      ∀ addr sink, τ.source.shared.sinks addr = some sink → final.shared.sinks addr = some sink := by
  obtain ⟨earlier, later, split, first, taken, rest⟩ := run.split member
  have coherent := Coherent.of_run first
  constructor
  · intro message sent
    obtain ⟨addr, sigBytes, ⟨request, known, _, delivered, asked⟩, owner, verified, carried⟩ :=
      coherent.sent_to_requester taken sent
    have inside : request ∈ trace := by
      rw [split, List.append_cons]
      exact List.mem_append_left _ known
    obtain ⟨before, after, position⟩ := List.append_of_mem inside
    refine ⟨carried, before, request, after, addr, sigBytes, delivered, position, asked, ?_, owner, verified⟩
    exact NodeState.opens_once run position (by simp [asked, NodeEvent.opens])
  · intro addr sink stored
    exact sink_kept_of_run rest (taken.effect.agree coherent.agree) (taken.effect.sink_kept coherent.agree stored)

end

namespace Scenario

theorem early_request_served :
    ∃ trace final τ message before request after sigBytes delivered,
      Run (NodeState.Step .recorded) NodeState.start trace final ∧ τ ∈ trace ∧
      message ∈ τ.source.sends .recorded τ.event ∧ message.shareBytes = [7] ∧ trace = before ++ request :: after ∧
      request.event = .receiveMaskShare [1] sigBytes owner (some message.sink.handle) delivered := by
  obtain ⟨trace, s, run, _, seen⟩ := NodeState.exists_run_of_events .recorded (earlyRequest.take 2)
    (fun s => (s.sends .recorded (.addMaskShare 0 [7] true), s.shared.indexToClient 0))
    ([⟨⟨0, [1]⟩, 0, [7], true⟩], some owner) (by decide +kernel)
  obtain ⟨sends, owned⟩ := Prod.mk.inj seen
  obtain ⟨s', taken⟩ : ∃ s', s.Step .recorded (.addMaskShare 0 [7] true) s' := ⟨_, rfl⟩
  have sent : (⟨⟨0, [1]⟩, 0, [7], true⟩ : ShareMessage) ∈ s.sends .recorded (.addMaskShare 0 [7] true) := by
    simp [sends]
  have inside : (⟨s, _, s'⟩ : Transition _ _) ∈ trace ++ [⟨s, .addMaskShare 0 [7] true, s'⟩] :=
    List.mem_append_right _ (List.mem_singleton.mpr rfl)
  obtain ⟨_, before, request, after, addr, sigBytes, delivered, split, asked, _, same, _⟩ :=
    (share_sent_to_verified_owner (run.next taken) inside).1 _ sent
  have kept := taken.effect.owner_kept owned
  cases same.symm.trans kept
  exact ⟨_, _, _, _, before, request, after, sigBytes, delivered, run.next taken, inside, sent, rfl, split, asked⟩

end Scenario

end MpcCoordinator.OnChain
