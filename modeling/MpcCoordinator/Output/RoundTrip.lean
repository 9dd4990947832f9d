import MpcCoordinator.Client.SendOutputs
import MpcCoordinator.Output.Snapshots

namespace MpcCoordinator.OutputServerState

variable {listener : CoordinatorListener} {s s' final : OutputServerState} {event : OutputEvent} {e : ExecutionId}
  {c : ClientIdentity} {least : Nat} {trace : List (Transition OutputServerState OutputEvent)}

/-- Every registration of the execution that is admitted requires so many shares. -/
def RequiresShares (listener : CoordinatorListener) (e : ExecutionId) (least : Nat) (s : OutputServerState) :
    OutputEvent → Prop
  | .server (.register party registration order) => registration.executionId = e →
      CoordinatorBrowserState.Admits listener s.server party registration order →
        least ≤ registration.minOutputShares.toNat
  | _ => True

/-- So many shares are required, by the execution and by every delivery that is due in it. -/
structure LeastShares (e : ExecutionId) (least : Nat) (s : OutputServerState) : Prop where
  live : ∀ d, s.live e = some d → least ≤ d.registration.minOutputShares.toNat
  due : ∀ c m, .delivering e c m ∈ s.inFlight → least ≤ m

theorem LeastShares.step (held : LeastShares e least s) (guarded : RequiresShares listener e least s event)
    (step : s.Step listener event s') : LeastShares e least s' where
  live d here := by
    have effect := step.shares here
    cases effect with
    | kept before registered _ _ =>
      rw [registered]
      exact held.live _ before
    | @stored _ _ _ current before _ _ _ => exact held.live current before
    | created _ named admits admitted =>
      rw [(CoordinatorExecutionState.new_cases admitted).1]
      exact guarded named admits
  due c m member := by
    rcases step.delivering_arrives member with old | ⟨_, d, here, rfl⟩
    · exact held.due c m old
    · exact held.live d here

/-- A snapshot that was released has the shares that were stored when it was
taken, and as many as every registration of its execution requires. -/
theorem lists_of_released {waiter : SubscriptionSink} {shares : List EncryptedShares}
    (run : Run (Step listener) start trace final)
    (guarded : ∀ τ ∈ trace, RequiresShares listener e least τ.source τ.event)
    (released : Released final e c waiter shares) :
    ∃ before d, before <+: trace ∧ Lists listener before e c d shares ∧ least ≤ shares.length := by
  have taken : TakenIn listener trace e c shares fun _ => least := by
    refine takenIn_of_released run ?_ released
    intro τ member m d due _
    have held : LeastShares e least τ.source := (run.restrict guarded).source_invariant
      ⟨fun _ here => (nomatch here), fun _ _ due => (nomatch due)⟩ (fun _ _ _ before step => before.step step.2 step.1) member
    exact held.due c m due
  obtain ⟨before, τ, after, _, d, same, _, _, lists, enough⟩ := taken
  exact ⟨before, d, ⟨τ :: after, same.symm⟩, lists, enough⟩

/-- The snapshots that a subscription has been sent, in order. -/
def snapshotsOn (s : OutputServerState) (e : ExecutionId) (c : ClientIdentity) (waiter : SubscriptionSink) :
    List (List EncryptedShares) :=
  (s.sent.filter fun message =>
    decide (message.executionId = e ∧ message.clientId = c ∧ message.waiter = waiter)).map OutputMessage.outputShares

theorem mem_snapshotsOn {waiter : SubscriptionSink} {shares : List EncryptedShares} :
    shares ∈ s.snapshotsOn e c waiter ↔ ⟨e, c, waiter, shares⟩ ∈ s.sent := by
  simp only [snapshotsOn, List.mem_map, List.mem_filter, decide_eq_true_eq]
  constructor
  · rintro ⟨⟨executionId, clientId, sink, outputShares⟩, ⟨member, rfl, rfl, rfl⟩, rfl⟩
    exact member
  · intro member
    exact ⟨_, ⟨member, rfl, rfl, rfl⟩, rfl⟩

/-- What the coordinator may have answered when it was asked which key a client's
outputs are encrypted to: the target at some moment, unless the call failed. -/
def ResolvedIn (before : List (Transition OutputServerState OutputEvent)) (e : ExecutionId) (c : ClientIdentity)
    (resolved : Except String (Option Bytes)) : Prop :=
  (∃ error, resolved = .error error) ∨
    ∃ s ∈ Run.reached start before, resolved = .ok (s.server.bindings.resolveEcdhPublicKey e c)

section

variable {S V P K E R : Type} {client : OffChainCoordinatorClient} {hpke : Hpke K E} {sender : HpkeSender S P R}
  {scheme : ShareBound S V} {clientSk : K} {key : Bytes} {share : Nat → Nat → S} {output : Nat → V}

/-- Whatever a roster party sends for the client is what the library sends: its
shares of all outputs, sealed to the key that the coordinator names or to the
client's own. A party holds the share that belongs to its place in the roster. -/
def SharesHonestly (listener : CoordinatorListener) (client : OffChainCoordinatorClient) (sender : HpkeSender S P R)
    (key : Bytes) (share : Nat → Nat → S) (c : ClientIdentity) (trace : List (Transition OutputServerState OutputEvent)) :
    Prop :=
  ∀ before τ after p encShares, trace = before ++ τ :: after →
    τ.event = .sendOutputShares client.executionId p c encShares → p ∈ listener.topology.parties →
    ∃ (party : OffChainCoordinatorClient) (resolved : Except String (Option Bytes)) (rng : R),
      party.executionId = client.executionId ∧ ResolvedIn before client.executionId c resolved ∧
      party.sealOutputShares sender resolved key
        ((List.range client.nOutputs.toNat).map fun i => share i (listener.topology.mpcNodes.val.idxOf p)) rng =
          .ok encShares

/-- No session but one with the client's own key is the target of its outputs. -/
def TargetsKey (e : ExecutionId) (c : ClientIdentity) (key : Bytes)
    (trace : List (Transition OutputServerState OutputEvent)) : Prop :=
  ∀ s ∈ Run.reached start trace, ∀ sessionKey, s.server.bindings.resolveEcdhPublicKey e c = some sessionKey →
    sessionKey = key

theorem outputEncryptionKey_eq {before : List (Transition OutputServerState OutputEvent)}
    {resolved : Except String (Option Bytes)} (targets : TargetsKey e c key trace) (earlier : before <+: trace)
    (answered : ResolvedIn before e c resolved) : outputEncryptionKey resolved key = key := by
  rcases answered with ⟨error, rfl⟩ | ⟨s, reached, rfl⟩
  · rfl
  · cases target : s.server.bindings.resolveEcdhPublicKey e c with
    | none => rfl
    | some sessionKey =>
      have inside : s ∈ Run.reached start trace := by
        simp only [Run.reached, List.mem_cons] at reached ⊢
        exact reached.imp_right fun member => (earlier.map _).subset member
      exact targets s inside sessionKey target

/-- What is stored for the client is the entry of an honest party. -/
theorem correctEntry_of_sharedIn {before : List (Transition OutputServerState OutputEvent)} {p : ClientIdentity}
    {entry : EncryptedShares} (matching : sender.Matches hpke scheme key clientSk)
    (targets : TargetsKey client.executionId c key trace)
    (honest : SharesHonestly listener client sender key share c trace) (member : p ∈ listener.topology.parties)
    (earlier : before <+: trace) (shared : SharedIn before client.executionId c p entry) :
    client.CorrectEntry hpke scheme clientSk share (listener.topology.mpcNodes.val.idxOf p, entry) := by
  obtain ⟨first, τ, later, rfl, ⟨sends, _⟩, _⟩ := shared
  obtain ⟨rest, rfl⟩ := earlier
  obtain ⟨party, resolved, rng, same, answered, sealed⟩ := honest first τ (later ++ rest) p entry (by simp) sends member
  have target := outputEncryptionKey_eq targets ⟨τ :: (later ++ rest), by simp⟩ answered
  exact OffChainCoordinatorClient.openShares_of_sealed (target.symm ▸ matching) same sealed

/-- A released snapshot is one of correct entries, enough of them to recover all outputs. -/
theorem obtainOutputsLoop_of_released {waiter : SubscriptionSink} {shares : List EncryptedShares}
    (run : Run (Step listener) start trace final) (roster : client.nParties = listener.topology.n)
    (matching : sender.Matches hpke scheme key clientSk) (recovers : client.Recovers scheme share output)
    (required : ∀ τ ∈ trace, RequiresShares listener client.executionId (client.minShares scheme) τ.source τ.event)
    (targets : TargetsKey client.executionId c key trace)
    (honest : SharesHonestly listener client sender key share c trace)
    (released : Released final client.executionId c waiter shares) (closed : Bool)
    (rest : List (Option (List EncryptedShares))) :
    client.obtainOutputsLoop hpke scheme clientSk closed (some shares :: rest) =
      .returned ((List.range client.nOutputs.toNat).map output) := by
  obtain ⟨before, d, earlier, lists, enough⟩ := lists_of_released run required released
  obtain ⟨senders, distinct, _, sent⟩ := lists.complete
  have paired : (senders.map listener.topology.mpcNodes.val.idxOf).length = shares.length := by
    rw [List.length_map, sent.length_eq]
  -- the entries with the places of those who sent them
  have entries : ∀ entry ∈ (senders.map listener.topology.mpcNodes.val.idxOf).zip shares,
      client.CorrectEntry hpke scheme clientSk share entry ∧ entry.1 < client.nParties.toNat := by
    rintro ⟨place, entry⟩ member
    rw [List.zip_map_left, List.mem_map] at member
    obtain ⟨⟨p, stored⟩, paired, same⟩ := member
    obtain ⟨rfl, rfl⟩ := Prod.mk.inj same
    obtain ⟨member, _, shared⟩ := List.forall₂_iff_zip.mp sent |>.2 paired
    refine ⟨correctEntry_of_sharedIn matching targets honest member earlier shared, ?_⟩
    rw [roster, ← listener.topology.checks.2.1]
    exact List.idxOf_lt_length_iff.mpr (List.mem_toFinset.mp member)
  have places : (senders.map listener.topology.mpcNodes.val.idxOf).Nodup := by
    refine distinct.map_on fun p first q second same => ?_
    obtain ⟨i, rfl⟩ := List.mem_iff_get.mp first
    have known := List.mem_toFinset.mp (sent.get i.2 (sent.length_eq ▸ i.2)).1
    exact (List.idxOf_inj known).mp same
  have returned := OffChainCoordinatorClient.obtainOutputsLoop_of_correct
    (by rwa [List.map_fst_zip paired.le]) (fun entry member => (entries entry member).2)
    (fun entry member => (entries entry member).1) (by rwa [List.length_zip, paired, Nat.min_self]) recovers closed rest
  rwa [List.map_snd_zip paired.ge] at returned

/-- The way of an output from the parties to its client. Whatever subscribes,
closes, is sent and registered in between: a subscription that was sent anything
gives exactly the outputs, and one that was sent nothing keeps waiting. And when
no call for the client is under way and enough shares are stored, its open
subscription was sent them. -/
theorem outputs_round_trip (run : Run (Step listener) start trace final) (parsed : client.parseKey hpke = .ok clientSk)
    (roster : client.nParties = listener.topology.n) (matching : sender.Matches hpke scheme key clientSk)
    (recovers : client.Recovers scheme share output)
    (required : ∀ τ ∈ trace, RequiresShares listener client.executionId (client.minShares scheme) τ.source τ.event)
    (targets : TargetsKey client.executionId c key trace)
    (honest : SharesHonestly listener client sender key share c trace) :
    (∀ waiter closed, client.obtainOutputs hpke scheme
        (.ok ⟨(final.snapshotsOn client.executionId c waiter).map some, closed⟩) =
      if final.snapshotsOn client.executionId c waiter = [] then
        (if closed then .failed outputsEnded else .blocked)
      else .returned ((List.range client.nOutputs.toNat).map output)) ∧
    ∀ d waiter closed, final.live client.executionId = some d → d.outputSinks c = some waiter →
      (∀ task ∈ final.inFlight, task.serves client.executionId c = false) →
      d.registration.minOutputShares.toNat ≤ (d.storedShares c).length →
      client.obtainOutputs hpke scheme (.ok ⟨(final.snapshotsOn client.executionId c waiter).map some, closed⟩) =
        .returned ((List.range client.nOutputs.toNat).map output) := by
  have read : ∀ waiter closed, client.obtainOutputs hpke scheme
      (.ok ⟨(final.snapshotsOn client.executionId c waiter).map some, closed⟩) =
        client.obtainOutputsLoop hpke scheme clientSk closed
          ((final.snapshotsOn client.executionId c waiter).map some) := by
    intro waiter closed
    rw [OffChainCoordinatorClient.obtainOutputs, parsed]
  have returned : ∀ waiter closed, final.snapshotsOn client.executionId c waiter ≠ [] →
      client.obtainOutputs hpke scheme (.ok ⟨(final.snapshotsOn client.executionId c waiter).map some, closed⟩) =
        .returned ((List.range client.nOutputs.toNat).map output) := by
    intro waiter closed some
    obtain ⟨shares, rest, listed⟩ := List.exists_cons_of_ne_nil some
    have released : Released final client.executionId c waiter shares :=
      Or.inr (mem_snapshotsOn.mp (listed ▸ List.mem_cons_self))
    rw [read, listed]
    exact obtainOutputsLoop_of_released run roster matching recovers required targets honest released closed _
  refine ⟨fun waiter closed => ?_, fun d waiter closed here waits idle enough => returned waiter closed ?_⟩
  · split
    · rename_i none
      rw [read, none]
      rfl
    · rename_i some
      exact returned waiter closed some
  · have served : Served client.executionId c final :=
      run.invariant (fun _ _ live => by cases live) fun _ _ _ before step => before.step step
    rcases served d waiter here waits with ⟨task, member, owes⟩ | few | sent
    · have idle := idle task member
      rw [owes.serves] at idle
      cases idle
    · exact absurd enough (Nat.not_le.mpr few)
    · exact List.ne_nil_of_mem (mem_snapshotsOn.mpr sent)

end

section Runs

open Scenario

/-- A client of three parties, whose output takes the shares of all of them. -/
def trioClient : OffChainCoordinatorClient := ⟨.numbered 0, 1, 3, 1, []⟩

/-- All three parties send their share, the last one after the client subscribes. -/
def sharedByAll : List OutputEvent :=
  [.server (.register [1] (.forOutput 3) []), .sendOutputShares (.numbered 0) [1] [9] ([1], [9]),
    .deliver (.numbered 0) [9] 3, .sendOutputShares (.numbered 0) [2] [9] ([1], [9]), .deliver (.numbered 0) [9] 3,
    .requestOutputShares (.numbered 0) [9], .obtainOutputShares (.numbered 0) [9] 0, .deliver (.numbered 0) [9] 3,
    .sendOutputShares (.numbered 0) [3] [9] ([1], [9]), .deliver (.numbered 0) [9] 3,
    .send (.numbered 0) [9] ⟨0, [9]⟩ [([1], [9]), ([1], [9]), ([1], [9])] true]

/-- No session is the target of the client's outputs. -/
def unbound (s : OutputServerState) : Bool := (s.server.bindings.resolveEcdhPublicKey (.numbered 0) [9]).isNone

/-- Every registration requires three shares, and every share is one of the output. -/
def checksTrio (s : OutputServerState) : OutputEvent → Bool
  | .server (.register _ registration _) => s.unbound && decide (3 ≤ registration.minOutputShares.toNat)
  | .sendOutputShares _ _ _ encShares => s.unbound && decide (encShares = ([1], [9]))
  | _ => s.unbound

theorem unbound_of_checksTrio (checked : s.checksTrio event = true) : s.unbound = true := by
  unfold checksTrio at checked
  split at checked
  · exact (Bool.and_eq_true_iff.mp checked).1
  · exact (Bool.and_eq_true_iff.mp checked).1
  · exact checked

theorem requiresShares_of_checksTrio (checked : s.checksTrio event = true) :
    RequiresShares .trio (.numbered 0) 3 s event := by
  cases event with
  | server serverEvent =>
    cases serverEvent with
    | register party registration order => exact fun _ _ => of_decide_eq_true (Bool.and_eq_true_iff.mp checked).2
    | _ => trivial
  | _ => trivial

theorem trioClient_recovers : trioClient.Recovers .plain (fun _ _ => 9) fun _ => 9 := by
  intro i _ parties _ _
  exact ShareBound.plain_recoverSecret 9 parties _ _

theorem outputs_round_trip_of_three :
    ∃ trace final, Run (Step .trio) start trace final ∧ trace.map Transition.event = sharedByAll ∧
      final.snapshotsOn (.numbered 0) [9] ⟨0, [9]⟩ = [[([1], [9]), ([1], [9]), ([1], [9])]] ∧
      trioClient.obtainOutputs plainHpke .plain
        (.ok ⟨(final.snapshotsOn (.numbered 0) [9] ⟨0, [9]⟩).map some, false⟩) = .returned [9] := by
  obtain ⟨trace, final, run, events, seen, checked⟩ := exists_run_of_events .trio sharedByAll checksTrio
    (fun s => (s.unbound, s.snapshotsOn (.numbered 0) [9] ⟨0, [9]⟩))
    (true, [[([1], [9]), ([1], [9]), ([1], [9])]]) (by decide +kernel)
  obtain ⟨last, snapshots⟩ := Prod.mk.inj seen
  have targets : TargetsKey trioClient.executionId [9] [] trace := by
    intro s reached sessionKey target
    have none : s.unbound = true := by
      rcases run.reached_source reached with rfl | ⟨τ, member, rfl⟩
      · exact last
      · exact unbound_of_checksTrio (checked τ member)
    rw [unbound, show s.server.bindings.resolveEcdhPublicKey (.numbered 0) [9] = some sessionKey from target] at none
    cases none
  have honest : SharesHonestly .trio trioClient plainSender [] (fun _ _ => 9) [9] trace := by
    intro before τ after p encShares same sends _
    have passed := checked τ (by simp [same])
    rw [sends] at passed
    obtain rfl : encShares = ([1], [9]) := of_decide_eq_true (Bool.and_eq_true_iff.mp passed).2
    exact ⟨trioClient, .error "", (), rfl, Or.inl ⟨_, rfl⟩, rfl⟩
  have outputs := (outputs_round_trip run rfl rfl (plainSender_matches []) trioClient_recovers
    (fun τ member => requiresShares_of_checksTrio (checked τ member)) targets honest).1 ⟨0, [9]⟩ false
  refine ⟨trace, final, run, events, snapshots, outputs.trans ?_⟩
  rw [show final.snapshotsOn trioClient.executionId [9] ⟨0, [9]⟩ = _ from snapshots]
  rfl

end Runs

end MpcCoordinator.OutputServerState
