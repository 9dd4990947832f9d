import MpcCoordinator.OnChain.Step
import Mathlib.Data.List.Nodup

namespace MpcCoordinator.OnChain

namespace NodeRPCServerShared

variable {S : Type} {setup : NodeSetup S} {d d' : NodeRPCServerShared S}

theorem takeSig_pairs (addr : Address) (entries : List ClientEntry) :
    (takeSig addr entries).map (fun entry => (entry.tlsId, entry.addr)) =
      entries.map fun entry => (entry.tlsId, entry.addr) := by
  induction entries with
  | nil => rfl
  | cons entry rest ih =>
    unfold takeSig
    split
    · rfl
    · rw [List.map_cons, ih, List.map_cons]

theorem takeSig_addrs (addr : Address) (entries : List ClientEntry) :
    (takeSig addr entries).map ClientEntry.addr = entries.map ClientEntry.addr := by
  have pairs := congrArg (List.map Prod.snd) (takeSig_pairs addr entries)
  rw [List.map_map, List.map_map] at pairs
  exact pairs

/-- Addresses are listed once, so that no other entry of the address keeps a signature. -/
theorem mem_takeSig {addr : Address} {entries : List ClientEntry} {entry : ClientEntry}
    (distinct : (entries.map ClientEntry.addr).Nodup) (member : entry ∈ takeSig addr entries) :
    (entry ∈ entries ∧ entry.addr ≠ addr) ∨
      ∃ old ∈ entries, old.addr = addr ∧ entry = { old with pendingSig := none } := by
  induction entries with
  | nil => cases member
  | cons first rest ih =>
    obtain ⟨alone, distinct⟩ := List.nodup_cons.mp distinct
    unfold takeSig at member
    split at member
    · rename_i same
      rcases List.mem_cons.mp member with rfl | later
      · exact Or.inr ⟨first, List.mem_cons_self .., same, rfl⟩
      · refine Or.inl ⟨List.mem_cons_of_mem _ later, fun again => alone ?_⟩
        rw [same, ← again]
        exact List.mem_map_of_mem later
    · rename_i different
      rcases List.mem_cons.mp member with rfl | later
      · exact Or.inl ⟨List.mem_cons_self .., different⟩
      · rcases ih distinct later with ⟨old, apart⟩ | ⟨old, listed, rest⟩
        · exact Or.inl ⟨List.mem_cons_of_mem _ old, apart⟩
        · exact Or.inr ⟨old, List.mem_cons_of_mem _ listed, rest⟩

theorem entryOf_some {addr : Address} {entry : ClientEntry} (found : d.entryOf addr = some entry) :
    entry ∈ d.idsAndAddrs ∧ entry.addr = addr :=
  ⟨List.mem_of_find?_eq_some found, by simpa using List.find?_some found⟩

/-- A signature of the address was verified for an index that it has reserved. -/
def Verified (setup : NodeSetup S) (d : NodeRPCServerShared S) (addr : Address) (sigBytes : Bytes) : Prop :=
  ∃ i, d.indexToClient i = some addr ∧ verifies setup i addr sigBytes = true

/-- How the tables of a node agree with each other. -/
structure Agree (d : NodeRPCServerShared S) : Prop where
  owner : ∀ addr i, d.clientToIndex addr = some i → d.indexToClient i = some addr
  distinct : (d.idsAndAddrs.map ClientEntry.addr).Nodup
  unreserved : ∀ entry ∈ d.idsAndAddrs, entry.pendingSig ≠ none → d.clientToIndex entry.addr = none
  reserved : ∀ addr ∈ d.authenticated, d.clientToIndex addr ≠ none
  listed : ∀ addr sink, d.sinks addr = some sink → ∃ entry ∈ d.idsAndAddrs, entry.addr = addr

namespace Agree

theorem new : (new : NodeRPCServerShared S).Agree where
  owner addr i held := by cases held
  distinct := List.nodup_nil
  unreserved entry member := by cases member
  reserved addr member := by simp [NodeRPCServerShared.new] at member
  listed addr sink stored := by cases stored

theorem unique (agree : d.Agree) {entry other : ClientEntry} (member : entry ∈ d.idsAndAddrs)
    (also : other ∈ d.idsAndAddrs) (same : entry.addr = other.addr) : entry = other :=
  List.inj_on_of_nodup_map agree.distinct member also same

theorem entryOf_of_mem (agree : d.Agree) {entry : ClientEntry} (member : entry ∈ d.idsAndAddrs) :
    d.entryOf entry.addr = some entry := by
  cases found : d.entryOf entry.addr with
  | none =>
    have absent := List.find?_eq_none.mp found entry member
    simp at absent
  | some other =>
    obtain ⟨also, same⟩ := entryOf_some found
    rw [agree.unique also member same]

theorem pending_unauthenticated (agree : d.Agree) {entry : ClientEntry} (member : entry ∈ d.idsAndAddrs)
    (pending : entry.pendingSig ≠ none) : entry.addr ∉ d.authenticated :=
  fun known => agree.reserved _ known (agree.unreserved entry member pending)

theorem no_sink (agree : d.Agree) {tlsId : Bytes} {addr : Address} (unlisted : d.Unlisted tlsId addr) :
    d.sinks addr = none := by
  by_contra stored
  obtain ⟨sink, stored⟩ := Option.ne_none_iff_exists'.mp stored
  obtain ⟨entry, member, same⟩ := agree.listed addr sink stored
  exact (unlisted entry member).2 same

theorem recordReservation_owner (agree : d.Agree) {addr : Address} {i : UInt64} (free : d.indexToClient i = none)
    (other : Address) (j : UInt64) (held : (d.recordReservation addr i).clientToIndex other = some j) :
    (d.recordReservation addr i).indexToClient j = some other := by
  simp only [recordReservation, Table.insert_apply] at held ⊢
  split at held
  · rename_i same
    rw [same, Option.some.inj held, if_pos rfl]
  · have old := agree.owner other j held
    rw [if_neg, old]
    intro same
    rw [same, free] at old
    cases old

theorem recordReservation_reserved (agree : d.Agree) {addr : Address} {i : UInt64} {other : Address}
    (known : other ∈ d.authenticated) : (d.recordReservation addr i).clientToIndex other ≠ none := by
  simp only [recordReservation, Table.insert_apply]
  split
  · simp
  · exact agree.reserved other known

/-- The entries after the reservation of a pending client: only the others still wait. -/
theorem takeSig_unreserved (agree : d.Agree) {addr : Address} {i : UInt64} {entry : ClientEntry}
    (member : entry ∈ takeSig addr d.idsAndAddrs) (pending : entry.pendingSig ≠ none) :
    (d.recordReservation addr i).clientToIndex entry.addr = none := by
  rcases mem_takeSig agree.distinct member with ⟨old, different⟩ | ⟨old, _, _, rfl⟩
  · simp only [recordReservation, Table.insert_of_ne _ _ different]
    exact agree.unreserved entry old pending
  · exact absurd rfl pending

theorem takeSig_listed {addr : Address} {entries : List ClientEntry} {other : Address}
    (listed : ∃ entry ∈ entries, entry.addr = other) : ∃ entry ∈ takeSig addr entries, entry.addr = other := by
  rw [← List.mem_map, takeSig_addrs, List.mem_map]
  exact listed

theorem append_distinct (agree : d.Agree) {entry : ClientEntry} (unlisted : d.Unlisted entry.tlsId entry.addr) :
    ((d.idsAndAddrs ++ [entry]).map ClientEntry.addr).Nodup := by
  rw [List.map_append, List.nodup_append]
  refine ⟨agree.distinct, List.nodup_singleton _, ?_⟩
  intro addr old other new same
  obtain ⟨earlier, member, rfl⟩ := List.mem_map.mp old
  rw [List.map_singleton, List.mem_singleton] at new
  exact (unlisted earlier member).2 (same.trans new)

theorem append_listed (agree : d.Agree) {entry : ClientEntry} {own : Address} {sink : SubscriptionSink}
    (here : entry.addr = own) (addr : Address) (other : SubscriptionSink)
    (stored : d.sinks.insert own sink addr = some other) : ∃ old ∈ d.idsAndAddrs ++ [entry], old.addr = addr := by
  rw [Table.insert_apply] at stored
  split at stored
  · rename_i same
    exact ⟨entry, by simp, here.trans same.symm⟩
  · obtain ⟨old, member, same⟩ := agree.listed addr other stored
    exact ⟨old, List.mem_append_left _ member, same⟩

theorem append_unreserved (agree : d.Agree) {new : ClientEntry}
    (fits : new.pendingSig ≠ none → d.clientToIndex new.addr = none) :
    ∀ entry ∈ d.idsAndAddrs ++ [new], entry.pendingSig ≠ none → d.clientToIndex entry.addr = none := by
  intro entry member pending
  rcases List.mem_append.mp member with old | last
  · exact agree.unreserved entry old pending
  · rw [List.mem_singleton.mp last] at pending ⊢
    exact fits pending

theorem insert_reserved (agree : d.Agree) {addr : Address} {i : UInt64} (held : d.clientToIndex addr = some i) :
    ∀ other ∈ insert addr d.authenticated, d.clientToIndex other ≠ none := by
  intro other member
  rcases Finset.mem_insert.mp member with rfl | old
  · simp [held]
  · exact agree.reserved other old

end Agree

theorem Effect.agree {event : NodeEvent S} {sends : List ShareMessage} (effect : Effect setup d event sends d')
    (agree : d.Agree) : d'.Agree := by
  cases effect with
  | taken => exact agree
  | generated => exact agree
  | turnedAway => exact agree
  | @reserved addr i _ free consumed =>
    refine { agree with
      owner := agree.recordReservation_owner free
      unreserved := fun entry member pending => ?_
      reserved := fun other known => agree.recordReservation_reserved known }
    have different : entry.addr ≠ addr := by
      rintro rfl
      exact pending (consumed entry (agree.entryOf_of_mem member))
    simp only [recordReservation, Table.insert_of_ne _ _ different]
    exact agree.unreserved entry member pending
  | @unverified addr i _ _ _ free _ _ _ =>
    exact {
      owner := agree.recordReservation_owner free
      distinct := by rw [takeSig_addrs]; exact agree.distinct
      unreserved := fun entry member pending => agree.takeSig_unreserved member pending
      reserved := fun other known => agree.recordReservation_reserved known
      listed := fun other sink stored => Agree.takeSig_listed (agree.listed other sink stored) }
  | @verified addr i _ _ _ _ free _ _ _ _ =>
    refine {
      owner := agree.recordReservation_owner free
      distinct := by simp only [authenticate]; rw [takeSig_addrs]; exact agree.distinct
      unreserved := fun entry member pending => agree.takeSig_unreserved member pending
      reserved := fun other known => ?_
      listed := fun other sink stored => Agree.takeSig_listed (agree.listed other sink stored) }
    rcases Finset.mem_insert.mp known with rfl | old
    · simp [authenticate, recordReservation]
    · exact agree.recordReservation_reserved old
  | shared => exact { agree with }
  | parked unlisted unreserved =>
    exact { agree with
      distinct := agree.append_distinct unlisted
      unreserved := agree.append_unreserved fun _ => unreserved
      listed := agree.append_listed rfl }
  | waiting unlisted held _ =>
    exact { agree with
      distinct := agree.append_distinct unlisted
      unreserved := agree.append_unreserved fun pending => absurd rfl pending
      reserved := agree.insert_reserved held
      listed := agree.append_listed rfl }
  | answered unlisted held _ _ _ =>
    refine { agree with
      distinct := agree.append_distinct unlisted
      unreserved := agree.append_unreserved fun pending => absurd rfl pending
      reserved := agree.insert_reserved held
      listed := fun addr sink stored => ?_ }
    obtain ⟨old, member, same⟩ := agree.listed addr sink stored
    exact ⟨old, List.mem_append_left _ member, same⟩
  | cut _ held _ _ => exact { agree with reserved := agree.insert_reserved held }

theorem Effect.owner_kept {event : NodeEvent S} {sends : List ShareMessage} (effect : Effect setup d event sends d')
    {addr : Address} {i : UInt64} (owner : d.indexToClient i = some addr) : d'.indexToClient i = some addr := by
  have kept : ∀ {other : Address} {j : UInt64}, d.indexToClient j = none →
      (d.recordReservation other j).indexToClient i = some addr := by
    intro other j free
    have different : i ≠ j := by
      rintro rfl
      rw [free] at owner
      cases owner
    simp only [recordReservation, Table.insert_of_ne _ _ different, owner]
  cases effect with
  | reserved free _ => exact kept free
  | unverified free _ _ _ => exact kept free
  | verified free _ _ _ _ => exact kept free
  | taken => exact owner
  | generated => exact owner
  | turnedAway => exact owner
  | shared => exact owner
  | parked => exact owner
  | waiting => exact owner
  | answered => exact owner
  | cut => exact owner

theorem Effect.verified_kept {event : NodeEvent S} {sends : List ShareMessage} (effect : Effect setup d event sends d')
    {addr : Address} {sigBytes : Bytes} (verified : Verified setup d addr sigBytes) :
    Verified setup d' addr sigBytes := by
  obtain ⟨i, owner, accepted⟩ := verified
  exact ⟨i, effect.owner_kept owner, accepted⟩

/-- A client's sink stays the one it is: a request that could store another is refused. -/
theorem Effect.sink_kept {event : NodeEvent S} {sends : List ShareMessage} (effect : Effect setup d event sends d')
    (agree : d.Agree) {addr : Address} {sink : SubscriptionSink} (stored : d.sinks addr = some sink) :
    d'.sinks addr = some sink := by
  have kept : ∀ {tlsId : Bytes} {other : Address} {new : SubscriptionSink}, d.Unlisted tlsId other →
      d.sinks.insert other new addr = some sink := by
    intro tlsId other new unlisted
    have different : addr ≠ other := by
      rintro rfl
      rw [agree.no_sink unlisted] at stored
      cases stored
    rw [Table.insert_of_ne _ _ different, stored]
  cases effect with
  | parked unlisted _ => exact kept unlisted
  | waiting unlisted _ _ => exact kept unlisted
  | taken => exact stored
  | generated => exact stored
  | turnedAway => exact stored
  | reserved => exact stored
  | unverified => exact stored
  | verified => exact stored
  | shared => exact stored
  | answered => exact stored
  | cut => exact stored

end NodeRPCServerShared

section Origins

variable {S : Type} {setup : NodeSetup S} {trace longer : List (Transition (NodeState S) (NodeEvent S))}
  {d d' : NodeRPCServerShared S}

/-- A request was made, and not turned away for an earlier one. -/
def Requested (trace : List (Transition (NodeState S) (NodeEvent S))) (tlsId sigBytes : Bytes) (addr : Address)
    (handle : Nat) : Prop :=
  ∃ τ ∈ trace, τ.source.shared.Unlisted tlsId addr ∧
    ∃ delivered, τ.event = .receiveMaskShare tlsId sigBytes addr (some handle) delivered

/-- Where an entry comes from: the request that has listed it, with its signature and its subscription. -/
structure Origin (setup : NodeSetup S) (trace : List (Transition (NodeState S) (NodeEvent S)))
    (d : NodeRPCServerShared S) (entry : ClientEntry) (sigBytes : Bytes) (handle : Nat) : Prop where
  requested : Requested trace entry.tlsId sigBytes entry.addr handle
  sink : ∀ sink, d.sinks entry.addr = some sink → sink = ⟨handle, entry.tlsId⟩
  pending : ∀ sig, entry.pendingSig = some sig → sig = sigBytes
  verified : entry.addr ∈ d.authenticated → d.Verified setup entry.addr sigBytes

def Traced (setup : NodeSetup S) (trace : List (Transition (NodeState S) (NodeEvent S)))
    (d : NodeRPCServerShared S) : Prop :=
  ∀ entry ∈ d.idsAndAddrs, ∃ sigBytes handle, Origin setup trace d entry sigBytes handle

theorem Requested.mono {tlsId sigBytes : Bytes} {addr : Address} {handle : Nat} (within : trace ⊆ longer)
    (requested : Requested trace tlsId sigBytes addr handle) : Requested longer tlsId sigBytes addr handle := by
  obtain ⟨τ, member, rest⟩ := requested
  exact ⟨τ, within member, rest⟩

variable {entry : ClientEntry} {sigBytes : Bytes} {handle : Nat} {event : NodeEvent S} {sends : List ShareMessage}

theorem Origin.consumed (origin : Origin setup trace d entry sigBytes handle) :
    Origin setup trace d { entry with pendingSig := none } sigBytes handle :=
  { origin with pending := fun sig pending => by cases pending }

/-- An entry keeps its origin as long as its sink does not change and it is not authenticated otherwise. -/
theorem Origin.kept (origin : Origin setup trace d entry sigBytes handle) (within : trace ⊆ longer)
    (effect : d.Effect setup event sends d') (sink : d'.sinks entry.addr = d.sinks entry.addr)
    (known : entry.addr ∈ d'.authenticated → entry.addr ∈ d.authenticated ∨ d'.Verified setup entry.addr sigBytes) :
    Origin setup longer d' entry sigBytes handle where
  requested := origin.requested.mono within
  sink stored here := origin.sink stored (sink ▸ here)
  pending := origin.pending
  verified member := (known member).elim (fun old => effect.verified_kept (origin.verified old)) id

/-- The entries of other clients than the one that an operation authenticates. -/
theorem Origin.apart (origin : Origin setup trace d entry sigBytes handle) (within : trace ⊆ longer)
    (effect : d.Effect setup event sends d') {addr : Address} (different : entry.addr ≠ addr)
    (sink : d'.sinks entry.addr = d.sinks entry.addr) (known : d'.authenticated ⊆ insert addr d.authenticated) :
    Origin setup longer d' entry sigBytes handle :=
  origin.kept within effect sink fun member =>
    Or.inl ((Finset.mem_insert.mp (known member)).resolve_left different)

/-- A request that is not refused comes from a client without an entry, and leaves those of the others. -/
theorem Traced.others (traced : Traced setup trace d) (within : trace ⊆ longer) (effect : d.Effect setup event sends d')
    {tlsId : Bytes} {addr : Address} (unlisted : d.Unlisted tlsId addr)
    (sinks : ∀ other, other ≠ addr → d'.sinks other = d.sinks other)
    (known : d'.authenticated ⊆ insert addr d.authenticated) :
    ∀ entry ∈ d.idsAndAddrs, ∃ sigBytes handle, Origin setup longer d' entry sigBytes handle := by
  intro entry old
  obtain ⟨sig, opened, origin⟩ := traced entry old
  have different := (unlisted entry old).2
  exact ⟨sig, opened, origin.apart within effect different (sinks _ different) known⟩

theorem Traced.append
    (others : ∀ entry ∈ d.idsAndAddrs, ∃ sigBytes handle, Origin setup longer d' entry sigBytes handle)
    (entries : d'.idsAndAddrs = d.idsAndAddrs ++ [entry]) (new : Origin setup longer d' entry sigBytes handle) :
    Traced setup longer d' := by
  intro other member
  rw [entries] at member
  rcases List.mem_append.mp member with old | last
  · exact others other old
  · rw [List.mem_singleton.mp last]
    exact ⟨sigBytes, handle, new⟩

/-- The entries after the reservation of a client that has been waiting for it. -/
theorem Traced.take (traced : Traced setup trace d) (agree : d.Agree) (within : trace ⊆ longer)
    (effect : d.Effect setup event sends d') (waiting : entry ∈ d.idsAndAddrs)
    (pending : entry.pendingSig = some sigBytes) (sinks : d'.sinks = d.sinks)
    (known : d'.authenticated ⊆ insert entry.addr d.authenticated)
    (checked : entry.addr ∈ d'.authenticated → d'.Verified setup entry.addr sigBytes)
    (entries : d'.idsAndAddrs = NodeRPCServerShared.takeSig entry.addr d.idsAndAddrs) : Traced setup longer d' := by
  intro other member
  rw [entries] at member
  rcases NodeRPCServerShared.mem_takeSig agree.distinct member with ⟨old, different⟩ | ⟨old, listed, same, rfl⟩
  · obtain ⟨sig, opened, origin⟩ := traced other old
    exact ⟨sig, opened, origin.apart within effect different (by rw [sinks]) known⟩
  · cases agree.unique waiting listed same.symm
    obtain ⟨sig, opened, origin⟩ := traced entry waiting
    cases origin.pending _ pending
    exact ⟨sigBytes, opened, (origin.kept within effect (by rw [sinks]) fun member => Or.inr (checked member)).consumed⟩

theorem Traced.step {s s' : NodeState S} (traced : Traced setup trace s.shared)
    (agree : s.shared.Agree) (step : s.Step setup event s') :
    Traced setup (trace ++ [⟨s, event, s'⟩]) s'.shared := by
  have within : trace ⊆ trace ++ [⟨s, event, s'⟩] := List.subset_append_left ..
  have here : (⟨s, event, s'⟩ : Transition _ _) ∈ trace ++ [⟨s, event, s'⟩] := by simp
  have whole := step.effect
  have effect := whole
  generalize s.sends setup event = sends at effect whole
  obtain ⟨d', opened⟩ := s'
  dsimp only at effect whole within here ⊢
  -- what neither lists a client nor authenticates one
  have quiet : d'.idsAndAddrs = s.shared.idsAndAddrs → d'.sinks = s.shared.sinks →
      d'.authenticated = s.shared.authenticated → Traced setup (trace ++ [⟨s, event, ⟨d', opened⟩⟩]) d' := by
    intro entries sinks known entry member
    obtain ⟨sig, handle, origin⟩ := traced entry (entries ▸ member)
    exact ⟨sig, handle, origin.kept within whole (by rw [sinks]) fun member => Or.inl (known ▸ member)⟩
  cases effect with
  | taken => exact quiet rfl rfl rfl
  | generated => exact quiet rfl rfl rfl
  | turnedAway => exact quiet rfl rfl rfl
  | reserved => exact quiet rfl rfl rfl
  | shared => exact quiet rfl rfl rfl
  | @unverified addr i _ entry sigBytes free found pending refuted =>
    obtain ⟨member, rfl⟩ := NodeRPCServerShared.entryOf_some found
    refine traced.take agree within whole member pending rfl (Finset.subset_insert ..) (fun known => ?_) rfl
    exact absurd known (agree.pending_unauthenticated member (by simp [pending]))
  | @verified addr i _ entry sigBytes _ free found pending accepted _ =>
    obtain ⟨member, rfl⟩ := NodeRPCServerShared.entryOf_some found
    exact traced.take agree within whole member pending rfl (Finset.Subset.refl _)
      (fun _ => ⟨i, Table.insert_self .., accepted⟩) rfl
  | @parked tlsId sigBytes addr handle delivered unlisted unreserved =>
    have others := traced.others within whole unlisted (fun other different => Table.insert_of_ne _ _ different)
      (Finset.subset_insert ..)
    exact .append others rfl {
      requested := ⟨_, here, unlisted, delivered, rfl⟩
      sink := fun sink stored => by simpa using stored.symm
      pending := fun sig pending => (Option.some.inj pending).symm
      verified := fun known => absurd unreserved (agree.reserved addr known) }
  | @waiting tlsId sigBytes addr handle delivered i unlisted held accepted =>
    have others := traced.others within whole unlisted (fun other different => Table.insert_of_ne _ _ different)
      (Finset.Subset.refl _)
    exact .append others rfl {
      requested := ⟨_, here, unlisted, delivered, rfl⟩
      sink := fun sink stored => by simpa using stored.symm
      pending := fun sig pending => by cases pending
      verified := fun _ => ⟨i, agree.owner addr i held, accepted⟩ }
  | @answered tlsId sigBytes addr handle i message unlisted held accepted _ _ =>
    have others := traced.others within whole unlisted (fun other different => rfl) (Finset.Subset.refl _)
    exact .append others rfl {
      requested := ⟨_, here, unlisted, true, rfl⟩
      sink := fun sink stored => by cases (agree.no_sink unlisted).symm.trans stored
      pending := fun sig pending => by cases pending
      verified := fun _ => ⟨i, agree.owner addr i held, accepted⟩ }
  | cut unlisted held verified _ =>
    exact traced.others within whole unlisted (fun other different => rfl) (Finset.Subset.refl _)

/-- What every run of a node keeps. -/
structure Coherent (setup : NodeSetup S) (trace : List (Transition (NodeState S) (NodeEvent S))) (s : NodeState S) :
    Prop where
  agree : s.shared.Agree
  traced : Traced setup trace s.shared

theorem Coherent.start : Coherent setup [] NodeState.start := ⟨.new, fun entry member => by cases member⟩

theorem Coherent.step {s s' : NodeState S} (coherent : Coherent setup trace s)
    (step : s.Step setup event s') : Coherent setup (trace ++ [⟨s, event, s'⟩]) s' :=
  ⟨step.effect.agree coherent.agree, coherent.traced.step coherent.agree step⟩

theorem Coherent.of_run {final : NodeState S} (run : Run (NodeState.Step setup) NodeState.start trace final) :
    Coherent setup trace final := by
  induction run with
  | start => exact .start
  | next _ taken ih => exact ih.step taken

end Origins

end MpcCoordinator.OnChain
