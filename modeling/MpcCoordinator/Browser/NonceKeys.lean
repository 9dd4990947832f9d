import MpcCoordinator.Browser.Authentication
import MpcCoordinator.Browser.Replay
import Mathlib.Algebra.Order.BigOperators.Group.Finset
import Mathlib.Data.Set.Card

namespace MpcCoordinator

namespace NonceBook

/-- The keys under which the book holds an entry, empty ones included. -/
def keys (book : NonceBook) : Set (ExecutionId × ClientIdentity) := {key | (book.seen key).isSome}

variable {book : NonceBook} {e : ExecutionId} {c : ClientIdentity} {created now : UInt64} {nonce : Vector UInt8 16}

/-- A request leaves a key behind whenever it is fresh, accepted or not. -/
theorem keys_accept_fresh (fresh : isFresh created now = true) :
    (book.accept e c created nonce now).2.keys = insert (e, c) book.keys := by
  have near : ¬ nonceWindowSeconds < Int.natAbs (now.toNat - created.toNat) :=
    Nat.not_lt.mpr (of_decide_eq_true fresh)
  unfold accept
  rw [if_neg near]
  dsimp only
  ext key
  by_cases same : key = (e, c)
  · split <;> simp [keys, same]
  · split <;> simp [keys, same, Table.insert_of_ne _ _ same]

theorem keys_accept_stale (stale : isFresh created now = false) :
    (book.accept e c created nonce now).2.keys = book.keys := by
  rw [accept_stale stale]

end NonceBook

namespace CoordinatorExecutionState

/-- The roster of an execution is the one it was registered with. -/
theorem Coherent.candidates_eq {registration : ExecutionRegistration} {d : CoordinatorExecutionState}
    (coherent : Coherent registration d) : d.candidates = (CoordinatorExecutionState.fresh registration).candidates := by
  unfold candidates inputSlotClient
  rw [coherent.registration_eq, coherent.inputAssignments_eq, coherent.outputClients_eq]
  rfl

end CoordinatorExecutionState

namespace CoordinatorBrowserState

open NonceBook (isFresh)

/-- The key that a step looks up in the book. -/
def keyOf : ServerEvent → Option (ExecutionId × ClientIdentity)
  | .acceptNonce _ call _ identity now =>
    if isFresh call.request.created now then some (call.executionId, identity) else none
  | _ => none

/-- The execution that a step registers, with the clients on its roster. -/
def rosterIn (τ : Transition CoordinatorBrowserState ServerEvent) : Option (ExecutionId × Finset ClientIdentity) :=
  match τ.event with
  | .register _ registration _ =>
    if (τ.source.live registration.executionId).isSome then none
    else (τ.target.live registration.executionId).map fun d => (registration.executionId, d.candidates)
  | _ => none

def rosters (trace : List (Transition CoordinatorBrowserState ServerEvent)) :
    List (ExecutionId × Finset ClientIdentity) := trace.filterMap rosterIn

/-- The executions that have been registered. -/
def registeredIn (trace : List (Transition CoordinatorBrowserState ServerEvent)) : Finset ExecutionId :=
  ((rosters trace).map Prod.fst).toFinset

/-- The clients that an execution has been registered with. -/
def rosterOf (trace : List (Transition CoordinatorBrowserState ServerEvent)) (e : ExecutionId) : Finset ClientIdentity :=
  ((rosters trace).filter fun entry => decide (entry.1 = e)).toFinset.biUnion Prod.snd

/-- The execution has been registered, and the client is on its roster. -/
def OnRoster (trace : List (Transition CoordinatorBrowserState ServerEvent)) (key : ExecutionId × ClientIdentity) :
    Prop :=
  key.1 ∈ registeredIn trace ∧ key.2 ∈ rosterOf trace key.1

instance (trace : List (Transition CoordinatorBrowserState ServerEvent)) (key : ExecutionId × ClientIdentity) :
    Decidable (OnRoster trace key) :=
  inferInstanceAs (Decidable (_ ∧ _))

/-- Everything the book tracks is on the roster of a registered execution. -/
def NoncesOnRoster (trace : List (Transition CoordinatorBrowserState ServerEvent)) (s : CoordinatorBrowserState) : Prop :=
  ∀ key ∈ s.nonces.keys, OnRoster trace key

variable {listener : CoordinatorListener} {s s' final : CoordinatorBrowserState} {event : ServerEvent}
  {trace : List (Transition CoordinatorBrowserState ServerEvent)} {e : ExecutionId} {c : ClientIdentity}
  {key : ExecutionId × ClientIdentity}

theorem keyOf_some (looks : keyOf event = some key) :
    ∃ method call nonce now, event = .acceptNonce method call nonce key.2 now ∧ call.executionId = key.1 := by
  unfold keyOf at looks
  split at looks
  · rename_i method call nonce identity now
    split at looks
    · cases looks
      exact ⟨method, call, nonce, now, rfl, rfl⟩
    · cases looks
  · cases looks

theorem mem_rosterOf : c ∈ rosterOf trace e ↔ ∃ roster, (e, roster) ∈ rosters trace ∧ c ∈ roster := by
  simp only [rosterOf, Finset.mem_biUnion, List.mem_toFinset, List.mem_filter, decide_eq_true_eq, Prod.exists]
  constructor
  · rintro ⟨_, roster, ⟨member, rfl⟩, inside⟩
    exact ⟨roster, member, inside⟩
  · rintro ⟨roster, member, inside⟩
    exact ⟨e, roster, ⟨member, rfl⟩, inside⟩

theorem onRoster_iff : OnRoster trace key ↔ ∃ roster, (key.1, roster) ∈ rosters trace ∧ key.2 ∈ roster := by
  unfold OnRoster
  rw [mem_rosterOf, and_iff_right_of_imp]
  rintro ⟨roster, member, _⟩
  exact List.mem_toFinset.mpr (List.mem_map_of_mem (f := Prod.fst) member)

theorem OnRoster.append (known : OnRoster trace key) (rest : List (Transition CoordinatorBrowserState ServerEvent)) :
    OnRoster (trace ++ rest) key := by
  obtain ⟨roster, member, inside⟩ := onRoster_iff.mp known
  exact onRoster_iff.mpr ⟨roster, by simp only [rosters, List.filterMap_append]; exact List.mem_append_left _ member,
    inside⟩

/-- A step that looks a nonce up registers nothing. -/
theorem onRoster_lookup {τ : Transition CoordinatorBrowserState ServerEvent} {stored : ExecutionId × ClientIdentity}
    (looks : keyOf τ.event = some stored) : OnRoster (trace ++ [τ]) key ↔ OnRoster trace key := by
  have aside : rosterIn τ = none := by
    unfold rosterIn
    split
    · rename_i registers
      rw [registers] at looks
      cases looks
    · rfl
  simp only [onRoster_iff, rosters, List.filterMap_append, List.filterMap_cons, aside, List.filterMap_nil,
    List.append_nil]

theorem rosters_append (τ : Transition CoordinatorBrowserState ServerEvent) :
    rosters (trace ++ [τ]) = rosters trace ++ (rosterIn τ).toList := by
  simp only [rosters, List.filterMap_append]
  cases registers : rosterIn τ <;> simp [registers]

/-- The roster of a live execution is that of a registration. -/
theorem live_rostered {d : CoordinatorExecutionState} (run : Run (Step listener) start trace final)
    (here : final.live e = some d) : (e, d.candidates) ∈ rosters trace := by
  induction run generalizing d with
  | start => cases here
  | @next earlier current event after previous step ih =>
    rw [rosters_append, List.mem_append]
    have seen := step.seen e
    generalize present : current.live e = before at seen
    rw [here] at seen
    cases seen with
    | untouched => exact Or.inl (ih present)
    | @called d₀ _ _ _ moved =>
      obtain ⟨registration, initial, _, admitted, calls⟩ := exists_run_on previous present
      have coherent := CoordinatorExecutionState.Coherent.of_run admitted calls
      rw [(coherent.step moved).candidates_eq, ← coherent.candidates_eq]
      exact Or.inl (ih present)
    | created registers named admitted =>
      subst named
      have registers : event = _ := registers
      subst registers
      exact Or.inr (by simp [rosterIn, present, here])

/-- The book gains the key that is looked up, and never loses one. -/
theorem Step.nonces_keys (step : s.Step listener event s') :
    s'.nonces.keys = {key | keyOf event = some key} ∪ s.nonces.keys := by
  by_cases looks : ∃ method call nonce identity now, event = .acceptNonce method call nonce identity now
  · obtain ⟨method, call, nonce, identity, now, rfl⟩ := looks
    rw [step.acceptNonce_tables.2]
    cases fresh : isFresh call.request.created now with
    | true =>
      rw [NonceBook.keys_accept_fresh fresh, Set.insert_eq]
      simp [keyOf, fresh]
    | false =>
      rw [NonceBook.keys_accept_stale fresh]
      simp [keyOf, fresh]
  · have same : s'.nonces = s.nonces := by
      have moved := step.writes
      generalize s'.bindings = bindings, s'.nonces = nonces at moved
      cases moved with
      | nothing | session | pinned => rfl
      | checked => exact absurd ⟨_, _, _, _, _, rfl⟩ looks
    have keyless : keyOf event = none := by
      unfold keyOf
      split
      · exact absurd ⟨_, _, _, _, _, rfl⟩ looks
      · rfl
    simp [same, keyless]

/-- The keys of the book are those that were looked up. -/
theorem mem_nonces_keys (run : Run (Step listener) start trace final) :
    key ∈ final.nonces.keys ↔ ∃ τ ∈ trace, keyOf τ.event = some key := by
  induction run with
  | start => simp [start, NonceBook.keys, NonceBook.empty, Table.empty]
  | @next earlier current event after _ step ih =>
    rw [step.nonces_keys, Set.mem_union, Set.mem_ofPred_eq, ih]
    simp only [List.mem_append, List.mem_singleton]
    constructor
    · rintro (new | ⟨τ, member, looks⟩)
      · exact ⟨_, Or.inr rfl, new⟩
      · exact ⟨τ, Or.inl member, looks⟩
    · rintro ⟨τ, member | rfl, looks⟩
      · exact Or.inr ⟨τ, member, looks⟩
      · exact Or.inl looks

/-- Whatever execution a request names, its client is on the roster of one that
has been registered: the one that its session was bound in. -/
theorem nonce_client_rostered (run : Run (Step listener) start trace final) (stored : key ∈ final.nonces.keys) :
    ∃ e, OnRoster trace (e, key.2) := by
  obtain ⟨τ, member, looks⟩ := (mem_nonces_keys run).mp stored
  obtain ⟨before, after, rfl, first, step, _⟩ := run.split member
  obtain ⟨_, _, _, _, same, _⟩ := keyOf_some looks
  rw [same] at step
  obtain ⟨_, early, issue, rest, request, begun, _, _, σ, checked, _, _, d, _, here, admitted, _⟩ :=
    Step.bound_of_acceptNonce first step
  obtain ⟨opened, between, rfl, reaching, _⟩ := first.split (τ := σ) (by simp [begun, checked])
  have rostered : OnRoster opened (request.executionId, key.2) :=
    onRoster_iff.mpr ⟨d.candidates, live_rostered reaching here, CoordinatorExecutionState.mem_candidates.mpr admitted⟩
  exact ⟨request.executionId, by simpa using rostered.append (σ :: between ++ τ :: after)⟩

/-- What is tracked on rosters is no more than the rosters hold. -/
theorem NoncesOnRoster.encard_le (rostered : NoncesOnRoster trace s) :
    s.nonces.keys.encard ≤ ∑ e ∈ registeredIn trace, (rosterOf trace e).card := by
  let listed := (registeredIn trace).biUnion fun e => (rosterOf trace e).image (Prod.mk e)
  have inside : s.nonces.keys ⊆ listed := by
    rintro ⟨e, c⟩ member
    obtain ⟨registered, client⟩ := rostered _ member
    exact Finset.mem_coe.mpr (Finset.mem_biUnion.mpr ⟨e, registered, Finset.mem_image_of_mem _ client⟩)
  have size : listed.card ≤ ∑ e ∈ registeredIn trace, (rosterOf trace e).card :=
    Finset.card_biUnion_le.trans (Finset.sum_le_sum fun e _ => Finset.card_image_le)
  calc s.nonces.keys.encard ≤ (listed : Set (ExecutionId × ClientIdentity)).encard := Set.encard_le_encard inside
    _ = listed.card := Set.encard_coe_eq_coe_finsetCard listed
    _ ≤ _ := by exact_mod_cast size

/-- Throughout a run the book tracks only clients on the roster of a registered
execution exactly when every nonce it looks up is for one; the number of keys
is then at most the total size of the rosters. In any case the clients it tracks
are on the roster of some registered execution. -/
theorem nonces_on_roster_iff (run : Run (Step listener) start trace final) :
    ((∀ before after s, trace = before ++ after → Run (Step listener) start before s → NoncesOnRoster before s) ↔
      ∀ before τ after key, trace = before ++ τ :: after → keyOf τ.event = some key → OnRoster before key) ∧
    (∀ before after s, trace = before ++ after → Run (Step listener) start before s → NoncesOnRoster before s →
      s.nonces.keys.encard ≤ ∑ e ∈ registeredIn before, (rosterOf before e).card) ∧
    ∀ key ∈ final.nonces.keys, ∃ e, OnRoster trace (e, key.2) := by
  refine ⟨⟨?_, ?_⟩, fun before after s _ _ rostered => rostered.encard_le, fun key => nonce_client_rostered run⟩
  · intro always before τ after key same looks
    obtain ⟨first, step, _⟩ := run.split_at same
    have stored : key ∈ τ.target.nonces.keys := (mem_nonces_keys (first.next step)).mpr ⟨τ, by simp, looks⟩
    have known := always (before ++ [τ]) after τ.target (by simp [same]) (first.next step) key stored
    exact (onRoster_lookup looks).mp known
  · rintro guarded before after s rfl first key stored
    obtain ⟨τ, member, looks⟩ := (mem_nonces_keys first).mp stored
    obtain ⟨earlier, later, rfl⟩ := List.append_of_mem member
    exact (guarded earlier τ (later ++ after) key (by simp) looks).append _

/-- The guard of a run, as a test of its steps. -/
def checksLookups (steps : List (Transition CoordinatorBrowserState ServerEvent)) : Bool :=
  (List.range steps.length).all fun i => ((steps[i]?).bind fun τ => keyOf τ.event).all fun key =>
    decide (OnRoster (steps.take i) key)

theorem onRoster_of_checksLookups {steps : List (Transition CoordinatorBrowserState ServerEvent)}
    (checked : checksLookups steps = true) :
    ∀ before τ after key, steps = before ++ τ :: after → keyOf τ.event = some key → OnRoster before key := by
  rintro before τ after key rfl looks
  have tested := List.all_eq_true.mp checked before.length (by simp)
  simpa [looks] using tested

section Runs

open Scenario

/-- A browser client reserves with its session, in the execution it bound it in. -/
theorem nonces_on_roster_of_browser_client :
    ∃ trace final, Run (Step .recorded) start trace final ∧ trace.map Transition.event = opening .assigned ∧
      (execution, client) ∈ final.nonces.keys ∧ NoncesOnRoster trace final ∧ final.nonces.keys.encard ≤ 1 := by
  obtain ⟨trace, final, run, events, tracked, guarded, size⟩ := exists_run_of_trail .recorded (opening .assigned)
    (fun trace => (∃ τ ∈ trace, keyOf τ.event = some (execution, client)) ∧ checksLookups trace = true ∧
      ∑ e ∈ registeredIn trace, (rosterOf trace e).card = 1) (by decide +kernel) (by decide +kernel)
  have rostered := (nonces_on_roster_iff run).1.mpr (onRoster_of_checksLookups guarded) trace [] final (by simp) run
  have bound := (nonces_on_roster_iff run).2.1 trace [] final (by simp) run rostered
  rw [size] at bound
  exact ⟨trace, final, run, events, (mem_nonces_keys run).mpr tracked, rostered, bound⟩

end Runs

end CoordinatorBrowserState

namespace Scenario

/-- An id under which nothing is ever registered. -/
def strayExecution : ExecutionId := ⟨Vector.replicate 32 2⟩

def straySignature : Bytes :=
  bytesOf 64 0xc9741d885a5bea0bcb4fd602d8812716c01d359750cafd4932a199deea960cbe46c8390710563919708a350720d791d647e32f247694faae9cc648c81090cddc

/-- A request of the first session for the status of that id. -/
def strayCall : BrowserCall :=
  ⟨strayExecution, ⟨requestKey, 1700000000, List.replicate 16 4, straySignature, pollBody, sessionToken⟩⟩

def strayMessage : Bytes :=
  bytesOf 181 0x73746f6666656c2d62726f777365722d7270632d617574680062726f777365725f657865637574696f6e5f73746174757300020202020202020202020202020202020202020202020202020202020202020200f15365000000000404040404040404040404040404040474234e98afe7498fb5daf1f36ac2d78acc339464f950703b8c019892f982b90b51554642515546425155464251554642515546425155464251554642515546425155464251554642515545

end Scenario

/-- The library functions, with the signature of that request. -/
def Primitives.strayed : Primitives :=
  { Primitives.polled with
    VerifyingKey := Bytes
    Signature := Bytes
    keyFromSec1Bytes := Primitives.polled.keyFromSec1Bytes
    signatureFromDer := Primitives.polled.signatureFromDer
    signatureFromSlice := fun signature =>
      if signature = Scenario.straySignature then some signature else Primitives.polled.signatureFromSlice signature
    verify := fun key message signature =>
      decide ((key, message, signature) = (Scenario.requestKey, Scenario.strayMessage, Scenario.straySignature)) ||
        Primitives.polled.verify key message signature }

def CoordinatorListener.strayed : CoordinatorListener := { CoordinatorListener.recorded with primitives := .strayed }

namespace CoordinatorBrowserState

section Runs

open Scenario

/-- A client asks with its session for the status of an id that is not registered. -/
def straying : List ServerEvent := opening .assigned ++ authenticate .executionStatus strayCall 4

/-- The book tracks the request under that id, and has more keys than the one
registered execution has clients. -/
theorem stray_request_tracked :
    ∃ trace final, Run (Step .strayed) start trace final ∧ trace.map Transition.event = straying ∧
      (strayExecution, client) ∈ final.nonces.keys ∧ registeredIn trace = {execution} ∧
      ∑ e ∈ registeredIn trace, (rosterOf trace e).card < final.nonces.keys.encard := by
  obtain ⟨trace, final, run, events, tracked, stray, registered, size⟩ := exists_run_of_trail .strayed straying
    (fun trace => (∃ τ ∈ trace, keyOf τ.event = some (execution, client)) ∧
      (∃ τ ∈ trace, keyOf τ.event = some (strayExecution, client)) ∧ registeredIn trace = {execution} ∧
      ∑ e ∈ registeredIn trace, (rosterOf trace e).card = 1) (by decide +kernel) (by decide +kernel)
  have stray := (mem_nonces_keys run).mpr stray
  have both : {(execution, client), (strayExecution, client)} ⊆ final.nonces.keys :=
    Set.insert_subset ((mem_nonces_keys run).mpr tracked) (Set.singleton_subset_iff.mpr stray)
  have two := Set.encard_le_encard both
  rw [Set.encard_pair (by decide)] at two
  refine ⟨trace, final, run, events, stray, registered, lt_of_lt_of_le ?_ two⟩
  rw [size]
  decide

end Runs

end CoordinatorBrowserState

end MpcCoordinator
