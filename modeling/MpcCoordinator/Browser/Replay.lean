import MpcCoordinator.Browser.Provenance

namespace MpcCoordinator

namespace NonceBook

variable (book : NonceBook)

/-- What the book holds for an identity in an execution. -/
def entries (e : ExecutionId) (c : ClientIdentity) : List (UInt64 × Vector UInt8 16) := (book.seen (e, c)).getD []

/-- A request with this timestamp is fresh at a reading of the clock. -/
def isFresh (created now : UInt64) : Bool := decide (Int.natAbs (now.toNat - created.toNat) ≤ nonceWindowSeconds)

/-- At a reading of the clock an entry with this timestamp is dropped. -/
def isExpired (created now : UInt64) : Bool := decide (nonceWindowSeconds < now.toNat - created.toNat)

variable {book} {e other : ExecutionId} {c identity : ClientIdentity} {created now : UInt64} {nonce : Vector UInt8 16}
  {entry : UInt64 × Vector UInt8 16}

/-- A request is not fresh any more once its entry is dropped. -/
theorem isFresh_of_isExpired (expired : isExpired created now = true) : isFresh created now = false := by
  have late := of_decide_eq_true expired
  refine decide_eq_false fun near => ?_
  unfold nonceWindowSeconds at late near
  omega

theorem isExpired_mono {later : UInt64} (expired : isExpired created now = true) (order : now ≤ later) :
    isExpired created later = true := by
  have late := of_decide_eq_true expired
  have order := UInt64.le_iff_toNat_le.mp order
  exact decide_eq_true (by omega)

theorem accept_stale (stale : isFresh created now = false) :
    book.accept e c created nonce now = (authError "request timestamp is outside the accepted window", book) :=
  if_pos (Nat.lt_of_not_le (of_decide_eq_false stale))

/-- An accepted request is fresh, and every earlier entry with its nonce is dropped for it. -/
theorem accept_ok (accepted : (book.accept e c created nonce now).1 = .ok ()) :
    isFresh created now = true ∧ (∀ earlier, (earlier, nonce) ∈ book.entries e c → isExpired earlier now = true) ∧
      (created, nonce) ∈ (book.accept e c created nonce now).2.entries e c := by
  unfold accept authError rpcError at accepted ⊢
  split at accepted
  · cases accepted
  rename_i fresh
  rw [if_neg fresh]
  dsimp only at accepted ⊢
  split at accepted
  · cases accepted
  rename_i unused
  rw [if_neg unused]
  refine ⟨decide_eq_true (Nat.le_of_not_lt fresh), ?_, ?_⟩
  · intro earlier held
    by_contra kept
    refine unused (List.any_eq_true.mpr ⟨(earlier, nonce), List.mem_filter.mpr ⟨held, ?_⟩, beq_self_eq_true nonce⟩)
    exact decide_eq_true (Nat.le_of_not_lt fun late => kept (decide_eq_true late))
  · simp [entries]

/-- An entry stays until a fresh request of its own identity finds it expired. -/
theorem mem_accept (held : entry ∈ book.entries other identity)
    (kept : (other, identity) = (e, c) → isFresh created now = true → isExpired entry.1 now = false) :
    entry ∈ (book.accept e c created nonce now).2.entries other identity := by
  cases fresh : isFresh created now with
  | false => rwa [accept_stale fresh]
  | true =>
    have near : ¬ nonceWindowSeconds < Int.natAbs (now.toNat - created.toNat) :=
      Nat.not_lt.mpr (of_decide_eq_true fresh)
    unfold accept
    rw [if_neg near]
    dsimp only
    by_cases same : (other, identity) = (e, c)
    · obtain ⟨rfl, rfl⟩ := Prod.mk.inj same
      have early := Nat.le_of_not_lt (of_decide_eq_false (kept rfl fresh))
      have retained : entry ∈ ((book.seen (other, identity)).getD []).filter fun entry =>
          decide (now.toNat - entry.1.toNat ≤ nonceWindowSeconds) :=
        List.mem_filter.mpr ⟨held, decide_eq_true early⟩
      split
      · simpa [entries] using retained
      · simpa [entries] using Or.inl retained
    · split <;> simpa only [entries, Table.insert_of_ne _ _ same] using held

end NonceBook

/-- The request holds a reading of the clock at which it is fresh, and repeats
an entry of the book. -/
def BrowserTask.repeats (e : ExecutionId) (c : ClientIdentity) (entry : UInt64 × Vector UInt8 16) : BrowserTask → Bool
  | .timed _ call nonce identity now =>
    decide (call.executionId = e ∧ identity = c ∧ (call.request.created, nonce) = entry) && NonceBook.isFresh entry.1 now
  | _ => false

namespace CoordinatorBrowserState

open NonceBook (isFresh isExpired)

variable (listener : CoordinatorListener) (s : CoordinatorBrowserState)

/-- The step drops an entry of the book that a request in flight repeats. -/
def dropsAwaited : ServerEvent → Bool
  | .acceptNonce _ call _ identity now => isFresh call.request.created now &&
    (s.nonces.entries call.executionId identity).any fun entry =>
      isExpired entry.1 now && s.inFlight.any (BrowserTask.repeats call.executionId identity entry)
  | _ => false

/-- The reading of the clock that a step is. -/
def readingOf : ServerEvent → Option UInt64
  | .readClock _ _ _ _ now => some now
  | _ => none

/-- The request for which `authenticate` returns in a step: its execution and
identity, its timestamp and nonce. -/
def acceptedIn (τ : Transition CoordinatorBrowserState ServerEvent) :
    Option ((ExecutionId × ClientIdentity) × UInt64 × Vector UInt8 16) :=
  match τ.event with
  | .acceptNonce _ call nonce identity now =>
    match (τ.source.nonces.accept call.executionId identity call.request.created nonce now).1 with
    | .ok () => some ((call.executionId, identity), call.request.created, nonce)
    | .error _ => none
  | _ => none

def readings (trace : List (Transition CoordinatorBrowserState ServerEvent)) : List UInt64 :=
  (trace.map Transition.event).filterMap readingOf

/-- The wall clock does not go backwards. -/
def ClockAdvances (trace : List (Transition CoordinatorBrowserState ServerEvent)) : Prop :=
  (readings trace).Pairwise (· ≤ ·)

def accepted (trace : List (Transition CoordinatorBrowserState ServerEvent)) :
    List ((ExecutionId × ClientIdentity) × UInt64 × Vector UInt8 16) := trace.filterMap acceptedIn

variable {listener s} {s' final : CoordinatorBrowserState} {event : ServerEvent}
  {trace : List (Transition CoordinatorBrowserState ServerEvent)} {e : ExecutionId} {c : ClientIdentity}
  {created now : UInt64} {nonce : Vector UInt8 16}

theorem acceptedIn_some {τ : Transition CoordinatorBrowserState ServerEvent}
    {key : (ExecutionId × ClientIdentity) × UInt64 × Vector UInt8 16} (accepts : acceptedIn τ = some key) :
    ∃ method call nonce identity now, τ.event = .acceptNonce method call nonce identity now ∧
      (τ.source.nonces.accept call.executionId identity call.request.created nonce now).1 = .ok () ∧
      key = ((call.executionId, identity), call.request.created, nonce) := by
  unfold acceptedIn at accepts
  split at accepts
  · rename_i method call nonce identity now same
    split at accepts
    · rename_i answered
      cases accepts
      exact ⟨method, call, nonce, identity, now, same, answered, rfl⟩
    · cases accepts
  · cases accepts

theorem readings_append (τ : Transition CoordinatorBrowserState ServerEvent) :
    readings (trace ++ [τ]) = readings trace ++ (readingOf τ.event).toList := by
  simp only [readings, List.map_append, List.filterMap_append, List.map_cons, List.map_nil]
  cases read : readingOf τ.event <;> simp [read]

theorem accepted_append (τ : Transition CoordinatorBrowserState ServerEvent) :
    accepted (trace ++ [τ]) = accepted trace ++ (acceptedIn τ).toList := by
  simp only [accepted, List.filterMap_append]
  cases accepts : acceptedIn τ <;> simp [accepts]

/-- Every request that has read the clock read it in a step. -/
theorem timed_read (run : Run (Step listener) start trace final) {method : BrowserMethod} {call : BrowserCall}
    (member : .timed method call nonce c now ∈ final.inFlight) : now ∈ readings trace := by
  induction run with
  | start => cases member
  | @next earlier current event after _ step ih =>
    rw [readings_append, List.mem_append]
    rcases step.arrives member with old | new
    · exact Or.inl (ih old)
    · cases new with
      | timed => exact Or.inr (by simp [readingOf])

/-- An accepted request is spent: its entry is in the book, or the clock has
passed its time and no request in flight repeats it. -/
def Spent (trace : List (Transition CoordinatorBrowserState ServerEvent)) (s : CoordinatorBrowserState)
    (key : (ExecutionId × ClientIdentity) × UInt64 × Vector UInt8 16) : Prop :=
  key.2 ∈ s.nonces.entries key.1.1 key.1.2 ∨
    (∃ reading ∈ readings trace, isExpired key.2.1 reading = true) ∧
      ∀ task ∈ s.inFlight, task.repeats key.1.1 key.1.2 key.2 = false

theorem repeats_of_drops {method : BrowserMethod} {call : BrowserCall} {entry : UInt64 × Vector UInt8 16}
    (guarded : s.dropsAwaited (.acceptNonce method call nonce c now) = false)
    (held : entry ∈ s.nonces.entries call.executionId c) (fresh : isFresh call.request.created now = true)
    (expired : isExpired entry.1 now = true) {task : BrowserTask} (member : task ∈ s.inFlight) :
    task.repeats call.executionId c entry = false := by
  simp only [dropsAwaited, fresh, Bool.true_and, List.any_eq_false] at guarded
  have spared := guarded entry held
  simp only [expired, Bool.true_and, List.any_eq_true, not_exists, not_and, Bool.not_eq_true] at spared
  exact spared task member

/-- An entry leaves the book only when nothing in flight repeats it, at a
reading of the clock at which it is expired. -/
theorem Spent.step_held {key : (ExecutionId × ClientIdentity) × UInt64 × Vector UInt8 16}
    (held : key.2 ∈ s.nonces.entries key.1.1 key.1.2) (run : Run (Step listener) start trace s)
    (step : s.Step listener event s') (guarded : s.dropsAwaited event = false) : Spent trace s' key := by
  obtain ⟨⟨e, c⟩, entry⟩ := key
  have moved := step.writes
  unfold Spent
  generalize s'.bindings = bindings, s'.nonces = nonces at moved ⊢
  cases moved with
  | nothing | session | pinned => exact Or.inl held
  | @checked method call nonce identity now =>
    by_cases dropped : (e, c) = (call.executionId, identity) ∧ isFresh call.request.created now = true ∧
        isExpired entry.1 now = true
    · obtain ⟨same, fresh, expired⟩ := dropped
      obtain ⟨rfl, rfl⟩ := Prod.mk.inj same
      refine Or.inr ⟨⟨now, timed_read run (step.in_flight rfl), expired⟩, fun task member => ?_⟩
      rcases step.arrives member with old | new
      · exact repeats_of_drops guarded held fresh expired old
      · cases new
        rfl
    · refine Or.inl (NonceBook.mem_accept held fun same fresh => ?_)
      exact Bool.eq_false_iff.mpr fun expired => dropped ⟨same, fresh, expired⟩

theorem Spent.step {key : (ExecutionId × ClientIdentity) × UInt64 × Vector UInt8 16} (spent : Spent trace s key)
    (run : Run (Step listener) start trace s) (step : s.Step listener event s')
    (guarded : s.dropsAwaited event = false) (clock : ClockAdvances (trace ++ [⟨s, event, s'⟩])) :
    Spent (trace ++ [⟨s, event, s'⟩]) s' key := by
  have longer : ∀ reading ∈ readings trace, reading ∈ readings (trace ++ [⟨s, event, s'⟩]) := by
    intro reading read
    rw [readings_append]
    exact List.mem_append_left _ read
  rcases spent with held | ⟨⟨reading, read, expired⟩, quiet⟩
  · rcases Spent.step_held held run step guarded with still | ⟨⟨reading, read, expired⟩, quiet⟩
    · exact Or.inl still
    · exact Or.inr ⟨⟨reading, longer reading read, expired⟩, quiet⟩
  · refine Or.inr ⟨⟨reading, longer reading read, expired⟩, fun task member => ?_⟩
    rcases step.arrives member with old | new
    · exact quiet task old
    · cases new with
      | @timed method call nonce identity now =>
        -- the reading comes after one at which the entry is expired
        rw [ClockAdvances, readings_append, List.pairwise_append] at clock
        have order := clock.2.2 reading read now (by simp [readingOf])
        have stale := NonceBook.isFresh_of_isExpired (NonceBook.isExpired_mono expired order)
        simp [BrowserTask.repeats, stale]
      | _ => rfl

/-- A spent request is not accepted. -/
theorem Spent.refused {key : (ExecutionId × ClientIdentity) × UInt64 × Vector UInt8 16} (spent : Spent trace s key)
    (step : s.Step listener event s') : acceptedIn ⟨s, event, s'⟩ ≠ some key := by
  intro accepts
  obtain ⟨method, call, nonce, identity, now, same, answered, rfl⟩ := acceptedIn_some accepts
  dsimp only at same answered
  subst same
  obtain ⟨fresh, unused, _⟩ := NonceBook.accept_ok answered
  rcases spent with held | ⟨_, quiet⟩
  · rw [NonceBook.isFresh_of_isExpired (unused _ held)] at fresh
    cases fresh
  · have repeats := quiet _ (step.in_flight rfl)
    simp [BrowserTask.repeats, fresh] at repeats

theorem Spent.of_accepted {key : (ExecutionId × ClientIdentity) × UInt64 × Vector UInt8 16}
    (step : s.Step listener event s') (accepts : acceptedIn ⟨s, event, s'⟩ = some key) : Spent trace s' key := by
  obtain ⟨method, call, nonce, identity, now, same, answered, rfl⟩ := acceptedIn_some accepts
  dsimp only at same answered
  subst same
  obtain ⟨_, _, stored⟩ := NonceBook.accept_ok answered
  refine Or.inl ?_
  rw [step.acceptNonce_tables.2]
  exact stored

theorem accepted_spent (run : Run (Step listener) start trace final) (clock : ClockAdvances trace)
    (guarded : ∀ τ ∈ trace, τ.source.dropsAwaited τ.event = false) :
    (accepted trace).Nodup ∧ ∀ key ∈ accepted trace, Spent trace final key := by
  induction run with
  | start => exact ⟨List.nodup_nil, nofun⟩
  | @next earlier current event after previous step ih =>
    have earlierClock : ClockAdvances earlier := by
      rw [ClockAdvances, readings_append, List.pairwise_append] at clock
      exact clock.1
    obtain ⟨distinct, spent⟩ := ih earlierClock fun τ member => guarded τ (List.mem_append_left _ member)
    have guard := guarded ⟨current, event, after⟩ (by simp)
    rw [accepted_append]
    constructor
    · refine List.nodup_append.mpr ⟨distinct, ?_, ?_⟩
      · cases acceptedIn ⟨current, event, after⟩ <;> simp
      · rintro key old _ new rfl
        exact (spent key old).refused step (Option.mem_toList.mp new)
    · intro key member
      rcases List.mem_append.mp member with old | new
      · exact (spent key old).step previous step guard clock
      · exact .of_accepted step (Option.mem_toList.mp new)

/-- No two requests with the same execution, identity, timestamp and nonce are
accepted: in every run in which the clock does not go backwards and no entry of
the book is dropped while a request that repeats it waits for the lock. -/
theorem accepted_at_most_once (run : Run (Step listener) start trace final) (clock : ClockAdvances trace)
    (guarded : ∀ τ ∈ trace, τ.source.dropsAwaited τ.event = false) : (accepted trace).Nodup :=
  (accepted_spent run clock guarded).1

section Runs

open Scenario

/-- A request is sent twice, and refused the second time. -/
def resent : List ServerEvent := opening .assigned ++ authenticate .reserveMaskIndices reserveCall 1

theorem accepted_at_most_once_of_resent :
    ∃ trace final, Run (Step .recorded) start trace final ∧ trace.map Transition.event = resent ∧
      final.inFlight = [] ∧ (accepted trace).Nodup := by
  obtain ⟨trace, final, run, events, idle, checked⟩ := exists_run_of_events .recorded resent
    (fun s event => !s.dropsAwaited event) (fun s => s.inFlight) [] (by decide +kernel)
  refine ⟨trace, final, run, events, idle, accepted_at_most_once run ?_ fun τ member => ?_⟩
  · rw [ClockAdvances, readings, events]
    decide
  · simpa using checked τ member

end Runs

end CoordinatorBrowserState

namespace Scenario

def pollBody : Bytes := utf8 "null"

def pollSignature : Bytes :=
  bytesOf 64 0xb7392d51fd4c8b2e1b3e271181baeb5585f757939152b539908843b9476ff7e6bc4b358a0820800dc8af9a1eadd52322d0418da7f1dd5727e4e76c78d8076148

/-- A request of the first session for the status, two minutes later. -/
def pollCall : BrowserCall :=
  ⟨execution, ⟨requestKey, 1700000121, List.replicate 16 3, pollSignature, pollBody, sessionToken⟩⟩

def pollMessage : Bytes :=
  bytesOf 181 0x73746f6666656c2d62726f777365722d7270632d617574680062726f777365725f657865637574696f6e5f73746174757300010101010101010101010101010101010101010101010101010101010101010179f15365000000000303030303030303030303030303030374234e98afe7498fb5daf1f36ac2d78acc339464f950703b8c019892f982b90b51554642515546425155464251554642515546425155464251554642515546425155464251554642515545

end Scenario

/-- The library functions, with the signature and the hash of one more request. -/
def Primitives.polled : Primitives :=
  { Primitives.recorded with
    VerifyingKey := Bytes
    Signature := Bytes
    keyFromSec1Bytes := Primitives.recorded.keyFromSec1Bytes
    signatureFromDer := Primitives.recorded.signatureFromDer
    signatureFromSlice := fun signature =>
      if signature = Scenario.pollSignature then some signature else Primitives.recorded.signatureFromSlice signature
    verify := fun key message signature =>
      decide ((key, message, signature) = (Scenario.requestKey, Scenario.pollMessage, Scenario.pollSignature)) ||
        Primitives.recorded.verify key message signature
    sha256 := fun input =>
      if input = Scenario.pollBody then
        Scenario.digest 0x74234e98afe7498fb5daf1f36ac2d78acc339464f950703b8c019892f982b90b
      else Primitives.recorded.sha256 input }

def CoordinatorListener.polled : CoordinatorListener := { CoordinatorListener.recorded with primitives := .polled }

namespace CoordinatorBrowserState

section Runs

open Scenario

/-- A request is accepted. Its copy reads the clock in the last second of its
window, and a later request takes the lock before the copy does. -/
def overtaken : List ServerEvent :=
  opening .assigned ++ [.identify .reserveMaskIndices reserveCall,
    .readClock .reserveMaskIndices reserveCall (Vector.replicate 16 1) client 1700000120,
    .identify .executionStatus pollCall,
    .readClock .executionStatus pollCall (Vector.replicate 16 3) client 1700000121,
    .acceptNonce .executionStatus pollCall (Vector.replicate 16 3) client 1700000121,
    .acceptNonce .reserveMaskIndices reserveCall (Vector.replicate 16 1) client 1700000120]

/-- The copy is accepted as well, although the clock never goes backwards. -/
theorem overtaken_copy_accepted :
    ∃ trace final, Run (Step .polled) start trace final ∧ trace.map Transition.event = overtaken ∧ ClockAdvances trace ∧
      accepted trace = [((execution, client), 1700000000, Vector.replicate 16 1),
        ((execution, client), 1700000121, Vector.replicate 16 3),
        ((execution, client), 1700000000, Vector.replicate 16 1)] := by
  obtain ⟨trace, final, run, events, accepts⟩ := exists_run_of_trail .polled overtaken
    (fun trace => accepted trace = [((execution, client), 1700000000, Vector.replicate 16 1),
      ((execution, client), 1700000121, Vector.replicate 16 3),
      ((execution, client), 1700000000, Vector.replicate 16 1)]) (by decide +kernel) (by decide +kernel)
  refine ⟨trace, final, run, events, ?_, accepts⟩
  rw [ClockAdvances, readings, events]
  decide

end Runs

end CoordinatorBrowserState

end MpcCoordinator
