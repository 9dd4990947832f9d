import MpcCoordinator.Browser.Replay

namespace MpcCoordinator

/-- One call of `accept`. -/
structure NonceCall where
  executionId : ExecutionId
  identity : ClientIdentity
  created : UInt64
  nonce : Vector UInt8 16
  now : UInt64
  deriving DecidableEq, Repr

namespace NonceCall

def key (call : NonceCall) : ExecutionId × ClientIdentity := (call.executionId, call.identity)

def entry (call : NonceCall) : UInt64 × Vector UInt8 16 := (call.created, call.nonce)

/-- What a call has to find, given the calls that succeeded before it: its own
timestamp is near the clock, and those with its key and nonce have left the window. -/
def Allowed (call : NonceCall) (successes : List NonceCall) : Prop :=
  Int.natAbs (call.now.toNat - call.created.toNat) ≤ nonceWindowSeconds ∧
    ∀ earlier ∈ successes, earlier.key = call.key → earlier.nonce = call.nonce →
      ¬ call.now.toNat - earlier.created.toNat ≤ nonceWindowSeconds

/-- The clock readings of a sequence of calls do not go backwards. -/
def Ordered (calls : List NonceCall) : Prop := calls.Pairwise fun call later => call.now ≤ later.now

end NonceCall

namespace NonceBook

variable {book : NonceBook} {call : NonceCall} {e : ExecutionId} {c : ClientIdentity}
  {entry : UInt64 × Vector UInt8 16}

def answer (book : NonceBook) (call : NonceCall) : RpcResult Unit × NonceBook :=
  book.accept call.executionId call.identity call.created call.nonce call.now

/-- A call, with the calls that succeeded so far. -/
def serve (state : NonceBook × List NonceCall) (call : NonceCall) : NonceBook × List NonceCall :=
  match state.1.answer call with
  | (.ok (), book) => (book, state.2 ++ [call])
  | (.error _, book) => (book, state.2)

/-- The book after a sequence of calls on an empty one, and those of them that succeeded. -/
def replay (calls : List NonceCall) : NonceBook × List NonceCall := calls.foldl serve (empty, [])

def successes (calls : List NonceCall) : List NonceCall := (replay calls).2

/-- A call succeeds after others. -/
def Accepts (before : List NonceCall) (call : NonceCall) : Prop := ((replay before).1.answer call).1 = .ok ()

theorem serve_fst (state : NonceBook × List NonceCall) : (serve state call).1 = (state.1.answer call).2 := by
  unfold serve
  split <;> rename_i answered <;> rw [answered]

theorem serve_snd_of_ok {state : NonceBook × List NonceCall} (accepted : (state.1.answer call).1 = .ok ()) :
    (serve state call).2 = state.2 ++ [call] := by
  unfold serve
  split <;> rename_i answered
  · rfl
  · rw [answered] at accepted
    cases accepted

theorem serve_snd_of_error {state : NonceBook × List NonceCall} (refused : (state.1.answer call).1 ≠ .ok ()) :
    (serve state call).2 = state.2 := by
  unfold serve
  split <;> rename_i answered
  · rw [answered] at refused
    exact absurd rfl refused
  · rfl

theorem replay_append (before : List NonceCall) (call : NonceCall) :
    replay (before ++ [call]) = serve (replay before) call := by
  simp only [replay, List.foldl_append, List.foldl_cons, List.foldl_nil]

theorem successes_of_accepts {before : List NonceCall} (accepted : Accepts before call) :
    successes (before ++ [call]) = successes before ++ [call] := by
  rw [successes, replay_append, serve_snd_of_ok accepted]
  rfl

theorem successes_of_not_accepts {before : List NonceCall} (refused : ¬ Accepts before call) :
    successes (before ++ [call]) = successes before := by
  rw [successes, replay_append, serve_snd_of_error refused]
  rfl

/-- A call succeeds iff it is fresh and finds no entry with its nonce in the window. -/
theorem answer_ok_iff : (book.answer call).1 = .ok () ↔ isFresh call.created call.now = true ∧
    ∀ earlier, (earlier, call.nonce) ∈ book.entries call.executionId call.identity →
      isExpired earlier call.now = true := by
  constructor
  · intro accepted
    obtain ⟨fresh, expired, _⟩ := accept_ok accepted
    exact ⟨fresh, expired⟩
  · rintro ⟨fresh, expired⟩
    have near : ¬ nonceWindowSeconds < Int.natAbs (call.now.toNat - call.created.toNat) :=
      Nat.not_lt.mpr (of_decide_eq_true fresh)
    unfold answer accept
    rw [if_neg near]
    dsimp only
    rw [if_neg]
    rintro used
    obtain ⟨⟨earlier, nonce⟩, kept, same⟩ := List.any_eq_true.mp used
    obtain ⟨held, early⟩ := List.mem_filter.mp kept
    obtain rfl := eq_of_beq same
    exact Nat.not_lt.mpr (of_decide_eq_true early) (of_decide_eq_true (expired earlier held))

/-- Nothing else enters the book than the entry of a call that succeeds. -/
theorem mem_entries_of_answer (held : entry ∈ (book.answer call).2.entries e c) :
    entry ∈ book.entries e c ∨ (book.answer call).1 = .ok () ∧ (e, c) = call.key ∧ entry = call.entry := by
  unfold answer accept at held ⊢
  split at held
  · exact .inl held
  rename_i near
  rw [if_neg near]
  by_cases same : (e, c) = call.key
  · obtain ⟨rfl, rfl⟩ := Prod.mk.inj same
    dsimp only at held ⊢
    split at held
    · simp only [entries, Table.insert_self, Option.getD_some] at held
      exact .inl (List.mem_of_mem_filter held)
    · rename_i unused
      rw [if_neg unused]
      simp only [entries, Table.insert_self, Option.getD_some] at held
      rcases List.mem_append.mp held with old | new
      · exact .inl (List.mem_of_mem_filter old)
      · exact .inr ⟨rfl, rfl, List.mem_singleton.mp new⟩
  · refine .inl ?_
    dsimp only at held
    have apart : (e, c) ≠ (call.executionId, call.identity) := same
    split at held <;> simpa only [entries, Table.insert_of_ne _ _ apart] using held

/-- At a reading of the clock, the book holds entries of calls that succeeded,
and all of those that have not expired. -/
structure Tracks (book : NonceBook) (successes : List NonceCall) (now : UInt64) : Prop where
  recorded : ∀ e c entry, entry ∈ book.entries e c → ∃ earlier ∈ successes, earlier.key = (e, c) ∧ earlier.entry = entry
  kept : ∀ earlier ∈ successes,
    earlier.entry ∈ book.entries earlier.executionId earlier.identity ∨ isExpired earlier.created now = true

variable {history : List NonceCall} {now later : UInt64}

theorem Tracks.mono (tracks : Tracks book history now) (order : now ≤ later) : Tracks book history later :=
  ⟨tracks.recorded, fun earlier member => (tracks.kept earlier member).imp_right fun expired => isExpired_mono expired order⟩

/-- So a call is answered as the calls that succeeded before it demand. -/
theorem Tracks.answer_iff (tracks : Tracks book history call.now) :
    (book.answer call).1 = .ok () ↔ call.Allowed history := by
  rw [answer_ok_iff]
  refine and_congr decide_eq_true_iff ⟨fun expired earlier member same nonces => ?_, fun passed created held => ?_⟩
  · obtain ⟨ids, clients⟩ := Prod.mk.inj same
    have gone : isExpired earlier.created call.now = true := by
      rcases tracks.kept earlier member with held | gone
      · refine expired earlier.created ?_
        rwa [NonceCall.entry, nonces, ids, clients] at held
      · exact gone
    exact Nat.not_le.mpr (of_decide_eq_true gone)
  · obtain ⟨earlier, member, same, stored⟩ := tracks.recorded _ _ _ held
    obtain ⟨rfl, nonces⟩ := Prod.mk.inj stored
    exact decide_eq_true (Nat.not_le.mp (passed earlier member same nonces))

theorem Tracks.serve (tracks : Tracks book history call.now) :
    Tracks (serve (book, history) call).1 (serve (book, history) call).2 call.now := by
  have stays : ∀ earlier ∈ history, earlier.entry ∈ (book.answer call).2.entries earlier.executionId earlier.identity ∨
      isExpired earlier.created call.now = true := by
    intro earlier member
    rcases tracks.kept earlier member with held | expired
    · cases late : isExpired earlier.created call.now with
      | true => exact .inr rfl
      | false => exact .inl (mem_accept held fun _ _ => late)
    · exact .inr expired
  rw [serve_fst]
  by_cases accepted : (book.answer call).1 = .ok ()
  · rw [serve_snd_of_ok accepted]
    constructor
    · intro e c entry held
      rcases mem_entries_of_answer held with old | ⟨_, key, new⟩
      · obtain ⟨earlier, member, same⟩ := tracks.recorded e c entry old
        exact ⟨earlier, List.mem_append_left _ member, same⟩
      · exact ⟨call, by simp, key.symm, new.symm⟩
    · intro earlier member
      rcases List.mem_append.mp member with old | new
      · exact stays earlier old
      · obtain rfl := List.mem_singleton.mp new
        exact .inl (accept_ok accepted).2.2
  · rw [serve_snd_of_error accepted]
    refine ⟨fun e c entry held => ?_, stays⟩
    rcases mem_entries_of_answer held with old | ⟨new, _⟩
    · exact tracks.recorded e c entry old
    · exact absurd new accepted

/-- The book after any sequence of calls in the order of the clock. -/
theorem tracks_replay {calls : List NonceCall} (order : NonceCall.Ordered calls) (past : ∀ call ∈ calls, call.now ≤ now) :
    Tracks (replay calls).1 (successes calls) now := by
  induction calls using List.reverseRecOn generalizing now with
  | nil =>
    constructor
    · intro e c entry held
      cases held
    · intro earlier member
      cases member
  | append_singleton before call ih =>
    obtain ⟨earlier, _, ordered⟩ := List.pairwise_append.mp order
    have tracks := ih earlier fun previous member => ordered previous member call (List.mem_singleton_self call)
    rw [successes, replay_append]
    exact tracks.serve.mono (past call (by simp))

theorem accepts_iff {before : List NonceCall} (order : NonceCall.Ordered (before ++ [call])) :
    Accepts before call ↔ call.Allowed (successes before) := by
  obtain ⟨earlier, _, ordered⟩ := List.pairwise_append.mp order
  exact (tracks_replay earlier fun previous member => ordered previous member call (List.mem_singleton_self call)).answer_iff

/-- Only the calls that succeeded with the same key matter. -/
theorem allowed_filter {successes : List NonceCall} :
    call.Allowed (successes.filter fun earlier => decide (earlier.key = call.key)) ↔ call.Allowed successes := by
  refine and_congr_right fun _ => ⟨fun passed earlier member same => ?_, fun passed earlier member => ?_⟩
  · exact passed earlier (List.mem_filter.mpr ⟨member, decide_eq_true same⟩) same
  · exact passed earlier (List.mem_of_mem_filter member)

/-- A call that failed might as well not have been made. -/
theorem successes_without_failed {first rest : List NonceCall} {failed : NonceCall}
    (order : NonceCall.Ordered (first ++ failed :: rest)) (refused : ¬ Accepts first failed) :
    successes (first ++ failed :: rest) = successes (first ++ rest) := by
  induction rest using List.reverseRecOn with
  | nil => rw [List.append_nil, successes_of_not_accepts refused]
  | append_singleton rest call ih =>
    have shorter : (first ++ (rest ++ [call])).Sublist (first ++ failed :: (rest ++ [call])) :=
      (List.sublist_cons_self failed _).append_left first
    have whole : first ++ failed :: (rest ++ [call]) = first ++ failed :: rest ++ [call] := by simp
    rw [whole] at order shorter ⊢
    rw [← List.append_assoc] at shorter ⊢
    have same := ih (List.pairwise_append.mp order).1
    have answers : Accepts (first ++ failed :: rest) call ↔ Accepts (first ++ rest) call := by
      rw [accepts_iff order, accepts_iff (order.sublist shorter), same]
    by_cases accepted : Accepts (first ++ rest) call
    · rw [successes_of_accepts accepted, successes_of_accepts (answers.mpr accepted), same]
    · rw [successes_of_not_accepts accepted, successes_of_not_accepts (answers.not.mpr accepted), same]

/-- The calls with one key are answered as if they were the only ones. -/
theorem successes_filter {calls : List NonceCall} (key : ExecutionId × ClientIdentity) (order : NonceCall.Ordered calls) :
    successes (calls.filter fun call => decide (call.key = key)) =
      (successes calls).filter fun call => decide (call.key = key) := by
  induction calls using List.reverseRecOn with
  | nil => rfl
  | append_singleton before call ih =>
    have same := ih (List.pairwise_append.mp order).1
    by_cases mine : call.key = key
    · subst mine
      have split : (before ++ [call]).filter (fun earlier => decide (earlier.key = call.key)) =
          before.filter (fun earlier => decide (earlier.key = call.key)) ++ [call] := by simp
      have ordered : NonceCall.Ordered (before.filter (fun earlier => decide (earlier.key = call.key)) ++ [call]) :=
        split ▸ order.sublist List.filter_sublist
      have answers : Accepts (before.filter fun earlier => decide (earlier.key = call.key)) call ↔ Accepts before call := by
        rw [accepts_iff ordered, accepts_iff order, same, allowed_filter]
      rw [split]
      by_cases accepted : Accepts before call
      · rw [successes_of_accepts accepted, successes_of_accepts (answers.mpr accepted), same]
        simp
      · rw [successes_of_not_accepts accepted, successes_of_not_accepts (answers.not.mpr accepted), same]
    · have split : (before ++ [call]).filter (fun earlier => decide (earlier.key = key)) =
          before.filter fun earlier => decide (earlier.key = key) := by simp [mine]
      rw [split, same]
      by_cases accepted : Accepts before call
      · rw [successes_of_accepts accepted]
        simp [mine]
      · rw [successes_of_not_accepts accepted]

/-- The book is a sliding window over the calls that succeeded: in any sequence
of calls in the order of the clock, a call succeeds iff it is fresh and no
success with its key and nonce is in the window, and neither failed calls nor
calls with other keys make a difference. -/
theorem sliding_window {before : List NonceCall} {call : NonceCall} (order : NonceCall.Ordered (before ++ [call])) :
    (Accepts before call ↔ call.Allowed (successes before)) ∧
    (∀ first failed rest, before = first ++ failed :: rest → ¬ Accepts first failed →
      (Accepts before call ↔ Accepts (first ++ rest) call)) ∧
    (Accepts before call ↔ Accepts (before.filter fun earlier => decide (earlier.key = call.key)) call) := by
  have earlier := (List.pairwise_append.mp order).1
  refine ⟨accepts_iff order, ?_, ?_⟩
  · rintro first failed rest rfl refused
    have shorter : (first ++ rest ++ [call]).Sublist (first ++ failed :: rest ++ [call]) :=
      ((List.sublist_cons_self failed rest).append_left first).append_right [call]
    rw [accepts_iff order, accepts_iff (order.sublist shorter), successes_without_failed earlier refused]
  · have shorter : (before.filter (fun earlier => decide (earlier.key = call.key)) ++ [call]).Sublist (before ++ [call]) :=
      List.filter_sublist.append_right [call]
    rw [accepts_iff order, accepts_iff (order.sublist shorter), successes_filter call.key earlier, allowed_filter]

/-- A call with its timestamp a minute ahead of the clock. -/
def aheadCall (now : UInt64) : NonceCall := ⟨⟨Vector.replicate 32 1⟩, [2], 160, Vector.replicate 16 3, now⟩

/-- The nonce of that call is refused as long as its timestamp is in the window,
and free again after that. -/
theorem sliding_window_of_repeated_nonce :
    successes [aheadCall 100] = [aheadCall 100] ∧ ¬ Accepts [aheadCall 100] (aheadCall 280) ∧
      Accepts [aheadCall 100] { aheadCall 281 with created := 281 } := by
  have first : successes [aheadCall 100] = [aheadCall 100] := by decide +kernel
  have again := (@sliding_window [aheadCall 100] (aheadCall 280) (by unfold NonceCall.Ordered; decide)).1
  have later := (@sliding_window [aheadCall 100] { aheadCall 281 with created := 281 }
    (by unfold NonceCall.Ordered; decide)).1
  rw [first] at again later
  refine ⟨first, fun accepted => ?_, later.mpr ⟨by decide, fun earlier member _ _ => ?_⟩⟩
  · exact (again.mp accepted).2 _ (List.mem_singleton_self _) rfl rfl (by decide)
  · obtain rfl := List.mem_singleton.mp member
    decide

end NonceBook

end MpcCoordinator
