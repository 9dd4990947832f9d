import MpcCoordinator.Stream.Tracking
import MpcCoordinator.Browser.Provenance

namespace MpcCoordinator.StreamServerState

open CoordinatorExecutionState (noticesFor sendsFor StreamEffect)

variable {listener : CoordinatorListener} {s : StreamServerState} {e : ExecutionId}
  {stream : EventStream} {sink : SubscriptionSink} {d d' : CoordinatorExecutionState}

/-- The entries that a subscriber was sent. -/
def itemsOf (sends : List (StreamMessage × Bool)) : List StreamItem :=
  sends.flatMap fun send => send.1.items

/-- How a subscription to a stream stands. On the list it has the history; a
submission that took it off has a message for it and then knows the outcome;
off the list for good it has missed a message. -/
inductive StreamStanding (d : CoordinatorExecutionState) (stream : EventStream) (sink : SubscriptionSink)
    (queued : List StreamMessage) (sends : List (StreamMessage × Bool)) : Prop
  | listed : sink ∈ d.sinkList (.stream stream) → queued = [] → (∀ send ∈ sends, send.2 = true) →
      itemsOf sends = d.history (.stream stream) → StreamStanding d stream sink queued sends
  | awaited (message : StreamMessage) : sink ∈ d.takenSinks (.stream stream) → queued = [message] →
      (∀ send ∈ sends, send.2 = true) → itemsOf sends ++ message.items = d.history (.stream stream) →
      StreamStanding d stream sink queued sends
  | reached : sink ∈ d.takenSinks (.stream stream) → queued = [] → (∀ send ∈ sends, send.2 = true) →
      itemsOf sends = d.history (.stream stream) → StreamStanding d stream sink queued sends
  | missed : sink ∈ d.takenSinks (.stream stream) → queued = [] → sends.getLast?.map Prod.snd = some false →
      StreamStanding d stream sink queued sends
  | dropped : sink ∉ d.sinkList (.stream stream) ++ d.takenSinks (.stream stream) → queued = [] →
      (∃ send ∈ sends, send.2 = false) → StreamStanding d stream sink queued sends

/-- A section that changes neither the lists nor the history, and sends the
subscriber nothing. -/
theorem StreamStanding.of_eq {queued : List StreamMessage} {sends : List (StreamMessage × Bool)}
    (standing : StreamStanding d stream sink queued sends)
    (histories : d'.history (.stream stream) = d.history (.stream stream))
    (lists : sink ∈ d'.sinkList (.stream stream) ↔ sink ∈ d.sinkList (.stream stream))
    (taken : d'.takenSinks (.stream stream) = d.takenSinks (.stream stream)) : StreamStanding d' stream sink queued sends := by
  cases standing with
  | listed member unsent all items => exact .listed (lists.mpr member) unsent all (items.trans histories.symm)
  | awaited message member unsent all items =>
    exact .awaited message (taken ▸ member) unsent all (items.trans histories.symm)
  | reached member unsent all items => exact .reached (taken ▸ member) unsent all (items.trans histories.symm)
  | missed member unsent last => exact .missed (taken ▸ member) unsent last
  | dropped absent unsent failed =>
    refine .dropped ?_ unsent failed
    rwa [taken, List.mem_append, lists, ← List.mem_append]

/-- The messages of one broadcast to a subscriber. -/
theorem select_broadcast {sinks : List SubscriptionSink} {ν : Type} (single : sinks.Nodup) (value : SubscriptionSink → ν)
    (member : sink ∈ sinks) :
    Mail.select (⟨e, .stream stream, sink⟩ : StreamSubscription)
      (sinks.map fun sink => ((⟨e, .stream stream, sink⟩ : StreamSubscription), value sink)) = [value sink] :=
  Mail.select_map (fun sink => (⟨e, .stream stream, sink⟩ : StreamSubscription)) single
    (fun _ _ same => congrArg StreamSubscription.sink same) value member

theorem select_broadcast_absent {sinks : List SubscriptionSink} {ν : Type} (value : SubscriptionSink → ν)
    (absent : sink ∉ sinks) :
    Mail.select (⟨e, .stream stream, sink⟩ : StreamSubscription)
      (sinks.map fun sink => ((⟨e, .stream stream, sink⟩ : StreamSubscription), value sink)) = [] := by
  refine Mail.select_eq_nil fun entry member same => ?_
  obtain ⟨other, inside, rfl⟩ := List.mem_map.mp member
  have mine : other = sink := congrArg StreamSubscription.sink same
  exact absent (mine ▸ inside)

theorem select_elsewhere {told : List (Notice × Bool)} (own : ∀ send ∈ told, send.1.sink ≠ sink) :
    Mail.select ⟨e, .stream stream, sink⟩ (told.map (addressedSend e)) = [] := by
  refine Mail.select_eq_nil fun entry member same => ?_
  obtain ⟨send, inside, rfl⟩ := List.mem_map.mp member
  exact own send inside (congrArg StreamSubscription.sink same)

theorem itemsOf_append (before after : List (StreamMessage × Bool)) :
    itemsOf (before ++ after) = itemsOf before ++ itemsOf after :=
  List.flatMap_append

section Sections

variable {queued : List StreamMessage} {sends : List (StreamMessage × Bool)} {message : StreamMessage}

/-- A message that is sent to the whole list while the lock is held. -/
theorem StreamStanding.of_broadcast {delivered : SubscriptionSink → Bool}
    (standing : StreamStanding d stream sink queued sends) (single : (d.sinkList (.stream stream)).Nodup)
    (free : d.takenSinks (.stream stream) = [])
    (histories : d'.history (.stream stream) = d.history (.stream stream) ++ message.items)
    (lists : d'.sinkList (.stream stream) = (d.sinkList (.stream stream)).filter delivered)
    (taken : d'.takenSinks (.stream stream) = []) :
    StreamStanding d' stream sink queued (sends ++ Mail.select ⟨e, .stream stream, sink⟩
      ((d.sinkList (.stream stream)).map fun sink =>
        ((⟨e, .stream stream, sink⟩ : StreamSubscription), message, delivered sink))) := by
  cases standing with
  | listed member unsent all items =>
    rw [select_broadcast single (fun sink => (message, delivered sink)) member]
    cases reached : delivered sink with
    | true =>
      refine .listed (by simp [lists, member, reached]) unsent ?_ ?_
      · simpa [or_imp, forall_and] using all
      · rw [itemsOf_append, items, histories]
        simp [itemsOf]
    | false => exact .dropped (by simp [lists, taken, reached]) unsent (by simp)
  | awaited _ member => simp [free] at member
  | reached member => simp [free] at member
  | missed member => simp [free] at member
  | dropped absent unsent failed =>
    have unlisted : sink ∉ d.sinkList (.stream stream) := fun member => absent (List.mem_append_left _ member)
    rw [select_broadcast_absent (fun sink => (message, delivered sink)) unlisted, List.append_nil]
    exact .dropped (by simp [lists, taken, unlisted]) unsent failed

/-- A submission takes the whole list to send a message to it. -/
theorem StreamStanding.of_begun (standing : StreamStanding d stream sink queued sends)
    (single : (d.sinkList (.stream stream)).Nodup) (free : d.takenSinks (.stream stream) = [])
    (histories : d'.history (.stream stream) = d.history (.stream stream) ++ message.items)
    (lists : d'.sinkList (.stream stream) = []) (taken : d'.takenSinks (.stream stream) = d.sinkList (.stream stream)) :
    StreamStanding d' stream sink (queued ++ Mail.select ⟨e, .stream stream, sink⟩
      ((d.sinkList (.stream stream)).map fun sink => ((⟨e, .stream stream, sink⟩ : StreamSubscription), message))) sends := by
  cases standing with
  | listed member unsent all items =>
    rw [select_broadcast single (fun _ => message) member]
    exact .awaited message (taken ▸ member) (by rw [unsent]; rfl) all (by rw [items, histories])
  | awaited _ member => simp [free] at member
  | reached member => simp [free] at member
  | missed member => simp [free] at member
  | dropped absent unsent failed =>
    have unlisted : sink ∉ d.sinkList (.stream stream) := fun member => absent (List.mem_append_left _ member)
    rw [select_broadcast_absent (fun _ => message) unlisted, List.append_nil]
    exact .dropped (by simp [lists, taken, unlisted]) unsent failed

/-- A submission puts back whom it reached. -/
theorem StreamStanding.of_finished {delivered : SubscriptionSink → Bool}
    (standing : StreamStanding d stream sink queued sends)
    (single : (d.sinkList (.stream stream) ++ d.takenSinks (.stream stream)).Nodup)
    (reported : sink ∈ d.takenSinks (.stream stream) →
      queued = [] ∧ sends.getLast?.map Prod.snd = some (delivered sink))
    (histories : d'.history (.stream stream) = d.history (.stream stream))
    (lists : d'.sinkList (.stream stream) =
      d.sinkList (.stream stream) ++ (d.takenSinks (.stream stream)).filter delivered)
    (taken : d'.takenSinks (.stream stream) = []) : StreamStanding d' stream sink queued sends := by
  have apart := (List.nodup_append.mp single).2.2
  cases standing with
  | listed member unsent all items =>
    exact .listed (by simp [lists, member]) unsent all (items.trans histories.symm)
  | awaited message member waiting =>
    rw [(reported member).1] at waiting
    cases waiting
  | reached member unsent all items =>
    have last := (reported member).2
    have success : delivered sink = true := by
      obtain ⟨send, final, outcome⟩ := Option.map_eq_some_iff.mp last
      rw [← outcome]
      exact all send (List.mem_of_getLast? final)
    exact .listed (by simp [lists, member, success]) unsent all (items.trans histories.symm)
  | missed member unsent failed =>
    have lost : delivered sink = false := by
      have last := (reported member).2
      rw [failed] at last
      exact (Option.some.inj last).symm
    have unlisted : sink ∉ d.sinkList (.stream stream) := fun listed => apart sink listed sink member rfl
    refine .dropped (by simp [lists, taken, unlisted, lost]) unsent ?_
    obtain ⟨send, final, outcome⟩ := Option.map_eq_some_iff.mp failed
    exact ⟨send, List.mem_of_getLast? final, outcome⟩
  | dropped absent unsent failed =>
    refine .dropped ?_ unsent failed
    rw [List.mem_append, not_or] at absent
    simp [lists, taken, absent.1, absent.2]

/-- A section leaves every subscription in one of its standings, but for the one
it may itself bring. The end of a submission knows how its sends ended. -/
theorem StreamStanding.of_effect {action : Action} {notices : List Notice} {told : List (Notice × Bool)}
    (standing : StreamStanding d stream sink queued sends) (effect : StreamEffect stream d action d' notices told)
    (single : (d.sinkList (.stream stream) ++ d.takenSinks (.stream stream)).Nodup)
    (other : ∀ delivered, action ≠ (Topic.stream stream).subscription sink delivered)
    (reported : ∀ delivered, action = .finishSubmission delivered → sink ∈ d.takenSinks (.stream stream) →
      queued = [] ∧ sends.getLast?.map Prod.snd = some (delivered sink)) :
    StreamStanding d' stream sink
      (queued ++ Mail.select ⟨e, .stream stream, sink⟩ (notices.map (Notice.addressed e)))
      (sends ++ Mail.select ⟨e, .stream stream, sink⟩ (told.map (addressedSend e))) := by
  have listSingle := (List.nodup_append.mp single).1
  cases effect with
  | still histories lists taken nothing silent =>
    subst nothing silent
    simpa using standing.of_eq histories (by rw [lists]) taken
  | joined new delivered asks histories lists taken nothing sent =>
    have elsewhere : new ≠ sink := by
      rintro rfl
      exact other delivered asks
    subst nothing
    rw [select_elsewhere (by simpa [sent] using fun _ _ => elsewhere)]
    simpa using standing.of_eq histories (by simp [lists, Ne.symm elsewhere]) taken
  | turnedAway new delivered asks same nothing own _ =>
    have elsewhere : new ≠ sink := by
      rintro rfl
      exact other delivered asks
    subst nothing same
    rw [select_elsewhere fun send member => by rw [(own send member).2]; exact elsewhere]
    simpa using standing
  | broadcast message delivered free histories lists taken nothing sent =>
    subst nothing sent
    rw [List.map_map, List.map_nil, Mail.select_nil, List.append_nil]
    exact standing.of_broadcast listSingle free histories lists taken
  | begun message free histories lists taken sent silent =>
    subst sent silent
    rw [List.map_map, List.map_nil, Mail.select_nil, List.append_nil]
    exact standing.of_begun listSingle free histories lists taken
  | finished delivered ends histories lists taken nothing silent =>
    subst nothing silent
    simpa using standing.of_finished single (reported delivered ends) histories lists taken

end Sections

/-- The subscription that a section brings has its history and joins the list, or
has missed a message of it. -/
theorem StreamStanding.of_subscription {caller : ClientIdentity} {delivered : Nat → Bool} {reply : RpcResult Unit}
    (fresh : sink ∉ d.sinkList (.stream stream) ++ d.takenSinks (.stream stream))
    (moved : d.Step listener.topology ⟨caller, (Topic.stream stream).subscription sink delivered, reply⟩ d') :
    StreamStanding d' stream sink
      (newNotices listener e d ⟨caller, (Topic.stream stream).subscription sink delivered, reply⟩ (.stream stream) sink)
      (newSends e d ⟨caller, (Topic.stream stream).subscription sink delivered, reply⟩ (.stream stream) sink) := by
  obtain ⟨⟨after, shown⟩, nothing, sends⟩ := CoordinatorExecutionState.exists_replays moved
  simp only [newNotices, newSends, nothing, sends, CoordinatorExecutionState.sendsFor_joinSends, noticesFor,
    List.filter_nil, List.map_nil, Mail.select_nil]
  rcases shown.joins with ⟨histories, lists, _, replay⟩ | ⟨rfl, own, send, member, failed⟩
  · have told : Mail.select ⟨e, .stream stream, sink⟩ ((d.joinSends stream sink delivered).map (addressedSend e)) =
        (d.replayed stream).map fun message => (message, true) := by
      rw [replay, List.map_map]
      exact Mail.select_map_self ..
    rw [told]
    refine .listed (by simp [lists]) rfl (by simp) ?_
    rw [histories, ← CoordinatorExecutionState.replayed_items, itemsOf, List.flatMap_map]
  · refine .dropped fresh rfl ⟨(send.1.message, send.2), Mail.mem_select.mpr ?_, failed⟩
    refine List.mem_map.mpr ⟨send, member, ?_⟩
    simp [addressedSend, own send member]

/-- The message that a submission has for a subscriber is sent. -/
theorem StreamStanding.of_send {queued : List StreamMessage} {sends : List (StreamMessage × Bool)}
    {message : StreamMessage} (standing : StreamStanding d stream sink queued sends) (waiting : message ∈ queued) :
    queued = [message] ∧ ∀ delivered, StreamStanding d stream sink [] (sends ++ [(message, delivered)]) := by
  cases standing with
  | listed _ unqueued | reached _ unqueued | missed _ unqueued | dropped _ unqueued =>
    rw [unqueued] at waiting
    cases waiting
  | awaited own member only all items =>
    rw [only] at waiting
    obtain rfl := List.mem_singleton.mp waiting
    refine ⟨only, fun delivered => ?_⟩
    cases delivered with
    | true =>
      refine .reached member rfl ?_ ?_
      · simpa [or_imp, forall_and] using all
      · rw [itemsOf_append, ← items]
        simp [itemsOf]
    | false => exact .missed member rfl (by simp)

theorem streams_tracked (listener : CoordinatorListener) (e : ExecutionId) :
    Tracks listener .stream e StreamStanding where
  brought := by
    rintro d ⟨caller, action, reply⟩ d' stream sink delivered moved rfl _ fresh
    exact .of_subscription fresh moved
  kept := by
    intro registration d call d' stream sink queued sends _ moved standing single other reported
    exact standing.of_effect (moved.streamEffect stream) single other reported
  sent := fun _ _ _ _ _ _ standing waiting => standing.of_send waiting

/-- Whatever subscriptions, reservations and submissions there are in an
execution that stays registered: all that was sent to a subscriber on a list is
the history of its stream, entry by entry and in order. A submission that took a
subscriber off has sent it as much, or has the next message for it. Nobody else
is off the list but those to whom a send failed. -/
theorem stream_subscribers_have_history {trace : List (Transition StreamServerState StreamEvent)}
    (run : Run (Step listener) start trace s) (remains : Remains e trace) (here : s.live e = some d)
    (stream : EventStream) :
    (∀ sink ∈ d.sinkList (.stream stream), s.owedOn sink = [] ∧ (∀ send ∈ s.sentOn sink, send.2 = true) ∧
      itemsOf (s.sentOn sink) = d.history (.stream stream)) ∧
    (∀ sink ∈ d.takenSinks (.stream stream), (∃ send ∈ s.sentOn sink, send.2 = false) ∨
      itemsOf (s.sentOn sink) ++ (s.owedOn sink).flatMap StreamMessage.items = d.history (.stream stream)) ∧
    ∀ sink, ⟨e, .stream stream, sink⟩ ∈ s.accepted → sink ∈ d.sinkList (.stream stream) ∨
      sink ∈ d.takenSinks (.stream stream) ∨ ∃ send ∈ s.sentOn sink, send.2 = false := by
  have addressed : WellAddressed s := .of_run run
  have tracked := (streams_tracked listener e).of_run run remains
  have apart := fun sink listed taken => (List.nodup_append.mp (tracked.single d here stream)).2.2 sink listed sink taken rfl
  refine ⟨fun sink listed => ?_, fun sink taken => ?_, fun sink member => ?_⟩
  · have member := addressed.listed e d here _ sink (List.mem_append_left _ listed)
    rw [addressed.sentOn_eq member, addressed.owedOn_eq member]
    cases tracked.standing d here stream sink member with
    | listed _ unqueued all items => exact ⟨unqueued, all, items⟩
    | awaited _ taken | reached taken | missed taken => exact absurd taken (apart sink listed)
    | dropped absent => exact absurd (List.mem_append_left _ listed) absent
  · have member := addressed.listed e d here _ sink (List.mem_append_right _ taken)
    rw [addressed.sentOn_eq member, addressed.owedOn_eq member]
    cases tracked.standing d here stream sink member with
    | listed listed => exact absurd taken (apart sink listed)
    | awaited message _ queued _ items => exact Or.inr (by rw [queued]; simpa using items)
    | reached _ unqueued _ items => exact Or.inr (by rw [unqueued]; simpa using items)
    | missed _ _ last =>
      obtain ⟨send, final, outcome⟩ := Option.map_eq_some_iff.mp last
      exact Or.inl ⟨send, List.mem_of_getLast? final, outcome⟩
    | dropped absent => exact absurd (List.mem_append_right _ taken) absent
  · rw [addressed.sentOn_eq member]
    cases tracked.standing d here stream sink member with
    | listed listed => exact Or.inl listed
    | awaited _ taken | reached taken | missed taken => exact Or.inr (Or.inl taken)
    | dropped _ _ failed => exact Or.inr (Or.inr failed)

end MpcCoordinator.StreamServerState

namespace MpcCoordinator.Scenario

def follower : SubscriptionSink := ⟨0, [1]⟩

/-- A party follows the masked inputs while a client submits one. -/
def followInputs : List StreamEvent :=
  [.server (.register [1] (.unassigned 1 []) []), .server (transition .preprocessing),
    .server (transition .inputMaskReservation), .server (.native execution [2] (.reserveMaskIndices [0] fun _ => true)),
    .server (transition .inputCollection), .request execution (.stream .maskedInputs) [1],
    .subscribe ⟨execution, .stream .maskedInputs, [1], by decide⟩ 0 (fun _ => true),
    .server (.native execution [2] (.submitMaskedInputs [[7]] [0])),
    .send ⟨execution, .stream .maskedInputs, follower⟩ (.event (.maskedInputEvent [2] [(0, [7])])) true,
    .server (.native execution [2] (.finishSubmission fun _ => true))]

open StreamServerState in
theorem stream_subscribers_have_history_of_submission :
    ∃ trace s d, Run (Step .recorded) start trace s ∧ Remains execution trace ∧ s.live execution = some d ∧
      d.sinkList (.stream .maskedInputs) = [follower] ∧
      itemsOf (s.sentOn follower) = [.event (.maskedInputEvent [2] [(0, [7])])] := by
  obtain ⟨trace, s, run, remains, seen⟩ := exists_run_of_events .recorded execution followInputs
    (fun s => (s.live execution).map fun d => (d.sinkList (.stream .maskedInputs), d.history (.stream .maskedInputs)))
    (some ([follower], [.event (.maskedInputEvent [2] [(0, [7])])])) (by decide +kernel)
  obtain ⟨d, here, visible⟩ := Option.map_eq_some_iff.mp seen
  obtain ⟨listed, history⟩ := Prod.mk.inj visible
  have followed := (stream_subscribers_have_history run remains here .maskedInputs).1 follower (by simp [listed])
  exact ⟨trace, s, d, run, remains, here, listed, followed.2.2.trans history⟩

end MpcCoordinator.Scenario
