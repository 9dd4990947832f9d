import MpcCoordinator.Stream.Subscriptions

namespace MpcCoordinator.StreamServerState

open CoordinatorExecutionState (Coherent noticesFor sendsFor)

variable (listener : CoordinatorListener) {s s' : StreamServerState} {event : StreamEvent} {e : ExecutionId}
  {ι : Type} {topicOf : ι → Topic}

/-- What a section hands over for a subscription. -/
def newNotices (e : ExecutionId) (d : CoordinatorExecutionState) (call : Call) (topic : Topic)
    (sink : SubscriptionSink) : List StreamMessage :=
  Mail.select ⟨e, topic, sink⟩
    ((noticesFor topic (d.handed listener.topology call.caller call.action)).map (Notice.addressed e))

/-- What a section sends on a subscription. -/
def newSends (e : ExecutionId) (d : CoordinatorExecutionState) (call : Call) (topic : Topic)
    (sink : SubscriptionSink) : List (StreamMessage × Bool) :=
  Mail.select ⟨e, topic, sink⟩ ((sendsFor topic (d.posted call.caller call.action)).map (addressedSend e))

/-- A way for a subscription to stand, by the state of its execution, what is to
be sent to it and what was sent. It is right from the section that brings the
subscription, and every other section and every send keeps it. -/
structure Tracks (topicOf : ι → Topic) (e : ExecutionId) (standing : CoordinatorExecutionState → ι → SubscriptionSink →
    List StreamMessage → List (StreamMessage × Bool) → Prop) : Prop where
  brought : ∀ d call d' i sink delivered, d.Step listener.topology call d' →
    call.action = (topicOf i).subscription sink delivered → topicOf i ≠ .round .idle →
    sink ∉ d.sinkList (topicOf i) ++ d.takenSinks (topicOf i) →
    standing d' i sink (newNotices listener e d call (topicOf i) sink) (newSends e d call (topicOf i) sink)
  kept : ∀ registration d call d' i sink queued sends, Coherent registration d → d.Step listener.topology call d' →
    standing d i sink queued sends → (d.sinkList (topicOf i) ++ d.takenSinks (topicOf i)).Nodup →
    (∀ delivered, call.action ≠ (topicOf i).subscription sink delivered) →
    (∀ delivered, call.action = .finishSubmission delivered → sink ∈ d.takenSinks (topicOf i) →
      queued = [] ∧ sends.getLast?.map Prod.snd = some (delivered sink)) →
    standing d' i sink (queued ++ newNotices listener e d call (topicOf i) sink)
      (sends ++ newSends e d call (topicOf i) sink)
  sent : ∀ d i sink queued sends message, standing d i sink queued sends → message ∈ queued →
    queued = [message] ∧ ∀ delivered, standing d i sink [] (sends ++ [(message, delivered)])

/-- The subscriptions of an execution to some topics stand in a given way. -/
structure Tracked (topicOf : ι → Topic) (e : ExecutionId) (standing : CoordinatorExecutionState → ι → SubscriptionSink →
    List StreamMessage → List (StreamMessage × Bool) → Prop) (s : StreamServerState) : Prop where
  standing : ∀ d, s.live e = some d → ∀ i sink, ⟨e, topicOf i, sink⟩ ∈ s.accepted →
    standing d i sink (s.mail.queuedFor ⟨e, topicOf i, sink⟩) (s.mail.sendsTo ⟨e, topicOf i, sink⟩)
  single : ∀ d, s.live e = some d → ∀ i, (d.sinkList (topicOf i) ++ d.takenSinks (topicOf i)).Nodup

/-- The end of a submission reports the outcomes. -/
theorem outcomes_of_reports {d : CoordinatorExecutionState} {delivered : SubscriptionSink → Bool} {topic : Topic}
    {sink : SubscriptionSink} (here : s.live e = some d) (reported : s.reports e delivered = true)
    (member : sink ∈ d.takenSinks topic) :
    s.mail.queuedFor ⟨e, topic, sink⟩ = [] ∧
      (s.mail.sendsTo ⟨e, topic, sink⟩).getLast?.map Prod.snd = some (delivered sink) := by
  cases topic with
  | round round => cases member
  | stream stream =>
    simp only [reports, here, List.all_eq_true, decide_eq_true_eq] at reported
    exact reported stream (EventStream.mem_all stream) sink member

variable {listener} {standing : CoordinatorExecutionState → ι → SubscriptionSink → List StreamMessage →
  List (StreamMessage × Bool) → Prop}

theorem Tracked.start : Tracked topicOf e standing start := by
  constructor
  · intro d here
    cases here
  · intro d here
    cases here

/-- A section on the execution, whatever call it is part of. -/
theorem Tracked.of_section {registration : ExecutionRegistration} {d d' : CoordinatorExecutionState} {call : Call}
    (tracked : Tracked topicOf e standing s) (tracks : Tracks listener topicOf e standing)
    (coherent : Coherent registration d) (here : s.live e = some d) (after : s'.live e = some d')
    (moved : d.Step listener.topology call d') (mail : s'.mail = s.correspond listener e call.caller call.action)
    (reported : ∀ delivered, call.action = .finishSubmission delivered → s.reports e delivered = true)
    (known : ∀ i sink, ⟨e, topicOf i, sink⟩ ∈ s'.accepted →
      (⟨e, topicOf i, sink⟩ ∈ s.accepted ∧ ∀ delivered, call.action ≠ (topicOf i).subscription sink delivered) ∨
        ((∃ delivered, call.action = (topicOf i).subscription sink delivered) ∧ topicOf i ≠ .round .idle ∧
          s.mail.queuedFor ⟨e, topicOf i, sink⟩ = [] ∧ s.mail.sendsTo ⟨e, topicOf i, sink⟩ = []))
    (fresh : ∀ i sink delivered, call.action = (topicOf i).subscription sink delivered →
      sink ∉ d.sinkList (topicOf i) ++ d.takenSinks (topicOf i)) : Tracked topicOf e standing s' := by
  constructor
  · intro current present i sink member
    cases Option.some.inj (after.symm.trans present)
    rw [mail, queuedFor_correspond here, sendsTo_correspond here]
    rcases known i sink member with ⟨old, other⟩ | ⟨⟨delivered, asks⟩, starts, unqueued, unsent⟩
    · exact tracks.kept registration d call d' i sink _ _ coherent moved (tracked.standing d here i sink old)
        (tracked.single d here i) other
        fun delivered ends inside => outcomes_of_reports here (reported delivered ends) inside
    · rw [unqueued, unsent]
      exact tracks.brought d call d' i sink delivered moved asks starts (fresh i sink delivered asks)
  · intro current present i
    cases Option.some.inj (after.symm.trans present)
    exact moved.sinks_nodup coherent (topicOf i) (tracked.single d here i) (fresh i)

/-- A section that brings a subscription, under a sink that nobody had. -/
theorem Tracked.of_subscription {registration : ExecutionRegistration} {d d' : CoordinatorExecutionState} {call : Call}
    {topic : Topic} {new : SubscriptionSink} {delivered : Nat → Bool} (tracked : Tracked topicOf e standing s)
    (tracks : Tracks listener topicOf e standing) (addressed : WellAddressed s) (ready : Coherent registration d)
    (here : s.live e = some d) (after : s'.live e = some d') (moved : d.Step listener.topology call d')
    (asks : call.action = topic.subscription new delivered) (starts : topic ≠ .round .idle)
    (fresh : new ∉ s.accepted.map StreamSubscription.sink) (accepted : s'.accepted = s.accepted ++ [⟨e, topic, new⟩])
    (mail : s'.mail = s.correspond listener e call.caller call.action) : Tracked topicOf e standing s' := by
  have unfinished : ∀ outcomes, call.action ≠ .finishSubmission outcomes := by
    intro outcomes ends
    have subscribes := Topic.isSubscription topic new delivered
    rw [← asks, ends] at subscribes
    cases subscribes
  have mine : ∀ i sink outcomes, call.action = (topicOf i).subscription sink outcomes →
      topic = topicOf i ∧ new = sink := fun i sink outcomes again => Topic.subscription_inj (asks.symm.trans again)
  refine tracked.of_section tracks ready here after moved mail
    (fun outcomes ends => absurd ends (unfinished outcomes)) (fun i sink member => ?_) ?_
  · rw [accepted, List.mem_append, List.mem_singleton] at member
    rcases member with old | created
    · refine Or.inl ⟨old, fun outcomes again => ?_⟩
      obtain ⟨_, rfl⟩ := mine i sink outcomes again
      exact fresh (List.mem_map_of_mem (f := StreamSubscription.sink) old)
    · obtain ⟨_, rfl, rfl⟩ := StreamSubscription.mk.inj created
      exact Or.inr ⟨⟨delivered, asks⟩, starts, addressed.unaddressed
        (show (⟨e, topicOf i, sink⟩ : StreamSubscription).sink ∉ s.accepted.map StreamSubscription.sink from fresh)⟩
  · intro i sink outcomes again member
    obtain ⟨rfl, rfl⟩ := mine i sink outcomes again
    exact fresh (List.mem_map_of_mem (f := StreamSubscription.sink) (addressed.listed e d here _ new member))

/-- A message is sent, of this execution or of another. -/
theorem Tracked.of_send {subscription : StreamSubscription} {message : StreamMessage} {delivered : Bool}
    (tracked : Tracked topicOf e standing s) (tracks : Tracks listener topicOf e standing)
    (waiting : (subscription, message) ∈ s.mail.outbox) (same : s'.live e = s.live e)
    (accepted : s'.accepted = s.accepted) (mail : s'.mail = s.mail.send (subscription, message) delivered) :
    Tracked topicOf e standing s' := by
  constructor
  · intro d here i sink member
    have before := tracked.standing d (same.symm.trans here) i sink (accepted ▸ member)
    rw [mail]
    by_cases mine : subscription = ⟨e, topicOf i, sink⟩
    · subst mine
      obtain ⟨only, after⟩ := tracks.sent _ _ _ _ _ _ before (Mail.mem_select.mpr waiting)
      rw [(Mail.send_only only delivered).1, (Mail.send_only only delivered).2]
      exact after delivered
    · have quiet : Mail.SameFor ⟨e, topicOf i, sink⟩ s.mail (s.mail.send (subscription, message) delivered) :=
        Mail.sameFor_send_of_ne mine
      rw [quiet.queued, quiet.sends]
      exact before
  · intro d here
    exact tracked.single d (same.symm.trans here)

theorem Tracked.step (tracked : Tracked topicOf e standing s) (tracks : Tracks listener topicOf e standing)
    (addressed : WellAddressed s) (attended : Attended e s)
    (coherent : ∀ d, s.live e = some d → ∃ registration, Coherent registration d)
    (step : s.Step listener event s') : Tracked topicOf e standing s' := by
  cases step.observed e with
  | aside same accepted mail =>
    constructor
    · intro d here i sink member
      have quiet := mail ⟨e, topicOf i, sink⟩ rfl
      rw [quiet.queued, quiet.sends]
      exact tracked.standing d (same.symm.trans here) i sink ((accepted _ rfl).mp member)
    · intro d here
      exact tracked.single d (same.symm.trans here)
  | called d call d' here after moved other reported accepted mail =>
    obtain ⟨registration, ready⟩ := coherent d here
    have unasked : ∀ i sink delivered, call.action ≠ (topicOf i).subscription sink delivered := by
      intro i sink delivered asks
      rw [asks, Topic.isSubscription] at other
      cases other
    refine tracked.of_section tracks ready here after moved mail reported
      (fun i sink member => Or.inl ⟨?_, unasked _ _⟩) ?_
    · rwa [accepted] at member
    · intro i sink delivered asks
      exact absurd asks (unasked _ _ _)
  | subscribed d topic new delivered call d' here after moved asks starts fresh accepted mail =>
    obtain ⟨registration, ready⟩ := coherent d here
    exact tracked.of_subscription tracks addressed ready here after moved asks starts fresh accepted mail
  | sent subscription message delivered waiting same accepted mail =>
    exact tracked.of_send tracks waiting same accepted mail
  | created registration d vacant after admitted accepted mail =>
    constructor
    · intro current present i sink member
      have live := attended.accepted _ (accepted ▸ member) rfl
      simp [vacant] at live
    · intro current present i
      cases Option.some.inj (after.symm.trans present)
      rw [(CoordinatorExecutionState.new_cases admitted).1, CoordinatorExecutionState.fresh_sinkList]
      exact List.nodup_nil
  | gone absent =>
    constructor
    · intro d here
      simp [absent] at here
    · intro d here
      simp [absent] at here

/-- The rule for subscriptions: while the execution stays registered, they all
stand in any way that is tracked. -/
theorem Tracks.of_run {trace : List (Transition StreamServerState StreamEvent)}
    (tracks : Tracks listener topicOf e standing) (run : Run (Step listener) StreamServerState.start trace s)
    (remains : Remains e trace) : Tracked topicOf e standing s := by
  induction run with
  | start => exact .start
  | @next earlier current event after previous step ih =>
    have before : Remains e earlier := fun τ member => remains τ (List.mem_append_left _ member)
    exact (ih before).step tracks (.of_run previous) (.of_run previous before)
      (fun d here => coherent_of_run previous here) step

end MpcCoordinator.StreamServerState
