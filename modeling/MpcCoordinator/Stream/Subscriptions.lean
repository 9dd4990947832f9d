import MpcCoordinator.Stream.Service

namespace MpcCoordinator.StreamServerState

variable {listener : CoordinatorListener} {s s' : StreamServerState} {event : StreamEvent} {e : ExecutionId}

/-- Every message is for an accepted subscription, and so is every place on a
list; no two subscriptions share a sink. -/
structure WellAddressed (s : StreamServerState) : Prop where
  distinct : (s.accepted.map StreamSubscription.sink).Nodup
  listed : ∀ e d, s.live e = some d → ∀ topic, ∀ sink ∈ d.sinkList topic ++ d.takenSinks topic,
    ⟨e, topic, sink⟩ ∈ s.accepted
  queued : ∀ subscription message, message ∈ s.mail.queuedFor subscription → subscription ∈ s.accepted
  sent : ∀ subscription send, send ∈ s.mail.sendsTo subscription → subscription ∈ s.accepted

theorem WellAddressed.start : WellAddressed start := by
  refine ⟨List.nodup_nil, ?_, ?_, ?_⟩
  · intro e d here
    cases here
  · intro subscription message member
    cases member
  · intro subscription send member
    cases member

theorem Step.accepted_subset (step : s.Step listener event s') {subscription : StreamSubscription}
    (member : subscription ∈ s.accepted) : subscription ∈ s'.accepted := by
  rcases step.accepted with same | ⟨new, _, grown⟩
  · rwa [same]
  · rw [grown]
    exact List.mem_append_left _ member

theorem Step.accepted_nodup (step : s.Step listener event s')
    (distinct : (s.accepted.map StreamSubscription.sink).Nodup) : (s'.accepted.map StreamSubscription.sink).Nodup := by
  rcases step.accepted with same | ⟨new, fresh, grown⟩
  · rwa [same]
  · rw [grown, List.map_append]
    exact List.nodup_append.mpr ⟨distinct, List.nodup_singleton _, by
      rintro sink old other new rfl
      rw [List.mem_singleton.mp new] at old
      exact fresh old⟩

/-- A section of an execution keeps its messages and lists in order when all
whom it concerns are accepted. -/
theorem WellAddressed.of_section {registration : ExecutionRegistration} {d d' : CoordinatorExecutionState} {call : Call}
    (addressed : WellAddressed s) (coherent : CoordinatorExecutionState.Coherent registration d)
    (here : s.live e = some d) (moved : d.Step listener.topology call d')
    (mail : s'.mail = s.correspond listener e call.caller call.action)
    (kept : ∀ subscription ∈ s.accepted, subscription ∈ s'.accepted)
    (concerned : ∀ topic sink, d.Concerns call.action topic sink → ⟨e, topic, sink⟩ ∈ s'.accepted) (topic : Topic)
    (sink : SubscriptionSink) :
    (sink ∈ d'.sinkList topic ++ d'.takenSinks topic → ⟨e, topic, sink⟩ ∈ s'.accepted) ∧
      (∀ message, message ∈ s'.mail.queuedFor ⟨e, topic, sink⟩ → ⟨e, topic, sink⟩ ∈ s'.accepted) ∧
      ∀ send, send ∈ s'.mail.sendsTo ⟨e, topic, sink⟩ → ⟨e, topic, sink⟩ ∈ s'.accepted := by
  have only := moved.onlyConcerned coherent topic
  refine ⟨fun member => concerned _ _ (only.listed sink member), fun message member => ?_, fun send member => ?_⟩
  · rw [mail, queuedFor_correspond here, List.mem_append] at member
    rcases member with old | new
    · exact kept _ (addressed.queued _ _ old)
    · obtain ⟨notice, told, same⟩ := List.mem_map.mp (Mail.mem_select.mp new)
      have mine : notice.sink = sink := congrArg StreamSubscription.sink (Prod.mk.inj same).1
      exact mine ▸ concerned _ _ (only.notices notice told)
  · rw [mail, sendsTo_correspond here, List.mem_append] at member
    rcases member with old | new
    · exact kept _ (addressed.sent _ _ old)
    · obtain ⟨entry, told, same⟩ := List.mem_map.mp (Mail.mem_select.mp new)
      have mine : entry.1.sink = sink := congrArg StreamSubscription.sink (Prod.mk.inj same).1
      exact mine ▸ concerned _ _ (only.sends entry told)

/-- Where a step adds no messages, they stay in order. -/
theorem WellAddressed.of_sameFor {subscription : StreamSubscription} (addressed : WellAddressed s)
    (kept : ∀ subscription ∈ s.accepted, subscription ∈ s'.accepted)
    (quiet : Mail.SameFor subscription s.mail s'.mail) :
    (∀ message, message ∈ s'.mail.queuedFor subscription → subscription ∈ s'.accepted) ∧
      ∀ send, send ∈ s'.mail.sendsTo subscription → subscription ∈ s'.accepted := by
  rw [quiet.queued, quiet.sends]
  exact ⟨fun message member => kept _ (addressed.queued _ message member),
    fun send member => kept _ (addressed.sent _ send member)⟩

/-- One execution's part of the invariant. -/
theorem WellAddressed.step_at (addressed : WellAddressed s) (step : s.Step listener event s')
    (coherent : ∀ d, s.live e = some d → ∃ registration, CoordinatorExecutionState.Coherent registration d)
    (topic : Topic) (sink : SubscriptionSink) :
    (∀ d', s'.live e = some d' → sink ∈ d'.sinkList topic ++ d'.takenSinks topic →
        ⟨e, topic, sink⟩ ∈ s'.accepted) ∧
      (∀ message, message ∈ s'.mail.queuedFor ⟨e, topic, sink⟩ → ⟨e, topic, sink⟩ ∈ s'.accepted) ∧
      ∀ send, send ∈ s'.mail.sendsTo ⟨e, topic, sink⟩ → ⟨e, topic, sink⟩ ∈ s'.accepted := by
  have kept : ∀ subscription ∈ s.accepted, subscription ∈ s'.accepted := fun _ => step.accepted_subset
  cases step.observed e with
  | aside same _ mail =>
    refine ⟨fun d' here member => ?_, addressed.of_sameFor kept (mail ⟨e, topic, sink⟩ rfl)⟩
    exact kept _ (addressed.listed e d' (same.symm.trans here) topic sink member)
  | called d call d' here after moved other _ _ mail =>
    obtain ⟨registration, ready⟩ := coherent d here
    have concerned : ∀ topic sink, d.Concerns call.action topic sink → ⟨e, topic, sink⟩ ∈ s'.accepted := by
      rintro topic sink (member | ⟨delivered, asks⟩)
      · exact kept _ (addressed.listed e d here topic sink member)
      · rw [asks, Topic.isSubscription] at other
        cases other
    obtain ⟨listed, queued, sent⟩ := addressed.of_section ready here moved mail kept concerned topic sink
    refine ⟨fun current present member => ?_, queued, sent⟩
    cases Option.some.inj (after.symm.trans present)
    exact listed member
  | subscribed d asked new delivered call d' here after moved asks _ _ accepted mail =>
    obtain ⟨registration, ready⟩ := coherent d here
    have concerned : ∀ topic sink, d.Concerns call.action topic sink → ⟨e, topic, sink⟩ ∈ s'.accepted := by
      rintro topic sink (member | ⟨outcomes, again⟩)
      · exact kept _ (addressed.listed e d here topic sink member)
      · obtain ⟨rfl, rfl⟩ := Topic.subscription_inj (asks.symm.trans again)
        simp [accepted]
    obtain ⟨listed, queued, sent⟩ := addressed.of_section ready here moved mail kept concerned topic sink
    refine ⟨fun current present member => ?_, queued, sent⟩
    cases Option.some.inj (after.symm.trans present)
    exact listed member
  | sent subscription message delivered waiting same accepted mail =>
    have target : subscription ∈ s.accepted := addressed.queued _ message (Mail.mem_select.mpr waiting)
    by_cases mine : subscription = ⟨e, topic, sink⟩
    · subst mine
      exact ⟨fun _ _ _ => kept _ target, fun _ _ => kept _ target, fun _ _ => kept _ target⟩
    · have quiet : Mail.SameFor ⟨e, topic, sink⟩ s.mail s'.mail := mail ▸ Mail.sameFor_send_of_ne mine
      refine ⟨fun d' here member => ?_, addressed.of_sameFor kept quiet⟩
      exact kept _ (addressed.listed e d' (same.symm.trans here) topic sink member)
  | created registration d vacant here admitted accepted mail =>
    refine ⟨fun current present member => ?_, addressed.of_sameFor kept (mail ▸ .refl _ _)⟩
    cases Option.some.inj (here.symm.trans present)
    rw [(CoordinatorExecutionState.new_cases admitted).1, CoordinatorExecutionState.fresh_sinkList] at member
    cases member
  | gone absent _ mail =>
    refine ⟨fun d' here => ?_, addressed.of_sameFor kept (mail ⟨e, topic, sink⟩ rfl)⟩
    rw [absent] at here
    cases here

theorem coherent_of_run {trace : List (Transition StreamServerState StreamEvent)} {d : CoordinatorExecutionState}
    (run : Run (Step listener) start trace s) (here : s.live e = some d) :
    ∃ registration, CoordinatorExecutionState.Coherent registration d := by
  obtain ⟨registration, initial, calls, admitted, executed⟩ := exists_execution_run run here
  exact ⟨registration, .of_run admitted executed⟩

theorem WellAddressed.of_run {trace : List (Transition StreamServerState StreamEvent)}
    (run : Run (Step listener) StreamServerState.start trace s) : WellAddressed s := by
  induction run with
  | start => exact .start
  | next previous step ih =>
    have part := fun e => ih.step_at step (e := e) fun d here => coherent_of_run previous here
    refine ⟨step.accepted_nodup ih.distinct, ?_, ?_, ?_⟩
    · intro e d here topic sink member
      exact (part e topic sink).1 d here member
    · rintro ⟨e, topic, sink⟩ message member
      exact (part e topic sink).2.1 message member
    · rintro ⟨e, topic, sink⟩ send member
      exact (part e topic sink).2.2 send member

/-- The execution stays registered for the rest of a run once it is. -/
def Remains (e : ExecutionId) (trace : List (Transition StreamServerState StreamEvent)) : Prop :=
  ∀ τ ∈ trace, (τ.source.live e).isSome = true → (τ.target.live e).isSome = true

/-- Whoever asked for the execution finds it live. -/
structure Attended (e : ExecutionId) (s : StreamServerState) : Prop where
  accepting : ∀ call ∈ s.accepting, call.executionId = e → (s.live e).isSome = true
  accepted : ∀ subscription ∈ s.accepted, subscription.executionId = e → (s.live e).isSome = true

theorem Attended.step (attended : Attended e s) (step : s.Step listener event s')
    (remains : (s.live e).isSome = true → (s'.live e).isSome = true) : Attended e s' := by
  constructor
  · intro call member named
    rcases step.accepting member with old | ⟨live, same⟩
    · exact remains (attended.accepting call old named)
    · rw [named] at live
      rw [StreamServerState.live, same]
      exact live
  · intro subscription member named
    have before := attended.accepted subscription
    cases step.observed e with
    | aside _ accepted _ => exact remains (before ((accepted _ named).mp member) named)
    | called _ _ _ _ after => simp [after]
    | subscribed _ _ _ _ _ _ _ after => simp [after]
    | sent _ _ _ _ _ accepted => exact remains (before (accepted ▸ member) named)
    | created _ _ _ after => simp [after]
    | gone _ origin _ =>
      rcases origin subscription member named with old | ⟨call, under, mine⟩
      · exact remains (before old named)
      · exact remains (attended.accepting call under mine)

theorem Attended.of_run {trace : List (Transition StreamServerState StreamEvent)}
    (run : Run (Step listener) start trace s) (remains : Remains e trace) : Attended e s := by
  induction run with
  | start =>
    constructor
    · intro call member
      cases member
    · intro subscription member
      cases member
  | @next earlier current event after previous step ih =>
    have before : Remains e earlier := fun τ member => remains τ (List.mem_append_left _ member)
    exact (ih before).step step (remains ⟨current, event, after⟩ (by simp))

/-- Nothing was sent on a subscription before it was accepted. -/
theorem WellAddressed.unaddressed {subscription : StreamSubscription} (addressed : WellAddressed s)
    (fresh : subscription.sink ∉ s.accepted.map StreamSubscription.sink) :
    s.mail.queuedFor subscription = [] ∧ s.mail.sendsTo subscription = [] := by
  have absent : subscription ∉ s.accepted := fun member => fresh (List.mem_map_of_mem member)
  refine ⟨List.eq_nil_iff_forall_not_mem.mpr fun message member => ?_,
    List.eq_nil_iff_forall_not_mem.mpr fun send member => ?_⟩
  · exact absent (addressed.queued _ _ member)
  · exact absent (addressed.sent _ _ member)

/-- All that was sent on a sink so far. -/
def sentOn (s : StreamServerState) (sink : SubscriptionSink) : List (StreamMessage × Bool) :=
  (s.mail.sent.filter fun entry => decide (entry.1.sink = sink)).map Prod.snd

/-- All that is yet to be sent on a sink. -/
def owedOn (s : StreamServerState) (sink : SubscriptionSink) : List StreamMessage :=
  (s.mail.outbox.filter fun entry => decide (entry.1.sink = sink)).map Prod.snd

/-- A sink belongs to one subscription. -/
theorem WellAddressed.unique {subscription other : StreamSubscription} (addressed : WellAddressed s)
    (first : subscription ∈ s.accepted) (second : other ∈ s.accepted) (same : other.sink = subscription.sink) :
    other = subscription :=
  List.inj_on_of_nodup_map addressed.distinct second first same

/-- What goes to a sink is what goes to its subscription. -/
theorem WellAddressed.sentOn_eq {subscription : StreamSubscription} (addressed : WellAddressed s)
    (member : subscription ∈ s.accepted) : s.sentOn subscription.sink = s.mail.sendsTo subscription := by
  unfold sentOn Mail.sendsTo Mail.select
  congr 1
  refine List.filter_congr fun entry inside => decide_eq_decide.mpr ⟨fun same => ?_, congrArg StreamSubscription.sink⟩
  have known := addressed.sent entry.1 entry.2 (Mail.mem_select.mpr inside)
  exact addressed.unique member known same

theorem WellAddressed.owedOn_eq {subscription : StreamSubscription} (addressed : WellAddressed s)
    (member : subscription ∈ s.accepted) : s.owedOn subscription.sink = s.mail.queuedFor subscription := by
  unfold owedOn Mail.queuedFor Mail.select
  congr 1
  refine List.filter_congr fun entry inside => decide_eq_decide.mpr ⟨fun same => ?_, congrArg StreamSubscription.sink⟩
  have known := addressed.queued entry.1 entry.2 (Mail.mem_select.mpr inside)
  exact addressed.unique member known same

/-- What is owed can be sent, and nothing else happens meanwhile. -/
theorem exists_settled (listener : CoordinatorListener) (delivered : Bool) (s : StreamServerState) :
    ∃ sends settled, Run (Step listener) s sends settled ∧ (∀ e, Remains e sends) ∧ settled.server = s.server ∧
      settled.accepted = s.accepted ∧ settled.mail.outbox = [] := by
  induction outstanding : s.mail.outbox generalizing s with
  | nil => exact ⟨[], s, .start, by simp [Remains], rfl, rfl, outstanding⟩
  | cons entry rest ih =>
    have step : s.Step listener (.send entry.1 entry.2 delivered)
        { s with mail := s.mail.send entry delivered } := by
      simp [Step, next, StreamServerState.enabled, outstanding, StreamServerState.run]
    have left : ({ s with mail := s.mail.send entry delivered } : StreamServerState).mail.outbox = rest := by
      simp [Mail.send, outstanding]
    obtain ⟨sends, settled, run, remains, server, accepted, empty⟩ := ih _ left
    refine ⟨_, settled, (Run.next .start step).append run, fun e τ member => ?_, server, accepted, empty⟩
    rcases List.mem_append.mp member with first | later
    · rw [List.mem_singleton.mp first]
      exact fun live => live
    · exact remains e τ later

/-- The event leaves the execution registered. -/
def keeps (listener : CoordinatorListener) (e : ExecutionId) (s : StreamServerState) (event : StreamEvent) : Bool :=
  (s.live e).isNone || (s.next listener event).any fun s' => (s'.live e).isSome

/-- What is seen at the end of a list of events is seen at the end of a run, in
which the execution stays registered if every event leaves it so. -/
theorem exists_run_of_events {β : Type} (listener : CoordinatorListener) (e : ExecutionId) (events : List StreamEvent)
    (view : StreamServerState → β) (seen : β)
    (done : (Run.execute (fun s event => if keeps listener e s event then s.next listener event else none) start
      events).map view = some seen) :
    ∃ trace final, Run (Step listener) start trace final ∧ Remains e trace ∧ view final = seen := by
  obtain ⟨trace, final, run, _, visible, checked⟩ := Run.exists_of_checked (fun _ _ _ moved => moved) done
  refine ⟨trace, final, run, fun τ member live => ?_, visible⟩
  have kept := checked τ member
  have taken : τ.source.next listener τ.event = some τ.target := run.taken_of_mem member
  simpa [keeps, taken, Option.isNone_iff_eq_none, Option.isSome_iff_ne_none.mp live] using kept

end MpcCoordinator.StreamServerState
