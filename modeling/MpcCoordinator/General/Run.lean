import Mathlib.Data.List.Basic

/-- One labelled step of a system, with the states on both sides of it. -/
structure Transition (σ ε : Type) where
  source : σ
  event : ε
  target : σ

/-- A finite run of a labelled step relation, together with every step taken
so far in order. The relation may be partial and nondeterministic. -/
inductive Run {σ ε : Type} (step : σ → ε → σ → Prop) (start : σ) : List (Transition σ ε) → σ → Prop
  | start : Run step start [] start
  | next {trace current event after} : Run step start trace current → step current event after →
      Run step start (trace ++ [⟨current, event, after⟩]) after

namespace Run

variable {σ ε : Type} {step : σ → ε → σ → Prop} {start final : σ} {trace : List (Transition σ ε)}

/-- The states a run has been in, its first one included. -/
def reached (start : σ) (trace : List (Transition σ ε)) : List σ :=
  start :: trace.map Transition.target

theorem invariant {P : σ → Prop} (run : Run step start trace final) (initial : P start)
    (preserved : ∀ s event s', P s → step s event s' → P s') : P final := by
  induction run with
  | start => exact initial
  | next _ taken ih => exact preserved _ _ _ ih taken

theorem final_reached (run : Run step start trace final) : final ∈ reached start trace := by
  cases run with
  | start => simp [reached]
  | next => simp [reached]

theorem append {middle : σ} {rest : List (Transition σ ε)} (first : Run step start trace middle)
    (second : Run step middle rest final) : Run step start (trace ++ rest) final := by
  induction second with
  | start => simpa using first
  | next _ taken ih =>
    rw [← List.append_assoc]
    exact .next ih taken

/-- Every recorded step was really taken, from the state that the steps before
it lead to, and the steps after it are a run of their own. -/
theorem split_at {before after : List (Transition σ ε)} {τ : Transition σ ε} (run : Run step start trace final)
    (same : trace = before ++ τ :: after) :
    Run step start before τ.source ∧ step τ.source τ.event τ.target ∧ Run step τ.target after final := by
  induction run generalizing after with
  | start => simp at same
  | @next earlier current event target previous taken ih =>
    rcases List.eq_nil_or_concat after with rfl | ⟨rest, last, rfl⟩
    · obtain ⟨rfl, rfl⟩ := List.append_inj' same rfl |>.imp_right List.singleton_inj.mp
      exact ⟨previous, taken, .start⟩
    · rw [List.concat_eq_append, ← List.cons_append, ← List.append_assoc] at same
      obtain ⟨front, rfl⟩ := List.append_inj' same rfl |>.imp_right List.singleton_inj.mp
      obtain ⟨first, moved, later⟩ := ih front
      rw [List.concat_eq_append]
      exact ⟨first, moved, .next later taken⟩

theorem split (run : Run step start trace final) {τ : Transition σ ε} (member : τ ∈ trace) :
    ∃ before after, trace = before ++ τ :: after ∧ Run step start before τ.source ∧
      step τ.source τ.event τ.target ∧ Run step τ.target after final := by
  obtain ⟨before, after, same⟩ := List.append_of_mem member
  exact ⟨before, after, same, run.split_at same⟩

theorem split_events {events later : List ε} {event : ε}
    (same : trace.map Transition.event = events ++ event :: later) :
    ∃ before τ after, trace = before ++ τ :: after ∧ before.map Transition.event = events ∧ τ.event = event ∧
      after.map Transition.event = later := by
  obtain ⟨before, rest, rfl, first, others⟩ := List.map_eq_append_iff.mp same
  obtain ⟨τ, after, rfl, here, last⟩ := List.map_eq_cons_iff.mp others
  exact ⟨before, τ, after, rfl, first, here, last⟩

theorem taken_of_mem (run : Run step start trace final) {τ : Transition σ ε} (member : τ ∈ trace) :
    step τ.source τ.event τ.target := by
  obtain ⟨_, _, _, _, taken, _⟩ := run.split member
  exact taken

theorem source_invariant {P : σ → Prop} (run : Run step start trace final) (initial : P start)
    (preserved : ∀ s event s', P s → step s event s' → P s') {τ : Transition σ ε}
    (member : τ ∈ trace) : P τ.source := by
  obtain ⟨_, _, _, first, _, _⟩ := run.split member
  exact first.invariant initial preserved

theorem source_reached (run : Run step start trace final) {τ : Transition σ ε}
    (member : τ ∈ trace) : τ.source ∈ reached start trace := by
  obtain ⟨before, after, same, first, _, _⟩ := run.split member
  have early := first.final_reached
  simp only [reached, List.mem_cons, List.mem_map] at early ⊢
  refine early.imp_right ?_
  rintro ⟨τ', old, target⟩
  exact ⟨τ', by simp [same, old], target⟩

theorem target_reached {τ : Transition σ ε} (member : τ ∈ trace) :
    τ.target ∈ reached start trace := by
  simp only [reached, List.mem_cons, List.mem_map]
  exact Or.inr ⟨τ, member, rfl⟩

/-- A state that was reached was left again by a step, or is the last one. -/
theorem reached_source {s : σ} (run : Run step start trace final) (member : s ∈ reached start trace) :
    s = final ∨ ∃ τ ∈ trace, τ.source = s := by
  induction run with
  | start => exact Or.inl (by simpa [reached] using member)
  | @next earlier current event target _ _ ih =>
    have cases : s ∈ reached start earlier ∨ s = target := by
      simpa [reached, or_assoc] using member
    rcases cases with old | rfl
    · refine Or.inr ?_
      rcases ih old with rfl | ⟨τ, inside, same⟩
      · exact ⟨⟨s, event, target⟩, by simp, rfl⟩
      · exact ⟨τ, List.mem_append_left _ inside, same⟩
    · exact Or.inl rfl

/-- A fact that is false at first and true at last was made true by some step. -/
theorem exists_change {Q : σ → Prop} (run : Run step start trace final) (before : ¬ Q start)
    (after : Q final) : ∃ τ ∈ trace, ¬ Q τ.source ∧ Q τ.target := by
  induction run with
  | start => exact absurd after before
  | @next earlier current event target previous taken ih =>
    by_cases held : Q current
    · obtain ⟨τ, member, change⟩ := ih held
      exact ⟨τ, List.mem_append_left _ member, change⟩
    · exact ⟨⟨current, event, target⟩, by simp, held, after⟩

theorem reached_cases {s : σ} (run : Run step start trace final) (member : s ∈ reached start trace) :
    ∃ earlier, Run step start earlier s := by
  simp only [reached, List.mem_cons, List.mem_map] at member
  rcases member with rfl | ⟨τ, inTrace, rfl⟩
  · exact ⟨[], .start⟩
  · obtain ⟨before, _, _, first, taken, _⟩ := run.split inTrace
    exact ⟨_, .next first taken⟩

/-- When a step keeps `P` exactly under `G`, a run is in `P` throughout
exactly when every one of its steps is guarded. `I` is any invariant of the
system that the comparison of one step may rely on. -/
theorem always_iff {I P : σ → Prop} {G : σ → ε → Prop} (run : Run step start trace final)
    (base : I start) (kept : ∀ s event s', I s → step s event s' → I s') (initial : P start)
    (exact_step : ∀ s event s', I s → P s → step s event s' → (P s' ↔ G s event)) :
    (∀ s ∈ reached start trace, P s) ↔ ∀ τ ∈ trace, G τ.source τ.event := by
  constructor
  · intro always τ member
    have source := always _ (run.source_reached member)
    have invariant := run.source_invariant base kept member
    exact (exact_step _ _ _ invariant source (run.taken_of_mem member)).mp
      (always _ (target_reached member))
  · intro guarded
    induction run with
    | start => simpa [reached] using initial
    | @next earlier current event after previous taken ih =>
      have before := ih (fun τ member => guarded τ (List.mem_append_left _ member))
      have source := before _ previous.final_reached
      have invariant := previous.invariant base kept
      have target := (exact_step _ _ _ invariant source taken).mpr (guarded ⟨current, event, after⟩ (by simp))
      intro s member
      simp only [reached, List.map_append, List.mem_cons, List.mem_append, List.map_cons,
        List.map_nil, List.not_mem_nil, or_false] at member
      rcases member with rfl | old | rfl
      · exact before _ (by simp [reached])
      · exact before s (by simp only [reached, List.mem_cons]; exact Or.inr old)
      · exact target

theorem final_unique {other : σ} (run : Run step start trace final) (again : Run step start trace other) :
    other = final := by
  cases run with
  | start =>
    generalize same : ([] : List (Transition σ ε)) = trace at again
    cases again with
    | start => rfl
    | next => simp at same
  | @next earlier current event _ _ _ =>
    generalize same : earlier ++ [⟨current, event, final⟩] = trace at again
    cases again with
    | start => simp at same
    | next =>
      obtain ⟨_, last⟩ := List.append_inj' same rfl
      cases last
      rfl

/-- The same for what depends on the steps so far, and not on the state alone.
`Q` is a condition on runs that the comparison of one step may rely on. -/
theorem history_iff_of_closed {Q : List (Transition σ ε) → Prop} {P : List (Transition σ ε) → σ → Prop}
    {G : Transition σ ε → Prop} (run : Run step start trace final) (closed : ∀ before after, Q (before ++ after) → Q before)
    (met : Q trace) (initial : P [] start)
    (exact_step : ∀ before τ, Q (before ++ [τ]) → Run step start before τ.source → step τ.source τ.event τ.target →
      P before τ.source → (P (before ++ [τ]) τ.target ↔ G τ)) :
    (∀ before after s, trace = before ++ after → Run step start before s → P before s) ↔ ∀ τ ∈ trace, G τ := by
  constructor
  · intro always τ member
    obtain ⟨before, after, same, first, taken, _⟩ := run.split member
    have source := always before (τ :: after) τ.source same first
    have target := always (before ++ [τ]) after τ.target (by simp [same]) (first.next taken)
    refine (exact_step before τ (closed _ after ?_) first taken source).mp target
    rwa [List.append_assoc, List.singleton_append, ← same]
  · intro guarded
    induction run with
    | start =>
      intro before after s same first
      obtain ⟨rfl, _⟩ := List.append_eq_nil_iff.mp same.symm
      rw [Run.start.final_unique first]
      exact initial
    | @next earlier current event target previous taken ih =>
      have held := ih (closed _ _ met) fun τ member => guarded τ (List.mem_append_left _ member)
      intro before after s same first
      rcases List.eq_nil_or_concat after with rfl | ⟨rest, last, rfl⟩
      · rw [List.append_nil] at same
        subst same
        rw [(previous.next taken).final_unique first]
        have source := held earlier [] current (by simp) previous
        exact (exact_step earlier _ met previous taken source).mpr (guarded _ (by simp))
      · rw [List.concat_eq_append, ← List.append_assoc] at same
        exact held before rest s (List.append_inj' same rfl).1 first

theorem history_iff {I P : List (Transition σ ε) → σ → Prop} {G : σ → ε → Prop} (run : Run step start trace final)
    (base : I [] start) (kept : ∀ trace s event s', I trace s → step s event s' → I (trace ++ [⟨s, event, s'⟩]) s')
    (initial : P [] start)
    (exact_step : ∀ trace s event s', I trace s → P trace s → step s event s' →
      (P (trace ++ [⟨s, event, s'⟩]) s' ↔ G s event)) :
    (∀ before after s, trace = before ++ after → Run step start before s → P before s) ↔
      ∀ τ ∈ trace, G τ.source τ.event := by
  have historic : ∀ {trace s}, Run step start trace s → I trace s := by
    intro trace s run
    induction run with
    | start => exact base
    | next _ taken ih => exact kept _ _ _ _ ih taken
  exact @history_iff_of_closed σ ε step start final trace (fun _ => True) P (fun τ => G τ.source τ.event) run
    (fun _ _ _ => trivial) trivial initial fun before τ _ first taken source =>
      exact_step before τ.source τ.event τ.target (historic first) source taken

/-- A step of the kind `P` was taken, and `Q` has held of the state before it
and before every step since. -/
def Since (P : Transition σ ε → Prop) (Q : σ → Prop) (trace : List (Transition σ ε)) : Prop :=
  ∃ earlier τ later, trace = earlier ++ τ :: later ∧ P τ ∧ ∀ ρ ∈ τ :: later, Q ρ.source

theorem Since.now {P : Transition σ ε → Prop} {Q : σ → Prop} {τ : Transition σ ε} (happens : P τ) (here : Q τ.source) :
    Since P Q (trace ++ [τ]) :=
  ⟨trace, τ, [], rfl, happens, by simpa using here⟩

theorem Since.append {P : Transition σ ε → Prop} {Q : σ → Prop} {τ : Transition σ ε} (since : Since P Q trace)
    (here : Q τ.source) : Since P Q (trace ++ [τ]) := by
  obtain ⟨earlier, first, later, rfl, happens, held⟩ := since
  refine ⟨earlier, first, later ++ [τ], by simp, happens, ?_⟩
  intro ρ member
  rw [← List.cons_append, List.mem_append, List.mem_singleton] at member
  rcases member with old | rfl
  · exact held ρ old
  · exact here

theorem mono {wider : σ → ε → σ → Prop} (run : Run step start trace final)
    (weaker : ∀ s event s', step s event s' → wider s event s') : Run wider start trace final := by
  induction run with
  | start => exact .start
  | next _ taken ih => exact .next ih (weaker _ _ _ taken)

/-- A run whose steps all meet a condition is one of the restricted relation. -/
theorem restrict {G : σ → ε → Prop} (run : Run step start trace final)
    (guarded : ∀ τ ∈ trace, G τ.source τ.event) :
    Run (fun s event s' => step s event s' ∧ G s event) start trace final := by
  induction run with
  | start => exact .start
  | @next earlier current event after _ taken ih =>
    have earlier := ih fun τ member => guarded τ (List.mem_append_left _ member)
    exact .next earlier ⟨taken, guarded ⟨current, event, after⟩ (by simp)⟩

/-- Feed a list of events to a partial step function. -/
def execute (next : σ → ε → Option σ) : σ → List ε → Option σ
  | s, [] => some s
  | s, event :: rest => (next s event).bind fun s' => execute next s' rest

/-- The steps that are taken on the way, up to the first event without a result. -/
def trail (next : σ → ε → Option σ) : σ → List ε → List (Transition σ ε)
  | _, [] => []
  | s, event :: rest =>
    match next s event with
    | none => []
    | some s' => ⟨s, event, s'⟩ :: trail next s' rest

theorem of_execute {next : σ → ε → Option σ} (sound : ∀ s event s', next s event = some s' → step s event s')
    {events : List ε} (done : execute next start events = some final) :
    Run step start (trail next start events) final ∧ (trail next start events).map Transition.event = events := by
  induction events generalizing start with
  | nil =>
    cases Option.some.inj done
    exact ⟨.start, rfl⟩
  | cons event rest ih =>
    obtain ⟨middle, moved, done⟩ := Option.bind_eq_some_iff.mp done
    obtain ⟨run, events⟩ := ih done
    have first : Run step start [⟨start, event, middle⟩] middle := .next .start (sound _ _ _ moved)
    simp only [trail, moved]
    exact ⟨first.append run, by simp [events]⟩

/-- What is found in the steps on the way is found in a run. -/
theorem exists_of_trail {Q : List (Transition σ ε) → Prop} {next : σ → ε → Option σ} {events : List ε}
    (sound : ∀ s event s', next s event = some s' → step s event s') (done : (execute next start events).isSome = true)
    (found : Q (trail next start events)) :
    ∃ trace final, Run step start trace final ∧ trace.map Transition.event = events ∧ Q trace := by
  obtain ⟨final, reached⟩ := Option.isSome_iff_exists.mp done
  obtain ⟨run, events⟩ := of_execute sound reached
  exact ⟨_, final, run, events, found⟩

/-- What is seen at the end of the events is seen at the end of a run. -/
theorem exists_of_execute {β : Type} {next : σ → ε → Option σ} {events : List ε} {view : σ → β} {seen : β}
    (sound : ∀ s event s', next s event = some s' → step s event s')
    (done : (execute next start events).map view = some seen) :
    ∃ trace final, Run step start trace final ∧ trace.map Transition.event = events ∧ view final = seen := by
  obtain ⟨final, reached, same⟩ := Option.map_eq_some_iff.mp done
  obtain ⟨run, events⟩ := of_execute sound reached
  exact ⟨_, final, run, events, same⟩

/-- The same for events that pass a check before each step. -/
theorem exists_of_checked {β : Type} {next : σ → ε → Option σ} {check : σ → ε → Bool} {events : List ε} {view : σ → β}
    {seen : β} (sound : ∀ s event s', next s event = some s' → step s event s')
    (done : (execute (fun s event => if check s event then next s event else none) start events).map view = some seen) :
    ∃ trace final, Run step start trace final ∧ trace.map Transition.event = events ∧ view final = seen ∧
      ∀ τ ∈ trace, check τ.source τ.event = true := by
  have checked : ∀ s event s', (if check s event then next s event else none) = some s' →
      check s event = true ∧ step s event s' := by
    intro s event s' moved
    split at moved
    · rename_i passed
      exact ⟨passed, sound s event s' moved⟩
    · cases moved
  obtain ⟨trace, final, run, events, same⟩ := exists_of_execute checked done
  exact ⟨trace, final, run.mono fun _ _ _ taken => taken.2, events, same, fun τ member => (run.taken_of_mem member).1⟩

end Run
