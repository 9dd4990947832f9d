import MpcCoordinator.General.Run

/-- A call on a system, and what came of it. -/
structure Exchange (ι ο : Type) where
  call : ι
  outcome : ο

namespace Run

variable {σ ι ο : Type}

/-- The calls of a run, in order. -/
def calls (trace : List (Transition σ (Exchange ι ο))) : List ι := trace.map fun τ => τ.event.call

/-- The calls of one kind, each with what came of it. -/
def exchanges (own : ι → Bool) (trace : List (Transition σ (Exchange ι ο))) : List (Exchange ι ο) :=
  (trace.map Transition.event).filter fun exchange => own exchange.call

/-- Makes a list of calls, one after the other. -/
def respond (next : σ → ι → Option (ο × σ)) : σ → List ι → Option σ
  | s, [] => some s
  | s, call :: rest => (next s call).bind fun answer => respond next answer.2 rest

/-- What is seen after the calls is seen at the end of a run, and what each
call requires holds before it. -/
theorem exists_of_respond {β : Type} {step : σ → Exchange ι ο → σ → Prop} {P : σ → Prop} {start : σ}
    {next : σ → ι → Option (ο × σ)} {made : List ι} {view : σ → β} {seen : β}
    (sound : ∀ s call outcome s', next s call = some (outcome, s') → step s ⟨call, outcome⟩ s' ∧ P s)
    (done : (respond next start made).map view = some seen) :
    ∃ trace final, Run step start trace final ∧ calls trace = made ∧ view final = seen ∧ ∀ τ ∈ trace, P τ.source := by
  induction made generalizing start with
  | nil => exact ⟨[], start, .start, rfl, Option.some.inj done, nofun⟩
  | cons call rest ih =>
    obtain ⟨final, reached, same⟩ := Option.map_eq_some_iff.mp done
    obtain ⟨⟨outcome, middle⟩, moved, reached⟩ := Option.bind_eq_some_iff.mp reached
    obtain ⟨taken, required⟩ := sound start call outcome middle moved
    obtain ⟨trace, last, run, made, seen, rests⟩ := ih (by rw [reached, Option.map_some, same])
    have first : Run step start [⟨start, ⟨call, outcome⟩, middle⟩] middle := .next .start taken
    refine ⟨_, last, first.append run, by simpa [calls] using made, seen, ?_⟩
    simpa using ⟨required, rests⟩

end Run

/-- The conditions under which foreign calls may be left out of a run, as long
as `room` holds in it. `Alike s t` says that `t` is where the run without them
stands when the whole one is in `s`: a foreign call keeps it so, any other call
can be made on both sides, and the outcome of an own call is the same. -/
structure Unwinding {σ ι ο : Type} (step : σ → Exchange ι ο → σ → Prop) (room : σ → Prop) (foreign own : ι → Bool)
    (Alike : σ → σ → Prop) : Prop where
  aside : ∀ {s t exchange s'}, Alike s t → room s → step s exchange s' → foreign exchange.call = true → Alike s' t
  joint : ∀ {s t exchange s'}, Alike s t → room s → step s exchange s' → foreign exchange.call = false →
    ∃ outcome t', step t ⟨exchange.call, outcome⟩ t'
  agree : ∀ {s t call outcome other s' t'}, Alike s t → room s → foreign call = false → step s ⟨call, outcome⟩ s' →
    step t ⟨call, other⟩ t' → Alike s' t' ∧ (own call = true → other = outcome)
  local_own : ∀ {call}, own call = true → foreign call = false

namespace Unwinding

open Run (calls exchanges)

variable {σ ι ο : Type} {step : σ → Exchange ι ο → σ → Prop} {room : σ → Prop} {foreign own : ι → Bool}
  {Alike : σ → σ → Prop} {start start' final : σ} {trace : List (Transition σ (Exchange ι ο))}

/-- Whatever run is made of the calls that are left, it stays alike, and own
calls have the outcomes that they have in the whole run. -/
theorem agree_of_run (unwinding : Unwinding step room foreign own Alike) (alike : Alike start start')
    (run : Run step start trace final) (roomy : ∀ τ ∈ trace, room τ.source)
    {purged : List (Transition σ (Exchange ι ο))} {last : σ} (other : Run step start' purged last)
    (same : calls purged = (calls trace).filter fun call => !foreign call) :
    Alike final last ∧ exchanges own purged = exchanges own trace := by
  induction run generalizing purged last with
  | start =>
    obtain rfl : purged = [] := by simpa [calls] using same
    rw [Run.start.final_unique other]
    exact ⟨alike, rfl⟩
  | @next earlier current exchange after previous taken ih =>
    have here := roomy ⟨current, exchange, after⟩ (by simp)
    have before : ∀ τ ∈ earlier, room τ.source := fun τ member => roomy τ (List.mem_append_left _ member)
    cases kept : foreign exchange.call with
    | true =>
      obtain ⟨near, outcomes⟩ := ih before other (by simpa [calls, kept] using same)
      refine ⟨unwinding.aside near here taken kept, ?_⟩
      have unowned : own exchange.call = false := by
        cases owned : own exchange.call with
        | false => rfl
        | true =>
          rw [unwinding.local_own owned] at kept
          cases kept
      simpa [exchanges, unowned] using outcomes
    | false =>
      cases other with
      | start => simp [calls, kept] at same
      | @next rest middle reply _ first moved =>
        simp only [calls, List.map_append, List.filter_append, List.map_cons, List.map_nil, List.filter_cons, kept,
          Bool.not_false, if_true, List.filter_nil] at same
        obtain ⟨front, back⟩ := List.append_inj' same rfl
        obtain ⟨near, outcomes⟩ := ih before first front
        obtain ⟨call, outcome⟩ := exchange
        obtain ⟨asked, answer⟩ := reply
        obtain rfl : asked = call := List.singleton_inj.mp back
        obtain ⟨still, answered⟩ := unwinding.agree near here kept taken moved
        refine ⟨still, ?_⟩
        simp only [exchanges, List.map_append, List.filter_append] at outcomes ⊢
        rw [outcomes]
        cases owned : own asked with
        | true => simp [owned, answered owned]
        | false => simp [owned]

/-- The calls that are left make a run of their own. -/
theorem exists_run (unwinding : Unwinding step room foreign own Alike) (alike : Alike start start')
    (run : Run step start trace final) (roomy : ∀ τ ∈ trace, room τ.source) :
    ∃ purged last, Run step start' purged last ∧ calls purged = (calls trace).filter fun call => !foreign call := by
  induction run with
  | start => exact ⟨[], start', .start, rfl⟩
  | @next earlier current exchange after previous taken ih =>
    have here := roomy ⟨current, exchange, after⟩ (by simp)
    have before : ∀ τ ∈ earlier, room τ.source := fun τ member => roomy τ (List.mem_append_left _ member)
    obtain ⟨purged, last, other, same⟩ := ih before
    cases kept : foreign exchange.call with
    | true => exact ⟨purged, last, other, by simpa [calls, kept] using same⟩
    | false =>
      obtain ⟨near, _⟩ := unwinding.agree_of_run alike previous before other same
      obtain ⟨outcome, t', moved⟩ := unwinding.joint near here taken kept
      refine ⟨_, t', other.next moved, ?_⟩
      simp only [calls] at same
      simp [calls, kept, same]

end Unwinding
