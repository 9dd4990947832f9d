import MpcCoordinator.Server.Eviction
import MpcCoordinator.General.Batch
import MpcCoordinator.General.Recency

namespace MpcCoordinator

attribute [ext] RetiredExecutions

/-- A call of `acknowledge`, where `n` parties are to acknowledge. -/
structure Acknowledgement where
  executionId : ExecutionId
  party : ClientIdentity
  n : Nat

inductive TombstoneCall where
  | sealExecution (executionId : ExecutionId) (acks : Finset ClientIdentity)
  | acknowledge (acknowledgement : Acknowledgement)

/-- Acknowledgements are to come from all parties of a roster. -/
def TombstoneCall.Rostered (topology : Topology) : TombstoneCall → Prop
  | .sealExecution _ _ => True
  | .acknowledge acknowledgement => acknowledgement.n = topology.mpcNodes.val.length

namespace RetiredExecutions

variable {retired retired' : RetiredExecutions} {e executionId : ExecutionId}

def note (retired : RetiredExecutions) (acknowledgement : Acknowledgement) : RetiredExecutions :=
  (retired.acknowledge acknowledgement.executionId acknowledgement.party acknowledgement.n).2

def serve (retired : RetiredExecutions) : TombstoneCall → RetiredExecutions
  | .sealExecution executionId acks => retired.sealExecution executionId acks
  | .acknowledge acknowledgement => retired.note acknowledgement

def Step (retired : RetiredExecutions) (call : TombstoneCall) (retired' : RetiredExecutions) : Prop :=
  retired' = retired.serve call

theorem Listed.step {call : TombstoneCall} (listed : Listed retired) (step : retired.Step call retired') :
    Listed retired' := by
  rw [step]
  cases call with
  | sealExecution executionId acks => exact listed.sealExecution executionId acks
  | acknowledge acknowledgement => exact listed.acknowledge _ _ _

section Acknowledgements

variable {acks : Table ExecutionId (Finset ClientIdentity)} {a b : Acknowledgement}
  {acknowledgements others : List Acknowledgement}

/-- What is left of the acknowledgements of an execution after one more. -/
def tally (held : Option (Finset ClientIdentity)) (party : ClientIdentity) (n : Nat) : Option (Finset ClientIdentity) :=
  held.bind fun held => if n ≤ (insert party held).card then none else some (insert party held)

/-- An acknowledgement on the table alone. -/
def tallied (acks : Table ExecutionId (Finset ClientIdentity)) (a : Acknowledgement) :
    Table ExecutionId (Finset ClientIdentity) :=
  Function.update acks a.executionId (tally (acks a.executionId) a.party a.n)

theorem tally_comm (held : Option (Finset ClientIdentity)) (first second : ClientIdentity) (n : Nat) :
    tally (tally held first n) second n = tally (tally held second n) first n := by
  cases held with
  | none => rfl
  | some held =>
    have more : (insert first held).card ≤ (insert second (insert first held)).card :=
      Finset.card_le_card (Finset.subset_insert _ _)
    have more' : (insert second held).card ≤ (insert second (insert first held)).card := by
      rw [Finset.insert_comm]
      exact Finset.card_le_card (Finset.subset_insert _ _)
    by_cases early : n ≤ (insert first held).card
    · by_cases early' : n ≤ (insert second held).card
      · simp [tally, early, early']
      · simp [tally, early, early', Finset.insert_comm first, early.trans more]
    · by_cases early' : n ≤ (insert second held).card
      · simp [tally, early, early', early'.trans more']
      · simp [tally, early, early', Finset.insert_comm first]

theorem tally_idem (held : Option (Finset ClientIdentity)) (party : ClientIdentity) (n : Nat) :
    tally (tally held party n) party n = tally held party n := by
  cases held with
  | none => rfl
  | some held =>
    by_cases all : n ≤ (insert party held).card
    · simp [tally, all]
    · simp [tally, all]

/-- Acknowledgements can trade places if those of one execution are to come from
as many parties. -/
theorem tallied_comm (alike : a.executionId = b.executionId → a.n = b.n) :
    tallied (tallied acks a) b = tallied (tallied acks b) a := by
  by_cases same : a.executionId = b.executionId
  · simp only [tallied, same, alike same, Function.update_self, Function.update_idem, tally_comm]
  · simp only [tallied, Function.update_of_ne same, Function.update_of_ne (Ne.symm same)]
    exact Function.update_comm same _ _ _

theorem tallied_idem : tallied (tallied acks a) a = tallied acks a := by
  simp only [tallied, Function.update_self, Function.update_idem, tally_idem]

theorem acks_note : (retired.note a).acks = tallied retired.acks a := by
  unfold note RetiredExecutions.acknowledge tallied
  split
  · rename_i unsealed
    rw [unsealed]
    exact (Function.update_eq_self_iff.mpr unsealed.symm).symm
  · rename_i held found
    rw [found]
    dsimp only
    split
    · rename_i all
      simp only [tally, Option.bind_some, all, if_true]
      rfl
    · rename_i few
      simp only [tally, Option.bind_some, few, if_false]
      rfl

theorem Listed.filter_order (listed : Listed retired) :
    (retired.order.filter fun e => (retired.acks e).isSome) = retired.order :=
  List.filter_eq_self.mpr fun e member => (listed.mem_iff e).mp member

/-- The list keeps what is left in the table. -/
theorem Listed.order_note (listed : Listed retired) :
    (retired.note a).order = retired.order.filter fun e => ((retired.note a).acks e).isSome := by
  unfold note RetiredExecutions.acknowledge
  split
  · exact listed.filter_order.symm
  · rename_i held found
    dsimp only
    split
    · refine List.filter_congr fun e member => ?_
      dsimp only
      rw [Table.erase_apply, Bool.eq_iff_iff, decide_eq_true_iff]
      by_cases own : e = a.executionId
      · simp [own]
      · simp [own, (listed.mem_iff e).mp member]
    · refine (List.filter_eq_self.mpr fun e member => ?_).symm
      dsimp only at member ⊢
      rw [Table.insert_apply]
      by_cases own : e = a.executionId
      · simp [own]
      · rw [if_neg own]
        exact (listed.mem_iff e).mp member

/-- Calls of `acknowledge`, one after the other. -/
def noteAll (retired : RetiredExecutions) (acknowledgements : List Acknowledgement) : RetiredExecutions :=
  acknowledgements.foldl note retired

theorem noteAll_cons : retired.noteAll (a :: acknowledgements) = (retired.note a).noteAll acknowledgements := rfl

theorem acks_noteAll : (retired.noteAll acknowledgements).acks = acknowledgements.foldl tallied retired.acks := by
  induction acknowledgements generalizing retired with
  | nil => rfl
  | cons a rest ih => rw [noteAll_cons, List.foldl_cons, ← acks_note, ih]

theorem acks_noteAll_none (absent : retired.acks e = none) : (retired.noteAll acknowledgements).acks e = none := by
  induction acknowledgements generalizing retired with
  | nil => exact absent
  | cons a rest ih => exact ih (acks_acknowledge_none absent)

theorem Listed.order_noteAll (listed : Listed retired) : (retired.noteAll acknowledgements).order =
    retired.order.filter fun e => ((retired.noteAll acknowledgements).acks e).isSome := by
  induction acknowledgements generalizing retired with
  | nil => exact listed.filter_order.symm
  | cons a rest ih =>
    have later := ih (listed.acknowledge a.executionId a.party a.n)
    rw [← note, listed.order_note, List.filter_filter] at later
    rw [noteAll_cons]
    refine later.trans (List.filter_congr fun e _ => ?_)
    -- nothing comes back, so the last table decides
    cases still : (retired.note a).acks e with
    | none => rw [acks_noteAll_none still, Option.isSome_none, Bool.and_false]
    | some held => rw [Option.isSome_some, Bool.and_true]

theorem Listed.noteAll_eq (listed : Listed retired) (same : ∀ a, a ∈ acknowledgements ↔ a ∈ others)
    (alike : ∀ a ∈ acknowledgements, ∀ b ∈ acknowledgements, a.executionId = b.executionId → a.n = b.n) :
    retired.noteAll acknowledgements = retired.noteAll others := by
  have tables : (retired.noteAll acknowledgements).acks = (retired.noteAll others).acks := by
    rw [acks_noteAll, acks_noteAll]
    exact Batch.foldl_eq_of_mem_iff (fun a inside b inside' _ => tallied_comm (alike a inside b inside'))
      (fun _ _ _ => tallied_idem) same _
  refine RetiredExecutions.ext tables ?_
  rw [listed.order_noteAll, listed.order_noteAll, tables]

end Acknowledgements

section Chronology

variable {trace : List (Transition RetiredExecutions TombstoneCall)} {τ : Transition RetiredExecutions TombstoneCall}
  {final : RetiredExecutions}

/-- A call has sealed an execution that had no tombstone. -/
def NewlySeals (e : ExecutionId) (τ : Transition RetiredExecutions TombstoneCall) : Prop :=
  (∃ acks, τ.event = .sealExecution e acks) ∧ τ.source.acks e = none

theorem Listed.not_newlySeals (listed : Listed τ.source) : ∀ e ∈ τ.source.order, ¬ NewlySeals e τ := by
  rintro e member ⟨_, absent⟩
  rw [listed.mem_iff, absent] at member
  cases member

/-- New tombstones go to the end, and others only leave. -/
theorem Listed.chronological_step (listed : Listed τ.source) (chronological : Chronological NewlySeals trace τ.source.order)
    (step : τ.source.Step τ.event τ.target) : Chronological NewlySeals (trace ++ [τ]) τ.target.order := by
  have kept := chronological.concat_of_miss listed.not_newlySeals
  rw [show τ.target = _ from step]
  cases called : τ.event with
  | acknowledge acknowledgement =>
    rw [serve, listed.order_note]
    exact kept.sublist List.filter_sublist
  | sealExecution e acks =>
    have sealed := listed.sealed e acks
    rw [serve]
    generalize τ.source.sealExecution e acks = after at sealed ⊢
    cases sealed with
    | held => exact kept
    | added unheld _ =>
      exact chronological.concat_of_hit listed.not_newlySeals ⟨⟨acks, called⟩, listed.fresh unheld⟩
    | @replaced oldest rest unheld known _ =>
      have fewer : rest.Sublist τ.source.order := known ▸ List.sublist_cons_self oldest rest
      exact (chronological.sublist fewer).concat_of_hit
        (fun other member => listed.not_newlySeals other (fewer.subset member)) ⟨⟨acks, called⟩, listed.fresh unheld⟩

theorem chronological_of_run (run : Run Step .empty trace final) :
    Listed final ∧ Chronological NewlySeals trace final.order := by
  induction run with
  | start => exact ⟨Listed.empty, Chronological.nil⟩
  | @next earlier current call after previous step ih =>
    obtain ⟨listed, chronological⟩ := ih
    exact ⟨listed.step step, @Listed.chronological_step earlier ⟨current, call, after⟩ listed chronological step⟩

/-- A tombstone is lost to another one exactly if it is the oldest of as many as
are kept. -/
theorem Listed.lost_iff (listed : Listed retired) (chronological : Chronological NewlySeals trace retired.order)
    (acks : Finset ClientIdentity) (member : e ∈ retired.order) :
    e ∉ (retired.sealExecution executionId acks).order ↔ retired.acks executionId = none ∧
      retired.order.length = defaultMaxRetiredExecutions ∧ IsOldest NewlySeals trace retired.order e := by
  have present : retired.acks e ≠ none := Option.isSome_iff_ne_none.mp ((listed.mem_iff e).mp member)
  by_cases fresh : retired.acks executionId = none
  · have different : e ≠ executionId := fun same => present (same ▸ fresh)
    rw [(listed.sealExecution executionId acks).mem_iff, Option.not_isSome_iff_eq_none,
      listed.acks_sealExecution_none_iff acks fresh different, or_iff_right present, chronological.isOldest_iff]
    simp [isForgotten, fresh]
  · have held : executionId ∈ retired.order := (listed.mem_iff executionId).mpr (Option.isSome_iff_ne_none.mpr fresh)
    rw [listed.sealExecution_of_held acks held]
    exact iff_of_false (fun lost => lost member) fun lost => fresh lost.1

/-- After any calls, the tombstones are listed, each once and no more than are
kept, by the time at which each was last newly sealed. A call that seals loses a
tombstone exactly if it adds one to as many as are kept, and then the oldest.
Acknowledgements come to the same in whatever order and however often they are
made, if those of one execution are to come from as many parties. -/
theorem retired_executions_well_formed (run : Run Step .empty trace final) :
    Listed final ∧ Chronological NewlySeals trace final.order ∧
    (∀ before τ after executionId acks, trace = before ++ τ :: after → τ.event = .sealExecution executionId acks →
      ∀ e ∈ τ.source.order, e ∉ τ.target.order ↔ τ.source.acks executionId = none ∧
        τ.source.order.length = defaultMaxRetiredExecutions ∧ IsOldest NewlySeals before τ.source.order e) ∧
    ∀ acknowledgements others : List Acknowledgement, (∀ a, a ∈ acknowledgements ↔ a ∈ others) →
      (∀ a ∈ acknowledgements, ∀ b ∈ acknowledgements, a.executionId = b.executionId → a.n = b.n) →
      final.noteAll acknowledgements = final.noteAll others := by
  obtain ⟨listed, chronological⟩ := chronological_of_run run
  refine ⟨listed, chronological, ?_, fun _ _ same alike => listed.noteAll_eq same alike⟩
  intro before τ after executionId acks split called e member
  obtain ⟨first, step, _⟩ := run.split_at split
  obtain ⟨listed, chronological⟩ := chronological_of_run first
  rw [show τ.target = τ.source.serve τ.event from step, called]
  exact listed.lost_iff chronological acks member

/-- Two executions are sealed, and the first one again, which keeps its place. Two
parties acknowledge it, in either order and one of them twice. -/
theorem retired_executions_well_formed_of_two :
    ∃ trace final, Run Step .empty trace final ∧ trace.map Transition.event =
        [.sealExecution (.numbered 0) ∅, .sealExecution (.numbered 1) ∅, .sealExecution (.numbered 0) {[1]}] ∧
      final.order = [.numbered 0, .numbered 1] ∧ Listed final ∧
      (∀ k l, Latest (NewlySeals (.numbered 0)) trace k → Latest (NewlySeals (.numbered 1)) trace l → k < l) ∧
      final.noteAll [⟨.numbered 0, [2], 3⟩, ⟨.numbered 0, [3], 3⟩] =
        final.noteAll [⟨.numbered 0, [3], 3⟩, ⟨.numbered 0, [2], 3⟩, ⟨.numbered 0, [3], 3⟩] := by
  let first := empty.sealExecution (.numbered 0) ∅
  let second := first.sealExecution (.numbered 1) ∅
  let third := second.sealExecution (.numbered 0) {[1]}
  have run : Run Step .empty [⟨.empty, .sealExecution (.numbered 0) ∅, first⟩,
      ⟨first, .sealExecution (.numbered 1) ∅, second⟩, ⟨second, .sealExecution (.numbered 0) {[1]}, third⟩] third :=
    .next (.next (.next .start rfl) rfl) rfl
  have order : third.order = [.numbered 0, .numbered 1] := by decide
  obtain ⟨listed, chronological, _, same⟩ := retired_executions_well_formed run
  refine ⟨_, third, run, rfl, order, listed, ?_, same _ _ ?_ ?_⟩
  · have sorted := chronological.sorted
    rw [order, List.pairwise_pair] at sorted
    exact sorted
  · intro a
    rw [List.mem_pair, List.mem_cons, List.mem_pair]
    constructor
    · rintro (one | other)
      · exact .inr (.inl one)
      · exact .inl other
    · rintro (other | one | other)
      · exact .inr other
      · exact .inl one
      · exact .inr other
  · simp

end Chronology

end RetiredExecutions

end MpcCoordinator
