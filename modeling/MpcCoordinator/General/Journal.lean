import MpcCoordinator.General.Slots

/-- If no entry occurs twice in a journal of batches, within a batch or across
batches, then the entries in it are those that exactly one batch carries. -/
theorem countP_carries_eq_one {β γ : Type} {events : List β} {entries : β → List γ} {carries : β → Bool} {entry : γ}
    (distinct : (events.flatMap entries).Nodup) (carried : ∀ event, carries event = true ↔ entry ∈ entries event) :
    events.countP carries = 1 ↔ entry ∈ events.flatMap entries := by
  induction events with
  | nil => simp
  | cons event rest ih =>
    rw [List.flatMap_cons, List.nodup_append] at distinct
    have later := ih distinct.2.1
    by_cases here : entry ∈ entries event
    · have elsewhere : entry ∉ rest.flatMap entries := fun again => distinct.2.2 entry here entry again rfl
      have none : rest.countP carries = 0 := by
        rw [List.countP_eq_zero]
        intro other member inside
        exact elsewhere (List.mem_flatMap.mpr ⟨other, member, (carried other).mp inside⟩)
      simp [here, none, (carried event).mpr here]
    · have absent : carries event = false := by
        rw [← Bool.not_eq_true, carried]
        exact here
      simp [here, later, absent]

namespace Slots

variable {α : Type}

/-- The journal of the writes made to a table: no slot is written twice, and
what the table holds is what was written. -/
structure Records (slots : Slots α) (writes : List (Nat × α)) : Prop where
  once : (writes.map Prod.fst).Nodup
  written : ∀ i x, slots.read i = some x ↔ (i, x) ∈ writes

theorem Records.empty (n : Nat) : Records (List.replicate n (none : Option α)) [] :=
  ⟨by simp, by simp⟩

theorem Records.named {slots : Slots α} {writes : List (Nat × α)} {i : Nat} (records : Records slots writes) :
    i ∈ writes.map Prod.fst ↔ (slots.read i).isSome = true := by
  rw [Option.isSome_iff_exists]
  simp [records.written]

/-- A batch of distinct writes to vacant slots goes to the end of the journal. -/
theorem Records.writeAll {slots : Slots α} {writes batch : List (Nat × α)} (records : Records slots writes)
    (distinct : (batch.map Prod.fst).Nodup)
    (vacant : ∀ i ∈ batch.map Prod.fst, i < slots.length ∧ slots.read i = none) :
    Records (slots.writeAll batch) (writes ++ batch) := by
  constructor
  · rw [List.map_append, List.nodup_append]
    refine ⟨records.once, distinct, ?_⟩
    rintro i old j new rfl
    have held := records.named.mp old
    rw [(vacant i new).2] at held
    cases held
  · intro i x
    rw [List.mem_append]
    constructor
    · intro full
      rcases read_writeAll_cases full with ⟨_, old⟩ | new
      · exact Or.inl ((records.written i x).mp old)
      · exact Or.inr new
    · rintro (old | new)
      · have held := (records.written i x).mpr old
        rw [read_writeAll_of_not_mem]
        · exact held
        · intro named
          rw [(vacant i named).2] at held
          cases held
      · have named : i ∈ batch.map Prod.fst := List.mem_map.mpr ⟨_, new, rfl⟩
        exact read_writeAll_of_nodup distinct new (vacant i named).1

end Slots
