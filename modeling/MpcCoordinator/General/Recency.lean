import Mathlib.Data.List.Basic

/-- The last entry of a list with a property stands at this place. -/
def Latest {α : Type} (P : α → Prop) (entries : List α) (k : Nat) : Prop :=
  (∃ entry, entries[k]? = some entry ∧ P entry) ∧ ∀ l entry, k < l → entries[l]? = some entry → ¬ P entry

namespace Latest

variable {α : Type} {P : α → Prop} {entries : List α} {entry : α} {k l : Nat}

theorem lt_length (latest : Latest P entries k) : k < entries.length := by
  obtain ⟨⟨_, found, _⟩, _⟩ := latest
  exact (List.getElem?_eq_some_iff.mp found).1

theorem unique (latest : Latest P entries k) (other : Latest P entries l) : k = l := by
  obtain ⟨⟨_, found, holds⟩, last⟩ := latest
  obtain ⟨⟨_, found', holds'⟩, last'⟩ := other
  rcases Nat.lt_trichotomy k l with before | same | after
  · exact absurd holds' (last l _ before found')
  · exact same
  · exact absurd holds (last' k _ after found)

theorem getElem?_concat {x : α} : (entries ++ [entry])[k]? = some x ↔
    entries[k]? = some x ∨ k = entries.length ∧ entry = x := by
  rcases Nat.lt_trichotomy k entries.length with inside | rfl | outside
  · rw [List.getElem?_append_left inside, or_iff_left fun last => Nat.ne_of_lt inside last.1]
  · simp
  · have beyond : (entries ++ [entry]).length ≤ k := by
      rw [List.length_append, List.length_singleton]
      exact outside
    rw [List.getElem?_eq_none beyond, List.getElem?_eq_none (Nat.le_of_lt outside)]
    simp [Nat.ne_of_gt outside]

theorem concat_iff_of_not (miss : ¬ P entry) : Latest P (entries ++ [entry]) k ↔ Latest P entries k := by
  simp only [Latest, getElem?_concat]
  constructor
  · rintro ⟨⟨x, found | ⟨_, rfl⟩, holds⟩, last⟩
    · exact ⟨⟨x, found, holds⟩, fun l y later found => last l y later (.inl found)⟩
    · exact absurd holds miss
  · rintro ⟨⟨x, found, holds⟩, last⟩
    refine ⟨⟨x, .inl found, holds⟩, ?_⟩
    rintro l y later (found | ⟨_, rfl⟩)
    · exact last l y later found
    · exact miss

theorem concat_iff_of_hit (hit : P entry) : Latest P (entries ++ [entry]) k ↔ k = entries.length := by
  have last : Latest P (entries ++ [entry]) entries.length := by
    refine ⟨⟨entry, getElem?_concat.mpr (.inr ⟨rfl, rfl⟩), hit⟩, fun l x later found => ?_⟩
    have inside := (List.getElem?_eq_some_iff.mp found).1
    rw [List.length_append, List.length_singleton] at inside
    omega
  constructor
  · exact fun latest => latest.unique last
  · rintro rfl
    exact last

end Latest

/-- The keys of a queue are those that the history has entered, in the order in
which each was entered last. -/
structure Chronological {κ α : Type} (Enters : κ → α → Prop) (history : List α) (queue : List κ) : Prop where
  dated : ∀ key ∈ queue, ∃ k, Latest (Enters key) history k
  sorted : queue.Pairwise fun early late =>
    ∀ k l, Latest (Enters early) history k → Latest (Enters late) history l → k < l

/-- A key of the queue was entered last before every other one was. -/
def IsOldest {κ α : Type} (Enters : κ → α → Prop) (history : List α) (queue : List κ) (key : κ) : Prop :=
  key ∈ queue ∧ ∀ other ∈ queue, other ≠ key →
    ∀ k l, Latest (Enters key) history k → Latest (Enters other) history l → k < l

namespace Chronological

variable {κ α : Type} {Enters : κ → α → Prop} {history : List α} {queue rest : List κ} {entry : α} {key : κ}

theorem nil : Chronological Enters history [] := ⟨by simp, List.Pairwise.nil⟩

/-- Keys may leave the queue from any place. -/
theorem sublist (chronological : Chronological Enters history queue) (fewer : rest.Sublist queue) :
    Chronological Enters history rest :=
  ⟨fun key member => chronological.dated key (fewer.subset member), chronological.sorted.sublist fewer⟩

/-- What enters none of its keys leaves the queue as it is. -/
theorem concat_of_miss (chronological : Chronological Enters history queue) (miss : ∀ key ∈ queue, ¬ Enters key entry) :
    Chronological Enters (history ++ [entry]) queue := by
  refine ⟨fun key member => ?_, chronological.sorted.imp_of_mem fun {early late} member member' before k l first second => ?_⟩
  · obtain ⟨k, latest⟩ := chronological.dated key member
    exact ⟨k, (Latest.concat_iff_of_not (miss key member)).mpr latest⟩
  · rw [Latest.concat_iff_of_not (miss early member)] at first
    rw [Latest.concat_iff_of_not (miss late member')] at second
    exact before k l first second

/-- A key that is entered goes to the end. -/
theorem concat_of_hit (chronological : Chronological Enters history queue) (miss : ∀ key ∈ queue, ¬ Enters key entry)
    (hit : Enters key entry) : Chronological Enters (history ++ [entry]) (queue ++ [key]) := by
  have kept := chronological.concat_of_miss miss
  constructor
  · intro other member
    rcases List.mem_append.mp member with old | new
    · exact kept.dated other old
    · obtain rfl := List.mem_singleton.mp new
      exact ⟨_, (Latest.concat_iff_of_hit hit).mpr rfl⟩
  · rw [List.pairwise_append]
    refine ⟨kept.sorted, List.pairwise_singleton _ _, fun other old last new k l first second => ?_⟩
    obtain rfl := List.mem_singleton.mp new
    rw [Latest.concat_iff_of_not (miss other old)] at first
    rw [Latest.concat_iff_of_hit hit] at second
    exact second ▸ first.lt_length

/-- The oldest key is the first one. -/
theorem isOldest_iff (chronological : Chronological Enters history queue) :
    IsOldest Enters history queue key ↔ queue.head? = some key := by
  cases queue with
  | nil => simp [IsOldest]
  | cons first rest =>
    obtain ⟨before, _⟩ := List.pairwise_cons.mp chronological.sorted
    rw [List.head?_cons, Option.some_inj]
    constructor
    · rintro ⟨member, oldest⟩
      by_contra different
      have later : key ∈ rest := (List.mem_cons.mp member).resolve_left (Ne.symm different)
      obtain ⟨k, latest⟩ := chronological.dated key member
      obtain ⟨l, latest'⟩ := chronological.dated first (List.mem_cons_self ..)
      exact absurd (oldest first (List.mem_cons_self ..) different k l latest latest')
        (Nat.lt_asymm (before key later l k latest' latest))
    · rintro rfl
      refine ⟨List.mem_cons_self .., fun other member different => ?_⟩
      exact before other ((List.mem_cons.mp member).resolve_left different)

end Chronological
