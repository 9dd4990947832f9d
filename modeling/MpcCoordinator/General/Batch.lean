import Mathlib.Data.List.Perm.Basic
import Mathlib.Data.List.Dedup

namespace Batch

variable {σ α ε ρ : Type}

/-- A call that takes a list of elements. It fails, or gives a list of replies. -/
abbrev Call (σ α ε ρ : Type) := List α → σ → Except ε (List ρ) × σ

/-- One call for each element, with no result if one of them fails. -/
def singly (call : Call σ α ε ρ) : List α → σ → Option (List ρ × σ)
  | [], s => some ([], s)
  | a :: rest, s =>
    match call [a] s with
    | (.error _, _) => none
    | (.ok replies, s) => (singly call rest s).map fun later => (replies ++ later.1, later.2)

/-- The call treats a batch like its elements one after the other, with the same
replies in some order, or leaves no trace of it. -/
structure LikeSingly (call : Call σ α ε ρ) (batch : List α) (s : σ) : Prop where
  succeeds : (∃ replies s', call batch s = (.ok replies, s')) ↔ (singly call batch s).isSome = true
  same : ∀ replies s', call batch s = (.ok replies, s') →
    ∃ others, singly call batch s = some (others, s') ∧ replies.Perm others
  unchanged : ∀ refusal s', call batch s = (.error refusal, s') → s' = s

variable {call : Call σ α ε ρ} {batch : List α} {s s' : σ}

theorem likeSingly_iff_of_ok {replies : List ρ} (done : call batch s = (.ok replies, s')) :
    LikeSingly call batch s ↔ ∃ others, singly call batch s = some (others, s') ∧ replies.Perm others := by
  constructor
  · intro like
    exact like.same replies s' done
  · rintro ⟨others, single, perm⟩
    refine ⟨iff_of_true ⟨replies, s', done⟩ (by rw [single]; rfl), ?_, ?_⟩
    · intro other after again
      cases done.symm.trans again
      exact ⟨others, single, perm⟩
    · intro refusal after failed
      cases done.symm.trans failed

theorem likeSingly_iff_of_error {refusal : ε} (failed : call batch s = (.error refusal, s')) :
    LikeSingly call batch s ↔ s' = s ∧ singly call batch s = none := by
  have never : ¬ ∃ replies after, call batch s = (.ok replies, after) := by
    rintro ⟨replies, after, done⟩
    cases failed.symm.trans done
  constructor
  · intro like
    refine ⟨like.unchanged refusal s' failed, ?_⟩
    rw [← Option.not_isSome_iff_eq_none, ← like.succeeds]
    exact never
  · rintro ⟨rfl, single⟩
    refine ⟨iff_of_false never (by simp [single]), fun replies after done => absurd ⟨replies, after, done⟩ never, ?_⟩
    intro other after again
    cases failed.symm.trans again
    rfl

/-- A call that can be split after its first element can be made singly. -/
theorem singly_of_split (Good : List α → σ → Prop) (nil : ∀ s, call [] s = (.ok [], s))
    (split : ∀ a rest s, Good (a :: rest) s → ∃ replies middle later final all, call [a] s = (.ok replies, middle) ∧
      Good rest middle ∧ call rest middle = (.ok later, final) ∧ call (a :: rest) s = (.ok all, final) ∧
      all.Perm (replies ++ later)) (good : Good batch s) :
    ∃ replies others s', call batch s = (.ok replies, s') ∧ singly call batch s = some (others, s') ∧
      replies.Perm others := by
  induction batch generalizing s with
  | nil => exact ⟨[], [], s, nil s, rfl, .nil⟩
  | cons a rest ih =>
    obtain ⟨replies, middle, later, final, all, first, goodRest, second, whole, perm⟩ := split a rest s good
    obtain ⟨_, others, _, again, single, same⟩ := ih goodRest
    cases second.symm.trans again
    refine ⟨all, replies ++ others, final, whole, ?_, perm.trans (same.append_left replies)⟩
    simp only [singly, first, single, Option.map_some]

/-- An element that stays refused cannot be added singly. -/
theorem singly_eq_none (Blocked : α → σ → Prop)
    (refused : ∀ a s, Blocked a s → ∃ refusal s', call [a] s = (.error refusal, s'))
    (stays : ∀ a b s replies s', Blocked a s → call [b] s = (.ok replies, s') → Blocked a s') {a : α}
    (member : a ∈ batch) (blocked : Blocked a s) : singly call batch s = none := by
  induction batch generalizing s with
  | nil => cases member
  | cons b rest ih =>
    rw [singly]
    split
    · rfl
    · rename_i replies middle first
      rcases List.mem_cons.mp member with rfl | later
      · obtain ⟨refusal, after, failed⟩ := refused _ s blocked
        cases failed.symm.trans first
      · rw [ih later (stays a b s replies middle blocked first)]
        rfl

theorem filterMap_eq_of_agree {κ : Type} {f g : κ → Option ρ} {keys : List κ}
    (agree : ∀ k ∈ keys, ∀ reply, f k = some reply → g k = some reply) :
    keys.filterMap f = (keys.filter fun k => (f k).isSome).filterMap g := by
  rw [List.filterMap_filter]
  refine List.filterMap_congr fun k member => ?_
  cases given : f k with
  | none => simp
  | some reply => simp [agree k member reply given]

/-- Replies to different keys are the same in some order, if they can be given to
some of the keys first and then to the others. -/
theorem perm_filterMap {κ : Type} {f g h : κ → Option ρ} {whole first rest : List κ} (distinct : whole.Nodup)
    (distinctFirst : first.Nodup) (distinctRest : rest.Nodup)
    (early : ∀ k ∈ first, ∀ reply, g k = some reply → k ∈ whole ∧ f k = some reply ∧ h k = none)
    (late : ∀ k ∈ rest, ∀ reply, h k = some reply → k ∈ whole ∧ f k = some reply)
    (all : ∀ k ∈ whole, (f k).isSome = true → k ∈ first ∧ (g k).isSome = true ∨ k ∈ rest ∧ (h k).isSome = true) :
    (whole.filterMap f).Perm (first.filterMap g ++ rest.filterMap h) := by
  rw [filterMap_eq_of_agree fun _ _ _ given => given,
    filterMap_eq_of_agree fun k member reply given => (early k member reply given).2.1,
    filterMap_eq_of_agree fun k member reply given => (late k member reply given).2, ← List.filterMap_append]
  refine List.Perm.filterMap f ((List.perm_ext_iff_of_nodup (distinct.filter _) ?_).mpr fun k => ?_)
  · refine List.nodup_append.mpr ⟨distinctFirst.filter _, distinctRest.filter _, ?_⟩
    rintro k inFirst _ inRest rfl
    obtain ⟨member, given⟩ := List.mem_filter.mp inFirst
    obtain ⟨reply, given⟩ := Option.isSome_iff_exists.mp given
    have missing := (early k member reply given).2.2
    simp [missing] at inRest
  · simp only [List.mem_append, List.mem_filter]
    constructor
    · rintro ⟨member, given⟩
      exact all k member given
    · rintro (⟨member, given⟩ | ⟨member, given⟩)
      · obtain ⟨reply, given⟩ := Option.isSome_iff_exists.mp given
        obtain ⟨inWhole, same, _⟩ := early k member reply given
        exact ⟨inWhole, by simp [same]⟩
      · obtain ⟨reply, given⟩ := Option.isSome_iff_exists.mp given
        obtain ⟨inWhole, same⟩ := late k member reply given
        exact ⟨inWhole, by simp [same]⟩

section Fold

variable {step : σ → α → σ} {elements others : List α}

/-- An element that comes again later may be left out. -/
theorem foldl_absorb {a : α} (commute : ∀ b ∈ elements, ∀ s, step (step s a) b = step (step s b) a)
    (repeated : ∀ s, step (step s a) a = step s a) (member : a ∈ elements) (s : σ) :
    elements.foldl step (step s a) = elements.foldl step s := by
  induction elements generalizing s with
  | nil => cases member
  | cons b rest ih =>
    rw [List.foldl_cons, List.foldl_cons]
    by_cases here : a = b
    · rw [← here, repeated]
    · rw [commute b (List.mem_cons_self ..)]
      exact ih (fun c inside => commute c (List.mem_cons_of_mem b inside))
        ((List.mem_cons.mp member).resolve_left here) (step s b)

theorem foldl_dedup [DecidableEq α] (commute : ∀ a ∈ elements, ∀ b ∈ elements, ∀ s, step (step s a) b = step (step s b) a)
    (repeated : ∀ a ∈ elements, ∀ s, step (step s a) a = step s a) (s : σ) :
    elements.dedup.foldl step s = elements.foldl step s := by
  induction elements generalizing s with
  | nil => rfl
  | cons a rest ih =>
    have later := ih (fun b inside c inside' => commute b (List.mem_cons_of_mem a inside) c (List.mem_cons_of_mem a inside'))
      fun b inside => repeated b (List.mem_cons_of_mem a inside)
    have first := List.mem_cons_self (a := a) (l := rest)
    by_cases again : a ∈ rest
    · rw [List.dedup_cons_of_mem again, later, List.foldl_cons]
      exact (foldl_absorb (fun b inside => commute a first b (List.mem_cons_of_mem a inside)) (repeated a first) again s).symm
    · rw [List.dedup_cons_of_notMem again, List.foldl_cons, List.foldl_cons, later]

/-- Steps that commute, and have no effect the second time, come to the same for
lists with the same elements, in whatever order and however often. -/
theorem foldl_eq_of_mem_iff (commute : ∀ a ∈ elements, ∀ b ∈ elements, ∀ s, step (step s a) b = step (step s b) a)
    (repeated : ∀ a ∈ elements, ∀ s, step (step s a) a = step s a) (same : ∀ a, a ∈ elements ↔ a ∈ others) (s : σ) :
    elements.foldl step s = others.foldl step s := by
  classical
  have perm : elements.dedup.Perm others.dedup :=
    (List.perm_ext_iff_of_nodup elements.nodup_dedup others.nodup_dedup).mpr fun a => by
      rw [List.mem_dedup, List.mem_dedup, same]
  calc elements.foldl step s
      _ = elements.dedup.foldl step s := (foldl_dedup commute repeated s).symm
      _ = others.dedup.foldl step s := perm.foldl_eq' (fun a inside b inside' s =>
          commute a (List.mem_dedup.mp inside) b (List.mem_dedup.mp inside') s) s
      _ = others.foldl step s := foldl_dedup
          (fun a inside b inside' => commute a ((same a).mpr inside) b ((same b).mpr inside'))
          (fun a inside => repeated a ((same a).mpr inside)) s

end Fold

end Batch
