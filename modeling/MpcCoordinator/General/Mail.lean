import Mathlib.Data.List.Basic
import Mathlib.Data.List.Nodup

/-- Messages with their recipients: those that were handed over to be sent, and
those that were sent, in order and each with whether it got through. -/
structure Mail (κ μ : Type) where
  outbox : List (κ × μ)
  sent : List (κ × μ × Bool)

namespace Mail

variable {κ ν : Type} [DecidableEq κ]

/-- What a list holds for one key. -/
def select (key : κ) (entries : List (κ × ν)) : List ν :=
  (entries.filter fun entry => decide (entry.1 = key)).map Prod.snd

@[simp] theorem select_nil (key : κ) : select key ([] : List (κ × ν)) = [] := rfl

@[simp] theorem select_append (key : κ) (before after : List (κ × ν)) :
    select key (before ++ after) = select key before ++ select key after := by
  simp [select]

theorem mem_select {key : κ} {entries : List (κ × ν)} {value : ν} :
    value ∈ select key entries ↔ (key, value) ∈ entries := by
  simp only [select, List.mem_map, List.mem_filter, decide_eq_true_eq]
  constructor
  · rintro ⟨⟨_, _⟩, ⟨member, rfl⟩, rfl⟩
    exact member
  · intro member
    exact ⟨_, ⟨member, rfl⟩, rfl⟩

theorem select_eq_nil {key : κ} {entries : List (κ × ν)} (absent : ∀ entry ∈ entries, entry.1 ≠ key) :
    select key entries = [] := by
  rw [select, List.map_eq_nil_iff, List.filter_eq_nil_iff]
  simpa using absent

/-- What is left out was for other keys. -/
theorem select_map_filter {ι : Type} {key : κ} {entry : ι → κ × ν} {keeps : ι → Bool} {values : List ι}
    (kept : ∀ x, (entry x).1 = key → keeps x = true) :
    select key ((values.filter keeps).map entry) = select key (values.map entry) := by
  simp only [select, List.filter_map, List.filter_filter]
  congr 2
  refine List.filter_congr fun x _ => ?_
  by_cases named : (entry x).1 = key
  · simp [named, kept x named]
  · simp [named]

/-- A list that is all for one key. -/
theorem select_map_self {ι : Type} (key : κ) (values : List ι) (value : ι → ν) :
    select key (values.map fun x => (key, value x)) = values.map value := by
  rw [select, List.filter_eq_self.mpr (by simp), List.map_map]
  rfl

/-- A round of one message to each of several recipients. -/
theorem select_map {ι : Type} {recipients : List ι} (address : ι → κ) (distinct : recipients.Nodup)
    (apart : Function.Injective address) (value : ι → ν) {x : ι} (member : x ∈ recipients) :
    select (address x) (recipients.map fun y => (address y, value y)) = [value x] := by
  induction recipients with
  | nil => cases member
  | cons first rest ih =>
    obtain ⟨absent, later⟩ := List.nodup_cons.mp distinct
    have split : ((first :: rest).map fun y => (address y, value y)) =
        [(address first, value first)] ++ rest.map fun y => (address y, value y) := rfl
    rw [split, select_append]
    rcases List.mem_cons.mp member with rfl | inside
    · have nothing : select (address x) (rest.map fun y => (address y, value y)) = [] := by
        refine select_eq_nil fun entry held same => ?_
        obtain ⟨y, inRest, rfl⟩ := List.mem_map.mp held
        exact absent (apart same ▸ inRest)
      rw [nothing]
      simp [select]
    · have other : address first ≠ address x := by
        intro same
        exact absent (apart same ▸ inside)
      rw [ih later inside, select_eq_nil (by simpa using other)]
      rfl

theorem select_erase_of_ne [DecidableEq ν] {key : κ} {entry : κ × ν} (different : entry.1 ≠ key)
    (entries : List (κ × ν)) : select key (entries.erase entry) = select key entries := by
  rw [select, ← List.erase_filter, List.erase_of_not_mem]
  · rfl
  · simp [different]

theorem select_erase_only [DecidableEq ν] {key : κ} {value : ν} {entries : List (κ × ν)}
    (only : select key entries = [value]) : select key (entries.erase (key, value)) = [] := by
  obtain ⟨entry, found, rfl⟩ := List.map_eq_singleton_iff.mp only
  have mine : entry ∈ entries.filter fun entry => decide (entry.1 = key) := by simp [found]
  have named : entry.1 = key := by simpa using (List.mem_filter.mp mine).2
  rw [select, ← List.erase_filter, found, ← named]
  simp

variable {μ : Type}

/-- What is still to be sent to a recipient. -/
def queuedFor (mail : Mail κ μ) (key : κ) : List μ := select key mail.outbox

/-- What was sent to a recipient, with the outcomes. -/
def sendsTo (mail : Mail κ μ) (key : κ) : List (μ × Bool) := select key mail.sent

/-- How the last send to a recipient ended. -/
def lastOutcome (mail : Mail κ μ) (key : κ) : Option Bool := (mail.sendsTo key).getLast?.map Prod.snd

def empty : Mail κ μ := ⟨[], []⟩

/-- Messages are handed over to be sent. -/
def hand (mail : Mail κ μ) (entries : List (κ × μ)) : Mail κ μ := { mail with outbox := mail.outbox ++ entries }

/-- Messages are sent at once. -/
def post (mail : Mail κ μ) (entries : List (κ × μ × Bool)) : Mail κ μ := { mail with sent := mail.sent ++ entries }

/-- A message that was handed over is sent. -/
def send [DecidableEq μ] (mail : Mail κ μ) (entry : κ × μ) (delivered : Bool) : Mail κ μ where
  outbox := mail.outbox.erase entry
  sent := mail.sent ++ [(entry.1, entry.2, delivered)]

/-- Nothing happened to what a recipient was sent and will be sent. -/
structure SameFor (key : κ) (mail mail' : Mail κ μ) : Prop where
  queued : mail'.queuedFor key = mail.queuedFor key
  sends : mail'.sendsTo key = mail.sendsTo key

variable {mail mail' : Mail κ μ} {key : κ}

@[simp] theorem queuedFor_hand (entries : List (κ × μ)) :
    (mail.hand entries).queuedFor key = mail.queuedFor key ++ select key entries :=
  select_append ..

@[simp] theorem sendsTo_hand (entries : List (κ × μ)) : (mail.hand entries).sendsTo key = mail.sendsTo key := rfl

@[simp] theorem queuedFor_post (entries : List (κ × μ × Bool)) :
    (mail.post entries).queuedFor key = mail.queuedFor key := rfl

@[simp] theorem sendsTo_post (entries : List (κ × μ × Bool)) :
    (mail.post entries).sendsTo key = mail.sendsTo key ++ select key entries :=
  select_append ..

theorem SameFor.refl (key : κ) (mail : Mail κ μ) : SameFor key mail mail := ⟨rfl, rfl⟩

/-- Mail for others. -/
theorem sameFor_of_select {entries : List (κ × μ)} {sends : List (κ × μ × Bool)} (nothing : select key entries = [])
    (silent : select key sends = []) : SameFor key mail ((mail.hand entries).post sends) := by
  constructor <;> simp [nothing, silent]

theorem sameFor_send_of_ne [DecidableEq μ] {entry : κ × μ} {delivered : Bool} (different : entry.1 ≠ key) :
    SameFor key mail (mail.send entry delivered) := by
  constructor
  · exact select_erase_of_ne different _
  · have nothing : select key [(entry.1, entry.2, delivered)] = [] := select_eq_nil (by simpa using different)
    rw [sendsTo, send, select_append, nothing, List.append_nil]
    rfl

/-- The one message that was waiting for a recipient is sent. -/
theorem send_only [DecidableEq μ] {message : μ} (only : mail.queuedFor key = [message]) (delivered : Bool) :
    (mail.send (key, message) delivered).queuedFor key = [] ∧
      (mail.send (key, message) delivered).sendsTo key = mail.sendsTo key ++ [(message, delivered)] := by
  refine ⟨select_erase_only only, ?_⟩
  rw [sendsTo, send, select_append]
  simp [select, sendsTo]

end Mail
