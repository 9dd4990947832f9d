import MpcCoordinator.Browser.Authentication
import MpcCoordinator.General.Refinement
import Mathlib.Data.Multiset.Filter

namespace MpcCoordinator

/-- Zeros first, then counts that are not zero and increase. -/
def CountsUp (counts : List UInt32) : Prop :=
  ∃ zeros rising, counts = List.replicate zeros 0 ++ rising ∧ (∀ n ∈ rising, n ≠ 0) ∧ rising.Pairwise (· < ·)

namespace CountsUp

variable {counts : List UInt32} {n : UInt32}

theorem nil : CountsUp [] := ⟨0, [], rfl, by simp, .nil⟩

/-- Another count may follow if it is greater than the last one, or both are zero. -/
theorem append (up : CountsUp counts) (next : counts.getLastD 0 = 0 ∧ n = 0 ∨ counts.getLastD 0 < n) :
    CountsUp (counts ++ [n]) := by
  obtain ⟨zeros, rising, rfl, nonzero, increasing⟩ := up
  rcases List.eq_nil_or_concat rising with rfl | ⟨front, last, rfl⟩
  · rw [List.append_nil]
    by_cases zero : n = 0
    · subst zero
      exact ⟨zeros + 1, [], by simp [List.replicate_succ'], by simp, .nil⟩
    · exact ⟨zeros, [n], rfl, by simpa using zero, List.pairwise_singleton _ _⟩
  · rw [List.concat_eq_append] at nonzero increasing next ⊢
    rw [← List.append_assoc, List.getLastD_concat] at next
    -- the last count is not zero, so the next one is greater
    have last_lt : last < n := next.resolve_left fun both => nonzero last (by simp) both.1
    refine ⟨zeros, front ++ [last] ++ [n], by simp, fun m member => ?_, ?_⟩
    · rcases List.mem_append.mp member with old | new
      · exact nonzero m old
      · obtain rfl := List.mem_singleton.mp new
        rintro rfl
        exact Nat.not_lt_zero _ last_lt
    · refine List.pairwise_append.mpr ⟨increasing, List.pairwise_singleton _ _, fun m old m' new => ?_⟩
      obtain rfl := List.mem_singleton.mp new
      rcases List.mem_append.mp old with earlier | here
      · exact UInt32.lt_trans ((List.pairwise_append.mp increasing).2.2 m earlier last (by simp)) last_lt
      · rwa [List.mem_singleton.mp here]

/-- A count that is not zero occurs once at most. -/
theorem count_le_one (up : CountsUp counts) (nonzero : n ≠ 0) : counts.count n ≤ 1 := by
  obtain ⟨zeros, rising, rfl, _, increasing⟩ := up
  have absent : (List.replicate zeros (0 : UInt32)).count n = 0 := by
    rw [List.count_eq_zero]
    exact fun member => nonzero (List.eq_of_mem_replicate member)
  have distinct : rising.Nodup := increasing.imp fun less => UInt32.ne_of_lt less
  rw [List.count_append, absent, Nat.zero_add]
  exact List.nodup_iff_count_le_one.mp distinct n

end CountsUp

namespace SignCounts

variable {counts counts' : SignCounts} {c other : ClientIdentity} {signCount : UInt32}

/-- The last known count of an identity, zero if there is none. -/
def lastOf (counts : SignCounts) (c : ClientIdentity) : UInt32 := (counts.lastKnown c).getD 0

theorem accept_ok (accepted : counts.accept c signCount = .ok counts') :
    (counts.lastOf c = 0 ∧ signCount = 0 ∨ counts.lastOf c < signCount) ∧ counts'.lastOf c = signCount ∧
      ∀ other ≠ c, counts'.lastOf other = counts.lastOf other := by
  unfold accept authError rpcError at accepted
  dsimp only at accepted
  split at accepted
  · cases accepted
  · rename_i passed
    cases accepted
    refine ⟨?_, by simp [lastOf], fun other apart => by simp [lastOf, Table.insert_of_ne _ _ apart]⟩
    by_cases idle : signCount = 0 ∧ (counts.lastKnown c).getD 0 = 0
    · exact .inl ⟨idle.2, idle.1⟩
    · refine .inr (UInt32.not_le.mp fun low => passed ⟨?_, low⟩)
      by_contra neither
      rw [not_or, not_not, not_not] at neither
      exact idle neither

end SignCounts

/-- What a process does for a ceremony once its assertion has verified: it
accepts the sign count, and stores the session. -/
inductive BindEvent where
  | counted (assertion : WebauthnAssertion) (identity : ClientIdentity) (signCount : UInt32)
  | bound (assertion : WebauthnAssertion) (identity : ClientIdentity)
  deriving DecidableEq, Repr

/-- The sign count that is accepted for an identity. -/
def BindEvent.countFor (c : ClientIdentity) : BindEvent → Option UInt32
  | .counted _ identity signCount => if identity = c then some signCount else none
  | .bound _ _ => none

def acceptedCounts (c : ClientIdentity) (events : List BindEvent) : List UInt32 := events.filterMap (BindEvent.countFor c)

theorem acceptedCounts_append (c : ClientIdentity) (events : List BindEvent) (event : BindEvent) :
    acceptedCounts c (events ++ [event]) = acceptedCounts c events ++ (event.countFor c).toList := by
  cases found : event.countFor c <;> simp [acceptedCounts, found]

/-- What is selected from a list before an element leaves it is what is selected
of the element and of the others. -/
theorem coe_filterMap_erase {τ β : Type} [DecidableEq τ] (select : τ → Option β) {tasks : List τ} {task : τ}
    (member : task ∈ tasks) : (↑(tasks.filterMap select) : Multiset β) =
      ↑((select task).toList ++ (tasks.erase task).filterMap select) := by
  rw [Multiset.coe_eq_coe]
  have split := (List.perm_cons_erase member).filterMap select
  cases found : select task with
  | none => rwa [List.filterMap_cons_none found] at split
  | some ceremony => rwa [List.filterMap_cons_some found] at split

/-- The counts of a process, and its ceremonies that are counted but have not
stored their session. -/
structure BindLedger where
  counts : SignCounts
  pending : Multiset (WebauthnAssertion × ClientIdentity)

namespace BindLedger

def empty : BindLedger := ⟨.empty, 0⟩

inductive Step : BindLedger → BindEvent → BindLedger → Prop
  | counted {counts counts' pending assertion identity} : counts.accept identity assertion.signCount = .ok counts' →
      Step ⟨counts, pending⟩ (.counted assertion identity assertion.signCount) ⟨counts', (assertion, identity) ::ₘ pending⟩
  | bound {counts pending assertion identity} :
      Step ⟨counts, (assertion, identity) ::ₘ pending⟩ (.bound assertion identity) ⟨counts, pending⟩

variable {trace : List (Transition BindLedger BindEvent)} {ledger : BindLedger} {c : ClientIdentity}

/-- The accepted counts go up, and the last of them is the last known one. -/
theorem countsUp_of_run (run : Run Step empty trace ledger) (c : ClientIdentity) :
    CountsUp (acceptedCounts c (trace.map Transition.event)) ∧
      ledger.counts.lastOf c = (acceptedCounts c (trace.map Transition.event)).getLastD 0 := by
  induction run with
  | start => exact ⟨.nil, rfl⟩
  | @next earlier current event after _ step ih =>
    obtain ⟨up, last⟩ := ih
    simp only [List.map_append, List.map_cons, List.map_nil, acceptedCounts_append]
    cases step with
    | @counted counts counts' pending assertion identity accepted =>
      obtain ⟨next, stored, others⟩ := SignCounts.accept_ok accepted
      by_cases same : identity = c
      · subst same
        rw [BindEvent.countFor, if_pos rfl, Option.toList_some, List.getLastD_concat]
        exact ⟨up.append (by rwa [← last]), stored⟩
      · rw [BindEvent.countFor, if_neg same, Option.toList_none, List.append_nil, others c (Ne.symm same)]
        exact ⟨up, last⟩
    | bound =>
      rw [BindEvent.countFor, Option.toList_none, List.append_nil]
      exact ⟨up, last⟩

theorem Step.balance {event : BindEvent} {ledger' : BindLedger} (step : ledger.Step event ledger')
    (assertion : WebauthnAssertion) (c : ClientIdentity) :
    [event].count (.bound assertion c) + ledger'.pending.count (assertion, c) =
      [event].count (.counted assertion c assertion.signCount) + ledger.pending.count (assertion, c) := by
  cases step with
  | @counted counts counts' pending other identity _ =>
    by_cases same : (other, identity) = (assertion, c)
    · obtain ⟨rfl, rfl⟩ := Prod.mk.inj same
      simp [Nat.add_comm]
    · have apart : BindEvent.counted other identity other.signCount ≠ .counted assertion c assertion.signCount := by
        rintro ⟨⟩
        exact same rfl
      simp [Multiset.count_cons_of_ne (Ne.symm same), apart]
  | @bound counts pending other identity =>
    by_cases same : (other, identity) = (assertion, c)
    · obtain ⟨rfl, rfl⟩ := Prod.mk.inj same
      simp [Nat.add_comm]
    · have apart : BindEvent.bound other identity ≠ .bound assertion c := by
        rintro ⟨⟩
        exact same rfl
      simp [Multiset.count_cons_of_ne (Ne.symm same), apart]

/-- Every ceremony that is counted is pending or has stored its session. -/
theorem balance_of_run (run : Run Step empty trace ledger) (assertion : WebauthnAssertion) (c : ClientIdentity) :
    (trace.map Transition.event).count (.bound assertion c) + ledger.pending.count (assertion, c) =
      (trace.map Transition.event).count (.counted assertion c assertion.signCount) := by
  induction run with
  | start => rfl
  | @next earlier current event after _ step ih =>
    have moved := step.balance assertion c
    simp only [List.map_append, List.map_cons, List.map_nil, List.count_append]
    omega

/-- A ceremony that is counted is one of the accepted counts of its identity. -/
theorem count_le_acceptedCounts (events : List BindEvent) (assertion : WebauthnAssertion) (c : ClientIdentity)
    (signCount : UInt32) :
    events.count (.counted assertion c signCount) ≤ (acceptedCounts c events).count signCount := by
  rw [acceptedCounts, List.count_filterMap]
  refine List.countP_mono_left fun event _ same => ?_
  obtain rfl := eq_of_beq same
  simp [BindEvent.countFor]

/-- An assertion that counts stores one session at most. -/
theorem bound_at_most_once (run : Run Step empty trace ledger) {assertion : WebauthnAssertion}
    (counts : assertion.signCount ≠ 0) : (trace.map Transition.event).count (.bound assertion c) ≤ 1 :=
  calc (trace.map Transition.event).count (.bound assertion c)
      ≤ (trace.map Transition.event).count (.counted assertion c assertion.signCount) := by
        rw [← balance_of_run run]
        exact Nat.le_add_right _ _
    _ ≤ (acceptedCounts c (trace.map Transition.event)).count assertion.signCount := count_le_acceptedCounts _ _ _ _
    _ ≤ 1 := (countsUp_of_run run c).1.count_le_one counts

end BindLedger

namespace CoordinatorListener

variable {listener : CoordinatorListener} {request : BindWebauthnIdentity} {order : List ClientIdentity}
  {c : ClientIdentity} {signCount : UInt32}

/-- The sign count of a ceremony that passes its checks is that of its assertion. -/
theorem checkBind_signCount {coordinator : CoordinatorRPCServerSharedBase}
    (passed : listener.checkBind coordinator request order = .ok (c, signCount)) :
    signCount = request.assertion.signCount := by
  obtain ⟨d, _, resolved, _⟩ := checkBind_ok passed
  have verified : listener.verifyBind request c = some signCount := by
    unfold resolveIdentity at resolved
    split at resolved
    · rename_i matched
      cases resolved
      rcases Option.or_eq_some_iff.mp matched with indexed | ⟨_, scanned⟩
      · exact (indexedMatch_some indexed).2
      · exact (scanCandidates_some scanned).2
    · cases resolved
  exact (Primitives.verifyWebauthnAssertion_some verified).1

end CoordinatorListener

/-- The ceremony that has been counted and not stored, if the request is one. -/
def BrowserTask.pending : BrowserTask → Option (WebauthnAssertion × ClientIdentity)
  | .counted request clientIdentity => some (request.assertion, clientIdentity)
  | _ => none

namespace CoordinatorBrowserState

variable {listener : CoordinatorListener} {s s' final : CoordinatorBrowserState} {event : ServerEvent}
  {trace : List (Transition CoordinatorBrowserState ServerEvent)}

/-- What a step does for a ceremony: a sign count is accepted, or a session is stored. -/
def ceremonyOf (s : CoordinatorBrowserState) : ServerEvent → Option BindEvent
  | .bindCount request clientIdentity signCount =>
    match s.signCounts.accept clientIdentity signCount with
    | .ok _ => some (.counted request.assertion clientIdentity signCount)
    | .error _ => none
  | .bindInsert request clientIdentity _ => some (.bound request.assertion clientIdentity)
  | _ => none

/-- The accepted sign counts and stored sessions of a run. -/
def ceremonies (trace : List (Transition CoordinatorBrowserState ServerEvent)) : List BindEvent :=
  trace.filterMap fun τ => τ.source.ceremonyOf τ.event

/-- The ceremonies in flight carry the sign counts of their assertions. -/
def CarriesCounts (s : CoordinatorBrowserState) : Prop :=
  ∀ request c signCount, .checked request c signCount ∈ s.inFlight → signCount = request.assertion.signCount

theorem CarriesCounts.step (carries : CarriesCounts s) (step : s.Step listener event s') : CarriesCounts s' := by
  intro request c signCount member
  rcases step.arrives member with old | new
  · exact carries request c signCount old
  · cases new with
    | checked passed => exact CoordinatorListener.checkBind_signCount passed

def ledger (s : CoordinatorBrowserState) : BindLedger := ⟨s.signCounts, ↑(s.inFlight.filterMap BrowserTask.pending)⟩

/-- A step is one of the ledger, or leaves it as it is. -/
theorem Step.ledger_cases (carries : CarriesCounts s) (step : s.Step listener event s') :
    s.ceremonyOf event = none ∧ s'.ledger = s.ledger ∨
      ∃ name, s.ceremonyOf event = some name ∧ BindLedger.Step s.ledger name s'.ledger := by
  have origin : ∀ earlier, taskOf event = some earlier → earlier ∈ s.inFlight := fun _ mine => step.in_flight mine
  have shifted := step.shifts
  unfold ledger
  generalize s'.inFlight = inFlight, s'.signCounts = signCounts at shifted
  have unlabelled : taskOf event = none → s.ceremonyOf event = none := by
    intro untasked
    cases event <;> first | rfl | cases untasked
  cases shifted with
  | nothing untasked => exact .inl ⟨unlabelled untasked, rfl⟩
  | @evicting party registration order executionId =>
    refine .inl ⟨rfl, ?_⟩
    rw [List.filterMap_map]
    congr 3
    funext task
    rcases task.afterDrop_cases executionId with kept | ⟨call, identity, rfl, _, dropped⟩
    · rw [Function.comp_apply, kept]
    · rw [Function.comp_apply, dropped]
      rfl
  | @arriving event task untasked arrived =>
    have quiet : task.pending = none := by
      cases arrived <;> first | rfl | cases untasked
    exact .inl ⟨unlabelled untasked, by rw [List.filterMap_cons_none quiet]⟩
  | @leaving event task mine refused =>
    rw [coe_filterMap_erase BrowserTask.pending (origin _ mine)]
    cases event with
    | bindCount request clientIdentity signCount =>
      cases mine
      refine .inl ⟨?_, rfl⟩
      simp only [ceremonyOf]
      split
      · rename_i accepted
        exact absurd accepted (refused _ _ _ _ rfl)
      · rfl
    | bindInsert request clientIdentity draws =>
      cases mine
      let others := (s.inFlight.erase (.counted request clientIdentity)).filterMap BrowserTask.pending
      exact .inr ⟨_, rfl, @BindLedger.Step.bound s.signCounts ↑others request.assertion clientIdentity⟩
    | readClock | acceptNonce | reserve | submit | finish | pin =>
      cases mine
      exact .inl ⟨rfl, rfl⟩
    | register | retire | watch | requestShutdown | native | bindCheck | identify => cases mine
  | @advancing event task later mine arrived uncounted =>
    rw [coe_filterMap_erase BrowserTask.pending (origin _ mine)]
    cases arrived with
    | counted => exact absurd rfl (uncounted _ _)
    | checked | identified | orphaned => cases mine
    | timed | authenticated | submitting | submitted =>
      cases mine
      exact .inl ⟨rfl, rfl⟩
  | @counting request clientIdentity signCount _ accepted checked =>
    rw [coe_filterMap_erase BrowserTask.pending checked]
    obtain rfl := carries request clientIdentity signCount checked
    exact .inr ⟨_, by simp only [ceremonyOf, accepted], .counted accepted⟩

/-- A coordinator is a ledger of ceremonies. -/
def coordinatorLedger (listener : CoordinatorListener) : Refinement (Step listener) BindLedger.Step where
  view := ledger
  label := ceremonyOf
  Sound := CarriesCounts
  kept carries step := carries.step step
  seen carries step := step.ledger_cases carries

theorem exists_ledger_run (run : Run (Step listener) start trace final) :
    ∃ seen, Run BindLedger.Step .empty seen final.ledger ∧ seen.map Transition.event = ceremonies trace :=
  (coordinatorLedger listener).exists_run (fun _ _ _ member => by cases member) run

end CoordinatorBrowserState

end MpcCoordinator
