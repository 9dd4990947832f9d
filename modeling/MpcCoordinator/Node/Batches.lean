import MpcCoordinator.Node.Completion

namespace MpcCoordinator

open NodeRPCExecutionState in
/-- A kind of batch: which elements it takes, how it records one of them, and
whose requests are then looked at. -/
structure Recorder (α : Type) where
  index : α → UInt64
  encodes : α → Bool
  taken : NodeRPCExecutionState → UInt64 → Bool
  client : NodeRPCExecutionState → α → Option ClientIdentity
  record : NodeRPCExecutionState → α → NodeRPCExecutionState
  taken_record : ∀ d a i, taken (record d a) i = (decide (i = index a) || taken d i)
  extension : ∀ d a, taken d (index a) = false → Extends d (record d a)
  elsewhere : ∀ d a i, i ≠ index a →
    (record d a).indexToClient i = d.indexToClient i ∧ (record d a).maskShares i = d.maskShares i
  owner : ∀ d a, (record d a).indexToClient (index a) = client d a
  client_record : ∀ d a b, client (record d b) a = client d a
  sinks : ∀ d a, (record d a).assignedSinks = d.assignedSinks
  record_withSinks : ∀ d a sinks, record (d.withSinks sinks) a = (record d a).withSinks sinks
  taken_withSinks : ∀ d i sinks, taken (d.withSinks sinks) i = taken d i
  client_withSinks : ∀ d a sinks, client (d.withSinks sinks) a = client d a

namespace Recorder

open NodeRPCExecutionState

variable {S α : Type} (recorder : Recorder α) (codec : ShareCodec S)

def recordAll (d : NodeRPCExecutionState) (batch : List α) : NodeRPCExecutionState := batch.foldl recorder.record d

def touched (d : NodeRPCExecutionState) (batch : List α) : List ClientIdentity :=
  (batch.filterMap (recorder.client d)).foldl touch []

/-- What both kinds of batch calls do. -/
def add : Batch.Call NodeRPCExecutionState α NodeRPCError MaskReply := fun batch d =>
  if batch.any fun a => recorder.taken d (recorder.index a) then (.error .indexAlreadyAdded, d)
  else if batch.all recorder.encodes then
    completeRequests codec (recorder.touched d batch) (recorder.recordAll d batch) []
  else (.error .serializationError, recorder.recordAll d (batch.takeWhile recorder.encodes))

variable {recorder codec} {d : NodeRPCExecutionState} {batch : List α}

theorem recordAll_nil : recorder.recordAll d [] = d := rfl

theorem recordAll_cons {a : α} {rest : List α} :
    recorder.recordAll d (a :: rest) = recorder.recordAll (recorder.record d a) rest := rfl

theorem recordAll_withSinks (sinks : Table ClientIdentity AssignedMaskRequest) :
    recorder.recordAll (d.withSinks sinks) batch = (recorder.recordAll d batch).withSinks sinks := by
  induction batch generalizing d with
  | nil => rfl
  | cons a rest ih => simpa only [recordAll, List.foldl_cons, recorder.record_withSinks] using ih

theorem sinks_recordAll : (recorder.recordAll d batch).assignedSinks = d.assignedSinks := by
  induction batch generalizing d with
  | nil => rfl
  | cons a rest ih => exact ih.trans (recorder.sinks d a)

theorem sinks_recordAll_cons {a : α} {rest : List α} :
    (recorder.recordAll d (a :: rest)).assignedSinks = (recorder.record d a).assignedSinks := by
  rw [sinks_recordAll, recorder.sinks]

theorem taken_recordAll {i : UInt64} : recorder.taken (recorder.recordAll d batch) i = true ↔
    i ∈ batch.map recorder.index ∨ recorder.taken d i = true := by
  induction batch generalizing d with
  | nil => simp [recordAll]
  | cons a rest ih =>
    rw [recordAll, List.foldl_cons, ← recordAll, ih, recorder.taken_record]
    simp only [List.map_cons, List.mem_cons, Bool.or_eq_true, decide_eq_true_eq]
    tauto

theorem elsewhere_recordAll {i : UInt64} (outside : i ∉ batch.map recorder.index) :
    (recorder.recordAll d batch).indexToClient i = d.indexToClient i ∧
      (recorder.recordAll d batch).maskShares i = d.maskShares i := by
  induction batch generalizing d with
  | nil => exact ⟨rfl, rfl⟩
  | cons a rest ih =>
    obtain ⟨different, later⟩ := not_or.mp (mt List.mem_cons.mpr outside)
    obtain ⟨owner, share⟩ := recorder.elsewhere d a i different
    obtain ⟨ownerLater, shareLater⟩ := ih later (d := recorder.record d a)
    exact ⟨ownerLater.trans owner, shareLater.trans share⟩

theorem extension_recordAll (vacant : ∀ a ∈ batch, recorder.taken d (recorder.index a) = false)
    (distinct : (batch.map recorder.index).Nodup) : Extends d (recorder.recordAll d batch) := by
  induction batch generalizing d with
  | nil => exact .refl d
  | cons a rest ih =>
    obtain ⟨first, others⟩ := List.forall_mem_cons.mp vacant
    obtain ⟨absent, later⟩ := List.nodup_cons.mp distinct
    refine (recorder.extension d a first).trans (ih (fun b member => ?_) later)
    have different : recorder.index b ≠ recorder.index a := fun same => absent (same ▸ List.mem_map_of_mem member)
    simp [recorder.taken_record, different, others b member]

/-- The owner of an index of the batch is the client whose request is looked at. -/
theorem owner_recordAll (distinct : (batch.map recorder.index).Nodup) {a : α} (member : a ∈ batch) :
    (recorder.recordAll d batch).indexToClient (recorder.index a) = recorder.client d a := by
  induction batch generalizing d with
  | nil => cases member
  | cons b rest ih =>
    obtain ⟨absent, later⟩ := List.nodup_cons.mp distinct
    rcases List.mem_cons.mp member with rfl | inRest
    · exact (elsewhere_recordAll absent).1.trans (recorder.owner d a)
    · exact (ih later inRest).trans (recorder.client_record d a b)

theorem mem_touched {id : ClientIdentity} :
    id ∈ recorder.touched d batch ↔ ∃ a ∈ batch, recorder.client d a = some id := by
  simp [touched, mem_foldl_touch]

theorem nodup_touched : (recorder.touched d batch).Nodup := nodup_foldl_touch List.nodup_nil

variable (recorder codec) in
/-- The batch can be added: its indices are new and distinct, all of it encodes,
and nobody whose request is looked at asks for what is another's. -/
structure Good (batch : List α) (d : NodeRPCExecutionState) : Prop where
  vacant : ∀ a ∈ batch, recorder.taken d (recorder.index a) = false
  distinct : (batch.map recorder.index).Nodup
  encodes : ∀ a ∈ batch, recorder.encodes a = true
  unrejected : ∀ a ∈ batch, ∀ id request, recorder.client d a = some id → d.assignedSinks id = some request →
    ¬ Rejected codec (recorder.recordAll d batch) id request

theorem add_eq_completeRequests (vacant : ∀ a ∈ batch, recorder.taken d (recorder.index a) = false)
    (encodes : ∀ a ∈ batch, recorder.encodes a = true) : recorder.add codec batch d =
      completeRequests codec (recorder.touched d batch) (recorder.recordAll d batch) [] := by
  have untaken : ¬ (batch.any fun a => recorder.taken d (recorder.index a)) = true := by simpa using vacant
  rw [add, if_neg untaken, if_pos (List.all_eq_true.mpr encodes)]

theorem add_ok (vacant : ∀ a ∈ batch, recorder.taken d (recorder.index a) = false)
    (encodes : ∀ a ∈ batch, recorder.encodes a = true)
    (unrejected : ∀ a ∈ batch, ∀ id request, recorder.client d a = some id → d.assignedSinks id = some request →
      ¬ Rejected codec (recorder.recordAll d batch) id request) : recorder.add codec batch d =
    (.ok ((recorder.touched d batch).filterMap (recorder.recordAll d batch).answer),
      (recorder.recordAll d batch).withSinks ((recorder.recordAll d batch).unserved (recorder.touched d batch))) := by
  rw [add_eq_completeRequests vacant encodes, completeRequests_eq nodup_touched, List.nil_append]
  intro id member request held
  obtain ⟨a, inside, mine⟩ := mem_touched.mp member
  rw [sinks_recordAll] at held
  exact unrejected a inside id request mine held

theorem add_rejected (vacant : ∀ a ∈ batch, recorder.taken d (recorder.index a) = false)
    (encodes : ∀ a ∈ batch, recorder.encodes a = true) {a : α} {id : ClientIdentity} {request : AssignedMaskRequest}
    (member : a ∈ batch) (mine : recorder.client d a = some id) (held : d.assignedSinks id = some request)
    (rejected : Rejected codec (recorder.recordAll d batch) id request) :
    ∃ refusal sinks, recorder.add codec batch d = (.error refusal, (recorder.recordAll d batch).withSinks sinks) := by
  rw [add_eq_completeRequests vacant encodes]
  refine completeRequests_error ⟨id, mem_touched.mpr ⟨a, member, mine⟩, request, ?_, rejected⟩
  rw [sinks_recordAll, held]

variable (recorder codec) in
/-- How a batch call ends. -/
inductive Outcome (batch : List α) (d : NodeRPCExecutionState) :
    Except NodeRPCError (List MaskReply) × NodeRPCExecutionState → Prop
  | taken {a} : a ∈ batch → recorder.taken d (recorder.index a) = true → Outcome batch d (.error .indexAlreadyAdded, d)
  | unencoded {a} : (∀ a ∈ batch, recorder.taken d (recorder.index a) = false) → a ∈ batch → recorder.encodes a = false →
      Outcome batch d (.error .serializationError, recorder.recordAll d (batch.takeWhile recorder.encodes))
  | rejected {a id request refusal sinks} : (∀ a ∈ batch, recorder.taken d (recorder.index a) = false) →
      (∀ a ∈ batch, recorder.encodes a = true) → a ∈ batch → recorder.client d a = some id →
      d.assignedSinks id = some request → Rejected codec (recorder.recordAll d batch) id request →
      Outcome batch d (.error refusal, (recorder.recordAll d batch).withSinks sinks)
  | added {replies sinks} : (∀ a ∈ batch, recorder.taken d (recorder.index a) = false) →
      (∀ a ∈ batch, recorder.encodes a = true) →
      (∀ a ∈ batch, ∀ id request, recorder.client d a = some id → d.assignedSinks id = some request →
        ¬ Rejected codec (recorder.recordAll d batch) id request) →
      Outcome batch d (.ok replies, (recorder.recordAll d batch).withSinks sinks)

variable (recorder codec batch d) in
theorem add_outcome : Outcome recorder codec batch d (recorder.add codec batch d) := by
  by_cases vacant : ∀ a ∈ batch, recorder.taken d (recorder.index a) = false
  · by_cases encodes : ∀ a ∈ batch, recorder.encodes a = true
    · by_cases unrejected : ∀ a ∈ batch, ∀ id request, recorder.client d a = some id → d.assignedSinks id = some request →
          ¬ Rejected codec (recorder.recordAll d batch) id request
      · rw [add_ok vacant encodes unrejected]
        exact .added vacant encodes unrejected
      · push Not at unrejected
        obtain ⟨a, member, id, request, mine, held, rejected⟩ := unrejected
        obtain ⟨refusal, sinks, failed⟩ := add_rejected vacant encodes member mine held rejected
        rw [failed]
        exact .rejected vacant encodes member mine held rejected
    · have untaken : ¬ (batch.any fun a => recorder.taken d (recorder.index a)) = true := by simpa using vacant
      rw [add, if_neg untaken, if_neg (mt List.all_eq_true.mp encodes)]
      push Not at encodes
      obtain ⟨a, member, unencoded⟩ := encodes
      exact .unencoded vacant member (Bool.eq_false_iff.mpr unencoded)
  · push Not at vacant
    obtain ⟨a, member, taken⟩ := vacant
    rw [ne_eq, Bool.not_eq_false] at taken
    rw [add, if_pos (List.any_eq_true.mpr ⟨a, member, taken⟩)]
    exact .taken member taken

/-- A call that succeeds has recorded its batch. -/
theorem taken_of_ok {replies : List MaskReply} {d' : NodeRPCExecutionState} {i : UInt64}
    (done : recorder.add codec batch d = (.ok replies, d')) :
    recorder.taken d' i = true ↔ i ∈ batch.map recorder.index ∨ recorder.taken d i = true := by
  have outcome := add_outcome recorder codec d batch
  rw [done] at outcome
  cases outcome with
  | added => rw [recorder.taken_withSinks, taken_recordAll]

theorem singly_of_taken {a : α} (member : a ∈ batch) (taken : recorder.taken d (recorder.index a) = true) :
    Batch.singly (recorder.add codec) batch d = none := by
  refine Batch.singly_eq_none (fun a d => recorder.taken d (recorder.index a) = true) ?_ ?_ member taken
  · intro a d taken
    have there : ([a].any fun a => recorder.taken d (recorder.index a)) = true := by simpa using taken
    exact ⟨_, _, if_pos there⟩
  · intro a b d replies d' taken done
    exact (taken_of_ok done).mpr (Or.inr taken)

/-- The second of two elements with one index is refused. -/
theorem singly_of_repeated (repeated : ¬ (batch.map recorder.index).Nodup) :
    Batch.singly (recorder.add codec) batch d = none := by
  induction batch generalizing d with
  | nil => simp at repeated
  | cons a rest ih =>
    rw [Batch.singly]
    split
    · rfl
    · rename_i replies middle done
      rw [List.map_cons, List.nodup_cons, not_and_or, not_not] at repeated
      rcases repeated with again | later
      · obtain ⟨b, member, same⟩ := List.mem_map.mp again
        rw [singly_of_taken member ((taken_of_ok done).mpr (Or.inl (by simp [same])))]
        rfl
      · rw [ih later]
        rfl

theorem Good.vacant_rest {a : α} {rest : List α} (good : Good recorder codec (a :: rest) d) :
    ∀ b ∈ rest, recorder.taken (recorder.record d a) (recorder.index b) = false := by
  intro b member
  have different : recorder.index b ≠ recorder.index a :=
    fun same => (List.nodup_cons.mp good.distinct).1 (same ▸ List.mem_map_of_mem member)
  simp [recorder.taken_record, different, good.vacant b (List.mem_cons_of_mem _ member)]

theorem Good.later {a : α} {rest : List α} (good : Good recorder codec (a :: rest) d) :
    Extends (recorder.record d a) (recorder.recordAll d (a :: rest)) :=
  extension_recordAll good.vacant_rest (List.nodup_cons.mp good.distinct).2

theorem Good.add_eq (good : Good recorder codec batch d) : recorder.add codec batch d =
    (.ok ((recorder.touched d batch).filterMap (recorder.recordAll d batch).answer),
      (recorder.recordAll d batch).withSinks ((recorder.recordAll d batch).unserved (recorder.touched d batch))) :=
  add_ok good.vacant good.encodes good.unrejected

theorem Good.head {a : α} {rest : List α} (good : Good recorder codec (a :: rest) d) : Good recorder codec [a] d := by
  obtain ⟨first, others⟩ := List.forall_mem_cons.mp good.vacant
  obtain ⟨absent, later⟩ := List.nodup_cons.mp good.distinct
  refine ⟨by simpa using first, by simp, by simpa using good.encodes a (List.mem_cons_self ..), ?_⟩
  intro b member id request mine held rejected
  obtain rfl := List.mem_singleton.mp member
  exact good.unrejected b (List.mem_cons_self ..) id request mine held (rejected.mono good.later)

theorem client_after {a b : α} {sinks : Table ClientIdentity AssignedMaskRequest} :
    recorder.client ((recorder.record d a).withSinks sinks) b = recorder.client d b := by
  rw [recorder.client_withSinks, recorder.client_record]

theorem touched_after {a : α} {sinks : Table ClientIdentity AssignedMaskRequest} :
    recorder.touched ((recorder.record d a).withSinks sinks) batch = recorder.touched d batch := by
  simp only [touched, client_after]

theorem Good.tail {a : α} {rest : List α} {sinks : Table ClientIdentity AssignedMaskRequest}
    (good : Good recorder codec (a :: rest) d)
    (taken : ∀ id request, sinks id = some request → d.assignedSinks id = some request) :
    Good recorder codec rest ((recorder.record d a).withSinks sinks) := by
  refine ⟨?_, (List.nodup_cons.mp good.distinct).2, (List.forall_mem_cons.mp good.encodes).2, ?_⟩
  · intro b member
    rw [recorder.taken_withSinks]
    exact good.vacant_rest b member
  · intro b member id request mine held
    rw [client_after] at mine
    rw [recordAll_withSinks, rejected_withSinks]
    exact good.unrejected b (List.mem_cons_of_mem _ member) id request mine (taken id request held)

theorem mem_touched_cons {a : α} {rest : List α} {id : ClientIdentity} :
    id ∈ recorder.touched d (a :: rest) ↔ id ∈ recorder.touched d [a] ∨ id ∈ recorder.touched d rest := by
  simp [mem_touched]

/-- A request that waits although its client was touched is not answered before
its client is touched again. -/
theorem Good.answer_none {a : α} {rest : List α} {id : ClientIdentity} (good : Good recorder codec (a :: rest) d)
    (unanswered : (recorder.record d a).answer id = none) (untouched : id ∉ recorder.touched d rest) :
    (recorder.recordAll d (a :: rest)).answer id = none := by
  by_contra answered
  obtain ⟨reply, answered⟩ := Option.ne_none_iff_exists'.mp answered
  obtain ⟨i, lacking, owned, there⟩ := exists_lacking good.later sinks_recordAll_cons unanswered answered
  by_cases inside : i ∈ rest.map recorder.index
  · obtain ⟨b, member, rfl⟩ := List.mem_map.mp inside
    rw [owner_recordAll good.distinct (List.mem_cons_of_mem _ member)] at owned
    exact untouched (mem_touched.mpr ⟨b, member, owned⟩)
  · obtain ⟨owner, share⟩ := elsewhere_recordAll (d := recorder.record d a) inside
    rcases lacking with ownerless | shareless
    · cases (owner.trans ownerless).symm.trans owned
    · rw [recordAll_cons, share, shareless] at there
      cases there

/-- A batch that can be added is added alike without its first element, when that
one has been added before. -/
theorem Good.split {a : α} {rest : List α} (good : Good recorder codec (a :: rest) d) :
    ∃ replies middle later final all, recorder.add codec [a] d = (.ok replies, middle) ∧
      Good recorder codec rest middle ∧ recorder.add codec rest middle = (.ok later, final) ∧
      recorder.add codec (a :: rest) d = (.ok all, final) ∧ all.Perm (replies ++ later) := by
  have single := good.head.add_eq
  rw [recordAll_cons, recordAll_nil] at single
  have goodRest : Good recorder codec rest
      ((recorder.record d a).withSinks ((recorder.record d a).unserved (recorder.touched d [a]))) := by
    refine good.tail fun id request held => ?_
    unfold unserved at held
    split at held
    · cases held
    · rwa [recorder.sinks] at held
  have second := goodRest.add_eq
  rw [touched_after, recordAll_withSinks, ← recordAll_cons, withSinks_withSinks] at second
  have again : ∀ id, (recorder.record d a).answer id = none → id ∉ recorder.touched d rest →
      (recorder.recordAll d (a :: rest)).answer id = none := fun _ => good.answer_none
  have whole := good.add_eq
  rw [← unserved_rest good.later sinks_recordAll_cons (fun _ => mem_touched_cons) again] at whole
  exact ⟨_, _, _, _, _, single, goodRest, second, whole, perm_answers nodup_touched nodup_touched nodup_touched
    good.later sinks_recordAll_cons (fun _ => mem_touched_cons) again⟩

theorem recordAll_ne {first : α} {rest : List α} {sinks : Table ClientIdentity AssignedMaskRequest}
    (vacant : recorder.taken d (recorder.index first) = false) :
    (recorder.recordAll d (first :: rest)).withSinks sinks ≠ d := by
  intro same
  have taken : recorder.taken ((recorder.recordAll d (first :: rest)).withSinks sinks) (recorder.index first) = true := by
    rw [recorder.taken_withSinks, taken_recordAll]
    simp
  rw [same, vacant] at taken
  cases taken

theorem refused_or_good_iff (vacant : ∀ a ∈ batch, recorder.taken d (recorder.index a) = false)
    (encodes : ∀ a ∈ batch.head?, recorder.encodes a = true) :
    (∃ a ∈ batch, recorder.taken d (recorder.index a) = true) ∨ (∃ a ∈ batch.head?, recorder.encodes a = false) ∨
      Good recorder codec batch d ↔ Good recorder codec batch d := by
  refine ⟨?_, fun good => Or.inr (Or.inr good)⟩
  rintro (⟨a, inside, taken⟩ | ⟨a, atHead, fails⟩ | good)
  · cases (vacant a inside).symm.trans taken
  · cases (encodes a atHead).symm.trans fails
  · exact good

/-- The batch call is like single ones exactly when it is refused before anything
is recorded, or when the batch can be added. -/
theorem likeSingly_iff : Batch.LikeSingly (recorder.add codec) batch d ↔
    (∃ a ∈ batch, recorder.taken d (recorder.index a) = true) ∨ (∃ a ∈ batch.head?, recorder.encodes a = false) ∨
      Good recorder codec batch d := by
  have outcome := add_outcome recorder codec d batch
  generalize result : recorder.add codec batch d = ending at outcome
  cases outcome with
  | taken member taken =>
    rw [Batch.likeSingly_iff_of_error result]
    exact iff_of_true ⟨rfl, singly_of_taken member taken⟩ (Or.inl ⟨_, member, taken⟩)
  | unencoded vacant member unencoded =>
    rw [Batch.likeSingly_iff_of_error result]
    obtain ⟨first, rest, rfl⟩ := List.exists_cons_of_ne_nil (List.ne_nil_of_mem member)
    have untaken := vacant first (List.mem_cons_self ..)
    cases encodes : recorder.encodes first with
    | true =>
      rw [List.takeWhile_cons_of_pos encodes, refused_or_good_iff vacant (by simpa using encodes)]
      refine iff_of_false (fun like => recordAll_ne untaken like.1) fun good => ?_
      cases (good.encodes _ member).symm.trans unencoded
    | false =>
      rw [List.takeWhile_cons_of_neg (by simp [encodes])]
      refine iff_of_true ⟨rfl, ?_⟩ (Or.inr (Or.inl ⟨first, rfl, encodes⟩))
      simp [Batch.singly, add, untaken, encodes]
  | rejected vacant encodes member mine held rejected =>
    rw [Batch.likeSingly_iff_of_error result,
      refused_or_good_iff vacant fun a atHead => encodes a (List.mem_of_mem_head? atHead)]
    obtain ⟨first, rest, rfl⟩ := List.exists_cons_of_ne_nil (List.ne_nil_of_mem member)
    exact iff_of_false (fun like => recordAll_ne (vacant first (List.mem_cons_self ..)) like.1)
      fun good => good.unrejected _ member _ _ mine held rejected
  | added vacant encodes unrejected =>
    rw [Batch.likeSingly_iff_of_ok result,
      refused_or_good_iff vacant fun a atHead => encodes a (List.mem_of_mem_head? atHead)]
    by_cases distinct : (batch.map recorder.index).Nodup
    · have good : Good recorder codec batch d := ⟨vacant, distinct, encodes, unrejected⟩
      obtain ⟨replies, others, final, whole, single, perm⟩ :=
        Batch.singly_of_split (Good recorder codec) (fun _ => rfl) (fun _ _ _ => Good.split) good
      cases result.symm.trans whole
      exact iff_of_true ⟨others, single, perm⟩ good
    · rw [singly_of_repeated distinct]
      exact iff_of_false (by simp) fun good => distinct good.distinct

end Recorder

namespace NodeRPCExecutionState

variable {S : Type} {codec : ShareCodec S} {d : NodeRPCExecutionState}

/-- Reservations always encode, and their own clients are looked after. -/
def reservationRecorder : Recorder AssignedMaskReservation where
  index := AssignedMaskReservation.reservedIndex
  encodes _ := true
  taken d i := (d.indexToClient i).isSome
  client _ reservation := some reservation.client
  record := recordReservation
  taken_record d reservation i := by
    simp only [recordReservation, Table.insert_apply]
    split <;> simp [*]
  extension d reservation vacant := by
    have apart : ∀ i c, d.indexToClient i = some c → i ≠ reservation.reservedIndex := by
      rintro i c owned rfl
      simp [owned] at vacant
    exact ⟨⟨fun i c owned => (Table.insert_of_ne _ _ (apart i c owned)).trans owned, fun _ _ stored => stored⟩,
      fun i c owned => Table.insert_of_ne _ _ (apart i c owned)⟩
  elsewhere d reservation i different := ⟨Table.insert_of_ne _ _ different, rfl⟩
  owner d reservation := Table.insert_self ..
  client_record _ _ _ := rfl
  sinks _ _ := rfl
  record_withSinks _ _ _ := rfl
  taken_withSinks _ _ _ := rfl
  client_withSinks _ _ _ := rfl

/-- The owner of a share's index is looked after, if it has one. -/
def shareRecorder (codec : ShareCodec S) : Recorder (UInt64 × S) where
  index := Prod.fst
  encodes entry := (codec.serializeCompressed entry.2).isSome
  taken d i := (d.maskShares i).isSome
  client d entry := d.indexToClient entry.1
  record d entry := d.recordShare entry.1 ((codec.serializeCompressed entry.2).getD [])
  taken_record d entry i := by
    simp only [recordShare, Table.insert_apply]
    split <;> simp [*]
  extension d entry vacant := by
    refine ⟨⟨fun _ _ owned => owned, fun i x stored => ?_⟩, fun _ _ _ => rfl⟩
    have apart : i ≠ entry.1 := by
      rintro rfl
      simp [stored] at vacant
    exact (Table.insert_of_ne _ _ apart).trans stored
  elsewhere d entry i different := ⟨rfl, Table.insert_of_ne _ _ different⟩
  owner _ _ := rfl
  client_record _ _ _ := rfl
  sinks _ _ := rfl
  record_withSinks _ _ _ := rfl
  taken_withSinks _ _ _ := rfl
  client_withSinks _ _ _ := rfl

theorem addAssignedReservedIndices_eq (batch : List AssignedMaskReservation) :
    d.addAssignedReservedIndices codec batch = reservationRecorder.add codec batch d := by
  have touched : reservationRecorder.touched d batch = (batch.map AssignedMaskReservation.client).foldl touch [] := by
    rw [Recorder.touched, ← List.filterMap_eq_map]
    rfl
  have all : batch.all reservationRecorder.encodes = true := by simp [reservationRecorder]
  rw [Recorder.add, if_pos all, touched]
  rfl

theorem recordShares_eq (batch : List (UInt64 × S)) (touched : List ClientIdentity) :
    recordShares codec batch d touched =
      if batch.all (shareRecorder codec).encodes then
        (.ok ((batch.filterMap ((shareRecorder codec).client d)).foldl touch touched),
          (shareRecorder codec).recordAll d batch)
      else
        (.error .serializationError,
          (shareRecorder codec).recordAll d (batch.takeWhile (shareRecorder codec).encodes)) := by
  induction batch generalizing d touched with
  | nil => rfl
  | cons entry rest ih =>
    rw [recordShares]
    cases serialized : codec.serializeCompressed entry.2 with
    | none =>
      have fails : (shareRecorder codec).encodes entry = false := by simp [shareRecorder, serialized]
      simp only [List.all_cons, fails, Bool.false_and, Bool.false_eq_true, if_false, List.takeWhile_cons]
      rfl
    | some shareBytes =>
      have encodes : (shareRecorder codec).encodes entry = true := by simp [shareRecorder, serialized]
      have recorded : d.recordShare entry.1 shareBytes = (shareRecorder codec).record d entry := by
        simp [shareRecorder, serialized]
      have all : (entry :: rest).all (shareRecorder codec).encodes = rest.all (shareRecorder codec).encodes := by
        rw [List.all_cons, encodes, Bool.true_and]
      rw [all, List.takeWhile_cons_of_pos encodes, Recorder.recordAll_cons, Recorder.recordAll_cons, ← recorded]
      cases owned : d.indexToClient entry.1 with
      | none =>
        rw [List.filterMap_cons_none (f := (shareRecorder codec).client d) owned]
        exact ih touched
      | some id =>
        rw [List.filterMap_cons_some (f := (shareRecorder codec).client d) owned, List.foldl_cons]
        exact ih (touch touched id)

theorem addMaskShares_eq (batch : List (UInt64 × S)) :
    d.addMaskShares codec batch = (shareRecorder codec).add codec batch d := by
  rw [addMaskShares, recordShares_eq, Recorder.add]
  by_cases all : batch.all (shareRecorder codec).encodes = true
  · simp only [all, if_true]
    rfl
  · simp only [all]
    rfl

theorem good_reservations_iff {batch : List AssignedMaskReservation}
    (admits : Admits d (.addAssignedReservedIndices batch : NodeAction S)) :
    Recorder.Good reservationRecorder codec batch d ↔
      (batch.map AssignedMaskReservation.reservedIndex).Nodup ∧ ¬ Stops codec d (.addAssignedReservedIndices batch) := by
  constructor
  · intro good
    refine ⟨good.distinct, ?_⟩
    rintro ⟨_, fails | ⟨id, request, ⟨reservation, member, rfl⟩, held, rejected⟩⟩
    · exact fails
    · exact good.unrejected reservation member _ request rfl held rejected
  · rintro ⟨distinct, goesOn⟩
    refine ⟨fun reservation member => by simp [reservationRecorder, admits reservation member], distinct,
      fun _ _ => rfl, ?_⟩
    intro reservation member id request mine held rejected
    exact goesOn ⟨admits, Or.inr ⟨id, request, ⟨reservation, member, Option.some.inj mine⟩, held, rejected⟩⟩

theorem good_shares_iff {batch : List (UInt64 × S)} (admits : Admits d (.addMaskShares batch)) :
    Recorder.Good (shareRecorder codec) codec batch d ↔
      (batch.map Prod.fst).Nodup ∧ ¬ Stops codec d (.addMaskShares batch) := by
  have recorded (encodes : ∀ entry ∈ batch, (shareRecorder codec).encodes entry = true) :
      d.recorded codec (.addMaskShares batch) = (shareRecorder codec).recordAll d batch := by
    rw [NodeRPCExecutionState.recorded, recordShares_eq, if_pos (List.all_eq_true.mpr encodes)]
  constructor
  · intro good
    refine ⟨good.distinct, ?_⟩
    rintro ⟨_, ⟨entry, member, fails⟩ | ⟨id, request, ⟨entry, member, mine⟩, held, rejected⟩⟩
    · have encodes := good.encodes entry member
      simp [shareRecorder, fails] at encodes
    · rw [recorded good.encodes] at rejected
      exact good.unrejected entry member id request mine held rejected
  · rintro ⟨distinct, goesOn⟩
    have encodes : ∀ entry ∈ batch, (shareRecorder codec).encodes entry = true := by
      intro entry member
      by_contra fails
      exact goesOn ⟨admits, Or.inl ⟨entry, member, by simpa [shareRecorder] using fails⟩⟩
    refine ⟨fun entry member => by simp [shareRecorder, admits entry member], distinct, encodes, ?_⟩
    intro entry member id request mine held rejected
    rw [← recorded encodes] at rejected
    exact goesOn ⟨admits, Or.inr ⟨id, request, ⟨entry, member, mine⟩, held, rejected⟩⟩

/-- A batch call is like single ones exactly when it is refused before anything
is recorded, or when its indices are distinct and it gets to its end. -/
theorem batches_like_singly_iff (codec : ShareCodec S) (d : NodeRPCExecutionState) :
    (∀ batch, Batch.LikeSingly (fun batch d => d.addAssignedReservedIndices codec batch) batch d ↔
      ¬ Admits d (.addAssignedReservedIndices batch : NodeAction S) ∨
        (batch.map AssignedMaskReservation.reservedIndex).Nodup ∧ ¬ Stops codec d (.addAssignedReservedIndices batch)) ∧
    ∀ batch, Batch.LikeSingly (fun batch d => d.addMaskShares codec batch) batch d ↔
      ¬ Admits d (.addMaskShares batch) ∨ (∃ entry ∈ batch.head?, codec.serializeCompressed entry.2 = none) ∨
        (batch.map Prod.fst).Nodup ∧ ¬ Stops codec d (.addMaskShares batch) := by
  constructor
  · intro batch
    have same : (fun batch d => d.addAssignedReservedIndices codec batch) = reservationRecorder.add codec := by
      funext batch d
      exact addAssignedReservedIndices_eq batch
    have taken : (∃ reservation ∈ batch, reservationRecorder.taken d (reservationRecorder.index reservation) = true) ↔
        ¬ Admits d (.addAssignedReservedIndices batch : NodeAction S) := by
      simp [Admits, reservationRecorder, Option.isSome_iff_ne_none]
    have encoded : ¬ ∃ reservation ∈ batch.head?, reservationRecorder.encodes reservation = false := by
      simp [reservationRecorder]
    rw [same, Recorder.likeSingly_iff, taken, or_iff_right encoded]
    by_cases admits : Admits d (.addAssignedReservedIndices batch : NodeAction S)
    · rw [good_reservations_iff admits]
    · simp only [admits, not_false_eq_true, true_or]
  · intro batch
    have same : (fun batch d => d.addMaskShares codec batch) = (shareRecorder codec).add codec := by
      funext batch d
      exact addMaskShares_eq batch
    have taken : (∃ entry ∈ batch, (shareRecorder codec).taken d ((shareRecorder codec).index entry) = true) ↔
        ¬ Admits d (.addMaskShares batch) := by
      simp [Admits, shareRecorder, Option.isSome_iff_ne_none]
    have encoded : (∃ entry ∈ batch.head?, (shareRecorder codec).encodes entry = false) ↔
        ∃ entry ∈ batch.head?, codec.serializeCompressed entry.2 = none := by
      simp [shareRecorder]
    rw [same, Recorder.likeSingly_iff, taken, encoded]
    by_cases admits : Admits d (.addMaskShares batch)
    · rw [good_shares_iff admits]
    · simp only [admits, not_false_eq_true, true_or]

/-- A client asks for the indices 0 and 1, of which the first has its share. -/
def overlappingCalls : List (NodeCall UInt64) :=
  [⟨.addMaskShares [(0, 7)], []⟩, ⟨.receiveAssignedMaskShares [3] 0 2 (some 0), []⟩]

/-- The first of them is given to that client and the second to another one. As a
batch this fails, with the first reservation recorded; singly it does not. A batch
that has an index twice is accepted; singly it is not. -/
theorem batch_unlike_singly :
    (∃ trace d, Run (Step machineCodec) new trace d ∧ trace.map Transition.event = overlappingCalls ∧
      (d.addAssignedReservedIndices machineCodec [⟨[3], 0, 0⟩, ⟨[2], 1, 0⟩]).1 = .error (.authenticationFailed [3]) ∧
      d.indexToClient 0 = none ∧
      (d.addAssignedReservedIndices machineCodec [⟨[3], 0, 0⟩, ⟨[2], 1, 0⟩]).2.indexToClient 0 = some [3] ∧
      (Batch.singly (fun batch d => d.addAssignedReservedIndices machineCodec batch) [⟨[3], 0, 0⟩, ⟨[2], 1, 0⟩] d).isSome =
        true) ∧
    (new.addAssignedReservedIndices machineCodec [⟨[3], 0, 0⟩, ⟨[3], 0, 0⟩]).1 = .ok [] ∧
    (Batch.singly (fun batch d => d.addAssignedReservedIndices machineCodec batch) [⟨[3], 0, 0⟩, ⟨[3], 0, 0⟩] new).isSome =
      false := by
  refine ⟨?_, by decide +kernel, by decide +kernel⟩
  have done : (Run.execute (next machineCodec) new overlappingCalls).map (fun d =>
      ((d.addAssignedReservedIndices machineCodec [⟨[3], 0, 0⟩, ⟨[2], 1, 0⟩]).1, d.indexToClient 0,
        (d.addAssignedReservedIndices machineCodec [⟨[3], 0, 0⟩, ⟨[2], 1, 0⟩]).2.indexToClient 0,
        (Batch.singly (fun batch d => d.addAssignedReservedIndices machineCodec batch)
          [⟨[3], 0, 0⟩, ⟨[2], 1, 0⟩] d).isSome)) =
      some (.error (.authenticationFailed [3]), none, some [3], true) := by decide +kernel
  obtain ⟨d, reached, seen⟩ := Option.map_eq_some_iff.mp done
  obtain ⟨run, events⟩ := Run.of_execute Step.of_next reached
  simp only [Prod.mk.injEq] at seen
  exact ⟨_, d, run, events, seen⟩

end NodeRPCExecutionState

end MpcCoordinator
