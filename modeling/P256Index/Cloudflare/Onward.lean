import P256Index.Cloudflare.Equivalence
import P256Index.Cloudflare.Submitter

/-!
# Records only move on

What the operations of the two programs do to the tables of the object. A record moves from pending
to an end, and out of the tables once it has one (`Onward`); the queue grows by an envelope at a
time and shrinks by a batch. The two inversion lemmas at the end say this operation by operation.
-/

namespace P256Index.Cloudflare

open Registrar

/-! ## Rows -/

/-- The task's record is pending. -/
def Tables.Pending (t : Tables) (id : String) : Prop :=
  ∃ row, t.tasks.find id = some row ∧ row.payload.status.isTerminal = false

/-- What may become of a row: nothing, a later record of its task, or a purge once it has an end. -/
inductive RowOnward : Option TaskRow → Option TaskRow → Prop
  | kept (x : Option TaskRow) : RowOnward x x
  | moved {row row' : TaskRow} : row'.payload.id = row.payload.id →
      (row'.payload.status.isTerminal = false →
        row.payload.status.isTerminal = false ∧ row'.expiresAt = row.expiresAt) →
      RowOnward (some row) (some row')
  | purged {row : TaskRow} : row.expiresAt.isSome = true → RowOnward (some row) none

def Onward (t t' : Tables) : Prop := ∀ id, RowOnward (t.tasks.find id) (t'.tasks.find id)

/-- Every record and every envelope is of a task that was stored, and only ended tasks have an end.
-/
structure Accounted (t : Tables) (stored : List String) : Prop where
  payload_id : ∀ id row, t.tasks.find id = some row → row.payload.id = id
  ended : ∀ id row, t.tasks.find id = some row → row.expiresAt.isSome = true →
    row.payload.status.isTerminal = true
  known : ∀ id row, t.tasks.find id = some row → id ∈ stored
  queued : ∀ e ∈ t.queue.rows, e.taskId ∈ stored
  numbered : ∀ e ∈ t.queue.rows, e.seq ≤ t.lastSeq

variable {t t' : Tables} {stored : List String} {now : Nat} {id : String}

theorem onward_of_eq (h : t'.tasks = t.tasks) : Onward t t' := by
  intro id
  rw [h]
  exact .kept _

theorem Onward.pending (h : Onward t t') (hpending : t'.Pending id) : t.Pending id := by
  obtain ⟨row', hrow', hopen⟩ := hpending
  have hon := h id
  rw [hrow'] at hon
  generalize hx : t.tasks.find id = x at hon
  cases hon with
  | kept => exact ⟨row', hx, hopen⟩
  | moved hid hback => exact ⟨_, hx, (hback hopen).1⟩

theorem Accounted.onward (h : Accounted t stored) (hon : Onward t t') (hqueue : t'.queue = t.queue)
    (hseq : t'.lastSeq = t.lastSeq) : Accounted t' stored := by
  -- Where a row comes from, and that it is as good as that one.
  have hfrom : ∀ id row', t'.tasks.find id = some row' → row'.payload.id = id ∧ id ∈ stored ∧
      (row'.expiresAt.isSome = true → row'.payload.status.isTerminal = true) := by
    intro id row' hrow'
    have hrow := hon id
    rw [hrow'] at hrow
    generalize hx : t.tasks.find id = x at hrow
    cases hrow with
    | kept => exact ⟨h.payload_id id row' hx, h.known id row' hx, h.ended id row' hx⟩
    | @moved row _ hid hback =>
        refine ⟨hid.trans (h.payload_id id row hx), h.known id row hx, ?_⟩
        intro hend
        by_contra hopen
        obtain ⟨hrowOpen, hexpires⟩ := hback (by simpa using hopen)
        rw [hexpires] at hend
        rw [h.ended id row hx hend] at hrowOpen
        cases hrowOpen
  constructor
  · exact fun id row hrow => (hfrom id row hrow).1
  · exact fun id row hrow => (hfrom id row hrow).2.2
  · exact fun id row hrow => (hfrom id row hrow).2.1
  · rw [hqueue]
    exact h.queued
  · rw [hqueue, hseq]
    exact h.numbered

/-! ## What the functions of the store do to the records -/

theorem onward_updateTask {f : TaskRow → TaskRow} (hf : ∀ row, (f row).id = row.id)
    (hrow : ∀ row, t.tasks.find id = some row → RowOnward (some row) (some (f row))) :
    Onward t (t.updateTask id f hf) := by
  intro k
  rw [find_updateTask]
  split
  · next hk =>
      subst hk
      cases hfind : t.tasks.find k with
      | none => exact .kept none
      | some row => exact hrow row hfind
  · exact .kept _

/-- A terminal record may follow any record of its task. -/
theorem RowOnward.ended {row row' : TaskRow} (hid : row'.payload.id = row.payload.id)
    (hterminal : row'.payload.status.isTerminal = true) : RowOnward (some row) (some row') := by
  refine .moved hid ?_
  intro hopen
  rw [hterminal] at hopen
  cases hopen

theorem ended_id (row : TaskRow) (task : RegisterTask) (status : TaskStatus) (instant : Nat) :
    (Tables.TaskRow.ended row task status instant).id = row.id := rfl

theorem tasks_transitionTerminal (task : RegisterTask) (ttlMs : Nat) (failed : Bool) :
    (t.transitionTerminal now task ttlMs failed).tasks = (t.updateTask task.id (fun row =>
      Tables.TaskRow.ended row task (if failed then .failed else .done) (now + ttlMs))
        fun row => ended_id row task _ _).tasks := by
  unfold Tables.transitionTerminal
  cases failed <;> rfl

theorem Accounted.onward_terminal (h : Accounted t stored) {task : RegisterTask} (ttlMs : Nat)
    (failed : Bool) (hterminal : task.status.isTerminal = true) :
    Onward t (t.transitionTerminal now task ttlMs failed) := by
  intro k
  rw [tasks_transitionTerminal]
  apply onward_updateTask
  intro row hrow
  exact .ended (h.payload_id _ row hrow).symm hterminal

theorem not_pending_terminal {task : RegisterTask} (ttlMs : Nat) (failed : Bool)
    (hterminal : task.status.isTerminal = true) :
    ¬ (t.transitionTerminal now task ttlMs failed).Pending task.id := by
  rintro ⟨row', hrow', hopen⟩
  rw [tasks_transitionTerminal, find_updateTask, if_pos rfl] at hrow'
  obtain ⟨row, -, rfl⟩ := Option.map_eq_some_iff.mp hrow'
  have hstatus : task.status.isTerminal = false := hopen
  rw [hterminal] at hstatus
  cases hstatus

/-- A record that is read is its row's. -/
theorem Accounted.of_getTask (h : Accounted t stored) {task : RegisterTask}
    (htask : t.getTask now id = some task) :
    (∃ row, t.tasks.find id = some row ∧ row.payload = task) ∧ task.id = id ∧ id ∈ stored := by
  obtain ⟨row, hrow, rfl, -⟩ := getTask_eq_some.mp htask
  exact ⟨⟨row, hrow, rfl⟩, h.payload_id id row hrow, h.known id row hrow⟩

/-- A record that cannot be read is not pending. -/
theorem Accounted.not_pending_of_none (h : Accounted t stored) (hnone : t.getTask now id = none) :
    ¬ t.Pending id := by
  rintro ⟨row, hrow, hopen⟩
  have hlive : row.lease.LiveAt now = true := by
    cases hend : row.expiresAt with
    | none => simp [TaskRow.lease, Lease.LiveAt, hend]
    | some instant =>
        rw [h.ended id row hrow (by rw [hend]; rfl)] at hopen
        cases hopen
  rw [getTask_eq_some.mpr ⟨row, hrow, rfl, hlive⟩] at hnone
  cases hnone

theorem not_pending_of_terminal {task : RegisterTask}
    (hrow : ∃ row, t.tasks.find id = some row ∧ row.payload = task)
    (hterminal : task.status.isTerminal = true) : ¬ t.Pending id := by
  rintro ⟨row', hrow', hopen⟩
  obtain ⟨row, hrow, rfl⟩ := hrow
  rw [hrow] at hrow'
  cases hrow'
  rw [hterminal] at hopen
  cases hopen

section Functions

variable (h : Accounted t stored)

include h

theorem Accounted.markAdmitted (id : String) : Onward t (t.markAdmitted now id).2 := by
  unfold Tables.markAdmitted
  split
  · exact onward_of_eq rfl
  · next before hbefore =>
      split
      · exact onward_of_eq rfl
      · obtain ⟨⟨row, hrow, hpayload⟩, -⟩ := h.of_getTask hbefore
        apply onward_updateTask
        intro row' hrow'
        obtain rfl : row = row' := Option.some.inj (hrow.symm.trans hrow')
        subst hpayload
        exact .moved rfl fun hopen => ⟨hopen, rfl⟩

/-- What `mark_admitted` answers: a record that is missing or has ended is not pending. -/
theorem Accounted.markAdmitted_told (id : String)
    (hended : ∀ task ∈ (t.markAdmitted now id).1, task.status.isTerminal = true) :
    ¬ (t.markAdmitted now id).2.Pending id := by
  unfold Tables.markAdmitted at hended ⊢
  cases hbefore : t.getTask now id with
  | none => exact h.not_pending_of_none hbefore
  | some before =>
      simp only [hbefore] at hended ⊢
      split
      · next hterminal => exact not_pending_of_terminal (h.of_getTask hbefore).1 hterminal
      · next hopen =>
          rw [if_neg hopen] at hended
          exact absurd (hended _ rfl) hopen

theorem Accounted.markDone (now : Nat) (id : String) (txHash : Option String)
    (onChainId : Option UInt64) :
    Onward t (t.markDone now id txHash onChainId).2 ∧
      ¬ (t.markDone now id txHash onChainId).2.Pending id := by
  unfold Tables.markDone
  split
  · next hnone => exact ⟨onward_of_eq rfl, h.not_pending_of_none hnone⟩
  · next task htask =>
      obtain ⟨-, rfl, -⟩ := h.of_getTask htask
      have hterminal : (Server.doneRecord task txHash onChainId).status.isTerminal = true := rfl
      exact ⟨h.onward_terminal _ _ hterminal, not_pending_terminal _ _ hterminal⟩

theorem Accounted.markFailed (now : Nat) (id failureClass message : String) :
    Onward t (t.markFailed now id failureClass message).2 ∧
      ¬ (t.markFailed now id failureClass message).2.Pending id := by
  unfold Tables.markFailed
  split
  · next hnone => exact ⟨onward_of_eq rfl, h.not_pending_of_none hnone⟩
  · next task htask =>
      obtain ⟨-, rfl, -⟩ := h.of_getTask htask
      have hterminal : (Server.failedRecord task failureClass message).status.isTerminal = true :=
        rfl
      exact ⟨h.onward_terminal _ _ hterminal, not_pending_terminal _ _ hterminal⟩

theorem Accounted.recordTransientFailure (id message : String) :
    Onward t (t.recordTransientFailure now id message).2 := by
  unfold Tables.recordTransientFailure
  split
  · exact onward_of_eq rfl
  · next task htask =>
      obtain ⟨⟨row, hrow, hpayload⟩, -⟩ := h.of_getTask htask
      split
      · exact onward_of_eq rfl
      · dsimp only
        split
        · exact h.onward_terminal _ _ rfl
        · apply onward_updateTask
          intro row' hrow'
          obtain rfl : row = row' := Option.some.inj (hrow.symm.trans hrow')
          subst hpayload
          exact .moved rfl fun hopen => ⟨hopen, rfl⟩

omit h

theorem onward_purge (t : Tables) (now : Nat) : Onward t (t.purgeExpired now) := by
  intro k
  show RowOnward _ ((t.tasks.deleteWhere _).find k)
  rw [Keyed.find_deleteWhere]
  cases hrow : t.tasks.find k with
  | none => exact .kept none
  | some row =>
      cases hend : row.expiresAt with
      | none =>
          rw [Option.filter_some_pos (by simp [hend])]
          exact .kept _
      | some instant =>
          by_cases hpast : instant ≤ now
          · rw [Option.filter_some_neg (by simp [hend, hpast])]
            exact .purged (by rw [hend]; rfl)
          · rw [Option.filter_some_pos (by simp [hend, hpast])]
            exact .kept _

theorem pending_insertTask {task : RegisterTask} (hpending : (t.insertTask task).Pending id) :
    id = task.id ∨ t.Pending id := by
  obtain ⟨row, hrow, hopen⟩ := hpending
  rw [find_insertTask] at hrow
  split at hrow
  · next hid => exact .inl hid
  · exact .inr ⟨row, hrow, hopen⟩

theorem Accounted.insertTask (h : Accounted t stored) (task : RegisterTask) :
    Accounted (t.insertTask task) (task.id :: stored) where
  payload_id id row hrow := by
    rw [find_insertTask] at hrow
    split at hrow
    · next hid =>
        cases hrow
        exact hid.symm
    · exact h.payload_id id row hrow
  ended id row hrow hend := by
    rw [find_insertTask] at hrow
    split at hrow
    · cases hrow
      cases hend
    · exact h.ended id row hrow hend
  known id row hrow := by
    rw [find_insertTask] at hrow
    split at hrow
    · next hid => exact List.mem_cons.mpr (.inl hid)
    · exact List.mem_cons_of_mem _ (h.known id row hrow)
  queued e he := List.mem_cons_of_mem _ (h.queued e he)
  numbered := h.numbered

/-- The new envelope goes behind the others. -/
theorem Accounted.rows_enqueue (h : Accounted t stored) (task : RegisterTask) :
    (t.enqueue task).queue.rows = t.queue.rows ++ [⟨t.lastSeq + 1, task.id⟩] := by
  apply Keyed.rows_insertOrReplace
  apply Keyed.find_eq_none.mpr
  intro e he hseq
  have hle := h.numbered e he
  have hseq : e.seq = t.lastSeq + 1 := hseq
  omega

theorem Accounted.enqueue (h : Accounted t stored) {task : RegisterTask}
    (hstored : task.id ∈ stored) : Accounted (t.enqueue task) stored where
  payload_id := h.payload_id
  ended := h.ended
  known := h.known
  queued e he := by
    rw [h.rows_enqueue] at he
    rcases List.mem_append.mp he with he | he
    · exact h.queued e he
    · rw [List.mem_singleton.mp he]
      exact hstored
  numbered e he := by
    rw [h.rows_enqueue] at he
    have hseq : (t.enqueue task).lastSeq = t.lastSeq + 1 := rfl
    rcases List.mem_append.mp he with he | he
    · have hle := h.numbered e he
      omega
    · rw [List.mem_singleton.mp he, hseq]

/-- What is left of the queue was there before, and what was deleted was in the batch. -/
theorem mem_deleteBatch {batch : List EnvelopeRow} {e : EnvelopeRow} :
    e ∈ (t.deleteBatch batch).queue.rows ↔ e ∈ t.queue.rows ∧ ∀ b ∈ batch, e.seq ≠ b.seq := by
  show e ∈ (batch.foldl _ t.queue).rows ↔ _
  generalize t.queue = queue
  induction batch generalizing queue with
  | nil => simp
  | cons b batch ih =>
      rw [List.foldl_cons, ih]
      simp [Keyed.deleteWhere, and_assoc]

theorem Accounted.deleteBatch (h : Accounted t stored) (batch : List EnvelopeRow) :
    Accounted (t.deleteBatch batch) stored where
  payload_id := h.payload_id
  ended := h.ended
  known := h.known
  queued e he := h.queued e (mem_deleteBatch.mp he).1
  numbered e he := h.numbered e (mem_deleteBatch.mp he).1

end Functions

/-! ## What an operation does -/

/-- The queue is as it was, and records have only moved on. -/
structure Steady (t t' : Tables) : Prop where
  onward : Onward t t'
  queue : t'.queue = t.queue
  lastSeq : t'.lastSeq = t.lastSeq

theorem steady_refl (t : Tables) : Steady t t := ⟨onward_of_eq rfl, rfl, rfl⟩

theorem steady_purge (t : Tables) (now : Nat) : Steady t (t.purgeExpired now) :=
  ⟨onward_purge t now, rfl, rfl⟩

theorem Steady.accounted (hs : Steady t t') (h : Accounted t stored) : Accounted t' stored :=
  h.onward hs.onward hs.queue hs.lastSeq

theorem steady_bumpMinuteCounter (key : String) : Steady t (t.bumpMinuteCounter now key).2 := by
  unfold Tables.bumpMinuteCounter
  split
  · exact ⟨onward_of_eq rfl, rfl, rfl⟩
  · split
    · exact ⟨onward_of_eq rfl, rfl, rfl⟩
    · exact ⟨onward_of_eq rfl, rfl, rfl⟩

theorem queue_markAdmitted (t : Tables) (now : Nat) (id : String) :
    (t.markAdmitted now id).2.queue = t.queue ∧ (t.markAdmitted now id).2.lastSeq = t.lastSeq := by
  unfold Tables.markAdmitted
  split
  · exact ⟨rfl, rfl⟩
  · split <;> exact ⟨rfl, rfl⟩

theorem queue_transitionTerminal (task : RegisterTask) (ttlMs : Nat) (failed : Bool) :
    (t.transitionTerminal now task ttlMs failed).queue = t.queue ∧
      (t.transitionTerminal now task ttlMs failed).lastSeq = t.lastSeq := by
  unfold Tables.transitionTerminal
  cases failed <;> exact ⟨rfl, rfl⟩

theorem queue_markDone (t : Tables) (now : Nat) (id : String) (txHash : Option String)
    (onChainId : Option UInt64) : (t.markDone now id txHash onChainId).2.queue = t.queue ∧
      (t.markDone now id txHash onChainId).2.lastSeq = t.lastSeq := by
  unfold Tables.markDone
  split
  · exact ⟨rfl, rfl⟩
  · exact queue_transitionTerminal _ _ _

theorem queue_markFailed (t : Tables) (now : Nat) (id failureClass message : String) :
    (t.markFailed now id failureClass message).2.queue = t.queue ∧
      (t.markFailed now id failureClass message).2.lastSeq = t.lastSeq := by
  unfold Tables.markFailed
  split
  · exact ⟨rfl, rfl⟩
  · exact queue_transitionTerminal _ _ _

theorem queue_recordTransientFailure (t : Tables) (now : Nat) (id message : String) :
    (t.recordTransientFailure now id message).2.queue = t.queue ∧
      (t.recordTransientFailure now id message).2.lastSeq = t.lastSeq := by
  unfold Tables.recordTransientFailure
  split
  · exact ⟨rfl, rfl⟩
  · split
    · exact ⟨rfl, rfl⟩
    · dsimp only
      split
      · exact queue_transitionTerminal _ _ _
      · exact ⟨rfl, rfl⟩

theorem Accounted.of_findByIndex (h : Accounted t stored) {row : Option (Lease String)}
    {task : RegisterTask} (hfound : t.findByIndex now row = some task) : task.id ∈ stored := by
  unfold Tables.findByIndex at hfound
  split at hfound
  · obtain ⟨-, hid, hmem⟩ := h.of_getTask hfound
    rw [hid]
    exact hmem
  · cases hfound

section Operations

open Admission

variable {D : Deployment} {ipHash : String} {read : Option Bool} {op : Operation} {ans : Result}

/-- An operation that neither stores a task nor puts one on the queue. -/
structure Looked (stored : List String) (t t' : Tables) (op : Operation) (ans : Result) :
    Prop extends Steady t t' where
  unstored : newStored op ans = []
  unqueued : newEnvelopes t op = []
  found : ∀ task, op.isLookup = true → ans = .taskFound (some task) → task.id ∈ stored
  marked : ∀ id, op = .markAdmitted id → ∃ found, ans = .taskFound found ∧
    ((∀ task ∈ found, task.status.isTerminal = true) → ¬ t'.Pending id)

theorem looked_of_gate (hs : Steady t t') (hop : op.isLookup = false) (hadmits : op.isAdmit = false)
    (hphase : op.isPhaseTwo = false) : Looked stored t t' op ans where
  toSteady := hs
  unstored := by
    cases op with
    | admitTask task => cases hadmits
    | _ => rfl
  unqueued := by
    cases op with
    | enqueue task => cases hphase
    | _ => rfl
  found task hlookup _ := by
    rw [hop] at hlookup
    cases hlookup
  marked id hid := by
    rw [hid] at hphase
    cases hphase

theorem looked_of_lookup {found : Option RegisterTask} (hop : op.isLookup = true)
    (hfound : ∀ task, found = some task → task.id ∈ stored) :
    Looked stored t t op (.taskFound found) where
  toSteady := steady_refl t
  unstored := by
    cases op with
    | admitTask task => cases hop
    | _ => rfl
  unqueued := by
    cases op with
    | enqueue task => cases hop
    | _ => rfl
  found task _ hans := hfound task (Result.taskFound.inj hans)
  marked id hid := by
    rw [hid] at hop
    cases hop

/-- What an operation of the admission program can do to the object. -/
theorem executeAdmission_cases (h : Accounted t stored)
    (hexec : executeAdmission D ipHash now read op t = (ans, t')) :
    (∃ task, op = .admitTask task ∧ ans = .admitted .new ∧ t' = t.insertTask task) ∨
      (∃ task, op = .enqueue task ∧ ans = .enqueued ∧ t' = t.enqueue task) ∨
        Looked stored t t' op ans := by
  cases op with
  | allowIpCreate =>
      cases hexec
      exact .inr (.inr (looked_of_gate (steady_bumpMinuteCounter _) rfl rfl rfl))
  | allowGlobalCreate =>
      cases hexec
      exact .inr (.inr (looked_of_gate (steady_bumpMinuteCounter _) rfl rfl rfl))
  | findTaskByContent contentHash =>
      cases hexec
      exact .inr (.inr (looked_of_lookup rfl fun task => h.of_findByIndex))
  | findTaskByRetryDigest digest =>
      cases hexec
      exact .inr (.inr (looked_of_lookup rfl fun task => h.of_findByIndex))
  | findTaskByKey keyHash =>
      cases hexec
      exact .inr (.inr (looked_of_gate (steady_refl t) rfl rfl rfl))
  | recordRetryDigest digest taskId =>
      cases hexec
      exact .inr (.inr (looked_of_gate ⟨onward_of_eq rfl, rfl, rfl⟩ rfl rfl rfl))
  | checkContentRegistered contentHash =>
      simp only [executeAdmission] at hexec
      split at hexec <;> cases hexec <;>
        exact .inr (.inr (looked_of_gate (steady_refl t) rfl rfl rfl))
  | checkReferenced group member =>
      simp only [executeAdmission] at hexec
      split at hexec <;> cases hexec <;>
        exact .inr (.inr (looked_of_gate (steady_refl t) rfl rfl rfl))
  | checkGroupExists group =>
      simp only [executeAdmission] at hexec
      split at hexec <;> cases hexec <;>
        exact .inr (.inr (looked_of_gate (steady_refl t) rfl rfl rfl))
  | queueDepth =>
      cases hexec
      exact .inr (.inr (looked_of_gate (steady_refl t) rfl rfl rfl))
  | loadTask id =>
      cases hexec
      refine .inr (.inr (looked_of_lookup rfl ?_))
      intro task htask
      obtain ⟨-, hid, hmem⟩ := h.of_getTask htask
      rw [hid]
      exact hmem
  | admitTask task =>
      simp only [executeAdmission, Tables.admitTask] at hexec
      split at hexec
      · -- An admission that finds the content leaves everything as it is.
        cases hexec
        refine .inr (.inr ⟨steady_refl t, rfl, rfl, ?_, ?_⟩)
        · intro task' hlookup
          cases hlookup
        · intro id hid
          cases hid
      · cases hexec
        exact .inl ⟨task, rfl, rfl, rfl⟩
  | enqueue task =>
      cases hexec
      exact .inr (.inl ⟨task, rfl, rfl, rfl⟩)
  | markAdmitted id =>
      cases hexec
      obtain ⟨hqueue, hseq⟩ := queue_markAdmitted t now id
      refine .inr (.inr ⟨⟨h.markAdmitted id, hqueue, hseq⟩, rfl, rfl, ?_, ?_⟩)
      · intro task hlookup
        cases hlookup
      · intro id' hid
        cases hid
        exact ⟨_, rfl, h.markAdmitted_told id⟩

end Operations

/-- What an operation of the submission program can do to the object. -/
theorem executeSubmission_steady {read : Option Bool} {outcome : Submission.TxOutcome}
    {op : Submission.Operation} {ans : Submission.Result} (h : Accounted t stored)
    (hexec : executeSubmission now read outcome op t = (ans, t')) :
    Steady t t' ∧ (∀ ids, op = .loadTasks ids → ans = .tasksLoaded (ids.map (t.getTask now))) ∧
      ∀ id, op.terminalMark = some id → ¬ t'.Pending id := by
  cases op with
  | loadTasks ids =>
      cases hexec
      refine ⟨steady_refl t, ?_, ?_⟩
      · intro ids' hids
        cases hids
        rfl
      · intro id hid
        cases hid
  | checkContentRegistered contentHash =>
      simp only [executeSubmission] at hexec
      split at hexec <;> cases hexec <;> exact ⟨steady_refl t,
        by simp, by simp [Submission.Operation.terminalMark]⟩
  | checkReferenced group member =>
      simp only [executeSubmission] at hexec
      split at hexec <;> cases hexec <;> exact ⟨steady_refl t,
        by simp, by simp [Submission.Operation.terminalMark]⟩
  | submitRegister task =>
      cases hexec
      exact ⟨steady_refl t, by simp, by simp [Submission.Operation.terminalMark]⟩
  | markDone id txHash onChainId =>
      cases hexec
      obtain ⟨honward, hgone⟩ := h.markDone now id txHash onChainId
      obtain ⟨hqueue, hseq⟩ := queue_markDone t now id txHash onChainId
      refine ⟨⟨honward, hqueue, hseq⟩, by simp, ?_⟩
      intro id' hid
      cases hid
      exact hgone
  | markFailed id kind message =>
      cases hexec
      obtain ⟨honward, hgone⟩ := h.markFailed now id (Server.storeClass kind) message
      obtain ⟨hqueue, hseq⟩ := queue_markFailed t now id (Server.storeClass kind) message
      refine ⟨⟨honward, hqueue, hseq⟩, by simp, ?_⟩
      intro id' hid
      cases hid
      exact hgone
  | recordTransientFailure id message =>
      cases hexec
      obtain ⟨hqueue, hseq⟩ := queue_recordTransientFailure t now id message
      exact ⟨⟨h.recordTransientFailure id message, hqueue, hseq⟩,
        by simp, by simp [Submission.Operation.terminalMark]⟩

end P256Index.Cloudflare
