import P256Index.Cloudflare.Store

/-!
# Two stores in step

The same functions in both shells, and what it is for a state of the Redis store and a state of the
tables to agree: what has not ended is the same. The Redis store forgets a key at its instant; the
tables keep the row and filter it out until the next purge. Reads, markers and counters keep the
agreement.
-/

namespace P256Index.Cloudflare

open Registrar
open Server
  (TimedStore StoreCommand StoreFlow query runAt runAt_query_bind runAt_incrementMinute_none
  runAt_incrementMinute_some QueueStats memberKeyPlaceholders claimAt fadeAt releaseAt
    doneRecord retriedRecord
  exhaustedRecord failedRecord maxRetries)

/-! ## The functions of a store -/

inductive StoreFunction where
  | getTask (id : String)
  | findByContent (contentHash : String)
  | findByPublicKey (publicKey : String)
  | findByRetryDigest (digest : String)
  | recordRetryDigest (digest taskId : String)
  | admitTask (task : RegisterTask)
  | markAdmitted (id : String)
  | markDone (id : String) (txHash : Option String) (onChainId : Option UInt64)
  | markFailed (id failureClass message : String)
  | recordTransientFailure (id message : String)
  | incrementMinute (key : String)
  | queueStats
  deriving DecidableEq

abbrev StoreFunction.Answer : StoreFunction → Type
  | .recordRetryDigest _ _ => Unit
  | .admitTask _ => Admission.AdmitOutcome
  | .incrementMinute _ => Nat
  | .queueStats => QueueStats
  | _ => Option RegisterTask

/-- Both shells hand the outcome of an admission on in this form. -/
def outcomeOf : Server.Admission → Admission.AdmitOutcome
  | .new _ => .new
  | .existing id => .existing id

/-- In Redis, at a reading of the clock and undisturbed. -/
def StoreFunction.redis (now : Nat) :
    (f : StoreFunction) → TimedStore → Except Unit f.Answer × TimedStore
  | .getTask id, s => runAt now (Server.getTask id) s
  | .findByContent contentHash, s => runAt now (Server.findByContent contentHash) s
  | .findByPublicKey publicKey, s => runAt now (Server.findByPublicKey publicKey) s
  | .findByRetryDigest digest, s => runAt now (Server.findByRetryDigest digest) s
  | .recordRetryDigest digest taskId, s => runAt now (Server.recordRetryDigest digest taskId) s
  | .admitTask task, s => runAt now (outcomeOf <$> Server.admitTask task) s
  | .markAdmitted id, s => runAt now (Server.markAdmitted id) s
  | .markDone id txHash onChainId, s => runAt now (Server.markDone id txHash onChainId) s
  | .markFailed id failureClass message, s =>
      runAt now (Server.markFailed id failureClass message) s
  | .recordTransientFailure id message, s => runAt now (Server.recordTransientFailure id message) s
  | .incrementMinute key, s => runAt now (Server.incrementMinute ("p256-index:rate:" ++ key)) s
  | .queueStats, s => (.ok (s.queueStats now), s)

/-- In the tables. -/
def StoreFunction.sqlite (now : Nat) : (f : StoreFunction) → Tables → f.Answer × Tables
  | .getTask id, t => (t.getTask now id, t)
  | .findByContent contentHash, t => (t.findByContent now contentHash, t)
  | .findByPublicKey publicKey, t => (t.findByPublicKey now publicKey, t)
  | .findByRetryDigest digest, t => (t.findByRetryDigest now digest, t)
  | .recordRetryDigest digest taskId, t => ((), t.recordRetryDigest now digest taskId)
  | .admitTask task, t => t.admitTask now task
  | .markAdmitted id, t => t.markAdmitted now id
  | .markDone id txHash onChainId, t => t.markDone now id txHash onChainId
  | .markFailed id failureClass message, t => t.markFailed now id failureClass message
  | .recordTransientFailure id message, t => t.recordTransientFailure now id message
  | .incrementMinute key, t => t.bumpMinuteCounter now key
  | .queueStats, t => (t.queueStats now, t)

/-! ## States that agree -/

/-- Two families of keys with the same values at `now`, and from then on. -/
def Same {α : Type} (now : Nat) (f g : String → Option (Lease α)) : Prop :=
  ∀ k, live now (f k) = live now (g k)

/-- What the two stores have in common at `now`. -/
structure Alike (now : Nat) (s : TimedStore) (t : Tables) : Prop where
  tasks : Same now s.tasks t.task
  content : Same now s.content t.content
  keys : Same now s.keys t.key
  retries : Same now s.retries t.digest
  counters : Same now (fun key => s.counters ("p256-index:rate:" ++ key)) t.counter
  active : s.active.Perm (t.activeRows.map TaskRow.id)
  age : s.age.rows.Perm (t.activeRows.map fun row => (row.id, row.createdAt))
  deadLetter : s.deadLetter.Perm t.dlq.rows

/-- Every row of an index belongs to a task that is there, and ends with it. -/
def Owned (keysOf : RegisterTask → List String) (tasks : Keyed TaskRow.id)
    (index : Keyed IndexRow.key) : Prop :=
  ∀ k row, index.find k = some row → ∃ owner, tasks.find row.taskId = some owner ∧
    owner.expiresAt = row.expiresAt ∧ k ∈ keysOf owner.payload

/-- What a row of a task says by itself. -/
structure TaskRow.Sound (row : TaskRow) : Prop where
  payload_id : row.payload.id = row.id
  active_iff : row.active = row.expiresAt.isNone
  ended : row.expiresAt.isSome = true → row.payload.status.isTerminal = true
  time : row.active = true → 0 ≤ row.createdAt

/-- The key a task's content is found under. -/
def contentKeys (task : RegisterTask) : List String := [toAsciiLowercase task.contentHash]

/-- What holds of the tables by themselves. -/
structure Sound (t : Tables) : Prop where
  tasks : ∀ id row, t.tasks.find id = some row → row.Sound
  content : Owned contentKeys t.tasks t.contentIndex
  keys : Owned memberKeyPlaceholders t.tasks t.keyPlaceholders
  counts : ∀ key row, t.rateCounters.find key = some row → 0 < row.count

/-! ## Families of keys -/

section Same

variable {α : Type} {now later : Nat} {f g : String → Option (Lease α)}

theorem Same.mono (h : Same now f g) (hle : now ≤ later) : Same later f g :=
  fun k => live_congr hle (h k)

theorem Same.update (h : Same now f g) (key : String) (x : Option (Lease α)) :
    Same now (Function.update f key x) (Function.update g key x) := by
  intro k
  rw [Function.update_apply, Function.update_apply]
  split
  · rfl
  · exact h k

/-- Dropping what has ended changes nothing of what is left. -/
theorem Same.drop (h : Same now f g) : Same now (fun k => live now (f k)) g := by
  intro k
  rw [live_live (Nat.le_refl now)]
  exact h k

end Same

theorem Alike.mono {now later : Nat} {s : TimedStore} {t : Tables} (h : Alike now s t)
    (hle : now ≤ later) : Alike later s t :=
  { h with
    tasks := h.tasks.mono hle
    content := h.content.mono hle
    keys := h.keys.mono hle
    retries := h.retries.mono hle
    counters := h.counters.mono hle }

theorem Alike.dropAt {now : Nat} {s : TimedStore} {t : Tables} (h : Alike now s t) :
    Alike now (s.dropAt now) t :=
  { h with
    tasks := h.tasks.drop
    content := h.content.drop
    keys := h.keys.drop
    retries := h.retries.drop
    counters := h.counters.drop }

/-! ## Folds over the keys of a task -/

section Folds

variable (id : String) (index : String → Option (Lease String)) (keys : List String) (k : String)

theorem foldl_claimAt : (keys.foldl (claimAt id) index) k =
    if k ∈ keys ∧ index k = none then some ⟨id, none⟩ else index k := by
  induction keys generalizing index with
  | nil => simp
  | cons key keys ih =>
      rw [List.foldl_cons, ih]
      unfold claimAt
      by_cases hnone : index key = none
      · by_cases hk : k = key <;> simp [hnone, hk]
      · have hsome : (index key).isNone = false := by
          rw [Option.isNone_eq_false_iff, Option.isSome_iff_ne_none]
          exact hnone
        by_cases hk : k = key <;> simp [hsome, hk, hnone]

theorem foldl_fadeAt (instant : Nat) : (keys.foldl (fadeAt instant id) index) k =
    if k ∈ keys ∧ (index k).map Lease.value = some id then some ⟨id, some instant⟩
      else index k := by
  induction keys generalizing index with
  | nil => simp
  | cons key keys ih =>
      rw [List.foldl_cons, ih]
      unfold fadeAt
      by_cases hpoints : (index key).map Lease.value = some id
      · by_cases hk : k = key <;> simp [hpoints, hk]
      · by_cases hk : k = key <;> simp [hpoints, hk]

theorem foldl_releaseAt : (keys.foldl (releaseAt id) index) k =
    if k ∈ keys ∧ (index k).map Lease.value = some id then none else index k := by
  induction keys generalizing index with
  | nil => simp
  | cons key keys ih =>
      rw [List.foldl_cons, ih]
      unfold releaseAt
      by_cases hpoints : (index key).map Lease.value = some id
      · by_cases hk : k = key <;> simp [hpoints, hk]
      · by_cases hk : k = key <;> simp [hpoints, hk]

theorem find_foldl_insertOrIgnore (table : Keyed IndexRow.key) :
    (keys.foldl (fun table key => table.insertOrIgnore ⟨key, id, none⟩) table).find k =
      if k ∈ keys ∧ table.find k = none then some ⟨k, id, none⟩ else table.find k := by
  induction keys generalizing table with
  | nil => simp
  | cons key keys ih =>
      rw [List.foldl_cons, ih, Keyed.find_insertOrIgnore]
      by_cases hk : k = key
      · subst hk
        by_cases hnone : table.find k = none <;> simp [hnone]
      · simp [hk]

end Folds

/-! ## Rows -/

variable {now : Nat} {s : TimedStore} {t : Tables}

/-- A task that is read has a row, which has not ended. -/
theorem getTask_eq_some {id : String} {task : RegisterTask} : t.getTask now id = some task ↔
    ∃ row, t.tasks.find id = some row ∧ row.payload = task ∧ row.lease.LiveAt now = true := by
  simp only [Tables.getTask, Tables.task, Option.map_eq_some_iff, live_eq_some]
  constructor
  · rintro ⟨lease, ⟨⟨row, hrow, rfl⟩, hlive⟩, rfl⟩
    exact ⟨row, hrow, rfl, hlive⟩
  · rintro ⟨row, hrow, rfl, hlive⟩
    exact ⟨row.lease, ⟨⟨row, hrow, rfl⟩, hlive⟩, rfl⟩

/-- The rows of active tasks after an update that leaves a task active. -/
theorem activeRows_updateTask {β : Type} (id : String) {f : TaskRow → TaskRow}
    (hf : ∀ row, (f row).id = row.id) (hactive : ∀ row, (f row).active = row.active)
    (g : TaskRow → β) (hg : ∀ row, g (f row) = g row) :
    (t.updateTask id f hf).activeRows.map g = t.activeRows.map g := by
  simp only [Tables.activeRows, Tables.updateTask, Keyed.updateWhere, decide_eq_true_eq]
  induction t.tasks.rows with
  | nil => rfl
  | cons row rows ih =>
      rw [List.map_cons, List.filter_cons, List.filter_cons]
      by_cases hid : row.id = id
      · rw [if_pos hid, hactive]
        split
        · rw [List.map_cons, List.map_cons, hg, ih]
        · exact ih
      · rw [if_neg hid]
        split
        · rw [List.map_cons, List.map_cons, ih]
        · exact ih

/-- The rows of active tasks after a task ended. -/
theorem activeRows_ended (id : String) {f : TaskRow → TaskRow} (hf : ∀ row, (f row).id = row.id)
    (hactive : ∀ row, (f row).active = false) :
    (t.updateTask id f hf).activeRows = t.activeRows.filter fun row => row.id ≠ id := by
  simp only [Tables.activeRows, Tables.updateTask, Keyed.updateWhere, decide_eq_true_eq]
  induction t.tasks.rows with
  | nil => rfl
  | cons row rows ih =>
      rw [List.map_cons, List.filter_cons, List.filter_cons, ih]
      by_cases hid : row.id = id
      · rw [if_pos hid, hactive, if_neg Bool.false_ne_true]
        split
        · rw [List.filter_cons, if_neg (by simp [hid])]
        · rfl
      · rw [if_neg hid]
        split
        · rw [List.filter_cons, if_pos (by simp [hid])]
        · rfl

/-! ## Reads -/

theorem Alike.read (h : Alike now s t) (id : String) :
    ((s.dropAt now).tasks id).map Lease.value = t.getTask now id := congrArg _ (h.tasks id)

theorem Alike.findById (h : Alike now s t) (x : Option String) :
    (runAt now (Server.findById x) s).1 = .ok (x.bind (t.getTask now)) ∧
      Alike now (runAt now (Server.findById x) s).2 t := by
  cases x with
  | none => exact ⟨rfl, h⟩
  | some id => exact ⟨congrArg Except.ok (h.read id), h.dropAt⟩

theorem findByIndex_eq (row : Option (Lease String)) :
    t.findByIndex now row = ((live now row).map Lease.value).bind (t.getTask now) := by
  unfold Tables.findByIndex
  cases live now row <;> rfl

/-- The answers of the two stores are the same, and so are the states they leave. -/
structure Agrees (now : Nat) (s : TimedStore) (t : Tables) (f : StoreFunction) : Prop where
  answer : (f.redis now s).1 = .ok (f.sqlite now t).1
  alike : Alike now (f.redis now s).2 (f.sqlite now t).2
  sound : Sound (f.sqlite now t).2

theorem Agrees.of_eq {f : StoreFunction} {answer : f.Answer} {s' : TimedStore} {t' : Tables}
    (hredis : f.redis now s = (.ok answer, s')) (hsqlite : f.sqlite now t = (answer, t'))
    (halike : Alike now s' t') (hsound : Sound t') : Agrees now s t f := by
  refine ⟨?_, ?_, ?_⟩
  · rw [hredis, hsqlite]
  · rw [hredis, hsqlite]
    exact halike
  · rw [hsqlite]
    exact hsound

theorem agrees_getTask (h : Alike now s t) (ht : Sound t) (id : String) :
    Agrees now s t (.getTask id) :=
  ⟨congrArg Except.ok (h.read id), h.dropAt, ht⟩

theorem agrees_findByContent (h : Alike now s t) (ht : Sound t) (contentHash : String) :
    Agrees now s t (.findByContent contentHash) := by
  obtain ⟨hanswer, hafter⟩ :=
    h.dropAt.findById (((s.dropAt now).content (toAsciiLowercase contentHash)).map Lease.value)
  refine ⟨hanswer.trans ?_, hafter, ht⟩
  show Except.ok _ = Except.ok (t.findByContent now contentHash)
  rw [Tables.findByContent, findByIndex_eq, ← h.content]
  rfl

theorem agrees_findByPublicKey (h : Alike now s t) (ht : Sound t) (publicKey : String) :
    Agrees now s t (.findByPublicKey publicKey) := by
  obtain ⟨hanswer, hafter⟩ :=
    h.dropAt.findById (((s.dropAt now).keys (toAsciiLowercase publicKey)).map Lease.value)
  refine ⟨hanswer.trans ?_, hafter, ht⟩
  show Except.ok _ = Except.ok (t.findByPublicKey now publicKey)
  rw [Tables.findByPublicKey, findByIndex_eq, ← h.keys]
  rfl

theorem agrees_findByRetryDigest (h : Alike now s t) (ht : Sound t) (digest : String) :
    Agrees now s t (.findByRetryDigest digest) := by
  obtain ⟨hanswer, hafter⟩ :=
    h.dropAt.findById (((s.dropAt now).retries (toAsciiLowercase digest)).map Lease.value)
  refine ⟨hanswer.trans ?_, hafter, ht⟩
  show Except.ok _ = Except.ok (t.findByRetryDigest now digest)
  rw [Tables.findByRetryDigest, findByIndex_eq, ← h.retries]
  rfl

/-! ## Markers and counters -/

theorem agrees_recordRetryDigest (h : Alike now s t) (ht : Sound t) (digest taskId : String) :
    Agrees now s t (.recordRetryDigest digest taskId) := by
  refine ⟨rfl, { h.dropAt with retries := ?_ }, { ht with }⟩
  have hdigest : (t.recordRetryDigest now digest taskId).digest = Function.update t.digest
      (toAsciiLowercase digest) (some ⟨taskId, some (now + retryCoalesceTtlSecs * 1000)⟩) := by
    funext k
    simp only [Tables.digest, Tables.recordRetryDigest, Keyed.find_insertOrReplace,
      Function.update_apply]
    split <;> rfl
  show Same now _ (t.recordRetryDigest now digest taskId).digest
  rw [hdigest]
  exact h.dropAt.retries.update _ _

/-- The counter of a key after a window was written, in both stores. -/
theorem Alike.counter (h : Alike now s t) (key : String) (count windowEnd : Nat) :
    Alike now { s with counters := Function.update s.counters ("p256-index:rate:" ++ key)
                                     (some ⟨count, some windowEnd⟩) }
      { t with rateCounters := t.rateCounters.insertOrReplace ⟨key, count, windowEnd⟩ } := by
  refine { h with counters := ?_ }
  intro k
  have hkey : "p256-index:rate:" ++ k = "p256-index:rate:" ++ key ↔ k = key := by
    constructor
    · intro heq
      have hlists := congrArg String.toList heq
      rw [String.toList_append, String.toList_append, List.append_right_inj] at hlists
      exact String.toList_inj.mp hlists
    · rintro rfl
      rfl
  have hcounter := h.counters k
  simp only [Tables.counter, Keyed.find_insertOrReplace, Function.update_apply, hkey] at hcounter ⊢
  split
  · rfl
  · exact hcounter

theorem Sound.counter (h : Sound t) (key : String) {count : Nat} (hcount : 0 < count)
    (windowEnd : Nat) :
    Sound { t with rateCounters := t.rateCounters.insertOrReplace ⟨key, count, windowEnd⟩ } := by
  refine { h with counts := ?_ }
  intro k row hrow
  rw [Keyed.find_insertOrReplace] at hrow
  split at hrow
  · cases hrow
    exact hcount
  · exact h.counts k row hrow

theorem agrees_incrementMinute (h : Alike now s t) (ht : Sound t) (key : String) :
    Agrees now s t (.incrementMinute key) := by
  have hdrop : (s.dropAt now).counters ("p256-index:rate:" ++ key) = live now (t.counter key) :=
    h.counters key
  -- the window that is written when there is none, or when it has ended
  have hfresh : live now (t.counter key) = none → t.bumpMinuteCounter now key =
      (1, { t with rateCounters := t.rateCounters.insertOrReplace ⟨key, 1, now + 60000⟩ }) →
        Agrees now s t (.incrementMinute key) := by
    intro hnone hbump
    have hredis := runAt_incrementMinute_none (hdrop.trans hnone)
    refine ⟨?_, ?_, ?_⟩
    · show (runAt now _ s).1 = .ok (t.bumpMinuteCounter now key).1
      rw [hredis, hbump]
    · show Alike now (runAt now _ s).2 (t.bumpMinuteCounter now key).2
      rw [hredis, hbump]
      exact h.dropAt.counter key 1 _
    · show Sound (t.bumpMinuteCounter now key).2
      rw [hbump]
      exact ht.counter key Nat.one_pos _
  cases hrow : t.rateCounters.find key with
  | none =>
      apply hfresh
      · rw [Tables.counter, hrow]
        rfl
      · rw [Tables.bumpMinuteCounter, hrow]
  | some row =>
      by_cases hend : row.windowEnd ≤ now
      · apply hfresh
        · rw [Tables.counter, hrow]
          exact live_of_le hend _
        · simp only [Tables.bumpMinuteCounter, hrow, if_pos hend]
      · have hpos := ht.counts key row hrow
        have hlive : live now (t.counter key) = some row.lease := by
          rw [Tables.counter, hrow]
          exact live_of_lt (by omega) _
        have hredis := runAt_incrementMinute_some (hdrop.trans hlive) hpos
        have hbump : t.bumpMinuteCounter now key = (row.count + 1,
            { t with
              rateCounters :=
                t.rateCounters.insertOrReplace ⟨key, row.count + 1, row.windowEnd⟩ }) := by
          simp only [Tables.bumpMinuteCounter, hrow, if_neg hend]
        refine ⟨?_, ?_, ?_⟩
        · show (runAt now _ s).1 = .ok (t.bumpMinuteCounter now key).1
          rw [hredis, hbump]
          rfl
        · show Alike now (runAt now _ s).2 (t.bumpMinuteCounter now key).2
          rw [hredis, hbump]
          exact h.dropAt.counter key _ _
        · show Sound (t.bumpMinuteCounter now key).2
          rw [hbump]
          exact ht.counter key (Nat.succ_pos _) _

end P256Index.Cloudflare
