import P256Index.Server.Clock

/-!
# The store of the Durable Object

What the other shell keeps in Redis and the queue, in SQLite tables of one single-threaded object.
Every function is a few synchronous statements, so it is atomic. Rows that have reached their end
stay until the next request purges them; the reads filter them out.
-/

namespace P256Index.Cloudflare

open Registrar
open Server (memberKeyPlaceholders doneRecord retriedRecord exhaustedRecord failedRecord
  maxRetries QueueStats)

/-! ## Lifetimes, in milliseconds -/

def taskDoneTtlMs : Nat := 7 * 24 * 60 * 60 * 1000
def taskFailedTtlMs : Nat := 30 * 24 * 60 * 60 * 1000
def retryCoalesceTtlSecs : Nat := 24 * 60 * 60

/-! ## Tables -/

structure TaskRow where
  id : String
  payload : RegisterTask
  status : TaskStatus
  admitted : Bool
  contentHash : String
  createdAt : Int
  active : Bool
  expiresAt : Option Nat
  deriving DecidableEq

/-- A row of `content_index` or `key_placeholders`. -/
structure IndexRow where
  key : String
  taskId : String
  expiresAt : Option Nat
  deriving DecidableEq

structure DigestRow where
  digest : String
  taskId : String
  expiresAt : Nat
  deriving DecidableEq

structure CounterRow where
  key : String
  count : Nat
  windowEnd : Nat
  deriving DecidableEq

structure EnvelopeRow where
  seq : Nat
  taskId : String
  deriving DecidableEq

structure Tables where
  tasks : Keyed TaskRow.id
  contentIndex : Keyed IndexRow.key
  keyPlaceholders : Keyed IndexRow.key
  retryDigests : Keyed DigestRow.digest
  rateCounters : Keyed CounterRow.key
  dlq : Keyed (id : String → String)
  queue : Keyed EnvelopeRow.seq
  /-- The largest `seq` ever given, which `AUTOINCREMENT` keeps. -/
  lastSeq : Nat

def Tables.empty : Tables where
  tasks := Keyed.empty
  contentIndex := Keyed.empty
  keyPlaceholders := Keyed.empty
  retryDigests := Keyed.empty
  rateCounters := Keyed.empty
  dlq := Keyed.empty
  queue := Keyed.empty
  lastSeq := 0

def TaskRow.lease (row : TaskRow) : Lease RegisterTask := ⟨row.payload, row.expiresAt⟩
def IndexRow.lease (row : IndexRow) : Lease String := ⟨row.taskId, row.expiresAt⟩
def DigestRow.lease (row : DigestRow) : Lease String := ⟨row.taskId, some row.expiresAt⟩
def CounterRow.lease (row : CounterRow) : Lease Nat := ⟨row.count, some row.windowEnd⟩

namespace Tables

/-! ## Expiry -/

/-- The end of every request's past: rows that have reached theirs are deleted. -/
def purgeExpired (t : Tables) (now : Nat) : Tables :=
  { t with
    tasks := t.tasks.deleteWhere fun row => row.expiresAt.any fun instant => instant ≤ now
    contentIndex := t.contentIndex.deleteWhere fun row =>
      row.expiresAt.any fun instant => instant ≤ now
    keyPlaceholders := t.keyPlaceholders.deleteWhere fun row =>
      row.expiresAt.any fun instant => instant ≤ now
    retryDigests := t.retryDigests.deleteWhere fun row => row.expiresAt ≤ now
    rateCounters := t.rateCounters.deleteWhere fun row => row.windowEnd ≤ now }

/-! ## Reads -/

/-- The row of a key, ended or not. -/
def task (t : Tables) (id : String) : Option (Lease RegisterTask) :=
  (t.tasks.find id).map TaskRow.lease
def content (t : Tables) (hash : String) : Option (Lease String) :=
  (t.contentIndex.find hash).map IndexRow.lease
def key (t : Tables) (key : String) : Option (Lease String) :=
  (t.keyPlaceholders.find key).map IndexRow.lease
def digest (t : Tables) (digest : String) : Option (Lease String) :=
  (t.retryDigests.find digest).map DigestRow.lease
def counter (t : Tables) (key : String) : Option (Lease Nat) :=
  (t.rateCounters.find key).map CounterRow.lease

/-- `expires_at IS NULL OR expires_at > now`. -/
def getTask (t : Tables) (now : Nat) (id : String) : Option RegisterTask :=
  (live now (t.task id)).map Lease.value

/-- `find_by_index`, of the row it selects. -/
def findByIndex (t : Tables) (now : Nat) (row : Option (Lease String)) : Option RegisterTask :=
  match live now row with
  | some lease => t.getTask now lease.value
  | none => none

def findByContent (t : Tables) (now : Nat) (contentHash : String) : Option RegisterTask :=
  t.findByIndex now (t.content (toAsciiLowercase contentHash))

def findByPublicKey (t : Tables) (now : Nat) (publicKey : String) : Option RegisterTask :=
  t.findByIndex now (t.key (toAsciiLowercase publicKey))

def findByRetryDigest (t : Tables) (now : Nat) (digest : String) : Option RegisterTask :=
  t.findByIndex now (t.digest (toAsciiLowercase digest))

/-! ## Admission -/

def recordRetryDigest (t : Tables) (now : Nat) (digest taskId : String) : Tables :=
  { t with
    retryDigests :=
      t.retryDigests.insertOrReplace ⟨toAsciiLowercase digest, taskId,
        now + retryCoalesceTtlSecs * 1000⟩ }

/-- The rows of a new task: the first active task keeps its claim on a key. -/
def insertTask (t : Tables) (task : RegisterTask) : Tables :=
  { t with
    tasks := t.tasks.insertOrReplace
      { id := task.id, payload := task, status := .pending, admitted := false
        contentHash := toAsciiLowercase task.contentHash, createdAt :=
          task.createdAt, active := true
        expiresAt := none }
    contentIndex :=
      t.contentIndex.insertOrReplace ⟨toAsciiLowercase task.contentHash, task.id, none⟩
    keyPlaceholders := (memberKeyPlaceholders task).foldl
      (fun table key => table.insertOrIgnore ⟨key, task.id, none⟩) t.keyPlaceholders }

def admitTask (t : Tables) (now : Nat) (task : RegisterTask) : Admission.AdmitOutcome × Tables :=
  match t.findByContent now task.contentHash with
  | some existing => (.existing existing.id, t)
  | none => (.new, t.insertTask task)

def enqueue (t : Tables) (task : RegisterTask) : Tables :=
  { t with queue := t.queue.insertOrReplace ⟨t.lastSeq + 1, task.id⟩, lastSeq := t.lastSeq + 1 }

/-! ## Transitions -/

/-- `UPDATE tasks SET … WHERE id`. -/
def updateTask (t : Tables) (id : String) (f : TaskRow → TaskRow)
    (hf : ∀ row, (f row).id = row.id) : Tables :=
  { t with tasks := t.tasks.updateWhere (fun row => row.id = id) f hf }

def markAdmitted (t : Tables) (now : Nat) (id : String) : Option RegisterTask × Tables :=
  match t.getTask now id with
  | none => (none, t)
  | some before =>
      if before.status.isTerminal then (some before, t)
      else
        let task := { before with admitted := true }
        (some task,
          t.updateTask id (fun row => { row with payload := task, admitted := true }) fun _ => rfl)

/-- The row of a task that has ended. -/
def TaskRow.ended (row : TaskRow) (task : RegisterTask) (status : TaskStatus) (instant : Nat) :
    TaskRow :=
  { row with
    payload := task, status := status, admitted := true, active := false,
    expiresAt := some instant }

/-- Done: the record and the indexes that still point at the task pick up the lifetime. Failed: the
indexes are dropped at once, and the task joins the dead letters. -/
def transitionTerminal (t : Tables) (now : Nat) (task : RegisterTask) (ttlMs : Nat)
    (failed : Bool) : Tables :=
  let instant := now + ttlMs
  let status := if failed then .failed else .done
  let t := t.updateTask task.id (fun row => TaskRow.ended row task status instant) fun _ => rfl
  if failed then
    { t with
      contentIndex := t.contentIndex.deleteWhere fun row => row.taskId = task.id
      keyPlaceholders := t.keyPlaceholders.deleteWhere fun row => row.taskId = task.id
      dlq := t.dlq.insertOrIgnore task.id }
  else
    { t with
      contentIndex := t.contentIndex.updateWhere (fun row => row.taskId = task.id)
        (fun row => { row with expiresAt := some instant }) fun _ => rfl
      keyPlaceholders := t.keyPlaceholders.updateWhere (fun row => row.taskId = task.id)
        (fun row => { row with expiresAt := some instant }) fun _ => rfl }

def markDone (t : Tables) (now : Nat) (id : String) (txHash : Option String)
    (onChainId : Option UInt64) : Option RegisterTask × Tables :=
  match t.getTask now id with
  | none => (none, t)
  | some task =>
      let task := doneRecord task txHash onChainId
      (some task, t.transitionTerminal now task taskDoneTtlMs false)

def recordTransientFailure (t : Tables) (now : Nat) (id message : String) :
    Option RegisterTask × Tables :=
  match t.getTask now id with
  | none => (none, t)
  | some task =>
      if task.status.isTerminal then (some task, t)
      else
        let task := retriedRecord task message
        if maxRetries ≤ task.retries then
          let task := exhaustedRecord task
          (some task, t.transitionTerminal now task taskFailedTtlMs true)
        else (some task, t.updateTask id (fun row => { row with payload := task }) fun _ => rfl)

def markFailed (t : Tables) (now : Nat) (id failureClass message : String) :
    Option RegisterTask × Tables :=
  match t.getTask now id with
  | none => (none, t)
  | some task =>
      let task := failedRecord task failureClass message
      (some task, t.transitionTerminal now task taskFailedTtlMs true)

/-! ## Statistics, the queue and the counters -/

/-- The rows of active tasks. -/
def activeRows (t : Tables) : List TaskRow := t.tasks.rows.filter TaskRow.active

/-- `i64::saturating_sub`. -/
def saturatingSub (a b : Int) : Int := max (-2 ^ 63) (min (2 ^ 63 - 1) (a - b))

def queueStats (t : Tables) (now : Nat) : QueueStats where
  depth := t.activeRows.length
  dlqCount := t.dlq.rows.length
  oldestActiveAgeMs :=
    match (t.activeRows.map TaskRow.createdAt).min? with
    | some createdAt => (max (saturatingSub now createdAt) 0).toNat
    | none => 0

def queueLen (t : Tables) : Nat := t.queue.rows.length

def pollBatch (t : Tables) (limit : Nat) : List EnvelopeRow :=
  (t.queue.rows.mergeSort fun a b => a.seq ≤ b.seq).take limit

def deleteBatch (t : Tables) (batch : List EnvelopeRow) : Tables :=
  { t with
    queue := batch.foldl (fun queue envelope => queue.deleteWhere fun row =>
      row.seq = envelope.seq) t.queue }

/-- The upsert of the minute window. -/
def bumpMinuteCounter (t : Tables) (now : Nat) (key : String) : Nat × Tables :=
  match t.rateCounters.find key with
  | none =>
      (1, { t with rateCounters := t.rateCounters.insertOrReplace ⟨key, 1, now + 60000⟩ })
  | some row =>
      if row.windowEnd ≤ now then
        (1, { t with rateCounters := t.rateCounters.insertOrReplace ⟨key, 1, now + 60000⟩ })
      else
        (row.count + 1,
          { t with
            rateCounters := t.rateCounters.insertOrReplace ⟨key, row.count + 1, row.windowEnd⟩ })

end Tables

end P256Index.Cloudflare
