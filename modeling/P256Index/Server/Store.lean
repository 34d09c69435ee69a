import P256Index.Registrar.Admission

/-!
# The task store

The keys the service keeps in Redis for its tasks, the commands and scripts it runs on them (each
one atomic), and the functions built from several of them. The key families have different names, so
each is a map of its own; a key with a lifetime may vanish, one without may not. Records are stored
as values: what was written parses back.
-/

namespace P256Index.Server

open Registrar

/-! ## State -/

/-- The value of a key, and whether the key has a lifetime. -/
structure Slot (α : Type) where
  value : α
  expires : Bool
  deriving DecidableEq

structure Store where
  /-- `p256-index:task:{id}`. -/
  tasks : String → Option (Slot RegisterTask)
  /-- `p256-index:task-content:{hash}`, the task that holds a content hash. -/
  content : String → Option (Slot String)
  /-- `p256-index:task-key:{key}`, the public-key placeholders. -/
  keys : String → Option (Slot String)
  /-- `p256-index:task-retry:{digest}`. -/
  retries : String → Option (Slot String)
  /-- `p256-index:rate:…`, the minute counters. -/
  counters : String → Option (Slot Nat)
  /-- `p256-index:active-tasks`, a set. -/
  active : List String
  /-- `p256-index:active-created-at`, the active tasks with their creation times. -/
  age : String → Option Int
  /-- `p256-index:dlq-tasks`, the dead-letter set. -/
  deadLetter : List String

def Store.empty : Store where
  tasks _ := none
  content _ := none
  keys _ := none
  retries _ := none
  counters _ := none
  active := []
  age _ := none
  deadLetter := []

/-- The record of a task id. -/
def Store.task (s : Store) (id : String) : Option RegisterTask := (s.tasks id).map Slot.value

/-- The public-key placeholders of a task: the member keys, then the group key. -/
def memberKeyPlaceholders (task : RegisterTask) : List String :=
  (task.members.map fun member => toAsciiLowercase member.publicKey) ++
    [toAsciiLowercase task.groupPublicKey]

/-- `redact_error`: the first 200 characters. -/
def redactError (value : String) : String := String.ofList (value.toList.take 200)

/-- `u32::saturating_add(1)`. -/
def saturatingSucc (n : Nat) : Nat := min (n + 1) (2 ^ 32 - 1)

/-! ## Commands -/

/-- The answer of the admission script. -/
inductive Admission where
  | new (id : String)
  | existing (id : String)
  deriving DecidableEq

/-- One Redis command or script. -/
inductive StoreCommand where
  | getTask (id : String)
  | getContent (contentHash : String)
  | getKey (publicKey : String)
  | getRetry (digest : String)
  | setRetry (digest taskId : String)
  | admitTask (task : RegisterTask)
  | swapTask (id : String) (previous updated : RegisterTask)
  | setTask (task : RegisterTask)
  | transitionDone (task : RegisterTask)
  | transitionFailed (task : RegisterTask)
  | incr (key : String)
  | pexpire (key : String)
  | depth
  deriving DecidableEq

abbrev StoreCommand.Value : StoreCommand → Type
  | .getTask _ => Option RegisterTask
  | .getContent _ => Option String
  | .getKey _ => Option String
  | .getRetry _ => Option String
  | .setRetry _ _ => Unit
  | .admitTask _ => Admission
  | .swapTask _ _ _ => Bool
  | .setTask _ => Unit
  | .transitionDone _ => Unit
  | .transitionFailed _ => Unit
  | .incr _ => Nat
  | .pexpire _ => Unit
  | .depth => UInt64

/-- `EXISTS` / `SET`: the first task to name a key keeps it. -/
def claim (id : String) (keys : String → Option (Slot String)) (key : String) :
    String → Option (Slot String) :=
  if (keys key).isNone then Function.update keys key (some ⟨id, false⟩) else keys

/-- `PEXPIRE` where the key still points at the task. -/
def fade (id : String) (index : String → Option (Slot String)) (key : String) :
    String → Option (Slot String) :=
  if (index key).map Slot.value = some id
    then Function.update index key (some ⟨id, true⟩) else index

/-- `DEL` where the key still points at the task. -/
def release (id : String) (index : String → Option (Slot String)) (key : String) :
    String → Option (Slot String) :=
  if (index key).map Slot.value = some id then Function.update index key none else index

/-- Redis phase one, keyed by the content hash. -/
def Store.admitTask (s : Store) (task : RegisterTask) : Store where
  tasks := Function.update s.tasks task.id (some ⟨task, false⟩)
  content := Function.update s.content (toAsciiLowercase task.contentHash) (some ⟨task.id, false⟩)
  keys := (memberKeyPlaceholders task).foldl (claim task.id) s.keys
  retries := s.retries
  counters := s.counters
  active := s.active.insert task.id
  age := Function.update s.age task.id (some task.createdAt)
  deadLetter := s.deadLetter

def Store.transitionDone (s : Store) (task : RegisterTask) : Store where
  tasks := Function.update s.tasks task.id (some ⟨task, true⟩)
  content := fade task.id s.content (toAsciiLowercase task.contentHash)
  keys := (memberKeyPlaceholders task).foldl (fade task.id) s.keys
  retries := s.retries
  counters := s.counters
  active := s.active.erase task.id
  age := Function.update s.age task.id none
  deadLetter := s.deadLetter

def Store.transitionFailed (s : Store) (task : RegisterTask) : Store where
  tasks := Function.update s.tasks task.id (some ⟨task, true⟩)
  content := release task.id s.content (toAsciiLowercase task.contentHash)
  keys := (memberKeyPlaceholders task).foldl (release task.id) s.keys
  retries := s.retries
  counters := s.counters
  active := s.active.erase task.id
  age := Function.update s.age task.id none
  deadLetter := s.deadLetter.insert task.id

@[simp] theorem Store.task_admitTask_self (s : Store) (task : RegisterTask) :
    (s.admitTask task).task task.id = some task := by
  simp [Store.task, Store.admitTask]

@[simp] theorem Store.task_transitionDone_self (s : Store) (task : RegisterTask) :
    (s.transitionDone task).task task.id = some task := by
  simp [Store.task, Store.transitionDone]

@[simp] theorem Store.task_transitionFailed_self (s : Store) (task : RegisterTask) :
    (s.transitionFailed task).task task.id = some task := by
  simp [Store.task, Store.transitionFailed]

theorem Store.task_transitionDone (s : Store) (task : RegisterTask) (id : String) :
    (s.transitionDone task).task id = if id = task.id then some task else s.task id := by
  by_cases h : id = task.id <;> simp [Store.task, Store.transitionDone, Function.update, h]

theorem Store.task_transitionFailed (s : Store) (task : RegisterTask) (id : String) :
    (s.transitionFailed task).task id = if id = task.id then some task else s.task id := by
  by_cases h : id = task.id <;> simp [Store.task, Store.transitionFailed, Function.update, h]

/-- What a command answers, and what it leaves. -/
def StoreCommand.exec : (c : StoreCommand) → Store → c.Value × Store
  | .getTask id, s => (s.task id, s)
  | .getContent contentHash, s => ((s.content (toAsciiLowercase contentHash)).map Slot.value, s)
  | .getKey publicKey, s => ((s.keys (toAsciiLowercase publicKey)).map Slot.value, s)
  | .getRetry digest, s => ((s.retries (toAsciiLowercase digest)).map Slot.value, s)
  | .setRetry digest taskId, s =>
      ((),
        { s with
          retries := Function.update s.retries (toAsciiLowercase digest) (some ⟨taskId, true⟩) })
  | .admitTask task, s =>
      match s.content (toAsciiLowercase task.contentHash) with
      | some slot => (.existing slot.value, s)
      | none => (.new task.id, s.admitTask task)
  | .swapTask id previous updated, s =>
      -- `KEEPTTL`: a swapped record keeps the lifetime it had
      match s.tasks id with
      | some slot =>
          if slot.value = previous then
            (true, { s with tasks := Function.update s.tasks id (some ⟨updated, slot.expires⟩) })
          else (false, s)
      | none => (false, s)
  | .setTask task, s =>
      ((), { s with tasks := Function.update s.tasks task.id (some ⟨task, false⟩) })
  | .transitionDone task, s => ((), s.transitionDone task)
  | .transitionFailed task, s => ((), s.transitionFailed task)
  | .incr key, s =>
      match s.counters key with
      | some slot =>
          (slot.value + 1,
            { s with
              counters := Function.update s.counters key (some ⟨slot.value + 1, slot.expires⟩) })
      | none => (1, { s with counters := Function.update s.counters key (some ⟨1, false⟩) })
  | .pexpire key, s =>
      match s.counters key with
      | some slot =>
          ((), { s with counters := Function.update s.counters key (some ⟨slot.value, true⟩) })
      | none => ((), s)
  | .depth, s => (UInt64.ofNat s.active.length, s)

/-- A key with a lifetime vanishes. -/
inductive Store.Expires : Store → Store → Prop
  | task {s : Store} {id : String} {task : RegisterTask} : s.tasks id = some ⟨task, true⟩ →
      Expires s { s with tasks := Function.update s.tasks id none }
  | content {s : Store} {key id : String} : s.content key = some ⟨id, true⟩ →
      Expires s { s with content := Function.update s.content key none }
  | key {s : Store} {key id : String} : s.keys key = some ⟨id, true⟩ →
      Expires s { s with keys := Function.update s.keys key none }
  | retry {s : Store} {key id : String} : s.retries key = some ⟨id, true⟩ →
      Expires s { s with retries := Function.update s.retries key none }
  | counter {s : Store} {key : String} {n : Nat} : s.counters key = some ⟨n, true⟩ →
      Expires s { s with counters := Function.update s.counters key none }

/-! ## Store functions

A command that fails or times out answers `none`; every caller treats all such errors alike. -/

abbrev StoreReply (c : StoreCommand) : Type := Option c.Value

abbrev StoreFlow := Flow StoreCommand StoreReply Unit

/-- `query` and `run_script`. -/
def query (c : StoreCommand) : StoreFlow c.Value := do
  match ← Flow.request c with
  | some value => pure value
  | none => throw ()

def getTask (id : String) : StoreFlow (Option RegisterTask) := query (.getTask id)

/-- The second half of `find_by_index`: follow the id an index holds. -/
def findById : Option String → StoreFlow (Option RegisterTask)
  | some id => getTask id
  | none => pure none

def findByContent (contentHash : String) : StoreFlow (Option RegisterTask) := do
  let id ← query (.getContent contentHash)
  findById id

def findByPublicKey (publicKey : String) : StoreFlow (Option RegisterTask) := do
  let id ← query (.getKey publicKey)
  findById id

def findByRetryDigest (digest : String) : StoreFlow (Option RegisterTask) := do
  let id ← query (.getRetry digest)
  findById id

def recordRetryDigest (digest taskId : String) : StoreFlow Unit := query (.setRetry digest taskId)

def admitTask (task : RegisterTask) : StoreFlow Admission := query (.admitTask task)

/-- Phase three: a compare-and-swap, so that a worker transition that raced it wins. -/
def markAdmitted (id : String) : StoreFlow (Option RegisterTask) := do
  match ← getTask id with
  | none => pure none
  | some before =>
      if before.status.isTerminal then pure (some before)
      else do
        let task := { before with admitted := true }
        let swapped ← query (.swapTask id before task)
        if swapped then pure (some task) else getTask id

/-- The record `mark_done` writes. -/
def doneRecord (task : RegisterTask) (txHash : Option String) (onChainId : Option UInt64) :
    RegisterTask :=
  { task with
    status := .done
    txHash := txHash.or task.txHash
    onChainId := onChainId.or task.onChainId
    error := none
    admitted := true }

def markDone (id : String) (txHash : Option String) (onChainId : Option UInt64) :
    StoreFlow (Option RegisterTask) := do
  match ← getTask id with
  | none => pure none
  | some task => do
      let task := doneRecord task txHash onChainId
      query (.transitionDone task)
      pure (some task)

def maxRetries : Nat := 10

/-- One more failed attempt on a record. -/
def retriedRecord (task : RegisterTask) (message : String) : RegisterTask :=
  { task with retries := saturatingSucc task.retries, error := some (redactError message) }

/-- The record of a task whose retries ran out. -/
def exhaustedRecord (task : RegisterTask) : RegisterTask :=
  { task with
    status := .failed
    error := some ("EXHAUSTED: " ++ task.error.getD "transient chain failure") }

def recordTransientFailure (id message : String) : StoreFlow (Option RegisterTask) := do
  match ← getTask id with
  | none => pure none
  | some task =>
      if task.status.isTerminal then pure (some task)
      else do
        let task := retriedRecord task message
        if maxRetries ≤ task.retries then do
          let task := exhaustedRecord task
          query (.transitionFailed task)
          pure (some task)
        else do
          query (.setTask task)
          pure (some task)

/-- The record `mark_failed` writes. -/
def failedRecord (task : RegisterTask) (failureClass message : String) : RegisterTask :=
  { task with
    status := .failed
    retries := saturatingSucc task.retries
    error := some (failureClass ++ ": " ++ redactError message) }

def markFailed (id failureClass message : String) : StoreFlow (Option RegisterTask) := do
  match ← getTask id with
  | none => pure none
  | some task => do
      let task := failedRecord task failureClass message
      query (.transitionFailed task)
      pure (some task)

/-! ## Gates -/

def incrementMinute (key : String) : StoreFlow Nat := do
  let count ← query (.incr key)
  if count = 1 then query (.pexpire key) else pure ()
  pure count

def allowIpCreate (ipHash : String) : StoreFlow Bool := do
  let count ← incrementMinute ("p256-index:rate:create:" ++ ipHash)
  pure (decide (count ≤ 5))

def allowGlobalCreate (globalLimit : Nat) : StoreFlow Bool := do
  let count ← incrementMinute "p256-index:rate:create:global"
  pure (decide (count ≤ globalLimit))

def queueDepth : StoreFlow UInt64 := query .depth

end P256Index.Server
