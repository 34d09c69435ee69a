import P256Index.Registrar.Submission
import P256Index.Server.Store

/-!
# The shell

What the server does for each operation of the two programs, command by command, against the store,
the queue and the chain: the request handlers, and one round of the queue worker. Every command may
fail; the shell maps failures to answers and decides nothing itself.
-/

namespace P256Index.Server

open Registrar

/-! ## The queue -/

/-- One partition: an append-only log, and how far the consumer group has committed. -/
structure Queue where
  log : List RegisterTask
  committed : Nat

def pollBatchSize : Nat := 50

inductive QueueCommand where
  | append (task : RegisterTask)
  | getStream
  | createStream
  | getTopic
  | createTopic
  | poll
  | storeOffset (offset : Nat)
  deriving DecidableEq

abbrev QueueCommand.Value : QueueCommand → Type
  | .append _ => Unit
  | .getStream => Bool
  | .createStream => Unit
  | .getTopic => Bool
  | .createTopic => Unit
  | .poll => List (Nat × RegisterTask)
  | .storeOffset _ => Unit

/-- The messages a poll returns: from the committed offset on, with their offsets. -/
def Queue.next (q : Queue) : List (Nat × RegisterTask) :=
  ((q.log.drop q.committed).take pollBatchSize).zipIdx q.committed |>.map fun x => (x.2, x.1)

/-- The stream and its topic exist; `balanced` partitioning has one partition to choose. -/
def QueueCommand.exec : (c : QueueCommand) → Queue → c.Value × Queue
  | .append task, q => ((), { q with log := q.log ++ [task] })
  | .getStream, q => (true, q)
  | .createStream, q => ((), q)
  | .getTopic, q => (true, q)
  | .createTopic, q => ((), q)
  | .poll, q => (q.next, q)
  | .storeOffset offset, q => ((), { q with committed := offset + 1 })

/-! ## The chain -/

inductive ChainCommand where
  | isContentRegistered (contentHash : Bytes32)
  | isReferenced (group member : Bytes)
  | unitByGroupKey (group : Bytes)
  | feePlan
  | submit (task : RegisterTask)
  deriving DecidableEq

/-- Reads may fail. A unit is read for its rpId, a fee plan for whether the price is above the cap,
and a submission for how it ended. -/
abbrev ChainCommand.Value : ChainCommand → Type
  | .isContentRegistered _ => Option Bool
  | .isReferenced _ _ => Option Bool
  | .unitByGroupKey _ => Option (Option String)
  | .feePlan => Option Bool
  | .submit _ => Submission.TxOutcome

/-! ## Commands -/

inductive Command where
  | store (c : StoreCommand)
  | queue (c : QueueCommand)
  | chain (c : ChainCommand)
  deriving DecidableEq

abbrev Reply : Command → Type
  | .store c => StoreReply c
  | .queue c => Option c.Value
  | .chain c => c.Value

abbrev Process (α : Type) := Prog Command Reply α

def command (c : Command) : Process (Reply c) := Prog.request c

/-- A store function, as a part of a process. -/
def onStore {α : Type} (x : StoreFlow α) : Process (Except Unit α) :=
  x.run.interp fun c => command (.store c)

def onQueue (c : QueueCommand) : Process (Option c.Value) := command (.queue c)

def onChain (c : ChainCommand) : Process c.Value := command (.chain c)

/-! ## Producing -/

/-- `create_stream_if_missing` and `create_topic_if_missing`: lost a race, or really failed? -/
def createIfMissing (create : Process (Option Unit)) (inspect : Process (Option Bool)) :
    Process (Except Unit Unit) := do
  match ← create with
  | some _ => pure (.ok ())
  | none => do
      match ← inspect with
      | some true => pure (.ok ())
      | _ => pure (.error ())

/-- One half of `ensure_topology`: was the part missing? -/
def ensurePart (create : Process (Option Unit)) (inspect : Process (Option Bool)) :
    Process (Except Unit Bool) := do
  match ← inspect with
  | none => pure (.error ())
  | some true => pure (.ok false)
  | some false => do
      match ← createIfMissing create inspect with
      | .ok _ => pure (.ok true)
      | .error _ => pure (.error ())

def ensureTopology : Process (Except Unit Bool) := do
  match ← ensurePart (onQueue .createStream) (onQueue .getStream) with
  | .error _ => pure (.error ())
  | .ok streamMissing => do
      match ← ensurePart (onQueue .createTopic) (onQueue .getTopic) with
      | .error _ => pure (.error ())
      | .ok topicMissing => pure (.ok (streamMissing || topicMissing))

/-- `enqueue_inner`: append; after an error, once more if the topology had to be created. -/
def enqueueTask (task : RegisterTask) : Process (Except Unit Unit) := do
  match ← onQueue (.append task) with
  | some _ => pure (.ok ())
  | none => do
      match ← ensureTopology with
      | .ok true => do
          match ← onQueue (.append task) with
          | some _ => pure (.ok ())
          | none => pure (.error ())
      | _ => pure (.error ())

/-! ## The request handlers -/

/-- Per-request and configured data of the handlers. -/
structure Client where
  ipHash : String
  globalWriteLimit : Nat

section Admission

open Admission

/-- A store lookup as an answer. -/
def foundTask (found : Except Unit (Option RegisterTask)) : Result :=
  match found with
  | .ok task => .taskFound task
  | .error _ => .storeUnavailable

/-- A chain read as an answer. -/
def chainAnswer (read : Option Bool) : Result :=
  match read with
  | some value => .chainBool value
  | none => .chainReadFailed

def allowedAnswer (read : Except Unit Bool) : Result :=
  match read with
  | .ok allowed => .allowed allowed
  | .error _ => .storeUnavailable

def executeAdmission (client : Client) : Operation → Process Result
  | .allowIpCreate => allowedAnswer <$> onStore (allowIpCreate client.ipHash)
  | .findTaskByContent contentHash => foundTask <$> onStore (findByContent contentHash)
  | .findTaskByRetryDigest digest => foundTask <$> onStore (findByRetryDigest digest)
  | .recordRetryDigest digest taskId => do
      match ← onStore (recordRetryDigest digest taskId) with
      | .ok _ => pure .persisted
      | .error _ => pure .storeUnavailable
  | .checkContentRegistered contentHash =>
      match parseB256 contentHash with
      | none => pure .chainReadFailed
      | some contentHash => chainAnswer <$> onChain (.isContentRegistered contentHash)
  | .checkReferenced group member =>
      match parseHexBytes group, parseHexBytes member with
      | some group, some member => chainAnswer <$> onChain (.isReferenced group member)
      | _, _ => pure .chainReadFailed
  | .checkGroupExists group =>
      match parseHexBytes group with
      | none => pure .chainReadFailed
      | some group => do
          let read ← onChain (.unitByGroupKey group)
          pure (chainAnswer (read.map Option.isSome))
  | .findTaskByKey keyHash => foundTask <$> onStore (findByPublicKey keyHash)
  | .queueDepth => do
      match ← onStore queueDepth with
      | .ok depth => pure (.depth depth)
      | .error _ => pure .storeUnavailable
  | .allowGlobalCreate => allowedAnswer <$> onStore (allowGlobalCreate client.globalWriteLimit)
  | .admitTask task => do
      match ← onStore (admitTask task) with
      | .ok (.new _) => pure (.admitted .new)
      | .ok (.existing id) => pure (.admitted (.existing id))
      | .error _ => pure .storeUnavailable
  | .loadTask id => foundTask <$> onStore (getTask id)
  | .enqueue task => do
      match ← enqueueTask task with
      | .ok _ => pure .enqueued
      | .error _ => pure .queueUnavailable
  | .markAdmitted id => foundTask <$> onStore (markAdmitted id)

/-- What a request is answered with. -/
inductive Response where
  | settled (outcome : Outcome)
  | rpIdMismatch
  deriving DecidableEq

variable (K : P256Crate) (E : Contract.Evm)

def driveAdmissionRequest (client : Client) (submitted : Submission) : Process Response := do
  let outcome ← (admission K E submitted).interp (executeAdmission client)
  pure (.settled outcome)

/-- The fail-open cross-check of a refer's rpId: does the chain hold the group under another one? -/
def rpIdDiffers (request : ReferRequest) : Process Bool :=
  match request.rpId, request.groupPublicKey.bind parseHexBytes with
  | some rpId, some group => do
      match ← onChain (.unitByGroupKey group) with
      | some (some unitRpId) => pure (decide (unitRpId ≠ rpId))
      | _ => pure false
  | _, _ => pure false

/-- `POST /api/register` and `POST /api/refer`, after the body was read. -/
def handle (client : Client) (submitted : Submission) : Process Response :=
  match submitted.request with
  | .register _ => driveAdmissionRequest K E client submitted
  | .refer request => do
      if ← rpIdDiffers request then pure .rpIdMismatch
      else driveAdmissionRequest K E client submitted

end Admission

/-! ## The queue worker -/

section Worker

open Submission

def loadEach : List String → StoreFlow (List (Option RegisterTask))
  | [] => pure []
  | id :: ids => do
      let task ← getTask id
      let tasks ← loadEach ids
      pure (task :: tasks)

def storeAck (ack : Except Unit (Option RegisterTask)) : Result :=
  match ack with
  | .ok _ => .persisted
  | .error _ => .storeUnavailable

def contentAnswer (read : Option Bool) : Result :=
  match read with
  | some registered => .contentChecked registered
  | none => .chainReadFailed

/-- `FailureKind::as_store_class`. -/
def storeClass : FailureKind → String
  | .poison => "POISON"

def execute : Operation → Process Result
  | .loadTasks ids => do
      match ← onStore (loadEach ids) with
      | .ok tasks => pure (.tasksLoaded tasks)
      | .error _ => pure .storeUnavailable
  | .checkContentRegistered contentHash =>
      match parseB256 contentHash with
      | none => pure .chainReadFailed
      | some contentHash => contentAnswer <$> onChain (.isContentRegistered contentHash)
  | .checkReferenced group member =>
      match parseHexBytes group, parseHexBytes member with
      | some group, some member => contentAnswer <$> onChain (.isReferenced group member)
      | _, _ => pure .chainReadFailed
  | .submitRegister task => Result.tx <$> onChain (.submit task)
  | .markDone id txHash onChainId => storeAck <$> onStore (markDone id txHash onChainId)
  | .markFailed id kind message => storeAck <$> onStore (markFailed id (storeClass kind) message)
  | .recordTransientFailure id message => storeAck <$> onStore (recordTransientFailure id message)

variable (E : Contract.Evm)

/-- One polled batch; true when the offset may advance. -/
def processBatch (ids : List String) : Process Bool :=
  if ids.isEmpty then pure true
  else do
    let outcome ← (submission E ids).interp execute
    pure (decide (outcome = .verdict .advance))

/-- One round of the worker's loop. A failed poll or offset write ends the session, and the
supervisor starts the next one. -/
def workerRound : Process Unit := do
  match ← onQueue .poll with
  | none => pure ()
  | some messages =>
      match messages.getLast? with
      | none => pure ()
      | some (highestOffset, _) => do
          -- the fee gate: too expensive a market leaves the batch where it is
          match ← onChain .feePlan with
          | some true => pure ()
          | _ => do
              if ← processBatch E (messages.map fun message => message.2.id) then do
                let _ ← onQueue (.storeOffset highestOffset)
                pure ()
              else pure ()

end Worker

end P256Index.Server
