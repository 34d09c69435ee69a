import P256Index.Cloudflare.Transitions
import P256Index.Registrar.Batch
import P256Index.Registrar.Gates
import P256Index.Server.Shell

/-!
# The Durable Object and its alarm

The object around the tables. An `/admit` request runs the admission program and then looks after
the alarm; the alarm's handler runs the submission program on a batch of the queue and sets the next
alarm or none. Statements between two awaits are synchronous, so each operation of a program is one
step; requests and the handler interleave between their operations, which is finer than the awaits
they really interleave at.

The alarm is a flag that the handler's start clears. Setting it is awaited, and takes effect at some
moment of the wait. Storage and configuration do not fail, nothing crashes, and there is a signer.
Chain reads and transactions answer anything.
-/

namespace P256Index.Cloudflare

open Registrar
open Server (chainAnswer contentAnswer storeClass)

/-- What a deployment is configured with. -/
structure Deployment where
  crate : P256Crate
  evm : Contract.Evm
  registry : String
  globalWriteLimit : Nat

/-- `CHAIN_ID`. -/
def chainId : UInt64 := 100

/-- `POLL_BATCH_SIZE`. -/
def pollBatchSize : Nat := 50

/-! ## The programs against the tables -/

section Admission

open Admission

/-- `execute_admission`, where a chain read answers `read`. -/
def executeAdmission (D : Deployment) (ipHash : String) (now : Nat) (read : Option Bool) :
    Operation → Tables → Result × Tables
  | .allowIpCreate, t =>
      let (count, t) := t.bumpMinuteCounter now ("create:" ++ ipHash)
      (.allowed (decide (count ≤ 5)), t)
  | .findTaskByContent contentHash, t => (.taskFound (t.findByContent now contentHash), t)
  | .findTaskByRetryDigest digest, t => (.taskFound (t.findByRetryDigest now digest), t)
  | .recordRetryDigest digest taskId, t => (.persisted, t.recordRetryDigest now digest taskId)
  | .checkContentRegistered contentHash, t =>
      match parseB256 contentHash with
      | none => (.chainReadFailed, t)
      | some _ => (chainAnswer read, t)
  | .checkReferenced group member, t =>
      match parseHexBytes group, parseHexBytes member with
      | some _, some _ => (chainAnswer read, t)
      | _, _ => (.chainReadFailed, t)
  | .checkGroupExists group, t =>
      match parseHexBytes group with
      | none => (.chainReadFailed, t)
      | some _ => (chainAnswer read, t)
  | .findTaskByKey keyHash, t => (.taskFound (t.findByPublicKey now keyHash), t)
  | .queueDepth, t => (.depth (UInt64.ofNat (t.queueStats now).depth), t)
  | .allowGlobalCreate, t =>
      let (count, t) := t.bumpMinuteCounter now "create:global"
      (.allowed (decide (count ≤ D.globalWriteLimit)), t)
  | .admitTask task, t =>
      let (outcome, t) := t.admitTask now task
      (.admitted outcome, t)
  | .loadTask id, t => (.taskFound (t.getTask now id), t)
  | .enqueue task, t => (.enqueued, t.enqueue task)
  | .markAdmitted id, t =>
      let (found, t) := t.markAdmitted now id
      (.taskFound found, t)

end Admission

section Submission

open Submission

/-- `execute_submission`, where a chain read answers `read` and a transaction ends in `outcome`. -/
def executeSubmission (now : Nat) (read : Option Bool) (outcome : TxOutcome) :
    Operation → Tables → Result × Tables
  | .loadTasks ids, t => (.tasksLoaded (ids.map (t.getTask now)), t)
  | .checkContentRegistered contentHash, t =>
      match parseB256 contentHash with
      | none => (.chainReadFailed, t)
      | some _ => (contentAnswer read, t)
  | .checkReferenced group member, t =>
      match parseHexBytes group, parseHexBytes member with
      | some _, some _ => (contentAnswer read, t)
      | _, _ => (.chainReadFailed, t)
  | .submitRegister _, t => (.tx outcome, t)
  | .markDone id txHash onChainId, t => (.persisted, (t.markDone now id txHash onChainId).2)
  | .markFailed id kind message, t =>
      (.persisted, (t.markFailed now id (storeClass kind) message).2)
  | .recordTransientFailure id message, t =>
      (.persisted, (t.recordTransientFailure now id message).2)

end Submission

/-! ## Requests and the handler -/

/-- How far a request has come. -/
inductive Stage where
  | admitting (rest : Prog Admission.Operation (fun _ => Admission.Result) Admission.Outcome)
  /-- `get_alarm` is awaited. -/
  | checking
  /-- `set_alarm` is awaited. -/
  | arming

/-- A request to `/admit` until its alarm check is done. -/
structure Visit where
  ipHash : String
  submitted : Admission.Submission
  stage : Stage
  /-- The operations so far, with their answers. -/
  past : Admission.Trace
  /-- The envelopes it has put on the queue. -/
  enqueued : List EnvelopeRow

/-- What the alarm's handler is doing. -/
inductive Handler where
  | idle
  /-- The fee plan is awaited. -/
  | gate
  | working (batch : List EnvelopeRow) (past : Submission.Trace)
      (rest : Prog Submission.Operation (fun _ => Submission.Result) Submission.Settled)
  /-- `set_alarm` is awaited. -/
  | arming

/-- The object, with the task ids it has given out and those that have had a record. -/
structure Submitter where
  tables : Tables
  now : Nat
  armed : Bool
  handler : Handler
  visits : List Visit
  given : List String
  stored : List String

def Submitter.initial : Submitter where
  tables := .empty
  now := 0
  armed := false
  handler := .idle
  visits := []
  given := []
  stored := []

/-- `run_admission`, with a new task id. -/
def Visit.start (D : Deployment) (now : Nat) (request : AdmissionRequest)
    (ipHash newTaskId : String) : Visit :=
  let submitted : Admission.Submission :=
    ⟨request, newTaskId, UInt64.ofNat now, chainId, D.registry⟩
  { ipHash := ipHash
    submitted := submitted
    stage := .admitting (Admission.admission D.crate D.evm submitted)
    past := []
    enqueued := [] }

/-- The envelope an operation puts on the queue. -/
def newEnvelopes (t : Tables) : Admission.Operation → List EnvelopeRow
  | .enqueue task => [⟨t.lastSeq + 1, task.id⟩]
  | _ => []

/-- The id an operation gives a record to. -/
def newStored : Admission.Operation → Admission.Result → List String
  | .admitTask task, .admitted .new => [task.id]
  | _, _ => []

/-- A request after an operation. -/
def Visit.went (v : Visit) (t : Tables) (op : Admission.Operation) (ans : Admission.Result)
    (rest : Prog Admission.Operation (fun _ => Admission.Result) Admission.Outcome) : Visit :=
  { v with
    stage := .admitting rest
    past := v.past ++ [⟨op, ans⟩]
    enqueued := newEnvelopes t op ++ v.enqueued }

/-- `fetch` behind `run_admission`: a queued task that is not terminal needs the alarm. -/
def Visit.settled (v : Visit) : Admission.Outcome → List Visit
  | .queued _ status => if status.isTerminal then [] else [{ v with stage := .checking }]
  | _ => []

/-- `ensure_alarm`, by what `get_alarm` answers. -/
def Visit.ensureAlarm (v : Visit) (armed : Bool) : List Visit :=
  if armed then [] else [{ v with stage := .arming }]

/-- `alarm` behind `poll_batch`. -/
def Handler.start (D : Deployment) (batch : List EnvelopeRow) : Handler :=
  if batch.isEmpty then .idle
  else .working batch [] (Submission.submission D.evm (batch.map EnvelopeRow.taskId))

/-- `alarm` behind a batch that advanced, by the length of the queue then. -/
def Handler.close (queueLen : Nat) : Handler := if 0 < queueLen then .arming else .idle

/-! ## Steps -/

/-- One step of the object. Every request starts with a purge, whatever its route. -/
inductive Step (D : Deployment) : Submitter → Submitter → Prop
  | tick {o : Submitter} {later : Nat} : o.now ≤ later → Step D o { o with now := later }
  | purge {o : Submitter} : Step D o { o with tables := o.tables.purgeExpired o.now }
  | arrive {o : Submitter} (request : AdmissionRequest) (ipHash newTaskId : String) :
      newTaskId ∉ o.given →
      Step D o { o with
        given := newTaskId :: o.given
        visits := .start D o.now request ipHash newTaskId :: o.visits }
  | perform {o : Submitter} {before after : List Visit} {v : Visit} {op : Admission.Operation}
      {k : Admission.Result →
        Prog Admission.Operation (fun _ => Admission.Result) Admission.Outcome}
      {ans : Admission.Result} {t : Tables} (read : Option Bool) :
      o.visits = before ++ v :: after → v.stage = .admitting (.ask op k) →
      executeAdmission D v.ipHash o.now read op o.tables = (ans, t) →
      Step D o { o with
        tables := t
        stored := newStored op ans ++ o.stored
        visits := before ++ v.went o.tables op ans (k ans) :: after }
  | settle {o : Submitter} {before after : List Visit} {v : Visit} {out : Admission.Outcome} :
      o.visits = before ++ v :: after → v.stage = .admitting (.done out) →
      Step D o { o with visits := before ++ v.settled out ++ after }
  | check {o : Submitter} {before after : List Visit} {v : Visit} :
      o.visits = before ++ v :: after → v.stage = .checking →
      Step D o { o with visits := before ++ v.ensureAlarm o.armed ++ after }
  | arm {o : Submitter} {before after : List Visit} {v : Visit} :
      o.visits = before ++ v :: after → v.stage = .arming →
      Step D o { o with armed := true, visits := before ++ after }
  | alarm {o : Submitter} : o.armed = true → o.handler = .idle →
      Step D o { o with armed := false, tables := o.tables.purgeExpired o.now, handler := .gate }
  | tooExpensive {o : Submitter} : o.handler = .gate → Step D o { o with handler := .arming }
  | poll {o : Submitter} : o.handler = .gate →
      Step D o { o with handler := .start D (o.tables.pollBatch pollBatchSize) }
  | work {o : Submitter} {batch : List EnvelopeRow} {past : Submission.Trace}
        {op : Submission.Operation}
      {k : Submission.Result →
        Prog Submission.Operation (fun _ => Submission.Result) Submission.Settled}
      {ans : Submission.Result} {t : Tables} (read : Option Bool) (outcome : Submission.TxOutcome) :
      o.handler = .working batch past (.ask op k) →
      executeSubmission o.now read outcome op o.tables = (ans, t) →
      Step D o { o with tables := t, handler := .working batch (past ++ [⟨op, ans⟩]) (k ans) }
  | advance {o : Submitter} {batch : List EnvelopeRow} {past : Submission.Trace} :
      o.handler = .working batch past (.done (.verdict .advance)) →
      Step D o { o with
        tables := o.tables.deleteBatch batch
        handler := .close (o.tables.deleteBatch batch).queueLen }
  | retry {o : Submitter} {batch : List EnvelopeRow} {past : Submission.Trace} {reason : String} :
      o.handler = .working batch past (.done (.verdict (.retry reason))) →
      Step D o { o with handler := .arming }
  | schedule {o : Submitter} : o.handler = .arming →
        Step D o { o with armed := true, handler := .idle }

/-- Every state of the object, from its creation. -/
def Reachable (D : Deployment) : Submitter → Prop := Relation.ReflTransGen (Step D) .initial

end P256Index.Cloudflare
