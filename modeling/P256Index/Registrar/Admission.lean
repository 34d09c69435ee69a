import P256Index.Interaction.Program
import P256Index.Registrar.Validate

/-!
# The admission program

One run takes a request to an outcome: validation, the idempotency lookups, the fail-open chain
checks, the write gates, and the two-phase admission (admission in the store, append to the queue,
mark admitted). There is no operation that deletes an admission.
-/

namespace P256Index.Registrar.Admission

/-! ## Shell protocol -/

inductive Operation where
  | allowIpCreate
  | findTaskByContent (contentHash : String)
  | findTaskByRetryDigest (digest : String)
  | recordRetryDigest (digest taskId : String)
  | checkContentRegistered (contentHash : String)
  | checkReferenced (groupPublicKey memberPublicKey : String)
  | checkGroupExists (groupPublicKey : String)
  | findTaskByKey (keyHash : String)
  | queueDepth
  | allowGlobalCreate
  | admitTask (task : RegisterTask)
  | loadTask (id : String)
  | enqueue (task : RegisterTask)
  | markAdmitted (id : String)
  deriving DecidableEq

inductive AdmitOutcome where
  | new
  | existing (id : String)
  deriving DecidableEq

inductive Result where
  | allowed (allowed : Bool)
  | taskFound (task : Option RegisterTask)
  | chainBool (value : Bool)
  | chainReadFailed
  | depth (depth : UInt64)
  | admitted (outcome : AdmitOutcome)
  | enqueued
  | queueUnavailable
  | persisted
  | storeUnavailable
  deriving DecidableEq

inductive Outcome where
  | invalid (message : String)
  | rateLimited
  | queued (id : String) (status : TaskStatus)
  | alreadyRegistered (contentHash : String)
  | referGroupMissing
  | busy
  | dependencyUnavailable (dependency : String)
  deriving DecidableEq

/-- The `Submit` event: task identity, time and chain context come from the shell. -/
structure Submission where
  request : AdmissionRequest
  newTaskId : String
  nowMs : UInt64
  chainId : UInt64
  registry : String
  deriving DecidableEq

def maxActiveQueueDepth : UInt64 := 10000

/-! ## The program -/

abbrev AdmissionFlow := Flow Operation (fun _ => Result) Outcome

def redisDown : Outcome := .dependencyUnavailable "redis"

variable (K : P256Crate) (E : Contract.Evm)

/-- A part of the digest's preimage, behind its length as a 32-bit word. -/
def digestPart (part : String) : Bytes :=
  beBytes 4 ((utf8 part).length % 2 ^ 32) ++ utf8 part

/-- A register's identity without its group key: rpId, metadata and the sorted member keys, which
are ASCII after validation. -/
def registerRetryDigest (task : RegisterTask) : String :=
  let memberKeys := (task.members.map fun member => toAsciiLowercase member.publicKey).mergeSort
    fun a b => decide (a ≤ b)
  Hex.encode (E.keccak256 ((task.rpId :: task.metadata :: memberKeys).flatMap digestPart)).val

/-- Phase two of admission. On queue failure the store's admission is kept. -/
def enqueue (task : RegisterTask) : AdmissionFlow Outcome := do
  match ← Flow.request (.enqueue task) with
  | .enqueued => do
      match ← Flow.request (.markAdmitted task.id) with
      | .taskFound (some task) => pure (.queued task.id task.status)
      | _ => throw redisDown
  | .queueUnavailable => throw (.dependencyUnavailable "queue")
  | _ => throw redisDown

/-- The answer for a task that is already stored: it is on its way, or phase two is repaired. -/
def resume (existing : RegisterTask) : AdmissionFlow Outcome :=
  if existing.admitted || existing.status.isTerminal then
    pure (.queued existing.id existing.status)
  else enqueue existing

/-- The refer group-existence gate; the chain read is fail-open. -/
def referGroupGate (task : RegisterTask) : AdmissionFlow Unit := do
  match ← Flow.request (.checkGroupExists task.groupPublicKey) with
  | .chainBool true | .chainReadFailed => pure ()
  | .chainBool false => do
      match ← Flow.request (.findTaskByKey task.groupPublicKey) with
      | .taskFound (some pending) =>
          -- a register that creates this exact group is still working through the pipeline
          if pending.kind = .register ∧ pending.groupPublicKey = task.groupPublicKey ∧
              pending.status.isTerminal = false then pure ()
          else throw .referGroupMissing
      | .taskFound none => throw .referGroupMissing
      | _ => throw redisDown
  | _ => throw redisDown

def allowIp : AdmissionFlow Unit := do
  match ← Flow.request .allowIpCreate with
  | .allowed true => pure ()
  | .allowed false => throw .rateLimited
  | _ => throw redisDown

/-- The kind-specific chain pre-check. -/
def precheck (task : RegisterTask) (contentHash : String) : Operation :=
  match task.kind with
  | .register => .checkContentRegistered contentHash
  | .refer =>
      -- `task.members[0]`: a validated refer has one member
      .checkReferenced task.groupPublicKey ((task.members.head?.map Member.publicKey).getD "")

def writeGates : AdmissionFlow Unit := do
  match ← Flow.request .queueDepth with
  | .depth depth => if maxActiveQueueDepth ≤ depth then throw .busy else pure ()
  | _ => throw redisDown
  match ← Flow.request .allowGlobalCreate with
  | .allowed true => pure ()
  | .allowed false => throw .busy
  | _ => throw redisDown

/-- Two-phase admission of a validated task. -/
def twoPhase (task : RegisterTask) (retryDigest : Option String) : AdmissionFlow Outcome := do
  match ← Flow.request (.admitTask task) with
  | .admitted (.existing id) => do
      match ← Flow.request (.loadTask id) with
      | .taskFound (some existing) =>
          if existing.admitted then pure (.queued existing.id existing.status) else enqueue existing
      | _ => throw redisDown
  | .admitted .new =>
      match retryDigest with
      | some digest => do
          -- best effort: any answer is accepted
          let _ ← Flow.request (.recordRetryDigest digest task.id)
          enqueue task
      | none => enqueue task
  | _ => throw redisDown

/-- The part after both idempotency lookups found nothing. -/
def admitFresh (task : RegisterTask) (contentHash : String) (retryDigest : Option String) :
    AdmissionFlow Outcome := do
  match ← Flow.request (precheck task contentHash) with
  | .chainBool true => pure (.alreadyRegistered contentHash)
  | .chainBool false | .chainReadFailed => do
      if task.kind = .refer then referGroupGate task else pure ()
      writeGates
      twoPhase task retryDigest
  | _ => throw redisDown

/-- The second idempotency net, for a register resubmitted with a regenerated group key. -/
def coalesce (task : RegisterTask) (contentHash : String) : AdmissionFlow Outcome :=
  match task.kind with
  | .refer => admitFresh task contentHash none
  | .register => do
      let digest := registerRetryDigest E task
      match ← Flow.request (.findTaskByRetryDigest digest) with
      | .taskFound (some existing) =>
          if existing.status ≠ .failed then resume existing
          else admitFresh task contentHash (some digest)
      | .taskFound none => admitFresh task contentHash (some digest)
      | _ => throw redisDown

/-- The program after validation. -/
def driveTask (task : RegisterTask) (contentHash : String) : AdmissionFlow Outcome := do
  allowIp
  match ← Flow.request (.findTaskByContent contentHash) with
  | .taskFound (some existing) => resume existing
  | .taskFound none => coalesce E task contentHash
  | _ => throw redisDown

def validate (submitted : Submission) : Except String (RegisterTask × String) :=
  match submitted.request with
  | .register request =>
      validateRegister K E request submitted.newTaskId submitted.nowMs submitted.chainId
        submitted.registry
  | .refer request =>
      validateRefer K E request submitted.newTaskId submitted.nowMs submitted.chainId
        submitted.registry

def driveAdmission (submitted : Submission) : AdmissionFlow Outcome :=
  match validate K E submitted with
  | .error message => pure (.invalid message)
  | .ok (task, contentHash) => driveTask E task contentHash

/-- `Ok(outcome) | Err(outcome) => outcome`. -/
def settle : Except Outcome Outcome → Outcome
  | .ok outcome => outcome
  | .error outcome => outcome

/-- The program one `Submit` event runs. -/
def admission (submitted : Submission) : Prog Operation (fun _ => Result) Outcome :=
  settle <$> (driveAdmission K E submitted).run

/-- After validation the program is about the task alone. -/
theorem admission_of_validate {K : P256Crate} {E : Contract.Evm} {submitted : Submission}
    {task : RegisterTask} {contentHash : String}
    (h : validate K E submitted = .ok (task, contentHash)) :
    admission K E submitted = settle <$> (driveTask E task contentHash).run := by
  rw [admission, driveAdmission, h]

/-- A validated task is fresh. -/
structure Fresh (submitted : Submission) (task : RegisterTask) : Prop where
  id_eq : task.id = submitted.newTaskId
  pending : task.status = .pending
  not_admitted : task.admitted = false

theorem validate_fresh {K : P256Crate} {E : Contract.Evm} {submitted : Submission}
    {task : RegisterTask} {contentHash : String}
    (h : validate K E submitted = .ok (task, contentHash)) :
    Fresh submitted task ∧ contentHash = task.contentHash := by
  unfold validate at h
  split at h
  · obtain ⟨_, _, _, -, rfl, haccepted⟩ := validateRegister_eq_ok h
    rw [haccepted.task_eq]
    exact ⟨⟨rfl, rfl, rfl⟩, rfl⟩
  · obtain ⟨_, _, _, -, rfl, haccepted⟩ := validateRefer_iff.mp h
    rw [haccepted.task_eq]
    exact ⟨⟨rfl, rfl, rfl⟩, rfl⟩

end P256Index.Registrar.Admission
