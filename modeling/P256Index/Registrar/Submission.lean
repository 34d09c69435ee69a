import P256Index.Interaction.Program
import P256Index.Registrar.Protocol

/-!
# The submission program

The decision half of the queue worker: one run takes a polled batch of envelope ids to a verdict,
advance the consumer offset or retry the whole batch. The stages call each other as in the source;
`persist` is the one place that turns a store answer into a decision. The two `unreachable!` arms
are exits of their own (`Halt.unreachable`), so that never taking one is a statement about runs.
-/

namespace P256Index.Registrar.Submission

/-! ## Shell protocol -/

inductive FailureKind where
  | poison
  deriving DecidableEq

/-- How a chain write ended, as observed by the shell. -/
inductive TxOutcome where
  | confirmed (txHash : String) (onChainId : Option UInt64)
  | reverted (txHash : String)
  | receiptUncertain (error : ChainError)
  | sendFailed (error : ChainError)
  | noncePoolUnavailable
  deriving DecidableEq

inductive Operation where
  | loadTasks (ids : List String)
  | checkContentRegistered (contentHash : String)
  | checkReferenced (groupPublicKey memberPublicKey : String)
  | submitRegister (task : RegisterTask)
  | markDone (taskId : String) (txHash : Option String) (onChainId : Option UInt64)
  | markFailed (taskId : String) (kind : FailureKind) (message : String)
  | recordTransientFailure (taskId message : String)
  deriving DecidableEq

inductive Result where
  | tasksLoaded (tasks : List (Option RegisterTask))
  | contentChecked (registered : Bool)
  | tx (outcome : TxOutcome)
  | persisted
  | storeUnavailable
  | chainReadFailed
  deriving DecidableEq

inductive BatchVerdict where
  | advance
  | retry (reason : String)
  deriving DecidableEq

/-- An early exit: a verdict, or an `unreachable!` with its text. -/
inductive Halt where
  | settled (verdict : BatchVerdict)
  | unreachable (message : String)
  deriving DecidableEq

/-! ## The batch program -/

abbrev SubmissionFlow := Flow Operation (fun _ => Result) Halt

def retry (reason : String) : Halt := .settled (.retry reason)

/-- A persistence operation; a store failure settles the batch with the call site's reason. -/
def persist (operation : Operation) (failReason : String) : SubmissionFlow Unit := do
  match ← Flow.request operation with
  | .persisted => pure ()
  | .storeUnavailable => throw (retry failReason)
  | _ => throw (retry "unexpected shell result for a persistence operation")

inductive ContentState where
  | registered
  | absent
  | unencodable
  deriving DecidableEq

variable (E : Contract.Evm)

/-- The reconciliation check of the task's kind, `none` where the task cannot be encoded. -/
def checkOperation (task : RegisterTask) : Option Operation :=
  match task.kind with
  | .register =>
      (contentHashFor E task).map fun contentHash =>
        .checkContentRegistered (hexText contentHash.val)
  | .refer =>
      task.members.head?.map fun member =>
        .checkReferenced task.groupPublicKey member.publicKey

variable {E} in
/-- A check is one of the two reads. -/
theorem checkOperation_cases {task : RegisterTask} {op : Operation}
    (h : checkOperation E task = some op) :
    (∃ contentHash, op = .checkContentRegistered contentHash) ∨
      ∃ group member, op = .checkReferenced group member := by
  unfold checkOperation at h
  split at h
  · obtain ⟨contentHash, -, rfl⟩ := Option.map_eq_some_iff.mp h
    exact .inl ⟨_, rfl⟩
  · obtain ⟨member, -, rfl⟩ := Option.map_eq_some_iff.mp h
    exact .inr ⟨_, _, rfl⟩

/-- "Is my write already on-chain?" A read failure records a transient retry on the task, then fails
the whole batch. -/
def checkContent (task : RegisterTask) : SubmissionFlow ContentState :=
  match checkOperation E task with
  | none => pure .unencodable
  | some operation => do
      match ← Flow.request operation with
      | .contentChecked true => pure .registered
      | .contentChecked false => pure .absent
      | .chainReadFailed => do
          persist
            (.recordTransientFailure task.id "chain reconciliation RPC temporarily unavailable")
            "could not persist task retry"
          throw (retry "chain reconciliation failed")
      | _ => throw (retry "unexpected shell result for a reconciliation check")

def markDone (task : RegisterTask) (txHash : Option String) (onChainId : Option UInt64) :
    SubmissionFlow Unit :=
  persist (.markDone task.id txHash onChainId) "could not persist done task"

def submit (task : RegisterTask) : SubmissionFlow TxOutcome := do
  match ← Flow.request (.submitRegister task) with
  | .tx .noncePoolUnavailable => throw (retry "could not acquire pending chain nonce")
  | .tx outcome => pure outcome
  | _ => throw (retry "unexpected shell result for a chain write")

/-- Classify a failed chain write for one task. -/
def classifyTask (task : RegisterTask) (error : ChainError) : SubmissionFlow Unit :=
  let message := "register: " ++ error.display
  match classifyChainError error with
  | .alreadyExists => do
      -- ours after all (a lost receipt, a producer duplicate), or someone else's
      match ← checkContent E task with
      | .registered => markDone task task.txHash none
      | .absent | .unencodable =>
          persist (.markFailed task.id .poison message) "could not persist poison task"
  | .transient =>
      persist (.recordTransientFailure task.id message) "could not persist task retry"
  | .poison => persist (.markFailed task.id .poison message) "could not persist poison task"

/-- The retry gate after a failed send agrees with the classification. -/
def sendFailed (task : RegisterTask) (error : ChainError) : SubmissionFlow Unit := do
  classifyTask E task error
  if classifyChainError error = .transient then throw (retry "register temporarily failed")
  else pure ()

/-- An uncertain receipt is classified, and always ends the batch. -/
def receiptUncertain (task : RegisterTask) (error : ChainError) : SubmissionFlow Unit := do
  classifyTask E task error
  throw (retry "register receipt wait failed")

/-- A revert receipt carries no reason: reconcile, then resend once. -/
def registerReverted (task : RegisterTask) : SubmissionFlow Unit := do
  match ← checkContent E task with
  | .registered => markDone task task.txHash none
  | .unencodable => throw (.unreachable "encodability was checked before submitting")
  | .absent => do
      match ← submit task with
      | .confirmed txHash onChainId => markDone task (some txHash) onChainId
      | .reverted _ =>
          persist (.markFailed task.id .poison "register transaction reverted")
            "could not persist failed task"
      | .receiptUncertain error => receiptUncertain E task error
      | .sendFailed error => sendFailed E task error
      | .noncePoolUnavailable => throw (.unreachable "filtered by submit")

/-- One register transaction for one task, with the revert-recovery resend. -/
def submitStage (task : RegisterTask) : SubmissionFlow Unit := do
  match ← submit task with
  | .confirmed txHash onChainId => markDone task (some txHash) onChainId
  | .reverted _ => registerReverted E task
  | .receiptUncertain error => receiptUncertain E task error
  | .sendFailed error => sendFailed E task error
  | .noncePoolUnavailable => throw (.unreachable "filtered by submit")

/-- The body of the loop over the canonical tasks. -/
def driveTask (task : RegisterTask) : SubmissionFlow Unit := do
  match ← checkContent E task with
  | .registered => markDone task task.txHash none
  | .absent => submitStage E task
  | .unencodable =>
      persist (.markFailed task.id .poison "stored register task cannot be encoded")
        "could not persist poison task"

def driveTasks : List RegisterTask → SubmissionFlow Unit
  | [] => pure ()
  | task :: rest => do
      driveTask E task
      driveTasks rest

/-- The first non-terminal record of each id, in loaded order; `seen` holds the ids taken before. -/
def canonicalFrom (seen : List String) : List (Option RegisterTask) → List RegisterTask
  | [] => []
  | none :: rest => canonicalFrom seen rest
  | some task :: rest =>
      if !task.status.isTerminal && !seen.contains task.id then
        task :: canonicalFrom (task.id :: seen) rest
      else canonicalFrom seen rest

def canonical (loaded : List (Option RegisterTask)) : List RegisterTask := canonicalFrom [] loaded

def driveBatch (envelopeIds : List String) : SubmissionFlow BatchVerdict :=
  if envelopeIds.isEmpty then pure .advance
  else do
    match ← Flow.request (.loadTasks envelopeIds) with
    | .tasksLoaded tasks => do
        driveTasks E (canonical tasks)
        pure .advance
    | .storeUnavailable => throw (retry "could not load Redis register task")
    | _ => throw (retry "unexpected shell result for LoadTasks")

/-- How the program ends: a verdict, or a panic with its text. -/
inductive Settled where
  | verdict (v : BatchVerdict)
  | panicked (message : String)
  deriving DecidableEq

/-- `Ok(verdict) | Err(verdict) => verdict`. -/
def settle : Except Halt BatchVerdict → Settled
  | .ok v => .verdict v
  | .error (.settled v) => .verdict v
  | .error (.unreachable message) => .panicked message

/-- The program one `Start` event runs. -/
def submission (envelopeIds : List String) : Prog Operation (fun _ => Result) Settled :=
  settle <$> (driveBatch E envelopeIds).run

end P256Index.Registrar.Submission
