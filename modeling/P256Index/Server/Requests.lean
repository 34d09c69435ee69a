import P256Index.Interaction.Rely
import P256Index.Registrar.Gates
import P256Index.Server.Progress

/-!
# What requests write

The request handlers, whatever they are answered: of the commands that write a record they issue two
kinds only, the admission of a pending task and the swap that sets the flag of a pending record. One
lemma per function of the program and of the shell, by the rules of `Issues`.
-/

namespace P256Index.Server

open Registrar

/-- The commands of a request: no record is rewritten but for the flag of a pending one. -/
def requestCommand : Command → Prop
  | .store (.admitTask task) => task.status.isTerminal = false
  | .store (.swapTask _ previous updated) =>
      previous.status.isTerminal = false ∧ updated = { previous with admitted := true }
  | .store (.setTask _) => False
  | .store (.transitionDone _) => False
  | .store (.transitionFailed _) => False
  | _ => True

open Admission

/-! ## Store functions -/

section Commands

variable {A : Command → Prop} {B : StoreCommand → Prop}

theorem onStore_issues {α : Type} {x : StoreFlow α} (h : Flow.Issues (fun c => A (.store c)) x) :
    (onStore x).Issues A := by
  refine Prog.issues_interp ?_ h
  intro c hc
  exact Prog.issues_request hc

theorem query_issues {c : StoreCommand} (h : B c) : Flow.Issues B (query c) := by
  refine Flow.issues_request_bind h fun reply => ?_
  cases reply with
  | none => exact Flow.issues_throw
  | some value => exact Flow.issues_pure

theorem findById_issues (h : ∀ id, B (.getTask id)) (id : Option String) :
    Flow.Issues B (findById id) := by
  cases id with
  | none => exact Flow.issues_pure
  | some id => exact query_issues (h id)

theorem incrementMinute_issues {key : String} (hincr : B (.incr key)) (hexpire : B (.pexpire key)) :
    Flow.Issues B (incrementMinute key) := by
  refine Flow.Issues.bind (query_issues hincr) fun count => ?_
  split
  · exact Flow.Issues.bind (query_issues hexpire) fun _ => Flow.issues_pure
  · exact Flow.issues_pure

theorem getTask_issues (id : String) (h : ∀ id, B (.getTask id)) :
    Flow.Issues B (getTask id) :=
  query_issues (h id)

theorem markAdmitted_issues (id : String) (hget : ∀ id, B (.getTask id))
    (hswap : ∀ before, before.status.isTerminal = false →
      B (.swapTask id before { before with admitted := true })) :
    Flow.Issues B (markAdmitted id) := by
  refine Flow.Issues.bind (getTask_issues id hget) fun found => ?_
  cases found with
  | none => exact Flow.issues_pure
  | some before =>
      by_cases hterminal : before.status.isTerminal = true
      · simp only [hterminal, if_true]
        exact Flow.issues_pure
      · simp only [hterminal]
        refine Flow.Issues.bind (query_issues (hswap before (by simpa using hterminal)))
          fun swapped => ?_
        split
        · exact Flow.issues_pure
        · exact getTask_issues id hget

/-! ## The shell -/

theorem onChain_issues (hchain : ∀ c, A (.chain c)) (c : ChainCommand) : (onChain c).Issues A :=
  Prog.issues_request (hchain c)

theorem ensurePart_issues {create : Process (Option Unit)} {inspect : Process (Option Bool)}
    (hcreate : create.Issues A) (hinspect : inspect.Issues A) :
    (ensurePart create inspect).Issues A := by
  refine hinspect.bind fun there => ?_
  split
  · trivial
  · trivial
  · refine Prog.Issues.bind ?_ fun created => ?_
    · refine hcreate.bind fun created => ?_
      split
      · trivial
      · refine hinspect.bind fun there => ?_
        split
        · trivial
        · trivial
    · split
      · trivial
      · trivial

theorem enqueueTask_issues (hqueue : ∀ c, (∀ offset, c ≠ .storeOffset offset) → A (.queue c))
    (task : RegisterTask) : (enqueueTask task).Issues A := by
  have honQueue : ∀ c, (∀ offset, c ≠ .storeOffset offset) → (onQueue c).Issues A :=
    fun c hc => Prog.issues_request (hqueue c hc)
  have htopology : ensureTopology.Issues A := by
    refine (ensurePart_issues (honQueue _ (by simp)) (honQueue _ (by simp))).bind fun stream => ?_
    split
    · trivial
    · refine (ensurePart_issues (honQueue _ (by simp)) (honQueue _ (by simp))).bind fun topic => ?_
      split
      · trivial
      · trivial
  refine (honQueue _ (by simp)).bind fun first => ?_
  split
  · trivial
  · refine htopology.bind fun created => ?_
    split
    · refine (honQueue _ (by simp)).bind fun second => ?_
      split
      · trivial
      · trivial
    · trivial

end Commands

/-- The commands of one operation: a record is admitted for that operation alone. -/
def operationCommand (op : Operation) : Command → Prop
  | .store (.admitTask task) => op = .admitTask task
  | c => requestCommand c

theorem operationCommand.cases {op : Operation} {c : Command} (h : operationCommand op c) :
    (∃ task, c = .store (.admitTask task) ∧ op = .admitTask task) ∨
      requestCommand c ∧ ∀ task, c ≠ .store (.admitTask task) := by
  match c with
  | .store (.admitTask task) => exact .inl ⟨task, rfl, h⟩
  | .store (.getTask _) | .store (.getContent _) | .store (.getKey _) | .store (.getRetry _)
  | .store (.setRetry _ _) | .store (.swapTask _ _ _) | .store (.setTask _)
  | .store (.transitionDone _) | .store (.transitionFailed _) | .store (.incr _)
  | .store (.pexpire _) | .store .depth | .queue _ | .chain _ => exact .inr ⟨h, by simp⟩

/-- The commands of an operation, none of which moves the offset of the queue. -/
theorem executeAdmission_issues_of {A : Command → Prop} (client : Client) (op : Operation)
    (hA : ∀ c, operationCommand op c → (∀ offset, c ≠ .queue (.storeOffset offset)) → A c) :
    (executeAdmission client op).Issues A := by
  have hstore : ∀ c : StoreCommand, operationCommand op (.store c) → A (.store c) :=
    fun c hc => hA _ hc (by simp)
  have hchain : ∀ c : ChainCommand, A (.chain c) := fun c => hA _ trivial (by simp)
  cases op with
  | allowIpCreate =>
      exact (onStore_issues (Flow.Issues.bind
        (incrementMinute_issues (hstore _ (by trivial)) (hstore _ (by trivial))) fun _ =>
          Flow.issues_pure)).map
  | allowGlobalCreate =>
      exact (onStore_issues (Flow.Issues.bind
        (incrementMinute_issues (hstore _ (by trivial)) (hstore _ (by trivial))) fun _ =>
          Flow.issues_pure)).map
  | findTaskByContent contentHash =>
      exact (onStore_issues (Flow.Issues.bind (query_issues (hstore _ (by trivial)))
        (findById_issues fun _ => hstore _ (by trivial)))).map
  | findTaskByRetryDigest digest =>
      exact (onStore_issues (Flow.Issues.bind (query_issues (hstore _ (by trivial)))
        (findById_issues fun _ => hstore _ (by trivial)))).map
  | findTaskByKey keyHash =>
      exact (onStore_issues (Flow.Issues.bind (query_issues (hstore _ (by trivial)))
        (findById_issues fun _ => hstore _ (by trivial)))).map
  | recordRetryDigest digest taskId =>
      refine (onStore_issues (query_issues (hstore (.setRetry digest taskId) trivial))).bind
        fun r => ?_
      split
      · trivial
      · trivial
  | checkContentRegistered contentHash =>
      simp only [executeAdmission]
      split
      · trivial
      · exact (onChain_issues hchain _).map
  | checkReferenced group member =>
      simp only [executeAdmission]
      split
      · exact (onChain_issues hchain _).map
      · trivial
  | checkGroupExists group =>
      simp only [executeAdmission]
      split
      · trivial
      · exact (onChain_issues hchain _).bind fun _ => trivial
  | queueDepth =>
      refine (onStore_issues (query_issues (hstore .depth trivial))).bind fun r => ?_
      split
      · trivial
      · trivial
  | admitTask task =>
      have hnew : operationCommand (.admitTask task) (.store (.admitTask task)) := rfl
      refine (onStore_issues (query_issues (hstore _ hnew))).bind fun r => ?_
      split
      · trivial
      · trivial
      · trivial
  | loadTask id => exact (onStore_issues (getTask_issues id fun _ => hstore _ (by trivial))).map
  | enqueue task =>
      have hissues := enqueueTask_issues (fun c hc => hA _ trivial (by simpa using hc)) task
      refine hissues.bind fun r => ?_
      split
      · trivial
      · trivial
  | markAdmitted id =>
      refine (onStore_issues
        (markAdmitted_issues id (fun _ => hstore _ (by trivial)) fun before hpending =>
          hstore _ ?_)).map
      exact ⟨hpending, rfl⟩

theorem executeAdmission_commands (client : Client) (op : Operation) :
    (executeAdmission client op).Issues (operationCommand op) :=
  executeAdmission_issues_of client op fun _ hc _ => hc

/-- A request admits pending tasks only. -/
def requestOperation : Operation → Prop
  | .admitTask task => task.status.isTerminal = false
  | _ => True

theorem executeAdmission_issues (client : Client) {op : Operation} (hop : requestOperation op) :
    (executeAdmission client op).Issues requestCommand := by
  refine (executeAdmission_commands client op).mono fun c hc => ?_
  rcases hc.cases with ⟨task, rfl, rfl⟩ | ⟨hrequest, -⟩
  · exact hop
  · exact hrequest

/-! ## The admission program -/

/-- A part of the admission program. -/
def RequestPart {α : Type} (x : AdmissionFlow α) : Prop := Flow.Issues requestOperation x

theorem enqueue_issues (task : RegisterTask) : RequestPart (enqueue task) := by
  refine Flow.issues_request_bind trivial fun ans => ?_
  split
  · refine Flow.issues_request_bind trivial fun ans => ?_
    split
    · exact Flow.issues_pure
    · exact Flow.issues_throw
  · exact Flow.issues_throw
  · exact Flow.issues_throw

theorem resume_issues (existing : RegisterTask) : RequestPart (resume existing) := by
  unfold resume
  split
  · exact Flow.issues_pure
  · exact enqueue_issues existing

theorem allowIp_issues : RequestPart allowIp := by
  refine Flow.issues_request_bind trivial fun ans => ?_
  split
  · exact Flow.issues_pure
  · exact Flow.issues_throw
  · exact Flow.issues_throw

theorem referGroupGate_issues (task : RegisterTask) : RequestPart (referGroupGate task) := by
  refine Flow.issues_request_bind trivial fun ans => ?_
  split
  · exact Flow.issues_pure
  · exact Flow.issues_pure
  · refine Flow.issues_request_bind trivial fun ans => ?_
    split
    · split
      · exact Flow.issues_pure
      · exact Flow.issues_throw
    · exact Flow.issues_throw
    · exact Flow.issues_throw
  · exact Flow.issues_throw

theorem writeGates_issues : RequestPart writeGates := by
  refine Flow.issues_request_bind trivial fun ans => ?_
  split
  · split
    · exact Flow.issues_throw
    · -- the global quota
      refine Flow.issues_request_bind trivial fun ans => ?_
      split
      · exact Flow.issues_pure
      · exact Flow.issues_throw
      · exact Flow.issues_throw
  · exact Flow.issues_throw

theorem twoPhase_issues {task : RegisterTask} (hpending : task.status.isTerminal = false)
    (retryDigest : Option String) : RequestPart (twoPhase task retryDigest) := by
  have hnew : requestOperation (.admitTask task) := hpending
  refine Flow.issues_request_bind hnew fun ans => ?_
  split
  · refine Flow.issues_request_bind trivial fun ans => ?_
    split
    · split
      · exact Flow.issues_pure
      · exact enqueue_issues _
    · exact Flow.issues_throw
  · split
    · exact Flow.issues_request_bind trivial fun _ => enqueue_issues task
    · exact enqueue_issues task
  · exact Flow.issues_throw

theorem admitFresh_issues {task : RegisterTask} (hpending : task.status.isTerminal = false)
    (contentHash : String) (retryDigest : Option String) :
    RequestPart (admitFresh task contentHash retryDigest) := by
  have hrest : RequestPart (do writeGates; twoPhase task retryDigest) :=
    Flow.Issues.bind writeGates_issues fun _ => twoPhase_issues hpending retryDigest
  have hgated : RequestPart (do
      if task.kind = .refer then referGroupGate task else pure ()
      writeGates
      twoPhase task retryDigest) := by
    split
    · exact Flow.Issues.bind (referGroupGate_issues task) fun _ => hrest
    · exact hrest
  have hcheck : requestOperation (precheck task contentHash) := by
    unfold precheck
    split
    · trivial
    · trivial
  refine Flow.issues_request_bind hcheck fun ans => ?_
  split
  · exact Flow.issues_pure
  · exact hgated
  · exact hgated
  · exact Flow.issues_throw

variable {K : P256Crate} {E : Contract.Evm}

theorem coalesce_issues {task : RegisterTask} (hpending : task.status.isTerminal = false)
    (contentHash : String) : RequestPart (coalesce E task contentHash) := by
  unfold coalesce
  split
  · exact admitFresh_issues hpending contentHash none
  · refine Flow.issues_request_bind trivial fun ans => ?_
    split
    · split
      · exact resume_issues _
      · exact admitFresh_issues hpending contentHash _
    · exact admitFresh_issues hpending contentHash _
    · exact Flow.issues_throw

theorem admission_issues (submitted : Submission) :
    (admission K E submitted).Issues requestOperation := by
  apply Prog.Issues.map
  show RequestPart (driveAdmission K E submitted)
  unfold driveAdmission
  split
  · exact Flow.issues_pure
  · next task contentHash hvalid =>
      have hpending : task.status.isTerminal = false := by
        rw [(validate_fresh hvalid).1.pending]
        rfl
      refine Flow.Issues.bind allowIp_issues fun _ => ?_
      refine Flow.issues_request_bind trivial fun ans => ?_
      split
      · exact resume_issues _
      · exact coalesce_issues hpending contentHash
      · exact Flow.issues_throw

/-- A handler adds a look at the chain to the program. -/
theorem handle_issues_of {A : Command → Prop} {client : Client} {submitted : Submission}
    (hadmission : (driveAdmissionRequest K E client submitted).Issues A)
    (hchain : ∀ c, A (.chain c)) :
    (handle K E client submitted).Issues A := by
  unfold handle
  split
  · exact hadmission
  · refine Prog.Issues.bind ?_ fun differs => ?_
    · unfold rpIdDiffers
      split
      · refine (onChain_issues hchain _).bind fun read => ?_
        split
        · trivial
        · trivial
      · trivial
    · split
      · trivial
      · exact hadmission

theorem handle_issues (client : Client) (submitted : Submission) :
    (handle K E client submitted).Issues requestCommand := by
  refine handle_issues_of ?_ fun _ => trivial
  refine Prog.Issues.bind (Prog.issues_interp ?_ (admission_issues submitted)) fun _ => trivial
  intro op hop
  exact executeAdmission_issues client hop

/-! ## Records -/

/-- What a request's command does to a record: nothing, a new one, or the flag of a pending one. -/
theorem request_task {c : StoreCommand} (hc : requestCommand (.store c)) (s : Store) (id : String) :
    (c.exec s).2.task id = s.task id ∨
      (∃ task, c = .admitTask task ∧ task.id = id ∧ (c.exec s).2.task id = some task) ∨
        ∃ record, s.task id = some record ∧ (c.exec s).2.task id =
          some { record with admitted := true } := by
  cases c with
  | admitTask task =>
      simp only [StoreCommand.exec]
      split
      · exact .inl rfl
      · by_cases hid : id = task.id
        · subst hid
          exact .inr (.inl ⟨task, rfl, rfl, s.task_admitTask_self task⟩)
        · exact .inl (by simp [Store.task, Store.admitTask, Function.update_of_ne hid])
  | swapTask key previous updated =>
      obtain ⟨-, rfl⟩ := hc
      simp only [StoreCommand.exec]
      split
      · next slot hslot =>
          split
          · next hvalue =>
              by_cases hid : id = key
              · subst hid
                refine .inr (.inr ⟨previous, ?_, by simp [Store.task]⟩)
                rw [Store.task, hslot, ← hvalue]
                rfl
              · exact .inl (by simp [Store.task, Function.update_of_ne hid])
          · exact .inl rfl
      · exact .inl rfl
  | setTask task => cases hc
  | transitionDone task => cases hc
  | transitionFailed task => cases hc
  | incr key =>
      simp only [StoreCommand.exec]
      split <;> exact .inl rfl
  | pexpire key =>
      simp only [StoreCommand.exec]
      split <;> exact .inl rfl
  | _ => exact .inl rfl

/-- A task that was validated has used up no retry. -/
theorem validate_retries {submitted : Submission} {task : RegisterTask} {text : String}
    (h : validate K E submitted = .ok (task, text)) : task.retries = 0 := by
  unfold validate at h
  split at h
  · obtain ⟨_, _, _, -, -, haccepted⟩ := validateRegister_eq_ok h
    rw [haccepted.task_eq]
    rfl
  · obtain ⟨_, _, _, -, -, haccepted⟩ := validateRefer_iff.mp h
    rw [haccepted.task_eq]
    rfl

/-- The one task a request admits is the one it was validated to. -/
theorem admission_admits {submitted : Submission} {task : RegisterTask} {text : String}
    (hvalid : validate K E submitted = .ok (task, text)) :
    (admission K E submitted).Issues fun op =>
      ∀ admitted, op = .admitTask admitted → admitted = task := by
  refine Prog.issues_of_runs fun tr out hrun step hstep admitted hop => ?_
  obtain ⟨hallowed, -⟩ := allowed_of_runs hvalid hrun
  obtain ⟨before, after, rfl⟩ := List.append_of_mem hstep
  obtain ⟨op, ans⟩ := step
  cases hop
  exact (hallowed before _ ans after rfl).1

theorem Sound.request {s : Store} {c : StoreCommand} (h : Sound s) (hc : requestCommand (.store c))
    (hnew : ∀ task, c = .admitTask task → task.retries = 0) : Sound (c.exec s).2 := by
  constructor
  · intro id record hrecord
    rcases request_task hc s id with hsame | ⟨task, -, hid, hnew⟩ | ⟨old, hold, hflagged⟩
    · exact h.keyed id record (hsame ▸ hrecord)
    · cases hnew.symm.trans hrecord
      exact hid
    · cases hflagged.symm.trans hrecord
      exact h.keyed id old hold
  · intro id record hrecord hpending
    rcases request_task hc s id with hsame | ⟨task, rfl, -, htask⟩ | ⟨old, hold, hflagged⟩
    · exact h.below id record (hsame ▸ hrecord) hpending
    · cases htask.symm.trans hrecord
      rw [hnew record rfl]
      decide
    · cases hflagged.symm.trans hrecord
      exact h.below id old hold hpending

end P256Index.Server
