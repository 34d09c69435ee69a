import P256Index.Registrar.Batch
import P256Index.Server.Healthy

/-!
# No task wedges the queue

The worker runs one batch again and again on a healthy store, while the chain answers what it likes.
A run that ends in a retry has ended a task or used up one of a task's ten retries, so the retries
that are left bound the number of such runs.
-/

namespace P256Index.Server

open Registrar Registrar.Submission

variable {A : Type} {answer : (c : ChainCommand) → A → c.Value × A} {w : Site A}

/-! ## Records -/

/-- Records lie under their own ids, and a pending one has retries left. -/
structure Sound (s : Store) : Prop where
  keyed : ∀ id task, s.task id = some task → task.id = id
  below : ∀ id task, s.task id = some task → task.status = .pending → task.retries < maxRetries

/-- The task's record is done or failed. -/
def Ended (s : Store) (id : String) : Prop :=
  ∃ task, s.task id = some task ∧ task.status.isTerminal = true

/-- The task is pending with one retry more than in `task`. -/
def Raised (s : Store) (task : RegisterTask) : Prop :=
  ∃ record, s.task task.id = some record ∧ record.status = .pending ∧
    record.retries = task.retries + 1

/-- The store holds this pending record. -/
structure Holds (s : Store) (task : RegisterTask) : Prop where
  stored : s.task task.id = some task
  pending : task.status = .pending
  below : task.retries < maxRetries

/-- Only this task's record changed. -/
def OnlyTask (id : String) (s s' : Store) : Prop :=
  ∀ other, other ≠ id → s'.task other = s.task other

/-! ## The worker's operations -/

/-- One operation of the submission program, performed by the shell. -/
def work (answer : (c : ChainCommand) → A → c.Value × A) (op : Operation) (w : Site A) :
    Result × Site A :=
  (execute op).eval (serve answer) w

theorem work_loadTasks (ids : List String) :
    work answer (.loadTasks ids) w = (.tasksLoaded (ids.map w.store.task), w) := by
  rw [work, execute, Prog.eval_bind, eval_onStore, runStore_loadEach]
  rfl

theorem contentAnswer_cases (read : Option Bool) :
    contentAnswer read = .chainReadFailed ∨
      ∃ value, contentAnswer read = .contentChecked value := by
  cases read with
  | none => exact .inl rfl
  | some value => exact .inr ⟨value, rfl⟩

/-- A check answers with a reading or with a failed one, and leaves the store alone. -/
theorem work_check {task : RegisterTask} {E : Contract.Evm} {op : Operation}
    (h : checkOperation E task = some op) :
    (work answer op w).2.store = w.store ∧
      ((work answer op w).1 = .chainReadFailed ∨
        ∃ value, (work answer op w).1 = .contentChecked value) := by
  rcases checkOperation_cases h with ⟨contentHash, rfl⟩ | ⟨group, member, rfl⟩
  · simp only [work, execute]
    split
    · exact ⟨rfl, .inl rfl⟩
    · rw [Prog.eval_map, eval_onChain]
      exact ⟨rfl, contentAnswer_cases _⟩
  · simp only [work, execute]
    split
    · rw [Prog.eval_map, eval_onChain]
      exact ⟨rfl, contentAnswer_cases _⟩
    · exact ⟨rfl, .inl rfl⟩

theorem work_submitRegister (task : RegisterTask) :
    work answer (.submitRegister task) w =
      (.tx (answer (.submit task) w.chain).1,
        { w with chain := (answer (.submit task) w.chain).2 }) := by
  rw [work, execute, Prog.eval_map, eval_onChain]

/-- A mark of done is acknowledged and ends the task. -/
theorem work_markDone {task : RegisterTask} (txHash : Option String) (onChainId : Option UInt64)
    (h : Holds w.store task) :
    (work answer (.markDone task.id txHash onChainId) w).1 = .persisted ∧
      OnlyTask task.id w.store (work answer (.markDone task.id txHash onChainId) w).2.store ∧
        Ended (work answer (.markDone task.id txHash onChainId) w).2.store task.id := by
  rw [work, execute, Prog.eval_map, eval_onStore, runStore_markDone, h.stored]
  refine ⟨rfl, ?_, doneRecord task txHash onChainId, ?_, rfl⟩
  · intro other hne
    show (w.store.transitionDone (doneRecord task txHash onChainId)).task other = _
    rw [Store.task_transitionDone]
    exact if_neg hne
  · exact Store.task_transitionDone_self w.store (doneRecord task txHash onChainId)

theorem work_markFailed {task : RegisterTask} (kind : FailureKind) (message : String)
    (h : Holds w.store task) :
    (work answer (.markFailed task.id kind message) w).1 = .persisted ∧
      OnlyTask task.id w.store (work answer (.markFailed task.id kind message) w).2.store ∧
        Ended (work answer (.markFailed task.id kind message) w).2.store task.id := by
  rw [work, execute, Prog.eval_map, eval_onStore, runStore_markFailed, h.stored]
  refine ⟨rfl, ?_, failedRecord task (storeClass kind) message, ?_, rfl⟩
  · intro other hne
    show (w.store.transitionFailed (failedRecord task (storeClass kind) message)).task other = _
    rw [Store.task_transitionFailed]
    exact if_neg hne
  · exact Store.task_transitionFailed_self w.store (failedRecord task (storeClass kind) message)

/-- A recorded failure uses up one retry, or ends the task. -/
theorem work_recordTransientFailure {task : RegisterTask} (message : String)
    (h : Holds w.store task) :
    (work answer (.recordTransientFailure task.id message) w).1 = .persisted ∧
      OnlyTask task.id w.store (work answer (.recordTransientFailure task.id message) w).2.store ∧
        (Ended (work answer (.recordTransientFailure task.id message) w).2.store task.id ∨
          Raised (work answer (.recordTransientFailure task.id message) w).2.store task) := by
  obtain ⟨hleft, record, hrecord⟩ :=
    runStore_recordTransientFailure w.store task.id message
  rw [work, execute, Prog.eval_map, eval_onStore, hrecord, hleft]
  obtain ⟨hothers, after, hafter, hstatus⟩ :=
    Store.task_retried message h.stored rfl h.pending h.below
  refine ⟨rfl, hothers, ?_⟩
  rcases hstatus with hfailed | ⟨hpending, hretries⟩
  · refine .inl ⟨after, hafter, ?_⟩
    rw [hfailed]
    rfl
  · exact .inr ⟨after, hafter, hpending, hretries⟩

/-! ## The stages for one task -/

/-- The task ended or used up a retry, and no other record changed. -/
structure Moved (task : RegisterTask) (s s' : Store) : Prop where
  only : OnlyTask task.id s s'
  moved : Ended s' task.id ∨ Raised s' task

/-- What a stage leaves: going through ends the task, and an exit is a retry that moved it. -/
structure StageLeaves (task : RegisterTask) (s : Store) (r : Except Halt Unit) (s' : Store) :
    Prop where
  moved : Moved task s s'
  through : ∀ u, r = .ok u → Ended s' task.id
  retried : ∀ e, r = .error e → ∃ reason, e = retry reason

variable {E : Contract.Evm} {task : RegisterTask}

theorem StageLeaves.ended {s s' : Store} {r : Except Halt Unit} (honly : OnlyTask task.id s s')
    (hended : Ended s' task.id) (hretry : ∀ e, r = .error e → ∃ reason, e = retry reason) :
    StageLeaves task s r s' :=
  ⟨⟨honly, .inl hended⟩, fun _ _ => hended, hretry⟩

theorem persist_yields {op : Operation} (reason : String) {Q : Except Halt Unit → Site A → Prop}
    (hop : (work answer op w).1 = .persisted) (hQ : Q (.ok ()) (work answer op w).2) :
    Flow.Yields (work answer) (persist op reason) w Q := by
  apply Flow.yields_request_bind
  rw [hop]
  exact Flow.yields_pure hQ

theorem markDone_yields (h : Holds w.store task) (txHash : Option String)
    (onChainId : Option UInt64) :
    Flow.Yields (work answer) (Submission.markDone task txHash onChainId) w
      fun r w' => StageLeaves task w.store r w'.store := by
  obtain ⟨hack, honly, hended⟩ := work_markDone txHash onChainId h
  exact persist_yields _ hack (.ended honly hended (by simp))

theorem markFailed_yields (h : Holds w.store task) (message reason : String) :
    Flow.Yields (work answer) (persist (.markFailed task.id .poison message) reason) w
      fun r w' => StageLeaves task w.store r w'.store := by
  obtain ⟨hack, honly, hended⟩ := work_markFailed .poison message h
  exact persist_yields _ hack (.ended honly hended (by simp))

theorem recordTransientFailure_yields (h : Holds w.store task) (message reason : String) :
    Flow.Yields (work answer) (persist (.recordTransientFailure task.id message) reason) w
      fun r w' => r = .ok () ∧ Moved task w.store w'.store := by
  obtain ⟨hack, honly, hmoved⟩ := work_recordTransientFailure message h
  exact persist_yields _ hack ⟨rfl, honly, hmoved⟩

/-- A check that goes through has left the store alone; one that fails has moved the task. -/
def CheckLeft (E : Contract.Evm) (task : RegisterTask) (s : Store) (r : Except Halt ContentState)
    (s' : Store) : Prop :=
  match r with
  | .ok state => s' = s ∧ (state = .unencodable ↔ checkOperation E task = none)
  | .error e => (∃ reason, e = retry reason) ∧ Moved task s s'

theorem checkContent_yields (h : Holds w.store task) :
    Flow.Yields (work answer) (checkContent E task) w
      fun r w' => CheckLeft E task w.store r w'.store := by
  unfold checkContent
  cases hop : checkOperation E task with
  | none => exact Flow.yields_pure ⟨rfl, by simp [hop]⟩
  | some op =>
      have hcheck : (work answer op w).2.store = w.store ∧ _ := work_check hop
      obtain ⟨hstore, hanswer⟩ := hcheck
      apply Flow.yields_request_bind
      rcases hanswer with hfailed | ⟨value, hvalue⟩
      · rw [hfailed]
        have hholds : Holds (work answer op w).2.store task := by rwa [hstore]
        refine Flow.Yields.bind (recordTransientFailure_yields hholds _ _) ?_ ?_
        · rintro e w' ⟨hok, -⟩
          cases hok
        · rintro _ w' ⟨-, hmoved⟩
          rw [hstore] at hmoved
          exact Flow.yields_throw ⟨⟨_, rfl⟩, hmoved⟩
      · rw [hvalue]
        cases value with
        | true => exact Flow.yields_pure ⟨hstore, by simp [hop]⟩
        | false => exact Flow.yields_pure ⟨hstore, by simp [hop]⟩

/-- A send leaves the store alone, and a nonce is always there. -/
theorem submit_yields (hnonce : ∀ task a, (answer (.submit task) a).1 ≠ .noncePoolUnavailable) :
    Flow.Yields (work answer) (submit task) w
      fun r w' =>
        w'.store = w.store ∧ ∃ outcome, r = .ok outcome ∧ outcome ≠ .noncePoolUnavailable := by
  have hne := hnonce task w.chain
  apply Flow.yields_request_bind
  rw [work_submitRegister]
  cases hout : (answer (.submit task) w.chain).1 with
  | noncePoolUnavailable => exact absurd hout hne
  | _ => exact Flow.yields_pure ⟨rfl, _, rfl, by simp⟩

/-- Classification moves the task, and ends it unless the error is transient. -/
theorem classifyTask_yields (h : Holds w.store task) (error : ChainError) :
    Flow.Yields (work answer) (classifyTask E task error) w fun r w' =>
      Moved task w.store w'.store ∧ (∀ e, r = .error e → ∃ reason, e = retry reason) ∧
        (∀ u, r = .ok u → classifyChainError error ≠ .transient → Ended w'.store task.id) := by
  have hstage : ∀ {r : Except Halt Unit} {w' : Site A}, StageLeaves task w.store r w'.store →
      Moved task w.store w'.store ∧ (∀ e, r = .error e → ∃ reason, e = retry reason) ∧
        (∀ u, r = .ok u → classifyChainError error ≠ .transient → Ended w'.store task.id) :=
    fun h => ⟨h.moved, h.retried, fun u hu _ => h.through u hu⟩
  unfold classifyTask
  cases hclass : classifyChainError error with
  | alreadyExists =>
      rw [hclass] at hstage
      refine Flow.Yields.bind (checkContent_yields h) ?_ ?_
      · intro e w' hleft
        exact ⟨hleft.2, fun e' he => by cases he; exact hleft.1, by simp⟩
      · intro state w' hleft
        have hholds : Holds w'.store task := by rw [hleft.1]; exact h
        rw [← hleft.1] at hstage ⊢
        cases state with
        | registered => exact (markDone_yields hholds _ _).mono fun _ _ hr => hstage hr
        | absent => exact (markFailed_yields hholds _ _).mono fun _ _ hr => hstage hr
        | unencodable => exact (markFailed_yields hholds _ _).mono fun _ _ hr => hstage hr
  | transient =>
      refine (recordTransientFailure_yields h _ _).mono fun r w' hr => ⟨hr.2, ?_, by simp⟩
      intro e he
      rw [hr.1] at he
      cases he
  | poison =>
      rw [hclass] at hstage
      exact (markFailed_yields h _ _).mono fun _ _ hr => hstage hr

theorem sendFailed_yields (h : Holds w.store task) (error : ChainError) :
    Flow.Yields (work answer) (sendFailed E task error) w
      fun r w' => StageLeaves task w.store r w'.store := by
  refine Flow.Yields.bind (classifyTask_yields h error) ?_ ?_
  · rintro e w' ⟨hmoved, hretry, -⟩
    exact ⟨hmoved, by simp, hretry⟩
  · rintro u w' ⟨hmoved, -, hended⟩
    by_cases htransient : classifyChainError error = .transient
    · simp only [htransient, if_true]
      refine Flow.yields_throw ⟨hmoved, by simp, ?_⟩
      rintro e ⟨⟩
      exact ⟨_, rfl⟩
    · simp only [htransient, if_false]
      exact Flow.yields_pure (.ended hmoved.only (hended u rfl htransient) (by simp))

theorem receiptUncertain_yields (h : Holds w.store task) (error : ChainError) :
    Flow.Yields (work answer) (receiptUncertain E task error) w
      fun r w' => StageLeaves task w.store r w'.store := by
  refine Flow.Yields.bind (classifyTask_yields h error) ?_ ?_
  · rintro e w' ⟨hmoved, hretry, -⟩
    exact ⟨hmoved, by simp, hretry⟩
  · rintro u w' ⟨hmoved, -, -⟩
    refine Flow.yields_throw ⟨hmoved, by simp, ?_⟩
    rintro e ⟨⟩
    exact ⟨_, rfl⟩

/-- A stage for a task after a step that left the store alone. -/
theorem stageLeaves_of_store_eq {x : SubmissionFlow Unit} {w' : Site A}
    (hstore : w'.store = w.store)
    (h : Flow.Yields (work answer) x w' fun r w'' => StageLeaves task w'.store r w''.store) :
    Flow.Yields (work answer) x w' fun r w'' => StageLeaves task w.store r w''.store := by
  rwa [hstore] at h

section NonceReady

variable (hnonce : ∀ task a, (answer (.submit task) a).1 ≠ .noncePoolUnavailable)
include hnonce

theorem registerReverted_yields (h : Holds w.store task) (hcheck : checkOperation E task ≠ none) :
    Flow.Yields (work answer) (registerReverted E task) w
      fun r w' => StageLeaves task w.store r w'.store := by
  refine Flow.Yields.bind (checkContent_yields h) ?_ ?_
  · intro e w' hleft
    exact ⟨hleft.2, by simp, fun e' he => by cases he; exact hleft.1⟩
  · intro state w' hleft
    have hholds : Holds w'.store task := by rw [hleft.1]; exact h
    refine stageLeaves_of_store_eq hleft.1 ?_
    cases state with
    | registered => exact markDone_yields hholds _ _
    | unencodable => exact absurd (hleft.2.mp rfl) hcheck
    | absent =>
        refine Flow.Yields.bind (submit_yields hnonce) ?_ ?_
        · rintro e w'' ⟨-, outcome, hout, -⟩
          cases hout
        · rintro outcome w'' ⟨hstore, _, ⟨⟩, hne⟩
          have hholds' : Holds w''.store task := by rw [hstore]; exact hholds
          refine stageLeaves_of_store_eq hstore ?_
          cases outcome with
          | confirmed txHash onChainId => exact markDone_yields hholds' _ _
          | reverted _ => exact markFailed_yields hholds' _ _
          | receiptUncertain error => exact receiptUncertain_yields hholds' error
          | sendFailed error => exact sendFailed_yields hholds' error
          | noncePoolUnavailable => exact absurd rfl hne

theorem submitStage_yields (h : Holds w.store task) (hcheck : checkOperation E task ≠ none) :
    Flow.Yields (work answer) (submitStage E task) w
      fun r w' => StageLeaves task w.store r w'.store := by
  refine Flow.Yields.bind (submit_yields hnonce) ?_ ?_
  · rintro e w' ⟨-, outcome, hout, -⟩
    cases hout
  · rintro outcome w' ⟨hstore, _, ⟨⟩, hne⟩
    have hholds : Holds w'.store task := by rw [hstore]; exact h
    refine stageLeaves_of_store_eq hstore ?_
    cases outcome with
    | confirmed txHash onChainId => exact markDone_yields hholds _ _
    | reverted _ => exact registerReverted_yields hnonce hholds hcheck
    | receiptUncertain error => exact receiptUncertain_yields hholds error
    | sendFailed error => exact sendFailed_yields hholds error
    | noncePoolUnavailable => exact absurd rfl hne

theorem driveTask_yields (h : Holds w.store task) :
    Flow.Yields (work answer) (driveTask E task) w
      fun r w' => StageLeaves task w.store r w'.store := by
  refine Flow.Yields.bind (checkContent_yields h) ?_ ?_
  · intro e w' hleft
    exact ⟨hleft.2, by simp, fun e' he => by cases he; exact hleft.1⟩
  · intro state w' hleft
    have hholds : Holds w'.store task := by rw [hleft.1]; exact h
    refine stageLeaves_of_store_eq hleft.1 ?_
    cases state with
    | registered => exact markDone_yields hholds _ _
    | unencodable => exact markFailed_yields hholds _ _
    | absent =>
        have hcheck : checkOperation E task ≠ none := fun hnone => by cases hleft.2.mpr hnone
        exact submitStage_yields hnonce hholds hcheck

end NonceReady

/-! ## The loop over the batch -/

/-- What the loop leaves. Only its own tasks change; one that goes through has ended them all, and
one that stops has ended the tasks before the one it moved and left those after it alone. -/
structure LoopLeaves (tasks : List RegisterTask) (s : Store) (r : Except Halt Unit) (s' : Store) :
    Prop where
  frame : ∀ id, (∀ task ∈ tasks, task.id ≠ id) → s'.task id = s.task id
  through : ∀ u, r = .ok u → ∀ task ∈ tasks, Ended s' task.id
  stopped : ∀ e, r = .error e → (∃ reason, e = retry reason) ∧
    ∃ earlier task later, tasks = earlier ++ task :: later ∧ (∀ t ∈ earlier, Ended s' t.id) ∧
      (Ended s' task.id ∨ Raised s' task) ∧ ∀ t ∈ later, s'.task t.id = s.task t.id

theorem Ended.congr {s s' : Store} {id : String} (h : Ended s id) (hid : s'.task id = s.task id) :
    Ended s' id := by
  unfold Ended
  rwa [hid]

/-- The first task ended; the loop goes on with the rest. -/
theorem LoopLeaves.cons {tasks : List RegisterTask} {s s' s'' : Store} {r : Except Halt Unit}
    (hids : ∀ t ∈ tasks, t.id ≠ task.id) (honly : OnlyTask task.id s s') (hended : Ended s' task.id)
    (h : LoopLeaves tasks s' r s'') : LoopLeaves (task :: tasks) s r s'' := by
  have hfirst : Ended s'' task.id := hended.congr (h.frame task.id hids)
  refine ⟨?_, ?_, ?_⟩
  · intro id hother
    rw [List.forall_mem_cons] at hother
    exact (h.frame id hother.2).trans (honly id (Ne.symm hother.1))
  · intro u hu
    exact List.forall_mem_cons.mpr ⟨hfirst, h.through u hu⟩
  · intro e he
    obtain ⟨hretry, earlier, t, later, rfl, hbefore, hmoved, hlater⟩ := h.stopped e he
    refine ⟨hretry, task :: earlier, t, later, rfl, List.forall_mem_cons.mpr ⟨hfirst, hbefore⟩,
      hmoved, ?_⟩
    intro t' ht'
    have hne : t'.id ≠ task.id := hids t' (by simp [ht'])
    exact (hlater t' ht').trans (honly t'.id hne)

theorem driveTasks_yields {tasks : List RegisterTask}
    (hnonce : ∀ task a, (answer (.submit task) a).1 ≠ .noncePoolUnavailable)
    (hids : (tasks.map RegisterTask.id).Nodup) (h : ∀ task ∈ tasks, Holds w.store task) :
    Flow.Yields (work answer) (driveTasks E tasks) w
      fun r w' => LoopLeaves tasks w.store r w'.store := by
  induction tasks generalizing w with
  | nil => exact Flow.yields_pure ⟨fun _ _ => rfl, by simp, by simp⟩
  | cons task tasks ih =>
      obtain ⟨hhead, hrest⟩ := List.forall_mem_cons.mp h
      rw [List.map_cons, List.nodup_cons] at hids
      have hne : ∀ t ∈ tasks, t.id ≠ task.id := fun t ht heq =>
        hids.1 (heq ▸ List.mem_map_of_mem ht)
      refine Flow.Yields.bind (driveTask_yields hnonce hhead) ?_ ?_
      · intro e w' hleaves
        refine ⟨fun id hother => ?_, by simp, fun e' he => ?_⟩
        · exact hleaves.moved.only id (Ne.symm (hother task List.mem_cons_self))
        · cases he
          refine ⟨hleaves.retried e rfl, [], task, tasks, rfl, by simp, hleaves.moved.moved, ?_⟩
          intro t ht
          exact hleaves.moved.only t.id (hne t ht)
      · intro u w' hleaves
        -- the records of the later tasks are as they were
        have hholds : ∀ t ∈ tasks, Holds w'.store t := by
          intro t ht
          have hstored := hleaves.moved.only t.id (hne t ht)
          exact ⟨hstored.trans (hrest t ht).stored, (hrest t ht).pending, (hrest t ht).below⟩
        refine (ih hids.2 hholds).mono fun r w'' hloop => ?_
        exact hloop.cons hne hleaves.moved.only (hleaves.through u rfl)

/-! ## The retries that are left -/

/-- How often the task of an id may still be retried. -/
def retriesLeft (s : Store) (id : String) : Nat :=
  match s.task id with
  | some task => if task.status.isTerminal then 0 else maxRetries - task.retries
  | none => 0

/-- The pending tasks of a batch. -/
def pendingIds (s : Store) (ids : List String) : Finset String :=
  ids.toFinset.filter fun id => (s.task id).any fun task => !task.status.isTerminal

def budget (s : Store) (ids : List String) : Nat := ∑ id ∈ ids.toFinset, retriesLeft s id

theorem retriesLeft_eq_zero {s : Store} {id : String} (h : Ended s id) : retriesLeft s id = 0 := by
  obtain ⟨task, htask, hterminal⟩ := h
  simp [retriesLeft, htask, hterminal]

theorem Holds.retriesLeft_eq {s : Store} (h : Holds s task) :
    retriesLeft s task.id = maxRetries - task.retries := by
  simp [retriesLeft, h.stored, h.pending, TaskStatus.isTerminal]

theorem Raised.retriesLeft_eq {s : Store} (h : Raised s task) :
    retriesLeft s task.id = maxRetries - (task.retries + 1) := by
  obtain ⟨record, hrecord, hpending, hretries⟩ := h
  simp [retriesLeft, hrecord, hpending, hretries, TaskStatus.isTerminal]

theorem retriesLeft_congr {s s' : Store} {id : String} (h : s'.task id = s.task id) :
    retriesLeft s' id = retriesLeft s id := by
  rw [retriesLeft, retriesLeft, h]

/-- Each pending task of the batch has ten retries at most. -/
theorem budget_le (s : Store) (ids : List String) :
    budget s ids ≤ maxRetries * (pendingIds s ids).card := by
  have hpending : budget s ids = ∑ id ∈ pendingIds s ids, retriesLeft s id := by
    rw [budget, pendingIds, Finset.sum_filter_of_ne]
    intro id _ hne
    unfold retriesLeft at hne
    split at hne <;> simp_all
  have hten : ∀ id ∈ pendingIds s ids, retriesLeft s id ≤ maxRetries := by
    intro id _
    unfold retriesLeft
    split
    · split <;> omega
    · exact Nat.zero_le _
  rw [hpending, mul_comm]
  exact Finset.sum_le_card_nsmul _ _ _ hten

/-- A run that retries ends some task of the batch, or raises exactly one pending task by one. -/
def Progresses (ids : List String) (s s' : Store) : Prop :=
  (∃ task, task.id ∈ ids ∧ Holds s task ∧ Ended s' task.id) ∨
    ∃ task, task.id ∈ ids ∧ Holds s task ∧ Raised s' task ∧ OnlyTask task.id s s'

variable {ids : List String} {tasks : List RegisterTask} {s s' : Store}

theorem LoopLeaves.progresses {e : Halt} (h : LoopLeaves tasks s (.error e) s')
    (hin : ∀ task ∈ tasks, task.id ∈ ids ∧ Holds s task) : Progresses ids s s' := by
  obtain ⟨-, earlier, task, later, rfl, hbefore, hmoved, hlater⟩ := h.stopped e rfl
  obtain ⟨hid, hholds⟩ := hin task (by simp)
  rcases hmoved with hended | hraised
  · exact .inl ⟨task, hid, hholds, hended⟩
  · cases earlier with
    | cons t earlier =>
        obtain ⟨hid', hholds'⟩ := hin t (by simp)
        exact .inl ⟨t, hid', hholds', hbefore t (by simp)⟩
    | nil =>
        refine .inr ⟨task, hid, hholds, hraised, fun other hne => ?_⟩
        by_cases hother : ∃ t ∈ later, t.id = other
        · obtain ⟨t, ht, rfl⟩ := hother
          exact hlater t ht
        · refine h.frame other fun t ht heq => ?_
          rcases List.mem_cons.mp ht with rfl | ht
          · exact hne heq.symm
          · exact hother ⟨t, ht, heq⟩

theorem LoopLeaves.budget_lt {e : Halt} (h : LoopLeaves tasks s (.error e) s')
    (hin : ∀ task ∈ tasks, task.id ∈ ids ∧ Holds s task) : budget s' ids < budget s ids := by
  obtain ⟨-, earlier, task, later, rfl, hbefore, hmoved, hlater⟩ := h.stopped e rfl
  obtain ⟨hid, hholds⟩ := hin task (by simp)
  have hlt : retriesLeft s' task.id < retriesLeft s task.id := by
    rw [hholds.retriesLeft_eq]
    have hbelow := hholds.below
    rcases hmoved with hended | hraised
    · rw [retriesLeft_eq_zero hended]
      omega
    · rw [hraised.retriesLeft_eq]
      omega
  refine Finset.sum_lt_sum (fun id _ => ?_) ⟨task.id, List.mem_toFinset.mpr hid, hlt⟩
  by_cases hother : ∃ t ∈ earlier ++ task :: later, t.id = id
  · obtain ⟨t, ht, rfl⟩ := hother
    rcases List.mem_append.mp ht with ht | ht
    · rw [retriesLeft_eq_zero (hbefore t ht)]
      exact Nat.zero_le _
    · rcases List.mem_cons.mp ht with rfl | ht
      · exact hlt.le
      · exact (retriesLeft_congr (hlater t ht)).le
  · refine (retriesLeft_congr (h.frame id fun t ht heq => hother ⟨t, ht, heq⟩)).le

/-! ## One run -/

/-- One run of the submission program on the envelopes of a batch. -/
def runBatch (answer : (c : ChainCommand) → A → c.Value × A) (E : Contract.Evm) (ids : List String)
    (w : Site A) : Settled × Site A :=
  ((submission E ids).interp execute).eval (serve answer) w

theorem Sound.holds_of_mem_canonical (hsound : Sound s) (h : task ∈ canonical (ids.map s.task)) :
    task.id ∈ ids ∧ Holds s task := by
  obtain ⟨before, after, hloaded, hstatus, -⟩ :=
    ((canonical_distinctPending (ids.map s.task)).mem_iff task).mp h
  have hmem : some task ∈ ids.map s.task := by
    rw [hloaded]
    simp
  obtain ⟨id, hid, htask⟩ := List.mem_map.mp hmem
  have hpending : task.status = .pending := by
    cases hs : task.status with
    | pending => rfl
    | done => simp [hs, TaskStatus.isTerminal] at hstatus
    | failed => simp [hs, TaskStatus.isTerminal] at hstatus
  cases hsound.keyed id task htask
  exact ⟨hid, htask, hpending, hsound.below _ task htask hpending⟩

/-- A run advances, or it retries and has made progress that leaves fewer retries. -/
structure RunLeaves (ids : List String) (s : Store) (out : Settled) (s' : Store) : Prop where
  verdict : out = .verdict .advance ∨ ∃ reason, out = .verdict (.retry reason)
  progress : ∀ reason, out = .verdict (.retry reason) →
    Progresses ids s s' ∧ budget s' ids < budget s ids

theorem runBatch_leaves (hnonce : ∀ task a, (answer (.submit task) a).1 ≠ .noncePoolUnavailable)
    (hsound : Sound w.store) :
    RunLeaves ids w.store (runBatch answer E ids w).1 (runBatch answer E ids w).2.store := by
  have hin : ∀ task ∈ canonical (ids.map w.store.task), task.id ∈ ids ∧ Holds w.store task :=
    fun task h => hsound.holds_of_mem_canonical h
  have hloop : Flow.Yields (work answer) (driveBatch E ids) w
      fun r w' => RunLeaves ids w.store (settle r) w'.store := by
    unfold driveBatch
    split
    · exact Flow.yields_pure ⟨.inl rfl, by simp [settle]⟩
    · apply Flow.yields_request_bind
      rw [work_loadTasks]
      refine Flow.Yields.bind (driveTasks_yields hnonce
        (canonical_distinctPending _).distinct fun task h => (hin task h).2) ?_ ?_
      · intro e w' hleaves
        obtain ⟨⟨reason, rfl⟩, -⟩ := hleaves.stopped e rfl
        exact ⟨.inr ⟨reason, rfl⟩, fun _ _ => ⟨hleaves.progresses hin, hleaves.budget_lt hin⟩⟩
      · intro u w' _
        exact Flow.yields_pure ⟨.inl rfl, by simp [settle]⟩
  rw [runBatch, Prog.eval_interp, submission, Prog.eval_map]
  exact hloop

/-! ## Records stay sound -/

/-- One record was written. -/
theorem Sound.write (h : Sound s) (record : RegisterTask)
    (hwrite : ∀ id, s'.task id = if id = record.id then some record else s.task id)
    (hbelow : record.status = .pending → record.retries < maxRetries) : Sound s' := by
  refine ⟨fun id task htask => ?_, fun id task htask hpending => ?_⟩
  · rw [hwrite] at htask
    split at htask
    · cases htask
      exact Eq.symm ‹_›
    · exact h.keyed id task htask
  · rw [hwrite] at htask
    split at htask
    · cases htask
      exact hbelow hpending
    · exact h.below id task htask hpending

theorem Sound.transitionDone (h : Sound s) (txHash : Option String) (onChainId : Option UInt64) :
    Sound (s.transitionDone (doneRecord task txHash onChainId)) :=
  h.write _ (Store.task_transitionDone s _) (by simp [doneRecord])

theorem Sound.transitionFailed (h : Sound s) (hfailed : task.status = .failed) :
    Sound (s.transitionFailed task) :=
  h.write _ (Store.task_transitionFailed s _) (by simp [hfailed])

/-- A new task enters with no retries used. -/
theorem Sound.admitTask (h : Sound s) (hnew : task.retries = 0) : Sound (s.admitTask task) := by
  refine h.write task (fun id => ?_) fun _ => ?_
  · by_cases hid : id = task.id <;> simp [Store.task, Store.admitTask, Function.update, hid]
  · rw [hnew]
    decide

theorem markDone_keeps (id : String) (txHash : Option String) (onChainId : Option UInt64)
    (h : Sound s) : Keeps Sound (markDone id txHash onChainId) s := by
  refine keeps_getTask_bind h ?_
  cases s.task id with
  | none => exact keeps_pure h
  | some task => exact keeps_query_bind h (keeps_pure (h.transitionDone txHash onChainId))

theorem markFailed_keeps (id failureClass message : String) (h : Sound s) :
    Keeps Sound (markFailed id failureClass message) s := by
  refine keeps_getTask_bind h ?_
  cases s.task id with
  | none => exact keeps_pure h
  | some task => exact keeps_query_bind h (keeps_pure (h.transitionFailed rfl))

theorem recordTransientFailure_keeps (id message : String) (h : Sound s) :
    Keeps Sound (recordTransientFailure id message) s := by
  refine keeps_getTask_bind h ?_
  cases s.task id with
  | none => exact keeps_pure h
  | some task =>
      simp only
      split
      · exact keeps_pure h
      · split
        · exact keeps_query_bind h (keeps_pure (h.transitionFailed rfl))
        · refine keeps_query_bind h (keeps_pure (h.write (retriedRecord task message) ?_ ?_))
          · intro other
            by_cases hother : other = task.id <;>
              simp [StoreCommand.exec, Store.task, Function.update, retriedRecord, hother]
          · intro _
            omega

/-- Every state an operation of the worker passes is sound. -/
theorem execute_always (op : Operation) (hsound : Sound w.store) :
    (execute op).Always (serve answer) (fun w => Sound w.store) w := by
  cases op with
  | loadTasks ids =>
      refine Prog.Always.bind (always_onStore (keeps_loadEach ids hsound)) ?_
      rw [eval_onStore, runStore_loadEach]
      exact hsound
  | checkContentRegistered contentHash =>
      simp only [execute]
      split
      · exact hsound
      · exact ⟨hsound, hsound⟩
  | checkReferenced group member =>
      simp only [execute]
      split
      · exact ⟨hsound, hsound⟩
      · exact hsound
  | submitRegister task => exact ⟨hsound, hsound⟩
  | markDone id txHash onChainId => exact (always_onStore (markDone_keeps id _ _ hsound)).map
  | markFailed id kind message => exact (always_onStore (markFailed_keeps id _ _ hsound)).map
  | recordTransientFailure id message =>
      exact (always_onStore (recordTransientFailure_keeps id _ hsound)).map

/-! ## Run after run -/

/-- The site after the batch has been run `k` times on the same envelopes. -/
def rerun (answer : (c : ChainCommand) → A → c.Value × A) (E : Contract.Evm) (ids : List String)
    (w : Site A) (k : Nat) : Site A :=
  (fun w => (runBatch answer E ids w).2)^[k] w

/-- Every state one run passes is sound. -/
theorem runBatch_always (hsound : Sound w.store) :
    ((submission E ids).interp execute).Always (serve answer) (fun w => Sound w.store) w :=
  Prog.always_interp (fun op _ h => execute_always op h) _ hsound

theorem rerun_sound (hsound : Sound w.store) (k : Nat) : Sound (rerun answer E ids w k).store := by
  induction k with
  | zero => exact hsound
  | succ k ih =>
      rw [rerun, Function.iterate_succ_apply']
      exact (runBatch_always ih).last

/-- The retries that are left bound the runs before one that advances. -/
theorem exists_advance (hnonce : ∀ task a, (answer (.submit task) a).1 ≠ .noncePoolUnavailable)
    (hsound : Sound w.store) {n : Nat} (hn : budget w.store ids ≤ n) :
    ∃ k ≤ n, (runBatch answer E ids (rerun answer E ids w k)).1 = .verdict .advance ∧
      ∀ j < k, ∃ reason,
        (runBatch answer E ids (rerun answer E ids w j)).1 = .verdict (.retry reason) := by
  induction n generalizing w with
  | zero =>
      have hrun :
          RunLeaves ids w.store (runBatch answer E ids w).1 (runBatch answer E ids w).2.store :=
        runBatch_leaves hnonce hsound
      rcases hrun.verdict with hadvance | ⟨reason, hretry⟩
      · exact ⟨0, le_rfl, hadvance, by simp⟩
      · have hlt := (hrun.progress reason hretry).2
        omega
  | succ n ih =>
      have hrun :
          RunLeaves ids w.store (runBatch answer E ids w).1 (runBatch answer E ids w).2.store :=
        runBatch_leaves hnonce hsound
      rcases hrun.verdict with hadvance | ⟨reason, hretry⟩
      · exact ⟨0, Nat.zero_le _, hadvance, by simp⟩
      · have hlt := (hrun.progress reason hretry).2
        obtain ⟨k, hk, hadvance, hbefore⟩ :=
          ih (w := (runBatch answer E ids w).2) (rerun_sound hsound 1) (by omega)
        refine ⟨k + 1, by omega, hadvance, fun j hj => ?_⟩
        cases j with
        | zero => exact ⟨reason, hretry⟩
        | succ j => exact hbefore j (by omega)

/-- A batch is run again and again on the same envelopes, on a store that performs every command,
with a nonce for every send; the chain answers every check and every send as it likes. At most ten
runs for each pending task of the batch settle on a retry before one advances. Each retry ends a
task, or raises the retry count of exactly one pending task by one; and in every state on the way a
pending record has fewer than ten retries. -/
theorem batch_never_wedged (ids : List String)
    (hnonce : ∀ task a, (answer (.submit task) a).1 ≠ .noncePoolUnavailable)
    (hsound : Sound w.store) :
    (∃ k ≤ 10 * (pendingIds w.store ids).card,
      (runBatch answer E ids (rerun answer E ids w k)).1 = .verdict .advance ∧
        ∀ j < k, ∃ reason,
          (runBatch answer E ids (rerun answer E ids w j)).1 = .verdict (.retry reason)) ∧
    (∀ k reason, (runBatch answer E ids (rerun answer E ids w k)).1 = .verdict (.retry reason) →
      Progresses ids (rerun answer E ids w k).store (rerun answer E ids w (k + 1)).store) ∧
    ∀ k, ((submission E ids).interp execute).Always (serve answer) (fun w => Sound w.store)
      (rerun answer E ids w k) := by
  refine ⟨exists_advance hnonce hsound (budget_le w.store ids),
    fun k reason hretry => ?_, fun k => ?_⟩
  · have hstep : rerun answer E ids w (k + 1) =
        (runBatch answer E ids (rerun answer E ids w k)).2 :=
      Function.iterate_succ_apply' _ k w
    rw [hstep]
    exact ((runBatch_leaves hnonce (rerun_sound hsound k)).progress reason hretry).1
  · exact runBatch_always (rerun_sound hsound k)

/-- A chain that cannot be read and reverts what it is sent. -/
def deafChain : (c : ChainCommand) → Unit → c.Value × Unit
  | .isContentRegistered _, _ => (none, ())
  | .isReferenced _ _, _ => (none, ())
  | .unitByGroupKey _, _ => (none, ())
  | .feePlan, _ => (none, ())
  | .submit _, _ => (.reverted "0x", ())

/-- Two pending refers on a store, in front of such a chain. -/
def deafSite : Site Unit where
  store := (Store.empty.admitTask (referRecord "a" .pending)).admitTask (referRecord "b" .pending)
  queue := ⟨[], 0⟩
  chain := ()

theorem batch_never_wedged_deaf :
    ∃ k ≤ 20, (runBatch deafChain Contract.Sample.evm ["a", "b"]
      (rerun deafChain Contract.Sample.evm ["a", "b"] deafSite k)).1 = .verdict .advance := by
  have hsound : Sound deafSite.store :=
    Sound.admitTask
      (Sound.admitTask ⟨by simp [Store.task, Store.empty], by simp [Store.task, Store.empty]⟩
      rfl) rfl
  have hnonce : ∀ task a, (deafChain (.submit task) a).1 ≠ .noncePoolUnavailable := by
    intro task a h
    cases h
  obtain ⟨k, hk, hadvance, -⟩ :=
    (batch_never_wedged (E := Contract.Sample.evm) ["a", "b"] hnonce hsound).1
  have hcard : (pendingIds deafSite.store ["a", "b"]).card ≤ 2 :=
    (Finset.card_filter_le _ _).trans (List.toFinset_card_le _)
  exact ⟨k, by omega, hadvance⟩

end P256Index.Server
