import P256Index.Contract.Sample
import P256Index.Registrar.Submission

/-!
# What a verdict says about the batch

Every run of the submission program, whatever the shell answers. The argument is one notion,
`Stage`: a stage works for one task. It issues operations for that task only, it exits early only
with a retry, and when it goes through it has left a known list of terminal marks. Stages compose,
so each function of the program needs one short lemma, and the batch follows by induction over the
canonical tasks.
-/

namespace P256Index.Registrar.Submission

variable (E : Contract.Evm) {α β : Type}

abbrev Trace := List ((_ : Operation) × Result)

instance : Inhabited Result := ⟨.persisted⟩

/-! ## Which task an operation is for -/

/-- The operation belongs to this task: its own reconciliation check, its own record, its own id. -/
def IssuedFor (task : RegisterTask) : Operation → Prop
  | .loadTasks _ => False
  | .checkContentRegistered contentHash =>
      checkOperation E task = some (.checkContentRegistered contentHash)
  | .checkReferenced group member => checkOperation E task = some (.checkReferenced group member)
  | .submitRegister sent => sent = task
  | .markDone id _ _ => id = task.id
  | .markFailed id _ _ => id = task.id
  | .recordTransientFailure id _ => id = task.id

/-- The task id an operation carries. -/
def Operation.taskId : Operation → Option String
  | .submitRegister task => some task.id
  | .markDone id _ _ => some id
  | .markFailed id _ _ => some id
  | .recordTransientFailure id _ => some id
  | _ => none

/-- The task id of a terminal mark. -/
def Operation.terminalMark : Operation → Option String
  | .markDone id _ _ => some id
  | .markFailed id _ _ => some id
  | _ => none

/-- The terminal marks of a trace in order, each with the shell's answer to it. -/
def marks (tr : Trace) : List (String × Result) :=
  tr.filterMap fun step => step.1.terminalMark.map fun id => (id, step.2)

@[simp] theorem marks_nil : marks [] = [] := rfl

@[simp] theorem marks_append (tr tr' : Trace) : marks (tr ++ tr') = marks tr ++ marks tr' :=
  List.filterMap_append

theorem marks_cons (op : Operation) (ans : Result) (tr : Trace) :
    marks (⟨op, ans⟩ :: tr) = (op.terminalMark.map fun id => (id, ans)).toList ++ marks tr := by
  cases h : op.terminalMark with
  | none => simp [marks, h]
  | some id => simp [marks, h]

theorem IssuedFor.taskId_eq {task : RegisterTask} {op : Operation} {id : String}
    (h : IssuedFor E task op) (hid : op.taskId = some id) : id = task.id := by
  cases op with
  | submitRegister sent => simp_all [IssuedFor, Operation.taskId]
  | markDone _ _ _ => simp_all [IssuedFor, Operation.taskId]
  | markFailed _ _ _ => simp_all [IssuedFor, Operation.taskId]
  | recordTransientFailure _ _ => simp_all [IssuedFor, Operation.taskId]
  | _ => cases hid

theorem Operation.taskId_of_terminalMark {op : Operation} {id : String}
    (h : op.terminalMark = some id) : op.taskId = some id := by
  cases op <;> first | exact h | cases h

theorem issuedFor_checkOperation {task : RegisterTask} {op : Operation}
    (h : checkOperation E task = some op) : IssuedFor E task op ∧ op.terminalMark = none := by
  rcases checkOperation_cases h with ⟨_, rfl⟩ | ⟨_, _, rfl⟩
  · exact ⟨h, rfl⟩
  · exact ⟨h, rfl⟩

/-! ## Stages -/

/-- A stage for one task: it issues operations for that task only, exits only with a retry, and on
the way through leaves exactly the terminal marks `m` and a value that satisfies `V`. -/
def Stage (task : RegisterTask) (m : List (String × Result)) (V : α → Prop) (x : SubmissionFlow α) :
    Prop :=
  Flow.Ensures x fun tr r => (∀ step ∈ tr, IssuedFor E task step.1) ∧
    match r with
    | .ok a => marks tr = m ∧ V a
    | .error exit => ∃ reason, exit = retry reason

variable {E} {task : RegisterTask} {m m' : List (String × Result)} {V : α → Prop} {W : β → Prop}

theorem Stage.pure {a : α} (h : V a) : Stage E task [] V (pure a) :=
  Flow.ensures_pure.mpr ⟨by simp, rfl, h⟩

theorem Stage.retry (reason : String) : Stage E task m V (throw (Submission.retry reason)) :=
  Flow.ensures_throw.mpr ⟨by simp, reason, rfl⟩

/-- An operation for the task, followed by what the answer decides. -/
theorem Stage.request {op : Operation} {f : Result → SubmissionFlow α} (hop : IssuedFor E task op)
    (hquiet : op.terminalMark = none) (hf : ∀ ans, Stage E task m V (f ans)) :
    Stage E task m V (Flow.request op >>= f) := by
  refine Flow.ensures_request_bind.mpr fun ans => ?_
  refine (hf ans).mono ?_
  rintro tr r ⟨hissued, hr⟩
  refine ⟨List.forall_mem_cons.mpr ⟨hop, hissued⟩, ?_⟩
  cases r with
  | ok a => exact ⟨by simpa [marks_cons, hquiet] using hr.1, hr.2⟩
  | error exit => exact hr

theorem Stage.bind {x : SubmissionFlow α} {f : α → SubmissionFlow β} (hx : Stage E task m V x)
    (hf : ∀ a, V a → Stage E task m' W (f a)) : Stage E task (m ++ m') W (x >>= f) := by
  refine Flow.Ensures.bind hx (fun tr exit h => h) ?_
  rintro tr a ⟨hissued, hm, hV⟩
  refine (hf a hV).mono ?_
  rintro rest r ⟨hrest, hr⟩
  refine ⟨List.forall_mem_append.mpr ⟨hissued, hrest⟩, ?_⟩
  cases r with
  | ok b => exact ⟨by rw [marks_append, hm, hr.1], hr.2⟩
  | error exit => exact hr

/-! ## The stages of the program -/

/-- A persisted operation is on the trace with its acknowledgement; anything else is a retry. -/
theorem persist_stage {op : Operation} (reason : String) (hop : IssuedFor E task op) :
    Stage E task ((op.terminalMark.map fun id => (id, Result.persisted)).toList) (fun _ => True)
      (persist op reason) := by
  refine Flow.ensures_request_bind.mpr fun ans => ?_
  cases ans with
  | persisted => exact Flow.ensures_pure.mpr ⟨by simpa using hop, by simp [marks_cons], trivial⟩
  | storeUnavailable => exact Flow.ensures_throw.mpr ⟨by simpa using hop, reason, rfl⟩
  | _ => exact Flow.ensures_throw.mpr ⟨by simpa using hop, _, rfl⟩

theorem markDone_stage (txHash : Option String) (onChainId : Option UInt64) :
    Stage E task [(task.id, .persisted)] (fun _ => True) (markDone task txHash onChainId) :=
  persist_stage _ rfl

theorem markFailed_stage (message reason : String) :
    Stage E task [(task.id, .persisted)] (fun _ => True)
      (persist (.markFailed task.id .poison message) reason) :=
  persist_stage _ rfl

theorem recordTransientFailure_stage (message reason : String) :
    Stage E task [] (fun _ => True) (persist (.recordTransientFailure task.id message) reason) :=
  persist_stage _ rfl

/-- The check says unencodable exactly for a task that has no check, whatever the shell answers. -/
theorem checkContent_stage :
    Stage E task [] (fun state => state = .unencodable ↔ checkOperation E task = none)
      (checkContent E task) := by
  unfold checkContent
  cases hop : checkOperation E task with
  | none => exact Stage.pure (by simp)
  | some op =>
      obtain ⟨hissued, hquiet⟩ := issuedFor_checkOperation E hop
      apply Stage.request hissued hquiet
      intro ans
      cases ans with
      | contentChecked registered =>
          cases registered with
          | true => exact Stage.pure (by simp)
          | false => exact Stage.pure (by simp)
      | chainReadFailed =>
          apply Stage.bind (recordTransientFailure_stage _ _)
          intro _ _
          exact Stage.retry _
      | _ => exact Stage.retry _

/-- `submit` filters the missing nonce. -/
theorem submit_stage :
    Stage E task [] (fun outcome => outcome ≠ .noncePoolUnavailable) (submit task) := by
  have hissued : IssuedFor E task (.submitRegister task) := rfl
  apply Stage.request hissued rfl
  intro ans
  cases ans with
  | tx outcome =>
      cases outcome with
      | noncePoolUnavailable => exact Stage.retry _
      | _ => exact Stage.pure (by simp)
  | _ => exact Stage.retry _

/-- Classification leaves a terminal mark exactly when the error is not transient. -/
theorem classifyTask_stage (error : ChainError) :
    Stage E task (if classifyChainError error = .transient then [] else [(task.id, .persisted)])
      (fun _ => True) (classifyTask E task error) := by
  unfold classifyTask
  cases classifyChainError error with
  | alreadyExists =>
      apply Stage.bind checkContent_stage
      intro state _
      cases state with
      | registered => exact markDone_stage _ _
      | absent => exact markFailed_stage _ _
      | unencodable => exact markFailed_stage _ _
  | transient => exact recordTransientFailure_stage _ _
  | poison => exact markFailed_stage _ _

theorem sendFailed_stage (error : ChainError) :
    Stage E task [(task.id, .persisted)] (fun _ => True) (sendFailed E task error) := by
  have hclass : Stage E task _ _ (classifyTask E task error) := classifyTask_stage error
  unfold sendFailed
  by_cases htransient : classifyChainError error = .transient
  · simp only [htransient, if_true] at hclass ⊢
    exact Stage.bind hclass fun _ _ => Stage.retry _
  · simp only [htransient, if_false] at hclass ⊢
    exact Stage.bind hclass fun _ _ => Stage.pure trivial

/-- After an uncertain receipt no run goes on, whatever the classification left. -/
theorem receiptUncertain_stage (error : ChainError) :
    Stage E task [(task.id, .persisted)] (fun _ => True) (receiptUncertain E task error) := by
  have hclass : Stage E task _ _ (classifyTask E task error) := classifyTask_stage error
  unfold receiptUncertain
  by_cases htransient : classifyChainError error = .transient
  · simp only [htransient, if_true] at hclass
    exact Stage.bind hclass fun _ _ => Stage.retry _
  · simp only [htransient, if_false] at hclass
    show Stage E task ([(task.id, .persisted)] ++ []) _ _
    exact Stage.bind hclass fun _ _ => Stage.retry _

/-- The resend, reached only for a task whose check could be built. -/
theorem registerReverted_stage (hcheck : checkOperation E task ≠ none) :
    Stage E task [(task.id, .persisted)] (fun _ => True) (registerReverted E task) := by
  apply Stage.bind checkContent_stage
  intro state hstate
  cases state with
  | registered => exact markDone_stage _ _
  | unencodable => exact absurd (hstate.mp rfl) hcheck
  | absent =>
      apply Stage.bind submit_stage
      intro outcome houtcome
      cases outcome with
      | confirmed txHash onChainId => exact markDone_stage _ _
      | reverted txHash => exact markFailed_stage _ _
      | receiptUncertain error => exact receiptUncertain_stage error
      | sendFailed error => exact sendFailed_stage error
      | noncePoolUnavailable => exact absurd rfl houtcome

theorem submitStage_stage (hcheck : checkOperation E task ≠ none) :
    Stage E task [(task.id, .persisted)] (fun _ => True) (submitStage E task) := by
  apply Stage.bind submit_stage
  intro outcome houtcome
  cases outcome with
  | confirmed txHash onChainId => exact markDone_stage _ _
  | reverted txHash => exact registerReverted_stage hcheck
  | receiptUncertain error => exact receiptUncertain_stage error
  | sendFailed error => exact sendFailed_stage error
  | noncePoolUnavailable => exact absurd rfl houtcome

/-- The loop body goes on only after one acknowledged terminal mark of its task. -/
theorem driveTask_stage :
    Stage E task [(task.id, .persisted)] (fun _ => True) (driveTask E task) := by
  apply Stage.bind checkContent_stage
  intro state hstate
  cases state with
  | registered => exact markDone_stage _ _
  | unencodable => exact markFailed_stage _ _
  | absent =>
      apply submitStage_stage
      intro hnone
      cases hstate.mpr hnone

/-! ## The loop over the canonical tasks -/

variable (E)

/-- The tasks were worked off in order, each with one acknowledged terminal mark. -/
structure WorkedOff (tasks : List RegisterTask) (tr : Trace) : Prop where
  issued : ∀ step ∈ tr, ∃ task ∈ tasks, IssuedFor E task step.1
  marked : marks tr = tasks.map fun task => (task.id, Result.persisted)

/-- The loop stopped at `task`, after the earlier tasks were worked off and before any later one. -/
structure StoppedAt (earlier : List RegisterTask) (task : RegisterTask) (tr : Trace) : Prop where
  split : ∃ before here, tr = before ++ here ∧ WorkedOff E earlier before ∧
    ∀ step ∈ here, IssuedFor E task step.1

variable {E}

theorem WorkedOff.cons {tasks : List RegisterTask} {tr rest : Trace}
    (hissued : ∀ step ∈ tr, IssuedFor E task step.1) (hmarks : marks tr = [(task.id, .persisted)])
    (h : WorkedOff E tasks rest) : WorkedOff E (task :: tasks) (tr ++ rest) where
  issued := by
    intro step hstep
    rcases List.mem_append.mp hstep with hstep | hstep
    · exact ⟨task, List.mem_cons_self, hissued step hstep⟩
    · obtain ⟨t, ht, hfor⟩ := h.issued step hstep
      exact ⟨t, List.mem_cons_of_mem task ht, hfor⟩
  marked := by rw [marks_append, hmarks, h.marked, List.map_cons, List.singleton_append]

theorem driveTasks_ensures (tasks : List RegisterTask) :
    Flow.Ensures (driveTasks E tasks) fun tr r =>
      match r with
      | .ok _ => WorkedOff E tasks tr
      | .error exit => (∃ reason, exit = retry reason) ∧
          ∃ earlier task later, tasks = earlier ++ task :: later ∧ StoppedAt E earlier task tr := by
  induction tasks with
  | nil => exact Flow.ensures_pure.mpr ⟨by simp, rfl⟩
  | cons task tasks ih =>
      refine Flow.Ensures.bind driveTask_stage ?_ ?_
      · -- the exit happens inside the first task
        rintro tr exit ⟨hissued, hretry⟩
        exact ⟨hretry, [], task, tasks, rfl, ⟨[], tr, rfl, ⟨by simp, rfl⟩, hissued⟩⟩
      · rintro tr _ ⟨hissued, hmarks, -⟩
        refine ih.mono ?_
        intro rest r hrest
        cases r with
        | ok _ => exact hrest.cons hissued hmarks
        | error exit =>
            obtain ⟨hretry, earlier, stop, later, rfl, ⟨before, here, rfl, hbefore, hhere⟩⟩ := hrest
            refine ⟨hretry, task :: earlier, stop, later, rfl, ⟨tr ++ before, here, ?_, ?_, hhere⟩⟩
            · rw [List.append_assoc]
            · exact hbefore.cons hissued hmarks

/-! ## The canonical tasks -/

/-- The first non-terminal record of its id among the loaded ones. -/
def FirstPending (loaded : List (Option RegisterTask)) (task : RegisterTask) : Prop :=
  ∃ before after, loaded = before ++ some task :: after ∧ task.status.isTerminal = false ∧
    ∀ t, some t ∈ before → t.status.isTerminal = false → t.id ≠ task.id

/-- The distinct non-terminal tasks of a load, in loaded order: the first record of each id. -/
structure DistinctPending (loaded : List (Option RegisterTask)) (tasks : List RegisterTask) :
    Prop where
  in_order : (tasks.map some).Sublist loaded
  distinct : (tasks.map RegisterTask.id).Nodup
  mem_iff : ∀ task, task ∈ tasks ↔ FirstPending loaded task

theorem not_firstPending_nil : ¬ FirstPending [] task := by
  rintro ⟨before, after, h, -⟩
  simp at h

theorem firstPending_cons_none {loaded : List (Option RegisterTask)} :
    FirstPending (none :: loaded) task ↔ FirstPending loaded task := by
  constructor
  · rintro ⟨before, after, h, hstatus, hfirst⟩
    cases before with
    | nil => cases h
    | cons x before =>
        obtain ⟨rfl, rfl⟩ := List.cons.inj h
        exact ⟨before, after, rfl, hstatus, fun t ht => hfirst t (List.mem_cons_of_mem _ ht)⟩
  · rintro ⟨before, after, rfl, hstatus, hfirst⟩
    exact ⟨none :: before, after, rfl, hstatus, fun t ht => hfirst t (by simpa using ht)⟩

theorem firstPending_cons_some {loaded : List (Option RegisterTask)} {head : RegisterTask} :
    FirstPending (some head :: loaded) task ↔
      (head.status.isTerminal = false ∧ task = head) ∨
      (FirstPending loaded task ∧ (head.status.isTerminal = false → head.id ≠ task.id)) := by
  constructor
  · rintro ⟨before, after, h, hstatus, hfirst⟩
    cases before with
    | nil =>
        obtain ⟨hhead, rfl⟩ := List.cons.inj h
        cases hhead
        exact Or.inl ⟨hstatus, rfl⟩
    | cons x before =>
        obtain ⟨rfl, rfl⟩ := List.cons.inj h
        exact Or.inr ⟨⟨before, after, rfl, hstatus, fun t ht =>
          hfirst t (List.mem_cons_of_mem _ ht)⟩, hfirst head List.mem_cons_self⟩
  · rintro (⟨hstatus, rfl⟩ | ⟨⟨before, after, rfl, hstatus, hfirst⟩, hhead⟩)
    · exact ⟨[], loaded, rfl, hstatus, by simp⟩
    · refine ⟨some head :: before, after, rfl, hstatus, ?_⟩
      intro t ht
      rcases List.mem_cons.mp ht with ht | ht
      · cases ht
        exact hhead
      · exact hfirst t ht

/-- Membership in the canonical list, with the ids taken before: `seen` is what the loop carries. -/
theorem mem_canonicalFrom {loaded : List (Option RegisterTask)} {seen : List String} :
    task ∈ canonicalFrom seen loaded ↔ FirstPending loaded task ∧ task.id ∉ seen := by
  induction loaded generalizing seen with
  | nil => simp [canonicalFrom, not_firstPending_nil]
  | cons x loaded ih =>
      cases x with
      | none => rw [canonicalFrom, ih, firstPending_cons_none]
      | some head =>
          rw [canonicalFrom, firstPending_cons_some]
          by_cases hstatus : head.status.isTerminal = false
          · by_cases hseen : head.id ∈ seen
            · grind
            · grind
          · grind

/-- Every non-terminal record is represented by the first one of its id. -/
theorem exists_firstPending {loaded : List (Option RegisterTask)} (hmem : some task ∈ loaded)
    (hstatus : task.status.isTerminal = false) :
    ∃ first, FirstPending loaded first ∧ first.id = task.id := by
  induction loaded with
  | nil => cases hmem
  | cons x loaded ih =>
      cases x with
      | none =>
          obtain ⟨first, hfirst, hid⟩ := ih (by simpa using hmem)
          exact ⟨first, firstPending_cons_none.mpr hfirst, hid⟩
      | some head =>
          by_cases hhead : head.status.isTerminal = false ∧ head.id = task.id
          · exact ⟨head, firstPending_cons_some.mpr (Or.inl ⟨hhead.1, rfl⟩), hhead.2⟩
          · have hrest : some task ∈ loaded := by
              rcases List.mem_cons.mp hmem with heq | hrest
              · cases heq
                exact absurd ⟨hstatus, rfl⟩ hhead
              · exact hrest
            obtain ⟨first, hfirst, hid⟩ := ih hrest
            refine ⟨first,
              firstPending_cons_some.mpr (Or.inr ⟨hfirst, fun hpending heq => ?_⟩), hid⟩
            exact hhead ⟨hpending, heq.trans hid⟩

theorem canonicalFrom_sublist (loaded : List (Option RegisterTask)) (seen : List String) :
    ((canonicalFrom seen loaded).map some).Sublist loaded := by
  induction loaded generalizing seen with
  | nil => exact List.Sublist.refl _
  | cons x loaded ih =>
      cases x with
      | none => exact (ih seen).cons none
      | some head =>
          rw [canonicalFrom]
          split
          · exact (ih _).cons_cons (some head)
          · exact (ih seen).cons (some head)

theorem canonicalFrom_nodup (loaded : List (Option RegisterTask)) (seen : List String) :
    ((canonicalFrom seen loaded).map RegisterTask.id).Nodup := by
  induction loaded generalizing seen with
  | nil => exact List.nodup_nil
  | cons x loaded ih =>
      cases x with
      | none => exact ih seen
      | some head =>
          rw [canonicalFrom]
          split
          · rw [List.map_cons, List.nodup_cons]
            refine ⟨?_, ih _⟩
            rw [List.mem_map]
            rintro ⟨t, ht, hid⟩
            exact (mem_canonicalFrom.mp ht).2 (hid ▸ List.mem_cons_self)
          · exact ih seen

theorem canonical_distinctPending (loaded : List (Option RegisterTask)) :
    DistinctPending loaded (canonical loaded) where
  in_order := canonicalFrom_sublist loaded []
  distinct := canonicalFrom_nodup loaded []
  mem_iff task := by
    rw [canonical, mem_canonicalFrom]
    simp

/-- Whatever carries a task id in a stopped run is for an earlier task or for the one it stopped at.
-/
theorem StoppedAt.issued {earlier : List RegisterTask} {tr : Trace}
    (h : StoppedAt E earlier task tr) :
    ∀ step ∈ tr, ∃ t ∈ earlier ++ [task], IssuedFor E t step.1 := by
  obtain ⟨before, here, rfl, hbefore, hhere⟩ := h.split
  intro step hstep
  rcases List.mem_append.mp hstep with hstep | hstep
  · obtain ⟨t, ht, hfor⟩ := hbefore.issued step hstep
    exact ⟨t, List.mem_append_left _ ht, hfor⟩
  · exact ⟨task, List.mem_append_right _ List.mem_cons_self, hhere step hstep⟩

/-! ## Verdicts -/

variable (E)

/-- The ways a run of the program ends: nothing to do, nothing loaded, the whole batch worked off,
or a stop at one task. -/
inductive BatchRun (ids : List String) : Trace → Settled → Prop
  | empty : ids = [] → BatchRun ids [] (.verdict .advance)
  | notLoaded (ans : Result) (reason : String) : (∀ loaded, ans ≠ .tasksLoaded loaded) →
      BatchRun ids [⟨.loadTasks ids, ans⟩] (.verdict (.retry reason))
  | advanced (loaded : List (Option RegisterTask)) (rest : Trace) :
      WorkedOff E (canonical loaded) rest →
      BatchRun ids (⟨.loadTasks ids, .tasksLoaded loaded⟩ :: rest) (.verdict .advance)
  | stopped (loaded : List (Option RegisterTask)) (rest : Trace) (reason : String)
      (earlier : List RegisterTask) (task : RegisterTask) (later : List RegisterTask) :
      canonical loaded = earlier ++ task :: later → StoppedAt E earlier task rest →
      BatchRun ids (⟨.loadTasks ids, .tasksLoaded loaded⟩ :: rest) (.verdict (.retry reason))

theorem driveBatch_ensures (ids : List String) :
    Flow.Ensures (driveBatch E ids) fun tr r => BatchRun E ids tr (settle r) := by
  unfold driveBatch
  by_cases hids : ids = []
  · subst hids
    exact Flow.ensures_pure.mpr (.empty rfl)
  rw [if_neg (by simpa using hids)]
  refine Flow.ensures_request_bind.mpr fun ans => ?_
  cases ans with
  | tasksLoaded loaded =>
      refine Flow.Ensures.bind (driveTasks_ensures (canonical loaded)) ?_ ?_
      · rintro rest exit ⟨⟨reason, rfl⟩, earlier, task, later, htasks, hstop⟩
        exact .stopped loaded rest reason earlier task later htasks hstop
      · intro rest _ hrest
        refine Flow.ensures_pure.mpr ?_
        rw [List.append_nil]
        exact .advanced loaded rest hrest
  | storeUnavailable => exact Flow.ensures_throw.mpr (.notLoaded _ _ (by simp))
  | _ => exact Flow.ensures_throw.mpr (.notLoaded _ _ (by simp))

theorem submission_run {ids : List String} {tr : Trace} {out : Settled}
    (h : (submission E ids).Runs tr out) : BatchRun E ids tr out := by
  rw [submission, map_eq_pure_bind] at h
  obtain ⟨tr₁, tr₂, r, rfl, hbatch, hdone⟩ := Prog.runs_bind.mp h
  obtain ⟨rfl, rfl⟩ := Prog.runs_done.mp hdone
  rw [List.append_nil]
  exact driveBatch_ensures E ids tr₁ r hbatch

/-- Behind the load every operation is for a first non-terminal record. -/
theorem BatchRun.issued {ids : List String} {tr : Trace} {out : Settled} (h : BatchRun E ids tr out)
    {loaded : List (Option RegisterTask)} {rest : Trace}
    (htr : tr = ⟨.loadTasks ids, .tasksLoaded loaded⟩ :: rest) :
    ∀ step ∈ rest, ∃ task, FirstPending loaded task ∧ IssuedFor E task step.1 := by
  intro step hstep
  have hcanonical := (canonical_distinctPending loaded).mem_iff
  cases h with
  | empty _ => cases htr
  | notLoaded ans reason hans =>
      cases htr
      cases hstep
  | advanced loaded' rest' hrest =>
      cases htr
      obtain ⟨task, htask, hfor⟩ := hrest.issued step hstep
      exact ⟨task, (hcanonical task).mp htask, hfor⟩
  | stopped loaded' rest' reason earlier stop later htasks hstop =>
      cases htr
      obtain ⟨task, htask, hfor⟩ := hstop.issued step hstep
      have hmem : task ∈ canonical loaded := by
        rw [htasks, ← List.singleton_append, ← List.append_assoc]
        exact List.mem_append_left later htask
      exact ⟨task, (hcanonical task).mp hmem, hfor⟩

/-- A run starts with the load. -/
theorem BatchRun.head {ids : List String} {tr : Trace} {out : Settled} (h : BatchRun E ids tr out)
    {step : (_ : Operation) × Result} {rest : Trace} (htr : tr = step :: rest) :
    step.1 = .loadTasks ids ∧ (rest ≠ [] → ∃ loaded, step.2 = .tasksLoaded loaded) := by
  cases h with
  | empty _ => cases htr
  | notLoaded ans reason hans =>
      cases htr
      exact ⟨rfl, fun h => absurd rfl h⟩
  | advanced loaded rest' hrest =>
      cases htr
      exact ⟨rfl, fun _ => ⟨loaded, rfl⟩⟩
  | stopped loaded rest' reason earlier stop later htasks hstop =>
      cases htr
      exact ⟨rfl, fun _ => ⟨loaded, rfl⟩⟩

/-! ## What the answers say about the records

Any notion of an id that has a record, and of one whose task is finished, that the shell's answers
are about. -/

/-- A record as the batch loads it: a known one, or the task is finished. -/
def LoadedAs (Stored Finished : String → Prop) (id : String) : Option RegisterTask → Prop
  | some task => task.id = id ∧ Stored id ∧ (task.status.isTerminal = true → Finished id)
  | none => Finished id

/-- A load reports records as they are, and an acknowledged mark finishes its task. -/
structure Learns (Stored Finished : String → Prop) (learned : Operation → Result → Prop) :
    Prop where
  loaded : ∀ {ids tasks}, learned (.loadTasks ids) (.tasksLoaded tasks) →
    List.Forall₂ (LoadedAs Stored Finished) ids tasks
  marked : ∀ {op id}, op.terminalMark = some id → learned op .persisted → Finished id

section Learns

variable {Stored Finished : String → Prop} {learned : Operation → Result → Prop} {E}

/-- Behind the load, an operation that carries an id is for a task that has a record. -/
theorem BatchRun.stored {ids : List String} {before after : Trace} {op : Operation} {ans : Result}
    {out : Settled} (h : Learns Stored Finished learned)
    (hrun : BatchRun E ids (before ++ ⟨op, ans⟩ :: after) out)
    (hbefore : ∀ step ∈ before, learned step.1 step.2) :
    op = .loadTasks ids ∨ (∀ ids', op ≠ .loadTasks ids') ∧
      ∀ id, op.taskId = some id → Stored id := by
  cases before with
  | nil => exact .inl (hrun.head E rfl).1
  | cons load before =>
      obtain ⟨hload, hloaded⟩ := hrun.head E rfl
      obtain ⟨loaded, hans⟩ := hloaded (by simp)
      obtain ⟨loadOp, loadAns⟩ := load
      simp only at hload hans
      subst hload hans
      have hissued := hrun.issued E rfl ⟨op, ans⟩ (List.mem_append_right _ List.mem_cons_self)
      obtain ⟨task, ⟨pre, post, rfl, -⟩, hfor⟩ := hissued
      obtain ⟨id, -, hid, hstored, -⟩ :=
        exists_of_forall₂_right (h.loaded (hbefore _ List.mem_cons_self)) (b := some task) (by simp)
      refine .inr ⟨?_, ?_⟩
      · rintro ids' rfl
        cases hfor
      · intro id' hid'
        rw [hfor.taskId_eq E hid', hid]
        exact hstored

/-- A mark of a worked-off task was acknowledged, so the task has finished. -/
theorem finished_of_marked {tr : Trace} {id : String} (h : Learns Stored Finished learned)
    (hmark : (id, Result.persisted) ∈ marks tr) (hlearned : ∀ step ∈ tr, learned step.1 step.2) :
    Finished id := by
  obtain ⟨⟨op, ans⟩, hstep, hid⟩ := List.mem_filterMap.mp hmark
  obtain ⟨id', hterminal, hpair⟩ := Option.map_eq_some_iff.mp hid
  obtain ⟨rfl, rfl⟩ := Prod.mk.inj hpair
  exact h.marked hterminal (hlearned _ hstep)

/-- After an advance every envelope of the batch belongs to a finished task. -/
theorem BatchRun.finished {ids : List String} {tr : Trace} (h : Learns Stored Finished learned)
    (hrun : BatchRun E ids tr (.verdict .advance)) (hlearned : ∀ step ∈ tr, learned step.1 step.2) :
    ∀ id ∈ ids, Finished id := by
  intro id hid
  cases hrun with
  | empty hids =>
      rw [hids] at hid
      cases hid
  | advanced loaded rest hrest =>
      obtain ⟨hload, hlearned⟩ := List.forall_mem_cons.mp hlearned
      obtain ⟨found, hfound, hread⟩ := exists_of_forall₂_left (h.loaded hload) hid
      cases found with
      | none => exact hread
      | some task =>
          obtain ⟨rfl, -, hfinished⟩ := hread
          by_cases hterminal : task.status.isTerminal = true
          · exact hfinished hterminal
          · -- pending when it was loaded: the first record of its id was marked
            obtain ⟨first, hfirst, hsame⟩ := exists_firstPending hfound (by simpa using hterminal)
            have hcanonical : first ∈ canonical loaded :=
              ((canonical_distinctPending loaded).mem_iff first).mpr hfirst
            have hmark : (first.id, Result.persisted) ∈ marks rest := by
              rw [hrest.marked]
              exact List.mem_map.mpr ⟨first, hcanonical, rfl⟩
            rw [← hsame]
            exact finished_of_marked h hmark hlearned

/-- The program ends with a verdict. -/
theorem BatchRun.verdict {ids : List String} {tr : Trace} {out : Settled}
    (h : BatchRun E ids tr out) : ∃ v, out = .verdict v := by
  cases h with
  | empty _ => exact ⟨_, rfl⟩
  | notLoaded ans reason _ => exact ⟨_, rfl⟩
  | advanced loaded rest _ => exact ⟨_, rfl⟩
  | stopped loaded rest reason earlier task later _ _ => exact ⟨_, rfl⟩

end Learns

/-- The answers the terminal marks of one task id got. -/
def marksOf (id : String) (tr : Trace) : List Result :=
  (marks tr).filterMap fun mark => if mark.1 = id then some mark.2 else none

variable {E}

theorem marksOf_append (id : String) (tr tr' : Trace) :
    marksOf id (tr ++ tr') = marksOf id tr ++ marksOf id tr' := by
  rw [marksOf, marks_append, List.filterMap_append, marksOf, marksOf]

/-- A trace of other tasks has no mark of this id. -/
theorem marksOf_eq_nil {id : String} {tr : Trace}
    (h : ∀ step ∈ tr, step.1.taskId ≠ some id) : marksOf id tr = [] := by
  rw [marksOf, List.filterMap_eq_nil_iff]
  intro mark hmark
  obtain ⟨step, hstep, hid⟩ := List.mem_filterMap.mp hmark
  obtain ⟨id', hterminal, rfl⟩ := Option.map_eq_some_iff.mp hid
  have hne : id' ≠ id := by
    rintro rfl
    exact h step hstep (Operation.taskId_of_terminalMark hterminal)
  rw [if_neg hne]

/-- With distinct ids, one acknowledged mark a task is exactly one for each of them. -/
theorem WorkedOff.marksOf_eq {tasks : List RegisterTask} {tr : Trace} (h : WorkedOff E tasks tr)
    (hnodup : (tasks.map RegisterTask.id).Nodup) (htask : task ∈ tasks) :
    marksOf task.id tr = [.persisted] := by
  rw [marksOf, h.marked]
  clear h
  induction tasks with
  | nil => cases htask
  | cons t tasks ih =>
      rw [List.map_cons, List.nodup_cons] at hnodup
      rcases List.mem_cons.mp htask with rfl | htask
      · have hrest : (tasks.map fun t => (t.id, Result.persisted)).filterMap
            (fun mark => if mark.1 = task.id then some mark.2 else none) = [] := by
          rw [List.filterMap_eq_nil_iff]
          intro mark hmark
          obtain ⟨t, ht, rfl⟩ := List.mem_map.mp hmark
          have hne : t.id ≠ task.id := fun heq =>
            hnodup.1 (heq ▸ List.mem_map_of_mem ht)
          rw [if_neg hne]
        simp [hrest]
      · have hne : t.id ≠ task.id := fun heq =>
          hnodup.1 (heq ▸ List.mem_map_of_mem htask)
        simpa [hne] using ih hnodup.2 htask

theorem DistinctPending.id_ne_of_later {loaded : List (Option RegisterTask)}
    {earlier later : List RegisterTask} {t t' : RegisterTask}
    (h : DistinctPending loaded (earlier ++ task :: later)) (ht : t ∈ earlier ++ [task])
    (ht' : t' ∈ later) : t.id ≠ t'.id := by
  have hnodup := h.distinct
  rw [← List.singleton_append, ← List.append_assoc, List.map_append] at hnodup
  intro heq
  exact List.disjoint_of_nodup_append hnodup (List.mem_map_of_mem ht)
    (heq ▸ List.mem_map_of_mem ht')

variable (E)

/-- A retry is a clean prefix: the run stopped at one task, every earlier one has exactly one
acknowledged terminal mark, and nothing was issued for a later one. -/
structure CleanPrefix (loaded : List (Option RegisterTask)) (rest : Trace)
    (earlier : List RegisterTask) (stop : RegisterTask) (later : List RegisterTask) : Prop where
  tasks : DistinctPending loaded (earlier ++ stop :: later)
  marked_once : ∀ task ∈ earlier, marksOf task.id rest = [.persisted]
  issued : ∀ step ∈ rest, ∃ task ∈ earlier ++ [stop], IssuedFor E task step.1
  none_later : ∀ step ∈ rest, ∀ task ∈ later, step.1.taskId ≠ some task.id

theorem StoppedAt.cleanPrefix {loaded : List (Option RegisterTask)} {rest : Trace}
    {earlier later : List RegisterTask} {stop : RegisterTask}
    (htasks : DistinctPending loaded (earlier ++ stop :: later))
    (h : StoppedAt E earlier stop rest) : CleanPrefix E loaded rest earlier stop later where
  tasks := htasks
  marked_once := by
    intro task htask
    have hnodup := htasks.distinct
    rw [List.map_append, List.map_cons] at hnodup
    obtain ⟨before, here, rfl, hbefore, hhere⟩ := h.split
    have hnone : marksOf task.id here = [] := by
      apply marksOf_eq_nil
      intro step hstep hid
      have heq : task.id = stop.id := (hhere step hstep).taskId_eq E hid
      exact List.disjoint_of_nodup_append hnodup (List.mem_map_of_mem htask)
        (heq ▸ List.mem_cons_self)
    rw [marksOf_append, hnone, List.append_nil]
    exact hbefore.marksOf_eq (List.Nodup.of_append_left hnodup) htask
  issued := h.issued
  none_later := by
    intro step hstep task htask hid
    obtain ⟨t, ht, hfor⟩ := h.issued step hstep
    exact htasks.id_ne_of_later ht htask (hfor.taskId_eq E hid).symm

/-- What a settled run says. -/
structure VerdictSound (ids : List String) (tr : Trace) (out : Settled) : Prop where
  /-- No `unreachable!` arm is hit. -/
  settled : ∃ v, out = .verdict v
  /-- Checks, sends and marks are for the first non-terminal loaded record of an id. -/
  issued : ∀ step ∈ tr, step.1 = .loadTasks ids ∨ ∃ loaded task,
    ⟨.loadTasks ids, .tasksLoaded loaded⟩ ∈ tr ∧ FirstPending loaded task ∧ IssuedFor E task step.1
  /-- After an advance every distinct non-terminal task has its one mark, acknowledged, in order. -/
  advance : out = .verdict .advance → ids = [] ∧ tr = [] ∨ ∃ loaded tasks rest,
    tr = ⟨.loadTasks ids, .tasksLoaded loaded⟩ :: rest ∧ DistinctPending loaded tasks ∧
      marks rest = tasks.map fun task => (task.id, .persisted)
  retry : ∀ reason loaded rest, out = .verdict (.retry reason) →
    tr = ⟨.loadTasks ids, .tasksLoaded loaded⟩ :: rest →
      ∃ earlier stop later, CleanPrefix E loaded rest earlier stop later

/-- Advance is sound and retry is a clean prefix, in every run and for every shell. -/
theorem submission_verdictSound (ids : List String) (tr : Trace) (out : Settled)
    (h : (submission E ids).Runs tr out) : VerdictSound E ids tr out := by
  have hrun := submission_run E h
  have hissued : ∀ loaded rest, tr = ⟨.loadTasks ids, .tasksLoaded loaded⟩ :: rest →
      ∀ step ∈ tr, step.1 = .loadTasks ids ∨ ∃ loaded task,
        ⟨.loadTasks ids, .tasksLoaded loaded⟩ ∈ tr ∧ FirstPending loaded task ∧
          IssuedFor E task step.1 := by
    rintro loaded rest rfl step hstep
    rcases List.mem_cons.mp hstep with rfl | hstep
    · exact Or.inl rfl
    · obtain ⟨task, hfirst, hfor⟩ := hrun.issued E rfl step hstep
      exact Or.inr ⟨loaded, task, List.mem_cons_self, hfirst, hfor⟩
  cases hrun with
  | empty hids =>
      exact ⟨⟨_, rfl⟩, by simp, fun _ => Or.inl ⟨hids, rfl⟩, fun _ _ _ hout => by cases hout⟩
  | notLoaded ans reason hans =>
      refine ⟨⟨_, rfl⟩, by simp, (fun hout => by cases hout), ?_⟩
      intro _ loaded rest _ htr
      cases htr
      exact absurd rfl (hans loaded)
  | advanced loaded rest hrest =>
      exact ⟨⟨_, rfl⟩, hissued loaded rest rfl, fun _ => Or.inr ⟨loaded, _, rest, rfl,
        canonical_distinctPending loaded, hrest.marked⟩, fun _ _ _ hout => by cases hout⟩
  | stopped loaded rest reason earlier stop later hcanonical hstop =>
      refine ⟨⟨_, rfl⟩, hissued loaded rest rfl, (fun hout => by cases hout), ?_⟩
      intro _ loaded' rest' _ htr
      cases htr
      exact ⟨earlier, stop, later,
        hstop.cleanPrefix E (hcanonical ▸ canonical_distinctPending loaded)⟩

/-- A stored refer of one member. -/
def referRecord (id : String) (status : TaskStatus) : RegisterTask where
  id := id
  status := status
  kind := .refer
  rpId := "example.com"
  metadata := "0x"
  contentHash := "0x"
  groupPublicKey := "0x04aa"
  groupProof := none
  members := [{
    publicKey := "0x04bb", attestation := "0x", credentialId := "0x"
    authenticatorAttachment := "", transports := ""
    proof := ⟨⟨"0x", by decide⟩, ⟨"", by decide⟩, 0, 0, "0x", "0x"⟩ }]
  txHash := none
  onChainId := none
  error := none
  retries := 0
  createdAt := 0
  admitted := true

/-- A batch with a repeated, a terminal and an unknown id: the first task is resent after a revert
and found on-chain, the run stops at the last one, whose reconciliation read fails. -/
theorem submission_verdictSound_mixed :
    ∃ tr, (submission Contract.Sample.evm ["a", "b", "a", "c", "d"]).Runs tr
        (.verdict (.retry "chain reconciliation failed")) ∧
      VerdictSound Contract.Sample.evm ["a", "b", "a", "c", "d"] tr
        (.verdict (.retry "chain reconciliation failed")) := by
  let a := referRecord "a" .pending
  let d := referRecord "d" .pending
  let tr : Trace :=
    [⟨.loadTasks ["a", "b", "a", "c", "d"],
        .tasksLoaded [some a, some (referRecord "b" .done), some a, none, some d]⟩,
      ⟨.checkReferenced "0x04aa" "0x04bb", .contentChecked false⟩,
      ⟨.submitRegister a, .tx (.reverted "0x01")⟩,
      ⟨.checkReferenced "0x04aa" "0x04bb", .contentChecked false⟩,
      ⟨.submitRegister a, .tx (.sendFailed (.reverted "execution reverted 0x40709c5d"))⟩,
      ⟨.checkReferenced "0x04aa" "0x04bb", .contentChecked true⟩,
      ⟨.markDone "a" none none, .persisted⟩,
      ⟨.checkReferenced "0x04aa" "0x04bb", .chainReadFailed⟩,
      ⟨.recordTransientFailure "d" "chain reconciliation RPC temporarily unavailable", .persisted⟩]
  have hrun : (submission Contract.Sample.evm ["a", "b", "a", "c", "d"]).Runs tr
      (.verdict (.retry "chain reconciliation failed")) := by
    rw [Prog.runs_iff_replay]
    rfl
  exact ⟨tr, hrun, submission_verdictSound _ _ _ _ hrun⟩

end P256Index.Registrar.Submission
