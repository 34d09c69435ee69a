import P256Index.Registrar.Evidence

/-!
# A transaction that may still land

A send whose receipt did not come back may land later. The program ends such a run with a retry, so
the envelope stays; but it feeds the error of the receipt wait into the classifier of failed sends,
and two of its three classes can end the task there and then. `uncertain_spared_iff` says which
errors, and which answer to the check that follows, leave the task unmarked.
-/

namespace P256Index.Registrar.Submission

variable {E : Contract.Evm} {task : RegisterTask} {α : Type}

/-! ## Marks of failure after an uncertain receipt -/

/-- The send of a task whose receipt did not come back. -/
def uncertainSend (task : RegisterTask) (error : ChainError) : Step :=
  ⟨.submitRegister task, .tx (.receiptUncertain error)⟩

/-- No mark of failure for this task. -/
def Unfailed (id : String) (tr : Trace) : Prop :=
  ∀ step ∈ tr, ∀ kind message, step.1 ≠ .markFailed id kind message

/-- The error is transient, or it says that the write exists and the check that follows does not
find it missing. -/
def Spared (error : ChainError) (after : Trace) : Prop :=
  match classifyChainError error with
  | .transient => True
  | .alreadyExists => ∀ step ∈ after.head?, step.2 ≠ .contentChecked false
  | .poison => False

/-- After an uncertain receipt the part exits with a retry, and it leaves the task unmarked exactly
where it is spared. -/
def Told (tr : Trace) (r : Except Halt α) : Prop :=
  ∀ before task error after, tr = before ++ uncertainSend task error :: after →
    (∃ reason, r = .error (retry reason)) ∧ (Unfailed task.id tr ↔ Spared error after)

theorem unfailed_append {id : String} {tr tr' : Trace} :
    Unfailed id (tr ++ tr') ↔ Unfailed id tr ∧ Unfailed id tr' :=
  List.forall_mem_append

theorem unfailed_cons {id : String} {step : Step} {tr : Trace}
    (h : ∀ kind message, step.1 ≠ .markFailed id kind message) :
    Unfailed id (step :: tr) ↔ Unfailed id tr := by
  rw [Unfailed, List.forall_mem_cons]
  exact and_iff_right h

theorem not_unfailed_singleton {id message : String} {kind : FailureKind} {ans : Result} :
    ¬ Unfailed id [⟨.markFailed id kind message, ans⟩] :=
  fun h => h _ List.mem_cons_self kind message rfl

theorem uncertainSend_not_mem {tr : Trace} (h : ∀ step ∈ tr, step.1.sentId = none)
    (task : RegisterTask) (error : ChainError) : uncertainSend task error ∉ tr := by
  intro hmem
  cases h _ hmem

/-- Nothing is said about a trace without such a send. -/
theorem told_of_not_mem {tr : Trace} {r : Except Halt α}
    (h : ∀ task error, uncertainSend task error ∉ tr) : Told tr r := by
  intro before task error after heq
  exact absurd (by rw [heq]; simp) (h task error)

/-- What came before neither had such a send nor marked the task it is about. -/
theorem Told.append {tr tr' : Trace} {r : Except Halt α} (h : Told tr' r)
    (hbefore : ∀ task error, uncertainSend task error ∉ tr)
    (hmarks : ∀ task error, uncertainSend task error ∈ tr' → Unfailed task.id tr) :
    Told (tr ++ tr') r := by
  intro before task error after heq
  rcases List.append_eq_append_iff.mp heq with ⟨middle, rfl, hlater⟩ | ⟨middle, hfirst, hrest⟩
  · obtain ⟨hretry, hiff⟩ := h middle task error after hlater
    refine ⟨hretry, ?_⟩
    have hquiet := hmarks task error (by rw [hlater]; simp)
    rw [unfailed_append, and_iff_right hquiet]
    exact hiff
  · cases middle with
    | nil =>
        have hlater : tr' = uncertainSend task error :: after := hrest.symm
        obtain ⟨hretry, hiff⟩ := h [] task error after hlater
        have hquiet := hmarks task error (by rw [hlater]; simp)
        refine ⟨hretry, ?_⟩
        rw [unfailed_append, and_iff_right hquiet]
        exact hiff
    | cons step middle =>
        obtain ⟨rfl, -⟩ := List.cons.inj hrest
        exact absurd (by rw [hfirst]; simp) (hbefore task error)

/-! ## The stages -/

/-- One step, and an exit is a retry. -/
theorem persist_ensures (op : Operation) (reason : String) :
    Flow.Ensures (persist op reason) fun tr r =>
      (∃ ans, tr = [⟨op, ans⟩]) ∧ ∀ e, r = .error e → ∃ reason, e = retry reason := by
  refine Flow.ensures_request_bind.mpr fun ans => ?_
  cases ans with
  | persisted => exact Flow.ensures_pure.mpr ⟨⟨_, rfl⟩, by simp⟩
  | storeUnavailable => exact Flow.ensures_throw.mpr ⟨⟨_, rfl⟩, by simp⟩
  | _ => exact Flow.ensures_throw.mpr ⟨⟨_, rfl⟩, by simp⟩

/-- What a check leaves: its own operation first, then at most a recorded failure. -/
structure Checked (op : Operation) (tr : Trace) (r : Except Halt ContentState) : Prop where
  shape : ∃ ans rest, tr = ⟨op, ans⟩ :: rest ∧
    (∀ step ∈ rest, ∃ id message, step.1 = .recordTransientFailure id message) ∧
      (r = .ok .absent ↔ ans = .contentChecked false)
  through : ∀ state, r = .ok state → state = .registered ∨ state = .absent
  exits : ∀ e, r = .error e → ∃ reason, e = retry reason

theorem checkContent_ensures {op : Operation} (hop : checkOperation E task = some op) :
    Flow.Ensures (checkContent E task) (Checked op) := by
  unfold checkContent
  rw [hop]
  refine Flow.ensures_request_bind.mpr fun ans => ?_
  cases ans with
  | contentChecked answer =>
      cases answer with
      | true => exact Flow.ensures_pure.mpr ⟨⟨_, [], rfl, by simp, by simp⟩, by simp, by simp⟩
      | false => exact Flow.ensures_pure.mpr ⟨⟨_, [], rfl, by simp, by simp⟩, by simp, by simp⟩
  | chainReadFailed =>
      refine Flow.Ensures.bind (persist_ensures _ _) ?_ ?_
      · rintro tr e ⟨⟨ans, rfl⟩, hretry⟩
        exact ⟨⟨_, _, rfl, by simp, by simp⟩, by simp, by simpa using hretry e rfl⟩
      · rintro tr _ ⟨⟨ans, rfl⟩, -⟩
        exact Flow.ensures_throw.mpr ⟨⟨_, _, rfl, by simp, by simp⟩, by simp, by simp⟩
  | _ => exact Flow.ensures_throw.mpr ⟨⟨_, [], rfl, by simp, by simp⟩, by simp, by simp⟩

/-- A check sends nothing and marks nothing. -/
theorem Checked.quiet {op : Operation} {tr : Trace} {r : Except Halt ContentState}
    (h : Checked op tr r) (hop : checkOperation E task = some op) :
    (∀ step ∈ tr, step.1.sentId = none) ∧ ∀ id, Unfailed id tr := by
  obtain ⟨⟨ans, rest, rfl, hrest, -⟩, -, -⟩ := h
  obtain ⟨-, hquiet⟩ : guard E [] op ∧ op.sentId = none := checkOperation_quiet hop
  have hmark : ∀ id kind message, op ≠ .markFailed id kind message := by
    rintro id kind message rfl
    cases (issuedFor_checkOperation E hop).2
  refine ⟨List.forall_mem_cons.mpr ⟨hquiet, ?_⟩, fun id => List.forall_mem_cons.mpr ⟨hmark id, ?_⟩⟩
  · intro step hstep
    obtain ⟨id, message, heq⟩ := hrest step hstep
    rw [heq]
    rfl
  · intro step hstep kind message
    obtain ⟨id, text, heq⟩ := hrest step hstep
    rw [heq]
    simp

/-- A persisted operation other than a send says nothing about a receipt. -/
theorem persist_told {op : Operation} (reason : String) (hop : op.sentId = none) :
    Flow.Ensures (persist op reason) Told := by
  refine (persist_ensures op reason).mono ?_
  rintro tr r ⟨⟨ans, rfl⟩, -⟩
  exact told_of_not_mem (uncertainSend_not_mem (by simpa using hop))

/-- What the classifier leaves after a failed send or an uncertain receipt. -/
structure Classified (task : RegisterTask) (error : ChainError) (tr : Trace) (r : Except Halt α) :
    Prop where
  unsent : ∀ step ∈ tr, step.1.sentId = none
  exits : ∀ e, r = .error e → ∃ reason, e = retry reason
  spared : Unfailed task.id tr ↔ Spared error tr

theorem classifyTask_ensures (error : ChainError) (hcheck : checkOperation E task ≠ none) :
    Flow.Ensures (classifyTask E task error) (Classified task error) := by
  obtain ⟨op, hop⟩ := Option.ne_none_iff_exists'.mp hcheck
  unfold classifyTask
  cases hclass : classifyChainError error with
  | transient =>
      refine (persist_ensures _ _).mono ?_
      rintro tr r ⟨⟨ans, rfl⟩, hretry⟩
      refine ⟨by simp [Operation.sentId], hretry, ?_⟩
      simp [Spared, hclass, Unfailed]
  | poison =>
      refine (persist_ensures _ _).mono ?_
      rintro tr r ⟨⟨ans, rfl⟩, hretry⟩
      refine ⟨by simp [Operation.sentId], hretry, ?_⟩
      simp [Spared, hclass, not_unfailed_singleton]
  | alreadyExists =>
      refine Flow.Ensures.bind (checkContent_ensures hop) ?_ ?_
      · intro tr e hchecked
        obtain ⟨hunsent, hunfailed⟩ := hchecked.quiet hop
        refine ⟨hunsent, by simpa using hchecked.exits e rfl, ?_⟩
        obtain ⟨ans, rest, rfl, -, habsent⟩ := hchecked.shape
        simpa [Spared, hclass, hunfailed] using habsent
      · intro tr state hchecked
        obtain ⟨hunsent, hunfailed⟩ := hchecked.quiet hop
        obtain ⟨ans, rest, rfl, -, habsent⟩ := hchecked.shape
        -- the answer decides between a mark as done and a mark as failed
        rcases hchecked.through state rfl with rfl | rfl
        · refine (persist_ensures _ _).mono ?_
          rintro tr r ⟨⟨mark, rfl⟩, hretry⟩
          refine ⟨List.forall_mem_append.mpr ⟨hunsent, by simp [Operation.sentId]⟩, hretry, ?_⟩
          rw [unfailed_append, and_iff_right (hunfailed task.id)]
          simpa [Spared, hclass, Unfailed] using habsent
        · refine (persist_ensures _ _).mono ?_
          rintro tr r ⟨⟨mark, rfl⟩, hretry⟩
          refine ⟨List.forall_mem_append.mpr ⟨hunsent, by simp [Operation.sentId]⟩, hretry, ?_⟩
          rw [unfailed_append, and_iff_right (hunfailed task.id)]
          simpa [Spared, hclass, not_unfailed_singleton] using habsent

theorem sendFailed_told (error : ChainError) (hcheck : checkOperation E task ≠ none) :
    Flow.Ensures (sendFailed E task error) Told := by
  refine Flow.Ensures.bind (classifyTask_ensures error hcheck) ?_ ?_
  · intro tr e h
    exact told_of_not_mem (uncertainSend_not_mem h.unsent)
  · intro tr _ h
    have hquiet : ∀ r, Told (tr ++ []) (r : Except Halt Unit) := by
      intro r
      rw [List.append_nil]
      exact told_of_not_mem (uncertainSend_not_mem h.unsent)
    split
    · exact Flow.ensures_throw.mpr (hquiet _)
    · exact Flow.ensures_pure.mpr (hquiet _)

theorem receiptUncertain_ensures (error : ChainError) (hcheck : checkOperation E task ≠ none) :
    Flow.Ensures (receiptUncertain E task error) fun tr r =>
      Classified task error tr r ∧ ∃ reason, r = .error (retry reason) := by
  refine Flow.Ensures.bind (classifyTask_ensures error hcheck) ?_ ?_
  · intro tr e h
    obtain ⟨reason, rfl⟩ := h.exits e rfl
    exact ⟨⟨h.unsent, by simp, h.spared⟩, reason, rfl⟩
  · intro tr _ h
    refine Flow.ensures_throw.mpr ?_
    rw [List.append_nil]
    exact ⟨⟨h.unsent, by simp, h.spared⟩, _, rfl⟩

/-- The send itself, its receipt uncertain, in front of what the classifier left. -/
theorem Classified.told {error : ChainError} {tr : Trace} {r : Except Halt α}
    (h : Classified task error tr r) (hretry : ∃ reason, r = .error (retry reason)) :
    Told (uncertainSend task error :: tr) r := by
  intro before task' error' after heq
  cases before with
  | nil =>
      obtain ⟨hhead, rfl⟩ := List.cons.inj heq
      obtain ⟨rfl, rfl⟩ : task = task' ∧ error = error' := by
        simpa [uncertainSend] using hhead
      refine ⟨hretry, ?_⟩
      rw [unfailed_cons (by simp [uncertainSend])]
      exact h.spared
  | cons step before =>
      obtain ⟨-, rfl⟩ := List.cons.inj heq
      exact absurd (by simp) (uncertainSend_not_mem h.unsent task' error')

/-- A send that is not an uncertain receipt, in front of what follows it. -/
theorem Told.cons_send {ans : Result} {tr : Trace} {r : Except Halt α} (h : Told tr r)
    (hans : ∀ error, ans ≠ .tx (.receiptUncertain error)) :
    Told (⟨.submitRegister task, ans⟩ :: tr) r := by
  show Told ([_] ++ tr) r
  refine h.append ?_ ?_
  · intro task' error hmem
    have hhead := List.mem_singleton.mp hmem
    simp only [uncertainSend, Sigma.mk.injEq, heq_eq_eq] at hhead
    exact hans error hhead.2.symm
  · intro task' error _
    simp [Unfailed]

/-- A send, and the stage its outcome leads to. -/
theorem submit_told {f : TxOutcome → SubmissionFlow Unit} (hcheck : checkOperation E task ≠ none)
    (huncertain : ∀ error, f (.receiptUncertain error) = receiptUncertain E task error)
    (hf : ∀ outcome, (∀ error, outcome ≠ .receiptUncertain error) → Flow.Ensures (f outcome) Told) :
    Flow.Ensures (submit task >>= f) Told := by
  have hnone : ∀ {ans : Result}, (∀ error, ans ≠ .tx (.receiptUncertain error)) →
      ∀ r : Except Halt Unit, Told [⟨.submitRegister task, ans⟩] r := by
    intro ans hans r
    exact Told.cons_send (told_of_not_mem (by simp)) hans
  unfold submit
  rw [bind_assoc]
  refine Flow.ensures_request_bind.mpr fun ans => ?_
  cases ans with
  | tx outcome =>
      cases outcome with
      | noncePoolUnavailable => exact Flow.ensures_throw.mpr (hnone (by simp) _)
      | receiptUncertain error =>
          show Flow.Ensures (f (.receiptUncertain error)) _
          rw [huncertain error]
          exact (receiptUncertain_ensures error hcheck).mono fun tr r h => h.1.told h.2
      | confirmed txHash onChainId =>
          exact (hf _ (by simp)).mono fun tr r h => h.cons_send (by simp)
      | reverted txHash => exact (hf _ (by simp)).mono fun tr r h => h.cons_send (by simp)
      | sendFailed error => exact (hf _ (by simp)).mono fun tr r h => h.cons_send (by simp)
  | _ => exact Flow.ensures_throw.mpr (hnone (by simp) _)

/-- A check, and the stage its answer leads to. -/
theorem checkContent_told {f : ContentState → SubmissionFlow Unit}
    (hcheck : checkOperation E task ≠ none) (hregistered : Flow.Ensures (f .registered) Told)
    (habsent : Flow.Ensures (f .absent) Told) :
    Flow.Ensures (checkContent E task >>= f) Told := by
  obtain ⟨op, hop⟩ := Option.ne_none_iff_exists'.mp hcheck
  refine Flow.Ensures.bind (checkContent_ensures hop) ?_ ?_
  · intro tr e h
    exact told_of_not_mem (uncertainSend_not_mem (h.quiet hop).1)
  · intro tr state h
    obtain ⟨hunsent, hunfailed⟩ := h.quiet hop
    have hstage : Flow.Ensures (f state) Told := by
      rcases h.through state rfl with rfl | rfl
      · exact hregistered
      · exact habsent
    exact hstage.mono fun rest r hr =>
      hr.append (uncertainSend_not_mem hunsent) fun task' _ _ => hunfailed task'.id

theorem registerReverted_told (hcheck : checkOperation E task ≠ none) :
    Flow.Ensures (registerReverted E task) Told := by
  refine checkContent_told hcheck (persist_told _ rfl) ?_
  refine submit_told hcheck (fun _ => rfl) ?_
  intro outcome hother
  cases outcome with
  | confirmed txHash onChainId => exact persist_told _ rfl
  | reverted txHash => exact persist_told _ rfl
  | receiptUncertain error => exact absurd rfl (hother error)
  | sendFailed error => exact sendFailed_told error hcheck
  | noncePoolUnavailable => exact Flow.ensures_throw.mpr (told_of_not_mem (by simp))

theorem submitStage_told (hcheck : checkOperation E task ≠ none) :
    Flow.Ensures (submitStage E task) Told := by
  refine submit_told hcheck (fun _ => rfl) ?_
  intro outcome hother
  cases outcome with
  | confirmed txHash onChainId => exact persist_told _ rfl
  | reverted txHash => exact registerReverted_told hcheck
  | receiptUncertain error => exact absurd rfl (hother error)
  | sendFailed error => exact sendFailed_told error hcheck
  | noncePoolUnavailable => exact Flow.ensures_throw.mpr (told_of_not_mem (by simp))

theorem driveTask_told : Flow.Ensures (driveTask E task) Told := by
  cases hcheck : checkOperation E task with
  | some op =>
      have hsome : checkOperation E task ≠ none := by simp [hcheck]
      exact checkContent_told hsome (persist_told _ rfl) (submitStage_told hsome)
  | none =>
      -- a record that cannot be encoded is marked without a send
      unfold driveTask checkContent
      rw [hcheck]
      exact persist_told _ rfl

/-! ## The batch -/

/-- The operations of one task leave the record of another unmarked. -/
theorem unfailed_of_issuedFor {id : String} {tr : Trace} (h : ∀ step ∈ tr, IssuedFor E task step.1)
    (hid : id ≠ task.id) : Unfailed id tr := by
  intro step hstep kind message heq
  exact hid ((h step hstep).taskId_eq E (by rw [heq]; rfl))

theorem driveTasks_told {tasks : List RegisterTask} (hnodup : (tasks.map (·.id)).Nodup) :
    Flow.Ensures (driveTasks E tasks) Told := by
  induction tasks with
  | nil => exact Flow.ensures_pure.mpr (told_of_not_mem (by simp))
  | cons task tasks ih =>
      obtain ⟨hfresh, hnodup⟩ := List.nodup_cons.mp hnodup
      have hlater := Flow.Ensures.and (ih hnodup) (driveTasks_ensures tasks)
      refine Flow.Ensures.bind (Flow.Ensures.and driveTask_told driveTask_stage) ?_ ?_
      · intro tr e h
        exact h.1
      · rintro tr _ ⟨htold, hissued, -⟩
        refine hlater.mono ?_
        rintro rest r ⟨hrest, hshape⟩
        refine hrest.append ?_ ?_
        · -- an uncertain receipt would have ended the first task
          intro sent error hmem
          obtain ⟨before, after, heq⟩ := List.append_of_mem hmem
          obtain ⟨⟨reason, hexit⟩, -⟩ := htold before sent error after heq
          cases hexit
        · intro sent error hmem
          refine unfailed_of_issuedFor hissued ?_
          have hmem' : sent ∈ tasks := by
            cases r with
            | ok _ =>
                obtain ⟨t, ht, hfor⟩ := hshape.issued _ hmem
                exact (show sent = t from hfor) ▸ ht
            | error e =>
                obtain ⟨-, earlier, stop, later, rfl, hstop⟩ := hshape
                obtain ⟨t, ht, hfor⟩ := hstop.issued _ hmem
                have hsent : sent = t := hfor
                subst hsent
                simp only [List.mem_append, List.mem_cons] at ht ⊢
                tauto
          intro hid
          exact hfresh (List.mem_map.mpr ⟨sent, hmem', hid⟩)

theorem driveBatch_told (ids : List String) : Flow.Ensures (driveBatch E ids) Told := by
  unfold driveBatch
  split
  · exact Flow.ensures_pure.mpr (told_of_not_mem (by simp))
  refine Flow.ensures_request_bind.mpr fun ans => ?_
  have hload : ∀ {tr : Trace} {r : Except Halt BatchVerdict}, Told tr r →
      Told (⟨.loadTasks ids, ans⟩ :: tr) r := by
    intro tr r h
    show Told ([_] ++ tr) r
    refine h.append ?_ ?_
    · exact uncertainSend_not_mem (by simp [Operation.sentId])
    · intro sent error _
      simp [Unfailed]
  have hnothing : ∀ r : Except Halt BatchVerdict, Told [⟨.loadTasks ids, ans⟩] r :=
    fun r => hload (told_of_not_mem (by simp))
  cases ans with
  | tasksLoaded loaded =>
      have hnodup := (canonical_distinctPending loaded).distinct
      refine Flow.Ensures.bind (driveTasks_told hnodup) ?_ ?_
      · intro tr e h
        refine hload ?_
        intro before sent error after heq
        obtain ⟨⟨reason, hexit⟩, hiff⟩ := h before sent error after heq
        exact ⟨⟨reason, by rw [Except.error.inj hexit]⟩, hiff⟩
      · intro tr _ h
        refine Flow.ensures_pure.mpr (hload ?_)
        rw [List.append_nil]
        intro before sent error after heq
        obtain ⟨⟨reason, hexit⟩, -⟩ := h before sent error after heq
        cases hexit
  | storeUnavailable => exact Flow.ensures_throw.mpr (hnothing _)
  | _ => exact Flow.ensures_throw.mpr (hnothing _)

/-- In every run, after an uncertain receipt: the verdict is a retry, and the task is left unmarked
exactly where it is spared. -/
theorem uncertain_spared_iff (ids : List String) (tr : Trace) (out : Settled)
    (hrun : (submission E ids).Runs tr out) (before : Trace) (task : RegisterTask)
    (error : ChainError) (after : Trace)
    (htr : tr = before ++ ⟨.submitRegister task, .tx (.receiptUncertain error)⟩ :: after) :
    (∃ reason, out = .verdict (.retry reason)) ∧
      ((∀ step ∈ tr, ∀ kind message, step.1 ≠ .markFailed task.id kind message) ↔
        Spared error after) := by
  rw [submission, map_eq_pure_bind] at hrun
  obtain ⟨tr₁, tr₂, r, rfl, hbatch, hdone⟩ := Prog.runs_bind.mp hrun
  obtain ⟨rfl, rfl⟩ := Prog.runs_done.mp hdone
  rw [List.append_nil] at htr ⊢
  obtain ⟨⟨reason, rfl⟩, hiff⟩ := driveBatch_told ids tr₁ r hbatch before task error after htr
  exact ⟨⟨reason, rfl⟩, hiff⟩

/-- The receipt wait timed out on a transient error: the failure is recorded and the batch retried.
-/
theorem uncertain_spared_unavailable :
    let a := referRecord "a" .pending
    let sent : Trace := [⟨.loadTasks ["a"], .tasksLoaded [some a]⟩,
      ⟨.checkReferenced "0x04aa" "0x04bb", .contentChecked false⟩]
    let after : Trace := [⟨.recordTransientFailure "a"
      "register: chain RPC temporarily unavailable", .persisted⟩]
    let tr := sent ++ ⟨.submitRegister a, .tx (.receiptUncertain .unavailable)⟩ :: after
    (submission Contract.Sample.evm ["a"]).Runs tr
      (.verdict (.retry "register receipt wait failed")) ∧
      ∀ step ∈ tr, ∀ kind message, step.1 ≠ .markFailed "a" kind message := by
  intro a sent after tr
  have hrun : (submission Contract.Sample.evm ["a"]).Runs tr
      (.verdict (.retry "register receipt wait failed")) := by
    rw [Prog.runs_iff_replay]
    rfl
  have hspared : Spared .unavailable after := trivial
  exact ⟨hrun, (uncertain_spared_iff ["a"] tr _ hrun sent a .unavailable after rfl).2.mpr hspared⟩

/-- The send was broadcast, and the node answered the receipt wait with an error whose text reads as
a revert, which the RPC pool hands through: the task is marked failed while its transaction may
still land. -/
theorem uncertain_quarantined :
    let a := referRecord "a" .pending
    let tr : Trace := [⟨.loadTasks ["a"], .tasksLoaded [some a]⟩,
      ⟨.checkReferenced "0x04aa" "0x04bb", .contentChecked false⟩,
      ⟨.submitRegister a, .tx (.receiptUncertain (.reverted "execution reverted "))⟩,
      ⟨.markFailed "a" .poison "register: EVM execution reverted", .persisted⟩]
    (submission Contract.Sample.evm ["a"]).Runs tr
      (.verdict (.retry "register receipt wait failed")) := by
  intro a tr
  rw [Prog.runs_iff_replay]
  rfl

end P256Index.Registrar.Submission
