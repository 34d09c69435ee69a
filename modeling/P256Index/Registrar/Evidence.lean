import P256Index.Interaction.Guard
import P256Index.Registrar.Batch

/-!
# No blind send, no mark without evidence

Which operation may follow which history of the submission program, whatever the shell answers. A
task is sent only right after its own check said it is absent, and marked done only right after its
own check said it is present or its own transaction was confirmed. One run sends a task twice at
most: the second time is the recovery from a revert.
-/

namespace P256Index.Registrar.Submission

variable (E : Contract.Evm)

/-! ## The guard -/

abbrev Step := (_ : Operation) × Result

/-- The task's own check, answered. -/
def CheckedAs (task : RegisterTask) (answer : Bool) (step : Step) : Prop :=
  checkOperation E task = some step.1 ∧ step.2 = .contentChecked answer

/-- The id of the task an operation sends. -/
def Operation.sentId : Operation → Option String
  | .submitRegister task => some task.id
  | _ => none

/-- How often a task was sent. -/
def sends (id : String) (tr : Trace) : Nat := tr.countP fun step => step.1.sentId = some id

/-- The record was handed out by the load at the start. -/
def Taken (tr : Trace) (task : RegisterTask) : Prop :=
  ∃ ids loaded, tr.head? = some ⟨.loadTasks ids, .tasksLoaded loaded⟩ ∧ some task ∈ loaded

/-- What the last step has to be for a mark of done. -/
def DoneEvidence (task : RegisterTask) (txHash : Option String) (onChainId : Option UInt64)
    (step : Step) : Prop :=
  CheckedAs E task true step ∨
    ∃ hash, step = ⟨.submitRegister task, .tx (.confirmed hash onChainId)⟩ ∧ txHash = some hash

/-- The history ends in a step with this property. -/
def EndsIn (P : Step → Prop) (tr : Trace) : Prop := ∃ earlier step, tr = earlier ++ [step] ∧ P step

def guard (past : Trace) : Operation → Prop
  | .submitRegister task =>
      Taken past task ∧ EndsIn (CheckedAs E task false) past ∧ sends task.id past < 2
  | .markDone id txHash onChainId =>
      ∃ task, Taken past task ∧ task.id = id ∧ EndsIn (DoneEvidence E task txHash onChainId) past
  | _ => True

variable {E} {task : RegisterTask} {past later : Trace} {id : String}

theorem sends_snoc (step : Step) :
    sends id (past ++ [step]) = sends id past + if step.1.sentId = some id then 1 else 0 := by
  simp [sends, List.countP_append, List.countP_singleton]

theorem Taken.mono (h : Taken past task) (hle : past <+: later) : Taken later task := by
  obtain ⟨ids, loaded, hhead, hmem⟩ := h
  obtain ⟨rest, rfl⟩ := hle
  refine ⟨ids, loaded, ?_, hmem⟩
  rw [List.head?_append, hhead]
  rfl

/-! ## The functions of the program -/

/-- Nothing was sent in between. -/
def Unsent (past later : Trace) : Prop := ∀ id, sends id later = sends id past

/-- No other task was sent in between. -/
def OthersUnsent (task : RegisterTask) (past later : Trace) : Prop :=
  ∀ id, id ≠ task.id → sends id later = sends id past

theorem Unsent.snoc {step : Step} (h : step.1.sentId = none) : Unsent past (past ++ [step]) := by
  intro id
  simp [sends_snoc, h]

theorem Unsent.others (h : Unsent past later) : OthersUnsent task past later := fun id _ => h id

theorem persist_guarded {op : Operation} (reason : String) (hop : guard E past op)
    (hquiet : op.sentId = none) :
    Flow.Guarded (guard E) past (persist op reason) fun _ later => Unsent past later := by
  refine Flow.guarded_request_bind hop fun ans => ?_
  have hunsent : Unsent past (past ++ [⟨op, ans⟩]) := Unsent.snoc hquiet
  cases ans with
  | persisted => exact Flow.guarded_pure hunsent
  | storeUnavailable => exact Flow.guarded_throw hunsent
  | _ => exact Flow.guarded_throw hunsent

theorem checkOperation_quiet {op : Operation} (h : checkOperation E task = some op) :
    guard E past op ∧ op.sentId = none := by
  rcases checkOperation_cases h with ⟨_, rfl⟩ | ⟨_, _, rfl⟩
  · exact ⟨trivial, rfl⟩
  · exact ⟨trivial, rfl⟩

/-- What the check leaves: the answer it reports is the last step. -/
def CheckLeaves (E : Contract.Evm) (task : RegisterTask) (past : Trace)
    (r : Except Halt ContentState) (later : Trace) : Prop :=
  Unsent past later ∧ (r = .ok .registered → EndsIn (CheckedAs E task true) later) ∧
    (r = .ok .absent → EndsIn (CheckedAs E task false) later)

theorem checkContent_guarded :
    Flow.Guarded (guard E) past (checkContent E task) (CheckLeaves E task past) := by
  unfold checkContent
  cases hop : checkOperation E task with
  | none => exact Flow.guarded_pure ⟨fun _ => rfl, by simp, by simp⟩
  | some op =>
      obtain ⟨hguard, hquiet⟩ := checkOperation_quiet hop
      refine Flow.guarded_request_bind hguard fun ans => ?_
      have hunsent : Unsent past (past ++ [⟨op, ans⟩]) := Unsent.snoc hquiet
      cases ans with
      | contentChecked answer =>
          cases answer with
          | true => exact Flow.guarded_pure ⟨hunsent, fun _ => ⟨past, _, rfl, hop, rfl⟩, by simp⟩
          | false => exact Flow.guarded_pure ⟨hunsent, by simp, fun _ => ⟨past, _, rfl, hop, rfl⟩⟩
      | chainReadFailed =>
          refine Flow.Guarded.bind (persist_guarded _ trivial rfl) ?_ ?_
          · intro e later _ hlater
            exact ⟨fun id => (hlater id).trans (hunsent id), by simp, by simp⟩
          · intro _ later _ hlater
            refine Flow.guarded_throw ⟨fun id => (hlater id).trans (hunsent id), by simp, by simp⟩
      | _ => exact Flow.guarded_throw ⟨hunsent, by simp, by simp⟩

theorem markDone_guarded {txHash : Option String} {onChainId : Option UInt64}
    (htaken : Taken past task) (hlast : EndsIn (DoneEvidence E task txHash onChainId) past) :
    Flow.Guarded (guard E) past (markDone task txHash onChainId) fun _ later => Unsent past later :=
  persist_guarded _ ⟨task, htaken, rfl, hlast⟩ rfl

theorem markFailed_guarded (message reason : String) :
    Flow.Guarded (guard E) past (persist (.markFailed task.id .poison message) reason)
      fun _ later => Unsent past later :=
  persist_guarded _ trivial rfl

theorem EndsIn.present {txHash : Option String} {onChainId : Option UInt64}
    (h : EndsIn (CheckedAs E task true) past) :
    EndsIn (DoneEvidence E task txHash onChainId) past := by
  obtain ⟨earlier, step, hpast, hstep⟩ := h
  exact ⟨earlier, step, hpast, .inl hstep⟩

/-- What a send leaves: its outcome is the last step, and it is one more send of the task. -/
structure SendLeaves (task : RegisterTask) (past : Trace) (r : Except Halt TxOutcome)
    (later : Trace) : Prop where
  others : OthersUnsent task past later
  once : sends task.id later = sends task.id past + 1
  last : ∀ outcome, r = .ok outcome →
    EndsIn (fun step => step = ⟨.submitRegister task, .tx outcome⟩) later

theorem submit_guarded (htaken : Taken past task) (hlast : EndsIn (CheckedAs E task false) past)
    (hsends : sends task.id past < 2) :
    Flow.Guarded (guard E) past (submit task) (SendLeaves task past) := by
  have hguard : guard E past (.submitRegister task) := ⟨htaken, hlast, hsends⟩
  refine Flow.guarded_request_bind hguard fun ans => ?_
  have hothers : OthersUnsent task past (past ++ [⟨.submitRegister task, ans⟩]) := by
    intro id hne
    have hsent : (Operation.submitRegister task).sentId ≠ some id :=
      fun h => hne (Option.some.inj h).symm
    simp [sends_snoc, hsent]
  have honce : sends task.id (past ++ [⟨.submitRegister task, ans⟩]) = sends task.id past + 1 := by
    simp [sends_snoc, Operation.sentId]
  cases ans with
  | tx outcome =>
      cases outcome with
      | noncePoolUnavailable => exact Flow.guarded_throw ⟨hothers, honce, by simp⟩
      | _ =>
          refine Flow.guarded_pure ⟨hothers, honce, ?_⟩
          rintro _ ⟨⟩
          exact ⟨past, _, rfl, rfl⟩
  | _ => exact Flow.guarded_throw ⟨hothers, honce, by simp⟩

/-! ## The stages for one task -/

/-- Classification may look again, but never sends. -/
theorem classifyTask_guarded (error : ChainError) (htaken : Taken past task) :
    Flow.Guarded (guard E) past (classifyTask E task error) fun _ later => Unsent past later := by
  unfold classifyTask
  cases classifyChainError error with
  | alreadyExists =>
      refine Flow.Guarded.bind checkContent_guarded (fun _ _ _ h => h.1) ?_
      intro state later hle hleaves
      have hthen : ∀ {x : SubmissionFlow Unit},
          Flow.Guarded (guard E) later x (fun _ last => Unsent later last) →
            Flow.Guarded (guard E) later x fun _ last => Unsent past last := by
        intro x hx
        refine hx.mono fun _ _ _ hlast id => ?_
        exact (hlast id).trans (hleaves.1 id)
      cases state with
      | registered => exact hthen (markDone_guarded (htaken.mono hle) (hleaves.2.1 rfl).present)
      | absent => exact hthen (persist_guarded _ trivial rfl)
      | unencodable => exact hthen (persist_guarded _ trivial rfl)
  | transient => exact persist_guarded _ trivial rfl
  | poison => exact persist_guarded _ trivial rfl

theorem sendFailed_guarded (error : ChainError) (htaken : Taken past task) :
    Flow.Guarded (guard E) past (sendFailed E task error) fun _ later => Unsent past later := by
  refine Flow.Guarded.bind (classifyTask_guarded error htaken) (fun _ _ _ h => h) ?_
  intro _ later _ hunsent
  split
  · exact Flow.guarded_throw hunsent
  · exact Flow.guarded_pure hunsent

theorem receiptUncertain_guarded (error : ChainError) (htaken : Taken past task) :
    Flow.Guarded (guard E) past (receiptUncertain E task error) fun _ later =>
      Unsent past later := by
  refine Flow.Guarded.bind (classifyTask_guarded error htaken) (fun _ _ _ h => h) ?_
  intro _ later _ hunsent
  exact Flow.guarded_throw hunsent

/-- What follows a send when nothing is sent after it. -/
theorem SendLeaves.others_after {r : Except Halt TxOutcome} {last : Trace}
    (h : SendLeaves task past r later) (hlast : Unsent later last) : OthersUnsent task past last :=
  fun id hne => (hlast id).trans (h.others id hne)

theorem SendLeaves.confirmed {txHash : String} {onChainId : Option UInt64}
    (h : SendLeaves task past (.ok (.confirmed txHash onChainId)) later) :
    EndsIn (DoneEvidence E task (some txHash) onChainId) later := by
  obtain ⟨earlier, step, hlater, hstep⟩ := h.last _ rfl
  exact ⟨earlier, step, hlater, .inr ⟨txHash, hstep, rfl⟩⟩

/-- The resend is the second send at most. -/
theorem registerReverted_guarded (htaken : Taken past task) (hsends : sends task.id past < 2) :
    Flow.Guarded (guard E) past (registerReverted E task) fun _ later =>
      OthersUnsent task past later := by
  refine Flow.Guarded.bind checkContent_guarded (fun _ _ _ h => h.1.others) ?_
  intro state checked hle hchecked
  have htaken' := htaken.mono hle
  cases state with
  | registered =>
      refine (markDone_guarded htaken' (hchecked.2.1 rfl).present).mono fun _ _ _ hlast id _ => ?_
      exact (hlast id).trans (hchecked.1 id)
  | unencodable => exact Flow.guarded_throw hchecked.1.others
  | absent =>
      have hsends' : sends task.id checked < 2 := by rwa [hchecked.1 task.id]
      have hsend : ∀ {r : Except Halt TxOutcome} {sent last : Trace},
          SendLeaves task checked r sent → Unsent sent last → OthersUnsent task past last := by
        intro r sent last hsent hlast id hne
        exact (hsent.others_after hlast id hne).trans (hchecked.1 id)
      refine Flow.Guarded.bind (submit_guarded htaken' (hchecked.2.2 rfl) hsends')
        (fun _ _ _ h => hsend h fun _ => rfl) ?_
      intro outcome sent hle' hsent
      have htaken'' := htaken'.mono hle'
      cases outcome with
      | confirmed txHash onChainId =>
          exact (markDone_guarded htaken'' hsent.confirmed).mono fun _ _ _ hlast =>
            hsend hsent hlast
      | reverted txHash =>
          exact (markFailed_guarded _ _).mono fun _ _ _ hlast => hsend hsent hlast
      | receiptUncertain error =>
          exact (receiptUncertain_guarded error htaken'').mono fun _ _ _ hlast => hsend hsent hlast
      | sendFailed error =>
          exact (sendFailed_guarded error htaken'').mono fun _ _ _ hlast => hsend hsent hlast
      | noncePoolUnavailable => exact Flow.guarded_throw (hsend hsent fun _ => rfl)

theorem submitStage_guarded (htaken : Taken past task)
    (hlast : EndsIn (CheckedAs E task false) past) (hsends : sends task.id past = 0) :
    Flow.Guarded (guard E) past (submitStage E task) fun _ later =>
      OthersUnsent task past later := by
  have hfirst : sends task.id past < 2 := by omega
  refine Flow.Guarded.bind (submit_guarded htaken hlast hfirst)
    (fun _ _ _ h => h.others) ?_
  intro outcome sent hle hsent
  have htaken' := htaken.mono hle
  cases outcome with
  | confirmed txHash onChainId =>
      exact (markDone_guarded htaken' hsent.confirmed).mono fun _ _ _ h => hsent.others_after h
  | reverted txHash =>
      have honce : sends task.id sent < 2 := by
        rw [hsent.once]
        omega
      refine (registerReverted_guarded htaken' honce).mono fun _ _ _ h id hne => ?_
      exact (h id hne).trans (hsent.others id hne)
  | receiptUncertain error =>
      exact (receiptUncertain_guarded error htaken').mono fun _ _ _ h => hsent.others_after h
  | sendFailed error =>
      exact (sendFailed_guarded error htaken').mono fun _ _ _ h => hsent.others_after h
  | noncePoolUnavailable => exact Flow.guarded_throw hsent.others

theorem driveTask_guarded (htaken : Taken past task) (hsends : sends task.id past = 0) :
    Flow.Guarded (guard E) past (driveTask E task) fun _ later => OthersUnsent task past later := by
  refine Flow.Guarded.bind checkContent_guarded (fun _ _ _ h => h.1.others) ?_
  intro state checked hle hchecked
  have htaken' := htaken.mono hle
  cases state with
  | registered =>
      refine (markDone_guarded htaken' (hchecked.2.1 rfl).present).mono fun _ _ _ hlast id _ => ?_
      exact (hlast id).trans (hchecked.1 id)
  | absent =>
      have hnone : sends task.id checked = 0 := by rw [hchecked.1, hsends]
      refine (submitStage_guarded htaken' (hchecked.2.2 rfl) hnone).mono fun _ _ _ h id hne => ?_
      exact (h id hne).trans (hchecked.1 id)
  | unencodable =>
      refine (markFailed_guarded _ _).mono fun _ _ _ hlast id _ => ?_
      exact (hlast id).trans (hchecked.1 id)

/-! ## The batch -/

/-- The loop: tasks with different ids, none of them sent yet. -/
theorem driveTasks_guarded {tasks : List RegisterTask} (htaken : ∀ task ∈ tasks, Taken past task)
    (hdistinct : (tasks.map RegisterTask.id).Nodup)
    (hsends : ∀ task ∈ tasks, sends task.id past = 0) :
    Flow.Guarded (guard E) past (driveTasks E tasks) fun _ _ => True := by
  induction tasks generalizing past with
  | nil => exact Flow.guarded_pure trivial
  | cons task rest ih =>
      rw [List.map_cons, List.nodup_cons] at hdistinct
      rw [List.forall_mem_cons] at htaken hsends
      refine Flow.Guarded.bind (driveTask_guarded htaken.1 hsends.1) (fun _ _ _ _ => trivial) ?_
      intro _ later hle hothers
      -- the others have other ids, so working on this task has not sent them
      apply ih
      · intro other hother
        exact (htaken.2 other hother).mono hle
      · exact hdistinct.2
      · intro other hother
        have hne : other.id ≠ task.id := by
          intro heq
          exact hdistinct.1 (heq ▸ List.mem_map_of_mem hother)
        rw [hothers other.id hne]
        exact hsends.2 other hother

theorem driveBatch_guarded (ids : List String) :
    Flow.Guarded (guard E) [] (driveBatch E ids) fun _ _ => True := by
  unfold driveBatch
  split
  · exact Flow.guarded_pure trivial
  · have hload : guard E [] (.loadTasks ids) := trivial
    refine Flow.guarded_request_bind hload fun ans => ?_
    cases ans with
    | tasksLoaded loaded =>
        have hcanonical := canonical_distinctPending loaded
        have htasks : Flow.Guarded (guard E) [⟨.loadTasks ids, .tasksLoaded loaded⟩]
            (driveTasks E (canonical loaded)) fun _ _ => True := by
          apply driveTasks_guarded
          · intro task htask
            exact ⟨ids, loaded, rfl, hcanonical.in_order.subset (List.mem_map_of_mem htask)⟩
          · exact hcanonical.distinct
          · intro task _
            rfl
        exact Flow.Guarded.bind htasks (fun _ _ _ _ => trivial) fun _ _ _ _ =>
          Flow.guarded_pure trivial
    | _ => exact Flow.guarded_throw trivial

/-- Every send and every mark of done in a run has its reason directly before it. -/
structure Evidenced (E : Contract.Evm) (tr : Trace) : Prop where
  /-- A task is sent right after its own check said it is absent. -/
  sent : ∀ before task ans after, tr = before ++ ⟨.submitRegister task, ans⟩ :: after →
    Taken tr task ∧ EndsIn (CheckedAs E task false) before
  /-- No task is sent more than twice. -/
  twice : ∀ id, sends id tr ≤ 2
  /-- A task is marked done right after its own check said it is present, or after its own
  transaction was confirmed, and then with that transaction's hash and id. -/
  done : ∀ before id txHash onChainId ans after,
    tr = before ++ ⟨.markDone id txHash onChainId, ans⟩ :: after →
      ∃ task, Taken tr task ∧ task.id = id ∧ EndsIn (DoneEvidence E task txHash onChainId) before

/-- A send is allowed below two only, so no history has a third. -/
theorem sends_le_of_allowed {tr : Trace} (h : Flow.Allowed (guard E) [] tr) (id : String) :
    sends id tr ≤ 2 := by
  refine Flow.Allowed.countP_le (p := fun op => op.sentId = some id) ?_ h
  intro past op hop hguard
  cases op with
  | submitRegister task =>
      have hid : task.id = id := by simpa [Operation.sentId] using hop
      have hlt := hguard.2.2
      rwa [hid] at hlt
  | _ => simp [Operation.sentId] at hop

/-- In every run, whatever the shell answers. -/
theorem submission_evidenced (ids : List String) (tr : Trace) (out : Settled)
    (hrun : Prog.Runs (submission E ids) tr out) : Evidenced E tr := by
  have hallowed : Flow.Allowed (guard E) [] tr := by
    rw [submission, map_eq_pure_bind] at hrun
    obtain ⟨tr₁, tr₂, r, rfl, hbatch, hdone⟩ := Prog.runs_bind.mp hrun
    obtain ⟨rfl, -⟩ := Prog.runs_done.mp hdone
    rw [List.append_nil]
    exact (driveBatch_guarded ids tr₁ r hbatch).1
  -- the part of the run before an operation begins like the run
  have hwhole : ∀ {before : Trace} {step : Step} {after : Trace} {task : RegisterTask},
      tr = before ++ step :: after → Taken before task → Taken tr task := by
    intro before step after task heq htaken
    rw [heq]
    exact htaken.mono (List.prefix_append before _)
  constructor
  · intro before task ans after heq
    obtain ⟨htaken, hlast, -⟩ := hallowed before _ ans after heq
    exact ⟨hwhole heq htaken, hlast⟩
  · exact sends_le_of_allowed hallowed
  · intro before id txHash onChainId ans after heq
    obtain ⟨task, htaken, hid, hlast⟩ := hallowed before _ ans after heq
    exact ⟨task, hwhole heq htaken, hid, hlast⟩

/-- A task that is sent, reverted, checked again and confirmed on the resend. -/
theorem submission_evidenced_resent :
    ∃ tr, (submission Contract.Sample.evm ["a"]).Runs tr (.verdict .advance) ∧ sends "a" tr = 2 ∧
      Evidenced Contract.Sample.evm tr := by
  let a := referRecord "a" .pending
  let tr : Trace :=
    [⟨.loadTasks ["a"], .tasksLoaded [some a]⟩,
      ⟨.checkReferenced "0x04aa" "0x04bb", .contentChecked false⟩,
      ⟨.submitRegister a, .tx (.reverted "0x01")⟩,
      ⟨.checkReferenced "0x04aa" "0x04bb", .contentChecked false⟩,
      ⟨.submitRegister a, .tx (.confirmed "0x02" (some 7))⟩,
      ⟨.markDone "a" (some "0x02") (some 7), .persisted⟩]
  have hrun : (submission Contract.Sample.evm ["a"]).Runs tr (.verdict .advance) := by
    rw [Prog.runs_iff_replay]
    rfl
  exact ⟨tr, hrun, rfl, submission_evidenced ["a"] tr _ hrun⟩

end P256Index.Registrar.Submission
