import P256Index.Interaction.Rely
import P256Index.Registrar.Batch

/-!
# Conducting one task through a batch

What the submission program does for one task, against any world that moves between its operations.
A `Conduct` says what the world offers: the task is live until its one mark, a check or a confirmed
transaction shows its content present, a check shows it absent, and each mark may be made on the
strength of what was shown. The program then respects the specification of its operations; every
mark ends the work on its task, so a task is marked once at most.
-/

namespace P256Index.Registrar.Submission

variable {E : Contract.Evm} {W : Type} {S : RelySpec Operation (fun _ => Result) W}

/-- What the outcome of a send shows: a confirmed transaction has landed, any other one is taken not
to have. -/
def Landed (Present Absent : W → Prop) : TxOutcome → W → Prop
  | .confirmed _ _, w => Present w
  | _, w => Absent w

/-- What the world offers a task while it is worked on. `Over` is what an acknowledged mark of it
leaves. -/
structure Conduct (E : Contract.Evm) (S : RelySpec Operation (fun _ => Result) W)
    (task : RegisterTask) (Live Present Absent Over : W → Prop) : Prop where
  live : S.Keeps Live
  present : S.Keeps Present
  absent : S.Keeps Absent
  check : ∀ {op w}, checkOperation E task = some op → Live w → S.pre op w ∧
    ∀ ans w', S.post op w ans w' → Live w' ∧ (ans = .contentChecked true → Present w') ∧
      (ans = .contentChecked false → Absent w')
  send : ∀ {w}, Live w → Absent w → S.pre (.submitRegister task) w ∧
    ∀ ans w', S.post (.submitRegister task) w ans w' → Live w' ∧
      ∀ outcome, ans = .tx outcome → Landed Present Absent outcome w'
  done : ∀ {w} txHash onChainId, Live w → Present w → S.pre (.markDone task.id txHash onChainId) w ∧
    ∀ w', S.post (.markDone task.id txHash onChainId) w .persisted w' → Over w'
  failed : ∀ {w} message, Live w → Absent w ∨ checkOperation E task = none →
    S.pre (.markFailed task.id .poison message) w ∧
      ∀ w', S.post (.markFailed task.id .poison message) w .persisted w' → Over w'
  transient : ∀ {w} message, Live w → S.pre (.recordTransientFailure task.id message) w ∧
    ∀ w', S.post (.recordTransientFailure task.id message) w .persisted w' → Over w'

namespace Conduct

variable {task : RegisterTask} {Live Present Absent Over : W → Prop} {w : W}

/-- A persisted operation, allowed whenever `P` holds, which nothing undoes. -/
theorem persist {P : W → Prop} {op : Operation} (reason : String) (hkeeps : S.Keeps P)
    (hop : ∀ {w}, P w → S.pre op w ∧ ∀ w', S.post op w .persisted w' → Over w') (hw : P w) :
    S.Through (Submission.persist op reason) w fun _ w' => Over w' := by
  refine RelySpec.through_request_bind fun w₁ hw₁ => ?_
  have hP := hkeeps w w₁ hw₁ hw
  refine ⟨(hop hP).1, fun ans w₂ hpost => ?_⟩
  cases ans with
  | persisted => exact RelySpec.through_pure ((hop hP).2 w₂ hpost)
  | _ => exact RelySpec.through_throw

variable (h : Conduct E S task Live Present Absent Over)

include h

theorem markDone (txHash : Option String) (onChainId : Option UInt64) (hlive : Live w)
    (hpresent : Present w) :
    S.Through (Submission.markDone task txHash onChainId) w fun _ w' => Over w' := by
  refine persist (P := fun w => Live w ∧ Present w) _ ?_ ?_ ⟨hlive, hpresent⟩
  · intro w w' hrely hw
    exact ⟨h.live w w' hrely hw.1, h.present w w' hrely hw.2⟩
  · intro w hw
    exact h.done txHash onChainId hw.1 hw.2

theorem markFailed (message reason : String) (hlive : Live w)
    (hreason : Absent w ∨ checkOperation E task = none) :
    S.Through (Submission.persist (.markFailed task.id .poison message) reason) w
      fun _ w' => Over w' := by
  refine persist (P := fun w => Live w ∧ (Absent w ∨ checkOperation E task = none)) _ ?_ ?_
    ⟨hlive, hreason⟩
  · intro w w' hrely hw
    exact ⟨h.live w w' hrely hw.1, hw.2.imp_left (h.absent w w' hrely)⟩
  · intro w hw
    exact h.failed message hw.1 hw.2

theorem recordTransientFailure (message reason : String) (hlive : Live w) :
    S.Through (Submission.persist (.recordTransientFailure task.id message) reason) w
      fun _ w' => Over w' :=
  persist _ h.live (h.transient message) hlive

/-- What a check shows. -/
def Shown (E : Contract.Evm) (task : RegisterTask) (Live Present Absent : W → Prop) :
    ContentState → W → Prop
  | .registered, w => Live w ∧ Present w
  | .absent, w => Live w ∧ Absent w
  | .unencodable, w => Live w ∧ checkOperation E task = none

theorem checkContent (hlive : Live w) :
    S.Through (Submission.checkContent E task) w (Shown E task Live Present Absent) := by
  unfold Submission.checkContent
  cases hop : checkOperation E task with
  | none => exact RelySpec.through_pure ⟨hlive, hop⟩
  | some op =>
      refine RelySpec.through_request_bind fun w₁ hw₁ => ?_
      obtain ⟨hpre, hpost⟩ := h.check hop (h.live w w₁ hw₁ hlive)
      refine ⟨hpre, fun ans w₂ hans => ?_⟩
      obtain ⟨hlive₂, hpresent, habsent⟩ := hpost ans w₂ hans
      cases ans with
      | contentChecked answer =>
          cases answer with
          | true => exact RelySpec.through_pure ⟨hlive₂, hpresent rfl⟩
          | false => exact RelySpec.through_pure ⟨hlive₂, habsent rfl⟩
      | chainReadFailed =>
          apply (h.recordTransientFailure _ _ hlive₂).bind
          intro _ _ _
          exact RelySpec.through_throw
      | _ => exact RelySpec.through_throw

theorem submit (hlive : Live w) (habsent : Absent w) :
    S.Through (Submission.submit task) w fun outcome w' =>
      Live w' ∧ Landed Present Absent outcome w' := by
  refine RelySpec.through_request_bind fun w₁ hw₁ => ?_
  obtain ⟨hpre, hpost⟩ := h.send (h.live w w₁ hw₁ hlive) (h.absent w w₁ hw₁ habsent)
  refine ⟨hpre, fun ans w₂ hans => ?_⟩
  obtain ⟨hlive₂, houtcome⟩ := hpost ans w₂ hans
  cases ans with
  | tx outcome =>
      cases outcome with
      | noncePoolUnavailable => exact RelySpec.through_throw
      | _ => exact RelySpec.through_pure ⟨hlive₂, houtcome _ rfl⟩
  | _ => exact RelySpec.through_throw

/-- A failed write is marked on the strength of the last check, or of the one it makes itself. -/
theorem classifyTask (error : ChainError) (hlive : Live w) (habsent : Absent w) :
    S.Through (Submission.classifyTask E task error) w fun _ w' => Over w' := by
  unfold Submission.classifyTask
  cases classifyChainError error with
  | alreadyExists =>
      apply (h.checkContent hlive).bind
      intro state w₁ hshown
      cases state with
      | registered => exact h.markDone _ _ hshown.1 hshown.2
      | absent => exact h.markFailed _ _ hshown.1 (.inl hshown.2)
      | unencodable => exact h.markFailed _ _ hshown.1 (.inr hshown.2)
  | transient => exact h.recordTransientFailure _ _ hlive
  | poison => exact h.markFailed _ _ hlive (.inl habsent)

theorem sendFailed (error : ChainError) (hlive : Live w) (habsent : Absent w) :
    S.Through (Submission.sendFailed E task error) w fun _ w' => Over w' := by
  apply (h.classifyTask error hlive habsent).bind
  intro _ w₁ hover
  split
  · exact RelySpec.through_throw
  · exact RelySpec.through_pure hover

theorem receiptUncertain (error : ChainError) (hlive : Live w) (habsent : Absent w) :
    S.Through (Submission.receiptUncertain E task error) w fun _ w' => Over w' := by
  apply (h.classifyTask error hlive habsent).bind
  intro _ _ _
  exact RelySpec.through_throw

theorem registerReverted (hlive : Live w) :
    S.Through (Submission.registerReverted E task) w fun _ w' => Over w' := by
  apply (h.checkContent hlive).bind
  intro state w₁ hshown
  cases state with
  | registered => exact h.markDone _ _ hshown.1 hshown.2
  | unencodable => exact RelySpec.through_throw
  | absent =>
      apply (h.submit hshown.1 hshown.2).bind
      intro outcome w₂ hsent
      cases outcome with
      | confirmed txHash onChainId => exact h.markDone _ _ hsent.1 hsent.2
      | reverted txHash => exact h.markFailed _ _ hsent.1 (.inl hsent.2)
      | receiptUncertain error => exact h.receiptUncertain error hsent.1 hsent.2
      | sendFailed error => exact h.sendFailed error hsent.1 hsent.2
      | noncePoolUnavailable => exact RelySpec.through_throw

theorem submitStage (hlive : Live w) (habsent : Absent w) :
    S.Through (Submission.submitStage E task) w fun _ w' => Over w' := by
  apply (h.submit hlive habsent).bind
  intro outcome w₁ hsent
  cases outcome with
  | confirmed txHash onChainId => exact h.markDone _ _ hsent.1 hsent.2
  | reverted txHash => exact h.registerReverted hsent.1
  | receiptUncertain error => exact h.receiptUncertain error hsent.1 hsent.2
  | sendFailed error => exact h.sendFailed error hsent.1 hsent.2
  | noncePoolUnavailable => exact RelySpec.through_throw

theorem driveTask (hlive : Live w) :
    S.Through (Submission.driveTask E task) w fun _ w' => Over w' := by
  apply (h.checkContent hlive).bind
  intro state w₁ hshown
  cases state with
  | registered => exact h.markDone _ _ hshown.1 hshown.2
  | absent => exact h.submitStage hshown.1 hshown.2
  | unencodable => exact h.markFailed _ _ hshown.1 (.inr hshown.2)

end Conduct

/-! ## The batch -/

section Batch

variable {Live : List RegisterTask → W → Prop} {Present Absent : RegisterTask → W → Prop} {w : W}

/-- The loop: a task's mark leaves the later tasks live. -/
theorem driveTasks_through {tasks : List RegisterTask}
    (hconduct : ∀ before task rest, tasks = before ++ task :: rest →
      Conduct E S task (Live (task :: rest)) (Present task) (Absent task) (Live rest))
    (hlive : Live tasks w) : S.Through (driveTasks E tasks) w fun _ w' => Live [] w' := by
  induction tasks generalizing w with
  | nil => exact RelySpec.through_pure hlive
  | cons task rest ih =>
      apply ((hconduct [] task rest rfl).driveTask hlive).bind
      intro _ w₁ hrest
      apply ih _ hrest
      intro before task' rest' hsplit
      exact hconduct (task :: before) task' rest' (by rw [hsplit]; rfl)

/-- The whole program, from what its load answers. -/
theorem submission_wp (Live : List RegisterTask → W → Prop)
    (Present Absent : RegisterTask → W → Prop) (ids : List String)
    (hload : S.Keeps (S.pre (.loadTasks ids))) (hpre : S.pre (.loadTasks ids) w)
    (hpost : ∀ w₁ loaded w₂, S.rely w w₁ → S.post (.loadTasks ids) w₁ (.tasksLoaded loaded) w₂ →
      Live (canonical loaded) w₂ ∧ ∀ before task rest, canonical loaded = before ++ task :: rest →
        Conduct E S task (Live (task :: rest)) (Present task) (Absent task) (Live rest)) :
    S.wp (submission E ids) (fun _ _ => True) w := by
  refine RelySpec.wp_map (RelySpec.wp_mono (Q := fun r w' => ∀ v, r = .ok v → True) ?_ ?_)
  · show S.Through (driveBatch E ids) w fun _ _ => True
    unfold driveBatch
    split
    · exact RelySpec.through_pure trivial
    · refine RelySpec.through_request_bind fun w₁ hw₁ =>
        ⟨hload w w₁ hw₁ hpre, fun ans w₂ hans => ?_⟩
      cases ans with
      | tasksLoaded loaded =>
          obtain ⟨hlive, hconduct⟩ := hpost w₁ loaded w₂ hw₁ hans
          apply (driveTasks_through hconduct hlive).bind
          intro _ _ _
          exact RelySpec.through_pure trivial
      | _ => exact RelySpec.through_throw
  · intro _ _ _
    trivial

end Batch

end P256Index.Registrar.Submission
