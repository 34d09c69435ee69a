import P256Index.Server.Drain

/-!
# What a round of the worker leaves

The submission program among requests that arrive at any time. The work on a task ends it, or exits
and has used up one of its retries; a batch is worked off from its front and stops at the first task
that exits. So a round whose commands went well has moved the offset past its batch, or a task of
the batch has a retry less and all tasks before it have ended.
-/

namespace P256Index.Server

open Registrar Submission

variable {w w' w₁ w₂ : World} {id : String} {strict : Prop}

/-! ## The worker's operations -/

/-- A mark is acknowledged. -/
def markPost (strict : Prop) (P : Prop) (ans : Result) : Prop :=
  ans = .persisted ∧ P ∨ ans = .storeUnavailable ∧ ¬ strict

/-- A check is answered with a reading or a failed one. -/
def checkPost (w : World) (ans : Result) (w' : World) : Prop :=
  HandsOff w w' ∧ (ans = .chainReadFailed ∨ ∃ value, ans = .contentChecked value)

def passPost (strict : Prop) : Operation → World → Result → World → Prop
  | .loadTasks ids, w, ans, w' =>
      (∃ loaded, ans = .tasksLoaded loaded ∧ HandsOff w w' ∧
        List.Forall₂ (Fetched w w') ids loaded) ∨ ans = .storeUnavailable ∧ ¬ strict
  | .checkContentRegistered _, w, ans, w' => checkPost w ans w'
  | .checkReferenced _ _, w, ans, w' => checkPost w ans w'
  | .submitRegister _, w, ans, w' => HandsOff w w' ∧
      ∃ outcome, ans = .tx outcome ∧ (strict → outcome ≠ .noncePoolUnavailable)
  | .markDone id _ _, w, ans, w' => markPost strict (EndsTask id w w') ans
  | .markFailed id _ _, w, ans, w' => markPost strict (EndsTask id w w') ans
  | .recordTransientFailure id _, w, ans, w' => markPost strict (LowersTask id w w') ans

def passSpec (strict : Prop) : RelySpec Operation (fun _ => Result) World where
  rely := HandsOff
  refl := HandsOff.refl
  trans := HandsOff.trans
  pre := batchPre
  post op w ans w' := passPost strict op w ans w'

/-- A chain command leaves the world to the others. -/
theorem onChain_ends {c : ChainCommand} :
    (drainSpec strict).wp (onChain c) (fun ans w' =>
      HandsOff w w' ∧ (strict → Clean (.chain c) ans)) w := by
  intro w₁ hw₁
  refine ⟨⟨trivial, trivial⟩, fun ans w₂ hpost => ?_⟩
  obtain ⟨hclean, -, rfl⟩ := hpost
  exact ⟨hw₁, hclean⟩

theorem storeAck_ends {x : StoreFlow (Option RegisterTask)} {P : World → Prop}
    (h : (drainStore strict).Ends x w (Acked strict fun _ w' => P w')) :
    (drainSpec strict).wp (storeAck <$> onStore x)
      (fun ans w' => markPost strict (P w') ans) w := by
  refine RelySpec.wp_map (RelySpec.wp_mono (drainSpec_onStore h) ?_)
  rintro (e | found) w' hr
  · exact .inr ⟨rfl, hr⟩
  · exact .inl ⟨rfl, hr⟩

theorem check_ends {c : ChainCommand} {answer : c.Value → Result}
    (h : ∀ read, answer read = .chainReadFailed ∨ ∃ value, answer read = .contentChecked value) :
    (drainSpec strict).wp (answer <$> onChain c) (fun ans w' => checkPost w ans w') w := by
  refine RelySpec.wp_map (RelySpec.wp_mono onChain_ends ?_)
  rintro read w' ⟨hoff, -⟩
  exact ⟨hoff, h read⟩

/-- The shell keeps to the specification of the operations. -/
theorem execute_ends (op : Operation) (hpre : batchPre op w) :
    (drainSpec strict).wp (execute op) (fun ans w' => passPost strict op w ans w') w := by
  cases op with
  | loadTasks ids =>
      refine RelySpec.wp_bind (drainSpec_onStore (loadEach_ends ids)) ?_
      rintro (e | loaded) w' hr
      · exact .inr ⟨rfl, hr⟩
      · exact .inl ⟨loaded, rfl, hr⟩
  | checkContentRegistered contentHash =>
      simp only [execute]
      split
      · exact ⟨.refl w, .inl rfl⟩
      · exact check_ends contentAnswer_cases
  | checkReferenced group member =>
      simp only [execute]
      split
      · exact check_ends contentAnswer_cases
      · exact ⟨.refl w, .inl rfl⟩
  | submitRegister task =>
      refine RelySpec.wp_map (RelySpec.wp_mono onChain_ends ?_)
      rintro outcome w' ⟨hoff, hclean⟩
      exact ⟨hoff, outcome, rfl, hclean⟩
  | markDone id txHash onChainId => exact storeAck_ends (markDone_ends hpre txHash onChainId)
  | markFailed id kind message => exact storeAck_ends (markFailed_ends hpre _ message)
  | recordTransientFailure id message =>
      exact storeAck_ends (recordTransientFailure_ends hpre message)

/-! ## The stages for one task -/

variable {E : Contract.Evm} {task : RegisterTask}

/-- How the work on a task ends: on the way through the task has ended, and an exit has used up one
of its retries. -/
def PassEnds (strict : Prop) (id : String) (w : World) {α : Type} (P : α → World → Prop) :
    Except Halt α → World → Prop
  | .ok a, w' => P a w'
  | .error _, w' => strict → LowersTask id w w'

theorem EndsTask.lowering (h : EndsTask id w w') (hlive : Live id w) : LowersTask id w w' :=
  ⟨h.1, by rw [h.2]; exact hlive.left_pos⟩

theorem EndsTask.later (hoff : HandsOff w w₁) (h : EndsTask id w₁ w₂) : EndsTask id w w₂ :=
  ⟨hoff.spares.trans h.1, h.2⟩

theorem LowersTask.later (hlive : Live id w) (hoff : HandsOff w w₁) (h : LowersTask id w₁ w₂) :
    LowersTask id w w₂ :=
  ⟨hoff.spares.trans h.1, h.2.trans_le (hoff.onward.left id (stored_of_pending hlive.pending))⟩

/-- A mark: the world may move before it is made. -/
theorem persist_ends {op : Operation} {P : World → World → Prop} {Q : World → Prop}
    (reason : String) (hpre : ∀ w₁, HandsOff w w₁ → batchPre op w₁)
    (hpost : ∀ {w₁ ans w₂}, passPost strict op w₁ ans w₂ → markPost strict (P w₁ w₂) ans)
    (hlater : ∀ {w₁ w₂}, HandsOff w w₁ → P w₁ w₂ → Q w₂) :
    (passSpec strict).Ends (persist op reason) w (PassEnds strict id w fun _ w' => Q w') := by
  refine RelySpec.ends_request_bind fun w₁ hw₁ => ⟨hpre w₁ hw₁, fun ans w₂ hans => ?_⟩
  rcases hpost hans with ⟨rfl, hP⟩ | ⟨rfl, hnot⟩
  · exact RelySpec.ends_pure (hlater hw₁ hP)
  · exact RelySpec.ends_throw fun hstrict => absurd hstrict hnot

/-- The work on the task ends with its record done or failed. -/
def StageEnds (strict : Prop) (id : String) (w : World) : Except Halt Unit → World → Prop :=
  PassEnds strict id w fun _ w' => EndsTask id w w'

theorem markDoneStage_ends (hlive : Live task.id w) (txHash : Option String)
    (onChainId : Option UInt64) :
    (passSpec strict).Ends (Submission.markDone task txHash onChainId) w
      (StageEnds strict task.id w) :=
  persist_ends _ (fun _ hw₁ => (hw₁.live hlive).pending) (fun h => h) fun hoff h => h.later hoff

theorem markFailedStage_ends (hlive : Live task.id w) (message reason : String) :
    (passSpec strict).Ends (persist (.markFailed task.id .poison message) reason) w
      (StageEnds strict task.id w) :=
  persist_ends _ (fun _ hw₁ => (hw₁.live hlive).pending) (fun h => h) fun hoff h => h.later hoff

theorem transientStage_ends (hlive : Live task.id w) (message reason : String) :
    (passSpec strict).Ends (persist (.recordTransientFailure task.id message) reason) w
      (PassEnds strict task.id w fun _ w' => LowersTask task.id w w') :=
  persist_ends _ (fun _ hw₁ => (hw₁.live hlive).pending) (fun h => h) fun hoff h =>
    h.later hlive hoff

/-- A check that goes through has left the records alone. -/
def CheckedFor (E : Contract.Evm) (task : RegisterTask) (w : World) (state : ContentState)
    (w' : World) : Prop :=
  HandsOff w w' ∧ (state = .unencodable ↔ checkOperation E task = none)

theorem checkContent_ends (hlive : Live task.id w) :
    (passSpec strict).Ends (checkContent E task) w
      (PassEnds strict task.id w (CheckedFor E task w)) := by
  unfold checkContent
  cases hop : checkOperation E task with
  | none => exact RelySpec.ends_pure ⟨.refl w, by simp [hop]⟩
  | some op =>
      have hcheck : ∀ w₁, batchPre op w₁ ∧ ∀ ans w₂,
          passPost strict op w₁ ans w₂ → checkPost w₁ ans w₂ := by
        intro w₁
        rcases checkOperation_cases hop with ⟨_, rfl⟩ | ⟨_, _, rfl⟩
        · exact ⟨trivial, fun _ _ h => h⟩
        · exact ⟨trivial, fun _ _ h => h⟩
      refine RelySpec.ends_request_bind fun w₁ hw₁ => ⟨(hcheck w₁).1, fun ans w₂ hans => ?_⟩
      obtain ⟨hoff, hanswer⟩ := (hcheck w₁).2 ans w₂ hans
      have hoff : HandsOff w w₂ := hw₁.trans hoff
      rcases hanswer with rfl | ⟨value, rfl⟩
      · refine RelySpec.Ends.bind (transientStage_ends (hoff.live hlive) _ _) ?_ ?_
        · exact fun e w₃ h hstrict => (h hstrict).later hlive hoff
        · exact fun _ w₃ h => RelySpec.ends_throw fun _ => h.later hlive hoff
      · cases value with
        | true => exact RelySpec.ends_pure ⟨hoff, by simp [hop]⟩
        | false => exact RelySpec.ends_pure ⟨hoff, by simp [hop]⟩

theorem submit_ends :
    (passSpec strict).Ends (submit task) w (PassEnds strict id w fun outcome w' =>
      HandsOff w w' ∧ outcome ≠ .noncePoolUnavailable) := by
  refine RelySpec.ends_request_bind fun w₁ hw₁ => ⟨trivial, fun ans w₂ hans => ?_⟩
  obtain ⟨hoff, outcome, rfl, hnonce⟩ := hans
  cases outcome with
  | noncePoolUnavailable => exact RelySpec.ends_throw fun hstrict => absurd rfl (hnonce hstrict)
  | _ => exact RelySpec.ends_pure ⟨hw₁.trans hoff, by simp⟩

/-- What comes after a step that left the records alone. -/
theorem stage_later {x : SubmissionFlow Unit} (hlive : Live task.id w) (hoff : HandsOff w w₁)
    (h : (passSpec strict).Ends x w₁ (StageEnds strict task.id w₁)) :
    (passSpec strict).Ends x w₁ (StageEnds strict task.id w) := by
  refine h.mono ?_
  rintro (e | u) w' hend
  · exact fun hstrict => (hend hstrict).later hlive hoff
  · exact EndsTask.later hoff hend

/-- Classification uses up a retry, and ends the task unless the error is transient. -/
theorem classifyTask_ends (hlive : Live task.id w) (error : ChainError) :
    (passSpec strict).Ends (classifyTask E task error) w (PassEnds strict task.id w fun _ w' =>
      LowersTask task.id w w' ∧
        (classifyChainError error ≠ .transient → EndsTask task.id w w')) := by
  have hstage : ∀ {x : SubmissionFlow Unit} {w₁},
      (passSpec strict).Ends x w₁ (StageEnds strict task.id w) →
      (passSpec strict).Ends x w₁ (PassEnds strict task.id w fun _ w' =>
        LowersTask task.id w w' ∧
          (classifyChainError error ≠ .transient → EndsTask task.id w w')) := by
    intro x w₁ h
    refine h.mono ?_
    rintro (e | u) w' hend
    · exact hend
    · exact ⟨EndsTask.lowering hend hlive, fun _ => hend⟩
  unfold classifyTask
  cases hclass : classifyChainError error with
  | alreadyExists =>
      rw [hclass] at hstage
      refine RelySpec.Ends.bind (checkContent_ends hlive) (fun _ _ h => h) ?_
      rintro state w₁ ⟨hoff, -⟩
      have hlive₁ := hoff.live hlive
      cases state with
      | registered => exact hstage (stage_later hlive hoff (markDoneStage_ends hlive₁ _ _))
      | absent => exact hstage (stage_later hlive hoff (markFailedStage_ends hlive₁ _ _))
      | unencodable => exact hstage (stage_later hlive hoff (markFailedStage_ends hlive₁ _ _))
  | transient =>
      refine (transientStage_ends hlive _ _).mono ?_
      rintro (e | u) w' hend
      · exact hend
      · exact ⟨hend, by simp⟩
  | poison =>
      rw [hclass] at hstage
      exact hstage (markFailedStage_ends hlive _ _)

theorem sendFailed_ends (hlive : Live task.id w) (error : ChainError) :
    (passSpec strict).Ends (sendFailed E task error) w (StageEnds strict task.id w) := by
  refine RelySpec.Ends.bind (classifyTask_ends hlive error) (fun _ _ h => h) ?_
  rintro u w' ⟨hlower, hend⟩
  split
  · exact RelySpec.ends_throw fun _ => hlower
  · next hclass => exact RelySpec.ends_pure (hend hclass)

theorem receiptUncertain_ends (hlive : Live task.id w) (error : ChainError) :
    (passSpec strict).Ends (receiptUncertain E task error) w (StageEnds strict task.id w) := by
  refine RelySpec.Ends.bind (classifyTask_ends hlive error) (fun _ _ h => h) ?_
  rintro u w' ⟨hlower, -⟩
  exact RelySpec.ends_throw fun _ => hlower

theorem registerReverted_ends (hlive : Live task.id w) (hcheck : checkOperation E task ≠ none) :
    (passSpec strict).Ends (registerReverted E task) w (StageEnds strict task.id w) := by
  refine RelySpec.Ends.bind (checkContent_ends hlive) (fun _ _ h => h) ?_
  rintro state w₁ ⟨hoff, hstate⟩
  have hlive₁ := hoff.live hlive
  refine stage_later hlive hoff ?_
  cases state with
  | registered => exact markDoneStage_ends hlive₁ _ _
  | unencodable => exact absurd (hstate.mp rfl) hcheck
  | absent =>
      refine RelySpec.Ends.bind submit_ends (fun _ _ h => h) ?_
      rintro outcome w₂ ⟨hoff₂, hnonce⟩
      have hlive₂ := hoff₂.live hlive₁
      refine stage_later hlive₁ hoff₂ ?_
      cases outcome with
      | confirmed txHash onChainId => exact markDoneStage_ends hlive₂ _ _
      | reverted txHash => exact markFailedStage_ends hlive₂ _ _
      | receiptUncertain error => exact receiptUncertain_ends hlive₂ error
      | sendFailed error => exact sendFailed_ends hlive₂ error
      | noncePoolUnavailable => exact absurd rfl hnonce

theorem submitStage_ends (hlive : Live task.id w) (hcheck : checkOperation E task ≠ none) :
    (passSpec strict).Ends (submitStage E task) w (StageEnds strict task.id w) := by
  refine RelySpec.Ends.bind submit_ends (fun _ _ h => h) ?_
  rintro outcome w₁ ⟨hoff, hnonce⟩
  have hlive₁ := hoff.live hlive
  refine stage_later hlive hoff ?_
  cases outcome with
  | confirmed txHash onChainId => exact markDoneStage_ends hlive₁ _ _
  | reverted txHash => exact registerReverted_ends hlive₁ hcheck
  | receiptUncertain error => exact receiptUncertain_ends hlive₁ error
  | sendFailed error => exact sendFailed_ends hlive₁ error
  | noncePoolUnavailable => exact absurd rfl hnonce

theorem driveTask_ends (hlive : Live task.id w) :
    (passSpec strict).Ends (driveTask E task) w (StageEnds strict task.id w) := by
  refine RelySpec.Ends.bind (checkContent_ends hlive) (fun _ _ h => h) ?_
  rintro state w₁ ⟨hoff, hstate⟩
  have hlive₁ := hoff.live hlive
  refine stage_later hlive hoff ?_
  cases state with
  | registered => exact markDoneStage_ends hlive₁ _ _
  | absent => exact submitStage_ends hlive₁ fun hnone => by cases hstate.mpr hnone
  | unencodable => exact markFailedStage_ends hlive₁ _ _

/-! ## One batch -/

/-- How the loop over the tasks of a batch ends: all of them have ended, or a task has used up a
retry and those before it have ended. -/
structure LoopEnds (strict : Prop) (tasks : List RegisterTask) (w : World) (r : Except Halt Unit)
    (w' : World) : Prop where
  through : ∀ u, r = .ok u → MovesOn w w' ∧ w'.queue.committed = w.queue.committed ∧
    ∀ t ∈ tasks, retriesLeft w'.store t.id = 0
  stopped : ∀ e, r = .error e → strict → MovesOn w w' ∧ w'.queue.committed = w.queue.committed ∧
    ∃ earlier task later, tasks = earlier ++ task :: later ∧
      (∀ t ∈ earlier, retriesLeft w'.store t.id = 0) ∧
      retriesLeft w'.store task.id < retriesLeft w.store task.id

/-- What has ended stays so. -/
theorem MovesOn.ended (h : MovesOn w w') (hstored : w.Stored id)
    (hzero : retriesLeft w.store id = 0) : retriesLeft w'.store id = 0 := by
  have hleft := h.left id hstored
  omega

/-- A retry used up later is one used up since `w`. -/
theorem MovesOn.lowered {front : List String} {P : Prop} (h : MovesOn w w₁)
    (hstored : ∀ id ∈ front, w.Stored id)
    (hlater : (∀ id ∈ front, w₁.Stored id) →
      (∃ id ∈ front, retriesLeft w₂.store id < retriesLeft w₁.store id) ∨ P) :
    (∃ id ∈ front, retriesLeft w₂.store id < retriesLeft w.store id) ∨ P := by
  refine (hlater fun id hid => (hstored id hid).mono h.le).imp_left ?_
  rintro ⟨id, hid, hlower⟩
  exact ⟨id, hid, hlower.trans_le (h.left id (hstored id hid))⟩

/-- The first task has ended; the loop goes on with the rest. -/
theorem LoopEnds.cons {tasks : List RegisterTask} {r : Except Halt Unit}
    (hlive : ∀ t ∈ task :: tasks, Live t.id w) (hend : EndsTask task.id w w₁)
    (h : LoopEnds strict tasks w₁ r w₂) :
    LoopEnds strict (task :: tasks) w r w₂ := by
  have hstored : ∀ t ∈ task :: tasks, w.Stored t.id :=
    fun t ht => stored_of_pending (hlive t ht).pending
  have hstored₁ : w₁.Stored task.id := (hstored task List.mem_cons_self).mono hend.1.onward.le
  refine ⟨fun u hu => ?_, fun e he hstrict => ?_⟩
  · obtain ⟨hmoves, hcommitted, hzero⟩ := h.through u hu
    refine ⟨hend.1.onward.trans hmoves, hcommitted.trans hend.1.committed, ?_⟩
    exact List.forall_mem_cons.mpr ⟨hmoves.ended hstored₁ hend.2, hzero⟩
  · obtain ⟨hmoves, hcommitted, earlier, t, later, rfl, hzero, hlt⟩ := h.stopped e he hstrict
    refine ⟨hend.1.onward.trans hmoves, hcommitted.trans hend.1.committed, task :: earlier,
      t, later, rfl, List.forall_mem_cons.mpr ⟨hmoves.ended hstored₁ hend.2, hzero⟩, ?_⟩
    exact hlt.trans_le (hend.1.onward.left t.id (hstored t (by simp)))

theorem driveTasks_ends {tasks : List RegisterTask} (hids : (tasks.map RegisterTask.id).Nodup)
    (hlive : ∀ t ∈ tasks, Live t.id w) :
    (passSpec strict).Ends (driveTasks E tasks) w (LoopEnds strict tasks w) := by
  induction tasks generalizing w with
  | nil => exact RelySpec.ends_pure ⟨fun _ _ => ⟨.refl w, rfl, by simp⟩, by simp⟩
  | cons task tasks ih =>
      rw [List.map_cons, List.nodup_cons] at hids
      refine RelySpec.Ends.bind (driveTask_ends (hlive task List.mem_cons_self)) ?_ ?_
      · intro e w' hlower
        refine ⟨by simp, fun _ _ hstrict => ?_⟩
        obtain ⟨hspares, hlt⟩ := hlower hstrict
        exact ⟨hspares.onward, hspares.committed, [], task, tasks, rfl, by simp, hlt⟩
      · intro u w₁ hend
        have hlive₁ : ∀ t ∈ tasks, Live t.id w₁ := by
          intro t ht
          refine hend.1.live (fun heq => hids.1 ?_) (hlive t (List.mem_cons_of_mem _ ht))
          exact heq ▸ List.mem_map_of_mem ht
        exact (ih hids.2 hlive₁).mono fun r w₂ hloop => hloop.cons hlive hend

theorem canonicalFrom_split (seen : List String) (l l' : List (Option RegisterTask)) :
    ∃ seen', canonicalFrom seen (l ++ l') = canonicalFrom seen l ++ canonicalFrom seen' l' := by
  induction l generalizing seen with
  | nil => exact ⟨seen, rfl⟩
  | cons found l ih =>
      cases found with
      | none => exact ih seen
      | some task =>
          simp only [List.cons_append, canonicalFrom]
          split
          · obtain ⟨seen', hrest⟩ := ih (task.id :: seen)
            exact ⟨seen', by rw [hrest, List.cons_append]⟩
          · exact ih seen

/-- What a batch leaves that was loaded at `w`, in a round that goes well: the offset may move on,
or for every first part of the batch a task in it has used up a retry, unless all of them have ended
and there are others behind them. -/
structure BatchEnds (strict : Prop) (ids : List String) (w : World) (advance : Bool) (w' : World) :
    Prop where
  advanced : advance = true → w'.queue.committed = w.queue.committed
  stopped : strict → MovesOn w w' ∧ w'.queue.committed = w.queue.committed ∧
    (advance = false → ∀ front behind, ids = front ++ behind → (∀ id ∈ front, w.Stored id) →
      (∃ id ∈ front, retriesLeft w'.store id < retriesLeft w.store id) ∨
        behind ≠ [] ∧ ∀ id ∈ front, retriesLeft w'.store id = 0)

/-- A task taken from a load is one of its ids, and live. -/
theorem live_of_canonical {ids seen : List String} {loaded : List (Option RegisterTask)}
    (hloaded : List.Forall₂ (Fetched w w₁) ids loaded) {t : RegisterTask}
    (ht : t ∈ canonicalFrom seen loaded) : t.id ∈ ids ∧ Live t.id w₁ := by
  induction hloaded generalizing seen with
  | nil => cases ht
  | @cons id found ids loaded hfound _ ih =>
      have hrest : ∀ {seen}, t ∈ canonicalFrom seen loaded → t.id ∈ id :: ids ∧ Live t.id w₁ :=
        fun ht => ⟨List.mem_cons_of_mem _ (ih ht).1, (ih ht).2⟩
      cases found with
      | none => exact hrest ht
      | some task =>
          rw [canonicalFrom] at ht
          split at ht
          · next htake =>
              rcases List.mem_cons.mp ht with rfl | ht
              · have hid := hfound.keyed t rfl
                have hpending : t.status.isTerminal = false := by
                  simpa using (Bool.and_eq_true_iff.mp htake).1
                rw [hid]
                exact ⟨List.mem_cons_self, hfound.live t rfl hpending⟩
              · exact hrest ht
          · exact hrest ht

theorem exists_fetched {ids : List String} {loaded : List (Option RegisterTask)}
    (hloaded : List.Forall₂ (Fetched w w₁) ids loaded) (hid : id ∈ ids) :
    ∃ found ∈ loaded, Fetched w w₁ id found := by
  induction hloaded with
  | nil => cases hid
  | @cons _ found _ _ hfound _ ih =>
      rcases List.mem_cons.mp hid with rfl | hid
      · exact ⟨found, List.mem_cons_self, hfound⟩
      · obtain ⟨found', hmem, hfound'⟩ := ih hid
        exact ⟨found', List.mem_cons_of_mem _ hmem, hfound'⟩

/-- An id of a load has ended, or it is that of a task that was taken. -/
theorem ended_or_canonical {ids : List String} {loaded : List (Option RegisterTask)}
    (hloaded : List.Forall₂ (Fetched w w₁) ids loaded) (hid : id ∈ ids) (hstored : w.Stored id) :
    retriesLeft w₁.store id = 0 ∨ ∃ t ∈ canonical loaded, t.id = id := by
  obtain ⟨found, hmem, hfound⟩ := exists_fetched hloaded hid
  by_cases hpending : ∃ task, found = some task ∧ task.status.isTerminal = false
  · obtain ⟨task, rfl, hstatus⟩ := hpending
    obtain ⟨first, hfirst, heq⟩ := exists_firstPending hmem hstatus
    refine .inr ⟨first, ((canonical_distinctPending loaded).mem_iff first).mpr hfirst, ?_⟩
    rw [heq, hfound.keyed task rfl]
  · refine .inl (hfound.ended hstored fun task htask => ?_)
    by_contra hterminal
    exact hpending ⟨task, htask, by simpa using hterminal⟩

/-- The tasks of the first part of a batch come before all others, so the loop has either stopped in
it or gone through it. -/
theorem stopped_split {front behind : List String} {loaded : List (Option RegisterTask)}
    {earlier later : List RegisterTask}
    (hloaded : List.Forall₂ (Fetched w w₁) (front ++ behind) loaded)
    (hstored : ∀ id ∈ front, w.Stored id) (hload : MovesOn w w₁) (hloop : MovesOn w₁ w₂)
    (htasks : canonical loaded = earlier ++ task :: later)
    (hzero : ∀ t ∈ earlier, retriesLeft w₂.store t.id = 0)
    (hlt : retriesLeft w₂.store task.id < retriesLeft w₁.store task.id) :
    (∃ id ∈ front, retriesLeft w₂.store id < retriesLeft w.store id) ∨
      behind ≠ [] ∧ ∀ id ∈ front, retriesLeft w₂.store id = 0 := by
  have hfront : List.Forall₂ (Fetched w w₁) front (loaded.take front.length) := by
    simpa using List.forall₂_take front.length hloaded
  have hbehind : List.Forall₂ (Fetched w w₁) behind (loaded.drop front.length) := by
    simpa using List.forall₂_drop front.length hloaded
  obtain ⟨seen, hsplit⟩ :=
    canonicalFrom_split [] (loaded.take front.length) (loaded.drop front.length)
  rw [List.take_append_drop] at hsplit
  by_cases hin : task ∈ canonical (loaded.take front.length)
  · have hid := (live_of_canonical hfront hin).1
    exact .inl ⟨task.id, hid, hlt.trans_le (hload.left _ (hstored _ hid))⟩
  · -- the loop stopped behind the first part
    have hparts : (∀ t ∈ canonical (loaded.take front.length), t ∈ earlier) ∧
        task ∈ canonicalFrom seen (loaded.drop front.length) := by
      rcases List.append_eq_append_iff.mp (htasks.symm.trans hsplit) with
        ⟨rest, hfirst, hrest⟩ | ⟨rest, hfirst, hrest⟩
      · cases rest with
        | nil =>
            rw [List.append_nil] at hfirst
            refine ⟨fun t ht => hfirst ▸ ht, ?_⟩
            rw [List.nil_append] at hrest
            rw [← hrest]
            exact List.mem_cons_self
        | cons t rest =>
            cases hrest
            exact absurd (by rw [canonical, hfirst]; simp) hin
      · refine ⟨fun t ht => ?_, ?_⟩
        · rw [hfirst]
          exact List.mem_append_left _ ht
        · rw [hrest]
          simp
    refine .inr ⟨?_, fun id hid => ?_⟩
    · rintro rfl
      have hnil : loaded.drop front.length = [] := List.forall₂_nil_left_iff.mp hbehind
      rw [hnil] at hparts
      cases hparts.2
    · rcases ended_or_canonical hfront hid (hstored id hid) with hended | ⟨t, ht, rfl⟩
      · exact hloop.ended ((hstored id hid).mono hload.le) hended
      · exact hzero t (hparts.1 t ht)

theorem submission_ends (ids : List String) :
    (passSpec strict).wp (submission E ids)
      (fun out w' => BatchEnds strict ids w (decide (out = .verdict .advance)) w') w := by
  refine RelySpec.wp_map ?_
  show (passSpec strict).Ends (driveBatch E ids) w
    fun r w' => BatchEnds strict ids w (decide (settle r = .verdict .advance)) w'
  unfold driveBatch
  split
  · exact RelySpec.ends_pure ⟨fun _ => rfl, fun _ => ⟨.refl w, rfl, by simp [settle]⟩⟩
  · refine RelySpec.ends_request_bind fun w₁ hw₁ => ⟨trivial, fun ans w₂ hans => ?_⟩
    rcases hans with ⟨loaded, rfl, hoff, hloaded⟩ | ⟨rfl, hnot⟩
    · have hcommitted : w₂.queue.committed = w.queue.committed := hoff.committed.trans hw₁.committed
      have hexits : ∀ tr r, (driveTasks E (canonical loaded)).run.Runs tr r →
          ∀ e, r = .error e → ∃ reason, e = retry reason := by
        intro tr r hrun e he
        have hend := driveTasks_ensures (canonical loaded) tr r hrun
        rw [he] at hend
        exact hend.1
      have hloop : (passSpec strict).Ends (driveTasks E (canonical loaded)) w₂
          (LoopEnds strict (canonical loaded) w₂) :=
        driveTasks_ends (canonical_distinctPending loaded).distinct
          fun t ht => (live_of_canonical hloaded ht).2
      refine RelySpec.Ends.bind (RelySpec.wp_of_runs hexits hloop) ?_ ?_
      · rintro e w₃ ⟨hloop, hretry⟩
        obtain ⟨reason, rfl⟩ := hretry e rfl
        refine ⟨by simp [settle, retry], fun hstrict => ?_⟩
        obtain ⟨hmoves, hstill, earlier, task, later, htasks, hzero, hlt⟩ :=
          hloop.stopped _ rfl hstrict
        have hload : MovesOn w w₂ := hw₁.onward.trans hoff.onward
        refine ⟨hload.trans hmoves, hstill.trans hcommitted, fun _ front behind hids hstored => ?_⟩
        rw [hids] at hloaded
        exact hw₁.onward.lowered hstored fun hstored₁ =>
          stopped_split hloaded hstored₁ hoff.onward hmoves htasks hzero hlt
      · rintro u w₃ ⟨hloop, -⟩
        obtain ⟨hmoves, hstill, -⟩ := hloop.through u rfl
        refine RelySpec.ends_pure ⟨fun _ => hstill.trans hcommitted, fun _ => ?_⟩
        exact ⟨(hw₁.onward.trans hoff.onward).trans hmoves, hstill.trans hcommitted,
          by simp [settle]⟩
    · exact RelySpec.ends_throw ⟨by simp [settle, retry], fun hstrict => absurd hstrict hnot⟩

theorem processBatch_ends (ids : List String) :
    (drainSpec strict).wp (processBatch E ids) (BatchEnds strict ids w) w := by
  unfold processBatch
  split
  · exact ⟨fun _ => rfl, fun _ => ⟨.refl w, rfl, by simp⟩⟩
  · refine RelySpec.wp_bind (RelySpec.wp_interp ?_ (submission_ends ids)) fun _ _ h => h
    intro op w hpre
    refine RelySpec.wp_mono (execute_ends op (hpre w (HandsOff.refl w))) fun ans w' hpost => ?_
    exact ⟨w, HandsOff.refl w, hpost⟩

/-! ## One round -/

/-- The ids of the envelopes that are not committed. -/
def Queue.waiting (q : Queue) : List String := (q.log.drop q.committed).map RegisterTask.id

theorem Queue.next_ids (q : Queue) :
    (q.next.map fun message => message.2.id) = q.waiting.take pollBatchSize := by
  have hids : ∀ (l : List RegisterTask) (n : Nat),
      ((l.zipIdx n).map fun x => (x.2, x.1)).map (fun message => message.2.id) =
        l.map RegisterTask.id := by
    intro l n
    rw [List.map_map]
    induction l generalizing n with
    | nil => rfl
    | cons t l ih => exact congrArg (t.id :: ·) (ih (n + 1))
  rw [Queue.next, hids, Queue.waiting, List.map_take]

theorem Queue.next_getLast? {q : Queue} {n : Nat} {task : RegisterTask}
    (h : q.next.getLast? = some (n, task)) : n + 1 = q.committed + q.next.length := by
  have hlength : q.next.length = (q.log.drop q.committed |>.take pollBatchSize).length := by
    rw [Queue.next, List.length_map, List.length_zipIdx]
  have hpos : 0 < q.next.length := List.length_pos_iff.mpr fun hnil => by simp [hnil] at h
  rw [Queue.next, List.getLast?_map, List.getLast?_zipIdx] at h
  obtain ⟨⟨t, k⟩, hlast, hpair⟩ := Option.map_eq_some_iff.mp h
  obtain ⟨t', -, hk⟩ := Option.map_eq_some_iff.mp hlast
  cases hpair
  cases hk
  omega

/-- What a round leaves that polled at `w` and went well. -/
structure RoundEnds (w w' : World) : Prop where
  moves : MovesOn w w'
  progress : w.queue.waiting.take pollBatchSize = [] ∨
    w'.queue.committed = w.queue.committed + (w.queue.waiting.take pollBatchSize).length ∨
    ∀ front behind, w.queue.waiting.take pollBatchSize = front ++ behind →
      (∀ id ∈ front, w.Stored id) →
      (∃ id ∈ front, retriesLeft w'.store id < retriesLeft w.store id) ∨
        behind ≠ [] ∧ ∀ id ∈ front, retriesLeft w'.store id = 0

theorem workerRound_ends :
    (drainSpec strict).wp (workerRound E)
      (fun _ w' => strict → ∃ w₁, HandsOff w w₁ ∧ RoundEnds w₁ w') w := by
  have hpoll : (drainSpec strict).wp (onQueue .poll) (fun reply w₁ => HandsOff w w₁ ∧
      (strict → reply ≠ none) ∧ ∀ messages, reply = some messages →
        messages = w₁.queue.next) w := by
    intro w₁ hw₁
    refine ⟨⟨trivial, trivial⟩, fun reply w₂ hpost => ?_⟩
    obtain ⟨hclean, -, rfl, hnext⟩ := hpost
    exact ⟨hw₁, hclean, hnext⟩
  refine RelySpec.wp_bind hpoll ?_
  rintro reply w₁ ⟨hw₁, hclean, hnext⟩
  split
  · exact fun hstrict => absurd rfl (hclean hstrict)
  · next messages =>
      obtain rfl := hnext messages rfl
      have hids := w₁.queue.next_ids
      split
      · next hlast =>
          refine fun _ => ⟨w₁, hw₁, .refl w₁, .inl ?_⟩
          rw [← hids, List.getLast?_eq_none_iff.mp hlast]
          rfl
      · next highest envelope hlast =>
          have hhighest := Queue.next_getLast? hlast
          have hlength : w₁.queue.next.length = (w₁.queue.waiting.take pollBatchSize).length := by
            rw [← hids, List.length_map]
          refine RelySpec.wp_bind onChain_ends ?_
          rintro fee w₂ ⟨hw₂, hfee⟩
          split
          · exact fun hstrict => absurd rfl (hfee hstrict)
          · rw [hids]
            refine RelySpec.wp_bind (processBatch_ends _) ?_
            rintro advance w₃ hbatch
            cases advance with
            | true =>
                -- the offset moves on to the end of what was polled
                have hoffset : (drainSpec strict).wp (onQueue (.storeOffset highest)) (fun _ w₅ =>
                    MovesOn w₃ w₅ ∧ (strict → w₅.queue.committed = highest + 1)) w₃ := by
                  intro w₄ hw₄
                  refine ⟨⟨trivial, ?_⟩, fun reply w₅ hpost => ?_⟩
                  · show w₄.queue.committed ≤ highest + 1
                    rw [hw₄.committed, hbatch.advanced rfl, hw₂.committed]
                    omega
                  · obtain ⟨hclean₅, hmoves, -, hcommitted⟩ := hpost
                    exact ⟨hw₄.onward.trans hmoves, fun hstrict => hcommitted (hclean₅ hstrict)⟩
                refine RelySpec.wp_bind hoffset ?_
                rintro _ w₅ ⟨hmoves, hcommitted⟩ hstrict
                refine ⟨w₁, hw₁, (hw₂.onward.trans (hbatch.stopped hstrict).1).trans hmoves,
                  .inr (.inl ?_)⟩
                rw [hcommitted hstrict, hhighest, hlength]
            | false =>
                refine fun hstrict => ⟨w₁, hw₁, ?_⟩
                obtain ⟨hmoves, -, hstopped⟩ := hbatch.stopped hstrict
                refine ⟨hw₂.onward.trans hmoves, .inr (.inr fun front behind hsplit hstored => ?_)⟩
                exact hw₂.onward.lowered hstored (hstopped rfl front behind hsplit)

end P256Index.Server
