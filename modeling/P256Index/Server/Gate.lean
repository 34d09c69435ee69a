import P256Index.Server.Placeholder
import P256Index.Server.Shell

/-!
# The refer gate

A refer to a group that is not on the chain is let in only if the group's own register is on its
way, and that register is looked for under the placeholder of the group key. `gate` is the watch
over that lookup: while it is served, no refer to the group of a pending register is turned away as
missing its group.
-/

namespace P256Index.Server

open Registrar Admission

/-- A register of exactly this group that is still on its way, under its group key. -/
def gate : Watch where
  keys task := if task.kind = .register then [toAsciiLowercase task.groupPublicKey] else []
  serves task holder := holder.kind = .register ∧ holder.groupPublicKey = task.groupPublicKey ∧
    holder.status.isTerminal = false
  named task := by
    split
    · simp [memberKeyPlaceholders]
    · simp
  own task key hkey hpending := by
    split at hkey
    · next hkind => exact ⟨hkind, rfl, TaskStatus.isTerminal_eq_false.mpr hpending⟩
    · cases hkey
  failed _ _ h hfailed := by
    rw [hfailed] at h
    cases h.2.2
  keys_congr task task' h := by rw [h.kind, h.groupPublicKey]
  serves_congr task task' holder holder' h h' hstatus hserves := by
    rw [h'.kind, h'.groupPublicKey, h.groupPublicKey, hstatus]
    exact hserves

/-! ## Where a refer is turned away -/

abbrev AdmissionTrace := List ((_ : Operation) × Result)

/-- A lookup is answered from this state of the store; the other answers are free. -/
def AnsweredFrom (s : Store) : Operation → Result → Prop
  | .findTaskByContent contentHash, answer =>
      answer = foundTask (runStore (findByContent contentHash) s).1
  | .findTaskByRetryDigest digest, answer =>
      answer = foundTask (runStore (findByRetryDigest digest) s).1
  | .findTaskByKey keyHash, answer => answer = foundTask (runStore (findByPublicKey keyHash) s).1
  | _, _ => True

def Truthful (s : Store) (tr : AdmissionTrace) : Prop := ∀ step ∈ tr, AnsweredFrom s step.1 step.2

/-- No truthful run of the part exits for want of the group, and its results are as said. -/
def Lets {α : Type} (s : Store) (final : α → Prop) (x : AdmissionFlow α) : Prop :=
  x.Ensures fun tr r => Truthful s tr →
    match r with
    | .error e => e ≠ .referGroupMissing
    | .ok a => final a

/-- A program whose outcome is not that the group is missing. -/
abbrev LetsIn (s : Store) (x : AdmissionFlow Outcome) : Prop := Lets s (· ≠ .referGroupMissing) x

/-- A gate that opens or exits for another reason. -/
abbrev LetsBy (s : Store) (x : AdmissionFlow Unit) : Prop := Lets s (fun _ => True) x

section Rules

variable {α β : Type} {s : Store} {final : α → Prop}

theorem lets_pure {a : α} (ha : final a) : Lets s final (pure a) :=
  Flow.ensures_pure.mpr fun _ => ha

theorem lets_throw {e : Outcome} (he : e ≠ .referGroupMissing) :
    Lets s final (throw e : AdmissionFlow α) :=
  Flow.ensures_throw.mpr fun _ => he

theorem lets_request_bind {op : Operation} {f : Result → AdmissionFlow α}
    (hf : ∀ ans, AnsweredFrom s op ans → Lets s final (f ans)) :
    Lets s final (Flow.request op >>= f) := by
  refine Flow.ensures_request_bind.mpr fun ans tr r hrun htruth => ?_
  have hans : AnsweredFrom s op ans := htruth ⟨op, ans⟩ List.mem_cons_self
  exact hf ans hans tr r hrun fun step hstep => htruth step (List.mem_cons_of_mem _ hstep)

theorem LetsBy.bind {x : AdmissionFlow Unit} {f : Unit → AdmissionFlow β} {final : β → Prop}
    (hx : LetsBy s x) (hf : ∀ a, Lets s final (f a)) : Lets s final (x >>= f) := by
  refine Flow.Ensures.bind hx (fun _ _ h => h) fun tr a _ => ?_
  refine (hf a).mono fun rest r h htruth => ?_
  exact h fun step hstep => htruth step (List.mem_append_right _ hstep)

end Rules

variable {E : Contract.Evm} {s : Store} {task : RegisterTask}

theorem redisDown_ne : redisDown ≠ .referGroupMissing := by
  decide

theorem enqueue_lets (task : RegisterTask) : LetsIn s (enqueue task) := by
  unfold enqueue
  refine lets_request_bind fun ans _ => ?_
  split
  · refine lets_request_bind fun ans _ => ?_
    split
    · exact lets_pure (by simp)
    · exact lets_throw redisDown_ne
  · exact lets_throw (by decide)
  · exact lets_throw redisDown_ne

theorem resume_lets (existing : RegisterTask) : LetsIn s (resume existing) := by
  unfold resume
  split
  · exact lets_pure (by simp)
  · exact enqueue_lets existing

theorem allowIp_lets : LetsBy s allowIp := by
  unfold allowIp
  refine lets_request_bind fun ans _ => ?_
  split
  · exact lets_pure trivial
  · exact lets_throw (by decide)
  · exact lets_throw redisDown_ne

theorem writeGates_lets : LetsBy s writeGates := by
  unfold writeGates
  refine lets_request_bind fun ans _ => ?_
  dsimp only
  split
  on_goal 1 => split
  on_goal 1 => refine LetsBy.bind (lets_throw (by decide)) fun _ => ?_
  on_goal 3 => refine LetsBy.bind (lets_throw redisDown_ne) fun _ => ?_
  -- the global quota stands after each of them
  all_goals
    refine lets_request_bind fun ans _ => ?_
    split
    · exact lets_pure trivial
    · exact lets_throw (by decide)
    · exact lets_throw redisDown_ne

theorem twoPhase_lets (task : RegisterTask) : LetsIn s (twoPhase task none) := by
  unfold twoPhase
  refine lets_request_bind fun ans _ => ?_
  split
  · refine lets_request_bind fun ans _ => ?_
    split
    · split
      · exact lets_pure (by simp)
      · exact enqueue_lets _
    · exact lets_throw redisDown_ne
  · exact enqueue_lets task
  · exact lets_throw redisDown_ne

/-- A register of exactly this group is found under its key. -/
def GateOpen (s : Store) (groupPublicKey : String) : Prop :=
  ∃ holder, s.holder (toAsciiLowercase groupPublicKey) = some holder ∧ holder.kind = .register ∧
    holder.groupPublicKey = groupPublicKey ∧ holder.status.isTerminal = false

theorem found_under_key (keyHash : String) (s : Store) :
    foundTask (runStore (findByPublicKey keyHash) s).1 =
      .taskFound (s.holder (toAsciiLowercase keyHash)) := by
  rw [runStore_findByPublicKey]
  rfl

theorem referGroupGate_lets (hopen : GateOpen s task.groupPublicKey) :
    LetsBy s (referGroupGate task) := by
  obtain ⟨holder, hfound, hserves⟩ := hopen
  unfold referGroupGate
  refine lets_request_bind fun ans _ => ?_
  split
  · exact lets_pure trivial
  · exact lets_pure trivial
  · refine lets_request_bind fun ans hans => ?_
    obtain rfl : ans = .taskFound (some holder) :=
      hans.trans ((found_under_key _ s).trans (congrArg Result.taskFound hfound))
    simp only [if_pos hserves]
    exact lets_pure trivial
  · exact lets_throw redisDown_ne

theorem runStore_findByContent (contentHash : String) (s : Store) :
    runStore (findByContent contentHash) s =
      (.ok (((s.content (toAsciiLowercase contentHash)).map Slot.value).bind s.task), s) := by
  unfold findByContent
  rw [runStore_query_bind]
  simp only [StoreCommand.exec]
  cases s.content (toAsciiLowercase contentHash) with
  | none => rfl
  | some slot => rfl

/-- The refer itself is stored, under its content hash. -/
def Stored (s : Store) (contentHash : String) : Prop :=
  ∃ existing, (runStore (findByContent contentHash) s).1 = .ok (some existing)

theorem driveTask_lets {contentHash : String} (hkind : task.kind = .refer)
    (h : Stored s contentHash ∨ GateOpen s task.groupPublicKey) :
    LetsIn s (driveTask E task contentHash) := by
  have hfresh : GateOpen s task.groupPublicKey → LetsIn s (coalesce E task contentHash) := by
    intro hopen
    have hrest : LetsIn s (do writeGates; twoPhase task none) :=
      LetsBy.bind writeGates_lets fun _ => twoPhase_lets task
    have hgated : LetsIn s (do
        if task.kind = .refer then referGroupGate task else pure ()
        writeGates
        twoPhase task none) := by
      rw [if_pos hkind]
      exact LetsBy.bind (referGroupGate_lets hopen) fun _ => hrest
    unfold coalesce
    rw [hkind]
    refine lets_request_bind fun ans _ => ?_
    split
    · exact lets_pure (by simp)
    · exact hgated
    · exact hgated
    · exact lets_throw redisDown_ne
  unfold driveTask
  refine LetsBy.bind allowIp_lets fun _ => lets_request_bind fun ans hans => ?_
  split
  · exact resume_lets _
  · rcases h with ⟨existing, hexisting⟩ | hopen
    · -- a stored refer is found, so this answer was not true
      have hfound : foundTask (runStore (findByContent contentHash) s).1 =
          .taskFound (some existing) := by
        rw [hexisting]
        rfl
      cases hans.trans hfound
    · exact hfresh hopen
  · exact lets_throw redisDown_ne

theorem referGroupGate_rejects (hclosed : ¬ GateOpen s task.groupPublicKey) :
    ∃ tr, (referGroupGate task).Runs tr (.error .referGroupMissing) ∧ Truthful s tr := by
  let answer : Result := .taskFound (s.holder (toAsciiLowercase task.groupPublicKey))
  refine ⟨[⟨.checkGroupExists task.groupPublicKey, .chainBool false⟩,
    ⟨.findTaskByKey task.groupPublicKey, answer⟩], ?_, ?_⟩
  · refine Flow.runs_request_bind.mpr ⟨.chainBool false, _, rfl, ?_⟩
    refine Flow.runs_request_bind.mpr ⟨answer, [], rfl, ?_⟩
    cases hfound : s.holder (toAsciiLowercase task.groupPublicKey) with
    | none =>
        simp only [answer, hfound]
        exact Flow.runs_throw.mpr ⟨rfl, rfl⟩
    | some holder =>
        have hno : ¬ (holder.kind = .register ∧ holder.groupPublicKey = task.groupPublicKey ∧
            holder.status.isTerminal = false) := fun hserves => hclosed ⟨holder, hfound, hserves⟩
        simp only [answer, hfound, if_neg hno]
        exact Flow.runs_throw.mpr ⟨rfl, rfl⟩
  · have htrue : AnsweredFrom s (.findTaskByKey task.groupPublicKey) answer :=
      (found_under_key task.groupPublicKey s).symm
    simp only [Truthful, List.forall_mem_cons]
    exact ⟨trivial, htrue, by simp⟩

theorem driveTask_rejects {contentHash : String} (hkind : task.kind = .refer)
    (hstored : ¬ Stored s contentHash) (hclosed : ¬ GateOpen s task.groupPublicKey) :
    ∃ tr, (driveTask E task contentHash).Runs tr (.error .referGroupMissing) ∧ Truthful s tr := by
  obtain ⟨tr, hrun, htruth⟩ := referGroupGate_rejects hclosed
  have hnone : (runStore (findByContent contentHash) s).1 = .ok none := by
    rw [Stored, runStore_findByContent] at hstored
    rw [runStore_findByContent]
    cases hfound : ((s.content (toAsciiLowercase contentHash)).map Slot.value).bind s.task with
    | none => rfl
    | some existing => exact absurd ⟨existing, by rw [hfound]⟩ hstored
  refine ⟨⟨.allowIpCreate, .allowed true⟩ :: ⟨.findTaskByContent contentHash, .taskFound none⟩ ::
    ⟨precheck task contentHash, .chainBool false⟩ :: tr, ?_, ?_⟩
  · unfold driveTask
    refine Flow.runs_bind.mpr (.inr ⟨[⟨.allowIpCreate, .allowed true⟩], _, (), rfl, ?_, ?_⟩)
    · exact Flow.runs_request_bind.mpr ⟨.allowed true, [], rfl, Flow.runs_pure.mpr ⟨rfl, rfl⟩⟩
    · refine Flow.runs_request_bind.mpr ⟨.taskFound none, _, rfl, ?_⟩
      simp only [coalesce, hkind]
      refine Flow.runs_request_bind.mpr ⟨.chainBool false, tr, rfl, ?_⟩
      simp only [hkind, if_true]
      exact Flow.runs_bind.mpr (.inl ⟨_, hrun, rfl⟩)
  · have hanswer : AnsweredFrom s (.findTaskByContent contentHash) (.taskFound none) :=
      (congrArg foundTask hnone).symm
    have hcheck : AnsweredFrom s (precheck task contentHash) (.chainBool false) := by
      simp only [precheck, hkind]
      trivial
    simp only [Truthful, List.forall_mem_cons]
    exact ⟨trivial, hanswer, hcheck, htruth⟩

/-! ## The group that is on its way -/

/-- A register of the group is stored and pending. -/
def Store.GroupPending (s : Store) (groupPublicKey : String) : Prop :=
  ∃ id register, s.task id = some register ∧ register.kind = .register ∧
    register.status = .pending ∧ register.groupPublicKey = groupPublicKey

/-- No truthful run of the request ends with the group missing. -/
def NeverMissing (K : P256Crate) (E : Contract.Evm) (s : Store) (submitted : Submission) : Prop :=
  ∀ tr out, (admission K E submitted).Runs tr out → Truthful s tr → out ≠ .referGroupMissing

theorem gate_served_iff :
    gate.Served s ↔
      ∀ groupPublicKey, s.GroupPending groupPublicKey → GateOpen s groupPublicKey := by
  constructor
  · rintro hserved _ ⟨id, register, hstored, hkind, hpending, rfl⟩
    have hkey : toAsciiLowercase register.groupPublicKey ∈ gate.keys register := by
      simp [gate, hkind]
    exact hserved id register hstored hpending _ hkey
  · intro hopen id task hstored hpending key hkey
    by_cases hkind : task.kind = .register
    · obtain rfl : key = toAsciiLowercase task.groupPublicKey := by
        simpa [gate, hkind] using hkey
      exact hopen task.groupPublicKey ⟨id, task, hstored, hkind, hpending, rfl⟩
    · simp [gate, hkind] at hkey

section Requests

variable {K : P256Crate} {submitted : Submission} {request : ReferRequest} {contentHash : String}

theorem kind_of_refer (hrequest : submitted.request = .refer request)
    (hvalid : validate K E submitted = .ok (task, contentHash)) : task.kind = .refer := by
  rw [validate, hrequest] at hvalid
  obtain ⟨_, _, _, -, -, haccepted⟩ := validateRefer_iff.mp hvalid
  exact congrArg RegisterTask.kind haccepted.task_eq

theorem neverMissing_iff (hrequest : submitted.request = .refer request)
    (hvalid : validate K E submitted = .ok (task, contentHash)) :
    NeverMissing K E s submitted ↔ Stored s contentHash ∨ GateOpen s task.groupPublicKey := by
  have hkind := kind_of_refer hrequest hvalid
  rw [NeverMissing, admission_of_validate hvalid]
  constructor
  · intro hnever
    by_contra hneither
    rw [not_or] at hneither
    obtain ⟨tr, hrun, htruth⟩ := driveTask_rejects hkind hneither.1 hneither.2
    exact hnever tr .referGroupMissing (Prog.runs_map.mpr ⟨_, hrun, rfl⟩) htruth rfl
  · intro h tr out hrun htruth
    obtain ⟨r, hdrive, rfl⟩ := Prog.runs_map.mp hrun
    have hlets := driveTask_lets hkind h tr r hdrive htruth
    cases r with
    | error e => exact hlets
    | ok out => exact hlets

end Requests

/-- Along careful steps no refer to the group of a pending register is turned away as missing its
group; a step keeps the gate open for every such group exactly if it is careful; and in any state,
what lets a refer in is that it is stored itself or that the gate is open. -/
theorem refer_let_in_iff (K : P256Crate) (E : Contract.Evm)
    (h : Store.Reaches gate.Careful Store.empty s) :
    (∀ submitted request task contentHash, submitted.request = .refer request →
      validate K E submitted = .ok (task, contentHash) → s.GroupPending task.groupPublicKey →
        NeverMissing K E s submitted) ∧
    (∀ e s', StoreEvent.Step s e s' → (gate.Careful e s ↔
      ∀ groupPublicKey, s'.GroupPending groupPublicKey → GateOpen s' groupPublicKey)) ∧
    ∀ s' submitted request task contentHash, submitted.request = .refer request →
      validate K E submitted = .ok (task, contentHash) →
        (NeverMissing K E s' submitted ↔
          Stored s' contentHash ∨ GateOpen s' task.groupPublicKey) := by
  obtain ⟨htidy, hserved⟩ := Watch.served_of_reaches h
  refine ⟨?_, ?_, ?_⟩
  · intro submitted request task contentHash hrequest hvalid hpending
    rw [neverMissing_iff hrequest hvalid]
    exact .inr (gate_served_iff.mp hserved task.groupPublicKey hpending)
  · intro e s' hstep
    rw [← gate_served_iff]
    exact (Watch.served_iff htidy.keyed hserved hstep).symm
  · intro s' submitted request task contentHash hrequest hvalid
    exact neverMissing_iff hrequest hvalid

open Registrar.Sample (crate submitted registerTask referTask referRequest referHash validate_refer)

/-- The group is on its way, its device was admitted behind it and failed, and the device that
refers to it again is let in. -/
theorem refer_let_in_iff_group : ∃ s, Store.Reaches gate.Careful Store.empty s ∧
    (∃ device, s.task "device" = some device ∧ device.status = .failed) ∧
      NeverMissing crate Contract.Sample.evm s (submitted "again" (.refer referRequest)) := by
  have hid := registerTask_id_ne
  have hhash := registerTask_hash_ne.symm
  have hreach : Store.Reaches gate.Careful Store.empty
      (recede (registerTask "group") (referTask "device")) :=
    recede_reached hid hhash rfl rfl fun key hkey _ => by cases hkey
  have hpending : Store.GroupPending (recede (registerTask "group") (referTask "device"))
      (referTask "again").groupPublicKey :=
    ⟨"group", registerTask "group", recede_first hid hhash, rfl, rfl, rfl⟩
  have hrequest : (submitted "again" (.refer referRequest)).request = .refer referRequest := rfl
  exact ⟨_, hreach, ⟨_, recede_second hhash, rfl⟩,
    (refer_let_in_iff crate Contract.Sample.evm hreach).1 _ _ _ _ hrequest (validate_refer "again")
      hpending⟩

/-- The placeholder went away with a task that had claimed it first: the group is on its way, and
its device is turned away. -/
theorem refer_turned_away : ∃ s, Store.Reaches (fun _ _ => True) Store.empty s ∧
    validate crate Contract.Sample.evm (submitted "again" (.refer referRequest)) =
      .ok (referTask "again", hexText referHash.val) ∧
    s.GroupPending (referTask "again").groupPublicKey ∧
      ∃ tr, (admission crate Contract.Sample.evm (submitted "again" (.refer referRequest))).Runs tr
        .referGroupMissing ∧ Truthful s tr := by
  have hid := registerTask_id_ne.symm
  let s := strand (referTask "device") (registerTask "group")
  have hstored : ¬ Stored s (hexText referHash.val) := by
    have hfree : s.content (toAsciiLowercase (hexText referHash.val)) = none :=
      strand_content hid registerTask_hash_ne
    intro ⟨stored, hfound⟩
    rw [runStore_findByContent, hfree] at hfound
    cases hfound
  have hclosed : ¬ GateOpen s (referTask "again").groupPublicKey := by
    intro ⟨holder, hfound, _⟩
    have hgone : s.holder (toAsciiLowercase (referTask "again").groupPublicKey) = none :=
      strand_holder hid registerTask_hash_ne groupKey_named
    cases hgone.symm.trans hfound
  have hkind : (referTask "again").kind = .refer := rfl
  obtain ⟨tr, hrun, htruth⟩ := driveTask_rejects hkind hstored hclosed
  have hpending : s.GroupPending (referTask "again").groupPublicKey :=
    ⟨"group", registerTask "group", strand_task hid registerTask_hash_ne, rfl, rfl, rfl⟩
  refine ⟨s, strand_reached rfl rfl hid, validate_refer "again", hpending, tr, ?_, htruth⟩
  rw [admission_of_validate (validate_refer "again")]
  exact Prog.runs_map.mpr ⟨_, hrun, rfl⟩

end P256Index.Server
