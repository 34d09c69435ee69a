import P256Index.Cloudflare.Onward
import P256Index.Registrar.Agreement
import P256Index.Registrar.Uncertain

/-!
# No lost wake-up

As long as the queue holds an envelope of a pending task, something will come back to it: the alarm
is armed, its handler is at work, or the request that put the envelope there has not looked after
the alarm yet. And an envelope is taken off the queue only once its task is no longer pending.

What a program has learned about a task stays true whatever runs in between (`Submitter.Later`), so
the run of each program so far, with its answers, says what it may still do (`Prog.Underway`).
-/

namespace P256Index.Cloudflare

open Registrar

/-! ## What stays known -/

namespace Submitter

/-- The task had a record, and it is not pending any more. -/
def Gone (o : Submitter) (id : String) : Prop := id ∈ o.stored ∧ ¬ o.tables.Pending id

/-- No stored task becomes pending again, and ids are given out for good. -/
structure Later (o o' : Submitter) : Prop where
  given : o.given ⊆ o'.given
  stored : o.stored ⊆ o'.stored
  pending : ∀ id ∈ o.stored, o'.tables.Pending id → o.tables.Pending id

variable {o o' : Submitter} {id : String}

theorem Gone.later (h : o.Gone id) (hlater : o.Later o') : o'.Gone id :=
  ⟨hlater.stored h.1, fun hpending => h.2 (hlater.pending id h.1 hpending)⟩

end Submitter

variable {D : Deployment} {o o' : Submitter} {v : Visit}

/-- What an answer to the admission program says about the tasks. -/
structure VisitTold (o : Submitter) (op : Admission.Operation) (ans : Admission.Result) : Prop where
  admitted : ∀ task, op = .admitTask task → ans = .admitted .new → task.id ∈ o.stored
  found : ∀ task, op.isLookup = true → ans = .taskFound (some task) → task.id ∈ o.stored
  enqueued : ∀ task, op = .enqueue task → task.id ∈ o.stored
  marked : ∀ id, op = .markAdmitted id → ∃ found, ans = .taskFound found ∧
    ((∀ task ∈ found, task.status.isTerminal = true) → o.Gone id)

theorem VisitTold.later {op : Admission.Operation} {ans : Admission.Result} (h : VisitTold o op ans)
    (hlater : o.Later o') : VisitTold o' op ans where
  admitted task hop hans := hlater.stored (h.admitted task hop hans)
  found task hop hans := hlater.stored (h.found task hop hans)
  enqueued task hop := hlater.stored (h.enqueued task hop)
  marked id hop := by
    obtain ⟨found, hans, hgone⟩ := h.marked id hop
    exact ⟨found, hans, fun hended => (hgone hended).later hlater⟩

/-- What an answer to the submission program says about the tasks. -/
structure HandlerTold (o : Submitter) (op : Submission.Operation) (ans : Submission.Result) :
    Prop where
  loaded : ∀ ids tasks, op = .loadTasks ids → ans = .tasksLoaded tasks →
    List.Forall₂ (Submission.LoadedAs (· ∈ o.stored) o.Gone) ids tasks
  marked : ∀ id, op.terminalMark = some id → o.Gone id

theorem loadedAs_later {id : String} {found : Option RegisterTask} (hlater : o.Later o')
    (h : Submission.LoadedAs (· ∈ o.stored) o.Gone id found) :
    Submission.LoadedAs (· ∈ o'.stored) o'.Gone id found := by
  cases found with
  | none => exact Submitter.Gone.later h hlater
  | some task => exact ⟨h.1, hlater.stored h.2.1, fun hterminal => (h.2.2 hterminal).later hlater⟩

theorem HandlerTold.later {op : Submission.Operation} {ans : Submission.Result}
    (h : HandlerTold o op ans) (hlater : o.Later o') : HandlerTold o' op ans where
  loaded ids tasks hop hans := (h.loaded ids tasks hop hans).imp fun _ _ => loadedAs_later hlater
  marked id hop := (h.marked id hop).later hlater

theorem learns_submitter (o : Submitter) :
    Submission.Learns (· ∈ o.stored) o.Gone (HandlerTold o) where
  loaded h := h.loaded _ _ rfl rfl
  marked hop h := h.marked _ hop

/-! ## The invariant -/

/-- What is known of a request: where its program stands, what it was told, and that its own id has
a record only once it asked for that. -/
structure Visit.Ok (D : Deployment) (o : Submitter) (v : Visit) : Prop where
  given : v.submitted.newTaskId ∈ o.given
  underway : ∀ rest, v.stage = .admitting rest →
    (Admission.admission D.crate D.evm v.submitted).Underway v.past rest
  told : ∀ step ∈ v.past, VisitTold o step.1 step.2
  own : v.submitted.newTaskId ∈ o.stored → ∃ step ∈ v.past, step.1.isAdmit = true
  enqueued : ∀ e ∈ v.enqueued, ∃ task, ⟨.enqueue task, .enqueued⟩ ∈ v.past ∧ task.id = e.taskId

/-- What is known of a batch that is worked on. -/
structure BatchOk (D : Deployment) (o : Submitter) (batch : List EnvelopeRow)
    (past : Submission.Trace)
    (rest : Prog Submission.Operation (fun _ => Submission.Result) Submission.Settled) : Prop where
  underway : (Submission.submission D.evm (batch.map EnvelopeRow.taskId)).Underway past rest
  told : ∀ step ∈ past, HandlerTold o step.1 step.2
  queued : ∀ e ∈ batch, e ∈ o.tables.queue.rows

structure Submitter.Ok (D : Deployment) (o : Submitter) : Prop where
  accounted : Accounted o.tables o.stored
  given : o.stored ⊆ o.given
  distinct : (o.visits.map fun v => v.submitted.newTaskId).Nodup
  visits : ∀ v ∈ o.visits, v.Ok D o
  batch : ∀ batch past rest, o.handler = .working batch past rest → BatchOk D o batch past rest
  /-- Something will come back to an envelope of a pending task. -/
  watched : ∀ e ∈ o.tables.queue.rows, o.tables.Pending e.taskId →
    o.armed = true ∨ o.handler ≠ .idle ∨ ∃ v ∈ o.visits, e ∈ v.enqueued

theorem Visit.Ok.later (h : v.Ok D o) (hlater : o.Later o')
    (hown : v.submitted.newTaskId ∈ o'.stored → v.submitted.newTaskId ∈ o.stored) : v.Ok D o' where
  given := hlater.given h.given
  underway := h.underway
  told step hstep := (h.told step hstep).later hlater
  own hid := h.own (hown hid)
  enqueued := h.enqueued

theorem BatchOk.later {batch : List EnvelopeRow} {past : Submission.Trace}
    {rest : Prog Submission.Operation (fun _ => Submission.Result) Submission.Settled}
    (h : BatchOk D o batch past rest) (hlater : o.Later o')
    (hqueue : o.tables.queue.rows ⊆ o'.tables.queue.rows) : BatchOk D o' batch past rest where
  underway := h.underway
  told step hstep := (h.told step hstep).later hlater
  queued e he := hqueue (h.queued e he)

theorem ok_initial : Submitter.Ok D .initial where
  accounted := by
    constructor
    · intro id row hrow
      cases hrow
    · intro id row hrow
      cases hrow
    · intro id row hrow
      cases hrow
    · intro e he
      cases he
    · intro e he
      cases he
  given := List.Subset.refl _
  distinct := List.nodup_nil
  visits v hv := by cases hv
  batch batch past rest h := by cases h
  watched e he := by cases he

/-! ## Steps that leave the programs where they are -/

theorem later_of_onward (hgiven : o'.given = o.given) (hstored : o'.stored = o.stored)
    (honward : Onward o.tables o'.tables) : o.Later o' where
  given := by rw [hgiven]; exact List.Subset.refl _
  stored := by rw [hstored]; exact List.Subset.refl _
  pending id _ := honward.pending

/-- Records move on, and requests and the handler stay where they are; the handler may also stop
working. -/
theorem Submitter.Ok.steady (h : o.Ok D) (hsteady : Steady o.tables o'.tables)
    (hgiven : o'.given = o.given) (hstored : o'.stored = o.stored) (hvisits : o'.visits = o.visits)
    (hhandler : o'.handler = o.handler ∨ ∀ batch past rest, o'.handler ≠ .working batch past rest)
    (hbusy : o'.armed = true ∨ o'.handler ≠ .idle ∨ o'.armed = o.armed ∧ o.handler = .idle) :
    o'.Ok D := by
  have hlater := later_of_onward hgiven hstored hsteady.onward
  constructor
  · rw [hstored]
    exact hsteady.accounted h.accounted
  · rw [hstored, hgiven]
    exact h.given
  · rw [hvisits]
    exact h.distinct
  · rw [hvisits]
    intro v hv
    exact (h.visits v hv).later hlater (by rw [hstored]; exact id)
  · intro batch past rest hworking
    rcases hhandler with hsame | hnot
    · apply (h.batch batch past rest (hsame ▸ hworking)).later hlater
      rw [hsteady.queue]
      exact List.Subset.refl _
    · exact absurd hworking (hnot batch past rest)
  · intro e he hpending
    rcases hbusy with harmed | hworking | ⟨harmed, hidle⟩
    · exact .inl harmed
    · exact .inr (.inl hworking)
    · rw [hsteady.queue] at he
      rcases h.watched e he (hsteady.onward.pending hpending) with hold | hold | ⟨v, hv, hmem⟩
      · exact .inl (harmed.trans hold)
      · exact absurd hidle hold
      · exact .inr (.inr ⟨v, hvisits ▸ hv, hmem⟩)

/-! ## Requests -/

theorem mem_of_others {before after : List Visit} {w : Visit} (hw : w ∈ before ++ after) :
    w ∈ before ++ v :: after := by
  rcases List.mem_append.mp hw with hw | hw
  · exact List.mem_append_left _ hw
  · exact List.mem_append_right _ (List.mem_cons_of_mem _ hw)

/-- Two requests have two ids. -/
theorem Submitter.Ok.id_ne {before after : List Visit} (h : o.Ok D)
    (hvisits : o.visits = before ++ v :: after) {other : Visit} (hother : other ∈ before ++ after) :
    other.submitted.newTaskId ≠ v.submitted.newTaskId := by
  have hnodup := h.distinct
  rw [hvisits] at hnodup
  have hperm : (before ++ v :: after).Perm (v :: (before ++ after)) := List.perm_middle
  have hcons := ((hperm.map fun v => v.submitted.newTaskId).nodup_iff).mp hnodup
  intro heq
  apply (List.nodup_cons.mp hcons).1
  exact List.mem_map.mpr ⟨other, hother, heq⟩

/-- A request that is through with its program goes on to the alarm, or ends when nobody needs it
any more. -/
theorem Submitter.Ok.leave {before after vs : List Visit} {armed : Bool} (h : o.Ok D)
    (hvisits : o.visits = before ++ v :: after) (harmed : o.armed = true → armed = true)
    (hvs : vs = [] ∨ ∃ stage, (∀ rest, stage ≠ .admitting rest) ∧ vs = [{ v with stage := stage }])
    (hdone : vs = [] → armed = true ∨ ∀ e ∈ v.enqueued, ¬ o.tables.Pending e.taskId) :
    Submitter.Ok D { o with armed := armed, visits := before ++ vs ++ after } := by
  have hlater : o.Later { o with armed := armed, visits := before ++ vs ++ after } :=
    later_of_onward rfl rfl (onward_of_eq rfl)
  have hv : v.Ok D o := h.visits v (by rw [hvisits]; simp)
  refine ⟨h.accounted, h.given, ?_, ?_, ?_, ?_⟩
  · have hdistinct := h.distinct
    rw [hvisits] at hdistinct
    rcases hvs with rfl | ⟨stage, -, rfl⟩
    · refine List.Nodup.sublist ?_ hdistinct
      rw [List.append_nil]
      exact (List.Sublist.append_left (List.sublist_cons_self v after) before).map _
    · simpa using hdistinct
  · intro w hw
    have hw : w ∈ before ++ after ∨ w ∈ vs := by
      simp only [List.mem_append] at hw ⊢
      tauto
    rcases hw with hw | hw
    · exact (h.visits w (hvisits ▸ mem_of_others hw)).later hlater id
    · rcases hvs with rfl | ⟨stage, hstage, rfl⟩
      · cases hw
      · rw [List.mem_singleton.mp hw]
        have hlast := hv.later hlater id
        exact ⟨hlast.given, fun rest hrest => absurd hrest (hstage rest), hlast.told, hlast.own,
          hlast.enqueued⟩
  · intro batch past rest hworking
    exact (h.batch batch past rest hworking).later hlater (List.Subset.refl _)
  · intro e he hpending
    rcases h.watched e he hpending with hset | hworking | ⟨w, hw, hmem⟩
    · exact .inl (harmed hset)
    · exact .inr (.inl hworking)
    · rw [hvisits] at hw
      by_cases hmine : e ∈ v.enqueued
      · rcases hvs with rfl | ⟨stage, -, rfl⟩
        · rcases hdone rfl with hset | hgone
          · exact .inl hset
          · exact absurd hpending (hgone e hmine)
        · exact .inr (.inr ⟨{ v with stage := stage }, by simp, hmine⟩)
      · refine .inr (.inr ⟨w, ?_, hmem⟩)
        have hne : w ≠ v := by
          rintro rfl
          exact hmine hmem
        simp only [List.mem_append, List.mem_cons] at hw ⊢
        tauto

/-- A request whose program has ended without a promise left no pending task on the queue. -/
theorem Visit.Ok.settled {out : Admission.Outcome} (h : v.Ok D o)
    (hstage : v.stage = .admitting (.done out)) (hsettled : v.settled out = []) :
    ∀ e ∈ v.enqueued, ¬ o.tables.Pending e.taskId := by
  intro e he
  obtain ⟨task, hmem, hid⟩ := h.enqueued e he
  rw [← hid]
  have hclosed := Admission.closes_of_runs (h.underway _ hstage).done
  generalize hpast : v.past = past at hclosed
  rw [hpast] at hmem
  cases hclosed with
  | quiet out hquiet => cases hquiet _ hmem
  | refused queued ans out hquiet hans =>
      rcases List.mem_append.mp hmem with hmem | hmem
      · cases hquiet _ hmem
      · obtain ⟨-, rfl⟩ := Sigma.mk.inj (List.mem_singleton.mp hmem)
        exact absurd rfl hans
  | @marked before queued ans hquiet =>
      have htask : task = queued := by
        rcases List.mem_append.mp hmem with hmem | hmem
        · cases hquiet _ hmem
        · simpa using hmem
      subst htask
      have hstep := h.told ⟨.markAdmitted task.id, ans⟩ (by rw [hpast]; simp)
      obtain ⟨found, rfl, hgone⟩ := hstep.marked task.id rfl
      cases found with
      | none => exact (hgone (by simp)).2
      | some record =>
          refine (hgone ?_).2
          intro record' hrecord
          obtain rfl : record = record' := Option.some.inj hrecord
          by_contra hopen
          simp [Visit.settled, Admission.answered, hopen] at hsettled

section Performed

variable {before after : List Visit} {op : Admission.Operation}
  {ans : Admission.Result} {t : Tables}
  {k : Admission.Result → Prog Admission.Operation (fun _ => Admission.Result) Admission.Outcome}

/-- The object after an operation of a request. -/
def Submitter.performed (o : Submitter) (before after : List Visit) (v : Visit)
    (op : Admission.Operation) (ans : Admission.Result) (t : Tables)
    (rest : Prog Admission.Operation (fun _ => Admission.Result) Admission.Outcome) : Submitter :=
  { o with
    tables := t
    stored := newStored op ans ++ o.stored
    visits := before ++ v.went o.tables op ans rest :: after }

/-- What has to be seen of an operation: it keeps the accounts, it stores at most the request's own
id, and the queue grows by what the request has put there. -/
theorem Submitter.Ok.went (h : o.Ok D) (hvisits : o.visits = before ++ v :: after)
    (hstage : v.stage = .admitting (.ask op k))
    (haccounted : Accounted t (newStored op ans ++ o.stored))
    (hlater : o.Later (o.performed before after v op ans t (k ans)))
    (hnew : ∀ id ∈ newStored op ans, id = v.submitted.newTaskId ∧ op.isAdmit = true)
    (htold : VisitTold (o.performed before after v op ans t (k ans)) op ans)
    (hqueue : t.queue.rows = o.tables.queue.rows ++ newEnvelopes o.tables op)
    (hans : ∀ task, op = .enqueue task → ans = .enqueued) :
    (o.performed before after v op ans t (k ans)).Ok D := by
  have hv : v.Ok D o := h.visits v (by rw [hvisits]; simp)
  have hstored : ∀ id, id ∈ (o.performed before after v op ans t (k ans)).stored →
      id ∈ newStored op ans ∨ id ∈ o.stored := fun id => List.mem_append.mp
  refine ⟨haccounted, ?_, ?_, ?_, ?_, ?_⟩
  · intro id hid
    rcases hstored id hid with hid | hid
    · rw [(hnew id hid).1]
      exact hv.given
    · exact h.given hid
  · have hdistinct := h.distinct
    rw [hvisits] at hdistinct
    simpa [Submitter.performed, Visit.went] using hdistinct
  · intro w hw
    have hw : w ∈ before ++ after ∨ w = v.went o.tables op ans (k ans) := by
      have hw : w ∈ before ++ v.went o.tables op ans (k ans) :: after := hw
      simp only [List.mem_append, List.mem_cons] at hw ⊢
      tauto
    rcases hw with hw | rfl
    · -- another request: the new id is not its own
      apply (h.visits w (hvisits ▸ mem_of_others hw)).later hlater
      intro hid
      rcases hstored _ hid with hid | hid
      · exact absurd (hnew _ hid).1 (h.id_ne hvisits hw)
      · exact hid
    · refine ⟨hlater.given hv.given, ?_, ?_, ?_, ?_⟩
      · intro rest hrest
        cases hrest
        exact (hv.underway _ hstage).ask ans
      · intro step hstep
        rcases List.mem_append.mp hstep with hstep | hstep
        · exact (hv.told step hstep).later hlater
        · rw [List.mem_singleton.mp hstep]
          exact htold
      · intro hid
        rcases hstored _ hid with hid | hid
        · exact ⟨⟨op, ans⟩, List.mem_append_right _ (List.mem_singleton_self _), (hnew _ hid).2⟩
        · obtain ⟨step, hstep, hadmits⟩ := hv.own hid
          exact ⟨step, List.mem_append_left _ hstep, hadmits⟩
      · intro e he
        rcases List.mem_append.mp he with he | he
        · cases op with
          | enqueue task =>
              rw [List.mem_singleton.mp he]
              refine ⟨task, List.mem_append_right _ ?_, rfl⟩
              rw [hans task rfl]
              exact List.mem_singleton_self _
          | _ => cases he
        · obtain ⟨task, hmem, hid⟩ := hv.enqueued e he
          exact ⟨task, List.mem_append_left _ hmem, hid⟩
  · intro batch past rest hworking
    apply (h.batch batch past rest hworking).later hlater
    show o.tables.queue.rows ⊆ t.queue.rows
    rw [hqueue]
    exact List.subset_append_left _ _
  · intro e he hpending
    have hlast : v.went o.tables op ans (k ans) ∈
        (o.performed before after v op ans t (k ans)).visits := by
      simp [Submitter.performed]
    have he : e ∈ o.tables.queue.rows ++ newEnvelopes o.tables op := hqueue ▸ he
    rcases List.mem_append.mp he with he | he
    · have hpending := hlater.pending e.taskId (h.accounted.queued e he) hpending
      rcases h.watched e he hpending with hset | hworking | ⟨w, hw, hmem⟩
      · exact .inl hset
      · exact .inr (.inl hworking)
      · refine .inr (.inr ?_)
        rw [hvisits] at hw
        rcases List.mem_append.mp hw with hw | hw
        · exact ⟨w, List.mem_append_left _ hw, hmem⟩
        · rcases List.mem_cons.mp hw with rfl | hw
          · exact ⟨_, hlast, List.mem_append_right _ hmem⟩
          · exact ⟨w, List.mem_append_right _ (List.mem_cons_of_mem _ hw), hmem⟩
    · exact .inr (.inr ⟨_, hlast, List.mem_append_left _ he⟩)

/-- The next operation of a request is one its history allows. -/
theorem Visit.Ok.guarded (h : v.Ok D o) (hstage : v.stage = .admitting (.ask op k)) :
    ∃ task contentHash, Admission.validate D.crate D.evm v.submitted = .ok (task, contentHash) ∧
      Admission.guard D.evm task contentHash v.past op := by
  have hunderway := h.underway _ hstage
  obtain ⟨later, out, hrun⟩ := hunderway.exists_runs default
  cases hvalid : Admission.validate D.crate D.evm v.submitted with
  | error message =>
      obtain ⟨hnil, -⟩ := Admission.runs_of_invalid hvalid hrun
      simp at hnil
  | ok valid =>
      refine ⟨valid.1, valid.2, rfl, hunderway.allowed ?_⟩
      intro tr out hrun
      exact (Admission.allowed_of_runs hvalid hrun).1

/-- A task that is put on the queue has a record. -/
theorem Visit.Ok.stored_of_enqueue {queued : RegisterTask} (h : v.Ok D o)
    (hstage : v.stage = .admitting (.ask (.enqueue queued) k)) : queued.id ∈ o.stored := by
  obtain ⟨task, contentHash, -, -, hreason⟩ := h.guarded hstage
  rcases hreason with ⟨rfl, before, hjust⟩ | ⟨lookup, ⟨⟨before, hjust⟩, hlookup, -⟩, -⟩
  · have hmem : ⟨.admitTask queued, .admitted .new⟩ ∈ v.past := by
      rcases hjust with hjust | ⟨digest, ans, hjust⟩
      · rw [hjust]
        simp
      · rw [hjust]
        simp
    exact (h.told _ hmem).admitted queued rfl rfl
  · have hmem : ⟨lookup, .taskFound (some queued)⟩ ∈ v.past := by
      rw [hjust]
      simp
    exact (h.told _ hmem).found queued hlookup rfl

/-- So has one that is marked: it was put on the queue just before. -/
theorem Visit.Ok.stored_of_mark {id : String} (h : v.Ok D o)
    (hstage : v.stage = .admitting (.ask (.markAdmitted id) k)) : id ∈ o.stored := by
  obtain ⟨later, out, hrun⟩ := (h.underway _ hstage).exists_runs default
  obtain ⟨queued, hmem, rfl⟩ := (Admission.closes_of_runs hrun).enqueued_before rfl
  exact (h.told _ hmem).enqueued queued rfl

/-- An operation of a request keeps the invariant. -/
theorem Submitter.Ok.perform {read : Option Bool} (h : o.Ok D)
    (hvisits : o.visits = before ++ v :: after) (hstage : v.stage = .admitting (.ask op k))
    (hexec : executeAdmission D v.ipHash o.now read op o.tables = (ans, t)) :
    (o.performed before after v op ans t (k ans)).Ok D := by
  have hv : v.Ok D o := h.visits v (by rw [hvisits]; simp)
  rcases executeAdmission_cases h.accounted hexec with
    ⟨task, rfl, rfl, rfl⟩ | ⟨task, rfl, rfl, rfl⟩ | hlooked
  · -- The request's own task gets its record: nobody had the id before.
    obtain ⟨task', contentHash, hvalid, rfl, -, hgates⟩ := hv.guarded hstage
    have hid : task.id = v.submitted.newTaskId := (Admission.validate_fresh hvalid).1.id_eq
    have hfresh : task.id ∉ o.stored := by
      rw [hid]
      intro hstored
      obtain ⟨step, hstep, hadmits⟩ := hv.own hstored
      have hgate := hgates step hstep
      obtain ⟨op, ans⟩ := step
      cases op with
      | admitTask admitted => cases hgate
      | _ => cases hadmits
    apply h.went hvisits hstage (h.accounted.insertTask task)
    · refine ⟨List.Subset.refl _, List.subset_cons_self _ _, ?_⟩
      intro id hstored hpending
      rcases pending_insertTask hpending with rfl | hpending
      · exact absurd hstored hfresh
      · exact hpending
    · intro id hnew
      rw [List.mem_singleton.mp hnew]
      exact ⟨hid, rfl⟩
    · constructor
      · intro task' htask _
        cases htask
        exact List.mem_cons_self
      · intro task' hlookup
        cases hlookup
      · intro task' htask
        cases htask
      · intro id' hmark
        cases hmark
    · exact (List.append_nil _).symm
    · intro task' htask
      cases htask
  · have hstored := hv.stored_of_enqueue hstage
    apply h.went hvisits hstage (h.accounted.enqueue hstored)
    · exact later_of_onward rfl rfl (onward_of_eq rfl)
    · intro id hnew
      cases hnew
    · constructor
      · intro task' htask
        cases htask
      · intro task' hlookup
        cases hlookup
      · intro task' htask
        cases htask
        exact hstored
      · intro id' hmark
        cases hmark
    · exact h.accounted.rows_enqueue task
    · intro _ _
      rfl
  · have hstored : (o.performed before after v op ans t (k ans)).stored = o.stored := by
      show newStored op ans ++ o.stored = o.stored
      rw [hlooked.unstored, List.nil_append]
    apply h.went hvisits hstage
    · rw [hlooked.unstored]
      exact hlooked.accounted h.accounted
    · exact later_of_onward rfl hstored hlooked.onward
    · intro id hnew
      rw [hlooked.unstored] at hnew
      cases hnew
    · constructor
      · rintro task rfl rfl
        cases hlooked.unstored
      · intro task hlookup hans
        rw [hstored]
        exact hlooked.found task hlookup hans
      · rintro task rfl
        cases hlooked.unqueued
      · rintro id rfl
        obtain ⟨found, hans, hgone⟩ := hlooked.marked id rfl
        refine ⟨found, hans, fun hended => ⟨?_, hgone hended⟩⟩
        rw [hstored]
        exact hv.stored_of_mark hstage
    · rw [hlooked.queue, hlooked.unqueued, List.append_nil]
    · rintro task rfl
      cases hlooked.unqueued

end Performed

theorem Submitter.Ok.arrive (h : o.Ok D) (request : AdmissionRequest) (ipHash : String)
    {newTaskId : String} (hfresh : newTaskId ∉ o.given) :
    Submitter.Ok D { o with
      given := newTaskId :: o.given
      visits := .start D o.now request ipHash newTaskId :: o.visits } := by
  have hlater : o.Later { o with
      given := newTaskId :: o.given
      visits := .start D o.now request ipHash newTaskId :: o.visits } :=
    ⟨List.subset_cons_self _ _, List.Subset.refl _, fun _ _ h => h⟩
  refine ⟨h.accounted, List.Subset.trans h.given (List.subset_cons_self _ _), ?_, ?_, ?_, ?_⟩
  · rw [List.map_cons, List.nodup_cons]
    refine ⟨?_, h.distinct⟩
    intro hmem
    obtain ⟨v, hv, hid⟩ := List.mem_map.mp hmem
    have hgiven := (h.visits v hv).given
    rw [hid] at hgiven
    exact hfresh hgiven
  · intro v hv
    rcases List.mem_cons.mp hv with rfl | hv
    · refine ⟨List.mem_cons_self, ?_, ?_, ?_, ?_⟩
      · intro rest hrest
        cases hrest
        exact Prog.underway_start _
      · intro step hstep
        cases hstep
      · intro hstored
        exact absurd (h.given hstored) hfresh
      · intro e he
        cases he
    · exact (h.visits v hv).later hlater id
  · intro batch past rest hworking
    exact (h.batch batch past rest hworking).later hlater (List.Subset.refl _)
  · intro e he hpending
    rcases h.watched e he hpending with hset | hworking | ⟨v, hv, hmem⟩
    · exact .inl hset
    · exact .inr (.inl hworking)
    · exact .inr (.inr ⟨v, List.mem_cons_of_mem _ hv, hmem⟩)

/-! ## The handler -/

theorem mem_of_mem_pollBatch {t : Tables} {limit : Nat} {e : EnvelopeRow}
    (h : e ∈ t.pollBatch limit) : e ∈ t.queue.rows :=
  List.mem_mergeSort.mp (List.mem_of_mem_take h)

/-- Only an empty queue has an empty batch. -/
theorem queue_eq_nil {t : Tables} {limit : Nat} (hlimit : 0 < limit)
    (h : (t.pollBatch limit).isEmpty = true) : t.queue.rows = [] := by
  have hlength := congrArg List.length (List.isEmpty_iff.mp h)
  rw [Tables.pollBatch, List.length_take, List.length_mergeSort, List.length_nil] at hlength
  apply List.eq_nil_of_length_eq_zero
  omega

theorem Submitter.Ok.poll (h : o.Ok D) :
    Submitter.Ok D { o with handler := .start D (o.tables.pollBatch pollBatchSize) } := by
  have hlater : o.Later { o with handler := .start D (o.tables.pollBatch pollBatchSize) } :=
    later_of_onward rfl rfl (onward_of_eq rfl)
  refine ⟨h.accounted, h.given, h.distinct, fun v hv => (h.visits v hv).later hlater id, ?_, ?_⟩
  · intro batch past rest hworking
    have hworking : Handler.start D (o.tables.pollBatch pollBatchSize) =
        .working batch past rest := hworking
    unfold Handler.start at hworking
    split at hworking
    · cases hworking
    · cases hworking
      refine ⟨Prog.underway_start _, ?_, fun e he => mem_of_mem_pollBatch he⟩
      intro step hstep
      cases hstep
  · intro e he _
    by_cases hempty : (o.tables.pollBatch pollBatchSize).isEmpty = true
    · rw [queue_eq_nil (by decide) hempty] at he
      cases he
    · refine .inr (.inl ?_)
      show Handler.start D _ ≠ .idle
      rw [Handler.start, if_neg hempty]
      intro hidle
      cases hidle

section Batch

variable {batch : List EnvelopeRow} {past : Submission.Trace}

theorem Submitter.Ok.work {op : Submission.Operation} {ans : Submission.Result} {t : Tables}
    {read : Option Bool} {outcome : Submission.TxOutcome}
    {k : Submission.Result →
      Prog Submission.Operation (fun _ => Submission.Result) Submission.Settled}
    (h : o.Ok D) (hhandler : o.handler = .working batch past (.ask op k))
    (hexec : executeSubmission o.now read outcome op o.tables = (ans, t)) :
    Submitter.Ok D { o with
      tables := t, handler := .working batch (past ++ [⟨op, ans⟩]) (k ans) } := by
  obtain ⟨hsteady, hloaded, hmarked⟩ := executeSubmission_steady h.accounted hexec
  have hlater :
      o.Later { o with tables := t, handler := .working batch (past ++ [⟨op, ans⟩]) (k ans) } :=
    later_of_onward rfl rfl hsteady.onward
  have hbatch := h.batch batch past _ hhandler
  have hrows : t.queue.rows = o.tables.queue.rows := by rw [hsteady.queue]
  -- What the operation is for has a record.
  obtain ⟨later, out, hrun⟩ := hbatch.underway.exists_runs ans
  have hstored := (Submission.submission_run D.evm hrun).stored (learns_submitter o) hbatch.told
  refine ⟨hsteady.accounted h.accounted, h.given, h.distinct,
    fun v hv => (h.visits v hv).later hlater id, ?_, ?_⟩
  · intro batch' past' rest hworking
    cases hworking
    refine ⟨hbatch.underway.ask ans, ?_, fun e he => by rw [hrows]; exact hbatch.queued e he⟩
    intro step hstep
    rcases List.mem_append.mp hstep with hstep | hstep
    · exact (hbatch.told step hstep).later hlater
    rw [List.mem_singleton.mp hstep]
    constructor
    · rintro ids tasks rfl hans
      have hids : ids = batch.map EnvelopeRow.taskId := by
        rcases hstored with hload | ⟨hload, -⟩
        · cases hload
          rfl
        · exact absurd rfl (hload ids)
      rw [hloaded ids rfl] at hans
      cases hans
      rw [List.forall₂_map_right_iff, List.forall₂_same]
      intro id hid
      rw [hids] at hid
      obtain ⟨e, he, rfl⟩ := List.mem_map.mp hid
      have hmem : e.taskId ∈ o.stored := h.accounted.queued e (hbatch.queued e he)
      apply loadedAs_later hlater
      cases hfound : o.tables.getTask o.now e.taskId with
      | none => exact ⟨hmem, h.accounted.not_pending_of_none hfound⟩
      | some task =>
          obtain ⟨hrow, hid, -⟩ := h.accounted.of_getTask hfound
          exact ⟨hid, hmem, fun hterminal => ⟨hmem, not_pending_of_terminal hrow hterminal⟩⟩
    · intro id hmark
      refine ⟨?_, hmarked id hmark⟩
      rcases hstored with rfl | ⟨-, hid⟩
      · cases hmark
      · exact hid id (Submission.Operation.taskId_of_terminalMark hmark)
  · intro e he hpending
    refine .inr (.inl ?_)
    intro hidle
    cases hidle

/-- The tasks of a batch that advanced are not pending. -/
theorem Submitter.Ok.advanced (h : o.Ok D)
    (hhandler : o.handler = .working batch past (.done (.verdict .advance))) :
    ∀ e ∈ batch, ¬ o.tables.Pending e.taskId := by
  intro e he
  have hbatch := h.batch batch past _ hhandler
  have hrun := Submission.submission_run D.evm hbatch.underway.done
  exact (hrun.finished (learns_submitter o) hbatch.told e.taskId (List.mem_map_of_mem he)).2

theorem Submitter.Ok.advance (h : o.Ok D) (batch : List EnvelopeRow) :
    Submitter.Ok D { o with
      tables := o.tables.deleteBatch batch
      handler := .close (o.tables.deleteBatch batch).queueLen } := by
  have hlater : o.Later { o with
      tables := o.tables.deleteBatch batch
      handler := .close (o.tables.deleteBatch batch).queueLen } :=
    later_of_onward rfl rfl (onward_of_eq rfl)
  refine ⟨h.accounted.deleteBatch batch, h.given, h.distinct,
    fun v hv => (h.visits v hv).later hlater id, ?_, ?_⟩
  · intro batch' past' rest hworking
    have hworking : Handler.close _ = .working batch' past' rest := hworking
    unfold Handler.close at hworking
    split at hworking <;> cases hworking
  · intro e he _
    refine .inr (.inl ?_)
    have hlength : 0 < (o.tables.deleteBatch batch).queueLen := List.length_pos_of_mem he
    show Handler.close _ ≠ .idle
    rw [Handler.close, if_pos hlength]
    intro hidle
    cases hidle

end Batch

/-! ## Every run -/

theorem Submitter.Ok.step (h : o.Ok D) (hstep : Step D o o') : o'.Ok D := by
  cases hstep with
  | tick hle =>
      have hbusy : o.armed = true ∨ o.handler ≠ .idle ∨
          o.armed = o.armed ∧ o.handler = .idle := by tauto
      exact h.steady (steady_refl _) rfl rfl rfl (.inl rfl) hbusy
  | purge =>
      have hbusy : o.armed = true ∨ o.handler ≠ .idle ∨
          o.armed = o.armed ∧ o.handler = .idle := by tauto
      exact h.steady (steady_purge _ _) rfl rfl rfl (.inl rfl) hbusy
  | arrive request ipHash newTaskId hfresh => exact h.arrive request ipHash hfresh
  | perform read hvisits hstage hexec => exact h.perform hvisits hstage hexec
  | @settle before after v out hvisits hstage =>
      have hv : v.Ok D o := h.visits v (by rw [hvisits]; simp)
      apply h.leave hvisits id
      · cases out with
        | queued id status =>
            by_cases hterminal : status.isTerminal = true
            · exact .inl (if_pos hterminal)
            · exact .inr ⟨.checking, by simp, if_neg hterminal⟩
        | _ => exact .inl rfl
      · intro hnone
        exact .inr (hv.settled hstage hnone)
  | @check before after v hvisits hstage =>
      apply h.leave hvisits id
      · unfold Visit.ensureAlarm
        split
        · exact .inl rfl
        · exact .inr ⟨.arming, by simp, rfl⟩
      · intro hnone
        unfold Visit.ensureAlarm at hnone
        split at hnone
        · next harmed => exact .inl harmed
        · cases hnone
  | @arm before after v hvisits hstage =>
      have hleft : Submitter.Ok D { o with armed := true, visits := before ++ [] ++ after } :=
        h.leave hvisits (fun _ => rfl) (.inl rfl) fun _ => .inl rfl
      rwa [List.append_nil] at hleft
  | alarm harmed hidle =>
      refine h.steady (steady_purge _ _) rfl rfl rfl (.inr ?_) (.inr (.inl ?_))
      · intro batch past rest hworking
        cases hworking
      · intro hidle
        cases hidle
  | tooExpensive hgate =>
      refine h.steady (steady_refl _) rfl rfl rfl (.inr ?_) (.inr (.inl ?_))
      · intro batch past rest hworking
        cases hworking
      · intro hidle
        cases hidle
  | poll hgate => exact h.poll
  | work read outcome hhandler hexec => exact h.work hhandler hexec
  | advance hhandler => exact h.advance _
  | retry hhandler =>
      refine h.steady (steady_refl _) rfl rfl rfl (.inr ?_) (.inr (.inl ?_))
      · intro batch past rest hworking
        cases hworking
      · intro hidle
        cases hidle
  | schedule hhandler =>
      refine h.steady (steady_refl _) rfl rfl rfl (.inr ?_) (.inl rfl)
      intro batch past rest hworking
      cases hworking

theorem Reachable.ok (h : Reachable D o) : o.Ok D := by
  induction h with
  | refl => exact ok_initial
  | tail _ hstep ih => exact ih.step hstep

/-- An envelope leaves the queue with a batch that advanced, and with nothing else. -/
theorem Submitter.Ok.removed (h : o.Ok D) (hstep : Step D o o') {e : EnvelopeRow}
    (he : e ∈ o.tables.queue.rows) (hremoved : e ∉ o'.tables.queue.rows) :
    ¬ o.tables.Pending e.taskId := by
  cases hstep with
  | @perform before after v op k ans t read hvisits hstage hexec =>
      exfalso
      apply hremoved
      show e ∈ t.queue.rows
      rcases executeAdmission_cases h.accounted hexec with
        ⟨task, rfl, rfl, rfl⟩ | ⟨task, rfl, rfl, rfl⟩ | hlooked
      · exact he
      · rw [h.accounted.rows_enqueue]
        exact List.mem_append_left _ he
      · rw [hlooked.queue]
        exact he
  | work read outcome hhandler hexec =>
      exfalso
      apply hremoved
      rw [(executeSubmission_steady h.accounted hexec).1.queue]
      exact he
  | @advance batch past hhandler =>
      -- The row of a polled number is still the polled one.
      have hseq : ∃ b ∈ batch, e.seq = b.seq := by
        by_contra hnone
        exact hremoved (mem_deleteBatch.mpr ⟨he, fun b hb hseq => hnone ⟨b, hb, hseq⟩⟩)
      obtain ⟨b, hb, hseq⟩ := hseq
      have hqueued := (h.batch batch past _ hhandler).queued b hb
      rw [List.inj_on_of_nodup_map o.tables.queue.unique he hqueued hseq]
      exact h.advanced hhandler b hb
  | _ => exact absurd he hremoved

/-- The handler will still poll the queue, look at its length or set the alarm: whatever its program
is answered, it ends with a verdict. -/
def Handler.Acts : Handler → Prop
  | .idle => False
  | .gate => True
  | .working _ _ rest => ∀ tr out, rest.Runs tr out → ∃ v, out = .verdict v
  | .arming => True

theorem Submitter.Ok.acts (h : o.Ok D) (hbusy : o.handler ≠ .idle) : o.handler.Acts := by
  cases hhandler : o.handler with
  | idle => exact absurd hhandler hbusy
  | gate => trivial
  | arming => trivial
  | working batch past rest =>
      intro tr out hrun
      have hbatch := h.batch batch past rest hhandler
      exact (Submission.submission_run D.evm (hbatch.underway tr out hrun)).verdict

/-! ## A batch that can only be retried

After a receipt that did not come back the batch ends with a retry, whatever the check that follows
answers: while that check is awaited the handler will neither poll the queue nor look at its length,
it will only set the alarm. -/

/-- The handler may still poll the queue, or look at its length. -/
def Handler.Looks : Handler → Prop
  | .gate => True
  | .working _ _ rest => ∃ tr, rest.Runs tr (.verdict .advance)
  | _ => False

/-- What a request that runs alone has come to. -/
structure Ran where
  tables : Tables
  stored : List String
  past : Admission.Trace
  enqueued : List EnvelopeRow

/-- One operation of it, where the chain reads answer `reads`. -/
def Ran.perform (D : Deployment) (ipHash : String) (now : Nat)
    (reads : Admission.Operation → Option Bool) (op : Admission.Operation) (w : Ran) :
    Admission.Result × Ran :=
  let r := executeAdmission D ipHash now (reads op) op w.tables
  (r.1, { tables := r.2, stored := newStored op r.1 ++ w.stored, past := w.past ++ [⟨op, r.1⟩]
          enqueued := newEnvelopes w.tables op ++ w.enqueued })

/-- The object with this request, its program at `rest`. -/
def Submitter.alone (o : Submitter) (v : Visit) (w : Ran)
    (rest : Prog Admission.Operation (fun _ => Admission.Result) Admission.Outcome) : Submitter :=
  { o with
    tables := w.tables
    stored := w.stored
    visits := [{ v with stage := .admitting rest, past := w.past, enqueued := w.enqueued }] }

theorem Reachable.alone (reads : Admission.Operation → Option Bool) {w : Ran}
    {p : Prog Admission.Operation (fun _ => Admission.Result) Admission.Outcome}
    (h : Reachable D (o.alone v w p)) :
    Reachable D (o.alone v (p.eval (Ran.perform D v.ipHash o.now reads) w).2
      (.done (p.eval (Ran.perform D v.ipHash o.now reads) w).1)) := by
  induction p generalizing w with
  | done out => exact h
  | ask op k ih =>
      apply ih
      have hvisits : (o.alone v w (.ask op k)).visits =
          [] ++ { v with
            stage := .admitting (.ask op k), past := w.past, enqueued := w.enqueued } :: [] := rfl
      exact h.tail (.perform (reads op) hvisits rfl rfl)

/-- Its task queued, it sets the alarm; the alarm fires, and the handler polls. -/
theorem Reachable.polls {w : Ran} {id : String} {status : TaskStatus} {batch : List EnvelopeRow}
    (h : Reachable D (o.alone v w (.done (.queued id status)))) (hopen : status.isTerminal = false)
    (harmed : o.armed = false) (hidle : o.handler = .idle)
    (hpoll : (w.tables.purgeExpired o.now).pollBatch pollBatchSize = batch)
    (hbatch : batch.isEmpty = false) :
    Reachable D { o with
      tables := w.tables.purgeExpired o.now
      stored := w.stored
      armed := false
      visits := []
      handler :=
        .working batch [] (Submission.submission D.evm (batch.map EnvelopeRow.taskId)) } := by
  let settled : Visit := { v with stage := .checking, past := w.past, enqueued := w.enqueued }
  let o₁ : Submitter := { o with tables := w.tables, stored := w.stored, visits := [settled] }
  have hsettled : Reachable D o₁ := by
    have hvisits : (o.alone v w (.done (.queued id status))).visits = [] ++
        { v with
          stage := .admitting (.done (.queued id status)), past := w.past,
          enqueued := w.enqueued } :: [] :=
      rfl
    have hstep := h.tail (.settle hvisits rfl)
    rwa [Visit.settled, hopen, if_neg Bool.false_ne_true] at hstep
  let armer : Visit := { settled with stage := .arming }
  let o₂ : Submitter := { o₁ with visits := [armer] }
  have hchecked : Reachable D o₂ := by
    have hvisits : o₁.visits = [] ++ settled :: [] := rfl
    have hcheck : settled.ensureAlarm o₁.armed = [armer] := by
      show settled.ensureAlarm o.armed = [armer]
      rw [harmed]
      rfl
    have hstep := hsettled.tail (.check hvisits rfl)
    rwa [hcheck] at hstep
  have hset : Reachable D { o₂ with armed := true, visits := [] } := by
    have hvisits : o₂.visits = [] ++ armer :: [] := rfl
    exact hchecked.tail (.arm hvisits rfl)
  have hpolled := (hset.tail (.alarm rfl hidle)).tail (.poll rfl)
  have hstart : Handler.start D ((w.tables.purgeExpired o.now).pollBatch pollBatchSize) =
      .working batch [] (Submission.submission D.evm (batch.map EnvelopeRow.taskId)) := by
    rw [hpoll, Handler.start, hbatch, if_neg Bool.false_ne_true]
  rw [← hstart]
  exact hpolled

namespace Sample

open Registrar.Sample (crate submitted referRequest referTask referHash registry validate_refer)

def deployment : Deployment where
  crate := crate
  evm := Contract.Sample.evm
  registry := registry
  globalWriteLimit := 1

/-- The chain has the group, and not the reference. -/
def reads : Admission.Operation → Option Bool
  | .checkGroupExists _ => some true
  | _ => some false

/-- What the refer of the recorded history comes to on an empty object. -/
def ran : Admission.Outcome × Ran :=
  (Admission.admission crate Contract.Sample.evm (submitted "device" (.refer referRequest))).eval
    (Ran.perform deployment "" 0 reads) ⟨.empty, [], [], []⟩

def device : RegisterTask := { referTask "device" with admitted := true }

theorem ran_eq : ran.1 = .queued "device" .pending ∧ ran.2.tables.queue.rows = [⟨1, "device"⟩] ∧
    (ran.2.tables.purgeExpired 0).getTask 0 "device" = some device := by
  rw [ran, Admission.admission_of_validate (validate_refer "device")]
  decide +kernel

/-- The request, its task queued, before its alarm check. -/
def request : Visit := Visit.start deployment 0 (.refer referRequest) "" "device"

def queued : Submitter :=
  Submitter.alone { Submitter.initial with given := ["device"] } request ran.2 (.done ran.1)

theorem reachable_queued : Reachable deployment queued := by
  have hstart : Reachable deployment
      (Submitter.alone { Submitter.initial with given := ["device"] } request ⟨.empty, [], [], []⟩
        (Admission.admission crate Contract.Sample.evm
          (submitted "device" (.refer referRequest)))) :=
    .single (.arrive (.refer referRequest) "" "device" List.not_mem_nil)
  exact hstart.alone reads

theorem pollBatch_ran :
    (ran.2.tables.purgeExpired 0).pollBatch pollBatchSize = [⟨1, "device"⟩] := by
  rw [Tables.pollBatch, (steady_purge _ _).queue, ran_eq.2.1, List.mergeSort_singleton]
  rfl

/-- The object while its handler works on the request's task. -/
def atWork (t : Tables) (stored : List String) (past : Submission.Trace)
    (rest : Prog Submission.Operation (fun _ => Submission.Result) Submission.Settled) :
    Submitter :=
  { Submitter.initial with
    given := ["device"]
    tables := t
    stored := stored
    handler := .working [⟨1, "device"⟩] past rest }

theorem reachable_polled :
    Reachable deployment (atWork (ran.2.tables.purgeExpired 0) ran.2.stored []
    (Submission.submission Contract.Sample.evm ["device"])) := by
  have h := reachable_queued
  unfold queued at h
  rw [ran_eq.1] at h
  exact h.polls rfl rfl rfl pollBatch_ran rfl

theorem works {t : Tables} {stored : List String} {past : Submission.Trace}
    {op : Submission.Operation} {ans : Submission.Result}
    {rest : Prog Submission.Operation (fun _ => Submission.Result) Submission.Settled}
    {k : Submission.Result →
      Prog Submission.Operation (fun _ => Submission.Result) Submission.Settled}
    (h : Reachable deployment (atWork t stored past rest)) (hrest : rest = .ask op k)
    (read : Option Bool) (outcome : Submission.TxOutcome)
    (hexec : executeSubmission 0 read outcome op t = (ans, t)) :
    Reachable deployment (atWork t stored (past ++ [⟨op, ans⟩]) (k ans)) := by
  subst hrest
  exact h.tail (.work read outcome rfl hexec)

/-- The node answers the receipt wait with an error of the class of writes that exist already: its
message, and the text of no data behind it. -/
def refused : ChainError := .reverted "execution reverted: AlreadyReferenced "

def check : Submission.Operation :=
  .checkReferenced device.groupPublicKey Registrar.Sample.device.publicKey

/-- Loaded, looked for and not found, sent, and no receipt. -/
def uncertain : Submission.Trace :=
  [⟨.loadTasks ["device"], .tasksLoaded [some device]⟩, ⟨check, .contentChecked false⟩,
    ⟨.submitRegister device, .tx (.receiptUncertain refused)⟩]

theorem reachable_uncertain : ∃ k, Reachable deployment
    (atWork (ran.2.tables.purgeExpired 0) ran.2.stored uncertain (.ask check k)) := by
  have hdevice := ran_eq.2.2
  have hpolled := reachable_polled
  -- Only the record matters from here on.
  generalize ran.2.tables.purgeExpired 0 = t at hdevice hpolled ⊢
  generalize ran.2.stored = stored at hpolled ⊢
  have hload : executeSubmission 0 none .noncePoolUnavailable (.loadTasks ["device"]) t =
      (.tasksLoaded [some device], t) := by
    rw [executeSubmission, List.map_singleton, hdevice]
  have hcheck : executeSubmission 0 (some false) .noncePoolUnavailable check t =
      (.contentChecked false, t) := by
    have hgroup : parseHexBytes device.groupPublicKey = some Contract.Sample.groupKey :=
      parseHexBytes_encode _
    have hmember : parseHexBytes Registrar.Sample.device.publicKey =
        some Contract.Sample.deviceKey :=
      parseHexBytes_encode _
    simp only [check, executeSubmission, hgroup, hmember]
    rfl
  have hloaded := works hpolled rfl _ _ hload
  have hchecked := works hloaded rfl _ _ hcheck
  have hsent := works hchecked rfl none (.receiptUncertain refused) rfl
  exact ⟨_, hsent⟩

theorem pending_uncertain
    {rest : Prog Submission.Operation (fun _ => Submission.Result) Submission.Settled} :
    ∃ e ∈ (atWork (ran.2.tables.purgeExpired 0) ran.2.stored uncertain rest).tables.queue.rows,
      (atWork (ran.2.tables.purgeExpired 0) ran.2.stored uncertain rest).tables.Pending
        e.taskId := by
  refine ⟨⟨1, "device"⟩, ?_, ?_⟩
  · show _ ∈ (ran.2.tables.purgeExpired 0).queue.rows
    rw [(steady_purge _ _).queue, ran_eq.2.1]
    exact List.mem_singleton_self _
  · obtain ⟨row, hrow, hpayload, -⟩ := getTask_eq_some.mp ran_eq.2.2
    exact ⟨row, hrow, by rw [hpayload]; rfl⟩

end Sample

/-! ## The result -/

/-- In every state an envelope of a pending task has the alarm armed, a handler that will come back
to the queue or the alarm, or the request that put it there still before its alarm check; and no
step takes an envelope of a pending task off the queue. -/
theorem wakeup_kept (D : Deployment) (o : Submitter) (h : Reachable D o) :
    (∀ e ∈ o.tables.queue.rows, o.tables.Pending e.taskId →
      o.armed = true ∨ o.handler.Acts ∨ ∃ v ∈ o.visits, e ∈ v.enqueued) ∧
    ∀ o', Step D o o' → ∀ e ∈ o.tables.queue.rows,
      e ∉ o'.tables.queue.rows → ¬ o.tables.Pending e.taskId := by
  have hok := h.ok
  constructor
  · intro e he hpending
    rcases hok.watched e he hpending with harmed | hbusy | hvisit
    · exact .inl harmed
    · exact .inr (.inl (hok.acts hbusy))
    · exact .inr (.inr hvisit)
  · intro o' hstep e he hremoved
    exact hok.removed hstep he hremoved

/-- While the handler awaits the check after a receipt that did not come back. -/
theorem wakeup_kept_uncertain : ∃ o, Reachable Sample.deployment o ∧
    (∃ e ∈ o.tables.queue.rows, o.tables.Pending e.taskId) ∧
    (∀ e ∈ o.tables.queue.rows, o.tables.Pending e.taskId →
      o.armed = true ∨ o.handler.Acts ∨ ∃ v ∈ o.visits, e ∈ v.enqueued) ∧
    ∀ o', Step Sample.deployment o o' → ∀ e ∈ o.tables.queue.rows, e ∉ o'.tables.queue.rows →
      ¬ o.tables.Pending e.taskId := by
  obtain ⟨k, hreach⟩ := Sample.reachable_uncertain
  exact ⟨_, hreach, Sample.pending_uncertain, wakeup_kept Sample.deployment _ hreach⟩

/-- There the alarm is not armed and no request is on its way, and the handler awaits an answer
behind which it will neither poll the queue nor look at its length. -/
theorem retry_looks_no_more : ∃ o, Reachable Sample.deployment o ∧
    (∃ e ∈ o.tables.queue.rows, o.tables.Pending e.taskId) ∧ o.armed = false ∧ o.visits = [] ∧
      (∃ batch past k, o.handler = .working batch past (.ask Sample.check k)) ∧
        ¬ o.handler.Looks := by
  obtain ⟨k, hreach⟩ := Sample.reachable_uncertain
  refine ⟨_, hreach, Sample.pending_uncertain, rfl, rfl, ⟨_, _, k, rfl⟩, ?_⟩
  rintro ⟨tr, hrun⟩
  have hunderway := (hreach.ok.batch _ _ _ rfl).underway
  obtain ⟨r, hbatch, hsettle⟩ := Prog.runs_map.mp (hunderway tr _ hrun)
  obtain ⟨⟨reason, rfl⟩, -⟩ := Submission.driveBatch_told _ _ r hbatch
    [⟨.loadTasks ["device"], .tasksLoaded [some Sample.device]⟩,
      ⟨Sample.check, .contentChecked false⟩]
    Sample.device Sample.refused tr rfl
  cases hsettle

end P256Index.Cloudflare
