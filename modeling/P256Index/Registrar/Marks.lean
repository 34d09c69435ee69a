import P256Index.Contract.Growth
import P256Index.Registrar.Conduct
import P256Index.Registrar.Reconcile

/-!
# What the marks say about the chain

The worker ends a task on the strength of what it saw last. Between any two of its operations anyone
may write to the registry, the task's own content included, and a transaction of the worker may land
without its knowing. A task that is marked done is on the chain whatever happens. A task that is
marked failed was not there when it was last looked for; whether it is there now depends on the
calls accepted since, and the program does not look again.
-/

namespace P256Index.Registrar.Submission

open Contract (Registry)

variable {K : P256Crate} {E : Contract.Evm} {d : Contract.Domain} {s s' : Registry}
  {task : RegisterTask}

/-! ## Content on the chain -/

/-- The content hash is registered, or the pair of keys is referenced: the task's own check says
yes. -/
def Written (E : Contract.Evm) (s : Registry) (task : RegisterTask) : Prop :=
  ∃ op, checkOperation E task = some op ∧ readCheck E s op = some true

/-- The call registers the content hash or refers the pair of keys that a check asks for. -/
def Brings (E : Contract.Evm) (data : Bytes) : Operation → Prop
  | .checkContentRegistered contentHash => ∃ a, E.decode data = some (.register a) ∧
      parseB256 contentHash =
        some (Contract.contentHashFor E a.rpId a.metadata a.groupPublicKey a.members)
  | .checkReferenced group member => ∃ a g m, E.decode data = some (.refer a) ∧
      parseHexBytes group = some g ∧ parseHexBytes member = some m ∧
        E.keccak256 a.groupPublicKey = E.keccak256 g ∧
          E.keccak256 a.member.publicKey = E.keccak256 m
  | _ => False

/-- The call has the content of the task. -/
def Carries (E : Contract.Evm) (task : RegisterTask) (data : Bytes) : Prop :=
  ∃ op, checkOperation E task = some op ∧ Brings E data op

/-- A check says yes after a call exactly if it said so before, or the call brings what it asks for.
-/
theorem readCheck_call_iff {now : Nat} {data : Bytes} (hs : Contract.Reachable E d s)
    (hcall : Contract.call E d now data s = .ok s') (op : Operation) :
    readCheck E s' op = some true ↔ readCheck E s op = some true ∨ Brings E data op := by
  cases op with
  | checkContentRegistered contentHash =>
      simp only [readCheck, Brings, Option.map_eq_some_iff, Contract.call_content_iff hs hcall]
      constructor
      · rintro ⟨c, hc, hthere | ⟨a, hdec, rfl⟩⟩
        · exact .inl ⟨c, hc, hthere⟩
        · exact .inr ⟨a, hdec, hc⟩
      · rintro (⟨c, hc, hthere⟩ | ⟨a, hdec, hc⟩)
        · exact ⟨c, hc, .inl hthere⟩
        · exact ⟨_, hc, .inr ⟨a, hdec, rfl⟩⟩
  | checkReferenced group member =>
      simp only [readCheck, Brings, Option.bind_eq_bind, Option.bind_eq_some_iff, Option.pure_def,
        Option.some.injEq, Contract.call_reference_iff hs hcall]
      constructor
      · rintro ⟨g, hg, m, hm, hthere | ⟨a, hdec, hkeys⟩⟩
        · exact .inl ⟨g, hg, m, hm, hthere⟩
        · exact .inr ⟨a, g, m, hdec, hg, hm, hkeys⟩
      · rintro (⟨g, hg, m, hm, hthere⟩ | ⟨a, g, m, hdec, hg, hm, hkeys⟩)
        · exact ⟨g, hg, m, hm, .inl hthere⟩
        · exact ⟨g, hg, m, hm, .inr ⟨a, hdec, hkeys⟩⟩
  | _ => simp [readCheck, Brings]

theorem written_call_iff {now : Nat} {data : Bytes} (hs : Contract.Reachable E d s)
    (hcall : Contract.call E d now data s = .ok s') :
    Written E s' task ↔ Written E s task ∨ Carries E task data := by
  simp only [Written, Carries, readCheck_call_iff hs hcall, and_or_left, exists_or]

/-- Content is on the chain after some calls exactly if it was there, or one of them has it. -/
theorem written_calls_iff {xs : List (Nat × Bytes)} (hs : Contract.Reachable E d s)
    (hcalls : Contract.calls E d xs s = .ok s') :
    Written E s' task ↔ Written E s task ∨ ∃ x ∈ xs, Carries E task x.2 := by
  induction xs generalizing s with
  | nil =>
      cases hcalls
      simp
  | cons x xs ih =>
      obtain ⟨t, hcall, hrest⟩ := Contract.calls_cons_eq_ok.mp hcalls
      rw [ih (.call hs hcall) hrest, written_call_iff hs hcall, or_assoc, List.exists_mem_cons_iff]

theorem Written.of_calls {xs : List (Nat × Bytes)} (hs : Contract.Reachable E d s)
    (hcalls : Contract.calls E d xs s = .ok s') (h : Written E s task) : Written E s' task :=
  (written_calls_iff hs hcalls).mpr (.inl h)

/-- One of the calls put the content there. -/
def LandedIn (E : Contract.Evm) (d : Contract.Domain) (s : Registry) (xs : List (Nat × Bytes))
    (task : RegisterTask) : Prop :=
  ∃ before now data after s₁ s₂, xs = before ++ (now, data) :: after ∧
    Contract.calls E d before s = .ok s₁ ∧ Contract.call E d now data s₁ = .ok s₂ ∧
      ¬ Written E s₁ task ∧ Written E s₂ task

/-- Content that was not there is there now exactly if one of the calls in between put it there. -/
theorem written_iff_landedIn {xs : List (Nat × Bytes)} (hs : Contract.Reachable E d s)
    (hcalls : Contract.calls E d xs s = .ok s') (habsent : ¬ Written E s task) :
    Written E s' task ↔ LandedIn E d s xs task := by
  constructor
  · intro hwritten
    induction xs generalizing s with
    | nil =>
        cases hcalls
        exact absurd hwritten habsent
    | cons x xs ih =>
        obtain ⟨t, hcall, hrest⟩ := Contract.calls_cons_eq_ok.mp hcalls
        by_cases ht : Written E t task
        · exact ⟨[], x.1, x.2, xs, s, t, rfl, rfl, hcall, habsent, ht⟩
        · obtain ⟨before, now, data, after, s₁, s₂, rfl, hbefore, hlands⟩ :=
            ih (.call hs hcall) hrest ht
          exact ⟨x :: before, now, data, after, s₁, s₂, rfl,
            Contract.calls_cons_eq_ok.mpr ⟨t, hcall, hbefore⟩, hlands⟩
  · rintro ⟨before, now, data, after, s₁, s₂, rfl, hbefore, hcall, -, hwritten⟩
    obtain ⟨t, hfirst, hlater⟩ := Contract.calls_append_eq_ok.mp hcalls
    cases hfirst.symm.trans hbefore
    obtain ⟨t₂, hsame, hafter⟩ := Contract.calls_cons_eq_ok.mp hlater
    cases hsame.symm.trans hcall
    exact hwritten.of_calls (.call (Contract.calls_grows hs hbefore).1 hcall) hafter

/-- What put it there is a call with the content of the task. -/
theorem landedIn_iff_carries {xs : List (Nat × Bytes)} (hs : Contract.Reachable E d s)
    (hcalls : Contract.calls E d xs s = .ok s') (habsent : ¬ Written E s task) :
    LandedIn E d s xs task ↔ ∃ x ∈ xs, Carries E task x.2 := by
  rw [← written_iff_landedIn hs hcalls habsent, written_calls_iff hs hcalls, or_iff_right habsent]

/-! ## The worker and everyone else -/

/-- A record of a task that passed validation: the store changes nothing else in it. -/
def FromAdmission (K : P256Crate) (E : Contract.Evm) (task : RegisterTask) : Prop :=
  ∃ submitted validated text, Admission.validate K E submitted = .ok (validated, text) ∧
    ∃ status txHash onChainId error retries admitted, task = { validated with
      status := status, txHash := txHash, onChainId := onChainId, error := error, retries := retries
      admitted := admitted }

theorem FromAdmission.of_validate {submitted : Admission.Submission} {text : String}
    (h : Admission.validate K E submitted = .ok (task, text)) : FromAdmission K E task :=
  ⟨submitted, task, text, h, task.status, task.txHash, task.onChainId, task.error, task.retries,
    task.admitted, rfl⟩

/-- Its check exists and can be read, its calldata exists too, and an accepted call of it is seen by
the check. -/
theorem FromAdmission.check (h : FromAdmission K E task) :
    ∃ op data, checkOperation E task = some op ∧ writeCalldata task = some data ∧
      (∀ s, ∃ there, readCheck E s op = some there) ∧
      ∀ d s now s', Contract.Reachable E d s → Contract.call E d now data s = .ok s' →
        readCheck E s' op = some true := by
  obtain ⟨⟨request, newTaskId, nowMs, chainId, registry⟩, validated, text, hvalid, status, txHash,
    onChainId, error, retries, admitted, rfl⟩ := h
  cases request with
  | register request =>
      obtain ⟨address, groupProof, contentHash, -, -, haccepted⟩ := validateRegister_eq_ok hvalid
      obtain ⟨hop, hread, data, hdata⟩ := haccepted.ownCheck
      refine ⟨_, data, hop, hdata, fun s => ⟨_, hread s⟩, fun d s now s' hs hcall => ?_⟩
      rw [hread, (haccepted.check_of_call hs hdata hcall).1]
  | refer request =>
      obtain ⟨address, member, contentHash, -, -, haccepted⟩ := validateRefer_iff.mp hvalid
      obtain ⟨hop, hread, data, hdata⟩ := haccepted.ownCheck
      refine ⟨_, data, hop, hdata, fun s => ⟨_, hread s⟩, fun d s now s' hs hcall => ?_⟩
      rw [hread, haccepted.check_of_call hs hdata hcall]

/-- The registry, the batch that is worked on, and on record: the last check that was answered, the
state it was answered from, and the calls accepted since. -/
structure ChainWorld where
  registry : Registry
  batch : List RegisterTask
  answered : Option (Operation × Bool)
  checkedAt : Registry
  since : List (Nat × Bytes)

/-- Nothing was asked yet. -/
def ChainWorld.start (s : Registry) : ChainWorld := ⟨s, [], none, s, []⟩

variable {w w' : ChainWorld}

/-- A call is accepted, whoever sent it. -/
def Accepts (E : Contract.Evm) (d : Contract.Domain) (data : Bytes) (w w' : ChainWorld) : Prop :=
  ∃ now s', Contract.call E d now data w.registry = .ok s' ∧
    w' = { w with registry := s', since := w.since ++ [(now, data)] }

/-- What the shell may answer, truthfully. A check is answered from the registry of the moment. A
receipt says what became of the task's transaction; a send that failed or whose receipt is uncertain
may have landed all the same. -/
inductive Performs (K : P256Crate) (E : Contract.Evm) (d : Contract.Domain) :
    Operation → ChainWorld → Result → ChainWorld → Prop
  | loaded {w : ChainWorld} {ids : List String} {tasks : List (Option RegisterTask)} :
      (∀ task, some task ∈ tasks → FromAdmission K E task) →
        Performs K E d (.loadTasks ids) w (.tasksLoaded tasks) { w with batch := canonical tasks }
  | checked {w : ChainWorld} {op : Operation} {answer : Bool} :
      readCheck E w.registry op = some answer →
        Performs K E d op w (.contentChecked answer)
          { w with answered := some (op, answer), checkedAt := w.registry, since := [] }
  | confirmed {w w' : ChainWorld} {task : RegisterTask} {data : Bytes} (txHash : String)
      (onChainId : Option UInt64) : writeCalldata task = some data → Accepts E d data w w' →
        Performs K E d (.submitRegister task) w (.tx (.confirmed txHash onChainId)) w'
  | reverted {w : ChainWorld} {task : RegisterTask} {data : Bytes} {now : Nat} {e : Contract.Revert}
      (txHash : String) : writeCalldata task = some data →
        Contract.call E d now data w.registry = .error e →
          Performs K E d (.submitRegister task) w (.tx (.reverted txHash)) w
  | unsent {w : ChainWorld} {task : RegisterTask} {outcome : TxOutcome} :
      (∀ txHash onChainId, outcome ≠ .confirmed txHash onChainId) →
        (∀ txHash, outcome ≠ .reverted txHash) →
        Performs K E d (.submitRegister task) w (.tx outcome) w
  | unseen {w w' : ChainWorld} {task : RegisterTask} {data : Bytes} {outcome : TxOutcome} :
      (∃ error, outcome = .receiptUncertain error ∨ outcome = .sendFailed error) →
        writeCalldata task = some data → Accepts E d data w w' →
          Performs K E d (.submitRegister task) w (.tx outcome) w'
  | silent {w : ChainWorld} {op : Operation} {ans : Result} :
      ans = .persisted ∨ ans = .storeUnavailable ∨ ans = .chainReadFailed →
        Performs K E d op w ans w

/-- One batch after another, with foreign calls at any time in between. -/
def worker (K : P256Crate) (E : Contract.Evm) (d : Contract.Domain) :
    Machine Operation (fun _ => Result) ChainWorld Settled where
  perform := Performs K E d
  drift w w' := ∃ data, Accepts E d data w w'
  starts _ := False

def batches (E : Contract.Evm) (p : Prog Operation (fun _ => Result) Settled) : Prop :=
  ∃ ids, p = submission E ids

/-- What a mark needs: the task of that id is on the chain, or the last check was its own and was
answered with no. -/
def markNeeds (E : Contract.Evm) : Operation → ChainWorld → Prop
  | .markDone id _ _, w => ∃ task ∈ w.batch, task.id = id ∧ Written E w.registry task
  | .markFailed id _ _, w => ∃ task ∈ w.batch, task.id = id ∧
      ∃ op, checkOperation E task = some op ∧ w.answered = some (op, false)
  | _, _ => True

def markSpec (K : P256Crate) (E : Contract.Evm) (d : Contract.Domain) :
    RelySpec Operation (fun _ => Result) ChainWorld where
  rely := Relation.ReflTransGen fun w w' => ∃ data, Accepts E d data w w'
  refl _ := .refl
  trans := .trans
  pre := markNeeds E
  post := Performs K E d

/-- The record of the last check is in order. -/
structure OnRecord (E : Contract.Evm) (d : Contract.Domain) (w : ChainWorld) : Prop where
  reachable : Contract.Reachable E d w.checkedAt
  calls : Contract.calls E d w.since w.checkedAt = .ok w.registry
  answered : ∀ op answer, w.answered = some (op, answer) → readCheck E w.checkedAt op = some answer
  distinct : (w.batch.map RegisterTask.id).Nodup

theorem OnRecord.registry (h : OnRecord E d w) : Contract.Reachable E d w.registry :=
  (Contract.calls_grows h.reachable h.calls).1

theorem OnRecord.accepts {data : Bytes} (h : OnRecord E d w) (haccepts : Accepts E d data w w') :
    OnRecord E d w' := by
  obtain ⟨now, s', hcall, rfl⟩ := haccepts
  refine ⟨h.reachable, ?_, h.answered, h.distinct⟩
  exact Contract.calls_append_eq_ok.mpr
    ⟨w.registry, h.calls, Contract.calls_cons_eq_ok.mpr ⟨s', hcall, rfl⟩⟩

theorem OnRecord.performs {op : Operation} {ans : Result} (h : OnRecord E d w)
    (hop : Performs K E d op w ans w') : OnRecord E d w' := by
  cases hop with
  | loaded htasks => exact ⟨h.reachable, h.calls, h.answered, canonicalFrom_nodup _ []⟩
  | checked hread =>
      refine ⟨h.registry, rfl, ?_, h.distinct⟩
      intro op answer heq
      cases heq
      exact hread
  | confirmed _ _ _ haccepts => exact h.accepts haccepts
  | unseen _ _ haccepts => exact h.accepts haccepts
  | reverted _ _ _ => exact h
  | unsent _ _ => exact h
  | silent _ => exact h

/-! ## One task -/

/-- The tasks still to do are tasks of the batch, all of them from admission. -/
structure Remaining (K : P256Crate) (E : Contract.Evm) (d : Contract.Domain)
    (tasks : List RegisterTask) (w : ChainWorld) : Prop where
  among : ∀ task ∈ tasks, task ∈ w.batch
  admitted : ∀ task ∈ w.batch, FromAdmission K E task
  registry : Contract.Reachable E d w.registry

/-- The last check was the task's own, and was answered with no. -/
def CheckedAbsent (E : Contract.Evm) (task : RegisterTask) (w : ChainWorld) : Prop :=
  ∃ op, checkOperation E task = some op ∧ w.answered = some (op, false)

variable {tasks rest : List RegisterTask} {data : Bytes}

theorem Remaining.accepts (h : Remaining K E d tasks w) (haccepts : Accepts E d data w w') :
    Remaining K E d tasks w' := by
  obtain ⟨now, s', hcall, rfl⟩ := haccepts
  exact ⟨h.among, h.admitted, .call h.registry hcall⟩

theorem Remaining.tail (h : Remaining K E d (task :: rest) w) : Remaining K E d rest w :=
  ⟨fun t ht => h.among t (List.mem_cons_of_mem _ ht), h.admitted, h.registry⟩

theorem CheckedAbsent.accepts (h : CheckedAbsent E task w) (haccepts : Accepts E d data w w') :
    CheckedAbsent E task w' := by
  obtain ⟨now, s', -, rfl⟩ := haccepts
  exact h

/-- The worker's own transaction was accepted. -/
theorem Remaining.written (h : Remaining K E d (task :: rest) w)
    (hdata : writeCalldata task = some data) (haccepts : Accepts E d data w w') :
    Written E w'.registry task := by
  obtain ⟨now, s', hcall, rfl⟩ := haccepts
  obtain ⟨op, data', hop, hdata', -, hseen⟩ :=
    (h.admitted task (h.among task List.mem_cons_self)).check
  cases hdata'.symm.trans hdata
  exact ⟨op, hop, hseen d w.registry now s' h.registry hcall⟩

/-- What anyone's call leaves true, all of them do. -/
theorem keeps_of_accepts {P : ChainWorld → Prop}
    (h : ∀ {w w' data}, Accepts E d data w w' → P w → P w') : (markSpec K E d).Keeps P := by
  intro w w' hrely hw
  induction hrely with
  | refl => exact hw
  | tail _ hstep ih =>
      obtain ⟨data, haccepts⟩ := hstep
      exact h haccepts ih

/-- What the worker's checks, receipts and marks come to, for one task of the batch. -/
theorem conduct_marks (K : P256Crate) (E : Contract.Evm) (d : Contract.Domain) (task : RegisterTask)
    (rest : List RegisterTask) :
    Conduct E (markSpec K E d) task (Remaining K E d (task :: rest))
      (fun w => Contract.Reachable E d w.registry ∧ Written E w.registry task)
        (CheckedAbsent E task)
      (Remaining K E d rest) where
  live := keeps_of_accepts fun haccepts h => h.accepts haccepts
  present := by
    refine keeps_of_accepts ?_
    rintro w _ data ⟨now, s', hcall, rfl⟩ h
    have hcalls : Contract.calls E d [(now, data)] w.registry = .ok s' :=
      Contract.calls_cons_eq_ok.mpr ⟨s', hcall, rfl⟩
    exact ⟨.call h.1 hcall, h.2.of_calls h.1 hcalls⟩
  absent := keeps_of_accepts fun haccepts h => h.accepts haccepts
  check := by
    intro op w hop hlive
    have hquiet : markNeeds E op w := by
      rcases checkOperation_cases hop with ⟨_, rfl⟩ | ⟨_, _, rfl⟩
      · trivial
      · trivial
    refine ⟨hquiet, fun ans w' hpost => ?_⟩
    cases hpost with
    | checked hread =>
        refine ⟨⟨hlive.among, hlive.admitted, hlive.registry⟩, fun hyes => ?_, fun hno => ?_⟩
        · cases hyes
          exact ⟨hlive.registry, op, hop, hread⟩
        · cases hno
          exact ⟨op, hop, rfl⟩
    | silent hans => exact ⟨hlive, by rintro rfl; simp at hans, by rintro rfl; simp at hans⟩
    | _ => rcases checkOperation_cases hop with ⟨_, h⟩ | ⟨_, _, h⟩ <;> cases h
  send := by
    intro w hlive habsent
    refine ⟨trivial, fun ans w' hpost => ?_⟩
    cases hpost with
    | checked hread => cases hread
    | confirmed txHash onChainId hdata haccepts =>
        refine ⟨hlive.accepts haccepts, fun outcome houtcome => ?_⟩
        cases houtcome
        exact ⟨(hlive.accepts haccepts).registry, hlive.written hdata haccepts⟩
    | reverted txHash _ _ =>
        refine ⟨hlive, fun outcome houtcome => ?_⟩
        cases houtcome
        exact habsent
    | @unsent _ _ sent hconfirmed hreverted =>
        refine ⟨hlive, fun outcome houtcome => ?_⟩
        cases houtcome
        cases sent with
        | confirmed txHash onChainId => exact absurd rfl (hconfirmed txHash onChainId)
        | _ => exact habsent
    | unseen hfailed hdata haccepts =>
        refine ⟨hlive.accepts haccepts, fun outcome houtcome => ?_⟩
        cases houtcome
        obtain ⟨error, rfl | rfl⟩ := hfailed
        · exact habsent.accepts haccepts
        · exact habsent.accepts haccepts
    | silent hans => exact ⟨hlive, by rintro outcome rfl; simp at hans⟩
  done := by
    intro w txHash onChainId hlive hpresent
    refine ⟨⟨task, hlive.among task List.mem_cons_self, rfl, hpresent.2⟩, fun w' hpost => ?_⟩
    cases hpost with
    | silent _ => exact hlive.tail
  failed := by
    intro w message hlive hreason
    refine ⟨⟨task, hlive.among task List.mem_cons_self, rfl, ?_⟩, fun w' hpost => ?_⟩
    · obtain ⟨op, -, hop, -⟩ := (hlive.admitted task (hlive.among task List.mem_cons_self)).check
      rcases hreason with habsent | hnone
      · exact habsent
      · cases hop.symm.trans hnone
    · cases hpost with
      | silent _ => exact hlive.tail
  transient := by
    intro w message hlive
    refine ⟨trivial, fun w' hpost => ?_⟩
    cases hpost with
    | silent _ => exact hlive.tail

/-! ## Every mark of every batch -/

theorem submission_marks (ids : List String) (h : OnRecord E d w) :
    (markSpec K E d).wp (submission E ids) (fun _ _ => True) w := by
  refine submission_wp (Remaining K E d)
    (fun task w => Contract.Reachable E d w.registry ∧ Written E w.registry task)
    (CheckedAbsent E) ids (fun _ _ _ _ => trivial) trivial ?_
  intro w₁ tasks w₂ hrely hpost
  have hregistry : Contract.Reachable E d w₁.registry := by
    have hkeeps : (markSpec K E d).Keeps (OnRecord E d) :=
      keeps_of_accepts fun haccepts hw => hw.accepts haccepts
    exact (hkeeps w w₁ hrely h).registry
  cases hpost with
  | loaded htasks =>
      refine ⟨⟨fun _ h => h, fun task htask => htasks task ?_, hregistry⟩,
        fun _ task rest _ => conduct_marks K E d task rest⟩
      exact (canonicalFrom_sublist tasks []).subset (List.mem_map_of_mem htask)
  | silent hans => simp at hans

theorem worker_keeps (K : P256Crate) (E : Contract.Evm) (d : Contract.Domain) :
    Team.Keeps (worker K E d) (batches E) (fun _ => False) (markSpec K E d) (OnRecord E d) where
  crowd _ hA _ := hA.elim
  lead hw _ hop := ⟨hw.performs hop, hop⟩
  drift := by
    rintro w w' hw ⟨data, haccepts⟩
    exact ⟨hw.accepts haccepts, .single ⟨data, haccepts⟩⟩
  starts hstarts := hstarts.elim
  leads := by
    rintro _ w ⟨ids, rfl⟩ hw
    exact submission_marks ids hw

/-- In every run, whatever is called in between: a task that is about to be marked done is on the
chain. A task that is about to be marked failed was not there when it was last looked for, and it is
not there now exactly if none of the calls accepted since put it there, that is, if none of them has
its content. -/
theorem marks_tell (K : P256Crate) (E : Contract.Evm) (d : Contract.Domain)
    (hs : Contract.Reachable E d s) (t : Team Operation (fun _ => Result) ChainWorld Settled)
    (h : Team.Reachable (worker K E d) (batches E) (.start s) t) :
    (t.world.batch.map RegisterTask.id).Nodup ∧
    (∀ id txHash onChainId k, t.lead = some (.ask (.markDone id txHash onChainId) k) →
      ∃ task ∈ t.world.batch, task.id = id ∧ Written E t.world.registry task) ∧
    ∀ id kind message k, t.lead = some (.ask (.markFailed id kind message) k) →
      ∃ task ∈ t.world.batch, task.id = id ∧ CheckedAbsent E task t.world ∧
        (¬ Written E t.world.registry task ↔
          ¬ LandedIn E d t.world.checkedAt t.world.since task) ∧
        (LandedIn E d t.world.checkedAt t.world.since task ↔
          ∃ call ∈ t.world.since, Carries E task call.2) := by
  have hstart : OnRecord E d (.start s) := ⟨hs, rfl, by simp [ChainWorld.start], List.nodup_nil⟩
  have hsafe := h.safe (worker_keeps K E d) hstart
  refine ⟨hsafe.inv.distinct, ?_, ?_⟩
  · intro id txHash onChainId k hlead
    exact (hsafe.lead _ hlead t.world .refl).1
  · intro id kind message k hlead
    obtain ⟨task, htask, hid, hchecked⟩ := (hsafe.lead _ hlead t.world .refl).1
    have habsent : ¬ Written E t.world.checkedAt task := by
      obtain ⟨op, hop, hanswered⟩ := hchecked
      have hno := hsafe.inv.answered op false hanswered
      rintro ⟨op', hop', hyes⟩
      cases hop'.symm.trans hop
      cases hyes.symm.trans hno
    exact ⟨task, htask, hid, hchecked,
      not_congr (written_iff_landedIn hsafe.inv.reachable hsafe.inv.calls habsent),
      landedIn_iff_carries hsafe.inv.reachable hsafe.inv.calls habsent⟩

/-! ## A reference that lands unseen -/

section Device

open Contract.Sample (evm domain groupKey deviceKey registered referred registerData referData
  call_registerData call_referData reachable_registered reachable_referred)
open Registrar.Sample (crate device referTask validate_refer)

theorem writeCalldata_referTask (id : String) : writeCalldata (referTask id) = some referData := by
  have hatt : parseHexBytes device.attestation = some [] := parseHexBytes_normalHex []
  have hmember : memberSol device = some Contract.Sample.referArgs.member := by
    rw [memberSol, hatt]
    simp only [device, parseHexBytes_encode, parseHexBytes_normalHex, Sample.proofSol_proof,
      Option.bind_eq_bind, Option.bind_some, Option.pure_def]
    rfl
  have hmembers : (referTask id).members.head? = some device := rfl
  have hmeta : parseHexBytes (referTask id).metadata = some [0xaa] := parseHexBytes_normalHex [0xaa]
  have hgroup : parseHexBytes (referTask id).groupPublicKey = some groupKey :=
    parseHexBytes_encode groupKey
  have hkind : (referTask id).kind = .refer := rfl
  simp only [writeCalldata, hkind, referCalldata, referArgs, hmembers, hmeta, hgroup, hmember,
    Option.bind_eq_bind, Option.bind_some, Option.pure_def, Option.map_some]
  rfl

/-- The check of the recorded reference. -/
def deviceCheck : Operation := .checkReferenced (Hex.encode groupKey) device.publicKey

theorem readCheck_deviceCheck (s : Registry) :
    readCheck evm s deviceCheck = some (s.isReferenced evm groupKey deviceKey) := by
  have hkey : parseHexBytes device.publicKey = some deviceKey := parseHexBytes_encode deviceKey
  simp only [readCheck, deviceCheck, parseHexBytes_encode, hkey, Option.bind_eq_bind,
    Option.bind_some, Option.pure_def]

theorem readCheck_referred : readCheck evm referred deviceCheck = some true := by
  rw [readCheck_deviceCheck]
  decide +kernel

theorem call_referData_empty :
    ∃ e, Contract.call evm domain 0 referData Registry.empty = .error e := by
  cases hcall : Contract.call evm domain 0 referData Registry.empty with
  | error e => exact ⟨e, rfl⟩
  | ok t =>
      rcases Contract.call_eq_ok.mp hcall with ⟨a, hdec, -⟩ | ⟨a, -, ha⟩
      · cases hdec.symm.trans Contract.Sample.decode_referData
      · obtain ⟨u, -, hgroup, -⟩ := Contract.refer_eq_ok.mp ha
        cases hgroup

theorem device_started (s : Registry) :
    Team.Reachable (worker crate evm domain) (batches evm) (.start s)
    ⟨⟨.start s, [], []⟩, some (submission evm ["device"])⟩ :=
  .single (.start _ ⟨_, rfl⟩)

theorem device_loaded (w : ChainWorld) : Performs crate evm domain (.loadTasks ["device"]) w
    (.tasksLoaded [some (referTask "device")]) { w with batch := [referTask "device"] } := by
  refine .loaded fun task htask => ?_
  cases List.mem_singleton.mp htask
  exact .of_validate (validate_refer "device")

theorem device_checked {w : ChainWorld} {answer : Bool}
    (h : readCheck evm w.registry deviceCheck = some answer) :
    Performs crate evm domain deviceCheck w (.contentChecked answer)
      { w with answered := some (deviceCheck, answer), checkedAt := w.registry, since := [] } :=
  .checked h

theorem device_reverted {w : ChainWorld} {e : Contract.Revert} (txHash : String)
    (h : Contract.call evm domain 0 referData w.registry = .error e) :
    Performs crate evm domain (.submitRegister (referTask "device")) w (.tx (.reverted txHash)) w :=
  .reverted txHash (writeCalldata_referTask "device") h

/-- The reference is there already, and about to be marked done. -/
theorem marks_tell_device :
    ∃ t, Team.Reachable (worker crate evm domain) (batches evm) (.start referred) t ∧
    (∃ k, t.lead = some (.ask (.markDone "device" none none) k)) ∧
      ∃ task ∈ t.world.batch, task.id = "device" ∧ Written evm t.world.registry task := by
  have hloaded := (device_started referred).lead_performs rfl (device_loaded _)
  have hchecked := hloaded.lead_performs rfl (device_checked readCheck_referred)
  exact ⟨_, hchecked, ⟨_, rfl⟩,
    (marks_tell crate evm domain reachable_referred _ hchecked).2.1 _ _ _ _ rfl⟩

/-- The group is not there yet, so the reference reverts. It is looked for and not found. Then
others register the group and write the very same reference, the resent transaction reverts, and the
task is about to be marked failed with its content on the chain. -/
theorem device_failed_on_chain :
    ∃ t, Team.Reachable (worker crate evm domain) (batches evm) (.start Registry.empty) t ∧
      (∃ k, t.lead = some (.ask (.markFailed "device" .poison "register transaction reverted") k)) ∧
        t.world.batch = [referTask "device"] ∧
          Written evm t.world.registry (referTask "device") := by
  have habsent : readCheck evm Registry.empty deviceCheck = some false := readCheck_deviceCheck _
  obtain ⟨e, hmissing⟩ := call_referData_empty
  obtain ⟨e', hagain⟩ := Contract.call_rejected reachable_registered call_referData (.refl _ _)
    reachable_referred 0
  have hloaded := (device_started Registry.empty).lead_performs rfl (device_loaded _)
  have hchecked := hloaded.lead_performs rfl (device_checked habsent)
  have hreverted := hchecked.lead_performs rfl (device_reverted "0x01" hmissing)
  have hrechecked := hreverted.lead_performs rfl (device_checked habsent)
  have hgroup := hrechecked.drifts ⟨registerData, 0, registered, call_registerData, rfl⟩
  have hforeign := hgroup.drifts ⟨referData, 0, referred, call_referData, rfl⟩
  have hresent := hforeign.lead_performs rfl (device_reverted "0x02" hagain)
  exact ⟨_, hresent, ⟨_, rfl⟩, rfl, deviceCheck, rfl, readCheck_referred⟩

end Device

end P256Index.Registrar.Submission
