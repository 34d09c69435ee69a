import P256Index.Interaction.Guard
import P256Index.Registrar.Agreement

/-!
# What admission lets through, and what it promises

Every run of the admission program, whatever the shell answers. `guard` says after which history a
task may be admitted or put on the queue; each function of the program is checked against it once,
together with what it leaves: an answer that a task is queued has its ground in the history, and a
record that was loaded without the admission flag was put on the queue.
-/

namespace P256Index.Registrar.Admission

abbrev Step := (_ : Operation) × Result

abbrev Trace := List Step

instance : Inhabited Result := ⟨.persisted⟩

/-! ## Reasons -/

def Operation.isAdmit : Operation → Bool
  | .admitTask _ => true
  | _ => false

def Operation.isEnqueue : Operation → Bool
  | .enqueue _ => true
  | _ => false

/-- The operations that only look, or count. -/
def Operation.isGate : Operation → Bool
  | .admitTask _ | .loadTask _ | .enqueue _ => false
  | _ => true

/-- The lookups whose record is the answer to the request. -/
def Operation.isLookup : Operation → Bool
  | .findTaskByContent _ | .findTaskByRetryDigest _ | .loadTask _ => true
  | _ => false

/-- The group is on the chain or could not be looked up there, or its own register is under way. -/
def GroupPassed (task : RegisterTask) (past : Trace) : Prop :=
  ⟨.checkGroupExists task.groupPublicKey, .chainBool true⟩ ∈ past ∨
    ⟨.checkGroupExists task.groupPublicKey, .chainReadFailed⟩ ∈ past ∨
      ∃ pending : RegisterTask,
        ⟨.findTaskByKey task.groupPublicKey, .taskFound (some pending)⟩ ∈ past ∧
          pending.kind = .register ∧ pending.groupPublicKey = task.groupPublicKey ∧
            pending.status.isTerminal = false

/-- Both idempotency lookups came back without a live task. -/
structure Unknown (E : Contract.Evm) (task : RegisterTask) (contentHash : String) (past : Trace) :
    Prop where
  allowance : ⟨.allowIpCreate, .allowed true⟩ ∈ past
  content : ⟨.findTaskByContent contentHash, .taskFound none⟩ ∈ past
  digest : task.kind = .register → ∃ found,
    ⟨.findTaskByRetryDigest (registerRetryDigest E task), .taskFound found⟩ ∈ past ∧
      ∀ existing ∈ found, existing.status = .failed

/-- The chain pre-check did not find the content either. -/
structure Absent (E : Contract.Evm) (task : RegisterTask) (contentHash : String) (past : Trace) :
    Prop extends Unknown E task contentHash past where
  absent : ⟨precheck task contentHash, .chainBool false⟩ ∈ past ∨
    ⟨precheck task contentHash, .chainReadFailed⟩ ∈ past

/-- Every gate of the program has let the task through. -/
structure Gated (E : Contract.Evm) (task : RegisterTask) (contentHash : String) (past : Trace) :
    Prop extends Absent E task contentHash past where
  group : task.kind = .refer → GroupPassed task past
  depth : ∃ depth < maxActiveQueueDepth, ⟨.queueDepth, .depth depth⟩ ∈ past
  global : ⟨.allowGlobalCreate, .allowed true⟩ ∈ past

/-- The task was just admitted as new; for a register its retry digest was recorded since. -/
def JustAdmitted (task : RegisterTask) (past : Trace) : Prop :=
  ∃ before, past = before ++ [⟨.admitTask task, .admitted .new⟩] ∨
    ∃ digest ans, past = before ++ [⟨.admitTask task, .admitted .new⟩,
      ⟨.recordRetryDigest digest task.id, ans⟩]

/-- The last answer was this record, and it does not have the admission flag. -/
def JustReported (op : Operation) (task : RegisterTask) (past : Trace) : Prop :=
  (∃ before, past = before ++ [⟨op, .taskFound (some task)⟩]) ∧ op.isLookup = true ∧
    task.admitted = false

/-- The answer that a task is queued has its ground in the history: a lookup reported it admitted or
finished, or the queue took it and the store then returned its record. -/
def Durable (id : String) (past : Trace) : Prop :=
  (∃ op task, ⟨op, .taskFound (some task)⟩ ∈ past ∧ op.isLookup = true ∧ task.id = id ∧
    (task.admitted = true ∨ task.status.isTerminal = true)) ∨
  ∃ before task marked, task.id = id ∧ marked.id = id ∧
    past = before ++ [⟨.enqueue task, .enqueued⟩, ⟨.markAdmitted id, .taskFound (some marked)⟩]

variable (E : Contract.Evm) (task : RegisterTask) (contentHash : String)

/-- After which history a task may be admitted, or put on the queue. -/
def guard (past : Trace) : Operation → Prop
  | .admitTask admitted => admitted = task ∧ Gated E task contentHash past ∧
      ∀ step ∈ past, step.1.isGate = true
  | .enqueue queued => (∀ step ∈ past, step.1.isEnqueue = false) ∧
      ((queued = task ∧ JustAdmitted task past) ∨
        ∃ op, JustReported op queued past ∧
          -- only the record loaded behind an admission is not looked at for its status
          (queued.status.isTerminal = true → ∃ id, op = .loadTask id))
  | _ => True

/-- What a part leaves, its answers about a record naming the id they were asked for. -/
structure Leaves (r : Except Outcome Outcome) (later : Trace) : Prop where
  queued : (∀ id marked, ⟨.markAdmitted id, .taskFound (some marked)⟩ ∈ later → marked.id = id) →
    ∀ id status, settle r = .queued id status → Durable id later
  repaired : ∀ id loaded, ⟨.loadTask id, .taskFound (some loaded)⟩ ∈ later →
    loaded.admitted = false → ∃ ans, ⟨.enqueue loaded, ans⟩ ∈ later

variable {E task contentHash} {past : Trace}

/-! ## Parts that end the program -/

/-- No record was loaded behind an admission so far. -/
theorem leaves_of_gates {r : Except Outcome Outcome} (hpast : ∀ step ∈ past, step.1.isGate = true)
    (hqueued : ∀ id status, settle r = .queued id status → Durable id past) : Leaves r past where
  queued _ := hqueued
  repaired id loaded hmem := by cases hpast _ hmem

/-- An exit is not an answer that a task is queued. -/
theorem leaves_of_exit {e : Outcome} (hrepaired : ∀ id loaded,
      ⟨.loadTask id, .taskFound (some loaded)⟩ ∈ past → loaded.admitted = false →
        ∃ ans, ⟨.enqueue loaded, ans⟩ ∈ past)
    (he : ∀ id status, e ≠ .queued id status) : Leaves (.error e) past where
  queued _ id status h := absurd h (he id status)
  repaired := hrepaired

theorem redisDown_ne_queued (id : String) (status : TaskStatus) :
    redisDown ≠ .queued id status := by
  simp [redisDown]

theorem enqueue_guarded {queued : RegisterTask}
    (hguard : guard E task contentHash past (.enqueue queued))
    (hloaded : ∀ id loaded, ⟨.loadTask id, .taskFound (some loaded)⟩ ∈ past →
      loaded.admitted = false → loaded = queued) :
    Flow.Guarded (guard E task contentHash) past (enqueue queued) Leaves := by
  have hrepaired : ∀ {later : Trace} (ans : Result), (∀ id loaded,
      ⟨.loadTask id, .taskFound (some loaded)⟩ ∈ later →
        ⟨.loadTask id, .taskFound (some loaded)⟩ ∈ past) →
      ⟨.enqueue queued, ans⟩ ∈ later →
        ∀ id loaded, ⟨.loadTask id, .taskFound (some loaded)⟩ ∈ later →
        loaded.admitted = false → ∃ ans, ⟨.enqueue loaded, ans⟩ ∈ later := by
    intro later ans hback hmem id loaded hload hflag
    rw [hloaded id loaded (hback id loaded hload) hflag]
    exact ⟨ans, hmem⟩
  refine Flow.guarded_request_bind hguard fun ans => ?_
  have hexit : ∀ e, (∀ id status, e ≠ .queued id status) →
      Leaves (.error e) (past ++ [⟨.enqueue queued, ans⟩]) := by
    intro e he
    refine leaves_of_exit (hrepaired ans ?_ (by simp)) he
    simp
  cases ans with
  | enqueued =>
      refine Flow.guarded_request_bind trivial fun ans => ?_
      have hdown : Leaves (.error redisDown)
          (past ++ [⟨.enqueue queued, .enqueued⟩] ++ [⟨.markAdmitted queued.id, ans⟩]) := by
        refine leaves_of_exit (hrepaired .enqueued ?_ (by simp)) redisDown_ne_queued
        simp
      cases ans with
      | taskFound found =>
          cases found with
          | some marked =>
              refine Flow.guarded_pure ⟨?_, hrepaired .enqueued (by simp) (by simp)⟩
              intro hnamed id status hsettled
              have hid : marked.id = queued.id := hnamed _ _ (by simp)
              obtain ⟨rfl, -⟩ : marked.id = id ∧ marked.status = status := by
                simpa [settle] using hsettled
              refine .inr ⟨past, queued, marked, hid.symm, rfl, ?_⟩
              rw [hid, List.append_assoc]
              rfl
          | none => exact Flow.guarded_throw hdown
      | _ => exact Flow.guarded_throw hdown
  | queueUnavailable => exact Flow.guarded_throw (hexit _ (by simp))
  | _ => exact Flow.guarded_throw (hexit _ redisDown_ne_queued)

/-- A history of gates only, with one more behind it. -/
theorem gates_snoc {op : Operation} {ans : Result} (hpast : ∀ step ∈ past, step.1.isGate = true)
    (hop : op.isGate = true) : ∀ step ∈ past ++ [⟨op, ans⟩], step.1.isGate = true :=
  List.forall_mem_append.mpr ⟨hpast, by simpa using hop⟩

theorem isEnqueue_of_isGate {op : Operation} (h : op.isGate = true) : op.isEnqueue = false := by
  cases op with
  | enqueue queued => cases h
  | _ => rfl

/-- The answer for a record found by one of the two idempotency lookups. -/
theorem resume_guarded {op : Operation} {existing : RegisterTask} (hop : op.isLookup = true)
    (hgate : op.isGate = true) (hpast : ∀ step ∈ past, step.1.isGate = true) :
    Flow.Guarded (guard E task contentHash) (past ++ [⟨op, .taskFound (some existing)⟩])
      (resume existing) Leaves := by
  have hgates : ∀ step ∈ past ++ [⟨op, .taskFound (some existing)⟩], step.1.isGate = true :=
    gates_snoc hpast hgate
  unfold resume
  split
  · next hdone =>
      refine Flow.guarded_pure (leaves_of_gates hgates ?_)
      intro id status hsettled
      obtain ⟨hid, -⟩ : existing.id = id ∧ existing.status = status := by
        simpa [settle] using hsettled
      exact .inl ⟨op, existing, by simp, hop, hid, by simpa using hdone⟩
  · next hlive =>
      obtain ⟨hflag, hpending⟩ : existing.admitted = false ∧
          existing.status.isTerminal = false := by
        simpa using hlive
      refine enqueue_guarded ⟨fun step hstep => isEnqueue_of_isGate (hgates step hstep), .inr ?_⟩ ?_
      · refine ⟨op, ⟨⟨past, rfl⟩, hop, hflag⟩, ?_⟩
        simp [hpending]
      · intro id loaded hmem
        cases hgates _ hmem

/-! ## The gates -/

/-- A gate: it only looks, exits without a promise, and where it opens it leaves its ground. -/
def Opens (P : Trace → Prop) (x : AdmissionFlow Unit) : Prop :=
  Flow.Ensures x fun tr r => (∀ step ∈ tr, step.1.isGate = true) ∧
    match r with
    | .ok _ => P tr
    | .error e => ∀ id status, e ≠ .queued id status

theorem allowIp_opens : Opens (⟨.allowIpCreate, .allowed true⟩ ∈ ·) allowIp := by
  refine Flow.ensures_request_bind.mpr fun ans => ?_
  have hgate : ∀ step ∈ ([⟨.allowIpCreate, ans⟩] : Trace), step.1.isGate = true := by
    simp [Operation.isGate]
  cases ans with
  | allowed allowed =>
      cases allowed with
      | true => exact Flow.ensures_pure.mpr ⟨hgate, List.mem_cons_self⟩
      | false => exact Flow.ensures_throw.mpr ⟨hgate, by simp⟩
  | _ => exact Flow.ensures_throw.mpr ⟨hgate, redisDown_ne_queued⟩

theorem referGroupGate_opens : Opens (GroupPassed task) (referGroupGate task) := by
  refine Flow.ensures_request_bind.mpr fun ans => ?_
  have hgate : ∀ step ∈ ([⟨.checkGroupExists task.groupPublicKey, ans⟩] : Trace),
      step.1.isGate = true := by
    simp [Operation.isGate]
  cases ans with
  | chainReadFailed => exact Flow.ensures_pure.mpr ⟨hgate, .inr (.inl List.mem_cons_self)⟩
  | chainBool value =>
      cases value with
      | true => exact Flow.ensures_pure.mpr ⟨hgate, .inl List.mem_cons_self⟩
      | false =>
          refine Flow.ensures_request_bind.mpr fun ans => ?_
          have hgates : ∀ step ∈ ([⟨.checkGroupExists task.groupPublicKey, .chainBool false⟩,
              ⟨.findTaskByKey task.groupPublicKey, ans⟩] : Trace), step.1.isGate = true := by
            simp [Operation.isGate]
          cases ans with
          | taskFound found =>
              cases found with
              | some pending =>
                  dsimp only
                  split
                  · next hmatch =>
                      exact Flow.ensures_pure.mpr ⟨hgates, .inr (.inr ⟨pending, by simp, hmatch⟩)⟩
                  · exact Flow.ensures_throw.mpr ⟨hgates, by simp⟩
              | none => exact Flow.ensures_throw.mpr ⟨hgates, by simp⟩
          | _ => exact Flow.ensures_throw.mpr ⟨hgates, redisDown_ne_queued⟩
  | _ => exact Flow.ensures_throw.mpr ⟨hgate, redisDown_ne_queued⟩

theorem writeGates_opens : Opens (fun tr => (∃ depth < maxActiveQueueDepth,
    ⟨.queueDepth, .depth depth⟩ ∈ tr) ∧ ⟨.allowGlobalCreate, .allowed true⟩ ∈ tr) writeGates := by
  refine Flow.ensures_request_bind.mpr fun ans => ?_
  have hgate : ∀ step ∈ ([⟨.queueDepth, ans⟩] : Trace), step.1.isGate = true := by
    simp [Operation.isGate]
  cases ans with
  | depth depth =>
      dsimp only
      split
      · exact Flow.ensures_throw.mpr ⟨hgate, by simp⟩
      · next hdepth =>
          refine Flow.ensures_request_bind.mpr fun ans => ?_
          have hgates : ∀ step ∈ ([⟨.queueDepth, .depth depth⟩, ⟨.allowGlobalCreate, ans⟩] : Trace),
              step.1.isGate = true := by
            simp [Operation.isGate]
          cases ans with
          | allowed allowed =>
              cases allowed with
              | true =>
                  refine Flow.ensures_pure.mpr ⟨hgates, ⟨depth, ?_, by simp⟩, by simp⟩
                  exact UInt64.not_le.mp hdepth
              | false => exact Flow.ensures_throw.mpr ⟨hgates, by simp⟩
          | _ => exact Flow.ensures_throw.mpr ⟨hgates, redisDown_ne_queued⟩
  | _ => exact Flow.ensures_throw.mpr ⟨hgate, redisDown_ne_queued⟩

theorem allowed_of_gates {tr : Trace} (h : ∀ step ∈ tr, step.1.isGate = true) :
    Flow.Allowed (guard E task contentHash) past tr := by
  intro before op ans after heq
  have hgate : op.isGate = true := h ⟨op, ans⟩ (by rw [heq]; simp)
  cases op with
  | admitTask admitted => cases hgate
  | enqueue queued => cases hgate
  | _ => trivial

/-- A gate, and what stands behind it. -/
theorem Opens.andThen {P : Trace → Prop} {x : AdmissionFlow Unit} {f : AdmissionFlow Outcome}
    (hx : Opens P x) (hpast : ∀ step ∈ past, step.1.isGate = true)
    (hf : ∀ tr, P tr → (∀ step ∈ past ++ tr, step.1.isGate = true) →
      Flow.Guarded (guard E task contentHash) (past ++ tr) f Leaves) :
    Flow.Guarded (guard E task contentHash) past (x >>= fun _ => f) Leaves := by
  have hguarded : Flow.Guarded (guard E task contentHash) past x fun r later =>
      ∃ tr, later = past ++ tr ∧ (∀ step ∈ later, step.1.isGate = true) ∧
        match r with
        | .ok _ => P tr
        | .error e => ∀ id status, e ≠ .queued id status := by
    refine Flow.Ensures.mono hx ?_
    rintro tr r ⟨hgates, hr⟩
    exact ⟨allowed_of_gates hgates, tr, rfl, List.forall_mem_append.mpr ⟨hpast, hgates⟩, hr⟩
  refine Flow.Guarded.bind hguarded ?_ ?_
  · rintro e later - ⟨tr, -, hgates, he⟩
    exact leaves_of_gates hgates fun id status h => absurd h (he id status)
  · rintro _ later - ⟨tr, rfl, hgates, hP⟩
    exact hf tr hP hgates

/-! ## The program -/

theorem twoPhase_guarded {digest : Option String} (hgated : Gated E task contentHash past)
    (hpast : ∀ step ∈ past, step.1.isGate = true) :
    Flow.Guarded (guard E task contentHash) past (twoPhase task digest) Leaves := by
  refine Flow.guarded_request_bind ⟨rfl, hgated, hpast⟩ fun ans => ?_
  have hquiet : ∀ step ∈ past ++ [⟨.admitTask task, ans⟩], step.1.isEnqueue = false := by
    refine List.forall_mem_append.mpr ⟨fun step hstep => isEnqueue_of_isGate (hpast step hstep), ?_⟩
    simp [Operation.isEnqueue]
  have hnoLoad : ∀ {answer : Result} {id : String} {loaded : RegisterTask},
      (⟨.loadTask id, .taskFound (some loaded)⟩ : Step) ∉ past ++ [⟨.admitTask task, answer⟩] := by
    intro answer id loaded hmem
    rcases List.mem_append.mp hmem with hmem | hmem
    · cases hpast _ hmem
    · simp at hmem
  have hdown : Leaves (.error redisDown) (past ++ [⟨.admitTask task, ans⟩]) :=
    leaves_of_exit (fun _ _ hmem => absurd hmem hnoLoad) redisDown_ne_queued
  cases ans with
  | admitted outcome =>
      cases outcome with
      | new =>
          cases digest with
          | none =>
              refine enqueue_guarded ⟨hquiet, .inl ⟨rfl, past, .inl rfl⟩⟩ ?_
              exact fun _ _ hmem => absurd hmem hnoLoad
          | some digest =>
              refine Flow.guarded_request_bind trivial fun ans => ?_
              refine enqueue_guarded ⟨?_, .inl ⟨rfl, past, .inr ⟨digest, ans, ?_⟩⟩⟩ ?_
              · exact List.forall_mem_append.mpr ⟨hquiet, by simp [Operation.isEnqueue]⟩
              · rw [List.append_assoc]
                rfl
              · intro id loaded hmem
                rcases List.mem_append.mp hmem with hmem | hmem
                · exact absurd hmem hnoLoad
                · simp at hmem
      | existing id =>
          refine Flow.guarded_request_bind trivial fun ans => ?_
          -- the record that is loaded here is the only one
          have hone : ∀ {id' : String} {loaded : RegisterTask},
              (⟨.loadTask id', .taskFound (some loaded)⟩ : Step) ∈
                past ++ [⟨.admitTask task, .admitted (.existing id)⟩] ++ [⟨.loadTask id, ans⟩] →
              ans = .taskFound (some loaded) := by
            intro id' loaded hmem
            rcases List.mem_append.mp hmem with hmem | hmem
            · exact absurd hmem hnoLoad
            · simp only [List.mem_singleton, Sigma.mk.injEq, heq_eq_eq] at hmem
              exact hmem.2.symm
          cases ans with
          | taskFound found =>
              cases found with
              | some existing =>
                  dsimp only
                  split
                  · next hflag =>
                      refine Flow.guarded_pure ⟨?_, ?_⟩
                      · intro _ id' status hsettled
                        obtain ⟨hid, -⟩ : existing.id = id' ∧ existing.status = status := by
                          simpa [settle] using hsettled
                        exact .inl ⟨.loadTask id, existing, by simp, rfl, hid, .inl hflag⟩
                      · intro id' loaded hmem hunflagged
                        have hsame : existing = loaded := by simpa using hone hmem
                        rw [← hsame, hflag] at hunflagged
                        cases hunflagged
                  · next hflag =>
                      refine enqueue_guarded ⟨?_, .inr ⟨.loadTask id, ⟨⟨_, rfl⟩, rfl, ?_⟩, ?_⟩⟩ ?_
                      · exact List.forall_mem_append.mpr ⟨hquiet, by simp [Operation.isEnqueue]⟩
                      · simpa using hflag
                      · exact fun _ => ⟨id, rfl⟩
                      · intro id' loaded hmem _
                        have hsame : existing = loaded := by simpa using hone hmem
                        exact hsame.symm
              | none =>
                  refine Flow.guarded_throw (leaves_of_exit ?_ redisDown_ne_queued)
                  intro id' loaded hmem
                  cases hone hmem
          | _ =>
              refine Flow.guarded_throw (leaves_of_exit ?_ redisDown_ne_queued)
              intro id' loaded hmem
              cases hone hmem
  | _ => exact Flow.guarded_throw hdown

theorem GroupPassed.mono {later : Trace} (h : GroupPassed task past) (hsub : past ⊆ later) :
    GroupPassed task later := by
  rcases h with h | h | ⟨pending, hmem, hpending⟩
  · exact .inl (hsub h)
  · exact .inr (.inl (hsub h))
  · exact .inr (.inr ⟨pending, hsub hmem, hpending⟩)

theorem Unknown.mono {later : Trace} (h : Unknown E task contentHash past) (hsub : past ⊆ later) :
    Unknown E task contentHash later where
  allowance := hsub h.allowance
  content := hsub h.content
  digest hkind := by
    obtain ⟨found, hmem, hfailed⟩ := h.digest hkind
    exact ⟨found, hsub hmem, hfailed⟩

theorem isGate_precheck : (precheck task contentHash).isGate = true := by
  unfold precheck
  split
  · rfl
  · rfl

theorem Absent.mono {later : Trace} (h : Absent E task contentHash past) (hsub : past ⊆ later) :
    Absent E task contentHash later where
  toUnknown := h.toUnknown.mono hsub
  absent := h.absent.imp (fun hmem => hsub hmem) fun hmem => hsub hmem

/-- The write gates and the admission behind them. -/
theorem writing_guarded {digest : Option String} (habsent : Absent E task contentHash past)
    (hgroup : task.kind = .refer → GroupPassed task past)
    (hpast : ∀ step ∈ past, step.1.isGate = true) :
    Flow.Guarded (guard E task contentHash) past (writeGates >>= fun _ => twoPhase task digest)
      Leaves := by
  refine writeGates_opens.andThen hpast fun tr hwrite hgates => ?_
  have hsub : past ⊆ past ++ tr := List.subset_append_left past tr
  obtain ⟨⟨depth, hdepth, hmem⟩, hglobal⟩ := hwrite
  exact twoPhase_guarded
    { (habsent.mono hsub) with
      group := fun hkind => (hgroup hkind).mono hsub
      depth := ⟨depth, hdepth, List.mem_append_right past hmem⟩
      global := List.mem_append_right past hglobal } hgates

/-- Behind the chain pre-check: the group gate for a refer, then the write gates. -/
theorem gated_guarded {digest : Option String} (habsent : Absent E task contentHash past)
    (hpast : ∀ step ∈ past, step.1.isGate = true) :
    Flow.Guarded (guard E task contentHash) past (do
      if task.kind = .refer then referGroupGate task else pure ()
      writeGates
      twoPhase task digest) Leaves := by
  dsimp only
  split
  · refine referGroupGate_opens.andThen hpast fun tr hpassed hgates => ?_
    have hsub : past ⊆ past ++ tr := List.subset_append_left past tr
    refine writing_guarded (habsent.mono hsub) (fun _ => ?_) hgates
    exact hpassed.mono (List.subset_append_right past tr)
  · next hkind => exact writing_guarded habsent (fun h => absurd h hkind) hpast

theorem admitFresh_guarded {digest : Option String} (hunknown : Unknown E task contentHash past)
    (hpast : ∀ step ∈ past, step.1.isGate = true) :
    Flow.Guarded (guard E task contentHash) past (admitFresh task contentHash digest) Leaves := by
  have hop : guard E task contentHash past (precheck task contentHash) := by
    unfold precheck
    split
    · trivial
    · trivial
  refine Flow.guarded_request_bind hop fun ans => ?_
  have hgates : ∀ step ∈ past ++ [⟨precheck task contentHash, ans⟩], step.1.isGate = true :=
    gates_snoc hpast isGate_precheck
  have hunknown := hunknown.mono (List.subset_append_left past [⟨precheck task contentHash, ans⟩])
  cases ans with
  | chainBool value =>
      cases value with
      | true =>
          refine Flow.guarded_pure (leaves_of_gates hgates ?_)
          intro id status h
          cases h
      | false => exact gated_guarded ⟨hunknown, .inl (by simp)⟩ hgates
  | chainReadFailed => exact gated_guarded ⟨hunknown, .inr (by simp)⟩ hgates
  | _ =>
      exact Flow.guarded_throw (leaves_of_gates hgates fun id status h =>
        absurd h (redisDown_ne_queued id status))

/-- After the content lookup came back empty. -/
theorem coalesce_guarded (hallowance : ⟨.allowIpCreate, .allowed true⟩ ∈ past)
    (hcontent : ⟨.findTaskByContent contentHash, .taskFound none⟩ ∈ past)
    (hpast : ∀ step ∈ past, step.1.isGate = true) :
    Flow.Guarded (guard E task contentHash) past (coalesce E task contentHash) Leaves := by
  unfold coalesce
  cases hkind : task.kind with
  | refer =>
      refine admitFresh_guarded ⟨hallowance, hcontent, ?_⟩ hpast
      intro h
      cases hkind.symm.trans h
  | register =>
      refine Flow.guarded_request_bind trivial fun ans => ?_
      have hgates : ∀ step ∈ past ++ [⟨.findTaskByRetryDigest (registerRetryDigest E task), ans⟩],
          step.1.isGate = true := gates_snoc hpast rfl
      have hunknown : ∀ found, ans = .taskFound found →
          (∀ existing ∈ found, existing.status = .failed) → Unknown E task contentHash
            (past ++ [⟨.findTaskByRetryDigest (registerRetryDigest E task), ans⟩]) := by
        rintro found rfl hfailed
        exact ⟨List.mem_append_left _ hallowance, List.mem_append_left _ hcontent,
          fun _ => ⟨found, by simp, hfailed⟩⟩
      cases ans with
      | taskFound found =>
          cases found with
          | some existing =>
              dsimp only
              split
              · exact resume_guarded rfl rfl hpast
              · next hfailed =>
                  refine admitFresh_guarded (hunknown _ rfl ?_) hgates
                  simpa using hfailed
          | none => exact admitFresh_guarded (hunknown _ rfl (by simp)) hgates
      | _ =>
          exact Flow.guarded_throw (leaves_of_gates hgates fun id status h =>
            absurd h (redisDown_ne_queued id status))

theorem driveTask_guarded :
    Flow.Guarded (guard E task contentHash) [] (driveTask E task contentHash) Leaves := by
  refine allowIp_opens.andThen (by simp) fun tr hallowance hgates => ?_
  rw [List.nil_append] at hgates ⊢
  refine Flow.guarded_request_bind trivial fun ans => ?_
  have hlater : ∀ step ∈ tr ++ [⟨.findTaskByContent contentHash, ans⟩], step.1.isGate = true :=
    gates_snoc hgates rfl
  cases ans with
  | taskFound found =>
      cases found with
      | some existing => exact resume_guarded rfl rfl hgates
      | none => exact coalesce_guarded (List.mem_append_left _ hallowance) (by simp) hlater
  | _ =>
      exact Flow.guarded_throw (leaves_of_gates hlater fun id status h =>
        absurd h (redisDown_ne_queued id status))

/-! ## Behind the queue -/

/-- The operations of phase two. -/
def Operation.isPhaseTwo : Operation → Bool
  | .enqueue _ | .markAdmitted _ => true
  | _ => false

/-- The answer once the queue has taken a task, from the record the store returned. -/
def answered : Result → Outcome
  | .taskFound (some task) => .queued task.id task.status
  | _ => redisDown

/-- Phase two is the end of a run: a task the queue took is marked, and the answer is the record's.
-/
inductive Closes : Trace → Outcome → Prop
  | quiet {tr : Trace} (out : Outcome) : (∀ step ∈ tr, step.1.isPhaseTwo = false) → Closes tr out
  | refused {before : Trace} (queued : RegisterTask) (ans : Result) (out : Outcome) :
      (∀ step ∈ before, step.1.isPhaseTwo = false) → ans ≠ .enqueued →
      Closes (before ++ [⟨.enqueue queued, ans⟩]) out
  | marked {before : Trace} (queued : RegisterTask) (ans : Result) :
      (∀ step ∈ before, step.1.isPhaseTwo = false) →
      Closes (before ++ [⟨.enqueue queued, .enqueued⟩, ⟨.markAdmitted queued.id, ans⟩])
        (answered ans)

theorem Closes.append {tr tr' : Trace} {out : Outcome}
    (htr : ∀ step ∈ tr, step.1.isPhaseTwo = false) (h : Closes tr' out) :
    Closes (tr ++ tr') out := by
  cases h with
  | quiet out hquiet => exact .quiet out (List.forall_mem_append.mpr ⟨htr, hquiet⟩)
  | refused queued ans out hquiet hans =>
      rw [← List.append_assoc]
      exact .refused queued ans out (List.forall_mem_append.mpr ⟨htr, hquiet⟩) hans
  | marked queued ans hquiet =>
      rw [← List.append_assoc]
      exact .marked queued ans (List.forall_mem_append.mpr ⟨htr, hquiet⟩)

/-- A mark comes right behind the queue's answer. -/
theorem Closes.enqueued_before {tr : Trace} {out : Outcome} (h : Closes tr out) {later : Trace}
    {id : String} {ans : Result} (htr : tr = past ++ ⟨.markAdmitted id, ans⟩ :: later) :
    ∃ queued, ⟨.enqueue queued, .enqueued⟩ ∈ past ∧ queued.id = id := by
  have hmem : ⟨.markAdmitted id, ans⟩ ∈ tr := by
    rw [htr]
    simp
  cases h with
  | quiet out hquiet => cases hquiet _ hmem
  | refused queued ans' out hquiet hans =>
      rcases List.mem_append.mp hmem with hmem | hmem
      · cases hquiet _ hmem
      · simp at hmem
  | @marked before queued ans' hquiet =>
      -- The mark is the last step of the run, so what came before it ends with the queue's answer.
      have hsplit : (before ++ [⟨.enqueue queued, .enqueued⟩]) ++
          [⟨.markAdmitted queued.id, ans'⟩] = past ++ ⟨.markAdmitted id, ans⟩ :: later := by
        rw [List.append_assoc]
        exact htr
      have hnot : ⟨.markAdmitted id, ans⟩ ∉ before ++ [⟨.enqueue queued, .enqueued⟩] := by
        intro hmem
        rcases List.mem_append.mp hmem with hmem | hmem
        · cases hquiet _ hmem
        · simp at hmem
      rcases List.append_eq_append_iff.mp hsplit with ⟨middle, rfl, hlast⟩ | ⟨middle, hfirst, hrest⟩
      · cases middle with
        | nil =>
            simp only [List.nil_append, List.cons.injEq, Sigma.mk.injEq,
              Operation.markAdmitted.injEq] at hlast
            exact ⟨queued, by simp, hlast.1.1⟩
        | cons step middle => simp at hlast
      · cases middle with
        | nil =>
            simp only [List.nil_append, List.cons.injEq, Sigma.mk.injEq,
              Operation.markAdmitted.injEq] at hrest
            rw [List.append_nil] at hfirst
            exact ⟨queued, by rw [← hfirst]; simp, hrest.1.1.symm⟩
        | cons step middle =>
            obtain ⟨rfl, -⟩ := List.cons.inj hrest
            exact absurd (by rw [hfirst]; simp) hnot

/-- Every run of this part closes. -/
def Closing (x : AdmissionFlow Outcome) : Prop := Flow.Ensures x fun tr r => Closes tr (settle r)

theorem closing_pure (out : Outcome) : Closing (pure out) :=
  Flow.ensures_pure.mpr (.quiet _ (by simp))

theorem closing_throw (out : Outcome) : Closing (throw out) :=
  Flow.ensures_throw.mpr (.quiet _ (by simp))

theorem closing_request {op : Operation} {f : Result → AdmissionFlow Outcome}
    (hop : op.isPhaseTwo = false) (hf : ∀ ans, Closing (f ans)) :
    Closing (Flow.request op >>= f) := by
  refine Flow.ensures_request_bind.mpr fun ans => ?_
  refine Flow.Ensures.mono (hf ans) ?_
  intro tr r h
  have hstep : ∀ step ∈ ([⟨op, ans⟩] : Trace), step.1.isPhaseTwo = false := by simpa using hop
  exact h.append hstep

/-- A part without phase two. -/
def Quiet (x : AdmissionFlow Unit) : Prop :=
  Flow.Ensures x fun tr _ => ∀ step ∈ tr, step.1.isPhaseTwo = false

theorem Quiet.andThen {x : AdmissionFlow Unit} {f : AdmissionFlow Outcome} (hx : Quiet x)
    (hf : Closing f) : Closing (x >>= fun _ => f) := by
  refine Flow.Ensures.bind hx ?_ ?_
  · intro tr e htr
    exact .quiet _ htr
  · intro tr _ htr
    refine Flow.Ensures.mono hf ?_
    intro rest r h
    exact h.append htr

theorem quiet_request {op : Operation} {f : Result → AdmissionFlow Unit}
    (hop : op.isPhaseTwo = false) (hf : ∀ ans, Quiet (f ans)) : Quiet (Flow.request op >>= f) := by
  refine Flow.ensures_request_bind.mpr fun ans => ?_
  refine Flow.Ensures.mono (hf ans) ?_
  intro tr r h
  exact List.forall_mem_cons.mpr ⟨hop, h⟩

theorem quiet_pure : Quiet (pure ()) := Flow.ensures_pure.mpr (by simp)

theorem quiet_throw (out : Outcome) : Quiet (throw out) := Flow.ensures_throw.mpr (by simp)

theorem allowIp_quiet : Quiet allowIp := by
  apply quiet_request rfl
  intro ans
  split
  · exact quiet_pure
  · exact quiet_throw _
  · exact quiet_throw _

theorem referGroupGate_quiet : Quiet (referGroupGate task) := by
  apply quiet_request rfl
  intro ans
  split
  · exact quiet_pure
  · exact quiet_pure
  · apply quiet_request rfl
    intro ans
    split
    · split
      · exact quiet_pure
      · exact quiet_throw _
    · exact quiet_throw _
    · exact quiet_throw _
  · exact quiet_throw _

theorem writeGates_quiet : Quiet writeGates := by
  apply quiet_request rfl
  intro ans
  split
  · split
    · exact quiet_throw _
    · apply quiet_request rfl
      intro ans
      split
      · exact quiet_pure
      · exact quiet_throw _
      · exact quiet_throw _
  · exact quiet_throw _

theorem enqueue_closing (queued : RegisterTask) : Closing (enqueue queued) := by
  have hnone : ∀ step ∈ ([] : Trace), step.1.isPhaseTwo = false := by simp
  refine Flow.ensures_request_bind.mpr fun ans => ?_
  cases ans with
  | enqueued =>
      refine Flow.ensures_request_bind.mpr fun marked => ?_
      have hclosed := Closes.marked queued marked hnone
      cases marked with
      | taskFound found =>
          cases found with
          | none => exact Flow.ensures_throw.mpr hclosed
          | some record => exact Flow.ensures_pure.mpr hclosed
      | _ => exact Flow.ensures_throw.mpr hclosed
  | _ => exact Flow.ensures_throw.mpr (.refused queued _ _ hnone (by simp))

theorem resume_closing (existing : RegisterTask) : Closing (resume existing) := by
  unfold resume
  split
  · exact closing_pure _
  · exact enqueue_closing existing

theorem twoPhase_closing (digest : Option String) : Closing (twoPhase task digest) := by
  apply closing_request rfl
  intro ans
  split
  · apply closing_request rfl
    intro ans
    split
    · split
      · exact closing_pure _
      · exact enqueue_closing _
    · exact closing_throw _
  · split
    · apply closing_request rfl
      intro _
      exact enqueue_closing task
    · exact enqueue_closing task
  · exact closing_throw _

theorem isPhaseTwo_precheck : (precheck task contentHash).isPhaseTwo = false := by
  unfold precheck
  split <;> rfl

theorem gated_closing (digest : Option String) : Closing (do
    if task.kind = .refer then referGroupGate task else pure ()
    writeGates
    twoPhase task digest) := by
  have hwrite : Closing (writeGates >>= fun _ => twoPhase task digest) :=
    writeGates_quiet.andThen (twoPhase_closing digest)
  dsimp only
  split
  · exact referGroupGate_quiet.andThen hwrite
  · exact hwrite

theorem admitFresh_closing (digest : Option String) :
    Closing (admitFresh task contentHash digest) := by
  apply closing_request isPhaseTwo_precheck
  intro ans
  split
  · exact closing_pure _
  · exact gated_closing digest
  · exact gated_closing digest
  · exact closing_throw _

theorem coalesce_closing : Closing (coalesce E task contentHash) := by
  unfold coalesce
  split
  · exact admitFresh_closing none
  · apply closing_request rfl
    intro ans
    split
    · split
      · exact resume_closing _
      · exact admitFresh_closing _
    · exact admitFresh_closing _
    · exact closing_throw _

theorem driveTask_closing : Closing (driveTask E task contentHash) := by
  apply allowIp_quiet.andThen
  apply closing_request rfl
  intro ans
  split
  · exact resume_closing _
  · exact coalesce_closing
  · exact closing_throw _

theorem closes_of_runs {K : P256Crate} {submitted : Submission} {tr : Trace} {out : Outcome}
    (hrun : (admission K E submitted).Runs tr out) : Closes tr out := by
  obtain ⟨r, hdrive, rfl⟩ := Prog.runs_map.mp hrun
  unfold driveAdmission at hdrive
  split at hdrive
  · exact closing_pure _ tr r hdrive
  · exact driveTask_closing tr r hdrive

/-! ## Whole runs -/

/-- A run of the program for a valid task. -/
theorem allowed_of_runs {K : P256Crate} {submitted : Submission} {tr : Trace} {out : Outcome}
    (hvalid : validate K E submitted = .ok (task, contentHash))
    (hrun : (admission K E submitted).Runs tr out) :
    Flow.Allowed (guard E task contentHash) [] tr ∧ ∃ r, settle r = out ∧ Leaves r tr := by
  rw [admission_of_validate hvalid] at hrun
  obtain ⟨r, hdrive, hsettle⟩ := Prog.runs_map.mp hrun
  obtain ⟨hallowed, hleaves⟩ := driveTask_guarded tr r hdrive
  exact ⟨hallowed, r, hsettle, hleaves⟩

/-- Whatever is invalid ends before the first operation. -/
theorem runs_of_invalid {K : P256Crate} {submitted : Submission} {message : String} {tr : Trace}
    {out : Outcome} (hinvalid : validate K E submitted = .error message)
    (hrun : (admission K E submitted).Runs tr out) : tr = [] ∧ out = .invalid message := by
  rw [admission, driveAdmission, hinvalid] at hrun
  obtain ⟨r, hdone, rfl⟩ := Prog.runs_map.mp hrun
  obtain ⟨rfl, rfl⟩ := Flow.runs_pure.mp hdone
  exact ⟨rfl, rfl⟩

/-- A run for a refer whose content was admitted by someone else in the meantime: the record is
loaded and its second phase repaired. -/
def repairTrace (task existing marked : RegisterTask) (contentHash : String) : Trace :=
  [⟨.allowIpCreate, .allowed true⟩, ⟨.findTaskByContent contentHash, .taskFound none⟩,
    ⟨precheck task contentHash, .chainBool false⟩,
    ⟨.checkGroupExists task.groupPublicKey, .chainBool true⟩, ⟨.queueDepth, .depth 0⟩,
    ⟨.allowGlobalCreate, .allowed true⟩, ⟨.admitTask task, .admitted (.existing existing.id)⟩,
    ⟨.loadTask existing.id, .taskFound (some existing)⟩, ⟨.enqueue existing, .enqueued⟩,
    ⟨.markAdmitted existing.id, .taskFound (some marked)⟩]

theorem runs_repairTrace {K : P256Crate} {submitted : Submission} {existing marked : RegisterTask}
    (hvalid : validate K E submitted = .ok (task, contentHash)) (hkind : task.kind = .refer)
    (hflag : existing.admitted = false) : (admission K E submitted).Runs
      (repairTrace task existing marked contentHash) (.queued marked.id marked.status) := by
  rw [admission_of_validate hvalid]
  refine Prog.runs_map.mpr ⟨.ok (.queued marked.id marked.status), ?_, rfl⟩
  show Flow.Runs (driveTask E task contentHash) _ _
  unfold driveTask
  refine Flow.runs_bind.mpr (.inr ⟨[⟨.allowIpCreate, .allowed true⟩], _, (), rfl, ?_, ?_⟩)
  · exact Flow.runs_request_bind.mpr ⟨.allowed true, [], rfl, Flow.runs_pure.mpr ⟨rfl, rfl⟩⟩
  refine Flow.runs_request_bind.mpr ⟨.taskFound none, _, rfl, ?_⟩
  simp only [coalesce, hkind]
  refine Flow.runs_request_bind.mpr ⟨.chainBool false, _, rfl, ?_⟩
  simp only [hkind, if_true]
  refine Flow.runs_bind.mpr
    (.inr ⟨[⟨.checkGroupExists task.groupPublicKey, .chainBool true⟩], _, (),
    rfl, ?_, ?_⟩)
  · exact Flow.runs_request_bind.mpr ⟨.chainBool true, [], rfl, Flow.runs_pure.mpr ⟨rfl, rfl⟩⟩
  refine Flow.runs_bind.mpr
    (.inr ⟨[⟨.queueDepth, .depth 0⟩, ⟨.allowGlobalCreate, .allowed true⟩], _, (),
    rfl, ?_, ?_⟩)
  · refine Flow.runs_request_bind.mpr ⟨.depth 0, _, rfl, ?_⟩
    exact Flow.runs_request_bind.mpr ⟨.allowed true, [], rfl, Flow.runs_pure.mpr ⟨rfl, rfl⟩⟩
  refine Flow.runs_request_bind.mpr ⟨.admitted (.existing existing.id), _, rfl, ?_⟩
  refine Flow.runs_request_bind.mpr ⟨.taskFound (some existing), _, rfl, ?_⟩
  simp only [hflag, Bool.false_eq_true, if_false]
  refine Flow.runs_request_bind.mpr ⟨.enqueued, _, rfl, ?_⟩
  exact Flow.runs_request_bind.mpr ⟨.taskFound (some marked), [], rfl,
    Flow.runs_pure.mpr ⟨rfl, rfl⟩⟩

theorem repairTrace_named (task existing marked : RegisterTask) (contentHash : String)
    (h : marked.id = existing.id) (id : String) (found : RegisterTask)
    (hmem : ⟨.markAdmitted id, .taskFound (some found)⟩ ∈
      repairTrace task existing marked contentHash) :
    found.id = id := by
  obtain ⟨rfl, rfl⟩ : id = existing.id ∧ found = marked := by
    simpa [repairTrace] using hmem
  exact h

/-- What a run for a valid task admits, puts on the queue and promises. -/
structure Sound (E : Contract.Evm) (task : RegisterTask) (contentHash : String) (tr : Trace)
    (out : Outcome) : Prop where
  /-- The task itself, and only behind every gate. -/
  admits : ∀ before admitted ans after, tr = before ++ ⟨.admitTask admitted, ans⟩ :: after →
    admitted = task ∧ Gated E task contentHash before
  admits_once : tr.countP (fun step => step.1.isAdmit) ≤ 1
  /-- The task just admitted as new, or a record just reported without the admission flag. -/
  enqueues : ∀ before queued ans after, tr = before ++ ⟨.enqueue queued, ans⟩ :: after →
    (queued = task ∧ JustAdmitted task before) ∨ ∃ op, JustReported op queued before
  enqueues_once : tr.countP (fun step => step.1.isEnqueue) ≤ 1
  /-- A promise has its ground in the run. -/
  promises : ∀ id status, out = .queued id status → Durable id tr

/-- In every run whose marks are answered with the record they name, whatever else the shell
answers. -/
theorem admission_sound (K : P256Crate) (E : Contract.Evm) (submitted : Submission) (tr : Trace)
    (out : Outcome) (hrun : (admission K E submitted).Runs tr out)
    (hnamed : ∀ id marked, ⟨.markAdmitted id, .taskFound (some marked)⟩ ∈ tr → marked.id = id) :
    (∀ message, validate K E submitted = .error message → tr = [] ∧ out = .invalid message) ∧
      ∀ task contentHash, validate K E submitted = .ok (task, contentHash) →
        Sound E task contentHash tr out := by
  refine ⟨fun message hinvalid => runs_of_invalid hinvalid hrun, ?_⟩
  intro task contentHash hvalid
  obtain ⟨hallowed, r, rfl, hleaves⟩ := allowed_of_runs hvalid hrun
  refine ⟨?_, ?_, ?_, ?_, hleaves.queued hnamed⟩
  · intro before admitted ans after heq
    obtain ⟨hsame, hgated, -⟩ := hallowed before _ ans after heq
    exact ⟨hsame, hgated⟩
  · refine hallowed.countP_le ?_
    intro past op hop hguard
    cases op with
    | admitTask admitted =>
        -- only gates came before
        have hnone : past.countP (fun step => step.1.isAdmit) = 0 := by
          refine List.countP_eq_zero.mpr fun step hstep hcounted => ?_
          have hgate := hguard.2.2 step hstep
          obtain ⟨earlier, ans⟩ := step
          cases earlier with
          | admitTask admitted => cases hgate
          | _ => cases hcounted
        omega
    | _ => cases hop
  · intro before queued ans after heq
    obtain ⟨-, hreason⟩ := hallowed before _ ans after heq
    rcases hreason with hnew | ⟨op, hreported, -⟩
    · exact .inl hnew
    · exact .inr ⟨op, hreported⟩
  · refine hallowed.countP_le ?_
    intro past op hop hguard
    cases op with
    | enqueue queued =>
        have hnone : past.countP (fun step => step.1.isEnqueue) = 0 := by
          refine List.countP_eq_zero.mpr fun step hstep hqueue => ?_
          cases (hguard.1 step hstep).symm.trans hqueue
        omega
    | _ => cases hop

open Registrar.Sample (crate submitted referTask referRequest validate_refer referHash)

/-- A device whose earlier request stopped before the queue: the record is put on the queue, and the
promise is about it. -/
theorem admission_sound_repair :
    let earlier := referTask "earlier"
    let tr := repairTrace (referTask "again") earlier { earlier with admitted := true }
      (hexText referHash.val)
    (admission crate Contract.Sample.evm (submitted "again" (.refer referRequest))).Runs tr
        (.queued "earlier" .pending) ∧
      Sound Contract.Sample.evm (referTask "again") (hexText referHash.val) tr
        (.queued "earlier" .pending) := by
  intro earlier tr
  have hrun :
      (admission crate Contract.Sample.evm (submitted "again" (.refer referRequest))).Runs tr
      (.queued "earlier" .pending) := runs_repairTrace (validate_refer "again") rfl rfl
  have hnamed := repairTrace_named (referTask "again") earlier { earlier with admitted := true }
    (hexText referHash.val) rfl
  exact ⟨hrun, (admission_sound _ _ _ tr _ hrun hnamed).2 _ _ (validate_refer "again")⟩

/-! ## Finished tasks -/

/-- In every run: nothing finished is put on the queue exactly if every finished record that is
loaded behind an admission has the admission flag. -/
theorem enqueue_unfinished_iff (K : P256Crate) (E : Contract.Evm) (submitted : Submission)
    (tr : Trace) (out : Outcome) (hrun : (admission K E submitted).Runs tr out) :
    (∀ queued ans, ⟨.enqueue queued, ans⟩ ∈ tr → queued.status.isTerminal = false) ↔
      ∀ id loaded, ⟨.loadTask id, .taskFound (some loaded)⟩ ∈ tr → loaded.status.isTerminal = true →
        loaded.admitted = true := by
  cases hvalid : validate K E submitted with
  | error message =>
      obtain ⟨rfl, -⟩ := runs_of_invalid hvalid hrun
      simp
  | ok valid =>
      obtain ⟨task, contentHash⟩ := valid
      obtain ⟨hallowed, r, -, hleaves⟩ := allowed_of_runs hvalid hrun
      constructor
      · intro hunfinished id loaded hmem hterminal
        by_contra hflag
        obtain ⟨ans, hqueued⟩ := hleaves.repaired id loaded hmem (by simpa using hflag)
        cases (hunfinished loaded ans hqueued).symm.trans hterminal
      · intro hloaded queued ans hmem
        by_contra hterminal
        rw [Bool.not_eq_false] at hterminal
        obtain ⟨before, after, rfl⟩ := List.append_of_mem hmem
        obtain ⟨-, hreason⟩ := hallowed before _ ans after rfl
        rcases hreason with ⟨rfl, -⟩ | ⟨op, ⟨⟨earlier, hbefore⟩, -, hflag⟩, hload⟩
        · -- a task that was just validated is pending
          have hpending := (validate_fresh hvalid).1.pending
          rw [hpending] at hterminal
          cases hterminal
        · obtain ⟨id, rfl⟩ := hload hterminal
          have hmem' : ⟨.loadTask id, .taskFound (some queued)⟩ ∈
              before ++ ⟨.enqueue queued, ans⟩ :: after := by
            rw [List.nil_append] at hbefore
            rw [hbefore]
            simp
          cases hflag.symm.trans (hloaded id queued hmem' hterminal)

/-- The record that is loaded is still pending. -/
theorem enqueue_unfinished_pending :
    let earlier := referTask "earlier"
    let tr := repairTrace (referTask "again") earlier { earlier with admitted := true }
      (hexText referHash.val)
    (admission crate Contract.Sample.evm (submitted "again" (.refer referRequest))).Runs tr
        (.queued "earlier" .pending) ∧
      ∀ queued ans, ⟨.enqueue queued, ans⟩ ∈ tr → queued.status.isTerminal = false := by
  intro earlier tr
  have hrun :
      (admission crate Contract.Sample.evm (submitted "again" (.refer referRequest))).Runs tr
      (.queued "earlier" .pending) := runs_repairTrace (validate_refer "again") rfl rfl
  refine ⟨hrun, (enqueue_unfinished_iff _ _ _ tr _ hrun).mpr ?_⟩
  intro id loaded hmem hterminal
  obtain ⟨-, rfl⟩ : id = earlier.id ∧ loaded = earlier := by
    simpa [tr, repairTrace] using hmem
  cases hterminal

/-- Between the content lookup and the admission another request admitted the same content, and the
worker failed it before it had the admission flag: the failed record is put back on the queue. -/
theorem failed_record_enqueued :
    let earlier := { referTask "earlier" with status := .failed }
    let tr := repairTrace (referTask "again") earlier earlier (hexText referHash.val)
    (admission crate Contract.Sample.evm (submitted "again" (.refer referRequest))).Runs tr
        (.queued "earlier" .failed) ∧
      ⟨.loadTask "earlier", .taskFound (some earlier)⟩ ∈ tr ∧ ⟨.enqueue earlier, .enqueued⟩ ∈ tr ∧
        earlier.status.isTerminal = true := by
  intro earlier tr
  refine ⟨runs_repairTrace (validate_refer "again") rfl rfl, ?_, ?_, rfl⟩
  · simp [tr, repairTrace, earlier, referTask, newTask]
  · simp [tr, repairTrace]

end P256Index.Registrar.Admission
