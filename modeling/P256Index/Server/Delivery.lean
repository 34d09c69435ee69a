import P256Index.Registrar.Batch
import P256Index.Registrar.Agreement
import P256Index.Server.World

/-!
# No accepted write is lost

Every process of the service respects the specification of the commands, whatever the others do and
wherever it is cut off: the store functions, the operations of the two programs, the programs
themselves, the request handlers and the worker. With the invariant of the world this gives
delivery: a write that was answered as queued has finished, or lies in the queue before the
committed offset.
-/

namespace P256Index.Server

open Registrar

/-! ## Store functions -/

/-- The commands of the store alone. -/
def storeSpec : OpSpec StoreCommand StoreReply World where
  pre c := commandPre (.store c)
  post c := commandPost (.store c)
  pre_mono := commandPre.mono
  post_mono := commandPost.mono

variable {w : World} {α : Type}

theorem wp_onStore {x : StoreFlow α} {Q : Except Unit α → World → Prop}
    (h : storeSpec.wp x.run Q w) : commandSpec.wp (onStore x) Q w := by
  refine OpSpec.wp_interp ?_ h
  intro c w hpre
  exact OpSpec.wp_request hpre fun reply w' _ hpost => hpost

/-- A failed command ends a store function; an acknowledged one goes on. -/
theorem wp_query {c : StoreCommand} {Q : Except Unit c.Value → World → Prop}
    (hpre : commandPre (.store c) w) (hfail : ∀ w', Q (.error ()) w')
    (hok : ∀ value w', w ≤ w' → commandPost (.store c) w (some value) w' → Q (.ok value) w') :
    storeSpec.wp (query c).run Q w := by
  apply OpSpec.wp_flow_request_bind hpre
  intro reply w' hle hpost
  cases reply with
  | none => exact hfail w'
  | some value => exact hok value w' hle hpost

/-- A store function with a postcondition on its value; a failure promises nothing. -/
def Returns (x : StoreFlow α) (w : World) (Q : α → World → Prop) : Prop :=
  storeSpec.wp x.run (fun r w' => ∀ a, r = .ok a → Q a w') w

theorem Returns.pure {a : α} {Q : α → World → Prop} (h : Q a w) : Returns (pure a) w Q := by
  intro b hb
  cases hb
  exact h

theorem Returns.mono {x : StoreFlow α} {Q R : α → World → Prop} (h : Returns x w Q)
    (hQR : ∀ a w', w ≤ w' → Q a w' → R a w') : Returns x w R :=
  OpSpec.wp_mono h fun _ w' hle hQ a ha => hQR a w' hle (hQ a ha)

theorem Returns.bind {β : Type} {x : StoreFlow α} {f : α → StoreFlow β} {Q : α → World → Prop}
    {R : β → World → Prop} (hx : Returns x w Q)
    (hf : ∀ a w', w ≤ w' → Q a w' → Returns (f a) w' R) : Returns (x >>= f) w R := by
  refine OpSpec.wp_flow_bind hx ?_ ?_
  · intro e w' _ _ b hb
    cases hb
  · intro a w' hle hQ
    exact hf a w' hle (hQ a rfl)

theorem Returns.query {c : StoreCommand} {Q : c.Value → World → Prop}
    (hpre : commandPre (.store c) w)
    (hok : ∀ value w', w ≤ w' → commandPost (.store c) w (some value) w' → Q value w') :
    Returns (query c) w Q := by
  refine wp_query hpre ?_ ?_
  · intro w' a ha
    cases ha
  · intro value w' hle hpost a ha
    cases ha
    exact hok value w' hle hpost

theorem getTask_returns (id : String) :
    Returns (getTask id) w fun found w' => ReadAt id w w' found :=
  Returns.query trivial fun found _ _ hpost => hpost found rfl

/-- What a lookup finds is a record that can be relied on. -/
def Found (found : Option RegisterTask) (w : World) : Prop :=
  ∀ task, found = some task → w.Read task

theorem findById_returns (id : Option String) : Returns (findById id) w Found := by
  cases id with
  | none => exact Returns.pure (by simp [Found])
  | some id =>
      apply (getTask_returns id).mono
      rintro found w' - hread task rfl
      exact hread.1

theorem findByContent_returns (contentHash : String) :
    Returns (findByContent contentHash) w Found := by
  have hindex : Returns (query (.getContent contentHash)) w fun _ _ => True :=
    Returns.query trivial fun _ _ _ _ => trivial
  exact hindex.bind fun id w' _ _ => findById_returns id

theorem findByPublicKey_returns (publicKey : String) :
    Returns (findByPublicKey publicKey) w Found := by
  have hindex : Returns (query (.getKey publicKey)) w fun _ _ => True :=
    Returns.query trivial fun _ _ _ _ => trivial
  exact hindex.bind fun id w' _ _ => findById_returns id

theorem findByRetryDigest_returns (digest : String) :
    Returns (findByRetryDigest digest) w Found := by
  have hindex : Returns (query (.getRetry digest)) w fun _ _ => True :=
    Returns.query trivial fun _ _ _ _ => trivial
  exact hindex.bind fun id w' _ _ => findById_returns id

/-- The swap writes `admitted` only for a task whose envelope is in the log. -/
theorem markAdmitted_returns {id : String} (happended : w.Appended id) :
    Returns (markAdmitted id) w fun found w' =>
      ∀ task, found = some task → w'.Read task ∧ task.id = id := by
  have hread : ∀ w₁, Returns (getTask id) w₁ fun found w' =>
      ∀ task, found = some task → w'.Read task ∧ task.id = id := by
    intro w₁
    apply (getTask_returns id).mono
    rintro found w' - hread task rfl
    exact hread
  apply (hread w).bind
  intro found w₁ hle hfound
  cases found with
  | none => exact Returns.pure (by simp)
  | some before =>
      obtain ⟨hbefore, rfl⟩ := hfound before rfl
      by_cases hterminal : before.status.isTerminal = true
      · simp only [hterminal, if_true]
        apply Returns.pure
        rintro task ⟨⟩
        exact ⟨hbefore, rfl⟩
      · have hpending : before.status.isTerminal = false := by simpa using hterminal
        simp only [hpending, Bool.false_eq_true, if_false]
        have hswap :
            Returns (query (.swapTask before.id before { before with admitted := true })) w₁
            fun swapped w' => swapped = true → w'.Read { before with admitted := true } :=
          Returns.query ⟨rfl, rfl, hpending, happended.mono hle⟩ fun swapped w' _ hpost hs =>
            hpost (by rw [hs])
        apply hswap.bind
        intro swapped w₂ _ hswapped
        cases swapped with
        | false => exact hread w₂
        | true =>
            apply Returns.pure
            rintro task ⟨⟩
            exact ⟨hswapped rfl, rfl⟩

/-- A mark that is acknowledged, or that finds no record, means the task has finished. -/
theorem markDone_returns {id : String} (hstored : w.Stored id) (txHash : Option String)
    (onChainId : Option UInt64) :
    Returns (markDone id txHash onChainId) w fun _ w' => w'.Finished id := by
  apply (getTask_returns id).bind
  intro found w₁ _ hread
  cases found with
  | none => exact Returns.pure (hread hstored)
  | some task =>
      obtain ⟨-, rfl⟩ := hread
      have hmark : Returns (query (.transitionDone (doneRecord task txHash onChainId))) w₁
          fun _ w' => w'.Finished task.id :=
        Returns.query rfl fun _ w' _ hpost => hpost rfl
      exact hmark.bind fun _ w' _ hfin => Returns.pure hfin

theorem markFailed_returns {id : String} (hstored : w.Stored id) (failureClass message : String) :
    Returns (markFailed id failureClass message) w fun _ w' => w'.Finished id := by
  apply (getTask_returns id).bind
  intro found w₁ _ hread
  cases found with
  | none => exact Returns.pure (hread hstored)
  | some task =>
      obtain ⟨-, rfl⟩ := hread
      have hmark : Returns (query (.transitionFailed (failedRecord task failureClass message))) w₁
          fun _ w' => w'.Finished task.id :=
        Returns.query rfl fun _ w' _ hpost => hpost rfl
      exact hmark.bind fun _ w' _ hfin => Returns.pure hfin

/-- A transient failure writes the record back as it was read, or as failed. -/
theorem recordTransientFailure_returns (id message : String) :
    Returns (recordTransientFailure id message) w fun _ _ => True := by
  apply (getTask_returns id).bind
  intro found w₁ _ hread
  cases found with
  | none => exact Returns.pure trivial
  | some task =>
      by_cases hterminal : task.status.isTerminal = true
      · simp only [hterminal, if_true]
        exact Returns.pure trivial
      · have hpending : task.status.isTerminal = false := by simpa using hterminal
        simp only [hpending, Bool.false_eq_true, if_false]
        split
        · have hmark :
              Returns (query (.transitionFailed (exhaustedRecord (retriedRecord task message))))
              w₁ fun _ _ => True :=
            Returns.query rfl fun _ _ _ _ => trivial
          exact hmark.bind fun _ _ _ _ => Returns.pure trivial
        · have hwrite :
              Returns (query (.setTask (retriedRecord task message))) w₁ fun _ _ => True :=
            Returns.query ⟨hpending, fun hadmitted => hread.1.appended hadmitted hpending⟩
              fun _ _ _ _ => trivial
          exact hwrite.bind fun _ _ _ _ => Returns.pure trivial

/-- The gates only count. -/
theorem incrementMinute_returns (key : String) :
    Returns (incrementMinute key) w fun _ _ => True := by
  have hincr : Returns (query (.incr key)) w fun _ _ => True :=
    Returns.query trivial fun _ _ _ _ => trivial
  apply hincr.bind
  intro count w₁ _ _
  split
  · have hexpire : Returns (query (.pexpire key)) w₁ fun _ _ => True :=
      Returns.query trivial fun _ _ _ _ => trivial
    exact hexpire.bind fun _ _ _ _ => Returns.pure trivial
  · exact Returns.pure trivial

/-! ## Producing -/

theorem wp_onQueue {c : QueueCommand} {Q : Option c.Value → World → Prop}
    (hpre : commandPre (.queue c) w)
    (hpost : ∀ reply w', w ≤ w' → commandPost (.queue c) w reply w' → Q reply w') :
    commandSpec.wp (onQueue c) Q w :=
  OpSpec.wp_request hpre hpost

theorem wp_onChain {c : ChainCommand} {Q : c.Value → World → Prop}
    (hQ : ∀ answer w', w ≤ w' → Q answer w') : commandSpec.wp (onChain c) Q w :=
  OpSpec.wp_request trivial fun answer w' hle _ => hQ answer w' hle

theorem ensurePart_wp {create : Process (Option Unit)} {inspect : Process (Option Bool)}
    (hcreate : ∀ w, commandSpec.wp create (fun _ _ => True) w)
    (hinspect : ∀ w, commandSpec.wp inspect (fun _ _ => True) w) :
    commandSpec.wp (ensurePart create inspect) (fun _ _ => True) w := by
  have hmissing : ∀ w, commandSpec.wp (createIfMissing create inspect) (fun _ _ => True) w := by
    intro w
    apply OpSpec.wp_bind (hcreate w)
    intro created w₁ _ _
    cases created with
    | some _ => trivial
    | none =>
        apply OpSpec.wp_bind (hinspect w₁)
        intro there w₂ _ _
        split
        · trivial
        · trivial
  apply OpSpec.wp_bind (hinspect w)
  intro there w₁ _ _
  split
  · trivial
  · trivial
  · apply OpSpec.wp_bind (hmissing w₁)
    intro created w₂ _ _
    cases created with
    | ok _ => trivial
    | error _ => trivial

/-- Looking after the topology needs nothing and touches no envelope. -/
theorem ensureTopology_wp : commandSpec.wp ensureTopology (fun _ _ => True) w := by
  have hcreateStream : ∀ w, commandSpec.wp (onQueue .createStream) (fun _ _ => True) w :=
    fun w => wp_onQueue trivial fun _ _ _ _ => trivial
  have hgetStream : ∀ w, commandSpec.wp (onQueue .getStream) (fun _ _ => True) w :=
    fun w => wp_onQueue trivial fun _ _ _ _ => trivial
  have hcreateTopic : ∀ w, commandSpec.wp (onQueue .createTopic) (fun _ _ => True) w :=
    fun w => wp_onQueue trivial fun _ _ _ _ => trivial
  have hgetTopic : ∀ w, commandSpec.wp (onQueue .getTopic) (fun _ _ => True) w :=
    fun w => wp_onQueue trivial fun _ _ _ _ => trivial
  apply OpSpec.wp_bind (ensurePart_wp hcreateStream hgetStream)
  intro stream w₁ _ _
  cases stream with
  | error _ => trivial
  | ok streamMissing =>
      apply OpSpec.wp_bind (ensurePart_wp hcreateTopic hgetTopic)
      intro topic w₂ _ _
      cases topic with
      | error _ => trivial
      | ok topicMissing => trivial

/-- A confirmed append is in the log, at the first attempt or at the second. -/
theorem enqueueTask_wp {task : RegisterTask} (hstored : w.Stored task.id) :
    commandSpec.wp (enqueueTask task) (fun r w' => r = .ok () → w'.Appended task.id) w := by
  have happend : ∀ w, w.Stored task.id → commandSpec.wp (onQueue (.append task))
      (fun reply w' => reply = some () → w'.Appended task.id) w :=
    fun w hstored => wp_onQueue hstored fun _ _ _ hpost => hpost
  apply OpSpec.wp_bind (happend w hstored)
  intro first w₁ hle hfirst
  cases first with
  | some _ => exact fun _ => hfirst rfl
  | none =>
      apply OpSpec.wp_bind ensureTopology_wp
      intro created w₂ hle₂ _
      split
      · apply OpSpec.wp_bind (happend w₂ (hstored.mono (le_trans hle hle₂)))
        intro second w₃ _ hsecond
        cases second with
        | some _ => exact fun _ => hsecond rfl
        | none => exact fun hr => by cases hr
      · exact fun hr => by cases hr

/-! ## Operations of the admission program -/

section Admission

open Admission

/-- What an operation needs before it is issued. -/
def admissionPre : Operation → World → Prop
  | .admitTask task, _ => task.status.isTerminal = false ∧ task.admitted = false
  | .enqueue task, w => w.Stored task.id
  | .markAdmitted id, w => w.Appended id
  | _, _ => True

/-- What its answer teaches. -/
def admissionLearned : Operation → Result → World → Prop
  | .markAdmitted id, .taskFound (some task), w => w.Read task ∧ task.id = id
  | _, .taskFound (some task), w => w.Read task
  | .admitTask task, .admitted .new, w => w.Stored task.id
  | .enqueue task, .enqueued, w => w.Appended task.id
  | _, _, _ => True

theorem admissionPre.mono {op : Operation} {w w' : World} (hle : w ≤ w') (h : admissionPre op w) :
    admissionPre op w' := by
  cases op with
  | enqueue task => exact World.Stored.mono hle h
  | markAdmitted id => exact World.Appended.mono hle h
  | _ => exact h

theorem admissionLearned.mono {op : Operation} {ans : Result} {w w' : World} (hle : w ≤ w')
    (h : admissionLearned op ans w) : admissionLearned op ans w' := by
  unfold admissionLearned at h ⊢
  split at h
  · exact ⟨h.1.mono hle, h.2⟩
  · simpa [*] using h.mono hle
  · exact h.mono hle
  · exact h.mono hle
  · simp_all

def admissionSpec : OpSpec Operation (fun _ => Result) World where
  pre := admissionPre
  post op _ ans w' := admissionLearned op ans w'
  pre_mono := admissionPre.mono
  post_mono _ hle h := h.mono hle

/-- A lookup through the store. -/
theorem foundTask_wp {x : StoreFlow (Option RegisterTask)} (op : Operation) (h : Returns x w Found)
    (hop : ∀ id, op ≠ .markAdmitted id) :
    commandSpec.wp (foundTask <$> onStore x) (fun ans w' => admissionLearned op ans w') w := by
  refine OpSpec.wp_map (wp_onStore (OpSpec.wp_mono h ?_))
  intro r w' _ hr
  cases r with
  | error e => simp [foundTask, admissionLearned]
  | ok found =>
      cases found with
      | none => simp [foundTask, admissionLearned]
      | some task =>
          have hread : w'.Read task := hr (some task) rfl task rfl
          cases op <;> first | exact hread | exact absurd rfl (hop _)

theorem chainAnswer_learned (op : Operation) (read : Option Bool) (w : World) :
    admissionLearned op (chainAnswer read) w := by
  cases read <;> simp [chainAnswer, admissionLearned]

theorem allowedAnswer_wp {x : StoreFlow Bool} (op : Operation) (h : Returns x w fun _ _ => True) :
    commandSpec.wp (allowedAnswer <$> onStore x) (fun ans w' => admissionLearned op ans w') w := by
  refine OpSpec.wp_map (wp_onStore (OpSpec.wp_mono h ?_))
  intro r w' _ _
  cases r <;> simp [allowedAnswer, admissionLearned]

/-- The shell performs every operation of the admission program as specified. -/
theorem executeAdmission_wp (client : Client) (op : Operation) (hpre : admissionPre op w) :
    commandSpec.wp (executeAdmission client op) (fun ans w' => admissionLearned op ans w') w := by
  cases op with
  | allowIpCreate =>
      exact allowedAnswer_wp _ ((incrementMinute_returns _).bind fun _ _ _ _ =>
        Returns.pure trivial)
  | findTaskByContent contentHash => exact foundTask_wp _ (findByContent_returns _) (by simp)
  | findTaskByRetryDigest digest => exact foundTask_wp _ (findByRetryDigest_returns _) (by simp)
  | recordRetryDigest digest taskId =>
      have hset : Returns (recordRetryDigest digest taskId) w fun _ _ => True :=
        Returns.query trivial fun _ _ _ _ => trivial
      apply OpSpec.wp_bind (wp_onStore hset)
      intro r w' _ _
      cases r <;> trivial
  | checkContentRegistered contentHash =>
      simp only [executeAdmission]
      split
      · trivial
      · exact OpSpec.wp_map (wp_onChain fun read w' _ => chainAnswer_learned _ read w')
  | checkReferenced group member =>
      simp only [executeAdmission]
      split
      · exact OpSpec.wp_map (wp_onChain fun read w' _ => chainAnswer_learned _ read w')
      · trivial
  | checkGroupExists group =>
      simp only [executeAdmission]
      split
      · trivial
      · apply OpSpec.wp_bind (wp_onChain (Q := fun _ _ => True) fun _ _ _ => trivial)
        intro read w' _ _
        exact chainAnswer_learned _ _ w'
  | findTaskByKey keyHash => exact foundTask_wp _ (findByPublicKey_returns _) (by simp)
  | queueDepth =>
      have hdepth : Returns queueDepth w fun _ _ => True :=
        Returns.query trivial fun _ _ _ _ => trivial
      apply OpSpec.wp_bind (wp_onStore hdepth)
      intro r w' _ _
      cases r <;> trivial
  | allowGlobalCreate =>
      exact allowedAnswer_wp _ ((incrementMinute_returns _).bind fun _ _ _ _ =>
        Returns.pure trivial)
  | admitTask task =>
      have hnew : Returns (admitTask task) w fun admission w' =>
          ∀ id, admission = .new id → w'.Stored task.id :=
        Returns.query hpre fun _ _ _ hpost id hid => hpost id (by rw [hid])
      apply OpSpec.wp_bind (wp_onStore hnew)
      intro r w' _ hr
      cases r with
      | error _ => trivial
      | ok admission =>
          cases admission with
          | new id => exact hr _ rfl id rfl
          | existing id => trivial
  | loadTask id =>
      refine foundTask_wp _ ((getTask_returns id).mono ?_) (by simp)
      rintro found w' - hread task rfl
      exact hread.1
  | enqueue task =>
      apply OpSpec.wp_bind (enqueueTask_wp hpre)
      intro r w' _ hr
      cases r with
      | ok _ => exact hr rfl
      | error _ => trivial
  | markAdmitted id =>
      refine OpSpec.wp_map (wp_onStore (OpSpec.wp_mono (markAdmitted_returns hpre) ?_))
      intro r w' _ hr
      cases r with
      | error _ => trivial
      | ok found =>
          cases found with
          | none => trivial
          | some task => exact hr _ rfl task rfl

/-! ## The admission program -/

/-- A queued answer of a task that is still pending has its envelope. -/
def Accepted (outcome : Outcome) (w : World) : Prop :=
  ∀ id status, outcome = .queued id status → status.isTerminal = false → w.Appended id

theorem Accepted.mono {outcome : Outcome} {w w' : World} (hle : w ≤ w') (h : Accepted outcome w) :
    Accepted outcome w' :=
  fun id status hqueued hpending => (h id status hqueued hpending).mono hle

theorem accepted_of_read {task : RegisterTask} (h : w.Read task)
    (hready : task.admitted = true ∨ task.status.isTerminal = true) :
    Accepted (.queued task.id task.status) w := by
  rintro id status ⟨⟩ hpending
  rcases hready with hadmitted | hterminal
  · exact h.appended hadmitted hpending
  · cases hpending.symm.trans hterminal

/-- The program ends in an outcome that is kept. -/
def Settles (x : AdmissionFlow Outcome) (w : World) : Prop :=
  admissionSpec.wp x.run (fun r w' => Accepted (settle r) w') w

/-- A check in front of the rest: it exits with an outcome that is kept, or goes on. -/
def Gates (x : AdmissionFlow Unit) (w : World) : Prop :=
  admissionSpec.wp x.run (fun r w' => ∀ outcome, r = .error outcome → Accepted outcome w') w

theorem Settles.request {op : Operation} {f : Result → AdmissionFlow Outcome}
    (hpre : admissionPre op w)
    (hf : ∀ ans w', w ≤ w' → admissionLearned op ans w' → Settles (f ans) w') :
    Settles (Flow.request op >>= f) w :=
  OpSpec.wp_flow_request_bind hpre hf

theorem Gates.request {op : Operation} {f : Result → AdmissionFlow Unit} (hpre : admissionPre op w)
    (hf : ∀ ans w', Gates (f ans) w') : Gates (Flow.request op >>= f) w :=
  OpSpec.wp_flow_request_bind hpre fun ans w' _ _ => hf ans w'

theorem Gates.pass : Gates (pure ()) w := by
  intro outcome hr
  cases hr

theorem Gates.exit {outcome : Outcome} (h : Accepted outcome w) : Gates (throw outcome) w := by
  intro outcome' hr
  cases hr
  exact h

theorem Gates.bind {x : AdmissionFlow Unit} {f : Unit → AdmissionFlow Outcome} (hx : Gates x w)
    (hf : ∀ w', w ≤ w' → Settles (f ()) w') : Settles (x >>= f) w := by
  refine OpSpec.wp_flow_bind hx ?_ ?_
  · intro outcome w' _ h
    exact h outcome rfl
  · intro _ w' hle _
    exact hf w' hle

theorem Settles.exit {outcome : Outcome} (h : Accepted outcome w) : Settles (throw outcome) w := h

theorem Settles.answer {outcome : Outcome} (h : Accepted outcome w) : Settles (pure outcome) w := h

/-- Only a queued answer promises anything. -/
theorem accepted_redisDown : Accepted redisDown w := by simp [Accepted, redisDown]

/-- Phase two: after a confirmed append the answer is kept, whatever the last mark says. -/
theorem enqueue_settles {task : RegisterTask} (hstored : w.Stored task.id) :
    Settles (enqueue task) w := by
  have hpre : admissionPre (.enqueue task) w := hstored
  apply Settles.request hpre
  intro ans w₁ _ happended
  cases ans with
  | enqueued =>
      have hpre : admissionPre (.markAdmitted task.id) w₁ := happended
      apply Settles.request hpre
      intro ans w₂ hle hread
      cases ans with
      | taskFound found =>
          cases found with
          | none => exact Settles.exit accepted_redisDown
          | some marked =>
              apply Settles.answer
              rintro id status ⟨⟩ -
              rw [hread.2]
              exact World.Appended.mono hle happended
      | _ => exact Settles.exit accepted_redisDown
  | queueUnavailable => exact Settles.exit (by simp [Accepted])
  | _ => exact Settles.exit accepted_redisDown

theorem resume_settles {existing : RegisterTask} (h : w.Read existing) :
    Settles (resume existing) w := by
  unfold resume
  split
  · next hready => exact Settles.answer (accepted_of_read h (by simpa using hready))
  · exact enqueue_settles h.stored

theorem allowIp_gates : Gates allowIp w := by
  refine Gates.request trivial fun ans w' => ?_
  split
  · exact Gates.pass
  · exact Gates.exit (by simp [Accepted])
  · exact Gates.exit accepted_redisDown

theorem referGroupGate_gates (task : RegisterTask) : Gates (referGroupGate task) w := by
  refine Gates.request trivial fun ans w' => ?_
  split
  · exact Gates.pass
  · exact Gates.pass
  · refine Gates.request trivial fun ans w' => ?_
    split
    · split
      · exact Gates.pass
      · exact Gates.exit (by simp [Accepted])
    · exact Gates.exit (by simp [Accepted])
    · exact Gates.exit accepted_redisDown
  · exact Gates.exit accepted_redisDown

theorem writeGates_gates : Gates writeGates w := by
  refine Gates.request trivial fun ans w' => ?_
  split
  · split
    · exact Gates.exit (by simp [Accepted])
    · -- the global quota
      refine Gates.request trivial fun ans w'' => ?_
      split
      · exact Gates.pass
      · exact Gates.exit (by simp [Accepted])
      · exact Gates.exit accepted_redisDown
  · exact Gates.exit accepted_redisDown

/-- The two phases: whichever task holds the content hash, its envelope is in the log before the
answer. -/
theorem twoPhase_settles {task : RegisterTask} (hpending : task.status.isTerminal = false)
    (hfresh : task.admitted = false) (retryDigest : Option String) :
    Settles (twoPhase task retryDigest) w := by
  have hpre : admissionPre (.admitTask task) w := ⟨hpending, hfresh⟩
  apply Settles.request hpre
  intro ans w₁ _ hstored
  split
  · refine Settles.request trivial fun ans w₂ _ hread => ?_
    split
    · split
      · next hadmitted => exact Settles.answer (accepted_of_read hread (Or.inl hadmitted))
      · exact enqueue_settles hread.stored
    · exact Settles.exit accepted_redisDown
  · split
    · refine Settles.request trivial fun ans w₂ hle _ => ?_
      exact enqueue_settles (World.Stored.mono hle hstored)
    · exact enqueue_settles hstored
  · exact Settles.exit accepted_redisDown

variable {K : P256Crate} {E : Contract.Evm}

theorem admitFresh_settles {task : RegisterTask} (hpending : task.status.isTerminal = false)
    (hfresh : task.admitted = false) (contentHash : String) (retryDigest : Option String) :
    Settles (admitFresh task contentHash retryDigest) w := by
  have hrest : ∀ w, Settles (do writeGates; twoPhase task retryDigest) w :=
    fun w => writeGates_gates.bind fun w' _ => twoPhase_settles hpending hfresh retryDigest
  have hpre : admissionPre (precheck task contentHash) w := by
    unfold precheck
    split
    · trivial
    · trivial
  refine Settles.request hpre fun ans w₁ _ _ => ?_
  split
  · exact Settles.answer (by simp [Accepted])
  · split
    · exact (referGroupGate_gates task).bind fun w' _ => hrest w'
    · exact hrest w₁
  · split
    · exact (referGroupGate_gates task).bind fun w' _ => hrest w'
    · exact hrest w₁
  · exact Settles.exit accepted_redisDown

theorem coalesce_settles {task : RegisterTask} (hpending : task.status.isTerminal = false)
    (hfresh : task.admitted = false) (contentHash : String) :
    Settles (coalesce E task contentHash) w := by
  unfold coalesce
  split
  · exact admitFresh_settles hpending hfresh contentHash none
  · refine Settles.request trivial fun ans w₁ _ hread => ?_
    split
    · split
      · exact resume_settles hread
      · exact admitFresh_settles hpending hfresh contentHash _
    · exact admitFresh_settles hpending hfresh contentHash _
    · exact Settles.exit accepted_redisDown

theorem driveTask_settles {task : RegisterTask} (hpending : task.status.isTerminal = false)
    (hfresh : task.admitted = false) (contentHash : String) :
    Settles (driveTask E task contentHash) w := by
  refine allowIp_gates.bind fun w₁ _ => ?_
  refine Settles.request trivial fun ans w₂ _ hread => ?_
  split
  · exact resume_settles hread
  · exact coalesce_settles hpending hfresh contentHash
  · exact Settles.exit accepted_redisDown

/-- An admission, from the request to its outcome. -/
theorem admission_wp (submitted : Submission) :
    admissionSpec.wp (admission K E submitted) Accepted w := by
  apply OpSpec.wp_map
  show Settles (driveAdmission K E submitted) w
  unfold driveAdmission
  split
  · exact Settles.answer (by simp [Accepted])
  · next task contentHash hvalid =>
      obtain ⟨hfresh, -⟩ := validate_fresh hvalid
      exact driveTask_settles (by rw [hfresh.pending]; rfl) hfresh.not_admitted contentHash

/-- What a response promises. -/
def Kept (response : Response) (w : World) : Prop :=
  ∀ outcome, response = .settled outcome → Accepted outcome w

theorem handle_wp (client : Client) (submitted : Submission) :
    commandSpec.wp (handle K E client submitted) Kept w := by
  have hadmission : ∀ w, commandSpec.wp (driveAdmissionRequest K E client submitted) Kept w := by
    intro w
    have hprogram : commandSpec.wp ((admission K E submitted).interp (executeAdmission client))
        Accepted w :=
      OpSpec.wp_interp (fun op w hpre => executeAdmission_wp client op hpre)
        (admission_wp submitted)
    apply OpSpec.wp_bind hprogram
    rintro outcome w' - haccepted outcome' ⟨⟩
    exact haccepted
  unfold handle
  split
  · exact hadmission w
  · next request _ =>
      have hcheck : commandSpec.wp (rpIdDiffers request) (fun _ _ => True) w := by
        unfold rpIdDiffers
        split
        · apply OpSpec.wp_bind (wp_onChain (Q := fun _ _ => True) fun _ _ _ => trivial)
          intro read w' _ _
          split
          · trivial
          · trivial
        · trivial
      apply OpSpec.wp_bind hcheck
      intro differs w₁ _ _
      cases differs with
      | true =>
          intro outcome hr
          cases hr
      | false => exact hadmission w₁

end Admission

/-! ## Operations of the submission program -/

section Worker

open Submission

/-- A record as the worker loads it: one that can be relied on, or a finished task. -/
def Loaded (w : World) (id : String) : Option RegisterTask → Prop
  | some task => w.Read task ∧ task.id = id
  | none => w.Finished id

theorem Loaded.mono {w w' : World} {id : String} {found : Option RegisterTask} (hle : w ≤ w')
    (h : Loaded w id found) : Loaded w' id found := by
  cases found with
  | none => exact World.Finished.mono hle h
  | some task => exact ⟨h.1.mono hle, h.2⟩

def submissionPre : Operation → World → Prop
  | .loadTasks ids, w => ∀ id ∈ ids, w.Stored id
  | .markDone id _ _, w => w.Stored id
  | .markFailed id _ _, w => w.Stored id
  | _, _ => True

def submissionLearned : Operation → Result → World → Prop
  | .loadTasks ids, .tasksLoaded tasks, w => List.Forall₂ (Loaded w) ids tasks
  | .markDone id _ _, .persisted, w => w.Finished id
  | .markFailed id _ _, .persisted, w => w.Finished id
  | _, _, _ => True

theorem submissionPre.mono {op : Operation} {w w' : World} (hle : w ≤ w') (h : submissionPre op w) :
    submissionPre op w' := by
  cases op with
  | loadTasks ids => exact fun id hid => (h id hid).mono hle
  | markDone id _ _ => exact World.Stored.mono hle h
  | markFailed id _ _ => exact World.Stored.mono hle h
  | _ => exact h

theorem submissionLearned.mono {op : Operation} {ans : Result} {w w' : World} (hle : w ≤ w')
    (h : submissionLearned op ans w) : submissionLearned op ans w' := by
  unfold submissionLearned at h ⊢
  split at h
  · exact h.imp fun _ _ hloaded => hloaded.mono hle
  · exact h.mono hle
  · exact h.mono hle
  · simp_all

def submissionSpec : OpSpec Operation (fun _ => Result) World where
  pre := submissionPre
  post op _ ans w' := submissionLearned op ans w'
  pre_mono := submissionPre.mono
  post_mono _ hle h := h.mono hle

theorem loadEach_returns {ids : List String} (hstored : ∀ id ∈ ids, w.Stored id) :
    Returns (loadEach ids) w fun tasks w' => List.Forall₂ (Loaded w') ids tasks := by
  induction ids generalizing w with
  | nil => exact Returns.pure .nil
  | cons id ids ih =>
      have hfirst : Returns (getTask id) w fun found w' => Loaded w' id found := by
        apply (getTask_returns id).mono
        intro found w' _ hread
        cases found with
        | none => exact hread (hstored id List.mem_cons_self)
        | some task => exact hread
      apply hfirst.bind
      intro found w₁ hle hfound
      have hrest := ih fun id' hid => (hstored id' (List.mem_cons_of_mem id hid)).mono hle
      apply hrest.bind
      intro tasks w₂ hle₂ htasks
      exact Returns.pure (.cons (hfound.mono hle₂) htasks)

/-- A mark through the store. -/
theorem storeAck_wp {x : StoreFlow (Option RegisterTask)} {op : Operation} {Q : World → Prop}
    (h : Returns x w fun _ w' => Q w')
    (hpersisted : ∀ w', Q w' → submissionLearned op .persisted w')
    (hfailed : ∀ w', submissionLearned op .storeUnavailable w') :
    commandSpec.wp (storeAck <$> onStore x) (fun ans w' => submissionLearned op ans w') w := by
  refine OpSpec.wp_map (wp_onStore (OpSpec.wp_mono h ?_))
  intro r w' _ hr
  cases r with
  | error e => exact hfailed w'
  | ok found => exact hpersisted w' (hr found rfl)

/-- The shell performs every operation of the submission program as specified. -/
theorem execute_wp (op : Operation) (hpre : submissionPre op w) :
    commandSpec.wp (execute op) (fun ans w' => submissionLearned op ans w') w := by
  have hcheck : ∀ (op : Operation) read w', (∀ ids, op ≠ .loadTasks ids) →
      submissionLearned op (contentAnswer read) w' := by
    intro op read w' _
    cases read <;> cases op <;> trivial
  cases op with
  | loadTasks ids =>
      apply OpSpec.wp_bind (wp_onStore (loadEach_returns hpre))
      intro r w' _ hr
      cases r with
      | error e => trivial
      | ok tasks => exact hr tasks rfl
  | checkContentRegistered contentHash =>
      simp only [execute]
      split
      · trivial
      · exact OpSpec.wp_map (wp_onChain fun read w' _ => hcheck _ read w' (by simp))
  | checkReferenced group member =>
      simp only [execute]
      split
      · exact OpSpec.wp_map (wp_onChain fun read w' _ => hcheck _ read w' (by simp))
      · trivial
  | submitRegister task => exact OpSpec.wp_map (wp_onChain fun _ _ _ => trivial)
  | markDone id txHash onChainId =>
      exact storeAck_wp (markDone_returns hpre txHash onChainId) (fun _ h => h) fun _ => trivial
  | markFailed id kind message =>
      exact storeAck_wp (markFailed_returns hpre _ message) (fun _ h => h) fun _ => trivial
  | recordTransientFailure id message =>
      exact storeAck_wp (recordTransientFailure_returns id message) (fun _ _ => trivial)
        fun _ => trivial

/-! ## The submission program and the worker -/

variable {E : Contract.Evm}

/-- What the world knows about the records is what the program learns. -/
theorem learns_world (w : World) :
    Learns w.Stored w.Finished fun op ans => submissionLearned op ans w where
  loaded := by
    intro ids tasks hloaded
    have hloaded : List.Forall₂ (Loaded w) ids tasks := hloaded
    apply hloaded.imp
    intro id found hfound
    cases found with
    | none => exact hfound
    | some task =>
        obtain ⟨hread, rfl⟩ := hfound
        exact ⟨rfl, hread.stored, hread.finished⟩
  marked := by
    intro op id hterminal hlearned
    cases op with
    | markDone _ _ _ =>
        cases hterminal
        exact hlearned
    | markFailed _ _ _ =>
        cases hterminal
        exact hlearned
    | _ => cases hterminal

/-- What an operation of a run needs was learned from the load. -/
theorem submission_pre {ids : List String} {before after : Trace} {op : Operation} {ans : Result}
    {out : Settled} (hrun : BatchRun E ids (before ++ ⟨op, ans⟩ :: after) out)
    (hstored : ∀ id ∈ ids, w.Stored id)
    (hbefore : ∀ step ∈ before, submissionLearned step.1 step.2 w) : submissionPre op w := by
  rcases hrun.stored (learns_world w) hbefore with rfl | ⟨hload, hid⟩
  · exact hstored
  · cases op with
    | loadTasks ids' => exact absurd rfl (hload ids')
    | markDone id _ _ => exact hid id rfl
    | markFailed id _ _ => exact hid id rfl
    | _ => trivial

theorem submission_wp {ids : List String} (hstored : ∀ id ∈ ids, w.Stored id) :
    submissionSpec.wp (submission E ids)
      (fun out w' => out = .verdict .advance → ∀ id ∈ ids, w'.Finished id) w := by
  have hruns : submissionSpec.wp (submission E ids) (fun out w' => ∃ tr,
      Prog.Runs (submission E ids) tr out ∧ ∀ step ∈ tr, submissionLearned step.1 step.2 w') w := by
    apply OpSpec.wp_of_runs submissionLearned
    · exact fun op ans w w' hle h => h.mono hle
    · exact fun op w ans w' h => h
    · intro before op ans after out w' hle hrun hbefore
      exact submission_pre (submission_run E hrun) (fun id hid => (hstored id hid).mono hle) hbefore
  apply OpSpec.wp_mono hruns
  rintro out w' - ⟨tr, hrun, hlearned⟩ rfl
  exact (submission_run E hrun).finished (learns_world w') hlearned

theorem processBatch_wp {ids : List String} (hstored : ∀ id ∈ ids, w.Stored id) :
    commandSpec.wp (processBatch E ids) (fun advance w' => advance = true →
      ∀ id ∈ ids, w'.Finished id) w := by
  unfold processBatch
  split
  · next hempty =>
      intro _ id hid
      rw [List.isEmpty_iff.mp hempty] at hid
      cases hid
  · have hprogram : commandSpec.wp ((submission E ids).interp execute) _ w :=
      OpSpec.wp_interp (fun op w hpre => execute_wp op hpre) (submission_wp hstored)
    apply OpSpec.wp_bind hprogram
    intro out w' _ hout hadvance
    exact hout (by simpa using hadvance)

/-- One round of the worker commits an offset only when everything up to it has finished. -/
theorem workerRound_wp : commandSpec.wp (workerRound E) (fun _ _ => True) w := by
  have hpoll : commandSpec.wp (onQueue .poll)
      (fun reply w' => ∀ messages, reply = some messages → Polled w' messages) w :=
    wp_onQueue trivial fun _ _ _ hpost => hpost
  apply OpSpec.wp_bind hpoll
  intro reply w₁ _ hpolled
  cases reply with
  | none => trivial
  | some messages =>
      have hpolled := hpolled messages rfl
      simp only
      split
      · trivial
      · next highest last hlast =>
          have hcovered := hpolled.covered _ (List.mem_of_getLast? hlast)
          apply OpSpec.wp_bind (wp_onChain (Q := fun _ _ => True) fun _ _ _ => trivial)
          intro fee w₂ hle _
          split
          · trivial
          · have hstored : ∀ id ∈ messages.map (fun message => message.2.id), w₂.Stored id := by
              intro id hid
              obtain ⟨message, hmessage, rfl⟩ := List.mem_map.mp hid
              exact (hpolled.stored message hmessage).mono hle
            apply OpSpec.wp_bind (processBatch_wp hstored)
            intro advance w₃ hle₃ hadvance
            cases advance with
            | false => trivial
            | true =>
                have hdone : w₃.Covered highest [] :=
                  ((hcovered.mono hle).mono hle₃).finish (hadvance rfl)
                have hpre : commandPre (.queue (.storeOffset highest)) w₃ := hdone
                apply OpSpec.wp_bind (wp_onQueue (Q := fun _ _ => True) hpre fun _ _ _ _ => trivial)
                intro _ _ _ _
                trivial

end Worker

/-! ## Delivery -/

variable (K : P256Crate) (E : Contract.Evm)

/-- Requests are handled and worker rounds run side by side, any number of each; both may be cut off
at any command, which is also how a process crashes. A response is recorded when it is given. -/
def service : Machine Command Reply World (Option Response) where
  perform := Performs
  drift := Drifts
  starts p := (∃ client submitted, p = some <$> handle K E client submitted) ∨
    p = (fun _ => none) <$> workerRound E

theorem service_keeps :
    Pool.Keeps (service K E) commandSpec Intact
      (fun response w => ∀ r, response = some r → Kept r w) where
  perform hintact hpre hperforms := hintact.performs hpre hperforms
  drift hintact hdrift := hintact.drift hdrift
  starts := by
    rintro p (⟨client, submitted, rfl⟩ | rfl) w
    · apply OpSpec.wp_map
      apply OpSpec.wp_mono (handle_wp client submitted)
      rintro response w' - hkept r ⟨⟩
      exact hkept
    · apply OpSpec.wp_map
      apply OpSpec.wp_mono workerRound_wp
      rintro _ w' - - r hr
      cases hr
  stable := by
    intro response w w' hle h r hr outcome houtcome
    exact (h r hr outcome houtcome).mono hle

/-- No accepted write is lost. In every state the service reaches, a write that some request was
answered as queued, while not yet done or failed, has since been done or failed, or has an envelope
at an offset that is not committed. -/
theorem queued_finished_or_uncommitted (s : Pool Command Reply World (Option Response))
    (hreach : Pool.Reachable (service K E) World.initial s) (id : String) (status : TaskStatus)
    (hqueued : some (.settled (.queued id status)) ∈ s.results)
    (hpending : status.isTerminal = false) :
    s.world.Finished id ∨ ∃ offset envelope, s.world.queue.committed ≤ offset ∧
      s.world.queue.log[offset]? = some envelope ∧ envelope.id = id := by
  have hsafe := hreach.safe (service_keeps K E) Intact.initial
  obtain ⟨envelope, henvelope, rfl⟩ :=
    hsafe.results _ hqueued _ rfl _ rfl id status rfl hpending
  obtain ⟨offset, hoffset⟩ := List.mem_iff_getElem?.mp henvelope
  by_cases hcommitted : offset < s.world.queue.committed
  · exact Or.inl (hsafe.inv.settled offset hcommitted envelope hoffset)
  · exact Or.inr ⟨offset, envelope, Nat.le_of_not_lt hcommitted, hoffset, rfl⟩

/-- A chain that holds nothing and takes no transaction. -/
def bareChain : (c : ChainCommand) → c.Value
  | .isContentRegistered _ => some false
  | .isReferenced _ _ => some false
  | .unitByGroupKey _ => some none
  | .feePlan => some false
  | .submit _ => .noncePoolUnavailable

/-- Every command is performed and acknowledged. -/
def healthy : (c : Command) → World → Reply c × World
  | .store c, w => (some (c.exec w.store).1, w.withStore (c.exec w.store).2)
  | .queue c, w => (some (c.exec w.queue).1, w.withQueue (c.exec w.queue).2)
  | .chain c, w => (bareChain c, w)

theorem healthy_performs : ∀ c w, Performs c w (healthy c w).1 (healthy c w).2
  | .store c, w => .store c w
  | .queue c, w => .queue c w
  | .chain c, w => .chain c w (bareChain c)

open Registrar.Sample (crate submitted registerTask registerHash registerRequest validate_register)

/-- The group of the recorded history is admitted on an empty store. -/
theorem registerTask_queued :
    ((handle crate Contract.Sample.evm ⟨"", 1⟩ (submitted "task" (.register registerRequest))).eval
      healthy World.initial).1 = .settled (.queued "task" .pending) := by
  show ((driveAdmissionRequest crate Contract.Sample.evm ⟨"", 1⟩
    (submitted "task" (.register registerRequest))).eval healthy World.initial).1 = _
  rw [driveAdmissionRequest, Admission.admission_of_validate (validate_register "task")]
  decide +kernel

/-- A write that was answered as queued and is on its way. -/
theorem queued_finished_or_uncommitted_task :
    ∃ s, Pool.Reachable (service crate Contract.Sample.evm) World.initial s ∧
      some (.settled (.queued "task" .pending)) ∈ s.results ∧
      (s.world.Finished "task" ∨ ∃ offset envelope, s.world.queue.committed ≤ offset ∧
        s.world.queue.log[offset]? = some envelope ∧ envelope.id = "task") := by
  let request :=
    handle crate Contract.Sample.evm ⟨"", 1⟩ (submitted "task" (.register registerRequest))
  have hstarts : (service crate Contract.Sample.evm).starts (some <$> request) := .inl ⟨_, _, rfl⟩
  have hempty : Pool.Reachable (service crate Contract.Sample.evm) World.initial
      ⟨World.initial, [], []⟩ := .refl
  have hreach := Pool.reachable_eval healthy_performs hstarts hempty
  have hqueued : some (.settled (.queued "task" .pending)) ∈
      [((some <$> request).eval healthy World.initial).1] := by
    rw [Prog.eval_map, registerTask_queued]
    exact List.mem_cons_self
  exact ⟨_, hreach, hqueued,
    queued_finished_or_uncommitted crate Contract.Sample.evm _ hreach "task" .pending hqueued rfl⟩

end P256Index.Server
