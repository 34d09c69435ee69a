import P256Index.Interaction.Rounds
import P256Index.Server.Lifecycle

/-!
# What the worker's commands leave

Requests and one worker, command by command in any order; commands fail, processes are cut off, keys
expire, and the chain answers as it likes. `MovesOn` is what no step undoes: the log grows, the
committed offset does not go back, and a task that was stored never gets a retry back. `HandsOff` is
what the worker can rely on beside that: nobody else moves the offset or touches a pending record
but for its flag. So each of its store functions has one lemma, which says what it leaves if its
commands go well (`Clean`).
-/

namespace P256Index.Server

open Registrar

variable {w w' w₁ w₂ : World} {id : String} {strict : Prop}

/-- The command went well: the store and the queue acknowledged it, the market is not above the fee
cap, there was a nonce. -/
def Clean : (c : Command) → Reply c → Prop
  | .store _, reply => reply ≠ none
  | .queue _, reply => reply ≠ none
  | .chain .feePlan, reply => reply ≠ some true
  | .chain (.submit _), reply => reply ≠ .noncePoolUnavailable
  | .chain (.isContentRegistered _), _ => True
  | .chain (.isReferenced _ _), _ => True
  | .chain (.unitByGroupKey _), _ => True

/-! ## Steps -/

/-- What every step leaves. -/
structure MovesOn (w w' : World) : Prop where
  le : w ≤ w'
  left : ∀ id, w.Stored id → retriesLeft w'.store id ≤ retriesLeft w.store id
  committed : w.queue.committed ≤ w'.queue.committed

theorem MovesOn.refl (w : World) : MovesOn w w := ⟨le_rfl, fun _ _ => le_rfl, le_rfl⟩

theorem MovesOn.trans (h : MovesOn w w₁) (h' : MovesOn w₁ w₂) : MovesOn w w₂ where
  le := h.le.trans h'.le
  left id hstored := (h'.left id (hstored.mono h.le)).trans (h.left id hstored)
  committed := h.committed.trans h'.committed

/-- What the others leave of the worker's work. -/
structure HandsOff (w w' : World) : Prop where
  onward : MovesOn w w'
  kept : PendingKept w w'
  committed : w'.queue.committed = w.queue.committed

theorem HandsOff.refl (w : World) : HandsOff w w := ⟨.refl w, .refl w, rfl⟩

theorem HandsOff.trans (h : HandsOff w w₁) (h' : HandsOff w₁ w₂) : HandsOff w w₂ :=
  ⟨h.onward.trans h'.onward, h.kept.trans h'.kept, h'.committed.trans h.committed⟩

/-- The records are untouched. -/
theorem HandsOff.of_tasks (hle : w ≤ w') (htasks : w'.store.tasks = w.store.tasks)
    (hcommitted : w'.queue.committed = w.queue.committed) : HandsOff w w' := by
  refine ⟨⟨hle, fun id _ => ?_, hcommitted.ge⟩, .of_store htasks, hcommitted⟩
  have htask : w'.store.task id = w.store.task id := by rw [Store.task, htasks, Store.task]
  exact (retriesLeft_congr htask).le

/-- What the work on one task leaves of the others. -/
structure SparesOthers (id : String) (w w' : World) : Prop where
  onward : MovesOn w w'
  others : ∀ other task, other ≠ id → w.store.task other = some task →
    task.status.isTerminal = false → ∃ task', w'.store.task other = some task' ∧ FlagOnly task task'
  committed : w'.queue.committed = w.queue.committed

theorem HandsOff.spares (h : HandsOff w w') : SparesOthers id w w' :=
  ⟨h.onward, fun other task _ => h.kept other task, h.committed⟩

theorem SparesOthers.trans (h : SparesOthers id w w₁) (h' : SparesOthers id w₁ w₂) :
    SparesOthers id w w₂ where
  onward := h.onward.trans h'.onward
  others other task hne htask hpending := by
    obtain ⟨task₁, htask₁, hflag⟩ := h.others other task hne htask hpending
    obtain ⟨task₂, htask₂, hflag'⟩ := h'.others other task₁ hne htask₁ (hflag.pending hpending)
    refine ⟨task₂, htask₂, ?_⟩
    rw [FlagOnly, hflag', hflag]
  committed := h'.committed.trans h.committed

theorem stored_of_task {task : RegisterTask} (h : w.store.task id = some task) : w.Stored id :=
  ⟨w.store, List.mem_cons_self, task, h⟩

theorem stored_of_pending (h : w.store.Pending id) : w.Stored id := by
  obtain ⟨task, htask, -⟩ := h
  exact stored_of_task htask

/-- One record is written, with no retry more than the one before it had. -/
theorem SparesOthers.write {s : Store} {slot : Slot RegisterTask}
    (htasks : s.tasks = Function.update w.store.tasks id (some slot))
    (hleft : retriesLeft s id ≤ retriesLeft w.store id) : SparesOthers id w (w.withStore s) := by
  have htask := fun other => Store.task_of_update other htasks
  have hother : ∀ other, other ≠ id → s.task other = w.store.task other := by
    intro other hne
    rw [htask, if_neg hne]
  refine ⟨⟨w.le_withStore s, fun other _ => ?_, le_rfl⟩, fun other task hne hold _ => ?_, rfl⟩
  · by_cases hid : other = id
    · rw [hid]
      exact hleft
    · exact (retriesLeft_congr (hother other hid)).le
  · exact ⟨task, (hother other hne).trans hold, rfl⟩

/-! ## Requests -/

/-- The commands of a request: a task it admits has used up no retry, and the offset is not its
business. -/
def entryCommand (c : Command) : Prop :=
  requestCommand c ∧ (∀ task, c = .store (.admitTask task) → task.retries = 0) ∧
    ∀ offset, c ≠ .queue (.storeOffset offset)

theorem handle_entry {K : P256Crate} {E : Contract.Evm} (client : Client)
    (submitted : Admission.Submission) : (handle K E client submitted).Issues entryCommand := by
  refine handle_issues_of ?_ fun c => ⟨trivial, by simp, by simp⟩
  refine Prog.Issues.bind ?_ fun _ => trivial
  cases hvalid : Admission.validate K E submitted with
  | error e =>
      rw [Admission.admission, Admission.driveAdmission, hvalid]
      trivial
  | ok validated =>
      obtain ⟨task, text⟩ := validated
      refine Prog.issues_interp ?_ (admission_admits hvalid)
      intro op hop
      refine executeAdmission_issues_of client op fun c hc hoffset => ?_
      rcases hc.cases with ⟨admitted, rfl, rfl⟩ | ⟨hrequest, hother⟩
      · cases hop admitted rfl
        refine ⟨TaskStatus.isTerminal_eq_false.mpr (Admission.validate_fresh hvalid).1.pending, ?_,
          hoffset⟩
        intro admitted hadmitted
        cases hadmitted
        exact validate_retries hvalid
      · exact ⟨hrequest, fun admitted hadmitted => absurd hadmitted (hother admitted), hoffset⟩

/-- The records agree with their indexes, and a pending one has retries left. -/
structure Running (w : World) : Prop where
  orderly : Orderly w
  sound : Sound w.store

theorem Running.initial : Running World.initial where
  orderly := .initial
  sound := ⟨fun _ _ h => (by cases h), fun _ _ h => (by cases h)⟩

theorem Running.entry (h : Running w) {c : StoreCommand} (hc : entryCommand (.store c))
    (hfresh : FreshId (.store c) w) :
    Running (w.withStore (c.exec w.store).2) ∧ HandsOff w (w.withStore (c.exec w.store).2) := by
  obtain ⟨horderly, hkept⟩ := h.orderly.request_exec hc.1 hfresh
  have hsound := h.sound.request hc.1 fun task htask => hc.2.1 task (congrArg Command.store htask)
  refine ⟨⟨horderly, hsound⟩, ⟨w.le_withStore _, fun id hstored => ?_, le_rfl⟩, hkept, rfl⟩
  rcases request_task hc.1 w.store id with hsame | ⟨task, rfl, rfl, -⟩ | ⟨record, hrecord, hflagged⟩
  · exact (retriesLeft_congr hsame).le
  · exact absurd hstored hfresh
  · -- the flag says nothing about retries
    have heq : retriesLeft (c.exec w.store).2 id = retriesLeft w.store id := by
      simp only [retriesLeft, hflagged, hrecord]
    exact heq.le

theorem Store.Expires.task_cases {s s' : Store} (h : s.Expires s') (id : String) :
    s'.task id = s.task id ∨ s'.task id = none := by
  cases h with
  | @task gone _ _ =>
      by_cases hid : id = gone
      · exact .inr (by simp [Store.task, hid])
      · exact .inl (by simp [Store.task, Function.update_of_ne hid])
  | _ => exact .inl rfl

theorem Running.drift (h : Running w) (hdrift : Drifts w w') : Running w' ∧ HandsOff w w' := by
  obtain ⟨horderly, hkept⟩ := h.orderly.drift hdrift
  obtain ⟨hexpires⟩ := hdrift
  have hcases := hexpires.task_cases
  refine ⟨⟨horderly, fun id task htask => ?_, fun id task htask => ?_⟩,
    ⟨w.le_withStore _, fun id _ => ?_, le_rfl⟩, hkept, rfl⟩
  · rcases hcases id with hsame | hgone
    · exact h.sound.keyed id task (hsame.symm.trans htask)
    · cases hgone.symm.trans htask
  · rcases hcases id with hsame | hgone
    · exact h.sound.below id task (hsame.symm.trans htask)
    · cases hgone.symm.trans htask
  · rcases hcases id with hsame | hgone
    · exact (retriesLeft_congr hsame).le
    · show retriesLeft _ id ≤ _
      rw [retriesLeft, World.withStore, hgone]
      exact Nat.zero_le _

/-! ## The worker -/

/-- What the worker owes beside `workerPre`: a retry count does not go back, nor does the offset. -/
def drainPre (c : Command) (w : World) : Prop :=
  workerPre c w ∧
    match c with
    | .store (.setTask task) => task.retries < maxRetries ∧
        ∀ old, w.store.task task.id = some old → old.retries ≤ task.retries
    | .queue (.storeOffset offset) => w.queue.committed ≤ offset + 1
    | _ => True

/-- The record as it is stored. -/
structure Seen (id : String) (w : World) (found : Option RegisterTask) : Prop where
  found_eq : found = w.store.task id
  keyed : ∀ task, found = some task → task.id = id
  below : ∀ task, found = some task → task.status = .pending → task.retries < maxRetries

/-- The record was written, and no other one. -/
def Rewritten (task : RegisterTask) (w : World) {α : Type} (reply : Option α) (w' : World) : Prop :=
  SparesOthers task.id w w' ∧ (reply ≠ none → w'.store.task task.id = some task)

def drainLearns : (c : Command) → World → Reply c → World → Prop
  | .store (.getTask id) => fun w reply w' => HandsOff w w' ∧ w'.store.tasks = w.store.tasks ∧
      ∀ found, reply = some found → Seen id w found
  | .store (.setTask task) => fun w reply w' => Rewritten task w reply w'
  | .store (.transitionDone task) => fun w reply w' => Rewritten task w reply w'
  | .store (.transitionFailed task) => fun w reply w' => Rewritten task w reply w'
  | .queue .poll =>
      fun w reply w' => w' = w ∧ ∀ messages, reply = some messages → messages = w.queue.next
  | .queue (.storeOffset offset) => fun w reply w' => w'.store = w.store ∧
      (reply ≠ none → w'.queue.committed = offset + 1)
  | .chain _ => fun w _ w' => w' = w
  | _ => fun _ _ _ => True

def drainPost (c : Command) (w : World) (reply : Reply c) (w' : World) : Prop :=
  MovesOn w w' ∧ drainLearns c w reply w'

/-- The worker's commands; where `strict` holds, they go well. -/
def drainSpec (strict : Prop) : RelySpec Command Reply World where
  rely := HandsOff
  refl := HandsOff.refl
  trans := HandsOff.trans
  pre := drainPre
  post c w reply w' := (strict → Clean c reply) ∧ drainPost c w reply w'

theorem retriesLeft_of_terminal {s : Store} {task : RegisterTask} (h : s.task id = some task)
    (hterminal : task.status.isTerminal = true) : retriesLeft s id = 0 :=
  retriesLeft_eq_zero ⟨task, h, hterminal⟩

theorem retriesLeft_of_pending {s : Store} {task : RegisterTask} (h : s.task id = some task)
    (hpending : task.status.isTerminal = false) : retriesLeft s id = maxRetries - task.retries := by
  simp [retriesLeft, h, hpending]

/-- A record is written, over one that had as many retries left. -/
theorem Running.write (h : Running w) {s : Store} {task : RegisterTask} {expires : Bool} {α : Type}
    (reply : Option α) (horderly : Orderly (w.withStore s))
    (htasks : s.tasks = Function.update w.store.tasks task.id (some ⟨task, expires⟩))
    (hbelow : task.status = .pending → task.retries < maxRetries)
    (hleft : retriesLeft s task.id ≤ retriesLeft w.store task.id) :
    Running (w.withStore s) ∧ MovesOn w (w.withStore s) ∧
      Rewritten task w reply (w.withStore s) := by
  have htask := fun id => Store.task_of_update id htasks
  have hspared := SparesOthers.write htasks hleft
  refine ⟨⟨horderly, h.sound.write task htask hbelow⟩, hspared.onward, hspared, fun _ => ?_⟩
  have hself := htask task.id
  rwa [if_pos rfl] at hself

/-- A store command of the worker is performed, acknowledged or not. -/
theorem Running.exec (h : Running w) {c : StoreCommand} (hpre : drainPre (.store c) w)
    {reply : StoreReply c} (hreply : ∀ value, reply = some value → value = (c.exec w.store).1) :
    Running (w.withStore (c.exec w.store).2) ∧
      drainPost (.store c) w reply (w.withStore (c.exec w.store).2) := by
  have horderly := h.orderly.worker_exec hpre.1
  have hquiet : Quiet c → Running (w.withStore (c.exec w.store).2) ∧
      HandsOff w (w.withStore (c.exec w.store).2) ∧ (c.exec w.store).2.tasks = w.store.tasks := by
    intro hc
    have htasks := (quiet_exec hc w.store).1
    have htask : ∀ id, (c.exec w.store).2.task id = w.store.task id := by
      intro id
      rw [Store.task, htasks, Store.task]
    refine ⟨⟨horderly, fun id task hid => ?_, fun id task hid => ?_⟩,
      .of_tasks (w.le_withStore _) htasks rfl, htasks⟩
    · exact h.sound.keyed id task ((htask id).symm.trans hid)
    · exact h.sound.below id task ((htask id).symm.trans hid)
  cases c with
  | admitTask _ => cases hpre.1
  | swapTask _ _ _ => cases hpre.1
  | setTask task =>
      obtain ⟨⟨hpending, old, hold, hwas, -⟩, hbelow, hretries⟩ := hpre
      refine h.write reply horderly rfl (fun _ => hbelow) ?_
      have hnew : ((StoreCommand.setTask task).exec w.store).2.task task.id = some task := by
        simp [StoreCommand.exec, Store.task]
      have hle := hretries old hold
      rw [retriesLeft_of_pending hold hwas]
      rw [retriesLeft_of_pending hnew hpending]
      omega
  | transitionDone task =>
      obtain ⟨⟨hdone, -⟩, -⟩ := hpre
      refine h.write reply horderly rfl (by simp [hdone]) ?_
      have hzero : retriesLeft (w.store.transitionDone task) task.id = 0 :=
        retriesLeft_of_terminal (Store.task_transitionDone_self w.store task) (by rw [hdone]; rfl)
      exact hzero.le.trans (Nat.zero_le _)
  | transitionFailed task =>
      obtain ⟨⟨hfailed, -⟩, -⟩ := hpre
      refine h.write reply horderly rfl (by simp [hfailed]) ?_
      have hzero : retriesLeft (w.store.transitionFailed task) task.id = 0 :=
        retriesLeft_of_terminal (Store.task_transitionFailed_self w.store task)
          (by rw [hfailed]; rfl)
      exact hzero.le.trans (Nat.zero_le _)
  | getTask id =>
      obtain ⟨hrunning, hoff, htasks⟩ := hquiet trivial
      refine ⟨hrunning, hoff.onward, hoff, htasks, fun found hfound => ?_⟩
      have hstored : found = w.store.task id := hreply found hfound
      refine ⟨hstored, fun task htask => ?_, fun task htask => ?_⟩
      · exact h.sound.keyed id task (hstored.symm.trans htask)
      · exact h.sound.below id task (hstored.symm.trans htask)
  | _ =>
      obtain ⟨hrunning, hoff, -⟩ := hquiet trivial
      exact ⟨hrunning, hoff.onward, trivial⟩

/-- A command that fails leaves the world as it was. -/
theorem drainPost_none (c : StoreCommand) (w : World) : drainPost (.store c) w none w := by
  have hwritten : ∀ (task : RegisterTask) {α : Type}, Rewritten task w (none : Option α) w :=
    fun task α => ⟨(HandsOff.refl w).spares, fun h => absurd rfl h⟩
  refine ⟨.refl w, ?_⟩
  cases c with
  | getTask id => exact ⟨.refl w, rfl, fun found hfound => by cases hfound⟩
  | setTask task => exact hwritten task
  | transitionDone task => exact hwritten task
  | transitionFailed task => exact hwritten task
  | _ => trivial

/-- A queue command of the worker. -/
theorem drainPost_queue {c : QueueCommand} (hpre : drainPre (.queue c) w) {reply : Option c.Value}
    (hreply : ∀ value, reply = some value → value = (c.exec w.queue).1) :
    drainPost (.queue c) w reply (w.withQueue (c.exec w.queue).2) := by
  cases c with
  | append task =>
      exact ⟨⟨⟨List.suffix_refl _, List.prefix_append _ _⟩, fun _ _ => le_rfl, le_rfl⟩, trivial⟩
  | poll => exact ⟨.refl w, rfl, hreply⟩
  | storeOffset offset =>
      exact ⟨⟨⟨List.suffix_refl _, List.prefix_refl _⟩, fun _ _ => le_rfl, hpre.2⟩,
        rfl, fun _ => rfl⟩
  | _ => exact ⟨.refl w, trivial⟩

theorem drainPost_queue_none (c : QueueCommand) (w : World) : drainPost (.queue c) w none w := by
  refine ⟨.refl w, ?_⟩
  cases c with
  | poll => exact ⟨rfl, fun _ h => by cases h⟩
  | storeOffset offset => exact ⟨rfl, fun h => absurd rfl h⟩
  | _ => trivial

theorem Running.withQueue (h : Running w) (q : Queue) : Running (w.withQueue q) :=
  ⟨⟨h.orderly.tidy, h.orderly.final⟩, h.sound⟩

/-- One command of the worker, however it goes. -/
theorem Running.performs (h : Running w) {c : Command} {reply : Reply c} (hpre : drainPre c w)
    (hperforms : Performs c w reply w') : Running w' ∧ drainPost c w reply w' := by
  cases hperforms with
  | store c => exact h.exec hpre fun value hvalue => (Option.some.inj hvalue).symm
  | storeFailed c => exact ⟨h, drainPost_none c w⟩
  | storeAckLost c => exact h.exec hpre fun value hvalue => by cases hvalue
  | queue c =>
      exact ⟨h.withQueue _, drainPost_queue hpre fun value hvalue => (Option.some.inj hvalue).symm⟩
  | queueFailed c => exact ⟨h, drainPost_queue_none c w⟩
  | queueAckLost c =>
      exact ⟨h.withQueue _, drainPost_queue hpre fun value hvalue => by cases hvalue⟩
  | chain c => exact ⟨h, .refl w, rfl⟩

/-! ## The worker's store functions -/

def drainStore (strict : Prop) : RelySpec StoreCommand StoreReply World where
  rely := HandsOff
  refl := HandsOff.refl
  trans := HandsOff.trans
  pre c := drainPre (.store c)
  post c w reply w' := (strict → Clean (.store c) reply) ∧ drainPost (.store c) w reply w'

variable {α β : Type}

theorem drainSpec_onStore {x : StoreFlow α} {Q : Except Unit α → World → Prop}
    (h : (drainStore strict).Ends x w Q) : (drainSpec strict).wp (onStore x) Q w := by
  refine RelySpec.wp_interp ?_ h
  intro c w hpre w₁ hw₁
  exact ⟨hpre w₁ hw₁, fun reply w₂ hpost => ⟨w₁, hw₁, hpost⟩⟩

/-- An answer of the store: one that fails to come is not strict. -/
def Acked (strict : Prop) (Q : α → World → Prop) : Except Unit α → World → Prop
  | .ok a, w => Q a w
  | .error _, _ => ¬ strict

theorem query_ends {c : StoreCommand} {Q : c.Value → World → Prop}
    (h : ∀ w₁, HandsOff w w₁ → drainPre (.store c) w₁ ∧
      ∀ value w₂, drainPost (.store c) w₁ (some value) w₂ → Q value w₂) :
    (drainStore strict).Ends (query c) w (Acked strict Q) := by
  refine RelySpec.ends_request_bind fun w₁ hw₁ => ⟨(h w₁ hw₁).1, fun reply w₂ hpost => ?_⟩
  cases reply with
  | none => exact RelySpec.ends_throw fun hstrict => hpost.1 hstrict rfl
  | some value => exact RelySpec.ends_pure ((h w₁ hw₁).2 value w₂ hpost.2)

/-- After an answer the function goes on. -/
theorem acked_bind {x : StoreFlow α} {f : α → StoreFlow β} {Q : α → World → Prop}
    {R : β → World → Prop} (hx : (drainStore strict).Ends x w (Acked strict Q))
    (hf : ∀ a w', Q a w' → (drainStore strict).Ends (f a) w' (Acked strict R)) :
    (drainStore strict).Ends (x >>= f) w (Acked strict R) :=
  hx.bind (fun _ _ hnot => hnot) hf

theorem acked_mono {x : StoreFlow α} {Q R : α → World → Prop}
    (hx : (drainStore strict).Ends x w (Acked strict Q)) (hQ : ∀ a w', Q a w' → R a w') :
    (drainStore strict).Ends x w (Acked strict R) := by
  refine hx.mono ?_
  rintro (e | a) w' h
  · exact h
  · exact hQ a w' h

theorem getTask_ends (id : String) : (drainStore strict).Ends (getTask id) w
    (Acked strict fun found w' => HandsOff w w' ∧ Seen id w' found) := by
  refine query_ends fun w₁ hw₁ => ⟨⟨trivial, trivial⟩, fun found w₂ hpost => ?_⟩
  obtain ⟨-, hoff, htasks, hfound⟩ := hpost
  obtain ⟨hstored, hkeyed, hbelow⟩ := hfound found rfl
  refine ⟨hw₁.trans hoff, ?_, hkeyed, hbelow⟩
  rw [hstored, Store.task, Store.task, htasks]

/-- A record is written over the pending one it was made from. -/
theorem write_ends {c : StoreCommand} (task : RegisterTask)
    (hpre : ∀ w₁, HandsOff w w₁ → drainPre (.store c) w₁)
    (hpost : ∀ {w₁ value w₂}, drainPost (.store c) w₁ (some value) w₂ →
      Rewritten task w₁ (some value) w₂) :
    (drainStore strict).Ends (do let _ ← query c; pure (some task)) w
      (Acked strict fun _ w' => SparesOthers task.id w w' ∧ w'.store.task task.id = some task) := by
  refine acked_bind (Q := fun _ w' =>
    SparesOthers task.id w w' ∧ w'.store.task task.id = some task) ?_
    fun _ _ h => RelySpec.ends_pure h
  refine query_ends fun w₁ hw₁ => ⟨hpre w₁ hw₁, fun value w₂ hvalue => ?_⟩
  obtain ⟨hspares, hwritten⟩ := hpost hvalue
  exact ⟨hw₁.spares.trans hspares, hwritten (by simp)⟩

/-- A pending record is there when it is looked for. -/
theorem getPending_ends (hp : w.store.Pending id) : (drainStore strict).Ends (getTask id) w
    (Acked strict fun found w' => HandsOff w w' ∧ ∃ task, found = some task ∧ task.id = id ∧
      w'.store.task id = some task ∧ task.status.isTerminal = false ∧
        task.retries < maxRetries) := by
  refine acked_mono (getTask_ends id) ?_
  rintro found w' ⟨hoff, hseen⟩
  obtain ⟨task, htask, hpending⟩ := hoff.kept.pending hp
  have hfound : found = some task := hseen.found_eq.trans htask
  exact ⟨hoff, task, hfound, hseen.keyed task hfound, htask, hpending,
    hseen.below task hfound (TaskStatus.isTerminal_eq_false.mp hpending)⟩

/-- A mark ends the task. -/
def EndsTask (id : String) (w w' : World) : Prop :=
  SparesOthers id w w' ∧ retriesLeft w'.store id = 0

/-- The last record of a task is written. -/
theorem lastRecord_ends {c : StoreCommand} (record : RegisterTask) (hoff : HandsOff w w₁)
    (hterminal : record.status.isTerminal = true)
    (hpre : ∀ w₂, HandsOff w w₂ → drainPre (.store c) w₂)
    (hpost : ∀ {w₂ value w₃}, drainPost (.store c) w₂ (some value) w₃ →
      Rewritten record w₂ (some value) w₃) :
    (drainStore strict).Ends (do let _ ← query c; pure (some record)) w₁
      (Acked strict fun _ w' => EndsTask record.id w w') := by
  refine acked_mono (write_ends record (fun w₂ hw₂ => hpre w₂ (hoff.trans hw₂)) hpost) ?_
  rintro _ w' ⟨hspares, hwritten⟩
  exact ⟨hoff.spares.trans hspares, retriesLeft_of_terminal hwritten hterminal⟩

theorem markDone_ends (hp : w.store.Pending id) (txHash : Option String)
    (onChainId : Option UInt64) :
    (drainStore strict).Ends (markDone id txHash onChainId) w
      (Acked strict fun _ w' => EndsTask id w w') := by
  refine acked_bind (getPending_ends hp) ?_
  rintro _ w₁ ⟨hoff, task, rfl, rfl, -⟩
  refine lastRecord_ends (doneRecord task txHash onChainId) hoff rfl (fun w₂ hw₂ => ?_) fun h => h.2
  exact ⟨⟨rfl, hw₂.kept.pending hp⟩, trivial⟩

theorem markFailed_ends (hp : w.store.Pending id) (failureClass message : String) :
    (drainStore strict).Ends (markFailed id failureClass message) w
      (Acked strict fun _ w' => EndsTask id w w') := by
  refine acked_bind (getPending_ends hp) ?_
  rintro _ w₁ ⟨hoff, task, rfl, rfl, -⟩
  refine lastRecord_ends (failedRecord task failureClass message) hoff rfl
    (fun w₂ hw₂ => ?_) fun h => h.2
  exact ⟨⟨rfl, hw₂.kept.pending hp⟩, trivial⟩

/-- The task has fewer retries left. -/
def LowersTask (id : String) (w w' : World) : Prop :=
  SparesOthers id w w' ∧ retriesLeft w'.store id < retriesLeft w.store id

theorem recordTransientFailure_ends (hp : w.store.Pending id) (message : String) :
    (drainStore strict).Ends (recordTransientFailure id message) w
      (Acked strict fun _ w' => LowersTask id w w') := by
  refine acked_bind (getPending_ends hp) ?_
  rintro _ w₁ ⟨hoff, task, rfl, rfl, hread, hpending, hbelow⟩
  have hmax : maxRetries = 10 := rfl
  have hbefore : maxRetries - task.retries ≤ retriesLeft w.store task.id := by
    rw [← retriesLeft_of_pending hread hpending]
    exact hoff.onward.left _ (stored_of_pending hp)
  have hretries : (retriedRecord task message).retries = task.retries + 1 :=
    min_eq_left (by omega)
  simp only [hpending, Bool.false_eq_true, if_false]
  split
  · refine acked_mono (lastRecord_ends (exhaustedRecord (retriedRecord task message)) hoff rfl
      (fun w₂ hw₂ => ⟨⟨rfl, hw₂.kept.pending hp⟩, trivial⟩) fun h => h.2) ?_
    rintro _ w' ⟨hspares, hzero⟩
    refine ⟨hspares, ?_⟩
    have hended : retriesLeft w'.store task.id = 0 := hzero
    omega
  · next hlt =>
      refine acked_mono (write_ends (retriedRecord task message) (fun w₂ hw₂ => ?_) fun h => h.2) ?_
      · -- what was read is what is stored, up to a flag set meanwhile
        obtain ⟨old, hold, hflag⟩ := hw₂.kept task.id task hread hpending
        refine ⟨⟨hpending, old, hold, hflag.pending hpending, ?_⟩, by omega, fun old' hold' => ?_⟩
        · rw [hflag]
          rfl
        · cases hold.symm.trans hold'
          rw [hretries, hflag]
          exact Nat.le_succ _
      · rintro _ w' ⟨hspares, hwritten⟩
        refine ⟨hoff.spares.trans hspares, ?_⟩
        have hnow : retriesLeft w'.store task.id =
            maxRetries - (retriedRecord task message).retries :=
          retriesLeft_of_pending hwritten hpending
        omega

/-- The task's record is pending, with a retry left. -/
def Live (id : String) (w : World) : Prop :=
  ∃ task, w.store.task id = some task ∧ task.status.isTerminal = false ∧ task.retries < maxRetries

theorem Live.pending (h : Live id w) : w.store.Pending id := by
  obtain ⟨task, htask, hpending, -⟩ := h
  exact ⟨task, htask, hpending⟩

theorem Live.left_pos (h : Live id w) : 0 < retriesLeft w.store id := by
  obtain ⟨task, htask, hpending, hbelow⟩ := h
  rw [retriesLeft_of_pending htask hpending]
  omega

/-- A flag set meanwhile leaves the task live. -/
theorem Live.flagged (hlive : Live id w)
    (h : ∀ task, w.store.task id = some task → task.status.isTerminal = false →
      ∃ task', w'.store.task id = some task' ∧ FlagOnly task task') : Live id w' := by
  obtain ⟨task, htask, hpending, hbelow⟩ := hlive
  obtain ⟨task', htask', hflag⟩ := h task htask hpending
  refine ⟨task', htask', hflag.pending hpending, ?_⟩
  rw [hflag]
  exact hbelow

theorem SparesOthers.live {other : String} (h : SparesOthers id w w') (hne : other ≠ id)
    (hlive : Live other w) : Live other w' :=
  hlive.flagged fun task => h.others other task hne

theorem HandsOff.live (h : HandsOff w w') (hlive : Live id w) : Live id w' :=
  hlive.flagged (h.kept id)

/-- What a load knows of an id that was stored at `w₀`. -/
structure Fetched (w₀ w : World) (id : String) (found : Option RegisterTask) : Prop where
  keyed : ∀ task, found = some task → task.id = id
  live : ∀ task, found = some task → task.status.isTerminal = false → Live id w
  ended : w₀.Stored id → (∀ task, found = some task → task.status.isTerminal = true) →
    retriesLeft w.store id = 0

theorem Fetched.later {found : Option RegisterTask} (h : Fetched w w₁ id found) (hle : w ≤ w₁)
    (hoff : HandsOff w₁ w₂) : Fetched w w₂ id found where
  keyed := h.keyed
  live task htask hpending := hoff.live (h.live task htask hpending)
  ended hstored hterminal := by
    have hleft := hoff.onward.left id (hstored.mono hle)
    rw [h.ended hstored hterminal] at hleft
    exact Nat.le_zero.mp hleft

theorem Seen.fetched {found : Option RegisterTask} (h : Seen id w₁ found) :
    Fetched w w₁ id found where
  keyed := h.keyed
  live task htask hpending := ⟨task, h.found_eq.symm.trans htask, hpending,
    h.below task htask (TaskStatus.isTerminal_eq_false.mp hpending)⟩
  ended _ hterminal := by
    cases hfound : found with
    | none => rw [retriesLeft, ← h.found_eq, hfound]
    | some task =>
        exact retriesLeft_of_terminal (h.found_eq.symm.trans hfound) (hterminal task hfound)

theorem loadEach_ends (ids : List String) : (drainStore strict).Ends (loadEach ids) w
    (Acked strict fun loaded w' => HandsOff w w' ∧ List.Forall₂ (Fetched w w') ids loaded) := by
  have hload : ∀ w₁, HandsOff w w₁ → (drainStore strict).Ends (loadEach ids) w₁
      (Acked strict fun loaded w' => HandsOff w₁ w' ∧ List.Forall₂ (Fetched w w') ids loaded) := by
    induction ids with
    | nil => exact fun w₁ _ => RelySpec.ends_pure ⟨.refl w₁, .nil⟩
    | cons id ids ih =>
        intro w₁ hw₁
        refine acked_bind (getTask_ends id) ?_
        rintro found w₂ ⟨hoff, hseen⟩
        refine acked_bind (ih w₂ (hw₁.trans hoff)) ?_
        rintro loaded w₃ ⟨hoff₃, hloaded⟩
        refine RelySpec.ends_pure ⟨hoff.trans hoff₃, .cons ?_ hloaded⟩
        exact hseen.fetched.later (hw₁.trans hoff).onward.le hoff₃
  exact hload w (.refl w)

end P256Index.Server
