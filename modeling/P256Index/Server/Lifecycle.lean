import P256Index.Registrar.Conduct
import P256Index.Server.Delivery
import P256Index.Server.Requests
import P256Index.Server.Tidy

/-!
# Records only move forward

Any number of requests are admitted while one worker runs its rounds, command by command. A request
writes a record in two ways only, under a fresh id and by setting the flag of a pending record; so
what the worker loaded as pending is still pending when it comes to mark it, and a mark never meets
a terminal record. With `Store.Tidy` this gives the life of a task: pending, then done or failed for
good, with every index following.
-/

namespace P256Index.Server

open Registrar

variable {w w' : World}

/-! ## What the worker may rely on -/

/-- The same record but for the flag. -/
def FlagOnly (task task' : RegisterTask) : Prop := task' = { task with admitted := task'.admitted }

/-- Pending records stay as they are but for the flag. -/
def PendingKept (w w' : World) : Prop :=
  ∀ id task, w.store.task id = some task → task.status.isTerminal = false →
    ∃ task', w'.store.task id = some task' ∧ FlagOnly task task'

theorem FlagOnly.pending {task task' : RegisterTask} (h : FlagOnly task task')
    (hpending : task.status.isTerminal = false) : task'.status.isTerminal = false := by
  rw [h]
  exact hpending

theorem PendingKept.refl (w : World) : PendingKept w w := fun _ task htask _ => ⟨task, htask, rfl⟩

theorem PendingKept.trans {w₀ w₁ w₂ : World} (h : PendingKept w₀ w₁) (h' : PendingKept w₁ w₂) :
    PendingKept w₀ w₂ := by
  intro id task htask hpending
  obtain ⟨task', htask', hflag⟩ := h id task htask hpending
  obtain ⟨task'', htask'', hflag'⟩ := h' id task' htask' (hflag.pending hpending)
  refine ⟨task'', htask'', ?_⟩
  rw [FlagOnly, hflag', hflag]

theorem PendingKept.pending {id : String} (h : PendingKept w w') (hp : w.store.Pending id) :
    w'.store.Pending id := by
  obtain ⟨task, htask, hpending⟩ := hp
  obtain ⟨task', htask', hflag⟩ := h id task htask hpending
  exact ⟨task', htask', hflag.pending hpending⟩

theorem PendingKept.of_store (h : w'.store.tasks = w.store.tasks) : PendingKept w w' := by
  intro id task htask _
  exact ⟨task, by rw [Store.task, h]; exact htask, rfl⟩

/-- A record is written back only over the pending record it was made from. -/
def workerPre : Command → World → Prop
  | .store (.setTask task), w => task.status.isTerminal = false ∧
      ∃ old, w.store.task task.id = some old ∧ old.status.isTerminal = false ∧
        task.contentHash = old.contentHash
  | .store (.transitionDone task), w => task.status = .done ∧ w.store.Pending task.id
  | .store (.transitionFailed task), w => task.status = .failed ∧ w.store.Pending task.id
  | .store (.admitTask _), _ => False
  | .store (.swapTask _ _ _), _ => False
  | _, _ => True

/-- All other pending tasks are left pending. -/
def OthersPending (id : String) (w w' : World) : Prop :=
  ∀ other, other ≠ id → w.store.Pending other → w'.store.Pending other

def workerPost : (c : Command) → World → Reply c → World → Prop
  | .store (.getTask id) => fun w reply w' => w'.store.tasks = w.store.tasks ∧
      ∀ found, reply = some found →
        found = w.store.task id ∧ ∀ task, found = some task → task.id = id
  | .store (.setTask task) => fun w _ w' => OthersPending task.id w w'
  | .store (.transitionDone task) => fun w _ w' => OthersPending task.id w w'
  | .store (.transitionFailed task) => fun w _ w' => OthersPending task.id w w'
  | _ => fun w _ w' => w'.store.tasks = w.store.tasks

def workerSpec : RelySpec Command Reply World where
  rely := PendingKept
  refl := PendingKept.refl
  trans := PendingKept.trans
  pre := workerPre
  post := workerPost

/-! ## The worker's store functions -/

def workerStore : RelySpec StoreCommand StoreReply World where
  rely := PendingKept
  refl := PendingKept.refl
  trans := PendingKept.trans
  pre c := workerPre (.store c)
  post c := workerPost (.store c)

variable {α : Type} {id : String}

theorem workerSpec_onStore {x : StoreFlow α} {Q : α → World → Prop}
    (h : workerStore.Through x w Q) :
    workerSpec.wp (onStore x) (fun r w' => ∀ a, r = .ok a → Q a w') w := by
  refine RelySpec.wp_interp ?_ h
  intro c w hpre w₁ hw₁
  exact ⟨hpre w₁ hw₁, fun reply w₂ hpost => ⟨w₁, hw₁, hpost⟩⟩

theorem query_through {c : StoreCommand} {Q : c.Value → World → Prop}
    (h : ∀ w₁, PendingKept w w₁ → workerPre (.store c) w₁ ∧
      ∀ value w₂, workerPost (.store c) w₁ (some value) w₂ → Q value w₂) :
    workerStore.Through (query c) w Q := by
  refine RelySpec.through_request_bind fun w₁ hw₁ => ⟨(h w₁ hw₁).1, fun reply w₂ hpost => ?_⟩
  cases reply with
  | none => exact RelySpec.through_throw
  | some value => exact RelySpec.through_pure ((h w₁ hw₁).2 value w₂ hpost)

/-- A record as it was read: it is the stored one, under its own id. -/
structure ReadNow (id : String) (w w' : World) (found : Option RegisterTask) : Prop where
  kept : PendingKept w w'
  found_eq : found = w'.store.task id
  keyed : ∀ task, found = some task → task.id = id

theorem getTask_through (id : String) : workerStore.Through (getTask id) w (fun found w' =>
    ReadNow id w w' found) := by
  refine query_through fun w₁ hw₁ => ⟨trivial, fun found w₂ hpost => ?_⟩
  obtain ⟨hstore, hfound⟩ := hpost
  obtain ⟨rfl, hkeyed⟩ := hfound found rfl
  have htask : w₂.store.task id = w₁.store.task id := by rw [Store.task, hstore, Store.task]
  exact ⟨hw₁.trans (.of_store hstore), htask.symm, hkeyed⟩

/-- The last step of a mark: a record is written over the pending one it was made from. -/
theorem write_through {c : StoreCommand} {task : RegisterTask} {w₁ : World}
    (hkept : PendingKept w w₁) (hpre : ∀ w₂, PendingKept w₁ w₂ → workerPre (.store c) w₂)
    (hpost : ∀ w₂ value w₃, workerPost (.store c) w₂ (some value) w₃ → OthersPending id w₂ w₃) :
    workerStore.Through (do let _ ← query c; pure (some task)) w₁ fun _ w' =>
      OthersPending id w w' := by
  have hquery : workerStore.Through (query c) w₁ fun _ w' => OthersPending id w w' := by
    refine query_through fun w₂ hw₂ => ⟨hpre w₂ hw₂, fun value w₃ hvalue => ?_⟩
    intro other hne hpending
    exact hpost w₂ value w₃ hvalue other hne (hw₂.pending (hkept.pending hpending))
  exact hquery.bind fun _ _ hothers => RelySpec.through_pure hothers

theorem PendingKept.others (h : PendingKept w w') : OthersPending id w w' :=
  fun _ _ hp => h.pending hp

theorem markDone_through (hp : w.store.Pending id) (txHash : Option String)
    (onChainId : Option UInt64) :
    workerStore.Through (markDone id txHash onChainId) w fun _ w' => OthersPending id w w' := by
  apply (getTask_through id).bind
  intro found w₁ hread
  cases found with
  | none => exact RelySpec.through_pure hread.kept.others
  | some task =>
      obtain rfl := hread.keyed task rfl
      refine write_through hread.kept (fun w₂ hw₂ => ?_) (fun _ _ _ hpost => hpost)
      exact ⟨rfl, hw₂.pending (hread.kept.pending hp)⟩

theorem markFailed_through (hp : w.store.Pending id) (failureClass message : String) :
    workerStore.Through (markFailed id failureClass message) w fun _ w' =>
      OthersPending id w w' := by
  apply (getTask_through id).bind
  intro found w₁ hread
  cases found with
  | none => exact RelySpec.through_pure hread.kept.others
  | some task =>
      obtain rfl := hread.keyed task rfl
      refine write_through hread.kept (fun w₂ hw₂ => ?_) (fun _ _ _ hpost => hpost)
      exact ⟨rfl, hw₂.pending (hread.kept.pending hp)⟩

theorem recordTransientFailure_through (hp : w.store.Pending id) (message : String) :
    workerStore.Through (recordTransientFailure id message) w fun _ w' =>
      OthersPending id w w' := by
  apply (getTask_through id).bind
  intro found w₁ hread
  cases found with
  | none => exact RelySpec.through_pure hread.kept.others
  | some task =>
      obtain rfl := hread.keyed task rfl
      by_cases hterminal : task.status.isTerminal = true
      · simp only [hterminal, if_true]
        exact RelySpec.through_pure hread.kept.others
      · have hpending : task.status.isTerminal = false := by simpa using hterminal
        simp only [hpending, Bool.false_eq_true, if_false]
        split
        · refine write_through hread.kept (fun w₂ hw₂ => ?_) (fun _ _ _ hpost => hpost)
          exact ⟨rfl, hw₂.pending (hread.kept.pending hp)⟩
        · refine write_through hread.kept (fun w₂ hw₂ => ?_) (fun _ _ _ hpost => hpost)
          -- what was read is what is stored, up to a flag set meanwhile
          obtain ⟨old, hold, hflag⟩ := hw₂ task.id task hread.found_eq.symm hpending
          refine ⟨hpending, old, hold, hflag.pending hpending, ?_⟩
          rw [hflag]
          rfl

/-- What a load hands out as pending is pending. -/
def LoadedPending (loaded : List (Option RegisterTask)) (w : World) : Prop :=
  ∀ task, some task ∈ loaded → task.status.isTerminal = false → w.store.Pending task.id

theorem loadEach_through (ids : List String) :
    workerStore.Through (loadEach ids) w fun loaded w' =>
      PendingKept w w' ∧ LoadedPending loaded w' := by
  induction ids generalizing w with
  | nil => exact RelySpec.through_pure ⟨.refl w, by simp [LoadedPending]⟩
  | cons id ids ih =>
      apply (getTask_through id).bind
      intro found w₁ hread
      apply ih.bind
      intro loaded w₂ ⟨hkept, hloaded⟩
      refine RelySpec.through_pure ⟨hread.kept.trans hkept, ?_⟩
      intro task htask hpending
      rcases List.mem_cons.mp htask with hfirst | hrest
      · have hstored := hread.found_eq
        rw [← hfirst] at hstored
        rw [hread.keyed task hfirst.symm]
        exact hkept.pending ⟨task, hstored.symm, hpending⟩
      · exact hloaded task hrest hpending

/-! ## The worker's operations -/

section Worker

open Submission

def batchPre : Operation → World → Prop
  | .markDone id _ _, w => w.store.Pending id
  | .markFailed id _ _, w => w.store.Pending id
  | .recordTransientFailure id _, w => w.store.Pending id
  | _, _ => True

def batchPost : Operation → World → Result → World → Prop
  | .loadTasks _, _, .tasksLoaded loaded, w' => LoadedPending loaded w'
  | .markDone id _ _, w, .persisted, w' => OthersPending id w w'
  | .markFailed id _ _, w, .persisted, w' => OthersPending id w w'
  | .recordTransientFailure id _, w, .persisted, w' => OthersPending id w w'
  | .checkContentRegistered _, w, _, w' => PendingKept w w'
  | .checkReferenced _ _, w, _, w' => PendingKept w w'
  | .submitRegister _, w, _, w' => PendingKept w w'
  | _, _, _, _ => True

def batchSpec : RelySpec Operation (fun _ => Result) World where
  rely := PendingKept
  refl := PendingKept.refl
  trans := PendingKept.trans
  pre := batchPre
  post op w ans w' := batchPost op w ans w'

theorem onChain_kept {c : ChainCommand} :
    workerSpec.wp (onChain c) (fun _ w' => PendingKept w w') w := by
  intro w₁ hw₁
  exact ⟨trivial, fun _ w₂ hpost => hw₁.trans (.of_store hpost)⟩

/-- A mark through the store, as an answer. -/
theorem storeAck_kept {x : StoreFlow (Option RegisterTask)} {op : Operation}
    (h : workerStore.Through x w fun _ w' => batchPost op w .persisted w')
    (hfailed : ∀ w', batchPost op w .storeUnavailable w') :
    workerSpec.wp (storeAck <$> onStore x) (fun ans w' => batchPost op w ans w') w := by
  refine RelySpec.wp_map (RelySpec.wp_mono (workerSpec_onStore h) ?_)
  intro r w' hr
  cases r with
  | error e => exact hfailed w'
  | ok found => exact hr found rfl

theorem execute_kept (op : Operation) (hpre : batchPre op w) :
    workerSpec.wp (execute op) (fun ans w' => batchPost op w ans w') w := by
  cases op with
  | loadTasks ids =>
      refine RelySpec.wp_bind (workerSpec_onStore (loadEach_through ids)) ?_
      intro r w' hr
      cases r with
      | error e => trivial
      | ok loaded => exact (hr loaded rfl).2
  | checkContentRegistered contentHash =>
      simp only [execute]
      split
      · exact PendingKept.refl w
      · exact RelySpec.wp_map onChain_kept
  | checkReferenced group member =>
      simp only [execute]
      split
      · exact RelySpec.wp_map onChain_kept
      · exact PendingKept.refl w
  | submitRegister task => exact RelySpec.wp_map onChain_kept
  | markDone id txHash onChainId =>
      exact storeAck_kept (markDone_through hpre txHash onChainId) fun _ => trivial
  | markFailed id kind message =>
      exact storeAck_kept (markFailed_through hpre _ message) fun _ => trivial
  | recordTransientFailure id message =>
      exact storeAck_kept (recordTransientFailure_through hpre message) fun _ => trivial

/-- The tasks still to be worked on are pending. -/
def AllPending (tasks : List RegisterTask) (w : World) : Prop :=
  ∀ task ∈ tasks, w.store.Pending task.id

theorem AllPending.kept {tasks : List RegisterTask} (hkept : PendingKept w w')
    (h : AllPending tasks w) : AllPending tasks w' :=
  fun task htask => hkept.pending (h task htask)

theorem AllPending.others {task : RegisterTask} {rest : List RegisterTask}
    (hdistinct : ((task :: rest).map RegisterTask.id).Nodup) (h : AllPending (task :: rest) w)
    (hothers : OthersPending task.id w w') : AllPending rest w' := by
  intro other hother
  rw [List.map_cons, List.nodup_cons] at hdistinct
  apply hothers other.id
  · intro heq
    exact hdistinct.1 (heq ▸ List.mem_map_of_mem hother)
  · exact h other (List.mem_cons_of_mem task hother)

variable {E : Contract.Evm}

/-- A task is conducted while it is pending; its mark leaves the others pending. What the chain says
does not matter here. -/
theorem batch_conduct {task : RegisterTask} {rest : List RegisterTask}
    (hdistinct : ((task :: rest).map RegisterTask.id).Nodup) :
    Conduct E batchSpec task (AllPending (task :: rest)) (fun _ => True) (fun _ => True)
      (AllPending rest) where
  live _ _ hkept h := h.kept hkept
  present _ _ _ _ := trivial
  absent _ _ _ _ := trivial
  check := by
    intro op w hop hlive
    have hquiet : batchPre op w ∧ ∀ ans w', batchPost op w ans w' → PendingKept w w' := by
      rcases checkOperation_cases hop with ⟨_, rfl⟩ | ⟨_, _, rfl⟩
      · exact ⟨trivial, fun _ _ h => h⟩
      · exact ⟨trivial, fun _ _ h => h⟩
    refine ⟨hquiet.1, fun ans w' hpost => ⟨hlive.kept (hquiet.2 ans w' hpost), ?_, ?_⟩⟩
    · exact fun _ => trivial
    · exact fun _ => trivial
  send := by
    intro w hlive _
    refine ⟨trivial, fun ans w' hpost => ⟨hlive.kept hpost, fun outcome _ => ?_⟩⟩
    cases outcome <;> trivial
  done _ _ hlive _ := ⟨hlive task List.mem_cons_self, fun _ hpost => hlive.others hdistinct hpost⟩
  failed _ hlive _ := ⟨hlive task List.mem_cons_self, fun _ hpost => hlive.others hdistinct hpost⟩
  transient _ hlive := ⟨hlive task List.mem_cons_self, fun _ hpost => hlive.others hdistinct hpost⟩

theorem submission_kept (ids : List String) :
    batchSpec.wp (submission E ids) (fun _ _ => True) w := by
  refine Submission.submission_wp AllPending (fun _ _ => True) (fun _ _ => True) ids ?_ trivial ?_
  · exact fun _ _ _ _ => trivial
  · intro w₁ loaded w₂ _ hloaded
    have hcanonical := canonical_distinctPending loaded
    refine ⟨?_, ?_⟩
    · intro task htask
      obtain ⟨before, after, rfl, hpending, -⟩ := (hcanonical.mem_iff task).mp htask
      exact hloaded task (by simp) hpending
    · intro before task rest hsplit
      apply batch_conduct
      have hdistinct := hcanonical.distinct
      rw [hsplit, List.map_append] at hdistinct
      exact (List.nodup_append.mp hdistinct).2.1

theorem processBatch_kept (ids : List String) :
    workerSpec.wp (processBatch E ids) (fun _ _ => True) w := by
  unfold processBatch
  split
  · trivial
  · refine RelySpec.wp_bind (RelySpec.wp_interp ?_ (submission_kept ids)) fun _ _ _ => trivial
    intro op w hpre
    refine RelySpec.wp_mono (execute_kept op (hpre w (PendingKept.refl w))) fun ans w' hpost => ?_
    exact ⟨w, PendingKept.refl w, hpost⟩

theorem workerRound_kept : workerSpec.wp (workerRound E) (fun _ _ => True) w := by
  have hrequest : ∀ {c : Command} {w}, (∀ w, workerPre c w) →
      workerSpec.wp (command c) (fun _ _ => True) w := by
    intro c w hpre w₁ _
    exact ⟨hpre w₁, fun _ _ _ => trivial⟩
  refine RelySpec.wp_bind (hrequest fun _ => trivial) fun reply w₁ _ => ?_
  split
  · trivial
  · split
    · trivial
    · refine RelySpec.wp_bind (hrequest fun _ => trivial) fun fee w₂ _ => ?_
      split
      · trivial
      · refine RelySpec.wp_bind (processBatch_kept _) fun advance w₃ _ => ?_
        split
        · exact RelySpec.wp_bind (hrequest fun _ => trivial) fun _ _ _ => trivial
        · trivial

end Worker

/-! ## The invariant -/

/-- No terminal record of any earlier state was ever changed. -/
def Final (w : World) : Prop :=
  ∀ s ∈ w.stores, ∀ id old task, s.task id = some old → old.status.isTerminal = true →
    w.store.task id = some task → task = old

/-- The indexes agree, and what is terminal is final. -/
structure Orderly (w : World) : Prop where
  tidy : w.store.Tidy
  final : Final w

theorem Orderly.initial : Orderly World.initial := by
  refine ⟨Store.Tidy.empty, ?_⟩
  intro s hs id old task hold
  obtain rfl : s = Store.empty := by simpa [World.stores, World.initial] using hs
  cases hold

/-- A store change keeps what is final when each record it leaves was there before, stands over a
pending one, or is the first under its id. -/
theorem Orderly.withStore (h : Orderly w) {s : Store} (htidy : s.Tidy)
    (hs : ∀ id task, s.task id = some task →
      w.store.task id = some task ∨ w.store.Pending id ∨ ¬ w.Stored id) :
    Orderly (w.withStore s) := by
  refine ⟨htidy, ?_⟩
  intro s' hs' id old task hold hterminal htask
  have htask : s.task id = some task := htask
  rcases List.mem_cons.mp hs' with rfl | hs'
  · exact Option.some.inj (htask.symm.trans hold)
  · rcases hs id task htask with hsame | ⟨now, hnow, hpending⟩ | hnew
    · exact h.final s' hs' id old task hold hterminal hsame
    · -- the record before the change would have to be the terminal one
      have heq := h.final s' hs' id old now hold hterminal hnow
      rw [heq, hterminal] at hpending
      cases hpending
    · exact absurd ⟨s', hs', old, hold⟩ hnew

/-- One record is written over a pending one, or under a new id. -/
theorem Orderly.write (h : Orderly w) {s : Store} {id : String} {slot : Slot RegisterTask}
    (htidy : s.Tidy) (htasks : s.tasks = Function.update w.store.tasks id (some slot))
    (hid : w.store.Pending id ∨ ¬ w.Stored id) : Orderly (w.withStore s) := by
  apply h.withStore htidy
  intro id' task htask
  by_cases heq : id' = id
  · rw [heq]
    exact .inr hid
  · rw [Store.task, htasks, Function.update_of_ne heq] at htask
    exact .inl htask

theorem Orderly.untouched (h : Orderly w) {s : Store} (htidy : s.Tidy)
    (htasks : s.tasks = w.store.tasks) : Orderly (w.withStore s) := by
  apply h.withStore htidy
  intro id task htask
  rw [Store.task, htasks] at htask
  exact .inl htask

/-! ## Steps -/

/-- An admission is given an id that no task has had. -/
def FreshId : Command → World → Prop
  | .store (.admitTask task), w => ¬ w.Stored task.id
  | _, _ => True

/-- Commands that leave the records and their indexes alone. -/
def Quiet : StoreCommand → Prop
  | .admitTask _ | .swapTask _ _ _ | .setTask _ | .transitionDone _ | .transitionFailed _ => False
  | _ => True

theorem quiet_exec {c : StoreCommand} (hc : Quiet c) (s : Store) :
    (c.exec s).2.tasks = s.tasks ∧ (c.exec s).2.active = s.active ∧ (c.exec s).2.age = s.age ∧
      (c.exec s).2.deadLetter = s.deadLetter ∧ (c.exec s).2.content = s.content := by
  cases c with
  | admitTask _ => cases hc
  | swapTask _ _ _ => cases hc
  | setTask _ => cases hc
  | transitionDone _ => cases hc
  | transitionFailed _ => cases hc
  | incr key =>
      simp only [StoreCommand.exec]
      split <;> exact ⟨rfl, rfl, rfl, rfl, rfl⟩
  | pexpire key =>
      simp only [StoreCommand.exec]
      split <;> exact ⟨rfl, rfl, rfl, rfl, rfl⟩
  | _ => exact ⟨rfl, rfl, rfl, rfl, rfl⟩

theorem Orderly.quiet (h : Orderly w) {c : StoreCommand} (hc : Quiet c) :
    Orderly (w.withStore (c.exec w.store).2) := by
  obtain ⟨htasks, hactive, hage, hdead, hcontent⟩ := quiet_exec hc w.store
  exact h.untouched (h.tidy.untouched htasks hactive hage hdead hcontent) htasks

theorem PendingKept.write {s : Store} {id : String} {slot : Slot RegisterTask}
    (htasks : s.tasks = Function.update w.store.tasks id (some slot))
    (hslot : ∀ task, w.store.task id = some task → task.status.isTerminal = false →
      FlagOnly task slot.value) : PendingKept w (w.withStore s) := by
  intro id' task htask hpending
  have hnow : (w.withStore s).store.task id' = _ := Store.task_of_update id' htasks
  rw [hnow]
  split
  · next hid =>
      rw [hid] at htask
      exact ⟨slot.value, rfl, hslot task htask hpending⟩
  · exact ⟨task, htask, rfl⟩

theorem OthersPending.write {s : Store} {id : String} {slot : Slot RegisterTask}
    (htasks : s.tasks = Function.update w.store.tasks id (some slot)) :
    OthersPending id w (w.withStore s) := by
  intro other hne hpending
  rw [show (w.withStore s).store.Pending other ↔ _ from Store.pending_of_update other htasks,
    if_neg hne]
  exact hpending

/-- A command of a request keeps the invariant, and every pending record up to its flag. -/
theorem Orderly.request_exec (h : Orderly w) {c : StoreCommand} (hc : requestCommand (.store c))
    (hfresh : FreshId (.store c) w) :
    Orderly (w.withStore (c.exec w.store).2) ∧ PendingKept w (w.withStore (c.exec w.store).2) := by
  have hsame : Orderly (w.withStore w.store) ∧ PendingKept w (w.withStore w.store) :=
    ⟨h.untouched h.tidy rfl, .of_store rfl⟩
  have hquiet : Quiet c → Orderly (w.withStore (c.exec w.store).2) ∧
      PendingKept w (w.withStore (c.exec w.store).2) :=
    fun hc => ⟨h.quiet hc, .of_store (quiet_exec hc w.store).1⟩
  cases c with
  | admitTask task =>
      simp only [StoreCommand.exec]
      split
      · exact hsame
      · next hfree =>
          refine ⟨h.write (h.tidy.admitTask hc hfree) rfl (.inr hfresh), .write rfl ?_⟩
          intro old hold
          exact absurd ⟨w.store, List.mem_cons_self, old, hold⟩ hfresh
  | swapTask id previous updated =>
      obtain ⟨hpending, rfl⟩ := hc
      simp only [StoreCommand.exec]
      split
      · next slot hslot =>
          split
          · next hvalue =>
              have hold : w.store.task id = some previous := by
                rw [Store.task, hslot, ← hvalue]; rfl
              have hexpires : slot.expires = false := by
                rw [h.tidy.lifetime id slot hslot, hvalue, hpending]
              obtain rfl := h.tidy.keyed id previous hold
              rw [hexpires]
              let flagged : RegisterTask := { previous with admitted := true }
              have htidy : { w.store with
                  tasks :=
                    Function.update w.store.tasks flagged.id (some ⟨flagged, false⟩) }.Tidy :=
                h.tidy.rewrite hold hpending hpending rfl
              refine ⟨h.write htidy rfl (.inl ⟨previous, hold, hpending⟩), .write rfl ?_⟩
              intro task htask _
              cases hold.symm.trans htask
              rfl
          · exact hsame
      · exact hsame
  | setTask _ => cases hc
  | transitionDone _ => cases hc
  | transitionFailed _ => cases hc
  | _ => exact hquiet trivial

/-- A command of the worker keeps the invariant. -/
theorem Orderly.worker_exec (h : Orderly w) {c : StoreCommand} (hpre : workerPre (.store c) w) :
    Orderly (w.withStore (c.exec w.store).2) := by
  cases c with
  | admitTask _ => cases hpre
  | swapTask _ _ _ => cases hpre
  | setTask task =>
      obtain ⟨hstill, old, hold, hpending, hhash⟩ := hpre
      exact h.write (h.tidy.rewrite hold hpending hstill hhash) rfl (.inl ⟨old, hold, hpending⟩)
  | transitionDone task => exact h.write (h.tidy.transitionDone hpre.1) rfl (.inl hpre.2)
  | transitionFailed task => exact h.write (h.tidy.transitionFailed hpre.1) rfl (.inl hpre.2)
  | _ => exact h.quiet trivial

/-- Acknowledged or not, it leaves what it is specified to leave. -/
theorem Orderly.worker_post (h : Orderly w) {c : StoreCommand} (hpre : workerPre (.store c) w)
    {reply : StoreReply c} (hreply : ∀ value, reply = some value → value = (c.exec w.store).1) :
    workerPost (.store c) w reply (w.withStore (c.exec w.store).2) := by
  cases c with
  | admitTask _ => cases hpre
  | swapTask _ _ _ => cases hpre
  | getTask id =>
      refine ⟨rfl, fun found hfound => ?_⟩
      have hstored : found = w.store.task id := hreply found hfound
      refine ⟨hstored, fun task htask => ?_⟩
      exact h.tidy.keyed id task (hstored.symm.trans htask)
  | setTask task => exact OthersPending.write rfl
  | transitionDone task => exact OthersPending.write rfl
  | transitionFailed task => exact OthersPending.write rfl
  | incr key => exact (quiet_exec (c := .incr key) trivial w.store).1
  | pexpire key => exact (quiet_exec (c := .pexpire key) trivial w.store).1
  | _ => rfl

/-- A failed command leaves the world as it was. -/
theorem workerPost_none (c : StoreCommand) (w : World) (hpre : workerPre (.store c) w) :
    workerPost (.store c) w none w := by
  have hothers : ∀ id, OthersPending id w w := fun id _ _ hpending => hpending
  cases c with
  | admitTask _ => cases hpre
  | swapTask _ _ _ => cases hpre
  | getTask id => exact ⟨rfl, fun found hfound => by cases hfound⟩
  | setTask task => exact hothers _
  | transitionDone task => exact hothers _
  | transitionFailed task => exact hothers _
  | _ => rfl

/-- What vanishes by itself was not pending. -/
theorem Orderly.drift (h : Orderly w) (hdrift : Drifts w w') : Orderly w' ∧ PendingKept w w' := by
  obtain ⟨hexpires⟩ := hdrift
  have htidy := h.tidy.expires hexpires
  cases hexpires with
  | @task id gone hslot =>
      have hterminal : gone.status.isTerminal = true := (h.tidy.lifetime id _ hslot).symm
      let s : Store := { w.store with tasks := Function.update w.store.tasks id none }
      have hrest : ∀ other, other ≠ id → s.task other = w.store.task other := by
        intro other hne
        simp [s, Store.task, Function.update_of_ne hne]
      constructor
      · apply h.withStore htidy
        intro other task htask
        by_cases hid : other = id
        · have hgone : s.task id = none := by simp [s, Store.task]
          rw [hid] at htask
          cases htask.symm.trans hgone
        · rw [hrest other hid] at htask
          exact .inl htask
      · intro other task htask hpending
        refine ⟨task, ?_, rfl⟩
        show s.task other = some task
        rw [hrest other ?_, htask]
        intro hid
        rw [hid, Store.task, hslot] at htask
        cases htask
        cases hpending.symm.trans hterminal
  | content _ => exact ⟨h.untouched htidy rfl, .of_store rfl⟩
  | key _ => exact ⟨h.untouched htidy rfl, .of_store rfl⟩
  | retry _ => exact ⟨h.untouched htidy rfl, .of_store rfl⟩
  | counter _ => exact ⟨h.untouched htidy rfl, .of_store rfl⟩

/-! ## The life of a task -/

variable (K : P256Crate) (E : Contract.Evm)

/-- Requests are handled side by side, any number of them, each with an id of its own. -/
def requests : Machine Command Reply World (Option Response) where
  perform c w reply w' := Performs c w reply w' ∧ FreshId c w
  drift := Drifts
  starts p := ∃ client submitted, p = some <$> handle K E client submitted

/-- The worker runs one round after another. -/
def rounds (p : Process (Option Response)) : Prop := p = (fun _ => none) <$> workerRound E

theorem requests_keep : Team.Keeps (requests K E) (rounds E) requestCommand workerSpec Orderly where
  crowd := by
    intro c w reply w' h hc ⟨hperforms, hfresh⟩
    cases hperforms with
    | store c => exact h.request_exec hc hfresh
    | storeFailed c => exact ⟨h, .refl w⟩
    | storeAckLost c => exact h.request_exec hc hfresh
    | queue c => exact ⟨⟨h.tidy, h.final⟩, .of_store rfl⟩
    | queueFailed c => exact ⟨h, .refl w⟩
    | queueAckLost c => exact ⟨⟨h.tidy, h.final⟩, .of_store rfl⟩
    | chain c => exact ⟨h, .refl w⟩
  lead := by
    intro c w reply w' h hpre ⟨hperforms, _⟩
    cases hperforms with
    | store c =>
        refine ⟨h.worker_exec hpre, h.worker_post hpre fun value hvalue => ?_⟩
        exact (Option.some.inj hvalue).symm
    | storeFailed c => exact ⟨h, workerPost_none c w hpre⟩
    | storeAckLost c =>
        refine ⟨h.worker_exec hpre, h.worker_post hpre fun value hvalue => ?_⟩
        cases hvalue
    | queue c => exact ⟨⟨h.tidy, h.final⟩, rfl⟩
    | queueFailed c => exact ⟨h, rfl⟩
    | queueAckLost c => exact ⟨⟨h.tidy, h.final⟩, rfl⟩
    | chain c => exact ⟨h, rfl⟩
  drift h hdrift := h.drift hdrift
  starts := by
    rintro p ⟨client, submitted, rfl⟩
    exact (handle_issues client submitted).map
  leads := by
    rintro p w rfl _
    exact RelySpec.wp_map workerRound_kept

/-- The life of a task. However requests and one worker interleave, and wherever commands fail or
are cut off, in every state reached the indexes agree with the records, no terminal record of an
earlier state has changed, and no two pending tasks share a content hash. -/
theorem records_move_forward (t : Team Command Reply World (Option Response))
    (hreach : Team.Reachable (requests K E) (rounds E) World.initial t) :
    t.world.store.Tidy ∧ Final t.world ∧
      ∀ id id' task task', t.world.store.task id = some task → task.status = .pending →
        t.world.store.task id' = some task' → task'.status = .pending →
          toAsciiLowercase task.contentHash = toAsciiLowercase task'.contentHash → id = id' := by
  have hsafe := hreach.safe (requests_keep K E) Orderly.initial
  refine ⟨hsafe.inv.tidy, hsafe.inv.final, ?_⟩
  intro id id' task task' htask hpending htask' hpending' hsame
  exact hsafe.inv.tidy.unique htask (TaskStatus.isTerminal_eq_false.mpr hpending) htask'
    (TaskStatus.isTerminal_eq_false.mpr hpending') hsame

/-- No stored task has the id, as a test. -/
def freshId : Command → World → Bool
  | .store (.admitTask task), w => w.stores.all fun s => (s.task task.id).isNone
  | _, _ => true

theorem healthy_fresh {K : P256Crate} {E : Contract.Evm} (c : Command) (w : World)
    (h : freshId c w = true) : (requests K E).perform c w (healthy c w).1 (healthy c w).2 := by
  refine ⟨healthy_performs c w, ?_⟩
  match c with
  | .store (.admitTask task) =>
      rintro ⟨s, hs, old, hold⟩
      have hnone := List.all_eq_true.mp h s hs
      rw [hold] at hnone
      cases hnone
  | .store (.getTask _) | .store (.getContent _) | .store (.getKey _) | .store (.getRetry _)
  | .store (.setRetry _ _) | .store (.swapTask _ _ _) | .store (.setTask _)
  | .store (.transitionDone _) | .store (.transitionFailed _) | .store (.incr _)
  | .store (.pexpire _) | .store .depth | .queue _ | .chain _ => trivial

open Registrar.Sample (crate submitted registerTask registerHash registerRequest validate_register)

/-- The request that registers the group of the recorded history. -/
def registerHandled : Process Response :=
  handle crate Contract.Sample.evm ⟨"", 1⟩ (submitted "task" (.register registerRequest))

theorem registerHandled_eq : registerHandled = (do
    let outcome
        ← (Admission.settle <$> (Admission.driveTask Contract.Sample.evm (registerTask "task")
      (hexText registerHash.val)).run).interp (executeAdmission ⟨"", 1⟩)
    pure (.settled outcome)) := by
  have hhandle : registerHandled = driveAdmissionRequest crate Contract.Sample.evm ⟨"", 1⟩
      (submitted "task" (.register registerRequest)) := rfl
  rw [hhandle, driveAdmissionRequest, Admission.admission_of_validate (validate_register "task")]

/-- It is given a fresh id, -/
theorem registerHandled_fresh : registerHandled.check healthy freshId World.initial = true := by
  rw [registerHandled_eq]
  decide +kernel

/-- and its task is pending then. -/
theorem registerHandled_pending :
    ((registerHandled.eval healthy World.initial).2.store.task "task").map RegisterTask.status =
      some .pending := by
  rw [registerHandled_eq]
  decide +kernel

/-- A request that is given a fresh id on the empty store, and what it leaves there. -/
theorem reachable_request {K : P256Crate} {E : Contract.Evm} {request : Process Response}
    (hstarts : (requests K E).starts (some <$> request))
    (hfresh : request.check healthy freshId World.initial = true) :
    ∃ t, Team.Reachable (requests K E) (rounds E) World.initial t ∧
      t.world = (request.eval healthy World.initial).2 := by
  have hcheck : (some <$> request).check healthy freshId World.initial = true := by
    rw [Prog.check_map]
    exact hfresh
  have hempty : Team.Reachable (requests K E) (rounds E) World.initial
      ⟨⟨World.initial, [], []⟩, none⟩ := .refl
  have hreach := Team.reachable_eval healthy_fresh hstarts hcheck hempty
  rw [Prog.eval_map] at hreach
  exact ⟨_, hreach, rfl⟩

/-- A state with a pending task in it. -/
theorem records_move_forward_task :
    ∃ t, Team.Reachable (requests crate Contract.Sample.evm) (rounds Contract.Sample.evm)
        World.initial t ∧ t.world.store.Pending "task" ∧ t.world.store.Tidy ∧ Final t.world := by
  have hstarts : (requests crate Contract.Sample.evm).starts (some <$> registerHandled) :=
    ⟨_, _, rfl⟩
  obtain ⟨t, hreach, hworld⟩ := reachable_request hstarts registerHandled_fresh
  obtain ⟨task, htask, hstatus⟩ := Option.map_eq_some_iff.mp registerHandled_pending
  rw [← hworld] at htask
  obtain ⟨htidy, hfinal, -⟩ := records_move_forward crate Contract.Sample.evm t hreach
  exact ⟨t, hreach, ⟨task, htask, by rw [hstatus]; rfl⟩, htidy, hfinal⟩

end P256Index.Server
