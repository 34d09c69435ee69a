import P256Index.Interaction.Alone
import P256Index.Server.Shell

/-!
# The service with a healthy store and queue

Every store and queue command is performed and acknowledged; the chain is a function of a state of
its own, which may be an adversary's. Processes are functions then, and each store function has one
equation that says what it answers and leaves.
-/

namespace P256Index.Server

open Registrar

/-! ## Store functions -/

variable {α β A : Type}

/-- A store function on a store that answers every command. -/
def runStore (x : StoreFlow α) (s : Store) : Except Unit α × Store :=
  x.run.eval (fun c s => (some (c.exec s).1, (c.exec s).2)) s

variable {s : Store} {id : String}

theorem runStore_query_bind (c : StoreCommand) (f : c.Value → StoreFlow β) :
    runStore (query c >>= f) s = runStore (f (c.exec s).1) (c.exec s).2 := rfl

theorem runStore_getTask_bind (f : Option RegisterTask → StoreFlow β) :
    runStore (getTask id >>= f) s = runStore (f (s.task id)) s := rfl

@[simp] theorem runStore_getTask : runStore (getTask id) s = (.ok (s.task id), s) := rfl

theorem runStore_loadEach (ids : List String) :
    runStore (loadEach ids) s = (.ok (ids.map s.task), s) := by
  induction ids with
  | nil => rfl
  | cons id ids ih =>
      have hrest : ∀ (task : Option RegisterTask),
          runStore (loadEach ids >>= fun tasks => pure (task :: tasks)) s =
            (.ok (task :: ids.map s.task), s) := by
        intro task
        have heval := Prog.eval_bind (fun c s => (some (StoreCommand.exec c s).1, (c.exec s).2))
          (loadEach ids).run (ExceptT.bindCont fun tasks => pure (task :: tasks)) s
        rw [show (loadEach ids).run.eval (fun c s =>
          (some (StoreCommand.exec c s).1, (c.exec s).2)) s =
          (.ok (ids.map s.task), s) from ih] at heval
        exact heval
      exact hrest (s.task id)

/-- What `mark_done` leaves. -/
theorem runStore_markDone (txHash : Option String) (onChainId : Option UInt64) :
    runStore (markDone id txHash onChainId) s =
      match s.task id with
      | none => (.ok none, s)
      | some task =>
          (.ok (some (doneRecord task txHash onChainId)),
            s.transitionDone (doneRecord task txHash onChainId)) := by
  rw [markDone, runStore_getTask_bind]
  cases s.task id with
  | none => rfl
  | some task => rfl

theorem runStore_markFailed (failureClass message : String) :
    runStore (markFailed id failureClass message) s =
      match s.task id with
      | none => (.ok none, s)
      | some task =>
          (.ok (some (failedRecord task failureClass message)),
            s.transitionFailed (failedRecord task failureClass message)) := by
  rw [markFailed, runStore_getTask_bind]
  cases s.task id with
  | none => rfl
  | some task => rfl

/-- What `record_transient_failure` leaves: nothing new, one more retry, or the end. -/
def Store.retried (s : Store) (id message : String) : Store :=
  match s.task id with
  | none => s
  | some task =>
      if task.status.isTerminal then s
      else if maxRetries ≤ (retriedRecord task message).retries then
        s.transitionFailed (exhaustedRecord (retriedRecord task message))
      else
        { s with
          tasks := Function.update s.tasks task.id (some ⟨retriedRecord task message, false⟩) }

/-- A pending record below the limit is raised by one retry, or ends. -/
theorem Store.task_retried {task : RegisterTask} (message : String) (htask : s.task id = some task)
    (hid : task.id = id) (hpending : task.status = .pending) (hlt : task.retries < maxRetries) :
    (∀ other, other ≠ id → (s.retried id message).task other = s.task other) ∧
      ∃ record, (s.retried id message).task id = some record ∧
        (record.status = .failed ∨ record.status = .pending ∧
          record.retries = task.retries + 1) := by
  have hretries : (retriedRecord task message).retries = task.retries + 1 := by
    have hsmall : task.retries + 1 ≤ 2 ^ 32 - 1 := by
      have : maxRetries = 10 := rfl
      omega
    exact min_eq_left hsmall
  subst hid
  have hterminal : task.status.isTerminal = false := by
    rw [hpending]
    rfl
  rw [Store.retried, htask]
  simp only [hterminal, Bool.false_eq_true, if_false]
  split
  · refine ⟨?_, exhaustedRecord (retriedRecord task message), ?_, .inl rfl⟩
    · intro other hne
      rw [Store.task_transitionFailed]
      exact if_neg hne
    · exact Store.task_transitionFailed_self s _
  · refine ⟨?_, retriedRecord task message, ?_, .inr ⟨hpending, hretries⟩⟩
    · intro other hne
      simp [Store.task, Function.update, hne]
    · simp [Store.task]

theorem runStore_recordTransientFailure (s : Store) (id message : String) :
    (runStore (recordTransientFailure id message) s).2 = s.retried id message ∧
      ∃ task, (runStore (recordTransientFailure id message) s).1 = .ok task := by
  rw [recordTransientFailure, runStore_getTask_bind, Store.retried]
  cases s.task id with
  | none => exact ⟨rfl, _, rfl⟩
  | some task =>
      simp only
      split
      · exact ⟨rfl, _, rfl⟩
      · split
        · exact ⟨rfl, _, rfl⟩
        · exact ⟨rfl, _, rfl⟩

/-- Every state a store function passes satisfies `I`. -/
def Keeps (I : Store → Prop) (x : StoreFlow α) (s : Store) : Prop :=
  x.run.Always (fun c s => (some (c.exec s).1, (c.exec s).2)) I s

section Keeps

variable {I : Store → Prop}

theorem keeps_pure {a : α} (h : I s) : Keeps I (pure a) s := h

theorem keeps_query_bind {c : StoreCommand} {f : c.Value → StoreFlow β} (h : I s)
    (hf : Keeps I (f (c.exec s).1) (c.exec s).2) : Keeps I (query c >>= f) s := ⟨h, hf⟩

theorem keeps_getTask_bind {f : Option RegisterTask → StoreFlow β} (h : I s)
    (hf : Keeps I (f (s.task id)) s) : Keeps I (getTask id >>= f) s := ⟨h, hf⟩

theorem keeps_loadEach (ids : List String) (h : I s) : Keeps I (loadEach ids) s := by
  induction ids with
  | nil => exact h
  | cons id ids ih =>
      refine keeps_getTask_bind h ?_
      show ((loadEach ids).run >>= ExceptT.bindCont _).Always _ _ _
      refine Prog.Always.bind ih ?_
      have hread := runStore_loadEach (s := s) ids
      unfold runStore at hread
      rw [hread]
      exact h

end Keeps

/-! ## The site -/

/-- The store, the queue and a state of the chain. -/
structure Site (A : Type) where
  store : Store
  queue : Queue
  chain : A

/-- Every command is performed and acknowledged; `answer` is the chain. -/
def serve (answer : (c : ChainCommand) → A → c.Value × A) :
    (c : Command) → Site A → Reply c × Site A
  | .store c, w => (some (c.exec w.store).1, { w with store := (c.exec w.store).2 })
  | .queue c, w => (some (c.exec w.queue).1, { w with queue := (c.exec w.queue).2 })
  | .chain c, w => ((answer c w.chain).1, { w with chain := (answer c w.chain).2 })

variable {answer : (c : ChainCommand) → A → c.Value × A} {w : Site A}

/-- A store function in a process. -/
@[simp] theorem eval_onStore (x : StoreFlow α) :
    (onStore x).eval (serve answer) w =
      ((runStore x w.store).1, { w with store := (runStore x w.store).2 }) := by
  rw [onStore, Prog.eval_interp]
  show (x.run.eval _ w) = _
  unfold runStore
  generalize hp : x.run = p
  clear hp
  induction p generalizing w with
  | done a => rfl
  | ask c k ih => exact ih _

/-- A property of the store that a store function keeps on its way. -/
theorem always_onStore {I : Store → Prop} {x : StoreFlow α} (h : Keeps I x w.store) :
    (onStore x).Always (serve answer) (fun w => I w.store) w := by
  unfold onStore
  unfold Keeps at h
  generalize x.run = p at h
  induction p generalizing w with
  | done a => exact h
  | ask c k ih => exact ⟨h.1, ih _ h.2⟩

@[simp] theorem eval_onChain (c : ChainCommand) :
    (onChain c).eval (serve answer) w =
      ((answer c w.chain).1, { w with chain := (answer c w.chain).2 }) := rfl

end P256Index.Server
