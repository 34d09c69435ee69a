import P256Index.Registrar.Batch
import P256Index.Server.Requests
import P256Index.Server.Tidy

/-!
# The admitted flag

The last command of an admission sets the flag of its task by compare-and-swap; the worker reads a
record, changes it and writes it back whole. Run against each other, command by command, either can
lose the flag: a retry recorded between the admission's read and its swap defeats the swap, and one
that was read before the swap and written after it undoes it. `Race.Clean` says that a step does
neither, and `flag_kept_iff` that the flag survives exactly the clean steps.
-/

namespace P256Index.Server

open Registrar

/-! ## Two processes on one task -/

abbrev StoreProcess := Prog StoreCommand StoreReply (Except Unit (Option RegisterTask))

/-- The worker's operations on a task. -/
inductive Mark where
  | done (txHash : Option String) (onChainId : Option UInt64)
  | transient (message : String)
  | failed (failureClass message : String)

def Mark.process (id : String) : Mark → StoreProcess
  | .done txHash onChainId => (markDone id txHash onChainId).run
  | .transient message => (recordTransientFailure id message).run
  | .failed failureClass message => (markFailed id failureClass message).run

/-- The store, the admission's last operation and the worker's current one; a process that is done
is idle. -/
structure Race where
  store : Store
  admission : StoreProcess
  worker : StoreProcess

/-- Who moves: one command of either process, or the worker takes up its next operation. -/
inductive Move where
  | admission
  | worker
  | begins (mark : Mark)

/-- Perform the next command of a process; no command fails. -/
def advance : StoreProcess → Store → Option (StoreProcess × Store)
  | .done _, _ => none
  | .ask c k, s => some (k (some (c.exec s).1), (c.exec s).2)

def Race.move (id : String) (r : Race) : Move → Option Race
  | .admission => (advance r.admission r.store).map fun next => ⟨next.2, next.1, r.worker⟩
  | .worker => (advance r.worker r.store).map fun next => ⟨next.2, r.admission, next.1⟩
  | .begins mark =>
      match r.worker with
      | .done _ => some { r with worker := mark.process id }
      | .ask _ _ => none

/-- Reachable by moves that are all allowed. -/
def Race.Reaches (id : String) (allowed : Move → Race → Prop) : Race → Race → Prop :=
  Relation.ReflTransGen fun r r' => ∃ m, allowed m r ∧ r.move id m = some r'

/-- A move that does not run into the other process: the admission swaps the record it read, or
finds a terminal one, and the worker writes a pending record back with the flag that is stored. -/
def Race.Clean (id : String) : Move → Race → Prop
  | .admission, r =>
      match r.admission with
      | .ask (.swapTask _ previous _) _ =>
          ∃ task, r.store.task id = some task ∧ (task = previous ∨ task.status.isTerminal = true)
      | _ => True
  | .worker, r =>
      match r.worker with
      | .ask (.setTask written) _ =>
          ∃ task, r.store.task id = some task ∧ task.admitted = written.admitted
      | _ => True
  | .begins _, _ => True

/-- An admission that was answered, which is answered as queued, finds the flag set or the task at
its end. -/
def Race.FlagKept (id : String) (r : Race) : Prop :=
  (∃ task, r.admission = .done (.ok (some task))) →
    ∃ task, r.store.task id = some task ∧ (task.admitted = true ∨ task.status.isTerminal = true)

/-- The admission has no swap left. -/
def PastSwap (p : StoreProcess) : Prop :=
  p.Issues fun c => ∀ id previous updated, c ≠ .swapTask id previous updated

/-- Nobody will set the flag any more: the admission is past its swap, and the record is pending
without it. -/
def Race.Lost (id : String) (r : Race) : Prop :=
  PastSwap r.admission ∧
    ∃ task, r.store.task id = some task ∧ task.status.isTerminal = false ∧ task.admitted = false

/-! ## The processes, command by command -/

/-- The admission after it read a pending record. -/
def swapping (id : String) (before : RegisterTask) : StoreProcess :=
  (do
    let swapped ← query (.swapTask id before { before with admitted := true })
    if swapped then pure (some { before with admitted := true }) else getTask id : StoreFlow _).run

/-- The worker with one command left. -/
def writing (c : StoreCommand) (task : RegisterTask) : StoreProcess :=
  (do let _ ← query c; pure (some task) : StoreFlow _).run

variable {id : String} {s : Store} {task : RegisterTask}

theorem advance_query_bind (c : StoreCommand)
    (f : c.Value → StoreFlow (Option RegisterTask)) (s : Store) :
    advance (query c >>= f).run s = some ((f (c.exec s).1).run, (c.exec s).2) := rfl

theorem advance_getTask (id : String) (s : Store) :
    advance (getTask id).run s = some (.done (.ok (s.task id)), s) := rfl

theorem advance_writing (c : StoreCommand) (task : RegisterTask) (s : Store) :
    advance (writing c task) s = some (.done (.ok (some task)), (c.exec s).2) := rfl

theorem advance_markAdmitted (hstored : s.task id = some task) :
    advance (markAdmitted id).run s = some
      (if task.status.isTerminal then .done (.ok (some task)) else swapping id task, s) := by
  unfold markAdmitted getTask
  rw [advance_query_bind]
  simp only [StoreCommand.exec, hstored]
  split
  · rfl
  · rfl

/-- The swap takes place, or the record is read once more. -/
theorem advance_swapping (hstored : s.task id = some task) (before : RegisterTask) :
    (task = before ∧ ∃ expires, advance (swapping id before) s =
        some (.done (.ok (some { before with admitted := true })),
          { s with
            tasks :=
              Function.update s.tasks id (some ⟨{ before with admitted := true }, expires⟩) })) ∨
      task ≠ before ∧ advance (swapping id before) s = some ((getTask id).run, s) := by
  obtain ⟨slot, hslot, hvalue⟩ := Option.map_eq_some_iff.mp hstored
  unfold swapping
  rw [advance_query_bind]
  simp only [StoreCommand.exec, hslot]
  by_cases heq : task = before
  · left
    rw [hvalue, if_pos heq]
    exact ⟨heq, slot.expires, rfl⟩
  · right
    rw [hvalue, if_neg heq]
    exact ⟨heq, rfl⟩

/-- The worker has read the record: it writes a terminal one, writes a pending one back as it was
but for the retry, or leaves a terminal one alone. -/
theorem advance_mark (hstored : s.task id = some task) (hid : task.id = id) (mark : Mark) :
    ∃ next, advance (mark.process id) s = some (next, s) ∧
      ((∃ r, next = .done r) ∨
        (∃ written, next = writing (.transitionDone written) written ∧ written.id = id ∧
          written.status.isTerminal = true) ∨
        (∃ written, next = writing (.transitionFailed written) written ∧ written.id = id ∧
          written.status.isTerminal = true) ∨
        ∃ written, next = writing (.setTask written) written ∧ written.id = id ∧
          written.status = task.status ∧ task.status.isTerminal = false ∧
            written.admitted = task.admitted) := by
  cases mark with
  | done txHash onChainId =>
      refine ⟨_, advance_query_bind (.getTask id) _ s, .inr (.inl ?_)⟩
      simp only [StoreCommand.exec, hstored]
      exact ⟨doneRecord task txHash onChainId, rfl, hid, rfl⟩
  | failed failureClass message =>
      refine ⟨_, advance_query_bind (.getTask id) _ s, .inr (.inr (.inl ?_))⟩
      simp only [StoreCommand.exec, hstored]
      exact ⟨failedRecord task failureClass message, rfl, hid, rfl⟩
  | transient message =>
      refine ⟨_, advance_query_bind (.getTask id) _ s, ?_⟩
      simp only [StoreCommand.exec, hstored]
      by_cases hterminal : task.status.isTerminal = true
      · rw [if_pos hterminal]
        exact .inl ⟨_, rfl⟩
      · rw [if_neg hterminal]
        split
        · exact .inr (.inr (.inl ⟨exhaustedRecord (retriedRecord task message), rfl, hid, rfl⟩))
        · refine .inr (.inr (.inr ⟨retriedRecord task message, rfl, hid, rfl, ?_, rfl⟩))
          simpa using hterminal

/-! ## The invariant of a clean race -/

/-- The record is there, and it is pending without the flag or terminal. -/
def Unset (id : String) (s : Store) : Prop :=
  ∀ task, s.task id = some task → task.status.isTerminal = false → task.admitted = false

def Terminated (id : String) (s : Store) : Prop :=
  ∀ task, s.task id = some task → task.status.isTerminal = true

def Flagged (id : String) (s : Store) : Prop :=
  ∀ task, s.task id = some task → task.admitted = true ∨ task.status.isTerminal = true

/-- Where the admission is, and what the store holds then. -/
inductive AdmissionAt (id : String) (s : Store) : StoreProcess → Prop
  | reading : Unset id s → AdmissionAt id s (markAdmitted id).run
  | swapping (before : RegisterTask) : before.id = id → Unset id s →
      AdmissionAt id s (swapping id before)
  | rereading : Terminated id s → AdmissionAt id s (getTask id).run
  | answered (r : Except Unit (Option RegisterTask)) : Flagged id s → AdmissionAt id s (.done r)

/-- Where the worker is. What it is about to write back pending was pending when it read it, and
nobody else ends a task or takes a flag away. -/
inductive WorkerAt (id : String) (s : Store) : StoreProcess → Prop
  | idle (r : Except Unit (Option RegisterTask)) : WorkerAt id s (.done r)
  | reading (mark : Mark) : WorkerAt id s (mark.process id)
  | ending (c : StoreCommand) (written : RegisterTask) :
      c = .transitionDone written ∨ c = .transitionFailed written → written.id = id →
        written.status.isTerminal = true → WorkerAt id s (writing c written)
  | retrying (written : RegisterTask) : written.id = id → written.status.isTerminal = false →
      (∀ task, s.task id = some task → task.status.isTerminal = false ∧
        (written.admitted = true → task.admitted = true)) →
          WorkerAt id s (writing (.setTask written) written)

structure Undisturbed (id : String) (r : Race) : Prop where
  stored : ∃ task, r.store.task id = some task ∧ task.id = id
  admission : AdmissionAt id r.store r.admission
  worker : WorkerAt id r.store r.worker

/-- A terminal record answers every question the admission may have. -/
theorem AdmissionAt.ended {s' : Store} {p : StoreProcess} (h : AdmissionAt id s p)
    (hend : Terminated id s') : AdmissionAt id s' p := by
  have hunset : Unset id s' := by
    intro task htask hpending
    rw [hend task htask] at hpending
    cases hpending
  cases h with
  | reading _ => exact .reading hunset
  | swapping before hid _ => exact .swapping before hid hunset
  | rereading _ => exact .rereading hend
  | answered r _ => exact .answered r fun task htask => .inr (hend task htask)

theorem WorkerAt.flagged {s' : Store} {p : StoreProcess} (h : WorkerAt id s p)
    (hstored : s.task id = some task)
    (hflagged : s'.task id = some { task with admitted := true }) : WorkerAt id s' p := by
  cases h with
  | idle r => exact .idle r
  | reading mark => exact .reading mark
  | ending c written hc hid hterminal => exact .ending c written hc hid hterminal
  | retrying written hid hpending hread =>
      refine .retrying written hid hpending ?_
      intro task' htask'
      cases hflagged.symm.trans htask'
      exact ⟨(hread task hstored).1, fun _ => rfl⟩

variable {r r' : Race}

theorem Undisturbed.admission_move (h : Undisturbed id r) (hclean : Race.Clean id .admission r)
    (hmove : r.move id .admission = some r') : Undisturbed id r' := by
  obtain ⟨s, p, worker⟩ := r
  obtain ⟨⟨task, htask, hid⟩, hadmission, hworker⟩ := h
  simp only [Race.move] at hmove htask hadmission hworker
  cases hadmission with
  | reading hunset =>
      rw [advance_markAdmitted htask] at hmove
      cases hmove
      refine ⟨⟨task, htask, hid⟩, ?_, hworker⟩
      show AdmissionAt id s (if task.status.isTerminal then _ else _)
      split
      · next hterminal =>
          refine .answered _ fun t ht => ?_
          cases htask.symm.trans ht
          exact .inr hterminal
      · exact .swapping task hid hunset
  | swapping before hbefore hunset =>
      rcases advance_swapping htask before with ⟨rfl, expires, hadvance⟩ | ⟨hne, hadvance⟩
      · rw [hadvance] at hmove
        cases hmove
        let flagged : RegisterTask := { task with admitted := true }
        have hflagged : { s with tasks := Function.update s.tasks id (some ⟨flagged, expires⟩) :
            Store }.task id = some flagged := by
          simp [Store.task]
        refine ⟨⟨flagged, hflagged, hid⟩, .answered _ fun t ht => ?_,
          hworker.flagged htask hflagged⟩
        cases hflagged.symm.trans ht
        exact .inl rfl
      · rw [hadvance] at hmove
        cases hmove
        obtain ⟨t, ht, hor⟩ : ∃ t, s.task id = some t ∧
            (t = before ∨ t.status.isTerminal = true) := hclean
        cases htask.symm.trans ht
        refine ⟨⟨task, htask, hid⟩, .rereading fun t ht => ?_, hworker⟩
        cases htask.symm.trans ht
        exact hor.resolve_left hne
  | rereading hend =>
      rw [advance_getTask] at hmove
      cases hmove
      exact ⟨⟨task, htask, hid⟩, .answered _ fun t ht => .inr (hend t ht), hworker⟩
  | answered _ _ => cases hmove

theorem Undisturbed.worker_move (h : Undisturbed id r) (hclean : Race.Clean id .worker r)
    (hmove : r.move id .worker = some r') : Undisturbed id r' := by
  obtain ⟨s, admission, p⟩ := r
  obtain ⟨⟨task, htask, hid⟩, hadmission, hworker⟩ := h
  simp only [Race.move] at hmove htask hadmission hworker
  cases hworker with
  | idle _ => cases hmove
  | reading mark =>
      obtain ⟨next, hadvance, hnext⟩ := advance_mark htask hid mark
      rw [hadvance] at hmove
      cases hmove
      refine ⟨⟨task, htask, hid⟩, hadmission, ?_⟩
      rcases hnext with
        ⟨r, rfl⟩ | ⟨written, rfl, hwid, hterminal⟩ | ⟨written, rfl, hwid, hterminal⟩ |
        ⟨written, rfl, hwid, hstatus, hpending, hflag⟩
      · exact .idle r
      · exact .ending _ written (.inl rfl) hwid hterminal
      · exact .ending _ written (.inr rfl) hwid hterminal
      · refine .retrying written hwid (by rw [hstatus]; exact hpending) fun t ht => ?_
        cases htask.symm.trans ht
        exact ⟨hpending, fun hset => hflag ▸ hset⟩
  | ending c written hc hwid hterminal =>
      rw [advance_writing] at hmove
      cases hmove
      have hwritten : ((c.exec s).2).task id = some written := by
        rcases hc with rfl | rfl
        · rw [← hwid]
          exact Store.task_transitionDone_self s written
        · rw [← hwid]
          exact Store.task_transitionFailed_self s written
      refine ⟨⟨written, hwritten, hwid⟩, hadmission.ended fun t ht => ?_, .idle _⟩
      cases hwritten.symm.trans ht
      exact hterminal
  | retrying written hwid hpending hread =>
      rw [advance_writing] at hmove
      cases hmove
      obtain ⟨t, ht, hflag⟩ : ∃ t, s.task id = some t ∧ t.admitted = written.admitted := hclean
      cases htask.symm.trans ht
      have hstill := (hread task htask).1
      have hwritten : (((StoreCommand.setTask written).exec s).2).task id = some written := by
        simp [StoreCommand.exec, Store.task, hwid]
      refine ⟨⟨written, hwritten, hwid⟩, ?_, .idle _⟩
      -- the written record is pending like the stored one, with the same flag
      have hunset : Unset id s → Unset id ((StoreCommand.setTask written).exec s).2 := by
        intro hunset t ht _
        cases hwritten.symm.trans ht
        rw [← hflag]
        exact hunset task htask hstill
      cases hadmission with
      | reading hbefore => exact .reading (hunset hbefore)
      | swapping before hbid hbefore => exact .swapping before hbid (hunset hbefore)
      | rereading hend =>
          rw [hend task htask] at hstill
          cases hstill
      | answered r hflagged =>
          refine .answered r fun t ht => .inl ?_
          cases hwritten.symm.trans ht
          rw [← hflag]
          refine (hflagged task htask).resolve_right fun hterminal => ?_
          rw [hterminal] at hstill
          cases hstill

theorem Undisturbed.move {m : Move} (h : Undisturbed id r) (hclean : Race.Clean id m r)
    (hmove : r.move id m = some r') : Undisturbed id r' := by
  cases m with
  | admission => exact h.admission_move hclean hmove
  | worker => exact h.worker_move hclean hmove
  | begins mark =>
      obtain ⟨s, admission, p⟩ := r
      cases p with
      | done r =>
          cases hmove
          exact ⟨h.stored, h.admission, .reading mark⟩
      | ask c k => cases hmove

theorem Undisturbed.flagKept (h : Undisturbed id r) : r.FlagKept id := by
  rintro ⟨task, hanswered⟩
  obtain ⟨stored, hstored, -⟩ := h.stored
  have hat := h.admission
  rw [hanswered] at hat
  cases hat with
  | answered _ hflagged => exact ⟨stored, hstored, hflagged stored hstored⟩

/-! ## What an unclean step loses -/

theorem pastSwap_getTask (id : String) : PastSwap (getTask id).run := by
  refine ⟨by simp, fun reply => ?_⟩
  cases reply <;> trivial

theorem not_pastSwap_swapping (before : RegisterTask) : ¬ PastSwap (swapping id before) := by
  intro h
  exact h.1 _ _ _ rfl

theorem PastSwap.advance {p q : StoreProcess} {s' : Store} (h : PastSwap p)
    (hp : advance p s = some (q, s')) : PastSwap q := by
  cases p with
  | done _ => cases hp
  | ask c k =>
      cases hp
      exact h.2 _

/-- Before its read the admission may still come to swap, for all it knows. -/
theorem not_pastSwap_markAdmitted (task : RegisterTask) : ¬ PastSwap (markAdmitted id).run := by
  intro h
  let waiting : RegisterTask := { task with status := .pending }
  let s : Store := { Store.empty with tasks := fun _ => some ⟨waiting, false⟩ }
  have hstored : s.task id = some waiting := rfl
  exact not_pastSwap_swapping waiting (h.advance (advance_markAdmitted hstored))

theorem Undisturbed.not_lost (h : Undisturbed id r) : ¬ r.Lost id := by
  intro ⟨hpast, task, htask, hpending, hunset⟩
  obtain ⟨s, p, worker⟩ := r
  have hadmission := h.admission
  simp only at hpast htask hadmission
  cases hadmission with
  | reading _ => exact not_pastSwap_markAdmitted task hpast
  | swapping before _ _ => exact not_pastSwap_swapping before hpast
  | rereading hend =>
      rw [hend task htask] at hpending
      cases hpending
  | answered _ hflagged =>
      rcases hflagged task htask with hflag | hterminal
      · cases hunset.symm.trans hflag
      · cases hpending.symm.trans hterminal

/-- The swap finds another pending record, or the worker writes back what it read before the swap.
-/
theorem Undisturbed.lost {m : Move} (h : Undisturbed id r) (hclean : ¬ Race.Clean id m r)
    (hmove : r.move id m = some r') : r'.Lost id := by
  obtain ⟨s, admission, worker⟩ := r
  obtain ⟨⟨task, htask, hid⟩, hadmission, hworker⟩ := h
  simp only at htask hadmission hworker
  cases m with
  | begins mark => exact absurd trivial hclean
  | admission =>
      simp only [Race.move] at hmove
      cases hadmission with
      | reading _ => exact absurd trivial hclean
      | rereading _ => exact absurd trivial hclean
      | answered _ _ => exact absurd trivial hclean
      | swapping before hbid hunset =>
          have hunclean : ¬ ∃ t, s.task id = some t ∧ (t = before ∨ t.status.isTerminal = true) :=
            hclean
          have hpending : task.status.isTerminal = false := by
            rw [← Bool.not_eq_true]
            exact fun hterminal => hunclean ⟨task, htask, .inr hterminal⟩
          rcases advance_swapping htask before with ⟨heq, -, -⟩ | ⟨-, hadvance⟩
          · exact absurd ⟨task, htask, .inl heq⟩ hunclean
          · rw [hadvance] at hmove
            cases hmove
            exact ⟨pastSwap_getTask id, task, htask, hpending, hunset task htask hpending⟩
  | worker =>
      simp only [Race.move] at hmove
      cases hworker with
      | idle _ => exact absurd trivial hclean
      | reading mark => cases mark <;> exact absurd trivial hclean
      | ending c written hc _ _ =>
          rcases hc with rfl | rfl
          · exact absurd trivial hclean
          · exact absurd trivial hclean
      | retrying written hwid hpending hread =>
          have hunclean : ¬ ∃ t, s.task id = some t ∧ t.admitted = written.admitted := hclean
          obtain ⟨hstill, hkept⟩ := hread task htask
          have hne : task.admitted ≠ written.admitted := fun heq => hunclean ⟨task, htask, heq⟩
          have hwunset : written.admitted = false := by
            rw [← Bool.not_eq_true]
            exact fun hset => hne ((hkept hset).trans hset.symm)
          have hset : task.admitted = true := by
            rw [← Bool.not_eq_false]
            exact fun hunset => hne (hunset.trans hwunset.symm)
          rw [advance_writing] at hmove
          cases hmove
          have hwritten : (((StoreCommand.setTask written).exec s).2).task id = some written := by
            simp [StoreCommand.exec, Store.task, hwid]
          refine ⟨?_, written, hwritten, hpending, hwunset⟩
          -- the flag is set, so the admission has been through its swap
          cases hadmission with
          | reading hunset => cases (hunset task htask hstill).symm.trans hset
          | swapping _ _ hunset => cases (hunset task htask hstill).symm.trans hset
          | rereading hend => cases hstill.symm.trans (hend task htask)
          | answered _ _ => trivial

/-- From a record without the flag, along every run of clean steps the flag is kept once the
admission is answered; and a step from such a run is clean exactly if it does not lose the flag. -/
theorem flag_kept_iff (hstored : s.task id = some task) (hid : task.id = id)
    (hunset : task.admitted = false) (idle : Except Unit (Option RegisterTask)) (r : Race)
    (hreach : Race.Reaches id (Race.Clean id) ⟨s, (markAdmitted id).run, .done idle⟩ r) :
    r.FlagKept id ∧ ∀ m r', r.move id m = some r' → (Race.Clean id m r ↔ ¬ r'.Lost id) := by
  have hundisturbed : Undisturbed id r := by
    induction hreach with
    | refl =>
        refine ⟨⟨task, hstored, hid⟩, .reading fun t ht _ => ?_, .idle idle⟩
        cases hstored.symm.trans ht
        exact hunset
    | tail _ hstep ih =>
        obtain ⟨m, hclean, hmove⟩ := hstep
        exact ih.move hclean hmove
  refine ⟨hundisturbed.flagKept, fun m r' hmove => ⟨fun hclean => ?_, fun hlost => ?_⟩⟩
  · exact (hundisturbed.move hclean hmove).not_lost
  · by_contra hclean
    exact hlost (hundisturbed.lost hclean hmove)

/-! ## Schedules that lose the flag -/

/-- A schedule, move by move; `none` if some move is not possible. -/
def Race.play (id : String) : Race → List Move → Option Race
  | r, [] => some r
  | r, m :: moves => (r.move id m).bind fun r' => r'.play id moves

theorem Race.reaches_of_play {moves : List Move} (h : r.play id moves = some r') :
    Race.Reaches id (fun _ _ => True) r r' := by
  induction moves generalizing r with
  | nil =>
      cases h
      exact .refl
  | cons m moves ih =>
      obtain ⟨next, hmove, hplay⟩ := Option.bind_eq_some_iff.mp h
      exact .head ⟨m, trivial, hmove⟩ (ih hplay)

/-- The admission was answered as queued, the worker is idle, and the stored record is pending
without the flag. -/
def Race.Forgotten (id : String) (r : Race) : Bool :=
  (match r.admission with
    | .done (.ok (some _)) => true
    | _ => false) &&
  (match r.worker with
    | .done _ => true
    | .ask _ _ => false) &&
  (match r.store.task id with
    | some task => task.status == .pending && task.admitted == false
    | none => false)

/-- A task just admitted to the store and put on the queue, its flag not yet set. -/
def freshRace : Race :=
  ⟨Store.empty.admitTask { Submission.referRecord "a" .pending with admitted := false },
    (markAdmitted "a").run, .done (.ok none)⟩

theorem Race.move_admission {s' : Store} {p q worker : StoreProcess}
    (h : advance p s = some (q, s')) :
    Race.move id ⟨s, p, worker⟩ .admission = some ⟨s', q, worker⟩ := by
  simp [Race.move, h]

theorem flag_kept_iff_fresh : ∃ r : Race, (∃ task, r.admission = .done (.ok (some task))) ∧
    r.FlagKept "a" ∧ ∀ m r', r.move "a" m = some r' → (Race.Clean "a" m r ↔ ¬ r'.Lost "a") := by
  let task : RegisterTask := { Submission.referRecord "a" .pending with admitted := false }
  have hstored : freshRace.store.task "a" = some task := by
    decide +kernel
  rcases advance_swapping hstored task with ⟨-, expires, hswap⟩ | ⟨hne, -⟩
  · have hread : Race.Reaches "a" (Race.Clean "a") freshRace
        ⟨freshRace.store, swapping "a" task, .done (.ok none)⟩ :=
      .single ⟨.admission, trivial, Race.move_admission (advance_markAdmitted hstored)⟩
    exact ⟨_, ⟨_, rfl⟩, flag_kept_iff hstored rfl rfl (.ok none) _
      (.tail hread ⟨.admission, ⟨task, hstored, .inl rfl⟩, Race.move_admission hswap⟩)⟩
  · exact absurd rfl hne

/-- A retry that was read before the swap is written after it. -/
def undoing : List Move := [.begins (.transient "rpc"), .worker, .admission, .admission, .worker]

/-- A retry falls between the admission's read and its swap. -/
def defeating : List Move :=
  [.admission, .begins (.transient "rpc"), .worker, .worker, .admission, .admission]

/-- The first schedule takes the flag away, the second keeps it from being set. -/
theorem flag_forgotten :
    (∃ r, freshRace.play "a" undoing = some r ∧ Race.Reaches "a" (fun _ _ => True) freshRace r ∧
      r.Forgotten "a" = true) ∧
    ∃ r, freshRace.play "a" defeating = some r ∧ Race.Reaches "a" (fun _ _ => True) freshRace r ∧
      r.Forgotten "a" = true := by
  have hforgotten : ∀ moves ∈ [undoing, defeating],
      (freshRace.play "a" moves).any (Race.Forgotten "a") = true := by
    decide +kernel
  have hplayed : ∀ moves ∈ [undoing, defeating], ∃ r,
      freshRace.play "a" moves = some r ∧ Race.Reaches "a" (fun _ _ => True) freshRace r ∧
        r.Forgotten "a" = true := by
    intro moves hmoves
    obtain ⟨r, hplay, hr⟩ := Option.any_eq_true _ _ |>.mp (hforgotten moves hmoves)
    exact ⟨r, hplay, Race.reaches_of_play hplay, hr⟩
  exact ⟨hplayed _ List.mem_cons_self, hplayed _ (List.mem_cons_of_mem _ List.mem_cons_self)⟩

end P256Index.Server
