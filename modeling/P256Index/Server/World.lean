import P256Index.Interaction.Concurrent
import P256Index.Server.Shell

/-!
# The running service

The store and the queue as many processes see them. A command may be performed and acknowledged,
fail without an effect, or be performed while its acknowledgement is lost; the chain answers
anything; keys with a lifetime vanish when they like. The world keeps every store state it went
through, so that what a task has reached stays known after its record expired.

`Intact` is the invariant behind delivery: every envelope behind the committed offset belongs to a
finished task, and a record goes missing only after its task finished.
-/

namespace P256Index.Server

open Registrar

/-! ## Worlds -/

structure World where
  store : Store
  /-- Earlier store states, newest first. -/
  past : List Store
  queue : Queue

namespace World

/-- Every store state so far. -/
def stores (w : World) : List Store := w.store :: w.past

def withStore (w : World) (s : Store) : World := { w with store := s, past := w.stores }

def withQueue (w : World) (q : Queue) : World := { w with queue := q }

/-- Nothing stored, nothing queued. -/
def initial : World := ⟨.empty, [], ⟨[], 0⟩⟩

/-- Store states and envelopes only ever accumulate. -/
instance : Preorder World where
  le w w' := w.stores <:+ w'.stores ∧ w.queue.log <+: w'.queue.log
  le_refl w := ⟨List.suffix_refl _, List.prefix_refl _⟩
  le_trans _ _ _ h h' := ⟨h.1.trans h'.1, h.2.trans h'.2⟩

theorem le_withStore (w : World) (s : Store) : w ≤ w.withStore s :=
  ⟨List.suffix_cons s w.stores, List.prefix_refl _⟩

/-- The task's record has been done or failed at some time. -/
def Finished (w : World) (id : String) : Prop :=
  ∃ s ∈ w.stores, ∃ task, s.task id = some task ∧ task.status.isTerminal = true

/-- The task has had a record at some time. -/
def Stored (w : World) (id : String) : Prop := ∃ s ∈ w.stores, ∃ task, s.task id = some task

/-- An envelope of the task is in the log. -/
def Appended (w : World) (id : String) : Prop := ∃ envelope ∈ w.queue.log, envelope.id = id

theorem Finished.mono {w w' : World} {id : String} (hle : w ≤ w') (h : w.Finished id) :
    w'.Finished id := by
  obtain ⟨s, hs, hterminal⟩ := h
  exact ⟨s, hle.1.subset hs, hterminal⟩

theorem Stored.mono {w w' : World} {id : String} (hle : w ≤ w') (h : w.Stored id) :
    w'.Stored id := by
  obtain ⟨s, hs, hrecord⟩ := h
  exact ⟨s, hle.1.subset hs, hrecord⟩

theorem Appended.mono {w w' : World} {id : String} (hle : w ≤ w') (h : w.Appended id) :
    w'.Appended id := by
  obtain ⟨envelope, henvelope, hid⟩ := h
  exact ⟨envelope, hle.2.subset henvelope, hid⟩

/-- What reading a record teaches. -/
structure Read (w : World) (task : RegisterTask) : Prop where
  stored : w.Stored task.id
  finished : task.status.isTerminal = true → w.Finished task.id
  appended : task.admitted = true → task.status.isTerminal = false → w.Appended task.id

theorem Read.mono {w w' : World} {task : RegisterTask} (hle : w ≤ w') (h : w.Read task) :
    w'.Read task :=
  ⟨h.stored.mono hle, fun ht => (h.finished ht).mono hle, fun ha ht => (h.appended ha ht).mono hle⟩

/-- Up to offset `n` every envelope belongs to a finished task or to one of `ids`. -/
structure Covered (w : World) (n : Nat) (ids : List String) : Prop where
  in_log : n < w.queue.log.length
  covered : ∀ j ≤ n, ∀ envelope, w.queue.log[j]? = some envelope →
    w.Finished envelope.id ∨ envelope.id ∈ ids

theorem Covered.mono {w w' : World} {n : Nat} {ids : List String} (hle : w ≤ w')
    (h : w.Covered n ids) : w'.Covered n ids where
  in_log := lt_of_lt_of_le h.in_log hle.2.length_le
  covered := by
    intro j hj envelope henvelope
    -- the offset was in the log already, so the envelope is the same one
    obtain ⟨later, hlog⟩ := hle.2
    have hsame : w.queue.log[j]? = some envelope := by
      rw [← henvelope, ← hlog, List.getElem?_append_left (lt_of_le_of_lt hj h.in_log)]
    exact (h.covered j hj envelope hsame).imp_left fun hfin => hfin.mono hle

theorem Covered.finish {w : World} {n : Nat} {ids : List String} (h : w.Covered n ids)
    (hids : ∀ id ∈ ids, w.Finished id) : w.Covered n [] :=
  ⟨h.in_log, fun j hj envelope henvelope =>
    Or.inl ((h.covered j hj envelope henvelope).elim (fun hfin => hfin) (hids _))⟩

end World

/-! ## Faults -/

/-- How a command may go. -/
inductive Performs : (c : Command) → World → Reply c → World → Prop
  | store (c : StoreCommand) (w : World) :
      Performs (.store c) w (some (c.exec w.store).1) (w.withStore (c.exec w.store).2)
  | storeFailed (c : StoreCommand) (w : World) : Performs (.store c) w none w
  | storeAckLost (c : StoreCommand) (w : World) :
      Performs (.store c) w none (w.withStore (c.exec w.store).2)
  | queue (c : QueueCommand) (w : World) :
      Performs (.queue c) w (some (c.exec w.queue).1) (w.withQueue (c.exec w.queue).2)
  | queueFailed (c : QueueCommand) (w : World) : Performs (.queue c) w none w
  | queueAckLost (c : QueueCommand) (w : World) :
      Performs (.queue c) w none (w.withQueue (c.exec w.queue).2)
  | chain (c : ChainCommand) (w : World) (answer : c.Value) : Performs (.chain c) w answer w

/-- A key with a lifetime vanishes. -/
inductive Drifts : World → World → Prop
  | expires {w : World} {s : Store} : w.store.Expires s → Drifts w (w.withStore s)

/-! ## The invariant -/

structure Intact (w : World) : Prop where
  /-- A record lies under its own id. -/
  keyed : ∀ id task, w.store.task id = some task → task.id = id
  /-- Only a terminal record has a lifetime. -/
  lifetime : ∀ id slot, w.store.tasks id = some slot → slot.expires = true →
    slot.value.status.isTerminal = true
  /-- A record goes missing only after its task finished. -/
  kept : ∀ id, w.Stored id → w.store.task id = none → w.Finished id
  /-- An admitted record that is still pending has an envelope. -/
  enqueued : ∀ id task, w.store.task id = some task → task.admitted = true →
    task.status.isTerminal = false → w.Appended id
  /-- An envelope is of a task that was stored. -/
  known : ∀ envelope ∈ w.queue.log, w.Stored envelope.id
  in_log : w.queue.committed ≤ w.queue.log.length
  /-- A committed envelope is of a finished task. -/
  settled : ∀ j < w.queue.committed, ∀ envelope, w.queue.log[j]? = some envelope →
    w.Finished envelope.id

theorem Intact.initial : Intact World.initial where
  keyed _ _ h := by cases h
  lifetime _ _ h := by cases h
  kept := by
    rintro id ⟨s, hs, task, htask⟩
    obtain rfl : s = Store.empty := by simpa [World.stores, World.initial] using hs
    cases htask
  enqueued _ _ h := by cases h
  known _ h := by cases h
  in_log := le_refl 0
  settled _ h := by cases h

theorem Intact.read {w : World} (h : Intact w) {id : String} {task : RegisterTask}
    (htask : w.store.task id = some task) : w.Read task ∧ task.id = id := by
  have hid := h.keyed id task htask
  subst hid
  have hmem : w.store ∈ w.stores := List.mem_cons_self
  exact ⟨⟨⟨w.store, hmem, task, htask⟩, fun ht => ⟨w.store, hmem, task, htask, ht⟩,
    h.enqueued _ task htask⟩, rfl⟩

/-- A record that may stand in the store. -/
structure SlotOk (w : World) (id : String) (slot : Slot RegisterTask) : Prop where
  keyed : slot.value.id = id
  lifetime : slot.expires = true → slot.value.status.isTerminal = true
  enqueued : slot.value.admitted = true → slot.value.status.isTerminal = false → w.Appended id

/-- A store change keeps the invariant when each key is left alone, gets a proper record, or loses
the record of a finished task. -/
theorem Intact.withStore {w : World} (h : Intact w) {s : Store}
    (hs : ∀ id, s.tasks id = w.store.tasks id ∨
      (∃ slot, s.tasks id = some slot ∧ SlotOk w id slot) ∨ (s.tasks id = none ∧ w.Finished id)) :
    Intact (w.withStore s) := by
  have hle := w.le_withStore s
  have htask : ∀ id task, s.task id = some task → w.store.task id = some task ∨
      ∃ slot, s.tasks id = some slot ∧ slot.value = task ∧ SlotOk w id slot := by
    intro id task hid
    rcases hs id with hsame | ⟨slot, hslot, hok⟩ | ⟨hnone, -⟩
    · left
      rwa [Store.task, ← hsame]
    · right
      rw [Store.task, hslot] at hid
      exact ⟨slot, hslot, Option.some.inj hid, hok⟩
    · rw [Store.task, hnone] at hid
      cases hid
  constructor
  · intro id task hid
    rcases htask id task hid with hold | ⟨slot, -, rfl, hok⟩
    · exact h.keyed id task hold
    · exact hok.keyed
  · intro id slot hslot hexpires
    rcases hs id with hsame | ⟨slot', hslot', hok⟩ | ⟨hnone, -⟩
    · exact h.lifetime id slot (hsame ▸ hslot) hexpires
    · cases hslot.symm.trans hslot'
      exact hok.lifetime hexpires
    · cases hslot.symm.trans hnone
  · rintro id ⟨s', hs', task, hid⟩ hmissing
    rcases hs id with hsame | ⟨slot, hslot, -⟩ | ⟨-, hfin⟩
    · have hgone : w.store.task id = none := by
        rw [Store.task, ← hsame]
        exact hmissing
      rcases List.mem_cons.mp hs' with rfl | hs'
      · cases hid.symm.trans hmissing
      · exact (h.kept id ⟨s', hs', task, hid⟩ hgone).mono hle
    · have hmissing' : s.task id = none := hmissing
      rw [Store.task, hslot] at hmissing'
      cases hmissing'
    · exact hfin.mono hle
  · intro id task hid hadmitted hpending
    rcases htask id task hid with hold | ⟨slot, -, rfl, hok⟩
    · exact (h.enqueued id task hold hadmitted hpending).mono hle
    · exact (hok.enqueued hadmitted hpending).mono hle
  · intro envelope henvelope
    exact (h.known envelope henvelope).mono hle
  · exact h.in_log
  · intro j hj envelope henvelope
    exact (h.settled j hj envelope henvelope).mono hle

theorem Intact.untouched {w : World} (h : Intact w) {s : Store} (hs : s.tasks = w.store.tasks) :
    Intact (w.withStore s) :=
  h.withStore fun id => Or.inl (congrFun hs id)

/-- One key gets a proper record. -/
theorem Intact.write {w : World} (h : Intact w) {s : Store} {id : String} {slot : Slot RegisterTask}
    (hs : s.tasks = Function.update w.store.tasks id (some slot)) (hok : SlotOk w id slot) :
    Intact (w.withStore s) := by
  apply h.withStore
  intro id'
  by_cases hid : id' = id
  · subst hid
    exact Or.inr (Or.inl ⟨slot, by rw [hs, Function.update_self], hok⟩)
  · exact Or.inl (by rw [hs, Function.update_of_ne hid])

/-- Whatever vanishes by itself was of a finished task. -/
theorem Intact.drift {w w' : World} (h : Intact w) (hdrift : Drifts w w') : Intact w' ∧ w ≤ w' := by
  obtain ⟨hexpires⟩ := hdrift
  refine ⟨?_, w.le_withStore _⟩
  cases hexpires with
  | @task id task hslot =>
      apply h.withStore
      intro id'
      by_cases hid : id' = id
      · subst hid
        have htask : w.store.task id' = some task := by rw [Store.task, hslot]; rfl
        have hterminal := h.lifetime id' _ hslot rfl
        exact Or.inr (Or.inr ⟨Function.update_self .., w.store, List.mem_cons_self, task, htask,
          hterminal⟩)
      · exact Or.inl (Function.update_of_ne hid ..)
  | content _ => exact h.untouched rfl
  | key _ => exact h.untouched rfl
  | retry _ => exact h.untouched rfl
  | counter _ => exact h.untouched rfl

/-! ## What each command needs and leaves -/

/-- What a poll teaches about its messages. -/
structure Polled (w : World) (messages : List (Nat × RegisterTask)) : Prop where
  stored : ∀ message ∈ messages, w.Stored message.2.id
  covered : ∀ message ∈ messages, w.Covered message.1 (messages.map fun m => m.2.id)

theorem Polled.mono {w w' : World} {messages : List (Nat × RegisterTask)} (hle : w ≤ w')
    (h : Polled w messages) : Polled w' messages :=
  ⟨fun m hm => (h.stored m hm).mono hle, fun m hm => (h.covered m hm).mono hle⟩

def commandPre : Command → World → Prop
  | .store (.admitTask task), _ => task.status.isTerminal = false ∧ task.admitted = false
  | .store (.swapTask id previous updated), w =>
      updated = { previous with admitted := true } ∧ previous.id = id ∧
        previous.status.isTerminal = false ∧ w.Appended id
  | .store (.setTask task), w =>
      task.status.isTerminal = false ∧ (task.admitted = true → w.Appended task.id)
  | .store (.transitionDone task), _ => task.status.isTerminal = true
  | .store (.transitionFailed task), _ => task.status.isTerminal = true
  | .queue (.append task), w => w.Stored task.id
  | .queue (.storeOffset offset), w => w.Covered offset []
  | _, _ => True

/-- A reading of a record: it is there, or its task has finished if it ever was. -/
def ReadAt (id : String) (w w' : World) : Option RegisterTask → Prop
  | some task => w'.Read task ∧ task.id = id
  | none => w.Stored id → w'.Finished id

def commandPost : (c : Command) → World → Reply c → World → Prop
  | .store (.getTask id) => fun w reply w' => ∀ found, reply = some found → ReadAt id w w' found
  | .store (.admitTask task) => fun _ reply w' => ∀ id, reply = some (.new id) → w'.Stored task.id
  | .store (.swapTask _ _ updated) => fun _ reply w' => reply = some true → w'.Read updated
  | .store (.transitionDone task) => fun _ reply w' => reply = some () → w'.Finished task.id
  | .store (.transitionFailed task) => fun _ reply w' => reply = some () → w'.Finished task.id
  | .queue (.append task) => fun _ reply w' => reply = some () → w'.Appended task.id
  | .queue .poll => fun _ reply w' => ∀ messages, reply = some messages → Polled w' messages
  | _ => fun _ _ _ => True

theorem ReadAt.mono {id : String} {w₀ w w₁ w₂ : World} {found : Option RegisterTask}
    (hbefore : w₀ ≤ w) (hle : w₁ ≤ w₂) (h : ReadAt id w w₁ found) : ReadAt id w₀ w₂ found := by
  cases found with
  | none => exact fun hstored => (h (hstored.mono hbefore)).mono hle
  | some task => exact ⟨h.1.mono hle, h.2⟩

theorem commandPre.mono {c : Command} {w w' : World} (hle : w ≤ w') (h : commandPre c w) :
    commandPre c w' := by
  cases c with
  | store c =>
      cases c with
      | swapTask _ _ _ => exact ⟨h.1, h.2.1, h.2.2.1, h.2.2.2.mono hle⟩
      | setTask _ => exact ⟨h.1, fun hadmitted => (h.2 hadmitted).mono hle⟩
      | _ => exact h
  | queue c =>
      cases c with
      | append _ => exact World.Stored.mono hle h
      | storeOffset _ => exact World.Covered.mono hle h
      | _ => exact h
  | chain c => exact h

theorem commandPost.mono {c : Command} {reply : Reply c} {w₀ w w₁ w₂ : World} (hbefore : w₀ ≤ w)
    (hle : w₁ ≤ w₂) (h : commandPost c w reply w₁) : commandPost c w₀ reply w₂ := by
  cases c with
  | store c =>
      cases c with
      | getTask id => exact fun found hfound => (h found hfound).mono hbefore hle
      | admitTask task => exact fun id hid => (h id hid).mono hle
      | swapTask _ _ _ => exact fun hr => (h hr).mono hle
      | transitionDone _ => exact fun hr => (h hr).mono hle
      | transitionFailed _ => exact fun hr => (h hr).mono hle
      | _ => trivial
  | queue c =>
      cases c with
      | append _ => exact fun hr => (h hr).mono hle
      | poll => exact fun messages hm => (h messages hm).mono hle
      | _ => trivial
  | chain c => trivial

/-- The specification of the commands. -/
def commandSpec : OpSpec Command Reply World where
  pre := commandPre
  post := commandPost
  pre_mono := commandPre.mono
  post_mono := commandPost.mono

/-! ## The commands keep the invariant -/

theorem Queue.mem_next {q : Queue} {n : Nat} {task : RegisterTask} :
    (n, task) ∈ q.next ↔ q.committed ≤ n ∧ n < q.committed + pollBatchSize ∧
      q.log[n]? = some task := by
  simp only [Queue.next, List.mem_map, Prod.exists, Prod.mk.injEq,
    List.mk_mem_zipIdx_iff_le_and_getElem?_sub]
  constructor
  · rintro ⟨t, i, ⟨hle, hget⟩, rfl, rfl⟩
    rw [List.getElem?_take, List.getElem?_drop] at hget
    split at hget
    · rw [Nat.add_sub_cancel' hle] at hget
      exact ⟨hle, by omega, hget⟩
    · cases hget
  · rintro ⟨hle, hlt, hget⟩
    refine ⟨task, n, ⟨hle, ?_⟩, rfl, rfl⟩
    rw [List.getElem?_take, if_pos (by omega), List.getElem?_drop, Nat.add_sub_cancel' hle, hget]

/-- A poll returns envelopes of stored tasks, and everything before them is finished or among them.
-/
theorem Intact.polled {w : World} (h : Intact w) : Polled w w.queue.next where
  stored := by
    rintro ⟨n, task⟩ hmem
    exact h.known task (List.mem_of_getElem? (Queue.mem_next.mp hmem).2.2)
  covered := by
    rintro ⟨n, task⟩ hmem
    obtain ⟨-, hlt, hget⟩ := Queue.mem_next.mp hmem
    refine ⟨(List.getElem?_eq_some_iff.mp hget).1, ?_⟩
    intro j hj envelope henvelope
    by_cases hcommitted : j < w.queue.committed
    · exact Or.inl (h.settled j hcommitted envelope henvelope)
    · right
      have hnext : (j, envelope) ∈ w.queue.next :=
        Queue.mem_next.mpr ⟨by omega, by simp only at hj; omega, henvelope⟩
      exact List.mem_map.mpr ⟨(j, envelope), hnext, rfl⟩

/-- The effect of a store command, acknowledged or not. -/
theorem Intact.exec_store {w : World} (h : Intact w) {c : StoreCommand}
    (hpre : commandPre (.store c) w) : Intact (w.withStore (c.exec w.store).2) := by
  cases c with
  | admitTask task =>
      simp only [StoreCommand.exec]
      split
      · exact h.untouched rfl
      · refine h.write rfl ⟨rfl, (fun hexpires => by cases hexpires), fun hadmitted => ?_⟩
        cases hadmitted.symm.trans hpre.2
  | swapTask id previous updated =>
      obtain ⟨rfl, rfl, hpending, happended⟩ := hpre
      simp only [StoreCommand.exec]
      split
      · next slot hslot =>
          split
          · next hvalue =>
              refine h.write rfl ⟨rfl, fun hexpires => ?_, fun _ _ => happended⟩
              -- a pending record has no lifetime to keep
              have hterminal := h.lifetime _ slot hslot hexpires
              rw [hvalue, hpending] at hterminal
              cases hterminal
          · exact h.untouched rfl
      · exact h.untouched rfl
  | setTask task =>
      exact h.write rfl ⟨rfl, (fun hexpires => by cases hexpires),
        fun hadmitted _ => hpre.2 hadmitted⟩
  | transitionDone task =>
      refine h.write rfl ⟨rfl, fun _ => hpre, fun _ hpending => ?_⟩
      cases hpending.symm.trans hpre
  | transitionFailed task =>
      refine h.write rfl ⟨rfl, fun _ => hpre, fun _ hpending => ?_⟩
      cases hpending.symm.trans hpre
  | incr key =>
      simp only [StoreCommand.exec]
      split
      · exact h.untouched rfl
      · exact h.untouched rfl
  | pexpire key =>
      simp only [StoreCommand.exec]
      split
      · exact h.untouched rfl
      · exact h.untouched rfl
  | _ => exact h.untouched rfl

/-- The answer of an acknowledged store command. -/
theorem Intact.post_store {w : World} (h : Intact w) {c : StoreCommand}
    (hpre : commandPre (.store c) w) :
    commandPost (.store c) w (some (c.exec w.store).1) (w.withStore (c.exec w.store).2) := by
  have hle := w.le_withStore (c.exec w.store).2
  cases c with
  | getTask id =>
      intro found hfound
      cases hfound
      cases hread : w.store.task id with
      | none =>
          have hmissing : ((StoreCommand.getTask id).exec w.store).1 = none := hread
          rw [hmissing]
          exact fun hstored => (h.kept id hstored hread).mono hle
      | some task =>
          have hfound : ((StoreCommand.getTask id).exec w.store).1 = some task := hread
          rw [hfound]
          exact ⟨(h.read hread).1.mono hle, (h.read hread).2⟩
  | admitTask task =>
      intro id hid
      simp only [StoreCommand.exec] at hid ⊢
      split at hid
      · cases hid
      · exact ⟨w.store.admitTask task, List.mem_cons_self, task, w.store.task_admitTask_self task⟩
  | swapTask id previous updated =>
      obtain ⟨rfl, rfl, hpending, happended⟩ := hpre
      intro hswapped
      let updated : RegisterTask := { previous with admitted := true }
      have hafter :
          Intact (w.withStore ((StoreCommand.swapTask _ previous updated).exec w.store).2) :=
        h.exec_store ⟨rfl, rfl, hpending, happended⟩
      suffices hread :
          ((StoreCommand.swapTask _ previous updated).exec w.store).2.task previous.id =
          some updated from (hafter.read hread).1
      simp only [StoreCommand.exec] at hswapped ⊢
      split at hswapped
      · next slot hslot =>
          split at hswapped
          · next hvalue => simp [Store.task, hvalue]
          · cases hswapped
      · cases hswapped
  | transitionDone task =>
      exact fun _ => ⟨w.store.transitionDone task, List.mem_cons_self, task,
        w.store.task_transitionDone_self task, hpre⟩
  | transitionFailed task =>
      exact fun _ => ⟨w.store.transitionFailed task, List.mem_cons_self, task,
        w.store.task_transitionFailed_self task, hpre⟩
  | _ => trivial

/-- A missing acknowledgement teaches nothing. -/
theorem post_none_store (c : StoreCommand) (w w' : World) : commandPost (.store c) w none w' := by
  cases c <;> simp [commandPost]

theorem post_none_queue (c : QueueCommand) (w w' : World) : commandPost (.queue c) w none w' := by
  cases c <;> simp [commandPost]

/-- The effect of a queue command. -/
theorem Intact.exec_queue {w : World} (h : Intact w) {c : QueueCommand}
    (hpre : commandPre (.queue c) w) :
    Intact (w.withQueue (c.exec w.queue).2) ∧ w ≤ w.withQueue (c.exec w.queue).2 := by
  cases c with
  | append task =>
      have hle : w ≤ w.withQueue ((QueueCommand.append task).exec w.queue).2 :=
        ⟨List.suffix_refl _, List.prefix_append _ _⟩
      have hlog : w.queue.committed ≤ (w.queue.log ++ [task]).length :=
        le_trans h.in_log (List.prefix_append _ _).length_le
      refine ⟨⟨h.keyed, h.lifetime, h.kept, ?_, ?_, hlog, ?_⟩, hle⟩
      · intro id t ht hadmitted hpending
        exact (h.enqueued id t ht hadmitted hpending).mono hle
      · intro envelope henvelope
        rcases List.mem_append.mp henvelope with hold | hnew
        · exact (h.known envelope hold).mono hle
        · rw [List.mem_singleton.mp hnew]
          exact hpre.mono hle
      · intro j hj envelope henvelope
        have hold : w.queue.log[j]? = some envelope := by
          rw [← henvelope]
          exact (List.getElem?_append_left (lt_of_lt_of_le hj h.in_log)).symm
        exact (h.settled j hj envelope hold).mono hle
  | storeOffset offset =>
      refine ⟨⟨h.keyed, h.lifetime, h.kept, h.enqueued, h.known, hpre.in_log, ?_⟩, le_refl w⟩
      intro j hj envelope henvelope
      have hle : j ≤ offset := Nat.lt_succ_iff.mp hj
      exact (hpre.covered j hle envelope henvelope).elim (fun hfin => hfin) (by simp)
  | _ => exact ⟨h, le_refl w⟩

/-- Every command, however it goes, keeps the invariant and its specification. -/
theorem Intact.performs {c : Command} {w w' : World} {reply : Reply c} (h : Intact w)
    (hpre : commandSpec.pre c w) (hperforms : Performs c w reply w') :
    Intact w' ∧ w ≤ w' ∧ commandSpec.post c w reply w' := by
  cases hperforms with
  | store c => exact ⟨h.exec_store hpre, w.le_withStore _, h.post_store hpre⟩
  | storeFailed c => exact ⟨h, le_refl w, post_none_store c w w⟩
  | storeAckLost c => exact ⟨h.exec_store hpre, w.le_withStore _, post_none_store c w _⟩
  | queue c =>
      obtain ⟨hintact, hle⟩ := h.exec_queue hpre
      refine ⟨hintact, hle, ?_⟩
      cases c with
      | append task => exact fun _ => ⟨task, List.mem_append_right _ List.mem_cons_self, rfl⟩
      | poll =>
          intro messages hmessages
          cases hmessages
          exact h.polled
      | _ => trivial
  | queueFailed c => exact ⟨h, le_refl w, post_none_queue c w w⟩
  | queueAckLost c =>
      obtain ⟨hintact, hle⟩ := h.exec_queue hpre
      exact ⟨hintact, hle, post_none_queue c w _⟩
  | chain c => exact ⟨h, le_refl w, trivial⟩

end P256Index.Server
