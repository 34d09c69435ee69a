import P256Index.Registrar.Agreement
import P256Index.Server.Healthy
import P256Index.Server.Tidy

/-!
# The shared placeholders

A public key has one placeholder, whoever names it: the first task to name a free key claims it, and
whichever task holds it takes it along when it ends. A pending task is found under its keys only as
long as their placeholders lead to a task that will do in its place. `Watch` says which keys of a
task are looked up and which holders will do, and `Watch.served_iff` which steps of the store leave
every pending task served.
-/

namespace P256Index.Server

open Registrar

/-! ## Whole operations -/

/-- The task the placeholder of a key leads to. -/
def Store.holder (s : Store) (key : String) : Option RegisterTask :=
  ((s.keys key).map Slot.value).bind s.task

theorem runStore_findByPublicKey (publicKey : String) (s : Store) :
    runStore (findByPublicKey publicKey) s = (.ok (s.holder (toAsciiLowercase publicKey)), s) := by
  unfold findByPublicKey
  rw [runStore_query_bind]
  simp only [StoreCommand.exec, Store.holder]
  cases s.keys (toAsciiLowercase publicKey) with
  | none => rfl
  | some slot => rfl

/-- A whole operation on the store, or a key whose lifetime is over. -/
inductive StoreEvent where
  | admits (task : RegisterTask)
  | marksAdmitted (id : String)
  | marksDone (id : String) (txHash : Option String) (onChainId : Option UInt64)
  | retries (id message : String)
  | marksFailed (id failureClass message : String)
  | recordVanishes (id : String)
  | keyVanishes (key : String)
  | otherVanishes

/-- One event. A new task is pending, and no placeholder leads to its id yet. -/
inductive StoreEvent.Step (s : Store) : StoreEvent → Store → Prop
  | admits (task : RegisterTask) : task.status = .pending →
      (∀ key, (s.keys key).map Slot.value ≠ some task.id) →
        Step s (.admits task) (runStore (admitTask task) s).2
  | marksAdmitted (id : String) : Step s (.marksAdmitted id) (runStore (markAdmitted id) s).2
  | marksDone (id : String) (txHash : Option String) (onChainId : Option UInt64) :
      Step s (.marksDone id txHash onChainId) (runStore (markDone id txHash onChainId) s).2
  | retries (id message : String) :
      Step s (.retries id message) (runStore (recordTransientFailure id message) s).2
  | marksFailed (id failureClass message : String) :
      Step s (.marksFailed id failureClass message)
        (runStore (markFailed id failureClass message) s).2
  | recordVanishes (id : String) (task : RegisterTask) : s.tasks id = some ⟨task, true⟩ →
      Step s (.recordVanishes id) { s with tasks := Function.update s.tasks id none }
  | keyVanishes (key id : String) : s.keys key = some ⟨id, true⟩ →
      Step s (.keyVanishes key) { s with keys := Function.update s.keys key none }
  | otherVanishes (s' : Store) : s.Expires s' → s'.tasks = s.tasks → s'.keys = s.keys →
      Step s .otherVanishes s'

/-- Reachable by events that are all allowed. -/
def Store.Reaches (allowed : StoreEvent → Store → Prop) : Store → Store → Prop :=
  Relation.ReflTransGen fun s s' => ∃ e, allowed e s ∧ StoreEvent.Step s e s'

variable {s s' : Store} {id : String} {task : RegisterTask}

theorem runStore_admitTask (task : RegisterTask) (s : Store) :
    (runStore (admitTask task) s).2 =
      if (s.content (toAsciiLowercase task.contentHash)).isNone then s.admitTask task else s := by
  have hquery : runStore (query (.admitTask task)) s =
      (.ok (StoreCommand.exec (.admitTask task) s).1, (StoreCommand.exec (.admitTask task) s).2) :=
    rfl
  rw [admitTask, hquery]
  simp only [StoreCommand.exec]
  cases s.content (toAsciiLowercase task.contentHash) with
  | none => rfl
  | some slot => rfl

/-- A pending record is written anew under its id, still pending. -/
def Store.rewrite (s : Store) (id : String) (slot : Slot RegisterTask) : Store :=
  { s with tasks := Function.update s.tasks id (some slot) }

theorem runStore_markAdmitted (id : String) (s : Store) :
    (runStore (markAdmitted id) s).2 = s ∨ ∃ slot, s.tasks id = some slot ∧
      slot.value.status.isTerminal = false ∧
        (runStore (markAdmitted id) s).2 =
          s.rewrite id ⟨{ slot.value with admitted := true }, slot.expires⟩ := by
  unfold markAdmitted getTask
  rw [runStore_query_bind]
  simp only [StoreCommand.exec, Store.task]
  cases hslot : s.tasks id with
  | none => exact .inl rfl
  | some slot =>
      by_cases hterminal : slot.value.status.isTerminal = true
      · simp only [Option.map_some, if_pos hterminal]
        exact .inl rfl
      · simp only [Option.map_some, if_neg hterminal]
        refine .inr ⟨slot, rfl, by simpa using hterminal, ?_⟩
        rw [runStore_query_bind]
        simp only [StoreCommand.exec, hslot, if_pos]
        rfl

/-- Events keep the indexes in step, also those that strike a task twice. -/
theorem StoreEvent.Step.tidy {e : StoreEvent} (h : s.Tidy) (hstep : StoreEvent.Step s e s') :
    s'.Tidy := by
  cases hstep with
  | admits task hpending _ =>
      rw [runStore_admitTask]
      split
      · next hfree =>
          exact h.admitTask (TaskStatus.isTerminal_eq_false.mpr hpending)
            (Option.isNone_iff_eq_none.mp hfree)
      · exact h
  | marksAdmitted id =>
      rcases runStore_markAdmitted id s with hsame | ⟨slot, hslot, hpending, hafter⟩
      · rw [hsame]
        exact h
      · have hold : s.task id = some slot.value := by simp [Store.task, hslot]
        have hlife : slot.expires = false := (h.lifetime id slot hslot).trans hpending
        obtain rfl := h.keyed id _ hold
        rw [hafter, hlife]
        exact @Store.Tidy.rewrite s { slot.value with admitted := true } h slot.value hold hpending
          hpending rfl
  | marksDone id txHash onChainId =>
      rw [runStore_markDone]
      split
      · exact h
      · exact h.transitionDone rfl
  | retries id message =>
      rw [(runStore_recordTransientFailure s id message).1, Store.retried]
      split
      · exact h
      · next task htask =>
          obtain rfl := h.keyed id task htask
          split
          · exact h
          · next hterminal =>
              split
              · exact h.transitionFailed rfl
              · have hpending : task.status.isTerminal = false := by simpa using hterminal
                exact @Store.Tidy.rewrite s (retriedRecord task message) h task htask
                  hpending hpending rfl
  | marksFailed id failureClass message =>
      rw [runStore_markFailed]
      split
      · exact h
      · exact h.transitionFailed rfl
  | recordVanishes id task hslot => exact h.expires (.task hslot)
  | keyVanishes key id hslot => exact h.expires (.key hslot)
  | otherVanishes s' hexpires _ _ => exact h.expires hexpires

/-! ## One placeholder for all -/

section Placeholders

variable {index : String → Option (Slot String)}

/-- A key that is held stays with its holder; a free one goes to the task that names it. -/
theorem claim_foldl (keys : List String) (key : String) :
    keys.foldl (claim id) index key =
      (index key).or (if key ∈ keys then some ⟨id, false⟩ else none) := by
  induction keys generalizing index with
  | nil => simp
  | cons first keys ih =>
      rw [List.foldl_cons, ih]
      unfold claim
      by_cases hkey : key = first
      · subst hkey
        cases hslot : index key with
        | none => simp
        | some slot => simp [hslot]
      · split
        · simp [hkey]
        · simp [hkey]

/-- A placeholder that is given a lifetime still leads where it led. -/
theorem fade_foldl (keys : List String) (key : String) :
    (keys.foldl (fade id) index key).map Slot.value = (index key).map Slot.value := by
  induction keys generalizing index with
  | nil => rfl
  | cons first keys ih =>
      rw [List.foldl_cons, ih]
      unfold fade
      split
      · next hheld =>
          by_cases hkey : key = first
          · rw [hkey, Function.update_self, hheld]
            rfl
          · rw [Function.update_of_ne hkey]
      · rfl

/-- A task that fails gives up its placeholders. -/
theorem release_foldl (keys : List String) (key : String) :
    (keys.foldl (release id) index key).map Slot.value =
      if key ∈ keys ∧ (index key).map Slot.value = some id then none
        else (index key).map Slot.value := by
  induction keys generalizing index with
  | nil => simp
  | cons first keys ih =>
      rw [List.foldl_cons, ih]
      unfold release
      by_cases hkey : key = first
      · subst hkey
        split_ifs <;> simp_all
      · split_ifs <;> simp_all [Function.update_of_ne]

end Placeholders

theorem Store.keys_admitTask (s : Store) (task : RegisterTask) (key : String) :
    (s.admitTask task).keys key = (s.keys key).or
      (if key ∈ memberKeyPlaceholders task then some ⟨task.id, false⟩ else none) :=
  claim_foldl (memberKeyPlaceholders task) key

/-- A placeholder leads where it led, or to the new task. -/
theorem held_of_admitTask {key : String}
    (h : ((runStore (admitTask task) s).2.keys key).map Slot.value = some id) :
    (s.keys key).map Slot.value = some id ∨ id = task.id := by
  rw [runStore_admitTask] at h
  split at h
  · rw [Store.keys_admitTask] at h
    cases hslot : s.keys key with
    | some slot =>
        rw [hslot] at h
        exact .inl h
    | none =>
        rw [hslot, Option.none_or] at h
        split at h
        · exact .inr (Option.some.inj h).symm
        · cases h
  · exact .inl h

/-! ## Watches -/

/-- Two records of one task: what a task is about does not change while it is worked on. -/
structure SameUnit (task task' : RegisterTask) : Prop where
  id : task'.id = task.id
  kind : task'.kind = task.kind
  members : task'.members = task.members
  groupPublicKey : task'.groupPublicKey = task.groupPublicKey

theorem SameUnit.refl (task : RegisterTask) : SameUnit task task := ⟨rfl, rfl, rfl, rfl⟩

/-- Which keys of a pending task are looked up, and which task found there will do. -/
structure Watch where
  keys : RegisterTask → List String
  serves : RegisterTask → RegisterTask → Prop
  named : ∀ task, keys task ⊆ memberKeyPlaceholders task
  own : ∀ task, ∀ key ∈ keys task, task.status = .pending → serves task task
  failed : ∀ task holder, serves task holder → holder.status ≠ .failed
  keys_congr : ∀ task task', SameUnit task task' → keys task' = keys task
  serves_congr : ∀ task task' holder holder', SameUnit task task' → SameUnit holder holder' →
    holder'.status = holder.status → serves task holder → serves task' holder'

namespace Watch

variable (W : Watch)

/-- Every pending task finds a task that will do under each of its keys. -/
def Served (s : Store) : Prop :=
  ∀ id task, s.task id = some task → task.status = .pending → ∀ key ∈ W.keys task,
    ∃ holder, s.holder key = some holder ∧ W.serves task holder

/-- Another pending task is found under one of its keys only through this one. -/
def LeansOn (s : Store) (id : String) (task : RegisterTask) : Prop :=
  ∃ id', id' ≠ id ∧ s.task id' = some task ∧ task.status = .pending ∧
    ∃ key ∈ W.keys task, (s.keys key).map Slot.value = some id

/-- A new task finds its keys free or well held, and what ends or vanishes is not what another
pending task is found through. -/
def Careful : StoreEvent → Store → Prop
  | .admits task, s => s.content (toAsciiLowercase task.contentHash) = none → ∀ key ∈ W.keys task,
      s.keys key = none ∨ ∃ holder, s.holder key = some holder ∧ W.serves task holder
  | .marksAdmitted _, _ => True
  | .marksDone id txHash onChainId, s => ∀ old, s.task id = some old →
      ∀ task, W.LeansOn s id task → W.serves task (doneRecord old txHash onChainId)
  | .retries id message, s => ∀ old, s.task id = some old → old.status = .pending →
      maxRetries ≤ (retriedRecord old message).retries → ∀ task, ¬ W.LeansOn s id task
  | .marksFailed id _ _, s => ∀ old, s.task id = some old → ∀ task, ¬ W.LeansOn s id task
  | .recordVanishes id, s => ∀ task, ¬ W.LeansOn s id task
  | .keyVanishes key, s =>
      ∀ id task, s.task id = some task → task.status = .pending → key ∉ W.keys task
  | .otherVanishes, _ => True

variable {W}

/-! ## What each kind of step does to a watch -/

theorem served_congr (htasks : s'.tasks = s.tasks) (hkeys : s'.keys = s.keys) :
    W.Served s' ↔ W.Served s := by
  have htask : s'.task = s.task := by
    funext id
    simp only [Store.task, htasks]
  simp only [Served, Store.holder, htask, hkeys]

/-- A step that concerns one task leaves the keys that lead elsewhere alone. -/
theorem holder_of_ne {key : String} (hothers : ∀ id', id' ≠ id → s'.task id' = s.task id')
    (hkey : (s'.keys key).map Slot.value = (s.keys key).map Slot.value)
    (hne : (s.keys key).map Slot.value ≠ some id) : s'.holder key = s.holder key := by
  unfold Store.holder
  rw [hkey]
  cases hheld : (s.keys key).map Slot.value with
  | none => rfl
  | some held =>
      have hneq : held ≠ id := fun heq => hne (hheld.trans (congrArg some heq))
      exact hothers held hneq

theorem holder_of_eq {key : String} (hkey : (s.keys key).map Slot.value = some id) :
    s.holder key = s.task id := by
  unfold Store.holder
  rw [hkey]
  rfl

theorem task_others {slot : Slot RegisterTask}
    (htasks : s'.tasks = Function.update s.tasks id (some slot)) :
    ∀ id', id' ≠ id → s'.task id' = s.task id' := by
  intro id' hne
  rw [Store.task_of_update id' htasks, if_neg hne]

theorem task_self {slot : Slot RegisterTask}
    (htasks : s'.tasks = Function.update s.tasks id (some slot)) :
    s'.task id = some slot.value := by
  rw [Store.task_of_update id htasks, if_pos rfl]

theorem served_admitTask (h : W.Served s) (hpending : task.status = .pending)
    (hfree : ∀ key, (s.keys key).map Slot.value ≠ some task.id) :
    W.Served (s.admitTask task) ↔ ∀ key ∈ W.keys task,
      s.keys key = none ∨ ∃ holder, s.holder key = some holder ∧ W.serves task holder := by
  have hkeys := s.keys_admitTask task
  have htasks : (s.admitTask task).tasks =
      Function.update s.tasks task.id (some ⟨task, false⟩) := rfl
  have hheld : ∀ key slot, s.keys key = some slot →
      (s.admitTask task).holder key = s.holder key := by
    intro key slot hslot
    refine holder_of_ne (task_others htasks) ?_ (hfree key)
    rw [hkeys, hslot]
    rfl
  constructor
  · intro hserved key hkey
    cases hslot : s.keys key with
    | none => exact .inl rfl
    | some slot =>
        rw [← hheld key slot hslot]
        exact .inr (hserved task.id task (task_self htasks) hpending key hkey)
  · intro hcond id' t ht hp key hkey
    by_cases hid : id' = task.id
    · rw [hid, task_self htasks] at ht
      cases ht
      cases hslot : s.keys key with
      | none =>
          have hclaimed : ((s.admitTask task).keys key).map Slot.value = some task.id := by
            rw [hkeys, hslot, if_pos (W.named task hkey)]
            rfl
          exact ⟨task, (holder_of_eq hclaimed).trans (task_self htasks), W.own task key hkey hp⟩
      | some slot =>
          rw [hheld key slot hslot]
          exact (hcond key hkey).resolve_left (by simp [hslot])
    · rw [task_others htasks id' hid] at ht
      obtain ⟨holder, hholder, hserves⟩ := h id' t ht hp key hkey
      cases hslot : s.keys key with
      | none => simp [Store.holder, hslot] at hholder
      | some slot => exact ⟨holder, (hheld key slot hslot).trans hholder, hserves⟩

/-- A record is written anew with another flag, error or count. -/
theorem served_rewrite (h : W.Served s) {old : RegisterTask} {slot : Slot RegisterTask}
    (hold : s.task id = some old) (hsame : SameUnit old slot.value)
    (hstatus : slot.value.status = old.status) : W.Served (s.rewrite id slot) := by
  have htasks : (s.rewrite id slot).tasks = Function.update s.tasks id (some slot) := rfl
  have hholder : ∀ key holder, s.holder key = some holder → ∃ holder',
      (s.rewrite id slot).holder key = some holder' ∧ SameUnit holder holder' ∧
        holder'.status = holder.status := by
    intro key holder hkey
    by_cases hheld : (s.keys key).map Slot.value = some id
    · have hheld' : ((s.rewrite id slot).keys key).map Slot.value = some id := hheld
      rw [holder_of_eq hheld, hold] at hkey
      cases hkey
      exact ⟨slot.value, (holder_of_eq hheld').trans (task_self htasks), hsame, hstatus⟩
    · exact ⟨holder, (holder_of_ne (task_others htasks) rfl hheld).trans hkey, .refl holder, rfl⟩
  intro id' t ht hp key hkey
  -- the record of the task at hand, as it was before
  obtain ⟨t₀, ht₀, hsame₀, hp₀⟩ : ∃ t₀, s.task id' = some t₀ ∧ SameUnit t₀ t ∧
      t₀.status = .pending := by
    by_cases hid : id' = id
    · rw [hid, task_self htasks] at ht
      cases ht
      exact ⟨old, hid ▸ hold, hsame, hstatus ▸ hp⟩
    · rw [task_others htasks id' hid] at ht
      exact ⟨t, ht, .refl t, hp⟩
  rw [W.keys_congr t₀ t hsame₀] at hkey
  obtain ⟨holder, hfound, hserves⟩ := h id' t₀ ht₀ hp₀ key hkey
  obtain ⟨holder', hfound', hsame', hstatus'⟩ := hholder key holder hfound
  exact ⟨holder', hfound', W.serves_congr t₀ t holder holder' hsame₀ hsame' hstatus' hserves⟩

/-- A task is no longer pending: what counts is who was found through it. -/
theorem served_end (h : W.Served s) (hothers : ∀ id', id' ≠ id → s'.task id' = s.task id')
    (hended : ∀ t, s'.task id = some t → t.status ≠ .pending)
    (hkeys : ∀ key, (s.keys key).map Slot.value ≠ some id →
      (s'.keys key).map Slot.value = (s.keys key).map Slot.value) :
    W.Served s' ↔ ∀ id', id' ≠ id → ∀ t, s.task id' = some t → t.status = .pending →
      ∀ key ∈ W.keys t, (s.keys key).map Slot.value = some id →
        ∃ holder, s'.holder key = some holder ∧ W.serves t holder := by
  constructor
  · intro hserved id' hne t ht hp key hkey _
    rw [← hothers id' hne] at ht
    exact hserved id' t ht hp key hkey
  · intro hleaning id' t ht hp key hkey
    have hne : id' ≠ id := by
      intro hid
      rw [hid] at ht
      exact hended t ht hp
    rw [hothers id' hne] at ht
    by_cases hheld : (s.keys key).map Slot.value = some id
    · exact hleaning id' hne t ht hp key hkey hheld
    · rw [holder_of_ne hothers (hkeys key hheld) hheld]
      exact h id' t ht hp key hkey

theorem served_transitionDone (h : W.Served s) (hdone : task.status = .done) :
    W.Served (s.transitionDone task) ↔ ∀ t, W.LeansOn s task.id t → W.serves t task := by
  have htasks : (s.transitionDone task).tasks =
      Function.update s.tasks task.id (some ⟨task, true⟩) := rfl
  have hkeys : ∀ key, ((s.transitionDone task).keys key).map Slot.value =
      (s.keys key).map Slot.value :=
    fade_foldl (memberKeyPlaceholders task)
  have hended : ∀ t, (s.transitionDone task).task task.id = some t → t.status ≠ .pending := by
    intro t ht
    rw [task_self htasks] at ht
    cases ht
    simp [hdone]
  have hholder : ∀ key, (s.keys key).map Slot.value = some task.id →
      (s.transitionDone task).holder key = some task := by
    intro key hheld
    exact (holder_of_eq ((hkeys key).trans hheld)).trans (task_self htasks)
  rw [served_end h (task_others htasks) hended fun key _ => hkeys key]
  constructor
  · intro hserved t ⟨id', hne, ht, hp, key, hkey, hheld⟩
    obtain ⟨holder, hfound, hserves⟩ := hserved id' hne t ht hp key hkey hheld
    rw [hholder key hheld] at hfound
    cases hfound
    exact hserves
  · intro hleaning id' hne t ht hp key hkey hheld
    exact ⟨task, hholder key hheld, hleaning t ⟨id', hne, ht, hp, key, hkey, hheld⟩⟩

/-- Nobody is served through a task that failed or is gone. -/
theorem served_lost (h : W.Served s) (hothers : ∀ id', id' ≠ id → s'.task id' = s.task id')
    (hlost : ∀ t, s'.task id = some t → t.status = .failed)
    (hkeys : ∀ key, (s'.keys key).map Slot.value = (s.keys key).map Slot.value ∨
      (s.keys key).map Slot.value = some id ∧ (s'.keys key).map Slot.value = none) :
    W.Served s' ↔ ∀ t, ¬ W.LeansOn s id t := by
  have hended : ∀ t, s'.task id = some t → t.status ≠ .pending := by
    intro t ht
    simp [hlost t ht]
  rw [served_end h hothers hended fun key hne => (hkeys key).resolve_right fun hheld => hne hheld.1]
  constructor
  · intro hserved t ⟨id', hne, ht, hp, key, hkey, hheld⟩
    obtain ⟨holder, hfound, hserves⟩ := hserved id' hne t ht hp key hkey hheld
    rcases hkeys key with hsame | ⟨-, hnone⟩
    · rw [holder_of_eq (hsame.trans hheld)] at hfound
      exact W.failed t holder hserves (hlost holder hfound)
    · rw [Store.holder, hnone] at hfound
      cases hfound
  · intro hnobody id' hne t ht hp key hkey hheld
    exact absurd ⟨id', hne, ht, hp, key, hkey, hheld⟩ (hnobody t)

theorem served_transitionFailed (h : W.Served s) (hfailed : task.status = .failed) :
    W.Served (s.transitionFailed task) ↔ ∀ t, ¬ W.LeansOn s task.id t := by
  have htasks : (s.transitionFailed task).tasks =
      Function.update s.tasks task.id (some ⟨task, true⟩) := rfl
  refine served_lost h (task_others htasks) ?_ ?_
  · intro t ht
    rw [task_self htasks] at ht
    cases ht
    exact hfailed
  · intro key
    have hkey : ((s.transitionFailed task).keys key).map Slot.value =
        if key ∈ memberKeyPlaceholders task ∧ (s.keys key).map Slot.value = some task.id then none
        else (s.keys key).map Slot.value :=
      release_foldl (memberKeyPlaceholders task) key
    rw [hkey]
    split
    · next hheld => exact .inr ⟨hheld.2, rfl⟩
    · exact .inl rfl

theorem served_recordVanishes (h : W.Served s) (id : String) :
    W.Served { s with tasks := Function.update s.tasks id none } ↔ ∀ t, ¬ W.LeansOn s id t := by
  refine served_lost h ?_ ?_ fun key => .inl rfl
  · intro id' hne
    simp [Store.task, Function.update_of_ne hne]
  · intro t ht
    simp [Store.task] at ht

theorem served_keyVanishes (h : W.Served s) (key : String) :
    W.Served { s with keys := Function.update s.keys key none } ↔
      ∀ id task, s.task id = some task → task.status = .pending → key ∉ W.keys task := by
  constructor
  · intro hserved id task htask hp hkey
    obtain ⟨holder, hfound, -⟩ := hserved id task htask hp key hkey
    simp [Store.holder] at hfound
  · intro hunnamed id task htask hp key' hkey'
    have hne : key' ≠ key := fun heq => hunnamed id task htask hp (heq ▸ hkey')
    obtain ⟨holder, hfound, hserves⟩ := h id task htask hp key' hkey'
    refine ⟨holder, ?_, hserves⟩
    rw [← hfound]
    simp only [Store.holder, Function.update_of_ne hne]
    rfl

theorem forall_stored {P : RegisterTask → Prop} (h : s.task id = some task) :
    (∀ old, s.task id = some old → P old) ↔ P task := by
  simp [h]

theorem forall_absent {P : RegisterTask → Prop} (h : s.task id = none) :
    ∀ old, s.task id = some old → P old := by
  simp [h]

/-- From a state in which every pending task is served, exactly the careful steps lead to another.
-/
theorem served_iff {e : StoreEvent} (hkeyed : ∀ id task, s.task id = some task → task.id = id)
    (h : W.Served s) (hstep : StoreEvent.Step s e s') : W.Served s' ↔ W.Careful e s := by
  cases hstep with
  | admits task hpending hfree =>
      rw [runStore_admitTask]
      unfold Careful
      split
      · next hnone =>
          rw [served_admitTask h hpending hfree]
          exact ⟨fun hcond _ => hcond, fun hcond => hcond (Option.isNone_iff_eq_none.mp hnone)⟩
      · next hsome =>
          refine iff_of_true h fun hnone => ?_
          rw [hnone] at hsome
          exact absurd rfl hsome
  | marksAdmitted id =>
      refine iff_of_true ?_ trivial
      rcases runStore_markAdmitted id s with hsame | ⟨slot, hslot, -, hafter⟩
      · rw [hsame]
        exact h
      · rw [hafter]
        have hold : s.task id = some slot.value := by simp [Store.task, hslot]
        exact served_rewrite h hold ⟨rfl, rfl, rfl, rfl⟩ rfl
  | marksDone id txHash onChainId =>
      rw [runStore_markDone]
      cases htask : s.task id with
      | none => exact iff_of_true h (forall_absent htask)
      | some old =>
          refine Iff.trans ?_ (forall_stored htask).symm
          have hdone :=
            served_transitionDone h (show (doneRecord old txHash onChainId).status = .done from rfl)
          rwa [show (doneRecord old txHash onChainId).id = id from hkeyed id old htask] at hdone
  | retries id message =>
      rw [(runStore_recordTransientFailure s id message).1, Store.retried]
      cases htask : s.task id with
      | none => exact iff_of_true h (forall_absent htask)
      | some old =>
          obtain rfl := hkeyed id old htask
          refine Iff.trans ?_ (forall_stored htask).symm
          simp only
          split
          · next hterminal =>
              refine iff_of_true h fun hpending => ?_
              rw [hpending] at hterminal
              cases hterminal
          · next hterminal =>
              have hpending : old.status = .pending :=
                TaskStatus.isTerminal_eq_false.mp (by simpa using hterminal)
              split
              · next hspent =>
                  have hfailed := served_transitionFailed h
                    (show (exhaustedRecord (retriedRecord old message)).status = .failed from rfl)
                  exact hfailed.trans ⟨fun hnobody _ _ => hnobody,
                    fun hcond => hcond hpending hspent⟩
              · next hleft =>
                  refine iff_of_true ?_ fun _ hspent => absurd hspent hleft
                  exact served_rewrite h htask ⟨rfl, rfl, rfl, rfl⟩ rfl
  | marksFailed id failureClass message =>
      rw [runStore_markFailed]
      cases htask : s.task id with
      | none => exact iff_of_true h (forall_absent htask)
      | some old =>
          refine Iff.trans ?_ (forall_stored htask).symm
          have hfailed := served_transitionFailed h
            (show (failedRecord old failureClass message).status = .failed from rfl)
          rwa [show (failedRecord old failureClass message).id = id from hkeyed id old htask]
            at hfailed
  | recordVanishes id task _ => exact served_recordVanishes h id
  | keyVanishes key _ _ => exact served_keyVanishes h key
  | otherVanishes s' _ htasks hkeys => exact iff_of_true ((served_congr htasks hkeys).mpr h) trivial

/-- Along careful steps every pending task is served. -/
theorem served_of_reaches (h : Store.Reaches W.Careful Store.empty s) : s.Tidy ∧ W.Served s := by
  induction h with
  | refl => exact ⟨.empty, fun _ _ hnone => by cases hnone⟩
  | tail _ hstep ih =>
      obtain ⟨e, hcareful, hstep⟩ := hstep
      exact ⟨hstep.tidy ih.1, (served_iff ih.1.keyed ih.2 hstep).mpr hcareful⟩

end Watch

/-! ## A task that fails behind another -/

section Receding

variable {W : Watch} {first second : RegisterTask}

theorem admits_empty (hpending : task.status = .pending) :
    StoreEvent.Step Store.empty (.admits task) (runStore (admitTask task) Store.empty).2 := by
  refine .admits task hpending fun key hheld => ?_
  cases hheld

theorem admits_behind (hid : first.id ≠ second.id) (hpending : second.status = .pending) :
    StoreEvent.Step (runStore (admitTask first) Store.empty).2 (.admits second)
      (runStore (admitTask second) (runStore (admitTask first) Store.empty).2).2 := by
  refine .admits second hpending fun key hheld => ?_
  rcases held_of_admitTask hheld with hbefore | hnew
  · cases hbefore
  · exact hid hnew.symm

theorem admitTask_both
    (hhash : toAsciiLowercase second.contentHash ≠ toAsciiLowercase first.contentHash) :
    (runStore (admitTask second) (runStore (admitTask first) Store.empty).2).2 =
      (Store.empty.admitTask first).admitTask second := by
  have hnew : (runStore (admitTask first) Store.empty).2 = Store.empty.admitTask first := by
    rw [runStore_admitTask]
    rfl
  have hfree : (Store.empty.admitTask first).content (toAsciiLowercase second.contentHash) = none :=
    Function.update_of_ne hhash _ _
  rw [hnew, runStore_admitTask, hfree, if_pos Option.isNone_none]

/-- Two tasks are admitted, and the second one fails. -/
def recede (first second : RegisterTask) : Store :=
  (runStore (markFailed second.id "POISON" "register transaction reverted")
    (runStore (admitTask second) (runStore (admitTask first) Store.empty).2).2).2

/-- The first task holds all its keys, so it does not lean on the second. -/
theorem leansOn_both (hid : first.id ≠ second.id) (task : RegisterTask) :
    ¬ W.LeansOn ((Store.empty.admitTask first).admitTask second) second.id task := by
  intro ⟨id', hne, hstored, _, key, hkey, hheld⟩
  rw [Watch.task_others rfl id' hne] at hstored
  obtain rfl : id' = first.id := by
    by_contra hother
    rw [Watch.task_others rfl id' hother] at hstored
    cases hstored
  rw [Store.task_admitTask_self] at hstored
  cases hstored
  rw [Store.keys_admitTask, Store.keys_admitTask, if_pos (W.named first hkey)] at hheld
  exact hid (Option.some.inj hheld)

theorem recede_eq
    (hhash : toAsciiLowercase second.contentHash ≠ toAsciiLowercase first.contentHash) :
    recede first second = ((Store.empty.admitTask first).admitTask second).transitionFailed
      (failedRecord second "POISON" "register transaction reverted") := by
  rw [recede, admitTask_both hhash, runStore_markFailed, Store.task_admitTask_self]

theorem recede_second
    (hhash : toAsciiLowercase second.contentHash ≠ toAsciiLowercase first.contentHash) :
    (recede first second).task second.id =
      some (failedRecord second "POISON" "register transaction reverted") := by
  rw [recede_eq hhash]
  exact Store.task_transitionFailed_self _ _

variable (hid : first.id ≠ second.id)
  (hhash : toAsciiLowercase second.contentHash ≠ toAsciiLowercase first.contentHash)

include hid hhash

/-- The second task is admitted with care if the first serves it under the keys they share. -/
theorem recede_reached (hfirst : first.status = .pending) (hsecond : second.status = .pending)
    (hserves : ∀ key ∈ W.keys second, key ∈ memberKeyPlaceholders first → W.serves second first) :
    Store.Reaches W.Careful Store.empty (recede first second) := by
  refine .tail (.tail (.single ⟨.admits first, fun _ _ _ => .inl rfl, admits_empty hfirst⟩)
    ⟨.admits second, ?_, admits_behind hid hsecond⟩)
    ⟨.marksFailed second.id _ _, ?_, .marksFailed ..⟩
  · intro _ key hkey
    rw [runStore_admitTask, if_pos (by rfl), Store.keys_admitTask]
    by_cases hshared : key ∈ memberKeyPlaceholders first
    · have hheld : ((Store.empty.admitTask first).keys key).map Slot.value = some first.id := by
        rw [Store.keys_admitTask, if_pos hshared]
        rfl
      refine .inr ⟨first, ?_, hserves key hkey hshared⟩
      rw [Watch.holder_of_eq hheld, Store.task_admitTask_self]
    · rw [if_neg hshared]
      exact .inl rfl
  · intro _ _ task
    rw [admitTask_both hhash]
    exact leansOn_both hid task

theorem recede_first : (recede first second).task first.id = some first := by
  have hne : first.id ≠ (failedRecord second "POISON" "register transaction reverted").id := hid
  rw [recede_eq hhash, Store.task_transitionFailed, if_neg hne, Watch.task_others rfl first.id hid]
  exact Store.task_admitTask_self _ _

end Receding

/-! ## Visibility before the chain -/

/-- Any task that has not failed will do, under every key that is named. -/
def visibility : Watch where
  keys := memberKeyPlaceholders
  serves _ holder := holder.status ≠ .failed
  named _ := List.Subset.refl _
  own task _ _ hpending := by simp [hpending]
  failed _ _ h := h
  keys_congr task task' h := by simp [memberKeyPlaceholders, h.members, h.groupPublicKey]
  serves_congr _ _ _ _ _ _ hstatus h := hstatus ▸ h

/-- A lookup of any key a pending task names finds a task that has not failed. -/
def Store.Visible (s : Store) : Prop :=
  ∀ id task, s.task id = some task → task.status = .pending →
    ∀ publicKey ∈ task.members.map Member.publicKey ++ [task.groupPublicKey],
      ∃ found, (runStore (findByPublicKey publicKey) s).1 = .ok (some found) ∧
        found.status ≠ .failed

theorem Store.visible_iff_served : s.Visible ↔ visibility.Served s := by
  have hkeys : ∀ task : RegisterTask, memberKeyPlaceholders task =
      (task.members.map Member.publicKey ++ [task.groupPublicKey]).map toAsciiLowercase := by
    intro task
    simp [memberKeyPlaceholders]
  have hlookup : ∀ publicKey found, (runStore (findByPublicKey publicKey) s).1 = .ok (some found) ↔
      s.holder (toAsciiLowercase publicKey) = some found := by
    intro publicKey found
    rw [runStore_findByPublicKey]
    simp
  simp only [Store.Visible, Watch.Served, visibility, hkeys, hlookup, List.forall_mem_map]

/-- Along careful steps every key of a pending task finds a task that has not failed, and a step out
of such a run keeps it so exactly if it is careful. -/
theorem visible_iff_careful (h : Store.Reaches visibility.Careful Store.empty s) :
    s.Visible ∧ ∀ e s', StoreEvent.Step s e s' → (s'.Visible ↔ visibility.Careful e s) := by
  obtain ⟨htidy, hserved⟩ := Watch.served_of_reaches h
  refine ⟨Store.visible_iff_served.mpr hserved, fun e s' hstep => ?_⟩
  rw [Store.visible_iff_served]
  exact Watch.served_iff htidy.keyed hserved hstep

open Registrar.Sample (registerTask referTask)

theorem registerTask_id_ne : (registerTask "group").id ≠ (referTask "device").id := by
  show "group" ≠ "device"
  decide

theorem registerTask_hash_ne : toAsciiLowercase (registerTask "group").contentHash ≠
    toAsciiLowercase (referTask "device").contentHash := by
  decide +kernel

theorem groupKey_named : toAsciiLowercase (registerTask "group").groupPublicKey ∈
    memberKeyPlaceholders (referTask "device") :=
  List.mem_append_right _ List.mem_cons_self

/-- The group of the recorded history is on its way, and its device, which names the group's key
too, was admitted behind it and failed. -/
theorem visible_iff_careful_group : ∃ s, Store.Reaches visibility.Careful Store.empty s ∧
    s.Pending "group" ∧ s.Visible ∧ ∃ device,
      s.task "device" = some device ∧ device.status = .failed ∧
      toAsciiLowercase (registerTask "group").groupPublicKey ∈ memberKeyPlaceholders device := by
  have hid := registerTask_id_ne
  have hhash := registerTask_hash_ne.symm
  have hreach : Store.Reaches visibility.Careful Store.empty
      (recede (registerTask "group") (referTask "device")) :=
    recede_reached hid hhash rfl rfl fun _ _ _ => nofun
  exact ⟨_, hreach, ⟨registerTask "group", recede_first hid hhash, rfl⟩,
    (visible_iff_careful hreach).1, _, recede_second hhash, rfl, groupKey_named⟩

/-! ## A task that is left without its placeholder -/

section Stranded

variable {first second : RegisterTask}

/-- Two tasks are admitted, and the first one fails. -/
def strand (first second : RegisterTask) : Store :=
  (runStore (markFailed first.id "POISON" "register transaction reverted")
    (runStore (admitTask second) (runStore (admitTask first) Store.empty).2).2).2

theorem strand_reached (hfirst : first.status = .pending) (hsecond : second.status = .pending)
    (hid : first.id ≠ second.id) :
    Store.Reaches (fun _ _ => True) Store.empty (strand first second) :=
  .tail (.tail (.single ⟨_, trivial, admits_empty hfirst⟩)
    ⟨_, trivial, admits_behind hid hsecond⟩) ⟨_, trivial, .marksFailed first.id _ _⟩

variable (hid : first.id ≠ second.id)
  (hhash : toAsciiLowercase second.contentHash ≠ toAsciiLowercase first.contentHash)

include hid hhash

/-- Both admissions were new, so the first task failed with the second one stored. -/
theorem strand_eq : strand first second =
    ((Store.empty.admitTask first).admitTask second).transitionFailed
      (failedRecord first "POISON" "register transaction reverted") := by
  have hstored : ((Store.empty.admitTask first).admitTask second).task first.id = some first := by
    rw [Watch.task_others rfl first.id hid]
    exact Store.task_admitTask_self _ _
  rw [strand, admitTask_both hhash, runStore_markFailed, hstored]

theorem strand_task : (strand first second).task second.id = some second := by
  have hne : second.id ≠ (failedRecord first "POISON" "register transaction reverted").id :=
    hid.symm
  rw [strand_eq hid hhash, Store.task_transitionFailed, if_neg hne]
  exact Store.task_admitTask_self _ _

/-- A key both tasks name belonged to the first, and is free now. -/
theorem strand_holder {key : String} (hfirst : key ∈ memberKeyPlaceholders first) :
    (strand first second).holder key = none := by
  have hheld : (((Store.empty.admitTask first).admitTask second).keys key).map Slot.value =
      some first.id := by
    rw [Store.keys_admitTask, Store.keys_admitTask, if_pos hfirst]
    rfl
  have hgone : ((strand first second).keys key).map Slot.value = none := by
    rw [strand_eq hid hhash]
    exact (release_foldl (memberKeyPlaceholders first) key).trans (if_pos ⟨hfirst, hheld⟩)
  rw [Store.holder, hgone]
  rfl

/-- Its content hash is free again, too. -/
theorem strand_content :
    (strand first second).content (toAsciiLowercase first.contentHash) = none := by
  have hheld : ((Store.empty.admitTask first).admitTask second).content
      (toAsciiLowercase first.contentHash) = some ⟨first.id, false⟩ := by
    show Function.update _ (toAsciiLowercase second.contentHash) _ _ = _
    rw [Function.update_of_ne hhash.symm]
    exact Function.update_self ..
  rw [strand_eq hid hhash]
  show release first.id _ (toAsciiLowercase first.contentHash) _ = _
  rw [release, hheld, Option.map_some, if_pos rfl]
  exact Function.update_self ..

end Stranded

/-- A device refers to the group while the chain cannot be read, and claims the group's key; the
group is admitted; the device's task fails and takes the placeholder along. -/
theorem group_invisible : ∃ s, Store.Reaches (fun _ _ => True) Store.empty s ∧
    s.task "group" = some (registerTask "group") ∧ (registerTask "group").status = .pending ∧
      (runStore (findByPublicKey (registerTask "group").groupPublicKey) s).1 = .ok none := by
  have hid := registerTask_id_ne.symm
  refine ⟨strand (referTask "device") (registerTask "group"), strand_reached rfl rfl hid,
    strand_task hid registerTask_hash_ne, rfl, ?_⟩
  rw [runStore_findByPublicKey, strand_holder hid registerTask_hash_ne groupKey_named]

end P256Index.Server
