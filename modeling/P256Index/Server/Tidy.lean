import P256Index.Server.World

/-!
# The indexes of the store

A task's record, the active set, the age index, the dead-letter set and the content index are five
keys that have to tell one story. `Store.Tidy` is that story. It survives an admission under a fresh
id, a change to a pending record that leaves its content alone, the two terminal transitions of a
pending record, and the disappearance of keys with a lifetime.
-/

namespace P256Index.Server

open Registrar

/-- The task has a record and it is pending. -/
def Store.Pending (s : Store) (id : String) : Prop :=
  ∃ task, s.task id = some task ∧ task.status.isTerminal = false

structure Store.Tidy (s : Store) : Prop where
  /-- A record lies under its own id. -/
  keyed : ∀ id task, s.task id = some task → task.id = id
  active_nodup : s.active.Nodup
  /-- The active set and the age index hold the pending tasks. -/
  active : ∀ id, id ∈ s.active ↔ s.Pending id
  age : ∀ id, (s.age id).isSome = true ↔ s.Pending id
  dead : ∀ id task, s.task id = some task → task.status = .failed → id ∈ s.deadLetter
  /-- Exactly the terminal records have a lifetime. -/
  lifetime : ∀ id slot, s.tasks id = some slot → slot.expires = slot.value.status.isTerminal
  /-- A pending task holds its content hash, and without a lifetime. -/
  content : ∀ id task, s.task id = some task → task.status.isTerminal = false →
    s.content (toAsciiLowercase task.contentHash) = some ⟨id, false⟩

variable {s s' : Store} {task : RegisterTask} {id : String}

theorem Store.task_of_update {slot : Slot RegisterTask} (id' : String)
    (hs : s'.tasks = Function.update s.tasks id (some slot)) :
    s'.task id' = if id' = id then some slot.value else s.task id' := by
  by_cases hid : id' = id <;> simp [Store.task, hs, Function.update, hid]

theorem Store.pending_congr (hs : s'.tasks = s.tasks) (id : String) :
    s'.Pending id ↔ s.Pending id := by
  simp only [Store.Pending, Store.task, hs]

/-- One record is replaced: what is pending now. -/
theorem Store.pending_of_update {slot : Slot RegisterTask} (id' : String)
    (hs : s'.tasks = Function.update s.tasks id (some slot)) :
    s'.Pending id' ↔ if id' = id then slot.value.status.isTerminal = false else s.Pending id' := by
  unfold Store.Pending
  rw [Store.task_of_update id' hs]
  split <;> simp

namespace Store.Tidy

theorem empty : Store.empty.Tidy where
  keyed _ _ h := by cases h
  active_nodup := List.nodup_nil
  active id := by simp [Store.empty, Store.Pending, Store.task]
  age id := by simp [Store.empty, Store.Pending, Store.task]
  dead _ _ h := by cases h
  lifetime _ _ h := by cases h
  content _ _ h := by cases h

/-- The counters and the retry markers belong to no task. -/
theorem untouched (h : s.Tidy) (htasks : s'.tasks = s.tasks) (hactive : s'.active = s.active)
    (hage : s'.age = s.age) (hdead : s'.deadLetter = s.deadLetter)
    (hcontent : s'.content = s.content) :
    s'.Tidy := by
  have htask : s'.task = s.task := by funext id; simp [Store.task, htasks]
  constructor
  · rw [htask]; exact h.keyed
  · rw [hactive]; exact h.active_nodup
  · intro id
    rw [hactive, Store.pending_congr htasks]
    exact h.active id
  · intro id
    rw [hage, Store.pending_congr htasks]
    exact h.age id
  · rw [htask, hdead]; exact h.dead
  · rw [htasks]; exact h.lifetime
  · rw [htask, hcontent]; exact h.content

/-- Two pending tasks never share a content hash. -/
theorem unique (h : s.Tidy) {id' : String} {task' : RegisterTask} (htask : s.task id = some task)
    (hpending : task.status.isTerminal = false) (htask' : s.task id' = some task')
    (hpending' : task'.status.isTerminal = false)
    (hsame : toAsciiLowercase task.contentHash = toAsciiLowercase task'.contentHash) :
    id = id' := by
  have hslot := h.content id task htask hpending
  rw [hsame, h.content id' task' htask' hpending'] at hslot
  exact (congrArg Slot.value (Option.some.inj hslot)).symm

/-- One record is written. What is left to show is how the indexes follow. -/
theorem of_update (h : s.Tidy) {slot : Slot RegisterTask}
    (htasks : s'.tasks = Function.update s.tasks slot.value.id (some slot))
    (hlifetime : slot.expires = slot.value.status.isTerminal) (hnodup : s'.active.Nodup)
    (hactive : ∀ id, id ∈ s'.active ↔ s'.Pending id)
    (hage : ∀ id, (s'.age id).isSome = true ↔ s'.Pending id)
    (hgrow : s.deadLetter ⊆ s'.deadLetter)
    (hdead : slot.value.status = .failed → slot.value.id ∈ s'.deadLetter)
    (hown : slot.value.status.isTerminal = false →
      s'.content (toAsciiLowercase slot.value.contentHash) = some ⟨slot.value.id, false⟩)
    (hothers : ∀ key id, id ≠ slot.value.id → s.content key = some ⟨id, false⟩ →
      s'.content key = some ⟨id, false⟩) : s'.Tidy := by
  have htask := fun id => Store.task_of_update id htasks
  refine ⟨?_, hnodup, hactive, hage, ?_, ?_, ?_⟩
  · intro id task ht
    rw [htask] at ht
    split at ht
    · next hid =>
        cases ht
        exact hid.symm
    · exact h.keyed id task ht
  · intro id task ht hfailed
    rw [htask] at ht
    split at ht
    · next hid =>
        cases ht
        rw [hid]
        exact hdead hfailed
    · exact hgrow (h.dead id task ht hfailed)
  · intro id slot' hslot
    rw [htasks] at hslot
    by_cases hid : id = slot.value.id
    · rw [hid, Function.update_self] at hslot
      cases hslot
      exact hlifetime
    · rw [Function.update_of_ne hid] at hslot
      exact h.lifetime id slot' hslot
  · intro id task ht hpending
    rw [htask] at ht
    split at ht
    · next hid =>
        cases ht
        rw [hid]
        exact hown hpending
    · next hid => exact hothers _ id hid (h.content id task ht hpending)

theorem admitTask (h : s.Tidy) (hpending : task.status.isTerminal = false)
    (hfree : s.content (toAsciiLowercase task.contentHash) = none) : (s.admitTask task).Tidy := by
  let slot : Slot RegisterTask := ⟨task, false⟩
  have htasks : (s.admitTask task).tasks = Function.update s.tasks slot.value.id (some slot) := rfl
  have hpend : ∀ id, (s.admitTask task).Pending id ↔
      if id = task.id then task.status.isTerminal = false else s.Pending id :=
    fun id => Store.pending_of_update id htasks
  refine h.of_update htasks hpending.symm h.active_nodup.insert ?_ ?_
    (List.Subset.refl _) ?_ ?_ ?_
  · intro id
    rw [hpend]
    show id ∈ s.active.insert task.id ↔ _
    rw [List.mem_insert_iff, h.active]
    split
    · next hid => simp [hid, hpending]
    · next hid => simp [hid]
  · intro id
    rw [hpend]
    show (Function.update s.age task.id (some task.createdAt) id).isSome = true ↔ _
    split
    · next hid => simp [hid, hpending]
    · next hid =>
        rw [Function.update_of_ne hid]
        exact h.age id
  · intro hfailed
    change task.status = .failed at hfailed
    rw [hfailed] at hpending
    cases hpending
  · intro _
    exact Function.update_self ..
  · intro key id _ hslot
    show Function.update s.content (toAsciiLowercase task.contentHash) _ key = _
    -- the hash was free, so it is not held by another task
    rw [Function.update_of_ne ?_, hslot]
    intro heq
    rw [heq, hfree] at hslot
    cases hslot

/-- A pending record is rewritten, still pending and with the same content hash. -/
theorem rewrite (h : s.Tidy) {old : RegisterTask} (hold : s.task task.id = some old)
    (hpending : old.status.isTerminal = false) (hstill : task.status.isTerminal = false)
    (hhash : task.contentHash = old.contentHash) :
    { s with tasks := Function.update s.tasks task.id (some ⟨task, false⟩) : Store }.Tidy := by
  let slot : Slot RegisterTask := ⟨task, false⟩
  let s' : Store := { s with tasks := Function.update s.tasks task.id (some slot) }
  have htasks : s'.tasks = Function.update s.tasks slot.value.id (some slot) := rfl
  have hpend : ∀ id, s'.Pending id ↔ s.Pending id := by
    intro id
    rw [Store.pending_of_update id htasks]
    split
    · next hid =>
        rw [hid]
        exact iff_of_true hstill ⟨old, hold, hpending⟩
    · rfl
  refine h.of_update htasks hstill.symm h.active_nodup ?_ ?_
    (List.Subset.refl _) ?_ ?_ ?_
  · exact fun id => (h.active id).trans (hpend id).symm
  · exact fun id => (h.age id).trans (hpend id).symm
  · intro hfailed
    change task.status = .failed at hfailed
    rw [hfailed] at hstill
    cases hstill
  · intro _
    have hslot := h.content _ old hold hpending
    rwa [← hhash] at hslot
  · intro key id _ hslot
    exact hslot

/-- A record becomes terminal and leaves the indexes of the pending ones; the content keys of the
others are left alone. -/
theorem finish (h : s.Tidy) (hterminal : task.status.isTerminal = true)
    (htasks : s'.tasks = Function.update s.tasks task.id (some ⟨task, true⟩))
    (hactive : s'.active = s.active.erase task.id)
    (hage : s'.age = Function.update s.age task.id none) (hgrow : s.deadLetter ⊆ s'.deadLetter)
    (hdead : task.status = .failed → task.id ∈ s'.deadLetter)
    (hothers : ∀ key id, id ≠ task.id → s.content key = some ⟨id, false⟩ →
      s'.content key = some ⟨id, false⟩) :
    s'.Tidy := by
  have hpend : ∀ id, s'.Pending id ↔ id ≠ task.id ∧ s.Pending id := by
    intro id
    rw [Store.pending_of_update id htasks]
    split
    · next hid => simp [hid, hterminal]
    · next hid => simp [hid]
  let slot : Slot RegisterTask := ⟨task, true⟩
  have hslot : s'.tasks = Function.update s.tasks slot.value.id (some slot) := htasks
  refine h.of_update hslot hterminal.symm ?_ ?_ ?_ hgrow hdead ?_ hothers
  · rw [hactive]
    exact h.active_nodup.erase _
  · intro id
    rw [hactive, h.active_nodup.mem_erase_iff, hpend, h.active]
  · intro id
    rw [hage, hpend]
    by_cases hid : id = task.id
    · simp [hid]
    · rw [Function.update_of_ne hid, h.age]
      simp [hid]
  · intro hpending
    cases hpending.symm.trans hterminal

/-- A key that points at another task is neither given a lifetime nor deleted. -/
theorem fade_of_ne {index : String → Option (Slot String)} {key key' : String} {slot : Slot String}
    (hslot : index key' = some slot) (hne : slot.value ≠ id) :
    fade id index key key' = some slot := by
  unfold fade
  split
  · next hid =>
      by_cases hkey : key' = key
      · rw [← hkey, hslot] at hid
        exact absurd (Option.some.inj hid) hne
      · rw [Function.update_of_ne hkey, hslot]
  · exact hslot

theorem release_of_ne {index : String → Option (Slot String)} {key key' : String}
    {slot : Slot String} (hslot : index key' = some slot) (hne : slot.value ≠ id) :
    release id index key key' = some slot := by
  unfold release
  split
  · next hid =>
      by_cases hkey : key' = key
      · rw [← hkey, hslot] at hid
        exact absurd (Option.some.inj hid) hne
      · rw [Function.update_of_ne hkey, hslot]
  · exact hslot

theorem transitionDone (h : s.Tidy) (hdone : task.status = .done) :
    (s.transitionDone task).Tidy := by
  have hterminal : task.status.isTerminal = true := by rw [hdone]; rfl
  refine h.finish hterminal rfl rfl rfl (List.Subset.refl _) ?_ ?_
  · intro hfailed
    cases hdone.symm.trans hfailed
  · intro key id hne hslot
    exact fade_of_ne hslot hne

theorem transitionFailed (h : s.Tidy) (hfailed : task.status = .failed) :
    (s.transitionFailed task).Tidy := by
  have hterminal : task.status.isTerminal = true := by rw [hfailed]; rfl
  refine h.finish hterminal rfl rfl rfl ?_ ?_ ?_
  · intro id hid
    exact List.mem_insert_of_mem hid
  · intro _
    exact List.mem_insert_self
  · intro key id hne hslot
    exact release_of_ne hslot hne

/-- Only terminal records and the keys they left behind vanish. -/
theorem expires (h : s.Tidy) (hexpires : s.Expires s') : s'.Tidy := by
  cases hexpires with
  | @task id task hslot =>
      have hterminal : task.status.isTerminal = true := (h.lifetime id _ hslot).symm
      let s' : Store := { s with tasks := Function.update s.tasks id none }
      have hgone : s'.task id = none := by simp [s', Store.task]
      have hrest : ∀ id', id' ≠ id → s'.task id' = s.task id' := by
        intro id' hid
        simp [s', Store.task, Function.update_of_ne hid]
      have hsub : ∀ id' t, s'.task id' = some t → s.task id' = some t := by
        intro id' t ht
        by_cases hid : id' = id
        · rw [hid, hgone] at ht
          cases ht
        · rwa [hrest id' hid] at ht
      have hpend : ∀ id', s'.Pending id' ↔ s.Pending id' := by
        intro id'
        constructor
        · rintro ⟨t, ht, hp⟩
          exact ⟨t, hsub id' t ht, hp⟩
        · rintro ⟨t, ht, hp⟩
          refine ⟨t, ?_, hp⟩
          rw [hrest id' ?_, ht]
          -- the record that vanished was not pending
          intro hid
          rw [hid, Store.task, hslot] at ht
          cases ht
          cases hp.symm.trans hterminal
      show s'.Tidy
      refine ⟨fun id' t ht => h.keyed id' t (hsub id' t ht), h.active_nodup,
        fun id' => (h.active id').trans (hpend id').symm,
        fun id' => (h.age id').trans (hpend id').symm, fun id' t ht => h.dead id' t (hsub id' t ht),
        ?_, fun id' t ht => h.content id' t (hsub id' t ht)⟩
      intro id' slot hslot'
      change Function.update s.tasks id none id' = _ at hslot'
      by_cases hid : id' = id
      · rw [hid, Function.update_self] at hslot'
        cases hslot'
      · rw [Function.update_of_ne hid] at hslot'
        exact h.lifetime id' slot hslot'
  | @content key id hslot =>
      refine ⟨h.keyed, h.active_nodup, h.active, h.age, h.dead, h.lifetime, ?_⟩
      intro id' t ht hpending
      have hheld := h.content id' t ht hpending
      show Function.update s.content key none _ = _
      -- a pending task's key has no lifetime, so it is not the one that vanished
      rw [Function.update_of_ne ?_, hheld]
      intro hkey
      rw [hkey, hslot] at hheld
      cases hheld
  | key _ => exact h.untouched rfl rfl rfl rfl rfl
  | retry _ => exact h.untouched rfl rfl rfl rfl rfl
  | counter _ => exact h.untouched rfl rfl rfl rfl rfl

end Store.Tidy

end P256Index.Server
