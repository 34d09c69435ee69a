import P256Index.Cloudflare.Alike

/-!
# Transitions of a task in both stores

Redis follows a task's own keys and changes those that still point at it; the tables change the rows
with the task's id. The two come to the same because a row of an index lies at a key of its task and
ends with it.
-/

namespace P256Index.Cloudflare

open Registrar
open Server
  (TimedStore StoreCommand StoreFlow runAt runAt_query_bind memberKeyPlaceholders fadeAt releaseAt
  doneRecord retriedRecord exhaustedRecord failedRecord maxRetries)

variable {now : Nat} {s : TimedStore} {t : Tables}

/-! ## Records that are rewritten -/

/-- The indexes read the same of both records. -/
structure Succeeds (before after : RegisterTask) : Prop where
  id : after.id = before.id
  content : contentKeys after = contentKeys before
  keys : memberKeyPlaceholders after = memberKeyPlaceholders before

theorem find_updateTask {id k : String} {f : TaskRow → TaskRow} (hf : ∀ row, (f row).id = row.id) :
    (t.updateTask id f hf).tasks.find k =
      if k = id then (t.tasks.find id).map f else t.tasks.find k := by
  show (t.tasks.updateWhere _ f hf).find k = _
  rw [Keyed.find_updateWhere]
  split
  · next hk =>
      subst hk
      cases hrow : t.tasks.find k with
      | none => rfl
      | some row =>
          obtain ⟨-, rfl⟩ := Keyed.find_eq_some.mp hrow
          simp
  · next hk =>
      cases hrow : t.tasks.find k with
      | none => rfl
      | some row =>
          obtain ⟨-, rfl⟩ := Keyed.find_eq_some.mp hrow
          simp [hk]

/-- The task of a row that is rewritten. -/
theorem task_updateTask {id : String} {row : TaskRow} (hrow : t.tasks.find id = some row)
    {f : TaskRow → TaskRow} (hf : ∀ row, (f row).id = row.id) :
    (t.updateTask id f hf).task = Function.update t.task id (some (f row).lease) := by
  funext k
  rw [Tables.task, find_updateTask, Function.update_apply]
  split
  · rw [hrow]
    rfl
  · rfl

/-- An index stays with its tasks where one is rewritten and keeps its end and its keys. -/
theorem Owned.update {keysOf : RegisterTask → List String} {index : Keyed IndexRow.key}
    {id : String} {row : TaskRow} (h : Owned keysOf t.tasks index)
    (hrow : t.tasks.find id = some row) {f : TaskRow → TaskRow} (hf : ∀ row, (f row).id = row.id)
    (hend : (f row).expiresAt = row.expiresAt)
    (hkeys : keysOf (f row).payload = keysOf row.payload) :
    Owned keysOf (t.updateTask id f hf).tasks index := by
  intro k entry hentry
  obtain ⟨owner, howner, hexpires, hmem⟩ := h k entry hentry
  rw [find_updateTask]
  by_cases hid : entry.taskId = id
  · rw [hid, hrow] at howner
    cases howner
    rw [if_pos hid, hrow]
    exact ⟨f row, rfl, hend.trans hexpires, hkeys ▸ hmem⟩
  · rw [if_neg hid]
    exact ⟨owner, howner, hexpires, hmem⟩

theorem Alike.tasks_update {id : String} {row : TaskRow} (h : Alike now s t)
    (hrow : t.tasks.find id = some row) (f : TaskRow → TaskRow) (hf : ∀ row, (f row).id = row.id) :
    Same now (Function.update s.tasks id (some (f row).lease)) (t.updateTask id f hf).task := by
  rw [task_updateTask hrow]
  exact h.tasks.update _ _

/-- A record that is not at its end, rewritten in place. -/
theorem Alike.rewrite {id : String} {row : TaskRow} (h : Alike now s t)
    (hrow : t.tasks.find id = some row) (f : TaskRow → TaskRow) (hf : ∀ row, (f row).id = row.id)
    (hactive : ∀ row, (f row).active = row.active)
    (htime : ∀ row, (f row).createdAt = row.createdAt) :
    Alike now { s with tasks := Function.update s.tasks id (some (f row).lease) }
      (t.updateTask id f hf) := by
  refine { h with tasks := h.tasks_update hrow f hf, active := ?_, age := ?_ }
  · rw [activeRows_updateTask id hf hactive _ hf]
    exact h.active
  · rw [activeRows_updateTask id hf hactive _ fun row => by rw [hf, htime]]
    exact h.age

theorem Sound.tasks_update {id : String} {row : TaskRow} (h : Sound t)
    (hrow : t.tasks.find id = some row) (f : TaskRow → TaskRow) (hf : ∀ row, (f row).id = row.id)
    (hsound : (f row).Sound) :
    ∀ k row', (t.updateTask id f hf).tasks.find k = some row' → row'.Sound := by
  intro k row' hrow'
  rw [find_updateTask] at hrow'
  split at hrow'
  · rw [hrow] at hrow'
    cases hrow'
    exact hsound
  · exact h.tasks k row' hrow'

theorem Sound.rewrite {id : String} {row : TaskRow} (h : Sound t)
    (hrow : t.tasks.find id = some row) (f : TaskRow → TaskRow) (hf : ∀ row, (f row).id = row.id)
    (hend : (f row).expiresAt = row.expiresAt) (hsucc : Succeeds row.payload (f row).payload)
    (hsound : (f row).Sound) :
    Sound (t.updateTask id f hf) :=
  ⟨h.tasks_update hrow f hf hsound, h.content.update hrow hf hend hsucc.content,
    h.keys.update hrow hf hend hsucc.keys, h.counts⟩

/-- The record of a row carries the id it is found under. -/
theorem Sound.id_eq (h : Sound t) {id : String} {row : TaskRow}
    (hrow : t.tasks.find id = some row) :
    row.payload.id = id := (h.tasks id row hrow).payload_id.trans (Keyed.find_eq_some.mp hrow).2

/-- A record that is read and not terminal has no end. -/
theorem TaskRow.Sound.endless {row : TaskRow} (h : row.Sound)
    (hopen : row.payload.status.isTerminal = false) : row.expiresAt = none := by
  by_contra hsome
  have hterminal := h.ended (Option.isSome_iff_ne_none.mpr hsome)
  rw [hopen] at hterminal
  cases hterminal

/-- The Redis functions that begin with a read of the record go on with what the tables have. -/
theorem Alike.runAt_getTask (h : Alike now s t) {α : Type} (id : String)
    (f : Option RegisterTask → StoreFlow α) :
    runAt now (Server.getTask id >>= f) s = runAt now (f (t.getTask now id)) (s.dropAt now) := by
  rw [← h.read id]
  rfl

/-- The record of a row that is read, in Redis. -/
theorem Alike.dropAt_tasks (h : Alike now s t) {id : String} {row : TaskRow}
    (hrow : t.tasks.find id = some row) (hlive : row.lease.LiveAt now = true) :
    (s.dropAt now).tasks id = some row.lease := by
  show live now (s.tasks id) = _
  rw [h.tasks id, live_eq_some]
  exact ⟨by rw [Tables.task, hrow]; rfl, hlive⟩

/-- A swap against the record that is there succeeds and keeps its end. -/
theorem execAt_swapTask {id : String} {before : RegisterTask} {expiresAt : Option Nat}
    (h : (s.dropAt now).tasks id = some ⟨before, expiresAt⟩) (task : RegisterTask) :
    StoreCommand.execAt now (.swapTask id before task) (s.dropAt now) =
      (true, { s.dropAt now with
                 tasks := Function.update (s.dropAt now).tasks id (some ⟨task, expiresAt⟩) }) := by
  rw [StoreCommand.execAt, Server.dropAt_dropAt, StoreCommand.execTimed, h]
  exact if_pos rfl

theorem agrees_markAdmitted (h : Alike now s t) (ht : Sound t) (id : String) :
    Agrees now s t (.markAdmitted id) := by
  have hredis : (StoreFunction.markAdmitted id).redis now s = _ := h.runAt_getTask id _
  have hsqlite : (StoreFunction.markAdmitted id).sqlite now t = t.markAdmitted now id := rfl
  unfold Tables.markAdmitted at hsqlite
  cases hget : t.getTask now id with
  | none =>
      rw [hget] at hredis hsqlite
      exact .of_eq hredis hsqlite h.dropAt ht
  | some before =>
      obtain ⟨row, hrow, rfl, hlive⟩ := getTask_eq_some.mp hget
      rw [hget] at hredis hsqlite
      dsimp only at hredis hsqlite
      by_cases hterminal : row.payload.status.isTerminal = true
      · rw [if_pos hterminal] at hredis hsqlite
        exact .of_eq hredis hsqlite h.dropAt ht
      · rw [if_neg hterminal] at hredis hsqlite
        have hthere : (s.dropAt now).tasks id = some ⟨row.payload, row.expiresAt⟩ :=
          h.dropAt_tasks hrow hlive
        rw [runAt_query_bind, execAt_swapTask hthere] at hredis
        have hsound := ht.tasks id row hrow
        let admitted : TaskRow → TaskRow := fun r =>
          { r with payload := { row.payload with admitted := true }, admitted := true }
        apply Agrees.of_eq hredis hsqlite
        · exact h.dropAt.rewrite hrow admitted (fun _ => rfl) (fun _ => rfl) fun _ => rfl
        · apply ht.rewrite hrow admitted (fun _ => rfl) rfl ⟨rfl, rfl, rfl⟩
          exact ⟨hsound.payload_id, hsound.active_iff, hsound.ended, hsound.time⟩

/-! ## Tasks that end -/

section Index

variable {keysOf : RegisterTask → List String} {index : Keyed IndexRow.key} {id : String}
  {row : TaskRow}

/-- The rows of an index that point at a task that is read are at the task's own keys, and are read.
-/
theorem Owned.pointing (h : Owned keysOf t.tasks index) (hrow : t.tasks.find id = some row)
    (hlive : row.lease.LiveAt now = true) {k : String} {entry : IndexRow}
    (hentry : index.find k = some entry) (hid : entry.taskId = id) :
    k ∈ keysOf row.payload ∧ live now (some entry.lease) = some entry.lease := by
  obtain ⟨owner, howner, hexpires, hmem⟩ := h k entry hentry
  rw [hid, hrow] at howner
  cases howner
  refine ⟨hmem, live_eq_some.mpr ⟨rfl, ?_⟩⟩
  rw [Lease.LiveAt] at hlive ⊢
  show entry.expiresAt.all _ = true
  rw [← hexpires]
  exact hlive

theorem live_value_ne {entry : IndexRow} (hid : entry.taskId ≠ id) :
    (live now (some entry.lease)).map Lease.value ≠ some id := by
  intro hvalue
  obtain ⟨lease, hread, rfl⟩ := Option.map_eq_some_iff.mp hvalue
  obtain ⟨hlease, -⟩ := live_eq_some.mp hread
  cases hlease
  exact hid rfl

/-- `PEXPIRE` of the keys that point at a task is the update of the rows that do. -/
theorem Owned.fade (h : Owned keysOf t.tasks index) (hrow : t.tasks.find id = some row)
    (hlive : row.lease.LiveAt now = true) {f : String → Option (Lease String)}
    (hf : ∀ k, f k = live now ((index.find k).map IndexRow.lease)) (instant : Nat) :
    Same now ((keysOf row.payload).foldl (fadeAt instant id) f) fun k =>
      ((index.updateWhere (fun row => row.taskId = id)
        (fun row => { row with expiresAt := some instant })
        fun _ => rfl).find k).map IndexRow.lease := by
  intro k
  dsimp only
  rw [foldl_fadeAt, Keyed.find_updateWhere, hf]
  cases hentry : index.find k with
  | none => simp
  | some entry =>
      by_cases hid : entry.taskId = id
      · obtain ⟨hmem, hread⟩ := h.pointing hrow hlive hentry hid
        rw [Option.map_some, hread, if_pos ⟨hmem, congrArg some hid⟩]
        simp [hid, IndexRow.lease]
      · -- a key that points elsewhere is left as it is
        rw [Option.map_some, if_neg fun hboth => live_value_ne hid hboth.2,
          live_live (Nat.le_refl now)]
        simp [hid]

/-- `DEL` of the keys that point at a task is the deletion of the rows that do. -/
theorem Owned.release (h : Owned keysOf t.tasks index) (hrow : t.tasks.find id = some row)
    (hlive : row.lease.LiveAt now = true) {f : String → Option (Lease String)}
    (hf : ∀ k, f k = live now ((index.find k).map IndexRow.lease)) :
    Same now ((keysOf row.payload).foldl (releaseAt id) f) fun k =>
      ((index.deleteWhere fun row => row.taskId = id).find k).map IndexRow.lease := by
  intro k
  dsimp only
  rw [foldl_releaseAt, Keyed.find_deleteWhere, hf]
  cases hentry : index.find k with
  | none => simp
  | some entry =>
      by_cases hid : entry.taskId = id
      · obtain ⟨hmem, hread⟩ := h.pointing hrow hlive hentry hid
        rw [Option.map_some, hread, if_pos ⟨hmem, congrArg some hid⟩]
        simp [hid, Option.filter]
      · rw [Option.map_some, if_neg fun hboth => live_value_ne hid hboth.2,
          live_live (Nat.le_refl now)]
        simp [hid, Option.filter]

/-- The rows of an index end with their task. -/
theorem Owned.fade_owned (h : Owned keysOf t.tasks index) (hrow : t.tasks.find id = some row)
    (f : TaskRow → TaskRow) (hf : ∀ row, (f row).id = row.id) {instant : Nat}
    (hend : (f row).expiresAt = some instant)
    (hkeys : keysOf (f row).payload = keysOf row.payload) :
    Owned keysOf (t.updateTask id f hf).tasks (index.updateWhere (fun row => row.taskId = id)
      (fun row => { row with expiresAt := some instant }) fun _ => rfl) := by
  intro k entry' hentry'
  rw [Keyed.find_updateWhere] at hentry'
  obtain ⟨entry, hentry, rfl⟩ := Option.map_eq_some_iff.mp hentry'
  obtain ⟨owner, howner, hexpires, hmem⟩ := h k entry hentry
  by_cases hid : entry.taskId = id
  · rw [hid, hrow] at howner
    cases howner
    simp only [hid, decide_true, if_true, find_updateTask, hrow]
    exact ⟨f row, rfl, hend, hkeys ▸ hmem⟩
  · simp only [hid, decide_false, Bool.false_eq_true, if_false, find_updateTask]
    exact ⟨owner, howner, hexpires, hmem⟩

/-- What is left of an index when a task's rows are deleted belongs to other tasks. -/
theorem Owned.release_owned (h : Owned keysOf t.tasks index) (f : TaskRow → TaskRow)
    (hf : ∀ row, (f row).id = row.id) :
    Owned keysOf (t.updateTask id f hf).tasks (index.deleteWhere fun row => row.taskId = id) := by
  intro k entry hentry
  rw [Keyed.find_deleteWhere, Option.filter_eq_some_iff] at hentry
  have hid : entry.taskId ≠ id := by simpa using hentry.2
  obtain ⟨owner, howner, hexpires, hmem⟩ := h k entry hentry.1
  rw [find_updateTask, if_neg hid]
  exact ⟨owner, howner, hexpires, hmem⟩

end Index

/-- The lists of active tasks lose a task that ends. -/
theorem Alike.lists (h : Alike now s t) (id : String) {f : TaskRow → TaskRow}
    (hf : ∀ row, (f row).id = row.id) (hactive : ∀ row, (f row).active = false) :
    (s.active.erase id).Perm ((t.updateTask id f hf).activeRows.map TaskRow.id) ∧
      (s.age.deleteWhere fun entry => entry.1 = id).rows.Perm
        ((t.updateTask id f hf).activeRows.map fun row => (row.id, row.createdAt)) := by
  have hnodup : (t.activeRows.map TaskRow.id).Nodup :=
    t.tasks.unique.sublist (List.filter_sublist.map _)
  rw [activeRows_ended id hf hactive]
  constructor
  · have hfilter : (t.activeRows.filter fun row => row.id ≠ id).map TaskRow.id =
        (t.activeRows.map TaskRow.id).erase id := by
      rw [hnodup.erase_eq_filter, List.filter_map]
      congr 1
      apply List.filter_congr
      intro row _
      simp [bne, Function.comp, Bool.beq_eq_decide_eq]
    rw [hfilter]
    exact h.active.erase id
  · have hfilter :
        ((t.activeRows.filter fun row => row.id ≠ id).map fun row => (row.id, row.createdAt)) =
        (t.activeRows.map fun row => (row.id, row.createdAt)).filter fun entry =>
          !decide (entry.1 = id) := by
      rw [List.filter_map]
      congr 1
      apply List.filter_congr
      intro row _
      simp [Function.comp]
    rw [hfilter]
    exact h.age.filter _

/-- A task that is read and ends well. -/
theorem Alike.transitionDone {row : TaskRow} (task : RegisterTask) (h : Alike now s t)
    (ht : Sound t) (hrow : t.tasks.find task.id = some row) (hlive : row.lease.LiveAt now = true)
    (hsucc : Succeeds row.payload task) :
    Alike now ((s.dropAt now).transitionDone now task)
      (t.transitionTerminal now task taskDoneTtlMs false) := by
  let ended : TaskRow → TaskRow := fun r => Tables.TaskRow.ended r task .done (now + taskDoneTtlMs)
  have hlists := h.dropAt.lists task.id (f := ended) (fun _ => rfl) fun _ => rfl
  have hcontent := ht.content.fade hrow hlive (f := (s.dropAt now).content) (fun k => h.content k)
    (now + taskDoneTtlMs)
  have hkeys :=
    ht.keys.fade hrow hlive (f := (s.dropAt now).keys) (fun k => h.keys k) (now + taskDoneTtlMs)
  rw [← hsucc.content] at hcontent
  rw [← hsucc.keys] at hkeys
  exact ⟨h.dropAt.tasks_update hrow ended fun _ => rfl, hcontent, hkeys, h.dropAt.retries,
    h.dropAt.counters, hlists.1, hlists.2, h.dropAt.deadLetter⟩

/-- A task that is read and fails. -/
theorem Alike.transitionFailed {row : TaskRow} (task : RegisterTask) (h : Alike now s t)
    (ht : Sound t) (hrow : t.tasks.find task.id = some row) (hlive : row.lease.LiveAt now = true)
    (hsucc : Succeeds row.payload task) :
    Alike now ((s.dropAt now).transitionFailed now task)
      (t.transitionTerminal now task taskFailedTtlMs true) := by
  let ended : TaskRow → TaskRow := fun r =>
    Tables.TaskRow.ended r task .failed (now + taskFailedTtlMs)
  have hlists := h.dropAt.lists task.id (f := ended) (fun _ => rfl) fun _ => rfl
  have hcontent := ht.content.release hrow hlive (f := (s.dropAt now).content) fun k => h.content k
  have hkeys := ht.keys.release hrow hlive (f := (s.dropAt now).keys) fun k => h.keys k
  rw [← hsucc.content] at hcontent
  rw [← hsucc.keys] at hkeys
  exact ⟨h.dropAt.tasks_update hrow ended fun _ => rfl, hcontent, hkeys, h.dropAt.retries,
    h.dropAt.counters, hlists.1, hlists.2, Keyed.perm_insertOrIgnore h.deadLetter task.id⟩

theorem TaskRow.sound_ended {row : TaskRow} {task : RegisterTask} (hid : row.id = task.id)
    (hterminal : task.status.isTerminal = true) (status : TaskStatus) (instant : Nat) :
    (Tables.TaskRow.ended row task status instant).Sound :=
  ⟨hid.symm, rfl, fun _ => hterminal, fun hactive => absurd hactive Bool.false_ne_true⟩

theorem Sound.transitionDone {row : TaskRow} (task : RegisterTask) (h : Sound t)
    (hrow : t.tasks.find task.id = some row) (hsucc : Succeeds row.payload task)
    (hterminal : task.status.isTerminal = true) :
    Sound (t.transitionTerminal now task taskDoneTtlMs false) := by
  let ended : TaskRow → TaskRow := fun r => Tables.TaskRow.ended r task .done (now + taskDoneTtlMs)
  have hsound : (ended row).Sound :=
    TaskRow.sound_ended (Keyed.find_eq_some.mp hrow).2 hterminal _ _
  exact ⟨h.tasks_update hrow ended (fun _ => rfl) hsound,
    h.content.fade_owned hrow ended (fun _ => rfl) rfl hsucc.content,
    h.keys.fade_owned hrow ended (fun _ => rfl) rfl hsucc.keys, h.counts⟩

theorem Sound.transitionFailed {row : TaskRow} (task : RegisterTask) (h : Sound t)
    (hrow : t.tasks.find task.id = some row) (hterminal : task.status.isTerminal = true) :
    Sound (t.transitionTerminal now task taskFailedTtlMs true) := by
  let ended : TaskRow → TaskRow := fun r =>
    Tables.TaskRow.ended r task .failed (now + taskFailedTtlMs)
  have hsound : (ended row).Sound :=
    TaskRow.sound_ended (Keyed.find_eq_some.mp hrow).2 hterminal _ _
  exact ⟨h.tasks_update hrow ended (fun _ => rfl) hsound,
    h.content.release_owned ended fun _ => rfl, h.keys.release_owned ended fun _ => rfl, h.counts⟩

/-! ## The functions that end a task -/

theorem agrees_markDone (h : Alike now s t) (ht : Sound t) (id : String) (txHash : Option String)
    (onChainId : Option UInt64) : Agrees now s t (.markDone id txHash onChainId) := by
  have hredis : (StoreFunction.markDone id txHash onChainId).redis now s = _ := h.runAt_getTask id _
  have hsqlite : (StoreFunction.markDone id txHash onChainId).sqlite now t =
    t.markDone now id txHash onChainId := rfl
  unfold Tables.markDone at hsqlite
  cases hget : t.getTask now id with
  | none =>
      rw [hget] at hredis hsqlite
      exact .of_eq hredis hsqlite h.dropAt ht
  | some task =>
      obtain ⟨row, hrow, rfl, hlive⟩ := getTask_eq_some.mp hget
      rw [hget] at hredis hsqlite
      obtain rfl := ht.id_eq hrow
      let done := doneRecord row.payload txHash onChainId
      have hsucc : Succeeds row.payload done := ⟨rfl, rfl, rfl⟩
      exact .of_eq hredis hsqlite (h.dropAt.transitionDone done ht hrow hlive hsucc)
        (ht.transitionDone done hrow hsucc rfl)

theorem agrees_markFailed (h : Alike now s t) (ht : Sound t) (id failureClass message : String) :
    Agrees now s t (.markFailed id failureClass message) := by
  have hredis : (StoreFunction.markFailed id failureClass message).redis now s = _ :=
    h.runAt_getTask id _
  have hsqlite : (StoreFunction.markFailed id failureClass message).sqlite now t =
    t.markFailed now id failureClass message := rfl
  unfold Tables.markFailed at hsqlite
  cases hget : t.getTask now id with
  | none =>
      rw [hget] at hredis hsqlite
      exact .of_eq hredis hsqlite h.dropAt ht
  | some task =>
      obtain ⟨row, hrow, rfl, hlive⟩ := getTask_eq_some.mp hget
      rw [hget] at hredis hsqlite
      obtain rfl := ht.id_eq hrow
      let failed := failedRecord row.payload failureClass message
      exact .of_eq hredis hsqlite (h.dropAt.transitionFailed failed ht hrow hlive ⟨rfl, rfl, rfl⟩)
        (ht.transitionFailed failed hrow rfl)

theorem agrees_recordTransientFailure (h : Alike now s t) (ht : Sound t) (id message : String) :
    Agrees now s t (.recordTransientFailure id message) := by
  have hredis : (StoreFunction.recordTransientFailure id message).redis now s = _ :=
    h.runAt_getTask id _
  have hsqlite : (StoreFunction.recordTransientFailure id message).sqlite now t =
    t.recordTransientFailure now id message := rfl
  unfold Tables.recordTransientFailure at hsqlite
  cases hget : t.getTask now id with
  | none =>
      rw [hget] at hredis hsqlite
      exact .of_eq hredis hsqlite h.dropAt ht
  | some task =>
      obtain ⟨row, hrow, rfl, hlive⟩ := getTask_eq_some.mp hget
      rw [hget] at hredis hsqlite
      obtain rfl := ht.id_eq hrow
      dsimp only at hredis hsqlite
      by_cases hterminal : row.payload.status.isTerminal = true
      · rw [if_pos hterminal] at hredis hsqlite
        exact .of_eq hredis hsqlite h.dropAt ht
      · rw [if_neg hterminal] at hredis hsqlite
        by_cases hretries : maxRetries ≤ (retriedRecord row.payload message).retries
        · rw [if_pos hretries] at hredis hsqlite
          let failed := exhaustedRecord (retriedRecord row.payload message)
          exact .of_eq hredis hsqlite
            (h.dropAt.transitionFailed failed ht hrow hlive ⟨rfl, rfl, rfl⟩)
            (ht.transitionFailed failed hrow rfl)
        · rw [if_neg hretries] at hredis hsqlite
          have hsound := ht.tasks _ row hrow
          -- `SET` without a lifetime: the record had none
          have hendless := hsound.endless (Bool.eq_false_iff.mpr hterminal)
          let retried : TaskRow → TaskRow := fun r =>
            { r with payload := retriedRecord row.payload message }
          apply Agrees.of_eq hredis hsqlite
          · have halike :=
              h.dropAt.dropAt.rewrite hrow retried (fun _ => rfl) (fun _ => rfl) fun _ => rfl
            have hlease : (retried row).lease = ⟨retriedRecord row.payload message, none⟩ := by
              rw [← hendless]
              rfl
            rw [hlease] at halike
            exact halike
          · apply ht.rewrite hrow retried (fun _ => rfl) rfl ⟨rfl, rfl, rfl⟩
            exact ⟨hsound.payload_id, hsound.active_iff, hsound.ended, hsound.time⟩

end P256Index.Cloudflare
