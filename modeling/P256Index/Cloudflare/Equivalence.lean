import P256Index.Cloudflare.Transitions

/-!
# Two stores, one behaviour

Runs of both stores side by side. They answer alike as long as no row that has ended stands in the
way of an insert: a placeholder row that waits to be purged makes `INSERT OR IGNORE` pass over the
new claim, which Redis takes.
-/

namespace P256Index.Cloudflare

open Registrar
open Server (TimedStore StoreCommand runAt QueueStats memberKeyPlaceholders claimAt)

variable {now : Nat} {s : TimedStore} {t : Tables}

/-! ## Admission -/

/-- An index row that is read leads to its task. -/
theorem Owned.read {keysOf : RegisterTask → List String} {index : Keyed IndexRow.key}
    (h : Owned keysOf t.tasks index) (ht : Sound t) {k : String} {lease : Lease String}
    (hlease : live now ((index.find k).map IndexRow.lease) = some lease) :
    ∃ task, t.getTask now lease.value = some task ∧ task.id = lease.value := by
  obtain ⟨hmap, hlive⟩ := live_eq_some.mp hlease
  obtain ⟨entry, hentry, rfl⟩ := Option.map_eq_some_iff.mp hmap
  obtain ⟨owner, howner, hexpires, -⟩ := h k entry hentry
  refine ⟨owner.payload, getTask_eq_some.mpr ⟨owner, howner, rfl, ?_⟩, ht.id_eq howner⟩
  rw [Lease.LiveAt] at hlive ⊢
  show owner.expiresAt.all _ = true
  rw [hexpires]
  exact hlive

/-- A task whose content nothing is found under is new to both stores, and the task that is found
otherwise is the same. -/
theorem Alike.admitTask_existing (h : Alike now s t) (ht : Sound t) {task : RegisterTask}
    {lease : Lease String}
    (hlease : live now (t.content (toAsciiLowercase task.contentHash)) = some lease) :
    Agrees now s t (.admitTask task) := by
  have hredis : (StoreFunction.admitTask task).redis now s =
      (.ok (.existing lease.value), s.dropAt now) := by
    have hcontent : (s.dropAt now).content (toAsciiLowercase task.contentHash) = some lease :=
      (h.content _).trans hlease
    show (Except.ok (outcomeOf (StoreCommand.execAt now (.admitTask task) s).1),
      (StoreCommand.execAt now (.admitTask task) s).2) = _
    rw [StoreCommand.execAt, StoreCommand.execTimed, hcontent]
    rfl
  obtain ⟨owner, howner, hid⟩ := ht.content.read ht hlease
  have hsqlite : (StoreFunction.admitTask task).sqlite now t = (.existing lease.value, t) := by
    show t.admitTask now task = _
    have hfound : t.findByContent now task.contentHash = some owner := by
      rw [Tables.findByContent, findByIndex_eq, hlease]
      exact howner
    rw [Tables.admitTask, hfound, ← hid]
  exact .of_eq hredis hsqlite h.dropAt ht

/-- Where nothing is found, both stores take the task in. -/
theorem Alike.admitTask_new (h : Alike now s t) {task : RegisterTask}
    (hnone : live now (t.content (toAsciiLowercase task.contentHash)) = none) :
    (StoreFunction.admitTask task).redis now s = (.ok .new, (s.dropAt now).admitTask task) ∧
      (StoreFunction.admitTask task).sqlite now t = (.new, t.insertTask task) := by
  constructor
  · have hcontent : (s.dropAt now).content (toAsciiLowercase task.contentHash) = none :=
      (h.content _).trans hnone
    show (Except.ok (outcomeOf (StoreCommand.execAt now (.admitTask task) s).1),
      (StoreCommand.execAt now (.admitTask task) s).2) = _
    rw [StoreCommand.execAt, StoreCommand.execTimed, hcontent]
    rfl
  · show t.admitTask now task = _
    rw [Tables.admitTask, Tables.findByContent, findByIndex_eq, hnone]
    rfl

/-- A task that may be admitted: no row of its keys has ended and still waits for the purge, and it
carries a reading of the clock. -/
structure Timely (now : Nat) (t : Tables) (task : RegisterTask) : Prop where
  keys : ∀ k ∈ memberKeyPlaceholders task, live now (t.key k) = t.key k
  time : 0 ≤ task.createdAt

/-- The new row of a task. -/
def pendingRow (task : RegisterTask) : TaskRow :=
  { id := task.id, payload := task, status := .pending, admitted := false
    contentHash := toAsciiLowercase task.contentHash, createdAt := task.createdAt, active := true
    expiresAt := none }

theorem activeRows_insertTask {task : RegisterTask} (hfresh : t.tasks.find task.id = none) :
    (t.insertTask task).activeRows = t.activeRows ++ [pendingRow task] := by
  show (t.tasks.insertOrReplace (pendingRow task)).rows.filter TaskRow.active = _
  rw [Keyed.rows_insertOrReplace hfresh, List.filter_append]
  rfl

theorem find_insertTask {task : RegisterTask} (k : String) : (t.insertTask task).tasks.find k =
    if k = task.id then some (pendingRow task) else t.tasks.find k :=
      Keyed.find_insertOrReplace _ _ _

/-- An id without a row is not among the active ones. -/
theorem Alike.absent (h : Alike now s t) {id : String} (hfresh : t.tasks.find id = none) :
    id ∉ s.active ∧ s.age.find id = none := by
  have hrows : ∀ row ∈ t.activeRows, row.id ≠ id := fun row hrow =>
    Keyed.find_eq_none.mp hfresh row (List.mem_of_mem_filter hrow)
  constructor
  · intro hmem
    obtain ⟨row, hrow, hid⟩ := List.mem_map.mp (h.active.mem_iff.mp hmem)
    exact hrows row hrow hid
  · apply Keyed.find_eq_none.mpr
    intro entry hentry hid
    obtain ⟨row, hrow, rfl⟩ := List.mem_map.mp (h.age.mem_iff.mp hentry)
    exact hrows row hrow hid

theorem Alike.insertTask (h : Alike now s t) {task : RegisterTask}
    (hfresh : t.tasks.find task.id = none)
    (hkeys : ∀ k ∈ memberKeyPlaceholders task, live now (t.key k) = t.key k) :
    Alike now ((s.dropAt now).admitTask task) (t.insertTask task) := by
  obtain ⟨hactive, hage⟩ := h.absent hfresh
  refine ⟨?_, ?_, ?_, h.dropAt.retries, h.dropAt.counters, ?_, ?_, h.deadLetter⟩
  · have htask : (t.insertTask task).task = Function.update t.task task.id (some ⟨task, none⟩) := by
      funext k
      rw [Tables.task, find_insertTask, Function.update_apply]
      split <;> rfl
    rw [htask]
    exact h.dropAt.tasks.update _ _
  · have hcontent : (t.insertTask task).content =
        Function.update t.content (toAsciiLowercase task.contentHash) (some ⟨task.id, none⟩) := by
      funext k
      simp only [Tables.content, Tables.insertTask, Keyed.find_insertOrReplace,
        Function.update_apply]
      split <;> rfl
    rw [hcontent]
    exact h.dropAt.content.update _ _
  · intro k
    show live now ((memberKeyPlaceholders task).foldl (claimAt task.id) (s.dropAt now).keys k) =
      live now (((memberKeyPlaceholders task).foldl
        (fun table key => table.insertOrIgnore ⟨key, task.id, none⟩)
        t.keyPlaceholders).find k |>.map IndexRow.lease)
    rw [foldl_claimAt, find_foldl_insertOrIgnore]
    have hread : (s.dropAt now).keys k = live now (t.key k) := h.keys k
    -- the two inserts look at the same key as long as none has ended
    by_cases hmem : k ∈ memberKeyPlaceholders task
    · rw [hread, hkeys k hmem]
      cases hentry : t.keyPlaceholders.find k with
      | none => simp [Tables.key, hentry, hmem, IndexRow.lease]
      | some entry => simp [Tables.key, hentry]
    · rw [if_neg fun hboth => hmem hboth.1, if_neg fun hboth => hmem hboth.1, hread,
        live_live (Nat.le_refl now)]
      rfl
  · rw [activeRows_insertTask hfresh, List.map_append]
    show (s.active.insert task.id).Perm _
    rw [List.insert_of_not_mem hactive]
    exact (h.active.cons _).trans (List.perm_append_singleton _ _).symm
  · rw [activeRows_insertTask hfresh, List.map_append]
    show (s.age.insertOrReplace (task.id, task.createdAt)).rows.Perm _
    rw [Keyed.rows_insertOrReplace hage]
    exact h.age.append_right _

theorem Sound.insertTask (h : Sound t) {task : RegisterTask} (hfresh : t.tasks.find task.id = none)
    (htime : 0 ≤ task.createdAt) : Sound (t.insertTask task) := by
  -- a row that belonged to a task still does
  have hother : ∀ {keysOf : RegisterTask → List String} {entry : IndexRow} {k : String},
      (∃ owner, t.tasks.find entry.taskId = some owner ∧ owner.expiresAt = entry.expiresAt ∧
        k ∈ keysOf owner.payload) →
          ∃ owner, (t.insertTask task).tasks.find entry.taskId = some owner ∧
          owner.expiresAt = entry.expiresAt ∧ k ∈ keysOf owner.payload := by
    rintro keysOf entry k ⟨owner, howner, hrest⟩
    refine ⟨owner, ?_, hrest⟩
    rw [find_insertTask, if_neg, howner]
    intro hid
    rw [hid, hfresh] at howner
    cases howner
  refine ⟨?_, ?_, ?_, h.counts⟩
  · intro k row hrow
    rw [find_insertTask] at hrow
    split at hrow
    · cases hrow
      exact ⟨rfl, rfl, fun hsome => absurd hsome Bool.false_ne_true, fun _ => htime⟩
    · exact h.tasks k row hrow
  · intro k entry hentry
    replace hentry : (if k = toAsciiLowercase task.contentHash then some _
      else t.contentIndex.find k) =
      some entry := (Keyed.find_insertOrReplace _ _ _).symm.trans hentry
    split at hentry
    · next hk =>
        cases hentry
        refine ⟨pendingRow task, ?_, rfl, List.mem_singleton.mpr hk⟩
        rw [find_insertTask, if_pos rfl]
    · exact hother (h.content k entry hentry)
  · intro k entry hentry
    replace hentry := (find_foldl_insertOrIgnore _ _ _ _).symm.trans hentry
    split at hentry
    · next hk =>
        cases hentry
        refine ⟨pendingRow task, ?_, rfl, hk.1⟩
        rw [find_insertTask, if_pos rfl]
    · exact hother (h.keys k entry hentry)

/-! ## Statistics -/

/-- The largest reading of the clock, in milliseconds: the last instant a date can name. -/
def maxDate : Nat := 8640000000000000

theorem min?_perm {xs ys : List Int} (h : xs.Perm ys) : xs.min? = ys.min? := by
  apply Option.ext
  intro a
  rw [List.min?_eq_some_iff, List.min?_eq_some_iff, h.mem_iff]
  simp only [h.mem_iff]

/-- Both stores look for the oldest of the same times. -/
theorem Alike.oldest (h : Alike now s t) :
    (s.age.rows.map Prod.snd).min? = (t.activeRows.map TaskRow.createdAt).min? := by
  have hperm := h.age.map Prod.snd
  rw [List.map_map] at hperm
  exact min?_perm hperm

theorem agrees_queueStats (h : Alike now s t) (ht : Sound t) (hnow : now ≤ maxDate) :
    Agrees now s t .queueStats := by
  refine ⟨?_, h, ht⟩
  have hdepth : s.active.length = t.activeRows.length := by
    rw [h.active.length_eq, List.length_map]
  have hage : (s.queueStats now).oldestActiveAgeMs = (t.queueStats now).oldestActiveAgeMs := by
    rw [TimedStore.queueStats, Tables.queueStats, h.oldest]
    cases hmin : (t.activeRows.map TaskRow.createdAt).min? with
    | none => rfl
    | some createdAt =>
        obtain ⟨row, hrow, rfl⟩ := List.mem_map.mp (List.min?_eq_some_iff.mp hmin).1
        obtain ⟨hmem, hactive⟩ := List.mem_filter.mp hrow
        have htime := (ht.tasks _ row (Keyed.find_of_mem hmem)).time hactive
        simp only [if_pos htime, Tables.saturatingSub]
        unfold maxDate at hnow
        omega
  show Except.ok (s.queueStats now) = Except.ok (t.queueStats now)
  congr 1
  calc s.queueStats now =
    ⟨s.active.length, s.deadLetter.length, (s.queueStats now).oldestActiveAgeMs⟩ := rfl
    _ = ⟨t.activeRows.length, t.dlq.rows.length, (t.queueStats now).oldestActiveAgeMs⟩ := by
        rw [hdepth, h.deadLetter.length_eq, hage]
    _ = t.queueStats now := rfl

/-- A time before the epoch is an age to one store and none to the other. -/
theorem Alike.queueStats_ne (h : Alike now s t) {row : TaskRow} (hrow : row ∈ t.activeRows)
    (htime : row.createdAt < 0) : s.queueStats now ≠ t.queueStats now := by
  intro heq
  have hage := congrArg QueueStats.oldestActiveAgeMs heq
  rw [TimedStore.queueStats, Tables.queueStats, h.oldest] at hage
  cases hmin : (t.activeRows.map TaskRow.createdAt).min? with
  | none =>
      rw [List.min?_eq_none_iff, List.map_eq_nil_iff] at hmin
      rw [hmin] at hrow
      cases hrow
  | some oldest =>
      have hle := (List.min?_eq_some_iff.mp hmin).2 _ (List.mem_map_of_mem hrow)
      simp only [hmin, if_neg (show ¬ 0 ≤ oldest by omega), Tables.saturatingSub] at hage
      omega

/-! ## The purge -/

/-- Deleting what has ended changes nothing that is read. -/
theorem live_deleteWhere {ρ α : Type} {key : ρ → String} (table : Keyed key) (lease : ρ → Lease α)
    {p : ρ → Bool} (hp : ∀ row, p row = !(lease row).LiveAt now) (k : String) :
    live now (((table.deleteWhere p).find k).map lease) = live now ((table.find k).map lease) := by
  rw [Keyed.find_deleteWhere]
  cases table.find k with
  | none => rfl
  | some row =>
      cases hlive : (lease row).LiveAt now <;> simp [live, Option.filter, hp, hlive]

theorem any_le_eq (expiresAt : Option Nat) :
    (expiresAt.any fun instant => instant ≤ now) =
      !(expiresAt.all fun instant => now < instant) := by
  cases expiresAt with
  | none => rfl
  | some instant =>
      rw [Option.any_some, Option.all_some, ← decide_not]
      exact decide_eq_decide.mpr Nat.not_lt.symm

theorem Sound.purge (h : Sound t) (now : Nat) : Sound (t.purgeExpired now) := by
  have howned : ∀ {keysOf : RegisterTask → List String} {index : Keyed IndexRow.key},
      Owned keysOf t.tasks index → Owned keysOf (t.purgeExpired now).tasks
        (index.deleteWhere fun row => row.expiresAt.any fun instant => instant ≤ now) := by
    intro keysOf index hindex k entry hentry
    rw [Keyed.find_deleteWhere, Option.filter_eq_some_iff] at hentry
    obtain ⟨owner, howner, hexpires, hmem⟩ := hindex k entry hentry.1
    refine ⟨owner, ?_, hexpires, hmem⟩
    show (t.tasks.deleteWhere _).find entry.taskId = some owner
    rw [Keyed.find_deleteWhere, howner, Option.filter_eq_some_iff, hexpires]
    exact ⟨rfl, hentry.2⟩
  refine ⟨?_, howned h.content, howned h.keys, ?_⟩
  · intro k row hrow
    replace hrow := (Keyed.find_deleteWhere _ _ _).symm.trans hrow
    exact h.tasks k row (Option.filter_eq_some_iff.mp hrow).1
  · intro k row hrow
    replace hrow := (Keyed.find_deleteWhere _ _ _).symm.trans hrow
    exact h.counts k row (Option.filter_eq_some_iff.mp hrow).1

/-- Active tasks have no end. -/
theorem Sound.activeRows_purge (h : Sound t) (now : Nat) :
    (t.purgeExpired now).activeRows = t.activeRows := by
  show (t.tasks.rows.filter _).filter TaskRow.active = t.tasks.rows.filter TaskRow.active
  rw [List.filter_filter]
  apply List.filter_congr
  intro row hrow
  cases hactive : row.active with
  | false => rfl
  | true =>
      have hnone := (h.tasks _ row (Keyed.find_of_mem hrow)).active_iff
      rw [hactive, eq_comm, Option.isNone_iff_eq_none] at hnone
      dsimp only
      rw [hnone]
      rfl

theorem Alike.purge (h : Alike now s t) (ht : Sound t) : Alike now s (t.purgeExpired now) := by
  refine ⟨fun k => ?_, fun k => ?_, fun k => ?_, fun k => ?_, fun k => ?_, ?_, ?_, h.deadLetter⟩
  · rw [h.tasks k]
    exact (live_deleteWhere t.tasks TaskRow.lease (fun row => any_le_eq row.expiresAt) k).symm
  · rw [h.content k]
    exact (live_deleteWhere t.contentIndex IndexRow.lease
      (fun row => any_le_eq row.expiresAt) k).symm
  · rw [h.keys k]
    exact (live_deleteWhere t.keyPlaceholders IndexRow.lease
      (fun row => any_le_eq row.expiresAt) k).symm
  · rw [h.retries k]
    exact (live_deleteWhere t.retryDigests DigestRow.lease
      (fun row => any_le_eq (some row.expiresAt)) k).symm
  · rw [h.counters k]
    exact (live_deleteWhere t.rateCounters CounterRow.lease
      (fun row => any_le_eq (some row.windowEnd)) k).symm
  · rw [ht.activeRows_purge]
    exact h.active
  · rw [ht.activeRows_purge]
    exact h.age

/-! ## Runs -/

/-- Only an admission that finds nothing under its content is anything to be careful with. -/
def Careful (now : Nat) (t : Tables) : StoreFunction → Prop
  | .admitTask task => t.findByContent now task.contentHash = none → Timely now t task
  | _ => True

/-- The ids a function brings in. -/
def StoreFunction.ids : StoreFunction → List String
  | .admitTask task => [task.id]
  | _ => []

/-- The same functions in both stores, one after the other, at readings of a clock that does not go
back. The tables are purged at the start of a request, whenever that is. Every admitted task has an
id of its own. -/
inductive Paired : Nat → List String → TimedStore → Tables → Prop
  | start : Paired 0 [] TimedStore.empty Tables.empty
  | request {now later : Nat} {used : List String} {s : TimedStore} {t : Tables} :
        Paired now used s t →
      now ≤ later → later ≤ maxDate → Paired later used s (t.purgeExpired later)
  | operate {now later : Nat} {used : List String} {s : TimedStore} {t : Tables}
        (f : StoreFunction) :
      Paired now used s t → now ≤ later → later ≤ maxDate → (∀ id ∈ f.ids, id ∉ used) →
        Careful later t f → Paired later (f.ids ++ used) (f.redis later s).2 (f.sqlite later t).2

theorem findByContent_eq_none (ht : Sound t) {contentHash : String} :
    t.findByContent now contentHash = none ↔
      live now (t.content (toAsciiLowercase contentHash)) = none := by
  rw [Tables.findByContent, findByIndex_eq]
  cases hlease : live now (t.content (toAsciiLowercase contentHash)) with
  | none => simp
  | some lease =>
      obtain ⟨task, htask, -⟩ := ht.content.read ht hlease
      simp [htask]

/-- One function in both stores: the answers agree, and the states still do if care was taken. -/
theorem Alike.operate (h : Alike now s t) (ht : Sound t) (hnow : now ≤ maxDate) (f : StoreFunction)
    (hfresh : ∀ id ∈ f.ids, t.tasks.find id = none) (hcareful : Careful now t f) :
    Agrees now s t f := by
  cases f with
  | getTask id => exact agrees_getTask h ht id
  | findByContent contentHash => exact agrees_findByContent h ht contentHash
  | findByPublicKey publicKey => exact agrees_findByPublicKey h ht publicKey
  | findByRetryDigest digest => exact agrees_findByRetryDigest h ht digest
  | recordRetryDigest digest taskId => exact agrees_recordRetryDigest h ht digest taskId
  | admitTask task =>
      cases hlease : live now (t.content (toAsciiLowercase task.contentHash)) with
      | some lease => exact h.admitTask_existing ht hlease
      | none =>
          obtain ⟨hredis, hsqlite⟩ := h.admitTask_new hlease
          have hid := hfresh task.id (List.mem_singleton.mpr rfl)
          have htimely := hcareful ((findByContent_eq_none ht).mpr hlease)
          exact .of_eq hredis hsqlite (h.insertTask hid htimely.keys)
            (ht.insertTask hid htimely.time)
  | markAdmitted id => exact agrees_markAdmitted h ht id
  | markDone id txHash onChainId => exact agrees_markDone h ht id txHash onChainId
  | markFailed id failureClass message => exact agrees_markFailed h ht id failureClass message
  | recordTransientFailure id message => exact agrees_recordTransientFailure h ht id message
  | incrementMinute key => exact agrees_incrementMinute h ht key
  | queueStats => exact agrees_queueStats h ht hnow

/-- The answer to a function does not depend on care. -/
theorem Alike.answer (h : Alike now s t) (ht : Sound t) (hnow : now ≤ maxDate) (f : StoreFunction) :
    (f.redis now s).1 = .ok (f.sqlite now t).1 := by
  by_cases hnew : ∃ task, f = .admitTask task
  · obtain ⟨task, rfl⟩ := hnew
    cases hlease : live now (t.content (toAsciiLowercase task.contentHash)) with
    | some lease => exact (h.admitTask_existing ht hlease).answer
    | none =>
        obtain ⟨hredis, hsqlite⟩ := h.admitTask_new hlease
        rw [hredis, hsqlite]
  · have hother : f.ids = [] ∧ Careful now t f := by
      cases f with
      | admitTask task => exact absurd ⟨task, rfl⟩ hnew
      | _ => exact ⟨rfl, trivial⟩
    exact (h.operate ht hnow f (by rw [hother.1]; exact fun _ hid => absurd hid List.not_mem_nil)
      hother.2).answer

theorem find_updateTask_none {id k : String} {f : TaskRow → TaskRow}
    (hf : ∀ row, (f row).id = row.id) (h : t.tasks.find k = none) :
    (t.updateTask id f hf).tasks.find k = none := by
  rw [find_updateTask]
  split
  · next hk =>
      rw [← hk, h]
      rfl
  · exact h

theorem find_transitionTerminal_none {task : RegisterTask} {ttlMs : Nat} {failed : Bool}
    {k : String} (h : t.tasks.find k = none) :
    (t.transitionTerminal now task ttlMs failed).tasks.find k = none := by
  cases failed <;>
    exact find_updateTask_none (f := fun row => Tables.TaskRow.ended row task _ _) (fun _ => rfl) h

/-- A row of a task was there before, or is the admitted task's. -/
theorem find_sqlite_none (f : StoreFunction) {k : String} (h : t.tasks.find k = none)
    (hk : k ∉ f.ids) : (f.sqlite now t).2.tasks.find k = none := by
  cases f with
  | admitTask task =>
      show (t.admitTask now task).2.tasks.find k = none
      unfold Tables.admitTask
      split
      · exact h
      · rw [find_insertTask, if_neg fun heq => hk (List.mem_singleton.mpr heq), h]
  | markAdmitted id =>
      show (t.markAdmitted now id).2.tasks.find k = none
      unfold Tables.markAdmitted
      split
      · exact h
      · split
        · exact h
        · exact find_updateTask_none _ h
  | markDone id txHash onChainId =>
      show (t.markDone now id txHash onChainId).2.tasks.find k = none
      unfold Tables.markDone
      split
      · exact h
      · exact find_transitionTerminal_none h
  | markFailed id failureClass message =>
      show (t.markFailed now id failureClass message).2.tasks.find k = none
      unfold Tables.markFailed
      split
      · exact h
      · exact find_transitionTerminal_none h
  | recordTransientFailure id message =>
      show (t.recordTransientFailure now id message).2.tasks.find k = none
      unfold Tables.recordTransientFailure
      split
      · exact h
      · split
        · exact h
        · dsimp only
          split
          · exact find_transitionTerminal_none h
          · exact find_updateTask_none _ h
  | incrementMinute key =>
      show (t.bumpMinuteCounter now key).2.tasks.find k = none
      unfold Tables.bumpMinuteCounter
      split
      · exact h
      · split <;> exact h
  | _ => exact h

/-- What a run has established. -/
structure Coupled (now : Nat) (used : List String) (s : TimedStore) (t : Tables) : Prop where
  alike : Alike now s t
  sound : Sound t
  known : ∀ id, id ∉ used → t.tasks.find id = none

theorem coupled_start : Coupled 0 [] TimedStore.empty Tables.empty where
  alike := ⟨fun _ => rfl, fun _ => rfl, fun _ => rfl, fun _ => rfl, fun _ => rfl, .refl _,
    .refl _, .refl _⟩
  sound := by
    refine ⟨?_, ?_, ?_, ?_⟩ <;>
    · intro k row hrow
      cases hrow
  known _ _ := rfl

section Coupled

variable {later : Nat} {used : List String}

theorem Coupled.request (h : Coupled now used s t) (hle : now ≤ later) :
    Coupled later used s (t.purgeExpired later) where
  alike := (h.alike.mono hle).purge h.sound
  sound := h.sound.purge later
  known id hid := by
    show (t.tasks.deleteWhere _).find id = none
    rw [Keyed.find_deleteWhere, h.known id hid]
    rfl

theorem Coupled.operate (h : Coupled now used s t) (hle : now ≤ later) (hmax : later ≤ maxDate)
    (f : StoreFunction) (hfresh : ∀ id ∈ f.ids, id ∉ used) (hcareful : Careful later t f) :
    Coupled later (f.ids ++ used) (f.redis later s).2 (f.sqlite later t).2 := by
  have hagrees :=
    (h.alike.mono hle).operate h.sound hmax f (fun id hid => h.known id (hfresh id hid)) hcareful
  refine ⟨hagrees.alike, hagrees.sound, ?_⟩
  intro id hid
  rw [List.mem_append, not_or] at hid
  exact find_sqlite_none f (h.known id hid.2) hid.1

theorem Paired.coupled (h : Paired now used s t) : Coupled now used s t := by
  induction h with
  | start => exact coupled_start
  | request _ hle _ ih => exact ih.request hle
  | operate f _ hle hmax hfresh hcareful ih => exact ih.operate hle hmax f hfresh hcareful

end Coupled

/-! ## Where the stores part -/

/-- A new task whose key is held by a row that has ended: Redis gives it the key, the tables do not.
-/
theorem Alike.publicKey_ne (h : Alike now s t) {task : RegisterTask} {publicKey : String}
    (hmem : toAsciiLowercase publicKey ∈ memberKeyPlaceholders task)
    (hended : live now (t.key (toAsciiLowercase publicKey)) ≠ t.key (toAsciiLowercase publicKey)) :
    ((StoreFunction.findByPublicKey publicKey).redis now ((s.dropAt now).admitTask task)).1 =
      .ok (some task) ∧
      ((StoreFunction.findByPublicKey publicKey).sqlite now (t.insertTask task)).1 = none := by
  have hlive : live now (t.key (toAsciiLowercase publicKey)) = none := by
    cases hlease : live now (t.key (toAsciiLowercase publicKey)) with
    | none => rfl
    | some lease => exact absurd (hlease.trans (live_eq_some.mp hlease).1.symm) hended
  constructor
  · have hkeys : ((s.dropAt now).admitTask task).keys (toAsciiLowercase publicKey) =
        some ⟨task.id, none⟩ := by
      show (memberKeyPlaceholders task).foldl (claimAt task.id) (s.dropAt now).keys _ = _
      rw [foldl_claimAt, if_pos ⟨hmem, (h.keys _).trans hlive⟩]
    show (runAt now (Server.findById (((live now (((s.dropAt now).admitTask task).keys
      (toAsciiLowercase publicKey))).map Lease.value))) _).1 = _
    rw [hkeys]
    show Except.ok
        ((live now (live now (Function.update (s.dropAt now).tasks task.id (some ⟨task, none⟩)
      task.id))).map Lease.value) = _
    rw [Function.update_self]
    rfl
  · have hkey : (t.insertTask task).key (toAsciiLowercase publicKey) =
        t.key (toAsciiLowercase publicKey) := by
      have hfind :=
        find_foldl_insertOrIgnore task.id (memberKeyPlaceholders task) (toAsciiLowercase publicKey)
        t.keyPlaceholders
      rw [if_neg] at hfind
      · exact congrArg (Option.map IndexRow.lease) hfind
      · rintro ⟨-, hnone⟩
        rw [Tables.key, hnone] at hended
        exact hended rfl
    show (t.insertTask task).findByIndex now _ = none
    rw [hkey, findByIndex_eq, hlive]
    rfl

theorem exists_publicKey {task : RegisterTask} {k : String} (h : k ∈ memberKeyPlaceholders task) :
    ∃ publicKey, toAsciiLowercase publicKey = k := by
  rcases List.mem_append.mp h with hmember | hgroup
  · obtain ⟨member, -, hk⟩ := List.mem_map.mp hmember
    exact ⟨member.publicKey, hk⟩
  · exact ⟨task.groupPublicKey, (List.mem_singleton.mp hgroup).symm⟩

/-- Without care the next answer may differ. -/
theorem Alike.careful (h : Alike now s t) (ht : Sound t) (f : StoreFunction)
    (hfresh : ∀ id ∈ f.ids, t.tasks.find id = none)
    (hall : ∀ g : StoreFunction, (g.redis now (f.redis now s).2).1 =
      .ok (g.sqlite now (f.sqlite now t).2).1) :
    Careful now t f := by
  cases f with
  | admitTask task =>
      intro hnone
      obtain ⟨hredis, hsqlite⟩ := h.admitTask_new ((findByContent_eq_none ht).mp hnone)
      rw [hredis, hsqlite] at hall
      have hkeys : ∀ k ∈ memberKeyPlaceholders task, live now (t.key k) = t.key k := by
        intro k hk
        by_contra hended
        obtain ⟨publicKey, rfl⟩ := exists_publicKey hk
        obtain ⟨hclaimed, hignored⟩ := h.publicKey_ne hk hended
        have hsame := hall (.findByPublicKey publicKey)
        rw [hclaimed, hignored] at hsame
        cases hsame
      refine ⟨hkeys, ?_⟩
      by_contra htime
      have hid := hfresh task.id (List.mem_singleton.mpr rfl)
      have hrow : pendingRow task ∈ (t.insertTask task).activeRows := by
        rw [activeRows_insertTask hid]
        exact List.mem_append_right _ (List.mem_singleton.mpr rfl)
      exact (h.insertTask hid hkeys).queueStats_ne hrow (Int.not_le.mp htime)
        (Except.ok.inj (hall .queueStats))
  | _ => trivial

/-- In a run of both stores in which every admission is careful, each answer is the same in both, at
every later reading of the clock. An admission is careful exactly if the answers to it leave the
stores with the same answers to everything. -/
theorem stores_agree_iff {now later : Nat} {used : List String} {s : TimedStore} {t : Tables}
    (h : Paired now used s t) (hle : now ≤ later) (hmax : later ≤ maxDate) :
    (∀ f : StoreFunction, (f.redis later s).1 = .ok (f.sqlite later t).1) ∧
      ∀ f : StoreFunction, (∀ id ∈ f.ids, id ∉ used) →
        (Careful later t f ↔ ∀ g : StoreFunction,
          (g.redis later (f.redis later s).2).1 = .ok (g.sqlite later (f.sqlite later t).2).1) := by
  have hcoupled := h.coupled
  have halike := hcoupled.alike.mono hle
  refine ⟨halike.answer hcoupled.sound hmax, ?_⟩
  intro f hfresh
  constructor
  · intro hcareful g
    have hafter := hcoupled.operate hle hmax f hfresh hcareful
    exact hafter.alike.answer hafter.sound hmax g
  · exact halike.careful hcoupled.sound f fun id hid => hcoupled.known id (hfresh id hid)

/-- Two groups with different content and one group key. -/
def unit (id contentHash : String) : RegisterTask :=
  { id := id, status := .pending, kind := .register, rpId := "example.org", metadata := "0x"
    contentHash := contentHash, groupPublicKey := "0x04AB", groupProof := none, members :=
      [], txHash := none
    onChainId := none, error := none, retries := 0, createdAt := 0, admitted := false }

theorem paired_done : Paired 0 ["first"]
    ((StoreFunction.markDone "first" none none).redis 0
      ((StoreFunction.admitTask (unit "first" "0x01")).redis 0 TimedStore.empty).2).2
    ((StoreFunction.markDone "first" none none).sqlite 0
      ((StoreFunction.admitTask (unit "first" "0x01")).sqlite 0 Tables.empty).2).2 := by
  have hnow : 0 ≤ maxDate := Nat.zero_le _
  have hadmitted :=
    Paired.operate (.admitTask (unit "first" "0x01")) Paired.start (Nat.le_refl 0) hnow
    (fun _ _ => List.not_mem_nil) fun _ => ⟨fun _ _ => rfl, Int.le_refl 0⟩
  exact Paired.operate (.markDone "first" none none) hadmitted (Nat.le_refl 0) hnow
    (fun _ hid => absurd hid List.not_mem_nil) trivial

/-- At the end of the first unit's week, and after a purge, the second one takes over the key in
both stores. -/
theorem stores_agree_iff_purged : ∃ s t, Paired taskDoneTtlMs ["first"] s t ∧ ∀ g : StoreFunction,
    (g.redis taskDoneTtlMs
      ((StoreFunction.admitTask (unit "second" "0x02")).redis taskDoneTtlMs s).2).1 =
      .ok (g.sqlite taskDoneTtlMs
        ((StoreFunction.admitTask (unit "second" "0x02")).sqlite taskDoneTtlMs t).2).1 := by
  have hmax : taskDoneTtlMs ≤ maxDate := by decide
  have hpurged := Paired.request paired_done (Nat.zero_le taskDoneTtlMs) hmax
  have hfresh : ∀ id ∈ (StoreFunction.admitTask (unit "second" "0x02")).ids,
      id ∉ ["first"] := by decide
  refine ⟨_, _, hpurged, ((stores_agree_iff hpurged (Nat.le_refl _) hmax).2 _ hfresh).mp ?_⟩
  intro _
  exact ⟨by decide +kernel, Int.le_refl 0⟩

/-- Without the purge the row of the first unit stands in the second one's way: Redis finds the
second unit by the key, the tables find nothing. -/
theorem expired_row_blocks : ∃ s t, Paired 0 ["first"] s t ∧
    ((StoreFunction.findByPublicKey "0x04AB").redis taskDoneTtlMs
      ((StoreFunction.admitTask (unit "second" "0x02")).redis taskDoneTtlMs s).2).1 =
        .ok (some (unit "second" "0x02")) ∧
    ((StoreFunction.findByPublicKey "0x04AB").sqlite taskDoneTtlMs
      ((StoreFunction.admitTask (unit "second" "0x02")).sqlite taskDoneTtlMs t).2).1 = none := by
  refine ⟨_, _, paired_done, ?_, ?_⟩ <;> decide +kernel

end P256Index.Cloudflare
