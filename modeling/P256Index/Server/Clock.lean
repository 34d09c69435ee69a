import P256Index.Interaction.Alone
import P256Index.Keyed
import P256Index.Server.Store

/-!
# The task store by the clock

The same commands with the instants at which keys vanish. A command at some reading of the clock
finds the keys that have not reached their instant, and gives new lifetimes by the source's
constants. Without the instants this is the store of the other modules, command by command
(`exec_forget`). A store function that runs alone, with no command failing, is one step of this
store.
-/

namespace P256Index.Server

open Registrar

/-! ## State -/

/-- Lifetimes, in milliseconds. -/
def taskDoneTtl : Nat := 7 * 24 * 60 * 60 * 1000
def taskFailedTtl : Nat := 30 * 24 * 60 * 60 * 1000
def retryCoalesceTtl : Nat := 24 * 60 * 60 * 1000
def minuteTtl : Nat := 60000

structure TimedStore where
  tasks : String → Option (Lease RegisterTask)
  content : String → Option (Lease String)
  keys : String → Option (Lease String)
  retries : String → Option (Lease String)
  counters : String → Option (Lease Nat)
  active : List String
  /-- The sorted set of the active tasks: members with their scores. -/
  age : Keyed (Prod.fst : String × Int → String)
  deadLetter : List String

def TimedStore.empty : TimedStore where
  tasks _ := none
  content _ := none
  keys _ := none
  retries _ := none
  counters _ := none
  active := []
  age := Keyed.empty
  deadLetter := []

/-- The keys that have not reached their instant. -/
def TimedStore.dropAt (s : TimedStore) (now : Nat) : TimedStore where
  tasks id := live now (s.tasks id)
  content hash := live now (s.content hash)
  keys key := live now (s.keys key)
  retries digest := live now (s.retries digest)
  counters key := live now (s.counters key)
  active := s.active
  age := s.age
  deadLetter := s.deadLetter

/-! ## Commands -/

/-- `EXISTS` / `SET`. -/
def claimAt (id : String) (keys : String → Option (Lease String)) (key : String) :
    String → Option (Lease String) :=
  if (keys key).isNone then Function.update keys key (some ⟨id, none⟩) else keys

/-- `PEXPIRE` where the key still points at the task. -/
def fadeAt (instant : Nat) (id : String) (index : String → Option (Lease String)) (key : String) :
    String → Option (Lease String) :=
  if (index key).map Lease.value = some id then Function.update index key (some ⟨id, some instant⟩)
  else index

/-- `DEL` where the key still points at the task. -/
def releaseAt (id : String) (index : String → Option (Lease String)) (key : String) :
    String → Option (Lease String) :=
  if (index key).map Lease.value = some id then Function.update index key none else index

namespace TimedStore

def admitTask (s : TimedStore) (task : RegisterTask) : TimedStore where
  tasks := Function.update s.tasks task.id (some ⟨task, none⟩)
  content := Function.update s.content (toAsciiLowercase task.contentHash) (some ⟨task.id, none⟩)
  keys := (memberKeyPlaceholders task).foldl (claimAt task.id) s.keys
  retries := s.retries
  counters := s.counters
  active := s.active.insert task.id
  age := s.age.insertOrReplace (task.id, task.createdAt)
  deadLetter := s.deadLetter

def transitionDone (s : TimedStore) (now : Nat) (task : RegisterTask) : TimedStore where
  tasks := Function.update s.tasks task.id (some ⟨task, some (now + taskDoneTtl)⟩)
  content := fadeAt (now + taskDoneTtl) task.id s.content (toAsciiLowercase task.contentHash)
  keys := (memberKeyPlaceholders task).foldl (fadeAt (now + taskDoneTtl) task.id) s.keys
  retries := s.retries
  counters := s.counters
  active := s.active.erase task.id
  age := s.age.deleteWhere fun entry => entry.1 = task.id
  deadLetter := s.deadLetter

def transitionFailed (s : TimedStore) (now : Nat) (task : RegisterTask) : TimedStore where
  tasks := Function.update s.tasks task.id (some ⟨task, some (now + taskFailedTtl)⟩)
  content := releaseAt task.id s.content (toAsciiLowercase task.contentHash)
  keys := (memberKeyPlaceholders task).foldl (releaseAt task.id) s.keys
  retries := s.retries
  counters := s.counters
  active := s.active.erase task.id
  age := s.age.deleteWhere fun entry => entry.1 = task.id
  deadLetter := s.deadLetter.insert task.id

end TimedStore

/-- What a command answers, and what it leaves, among keys that are there. -/
def StoreCommand.execTimed (now : Nat) : (c : StoreCommand) → TimedStore → c.Value × TimedStore
  | .getTask id, s => ((s.tasks id).map Lease.value, s)
  | .getContent contentHash, s => ((s.content (toAsciiLowercase contentHash)).map Lease.value, s)
  | .getKey publicKey, s => ((s.keys (toAsciiLowercase publicKey)).map Lease.value, s)
  | .getRetry digest, s => ((s.retries (toAsciiLowercase digest)).map Lease.value, s)
  | .setRetry digest taskId, s =>
      ((), { s with retries := Function.update s.retries (toAsciiLowercase digest)
                                 (some ⟨taskId, some (now + retryCoalesceTtl)⟩) })
  | .admitTask task, s =>
      match s.content (toAsciiLowercase task.contentHash) with
      | some lease => (.existing lease.value, s)
      | none => (.new task.id, s.admitTask task)
  | .swapTask id previous updated, s =>
      match s.tasks id with
      | some lease =>
          if lease.value = previous then
            (true, { s with tasks := Function.update s.tasks id (some ⟨updated, lease.expiresAt⟩) })
          else (false, s)
      | none => (false, s)
  | .setTask task, s =>
      ((), { s with tasks := Function.update s.tasks task.id (some ⟨task, none⟩) })
  | .transitionDone task, s => ((), s.transitionDone now task)
  | .transitionFailed task, s => ((), s.transitionFailed now task)
  | .incr key, s =>
      match s.counters key with
      | some lease =>
          (lease.value + 1,
            { s with
              counters :=
                Function.update s.counters key (some ⟨lease.value + 1, lease.expiresAt⟩) })
      | none => (1, { s with counters := Function.update s.counters key (some ⟨1, none⟩) })
  | .pexpire key, s =>
      match s.counters key with
      | some lease =>
          ((), { s with counters := Function.update s.counters key
                                      (some ⟨lease.value, some (now + minuteTtl)⟩) })
      | none => ((), s)
  | .depth, s => (UInt64.ofNat s.active.length, s)

/-- A command at a reading of the clock. -/
def StoreCommand.execAt (now : Nat) (c : StoreCommand) (s : TimedStore) : c.Value × TimedStore :=
  c.execTimed now (s.dropAt now)

/-! ## Without the instants -/

def slotOf {α : Type} (l : Lease α) : Slot α := ⟨l.value, l.expiresAt.isSome⟩

/-- A family of keys without the instants. -/
def forgetKeys {α : Type} (f : String → Option (Lease α)) : String → Option (Slot α) :=
  Option.map slotOf ∘ f

def TimedStore.forget (s : TimedStore) : Store where
  tasks := forgetKeys s.tasks
  content := forgetKeys s.content
  keys := forgetKeys s.keys
  retries := forgetKeys s.retries
  counters := forgetKeys s.counters
  active := s.active
  age id := (s.age.find id).map Prod.snd
  deadLetter := s.deadLetter

section Forget

variable {α : Type}

theorem forgetKeys_update (f : String → Option (Lease α)) (key : String) (x : Option (Lease α)) :
    forgetKeys (Function.update f key x) = Function.update (forgetKeys f) key (x.map slotOf) :=
  Function.comp_update _ _ _ _

theorem forgetKeys_none {f : String → Option (Lease α)} {key : String} (h : f key = none) :
    forgetKeys f key = none := by
  rw [forgetKeys, Function.comp_apply, h]
  rfl

theorem forgetKeys_some {f : String → Option (Lease α)} {key : String} {lease : Lease α}
    (h : f key = some lease) : forgetKeys f key = some (slotOf lease) := by
  rw [forgetKeys, Function.comp_apply, h]
  rfl

theorem forgetKeys_value (f : String → Option (Lease α)) (key : String) :
    (forgetKeys f key).map Slot.value = (f key).map Lease.value := by
  rw [forgetKeys, Function.comp_apply, Option.map_map]
  rfl

theorem claim_forgetKeys (id : String) (keys : String → Option (Lease String)) (key : String) :
    claim id (forgetKeys keys) key = forgetKeys (claimAt id keys key) := by
  have hnone : (forgetKeys keys key).isNone = (keys key).isNone := by simp [forgetKeys]
  rw [claim, claimAt, hnone]
  split
  · rw [forgetKeys_update]
    rfl
  · rfl

theorem fade_forgetKeys (instant : Nat) (id : String) (index : String → Option (Lease String))
    (key : String) : fade id (forgetKeys index) key = forgetKeys (fadeAt instant id index key) := by
  rw [fade, fadeAt, forgetKeys_value]
  split
  · rw [forgetKeys_update]
    rfl
  · rfl

theorem release_forgetKeys (id : String) (index : String → Option (Lease String)) (key : String) :
    release id (forgetKeys index) key = forgetKeys (releaseAt id index key) := by
  rw [release, releaseAt, forgetKeys_value]
  split
  · rw [forgetKeys_update]
    rfl
  · rfl

theorem age_insertOrReplace (age : Keyed (Prod.fst : String × Int → String)) (id : String)
    (score : Int) : (fun member => ((age.insertOrReplace (id, score)).find member).map Prod.snd) =
      Function.update (fun member => (age.find member).map Prod.snd) id (some score) := by
  funext member
  rw [Keyed.find_insertOrReplace, Function.update_apply]
  split <;> rfl

theorem age_deleteWhere (age : Keyed (Prod.fst : String × Int → String)) (id : String) :
    (fun member => ((age.deleteWhere fun entry => entry.1 = id).find member).map Prod.snd) =
      Function.update (fun member => (age.find member).map Prod.snd) id none := by
  funext member
  rw [Keyed.find_deleteWhere, Function.update_apply]
  cases hfind : age.find member with
  | none => simp
  | some entry =>
      obtain ⟨-, rfl⟩ := Keyed.find_eq_some.mp hfind
      by_cases heq : entry.1 = id <;> simp [Option.filter, heq]

variable (s : TimedStore) (now : Nat) (task : RegisterTask)

theorem forget_admitTask : (s.admitTask task).forget = s.forget.admitTask task := by
  have hkeys : (memberKeyPlaceholders task).foldl (claim task.id) (forgetKeys s.keys) =
      forgetKeys ((memberKeyPlaceholders task).foldl (claimAt task.id) s.keys) :=
    List.foldl_hom forgetKeys (claim_forgetKeys task.id)
  simp only [TimedStore.forget, TimedStore.admitTask, Store.admitTask, forgetKeys_update,
    age_insertOrReplace, hkeys]
  rfl

theorem forget_transitionDone :
    (s.transitionDone now task).forget = s.forget.transitionDone task := by
  have hkeys : (memberKeyPlaceholders task).foldl (fade task.id) (forgetKeys s.keys) =
      forgetKeys ((memberKeyPlaceholders task).foldl (fadeAt (now + taskDoneTtl) task.id) s.keys) :=
    List.foldl_hom forgetKeys (fade_forgetKeys _ task.id)
  simp only [TimedStore.forget, TimedStore.transitionDone, Store.transitionDone, forgetKeys_update,
    age_deleteWhere, hkeys, fade_forgetKeys (now + taskDoneTtl)]
  rfl

theorem forget_transitionFailed :
    (s.transitionFailed now task).forget = s.forget.transitionFailed task := by
  have hkeys : (memberKeyPlaceholders task).foldl (release task.id) (forgetKeys s.keys) =
      forgetKeys ((memberKeyPlaceholders task).foldl (releaseAt task.id) s.keys) :=
    List.foldl_hom forgetKeys (release_forgetKeys task.id)
  simp only [TimedStore.forget, TimedStore.transitionFailed, Store.transitionFailed,
    forgetKeys_update, age_deleteWhere, hkeys, release_forgetKeys]
  rfl

end Forget

/-- The commands by the clock are the commands of the store, with instants. -/
theorem exec_forget (now : Nat) (c : StoreCommand) (s : TimedStore) :
    c.exec s.forget = ((c.execTimed now s).1, (c.execTimed now s).2.forget) := by
  cases c with
  | getTask id => rw [StoreCommand.exec, Store.task, TimedStore.forget, forgetKeys_value]; rfl
  | getContent contentHash =>
      rw [StoreCommand.exec, TimedStore.forget, forgetKeys_value]
      rfl
  | getKey publicKey =>
      rw [StoreCommand.exec, TimedStore.forget, forgetKeys_value]
      rfl
  | getRetry digest =>
      rw [StoreCommand.exec, TimedStore.forget, forgetKeys_value]
      rfl
  | setRetry digest taskId =>
      simp only [StoreCommand.exec, StoreCommand.execTimed, TimedStore.forget, forgetKeys_update]
      rfl
  | admitTask task =>
      cases hslot : s.content (toAsciiLowercase task.contentHash) with
      | none =>
          have hforget : s.forget.content (toAsciiLowercase task.contentHash) = none :=
            forgetKeys_none hslot
          simp only [StoreCommand.exec, StoreCommand.execTimed, hslot, hforget, forget_admitTask]
      | some lease =>
          have hforget : s.forget.content (toAsciiLowercase task.contentHash) =
              some (slotOf lease) :=
            forgetKeys_some hslot
          simp only [StoreCommand.exec, StoreCommand.execTimed, hslot, hforget]
          rfl
  | swapTask id previous updated =>
      cases hslot : s.tasks id with
      | none =>
          have hforget : s.forget.tasks id = none := forgetKeys_none hslot
          simp only [StoreCommand.exec, StoreCommand.execTimed, hslot, hforget]
      | some lease =>
          have hforget : s.forget.tasks id = some (slotOf lease) := forgetKeys_some hslot
          simp only [StoreCommand.exec, StoreCommand.execTimed, hslot, hforget]
          show (if lease.value = previous then _ else _) = _
          split
          · simp only [TimedStore.forget, forgetKeys_update]
            rfl
          · rfl
  | setTask task =>
      simp only [StoreCommand.exec, StoreCommand.execTimed, TimedStore.forget, forgetKeys_update]
      rfl
  | transitionDone task =>
      simp only [StoreCommand.exec, StoreCommand.execTimed, forget_transitionDone]
  | transitionFailed task =>
      simp only [StoreCommand.exec, StoreCommand.execTimed, forget_transitionFailed]
  | incr key =>
      cases hslot : s.counters key with
      | none =>
          simp only [StoreCommand.exec, StoreCommand.execTimed, hslot, TimedStore.forget,
            forgetKeys_none hslot, forgetKeys_update]
          rfl
      | some lease =>
          simp only [StoreCommand.exec, StoreCommand.execTimed, hslot, TimedStore.forget,
            forgetKeys_some hslot, forgetKeys_update]
          rfl
  | pexpire key =>
      cases hslot : s.counters key with
      | none =>
          simp only [StoreCommand.exec, StoreCommand.execTimed, hslot, TimedStore.forget,
            forgetKeys_none hslot]
      | some lease =>
          simp only [StoreCommand.exec, StoreCommand.execTimed, hslot, TimedStore.forget,
            forgetKeys_some hslot, forgetKeys_update]
          rfl
  | depth => rfl

/-! ## Store functions that run alone -/

/-- A store function at a reading of the clock, with no command in between and none failing. -/
def runAt {α : Type} (now : Nat) (x : StoreFlow α) (s : TimedStore) : Except Unit α × TimedStore :=
  x.run.eval (fun c s => (some (c.execAt now s).1, (c.execAt now s).2)) s

section RunAt

variable {α : Type} (now : Nat) (s : TimedStore)

@[simp] theorem runAt_pure (a : α) : runAt now (pure a) s = (.ok a, s) := rfl

@[simp] theorem runAt_query (c : StoreCommand) :
    runAt now (query c) s = (.ok (c.execAt now s).1, (c.execAt now s).2) := rfl

@[simp] theorem runAt_query_bind (c : StoreCommand) (f : c.Value → StoreFlow α) :
    runAt now (query c >>= f) s = runAt now (f (c.execAt now s).1) (c.execAt now s).2 := rfl

theorem dropAt_dropAt : (s.dropAt now).dropAt now = s.dropAt now := by
  simp only [TimedStore.dropAt, live_live (Nat.le_refl now)]

end RunAt

/-! ## Minute windows -/

section Window

variable {now : Nat} {s : TimedStore} {k : String}

theorem execAt_incr_none (h : live now (s.counters k) = none) :
    StoreCommand.execAt now (.incr k) s = (1, { s.dropAt now with
      counters := Function.update (s.dropAt now).counters k (some ⟨1, none⟩) }) := by
  have hnone : (s.dropAt now).counters k = none := h
  rw [StoreCommand.execAt, StoreCommand.execTimed, hnone]

theorem execAt_incr_some {lease : Lease Nat} (h : live now (s.counters k) = some lease) :
    StoreCommand.execAt now (.incr k) s = (lease.value + 1, { s.dropAt now with
      counters :=
        Function.update (s.dropAt now).counters k (some ⟨lease.value + 1, lease.expiresAt⟩) }) := by
  have hsome : (s.dropAt now).counters k = some lease := h
  rw [StoreCommand.execAt, StoreCommand.execTimed, hsome]

/-- The end of a window that was just opened. -/
theorem execAt_pexpire : StoreCommand.execAt now (.pexpire k) { s.dropAt now with
      counters := Function.update (s.dropAt now).counters k (some ⟨1, none⟩) } =
        ((), { s.dropAt now with
      counters :=
        Function.update (s.dropAt now).counters k (some ⟨1, some (now + minuteTtl)⟩) }) := by
  have hcounters : Function.update (fun key => live now (Function.update (s.dropAt now).counters k
      (some ⟨1, none⟩) key)) k (some ⟨1, some (now + minuteTtl)⟩) =
        Function.update (s.dropAt now).counters k (some ⟨1, some (now + minuteTtl)⟩) := by
    funext key
    by_cases hkey : key = k
    · simp [hkey]
    · simp [hkey, TimedStore.dropAt, live_live]
  simp only [StoreCommand.execAt, StoreCommand.execTimed]
  simp only [TimedStore.dropAt, Function.update_self, live_forever, live_live (Nat.le_refl now)]
    at hcounters ⊢
  rw [hcounters]

/-- The first increment of a window sets its end. -/
theorem runAt_incrementMinute_none (h : live now (s.counters k) = none) :
    runAt now (incrementMinute k) s = (.ok 1, { s.dropAt now with
      counters :=
        Function.update (s.dropAt now).counters k (some ⟨1, some (now + minuteTtl)⟩) }) := by
  rw [incrementMinute, runAt_query_bind, execAt_incr_none h]
  show runAt now (query (.pexpire k) >>= fun _ => pure 1) _ = _
  rw [runAt_query_bind, execAt_pexpire]
  rfl

/-- A later one keeps it. -/
theorem runAt_incrementMinute_some {lease : Lease Nat} (h : live now (s.counters k) = some lease)
    (hpos : 0 < lease.value) :
    runAt now (incrementMinute k) s = (.ok (lease.value + 1), { s.dropAt now with
      counters :=
        Function.update (s.dropAt now).counters k (some ⟨lease.value + 1, lease.expiresAt⟩) }) := by
  rw [incrementMinute, runAt_query_bind, execAt_incr_some h]
  dsimp only
  rw [if_neg (show ¬ lease.value + 1 = 1 by omega)]
  rfl

end Window

/-- `queue_stats`. -/
structure QueueStats where
  depth : Nat
  dlqCount : Nat
  oldestActiveAgeMs : Nat
  deriving DecidableEq

/-- The three reads of `queue_stats`: a score that is no `u64` counts as no score. Scores are exact,
as those of clock readings are. -/
def TimedStore.queueStats (s : TimedStore) (now : Nat) : QueueStats where
  depth := s.active.length
  dlqCount := s.deadLetter.length
  oldestActiveAgeMs :=
    match (s.age.rows.map Prod.snd).min? with
    | some createdAt => if 0 ≤ createdAt then now - createdAt.toNat else 0
    | none => 0

end P256Index.Server
