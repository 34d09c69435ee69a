import P256Index.Server.Clock

/-!
# Minute windows under faults

A rate counter is opened by `INCR` and given its end by a second command, which is sent only when
the first one was answered with one. Any number of increments run at the same time: between the two
commands of one the clock goes on and other increments come in. Either command may fail before or
after it took effect, and an increment may be cut off between them. Beside the counters the state
keeps which increments have yet to send their second command, and when each counter was opened.

A window that is left without an end is never closed again: later increments find the counter above
one. `windows_end_iff` says exactly in which runs every window of a key ends at most a minute, and
the time its second command took to come, after it was opened.
-/

namespace P256Index.Server

/-! ## Faulty commands -/

/-- How a command goes: it is performed and answered, it fails before it took effect, or it took
effect and its answer is lost. -/
inductive Fate where
  | performed
  | refused
  | unanswered
  deriving DecidableEq

def attempt (now : Nat) (c : StoreCommand) (s : TimedStore) : Fate → StoreReply c × TimedStore
  | .performed => (some (c.execAt now s).1, (c.execAt now s).2)
  | .refused => (none, s)
  | .unanswered => (none, (c.execAt now s).2)

/-- A store function alone on the store: its commands come at the listed readings of the clock and
go as listed. What is not listed is not sent any more. -/
def runFaulty {α : Type} (x : StoreFlow α) (schedule : List (Nat × Fate)) (s : TimedStore) :
    Except Unit α × TimedStore :=
  let perform := fun (c : StoreCommand) (st : List (Nat × Fate) × TimedStore) =>
    let next := st.1.headD (0, .refused)
    let r := attempt next.1 c st.2 next.2
    (r.1, (st.1.tail, r.2))
  let r := x.run.eval perform (schedule, s)
  (r.1, r.2.2)

/-! ## Runs -/

inductive WindowEvent where
  | tick (ms : Nat)
  | incr (key : String) (fate : Fate)
  | pexpire (key : String) (fate : Fate)
  deriving DecidableEq

structure Windows where
  now : Nat
  store : TimedStore
  /-- The keys of the increments that were answered with one and have yet to send `PEXPIRE`. -/
  due : List String
  /-- When the counter of a key was opened last. -/
  opened : String → Nat

namespace Windows

/-- The counter of a key, if it is there. -/
def counter (w : Windows) (key : String) : Option (Lease Nat) := live w.now (w.store.counters key)

/-- One command of `increment_minute`, or the clock goes on. An increment that is cut off before its
second command is one whose `PEXPIRE` is refused. -/
def step (w : Windows) : WindowEvent → Windows
  | .tick ms => { w with now := w.now + ms }
  | .incr key fate =>
      { w with
        store := (attempt w.now (.incr key) w.store fate).2
        due := if (attempt w.now (.incr key) w.store fate).1 = some 1 then key :: w.due else w.due
        opened :=
          if fate ≠ .refused ∧ w.counter key = none then Function.update w.opened key w.now
          else w.opened }
  | .pexpire key fate =>
      if key ∈ w.due then
        { w with
          store := (attempt w.now (.pexpire key) w.store fate).2
          due := w.due.erase key }
      else w

def initial : Windows := ⟨0, TimedStore.empty, [], fun _ => 0⟩

def run (events : List WindowEvent) : Windows := events.foldl step initial

/-- The counter of the key, if it is there, ends at most a minute and `late` after it was opened; or
it was opened at most `late` ago, and its end is on the way. -/
def Ends (late : Nat) (key : String) (w : Windows) : Prop :=
  ∀ lease, w.counter key = some lease →
    (∃ instant, lease.expiresAt = some instant ∧ instant ≤ w.opened key + late + minuteTtl) ∨
      key ∈ w.due ∧ w.now ≤ w.opened key + late

/-- A counter of the key that is opened gets its end, and no later than `late`. -/
def Closes (late : Nat) (key : String) (w : Windows) : WindowEvent → Prop
  | .tick ms => key ∈ w.due → w.now + ms ≤ w.opened key + late
  | .incr other fate => other = key → w.counter key = none → fate ≠ .unanswered
  | .pexpire other fate => other = key → key ∈ w.due → fate ≠ .refused

/-! ## The commands -/

variable {w : Windows} {key : String} {fate : Fate}

section Commands

variable {now : Nat} {s : TimedStore}

/-- A command on one counter leaves the others. -/
theorem live_update_counters (x : Option (Lease Nat)) (k : String) :
    live now (Function.update (s.dropAt now).counters key x k) =
      if k = key then live now x else live now (s.counters k) := by
  rw [Function.update_apply]
  split
  · rfl
  · exact live_live (Nat.le_refl now) _

/-- What a command leaves does not depend on its answer. -/
theorem attempt_snd (c : StoreCommand) (h : fate ≠ .refused) :
    (attempt now c s fate).2 = (c.execAt now s).2 := by
  cases fate with
  | refused => exact absurd rfl h
  | performed => rfl
  | unanswered => rfl

theorem attempt_incr_none (h : live now (s.counters key) = none) (hfate : fate ≠ .refused)
    (k : String) : live now ((attempt now (.incr key) s fate).2.counters k) =
      if k = key then some ⟨1, none⟩ else live now (s.counters k) := by
  rw [attempt_snd _ hfate, execAt_incr_none h]
  exact live_update_counters _ k

theorem attempt_incr_some {lease : Lease Nat} (h : live now (s.counters key) = some lease)
    (hfate : fate ≠ .refused) (k : String) :
    live now ((attempt now (.incr key) s fate).2.counters k) =
      if k = key then some ⟨lease.value + 1, lease.expiresAt⟩ else live now (s.counters k) := by
  have hlive : live now (some ⟨lease.value + 1, lease.expiresAt⟩) =
      some ⟨lease.value + 1, lease.expiresAt⟩ := live_eq_some.mpr ⟨rfl, (live_eq_some.mp h).2⟩
  rw [attempt_snd _ hfate, execAt_incr_some h]
  rw [live_update_counters, hlive]

theorem attempt_pexpire {lease : Lease Nat} (h : live now (s.counters key) = some lease)
    (hfate : fate ≠ .refused) (k : String) :
    live now ((attempt now (.pexpire key) s fate).2.counters k) =
      if k = key then some ⟨lease.value, some (now + minuteTtl)⟩ else live now (s.counters k) := by
  have hlive : live now (some ⟨lease.value, some (now + minuteTtl)⟩) =
      some ⟨lease.value, some (now + minuteTtl)⟩ := live_of_lt (by unfold minuteTtl; omega) _
  have hsome : (s.dropAt now).counters key = some lease := h
  rw [attempt_snd _ hfate, StoreCommand.execAt, StoreCommand.execTimed, hsome]
  rw [live_update_counters, hlive]

/-- The end is sent for exactly after an answer of one. -/
theorem attempt_incr_one
    (hpos : ∀ lease, live now (s.counters key) = some lease → 0 < lease.value) :
    (attempt now (.incr key) s fate).1 = some 1 ↔
      fate = .performed ∧ live now (s.counters key) = none := by
  cases fate with
  | refused => simp [attempt]
  | unanswered => simp [attempt]
  | performed =>
      show some (StoreCommand.execAt now (.incr key) s).1 = some (1 : Nat) ↔ _
      cases hcounter : live now (s.counters key) with
      | none => simp [execAt_incr_none hcounter]
      | some lease =>
          have hvalue := hpos lease hcounter
          rw [execAt_incr_some hcounter]
          refine iff_of_false (fun hone => ?_) (by simp)
          have : lease.value + 1 = 1 := Option.some.inj hone
          omega

/-- Behind a function that succeeds. -/
theorem runAt_bind_ok {α β : Type} {x : StoreFlow α} {f : α → StoreFlow β} {s' : TimedStore} {a : α}
    (h : runAt now x s = (.ok a, s')) : runAt now (x >>= f) s = runAt now (f a) s' := by
  unfold runAt at h ⊢
  show Prog.eval _ (x.run >>= ExceptT.bindCont f) s = _
  rw [Prog.eval_bind, h]
  rfl

end Commands

/-- The three events are the commands of `incrementMinute` as it is run alone, with a pause between
them. -/
theorem store_increment (hdue : key ∉ w.due) (incr pexpire : Fate) (ms : Nat) :
    (((w.step (.incr key incr)).step (.tick ms)).step (.pexpire key pexpire)).store =
      (runFaulty (incrementMinute key) [(w.now, incr), (w.now + ms, pexpire)] w.store).2 := by
  cases incr with
  | refused => simp [step, attempt, hdue, runFaulty, incrementMinute]; rfl
  | unanswered => simp [step, attempt, hdue, runFaulty, incrementMinute]; rfl
  | performed =>
      show (if key ∈
          (if some (StoreCommand.execAt w.now (.incr key) w.store).1 = some (1 : Nat) then _
        else w.due) then _ else _ : Windows).store = (runFaulty (do
          if (StoreCommand.execAt w.now (.incr key) w.store).1 = 1
            then query (.pexpire key) else pure ()
          pure (StoreCommand.execAt w.now (.incr key) w.store).1) [(w.now + ms, pexpire)]
            (StoreCommand.execAt w.now (.incr key) w.store).2).2
      by_cases hone : (StoreCommand.execAt w.now (.incr key) w.store).1 = (1 : Nat)
      · rw [if_pos (congrArg some hone), if_pos List.mem_cons_self, if_pos hone]
        cases pexpire <;> rfl
      · rw [if_neg (fun h => hone (Option.some.inj h)), if_neg hdue, if_neg hone]
        rfl

/-! ## Steps -/

/-- What holds in every run, whatever fails: counters count from one, and an increment that has yet
to send its end is the only one of its key, with a counter that has no end. -/
structure Sound (w : Windows) : Prop where
  positive : ∀ key lease, w.counter key = some lease → 0 < lease.value
  waiting : ∀ key ∈ w.due, ∃ lease, w.counter key = some lease ∧ lease.expiresAt = none
  nodup : w.due.Nodup
  opened_le : ∀ key, w.opened key ≤ w.now

/-- The clock forgets counters, and makes none. -/
theorem counter_tick {ms : Nat} {lease : Lease Nat} :
    (w.step (.tick ms)).counter key = some lease ↔
      w.counter key = some lease ∧ lease.LiveAt (w.now + ms) := by
  rw [counter, counter, live_eq_some, live_eq_some]
  constructor
  · rintro ⟨hsome, hlive⟩
    refine ⟨⟨hsome, ?_⟩, hlive⟩
    rw [Lease.LiveAt, Option.all_eq_true] at hlive ⊢
    intro instant hinstant
    have hlater : w.now + ms < instant := of_decide_eq_true (hlive instant hinstant)
    simpa using (Nat.le_add_right w.now ms).trans_lt hlater
  · rintro ⟨⟨hsome, -⟩, hlive⟩
    exact ⟨hsome, hlive⟩

/-- What an increment does to the counters, to the ends that are due and to the times of opening. -/
theorem step_incr_cases (hs : w.Sound) (key : String) (fate : Fate) :
    fate = .refused ∧ w.step (.incr key fate) = w ∨
    (∃ lease, w.counter key = some lease ∧
      (∀ k, (w.step (.incr key fate)).counter k =
        if k = key then some ⟨lease.value + 1, lease.expiresAt⟩ else w.counter k) ∧
      (w.step (.incr key fate)).due = w.due ∧ (w.step (.incr key fate)).opened = w.opened) ∨
    w.counter key = none ∧ fate ≠ .refused ∧
      (∀ k, (w.step (.incr key fate)).counter k = if k = key then some ⟨1, none⟩ else w.counter k) ∧
      (w.step (.incr key fate)).due = (if fate = .performed then key :: w.due else w.due) ∧
      (w.step (.incr key fate)).opened = Function.update w.opened key w.now := by
  have hone : (attempt w.now (.incr key) w.store fate).1 = some 1 ↔
      fate = .performed ∧ w.counter key = none := attempt_incr_one (hs.positive key)
  by_cases hfate : fate = .refused
  · subst hfate
    exact .inl ⟨rfl, by simp [step, attempt]⟩
  refine .inr ?_
  cases hcounter : w.counter key with
  | some lease =>
      refine .inl ⟨lease, rfl, attempt_incr_some hcounter hfate, ?_, ?_⟩
      · exact if_neg fun h => by cases hcounter.symm.trans (hone.mp h).2
      · exact if_neg (by simp [hcounter])
  | none =>
      refine .inr ⟨rfl, hfate, attempt_incr_none hcounter hfate, ?_, if_pos ⟨hfate, hcounter⟩⟩
      show (if _ then key :: w.due else w.due) = _
      by_cases hperformed : fate = .performed
      · rw [if_pos (hone.mpr ⟨hperformed, hcounter⟩), if_pos hperformed]
      · rw [if_neg fun h => hperformed (hone.mp h).1, if_neg hperformed]

/-- What the second command does. -/
theorem step_pexpire_cases (hs : w.Sound) (key : String) (fate : Fate) :
    key ∉ w.due ∧ w.step (.pexpire key fate) = w ∨
    ∃ value, key ∈ w.due ∧ w.counter key = some ⟨value, none⟩ ∧
      (w.step (.pexpire key fate)).now = w.now ∧ (w.step (.pexpire key fate)).opened = w.opened ∧
      (w.step (.pexpire key fate)).due = w.due.erase key ∧
      ∀ k, (w.step (.pexpire key fate)).counter k =
        if k = key ∧ fate ≠ .refused then some ⟨value, some (w.now + minuteTtl)⟩
          else w.counter k := by
  by_cases hdue : key ∈ w.due
  · obtain ⟨⟨value, expiresAt⟩, hcounter, hend⟩ := hs.waiting key hdue
    cases hend
    have hstep : w.step (.pexpire key fate) = { w with
        store := (attempt w.now (.pexpire key) w.store fate).2
        due := w.due.erase key } := if_pos hdue
    refine .inr ⟨value, hdue, hcounter, by rw [hstep], by rw [hstep], by rw [hstep], fun k => ?_⟩
    rw [hstep]
    by_cases hfate : fate = .refused
    · rw [if_neg fun h => h.2 hfate, hfate]
      rfl
    · have hcounters := attempt_pexpire hcounter hfate k
      simp only [hfate, ne_eq, not_false_eq_true, and_true]
      exact hcounters
  · exact .inl ⟨hdue, if_neg hdue⟩

/-- Where there is no counter, no end is due. -/
theorem Sound.not_due (h : w.Sound) (hnone : w.counter key = none) : key ∉ w.due := by
  intro hkey
  obtain ⟨lease, hlease, -⟩ := h.waiting key hkey
  cases hnone.symm.trans hlease

theorem Sound.step (h : w.Sound) (event : WindowEvent) : (w.step event).Sound := by
  cases event with
  | tick ms =>
      refine ⟨fun k lease hlease => ?_, fun k hk => ?_, h.nodup, fun k => ?_⟩
      · exact h.positive k lease (counter_tick.mp hlease).1
      · obtain ⟨lease, hlease, hend⟩ := h.waiting k hk
        refine ⟨lease, counter_tick.mpr ⟨hlease, ?_⟩, hend⟩
        rw [Lease.LiveAt, hend]
        rfl
      · exact (h.opened_le k).trans (Nat.le_add_right _ _)
  | incr key fate =>
      obtain ⟨-, hsame⟩ | ⟨lease, hcounter, hcounters, hdue, hopened⟩ |
        ⟨hnone, hfate, hcounters, hdue, hopened⟩ := step_incr_cases h key fate
      · rw [hsame]
        exact h
      · refine ⟨fun k bumped hbumped => ?_, fun k hk => ?_, hdue ▸ h.nodup, hopened ▸ h.opened_le⟩
        · rw [hcounters] at hbumped
          split at hbumped
          · cases hbumped
            exact Nat.succ_pos _
          · exact h.positive k bumped hbumped
        · obtain ⟨old, hold, hend⟩ := h.waiting k (hdue ▸ hk)
          rw [hcounters]
          split
          · next hk =>
              rw [hk, hcounter] at hold
              cases hold
              exact ⟨_, rfl, hend⟩
          · exact ⟨old, hold, hend⟩
      · refine ⟨fun k lease hlease => ?_, fun k hk => ?_, ?_, fun k => ?_⟩
        · rw [hcounters] at hlease
          split at hlease
          · cases hlease
            exact Nat.one_pos
          · exact h.positive k lease hlease
        · rw [hcounters]
          split
          · exact ⟨_, rfl, rfl⟩
          · next hne =>
              have hold : k ∈ w.due := by
                rw [hdue] at hk
                split at hk
                · exact (List.mem_cons.mp hk).resolve_left hne
                · exact hk
              exact h.waiting k hold
        · rw [hdue]
          split
          · exact List.nodup_cons.mpr ⟨h.not_due hnone, h.nodup⟩
          · exact h.nodup
        · rw [hopened, Function.update_apply]
          split
          · exact Nat.le_refl _
          · exact h.opened_le k
  | pexpire key fate =>
      obtain ⟨-, hsame⟩ | ⟨value, -, hcounter, hnow, hopened, hdue, hcounters⟩ :=
        step_pexpire_cases h key fate
      · rw [hsame]
        exact h
      · refine ⟨fun k lease hlease => ?_, fun k hk => ?_, hdue ▸ h.nodup.erase key, fun k => ?_⟩
        · rw [hcounters] at hlease
          split at hlease
          · cases hlease
            exact h.positive key ⟨value, none⟩ hcounter
          · exact h.positive k lease hlease
        · -- another increment than the one that has sent its end now
          rw [hdue, h.nodup.mem_erase_iff] at hk
          rw [hcounters, if_neg fun hself => hk.1 hself.1]
          exact h.waiting k hk.2
        · rw [hopened, hnow]
          exact h.opened_le k

/-- Nothing that matters to the window of a key is different. -/
structure SameWindow (key : String) (w w' : Windows) : Prop where
  now : w'.now = w.now
  counter : w'.counter key = w.counter key
  due : key ∈ w'.due ↔ key ∈ w.due
  opened : w'.opened key = w.opened key

theorem SameWindow.ends {late : Nat} {w' : Windows} (h : SameWindow key w w')
    (hends : w.Ends late key) : w'.Ends late key := by
  rw [Ends, h.now, h.counter, h.due, h.opened]
  exact hends

/-- The commands for other keys. -/
theorem sameWindow_incr (hs : w.Sound) {other : String} (hne : key ≠ other) :
    SameWindow key w (w.step (.incr other fate)) := by
  obtain ⟨-, hsame⟩ | ⟨lease, -, hcounters, hdue, hopened⟩ | ⟨-, -, hcounters, hdue, hopened⟩ :=
    step_incr_cases hs other fate
  · rw [hsame]
    exact ⟨rfl, rfl, Iff.rfl, rfl⟩
  · exact ⟨rfl, by rw [hcounters, if_neg hne], by rw [hdue], by rw [hopened]⟩
  · refine ⟨rfl, by rw [hcounters, if_neg hne], ?_, by rw [hopened, Function.update_of_ne hne]⟩
    rw [hdue]
    split
    · simp [hne]
    · rfl

theorem sameWindow_pexpire (hs : w.Sound) {other : String} (hne : key ≠ other) :
    SameWindow key w (w.step (.pexpire other fate)) := by
  obtain ⟨-, hsame⟩ | ⟨value, -, -, hnow, hopened, hdue, hcounters⟩ :=
    step_pexpire_cases hs other fate
  · rw [hsame]
    exact ⟨rfl, rfl, Iff.rfl, rfl⟩
  · refine ⟨hnow, by rw [hcounters, if_neg fun h => hne h.1], ?_, by rw [hopened]⟩
    rw [hdue, List.mem_erase_of_ne hne]

/-- One step keeps the window of a key ending exactly if it closes what it opens. -/
theorem Ends.step_iff {late : Nat} (hs : w.Sound) (h : w.Ends late key) (event : WindowEvent) :
    (w.step event).Ends late key ↔ w.Closes late key event := by
  cases event with
  | tick ms =>
      constructor
      · intro hends hdue
        obtain ⟨lease, hlease, hend⟩ := hs.waiting key hdue
        have hlive : lease.LiveAt (w.now + ms) := by
          rw [Lease.LiveAt, hend]
          rfl
        obtain ⟨instant, hinstant, -⟩ | ⟨-, hlate⟩ := hends lease (counter_tick.mpr ⟨hlease, hlive⟩)
        · cases hend.symm.trans hinstant
        · exact hlate
      · intro hcloses lease hlease
        exact (h lease (counter_tick.mp hlease).1).imp id fun hdue => ⟨hdue.1, hcloses hdue.1⟩
  | incr other fate =>
      by_cases hkey : other = key
      · subst hkey
        obtain ⟨rfl, hsame⟩ | ⟨lease, hcounter, hcounters, hdue, hopened⟩ |
          ⟨hnone, hfate, hcounters, hdue, hopened⟩ := step_incr_cases hs other fate
        · rw [hsame]
          exact iff_of_true h fun _ _ => by simp
        · refine iff_of_true (fun bumped hbumped => ?_) fun _ hnone =>
            by cases hcounter.symm.trans hnone
          rw [hcounters, if_pos rfl] at hbumped
          cases hbumped
          rw [hdue, hopened]
          exact h lease hcounter
        · have hself : (w.step (.incr other fate)).counter other = some ⟨1, none⟩ := by
            rw [hcounters, if_pos rfl]
          constructor
          · rintro hends - - rfl
            -- the counter has no end, and nobody is about to send it
            obtain ⟨instant, hinstant, -⟩ | ⟨hlost, -⟩ := hends _ hself
            · cases hinstant
            · rw [hdue, if_neg (by simp)] at hlost
              exact hs.not_due hnone hlost
          · intro hcloses lease hlease
            cases hself.symm.trans hlease
            have hperformed : fate = .performed := by
              cases fate with
              | performed => rfl
              | refused => exact absurd rfl hfate
              | unanswered => exact absurd rfl (hcloses rfl hnone)
            refine .inr ⟨?_, ?_⟩
            · rw [hdue, if_pos hperformed]
              exact List.mem_cons_self
            · rw [hopened, Function.update_self]
              exact Nat.le_add_right _ _
      · refine iff_of_true ?_ fun heq => absurd heq hkey
        exact (sameWindow_incr hs (Ne.symm hkey)).ends h
  | pexpire other fate =>
      by_cases hkey : other = key
      · subst hkey
        obtain ⟨hdue, hsame⟩ | ⟨value, hwas, hcounter, hnow, hopened, hdue, hcounters⟩ :=
          step_pexpire_cases hs other fate
        · rw [hsame]
          exact iff_of_true h fun _ hwas => absurd hwas hdue
        · have hlate : w.now ≤ w.opened other + late := by
            obtain ⟨instant, hinstant, -⟩ | ⟨-, hlate⟩ := h _ hcounter
            · cases hinstant
            · exact hlate
          constructor
          · rintro hends - - rfl
            -- the increment is over, and its counter has no end
            have hself : (w.step (.pexpire other .refused)).counter other = some ⟨value, none⟩ := by
              rw [hcounters, if_neg fun hboth => hboth.2 rfl, hcounter]
            obtain ⟨instant, hinstant, -⟩ | ⟨hleft, -⟩ := hends _ hself
            · cases hinstant
            · rw [hdue] at hleft
              exact hs.nodup.not_mem_erase hleft
          · intro hcloses lease hlease
            rw [hcounters, if_pos ⟨rfl, hcloses rfl hwas⟩] at hlease
            cases hlease
            refine .inl ⟨_, rfl, ?_⟩
            rw [hopened]
            omega
      · refine iff_of_true ?_ fun heq => absurd heq hkey
        exact (sameWindow_pexpire hs (Ne.symm hkey)).ends h

/-! ## Runs and pauses -/

/-- How much time an event takes. -/
def duration : WindowEvent → Nat
  | .tick ms => ms
  | .incr _ _ => 0
  | .pexpire _ _ => 0

/-- The event is no increment of this key. -/
def Spares (key : String) : WindowEvent → Prop
  | .tick _ => True
  | .incr other _ => other ≠ key
  | .pexpire _ _ => True

theorem now_step (event : WindowEvent) : (w.step event).now = w.now + duration event := by
  cases event with
  | tick ms => rfl
  | incr key fate => rfl
  | pexpire key fate =>
      rw [step]
      split <;> rfl

/-- A counter that is not opened again keeps the time it was opened at. -/
theorem opened_spared {event : WindowEvent} (h : Spares key event) :
    (w.step event).opened key = w.opened key := by
  cases event with
  | tick ms => rfl
  | incr other fate =>
      show (if _ then Function.update w.opened other w.now else w.opened) key = w.opened key
      split
      · exact Function.update_of_ne (Ne.symm h) _ _
      · rfl
  | pexpire other fate =>
      rw [step]
      split <;> rfl

theorem pause {idle : List WindowEvent} (h : ∀ event ∈ idle, Spares key event) :
    (idle.foldl step w).now = w.now + (idle.map duration).sum ∧
      (idle.foldl step w).opened key = w.opened key := by
  induction idle generalizing w with
  | nil => exact ⟨rfl, rfl⟩
  | cons event idle ih =>
      obtain ⟨hfirst, hrest⟩ := List.forall_mem_cons.mp h
      obtain ⟨hnow, hopened⟩ := ih (w := w.step event) hrest
      rw [List.foldl_cons]
      constructor
      · rw [hnow, now_step, List.map_cons, List.sum_cons, Nat.add_assoc]
      · rw [hopened, opened_spared hfirst]

theorem run_snoc (events : List WindowEvent) (event : WindowEvent) :
    run (events ++ [event]) = (run events).step event := List.foldl_append

theorem run_sound (events : List WindowEvent) : (run events).Sound := by
  induction events using List.reverseRecOn with
  | nil =>
      refine ⟨fun key lease h => ?_, fun key h => ?_, List.nodup_nil, fun key => le_rfl⟩
      · cases h
      · cases h
  | append_singleton events event ih =>
      rw [run_snoc]
      exact ih.step event

theorem run_take_succ {events : List WindowEvent} {n : Nat} {event : WindowEvent}
    (h : events[n]? = some event) :
    run (events.take (n + 1)) = (run (events.take n)).step event := by
  rw [List.take_add_one, h]
  exact run_snoc _ _

/-- In every run, and for every `late`: the window of a key ends at most a minute and `late` after
it was opened, in every state (or was opened at most `late` ago, with its end on the way), exactly
if no increment that opens it loses its answer, and none has its second command fail or come more
than `late` after the first. A key that is left alone for more than a minute and `late` then counts
from one again. -/
theorem windows_end_iff (late : Nat) (key : String) (events : List WindowEvent) :
    ((∀ n, (run (events.take n)).Ends late key) ↔
      ∀ n event, events[n]? = some event → (run (events.take n)).Closes late key event) ∧
    ((∀ n, (run (events.take n)).Ends late key) → ∀ before idle, events = before ++ idle →
      (∀ event ∈ idle, Spares key event) → minuteTtl + late < (idle.map duration).sum →
        (runAt (run events).now (incrementMinute key) (run events).store).1 = .ok 1) := by
  constructor
  · constructor
    · intro hends n event hevent
      have hlater := hends (n + 1)
      rw [run_take_succ hevent] at hlater
      exact ((hends n).step_iff (run_sound _) event).mp hlater
    · intro hcloses n
      induction n with
      | zero =>
          intro lease h
          cases h
      | succ n ih =>
          cases hevent : events[n]? with
          | none =>
              -- the run is over
              rw [List.take_add_one, hevent]
              simpa using ih
          | some event =>
              rw [run_take_succ hevent]
              exact (ih.step_iff (run_sound _) event).mpr (hcloses n event hevent)
  · rintro hends before idle rfl hspares hlong
    have hlast := hends (before ++ idle).length
    rw [List.take_length] at hlast
    have hrun : run (before ++ idle) = idle.foldl step (run before) := List.foldl_append
    obtain ⟨hnow, hopened⟩ := pause (w := run before) hspares
    rw [← hrun] at hnow hopened
    have hearly := (run_sound before).opened_le key
    have hnone : (run (before ++ idle)).counter key = none := by
      by_contra hsome
      obtain ⟨lease, hlease⟩ := Option.ne_none_iff_exists'.mp hsome
      obtain ⟨instant, hinstant, hle⟩ | ⟨-, hle⟩ := hlast lease hlease
      · have hlive := (live_eq_some.mp hlease).2
        rw [Lease.LiveAt, hinstant] at hlive
        have hlater : (run (before ++ idle)).now < instant := of_decide_eq_true hlive
        omega
      · omega
    rw [runAt_incrementMinute_none hnone]

/-- Two requests at once: the end of the window comes 20 ms late, and its answer is lost, which does
not matter. -/
theorem windows_end_iff_late :
    let events := [.incr "ip" .performed, .tick 15, .incr "ip" .unanswered, .tick 5,
      .pexpire "ip" .unanswered, .tick 1000, .incr "ip" .performed, .tick 60021]
    (∀ n event, events[n]? = some event → (run (events.take n)).Closes 20 "ip" event) ∧
      (runAt (run events).now (incrementMinute "ip") (run events).store).1 = .ok 1 := by
  intro events
  have hcloses : ∀ n event, events[n]? = some event →
      (run (events.take n)).Closes 20 "ip" event := by
    intro n event hevent
    have hn : n < 8 := (List.getElem?_eq_some_iff.mp hevent).1
    interval_cases n <;> cases hevent
    · exact fun _ _ => by simp
    · exact fun _ => by decide +kernel
    · exact fun _ hnone => absurd hnone (by decide +kernel)
    · exact fun _ => by decide +kernel
    · exact fun _ _ => by simp
    · exact fun hdue => absurd hdue (by decide +kernel)
    · exact fun _ _ => by simp
    · exact fun hdue => absurd hdue (by decide +kernel)
  obtain ⟨hiff, hfirst⟩ := windows_end_iff 20 "ip" events
  refine ⟨hcloses, hfirst (hiff.mpr hcloses) (events.take 7) (events.drop 7) rfl ?_ (by decide)⟩
  exact List.forall_mem_singleton.mpr trivial

/-- One failed command and four more requests: the counter has no end and nobody is about to send
it, and the client is refused for good. -/
theorem window_never_ends :
    let key := "p256-index:rate:create:" ++ "ip"
    let events :=
      .incr key .performed :: .pexpire key .refused :: List.replicate 4 (.incr key .performed)
    (run events).counter key = some ⟨5, none⟩ ∧ (∀ late, ¬ (run events).Ends late key) ∧
      ∀ ms, (runAt (run (events ++ [.tick ms])).now (allowIpCreate "ip")
        (run (events ++ [.tick ms])).store).1 = .ok false := by
  intro key events
  have hcounter : (run events).counter key = some ⟨5, none⟩ := by decide +kernel
  have hdue : (run events).due = [] := by decide +kernel
  refine ⟨hcounter, ?_, ?_⟩
  · intro late hends
    obtain ⟨instant, hinstant, -⟩ | ⟨hwaiting, -⟩ := hends _ hcounter
    · cases hinstant
    · rw [hdue] at hwaiting
      cases hwaiting
  · intro ms
    rw [run_snoc]
    obtain ⟨hsome, -⟩ := live_eq_some.mp hcounter
    generalize run events = w at hsome
    have hstays : live (w.step (.tick ms)).now ((w.step (.tick ms)).store.counters key) =
        some ⟨5, none⟩ :=
      live_eq_some.mpr ⟨hsome, rfl⟩
    have hcount := runAt_incrementMinute_some hstays (by decide)
    rw [allowIpCreate, runAt_bind_ok hcount]
    rfl

end Windows

end P256Index.Server
