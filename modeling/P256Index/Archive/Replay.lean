import P256Index.Contract.Repeated

/-!
# Replaying an archive

`replay` of the replay tool: registers first, then refers, each group of rows shuffled on request. A
row is called against the target before it is sent; a duplicate error means that its record is
there, and a refer whose group is not there yet waits for the next round. A round in which every row
waits is the last one.

The loop of the source has no bound. The model's has one, and exceeding it is an exit of its own, so
that `replay_settles` can say how many rounds are enough. It also says that every row is accounted
for, and that what one run against a registry settled stays settled in the next.
-/

namespace P256Index.Replay

open Contract (Evm Domain Registry Reachable Grows call)
open Contract.Verify (Kind Row CallOutcome Settled outcomeOf)

/-! ## The shuffle -/

/-- The xorshift stream. -/
def next (state : UInt64) : UInt64 :=
  let state := state ^^^ (state <<< 13)
  let state := state ^^^ (state >>> 7)
  state ^^^ (state <<< 17)

/-- The swaps from position `i` down to position 1. -/
def shuffleFrom {α : Type} : Nat → UInt64 → Array α → Array α
  | 0, _, items => items
  | i + 1, state, items =>
      let state := next state
      shuffleFrom i state (items.swapIfInBounds (i + 1) (state.toNat % (i + 2)))

/-- Fisher–Yates. -/
def shuffle {α : Type} (items : List α) (seed : UInt64) : List α :=
  (shuffleFrom (items.length - 1) (seed ||| 1) items.toArray).toList

theorem shuffleFrom_perm {α : Type} (i : Nat) (state : UInt64) (items : Array α) :
    (shuffleFrom i state items).toList.Perm items.toList := by
  induction i generalizing state items with
  | zero => exact .refl _
  | succ i ih =>
      refine (ih (next state) _).trans ?_
      unfold Array.swapIfInBounds
      split
      · split
        · next h₁ h₂ => exact Array.perm_iff_toList_perm.mp (Array.swap_perm h₁ h₂)
        · exact .refl _
      · exact .refl _

theorem shuffle_perm {α : Type} (items : List α) (seed : UInt64) :
    (shuffle items seed).Perm items :=
  shuffleFrom_perm _ _ _

/-! ## The loop -/

/-- The requests of the tool: a call without sending, and a write up to its receipt. -/
inductive Operation where
  | call (input : Bytes)
  | sendWrite (input : Bytes)
  deriving DecidableEq

/-- A request without an answer ends the tool: a transport failure, a write that reverted or has no
receipt in time. -/
abbrev Answer : Operation → Type
  | .call _ => Option CallOutcome
  | .sendWrite _ => Option String

/-- What the tool reports. -/
structure Tally where
  sent : Nat
  present : Nat
  failed : List String
  deriving DecidableEq

inductive Failure where
  | aborted
  | writesFailed (tally : Tally)
  | unfinished
  deriving DecidableEq

abbrev ReplayFlow := Flow Operation Answer Failure

abbrev Trace := List (Sigma Answer)

/-- `GroupNotFound(bytes32)`. -/
def groupNotFound : UInt32 := 0xdec308b4

/-- One round over the queue. -/
def runRound :
    List (Row × UInt32) → Tally → List (Row × UInt32) → ReplayFlow (Tally × List (Row × UInt32))
  | [], tally, retry => pure (tally, retry)
  | (row, duplicate) :: queue, tally, retry => do
      match ← Flow.request (Operation.call row.input) with
      | none => throw .aborted
      | some .ok =>
          match ← Flow.request (Operation.sendWrite row.input) with
          | none => throw .aborted
          | some _ => runRound queue { tally with sent := tally.sent + 1 } retry
      | some (.reverted found) =>
          if found = some duplicate then
            runRound queue { tally with present := tally.present + 1 } retry
          else if found = some groupNotFound ∧ row.kind = .refer then
            runRound queue tally (retry ++ [(row, duplicate)])
          else
            runRound queue { tally with failed := tally.failed ++ [row.txHash] } retry

/-- The rounds, `limit` of them at most. -/
def runRounds : Nat → List (Row × UInt32) → Tally → ReplayFlow Tally
  | 0, queue, tally => if queue = [] then pure tally else throw .unfinished
  | limit + 1, queue, tally =>
      if queue = [] then pure tally
      else do
        let (tally, retry) ← runRound queue tally []
        if retry.length = queue.length then
          -- the groups of these refers never appeared
          pure { tally with failed := tally.failed ++ retry.map fun item => item.1.txHash }
        else runRounds limit retry tally

theorem runRounds_nil (limit : Nat) (tally : Tally) : runRounds limit [] tally = pure tally := by
  cases limit with
  | zero => rfl
  | succ limit => rfl

def registers (rows : List Row) : List Row := rows.filter fun row => row.kind = .register

def refers (rows : List Row) : List Row := rows.filter fun row => row.kind = .refer

/-- Registers first, since refers need their group. -/
def queueOf (registers refers : List Row) : List (Row × UInt32) :=
  registers.map (fun row => (row, 0x10eafb1a)) ++ refers.map fun row => (row, 0x40709c5d)

def replay (limit : Nat) (rows : List Row) (shuffleSeed : Option UInt64) : ReplayFlow Tally := do
  let queue := match shuffleSeed with
    | none => queueOf (registers rows) (refers rows)
    | some seed => queueOf (shuffle (registers rows) seed) (shuffle (refers rows) (seed + 1))
  let tally ← runRounds limit queue ⟨0, 0, []⟩
  if tally.failed ≠ [] then throw (.writesFailed tally)
  pure tally

/-! ## The queue -/

/-- A row in the queue stands beside the duplicate error of its kind. -/
def tagged (row : Row) : Row × UInt32 := (row, row.kind.duplicate)

theorem map_tagged {rows : List Row} {kind : Kind} (h : ∀ row ∈ rows, row.kind = kind) :
    rows.map tagged = rows.map fun row => (row, kind.duplicate) := by
  apply List.map_congr_left
  intro row hrow
  rw [tagged, h row hrow]

theorem queueOf_eq {regs refs : List Row} (hregs : ∀ row ∈ regs, row.kind = .register)
    (hrefs : ∀ row ∈ refs, row.kind = .refer) : queueOf regs refs = (regs ++ refs).map tagged := by
  rw [List.map_append, map_tagged hregs, map_tagged hrefs]
  rfl

theorem kind_of_mem_registers {rows : List Row} {row : Row} (h : row ∈ registers rows) :
    row.kind = .register := by
  simpa using (List.mem_filter.mp h).2

theorem kind_of_mem_refers {rows : List Row} {row : Row} (h : row ∈ refers rows) :
    row.kind = .refer := by
  simpa using (List.mem_filter.mp h).2

/-- Every row is a register or a refer. -/
theorem registers_append_refers (rows : List Row) : (registers rows ++ refers rows).Perm rows := by
  have hrefers : refers rows = rows.filter fun row => !decide (row.kind = .register) := by
    apply List.filter_congr
    intro row _
    cases row.kind with
    | register => rfl
    | refer => rfl
  rw [hrefers]
  exact List.filter_append_perm _ rows

/-- With or without a seed the queue holds the rows, each once. -/
theorem replay_eq (limit : Nat) (rows : List Row) (seed : Option UInt64) :
    ∃ ordered : List Row, ordered.Perm rows ∧ replay limit rows seed = (do
      let tally ← runRounds limit (ordered.map tagged) ⟨0, 0, []⟩
      if tally.failed ≠ [] then throw (.writesFailed tally)
      pure tally) := by
  cases seed with
  | none =>
      refine ⟨registers rows ++ refers rows, registers_append_refers rows, ?_⟩
      rw [← queueOf_eq (fun _ => kind_of_mem_registers) (fun _ => kind_of_mem_refers)]
      rfl
  | some seed =>
      have hregs := shuffle_perm (registers rows) seed
      have hrefs := shuffle_perm (refers rows) (seed + 1)
      refine ⟨shuffle (registers rows) seed ++ shuffle (refers rows) (seed + 1), ?_, ?_⟩
      · exact (hregs.append hrefs).trans (registers_append_refers rows)
      · rw [← queueOf_eq (fun _ h => kind_of_mem_registers (hregs.mem_iff.mp h))
          (fun _ h => kind_of_mem_refers (hrefs.mem_iff.mp h))]
        rfl

/-! ## Accounts -/

/-- The payloads that were written. -/
def writes (tr : Trace) : List Bytes :=
  tr.filterMap fun
    | ⟨.sendWrite input, some _⟩ => some input
    | _ => none

/-- The target reported the duplicate error of the row's kind. -/
def Confirmed (tr : Trace) (row : Row) : Prop :=
  ⟨.call row.input, some (.reverted (some row.kind.duplicate))⟩ ∈ tr

/-- The target reported another error. -/
def Refused (tr : Trace) (row : Row) : Prop :=
  ∃ found, found ≠ some row.kind.duplicate ∧ ⟨.call row.input, some (.reverted found)⟩ ∈ tr

/-- The run shows what became of these rows. -/
structure Accounts (tr : Trace) (written present failed : List Row) : Prop where
  written : writes tr = written.map Row.input
  present : ∀ row ∈ present, Confirmed tr row
  failed : ∀ row ∈ failed, Refused tr row

namespace Accounts

variable {tr tr' : Trace} {written present failed written' present' failed' : List Row} {row : Row}

theorem nil : Accounts [] [] [] [] where
  written := rfl
  present := by simp
  failed := by simp

theorem append (h : Accounts tr written present failed)
    (h' : Accounts tr' written' present' failed') :
    Accounts (tr ++ tr') (written ++ written') (present ++ present') (failed ++ failed') where
  written := by
    have hw := h.written
    have hw' := h'.written
    rw [writes] at hw hw' ⊢
    rw [List.filterMap_append, hw, hw', List.map_append]
  present := by
    intro row hrow
    rcases List.mem_append.mp hrow with hrow | hrow
    · exact List.mem_append_left _ (h.present row hrow)
    · exact List.mem_append_right _ (h'.present row hrow)
  failed := by
    intro row hrow
    rcases List.mem_append.mp hrow with hrow | hrow
    · obtain ⟨found, hfound, hmem⟩ := h.failed row hrow
      exact ⟨found, hfound, List.mem_append_left _ hmem⟩
    · obtain ⟨found, hfound, hmem⟩ := h'.failed row hrow
      exact ⟨found, hfound, List.mem_append_right _ hmem⟩

theorem of_failed_subset (h : Accounts tr written present failed) (hsub : failed' ⊆ failed) :
    Accounts tr written present failed' where
  written := h.written
  present := h.present
  failed := fun row hrow => h.failed row (hsub hrow)

theorem sent (hash : String) :
    Accounts [⟨.call row.input, some .ok⟩, ⟨.sendWrite row.input, some hash⟩] [row] [] [] where
  written := rfl
  present := by simp
  failed := by simp

theorem confirmed :
    Accounts [⟨.call row.input, some (.reverted (some row.kind.duplicate))⟩] [] [row] [] where
  written := rfl
  present := by simp [Confirmed]
  failed := by simp

theorem refused {found : Option UInt32} (hfound : found ≠ some row.kind.duplicate) :
    Accounts [⟨.call row.input, some (.reverted found)⟩] [] [] [row] where
  written := rfl
  present := by simp
  failed := by
    intro other hother
    obtain rfl := List.mem_singleton.mp hother
    exact ⟨found, hfound, List.mem_singleton.mpr rfl⟩

end Accounts

/-- The report on these rows, from where the tally stood. -/
def Tally.add (tally : Tally) (written present failed : List Row) : Tally :=
  ⟨tally.sent + written.length, tally.present + present.length,
    tally.failed ++ failed.map Row.txHash⟩

theorem Tally.add_add (tally : Tally) (w p f w' p' f' : List Row) :
    (tally.add w p f).add w' p' f' = tally.add (w ++ w') (p ++ p') (f ++ f') := by
  simp only [Tally.add, List.length_append, List.map_append, List.append_assoc, Nat.add_assoc]

/-- What one round makes of the rows: `again` is what it leaves for the next. -/
structure Round (rows : List Row) (tally : Tally) (retry : List Row) (tr : Trace) (tally' : Tally)
    (queue : List (Row × UInt32)) (written present failed again : List Row) : Prop where
  rows_perm : (written ++ present ++ (failed ++ again)).Perm rows
  again_refers : ∀ row ∈ again, row.kind = .refer
  queue_eq : queue = (retry ++ again).map tagged
  tally_eq : tally' = tally.add written present failed
  accounts : Accounts tr written present (failed ++ again)

namespace Round

variable {rows : List Row} {tally tally' : Tally} {retry : List Row} {tr : Trace}
  {queue : List (Row × UInt32)} {written present failed again : List Row} {row : Row}

theorem nil : Round [] tally retry [] tally (retry.map tagged) [] [] [] [] where
  rows_perm := .refl _
  again_refers := by simp
  queue_eq := by simp
  tally_eq := by simp [Tally.add]
  accounts := .nil

theorem write (hash : String)
    (h : Round rows { tally with sent := tally.sent + 1 } retry tr tally' queue written present
      failed again) :
    Round (row :: rows) tally retry
      (⟨.call row.input, some .ok⟩ :: ⟨.sendWrite row.input, some hash⟩ :: tr) tally'
      queue (row :: written) present failed again where
  rows_perm := h.rows_perm.cons row
  again_refers := h.again_refers
  queue_eq := h.queue_eq
  tally_eq := by
    rw [h.tally_eq]
    simp only [Tally.add, List.length_cons, Tally.mk.injEq, and_true]
    omega
  accounts := (Accounts.sent hash).append h.accounts

theorem confirm
    (h : Round rows { tally with present := tally.present + 1 } retry tr tally' queue written
      present failed again) :
    Round (row :: rows) tally retry
      (⟨.call row.input, some (.reverted (some row.kind.duplicate))⟩ :: tr) tally'
      queue written (row :: present) failed again where
  rows_perm := by
    rw [List.append_assoc]
    refine List.perm_middle.trans (.cons row ?_)
    have hperm := h.rows_perm
    rwa [List.append_assoc] at hperm
  again_refers := h.again_refers
  queue_eq := h.queue_eq
  tally_eq := by
    rw [h.tally_eq]
    simp only [Tally.add, List.length_cons, Tally.mk.injEq, and_true, true_and]
    omega
  accounts := Accounts.confirmed.append h.accounts

theorem fail {found : Option UInt32} (hfound : found ≠ some row.kind.duplicate)
    (h : Round rows { tally with failed := tally.failed ++ [row.txHash] } retry tr tally' queue
      written present failed again) :
    Round (row :: rows) tally retry (⟨.call row.input, some (.reverted found)⟩ :: tr) tally' queue
      written present (row :: failed) again where
  rows_perm := List.perm_middle.trans (h.rows_perm.cons row)
  again_refers := h.again_refers
  queue_eq := h.queue_eq
  tally_eq := h.tally_eq.trans (Tally.add_add tally [] [] [row] written present failed)
  accounts := (Accounts.refused hfound).append h.accounts

theorem wait {found : Option UInt32} (hfound : found ≠ some row.kind.duplicate)
    (hkind : row.kind = .refer)
    (h : Round rows tally (retry ++ [row]) tr tally' queue written present failed again) :
    Round (row :: rows) tally retry (⟨.call row.input, some (.reverted found)⟩ :: tr) tally' queue
      written present failed (row :: again) where
  rows_perm := by
    rw [← List.append_assoc]
    refine List.perm_middle.trans (.cons row ?_)
    rw [List.append_assoc]
    exact h.rows_perm
  again_refers := List.forall_mem_cons.mpr ⟨hkind, h.again_refers⟩
  queue_eq := by rw [h.queue_eq, List.append_assoc, List.singleton_append]
  tally_eq := h.tally_eq
  accounts := by
    refine ((Accounts.refused hfound).append h.accounts).of_failed_subset ?_
    intro other hother
    simpa [or_left_comm] using hother

end Round

/-- A round that is not aborted sorts the rows. -/
theorem runRound_ensures (rows : List Row) (tally : Tally) (retry : List Row) :
    Flow.Ensures (runRound (rows.map tagged) tally (retry.map tagged)) fun tr r =>
      r = .error .aborted ∨ ∃ tally' queue written present failed again, r = .ok (tally', queue) ∧
        Round rows tally retry tr tally' queue written present failed again := by
  induction rows generalizing tally retry with
  | nil => exact Flow.ensures_pure.mpr (.inr ⟨_, _, [], [], [], [], rfl, .nil⟩)
  | cons row rows ih =>
      refine Flow.ensures_request_bind.mpr fun answer => ?_
      match answer with
      | none => exact Flow.ensures_throw.mpr (.inl rfl)
      | some .ok =>
          refine Flow.ensures_request_bind.mpr fun receipt => ?_
          cases receipt with
          | none => exact Flow.ensures_throw.mpr (.inl rfl)
          | some hash =>
              refine (ih _ retry).mono fun tr r hrest => hrest.imp_right ?_
              rintro ⟨tally', queue, w, p, f, again, hr, hround⟩
              exact ⟨tally', queue, row :: w, p, f, again, hr, hround.write hash⟩
      | some (.reverted found) =>
          dsimp only
          split
          · next hfound =>
            subst hfound
            refine (ih _ retry).mono fun tr r hrest => hrest.imp_right ?_
            rintro ⟨tally', queue, w, p, f, again, hr, hround⟩
            exact ⟨tally', queue, w, row :: p, f, again, hr, hround.confirm⟩
          next hfound =>
          split
          · next hwaits =>
            have hrun := ih tally (retry ++ [row])
            rw [List.map_append] at hrun
            refine hrun.mono fun tr r hrest => hrest.imp_right ?_
            rintro ⟨tally', queue, w, p, f, again, hr, hround⟩
            exact ⟨tally', queue, w, p, f, row :: again, hr, hround.wait hfound hwaits.2⟩
          · refine (ih _ retry).mono fun tr r hrest => hrest.imp_right ?_
            rintro ⟨tally', queue, w, p, f, again, hr, hround⟩
            exact ⟨tally', queue, w, p, row :: f, again, hr, hround.fail hfound⟩

/-! ## All rounds -/

/-- Only refers wait. -/
theorem length_again_le {rows : List Row} {tally tally' : Tally} {retry : List Row} {tr : Trace}
    {queue : List (Row × UInt32)} {written present failed again : List Row}
    (h : Round rows tally retry tr tally' queue written present failed again) :
    again.length ≤ (refers rows).length := by
  have hagain : refers again = again :=
    List.filter_eq_self.mpr fun row hrow => by simpa using h.again_refers row hrow
  have hperm : (refers (written ++ present ++ (failed ++ again))).Perm (refers rows) :=
    h.rows_perm.filter _
  rw [← hperm.length_eq]
  simp only [refers, List.filter_append, List.length_append] at hagain ⊢
  rw [hagain]
  omega

/-- The rows of a round and of the rounds after it. -/
theorem perm_rounds {rows again w p f w' p' f' : List Row} (h : (w ++ p ++ (f ++ again)).Perm rows)
    (h' : (w' ++ p' ++ f').Perm again) : ((w ++ w') ++ (p ++ p') ++ (f ++ f')).Perm rows := by
  have hsplit : ((w ++ w') ++ (p ++ p') ++ (f ++ f')).Perm (w ++ p ++ (f ++ (w' ++ p' ++ f'))) := by
    rw [← Multiset.coe_eq_coe]
    simp only [← Multiset.coe_add]
    abel
  exact hsplit.trans (((List.Perm.refl _).append ((List.Perm.refl _).append h')).trans h)

/-- A round ends the loop or leaves fewer rows, all of them refers; so the limit that is enough
falls by one with each round. -/
theorem runRounds_ensures (limit : Nat) (rows : List Row) (tally : Tally)
    (hlimit : rows.length ≤ limit ∨ (refers rows).length < limit) :
    Flow.Ensures (runRounds limit (rows.map tagged) tally) fun tr r =>
      r = .error .aborted ∨ ∃ written present failed, r = .ok (tally.add written present failed) ∧
        (written ++ present ++ failed).Perm rows ∧ Accounts tr written present failed := by
  have hnil : ∀ {n : Nat} {t : Tally}, Flow.Ensures (runRounds n [] t) fun tr r =>
      r = .error .aborted ∨ ∃ written present failed, r = .ok (t.add written present failed) ∧
        (written ++ present ++ failed).Perm [] ∧ Accounts tr written present failed := by
    intro n t
    rw [runRounds_nil]
    refine Flow.ensures_pure.mpr (.inr ⟨[], [], [], ?_, .refl _, .nil⟩)
    simp [Tally.add]
  induction limit generalizing rows tally with
  | zero =>
      obtain rfl : rows = [] := by
        apply List.eq_nil_of_length_eq_zero
        omega
      exact hnil
  | succ limit ih =>
      by_cases hrows : rows = []
      · subst hrows
        exact hnil
      have hqueue : rows.map tagged ≠ [] := by simpa using hrows
      rw [runRounds, if_neg hqueue]
      refine Flow.Ensures.bind (runRound_ensures rows tally []) ?_ ?_
      · rintro tr e (habort | ⟨_, _, _, _, _, _, hr, -⟩)
        · cases habort
          exact .inl rfl
        · cases hr
      rintro tr ⟨tally', queue⟩ (habort | ⟨t, q, w, p, f, again, hr, hround⟩)
      · cases habort
      cases hr
      have hagain : queue = again.map tagged := hround.queue_eq
      dsimp only
      split
      · -- nothing moved: the rows that wait are the rows that failed last
        refine Flow.ensures_pure.mpr (.inr ⟨w, p, f ++ again, ?_, hround.rows_perm, ?_⟩)
        · rw [hagain, hround.tally_eq, List.map_map]
          simp [Tally.add, tagged, Function.comp_def]
        · rw [List.append_nil]
          exact hround.accounts
      next hmoved =>
        have hlength := hround.rows_perm.length_eq
        have hrefers := length_again_le hround
        simp only [List.length_append, hagain, List.length_map] at hlength hmoved
        rw [hagain]
        refine (ih again tally' (.inl (by omega))).mono fun rest r hrest => hrest.imp_right ?_
        rintro ⟨w', p', f', rfl, hperm, haccounts⟩
        refine ⟨w ++ w', p ++ p', f ++ f', ?_, perm_rounds hround.rows_perm hperm, ?_⟩
        · rw [hround.tally_eq, Tally.add_add]
        · exact (hround.accounts.of_failed_subset (List.subset_append_left f again)).append
            haccounts

/-- The result of the tool for these rows. -/
def report (written present failed : List Row) : Except Failure Tally :=
  let tally : Tally := ⟨written.length, present.length, failed.map Row.txHash⟩
  if failed = [] then .ok tally else .error (.writesFailed tally)

theorem replay_ensures (limit : Nat) (rows : List Row) (seed : Option UInt64)
    (hlimit : (refers rows).length < limit) :
    Flow.Ensures (replay limit rows seed) fun tr r =>
      r = .error .aborted ∨ ∃ written present failed, (written ++ present ++ failed).Perm rows ∧
        Accounts tr written present failed ∧ r = report written present failed := by
  obtain ⟨ordered, hordered, hreplay⟩ := replay_eq limit rows seed
  have hrefers : (refers ordered).length < limit := by
    rw [refers, (hordered.filter _).length_eq]
    exact hlimit
  rw [hreplay]
  refine Flow.Ensures.bind (runRounds_ensures limit ordered _ (.inr hrefers)) ?_ ?_
  · rintro tr e (habort | ⟨_, _, _, hr, -⟩)
    · cases habort
      exact .inl rfl
    · cases hr
  rintro tr tally (habort | ⟨w, p, f, hr, hperm, haccounts⟩)
  · cases habort
  obtain rfl : tally = ⟨w.length, p.length, f.map Row.txHash⟩ := by
    cases hr
    simp [Tally.add]
  by_cases hf : f = []
  · subst hf
    refine Flow.ensures_pure.mpr (.inr ⟨w, p, [], hperm.trans hordered, ?_, rfl⟩)
    rw [List.append_nil]
    exact haccounts
  · have hfailed : f.map Row.txHash ≠ [] := by simpa using hf
    dsimp only
    rw [if_pos hfailed]
    have hexit : Flow.Ensures
        (throw (.writesFailed ⟨w.length, p.length, f.map Row.txHash⟩) : ReplayFlow Unit)
        fun tr r => tr = [] ∧ r = .error (.writesFailed ⟨w.length, p.length, f.map Row.txHash⟩) :=
      Flow.ensures_throw.mpr ⟨rfl, rfl⟩
    refine Flow.Ensures.bind hexit ?_ ?_
    · rintro rest e ⟨rfl, he⟩
      refine .inr ⟨w, p, f, hperm.trans hordered, ?_, ?_⟩
      · rw [List.append_nil]
        exact haccounts
      · cases he
        rw [report, if_neg hf]
    · rintro rest u ⟨-, hu⟩
      cases hu

/-! ## Against a registry -/

/-- The requests of the trace act on a registry that nobody else writes to: a call answers what the
contract would do, at some block time, and a write with a receipt was accepted. A write without one
may have been. -/
inductive Against (E : Evm) (d : Domain) : Registry → Trace → Registry → Prop
  | nil {s : Registry} : Against E d s [] s
  | call {s s' : Registry} {tr : Trace} {input : Bytes} {outcome : CallOutcome} {now : Nat} :
      outcome = outcomeOf (Contract.call E d now input s) → Against E d s tr s' →
        Against E d s (⟨.call input, some outcome⟩ :: tr) s'
  | callLost {s s' : Registry} {tr : Trace} {input : Bytes} :
      Against E d s tr s' → Against E d s (⟨.call input, none⟩ :: tr) s'
  | sendWrite {s t s' : Registry} {tr : Trace} {input : Bytes} {now : Nat} (hash : String) :
      Contract.call E d now input s = .ok t → Against E d t tr s' →
        Against E d s (⟨.sendWrite input, some hash⟩ :: tr) s'
  | sendUnseen {s t s' : Registry} {tr : Trace} {input : Bytes} {now : Nat} :
      Contract.call E d now input s = .ok t → Against E d t tr s' →
        Against E d s (⟨.sendWrite input, none⟩ :: tr) s'
  | sendLost {s s' : Registry} {tr : Trace} {input : Bytes} :
      Against E d s tr s' → Against E d s (⟨.sendWrite input, none⟩ :: tr) s'

section Registry

variable {E : Evm} {d : Domain} {s s' : Registry} {tr : Trace} {row : Row}

theorem Against.settled (h : Against E d s tr s') (hs : Reachable E d s) (hrow : Settled E s row) :
    Settled E s' row := by
  induction h with
  | nil => exact hrow
  | call _ _ ih => exact ih hs hrow
  | callLost _ ih => exact ih hs hrow
  | sendWrite _ hcall _ ih => exact ih (.call hs hcall) (hrow.mono (Contract.call_grows hs hcall).1)
  | sendUnseen hcall _ ih => exact ih (.call hs hcall) (hrow.mono (Contract.call_grows hs hcall).1)
  | sendLost _ ih => exact ih hs hrow

theorem Against.reachable (h : Against E d s tr s') (hs : Reachable E d s) : Reachable E d s' := by
  induction h with
  | nil => exact hs
  | call _ _ ih => exact ih hs
  | callLost _ ih => exact ih hs
  | sendWrite _ hcall _ ih => exact ih (.call hs hcall)
  | sendUnseen hcall _ ih => exact ih (.call hs hcall)
  | sendLost _ ih => exact ih hs

/-- There is a registry between any two requests. -/
theorem Against.split {tr₁ tr₂ : Trace} (h : Against E d s (tr₁ ++ tr₂) s') :
    ∃ t, Against E d s tr₁ t ∧ Against E d t tr₂ s' := by
  induction tr₁ generalizing s with
  | nil => exact ⟨s, .nil, h⟩
  | cons step tr₁ ih =>
      cases h with
      | call houtcome h =>
          obtain ⟨t, h₁, h₂⟩ := ih h
          exact ⟨t, .call houtcome h₁, h₂⟩
      | callLost h =>
          obtain ⟨t, h₁, h₂⟩ := ih h
          exact ⟨t, .callLost h₁, h₂⟩
      | sendWrite hash hcall h =>
          obtain ⟨t, h₁, h₂⟩ := ih h
          exact ⟨t, .sendWrite hash hcall h₁, h₂⟩
      | sendUnseen hcall h =>
          obtain ⟨t, h₁, h₂⟩ := ih h
          exact ⟨t, .sendUnseen hcall h₁, h₂⟩
      | sendLost h =>
          obtain ⟨t, h₁, h₂⟩ := ih h
          exact ⟨t, .sendLost h₁, h₂⟩

/-- A row that was written is settled. -/
theorem Against.settled_of_written (h : Against E d s tr s') (hs : Reachable E d s)
    (hrow : row.Honest E) (hwritten : row.input ∈ writes tr) : Settled E s' row := by
  obtain ⟨hash, hmem⟩ : ∃ hash, ⟨.sendWrite row.input, some hash⟩ ∈ tr := by
    obtain ⟨step, hstep, hinput⟩ := List.mem_filterMap.mp hwritten
    obtain ⟨op, answer⟩ := step
    match op, answer, hinput with
    | .sendWrite input, some hash, hinput =>
        cases hinput
        exact ⟨hash, hstep⟩
  obtain ⟨tr₁, tr₂, rfl⟩ := List.append_of_mem hmem
  obtain ⟨t, hbefore, hafter⟩ := h.split
  have ht : Reachable E d t := hbefore.reachable hs
  cases hafter with
  | sendWrite _ hcall hrest =>
      exact hrest.settled (.call ht hcall) (Contract.Verify.settled_of_ok ht hrow hcall)

/-- A row that was confirmed is settled. -/
theorem Against.settled_of_confirmed (h : Against E d s tr s') (hs : Reachable E d s)
    (hconfirmed : Confirmed tr row) : Settled E s' row := by
  obtain ⟨tr₁, tr₂, rfl⟩ := List.append_of_mem hconfirmed
  obtain ⟨t, hbefore, hafter⟩ := h.split
  have ht : Reachable E d t := hbefore.reachable hs
  cases hafter with
  | call houtcome hrest =>
      exact hrest.settled ht (Contract.Verify.settled_of_outcome ht houtcome.symm)

/-- A successful run against a registry settles every row. -/
theorem settled_of_replay {limit : Nat} {rows : List Row} {seed : Option UInt64} {tally : Tally}
    (hlimit : (refers rows).length < limit) (hs : Reachable E d s)
    (hrows : ∀ row ∈ rows, row.Honest E) (hrun : (replay limit rows seed).Runs tr (.ok tally))
    (hagainst : Against E d s tr s') :
    ∀ row ∈ rows, Settled E s' row := by
  intro row hrow
  rcases replay_ensures limit rows seed hlimit tr _ hrun with
    habort | ⟨w, p, f, hperm, haccounts, hreport⟩
  · cases habort
  obtain rfl : f = [] := by
    by_contra hf
    rw [report, if_neg hf] at hreport
    cases hreport
  rw [List.append_nil] at hperm
  rcases List.mem_append.mp (hperm.mem_iff.mpr hrow) with hwritten | hpresent
  · apply hagainst.settled_of_written hs (hrows row hrow)
    rw [haccounts.written]
    exact List.mem_map_of_mem hwritten
  · exact hagainst.settled_of_confirmed hs (haccounts.present row hpresent)

/-! ## A second run -/

/-- The run asked and wrote nothing. -/
def Reads (tr : Trace) : Prop := ∀ step ∈ tr, ∃ input outcome, step = ⟨.call input, outcome⟩

/-- A run over settled rows reads, leaves the registry alone, and counts every row as present unless
a request stays unanswered. -/
structure Rerun {α : Type} (s : Registry) (tr : Trace) (s' : Registry) (r : Except Failure α)
    (a : α) : Prop where
  reads : Reads tr
  same : s' = s
  result : r = .ok a ∨ r = .error .aborted ∧ ∃ input, ⟨.call input, none⟩ ∈ tr

theorem Rerun.exit {α β : Type} {e : Failure} {a : α} {b : β} (h : Rerun s tr s' (.error e) a) :
    Rerun s tr s' (.error e) b := by
  refine ⟨h.reads, h.same, .inr ?_⟩
  rcases h.result with hr | ⟨hr, hlost⟩
  · cases hr
  · cases hr
    exact ⟨rfl, hlost⟩

theorem Rerun.eq_of_ok {α : Type} {a b : α} (h : Rerun s tr s' (.ok a) b) : a = b := by
  rcases h.result with hr | ⟨hr, -⟩
  · exact Except.ok.inj hr
  · cases hr

theorem runRound_settled {rows : List Row} {tally : Tally} {retry : List (Row × UInt32)}
    {r : Except Failure (Tally × List (Row × UInt32))} (hrows : ∀ row ∈ rows, Settled E s row)
    (hrun : (runRound (rows.map tagged) tally retry).Runs tr r) (hagainst : Against E d s tr s') :
    Rerun s tr s' r ({ tally with present := tally.present + rows.length }, retry) := by
  induction rows generalizing tally tr with
  | nil =>
      obtain ⟨rfl, rfl⟩ := Flow.runs_pure.mp hrun
      cases hagainst
      exact ⟨by simp [Reads], rfl, .inl rfl⟩
  | cons row rows ih =>
      obtain ⟨hrow, hrest⟩ := List.forall_mem_cons.mp hrows
      obtain ⟨answer, rest, rfl, hnext⟩ := Flow.runs_request_bind.mp hrun
      cases hagainst with
      | callLost hagainst =>
          obtain ⟨rfl, rfl⟩ := Flow.runs_throw.mp hnext
          cases hagainst
          exact ⟨by simp [Reads], rfl, .inr ⟨rfl, row.input, by simp⟩⟩
      | call houtcome hagainst =>
          obtain rfl := houtcome.trans (hrow.outcome _)
          simp only [if_true] at hnext
          have hrerun := ih hrest hnext hagainst
          refine ⟨List.forall_mem_cons.mpr ⟨⟨_, _, rfl⟩, hrerun.reads⟩, hrerun.same, ?_⟩
          refine hrerun.result.imp ?_ ?_
          · intro hr
            rw [hr, List.length_cons, Nat.add_comm rows.length 1, ← Nat.add_assoc]
          · rintro ⟨hr, input, hinput⟩
            exact ⟨hr, input, List.mem_cons_of_mem _ hinput⟩

theorem runRounds_settled {limit : Nat} {rows : List Row} {tally : Tally} {r : Except Failure Tally}
    (hrows : ∀ row ∈ rows, Settled E s row)
    (hrun : (runRounds (limit + 1) (rows.map tagged) tally).Runs tr r)
    (hagainst : Against E d s tr s') :
    Rerun s tr s' r { tally with present := tally.present + rows.length } := by
  by_cases hempty : rows = []
  · subst hempty
    obtain ⟨rfl, rfl⟩ := Flow.runs_pure.mp hrun
    cases hagainst
    exact ⟨by simp [Reads], rfl, .inl rfl⟩
  rw [runRounds, if_neg (by simpa using hempty)] at hrun
  rcases Flow.runs_bind.mp hrun with
    ⟨e, hround, rfl⟩ | ⟨tr₁, tr₂, ⟨tally', retry⟩, rfl, hround, hnext⟩
  · exact (runRound_settled hrows hround hagainst).exit
  · obtain ⟨t, hfirst, hsecond⟩ := hagainst.split
    have hrerun := runRound_settled hrows hround hfirst
    obtain rfl := hrerun.same
    cases hrerun.eq_of_ok
    -- nothing waits, so the round was the last
    have hmoved : ¬ ([] : List (Row × UInt32)).length = (rows.map tagged).length := by
      rw [List.length_map]
      exact fun h => hempty (List.eq_nil_of_length_eq_zero h.symm)
    dsimp only at hnext
    rw [if_neg hmoved, runRounds_nil] at hnext
    obtain ⟨rfl, rfl⟩ := Flow.runs_pure.mp hnext
    cases hsecond
    rw [List.append_nil]
    exact ⟨hrerun.reads, rfl, .inl rfl⟩

/-- A run over settled rows, whatever its order. -/
theorem replay_settled {limit : Nat} {rows : List Row} {seed : Option UInt64}
    {r : Except Failure Tally} (hrows : ∀ row ∈ rows, Settled E s row)
    (hrun : (replay (limit + 1) rows seed).Runs tr r) (hagainst : Against E d s tr s') :
    Rerun s tr s' r ⟨0, rows.length, []⟩ := by
  obtain ⟨ordered, hordered, hreplay⟩ := replay_eq (limit + 1) rows seed
  have hsettled : ∀ row ∈ ordered, Settled E s row :=
    fun row hrow => hrows row (hordered.mem_iff.mp hrow)
  rw [hreplay] at hrun
  rcases Flow.runs_bind.mp hrun with ⟨e, hrounds, rfl⟩ | ⟨tr₁, tr₂, tally, rfl, hrounds, hnext⟩
  · exact (runRounds_settled hsettled hrounds hagainst).exit
  · obtain ⟨t, hfirst, hsecond⟩ := hagainst.split
    have hrerun := runRounds_settled hsettled hrounds hfirst
    obtain rfl := hrerun.same
    cases hrerun.eq_of_ok
    obtain ⟨rfl, rfl⟩ := Flow.runs_pure.mp hnext
    cases hsecond
    rw [List.append_nil, hordered.length_eq]
    exact ⟨hrerun.reads, rfl, .inl (by rw [Nat.zero_add])⟩

end Registry

/-! ## The tool -/

/-- Two rounds more than there are refers are enough for any seed and any answers: a run that is not
aborted puts every row into one of the three lists and succeeds exactly if the last one is empty.
Against a registry, once a run has succeeded every further run of the archive asks and writes
nothing, and succeeds where it gets its answers. -/
theorem replay_settles (rows : List Row) (limit : Nat) (hlimit : (refers rows).length + 2 ≤ limit) :
    (∀ seed tr r, (replay limit rows seed).Runs tr r → r ≠ .error .aborted →
      ∃ written present failed, (written ++ present ++ failed).Perm rows ∧
        Accounts tr written present failed ∧ r = report written present failed) ∧
    ∀ (E : Evm) (d : Domain) (s s' : Registry) seed tr tally, Reachable E d s →
      (∀ row ∈ rows, row.Honest E) →
      (replay limit rows seed).Runs tr (.ok tally) → Against E d s tr s' →
        ∀ seed' tr' r' s'', (replay limit rows seed').Runs tr' r' → Against E d s' tr' s'' →
          Rerun s' tr' s'' r' ⟨0, rows.length, []⟩ := by
  have hlt : (refers rows).length < limit := by omega
  constructor
  · intro seed tr r hrun hcompleted
    exact (replay_ensures limit rows seed hlt tr r hrun).resolve_left hcompleted
  · intro E d s s' seed tr tally hs hrows hrun hagainst seed' tr' r' s'' hrun' hagainst'
    have hsettled := settled_of_replay hlt hs hrows hrun hagainst
    obtain ⟨n, rfl⟩ : ∃ n, limit = n + 1 := ⟨limit - 1, by omega⟩
    exact replay_settled hsettled hrun' hagainst'

namespace Sample

open Contract.Sample

/-- An archive whose refer was written down before its register. -/
def archive : List Row := [⟨"0x02", .refer, referData⟩, ⟨"0x01", .register, registerData⟩]

theorem archive_honest : ∀ row ∈ archive, row.Honest evm := by
  intro row hrow c hdec
  rcases List.mem_pair.mp hrow with rfl | rfl
  · cases hdec.symm.trans decode_referData
    exact ⟨rfl, decode_referData⟩
  · cases hdec.symm.trans decode_registerData
    exact ⟨rfl, decode_registerData⟩

/-- Both rows are written to a fresh registry, the register first. -/
def trace : Trace :=
  [⟨.call registerData, some .ok⟩, ⟨.sendWrite registerData, some "0x11"⟩,
    ⟨.call referData, some .ok⟩, ⟨.sendWrite referData, some "0x12"⟩]

theorem replay_archive : (replay 3 archive none).Runs trace (.ok ⟨2, 0, []⟩) := by
  apply Prog.runs_iff_replay.mpr
  decide +kernel

theorem against_trace : Against evm domain Registry.empty trace referred := by
  have hregister : outcomeOf (call evm domain 0 registerData Registry.empty) = .ok := by
    rw [call_registerData]
    rfl
  have hrefer : outcomeOf (call evm domain 0 referData registered) = .ok := by
    rw [call_referData]
    rfl
  exact .call hregister.symm (.sendWrite _ call_registerData
    (.call hrefer.symm (.sendWrite _ call_referData .nil)))

end Sample

/-- The archive replayed on a fresh registry: both rows are written, and a second run with a seed
writes nothing. -/
theorem replay_settles_sample : (replay 3 Sample.archive none).Runs Sample.trace (.ok ⟨2, 0, []⟩) ∧
    ∀ tr' r' s'', (replay 3 Sample.archive (some 7)).Runs tr' r' →
      Against Contract.Sample.evm Contract.Sample.domain Contract.Sample.referred tr' s'' →
        Rerun Contract.Sample.referred tr' s'' r' ⟨0, 2, []⟩ := by
  refine ⟨Sample.replay_archive, fun tr' r' s'' hrun hagainst => ?_⟩
  exact (replay_settles Sample.archive 3 (by decide)).2 _ _ _ _ none _ _ .empty
    Sample.archive_honest
    Sample.replay_archive Sample.against_trace (some 7) tr' r' s'' hrun hagainst

end P256Index.Replay
