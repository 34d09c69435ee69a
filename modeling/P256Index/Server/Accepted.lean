import P256Index.Server.Pass

/-!
# Every accepted write comes to an end

A write that was answered as queued has an envelope in the log. How long it waits is bounded by what
is ahead of it: each round of the worker that goes well takes envelopes off the front, uses up a
retry of a task there, or has gone through all that is ahead and so has ended the write. What
arrives later stands behind it, and rounds that meet a failure or are cut off change nothing for the
worse.
-/

namespace P256Index.Server

open Registrar

variable {w w' : World} {id : String}

/-! ## The queue ahead of a write -/

/-- The ids of the envelopes that are not committed, up to the one at an offset. -/
def World.ahead (w : World) (offset : Nat) : List String :=
  w.queue.waiting.take (offset + 1 - w.queue.committed)

/-- How long the write whose envelope is at the offset has to wait at most: it has ended, or the
queue ahead of it and the retries that are left there are no more than `k`. -/
structure Waits (offset : Nat) (id : String) (k : Nat) (w : World) : Prop where
  envelope : ∃ envelope, w.queue.log[offset]? = some envelope ∧ envelope.id = id
  stored : w.Stored id
  known : ∀ x ∈ w.ahead offset, w.Stored x
  left : retriesLeft w.store id = 0 ∨ (w.ahead offset).length + budget w.store (w.ahead offset) ≤ k

variable {offset k : Nat}

theorem Waits.lt_length (h : Waits offset id k w) : offset < w.queue.log.length := by
  obtain ⟨envelope, henvelope, -⟩ := h.envelope
  exact (List.getElem?_eq_some_iff.mp henvelope).1

/-- What arrives stands behind, and what is committed is gone. -/
theorem MovesOn.ahead (h : MovesOn w w') (hlt : offset < w.queue.log.length) :
    w'.ahead offset = (w.ahead offset).drop (w'.queue.committed - w.queue.committed) := by
  have hahead : ∀ w : World, w.ahead offset =
      ((w.queue.log.take (offset + 1)).drop w.queue.committed).map RegisterTask.id := by
    intro w
    rw [World.ahead, Queue.waiting, ← List.map_take, List.drop_take]
  obtain ⟨later, hlog⟩ := h.le.2
  have htake : w'.queue.log.take (offset + 1) = w.queue.log.take (offset + 1) := by
    rw [← hlog, List.take_append_of_le_length hlt]
  have hcommitted : w'.queue.committed =
      w.queue.committed + (w'.queue.committed - w.queue.committed) := by
    have := h.committed
    omega
  rw [hahead w', htake, hahead w, ← List.map_drop, List.drop_drop, ← hcommitted]

/-- Fewer ids, with no more retries each. -/
theorem budget_mono {s s' : Store} {ids ids' : List String} (hids : ids' ⊆ ids)
    (hleft : ∀ id ∈ ids', retriesLeft s' id ≤ retriesLeft s id) :
    budget s' ids' ≤ budget s ids := by
  calc budget s' ids' ≤ ∑ id ∈ ids'.toFinset, retriesLeft s id :=
        Finset.sum_le_sum fun id hid => hleft id (List.mem_toFinset.mp hid)
    _ ≤ budget s ids := by
        refine Finset.sum_le_sum_of_subset fun id hid => ?_
        exact List.mem_toFinset.mpr (hids (List.mem_toFinset.mp hid))

/-- What is ahead of a write, and what the tasks there have left, does not grow. -/
theorem Waits.ahead_le (h : Waits offset id k w) (hmoves : MovesOn w w') :
    w'.ahead offset ⊆ w.ahead offset ∧
      (w'.ahead offset).length =
        (w.ahead offset).length - (w'.queue.committed - w.queue.committed) ∧
      budget w'.store (w'.ahead offset) ≤ budget w.store (w.ahead offset) := by
  have hahead := hmoves.ahead h.lt_length
  have hsub : w'.ahead offset ⊆ w.ahead offset := by
    rw [hahead]
    exact List.drop_subset _ _
  refine ⟨hsub, by rw [hahead, List.length_drop], budget_mono hsub fun x hx => ?_⟩
  exact hmoves.left x (h.known x (hsub hx))

/-- No step makes the write wait longer. -/
theorem Waits.moves (h : Waits offset id k w) (hmoves : MovesOn w w') : Waits offset id k w' := by
  obtain ⟨hsub, hlength, hbudget⟩ := h.ahead_le hmoves
  obtain ⟨envelope, henvelope, hid⟩ := h.envelope
  refine ⟨⟨envelope, ?_, hid⟩, h.stored.mono hmoves.le,
    fun x hx => (h.known x (hsub hx)).mono hmoves.le, ?_⟩
  · obtain ⟨later, hlog⟩ := hmoves.le.2
    rw [← hlog, List.getElem?_append_left h.lt_length, henvelope]
  · refine h.left.imp (hmoves.ended h.stored) fun hle => ?_
    omega

/-- The write itself is the last one ahead, until it is committed. -/
theorem Waits.mem_ahead (h : Waits offset id k w) (huncommitted : w.queue.committed ≤ offset) :
    id ∈ w.ahead offset := by
  obtain ⟨envelope, henvelope, rfl⟩ := h.envelope
  have hwaiting : w.queue.waiting[offset - w.queue.committed]? = some envelope.id := by
    rw [Queue.waiting, List.getElem?_map, List.getElem?_drop,
      Nat.add_sub_cancel' huncommitted, henvelope]
    rfl
  refine List.mem_of_getElem? (i := offset - w.queue.committed) ?_
  rw [World.ahead, List.getElem?_take, if_pos (by omega), hwaiting]

/-- A round that went well brings the write one round nearer to its end. -/
theorem Waits.round (h : Waits offset id k w) (hround : RoundEnds w w') :
    Waits offset id (k - 1) w' := by
  have hmoved := h.moves hround.moves
  obtain ⟨hsub, hlength, hbudget⟩ := h.ahead_le hround.moves
  refine ⟨hmoved.envelope, hmoved.stored, hmoved.known, ?_⟩
  rcases h.left with hzero | hle
  · exact .inl (hround.moves.ended h.stored hzero)
  by_cases hcommitted : offset < w.queue.committed
  · -- the write is committed already
    right
    have hempty : w.ahead offset = [] := by
      rw [World.ahead, Nat.sub_eq_zero_of_le hcommitted, List.take_zero]
    have hnone : w'.ahead offset = [] := List.subset_nil.mp (hempty ▸ hsub)
    simp [hnone, budget]
  have hmem := h.mem_ahead (Nat.le_of_not_lt hcommitted)
  have hpos : 0 < (w.ahead offset).length := List.length_pos_of_mem hmem
  have hfront : (w.queue.waiting.take pollBatchSize).take (offset + 1 - w.queue.committed) =
      (w.ahead offset).take pollBatchSize := by
    rw [World.ahead, List.take_take, List.take_take, min_comm]
  have hfirst : ∀ x ∈ (w.ahead offset).take pollBatchSize, x ∈ w.ahead offset :=
    fun x hx => List.mem_of_mem_take hx
  rcases hround.progress with hnil | hadvanced | hstopped
  · -- there is a batch: the write waits
    rw [hnil, List.take_nil] at hfront
    have hlen := congrArg List.length hfront
    rw [List.length_take, List.length_nil] at hlen
    have : pollBatchSize = 50 := rfl
    omega
  · right
    have hbatch : 0 < (w.queue.waiting.take pollBatchSize).length := by
      have hlen := List.length_take_le' (offset + 1 - w.queue.committed)
        (w.queue.waiting.take pollBatchSize)
      rw [hfront, List.length_take (i := pollBatchSize) (l := w.ahead offset)] at hlen
      have : pollBatchSize = 50 := rfl
      omega
    omega
  · have hsplit := (List.take_append_drop (offset + 1 - w.queue.committed)
      (w.queue.waiting.take pollBatchSize)).symm
    rw [hfront] at hsplit
    rcases hstopped _ _ hsplit fun x hx => h.known x (hfirst x hx) with
      ⟨x, hx, hlower⟩ | ⟨hbehind, hzero⟩
    · -- a task ahead has used up a retry
      right
      have hlt : budget w'.store (w.ahead offset) < budget w.store (w.ahead offset) := by
        refine Finset.sum_lt_sum (fun y hy => ?_) ⟨x, List.mem_toFinset.mpr (hfirst x hx), hlower⟩
        exact hround.moves.left y (h.known y (List.mem_toFinset.mp hy))
      have hless := budget_mono (s := w'.store) hsub fun _ _ => le_rfl
      omega
    · -- the round has gone through all that is ahead
      left
      refine hzero id ?_
      have hlong : offset + 1 - w.queue.committed < pollBatchSize := by
        by_contra hshort
        refine hbehind (List.drop_eq_nil_of_le ?_)
        rw [List.length_take]
        omega
      rw [List.take_of_length_le]
      · exact hmem
      · rw [World.ahead, List.length_take]
        omega

/-! ## Accepted writes -/

variable (K : P256Crate) (E : Contract.Evm)

/-- What is appended stands behind. -/
theorem HandsOff.queue {c : QueueCommand} (hc : ∀ offset, c ≠ .storeOffset offset) :
    HandsOff w (w.withQueue (c.exec w.queue).2) := by
  cases c with
  | append task => exact .of_tasks ⟨List.suffix_refl _, List.prefix_append _ _⟩ rfl rfl
  | storeOffset offset => exact absurd rfl (hc offset)
  | _ => exact .refl w

theorem requests_drain :
    Team.Keeps (requests K E) (rounds E) entryCommand (drainSpec False) Running where
  crowd := by
    rintro c w reply w' h hc ⟨hperforms, hfresh⟩
    have hoffset : ∀ q offset, c = .queue q → q ≠ .storeOffset offset := by
      rintro q offset rfl rfl
      exact hc.2.2 offset rfl
    cases hperforms with
    | store c => exact h.entry hc hfresh
    | storeFailed c => exact ⟨h, .refl w⟩
    | storeAckLost c => exact h.entry hc hfresh
    | queue c => exact ⟨h.withQueue _, .queue fun offset => hoffset c offset rfl⟩
    | queueFailed c => exact ⟨h, .refl w⟩
    | queueAckLost c => exact ⟨h.withQueue _, .queue fun offset => hoffset c offset rfl⟩
    | chain c => exact ⟨h, .refl w⟩
  lead := by
    rintro c w reply w' h hpre ⟨hperforms, -⟩
    obtain ⟨hrunning, hpost⟩ := h.performs hpre hperforms
    exact ⟨hrunning, False.elim, hpost⟩
  drift h hdrift := h.drift hdrift
  starts := by
    rintro p ⟨client, submitted, rfl⟩
    exact (handle_entry client submitted).map
  leads := by
    rintro p w rfl _
    exact RelySpec.wp_map (RelySpec.wp_mono workerRound_ends fun _ _ _ => trivial)

theorem requests_progress (offset : Nat) (id : String) :
    Team.Progress (requests K E) (rounds E) Clean entryCommand (drainSpec False)
      (drainSpec True) Running (Waits offset id) where
  keeps := requests_drain K E
  rely hoff := hoff
  post hpost hclean := ⟨fun _ => hclean, hpost.2⟩
  kept _ _ _ hoff h := h.moves hoff.onward
  own hpost h := h.moves hpost.2.1
  round := by
    rintro k p w rfl _ h
    refine RelySpec.wp_map (RelySpec.wp_mono workerRound_ends fun _ w' hround => ?_)
    obtain ⟨w₁, hoff, hround⟩ := hround trivial
    exact (h.moves hoff.onward).round hround

/-- Team and pool run the same processes. -/
theorem requests_intact {t : Team Command Reply World (Option Response)}
    (h : Team.Reachable (requests K E) (rounds E) World.initial t) :
    Pool.Safe commandSpec Intact (fun response w => ∀ r, response = some r → Kept r w)
      t.toPool := by
  have hwithin : (requests K E).Within (service K E) :=
    ⟨fun hperform => hperform.1, fun hdrift => hdrift, fun hstarts => .inl hstarts⟩
  exact (h.pooled hwithin (service_keeps K E) .inr Intact.initial).1

variable {K E}

/-- A write that need not wait any more has been done or failed. -/
theorem Waits.finished (h : Waits offset id 0 w) (hintact : Intact w) (hsound : Sound w.store) :
    w.Finished id := by
  by_cases hcommitted : offset < w.queue.committed
  · obtain ⟨envelope, henvelope, rfl⟩ := h.envelope
    exact hintact.settled offset hcommitted envelope henvelope
  have hmem := h.mem_ahead (Nat.le_of_not_lt hcommitted)
  have hzero : retriesLeft w.store id = 0 := by
    refine h.left.resolve_right fun hle => ?_
    have hpos := List.length_pos_of_mem hmem
    omega
  cases hrecord : w.store.task id with
  | none => exact hintact.kept id h.stored hrecord
  | some task =>
      by_cases hterminal : task.status.isTerminal = true
      · exact ⟨w.store, List.mem_cons_self, task, hrecord, hterminal⟩
      · -- a pending record would have a retry left
        have hpending : task.status.isTerminal = false := by simpa using hterminal
        have hbelow := hsound.below id task hrecord (TaskStatus.isTerminal_eq_false.mp hpending)
        rw [retriesLeft_of_pending hrecord hpending] at hzero
        omega

/-- An envelope in the log waits no longer than the queue, and ten rounds for each task pending
there. -/
theorem Waits.of_log {envelope : RegisterTask} (hintact : Intact w)
    (henvelope : w.queue.log[offset]? = some envelope) :
    Waits offset envelope.id
      (w.queue.waiting.length + 10 * (pendingIds w.store w.queue.waiting).card) w := by
  have hsub : w.ahead offset ⊆ w.queue.waiting := List.take_subset _ _
  refine ⟨⟨envelope, henvelope, rfl⟩,
    hintact.known envelope (List.mem_of_getElem? henvelope), ?_, .inr ?_⟩
  · intro x hx
    obtain ⟨other, hother, rfl⟩ := List.mem_map.mp (hsub hx)
    exact hintact.known other (List.mem_of_mem_drop hother)
  · have hlength : (w.ahead offset).length ≤ w.queue.waiting.length := List.length_take_le' _ _
    have hbudget := (budget_mono (s := w.store) hsub fun _ _ => le_rfl).trans
      (budget_le w.store w.queue.waiting)
    have hten : maxRetries = 10 := rfl
    rw [hten] at hbudget
    omega

/-- Every accepted write comes to an end. Requests and one worker run side by side, command by
command; commands fail or lose their acknowledgement, processes are cut off, keys expire, and the
chain answers checks and sends as it likes. From any state in which a request has been answered with
a write as queued, count the rounds of the worker in which its own commands were acknowledged, the
market was not above the fee cap and there were nonces: one for each envelope that is not committed,
and ten for each task pending among them, are enough for the write to be done or failed, whatever
arrives in the meantime. -/
theorem accepted_write_finishes {t t' : Team Command Reply World (Option Response)} {n : Nat}
    {clean : Bool} {status : TaskStatus}
    (hreach : Team.Reachable (requests K E) (rounds E) World.initial t)
    (hqueued : some (.settled (.queued id status)) ∈ t.results)
    (hpending : status.isTerminal = false)
    (hrun : Team.Rounds (requests K E) (rounds E) Clean t n clean t')
    (hn : t.world.queue.waiting.length + 10 *
      (pendingIds t.world.store t.world.queue.waiting).card ≤ n) :
    t'.world.Finished id := by
  have hsafe := requests_intact K E hreach
  obtain ⟨envelope, hmem, rfl⟩ := hsafe.results _ hqueued _ rfl _ rfl id status rfl hpending
  obtain ⟨offset, henvelope⟩ := List.mem_iff_getElem?.mp hmem
  have hrunning := hreach.safe (requests_drain K E) Running.initial
  obtain ⟨hsafe', hwaits, -⟩ :=
    hrun.progress (requests_progress K E offset envelope.id) hrunning
      (Waits.of_log hsafe.inv henvelope)
  rw [Nat.sub_eq_zero_of_le hn] at hwaits
  have hreach' : Team.Reachable (requests K E) (rounds E) World.initial t' :=
    hreach.trans hrun.reaches
  exact hwaits.finished (requests_intact K E hreach').inv hsafe'.inv.sound

/-- A chain that holds nothing and confirms what it is sent. -/
def confirmingChain : (c : ChainCommand) → c.Value
  | .isContentRegistered _ => some false
  | .isReferenced _ _ => some false
  | .unitByGroupKey _ => some none
  | .feePlan => some false
  | .submit _ => .confirmed "" none

/-- Every command is performed and acknowledged. -/
def confirming : (c : Command) → World → Reply c × World
  | .store c, w => (some (c.exec w.store).1, w.withStore (c.exec w.store).2)
  | .queue c, w => (some (c.exec w.queue).1, w.withQueue (c.exec w.queue).2)
  | .chain c, w => (confirmingChain c, w)

/-- In front of it the worker's commands go well. -/
theorem confirming_clean (c : Command) (w : World) (hpre : (drainSpec False).pre c w) :
    (requests K E).perform c w (confirming c w).1 (confirming c w).2 ∧
      Clean c (confirming c w).1 := by
  have hfresh : FreshId c w := by
    cases c with
    | store c =>
        cases c with
        | admitTask task => exact absurd hpre.1 id
        | _ => trivial
    | queue c => trivial
    | chain c => trivial
  cases c with
  | store c => exact ⟨⟨.store c w, hfresh⟩, by simp [Clean, confirming]⟩
  | queue c => exact ⟨⟨.queue c w, hfresh⟩, by simp [Clean, confirming]⟩
  | chain c =>
      refine ⟨⟨.chain c w _, hfresh⟩, ?_⟩
      cases c <;> simp [Clean, confirming, confirmingChain]

open Registrar.Sample (crate) in
/-- The group of the recorded history is accepted, and is done or failed after some rounds. -/
theorem accepted_write_finishes_task :
    ∃ (t t' : Team Command Reply World (Option Response)) (n : Nat) (clean : Bool),
      Team.Reachable (requests crate Contract.Sample.evm) (rounds Contract.Sample.evm)
        World.initial t ∧ some (.settled (.queued "task" .pending)) ∈ t.results ∧
        Team.Rounds (requests crate Contract.Sample.evm) (rounds Contract.Sample.evm) Clean
          t n clean t' ∧
        t'.world.Finished "task" := by
  have hstarts : (requests crate Contract.Sample.evm).starts (some <$> registerHandled) :=
    ⟨_, _, rfl⟩
  have hcheck : (some <$> registerHandled).check healthy freshId World.initial = true := by
    rw [Prog.check_map]
    exact registerHandled_fresh
  -- the state the request leaves, of which only the response matters
  obtain ⟨w, rs, hreach, hqueued⟩ : ∃ w rs, Team.Reachable (requests crate Contract.Sample.evm)
      (rounds Contract.Sample.evm) World.initial ⟨⟨w, [], rs⟩, none⟩ ∧
        some (.settled (.queued "task" .pending)) ∈ rs := by
    refine ⟨_, _, Team.reachable_eval healthy_fresh hstarts hcheck .refl, ?_⟩
    rw [Prog.eval_map, show (registerHandled.eval healthy World.initial).1 = _
      from registerTask_queued]
    exact List.mem_cons_self
  have hrunning := hreach.safe (requests_drain crate Contract.Sample.evm) Running.initial
  obtain ⟨w', -, hrun⟩ :=
    Team.Rounds.exists_more (requests_drain crate Contract.Sample.evm) confirming_clean
    rfl hrunning.inv (w.queue.waiting.length + 10 * (pendingIds w.store w.queue.waiting).card)
  exact ⟨_, _, _, _, hreach, hqueued, hrun, accepted_write_finishes hreach hqueued rfl hrun le_rfl⟩

end P256Index.Server
