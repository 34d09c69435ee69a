import P256Index.Registrar.Batch
import P256Index.Registrar.Agreement

/-!
# Batches compose

What the submission program does for one list of loaded records and then for another is what it does
for the two together, as long as no id is in both: the loop carries nothing from one task to the
next but the ids it has seen. So a batch is worked off in parts, one for each task, and every part
is a run of the loop body for that task alone.
-/

namespace P256Index.Registrar.Submission

variable {E : Contract.Evm} {loaded xs ys : List (Option RegisterTask)} {seen seen' : List String}

/-! ## The canonical tasks of two loads -/

/-- Only the ids that are loaded matter among those seen before. -/
theorem canonicalFrom_congr (h : ∀ task, some task ∈ loaded → (task.id ∈ seen ↔ task.id ∈ seen')) :
    canonicalFrom seen loaded = canonicalFrom seen' loaded := by
  induction loaded generalizing seen seen' with
  | nil => rfl
  | cons x loaded ih =>
      have hrest : ∀ task, some task ∈ loaded → (task.id ∈ seen ↔ task.id ∈ seen') :=
        fun task htask => h task (List.mem_cons_of_mem x htask)
      cases x with
      | none => exact ih hrest
      | some head =>
          have hhead : seen.contains head.id = seen'.contains head.id := by
            rw [Bool.eq_iff_iff, List.contains_iff_mem, List.contains_iff_mem]
            exact h head List.mem_cons_self
          have hcons : ∀ task, some task ∈ loaded →
              (task.id ∈ head.id :: seen ↔ task.id ∈ head.id :: seen') := by
            intro task htask
            rw [List.mem_cons, List.mem_cons, hrest task htask]
          rw [canonicalFrom, canonicalFrom, hhead, ih hrest, ih hcons]

theorem canonicalFrom_append (h : ∀ t u, some t ∈ xs → some u ∈ ys → t.id ≠ u.id) :
    canonicalFrom seen (xs ++ ys) = canonicalFrom seen xs ++ canonicalFrom seen ys := by
  induction xs generalizing seen with
  | nil => rfl
  | cons x xs ih =>
      have hrest : ∀ t u, some t ∈ xs → some u ∈ ys → t.id ≠ u.id :=
        fun t u ht hu => h t u (List.mem_cons_of_mem x ht) hu
      cases x with
      | none => exact ih hrest
      | some head =>
          rw [List.cons_append, canonicalFrom, canonicalFrom]
          split
          · -- the id that is taken here does not occur in the second load
            have hother : canonicalFrom (head.id :: seen) ys = canonicalFrom seen ys := by
              apply canonicalFrom_congr
              intro task htask
              rw [List.mem_cons, or_iff_right (h head task List.mem_cons_self htask).symm]
            rw [ih hrest, hother, List.cons_append]
          · exact ih hrest

theorem canonical_append (h : ∀ t u, some t ∈ xs → some u ∈ ys → t.id ≠ u.id) :
    canonical (xs ++ ys) = canonical xs ++ canonical ys := canonicalFrom_append h

/-! ## The loop -/

theorem driveTasks_append (tasks tasks' : List RegisterTask) :
    driveTasks E (tasks ++ tasks') = driveTasks E tasks >>= fun _ => driveTasks E tasks' := by
  induction tasks with
  | nil => rw [List.nil_append, driveTasks, pure_bind]
  | cons task tasks ih => rw [List.cons_append, driveTasks, driveTasks, ih, bind_assoc]

/-- The loop never leaves early with an advance. -/
theorem settle_error_ne_advance {tasks : List RegisterTask} {tr : Trace} {exit : Halt}
    (h : (driveTasks E tasks).Runs tr (.error exit)) :
    settle (.error exit) ≠ .verdict .advance := by
  obtain ⟨⟨reason, rfl⟩, -⟩ := driveTasks_ensures tasks tr _ h
  simp [settle, retry]

/-- After the records are loaded the program is the loop over their canonical tasks. -/
theorem submission_runs_loaded {ids : List String} (hids : ids ≠ []) {tr : Trace} {out : Settled} :
    (submission E ids).Runs (⟨.loadTasks ids, .tasksLoaded loaded⟩ :: tr) out ↔
      ((driveTasks E (canonical loaded)).Runs tr (.ok ()) ∧ out = .verdict .advance) ∨
        ∃ exit, (driveTasks E (canonical loaded)).Runs tr (.error exit) ∧
          out = settle (.error exit) := by
  have hbatch : ∀ r, Flow.Runs (driveBatch E ids) (⟨.loadTasks ids, .tasksLoaded loaded⟩ :: tr) r ↔
      Flow.Runs (driveTasks E (canonical loaded) >>= fun _ => pure .advance) tr r := by
    intro r
    rw [driveBatch, if_neg (by simpa using hids), Flow.runs_request_bind]
    constructor
    · rintro ⟨ans, rest, heq, hrun⟩
      cases heq
      exact hrun
    · intro hrun
      exact ⟨_, tr, rfl, hrun⟩
  rw [submission, Prog.runs_map]
  constructor
  · rintro ⟨r, hrun, rfl⟩
    rcases Flow.runs_bind.mp ((hbatch r).mp hrun) with
      ⟨exit, hexit, rfl⟩ | ⟨tr₁, tr₂, _, rfl, hloop, hend⟩
    · exact .inr ⟨exit, hexit, rfl⟩
    · obtain ⟨rfl, rfl⟩ := Flow.runs_pure.mp hend
      rw [List.append_nil]
      exact .inl ⟨hloop, rfl⟩
  · rintro (⟨hloop, rfl⟩ | ⟨exit, hexit, rfl⟩)
    · refine ⟨.ok .advance, (hbatch _).mpr ?_, rfl⟩
      exact Flow.runs_bind.mpr
        (.inr ⟨tr, [], (), (List.append_nil tr).symm, hloop, Flow.runs_pure.mpr ⟨rfl, rfl⟩⟩)
    · exact ⟨_, (hbatch _).mpr (Flow.runs_bind.mpr (.inl ⟨exit, hexit, rfl⟩)), rfl⟩

/-! ## The parts of a batch -/

variable (E)

/-- The parts of a run of the loop, one for each task it came to: each is a run of the loop body for
its task, and a part that exits is the last. -/
inductive Parts : List RegisterTask → List (RegisterTask × Trace) → Prop
  | nil : Parts [] []
  | stop {task : RegisterTask} {part : Trace} {exit : Halt} (later : List RegisterTask) :
      (driveTask E task).Runs part (.error exit) → Parts (task :: later) [(task, part)]
  | go {task : RegisterTask} {part : Trace} {later : List RegisterTask}
        {parts : List (RegisterTask × Trace)} :
      (driveTask E task).Runs part (.ok ()) → Parts later parts →
        Parts (task :: later) ((task, part) :: parts)

/-- `part` is what the program issued for `task` in the run `tr` over the loaded records. -/
def PartOf (loaded : List (Option RegisterTask)) (tr : Trace) (task : RegisterTask) (part : Trace) :
    Prop :=
  ∃ parts, Parts E (canonical loaded) parts ∧ (parts.map Prod.snd).flatten = tr ∧
    (task, part) ∈ parts

variable {E}

theorem exists_parts {tasks : List RegisterTask} {tr : Trace} {r : Except Halt Unit}
    (h : (driveTasks E tasks).Runs tr r) :
    ∃ parts, Parts E tasks parts ∧ (parts.map Prod.snd).flatten = tr := by
  induction tasks generalizing tr with
  | nil =>
      obtain ⟨rfl, -⟩ := Flow.runs_pure.mp h
      exact ⟨[], .nil, rfl⟩
  | cons task tasks ih =>
      rcases Flow.runs_bind.mp h with ⟨exit, hexit, rfl⟩ | ⟨part, rest, _, rfl, hpart, hrest⟩
      · exact ⟨[(task, tr)], .stop tasks hexit, List.append_nil tr⟩
      · obtain ⟨parts, hparts, rfl⟩ := ih hrest
        exact ⟨(task, part) :: parts, .go hpart hparts, rfl⟩

/-- Whatever the batch, a task's part is a run of the loop body for the task. -/
theorem Parts.runs {tasks : List RegisterTask} {parts : List (RegisterTask × Trace)}
    (h : Parts E tasks parts) {task : RegisterTask} {part : Trace} (hmem : (task, part) ∈ parts) :
    ∃ r, (driveTask E task).Runs part r := by
  induction h with
  | nil => cases hmem
  | stop later hexit =>
      cases List.mem_singleton.mp hmem
      exact ⟨_, hexit⟩
  | go hpart _ ih =>
      rcases List.mem_cons.mp hmem with heq | hmem
      · cases heq
        exact ⟨_, hpart⟩
      · exact ih hmem

theorem PartOf.runs {tr : Trace} {task : RegisterTask} {part : Trace}
    (h : PartOf E loaded tr task part) : ∃ r, (driveTask E task).Runs part r := by
  obtain ⟨parts, hparts, -, hmem⟩ := h
  exact hparts.runs hmem

/-! ## Composition -/

/-- Two loads without a common id. What the program issues for both together is what it issues for
the first, then, only if that advanced, what it issues for the second, and the verdict is that of
the last part. Every run falls into the parts of its tasks, and what is issued next for a task is
decided by its record and the answers to its own operations, in whatever batch it is loaded. -/
theorem submission_compositional {ids ids₁ ids₂ : List String} (hids : ids ≠ []) (hids₁ : ids₁ ≠ [])
    (hids₂ : ids₂ ≠ []) (hdisjoint : ∀ t u, some t ∈ xs → some u ∈ ys → t.id ≠ u.id) :
    (∀ tr out, (submission E ids).Runs (⟨.loadTasks ids, .tasksLoaded (xs ++ ys)⟩ :: tr) out ↔
      ((submission E ids₁).Runs (⟨.loadTasks ids₁, .tasksLoaded xs⟩ :: tr) out ∧
        out ≠ .verdict .advance) ∨ ∃ tr₁ tr₂, tr = tr₁ ++ tr₂ ∧
          (submission E ids₁).Runs (⟨.loadTasks ids₁, .tasksLoaded xs⟩ :: tr₁) (.verdict .advance) ∧
            (submission E ids₂).Runs (⟨.loadTasks ids₂, .tasksLoaded ys⟩ :: tr₂) out) ∧
    (∀ tr out, (submission E ids).Runs (⟨.loadTasks ids, .tasksLoaded (xs ++ ys)⟩ :: tr) out →
      ∃ parts, Parts E (canonical (xs ++ ys)) parts ∧ (parts.map Prod.snd).flatten = tr) ∧
    (∀ loaded loaded' tr tr' task part part', PartOf E loaded tr task part →
      PartOf E loaded' tr' task part' →
      ∀ n, (part.take n).map Sigma.snd = (part'.take n).map Sigma.snd →
        part[n]?.map Sigma.fst = part'[n]?.map Sigma.fst) := by
  refine ⟨?_, ?_, ?_⟩
  · intro tr out
    rw [submission_runs_loaded hids, submission_runs_loaded hids₁, canonical_append hdisjoint,
      driveTasks_append]
    constructor
    · rintro (⟨hrun, rfl⟩ | ⟨exit, hrun, rfl⟩)
      · rcases Flow.runs_bind.mp hrun with ⟨exit, -, hexit⟩ | ⟨tr₁, tr₂, _, rfl, h₁, h₂⟩
        · cases hexit
        · exact .inr ⟨tr₁, tr₂, rfl, (submission_runs_loaded hids₁).mpr (.inl ⟨h₁, rfl⟩),
            (submission_runs_loaded hids₂).mpr (.inl ⟨h₂, rfl⟩)⟩
      · rcases Flow.runs_bind.mp hrun with ⟨exit', h₁, hexit⟩ | ⟨tr₁, tr₂, _, rfl, h₁, h₂⟩
        · cases hexit
          exact .inl ⟨.inr ⟨exit, h₁, rfl⟩, settle_error_ne_advance h₁⟩
        · exact .inr ⟨tr₁, tr₂, rfl, (submission_runs_loaded hids₁).mpr (.inl ⟨h₁, rfl⟩),
            (submission_runs_loaded hids₂).mpr (.inr ⟨exit, h₂, rfl⟩)⟩
    · rintro (⟨⟨-, rfl⟩ | ⟨exit, h₁, rfl⟩, hne⟩ | ⟨tr₁, tr₂, rfl, h₁, h₂⟩)
      · exact absurd rfl hne
      · exact .inr ⟨exit, Flow.runs_bind.mpr (.inl ⟨exit, h₁, rfl⟩), rfl⟩
      · rcases (submission_runs_loaded hids₁).mp h₁ with ⟨h₁, -⟩ | ⟨exit, h₁, hout⟩
        · have hboth : ∀ r, (driveTasks E (canonical ys)).Runs tr₂ r →
              (driveTasks E (canonical xs) >>= fun _ => driveTasks E (canonical ys)).Runs
                (tr₁ ++ tr₂) r :=
            fun r h => Flow.runs_bind.mpr (.inr ⟨tr₁, tr₂, (), rfl, h₁, h⟩)
          rcases (submission_runs_loaded hids₂).mp h₂ with ⟨hloop, rfl⟩ | ⟨exit, hexit, rfl⟩
          · exact .inl ⟨hboth _ hloop, rfl⟩
          · exact .inr ⟨exit, hboth _ hexit, rfl⟩
        · exact absurd hout.symm (settle_error_ne_advance h₁)
  · intro tr out hrun
    rcases (submission_runs_loaded hids).mp hrun with ⟨hloop, -⟩ | ⟨exit, hexit, -⟩
    · exact exists_parts hloop
    · exact exists_parts hexit
  · intro loaded loaded' tr tr' task part part' hpart hpart' n hans
    obtain ⟨r, hr⟩ := hpart.runs
    obtain ⟨r', hr'⟩ := hpart'.runs
    exact Prog.Runs.next_eq hr hr' hans

open Sample in
/-- Two refers that are found on chain, one batch for each and one for both. -/
theorem submission_compositional_refers :
    let found : String → Trace := fun id =>
      [⟨.checkReferenced (referTask id).groupPublicKey device.publicKey, .contentChecked true⟩,
        ⟨.markDone id none none, .persisted⟩]
    (submission Contract.Sample.evm ["a", "b"]).Runs
      (⟨.loadTasks ["a", "b"], .tasksLoaded ([some (referTask "a")] ++ [some (referTask "b")])⟩ ::
        (found "a" ++ found "b")) (.verdict .advance) := by
  intro found
  have hfirst : (submission Contract.Sample.evm ["a"]).Runs
      (⟨.loadTasks ["a"], .tasksLoaded [some (referTask "a")]⟩ :: found "a") (.verdict .advance) :=
    Prog.runs_iff_replay.mpr (by decide +kernel)
  have hsecond : (submission Contract.Sample.evm ["b"]).Runs
      (⟨.loadTasks ["b"], .tasksLoaded [some (referTask "b")]⟩ :: found "b") (.verdict .advance) :=
    Prog.runs_iff_replay.mpr (by decide +kernel)
  have hdisjoint : ∀ t u, some t ∈ [some (referTask "a")] → some u ∈ [some (referTask "b")] →
      t.id ≠ u.id := by
    intro t u ht hu
    cases List.mem_singleton.mp ht
    cases List.mem_singleton.mp hu
    show "a" ≠ "b"
    decide
  exact ((submission_compositional (by simp) (by simp) (by simp) hdisjoint).1 _ _).mpr
    (.inr ⟨_, _, rfl, hfirst, hsecond⟩)

end P256Index.Registrar.Submission
