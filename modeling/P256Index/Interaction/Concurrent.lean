import P256Index.Interaction.Program

/-!
# Programs that run side by side

Programs share a world and interleave operation by operation; any of them may stop for good at any
point, and the world may also change by itself. Worlds are preordered by what can only grow: `w ≤
w'` says that `w'` may come after `w`, and whatever a program has learned stays true in later
worlds.

* `OpSpec` says for every operation what it needs and what it leaves;
* `OpSpec.wp` is the condition under which a program respects the specification while others run,
  with a rule for sequences, one for refined operations and one that takes a program's runs as they
  are;
* `Pool.safe` is the run lemma: an invariant that every respected operation keeps holds in every
  reachable state, and every result satisfies its postcondition from then on.
-/

namespace P256Index

/-- What an operation needs of the world it is performed in, and how that world is related to those
after it. Needs that are met stay met, and later worlds know at least as much. -/
structure OpSpec (Op : Type) (Ans : Op → Type) (W : Type) [Preorder W] where
  pre : Op → W → Prop
  post : (op : Op) → W → Ans op → W → Prop
  pre_mono : ∀ {op : Op} {w w' : W}, w ≤ w' → pre op w → pre op w'
  post_mono : ∀ {op : Op} {ans : Ans op} {w₀ w w₁ w₂ : W}, w₀ ≤ w → w₁ ≤ w₂ →
    post op w ans w₁ → post op w₀ ans w₂

variable {Op Op' : Type} {Ans : Op → Type} {Ans' : Op' → Type} {W α β : Type} [Preorder W]

/-- A postcondition that no later world can undo. -/
def Stable (Q : α → W → Prop) : Prop := ∀ a w w', w ≤ w' → Q a w → Q a w'

namespace OpSpec

variable {S : OpSpec Op Ans W} {T : OpSpec Op' Ans' W}

/-- From `w` on the program only performs operations whose needs are met, and its result satisfies
`Q`; between two operations the world may move on. -/
def wp (S : OpSpec Op Ans W) : Prog Op Ans α → (α → W → Prop) → W → Prop
  | .done a, Q, w => Q a w
  | .ask op k, Q, w => S.pre op w ∧ ∀ ans w', w ≤ w' → S.post op w ans w' → S.wp (k ans) Q w'

/-- The world may move on before the program does. -/
theorem wp_later {p : Prog Op Ans α} {Q : α → W → Prop} {w w' : W} (hQ : Stable Q) (hle : w ≤ w')
    (h : S.wp p Q w) : S.wp p Q w' := by
  cases p with
  | done a => exact hQ a w w' hle h
  | ask op k =>
      refine ⟨S.pre_mono hle h.1, fun ans w₁ hle₁ hpost => ?_⟩
      exact h.2 ans w₁ (le_trans hle hle₁) (S.post_mono hle le_rfl hpost)

/-- The rule of consequence; the result's world comes after the first one. -/
theorem wp_mono {p : Prog Op Ans α} {Q R : α → W → Prop} {w : W} (h : S.wp p Q w)
    (hQR : ∀ a w', w ≤ w' → Q a w' → R a w') : S.wp p R w := by
  induction p generalizing w with
  | done a => exact hQR a w le_rfl h
  | ask op k ih =>
      refine ⟨h.1, fun ans w₁ hle hpost => ?_⟩
      apply ih ans (h.2 ans w₁ hle hpost)
      intro a w' hle'
      exact hQR a w' (le_trans hle hle')

theorem wp_bind {p : Prog Op Ans α} {f : α → Prog Op Ans β} {Q : α → W → Prop} {R : β → W → Prop}
    {w : W} (h : S.wp p Q w) (hf : ∀ a w', w ≤ w' → Q a w' → S.wp (f a) R w') :
    S.wp (p >>= f) R w := by
  induction p generalizing w with
  | done a => exact hf a w le_rfl h
  | ask op k ih =>
      refine ⟨h.1, fun ans w₁ hle hpost => ?_⟩
      apply ih ans (h.2 ans w₁ hle hpost)
      intro a w' hle'
      exact hf a w' (le_trans hle hle')

theorem wp_map {p : Prog Op Ans α} {f : α → β} {Q : β → W → Prop} {w : W}
    (h : S.wp p (fun a w' => Q (f a) w') w) : S.wp (f <$> p) Q w := by
  rw [map_eq_pure_bind]
  exact wp_bind h fun a w' _ hQ => hQ

theorem wp_request {op : Op} {Q : Ans op → W → Prop} {w : W} (hpre : S.pre op w)
    (hpost : ∀ ans w', w ≤ w' → S.post op w ans w' → Q ans w') : S.wp (Prog.request op) Q w :=
  ⟨hpre, hpost⟩

/-- Sequences with early exits: an exit of the first part is an exit of the whole. -/
theorem wp_flow_bind {ε : Type} {x : Flow Op Ans ε α} {f : α → Flow Op Ans ε β}
    {P : Except ε α → W → Prop} {Q : Except ε β → W → Prop} {w : W} (hx : S.wp x.run P w)
    (hexit : ∀ e w', w ≤ w' → P (.error e) w' → Q (.error e) w')
    (hf : ∀ a w', w ≤ w' → P (.ok a) w' → S.wp (f a).run Q w') : S.wp (x >>= f).run Q w := by
  show S.wp (x.run >>= ExceptT.bindCont f) Q w
  apply wp_bind hx
  intro r w' hle hr
  cases r with
  | error e => exact hexit e w' hle hr
  | ok a => exact hf a w' hle hr

theorem wp_flow_request_bind {ε : Type} {op : Op} {f : Ans op → Flow Op Ans ε β}
    {Q : Except ε β → W → Prop} {w : W} (hpre : S.pre op w)
    (hf : ∀ ans w', w ≤ w' → S.post op w ans w' → S.wp (f ans).run Q w') :
    S.wp (Flow.request op >>= f).run Q w :=
  ⟨hpre, hf⟩

/-- Refinement: programs that keep an operation's specification may stand in for it. -/
theorem wp_interp {h : (op : Op) → Prog Op' Ans' (Ans op)}
    (hop : ∀ op w, S.pre op w → T.wp (h op) (fun ans w' => S.post op w ans w') w)
    {p : Prog Op Ans α} {Q : α → W → Prop} {w : W} (hp : S.wp p Q w) : T.wp (p.interp h) Q w := by
  induction p generalizing w with
  | done a => exact hp
  | ask op k ih =>
      apply wp_bind (hop op w hp.1)
      intro ans w' hle hpost
      exact ih ans (hp.2 ans w' hle hpost)

/-- A program known by its runs: if in every run the needs of each operation follow from what the
answers before it taught, the program respects the specification, and at its end a run of it has
happened whose answers all still hold. -/
theorem wp_of_runs [∀ op, Inhabited (Ans op)] (learned : (op : Op) → Ans op → W → Prop)
    (hstable : ∀ op ans w w', w ≤ w' → learned op ans w → learned op ans w')
    (hlearn : ∀ op w ans w', S.post op w ans w' → learned op ans w')
    {p : Prog Op Ans α} {w : W}
    (hpre : ∀ before op ans after a w', w ≤ w' → Prog.Runs p (before ++ ⟨op, ans⟩ :: after) a →
      (∀ step ∈ before, learned step.1 step.2 w') → S.pre op w') :
    S.wp p (fun a w' => ∃ tr, Prog.Runs p tr a ∧ ∀ step ∈ tr, learned step.1 step.2 w') w := by
  induction p generalizing w with
  | done a => exact ⟨[], .done a, by simp⟩
  | ask op k ih =>
      constructor
      · obtain ⟨tr, a, hrun⟩ := Prog.exists_runs (k default)
        exact hpre [] op default tr a w le_rfl (.ask hrun) (by simp)
      · intro ans w₁ hle hpost
        have hans := hlearn op w ans w₁ hpost
        have hrest := ih ans (w := w₁) fun before op' ans' after a w' hle' hrun hbefore =>
          hpre (⟨op, ans⟩ :: before) op' ans' after a w' (le_trans hle hle') (.ask hrun)
            (List.forall_mem_cons.mpr ⟨hstable op ans w₁ w' hle' hans, hbefore⟩)
        apply wp_mono hrest
        rintro a w' hle' ⟨tr, hrun, htr⟩
        exact ⟨⟨op, ans⟩ :: tr, .ask hrun,
          List.forall_mem_cons.mpr ⟨hstable op ans w₁ w' hle' hans, htr⟩⟩

end OpSpec

/-! ## Pools of programs -/

/-- A world, the programs that run in it, and the results of those that ended. -/
structure Pool (Op : Type) (Ans : Op → Type) (W α : Type) where
  world : W
  running : List (Prog Op Ans α)
  results : List α

/-- How operations are performed, how the world moves by itself, and which programs may start. -/
structure Machine (Op : Type) (Ans : Op → Type) (W α : Type) where
  perform : (op : Op) → W → Ans op → W → Prop
  drift : W → W → Prop
  starts : Prog Op Ans α → Prop

namespace Pool

/-- One step of a pool: a program starts, performs one operation, ends, or is lost. -/
inductive Step (M : Machine Op Ans W α) : Pool Op Ans W α → Pool Op Ans W α → Prop
  | start {w : W} {ps : List (Prog Op Ans α)} {rs : List α} (p : Prog Op Ans α) :
      M.starts p → Step M ⟨w, ps, rs⟩ ⟨w, p :: ps, rs⟩
  | perform {w w' : W} {ps qs : List (Prog Op Ans α)} {rs : List α} (op : Op)
      (k : Ans op → Prog Op Ans α) (ans : Ans op) :
      M.perform op w ans w' → Step M ⟨w, ps ++ .ask op k :: qs, rs⟩ ⟨w', ps ++ k ans :: qs, rs⟩
  | finish {w : W} {ps qs : List (Prog Op Ans α)} {rs : List α} (a : α) :
      Step M ⟨w, ps ++ .done a :: qs, rs⟩ ⟨w, ps ++ qs, a :: rs⟩
  | crash {w : W} {ps qs : List (Prog Op Ans α)} {rs : List α} (p : Prog Op Ans α) :
      Step M ⟨w, ps ++ p :: qs, rs⟩ ⟨w, ps ++ qs, rs⟩
  | drift {w w' : W} {ps : List (Prog Op Ans α)} {rs : List α} :
      M.drift w w' → Step M ⟨w, ps, rs⟩ ⟨w', ps, rs⟩

/-- Reachable from a world in which nothing runs yet. -/
def Reachable (M : Machine Op Ans W α) (w : W) (s : Pool Op Ans W α) : Prop :=
  Relation.ReflTransGen (Step M) ⟨w, [], []⟩ s

/-- The machine keeps a specification, an invariant and a postcondition of results. -/
structure Keeps (M : Machine Op Ans W α) (S : OpSpec Op Ans W) (Inv : W → Prop) (Q : α → W → Prop) :
    Prop where
  perform : ∀ {op : Op} {w : W} {ans : Ans op} {w' : W}, Inv w → S.pre op w →
    M.perform op w ans w' → Inv w' ∧ w ≤ w' ∧ S.post op w ans w'
  drift : ∀ {w w' : W}, Inv w → M.drift w w' → Inv w' ∧ w ≤ w'
  starts : ∀ {p : Prog Op Ans α}, M.starts p → ∀ w, S.wp p Q w
  stable : Stable Q

/-- What holds in every reachable state. -/
structure Safe (S : OpSpec Op Ans W) (Inv : W → Prop) (Q : α → W → Prop) (s : Pool Op Ans W α) :
    Prop where
  inv : Inv s.world
  running : ∀ p ∈ s.running, S.wp p Q s.world
  results : ∀ a ∈ s.results, Q a s.world

variable {M : Machine Op Ans W α} {S : OpSpec Op Ans W} {Inv : W → Prop} {Q : α → W → Prop}

theorem Safe.step {s s' : Pool Op Ans W α} (hM : Keeps M S Inv Q) (h : Safe S Inv Q s)
    (hstep : Step M s s') : Safe S Inv Q s' := by
  cases hstep with
  | start p hp =>
      exact ⟨h.inv, List.forall_mem_cons.mpr ⟨hM.starts hp _, h.running⟩, h.results⟩
  | @perform w w' ps qs rs op k ans hop =>
      have hrunning := List.forall_mem_append.mp h.running
      obtain ⟨hask, hqs⟩ := List.forall_mem_cons.mp hrunning.2
      obtain ⟨hpre, hk⟩ := hask
      obtain ⟨hinv, hle, hpost⟩ := hM.perform h.inv hpre hop
      -- the other programs see the world move on
      have hlater : ∀ p, S.wp p Q w → S.wp p Q w' := fun p => OpSpec.wp_later hM.stable hle
      refine ⟨hinv, List.forall_mem_append.mpr ⟨fun p hp => hlater p (hrunning.1 p hp), ?_⟩,
        fun a ha => hM.stable a w w' hle (h.results a ha)⟩
      exact List.forall_mem_cons.mpr ⟨hk ans w' hle hpost, fun p hp => hlater p (hqs p hp)⟩
  | finish a =>
      have hrunning := List.forall_mem_append.mp h.running
      obtain ⟨hdone, hqs⟩ := List.forall_mem_cons.mp hrunning.2
      exact ⟨h.inv, List.forall_mem_append.mpr ⟨hrunning.1, hqs⟩,
        List.forall_mem_cons.mpr ⟨hdone, h.results⟩⟩
  | crash p =>
      have hrunning := List.forall_mem_append.mp h.running
      exact ⟨h.inv, List.forall_mem_append.mpr ⟨hrunning.1, (List.forall_mem_cons.mp hrunning.2).2⟩,
        h.results⟩
  | @drift w w' ps rs hdrift =>
      obtain ⟨hinv, hle⟩ := hM.drift h.inv hdrift
      exact ⟨hinv, fun p hp => OpSpec.wp_later hM.stable hle (h.running p hp),
        fun a ha => hM.stable a w w' hle (h.results a ha)⟩

theorem Reachable.safe {w : W} {s : Pool Op Ans W α} (hM : Keeps M S Inv Q) (hw : Inv w)
    (h : Reachable M w s) : Safe S Inv Q s := by
  induction h with
  | refl => exact ⟨hw, by simp, by simp⟩
  | tail _ hstep ih => exact ih.step hM hstep

/-! ## A program on its own -/

omit [Preorder W] in
/-- A running program may go on alone, operation by operation, to its end. -/
theorem reachable_alone {exec : (op : Op) → W → Ans op × W}
    (hexec : ∀ op w, M.perform op w (exec op w).1 (exec op w).2) {w₀ w : W} {rs : List α}
    {p : Prog Op Ans α} (h : Reachable M w₀ ⟨w, [p], rs⟩) :
    Reachable M w₀ ⟨(p.eval exec w).2, [], (p.eval exec w).1 :: rs⟩ := by
  induction p generalizing w with
  | done a =>
      have hstep : Step M ⟨w, [] ++ .done a :: [], rs⟩ ⟨w, [] ++ [], a :: rs⟩ := .finish a
      exact h.tail hstep
  | ask op k ih =>
      have hstep : Step M ⟨w, [] ++ .ask op k :: [], rs⟩
          ⟨(exec op w).2, [] ++ k (exec op w).1 :: [], rs⟩ := .perform op k _ (hexec op w)
      exact ih _ (h.tail hstep)

omit [Preorder W] in
theorem reachable_eval {exec : (op : Op) → W → Ans op × W}
    (hexec : ∀ op w, M.perform op w (exec op w).1 (exec op w).2) {w₀ w : W} {rs : List α}
    {p : Prog Op Ans α} (hp : M.starts p) (h : Reachable M w₀ ⟨w, [], rs⟩) :
    Reachable M w₀ ⟨(p.eval exec w).2, [], (p.eval exec w).1 :: rs⟩ :=
  reachable_alone hexec (h.tail (Step.start p hp))

end Pool

end P256Index
