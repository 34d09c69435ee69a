import P256Index.Interaction.Concurrent

/-!
# One program among many

Some programs may only run one at a time: what such a program has learned is kept by all the others,
and undone by nobody but itself. So two different things are asked of the two sides.

* `Prog.Issues` bounds the crowd: its programs issue operations of a certain kind only;
* `RelySpec.wp` is for the one program: between two of its operations the world moves by `rely`, and
  an operation of its own leaves what `post` says and nothing more;
* `Team` is a pool with one such program, and `Team.Reachable.safe` the run lemma.
-/

namespace P256Index

variable {Op Op' : Type} {Ans : Op → Type} {Ans' : Op' → Type} {W ε α β : Type}

/-! ## Programs of one kind -/

namespace Prog

/-- Every operation the program can come to issue satisfies `A`. -/
def Issues (A : Op → Prop) : Prog Op Ans α → Prop
  | .done _ => True
  | .ask op k => A op ∧ ∀ ans, (k ans).Issues A

/-- The run alone, with a test of every operation in the world it is performed in. -/
def check (exec : (op : Op) → W → Ans op × W) (ok : Op → W → Bool) : Prog Op Ans α → W → Bool
  | .done _, _ => true
  | .ask op k, w => ok op w && (k (exec op w).1).check exec ok (exec op w).2

theorem check_map (exec : (op : Op) → W → Ans op × W) (ok : Op → W → Bool) (p : Prog Op Ans α)
    (f : α → β) (w : W) : (f <$> p).check exec ok w = p.check exec ok w := by
  rw [map_eq_pure_bind]
  induction p generalizing w with
  | done a => rfl
  | ask op k ih =>
      exact congrArg (ok op w && ·) (ih (exec op w).1 (exec op w).2)

variable {A : Op → Prop} {B : Op' → Prop}

theorem Issues.bind {p : Prog Op Ans α} {f : α → Prog Op Ans β} (hp : p.Issues A)
    (hf : ∀ a, (f a).Issues A) : (p >>= f).Issues A := by
  induction p with
  | done a => exact hf a
  | ask op k ih => exact ⟨hp.1, fun ans => ih ans (hp.2 ans)⟩

theorem Issues.map {p : Prog Op Ans α} {f : α → β} (hp : p.Issues A) : (f <$> p).Issues A := by
  rw [map_eq_pure_bind]
  exact hp.bind fun _ => trivial

theorem Issues.mono {A' : Op → Prop} {p : Prog Op Ans α} (hp : p.Issues A)
    (h : ∀ op, A op → A' op) : p.Issues A' := by
  induction p with
  | done a => trivial
  | ask op k ih => exact ⟨h op hp.1, fun ans => ih ans (hp.2 ans)⟩

theorem issues_request {op : Op} (h : A op) : (request op : Prog Op Ans (Ans op)).Issues A :=
  ⟨h, fun _ => trivial⟩

theorem issues_interp {h : (op : Op) → Prog Op' Ans' (Ans op)}
    (hop : ∀ op, A op → (h op).Issues B) {p : Prog Op Ans α} (hp : p.Issues A) :
    (p.interp h).Issues B := by
  induction p with
  | done a => trivial
  | ask op k ih => exact (hop op hp.1).bind fun ans => ih ans (hp.2 ans)

/-- A program issues what shows up in its runs. -/
theorem issues_of_runs [∀ op, Inhabited (Ans op)] {p : Prog Op Ans α}
    (h : ∀ tr a, p.Runs tr a → ∀ step ∈ tr, A step.1) : p.Issues A := by
  induction p with
  | done a => trivial
  | ask op k ih =>
      refine ⟨?_, fun ans => ih ans fun tr a hrun step hstep => ?_⟩
      · obtain ⟨tr, a, hrun⟩ := exists_runs (k default)
        exact h _ a (.ask hrun) ⟨op, default⟩ List.mem_cons_self
      · exact h _ a (.ask hrun) step (List.mem_cons_of_mem _ hstep)

end Prog

namespace Flow

variable {A : Op → Prop}

/-- The same for programs with early exits. -/
def Issues (A : Op → Prop) (x : Flow Op Ans ε α) : Prop := x.run.Issues A

theorem issues_pure {a : α} : Issues A (pure a : Flow Op Ans ε α) := trivial

theorem issues_throw {e : ε} : Issues A (throw e : Flow Op Ans ε α) := trivial

theorem Issues.bind {x : Flow Op Ans ε α} {f : α → Flow Op Ans ε β} (hx : Issues A x)
    (hf : ∀ a, Issues A (f a)) : Issues A (x >>= f) := by
  show (x.run >>= ExceptT.bindCont f).Issues A
  apply Prog.Issues.bind hx
  intro r
  cases r with
  | error e => trivial
  | ok a => exact hf a

theorem issues_request_bind {op : Op} {f : Ans op → Flow Op Ans ε β} (hop : A op)
    (hf : ∀ ans, Issues A (f ans)) : Issues A (request op >>= f) :=
  ⟨hop, hf⟩

end Flow

/-! ## The one program -/

/-- How the world may move between two operations, what an operation needs, and what it leaves. -/
structure RelySpec (Op : Type) (Ans : Op → Type) (W : Type) where
  rely : W → W → Prop
  refl : ∀ w, rely w w
  trans : ∀ {w₀ w₁ w₂ : W}, rely w₀ w₁ → rely w₁ w₂ → rely w₀ w₂
  pre : Op → W → Prop
  post : (op : Op) → W → Ans op → W → Prop

namespace RelySpec

variable {S : RelySpec Op Ans W} {T : RelySpec Op' Ans' W}

/-- From `w` on the program meets the needs of each of its operations, however the world moves in
between; `Q` holds of the result and the world it was reached in. -/
def wp (S : RelySpec Op Ans W) : Prog Op Ans α → (α → W → Prop) → W → Prop
  | .done a, Q, w => Q a w
  | .ask op k, Q, w => ∀ w₁, S.rely w w₁ → S.pre op w₁ ∧
      ∀ ans w₂, S.post op w₁ ans w₂ → S.wp (k ans) Q w₂

/-- What the world cannot undo between two operations. -/
def Keeps (S : RelySpec Op Ans W) (P : W → Prop) : Prop := ∀ w w', S.rely w w' → P w → P w'

theorem wp_later {p : Prog Op Ans α} {Q : α → W → Prop} {w w' : W} (hQ : ∀ a, S.Keeps (Q a))
    (hrely : S.rely w w') (h : S.wp p Q w) : S.wp p Q w' := by
  cases p with
  | done a => exact hQ a w w' hrely h
  | ask op k =>
      intro w₁ hw₁
      exact h w₁ (S.trans hrely hw₁)

theorem wp_mono {p : Prog Op Ans α} {Q R : α → W → Prop} {w : W} (h : S.wp p Q w)
    (hQR : ∀ a w', Q a w' → R a w') : S.wp p R w := by
  induction p generalizing w with
  | done a => exact hQR a w h
  | ask op k ih =>
      intro w₁ hw₁
      refine ⟨(h w₁ hw₁).1, fun ans w₂ hpost => ?_⟩
      exact ih ans ((h w₁ hw₁).2 ans w₂ hpost)

theorem wp_bind {p : Prog Op Ans α} {f : α → Prog Op Ans β} {Q : α → W → Prop} {R : β → W → Prop}
    {w : W} (h : S.wp p Q w) (hf : ∀ a w', Q a w' → S.wp (f a) R w') : S.wp (p >>= f) R w := by
  induction p generalizing w with
  | done a => exact hf a w h
  | ask op k ih =>
      intro w₁ hw₁
      refine ⟨(h w₁ hw₁).1, fun ans w₂ hpost => ?_⟩
      exact ih ans ((h w₁ hw₁).2 ans w₂ hpost)

theorem wp_map {p : Prog Op Ans α} {f : α → β} {Q : β → W → Prop} {w : W}
    (h : S.wp p (fun a w' => Q (f a) w') w) : S.wp (f <$> p) Q w := by
  rw [map_eq_pure_bind]
  exact wp_bind h fun a w' hQ => hQ

/-! ### Programs with early exits

An exit promises nothing, so only the way through has a postcondition. -/

/-- `Q` holds of the value and the world whenever the program goes through. -/
def Through (S : RelySpec Op Ans W) (x : Flow Op Ans ε α) (w : W) (Q : α → W → Prop) : Prop :=
  S.wp x.run (fun r w' => ∀ a, r = .ok a → Q a w') w

theorem through_pure {a : α} {Q : α → W → Prop} {w : W} (h : Q a w) :
    S.Through (pure a : Flow Op Ans ε α) w Q := by
  intro b hb
  cases hb
  exact h

theorem through_throw {e : ε} {Q : α → W → Prop} {w : W} :
    S.Through (throw e : Flow Op Ans ε α) w Q := by
  intro b hb
  cases hb

theorem through_request_bind {op : Op} {f : Ans op → Flow Op Ans ε β} {Q : β → W → Prop} {w : W}
    (h : ∀ w₁, S.rely w w₁ → S.pre op w₁ ∧
      ∀ ans w₂, S.post op w₁ ans w₂ → S.Through (f ans) w₂ Q) :
    S.Through (Flow.request op >>= f) w Q := h

theorem Through.bind {x : Flow Op Ans ε α} {f : α → Flow Op Ans ε β} {Q : α → W → Prop}
    {R : β → W → Prop} {w : W} (hx : S.Through x w Q)
    (hf : ∀ a w', Q a w' → S.Through (f a) w' R) : S.Through (x >>= f) w R := by
  show S.wp (x.run >>= ExceptT.bindCont f) _ w
  apply wp_bind hx
  intro r w' hr
  cases r with
  | error e => exact through_throw
  | ok a => exact hf a w' (hr a rfl)

/-- Refinement: programs that keep an operation's specification may stand in for it. The world may
have moved before the operation takes effect. -/
theorem wp_interp {h : (op : Op) → Prog Op' Ans' (Ans op)}
    (hop : ∀ op w, (∀ w₁, S.rely w w₁ → S.pre op w₁) →
      T.wp (h op) (fun ans w' => ∃ w₁, S.rely w w₁ ∧ S.post op w₁ ans w') w)
    {p : Prog Op Ans α} {Q : α → W → Prop} {w : W} (hp : S.wp p Q w) : T.wp (p.interp h) Q w := by
  induction p generalizing w with
  | done a => exact hp
  | ask op k ih =>
      apply wp_bind (hop op w fun w₁ hw₁ => (hp w₁ hw₁).1)
      intro ans w' ⟨w₁, hw₁, hpost⟩
      exact ih ans ((hp w₁ hw₁).2 ans w' hpost)

end RelySpec

/-! ## Teams -/

/-- A pool of programs, and the one program of its kind that may be running beside them. -/
structure Team (Op : Type) (Ans : Op → Type) (W α : Type) extends Pool Op Ans W α where
  lead : Option (Prog Op Ans α)

namespace Team

variable {M : Machine Op Ans W α} {leads : Prog Op Ans α → Prop}

/-- The crowd steps as a pool does; the lead starts when there is none, performs one operation, ends
or is lost. -/
inductive Step (M : Machine Op Ans W α) (leads : Prog Op Ans α → Prop) :
    Team Op Ans W α → Team Op Ans W α → Prop
  | crowd {t : Team Op Ans W α} {p : Pool Op Ans W α} : Pool.Step M t.toPool p →
      Step M leads t ⟨p, t.lead⟩
  | start {p : Pool Op Ans W α} (x : Prog Op Ans α) : leads x →
      Step M leads ⟨p, none⟩ ⟨p, some x⟩
  | perform {w w' : W} {ps : List (Prog Op Ans α)} {rs : List α} (op : Op)
      (k : Ans op → Prog Op Ans α) (ans : Ans op) : M.perform op w ans w' →
      Step M leads ⟨⟨w, ps, rs⟩, some (.ask op k)⟩ ⟨⟨w', ps, rs⟩, some (k ans)⟩
  | finish {p : Pool Op Ans W α} (a : α) : Step M leads ⟨p, some (.done a)⟩ ⟨p, none⟩
  | crash {p : Pool Op Ans W α} (x : Prog Op Ans α) : Step M leads ⟨p, some x⟩ ⟨p, none⟩

/-- Reachable from a world in which nothing runs yet. -/
def Reachable (M : Machine Op Ans W α) (leads : Prog Op Ans α → Prop) (w : W)
    (t : Team Op Ans W α) : Prop :=
  Relation.ReflTransGen (Step M leads) ⟨⟨w, [], []⟩, none⟩ t

/-- The machine keeps an invariant: the crowd moves as the lead may rely on, the lead as specified.
-/
structure Keeps (M : Machine Op Ans W α) (leads : Prog Op Ans α → Prop) (A : Op → Prop)
    (S : RelySpec Op Ans W) (Inv : W → Prop) : Prop where
  crowd : ∀ {op : Op} {w : W} {ans : Ans op} {w' : W}, Inv w → A op → M.perform op w ans w' →
    Inv w' ∧ S.rely w w'
  lead : ∀ {op : Op} {w : W} {ans : Ans op} {w' : W}, Inv w → S.pre op w → M.perform op w ans w' →
    Inv w' ∧ S.post op w ans w'
  drift : ∀ {w w' : W}, Inv w → M.drift w w' → Inv w' ∧ S.rely w w'
  starts : ∀ {p : Prog Op Ans α}, M.starts p → p.Issues A
  leads : ∀ {p : Prog Op Ans α} {w : W}, leads p → Inv w → S.wp p (fun _ _ => True) w

/-- What holds in every reachable state. -/
structure Safe (A : Op → Prop) (S : RelySpec Op Ans W) (Inv : W → Prop) (t : Team Op Ans W α) :
    Prop where
  inv : Inv t.world
  running : ∀ p ∈ t.running, p.Issues A
  lead : ∀ p, t.lead = some p → S.wp p (fun _ _ => True) t.world

variable {A : Op → Prop} {S : RelySpec Op Ans W} {Inv : W → Prop} {t t' : Team Op Ans W α}

/-- The crowd moves: the lead only sees the world move by what it relies on. -/
theorem Safe.crowd {p : Pool Op Ans W α} (hM : Keeps M leads A S Inv) (h : Safe A S Inv t)
    (hstep : Pool.Step M t.toPool p) : Safe A S Inv ⟨p, t.lead⟩ := by
  obtain ⟨⟨w, ps, rs⟩, lead⟩ := t
  have hlater : ∀ w', S.rely w w' → ∀ x, lead = some x → S.wp x (fun _ _ => True) w' := by
    intro w' hrely x hx
    exact RelySpec.wp_later (fun _ _ _ _ _ => trivial) hrely (h.lead x hx)
  cases hstep with
  | start x hx => exact ⟨h.inv, List.forall_mem_cons.mpr ⟨hM.starts hx, h.running⟩, h.lead⟩
  | perform op k ans hop =>
      have hrunning := List.forall_mem_append.mp h.running
      obtain ⟨hask, hqs⟩ := List.forall_mem_cons.mp hrunning.2
      obtain ⟨hinv, hrely⟩ := hM.crowd h.inv hask.1 hop
      refine ⟨hinv, List.forall_mem_append.mpr ⟨hrunning.1, ?_⟩, hlater _ hrely⟩
      exact List.forall_mem_cons.mpr ⟨hask.2 ans, hqs⟩
  | finish a =>
      have hrunning := List.forall_mem_append.mp h.running
      exact ⟨h.inv, List.forall_mem_append.mpr ⟨hrunning.1, (List.forall_mem_cons.mp hrunning.2).2⟩,
        h.lead⟩
  | crash x =>
      have hrunning := List.forall_mem_append.mp h.running
      exact ⟨h.inv, List.forall_mem_append.mpr ⟨hrunning.1, (List.forall_mem_cons.mp hrunning.2).2⟩,
        h.lead⟩
  | drift hdrift =>
      obtain ⟨hinv, hrely⟩ := hM.drift h.inv hdrift
      exact ⟨hinv, h.running, hlater _ hrely⟩

theorem Safe.step (hM : Keeps M leads A S Inv) (h : Safe A S Inv t) (hstep : Step M leads t t') :
    Safe A S Inv t' := by
  cases hstep with
  | crowd hstep => exact h.crowd hM hstep
  | start x hx =>
      refine ⟨h.inv, h.running, ?_⟩
      intro p hp
      cases hp
      exact hM.leads hx h.inv
  | @perform w w' ps rs op k ans hop =>
      obtain ⟨hpre, hk⟩ := h.lead _ rfl w (S.refl w)
      obtain ⟨hinv, hpost⟩ := hM.lead h.inv hpre hop
      refine ⟨hinv, h.running, ?_⟩
      intro p hp
      cases hp
      exact hk ans w' hpost
  | finish a => exact ⟨h.inv, h.running, fun p hp => by cases hp⟩
  | crash x => exact ⟨h.inv, h.running, fun p hp => by cases hp⟩

theorem Reachable.safe {w : W} (hM : Keeps M leads A S Inv) (hw : Inv w)
    (h : Reachable M leads w t) : Safe A S Inv t := by
  induction h with
  | refl => exact ⟨hw, by simp, fun p hp => by cases hp⟩
  | tail _ hstep ih => exact ih.step hM hstep

/-! ### A program on its own -/

/-- The lead, wherever it stands, performs its next operation. -/
theorem Reachable.lead_performs {w₀ w w' : W} {ps : List (Prog Op Ans α)} {rs : List α}
    {p : Prog Op Ans α} {op : Op} {k : Ans op → Prog Op Ans α} {ans : Ans op}
    (h : Reachable M leads w₀ ⟨⟨w, ps, rs⟩, some p⟩) (hp : p = .ask op k)
    (hop : M.perform op w ans w') : Reachable M leads w₀ ⟨⟨w', ps, rs⟩, some (k ans)⟩ := by
  subst hp
  exact h.tail (.perform op k ans hop)

theorem Reachable.drifts {w₀ w w' : W} {ps : List (Prog Op Ans α)} {rs : List α}
    {lead : Option (Prog Op Ans α)} (h : Reachable M leads w₀ ⟨⟨w, ps, rs⟩, lead⟩)
    (hdrift : M.drift w w') : Reachable M leads w₀ ⟨⟨w', ps, rs⟩, lead⟩ := by
  have hstep : Pool.Step M ⟨w, ps, rs⟩ ⟨w', ps, rs⟩ := .drift hdrift
  exact h.tail (.crowd hstep)

/-- A running program of the crowd may go on alone to its end, where each of its operations may be
performed. -/
theorem reachable_alone {exec : (op : Op) → W → Ans op × W} {ok : Op → W → Bool}
    (hexec : ∀ op w, ok op w = true → M.perform op w (exec op w).1 (exec op w).2) {w₀ w : W}
    {rs : List α} {p : Prog Op Ans α} (hp : p.check exec ok w = true)
    (h : Reachable M leads w₀ ⟨⟨w, [p], rs⟩, none⟩) :
    Reachable M leads w₀ ⟨⟨(p.eval exec w).2, [], (p.eval exec w).1 :: rs⟩, none⟩ := by
  induction p generalizing w with
  | done a =>
      have hstep : Pool.Step M ⟨w, [] ++ .done a :: [], rs⟩ ⟨w, [] ++ [], a :: rs⟩ := .finish a
      exact h.tail (.crowd hstep)
  | ask op k ih =>
      obtain ⟨hop, hk⟩ := Bool.and_eq_true_iff.mp hp
      have hstep : Pool.Step M ⟨w, [] ++ .ask op k :: [], rs⟩
          ⟨(exec op w).2, [] ++ k (exec op w).1 :: [], rs⟩ := .perform op k _ (hexec op w hop)
      exact ih _ hk (h.tail (.crowd hstep))

theorem reachable_eval {exec : (op : Op) → W → Ans op × W} {ok : Op → W → Bool}
    (hexec : ∀ op w, ok op w = true → M.perform op w (exec op w).1 (exec op w).2) {w₀ w : W}
    {rs : List α} {p : Prog Op Ans α} (hstarts : M.starts p) (hp : p.check exec ok w = true)
    (h : Reachable M leads w₀ ⟨⟨w, [], rs⟩, none⟩) :
    Reachable M leads w₀ ⟨⟨(p.eval exec w).2, [], (p.eval exec w).1 :: rs⟩, none⟩ := by
  have hstep : Pool.Step M ⟨w, [], rs⟩ ⟨w, [p], rs⟩ := .start p hstarts
  exact reachable_alone hexec hp (h.tail (.crowd hstep))

end Team

end P256Index
