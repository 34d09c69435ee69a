import P256Index.Interaction.Rely

/-!
# Round after round

The lead of a team runs one program after another, the crowd works beside it, and operations may
fail. A round counts when the lead has come to its end and every operation on its way went well;
rounds that were cut off or met a failure do not count and do no harm.

* `RelySpec.Ends` is for programs with exits, with a postcondition for both ways to end;
* `Team.Rounds` counts the rounds of a run, and `Rounds.progress` is the run lemma: a measure that
  nothing raises, and that a round that counts lowers, is used up after as many of them;
* `Team.Reachable.pooled` reads a team as a pool in which the lead is one program more.
-/

namespace P256Index

variable {Op Op' : Type} {Ans : Op → Type} {Ans' : Op' → Type} {W ε α β : Type}

/-! ## Programs with exits -/

namespace RelySpec

variable {S : RelySpec Op Ans W} {w : W}

/-- `Q` holds of the way the program ends and of the world it ends in. -/
def Ends (S : RelySpec Op Ans W) (x : Flow Op Ans ε α) (w : W) (Q : Except ε α → W → Prop) : Prop :=
  S.wp x.run Q w

theorem ends_pure {a : α} {Q : Except ε α → W → Prop} (h : Q (.ok a) w) :
    S.Ends (pure a : Flow Op Ans ε α) w Q := h

theorem ends_throw {e : ε} {Q : Except ε α → W → Prop} (h : Q (.error e) w) :
    S.Ends (throw e : Flow Op Ans ε α) w Q := h

theorem ends_request_bind {op : Op} {f : Ans op → Flow Op Ans ε β} {Q : Except ε β → W → Prop}
    (h : ∀ w₁, S.rely w w₁ → S.pre op w₁ ∧ ∀ ans w₂, S.post op w₁ ans w₂ → S.Ends (f ans) w₂ Q) :
    S.Ends (Flow.request op >>= f) w Q := h

theorem Ends.mono {x : Flow Op Ans ε α} {Q R : Except ε α → W → Prop} (h : S.Ends x w Q)
    (hQR : ∀ r w', Q r w' → R r w') : S.Ends x w R :=
  wp_mono h hQR

theorem Ends.bind {x : Flow Op Ans ε α} {f : α → Flow Op Ans ε β} {Q : Except ε α → W → Prop}
    {R : Except ε β → W → Prop} (hx : S.Ends x w Q)
    (hexit : ∀ e w', Q (.error e) w' → R (.error e) w')
    (hf : ∀ a w', Q (.ok a) w' → S.Ends (f a) w' R) : S.Ends (x >>= f) w R := by
  show S.wp (x.run >>= ExceptT.bindCont f) R w
  apply wp_bind hx
  intro r w' hr
  cases r with
  | error e => exact hexit e w' hr
  | ok a => exact hf a w' hr

/-- What holds of the ends of all runs holds of this one. -/
theorem wp_of_runs {p : Prog Op Ans α} {P : α → Prop} {Q : α → W → Prop}
    (hP : ∀ tr a, p.Runs tr a → P a) (h : S.wp p Q w) : S.wp p (fun a w' => Q a w' ∧ P a) w := by
  induction p generalizing w with
  | done a => exact ⟨h, hP [] a (.done a)⟩
  | ask op k ih =>
      intro w₁ hw₁
      refine ⟨(h w₁ hw₁).1, fun ans w₂ hpost => ih ans ?_ ((h w₁ hw₁).2 ans w₂ hpost)⟩
      exact fun tr a hrun => hP _ a (.ask hrun)

end RelySpec

/-! ## Counting rounds -/

namespace Team

variable {M : Machine Op Ans W α} {leads : Prog Op Ans α → Prop} {good : (op : Op) → Ans op → Prop}
  {t t' : Team Op Ans W α} {n : Nat} {clean : Bool}

/-- A run, with the number of rounds that count. `clean` says of the round that is under way that it
began in this run and that all its operations have gone well. -/
inductive Rounds (M : Machine Op Ans W α) (leads : Prog Op Ans α → Prop)
    (good : (op : Op) → Ans op → Prop) (t : Team Op Ans W α) : Nat → Bool → Team Op Ans W α → Prop
  | refl : Rounds M leads good t 0 false t
  | crowd {n : Nat} {clean : Bool} {t' : Team Op Ans W α} {p : Pool Op Ans W α} :
      Rounds M leads good t n clean t' → Pool.Step M t'.toPool p →
      Rounds M leads good t n clean ⟨p, t'.lead⟩
  | start {n : Nat} {clean : Bool} {p : Pool Op Ans W α} (x : Prog Op Ans α) :
      Rounds M leads good t n clean ⟨p, none⟩ → leads x → Rounds M leads good t n true ⟨p, some x⟩
  | perform {n : Nat} {clean : Bool} {w w' : W} {ps : List (Prog Op Ans α)} {rs : List α} (op : Op)
      (k : Ans op → Prog Op Ans α) (ans : Ans op) :
      Rounds M leads good t n clean ⟨⟨w, ps, rs⟩, some (.ask op k)⟩ →
      M.perform op w ans w' → good op ans →
      Rounds M leads good t n clean ⟨⟨w', ps, rs⟩, some (k ans)⟩
  | stumble {n : Nat} {clean : Bool} {w w' : W} {ps : List (Prog Op Ans α)} {rs : List α} (op : Op)
      (k : Ans op → Prog Op Ans α) (ans : Ans op) :
      Rounds M leads good t n clean ⟨⟨w, ps, rs⟩, some (.ask op k)⟩ → M.perform op w ans w' →
      Rounds M leads good t n false ⟨⟨w', ps, rs⟩, some (k ans)⟩
  | finish {n : Nat} {clean : Bool} {p : Pool Op Ans W α} (a : α) :
      Rounds M leads good t n clean ⟨p, some (.done a)⟩ →
      Rounds M leads good t (n + clean.toNat) false ⟨p, none⟩
  | crash {n : Nat} {clean : Bool} {p : Pool Op Ans W α} (x : Prog Op Ans α) :
      Rounds M leads good t n clean ⟨p, some x⟩ → Rounds M leads good t n false ⟨p, none⟩

/-- What is counted is a run. -/
theorem Rounds.reaches (h : Rounds M leads good t n clean t') :
    Relation.ReflTransGen (Step M leads) t t' := by
  induction h with
  | refl => exact .refl
  | crowd _ hstep ih => exact ih.tail (.crowd hstep)
  | start x _ hx ih => exact ih.tail (.start x hx)
  | perform op k ans _ hop _ ih => exact ih.tail (.perform op k ans hop)
  | stumble op k ans _ hop ih => exact ih.tail (.perform op k ans hop)
  | finish a _ ih => exact ih.tail (.finish a)
  | crash x _ ih => exact ih.tail (.crash x)

/-! ### A measure -/

/-- A machine that makes progress. `Inv` and `S₀` say what holds whatever happens, `S` what the lead
finds when its operations go well; `left k` says that `k` more rounds are enough. -/
structure Progress (M : Machine Op Ans W α) (leads : Prog Op Ans α → Prop)
    (good : (op : Op) → Ans op → Prop) (A : Op → Prop) (S₀ S : RelySpec Op Ans W) (Inv : W → Prop)
    (left : Nat → W → Prop) : Prop where
  keeps : Keeps M leads A S₀ Inv
  rely : ∀ {w w' : W}, S₀.rely w w' → S.rely w w'
  post : ∀ {op : Op} {w : W} {ans : Ans op} {w' : W}, S₀.post op w ans w' → good op ans →
    S.post op w ans w'
  kept : ∀ k, S.Keeps (left k)
  own : ∀ {k : Nat} {op : Op} {w : W} {ans : Ans op} {w' : W}, S₀.post op w ans w' →
    left k w → left k w'
  round : ∀ {k : Nat} {p : Prog Op Ans α} {w : W}, leads p → Inv w → left k w →
    S.wp p (fun _ w' => left (k - 1) w') w

variable {A : Op → Prop} {S₀ S : RelySpec Op Ans W} {Inv : W → Prop} {left : Nat → W → Prop}

/-- A step of the crowd is one the lead relies on. -/
theorem Safe.rely {p : Pool Op Ans W α} (hM : Keeps M leads A S Inv) (h : Safe A S Inv t)
    (hstep : Pool.Step M t.toPool p) : S.rely t.world p.world := by
  obtain ⟨⟨w, ps, rs⟩, lead⟩ := t
  cases hstep with
  | start x _ => exact S.refl w
  | perform op k ans hop =>
      have hrunning := (List.forall_mem_append.mp h.running).2
      exact (hM.crowd h.inv (List.forall_mem_cons.mp hrunning).1.1 hop).2
  | finish a => exact S.refl w
  | crash x => exact S.refl w
  | drift hdrift => exact (hM.drift h.inv hdrift).2

/-- After `n` rounds that count the measure is down by `n`, and a clean round under way will take it
down once more. -/
theorem Rounds.progress {k : Nat} (hM : Progress M leads good A S₀ S Inv left)
    (hsafe : Safe A S₀ Inv t) (hleft : left k t.world) (h : Rounds M leads good t n clean t') :
    Safe A S₀ Inv t' ∧ left (k - n) t'.world ∧ (clean = true → ∀ p, t'.lead = some p →
      S.wp p (fun _ w' => left (k - n - 1) w') t'.world) := by
  induction h with
  | refl => exact ⟨hsafe, hleft, by simp⟩
  | crowd _ hstep ih =>
      obtain ⟨hsafe, hleft, hround⟩ := ih
      have hrely := hM.rely (hsafe.rely hM.keeps hstep)
      refine ⟨hsafe.crowd hM.keeps hstep, hM.kept _ _ _ hrely hleft, fun hclean p hp => ?_⟩
      exact RelySpec.wp_later (fun _ => hM.kept _) hrely (hround hclean p hp)
  | start x _ hx ih =>
      obtain ⟨hsafe, hleft, -⟩ := ih
      refine ⟨hsafe.step hM.keeps (.start x hx), hleft, fun _ p hp => ?_⟩
      cases hp
      exact hM.round hx hsafe.inv hleft
  | @perform n clean w w' ps rs op k' ans _ hop hgood ih =>
      obtain ⟨hsafe, hleft, hround⟩ := ih
      obtain ⟨hpre, -⟩ := hsafe.lead _ rfl w (S₀.refl w)
      obtain ⟨-, hpost⟩ := hM.keeps.lead hsafe.inv hpre hop
      refine ⟨hsafe.step hM.keeps (.perform op k' ans hop), hM.own hpost hleft,
        fun hclean p hp => ?_⟩
      cases hp
      exact (hround hclean _ rfl w (S.refl w)).2 ans w' (hM.post hpost hgood)
  | @stumble n clean w w' ps rs op k' ans _ hop ih =>
      obtain ⟨hsafe, hleft, -⟩ := ih
      obtain ⟨hpre, -⟩ := hsafe.lead _ rfl w (S₀.refl w)
      obtain ⟨-, hpost⟩ := hM.keeps.lead hsafe.inv hpre hop
      exact ⟨hsafe.step hM.keeps (.perform op k' ans hop), hM.own hpost hleft, by simp⟩
  | @finish n clean p a _ ih =>
      obtain ⟨hsafe, hleft, hround⟩ := ih
      refine ⟨hsafe.step hM.keeps (.finish a), ?_, by simp⟩
      cases clean with
      | false => exact hleft
      | true =>
          have hlast := hround rfl _ rfl
          rwa [Nat.sub_sub] at hlast
  | crash x _ ih => exact ⟨ih.1.step hM.keeps (.crash x), ih.2.1, by simp⟩

/-! ### Rounds can be had -/

/-- The lead may go on alone to its end, where the operations that its specification allows can be
performed well. -/
theorem Rounds.alone {exec : (op : Op) → W → Ans op × W} (hM : Keeps M leads A S Inv)
    (hexec : ∀ op w, S.pre op w →
      M.perform op w (exec op w).1 (exec op w).2 ∧ good op (exec op w).1)
    {w : W} {ps : List (Prog Op Ans α)} {rs : List α} {p : Prog Op Ans α} (hw : Inv w)
    (hp : S.wp p (fun _ _ => True) w) (h : Rounds M leads good t n true ⟨⟨w, ps, rs⟩, some p⟩) :
    Rounds M leads good t (n + 1) false ⟨⟨(p.eval exec w).2, ps, rs⟩, none⟩ ∧
      Inv (p.eval exec w).2 := by
  induction p generalizing w with
  | done a => exact ⟨.finish a h, hw⟩
  | ask op k ih =>
      obtain ⟨hpre, hk⟩ := hp w (S.refl w)
      obtain ⟨hperform, hgood⟩ := hexec op w hpre
      obtain ⟨hinv, hpost⟩ := hM.lead hw hpre hperform
      exact ih _ hinv (hk _ _ hpost) (.perform op k _ h hperform hgood)

/-- A team whose lead is free can go through any number of rounds. -/
theorem Rounds.exists_more {exec : (op : Op) → W → Ans op × W} (hM : Keeps M leads A S Inv)
    (hexec : ∀ op w, S.pre op w →
      M.perform op w (exec op w).1 (exec op w).2 ∧ good op (exec op w).1)
    {w : W} {ps : List (Prog Op Ans α)} {rs : List α} {p : Prog Op Ans α} (hp : leads p)
    (hw : Inv w) (n : Nat) : ∃ w', Inv w' ∧
      Rounds M leads good ⟨⟨w, ps, rs⟩, none⟩ n false ⟨⟨w', ps, rs⟩, none⟩ := by
  induction n with
  | zero => exact ⟨w, hw, .refl⟩
  | succ n ih =>
      obtain ⟨w', hw', hrun⟩ := ih
      obtain ⟨hmore, hinv⟩ := Rounds.alone hM hexec hw' (hM.leads hp hw') (.start p hrun hp)
      exact ⟨_, hinv, hmore⟩

end Team

/-! ## A team as a pool -/

section Pooled

variable [Preorder W] {M M' : Machine Op Ans W α} {S : OpSpec Op Ans W} {Inv : W → Prop}
  {Q : α → W → Prop}

/-- What one machine does another one can do. -/
structure Machine.Within (M M' : Machine Op Ans W α) : Prop where
  perform : ∀ {op : Op} {w : W} {ans : Ans op} {w' : W}, M.perform op w ans w' →
    M'.perform op w ans w'
  drift : ∀ {w w' : W}, M.drift w w' → M'.drift w w'
  starts : ∀ {p : Prog Op Ans α}, M.starts p → M'.starts p

omit [Preorder W] in
theorem Pool.Step.within {s s' : Pool Op Ans W α} (hM : M.Within M') (h : Pool.Step M s s') :
    Pool.Step M' s s' := by
  cases h with
  | start p hp => exact .start p (hM.starts hp)
  | perform op k ans hop => exact .perform op k ans (hM.perform hop)
  | finish a => exact .finish a
  | crash p => exact .crash p
  | drift hdrift => exact .drift (hM.drift hdrift)

/-- The world of a pool only moves on. -/
theorem Pool.Safe.le {s s' : Pool Op Ans W α} (hM : Pool.Keeps M S Inv Q) (h : Pool.Safe S Inv Q s)
    (hstep : Pool.Step M s s') : s.world ≤ s'.world := by
  cases hstep with
  | start p _ => exact le_rfl
  | perform op k ans hop =>
      have hrunning := (List.forall_mem_append.mp h.running).2
      exact (hM.perform h.inv (List.forall_mem_cons.mp hrunning).1.1 hop).2.1
  | finish a => exact le_rfl
  | crash p => exact le_rfl
  | drift hdrift => exact (hM.drift h.inv hdrift).2

/-- What a pool keeps a team keeps, if its lead is a program the pool may start. -/
theorem Team.Reachable.pooled {leads : Prog Op Ans α → Prop} {w : W} {t : Team Op Ans W α}
    (hM : M.Within M') (hkeeps : Pool.Keeps M' S Inv Q) (hleads : ∀ {p}, leads p → M'.starts p)
    (hw : Inv w) (h : Team.Reachable M leads w t) :
    Pool.Safe S Inv Q t.toPool ∧ ∀ p, t.lead = some p → S.wp p Q t.world := by
  induction h with
  | refl => exact ⟨⟨hw, by simp, by simp⟩, by simp⟩
  | tail _ hstep ih =>
      obtain ⟨hsafe, hlead⟩ := ih
      cases hstep with
      | crowd hstep =>
          have hstep := hstep.within hM
          refine ⟨hsafe.step hkeeps hstep, fun p hp => ?_⟩
          exact OpSpec.wp_later hkeeps.stable (hsafe.le hkeeps hstep) (hlead p hp)
      | start x hx =>
          refine ⟨hsafe, fun p hp => ?_⟩
          cases hp
          exact hkeeps.starts (hleads hx) _
      | perform op k ans hop =>
          obtain ⟨hpre, hk⟩ := hlead _ rfl
          obtain ⟨hinv, hle, hpost⟩ := hkeeps.perform hsafe.inv hpre (hM.perform hop)
          refine ⟨⟨hinv, fun p hp => ?_, fun a ha => ?_⟩, fun p hp => ?_⟩
          · exact OpSpec.wp_later hkeeps.stable hle (hsafe.running p hp)
          · exact hkeeps.stable a _ _ hle (hsafe.results a ha)
          · cases hp
            exact hk ans _ hle hpost
      | finish a => exact ⟨hsafe, by simp⟩
      | crash x => exact ⟨hsafe, by simp⟩

end Pooled

end P256Index
