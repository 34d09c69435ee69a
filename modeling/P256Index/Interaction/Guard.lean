import P256Index.Interaction.Program

/-!
# Operations that need a reason in the past

A guard says which operations may be issued after which history. `Flow.Guarded` is the claim that a
program only issues allowed operations, whatever it is answered, together with what holds of its
result and the history it leaves; there is a rule for each way to build a flow, so that a guard is
checked function by function, and `Allowed` reads the outcome off a whole run. `Prog.Underway` is a
program between two of its operations, with the history that brought it there.
-/

namespace P256Index.Flow

variable {Op : Type} {Ans : Op → Type} {ε α β : Type}

/-! ## Guarded traces -/

/-- Every operation of `tr` is allowed by what came before it: `past`, then the trace up to it. -/
def Allowed (G : List (Sigma Ans) → Op → Prop) (past tr : List (Sigma Ans)) : Prop :=
  ∀ before op ans after, tr = before ++ ⟨op, ans⟩ :: after → G (past ++ before) op

variable {G : List (Sigma Ans) → Op → Prop} {past tr tr' : List (Sigma Ans)}

theorem allowed_nil : Allowed G past [] := by
  intro before op ans after h
  simp at h

theorem allowed_cons {op : Op} {ans : Ans op} :
    Allowed G past (⟨op, ans⟩ :: tr) ↔ G past op ∧ Allowed G (past ++ [⟨op, ans⟩]) tr := by
  constructor
  · intro h
    constructor
    · have hfirst := h [] op ans tr rfl
      rwa [List.append_nil] at hfirst
    · intro before op' ans' after heq
      have hlater := h (⟨op, ans⟩ :: before) op' ans' after (by rw [heq]; rfl)
      rwa [List.append_cons] at hlater
  · rintro ⟨hfirst, hrest⟩ before op' ans' after heq
    cases before with
    | nil =>
        cases heq
        rwa [List.append_nil]
    | cons step before =>
        rw [List.cons_append, List.cons.injEq] at heq
        obtain ⟨rfl, htail⟩ := heq
        rw [List.append_cons]
        exact hrest before op' ans' after htail

theorem allowed_append :
    Allowed G past (tr ++ tr') ↔ Allowed G past tr ∧ Allowed G (past ++ tr) tr' := by
  induction tr generalizing past with
  | nil => simp [allowed_nil]
  | cons step tr ih =>
      obtain ⟨op, ans⟩ := step
      rw [List.cons_append, allowed_cons, allowed_cons, ih, and_assoc, List.append_assoc]
      rfl

/-- Where the guard lets an operation through only below a count, no history exceeds it. -/
theorem Allowed.countP_le {p : Op → Bool} {n : Nat}
    (hG : ∀ past op, p op = true → G past op → past.countP (fun step => p step.1) < n)
    (h : Allowed G [] tr) : tr.countP (fun step => p step.1) ≤ n := by
  induction tr using List.reverseRecOn with
  | nil => exact Nat.zero_le n
  | append_singleton tr step ih =>
      have hbefore := ih (allowed_append.mp h).1
      rw [List.countP_append, List.countP_singleton]
      split
      · next hp => exact hG tr step.1 hp (h tr step.1 step.2 [] rfl)
      · exact hbefore

/-! ## Guarded programs -/

/-- After `past` the program issues allowed operations only, and `Q` relates its result to the
history then. -/
def Guarded (G : List (Sigma Ans) → Op → Prop) (past : List (Sigma Ans)) (x : Flow Op Ans ε α)
    (Q : Except ε α → List (Sigma Ans) → Prop) : Prop :=
  Ensures x fun tr r => Allowed G past tr ∧ Q r (past ++ tr)

variable {Q : Except ε α → List (Sigma Ans) → Prop} {R : Except ε β → List (Sigma Ans) → Prop}

theorem Guarded.mono {x : Flow Op Ans ε α} {Q' : Except ε α → List (Sigma Ans) → Prop}
    (h : Guarded G past x Q) (hQ : ∀ r later, past <+: later → Q r later → Q' r later) :
    Guarded G past x Q' := by
  refine Ensures.mono h ?_
  intro tr r hr
  exact ⟨hr.1, hQ r _ (List.prefix_append past tr) hr.2⟩

theorem guarded_pure {a : α} (h : Q (.ok a) past) : Guarded G past (pure a) Q := by
  refine ensures_pure.mpr ⟨allowed_nil, ?_⟩
  rwa [List.append_nil]

theorem guarded_throw {e : ε} (h : Q (.error e) past) : Guarded G past (throw e) Q := by
  refine ensures_throw.mpr ⟨allowed_nil, ?_⟩
  rwa [List.append_nil]

theorem guarded_request_bind {op : Op} {f : Ans op → Flow Op Ans ε β} (hop : G past op)
    (hf : ∀ ans, Guarded G (past ++ [⟨op, ans⟩]) (f ans) R) :
    Guarded G past (request op >>= f) R := by
  refine ensures_request_bind.mpr fun ans => ?_
  refine Ensures.mono (hf ans) ?_
  rintro tr r ⟨hallowed, hr⟩
  rw [List.append_cons]
  exact ⟨allowed_cons.mpr ⟨hop, hallowed⟩, hr⟩

/-- Sequences; the second part starts from a history that extends the first one's. -/
theorem Guarded.bind {x : Flow Op Ans ε α} {f : α → Flow Op Ans ε β} (hx : Guarded G past x Q)
    (hexit : ∀ e later, past <+: later → Q (.error e) later → R (.error e) later)
    (hf : ∀ a later, past <+: later → Q (.ok a) later → Guarded G later (f a) R) :
    Guarded G past (x >>= f) R := by
  refine Ensures.bind hx ?_ ?_
  · intro tr e hr
    exact ⟨hr.1, hexit e _ (List.prefix_append past tr) hr.2⟩
  · intro tr a ha
    refine Ensures.mono (hf a _ (List.prefix_append past tr) ha.2) ?_
    intro rest r hr
    rw [← List.append_assoc]
    exact ⟨allowed_append.mpr ⟨ha.1, hr.1⟩, hr.2⟩

end P256Index.Flow

namespace P256Index.Prog

variable {Op : Type} {Ans : Op → Type} {α : Type}

/-! ## Programs under way -/

/-- `p` has issued the operations of `past`, and `rest` is what is left of it. -/
def Underway (p : Prog Op Ans α) (past : List (Sigma Ans)) (rest : Prog Op Ans α) : Prop :=
  ∀ tr a, rest.Runs tr a → p.Runs (past ++ tr) a

variable {p : Prog Op Ans α} {past : List (Sigma Ans)}

theorem underway_start (p : Prog Op Ans α) : Underway p [] p := fun _ _ h => h

theorem Underway.ask {op : Op} {k : Ans op → Prog Op Ans α} (h : Underway p past (.ask op k))
    (ans : Ans op) : Underway p (past ++ [⟨op, ans⟩]) (k ans) := by
  intro tr a hrun
  rw [List.append_assoc]
  exact h _ a (.ask hrun)

theorem Underway.done {a : α} (h : Underway p past (.done a)) : p.Runs past a := by
  have hrun := h [] a (.done a)
  rwa [List.append_nil] at hrun

/-- The next operation belongs to a whole run. -/
theorem Underway.exists_runs [∀ op, Inhabited (Ans op)] {op : Op} {k : Ans op → Prog Op Ans α}
    (h : Underway p past (.ask op k)) (ans : Ans op) :
    ∃ later a, p.Runs (past ++ ⟨op, ans⟩ :: later) a := by
  obtain ⟨later, a, hrun⟩ := Prog.exists_runs (k ans)
  exact ⟨later, a, h _ a (.ask hrun)⟩

/-- So it is allowed by the history. -/
theorem Underway.allowed [∀ op, Inhabited (Ans op)] {G : List (Sigma Ans) → Op → Prop} {op : Op}
    {k : Ans op → Prog Op Ans α} (h : Underway p past (.ask op k))
    (hG : ∀ tr a, p.Runs tr a → Flow.Allowed G [] tr) : G past op := by
  obtain ⟨later, a, hrun⟩ := h.exists_runs default
  exact hG _ a hrun past op default later rfl

end P256Index.Prog
