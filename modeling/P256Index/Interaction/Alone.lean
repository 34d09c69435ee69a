import P256Index.Interaction.Program

/-!
# Programs that run alone

Against a state that performs every operation at once, a program is a function: `Prog.eval` gives
its result and the state it leaves. `Flow.Yields` is a postcondition of that one run, with a rule
for each way to build a flow; `Prog.Always` is a property of every state the run passes, which
refined operations keep when each of them does.
-/

namespace P256Index

variable {Op Op' : Type} {Ans : Op → Type} {Ans' : Op' → Type} {S ε α β : Type}

namespace Prog

/-! ## Refined operations -/

/-- A refined program runs like the program whose operations are performed by the refinement. -/
theorem eval_interp {h : (op : Op) → Prog Op' Ans' (Ans op)}
    (perform : (op : Op') → S → Ans' op × S) (p : Prog Op Ans α) (s : S) :
    (p.interp h).eval perform s = p.eval (fun op s => (h op).eval perform s) s := by
  induction p generalizing s with
  | done a => rfl
  | ask op k ih =>
      show (h op >>= fun ans => (k ans).interp h).eval perform s = _
      rw [eval_bind, ih]
      rfl

/-! ## States on the way -/

/-- Every state the run passes satisfies `I`, the first and the last one included. -/
def Always (perform : (op : Op) → S → Ans op × S) (I : S → Prop) : Prog Op Ans α → S → Prop
  | .done _, s => I s
  | .ask op k, s => I s ∧ (k (perform op s).1).Always perform I (perform op s).2

variable {perform : (op : Op) → S → Ans op × S} {I : S → Prop}

theorem Always.last {p : Prog Op Ans α} {s : S} (h : p.Always perform I s) :
    I (p.eval perform s).2 := by
  induction p generalizing s with
  | done a => exact h
  | ask op k ih => exact ih _ h.2

theorem Always.bind {p : Prog Op Ans α} {f : α → Prog Op Ans β} {s : S} (hp : p.Always perform I s)
    (hf : (f (p.eval perform s).1).Always perform I (p.eval perform s).2) :
    (p >>= f).Always perform I s := by
  induction p generalizing s with
  | done a => exact hf
  | ask op k ih => exact ⟨hp.1, ih _ hp.2 hf⟩

theorem Always.map {p : Prog Op Ans α} {f : α → β} {s : S} (hp : p.Always perform I s) :
    (f <$> p).Always perform I s := by
  rw [map_eq_pure_bind]
  exact hp.bind hp.last

/-- What every refined operation keeps, the refined program keeps. -/
theorem always_interp {perform : (op : Op') → S → Ans' op × S}
    {h : (op : Op) → Prog Op' Ans' (Ans op)} (hop : ∀ op s, I s → (h op).Always perform I s)
    (p : Prog Op Ans α) {s : S} (hs : I s) : (p.interp h).Always perform I s := by
  induction p generalizing s with
  | done a => exact hs
  | ask op k ih => exact (hop op s hs).bind (ih _ (hop op s hs).last)

end Prog

/-! ## Postconditions of the one run -/

namespace Flow

/-- `Q` holds of the result of the run from `s` and of the state it leaves. -/
def Yields (perform : (op : Op) → S → Ans op × S) (x : Flow Op Ans ε α) (s : S)
    (Q : Except ε α → S → Prop) : Prop :=
  Q (x.run.eval perform s).1 (x.run.eval perform s).2

variable {perform : (op : Op) → S → Ans op × S} {s : S} {Q : Except ε α → S → Prop}
  {R : Except ε β → S → Prop}

theorem Yields.mono {x : Flow Op Ans ε α} {Q' : Except ε α → S → Prop} (h : Yields perform x s Q)
    (hQ : ∀ r s', Q r s' → Q' r s') : Yields perform x s Q' :=
  hQ _ _ h

theorem yields_pure {a : α} (h : Q (.ok a) s) : Yields perform (pure a) s Q := h

theorem yields_throw {e : ε} (h : Q (.error e) s) : Yields perform (throw e) s Q := h

theorem yields_request_bind {op : Op} {f : Ans op → Flow Op Ans ε β}
    (h : Yields perform (f (perform op s).1) (perform op s).2 R) :
    Yields perform (request op >>= f) s R := h

theorem Yields.bind {x : Flow Op Ans ε α} {f : α → Flow Op Ans ε β} (hx : Yields perform x s Q)
    (hexit : ∀ e s', Q (.error e) s' → R (.error e) s')
    (hf : ∀ a s', Q (.ok a) s' → Yields perform (f a) s' R) : Yields perform (x >>= f) s R := by
  show R ((x.run >>= ExceptT.bindCont f).eval perform s).1
    ((x.run >>= ExceptT.bindCont f).eval perform s).2
  rw [Prog.eval_bind]
  unfold Yields at hx
  cases hr : (x.run.eval perform s).1 with
  | error e =>
      rw [hr] at hx
      exact hexit e _ hx
  | ok a =>
      rw [hr] at hx
      exact hf a _ hx

end Flow

end P256Index
