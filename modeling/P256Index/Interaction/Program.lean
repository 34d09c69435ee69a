import Mathlib

/-!
# Programs that talk to a shell

A program is a tree: it is done, or it asks the shell to perform an operation and goes on with the
answer. Each operation fixes the type of its answers and nothing else about them, so a statement
about all runs covers every shell.

* `Prog.Runs` relates a program, the operations it issued with their answers, and its result;
* `Prog.interp` refines every operation into a program over smaller ones;
* `Flow` adds early exits; `Flow.Ensures` is a postcondition over every run, with a rule for each
  way to build a flow.
-/

namespace P256Index

inductive Prog (Op : Type) (Ans : Op → Type) (α : Type) where
  | done (a : α)
  | ask (op : Op) (k : Ans op → Prog Op Ans α)

namespace Prog

variable {Op : Type} {Ans : Op → Type} {α β γ : Type}

def bind : Prog Op Ans α → (α → Prog Op Ans β) → Prog Op Ans β
  | done a, f => f a
  | ask op k, f => ask op fun ans => (k ans).bind f

instance : Monad (Prog Op Ans) where
  pure := done
  bind := bind

@[simp] theorem pure_eq (a : α) : (pure a : Prog Op Ans α) = done a := rfl

@[simp] theorem done_bind (a : α) (f : α → Prog Op Ans β) : done a >>= f = f a := rfl

@[simp] theorem ask_bind (op : Op) (k : Ans op → Prog Op Ans α) (f : α → Prog Op Ans β) :
    ask op k >>= f = ask op fun ans => k ans >>= f := rfl

theorem bind_done (p : Prog Op Ans α) : p >>= done = p := by
  induction p with
  | done a => rfl
  | ask op k ih =>
      rw [ask_bind]
      congr 1
      funext ans
      exact ih ans

theorem bind_assoc (p : Prog Op Ans α) (f : α → Prog Op Ans β) (g : β → Prog Op Ans γ) :
    p >>= f >>= g = p >>= fun a => f a >>= g := by
  induction p with
  | done a => rfl
  | ask op k ih =>
      simp only [ask_bind]
      congr 1
      funext ans
      exact ih ans

instance : LawfulMonad (Prog Op Ans) :=
  LawfulMonad.mk' (Prog Op Ans) bind_done (fun _ _ => rfl) bind_assoc

/-- Issue one operation. -/
def request (op : Op) : Prog Op Ans (Ans op) := ask op done

/-! ## Runs -/

/-- `p.Runs tr a`: the program issues the operations of `tr`, gets their answers, and ends in `a`.
-/
inductive Runs : Prog Op Ans α → List (Sigma Ans) → α → Prop
  | done (a : α) : Runs (done a) [] a
  | ask {op : Op} {k : Ans op → Prog Op Ans α} {ans : Ans op} {tr : List (Sigma Ans)} {a : α} :
      Runs (k ans) tr a → Runs (ask op k) (⟨op, ans⟩ :: tr) a

theorem runs_done {a b : α} {tr : List (Sigma Ans)} :
    Runs (done a : Prog Op Ans α) tr b ↔ tr = [] ∧ a = b := by
  constructor
  · intro h
    cases h
    exact ⟨rfl, rfl⟩
  · rintro ⟨rfl, rfl⟩
    exact .done a

theorem runs_ask {op : Op} {k : Ans op → Prog Op Ans α} {tr : List (Sigma Ans)} {a : α} :
    Runs (ask op k) tr a ↔ ∃ ans rest, tr = ⟨op, ans⟩ :: rest ∧ Runs (k ans) rest a := by
  constructor
  · intro h
    cases h with
    | ask h => exact ⟨_, _, rfl, h⟩
  · rintro ⟨ans, rest, rfl, h⟩
    exact .ask h

/-- A run of a sequence splits into a run of each part. -/
theorem runs_bind {p : Prog Op Ans α} {f : α → Prog Op Ans β} {tr : List (Sigma Ans)} {b : β} :
    Runs (p >>= f) tr b ↔ ∃ tr₁ tr₂ a, tr = tr₁ ++ tr₂ ∧ Runs p tr₁ a ∧ Runs (f a) tr₂ b := by
  induction p generalizing tr with
  | done a =>
      rw [done_bind]
      constructor
      · intro h
        exact ⟨[], tr, a, rfl, .done a, h⟩
      · rintro ⟨tr₁, tr₂, a', rfl, h₁, h₂⟩
        obtain ⟨rfl, rfl⟩ := runs_done.mp h₁
        exact h₂
  | ask op k ih =>
      rw [ask_bind, runs_ask]
      constructor
      · rintro ⟨ans, rest, rfl, h⟩
        obtain ⟨tr₁, tr₂, a, rfl, h₁, h₂⟩ := (ih ans).mp h
        exact ⟨⟨op, ans⟩ :: tr₁, tr₂, a, rfl, .ask h₁, h₂⟩
      · rintro ⟨tr₁, tr₂, a, rfl, h₁, h₂⟩
        obtain ⟨ans, rest, rfl, h⟩ := runs_ask.mp h₁
        exact ⟨ans, rest ++ tr₂, rfl, (ih ans).mpr ⟨rest, tr₂, a, rfl, h, h₂⟩⟩

theorem runs_map {p : Prog Op Ans α} {f : α → β} {tr : List (Sigma Ans)} {b : β} :
    Runs (f <$> p) tr b ↔ ∃ a, Runs p tr a ∧ f a = b := by
  rw [map_eq_pure_bind, runs_bind]
  constructor
  · rintro ⟨tr₁, tr₂, a, rfl, h₁, h₂⟩
    obtain ⟨rfl, rfl⟩ := runs_done.mp h₂
    rw [List.append_nil]
    exact ⟨a, h₁, rfl⟩
  · rintro ⟨a, h, rfl⟩
    exact ⟨tr, [], a, (List.append_nil tr).symm, h, .done _⟩

/-- Whatever was answered so far, there is a run that goes on from it. -/
theorem exists_runs [∀ op, Inhabited (Ans op)] (p : Prog Op Ans α) : ∃ tr a, Runs p tr a := by
  induction p with
  | done a => exact ⟨[], a, .done a⟩
  | ask op k ih =>
      obtain ⟨tr, a, h⟩ := ih default
      exact ⟨_, a, .ask h⟩

/-- What a program asks next depends on the answers it has got, and on nothing else. -/
theorem Runs.next_eq {R : Type} {p : Prog Op (fun _ => R) α} {tr tr' : List ((_ : Op) × R)}
    {a a' : α} (h : Runs p tr a) (h' : Runs p tr' a') {n : Nat}
    (hans : (tr.take n).map Sigma.snd = (tr'.take n).map Sigma.snd) :
    tr[n]?.map Sigma.fst = tr'[n]?.map Sigma.fst := by
  induction p generalizing tr tr' n with
  | done b =>
      obtain ⟨rfl, -⟩ := runs_done.mp h
      obtain ⟨rfl, -⟩ := runs_done.mp h'
      rfl
  | ask op k ih =>
      obtain ⟨ans, rest, rfl, hrest⟩ := runs_ask.mp h
      obtain ⟨ans', rest', rfl, hrest'⟩ := runs_ask.mp h'
      cases n with
      | zero => rfl
      | succ n =>
          rw [List.take_succ_cons, List.take_succ_cons, List.map_cons, List.map_cons,
            List.cons.injEq] at hans
          obtain ⟨hhead, hans⟩ := hans
          obtain rfl : ans = ans' := hhead
          exact ih ans hrest hrest' hans

/-- Follow a recorded trace: the result, if the program issues exactly these operations. -/
def replay [DecidableEq Op] : Prog Op Ans α → List (Sigma Ans) → Option α
  | done a, [] => some a
  | done _, _ :: _ => none
  | ask _ _, [] => none
  | ask op k, ⟨op', ans⟩ :: tr => if h : op' = op then (k (h ▸ ans)).replay tr else none

theorem runs_iff_replay [DecidableEq Op] {p : Prog Op Ans α} {tr : List (Sigma Ans)} {a : α} :
    Runs p tr a ↔ p.replay tr = some a := by
  induction p generalizing tr with
  | done b =>
      rw [runs_done]
      cases tr with
      | nil => simp [replay]
      | cons x tr => simp [replay]
  | ask op k ih =>
      rw [runs_ask]
      cases tr with
      | nil => simp [replay]
      | cons x tr =>
          obtain ⟨op', ans⟩ := x
          by_cases hop : op' = op
          · subst hop
            simp [replay, ih]
          · simp [replay, hop]

/-! ## Refinement of operations -/

/-- Every operation is performed by a program over smaller operations. -/
def interp {Op' : Type} {Ans' : Op' → Type} (h : (op : Op) → Prog Op' Ans' (Ans op)) :
    Prog Op Ans α → Prog Op' Ans' α
  | done a => done a
  | ask op k => h op >>= fun ans => (k ans).interp h

/-- Run against a state that performs the operations one after another. -/
def eval {S : Type} (perform : (op : Op) → S → Ans op × S) : Prog Op Ans α → S → α × S
  | done a, s => (a, s)
  | ask op k, s => (k (perform op s).1).eval perform (perform op s).2

theorem eval_bind {S : Type} (perform : (op : Op) → S → Ans op × S) (p : Prog Op Ans α)
    (f : α → Prog Op Ans β) (s : S) :
    (p >>= f).eval perform s = (f (p.eval perform s).1).eval perform (p.eval perform s).2 := by
  induction p generalizing s with
  | done a => rfl
  | ask op k ih => exact ih _ _

theorem eval_map {S : Type} (perform : (op : Op) → S → Ans op × S) (p : Prog Op Ans α) (f : α → β)
    (s : S) : (f <$> p).eval perform s = (f (p.eval perform s).1, (p.eval perform s).2) := by
  rw [map_eq_pure_bind, eval_bind]
  rfl

end Prog

/-! ## Early exits -/

/-- A program that may exit early with `ε`. -/
abbrev Flow (Op : Type) (Ans : Op → Type) (ε : Type) := ExceptT ε (Prog Op Ans)

namespace Flow

variable {Op : Type} {Ans : Op → Type} {ε α β : Type}

/-- Issue one operation. -/
def request (op : Op) : Flow Op Ans ε (Ans op) := ExceptT.lift (Prog.request op)

/-- A run with its result: through, or an exit. -/
def Runs (x : Flow Op Ans ε α) (tr : List (Sigma Ans)) (r : Except ε α) : Prop :=
  Prog.Runs x.run tr r

theorem runs_pure {a : α} {tr : List (Sigma Ans)} {r : Except ε α} :
    Runs (pure a : Flow Op Ans ε α) tr r ↔ tr = [] ∧ r = .ok a := by
  show Prog.Runs (Prog.done (.ok a)) tr r ↔ _
  rw [Prog.runs_done]
  exact and_congr_right fun _ => eq_comm

theorem runs_throw {e : ε} {tr : List (Sigma Ans)} {r : Except ε α} :
    Runs (throw e : Flow Op Ans ε α) tr r ↔ tr = [] ∧ r = .error e := by
  show Prog.Runs (Prog.done (.error e)) tr r ↔ _
  rw [Prog.runs_done]
  exact and_congr_right fun _ => eq_comm

/-- A sequence exits in its first part, or runs its second part after it. -/
theorem runs_bind {x : Flow Op Ans ε α} {f : α → Flow Op Ans ε β} {tr : List (Sigma Ans)}
    {r : Except ε β} :
    Runs (x >>= f) tr r ↔ (∃ e, Runs x tr (.error e) ∧ r = .error e) ∨
      ∃ tr₁ tr₂ a, tr = tr₁ ++ tr₂ ∧ Runs x tr₁ (.ok a) ∧ Runs (f a) tr₂ r := by
  show Prog.Runs (x.run >>= ExceptT.bindCont f) tr r ↔ _
  rw [Prog.runs_bind]
  constructor
  · rintro ⟨tr₁, tr₂, res, rfl, h₁, h₂⟩
    cases res with
    | error e =>
        obtain ⟨rfl, rfl⟩ := Prog.runs_done.mp h₂
        rw [List.append_nil]
        exact Or.inl ⟨e, h₁, rfl⟩
    | ok a => exact Or.inr ⟨tr₁, tr₂, a, rfl, h₁, h₂⟩
  · rintro (⟨e, h, rfl⟩ | ⟨tr₁, tr₂, a, rfl, h₁, h₂⟩)
    · exact ⟨tr, [], .error e, (List.append_nil tr).symm, h, .done _⟩
    · exact ⟨tr₁, tr₂, .ok a, rfl, h₁, h₂⟩

/-- One operation followed by a decision on its answer. -/
theorem runs_request_bind {op : Op} {f : Ans op → Flow Op Ans ε β} {tr : List (Sigma Ans)}
    {r : Except ε β} :
    Runs (request op >>= f) tr r ↔ ∃ ans rest, tr = ⟨op, ans⟩ :: rest ∧ Runs (f ans) rest r := by
  show Prog.Runs (Prog.ask op fun ans => (f ans).run) tr r ↔ _
  rw [Prog.runs_ask]
  exact Iff.rfl

/-! ## Postconditions -/

/-- Every run of `x` leaves a trace and a result that satisfy `Q`. -/
def Ensures (x : Flow Op Ans ε α) (Q : List (Sigma Ans) → Except ε α → Prop) : Prop :=
  ∀ tr r, Runs x tr r → Q tr r

theorem Ensures.mono {x : Flow Op Ans ε α} {P Q : List (Sigma Ans) → Except ε α → Prop}
    (h : Ensures x P) (hPQ : ∀ tr r, P tr r → Q tr r) : Ensures x Q :=
  fun tr r hrun => hPQ tr r (h tr r hrun)

theorem Ensures.and {x : Flow Op Ans ε α} {P Q : List (Sigma Ans) → Except ε α → Prop}
    (hP : Ensures x P) (hQ : Ensures x Q) : Ensures x fun tr r => P tr r ∧ Q tr r :=
  fun tr r h => ⟨hP tr r h, hQ tr r h⟩

theorem ensures_pure {a : α} {Q : List (Sigma Ans) → Except ε α → Prop} :
    Ensures (pure a) Q ↔ Q [] (.ok a) := by
  simp [Ensures, runs_pure]

theorem ensures_throw {e : ε} {Q : List (Sigma Ans) → Except ε α → Prop} :
    Ensures (throw e) Q ↔ Q [] (.error e) := by
  simp [Ensures, runs_throw]

theorem ensures_request_bind {op : Op} {f : Ans op → Flow Op Ans ε β}
    {Q : List (Sigma Ans) → Except ε β → Prop} :
    Ensures (request op >>= f) Q ↔ ∀ ans, Ensures (f ans) fun tr r => Q (⟨op, ans⟩ :: tr) r := by
  simp only [Ensures, runs_request_bind]
  constructor
  · intro h ans tr r hrun
    exact h _ _ ⟨ans, tr, rfl, hrun⟩
  · rintro h _ r ⟨ans, tr, rfl, hrun⟩
    exact h ans tr r hrun

theorem Ensures.bind {x : Flow Op Ans ε α} {f : α → Flow Op Ans ε β}
    {P : List (Sigma Ans) → Except ε α → Prop} {Q : List (Sigma Ans) → Except ε β → Prop}
    (hx : Ensures x P) (hexit : ∀ tr e, P tr (.error e) → Q tr (.error e))
    (hf : ∀ tr a, P tr (.ok a) → Ensures (f a) fun rest r => Q (tr ++ rest) r) :
    Ensures (x >>= f) Q := by
  intro tr r hrun
  rcases runs_bind.mp hrun with ⟨e, h, rfl⟩ | ⟨tr₁, tr₂, a, rfl, h₁, h₂⟩
  · exact hexit tr e (hx tr _ h)
  · exact hf tr₁ a (hx tr₁ _ h₁) tr₂ r h₂

end Flow

end P256Index
