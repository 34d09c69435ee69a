import P256Index.Registrar.Protocol
import P256Index.Registrar.Roster

/-!
# Read calls over the node roster

The retry loop of the RPC pool: a read asks one node after another until one answers or reverts, and
marks every other failure. A call that fails throughout is described by the positions it stops at
(`Asks`), which no longer mention the clock or the table.
-/

namespace P256Index.Server

open Registrar

variable {β : Type}

/-- One attempt: when the node is chosen, what it replies, and when a failure is noted. -/
structure Attempt (β : Type) where
  selectAt : Nat
  reply : Except ChainError β
  failedAt : Nat

structure CallResult (β : Type) where
  asked : List String
  result : Except ChainError β
  roster : Roster

/-- The loop of `call`, with `n` attempts left and the next one being `env i`. -/
def callFrom (env : Nat → Attempt β) : Nat → Nat → Roster → CallResult β
  | 0, _, r => ⟨[], .error .unavailable, r⟩
  | n + 1, i, r =>
      match r.select .read (env i).selectAt with
      | (none, r) => ⟨[], .error .unavailable, r⟩
      | (some url, r) =>
          match (env i).reply with
          -- `call_on` clears the node's mark before it returns the value
          | .ok value => ⟨[url], .ok value, r.markHealthy url⟩
          | .error (.reverted text) => ⟨[url], .error (.reverted text), r⟩
          | .error _ =>
              let rest := callFrom env n (i + 1) (r.markFailed url (env i).failedAt)
              ⟨url :: rest.asked, rest.result, rest.roster⟩

def call (env : Nat → Attempt β) (r : Roster) : CallResult β := callFrom env r.readAttempts 0 r

/-! ## Positions -/

section Asks

variable (nodes : List String) (hpos : 0 < nodes.length) (cools : String → Prop)

/-- The positions a call stops at, counted on from the cursor without taking remainders: each is the
first node that is neither cooling nor asked before, or one past a whole turn. -/
def Asks : Nat → List String → List Nat → Prop
  | _, _, [] => True
  | c, asked, q :: qs =>
      (c ≤ q ∧ q ≤ c + nodes.length) ∧
      (∀ j, c ≤ j → j < q → cools (Roster.pick nodes hpos j) ∨ Roster.pick nodes hpos j ∈ asked) ∧
      (q < c + nodes.length →
        ¬ (cools (Roster.pick nodes hpos q) ∨ Roster.pick nodes hpos q ∈ asked)) ∧
        Asks (q + 1) (Roster.pick nodes hpos q :: asked) qs

variable {nodes hpos cools} {a b c q₀ q₁ q₂ : Nat} {asked : List String} {qs : List Nat}

theorem pick_add_length (a : Nat) :
    Roster.pick nodes hpos (a + nodes.length) = Roster.pick nodes hpos a := by
  simp only [Roster.pick, Nat.add_mod_right]

/-- Within one turn no node comes twice. -/
theorem pick_ne (hnodup : nodes.Nodup) (hab : a < b) (hb : b < a + nodes.length) :
    Roster.pick nodes hpos a ≠ Roster.pick nodes hpos b := by
  intro h
  have hmod : a % nodes.length = b % nodes.length :=
    Fin.mk.inj_iff.mp (List.nodup_iff_injective_get.mp hnodup h)
  have hdvd : nodes.length ∣ b - a := (Nat.modEq_iff_dvd' hab.le).mp hmod
  have hle := Nat.le_of_dvd (by omega) hdvd
  omega

/-- A whole turn from anywhere comes to every node. -/
theorem exists_position (hpos : 0 < nodes.length) {url : String} (hurl : url ∈ nodes) (c : Nat) :
    ∃ j, c ≤ j ∧ j < c + nodes.length ∧ Roster.pick nodes hpos j = url := by
  obtain ⟨j, hj, hpick⟩ := Roster.exists_pick hpos hurl c
  exact ⟨c + j, by omega, by omega, hpick⟩

/-- A cooling node is asked only when every other one has been. -/
theorem Asks.free_first (h : Asks nodes hpos cools c asked qs) {before after : List Nat} {q : Nat}
    (hqs : qs = before ++ q :: after) (hcools : cools (Roster.pick nodes hpos q)) {url : String}
    (hurl : url ∈ nodes) (hfree : ¬ cools url) :
    url ∈ asked ∨ url ∈ before.map (Roster.pick nodes hpos) := by
  induction before generalizing c asked qs with
  | nil =>
      subst hqs
      obtain ⟨⟨-, hle⟩, hpassed, hfresh, -⟩ := h
      -- the turn was whole, so the node was passed
      have hturn : q = c + nodes.length := by
        by_contra hne
        exact hfresh (by omega) (.inl hcools)
      obtain ⟨j, hj, hlt, rfl⟩ := exists_position hpos hurl c
      rcases hpassed j hj (by omega) with hcool | hasked
      · exact absurd hcool hfree
      · exact .inl hasked
  | cons p before ih =>
      subst hqs
      obtain ⟨-, -, -, hrest⟩ := h
      rcases ih hrest rfl with hasked | hbefore
      · rcases List.mem_cons.mp hasked with rfl | hasked
        · exact .inr List.mem_cons_self
        · exact .inl hasked
      · exact .inr (List.mem_cons_of_mem _ hbefore)

/-- The node asked next is not the one asked last. -/
theorem Asks.ne_last
    (h : Asks nodes hpos cools (a + 1) (Roster.pick nodes hpos a :: asked) (b :: qs))
    (hnodup : nodes.Nodup) (hlen : 2 ≤ nodes.length) :
    Roster.pick nodes hpos a ≠ Roster.pick nodes hpos b := by
  obtain ⟨⟨-, hle⟩, -, hfresh, -⟩ := h
  by_cases hlt : b < a + 1 + nodes.length
  · intro heq
    exact hfresh hlt (.inr (heq ▸ List.mem_cons_self))
  · obtain rfl : b = a + 1 + nodes.length := by omega
    rw [pick_add_length]
    exact pick_ne hnodup (by omega) (by omega)

/-- If the third attempt comes back to the first node, the nodes that were free at first are that
one, at the cursor, and the one just before it. -/
theorem Asks.free_of_third_eq_first (h : Asks nodes hpos cools c [] [q₀, q₁, q₂])
    (hnodup : nodes.Nodup) (hlen : 3 ≤ nodes.length)
    (heq : Roster.pick nodes hpos q₀ = Roster.pick nodes hpos q₂) :
    ∀ url ∈ nodes, ¬ cools url ↔
      url = Roster.pick nodes hpos c ∨ url = Roster.pick nodes hpos (c + nodes.length - 1) := by
  obtain ⟨⟨hc₀, hle₀⟩, hpassed₀, hfresh₀, ⟨hc₁, hle₁⟩, hpassed₁, hfresh₁, ⟨hc₂, hle₂⟩, hpassed₂,
    hfresh₂, -⟩ := h
  -- the third choice is forced, right after the second node
  obtain rfl : q₂ = q₁ + 1 + nodes.length := by
    by_contra hne
    exact hfresh₂ (by omega) (.inr (heq ▸ List.mem_cons_of_mem _ List.mem_cons_self))
  rw [pick_add_length] at heq
  obtain rfl : q₁ = q₀ + nodes.length - 1 := by
    by_contra hne
    rcases Nat.lt_or_ge (q₁ + 1) (q₀ + nodes.length) with hlt | hge
    · exact pick_ne hnodup (by omega) hlt heq
    · rcases Nat.lt_or_ge q₁ (q₀ + 1 + nodes.length) with hlt | hge'
      · obtain rfl : q₁ = q₀ + nodes.length := by omega
        refine hfresh₁ hlt (.inr ?_)
        rw [pick_add_length]
        exact List.mem_cons_self
      · obtain rfl : q₁ = q₀ + 1 + nodes.length := by omega
        have hturn : q₀ + 1 + nodes.length + 1 = q₀ + 2 + nodes.length := by omega
        rw [hturn, pick_add_length] at heq
        exact pick_ne hnodup (by omega) (by omega) heq
  have hsecond := hfresh₁ (by omega)
  rw [not_or] at hsecond
  obtain ⟨hfree, -⟩ := hsecond
  have hfirst : ¬ cools (Roster.pick nodes hpos q₀) := by
    intro hcool
    obtain rfl : q₀ = c + nodes.length := by
      by_contra hne
      exact hfresh₀ (by omega) (.inl hcool)
    have hmem : Roster.pick nodes hpos (c + nodes.length + nodes.length - 1) ∈ nodes :=
      Roster.pick_mem _
    obtain ⟨j, hj, hlt, hpick⟩ := exists_position hpos hmem c
    rcases hpassed₀ j hj hlt with hcool' | hnone
    · exact hfree (hpick ▸ hcool')
    · cases hnone
  -- nothing was passed before the first choice: its neighbour below is free
  obtain rfl : q₀ = c := by
    by_contra hne
    rcases hpassed₀ (q₀ - 1) (by omega) (by omega) with hcool | hnone
    · have hsame : q₀ + nodes.length - 1 = q₀ - 1 + nodes.length := by omega
      rw [hsame, pick_add_length] at hfree
      exact hfree hcool
    · cases hnone
  intro url hurl
  constructor
  · intro hnot
    obtain ⟨j, hj, hlt, rfl⟩ := exists_position hpos hurl (q₀ + nodes.length - 1 + 1)
    rcases hpassed₂ j hj hlt with hcool | hasked
    · exact absurd hcool hnot
    · simpa [or_comm] using hasked
  · rintro (rfl | rfl)
    · exact hfirst
    · exact hfree

/-- Conversely, with only these two free the second choice is the one before the cursor, and the
third, forced, is the one at the cursor again. -/
theorem Asks.third_eq_first_of_free (h : Asks nodes hpos cools c [] [q₀, q₁, q₂])
    (hnodup : nodes.Nodup) (hlen : 3 ≤ nodes.length)
    (honly : ∀ url ∈ nodes, ¬ cools url ↔
      url = Roster.pick nodes hpos c ∨ url = Roster.pick nodes hpos (c + nodes.length - 1)) :
    Roster.pick nodes hpos q₀ = Roster.pick nodes hpos q₂ := by
  obtain ⟨⟨hc₀, hle₀⟩, hpassed₀, hfresh₀, ⟨hc₁, hle₁⟩, hpassed₁, hfresh₁, ⟨hc₂, hle₂⟩, hpassed₂,
    hfresh₂, -⟩ := h
  have hfree := (honly _ (Roster.pick_mem c)).mpr (.inl rfl)
  have hfree' := (honly _ (Roster.pick_mem (c + nodes.length - 1))).mpr (.inr rfl)
  obtain rfl : q₀ = c := by
    by_contra hne
    rcases hpassed₀ c le_rfl (by omega) with hcool | hnone
    · exact hfree hcool
    · cases hnone
  have hother : Roster.pick nodes hpos q₀ ≠ Roster.pick nodes hpos (q₀ + nodes.length - 1) :=
    pick_ne hnodup (by omega) (by omega)
  obtain rfl : q₁ = q₀ + nodes.length - 1 := by
    rcases Nat.lt_trichotomy q₁ (q₀ + nodes.length - 1) with hlt | heq | hgt
    · have hsecond := hfresh₁ (by omega)
      rw [not_or] at hsecond
      rcases (honly _ (Roster.pick_mem q₁)).mp hsecond.1 with heq | heq
      · exact absurd (heq ▸ List.mem_cons_self) hsecond.2
      · exact absurd heq (pick_ne hnodup hlt (by omega))
    · exact heq
    · rcases hpassed₁ (q₀ + nodes.length - 1) (by omega) hgt with hcool | hasked
      · exact absurd hcool hfree'
      · exact absurd (List.mem_singleton.mp hasked).symm hother
  obtain rfl : q₂ = q₀ + nodes.length + nodes.length := by
    by_contra hne
    have hthird := hfresh₂ (by omega)
    rw [not_or] at hthird
    rcases (honly _ (Roster.pick_mem q₂)).mp hthird.1 with heq | heq
    · exact hthird.2 (heq ▸ List.mem_cons_of_mem _ List.mem_cons_self)
    · exact hthird.2 (heq ▸ List.mem_cons_self)
  rw [pick_add_length, pick_add_length]

end Asks

/-! ## A call that fails throughout -/

/-- Every attempt fails and none reverts. -/
def AllFail (env : Nat → Attempt β) : Prop :=
  ∀ i, ∃ error, (env i).reply = .error error ∧ ∀ text, error ≠ .reverted text

/-- The clock does not go back, and no cooldown ends between the first choice and the last: neither
one that was running nor one that the call itself started. -/
structure Steady (env : Nat → Attempt β) (r : Roster) : Prop where
  select_le : ∀ i, (env i).selectAt ≤ (env i).failedAt
  failed_le : ∀ i, (env i).failedAt ≤ (env (i + 1)).selectAt
  kept : ∀ i < r.readAttempts, ∀ url, r.cooling url (env 0).selectAt = true →
    r.cooling url (env i).selectAt = true
  started : ∀ i j, i < j → j < r.readAttempts → (env j).selectAt - (env i).failedAt < rpcCooldownMs

variable {env : Nat → Attempt β} {r s : Roster} {i n : Nat} {asked : List String}

theorem Steady.select_mono (h : Steady env r) (hij : i ≤ n) :
    (env i).selectAt ≤ (env n).selectAt := by
  induction n, hij using Nat.le_induction with
  | base => exact le_rfl
  | succ n _ ih => exact ih.trans ((h.select_le n).trans (h.failed_le n))

/-- Before attempt `i`: at every later choice exactly the nodes that were cooling at first, and
those asked since, are passed over. -/
structure During (env : Nat → Attempt β) (r : Roster) (i : Nat) (asked : List String) (s : Roster) :
    Prop where
  urls : ∀ lane, s.urls lane = r.urls lane
  cooling : ∀ j, i ≤ j → j < r.readAttempts → ∀ url, s.cooling url (env j).selectAt = true ↔
    r.cooling url (env 0).selectAt = true ∨ url ∈ asked

theorem during_start (h : Steady env r) : During env r 0 [] r where
  urls _ := rfl
  cooling j _ hj url := by
    rw [List.mem_nil_iff, or_false]
    constructor
    · intro hcools
      -- a node that is free at the first choice stays free
      by_contra hfree
      have hstays :=
        Roster.coolsFrom_of_le (Bool.not_eq_true _ ▸ hfree) (h.select_mono (Nat.zero_le j))
      rw [Roster.cooling, hstays] at hcools
      cases hcools
    · exact h.kept j hj url

theorem During.next (h : Steady env r) (hd : During env r i asked s) {k : Nat} {s' : Roster}
    (url : String) (halike : Roster.Alike (env i).selectAt (s.forward .read k) s') :
    During env r (i + 1) (url :: asked) (s'.markFailed url (env i).failedAt) where
  urls lane := by
    rw [Roster.markFailed, Roster.urls_setMark, ← halike.urls, Roster.urls_forward, hd.urls]
  cooling j hij hj other := by
    rw [Roster.markFailed, Roster.cooling_setMark, List.mem_cons]
    by_cases hsame : other = url
    · have hmark : Roster.coolsFrom (some (env i).failedAt) (env j).selectAt = true :=
        decide_eq_true (h.started i j hij hj)
      rw [if_pos hsame, hmark]
      simp [hsame]
    · rw [if_neg hsame, ← halike.cooling other _ (h.select_mono (Nat.le_of_succ_le hij)),
        Roster.cooling_forward, hd.cooling j (Nat.le_of_succ_le hij) hj other]
      simp [hsame]

/-- One failed attempt: the node that was chosen is asked and marked, and the loop goes on. -/
theorem callFrom_succ (hfail : AllFail env) {url : String} {s' : Roster}
    (hselect : s.select .read (env i).selectAt = (some url, s')) :
    (callFrom env (n + 1) i s).asked =
      url :: (callFrom env n (i + 1) (s'.markFailed url (env i).failedAt)).asked := by
  obtain ⟨error, herror, hnot⟩ := hfail i
  rw [callFrom, hselect, herror]
  cases error with
  | reverted text => exact absurd rfl (hnot text)
  | _ => rfl

/-- The nodes asked by the rest of a failing call, by position. The bound leaves room for a whole
turn in every attempt, so that no cursor wraps. -/
theorem callFrom_asks (hfail : AllFail env) (h : Steady env r) (hpos : 0 < r.reads.length)
    (hd : During env r i asked s) (hn : i + n = r.readAttempts)
    (hroom : (s.cursor .read).toNat + n * (r.reads.length + 1) < 2 ^ 64) :
    ∃ qs, qs.length = n ∧ (callFrom env n i s).asked = qs.map (Roster.pick r.reads hpos) ∧
      Asks r.reads hpos (fun url => r.cooling url (env 0).selectAt = true) (s.cursor .read).toNat
        asked qs := by
  induction n generalizing i s asked with
  | zero => exact ⟨[], rfl, rfl, trivial⟩
  | succ n ih =>
      have hreads : s.urls .read = r.reads := hd.urls .read
      have hcools := hd.cooling i le_rfl (by omega)
      obtain ⟨k, hk, halike, hspec⟩ := Roster.select_spec (r := s) (env i).selectAt (hreads ▸ hpos)
      simp only [hreads] at hk hspec
      have hlen : r.reads.length < 2 ^ 63 := r.reads_lt
      have hsum : (n + 1) * (r.reads.length + 1) =
          n * (r.reads.length + 1) + (r.reads.length + 1) := by ring
      have hwrap : s.cursor .read < (s.select .read (env i).selectAt).2.cursor .read := by
        rw [← halike.cursor, Roster.cursor_forward, Roster.lt_add_iff (Nat.succ_pos k) (by omega)]
        omega
      obtain ⟨hlt, hskipped, heligible, hpicked⟩ := hspec hwrap
      have hcursor : ((s.select .read (env i).selectAt).2.cursor .read).toNat =
          (s.cursor .read).toNat + k + 1 := by
        rw [← halike.cursor, Roster.cursor_forward, Roster.toNat_add_of_lt (by omega)]
        omega
      have hselect : s.select .read (env i).selectAt =
          (some (Roster.pick r.reads hpos ((s.cursor .read).toNat + k)),
            (s.select .read (env i).selectAt).2) := Prod.ext hpicked rfl
      have hnext := hd.next h (Roster.pick r.reads hpos ((s.cursor .read).toNat + k)) halike
      obtain ⟨qs, hqs, hasked, hasks⟩ := ih hnext (by omega) (by
        rw [Roster.markFailed, Roster.cursor_setMark, hcursor]
        omega)
      rw [Roster.markFailed, Roster.cursor_setMark, hcursor] at hasks
      refine ⟨((s.cursor .read).toNat + k) :: qs, by rw [List.length_cons, hqs], ?_, ?_⟩
      · rw [callFrom_succ hfail hselect, hasked, List.map_cons]
      · refine ⟨⟨by omega, by omega⟩, ?_, ?_, hasks⟩
        · intro j hle hjlt
          have hskip := hskipped (j - (s.cursor .read).toNat) (by omega)
          rw [Nat.add_sub_cancel' hle, hcools] at hskip
          exact hskip
        · intro hturn
          rw [← hcools, heligible (by omega)]
          exact Bool.false_ne_true

theorem call_asks (hfail : AllFail env) (h : Steady env r) (hpos : 0 < r.reads.length)
    (hroom : (r.cursor .read).toNat + r.readAttempts * (r.reads.length + 1) < 2 ^ 64) :
    ∃ qs, qs.length = r.readAttempts ∧ (call env r).asked = qs.map (Roster.pick r.reads hpos) ∧
      Asks r.reads hpos (fun url => r.cooling url (env 0).selectAt = true)
        (r.cursor .read).toNat [] qs :=
  callFrom_asks hfail h hpos (during_start h) (Nat.zero_add _) hroom

/-! ## Which nodes a failing read asks -/

/-- A read that runs alone, with distinct nodes, a cursor with room for its attempts, no cooldown
ending while it runs, and every attempt failing without a revert. Its attempts go to distinct nodes,
the free ones before any cooling one, exactly if it is not the case that there are at least three
nodes and the free ones are the node at the cursor and the one just before it. There the call comes
back to its first node with another one untried. -/
theorem call_asks_distinct_iff (r : Roster) (env : Nat → Attempt β) (hnodup : r.reads.Nodup)
    (hroom : (r.cursor .read).toNat + r.readAttempts * (r.reads.length + 1) < 2 ^ 64)
    (hsteady : Steady env r) (hfail : AllFail env) :
    (call env r).asked.length = r.readAttempts ∧
    (((call env r).asked.Nodup ∧ ∀ before url after, (call env r).asked = before ++ url :: after →
        r.cooling url (env 0).selectAt = true →
          ∀ other ∈ r.reads, r.cooling other (env 0).selectAt = false → other ∈ before) ↔
      ¬ ∃ (_ : 3 ≤ r.reads.length) (hpos : 0 < r.reads.length), ∀ url ∈ r.reads,
        r.cooling url (env 0).selectAt = false ↔
          url = Roster.pick r.reads hpos (r.cursor .read).toNat ∨
          url = Roster.pick r.reads hpos ((r.cursor .read).toNat + r.reads.length - 1)) := by
  by_cases hpos : 0 < r.reads.length
  · obtain ⟨qs, hqs, hasked, hasks⟩ := call_asks hfail hsteady hpos hroom
    refine ⟨by rw [hasked, List.length_map, hqs], ?_⟩
    have horder : ∀ before url after, (call env r).asked = before ++ url :: after →
        r.cooling url (env 0).selectAt = true →
          ∀ other ∈ r.reads, r.cooling other (env 0).selectAt = false → other ∈ before := by
      intro before url after hsplit hcools other hother hfree
      rw [hasked] at hsplit
      obtain ⟨before', rest, rfl, rfl, hrest⟩ := List.map_eq_append_iff.mp hsplit
      obtain ⟨q, after', rfl, rfl, -⟩ := List.map_eq_cons_iff.mp hrest
      rcases hasks.free_first rfl hcools hother (by simp [hfree]) with hnone | hbefore
      · cases hnone
      · exact hbefore
    rw [and_iff_left horder, hasked]
    have hattempts : r.readAttempts = min r.reads.length 3 := rfl
    rw [hattempts] at hqs
    match qs, hqs, hasks with
    | [], hqs, _ =>
        rw [List.length_nil] at hqs
        omega
    | [q₀], hqs, _ =>
        rw [List.length_singleton] at hqs
        refine iff_of_true (List.nodup_singleton _) ?_
        rintro ⟨hlen, -⟩
        omega
    | [q₀, q₁], hqs, hasks =>
        simp only [List.length_cons, List.length_nil] at hqs
        have hne := hasks.2.2.2.ne_last hnodup (by omega)
        refine iff_of_true (by simpa using hne) ?_
        rintro ⟨hlen, -⟩
        omega
    | [q₀, q₁, q₂], hqs, hasks =>
        simp only [List.length_cons, List.length_nil] at hqs
        have hlen : 3 ≤ r.reads.length := by omega
        have h₀₁ := hasks.2.2.2.ne_last hnodup (by omega)
        have h₁₂ := hasks.2.2.2.2.2.2.ne_last hnodup (by omega)
        have hiff : Roster.pick r.reads hpos q₀ = Roster.pick r.reads hpos q₂ ↔ _ :=
          ⟨hasks.free_of_third_eq_first hnodup hlen, hasks.third_eq_first_of_free hnodup hlen⟩
        simp only [Bool.not_eq_true] at hiff
        simp [h₀₁, h₁₂, hiff, hlen, hpos]
    | _ :: _ :: _ :: _ :: _, hqs, _ =>
        simp only [List.length_cons] at hqs
        omega
  · have hnil : r.reads = [] := List.length_eq_zero_iff.mp (by omega)
    have hnone : r.readAttempts = 0 := by simp [Roster.readAttempts, hnil]
    have hasked : (call env r).asked = [] := by rw [call, hnone, callFrom]
    rw [hasked, hnone]
    refine ⟨rfl, iff_of_true ⟨List.nodup_nil, by simp⟩ ?_⟩
    rintro ⟨hlen, -⟩
    omega

namespace Sample

def unreachable : Nat → Attempt Unit := fun _ => ⟨1, .error .unavailable, 1⟩

theorem unreachable_allFail : AllFail unreachable := fun _ => ⟨.unavailable, rfl, by simp⟩

theorem unreachable_steady (r : Roster) : Steady unreachable r where
  select_le _ := le_rfl
  failed_le _ := le_rfl
  kept _ _ _ h := h
  started _ _ _ _ := by
    show 1 - 1 < rpcCooldownMs
    decide

def threeNodes : Roster := .new ["a", "b", "c"] [] (by decide) (by decide)

end Sample

open Sample in
/-- With every node free the three attempts are to three nodes. -/
theorem call_asks_distinct_iff_free : (call unreachable threeNodes).asked.Nodup := by
  have hiff := (call_asks_distinct_iff threeNodes unreachable (by decide) (by decide)
    (unreachable_steady _) unreachable_allFail).2
  refine (hiff.mpr ?_).1
  rintro ⟨-, hpos, honly⟩
  -- the node between the two is free as well
  have hnot : ¬ ("b" = "a" ∨ "b" = "c") := by decide
  exact hnot ((honly "b" (by decide)).mp rfl)

open Sample in
/-- The node in the middle is cooling, the cursor stands at the first: the call asks the first, the
last and the first again, and the middle one stays untried. -/
theorem call_asks_first_twice :
    let roster := threeNodes.markFailed "b" 0
    roster.reads.Nodup ∧ (roster.cursor .read).toNat + roster.readAttempts *
      (roster.reads.length + 1) < 2 ^ 64 ∧
      Steady unreachable roster ∧ AllFail unreachable ∧ roster.readAttempts = 3 ∧
        (call unreachable roster).asked = ["a", "c", "a"] ∧
          ¬ (call unreachable roster).asked.Nodup :=
  ⟨by decide, by decide, unreachable_steady _, unreachable_allFail, by decide, by decide +kernel,
    by decide +kernel⟩

end P256Index.Server
