import P256Index.Registrar.Gas

/-!
# Stuck-transaction rescue

The plan of the unstick sweep over the broadcast ledger: which rows to drop, which to page about,
and which nonces to replace. `planRoleSweep_exact` says what the plan is, kind of action by kind of
action, in terms of the role's rows in ascending order; the order in which the ledger was read does
not matter.
-/

namespace P256Index.Registrar.Rescue

abbrev U128 := Fin (2 ^ 128)

instance neZero_u128 : NeZero (2 ^ 128) := ⟨by norm_num⟩

def stuckTxAgeMs : UInt64 := 2 * 60 * 1000
def maxUnstickPerCycle : Nat := 5
def unstickAlertAttempts : UInt32 := 5
def unstickAlertAgeMs : UInt64 := 10 * 60 * 1000

/-- One broadcast-ledger row, as the store projects it; a row without fees was written before they
were recorded. -/
structure LedgerRow where
  role : String
  nonce : UInt64
  hash : String
  sentAtMs : UInt64
  attempts : UInt32
  feesWei : Option (U128 × U128)
  deriving DecidableEq

inductive RescueAction where
  | dropConsumedRow (nonce : UInt64)
  | escalate (message : String)
  | replace (nonce : UInt64) (attemptsAfter : UInt32) (previousFeesWei : Option (U128 × U128))
  deriving DecidableEq

/-- `u64::saturating_sub`. -/
def saturatingSub (a b : UInt64) : UInt64 := if b ≤ a then a - b else 0

def stuckAlert (role : String) (nonce : UInt64) (attempts : UInt32) (ageMs : UInt64) : String :=
  "🛑 [webauthnp256-publickey-index] stuck " ++ role ++ " nonce " ++ toString nonce ++
    " not clearing (attempts " ++ toString attempts ++ ", stuck ~" ++ toString (ageMs / 60000) ++
    " min). Manual intervention may be required."

/-- The loop over the rows of a role; `replaced` counts the replacements planned so far. -/
def planRows (confirmedNonce nowMs : UInt64) : Nat → List LedgerRow → List RescueAction
  | _, [] => []
  | replaced, row :: rest =>
      if row.nonce < confirmedNonce then
        .dropConsumedRow row.nonce :: planRows confirmedNonce nowMs replaced rest
      else
        let ageMs := saturatingSub nowMs row.sentAtMs
        let alerts :=
          if row.attempts ≥ unstickAlertAttempts ∨ ageMs ≥ unstickAlertAgeMs then
            [.escalate (stuckAlert row.role row.nonce row.attempts ageMs)]
          else []
        if replaced ≥ maxUnstickPerCycle then
          alerts ++ planRows confirmedNonce nowMs replaced rest
        else
          -- `attempts + 1` wraps in a release build
          alerts ++ .replace row.nonce (row.attempts + 1) row.feesWei ::
            planRows confirmedNonce nowMs (replaced + 1) rest

/-- Plan one role's sweep: its rows, ascending by nonce. -/
def planRoleSweep (role : String) (confirmedNonce : UInt64) (ledger : List LedgerRow)
    (nowMs : UInt64) : List RescueAction :=
  let stuck := (ledger.filter fun row => row.role = role).mergeSort fun a b => a.nonce ≤ b.nonce
  planRows confirmedNonce nowMs 0 stuck

/-! ## What the ledger calls for -/

/-- Past the attempt or the age threshold. -/
def LedgerRow.Overdue (row : LedgerRow) (nowMs : UInt64) : Prop :=
  row.attempts ≥ unstickAlertAttempts ∨ saturatingSub nowMs row.sentAtMs ≥ unstickAlertAgeMs

instance (row : LedgerRow) (nowMs : UInt64) : Decidable (row.Overdue nowMs) :=
  inferInstanceAs (Decidable (_ ∨ _))

/-- What the operator is told about a row. -/
def LedgerRow.alert (row : LedgerRow) (nowMs : UInt64) : String :=
  stuckAlert row.role row.nonce row.attempts (saturatingSub nowMs row.sentAtMs)

def RescueAction.dropped : RescueAction → Option UInt64
  | .dropConsumedRow nonce => some nonce
  | _ => none

def RescueAction.escalated : RescueAction → Option String
  | .escalate message => some message
  | _ => none

def RescueAction.replaced : RescueAction → Option (UInt64 × Nat × Option (U128 × U128))
  | .replace nonce attemptsAfter previousFeesWei =>
      some (nonce, attemptsAfter.toNat, previousFeesWei)
  | _ => none

/-- The row an action is taken for. -/
inductive TakenFor (nowMs : UInt64) (row : LedgerRow) : RescueAction → Prop
  | drop : TakenFor nowMs row (.dropConsumedRow row.nonce)
  | escalate : TakenFor nowMs row (.escalate (row.alert nowMs))
  | replace (attempts : UInt32) : TakenFor nowMs row (.replace row.nonce attempts row.feesWei)

/-- The plan for rows in ascending order, with a budget of replacements. -/
structure Plans (confirmedNonce nowMs : UInt64) (budget : Nat) (rows : List LedgerRow)
    (plan : List RescueAction) : Prop where
  drops : plan.filterMap RescueAction.dropped =
    (rows.filter fun row => row.nonce < confirmedNonce).map LedgerRow.nonce
  replaces : plan.filterMap RescueAction.replaced =
    ((rows.filter fun row => confirmedNonce ≤ row.nonce).take budget).map
      fun row => (row.nonce, row.attempts.toNat + 1, row.feesWei)
  escalates : plan.filterMap RescueAction.escalated =
    (rows.filter fun row => confirmedNonce ≤ row.nonce ∧ row.Overdue nowMs).map fun row =>
      row.alert nowMs
  /-- Each action is for a row, and these rows ascend. -/
  ordered : ∃ owners, List.Forall₂ (TakenFor nowMs) owners plan ∧
    owners.Pairwise (fun a b => a.nonce ≤ b.nonce) ∧ owners ⊆ rows

/-! ## The loop -/

section Loop

variable {confirmedNonce nowMs : UInt64} {row : LedgerRow} {rows : List LedgerRow}

/-- The alert for one remaining row, if it is due. -/
def alerts (nowMs : UInt64) (row : LedgerRow) : List RescueAction :=
  if row.Overdue nowMs then [.escalate (row.alert nowMs)] else []

theorem planRows_dropped (h : row.nonce < confirmedNonce) (replaced : Nat) :
    planRows confirmedNonce nowMs replaced (row :: rows) =
      .dropConsumedRow row.nonce :: planRows confirmedNonce nowMs replaced rows := by
  rw [planRows, if_pos h]

theorem planRows_spent (h : ¬ row.nonce < confirmedNonce) {replaced : Nat}
    (hspent : replaced ≥ maxUnstickPerCycle) :
    planRows confirmedNonce nowMs replaced (row :: rows) =
      alerts nowMs row ++ planRows confirmedNonce nowMs replaced rows := by
  rw [planRows, if_neg h]
  exact if_pos hspent

theorem planRows_replaced (h : ¬ row.nonce < confirmedNonce) {replaced : Nat}
    (hleft : ¬ replaced ≥ maxUnstickPerCycle) :
    planRows confirmedNonce nowMs replaced (row :: rows) =
      alerts nowMs row ++ .replace row.nonce (row.attempts + 1) row.feesWei ::
        planRows confirmedNonce nowMs (replaced + 1) rows := by
  rw [planRows, if_neg h]
  exact if_neg hleft

theorem alerts_dropped (row : LedgerRow) :
    (alerts nowMs row).filterMap RescueAction.dropped = [] := by
  unfold alerts
  split <;> rfl

theorem alerts_replaced (row : LedgerRow) :
    (alerts nowMs row).filterMap RescueAction.replaced = [] := by
  unfold alerts
  split <;> rfl

theorem alerts_escalated (row : LedgerRow) : (alerts nowMs row).filterMap RescueAction.escalated =
    if row.Overdue nowMs then [row.alert nowMs] else [] := by
  unfold alerts
  split <;> rfl

/-- The actions for one row, put before those for the rows behind it. -/
theorem ordered_append {actions plan : List RescueAction}
    (hactions : ∀ action ∈ actions, TakenFor nowMs row action)
    (hle : ∀ other ∈ rows, row.nonce ≤ other.nonce)
    (h : ∃ owners, List.Forall₂ (TakenFor nowMs) owners plan ∧
      owners.Pairwise (fun a b => a.nonce ≤ b.nonce) ∧ owners ⊆ rows) :
    ∃ owners, List.Forall₂ (TakenFor nowMs) owners (actions ++ plan) ∧
      owners.Pairwise (fun a b => a.nonce ≤ b.nonce) ∧ owners ⊆ row :: rows := by
  induction actions with
  | nil =>
      obtain ⟨owners, htaken, hsorted, hsub⟩ := h
      exact ⟨owners, htaken, hsorted, fun owner howner => List.mem_cons_of_mem row (hsub howner)⟩
  | cons action actions ih =>
      obtain ⟨hfirst, hrest⟩ := List.forall_mem_cons.mp hactions
      obtain ⟨owners, htaken, hsorted, hsub⟩ := ih hrest
      refine ⟨row :: owners, .cons hfirst htaken, List.pairwise_cons.mpr ⟨?_, hsorted⟩,
        List.cons_subset.mpr ⟨List.mem_cons_self, hsub⟩⟩
      intro owner howner
      rcases List.mem_cons.mp (hsub howner) with rfl | hmem
      · exact UInt64.le_refl _
      · exact hle owner hmem

theorem alerts_takenFor : ∀ action ∈ alerts nowMs row, TakenFor nowMs row action := by
  intro action haction
  unfold alerts at haction
  split at haction
  · rw [List.mem_singleton.mp haction]
    exact .escalate
  · cases haction

/-- The counter does not overflow. -/
theorem toNat_succ {attempts : UInt32} (h : attempts.toNat < 2 ^ 32 - 1) :
    (attempts + 1).toNat = attempts.toNat + 1 := by
  rw [UInt32.toNat_add]
  show (attempts.toNat + 1) % 2 ^ 32 = _
  omega

/-- The loop over rows in ascending order, whatever was replaced before. -/
theorem planRows_plans (hsorted : rows.Pairwise fun a b => a.nonce ≤ b.nonce)
    (hattempts : ∀ row ∈ rows, row.attempts.toNat < 2 ^ 32 - 1) (replaced : Nat) :
    Plans confirmedNonce nowMs (maxUnstickPerCycle - replaced) rows
      (planRows confirmedNonce nowMs replaced rows) := by
  induction rows generalizing replaced with
  | nil => exact ⟨rfl, by simp [planRows], rfl, [], .nil, .nil, List.Subset.refl []⟩
  | cons row rows ih =>
      obtain ⟨hfirst, hsorted⟩ := List.pairwise_cons.mp hsorted
      obtain ⟨hcount, hattempts⟩ := List.forall_mem_cons.mp hattempts
      have ih := ih hsorted hattempts
      by_cases hconsumed : row.nonce < confirmedNonce
      · -- consumed: dropped, and in no other list
        have hlow : ¬ confirmedNonce ≤ row.nonce := UInt64.not_le.mpr hconsumed
        rw [planRows_dropped hconsumed]
        obtain ⟨hdrops, hreplaces, hescalates, hordered⟩ := ih replaced
        have hdrop : ∀ action ∈ [RescueAction.dropConsumedRow row.nonce],
            TakenFor nowMs row action :=
          List.forall_mem_singleton.mpr .drop
        refine ⟨?_, ?_, ?_, ordered_append hdrop hfirst hordered⟩
        · simp [RescueAction.dropped, hdrops, hconsumed]
        · rw [List.filterMap_cons_none rfl, hreplaces]
          simp [hlow]
        · rw [List.filterMap_cons_none rfl, hescalates]
          simp [hlow]
      · have hhigh : confirmedNonce ≤ row.nonce := UInt64.not_lt.mp hconsumed
        by_cases hspent : replaced ≥ maxUnstickPerCycle
        · rw [planRows_spent hconsumed hspent]
          obtain ⟨hdrops, hreplaces, hescalates, hordered⟩ := ih replaced
          refine ⟨?_, ?_, ?_, ordered_append alerts_takenFor hfirst hordered⟩
          · simpa [alerts_dropped, hconsumed] using hdrops
          · rw [Nat.sub_eq_zero_of_le hspent] at hreplaces ⊢
            simpa [alerts_replaced] using hreplaces
          · rw [List.filterMap_append, alerts_escalated, hescalates, List.filter_cons]
            by_cases hoverdue : row.Overdue nowMs
            · simp [hoverdue, hhigh]
            · simp [hoverdue]
        · rw [planRows_replaced hconsumed hspent]
          obtain ⟨hdrops, hreplaces, hescalates, hordered⟩ := ih (replaced + 1)
          have hbudget : maxUnstickPerCycle - replaced =
              maxUnstickPerCycle - (replaced + 1) + 1 := by omega
          refine ⟨?_, ?_, ?_, ?_⟩
          · rw [List.filterMap_append, List.filterMap_cons_none rfl, alerts_dropped, hdrops]
            simp [hconsumed]
          · rw [hbudget]
            simp [alerts_replaced, RescueAction.replaced, hreplaces, hhigh, toNat_succ hcount]
          · rw [List.filterMap_append, List.filterMap_cons_none rfl, alerts_escalated, hescalates,
              List.filter_cons]
            by_cases hoverdue : row.Overdue nowMs
            · simp [hoverdue, hhigh]
            · simp [hoverdue]
          · rw [List.append_cons]
            refine ordered_append ?_ hfirst hordered
            intro action haction
            rcases List.mem_append.mp haction with halert | hreplace
            · exact alerts_takenFor action halert
            · rw [List.mem_singleton.mp hreplace]
              exact .replace _

end Loop

/-! ## The plan -/

theorem pairwise_mergeSort_nonce (rows : List LedgerRow) :
    (rows.mergeSort fun a b => a.nonce ≤ b.nonce).Pairwise fun a b => a.nonce ≤ b.nonce := by
  refine (List.pairwise_mergeSort ?_ ?_ rows).imp ?_
  · intro a b c hab hbc
    simp only [decide_eq_true_eq] at hab hbc ⊢
    exact UInt64.le_trans hab hbc
  · intro a b
    simpa using UInt64.le_total a.nonce b.nonce
  · intro a b hab
    simpa using hab

/-- The role's rows in the order they are worked through. -/
theorem sorted_rows (role : String) {ledger : List LedgerRow}
    (hunique : (ledger.map fun row => (row.role, row.nonce)).Nodup) :
    ((ledger.filter fun row => row.role = role).mergeSort fun a b => a.nonce ≤ b.nonce).Pairwise
      fun a b => a.nonce < b.nonce := by
  have hperm := List.mergeSort_perm (ledger.filter fun row => row.role = role) fun a b =>
    a.nonce ≤ b.nonce
  have hsorted := pairwise_mergeSort_nonce (ledger.filter fun row => row.role = role)
  -- no nonce twice under one role
  have hdistinct :
      ((ledger.filter fun row => row.role = role).mergeSort fun a b => a.nonce ≤ b.nonce).Pairwise
      fun a b => (a.role, a.nonce) ≠ (b.role, b.nonce) := by
    apply List.pairwise_map.mp
    exact (hperm.map _).nodup_iff.mpr (hunique.sublist (List.filter_sublist.map _))
  refine (hsorted.and hdistinct).imp_of_mem ?_
  intro a b ha hb hab
  have hrole : ∀ row ∈ (ledger.filter fun row => row.role = role).mergeSort fun a b =>
      a.nonce ≤ b.nonce, row.role = role := by
    intro row hrow
    simpa using (List.mem_filter.mp (hperm.mem_iff.mp hrow)).2
  have hne : a.nonce ≠ b.nonce := by
    intro heq
    apply hab.2
    rw [heq, hrole a ha, hrole b hb]
  exact UInt64.lt_of_le_of_ne hab.1 hne

/-- However the ledger is listed, the role's rows come in one order. -/
theorem sorted_rows_perm {role : String} {ledger ledger' : List LedgerRow}
    (hunique : (ledger.map fun row => (row.role, row.nonce)).Nodup) (hperm : ledger'.Perm ledger) :
    ((ledger'.filter fun row => row.role = role).mergeSort fun a b => a.nonce ≤ b.nonce) =
      (ledger.filter fun row => row.role = role).mergeSort fun a b => a.nonce ≤ b.nonce := by
  have hsorted' := sorted_rows role ((hperm.map _).nodup_iff.mpr hunique)
  have hrows' := List.mergeSort_perm (ledger'.filter fun row => row.role = role) fun a b =>
    a.nonce ≤ b.nonce
  have hrows := List.mergeSort_perm (ledger.filter fun row => row.role = role) fun a b =>
    a.nonce ≤ b.nonce
  refine (hrows'.trans ((hperm.filter _).trans hrows.symm)).eq_of_pairwise ?_ hsorted'
    (sorted_rows role hunique)
  intro a b _ _ hab hba
  exact absurd hba (UInt64.not_lt.mpr (UInt64.le_of_lt hab))

/-- The plan drops the role's rows below the confirmed nonce, replaces the five lowest of the others
at the next attempt, pages about every other one that is overdue, and works its way up the nonces;
it is the same for every listing of the ledger. -/
theorem planRoleSweep_exact (role : String) (confirmedNonce nowMs : UInt64)
    (ledger : List LedgerRow) (hunique : (ledger.map fun row => (row.role, row.nonce)).Nodup)
    (hattempts : ∀ row ∈ ledger, row.attempts.toNat < 2 ^ 32 - 1) :
    (∃ rows, rows.Perm (ledger.filter fun row => row.role = role) ∧
      rows.Pairwise (fun a b => a.nonce < b.nonce) ∧
      Plans confirmedNonce nowMs maxUnstickPerCycle rows
        (planRoleSweep role confirmedNonce ledger nowMs)) ∧
    ∀ ledger', ledger'.Perm ledger →
      planRoleSweep role confirmedNonce ledger' nowMs =
        planRoleSweep role confirmedNonce ledger nowMs := by
  constructor
  · have hperm := List.mergeSort_perm (ledger.filter fun row => row.role = role) fun a b =>
      a.nonce ≤ b.nonce
    have hsorted := sorted_rows role hunique
    refine ⟨_, hperm, hsorted, planRows_plans (hsorted.imp fun h => UInt64.le_of_lt h) ?_ 0⟩
    intro row hrow
    exact hattempts row (List.mem_of_mem_filter (hperm.mem_iff.mp hrow))
  · intro ledger' hperm
    unfold planRoleSweep
    rw [sorted_rows_perm hunique hperm]

/-- A consumed row, a fresh one and one that was tried five times already, among a row of another
role. -/
def mixedLedger : List LedgerRow :=
  [⟨"register", 6, "0x06", 1000, 0, none⟩, ⟨"register", 7, "0x07", 1000, 0, none⟩,
    ⟨"other", 7, "0x17", 1000, 0, none⟩, ⟨"register", 8, "0x08", 1000, 5, some (30, 2)⟩]

/-- Listed backwards, the plan is the one for the rows in ascending order. -/
theorem planRoleSweep_exact_mixed :
    planRoleSweep "register" 7 mixedLedger.reverse 1000 = [.dropConsumedRow 6, .replace 7 1 none,
      .escalate (stuckAlert "register" 8 5 0), .replace 8 6 (some (30, 2))] := by
  have hunique : (mixedLedger.map fun row => (row.role, row.nonce)).Nodup := by decide
  have hattempts : ∀ row ∈ mixedLedger, row.attempts.toNat < 2 ^ 32 - 1 := by decide
  have hsame := (planRoleSweep_exact "register" 7 1000 mixedLedger hunique hattempts).2 _
    (List.reverse_perm mixedLedger)
  rw [hsame]
  unfold planRoleSweep
  dsimp only
  rw [List.mergeSort_of_pairwise (by decide)]
  decide +kernel

end P256Index.Registrar.Rescue
