import P256Index.Interaction.Guard
import P256Index.Registrar.Rescue

/-!
# The unstick sweep and its ledger

One sweep reads the broadcast ledger, asks the registrar for a plan and carries it out: rows of
consumed nonces are deleted, and a stuck nonce is replaced at a price above the one its row records.
Any number of sweeps may follow each other, with any clock, base fee, confirmed nonce and node.
`ladder_climbs` says what can happen to a row on the way, and that every nonce is out of rungs in
the end: a recorded bid only rises, and never past the cap.
-/

namespace P256Index.Server.Unstick

open Registrar Rescue Gas

/-! ## The sweep -/

inductive WalletRole where
  | register
  deriving DecidableEq

def WalletRole.ledgerName : WalletRole → String
  | .register => "register"

inductive AlertKind where
  | stuck
  | gasCapped
  deriving DecidableEq

/-- A row as the store lists it; its fees are read field by field. -/
structure PendingTx where
  role : String
  nonce : UInt64
  hash : String
  sentAtMs : UInt64
  attempts : UInt32
  maxFeeWei : Option U128
  maxPriorityFeeWei : Option U128
  deriving DecidableEq

inductive Operation where
  | listPendingTxs (sentBeforeMs : UInt64)
  | baseFee
  | confirmedNonce (role : WalletRole)
  | cancelStuckNonce (role : WalletRole) (nonce : UInt64) (fees : FeePlan)
  | recordPendingTx (role : String) (nonce : UInt64) (hash : String) (sentAtMs : UInt64)
      (attempts : UInt32) (fees : Option (U128 × U128))
  | deletePendingTx (role : String) (nonce : UInt64)
  | alertThrottled (kind : AlertKind) (message : String)
  deriving DecidableEq

/-- A read may fail; ledger writes succeed. -/
abbrev Answer : Operation → Type
  | .listPendingTxs _ => Option (List PendingTx)
  | .baseFee => Option U256
  | .confirmedNonce _ => Option UInt64
  | .cancelStuckNonce _ _ _ => Except ChainError String
  | .recordPendingTx _ _ _ _ _ _ | .deletePendingTx _ _ | .alertThrottled _ _ => Unit

/-- An early `return` is an exit. -/
abbrev SweepFlow := Flow Operation Answer Unit

abbrev ask (op : Operation) : SweepFlow (Answer op) := Flow.request op

/-- `Option::zip`. -/
def zip {α β : Type} (a : Option α) (b : Option β) : Option (α × β) :=
  a.bind fun a => b.map fun b => (a, b)

def PendingTx.toRow (row : PendingTx) : LedgerRow where
  role := row.role
  nonce := row.nonce
  hash := row.hash
  sentAtMs := row.sentAtMs
  attempts := row.attempts
  feesWei := zip row.maxFeeWei row.maxPriorityFeeWei

/-- `U256::from(u128)`. -/
def ofU128 (n : U128) : U256 := ⟨n.val, lt_trans n.isLt (by norm_num)⟩

/-- `u128::try_from(..).ok()`. -/
def toU128 (n : U256) : Option U128 := if h : n.val < 2 ^ 128 then some ⟨n.val, h⟩ else none

def feePlan (fees : U128 × U128) : FeePlan := ⟨ofU128 fees.1, ofU128 fees.2⟩

def gasCappedAlert (role : WalletRole) (nonce : UInt64) (required cap : U256) : String :=
  "🛑 [webauthnp256-publickey-index] stuck " ++ role.ledgerName ++ " nonce " ++ toString nonce ++
    " needs " ++ toString required.val ++ " wei to replace, above the " ++ toString cap.val ++
    " wei cap. Raise P256_INDEX_MAX_GAS_PRICE_WEI or intervene manually."

/-- The hash and time a row keeps when its replacement was refused. -/
def rowIdentity (ledger : List LedgerRow) (role : WalletRole) (nonce now : UInt64) :
    String × UInt64 :=
  ((ledger.find? fun row => row.role = role.ledgerName ∧ row.nonce = nonce).map
    fun row => (row.hash, row.sentAtMs)).getD ("", now)

/-- Send a replacement, and record its bid if the node took it or judged it too low. -/
def sendReplacement (ledger : List LedgerRow) (now : UInt64) (role : WalletRole) (nonce : UInt64)
    (attemptsAfter : UInt32) (fees : FeePlan) : SweepFlow Unit := do
  let bid := zip (toU128 fees.maxFeePerGas) (toU128 fees.maxPriorityFeePerGas)
  let (rowHash, sentAt) := rowIdentity ledger role nonce now
  match ← ask (.cancelStuckNonce role nonce fees) with
  | .ok cancelHash =>
      ask (.recordPendingTx role.ledgerName nonce cancelHash now attemptsAfter bid)
  | .error error =>
      if isReplacementUnderpriced error then
        ask (.recordPendingTx role.ledgerName nonce rowHash sentAt attemptsAfter bid)
      else pure ()

/-- Carry out one action of the plan. -/
def perform (cap baseFee : U256) (ledger : List LedgerRow) (now : UInt64) (role : WalletRole) :
    RescueAction → SweepFlow Unit
  | .dropConsumedRow nonce => ask (.deletePendingTx role.ledgerName nonce)
  | .escalate message => ask (.alertThrottled .stuck message)
  | .replace nonce attemptsAfter previousFeesWei =>
      -- `attempts_after.saturating_sub(1)`
      let attempts := if attemptsAfter = 0 then 0 else attemptsAfter - 1
      match planReplacement (previousFeesWei.map feePlan) baseFee defaultTipWei cap attempts with
      | .send fees => sendReplacement ledger now role nonce attemptsAfter fees
      | .tooExpensive required cap =>
          ask (.alertThrottled .gasCapped (gasCappedAlert role nonce required cap))

def performAll (cap baseFee : U256) (ledger : List LedgerRow) (now : UInt64) (role : WalletRole) :
    List RescueAction → SweepFlow Unit
  | [] => pure ()
  | action :: rest => do
      perform cap baseFee ledger now role action
      performAll cap baseFee ledger now role rest

def sweepRole (cap baseFee : U256) (ledger : List LedgerRow) (now : UInt64) (role : WalletRole) :
    SweepFlow Unit := do
  match ← ask (.confirmedNonce role) with
  | some confirmed =>
      performAll cap baseFee ledger now role (planRoleSweep role.ledgerName confirmed ledger now)
  | none => pure ()

/-- One sweep at the clock `now`. -/
def unstickSweep (cap : U256) (now : UInt64) : SweepFlow Unit := do
  match ← ask (.listPendingTxs (saturatingSub now stuckTxAgeMs)) with
  | some rows =>
      let ledger := rows.map PendingTx.toRow
      if ledger.isEmpty then throw ()
      match ← ask .baseFee with
      | some baseFee => sweepRole cap baseFee ledger now .register
      | none => throw ()
  | none => throw ()

/-! ## The ledger -/

/-- What a ledger field holds. -/
structure PendingTxEntry where
  hash : String
  sentAtMs : UInt64
  attempts : UInt32
  maxFeeWei : Option U128
  maxPriorityFeeWei : Option U128
  deriving DecidableEq

/-- The recorded bid. -/
def PendingTxEntry.bid (entry : PendingTxEntry) : Option (U128 × U128) :=
  zip entry.maxFeeWei entry.maxPriorityFeeWei

/-- The fields of the Redis hash, by role and nonce. -/
def Ledger := String → UInt64 → Option PendingTxEntry

def Ledger.set (l : Ledger) (role : String) (nonce : UInt64) (entry : Option PendingTxEntry) :
    Ledger :=
  fun r n => if r = role ∧ n = nonce then entry else l r n

abbrev Step := Sigma Answer

abbrev Trace := List Step

/-- What an operation does to the ledger. -/
def Ledger.step (l : Ledger) : Step → Ledger
  | ⟨.recordPendingTx role nonce hash sentAtMs attempts fees, _⟩ =>
      l.set role nonce (some ⟨hash, sentAtMs, attempts, fees.map Prod.fst, fees.map Prod.snd⟩)
  | ⟨.deletePendingTx role nonce, _⟩ => l.set role nonce none
  | _ => l

def Ledger.after (l : Ledger) (tr : Trace) : Ledger := tr.foldl Ledger.step l

/-- The rows sent before the bound, one for each field, in any order. -/
structure Lists (l : Ledger) (sentBeforeMs : UInt64) (rows : List PendingTx) : Prop where
  distinct : (rows.map fun row => (row.role, row.nonce)).Nodup
  mem_iff : ∀ row, row ∈ rows ↔ ∃ entry, l row.role row.nonce = some entry ∧
    entry.sentAtMs < sentBeforeMs ∧ row = ⟨row.role, row.nonce, entry.hash, entry.sentAtMs,
      entry.attempts, entry.maxFeeWei, entry.maxPriorityFeeWei⟩

/-- Ledger reads are answered from the ledger of that moment. -/
def Truthful (l : Ledger) (tr : Trace) : Prop :=
  ∀ before sentBeforeMs rows after,
    tr = before ++ ⟨.listPendingTxs sentBeforeMs, some rows⟩ :: after →
    Lists (l.after before) sentBeforeMs rows

/-- Any number of sweeps, one after another. -/
inductive Sweeps (cap : U256) : Trace → Prop
  | none : Sweeps cap []
  | more {past tr : Trace} {r : Except Unit Unit} (now : UInt64) : Sweeps cap past →
      (unstickSweep cap now).Runs tr r → Sweeps cap (past ++ tr)

/-! ## Rungs -/

/-- The node took the replacement, or saw it and judged its bid too low. -/
def judged : Except ChainError String → Bool
  | .ok _ => true
  | .error error => isReplacementUnderpriced error

/-- A replacement of this nonce that the node judged. -/
def Step.isRung (nonce : UInt64) : Step → Bool
  | ⟨.cancelStuckNonce _ n _, answer⟩ => n = nonce && judged answer
  | _ => false

def rungs (nonce : UInt64) (tr : Trace) : ℕ := tr.countP (Step.isRung nonce)

/-- How far the recorded bid of a nonce can still rise. -/
def room (cap : U256) (l : Ledger) (nonce : UInt64) : ℕ :=
  match l WalletRole.register.ledgerName nonce with
  | none => 0
  | some entry =>
      match entry.bid with
      | none => cap.val + 1
      | some bid => cap.val - bid.1.val

/-- A new bid after what the node said last: within the cap, and above a recorded one on both
fields. -/
def Climbs (cap : U256) (past : Trace) (role : String) (nonce : UInt64)
    (old new : Option (U128 × U128)) : Prop :=
  ∃ before wallet plan answer bid,
    past = before ++ [⟨.cancelStuckNonce wallet nonce plan, answer⟩] ∧ wallet.ledgerName = role ∧
      judged answer = true ∧ new = some bid ∧ feePlan bid = plan ∧
        bid.1.val ≤ cap.val ∧ bid.2.val ≤ cap.val ∧
          ∀ recorded, old = some recorded →
            Outbids recorded.1.val bid.1.val ∧ Outbids recorded.2.val bid.2.val

/-- The last confirmed nonce that was read for the role. -/
def LastConfirmed (past : Trace) (role : String) (confirmed : UInt64) : Prop :=
  ∃ before wallet between, past = before ++ ⟨.confirmedNonce wallet, some confirmed⟩ :: between ∧
    wallet.ledgerName = role ∧ ∀ step ∈ between, ∀ w, step.1 ≠ .confirmedNonce w

variable (cap : U256) (l : Ledger)

/-- When a row may be written or deleted, the ledger having been read truthfully. -/
def guard (past : Trace) : Operation → Prop
  | .recordPendingTx role nonce _ _ _ fees => Truthful l past →
      ∃ entry, l.after past role nonce = some entry ∧ Climbs cap past role nonce entry.bid fees
  | .deletePendingTx role nonce => Truthful l past →
      ∃ confirmed, LastConfirmed past role confirmed ∧ nonce < confirmed
  | _ => True

variable {cap l} {past tr : Trace}

@[simp] theorem Ledger.after_nil : l.after [] = l := rfl

theorem Ledger.after_append : l.after (past ++ tr) = (l.after past).after tr := List.foldl_append

theorem Ledger.after_snoc {step : Step} : l.after (past ++ [step]) = (l.after past).step step :=
  Ledger.after_append

theorem Ledger.set_self {role : String} {nonce : UInt64} {entry : Option PendingTxEntry} :
    l.set role nonce entry role nonce = entry := if_pos ⟨rfl, rfl⟩

theorem Ledger.set_of_ne {role role' : String} {nonce nonce' : UInt64}
    {entry : Option PendingTxEntry} (h : nonce' ≠ nonce) :
    l.set role nonce entry role' nonce' = l role' nonce' :=
  if_neg fun heq => h heq.2

theorem Truthful.of_append (h : Truthful l (past ++ tr)) : Truthful l past := by
  intro before sentBeforeMs rows after heq
  refine h before sentBeforeMs rows (after ++ tr) ?_
  rw [heq, List.append_assoc, List.cons_append]

/-- The operations behind the reads of a sweep. -/
def Operation.isAct : Operation → Bool
  | .listPendingTxs _ | .baseFee | .confirmedNonce _ => false
  | _ => true

/-- Rungs only come out of the room that was there. -/
def Spent (cap : U256) (l : Ledger) (past later : Trace) : Prop :=
  ∀ nonce, rungs nonce later + room cap (l.after later) nonce ≤
    rungs nonce past + room cap (l.after past) nonce

/-- What such operations leave: the ledger is still as it was read, the confirmed nonce is the one
last read, and every rung took its share of the room. -/
structure Acted (cap : U256) (l : Ledger) (past later : Trace) : Prop where
  extends_by : ∃ tr, later = past ++ tr ∧ ∀ step ∈ tr, step.1.isAct = true
  spent : Spent cap l past later

theorem Acted.refl : Acted cap l past past :=
  ⟨⟨[], (List.append_nil past).symm, by simp⟩, fun _ => le_rfl⟩

theorem Acted.trans {later last : Trace} (h : Acted cap l past later)
    (h' : Acted cap l later last) : Acted cap l past last where
  extends_by := by
    obtain ⟨tr, rfl, htr⟩ := h.extends_by
    obtain ⟨tr', rfl, htr'⟩ := h'.extends_by
    exact ⟨tr ++ tr', List.append_assoc .., List.forall_mem_append.mpr ⟨htr, htr'⟩⟩
  spent nonce := le_trans (h'.spent nonce) (h.spent nonce)

theorem Acted.lastConfirmed {later : Trace} {role : String} {confirmed : UInt64}
    (h : Acted cap l past later) (hlast : LastConfirmed past role confirmed) :
    LastConfirmed later role confirmed := by
  obtain ⟨tr, rfl, htr⟩ := h.extends_by
  obtain ⟨before, wallet, between, rfl, hrole, hbetween⟩ := hlast
  refine ⟨before, wallet, between ++ tr, by rw [List.append_assoc, List.cons_append], hrole, ?_⟩
  refine List.forall_mem_append.mpr ⟨hbetween, ?_⟩
  intro step hstep w heq
  have hact := htr step hstep
  rw [heq] at hact
  cases hact

theorem rungs_append {nonce : UInt64} :
    rungs nonce (past ++ tr) = rungs nonce past + rungs nonce tr :=
  List.countP_append

/-- The room of a nonce depends on its own row. -/
theorem room_congr {l' : Ledger} {nonce : UInt64}
    (h : l' WalletRole.register.ledgerName nonce = l WalletRole.register.ledgerName nonce) :
    room cap l' nonce = room cap l nonce := by
  rw [room, h, room]

/-! ## One action -/

/-- An action about one nonce leaves the rows of the others. -/
structure ActedOn (cap : U256) (l : Ledger) (past : Trace) (nonce : UInt64) (later : Trace) : Prop
    extends Acted cap l past later where
  others : ∀ role other, other ≠ nonce → l.after later role other = l.after past role other

/-- An operation that neither touches the ledger nor counts as a rung. -/
theorem spent_quiet {step : Step} (hstep : ∀ l : Ledger, l.step step = l)
    (hrung : ∀ n, step.isRung n = false) : Spent cap l past (past ++ [step]) := by
  intro n
  rw [rungs_append, Ledger.after_snoc, hstep]
  simp [rungs, hrung n]

theorem acted_quiet {step : Step} (hact : step.1.isAct = true)
    (hstep : ∀ l : Ledger, l.step step = l) (hrung : ∀ n, step.isRung n = false) :
    Acted cap l past (past ++ [step]) where
  extends_by := ⟨[step], rfl, List.forall_mem_singleton.mpr hact⟩
  spent := spent_quiet hstep hrung

theorem actedOn_quiet {step : Step} {nonce : UInt64} (hact : step.1.isAct = true)
    (hstep : ∀ l : Ledger, l.step step = l) (hrung : ∀ n, step.isRung n = false) :
    ActedOn cap l past nonce (past ++ [step]) where
  toActed := acted_quiet hact hstep hrung
  others role other _ := by rw [Ledger.after_snoc, hstep]

/-- The bid under the cap, as the ledger keeps it. -/
theorem exists_bid {fees : FeePlan} (hcap : cap.val < 2 ^ 128)
    (hle : fees.maxPriorityFeePerGas ≤ fees.maxFeePerGas ∧ fees.maxFeePerGas ≤ cap) :
    ∃ bid, zip (toU128 fees.maxFeePerGas) (toU128 fees.maxPriorityFeePerGas) = some bid ∧
      feePlan bid = fees ∧ bid.1.val = fees.maxFeePerGas.val ∧
        bid.2.val = fees.maxPriorityFeePerGas.val := by
  have hfee : fees.maxFeePerGas.val < 2 ^ 128 := lt_of_le_of_lt hle.2 hcap
  have htip : fees.maxPriorityFeePerGas.val < 2 ^ 128 := lt_of_le_of_lt hle.1 hfee
  refine ⟨(⟨fees.maxFeePerGas.val, hfee⟩, ⟨fees.maxPriorityFeePerGas.val, htip⟩), ?_, rfl, rfl, rfl⟩
  rw [toU128, toU128, dif_pos hfee, dif_pos htip]
  rfl

/-- A judged replacement and the record of its bid: one rung, and the room shrinks by it. -/
theorem actedOn_record {nonce : UInt64} {fees : FeePlan} {answer : Except ChainError String}
    {entry : PendingTxEntry} {bid : U128 × U128} {hash : String} {sentAt : UInt64}
    {attempts : UInt32} (hentry : l.after past WalletRole.register.ledgerName nonce = some entry)
    (hbid : bid.1.val ≤ cap.val)
    (hrise : ∀ recorded, entry.bid = some recorded → Outbids recorded.1.val bid.1.val) :
    ActedOn cap l past nonce (past ++ [⟨.cancelStuckNonce .register nonce fees, answer⟩] ++
      [⟨.recordPendingTx WalletRole.register.ledgerName nonce hash sentAt attempts (some bid),
        ()⟩]) := by
  have hafter : l.after (past ++ [⟨.cancelStuckNonce .register nonce fees, answer⟩] ++
      [⟨.recordPendingTx WalletRole.register.ledgerName nonce hash sentAt attempts (some bid),
        ()⟩]) =
      (l.after past).set WalletRole.register.ledgerName nonce
        (some ⟨hash, sentAt, attempts, some bid.1, some bid.2⟩) := by
    rw [Ledger.after_snoc, Ledger.after_snoc]
    rfl
  refine ⟨⟨⟨_, List.append_assoc .., ?_⟩, ?_⟩, ?_⟩
  · exact List.forall_mem_cons.mpr ⟨rfl, List.forall_mem_singleton.mpr rfl⟩
  · intro n
    rw [hafter, rungs_append, rungs_append]
    by_cases hn : n = nonce
    · subst hn
      have hone : rungs n [⟨.cancelStuckNonce .register n fees, answer⟩] ≤ 1 :=
        List.countP_le_length
      have hzero : rungs n [⟨.recordPendingTx WalletRole.register.ledgerName n hash sentAt attempts
          (some bid), ()⟩] = 0 := rfl
      have hroom : room cap ((l.after past).set WalletRole.register.ledgerName n
          (some ⟨hash, sentAt, attempts, some bid.1, some bid.2⟩)) n = cap.val - bid.1.val := by
        rw [room, Ledger.set_self]
        rfl
      have hbefore : cap.val - bid.1.val + 1 ≤ room cap (l.after past) n := by
        rw [room, hentry]
        cases hrecorded : entry.bid with
        | none =>
            simp only [hrecorded]
            omega
        | some recorded =>
            have hlt := (hrise recorded hrecorded).1
            simp only [hrecorded]
            omega
      omega
    · have hnone : rungs n [⟨.cancelStuckNonce .register nonce fees, answer⟩] = 0 := by
        simp [rungs, Step.isRung, Ne.symm hn]
      have hzero :
          rungs n [⟨.recordPendingTx WalletRole.register.ledgerName nonce hash sentAt attempts
          (some bid), ()⟩] = 0 := rfl
      rw [room_congr (Ledger.set_of_ne hn), hnone, hzero]
      omega
  · intro role other hother
    rw [hafter]
    exact Ledger.set_of_ne hother

theorem sendReplacement_guarded {ledger : List LedgerRow} {now nonce : UInt64}
    {attemptsAfter : UInt32} {fees : FeePlan} {entry : PendingTxEntry} (hcap : cap.val < 2 ^ 128)
    (hentry : l.after past WalletRole.register.ledgerName nonce = some entry)
    (hle : fees.maxPriorityFeePerGas ≤ fees.maxFeePerGas ∧ fees.maxFeePerGas ≤ cap)
    (hrise : ∀ recorded, entry.bid = some recorded → Outbids recorded.1.val fees.maxFeePerGas.val ∧
      Outbids recorded.2.val fees.maxPriorityFeePerGas.val) :
    Flow.Guarded (guard cap l) past (sendReplacement ledger now .register nonce attemptsAfter fees)
      fun _ later => ActedOn cap l past nonce later := by
  obtain ⟨bid, hbid, hplan, hfee, htip⟩ := exists_bid hcap hle
  have hunder : bid.1.val ≤ cap.val := by
    rw [hfee]
    exact hle.2
  have hclimb : ∀ recorded, entry.bid = some recorded →
      Outbids recorded.1.val bid.1.val ∧ Outbids recorded.2.val bid.2.val := by
    rw [hfee, htip]
    exact hrise
  unfold sendReplacement
  rw [hbid]
  refine Flow.guarded_request_bind trivial fun answer => ?_
  have hrecord : ∀ hash sentAt, judged answer = true →
      Flow.Guarded (guard cap l) (past ++ [⟨.cancelStuckNonce .register nonce fees, answer⟩])
        (ask (.recordPendingTx WalletRole.register.ledgerName nonce hash sentAt
          attemptsAfter (some bid)))
        fun _ later => ActedOn cap l past nonce later := by
    intro hash sentAt hjudged
    have hguard : guard cap l (past ++ [⟨.cancelStuckNonce .register nonce fees, answer⟩])
        (.recordPendingTx WalletRole.register.ledgerName nonce hash sentAt attemptsAfter
          (some bid)) := by
      intro _
      refine ⟨entry, by rw [Ledger.after_snoc]; exact hentry, past, .register, fees, answer, bid,
        rfl, rfl, hjudged, rfl, hplan, hunder, ?_, hclimb⟩
      rw [htip]
      exact le_trans hle.1 hle.2
    rw [← bind_pure (ask _)]
    exact Flow.guarded_request_bind hguard fun _ =>
      Flow.guarded_pure (actedOn_record hentry hunder fun recorded h => (hclimb recorded h).1)
  cases answer with
  | ok cancelHash => exact hrecord _ _ rfl
  | error error =>
      dsimp only
      split
      next hunder => exact hrecord _ _ hunder
      · -- the bid never reached the mempool: the row stays
        next hother =>
          refine Flow.guarded_pure (actedOn_quiet rfl (fun _ => rfl) ?_)
          intro n
          simp [Step.isRung, judged, hother]

/-- A single operation as an action. -/
theorem ask_guarded {op : Operation} {Q : Except Unit (Answer op) → Trace → Prop}
    (hop : guard cap l past op) (hQ : ∀ answer, Q (.ok answer) (past ++ [⟨op, answer⟩])) :
    Flow.Guarded (guard cap l) past (ask op) Q := by
  rw [← bind_pure (ask op)]
  exact Flow.guarded_request_bind hop fun answer => Flow.guarded_pure (hQ answer)

theorem alert_guarded {kind : AlertKind} {message : String} {nonce : UInt64} :
    Flow.Guarded (guard cap l) past (ask (.alertThrottled kind message))
      fun _ later => ActedOn cap l past nonce later :=
  ask_guarded trivial fun _ => actedOn_quiet rfl (fun _ => rfl) fun _ => rfl

/-- The row of a consumed nonce is dropped. -/
theorem drop_guarded {baseFee : U256} {ledger : List LedgerRow} {now nonce confirmed : UInt64}
    (hlast : LastConfirmed past WalletRole.register.ledgerName confirmed)
    (hnonce : nonce < confirmed) :
    Flow.Guarded (guard cap l) past
      (perform cap baseFee ledger now .register (.dropConsumedRow nonce))
      fun _ later => ActedOn cap l past nonce later := by
  refine ask_guarded (fun _ => ⟨confirmed, hlast, hnonce⟩) fun answer => ?_
  refine ⟨⟨⟨_, rfl, List.forall_mem_singleton.mpr rfl⟩, ?_⟩, ?_⟩
  · intro n
    rw [rungs_append, Ledger.after_snoc]
    have hnone : rungs n [⟨.deletePendingTx WalletRole.register.ledgerName nonce, answer⟩] = 0 :=
      rfl
    have hroom : room cap ((l.after past).set WalletRole.register.ledgerName nonce none) n ≤
        room cap (l.after past) n := by
      by_cases hn : n = nonce
      · subst hn
        rw [room, Ledger.set_self]
        exact Nat.zero_le _
      · rw [room_congr (Ledger.set_of_ne hn)]
    show _ + room cap ((l.after past).set WalletRole.register.ledgerName nonce none) n ≤ _
    omega
  · intro role other hother
    rw [Ledger.after_snoc]
    exact Ledger.set_of_ne hother

/-- A stuck row is replaced at a price above its own bid, or paged about. -/
theorem replace_guarded {baseFee : U256} {ledger : List LedgerRow} {now nonce : UInt64}
    {attemptsAfter : UInt32} {entry : PendingTxEntry} (hcap : 1 ≤ cap.val)
    (hcap' : cap.val ≤ 2 ^ 128 - 1)
    (hentry : l.after past WalletRole.register.ledgerName nonce = some entry) :
    Flow.Guarded (guard cap l) past
      (perform cap baseFee ledger now .register (.replace nonce attemptsAfter entry.bid))
      fun _ later => ActedOn cap l past nonce later := by
  unfold perform
  dsimp only
  split
  next fees hplan =>
      refine sendReplacement_guarded (by omega) hentry (send_le_cap hplan) ?_
      intro recorded hrecorded
      rw [hrecorded] at hplan
      exact send_outbids recorded.1.isLt recorded.2.isLt hcap hcap' hplan
  · exact alert_guarded

/-! ## The plan of a role -/

/-- The rows of the plan are as the ledger has them now. -/
def Current (l : Ledger) (past : Trace) (rows : List LedgerRow) : Prop :=
  ∀ row ∈ rows, ∃ entry, l.after past WalletRole.register.ledgerName row.nonce = some entry ∧
    entry.bid = row.feesWei

/-- What was done about another nonce leaves the row current. -/
theorem Current.tail {row : LedgerRow} {rows : List LedgerRow} {later : Trace}
    (h : Current l past (row :: rows)) (hnodup : ((row :: rows).map LedgerRow.nonce).Nodup)
    (hacted : ActedOn cap l past row.nonce later) : Current l later rows := by
  intro other hother
  obtain ⟨entry, hentry, hbid⟩ := h other (List.mem_cons_of_mem row hother)
  refine ⟨entry, ?_, hbid⟩
  rw [hacted.others _ _ ?_, hentry]
  intro hsame
  exact (List.nodup_cons.mp hnodup).1 (List.mem_map.mpr ⟨other, hother, hsame⟩)

/-- Pages come first, and leave the ledger. -/
theorem alerts_guarded {baseFee : U256} {ledger : List LedgerRow} {now : UInt64} {c : Prop}
    [Decidable c] {message : String} {rest : List RescueAction}
    (hrest : ∀ later, Acted cap l past later → l.after later = l.after past →
      Flow.Guarded (guard cap l) later (performAll cap baseFee ledger now .register rest)
        fun _ last => Acted cap l past last) :
    Flow.Guarded (guard cap l) past
      (performAll cap baseFee ledger now .register
        ((if c then [.escalate message] else []) ++ rest))
      fun _ last => Acted cap l past last := by
  split
  · have halert : Flow.Guarded (guard cap l) past (ask (.alertThrottled .stuck message))
        fun _ later => Acted cap l past later ∧ l.after later = l.after past := by
      refine ask_guarded trivial fun _ => ⟨?_, ?_⟩
      · exact acted_quiet rfl (fun _ => rfl) fun _ => rfl
      · exact Ledger.after_snoc
    exact Flow.Guarded.bind halert (fun _ _ _ h => h.1) fun _ later _ h => hrest later h.1 h.2
  · exact hrest past .refl rfl

theorem planRows_guarded {baseFee : U256} {ledger : List LedgerRow} {now confirmed : UInt64}
    {rows : List LedgerRow} {replaced : ℕ} (hcap : 1 ≤ cap.val) (hcap' : cap.val ≤ 2 ^ 128 - 1)
    (hlast : LastConfirmed past WalletRole.register.ledgerName confirmed)
    (hcurrent : Current l past rows) (hnodup : (rows.map LedgerRow.nonce).Nodup) :
    Flow.Guarded (guard cap l) past
      (performAll cap baseFee ledger now .register (planRows confirmed now replaced rows))
      fun _ later => Acted cap l past later := by
  induction rows generalizing past replaced with
  | nil => exact Flow.guarded_pure .refl
  | cons row rows ih =>
      -- after any action on this row's nonce the rest of the plan is still to come
      have hrest : ∀ later replaced, ActedOn cap l past row.nonce later →
          Flow.Guarded (guard cap l) later
            (performAll cap baseFee ledger now .register (planRows confirmed now replaced rows))
            fun _ last => Acted cap l past last := by
        intro later replaced hacted
        refine (ih (hacted.lastConfirmed hlast) (hcurrent.tail hnodup hacted)
          (List.nodup_cons.mp hnodup).2).mono ?_
        intro _ last _ hlast
        exact hacted.trans hlast
      unfold planRows
      split
      · next hconsumed =>
          exact Flow.Guarded.bind (drop_guarded hlast hconsumed) (fun _ _ _ h => h.toActed)
            fun _ later _ h => hrest later replaced h
      · dsimp only
        split
        · refine alerts_guarded fun later hacted hsame => hrest later replaced ⟨hacted, ?_⟩
          intro role other _
          rw [hsame]
        · refine alerts_guarded fun later hacted hsame => ?_
          obtain ⟨entry, hentry, hbid⟩ := hcurrent row List.mem_cons_self
          rw [← hbid]
          rw [← hsame] at hentry
          refine Flow.Guarded.bind (replace_guarded hcap hcap' hentry) ?_ ?_
          · exact fun _ last _ h => hacted.trans h.toActed
          · intro _ last _ h
            refine hrest last (replaced + 1) ⟨hacted.trans h.toActed, ?_⟩
            intro role other hother
            rw [h.others role other hother, hsame]

/-! ## Whole sweeps -/

/-- After an untrue ledger read nothing is claimed. -/
theorem guarded_of_not_truthful {α : Type} {x : SweepFlow α} (h : ¬ Truthful l past) :
    Flow.Guarded (guard cap l) past x fun _ later => ¬ Truthful l later := by
  intro tr r _
  refine ⟨?_, fun htruth => h htruth.of_append⟩
  intro before op answer after _
  have huntrue : ¬ Truthful l (past ++ before) := fun htruth => h htruth.of_append
  cases op with
  | recordPendingTx role nonce hash sentAtMs attempts fees =>
      exact fun htruth => absurd htruth huntrue
  | deletePendingTx role nonce => exact fun htruth => absurd htruth huntrue
  | _ => trivial

/-- The rows that were listed for the role, in the order of the plan. -/
theorem current_of_lists {rows : List PendingTx} {sentBeforeMs : UInt64}
    (h : Lists (l.after past) sentBeforeMs rows) :
    Current l past (((rows.map PendingTx.toRow).filter fun row =>
      row.role = WalletRole.register.ledgerName).mergeSort fun a b => a.nonce ≤ b.nonce) := by
  intro row hrow
  rw [List.mem_mergeSort, List.mem_filter, List.mem_map, decide_eq_true_eq] at hrow
  obtain ⟨⟨listed, hlisted, rfl⟩, hrole⟩ := hrow
  obtain ⟨entry, hentry, -, heq⟩ := (h.mem_iff listed).mp hlisted
  refine ⟨entry, ?_, ?_⟩
  · rw [← hentry]
    exact congrArg (fun role => l.after past role _) hrole.symm
  · rw [heq]
    rfl

theorem nodup_of_lists {rows : List PendingTx} {sentBeforeMs : UInt64}
    (h : Lists l sentBeforeMs rows) :
    ((((rows.map PendingTx.toRow).filter fun row =>
      row.role = WalletRole.register.ledgerName).mergeSort fun a b => a.nonce ≤ b.nonce).map
        LedgerRow.nonce).Nodup := by
  have hperm := (List.mergeSort_perm ((rows.map PendingTx.toRow).filter fun row =>
    row.role = WalletRole.register.ledgerName) fun a b => a.nonce ≤ b.nonce).map LedgerRow.nonce
  rw [hperm.nodup_iff]
  -- within one role the nonces tell the rows apart
  have hpairs : ((rows.map PendingTx.toRow).map fun row => (row.role, row.nonce)).Nodup := by
    rw [List.map_map]
    exact h.distinct
  refine List.Nodup.map_on ?_ ((List.Nodup.of_map _ hpairs).filter _)
  intro a ha b hb hnonce
  rw [List.mem_filter, decide_eq_true_eq] at ha hb
  refine List.inj_on_of_nodup_map hpairs ha.1 hb.1 ?_
  rw [ha.2, hb.2, hnonce]

/-- Behind the ledger read: the base fee, the confirmed nonce, and the plan. -/
theorem sweepRole_guarded {baseFee : U256} {rows : List PendingTx} {now sentBeforeMs : UInt64}
    (hcap : 1 ≤ cap.val) (hcap' : cap.val ≤ 2 ^ 128 - 1)
    (h : Lists (l.after past) sentBeforeMs rows) :
    Flow.Guarded (guard cap l) past
      (sweepRole cap baseFee (rows.map PendingTx.toRow) now .register)
      fun _ later => Spent cap l past later := by
  refine Flow.guarded_request_bind trivial fun answer => ?_
  have hread : Spent cap l past (past ++ [⟨.confirmedNonce .register, answer⟩]) :=
    spent_quiet (fun _ => rfl) fun _ => rfl
  have hsame : l.after (past ++ [⟨.confirmedNonce .register, answer⟩]) = l.after past :=
    Ledger.after_snoc
  cases answer with
  | none => exact Flow.guarded_pure hread
  | some confirmed =>
      have hlast : LastConfirmed (past ++ [⟨.confirmedNonce .register, some confirmed⟩])
          WalletRole.register.ledgerName confirmed := ⟨past, .register, [], rfl, rfl, by simp⟩
      rw [← hsame] at h
      refine (planRows_guarded hcap hcap' hlast (current_of_lists h) (nodup_of_lists h)).mono ?_
      intro _ later _ hacted nonce
      exact le_trans (hacted.spent nonce) (hread nonce)

theorem unstickSweep_guarded (now : UInt64) (hcap : 1 ≤ cap.val) (hcap' : cap.val ≤ 2 ^ 128 - 1) :
    Flow.Guarded (guard cap l) past (unstickSweep cap now)
      fun _ later => Truthful l later → Spent cap l past later := by
  refine Flow.guarded_request_bind trivial fun answer => ?_
  have hread : Spent cap l past
      (past ++ [⟨.listPendingTxs (saturatingSub now stuckTxAgeMs), answer⟩]) :=
    spent_quiet (fun _ => rfl) fun _ => rfl
  cases answer with
  | none => exact Flow.guarded_throw fun _ => hread
  | some rows =>
      by_cases htruth : Truthful l
          (past ++ [⟨.listPendingTxs (saturatingSub now stuckTxAgeMs), some rows⟩])
      swap
      · refine (guarded_of_not_truthful htruth).mono ?_
        exact fun _ later _ huntrue htruth => absurd htruth huntrue
      -- the rows are those of the ledger before the read, and the reads leave it
      have hlists : Lists (l.after past) (saturatingSub now stuckTxAgeMs) rows :=
        htruth past _ rows [] rfl
      have hlisted :
          l.after (past ++ [⟨.listPendingTxs (saturatingSub now stuckTxAgeMs), some rows⟩]) =
          l.after past := Ledger.after_snoc
      dsimp only
      split
      · have hexit : Flow.Guarded (guard cap l)
            (past ++ [⟨.listPendingTxs (saturatingSub now stuckTxAgeMs), some rows⟩])
            (throw () : SweepFlow Unit) fun r later => r = .error () ∧ Spent cap l past later :=
          Flow.guarded_throw ⟨rfl, hread⟩
        refine Flow.Guarded.bind hexit (fun _ _ _ h _ => h.2) fun _ _ _ h => ?_
        cases h.1
      refine Flow.guarded_request_bind trivial fun answer => ?_
      have hbase :
          Spent cap l (past ++ [⟨.listPendingTxs (saturatingSub now stuckTxAgeMs), some rows⟩])
          (past ++ [⟨.listPendingTxs (saturatingSub now stuckTxAgeMs), some rows⟩] ++
            [⟨.baseFee, answer⟩]) := spent_quiet (fun _ => rfl) fun _ => rfl
      have hspent := fun nonce => le_trans (hbase nonce) (hread nonce)
      cases answer with
      | none => exact Flow.guarded_throw fun _ => hspent
      | some baseFee =>
          rw [← hlisted] at hlists
          have hpriced : Lists (l.after (past ++
              [⟨.listPendingTxs (saturatingSub now stuckTxAgeMs), some rows⟩] ++
              [⟨.baseFee, some baseFee⟩])) (saturatingSub now stuckTxAgeMs) rows := by
            rw [Ledger.after_snoc]
            exact hlists
          refine (sweepRole_guarded hcap hcap' hpriced).mono ?_
          intro _ later _ hswept _ nonce
          exact le_trans (hswept nonce) (hspent nonce)

/-- Sweep after sweep. -/
theorem Sweeps.guarded (hcap : 1 ≤ cap.val) (hcap' : cap.val ≤ 2 ^ 128 - 1) (h : Sweeps cap tr) :
    Flow.Allowed (guard cap l) [] tr ∧ (Truthful l tr → Spent cap l [] tr) := by
  induction h with
  | none => exact ⟨Flow.allowed_nil, fun _ nonce => le_rfl⟩
  | more now _ hrun ih =>
      obtain ⟨hallowed, hspent⟩ := unstickSweep_guarded now hcap hcap' _ _ hrun
      refine ⟨Flow.allowed_append.mpr ⟨ih.1, hallowed⟩, ?_⟩
      intro htruth nonce
      exact le_trans (hspent htruth nonce) (ih.2 htruth.of_append nonce)

/-- The three things that can happen to a row in one step. -/
inductive RowStep (cap : U256) (past : Trace) (role : String) (nonce : UInt64)
    (entry : PendingTxEntry) : Option PendingTxEntry → Prop
  | kept : RowStep cap past role nonce entry (some entry)
  | climbed (entry' : PendingTxEntry) : Climbs cap past role nonce entry.bid entry'.bid →
      RowStep cap past role nonce entry (some entry')
  | dropped (confirmed : UInt64) : LastConfirmed past role confirmed → nonce < confirmed →
      RowStep cap past role nonce entry none

theorem rowStep_of_guard {role : String} {nonce : UInt64} {entry : PendingTxEntry} {step : Step}
    (hguard : guard cap l past step.1) (htruth : Truthful l past)
    (hentry : l.after past role nonce = some entry) :
    RowStep cap past role nonce entry (l.after (past ++ [step]) role nonce) := by
  obtain ⟨op, answer⟩ := step
  rw [Ledger.after_snoc]
  have hquiet : ∀ {l' : Ledger}, l' role nonce = l.after past role nonce →
      RowStep cap past role nonce entry (l' role nonce) := by
    intro l' hsame
    rw [hsame, hentry]
    exact .kept
  cases op with
  | recordPendingTx role' nonce' hash sentAtMs attempts fees =>
      by_cases hsame : role = role' ∧ nonce = nonce'
      · obtain ⟨rfl, rfl⟩ := hsame
        obtain ⟨entry', hentry', hclimbs⟩ := hguard htruth
        obtain rfl : entry = entry' := Option.some.inj (hentry.symm.trans hentry')
        show RowStep _ _ _ _ _ ((l.after past).set role nonce (some _) role nonce)
        rw [Ledger.set_self]
        refine .climbed _ ?_
        obtain ⟨_, _, _, _, bid, _, _, _, rfl, -⟩ := id hclimbs
        exact hclimbs
      · exact hquiet (if_neg hsame)
  | deletePendingTx role' nonce' =>
      by_cases hsame : role = role' ∧ nonce = nonce'
      · obtain ⟨rfl, rfl⟩ := hsame
        obtain ⟨confirmed, hlast, hlt⟩ := hguard htruth
        show RowStep _ _ _ _ _ ((l.after past).set role nonce none role nonce)
        rw [Ledger.set_self]
        exact .dropped confirmed hlast hlt
      · exact hquiet (if_neg hsame)
  | _ => exact hquiet rfl

/-- A sweep makes no rows. -/
theorem absent_of_guard {role : String} {nonce : UInt64} {step : Step}
    (hguard : guard cap l past step.1) (htruth : Truthful l past)
    (hnone : l.after past role nonce = none) :
    l.after (past ++ [step]) role nonce = none := by
  obtain ⟨op, answer⟩ := step
  rw [Ledger.after_snoc]
  cases op with
  | recordPendingTx role' nonce' hash sentAtMs attempts fees =>
      obtain ⟨entry, hentry, -⟩ := hguard htruth
      refine (if_neg ?_).trans hnone
      rintro ⟨rfl, rfl⟩
      cases hnone.symm.trans hentry
  | deletePendingTx role' nonce' =>
      show (if _ then none else _) = none
      rw [hnone, ite_self]
  | _ => exact hnone

/-- In every sequence of sweeps over any ledger, at every step: a row is kept, or rewritten with a
bid that climbs right after the node judged a replacement of its nonce, or deleted below the
confirmed nonce; no row appears; and no nonce sees more such judgements than the cap has room for.
-/
theorem ladder_climbs (cap : U256) (hcap : 1 ≤ cap.val) (hcap' : cap.val ≤ 2 ^ 128 - 1) (l : Ledger)
    (tr : Trace) (hsweeps : Sweeps cap tr) (htruth : Truthful l tr) :
    (∀ before step after, tr = before ++ step :: after → ∀ role nonce,
      (∀ entry, l.after before role nonce = some entry →
        RowStep cap before role nonce entry (l.after (before ++ [step]) role nonce)) ∧
      (l.after before role nonce = none → l.after (before ++ [step]) role nonce = none)) ∧
    ∀ nonce, rungs nonce tr ≤ cap.val + 1 := by
  obtain ⟨hallowed, hspent⟩ := hsweeps.guarded (l := l) hcap hcap'
  constructor
  · rintro before step after rfl role nonce
    have htruth' : Truthful l before := htruth.of_append
    have hguard : guard cap l before step.1 := hallowed before step.1 step.2 after rfl
    exact ⟨fun entry => rowStep_of_guard hguard htruth', absent_of_guard hguard htruth'⟩
  · intro nonce
    have hroom : room cap l nonce ≤ cap.val + 1 := by
      unfold room
      split
      · exact Nat.zero_le _
      · split
        · exact le_rfl
        · omega
    have hle := hspent htruth nonce
    have hzero : rungs nonce [] = 0 := rfl
    rw [Ledger.after_nil] at hle
    omega

/-- One ledger read, at the beginning. -/
theorem truthful_cons {sentBeforeMs : UInt64} {rows : List PendingTx}
    (h : Lists l sentBeforeMs rows)
    (htr : ∀ bound listed, (⟨.listPendingTxs bound, some listed⟩ : Step) ∉ tr) :
    Truthful l (⟨.listPendingTxs sentBeforeMs, some rows⟩ :: tr) := by
  intro before bound listed after heq
  cases before with
  | nil =>
      cases heq
      exact h
  | cons step before =>
      obtain ⟨-, rfl⟩ := List.cons.inj heq
      exact absurd (by simp) (htr bound listed)

/-- A broadcast at the default price, stuck for longer than the threshold. -/
def stuckEntry : PendingTxEntry := ⟨"0x01", 0, 0, some 24520, some 1000⟩

def stuckRow : PendingTx := ⟨"register", 7, "0x01", 0, 0, some 24520, some 1000⟩

/-- A ledger with that broadcast alone. -/
def stuckLedger : Ledger :=
  fun role nonce => if role = "register" ∧ nonce = 7 then some stuckEntry else none

theorem lists_stuckLedger : Lists stuckLedger 180000 [stuckRow] where
  distinct := List.nodup_singleton _
  mem_iff row := by
    rw [List.mem_singleton]
    constructor
    · rintro rfl
      exact ⟨stuckEntry, rfl, by decide, rfl⟩
    · rintro ⟨entry, hentry, -, hrow⟩
      obtain ⟨hkey, rfl⟩ : (row.role = "register" ∧ row.nonce = 7) ∧ stuckEntry = entry := by
        simpa [stuckLedger] using hentry
      rw [hrow, hkey.1, hkey.2]
      rfl

/-- The node takes the replacement, and the recorded bid rises on both fields. -/
theorem ladder_climbs_stuck :
    let tr : Trace := [⟨.listPendingTxs 180000, some [stuckRow]⟩, ⟨.baseFee, some 9255⟩,
      ⟨.confirmedNonce .register, some 7⟩,
      ⟨.cancelStuckNonce .register 7 ⟨36780, 1500⟩, .ok "0x02"⟩,
      ⟨.recordPendingTx "register" 7 "0x02" 300000 1 (some (36780, 1500)), ()⟩]
    Sweeps 10000000 tr ∧ Truthful stuckLedger tr ∧ rungs 7 tr = 1 ∧ rungs 7 tr ≤ 10000001 := by
  intro tr
  have hrun : Sweeps 10000000 ([] ++ tr) := by
    refine .more 300000 .none (r := .ok ()) ?_
    show Prog.Runs _ tr _
    rw [Prog.runs_iff_replay]
    decide +kernel
  have htruth : Truthful stuckLedger tr := truthful_cons lists_stuckLedger (by simp)
  exact ⟨hrun, htruth, by decide +kernel,
    (ladder_climbs 10000000 (by decide +kernel) (by decide +kernel) stuckLedger tr hrun htruth).2 7⟩

end P256Index.Server.Unstick
