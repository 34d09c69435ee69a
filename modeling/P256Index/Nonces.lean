import P256Index.Keyed
import P256Index.Registrar.Submission
import P256Index.Server.Unstick

/-!
# Nonces of the submitting wallet

One submission takes a nonce, sends, records the broadcast and waits for its receipt. The next nonce
is kept between submissions as long as they are confirmed; every other end drops it, so that the
next submission asks the chain. Both shells have the same code over their own ledger, a Redis hash
and a table with a signed column.

`Orderly` says what one submission may do behind the one before it, and `nonces_orderly` that all of
them do, for as long as the counter stays below the words it is kept in: the order of the nonces
rests on the unsigned counter alone, the rows on the word of the ledger.
-/

namespace P256Index.Nonces

open Registrar (ChainError)
open Registrar.Submission (TxOutcome)
open Registrar.Rescue (U128)
open Server.Unstick (WalletRole PendingTxEntry)

/-! ## What a submission meets -/

structure Broadcast where
  hash : String
  feesWei : Option (U128 × U128)
  deriving DecidableEq

inductive ReceiptOutcome where
  | success (onChainId : Option UInt64)
  | reverted
  deriving DecidableEq

/-- What the chain and the ledger answer during one submission, and its clock. The answer to a
question that is not asked is not looked at. -/
structure Replies where
  pendingNonce : Except ChainError UInt64
  register : Except ChainError Broadcast
  recorded : Bool
  receipt : Except ChainError ReceiptOutcome
  cleared : Bool
  nowMs : UInt64

/-- A broadcast ledger, with what a listing of it shows. Nonces below `words` are kept as they are.
-/
structure LedgerStore (L : Type) where
  record : L → String → UInt64 → PendingTxEntry → L
  delete : L → String → UInt64 → L
  Shows : L → String → UInt64 → PendingTxEntry → Prop
  words : Nat
  shows_record : ∀ l role nonce entry, nonce.toNat < words →
    Shows (record l role nonce entry) role nonce entry

/-! ## One submission -/

section Submit

variable {L : Type}

/-- The next nonce, if it is known, and the ledger. -/
structure Wallet (L : Type) where
  cached : Option UInt64
  ledger : L

/-- `saturating_add(1)`. -/
def saturatingSucc (nonce : UInt64) : UInt64 :=
  if nonce = UInt64.ofNat (2 ^ 64 - 1) then nonce else nonce + 1

/-- A failed read leaves no nonce behind. -/
def acquire (replies : Replies) (w : Wallet L) : Option (UInt64 × Wallet L) :=
  let value := match w.cached with
    | none => replies.pendingNonce.toOption
    | some nonce => some nonce
  value.map fun nonce => (nonce, { w with cached := some (saturatingSucc nonce) })

def release (w : Wallet L) : Wallet L := { w with cached := none }

/-- What is recorded of a broadcast. -/
def pendingEntry (replies : Replies) (broadcast : Broadcast) : PendingTxEntry :=
  ⟨broadcast.hash, replies.nowMs, 0, broadcast.feesWei.map Prod.fst, broadcast.feesWei.map Prod.snd⟩

variable (store : LedgerStore L)

/-- Best effort: a failed write is not looked at. -/
def recordPending (replies : Replies) (nonce : UInt64) (broadcast : Broadcast) (w : Wallet L) :
    Wallet L :=
  if replies.recorded then
    { w with
      ledger := store.record w.ledger WalletRole.register.ledgerName nonce
        (pendingEntry replies broadcast) }
  else w

def clearPending (replies : Replies) (nonce : UInt64) (w : Wallet L) : Wallet L :=
  if replies.cleared then
    { w with ledger := store.delete w.ledger WalletRole.register.ledgerName nonce }
  else w

/-- What a submission did: the nonce it handed to `register`, its outcome and the wallet after it.
-/
structure Attempt (L : Type) where
  replies : Replies
  asked : Bool
  sent : Option UInt64
  outcome : TxOutcome
  after : Wallet L

/-- The part of `submit` behind the nonce. -/
def send (replies : Replies) (nonce : UInt64) (w : Wallet L) : TxOutcome × Wallet L :=
  match replies.register with
  | .ok broadcast =>
      let w := recordPending store replies nonce broadcast w
      match replies.receipt with
      | .ok (.success onChainId) =>
          (.confirmed broadcast.hash onChainId, clearPending store replies nonce w)
      | .ok .reverted => (.reverted broadcast.hash, release (clearPending store replies nonce w))
      | .error error => (.receiptUncertain error, release w)
  | .error error => (.sendFailed error, release w)

def submit (replies : Replies) (w : Wallet L) : Attempt L :=
  match acquire replies w with
  | none => ⟨replies, w.cached.isNone, none, .noncePoolUnavailable, w⟩
  | some (nonce, held) =>
      let (outcome, after) := send store replies nonce held
      ⟨replies, w.cached.isNone, some nonce, outcome, after⟩

/-- Submissions one after another. -/
def history : Wallet L → List Replies → List (Attempt L)
  | _, [] => []
  | w, replies :: rest =>
      let d := submit store replies w
      d :: history d.after rest

/-- A wallet at the start of its process. -/
def Wallet.start (ledger : L) : Wallet L := ⟨none, ledger⟩

end Submit

/-! ## The two ledgers -/

/-- The server's Redis hash. -/
def redisLedger : LedgerStore Server.Unstick.Ledger where
  record l role nonce entry := l.set role nonce (some entry)
  delete l role nonce := l.set role nonce none
  Shows l role nonce entry := l role nonce = some entry
  words := 2 ^ 64
  shows_record _ _ _ _ _ := Server.Unstick.Ledger.set_self

/-- `nonce as i64`. -/
def asI64 (nonce : UInt64) : Int :=
  if nonce.toNat < 2 ^ 63 then nonce.toNat else nonce.toNat - 2 ^ 64

/-- `nonce.max(0) as u64`. -/
def readNonce (nonce : Int) : UInt64 := UInt64.ofNat nonce.toNat

/-- A row of the worker's table. -/
structure SqlRow where
  role : String
  nonce : Int
  entry : PendingTxEntry

/-- The worker's table, by role and nonce. -/
abbrev SqlTable := Keyed fun row : SqlRow => (row.role, row.nonce)

def sqlLedger : LedgerStore SqlTable where
  record t role nonce entry := t.insertOrReplace ⟨role, asI64 nonce, entry⟩
  delete t role nonce := t.deleteWhere fun row => row.role = role ∧ row.nonce = asI64 nonce
  Shows t role nonce entry :=
    ∃ row ∈ t.rows, row.role = role ∧ readNonce row.nonce = nonce ∧ row.entry = entry
  words := 2 ^ 63
  shows_record t role nonce entry hnonce := by
    refine ⟨⟨role, asI64 nonce, entry⟩, List.mem_append_right _ (List.mem_singleton_self _), rfl,
      ?_, rfl⟩
    show readNonce (asI64 nonce) = nonce
    rw [asI64, if_pos hnonce, readNonce, Int.toNat_natCast, UInt64.ofNat_toNat]

/-! ## What a submission may do -/

section Orderly

variable {L : Type}

def Attempt.isConfirmed (d : Attempt L) : Bool :=
  match d.outcome with
  | .confirmed _ _ => true
  | _ => false

/-- The submission before this one was confirmed. -/
def Confirmed (previous : Option (Attempt L)) : Prop :=
  ∃ p, previous = some p ∧ p.isConfirmed = true

/-- A submission behind another, or behind none. -/
structure InOrder (previous : Option (Attempt L)) (d : Attempt L) : Prop where
  /-- The nonce is what the chain reports now, behind no confirmed submission, or the one after the
  nonce of the confirmed submission just before. -/
  nonce : ∀ nonce, d.sent = some nonce →
    ¬ Confirmed previous ∧ d.asked = true ∧ d.replies.pendingNonce = .ok nonce ∨
      ∃ p m, previous = some p ∧ p.isConfirmed = true ∧ p.sent = some m ∧ nonce.toNat = m.toNat + 1
  /-- Behind anything else than a confirmed submission the chain is asked. -/
  asks : ¬ Confirmed previous → d.asked = true

/-- A broadcast without a definite receipt is in the ledger. -/
def Listed (store : LedgerStore L) (d : Attempt L) : Prop :=
  ∀ nonce broadcast error, d.sent = some nonce → d.replies.register = .ok broadcast →
    d.replies.receipt = .error error → d.replies.recorded = true →
      store.Shows d.after.ledger WalletRole.register.ledgerName nonce
        (pendingEntry d.replies broadcast)

/-- A submission whose nonce is in order and whose broadcast is not lost. -/
structure Orderly (store : LedgerStore L) (previous : Option (Attempt L)) (d : Attempt L) : Prop
    extends InOrder previous d where
  row : Listed store d

/-- What a wallet knows behind a submission: nothing, or the nonce after a confirmed one. -/
def Knows (previous : Option (Attempt L)) (w : Wallet L) : Prop :=
  (¬ Confirmed previous ∧ w.cached = none) ∨
    ∃ p m, previous = some p ∧ p.isConfirmed = true ∧ p.sent = some m ∧
      w.cached = some (saturatingSucc m)

theorem toNat_saturatingSucc {nonce : UInt64} (h : nonce.toNat + 1 < 2 ^ 64) :
    (saturatingSucc nonce).toNat = nonce.toNat + 1 := by
  have hne : nonce ≠ UInt64.ofNat (2 ^ 64 - 1) := by
    rintro rfl
    exact absurd h (by decide)
  rw [saturatingSucc, if_neg hne, UInt64.toNat_add, UInt64.toNat_one]
  omega

variable {store : LedgerStore L}

@[simp] theorem cached_recordPending {replies : Replies} {nonce : UInt64} {broadcast : Broadcast}
    {w : Wallet L} : (recordPending store replies nonce broadcast w).cached = w.cached := by
  unfold recordPending
  split <;> rfl

@[simp] theorem cached_clearPending {replies : Replies} {nonce : UInt64} {w : Wallet L} :
    (clearPending store replies nonce w).cached = w.cached := by
  unfold clearPending
  split <;> rfl

/-- Behind the nonce: it is held on exactly if the submission is confirmed. -/
theorem cached_send (store : LedgerStore L) (replies : Replies) (nonce : UInt64) (w : Wallet L) :
    (∃ hash id, (send store replies nonce w).1 = .confirmed hash id ∧
      (send store replies nonce w).2.cached = w.cached) ∨
    (∀ hash id, (send store replies nonce w).1 ≠ .confirmed hash id) ∧
      (send store replies nonce w).2.cached = none := by
  unfold send
  rcases replies.register with error | broadcast
  · exact .inr ⟨by simp, rfl⟩
  · rcases hreceipt : replies.receipt with error | (onChainId | _)
    · exact .inr ⟨by simp, rfl⟩
    · exact .inl ⟨broadcast.hash, onChainId, rfl, by simp⟩
    · exact .inr ⟨by simp, rfl⟩

/-- Without a receipt the row stays as it was recorded. -/
theorem ledger_send_uncertain {replies : Replies} {nonce : UInt64} {w : Wallet L}
    {broadcast : Broadcast} {error : ChainError} (hsend : replies.register = .ok broadcast)
    (hreceipt : replies.receipt = .error error) (hrecorded : replies.recorded = true) :
    (send store replies nonce w).2.ledger =
      store.record w.ledger WalletRole.register.ledgerName nonce
        (pendingEntry replies broadcast) := by
  rw [send, hsend]
  simp only [hreceipt]
  rw [release, recordPending, if_pos hrecorded]

theorem acquire_eq_some {replies : Replies} {w held : Wallet L} {nonce : UInt64}
    (h : acquire replies w = some (nonce, held)) :
    held = { w with cached := some (saturatingSucc nonce) } ∧
      (w.cached = none ∧ replies.pendingNonce = .ok nonce ∨ w.cached = some nonce) := by
  unfold acquire at h
  obtain ⟨value, hvalue, heq⟩ := Option.map_eq_some_iff.mp h
  obtain ⟨rfl, rfl⟩ := Prod.mk.inj heq
  refine ⟨rfl, ?_⟩
  cases hcached : w.cached with
  | none =>
      rw [hcached] at hvalue
      cases hread : replies.pendingNonce with
      | error e => simp [hread, Except.toOption] at hvalue
      | ok n =>
          simp only [hread, Except.toOption, Option.some.injEq] at hvalue
          exact .inl ⟨rfl, congrArg _ hvalue⟩
  | some n =>
      rw [hcached] at hvalue
      exact .inr hvalue

theorem cached_eq_none_of_acquire {replies : Replies} {w : Wallet L}
    (h : acquire replies w = none) : w.cached = none := by
  cases hcached : w.cached with
  | none => rfl
  | some nonce =>
      rw [acquire, hcached] at h
      cases h

theorem not_confirmed_none : ¬ Confirmed (none : Option (Attempt L)) := by
  rintro ⟨p, hp, -⟩
  cases hp

theorem not_confirmed_some {d : Attempt L} (h : d.isConfirmed = false) : ¬ Confirmed (some d) := by
  rintro ⟨p, hp, hconfirmed⟩
  cases hp
  rw [h] at hconfirmed
  cases hconfirmed

theorem Knows.asks {previous : Option (Attempt L)} {w : Wallet L} (h : Knows previous w)
    (hprevious : ¬ Confirmed previous) : w.cached.isNone = true := by
  obtain ⟨-, hcached⟩ | ⟨p, m, rfl, hconfirmed, -, -⟩ := h
  · rw [hcached]
    rfl
  · exact absurd ⟨p, rfl, hconfirmed⟩ hprevious

theorem Knows.acquired {previous : Option (Attempt L)} {w held : Wallet L} {replies : Replies}
    {nonce : UInt64} (h : Knows previous w) (hacquire : acquire replies w = some (nonce, held)) :
    (¬ Confirmed previous ∧ w.cached.isNone = true ∧ replies.pendingNonce = .ok nonce) ∨
      ∃ p m, previous = some p ∧ p.isConfirmed = true ∧ p.sent = some m ∧
        nonce = saturatingSucc m := by
  obtain ⟨-, hsource⟩ := acquire_eq_some hacquire
  obtain ⟨hprevious, hcached⟩ | ⟨p, m, hp, hconfirmed, hsent, hcached⟩ := h
  · rw [hcached] at hsource
    obtain ⟨-, hread⟩ | hsome := hsource
    · exact .inl ⟨hprevious, by rw [hcached]; rfl, hread⟩
    · cases hsome
  · rw [hcached] at hsource
    obtain ⟨hnone, -⟩ | hsome := hsource
    · cases hnone
    · exact .inr ⟨p, m, hp, hconfirmed, hsent, (Option.some.inj hsome).symm⟩

theorem submit_eq_of_acquire {replies : Replies} {w held : Wallet L} {nonce : UInt64}
    (h : acquire replies w = some (nonce, held)) : submit store replies w =
      ⟨replies, w.cached.isNone, some nonce, (send store replies nonce held).1,
        (send store replies nonce held).2⟩ := by
  rw [submit, h]

theorem Attempt.isConfirmed_iff {d : Attempt L} :
    d.isConfirmed = true ↔ ∃ hash id, d.outcome = .confirmed hash id := by
  unfold isConfirmed
  split
  · next hash id h => exact iff_of_true rfl ⟨hash, id, h⟩
  · next h => exact iff_of_false Bool.false_ne_true fun ⟨hash, id, heq⟩ => h hash id heq

/-- Behind a submission the wallet knows what it should. -/
theorem knows_submit (replies : Replies) (w : Wallet L) :
    Knows (some (submit store replies w)) (submit store replies w).after := by
  cases hacquire : acquire replies w with
  | none =>
      rw [submit, hacquire]
      exact .inl ⟨not_confirmed_some rfl, cached_eq_none_of_acquire hacquire⟩
  | some pair =>
      obtain ⟨nonce, held⟩ := pair
      obtain ⟨hheld, -⟩ := acquire_eq_some hacquire
      rw [submit_eq_of_acquire hacquire]
      obtain ⟨hash, id, houtcome, hcached⟩ | ⟨houtcome, hcached⟩ :=
        cached_send store replies nonce held
      · refine .inr ⟨_, nonce, rfl, Attempt.isConfirmed_iff.mpr ⟨hash, id, houtcome⟩, rfl, ?_⟩
        rw [hcached, hheld]
      · refine .inl ⟨not_confirmed_some (Bool.eq_false_iff.mpr fun hconfirmed => ?_), hcached⟩
        obtain ⟨hash, id, h⟩ := Attempt.isConfirmed_iff.mp hconfirmed
        exact houtcome hash id h

/-- Each submission is in order behind a wallet that knows the right nonce. `bound` is what the
nonces stay below, and `room` is how many more submissions may follow. -/
theorem submit_orderly (store : LedgerStore L) {previous : Option (Attempt L)} {w : Wallet L}
    {replies : Replies} (room : Nat) {bound : Nat} (hbound : bound ≤ 2 ^ 64)
    (hknows : Knows previous w)
    (hprevious : ∀ p m, previous = some p → p.sent = some m → m.toNat + room + 2 ≤ bound)
    (hreport : ∀ nonce, replies.pendingNonce = .ok nonce → nonce.toNat + room + 1 ≤ bound) :
    InOrder previous (submit store replies w) ∧
      (bound ≤ store.words → Listed store (submit store replies w)) ∧
        ∀ m, (submit store replies w).sent = some m → m.toNat + room + 1 ≤ bound := by
  cases hacquire : acquire replies w with
  | none =>
      rw [submit, hacquire]
      refine ⟨⟨fun _ h => ?_, hknows.asks⟩, fun _ _ _ _ h => ?_, fun _ h => ?_⟩ <;> cases h
  | some pair =>
      obtain ⟨nonce, held⟩ := pair
      rw [submit_eq_of_acquire hacquire]
      have hsource :
          (¬ Confirmed previous ∧ w.cached.isNone = true ∧ replies.pendingNonce = .ok nonce) ∨
          ∃ p m, previous = some p ∧ p.isConfirmed = true ∧ p.sent = some m ∧
            nonce.toNat = m.toNat + 1 := by
        refine (hknows.acquired hacquire).imp_right fun ⟨p, m, hp, hconfirmed, hsent, hnonce⟩ => ?_
        have hroom := hprevious p m hp hsent
        exact ⟨p, m, hp, hconfirmed, hsent, by rw [hnonce, toNat_saturatingSucc (by omega)]⟩
      have hroom : nonce.toNat + room + 1 ≤ bound := by
        obtain ⟨-, -, hread⟩ | ⟨p, m, hp, -, hsent, hnonce⟩ := hsource
        · exact hreport nonce hread
        · have := hprevious p m hp hsent
          omega
      refine ⟨⟨?_, hknows.asks⟩, ?_, ?_⟩
      · intro n hn
        cases hn
        exact hsource
      · intro hwords n broadcast error hn hsend hreceipt hrecorded
        cases hn
        show store.Shows (send store replies nonce held).2.ledger _ _ _
        rw [ledger_send_uncertain hsend hreceipt hrecorded]
        exact store.shows_record _ _ _ _ (by omega)
      · intro n hn
        cases hn
        exact hroom

/-- Every reported nonce leaves room below the bound for the whole sequence. -/
def Roomy (bound : Nat) (sequence : List Replies) : Prop :=
  ∀ replies ∈ sequence, ∀ nonce, replies.pendingNonce = .ok nonce →
    nonce.toNat + sequence.length ≤ bound

theorem Roomy.tail {bound : Nat} {replies : Replies} {rest : List Replies}
    (h : Roomy bound (replies :: rest)) : Roomy bound rest := by
  intro r hr nonce hnonce
  have hroom := h r (List.mem_cons_of_mem _ hr) nonce hnonce
  rw [List.length_cons] at hroom
  omega

/-- What holds behind a wallet in step holds along every sequence of submissions. -/
theorem history_orderly {previous : Option (Attempt L)} {w : Wallet L} {sequence : List Replies}
    {bound : Nat} (hbound : bound ≤ 2 ^ 64) (hknows : Knows previous w)
    (hprevious : ∀ p m, previous = some p → p.sent = some m → m.toNat + sequence.length + 1 ≤ bound)
    (hreport : Roomy bound sequence) {before after : List (Attempt L)} {d : Attempt L}
    (h : history store w sequence = before ++ d :: after) :
    InOrder (before.getLast?.or previous) d ∧ (bound ≤ store.words → Listed store d) := by
  induction sequence generalizing previous w before with
  | nil => simp [history] at h
  | cons replies rest ih =>
      rw [history] at h
      rw [List.length_cons] at hprevious
      obtain ⟨horder, hlisted, hsent⟩ := submit_orderly store rest.length hbound hknows hprevious
        (hreport replies List.mem_cons_self)
      cases before with
      | nil =>
          obtain ⟨rfl, -⟩ := List.cons.inj h
          exact ⟨horder, hlisted⟩
      | cons first before =>
          obtain ⟨rfl, hrest⟩ := List.cons.inj h
          have hnext : ∀ p m, some (submit store replies w) = some p → p.sent = some m →
              m.toNat + rest.length + 1 ≤ bound := by
            intro p m hp hm
            cases hp
            exact hsent m hm
          have hlast := ih (knows_submit replies w) hnext hreport.tail hrest
          rw [List.getLast?_cons]
          cases hbefore : before.getLast? with
          | none =>
              rw [hbefore] at hlast
              exact hlast
          | some p =>
              rw [hbefore] at hlast
              exact hlast

theorem start_orderly {ledger : L} {sequence : List Replies} {bound : Nat} (hbound : bound ≤ 2 ^ 64)
    (hreport : Roomy bound sequence) {before after : List (Attempt L)} {d : Attempt L}
    (h : history store (.start ledger) sequence = before ++ d :: after) :
    InOrder before.getLast? d ∧ (bound ≤ store.words → Listed store d) := by
  have hprevious : ∀ (p : Attempt L) m, none = some p → p.sent = some m →
      m.toNat + sequence.length + 1 ≤ bound := by
    intro p m hp
    cases hp
  have horder := history_orderly hbound (.inl ⟨not_confirmed_none, rfl⟩) hprevious hreport h
  rwa [Option.or_none] at horder

end Orderly

end P256Index.Nonces

/-! ## The two shells -/

namespace P256Index

open Nonces

/-- The submissions of the server's worker, from its start. -/
def Server.submissions (ledger : Server.Unstick.Ledger) (sequence : List Replies) :
    List (Nonces.Attempt Server.Unstick.Ledger) :=
  history redisLedger (.start ledger) sequence

/-- The submissions of the Cloudflare worker, from its start. -/
def Cloudflare.submissions (table : SqlTable) (sequence : List Replies) : List (Attempt SqlTable) :=
  history sqlLedger (.start table) sequence

/-- Nonces are handed out without gaps and without reuse, whatever becomes of the submissions, and
no broadcast without a definite receipt is lost, as long as what the chain reports leaves room for
the submissions below the unsigned words; only the rows of the signed column need room below the
signed ones. -/
theorem nonces_orderly (ledger : Server.Unstick.Ledger) (table : SqlTable) (sequence : List Replies)
    (bound : Nat) (hbound : bound ≤ 2 ^ 64)
    (hreport : ∀ replies ∈ sequence, ∀ nonce, replies.pendingNonce = .ok nonce →
      nonce.toNat + sequence.length ≤ bound) :
    (∀ before d after, Server.submissions ledger sequence = before ++ d :: after →
        Orderly redisLedger before.getLast? d) ∧
      ∀ before d after, Cloudflare.submissions table sequence = before ++ d :: after →
        InOrder before.getLast? d ∧ (bound ≤ 2 ^ 63 → Orderly sqlLedger before.getLast? d) := by
  constructor
  · intro before d after h
    obtain ⟨horder, hlisted⟩ := start_orderly hbound hreport h
    exact ⟨horder, hlisted hbound⟩
  · intro before d after h
    obtain ⟨horder, hlisted⟩ := start_orderly hbound hreport h
    exact ⟨horder, fun hsigned => ⟨horder, hlisted hsigned⟩⟩

namespace Nonces.Sample

/-- The chain reports a nonce and takes the transaction. -/
def taken (nonce : UInt64) (receipt : Except Registrar.ChainError ReceiptOutcome) : Replies :=
  ⟨.ok nonce, .ok ⟨"0x01", none⟩, true, receipt, true, 0⟩

def confirmed (nonce : UInt64) : Replies := taken nonce (.ok (.success none))

def uncertain (nonce : UInt64) : Replies := taken nonce (.error .unavailable)

/-- The chain reports a nonce and refuses the transaction. -/
def refused (nonce : UInt64) : Replies :=
  ⟨.ok nonce, .error .unavailable, true, .error .unavailable, true, 0⟩

end Nonces.Sample

open Nonces.Sample in
/-- The rejected nonce is not skipped: the third submission asks again. In the Redis ledger the
count goes on past the signed words. -/
theorem nonces_orderly_rejected :
    (Server.submissions (fun _ _ => none) [confirmed 7, refused 7, uncertain 8]).map Attempt.sent =
        [some 7, some 8, some 8] ∧
      (∀ before d after,
        Server.submissions (fun _ _ => none) [confirmed 7, refused 7, uncertain 8] =
        before ++ d :: after → Orderly redisLedger before.getLast? d) ∧
      (∀ before d after, Cloudflare.submissions .empty [confirmed 7, refused 7, uncertain 8] =
        before ++ d :: after → Orderly sqlLedger before.getLast? d) ∧
      ∀ before d after,
        Server.submissions (fun _ _ => none) [confirmed (UInt64.ofNat (2 ^ 63)), uncertain 0] =
          before ++ d :: after → Orderly redisLedger before.getLast? d := by
  have hsmall : ∀ replies ∈ [confirmed 7, refused 7, uncertain 8], ∀ nonce,
      replies.pendingNonce = .ok nonce → nonce.toNat + 3 ≤ 2 ^ 63 := by
    simp only [List.forall_mem_cons, List.not_mem_nil, false_implies, implies_true, and_true]
    refine ⟨?_, ?_, ?_⟩ <;> rintro nonce ⟨⟩ <;> decide
  have hlarge : ∀ replies ∈ [confirmed (UInt64.ofNat (2 ^ 63)), uncertain 0], ∀ nonce,
      replies.pendingNonce = .ok nonce → nonce.toNat + 2 ≤ 2 ^ 64 := by
    simp only [List.forall_mem_cons, List.not_mem_nil, false_implies, implies_true, and_true]
    refine ⟨?_, ?_⟩ <;> rintro nonce ⟨⟩ <;> decide
  obtain ⟨hserver, hworker⟩ :=
    nonces_orderly (fun _ _ => none) .empty _ (2 ^ 63) (by norm_num) hsmall
  refine ⟨by decide +kernel, hserver, ?_, ?_⟩
  · intro before d after h
    exact (hworker before d after h).2 le_rfl
  · exact (nonces_orderly (fun _ _ => none) .empty _ (2 ^ 64) le_rfl hlarge).1

/-! ## At the end of the words -/

namespace Nonces

theorem toNat_iterate_saturatingSucc (nonce : UInt64) (k : Nat) :
    (saturatingSucc^[k] nonce).toNat = min (nonce.toNat + k) (2 ^ 64 - 1) := by
  induction k with
  | zero =>
      have := nonce.toNat_lt
      simp only [Function.iterate_zero, id_eq, Nat.add_zero]
      omega
  | succ k ih =>
      rw [Function.iterate_succ_apply', saturatingSucc]
      split
      · next hmax =>
          have hval := congrArg UInt64.toNat hmax
          rw [ih] at hval ⊢
          have : (UInt64.ofNat (2 ^ 64 - 1)).toNat = 2 ^ 64 - 1 := by decide
          omega
      · next hmax =>
          have hne : (saturatingSucc^[k] nonce).toNat ≠ 2 ^ 64 - 1 := by
            intro hval
            apply hmax
            rw [← hval, UInt64.ofNat_toNat]
          rw [UInt64.toNat_add, UInt64.toNat_one]
          omega

open Sample

variable {L : Type} (store : LedgerStore L)

theorem submit_confirmed (reported : UInt64) {w : Wallet L} {nonce : UInt64}
    (h : w.cached = some nonce) : (submit store (confirmed reported) w).isConfirmed = true ∧
      (submit store (confirmed reported) w).sent = some nonce ∧
        (submit store (confirmed reported) w).asked = false ∧
          (submit store (confirmed reported) w).after.cached = some (saturatingSucc nonce) := by
  have hacquire : acquire (confirmed reported) w =
      some (nonce, { w with cached := some (saturatingSucc nonce) }) := by
    rw [acquire, h]
    rfl
  rw [submit_eq_of_acquire hacquire, h]
  exact ⟨rfl, rfl, rfl, rfl⟩

/-- Confirmed submissions in a row count up; at the largest word the count stays. -/
theorem history_confirmed (reported : UInt64) (k : Nat) :
    ∀ (w : Wallet L) (nonce : UInt64), w.cached = some nonce → ∃ before p d,
      history store w (List.replicate (k + 2) (confirmed reported)) = before ++ [p, d] ∧
      p.isConfirmed = true ∧ p.sent = some (saturatingSucc^[k] nonce) ∧
        d.sent = some (saturatingSucc^[k + 1] nonce) ∧ d.asked = false := by
  induction k with
  | zero =>
      intro w nonce hcached
      obtain ⟨hconfirmed, hsent, -, hnext⟩ := submit_confirmed store reported hcached
      obtain ⟨-, hsent', hasked, -⟩ := submit_confirmed store reported hnext
      exact ⟨[], _, _, rfl, hconfirmed, hsent, hsent', hasked⟩
  | succ k ih =>
      intro w nonce hcached
      obtain ⟨-, -, -, hnext⟩ := submit_confirmed store reported hcached
      obtain ⟨before, p, d, hhistory, hp⟩ := ih _ _ hnext
      refine ⟨submit store (confirmed reported) w :: before, p, d, ?_, hp⟩
      rw [List.replicate_succ, history, hhistory]
      rfl

end Nonces

open Nonces.Sample in
/-- Reported nonces below `2 ^ 63` alone are not enough. After `2 ^ 63` confirmed submissions in a
row the counter stands still and hands out its last nonce again; and in the table with the signed
column, the row of the first nonce past the reported ones is listed under another one. -/
theorem nonces_end_of_words :
    (∃ (sequence : List Replies) (before : List (Attempt Server.Unstick.Ledger))
        (p d : Attempt Server.Unstick.Ledger),
      (∀ replies ∈ sequence, ∀ nonce, replies.pendingNonce = .ok nonce → nonce.toNat < 2 ^ 63) ∧
        Server.submissions (fun _ _ => none) sequence = before ++ [p, d] ∧ p.isConfirmed = true ∧
          p.sent = some (UInt64.ofNat (2 ^ 64 - 1)) ∧ d.sent = some (UInt64.ofNat (2 ^ 64 - 1)) ∧
            d.asked = false) ∧
    ∃ p d : Attempt SqlTable,
      Cloudflare.submissions .empty [confirmed (UInt64.ofNat (2 ^ 63 - 1)), uncertain 0] = [p, d] ∧
        d.sent = some (UInt64.ofNat (2 ^ 63)) ∧ d.outcome = .receiptUncertain .unavailable ∧
          ∀ entry, ¬ sqlLedger.Shows d.after.ledger "register" (UInt64.ofNat (2 ^ 63)) entry := by
  have hlast : ∀ k, 2 ^ 63 ≤ k →
      saturatingSucc^[k] (UInt64.ofNat (2 ^ 63 - 1)) = UInt64.ofNat (2 ^ 64 - 1) := by
    intro k hk
    apply UInt64.toNat_inj.mp
    have hfirst : (UInt64.ofNat (2 ^ 63 - 1)).toNat = 2 ^ 63 - 1 := by decide
    have hmax : (UInt64.ofNat (2 ^ 64 - 1)).toNat = 2 ^ 64 - 1 := by decide
    rw [toNat_iterate_saturatingSucc, hfirst, hmax]
    omega
  constructor
  · obtain ⟨k, hk⟩ : ∃ k, 2 ^ 63 ≤ k := ⟨2 ^ 63, le_rfl⟩
    -- the first submission reads the nonce, the others count on from it
    obtain ⟨before, p, d, hhistory, hconfirmed, hp, hd, hasked⟩ :=
      history_confirmed redisLedger (UInt64.ofNat (2 ^ 63 - 1)) k
        (submit redisLedger (confirmed (UInt64.ofNat (2 ^ 63 - 1))) (.start fun _ _ => none)).after
        (saturatingSucc (UInt64.ofNat (2 ^ 63 - 1))) rfl
    rw [← Function.iterate_succ_apply, hlast _ (by omega)] at hp hd
    refine ⟨List.replicate (k + 3) (confirmed (UInt64.ofNat (2 ^ 63 - 1))),
      submit redisLedger (confirmed (UInt64.ofNat (2 ^ 63 - 1))) (.start fun _ _ => none) :: before,
      p, d, ?_, ?_, hconfirmed, hp, hd, hasked⟩
    · intro replies hmem nonce hnonce
      rw [List.eq_of_mem_replicate hmem] at hnonce
      cases hnonce
      decide
    · show history redisLedger _ (List.replicate (k + 2 + 1) _) = _
      rw [List.replicate_succ, history, hhistory]
      rfl
  · refine ⟨_, _, rfl, by decide +kernel, rfl, fun entry hshows => ?_⟩
    obtain ⟨row, hrow, -, hnonce, -⟩ := hshows
    have hrows : ∀ row ∈ (Cloudflare.submissions .empty
        [confirmed (UInt64.ofNat (2 ^ 63 - 1)), uncertain 0]).flatMap
          (fun d => d.after.ledger.rows),
        readNonce row.nonce ≠ UInt64.ofNat (2 ^ 63) := by decide +kernel
    refine hrows row ?_ hnonce
    exact List.mem_flatMap.mpr ⟨_, List.mem_cons_of_mem _ (List.mem_singleton_self _), hrow⟩

end P256Index
