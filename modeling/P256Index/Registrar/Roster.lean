import Mathlib

/-!
# The node roster

Which RPC node a call goes to. Two lanes rotate on their own and share one failure table; a node
that failed is passed over for a minute, and when every node of a lane is cooling the next one is
taken anyway.

The table is tidied on inspection, so looking changes the state. What it never changes is whether a
node is cooling at this instant or a later one (`Alike`): every answer depends on the roster through
that alone.
-/

namespace P256Index.Registrar

def rpcCooldownMs : Nat := 60000

def maxReadAttempts : Nat := 3

inductive Lane where
  | read
  | write
  deriving DecidableEq

/-- The cursors are machine words and wrap; a vector holds fewer than `2 ^ 63` nodes. Instants are
only compared, so they are plain numbers. -/
structure Roster where
  reads : List String
  writes : List String
  readCursor : UInt64
  writeCursor : UInt64
  failed : String → Option Nat
  reads_lt : reads.length < 2 ^ 63
  writes_lt : writes.length < 2 ^ 63

namespace Roster

def new (reads writes : List String) (reads_lt : reads.length < 2 ^ 63)
    (writes_lt : writes.length < 2 ^ 63) : Roster :=
  { reads, writes, readCursor := 0, writeCursor := 0, failed := fun _ => none, reads_lt, writes_lt }

def urls (r : Roster) : Lane → List String
  | .read => r.reads
  | .write => r.writes

def cursor (r : Roster) : Lane → UInt64
  | .read => r.readCursor
  | .write => r.writeCursor

/-- The roster with a lane's cursor moved on by `n`. -/
def forward (r : Roster) (lane : Lane) (n : Nat) : Roster :=
  match lane with
  | .read => { r with readCursor := r.readCursor + UInt64.ofNat n }
  | .write => { r with writeCursor := r.writeCursor + UInt64.ofNat n }

def advance (r : Roster) (lane : Lane) : UInt64 × Roster := (r.cursor lane, r.forward lane 1)

/-- The table with this entry for a node. -/
def setMark (r : Roster) (url : String) (mark : Option Nat) : Roster :=
  { r with failed := Function.update r.failed url mark }

/-- Whether a node may be asked; an entry that has run out is removed. -/
def available (r : Roster) (url : String) (now : Nat) : Bool × Roster :=
  match r.failed url with
  | some failedAt =>
      if now - failedAt < rpcCooldownMs then (false, r)
      else (true, r.setMark url none)
  | none => (true, r)

def markFailed (r : Roster) (url : String) (now : Nat) : Roster := r.setMark url (some now)

def markHealthy (r : Roster) (url : String) : Roster := r.setMark url none

/-- The node a cursor stands at. -/
def pick (nodes : List String) (hpos : 0 < nodes.length) (current : Nat) : String :=
  nodes.get ⟨current % nodes.length, Nat.mod_lt _ hpos⟩

/-- The loop of `select`; when it is over the next node is taken unseen. -/
def selectFrom (nodes : List String) (hpos : 0 < nodes.length) (lane : Lane) (now : Nat) :
    Nat → Roster → String × Roster
  | 0, r => (pick nodes hpos (r.advance lane).1.toNat, (r.advance lane).2)
  | n + 1, r =>
      let url := pick nodes hpos (r.advance lane).1.toNat
      let looked := (r.advance lane).2.available url now
      if looked.1 then (url, looked.2) else selectFrom nodes hpos lane now n looked.2

def select (r : Roster) (lane : Lane) (now : Nat) : Option String × Roster :=
  if hpos : 0 < (r.urls lane).length then
    let picked := selectFrom (r.urls lane) hpos lane now (r.urls lane).length r
    (some picked.1, picked.2)
  else (none, r)

def readAttempts (r : Roster) : Nat := min r.reads.length maxReadAttempts

/-- `any` stops at the first node that may be asked. -/
def anyAvailable (now : Nat) : List String → Roster → Bool × Roster
  | [], r => (false, r)
  | url :: rest, r =>
      let looked := r.available url now
      if looked.1 then (true, looked.2) else anyAvailable now rest looked.2

def circuitState (r : Roster) (now : Nat) : String × Roster :=
  let looked := anyAvailable now r.reads r
  (if looked.1 then "closed" else "open", looked.2)

/-! ## Cooling -/

/-- A failure at this instant, if any, still counts. -/
def coolsFrom (mark : Option Nat) (now : Nat) : Bool :=
  mark.any fun failedAt => decide (now - failedAt < rpcCooldownMs)

def cooling (r : Roster) (url : String) (now : Nat) : Bool := coolsFrom (r.failed url) now

/-- The two rosters cannot be told apart from `now` on. -/
structure Alike (now : Nat) (r r' : Roster) : Prop where
  urls : ∀ lane, r.urls lane = r'.urls lane
  cursor : ∀ lane, r.cursor lane = r'.cursor lane
  cooling : ∀ url t, now ≤ t → r.cooling url t = r'.cooling url t

variable {r r' r'' : Roster} {now t : Nat} {url other : String} {lane : Lane}

theorem Alike.refl (now : Nat) (r : Roster) : Alike now r r :=
  ⟨fun _ => rfl, fun _ => rfl, fun _ _ _ => rfl⟩

theorem Alike.symm (h : Alike now r r') : Alike now r' r where
  urls lane := (h.urls lane).symm
  cursor lane := (h.cursor lane).symm
  cooling url t ht := (h.cooling url t ht).symm

theorem Alike.trans (h : Alike now r r') (h' : Alike now r' r'') : Alike now r r'' where
  urls lane := (h.urls lane).trans (h'.urls lane)
  cursor lane := (h.cursor lane).trans (h'.cursor lane)
  cooling url t ht := (h.cooling url t ht).trans (h'.cooling url t ht)

theorem Alike.later (h : Alike now r r') (ht : now ≤ t) : Alike t r r' where
  urls := h.urls
  cursor := h.cursor
  cooling url t' ht' := h.cooling url t' (ht.trans ht')

/-! ## Cursors -/

@[simp] theorem urls_forward (n : Nat) (lane' : Lane) :
    (r.forward lane n).urls lane' = r.urls lane' := by
  cases lane <;> rfl

@[simp] theorem cooling_forward (n : Nat) : (r.forward lane n).cooling url t = r.cooling url t := by
  cases lane <;> rfl

@[simp] theorem cursor_forward (n : Nat) :
    (r.forward lane n).cursor lane = r.cursor lane + UInt64.ofNat n := by
  cases lane <;> rfl

theorem cursor_forward_of_ne {lane' : Lane} (h : lane' ≠ lane) (n : Nat) :
    (r.forward lane n).cursor lane' = r.cursor lane' := by
  cases lane <;> cases lane' <;> first | rfl | exact absurd rfl h

theorem forward_forward (m n : Nat) :
    (r.forward lane m).forward lane n = r.forward lane (m + n) := by
  cases lane <;> simp [forward, UInt64.ofNat_add, UInt64.add_assoc]

theorem Alike.forward (h : Alike now r r') (lane : Lane) (n : Nat) :
    Alike now (r.forward lane n) (r'.forward lane n) where
  urls lane' := by rw [urls_forward, urls_forward, h.urls]
  cursor lane' := by
    by_cases hlane : lane' = lane
    · rw [hlane, cursor_forward, cursor_forward, h.cursor]
    · rw [cursor_forward_of_ne hlane, cursor_forward_of_ne hlane, h.cursor]
  cooling url t ht := by rw [cooling_forward, cooling_forward, h.cooling url t ht]

/-- A cursor that did not wrap counts on. -/
theorem toNat_add_of_lt {c : UInt64} {j : Nat} (h : c.toNat + j < 2 ^ 64) :
    (c + UInt64.ofNat j).toNat = c.toNat + j := by
  rw [UInt64.toNat_add, UInt64.toNat_ofNat', Nat.mod_eq_of_lt (a := j) (by omega),
    Nat.mod_eq_of_lt h]

/-- After fewer than `2 ^ 64` steps a cursor is larger exactly if it did not wrap. -/
theorem lt_add_iff {c : UInt64} {j : Nat} (hpos : 0 < j) (hj : j < 2 ^ 64) :
    c < c + UInt64.ofNat j ↔ c.toNat + j < 2 ^ 64 := by
  have hc := c.toNat_lt
  rw [UInt64.lt_iff_toNat_lt, UInt64.toNat_add, UInt64.toNat_ofNat', Nat.mod_eq_of_lt hj]
  omega

/-! ## Marks -/

@[simp] theorem urls_setMark (mark : Option Nat) :
    (r.setMark url mark).urls lane = r.urls lane := by
  cases lane <;> rfl

@[simp] theorem cursor_setMark (mark : Option Nat) :
    (r.setMark url mark).cursor lane = r.cursor lane := by
  cases lane <;> rfl

theorem cooling_setMark (r : Roster) (url other : String) (mark : Option Nat) (t : Nat) :
    (r.setMark url mark).cooling other t = if other = url then coolsFrom mark t
      else r.cooling other t := by
  unfold cooling setMark
  dsimp only
  by_cases hsame : other = url
  · rw [if_pos hsame, hsame, Function.update_self]
  · rw [if_neg hsame, Function.update_of_ne hsame]

theorem Alike.setMark (h : Alike now r r') (url : String) (mark : Option Nat) :
    Alike now (r.setMark url mark) (r'.setMark url mark) where
  urls lane := by rw [urls_setMark, urls_setMark, h.urls]
  cursor lane := by rw [cursor_setMark, cursor_setMark, h.cursor]
  cooling other t ht := by rw [cooling_setMark, cooling_setMark, h.cooling other t ht]

/-! ## Looking at a node -/

/-- A node whose cooldown has run out stays out of it. -/
theorem coolsFrom_of_le {mark : Option Nat} (h : coolsFrom mark now = false) (ht : now ≤ t) :
    coolsFrom mark t = false := by
  cases mark with
  | none => rfl
  | some failedAt =>
      have hout : ¬ now - failedAt < rpcCooldownMs := of_decide_eq_false h
      apply decide_eq_false
      omega

@[simp] theorem coolsFrom_none (t : Nat) : coolsFrom none t = false := rfl

theorem available_fst (r : Roster) (url : String) (now : Nat) :
    (r.available url now).1 = !r.cooling url now := by
  unfold available cooling
  cases r.failed url with
  | none => rfl
  | some failedAt =>
      by_cases hcools : now - failedAt < rpcCooldownMs
      · simp [coolsFrom, hcools]
      · simp [coolsFrom, hcools]

/-- Looking tidies, and nobody can tell. -/
theorem available_alike (r : Roster) (url : String) (now : Nat) :
    Alike now r (r.available url now).2 := by
  unfold available
  split
  · rename_i failedAt hmark
    split
    · exact Alike.refl now r
    · rename_i hcools
      refine ⟨fun _ => (urls_setMark ..).symm, fun _ => (cursor_setMark ..).symm, ?_⟩
      intro other t ht
      rw [cooling_setMark]
      split
      · rename_i hsame
        rw [hsame, cooling, hmark, coolsFrom_none]
        exact coolsFrom_of_le (decide_eq_false hcools) ht
      · rfl
  · exact Alike.refl now r

theorem Alike.available (h : Alike now r r') (url : String) :
    (r.available url now).1 = (r'.available url now).1 ∧
      Alike now (r.available url now).2 (r'.available url now).2 := by
  constructor
  · rw [available_fst, available_fst, h.cooling url now le_rfl]
  · exact ((available_alike r url now).symm.trans h).trans (available_alike r' url now)

theorem anyAvailable_fst (now : Nat) (nodes : List String) (r : Roster) :
    (anyAvailable now nodes r).1 = nodes.any fun url => !r.cooling url now := by
  induction nodes generalizing r with
  | nil => rfl
  | cons url rest ih =>
      rw [anyAvailable, List.any_cons, available_fst]
      cases hcools : r.cooling url now with
      | false => rfl
      | true =>
          have hsame : ∀ other, (r.available url now).2.cooling other now = r.cooling other now :=
            fun other => ((available_alike r url now).cooling other now le_rfl).symm
          simp only [Bool.not_true, Bool.false_eq_true, if_false, Bool.false_or, ih, hsame]

theorem anyAvailable_alike (now : Nat) (nodes : List String) (r : Roster) :
    Alike now r (anyAvailable now nodes r).2 := by
  induction nodes generalizing r with
  | nil => exact Alike.refl now r
  | cons url rest ih =>
      rw [anyAvailable]
      have hlooked := available_alike r url now
      split
      · exact hlooked
      · exact hlooked.trans (ih _)

/-- The circuit is open exactly if every read node is cooling. -/
theorem circuitState_fst (r : Roster) (now : Nat) :
    (r.circuitState now).1 = if ∀ url ∈ r.reads, r.cooling url now then "open" else "closed" := by
  show (if (anyAvailable now r.reads r).1 then "closed" else "open") = _
  rw [anyAvailable_fst]
  by_cases hall : ∀ url ∈ r.reads, r.cooling url now
  · have hnone : (r.reads.any fun url => !r.cooling url now) = false := by simpa using hall
    rw [hnone, if_pos hall]
    rfl
  · have hsome : (r.reads.any fun url => !r.cooling url now) = true := by simpa using hall
    rw [hsome, if_neg hall]
    rfl

theorem circuitState_alike (r : Roster) (now : Nat) : Alike now r (r.circuitState now).2 :=
  anyAvailable_alike now r.reads r

theorem Alike.circuitState (h : Alike now r r') :
    (r.circuitState now).1 = (r'.circuitState now).1 ∧
      Alike now (r.circuitState now).2 (r'.circuitState now).2 := by
  constructor
  · have hreads : r.reads = r'.reads := h.urls .read
    simp only [circuitState_fst, hreads, h.cooling _ now le_rfl]
  · exact ((circuitState_alike r now).symm.trans h).trans (circuitState_alike r' now)

/-! ## Selection -/

section Select

variable {nodes : List String} {hpos : 0 < nodes.length}

theorem selectFrom_succ (n : Nat) (r : Roster) :
    selectFrom nodes hpos lane now (n + 1) r =
      let looked := (r.forward lane 1).available (pick nodes hpos (r.cursor lane).toNat) now
      if r.cooling (pick nodes hpos (r.cursor lane).toNat) now
        then selectFrom nodes hpos lane now n looked.2
      else (pick nodes hpos (r.cursor lane).toNat, looked.2) := by
  have hfst := available_fst (r.forward lane 1) (pick nodes hpos (r.cursor lane).toNat) now
  rw [cooling_forward] at hfst
  rw [selectFrom]
  simp only [advance, hfst]
  cases r.cooling (pick nodes hpos (r.cursor lane).toNat) now <;> rfl

/-- The loop stops at the first node that is not cooling, or one past a whole turn. -/
theorem selectFrom_spec (nodes : List String) (hpos : 0 < nodes.length) (lane : Lane) (now n : Nat)
    (r : Roster) :
    ∃ k ≤ n, (∀ j < k,
        r.cooling (pick nodes hpos (r.cursor lane + UInt64.ofNat j).toNat) now = true) ∧
      (k < n → r.cooling (pick nodes hpos (r.cursor lane + UInt64.ofNat k).toNat) now = false) ∧
        (selectFrom nodes hpos lane now n r).1 =
          pick nodes hpos (r.cursor lane + UInt64.ofNat k).toNat ∧
          Alike now (r.forward lane (k + 1)) (selectFrom nodes hpos lane now n r).2 := by
  induction n generalizing r with
  | zero =>
      refine ⟨0, le_rfl, by simp, by simp, ?_, Alike.refl now _⟩
      simp [selectFrom, advance]
  | succ n ih =>
      have hcursor : r.cursor lane + UInt64.ofNat 0 = r.cursor lane := by simp
      have hlooked := available_alike (r.forward lane 1) (pick nodes hpos (r.cursor lane).toNat) now
      rw [selectFrom_succ]
      dsimp only
      cases hcools : r.cooling (pick nodes hpos (r.cursor lane).toNat) now with
      | false =>
          refine ⟨0, Nat.zero_le _, by simp, ?_, ?_, ?_⟩
          · rw [hcursor]
            exact fun _ => hcools
          · rw [hcursor]
            rfl
          · exact hlooked
      | true =>
          -- the rest of the loop starts one node further on
          have hnext : ∀ j,
              ((r.forward lane 1).available
                (pick nodes hpos (r.cursor lane).toNat) now).2.cursor lane + UInt64.ofNat j =
              r.cursor lane + UInt64.ofNat (j + 1) := by
            intro j
            rw [← hlooked.cursor, cursor_forward, UInt64.add_assoc, ← UInt64.ofNat_add,
              Nat.add_comm 1 j]
          have hsame : ∀ other,
              ((r.forward lane 1).available (pick nodes hpos (r.cursor lane).toNat) now).2.cooling
              other now = r.cooling other now := by
            intro other
            rw [← hlooked.cooling other now le_rfl, cooling_forward]
          obtain ⟨k, hk, hskipped, heligible, hpicked, halike⟩ :=
            ih ((r.forward lane 1).available (pick nodes hpos (r.cursor lane).toNat) now).2
          simp only [hnext, hsame] at hskipped heligible hpicked
          refine ⟨k + 1, Nat.succ_le_succ hk, ?_, fun hlt =>
            heligible (Nat.lt_of_succ_lt_succ hlt), hpicked, ?_⟩
          · intro j hj
            cases j with
            | zero => rw [hcursor, hcools]
            | succ j => exact hskipped j (Nat.lt_of_succ_lt_succ hj)
          · have hstart := hlooked.forward lane (k + 1)
            rw [forward_forward, Nat.add_comm 1 (k + 1)] at hstart
            exact hstart.trans halike

theorem exists_offset {c i len : Nat} (hi : i < len) : ∃ j < len, (c + j) % len = i := by
  refine ⟨(i + (len - c % len)) % len, Nat.mod_lt _ (by omega), ?_⟩
  have hc := Nat.div_add_mod c len
  have hlt : c % len < len := Nat.mod_lt _ (by omega)
  have hsum : c + (i + (len - c % len)) = i + len * (c / len + 1) := by
    rw [Nat.mul_add, Nat.mul_one]
    omega
  rw [Nat.add_mod_mod, hsum, Nat.add_mul_mod_self_left, Nat.mod_eq_of_lt hi]

/-- A whole turn from anywhere comes to every node. -/
theorem exists_pick (hpos : 0 < nodes.length) (hurl : url ∈ nodes) (c : Nat) :
    ∃ j < nodes.length, pick nodes hpos (c + j) = url := by
  obtain ⟨i, hi, rfl⟩ := List.getElem_of_mem hurl
  obtain ⟨j, hj, hmod⟩ := exists_offset (c := c) hi
  refine ⟨j, hj, ?_⟩
  simp only [pick, hmod, List.get_eq_getElem]

theorem pick_mem (c : Nat) : pick nodes hpos c ∈ nodes := List.get_mem _ _

end Select

theorem urls_lt (r : Roster) (lane : Lane) : (r.urls lane).length < 2 ^ 63 := by
  cases lane
  · exact r.reads_lt
  · exact r.writes_lt

theorem select_of_empty (h : r.urls lane = []) : r.select lane now = (none, r) := by
  rw [select, dif_neg (by simp [h])]

/-- What a selection does whose cursor does not wrap: nodes are passed over while they are cooling,
for one turn at most, and the cursor stands behind the node that was taken. -/
theorem select_spec (now : Nat) (hpos : 0 < (r.urls lane).length) :
    ∃ k ≤ (r.urls lane).length, Alike now (r.forward lane (k + 1)) (r.select lane now).2 ∧
      (r.cursor lane < (r.select lane now).2.cursor lane →
        (r.cursor lane).toNat + k + 1 < 2 ^ 64 ∧
        (∀ j < k, r.cooling (pick (r.urls lane) hpos ((r.cursor lane).toNat + j)) now = true) ∧
        (k < (r.urls lane).length →
          r.cooling (pick (r.urls lane) hpos ((r.cursor lane).toNat + k)) now = false) ∧
          (r.select lane now).1 = some (pick (r.urls lane) hpos ((r.cursor lane).toNat + k))) := by
  obtain ⟨k, hk, hskipped, heligible, hpicked, halike⟩ :=
    selectFrom_spec (r.urls lane) hpos lane now (r.urls lane).length r
  have hselect : r.select lane now =
      (some (selectFrom (r.urls lane) hpos lane now (r.urls lane).length r).1,
        (selectFrom (r.urls lane) hpos lane now (r.urls lane).length r).2) := dif_pos hpos
  rw [hselect]
  refine ⟨k, hk, halike, ?_⟩
  intro hwrap
  have hlen := r.urls_lt lane
  rw [← halike.cursor, cursor_forward, lt_add_iff (Nat.succ_pos k) (by omega)] at hwrap
  have hstands : ∀ j ≤ k, (r.cursor lane + UInt64.ofNat j).toNat = (r.cursor lane).toNat + j :=
    fun j hj => toNat_add_of_lt (by omega)
  refine ⟨hwrap, ?_, ?_, ?_⟩
  · intro j hj
    rw [← hstands j hj.le]
    exact hskipped j hj
  · intro hlt
    rw [← hstands k le_rfl]
    exact heligible hlt
  · rw [hpicked, hstands k le_rfl]

end Roster

/-! ## Runs -/

inductive RosterCall where
  | select (lane : Lane)
  | markFailed (url : String)
  | markHealthy (url : String)
  | available (url : String)
  | circuitState
  deriving DecidableEq

/-- The calls that only look. -/
def RosterCall.Observes : RosterCall → Prop
  | .available _ => True
  | .circuitState => True
  | _ => False

inductive RosterAnswer where
  | picked (url : Option String)
  | marked
  | eligible (answer : Bool)
  | circuit (state : String)
  deriving DecidableEq

namespace Roster

def step (r : Roster) (now : Nat) : RosterCall → RosterAnswer × Roster
  | .select lane => (.picked (r.select lane now).1, (r.select lane now).2)
  | .markFailed url => (.marked, r.markFailed url now)
  | .markHealthy url => (.marked, r.markHealthy url)
  | .available url => (.eligible (r.available url now).1, (r.available url now).2)
  | .circuitState => (.circuit (r.circuitState now).1, (r.circuitState now).2)

/-- The answers to a sequence of calls, each with its clock reading. -/
def answers : Roster → List (Nat × RosterCall) → List RosterAnswer
  | _, [] => []
  | r, (now, call) :: events => (r.step now call).1 :: (r.step now call).2.answers events

def after : Roster → List (Nat × RosterCall) → Roster
  | r, [] => r
  | r, (now, call) :: events => (r.step now call).2.after events

/-- What a call says about failures: the last failure of each node that was not called healthy
since. -/
def note (mark : String → Option Nat) : Nat × RosterCall → String → Option Nat
  | (now, .markFailed url) => Function.update mark url (some now)
  | (_, .markHealthy url) => Function.update mark url none
  | _ => mark

def lastFailure (r : Roster) (events : List (Nat × RosterCall)) : String → Option Nat :=
  events.foldl note r.failed

/-- After these calls the node has failed less than the cooldown ago and was not called healthy
since. -/
def Cools (r : Roster) (events : List (Nat × RosterCall)) (url : String) (now : Nat) : Prop :=
  ∃ failedAt, r.lastFailure events url = some failedAt ∧ now - failedAt < rpcCooldownMs

/-- No cursor wraps: every selection on a lane with nodes leaves it further on. -/
def NoWrap (r : Roster) (events : List (Nat × RosterCall)) : Prop :=
  ∀ before now lane rest, events = before ++ (now, .select lane) :: rest → r.urls lane ≠ [] →
    (r.after before).cursor lane < ((r.after before).select lane now).2.cursor lane

/-- The selections on a lane, with their answers. -/
def picks (lane : Lane) (events : List (Nat × RosterCall)) (answers : List RosterAnswer) :
    List RosterAnswer :=
  ((events.zip answers).filter fun x => x.1.2 = .select lane).map Prod.snd

end Roster

/-- What a mask leaves of a list. -/
def kept {α : Type} : List Bool → List α → List α
  | true :: mask, x :: xs => x :: kept mask xs
  | false :: mask, _ :: xs => kept mask xs
  | _, _ => []

namespace Roster

variable {r r' : Roster} {now t : Nat} {url : String} {lane : Lane} {call : RosterCall}
  {events before : List (Nat × RosterCall)}

/-! ## Looking is neutral -/

theorem observes_alike (h : call.Observes) : Alike now r (r.step now call).2 := by
  cases call with
  | available url => exact available_alike r url now
  | circuitState => exact circuitState_alike r now
  | select _ => cases h
  | markFailed _ => cases h
  | markHealthy _ => cases h

theorem Alike.selectFrom (h : Alike now r r') (nodes : List String) (hpos : 0 < nodes.length)
    (lane : Lane) (n : Nat) :
    (selectFrom nodes hpos lane now n r).1 = (selectFrom nodes hpos lane now n r').1 ∧
      Alike now (selectFrom nodes hpos lane now n r).2 (selectFrom nodes hpos lane now n r').2 := by
  induction n generalizing r r' with
  | zero => exact ⟨by simp only [Roster.selectFrom, advance, h.cursor lane], h.forward lane 1⟩
  | succ n ih =>
      rw [selectFrom_succ, selectFrom_succ, h.cursor lane]
      dsimp only
      obtain ⟨-, hlooked⟩ := (h.forward lane 1).available (pick nodes hpos (r'.cursor lane).toNat)
      rw [h.cooling _ now le_rfl]
      split
      · exact ih hlooked
      · exact ⟨rfl, hlooked⟩

theorem Alike.select (h : Alike now r r') (lane : Lane) :
    (r.select lane now).1 = (r'.select lane now).1 ∧
      Alike now (r.select lane now).2 (r'.select lane now).2 := by
  unfold Roster.select
  rw [h.urls lane]
  split
  · obtain ⟨hpicked, halike⟩ := h.selectFrom (r'.urls lane) ‹_› lane (r'.urls lane).length
    exact ⟨congrArg some hpicked, halike⟩
  · exact ⟨rfl, h⟩

/-- Rosters that cannot be told apart answer alike and stay so. -/
theorem Alike.step (h : Alike now r r') (call : RosterCall) :
    (r.step now call).1 = (r'.step now call).1 ∧
      Alike now (r.step now call).2 (r'.step now call).2 := by
  cases call with
  | select lane =>
      obtain ⟨hpicked, halike⟩ := h.select lane
      exact ⟨congrArg RosterAnswer.picked hpicked, halike⟩
  | markFailed url => exact ⟨rfl, h.setMark url (some now)⟩
  | markHealthy url => exact ⟨rfl, h.setMark url none⟩
  | available url =>
      obtain ⟨hanswer, halike⟩ := h.available url
      exact ⟨congrArg RosterAnswer.eligible hanswer, halike⟩
  | circuitState =>
      obtain ⟨hanswer, halike⟩ := h.circuitState
      exact ⟨congrArg RosterAnswer.circuit hanswer, halike⟩

theorem Alike.answers_kept {mask : List Bool} (h : Alike now r r') (hnow : ∀ e ∈ events, now ≤ e.1)
    (htimes : events.Pairwise fun e e' => e.1 ≤ e'.1)
    (hmask : List.Forall₂ (fun keep (e : Nat × RosterCall) => keep = false → e.2.Observes)
      mask events) :
    r'.answers (kept mask events) = kept mask (r.answers events) := by
  induction hmask generalizing r r' now with
  | nil => rfl
  | @cons keep e mask events hdrop _ ih =>
      obtain ⟨hfirst, hrest⟩ := List.pairwise_cons.mp htimes
      have hlater := h.later (hnow e List.mem_cons_self)
      cases keep with
      | true =>
          obtain ⟨hanswer, halike⟩ := hlater.step e.2
          show (r'.step e.1 e.2).1 :: _ = (r.step e.1 e.2).1 :: _
          rw [hanswer, ih halike hfirst hrest]
      | false => exact ih ((observes_alike (hdrop rfl)).symm.trans hlater) hfirst hrest

/-! ## One step -/

/-- A selection changes its own cursor and nothing that shows later. -/
theorem select_frame (r : Roster) (lane : Lane) (now : Nat) :
    ∃ n, Alike now (r.forward lane n) (r.select lane now).2 := by
  by_cases hpos : 0 < (r.urls lane).length
  · obtain ⟨k, -, halike, -⟩ := select_spec now hpos
    exact ⟨k + 1, halike⟩
  · rw [select_of_empty (List.length_eq_zero_iff.mp (by omega))]
    refine ⟨0, ?_⟩
    have hzero : r.forward lane 0 = r := by cases lane <;> simp [forward]
    rw [hzero]
    exact Alike.refl now r

theorem urls_step (r : Roster) (now : Nat) (call : RosterCall) (lane : Lane) :
    (r.step now call).2.urls lane = r.urls lane := by
  cases call with
  | select other =>
      obtain ⟨n, halike⟩ := select_frame r other now
      rw [step, ← halike.urls, urls_forward]
  | markFailed url => exact urls_setMark _
  | markHealthy url => exact urls_setMark _
  | available url => exact ((available_alike r url now).urls lane).symm
  | circuitState => exact ((circuitState_alike r now).urls lane).symm

theorem cursor_step_of_ne (h : call ≠ .select lane) :
    (r.step now call).2.cursor lane = r.cursor lane := by
  cases call with
  | select other =>
      obtain ⟨n, halike⟩ := select_frame r other now
      have hne : lane ≠ other := fun heq => h (heq ▸ rfl)
      rw [step, ← halike.cursor, cursor_forward_of_ne hne]
  | markFailed url => exact cursor_setMark _
  | markHealthy url => exact cursor_setMark _
  | available url => exact ((available_alike r url now).cursor lane).symm
  | circuitState => exact ((circuitState_alike r now).cursor lane).symm

/-- From `now` on the table cools exactly what the marks say. -/
def Marked (now : Nat) (r : Roster) (mark : String → Option Nat) : Prop :=
  ∀ url t, now ≤ t → r.cooling url t = coolsFrom (mark url) t

theorem Marked.of_alike {mark : String → Option Nat} (h : Marked now r mark)
    (halike : Alike now r r') : Marked now r' mark := by
  intro url t ht
  rw [← halike.cooling url t ht, h url t ht]

theorem Marked.setMark {mark : String → Option Nat} (h : Marked now r mark) (url : String)
    (value : Option Nat) : Marked now (r.setMark url value) (Function.update mark url value) := by
  intro other t ht
  rw [cooling_setMark, h other t ht]
  by_cases hsame : other = url
  · rw [if_pos hsame, hsame, Function.update_self]
  · rw [if_neg hsame, Function.update_of_ne hsame]

theorem Marked.step {mark : String → Option Nat} (h : Marked now r mark) (call : RosterCall) :
    Marked now (r.step now call).2 (note mark (now, call)) := by
  cases call with
  | select lane =>
      obtain ⟨n, halike⟩ := select_frame r lane now
      intro url t ht
      show (r.select lane now).2.cooling url t = coolsFrom (mark url) t
      rw [← halike.cooling url t ht, cooling_forward, h url t ht]
  | markFailed url => exact h.setMark url (some now)
  | markHealthy url => exact h.setMark url none
  | available url => exact h.of_alike (available_alike r url now)
  | circuitState => exact h.of_alike (circuitState_alike r now)

/-! ## A whole run -/

theorem urls_after (r : Roster) (events : List (Nat × RosterCall)) (lane : Lane) :
    (r.after events).urls lane = r.urls lane := by
  induction events generalizing r with
  | nil => rfl
  | cons e events ih => rw [after, ih, urls_step]

theorem Marked.after {mark : String → Option Nat} (h : Marked now r mark)
    (hnow : ∀ e ∈ events, now ≤ e.1) (htimes : events.Pairwise fun e e' => e.1 ≤ e'.1)
    (hle : ∀ e ∈ events, e.1 ≤ t) (ht : now ≤ t) :
    Marked t (r.after events) (events.foldl note mark) := by
  induction events generalizing r now mark with
  | nil => exact fun url t' ht' => h url t' (ht.trans ht')
  | cons e events ih =>
      obtain ⟨hfirst, hrest⟩ := List.pairwise_cons.mp htimes
      have hthen : Marked e.1 r mark := fun url t' ht' =>
        h url t' ((hnow e List.mem_cons_self).trans ht')
      exact ih (hthen.step e.2) hfirst hrest (fun e' he' => hle e' (List.mem_cons_of_mem e he'))
        (hle e List.mem_cons_self)

theorem cooling_after_iff (htimes : events.Pairwise fun e e' => e.1 ≤ e'.1)
    {rest : List (Nat × RosterCall)} (hsplit : events = before ++ (now, call) :: rest) :
    (r.after before).cooling url now = true ↔ r.Cools before url now := by
  rw [hsplit, List.pairwise_append] at htimes
  obtain ⟨hbefore, -, hle⟩ := htimes
  have hstart : Marked 0 r r.failed := fun _ _ _ => rfl
  have hmarked := hstart.after (fun _ _ => Nat.zero_le _) hbefore
    (fun e he => hle e he (now, call) List.mem_cons_self) (Nat.zero_le now)
  rw [hmarked url now le_rfl, coolsFrom, Option.any_eq_true]
  simp only [decide_eq_true_eq]
  rfl

theorem answers_append (r : Roster) (xs ys : List (Nat × RosterCall)) :
    r.answers (xs ++ ys) = r.answers xs ++ (r.after xs).answers ys := by
  induction xs generalizing r with
  | nil => rfl
  | cons e xs ih => rw [List.cons_append, answers, ih, answers, after, List.cons_append]

theorem answers_length (r : Roster) (events : List (Nat × RosterCall)) :
    (r.answers events).length = events.length := by
  induction events generalizing r with
  | nil => rfl
  | cons e events ih => rw [answers, List.length_cons, List.length_cons, ih]

/-- The answer to a call is the one its roster gives. -/
theorem answer_at {rest : List (Nat × RosterCall)}
    (hsplit : events = before ++ (now, call) :: rest) :
    (r.answers events)[before.length]? = some ((r.after before).step now call).1 := by
  rw [hsplit, answers_append, List.getElem?_append_right (by rw [answers_length]),
    answers_length, Nat.sub_self]
  rfl

/-- A node that is not cooling is taken whenever the lane has one. -/
theorem select_eligible (hwrap : r.cursor lane < (r.select lane now).2.cursor lane)
    (hsome : ∃ url ∈ r.urls lane, r.cooling url now = false) :
    ∃ url ∈ r.urls lane, r.cooling url now = false ∧ (r.select lane now).1 = some url := by
  obtain ⟨url, hurl, hfree⟩ := hsome
  have hpos : 0 < (r.urls lane).length := List.length_pos_of_mem hurl
  obtain ⟨k, hk, -, hspec⟩ := select_spec now hpos
  obtain ⟨-, hskipped, heligible, hpicked⟩ := hspec hwrap
  refine ⟨_, pick_mem _, heligible ?_, hpicked⟩
  -- otherwise the whole turn was cooling
  obtain ⟨j, hj, rfl⟩ := exists_pick hpos hurl (r.cursor lane).toNat
  by_contra hnot
  have hcools := hskipped j (by omega)
  rw [hfree] at hcools
  cases hcools

/-- Where no node of the lane is cooling the next one is taken. -/
theorem select_next (hpos : 0 < (r.urls lane).length)
    (hwrap : r.cursor lane < (r.select lane now).2.cursor lane)
    (hall : ∀ url ∈ r.urls lane, r.cooling url now = false) :
    (r.select lane now).1 = some (pick (r.urls lane) hpos (r.cursor lane).toNat) ∧
      ((r.select lane now).2.cursor lane).toNat = (r.cursor lane).toNat + 1 := by
  obtain ⟨k, hk, halike, hspec⟩ := select_spec now hpos
  obtain ⟨hlt, hskipped, -, hpicked⟩ := hspec hwrap
  have hzero : k = 0 := by
    by_contra hne
    have hcools := hskipped 0 (Nat.pos_of_ne_zero hne)
    rw [hall _ (pick_mem _)] at hcools
    cases hcools
  subst hzero
  refine ⟨hpicked, ?_⟩
  rw [← halike.cursor, cursor_forward, toNat_add_of_lt (by omega)]

/-! ## Rotation -/

theorem map_pick_range {nodes : List String} (hpos : 0 < nodes.length) (c : Nat) :
    (List.range nodes.length).map (fun i => pick nodes hpos (c + i)) = nodes.rotate c := by
  apply List.ext_getElem
  · simp
  · intro i hi hi'
    simp only [List.getElem_map, List.getElem_range, pick, List.get_eq_getElem, List.getElem_rotate,
      Nat.add_comm c i]

/-- While no node of the lane is cooling, its selections go through the nodes in turn. -/
theorem picks_in_turn (r : Roster) (events : List (Nat × RosterCall)) {nodes : List String}
    (hpos : 0 < nodes.length) (hnodes : r.urls lane = nodes)
    (hwrap : ∀ pre now post, events = pre ++ (now, .select lane) :: post →
      (r.after pre).cursor lane < ((r.after pre).select lane now).2.cursor lane)
    (hfree : ∀ pre now post, events = pre ++ (now, .select lane) :: post →
      ∀ url ∈ nodes, (r.after pre).cooling url now = false) :
    picks lane events (r.answers events) =
      (List.range (events.filter fun e => e.2 = .select lane).length).map fun i =>
        .picked (some (pick nodes hpos ((r.cursor lane).toNat + i))) := by
  induction events generalizing r with
  | nil => rfl
  | cons e events ih =>
      obtain ⟨now, call⟩ := e
      have hrest := ih (r.step now call).2 (by rw [urls_step, hnodes])
        (fun pre t post hsplit => hwrap ((now, call) :: pre) t post (by rw [hsplit]; rfl))
        (fun pre t post hsplit => hfree ((now, call) :: pre) t post (by rw [hsplit]; rfl))
      unfold picks at hrest ⊢
      by_cases hcall : call = .select lane
      · subst hcall
        subst hnodes
        obtain ⟨hpicked, hcursor⟩ :=
          select_next hpos (hwrap [] now events rfl) (hfree [] now events rfl)
        have hcursor' : ((r.step now (.select lane)).2.cursor lane).toNat =
            (r.cursor lane).toNat + 1 := hcursor
        rw [answers, List.zip_cons_cons, List.filter_cons_of_pos (by simp), List.map_cons, hrest,
          hcursor', List.filter_cons_of_pos (by simp), List.length_cons, List.range_succ_eq_map,
          List.map_cons, List.map_map]
        congr 1
        · exact congrArg RosterAnswer.picked hpicked
        · apply List.map_congr_left
          intro i _
          simp only [Function.comp_apply]
          congr 3
          omega
      · rw [answers, List.zip_cons_cons, List.filter_cons_of_neg (by simpa using hcall), hrest,
          cursor_step_of_ne hcall, List.filter_cons_of_neg (by simpa using hcall)]

theorem after_append (r : Roster) (xs ys : List (Nat × RosterCall)) :
    r.after (xs ++ ys) = (r.after xs).after ys := by
  induction xs generalizing r with
  | nil => rfl
  | cons e xs ih => rw [List.cons_append, after, ih, after]

theorem picks_append {turn : List (Nat × RosterCall)} {given : List RosterAnswer}
    (h : given.length = turn.length) (more : List RosterAnswer) :
    picks lane turn (given ++ more) = picks lane turn given := by
  have hzip : (turn ++ []).zip (given ++ more) = turn.zip given ++ List.zip [] more :=
    List.zip_append h.symm
  rw [List.append_nil, List.zip_nil_left, List.append_nil] at hzip
  rw [picks, picks, hzip]

theorem picks_eq_nil {turn : List (Nat × RosterCall)}
    (h : (turn.filter fun e => e.2 = .select lane) = []) (given : List RosterAnswer) :
    picks lane turn given = [] := by
  rw [picks, List.map_eq_nil_iff, List.filter_eq_nil_iff]
  intro x hx
  exact List.filter_eq_nil_iff.mp h x.1 (List.of_mem_zip hx).1

/-! ## The roster -/

/-- Every roster, every sequence of calls at clock readings that do not go back, no cursor wrapping.

* A selection takes a node that is not cooling whenever the lane has one.
* While no node of a lane is cooling, as many selections on it as it has nodes take each position
  once: they are the lane read round from the cursor.
* The circuit is open exactly if every read node failed less than the cooldown ago and was not
  called healthy since.
* Calls that only look can be left out: the others are answered as before. -/
theorem roster_sound (r : Roster) (events : List (Nat × RosterCall))
    (htimes : events.Pairwise fun e e' => e.1 ≤ e'.1) (hwrap : r.NoWrap events) :
    (∀ before now lane rest, events = before ++ (now, .select lane) :: rest →
      (∃ url ∈ r.urls lane, ¬ r.Cools before url now) →
        ∃ url ∈ r.urls lane, ¬ r.Cools before url now ∧
          (r.answers events)[before.length]? = some (.picked (some url))) ∧
    (∀ before turn rest lane, events = before ++ turn ++ rest →
      (turn.filter fun e => e.2 = .select lane).length = (r.urls lane).length →
      (∀ pre now post, turn = pre ++ (now, .select lane) :: post →
        ∀ url ∈ r.urls lane, ¬ r.Cools (before ++ pre) url now) →
          picks lane turn ((r.answers events).drop before.length) =
            ((r.urls lane).rotate ((r.after before).cursor lane).toNat).map fun url =>
              .picked (some url)) ∧
    (∀ before now rest, events = before ++ (now, .circuitState) :: rest →
      ∃ state, (r.answers events)[before.length]? = some (.circuit state) ∧
        (state = "open" ∨ state = "closed") ∧
        (state = "open" ↔ ∀ url ∈ r.reads, r.Cools before url now)) ∧
    (∀ mask, List.Forall₂ (fun keep (e : Nat × RosterCall) => keep = false → e.2.Observes)
        mask events →
      r.answers (kept mask events) = kept mask (r.answers events)) := by
  refine ⟨?_, ?_, ?_, ?_⟩
  · intro before now lane rest hsplit hsome
    have hne : r.urls lane ≠ [] := by
      obtain ⟨url, hurl, -⟩ := hsome
      exact List.ne_nil_of_mem hurl
    have hfree : ∀ url, (r.after before).cooling url now = false ↔ ¬ r.Cools before url now := by
      intro url
      rw [← cooling_after_iff htimes hsplit, Bool.not_eq_true]
    have heligible := select_eligible (hwrap before now lane rest hsplit hne)
    simp only [urls_after, hfree] at heligible
    obtain ⟨url, hurl, hnot, hpicked⟩ := heligible hsome
    refine ⟨url, hurl, hnot, ?_⟩
    rw [answer_at hsplit, step, hpicked]
  · intro before turn rest lane hsplit hcount hfree
    rw [hsplit, List.append_assoc, answers_append,
      List.drop_append_of_le_length (by rw [answers_length]),
      List.drop_eq_nil_of_le (by rw [answers_length]), List.nil_append, answers_append,
      picks_append (answers_length _ _)]
    by_cases hpos : 0 < (r.urls lane).length
    · have hat : ∀ pre now post, turn = pre ++ (now, .select lane) :: post →
          events = (before ++ pre) ++ (now, .select lane) :: (post ++ rest) := by
        intro pre now post hpre
        rw [hsplit, hpre]
        simp
      have hturn := picks_in_turn (r.after before) turn hpos (urls_after r before lane) ?_ ?_
      · rw [hturn, hcount, ← map_pick_range hpos, List.map_map]
        rfl
      · intro pre now post hpre
        rw [← after_append]
        exact hwrap _ now lane _ (hat pre now post hpre) (List.ne_nil_of_length_pos hpos)
      · intro pre now post hpre url hurl
        rw [← after_append, ← Bool.not_eq_true, cooling_after_iff htimes (hat pre now post hpre)]
        exact hfree pre now post hpre url hurl
    · have hnil : r.urls lane = [] := List.length_eq_zero_iff.mp (by omega)
      rw [hnil, List.length_nil, List.length_eq_zero_iff] at hcount
      rw [hnil, picks_eq_nil hcount]
      rfl
  · intro before now rest hsplit
    have hreads : (r.after before).reads = r.reads := urls_after r before .read
    have hopen : (∀ url ∈ (r.after before).reads, (r.after before).cooling url now = true) ↔
        ∀ url ∈ r.reads, r.Cools before url now := by
      simp only [hreads, cooling_after_iff htimes hsplit]
    refine ⟨_, answer_at hsplit, ?_⟩
    rw [circuitState_fst, ← hopen]
    split
    · exact ⟨.inl rfl, iff_of_true rfl ‹_›⟩
    · exact ⟨.inr rfl, iff_of_false (by decide) ‹_›⟩
  · intro mask hmask
    exact (Alike.refl 0 r).answers_kept (fun _ _ => Nat.zero_le _) htimes hmask

theorem noWrap_cons : r.NoWrap ((now, call) :: events) ↔
    (∀ lane, call = .select lane → r.urls lane ≠ [] →
      r.cursor lane < (r.select lane now).2.cursor lane) ∧ (r.step now call).2.NoWrap events := by
  constructor
  · intro h
    refine ⟨?_, ?_⟩
    · rintro lane rfl hne
      exact h [] now lane events rfl hne
    · intro before t lane rest hsplit hne
      rw [urls_step] at hne
      exact h ((now, call) :: before) t lane rest (by rw [hsplit]; rfl) hne
  · rintro ⟨hfirst, hrest⟩ before t lane rest hsplit hne
    cases before with
    | nil =>
        cases hsplit
        exact hfirst lane rfl hne
    | cons e before =>
        obtain ⟨rfl, htail⟩ := List.cons.inj hsplit
        exact hrest before t lane rest htail (by rwa [urls_step])

/-- Two looks between a failure and a selection: the selection is the one without them. -/
theorem roster_sound_looks :
    let roster := new ["a", "b", "c"] ["a", "b"] (by decide) (by decide)
    let events :=
      [(0, .markFailed "a"), (1, .available "a"), (2, .circuitState), (60000, .select .read)]
    roster.answers (kept [true, false, false, true] events) = [.marked, .picked (some "a")] := by
  intro roster events
  have hwrap : roster.NoWrap events := by
    refine noWrap_cons.mpr
      ⟨by simp, noWrap_cons.mpr ⟨by simp, noWrap_cons.mpr ⟨by simp, noWrap_cons.mpr ⟨?_, ?_⟩⟩⟩⟩
    · rintro _ ⟨rfl⟩ -
      decide +kernel
    · intro before t lane rest hsplit
      simp at hsplit
  have hmask : List.Forall₂ (fun keep (e : Nat × RosterCall) => keep = false → e.2.Observes)
      [true, false, false, true] events :=
    .cons (by simp) (.cons (fun _ => trivial) (.cons (fun _ => trivial) (.cons (by simp) .nil)))
  obtain ⟨-, -, -, hlooks⟩ := roster_sound roster events (by decide) hwrap
  rw [hlooks _ hmask]
  decide +kernel

end Roster

end P256Index.Registrar
