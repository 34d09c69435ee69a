import P256Index.Contract.Presence
import P256Index.Codec.Json

/-!
# Exporting an archive

`export` of the replay tool: find the block the registry was deployed at by bisection, walk the
blocks from there in chunks that get smaller when the node refuses them, collect the transactions
behind the registry's logs, and archive the ones that are a direct write. The node may fail any
request; what it does answer is true of one chain.

`export_complete` says that a run either ends in an error or has walked the blocks without a gap or
an overlap and archived every write once, in the order of the chain, and bounds its requests.
-/

namespace P256Index.Archive

open Contract (registerSelector referSelector)
open Contract.Verify (Kind)

/-! ## Requests -/

/-- One archived write: the original transaction's raw input. -/
structure Row where
  txHash : String
  block : Nat
  txIndex : Nat
  kind : Kind
  input : String
  deriving DecidableEq

inductive Request where
  | blockNumber
  | getCode (block : Nat)
  | getLogs (fromBlock toBlock : Nat)
  | getTransactionByHash (hash : String)
  | write (rows : List Row)
  deriving DecidableEq

/-- A failed request has a text. -/
abbrev Reply : Request → Type
  | .blockNumber | .getCode _ | .getLogs _ _ | .getTransactionByHash _ => Except String Json
  | .write _ => Except String Unit

inductive ExportError where
  | request (text : String)
  | quantity (value : Json)
  | noCode (block : Nat)
  | noTransactionHash
  | unexpectedLogs (other : Json)
  | minimumChunk (text : String)
  | noInput (txHash : String)

abbrev ExportFlow := Flow Request Reply ExportError

abbrev Trace := List (Sigma Reply)

/-- `?` on the answer of a request. -/
def orFail {α : Type} : Except String α → ExportFlow α
  | .ok value => pure value
  | .error text => throw (.request text)

theorem orFail_ok_bind {α β : Type} (value : α) (f : α → ExportFlow β) :
    orFail (.ok value) >>= f = f value := rfl

theorem orFail_error_bind {α β : Type} (text : String) (f : α → ExportFlow β) :
    orFail (.error text) >>= f = throw (.request text) := rfl

/-! ## Reading answers -/

/-- `trim_start_matches("0x")`. -/
def trimMarkers : List Char → List Char
  | '0' :: 'x' :: rest => trimMarkers rest
  | cs => cs

/-- `u64::from_str_radix(.., 16)`. -/
def parseRadix16 (cs : List Char) : Option Nat :=
  let digits := match cs with
    | '+' :: rest => rest
    | cs => cs
  match digits.mapM Hex.value with
  | some values@(_ :: _) =>
      let value := values.foldl (fun n digit => 16 * n + digit) 0
      if value < 2 ^ 64 then some value else none
  | _ => none

def parseQuantity (value : Json) : Except ExportError Nat :=
  okOr (value.asStr.bind fun text => parseRadix16 (trimMarkers text.toList)) (.quantity value)

/-- `code.as_str().map(|c| c.len() > 2).unwrap_or(false)`. -/
def isCode (code : Json) : Bool := (code.asStr.map fun c => decide (2 < (utf8 c).length)).getD false

/-- The first four bytes of the input, where they are hex and all there. -/
def head (input : String) : Bytes :=
  let digits := trimMarkers input.toList
  (Hex.decodeChars (if 8 ≤ digits.length then digits.take 8 else [])).getD []

/-- Which write the input is, if it is one directly. -/
def kindOf (input : String) : Option Kind :=
  if head input = registerSelector then some .register
  else if head input = referSelector then some .refer
  else none

/-! ## The deploy block -/

def hasCode (block : Nat) : ExportFlow Bool := do
  let code ← orFail (← Flow.request (.getCode block))
  pure (isCode code)

/-- The loop of the bisection. -/
def bisect (lo hi : Nat) : ExportFlow Nat :=
  if lo < hi then do
    let mid := lo + (hi - lo) / 2
    if ← hasCode mid then bisect lo mid else bisect (mid + 1) hi
  else pure lo
  termination_by hi - lo

def findDeployBlock (latest : Nat) : ExportFlow Nat := do
  if !(← hasCode latest) then throw (.noCode latest)
  bisect 1 latest

/-! ## The logs -/

/-- The order of a `BTreeMap` over pairs. -/
def comparePosition : Nat × Nat → Nat × Nat → Ordering :=
  compareLex (compareOn Prod.fst) (compareOn Prod.snd)

/-- Transaction hashes by block and index. -/
abbrev TxMap := Std.TreeMap (Nat × Nat) String comparePosition

/-- `json["field"]`, or `null`. -/
def field (log : Json) (name : String) : Json := (log.get name).getD .null

def insertLog (txs : TxMap) (log : Json) : Except ExportError TxMap := do
  let block ← parseQuantity (field log "blockNumber")
  let index ← parseQuantity (field log "transactionIndex")
  let hash ← okOr (log.text "transactionHash") .noTransactionHash
  pure (txs.insert (block, index) hash)

/-- Starting span of a log query; a chunk is never empty. -/
def logChunk : { chunk : Nat // 0 < chunk } := ⟨100000, by decide⟩

/-- The walk over the blocks. A refused query is repeated with half the chunk, as long as that is
above the floor. Below `2 ^ 63` no sum leaves the machine word. -/
def walk (toBlock start : Nat) (chunk : { chunk : Nat // 0 < chunk }) (txs : TxMap) :
    ExportFlow TxMap :=
  if start ≤ toBlock then do
    let last := min toBlock (start + chunk.val - 1)
    let answer : Except String Json ← Flow.request (Request.getLogs start last)
    match answer with
    | .ok (.array logs) =>
        match logs.foldlM insertLog txs with
        | .ok txs => walk toBlock (last + 1) chunk txs
        | .error error => throw error
    | .ok other => throw (.unexpectedLogs other)
    | .error text =>
        if h : 500 < chunk.val then walk toBlock start ⟨chunk.val / 2, by omega⟩ txs
        else throw (.minimumChunk text)
  else pure txs
  termination_by (toBlock + 1 - start, chunk.val)
  decreasing_by
    · have := chunk.property
      exact Prod.Lex.left _ _ (by omega)
    · exact Prod.Lex.right _ (by omega)

/-! ## The rows -/

def fetchRows : List ((Nat × Nat) × String) → ExportFlow (List Row)
  | [] => pure []
  | ((block, txIndex), txHash) :: rest => do
      let tx ← orFail (← Flow.request (.getTransactionByHash txHash))
      match tx.text "input" with
      | none => throw (.noInput txHash)
      | some input =>
          match kindOf input with
          | some kind => do
              let rows ← fetchRows rest
              pure (⟨txHash, block, txIndex, kind, input⟩ :: rows)
          -- a wrapper call does not carry the write as its own calldata
          | none => fetchRows rest

def latestBlock : ExportFlow Nat := do
  match parseQuantity (← orFail (← Flow.request .blockNumber)) with
  | .ok latest => pure latest
  | .error error => throw error

/-- `export`. -/
def exportArchive (fromBlock toBlock : Option Nat) : ExportFlow Unit := do
  let latest ← latestBlock
  let toBlock := toBlock.getD latest
  let fromBlock ← match fromBlock with
    | some block => pure block
    | none => findDeployBlock toBlock
  let txs ← walk toBlock fromBlock logChunk ∅
  let rows ← fetchRows txs.toList
  orFail (← Flow.request (.write rows))

/-! ## A chain and what is true of it -/

/-- A transaction that emitted a log of the registry. -/
structure Transaction where
  block : Nat
  index : Nat
  hash : String
  input : Bytes

def Transaction.position (t : Transaction) : Nat × Nat := (t.block, t.index)

/-- One chain as far as the export asks about it: the registry has code from `deployed` on. -/
structure Chain where
  latest : Nat
  deployed : Nat
  writes : List Transaction
  positions : (writes.map Transaction.position).Nodup
  hashes : (writes.map Transaction.hash).Nodup

/-- The log names the transaction that emitted it. -/
def Names (log : Json) (t : Transaction) : Prop :=
  parseQuantity (field log "blockNumber") = .ok t.block ∧
    parseQuantity (field log "transactionIndex") = .ok t.index ∧
      log.text "transactionHash" = some t.hash

/-- The raw input as a node shows it. -/
def inputText (input : Bytes) : String := "0x" ++ Hex.encode input

/-- What is answered is so; a request may also fail. -/
def Chain.Tells (c : Chain) : Sigma Reply → Prop
  | ⟨.blockNumber, .ok answer⟩ => parseQuantity answer = .ok c.latest
  | ⟨.getCode block, .ok answer⟩ => isCode answer = true ↔ c.deployed ≤ block
  | ⟨.getLogs first last, .ok answer⟩ => ∃ logs, answer = .array logs ∧
      (∀ log ∈ logs, ∃ t ∈ c.writes, first ≤ t.block ∧ t.block ≤ last ∧ Names log t) ∧
        ∀ t ∈ c.writes, first ≤ t.block → t.block ≤ last → ∃ log ∈ logs, Names log t
  | ⟨.getTransactionByHash hash, .ok answer⟩ =>
      ∀ t ∈ c.writes, t.hash = hash → answer.text "input" = some (inputText t.input)
  | _ => True

def Chain.Truthful (c : Chain) (tr : Trace) : Prop := ∀ step ∈ tr, c.Tells step

/-! ## What a run leaves -/

/-- The range of a log query that was answered. -/
def queriedBy : Sigma Reply → Option (Nat × Nat)
  | ⟨.getLogs first last, .ok _⟩ => some (first, last)
  | _ => none

def queried (tr : Trace) : List (Nat × Nat) := tr.filterMap queriedBy

/-- The ranges stand one behind the other, from a block to the end block, none of them empty. -/
def Tiles (toBlock : Nat) : Nat → List (Nat × Nat) → Prop
  | start, [] => start = toBlock + 1
  | start, (first, last) :: rest =>
      first = start ∧ first ≤ last ∧ last ≤ toBlock ∧ Tiles toBlock (last + 1) rest

/-- Ranges of blocks that cover those from `first` to `last`: none is empty, each goes on where the
one before ends. -/
structure Covers (first last : Nat) (ranges : List (Nat × Nat)) : Prop where
  filled : ∀ range ∈ ranges, range.1 ≤ range.2
  consecutive : ranges.IsChain fun a b => b.1 = a.2 + 1
  apart : ranges.Pairwise fun a b => a.2 < b.1
  union : ∀ block, (∃ range ∈ ranges, range.1 ≤ block ∧ block ≤ range.2) ↔
    first ≤ block ∧ block ≤ last

/-- The write an input starts with. -/
def writeKind (input : Bytes) : Option Kind :=
  if registerSelector <+: input then some .register
  else if referSelector <+: input then some .refer
  else none

/-- The row of a write that is a direct call. -/
def Transaction.row (t : Transaction) : Option Row :=
  (writeKind t.input).map fun kind => ⟨t.hash, t.block, t.index, kind, inputText t.input⟩

/-- Exactly the rows of the writes in these blocks, in the order of the chain. -/
structure Archives (c : Chain) (fromBlock toBlock : Nat) (rows : List Row) : Prop where
  ordered : rows.Pairwise fun a b => a.block < b.block ∨ a.block = b.block ∧ a.txIndex < b.txIndex
  mem_iff : ∀ row, row ∈ rows ↔
    ∃ t ∈ c.writes, fromBlock ≤ t.block ∧ t.block ≤ toBlock ∧ t.row = some row

/-! ## The bisection -/

section Bisection

variable {c : Chain}

theorem Chain.Truthful.cons {step : Sigma Reply} {tr : Trace} (h : c.Truthful (step :: tr)) :
    c.Tells step ∧ c.Truthful tr := List.forall_mem_cons.mp h

theorem Chain.Truthful.append {tr tr' : Trace} (h : c.Truthful (tr ++ tr')) :
    c.Truthful tr ∧ c.Truthful tr' :=
  List.forall_mem_append.mp h

/-- A query of the code tells whether the registry is there, and is no log query. -/
theorem hasCode_ensures (block : Nat) : Flow.Ensures (hasCode block) fun tr r => c.Truthful tr →
    tr.length = 1 ∧ queried tr = [] ∧ ∀ b, r = .ok b → (b = true ↔ c.deployed ≤ block) := by
  refine Flow.ensures_request_bind.mpr fun answer => ?_
  cases answer with
  | error text =>
      rw [orFail_error_bind]
      refine Flow.ensures_throw.mpr fun _ => ⟨rfl, rfl, fun b h => ?_⟩
      cases h
  | ok code =>
      rw [orFail_ok_bind]
      refine Flow.ensures_pure.mpr fun htruth => ⟨rfl, rfl, fun b h => ?_⟩
      cases h
      exact htruth.cons.1

/-- The deploy block stays between the bounds, which halve. -/
theorem bisect_ensures (k : Nat) :
    ∀ (lo hi : Nat), lo ≤ c.deployed → c.deployed ≤ hi → hi - lo < 2 ^ k →
    Flow.Ensures (bisect lo hi) fun tr r => c.Truthful tr →
      tr.length ≤ k ∧ queried tr = [] ∧ ∀ block, r = .ok block → block = c.deployed := by
  induction k with
  | zero =>
      intro lo hi hlo hhi hsize
      rw [bisect, if_neg (by omega)]
      refine Flow.ensures_pure.mpr fun _ => ⟨le_rfl, rfl, fun block h => ?_⟩
      cases h
      omega
  | succ k ih =>
      intro lo hi hlo hhi hsize
      rw [bisect]
      split
      · next hlt =>
          refine Flow.Ensures.bind (hasCode_ensures (c := c) _) ?_ ?_
          · intro tr error h htruth
            obtain ⟨hlength, hqueried, -⟩ := h htruth
            refine ⟨by omega, hqueried, fun block hblock => ?_⟩
            cases hblock
          · intro tr found h rest r hrun htruth
            obtain ⟨hlength, hqueried, hfound⟩ := h htruth.append.1
            have hmid := hfound found rfl
            have hhalf : rest.length ≤ k ∧ queried rest = [] ∧
                ∀ block, r = .ok block → block = c.deployed := by
              cases found with
              | true => exact ih _ _ hlo (hmid.mp rfl) (by omega) rest r hrun htruth.append.2
              | false =>
                  have hbelow : ¬ c.deployed ≤ lo + (hi - lo) / 2 :=
                    fun hle => Bool.false_ne_true (hmid.mpr hle)
                  exact ih _ _ (by omega) hhi (by omega) rest r hrun htruth.append.2
            refine ⟨?_, ?_, hhalf.2.2⟩
            · rw [List.length_append]
              omega
            · rw [queried, List.filterMap_append]
              exact List.append_eq_nil_iff.mpr ⟨hqueried, hhalf.2.1⟩
      · next hge =>
          refine Flow.ensures_pure.mpr fun _ => ⟨Nat.zero_le _, rfl, fun block h => ?_⟩
          cases h
          omega

theorem findDeployBlock_ensures {latest : Nat} (hdeployed : 1 ≤ c.deployed)
    (hlatest : c.deployed ≤ latest) (hword : latest < 2 ^ 63) :
    Flow.Ensures (findDeployBlock latest) fun tr r => c.Truthful tr →
      tr.length ≤ 64 ∧ queried tr = [] ∧ ∀ block, r = .ok block → block = c.deployed := by
  refine Flow.Ensures.bind (hasCode_ensures (c := c) latest) ?_ ?_
  · intro tr error h htruth
    obtain ⟨hlength, hqueried, -⟩ := h htruth
    refine ⟨by omega, hqueried, fun block hblock => ?_⟩
    cases hblock
  · intro tr found h rest r hrun htruth
    obtain ⟨hlength, hqueried, hfound⟩ := h htruth.append.1
    obtain rfl : found = true := (hfound found rfl).mpr hlatest
    obtain ⟨hsteps, hnone, hblock⟩ :=
      bisect_ensures 63 1 latest hdeployed hlatest (by omega) rest r hrun htruth.append.2
    refine ⟨?_, ?_, hblock⟩
    · rw [List.length_append]
      omega
    · rw [queried, List.filterMap_append]
      exact List.append_eq_nil_iff.mpr ⟨hqueried, hnone⟩

end Bisection

/-! ## The walk -/

instance : Std.TransCmp comparePosition := inferInstanceAs (Std.TransCmp (compareLex _ _))

instance : Std.LawfulEqCmp comparePosition where
  eq_of_compare {a b} h := by
    simp only [comparePosition, compareLex_eq_eq, compareOn] at h
    exact Prod.ext (Std.LawfulEqOrd.eq_of_compare h.1) (Std.LawfulEqOrd.eq_of_compare h.2)

theorem comparePosition_lt {a b : Nat × Nat} (h : comparePosition a b = .lt) :
    a.1 < b.1 ∨ a.1 = b.1 ∧ a.2 < b.2 := by
  simp only [comparePosition, compareLex, compareOn, Ordering.then_eq_lt, Nat.compare_eq_lt,
    Nat.compare_eq_eq] at h
  exact h

section Walk

variable {c : Chain}

theorem Chain.eq_of_position {t t' : Transaction} (ht : t ∈ c.writes) (ht' : t' ∈ c.writes)
    (h : t.position = t'.position) : t = t' := List.inj_on_of_nodup_map c.positions ht ht' h

theorem getElem?_insert {txs : TxMap} {position other : Nat × Nat} {hash : String} :
    (txs.insert position hash)[other]? = if position = other then some hash else txs[other]? := by
  rw [Std.TreeMap.getElem?_insert]
  simp only [Std.LawfulEqCmp.compare_eq_iff_eq]

theorem insertLog_eq {txs : TxMap} {log : Json} {t : Transaction} (h : Names log t) :
    insertLog txs log = .ok (txs.insert t.position t.hash) := by
  obtain ⟨hblock, hindex, hhash⟩ := h
  refine Except.bind_eq_ok.mpr ⟨_, hblock, Except.bind_eq_ok.mpr ⟨_, hindex, ?_⟩⟩
  exact Except.bind_eq_ok.mpr ⟨_, okOr_eq_ok.mpr hhash, rfl⟩

/-- Every hash in the map is that of a write, at its own position. -/
def Sound (c : Chain) (txs : TxMap) : Prop :=
  ∀ position hash, txs[position]? = some hash →
    ∃ t ∈ c.writes, t.position = position ∧ t.hash = hash

theorem Sound.insert {txs : TxMap} (h : Sound c txs) {t : Transaction} (ht : t ∈ c.writes) :
    Sound c (txs.insert t.position t.hash) := by
  intro position hash hget
  rw [getElem?_insert] at hget
  split at hget
  · next heq => exact ⟨t, ht, heq, Option.some.inj hget⟩
  · exact h position hash hget

/-- A position has one write, so a hash is never replaced by another. -/
theorem Sound.getElem?_insert_iff {txs : TxMap} (h : Sound c txs) {t : Transaction}
    (ht : t ∈ c.writes) {position : Nat × Nat} {hash : String} :
    (txs.insert t.position t.hash)[position]? = some hash ↔
      txs[position]? = some hash ∨ t.position = position ∧ t.hash = hash := by
  rw [getElem?_insert]
  split
  · next heq =>
      constructor
      · exact fun hsome => .inr ⟨heq, Option.some.inj hsome⟩
      · rintro (hget | ⟨-, rfl⟩)
        · obtain ⟨t', ht', hposition, rfl⟩ := h position hash hget
          rw [Chain.eq_of_position ht ht' (heq.trans hposition.symm)]
        · rfl
  · next hne => exact ⟨.inl, fun hor => hor.resolve_right fun hnew => hne hnew.1⟩

/-- The logs of one answer put in the writes they name. -/
theorem foldlM_insertLog {logs : List Json} (hlogs : ∀ log ∈ logs, ∃ t ∈ c.writes, Names log t) :
    ∀ {txs : TxMap}, Sound c txs →
      ∃ txs' : TxMap, logs.foldlM insertLog txs = .ok txs' ∧ Sound c txs' ∧
      ∀ position hash, txs'[position]? = some hash ↔ txs[position]? = some hash ∨
        ∃ log ∈ logs, ∃ t ∈ c.writes, Names log t ∧ t.position = position ∧ t.hash = hash := by
  induction logs with
  | nil => exact fun {txs} h => ⟨txs, rfl, h, by simp⟩
  | cons log logs ih =>
      intro txs hsound
      obtain ⟨t, ht, hnames⟩ := hlogs log (List.mem_cons_self ..)
      obtain ⟨txs', hfold, hsound', hiff⟩ :=
        ih (fun l hl => hlogs l (List.mem_cons_of_mem log hl)) (hsound.insert ht)
      refine ⟨txs', ?_, hsound', fun position hash => ?_⟩
      · rw [List.foldlM_cons, insertLog_eq hnames]
        exact hfold
      · rw [hiff, hsound.getElem?_insert_iff ht, or_assoc]
        refine or_congr_right ?_
        simp only [List.mem_cons, exists_eq_or_imp]
        refine or_congr_left ⟨fun ⟨hposition, hhash⟩ => ⟨t, ht, hnames, hposition, hhash⟩, ?_⟩
        rintro ⟨t', -, ⟨hblock, hindex, hhash⟩, hposition, rfl⟩
        obtain ⟨hblock', hindex', hhash'⟩ := hnames
        refine ⟨?_, Option.some.inj (hhash'.symm.trans hhash)⟩
        rw [← hposition]
        exact Prod.ext (Except.ok.inj (hblock'.symm.trans hblock))
          (Except.ok.inj (hindex'.symm.trans hindex))

/-- The map holds the writes of the blocks from `first` up to, but not including, `next`. -/
def Collected (c : Chain) (first next : Nat) (txs : TxMap) : Prop :=
  ∀ position hash, txs[position]? = some hash ↔
    ∃ t ∈ c.writes, first ≤ t.block ∧ t.block < next ∧ t.position = position ∧ t.hash = hash

theorem Collected.sound {first next : Nat} {txs : TxMap} (h : Collected c first next txs) :
    Sound c txs := by
  intro position hash hget
  obtain ⟨t, ht, -, -, hposition, hhash⟩ := (h position hash).mp hget
  exact ⟨t, ht, hposition, hhash⟩

/-- One answered query extends the blocks by its range. -/
theorem Collected.extend {first start last : Nat} {txs : TxMap} {logs : List Json}
    (h : Collected c first start txs) (hfirst : first ≤ start) (hstart : start ≤ last)
    (hsound : ∀ log ∈ logs, ∃ t ∈ c.writes, start ≤ t.block ∧ t.block ≤ last ∧ Names log t)
    (hcomplete : ∀ t ∈ c.writes, start ≤ t.block → t.block ≤ last → ∃ log ∈ logs, Names log t) :
    ∃ txs' : TxMap, logs.foldlM insertLog txs = .ok txs' ∧ Collected c first (last + 1) txs' := by
  have hlogs : ∀ log ∈ logs, ∃ t ∈ c.writes, Names log t := fun log hlog =>
    let ⟨t, ht, _, _, hnames⟩ := hsound log hlog
    ⟨t, ht, hnames⟩
  obtain ⟨txs', hfold, -, hiff⟩ := foldlM_insertLog hlogs h.sound
  refine ⟨txs', hfold, fun position hash => ?_⟩
  rw [hiff, h position hash]
  constructor
  · rintro (⟨t, ht, hle, hlt, heq⟩ | ⟨log, hlog, t, ht, hnames, hposition, hhash⟩)
    · exact ⟨t, ht, hle, by omega, heq⟩
    · obtain ⟨t', ht', hle, hlt, hnames'⟩ := hsound log hlog
      have hblock : t.block = t'.block := Except.ok.inj (hnames.1.symm.trans hnames'.1)
      exact ⟨t, ht, by omega, by omega, hposition, hhash⟩
  · rintro ⟨t, ht, hle, hlt, hposition, hhash⟩
    by_cases hold : t.block < start
    · exact .inl ⟨t, ht, hle, hold, hposition, hhash⟩
    · obtain ⟨log, hlog, hnames⟩ := hcomplete t ht (by omega) (by omega)
      exact .inr ⟨log, hlog, t, ht, hnames, hposition, hhash⟩

/-- The walk, by the blocks that are left and the halvings that are left: an answer makes the first
less, a refusal the second. -/
theorem walk_ensures (toBlock first n : Nat) :
    ∀ (start k : Nat) (chunk : { chunk : Nat // 0 < chunk }) (txs : TxMap),
      toBlock + 1 - start + k ≤ n → chunk.val ≤ 500 * 2 ^ k → first ≤ start → start ≤ toBlock + 1 →
        Collected c first start txs → Flow.Ensures (walk toBlock start chunk txs) fun tr r =>
          c.Truthful tr → tr.length ≤ toBlock + 1 - start + k + 1 ∧ ∀ txs', r = .ok txs' →
            Tiles toBlock start (queried tr) ∧ Collected c first (toBlock + 1) txs' := by
  induction n with
  | zero =>
      intro start k chunk txs hmeasure _ _ hend hcollected
      rw [walk, if_neg (by omega)]
      refine Flow.ensures_pure.mpr fun _ => ⟨Nat.zero_le _, fun txs' h => ?_⟩
      cases h
      obtain rfl : start = toBlock + 1 := by omega
      exact ⟨rfl, hcollected⟩
  | succ n ih =>
      intro start k chunk txs hmeasure hchunk hfirst hend hcollected
      rw [walk]
      split
      · next hle =>
          refine Flow.ensures_request_bind.mpr fun answer => ?_
          have hpositive := chunk.property
          split
          · next logs hanswer =>
              intro tr r hrun htruth
              obtain ⟨htells, hrest⟩ := htruth.cons
              obtain ⟨logs', hlogs, hsound, hcomplete⟩ := htells
              cases hlogs
              have hlast : start ≤ min toBlock (start + chunk.val - 1) := by omega
              obtain ⟨txs', hfold, hcollected'⟩ := hcollected.extend hfirst hlast hsound hcomplete
              rw [hfold] at hrun
              obtain ⟨hlength, hdone⟩ :=
                ih _ k chunk txs' (by omega) hchunk (by omega) (by omega) hcollected'
                  tr r hrun hrest
              refine ⟨?_, fun final hfinal => ?_⟩
              · rw [List.length_cons]
                omega
              · obtain ⟨htiles, hall⟩ := hdone final hfinal
                exact ⟨⟨rfl, hlast, Nat.min_le_left _ _, htiles⟩, hall⟩
          · next other hanswer =>
              refine Flow.ensures_throw.mpr fun _ => ⟨by simp, fun txs' h => ?_⟩
              cases h
          · next text hanswer =>
              split
              · next hlarge =>
                  obtain ⟨k, rfl⟩ : ∃ j, k = j + 1 :=
                    Nat.exists_eq_succ_of_ne_zero (by rintro rfl; omega)
                  rw [Nat.pow_succ] at hchunk
                  intro tr r hrun htruth
                  obtain ⟨hlength, hdone⟩ :=
                    ih start k ⟨chunk.val / 2, _⟩ txs (by omega) (by simp only; omega) hfirst hend
                    hcollected tr r hrun htruth.cons.2
                  refine ⟨?_, hdone⟩
                  rw [List.length_cons]
                  omega
              · refine Flow.ensures_throw.mpr fun _ => ⟨by simp, fun txs' h => ?_⟩
                cases h
      · next hgt =>
          refine Flow.ensures_pure.mpr fun _ => ⟨Nat.zero_le _, fun txs' h => ?_⟩
          cases h
          obtain rfl : start = toBlock + 1 := by omega
          exact ⟨rfl, hcollected⟩

theorem Tiles.starts {toBlock start : Nat} {ranges : List (Nat × Nat)}
    (h : Tiles toBlock start ranges) : ∀ range ∈ ranges, start ≤ range.1 := by
  induction ranges generalizing start with
  | nil => exact fun range hrange => nomatch hrange
  | cons range ranges ih =>
      obtain ⟨hfirst, hfilled, -, htiles⟩ := h
      intro other hother
      rcases List.mem_cons.mp hother with rfl | hmem
      · exact hfirst.ge
      · have := ih htiles other hmem
        omega

theorem Tiles.covers {toBlock start : Nat} {ranges : List (Nat × Nat)}
    (h : Tiles toBlock start ranges) : Covers start toBlock ranges := by
  induction ranges generalizing start with
  | nil =>
      refine ⟨by simp, .nil, .nil, fun block => ?_⟩
      have hstart : start = toBlock + 1 := h
      simp only [List.not_mem_nil, false_and, exists_false, false_iff]
      omega
  | cons range ranges ih =>
      obtain ⟨hfirst, hfilled, hlast, htiles⟩ := h
      have hrest := ih htiles
      refine ⟨List.forall_mem_cons.mpr ⟨hfilled, hrest.filled⟩, ?_,
        List.pairwise_cons.mpr ⟨?_, hrest.apart⟩, ?_⟩
      · cases ranges with
        | nil => exact .singleton _
        | cons next ranges => exact .cons_cons htiles.1 hrest.consecutive
      · exact fun other hother => Nat.lt_of_succ_le (htiles.starts other hother)
      · intro block
        simp only [List.mem_cons, exists_eq_or_imp, hrest.union]
        omega

end Walk

/-! ## The archive -/

section Rows

variable {c : Chain}

theorem trimMarkers_of_digits {cs : List Char} (h : ∀ c ∈ cs, (Hex.value c).isSome) :
    trimMarkers cs = cs := by
  unfold trimMarkers
  split
  · exact absurd (h 'x' (by simp)) (by decide)
  · rfl

theorem trimMarkers_inputText (input : Bytes) :
    trimMarkers (inputText input).toList = Hex.encodeChars input := by
  rw [inputText, String.toList_append, Hex.toList_encode]
  exact trimMarkers_of_digits fun _ => Hex.value_isSome_of_mem

theorem encodeChars_take (input : Bytes) (n : Nat) :
    (Hex.encodeChars input).take (2 * n) = Hex.encodeChars (input.take n) := by
  induction input generalizing n with
  | nil => simp [Hex.encodeChars]
  | cons b input ih =>
      cases n with
      | zero => rfl
      | succ n =>
          show (Hex.byteDigits b ++ Hex.encodeChars input).take (2 * n + 2) =
              Hex.byteDigits b ++ Hex.encodeChars (input.take n)
          rw [← ih n]
          rfl

theorem head_inputText (input : Bytes) :
    head (inputText input) = if 4 ≤ input.length then input.take 4 else [] := by
  rw [head, trimMarkers_inputText, Hex.encodeChars_length]
  by_cases hlength : 4 ≤ input.length
  · rw [if_pos (by omega), if_pos hlength, encodeChars_take input 4, Hex.decodeChars_encodeChars]
    rfl
  · rw [if_neg (by omega), if_neg hlength]
    rfl

theorem head_eq_iff (input : Bytes) {selector : Bytes} (hselector : selector.length = 4) :
    head (inputText input) = selector ↔ selector <+: input := by
  rw [head_inputText, List.prefix_iff_eq_take, hselector]
  split
  · exact eq_comm
  · next hshort =>
      refine iff_of_false ?_ ?_
      · rintro rfl
        cases hselector
      · intro h
        have hlength := congrArg List.length h
        rw [hselector, List.length_take] at hlength
        omega

theorem kindOf_inputText (input : Bytes) : kindOf (inputText input) = writeKind input := by
  have hregister : registerSelector.length = 4 := rfl
  have hrefer : referSelector.length = 4 := rfl
  simp only [kindOf, writeKind, head_eq_iff input hregister, head_eq_iff input hrefer]

/-- An entry of the map is fetched as the row of its write. -/
theorem fetchRows_ensures {entries : List ((Nat × Nat) × String)}
    (hentries : ∀ entry ∈ entries, ∃ t ∈ c.writes, (t.position, t.hash) = entry) :
    Flow.Ensures (fetchRows entries) fun tr r =>
      c.Truthful tr → tr.length ≤ entries.length ∧ queried tr = [] ∧
      ∀ rows, r = .ok rows → ∃ ts : List Transaction, (∀ t ∈ ts, t ∈ c.writes) ∧
        ts.map (fun t => (t.position, t.hash)) = entries ∧ rows = ts.filterMap Transaction.row := by
  induction entries with
  | nil =>
      refine Flow.ensures_pure.mpr fun _ => ⟨le_rfl, rfl, fun rows h => ?_⟩
      cases h
      exact ⟨[], by simp, rfl, rfl⟩
  | cons entry entries ih =>
      obtain ⟨t, ht, rfl⟩ := hentries entry (List.mem_cons_self ..)
      have hrest := ih fun e he => hentries e (List.mem_cons_of_mem _ he)
      refine Flow.ensures_request_bind.mpr fun answer => ?_
      cases answer with
      | error text =>
          rw [orFail_error_bind]
          refine Flow.ensures_throw.mpr fun _ => ⟨by simp, rfl, fun rows h => ?_⟩
          cases h
      | ok tx =>
          rw [orFail_ok_bind]
          intro tr r hrun htruth
          obtain ⟨htells, htruth⟩ := htruth.cons
          have hinput : tx.text "input" = some (inputText t.input) := htells t ht rfl
          rw [hinput] at hrun
          simp only [kindOf_inputText] at hrun
          cases hkind : writeKind t.input with
          | none =>
              rw [hkind] at hrun
              obtain ⟨hlength, hqueried, hrows⟩ := hrest tr r hrun htruth
              refine ⟨Nat.succ_le_succ hlength, hqueried, fun rows h => ?_⟩
              obtain ⟨ts, hmem, hts, rfl⟩ := hrows rows h
              refine ⟨t :: ts, List.forall_mem_cons.mpr ⟨ht, hmem⟩, by rw [List.map_cons, hts], ?_⟩
              rw [List.filterMap_cons_none (by rw [Transaction.row, hkind]; rfl)]
          | some kind =>
              rw [hkind] at hrun
              rcases Flow.runs_bind.mp hrun with
                ⟨error, hfetch, rfl⟩ | ⟨tr₁, tr₂, fetched, rfl, hfetch, hdone⟩
              · obtain ⟨hlength, hqueried, -⟩ := hrest tr _ hfetch htruth
                refine ⟨Nat.succ_le_succ hlength, hqueried, fun rows h => ?_⟩
                cases h
              · obtain ⟨rfl, rfl⟩ := Flow.runs_pure.mp hdone
                rw [List.append_nil] at htruth ⊢
                obtain ⟨hlength, hqueried, hrows⟩ := hrest tr₁ _ hfetch htruth
                refine ⟨Nat.succ_le_succ hlength, hqueried, fun rows h => ?_⟩
                cases h
                obtain ⟨ts, hmem, hts, rfl⟩ := hrows fetched rfl
                refine ⟨t :: ts, List.forall_mem_cons.mpr ⟨ht, hmem⟩,
                  by rw [List.map_cons, hts], ?_⟩
                rw [List.filterMap_cons_some (by rw [Transaction.row, hkind]; rfl)]

theorem Transaction.row_position {t : Transaction} {row : Row} (h : t.row = some row) :
    row.block = t.block ∧ row.txIndex = t.index := by
  obtain ⟨kind, -, rfl⟩ := Option.map_eq_some_iff.mp h
  exact ⟨rfl, rfl⟩

/-- The rows fetched for a map of the writes of some blocks are the archive of these blocks. -/
theorem archives_of_collected {first toBlock : Nat} {txs : TxMap}
    (h : Collected c first (toBlock + 1) txs) {ts : List Transaction}
    (hmem : ∀ t ∈ ts, t ∈ c.writes) (hts : ts.map (fun t => (t.position, t.hash)) = txs.toList) :
    Archives c first toBlock (ts.filterMap Transaction.row) where
  ordered := by
    have hsorted := Std.TreeMap.ordered_keys_toList (t := txs)
    rw [← hts, List.pairwise_map] at hsorted
    refine hsorted.filterMap _ fun t t' hlt row hrow row' hrow' => ?_
    obtain ⟨hblock, hindex⟩ := Transaction.row_position hrow
    obtain ⟨hblock', hindex'⟩ := Transaction.row_position hrow'
    rw [hblock, hindex, hblock', hindex']
    exact comparePosition_lt hlt
  mem_iff := by
    have hlisted : ∀ t : Transaction, (t.position, t.hash) ∈ txs.toList ↔
        ∃ t' ∈ c.writes, first ≤ t'.block ∧ t'.block < toBlock + 1 ∧ t'.position = t.position ∧
          t'.hash = t.hash :=
      fun t => Std.TreeMap.mem_toList_iff_getElem?_eq_some.trans (h _ _)
    have hiff : ∀ t, t ∈ ts ↔ t ∈ c.writes ∧ first ≤ t.block ∧ t.block ≤ toBlock := by
      intro t
      constructor
      · intro ht
        have hentry : (t.position, t.hash) ∈ txs.toList := hts ▸ List.mem_map_of_mem ht
        obtain ⟨t', ht', hle, hlt, hposition, -⟩ := (hlisted t).mp hentry
        obtain rfl := Chain.eq_of_position ht' (hmem t ht) hposition
        exact ⟨ht', hle, Nat.le_of_lt_succ hlt⟩
      · rintro ⟨ht, hle, hlt⟩
        have hentry := (hlisted t).mpr ⟨t, ht, hle, Nat.lt_succ_of_le hlt, rfl, rfl⟩
        rw [← hts, List.mem_map] at hentry
        obtain ⟨t', ht', heq⟩ := hentry
        obtain rfl := Chain.eq_of_position (hmem t' ht') ht (Prod.mk.inj heq).1
        exact ht'
    intro row
    simp only [List.mem_filterMap, hiff, and_assoc]

theorem length_toList_le {txs : TxMap} (h : Sound c txs) : txs.toList.length ≤ c.writes.length := by
  have hnodup : (txs.toList.map Prod.fst).Nodup := by
    have hsorted := Std.TreeMap.ordered_keys_toList (t := txs)
    rw [List.Nodup, List.pairwise_map]
    refine hsorted.imp fun {a b} hlt heq => ?_
    have hself : comparePosition b.1 b.1 = .eq := Std.ReflCmp.compare_self
    rw [heq, hself] at hlt
    cases hlt
  have hsub : txs.toList.map Prod.fst ⊆ c.writes.map Transaction.position := by
    intro position hposition
    obtain ⟨entry, hentry, rfl⟩ := List.mem_map.mp hposition
    obtain ⟨t, ht, heq, -⟩ :=
      h entry.1 entry.2 (Std.TreeMap.mem_toList_iff_getElem?_eq_some.mp hentry)
    exact heq ▸ List.mem_map_of_mem ht
  simpa using (hnodup.subperm hsub).length_le

theorem latestBlock_ensures : Flow.Ensures latestBlock fun tr r => c.Truthful tr →
    tr.length = 1 ∧ queried tr = [] ∧ ∀ latest, r = .ok latest → latest = c.latest := by
  refine Flow.ensures_request_bind.mpr fun answer => ?_
  cases answer with
  | error text =>
      rw [orFail_error_bind]
      refine Flow.ensures_throw.mpr fun _ => ⟨rfl, rfl, fun latest h => ?_⟩
      cases h
  | ok value =>
      rw [orFail_ok_bind]
      intro tr r hrun htruth
      have hvalue : parseQuantity value = .ok c.latest := htruth.cons.1
      rw [hvalue] at hrun
      obtain ⟨rfl, rfl⟩ := Flow.runs_pure.mp hrun
      refine ⟨rfl, rfl, fun latest h => ?_⟩
      cases h
      rfl

end Rows

theorem exportArchive_ends (c : Chain) (hdeployed : 1 ≤ c.deployed) (toBlock : Option Nat)
    (hend : c.deployed ≤ toBlock.getD c.latest) (hword : toBlock.getD c.latest < 2 ^ 63)
    {tr : Trace} {r : Except ExportError Unit} (hrun : (exportArchive none toBlock).Runs tr r)
    (htruth : c.Truthful tr) :
    tr.length ≤ (toBlock.getD c.latest + 1 - c.deployed) + c.writes.length + 75 ∧
      ((∃ error, r = .error error) ∨ ∃ before rows, tr = before ++ [⟨.write rows, .ok ()⟩] ∧
        Covers c.deployed (toBlock.getD c.latest) (queried tr) ∧
          Archives c c.deployed (toBlock.getD c.latest) rows) := by
  generalize hlast : toBlock.getD c.latest = last at hend hword ⊢
  -- each stage either exits, or leaves what the next one needs
  rcases Flow.runs_bind.mp hrun with ⟨error, hlatest, rfl⟩ | ⟨tr₁, tr, latest, rfl, hlatest, hrun⟩
  · have hlength := (latestBlock_ensures tr _ hlatest htruth).1
    exact ⟨by omega, .inl ⟨error, rfl⟩⟩
  obtain ⟨htruth₁, htruth⟩ := htruth.append
  obtain ⟨hlength₁, hqueried₁, hvalue⟩ := latestBlock_ensures tr₁ _ hlatest htruth₁
  obtain rfl := hvalue latest rfl
  rw [hlast] at hrun
  rcases Flow.runs_bind.mp hrun with ⟨error, hdeploy, rfl⟩ | ⟨tr₂, tr, block, rfl, hdeploy, hrun⟩
  · have hlength := (findDeployBlock_ensures hdeployed hend hword tr _ hdeploy htruth).1
    refine ⟨?_, .inl ⟨error, rfl⟩⟩
    rw [List.length_append]
    omega
  obtain ⟨htruth₂, htruth⟩ := htruth.append
  obtain ⟨hlength₂, hqueried₂, hvalue⟩ :=
    findDeployBlock_ensures hdeployed hend hword tr₂ _ hdeploy htruth₂
  obtain rfl := hvalue block rfl
  have hempty : Collected c c.deployed c.deployed ∅ := by
    intro position hash
    refine iff_of_false (by simp) ?_
    rintro ⟨t, -, hle, hlt, -⟩
    omega
  have hwalks := walk_ensures last c.deployed _ c.deployed 8 logChunk ∅ le_rfl (by decide) le_rfl
    (by omega) hempty
  rcases Flow.runs_bind.mp hrun with ⟨error, hwalk, rfl⟩ | ⟨tr₃, tr, txs, rfl, hwalk, hrun⟩
  · have hlength := (hwalks tr _ hwalk htruth).1
    refine ⟨?_, .inl ⟨error, rfl⟩⟩
    rw [List.length_append, List.length_append]
    omega
  obtain ⟨htruth₃, htruth⟩ := htruth.append
  obtain ⟨hlength₃, hdone⟩ := hwalks tr₃ _ hwalk htruth₃
  obtain ⟨htiles, hcollected⟩ := hdone txs rfl
  have hentries : ∀ entry ∈ txs.toList, ∃ t ∈ c.writes, (t.position, t.hash) = entry := by
    intro entry hentry
    obtain ⟨t, ht, hposition, hhash⟩ :=
      hcollected.sound entry.1 entry.2 (Std.TreeMap.mem_toList_iff_getElem?_eq_some.mp hentry)
    exact ⟨t, ht, Prod.ext hposition hhash⟩
  have hsize := length_toList_le hcollected.sound
  rcases Flow.runs_bind.mp hrun with ⟨error, hfetch, rfl⟩ | ⟨tr₄, tr, rows, rfl, hfetch, hrun⟩
  · have hlength := (fetchRows_ensures hentries tr _ hfetch htruth).1
    refine ⟨?_, .inl ⟨error, rfl⟩⟩
    simp only [List.length_append]
    omega
  obtain ⟨hlength₄, hqueried₄, hrows⟩ := fetchRows_ensures hentries tr₄ _ hfetch htruth.append.1
  obtain ⟨ts, hmem, hts, rfl⟩ := hrows rows rfl
  obtain ⟨answer, rest, rfl, hwrite⟩ := Flow.runs_request_bind.mp hrun
  cases answer with
  | error text =>
      obtain ⟨rfl, rfl⟩ := Flow.runs_throw.mp hwrite
      refine ⟨?_, .inl ⟨_, rfl⟩⟩
      simp only [List.length_append, List.length_singleton]
      omega
  | ok done =>
      obtain ⟨rfl, rfl⟩ := Flow.runs_pure.mp hwrite
      refine ⟨?_,
        .inr ⟨tr₁ ++ (tr₂ ++ (tr₃ ++ tr₄)), _, ?_, ?_, archives_of_collected hcollected hmem hts⟩⟩
      · simp only [List.length_append, List.length_singleton]
        omega
      · simp only [List.append_assoc]
      · have hwhole :
            queried (tr₁ ++
              (tr₂ ++ (tr₃ ++ (tr₄ ++ [⟨.write (ts.filterMap Transaction.row), .ok done⟩])))) =
            queried tr₃ := by
          simp only [queried, List.filterMap_append] at hqueried₁ hqueried₂ hqueried₄ ⊢
          rw [hqueried₁, hqueried₂, hqueried₄]
          simp [queriedBy]
        rw [hwhole]
        exact htiles.covers

/-- Whatever requests fail, an export from the beginning makes a bounded number of them, and it ends
in an error or has asked for the logs of exactly the blocks from the deployment to the end, without
a gap or an overlap, and written exactly the rows of the writes in them. -/
theorem export_complete (c : Chain) (hdeployed : 1 ≤ c.deployed) (toBlock : Option Nat)
    (hend : c.deployed ≤ toBlock.getD c.latest) (hword : toBlock.getD c.latest < 2 ^ 63)
    {tr : Trace} {r : Except ExportError Unit} (hrun : (exportArchive none toBlock).Runs tr r)
    (htruth : c.Truthful tr) :
    tr.length ≤ (toBlock.getD c.latest + 1 - c.deployed) + c.writes.length + 75 ∧
      ((∃ error, r = .error error) ∨ ∃ before rows, tr = before ++ [⟨.write rows, .ok ()⟩] ∧
        Covers c.deployed (toBlock.getD c.latest) (queried tr) ∧
          Archives c c.deployed (toBlock.getD c.latest) rows) :=
  exportArchive_ends c hdeployed toBlock hend hword hrun htruth

namespace Sample

open Contract.Sample (registerData referData)

/-- The recorded history on a chain: the registry was deployed in the second block, and the two
writes are further apart than a chunk that was halved once. -/
def chain : Chain where
  latest := 75000
  deployed := 2
  writes := [⟨7, 0, "0x01", registerData⟩, ⟨60000, 3, "0x02", referData⟩]
  positions := by decide
  hashes := by decide

def registerLog : Json :=
  .object [("blockNumber", .string "0x7"), ("transactionIndex", .string "0x0"),
    ("transactionHash", .string "0x01")]

def referLog : Json :=
  .object [("blockNumber", .string "0xea60"), ("transactionIndex", .string "0x3"),
    ("transactionHash", .string "0x02")]

def rows : List Row :=
  [⟨"0x01", 7, 0, .register, inputText registerData⟩,
    ⟨"0x02", 60000, 3, .refer, inputText referData⟩]

theorem writeKind_registerData : writeKind registerData = some .register := if_pos ⟨_, rfl⟩

theorem writeKind_referData : writeKind referData = some .refer := by
  have hother : ¬ registerSelector <+: referData := by
    rintro ⟨rest, hrest⟩
    cases congrArg List.head? hrest
  exact (if_neg hother).trans (if_pos ⟨_, rfl⟩)

/-- What a node answers that knows whether there is code. -/
def codeAt (block : Nat) : Json := .string (if 2 ≤ block then "0x60" else "0x")

theorem tells_codeAt (block : Nat) : chain.Tells ⟨.getCode block, .ok (codeAt block)⟩ := by
  show isCode (codeAt block) = true ↔ 2 ≤ block
  unfold codeAt
  split
  · next h => exact iff_of_true rfl h
  · next h => exact iff_of_false (by decide) h

theorem runs_hasCode (block : Nat) :
    (hasCode block).Runs [⟨.getCode block, .ok (codeAt block)⟩] (.ok (decide (2 ≤ block))) := by
  refine Flow.runs_request_bind.mpr ⟨.ok (codeAt block), [], rfl, ?_⟩
  rw [orFail_ok_bind]
  refine Flow.runs_pure.mpr ⟨rfl, congrArg Except.ok ?_⟩
  rw [eq_comm, Bool.eq_iff_iff, decide_eq_true_eq]
  exact tells_codeAt block

/-- Such a node leads the bisection to the second block. -/
theorem exists_runs_bisect (size : Nat) : ∀ lo hi, hi - lo ≤ size → 1 ≤ lo → lo ≤ 2 → 2 ≤ hi →
    ∃ tr, (bisect lo hi).Runs tr (.ok 2) ∧ chain.Truthful tr ∧ queried tr = [] := by
  induction size with
  | zero =>
      intro lo hi hsize hone hlo hhi
      refine ⟨[], ?_, by simp [Chain.Truthful], rfl⟩
      rw [bisect, if_neg (by omega)]
      exact Flow.runs_pure.mpr ⟨rfl, congrArg Except.ok (by omega)⟩
  | succ size ih =>
      intro lo hi hsize hone hlo hhi
      by_cases hlt : lo < hi
      · have hhalf : ∃ tr,
            (if decide (2 ≤ lo + (hi - lo) / 2) = true then bisect lo (lo + (hi - lo) / 2)
            else bisect (lo + (hi - lo) / 2 + 1) hi).Runs tr (.ok 2) ∧ chain.Truthful tr ∧
              queried tr = [] := by
          by_cases hmid : 2 ≤ lo + (hi - lo) / 2
          · rw [if_pos (decide_eq_true hmid)]
            exact ih _ _ (by omega) hone hlo hmid
          · rw [if_neg (by simpa using hmid)]
            exact ih _ _ (by omega) (by omega) (by omega) hhi
        obtain ⟨tr, hrun, htruth, hqueried⟩ := hhalf
        refine ⟨⟨.getCode (lo + (hi - lo) / 2), .ok (codeAt (lo + (hi - lo) / 2))⟩ :: tr, ?_, ?_,
          hqueried⟩
        · rw [bisect, if_pos hlt]
          exact Flow.runs_bind.mpr (.inr ⟨_, tr, _, rfl, runs_hasCode _, hrun⟩)
        · exact List.forall_mem_cons.mpr ⟨tells_codeAt _, htruth⟩
      · exact ih lo hi (by omega) hone hlo hhi

/-- The first log query is refused, so that the blocks are asked about in two ranges. -/
def walked : Trace :=
  [⟨.getLogs 2 75000, .error "limit"⟩, ⟨.getLogs 2 50001, .ok (.array [registerLog])⟩,
    ⟨.getLogs 50002 75000, .ok (.array [referLog])⟩]

def entries : TxMap := ((∅ : TxMap).insert (7, 0) "0x01").insert (60000, 3) "0x02"

theorem runs_walk : (walk 75000 2 logChunk ∅).Runs walked (.ok entries) := by
  rw [walk, if_pos (by decide)]
  refine Flow.runs_request_bind.mpr ⟨.error "limit", _, rfl, ?_⟩
  show (walk 75000 2 ⟨50000, _⟩ ∅).Runs _ _
  rw [walk, if_pos (by decide)]
  refine Flow.runs_request_bind.mpr ⟨.ok (.array [registerLog]), _, rfl, ?_⟩
  show (walk 75000 50002 ⟨50000, _⟩ ((∅ : TxMap).insert (7, 0) "0x01")).Runs _ _
  rw [walk, if_pos (by decide)]
  refine Flow.runs_request_bind.mpr ⟨.ok (.array [referLog]), _, rfl, ?_⟩
  show (walk 75000 75001 ⟨50000, _⟩ entries).Runs _ _
  rw [walk, if_neg (by decide)]
  exact Flow.runs_pure.mpr ⟨rfl, rfl⟩

theorem truthful_walked : chain.Truthful walked := by
  have hregister : Names registerLog ⟨7, 0, "0x01", registerData⟩ := ⟨rfl, rfl, rfl⟩
  have hrefer : Names referLog ⟨60000, 3, "0x02", referData⟩ := ⟨rfl, rfl, rfl⟩
  refine List.forall_mem_cons.mpr ⟨trivial,
    List.forall_mem_cons.mpr ⟨?_, List.forall_mem_singleton.mpr ?_⟩⟩
  · refine ⟨[registerLog], rfl, ?_, ?_⟩
    · refine List.forall_mem_singleton.mpr ⟨_, List.mem_cons_self, ?_, ?_, hregister⟩ <;> decide
    · refine List.forall_mem_cons.mpr ⟨fun _ _ => ⟨_, List.mem_singleton_self _, hregister⟩,
        List.forall_mem_singleton.mpr fun _ hlast => absurd hlast (by decide)⟩
  · refine ⟨[referLog], rfl, ?_, ?_⟩
    · refine List.forall_mem_singleton.mpr
        ⟨_, List.mem_cons_of_mem _ List.mem_cons_self, ?_, ?_, hrefer⟩ <;> decide
    · refine List.forall_mem_cons.mpr ⟨fun hfirst => absurd hfirst (by decide),
        List.forall_mem_singleton.mpr fun _ _ => ⟨_, List.mem_singleton_self _, hrefer⟩⟩

def transaction (input : Bytes) : Json := .object [("input", .string (inputText input))]

def fetched : Trace :=
  [⟨.getTransactionByHash "0x01", .ok (transaction registerData)⟩,
    ⟨.getTransactionByHash "0x02", .ok (transaction referData)⟩]

theorem runs_fetchRow {hash : String} {block index : Nat} {input : Bytes} {kind : Kind}
    (hkind : writeKind input = some kind) {rest : List ((Nat × Nat) × String)} {tr : Trace}
    {found : List Row} (h : (fetchRows rest).Runs tr (.ok found)) :
    (fetchRows (((block, index), hash) :: rest)).Runs
      (⟨.getTransactionByHash hash, .ok (transaction input)⟩ :: tr)
      (.ok (⟨hash, block, index, kind, inputText input⟩ :: found)) := by
  refine Flow.runs_request_bind.mpr ⟨.ok (transaction input), tr, rfl, ?_⟩
  rw [orFail_ok_bind]
  have hinput : (transaction input).text "input" = some (inputText input) := rfl
  simp only [hinput, kindOf_inputText, hkind]
  exact Flow.runs_bind.mpr (.inr ⟨tr, [], found, by simp, h, Flow.runs_pure.mpr ⟨rfl, rfl⟩⟩)

theorem runs_fetch : (fetchRows entries.toList).Runs fetched (.ok rows) :=
  runs_fetchRow writeKind_registerData
    (runs_fetchRow writeKind_referData (Flow.runs_pure.mpr ⟨rfl, rfl⟩))

theorem truthful_fetched : chain.Truthful fetched := by
  refine List.forall_mem_cons.mpr ⟨?_, List.forall_mem_singleton.mpr ?_⟩
  · exact List.forall_mem_cons.mpr ⟨fun _ => rfl,
      List.forall_mem_singleton.mpr fun h => absurd h (by decide)⟩
  · exact List.forall_mem_cons.mpr ⟨fun h => absurd h (by decide),
      List.forall_mem_singleton.mpr fun _ => rfl⟩

/-- The export of the recorded history. -/
theorem exists_runs_export : ∃ before : Trace,
    (exportArchive none none).Runs (before ++ [⟨.write rows, .ok ()⟩]) (.ok ()) ∧
      chain.Truthful (before ++ [⟨.write rows, .ok ()⟩]) ∧
        queried (before ++ [⟨.write rows, .ok ()⟩]) = [(2, 50001), (50002, 75000)] := by
  obtain ⟨halving, hbisect, htruth, hqueried⟩ :=
    exists_runs_bisect 74999 1 75000 le_rfl le_rfl (by decide) (by decide)
  have hdeploy :
      (findDeployBlock 75000).Runs (⟨.getCode 75000, .ok (codeAt 75000)⟩ :: halving) (.ok 2) :=
    Flow.runs_bind.mpr (.inr ⟨_, halving, _, rfl, runs_hasCode 75000, hbisect⟩)
  refine ⟨⟨.blockNumber, .ok (.string "0x124f8")⟩ ::
    ⟨.getCode 75000, .ok (codeAt 75000)⟩ :: (halving ++ (walked ++ fetched)), ?_⟩
  simp only [List.cons_append, List.append_assoc]
  refine ⟨?_, ?_, ?_⟩
  · refine Flow.runs_bind.mpr
      (.inr ⟨[⟨.blockNumber, .ok (.string "0x124f8")⟩], _, 75000, rfl, ?_, ?_⟩)
    · exact Flow.runs_request_bind.mpr ⟨.ok (.string "0x124f8"), [], rfl,
        Flow.runs_pure.mpr ⟨rfl, rfl⟩⟩
    refine Flow.runs_bind.mpr (.inr ⟨_, _, 2, rfl, hdeploy, ?_⟩)
    refine Flow.runs_bind.mpr (.inr ⟨_, _, _, rfl, runs_walk, ?_⟩)
    refine Flow.runs_bind.mpr (.inr ⟨_, _, _, rfl, runs_fetch, ?_⟩)
    exact Flow.runs_request_bind.mpr ⟨.ok (), [], rfl, Flow.runs_pure.mpr ⟨rfl, rfl⟩⟩
  · have hcode := tells_codeAt 75000
    refine List.forall_mem_cons.mpr ⟨rfl,
      List.forall_mem_cons.mpr ⟨hcode, List.forall_mem_append.mpr ⟨htruth, ?_⟩⟩⟩
    refine List.forall_mem_append.mpr ⟨truthful_walked,
      List.forall_mem_append.mpr ⟨truthful_fetched, ?_⟩⟩
    exact List.forall_mem_singleton.mpr trivial
  · show queried (halving ++ _) = _
    rw [queried, List.filterMap_append]
    rw [queried] at hqueried
    rw [hqueried]
    rfl

end Sample

/-- The two writes of the recorded history are archived, although the first log query is refused:
the deploy block is found by bisection, and the blocks behind it are asked about in two ranges. -/
theorem export_complete_sample : ∃ tr, (exportArchive none none).Runs tr (.ok ()) ∧
    queried tr = [(2, 50001), (50002, 75000)] ∧ Covers 2 75000 (queried tr) ∧
      Archives Sample.chain 2 75000 Sample.rows := by
  obtain ⟨start, hrun, htruth, hqueried⟩ := Sample.exists_runs_export
  refine ⟨_, hrun, hqueried, ?_⟩
  obtain ⟨-, ⟨error, herror⟩ | ⟨before, rows, htrace, hcovers, harchives⟩⟩ :=
    export_complete Sample.chain (by decide) none (by decide) (by decide) hrun htruth
  · cases herror
  · cases (List.append_inj' htrace rfl).2
    exact ⟨hcovers, harchives⟩

end P256Index.Archive
