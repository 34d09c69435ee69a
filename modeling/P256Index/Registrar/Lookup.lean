import P256Index.Codec.Json
import P256Index.Interaction.Program
import P256Index.Registrar.Validate

/-!
# The lookup program

The decision half of every query endpoint: read the cache, ask for the read allowance, fetch from
the chain, fall back. The five flows of the source are one (`readThrough`), with the cache key, the
fetch, what a negative marker means, and what follows when the chain has nothing.

Which of these belongs to an endpoint depends on the key that is read alone (`driveLookup_eq`), so
one specification of `readThrough` over every answer of the shell covers all endpoints.
-/

namespace P256Index.Registrar.Lookup

/-! ## Shell protocol -/

structure LookupParams where
  publicKey : Option String
  entryId : Option String
  unitId : Option String
  groupPublicKey : Option String
  page : Option UInt64
  pageSize : Option UInt64
  order : Option String
  deriving DecidableEq

inductive LookupEndpoint where
  | query (params : LookupParams)
  | statsTotal
  | statsSites (params : LookupParams)
  | statsKeys (rpId : String) (params : LookupParams)
  deriving DecidableEq

/-- The page a client asks for, clamped. -/
structure Pagination where
  page : UInt64
  pageSize : UInt64
  descending : Bool
  deriving DecidableEq

/-- The rows a chain read asks for. -/
structure Window where
  offset : UInt64
  limit : UInt64
  descending : Bool
  deriving DecidableEq

/-- Cache identity of one rendered response. -/
inductive LookupCacheKey where
  | entriesByKey (keyHash : String) (paging : Pagination)
  | entry (entryId : UInt64)
  | unit (unitId : UInt64) (paging : Pagination)
  | group (groupKey : String) (paging : Pagination)
  | statsTotal
  | sites (paging : Pagination)
  | keys (rpId : String) (paging : Pagination)
  deriving DecidableEq

inductive ChainFetch where
  | entriesByKey (publicKey : String) (window : Window)
  | entry (entryId : UInt64)
  | groupById (unitId : UInt64) (window : Window)
  | groupByKey (groupPublicKey : String) (window : Window)
  | totals
  | sites (window : Window)
  | keys (rpId : String) (window : Window)
  deriving DecidableEq

inductive LookupOperation where
  | readCache (key : LookupCacheKey)
  | writeCache (key : LookupCacheKey) (value : Json) (negative : Bool)
  | allowRead
  | fetchChain (fetch : ChainFetch)
  | findTaskByKey (keyHash : String)

inductive LookupResult where
  | cacheFresh (value : Json)
  | cacheNegative
  | cacheStale (value : Json) (ageMs : UInt64)
  | cacheMiss
  | persisted
  | storeUnavailable
  | allowed (allowed : Bool)
  | chain (value : Json)
  | chainNotFound
  | chainFailed
  | taskFound (task : Option RegisterTask)

inductive LookupOutcome where
  | cachedOk (value : Json)
  | ok (value : Json)
  | staleOk (value : Json) (ageMs : UInt64)
  | queuePending (value : Json)
  | invalid (message : String)
  | notFound
  | readLimited
  | dependencyUnavailable (dependency : String)

abbrev LookupTrace := List ((_ : LookupOperation) × LookupResult)

abbrev LookupFlow := Flow LookupOperation (fun _ => LookupResult) LookupOutcome

def redisDown : LookupOutcome := .dependencyUnavailable "redis"

def rpcDown : LookupOutcome := .dependencyUnavailable "rpc"

/-! ## Bodies -/

def statusJson : TaskStatus → Json
  | .pending => .string "pending"
  | .done => .string "done"
  | .failed => .string "failed"

def isActivePlaceholder (task : RegisterTask) : Bool := task.status != .failed

def queuePendingBody (task : RegisterTask) (publicKey : String) : Json :=
  .object [("total", .number "0"), ("items", .array []),
    ("_queue", .object [("id", .string task.id), ("status", statusJson task.status),
      ("publicKey", .string publicKey)])]

/-- The shape of a key without a file and without a task. -/
def emptyKeyProfileBody : Json :=
  .object [("entry", .null), ("groups", .object [("total", .number "0"), ("unitIds", .array [])]),
    ("references", .object [("total", .number "0"), ("referenceIds", .array [])])]

/-! ## Parameters -/

def pagination (params : LookupParams) : Pagination where
  page := max (params.page.getD 1) 1
  pageSize := min (max (params.pageSize.getD 20) 1) 100
  descending := params.order != some "asc"

/-- `offset: (page - 1) * page_size, limit: page_size`, in machine words: a release build wraps. -/
def Pagination.window (p : Pagination) : Window where
  offset := (p.page - 1) * p.pageSize
  limit := p.pageSize
  descending := p.descending

/-- `str::parse::<u64>`: decimal digits, with a plus sign at most, that fit the word. -/
def parseU64 (text : String) : Option UInt64 :=
  let digits := match text.toList with
    | '+' :: rest => rest
    | cs => cs
  let value : Nat := digits.foldl (fun n c => 10 * n + (c.toNat - '0'.toNat)) 0
  if !digits.isEmpty && digits.all Char.isDigit && decide (value < 2 ^ 64)
    then some (UInt64.ofNat value) else none

def normalizePublicKeyParam (value : String) : Except String String := do
  let raw := stripHexMarker value.toList
  revertIf (¬ ((utf8 (String.ofList raw)).length = 130 ∧ raw.all isAsciiHexdigit = true))
    "publicKey must be an uncompressed P-256 point (04 + 128 hex chars)"
  revertIf (['0', '4'].isPrefixOf raw = false)
    "publicKey must start with the uncompressed prefix 04"
  pure (String.ofList (raw.map Char.toLower))

/-- `replacen(from, to, 1)`. -/
def replaceFirst (old new : List Char) : List Char → List Char
  | [] => []
  | c :: cs =>
      if old.isPrefixOf (c :: cs) then new ++ (c :: cs).drop old.length
        else c :: replaceFirst old new cs

/-! ## The flows -/

/-- The allowance is for cache misses only, and anything but a refusal counts as granted. -/
def allowRead : LookupFlow Unit := do
  match ← Flow.request .allowRead with
  | .allowed true => pure ()
  | .allowed false => throw .readLimited
  | _ => pure ()

/-- The second half of every flow, after a cache read that did not serve. -/
def fetchThrough (key : LookupCacheKey) (fetch : ChainFetch) (absent : LookupFlow LookupOutcome)
    (stale : Option (Json × UInt64)) : LookupFlow LookupOutcome := do
  allowRead
  match ← Flow.request (.fetchChain fetch) with
  | .chain value => do
      -- the answer to the backfill is not looked at
      let _ ← Flow.request (.writeCache key value false)
      pure (.ok value)
  | .chainNotFound => absent
  | .chainFailed =>
      match stale with
      | some (value, ageMs) => pure (.staleOk value ageMs)
      | none => throw rpcDown
  | _ => throw rpcDown

/-- What the flows share. `final` says whether a negative marker is an answer, `absent` what follows
when the chain has nothing. -/
def readThrough (key : LookupCacheKey) (fetch : ChainFetch) (final : Bool)
    (absent : LookupFlow LookupOutcome) : LookupFlow LookupOutcome := do
  match ← Flow.request (.readCache key) with
  | .cacheFresh value => pure (.cachedOk value)
  | .cacheStale value ageMs => fetchThrough key fetch absent (some (value, ageMs))
  | .cacheNegative => if final then pure .notFound else fetchThrough key fetch absent none
  | .cacheMiss => fetchThrough key fetch absent none
  | _ => throw redisDown

/-- A key without a file is answered from its placeholder, if that has not failed. -/
def placeholder (publicKey : String) (otherwise : LookupOutcome) : LookupFlow LookupOutcome := do
  match ← Flow.request (.findTaskByKey publicKey) with
  | .taskFound (some task) =>
      if isActivePlaceholder task then pure (.queuePending (queuePendingBody task publicKey))
        else pure otherwise
  | .taskFound none => pure otherwise
  | _ => throw redisDown

/-- Ids are append-only, so that there is none is worth remembering for a while. -/
def markMissing (key : LookupCacheKey) : LookupFlow LookupOutcome := do
  let _ ← Flow.request (.writeCache key .null true)
  pure .notFound

def entriesByKeyFlow (publicKey : String) (paging : Pagination) : LookupFlow LookupOutcome :=
  readThrough (.entriesByKey publicKey paging) (.entriesByKey publicKey paging.window) false
    (placeholder publicKey (.ok emptyKeyProfileBody))

def entryFlow (entryId : UInt64) : LookupFlow LookupOutcome :=
  readThrough (.entry entryId) (.entry entryId) true (markMissing (.entry entryId))

def groupByIdFlow (unitId : UInt64) (paging : Pagination) : LookupFlow LookupOutcome :=
  readThrough (.unit unitId paging) (.groupById unitId paging.window) true
    (markMissing (.unit unitId paging))

def groupByKeyFlow (groupKey : String) (paging : Pagination) : LookupFlow LookupOutcome :=
  readThrough (.group groupKey paging) (.groupByKey groupKey paging.window) false
    (placeholder groupKey .notFound)

/-- Statistics always exist; a chain that finds none is taken for down. -/
def statsFlow (key : LookupCacheKey) (fetch : ChainFetch) : LookupFlow LookupOutcome :=
  readThrough key fetch false (throw rpcDown)

def queryFlow (params : LookupParams) : LookupFlow LookupOutcome :=
  match params.entryId with
  | some entryId =>
      match parseU64 entryId with
      | some entryId => entryFlow entryId
      | none => pure (.invalid "entryId must be an unsigned integer")
  | none =>
  match params.unitId with
  | some unitId =>
      match parseU64 unitId with
      | some unitId => groupByIdFlow unitId (pagination params)
      | none => pure (.invalid "unitId must be an unsigned integer")
  | none =>
  match params.groupPublicKey with
  | some groupKey =>
      match normalizePublicKeyParam groupKey with
      | .ok groupKey => groupByKeyFlow groupKey (pagination params)
      | .error message =>
          pure (.invalid
            (String.ofList
              (replaceFirst "publicKey".toList "groupPublicKey".toList message.toList)))
  | none =>
  match params.publicKey with
  | some publicKey =>
      match normalizePublicKeyParam publicKey with
      | .ok publicKey => entriesByKeyFlow publicKey (pagination params)
      | .error message => pure (.invalid message)
  | none => pure (.invalid "publicKey, entryId, unitId or groupPublicKey is required")

def driveLookup : LookupEndpoint → LookupFlow LookupOutcome
  | .query params => queryFlow params
  | .statsTotal => statsFlow .statsTotal .totals
  | .statsSites params => statsFlow (.sites (pagination params)) (.sites (pagination params).window)
  | .statsKeys rpId params =>
      if rpId.isEmpty then pure (.invalid "rpId is required")
      else if (utf8 rpId).length > 253 then pure (.invalid "rpId exceeds max length (253)")
      else statsFlow (.keys rpId (pagination params)) (.keys rpId (pagination params).window)

/-- `Ok(outcome) | Err(outcome) => outcome`. -/
def outcome : Except LookupOutcome LookupOutcome → LookupOutcome
  | .ok out => out
  | .error out => out

/-- The program one `Start` event runs. -/
def lookup (endpoint : LookupEndpoint) :
    Prog LookupOperation (fun _ => LookupResult) LookupOutcome :=
  outcome <$> (driveLookup endpoint).run

/-! ## What belongs to a key -/

namespace LookupCacheKey

/-- Keys of rows that are found by an immutable id. -/
def byId : LookupCacheKey → Bool
  | .entry _ => true
  | .unit _ _ => true
  | _ => false

/-- The public key a lookup is for. -/
def publicKey : LookupCacheKey → Option String
  | .entriesByKey publicKey _ => some publicKey
  | .group groupKey _ => some groupKey
  | _ => none

/-- What follows when the chain has nothing for a key. -/
def absent : LookupCacheKey → LookupFlow LookupOutcome
  | .entriesByKey publicKey _ => placeholder publicKey (.ok emptyKeyProfileBody)
  | .entry entryId => markMissing (.entry entryId)
  | .unit unitId paging => markMissing (.unit unitId paging)
  | .group groupKey _ => placeholder groupKey .notFound
  | _ => throw rpcDown

end LookupCacheKey

/-- The cache key and the fetch of a request to `/api/query`, or what is wrong with it. -/
def queryOwn (params : LookupParams) : Except String (LookupCacheKey × ChainFetch) :=
  match params.entryId with
  | some entryId =>
      match parseU64 entryId with
      | some entryId => .ok (.entry entryId, .entry entryId)
      | none => .error "entryId must be an unsigned integer"
  | none =>
  match params.unitId with
  | some unitId =>
      match parseU64 unitId with
      | some unitId =>
          .ok (.unit unitId (pagination params), .groupById unitId (pagination params).window)
      | none => .error "unitId must be an unsigned integer"
  | none =>
  match params.groupPublicKey with
  | some groupKey =>
      match normalizePublicKeyParam groupKey with
      | .ok groupKey =>
          .ok (.group groupKey (pagination params), .groupByKey groupKey (pagination params).window)
      | .error message =>
          .error
            (String.ofList (replaceFirst "publicKey".toList "groupPublicKey".toList message.toList))
  | none =>
  match params.publicKey with
  | some publicKey =>
      match normalizePublicKeyParam publicKey with
      | .ok publicKey =>
          .ok (.entriesByKey publicKey (pagination params),
            .entriesByKey publicKey (pagination params).window)
      | .error message => .error message
  | none => .error "publicKey, entryId, unitId or groupPublicKey is required"

/-- The endpoint's own cache key and fetch. -/
def LookupEndpoint.own : LookupEndpoint → Except String (LookupCacheKey × ChainFetch)
  | .query params => queryOwn params
  | .statsTotal => .ok (.statsTotal, .totals)
  | .statsSites params => .ok (.sites (pagination params), .sites (pagination params).window)
  | .statsKeys rpId params =>
      if rpId.isEmpty then .error "rpId is required"
      else if (utf8 rpId).length > 253 then .error "rpId exceeds max length (253)"
      else .ok (.keys rpId (pagination params), .keys rpId (pagination params).window)

/-- Run the shared flow for an endpoint's own key. -/
def driveOwn : Except String (LookupCacheKey × ChainFetch) → LookupFlow LookupOutcome
  | .error message => pure (.invalid message)
  | .ok (key, fetch) => readThrough key fetch key.byId key.absent

theorem queryFlow_eq (params : LookupParams) : queryFlow params = driveOwn (queryOwn params) := by
  unfold queryFlow queryOwn
  cases params.entryId with
  | some entryId =>
      dsimp only
      cases parseU64 entryId <;> rfl
  | none =>
  cases params.unitId with
  | some unitId =>
      dsimp only
      cases parseU64 unitId <;> rfl
  | none =>
  cases params.groupPublicKey with
  | some groupKey =>
      dsimp only
      cases normalizePublicKeyParam groupKey <;> rfl
  | none =>
  cases params.publicKey with
  | some publicKey =>
      dsimp only
      cases normalizePublicKeyParam publicKey <;> rfl
  | none => rfl

/-- Every endpoint is refused, or it is the shared flow for its own key. -/
theorem driveLookup_eq (endpoint : LookupEndpoint) :
    driveLookup endpoint = driveOwn endpoint.own := by
  cases endpoint with
  | query params => exact queryFlow_eq params
  | statsTotal => rfl
  | statsSites params => rfl
  | statsKeys rpId params =>
      rw [driveLookup, LookupEndpoint.own]
      split
      · rfl
      · split <;> rfl

/-! ## Runs -/

/-- The cache read served nothing; `stale` is the copy it left for later. -/
def Unserved (key : LookupCacheKey) : LookupResult → Option (Json × UInt64) → Prop
  | .cacheStale value ageMs, stale => stale = some (value, ageMs)
  | .cacheNegative, stale => key.byId = false ∧ stale = none
  | .cacheMiss, stale => stale = none
  | _, _ => False

/-- The ways a run of the shared flow goes, whatever the shell answers. -/
inductive LookupRun (key : LookupCacheKey) (fetch : ChainFetch) : LookupTrace → LookupOutcome → Prop
  | fresh (value : Json) :
        LookupRun key fetch [⟨.readCache key, .cacheFresh value⟩] (.cachedOk value)
  | marked : key.byId = true → LookupRun key fetch [⟨.readCache key, .cacheNegative⟩] .notFound
  | unread (read : LookupResult) : LookupRun key fetch [⟨.readCache key, read⟩] redisDown
  | limited {read : LookupResult} {stale : Option (Json × UInt64)} : Unserved key read stale →
      LookupRun key fetch [⟨.readCache key, read⟩, ⟨.allowRead, .allowed false⟩] .readLimited
  | fetched {read allowance : LookupResult} {stale : Option (Json × UInt64)} (value : Json)
      (backfill : LookupResult) : Unserved key read stale → allowance ≠ .allowed false →
      LookupRun key fetch [⟨.readCache key, read⟩, ⟨.allowRead, allowance⟩,
        ⟨.fetchChain fetch, .chain value⟩, ⟨.writeCache key value false, backfill⟩] (.ok value)
  | missing {read allowance : LookupResult} {stale : Option (Json × UInt64)}
        (backfill : LookupResult) :
      Unserved key read stale → allowance ≠ .allowed false → key.byId = true →
      LookupRun key fetch [⟨.readCache key, read⟩, ⟨.allowRead, allowance⟩,
        ⟨.fetchChain fetch, .chainNotFound⟩, ⟨.writeCache key .null true, backfill⟩] .notFound
  | queued {read allowance : LookupResult} {stale : Option (Json × UInt64)} {publicKey : String}
      {task : RegisterTask} : Unserved key read stale → allowance ≠ .allowed false →
      key.publicKey = some publicKey → task.status ≠ .failed →
      LookupRun key fetch [⟨.readCache key, read⟩, ⟨.allowRead, allowance⟩,
        ⟨.fetchChain fetch, .chainNotFound⟩,
        ⟨.findTaskByKey publicKey, .taskFound (some task)⟩]
          (.queuePending (queuePendingBody task publicKey))
  | unqueued {read allowance : LookupResult} {stale : Option (Json × UInt64)} {publicKey : String}
      {otherwise : LookupOutcome} (found : LookupResult) :
      Unserved key read stale → allowance ≠ .allowed false → key.publicKey = some publicKey →
      otherwise = .ok emptyKeyProfileBody ∨ otherwise = .notFound ∨ otherwise = redisDown →
      LookupRun key fetch [⟨.readCache key, read⟩, ⟨.allowRead, allowance⟩,
        ⟨.fetchChain fetch, .chainNotFound⟩, ⟨.findTaskByKey publicKey, found⟩] otherwise
  | stale {read allowance : LookupResult} {value : Json} {ageMs : UInt64} :
      Unserved key read (some (value, ageMs)) → allowance ≠ .allowed false →
      LookupRun key fetch [⟨.readCache key, read⟩, ⟨.allowRead, allowance⟩,
        ⟨.fetchChain fetch, .chainFailed⟩] (.staleOk value ageMs)
  | failed {read allowance : LookupResult} {stale : Option (Json × UInt64)} (ans : LookupResult) :
      Unserved key read stale → allowance ≠ .allowed false →
      LookupRun key fetch [⟨.readCache key, read⟩, ⟨.allowRead, allowance⟩,
        ⟨.fetchChain fetch, ans⟩] rpcDown

variable {key : LookupCacheKey} {fetch : ChainFetch} {tr : LookupTrace}

theorem allowRead_runs {r : Except LookupOutcome Unit} (h : allowRead.Runs tr r) :
    ∃ allowance, tr = [⟨.allowRead, allowance⟩] ∧
      (allowance = .allowed false ∧ r = .error .readLimited ∨
        allowance ≠ .allowed false ∧ r = .ok ()) := by
  obtain ⟨allowance, rest, rfl, hrest⟩ := Flow.runs_request_bind.mp h
  refine ⟨allowance, ?_⟩
  cases allowance with
  | allowed granted =>
      cases granted with
      | false =>
          obtain ⟨rfl, rfl⟩ := Flow.runs_throw.mp hrest
          exact ⟨rfl, .inl ⟨rfl, rfl⟩⟩
      | true =>
          obtain ⟨rfl, rfl⟩ := Flow.runs_pure.mp hrest
          exact ⟨rfl, .inr ⟨by simp, rfl⟩⟩
  | _ =>
      obtain ⟨rfl, rfl⟩ := Flow.runs_pure.mp hrest
      exact ⟨rfl, .inr ⟨by simp, rfl⟩⟩

theorem placeholder_runs {publicKey : String} {otherwise : LookupOutcome}
    {r : Except LookupOutcome LookupOutcome} (h : (placeholder publicKey otherwise).Runs tr r) :
    (∃ task, tr = [⟨.findTaskByKey publicKey, .taskFound (some task)⟩] ∧ task.status ≠ .failed ∧
      outcome r = .queuePending (queuePendingBody task publicKey)) ∨
    ∃ found, tr = [⟨.findTaskByKey publicKey, found⟩] ∧
      (outcome r = otherwise ∨ outcome r = redisDown) := by
  obtain ⟨found, rest, rfl, hrest⟩ := Flow.runs_request_bind.mp h
  cases found with
  | taskFound task =>
      cases task with
      | none =>
          obtain ⟨rfl, rfl⟩ := Flow.runs_pure.mp hrest
          exact .inr ⟨_, rfl, .inl rfl⟩
      | some task =>
          dsimp only at hrest
          by_cases hactive : isActivePlaceholder task = true
          · rw [if_pos hactive] at hrest
            obtain ⟨rfl, rfl⟩ := Flow.runs_pure.mp hrest
            have hstatus : task.status ≠ .failed := by simpa [isActivePlaceholder] using hactive
            exact .inl ⟨task, rfl, hstatus, rfl⟩
          · rw [if_neg hactive] at hrest
            obtain ⟨rfl, rfl⟩ := Flow.runs_pure.mp hrest
            exact .inr ⟨_, rfl, .inl rfl⟩
  | _ =>
      obtain ⟨rfl, rfl⟩ := Flow.runs_throw.mp hrest
      exact .inr ⟨_, rfl, .inr rfl⟩

theorem markMissing_runs {r : Except LookupOutcome LookupOutcome}
    (h : (markMissing key).Runs tr r) :
    ∃ backfill, tr = [⟨.writeCache key .null true, backfill⟩] ∧ outcome r = .notFound := by
  obtain ⟨backfill, rest, rfl, hrest⟩ := Flow.runs_request_bind.mp h
  obtain ⟨rfl, rfl⟩ := Flow.runs_pure.mp hrest
  exact ⟨backfill, rfl, rfl⟩

/-- After the chain said that there is nothing. -/
theorem absent_runs {read allowance : LookupResult} {stale : Option (Json × UInt64)}
    (hread : Unserved key read stale) (hallow : allowance ≠ .allowed false)
    {r : Except LookupOutcome LookupOutcome} (h : key.absent.Runs tr r) :
    LookupRun key fetch (⟨.readCache key, read⟩ :: ⟨.allowRead, allowance⟩ ::
      ⟨.fetchChain fetch, .chainNotFound⟩ :: tr) (outcome r) := by
  -- the two flows with a placeholder differ in what a key without one is answered
  have hplaceholder : ∀ {publicKey : String} {otherwise : LookupOutcome},
      key.publicKey = some publicKey → otherwise = .ok emptyKeyProfileBody ∨ otherwise = .notFound →
      (placeholder publicKey otherwise).Runs tr r →
        LookupRun key fetch (⟨.readCache key, read⟩ :: ⟨.allowRead, allowance⟩ ::
          ⟨.fetchChain fetch, .chainNotFound⟩ :: tr) (outcome r) := by
    intro publicKey otherwise hkey hother hrun
    rcases placeholder_runs hrun with ⟨task, rfl, hstatus, hout⟩ | ⟨found, rfl, hout⟩
    · rw [hout]
      exact .queued hread hallow hkey hstatus
    · refine .unqueued found hread hallow hkey ?_
      rcases hout with hout | hout
      · rw [hout]
        exact hother.imp_right .inl
      · exact .inr (.inr hout)
  have hmissing : key.byId = true → (markMissing key).Runs tr r →
      LookupRun key fetch (⟨.readCache key, read⟩ :: ⟨.allowRead, allowance⟩ ::
        ⟨.fetchChain fetch, .chainNotFound⟩ :: tr) (outcome r) := by
    intro hid hrun
    obtain ⟨backfill, rfl, hout⟩ := markMissing_runs hrun
    rw [hout]
    exact .missing backfill hread hallow hid
  have hstats : (throw rpcDown : LookupFlow LookupOutcome).Runs tr r →
      LookupRun key fetch (⟨.readCache key, read⟩ :: ⟨.allowRead, allowance⟩ ::
        ⟨.fetchChain fetch, .chainNotFound⟩ :: tr) (outcome r) := by
    intro hrun
    obtain ⟨rfl, rfl⟩ := Flow.runs_throw.mp hrun
    exact .failed _ hread hallow
  cases key with
  | entriesByKey publicKey paging => exact hplaceholder rfl (.inl rfl) h
  | entry entryId => exact hmissing rfl h
  | unit unitId paging => exact hmissing rfl h
  | group groupKey paging => exact hplaceholder rfl (.inr rfl) h
  | statsTotal => exact hstats h
  | sites paging => exact hstats h
  | keys rpId paging => exact hstats h

/-- After a cache read that did not serve. -/
theorem fetchThrough_runs {read : LookupResult} {stale : Option (Json × UInt64)}
    (hread : Unserved key read stale) {r : Except LookupOutcome LookupOutcome}
    (h : (fetchThrough key fetch key.absent stale).Runs tr r) :
    LookupRun key fetch (⟨.readCache key, read⟩ :: tr) (outcome r) := by
  rcases Flow.runs_bind.mp h with ⟨exit, hexit, rfl⟩ | ⟨tr₁, tr₂, _, rfl, hgranted, hrest⟩
  · obtain ⟨allowance, rfl, ⟨rfl, hr⟩ | ⟨-, hr⟩⟩ := allowRead_runs hexit
    · cases hr
      exact .limited hread
    · cases hr
  obtain ⟨allowance, rfl, ⟨-, hr⟩ | ⟨hallow, -⟩⟩ := allowRead_runs hgranted
  · cases hr
  obtain ⟨ans, rest, rfl, hafter⟩ := Flow.runs_request_bind.mp hrest
  cases ans with
  | chain value =>
      obtain ⟨backfill, rest, rfl, hend⟩ := Flow.runs_request_bind.mp hafter
      obtain ⟨rfl, rfl⟩ := Flow.runs_pure.mp hend
      exact .fetched value backfill hread hallow
  | chainNotFound => exact absent_runs hread hallow hafter
  | chainFailed =>
      cases stale with
      | some copy =>
          obtain ⟨rfl, rfl⟩ := Flow.runs_pure.mp hafter
          exact .stale hread hallow
      | none =>
          obtain ⟨rfl, rfl⟩ := Flow.runs_throw.mp hafter
          exact .failed _ hread hallow
  | _ =>
      obtain ⟨rfl, rfl⟩ := Flow.runs_throw.mp hafter
      exact .failed _ hread hallow

theorem readThrough_runs {r : Except LookupOutcome LookupOutcome}
    (h : (readThrough key fetch key.byId key.absent).Runs tr r) :
    LookupRun key fetch tr (outcome r) := by
  obtain ⟨read, rest, rfl, hrest⟩ := Flow.runs_request_bind.mp h
  cases read with
  | cacheFresh value =>
      obtain ⟨rfl, rfl⟩ := Flow.runs_pure.mp hrest
      exact .fresh value
  | cacheStale value ageMs =>
      have hread : Unserved key (.cacheStale value ageMs) (some (value, ageMs)) := rfl
      exact fetchThrough_runs hread hrest
  | cacheMiss =>
      have hread : Unserved key .cacheMiss none := rfl
      exact fetchThrough_runs hread hrest
  | cacheNegative =>
      dsimp only at hrest
      by_cases hid : key.byId = true
      · rw [if_pos hid] at hrest
        obtain ⟨rfl, rfl⟩ := Flow.runs_pure.mp hrest
        exact .marked hid
      · rw [if_neg hid] at hrest
        have hread : Unserved key .cacheNegative none := ⟨by simpa using hid, rfl⟩
        exact fetchThrough_runs hread hrest
  | _ =>
      obtain ⟨rfl, rfl⟩ := Flow.runs_throw.mp hrest
      exact .unread _

/-- A run of the lookup program is a refusal, or a run of the shared flow for the endpoint's own
key. -/
theorem lookup_runs {endpoint : LookupEndpoint} {out : LookupOutcome}
    (h : (lookup endpoint).Runs tr out) :
    (∃ message, endpoint.own = .error message ∧ tr = [] ∧ out = .invalid message) ∨
      ∃ key fetch, endpoint.own = .ok (key, fetch) ∧ LookupRun key fetch tr out := by
  obtain ⟨r, hrun, rfl⟩ := Prog.runs_map.mp h
  change (driveLookup endpoint).Runs tr r at hrun
  rw [driveLookup_eq] at hrun
  cases hown : endpoint.own with
  | error message =>
      rw [hown] at hrun
      obtain ⟨rfl, rfl⟩ := Flow.runs_pure.mp hrun
      exact .inl ⟨message, rfl, rfl, rfl⟩
  | ok own =>
      rw [hown] at hrun
      exact .inr ⟨own.1, own.2, rfl, readThrough_runs hrun⟩

/-! ## What is served and what is cached -/

def LookupOperation.isFetch : LookupOperation → Bool
  | .fetchChain _ => true
  | _ => false

def LookupOperation.isWrite : LookupOperation → Bool
  | .writeCache _ _ _ => true
  | _ => false

/-- What an outcome may say after a run that read this key. -/
def Served (key : LookupCacheKey) (fetch : ChainFetch) (tr : LookupTrace) : LookupOutcome → Prop
  | .cachedOk value => ⟨.readCache key, .cacheFresh value⟩ ∈ tr
  | .ok value => ⟨.fetchChain fetch, .chain value⟩ ∈ tr ∨
      value = emptyKeyProfileBody ∧ ⟨.fetchChain fetch, .chainNotFound⟩ ∈ tr
  | .queuePending value =>
        ∃ publicKey task, key.publicKey = some publicKey ∧ task.status ≠ .failed ∧
      value = queuePendingBody task publicKey ∧
        List.Sublist [⟨.fetchChain fetch, .chainNotFound⟩,
          ⟨.findTaskByKey publicKey, .taskFound (some task)⟩] tr
  | .staleOk value ageMs =>
      List.Sublist [⟨.readCache key, .cacheStale value ageMs⟩, ⟨.fetchChain fetch, .chainFailed⟩] tr
  | _ => True

/-- What the cache and the chain may be asked on the way to an answer. -/
structure Sound (key : LookupCacheKey) (fetch : ChainFetch) (tr : LookupTrace)
    (out : LookupOutcome) : Prop where
  one_fetch : (tr.filter fun step => step.1.isFetch).length ≤ 1
  fetch_after : ∀ before asked ans after, tr = before ++ ⟨.fetchChain asked, ans⟩ :: after →
    asked = fetch ∧ ∃ read allowance, before = [⟨.readCache key, read⟩, ⟨.allowRead, allowance⟩] ∧
      (∀ value, read ≠ .cacheFresh value) ∧ (key.byId = true → read ≠ .cacheNegative) ∧
        allowance ≠ .allowed false
  served : Served key fetch tr out
  positive : ∀ written value ans, ⟨.writeCache written value false, ans⟩ ∈ tr →
    written = key ∧ ⟨.fetchChain fetch, .chain value⟩ ∈ tr
  negative : ∀ written value ans, ⟨.writeCache written value true, ans⟩ ∈ tr →
    written = key ∧ key.byId = true ∧ ⟨.fetchChain fetch, .chainNotFound⟩ ∈ tr
  failure : ∀ asked, ⟨.fetchChain asked, .chainFailed⟩ ∈ tr →
    ∀ written value marker ans, ⟨.writeCache written value marker, ans⟩ ∉ tr

theorem Unserved.not_fresh {read : LookupResult} {stale : Option (Json × UInt64)}
    (h : Unserved key read stale) (value : Json) : read ≠ .cacheFresh value := by
  rintro rfl
  exact h

theorem Unserved.not_negative {read : LookupResult} {stale : Option (Json × UInt64)}
    (h : Unserved key read stale) (hid : key.byId = true) : read ≠ .cacheNegative := by
  rintro rfl
  exact absurd (hid.symm.trans h.1) (by decide)

theorem Unserved.eq_stale {read : LookupResult} {value : Json} {ageMs : UInt64}
    (h : Unserved key read (some (value, ageMs))) : read = .cacheStale value ageMs := by
  cases read with
  | cacheStale value' ageMs' =>
      cases h
      rfl
  | cacheNegative => cases h.2
  | cacheMiss => cases h
  | _ => exact h.elim

/-- The only fetch of a run stands third. -/
theorem fetch_third {read allowance ans : LookupResult} {stale : Option (Json × UInt64)}
    {rest : LookupTrace} (hread : Unserved key read stale) (hallow : allowance ≠ .allowed false)
    (hrest : ∀ step ∈ rest, step.1.isFetch = false) :
    ∀ before asked ans' after,
      (⟨.readCache key, read⟩ :: ⟨.allowRead, allowance⟩ :: ⟨.fetchChain fetch, ans⟩ :: rest :
        LookupTrace) = before ++ ⟨.fetchChain asked, ans'⟩ :: after →
      asked = fetch ∧ ∃ read allowance, before = [⟨.readCache key, read⟩, ⟨.allowRead, allowance⟩] ∧
        (∀ value, read ≠ .cacheFresh value) ∧ (key.byId = true → read ≠ .cacheNegative) ∧
          allowance ≠ .allowed false := by
  intro before asked ans' after hsplit
  match before, hsplit with
  | [], hsplit => simp at hsplit
  | [_], hsplit => simp at hsplit
  | [first, second], hsplit =>
      simp only [List.cons_append, List.nil_append, List.cons.injEq, Sigma.mk.injEq,
        LookupOperation.fetchChain.injEq] at hsplit
      obtain ⟨rfl, rfl, ⟨rfl, -⟩, -⟩ := hsplit
      exact ⟨rfl, read, allowance, rfl, hread.not_fresh, hread.not_negative, hallow⟩
  | first :: second :: third :: before, hsplit =>
      simp only [List.cons_append, List.cons.injEq] at hsplit
      obtain ⟨-, -, -, hrest'⟩ := hsplit
      have hmem : (⟨.fetchChain asked, ans'⟩ : (_ : LookupOperation) × LookupResult) ∈ rest := by
        rw [hrest']
        simp
      exact absurd (hrest _ hmem) (by simp [LookupOperation.isFetch])

theorem not_mem_of_isWrite {tr : LookupTrace} (h : ∀ step ∈ tr, step.1.isWrite = false)
    (written : LookupCacheKey) (value : Json) (marker : Bool) (ans : LookupResult) :
    ⟨.writeCache written value marker, ans⟩ ∉ tr := by
  intro hmem
  have hwrite := h _ hmem
  simp [LookupOperation.isWrite] at hwrite

namespace Sound

variable {out : LookupOutcome} {read allowance ans : LookupResult} {stale : Option (Json × UInt64)}
  {rest : LookupTrace}

/-- A run that stops before the chain is asked. -/
theorem of_quiet (hfetch : ∀ step ∈ tr, step.1.isFetch = false)
    (hwrite : ∀ step ∈ tr, step.1.isWrite = false) (hserved : Served key fetch tr out) :
    Sound key fetch tr out where
  one_fetch := by
    rw [List.filter_eq_nil_iff.mpr fun step hstep => by simp [hfetch step hstep]]
    exact Nat.zero_le 1
  fetch_after before asked ans after hsplit := by
    have hmem := hfetch ⟨.fetchChain asked, ans⟩ (by rw [hsplit]; simp)
    simp [LookupOperation.isFetch] at hmem
  served := hserved
  positive written value ans hmem := absurd hmem (not_mem_of_isWrite hwrite _ _ _ _)
  negative written value ans hmem := absurd hmem (not_mem_of_isWrite hwrite _ _ _ _)
  failure _ _ written value marker ans := not_mem_of_isWrite hwrite _ _ _ _

/-- A run that asks the chain, as far as its writes are accounted for. -/
theorem of_fetch (hread : Unserved key read stale) (hallow : allowance ≠ .allowed false)
    (hfetch : ∀ step ∈ rest, step.1.isFetch = false)
    (hserved : Served key fetch
      (⟨.readCache key, read⟩ :: ⟨.allowRead, allowance⟩ :: ⟨.fetchChain fetch, ans⟩ :: rest) out)
    (hwrite : ∀ written value marker backfill, ⟨.writeCache written value marker, backfill⟩ ∈ rest →
      written = key ∧ (marker = false ∧ ans = .chain value ∨
        marker = true ∧ key.byId = true ∧ ans = .chainNotFound)) :
    Sound key fetch (⟨.readCache key, read⟩ :: ⟨.allowRead, allowance⟩ ::
      ⟨.fetchChain fetch, ans⟩ :: rest) out := by
  have hmem : ∀ {written value marker backfill}, ⟨.writeCache written value marker, backfill⟩ ∈
      (⟨.readCache key, read⟩ :: ⟨.allowRead, allowance⟩ :: ⟨.fetchChain fetch, ans⟩ ::
        rest : LookupTrace) → written = key ∧ (marker = false ∧ ans = .chain value ∨
          marker = true ∧ key.byId = true ∧ ans = .chainNotFound) := by
    intro written value marker backfill h
    exact hwrite written value marker backfill (by simpa using h)
  have hone :
      ((⟨.readCache key, read⟩ :: ⟨.allowRead, allowance⟩ :: ⟨.fetchChain fetch, ans⟩ :: rest :
      LookupTrace).filter fun step => step.1.isFetch).length ≤ 1 := by
    have hnone : rest.filter (fun step => step.1.isFetch) = [] :=
      List.filter_eq_nil_iff.mpr fun step hstep => by simp [hfetch step hstep]
    rw [List.filter_cons_of_neg Bool.false_ne_true, List.filter_cons_of_neg Bool.false_ne_true,
      List.filter_cons_of_pos rfl, hnone]
    exact le_rfl
  refine ⟨hone, fetch_third hread hallow hfetch, hserved, ?_, ?_, ?_⟩
  · intro written value backfill h
    obtain ⟨hkey, ⟨-, rfl⟩ | ⟨hmarker, -⟩⟩ := hmem h
    · exact ⟨hkey, by simp⟩
    · cases hmarker
  · intro written value backfill h
    obtain ⟨hkey, ⟨hmarker, -⟩ | ⟨-, hid, rfl⟩⟩ := hmem h
    · cases hmarker
    · exact ⟨hkey, hid, by simp⟩
  · intro asked hfailed written value marker backfill h
    -- the answer to the one fetch is not a failure if something was written
    have hans : ans = .chainFailed := by
      rcases List.mem_cons.mp hfailed with h₁ | h₁
      · cases h₁
      rcases List.mem_cons.mp h₁ with h₂ | h₂
      · cases h₂
      rcases List.mem_cons.mp h₂ with h₃ | h₃
      · cases h₃
        rfl
      · have hnot := hfetch _ h₃
        simp [LookupOperation.isFetch] at hnot
    obtain ⟨-, ⟨-, hchain⟩ | ⟨-, -, hmissing⟩⟩ := hmem h
    · rw [hans] at hchain
      cases hchain
    · rw [hans] at hmissing
      cases hmissing

end Sound

theorem LookupRun.sound {out : LookupOutcome} (h : LookupRun key fetch tr out) :
    Sound key fetch tr out := by
  cases h with
  | fresh value =>
      apply Sound.of_quiet (by simp [LookupOperation.isFetch]) (by simp [LookupOperation.isWrite])
      exact List.mem_cons_self
  | marked hid =>
      exact .of_quiet (by simp [LookupOperation.isFetch])
        (by simp [LookupOperation.isWrite]) trivial
  | unread read =>
      exact .of_quiet (by simp [LookupOperation.isFetch])
        (by simp [LookupOperation.isWrite]) trivial
  | limited hread =>
      exact .of_quiet (by simp [LookupOperation.isFetch])
        (by simp [LookupOperation.isWrite]) trivial
  | fetched value backfill hread hallow =>
      apply Sound.of_fetch hread hallow (by simp [LookupOperation.isFetch])
      · exact .inl (by simp)
      · intro written value' marker ans hmem
        cases List.mem_singleton.mp hmem
        exact ⟨rfl, .inl ⟨rfl, rfl⟩⟩
  | missing backfill hread hallow hid =>
      apply Sound.of_fetch hread hallow (by simp [LookupOperation.isFetch])
      · trivial
      · intro written value' marker ans hmem
        cases List.mem_singleton.mp hmem
        exact ⟨rfl, .inr ⟨rfl, hid, rfl⟩⟩
  | queued hread hallow hkey hstatus =>
      apply Sound.of_fetch hread hallow (by simp [LookupOperation.isFetch])
      · exact ⟨_, _, hkey, hstatus, rfl, by simp⟩
      · simp
  | unqueued found hread hallow hkey hother =>
      apply Sound.of_fetch hread hallow (by simp [LookupOperation.isFetch])
      · rcases hother with rfl | rfl | rfl
        · exact .inr ⟨rfl, by simp⟩
        · trivial
        · trivial
      · simp
  | stale hread hallow =>
      have hcopy := hread.eq_stale
      subst hcopy
      apply Sound.of_fetch hread hallow (by simp)
      · exact ((List.Sublist.refl _).cons _).cons_cons _
      · simp
  | failed ans hread hallow => exact .of_fetch hread hallow (by simp) trivial (by simp)

/-- Every endpoint, whatever the shell answers. A request is refused without a question, or the
endpoint's own key is read and its own fetch made, as `Sound` says: at most one fetch, and only
after a cache read that did not serve and an allowance that was not refused; an answer that was read
fresh, fetched, queued, empty, or stale after a failed fetch; and a cache that takes what was
fetched under the key that was read, negative markers for ids only, and nothing from a failure. -/
theorem lookup_sound {endpoint : LookupEndpoint} {out : LookupOutcome}
    (h : (lookup endpoint).Runs tr out) :
    (∃ message, endpoint.own = .error message ∧ tr = [] ∧ out = .invalid message) ∨
      ∃ key fetch, endpoint.own = .ok (key, fetch) ∧ Sound key fetch tr out := by
  rcases lookup_runs h with hrefused | ⟨key, fetch, hown, hrun⟩
  · exact .inl hrefused
  · exact .inr ⟨key, fetch, hown, hrun.sound⟩

def LookupParams.none : LookupParams where
  publicKey := .none
  entryId := .none
  unitId := .none
  groupPublicKey := .none
  page := .none
  pageSize := .none
  order := .none

/-- An entry that is not there: the limiter is down, which counts as a grant, and the miss is
remembered. -/
theorem lookup_sound_missing :
    Sound (.entry 7) (.entry 7) [⟨.readCache (.entry 7), .cacheMiss⟩,
      ⟨.allowRead, .storeUnavailable⟩,
      ⟨.fetchChain (.entry 7), .chainNotFound⟩, ⟨.writeCache (.entry 7) .null true, .persisted⟩]
        .notFound := by
  have hown : (LookupEndpoint.query { LookupParams.none with entryId := some "7" }).own =
      .ok (.entry 7, .entry 7) := by decide
  have hrun : (lookup (.query { LookupParams.none with entryId := some "7" })).Runs
      [⟨.readCache (.entry 7), .cacheMiss⟩, ⟨.allowRead, .storeUnavailable⟩,
        ⟨.fetchChain (.entry 7), .chainNotFound⟩, ⟨.writeCache (.entry 7) .null true, .persisted⟩]
          .notFound := by
    rw [lookup, driveLookup_eq, hown]
    exact .ask (.ask (.ask (.ask (.done _))))
  rcases lookup_sound hrun with ⟨message, hrefused, -⟩ | ⟨key, fetch, hkey, hsound⟩
  · rw [hown] at hrefused
    cases hrefused
  · rw [hown] at hkey
    cases hkey
    exact hsound

end P256Index.Registrar.Lookup
