import DnsRs.Cache.State

/-!
# The operations of the response cache

The public methods of `ResponseCache`, each as one critical section of its
mutex. The readings of the clock are arguments, in the order in which the
method takes them, and so is the number of refresh permits that are free.
`Op` and `apply` put the methods behind one type, for runs of them.
-/

namespace DnsRs.Cache

open Lib Wire

variable {RecordType DNSClass Heap : Type} [DecidableEq RecordType] [DecidableEq DNSClass]

structure ResponseCache (RecordType DNSClass Heap : Type) where
  enabled : Bool
  state : CacheState RecordType DNSClass Heap

namespace ResponseCache

/-- `ResponseCache::new` -/
def new (env : Env RecordType DNSClass Heap) (enabled : Bool) (maxSizeBytes : Nat) :
    ResponseCache RecordType DNSClass Heap :=
  let enabled := enabled && maxSizeBytes ≥ minPoolBytes
  let size := if enabled then maxSizeBytes else 0
  { enabled := enabled
    state :=
      { pool := List.replicate size 0
        heap := env.alloc.new size
        table := List.replicate 64 .empty
        tableLen := 0
        tombstones := 0
        entries := []
        freeEntries := []
        lruHead := noEntry
        lruTail := noEntry
        log := [] } }

/-! ## Lookup -/

/-- The seconds by which a record has aged at `now`. -/
def elapsedSecs (originalTtl expiresAt now : Nat) : Nat :=
  min ((originalTtl - (expiresAt - now)) / second) (2 ^ 32 - 1)

/-- A lookup claims the refresh of a stale or nearly expired entry. -/
def shouldRefresh (m : EntryMeta RecordType DNSClass) (now : Nat) : Bool :=
  !m.refreshClaimed && decide (m.retryAfter ≤ now) &&
    (decide (m.expiresAt ≤ now) || decide (m.expiresAt - now ≤ m.originalTtl / 10))

/-- What a hit does to the entry's bookkeeping. -/
def markHit (now : Nat) (refresh : Bool) (m : EntryMeta RecordType DNSClass) :
    EntryMeta RecordType DNSClass :=
  { m with lastUsed := now, reused := true, refreshClaimed := m.refreshClaimed || refresh }

/-- The part of `get_with_flags` after a live entry was found. -/
def hit (st : CacheState RecordType DNSClass Heap) (entry now : Nat) :
    Except Fault (Option (Bytes × Bool × Bool) × CacheState RecordType DNSClass Heap) := do
  let st ← st.touch entry
  let m ← st.entry entry
  let stale := decide (m.expiresAt ≤ now)
  let refresh := shouldRefresh m now
  let st ← st.modifyEntry entry (markHit now refresh)
  let wireStart := m.offset + m.nameLen
  let wire ← slice st.pool wireStart (wireStart + m.wireLen)
  let (_, wire) ← ageTtls wire (elapsedSecs m.originalTtl m.expiresAt now) stale
  return (some (wire, refresh, stale),
    { st with log := .hit (CacheState.keyOf st.pool m) :: st.log })

/-- The wire bytes, whether the caller is to refresh them and whether they are
stale. -/
def getWithFlags (env : Env RecordType DNSClass Heap) (c : ResponseCache RecordType DNSClass Heap)
    (key : Key RecordType DNSClass) (now : Nat) :
    Except Fault (Option (Bytes × Bool × Bool) × ResponseCache RecordType DNSClass Heap) := do
  if !c.enabled || key.name.length > maxNameLen then return (none, c)
  else do
    match ← c.state.locate (env.keyHash key) key with
    | .vacant _ => return (none, c)
    | .found entry => do
      let m ← c.state.entry entry
      if m.staleUntil ≤ now then do
        let st ← c.state.evict env entry .expired
        return (none, { c with state := st })
      else do
        let (found, st) ← hit c.state entry now
        return (found, { c with state := st })

/-! ## Insertion -/

/-- The allocation loop of `insert_with_flags`: evict from the tail until the
allocation succeeds or nothing is left. -/
def allocateLoop (env : Env RecordType DNSClass Heap) (size : Nat) :
    Nat → CacheState RecordType DNSClass Heap →
      Except Fault (Option Nat × CacheState RecordType DNSClass Heap)
  | 0, _ => .error .hang
  | fuel + 1, st =>
    match env.alloc.allocateFirstFit st.heap size with
    | some (offset, heap) => .ok (some offset, { st with heap := heap })
    | none => do
      let (evicted, st) ← st.evictOneForSpace env
      if evicted then allocateLoop env size fuel st else return (none, st)

/-- The three copies into the arena. -/
def copyIn (pool : Bytes) (offset : Nat) (name wire request : Bytes) : Except Fault Bytes := do
  let pool ← overwrite pool offset (offset + name.length) name
  let pool ← overwrite pool (offset + name.length) (offset + name.length + wire.length) wire
  overwrite pool (offset + name.length + wire.length)
    (offset + name.length + wire.length + request.length) request

/-- The key is evicted if it is there; its last use and whether it was reused
are carried over. -/
def replace (env : Env RecordType DNSClass Heap) (st : CacheState RecordType DNSClass Heap)
    (key : Key RecordType DNSClass) (now : Nat) :
    Except Fault (Nat × Bool × CacheState RecordType DNSClass Heap) := do
  match ← st.locate (env.keyHash key) key with
  | .vacant _ => return (now, false, st)
  | .found entry => do
    let m ← st.entry entry
    let st ← st.evict env entry .replaced
    return (m.lastUsed, m.reused, st)

/-- The new entry's slot: the first free one on the path of its key. -/
def enterTable (env : Env RecordType DNSClass Heap) (st : CacheState RecordType DNSClass Heap)
    (key : Key RecordType DNSClass) (entry : Nat) :
    Except Fault (CacheState RecordType DNSClass Heap) := do
  let hash := env.keyHash key
  match ← st.locate hash key with
  | .found _ => .error .panic -- existing entry was evicted before insert
  | .vacant slot => do
    match st.table[slot]? with
    | none => .error .panic
    | some old =>
      if old.entry = tombstone ∧ st.tombstones = 0 then .error .panic
      else
        let st := { st with
          tombstones := if old.entry = tombstone then st.tombstones - 1 else st.tombstones }
        st.place slot hash entry

/-- The part of `insert_with_flags` after the allocation. -/
def store (env : Env RecordType DNSClass Heap) (st : CacheState RecordType DNSClass Heap)
    (key : Key RecordType DNSClass) (record : Record) (offset lastUsed retryAfter : Nat)
    (reused : Bool) : Except Fault (CacheState RecordType DNSClass Heap) := do
  let pool ← copyIn st.pool offset key.name record.wire record.request
  let (entry, st) ← { st with pool := pool }.allocEntry
    { offset := offset
      nameLen := key.name.length % 2 ^ 16
      wireLen := record.wire.length % 2 ^ 32
      requestLen := record.request.length
      recordType := key.recordType
      dnsClass := key.dnsClass
      flags := key.flags
      expiresAt := record.expiresAt
      staleUntil := record.staleUntil
      originalTtl := record.originalTtl
      lastUsed := lastUsed
      retryAfter := retryAfter
      reused := reused
      refreshFailures := 0
      refreshClaimed := false
      prev := noEntry
      next := noEntry
      tableSlot := 0 }
  let st ← enterTable env st key entry
  let st ← st.attachFront entry
  return { st with log := .stored key record :: st.log }

/-- What follows the allocation loop. -/
def finishInsert (env : Env RecordType DNSClass Heap) (key : Key RecordType DNSClass)
    (record : Record) (lastUsed storedAt : Nat) (reused : Bool) :
    Option Nat → CacheState RecordType DNSClass Heap →
      Except Fault (Bool × CacheState RecordType DNSClass Heap)
  | none, st => .ok (false, st)
  | some offset, st => do
    let st ← store env st key record offset lastUsed storedAt reused
    return (true, st)

/-- The part of `insert_with_flags` under the lock. The flag says whether the
response was stored. -/
def insertLocked (env : Env RecordType DNSClass Heap) (st : CacheState RecordType DNSClass Heap)
    (key : Key RecordType DNSClass) (record : Record) (lockedAt storedAt : Nat) :
    Except Fault (Bool × CacheState RecordType DNSClass Heap) := do
  let totalLen := key.name.length + record.wire.length + record.request.length
  if totalLen > st.pool.length then return (false, st)
  else do
    let (lastUsed, reused, st) ← replace env st key lockedAt
    let st ← st.ensureTableCapacity env
    let (offset, st) ← allocateLoop env totalLen (st.entries.length + 1) st
    finishInsert env key record lastUsed storedAt reused offset st

/-- The record of an insert at `now`. -/
def recordOf (ttl now : Nat) (wire request : Bytes) : Record where
  wire := wire
  request := request
  expiresAt := now + ttl * second
  staleUntil := now + ttl * second + serveStaleWindow
  originalTtl := ttl * second

def insertWithFlags (env : Env RecordType DNSClass Heap)
    (c : ResponseCache RecordType DNSClass Heap) (key : Key RecordType DNSClass) (ttl : Nat)
    (wire request : Bytes) (now lockedAt storedAt : Nat) :
    Except Fault (Bool × ResponseCache RecordType DNSClass Heap) := do
  if !c.enabled || key.name.length > maxNameLen then return (false, c)
  else if request.length ≥ 2 ^ 16 then return (false, c)
  -- `Layout::from_size_align`
  else if key.name.length + wire.length + request.length > 2 ^ 63 - 1 then return (false, c)
  else do
    let (stored, st) ←
      insertLocked env c.state key (recordOf ttl now wire request) lockedAt storedAt
    return (stored, { c with state := st })

/-! ## Refreshing and sweeping -/

/-- What a released claim does to an entry. -/
def releaseClaim (hash : UInt64) (now : Nat) (m : EntryMeta RecordType DNSClass) :
    EntryMeta RecordType DNSClass :=
  if m.refreshClaimed then
    let failures := min (min (m.refreshFailures + 1) 255) 5
    { m with
      refreshClaimed := false
      refreshFailures := failures
      retryAfter := now + (2 ^ failures * 500 + hash.toNat % 500) * millisecond }
  else m

def releaseRefreshClaimWithFlags (env : Env RecordType DNSClass Heap)
    (c : ResponseCache RecordType DNSClass Heap) (key : Key RecordType DNSClass) (now : Nat) :
    Except Fault (ResponseCache RecordType DNSClass Heap) := do
  match ← c.state.locate (env.keyHash key) key with
  | .vacant _ => return c
  | .found entry => do
    let st ← c.state.modifyEntry entry (releaseClaim (env.keyHash key) now)
    return { c with state := st }

/-- An entry the background refresh takes. -/
def isCandidate (m : EntryMeta RecordType DNSClass) (hash : UInt64) (now : Nat) : Bool :=
  let lead := m.originalTtl * (5 + hash.toNat % 6) / 100
  m.reused && decide (m.requestLen > 0) && !m.refreshClaimed && decide (m.retryAfter ≤ now) &&
    decide (m.staleUntil > now) && decide (now - m.lastUsed < refreshIdleLimit) &&
    decide (m.expiresAt - now ≤ lead)

/-- The scan of `refresh_candidates`, from `entry` along the LRU list. -/
def scanCandidates (budget now : Nat) :
    Nat → Nat → List Bytes → CacheState RecordType DNSClass Heap →
      Except Fault (List Bytes × CacheState RecordType DNSClass Heap)
  | 0, _, requests, st => .ok (requests, st)
  | count + 1, entry, requests, st =>
    if entry = noEntry ∨ requests.length = budget then .ok (requests, st)
    else do
      let m ← st.entry entry
      match st.table[m.tableSlot]? with
      | none => .error .panic
      | some slot =>
        if isCandidate m slot.hash now then do
          let start := m.offset + m.nameLen + m.wireLen
          let request ← slice st.pool start (start + m.requestLen)
          let st ← st.modifyEntry entry fun m => { m with refreshClaimed := true }
          scanCandidates budget now count m.next (requests ++ [request]) st
        else scanCandidates budget now count m.next requests st

def refreshCandidates (c : ResponseCache RecordType DNSClass Heap) (budget now : Nat) :
    Except Fault (List Bytes × ResponseCache RecordType DNSClass Heap) := do
  if !c.enabled || budget = 0 then return ([], c)
  else do
    let (requests, st) ← scanCandidates budget now refreshScanLimit c.state.lruHead [] c.state
    return (requests, { c with state := st })

/-- The loop of `evict_expired_batch`. -/
def sweepFrom (env : Env RecordType DNSClass Heap) (now : Nat) :
    Nat → Nat → CacheState RecordType DNSClass Heap →
      Except Fault (CacheState RecordType DNSClass Heap)
  | 0, _, st => .ok st
  | count + 1, index, st =>
    match st.entries[index]? with
    | none => .error .panic
    | some none => sweepFrom env now count (index + 1) st
    | some (some m) =>
      if m.staleUntil ≤ now then do
        let st ← st.evict env (index % 2 ^ 32) .sweep
        sweepFrom env now count (index + 1) st
      else sweepFrom env now count (index + 1) st

def evictExpiredBatch (env : Env RecordType DNSClass Heap)
    (c : ResponseCache RecordType DNSClass Heap) (start stop now : Nat) :
    Except Fault (ResponseCache RecordType DNSClass Heap) := do
  let st ← sweepFrom env now (min stop c.state.entries.length - start) start c.state
  return { c with state := st }

end ResponseCache

/-! ## Runs -/

/-- A call of one of the methods, with the clock readings it takes. -/
inductive Op (RecordType DNSClass : Type) where
  | insert (key : Key RecordType DNSClass) (ttl : Nat) (wire request : Bytes)
      (now lockedAt storedAt : Nat)
  | get (key : Key RecordType DNSClass) (now : Nat)
  | release (key : Key RecordType DNSClass) (now : Nat)
  | candidates (budget now : Nat)
  | sweep (start stop now : Nat)

/-- What a call returns. -/
inductive Output where
  | inserted (stored : Bool)
  | got (found : Option (Bytes × Bool × Bool))
  | released
  | requests (list : List Bytes)
  | swept
  deriving DecidableEq

def apply (env : Env RecordType DNSClass Heap) (c : ResponseCache RecordType DNSClass Heap) :
    Op RecordType DNSClass → Except Fault (Output × ResponseCache RecordType DNSClass Heap)
  | .insert key ttl wire request now lockedAt storedAt => do
    let (stored, c) ← c.insertWithFlags env key ttl wire request now lockedAt storedAt
    return (.inserted stored, c)
  | .get key now => do
    let (found, c) ← c.getWithFlags env key now
    return (.got found, c)
  | .release key now => do
    let c ← c.releaseRefreshClaimWithFlags env key now
    return (.released, c)
  | .candidates budget now => do
    let (list, c) ← c.refreshCandidates budget now
    return (.requests list, c)
  | .sweep start stop now => do
    let c ← c.evictExpiredBatch env start stop now
    return (.swept, c)

/-- A sequence of calls. -/
def runOps (env : Env RecordType DNSClass Heap) :
    ResponseCache RecordType DNSClass Heap → List (Op RecordType DNSClass) →
      Except Fault (ResponseCache RecordType DNSClass Heap)
  | c, [] => .ok c
  | c, op :: ops => do
    let (_, c) ← apply env c op
    runOps env c ops

end DnsRs.Cache
