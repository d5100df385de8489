import DnsRs.Lib.StoreLog
import DnsRs.Wire.Identity

/-!
# The state of the response cache

`CacheState` is four structures over one another: an open-addressed hash table
with tombstones, whose slots point into a slab of `EntryMeta`; the slab with
its stack of free indexes; a doubly linked LRU list threaded through the slab;
and a byte arena that holds name, response and request of every entry.

Indexes are the source's `u32` with its sentinels, casts to a narrower type are
written as `%`, and an index out of range, a vacant entry where a live one is
expected, a subtraction below zero or a copy outside the pool is a panic.

The arena's allocator is the crate's: `Allocator` names its operations and
`Allocator.Lawful` what is assumed of them. `log` is no field of the source: it
records each entry stored, used and evicted at the place where this happens, so
that the theorems can speak about the past.
-/

namespace DnsRs.Cache

open Lib Wire

variable {RecordType DNSClass Heap : Type}

/-! ## What the cache is built on -/

/-- `linked_list_allocator::Heap` over one pool. `spans` lists the offset and
size of every allocation that has not been given back; an allocation of `n`
bytes takes `block n` bytes of the pool. -/
structure Allocator (Heap : Type) where
  new : Nat → Heap
  allocateFirstFit : Heap → Nat → Option (Nat × Heap)
  deallocate : Heap → Nat → Nat → Heap
  poolSize : Heap → Nat
  spans : Heap → List (Nat × Nat)
  block : Nat → Nat

/-- An allocation lies in the pool and is disjoint from all those that have not
been given back; it may fail at any time. -/
structure Allocator.Lawful (A : Allocator Heap) : Prop where
  block_pos : ∀ n, 0 < A.block n
  le_block : ∀ n, n ≤ A.block n
  poolSize_new : ∀ n, A.poolSize (A.new n) = n
  poolSize_allocate : ∀ {h n off h'}, A.allocateFirstFit h n = some (off, h') →
    A.poolSize h' = A.poolSize h
  poolSize_deallocate : ∀ {h off n}, (off, n) ∈ A.spans h →
    A.poolSize (A.deallocate h off n) = A.poolSize h
  spans_allocate : ∀ {h n off h'}, A.allocateFirstFit h n = some (off, h') →
    A.spans h' = (off, n) :: A.spans h
  inside : ∀ {h n off h'}, A.allocateFirstFit h n = some (off, h') →
    off + A.block n ≤ A.poolSize h
  disjoint : ∀ {h n off h'}, A.allocateFirstFit h n = some (off, h') →
    ∀ s ∈ A.spans h, DisjointRange off (A.block n) s.1 (A.block s.2)
  spans_deallocate : ∀ {h off n}, (off, n) ∈ A.spans h →
    A.spans (A.deallocate h off n) = (A.spans h).erase (off, n)

/-- The allocator, and `key_hash` with its `FxHasher`. -/
structure Env (RecordType DNSClass Heap : Type) where
  alloc : Allocator Heap
  keyHash : Key RecordType DNSClass → UInt64

/-! ## Constants -/

/-- One second, in the nanoseconds of an `Instant`. -/
def second : Nat := 10 ^ 9

def millisecond : Nat := 10 ^ 6

def serveStaleWindow : Nat := 30 * second

def refreshIdleLimit : Nat := 300 * second

def refreshScanLimit : Nat := 1024

def minPoolBytes : Nat := 64

/-- `MAX_CACHE_BYTES`: what `Config::validate` allows an enabled cache -/
def maxCacheBytes : Nat := 1024 * 1024 * 1024

def emptySlot : Nat := 2 ^ 32 - 1

def tombstone : Nat := 2 ^ 32 - 2

/-- `NONE`, the end of the LRU list -/
def noEntry : Nat := 2 ^ 32 - 1

/-! ## Data -/

structure KeySlot where
  hash : UInt64
  entry : Nat
  deriving DecidableEq, Repr

/-- `KeySlot::EMPTY` -/
def KeySlot.empty : KeySlot := ⟨0, emptySlot⟩

/-- One cached response's bookkeeping. -/
structure EntryMeta (RecordType DNSClass : Type) where
  offset : Nat
  nameLen : Nat
  wireLen : Nat
  requestLen : Nat
  recordType : RecordType
  dnsClass : DNSClass
  flags : UInt8
  expiresAt : Nat
  staleUntil : Nat
  originalTtl : Nat
  lastUsed : Nat
  retryAfter : Nat
  reused : Bool
  refreshFailures : Nat
  refreshClaimed : Bool
  prev : Nat
  next : Nat
  tableSlot : Nat
  deriving DecidableEq, Repr

/-- The size of the entry's allocation. -/
def EntryMeta.totalLen (m : EntryMeta RecordType DNSClass) : Nat :=
  m.nameLen + m.wireLen + m.requestLen

/-- What an insert stores under a key. -/
structure Record where
  wire : Bytes
  request : Bytes
  expiresAt : Nat
  staleUntil : Nat
  originalTtl : Nat
  deriving DecidableEq, Repr

/-- Why an entry was evicted. -/
inductive Reason where
  | replaced
  | space
  | sweep
  | expired
  deriving DecidableEq, Repr

abbrev CacheEvent (RecordType DNSClass : Type) : Type :=
  StoreEvent (Key RecordType DNSClass) Record Reason

structure CacheState (RecordType DNSClass Heap : Type) where
  pool : Bytes
  heap : Heap
  table : List KeySlot
  tableLen : Nat
  tombstones : Nat
  entries : List (Option (EntryMeta RecordType DNSClass))
  /-- a stack: the head is popped first -/
  freeEntries : List Nat
  lruHead : Nat
  lruTail : Nat
  /-- most recent first -/
  log : List (CacheEvent RecordType DNSClass)

inductive Locate where
  | found (entry : Nat)
  | vacant (slot : Nat)
  deriving DecidableEq, Repr

namespace CacheState

/-! ## Entries -/

def entry (st : CacheState RecordType DNSClass Heap) (index : Nat) :
    Except Fault (EntryMeta RecordType DNSClass) :=
  match st.entries[index]? with
  | some (some m) => .ok m
  | _ => .error .panic

/-- An update through `entry_mut`. -/
def modifyEntry (st : CacheState RecordType DNSClass Heap) (index : Nat)
    (f : EntryMeta RecordType DNSClass → EntryMeta RecordType DNSClass) :
    Except Fault (CacheState RecordType DNSClass Heap) := do
  let m ← st.entry index
  return { st with entries := st.entries.set index (some (f m)) }

def name (st : CacheState RecordType DNSClass Heap) (index : Nat) : Except Fault Bytes := do
  let m ← st.entry index
  slice st.pool m.offset (m.offset + m.nameLen)

/-- The key an entry is stored under, read from the pool. -/
def keyOf (pool : Bytes) (m : EntryMeta RecordType DNSClass) : Key RecordType DNSClass :=
  ⟨readAt pool m.offset m.nameLen, m.recordType, m.dnsClass, m.flags⟩

/-- `alloc_entry` -/
def allocEntry (st : CacheState RecordType DNSClass Heap) (m : EntryMeta RecordType DNSClass) :
    Except Fault (Nat × CacheState RecordType DNSClass Heap) :=
  match st.freeEntries with
  | index :: rest =>
    if index < st.entries.length then
      .ok (index, { st with entries := st.entries.set index (some m), freeEntries := rest })
    else .error .panic
  | [] => .ok (st.entries.length % 2 ^ 32, { st with entries := st.entries ++ [some m] })

/-! ## The LRU list -/

/-- `if prev == NONE { lru_head = next } else { entry_mut(prev).next = next }` -/
def setNext (st : CacheState RecordType DNSClass Heap) (prev next : Nat) :
    Except Fault (CacheState RecordType DNSClass Heap) :=
  if prev = noEntry then .ok { st with lruHead := next }
  else st.modifyEntry prev fun m => { m with next := next }

/-- `if next == NONE { lru_tail = prev } else { entry_mut(next).prev = prev }` -/
def setPrev (st : CacheState RecordType DNSClass Heap) (next prev : Nat) :
    Except Fault (CacheState RecordType DNSClass Heap) :=
  if next = noEntry then .ok { st with lruTail := prev }
  else st.modifyEntry next fun m => { m with prev := prev }

def unlink (st : CacheState RecordType DNSClass Heap) (entry : Nat) :
    Except Fault (CacheState RecordType DNSClass Heap) := do
  let m ← st.entry entry
  let st ← st.setNext m.prev m.next
  st.setPrev m.next m.prev

/-- `if old_head != NONE { entry_mut(old_head).prev = entry }` -/
def linkBack (st : CacheState RecordType DNSClass Heap) (oldHead entry : Nat) :
    Except Fault (CacheState RecordType DNSClass Heap) :=
  if oldHead = noEntry then .ok st
  else st.modifyEntry oldHead fun m => { m with prev := entry }

def attachFront (st : CacheState RecordType DNSClass Heap) (entry : Nat) :
    Except Fault (CacheState RecordType DNSClass Heap) := do
  let oldHead := st.lruHead
  let st ← st.modifyEntry entry fun m => { m with prev := noEntry, next := oldHead }
  let st ← st.linkBack oldHead entry
  return { st with
    lruHead := entry
    lruTail := if st.lruTail = noEntry then entry else st.lruTail }

def touch (st : CacheState RecordType DNSClass Heap) (entry : Nat) :
    Except Fault (CacheState RecordType DNSClass Heap) :=
  if st.lruHead = entry then .ok st
  else do
    let st ← st.unlink entry
    st.attachFront entry

/-! ## The hash table -/

section Table

variable [DecidableEq RecordType] [DecidableEq DNSClass]

def keyMatches (st : CacheState RecordType DNSClass Heap) (index : Nat)
    (key : Key RecordType DNSClass) : Except Fault Bool := do
  let m ← st.entry index
  if m.recordType = key.recordType ∧ m.dnsClass = key.dnsClass ∧ m.flags = key.flags then do
    let name ← st.name index
    return name == key.name
  else return false

/-- The loop of `locate`. -/
def locateFrom (st : CacheState RecordType DNSClass Heap) (hash : UInt64)
    (key : Key RecordType DNSClass) (mask : Nat) : Nat → Nat → Option Nat → Except Fault Locate
  | 0, _, _ => .error .hang
  | fuel + 1, slot, firstTombstone =>
    match st.table[slot]? with
    | none => .error .panic
    | some candidate =>
      let next := (slot + 1) &&& mask
      if candidate.entry = emptySlot then .ok (.vacant (firstTombstone.getD slot))
      else if candidate.entry = tombstone then
        locateFrom st hash key mask fuel next (some (firstTombstone.getD slot))
      else if candidate.hash = hash then do
        if ← st.keyMatches candidate.entry key then return .found candidate.entry
        else locateFrom st hash key mask fuel next firstTombstone
      else locateFrom st hash key mask fuel next firstTombstone

/-- A probe that has looked at as many slots as there are without an answer
comes back to the slots it has seen, so it never ends. -/
def locate (st : CacheState RecordType DNSClass Heap) (hash : UInt64)
    (key : Key RecordType DNSClass) : Except Fault Locate :=
  if st.table.length = 0 then .error .panic
  else
    let mask := st.table.length - 1
    st.locateFrom hash key mask st.table.length (hash.toNat &&& mask) none

/-- `table[slot] = KeySlot { hash, entry }` with its count and back reference -/
def place (st : CacheState RecordType DNSClass Heap) (slot : Nat) (hash : UInt64) (entry : Nat) :
    Except Fault (CacheState RecordType DNSClass Heap) := do
  if slot < st.table.length then
    let st := { st with table := st.table.set slot ⟨hash, entry⟩, tableLen := st.tableLen + 1 }
    st.modifyEntry entry fun m => { m with tableSlot := slot % 2 ^ 32 }
  else .error .panic

/-- The loop of `rehash`. -/
def rehashFrom (env : Env RecordType DNSClass Heap) :
    Nat → Nat → CacheState RecordType DNSClass Heap →
      Except Fault (CacheState RecordType DNSClass Heap)
  | 0, _, st => .ok st
  | count + 1, index, st =>
    match st.entries[index]? with
    | none => .error .panic
    | some none => rehashFrom env count (index + 1) st
    | some (some m) => do
      let name ← st.name index
      let key := ⟨name, m.recordType, m.dnsClass, m.flags⟩
      let hash := env.keyHash key
      match ← st.locate hash key with
      | .found _ => .error .panic -- slab contains duplicate cache keys
      | .vacant slot => do
        let st ← st.place slot hash index
        rehashFrom env count (index + 1) st

def rehash (env : Env RecordType DNSClass Heap) (st : CacheState RecordType DNSClass Heap)
    (newLen : Nat) : Except Fault (CacheState RecordType DNSClass Heap) :=
  rehashFrom env (st.entries.length % 2 ^ 32) 0
    { st with table := List.replicate newLen .empty, tableLen := 0, tombstones := 0 }

def ensureTableCapacity (env : Env RecordType DNSClass Heap)
    (st : CacheState RecordType DNSClass Heap) :
    Except Fault (CacheState RecordType DNSClass Heap) :=
  if (st.tableLen + st.tombstones + 1) * 4 < st.table.length * 3 then .ok st
  else if st.tombstones > st.tableLen / 2 then st.rehash env st.table.length
  else st.rehash env (st.table.length * 2)

end Table

/-! ## Eviction -/

/-- The part of `evict` after `take`. -/
def discard (env : Env RecordType DNSClass Heap) (st : CacheState RecordType DNSClass Heap)
    (entry : Nat) (m : EntryMeta RecordType DNSClass) (reason : Reason) :
    Except Fault (CacheState RecordType DNSClass Heap) :=
  match st.table[m.tableSlot]? with
  | none => .error .panic
  | some slot =>
    if st.tableLen = 0 then .error .panic
    else
      .ok { st with
        entries := st.entries.set entry none
        table := st.table.set m.tableSlot { slot with entry := tombstone }
        tableLen := st.tableLen - 1
        tombstones := st.tombstones + 1
        heap := env.alloc.deallocate st.heap m.offset m.totalLen
        freeEntries := entry :: st.freeEntries
        log := .evicted (keyOf st.pool m) reason :: st.log }

def evict (env : Env RecordType DNSClass Heap) (st : CacheState RecordType DNSClass Heap)
    (entry : Nat) (reason : Reason) : Except Fault (CacheState RecordType DNSClass Heap) := do
  let st ← st.unlink entry
  let m ← st.entry entry
  st.discard env entry m reason

def evictOneForSpace (env : Env RecordType DNSClass Heap)
    (st : CacheState RecordType DNSClass Heap) :
    Except Fault (Bool × CacheState RecordType DNSClass Heap) := do
  let victim := st.lruTail
  if victim = noEntry then return (false, st)
  else do
    let _ ← st.name victim
    let st ← st.evict env victim .space
    return (true, st)

end CacheState

end DnsRs.Cache
