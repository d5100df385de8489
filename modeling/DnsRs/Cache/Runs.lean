import DnsRs.Cache.Insertion
import DnsRs.Cache.Lookup
import DnsRs.Cache.FirstFit

/-!
# Runs of cache operations

From `ResponseCache::new` on, every sequence of calls returns and keeps the
invariant (`runOps_spec`), whatever the clock readings, the hashes and the
allocator do. `Chronicle` accounts for the log: each call adds the events that
`Explains` allows it, and no others.

The results are read off the invariant:

* `hash_index`: the table, the slab and the free list agree, and a probe ends;
* `lru_list`: the LRU list visits the live entries in the order of last use;
* `cache_refines_map`: a lookup after the run answers from the finite map that
  the log describes.
-/

namespace DnsRs.Cache

open Lib Wire CacheState ResponseCache

variable {RecordType DNSClass Heap : Type} [DecidableEq RecordType] [DecidableEq DNSClass]
  {env : Env RecordType DNSClass Heap}

/-! ## The log and the calls -/

/-- The events a call may add to the log, by what it returns. -/
def Explains (log : List (CacheEvent RecordType DNSClass)) :
    Op RecordType DNSClass → Output → List (CacheEvent RecordType DNSClass) → Prop
  | .insert key ttl wire request now _ _, .inserted stored, events =>
    InsertEvents key (ResponseCache.recordOf ttl now wire request) stored events
  | .get key now, .got found, events => LookupEvents log key now found events
  | .release _ _, .released, events => events = []
  | .candidates _ _, .requests _, events => events = []
  | .sweep _ _ now, .swept, events =>
    ∃ victims, events = victims.map (.evicted · .sweep) ∧ AllExpired log now victims
  | _, _, _ => False

/-- A log that the calls explain. -/
inductive Chronicle : List (Op RecordType DNSClass) → List (CacheEvent RecordType DNSClass) → Prop
  | start : Chronicle [] []
  | step {ops : List (Op RecordType DNSClass)} {op : Op RecordType DNSClass} {out : Output}
      {log events : List (CacheEvent RecordType DNSClass)} :
      Chronicle ops log → Explains log op out events → Chronicle (ops ++ [op]) (events ++ log)

/-! ## One call -/

/-- The state between calls. -/
structure Sound (env : Env RecordType DNSClass Heap) (c : ResponseCache RecordType DNSClass Heap) :
    Prop where
  inv : ∃ l, Inv env c.state l
  disabled : c.enabled = false → c.state.pool = []

theorem insertWithFlags_spec (hA : env.alloc.Lawful)
    {c : ResponseCache RecordType DNSClass Heap} (h : Sound env c) (key : Key RecordType DNSClass)
    (ttl : Nat) (wire request : Bytes) (now lockedAt storedAt : Nat) :
    ∃ stored c', c.insertWithFlags env key ttl wire request now lockedAt storedAt =
        .ok (stored, c') ∧ Sound env c' ∧
      ∃ events, c'.state.log = events ++ c.state.log ∧
        InsertEvents key (ResponseCache.recordOf ttl now wire request) stored events := by
  obtain ⟨l, hInv⟩ := h.inv
  have hSkip : ∃ stored c', (pure (false, c) : Except Fault _) = .ok (stored, c') ∧ Sound env c' ∧
      ∃ events, c'.state.log = events ++ c.state.log ∧
        InsertEvents key (ResponseCache.recordOf ttl now wire request) stored events :=
    ⟨false, c, rfl, h, [], rfl, [], [], .inl rfl, rfl⟩
  rw [insertWithFlags]
  split
  · exact hSkip
  · rename_i hOn
    rw [Bool.or_eq_true, not_or, decide_eq_true_iff, Nat.not_lt] at hOn
    split
    · exact hSkip
    split
    · exact hSkip
    obtain ⟨stored, st', l', hRun, hInv', hPool, events, hLog, hEvents⟩ :=
      insertLocked_spec hA hInv hOn.2 (ResponseCache.recordOf ttl now wire request) lockedAt
        storedAt
    refine ⟨stored, { c with state := st' }, ?_, ⟨⟨l', hInv'⟩, fun hOff => ?_⟩, events, hLog,
      hEvents⟩
    · rw [hRun]
      rfl
    · have hEmpty := congrArg List.length (h.disabled hOff)
      rw [← hPool] at hEmpty
      exact List.length_eq_zero_iff.mp hEmpty

/-- **One call** returns and keeps the invariant, and its events are explained. -/
theorem apply_spec (hA : env.alloc.Lawful) {c : ResponseCache RecordType DNSClass Heap}
    (h : Sound env c) (op : Op RecordType DNSClass) :
    ∃ out c' events, apply env c op = .ok (out, c') ∧ Sound env c' ∧
      c'.state.log = events ++ c.state.log ∧ Explains c.state.log op out events := by
  obtain ⟨l, hInv⟩ := h.inv
  have hKeep : ∀ (st' : CacheState RecordType DNSClass Heap) (l' : List Nat), Inv env st' l' →
      st'.pool = c.state.pool → Sound env { c with state := st' } := fun st' l' hInv' hPool =>
    ⟨⟨l', hInv'⟩, fun hOff => hPool.trans (h.disabled hOff)⟩
  cases op with
  | insert key ttl wire request now lockedAt storedAt =>
    obtain ⟨stored, c', hRun, hSound, events, hLog, hEvents⟩ :=
      insertWithFlags_spec hA h key ttl wire request now lockedAt storedAt
    refine ⟨.inserted stored, c', events, ?_, hSound, hLog, hEvents⟩
    rw [apply, hRun]
    rfl
  | get key now =>
    obtain ⟨found, st', l', hRun, hInv', hPool, events, hLog, hEvents⟩ :=
      getWithFlags_spec hA hInv h.disabled key now
    refine ⟨.got found, _, events, ?_, hKeep st' l' hInv' hPool, hLog, hEvents⟩
    rw [apply, hRun]
    rfl
  | release key now =>
    obtain ⟨st', hRun, hInv', hPool, hLog⟩ := releaseRefreshClaimWithFlags_spec hA hInv key now
    refine ⟨.released, _, [], ?_, hKeep st' l hInv' hPool, hLog, rfl⟩
    rw [apply, hRun]
    rfl
  | candidates budget now =>
    obtain ⟨list, st', hRun, hInv', hPool, hLog⟩ := refreshCandidates_spec hA hInv budget now
    refine ⟨.requests list, _, [], ?_, hKeep st' l hInv' hPool, hLog, rfl⟩
    rw [apply, hRun]
    rfl
  | sweep start stop now =>
    obtain ⟨st', l', victims, hRun, hInv', hPool, hLog, hExpired⟩ :=
      evictExpiredBatch_spec hA hInv start stop now
    refine ⟨.swept, _, _, ?_, hKeep st' l' hInv' hPool, hLog, victims, rfl, hExpired⟩
    rw [apply, hRun]
    rfl

/-! ## Runs -/

theorem new_sound (hA : env.alloc.Lawful) {enabled : Bool} {maxSizeBytes : Nat}
    (hMax : enabled = true → maxSizeBytes ≤ maxCacheBytes) :
    Sound env (ResponseCache.new env enabled maxSizeBytes) := by
  have hVacant : ∀ i, (ResponseCache.new env enabled maxSizeBytes).state.live? i = none :=
    fun _ => rfl
  have hNoKey : ∀ i key, (ResponseCache.new env enabled maxSizeBytes).state.keyAt i ≠ some key :=
    fun _ _ => nofun
  have hSize : (if (enabled && decide (maxSizeBytes ≥ minPoolBytes)) = true then maxSizeBytes
      else 0) ≤ 2 ^ 30 := by
    split
    · rename_i hOn
      exact hMax (Bool.and_eq_true _ _ ▸ hOn).1
    · exact Nat.zero_le _
  refine ⟨⟨[], ?_⟩, fun hOff => ?_⟩
  · constructor
    case index =>
      refine (index_fresh (k := 6) (ResponseCache.new env enabled maxSizeBytes).state (by decide)
        (Nat.zero_le _)).congr_placed fun j hj => ?_
      cases hj
    case count => rfl
    case slab => exact ⟨List.nodup_nil, fun i => ⟨nofun, fun hi => absurd hi.1 (Nat.not_lt_zero i)⟩⟩
    case arena =>
      constructor
      case poolSize_eq =>
        simp only [ResponseCache.new, List.length_replicate]
        exact hA.poolSize_new _
      case pool_le =>
        simp only [ResponseCache.new, List.length_replicate]
        exact hSize
      case slab_le => exact Nat.zero_le _
      case name_le => exact fun i m hi => by cases hi
      case mem_spans => exact fun i m hi => by cases hi
      case inside => exact fun i m hi => by cases hi
      case disjoint => exact fun i j m m' hi => by cases hi
    case distinct => exact fun i j key hi => absurd hi (hNoKey i key)
    case history =>
      intro key record
      constructor
      · exact fun hNone => by cases hNone
      · rintro ⟨i, m, hi, -⟩
        cases hi
    case lru => exact ⟨trivial, List.nodup_nil, List.not_mem_nil, rfl, rfl⟩
    case mem_lru => exact fun i => ⟨nofun, nofun⟩
    case recent => exact List.Pairwise.nil
  · simp only [ResponseCache.new] at hOff ⊢
    rw [hOff]
    rfl

/-- Every sequence of calls returns. -/
theorem runOps_spec (hA : env.alloc.Lawful) :
    ∀ (ops done : List (Op RecordType DNSClass)) (c : ResponseCache RecordType DNSClass Heap),
      Sound env c → Chronicle done c.state.log →
      ∃ c', runOps env c ops = .ok c' ∧ Sound env c' ∧ Chronicle (done ++ ops) c'.state.log := by
  intro ops
  induction ops with
  | nil =>
    intro done c h hLog
    refine ⟨c, rfl, h, ?_⟩
    rw [List.append_nil]
    exact hLog
  | cons op ops ih =>
    intro done c h hLog
    obtain ⟨out, c₁, events, hRun, h₁, hLog₁, hExplains⟩ := apply_spec hA h op
    obtain ⟨c', hRest, h', hChronicle⟩ := ih (done ++ [op]) c₁ h₁
      (by rw [hLog₁]; exact hLog.step hExplains)
    refine ⟨c', ?_, h', ?_⟩
    · rw [runOps, hRun]
      exact hRest
    · rw [List.append_assoc, List.singleton_append] at hChronicle
      exact hChronicle

theorem run_from_new (hA : env.alloc.Lawful) {enabled : Bool} {maxSizeBytes : Nat}
    (hMax : enabled = true → maxSizeBytes ≤ maxCacheBytes) (ops : List (Op RecordType DNSClass)) :
    ∃ c l, runOps env (ResponseCache.new env enabled maxSizeBytes) ops = .ok c ∧
      Inv env c.state l ∧ (c.enabled = false → c.state.pool = []) ∧ Chronicle ops c.state.log := by
  obtain ⟨c, hRun, hSound, hChronicle⟩ :=
    runOps_spec hA ops [] _ (new_sound hA hMax) Chronicle.start
  obtain ⟨l, hInv⟩ := hSound.inv
  exact ⟨c, l, hRun, hInv, hSound.disabled, hChronicle⟩

/-- What a run from a new cache leaves is sound. -/
theorem sound_of_run (hA : env.alloc.Lawful) {enabled : Bool} {maxSizeBytes : Nat}
    (hMax : enabled = true → maxSizeBytes ≤ maxCacheBytes) {ops : List (Op RecordType DNSClass)}
    {c : ResponseCache RecordType DNSClass Heap}
    (hRun : runOps env (ResponseCache.new env enabled maxSizeBytes) ops = .ok c) : Sound env c := by
  obtain ⟨c', hRun', hSound, -⟩ :=
    runOps_spec hA ops [] _ (new_sound hA hMax) Chronicle.start
  rw [hRun] at hRun'
  cases hRun'
  exact hSound

/-- A cache in which all keys have the same hash. -/
def collidingEnv : Env Nat Nat FirstFit.Heap where
  alloc := FirstFit.allocator
  keyHash := fun _ => 7

/-- Three responses for a pool that has room for two; the lookup in between
makes the first one outlive the second. -/
def evictingOps : List (Op Nat Nat) :=
  [.insert ⟨[97, 46], 1, 1, 0⟩ 60 (List.replicate 40 0) [1, 2] 0 0 0,
    .insert ⟨[98, 46], 1, 1, 0⟩ 60 (List.replicate 41 0) [] 1 1 1,
    .get ⟨[97, 46], 1, 1, 0⟩ 2,
    .insert ⟨[99, 46], 1, 1, 0⟩ 60 (List.replicate 42 0) [] 3 3 3,
    .release ⟨[97, 46], 1, 1, 0⟩ 4,
    .candidates 5 5,
    .sweep 0 256 6]

/-! ## The hash index -/

/-- The clauses of the hash index, over the fields of the state. -/
structure HashIndex (env : Env RecordType DNSClass Heap)
    (st : CacheState RecordType DNSClass Heap) : Prop where
  powerOfTwo : ∃ k, st.table.length = 2 ^ k
  live_slots : st.tableLen = st.table.countP KeySlot.isLive
  occupied : st.tableLen = st.entries.countP Option.isSome
  tombstones : st.tombstones = st.table.countP KeySlot.isTombstone
  load : st.tableLen + st.tombstones < st.table.length
  empty : ∃ (s : Nat) (slot : KeySlot), st.table[s]? = some slot ∧ slot.entry = emptySlot
  probe_ends : ∀ key, ∃ found, st.locate (env.keyHash key) key = .ok found
  /-- The slot of an entry is `table_slot`, and no other slot refers to it. -/
  one_slot : ∀ i m, st.live? i = some m → ∀ s,
    (∃ slot, st.table[s]? = some slot ∧ slot.entry = i) ↔ s = m.tableSlot
  slot_hash : ∀ i m, st.live? i = some m →
    st.table[m.tableSlot]? = some ⟨env.keyHash (keyOf st.pool m), i⟩
  /-- On the way from `hash & mask` to the slot there is no empty one. -/
  path : ∀ i m, st.live? i = some m → ∃ n,
    (((env.keyHash (keyOf st.pool m)).toNat &&& (st.table.length - 1)) + n) % st.table.length =
      m.tableSlot ∧
    ∀ k < n, ∃ slot,
      st.table[(((env.keyHash (keyOf st.pool m)).toNat &&& (st.table.length - 1)) + k) %
        st.table.length]? = some slot ∧ slot.entry ≠ emptySlot
  distinct : ∀ i j m m', st.live? i = some m → st.live? j = some m' →
    keyOf st.pool m = keyOf st.pool m' → i = j
  free_nodup : st.freeEntries.Nodup
  free_vacant : ∀ i, i ∈ st.freeEntries ↔ st.entries[i]? = some none

theorem Inv.hashIndex (hA : env.alloc.Lawful) {st : CacheState RecordType DNSClass Heap}
    {l : List Nat} (h : Inv env st l) : HashIndex env st := by
  constructor
  case powerOfTwo => exact h.index.size
  case live_slots => exact h.index.tableLen_eq
  case occupied => exact h.count
  case tombstones => exact h.index.tombstones_eq
  case load => exact h.index.room
  case empty =>
    obtain ⟨s, hs, hEmpty⟩ := h.index.exists_empty
    refine ⟨s, _, List.getElem?_eq_getElem hs, ?_⟩
    by_contra hne
    exact hEmpty ⟨_, List.getElem?_eq_getElem hs, hne⟩
  case probe_ends =>
    intro key
    rcases locate_spec h.index (h.arena.readable hA) key with ⟨i, hRun, -⟩ | ⟨s, hRun, -⟩
    · exact ⟨_, hRun⟩
    · exact ⟨_, hRun⟩
  case one_slot => exact fun i m hi => h.index.one_slot hi
  case slot_hash => exact fun i m hi => (h.index.placed_slot i m trivial hi).1
  case path => exact fun i m hi => h.index.path hi
  case distinct =>
    intro i j m m' hi hj hKey
    exact h.distinct i j _ (keyAt_eq_some.mpr ⟨m, hi, hKey⟩) (keyAt_eq_some.mpr ⟨m', hj, rfl⟩)
  case free_nodup => exact h.slab.nodup
  case free_vacant =>
    intro i
    rw [h.slab.mem_free, live?]
    constructor
    · rintro ⟨hLt, hNone⟩
      rw [List.getElem?_eq_getElem hLt] at hNone ⊢
      exact congrArg some hNone
    · intro hVacant
      exact ⟨(List.getElem?_eq_some_iff.mp hVacant).1, by rw [hVacant]; rfl⟩

/-- **The hash index.** Every sequence of calls returns, so no `unreachable!` or
`expect` is reached and no probe runs forever, and leaves a sound index. -/
theorem hash_index (hA : env.alloc.Lawful) {enabled : Bool} {maxSizeBytes : Nat}
    (hMax : enabled = true → maxSizeBytes ≤ maxCacheBytes) (ops : List (Op RecordType DNSClass)) :
    ∃ c, runOps env (ResponseCache.new env enabled maxSizeBytes) ops = .ok c ∧
      HashIndex env c.state := by
  obtain ⟨c, l, hRun, hInv, -⟩ := run_from_new hA hMax ops
  exact ⟨c, hRun, hInv.hashIndex hA⟩

theorem hash_index_colliding :
    (∀ key key', collidingEnv.keyHash key = collidingEnv.keyHash key') ∧
      ∃ c, runOps collidingEnv (ResponseCache.new collidingEnv true 128) evictingOps = .ok c ∧
        HashIndex collidingEnv c.state :=
  ⟨fun _ _ => rfl, hash_index FirstFit.allocator_lawful (fun _ => by decide) evictingOps⟩

/-! ## The LRU list -/

/-- The clauses of the LRU list, over the links of the state. -/
structure LruOrder (st : CacheState RecordType DNSClass Heap) (l : List Nat) : Prop where
  /-- Following `next` from `lru_head` visits `l` and ends at `lru_tail`. -/
  visits : follow st.nextOf noEntry st.entries.length st.lruHead = l
  ends : st.lruTail = l.getLastD noEntry
  nodup : l.Nodup
  live : ∀ i, i ∈ l ↔ (st.live? i).isSome = true
  inverse : ∀ i j, i ∈ l → j ∈ l → (st.nextOf i = j ↔ st.prevOf j = i)
  outer : l ≠ [] → st.prevOf st.lruHead = noEntry ∧ st.nextOf st.lruTail = noEntry
  head_none : st.lruHead = noEntry ↔ ∀ i, st.live? i = none
  tail_none : st.lruTail = noEntry ↔ ∀ i, st.live? i = none
  /-- The key of an entry further to the front was used more recently. -/
  order : Recent st.keyAt (uses st.log) l

theorem Inv.length_le {st : CacheState RecordType DNSClass Heap} {l : List Nat}
    (h : Inv env st l) : l.length ≤ st.entries.length := by
  have hCard := Finset.card_le_card (s := l.toFinset) (t := Finset.range st.entries.length) ?_
  · rwa [List.toFinset_card_of_nodup (Threaded.nodup h.lru), Finset.card_range] at hCard
  · intro i hi
    obtain ⟨m, hm⟩ := Option.isSome_iff_exists.mp (h.live_of_mem i (List.mem_toFinset.mp hi))
    exact Finset.mem_range.mpr (lt_of_live? hm)

theorem Inv.empty_iff {st : CacheState RecordType DNSClass Heap} {l : List Nat}
    (h : Inv env st l) : l = [] ↔ ∀ i, st.live? i = none := by
  constructor
  · rintro rfl i
    have hMem := h.mem_lru i
    simpa using hMem
  · intro hNone
    refine List.eq_nil_iff_forall_not_mem.mpr fun i hi => ?_
    have hSome := h.live_of_mem i hi
    rw [hNone i] at hSome
    cases hSome

theorem Inv.lruOrder {st : CacheState RecordType DNSClass Heap} {l : List Nat}
    (h : Inv env st l) : LruOrder st l := by
  have hThreaded : Threaded st.nextOf st.prevOf noEntry st.lruHead st.lruTail l := h.lru
  constructor
  case visits =>
    rw [hThreaded.head_eq]
    exact hThreaded.links.follow hThreaded.proper h.length_le
  case ends => exact hThreaded.tail_eq
  case nodup => exact hThreaded.nodup
  case live => exact h.mem_lru
  case inverse => exact fun i j hi hj => hThreaded.inverse hi hj
  case outer => exact hThreaded.ends
  case head_none => rw [hThreaded.head_eq_iff, h.empty_iff]
  case tail_none => rw [hThreaded.tail_eq_iff, h.empty_iff]
  case order => exact h.recent

/-- **The LRU list.** After every sequence of calls, the list threaded through
the slab has exactly the live entries, in the order of their last use in the
log that the calls explain. -/
theorem lru_list (hA : env.alloc.Lawful) {enabled : Bool} {maxSizeBytes : Nat}
    (hMax : enabled = true → maxSizeBytes ≤ maxCacheBytes) (ops : List (Op RecordType DNSClass)) :
    ∃ c l, runOps env (ResponseCache.new env enabled maxSizeBytes) ops = .ok c ∧
      Chronicle ops c.state.log ∧ LruOrder c.state l := by
  obtain ⟨c, l, hRun, hInv, -, hChronicle⟩ := run_from_new hA hMax ops
  exact ⟨c, l, hRun, hChronicle, hInv.lruOrder⟩

theorem lru_list_evicting :
    ((runOps collidingEnv (ResponseCache.new collidingEnv true 128) evictingOps).toOption.map
      fun c => (c.state.lruHead, c.state.lruTail, c.state.tombstones)) = some (1, 0, 0) ∧
    ∃ c l, runOps collidingEnv (ResponseCache.new collidingEnv true 128) evictingOps = .ok c ∧
      Chronicle evictingOps c.state.log ∧ LruOrder c.state l :=
  ⟨by decide +kernel, lru_list FirstFit.allocator_lawful (fun _ => by decide) evictingOps⟩

/-! ## The finite map -/

/-- **The cache refines a finite map.** After every sequence of calls, a lookup
hits exactly when the log has a record under the key that is before the end of
its stale window, and serves that record's bytes, aged. -/
theorem cache_refines_map (hA : env.alloc.Lawful) {enabled : Bool} {maxSizeBytes : Nat}
    (hMax : enabled = true → maxSizeBytes ≤ maxCacheBytes) (ops : List (Op RecordType DNSClass)) :
    ∃ c, runOps env (ResponseCache.new env enabled maxSizeBytes) ops = .ok c ∧
      Chronicle ops c.state.log ∧
      ∀ (key : Key RecordType DNSClass) (now : Nat), ∃ found c',
        c.getWithFlags env key now = .ok (found, c') ∧
        (found.isSome = true ↔
          ∃ record, current c.state.log key = some record ∧ now < record.staleUntil) ∧
        ∀ wire refresh stale, found = some (wire, refresh, stale) →
          ∃ record done, current c.state.log key = some record ∧
            ageTtls record.wire (elapsedSecs record.originalTtl record.expiresAt now) stale =
              .ok (done, wire) := by
  obtain ⟨c, l, hRun, hInv, hDisabled, hChronicle⟩ := run_from_new hA hMax ops
  refine ⟨c, hRun, hChronicle, fun key now => ?_⟩
  obtain ⟨found, st', l', hGet, -, -, events, -, hEvents⟩ :=
    getWithFlags_spec hA hInv hDisabled key now
  refine ⟨found, _, hGet, hEvents.isSome_iff, ?_⟩
  rintro wire refresh stale rfl
  obtain ⟨record, done, hCurrent, -, -, hAge⟩ := hEvents.served
  exact ⟨record, done, hCurrent, hAge⟩

/-- Of the three responses the first and the last can still be looked up. -/
theorem cache_refines_map_evicting :
    ((runOps collidingEnv (ResponseCache.new collidingEnv true 128) evictingOps).toOption.map
      fun c => ([97, 98, 99] : Bytes).map fun b =>
        (current c.state.log ⟨[b, 46], 1, 1, 0⟩).isSome) = some [true, false, true] ∧
    ∃ c, runOps collidingEnv (ResponseCache.new collidingEnv true 128) evictingOps = .ok c ∧
      Chronicle evictingOps c.state.log ∧
      ∀ (key : Key Nat Nat) (now : Nat), ∃ found c',
        c.getWithFlags collidingEnv key now = .ok (found, c') ∧
        (found.isSome = true ↔
          ∃ record, current c.state.log key = some record ∧ now < record.staleUntil) ∧
        ∀ wire refresh stale, found = some (wire, refresh, stale) →
          ∃ record done, current c.state.log key = some record ∧
            ageTtls record.wire (elapsedSecs record.originalTtl record.expiresAt now) stale =
              .ok (done, wire) :=
  ⟨by decide +kernel,
    cache_refines_map FirstFit.allocator_lawful (fun _ => by decide) evictingOps⟩

end DnsRs.Cache
