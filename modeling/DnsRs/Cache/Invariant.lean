import DnsRs.Cache.Table

/-!
# The invariant of the cache

`Inv env st l` ties the four structures together: the index serves every entry,
the free list is what the slab does not use, live allocations are disjoint
parts of the pool, the LRU list is `l` and holds exactly the live entries in
the order of their last use, and what the entries hold is what the log says was
stored and not evicted (`History`).

Every part but the index and the list looks only at what `Same` keeps. The main
result here is `evict_spec`: an eviction returns, keeps the invariant and takes
away one entry.
-/

namespace DnsRs.Cache

open Lib Wire CacheState

variable {RecordType DNSClass Heap : Type}

/-! ## The parts -/

/-- The record of an entry, read from the pool. -/
def CacheState.contentOf (pool : Bytes) (m : EntryMeta RecordType DNSClass) : Record where
  wire := readAt pool (m.offset + m.nameLen) m.wireLen
  request := readAt pool (m.offset + m.nameLen + m.wireLen) m.requestLen
  expiresAt := m.expiresAt
  staleUntil := m.staleUntil
  originalTtl := m.originalTtl

/-- The free list has exactly the vacant indexes of the slab, once each. -/
structure Slab (st : CacheState RecordType DNSClass Heap) : Prop where
  nodup : st.freeEntries.Nodup
  mem_free : ∀ i, i ∈ st.freeEntries ↔ i < st.entries.length ∧ st.live? i = none

/-- The live entries own disjoint parts of the pool. -/
structure Arena (A : Allocator Heap) (st : CacheState RecordType DNSClass Heap) : Prop where
  poolSize_eq : A.poolSize st.heap = st.pool.length
  pool_le : st.pool.length ≤ 2 ^ 30
  slab_le : st.entries.length ≤ st.pool.length
  name_le : ∀ i m, st.live? i = some m → m.nameLen ≤ maxNameLen
  mem_spans : ∀ i m, st.live? i = some m → (m.offset, m.totalLen) ∈ A.spans st.heap
  inside : ∀ i m, st.live? i = some m → m.offset + A.block m.totalLen ≤ st.pool.length
  disjoint : ∀ i j m m', st.live? i = some m → st.live? j = some m' → i ≠ j →
    DisjointRange m.offset (A.block m.totalLen) m'.offset (A.block m'.totalLen)

/-- An entry of the state has this key and this record. -/
def Holds (st : CacheState RecordType DNSClass Heap) (key : Key RecordType DNSClass)
    (record : Record) : Prop :=
  ∃ i m, st.live? i = some m ∧ keyOf st.pool m = key ∧ contentOf st.pool m = record

variable {env : Env RecordType DNSClass Heap} {st st₁ st₂ : CacheState RecordType DNSClass Heap}
  {i : Nat} {m m' : EntryMeta RecordType DNSClass} {l : List Nat} {key : Key RecordType DNSClass}
  {record : Record}

/-! ## What only depends on the bodies -/

theorem Same.slab (h : Same st₁ st₂) (hSlab : Slab st₁) : Slab st₂ := by
  refine ⟨by rw [h.freeEntries]; exact hSlab.nodup, fun i => ?_⟩
  rw [h.freeEntries, hSlab.mem_free, h.length, ← Option.not_isSome_iff_eq_none,
    ← Option.not_isSome_iff_eq_none, h.isSome]

theorem Same.arena {A : Allocator Heap} (h : Same st₁ st₂) (hArena : Arena A st₁) :
    Arena A st₂ := by
  -- where an entry lies in the pool is part of its body
  have hLive : ∀ i m, st₂.live? i = some m → ∃ m', st₁.live? i = some m' ∧
      m'.offset = m.offset ∧ m'.totalLen = m.totalLen ∧ m'.nameLen = m.nameLen := by
    intro i m hi
    obtain ⟨m', hi', hBody⟩ := h.symm.live hi
    have hName : m'.body.nameLen = m.body.nameLen := congrArg _ hBody
    exact ⟨m', hi', (body_eq_iff hBody).1, (body_eq_iff hBody).2.1, hName⟩
  constructor
  case poolSize_eq => rw [h.heap, h.pool]; exact hArena.poolSize_eq
  case pool_le => rw [h.pool]; exact hArena.pool_le
  case slab_le => rw [h.length, h.pool]; exact hArena.slab_le
  case name_le =>
    intro i m hi
    obtain ⟨m', hi', -, -, hName⟩ := hLive i m hi
    exact hName ▸ hArena.name_le i m' hi'
  case mem_spans =>
    intro i m hi
    obtain ⟨m', hi', hOffset, hTotal, -⟩ := hLive i m hi
    rw [← hOffset, ← hTotal, h.heap]
    exact hArena.mem_spans i m' hi'
  case inside =>
    intro i m hi
    obtain ⟨m', hi', hOffset, hTotal, -⟩ := hLive i m hi
    rw [← hOffset, ← hTotal, h.pool]
    exact hArena.inside i m' hi'
  case disjoint =>
    intro i j mi mj hi hj hne
    obtain ⟨mi', hi', hOffset, hTotal, -⟩ := hLive i mi hi
    obtain ⟨mj', hj', hOffset', hTotal', -⟩ := hLive j mj hj
    rw [← hOffset, ← hTotal, ← hOffset', ← hTotal']
    exact hArena.disjoint i j mi' mj' hi' hj' hne

theorem contentOf_congr (h : m'.body = m.body) (pool : Bytes) :
    contentOf pool m' = contentOf pool m := by
  have hRecord : contentOf pool m'.body = contentOf pool m.body := congrArg _ h
  exact hRecord

theorem Same.holds (h : Same st₁ st₂) (hHolds : Holds st₁ key record) : Holds st₂ key record := by
  obtain ⟨i, m, hi, hKey, hRecord⟩ := hHolds
  obtain ⟨m', hi', hBody⟩ := h.live hi
  refine ⟨i, m', hi', ?_, ?_⟩
  · rw [h.pool, (body_eq_iff hBody).2.2, hKey]
  · rw [h.pool, contentOf_congr hBody, hRecord]

theorem Same.holds_iff (h : Same st₁ st₂) : Holds st₂ key record ↔ Holds st₁ key record :=
  ⟨h.symm.holds, h.holds⟩

theorem Arena.readable (hA : env.alloc.Lawful) (h : Arena env.alloc st) : st.Readable := by
  intro i m hi
  have hInside := h.inside i m hi
  have hBlock := hA.le_block m.totalLen
  omega

/-! ## The invariant -/

variable [DecidableEq RecordType] [DecidableEq DNSClass]

/-- The entries are what the log says is stored. -/
def History (st : CacheState RecordType DNSClass Heap) : Prop :=
  ∀ key record, current st.log key = some record ↔ Holds st key record

structure Inv (env : Env RecordType DNSClass Heap) (st : CacheState RecordType DNSClass Heap)
    (l : List Nat) : Prop where
  index : Index env (fun _ => True) st
  count : st.tableLen = st.occupied
  slab : Slab st
  arena : Arena env.alloc st
  distinct : Distinct st
  history : History st
  lru : st.LruList l
  mem_lru : ∀ i, i ∈ l ↔ (st.live? i).isSome = true
  recent : Recent st.keyAt (uses st.log) l

/-- The invariant after a change that keeps the entries and the log. -/
theorem Inv.same (h : Inv env st₁ l) (hSame : Same st₁ st₂)
    (hIndex : Index env (fun _ => True) st₂) (hCount : st₂.tableLen = st₂.occupied)
    (hLru : st₂.LruList l) : Inv env st₂ l where
  index := hIndex
  count := hCount
  slab := hSame.slab h.slab
  arena := hSame.arena h.arena
  distinct := hSame.distinct h.distinct
  history := fun key record => by rw [hSame.log, h.history, hSame.holds_iff]
  lru := hLru
  mem_lru := fun i => by rw [hSame.isSome]; exact h.mem_lru i
  recent := by
    rw [hSame.log]
    exact h.recent.congr fun j _ => hSame.keyAt j

/-- The invariant after an event was logged. -/
theorem inv_logged {log : List (CacheEvent RecordType DNSClass)}
    (hIndex : Index env (fun _ => True) st) (hCount : st.tableLen = st.occupied) (hSlab : Slab st)
    (hArena : Arena env.alloc st) (hDistinct : Distinct st)
    (hHistory : ∀ key record, current log key = some record ↔ Holds st key record)
    (hLru : st.LruList l) (hMem : ∀ i, i ∈ l ↔ (st.live? i).isSome = true)
    (hRecent : Recent st.keyAt (uses log) l) : Inv env { st with log := log } l where
  index := ⟨hIndex.size, hIndex.small, hIndex.proper, hIndex.placed_slot, hIndex.slot_placed,
    hIndex.tableLen_eq, hIndex.tombstones_eq, hIndex.room⟩
  count := hCount
  slab := ⟨hSlab.nodup, hSlab.mem_free⟩
  arena := ⟨hArena.poolSize_eq, hArena.pool_le, hArena.slab_le, hArena.name_le, hArena.mem_spans,
    hArena.inside, hArena.disjoint⟩
  distinct := hDistinct
  history := hHistory
  lru := hLru
  mem_lru := hMem
  recent := hRecent

/-- What a live entry holds is what the log says is stored under its key. -/
theorem Inv.stored (h : Inv env st l) (hi : st.live? i = some m) :
    current st.log (keyOf st.pool m) = some (contentOf st.pool m) :=
  (h.history _ _).mpr ⟨i, m, hi, rfl, rfl⟩

/-- No entry has a key that the log does not have. -/
theorem Inv.absent_iff (h : Inv env st l) :
    (∀ j, st.keyAt j ≠ some key) ↔ current st.log key = none := by
  constructor
  · intro hAbsent
    by_contra hSome
    obtain ⟨record, hRecord⟩ := Option.ne_none_iff_exists'.mp hSome
    obtain ⟨j, m, hj, hKey, -⟩ := (h.history key record).mp hRecord
    exact hAbsent j (keyAt_eq_some.mpr ⟨m, hj, hKey⟩)
  · intro hNone j hj
    obtain ⟨m, hm, rfl⟩ := keyAt_eq_some.mp hj
    rw [h.stored hm] at hNone
    cases hNone

theorem Inv.live_of_mem (h : Inv env st l) : ∀ x ∈ l, (st.live? x).isSome = true := fun x hx =>
  (h.mem_lru x).mp hx

/-- A live entry, seen in the list. -/
theorem Inv.split (h : Inv env st l) (hi : st.live? i = some m) :
    ∃ l₁ l₂, l = l₁ ++ i :: l₂ ∧ i ∉ l₁ ++ l₂ ∧ l.erase i = l₁ ++ l₂ := by
  have hMem : i ∈ l := (h.mem_lru i).mpr (by rw [hi]; rfl)
  obtain ⟨l₁, l₂, rfl⟩ := List.append_of_mem hMem
  have hNodup := Threaded.nodup h.lru
  rw [List.nodup_middle, List.nodup_cons] at hNodup
  refine ⟨l₁, l₂, rfl, hNodup.1, ?_⟩
  rw [List.erase_append_right _ fun hIn => hNodup.1 (List.mem_append_left _ hIn),
    List.erase_cons_head]

/-! ## Eviction -/

section Discard

omit [DecidableEq RecordType] [DecidableEq DNSClass]

variable (hi : st.live? i = some m) (reason : Reason)

include hi

theorem Slab.discarded (h : Slab st) : Slab (st.discarded env i m reason) := by
  -- a live index is not free yet, so it is freed once
  have hNotFree : i ∉ st.freeEntries := by
    intro hFree
    have hNone := ((h.mem_free i).mp hFree).2
    rw [hi] at hNone
    cases hNone
  refine ⟨List.nodup_cons.mpr ⟨hNotFree, h.nodup⟩, fun j => ?_⟩
  rw [live?_discarded env hi]
  simp only [CacheState.discarded, List.mem_cons, List.length_set, h.mem_free]
  by_cases hj : j = i
  · subst hj
    simp [lt_of_live? hi]
  · simp [hj]

theorem Arena.discarded (hA : env.alloc.Lawful) (h : Arena env.alloc st) :
    Arena env.alloc (st.discarded env i m reason) := by
  have hView := live?_discarded env hi reason
  have hSpan := h.mem_spans i m hi
  -- what is left was there before
  have hLive : ∀ j m', (st.discarded env i m reason).live? j = some m' →
      j ≠ i ∧ st.live? j = some m' := by
    intro j m' hj
    rw [hView] at hj
    split at hj
    · cases hj
    · exact ⟨‹_›, hj⟩
  constructor
  case poolSize_eq => exact (hA.poolSize_deallocate hSpan).trans h.poolSize_eq
  case pool_le => exact h.pool_le
  case slab_le => simpa [CacheState.discarded] using h.slab_le
  case name_le => exact fun j m' hj => h.name_le j m' (hLive j m' hj).2
  case mem_spans =>
    intro j m' hj
    obtain ⟨hne, hj⟩ := hLive j m' hj
    -- an entry with the same span would overlap
    have hOther : (m'.offset, m'.totalLen) ≠ (m.offset, m.totalLen) := by
      intro hEq
      rw [Prod.mk.injEq] at hEq
      have hApart := h.disjoint j i m' m hj hi hne
      have hPos := hA.block_pos m.totalLen
      rw [hEq.1, hEq.2, DisjointRange] at hApart
      omega
    have hIn : (m'.offset, m'.totalLen) ∈ (env.alloc.spans st.heap).erase (m.offset, m.totalLen) :=
      (List.mem_erase_of_ne hOther).mpr (h.mem_spans j m' hj)
    rw [← hA.spans_deallocate hSpan] at hIn
    exact hIn
  case inside => exact fun j m' hj => h.inside j m' (hLive j m' hj).2
  case disjoint =>
    exact fun j k mj mk hj hk => h.disjoint j k mj mk (hLive j mj hj).2 (hLive k mk hk).2

theorem keyAt_discarded (j : Nat) :
    (st.discarded env i m reason).keyAt j = if j = i then none else st.keyAt j := by
  rw [keyAt, live?_discarded env hi]
  split
  · rfl
  · rfl

theorem Distinct.discarded (h : Distinct st) : Distinct (st.discarded env i m reason) := by
  intro j k key hj hk
  rw [keyAt_discarded hi] at hj hk
  split at hj
  · cases hj
  · split at hk
    · cases hk
    · exact h j k key hj hk

/-- What is left are the entries of the other keys. -/
theorem holds_discarded (h : Distinct st) (key : Key RecordType DNSClass) (record : Record) :
    Holds (st.discarded env i m reason) key record ↔
      keyOf st.pool m ≠ key ∧ Holds st key record := by
  constructor
  · rintro ⟨j, m', hj, hKey, hRecord⟩
    rw [live?_discarded env hi] at hj
    split at hj
    · cases hj
    · rename_i hne
      -- keys are distinct, so another entry has another key
      refine ⟨fun hEq => hne ?_, j, m', hj, hKey, hRecord⟩
      exact h j i key (keyAt_eq_some.mpr ⟨m', hj, hKey⟩) (keyAt_eq_some.mpr ⟨m, hi, hEq⟩)
  · rintro ⟨hne, j, m', hj, hKey, hRecord⟩
    refine ⟨j, m', ?_, hKey, hRecord⟩
    rw [live?_discarded env hi, if_neg]
    · exact hj
    · rintro rfl
      rw [hi] at hj
      cases hj
      exact hne hKey

end Discard

/-- What an eviction does. -/
structure Evicted (st : CacheState RecordType DNSClass Heap) (i : Nat)
    (m : EntryMeta RecordType DNSClass) (reason : Reason)
    (st' : CacheState RecordType DNSClass Heap) : Prop where
  log : st'.log = .evicted (keyOf st.pool m) reason :: st.log
  pool : st'.pool = st.pool
  length : st'.entries.length = st.entries.length
  tableLen : st'.tableLen + 1 = st.tableLen
  load : st'.tableLen + st'.tombstones = st.tableLen + st.tombstones
  table : st'.table.length = st.table.length
  gone : st'.live? i = none
  others : ∀ j ≠ i, (st'.live? j).map EntryMeta.core = (st.live? j).map EntryMeta.core

theorem Inv.discarded (hA : env.alloc.Lawful) {l₁ l₂ : List Nat} (h : Inv env st₁ (l₁ ++ i :: l₂))
    (hNew : i ∉ l₁ ++ l₂) (hSame : Relinked st₁ st) (hLru : st.LruList (l₁ ++ l₂))
    (hi : st.live? i = some m) (reason : Reason) :
    Inv env (st.discarded env i m reason) (l₁ ++ l₂) := by
  have hIndex := hSame.index h.index
  have hDistinct := hSame.distinct h.distinct
  have hView := live?_discarded env hi reason
  have hOther : ∀ x ∈ l₁ ++ l₂, x ≠ i := fun x hx hEq => hNew (hEq ▸ hx)
  have hKept : ∀ x ∈ l₁ ++ l₂, (st.discarded env i m reason).live? x = st.live? x := by
    intro x hx
    rw [hView, if_neg (hOther x hx)]
  constructor
  case index => exact hIndex.discarded hi reason
  case count =>
    -- one slot and one slab entry less
    have hOccupied := occupied_discarded env hi reason
    rw [hSame.occupied, ← h.count, ← hSame.tableLen] at hOccupied
    simp only [CacheState.discarded] at hOccupied ⊢
    omega
  case slab => exact (hSame.slab h.slab).discarded hi reason
  case arena => exact (hSame.arena h.arena).discarded hi reason hA
  case distinct => exact hDistinct.discarded hi reason
  case history =>
    intro key record
    rw [holds_discarded hi reason hDistinct, hSame.holds_iff, ← h.history, ← hSame.log]
    -- both sides lose the key of `m` and nothing else
    change current (.evicted (keyOf st.pool m) reason :: st.log) key = some record ↔ _
    rw [current]
    split
    · simp [*]
    · simp [*]
  case lru => exact LruList.congr hLru hKept rfl rfl
  case mem_lru =>
    intro j
    rw [hView]
    by_cases hj : j = i
    · subst hj
      simp [hNew]
    · rw [if_neg hj, hSame.isSome, ← h.mem_lru]
      simp [hj]
  case recent =>
    have hRecent := h.recent.sublist ((List.sublist_cons_self i l₂).append_left l₁)
    rw [← hSame.log] at hRecent
    refine hRecent.congr fun j hj => ?_
    rw [keyAt_discarded hi, if_neg (hOther j hj), hSame.keyAt]

/-- **Eviction** of a live entry returns, keeps the invariant and removes that
entry only. -/
theorem evict_spec (hA : env.alloc.Lawful) (h : Inv env st l) (hi : st.live? i = some m)
    (reason : Reason) :
    ∃ st', st.evict env i reason = .ok st' ∧ Inv env st' (l.erase i) ∧
      Evicted st i m reason st' := by
  -- first out of the list, then out of the table, the slab and the arena
  obtain ⟨l₁, l₂, rfl, hNew, hErase⟩ := h.split hi
  obtain ⟨st₁, hUnlink, hSame, hLru⟩ := unlink_spec h.lru h.live_of_mem
  obtain ⟨m₁, hm₁, hBody⟩ := hSame.live hi
  have hIndex := hSame.index h.index
  have hPos := hIndex.tableLen_pos trivial hm₁
  have hView := live?_discarded env hm₁ reason
  refine ⟨st₁.discarded env i m₁ reason, ?_, ?_, ?_⟩
  · rw [evict, hUnlink, ok_bind, entry_eq_ok.mpr hm₁, ok_bind,
      discard_eq_ok hIndex trivial hm₁]
  · rw [hErase]
    exact h.discarded hA hNew hSame hLru hm₁ reason
  · constructor
    case log =>
      change _ :: st₁.log = _
      rw [hSame.log, hSame.pool, (body_eq_iff hBody).2.2]
    case pool => exact hSame.pool
    case length => exact List.length_set.trans hSame.length
    case tableLen =>
      have hLen := hSame.tableLen
      simp only [CacheState.discarded]
      omega
    case load =>
      have hLen := hSame.tableLen
      have hTombs := hSame.tombstones
      simp only [CacheState.discarded]
      omega
    case table => exact List.length_set.trans (congrArg List.length hSame.table)
    case gone => rw [hView, if_pos rfl]
    case others =>
      intro j hj
      rw [hView, if_neg hj]
      exact hSame.core j

end DnsRs.Cache
