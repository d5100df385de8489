import DnsRs.Cache.Space

/-!
# Insertion

`store_spec`: once the key is absent, the table has room and the allocation has
succeeded, a new entry is added to all four structures and the log. The state
between `alloc_entry` and the two link steps is `Added`: an entry that is live
but neither in the table nor in the list. `insertLocked_spec` and
`insertWithFlags_spec` put the steps of an insert together.
-/

namespace DnsRs.Cache

open Lib Wire CacheState ResponseCache

variable {RecordType DNSClass Heap : Type}

/-! ## A new entry -/

/-- The entry `m` has been allocated and written, in the arena and in the slab. -/
structure Added (A : Allocator Heap) (st : CacheState RecordType DNSClass Heap) (i : Nat)
    (m : EntryMeta RecordType DNSClass) (st' : CacheState RecordType DNSClass Heap) : Prop where
  alloc : A.allocateFirstFit st.heap m.totalLen = some (m.offset, st'.heap)
  fresh : st.live? i = none
  view : ∀ j, st'.live? j = if j = i then some m else st.live? j
  length : st'.entries.length = st.entries.length ∨
    ∀ j < st'.entries.length, (st'.live? j).isSome = true
  pool_length : st'.pool.length = st.pool.length
  reads : ∀ a n, DisjointRange a n m.offset m.totalLen → readAt st'.pool a n = readAt st.pool a n
  table : st'.table = st.table
  tableLen : st'.tableLen = st.tableLen
  tombstones : st'.tombstones = st.tombstones
  lruHead : st'.lruHead = st.lruHead
  lruTail : st'.lruTail = st.lruTail

section Added

variable {env : Env RecordType DNSClass Heap} {st st' : CacheState RecordType DNSClass Heap}
  {i j : Nat} {m mj : EntryMeta RecordType DNSClass}

theorem Added.view_new (h : Added env.alloc st i m st') : st'.live? i = some m := by
  rw [h.view, if_pos rfl]

theorem Added.view_old (h : Added env.alloc st i m st') (hj : st.live? j = some mj) :
    j ≠ i ∧ st'.live? j = some mj := by
  have hne : j ≠ i := by
    rintro rfl
    rw [h.fresh] at hj
    cases hj
  exact ⟨hne, by rw [h.view, if_neg hne, hj]⟩

/-- A live entry is the new one or an old one. -/
theorem Added.cases (h : Added env.alloc st i m st') (hj : st'.live? j = some mj) :
    (j = i ∧ mj = m) ∨ (j ≠ i ∧ st.live? j = some mj) := by
  rw [h.view] at hj
  split at hj
  · cases hj
    exact .inl ⟨‹_›, rfl⟩
  · exact .inr ⟨‹_›, hj⟩

/-- The new allocation is apart from the old ones. -/
theorem Added.apart (h : Added env.alloc st i m st') (hA : env.alloc.Lawful)
    (hArena : Arena env.alloc st) (hj : st.live? j = some mj) :
    DisjointRange m.offset (env.alloc.block m.totalLen) mj.offset (env.alloc.block mj.totalLen) :=
  hA.disjoint h.alloc _ (hArena.mem_spans j mj hj)

/-- So the bytes of the old entries are as they were. -/
theorem Added.reads_old (h : Added env.alloc st i m st') (hA : env.alloc.Lawful)
    (hArena : Arena env.alloc st) (hj : st.live? j = some mj) {a n : Nat} (hStart : mj.offset ≤ a)
    (hEnd : a + n ≤ mj.offset + mj.totalLen) : readAt st'.pool a n = readAt st.pool a n := by
  have hApart := h.apart hA hArena hj
  have hBlock := hA.le_block m.totalLen
  have hBlock' := hA.le_block mj.totalLen
  rw [DisjointRange] at hApart
  exact h.reads a n (by rw [DisjointRange]; omega)

theorem Added.keyOf_old (h : Added env.alloc st i m st') (hA : env.alloc.Lawful)
    (hArena : Arena env.alloc st) (hj : st.live? j = some mj) :
    keyOf st'.pool mj = keyOf st.pool mj := by
  rw [keyOf, keyOf, h.reads_old hA hArena hj (Nat.le_refl _) (by rw [EntryMeta.totalLen]; omega)]

theorem Added.contentOf_old (h : Added env.alloc st i m st') (hA : env.alloc.Lawful)
    (hArena : Arena env.alloc st) (hj : st.live? j = some mj) :
    contentOf st'.pool mj = contentOf st.pool mj := by
  rw [contentOf, contentOf,
    h.reads_old hA hArena hj (by omega) (by rw [EntryMeta.totalLen]; omega),
    h.reads_old hA hArena hj (by omega) (by rw [EntryMeta.totalLen]; omega)]

theorem Added.keyAt (h : Added env.alloc st i m st') (hA : env.alloc.Lawful)
    (hArena : Arena env.alloc st) (j : Nat) :
    st'.keyAt j = if j = i then some (keyOf st'.pool m) else st.keyAt j := by
  rw [CacheState.keyAt, h.view]
  split
  · rfl
  · rw [CacheState.keyAt]
    cases hj : st.live? j with
    | none => rfl
    | some mj => exact congrArg some (h.keyOf_old hA hArena hj)

/-- Disjoint allocations are no more than there are bytes. -/
theorem slab_le_of_full (hA : env.alloc.Lawful)
    (hFull : ∀ j < st.entries.length, (st.live? j).isSome = true)
    (hInside : ∀ j mj, st.live? j = some mj →
      mj.offset + env.alloc.block mj.totalLen ≤ st.pool.length)
    (hApart : ∀ j k mj mk, st.live? j = some mj → st.live? k = some mk → j ≠ k →
      DisjointRange mj.offset (env.alloc.block mj.totalLen) mk.offset
        (env.alloc.block mk.totalLen)) :
    st.entries.length ≤ st.pool.length := by
  -- the offsets are distinct positions in the pool
  have hCard := Finset.card_le_card_of_injOn (s := Finset.range st.entries.length)
    (t := Finset.range st.pool.length) (fun j => ((st.live? j).map EntryMeta.offset).getD 0) ?_ ?_
  · simpa using hCard
  · intro j hj
    obtain ⟨mj, hmj⟩ := Option.isSome_iff_exists.mp (hFull j (by simpa using hj))
    have hIn := hInside j mj hmj
    have hPos := hA.block_pos mj.totalLen
    simp only [hmj, Option.map_some, Option.getD_some, Finset.coe_range, Set.mem_Iio]
    omega
  · intro j hj k hk hEq
    obtain ⟨mj, hmj⟩ := Option.isSome_iff_exists.mp (hFull j (by simpa using hj))
    obtain ⟨mk, hmk⟩ := Option.isSome_iff_exists.mp (hFull k (by simpa using hk))
    simp only [hmj, hmk, Option.map_some, Option.getD_some] at hEq
    by_contra hne
    have hDisjoint := hApart j k mj mk hmj hmk hne
    have hPos := hA.block_pos mj.totalLen
    have hPos' := hA.block_pos mk.totalLen
    rw [DisjointRange, hEq] at hDisjoint
    omega

theorem Added.arena (h : Added env.alloc st i m st') (hA : env.alloc.Lawful)
    (hArena : Arena env.alloc st) (hName : m.nameLen ≤ maxNameLen) : Arena env.alloc st' := by
  have hInside : ∀ j mj, st'.live? j = some mj →
      mj.offset + env.alloc.block mj.totalLen ≤ st'.pool.length := by
    intro j mj hj
    rw [h.pool_length]
    rcases h.cases hj with ⟨-, rfl⟩ | ⟨-, hj⟩
    · rw [← hArena.poolSize_eq]
      exact hA.inside h.alloc
    · exact hArena.inside j mj hj
  have hApart : ∀ j k mj mk, st'.live? j = some mj → st'.live? k = some mk → j ≠ k →
      DisjointRange mj.offset (env.alloc.block mj.totalLen) mk.offset
        (env.alloc.block mk.totalLen) := by
    intro j k mj mk hj hk hne
    rcases h.cases hj with ⟨hji, rfl⟩ | ⟨-, hj⟩
    · rcases h.cases hk with ⟨hki, -⟩ | ⟨-, hk⟩
      · exact absurd (hji.trans hki.symm) hne
      · exact h.apart hA hArena hk
    · rcases h.cases hk with ⟨-, rfl⟩ | ⟨-, hk⟩
      · exact (h.apart hA hArena hj).symm
      · exact hArena.disjoint j k mj mk hj hk hne
  constructor
  case poolSize_eq =>
    rw [hA.poolSize_allocate h.alloc, h.pool_length]
    exact hArena.poolSize_eq
  case pool_le => rw [h.pool_length]; exact hArena.pool_le
  case slab_le =>
    rcases h.length with hLen | hFull
    · rw [hLen, h.pool_length]
      exact hArena.slab_le
    · exact slab_le_of_full hA hFull hInside hApart
  case name_le =>
    intro j mj hj
    rcases h.cases hj with ⟨-, rfl⟩ | ⟨-, hj⟩
    · exact hName
    · exact hArena.name_le j mj hj
  case mem_spans =>
    intro j mj hj
    rw [hA.spans_allocate h.alloc]
    rcases h.cases hj with ⟨-, rfl⟩ | ⟨-, hj⟩
    · exact List.mem_cons_self
    · exact List.mem_cons_of_mem _ (hArena.mem_spans j mj hj)
  case inside => exact hInside
  case disjoint => exact hApart

theorem Added.distinct (h : Added env.alloc st i m st') (hA : env.alloc.Lawful)
    (hArena : Arena env.alloc st) (hDistinct : Distinct st)
    (hNew : ∀ j, st.keyAt j ≠ some (keyOf st'.pool m)) : Distinct st' := by
  intro j k key hj hk
  rw [h.keyAt hA hArena] at hj hk
  split at hj
  · split at hk
    · subst_vars
      rfl
    · exact absurd (hk.trans hj.symm) (hNew k)
  · split at hk
    · exact absurd (hj.trans hk.symm) (hNew j)
    · exact hDistinct j k key hj hk

theorem Added.holds_iff (h : Added env.alloc st i m st') (hA : env.alloc.Lawful)
    (hArena : Arena env.alloc st) (key : Key RecordType DNSClass) (record : Record) :
    Holds st' key record ↔
      (keyOf st'.pool m = key ∧ contentOf st'.pool m = record) ∨ Holds st key record := by
  constructor
  · rintro ⟨j, mj, hj, hKey, hRecord⟩
    rcases h.cases hj with ⟨-, rfl⟩ | ⟨-, hj⟩
    · exact .inl ⟨hKey, hRecord⟩
    · rw [h.keyOf_old hA hArena hj] at hKey
      rw [h.contentOf_old hA hArena hj] at hRecord
      exact .inr ⟨j, mj, hj, hKey, hRecord⟩
  · rintro (⟨hKey, hRecord⟩ | ⟨j, mj, hj, hKey, hRecord⟩)
    · exact ⟨i, m, h.view_new, hKey, hRecord⟩
    · refine ⟨j, mj, (h.view_old hj).2, ?_, ?_⟩
      · rw [h.keyOf_old hA hArena hj, hKey]
      · rw [h.contentOf_old hA hArena hj, hRecord]

/-- The table serves all entries but the new one. -/
theorem Added.index (h : Added env.alloc st i m st') (hA : env.alloc.Lawful)
    (hArena : Arena env.alloc st) (hArena' : Arena env.alloc st')
    (hIndex : Index env (fun _ => True) st) : Index env (· ≠ i) st' := by
  constructor
  case size => rw [h.table]; exact hIndex.size
  case small => rw [h.table]; exact hIndex.small
  case proper =>
    have hSlab := hArena'.slab_le
    have hPool := hArena'.pool_le
    -- every index is below the size of the pool, far from the sentinels
    have hTomb : 2 ^ 30 ≤ tombstone := by decide
    omega
  case placed_slot =>
    intro j mj hne hj
    rcases h.cases hj with ⟨hji, -⟩ | ⟨-, hj⟩
    · exact absurd hji hne
    · rw [h.table, h.keyOf_old hA hArena hj]
      exact hIndex.placed_slot j mj trivial hj
  case slot_placed =>
    intro s slot hs hLive
    rw [h.table] at hs
    obtain ⟨-, mj, hj, hAt⟩ := hIndex.slot_placed s slot hs hLive
    obtain ⟨hne, hj'⟩ := h.view_old hj
    exact ⟨hne, mj, hj', hAt⟩
  case tableLen_eq => rw [h.table, h.tableLen]; exact hIndex.tableLen_eq
  case tombstones_eq => rw [h.table, h.tombstones]; exact hIndex.tombstones_eq
  case room => rw [h.table, h.tableLen, h.tombstones]; exact hIndex.room

theorem Added.lruList (h : Added env.alloc st i m st') {l : List Nat} (hNew : i ∉ l)
    (hLru : st.LruList l) : st'.LruList l := by
  have hOther : ∀ x ∈ l, st'.live? x = st.live? x := by
    intro x hx
    rw [h.view, if_neg]
    rintro rfl
    exact hNew hx
  exact LruList.congr hLru hOther h.lruHead h.lruTail

end Added

/-! ## Storing -/

variable [DecidableEq RecordType] [DecidableEq DNSClass] {env : Env RecordType DNSClass Heap}
  {st : CacheState RecordType DNSClass Heap} {l : List Nat} {key : Key RecordType DNSClass}
  {record : Record}

/-- The bookkeeping of a new entry. -/
def newEntry (key : Key RecordType DNSClass) (record : Record) (offset lastUsed retryAfter : Nat)
    (reused : Bool) : EntryMeta RecordType DNSClass where
  offset := offset
  nameLen := key.name.length
  wireLen := record.wire.length
  requestLen := record.request.length
  recordType := key.recordType
  dnsClass := key.dnsClass
  flags := key.flags
  expiresAt := record.expiresAt
  staleUntil := record.staleUntil
  originalTtl := record.originalTtl
  lastUsed := lastUsed
  retryAfter := retryAfter
  reused := reused
  refreshFailures := 0
  refreshClaimed := false
  prev := noEntry
  next := noEntry
  tableSlot := 0

/-- The steps up to `alloc_entry`. -/
theorem added_spec (hA : env.alloc.Lawful) (h : Inv env st l) {offset : Nat} {heap : Heap}
    (hAlloc : env.alloc.allocateFirstFit st.heap
      (key.name.length + record.wire.length + record.request.length) = some (offset, heap))
    (lastUsed retryAfter : Nat) (reused : Bool) :
    ∃ pool i st₁, copyIn st.pool offset key.name record.wire record.request = .ok pool ∧
      ({ st with heap := heap, pool := pool } : CacheState RecordType DNSClass Heap).allocEntry
        (newEntry key record offset lastUsed retryAfter reused) = .ok (i, st₁) ∧
      Added env.alloc st i (newEntry key record offset lastUsed retryAfter reused) st₁ ∧
      Slab st₁ ∧ st₁.occupied = st.occupied + 1 ∧ st₁.log = st.log ∧
      keyOf st₁.pool (newEntry key record offset lastUsed retryAfter reused) = key ∧
      contentOf st₁.pool (newEntry key record offset lastUsed retryAfter reused) = record := by
  have hInside := hA.inside hAlloc
  have hBlock := hA.le_block (key.name.length + record.wire.length + record.request.length)
  rw [h.arena.poolSize_eq] at hInside
  obtain ⟨pool, hCopy, hLen, hName, hWire, hRequest, hReads⟩ := copyIn_spec
    (show offset + (key.name.length + record.wire.length + record.request.length) ≤
      st.pool.length by omega)
  have hSlabLe := h.arena.slab_le
  have hPoolLe := h.arena.pool_le
  have hSmall : st.entries.length < 2 ^ 32 := by
    have hPow : (2 : Nat) ^ 30 < 2 ^ 32 := by decide
    omega
  have hSlab : Slab ({ st with heap := heap, pool := pool } : CacheState RecordType DNSClass Heap) :=
    ⟨h.slab.nodup, h.slab.mem_free⟩
  obtain ⟨i, st₁, hRun, hNew⟩ := allocEntry_spec hSlab hSmall
    (newEntry key record offset lastUsed retryAfter reused)
  have hPool : st₁.pool = pool := by rw [hNew.rest]
  have hHeap : st₁.heap = heap := by rw [hNew.rest]
  refine ⟨pool, i, st₁, hCopy, hRun, ?_, hNew.slab, hNew.occupied, by rw [hNew.rest], ?_, ?_⟩
  · constructor
    case alloc => rw [hHeap]; exact hAlloc
    case fresh => exact hNew.fresh
    case view => exact hNew.view
    case length => exact hNew.length
    case pool_length => rw [hPool]; exact hLen
    case reads => rw [hPool]; exact hReads
    all_goals rw [hNew.rest]
  · rw [hPool, keyOf]
    simp only [newEntry, hName]
  · rw [hPool, contentOf]
    simp only [newEntry, hWire, hRequest]

/-- The table step of an insert: the entry at `i` is the only one that is not
placed, and none of the others has its key. -/
theorem enterTable_spec {i : Nat} {m : EntryMeta RecordType DNSClass}
    (h : Index env (· ≠ i) st) (hRead : st.Readable) (hi : st.live? i = some m)
    (hKey : keyOf st.pool m = key) (hOther : ∀ j ≠ i, st.keyAt j ≠ some key)
    (hRoom : st.tableLen + st.tombstones + 1 < st.table.length) :
    ∃ s tombs, enterTable env st key i = .ok (st.placedAt env s i m tombs) ∧
      Index env (fun _ => True) (st.placedAt env s i m tombs) := by
  subst hKey
  rcases locate_spec h hRead (keyOf st.pool m) with
    ⟨j, -, hne, hFound⟩ | ⟨s, hLocate, -, ⟨old, hSlot, hDead⟩, hOpen⟩
  · exact absurd hFound (hOther j hne)
  -- the slot may be a tombstone; then there is one less of them
  have hTomb : old.isTombstone = true ↔ old.entry = tombstone := KeySlot.isTombstone_iff
  have hPos : old.entry = tombstone → 0 < st.tombstones := by
    intro hEq
    rw [h.tombstones_eq]
    exact List.countP_pos_iff.mpr ⟨old, List.mem_of_getElem? hSlot, hTomb.mpr hEq⟩
  have hTombs : (if old.entry = tombstone then st.tombstones - 1 else st.tombstones) +
      (if old.isTombstone = true then 1 else 0) = st.tombstones := by
    by_cases hEq : old.entry = tombstone
    · have := hPos hEq
      rw [if_pos hEq, if_pos (hTomb.mpr hEq)]
      omega
    · rw [if_neg hEq, if_neg fun hIs => hEq (hTomb.mp hIs)]
      rfl
  -- so the subtraction in the source does not underflow
  have hGuard : ¬ (old.entry = tombstone ∧ st.tombstones = 0) := by
    rintro ⟨hEq, hZero⟩
    have := hPos hEq
    omega
  have hPlaced := h.placedAt hi (fun hne => hne rfl) hSlot hDead hOpen hRoom _ hTombs
  refine ⟨s, _, ?_, hPlaced.congr_placed fun j _ => ⟨fun _ => (em (j = i)).symm, fun _ => trivial⟩⟩
  rw [enterTable]
  simp only [hLocate, ok_bind, hSlot, if_neg hGuard]
  exact place_eq_ok h hi (List.getElem?_eq_some_iff.mp hSlot).1 _

/-- The new entry is entered into the table and put at the front of the list. -/
theorem Added.linked {i : Nat} {m : EntryMeta RecordType DNSClass}
    {st₁ : CacheState RecordType DNSClass Heap} (hAdded : Added env.alloc st i m st₁)
    (hA : env.alloc.Lawful) (h : Inv env st l) (hArena₁ : Arena env.alloc st₁)
    (hKey : keyOf st₁.pool m = key) (hAbsent : ∀ j, st.keyAt j ≠ some key)
    (hRoom : st.tableLen + st.tombstones + 1 < st.table.length) :
    i ∉ l ∧ ∃ st₂ st₃, enterTable env st₁ key i = .ok st₂ ∧ st₂.attachFront i = .ok st₃ ∧
      Reslotted st₁ st₂ ∧ Relinked st₂ st₃ ∧ Index env (fun _ => True) st₃ ∧
      st₃.tableLen = st.tableLen + 1 ∧ st₃.LruList (i :: l) := by
  have hIndex₁ := hAdded.index hA h.arena hArena₁ h.index
  have hFresh : i ∉ l := by
    intro hMem
    have hSome := h.live_of_mem i hMem
    rw [hAdded.fresh] at hSome
    cases hSome
  obtain ⟨s, tombs, hEnter, hIndex₂⟩ := enterTable_spec hIndex₁ (hArena₁.readable hA)
    hAdded.view_new hKey
    (fun j hne => by rw [hAdded.keyAt hA h.arena, if_neg hne]; exact hAbsent j)
    (by rw [hAdded.tableLen, hAdded.tombstones, hAdded.table]; exact hRoom)
  have hSame₂ := reslotted_placedAt env hAdded.view_new s tombs
  have hLru₂ := hSame₂.lruList (hAdded.lruList hFresh h.lru)
  have hLive₂ : ∀ x ∈ l, ((st₁.placedAt env s i m tombs).live? x).isSome = true := by
    intro x hx
    obtain ⟨mx, hmx⟩ := Option.isSome_iff_exists.mp (h.live_of_mem x hx)
    rw [hSame₂.same.isSome, (hAdded.view_old hmx).2]
    rfl
  -- the new index is no sentinel
  have hProper : i ≠ noEntry := by
    have hLt := lt_of_live? hAdded.view_new
    have hTomb := hIndex₁.proper
    have hOrder : tombstone < noEntry := by decide
    omega
  -- in the table already, it is put at the front of the list
  obtain ⟨st₃, hAttach, hSame₃, hLru₃⟩ := attachFront_spec hLru₂ hLive₂
    (by rw [hSame₂.same.isSome, hAdded.view_new]; rfl) hFresh hProper
  refine ⟨hFresh, _, st₃, hEnter, hAttach, hSame₂, hSame₃, hSame₃.index hIndex₂, ?_, hLru₃⟩
  rw [hSame₃.tableLen, ← hAdded.tableLen]
  rfl

/-- The states `store` goes through: the entry is added (`st₁`), entered into
the table (`st₂`) and put at the front of the list (`st₃`). -/
structure StoreSteps (env : Env RecordType DNSClass Heap) (st : CacheState RecordType DNSClass Heap)
    (l : List Nat) (key : Key RecordType DNSClass) (record : Record) (i : Nat)
    (m : EntryMeta RecordType DNSClass) (st₁ st₂ st₃ : CacheState RecordType DNSClass Heap) :
    Prop where
  added : Added env.alloc st i m st₁
  slab : Slab st₁
  occupied : st₁.occupied = st.occupied + 1
  log : st₁.log = st.log
  key_eq : keyOf st₁.pool m = key
  content_eq : contentOf st₁.pool m = record
  slotted : Reslotted st₁ st₂
  linked : Relinked st₂ st₃
  index : Index env (fun _ => True) st₃
  tableLen : st₃.tableLen = st.tableLen + 1
  fresh : i ∉ l
  lru : st₃.LruList (i :: l)

theorem store_steps (hA : env.alloc.Lawful) (h : Inv env st l) {offset : Nat} {heap : Heap}
    (hAlloc : env.alloc.allocateFirstFit st.heap
      (key.name.length + record.wire.length + record.request.length) = some (offset, heap))
    (hName : key.name.length ≤ maxNameLen) (hAbsent : ∀ j, st.keyAt j ≠ some key)
    (hRoom : st.tableLen + st.tombstones + 1 < st.table.length) (lastUsed retryAfter : Nat)
    (reused : Bool) :
    ∃ i st₁ st₂ st₃, StoreSteps env st l key record i
        (newEntry key record offset lastUsed retryAfter reused) st₁ st₂ st₃ ∧
      store env { st with heap := heap } key record offset lastUsed retryAfter reused =
        .ok { st₃ with log := .stored key record :: st₃.log } := by
  obtain ⟨pool, i, st₁, hCopy, hEntry, hAdded, hSlab₁, hOccupied₁, hLog₁, hKey, hContent⟩ :=
    added_spec hA h hAlloc lastUsed retryAfter reused
  obtain ⟨hFresh, st₂, st₃, hEnter, hAttach, hSlotted, hLinked, hIndex₃, hLen₃, hLru₃⟩ :=
    hAdded.linked hA h (hAdded.arena hA h.arena hName) hKey hAbsent hRoom
  refine ⟨i, st₁, st₂, st₃, ⟨hAdded, hSlab₁, hOccupied₁, hLog₁, hKey, hContent, hSlotted, hLinked,
    hIndex₃, hLen₃, hFresh, hLru₃⟩, ?_⟩
  -- neither length is cut off by its cast
  have hNameCast : key.name.length % 2 ^ 16 = key.name.length :=
    Nat.mod_eq_of_lt (lt_of_le_of_lt hName (by decide))
  have hWireCast : record.wire.length % 2 ^ 32 = record.wire.length := by
    have hInside := hA.inside hAlloc
    have hBlock := hA.le_block (key.name.length + record.wire.length + record.request.length)
    have hPool := h.arena.pool_le
    have hPow : (2 : Nat) ^ 30 < 2 ^ 32 := by decide
    rw [h.arena.poolSize_eq] at hInside
    exact Nat.mod_eq_of_lt (by omega)
  simp only [newEntry] at hEntry
  rw [store]
  simp only [hCopy, ok_bind, hNameCast, hWireCast, hEntry, hEnter, hAttach]
  rfl

/-- **Storing.** The entry becomes the most recent one of the list. -/
theorem store_spec (hA : env.alloc.Lawful) (h : Inv env st l) {offset : Nat} {heap : Heap}
    (hAlloc : env.alloc.allocateFirstFit st.heap
      (key.name.length + record.wire.length + record.request.length) = some (offset, heap))
    (hName : key.name.length ≤ maxNameLen) (hAbsent : ∀ j, st.keyAt j ≠ some key)
    (hRoom : st.tableLen + st.tombstones + 1 < st.table.length) (lastUsed retryAfter : Nat)
    (reused : Bool) :
    ∃ st' i, store env { st with heap := heap } key record offset lastUsed retryAfter reused =
        .ok st' ∧ Inv env st' (i :: l) ∧ st'.log = .stored key record :: st.log ∧
      st'.pool.length = st.pool.length := by
  obtain ⟨i, st₁, st₂, st₃, hSteps, hRun⟩ :=
    store_steps hA h hAlloc hName hAbsent hRoom lastUsed retryAfter reused
  have hArena₁ := hSteps.added.arena hA h.arena hName
  have hDistinct₁ :=
    hSteps.added.distinct hA h.arena h.distinct (by rw [hSteps.key_eq]; exact hAbsent)
  have hKeyAt₁ := hSteps.added.keyAt hA h.arena
  have hSame : Same st₁ st₃ := hSteps.slotted.same.trans hSteps.linked.toSame
  have hLog : st₃.log = st.log := hSame.log.trans hSteps.log
  have hOld : ∀ j ∈ l, st₃.keyAt j = st.keyAt j := by
    intro j hj
    rw [hSame.keyAt, hKeyAt₁, if_neg fun hEq : j = i => hSteps.fresh (hEq ▸ hj)]
  refine ⟨_, i, hRun, ?_, by rw [hLog],
    (congrArg List.length hSame.pool).trans hSteps.added.pool_length⟩
  refine inv_logged hSteps.index ?_ (hSame.slab hSteps.slab) (hSame.arena hArena₁)
    (hSame.distinct hDistinct₁) (fun k r => ?_) hSteps.lru (fun j => ?_) ?_
  · rw [hSame.occupied, hSteps.occupied, ← h.count, hSteps.tableLen]
  · rw [hSame.holds_iff, hSteps.added.holds_iff hA h.arena, ← h.history, hSteps.key_eq,
      hSteps.content_eq, hLog, current]
    -- the key had no record before, so the new one is the only one
    have hNone := h.absent_iff.mp hAbsent
    split
    · subst_vars
      simp [hNone]
    · simp [*]
  · rw [hSame.isSome, hSteps.added.view, List.mem_cons]
    by_cases hj : j = i
    · simp [hj]
    · simp [hj, h.mem_lru]
  · rw [hLog]
    -- storing is a use of the key, and the entry is at the front
    refine (h.recent.congr hOld).use ?_ fun j hj => ?_
    · rw [hSame.keyAt, hKeyAt₁, if_pos rfl, hSteps.key_eq]
    · rw [hOld j hj]
      exact hAbsent j

/-! ## The whole insert -/

/-- The key is absent afterwards. -/
theorem replace_spec (hA : env.alloc.Lawful) (h : Inv env st l) (key : Key RecordType DNSClass)
    (now : Nat) :
    ∃ lastUsed reused st' l', replace env st key now = .ok (lastUsed, reused, st') ∧
      Inv env st' l' ∧ current st'.log key = none ∧ st'.pool = st.pool ∧
      (st'.log = st.log ∨ st'.log = .evicted key .replaced :: st.log) := by
  rw [replace]
  rcases locate_spec h.index (h.arena.readable hA) key with
    ⟨i, hLocate, -, hFound⟩ | ⟨s, hLocate, hNone, -⟩
  · obtain ⟨m, hm, rfl⟩ := keyAt_eq_some.mp hFound
    obtain ⟨st', hEvict, hInv, hEvicted⟩ := evict_spec hA h hm .replaced
    refine ⟨m.lastUsed, m.reused, st', _, ?_, hInv, ?_, hEvicted.pool, .inr hEvicted.log⟩
    · simp only [hLocate, ok_bind, entry_eq_ok.mpr hm, hEvict]
      rfl
    · rw [hEvicted.log, current, if_pos rfl]
  · refine ⟨now, false, st, l, ?_, h, ?_, rfl, .inl rfl⟩
    · simp only [hLocate, ok_bind]
      rfl
    · exact h.absent_iff.mp fun j => hNone j trivial

/-- What `replace` returns: the bookkeeping of the entry that it evicted, if there was
one. -/
theorem replace_cases (hA : env.alloc.Lawful) (h : Inv env st l) {now lastUsed : Nat}
    {reused : Bool} {st' : CacheState RecordType DNSClass Heap}
    (hRun : replace env st key now = .ok (lastUsed, reused, st')) :
    (lastUsed = now ∧ reused = false ∧ st' = st ∧ ∀ j, st.keyAt j ≠ some key) ∨
      ∃ i m, st.live? i = some m ∧ keyOf st.pool m = key ∧ lastUsed = m.lastUsed ∧
        reused = m.reused ∧ Inv env st' (l.erase i) ∧ Evicted st i m .replaced st' := by
  rw [replace] at hRun
  rcases locate_spec h.index (h.arena.readable hA) key with
    ⟨i, hLocate, -, hFound⟩ | ⟨s, hLocate, hNone, -⟩
  · obtain ⟨m, hm, hKey⟩ := keyAt_eq_some.mp hFound
    obtain ⟨st₁, hEvict, hInv, hEvicted⟩ := evict_spec hA h hm .replaced
    simp only [hLocate, ok_bind, entry_eq_ok.mpr hm, hEvict] at hRun
    cases hRun
    exact .inr ⟨i, m, hm, hKey, rfl, rfl, hInv, hEvicted⟩
  · simp only [hLocate, ok_bind] at hRun
    cases hRun
    exact .inl ⟨rfl, rfl, rfl, fun j => hNone j trivial⟩

/-- What an insert adds to the log: evictions for space, after the eviction of
the same key if it was there, and last the new record. -/
def InsertEvents (key : Key RecordType DNSClass) (record : Record) (stored : Bool)
    (events : List (CacheEvent RecordType DNSClass)) : Prop :=
  ∃ (victims : List (Key RecordType DNSClass)) (replaced : List (CacheEvent RecordType DNSClass)),
    (replaced = [] ∨ replaced = [.evicted key .replaced]) ∧
    events = (if stored then [.stored key record] else []) ++
      (victims.map (.evicted · .space) ++ replaced)

/-- What an insert has done when its allocation loop is over: the key was
evicted (`st₁`), the table has grown if it had to (`st₂`), and entries were
evicted until the allocation succeeded or nothing was left (`st₃`). -/
structure Room (env : Env RecordType DNSClass Heap) (st : CacheState RecordType DNSClass Heap)
    (key : Key RecordType DNSClass) (size lockedAt lastUsed : Nat) (reused : Bool)
    (st₁ st₂ st₃ : CacheState RecordType DNSClass Heap) (offset : Option (Nat × Heap)) : Prop where
  replaced : replace env st key lockedAt = .ok (lastUsed, reused, st₁)
  grown : Reslotted st₁ st₂
  inv_grown : ∃ l, Inv env st₂ l
  loop : allocateLoop env size (st₂.entries.length + 1) st₂ =
    .ok (offset.map Prod.fst, { st₃ with heap := (offset.map Prod.snd).getD st₃.heap })
  allocated : ∀ found, offset = some found →
    env.alloc.allocateFirstFit st₃.heap size = some found
  inv : ∃ l, Inv env st₃ l
  absent : current st₃.log key = none
  load : st₃.tableLen + st₃.tombstones + 1 < st₃.table.length
  pool : st₃.pool = st.pool
  log : ∃ (victims : List (Key RecordType DNSClass))
      (replaced : List (CacheEvent RecordType DNSClass)),
    (replaced = [] ∨ replaced = [.evicted key .replaced]) ∧
      st₃.log = victims.map (.evicted · .space) ++ (replaced ++ st.log)

/-- An insert that is not too large for the pool makes room and then stores. -/
theorem insertLocked_room (hA : env.alloc.Lawful) (h : Inv env st l) {record : Record}
    (hFits : ¬ key.name.length + record.wire.length + record.request.length > st.pool.length)
    (lockedAt storedAt : Nat) :
    ∃ lastUsed reused st₁ st₂ st₃ offset,
      Room env st key (key.name.length + record.wire.length + record.request.length) lockedAt
        lastUsed reused st₁ st₂ st₃ offset ∧
      insertLocked env st key record lockedAt storedAt =
        finishInsert env key record lastUsed storedAt reused (offset.map Prod.fst)
          { st₃ with heap := (offset.map Prod.snd).getD st₃.heap } := by
  -- an entry with the same key goes first
  obtain ⟨lastUsed, reused, st₁, l₁, hReplace, h₁, hNone₁, hPool₁, hLog₁⟩ :=
    replace_spec hA h key lockedAt
  obtain ⟨replaced, hReplaced, hLog₁⟩ : ∃ replaced : List (CacheEvent RecordType DNSClass),
      (replaced = [] ∨ replaced = [.evicted key .replaced]) ∧ st₁.log = replaced ++ st.log := by
    rcases hLog₁ with hLog₁ | hLog₁
    · exact ⟨[], .inl rfl, hLog₁⟩
    · exact ⟨_, .inr rfl, hLog₁⟩
  -- then the table makes room for one more
  obtain ⟨st₂, hEnsure, hIndex₂, hSame₂, hCount₂, hRoom₂⟩ := ensureTableCapacity_spec h₁.index
    (h₁.arena.readable hA) h₁.distinct h₁.count (h₁.arena.slab_le.trans h₁.arena.pool_le)
  have h₂ := h₁.same hSame₂.same hIndex₂ hCount₂ (hSame₂.lruList h₁.lru)
  -- there is fuel for evicting every entry
  have hFuel : st₂.tableLen < st₂.entries.length + 1 := by
    rw [h₂.count]
    exact Nat.lt_succ_of_le List.countP_le_length
  obtain ⟨st₃, l₃, h₃, hMade, hResult⟩ := allocateLoop_spec hA
    (key.name.length + record.wire.length + record.request.length) _ st₂ l₁ h₂ hFuel
  obtain ⟨victims, hVictims⟩ := hMade.log
  have hLoad := hMade.load
  have hTable := hMade.table
  obtain ⟨offset, hLoop, hAllocated⟩ : ∃ offset : Option (Nat × Heap),
      allocateLoop env (key.name.length + record.wire.length + record.request.length)
          (st₂.entries.length + 1) st₂ =
        .ok (offset.map Prod.fst, { st₃ with heap := (offset.map Prod.snd).getD st₃.heap }) ∧
      ∀ found, offset = some found → env.alloc.allocateFirstFit st₃.heap
        (key.name.length + record.wire.length + record.request.length) = some found := by
    rcases hResult with hLoop | ⟨offset, heap, hAlloc, hLoop⟩
    · exact ⟨none, hLoop, nofun⟩
    · refine ⟨some (offset, heap), hLoop, ?_⟩
      rintro found ⟨⟩
      exact hAlloc
  refine ⟨lastUsed, reused, st₁, st₂, st₃, offset, ?_, ?_⟩
  · constructor
    case replaced => exact hReplace
    case grown => exact hSame₂
    case inv_grown => exact ⟨l₁, h₂⟩
    case loop => exact hLoop
    case allocated => exact hAllocated
    case inv => exact ⟨l₃, h₃⟩
    case absent =>
      -- evicting others does not bring the key back
      rw [hVictims, current_evictions, hSame₂.log, hNone₁, ite_self]
    case load => omega
    case pool => exact hMade.pool.trans (hSame₂.pool.trans hPool₁)
    case log => exact ⟨victims, replaced, hReplaced, by rw [hVictims, hSame₂.log, hLog₁]⟩
  · rw [insertLocked]
    simp only [if_neg hFits, hReplace, hEnsure, hLoop, ok_bind]

theorem insertLocked_spec (hA : env.alloc.Lawful) (h : Inv env st l)
    (hName : key.name.length ≤ maxNameLen) (record : Record) (lockedAt storedAt : Nat) :
    ∃ stored st' l', insertLocked env st key record lockedAt storedAt = .ok (stored, st') ∧
      Inv env st' l' ∧ st'.pool.length = st.pool.length ∧
      ∃ events, st'.log = events ++ st.log ∧ InsertEvents key record stored events := by
  by_cases hLarge : key.name.length + record.wire.length + record.request.length > st.pool.length
  · refine ⟨false, st, l, ?_, h, rfl, [], rfl, [], [], .inl rfl, rfl⟩
    rw [insertLocked]
    simp only [if_pos hLarge]
    rfl
  obtain ⟨lastUsed, reused, st₁, st₂, st₃, offset, hRoom, hRun⟩ :=
    insertLocked_room hA h hLarge lockedAt storedAt
  obtain ⟨l₃, h₃⟩ := hRoom.inv
  obtain ⟨victims, replaced, hReplaced, hLog₃⟩ := hRoom.log
  cases offset with
  | none =>
    refine ⟨false, st₃, l₃, hRun, h₃, congrArg List.length hRoom.pool, _, ?_, victims, replaced,
      hReplaced, rfl⟩
    rw [hLog₃]
    simp
  | some found =>
    obtain ⟨offset, heap⟩ := found
    obtain ⟨st₄, i, hStore, h₄, hLog₄, hPool₄⟩ := store_spec hA h₃ (hRoom.allocated _ rfl) hName
      (h₃.absent_iff.mpr hRoom.absent) hRoom.load lastUsed storedAt reused
    refine ⟨true, st₄, i :: l₃, ?_, h₄, hPool₄.trans (congrArg List.length hRoom.pool), _, ?_,
      victims, replaced, hReplaced, rfl⟩
    · rw [hRun, Option.map_some, finishInsert]
      exact congrArg (· >>= _) hStore
    · rw [hLog₄, hLog₃]
      simp

end DnsRs.Cache
