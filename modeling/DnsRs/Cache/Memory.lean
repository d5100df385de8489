import DnsRs.Cache.Bookkeeping

/-!
# The memory of the pool

`insert_with_flags` allocates in the pool and `evict` gives back, both in unsafe
blocks. The invariant of the other modules says that each live entry has its
allocation; what it does not say is the converse, that nothing else is allocated.

The converse is counted. Every operation changes the number of allocations as it
changes `table_len` (`Balanced`), and the entries of the table are the live ones. So
the allocations are those of the live entries, one each: the cache does not leak.

That the unsafe call of `deallocate` is sound needs more than a state between calls
can show. So the cache is run over an allocator that breaks for good at the first
deallocation of what is not allocated (`Allocator.checked`), and never breaks it.
-/

namespace DnsRs.Cache

open Lib Wire CacheState ResponseCache

variable {RecordType DNSClass Heap : Type}

/-! ## An allocator that checks what it is given back -/

/-- `none` once something was deallocated that was not allocated, or with another
length. -/
def Allocator.checked (A : Allocator Heap) : Allocator (Option Heap) where
  new n := some (A.new n)
  allocateFirstFit h n :=
    h.bind fun h => (A.allocateFirstFit h n).map fun found => (found.1, some found.2)
  deallocate h off n :=
    h.bind fun h => if (off, n) ∈ A.spans h then some (A.deallocate h off n) else none
  -- a size that no pool has
  poolSize h := h.elim (2 ^ 30 + 1) A.poolSize
  spans h := h.elim [] A.spans
  block := A.block

theorem checked_allocate {A : Allocator Heap} {h : Option Heap} {n off : Nat} {h' : Option Heap}
    (hAlloc : A.checked.allocateFirstFit h n = some (off, h')) :
    ∃ heap heap', h = some heap ∧ h' = some heap' ∧
      A.allocateFirstFit heap n = some (off, heap') := by
  obtain ⟨heap, rfl, hMap⟩ := Option.bind_eq_some_iff.mp hAlloc
  obtain ⟨⟨off', heap'⟩, hFound, hEq⟩ := Option.map_eq_some_iff.mp hMap
  rw [Prod.mk.injEq] at hEq
  obtain ⟨rfl, rfl⟩ := hEq
  exact ⟨heap, heap', rfl, rfl, hFound⟩

theorem checked_deallocate {A : Allocator Heap} {h : Option Heap} {off n : Nat}
    (hMem : (off, n) ∈ A.checked.spans h) :
    ∃ heap, h = some heap ∧ (off, n) ∈ A.spans heap ∧
      A.checked.deallocate h off n = some (A.deallocate heap off n) := by
  cases h with
  | none => cases hMem
  | some heap => exact ⟨heap, rfl, hMem, if_pos hMem⟩

/-- The laws do not say what a wrong deallocation does, so the check keeps them. -/
theorem checked_lawful {A : Allocator Heap} (hA : A.Lawful) : A.checked.Lawful where
  block_pos := hA.block_pos
  le_block := hA.le_block
  poolSize_new := hA.poolSize_new
  poolSize_allocate hAlloc := by
    obtain ⟨heap, heap', rfl, rfl, hFound⟩ := checked_allocate hAlloc
    exact hA.poolSize_allocate hFound
  poolSize_deallocate hMem := by
    obtain ⟨heap, rfl, hMem, hEq⟩ := checked_deallocate hMem
    rw [hEq]
    exact hA.poolSize_deallocate hMem
  spans_allocate hAlloc := by
    obtain ⟨heap, heap', rfl, rfl, hFound⟩ := checked_allocate hAlloc
    exact hA.spans_allocate hFound
  inside hAlloc := by
    obtain ⟨heap, heap', rfl, rfl, hFound⟩ := checked_allocate hAlloc
    exact hA.inside hFound
  disjoint hAlloc := by
    obtain ⟨heap, heap', rfl, rfl, hFound⟩ := checked_allocate hAlloc
    exact hA.disjoint hFound
  spans_deallocate hMem := by
    obtain ⟨heap, rfl, hMem, hEq⟩ := checked_deallocate hMem
    rw [hEq]
    exact hA.spans_deallocate hMem

/-! ## The allocations of the live entries -/

def EntryMeta.span (m : EntryMeta RecordType DNSClass) : Nat × Nat := (m.offset, m.totalLen)

/-- The allocations of the live entries, in the order of the slab. -/
def CacheState.liveSpans (st : CacheState RecordType DNSClass Heap) : List (Nat × Nat) :=
  st.entries.filterMap (Option.map EntryMeta.span)

/-- Two allocations that share no byte. -/
def Apart (A : Allocator Heap) (s t : Nat × Nat) : Prop :=
  DisjointRange s.1 (A.block s.2) t.1 (A.block t.2)

variable {env : Env RecordType DNSClass Heap} {st st' st₁ st₂ : CacheState RecordType DNSClass Heap}
  {i : Nat} {m : EntryMeta RecordType DNSClass} {l : List Nat} {key : Key RecordType DNSClass}

theorem Apart.symm {A : Allocator Heap} {s t : Nat × Nat} (h : Apart A s t) : Apart A t s :=
  Or.symm h

theorem mem_liveSpans {s : Nat × Nat} (h : s ∈ st.liveSpans) :
    ∃ i m, st.live? i = some m ∧ m.span = s := by
  obtain ⟨entry, hMem, hSpan⟩ := List.mem_filterMap.mp h
  obtain ⟨m, rfl, hEq⟩ := Option.map_eq_some_iff.mp hSpan
  obtain ⟨i, hi⟩ := List.mem_iff_getElem?.mp hMem
  exact ⟨i, m, live?_eq_some.mpr hi, hEq⟩

theorem length_liveSpans (st : CacheState RecordType DNSClass Heap) :
    st.liveSpans.length = st.occupied := by
  unfold liveSpans occupied
  induction st.entries with
  | nil => rfl
  | cons entry entries ih => cases entry <;> simp [ih]

theorem Arena.apart {A : Allocator Heap} (h : Arena A st) : st.liveSpans.Pairwise (Apart A) := by
  rw [liveSpans, List.pairwise_filterMap, List.pairwise_iff_getElem]
  intro i j hi hj hLt s hs t ht
  obtain ⟨m, hm, rfl⟩ := Option.map_eq_some_iff.mp hs
  obtain ⟨m', hm', rfl⟩ := Option.map_eq_some_iff.mp ht
  refine h.disjoint i j m m' (live?_eq_some.mpr ?_) (live?_eq_some.mpr ?_) (Nat.ne_of_lt hLt)
  · rw [List.getElem?_eq_getElem hi, hm]
  · rw [List.getElem?_eq_getElem hj, hm']

/-- A heap that broke has the wrong size, so the invariant excludes it. -/
theorem Arena.intact {A : Allocator Heap} {st : CacheState RecordType DNSClass (Option Heap)}
    (h : Arena A.checked st) : ∃ heap, st.heap = some heap := by
  have hSize : A.checked.poolSize st.heap = st.pool.length := h.poolSize_eq
  have hLe := h.pool_le
  cases hHeap : st.heap with
  | some heap => exact ⟨heap, rfl⟩
  | none =>
    rw [hHeap] at hSize
    rw [← hSize] at hLe
    exact absurd hLe (Nat.not_succ_le_self _)

/-- **The live entries account for the heap** as soon as the numbers agree. -/
theorem Inv.spans_perm [DecidableEq RecordType] [DecidableEq DNSClass] (hA : env.alloc.Lawful) (h : Inv env st l)
    (hCount : (env.alloc.spans st.heap).length = st.tableLen) :
    (env.alloc.spans st.heap).Perm st.liveSpans := by
  -- allocations that share no byte are distinct, since none is empty
  have hNodup : st.liveSpans.Nodup := h.arena.apart.imp fun {s t} hApart hEq => by
    subst hEq
    have hPos := hA.block_pos s.2
    rw [Apart, DisjointRange] at hApart
    omega
  have hSub : st.liveSpans ⊆ env.alloc.spans st.heap := by
    intro s hs
    obtain ⟨i, m, hm, rfl⟩ := mem_liveSpans hs
    exact h.arena.mem_spans i m hm
  refine ((hNodup.subperm hSub).perm_of_length_le ?_).symm
  rw [hCount, h.count, length_liveSpans]

/-- What is allocated for live entries lies apart and fits into the pool. -/
theorem Arena.spans_fit {A : Allocator Heap} (h : Arena A st)
    (hPerm : (A.spans st.heap).Perm st.liveSpans) :
    (A.spans st.heap).Pairwise (Apart A) ∧
      ((A.spans st.heap).map fun s => A.block s.2).sum ≤ st.pool.length := by
  have hApart := (hPerm.pairwise_iff Apart.symm).mpr h.apart
  refine ⟨hApart, sum_length_le_of_disjoint hApart fun s hs => ?_⟩
  obtain ⟨i, m, hm, rfl⟩ := mem_liveSpans (hPerm.mem_iff.mp hs)
  exact h.inside i m hm

/-! ## What each operation allocates and gives back -/

/-- The number of allocations has changed as `table_len` has, and the pool has kept its
size. -/
structure Balanced (A : Allocator Heap) (st st' : CacheState RecordType DNSClass Heap) : Prop where
  pool : st'.pool.length = st.pool.length
  spans : (A.spans st'.heap).length + st.tableLen = (A.spans st.heap).length + st'.tableLen

theorem Balanced.refl (A : Allocator Heap) (st : CacheState RecordType DNSClass Heap) :
    Balanced A st st :=
  ⟨rfl, rfl⟩

theorem Balanced.trans {A : Allocator Heap} (h : Balanced A st st₁) (h' : Balanced A st₁ st') :
    Balanced A st st' := by
  refine ⟨h'.pool.trans h.pool, ?_⟩
  have hSpans := h.spans
  have hSpans' := h'.spans
  omega

theorem Relinked.balanced {A : Allocator Heap} (h : Relinked st st') : Balanced A st st' :=
  ⟨congrArg List.length h.pool, by rw [h.heap, h.tableLen]⟩

theorem modifyEntry_balanced {A : Allocator Heap}
    {f : EntryMeta RecordType DNSClass → EntryMeta RecordType DNSClass}
    (hRun : st.modifyEntry i f = .ok st') : Balanced A st st' := by
  obtain ⟨m, -, hEnd⟩ := bind_eq_ok.mp hRun
  cases hEnd
  exact ⟨rfl, rfl⟩

theorem scanCandidates_balanced {A : Allocator Heap} (budget now : Nat) {list : List Bytes} :
    ∀ (count entry : Nat) (requests : List Bytes) (st : CacheState RecordType DNSClass Heap),
      scanCandidates budget now count entry requests st = .ok (list, st') → Balanced A st st' := by
  intro count
  induction count with
  | zero =>
    intro entry requests st hRun
    cases hRun
    exact Balanced.refl _ _
  | succ count ih =>
    intro entry requests st hRun
    rw [scanCandidates] at hRun
    split at hRun
    · cases hRun
      exact Balanced.refl _ _
    obtain ⟨m, -, hRun⟩ := bind_eq_ok.mp hRun
    split at hRun
    · cases hRun
    split at hRun
    · obtain ⟨request, -, hRun⟩ := bind_eq_ok.mp hRun
      obtain ⟨st₁, hModify, hRun⟩ := bind_eq_ok.mp hRun
      exact (modifyEntry_balanced hModify).trans (ih _ _ _ hRun)
    · exact ih _ _ _ hRun

variable [DecidableEq RecordType] [DecidableEq DNSClass]

/-- Growing the table moves the entries that are there. -/
theorem Reslotted.balanced {l' : List Nat} (h : Reslotted st st') (hInv : Inv env st l)
    (hInv' : Inv env st' l') : Balanced env.alloc st st' := by
  refine ⟨congrArg List.length h.pool, ?_⟩
  rw [h.heap, hInv.count, hInv'.count, h.same.occupied]

/-- An eviction gives back the allocation of its entry. -/
theorem evict_balanced (hA : env.alloc.Lawful) (h : Inv env st l) (hi : st.live? i = some m)
    {reason : Reason} (hRun : st.evict env i reason = .ok st') :
    Balanced env.alloc st st' := by
  obtain ⟨l₁, l₂, rfl, -⟩ := h.split hi
  obtain ⟨st₁, hUnlink, hSame, -⟩ := unlink_spec h.lru h.live_of_mem
  obtain ⟨m₁, hm₁, -⟩ := hSame.live hi
  have hIndex := hSame.index h.index
  have hPos := hIndex.tableLen_pos trivial hm₁
  rw [evict, hUnlink, ok_bind, entry_eq_ok.mpr hm₁, ok_bind, discard_eq_ok hIndex trivial hm₁]
    at hRun
  cases hRun
  refine hSame.balanced.trans ⟨rfl, ?_⟩
  have hMem := (hSame.arena h.arena).mem_spans i m₁ hm₁
  have hLt := List.length_pos_of_mem hMem
  show (env.alloc.spans (env.alloc.deallocate st₁.heap m₁.offset m₁.totalLen)).length + _ =
    _ + (st₁.tableLen - 1)
  rw [hA.spans_deallocate hMem, List.length_erase_of_mem hMem]
  omega

theorem replace_balanced (hA : env.alloc.Lawful) (h : Inv env st l) {now lastUsed : Nat}
    {reused : Bool} (hRun : replace env st key now = .ok (lastUsed, reused, st')) :
    Balanced env.alloc st st' := by
  rw [replace] at hRun
  rcases locate_spec h.index (h.arena.readable hA) key with
    ⟨i, hLocate, -, hFound⟩ | ⟨s, hLocate, -⟩
  · obtain ⟨m, hm, -⟩ := keyAt_eq_some.mp hFound
    simp only [hLocate, ok_bind, entry_eq_ok.mpr hm] at hRun
    obtain ⟨st₁, hEvict, hEnd⟩ := bind_eq_ok.mp hRun
    cases hEnd
    exact evict_balanced hA h hm hEvict
  · simp only [hLocate, ok_bind] at hRun
    cases hRun
    exact Balanced.refl _ _

theorem evictOneForSpace_balanced (hA : env.alloc.Lawful) (h : Inv env st l) {evicted : Bool}
    (hRun : st.evictOneForSpace env = .ok (evicted, st')) : Balanced env.alloc st st' := by
  rw [evictOneForSpace] at hRun
  split at hRun
  · cases hRun
    exact Balanced.refl _ _
  · rename_i hSome
    have hNe : l ≠ [] := fun hEmpty => hSome ((Threaded.tail_eq_iff h.lru).mpr hEmpty)
    have hMem : st.lruTail ∈ l := Threaded.tail_eq h.lru ▸ getLastD_mem hNe
    obtain ⟨m, hm⟩ := Option.isSome_iff_exists.mp (h.live_of_mem _ hMem)
    obtain ⟨-, -, hRun⟩ := bind_eq_ok.mp hRun
    obtain ⟨st₁, hEvict, hEnd⟩ := bind_eq_ok.mp hRun
    cases hEnd
    exact evict_balanced hA h hm hEvict

/-- The evictions of the allocation loop; its own allocation, if it succeeds, comes on top. -/
theorem allocateLoop_balanced (hA : env.alloc.Lawful) {size : Nat} {offset : Option Nat} :
    ∀ (fuel : Nat) (st : CacheState RecordType DNSClass Heap) (l : List Nat), Inv env st l →
      allocateLoop env size fuel st = .ok (offset, st') →
      st'.pool.length = st.pool.length ∧ (env.alloc.spans st'.heap).length + st.tableLen =
        (env.alloc.spans st.heap).length + st'.tableLen + offset.toList.length := by
  intro fuel
  induction fuel with
  | zero =>
    intro st l _ hRun
    cases hRun
  | succ fuel ih =>
    intro st l h hRun
    rw [allocateLoop] at hRun
    split at hRun
    · rename_i off heap hAlloc
      cases hRun
      refine ⟨rfl, ?_⟩
      show (env.alloc.spans heap).length + _ = _ + st.tableLen + 1
      rw [hA.spans_allocate hAlloc, List.length_cons]
      omega
    · obtain ⟨⟨evicted, st₁⟩, hEvict, hRun⟩ := bind_eq_ok.mp hRun
      have hOnce := evictOneForSpace_balanced hA h hEvict
      rcases evictOneForSpace_spec hA h with ⟨-, hNone⟩ | ⟨m, st₂, -, hSome, hInv, -⟩
      · cases hNone.symm.trans hEvict
        cases hRun
        exact ⟨rfl, rfl⟩
      · cases hSome.symm.trans hEvict
        obtain ⟨hPool, hSpans⟩ := ih _ _ hInv hRun
        have hSpans₁ := hOnce.spans
        exact ⟨hPool.trans hOnce.pool, by omega⟩

/-- Storing enters into the table the entry for which the loop has allocated. -/
theorem store_balanced (hA : env.alloc.Lawful) (h : Inv env st l) {record : Record} {offset : Nat}
    {heap : Heap}
    (hAlloc : env.alloc.allocateFirstFit st.heap
      (key.name.length + record.wire.length + record.request.length) = some (offset, heap))
    (hName : key.name.length ≤ maxNameLen) (hAbsent : ∀ j, st.keyAt j ≠ some key)
    (hRoom : st.tableLen + st.tombstones + 1 < st.table.length) {lastUsed retryAfter : Nat}
    {reused : Bool}
    (hRun : store env { st with heap := heap } key record offset lastUsed retryAfter reused =
      .ok st') : Balanced env.alloc st st' := by
  obtain ⟨_, st₁, st₂, st₃, hSteps, hStore⟩ :=
    store_steps hA h hAlloc hName hAbsent hRoom lastUsed retryAfter reused
  rw [hStore] at hRun
  cases hRun
  have hHeap : st₃.heap = st₁.heap := hSteps.linked.heap.trans hSteps.slotted.heap
  have hPool : st₃.pool = st₁.pool := hSteps.linked.pool.trans hSteps.slotted.pool
  refine ⟨(congrArg List.length hPool).trans hSteps.added.pool_length, ?_⟩
  show (env.alloc.spans st₃.heap).length + st.tableLen = _ + st₃.tableLen
  rw [hHeap, hA.spans_allocate hSteps.added.alloc, hSteps.tableLen, List.length_cons]
  omega

theorem insertLocked_balanced (hA : env.alloc.Lawful) (h : Inv env st l)
    (hName : key.name.length ≤ maxNameLen) {record : Record} {lockedAt storedAt : Nat}
    {stored : Bool} (hRun : insertLocked env st key record lockedAt storedAt = .ok (stored, st')) :
    Balanced env.alloc st st' := by
  by_cases hLarge : key.name.length + record.wire.length + record.request.length > st.pool.length
  · rw [insertLocked] at hRun
    simp only [if_pos hLarge] at hRun
    cases hRun
    exact Balanced.refl _ _
  obtain ⟨lastUsed, reused, st₁, st₂, st₃, offset, hRoom, hFinish⟩ :=
    insertLocked_room hA h hLarge lockedAt storedAt
  obtain ⟨l₁, h₁⟩ : ∃ l₁, Inv env st₁ l₁ := by
    rcases replace_cases hA h hRoom.replaced with ⟨-, -, rfl, -⟩ | ⟨i, m, -, -, -, -, hInv, -⟩
    · exact ⟨l, h⟩
    · exact ⟨_, hInv⟩
  obtain ⟨l₂, h₂⟩ := hRoom.inv_grown
  obtain ⟨l₃, h₃⟩ := hRoom.inv
  -- up to the allocation: the same key goes, the table grows, the oldest entries go
  have hBefore := (replace_balanced hA h hRoom.replaced).trans (hRoom.grown.balanced h₁ h₂)
  obtain ⟨hPool, hSpans⟩ := allocateLoop_balanced hA _ st₂ l₂ h₂ hRoom.loop
  rw [hFinish] at hRun
  cases offset with
  | none =>
    cases hRun
    exact hBefore.trans ⟨hPool, hSpans⟩
  | some found =>
    obtain ⟨offset, heap⟩ := found
    obtain ⟨st₄, hStore, hEnd⟩ := bind_eq_ok.mp hRun
    cases hEnd
    have hAlloc := hRoom.allocated _ rfl
    have hLoop : Balanced env.alloc st₂ st₃ := by
      refine ⟨hPool, ?_⟩
      have hSpans : (env.alloc.spans heap).length + st₂.tableLen =
          (env.alloc.spans st₂.heap).length + st₃.tableLen + 1 := hSpans
      rw [hA.spans_allocate hAlloc, List.length_cons] at hSpans
      omega
    exact hBefore.trans (hLoop.trans (store_balanced hA h₃ hAlloc hName
      (h₃.absent_iff.mpr hRoom.absent) hRoom.load hStore))

theorem sweepFrom_balanced (hA : env.alloc.Lawful) (now : Nat) :
    ∀ (count index : Nat) (st : CacheState RecordType DNSClass Heap) (l : List Nat),
      Inv env st l → sweepFrom env now count index st = .ok st' → Balanced env.alloc st st' := by
  intro count
  induction count with
  | zero =>
    intro index st l _ hRun
    cases hRun
    exact Balanced.refl _ _
  | succ count ih =>
    intro index st l h hRun
    rw [sweepFrom] at hRun
    split at hRun
    · cases hRun
    · exact ih _ st l h hRun
    · rename_i m hEntry
      have hm : st.live? index = some m := live?_eq_some.mpr hEntry
      split at hRun
      · have hLt := lt_of_live? hm
        have hProper := h.index.proper
        have hWord : tombstone < 2 ^ 32 := by decide
        obtain ⟨st₁, hEvict, hInv, -⟩ := evict_spec hA h hm .sweep
        rw [Nat.mod_eq_of_lt (by omega), hEvict, ok_bind] at hRun
        exact (evict_balanced hA h hm hEvict).trans (ih _ st₁ _ hInv hRun)
      · exact ih _ st l h hRun

variable {c c' : ResponseCache RecordType DNSClass Heap}

theorem getWithFlags_balanced (hA : env.alloc.Lawful) (h : Sound env c) {now : Nat}
    {found : Option (Bytes × Bool × Bool)}
    (hRun : c.getWithFlags env key now = .ok (found, c')) :
    Balanced env.alloc c.state c'.state := by
  obtain ⟨l, hInv⟩ := h.inv
  rw [getWithFlags] at hRun
  split at hRun
  · cases hRun
    exact Balanced.refl _ _
  rcases locate_spec hInv.index (hInv.arena.readable hA) key with
    ⟨entry, hLocate, -, hFound⟩ | ⟨s, hLocate, -⟩
  · obtain ⟨m, hm, -⟩ := keyAt_eq_some.mp hFound
    simp only [hLocate, ok_bind, entry_eq_ok.mpr hm] at hRun
    split at hRun
    · obtain ⟨st', hEvict, hEnd⟩ := bind_eq_ok.mp hRun
      cases hEnd
      exact evict_balanced hA hInv hm hEvict
    · obtain ⟨⟨found, st'⟩, hHit, hEnd⟩ := bind_eq_ok.mp hRun
      cases hEnd
      obtain ⟨l₁, l₂, rfl, -⟩ := hInv.split hm
      obtain ⟨st₁, hTouch, hSame₁, -⟩ := touch_spec hInv.lru hInv.live_of_mem
      obtain ⟨m₁, hm₁, -⟩ := hSame₁.live hm
      rw [hit] at hHit
      simp only [hTouch, ok_bind, entry_eq_ok.mpr hm₁, modifyEntry_eq_ok hm₁] at hHit
      obtain ⟨wire, -, hHit⟩ := bind_eq_ok.mp hHit
      obtain ⟨⟨done, aged⟩, -, hHit⟩ := bind_eq_ok.mp hHit
      cases hHit
      exact hSame₁.balanced.trans ⟨rfl, rfl⟩
  · simp only [hLocate, ok_bind] at hRun
    cases hRun
    exact Balanced.refl _ _

theorem insertWithFlags_balanced (hA : env.alloc.Lawful) (h : Sound env c) {ttl : Nat}
    {wire request : Bytes} {now lockedAt storedAt : Nat} {stored : Bool}
    (hRun : c.insertWithFlags env key ttl wire request now lockedAt storedAt = .ok (stored, c')) :
    Balanced env.alloc c.state c'.state := by
  obtain ⟨l, hInv⟩ := h.inv
  rw [insertWithFlags] at hRun
  split at hRun
  · cases hRun
    exact Balanced.refl _ _
  rename_i hOn
  rw [Bool.or_eq_true, not_or, decide_eq_true_iff, Nat.not_lt] at hOn
  split at hRun
  · cases hRun
    exact Balanced.refl _ _
  split at hRun
  · cases hRun
    exact Balanced.refl _ _
  obtain ⟨⟨stored, st'⟩, hLocked, hRun⟩ := bind_eq_ok.mp hRun
  cases hRun
  exact insertLocked_balanced hA hInv hOn.2 hLocked

theorem releaseRefreshClaimWithFlags_balanced (hA : env.alloc.Lawful) (h : Sound env c) {now : Nat}
    (hRun : c.releaseRefreshClaimWithFlags env key now = .ok c') :
    Balanced env.alloc c.state c'.state := by
  obtain ⟨l, hInv⟩ := h.inv
  rw [releaseRefreshClaimWithFlags] at hRun
  rcases locate_spec hInv.index (hInv.arena.readable hA) key with
    ⟨entry, hLocate, -⟩ | ⟨s, hLocate, -⟩
  · simp only [hLocate, ok_bind] at hRun
    obtain ⟨st', hModify, hEnd⟩ := bind_eq_ok.mp hRun
    cases hEnd
    exact modifyEntry_balanced hModify
  · simp only [hLocate, ok_bind] at hRun
    cases hRun
    exact Balanced.refl _ _

/-- **One call** allocates and gives back as it adds and removes entries. -/
theorem apply_balanced (hA : env.alloc.Lawful) (h : Sound env c) {op : Op RecordType DNSClass}
    {out : Output} (hRun : apply env c op = .ok (out, c')) :
    Balanced env.alloc c.state c'.state := by
  cases op with
  | insert key ttl wire request now lockedAt storedAt =>
    obtain ⟨⟨stored, c₁⟩, hCall, hEnd⟩ := bind_eq_ok.mp hRun
    cases hEnd
    exact insertWithFlags_balanced hA h hCall
  | get key now =>
    obtain ⟨⟨found, c₁⟩, hCall, hEnd⟩ := bind_eq_ok.mp hRun
    cases hEnd
    exact getWithFlags_balanced hA h hCall
  | release key now =>
    obtain ⟨c₁, hCall, hEnd⟩ := bind_eq_ok.mp hRun
    cases hEnd
    exact releaseRefreshClaimWithFlags_balanced hA h hCall
  | candidates budget now =>
    obtain ⟨⟨list, c₁⟩, hCall, hEnd⟩ := bind_eq_ok.mp hRun
    cases hEnd
    rw [refreshCandidates] at hCall
    split at hCall
    · cases hCall
      exact Balanced.refl _ _
    · obtain ⟨⟨requests, st'⟩, hScan, hEnd⟩ := bind_eq_ok.mp hCall
      cases hEnd
      exact scanCandidates_balanced _ _ _ _ _ _ hScan
  | sweep start stop now =>
    obtain ⟨c₁, hCall, hEnd⟩ := bind_eq_ok.mp hRun
    cases hEnd
    obtain ⟨l, hInv⟩ := h.inv
    obtain ⟨st', hSweep, hEnd⟩ := bind_eq_ok.mp hCall
    cases hEnd
    exact sweepFrom_balanced hA now _ _ _ _ hInv hSweep

/-! ## Runs -/

theorem runOps_balanced (hA : env.alloc.Lawful) :
    ∀ (ops : List (Op RecordType DNSClass)) (c : ResponseCache RecordType DNSClass Heap),
      Sound env c → ∃ c', runOps env c ops = .ok c' ∧ Sound env c' ∧
        Balanced env.alloc c.state c'.state := by
  intro ops
  induction ops with
  | nil => exact fun c h => ⟨c, rfl, h, Balanced.refl _ _⟩
  | cons op ops ih =>
    intro c h
    obtain ⟨out, c₁, -, hRun, h₁, -⟩ := apply_spec hA h op
    obtain ⟨c', hRest, h', hBalanced⟩ := ih c₁ h₁
    refine ⟨c', ?_, h', (apply_balanced hA h hRun).trans hBalanced⟩
    rw [runOps, hRun]
    exact hRest

/-- The heap of a cache holds the allocations of its live entries and nothing else. They share no
byte, and together they fit into `size` bytes. -/
structure Accounted (A : Allocator Heap) (st : CacheState RecordType DNSClass (Option Heap))
    (heap : Heap) (size : Nat) : Prop where
  /-- no deallocation was wrong -/
  intact : st.heap = some heap
  exact : (A.spans heap).Perm st.liveSpans
  apart : (A.spans heap).Pairwise (Apart A)
  total : ((A.spans heap).map fun s => A.block s.2).sum ≤ size

/-- **The memory of the pool is accounted for.** Over any lawful allocator that starts empty, after
every sequence of calls: each deallocation so far was given an allocation of the heap, with its own
length; what is allocated now are the name, response and request of each live entry, once; and
the blocks of all of them are disjoint and within the configured size. -/
theorem pool_memory_accounted {A : Allocator Heap} (hA : A.Lawful)
    (hNew : ∀ n, A.spans (A.new n) = []) (keyHash : Key RecordType DNSClass → UInt64)
    {enabled : Bool} {maxSizeBytes : Nat} (hMax : enabled = true → maxSizeBytes ≤ maxCacheBytes)
    (ops : List (Op RecordType DNSClass)) :
    ∃ c heap, runOps ⟨A.checked, keyHash⟩
        (ResponseCache.new ⟨A.checked, keyHash⟩ enabled maxSizeBytes) ops = .ok c ∧
      Accounted A c.state heap maxSizeBytes := by
  have hChecked := checked_lawful hA
  have hFresh : Sound ⟨A.checked, keyHash⟩
      (ResponseCache.new ⟨A.checked, keyHash⟩ enabled maxSizeBytes) := new_sound hChecked hMax
  obtain ⟨c, hRun, hSound, hBalanced⟩ := runOps_balanced hChecked ops _ hFresh
  obtain ⟨l, hInv⟩ := hSound.inv
  obtain ⟨heap, hHeap⟩ := hInv.arena.intact
  have hSpans : A.checked.spans c.state.heap = A.spans heap := congrArg _ hHeap
  have hCount : (A.checked.spans c.state.heap).length = c.state.tableLen := by
    have hStart : A.checked.spans
        (ResponseCache.new ⟨A.checked, keyHash⟩ enabled maxSizeBytes : ResponseCache RecordType
          DNSClass (Option Heap)).state.heap = [] := hNew _
    have hSpans := hBalanced.spans
    rw [hStart] at hSpans
    simpa [ResponseCache.new] using hSpans
  have hPerm := hInv.spans_perm hChecked hCount
  obtain ⟨hApart, hTotal⟩ := hInv.arena.spans_fit hPerm
  have hSize : c.state.pool.length ≤ maxSizeBytes := by
    rw [hBalanced.pool]
    simp only [ResponseCache.new, List.length_replicate]
    split
    · exact Nat.le_refl _
    · exact Nat.zero_le _
  rw [hSpans] at hPerm hApart hTotal
  exact ⟨c, heap, hRun, hHeap, hPerm, hApart, hTotal.trans hSize⟩

/-- Three responses where there is room for two: the allocation of the second was given back,
and the third is in its place. -/
theorem pool_memory_accounted_evicting :
    ((runOps ⟨FirstFit.allocator.checked, collidingEnv.keyHash⟩
        (ResponseCache.new ⟨FirstFit.allocator.checked, collidingEnv.keyHash⟩ true 128)
        evictingOps).toOption.map fun c => c.state.heap.map FirstFit.Heap.spans) =
      some (some [(48, 44), (0, 44)]) ∧
    ∃ c heap, runOps ⟨FirstFit.allocator.checked, collidingEnv.keyHash⟩
        (ResponseCache.new ⟨FirstFit.allocator.checked, collidingEnv.keyHash⟩ true 128)
        evictingOps = .ok c ∧
      Accounted FirstFit.allocator c.state heap 128 :=
  ⟨by decide +kernel,
    pool_memory_accounted FirstFit.allocator_lawful (fun _ => rfl) collidingEnv.keyHash
      (fun _ => by decide) evictingOps⟩

end DnsRs.Cache
