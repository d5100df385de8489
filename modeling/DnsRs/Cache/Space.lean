import DnsRs.Cache.Ops
import DnsRs.Cache.Invariant

/-!
# Making room for an insert

The three resources an insert takes. `allocateLoop_spec`: evicting from the
tail of the LRU list until the allocation succeeds or the cache is empty ends,
and loses nothing but the victims. `copyIn_spec`: the copies fill the new
allocation and leave every other one as it was. `allocEntry_spec`: the slab
gives an index that no live entry has.
-/

namespace DnsRs.Cache

open Lib Wire CacheState ResponseCache

variable {RecordType DNSClass Heap : Type}

/-! ## Evicting for space -/

/-- What evictions for space leave as it was. -/
structure SpaceMade (st st' : CacheState RecordType DNSClass Heap) : Prop where
  log : ∃ victims : List (Key RecordType DNSClass),
    st'.log = victims.map (.evicted · .space) ++ st.log
  pool : st'.pool = st.pool
  length : st'.entries.length = st.entries.length
  load : st'.tableLen + st'.tombstones = st.tableLen + st.tombstones
  table : st'.table.length = st.table.length

theorem SpaceMade.refl (st : CacheState RecordType DNSClass Heap) : SpaceMade st st :=
  ⟨⟨[], rfl⟩, rfl, rfl, rfl, rfl⟩

theorem SpaceMade.trans {st₁ st₂ st₃ : CacheState RecordType DNSClass Heap}
    (h : SpaceMade st₁ st₂) (h' : SpaceMade st₂ st₃) : SpaceMade st₁ st₃ := by
  obtain ⟨victims, hLog⟩ := h.log
  obtain ⟨victims', hLog'⟩ := h'.log
  refine ⟨⟨victims' ++ victims, ?_⟩, h'.pool.trans h.pool, h'.length.trans h.length,
    h'.load.trans h.load, h'.table.trans h.table⟩
  rw [hLog', hLog, List.map_append, List.append_assoc]

variable [DecidableEq RecordType] [DecidableEq DNSClass] {env : Env RecordType DNSClass Heap}
  {st : CacheState RecordType DNSClass Heap} {l : List Nat}

/-- **`evict_one_for_space`** evicts the last entry of the list, if there is
one. -/
theorem evictOneForSpace_spec (hA : env.alloc.Lawful) (h : Inv env st l) :
    (l = [] ∧ st.evictOneForSpace env = .ok (false, st)) ∨
    ∃ m st', st.live? st.lruTail = some m ∧ st.evictOneForSpace env = .ok (true, st') ∧
      Inv env st' (l.erase st.lruTail) ∧ Evicted st st.lruTail m .space st' := by
  rw [evictOneForSpace]
  by_cases hEmpty : l = []
  · exact .inl ⟨hEmpty, by rw [if_pos ((Threaded.tail_eq_iff h.lru).mpr hEmpty)]; rfl⟩
  · have hMem : st.lruTail ∈ l := Threaded.tail_eq h.lru ▸ getLastD_mem hEmpty
    obtain ⟨m, hm⟩ := Option.isSome_iff_exists.mp (h.live_of_mem _ hMem)
    obtain ⟨st', hEvict, hInv, hEvicted⟩ := evict_spec hA h hm .space
    refine .inr ⟨m, st', hm, ?_, hInv, hEvicted⟩
    rw [if_neg fun hEnd => hEmpty ((Threaded.tail_eq_iff h.lru).mp hEnd),
      (h.arena.readable hA).name hm, ok_bind, hEvict, ok_bind]
    rfl

/-- **The allocation loop** returns: every turn evicts an entry, and it stops
when there is none left. -/
theorem allocateLoop_spec (hA : env.alloc.Lawful) (size : Nat) :
    ∀ (fuel : Nat) (st : CacheState RecordType DNSClass Heap) (l : List Nat), Inv env st l →
      st.tableLen < fuel →
      ∃ st₁ l₁, Inv env st₁ l₁ ∧ SpaceMade st st₁ ∧
        (allocateLoop env size fuel st = .ok (none, st₁) ∨
          ∃ offset heap, env.alloc.allocateFirstFit st₁.heap size = some (offset, heap) ∧
            allocateLoop env size fuel st = .ok (some offset, { st₁ with heap := heap })) := by
  intro fuel
  induction fuel with
  | zero =>
    intro st l _ hFuel
    omega
  | succ fuel ih =>
    intro st l h hFuel
    rw [allocateLoop]
    cases hAlloc : env.alloc.allocateFirstFit st.heap size with
    | some result =>
      obtain ⟨offset, heap⟩ := result
      exact ⟨st, l, h, SpaceMade.refl st, .inr ⟨offset, heap, hAlloc, rfl⟩⟩
    | none =>
      -- the heap is full: evict one and try again, unless nothing is left to evict
      rcases evictOneForSpace_spec hA h with ⟨-, hRun⟩ | ⟨m, st', -, hRun, hInv, hEvicted⟩
      · refine ⟨st, l, h, SpaceMade.refl st, .inl ?_⟩
        simp only [hRun, ok_bind]
        rfl
      · have hStep : SpaceMade st st' :=
          ⟨⟨[_], hEvicted.log⟩, hEvicted.pool, hEvicted.length, hEvicted.load, hEvicted.table⟩
        -- one entry less, so the fuel lasts
        have hLess := hEvicted.tableLen
        obtain ⟨st₁, l₁, hInv₁, hMade, hResult⟩ := ih st' _ hInv (by omega)
        refine ⟨st₁, l₁, hInv₁, hStep.trans hMade, ?_⟩
        simp only [hRun, ok_bind, if_true]
        exact hResult

/-! ## The arena -/

/-- **The copies** fill the allocation and nothing else. -/
theorem copyIn_spec {pool name wire request : Bytes} {offset : Nat}
    (hFits : offset + (name.length + wire.length + request.length) ≤ pool.length) :
    ∃ pool', copyIn pool offset name wire request = .ok pool' ∧ pool'.length = pool.length ∧
      readAt pool' offset name.length = name ∧
      readAt pool' (offset + name.length) wire.length = wire ∧
      readAt pool' (offset + name.length + wire.length) request.length = request ∧
      ∀ a n, DisjointRange a n offset (name.length + wire.length + request.length) →
        readAt pool' a n = readAt pool a n := by
  -- the three copies lie behind each other, so a later one spares the earlier
  have hName : offset + name.length ≤ pool.length := by omega
  have hLen₁ := length_writeAt hName
  have hWire : offset + name.length + wire.length ≤ (writeAt pool offset name).length := by omega
  have hLen₂ := length_writeAt hWire
  have hRequest : offset + name.length + wire.length + request.length ≤
      (writeAt (writeAt pool offset name) (offset + name.length) wire).length := by omega
  refine ⟨_, ?_, (length_writeAt hRequest).trans (hLen₂.trans hLen₁), ?_, ?_,
    readAt_writeAt_self hRequest, fun a n hApart => ?_⟩
  · rw [copyIn, overwrite_eq_ok hName, ok_bind, overwrite_eq_ok hWire, ok_bind,
      overwrite_eq_ok hRequest]
  · rw [readAt_writeAt_of_disjoint hRequest (.inl (by omega)),
      readAt_writeAt_of_disjoint hWire (.inl (by omega)), readAt_writeAt_self hName]
  · rw [readAt_writeAt_of_disjoint hRequest (.inl (by omega)), readAt_writeAt_self hWire]
  · rw [DisjointRange] at hApart
    rw [readAt_writeAt_of_disjoint hRequest (by rw [DisjointRange]; omega),
      readAt_writeAt_of_disjoint hWire (by rw [DisjointRange]; omega),
      readAt_writeAt_of_disjoint hName (by rw [DisjointRange]; omega)]

/-! ## The slab -/

/-- The entry at `i` was vacant and now holds `m`. -/
structure Allocated (st : CacheState RecordType DNSClass Heap) (i : Nat)
    (m : EntryMeta RecordType DNSClass) (st' : CacheState RecordType DNSClass Heap) : Prop where
  fresh : st.live? i = none
  view : ∀ j, st'.live? j = if j = i then some m else st.live? j
  slab : Slab st'
  occupied : st'.occupied = st.occupied + 1
  /-- The slab grows only when it is full. -/
  length : st'.entries.length = st.entries.length ∨
    ∀ j < st'.entries.length, (st'.live? j).isSome = true
  rest : st' = { st with entries := st'.entries, freeEntries := st'.freeEntries }

omit [DecidableEq RecordType] [DecidableEq DNSClass] in
theorem allocEntry_spec (h : Slab st) (hSmall : st.entries.length < 2 ^ 32)
    (m : EntryMeta RecordType DNSClass) :
    ∃ i st', st.allocEntry m = .ok (i, st') ∧ Allocated st i m st' := by
  rw [allocEntry]
  cases hFree : st.freeEntries with
  | cons i rest =>
    -- an index from the free list is reused
    have hNodup := h.nodup
    rw [hFree, List.nodup_cons] at hNodup
    obtain ⟨hLt, hNone⟩ := (h.mem_free i).mp (hFree ▸ List.mem_cons_self)
    have hAt : st.entries[i]? = some none := by
      rw [List.getElem?_eq_getElem hLt]
      rw [live?, List.getElem?_eq_getElem hLt] at hNone
      exact congrArg some hNone
    have hView : ∀ j, ({ st with entries := st.entries.set i (some m), freeEntries := rest } :
        CacheState RecordType DNSClass Heap).live? j = if j = i then some m else st.live? j :=
      fun j => live?_set hLt
    simp only [if_pos hLt]
    refine ⟨i, _, rfl, hNone, hView, ⟨hNodup.2, fun j => ?_⟩, ?_, .inl List.length_set, rfl⟩
    · -- `i` has left the free list and is no longer vacant
      have hMem := h.mem_free j
      rw [hFree, List.mem_cons] at hMem
      rw [hView, List.length_set]
      by_cases hj : j = i
      · subst hj
        simp [hNodup.1]
      · rw [if_neg hj, ← hMem]
        simp [hj]
    · have hCount := countP_set (p := Option.isSome) hAt (some m)
      simpa [CacheState.occupied] using hCount
  | nil =>
    -- nothing is free, so the slab is full and grows by one
    have hFull : ∀ j < st.entries.length, (st.live? j).isSome = true := by
      intro j hj
      by_contra hNone
      have hMem := (h.mem_free j).mpr ⟨hj, Option.not_isSome_iff_eq_none.mp hNone⟩
      rw [hFree] at hMem
      cases hMem
    have hView : ∀ j, ({ st with entries := st.entries ++ [some m], freeEntries := [] } :
        CacheState RecordType DNSClass Heap).live? j =
          if j = st.entries.length then some m else st.live? j := by
      intro j
      rw [live?, live?]
      rcases Nat.lt_trichotomy j st.entries.length with hj | rfl | hj
      · rw [List.getElem?_append_left hj, if_neg (by omega)]
      · simp
      · rw [List.getElem?_eq_none (by simp; omega), List.getElem?_eq_none (by omega),
          if_neg (by omega)]
    have hGrown : ∀ j < (st.entries ++ [some m]).length,
        (({ st with entries := st.entries ++ [some m], freeEntries := [] } :
          CacheState RecordType DNSClass Heap).live? j).isSome = true := by
      intro j hj
      rw [hView]
      split
      · rfl
      · rw [List.length_append, List.length_singleton] at hj
        exact hFull j (by omega)
    -- the index is cast to 32 bits, which changes nothing
    rw [Nat.mod_eq_of_lt hSmall]
    refine ⟨_, _, rfl, ?_, hView, ⟨?_, fun j => ?_⟩, ?_, .inr hGrown, ?_⟩
    · rw [live?, List.getElem?_eq_none (Nat.le_refl _)]
      rfl
    · exact List.nodup_nil
    · constructor
      · intro hMem
        cases hMem
      · rintro ⟨hLt, hNone⟩
        have hSome := hGrown j hLt
        rw [hNone] at hSome
        cases hSome
    · rw [CacheState.occupied, List.countP_append]
      rfl
    · rfl

end DnsRs.Cache
