import DnsRs.Wire.Aging
import DnsRs.Cache.Ops
import DnsRs.Cache.Invariant

/-!
# Lookup, release, scan and sweep

The operations that add no entry. A lookup answers from what the log says is
stored under the key (`getWithFlags_spec`); releasing a claim and scanning for
candidates change refresh bookkeeping only; the sweep evicts entries past their
stale window and no others (`sweepFrom_spec`).
-/

namespace DnsRs.Cache

open Lib Wire CacheState ResponseCache

variable {RecordType DNSClass Heap : Type} {st : CacheState RecordType DNSClass Heap}
  {i : Nat} {m m' : EntryMeta RecordType DNSClass} {l : List Nat}

/-! ## Updating refresh bookkeeping -/

theorem LruList.modify (h : st.LruList l) (hi : st.live? i = some m) (hNext : m'.next = m.next)
    (hPrev : m'.prev = m.prev) :
    ({ st with entries := st.entries.set i (some m') } :
      CacheState RecordType DNSClass Heap).LruList l := by
  have hNextOf := nextOf_modify hi m'
  rw [hNext, ← nextOf_eq hi, Function.update_eq_self] at hNextOf
  have hPrevOf := prevOf_modify hi m'
  rw [hPrev, ← prevOf_eq hi, Function.update_eq_self] at hPrevOf
  rw [LruList, hNextOf, hPrevOf]
  exact h

variable [DecidableEq RecordType] [DecidableEq DNSClass] {env : Env RecordType DNSClass Heap}
  {key : Key RecordType DNSClass} {now : Nat}

theorem Inv.modify (h : Inv env st l) (hi : st.live? i = some m) (hBody : m'.body = m.body)
    (hSlot : m'.tableSlot = m.tableSlot) (hNext : m'.next = m.next) (hPrev : m'.prev = m.prev) :
    Inv env { st with entries := st.entries.set i (some m') } l := by
  have hSame := updated_modify hi hBody hSlot
  refine h.same hSame.toSame (hSame.index h.index) ?_ (LruList.modify h.lru hi hNext hPrev)
  rw [hSame.occupied, hSame.tableLen, h.count]

/-! ## Lookup -/

/-- What a hit returns. -/
def Served (record : Record) (now : Nat) (found : Option (Bytes × Bool × Bool)) : Prop :=
  ∃ wire refresh done, found = some (wire, refresh, decide (record.expiresAt ≤ now)) ∧
    ageTtls record.wire (elapsedSecs record.originalTtl record.expiresAt now)
      (decide (record.expiresAt ≤ now)) = .ok (done, wire)

theorem hit_spec (hA : env.alloc.Lawful) (h : Inv env st l) (hi : st.live? i = some m)
    (now : Nat) :
    ∃ found st', hit st i now = .ok (found, st') ∧ Inv env st' (i :: l.erase i) ∧
      st'.pool = st.pool ∧ st'.log = .hit (keyOf st.pool m) :: st.log ∧
      Served (contentOf st.pool m) now found := by
  -- the entry moves to the front, then its bookkeeping is updated
  obtain ⟨l₁, l₂, rfl, hNew, hErase⟩ := h.split hi
  obtain ⟨st₁, hTouch, hSame₁, hLru₁⟩ := touch_spec h.lru h.live_of_mem
  obtain ⟨m₁, hm₁, hBody₁⟩ := hSame₁.live hi
  have hContent := contentOf_congr hBody₁ st.pool
  have hKey := (body_eq_iff hBody₁).2.2 st.pool
  have hSame₂ : Updated st { st₁ with
      entries := st₁.entries.set i (some (markHit now (shouldRefresh m₁ now) m₁)) } :=
    hSame₁.toUpdated.trans (updated_modify hm₁ rfl rfl)
  have hRead := (hSame₁.readable (h.arena.readable hA)) i m₁ hm₁
  rw [EntryMeta.totalLen] at hRead
  -- aging the copy returns, whatever the bytes are
  obtain ⟨done, wire, hAge, -⟩ := ageTtls_total
    (readAt st₁.pool (m₁.offset + m₁.nameLen) m₁.wireLen)
    (elapsedSecs m₁.originalTtl m₁.expiresAt now) (decide (m₁.expiresAt ≤ now))
  refine ⟨some (wire, shouldRefresh m₁ now, decide (m₁.expiresAt ≤ now)), { st₁ with
      entries := st₁.entries.set i (some (markHit now (shouldRefresh m₁ now) m₁))
      log := .hit (keyOf st.pool m) :: st.log }, ?_, ?_, hSame₁.pool, rfl, wire,
      shouldRefresh m₁ now, done, ?_, ?_⟩
  · have hSlice : slice st₁.pool (m₁.offset + m₁.nameLen) (m₁.offset + m₁.nameLen + m₁.wireLen) =
        .ok (readAt st₁.pool (m₁.offset + m₁.nameLen) m₁.wireLen) := by
      rw [slice_eq_ok (by omega) (by omega), Nat.add_sub_cancel_left]
    rw [hit]
    simp only [hTouch, ok_bind, entry_eq_ok.mpr hm₁, modifyEntry_eq_ok hm₁, hSlice, hAge]
    rw [hSame₁.pool, hSame₁.log, hKey]
    rfl
  · rw [hErase]
    refine inv_logged (hSame₂.index h.index) ?_ (hSame₂.slab h.slab) (hSame₂.arena h.arena)
      (hSame₂.distinct h.distinct) (fun k r => ?_) (LruList.modify hLru₁ hm₁ rfl rfl)
      (fun j => ?_) ?_
    · rw [hSame₂.occupied, hSame₂.tableLen, h.count]
    · rw [hSame₂.holds_iff, ← h.history]
      rfl
    · rw [hSame₂.isSome, ← h.mem_lru]
      simp only [List.mem_cons, List.mem_append]
      tauto
    · -- a hit is a use of the key
      have hRecent := h.recent.sublist ((List.sublist_cons_self i l₂).append_left l₁)
      refine (hRecent.congr fun j _ => hSame₂.keyAt j).use ?_ fun j hj hAt => ?_
      · rw [hSame₂.keyAt]
        exact keyAt_eq_some.mpr ⟨m, hi, rfl⟩
      · rw [hSame₂.keyAt] at hAt
        have hEq := h.distinct j i _ hAt (keyAt_eq_some.mpr ⟨m, hi, rfl⟩)
        exact hNew (hEq ▸ hj)
  · rw [← hContent]
    rfl
  · rw [← hContent, ← hSame₁.pool]
    exact hAge

/-- A key that is stored is not too long for the cache. -/
theorem Inv.name_le (hA : env.alloc.Lawful) (h : Inv env st l) {record : Record}
    (hStored : current st.log key = some record) : key.name.length ≤ maxNameLen := by
  obtain ⟨i, m, hi, rfl, -⟩ := (h.history key record).mp hStored
  have hFits := h.arena.readable hA i m hi
  rw [EntryMeta.totalLen] at hFits
  rw [keyOf, length_readAt (by omega)]
  exact h.arena.name_le i m hi

/-- Nothing is stored in a pool without bytes. -/
theorem Inv.current_of_empty (hA : env.alloc.Lawful) (h : Inv env st l) (hPool : st.pool = []) :
    current st.log key = none := by
  refine h.absent_iff.mp fun j hj => ?_
  obtain ⟨m, hm, -⟩ := keyAt_eq_some.mp hj
  have hInside := h.arena.inside j m hm
  have hPos := hA.block_pos m.totalLen
  rw [hPool, List.length_nil] at hInside
  omega

/-- What a lookup returns and adds to the log, by what is stored under the key. -/
def LookupEvents (log : List (CacheEvent RecordType DNSClass)) (key : Key RecordType DNSClass)
    (now : Nat) (found : Option (Bytes × Bool × Bool))
    (events : List (CacheEvent RecordType DNSClass)) : Prop :=
  match current log key with
  | none => found = none ∧ events = []
  | some record =>
    if record.staleUntil ≤ now then found = none ∧ events = [.evicted key .expired]
    else Served record now found ∧ events = [.hit key]

/-- A lookup hits exactly what is stored and before the end of its stale window. -/
theorem LookupEvents.isSome_iff {log events : List (CacheEvent RecordType DNSClass)}
    {key : Key RecordType DNSClass} {now : Nat} {found : Option (Bytes × Bool × Bool)}
    (h : LookupEvents log key now found events) :
    found.isSome = true ↔ ∃ record, current log key = some record ∧ now < record.staleUntil := by
  rw [LookupEvents] at h
  split at h
  · rename_i hCurrent
    simp [h.1, hCurrent]
  · rename_i record hCurrent
    split at h
    · rename_i hStale
      simp [h.1, hCurrent, hStale]
    · rename_i hStale
      obtain ⟨⟨wire, refresh, done, hFound, -⟩, -⟩ := h
      simp [hFound, hCurrent, Nat.lt_of_not_le hStale]

/-- What a lookup finds is stored, aged. -/
theorem LookupEvents.served {log events : List (CacheEvent RecordType DNSClass)}
    {key : Key RecordType DNSClass} {now : Nat} {wire : Bytes} {refresh stale : Bool}
    (h : LookupEvents log key now (some (wire, refresh, stale)) events) :
    ∃ record done, current log key = some record ∧ now < record.staleUntil ∧
      stale = decide (record.expiresAt ≤ now) ∧
      ageTtls record.wire (elapsedSecs record.originalTtl record.expiresAt now) stale =
        .ok (done, wire) := by
  rw [LookupEvents] at h
  split at h
  · cases h.1
  · rename_i record hCurrent
    split at h
    · cases h.1
    · rename_i hStale
      obtain ⟨⟨wire', refresh', done, hFound, hAge⟩, -⟩ := h
      cases hFound
      exact ⟨record, done, hCurrent, Nat.lt_of_not_le hStale, rfl, hAge⟩

/-- **Lookup** returns what the log says is stored, aged, up to the end of its
stale window. -/
theorem getWithFlags_spec (hA : env.alloc.Lawful) {c : ResponseCache RecordType DNSClass Heap}
    (h : Inv env c.state l) (hDisabled : c.enabled = false → c.state.pool = [])
    (key : Key RecordType DNSClass) (now : Nat) :
    ∃ found st' l', c.getWithFlags env key now = .ok (found, { c with state := st' }) ∧
      Inv env st' l' ∧ st'.pool = c.state.pool ∧
      ∃ events, st'.log = events ++ c.state.log ∧
        LookupEvents c.state.log key now found events := by
  by_cases hOff : (!c.enabled || decide (key.name.length > maxNameLen)) = true
  · refine ⟨none, c.state, l, ?_, h, rfl, [], rfl, ?_⟩
    · rw [getWithFlags, if_pos hOff]
      rfl
    · -- a disabled cache stores nothing, and no stored name is too long
      have hNone : current c.state.log key = none := by
        cases hCurrent : current c.state.log key with
        | none => rfl
        | some record =>
          have hName := h.name_le hA hCurrent
          have hOn : c.enabled = true := by
            by_contra hOff
            rw [h.current_of_empty hA (hDisabled (by simpa using hOff))] at hCurrent
            cases hCurrent
          simp [hOn, Nat.not_lt.mpr hName] at hOff
      rw [LookupEvents, hNone]
      exact ⟨rfl, rfl⟩
  · rw [getWithFlags, if_neg hOff]
    rcases locate_spec h.index (h.arena.readable hA) key with
      ⟨i, hLocate, -, hFound⟩ | ⟨s, hLocate, hNone, -⟩
    · obtain ⟨m, hm, rfl⟩ := keyAt_eq_some.mp hFound
      have hStored := h.stored hm
      by_cases hStale : m.staleUntil ≤ now
      · obtain ⟨st', hEvict, hInv, hEvicted⟩ := evict_spec hA h hm .expired
        refine ⟨none, st', _, ?_, hInv, hEvicted.pool, [_], hEvicted.log, ?_⟩
        · simp only [hLocate, ok_bind, entry_eq_ok.mpr hm, if_pos hStale, hEvict]
          rfl
        · rw [LookupEvents, hStored]
          simp only [contentOf, if_pos hStale, and_self]
      · obtain ⟨found, st', hHit, hInv, hPool, hLog, hServed⟩ := hit_spec hA h hm now
        refine ⟨found, st', _, ?_, hInv, hPool, [_], hLog, ?_⟩
        · simp only [hLocate, ok_bind, entry_eq_ok.mpr hm, if_neg hStale, hHit]
          rfl
        · rw [LookupEvents, hStored]
          simp only [contentOf, if_neg hStale, and_true]
          exact hServed
    · refine ⟨none, c.state, l, ?_, h, rfl, [], rfl, ?_⟩
      · simp only [hLocate, ok_bind]
        rfl
      · rw [LookupEvents, h.absent_iff.mp fun j => hNone j trivial]
        exact ⟨rfl, rfl⟩

/-! ## Claims -/

omit [DecidableEq RecordType] [DecidableEq DNSClass] in
theorem releaseClaim_frame (hash : UInt64) (now : Nat) (m : EntryMeta RecordType DNSClass) :
    (releaseClaim hash now m).body = m.body ∧ (releaseClaim hash now m).tableSlot = m.tableSlot ∧
      (releaseClaim hash now m).next = m.next ∧ (releaseClaim hash now m).prev = m.prev := by
  unfold releaseClaim
  split
  · simp only [EntryMeta.body, and_self]
  · simp only [and_self]

theorem releaseRefreshClaimWithFlags_spec (hA : env.alloc.Lawful)
    {c : ResponseCache RecordType DNSClass Heap} (h : Inv env c.state l)
    (key : Key RecordType DNSClass) (now : Nat) :
    ∃ st', c.releaseRefreshClaimWithFlags env key now = .ok { c with state := st' } ∧
      Inv env st' l ∧ st'.pool = c.state.pool ∧ st'.log = c.state.log := by
  rw [releaseRefreshClaimWithFlags]
  rcases locate_spec h.index (h.arena.readable hA) key with
    ⟨i, hLocate, -, hFound⟩ | ⟨s, hLocate, -⟩
  · obtain ⟨m, hm, -⟩ := keyAt_eq_some.mp hFound
    obtain ⟨hBody, hSlot, hNext, hPrev⟩ := releaseClaim_frame (env.keyHash key) now m
    refine ⟨_, ?_, h.modify hm hBody hSlot hNext hPrev, rfl, rfl⟩
    simp only [hLocate, ok_bind, modifyEntry_eq_ok hm]
    rfl
  · refine ⟨c.state, ?_, h, rfl, rfl⟩
    simp only [hLocate, ok_bind]
    rfl

/-- The next entry of a live one is live, or the list ends. -/
theorem Inv.next_live (h : Inv env st l) (hi : st.live? i = some m) :
    m.next = noEntry ∨ (st.live? m.next).isSome = true := by
  obtain ⟨l₁, l₂, rfl, -⟩ := h.split hi
  rw [← nextOf_eq hi]
  exact (LruList.neighbours_live h.lru h.live_of_mem).2

/-- The claim is bookkeeping: the list the scan follows stays as it is. -/
theorem Inv.claimed {entry : Nat} {m : EntryMeta RecordType DNSClass} (h : Inv env st l)
    (hm : st.live? entry = some m) :
    Inv env { st with
        entries := st.entries.set entry (some { m with refreshClaimed := true }) } l ∧
      (m.next = noEntry ∨ (CacheState.live? { st with
        entries := st.entries.set entry (some { m with refreshClaimed := true }) } m.next).isSome =
          true) := by
  have hSame : Updated st { st with
      entries := st.entries.set entry (some { m with refreshClaimed := true }) } :=
    updated_modify hm rfl rfl
  refine ⟨h.modify hm rfl rfl rfl rfl, ?_⟩
  rw [hSame.isSome]
  exact h.next_live hm

/-- **The scan** for candidates returns from wherever it stands in the list. -/
theorem scanCandidates_spec (hA : env.alloc.Lawful) (budget now : Nat) :
    ∀ (count entry : Nat) (requests : List Bytes) (st : CacheState RecordType DNSClass Heap),
      Inv env st l → (entry = noEntry ∨ (st.live? entry).isSome = true) →
      ∃ list st', scanCandidates budget now count entry requests st = .ok (list, st') ∧
        Inv env st' l ∧ st'.pool = st.pool ∧ st'.log = st.log := by
  intro count
  induction count with
  | zero => exact fun entry requests st h _ => ⟨requests, st, rfl, h, rfl, rfl⟩
  | succ count ih =>
    intro entry requests st h hEntry
    rw [scanCandidates]
    by_cases hEnd : entry = noEntry ∨ requests.length = budget
    · rw [if_pos hEnd]
      exact ⟨requests, st, rfl, h, rfl, rfl⟩
    obtain ⟨m, hm⟩ := Option.isSome_iff_exists.mp
      (hEntry.resolve_left fun hEq => hEnd (.inl hEq))
    obtain ⟨hSlot, -⟩ := h.index.placed_slot entry m trivial hm
    have hFits := h.arena.readable hA entry m hm
    rw [EntryMeta.totalLen] at hFits
    rw [if_neg hEnd, entry_eq_ok.mpr hm, ok_bind, hSlot]
    dsimp only
    split
    · obtain ⟨hMarked, hNext⟩ := h.claimed hm
      rw [slice_eq_ok (by omega) (by omega), ok_bind, modifyEntry_eq_ok hm, ok_bind]
      exact ih _ _ _ hMarked hNext
    · exact ih _ _ _ h (h.next_live hm)

theorem refreshCandidates_spec (hA : env.alloc.Lawful)
    {c : ResponseCache RecordType DNSClass Heap} (h : Inv env c.state l) (budget now : Nat) :
    ∃ list st', c.refreshCandidates budget now = .ok (list, { c with state := st' }) ∧
      Inv env st' l ∧ st'.pool = c.state.pool ∧ st'.log = c.state.log := by
  rw [refreshCandidates]
  split
  · exact ⟨[], c.state, rfl, h, rfl, rfl⟩
  · have hHead := LruList.head_live h.lru h.live_of_mem
    obtain ⟨list, st', hScan, hInv, hPool, hLog⟩ :=
      scanCandidates_spec hA budget now refreshScanLimit c.state.lruHead [] c.state h hHead
    refine ⟨list, st', ?_, hInv, hPool, hLog⟩
    rw [hScan]
    rfl

/-! ## The sweep -/

/-- The keys were stored and past their stale window. -/
def AllExpired (log : List (CacheEvent RecordType DNSClass)) (now : Nat)
    (victims : List (Key RecordType DNSClass)) : Prop :=
  ∀ key ∈ victims, ∃ record, current log key = some record ∧ record.staleUntil ≤ now

/-- **The sweep** returns and evicts nothing but expired entries. -/
theorem sweepFrom_spec (hA : env.alloc.Lawful) (now : Nat) :
    ∀ (count index : Nat) (st : CacheState RecordType DNSClass Heap) (l : List Nat),
      Inv env st l → index + count ≤ st.entries.length →
      ∃ st' l' victims, sweepFrom env now count index st = .ok st' ∧ Inv env st' l' ∧
        st'.pool = st.pool ∧ st'.log = victims.map (.evicted · .sweep) ++ st.log ∧
        AllExpired st.log now victims := by
  intro count
  induction count with
  | zero => exact fun index st l h _ => ⟨st, l, [], rfl, h, rfl, rfl, nofun⟩
  | succ count ih =>
    intro index st l h hEnd
    have hLt : index < st.entries.length := by omega
    rw [sweepFrom, List.getElem?_eq_getElem hLt]
    cases hEntry : st.entries[index] with
    | none => exact ih (index + 1) st l h (by omega)
    | some m =>
      have hm : st.live? index = some m := by
        rw [live?_eq_some, List.getElem?_eq_getElem hLt, hEntry]
      have hStored := h.stored hm
      dsimp only
      by_cases hStale : m.staleUntil ≤ now
      · have hProper := h.index.proper
        have hWord : tombstone < 2 ^ 32 := by decide
        obtain ⟨st₁, hEvict, hInv, hEvicted⟩ := evict_spec hA h hm .sweep
        obtain ⟨st', l', victims, hRun, hInv', hPool, hLog, hExpired⟩ :=
          ih (index + 1) st₁ _ hInv (by rw [hEvicted.length]; omega)
        refine ⟨st', l', victims ++ [keyOf st.pool m], ?_, hInv', hPool.trans hEvicted.pool, ?_, ?_⟩
        · rw [if_pos hStale, Nat.mod_eq_of_lt (by omega), hEvict, ok_bind]
          exact hRun
        · rw [hLog, hEvicted.log, List.map_append, List.append_assoc]
          rfl
        · intro key hKey
          rcases List.mem_append.mp hKey with hKey | hKey
          · obtain ⟨record, hRecord, hPast⟩ := hExpired key hKey
            -- a later victim was stored under another key all along
            rw [hEvicted.log, current] at hRecord
            split at hRecord
            · cases hRecord
            · exact ⟨record, hRecord, hPast⟩
          · rw [List.mem_singleton.mp hKey]
            exact ⟨_, hStored, hStale⟩
      · rw [if_neg hStale]
        exact ih (index + 1) st l h (by omega)

theorem evictExpiredBatch_spec (hA : env.alloc.Lawful)
    {c : ResponseCache RecordType DNSClass Heap} (h : Inv env c.state l) (start stop now : Nat) :
    ∃ st' l' victims, c.evictExpiredBatch env start stop now = .ok { c with state := st' } ∧
      Inv env st' l' ∧ st'.pool = c.state.pool ∧
      st'.log = victims.map (.evicted · .sweep) ++ c.state.log ∧
      AllExpired c.state.log now victims := by
  by_cases hEmpty : min stop c.state.entries.length ≤ start
  · refine ⟨c.state, l, [], ?_, h, rfl, rfl, nofun⟩
    rw [evictExpiredBatch, Nat.sub_eq_zero_of_le hEmpty]
    rfl
  · obtain ⟨st', l', victims, hRun, hRest⟩ := sweepFrom_spec hA now
      (min stop c.state.entries.length - start) start c.state l h (by omega)
    refine ⟨st', l', victims, ?_, hRest⟩
    rw [evictExpiredBatch, hRun]
    rfl

end DnsRs.Cache
