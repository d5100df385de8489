import DnsRs.Cache.Holding

/-!
# The refresh bookkeeping of the entries

Beside its record an entry carries notes for the refresh: when it was last used,
whether it was reused, how often its refresh failed, and whether somebody has
claimed it. The other modules leave these out on purpose; here is what each
operation does to them.

Moving entries around in the list, in the table and in the slab keeps the notes
(`Keeps`), so what is noted after a call was noted before it at the same index of
the slab, but for what the call itself writes: `insertWithFlags_noted`,
`getWithFlags_noted`, `releaseRefreshClaimWithFlags_noted`,
`refreshCandidates_picked` and `evictExpiredBatch_noted`. The fourth also says
what the requests are that `refresh_candidates` returns.
-/

namespace DnsRs.Cache

open Lib Wire CacheState ResponseCache

variable {RecordType DNSClass Heap : Type} {st st' st₁ st₂ st₃ : CacheState RecordType DNSClass Heap}
  {i : Nat} {m m' : EntryMeta RecordType DNSClass} {key : Key RecordType DNSClass} {l : List Nat}

/-! ## Notes -/

structure Notes where
  lastUsed : Nat
  retryAfter : Nat
  reused : Bool
  refreshFailures : Nat
  refreshClaimed : Bool
  deriving DecidableEq, Repr

def EntryMeta.notes (m : EntryMeta RecordType DNSClass) : Notes :=
  ⟨m.lastUsed, m.retryAfter, m.reused, m.refreshFailures, m.refreshClaimed⟩

/-- A hit, which may claim the refresh. -/
def Notes.hit (n : Notes) (now : Nat) (refresh : Bool) : Notes :=
  { n with lastUsed := now, reused := true, refreshClaimed := n.refreshClaimed || refresh }

def Notes.claim (n : Notes) : Notes := { n with refreshClaimed := true }

/-- A release. Only a claim that is set counts as a failure. -/
def Notes.release (n : Notes) (hash : UInt64) (now : Nat) : Notes :=
  if n.refreshClaimed then
    let failures := min (min (n.refreshFailures + 1) 255) 5
    { n with
      refreshClaimed := false
      refreshFailures := failures
      retryAfter := now + (2 ^ failures * 500 + hash.toNat % 500) * millisecond }
  else n

/-- Nobody has claimed the refresh, and the time to try again has come. -/
def Notes.Due (n : Notes) (now : Nat) : Prop := n.refreshClaimed = false ∧ n.retryAfter ≤ now

/-- Looked up not long ago. -/
def Notes.Active (n : Notes) (now : Nat) : Prop :=
  n.reused = true ∧ now - n.lastUsed < refreshIdleLimit

theorem releaseClaim_notes (hash : UInt64) (now : Nat) (m : EntryMeta RecordType DNSClass) :
    (releaseClaim hash now m).notes = m.notes.release hash now := by
  rw [releaseClaim, Notes.release]
  cases hClaim : m.refreshClaimed with
  | true => simp only [EntryMeta.notes, hClaim, if_true]
  | false => simp [EntryMeta.notes, hClaim]

theorem shouldRefresh_due {now : Nat} (h : shouldRefresh m now = true) : m.notes.Due now := by
  simp only [shouldRefresh, Bool.and_eq_true, Bool.not_eq_true', decide_eq_true_iff] at h
  exact h.1

theorem isCandidate_notes {hash : UInt64} {now : Nat} (h : isCandidate m hash now = true) :
    m.notes.Due now ∧ m.notes.Active now := by
  simp only [isCandidate, Bool.and_eq_true, Bool.not_eq_true', decide_eq_true_iff] at h
  obtain ⟨⟨⟨⟨⟨⟨hReused, -⟩, hFree⟩, hRetry⟩, -⟩, hUsed⟩, -⟩ := h
  exact ⟨⟨hFree, hRetry⟩, hReused, hUsed⟩

/-- The entry stored under this key has these notes. -/
def Noted (st : CacheState RecordType DNSClass Heap) (key : Key RecordType DNSClass) (n : Notes) :
    Prop :=
  ∃ i m, st.live? i = some m ∧ keyOf st.pool m = key ∧ m.notes = n

/-- The entry at this index of the slab has this key and these notes. -/
def NotedAt (st : CacheState RecordType DNSClass Heap) (i : Nat) (key : Key RecordType DNSClass)
    (n : Notes) : Prop :=
  ∃ m, st.live? i = some m ∧ keyOf st.pool m = key ∧ m.notes = n

theorem NotedAt.noted {n : Notes} (h : NotedAt st i key n) : Noted st key n := ⟨i, h⟩

/-- An entry but for its place in the list and in the table. -/
def EntryMeta.settled (m : EntryMeta RecordType DNSClass) : EntryMeta RecordType DNSClass :=
  { m with prev := 0, next := 0, tableSlot := 0 }

/-- Every entry of the second state is one of the first, at most moved. -/
structure Keeps (st st' : CacheState RecordType DNSClass Heap) : Prop where
  pool : st'.pool = st.pool
  entry : ∀ i m', st'.live? i = some m' → ∃ m, st.live? i = some m ∧ m'.settled = m.settled

theorem Keeps.refl (st : CacheState RecordType DNSClass Heap) : Keeps st st :=
  ⟨rfl, fun _ m hm => ⟨m, hm, rfl⟩⟩

theorem Keeps.trans (h : Keeps st₁ st₂) (h' : Keeps st₂ st₃) : Keeps st₁ st₃ := by
  refine ⟨h'.pool.trans h.pool, fun i m₃ hm₃ => ?_⟩
  obtain ⟨m₂, hm₂, hEq⟩ := h'.entry i m₃ hm₃
  obtain ⟨m₁, hm₁, hEq'⟩ := h.entry i m₂ hm₂
  exact ⟨m₁, hm₁, hEq.trans hEq'⟩

theorem notes_of_settled (h : m'.settled = m.settled) :
    m'.notes = m.notes ∧ ∀ pool, keyOf pool m' = keyOf pool m := by
  have hNotes : m'.settled.notes = m.settled.notes := congrArg _ h
  have hKey : ∀ pool, keyOf pool m'.settled = keyOf pool m.settled := fun pool => congrArg _ h
  exact ⟨hNotes, hKey⟩

theorem Keeps.noted {n : Notes} (h : Keeps st st') (hn : NotedAt st' i key n) :
    NotedAt st i key n := by
  obtain ⟨m', hm', rfl, rfl⟩ := hn
  obtain ⟨m, hm, hEq⟩ := h.entry i m' hm'
  obtain ⟨hNotes, hKey⟩ := notes_of_settled hEq
  exact ⟨m, hm, by rw [h.pool, hKey], hNotes.symm⟩

/-- The relations of the other modules, seen as this one. -/
theorem keeps_of_view (view : EntryMeta RecordType DNSClass → EntryMeta RecordType DNSClass)
    (hView : ∀ m : EntryMeta RecordType DNSClass, (view m).settled = m.settled)
    (hPool : st'.pool = st.pool)
    (h : ∀ i, (st'.live? i).isSome = true → (st'.live? i).map view = (st.live? i).map view) :
    Keeps st st' := by
  refine ⟨hPool, fun i m' hm' => ?_⟩
  have hMap := h i (by rw [hm']; rfl)
  rw [hm'] at hMap
  obtain ⟨m, hm, hEq⟩ := Option.map_eq_some_iff.mp hMap.symm
  exact ⟨m, hm, by rw [← hView m', ← hView m, hEq]⟩

theorem Relinked.keeps (h : Relinked st st') : Keeps st st' :=
  keeps_of_view EntryMeta.core (fun _ => rfl) h.pool fun i _ => h.core i

theorem Reslotted.keeps (h : Reslotted st st') : Keeps st st' :=
  keeps_of_view EntryMeta.unslotted (fun _ => rfl) h.pool fun i _ => h.entry i

theorem Evicted.keeps {reason : Reason} (h : Evicted st i m reason st') : Keeps st st' := by
  refine keeps_of_view EntryMeta.core (fun _ => rfl) h.pool fun j hj => ?_
  refine h.others j ?_
  rintro rfl
  rw [h.gone] at hj
  cases hj

/-- One entry's notes are rewritten. -/
theorem notedAt_modify {n : Notes} {j : Nat} (hi : st.live? i = some m)
    (hn : NotedAt { st with entries := st.entries.set i (some m') } j key n)
    (hBody : m'.body = m.body) :
    (n = m'.notes ∧ NotedAt st j key m.notes ∧ key = keyOf st.pool m) ∨
      (j ≠ i ∧ NotedAt st j key n) := by
  obtain ⟨mj, hj, hKey, rfl⟩ := hn
  rw [live?_modified hi] at hj
  split at hj
  · rename_i hji
    cases hj
    have hSame : keyOf st.pool m = key := by
      rw [← hKey]
      exact ((body_eq_iff hBody).2.2 st.pool).symm
    exact .inl ⟨rfl, ⟨m, hji ▸ hi, hSame, rfl⟩, hSame.symm⟩
  · exact .inr ⟨‹_›, mj, hj, hKey, rfl⟩

/-! ## Scans -/

/-- What a scan does: it claims the entries at the indexes `picked`, which were candidates,
and returns their requests. -/
structure Picked (st : CacheState RecordType DNSClass Heap) (now : Nat) (picked : List Nat)
    (requests : List Bytes) (st' : CacheState RecordType DNSClass Heap) : Prop where
  nodup : picked.Nodup
  candidate : ∀ j ∈ picked, ∃ m hash, st.live? j = some m ∧ isCandidate m hash now = true
  request : List.Forall₂ (fun j r => ∃ m, st.live? j = some m ∧ (contentOf st.pool m).request = r)
    picked requests
  view : ∀ j, st'.live? j =
    if j ∈ picked then (st.live? j).map fun m => { m with refreshClaimed := true }
    else st.live? j
  pool : st'.pool = st.pool
  log : st'.log = st.log

theorem Picked.nil (st : CacheState RecordType DNSClass Heap) (now : Nat) :
    Picked st now [] [] st :=
  ⟨List.nodup_nil, nofun, .nil, fun _ => (if_neg List.not_mem_nil).symm, rfl, rfl⟩

/-- One more entry in front. It cannot be picked again, since it is claimed. -/
theorem Picked.cons {now : Nat} {hash : UInt64} {picked : List Nat} {requests : List Bytes}
    (hm : st.live? i = some m) (hCandidate : isCandidate m hash now = true)
    (h : Picked { st with entries := st.entries.set i (some { m with refreshClaimed := true }) } now
      picked requests st') :
    Picked st now (i :: picked) ((contentOf st.pool m).request :: requests) st' := by
  have hView := live?_modified hm { m with refreshClaimed := true }
  have hFresh : i ∉ picked := by
    intro hMem
    obtain ⟨mi, hash, hi, hAgain⟩ := h.candidate i hMem
    rw [hView, if_pos rfl] at hi
    cases hi
    exact absurd (isCandidate_notes hAgain).1.1 (by simp [EntryMeta.notes])
  have hOther : ∀ j ∈ picked, ({ st with
      entries := st.entries.set i (some { m with refreshClaimed := true }) } :
        CacheState RecordType DNSClass Heap).live? j = st.live? j := by
    intro j hj
    rw [hView, if_neg]
    rintro rfl
    exact hFresh hj
  constructor
  case nodup => exact List.nodup_cons.mpr ⟨hFresh, h.nodup⟩
  case candidate =>
    intro j hj
    rcases List.mem_cons.mp hj with rfl | hj
    · exact ⟨m, hash, hm, hCandidate⟩
    · obtain ⟨mj, hash', hmj, hIs⟩ := h.candidate j hj
      exact ⟨mj, hash', (hOther j hj).symm.trans hmj, hIs⟩
  case request =>
    refine .cons ⟨m, hm, rfl⟩ ?_
    refine List.forall₂_iff_zip.mpr ⟨h.request.length_eq, fun {j r} hjr => ?_⟩
    obtain ⟨mj, hmj, hr⟩ := (List.forall₂_iff_zip.mp h.request).2 hjr
    exact ⟨mj, (hOther j (List.of_mem_zip hjr).1).symm.trans hmj, hr⟩
  case view =>
    intro j
    rw [h.view, hView]
    by_cases hj : j = i
    · subst hj
      rw [if_neg hFresh, if_pos rfl, if_pos List.mem_cons_self, hm]
      rfl
    · rw [if_neg hj]
      simp only [List.mem_cons, hj, false_or]
  case pool => exact h.pool
  case log => exact h.log

/-- A scan rewrites the notes of the entries that it picks, and no others. -/
theorem Picked.noted {now : Nat} {picked : List Nat} {requests : List Bytes} {n : Notes}
    (h : Picked st now picked requests st') (hn : NotedAt st' i key n) :
    (i ∈ picked ∧ ∃ n₀, NotedAt st i key n₀ ∧ n = n₀.claim ∧ n₀.Due now ∧ n₀.Active now) ∨
      (i ∉ picked ∧ NotedAt st i key n) := by
  obtain ⟨m', hm', hKey, rfl⟩ := hn
  rw [h.pool] at hKey
  rw [h.view] at hm'
  split at hm'
  · rename_i hPick
    obtain ⟨m, hash, hm, hIs⟩ := h.candidate i hPick
    rw [hm] at hm'
    cases hm'
    exact .inl ⟨hPick, m.notes, ⟨m, hm, hKey, rfl⟩, rfl, isCandidate_notes hIs⟩
  · exact .inr ⟨‹_›, m', hm', hKey, rfl⟩

/-- The request of a picked entry is returned. -/
theorem Picked.mem_requests {now : Nat} {picked : List Nat} {requests : List Bytes}
    (h : Picked st now picked requests st') (hPick : i ∈ picked) (hm : st.live? i = some m) :
    (contentOf st.pool m).request ∈ requests := by
  obtain ⟨j, hj, rfl⟩ := List.getElem_of_mem hPick
  have hLen := h.request.length_eq
  obtain ⟨m', hm', hRequest⟩ := h.request.get hj (by omega)
  rw [List.get_eq_getElem] at hm'
  rw [hm] at hm'
  cases hm'
  rw [hRequest]
  exact List.get_mem _ _

variable [DecidableEq RecordType] [DecidableEq DNSClass] {env : Env RecordType DNSClass Heap}
  {c c' : ResponseCache RecordType DNSClass Heap}

/-! ## Insertion -/

theorem replace_keeps (hA : env.alloc.Lawful) (h : Inv env st l) {now lastUsed : Nat}
    {reused : Bool} (hRun : replace env st key now = .ok (lastUsed, reused, st')) :
    Keeps st st' := by
  rcases replace_cases hA h hRun with ⟨-, -, rfl, -⟩ | ⟨i, m, -, -, -, -, -, hEvicted⟩
  · exact Keeps.refl st'
  · exact hEvicted.keeps

theorem allocateLoop_keeps (hA : env.alloc.Lawful) {size : Nat} {offset : Option Nat} :
    ∀ (fuel : Nat) (st : CacheState RecordType DNSClass Heap) (l : List Nat), Inv env st l →
      allocateLoop env size fuel st = .ok (offset, st') → Keeps st st' := by
  intro fuel
  induction fuel with
  | zero =>
    intro st l _ hRun
    cases hRun
  | succ fuel ih =>
    intro st l h hRun
    rw [allocateLoop] at hRun
    split at hRun
    · cases hRun
      exact ⟨rfl, fun _ m hm => ⟨m, hm, rfl⟩⟩
    · -- no room: the least recently used entry goes, and the loop tries again
      rcases evictOneForSpace_spec hA h with ⟨-, hEvict⟩ | ⟨m, st₁, -, hEvict, hInv, hEvicted⟩
      · simp only [hEvict, ok_bind] at hRun
        cases hRun
        exact Keeps.refl _
      · simp only [hEvict, ok_bind, if_true] at hRun
        exact hEvicted.keeps.trans (ih st₁ _ hInv hRun)

/-- Storing adds one entry, with no claim on it. -/
theorem store_noted (hA : env.alloc.Lawful) (h : Inv env st l) {record : Record} {offset : Nat}
    {heap : Heap}
    (hAlloc : env.alloc.allocateFirstFit st.heap
      (key.name.length + record.wire.length + record.request.length) = some (offset, heap))
    (hName : key.name.length ≤ maxNameLen) (hAbsent : ∀ j, st.keyAt j ≠ some key)
    (hRoom : st.tableLen + st.tombstones + 1 < st.table.length) {lastUsed retryAfter : Nat}
    {reused : Bool}
    (hRun : store env { st with heap := heap } key record offset lastUsed retryAfter reused =
      .ok st') {k : Key RecordType DNSClass} {n : Notes} (hn : NotedAt st' i k n) :
    (k = key ∧ n = ⟨lastUsed, retryAfter, reused, 0, false⟩) ∨ NotedAt st i k n := by
  obtain ⟨_, st₁, st₂, st₃, hSteps, hStore⟩ :=
    store_steps hA h hAlloc hName hAbsent hRoom lastUsed retryAfter reused
  rw [hStore] at hRun
  cases hRun
  -- giving it a slot and a place in the list moves entries and rewrites none
  have hKeeps : Keeps st₁ st₃ := hSteps.slotted.keeps.trans hSteps.linked.keeps
  obtain ⟨m, hm, rfl, rfl⟩ := hKeeps.noted hn
  rcases hSteps.added.cases hm with ⟨-, rfl⟩ | ⟨-, hOld⟩
  · exact .inl ⟨hSteps.key_eq, rfl⟩
  · exact .inr ⟨m, hOld, (hSteps.added.keyOf_old hA h.arena hOld).symm, rfl⟩

/-- What an insert notes of its own entry: no claim, no failures, and the last use of the
entry that it replaces. -/
def Carried (st : CacheState RecordType DNSClass Heap) (key : Key RecordType DNSClass)
    (storedAt : Nat) (n : Notes) : Prop :=
  ∃ lastUsed reused, n = ⟨lastUsed, storedAt, reused, 0, false⟩ ∧
    (reused = true → ∃ n₀, Noted st key n₀ ∧ n₀.lastUsed = lastUsed ∧ n₀.reused = true)

theorem replace_carried (hA : env.alloc.Lawful) (h : Inv env st l) {now lastUsed storedAt : Nat}
    {reused : Bool} (hRun : replace env st key now = .ok (lastUsed, reused, st')) :
    Carried st key storedAt ⟨lastUsed, storedAt, reused, 0, false⟩ := by
  refine ⟨lastUsed, reused, rfl, fun hReused => ?_⟩
  rcases replace_cases hA h hRun with ⟨-, rfl, -⟩ | ⟨i, m, hm, hKey, rfl, rfl, -⟩
  · cases hReused
  · exact ⟨m.notes, ⟨i, m, hm, hKey, rfl⟩, rfl, hReused⟩

/-- **An insert** leaves the notes of the other entries, and no claim on its own. -/
theorem insertWithFlags_noted (hA : env.alloc.Lawful) (h : Sound env c) {ttl : Nat}
    {wire request : Bytes} {now lockedAt storedAt : Nat} {stored : Bool}
    (hRun : c.insertWithFlags env key ttl wire request now lockedAt storedAt = .ok (stored, c'))
    {k : Key RecordType DNSClass} {n : Notes} (hn : NotedAt c'.state i k n) :
    (k = key ∧ stored = true ∧ Carried c.state key storedAt n) ∨ NotedAt c.state i k n := by
  obtain ⟨l, hInv⟩ := h.inv
  rw [insertWithFlags] at hRun
  split at hRun
  · cases hRun
    exact .inr hn
  rename_i hOn
  rw [Bool.or_eq_true, not_or, decide_eq_true_iff, Nat.not_lt] at hOn
  split at hRun
  · cases hRun
    exact .inr hn
  split at hRun
  · cases hRun
    exact .inr hn
  obtain ⟨⟨stored, st'⟩, hLocked, hRun⟩ := bind_eq_ok.mp hRun
  cases hRun
  by_cases hLarge : key.name.length + (recordOf ttl now wire request).wire.length +
      (recordOf ttl now wire request).request.length > c.state.pool.length
  · rw [insertLocked] at hLocked
    simp only [if_pos hLarge] at hLocked
    cases hLocked
    exact .inr hn
  · obtain ⟨lastUsed, reused, st₁, st₂, st₃, offset, hRoom, hFinish⟩ :=
      insertLocked_room hA hInv hLarge lockedAt storedAt
    obtain ⟨l₂, h₂⟩ := hRoom.inv_grown
    obtain ⟨l₃, h₃⟩ := hRoom.inv
    -- up to the end of the allocation loop entries only move or go
    have hKeeps : Keeps c.state st₃ := by
      have hLoop := allocateLoop_keeps hA _ st₂ l₂ h₂ hRoom.loop
      exact (replace_keeps hA hInv hRoom.replaced).trans
        (hRoom.grown.keeps.trans ⟨hLoop.pool, hLoop.entry⟩)
    rw [hFinish] at hLocked
    cases offset with
    | none =>
      cases hLocked
      exact .inr (hKeeps.noted hn)
    | some found =>
      obtain ⟨offset, heap⟩ := found
      obtain ⟨st₄, hStore, hEnd⟩ := bind_eq_ok.mp hLocked
      cases hEnd
      rcases store_noted hA h₃ (hRoom.allocated _ rfl) hOn.2 (h₃.absent_iff.mpr hRoom.absent)
        hRoom.load hStore hn with ⟨rfl, rfl⟩ | hOld
      · exact .inl ⟨rfl, rfl, replace_carried hA hInv hRoom.replaced⟩
      · exact .inr (hKeeps.noted hOld)

/-! ## Lookup and release -/

/-- Keys are distinct, so a key has one index. -/
theorem Inv.index_unique {j : Nat} {n : Notes} (h : Inv env st l) (hn : NotedAt st j key n)
    (hm : st.live? i = some m) (hKey : keyOf st.pool m = key) : j = i := by
  obtain ⟨mj, hj, hKey', -⟩ := hn
  exact h.distinct j i key (keyAt_eq_some.mpr ⟨mj, hj, hKey'⟩) (keyAt_eq_some.mpr ⟨m, hm, hKey⟩)

/-- **A lookup** rewrites the notes of the entry it hits, and no others. -/
theorem getWithFlags_noted (hA : env.alloc.Lawful) (h : Sound env c) {now : Nat}
    {found : Option (Bytes × Bool × Bool)} (hRun : c.getWithFlags env key now = .ok (found, c'))
    {k : Key RecordType DNSClass} {n : Notes} (hn : NotedAt c'.state i k n) :
    (NotedAt c.state i k n ∧ (k = key → found = none)) ∨ ∃ wire refresh stale n₀, k = key ∧
      found = some (wire, refresh, stale) ∧ NotedAt c.state i k n₀ ∧ n = n₀.hit now refresh ∧
      (refresh = true → n₀.Due now) := by
  obtain ⟨l, hInv⟩ := h.inv
  rw [getWithFlags] at hRun
  split at hRun
  · cases hRun
    exact .inl ⟨hn, fun _ => rfl⟩
  rcases locate_spec hInv.index (hInv.arena.readable hA) key with
    ⟨entry, hLocate, -, hFound⟩ | ⟨s, hLocate, -⟩
  · obtain ⟨m, hm, rfl⟩ := keyAt_eq_some.mp hFound
    simp only [hLocate, ok_bind, entry_eq_ok.mpr hm] at hRun
    split at hRun
    · -- past its stale window the entry is evicted
      obtain ⟨st', hEvict, -, hEvicted⟩ := evict_spec hA hInv hm .expired
      rw [hEvict, ok_bind] at hRun
      cases hRun
      exact .inl ⟨hEvicted.keeps.noted hn, fun _ => rfl⟩
    · obtain ⟨⟨found, st'⟩, hHit, hEnd⟩ := bind_eq_ok.mp hRun
      cases hEnd
      -- the hit moves the entry to the front and then marks it, under one lock
      obtain ⟨l₁, l₂, rfl, -⟩ := hInv.split hm
      obtain ⟨st₁, hTouch, hSame₁, -⟩ := touch_spec hInv.lru hInv.live_of_mem
      obtain ⟨m₁, hm₁, hBody₁⟩ := hSame₁.live hm
      rw [hit] at hHit
      simp only [hTouch, ok_bind, entry_eq_ok.mpr hm₁, modifyEntry_eq_ok hm₁] at hHit
      obtain ⟨wire, -, hHit⟩ := bind_eq_ok.mp hHit
      obtain ⟨⟨done, aged⟩, -, hHit⟩ := bind_eq_ok.mp hHit
      cases hHit
      have hn : NotedAt { st₁ with
          entries := st₁.entries.set entry (some (markHit now (shouldRefresh m₁ now) m₁)) } i k n :=
        hn
      rcases notedAt_modify hm₁ hn rfl with ⟨rfl, hOld, rfl⟩ | ⟨hne, hOld⟩
      · refine .inr ⟨aged, shouldRefresh m₁ now, _, m₁.notes, ?_, rfl, hSame₁.keeps.noted hOld, rfl,
          shouldRefresh_due⟩
        rw [hSame₁.pool, (body_eq_iff hBody₁).2.2]
      · have hOld := hSame₁.keeps.noted hOld
        exact .inl ⟨hOld, fun hEq => absurd (hInv.index_unique hOld hm hEq.symm) hne⟩
  · simp only [hLocate, ok_bind] at hRun
    cases hRun
    exact .inl ⟨hn, fun _ => rfl⟩

/-- **A release** rewrites the notes of its key, and no others. -/
theorem releaseRefreshClaimWithFlags_noted (hA : env.alloc.Lawful) (h : Sound env c) {now : Nat}
    (hRun : c.releaseRefreshClaimWithFlags env key now = .ok c') {k : Key RecordType DNSClass}
    {n : Notes} (hn : NotedAt c'.state i k n) :
    (k = key ∧ ∃ n₀, NotedAt c.state i k n₀ ∧ n = n₀.release (env.keyHash key) now) ∨
      (k ≠ key ∧ NotedAt c.state i k n) := by
  obtain ⟨l, hInv⟩ := h.inv
  rw [releaseRefreshClaimWithFlags] at hRun
  rcases locate_spec hInv.index (hInv.arena.readable hA) key with
    ⟨entry, hLocate, -, hFound⟩ | ⟨s, hLocate, hNone, -⟩
  · obtain ⟨m, hm, rfl⟩ := keyAt_eq_some.mp hFound
    simp only [hLocate, ok_bind, modifyEntry_eq_ok hm] at hRun
    cases hRun
    have hFrame := releaseClaim_frame (env.keyHash (keyOf c.state.pool m)) now m
    rcases notedAt_modify hm hn hFrame.1 with ⟨rfl, hOld, rfl⟩ | ⟨hne, hOld⟩
    · exact .inl ⟨rfl, m.notes, hOld, releaseClaim_notes _ now m⟩
    · exact .inr ⟨fun hEq => hne (hInv.index_unique hOld hm hEq.symm), hOld⟩
  · simp only [hLocate, ok_bind] at hRun
    cases hRun
    refine .inr ⟨?_, hn⟩
    rintro rfl
    obtain ⟨m, hm, hKey, -⟩ := hn
    exact hNone i trivial (keyAt_eq_some.mpr ⟨m, hm, hKey⟩)

/-! ## Candidates and the sweep -/

theorem scanCandidates_picked (hA : env.alloc.Lawful) (budget now : Nat) {list : List Bytes} :
    ∀ (count entry : Nat) (requests : List Bytes) (st : CacheState RecordType DNSClass Heap),
      Inv env st l → (entry = noEntry ∨ (st.live? entry).isSome = true) →
      scanCandidates budget now count entry requests st = .ok (list, st') →
      ∃ picked added, list = requests ++ added ∧ Picked st now picked added st' := by
  intro count
  induction count with
  | zero =>
    intro entry requests st h _ hRun
    cases hRun
    exact ⟨[], [], by simp, Picked.nil _ now⟩
  | succ count ih =>
    intro entry requests st h hEntry hRun
    rw [scanCandidates] at hRun
    by_cases hEnd : entry = noEntry ∨ requests.length = budget
    · rw [if_pos hEnd] at hRun
      cases hRun
      exact ⟨[], [], by simp, Picked.nil _ now⟩
    obtain ⟨m, hm⟩ := Option.isSome_iff_exists.mp
      (hEntry.resolve_left fun hEq => hEnd (.inl hEq))
    obtain ⟨hSlot, -⟩ := h.index.placed_slot entry m trivial hm
    have hFits := h.arena.readable hA entry m hm
    rw [EntryMeta.totalLen] at hFits
    rw [if_neg hEnd, entry_eq_ok.mpr hm, ok_bind, hSlot] at hRun
    dsimp only at hRun
    split at hRun
    · rw [slice_eq_ok (by omega) (by omega), ok_bind, Nat.add_sub_cancel_left,
        modifyEntry_eq_ok hm, ok_bind] at hRun
      obtain ⟨hMarked, hNext⟩ := h.claimed hm
      obtain ⟨picked, added, hList, hPicked⟩ := ih _ _ _ hMarked hNext hRun
      refine ⟨entry :: picked, (contentOf st.pool m).request :: added, ?_, hPicked.cons hm ‹_›⟩
      rw [hList, List.append_assoc]
      rfl
    · exact ih _ _ _ h (h.next_live hm) hRun

/-- **The candidates** are the requests of the entries that the scan claims. -/
theorem refreshCandidates_picked (hA : env.alloc.Lawful) (h : Sound env c) {budget now : Nat}
    {requests : List Bytes} (hRun : c.refreshCandidates budget now = .ok (requests, c')) :
    ∃ picked, Picked c.state now picked requests c'.state := by
  obtain ⟨l, hInv⟩ := h.inv
  rw [refreshCandidates] at hRun
  split at hRun
  · cases hRun
    exact ⟨[], Picked.nil _ now⟩
  · obtain ⟨⟨list, st'⟩, hScan, hEnd⟩ := bind_eq_ok.mp hRun
    cases hEnd
    obtain ⟨picked, added, rfl, hPicked⟩ := scanCandidates_picked hA budget now refreshScanLimit
      c.state.lruHead [] c.state hInv (LruList.head_live hInv.lru hInv.live_of_mem) hScan
    exact ⟨picked, hPicked⟩

/-- A request that is stored with some record. -/
def StoredRequest (log : List (CacheEvent RecordType DNSClass)) (request : Bytes) : Prop :=
  ∃ key record, current log key = some record ∧ record.request = request

/-- A claim on an entry whose request was handed out. -/
def ClaimedFrom (st : CacheState RecordType DNSClass Heap) (requests : List Bytes)
    (key : Key RecordType DNSClass) (n : Notes) : Prop :=
  ∃ record n₀, current st.log key = some record ∧ record.request ∈ requests ∧
    Noted st key n₀ ∧ n = n₀.claim

/-- The candidates are requests stored with records, and the entries that are claimed by the
scan are those whose requests it returns. -/
theorem refreshCandidates_noted (hA : env.alloc.Lawful) (h : Sound env c) {budget now : Nat}
    {requests : List Bytes} (hRun : c.refreshCandidates budget now = .ok (requests, c')) :
    (∀ r ∈ requests, StoredRequest c.state.log r) ∧
      ∀ k n, Noted c'.state k n → Noted c.state k n ∨ ClaimedFrom c.state requests k n := by
  obtain ⟨l, hInv⟩ := h.inv
  obtain ⟨picked, hPicked⟩ := refreshCandidates_picked hA h hRun
  refine ⟨fun r hr => ?_, fun k n hn => ?_⟩
  · obtain ⟨j, hj, rfl⟩ := List.getElem_of_mem hr
    have hLen := hPicked.request.length_eq
    obtain ⟨m, hm, hRequest⟩ := hPicked.request.get (by omega) hj
    exact ⟨_, _, hInv.stored hm, hRequest⟩
  · obtain ⟨i, hn⟩ := hn
    rcases hPicked.noted hn with ⟨hPick, n₀, hOld, rfl, -⟩ | ⟨-, hOld⟩
    · obtain ⟨m, hm, rfl, rfl⟩ := hOld
      exact .inr ⟨_, m.notes, hInv.stored hm, hPicked.mem_requests hPick hm, ⟨i, m, hm, rfl, rfl⟩,
        rfl⟩
    · exact .inl hOld.noted

theorem sweepFrom_keeps (hA : env.alloc.Lawful) (now : Nat) :
    ∀ (count index : Nat) (st : CacheState RecordType DNSClass Heap) (l : List Nat),
      Inv env st l → sweepFrom env now count index st = .ok st' → Keeps st st' := by
  intro count
  induction count with
  | zero =>
    intro index st l _ hRun
    cases hRun
    exact Keeps.refl _
  | succ count ih =>
    intro index st l h hRun
    rw [sweepFrom] at hRun
    split at hRun
    · cases hRun
    · exact ih _ st l h hRun
    · rename_i m hEntry
      have hm : st.live? index = some m := live?_eq_some.mpr hEntry
      split at hRun
      · have hLt := lt_of_live? hm
        have hProper := h.index.proper
        have hWord : tombstone < 2 ^ 32 := by decide
        obtain ⟨st₁, hEvict, hInv, hEvicted⟩ := evict_spec hA h hm .sweep
        rw [Nat.mod_eq_of_lt (by omega), hEvict, ok_bind] at hRun
        exact hEvicted.keeps.trans (ih _ st₁ _ hInv hRun)
      · exact ih _ st l h hRun

/-- **The sweep** leaves the notes of the entries it spares. -/
theorem evictExpiredBatch_noted (hA : env.alloc.Lawful) (h : Sound env c) {start stop now : Nat}
    (hRun : c.evictExpiredBatch env start stop now = .ok c') {k : Key RecordType DNSClass}
    {n : Notes} (hn : NotedAt c'.state i k n) : NotedAt c.state i k n := by
  obtain ⟨l, hInv⟩ := h.inv
  obtain ⟨st', hSweep, hEnd⟩ := bind_eq_ok.mp hRun
  cases hEnd
  exact (sweepFrom_keeps hA now _ _ _ _ hInv hSweep).noted hn

/-! ## Claims -/

/-- The entry of this key is claimed for a refresh. -/
def Claimed (c : ResponseCache RecordType DNSClass Heap) (key : Key RecordType DNSClass) : Prop :=
  ∃ i m, c.state.live? i = some m ∧ keyOf c.state.pool m = key ∧ m.refreshClaimed = true

omit [DecidableEq RecordType] [DecidableEq DNSClass] in
theorem claimed_iff : Claimed c key ↔ ∃ n, Noted c.state key n ∧ n.refreshClaimed = true := by
  constructor
  · rintro ⟨i, m, hm, hKey, hClaim⟩
    exact ⟨m.notes, ⟨i, m, hm, hKey, rfl⟩, hClaim⟩
  · rintro ⟨n, ⟨i, m, hm, hKey, rfl⟩, hClaim⟩
    exact ⟨i, m, hm, hKey, hClaim⟩

variable {k : Key RecordType DNSClass}

theorem Claimed.of_insert (hA : env.alloc.Lawful) (h : Sound env c) {ttl : Nat}
    {wire request : Bytes} {now lockedAt storedAt : Nat} {stored : Bool}
    (hRun : c.insertWithFlags env key ttl wire request now lockedAt storedAt = .ok (stored, c'))
    (hClaimed : Claimed c' k) : Claimed c k := by
  obtain ⟨n, ⟨i, hn⟩, hClaim⟩ := claimed_iff.mp hClaimed
  rcases insertWithFlags_noted hA h hRun hn with ⟨-, -, lastUsed, reused, rfl, -⟩ | hOld
  · cases hClaim
  · exact claimed_iff.mpr ⟨n, hOld.noted, hClaim⟩

/-- A lookup claims an entry only for the caller that it tells so. -/
theorem Claimed.of_get (hA : env.alloc.Lawful) (h : Sound env c) {now : Nat}
    {found : Option (Bytes × Bool × Bool)} (hRun : c.getWithFlags env key now = .ok (found, c'))
    (hClaimed : Claimed c' k) :
    Claimed c k ∨ (k = key ∧ ∃ wire stale, found = some (wire, true, stale)) := by
  obtain ⟨n, ⟨i, hn⟩, hClaim⟩ := claimed_iff.mp hClaimed
  rcases getWithFlags_noted hA h hRun hn with
    ⟨hOld, -⟩ | ⟨wire, refresh, stale, n₀, rfl, rfl, hOld, rfl, -⟩
  · exact .inl (claimed_iff.mpr ⟨n, hOld.noted, hClaim⟩)
  · cases refresh with
    | true => exact .inr ⟨rfl, wire, stale, rfl⟩
    | false =>
      rw [Notes.hit, Bool.or_false] at hClaim
      exact .inl (claimed_iff.mpr ⟨n₀, hOld.noted, hClaim⟩)

theorem Notes.release_claimed (n : Notes) (hash : UInt64) (now : Nat) :
    (n.release hash now).refreshClaimed = false := by
  rw [Notes.release]
  split
  · rfl
  · exact Bool.eq_false_of_not_eq_true ‹_›

theorem Claimed.of_release (hA : env.alloc.Lawful) (h : Sound env c) {now : Nat}
    (hRun : c.releaseRefreshClaimWithFlags env key now = .ok c') (hClaimed : Claimed c' k) :
    k ≠ key ∧ Claimed c k := by
  obtain ⟨n, ⟨i, hn⟩, hClaim⟩ := claimed_iff.mp hClaimed
  rcases releaseRefreshClaimWithFlags_noted hA h hRun hn with ⟨-, n₀, -, rfl⟩ | ⟨hne, hOld⟩
  · rw [Notes.release_claimed] at hClaim
    cases hClaim
  · exact ⟨hne, claimed_iff.mpr ⟨n, hOld.noted, hClaim⟩⟩

theorem Claimed.of_candidates (hA : env.alloc.Lawful) (h : Sound env c) {budget now : Nat}
    {requests : List Bytes} (hRun : c.refreshCandidates budget now = .ok (requests, c'))
    (hClaimed : Claimed c' k) :
    Claimed c k ∨ ∃ record, current c.state.log k = some record ∧ record.request ∈ requests := by
  obtain ⟨n, hn, hClaim⟩ := claimed_iff.mp hClaimed
  rcases (refreshCandidates_noted hA h hRun).2 k n hn with
    hOld | ⟨record, n₀, hCurrent, hMem, -⟩
  · exact .inl (claimed_iff.mpr ⟨n, hOld, hClaim⟩)
  · exact .inr ⟨record, hCurrent, hMem⟩

theorem Claimed.of_sweep (hA : env.alloc.Lawful) (h : Sound env c) {start stop now : Nat}
    (hRun : c.evictExpiredBatch env start stop now = .ok c') (hClaimed : Claimed c' k) :
    Claimed c k := by
  obtain ⟨n, ⟨i, hn⟩, hClaim⟩ := claimed_iff.mp hClaimed
  exact claimed_iff.mpr ⟨n, (evictExpiredBatch_noted hA h hRun hn).noted, hClaim⟩

/-- A key has one entry, so if that is free nobody has claimed the key. -/
theorem Inv.not_claimed (h : Inv env c.state l) (hm : c.state.live? i = some m)
    (hFree : m.refreshClaimed = false) : ¬ Claimed c (keyOf c.state.pool m) := by
  rintro ⟨j, m', hm', hKey, hClaim⟩
  obtain rfl := h.index_unique ⟨m', hm', hKey, rfl⟩ hm rfl
  rw [hm] at hm'
  cases hm'
  rw [hFree] at hClaim
  cases hClaim

/-- A lookup that tells its caller to refresh has claimed the entry for it. -/
theorem getWithFlags_claims (hA : env.alloc.Lawful) (h : Sound env c) {now : Nat} {wire : Bytes}
    {stale : Bool} (hRun : c.getWithFlags env key now = .ok (some (wire, true, stale), c')) :
    ¬ Claimed c key ∧ Claimed c' key := by
  obtain ⟨hSound, events, hLog, hEvents⟩ := h.call hA (.get key now) (by rw [apply, hRun]; rfl)
  obtain ⟨record, -, hCurrent, -⟩ := LookupEvents.served hEvents
  -- the entry is still there
  have hAfter : current c'.state.log key = some record := by
    rw [Explains, LookupEvents, hCurrent] at hEvents
    dsimp only at hEvents
    split at hEvents
    · cases hEvents.1
    · rw [hLog, hEvents.2]
      exact hCurrent
  obtain ⟨l, hInv⟩ := h.inv
  obtain ⟨l', hInv'⟩ := hSound.inv
  obtain ⟨i, m, hm, hKey, -⟩ := (hInv'.history key record).mp hAfter
  rcases getWithFlags_noted hA h hRun ⟨m, hm, hKey, rfl⟩ with
    ⟨-, hNone⟩ | ⟨wire', refresh, stale', n₀, -, hFound, hOld, hNotes, hDue⟩
  · cases hNone rfl
  · cases hFound
    obtain ⟨m₀, hm₀, rfl, rfl⟩ := hOld
    refine ⟨hInv.not_claimed hm₀ (hDue rfl).1, i, m, hm, hKey, ?_⟩
    have hSet : m.notes.refreshClaimed = true := by rw [hNotes, Notes.hit, Bool.or_true]
    exact hSet

/-- Each request that a scan returns is that of an entry which it has claimed. -/
theorem refreshCandidates_claims (hA : env.alloc.Lawful) (h : Sound env c) {budget now : Nat}
    {requests : List Bytes} (hRun : c.refreshCandidates budget now = .ok (requests, c')) :
    ∀ r ∈ requests, ∃ i m, c.state.live? i = some m ∧ (contentOf c.state.pool m).request = r ∧
      ¬ Claimed c (keyOf c.state.pool m) ∧ Claimed c' (keyOf c.state.pool m) := by
  obtain ⟨l, hInv⟩ := h.inv
  obtain ⟨picked, hPicked⟩ := refreshCandidates_picked hA h hRun
  intro r hr
  obtain ⟨j, hj, rfl⟩ := List.getElem_of_mem hr
  have hLen := hPicked.request.length_eq
  have hj' : j < picked.length := by omega
  obtain ⟨m, hm, hRequest⟩ := hPicked.request.get hj' hj
  have hPick : picked.get ⟨j, hj'⟩ ∈ picked := List.get_mem _ _
  obtain ⟨m', hash, hm', hIs⟩ := hPicked.candidate _ hPick
  rw [hm] at hm'
  cases hm'
  refine ⟨_, m, hm, hRequest, hInv.not_claimed hm (isCandidate_notes hIs).1.1,
    picked.get ⟨j, hj'⟩, { m with refreshClaimed := true }, ?_, ?_, rfl⟩
  · rw [hPicked.view, if_pos hPick, hm]
    rfl
  · rw [hPicked.pool]
    rfl

end DnsRs.Cache
