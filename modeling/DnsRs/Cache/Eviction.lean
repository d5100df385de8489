import DnsRs.Cache.Lifetime

/-!
# What an insert takes from the others

An insert evicts the entry of its own key and then, from the tail of the LRU list, as many
entries as it takes until the allocation succeeds (`insertLocked_spaceTaken`). Two
consequences, over every reachable state:

* the victims are the least recently used entries, whether they have expired or not. The
  configuration promises expired entries first; `space_from_expired` has this for the
  states in which every expired entry was used less recently than every other, and
  `unexpired_evicted_first` a state where it fails;
* the only guard before the first eviction compares the size with the length of the pool.
  An allocation that still fails in an empty pool has by then cost every entry
  (`unstored_keeps_readable`, `unstored_evicts_all`).
-/

namespace DnsRs.Cache

open Lib Wire CacheState ResponseCache

variable {RecordType DNSClass Heap : Type}

/-! ## The allocation loop -/

theorem Evicted.keyAt {st st' : CacheState RecordType DNSClass Heap} {i : Nat}
    {m : EntryMeta RecordType DNSClass} {reason : Reason} (h : Evicted st i m reason st')
    (j : Nat) : st'.keyAt j = if j = i then none else st.keyAt j := by
  split
  · rename_i hj
    rw [hj, CacheState.keyAt, h.gone]
    rfl
  · rename_i hj
    -- the key is read from the pool with what `core` keeps
    have hCore : ∀ o : Option (EntryMeta RecordType DNSClass),
        o.map (keyOf st.pool) = (o.map EntryMeta.core).map (keyOf st.pool) := fun o => by
      cases o <;> rfl
    rw [CacheState.keyAt, CacheState.keyAt, h.pool, hCore, h.others j hj, ← hCore]

variable [DecidableEq RecordType] [DecidableEq DNSClass] {env : Env RecordType DNSClass Heap}
  {st st' : CacheState RecordType DNSClass Heap} {l : List Nat} {key : Key RecordType DNSClass}

/-- The keys of the entries in the list, in the order of the list, are the keys stored. -/
theorem Inv.mem_keys (h : Inv env st l) {k : Key RecordType DNSClass} :
    k ∈ l.filterMap st.keyAt ↔ (current st.log k).isSome = true := by
  rw [List.mem_filterMap, Option.isSome_iff_exists]
  constructor
  · rintro ⟨i, -, hi⟩
    obtain ⟨m, hm, rfl⟩ := keyAt_eq_some.mp hi
    exact ⟨_, h.stored hm⟩
  · rintro ⟨record, hRecord⟩
    obtain ⟨i, m, hm, hKey, -⟩ := (h.history k record).mp hRecord
    exact ⟨i, (h.mem_lru i).mpr (by rw [hm]; rfl), keyAt_eq_some.mpr ⟨m, hm, hKey⟩⟩

/-- **The allocation loop** evicts from the back of the list, and gives up only when
nothing is left in front. -/
theorem allocateLoop_victims (hA : env.alloc.Lawful) {size : Nat} {offset : Option Nat} :
    ∀ (fuel : Nat) (st : CacheState RecordType DNSClass Heap) (l : List Nat), Inv env st l →
      allocateLoop env size fuel st = .ok (offset, st') →
      ∃ kept lost, l = kept ++ lost ∧
        st'.log = (lost.filterMap st.keyAt).map (.evicted · .space) ++ st.log ∧
        (offset = none → kept = []) := by
  intro fuel
  induction fuel with
  | zero =>
    intro st l _ hRun
    cases hRun
  | succ fuel ih =>
    intro st l h hRun
    rw [allocateLoop] at hRun
    split at hRun
    · cases hRun
      exact ⟨l, [], (List.append_nil l).symm, rfl, fun hNone => by cases hNone⟩
    rcases evictOneForSpace_spec hA h with ⟨rfl, hEvict⟩ | ⟨m, st₁, hm, hEvict, hInv, hEvicted⟩
    · simp only [hEvict, ok_bind] at hRun
      cases hRun
      exact ⟨[], [], rfl, rfl, fun _ => rfl⟩
    · simp only [hEvict, ok_bind, if_true] at hRun
      -- the victim is the last one of the list
      obtain ⟨l₀, hl⟩ : ∃ l₀, l = l₀ ++ [st.lruTail] := by
        have hTail : st.lruTail = l.getLastD noEntry := Threaded.tail_eq h.lru
        rcases List.eq_nil_or_concat l with rfl | ⟨l₀, last, rfl⟩
        · have hMem := (h.mem_lru st.lruTail).mpr (by rw [hm]; rfl)
          cases hMem
        · rw [List.concat_eq_append, List.getLastD_concat] at hTail
          exact ⟨l₀, by rw [hTail, List.concat_eq_append]⟩
      have hNodup := Threaded.nodup h.lru
      rw [hl, List.nodup_append] at hNodup
      have hFresh : st.lruTail ∉ l₀ := fun hMem =>
        hNodup.2.2 _ hMem _ (List.mem_singleton_self _) rfl
      have hErase : l.erase st.lruTail = l₀ := by
        rw [hl, List.erase_append_right _ hFresh, List.erase_cons_head, List.append_nil]
      rw [hErase] at hInv
      obtain ⟨kept, lost, rfl, hLog, hNone⟩ := ih st₁ l₀ hInv hRun
      refine ⟨kept, lost ++ [st.lruTail], by rw [hl, List.append_assoc], ?_, hNone⟩
      -- the others have kept their keys
      have hKeys : lost.filterMap st₁.keyAt = lost.filterMap st.keyAt := by
        refine List.filterMap_congr fun j hj => ?_
        rw [hEvicted.keyAt, if_neg]
        rintro rfl
        exact hFresh (List.mem_append_right _ hj)
      have hKey : st.keyAt st.lruTail = some (keyOf st.pool m) := keyAt_eq_some.mpr ⟨m, hm, rfl⟩
      rw [hLog, hEvicted.log, hKeys, List.filterMap_append, List.map_append, List.append_assoc,
        List.filterMap_cons_some hKey]
      rfl

/-! ## The whole insert -/

/-- The log without the key. -/
def Without (log : List (CacheEvent RecordType DNSClass)) (key : Key RecordType DNSClass)
    (replaced : List (CacheEvent RecordType DNSClass)) : Prop :=
  replaced = [] ∧ current log key = none ∨ replaced = [.evicted key .replaced]

theorem Without.current_eq {log replaced : List (CacheEvent RecordType DNSClass)}
    (h : Without log key replaced) (k : Key RecordType DNSClass) :
    current (replaced ++ log) k = if k = key then none else current log k := by
  rcases h with ⟨rfl, hNone⟩ | rfl
  · split
    · rename_i hk
      rw [hk]
      exact hNone
    · rfl
  · exact current_evictions [key] .replaced log k ▸ by simp

theorem Without.uses_eq {log replaced : List (CacheEvent RecordType DNSClass)}
    (h : Without log key replaced) : uses (replaced ++ log) = uses log := by
  rcases h with ⟨rfl, -⟩ | rfl
  · rfl
  · rfl

theorem replace_without (hA : env.alloc.Lawful) (h : Inv env st l) {now lastUsed : Nat}
    {reused : Bool} (hRun : replace env st key now = .ok (lastUsed, reused, st')) :
    ∃ l' replaced, Inv env st' l' ∧ Without st.log key replaced ∧
      st'.log = replaced ++ st.log := by
  rcases replace_cases hA h hRun with ⟨-, -, rfl, hAbsent⟩ | ⟨i, m, -, rfl, -, -, h', hEvicted⟩
  · exact ⟨l, [], h, .inl ⟨rfl, h.absent_iff.mp hAbsent⟩, rfl⟩
  · exact ⟨_, _, h', .inr rfl, hEvicted.log⟩

/-- What an insert takes from the log: the keys that were stored beside its own are, in
the order of their last use, those it leaves and those it evicts. -/
structure SpaceTaken (log : List (CacheEvent RecordType DNSClass))
    (key : Key RecordType DNSClass) (stored : List (CacheEvent RecordType DNSClass))
    (kept victims : List (Key RecordType DNSClass))
    (log' : List (CacheEvent RecordType DNSClass)) : Prop where
  order : (kept ++ victims).Pairwise fun a b => (uses log).idxOf a < (uses log).idxOf b
  mem : ∀ k, k ∈ kept ++ victims ↔ k ≠ key ∧ (current log k).isSome = true
  log_eq : ∃ replaced, Without log key replaced ∧
    log' = stored ++ (victims.map (.evicted · .space) ++ (replaced ++ log))

theorem insertLocked_spaceTaken (hA : env.alloc.Lawful) (h : Inv env st l)
    (hName : key.name.length ≤ maxNameLen) {record : Record} {lockedAt storedAt : Nat}
    {stored : Bool}
    (hFits : ¬ key.name.length + record.wire.length + record.request.length > st.pool.length)
    (hRun : insertLocked env st key record lockedAt storedAt = .ok (stored, st')) :
    ∃ kept victims, SpaceTaken st.log key (if stored then [.stored key record] else []) kept
      victims st'.log ∧ (stored = false → kept = []) := by
  obtain ⟨lastUsed, reused, st₁, st₂, st₃, offset, hRoom, hFinish⟩ :=
    insertLocked_room hA h hFits lockedAt storedAt
  obtain ⟨l₁, replaced, h₁, hWithout, hLog₁⟩ := replace_without hA h hRoom.replaced
  obtain ⟨l₂, h₂⟩ := hRoom.inv_grown
  obtain ⟨l₃, h₃⟩ := hRoom.inv
  -- growing the table changes neither the keys nor the list
  obtain rfl : l₂ = l₁ := Threaded.unique h₂.lru (hRoom.grown.lruList h₁.lru)
  have hKeys : st₂.keyAt = st₁.keyAt := funext hRoom.grown.same.keyAt
  obtain ⟨kept, lost, rfl, hLog₃, hNone⟩ := allocateLoop_victims hA _ st₂ _ h₂ hRoom.loop
  have hLog₃ : st₃.log =
      (lost.filterMap st₁.keyAt).map (.evicted · .space) ++ (replaced ++ st.log) := by
    rw [← hLog₁, ← hRoom.grown.log, ← hKeys]
    exact hLog₃
  have hTaken : ∀ news, SpaceTaken st.log key news (kept.filterMap st₁.keyAt)
      (lost.filterMap st₁.keyAt) (news ++ st₃.log) := by
    intro news
    constructor
    case order =>
      rw [← List.filterMap_append, List.pairwise_filterMap, ← hWithout.uses_eq, ← hLog₁]
      exact h₁.recent.imp fun hOrder a ha b hb => hOrder a b ha hb
    case mem =>
      intro k
      rw [← List.filterMap_append, h₁.mem_keys, hLog₁, hWithout.current_eq]
      split
      · simp [*]
      · simp [*]
    case log_eq => exact ⟨replaced, hWithout, by rw [hLog₃]⟩
  rw [hFinish] at hRun
  cases offset with
  | none =>
    cases hRun
    refine ⟨_, _, hTaken [], fun _ => ?_⟩
    rw [hNone rfl]
    rfl
  | some found =>
    obtain ⟨offset, heap⟩ := found
    obtain ⟨st₄, i, hStore, -, hLog₄, -⟩ := store_spec hA h₃ (hRoom.allocated _ rfl) hName
      (h₃.absent_iff.mpr hRoom.absent) hRoom.load lastUsed storedAt reused
    obtain ⟨st₅, hStore', hEnd⟩ := bind_eq_ok.mp hRun
    obtain rfl : st₄ = st₅ := Except.ok.inj (hStore.symm.trans hStore')
    cases hEnd
    refine ⟨kept.filterMap st₁.keyAt, lost.filterMap st₁.keyAt, ?_, fun hStored => by cases hStored⟩
    rw [hLog₄]
    exact hTaken [.stored key record]

variable {c c' : ResponseCache RecordType DNSClass Heap} {ttl now lockedAt storedAt : Nat}
  {wire request : Bytes}

/-- The exits of `insert_with_flags` before it changes anything. -/
def TurnedAway (c : ResponseCache RecordType DNSClass Heap) (key : Key RecordType DNSClass)
    (wire request : Bytes) : Prop :=
  c.enabled = false ∨ key.name.length > maxNameLen ∨ request.length ≥ 2 ^ 16 ∨
    key.name.length + wire.length + request.length > 2 ^ 63 - 1 ∨
    key.name.length + wire.length + request.length > c.state.pool.length

/-- **An insert** is turned away or takes its space from the least recently used entries. -/
theorem insertWithFlags_cases (hA : env.alloc.Lawful) (h : Sound env c) {stored : Bool}
    (hRun : c.insertWithFlags env key ttl wire request now lockedAt storedAt = .ok (stored, c')) :
    (TurnedAway c key wire request ∧ stored = false ∧ c' = c) ∨
      ¬ TurnedAway c key wire request ∧ ∃ kept victims,
        SpaceTaken c.state.log key
          (if stored then [.stored key (recordOf ttl now wire request)] else []) kept victims
          c'.state.log ∧ (stored = false → kept = []) := by
  obtain ⟨l, hInv⟩ := h.inv
  rw [insertWithFlags] at hRun
  split at hRun
  · rename_i hOff
    cases hRun
    rw [Bool.or_eq_true, decide_eq_true_iff, Bool.not_eq_true'] at hOff
    exact .inl ⟨hOff.imp_right .inl, rfl, rfl⟩
  rename_i hOn
  rw [Bool.or_eq_true, not_or, decide_eq_true_iff, Bool.not_eq_true', Nat.not_lt] at hOn
  split at hRun
  · rename_i hRequest
    cases hRun
    exact .inl ⟨.inr (.inr (.inl hRequest)), rfl, rfl⟩
  rename_i hRequest
  split at hRun
  · rename_i hLayout
    cases hRun
    exact .inl ⟨.inr (.inr (.inr (.inl hLayout))), rfl, rfl⟩
  rename_i hLayout
  obtain ⟨⟨stored, st'⟩, hLocked, hRun⟩ := bind_eq_ok.mp hRun
  cases hRun
  by_cases hLarge : key.name.length + (recordOf ttl now wire request).wire.length +
      (recordOf ttl now wire request).request.length > c.state.pool.length
  · rw [insertLocked] at hLocked
    simp only [if_pos hLarge] at hLocked
    cases hLocked
    exact .inl ⟨.inr (.inr (.inr (.inr hLarge))), rfl, rfl⟩
  · refine .inr ⟨?_, insertLocked_spaceTaken hA hInv hOn.2 hLarge hLocked⟩
    rintro (hOff | hName | hLong | hHuge | hTight)
    · exact hOn.1 hOff
    · exact absurd hName (Nat.not_lt.mpr hOn.2)
    · exact hRequest hLong
    · exact hLayout hHuge
    · exact hLarge hTight

/-! ## Expired entries and others -/

/-- There is an entry of this key, and its stale window is over. -/
def Expired (log : List (CacheEvent RecordType DNSClass)) (t : Nat)
    (k : Key RecordType DNSClass) : Prop :=
  ∃ record, current log k = some record ∧ record.staleUntil ≤ t

/-- There is an entry of this key that can still be served. -/
def Unexpired (log : List (CacheEvent RecordType DNSClass)) (t : Nat)
    (k : Key RecordType DNSClass) : Prop :=
  ∃ record, current log k = some record ∧ t < record.staleUntil

/-- `a` was used more recently than `b`. -/
def MoreRecent (log : List (CacheEvent RecordType DNSClass)) (a b : Key RecordType DNSClass) :
    Prop :=
  (uses log).idxOf a < (uses log).idxOf b

/-- Every expired entry was used less recently than every other, the entry of `key` apart. -/
def ExpiredLast (log : List (CacheEvent RecordType DNSClass)) (key : Key RecordType DNSClass)
    (t : Nat) : Prop :=
  ∀ v w, v ≠ key → w ≠ key → Unexpired log t v → Expired log t w → MoreRecent log v w

/-- What is there when `v` is evicted for space was there before the insert, and is in front
of `v`. -/
theorem SpaceTaken.moment {log log' news later earlier : List (CacheEvent RecordType DNSClass)}
    {kept victims : List (Key RecordType DNSClass)} {v : Key RecordType DNSClass}
    (h : SpaceTaken log key news kept victims log') (hNews : .evicted v .space ∉ news)
    (hLog : log' = later ++ .evicted v .space :: (earlier ++ log)) {w : Key RecordType DNSClass}
    {record : Record} (hw : current (earlier ++ log) w = some record) :
    w ≠ key ∧ current log w = some record ∧ (w ≠ v → MoreRecent log w v) := by
  obtain ⟨replaced, hWithout, rfl⟩ := h.log_eq
  have hReplaced : .evicted v .space ∉ replaced := by
    intro hMem
    rcases hWithout with ⟨rfl, -⟩ | rfl
    · cases hMem
    · cases List.mem_singleton.mp hMem
  have hEvents : news ++ (victims.map (.evicted · .space) ++ replaced) ++ log =
      later ++ .evicted v .space :: earlier ++ log := by
    simpa only [List.append_assoc, List.cons_append] using hLog
  obtain ⟨newer, older, rfl, rfl⟩ :=
    evictions_split hNews hReplaced (List.append_cancel_right hEvents)
  rw [List.append_assoc, current_evictions] at hw
  split at hw
  · cases hw
  rename_i hOlder
  rw [hWithout.current_eq] at hw
  split at hw
  · cases hw
  rename_i hKey
  refine ⟨hKey, hw, fun hne => ?_⟩
  · -- it was not evicted before `v`, so it is in front of it
    have hMem := (h.mem w).mpr ⟨hKey, by rw [hw]; rfl⟩
    have hOrder := h.order
    rw [← List.append_assoc, List.pairwise_append] at hOrder
    refine hOrder.2.2 w ?_ v List.mem_cons_self
    simp only [List.mem_append, List.mem_cons] at hMem ⊢
    tauto

section Reachable

variable {enabled stored : Bool} {maxSizeBytes : Nat} {ops : List (Op RecordType DNSClass)}

/-- **Expired entries first.** Where every expired entry was used less recently than every
other, an insert evicts no entry that can be served while an expired one is there. In any
case the victim is the least recently used of the entries that are there. -/
theorem space_from_expired (hA : env.alloc.Lawful)
    (hMax : enabled = true → maxSizeBytes ≤ maxCacheBytes)
    (hRun : runOps env (ResponseCache.new env enabled maxSizeBytes) ops = .ok c)
    (hInsert : c.insertWithFlags env key ttl wire request now lockedAt storedAt = .ok (stored, c'))
    {later earlier : List (CacheEvent RecordType DNSClass)} {v : Key RecordType DNSClass}
    (hLog : c'.state.log = later ++ .evicted v .space :: (earlier ++ c.state.log)) :
    (ExpiredLast c.state.log key lockedAt → Unexpired (earlier ++ c.state.log) lockedAt v →
      ∀ w, ¬ Expired (earlier ++ c.state.log) lockedAt w) ∧
    ∀ w ≠ v, (current (earlier ++ c.state.log) w).isSome = true → MoreRecent c.state.log w v := by
  rcases insertWithFlags_cases hA (sound_of_run hA hMax hRun) hInsert with
    ⟨-, -, rfl⟩ | ⟨-, kept, victims, hTaken, -⟩
  · -- an insert that is turned away evicts nothing
    have hLen := congrArg List.length hLog
    simp only [List.length_append, List.length_cons] at hLen
    omega
  · have hNews : .evicted v .space ∉ (if stored = true then
        [.stored key (recordOf ttl now wire request)] else [] :
          List (CacheEvent RecordType DNSClass)) := by
      cases stored <;> simp
    refine ⟨?_, fun w hne hw => ?_⟩
    · rintro hOrder ⟨record, hv, hFresh⟩ w ⟨record', hw, hOld⟩
      obtain ⟨hvKey, hv, -⟩ := hTaken.moment hNews hLog hv
      obtain ⟨hwKey, hw, hFront⟩ := hTaken.moment hNews hLog hw
      have hBehind := hOrder v w hvKey hwKey ⟨record, hv, hFresh⟩ ⟨record', hw, hOld⟩
      have hne : w ≠ v := by
        rintro rfl
        exact absurd hBehind (Nat.lt_irrefl _)
      exact absurd hBehind (Nat.lt_asymm (hFront hne))
    · obtain ⟨record, hw⟩ := Option.isSome_iff_exists.mp hw
      exact (hTaken.moment hNews hLog hw).2.2 hne

end Reachable

def keyB : Key Nat Nat := ⟨[98, 46], 1, 1, 0⟩

def keyC : Key Nat Nat := ⟨[99, 46], 1, 1, 0⟩

/-- A response that is served for 31 seconds and one that is served for 1030 seconds. -/
def shortAndLong : List (Op Nat Nat) :=
  [.insert keyA 1 (List.replicate 40 0) [] 0 0 0, .insert keyB 1000 (List.replicate 40 0) [] 1 1 1]

/-- The logs before and after an insert of `keyC` after 40 seconds, into a pool of 128 bytes. -/
def logsAround (ops : List (Op Nat Nat)) (wire : Bytes) :
    Except Fault (List (CacheEvent Nat Nat) × List (CacheEvent Nat Nat)) := do
  let c ← runOps collidingEnv (ResponseCache.new collidingEnv true 128) ops
  let (_, c') ← c.insertWithFlags collidingEnv keyC 60 wire [] (40 * second) (40 * second)
    (40 * second)
  return (c.state.log, c'.state.log)

theorem logsAround_eq_ok {ops : List (Op Nat Nat)} {wire : Bytes}
    {log log' : List (CacheEvent Nat Nat)} (h : logsAround ops wire = .ok (log, log')) :
    ∃ c stored c', runOps collidingEnv (ResponseCache.new collidingEnv true 128) ops = .ok c ∧
      c.insertWithFlags collidingEnv keyC 60 wire [] (40 * second) (40 * second) (40 * second) =
        .ok (stored, c') ∧ c.state.log = log ∧ c'.state.log = log' := by
  rw [logsAround] at h
  obtain ⟨c, hRun, h⟩ := bind_eq_ok.mp h
  obtain ⟨⟨stored, c'⟩, hInsert, h⟩ := bind_eq_ok.mp h
  cases h
  exact ⟨c, stored, c', hRun, hInsert, rfl, rfl⟩

/-- The records of `shortAndLong`. -/
def shortRecord : Record := recordOf 1 0 (List.replicate 40 0) []

def longRecord : Record := recordOf 1000 1 (List.replicate 40 0) []

/-- A response that takes the space of both evicts the expired one first. -/
theorem space_from_expired_both :
    let log : List (CacheEvent Nat Nat) := [.stored keyB longRecord, .stored keyA shortRecord]
    Unexpired (.evicted keyA .space :: log) (40 * second) keyB ∧
      ∀ w, ¬ Expired (.evicted keyA .space :: log) (40 * second) w := by
  intro log
  have hUnexpired : Unexpired (.evicted keyA .space :: log) (40 * second) keyB :=
    ⟨longRecord, by decide +kernel, by decide +kernel⟩
  obtain ⟨c, stored, c', hRun, hInsert, hLog, hLog'⟩ := logsAround_eq_ok
    (show logsAround shortAndLong (List.replicate 100 0) =
      .ok (log, .stored keyC (recordOf 60 (40 * second) (List.replicate 100 0) []) ::
        .evicted keyB .space :: .evicted keyA .space :: log) by decide +kernel)
  have hOrder : ExpiredLast c.state.log keyC (40 * second) := by
    rw [hLog]
    -- the long one is the only one that can be served, the short one the only expired one
    rintro v w - - ⟨record, hv, hFresh⟩ ⟨record', hw, hOld⟩
    obtain rfl : keyB = v := by
      by_contra hne
      simp only [log, current, if_neg hne] at hv
      split at hv
      · cases hv
        exact absurd hFresh (by decide +kernel)
      · cases hv
    obtain rfl : keyA = w := by
      by_contra hne
      simp only [log, current, if_neg hne] at hw
      split at hw
      · cases hw
        exact absurd hOld (by decide +kernel)
      · cases hw
    rw [MoreRecent]
    decide +kernel
  have hMoment := space_from_expired FirstFit.allocator_lawful
    (fun _ => show 128 ≤ maxCacheBytes by decide) hRun hInsert
    (show c'.state.log = [.stored keyC (recordOf 60 (40 * second) (List.replicate 100 0) [])] ++
      .evicted keyB .space :: ([.evicted keyA .space] ++ c.state.log) by rw [hLog, hLog']; rfl)
  rw [hLog] at hMoment
  exact ⟨hUnexpired, hMoment.1 (hLog ▸ hOrder) hUnexpired⟩

/-- After a lookup of the short one it is the long one that goes, and the expired one
stays. -/
theorem unexpired_evicted_first :
    ∃ c stored c' later v w,
      runOps collidingEnv (ResponseCache.new collidingEnv true 128)
        (shortAndLong ++ [.get keyA 2]) = .ok c ∧
      c.insertWithFlags collidingEnv keyC 60 (List.replicate 42 0) [] (40 * second) (40 * second)
        (40 * second) = .ok (stored, c') ∧
      c'.state.log = later ++ .evicted v .space :: c.state.log ∧
      Unexpired c.state.log (40 * second) v ∧ Expired c.state.log (40 * second) w := by
  obtain ⟨c, stored, c', hRun, hInsert, hLog, hLog'⟩ := logsAround_eq_ok
    (show logsAround (shortAndLong ++ [.get keyA 2]) (List.replicate 42 0) =
      .ok ([.hit keyA, .stored keyB longRecord, .stored keyA shortRecord],
        [.stored keyC (recordOf 60 (40 * second) (List.replicate 42 0) []), .evicted keyB .space,
          .hit keyA, .stored keyB longRecord, .stored keyA shortRecord]) by decide +kernel)
  refine ⟨c, stored, c', [.stored keyC (recordOf 60 (40 * second) (List.replicate 42 0) [])], keyB,
    keyA, hRun, hInsert, by rw [hLog, hLog']; rfl, ?_, ?_⟩
  · rw [hLog]
    exact ⟨longRecord, by decide +kernel, by decide +kernel⟩
  · rw [hLog]
    exact ⟨shortRecord, by decide +kernel, by decide +kernel⟩

/-! ## Inserts that store nothing -/

/-- A lookup of the key at this time serves these bytes. -/
def ReadAs (env : Env RecordType DNSClass Heap) (c : ResponseCache RecordType DNSClass Heap)
    (k : Key RecordType DNSClass) (t : Nat) (bytes : Bytes) : Prop :=
  ∃ refresh stale after, c.getWithFlags env k t = .ok (some (bytes, refresh, stale), after)

theorem Sound.readAs_iff (hA : env.alloc.Lawful) (h : Sound env c) {k : Key RecordType DNSClass}
    {t : Nat} : (∃ bytes, ReadAs env c k t bytes) ↔ Unexpired c.state.log t k := by
  obtain ⟨l, hInv⟩ := h.inv
  obtain ⟨found, st', l', hGet, -, -, events, -, hEvents⟩ :=
    getWithFlags_spec hA hInv h.disabled k t
  rw [Unexpired, ← hEvents.isSome_iff, Option.isSome_iff_exists]
  constructor
  · rintro ⟨bytes, refresh, stale, after, hRun⟩
    rw [hGet] at hRun
    cases hRun
    exact ⟨_, rfl⟩
  · rintro ⟨⟨bytes, refresh, stale⟩, rfl⟩
    exact ⟨bytes, refresh, stale, _, hGet⟩

/-- **An insert that stores nothing** leaves every key readable that was, exactly when it is
turned away before it evicts anything or there is nothing left that could be read. -/
theorem unstored_keeps_readable (hA : env.alloc.Lawful) {enabled : Bool} {maxSizeBytes : Nat}
    (hMax : enabled = true → maxSizeBytes ≤ maxCacheBytes) {ops : List (Op RecordType DNSClass)}
    (hRun : runOps env (ResponseCache.new env enabled maxSizeBytes) ops = .ok c)
    (hInsert : c.insertWithFlags env key ttl wire request now lockedAt storedAt = .ok (false, c')) :
    (∀ k t bytes, lockedAt ≤ t → ReadAs env c k t bytes → ReadAs env c' k t bytes) ↔
      TurnedAway c key wire request ∨ ∀ k, ¬ Unexpired c.state.log lockedAt k := by
  have h := sound_of_run hA hMax hRun
  obtain ⟨h', -⟩ := h.call hA (.insert key ttl wire request now lockedAt storedAt)
    (by rw [apply, hInsert]; rfl)
  constructor
  · intro hKeeps
    by_contra hNot
    rw [not_or, not_forall] at hNot
    obtain ⟨hAway, k, hk⟩ := hNot
    rw [not_not] at hk
    rcases insertWithFlags_cases hA h hInsert with ⟨hTurned, -⟩ | ⟨-, kept, victims, hTaken, hNone⟩
    · exact hAway hTurned
    -- the loop gave up, so every entry is evicted; `k` was readable before
    obtain ⟨bytes, hRead⟩ := (h.readAs_iff hA).mpr hk
    obtain ⟨record, hCurrent, -⟩ := (h'.readAs_iff hA).mp
      ⟨bytes, hKeeps k lockedAt bytes (Nat.le_refl _) hRead⟩
    obtain ⟨replaced, hWithout, hLog⟩ := hTaken.log_eq
    obtain ⟨record', hBefore, -⟩ := hk
    have hMem := hTaken.mem k
    rw [hNone rfl, List.nil_append, hBefore] at hMem
    rw [hLog, if_neg Bool.false_ne_true, List.nil_append, current_evictions,
      hWithout.current_eq] at hCurrent
    split at hCurrent
    · cases hCurrent
    · rename_i hVictim
      split at hCurrent
      · cases hCurrent
      · exact hVictim (hMem.mpr ⟨‹_›, rfl⟩)
  · rintro (hTurned | hNothing) k t bytes hLe hRead
    · rcases insertWithFlags_cases hA h hInsert with ⟨-, -, rfl⟩ | ⟨hNot, -⟩
      · exact hRead
      · exact absurd hTurned hNot
    · obtain ⟨record, hCurrent, hFresh⟩ := (h.readAs_iff hA).mp ⟨bytes, hRead⟩
      exact absurd ⟨record, hCurrent, hLe.trans_lt hFresh⟩ (hNothing k)

/-- A response under `keyA`, in a pool of 100 bytes. -/
def oneStored : List (Op Nat Nat) := [.insert keyA 60 (List.replicate 40 0) [] 0 0 0]

/-- What a lookup of `keyA` finds before and after an insert of `keyB`, and whether that
insert stores. -/
def readsAround (wire : Bytes) : Except Fault (Option Bytes × Bool × Option Bytes) := do
  let c ← runOps collidingEnv (ResponseCache.new collidingEnv true 100) oneStored
  let (before, _) ← c.getWithFlags collidingEnv keyA 1
  let (stored, c') ← c.insertWithFlags collidingEnv keyB 60 wire [] 1 1 1
  let (after, _) ← c'.getWithFlags collidingEnv keyA 1
  return (before.map Prod.fst, stored, after.map Prod.fst)

theorem readsAround_eq_ok {wire : Bytes} {before after : Option Bytes} {stored : Bool}
    (h : readsAround wire = .ok (before, stored, after)) :
    ∃ c c', runOps collidingEnv (ResponseCache.new collidingEnv true 100) oneStored = .ok c ∧
      c.insertWithFlags collidingEnv keyB 60 wire [] 1 1 1 = .ok (stored, c') ∧
      (∀ bytes, ReadAs collidingEnv c keyA 1 bytes ↔ before = some bytes) ∧
      ∀ bytes, ReadAs collidingEnv c' keyA 1 bytes ↔ after = some bytes := by
  have hFound : ∀ {c c₁ : ResponseCache Nat Nat FirstFit.Heap}
      {found : Option (Bytes × Bool × Bool)},
      c.getWithFlags collidingEnv keyA 1 = .ok (found, c₁) →
      ∀ bytes, ReadAs collidingEnv c keyA 1 bytes ↔ found.map Prod.fst = some bytes := by
    intro c c₁ found hGet bytes
    rw [Option.map_eq_some_iff]
    constructor
    · rintro ⟨refresh, stale, c₂, hRun⟩
      rw [hGet] at hRun
      cases hRun
      exact ⟨_, rfl, rfl⟩
    · rintro ⟨⟨bytes, refresh, stale⟩, rfl, rfl⟩
      exact ⟨refresh, stale, c₁, hGet⟩
  rw [readsAround] at h
  obtain ⟨c, hRun, h⟩ := bind_eq_ok.mp h
  obtain ⟨⟨found, c₁⟩, hBefore, h⟩ := bind_eq_ok.mp h
  obtain ⟨⟨stored, c'⟩, hInsert, h⟩ := bind_eq_ok.mp h
  obtain ⟨⟨found', c₂⟩, hAfter, h⟩ := bind_eq_ok.mp h
  cases h
  exact ⟨c, c', hRun, hInsert, hFound hBefore, hFound hAfter⟩

/-- A response that is larger than the pool costs nothing. -/
theorem unstored_keeps_readable_large :
    ∃ c c', runOps collidingEnv (ResponseCache.new collidingEnv true 100) oneStored = .ok c ∧
      c.insertWithFlags collidingEnv keyB 60 (List.replicate 99 0) [] 1 1 1 = .ok (false, c') ∧
      ReadAs collidingEnv c keyA 1 (List.replicate 40 0) ∧
      ∀ k t bytes, 1 ≤ t → ReadAs collidingEnv c k t bytes → ReadAs collidingEnv c' k t bytes := by
  obtain ⟨c, c', hRun, hInsert, hBefore, -⟩ := readsAround_eq_ok
    (show readsAround (List.replicate 99 0) =
      .ok (some (List.replicate 40 0), false, some (List.replicate 40 0)) by decide +kernel)
  refine ⟨c, c', hRun, hInsert, (hBefore _).mpr rfl,
    (unstored_keeps_readable FirstFit.allocator_lawful
      (fun _ => show 100 ≤ maxCacheBytes by decide) hRun hInsert).mpr (.inl ?_)⟩
  have hPool : ((runOps collidingEnv (ResponseCache.new collidingEnv true 100)
      oneStored).toOption.map fun c => c.state.pool.length) = some 100 := by decide +kernel
  rw [hRun] at hPool
  have hLength : c.state.pool.length = 100 := Option.some.inj hPool
  refine .inr (.inr (.inr (.inr ?_)))
  rw [hLength]
  decide +kernel

/-- One of exactly 100 bytes passes the guard, but takes 104 bytes of the pool: it is not
stored, and the other response is gone. -/
theorem unstored_evicts_all :
    ∃ c c', runOps collidingEnv (ResponseCache.new collidingEnv true 100) oneStored = .ok c ∧
      c.insertWithFlags collidingEnv keyB 60 (List.replicate 98 0) [] 1 1 1 = .ok (false, c') ∧
      ReadAs collidingEnv c keyA 1 (List.replicate 40 0) ∧
      ∀ bytes, ¬ ReadAs collidingEnv c' keyA 1 bytes := by
  obtain ⟨c, c', hRun, hInsert, hBefore, hAfter⟩ := readsAround_eq_ok
    (show readsAround (List.replicate 98 0) = .ok (some (List.replicate 40 0), false, none) by
      decide +kernel)
  refine ⟨c, c', hRun, hInsert, (hBefore _).mpr rfl, fun bytes hRead => ?_⟩
  cases (hAfter bytes).mp hRead

end DnsRs.Cache
