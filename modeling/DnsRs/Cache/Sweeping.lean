import DnsRs.Cache.Refreshing
import DnsRs.Cache.Eviction

/-!
# The sweep

The sweeper reads the length of the slab once and then evicts what has expired, 256 indexes
at a time, giving the lock away between the batches. Meanwhile entries come and go, and
indexes are used again.

`sweep_complete`: what had expired when the sweep began is evicted by its end, since an
entry stays at its index as long as it lives (`Moment.kept`); and no batch evicts an entry
that can still be served, since it looks at each entry again under the lock.
-/

namespace DnsRs.Cache

open Lib Wire CacheState ResponseCache

variable {RecordType DNSClass Heap : Type} [DecidableEq RecordType] [DecidableEq DNSClass]
  {env : Env RecordType DNSClass Heap} {c : ResponseCache RecordType DNSClass Heap}
  {k : Key RecordType DNSClass} {s : Moment RecordType DNSClass Heap}

/-! ## The batches -/

def sweepBatch : Nat := 256

/-- The ranges of `for start in (0..end).step_by(SWEEP_BATCH)`. -/
def sweepRanges (stop : Nat) : List (Nat × Nat) :=
  (List.range ((stop + sweepBatch - 1) / sweepBatch)).map fun j =>
    (j * sweepBatch, min (j * sweepBatch + sweepBatch) stop)

theorem sweepRanges_cover {stop i : Nat} (h : i < stop) :
    ∃ r ∈ sweepRanges stop, r.1 ≤ i ∧ i < r.2 := by
  refine ⟨_, List.mem_map.mpr ⟨i / sweepBatch, List.mem_range.mpr ?_, rfl⟩, ?_⟩
  · simp only [sweepBatch]
    omega
  · simp only [sweepBatch]
    omega

/-- The calls contain one batch for each range, in this order. Before, between and after
them there may be any others. -/
def Sweeps (ranges : List (Nat × Nat)) (ops : List (Op RecordType DNSClass)) : Prop :=
  ∃ times : List Nat, times.length = ranges.length ∧
    (List.zipWith (fun r now => Op.sweep r.1 r.2 now) ranges times).Sublist ops

omit [DecidableEq RecordType] [DecidableEq DNSClass] in
theorem Sweeps.mem {ranges : List (Nat × Nat)} {ops : List (Op RecordType DNSClass)}
    (h : Sweeps ranges ops) {r : Nat × Nat} (hr : r ∈ ranges) : ∃ now, .sweep r.1 r.2 now ∈ ops := by
  obtain ⟨times, hLen, hSub⟩ := h
  obtain ⟨j, hj, rfl⟩ := List.getElem_of_mem hr
  refine ⟨times[j], hSub.subset (List.mem_iff_getElem.mpr ⟨j, ?_, List.getElem_zipWith⟩)⟩
  rw [List.length_zipWith]
  omega

/-- **The loop of a batch** leaves no expired entry in its range. -/
theorem sweepFrom_clears (hA : env.alloc.Lawful) {now : Nat}
    {st' : CacheState RecordType DNSClass Heap} :
    ∀ (count index : Nat) (st : CacheState RecordType DNSClass Heap) (l : List Nat),
      Inv env st l → sweepFrom env now count index st = .ok st' →
      ∀ i m, index ≤ i → i < index + count → st'.live? i = some m → now < m.staleUntil := by
  intro count
  induction count with
  | zero =>
    intro index st l _ _ i m hLow hHigh
    omega
  | succ count ih =>
    intro index st l h hRun i m hLow hHigh hm
    -- the loop goes on from a state without an expired entry at `index`
    have hRest : ∀ st₁ l₁, Inv env st₁ l₁ → sweepFrom env now count (index + 1) st₁ = .ok st' →
        (∀ m₁, st₁.live? index = some m₁ → now < m₁.staleUntil) → now < m.staleUntil := by
      intro st₁ l₁ h₁ hRun₁ hHere
      by_cases hEq : i = index
      · subst hEq
        obtain ⟨m₁, hm₁, hSettled⟩ := (sweepFrom_keeps hA now _ _ _ _ h₁ hRun₁).entry i m hm
        have hUntil : m.settled.staleUntil = m₁.settled.staleUntil := congrArg _ hSettled
        exact (hHere m₁ hm₁).trans_eq hUntil.symm
      · exact ih (index + 1) st₁ l₁ h₁ hRun₁ i m (by omega) (by omega) hm
    rw [sweepFrom] at hRun
    split at hRun
    · cases hRun
    · rename_i hVacant
      refine hRest st l h hRun fun m₁ hm₁ => ?_
      rw [live?_eq_some, hVacant] at hm₁
      cases hm₁
    · rename_i m₀ hEntry
      have hm₀ : st.live? index = some m₀ := live?_eq_some.mpr hEntry
      split at hRun
      · have hLt := lt_of_live? hm₀
        have hProper := h.index.proper
        have hWord : tombstone < 2 ^ 32 := by decide
        obtain ⟨st₁, hEvict, hInv, hEvicted⟩ := evict_spec hA h hm₀ .sweep
        rw [Nat.mod_eq_of_lt (by omega), hEvict, ok_bind] at hRun
        refine hRest st₁ _ hInv hRun fun m₁ hm₁ => ?_
        rw [hEvicted.gone] at hm₁
        cases hm₁
      · rename_i hFresh
        refine hRest st l h hRun fun m₁ hm₁ => ?_
        rw [hm₀] at hm₁
        cases hm₁
        exact Nat.lt_of_not_le hFresh

/-! ## The sweep among other calls -/

section Step

variable (hA : env.alloc.Lawful) (h : Sound env s.before)
  (hRun : apply env s.before s.op = .ok (s.out, s.after))

include hA h hRun

/-- An insert under a key that is there evicts it first. -/
theorem Moment.Stores.evicts (hStores : s.Stores k)
    (hThere : (current s.before.state.log k).isSome = true) : s.Evicts k := by
  obtain ⟨last, hLast⟩ := Option.isSome_iff_exists.mp hStores
  obtain ⟨request, lockedAt, storedAt, hOp, hOut⟩ := storedBy_eq_some hLast
  obtain ⟨hLog, -⟩ := Moment.events_spec hA h hRun
  rw [hOp, hOut] at hRun
  obtain ⟨⟨stored, c₁⟩, hInsert, hEnd⟩ := bind_eq_ok.mp hRun
  cases hEnd
  rcases insertWithFlags_cases hA h hInsert with ⟨-, hNot, -⟩ | ⟨-, kept, victims, hTaken, -⟩
  · cases hNot
  obtain ⟨replaced, hWithout, hLog'⟩ := hTaken.log_eq
  rcases hWithout with ⟨-, hNone⟩ | rfl
  · rw [hNone] at hThere
    cases hThere
  · refine ⟨.replaced, ?_⟩
    rw [hLog, ← List.append_assoc, ← List.append_assoc] at hLog'
    rw [List.append_cancel_right hLog']
    exact List.mem_append_right _ List.mem_cons_self

/-- An entry that no call evicts stays as it is, at its index. -/
theorem Moment.stays {i : Nat} {record : Record} (hKeep : ¬ s.Evicts k)
    (hThere : ∃ n, NotedAt s.before.state i k n)
    (hCurrent : current s.before.state.log k = some record) :
    (∃ n, NotedAt s.after.state i k n) ∧ current s.after.state.log k = some record := by
  have hRenews : ¬ s.Renews k := by
    rintro (hStores | hEvicts)
    · exact hKeep (hStores.evicts hA h hRun (by rw [hCurrent]; rfl))
    · exact hKeep hEvicts
  obtain ⟨n, hn⟩ := hThere
  obtain ⟨n', hn', -⟩ := Moment.kept hA h hRun hn hRenews
  refine ⟨⟨n', hn'⟩, ?_⟩
  rw [Moment.current_eq hA h hRun hRenews, hCurrent]

/-- **A batch** evicts every expired entry of its range. -/
theorem Moment.sweep_evicts {start stop now i : Nat} {record : Record}
    (hOp : s.op = .sweep start stop now) (hLow : start ≤ i) (hHigh : i < stop)
    (hThere : ∃ n, NotedAt s.before.state i k n)
    (hCurrent : current s.before.state.log k = some record) (hStale : record.staleUntil ≤ now) :
    s.Evicts k := by
  by_contra hKeep
  obtain ⟨⟨n', m', hm', hKey', -⟩, hCurrent'⟩ := Moment.stays hA h hRun hKeep hThere hCurrent
  obtain ⟨l', hInv'⟩ := (h.call hA s.op hRun).1.inv
  obtain ⟨l, hInv⟩ := h.inv
  obtain ⟨n, m, hm, -⟩ := hThere
  have hLt := lt_of_live? hm
  rw [hOp] at hRun
  obtain ⟨c₁, hSweep, hEnd⟩ := bind_eq_ok.mp hRun
  simp only [pure, Except.pure, Except.ok.injEq, Prod.mk.injEq] at hEnd
  obtain ⟨-, rfl⟩ := hEnd
  obtain ⟨st₁, hLoop, hEnd⟩ := bind_eq_ok.mp hSweep
  have hState : s.after.state = st₁ := by
    rw [← Except.ok.inj hEnd]
  have hClear := sweepFrom_clears hA _ _ _ _ hInv hLoop i m' hLow (by omega) (hState ▸ hm')
  -- the entry that is left would have the record that was there
  have hStored := hInv'.stored hm'
  rw [hKey', hCurrent'] at hStored
  have hUntil : record.staleUntil = m'.staleUntil := by
    rw [Option.some.inj hStored]
    rfl
  omega

/-- **A batch** evicts nothing that can still be served. -/
theorem Moment.sweep_spares {start stop now : Nat} (hOp : s.op = .sweep start stop now)
    (hFresh : Unexpired s.before.state.log now k) : ¬ s.Evicts k := by
  rintro ⟨reason, hMem⟩
  obtain ⟨-, hExplains⟩ := Moment.events_spec hA h hRun
  rw [hOp] at hExplains
  cases hOut : s.out with
  | swept =>
    rw [hOut] at hExplains
    obtain ⟨victims, hEvents, hExpired⟩ := hExplains
    rw [hEvents] at hMem
    obtain ⟨victim, hVictim, hEq⟩ := List.mem_map.mp hMem
    cases hEq
    obtain ⟨record, hCurrent, hOld⟩ := hExpired k hVictim
    obtain ⟨record', hCurrent', hStill⟩ := hFresh
    rw [hCurrent] at hCurrent'
    cases hCurrent'
    omega
  | _ =>
    rw [hOut] at hExplains
    exact hExplains.elim

end Step

/-- **The sweep** is complete and safe. It begins in any reachable state, and any calls may
come between its batches: what had expired when it began is evicted by its end, and no
batch evicts what can still be served. -/
theorem sweep_complete (hA : env.alloc.Lawful) {enabled : Bool} {maxSizeBytes : Nat}
    (hMax : enabled = true → maxSizeBytes ≤ maxCacheBytes) {earlier ops : List (Op RecordType DNSClass)}
    (hStart : runOps env (ResponseCache.new env enabled maxSizeBytes) earlier = .ok c)
    {ms : List (Moment RecordType DNSClass Heap)} (hRun : moments env c ops = .ok ms) {began : Nat}
    (hClock : ∀ t ∈ ops.flatMap Op.readings, began ≤ t)
    (hSweeps : Sweeps (sweepRanges c.state.entries.length) ops) :
    (∀ k, Expired c.state.log began k → ∃ s ∈ ms, s.Evicts k) ∧
      ∀ s ∈ ms, ∀ start stop now, s.op = .sweep start stop now →
        ∀ k, Unexpired s.before.state.log now k → ¬ s.Evicts k := by
  have h := sound_of_run hA hMax hStart
  refine ⟨fun k hExpired => ?_, fun s hs start stop now hOp k hFresh => ?_⟩
  · by_contra hNone
    obtain ⟨record, hCurrent, hStale⟩ := hExpired
    obtain ⟨i, n, hn⟩ := h.noted_iff.mpr (by rw [hCurrent]; rfl)
    have hLt : i < c.state.entries.length := by
      obtain ⟨m, hm, -⟩ := hn
      exact lt_of_live? hm
    -- one of the batches comes to the index of the entry
    obtain ⟨r, hr, hLow, hHigh⟩ := sweepRanges_cover hLt
    obtain ⟨now, hMem⟩ := hSweeps.mem hr
    have hNow : began ≤ now := hClock now (List.mem_flatMap.mpr ⟨_, hMem, List.mem_cons_self⟩)
    rw [← moments_ops hRun] at hMem
    obtain ⟨s, hs, hOp⟩ := List.mem_map.mp hMem
    obtain ⟨before, after, rfl⟩ := List.append_of_mem hs
    -- and until then it has stayed there
    obtain ⟨ops₁, c₁, -, h₁, hStays, hRun₁⟩ := moments_carry
      (I := fun _ c => (∃ n, NotedAt c.state i k n) ∧ current c.state.log k = some record)
      (P := fun s => ¬ s.Evicts k) hA
      (fun _ s hSound hApply hKeep hThere =>
        Moment.stays hA hSound hApply hKeep hThere.1 hThere.2) [] h ⟨⟨n, hn⟩, hCurrent⟩
      (fun s hs hEvicts => hNone ⟨s, List.mem_append_left _ hs, hEvicts⟩) hRun
    obtain ⟨ops₂, -, rfl, hApply, -⟩ := moments_cons hRun₁
    exact hNone ⟨s, hs, Moment.sweep_evicts hA h₁ hApply hOp hLow hHigh hStays.1 hStays.2
      (hStale.trans hNow)⟩
  · obtain ⟨before, after, rfl⟩ := List.append_of_mem hs
    obtain ⟨ops₁, c₁, -, h₁, hRun₁⟩ := moments_sound hA h hRun
    obtain ⟨ops₂, -, rfl, hApply, -⟩ := moments_cons hRun₁
    exact Moment.sweep_spares hA h₁ hApply hOp hFresh

/-- Calls during a sweep of one entry: it is evicted by a lookup, and its index used again,
before the batch comes to it. -/
def recyclingOps : List (Op Nat Nat) :=
  [.get keyA (40 * second),
    .insert keyB 60 (List.replicate 40 0) [] (40 * second) (40 * second) (40 * second),
    .sweep 0 1 (41 * second)]

/-- The slab and the log when the sweep begins, and what the calls return. -/
def recyclingRun : Except Fault (Nat × List (CacheEvent Nat Nat) × List Output) := do
  let c ← runOps collidingEnv (ResponseCache.new collidingEnv true 128)
    [.insert keyA 1 (List.replicate 40 0) [] 0 0 0]
  let ms ← moments collidingEnv c recyclingOps
  return (c.state.entries.length, c.state.log, ms.map Moment.out)

theorem sweep_complete_recycled :
    ∃ c ms, runOps collidingEnv (ResponseCache.new collidingEnv true 128)
        [.insert keyA 1 (List.replicate 40 0) [] 0 0 0] = .ok c ∧
      moments collidingEnv c recyclingOps = .ok ms ∧ Expired c.state.log (40 * second) keyA ∧
      (∃ s ∈ ms, s.Evicts keyA) ∧
      ∀ s ∈ ms, ∀ start stop now, s.op = .sweep start stop now →
        ∀ k, Unexpired s.before.state.log now k → ¬ s.Evicts k := by
  have hRun : recyclingRun = .ok (1, [.stored keyA shortRecord],
      [.got none, .inserted true, .swept]) := by decide +kernel
  obtain ⟨c, hStart, hRun⟩ := bind_eq_ok.mp hRun
  obtain ⟨ms, hMoments, hEnd⟩ := bind_eq_ok.mp hRun
  simp only [pure, Except.pure, Except.ok.injEq, Prod.mk.injEq] at hEnd
  obtain ⟨hLength, hLog, -⟩ := hEnd
  have hExpired : Expired c.state.log (40 * second) keyA := by
    rw [hLog]
    exact ⟨shortRecord, by decide +kernel, by decide +kernel⟩
  have hSweeps : Sweeps (sweepRanges c.state.entries.length) recyclingOps := by
    rw [hLength]
    exact ⟨[41 * second], rfl, .cons _ (.cons _ (.refl _))⟩
  obtain ⟨hGone, hSpared⟩ := sweep_complete FirstFit.allocator_lawful
    (fun _ => show 128 ≤ maxCacheBytes by decide) hStart hMoments
    (show ∀ t ∈ recyclingOps.flatMap Op.readings, 40 * second ≤ t by decide) hSweeps
  exact ⟨c, ms, hStart, hMoments, hExpired, hGone keyA hExpired, hSpared⟩

end DnsRs.Cache
