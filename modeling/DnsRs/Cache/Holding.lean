import DnsRs.Cache.Runs

/-!
# The cache and its callers

A caller that stores only what meets `P` gets only what meets `P` back.
`Holding env P c` is what the owner of a cache keeps between calls; each call
has one lemma, stated for the call that returned.
-/

namespace DnsRs.Cache

open Lib Wire CacheState ResponseCache

variable {RecordType DNSClass Heap : Type} [DecidableEq RecordType] [DecidableEq DNSClass]
  {env : Env RecordType DNSClass Heap} {P Q : Key RecordType DNSClass → Record → Prop}
  {c c' : ResponseCache RecordType DNSClass Heap}

/-! ## Events -/

theorem InsertEvents.only {log events : List (CacheEvent RecordType DNSClass)}
    {key : Key RecordType DNSClass} {record : Record} {stored : Bool}
    (h : InsertEvents key record stored events) (hLog : Only P log) (hNew : P key record) :
    Only P (events ++ log) := by
  obtain ⟨victims, replaced, hReplaced, rfl⟩ := h
  have hFirst : Only P (replaced ++ log) := by
    rcases hReplaced with rfl | rfl
    · exact hLog
    · exact hLog.evictions [key] .replaced
  have hRest := hFirst.evictions victims .space
  rw [List.append_assoc, List.append_assoc]
  cases stored with
  | false => exact hRest
  | true => exact hRest.stored hNew

theorem LookupEvents.only {log events : List (CacheEvent RecordType DNSClass)}
    {key : Key RecordType DNSClass} {now : Nat} {found : Option (Bytes × Bool × Bool)}
    (h : LookupEvents log key now found events) (hLog : Only P log) : Only P (events ++ log) := by
  rw [LookupEvents] at h
  split at h
  · rw [h.2]
    exact hLog
  · split at h
    · rw [h.2]
      exact hLog.evictions [key] .expired
    · rw [h.2]
      exact hLog.hit key

/-! ## Calls -/

/-- A cache between calls that stores nothing but what meets `P`. -/
structure Holding (env : Env RecordType DNSClass Heap)
    (P : Key RecordType DNSClass → Record → Prop) (c : ResponseCache RecordType DNSClass Heap) :
    Prop where
  sound : Sound env c
  only : Only P c.state.log

theorem Holding.mono (h : Holding env P c) (hPQ : ∀ key record, P key record → Q key record) :
    Holding env Q c :=
  ⟨h.sound, h.only.mono hPQ⟩

theorem holding_new (hA : env.alloc.Lawful) {enabled : Bool} {maxSizeBytes : Nat}
    (hMax : enabled = true → maxSizeBytes ≤ maxCacheBytes) :
    Holding env P (ResponseCache.new env enabled maxSizeBytes) :=
  ⟨new_sound hA hMax, Only.nil⟩

/-- What any call leaves is sound, and its log is the events of the call on top
of the log before. -/
theorem Sound.call (h : Sound env c) (hA : env.alloc.Lawful) (op : Op RecordType DNSClass)
    {out : Output} (hRun : apply env c op = .ok (out, c')) :
    Sound env c' ∧ ∃ events, c'.state.log = events ++ c.state.log ∧
      Explains c.state.log op out events := by
  obtain ⟨out', c₁, events, hRun', hSound, hLog, hExplains⟩ := apply_spec hA h op
  rw [hRun'] at hRun
  cases hRun
  exact ⟨hSound, events, hLog, hExplains⟩

theorem Holding.insert (h : Holding env P c) (hA : env.alloc.Lawful)
    {key : Key RecordType DNSClass} {ttl now lockedAt storedAt : Nat} {wire request : Bytes}
    {stored : Bool}
    (hRun : c.insertWithFlags env key ttl wire request now lockedAt storedAt = .ok (stored, c'))
    (hNew : P key (recordOf ttl now wire request)) : Holding env P c' := by
  obtain ⟨hSound, events, hLog, hEvents⟩ :=
    h.sound.call hA (.insert key ttl wire request now lockedAt storedAt) (by rw [apply, hRun]; rfl)
  refine ⟨hSound, ?_⟩
  rw [hLog]
  exact InsertEvents.only hEvents h.only hNew

/-- A lookup keeps what is stored, and what it finds is stored, aged. -/
theorem Holding.get (h : Holding env P c) (hA : env.alloc.Lawful)
    {key : Key RecordType DNSClass} {now : Nat} {found : Option (Bytes × Bool × Bool)}
    (hRun : c.getWithFlags env key now = .ok (found, c')) :
    Holding env P c' ∧ ∀ wire refresh stale, found = some (wire, refresh, stale) →
      ∃ record done, P key record ∧
        ageTtls record.wire (elapsedSecs record.originalTtl record.expiresAt now) stale =
          .ok (done, wire) := by
  obtain ⟨hSound, events, hLog, hEvents⟩ :=
    h.sound.call hA (.get key now) (by rw [apply, hRun]; rfl)
  refine ⟨⟨hSound, ?_⟩, ?_⟩
  · rw [hLog]
    exact LookupEvents.only hEvents h.only
  · rintro wire refresh stale rfl
    obtain ⟨record, done, hCurrent, -, -, hAge⟩ := LookupEvents.served hEvents
    exact ⟨record, done, h.only key record hCurrent, hAge⟩

theorem Holding.release (h : Holding env P c) (hA : env.alloc.Lawful)
    {key : Key RecordType DNSClass} {now : Nat}
    (hRun : c.releaseRefreshClaimWithFlags env key now = .ok c') : Holding env P c' := by
  obtain ⟨hSound, events, hLog, hEvents⟩ :=
    h.sound.call hA (.release key now) (by rw [apply, hRun]; rfl)
  obtain rfl : events = [] := hEvents
  exact ⟨hSound, hLog ▸ h.only⟩

theorem Holding.candidates (h : Holding env P c) (hA : env.alloc.Lawful) {budget now : Nat}
    {requests : List Bytes} (hRun : c.refreshCandidates budget now = .ok (requests, c')) :
    Holding env P c' := by
  obtain ⟨hSound, events, hLog, hEvents⟩ :=
    h.sound.call hA (.candidates budget now) (by rw [apply, hRun]; rfl)
  obtain rfl : events = [] := hEvents
  exact ⟨hSound, hLog ▸ h.only⟩

theorem Holding.sweep (h : Holding env P c) (hA : env.alloc.Lawful) {start stop now : Nat}
    (hRun : c.evictExpiredBatch env start stop now = .ok c') : Holding env P c' := by
  obtain ⟨hSound, events, hLog, hEvents⟩ :=
    h.sound.call hA (.sweep start stop now) (by rw [apply, hRun]; rfl)
  obtain ⟨victims, rfl, -⟩ := hEvents
  refine ⟨hSound, ?_⟩
  rw [hLog]
  exact h.only.evictions victims .sweep

end DnsRs.Cache
