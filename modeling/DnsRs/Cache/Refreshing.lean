import DnsRs.Cache.Bookkeeping
import DnsRs.Cache.Lifetime

/-!
# Refresh claims

A lookup of a nearly expired entry and the scan of the background refresh both hand out
an entry for a refresh, and both claim it under the lock. This module follows the notes of
one key through a run of calls, call by call (`moments`).

* `apply_noted` — what any call does to the notes of an entry: the one place where the
  operations are told apart.
* `refresh_claims` — an entry that was handed out is not handed out again before its claim
  is cleared, and after failed refreshes not before the backoff is over.
* `candidates_looked_up` — what the background refresh hands out was looked up by somebody
  not long ago: replacing an entry carries its last use over, and an entry that is evicted
  takes it along.
-/

namespace DnsRs.Cache

open Lib Wire CacheState ResponseCache

variable {RecordType DNSClass Heap : Type} [DecidableEq RecordType] [DecidableEq DNSClass]
  {env : Env RecordType DNSClass Heap} {c c' : ResponseCache RecordType DNSClass Heap}
  {op : Op RecordType DNSClass} {out : Output} {k : Key RecordType DNSClass} {i : Nat}
  {n n' : Notes}

/-! ## One call -/

/-- What a call writes into the notes of an entry that it leaves where it is. -/
def Noting (env : Env RecordType DNSClass Heap) (k : Key RecordType DNSClass) (n n' : Notes) :
    Op RecordType DNSClass → Output → Prop
  | .get key now, .got (some (_, refresh, _)) =>
    if k = key then n' = n.hit now refresh ∧ (refresh = true → n.Due now) else n' = n
  | .release key now, _ => n' = if k = key then n.release (env.keyHash key) now else n
  | .candidates _ now, _ => n' = n ∨ n' = n.claim ∧ n.Due now ∧ n.Active now
  | _, _ => n' = n

theorem Noting.claimed (h : Noting env k n n' op out) (hSet : n.refreshClaimed = true)
    (hKeep : ∀ now, op ≠ .release k now) : n'.refreshClaimed = true := by
  unfold Noting at h
  split at h
  · split at h
    · rw [h.1, Notes.hit, hSet, Bool.true_or]
    · rw [h, hSet]
  · rw [h, if_neg, hSet]
    rintro rfl
    exact hKeep _ rfl
  · rcases h with rfl | ⟨rfl, -⟩
    · exact hSet
    · rfl
  · rw [h, hSet]

/-! ## Backoff -/

/-- What is waited at least after so many failures. -/
def backoff (failures : Nat) : Nat := 500 * 2 ^ min failures 5 * millisecond

theorem backoff_mono {j j' : Nat} (h : min j 5 ≤ min j' 5) : backoff j ≤ backoff j' :=
  Nat.mul_le_mul_right _ (Nat.mul_le_mul_left _ (Nat.pow_le_pow_right (by decide) h))

/-- One more failure. -/
theorem Notes.release_fails {j : Nat} (hash : UInt64) (now : Nat) (hSet : n.refreshClaimed = true)
    (hFailed : min j 5 ≤ n.refreshFailures) :
    min (j + 1) 5 ≤ (n.release hash now).refreshFailures ∧
      now + backoff (j + 1) ≤ (n.release hash now).retryAfter := by
  rw [Notes.release, if_pos hSet]
  have hCount : min (j + 1) 5 ≤ min (min (n.refreshFailures + 1) 255) 5 := by omega
  refine ⟨hCount, Nat.add_le_add_left (Nat.mul_le_mul_right _ ?_) _⟩
  -- the jitter only adds to the delay
  calc 500 * 2 ^ min (j + 1) 5
      ≤ 500 * 2 ^ min (min (n.refreshFailures + 1) 255) 5 :=
        Nat.mul_le_mul_left _ (Nat.pow_le_pow_right (by decide) hCount)
    _ = 2 ^ min (min (n.refreshFailures + 1) 255) 5 * 500 := Nat.mul_comm ..
    _ ≤ _ := Nat.le_add_right ..

/-- Only a release that finds the claim set changes the time to try again. -/
theorem Noting.retry (h : Noting env k n n' op out) :
    (n'.refreshFailures = n.refreshFailures ∧ n'.retryAfter = n.retryAfter) ∨
      ∃ now, op = .release k now ∧ n.refreshClaimed = true ∧
        n' = n.release (env.keyHash k) now := by
  unfold Noting at h
  split at h
  · split at h
    · exact .inl (by rw [h.1]; exact ⟨rfl, rfl⟩)
    · exact .inl (by rw [h]; exact ⟨rfl, rfl⟩)
  · split at h
    · subst_vars
      by_cases hSet : n.refreshClaimed = true
      · exact .inr ⟨_, rfl, hSet, rfl⟩
      · rw [Notes.release, if_neg hSet]
        exact .inl ⟨rfl, rfl⟩
    · exact .inl (by rw [h]; exact ⟨rfl, rfl⟩)
  · rcases h with rfl | ⟨rfl, -⟩
    · exact .inl ⟨rfl, rfl⟩
    · exact .inl ⟨rfl, rfl⟩
  · exact .inl (by rw [h]; exact ⟨rfl, rfl⟩)

theorem Noting.failures {j : Nat} (h : Noting env k n n' op out)
    (hFailed : min j 5 ≤ n.refreshFailures) : min j 5 ≤ n'.refreshFailures := by
  rcases h.retry with ⟨hSame, -⟩ | ⟨now, -, hSet, rfl⟩
  · rw [hSame]
    exact hFailed
  · have hMore := (Notes.release_fails (env.keyHash k) now hSet hFailed).1
    omega

/-- No call shortens the wait, as long as the entry is not stored anew. -/
theorem Noting.waits {j since : Nat} (h : Noting env k n n' op out)
    (hClock : ∀ now, op = .release k now → since ≤ now) (hFailed : min j 5 ≤ n.refreshFailures)
    (hWaits : since + backoff j ≤ n.retryAfter) : since + backoff j ≤ n'.retryAfter := by
  rcases h.retry with ⟨-, hSame⟩ | ⟨now, hOp, hSet, rfl⟩
  · rw [hSame]
    exact hWaits
  · have hRetry := (Notes.release_fails (env.keyHash k) now hSet hFailed).2
    have hMono : backoff j ≤ backoff (j + 1) := backoff_mono (by omega)
    have hSince := hClock now hOp
    omega

/-- **One call.** An entry of the key was there before, at the same index, or the call has
stored it. -/
theorem apply_noted (hA : env.alloc.Lawful) (h : Sound env c)
    (hRun : apply env c op = .ok (out, c')) (hn : NotedAt c'.state i k n') :
    ((storedBy k (op, out)).isSome = true ∧ ∃ storedAt, Carried c.state k storedAt n') ∨
      ∃ n, NotedAt c.state i k n ∧ Noting env k n n' op out := by
  cases op with
  | insert key ttl wire request now lockedAt storedAt =>
    obtain ⟨⟨stored, c₁⟩, hInsert, hEnd⟩ := bind_eq_ok.mp hRun
    cases hEnd
    rcases insertWithFlags_noted hA h hInsert hn with ⟨rfl, rfl, hCarried⟩ | hOld
    · refine .inl ⟨?_, storedAt, hCarried⟩
      rw [storedBy, if_pos rfl]
      rfl
    · exact .inr ⟨n', hOld, rfl⟩
  | get key now =>
    obtain ⟨⟨found, c₁⟩, hGet, hEnd⟩ := bind_eq_ok.mp hRun
    cases hEnd
    rcases getWithFlags_noted hA h hGet hn with
      ⟨hOld, hNone⟩ | ⟨wire, refresh, stale, n₀, rfl, rfl, hOld, rfl, hDue⟩
    · refine .inr ⟨n', hOld, ?_⟩
      cases found with
      | none => exact rfl
      | some found =>
        obtain ⟨wire, refresh, stale⟩ := found
        have hne : k ≠ key := fun hEq => by cases hNone hEq
        rw [Noting, if_neg hne]
    · refine .inr ⟨n₀, hOld, ?_⟩
      rw [Noting, if_pos rfl]
      exact ⟨rfl, hDue⟩
  | release key now =>
    obtain ⟨c₁, hRelease, hEnd⟩ := bind_eq_ok.mp hRun
    cases hEnd
    rcases releaseRefreshClaimWithFlags_noted hA h hRelease hn with
      ⟨rfl, n₀, hOld, rfl⟩ | ⟨hne, hOld⟩
    · refine .inr ⟨n₀, hOld, ?_⟩
      rw [Noting, if_pos rfl]
    · refine .inr ⟨n', hOld, ?_⟩
      rw [Noting, if_neg hne]
  | candidates budget now =>
    obtain ⟨⟨list, c₁⟩, hScan, hEnd⟩ := bind_eq_ok.mp hRun
    cases hEnd
    obtain ⟨picked, hPicked⟩ := refreshCandidates_picked hA h hScan
    rcases hPicked.noted hn with ⟨-, n₀, hOld, rfl, hDue⟩ | ⟨-, hOld⟩
    · exact .inr ⟨n₀, hOld, .inr ⟨rfl, hDue⟩⟩
    · exact .inr ⟨n', hOld, .inl rfl⟩
  | sweep start stop now =>
    obtain ⟨c₁, hSweep, hEnd⟩ := bind_eq_ok.mp hRun
    cases hEnd
    exact .inr ⟨n', evictExpiredBatch_noted hA h hSweep hn, rfl⟩

/-- A key has one index and one set of notes. -/
theorem Sound.noted_unique (h : Sound env c) {j : Nat} (hn : NotedAt c.state i k n)
    (hn' : NotedAt c.state j k n') : j = i ∧ n' = n := by
  obtain ⟨l, hInv⟩ := h.inv
  obtain ⟨m, hm, hKey, rfl⟩ := hn
  obtain rfl := hInv.index_unique hn' hm hKey
  obtain ⟨m', hm', -, rfl⟩ := hn'
  rw [hm] at hm'
  cases hm'
  exact ⟨rfl, rfl⟩

theorem Sound.noted_iff (h : Sound env c) :
    (∃ i n, NotedAt c.state i k n) ↔ (current c.state.log k).isSome = true := by
  obtain ⟨l, hInv⟩ := h.inv
  rw [Option.isSome_iff_exists]
  constructor
  · rintro ⟨i, n, m, hm, rfl, -⟩
    exact ⟨_, hInv.stored hm⟩
  · rintro ⟨record, hRecord⟩
    obtain ⟨i, m, hm, hKey, -⟩ := (hInv.history k record).mp hRecord
    exact ⟨i, m.notes, m, hm, hKey, rfl⟩

/-! ## Runs, call by call -/

/-- A call, with the caches before and after it. -/
structure Moment (RecordType DNSClass Heap : Type) where
  before : ResponseCache RecordType DNSClass Heap
  op : Op RecordType DNSClass
  out : Output
  after : ResponseCache RecordType DNSClass Heap

/-- A sequence of calls. -/
def moments (env : Env RecordType DNSClass Heap) :
    ResponseCache RecordType DNSClass Heap → List (Op RecordType DNSClass) →
      Except Fault (List (Moment RecordType DNSClass Heap))
  | _, [] => .ok []
  | c, op :: ops => do
    let (out, c') ← apply env c op
    let rest ← moments env c' ops
    return ⟨c, op, out, c'⟩ :: rest

variable {ops : List (Op RecordType DNSClass)} {s : Moment RecordType DNSClass Heap}
  {ms rest : List (Moment RecordType DNSClass Heap)}

theorem moments_cons (h : moments env c ops = .ok (s :: ms)) :
    ∃ ops', ops = s.op :: ops' ∧ s.before = c ∧ apply env s.before s.op = .ok (s.out, s.after) ∧
      moments env s.after ops' = .ok ms := by
  cases ops with
  | nil => cases h
  | cons op ops =>
    rw [moments] at h
    obtain ⟨⟨out, c'⟩, hApply, h⟩ := bind_eq_ok.mp h
    obtain ⟨ms', hRest, h⟩ := bind_eq_ok.mp h
    cases h
    exact ⟨ops, rfl, rfl, hApply, hRest⟩

/-- **Every run.** What each call preserves holds after any number of calls; it may speak of
the calls made before. -/
theorem moments_carry (hA : env.alloc.Lawful)
    {I : List (Moment RecordType DNSClass Heap) → ResponseCache RecordType DNSClass Heap → Prop}
    {P : Moment RecordType DNSClass Heap → Prop}
    (hStep : ∀ done s, Sound env s.before → apply env s.before s.op = .ok (s.out, s.after) → P s →
      I done s.before → I (done ++ [s]) s.after) :
    ∀ {past : List (Moment RecordType DNSClass Heap)} (done : List (Moment RecordType DNSClass Heap))
      {ops : List (Op RecordType DNSClass)} {c : ResponseCache RecordType DNSClass Heap},
      Sound env c → I done c → (∀ s ∈ past, P s) → moments env c ops = .ok (past ++ rest) →
      ∃ ops' c', ops = past.map Moment.op ++ ops' ∧ Sound env c' ∧ I (done ++ past) c' ∧
        moments env c' ops' = .ok rest := by
  intro past
  induction past with
  | nil =>
    intro done ops c h hI _ hRun
    refine ⟨ops, c, rfl, h, ?_, hRun⟩
    rw [List.append_nil]
    exact hI
  | cons s past ih =>
    intro done ops c h hI hAll hRun
    obtain ⟨ops₁, rfl, rfl, hApply, hRest⟩ := moments_cons hRun
    have hNext := hStep done s h hApply (hAll s List.mem_cons_self) hI
    obtain ⟨ops', c', rfl, h', hI', hRun'⟩ := ih _ (h.call hA s.op hApply).1 hNext
      (fun s' hs' => hAll s' (List.mem_cons_of_mem _ hs')) hRest
    refine ⟨ops', c', rfl, h', ?_, hRun'⟩
    rw [List.append_assoc, List.singleton_append] at hI'
    exact hI'

theorem moments_sound (hA : env.alloc.Lawful) {past : List (Moment RecordType DNSClass Heap)}
    (h : Sound env c) (hRun : moments env c ops = .ok (past ++ rest)) :
    ∃ ops' c', ops = past.map Moment.op ++ ops' ∧ Sound env c' ∧ moments env c' ops' = .ok rest := by
  obtain ⟨ops', c', hOps, h', -, hRest⟩ := moments_carry (I := fun _ _ => True) (P := fun _ => True)
    hA (fun _ _ _ _ _ _ => trivial) [] h trivial (fun _ _ => trivial) hRun
  exact ⟨ops', c', hOps, h', hRest⟩

theorem moments_ops (hRun : moments env c ops = .ok ms) : ms.map Moment.op = ops := by
  induction ms generalizing c ops with
  | nil =>
    cases ops with
    | nil => rfl
    | cons op ops =>
      rw [moments] at hRun
      obtain ⟨⟨out, c'⟩, -, hRun⟩ := bind_eq_ok.mp hRun
      obtain ⟨ms', -, hRun⟩ := bind_eq_ok.mp hRun
      cases hRun
  | cons s ms ih =>
    obtain ⟨ops', rfl, -, -, hRest⟩ := moments_cons hRun
    rw [List.map_cons, ih hRest]

/-- A run, from what its calls return. -/
theorem moments_of_outs {outs : List Output}
    (h : (moments env c ops).toOption.map (List.map Moment.out) = some outs) :
    ∃ ms, moments env c ops = .ok ms ∧ ms.map Moment.op = ops ∧ ms.map Moment.out = outs := by
  obtain ⟨ms, hRun, hOuts⟩ := Option.map_eq_some_iff.mp h
  rw [toOption_eq_some] at hRun
  exact ⟨ms, hRun, moments_ops hRun, hOuts⟩

/-! ## What a call does to a claim -/

namespace Moment

/-- What the call adds to the log. -/
def events (s : Moment RecordType DNSClass Heap) : List (CacheEvent RecordType DNSClass) :=
  s.after.state.log.take (s.after.state.log.length - s.before.state.log.length)

/-- It stores a new entry under the key. -/
def Stores (s : Moment RecordType DNSClass Heap) (k : Key RecordType DNSClass) : Prop :=
  (storedBy k (s.op, s.out)).isSome = true

def Evicts (s : Moment RecordType DNSClass Heap) (k : Key RecordType DNSClass) : Prop :=
  ∃ reason, .evicted k reason ∈ s.events

/-- It ends the generation of the key. -/
def Renews (s : Moment RecordType DNSClass Heap) (k : Key RecordType DNSClass) : Prop :=
  s.Stores k ∨ s.Evicts k

/-- It releases the key and finds the claim set. -/
def Releases (s : Moment RecordType DNSClass Heap) (k : Key RecordType DNSClass) (now : Nat) :
    Prop :=
  s.op = .release k now ∧ Claimed s.before k

/-- It clears the claim. -/
def Clears (s : Moment RecordType DNSClass Heap) (k : Key RecordType DNSClass) : Prop :=
  s.Renews k ∨ ∃ now, s.Releases k now

/-- It hands the key out for a refresh: a lookup that says so, or a scan that claims it. -/
def Returns (s : Moment RecordType DNSClass Heap) (k : Key RecordType DNSClass) (t : Nat) : Prop :=
  (∃ wire stale, s.op = .get k t ∧ s.out = .got (some (wire, true, stale))) ∨
    ∃ budget requests, s.op = .candidates budget t ∧ s.out = .requests requests ∧
      ¬ Claimed s.before k ∧ Claimed s.after k

end Moment

section Step

variable (hA : env.alloc.Lawful) (h : Sound env s.before)
  (hRun : apply env s.before s.op = .ok (s.out, s.after))

include hA h hRun

theorem Moment.events_spec : s.after.state.log = s.events ++ s.before.state.log ∧
    Explains s.before.state.log s.op s.out s.events := by
  obtain ⟨-, events, hLog, hExplains⟩ := h.call hA s.op hRun
  have hEvents : s.events = events := by
    rw [Moment.events, hLog, List.length_append, Nat.add_sub_cancel]
    exact List.take_left
  rw [hEvents]
  exact ⟨hLog, hExplains⟩

/-- What is stored under a key whose generation goes on stays. -/
theorem Moment.current_eq (hKeep : ¬ s.Renews k) :
    current s.after.state.log k = current s.before.state.log k := by
  obtain ⟨hLog, hExplains⟩ := Moment.events_spec hA h hRun
  rw [hLog]
  refine current_append_of_notMem (fun record hMem => hKeep (.inl ?_))
    fun reason hMem => hKeep (.inr ⟨reason, hMem⟩)
  obtain ⟨ttl, wire, request, now, lockedAt, storedAt, hOp, hOut, -⟩ := hExplains.storedBy hMem
  rw [Moment.Stores, hOp, hOut, Cache.storedBy, if_pos rfl]
  rfl

/-- An entry whose generation goes on stays at its index. -/
theorem Moment.kept (hn : NotedAt s.before.state i k n) (hKeep : ¬ s.Renews k) :
    ∃ n', NotedAt s.after.state i k n' ∧ Noting env k n n' s.op s.out := by
  have hSome := h.noted_iff.mp ⟨i, n, hn⟩
  rw [← Moment.current_eq hA h hRun hKeep] at hSome
  obtain ⟨j, n', hn'⟩ := (h.call hA s.op hRun).1.noted_iff.mpr hSome
  rcases apply_noted hA h hRun hn' with ⟨hStores, -⟩ | ⟨n₀, hn₀, hNoting⟩
  · exact absurd (.inl hStores) hKeep
  · obtain ⟨rfl, rfl⟩ := h.noted_unique hn hn₀
    exact ⟨n', hn', hNoting⟩

/-- A scan claims entries that are due and in use. -/
theorem Moment.scanned {budget t : Nat} (hOp : s.op = .candidates budget t)
    (hFree : ¬ Claimed s.before k) (hClaimed : Claimed s.after k) :
    ∃ i n, NotedAt s.before.state i k n ∧ n.Due t ∧ n.Active t := by
  obtain ⟨n', ⟨i, hn'⟩, hSet⟩ := claimed_iff.mp hClaimed
  rcases apply_noted hA h hRun hn' with ⟨hStores, -⟩ | ⟨n, hn, hNoting⟩
  · rw [hOp] at hStores
    cases hStores
  · rw [hOp, Noting] at hNoting
    rcases hNoting with rfl | ⟨-, hNotes⟩
    · exact absurd (claimed_iff.mpr ⟨n', hn.noted, hSet⟩) hFree
    · exact ⟨i, n, hn, hNotes⟩

/-- An entry that is handed out was due, and is claimed afterwards. -/
theorem Moment.Returns.due {t : Nat} (hReturns : s.Returns k t) :
    Claimed s.after k ∧ ∃ i n, NotedAt s.before.state i k n ∧ n.Due t := by
  rcases hReturns with ⟨wire, stale, hOp, hOut⟩ | ⟨budget, requests, hOp, hOut, hFree, hClaimed⟩
  · obtain ⟨-, hExplains⟩ := Moment.events_spec hA h hRun
    rw [hOp, hOut] at hExplains
    have hLookup : LookupEvents s.before.state.log k t (some (wire, true, stale)) s.events :=
      hExplains
    obtain ⟨record, hCurrent, hFresh⟩ := hLookup.isSome_iff.mp rfl
    obtain ⟨i, n, hn⟩ := h.noted_iff.mpr (by rw [hCurrent]; rfl)
    -- a hit evicts nothing
    have hKeep : ¬ s.Renews k := by
      rw [LookupEvents, hCurrent] at hLookup
      simp only [if_neg (Nat.not_le.mpr hFresh)] at hLookup
      rintro (hStores | ⟨reason, hMem⟩)
      · rw [Moment.Stores, hOp, hOut] at hStores
        cases hStores
      · rw [hLookup.2] at hMem
        cases List.mem_singleton.mp hMem
    obtain ⟨n', hn', hNoting⟩ := Moment.kept hA h hRun hn hKeep
    rw [hOp, hOut, Noting, if_pos rfl] at hNoting
    refine ⟨claimed_iff.mpr ⟨n', hn'.noted, ?_⟩, i, n, hn, hNoting.2 rfl⟩
    rw [hNoting.1, Notes.hit, Bool.or_true]
  · obtain ⟨i, n, hn, hDue, -⟩ := Moment.scanned hA h hRun hOp hFree hClaimed
    exact ⟨hClaimed, i, n, hn, hDue⟩

/-- **A claim** stays until it is cleared. -/
theorem Moment.keeps_claim (hClaimed : Claimed s.before k) (hKeep : ¬ s.Clears k) :
    Claimed s.after k := by
  obtain ⟨n, ⟨i, hn⟩, hSet⟩ := claimed_iff.mp hClaimed
  obtain ⟨n', hn', hNoting⟩ := Moment.kept hA h hRun hn fun hRenews => hKeep (.inl hRenews)
  refine claimed_iff.mpr ⟨n', hn'.noted, hNoting.claimed hSet fun now hOp => ?_⟩
  exact hKeep (.inr ⟨now, hOp, hClaimed⟩)

end Step

/-- The entry of the key, if there is one, has failed so often. -/
def Failed (k : Key RecordType DNSClass) (failures : Nat)
    (c : ResponseCache RecordType DNSClass Heap) : Prop :=
  ∀ i n, NotedAt c.state i k n → min failures 5 ≤ n.refreshFailures

/-- It is not due before the backoff is over, counted from `since`. -/
def Waits (k : Key RecordType DNSClass) (failures since : Nat)
    (c : ResponseCache RecordType DNSClass Heap) : Prop :=
  ∀ i n, NotedAt c.state i k n →
    min failures 5 ≤ n.refreshFailures ∧ since + backoff failures ≤ n.retryAfter

section Step

variable {j since : Nat} (hA : env.alloc.Lawful) (h : Sound env s.before)
  (hRun : apply env s.before s.op = .ok (s.out, s.after))

include hA h hRun

theorem Moment.keeps_failed (hKeep : ¬ s.Renews k) (hFailed : Failed k j s.before) :
    Failed k j s.after := by
  intro i n' hn'
  rcases apply_noted hA h hRun hn' with ⟨hStores, -⟩ | ⟨n, hn, hNoting⟩
  · exact absurd (.inl hStores) hKeep
  · exact hNoting.failures (hFailed i n hn)

theorem Moment.keeps_waits (hKeep : ¬ s.Renews k) (hClock : ∀ t ∈ s.op.readings, since ≤ t)
    (hWaits : Waits k j since s.before) : Waits k j since s.after := by
  intro i n' hn'
  rcases apply_noted hA h hRun hn' with ⟨hStores, -⟩ | ⟨n, hn, hNoting⟩
  · exact absurd (.inl hStores) hKeep
  · obtain ⟨hFailed, hRetry⟩ := hWaits i n hn
    refine ⟨hNoting.failures hFailed, hNoting.waits (fun now hOp => hClock now ?_) hFailed hRetry⟩
    rw [hOp]
    exact List.mem_cons_self

/-- **A failed refresh** is one more failure, and starts the wait. -/
theorem Moment.Releases.waits {now : Nat} (hReleases : s.Releases k now)
    (hFailed : Failed k j s.before) : Waits k (j + 1) now s.after := by
  intro i n' hn'
  obtain ⟨n₀, ⟨i₀, hn₀⟩, hSet⟩ := claimed_iff.mp hReleases.2
  rcases apply_noted hA h hRun hn' with ⟨hStores, -⟩ | ⟨n, hn, hNoting⟩
  · rw [hReleases.1] at hStores
    cases hStores
  · obtain ⟨-, rfl⟩ := h.noted_unique hn₀ hn
    rw [hReleases.1, Noting, if_pos rfl] at hNoting
    rw [hNoting]
    exact Notes.release_fails _ now hSet (hFailed i n hn)

end Step

/-- Every release among these calls that found the claim set has left a failure. -/
def CountsFailures (k : Key RecordType DNSClass) (done : List (Moment RecordType DNSClass Heap))
    (c : ResponseCache RecordType DNSClass Heap) : Prop :=
  ∀ releases : List (Moment RecordType DNSClass Heap), releases.Sublist done →
    (∀ s ∈ releases, ∃ now, s.Releases k now) → Failed k releases.length c

theorem CountsFailures.step {done : List (Moment RecordType DNSClass Heap)}
    (hCounts : CountsFailures k done s.before) (hA : env.alloc.Lawful) (h : Sound env s.before)
    (hRun : apply env s.before s.op = .ok (s.out, s.after)) (hKeep : ¬ s.Renews k) :
    CountsFailures k (done ++ [s]) s.after := by
  intro releases hSub hEach
  obtain ⟨first, last, rfl, hFirst, hLast⟩ := List.sublist_append_iff.mp hSub
  have hFailed := hCounts first hFirst fun s hs => hEach s (List.mem_append_left _ hs)
  rcases List.sublist_singleton.mp hLast with rfl | rfl
  · rw [List.append_nil]
    exact Moment.keeps_failed hA h hRun hKeep hFailed
  · obtain ⟨now, hReleases⟩ := hEach s (List.mem_append_right _ List.mem_cons_self)
    rw [List.length_append, List.length_singleton]
    exact fun i n hn => (hReleases.waits hA h hRun hFailed i n hn).1

/-! ## The requests of a scan -/

/-- The request stored under the key. -/
def requestOf (log : List (CacheEvent RecordType DNSClass)) (k : Key RecordType DNSClass) : Bytes :=
  ((current log k).map Record.request).getD []

theorem Picked.requests_eq {st st' : CacheState RecordType DNSClass Heap} {l picked : List Nat}
    {now : Nat} {requests : List Bytes} (h : Inv env st l) (hPicked : Picked st now picked requests st') :
    requests = (picked.filterMap st.keyAt).map (requestOf st.log) := by
  have hRequest := hPicked.request
  clear hPicked
  induction hRequest with
  | nil => rfl
  | cons hFirst _ ih =>
    obtain ⟨m, hm, rfl⟩ := hFirst
    rw [List.filterMap_cons_some (keyAt_eq_some.mpr ⟨m, hm, rfl⟩), List.map_cons, ← ih, requestOf,
      h.stored hm]
    rfl

/-- **What a scan returns** are the requests of the keys that it hands out, once each. -/
theorem scan_returns (hA : env.alloc.Lawful) (h : Sound env s.before)
    (hRun : apply env s.before s.op = .ok (s.out, s.after)) {budget t : Nat}
    {requests : List Bytes} (hOp : s.op = .candidates budget t) (hOut : s.out = .requests requests) :
    ∃ keys : List (Key RecordType DNSClass), keys.Nodup ∧ (∀ k, k ∈ keys ↔ s.Returns k t) ∧
      requests = keys.map (requestOf s.before.state.log) := by
  obtain ⟨l, hInv⟩ := h.inv
  rw [hOp, hOut] at hRun
  obtain ⟨⟨list, c₁⟩, hScan, hEnd⟩ := bind_eq_ok.mp hRun
  simp only [pure, Except.pure, Except.ok.injEq, Prod.mk.injEq, Output.requests.injEq] at hEnd
  obtain ⟨rfl, rfl⟩ := hEnd
  obtain ⟨picked, hPicked⟩ := refreshCandidates_picked hA h hScan
  refine ⟨picked.filterMap s.before.state.keyAt, ?_, fun k => ?_, ?_⟩
  · exact hPicked.nodup.filterMap fun a b key ha hb => hInv.distinct a b key ha hb
  · rw [List.mem_filterMap]
    constructor
    · rintro ⟨j, hj, hKey⟩
      obtain ⟨m, hash, hm, hIs⟩ := hPicked.candidate j hj
      obtain ⟨m', hm', hKey⟩ := keyAt_eq_some.mp hKey
      rw [hm] at hm'
      cases hm'
      refine .inr ⟨budget, _, hOp, hOut, fun hClaimed => ?_, j, { m with refreshClaimed := true }, ?_,
        by rw [hPicked.pool]; exact hKey, rfl⟩
      · obtain ⟨n, ⟨i, hn⟩, hSet⟩ := claimed_iff.mp hClaimed
        obtain ⟨-, rfl⟩ := h.noted_unique hn ⟨m, hm, hKey, rfl⟩
        rw [(isCandidate_notes hIs).1.1] at hSet
        cases hSet
      · rw [hPicked.view, if_pos hj, hm]
        rfl
    · rintro (⟨wire, stale, hGet, -⟩ | ⟨-, -, -, -, hFree, hClaimed⟩)
      · rw [hOp] at hGet
        cases hGet
      · obtain ⟨n, ⟨i, hn⟩, hSet⟩ := claimed_iff.mp hClaimed
        rcases hPicked.noted hn with ⟨hPick, n₀, hOld, -⟩ | ⟨-, hOld⟩
        · obtain ⟨m, hm, hKey, -⟩ := hOld
          exact ⟨i, hPick, keyAt_eq_some.mpr ⟨m, hm, hKey⟩⟩
        · exact absurd (claimed_iff.mpr ⟨n, hOld.noted, hSet⟩) hFree
  · exact hPicked.requests_eq hInv

/-! ## Claims over a run -/

section Reachable

variable {enabled : Bool} {maxSizeBytes : Nat}

/-- An entry that was handed out is handed out again only after its claim was cleared. -/
theorem returns_once (hA : env.alloc.Lawful) (h : Sound env c)
    {past between : List (Moment RecordType DNSClass Heap)} {a b : Moment RecordType DNSClass Heap}
    {t t' : Nat} (hRun : moments env c ops = .ok (past ++ a :: (between ++ b :: rest)))
    (ha : a.Returns k t) (hb : b.Returns k t') : ∃ s ∈ between, s.Clears k := by
  by_contra hNone
  obtain ⟨ops₁, c₁, -, h₁, hRun₁⟩ := moments_sound hA h hRun
  obtain ⟨ops₂, -, rfl, hApply, hRun₂⟩ := moments_cons hRun₁
  obtain ⟨hClaimed, -⟩ := ha.due hA h₁ hApply
  -- the claim outlives every call in between
  obtain ⟨ops₃, c₃, -, h₃, hClaimed₃, hRun₃⟩ := moments_carry (I := fun _ c => Claimed c k)
    (P := fun s => ¬ s.Clears k) hA
    (fun _ s hSound hApply hKeep hClaim => Moment.keeps_claim hA hSound hApply hClaim hKeep) []
    (h₁.call hA a.op hApply).1 hClaimed (fun s hs hClears => hNone ⟨s, hs, hClears⟩) hRun₂
  obtain ⟨ops₄, -, rfl, hApply', -⟩ := moments_cons hRun₃
  obtain ⟨-, i, n, hn, hDue⟩ := hb.due hA h₃ hApply'
  obtain ⟨n', ⟨i', hn'⟩, hSet⟩ := claimed_iff.mp hClaimed₃
  obtain ⟨-, rfl⟩ := h₃.noted_unique hn hn'
  rw [hDue.1] at hSet
  cases hSet

/-- After failed refreshes of one generation, an entry is not handed out before the backoff
is over. -/
theorem returns_late (hA : env.alloc.Lawful) (h : Sound env c) (hClock : Clocked ops)
    {past during later releases : List (Moment RecordType DNSClass Heap)}
    {r b : Moment RecordType DNSClass Heap} {since t : Nat}
    (hRun : moments env c ops = .ok (past ++ (during ++ r :: (later ++ b :: rest))))
    (hKeep : ∀ s ∈ during ++ r :: later, ¬ s.Renews k) (hSub : releases.Sublist during)
    (hReleases : ∀ s ∈ releases, ∃ now, s.Releases k now) (hr : r.Releases k since)
    (hb : b.Returns k t) : since + backoff (releases.length + 1) ≤ t := by
  obtain ⟨ops₁, c₁, rfl, h₁, hRun₁⟩ := moments_sound hA h hRun
  -- every release that found the claim set has left a failure
  obtain ⟨ops₂, c₂, rfl, h₂, hFailed, hRun₂⟩ := moments_carry (I := CountsFailures k)
    (P := fun s => ¬ s.Renews k) hA
    (fun done s hSound hApply hKeep hCounts => hCounts.step hA hSound hApply hKeep) [] h₁
    (fun releases hSub _ => by
      rw [List.sublist_nil.mp hSub]
      exact fun i n _ => Nat.zero_le _)
    (fun s hs => hKeep s (List.mem_append_left _ hs)) hRun₁
  obtain ⟨ops₃, rfl, rfl, hApply, hRun₃⟩ := moments_cons hRun₂
  have hWaits := hr.waits hA h₂ hApply (hFailed releases hSub hReleases)
  -- and after the last one nothing shortens the wait
  have hLater : ∀ s ∈ later, ¬ s.Renews k ∧ ∀ t ∈ s.op.readings, since ≤ t := by
    intro s hs
    refine ⟨hKeep s (List.mem_append_right _ (List.mem_cons_of_mem _ hs)), fun t ht => ?_⟩
    obtain ⟨ops₄, -, rfl, -⟩ := moments_sound hA (h₂.call hA r.op hApply).1 hRun₃
    rw [← List.append_assoc] at hClock
    refine hClock.le_later (show since ∈ r.op.readings by rw [hr.1]; exact List.mem_cons_self)
      (List.mem_append_left _ (List.mem_map_of_mem hs)) ht
  obtain ⟨ops₄, c₄, -, h₄, hWaits₄, hRun₄⟩ := moments_carry
    (I := fun _ c => Waits k (releases.length + 1) since c)
    (P := fun s => ¬ s.Renews k ∧ ∀ t ∈ s.op.readings, since ≤ t) hA
    (fun _ s hSound hApply hStays hWaits =>
      Moment.keeps_waits hA hSound hApply hStays.1 hStays.2 hWaits) []
    (h₂.call hA r.op hApply).1 hWaits hLater hRun₃
  obtain ⟨ops₅, -, rfl, hApply', -⟩ := moments_cons hRun₄
  obtain ⟨-, i, n, hn, hDue⟩ := hb.due hA h₄ hApply'
  exact (hWaits₄ i n hn).2.trans hDue.2

/-- **Refresh claims** are exclusive and backed off. What a scan returns are the requests of
the keys it hands out, once each; between two calls that hand out a key there is one that
clears its claim; and after releases of one generation that found the claim set, the key
is not handed out before the backoff is over, counted from the last of them. -/
theorem refresh_claims (hA : env.alloc.Lawful)
    (hMax : enabled = true → maxSizeBytes ≤ maxCacheBytes) (hClock : Clocked ops)
    (hRun : moments env (ResponseCache.new env enabled maxSizeBytes) ops = .ok ms) :
    (∀ s ∈ ms, ∀ budget t requests, s.op = .candidates budget t → s.out = .requests requests →
      ∃ keys : List (Key RecordType DNSClass), keys.Nodup ∧ (∀ k, k ∈ keys ↔ s.Returns k t) ∧
        requests = keys.map (requestOf s.before.state.log)) ∧
    (∀ k past a between b rest t t', ms = past ++ a :: (between ++ b :: rest) →
      a.Returns k t → b.Returns k t' → ∃ s ∈ between, s.Clears k) ∧
    ∀ k past during r later b rest (releases : List (Moment RecordType DNSClass Heap)) since t,
      ms = past ++ (during ++ r :: (later ++ b :: rest)) →
      (∀ s ∈ during ++ r :: later, ¬ s.Renews k) → releases.Sublist during →
      (∀ s ∈ releases, ∃ now, s.Releases k now) → r.Releases k since → b.Returns k t →
        since + 500 * 2 ^ min (releases.length + 1) 5 * millisecond ≤ t := by
  have hNew := new_sound hA hMax
  refine ⟨fun s hs budget t requests hOp hOut => ?_, ?_, ?_⟩
  · obtain ⟨past, rest, rfl⟩ := List.append_of_mem hs
    obtain ⟨ops₁, c₁, -, h₁, hRun₁⟩ := moments_sound hA hNew hRun
    obtain ⟨ops₂, -, rfl, hApply, -⟩ := moments_cons hRun₁
    exact scan_returns hA h₁ hApply hOp hOut
  · rintro k past a between b rest t t' rfl ha hb
    exact returns_once hA hNew hRun ha hb
  · rintro k past during r later b rest releases since t rfl hKeep hSub hReleases hr hb
    exact returns_late hA hNew hClock hRun hKeep hSub hReleases hr hb

end Reachable

/-- A response that is looked up shortly before it expires, whose refresh fails, and that is
looked up again. -/
def retryOps : List (Op Nat Nat) :=
  [.insert keyA 10 (oneAnswer 1 10 []) [1] 0 0 0, .get keyA 9500000000, .release keyA 9600000000,
    .get keyA (11 * second)]

/-- Both lookups hand the response out, the second one more than a second after the release. -/
theorem refresh_claims_retry :
    ∃ past a r b, moments collidingEnv (ResponseCache.new collidingEnv true 128) retryOps =
        .ok (past ++ a :: ([r] ++ [b])) ∧
      a.Returns keyA 9500000000 ∧ r.Releases keyA 9600000000 ∧ b.Returns keyA (11 * second) ∧
      r.Clears keyA ∧ 9600000000 + 500 * 2 ^ 1 * millisecond ≤ 11 * second := by
  obtain ⟨ms, hRun, hOps, hOuts⟩ := moments_of_outs
    (show (moments collidingEnv (ResponseCache.new collidingEnv true 128) retryOps).toOption.map
      (List.map Moment.out) = some [.inserted true, .got (some (oneAnswer 1 1 [], true, false)),
        .released, .got (some (oneAnswer 1 0 [], true, true))] by decide +kernel)
  obtain ⟨i, ms, rfl, -, hOuts⟩ := List.map_eq_cons_iff.mp hOuts
  obtain ⟨a, ms, rfl, haOut, hOuts⟩ := List.map_eq_cons_iff.mp hOuts
  obtain ⟨r, ms, rfl, hrOut, hOuts⟩ := List.map_eq_cons_iff.mp hOuts
  obtain ⟨b, ms, rfl, hbOut, hOuts⟩ := List.map_eq_cons_iff.mp hOuts
  obtain rfl := List.map_eq_nil_iff.mp hOuts
  simp only [List.map_cons, List.map_nil, retryOps, List.cons.injEq, and_true] at hOps
  obtain ⟨-, haOp, hrOp, hbOp⟩ := hOps
  have ha : a.Returns keyA 9500000000 := .inl ⟨_, _, haOp, haOut⟩
  have hb : b.Returns keyA (11 * second) := .inl ⟨_, _, hbOp, hbOut⟩
  have hA : collidingEnv.alloc.Lawful := FirstFit.allocator_lawful
  have hMax : true = true → 128 ≤ maxCacheBytes := fun _ => by decide
  -- the release finds the claim of the first lookup
  obtain ⟨ops₁, -, hFirst, hApply, hRun₁⟩ := moments_cons hRun
  have h₁ : Sound collidingEnv i.after :=
    ((hFirst ▸ new_sound hA hMax : Sound collidingEnv i.before).call hA i.op hApply).1
  obtain ⟨ops₂, -, hSecond, hApply, hRun₂⟩ := moments_cons hRun₁
  rw [← hSecond] at h₁
  obtain ⟨ops₃, -, hBefore, hApply', -⟩ := moments_cons hRun₂
  have hr : r.Releases keyA 9600000000 := ⟨hrOp, hBefore ▸ (ha.due hA h₁ hApply).1⟩
  have hKeep : ¬ r.Renews keyA := by
    have hSound : Sound collidingEnv r.before := hBefore ▸ (h₁.call hA a.op hApply).1
    obtain ⟨-, hExplains⟩ := Moment.events_spec hA hSound hApply'
    rw [hrOp, hrOut] at hExplains
    rintro (hStores | ⟨reason, hMem⟩)
    · rw [Moment.Stores, hrOp] at hStores
      cases hStores
    · rw [show r.events = [] from hExplains] at hMem
      cases hMem
  have hClock : Clocked retryOps := clocked_of_waits (by decide) (by decide)
  obtain ⟨-, hOnce, hLate⟩ := refresh_claims hA hMax hClock hRun
  obtain ⟨s, hs, hClears⟩ := hOnce keyA [i] a [r] b [] _ _ rfl ha hb
  rw [List.mem_singleton.mp hs] at hClears
  refine ⟨[i], a, r, b, hRun, ha, hr, hb, hClears, ?_⟩
  exact hLate keyA [i, a] [] r [] b [] [] _ _ rfl
    (fun s hs => by rw [List.mem_singleton.mp hs]; exact hKeep) (List.Sublist.refl _)
    (fun s hs => by cases hs) hr hb

/-! ## Idle names -/

/-- The last use that is noted of an entry was a lookup. -/
def LookedUp (k : Key RecordType DNSClass) (done : List (Moment RecordType DNSClass Heap))
    (c : ResponseCache RecordType DNSClass Heap) : Prop :=
  ∀ i n, NotedAt c.state i k n → n.reused = true →
    ∃ s ∈ done, ∃ found, s.op = .get k n.lastUsed ∧ s.out = .got (some found)

/-- Only a hit changes the last use of an entry that stays. -/
theorem Noting.used (h : Noting env k n n' op out) :
    (n'.lastUsed = n.lastUsed ∧ n'.reused = n.reused) ∨
      ∃ found, op = .get k n'.lastUsed ∧ out = .got (some found) := by
  unfold Noting at h
  split at h
  · split at h
    · subst_vars
      rw [h.1]
      exact .inr ⟨_, rfl, rfl⟩
    · exact .inl (by rw [h]; exact ⟨rfl, rfl⟩)
  · rw [h]
    split
    · rw [Notes.release]
      split
      · exact .inl ⟨rfl, rfl⟩
      · exact .inl ⟨rfl, rfl⟩
    · exact .inl ⟨rfl, rfl⟩
  · rcases h with rfl | ⟨rfl, -⟩
    · exact .inl ⟨rfl, rfl⟩
    · exact .inl ⟨rfl, rfl⟩
  · exact .inl (by rw [h]; exact ⟨rfl, rfl⟩)

/-- **One call.** A refresh carries the last use over, and an insert after an eviction starts
without one. -/
theorem LookedUp.step {done : List (Moment RecordType DNSClass Heap)}
    (hUsed : LookedUp k done s.before) (hA : env.alloc.Lawful) (h : Sound env s.before)
    (hRun : apply env s.before s.op = .ok (s.out, s.after)) : LookedUp k (done ++ [s]) s.after := by
  have hEarlier : ∀ {t : Nat},
      (∃ s' ∈ done, ∃ found, s'.op = .get k t ∧ s'.out = .got (some found)) →
        ∃ s' ∈ done ++ [s], ∃ found, s'.op = .get k t ∧ s'.out = .got (some found) := by
    rintro t ⟨s', hs', hHit⟩
    exact ⟨s', List.mem_append_left _ hs', hHit⟩
  intro i n' hn' hReused
  rcases apply_noted hA h hRun hn' with ⟨-, storedAt, lastUsed, reused, rfl, hOld⟩ | ⟨n, hn, hNoting⟩
  · obtain ⟨n₀, ⟨i₀, hn₀⟩, rfl, hReused₀⟩ := hOld hReused
    exact hEarlier (hUsed i₀ n₀ hn₀ hReused₀)
  · rcases hNoting.used with ⟨hLast, hSame⟩ | ⟨found, hHit⟩
    · rw [hLast]
      exact hEarlier (hUsed i n hn (hSame.symm.trans hReused))
    · exact ⟨s, List.mem_append_right _ List.mem_cons_self, found, hHit⟩

/-- **Idle names** are not refreshed in the background. What a scan returns are the requests
of keys that were looked up, and hit, less than 300 seconds before. -/
theorem candidates_looked_up (hA : env.alloc.Lawful) {enabled : Bool} {maxSizeBytes : Nat}
    (hMax : enabled = true → maxSizeBytes ≤ maxCacheBytes) (hClock : Clocked ops)
    {past : List (Moment RecordType DNSClass Heap)}
    (hRun : moments env (ResponseCache.new env enabled maxSizeBytes) ops = .ok (past ++ s :: rest))
    {budget t : Nat} {requests : List Bytes} (hOp : s.op = .candidates budget t)
    (hOut : s.out = .requests requests) :
    ∃ keys : List (Key RecordType DNSClass), keys.Nodup ∧ (∀ k, k ∈ keys ↔ s.Returns k t) ∧
      requests = keys.map (requestOf s.before.state.log) ∧
      ∀ k ∈ keys, ∃ s' ∈ past, ∃ g found, s'.op = .get k g ∧ s'.out = .got (some found) ∧
        g ≤ t ∧ t - g < 300 * second := by
  have hStart : ∀ k, LookedUp k [] (ResponseCache.new env enabled maxSizeBytes) := by
    rintro k i n ⟨m, hm, -⟩
    cases hm
  have hLookedUp := fun k => moments_carry (I := LookedUp k) (P := fun _ => True) hA
    (fun done s hSound hApply _ hUsed => hUsed.step hA hSound hApply) [] (new_sound hA hMax)
    (hStart k) (fun _ _ => trivial) hRun
  obtain ⟨ops₁, c₁, hOps, h₁, hRun₁⟩ := moments_sound hA (new_sound hA hMax) hRun
  obtain ⟨ops₂, rfl, rfl, hApply, -⟩ := moments_cons hRun₁
  obtain ⟨keys, hNodup, hKeys, hRequests⟩ := scan_returns hA h₁ hApply hOp hOut
  refine ⟨keys, hNodup, hKeys, hRequests, fun k hk => ?_⟩
  rcases (hKeys k).mp hk with ⟨wire, stale, hGet, -⟩ | ⟨-, -, -, -, hFree, hClaimed⟩
  · rw [hOp] at hGet
    cases hGet
  obtain ⟨i, n, hn, -, hReused, hIdle⟩ := Moment.scanned hA h₁ hApply hOp hFree hClaimed
  obtain ⟨ops₃, c₃, -, -, hUsed, hRun₃⟩ := hLookedUp k
  obtain ⟨-, -, rfl, -⟩ := moments_cons hRun₃
  obtain ⟨s', hs', found, hGet, hGot⟩ := hUsed i n hn hReused
  refine ⟨s', hs', n.lastUsed, found, hGet, hGot, ?_, hIdle⟩
  -- the lookup came before the scan
  obtain ⟨first, last, rfl⟩ := List.append_of_mem hs'
  rw [hOps, List.map_append, List.map_cons, List.append_assoc, List.cons_append] at hClock
  refine hClock.le_later (show n.lastUsed ∈ s'.op.readings by rw [hGet]; exact List.mem_cons_self)
    (List.mem_append_right _ List.mem_cons_self) ?_
  rw [hOp]
  exact List.mem_cons_self

/-- A response that is looked up once, and refreshed in the background when it is about to
expire. -/
def prefetchOps : List (Op Nat Nat) :=
  [.insert keyA 10 (oneAnswer 1 10 []) [1] 0 0 0, .get keyA second, .candidates 5 9700000000]

theorem candidates_looked_up_prefetch :
    ∃ past s, moments collidingEnv (ResponseCache.new collidingEnv true 128) prefetchOps =
        .ok (past ++ [s]) ∧ s.out = .requests [[1]] ∧
      ∃ keys : List (Key Nat Nat), keys.Nodup ∧ (∀ k, k ∈ keys ↔ s.Returns k 9700000000) ∧
        [[1]] = keys.map (requestOf s.before.state.log) ∧
        ∀ k ∈ keys, ∃ s' ∈ past, ∃ g found, s'.op = .get k g ∧ s'.out = .got (some found) ∧
          g ≤ 9700000000 ∧ 9700000000 - g < 300 * second := by
  obtain ⟨ms, hRun, hOps, hOuts⟩ := moments_of_outs
    (show (moments collidingEnv (ResponseCache.new collidingEnv true 128) prefetchOps).toOption.map
      (List.map Moment.out) = some [.inserted true, .got (some (oneAnswer 1 9 [], false, false)),
        .requests [[1]]] by decide +kernel)
  obtain ⟨i, ms, rfl, -, hOuts⟩ := List.map_eq_cons_iff.mp hOuts
  obtain ⟨g, ms, rfl, -, hOuts⟩ := List.map_eq_cons_iff.mp hOuts
  obtain ⟨s, ms, rfl, hOut, hOuts⟩ := List.map_eq_cons_iff.mp hOuts
  obtain rfl := List.map_eq_nil_iff.mp hOuts
  simp only [List.map_cons, List.map_nil, prefetchOps, List.cons.injEq, and_true] at hOps
  have hClock : Clocked prefetchOps := clocked_of_waits (by decide) (by decide)
  exact ⟨[i, g], s, hRun, hOut, candidates_looked_up FirstFit.allocator_lawful
    (fun _ => show 128 ≤ maxCacheBytes by decide) hClock
    (show moments collidingEnv _ prefetchOps = .ok ([i, g] ++ s :: []) from hRun) hOps.2.2 hOut⟩

end DnsRs.Cache
