import DnsRs.Handler.Provenance
import DnsRs.Handler.Requests

/-!
# Every claim has a claimer

A lookup and the timer claim entries for a refresh, and a claimed entry is not
refreshed again until its claim is gone. `Task.Claims key` says that a task has
still to release the claim on `key`: a call of `spawn_refresh`, the refresh it
spawned, or the timer with the candidates it has not come to yet.

`claims_have_claimers`: unless a refresh is aborted, each claimed entry has such
a task. An entry may be evicted and stored again while its refresh is under way;
then it has a claimer without being claimed, never the other way round.
-/

namespace DnsRs.Handler

open Lib Wire Cache InFlight

variable {RecordType DNSClass Heap : Type} {rr : RrFrom RecordType DNSClass}

/-! ## Claimers -/

/-- The key is that of a request in the list. -/
def Pending (rr : RrFrom RecordType DNSClass) (key : Key RecordType DNSClass)
    (requests : List Bytes) : Prop :=
  ∃ q : Request rr, q.raw ∈ requests ∧ q.key = key

def Caller.Claims (rr : RrFrom RecordType DNSClass) (key : Key RecordType DNSClass) :
    Caller → Prop
  | .client _ _ => False
  | .timer rest => Pending rr key rest

/-- The task has not released the claim on the key for the last time. -/
def Task.Claims (key : Key RecordType DNSClass) : Task rr → Prop
  | .spawning q progress caller =>
    (q.key = key ∧ progress ≠ .dropPermit) ∨ caller.Claims rr key
  | .inFlight q role _ => role = .refresh ∧ q.key = key
  | .releasing q => q.key = key
  | .timing rest => Pending rr key rest
  | .idle | .missed _ | .replying _ _ _ | .leaving | .scanning _ => False

section Tasks

variable {key : Key RecordType DNSClass} {q : Request rr}

theorem Caller.claims_resume {caller : Caller} (h : caller.Claims rr key) :
    (caller.resume q).Claims key := by
  cases caller with
  | client cached path => exact h.elim
  | timer rest => exact h

/-- The release comes after the fetch. -/
theorem Role.claims_resume {role : Role} (h : role = .refresh ∧ q.key = key) (wire : Bytes) :
    (role.resume q wire).Claims key := by
  obtain ⟨rfl, hKey⟩ := h
  exact hKey

end Tasks

/-! ## The invariant -/

variable [DecidableEq RecordType] [DecidableEq DNSClass] {sys : System RecordType DNSClass Heap}
  {s u : State sys.rr Heap}

/-- Every claimed entry has a claimer. -/
def HasClaimer (cache : ResponseCache RecordType DNSClass Heap) (tasks : Nat → Task rr) : Prop :=
  ∀ key, Claimed cache key → ∃ t, (tasks t).Claims key

omit [DecidableEq RecordType] [DecidableEq DNSClass] in
/-- One task moves on, with or without a call of the cache: what is newly claimed
is claimed by this task, and what it gives up is no longer claimed or has
another claimer. -/
theorem HasClaimer.update {cache cache' : ResponseCache RecordType DNSClass Heap}
    {tasks : Nat → Task rr} (h : HasClaimer cache tasks) {t : Nat} {task task' : Task rr}
    (ht : tasks t = task) (hNew : ∀ key, Claimed cache' key → Claimed cache key ∨ task'.Claims key)
    (hKept : ∀ key, Claimed cache' key → task.Claims key →
      task'.Claims key ∨ ∃ t' ≠ t, (tasks t').Claims key) :
    HasClaimer cache' (Function.update tasks t task') := by
  intro key hClaimed
  have hSelf : task'.Claims key → ∃ t', (Function.update tasks t task' t').Claims key :=
    fun hTask => ⟨t, by rwa [Function.update_self]⟩
  have hOther : ∀ t' ≠ t, (tasks t').Claims key →
      ∃ t', (Function.update tasks t task' t').Claims key :=
    fun t' hne hTask => ⟨t', by rwa [Function.update_of_ne hne]⟩
  rcases hNew key hClaimed with hOld | hTask
  · obtain ⟨t', ht'⟩ := h key hOld
    by_cases hEq : t' = t
    · subst hEq
      rw [ht] at ht'
      rcases hKept key hClaimed ht' with hTask | ⟨t'', hne, hTask⟩
      · exact hSelf hTask
      · exact hOther t'' hne hTask
    · exact hOther t' hEq ht'
  · exact hSelf hTask

omit [DecidableEq RecordType] [DecidableEq DNSClass] in
/-- The task moves on and keeps the claims it has. -/
theorem HasClaimer.advance {cache : ResponseCache RecordType DNSClass Heap}
    {tasks : Nat → Task rr} (h : HasClaimer cache tasks) {t : Nat} {task task' : Task rr}
    (ht : tasks t = task) (hKept : ∀ key, task.Claims key → task'.Claims key) :
    HasClaimer cache (Function.update tasks t task') :=
  h.update ht (fun _ hOld => .inl hOld) fun key _ hTask => .inl (hKept key hTask)

/-- No refresh is dropped before it has released its claim. -/
def NotAborted (s : State sys.rr Heap) (label : Label) : Prop :=
  ∀ t, label = .cancel t → ∀ q flight, s.tasks t ≠ .inFlight q .refresh flight

/-- **One step.** -/
theorem HasClaimer.moves (hA : sys.env.alloc.Lawful) (hServes : Serves (fun _ => True) s)
    (h : HasClaimer s.cache s.tasks) {label : Label} (hGuard : NotAborted s label)
    (hMove : Moves s label u) : HasClaimer u.cache u.tasks := by
  have hSound := hServes.cache.sound
  -- a client that is dropped gives up no claim
  have hCancel : ∀ {t q role flight}, label = .cancel t → s.tasks t = .inFlight q role flight →
      HasClaimer s.cache (Function.update s.tasks t role.cancelled) := by
    intro t q role flight hLabel ht
    refine h.advance ht ?_
    rintro key ⟨rfl, -⟩
    exact absurd ht (hGuard t hLabel q flight)
  cases hMove with
  | crash hFaults => exact h
  | swap blocked => exact h
  | malformed ht | static ht | enterDirect ht | enterShared ht | enterFresh ht | initialise ht
  | wake ht | resolved ht | publish ht =>
    exact h.advance ht fun _ => id
  | lookupMiss ht hHost hGet | lookupHit ht hHost hGet =>
    refine h.update ht (fun key hClaimed => ?_) fun _ _ => False.elim
    rcases Claimed.of_get hA hSound hGet hClaimed with hOld | ⟨-, wire, stale, hFound⟩
    · exact .inl hOld
    · cases hFound
  | lookupRefresh ht hHost hGet =>
    refine h.update ht (fun key hClaimed => ?_) fun _ _ => False.elim
    rcases Claimed.of_get hA hSound hGet hClaimed with hOld | ⟨hKey, -⟩
    · exact .inl hOld
    · exact .inr (.inl ⟨hKey.symm, nofun⟩)
  | reply ht | missBlocked ht | missAllowed ht | leave ht | tick ht =>
    exact h.advance ht fun _ => False.elim
  | permitDenied ht | permitTaken ht | refreshBlocked ht =>
    exact h.advance ht fun key hTask => hTask.imp_left fun hKey => ⟨hKey.1, nofun⟩
  | @refreshSpawned t child q caller ht hChild hBlocked =>
    have hne : child ≠ t := by
      rintro rfl
      rw [ht] at hChild
      cases hChild
    have hSpawned : HasClaimer s.cache
        (Function.update s.tasks child (.inFlight q .refresh .entering)) :=
      h.advance hChild fun _ => False.elim
    have hSpawner : Function.update s.tasks child (.inFlight q .refresh .entering) t =
        .spawning q .blocklist caller := by
      rw [Function.update_of_ne hne.symm, ht]
    -- the claim passes from the call to the task it has spawned
    refine hSpawned.update hSpawner (fun _ hOld => .inl hOld) ?_
    rintro key - (⟨hKey, -⟩ | hCaller)
    · exact .inr ⟨child, hne, by rw [Function.update_self]; exact ⟨rfl, hKey⟩⟩
    · exact .inl (Caller.claims_resume hCaller)
  | @spawnReleased t now q caller permit cache ht hRelease =>
    refine h.update ht (fun key hClaimed => .inl (hClaimed.of_release hA hSound hRelease).2) ?_
    rintro key hClaimed (⟨hKey, -⟩ | hCaller)
    · exact absurd hKey.symm (hClaimed.of_release hA hSound hRelease).1
    · cases permit with
      | true => exact .inl (.inr hCaller)
      | false => exact .inl (Caller.claims_resume hCaller)
  | spawnDropped ht =>
    refine h.advance ht ?_
    rintro key (⟨-, hProgress⟩ | hCaller)
    · exact absurd rfl hProgress
    · exact Caller.claims_resume hCaller
  | stored ht hTtl hInsert =>
    exact h.update ht (fun _ hClaimed => .inl (hClaimed.of_insert hA hSound hInsert))
      fun _ _ => .inl
  | uncached ht hTtl hRelease | failed ht hRelease =>
    exact h.update ht (fun _ hClaimed => .inl (hClaimed.of_release hA hSound hRelease).2)
      fun _ _ => .inl
  | publishDirect ht | remove ht => exact h.advance ht fun _ hTask => Role.claims_resume hTask _
  | release ht hRelease =>
    refine h.update ht (fun _ hClaimed => .inl (hClaimed.of_release hA hSound hRelease).2) ?_
    intro key hClaimed hKey
    exact absurd hKey.symm (hClaimed.of_release hA hSound hRelease).1
  | cancelWaiting ht | cancelDirect ht | cancelFetching ht => exact hCancel rfl ht
  | scan ht hScan =>
    refine h.update ht (fun key hClaimed => ?_) fun _ _ => False.elim
    rcases hClaimed.of_candidates hA hSound hScan with hOld | ⟨record, hCurrent, hMem⟩
    · exact .inl hOld
    · -- the stored request has the key of its entry
      obtain ⟨q, -, hKey, hRaw⟩ := hServes.cache.only key record hCurrent
      exact .inr ⟨q, hRaw ▸ hMem, hKey⟩
  | timerDone ht =>
    refine h.advance ht ?_
    rintro key ⟨q, hMem, -⟩
    cases hMem
  | @timerSkip t request rest ht hParse =>
    refine h.advance ht ?_
    rintro key ⟨q, hMem, hKey⟩
    -- a request that parses is not skipped
    rcases List.mem_cons.mp hMem with rfl | hMem
    · rw [parseRequest_raw] at hParse
      cases hParse
    · exact ⟨q, hMem, hKey⟩
  | @timerSpawn t q rest ht =>
    refine h.advance ht ?_
    rintro key ⟨q', hMem, hKey⟩
    rcases List.mem_cons.mp hMem with hRaw | hMem
    · obtain rfl := Request.eq_of_raw hRaw
      exact .inl ⟨hKey, nofun⟩
    · exact .inr ⟨q', hMem, hKey⟩
  | sweep hSweep => exact fun key hClaimed => h key (hClaimed.of_sweep hA hSound hSweep)

/-- **Whole runs.** -/
theorem run_hasClaimer (hA : sys.env.alloc.Lawful) {enabled : Bool} {maxSizeBytes : Nat}
    (hMax : enabled = true → maxSizeBytes ≤ maxCacheBytes) {blocked : Bytes → Bool}
    {labels : List Label}
    (hGuard : Guarded (step sys) NotAborted (State.start sys enabled maxSizeBytes blocked) labels)
    (hRun : run (step sys) (State.start sys enabled maxSizeBytes blocked) labels = some s) :
    Serves (fun _ => True) s ∧ HasClaimer s.cache s.tasks := by
  have hStep : ∀ (s : State sys.rr Heap) (label : Label) (u : State sys.rr Heap),
      Serves (fun _ => True) s ∧ HasClaimer s.cache s.tasks → NotAborted s label →
      step sys s label = some u → Serves (fun _ => True) u ∧ HasClaimer u.cache u.tasks := by
    rintro s label u ⟨hServes, h⟩ hNot hu
    exact ⟨hServes.moves hA (fun _ _ _ _ _ => trivial) (step_moves hu),
      h.moves hA hServes hNot (step_moves hu)⟩
  refine run_invariant_guarded hStep ⟨serves_start hA hMax blocked, ?_⟩ hGuard hRun
  rintro key ⟨i, m, hm, -⟩
  cases hm

/-- The last release of a claimer clears the claim. -/
theorem released_unclaimed (hA : sys.env.alloc.Lawful) (hServes : Serves (fun _ => True) s)
    {q : Request sys.rr} {now : Nat} {cache : ResponseCache RecordType DNSClass Heap}
    (hRelease : s.cache.releaseRefreshClaimWithFlags sys.env q.key now = .ok cache) :
    ¬ Claimed cache q.key := fun hClaimed =>
  (hClaimed.of_release hA hServes.cache.sound hRelease).1 rfl

theorem Traced.release_unclaims {owner : Nat → Option (FlightKey RecordType DNSClass)}
    (h : Traced owner s) (hA : sys.env.alloc.Lawful) (hServes : Serves (fun _ => True) s)
    {t now : Nat} {q : Request sys.rr} (ht : s.tasks t = .releasing q)
    (hStep : step sys s (.release t now) = some u) : ¬ Claimed u.cache q.key := by
  cases step_moves hStep with
  | crash hFaults => exact absurd hFaults (h.no_faults hA)
  | release ht' hRelease =>
    rw [ht] at ht'
    cases ht'
    exact released_unclaimed hA hServes hRelease

theorem Traced.releaseSpawn_unclaims {owner : Nat → Option (FlightKey RecordType DNSClass)}
    (h : Traced owner s) (hA : sys.env.alloc.Lawful) (hServes : Serves (fun _ => True) s)
    {t now : Nat} {q : Request sys.rr} {permit : Bool} {caller : Caller}
    (ht : s.tasks t = .spawning q (.release permit) caller)
    (hStep : step sys s (.releaseSpawn t now) = some u) : ¬ Claimed u.cache q.key := by
  cases step_moves hStep with
  | crash hFaults => exact absurd hFaults (h.no_faults hA)
  | spawnReleased ht' hRelease =>
    rw [ht] at ht'
    cases ht'
    exact released_unclaimed hA hServes hRelease

/-- **No claim is ever stuck.** Whatever lookups, scans, refreshes, inserts,
evictions and releases do in whatever order, as long as no refresh is aborted:
nothing panics; each claimed entry has a task that has still to release it; so
when there is no such task no entry is claimed; and the release that ends a
refresh, or a call of `spawn_refresh` that spawned none, leaves its key
unclaimed. -/
theorem claims_have_claimers (hA : sys.env.alloc.Lawful) {enabled : Bool} {maxSizeBytes : Nat}
    (hMax : enabled = true → maxSizeBytes ≤ maxCacheBytes) {blocked : Bytes → Bool}
    {labels : List Label}
    (hGuard : Guarded (step sys) NotAborted (State.start sys enabled maxSizeBytes blocked) labels)
    (hRun : run (step sys) (State.start sys enabled maxSizeBytes blocked) labels = some s) :
    s.fault = none ∧
      (∀ key, Claimed s.cache key → ∃ t, (s.tasks t).Claims key) ∧
      ((∀ t key, ¬ (s.tasks t).Claims key) → ∀ key, ¬ Claimed s.cache key) ∧
      (∀ t q now u, s.tasks t = .releasing q → step sys s (.release t now) = some u →
        ¬ Claimed u.cache q.key) ∧
      ∀ t q permit caller now u, s.tasks t = .spawning q (.release permit) caller →
        step sys s (.releaseSpawn t now) = some u → ¬ Claimed u.cache q.key := by
  obtain ⟨owner, hTraced⟩ := run_traced hA hMax hRun
  obtain ⟨hServes, h⟩ := run_hasClaimer hA hMax hGuard hRun
  refine ⟨hTraced.alive, h, ?_, ?_, ?_⟩
  · intro hNone key hClaimed
    obtain ⟨t, ht⟩ := h key hClaimed
    exact hNone t key ht
  · intro t q now u ht hStep
    exact hTraced.release_unclaims hA hServes ht hStep
  · intro t q permit caller now u ht hStep
    exact hTraced.releaseSpawn_unclaims hA hServes ht hStep

/-- A client is answered from the cache 58 s after its fetch; the refresh that it
started is waiting for the upstream. -/
def refreshUnderWay : List Label :=
  [.query 0 (ask 1 0x61) 0, .checkMiss 0, .enter 0, .initialise 0, .resolved 0 (some told),
    .settle 0 0 0 0, .publish 0, .remove 0, .reply 0,
    .query 2 (ask 3 0x61) (58 * second), .tryPermit 2, .checkRefresh 2 5, .reply 2,
    .enter 5, .initialise 5]

theorem refreshUnderWay_claimed :
    ∃ s, run (step smallSystem) (State.start smallSystem true 128 fun _ => false) refreshUnderWay =
        some s ∧
      ∃ key, Claimed s.cache key ∧ ∃ t, (s.tasks t).Claims key := by
  have hEntries : (run (step smallSystem) (State.start smallSystem true 128 fun _ => false)
      refreshUnderWay).map (fun s => s.cache.state.entries.map fun e => e.map (·.refreshClaimed)) =
        some [some true] := by
    decide +kernel
  obtain ⟨s, hRun, hEq⟩ := Option.map_eq_some_iff.mp hEntries
  have hGuard : Guarded (step smallSystem) NotAborted
      (State.start smallSystem true 128 fun _ => false) refreshUnderWay := by
    refine guarded_iff_prefix.mpr fun before a after hLabels t _ t' hCancel => ?_
    have hMem : a ∈ refreshUnderWay := hLabels ▸ List.mem_append_right _ List.mem_cons_self
    subst hCancel
    simp [refreshUnderWay] at hMem
  obtain ⟨-, hClaimers, -⟩ :=
    claims_have_claimers FirstFit.allocator_lawful (fun _ => by decide) hGuard hRun
  -- the only entry of the slab is claimed
  obtain ⟨m, hm, hClaim⟩ : ∃ m, s.cache.state.live? 0 = some m ∧ m.refreshClaimed = true := by
    cases hSlab : s.cache.state.entries with
    | nil =>
      rw [hSlab] at hEq
      cases hEq
    | cons e rest =>
      rw [hSlab, List.map_cons, List.cons.injEq] at hEq
      obtain ⟨m, rfl, hClaim⟩ := Option.map_eq_some_iff.mp hEq.1
      exact ⟨m, by rw [CacheState.live?_eq_some, hSlab]; rfl, hClaim⟩
  exact ⟨s, hRun, _, ⟨0, m, hm, rfl, hClaim⟩, hClaimers _ ⟨0, m, hm, rfl, hClaim⟩⟩

end DnsRs.Handler
