import DnsRs.Handler.Claims

/-!
# Stored requests

With a response the cache keeps the request it was fetched for, so that the timer can
fetch it again. The key of the entry and the request take different ways there: both
come out of one parse in `handle_query` or `spawn_refresh`, the key is then passed on
as four arguments, and in the arena only lengths say where the request begins.

* `entry_parses_back` — what is stored parses to the key of its entry.
* `Works R` — the requests of refreshes meet `R`, from the claim to the release.
* `cached_requests_are_their_keys` — so the timer never passes over a candidate, and
  each refresh is for an entry that was claimed for it.
-/

namespace DnsRs.Handler

open Lib Wire Cache CacheState InFlight

variable {RecordType DNSClass Heap : Type} {rr : RrFrom RecordType DNSClass}
  [DecidableEq RecordType] [DecidableEq DNSClass] {sys : System RecordType DNSClass Heap}
  {s u : State sys.rr Heap}

/-! ## Entries -/

/-- The bytes of an entry's request: the last ones of its part of the arena. -/
def storedRequest (pool : Bytes) (m : EntryMeta RecordType DNSClass) : Bytes :=
  readAt pool (m.offset + m.totalLen - m.requestLen) m.requestLen

omit [DecidableEq RecordType] [DecidableEq DNSClass] in
theorem storedRequest_eq (pool : Bytes) (m : EntryMeta RecordType DNSClass) :
    storedRequest pool m = (contentOf pool m).request := by
  have hStart : m.offset + m.totalLen - m.requestLen = m.offset + m.nameLen + m.wireLen := by
    unfold EntryMeta.totalLen
    omega
  rw [storedRequest, hStart]
  rfl

/-- The request of an entry is one, with the entry's key. -/
theorem Serves.entry {R : Request sys.rr → Prop} (h : Serves R s) {i : Nat}
    {m : EntryMeta RecordType DNSClass} (hm : s.cache.state.live? i = some m) :
    ∃ q, R q ∧ q.key = keyOf s.cache.state.pool m ∧ q.raw = storedRequest s.cache.state.pool m := by
  obtain ⟨l, hInv⟩ := h.cache.sound.inv
  rw [storedRequest_eq]
  exact h.cache.only _ _ (hInv.stored hm)

/-- `parse_query` of these bytes yields this name, record type, class and flags. -/
def ParsesTo (rr : RrFrom RecordType DNSClass) (raw : Bytes) (key : Key RecordType DNSClass) :
    Prop :=
  ∃ query nameBuf, parseQuery rr raw emptyNameBuf = .ok (query, nameBuf) ∧
    nameBuf.take query.nameLen = key.name ∧ query.qtype = key.recordType ∧
    query.qclass = key.dnsClass ∧ cacheFlags query = key.flags

omit [DecidableEq RecordType] [DecidableEq DNSClass] in
theorem Request.parsesTo (q : Request rr) : ParsesTo rr q.raw q.key :=
  ⟨q.query, q.nameBuf, q.parsed, rfl, rfl, rfl, rfl⟩

/-- **Parsing back.** -/
theorem entry_parses_back (h : Serves (fun _ => True) s) {i : Nat}
    {m : EntryMeta RecordType DNSClass} (hm : s.cache.state.live? i = some m) :
    ParsesTo sys.rr (storedRequest s.cache.state.pool m) (keyOf s.cache.state.pool m) := by
  obtain ⟨q, -, hKey, hRaw⟩ := h.entry hm
  rw [← hKey, ← hRaw]
  exact q.parsesTo

/-- The timer parses what it was given. -/
theorem Serves.spawnNext (h : Serves (fun _ => True) s) (hAlive : s.fault = none) {t : Nat}
    {request : Bytes} {rest : List Bytes} (ht : s.tasks t = .timing (request :: rest)) :
    ∃ q : Request sys.rr, q.raw = request ∧
      step sys s (.spawnNext t) = some (s.goto t (.spawning q .permit (.timer rest))) := by
  have hList : ∀ raw ∈ request :: rest, Meets (fun _ : Request sys.rr => True) raw := h.task ht
  obtain ⟨q, rfl, -⟩ := hList request List.mem_cons_self
  refine ⟨q, rfl, ?_⟩
  simp only [step, hAlive, stepLive, ht, stepNext, parseRequest_raw]
  rfl

/-! ## Refreshes -/

/-- The request that a task refreshes. -/
def Task.refreshes? : Task rr → Option (Request rr)
  | .spawning q _ _ | .inFlight q .refresh _ | .releasing q => some q
  | _ => none

/-- The step claims the entry of this request for a refresh: for the client whose query it
is, or for the timer, which finds the request with the entry. -/
structure ClaimsFor (s : State sys.rr Heap) (label : Label) (q : Request sys.rr) : Prop where
  free : ¬ Claimed s.cache q.key
  claimed : ∃ u, step sys s label = some u ∧ Claimed u.cache q.key
  source : (∃ t now, label = .query t q.raw now) ∨
    ∃ t now i m, label = .scan t now ∧ s.cache.state.live? i = some m ∧
      keyOf s.cache.state.pool m = q.key ∧ storedRequest s.cache.state.pool m = q.raw

/-- The refreshes a task works on or has still to spawn are of requests that meet `R`. -/
def Task.Works (R : Request rr → Prop) : Task rr → Prop
  | .spawning q _ caller => R q ∧ caller.Serves R
  | .inFlight q role _ => role = .refresh → R q
  | .releasing q => R q
  | .timing rest => ∀ raw ∈ rest, Meets R raw
  | .idle | .missed _ | .replying _ _ _ | .leaving | .scanning _ => True

section Works

variable {R R' : Request rr → Prop} {q : Request rr}

omit [DecidableEq RecordType] [DecidableEq DNSClass]

theorem Task.Works.refreshes {task : Task rr} (h : task.Works R) (hq : task.refreshes? = some q) :
    R q := by
  unfold Task.refreshes? at hq
  split at hq
  · cases hq
    exact h.1
  · cases hq
    exact h rfl
  · cases hq
    exact h
  · cases hq

theorem Caller.Serves.mono {caller : Caller} (h : caller.Serves R) (hR : ∀ q, R q → R' q) :
    caller.Serves R' := by
  cases caller with
  | client cached path => trivial
  | timer rest =>
    intro raw hRaw
    obtain ⟨q, hq, hMeets⟩ := h raw hRaw
    exact ⟨q, hq, hR q hMeets⟩

theorem Task.Works.mono {task : Task rr} (h : task.Works R) (hR : ∀ q, R q → R' q) :
    task.Works R' := by
  cases task with
  | spawning q progress caller => exact ⟨hR q h.1, h.2.mono hR⟩
  | inFlight q role flight => exact fun hRole => hR q (h hRole)
  | releasing q => exact hR q h
  | timing rest =>
    have hTimer : (Caller.timer rest).Serves R := h
    exact hTimer.mono hR
  | idle | missed | replying | leaving | scanning => trivial

theorem Caller.works_resume {caller : Caller} (h : caller.Serves R) :
    (caller.resume q).Works R := by
  cases caller with
  | client cached path => trivial
  | timer rest => exact h

theorem Role.works_resume {role : Role} (h : role = .refresh → R q) (wire : Bytes) :
    (role.resume q wire).Works R := by
  cases role with
  | client => trivial
  | refresh => exact h rfl

theorem Role.works_cancelled (role : Role) : (role.cancelled : Task rr).Works R := by
  cases role with
  | client => trivial
  | refresh => trivial

theorem works_update {tasks : Nat → Task rr} (h : ∀ t, (tasks t).Works R) (t : Nat)
    {task : Task rr} (hTask : task.Works R) :
    ∀ t', (Function.update tasks t task t').Works R := by
  intro t'
  by_cases ht : t' = t
  · subst ht
    rwa [Function.update_self]
  · rw [Function.update_of_ne ht]
    exact h t'

end Works

/-- What a scan returns are requests that it claims entries for. -/
theorem claimsFor_scan (hA : sys.env.alloc.Lawful) (hServes : Serves (fun _ => True) s) {t now : Nat}
    {requests : List Bytes} {budget : Nat} {cache : ResponseCache RecordType DNSClass Heap}
    (hScan : s.cache.refreshCandidates budget now = .ok (requests, cache))
    (hStep : step sys s (.scan t now) =
      some ({ s with cache := cache }.goto t (.timing requests))) :
    ∀ raw ∈ requests, Meets (ClaimsFor s (.scan t now)) raw := by
  intro raw hRaw
  obtain ⟨i, m, hm, hRequest, hFree, hClaimed⟩ :=
    refreshCandidates_claims hA hServes.cache.sound hScan raw hRaw
  -- the stored request has the key of its entry
  obtain ⟨q, -, hKey, hStored⟩ := hServes.entry hm
  rw [← hKey] at hFree hClaimed
  refine ⟨q, ?_, hFree, ⟨_, hStep, hClaimed⟩, .inr ⟨t, now, i, m, rfl, hm, hKey.symm, hStored.symm⟩⟩
  rw [hStored, storedRequest_eq, hRequest]

/-- **One step.** A task comes to refresh a request only when the step claims the entry, or
takes it over from the task that did. -/
theorem works_moves (hA : sys.env.alloc.Lawful) (hServes : Serves (fun _ => True) s)
    {R : Request sys.rr → Prop} (h : ∀ t, (s.tasks t).Works R) {label : Label}
    (hNew : ∀ q, ClaimsFor s label q → R q) (hStep : step sys s label = some u)
    (hMove : Moves s label u) : ∀ t, (u.tasks t).Works R := by
  have hTask : ∀ {t task}, s.tasks t = task → task.Works R := fun ht => ht ▸ h _
  have hRole : ∀ {t q role flight}, s.tasks t = .inFlight q role flight → role = .refresh → R q :=
    fun ht => hTask ht
  cases hMove with
  | crash | sweep | swap => exact h
  | malformed | static | lookupMiss | lookupHit | reply | missBlocked | release | leave | tick
  | timerDone =>
    exact works_update h _ trivial
  | lookupRefresh ht hHost hGet =>
    -- the lookup that answers the client claims the entry
    obtain ⟨hFree, hClaimed⟩ := getWithFlags_claims hA hServes.cache.sound hGet
    exact works_update h _ ⟨hNew _ ⟨hFree, ⟨_, hStep, hClaimed⟩, .inl ⟨_, _, rfl⟩⟩, trivial⟩
  | permitDenied ht | permitTaken ht | refreshBlocked ht =>
    obtain ⟨hq, hCaller⟩ := hTask ht
    exact works_update h _ ⟨hq, hCaller⟩
  | refreshSpawned ht hChild hBlocked =>
    obtain ⟨hq, hCaller⟩ := hTask ht
    -- the child takes the request over, the caller goes on without it
    refine works_update (works_update h _ ?_) _ (Caller.works_resume hCaller)
    exact fun _ => hq
  | @spawnReleased t now q caller permit cache ht hRelease =>
    obtain ⟨hq, hCaller⟩ := hTask ht
    refine works_update h _ ?_
    cases permit with
    | true => exact ⟨hq, hCaller⟩
    | false => exact Caller.works_resume hCaller
  | spawnDropped ht =>
    obtain ⟨-, hCaller⟩ := hTask ht
    exact works_update h _ (Caller.works_resume hCaller)
  | missAllowed ht hBlocked => exact works_update h _ nofun
  | enterDirect ht | enterShared ht | enterFresh ht | initialise ht | wake ht | resolved ht
  | stored ht | uncached ht | failed ht | publish ht =>
    exact works_update h _ (hRole ht)
  | publishDirect ht | remove ht => exact works_update h _ (Role.works_resume (hRole ht) _)
  | cancelWaiting | cancelDirect | cancelFetching => exact works_update h _ (Role.works_cancelled _)
  | scan ht hScan =>
    refine works_update h _ fun raw hRaw => ?_
    obtain ⟨q, hq, hClaims⟩ := claimsFor_scan hA hServes hScan hStep raw hRaw
    exact ⟨q, hq, hNew q hClaims⟩
  | @timerSkip t request rest ht hParse =>
    have hList : ∀ raw ∈ request :: rest, Meets R raw := hTask ht
    exact works_update h _ fun raw hRaw => hList raw (List.mem_cons_of_mem _ hRaw)
  | @timerSpawn t q rest ht =>
    have hList : ∀ raw ∈ q.raw :: rest, Meets R raw := hTask ht
    -- the bytes are parsed again, and give the request the entry was claimed for
    obtain ⟨q', hRaw, hq'⟩ := hList q.raw List.mem_cons_self
    obtain rfl := Request.eq_of_raw hRaw
    exact works_update h _ ⟨hq', fun raw hRaw => hList raw (List.mem_cons_of_mem _ hRaw)⟩

/-- **Whole runs.** Every refresh goes back to a step that claimed an entry for it. -/
theorem run_works (hA : sys.env.alloc.Lawful) {enabled : Bool} {maxSizeBytes : Nat}
    (hMax : enabled = true → maxSizeBytes ≤ maxCacheBytes) {blocked : Bytes → Bool}
    {labels : List Label}
    (hRun : run (step sys) (State.start sys enabled maxSizeBytes blocked) labels = some s) :
    ∀ t, (s.tasks t).Works fun q =>
      ∃ moment ∈ history (step sys) (State.start sys enabled maxSizeBytes blocked) labels,
        ClaimsFor moment.1 moment.2 q := by
  have hInv := history_invariant
    (I := fun past (s : State sys.rr Heap) => Serves (fun _ => True) s ∧
      ∀ t, (s.tasks t).Works fun q => ∃ moment ∈ past, ClaimsFor moment.1 moment.2 q)
    ?_ ⟨serves_start hA hMax blocked, fun _ => trivial⟩ hRun
  · exact hInv.2
  · rintro past s label u ⟨hServes, h⟩ hStep
    have hMove := step_moves hStep
    refine ⟨hServes.moves hA (fun _ _ _ _ _ => trivial) hMove, ?_⟩
    refine works_moves hA hServes (fun t => (h t).mono ?_) ?_ hStep hMove
    · rintro q ⟨moment, hMem, hClaims⟩
      exact ⟨moment, List.mem_append_left _ hMem, hClaims⟩
    · intro q hClaims
      exact ⟨(s, label), List.mem_append_right _ (List.mem_singleton_self _), hClaims⟩

/-- **A cached request is its key.** In every state of every run each live entry's request
parses to the entry's name, record type, class and flags; the timer never passes over a
candidate; whatever is being refreshed is a request whose entry was claimed for this
refresh, by the lookup of a client or by the timer, who found it with the entry; and the
release at the end of the refresh, or of a call that spawned none, frees this entry. -/
theorem cached_requests_are_their_keys (hA : sys.env.alloc.Lawful) {enabled : Bool}
    {maxSizeBytes : Nat} (hMax : enabled = true → maxSizeBytes ≤ maxCacheBytes)
    {blocked : Bytes → Bool} {labels : List Label}
    (hRun : run (step sys) (State.start sys enabled maxSizeBytes blocked) labels = some s) :
    (∀ i m, s.cache.state.live? i = some m → 0 < m.requestLen →
      ParsesTo sys.rr (storedRequest s.cache.state.pool m) (keyOf s.cache.state.pool m)) ∧
    (∀ t request rest, s.tasks t = .timing (request :: rest) →
      ∃ q : Request sys.rr, q.raw = request ∧
        step sys s (.spawnNext t) = some (s.goto t (.spawning q .permit (.timer rest)))) ∧
    (∀ t q, (s.tasks t).refreshes? = some q →
      ∃ moment ∈ history (step sys) (State.start sys enabled maxSizeBytes blocked) labels,
        ClaimsFor moment.1 moment.2 q) ∧
    (∀ t q now u, s.tasks t = .releasing q → step sys s (.release t now) = some u →
      ¬ Claimed u.cache q.key) ∧
    ∀ t q permit caller now u, s.tasks t = .spawning q (.release permit) caller →
      step sys s (.releaseSpawn t now) = some u → ¬ Claimed u.cache q.key := by
  have hServes : Serves (fun _ => True) s := run_serves hA hMax (fun _ _ _ _ _ => trivial) hRun
  obtain ⟨owner, hTraced⟩ := run_traced hA hMax hRun
  refine ⟨fun i m hm _ => entry_parses_back hServes hm, ?_, ?_, ?_, ?_⟩
  · intro t request rest ht
    exact hServes.spawnNext hTraced.alive ht
  · intro t q hq
    exact (run_works hA hMax hRun t).refreshes hq
  · intro t q now u ht hStep
    exact hTraced.release_unclaims hA hServes ht hStep
  · intro t q permit caller now u ht hStep
    exact hTraced.releaseSpawn_unclaims hA hServes ht hStep

/-- An answer is fetched, and given again after 50 s; the timer finds it two seconds before
its end. -/
def timerScans : List Label :=
  [.query 0 (ask 1 0x61) 0, .checkMiss 0, .enter 0, .initialise 0, .resolved 0 (some told),
    .settle 0 0 0 0, .publish 0, .remove 0, .reply 0,
    .query 2 (ask 3 0x61) (50 * second), .reply 2, .tick 7, .scan 7 (58 * second)]

/-- What the timer has still to spawn. -/
def Task.candidates : Task rr → List Bytes
  | .timing requests => requests
  | _ => []

omit [DecidableEq RecordType] [DecidableEq DNSClass] in
theorem Task.eq_timing {task : Task rr} {request : Bytes} {rest : List Bytes}
    (h : task.candidates = request :: rest) : task = .timing (request :: rest) := by
  unfold Task.candidates at h
  split at h
  · rw [h]
  · cases h

theorem cached_requests_timer :
    (∃ s, run (step smallSystem) (State.start smallSystem true 128 fun _ => false) timerScans =
        some s ∧
      (∃ m, s.cache.state.live? 0 = some m ∧
        ParsesTo plainRr (storedRequest s.cache.state.pool m) (keyOf s.cache.state.pool m)) ∧
      ∃ q : Request plainRr, q.raw = ask 1 0x61 ∧
        step smallSystem s (.spawnNext 7) = some (s.goto 7 (.spawning q .permit (.timer [])))) ∧
    ∃ s q, run (step smallSystem) (State.start smallSystem true 128 fun _ => false)
        (timerScans ++ [.spawnNext 7, .tryPermit 7, .checkRefresh 7 5]) = some s ∧
      (s.tasks 5).refreshes? = some q ∧
      ∃ moment ∈ history (step smallSystem) (State.start smallSystem true 128 fun _ => false)
        (timerScans ++ [.spawnNext 7, .tryPermit 7, .checkRefresh 7 5]),
        ClaimsFor moment.1 moment.2 q := by
  have hScanned : (run (step smallSystem) (State.start smallSystem true 128 fun _ => false)
      timerScans).map (fun s =>
        ((s.tasks 7).candidates, (s.cache.state.live? 0).map (·.requestLen))) =
          some ([ask 1 0x61], some 19) := by
    decide +kernel
  have hSpawned : (run (step smallSystem) (State.start smallSystem true 128 fun _ => false)
      (timerScans ++ [.spawnNext 7, .tryPermit 7, .checkRefresh 7 5])).map
        (fun s => (s.tasks 5).refreshes?.isSome) = some true := by
    decide +kernel
  constructor
  · obtain ⟨s, hRun, hEq⟩ := Option.map_eq_some_iff.mp hScanned
    obtain ⟨hTimer, hEntry⟩ := Prod.mk.inj hEq
    obtain ⟨m, hm, hLen⟩ := Option.map_eq_some_iff.mp hEntry
    obtain ⟨hParses, hSpawns, -⟩ :=
      cached_requests_are_their_keys FirstFit.allocator_lawful (fun _ => by decide) hRun
    exact ⟨s, hRun, ⟨m, hm, hParses 0 m hm (by omega)⟩, hSpawns 7 _ _ (Task.eq_timing hTimer)⟩
  · obtain ⟨s, hRun, hSome⟩ := Option.map_eq_some_iff.mp hSpawned
    obtain ⟨q, hq⟩ := Option.isSome_iff_exists.mp hSome
    obtain ⟨-, -, hClaims, -⟩ :=
      cached_requests_are_their_keys FirstFit.allocator_lawful (fun _ => by decide) hRun
    exact ⟨s, q, hRun, hq, hClaims 5 q hq⟩

end DnsRs.Handler
