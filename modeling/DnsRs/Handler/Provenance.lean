import DnsRs.Handler.Moves
import DnsRs.Cache.Holding
import DnsRs.Wire.Total
import DnsRs.Cache.FirstFit

/-!
# Where answers come from

An answer can travel through the cache, through the cell of another caller and
through a refresh in the background. `Traced` follows it: whatever is stored
under a key, held in a cell or carried by a task was obtained from the upstream
for a request with the same identity, or is the SERVFAIL made for one.

No step panics on the way (`Traced.no_faults`), so a run is never cut short.

A cell outlives its entry in the registry, so the key it was made for is not in
the state any more when the last caller reads it. The invariant carries that
key: `owner cell` never changes once the cell has been made.
-/

namespace DnsRs.Handler

open Lib Wire Cache InFlight

variable {RecordType DNSClass Heap : Type} {rr : RrFrom RecordType DNSClass}

/-! ## Provenance -/

section Provenance

variable (rr) (up : List (Bytes × Option Bytes)) (key : Key RecordType DNSClass) (wire : Bytes)

/-- The upstream returned `wire` for a request with this identity. -/
def Fetched : Prop :=
  ∃ q : Request rr, q.key = key ∧ (q.raw, some wire) ∈ up

/-- The upstream failed on a request with this identity, and `wire` is the
SERVFAIL made for it. -/
def Failed : Prop :=
  ∃ q : Request rr, q.key = key ∧ (q.raw, none) ∈ up ∧
    synthesize q.raw q.query rcodeServfail none = .ok wire

/-- What a caller of `dedup_with_flags` gets. -/
def Genuine : Prop := Fetched rr up key wire ∨ Failed rr up key wire

/-- What a lookup gets: a response of the upstream with its TTLs aged. -/
def Aged : Prop :=
  ∃ original elapsedSecs forceZero done, Fetched rr up key original ∧
    ageTtls original elapsedSecs forceZero = .ok (done, wire)

/-- What may be returned on a path, before the ID is set. -/
def Carries : Path → Prop
  | .fresh => Aged rr up key wire
  | .stale => Aged rr up key wire
  | .miss => Genuine rr up key wire
  | _ => True

end Provenance

/-- The answer is a response for the client's own identity, with the client's ID. -/
def Answered (rr : RrFrom RecordType DNSClass) (up : List (Bytes × Option Bytes)) (a : Answer) :
    Prop :=
  a.path = .fresh ∨ a.path = .stale ∨ a.path = .miss →
    ∃ (q : Request rr) (wire : Bytes), q.raw = a.raw ∧ Carries rr up q.key wire a.path ∧
      setId wire q.query.id = .ok a.response

/-! ## Tasks -/

section Tasks

variable (up : List (Bytes × Option Bytes)) (owner : Nat → Option (FlightKey RecordType DNSClass))

/-- The task holds a cell that was made for the key of its request. -/
def Owns (q : Request rr) (place : FlightKey RecordType DNSClass × Nat) : Prop :=
  owner place.2 = some place.1 ∧ flightIdentity place.1 = q.key

/-- What `fetch_from_upstream` holds. -/
def FetchOk (q : Request rr) : Fetch → Prop
  | .resolving => True
  | .settling result => (q.raw, result) ∈ up
  | .produced wire => Genuine rr up q.key wire

/-- What `dedup_with_flags` holds. -/
def FlightOk (q : Request rr) : Flight RecordType DNSClass → Prop
  | .entering => True
  | .waiting key cell => Owns owner q (key, cell)
  | .fetching place fetch => (∀ p, place = some p → Owns owner q p) ∧ FetchOk up q fetch
  | .fetched _ _ wire => Genuine rr up q.key wire

def CallerOk (q : Request rr) : Caller → Prop
  | .client cached path => Carries rr up q.key cached path
  | .timer _ => True

def TaskOk : Task rr → Prop
  | .spawning q _ caller => CallerOk up q caller
  | .inFlight q _ flight => FlightOk up owner q flight
  | .replying q wire path => Carries rr up q.key wire path
  | _ => True

end Tasks

/-! ## More is fetched, more cells are made -/

section Mono

variable {up up' : List (Bytes × Option Bytes)}
  {owner owner' : Nat → Option (FlightKey RecordType DNSClass)} {key : Key RecordType DNSClass}
  {wire : Bytes}

theorem Fetched.mono (h : Fetched rr up key wire) (hUp : up ⊆ up') : Fetched rr up' key wire := by
  obtain ⟨q, hKey, hMem⟩ := h
  exact ⟨q, hKey, hUp hMem⟩

theorem Genuine.mono (h : Genuine rr up key wire) (hUp : up ⊆ up') : Genuine rr up' key wire := by
  rcases h with hFetched | ⟨q, hKey, hMem, hServfail⟩
  · exact .inl (hFetched.mono hUp)
  · exact .inr ⟨q, hKey, hUp hMem, hServfail⟩

theorem Carries.mono {path : Path} (h : Carries rr up key wire path) (hUp : up ⊆ up') :
    Carries rr up' key wire path := by
  have hAged : Aged rr up key wire → Aged rr up' key wire := by
    rintro ⟨original, elapsed, zero, done, hFetched, hAge⟩
    exact ⟨original, elapsed, zero, done, hFetched.mono hUp, hAge⟩
  cases path with
  | fresh => exact hAged h
  | stale => exact hAged h
  | miss => exact Genuine.mono h hUp
  | formerr | static | blocked => trivial

theorem Answered.mono {a : Answer} (h : Answered rr up a) (hUp : up ⊆ up') :
    Answered rr up' a := by
  intro hPath
  obtain ⟨q, wire, hRaw, hCarries, hId⟩ := h hPath
  exact ⟨q, wire, hRaw, hCarries.mono hUp, hId⟩

theorem TaskOk.mono {task : Task rr} (h : TaskOk up owner task) (hUp : up ⊆ up')
    (hOwner : ∀ cell k, owner cell = some k → owner' cell = some k) : TaskOk up' owner' task := by
  have hOwns : ∀ (q : Request rr) p, Owns owner q p → Owns owner' q p :=
    fun q p hp => ⟨hOwner _ _ hp.1, hp.2⟩
  cases task with
  | spawning q progress caller =>
    cases caller with
    | client cached path => exact Carries.mono h hUp
    | timer rest => trivial
  | replying q wire path => exact Carries.mono h hUp
  | inFlight q role flight =>
    cases flight with
    | entering => trivial
    | waiting key cell => exact hOwns q (key, cell) h
    | fetched key cell wire => exact Genuine.mono h hUp
    | fetching place fetch =>
      refine ⟨fun p hp => hOwns q p (h.1 p hp), ?_⟩
      cases fetch with
      | resolving => trivial
      | settling result => exact hUp h.2
      | produced wire => exact Genuine.mono h.2 hUp
  | idle | missed | releasing | leaving | scanning | timing => trivial

end Mono

section Resume

variable {up : List (Bytes × Option Bytes)} {q : Request rr}
  {owner : Nat → Option (FlightKey RecordType DNSClass)}

theorem CallerOk.resume {caller : Caller} (h : CallerOk up q caller) :
    TaskOk up owner (caller.resume q) := by
  cases caller with
  | client cached path => exact h
  | timer rest => trivial

theorem Genuine.resume {wire : Bytes} (h : Genuine rr up q.key wire) (role : Role) :
    TaskOk up owner (role.resume q wire) := by
  cases role with
  | client => exact h
  | refresh => trivial

theorem taskOk_cancelled (role : Role) : TaskOk up owner (role.cancelled : Task rr) := by
  cases role with
  | client => trivial
  | refresh => trivial

end Resume

/-! ## The invariant -/

variable [DecidableEq RecordType] [DecidableEq DNSClass] {sys : System RecordType DNSClass Heap}

/-- Everything the server holds is traced to the upstream. -/
structure Traced (owner : Nat → Option (FlightKey RecordType DNSClass)) (s : State sys.rr Heap) :
    Prop where
  alive : s.fault = none
  unmade : ∀ cell, s.inFlight.made ≤ cell → owner cell = none
  entries : ∀ key cell, s.inFlight.entries key = some cell → owner cell = some key
  cells : ∀ cell wire, (s.inFlight.cells cell).value = some wire →
    ∃ key, owner cell = some key ∧ Genuine sys.rr s.upstream (flightIdentity key) wire
  cache : Holding sys.env (fun key record => Fetched sys.rr s.upstream key record.wire) s.cache
  tasks : ∀ t, TaskOk s.upstream owner (s.tasks t)
  answers : ∀ a ∈ s.answers, Answered sys.rr s.upstream a

variable {s u : State sys.rr Heap} {owner : Nat → Option (FlightKey RecordType DNSClass)}

theorem traced_start (hA : sys.env.alloc.Lawful) {enabled : Bool} {maxSizeBytes : Nat}
    (hMax : enabled = true → maxSizeBytes ≤ maxCacheBytes) (blocked : Bytes → Bool) :
    Traced (fun _ => none) (State.start sys enabled maxSizeBytes blocked) where
  alive := rfl
  unmade _ _ := rfl
  entries key cell h := by cases h
  cells cell wire h := by cases h
  cache := holding_new hA hMax
  tasks _ := trivial
  answers a h := by cases h

namespace Traced

/-! ### One part of the state changes -/

theorem goto (h : Traced owner s) (t : Nat) {task : Task sys.rr}
    (hTask : TaskOk s.upstream owner task) : Traced owner (s.goto t task) := by
  refine { h with tasks := fun t' => ?_ }
  by_cases ht : t' = t
  · subst ht
    simpa only [State.goto, Function.update_self] using hTask
  · simpa only [State.goto, Function.update_of_ne ht] using h.tasks t'

theorem answer (h : Traced owner s) (t : Nat) {raw response : Bytes} {path : Path}
    (hAnswer : Answered sys.rr s.upstream ⟨raw, path, response⟩) :
    Traced owner (s.answer t raw path response) := by
  have hIdle : Traced owner (s.goto t .idle) := h.goto t trivial
  refine { hIdle with answers := fun a ha => ?_ }
  rcases List.mem_cons.mp ha with rfl | ha
  · exact hAnswer
  · exact h.answers a ha

theorem withCache (h : Traced owner s) {cache : ResponseCache RecordType DNSClass Heap}
    (hCache : Holding sys.env (fun key record => Fetched sys.rr s.upstream key record.wire) cache) :
    Traced owner { s with cache := cache } :=
  { h with cache := hCache }

/-- The fields that the invariant does not read. -/
theorem frame (h : Traced owner s) (blocked : Bytes → Bool) (refreshSlots : Nat) :
    Traced owner { s with blocked := blocked, refreshSlots := refreshSlots } :=
  { h with }

/-- The upstream returned. -/
theorem resolved (h : Traced owner s) (raw : Bytes) (result : Option Bytes) :
    Traced owner { s with upstream := (raw, result) :: s.upstream } := by
  have hUp : s.upstream ⊆ (raw, result) :: s.upstream := List.subset_cons_self _ _
  refine { h with
    cells := fun cell wire hCell => ?_
    cache := ?_
    tasks := fun t => ?_
    answers := fun a ha => ?_ }
  · obtain ⟨key, hKey, hGenuine⟩ := h.cells cell wire hCell
    exact ⟨key, hKey, hGenuine.mono hUp⟩
  · exact h.cache.mono fun key record hFetched => hFetched.mono hUp
  · exact (h.tasks t).mono hUp fun _ _ hKey => hKey
  · exact (h.answers a ha).mono hUp

/-- A new cell is made for its key. -/
theorem register (h : Traced owner s) (key : FlightKey RecordType DNSClass) :
    Traced (Function.update owner s.inFlight.made (some key))
      { s with inFlight := s.inFlight.register key } := by
  have hOwner : ∀ cell k, owner cell = some k →
      Function.update owner s.inFlight.made (some key) cell = some k := by
    intro cell k hCell
    -- no cell had this number before
    have hne : cell ≠ s.inFlight.made := by
      rintro rfl
      rw [h.unmade _ (Nat.le_refl _)] at hCell
      cases hCell
    rw [Function.update_of_ne hne, hCell]
  refine { h with
    unmade := fun cell hCell => ?_
    entries := fun k cell hEntry => ?_
    cells := fun cell wire hValue => ?_
    tasks := fun t => ?_ }
  · have hLt : s.inFlight.made < cell := hCell
    rw [Function.update_of_ne (by omega)]
    exact h.unmade cell (by omega)
  · rw [register_entries] at hEntry
    split at hEntry
    · cases hEntry
      rw [Function.update_self, ‹k = key›]
    · exact hOwner _ _ (h.entries k cell hEntry)
  · rw [register_cells] at hValue
    split at hValue
    · cases hValue
    · obtain ⟨k, hk, hGenuine⟩ := h.cells cell wire hValue
      exact ⟨k, hOwner _ _ hk, hGenuine⟩
  · exact (h.tasks t).mono (List.Subset.refl _) hOwner

theorem remove (h : Traced owner s) (key : FlightKey RecordType DNSClass) :
    Traced owner { s with inFlight := s.inFlight.remove key } := by
  refine { h with entries := fun k cell hEntry => ?_ }
  rw [remove_entries] at hEntry
  split at hEntry
  · cases hEntry
  · exact h.entries k cell hEntry

/-- A cell is given a content whose value, if it has one, is genuine. -/
theorem setCell (h : Traced owner s) {cell : Nat} {content : OnceCell Bytes}
    (hContent : ∀ wire, content.value = some wire → ∃ key, owner cell = some key ∧
      Genuine sys.rr s.upstream (flightIdentity key) wire) :
    Traced owner { s with inFlight := s.inFlight.setCell cell content } := by
  refine { h with cells := fun c wire hValue => ?_ }
  rw [setCell_cells] at hValue
  split at hValue
  · rw [‹c = cell›]
    exact hContent wire hValue
  · exact h.cells c wire hValue

theorem task (h : Traced owner s) {t : Nat} {task : Task sys.rr} (ht : s.tasks t = task) :
    TaskOk s.upstream owner task :=
  ht ▸ h.tasks t

theorem caller (h : Traced owner s) {t : Nat} {q : Request sys.rr} {progress : Spawning}
    {caller : Caller} (ht : s.tasks t = .spawning q progress caller) :
    CallerOk s.upstream q caller :=
  h.task ht

theorem flight (h : Traced owner s) {t : Nat} {q : Request sys.rr} {role : Role}
    {flight : Flight RecordType DNSClass} (ht : s.tasks t = .inFlight q role flight) :
    FlightOk s.upstream owner q flight :=
  h.task ht

end Traced

/-! ### Steps -/

/-- No task panics or loops: requests are parsed and answered without, and the
calls of the cache return. -/
theorem Traced.no_faults (h : Traced owner s) (hA : sys.env.alloc.Lawful) {f : Fault} :
    ¬Faults s f := by
  intro hFaults
  cases hFaults with
  | parse raw hParse =>
    unfold parseRequest at hParse
    split at hParse
    · cases hParse
    · cases hParse
    · exact parseQuery_noFault sys.rr raw length_emptyNameBuf _ ‹_›
  | synthesize q rcode answer hSynthesize =>
    obtain ⟨wire, hOk⟩ := synthesize_total length_emptyNameBuf q.parsed rcode answer
    rw [hOk] at hSynthesize
    cases hSynthesize
  | setId wire id hId =>
    obtain ⟨wire', hOk, -⟩ := setId_total wire id
    rw [hOk] at hId
    cases hId
  | cache op hCall =>
    obtain ⟨out, cache, events, hOk, -⟩ := apply_spec hA h.cache.sound op
    rw [hOk] at hCall
    cases hCall

/-- A lookup that hits finds an aged response for the client's identity. -/
theorem Traced.lookup (h : Traced owner s) (hA : sys.env.alloc.Lawful) {q : Request sys.rr}
    {now : Nat} {cached : Bytes} {refresh stale : Bool}
    {cache : ResponseCache RecordType DNSClass Heap}
    (hGet : s.cache.getWithFlags sys.env q.key now = .ok (some (cached, refresh, stale), cache)) :
    Traced owner { s with cache := cache } ∧
      Carries sys.rr s.upstream q.key cached (if stale then .stale else .fresh) := by
  obtain ⟨hCache, hFound⟩ := h.cache.get hA hGet
  -- what was stored under the key was fetched for it
  obtain ⟨record, done, hFetched, hAge⟩ := hFound cached refresh stale rfl
  refine ⟨h.withCache hCache, ?_⟩
  have hAged : Aged sys.rr s.upstream q.key cached := ⟨record.wire, _, _, done, hFetched, hAge⟩
  cases stale with
  | true => exact hAged
  | false => exact hAged

/-- **One step.** Only `cell_for` makes a cell, so only there `owner` grows. -/
theorem Traced.moves (hA : sys.env.alloc.Lawful) (h : Traced owner s) {label : Label}
    (hMove : Moves s label u) : ∃ owner', Traced owner' u := by
  cases hMove with
  | crash hFaults => exact absurd hFaults (h.no_faults hA)
  | malformed | static | missBlocked => exact ⟨owner, h.answer _ (by simp [Answered])⟩
  | lookupMiss ht hHost hGet =>
    exact ⟨owner, (h.withCache (h.cache.get hA hGet).1).goto _ trivial⟩
  | lookupRefresh ht hHost hGet | lookupHit ht hHost hGet =>
    obtain ⟨hCache, hCarries⟩ := h.lookup hA hGet
    exact ⟨owner, hCache.goto _ hCarries⟩
  | @reply t q wire response path ht hId =>
    exact ⟨owner, h.answer t fun _ => ⟨q, wire, rfl, h.task ht, hId⟩⟩
  | permitDenied ht | refreshBlocked ht => exact ⟨owner, h.goto _ (h.caller ht)⟩
  | permitTaken ht hSlots => exact ⟨owner, (h.frame _ _).goto _ (h.caller ht)⟩
  | @refreshSpawned t child q caller ht hChild hBlocked =>
    have hSpawned : Traced owner (s.goto child (.inFlight q .refresh .entering)) :=
      h.goto child trivial
    exact ⟨owner, hSpawned.goto _ (h.caller ht).resume⟩
  | @spawnReleased t now q caller permit cache ht hRelease =>
    refine ⟨owner, (h.withCache (h.cache.release hA hRelease)).goto _ ?_⟩
    cases permit with
    | true => exact h.caller ht
    | false => exact (h.caller ht).resume
  | spawnDropped ht => exact ⟨owner, (h.frame _ _).goto _ (h.caller ht).resume⟩
  | missAllowed | tick | timerDone | timerSkip | timerSpawn => exact ⟨owner, h.goto _ trivial⟩
  | enterDirect ht hName => exact ⟨owner, h.goto _ ⟨by simp, trivial⟩⟩
  | enterShared ht hKey hCell => exact ⟨owner, h.goto _ ⟨h.entries _ _ hCell, hKey⟩⟩
  | @enterFresh t q role key ht hKey hCell =>
    exact ⟨_, (h.register key).goto _ ⟨Function.update_self _ _ _, hKey⟩⟩
  | @initialise t cell q role key ht hCell =>
    have hOwns : Owns owner q (key, cell) := h.flight ht
    refine ⟨owner, (h.setCell ?_).goto _ ⟨?_, trivial⟩⟩
    · intro wire hWire
      cases hWire
    · rintro p ⟨⟩
      exact hOwns
  | @wake t cell q role key wire ht hCell =>
    -- the value was produced for the key the cell was made for, and that is this caller's
    have hOwns : Owns owner q (key, cell) := h.flight ht
    obtain ⟨key', hKey', hGenuine⟩ := h.cells cell wire hCell
    cases hOwns.1.symm.trans hKey'
    have hOwn : Genuine sys.rr s.upstream q.key wire := hOwns.2 ▸ hGenuine
    exact ⟨owner, h.goto _ hOwn⟩
  | @resolved t q role place result ht =>
    exact ⟨owner, (h.resolved q.raw result).goto _ ⟨(h.flight ht).1, List.mem_cons_self⟩⟩
  | @stored t now lockedAt storedAt ttl q role place wire stored cache ht hTtl hInsert =>
    obtain ⟨hPlace, hMem⟩ := h.flight ht
    have hFetched : Fetched sys.rr s.upstream q.key wire := ⟨q, rfl, hMem⟩
    exact ⟨owner, (h.withCache (h.cache.insert hA hInsert hFetched)).goto _
      ⟨hPlace, .inl hFetched⟩⟩
  | @uncached t now lockedAt storedAt q role place wire cache ht hTtl hRelease =>
    obtain ⟨hPlace, hMem⟩ := h.flight ht
    exact ⟨owner, (h.withCache (h.cache.release hA hRelease)).goto _
      ⟨hPlace, .inl ⟨q, rfl, hMem⟩⟩⟩
  | @failed t now lockedAt storedAt q role place wire cache ht hRelease hServfail =>
    obtain ⟨hPlace, hMem⟩ := h.flight ht
    exact ⟨owner, (h.withCache (h.cache.release hA hRelease)).goto _
      ⟨hPlace, .inr ⟨q, rfl, hMem, hServfail⟩⟩⟩
  | @publishDirect t q role wire ht =>
    exact ⟨owner, h.goto _ (Genuine.resume (h.flight ht).2 role)⟩
  | @publish t cell q role key wire ht =>
    obtain ⟨hPlace, hGenuine⟩ := h.flight ht
    -- who waits for this cell has the same identity
    obtain ⟨hOwner, hKey⟩ := hPlace (key, cell) rfl
    have hGenuine : Genuine sys.rr s.upstream q.key wire := hGenuine
    refine ⟨owner, (h.setCell ?_).goto _ hGenuine⟩
    rintro wire' ⟨⟩
    exact ⟨key, hOwner, hKey.symm ▸ hGenuine⟩
  | @remove t cell q role key wire ht =>
    have hGenuine : Genuine sys.rr s.upstream q.key wire := h.flight ht
    exact ⟨owner, (h.remove key).goto _ (hGenuine.resume role)⟩
  | release ht hRelease =>
    exact ⟨owner, (h.withCache (h.cache.release hA hRelease)).goto _ trivial⟩
  | leave ht => exact ⟨owner, (h.frame _ _).goto _ trivial⟩
  | cancelWaiting | cancelDirect => exact ⟨owner, h.goto _ (taskOk_cancelled _)⟩
  | cancelFetching ht =>
    refine ⟨owner, (h.setCell ?_).goto _ (taskOk_cancelled _)⟩
    intro wire hWire
    cases hWire
  | scan ht hScan => exact ⟨owner, (h.withCache (h.cache.candidates hA hScan)).goto _ trivial⟩
  | sweep hSweep => exact ⟨owner, h.withCache (h.cache.sweep hA hSweep)⟩
  | swap blocked => exact ⟨owner, h.frame _ _⟩

/-- **Whole runs.** -/
theorem run_traced (hA : sys.env.alloc.Lawful) {enabled : Bool} {maxSizeBytes : Nat}
    (hMax : enabled = true → maxSizeBytes ≤ maxCacheBytes) {blocked : Bytes → Bool}
    {labels : List Label}
    (hRun : run (step sys) (State.start sys enabled maxSizeBytes blocked) labels = some s) :
    ∃ owner, Traced owner s := by
  have hStep : ∀ (s : State sys.rr Heap) (label : Label) (u : State sys.rr Heap),
      (∃ owner, Traced owner s) → step sys s label = some u → ∃ owner, Traced owner u := by
    rintro s label u ⟨owner, h⟩ hu
    exact h.moves hA (step_moves hu)
  exact run_invariant hStep ⟨_, traced_start hA hMax blocked⟩ hRun

/-- **Provenance of every non-local answer.** Whatever clients, refreshes, the
sweeper, cancellations and swaps of the blocklist do in whatever order, nothing
panics, and what a client is answered from the cache or after a miss is, but for
the ID and the aged TTLs, a response that the upstream gave for the client's own
identity, or the SERVFAIL for it. -/
theorem answers_from_own_identity (hA : sys.env.alloc.Lawful) {enabled : Bool}
    {maxSizeBytes : Nat} (hMax : enabled = true → maxSizeBytes ≤ maxCacheBytes)
    {blocked : Bytes → Bool} {labels : List Label}
    (hRun : run (step sys) (State.start sys enabled maxSizeBytes blocked) labels = some s) :
    s.fault = none ∧ ∀ a ∈ s.answers, Answered sys.rr s.upstream a := by
  obtain ⟨owner, h⟩ := run_traced hA hMax hRun
  exact ⟨h.alive, h.answers⟩

/-! ## A run -/

/-- A query for the address of a name of one letter. -/
def ask (id letter : UInt8) : Bytes :=
  [0, id, 1, 0, 0, 1, 0, 0, 0, 0, 0, 0] ++ [1, letter, 0, 0, 1, 0, 1]

/-- The answer for the letter `a`, good for a minute. -/
def told : Bytes :=
  [9, 9, 0x81, 0x80, 0, 1, 0, 1, 0, 0, 0, 0] ++ [1, 0x61, 0, 0, 1, 0, 1] ++
    [0xc0, 12, 0, 1, 0, 1, 0, 0, 0, 60, 0, 4, 10, 0, 0, 1]

/-- A server with a small cache in which all keys collide. -/
def smallSystem : System Nat Nat FirstFit.Heap where
  rr := plainRr
  a := 1
  env := collidingEnv
  fromVec := fun wire => if wire = told then some ⟨.noError, [⟨60, none⟩], []⟩ else none
  staticHosts := []
  blockMode := .nxdomain
  sinkholeIp := .unspecified
  sinkholeTtl := 0

/-- Two clients share a fetch; a third one is answered from the cache 58 s later
and starts a refresh, which is dropped; the fetch of a fourth one fails. -/
def busyMinute : List Label :=
  [.query 0 (ask 1 0x61) 0, .checkMiss 0, .enter 0, .initialise 0,
    .query 1 (ask 2 0x41) 0, .checkMiss 1, .enter 1,
    .resolved 0 (some told), .settle 0 0 0 0, .publish 0, .wake 1,
    .remove 0, .reply 0, .remove 1, .reply 1,
    .query 2 (ask 3 0x61) (58 * second), .tryPermit 2, .checkRefresh 2 5, .reply 2,
    .enter 5, .initialise 5, .cancel 5, .leave 5,
    .query 3 (ask 4 0x62) (59 * second), .checkMiss 3, .enter 3, .initialise 3,
    .resolved 3 none, .settle 3 (59 * second) 0 0, .publish 3, .remove 3, .reply 3]

theorem busyMinute_answers :
    ∃ s, run (step smallSystem) (State.start smallSystem true 128 fun _ => false) busyMinute =
        some s ∧
      s.answers.map (fun a => (a.path, a.response.take 2)) =
        [(.miss, [0, 4]), (.fresh, [0, 3]), (.miss, [0, 2]), (.miss, [0, 1])] ∧
      s.fault = none ∧ ∀ a ∈ s.answers, Answered smallSystem.rr s.upstream a := by
  have hAnswers : (run (step smallSystem) (State.start smallSystem true 128 fun _ => false)
      busyMinute).map (fun s => s.answers.map fun a => (a.path, a.response.take 2)) =
        some [(.miss, [0, 4]), (.fresh, [0, 3]), (.miss, [0, 2]), (.miss, [0, 1])] := by
    decide +kernel
  obtain ⟨s, hRun, hEq⟩ := Option.map_eq_some_iff.mp hAnswers
  exact ⟨s, hRun, hEq,
    answers_from_own_identity FirstFit.allocator_lawful (fun _ => by decide) hRun⟩

end DnsRs.Handler
