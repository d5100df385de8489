import DnsRs.Handler.System

/-!
# What a step of the handler can do

`Moves` lists the transitions, one constructor for each way a step can end, with
what was read and computed on the way. `step_moves` says that these are all:
every invariant is proved over `Moves` and never looks at `step` again.
-/

namespace DnsRs.Handler

open Lib Wire Cache InFlight

variable {RecordType DNSClass Heap : Type} {rr : RrFrom RecordType DNSClass}
  {sys : System RecordType DNSClass Heap} {s : State sys.rr Heap}

/-- A request keeps the bytes it was parsed from. -/
theorem parseRequest_eq_some {raw : Bytes} {q : Request rr}
    (h : parseRequest rr raw = .ok (some q)) : q.raw = raw := by
  unfold parseRequest at h
  split at h
  · cases h
    rfl
  · cases h
  · cases h

variable [DecidableEq RecordType] [DecidableEq DNSClass]

/-- What a task computes in a step, when it panics. -/
inductive Faults (s : State sys.rr Heap) (f : Fault) : Prop where
  | parse (raw : Bytes) (h : parseRequest sys.rr raw = .error f)
  | synthesize (q : Request sys.rr) (rcode : UInt8) (answer : Option (Ipv4Addr × Nat))
      (h : synthesize q.raw q.query rcode answer = .error f)
  | setId (wire : Bytes) (id : Nat) (h : setId wire id = .error f)
  | cache (op : Op RecordType DNSClass) (h : apply sys.env s.cache op = .error f)

/-- The transitions of the system. -/
inductive Moves (s : State sys.rr Heap) : Label → State sys.rr Heap → Prop where
  | crash {label : Label} {f : Fault} (h : Faults s f) : Moves s label { s with fault := some f }
  | malformed {t : Nat} {raw : Bytes} {now : Nat} (ht : s.tasks t = .idle)
      (hParse : parseRequest sys.rr raw = .ok none) :
      Moves s (.query t raw now) (s.answer t raw .formerr (bareError raw rcodeFormerr))
  | static {t now : Nat} {q : Request sys.rr} {host : StaticHost} {response : Bytes}
      (ht : s.tasks t = .idle) (hHost : staticHost sys q.name = some host)
      (hResponse : synthesize q.raw q.query rcodeNoerror
        (if q.query.qtype = sys.a then some (host.ip, host.ttl) else none) = .ok response) :
      Moves s (.query t q.raw now) (s.answer t q.raw .static response)
  | lookupMiss {t now : Nat} {q : Request sys.rr} {cache : ResponseCache RecordType DNSClass Heap}
      (ht : s.tasks t = .idle) (hHost : staticHost sys q.name = none)
      (hGet : s.cache.getWithFlags sys.env q.key now = .ok (none, cache)) :
      Moves s (.query t q.raw now) ({ s with cache := cache }.goto t (.missed q))
  | lookupRefresh {t now : Nat} {q : Request sys.rr} {cached : Bytes} {stale : Bool}
      {cache : ResponseCache RecordType DNSClass Heap}
      (ht : s.tasks t = .idle) (hHost : staticHost sys q.name = none)
      (hGet : s.cache.getWithFlags sys.env q.key now = .ok (some (cached, true, stale), cache)) :
      Moves s (.query t q.raw now) ({ s with cache := cache }.goto t
        (.spawning q .permit (.client cached (if stale then .stale else .fresh))))
  | lookupHit {t now : Nat} {q : Request sys.rr} {cached : Bytes} {stale : Bool}
      {cache : ResponseCache RecordType DNSClass Heap}
      (ht : s.tasks t = .idle) (hHost : staticHost sys q.name = none)
      (hGet : s.cache.getWithFlags sys.env q.key now = .ok (some (cached, false, stale), cache)) :
      Moves s (.query t q.raw now) ({ s with cache := cache }.goto t
        (.replying q cached (if stale then .stale else .fresh)))
  | reply {t : Nat} {q : Request sys.rr} {wire response : Bytes} {path : Path}
      (ht : s.tasks t = .replying q wire path) (hId : setId wire q.query.id = .ok response) :
      Moves s (.reply t) (s.answer t q.raw path response)
  | permitDenied {t : Nat} {q : Request sys.rr} {caller : Caller}
      (ht : s.tasks t = .spawning q .permit caller) (hSlots : s.refreshSlots = 0) :
      Moves s (.tryPermit t) (s.goto t (.spawning q (.release false) caller))
  | permitTaken {t : Nat} {q : Request sys.rr} {caller : Caller}
      (ht : s.tasks t = .spawning q .permit caller) (hSlots : s.refreshSlots ≠ 0) :
      Moves s (.tryPermit t)
        ({ s with refreshSlots := s.refreshSlots - 1 }.goto t (.spawning q .blocklist caller))
  | refreshBlocked {t child : Nat} {q : Request sys.rr} {caller : Caller}
      (ht : s.tasks t = .spawning q .blocklist caller) (hBlocked : s.blocked q.name = true) :
      Moves s (.checkRefresh t child) (s.goto t (.spawning q (.release true) caller))
  | refreshSpawned {t child : Nat} {q : Request sys.rr} {caller : Caller}
      (ht : s.tasks t = .spawning q .blocklist caller) (hChild : s.tasks child = .idle)
      (hBlocked : s.blocked q.name = false) :
      Moves s (.checkRefresh t child)
        ((s.goto child (.inFlight q .refresh .entering)).goto t (caller.resume q))
  | spawnReleased {t now : Nat} {q : Request sys.rr} {caller : Caller} {permit : Bool}
      {cache : ResponseCache RecordType DNSClass Heap}
      (ht : s.tasks t = .spawning q (.release permit) caller)
      (hRelease : s.cache.releaseRefreshClaimWithFlags sys.env q.key now = .ok cache) :
      Moves s (.releaseSpawn t now) ({ s with cache := cache }.goto t
        (if permit then .spawning q .dropPermit caller else caller.resume q))
  | spawnDropped {t : Nat} {q : Request sys.rr} {caller : Caller}
      (ht : s.tasks t = .spawning q .dropPermit caller) :
      Moves s (.dropSpawn t)
        ({ s with refreshSlots := s.refreshSlots + 1 }.goto t (caller.resume q))
  | missBlocked {t : Nat} {q : Request sys.rr} {response : Bytes} (ht : s.tasks t = .missed q)
      (hBlocked : s.blocked q.name = true)
      (hResponse : synthesize q.raw q.query (blockedAnswer sys q).1 (blockedAnswer sys q).2 =
        .ok response) :
      Moves s (.checkMiss t) (s.answer t q.raw .blocked response)
  | missAllowed {t : Nat} {q : Request sys.rr} (ht : s.tasks t = .missed q)
      (hBlocked : s.blocked q.name = false) :
      Moves s (.checkMiss t) (s.goto t (.inFlight q .client .entering))
  | enterDirect {t : Nat} {q : Request sys.rr} {role : Role}
      (ht : s.tasks t = .inFlight q role .entering) (hName : maxNameLen < q.name.length) :
      Moves s (.enter t) (s.goto t (.inFlight q role (.fetching none .resolving)))
  | enterShared {t cell : Nat} {q : Request sys.rr} {role : Role}
      {key : FlightKey RecordType DNSClass} (ht : s.tasks t = .inFlight q role .entering)
      (hKey : flightIdentity key = q.key) (hCell : s.inFlight.entries key = some cell) :
      Moves s (.enter t) (s.goto t (.inFlight q role (.waiting key cell)))
  | enterFresh {t : Nat} {q : Request sys.rr} {role : Role} {key : FlightKey RecordType DNSClass}
      (ht : s.tasks t = .inFlight q role .entering) (hKey : flightIdentity key = q.key)
      (hCell : s.inFlight.entries key = none) :
      Moves s (.enter t) ({ s with inFlight := s.inFlight.register key }.goto t
        (.inFlight q role (.waiting key s.inFlight.made)))
  | initialise {t cell : Nat} {q : Request sys.rr} {role : Role}
      {key : FlightKey RecordType DNSClass} (ht : s.tasks t = .inFlight q role (.waiting key cell))
      (hCell : s.inFlight.cells cell = .new) :
      Moves s (.initialise t) ({ s with inFlight := s.inFlight.setCell cell ⟨none, some t⟩ }.goto t
        (.inFlight q role (.fetching (some (key, cell)) .resolving)))
  | wake {t cell : Nat} {q : Request sys.rr} {role : Role} {key : FlightKey RecordType DNSClass}
      {wire : Bytes} (ht : s.tasks t = .inFlight q role (.waiting key cell))
      (hCell : (s.inFlight.cells cell).value = some wire) :
      Moves s (.wake t) (s.goto t (.inFlight q role (.fetched key cell wire)))
  | resolved {t : Nat} {q : Request sys.rr} {role : Role}
      {place : Option (FlightKey RecordType DNSClass × Nat)} {result : Option Bytes}
      (ht : s.tasks t = .inFlight q role (.fetching place .resolving)) :
      Moves s (.resolved t result) ({ s with upstream := (q.raw, result) :: s.upstream }.goto t
        (.inFlight q role (.fetching place (.settling result))))
  | stored {t now lockedAt storedAt ttl : Nat} {q : Request sys.rr} {role : Role}
      {place : Option (FlightKey RecordType DNSClass × Nat)} {wire : Bytes} {stored : Bool}
      {cache : ResponseCache RecordType DNSClass Heap}
      (ht : s.tasks t = .inFlight q role (.fetching place (.settling (some wire))))
      (hTtl : (sys.fromVec wire).bind responseTtl = some ttl)
      (hInsert : s.cache.insertWithFlags sys.env q.key ttl wire q.raw now lockedAt storedAt =
        .ok (stored, cache)) :
      Moves s (.settle t now lockedAt storedAt) ({ s with cache := cache }.goto t
        (.inFlight q role (.fetching place (.produced wire))))
  | uncached {t now lockedAt storedAt : Nat} {q : Request sys.rr} {role : Role}
      {place : Option (FlightKey RecordType DNSClass × Nat)} {wire : Bytes}
      {cache : ResponseCache RecordType DNSClass Heap}
      (ht : s.tasks t = .inFlight q role (.fetching place (.settling (some wire))))
      (hTtl : (sys.fromVec wire).bind responseTtl = none)
      (hRelease : s.cache.releaseRefreshClaimWithFlags sys.env q.key now = .ok cache) :
      Moves s (.settle t now lockedAt storedAt) ({ s with cache := cache }.goto t
        (.inFlight q role (.fetching place (.produced wire))))
  | failed {t now lockedAt storedAt : Nat} {q : Request sys.rr} {role : Role}
      {place : Option (FlightKey RecordType DNSClass × Nat)} {wire : Bytes}
      {cache : ResponseCache RecordType DNSClass Heap}
      (ht : s.tasks t = .inFlight q role (.fetching place (.settling none)))
      (hRelease : s.cache.releaseRefreshClaimWithFlags sys.env q.key now = .ok cache)
      (hServfail : synthesize q.raw q.query rcodeServfail none = .ok wire) :
      Moves s (.settle t now lockedAt storedAt) ({ s with cache := cache }.goto t
        (.inFlight q role (.fetching place (.produced wire))))
  | publishDirect {t : Nat} {q : Request sys.rr} {role : Role} {wire : Bytes}
      (ht : s.tasks t = .inFlight q role (.fetching none (.produced wire))) :
      Moves s (.publish t) (s.goto t (role.resume q wire))
  | publish {t cell : Nat} {q : Request sys.rr} {role : Role} {key : FlightKey RecordType DNSClass}
      {wire : Bytes} (ht : s.tasks t = .inFlight q role (.fetching (some (key, cell)) (.produced wire))) :
      Moves s (.publish t)
        ({ s with inFlight := s.inFlight.setCell cell ⟨some wire, none⟩ }.goto t
          (.inFlight q role (.fetched key cell wire)))
  | remove {t cell : Nat} {q : Request sys.rr} {role : Role}
      {key : FlightKey RecordType DNSClass} {wire : Bytes}
      (ht : s.tasks t = .inFlight q role (.fetched key cell wire)) :
      Moves s (.remove t)
        ({ s with inFlight := s.inFlight.remove key }.goto t (role.resume q wire))
  | release {t now : Nat} {q : Request sys.rr} {cache : ResponseCache RecordType DNSClass Heap}
      (ht : s.tasks t = .releasing q)
      (hRelease : s.cache.releaseRefreshClaimWithFlags sys.env q.key now = .ok cache) :
      Moves s (.release t now) ({ s with cache := cache }.goto t .leaving)
  | leave {t : Nat} (ht : s.tasks t = .leaving) :
      Moves s (.leave t) ({ s with refreshSlots := s.refreshSlots + 1 }.goto t .idle)
  | cancelWaiting {t cell : Nat} {q : Request sys.rr} {role : Role}
      {key : FlightKey RecordType DNSClass} (ht : s.tasks t = .inFlight q role (.waiting key cell)) :
      Moves s (.cancel t) (s.goto t role.cancelled)
  | cancelDirect {t : Nat} {q : Request sys.rr} {role : Role}
      (ht : s.tasks t = .inFlight q role (.fetching none .resolving)) :
      Moves s (.cancel t) (s.goto t role.cancelled)
  | cancelFetching {t cell : Nat} {q : Request sys.rr} {role : Role}
      {key : FlightKey RecordType DNSClass}
      (ht : s.tasks t = .inFlight q role (.fetching (some (key, cell)) .resolving)) :
      Moves s (.cancel t)
        ({ s with inFlight := s.inFlight.setCell cell .new }.goto t role.cancelled)
  | tick {t : Nat} (ht : s.tasks t = .idle) :
      Moves s (.tick t) (s.goto t (.scanning s.refreshSlots))
  | scan {t now budget : Nat} {requests : List Bytes}
      {cache : ResponseCache RecordType DNSClass Heap} (ht : s.tasks t = .scanning budget)
      (hScan : s.cache.refreshCandidates budget now = .ok (requests, cache)) :
      Moves s (.scan t now) ({ s with cache := cache }.goto t (.timing requests))
  | timerDone {t : Nat} (ht : s.tasks t = .timing []) :
      Moves s (.spawnNext t) (s.goto t .idle)
  | timerSkip {t : Nat} {request : Bytes} {rest : List Bytes}
      (ht : s.tasks t = .timing (request :: rest))
      (hParse : parseRequest sys.rr request = .ok none) :
      Moves s (.spawnNext t) (s.goto t (.timing rest))
  | timerSpawn {t : Nat} {q : Request sys.rr} {rest : List Bytes}
      (ht : s.tasks t = .timing (q.raw :: rest)) :
      Moves s (.spawnNext t) (s.goto t (.spawning q .permit (.timer rest)))
  | sweep {start stop now : Nat} {cache : ResponseCache RecordType DNSClass Heap}
      (hSweep : s.cache.evictExpiredBatch sys.env start stop now = .ok cache) :
      Moves s (.sweep start stop now) { s with cache := cache }
  | swap (blocked : Bytes → Bool) : Moves s (.swap blocked) { s with blocked := blocked }

/-- An attempt moves if its continuation does. -/
theorem moves_attempt {α : Type} {label : Label} {x : Except Fault α}
    {next : α → State sys.rr Heap} (hFault : ∀ f, x = .error f → Faults s f)
    (hNext : ∀ a, x = .ok a → Moves s label (next a)) : Moves s label (s.attempt x next) := by
  cases x with
  | ok a => exact hNext a rfl
  | error f => exact .crash (hFault f rfl)

/-- A call of the cache that panics does so as an operation. -/
theorem cache_faults {α : Type} {x : Except Fault α} {f : Fault} (op : Op RecordType DNSClass)
    {g : α → Except Fault (Output × ResponseCache RecordType DNSClass Heap)}
    (hOp : apply sys.env s.cache op = x >>= g) (h : x = .error f) : Faults s f :=
  .cache op (by rw [hOp, h, error_bind])

theorem stepQuery_moves {t : Nat} (ht : s.tasks t = .idle) (raw : Bytes) (now : Nat) :
    Moves s (.query t raw now) (stepQuery sys s t raw now) := by
  rw [stepQuery]
  refine moves_attempt (fun _ => .parse raw) fun parsed hParse => ?_
  cases parsed with
  | none => exact .malformed ht hParse
  | some q =>
    obtain rfl := parseRequest_eq_some hParse
    -- static hosts come before the cache
    cases hHost : staticHost sys q.name with
    | some host =>
      simp only [hHost]
      exact moves_attempt (fun _ => .synthesize q _ _) fun response hResponse =>
        .static ht hHost hResponse
    | none =>
      simp only [hHost, stepLookup]
      refine moves_attempt (fun _ => cache_faults (.get q.key now) rfl) fun result hGet => ?_
      obtain ⟨found, cache⟩ := result
      cases found with
      | none => exact .lookupMiss ht hHost hGet
      | some found =>
        obtain ⟨cached, refresh, stale⟩ := found
        cases refresh with
        | true => exact .lookupRefresh ht hHost hGet
        | false => exact .lookupHit ht hHost hGet

theorem stepMiss_moves {t : Nat} {q : Request sys.rr} (ht : s.tasks t = .missed q) :
    Moves s (.checkMiss t) (stepMiss sys s t q) := by
  unfold stepMiss
  cases hBlocked : s.blocked q.name with
  | true =>
    exact moves_attempt (fun _ => .synthesize q _ _) fun response hResponse =>
      .missBlocked ht hBlocked hResponse
  | false => exact .missAllowed ht hBlocked

theorem stepEnter_moves {t : Nat} {q : Request sys.rr} {role : Role}
    (ht : s.tasks t = .inFlight q role .entering) : Moves s (.enter t) (stepEnter sys s t q role) := by
  rw [stepEnter, InlineName.fromBytes]
  by_cases hName : q.name.length ≤ maxNameLen
  · simp only [dif_pos hName, InFlightRegistry.cellFor]
    cases hCell : s.inFlight.entries
        ⟨q.query.qtype, q.query.qclass, cacheFlags q.query, ⟨q.name, hName⟩⟩ with
    | some cell => exact .enterShared ht rfl hCell
    | none => exact .enterFresh ht rfl hCell
  · simp only [dif_neg hName]
    exact .enterDirect ht (by omega)

theorem stepSettle_moves {t : Nat} {q : Request sys.rr} {role : Role}
    {place : Option (FlightKey RecordType DNSClass × Nat)} {result : Option Bytes}
    (ht : s.tasks t = .inFlight q role (.fetching place (.settling result)))
    (now lockedAt storedAt : Nat) :
    Moves s (.settle t now lockedAt storedAt)
      (stepSettle sys s t q role place result now lockedAt storedAt) := by
  cases result with
  | some wire =>
    rw [stepSettle]
    -- a response without a TTL is returned but not stored
    cases hTtl : (sys.fromVec wire).bind responseTtl with
    | some ttl =>
      exact moves_attempt
        (fun _ => cache_faults (.insert q.key ttl wire q.raw now lockedAt storedAt) rfl)
        fun _ hInsert => .stored ht hTtl hInsert
    | none =>
      exact moves_attempt (fun _ => cache_faults (.release q.key now) rfl) fun _ hRelease =>
        .uncached ht hTtl hRelease
  | none =>
    exact moves_attempt (fun _ => cache_faults (.release q.key now) rfl) fun _ hRelease =>
      moves_attempt (fun _ => .synthesize q _ _) fun _ hServfail =>
        .failed ht hRelease hServfail

theorem stepNext_moves {t : Nat} {rest : List Bytes} (ht : s.tasks t = .timing rest) :
    Moves s (.spawnNext t) (stepNext sys s t rest) := by
  cases rest with
  | nil => exact .timerDone ht
  | cons request rest =>
    rw [stepNext]
    refine moves_attempt (fun _ => .parse request) fun parsed hParse => ?_
    cases parsed with
    | none => exact .timerSkip ht hParse
    | some q =>
      obtain rfl := parseRequest_eq_some hParse
      exact .timerSpawn ht

/-- **Inversion.** A step is one of the moves. -/
theorem step_moves {label : Label} {u : State sys.rr Heap} (h : step sys s label = some u) :
    Moves s label u := by
  unfold step at h
  split at h
  · cases h
  -- one case per label; its guard is the task it finds
  cases label with
  | query t raw now =>
    simp only [stepLive] at h
    split at h
    case h_1 ht => cases h; exact stepQuery_moves ht raw now
    case h_2 => cases h
  | reply t =>
    simp only [stepLive] at h
    split at h
    case h_1 q wire path ht =>
      cases h
      exact moves_attempt (fun _ => .setId wire _) fun _ hId => .reply ht hId
    case h_2 => cases h
  | tryPermit t =>
    simp only [stepLive] at h
    split at h
    case h_1 q caller ht =>
      split at h
      case isTrue hSlots => cases h; exact .permitDenied ht hSlots
      case isFalse hSlots => cases h; exact .permitTaken ht hSlots
    case h_2 => cases h
  | checkRefresh t child =>
    simp only [stepLive] at h
    split at h
    case h_1 q caller ht hChild =>
      split at h
      case isTrue hBlocked => cases h; exact .refreshBlocked ht hBlocked
      case isFalse hBlocked =>
        cases h
        exact .refreshSpawned ht hChild (Bool.eq_false_of_not_eq_true hBlocked)
    case h_2 => cases h
  | releaseSpawn t now =>
    simp only [stepLive] at h
    split at h
    case h_1 q permit caller ht =>
      cases h
      exact moves_attempt (fun _ => cache_faults (.release q.key now) rfl) fun _ hRelease =>
        .spawnReleased ht hRelease
    case h_2 => cases h
  | dropSpawn t =>
    simp only [stepLive] at h
    split at h
    case h_1 q caller ht => cases h; exact .spawnDropped ht
    case h_2 => cases h
  | checkMiss t =>
    simp only [stepLive] at h
    split at h
    case h_1 q ht => cases h; exact stepMiss_moves ht
    case h_2 => cases h
  | enter t =>
    simp only [stepLive] at h
    split at h
    case h_1 q role ht => cases h; exact stepEnter_moves ht
    case h_2 => cases h
  | initialise t =>
    simp only [stepLive] at h
    split at h
    case h_1 q role key cell ht =>
      split at h
      case isTrue hCell => cases h; exact .initialise ht hCell
      case isFalse => cases h
    case h_2 => cases h
  | wake t =>
    simp only [stepLive] at h
    split at h
    case h_1 q role key cell ht =>
      obtain ⟨wire, hCell, hu⟩ := Option.map_eq_some_iff.1 h
      cases hu
      exact .wake ht hCell
    case h_2 => cases h
  | resolved t result =>
    simp only [stepLive] at h
    split at h
    case h_1 q role place ht => cases h; exact .resolved ht
    case h_2 => cases h
  | settle t now lockedAt storedAt =>
    simp only [stepLive] at h
    split at h
    case h_1 q role place result ht => cases h; exact stepSettle_moves ht now lockedAt storedAt
    case h_2 => cases h
  | publish t =>
    simp only [stepLive] at h
    split at h
    case h_1 q role wire ht => cases h; exact .publishDirect ht
    case h_2 q role key cell wire ht => cases h; exact .publish ht
    case h_3 => cases h
  | remove t =>
    simp only [stepLive] at h
    split at h
    case h_1 q role key cell wire ht => cases h; exact .remove ht
    case h_2 => cases h
  | release t now =>
    simp only [stepLive] at h
    split at h
    case h_1 q ht =>
      cases h
      exact moves_attempt (fun _ => cache_faults (.release q.key now) rfl) fun _ hRelease =>
        .release ht hRelease
    case h_2 => cases h
  | leave t =>
    simp only [stepLive] at h
    split at h
    case h_1 ht => cases h; exact .leave ht
    case h_2 => cases h
  | cancel t =>
    simp only [stepLive] at h
    split at h
    case h_1 ht => cases h; exact .cancelWaiting ht
    case h_2 ht => cases h; exact .cancelDirect ht
    case h_3 ht => cases h; exact .cancelFetching ht
    case h_4 => cases h
  | tick t =>
    simp only [stepLive] at h
    split at h
    case h_1 ht => cases h; exact .tick ht
    case h_2 => cases h
  | scan t now =>
    simp only [stepLive] at h
    split at h
    case h_1 budget ht =>
      cases h
      exact moves_attempt (fun _ => cache_faults (.candidates budget now) rfl) fun _ hScan =>
        .scan ht hScan
    case h_2 => cases h
  | spawnNext t =>
    simp only [stepLive] at h
    split at h
    case h_1 rest ht => cases h; exact stepNext_moves ht
    case h_2 => cases h
  | sweep start stop now =>
    cases h
    exact moves_attempt (fun _ => cache_faults (.sweep start stop now) rfl) fun _ hSweep =>
      .sweep hSweep
  | swap blocked =>
    cases h
    exact .swap blocked

end DnsRs.Handler
