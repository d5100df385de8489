import DnsRs.Lib.Run
import DnsRs.Cache.Ops
import DnsRs.InFlight.Registry

/-!
# The query handler

`handle_query`, `spawn_refresh`, `fetch_from_upstream` and the refresh timer,
over one `AppState`: the response cache, the in-flight registry, the published
blocklist and the refresh permits are shared by any number of tasks.

`step` interleaves the tasks. One label is one access to something shared: a
critical section of the cache or of the registry, an operation on a `OnceCell`
or on the permits, one load of the blocklist, or the end of an upstream query.
What a task does in between is its own and belongs to the step before. A task
can be dropped only while it awaits a cell or the upstream. Clock readings and
what the upstream answers are part of the labels, so they are arbitrary; so is
the moment at which the blocklist is swapped and the sweeper runs.

`upstream` and `answers` are no fields of the source: they record what
`resolve_wire` returned for which request, and what `handle_query` returned.
-/

namespace DnsRs.Handler

open Lib Wire Cache InFlight

variable {RecordType DNSClass Heap : Type}

/-! ## Configuration -/

structure StaticHost where
  ip : Ipv4Addr
  ttl : Nat
  deriving DecidableEq, Repr

inductive BlockMode where
  | nxdomain
  | sinkhole
  deriving DecidableEq, Repr

inductive ResponseCode where
  | noError
  | nxDomain
  | other (code : Nat)
  deriving DecidableEq, Repr

/-- A record of a decoded message: its TTL, and `MINIMUM` if it is an SOA. -/
structure ResourceRecord where
  ttl : Nat
  soaMinimum : Option Nat
  deriving DecidableEq, Repr

/-- What the handler reads of a decoded `Message`. -/
structure Message where
  responseCode : ResponseCode
  answers : List ResourceRecord
  authorities : List ResourceRecord
  deriving DecidableEq, Repr

/-- What does not change while the server runs. `fromVec` is
`Message::from_vec`, `a` is `RecordType::A`. The names of `staticHosts` are
UTF-8, so looking a name up by its bytes is looking up `from_utf8` of it. -/
structure System (RecordType DNSClass Heap : Type) where
  rr : RrFrom RecordType DNSClass
  a : RecordType
  env : Env RecordType DNSClass Heap
  fromVec : Bytes → Option Message
  staticHosts : List (Bytes × StaticHost)
  blockMode : BlockMode
  sinkholeIp : Ipv4Addr
  sinkholeTtl : Nat

/-- `REFRESH_CONCURRENCY` -/
def refreshConcurrency : Nat := 4

/-! ## Caching -/

def negativeTtl (response : Message) : Option Nat :=
  if response.responseCode = .nxDomain ∨
      (response.responseCode = .noError ∧ response.answers = []) then
    response.authorities.findSome? fun record => record.soaMinimum.map (min record.ttl)
  else none

/-- The TTL under which a response is cached. -/
def responseTtl (response : Message) : Option Nat :=
  ((response.answers.map ResourceRecord.ttl).min?.or (negativeTtl response)).filter (· > 0)

/-! ## Requests -/

/-- A request that `parse_query` accepts. -/
structure Request (rr : RrFrom RecordType DNSClass) where
  raw : Bytes
  query : ParsedQuery RecordType DNSClass
  nameBuf : Bytes
  parsed : parseQuery rr raw emptyNameBuf = .ok (query, nameBuf)

variable {rr : RrFrom RecordType DNSClass}

def Request.name (q : Request rr) : Bytes := q.nameBuf.take q.query.nameLen

/-- The key of the cache and of the registry. -/
def Request.key (q : Request rr) : Key RecordType DNSClass := identity q.query q.nameBuf

def parseRequest (rr : RrFrom RecordType DNSClass) (raw : Bytes) :
    Except Fault (Option (Request rr)) :=
  match h : parseQuery rr raw emptyNameBuf with
  | .ok (query, nameBuf) => .ok (some ⟨raw, query, nameBuf, h⟩)
  | .error .none => .ok none
  | .error (.fault f) => .error f

/-- The key of a flight as a key of the cache. -/
def flightIdentity (key : FlightKey RecordType DNSClass) : Key RecordType DNSClass :=
  ⟨key.name.bytes, key.recordType, key.dnsClass, key.flags⟩

/-! ## Tasks -/

/-- How an answer came about. -/
inductive Path where
  | formerr
  | static
  | fresh
  | stale
  | blocked
  | miss
  deriving DecidableEq, Repr

/-- Who called `spawn_refresh`, with what is left to do. -/
inductive Caller where
  /-- a client with its cached answer -/
  | client (cached : Bytes) (path : Path)
  /-- the timer with the other candidates -/
  | timer (rest : List Bytes)
  deriving DecidableEq

/-- Where a call of `spawn_refresh` stands. -/
inductive Spawning where
  /-- `try_refresh_permit` comes next -/
  | permit
  /-- it has a permit; the blocklist comes next -/
  | blocklist
  /-- `release_refresh_claim_with_flags` comes next -/
  | release (permit : Bool)
  /-- the permit is dropped next -/
  | dropPermit
  deriving DecidableEq

/-- Where a call of `fetch_from_upstream` stands. -/
inductive Fetch where
  /-- awaiting `resolve_wire` -/
  | resolving
  /-- it returned; the cache comes next -/
  | settling (result : Option Bytes)
  /-- the call has returned -/
  | produced (wire : Bytes)
  deriving DecidableEq

/-- Where a call of `dedup_with_flags` stands; `place` is the flight it runs
its fetch for, if it has one. -/
inductive Flight (RecordType DNSClass : Type) where
  | entering
  | waiting (key : FlightKey RecordType DNSClass) (cell : Nat)
  | fetching (place : Option (FlightKey RecordType DNSClass × Nat)) (fetch : Fetch)
  | fetched (key : FlightKey RecordType DNSClass) (cell : Nat) (wire : Bytes)
  deriving DecidableEq

/-- Who called `dedup_with_flags`. -/
inductive Role where
  | client
  | refresh
  deriving DecidableEq

inductive Task (rr : RrFrom RecordType DNSClass) where
  | idle
  /-- a client whose lookup missed; the blocklist comes next -/
  | missed (q : Request rr)
  | spawning (q : Request rr) (progress : Spawning) (caller : Caller)
  | inFlight (q : Request rr) (role : Role) (flight : Flight RecordType DNSClass)
  /-- a client that has its response; its ID and the return come next -/
  | replying (q : Request rr) (wire : Bytes) (path : Path)
  /-- a refresh whose fetch is done; the release of the claim comes next -/
  | releasing (q : Request rr)
  /-- a refresh that drops its permit next -/
  | leaving
  /-- the timer, with the number of permits it has read -/
  | scanning (budget : Nat)
  /-- the timer, with candidates to spawn refreshes for -/
  | timing (rest : List Bytes)

/-- What `handle_query` returned for `raw`. -/
structure Answer where
  raw : Bytes
  path : Path
  response : Bytes
  deriving DecidableEq

structure State (rr : RrFrom RecordType DNSClass) (Heap : Type) where
  cache : ResponseCache RecordType DNSClass Heap
  inFlight : InFlightRegistry (FlightKey RecordType DNSClass) Bytes
  /-- `contains_bytes` of the published blocklist -/
  blocked : Bytes → Bool
  /-- permits of `refresh_slots` that are free -/
  refreshSlots : Nat
  tasks : Nat → Task rr
  /-- each end of `resolve_wire`: the request and what it returned -/
  upstream : List (Bytes × Option Bytes)
  answers : List Answer
  fault : Option Fault

namespace State

/-- A server that has just been built. -/
def start (sys : System RecordType DNSClass Heap) (enabled : Bool) (maxSizeBytes : Nat)
    (blocked : Bytes → Bool) : State sys.rr Heap where
  cache := .new sys.env enabled maxSizeBytes
  inFlight := .new
  blocked := blocked
  refreshSlots := refreshConcurrency
  tasks := fun _ => .idle
  upstream := []
  answers := []
  fault := none

def goto (s : State rr Heap) (t : Nat) (task : Task rr) : State rr Heap :=
  { s with tasks := Function.update s.tasks t task }

/-- `handle_query` returns. -/
def answer (s : State rr Heap) (t : Nat) (raw : Bytes) (path : Path) (response : Bytes) :
    State rr Heap :=
  { s.goto t .idle with answers := ⟨raw, path, response⟩ :: s.answers }

/-- Goes on with the result of a computation, unless it panicked. -/
def attempt {α : Type} (s : State rr Heap) (x : Except Fault α) (next : α → State rr Heap) :
    State rr Heap :=
  match x with
  | .ok a => next a
  | .error f => { s with fault := some f }

end State

/-- What the caller of `spawn_refresh` does afterwards. -/
def Caller.resume (q : Request rr) : Caller → Task rr
  | .client cached path => .replying q cached path
  | .timer rest => .timing rest

/-- What the caller of `dedup_with_flags` does with the response. -/
def Role.resume (q : Request rr) (wire : Bytes) : Role → Task rr
  | .client => .replying q wire .miss
  | .refresh => .releasing q

/-- What a dropped caller of `dedup_with_flags` leaves to do. -/
def Role.cancelled : Role → Task rr
  | .client => .idle
  | .refresh => .leaving

/-! ## Steps -/

inductive Label where
  | query (t : Nat) (raw : Bytes) (now : Nat)
  | reply (t : Nat)
  | tryPermit (t : Nat)
  | checkRefresh (t child : Nat)
  | releaseSpawn (t now : Nat)
  | dropSpawn (t : Nat)
  | checkMiss (t : Nat)
  | enter (t : Nat)
  | initialise (t : Nat)
  | wake (t : Nat)
  | resolved (t : Nat) (result : Option Bytes)
  | settle (t now lockedAt storedAt : Nat)
  | publish (t : Nat)
  | remove (t : Nat)
  | release (t now : Nat)
  | leave (t : Nat)
  | cancel (t : Nat)
  | tick (t : Nat)
  | scan (t now : Nat)
  | spawnNext (t : Nat)
  | sweep (start stop now : Nat)
  | swap (blocked : Bytes → Bool)

variable [DecidableEq RecordType] [DecidableEq DNSClass]

section Step

variable (sys : System RecordType DNSClass Heap) (s : State sys.rr Heap)

/-- `static_hosts.get(name)` -/
def staticHost (name : Bytes) : Option StaticHost :=
  (sys.staticHosts.find? fun entry => entry.1 == name).map Prod.snd

/-- The cache lookup of `resolve`. -/
def stepLookup (t : Nat) (q : Request sys.rr) (now : Nat) : State sys.rr Heap :=
  s.attempt (s.cache.getWithFlags sys.env q.key now) fun (found, cache) =>
    match found with
    | none => { s with cache := cache }.goto t (.missed q)
    | some (cached, shouldRefresh, stale) =>
      let path := if stale then .stale else .fresh
      if shouldRefresh then
        -- `spawn_refresh` parses `raw` again and gets the same request
        { s with cache := cache }.goto t (.spawning q .permit (.client cached path))
      else { s with cache := cache }.goto t (.replying q cached path)

/-- `handle_query` up to the cache lookup. -/
def stepQuery (t : Nat) (raw : Bytes) (now : Nat) : State sys.rr Heap :=
  s.attempt (parseRequest sys.rr raw) fun
    | none => s.answer t raw .formerr (bareError raw rcodeFormerr)
    | some q =>
      match staticHost sys q.name with
      | some host =>
        let answer := if q.query.qtype = sys.a then some (host.ip, host.ttl) else none
        s.attempt (synthesize raw q.query rcodeNoerror answer) (s.answer t raw .static)
      | none => stepLookup sys s t q now

/-- RCODE and record of the answer for a blocked name. -/
def blockedAnswer (q : Request sys.rr) : UInt8 × Option (Ipv4Addr × Nat) :=
  match sys.blockMode with
  | .nxdomain => (rcodeNxdomain, none)
  | .sinkhole =>
    if q.query.qtype = sys.a then (rcodeNoerror, some (sys.sinkholeIp, sys.sinkholeTtl))
    else (rcodeNoerror, none)

/-- The blocklist check of `resolve`. -/
def stepMiss (t : Nat) (q : Request sys.rr) : State sys.rr Heap :=
  if s.blocked q.name then
    let (rcode, answer) := blockedAnswer sys q
    s.attempt (synthesize q.raw q.query rcode answer) (s.answer t q.raw .blocked)
  else s.goto t (.inFlight q .client .entering)

/-- `cell_for`, or a fetch without a cell. -/
def stepEnter (t : Nat) (q : Request sys.rr) (role : Role) : State sys.rr Heap :=
  match InlineName.fromBytes q.name with
  | none => s.goto t (.inFlight q role (.fetching none .resolving))
  | some name =>
    let key := ⟨q.query.qtype, q.query.qclass, cacheFlags q.query, name⟩
    let (cell, inFlight) := s.inFlight.cellFor key
    { s with inFlight := inFlight }.goto t (.inFlight q role (.waiting key cell))

/-- The end of `fetch_from_upstream`: the cache, and the bytes it returns. -/
def stepSettle (t : Nat) (q : Request sys.rr) (role : Role)
    (place : Option (FlightKey RecordType DNSClass × Nat)) (result : Option Bytes)
    (now lockedAt storedAt : Nat) : State sys.rr Heap :=
  match result with
  | some wire =>
    match (sys.fromVec wire).bind responseTtl with
    | some ttl =>
      s.attempt (s.cache.insertWithFlags sys.env q.key ttl wire q.raw now lockedAt storedAt)
        fun (_, cache) =>
          { s with cache := cache }.goto t (.inFlight q role (.fetching place (.produced wire)))
    | none =>
      s.attempt (s.cache.releaseRefreshClaimWithFlags sys.env q.key now) fun cache =>
        { s with cache := cache }.goto t (.inFlight q role (.fetching place (.produced wire)))
  | none =>
    -- the request was parsed before, so `bare_error` is not reached
    s.attempt (s.cache.releaseRefreshClaimWithFlags sys.env q.key now) fun cache =>
      s.attempt (synthesize q.raw q.query rcodeServfail none) fun wire =>
        { s with cache := cache }.goto t (.inFlight q role (.fetching place (.produced wire)))

/-- The body of `start_refresh`'s loop over the candidates. -/
def stepNext (t : Nat) : List Bytes → State sys.rr Heap
  | [] => s.goto t .idle
  | request :: rest =>
    s.attempt (parseRequest sys.rr request) fun
      | none => s.goto t (.timing rest)
      | some q => s.goto t (.spawning q .permit (.timer rest))

/-- One step of one task, of the sweeper or of the blocklist. -/
def stepLive : Label → Option (State sys.rr Heap)
  | .query t raw now =>
    match s.tasks t with
    | .idle => some (stepQuery sys s t raw now)
    | _ => none
  | .reply t =>
    match s.tasks t with
    | .replying q wire path => some (s.attempt (setId wire q.query.id) (s.answer t q.raw path))
    | _ => none
  | .tryPermit t =>
    match s.tasks t with
    | .spawning q .permit caller =>
      if s.refreshSlots = 0 then some (s.goto t (.spawning q (.release false) caller))
      else
        some ({ s with refreshSlots := s.refreshSlots - 1 }.goto t (.spawning q .blocklist caller))
    | _ => none
  | .checkRefresh t child =>
    match s.tasks t, s.tasks child with
    | .spawning q .blocklist caller, .idle =>
      if s.blocked q.name then some (s.goto t (.spawning q (.release true) caller))
      else some ((s.goto child (.inFlight q .refresh .entering)).goto t (caller.resume q))
    | _, _ => none
  | .releaseSpawn t now =>
    match s.tasks t with
    | .spawning q (.release permit) caller =>
      some (s.attempt (s.cache.releaseRefreshClaimWithFlags sys.env q.key now) fun cache =>
        { s with cache := cache }.goto t
          (if permit then .spawning q .dropPermit caller else caller.resume q))
    | _ => none
  | .dropSpawn t =>
    match s.tasks t with
    | .spawning q .dropPermit caller =>
      some ({ s with refreshSlots := s.refreshSlots + 1 }.goto t (caller.resume q))
    | _ => none
  | .checkMiss t =>
    match s.tasks t with
    | .missed q => some (stepMiss sys s t q)
    | _ => none
  | .enter t =>
    match s.tasks t with
    | .inFlight q role .entering => some (stepEnter sys s t q role)
    | _ => none
  | .initialise t =>
    match s.tasks t with
    | .inFlight q role (.waiting key cell) =>
      if s.inFlight.cells cell = .new then
        some ({ s with inFlight := s.inFlight.setCell cell ⟨none, some t⟩ }.goto t
          (.inFlight q role (.fetching (some (key, cell)) .resolving)))
      else none
    | _ => none
  | .wake t =>
    match s.tasks t with
    | .inFlight q role (.waiting key cell) =>
      (s.inFlight.cells cell).value.map fun wire =>
        s.goto t (.inFlight q role (.fetched key cell wire))
    | _ => none
  | .resolved t result =>
    match s.tasks t with
    | .inFlight q role (.fetching place .resolving) =>
      some ({ s with upstream := (q.raw, result) :: s.upstream }.goto t
        (.inFlight q role (.fetching place (.settling result))))
    | _ => none
  | .settle t now lockedAt storedAt =>
    match s.tasks t with
    | .inFlight q role (.fetching place (.settling result)) =>
      some (stepSettle sys s t q role place result now lockedAt storedAt)
    | _ => none
  | .publish t =>
    match s.tasks t with
    | .inFlight q role (.fetching none (.produced wire)) => some (s.goto t (role.resume q wire))
    | .inFlight q role (.fetching (some (key, cell)) (.produced wire)) =>
      some ({ s with inFlight := s.inFlight.setCell cell ⟨some wire, none⟩ }.goto t
        (.inFlight q role (.fetched key cell wire)))
    | _ => none
  | .remove t =>
    match s.tasks t with
    | .inFlight q role (.fetched key _ wire) =>
      some ({ s with inFlight := s.inFlight.remove key }.goto t (role.resume q wire))
    | _ => none
  | .release t now =>
    match s.tasks t with
    | .releasing q =>
      some (s.attempt (s.cache.releaseRefreshClaimWithFlags sys.env q.key now) fun cache =>
        { s with cache := cache }.goto t .leaving)
    | _ => none
  | .leave t =>
    match s.tasks t with
    | .leaving => some ({ s with refreshSlots := s.refreshSlots + 1 }.goto t .idle)
    | _ => none
  | .cancel t =>
    match s.tasks t with
    | .inFlight _ role (.waiting _ _) => some (s.goto t role.cancelled)
    | .inFlight _ role (.fetching none .resolving) => some (s.goto t role.cancelled)
    | .inFlight _ role (.fetching (some (_, cell)) .resolving) =>
      some ({ s with inFlight := s.inFlight.setCell cell .new }.goto t role.cancelled)
    | _ => none
  | .tick t =>
    match s.tasks t with
    | .idle => some (s.goto t (.scanning s.refreshSlots))
    | _ => none
  | .scan t now =>
    match s.tasks t with
    | .scanning budget =>
      some (s.attempt (s.cache.refreshCandidates budget now) fun (requests, cache) =>
        { s with cache := cache }.goto t (.timing requests))
    | _ => none
  | .spawnNext t =>
    match s.tasks t with
    | .timing rest => some (stepNext sys s t rest)
    | _ => none
  | .sweep start stop now =>
    some (s.attempt (s.cache.evictExpiredBatch sys.env start stop now) fun cache =>
      { s with cache := cache })
  | .swap blocked => some { s with blocked := blocked }

/-- A panic ends the run. -/
def step (label : Label) : Option (State sys.rr Heap) :=
  if s.fault.isSome then none else stepLive sys s label

end Step

end DnsRs.Handler
