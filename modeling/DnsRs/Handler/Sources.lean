import DnsRs.Handler.Provenance
import DnsRs.Handler.Requests

/-!
# What every answer is made of

`handle_query` builds some answers itself: the FORMERR for a request it cannot
read, those for static hosts and those for blocked names (`Local`). All others
come from an upstream fetch made for some client's request, perhaps not the one
that is answered: `ServedFrom` names both requests. `run_sources` says that these
are all the answers there are, and that both requests were sent by clients in the
run.
-/

namespace DnsRs.Handler

open Lib Wire Cache InFlight

variable {RecordType DNSClass Heap : Type} {rr : RrFrom RecordType DNSClass}

/-! ## Paths -/

/-- The paths on which the answer comes from the cache or from a fetch. -/
def Path.remote : Path → Bool
  | .fresh | .stale | .miss => true
  | .formerr | .static | .blocked => false

def Caller.remote : Caller → Bool
  | .client _ path => path.remote
  | .timer _ => true

/-- A task that will answer does so on such a path. -/
def Task.remote : Task rr → Bool
  | .spawning _ _ caller => caller.remote
  | .replying _ _ path => path.remote
  | _ => true

theorem Caller.remote_resume (q : Request rr) {caller : Caller} (h : caller.remote = true) :
    (caller.resume q).remote = true := by
  cases caller with
  | client cached path => exact h
  | timer rest => rfl

theorem Role.remote_resume (q : Request rr) (wire : Bytes) (role : Role) :
    (role.resume q wire).remote = true := by
  cases role <;> rfl

theorem Role.remote_cancelled (role : Role) : (role.cancelled : Task rr).remote = true := by
  cases role <;> rfl

theorem Path.remote_lookup (stale : Bool) : (if stale then Path.stale else .fresh).remote = true := by
  cases stale <;> rfl

/-! ## Answers made here -/

variable {sys : System RecordType DNSClass Heap}

/-- The answer is built from the request alone. -/
inductive Local (sys : System RecordType DNSClass Heap) (a : Answer) : Prop where
  | formerr (hParse : parseRequest sys.rr a.raw = .ok none)
      (hResponse : a.response = bareError a.raw rcodeFormerr)
  | synthesized {q : Request sys.rr} {rcode : UInt8} {answer : Option (Ipv4Addr × Nat)}
      (hRaw : q.raw = a.raw) (hResponse : synthesize q.raw q.query rcode answer = .ok a.response)

/-- Every answer so far went out on one of those paths or is built here. -/
structure Explained (s : State sys.rr Heap) : Prop where
  tasks : ∀ t, (s.tasks t).remote = true
  answers : ∀ a ∈ s.answers, a.path.remote = true ∨ Local sys a

variable {s u : State sys.rr Heap}

namespace Explained

theorem goto (h : Explained s) (t : Nat) {task : Task sys.rr} (hTask : task.remote = true) :
    Explained (s.goto t task) := by
  refine { h with tasks := fun t' => ?_ }
  by_cases ht : t' = t
  · subst ht
    simpa only [State.goto, Function.update_self] using hTask
  · simpa only [State.goto, Function.update_of_ne ht] using h.tasks t'

theorem answer (h : Explained s) (t : Nat) {raw response : Bytes} {path : Path}
    (hAnswer : path.remote = true ∨ Local sys ⟨raw, path, response⟩) :
    Explained (s.answer t raw path response) := by
  have hIdle : Explained (s.goto t .idle) := h.goto t rfl
  refine { hIdle with answers := fun a ha => ?_ }
  rcases List.mem_cons.mp ha with rfl | ha
  · exact hAnswer
  · exact h.answers a ha

/-- The fields that the invariant does not read. -/
theorem frame (h : Explained s) (cache : ResponseCache RecordType DNSClass Heap)
    (inFlight : InFlightRegistry (FlightKey RecordType DNSClass) Bytes) (blocked : Bytes → Bool)
    (refreshSlots : Nat) (upstream : List (Bytes × Option Bytes)) (fault : Option Fault) :
    Explained { s with
      cache := cache, inFlight := inFlight, blocked := blocked, refreshSlots := refreshSlots
      upstream := upstream, fault := fault } :=
  { h with }

theorem task (h : Explained s) {t : Nat} {task : Task sys.rr} (ht : s.tasks t = task) :
    task.remote = true :=
  ht ▸ h.tasks t

theorem caller (h : Explained s) {t : Nat} {q : Request sys.rr} {progress : Spawning}
    {caller : Caller} (ht : s.tasks t = .spawning q progress caller) : caller.remote = true :=
  h.task ht

variable [DecidableEq RecordType] [DecidableEq DNSClass]

/-- **One step.** -/
theorem moves (h : Explained s) {label : Label} (hMove : Moves s label u) : Explained u := by
  cases hMove with
  | crash hFaults => exact h.frame _ _ _ _ _ _
  | malformed ht hParse => exact h.answer _ (.inr (.formerr hParse rfl))
  | static ht hHost hResponse => exact h.answer _ (.inr (.synthesized rfl hResponse))
  | lookupMiss ht hHost hGet => exact (h.frame _ _ _ _ _ _).goto _ rfl
  | lookupRefresh | lookupHit => exact (h.frame _ _ _ _ _ _).goto _ (Path.remote_lookup _)
  | reply ht hId => exact h.answer _ (.inl (h.task ht))
  | permitDenied ht | refreshBlocked ht => exact h.goto _ (h.caller ht)
  | permitTaken ht hSlots => exact (h.frame _ _ _ _ _ _).goto _ (h.caller ht)
  | @refreshSpawned t child q caller ht hChild hBlocked =>
    have hSpawned : Explained (s.goto child (.inFlight q .refresh .entering)) := h.goto child rfl
    exact hSpawned.goto _ (Caller.remote_resume q (h.caller ht))
  | @spawnReleased t now q caller permit cache ht hRelease =>
    refine (h.frame _ _ _ _ _ _).goto _ ?_
    cases permit with
    | true => exact h.caller ht
    | false => exact Caller.remote_resume q (h.caller ht)
  -- a refresh that is not started leaves its caller where it was
  | spawnDropped ht => exact (h.frame _ _ _ _ _ _).goto _ (Caller.remote_resume _ (h.caller ht))
  | missBlocked ht hBlocked hResponse => exact h.answer _ (.inr (.synthesized rfl hResponse))
  | missAllowed | enterDirect | enterShared => exact h.goto _ rfl
  | wake ht hCell => exact h.goto _ rfl
  | enterFresh | initialise | resolved | stored | uncached | failed | publish =>
    exact (h.frame _ _ _ _ _ _).goto _ rfl
  | publishDirect ht => exact h.goto _ (Role.remote_resume _ _ _)
  | remove ht => exact (h.frame _ _ _ _ _ _).goto _ (Role.remote_resume _ _ _)
  | release | leave => exact (h.frame _ _ _ _ _ _).goto _ rfl
  | cancelWaiting | cancelDirect => exact h.goto _ (Role.remote_cancelled _)
  | cancelFetching => exact (h.frame _ _ _ _ _ _).goto _ (Role.remote_cancelled _)
  | tick | timerDone | timerSkip | timerSpawn => exact h.goto _ rfl
  | scan ht hScan => exact (h.frame _ _ _ _ _ _).goto _ rfl
  | sweep | swap => exact h.frame _ _ _ _ _ _

end Explained

/-! ## Answers made of a fetch -/

/-- `wire` is what came of a fetch for `q`: the response, fresh or with its TTLs
aged, or the SERVFAIL. -/
inductive Source (up : List (Bytes × Option Bytes)) (q : Request rr) (wire : Bytes) : Prop where
  | fetched (hMem : (q.raw, some wire) ∈ up)
  | aged {original : Bytes} {elapsedSecs : Nat} {forceZero done : Bool}
      (hMem : (q.raw, some original) ∈ up)
      (hAge : ageTtls original elapsedSecs forceZero = .ok (done, wire))
  | failed (hMem : (q.raw, none) ∈ up)
      (hWire : synthesize q.raw q.query rcodeServfail none = .ok wire)

/-- The client with the request `q` got what was fetched with the request `q'`. -/
structure ServedFrom (up : List (Bytes × Option Bytes)) (a : Answer) (q q' : Request rr) : Prop where
  raw : q.raw = a.raw
  key : q'.key = q.key
  response : ∃ wire, Source up q' wire ∧ setId wire q.query.id = .ok a.response

theorem Answered.servedFrom {up : List (Bytes × Option Bytes)} {a : Answer} (h : Answered rr up a)
    (hRemote : a.path.remote = true) : ∃ q q' : Request rr, ServedFrom up a q q' := by
  have hAged : ∀ (q : Request rr) wire, Aged rr up q.key wire →
      ∃ q' : Request rr, q'.key = q.key ∧ Source up q' wire := by
    -- a cached response was fetched for some request of the same identity
    rintro q wire ⟨original, elapsedSecs, forceZero, done, ⟨q', hKey, hMem⟩, hAge⟩
    exact ⟨q', hKey, .aged hMem hAge⟩
  have hPath : a.path = .fresh ∨ a.path = .stale ∨ a.path = .miss := by
    cases hCase : a.path with
    | fresh => exact .inl rfl
    | stale => exact .inr (.inl rfl)
    | miss => exact .inr (.inr rfl)
    | formerr | static | blocked =>
      rw [hCase] at hRemote
      cases hRemote
  obtain ⟨q, wire, hRaw, hCarries, hId⟩ := h hPath
  have hSource : ∃ q' : Request rr, q'.key = q.key ∧ Source up q' wire := by
    rcases hPath with hPath | hPath | hPath <;> rw [hPath] at hCarries
    · exact hAged q wire hCarries
    · exact hAged q wire hCarries
    · -- a flight's value is the response, or the SERVFAIL its leader made of a failure
      rcases hCarries with ⟨q', hKey, hMem⟩ | ⟨q', hKey, hMem, hWire⟩
      · exact ⟨q', hKey, .fetched hMem⟩
      · exact ⟨q', hKey, .failed hMem hWire⟩
  obtain ⟨q', hKey, hSource⟩ := hSource
  exact ⟨q, q', hRaw, hKey, wire, hSource, hId⟩

theorem Source.mem {up : List (Bytes × Option Bytes)} {q : Request rr} {wire : Bytes}
    (h : Source up q wire) : ∃ result, (q.raw, result) ∈ up := by
  cases h with
  | fetched hMem | aged hMem | failed hMem => exact ⟨_, hMem⟩

/-! ## Whole runs -/

variable [DecidableEq RecordType] [DecidableEq DNSClass]

/-- A client sends the request in the course of the run, and it is not for a
static host. -/
def Asked (sys : System RecordType DNSClass Heap) (labels : List Label) (q : Request sys.rr) : Prop :=
  (∃ t now, Label.query t q.raw now ∈ labels) ∧ staticHost sys q.name = none

theorem run_explained {enabled : Bool} {maxSizeBytes : Nat} {blocked : Bytes → Bool}
    {labels : List Label}
    (hRun : run (step sys) (State.start sys enabled maxSizeBytes blocked) labels = some s) :
    Explained s := by
  have hStart : Explained (State.start sys enabled maxSizeBytes blocked) :=
    ⟨fun _ => rfl, fun a ha => by cases ha⟩
  exact run_invariant (fun _ _ _ h hu => h.moves (step_moves hu)) hStart hRun

/-- Whoever is answered has asked, and so has the one whose fetch it is. -/
theorem run_asked (hA : sys.env.alloc.Lawful) {enabled : Bool} {maxSizeBytes : Nat}
    (hMax : enabled = true → maxSizeBytes ≤ maxCacheBytes) {blocked : Bytes → Bool}
    {labels : List Label}
    (hRun : run (step sys) (State.start sys enabled maxSizeBytes blocked) labels = some s)
    {a : Answer} (ha : a ∈ s.answers) (hRemote : a.path.remote = true) {q q' : Request sys.rr}
    (hServed : ServedFrom s.upstream a q q') : Asked sys labels q ∧ Asked sys labels q' := by
  have hServes : Serves (Asked sys labels) s :=
    run_serves hA hMax (fun t q now hMem hStatic => ⟨⟨t, now, hMem⟩, hStatic⟩) hRun
  have hAsked : ∀ {raw : Bytes} {q : Request sys.rr}, q.raw = raw → Meets (Asked sys labels) raw →
      Asked sys labels q := by
    rintro raw q hRaw ⟨p, hp, hAsked⟩
    -- a request is determined by its bytes
    obtain rfl := Request.eq_of_raw (hRaw.trans hp.symm)
    exact hAsked
  have hPath : a.path.served = true := by
    cases hCase : a.path with
    | fresh | stale | miss | blocked => rfl
    | formerr | static =>
      rw [hCase] at hRemote
      cases hRemote
  obtain ⟨wire, hSource, -⟩ := hServed.response
  obtain ⟨result, hMem⟩ := hSource.mem
  exact ⟨hAsked hServed.raw (hServes.answers a ha hPath), hAsked rfl (hServes.upstream _ hMem)⟩

/-- **Every answer has its source.** -/
theorem run_sources (hA : sys.env.alloc.Lawful) {enabled : Bool} {maxSizeBytes : Nat}
    (hMax : enabled = true → maxSizeBytes ≤ maxCacheBytes) {blocked : Bytes → Bool}
    {labels : List Label}
    (hRun : run (step sys) (State.start sys enabled maxSizeBytes blocked) labels = some s) :
    ∀ a ∈ s.answers, Local sys a ∨
      (a.path.remote = true ∧ ∃ q q' : Request sys.rr, ServedFrom s.upstream a q q') := by
  intro a ha
  rcases (run_explained hRun).answers a ha with hRemote | hLocal
  · obtain ⟨owner, hTraced⟩ := run_traced hA hMax hRun
    exact .inr ⟨hRemote, (hTraced.answers a ha).servedFrom hRemote⟩
  · exact .inl hLocal

end DnsRs.Handler
