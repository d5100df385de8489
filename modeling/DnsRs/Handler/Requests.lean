import DnsRs.Handler.Moves
import DnsRs.Cache.Holding
import DnsRs.Cache.Bookkeeping

/-!
# The requests the server works on

Every request that a task works on, that is stored with a response or handed to
the upstream was once sent by a client and passed the static hosts. So what is
true of those requests is true of all that the server handles, also of the ones
that a refresh takes out of the cache: `Serves R` says that they all meet `R`,
and `run_serves` that this holds after every run in which the clients' requests
do.
-/

namespace DnsRs.Handler

open Lib Wire Cache InFlight

variable {RecordType DNSClass Heap : Type} {rr : RrFrom RecordType DNSClass}

/-- A request is determined by its bytes. -/
theorem Request.eq_of_raw {q q' : Request rr} (h : q.raw = q'.raw) : q = q' := by
  obtain ⟨raw, query, nameBuf, hParse⟩ := q
  obtain ⟨raw', query', nameBuf', hParse'⟩ := q'
  obtain rfl : raw = raw' := h
  have hEq := hParse.symm.trans hParse'
  simp only [Except.ok.injEq, Prod.mk.injEq] at hEq
  obtain ⟨rfl, rfl⟩ := hEq
  rfl

theorem parseRequest_raw (q : Request rr) : parseRequest rr q.raw = .ok (some q) := by
  unfold parseRequest
  split
  · rename_i query nameBuf hParse
    exact congrArg (Except.ok ∘ some) (Request.eq_of_raw rfl)
  · rename_i hParse
    rw [q.parsed] at hParse
    cases hParse
  · rename_i hParse
    rw [q.parsed] at hParse
    cases hParse

section Requests

variable (R : Request rr → Prop)

/-- These bytes are a request that meets `R`. -/
def Meets (raw : Bytes) : Prop := ∃ q : Request rr, q.raw = raw ∧ R q

def Caller.Serves : Caller → Prop
  | .client _ _ => True
  | .timer rest => ∀ raw ∈ rest, Meets R raw

def Task.Serves : Task rr → Prop
  | .missed q => R q
  | .spawning q _ caller => R q ∧ caller.Serves R
  | .inFlight q _ _ => R q
  | .replying q _ _ => R q
  | .releasing q => R q
  | .timing rest => ∀ raw ∈ rest, Meets R raw
  | .idle | .leaving | .scanning _ => True

/-- The answers for which the server looked further than its static hosts. -/
def Path.served : Path → Bool
  | .fresh | .stale | .blocked | .miss => true
  | .formerr | .static => false

end Requests

section Resume

variable {R : Request rr → Prop} {q : Request rr}

theorem Caller.Serves.resume {caller : Caller} (hq : R q) (h : caller.Serves R) :
    (caller.resume q).Serves R := by
  cases caller with
  | client cached path => exact hq
  | timer rest => exact h

theorem Role.serves_resume (hq : R q) (wire : Bytes) (role : Role) :
    (role.resume q wire).Serves R := by
  cases role with
  | client => exact hq
  | refresh => exact hq

theorem Role.serves_cancelled (role : Role) : (role.cancelled : Task rr).Serves R := by
  cases role with
  | client => trivial
  | refresh => trivial

end Resume

/-! ## The invariant -/

variable [DecidableEq RecordType] [DecidableEq DNSClass] {sys : System RecordType DNSClass Heap}

structure Serves (R : Request sys.rr → Prop) (s : State sys.rr Heap) : Prop where
  cache : Holding sys.env
    (fun key record => ∃ q, R q ∧ q.key = key ∧ q.raw = record.request) s.cache
  tasks : ∀ t, (s.tasks t).Serves R
  upstream : ∀ e ∈ s.upstream, Meets R e.1
  answers : ∀ a ∈ s.answers, a.path.served = true → Meets R a.raw

variable {R : Request sys.rr → Prop} {s u : State sys.rr Heap}

theorem serves_start (hA : sys.env.alloc.Lawful) {enabled : Bool} {maxSizeBytes : Nat}
    (hMax : enabled = true → maxSizeBytes ≤ maxCacheBytes) (blocked : Bytes → Bool) :
    Serves R (State.start sys enabled maxSizeBytes blocked) where
  cache := holding_new hA hMax
  tasks _ := trivial
  upstream e h := by cases h
  answers a h := by cases h

namespace Serves

theorem goto (h : Serves R s) (t : Nat) {task : Task sys.rr} (hTask : task.Serves R) :
    Serves R (s.goto t task) := by
  refine { h with tasks := fun t' => ?_ }
  by_cases ht : t' = t
  · subst ht
    simpa only [State.goto, Function.update_self] using hTask
  · simpa only [State.goto, Function.update_of_ne ht] using h.tasks t'

theorem answer (h : Serves R s) (t : Nat) {raw response : Bytes} {path : Path}
    (hAnswer : path.served = true → Meets R raw) : Serves R (s.answer t raw path response) := by
  have hIdle : Serves R (s.goto t .idle) := h.goto t trivial
  refine { hIdle with answers := fun a ha => ?_ }
  rcases List.mem_cons.mp ha with rfl | ha
  · exact hAnswer
  · exact h.answers a ha

/-- The fields that the invariant does not read. -/
theorem frame (h : Serves R s) (blocked : Bytes → Bool) (refreshSlots : Nat)
    (inFlight : InFlightRegistry (FlightKey RecordType DNSClass) Bytes) (fault : Option Fault) :
    Serves R { s with
      blocked := blocked, refreshSlots := refreshSlots, inFlight := inFlight, fault := fault } :=
  { h with }

theorem withCache (h : Serves R s) {cache : ResponseCache RecordType DNSClass Heap}
    (hCache : Holding sys.env
      (fun key record => ∃ q, R q ∧ q.key = key ∧ q.raw = record.request) cache) :
    Serves R { s with cache := cache } :=
  { h with cache := hCache }

theorem resolved (h : Serves R s) {q : Request sys.rr} (hq : R q) (result : Option Bytes) :
    Serves R { s with upstream := (q.raw, result) :: s.upstream } := by
  refine { h with upstream := fun e he => ?_ }
  rcases List.mem_cons.mp he with rfl | he
  · exact ⟨q, rfl, hq⟩
  · exact h.upstream e he

theorem task (h : Serves R s) {t : Nat} {task : Task sys.rr} (ht : s.tasks t = task) :
    task.Serves R :=
  ht ▸ h.tasks t

theorem caller (h : Serves R s) {t : Nat} {q : Request sys.rr} {progress : Spawning}
    {caller : Caller} (ht : s.tasks t = .spawning q progress caller) : R q ∧ caller.Serves R :=
  h.task ht

theorem flight (h : Serves R s) {t : Nat} {q : Request sys.rr} {role : Role}
    {flight : Flight RecordType DNSClass} (ht : s.tasks t = .inFlight q role flight) : R q :=
  h.task ht

/-- The candidates of the timer were stored by earlier fetches. -/
theorem candidates (h : Serves R s) (hA : sys.env.alloc.Lawful) {budget now : Nat}
    {requests : List Bytes} {cache : ResponseCache RecordType DNSClass Heap}
    (hScan : s.cache.refreshCandidates budget now = .ok (requests, cache)) :
    ∀ raw ∈ requests, Meets R raw := by
  intro raw hRaw
  obtain ⟨key, record, hCurrent, rfl⟩ := (refreshCandidates_noted hA h.cache.sound hScan).1 raw hRaw
  obtain ⟨q, hq, -, hRequest⟩ := h.cache.only key record hCurrent
  exact ⟨q, hRequest, hq⟩

/-- **One step.** A new request comes in only with a query. -/
theorem moves (hA : sys.env.alloc.Lawful) (h : Serves R s) {label : Label}
    (hNew : ∀ t (q : Request sys.rr) now, label = .query t q.raw now →
      staticHost sys q.name = none → R q)
    (hMove : Moves s label u) : Serves R u := by
  cases hMove with
  | crash | swap => exact h.frame _ _ _ _
  | malformed | static => exact h.answer _ nofun
  | lookupMiss ht hHost hGet | lookupHit ht hHost hGet =>
    exact (h.withCache (h.cache.get hA hGet).1).goto _ (hNew _ _ _ rfl hHost)
  | lookupRefresh ht hHost hGet =>
    exact (h.withCache (h.cache.get hA hGet).1).goto _ ⟨hNew _ _ _ rfl hHost, trivial⟩
  | @reply t q wire response path ht | @missBlocked t q response ht =>
    exact h.answer t fun _ => ⟨q, rfl, h.task ht⟩
  | permitDenied ht | refreshBlocked ht => exact h.goto _ (h.caller ht)
  | permitTaken ht hSlots => exact (h.frame _ _ _ _).goto _ (h.caller ht)
  | @refreshSpawned t child q caller ht hChild hBlocked =>
    obtain ⟨hq, hCaller⟩ := h.caller ht
    have hSpawned : Serves R (s.goto child (.inFlight q .refresh .entering)) := h.goto child hq
    exact hSpawned.goto _ (hCaller.resume hq)
  | @spawnReleased t now q caller permit cache ht hRelease =>
    obtain ⟨hq, hCaller⟩ := h.caller ht
    refine (h.withCache (h.cache.release hA hRelease)).goto _ ?_
    cases permit with
    -- a task that holds a permit has still to drop it
    | true => exact ⟨hq, hCaller⟩
    | false => exact hCaller.resume hq
  | @spawnDropped t q caller ht =>
    obtain ⟨hq, hCaller⟩ := h.caller ht
    exact (h.frame _ _ _ _).goto _ (hCaller.resume hq)
  | @missAllowed t q ht hBlocked =>
    have hq : R q := h.task ht
    exact h.goto _ hq
  | enterDirect ht | enterShared ht | wake ht => exact h.goto _ (h.flight ht)
  | enterFresh ht | initialise ht | publish ht => exact (h.frame _ _ _ _).goto _ (h.flight ht)
  | @resolved t q role place result ht =>
    exact (h.resolved (h.flight ht) result).goto _ (h.flight ht)
  | @stored t now lockedAt storedAt ttl q role place wire stored cache ht hTtl hInsert =>
    exact (h.withCache (h.cache.insert hA hInsert ⟨q, h.flight ht, rfl, rfl⟩)).goto _
      (h.flight ht)
  | uncached ht hTtl hRelease | failed ht hRelease =>
    exact (h.withCache (h.cache.release hA hRelease)).goto _ (h.flight ht)
  | publishDirect ht => exact h.goto _ (Role.serves_resume (h.task ht) _ _)
  | remove ht => exact (h.frame _ _ _ _).goto _ (Role.serves_resume (h.task ht) _ _)
  | release ht hRelease => exact (h.withCache (h.cache.release hA hRelease)).goto _ trivial
  | leave ht => exact (h.frame _ _ _ _).goto _ trivial
  | cancelWaiting | cancelDirect => exact h.goto _ (Role.serves_cancelled _)
  | cancelFetching ht => exact (h.frame _ _ _ _).goto _ (Role.serves_cancelled _)
  | tick | timerDone => exact h.goto _ trivial
  | scan ht hScan =>
    exact (h.withCache (h.cache.candidates hA hScan)).goto _ (h.candidates hA hScan)
  | @timerSkip t request rest ht hParse =>
    have hList : ∀ raw ∈ request :: rest, Meets R raw := h.task ht
    exact h.goto _ fun raw hRaw => hList raw (List.mem_cons_of_mem _ hRaw)
  | @timerSpawn t q rest ht =>
    have hList : ∀ raw ∈ q.raw :: rest, Meets R raw := h.task ht
    -- the bytes are parsed again, and give the same request
    obtain ⟨q', hRaw, hq'⟩ := hList q.raw List.mem_cons_self
    obtain rfl := Request.eq_of_raw hRaw
    exact h.goto _ ⟨hq', fun raw hRaw => hList raw (List.mem_cons_of_mem _ hRaw)⟩
  | sweep hSweep => exact h.withCache (h.cache.sweep hA hSweep)

end Serves

/-- **Whole runs.** -/
theorem run_serves (hA : sys.env.alloc.Lawful) {enabled : Bool} {maxSizeBytes : Nat}
    (hMax : enabled = true → maxSizeBytes ≤ maxCacheBytes) {blocked : Bytes → Bool}
    {labels : List Label}
    (hNew : ∀ t (q : Request sys.rr) now, Label.query t q.raw now ∈ labels →
      staticHost sys q.name = none → R q)
    (hRun : run (step sys) (State.start sys enabled maxSizeBytes blocked) labels = some s) :
    Serves R s := by
  have hStep : ∀ (s : State sys.rr Heap) (label : Label) (u : State sys.rr Heap), Serves R s →
      label ∈ labels → step sys s label = some u → Serves R u := by
    intro s label u h hLabel hu
    refine h.moves hA (fun t q now hEq => ?_) (step_moves hu)
    subst hEq
    exact hNew t q now hLabel
  exact run_invariant_guarded hStep (serves_start hA hMax blocked)
    (guarded_of_forall (fun _ ha => ha) _) hRun

end DnsRs.Handler
