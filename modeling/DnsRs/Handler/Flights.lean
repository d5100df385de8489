import DnsRs.Handler.Moves

/-!
# The handler drives the in-flight registry

The handler calls `dedup_with_flags` from clients and from refreshes, and its
`fetch` is `fetch_from_upstream`. Seen through the registry, each step of the
handler is a step of one caller of `dedup_with_flags`, or it is not seen at all
(`moves_flights`). So what holds of every run of the registry holds of the
registry in every run of the handler (`run_flights`).
-/

namespace DnsRs.Handler

open Lib Wire Cache InFlight

variable {RecordType DNSClass Heap : Type} {rr : RrFrom RecordType DNSClass}

/-- Where a task stands inside `dedup_with_flags`. The call begins with
`cell_for`, and the end of `remove` ends it. -/
def phaseOf : Task rr → Phase (FlightKey RecordType DNSClass)
  | .inFlight _ _ (.waiting key cell) => .waiting key cell
  | .inFlight _ _ (.fetching none _) => .direct
  | .inFlight _ _ (.fetching (some (key, cell)) _) => .fetching key cell
  | .inFlight _ _ (.fetched key cell wire) => .fetched key cell wire
  | _ => .idle

/-- The handler seen through the registry. -/
def flights (s : State rr Heap) : InFlight.State (FlightKey RecordType DNSClass) :=
  ⟨s.inFlight, fun t => phaseOf (s.tasks t)⟩

section View

variable {s : State rr Heap} {t : Nat} {task : Task rr}

theorem flights_goto : flights (s.goto t task) = (flights s).goto t (phaseOf task) := by
  simp only [flights, State.goto, InFlight.State.goto, InFlight.State.mk.injEq, true_and]
  funext t'
  by_cases ht : t' = t
  · subst ht
    simp only [Function.update_self]
  · simp only [Function.update_of_ne ht]

/-- A step that leaves the registry alone, by a task that stays outside
`dedup_with_flags` or where it stands in it, is not seen. -/
theorem flights_unseen {u : State rr Heap} {old new : Task rr} (ht : s.tasks t = old)
    (hTasks : u.tasks = Function.update s.tasks t new) (hRegistry : u.inFlight = s.inFlight)
    (hPhase : phaseOf new = phaseOf old) : flights u = flights s := by
  simp only [flights, hTasks, hRegistry, InFlight.State.mk.injEq, true_and]
  funext t'
  by_cases ht' : t' = t
  · subst ht'
    rw [Function.update_self, hPhase, ht]
  · rw [Function.update_of_ne ht']

theorem phaseOf_fetching (q : Request rr) (role : Role)
    (place : Option (FlightKey RecordType DNSClass × Nat)) (fetch fetch' : Fetch) :
    phaseOf (.inFlight q role (.fetching place fetch)) =
      phaseOf (.inFlight q role (.fetching place fetch')) := by
  cases place with
  | none => rfl
  | some place => rfl

theorem phaseOf_callerResume (q : Request rr) (caller : Caller) :
    phaseOf (caller.resume q) = .idle := by
  cases caller with
  | client cached path => rfl
  | timer rest => rfl

theorem phaseOf_roleResume (q : Request rr) (wire : Bytes) (role : Role) :
    phaseOf (role.resume q wire) = .idle := by
  cases role with
  | client => rfl
  | refresh => rfl

theorem phaseOf_cancelled (role : Role) : phaseOf (role.cancelled : Task rr) = .idle := by
  cases role with
  | client => rfl
  | refresh => rfl

end View

variable [DecidableEq RecordType] [DecidableEq DNSClass] {sys : System RecordType DNSClass Heap}

/-- **One step** of the handler is one step of a caller, or is not seen. -/
theorem moves_flights {s u : State sys.rr Heap} {label : Label} (h : Moves s label u) :
    flights u = flights s ∨ ∃ a, InFlight.Moves (flights s) a (flights u) := by
  have hSeen : ∀ {t : Nat} {task : Task sys.rr}, s.tasks t = task →
      (flights s).callers t = phaseOf task := fun ht => congrArg phaseOf ht
  cases h with
  -- steps of `dedup_with_flags`
  | @enterDirect t q role ht hName =>
    refine .inr ⟨.enter t q.name q.query.qtype q.query.qclass (cacheFlags q.query), ?_⟩
    rw [flights_goto]
    exact .enterDirect (hSeen ht) hName
  | @enterShared t cell q role key ht hKey hCell =>
    refine .inr ⟨.enter t key.name.bytes key.recordType key.dnsClass key.flags, ?_⟩
    rw [flights_goto]
    exact .enterShared key.name (hSeen ht) hCell
  | @enterFresh t q role key ht hKey hCell =>
    refine .inr ⟨.enter t key.name.bytes key.recordType key.dnsClass key.flags, ?_⟩
    rw [flights_goto]
    exact .enterFresh key.name (hSeen ht) hCell
  | @initialise t cell q role key ht hCell =>
    refine .inr ⟨.initialise t, ?_⟩
    rw [flights_goto]
    exact .initialise (hSeen ht) hCell
  | @wake t cell q role key wire ht hCell =>
    refine .inr ⟨.wake t, ?_⟩
    rw [flights_goto]
    exact .wake (hSeen ht) hCell
  | @publishDirect t q role wire ht =>
    refine .inr ⟨.fetchDone t wire, ?_⟩
    rw [flights_goto, phaseOf_roleResume]
    exact .directDone (hSeen ht)
  | @publish t cell q role key wire ht =>
    refine .inr ⟨.fetchDone t wire, ?_⟩
    rw [flights_goto]
    exact .fetchDone (hSeen ht)
  | @remove t cell q role key wire ht =>
    refine .inr ⟨.finish t, ?_⟩
    rw [flights_goto, phaseOf_roleResume]
    exact .finish (hSeen ht)
  | @cancelWaiting t cell q role key ht =>
    refine .inr ⟨.cancel t, ?_⟩
    rw [flights_goto, phaseOf_cancelled]
    exact .cancelWaiting (hSeen ht)
  | @cancelDirect t q role ht =>
    refine .inr ⟨.cancel t, ?_⟩
    rw [flights_goto, phaseOf_cancelled]
    exact .cancelDirect (hSeen ht)
  | @cancelFetching t cell q role key ht =>
    refine .inr ⟨.cancel t, ?_⟩
    rw [flights_goto, phaseOf_cancelled]
    exact .cancelFetching (hSeen ht)
  -- the fetch goes on inside its cell
  | resolved ht => exact .inl (flights_unseen ht rfl rfl (phaseOf_fetching _ _ _ _ _))
  | stored ht hTtl hInsert => exact .inl (flights_unseen ht rfl rfl (phaseOf_fetching _ _ _ _ _))
  | uncached ht hTtl hRelease => exact .inl (flights_unseen ht rfl rfl (phaseOf_fetching _ _ _ _ _))
  | failed ht hRelease hServfail => exact .inl (flights_unseen ht rfl rfl (phaseOf_fetching _ _ _ _ _))
  -- steps outside
  | crash hFaults => exact .inl rfl
  | malformed ht hParse => exact .inl (flights_unseen ht rfl rfl rfl)
  | static ht hHost hResponse => exact .inl (flights_unseen ht rfl rfl rfl)
  | lookupMiss ht hHost hGet => exact .inl (flights_unseen ht rfl rfl rfl)
  | lookupRefresh ht hHost hGet => exact .inl (flights_unseen ht rfl rfl rfl)
  | lookupHit ht hHost hGet => exact .inl (flights_unseen ht rfl rfl rfl)
  | reply ht hId => exact .inl (flights_unseen ht rfl rfl rfl)
  | permitDenied ht hSlots => exact .inl (flights_unseen ht rfl rfl rfl)
  | permitTaken ht hSlots => exact .inl (flights_unseen ht rfl rfl rfl)
  | refreshBlocked ht hBlocked => exact .inl (flights_unseen ht rfl rfl rfl)
  | @refreshSpawned t child q caller ht hChild hBlocked =>
    -- the refresh that is spawned has not entered yet
    have hSpawned : flights (s.goto child (.inFlight q .refresh .entering)) = flights s :=
      flights_unseen hChild rfl rfl rfl
    refine .inl ?_
    rw [flights_goto, hSpawned, ← flights_goto]
    exact flights_unseen ht rfl rfl (phaseOf_callerResume q caller)
  | @spawnReleased t now q caller permit cache ht hRelease =>
    refine .inl (flights_unseen ht rfl rfl ?_)
    cases permit with
    | true => rfl
    | false => exact phaseOf_callerResume q caller
  | spawnDropped ht => exact .inl (flights_unseen ht rfl rfl (phaseOf_callerResume _ _))
  | missBlocked ht hBlocked hResponse => exact .inl (flights_unseen ht rfl rfl rfl)
  | missAllowed ht hBlocked => exact .inl (flights_unseen ht rfl rfl rfl)
  | release ht hRelease => exact .inl (flights_unseen ht rfl rfl rfl)
  | leave ht => exact .inl (flights_unseen ht rfl rfl rfl)
  | tick ht => exact .inl (flights_unseen ht rfl rfl rfl)
  | scan ht hScan => exact .inl (flights_unseen ht rfl rfl rfl)
  | timerDone ht => exact .inl (flights_unseen ht rfl rfl rfl)
  | timerSkip ht hParse => exact .inl (flights_unseen ht rfl rfl rfl)
  | timerSpawn ht => exact .inl (flights_unseen ht rfl rfl rfl)
  | sweep hSweep => exact .inl rfl
  | swap blocked => exact .inl rfl

/-- **Whole runs.** The registry of a handler has run as a registry does. -/
theorem run_flights {enabled : Bool} {maxSizeBytes : Nat} {blocked : Bytes → Bool}
    {labels : List Label} {s : State sys.rr Heap}
    (hRun : run (step sys) (State.start sys enabled maxSizeBytes blocked) labels = some s) :
    ∃ labels', run InFlight.step InFlight.State.init labels' = some (flights s) := by
  have hStep : ∀ (s : State sys.rr Heap) (label : Label) (u : State sys.rr Heap),
      step sys s label = some u →
        flights u = flights s ∨ ∃ a, InFlight.step (flights s) a = some (flights u) := by
    intro s label u hu
    rcases moves_flights (step_moves hu) with hSame | ⟨a, hMove⟩
    · exact .inl hSame
    · exact .inr ⟨a, hMove.step_eq⟩
  exact run_simulation hStep hRun

end DnsRs.Handler
