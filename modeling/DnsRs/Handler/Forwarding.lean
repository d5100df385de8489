import DnsRs.Handler.Requests
import DnsRs.Handler.Claims

/-!
# What is forwarded to the upstream

`resolve` looks at the static hosts first, at the cache second and at the
blocklist third; `spawn_refresh` looks at the blocklist only. That no static name
is forwarded all the same rests on what the cache can hold: a name gets into it
only by a fetch for a client that has passed the static hosts (`Serves`).

For the blocklist the order of things matters. `Vetted past t q role` says of a
task that fetches `q`: at some moment of the past somebody began to work on `q`,
and at a later moment, still at it, loaded a blocklist that did not have the
name; the task is in flight since then. The past of a run is its `history`.
-/

namespace DnsRs.Handler

open Lib Wire Cache InFlight

variable {RecordType DNSClass Heap : Type} {rr : RrFrom RecordType DNSClass}

/-! ## Moments of a run -/

/-- The request for which the task awaits the upstream. -/
def Task.asks : Task rr → Option (Request rr)
  | .inFlight q _ (.fetching _ .resolving) => some q
  | _ => none

theorem Task.asks_eq_some {task : Task rr} {q : Request rr} (h : task.asks = some q) :
    ∃ role place, task = .inFlight q role (.fetching place .resolving) := by
  unfold Task.asks at h
  split at h
  · cases h
    exact ⟨_, _, rfl⟩
  · cases h

/-- The task has begun to work on the request and has not come past the
blocklist: its lookup missed, or it is inside `spawn_refresh`. -/
def Task.Unchecked (q : Request rr) : Task rr → Prop
  | .missed q' => q' = q
  | .spawning q' _ _ => q' = q
  | _ => False

/-- `t` begins to work on the request: a client sends it, or the timer comes to
it. -/
def Begins (t : Nat) (q : Request rr) : Label → Prop
  | .query t' raw _ => t' = t ∧ raw = q.raw
  | .spawnNext t' => t' = t
  | _ => False

/-- `p` loads the blocklist for the fetch that `t` is to run: a client for its
own, `spawn_refresh` for the task it spawns. -/
def Checks (p t : Nat) : Role → Label → Prop
  | .client, .checkMiss t' => t' = t ∧ p = t
  | .refresh, .checkRefresh p' t' => p' = p ∧ t' = t
  | _, _ => False

section Past

variable (past : List (State rr Heap × Label))

/-- `p` has begun to work on the request and is at it since then. -/
def Begun (p : Nat) (q : Request rr) : Prop :=
  ∃ before s start since, past = before ++ (s, start) :: since ∧ Begins p q start ∧
    ∀ e ∈ since, (e.1.tasks p).Unchecked q

/-- Whoever began to work on the request has found its name not blocked, and `t`
is in flight with it since then. -/
def Vetted (t : Nat) (q : Request rr) (role : Role) : Prop :=
  ∃ before s check since p, past = before ++ (s, check) :: since ∧
    (Begun before p q ∧ (s.tasks p).Unchecked q) ∧ Checks p t role check ∧
    s.blocked q.name = false ∧ ∀ e ∈ since, ∃ flight, e.1.tasks t = .inFlight q role flight

end Past

section Past

variable {past : List (State rr Heap × Label)} {s : State rr Heap} {label : Label} {t : Nat}
  {q : Request rr}

theorem Begun.extend (h : Begun past t q) (hTask : (s.tasks t).Unchecked q) :
    Begun (past ++ [(s, label)]) t q := by
  obtain ⟨before, s₁, start, since, rfl, hBegins, hSince⟩ := h
  refine ⟨before, s₁, start, since ++ [(s, label)], by simp, hBegins, fun e he => ?_⟩
  rcases List.mem_append.mp he with he | he
  · exact hSince e he
  · rw [List.mem_singleton.mp he]
    exact hTask

theorem begun_now (h : Begins t q label) : Begun (past ++ [(s, label)]) t q :=
  ⟨past, s, label, [], rfl, h, nofun⟩

theorem Vetted.extend {role : Role} {flight : Flight RecordType DNSClass}
    (h : Vetted past t q role) (hTask : s.tasks t = .inFlight q role flight) :
    Vetted (past ++ [(s, label)]) t q role := by
  obtain ⟨before, s₁, check, since, p, rfl, hBegun, hChecks, hBlocked, hSince⟩ := h
  refine ⟨before, s₁, check, since ++ [(s, label)], p, by simp, hBegun, hChecks, hBlocked,
    fun e he => ?_⟩
  rcases List.mem_append.mp he with he | he
  · exact hSince e he
  · rw [List.mem_singleton.mp he]
    exact ⟨flight, hTask⟩

/-- A load of the blocklist that has the name is not the one that let it pass. -/
theorem Vetted.early {early mid : List (State rr Heap × Label)} {role : Role}
    (h : Vetted (early ++ mid) t q role) (hMid : ∀ e ∈ mid, e.1.blocked q.name = true) :
    Vetted early t q role ∧ ∀ e ∈ mid, ∃ flight, e.1.tasks t = .inFlight q role flight := by
  obtain ⟨before, s₁, check, since, p, hPast, hBegun, hChecks, hBlocked, hSince⟩ := h
  have hNotMid : (s₁, check) ∉ mid := by
    intro hMem
    rw [hMid _ hMem] at hBlocked
    cases hBlocked
  -- so the load stands in the early part
  rcases List.append_eq_append_iff.mp hPast with ⟨after, -, hEq⟩ | ⟨after, hEarly, hEq⟩
  · exact absurd (hEq ▸ List.mem_append_right _ List.mem_cons_self) hNotMid
  · cases after with
    | nil =>
      rw [List.nil_append] at hEq
      exact absurd (hEq ▸ List.mem_cons_self) hNotMid
    | cons e after =>
      simp only [List.cons_append, List.cons.injEq] at hEq
      obtain ⟨rfl, rfl⟩ := hEq
      exact ⟨⟨before, s₁, check, after, p, hEarly, hBegun, hChecks, hBlocked,
        fun e he => hSince e (List.mem_append_left _ he)⟩,
        fun e he => hSince e (List.mem_append_right _ he)⟩

end Past

/-! ## Where tasks come from -/

/-- What must have been the case for `t` to stand where it stands after a step. -/
def Origin (s : State rr Heap) (label : Label) (t : Nat) : Task rr → Prop
  | .missed q => (s.tasks t).Unchecked q ∨ Begins t q label
  | .spawning q _ _ => (s.tasks t).Unchecked q ∨ Begins t q label
  | .inFlight q role _ => (∃ flight, s.tasks t = .inFlight q role flight) ∨
      ∃ p, (s.tasks p).Unchecked q ∧ Checks p t role label ∧ s.blocked q.name = false
  | _ => True

section Origin

variable {s : State rr Heap} {label : Label} {t : Nat}

/-- A task that did not move. -/
theorem origin_self : Origin s label t (s.tasks t) := by
  cases hTask : s.tasks t with
  | missed | spawning =>
    left
    rw [hTask]
    rfl
  | inFlight q role flight => exact .inl ⟨flight, hTask⟩
  | idle | replying | releasing | leaving | scanning | timing => trivial

theorem origin_update {t' : Nat} {task : Task rr} (h : Origin s label t task) :
    Origin s label t' (Function.update s.tasks t task t') := by
  by_cases ht : t' = t
  · subst ht
    rwa [Function.update_self]
  · rw [Function.update_of_ne ht]
    exact origin_self

theorem origin_spawning {q : Request rr} {progress progress' : Spawning} {caller caller' : Caller}
    (ht : s.tasks t = .spawning q progress caller) :
    Origin s label t (.spawning q progress' caller') := by
  left
  rw [ht]
  rfl

theorem Caller.origin_resume (q : Request rr) (caller : Caller) :
    Origin s label t (caller.resume q) := by
  cases caller with
  | client cached path => trivial
  | timer rest => trivial

theorem Role.origin_resume (q : Request rr) (wire : Bytes) (role : Role) :
    Origin s label t (role.resume q wire) := by
  cases role with
  | client => trivial
  | refresh => trivial

theorem Role.origin_cancelled (role : Role) : Origin s label t (role.cancelled : Task rr) := by
  cases role with
  | client => trivial
  | refresh => trivial

end Origin

variable [DecidableEq RecordType] [DecidableEq DNSClass] {sys : System RecordType DNSClass Heap}
  {s u : State sys.rr Heap} {label : Label}

/-- **One step.** -/
theorem moves_origin (hMove : Moves s label u) (t : Nat) : Origin s label t (u.tasks t) := by
  cases hMove with
  | crash | sweep | swap => exact origin_self
  | malformed | static | lookupHit | reply | missBlocked | release | leave | tick | scan | timerDone
  | timerSkip =>
    exact origin_update trivial
  | lookupMiss | lookupRefresh => exact origin_update (.inr ⟨rfl, rfl⟩)
  | permitDenied ht | permitTaken ht | refreshBlocked ht => exact origin_update (origin_spawning ht)
  | @refreshSpawned p child q caller ht hChild hBlocked =>
    -- the parent loads the blocklist, and the child is the one in flight
    have hSpawned : Origin s (.checkRefresh p child) child (.inFlight q .refresh .entering) :=
      .inr ⟨p, by rw [ht]; rfl, ⟨rfl, rfl⟩, hBlocked⟩
    by_cases hp : t = p
    · subst hp
      simp only [State.goto, Function.update_self]
      exact Caller.origin_resume q caller
    · simp only [State.goto, Function.update_of_ne hp]
      exact origin_update hSpawned
  | @spawnReleased t' now q caller permit cache ht hRelease =>
    refine origin_update ?_
    cases permit with
    -- a task that holds a permit has still to drop it
    | true => exact origin_spawning ht
    | false => exact Caller.origin_resume q caller
  | spawnDropped ht => exact origin_update (Caller.origin_resume _ _)
  | @missAllowed t' q ht hBlocked =>
    exact origin_update (.inr ⟨t', by rw [ht]; rfl, ⟨rfl, rfl⟩, hBlocked⟩)
  | enterDirect ht | enterShared ht | enterFresh ht | initialise ht | wake ht | resolved ht
  | stored ht | uncached ht | failed ht | publish ht =>
    exact origin_update (.inl ⟨_, ht⟩)
  | publishDirect | remove => exact origin_update (Role.origin_resume _ _ _)
  | cancelWaiting | cancelDirect | cancelFetching => exact origin_update (Role.origin_cancelled _)
  | timerSpawn ht => exact origin_update (.inr rfl)

/-! ## Runs -/

/-- Every task that works on a request has begun to, and every fetch is vetted. -/
structure Watched (past : List (State sys.rr Heap × Label)) (s : State sys.rr Heap) : Prop where
  unchecked : ∀ t q, (s.tasks t).Unchecked q → Begun past t q
  flights : ∀ t q role flight, s.tasks t = .inFlight q role flight → Vetted past t q role

theorem Watched.moves {past : List (State sys.rr Heap × Label)} (h : Watched past s)
    (hMove : Moves s label u) : Watched (past ++ [(s, label)]) u := by
  constructor
  case unchecked =>
    intro t q hTask
    have hOrigin := moves_origin hMove t
    have hFrom : (s.tasks t).Unchecked q ∨ Begins t q label := by
      cases hu : u.tasks t with
      | missed q' | spawning q' =>
        rw [hu] at hTask hOrigin
        obtain rfl : q' = q := hTask
        exact hOrigin
      | _ =>
        rw [hu] at hTask
        exact hTask.elim
    rcases hFrom with hOld | hBegins
    · exact (h.unchecked t q hOld).extend hOld
    · exact begun_now hBegins
  case flights =>
    intro t q role flight hTask
    have hOrigin := moves_origin hMove t
    rw [hTask] at hOrigin
    rcases hOrigin with ⟨flight', hOld⟩ | ⟨p, hUnchecked, hChecks, hBlocked⟩
    · exact (h.flights t q role flight' hOld).extend hOld
    · exact ⟨past, s, label, [], p, rfl, ⟨h.unchecked p q hUnchecked, hUnchecked⟩, hChecks,
        hBlocked, nofun⟩

theorem run_watched {enabled : Bool} {maxSizeBytes : Nat} {blocked : Bytes → Bool}
    {labels : List Label}
    (hRun : run (step sys) (State.start sys enabled maxSizeBytes blocked) labels = some s) :
    Watched (history (step sys) (State.start sys enabled maxSizeBytes blocked) labels) s := by
  refine history_invariant (fun past s label u h hu => h.moves (step_moves hu)) ?_ hRun
  exact ⟨fun t q hTask => hTask.elim, fun t q role flight hTask => by cases hTask⟩

/-- **Static and blocked names are not forwarded.** Whatever the interleaving of
queries, refreshes, cancellations, evictions and swaps of the blocklist: a request
that the upstream is asked for has no static name, and whoever issued it loaded,
after beginning to work on it, a blocklist without the name; nothing was asked of
the upstream and nothing is stored in the cache for a static name. So once a name
is on the blocklist for good, whatever is stored for it was let through before. -/
theorem static_and_blocked_not_forwarded (hA : sys.env.alloc.Lawful) {enabled : Bool}
    {maxSizeBytes : Nat} (hMax : enabled = true → maxSizeBytes ≤ maxCacheBytes)
    {blocked : Bytes → Bool} {labels : List Label}
    (hRun : run (step sys) (State.start sys enabled maxSizeBytes blocked) labels = some s) :
    (∀ t q, (s.tasks t).asks = some q → staticHost sys q.name = none ∧ ∃ role,
      Vetted (history (step sys) (State.start sys enabled maxSizeBytes blocked) labels) t q role) ∧
    (∀ e ∈ s.upstream, ∃ q : Request sys.rr, q.raw = e.1 ∧ staticHost sys q.name = none) ∧
    (∀ i key, s.cache.state.keyAt i = some key → staticHost sys key.name = none) ∧
    ∀ early late name,
      history (step sys) (State.start sys enabled maxSizeBytes blocked) labels = early ++ late →
      (∀ e ∈ late, e.1.blocked name = true) →
      ∀ mid s' t now lockedAt storedAt rest,
        late = mid ++ (s', .settle t now lockedAt storedAt) :: rest →
        ∀ q role place wire,
          s'.tasks t = .inFlight q role (.fetching place (.settling (some wire))) →
          q.name = name → Vetted early t q role ∧
            ∀ e ∈ mid, ∃ flight, e.1.tasks t = .inFlight q role flight := by
  have hServes : Serves (fun q => staticHost sys q.name = none) s :=
    run_serves hA hMax (fun t q now _ hHost => hHost) hRun
  have hWatched := run_watched hRun
  refine ⟨?_, hServes.upstream, ?_, ?_⟩
  · intro t q hAsks
    obtain ⟨role, place, hTask⟩ := Task.asks_eq_some hAsks
    exact ⟨hServes.flight hTask, role, hWatched.flights t q role _ hTask⟩
  · intro i key hKey
    obtain ⟨l, hInv⟩ := hServes.cache.sound.inv
    obtain ⟨m, hm, rfl⟩ := CacheState.keyAt_eq_some.mp hKey
    obtain ⟨q, hHost, hEq, -⟩ := hServes.cache.only _ _ (hInv.stored hm)
    rw [← hEq]
    exact hHost
  · rintro early late name hHistory hLate mid s' t now lockedAt storedAt rest rfl q role place wire
      hTask rfl
    -- the state in which the response is stored is reached by a run of its own
    rw [← List.append_assoc] at hHistory
    obtain ⟨before, after, -, hBefore, hPast, -⟩ := history_moment hRun hHistory
    have hVetted := (run_watched hBefore).flights t q role _ hTask
    rw [hPast] at hVetted
    exact hVetted.early fun e he => hLate e (List.mem_append_left _ he)

/-- The server of `smallSystem`, with an address of its own for the letter `b`. -/
def homeSystem : System Nat Nat FirstFit.Heap :=
  { smallSystem with staticHosts := [([0x62, dot], ⟨⟨[10, 0, 0, 2], rfl⟩, 300⟩)] }

/-- A static answer, and then a refresh that awaits the upstream. -/
theorem static_and_blocked_not_forwarded_refresh :
    ∃ s q, run (step homeSystem) (State.start homeSystem true 128 fun _ => false)
        (.query 1 (ask 9 0x62) 0 :: refreshUnderWay) = some s ∧
      s.answers.map Answer.path = [.fresh, .miss, .static] ∧ (s.tasks 5).asks = some q ∧
      staticHost homeSystem q.name = none ∧ ∃ role, Vetted
        (history (step homeSystem) (State.start homeSystem true 128 fun _ => false)
          (.query 1 (ask 9 0x62) 0 :: refreshUnderWay)) 5 q role := by
  have hView : (run (step homeSystem) (State.start homeSystem true 128 fun _ => false)
      (.query 1 (ask 9 0x62) 0 :: refreshUnderWay)).map
        (fun s => (s.answers.map Answer.path, (s.tasks 5).asks.map Request.raw)) =
          some ([.fresh, .miss, .static], some (ask 3 0x61)) := by
    decide +kernel
  obtain ⟨s, hRun, hEq⟩ := Option.map_eq_some_iff.mp hView
  rw [Prod.mk.injEq] at hEq
  obtain ⟨q, hAsks, -⟩ := Option.map_eq_some_iff.mp hEq.2
  obtain ⟨hForwarded, -⟩ :=
    static_and_blocked_not_forwarded FirstFit.allocator_lawful (fun _ => by decide) hRun
  exact ⟨s, q, hRun, hEq.1, hAsks, hForwarded 5 q hAsks⟩

end DnsRs.Handler
