import DnsRs.Dot.Multiplex

/-!
# The pool of DoT connections

`DotPool` keeps its connections in a vector behind a lock. `connection` looks there for one
with a free permit. When all are busy and the vector is full, it waits for a permit of any
of them; when it is not full, it dials: it takes the lock `dialing`, looks again, dials
while the vector is unlocked, and locks it once more to push. `query_wire` runs
`connection` and then the query, and tries once more if the connection failed; `keepalive`
drops the dead connections and probes the idle ones.

`poolStep` interleaves any number of callers with the connections' own steps. One label is
one lock acquisition, one access to one connection, or the end of one wait. Inside a section
of the lock nothing is awaited: the caller cannot be dropped there, but connections go on,
and may die, between any two of its accesses. A connection is a `DotConnection`, named by
its position in `conns`, and a permit is a reserved call there.

Which dial succeeds and which connection was idle is open. A connection that nobody holds
any more stays in `conns`.
-/

namespace DnsRs.Dot

open Lib Wire

/-- `MAX_DOT_CONNECTIONS` -/
def maxDotConnections : Nat := 2

/-- `OwnedSemaphorePermit`: the connection whose `capacity` it is from, and the call there
that it was taken for. -/
structure Permit where
  semaphore : Nat
  call : Nat
  deriving DecidableEq, Repr

/-- The sections of the lock that begin with `connections.retain(..)`. -/
inductive Section where
  /-- of `connection`, with or without the lock `dialing` -/
  | lookup (dialing : Bool)
  | keepalive
  deriving DecidableEq, Repr

inductive PoolPhase where
  /-- at `self.connections.lock().await` -/
  | locking (sec : Section)
  /-- holds the lock; `kept` are the connections found alive, `rest` those to look at -/
  | retaining (sec : Section) (kept rest : List Nat)
  /-- holds the lock; in `find_map` over `try_reserve` -/
  | scanning (dialing : Bool) (rest : List Nat)
  /-- at `select_all(waits).await` -/
  | waiting (waits : List Nat)
  /-- has waited for the permit, before `is_alive` -/
  | acquired (connection : Nat) (permit : Permit)
  /-- at `self.dialing.lock().await` -/
  | queueing
  /-- holds `dialing`, at `self.connect().await` -/
  | connecting
  /-- holds `dialing`, its connection has been started -/
  | reserving (connection : Nat)
  /-- holds `dialing`, at the `lock().await` before `push` -/
  | pushing (connection : Nat) (permit : Permit)
  /-- `connection` has returned this pair -/
  | querying (connection : Nat) (permit : Permit)
  | answered (response : Bytes)
  | failed (message : String)
  /-- in the `filter_map` of `keepalive` -/
  | probing (rest : List Nat) (probes : List (Nat × Permit))
  /-- at `join_all(probes).await` -/
  | joining (probes : List (Nat × Permit))
  /-- returned from `keepalive`, or dropped -/
  | gone
  deriving DecidableEq, Repr

structure Caller where
  query : Bytes
  retried : Bool
  phase : PoolPhase
  deriving DecidableEq, Repr

/-- Call `n` of connection `k` is being run by this caller. -/
def Caller.runs (caller : Caller) (k n : Nat) : Bool :=
  match caller.phase with
  | .querying connection permit => connection = k && permit = ⟨k, n⟩
  | .joining probes => probes.contains (k, ⟨k, n⟩)
  | _ => false

structure DotPool where
  /-- every connection that was ever started -/
  conns : List DotConnection
  connections : List Nat
  lockedBy : Option Nat
  dialingBy : Option Nat
  callers : List Caller

inductive PoolLabel where
  /-- somebody calls `query_wire` -/
  | query (query : Bytes)
  /-- the timer calls `keepalive`, with the encoded probe -/
  | keepalive (probe : Bytes)
  | lock (c : Nat)
  | retain (c : Nat)
  | scan (c : Nat)
  /-- the wait for a permit of connection `k` ends first -/
  | acquire (c k : Nat)
  | checkAlive (c : Nat)
  | dial (c : Nat)
  | connected (c : Nat)
  | connectFailed (c : Nat) (error : String)
  | reserve (c : Nat)
  | push (c : Nat)
  /-- `connection.query` has returned, or was dropped -/
  | finish (c : Nat)
  | probe (c : Nat) (idle : Bool)
  | leave (c : Nat)
  | cancel (c : Nat)
  /-- a step of connection `k` -/
  | inside (k : Nat) (label : Label)

def PoolLabel.caller? : PoolLabel → Option Nat
  | .query _ | .keepalive _ | .inside _ _ => none
  | .lock c | .retain c | .scan c | .acquire c _ | .checkAlive c | .dial c | .connected c
  | .connectFailed c _ | .reserve c | .push c | .finish c | .probe c _ | .leave c | .cancel c =>
    some c

/-- A permit is taken, which is a step of a caller. -/
def Label.isReserve : Label → Bool
  | .reserve _ => true
  | _ => false

namespace DotPool

/-- `DotPool::new` -/
def new : DotPool := ⟨[], [], none, none, []⟩

def goto (s : DotPool) (c : Nat) (phase : PoolPhase) : DotPool :=
  { s with callers := s.callers.modify c fun caller => { caller with phase := phase } }

def unlock (s : DotPool) : DotPool := { s with lockedBy := none }

/-- `_dialing` is dropped, where it had been taken. -/
def hangUp (s : DotPool) (dialing : Bool) : DotPool :=
  { s with dialingBy := if dialing then none else s.dialingBy }

/-- Connection `k` takes a step. -/
def inside (s : DotPool) (k : Nat) (label : Label) : Option DotPool :=
  (s.conns[k]?).bind fun conn => (step conn label).map fun conn' =>
    { s with conns := s.conns.set k conn' }

/-- `connection.try_reserve()` -/
def tryReserve (s : DotPool) (k : Nat) (query : Bytes) : Option (Permit × DotPool) :=
  (s.conns[k]?).bind fun conn => (s.inside k (.reserve query)).map fun s' =>
    (⟨k, conn.calls.length⟩, s')

/-- The permit is dropped before it was used. -/
def dropPermit (s : DotPool) (permit : Permit) : Option DotPool :=
  s.inside permit.semaphore (.cancel permit.call)

/-- What `connection.query` is at. -/
def callPhase? (s : DotPool) (k : Nat) (permit : Permit) : Option Phase :=
  (s.conns[k]?).bind fun conn => conn.phase? permit.call

/-- `connection.query` has returned or was dropped. -/
def settled (s : DotPool) (k : Nat) (permit : Permit) : Bool :=
  match s.callPhase? k permit with
  | some (.returned _) | some .dropped => true
  | _ => false

/-- The end of an iteration of `query_wire` with this failure. -/
def retry (s : DotPool) (c : Nat) (caller : Caller) : DotFailure → DotPool
  | .connection message =>
    if caller.retried then s.goto c (.failed message)
    else { s with
      callers := s.callers.modify c fun caller =>
        { caller with retried := true, phase := .locking (.lookup false) } }
  | .protocol message => s.goto c (.failed message)

/-- One step of a caller. -/
def stepCaller (s : DotPool) (c : Nat) (caller : Caller) : PoolLabel → Option DotPool
  | .lock _ =>
    match caller.phase, s.lockedBy with
    | .locking sec, none =>
      some { s.goto c (.retaining sec [] s.connections) with lockedBy := some c }
    | _, _ => none
  | .retain _ =>
    match caller.phase with
    | .retaining sec kept (k :: rest) =>
      (s.conns[k]?).map fun conn =>
        s.goto c (.retaining sec (if conn.dead then kept else kept ++ [k]) rest)
    | .retaining (.lookup dialing) kept [] =>
      some { s.goto c (.scanning dialing kept) with connections := kept }
    | .retaining .keepalive kept [] =>
      -- `connections.clone()`; without any the probe goes through `query_wire`
      let phase := if kept.isEmpty then .locking (.lookup false) else .probing kept []
      some { s.goto c phase with connections := kept, lockedBy := none }
    | _ => none
  | .scan _ =>
    match caller.phase with
    | .scanning dialing (k :: rest) =>
      match s.tryReserve k caller.query with
      | some (permit, s') => some ((s'.goto c (.querying k permit)).unlock.hangUp dialing)
      | none => some (s.goto c (.scanning dialing rest))
    | .scanning false [] =>
      -- the first section: wait for a permit, or queue for the dial
      if maxDotConnections ≤ s.connections.length then
        some (s.goto c (.waiting s.connections)).unlock
      else some (s.goto c .queueing).unlock
    | .scanning true [] =>
      -- the second one: the vector is unlocked for the dial, `dialing` stays taken
      if s.connections.length < maxDotConnections then some (s.goto c .connecting).unlock
      else some ((s.goto c (.locking (.lookup false))).unlock.hangUp true)
    | _ => none
  | .acquire _ k =>
    match caller.phase with
    | .waiting waits =>
      if k ∈ waits then
        (s.tryReserve k caller.query).map fun (permit, s') => s'.goto c (.acquired k permit)
      else none
    | _ => none
  | .checkAlive _ =>
    match caller.phase with
    | .acquired k permit =>
      (s.conns[k]?).bind fun conn =>
        -- `continue` drops the permit
        if conn.dead then
          (s.dropPermit permit).map fun s' => s'.goto c (.locking (.lookup false))
        else some (s.goto c (.querying k permit))
    | _ => none
  | .dial _ =>
    match caller.phase, s.dialingBy with
    | .queueing, none =>
      some { s.goto c (.locking (.lookup true)) with dialingBy := some c }
    | _, _ => none
  | .connected _ =>
    match caller.phase with
    | .connecting =>
      some { s.goto c (.reserving s.conns.length) with conns := s.conns ++ [.start] }
    | _ => none
  | .connectFailed _ error =>
    match caller.phase with
    | .connecting => some ((s.goto c (.failed error)).hangUp true)
    | _ => none
  | .reserve _ =>
    match caller.phase with
    | .reserving k =>
      match s.tryReserve k caller.query with
      | some (permit, s') => some (s'.goto c (.pushing k permit))
      | none => some ((s.goto c (.failed "new DoT connection has no capacity")).hangUp true)
    | _ => none
  | .push _ =>
    match caller.phase, s.lockedBy with
    | .pushing k permit, none =>
      -- the guard of this statement is dropped at its end
      some ({ s.goto c (.querying k permit) with connections := s.connections ++ [k] }.hangUp true)
    | _, _ => none
  | .finish _ =>
    match caller.phase with
    | .querying k permit =>
      match s.callPhase? k permit with
      | some (.returned (.ok response)) => some (s.goto c (.answered response))
      | some (.returned (.error failure)) => some (s.retry c caller failure)
      | some .dropped => some (s.goto c .gone)
      | _ => none
    | _ => none
  | .probe _ idle =>
    match caller.phase with
    | .probing (k :: rest) probes =>
      if idle then
        match s.tryReserve k caller.query with
        | some (permit, s') => some (s'.goto c (.probing rest (probes ++ [(k, permit)])))
        | none => some (s.goto c (.probing rest probes))
      else some (s.goto c (.probing rest probes))
    | .probing [] probes => some (s.goto c (.joining probes))
    | _ => none
  | .leave _ =>
    match caller.phase with
    | .joining probes =>
      -- a probe that is dropped or has timed out was cancelled in its connection
      if probes.all fun probe => s.settled probe.1 probe.2 then some (s.goto c .gone) else none
    | _ => none
  | .cancel _ =>
    match caller.phase with
    | .locking (.lookup dialing) => some ((s.goto c .gone).hangUp dialing)
    | .locking .keepalive | .waiting _ | .queueing => some (s.goto c .gone)
    | .connecting => some ((s.goto c .gone).hangUp true)
    | .pushing _ permit => (s.dropPermit permit).map fun s' => (s'.goto c .gone).hangUp true
    | _ => none
  | .query _ | .keepalive _ | .inside _ _ => none

/-- A step of connection `k`: of a call, which only the caller that runs it takes, or of one
of the connection's tasks, a timer or a probe that fails it. -/
def stepInside (s : DotPool) (k : Nat) (label : Label) : Option DotPool :=
  match label.call? with
  | some n => if s.callers.any fun caller => caller.runs k n then s.inside k label else none
  | none => if label.isReserve then none else s.inside k label

end DotPool

/-- One step of the pool. -/
def poolStep (s : DotPool) (label : PoolLabel) : Option DotPool :=
  match label with
  | .query query =>
    some { s with callers := s.callers ++ [⟨query, false, .locking (.lookup false)⟩] }
  | .keepalive probe =>
    some { s with callers := s.callers ++ [⟨probe, false, .locking .keepalive⟩] }
  | .inside k label => s.stepInside k label
  | label =>
    label.caller?.bind fun c => (s.callers[c]?).bind fun caller => s.stepCaller c caller label

/-! ## What a step of the pool can do -/

/-- The transitions of the pool. -/
inductive PoolMoves (s : DotPool) : PoolLabel → DotPool → Prop where
  | query (query : Bytes) :
      PoolMoves s (.query query)
        { s with callers := s.callers ++ [⟨query, false, .locking (.lookup false)⟩] }
  | keepalive (probe : Bytes) :
      PoolMoves s (.keepalive probe)
        { s with callers := s.callers ++ [⟨probe, false, .locking .keepalive⟩] }
  | inside {k label u} (hInside : s.inside k label = some u)
      (hRuns : ∀ n, label.call? = some n →
        ∃ (c : Nat) (caller : Caller), s.callers[c]? = some caller ∧ caller.runs k n = true) :
      PoolMoves s (.inside k label) u
  | lock {c caller sec} (hc : s.callers[c]? = some caller) (hPhase : caller.phase = .locking sec)
      (hLock : s.lockedBy = none) :
      PoolMoves s (.lock c)
        { s.goto c (.retaining sec [] s.connections) with lockedBy := some c }
  | retainNext {c caller sec kept k rest kept'} (hc : s.callers[c]? = some caller)
      (hPhase : caller.phase = .retaining sec kept (k :: rest))
      (hKept : kept' = kept ∨ kept' = kept ++ [k]) :
      PoolMoves s (.retain c) (s.goto c (.retaining sec kept' rest))
  | retained {c caller dialing kept} (hc : s.callers[c]? = some caller)
      (hPhase : caller.phase = .retaining (.lookup dialing) kept []) :
      PoolMoves s (.retain c) { s.goto c (.scanning dialing kept) with connections := kept }
  | cloned {c caller kept phase} (hc : s.callers[c]? = some caller)
      (hPhase : caller.phase = .retaining .keepalive kept [])
      (hNext : phase = .locking (.lookup false) ∨ phase = .probing kept []) :
      PoolMoves s (.retain c) { s.goto c phase with connections := kept, lockedBy := none }
  | scanFound {c caller dialing k rest permit s'} (hc : s.callers[c]? = some caller)
      (hPhase : caller.phase = .scanning dialing (k :: rest))
      (hReserve : s.tryReserve k caller.query = some (permit, s')) :
      PoolMoves s (.scan c) ((s'.goto c (.querying k permit)).unlock.hangUp dialing)
  | scanNext {c caller dialing k rest} (hc : s.callers[c]? = some caller)
      (hPhase : caller.phase = .scanning dialing (k :: rest)) :
      PoolMoves s (.scan c) (s.goto c (.scanning dialing rest))
  | scanWait {c caller} (hc : s.callers[c]? = some caller)
      (hPhase : caller.phase = .scanning false []) :
      PoolMoves s (.scan c) (s.goto c (.waiting s.connections)).unlock
  | scanQueue {c caller} (hc : s.callers[c]? = some caller)
      (hPhase : caller.phase = .scanning false []) :
      PoolMoves s (.scan c) (s.goto c .queueing).unlock
  | scanConnect {c caller} (hc : s.callers[c]? = some caller)
      (hPhase : caller.phase = .scanning true [])
      (hRoom : s.connections.length < maxDotConnections) :
      PoolMoves s (.scan c) (s.goto c .connecting).unlock
  | scanAgain {c caller} (hc : s.callers[c]? = some caller)
      (hPhase : caller.phase = .scanning true []) :
      PoolMoves s (.scan c) ((s.goto c (.locking (.lookup false))).unlock.hangUp true)
  | acquire {c caller waits k permit s'} (hc : s.callers[c]? = some caller)
      (hPhase : caller.phase = .waiting waits)
      (hReserve : s.tryReserve k caller.query = some (permit, s')) :
      PoolMoves s (.acquire c k) (s'.goto c (.acquired k permit))
  | alive {c caller k permit} (hc : s.callers[c]? = some caller)
      (hPhase : caller.phase = .acquired k permit) :
      PoolMoves s (.checkAlive c) (s.goto c (.querying k permit))
  | dead {c caller k permit s'} (hc : s.callers[c]? = some caller)
      (hPhase : caller.phase = .acquired k permit) (hDrop : s.dropPermit permit = some s') :
      PoolMoves s (.checkAlive c) (s'.goto c (.locking (.lookup false)))
  | dial {c caller} (hc : s.callers[c]? = some caller) (hPhase : caller.phase = .queueing)
      (hFree : s.dialingBy = none) :
      PoolMoves s (.dial c) { s.goto c (.locking (.lookup true)) with dialingBy := some c }
  | connected {c caller} (hc : s.callers[c]? = some caller) (hPhase : caller.phase = .connecting) :
      PoolMoves s (.connected c)
        { s.goto c (.reserving s.conns.length) with conns := s.conns ++ [.start] }
  | connectFailed {c caller error} (hc : s.callers[c]? = some caller)
      (hPhase : caller.phase = .connecting) :
      PoolMoves s (.connectFailed c error) ((s.goto c (.failed error)).hangUp true)
  | reserve {c caller k permit s'} (hc : s.callers[c]? = some caller)
      (hPhase : caller.phase = .reserving k)
      (hReserve : s.tryReserve k caller.query = some (permit, s')) :
      PoolMoves s (.reserve c) (s'.goto c (.pushing k permit))
  | reserveFailed {c caller k message} (hc : s.callers[c]? = some caller)
      (hPhase : caller.phase = .reserving k) :
      PoolMoves s (.reserve c) ((s.goto c (.failed message)).hangUp true)
  | push {c caller k permit} (hc : s.callers[c]? = some caller)
      (hPhase : caller.phase = .pushing k permit) (hLock : s.lockedBy = none) :
      PoolMoves s (.push c)
        ({ s.goto c (.querying k permit) with connections := s.connections ++ [k] }.hangUp true)
  | finished {c caller k permit phase} (retried : Caller → Bool)
      (hc : s.callers[c]? = some caller)
      (hPhase : caller.phase = .querying k permit)
      (hNext : phase = .locking (.lookup false) ∨ phase = .gone ∨
        (∃ response, phase = .answered response) ∨ ∃ message, phase = .failed message) :
      PoolMoves s (.finish c)
        { s with callers := s.callers.modify c fun caller =>
          { caller with retried := retried caller, phase := phase } }
  | probeTaken {c caller k rest probes idle permit s'} (hc : s.callers[c]? = some caller)
      (hPhase : caller.phase = .probing (k :: rest) probes)
      (hReserve : s.tryReserve k caller.query = some (permit, s')) :
      PoolMoves s (.probe c idle) (s'.goto c (.probing rest (probes ++ [(k, permit)])))
  | probeSkipped {c caller k rest probes idle} (hc : s.callers[c]? = some caller)
      (hPhase : caller.phase = .probing (k :: rest) probes) :
      PoolMoves s (.probe c idle) (s.goto c (.probing rest probes))
  | probesMade {c caller probes idle} (hc : s.callers[c]? = some caller)
      (hPhase : caller.phase = .probing [] probes) :
      PoolMoves s (.probe c idle) (s.goto c (.joining probes))
  | leave {c caller probes} (hc : s.callers[c]? = some caller)
      (hPhase : caller.phase = .joining probes) : PoolMoves s (.leave c) (s.goto c .gone)
  | cancelLocking {c caller dialing} (hc : s.callers[c]? = some caller)
      (hPhase : caller.phase = .locking (.lookup dialing)) :
      PoolMoves s (.cancel c) ((s.goto c .gone).hangUp dialing)
  | cancelIdle {c caller} (hc : s.callers[c]? = some caller)
      (hPhase : caller.phase = .locking .keepalive ∨ (∃ waits, caller.phase = .waiting waits) ∨
        caller.phase = .queueing) : PoolMoves s (.cancel c) (s.goto c .gone)
  | cancelConnecting {c caller} (hc : s.callers[c]? = some caller)
      (hPhase : caller.phase = .connecting) :
      PoolMoves s (.cancel c) ((s.goto c .gone).hangUp true)
  | cancelPushing {c caller k permit s'} (hc : s.callers[c]? = some caller)
      (hPhase : caller.phase = .pushing k permit) (hDrop : s.dropPermit permit = some s') :
      PoolMoves s (.cancel c) ((s'.goto c .gone).hangUp true)

section Inversion

variable {s u : DotPool} {c : Nat} {caller : Caller}

/-- The steps of a caller. -/
theorem stepCaller_moves {label : PoolLabel} (hc : s.callers[c]? = some caller)
    (hLabel : label.caller? = some c) (h : s.stepCaller c caller label = some u) :
    PoolMoves s label u := by
  cases label <;> simp only [PoolLabel.caller?] at hLabel <;> try contradiction
  all_goals cases hLabel
  case lock =>
    simp only [DotPool.stepCaller] at h
    split at h
    · cases h
      exact .lock hc ‹_› ‹_›
    · cases h
  case retain =>
    simp only [DotPool.stepCaller] at h
    split at h
    · obtain ⟨conn, hk, rfl⟩ := Option.map_eq_some_iff.mp h
      refine .retainNext hc ‹_› ?_
      split
      · exact .inl rfl
      · exact .inr rfl
    · cases h
      exact .retained hc ‹_›
    · cases h
      refine .cloned hc ‹_› ?_
      split
      · exact .inl rfl
      · exact .inr rfl
    · cases h
  case scan =>
    simp only [DotPool.stepCaller] at h
    split at h
    · split at h
      · cases h
        exact .scanFound hc ‹_› ‹_›
      · cases h
        exact .scanNext hc ‹_›
    · split at h
      · cases h
        exact .scanWait hc ‹_›
      · cases h
        exact .scanQueue hc ‹_›
    · split at h
      · cases h
        exact .scanConnect hc ‹_› ‹_›
      · cases h
        exact .scanAgain hc ‹_›
    · cases h
  case acquire =>
    simp only [DotPool.stepCaller] at h
    split at h
    · split at h
      · obtain ⟨⟨permit, s'⟩, hReserve, rfl⟩ := Option.map_eq_some_iff.mp h
        exact .acquire hc ‹_› hReserve
      · cases h
    · cases h
  case checkAlive =>
    simp only [DotPool.stepCaller] at h
    split at h
    · obtain ⟨conn, hk, h⟩ := Option.bind_eq_some_iff.mp h
      split at h
      · obtain ⟨s', hDrop, rfl⟩ := Option.map_eq_some_iff.mp h
        exact .dead hc ‹_› hDrop
      · cases h
        exact .alive hc ‹_›
    · cases h
  case dial =>
    simp only [DotPool.stepCaller] at h
    split at h
    · cases h
      exact .dial hc ‹_› ‹_›
    · cases h
  case connected =>
    simp only [DotPool.stepCaller] at h
    split at h
    · cases h
      exact .connected hc ‹_›
    · cases h
  case connectFailed error =>
    simp only [DotPool.stepCaller] at h
    split at h
    · cases h
      exact .connectFailed hc ‹_›
    · cases h
  case reserve =>
    simp only [DotPool.stepCaller] at h
    split at h
    · split at h
      · cases h
        exact .reserve hc ‹_› ‹_›
      · cases h
        exact .reserveFailed hc ‹_›
    · cases h
  case push =>
    simp only [DotPool.stepCaller] at h
    split at h
    · cases h
      exact .push hc ‹_› ‹_›
    · cases h
  case finish =>
    simp only [DotPool.stepCaller] at h
    split at h
    · split at h
      · cases h
        exact .finished Caller.retried hc ‹_› (.inr (.inr (.inl ⟨_, rfl⟩)))
      · cases h
        unfold DotPool.retry
        split
        · split
          · exact .finished Caller.retried hc ‹_› (.inr (.inr (.inr ⟨_, rfl⟩)))
          · exact .finished (fun _ => true) hc ‹_› (.inl rfl)
        · exact .finished Caller.retried hc ‹_› (.inr (.inr (.inr ⟨_, rfl⟩)))
      · cases h
        exact .finished Caller.retried hc ‹_› (.inr (.inl rfl))
      · cases h
    · cases h
  case probe idle =>
    simp only [DotPool.stepCaller] at h
    split at h
    · split at h
      · split at h
        · cases h
          exact .probeTaken hc ‹_› ‹_›
        · cases h
          exact .probeSkipped hc ‹_›
      · cases h
        exact .probeSkipped hc ‹_›
    · cases h
      exact .probesMade hc ‹_›
    · cases h
  case leave =>
    simp only [DotPool.stepCaller] at h
    split at h
    · split at h
      · cases h
        exact .leave hc ‹_›
      · cases h
    · cases h
  case cancel =>
    simp only [DotPool.stepCaller] at h
    split at h
    · cases h
      exact .cancelLocking hc ‹_›
    · cases h
      exact .cancelIdle hc (.inl ‹_›)
    · cases h
      exact .cancelIdle hc (.inr (.inl ⟨_, ‹_›⟩))
    · cases h
      exact .cancelIdle hc (.inr (.inr ‹_›))
    · cases h
      exact .cancelConnecting hc ‹_›
    · obtain ⟨s', hDrop, rfl⟩ := Option.map_eq_some_iff.mp h
      exact .cancelPushing hc ‹_› hDrop
    · cases h

/-- **Inversion of `poolStep`.** -/
theorem poolStep_moves {label : PoolLabel} (h : poolStep s label = some u) :
    PoolMoves s label u := by
  unfold poolStep at h
  split at h
  · cases h
    exact .query _
  · cases h
    exact .keepalive _
  · unfold DotPool.stepInside at h
    split at h
    · rename_i hCall
      split at h
      · rename_i hAny
        refine .inside h fun n hn => ?_
        rw [hCall] at hn
        cases hn
        obtain ⟨caller, hMem, hRuns⟩ := List.any_eq_true.mp hAny
        obtain ⟨c, hc⟩ := List.getElem?_of_mem hMem
        exact ⟨c, caller, hc, hRuns⟩
      · cases h
    · rename_i hCall
      split at h
      · cases h
      · refine .inside h fun n hn => ?_
        rw [hCall] at hn
        cases hn
  · obtain ⟨c, hLabel, h⟩ := Option.bind_eq_some_iff.mp h
    obtain ⟨caller, hc, h⟩ := Option.bind_eq_some_iff.mp h
    exact stepCaller_moves hc hLabel h

end Inversion

end DnsRs.Dot
