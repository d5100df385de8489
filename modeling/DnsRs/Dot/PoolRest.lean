import DnsRs.Dot.PoolPermits

/-!
# A pool at rest waits for its peers

The pool has two locks, its connections one each, and whoever waits for a permit waits for
other callers to give one back. Nothing of that can block for good: locks and permits have
holders (`Held`, `Tended`), and a holder goes on.

* `AtRest` — no party can take a step of its own.
* `pool_waits_for_peers` — then every caller has returned or waits for somebody outside: for a
  dial, for the response to its own query, or for a permit of connections that have 256
  responses outstanding.
-/

namespace DnsRs.Dot

open Lib Wire DotConnection

/-- A step the program takes by itself: not a new caller, not the end of a dial, nothing that
arrives or fails on the wire, no timer and no dropped future. -/
def Label.internal : Label → Bool
  | .check _ | .lock _ | .recheck _ | .insert _ _ | .send _ | .stop _ | .deliver _ | .write
  | .writerFail | .writerClosed | .readerFail | .readerClosed | .drain | .timerFail => true
  | _ => false

def PoolLabel.internal : PoolLabel → Bool
  | .lock _ | .retain _ | .scan _ | .acquire _ _ | .checkAlive _ | .dial _ | .reserve _ | .push _
  | .finish _ | .probe _ _ | .leave _ => true
  | .inside _ label => label.internal
  | _ => false

/-- The connection is alive, has written all it had to write, and reads. -/
structure Listening (conn : DotConnection) : Prop where
  alive : conn.dead = false
  reader : conn.reader = .running
  writer : conn.writer = .running
  written : conn.writes = []

/-- The call waits for the response to its query. -/
structure AwaitsPeer (s : DotPool) (k : Nat) (permit : Permit) : Prop where
  conn : ∃ conn, s.conns[k]? = some conn ∧ Listening conn ∧
    conn.phase? permit.call = some .waiting ∧ ∃ e ∈ conn.pending, e.2.call = permit.call

/-- The caller has returned, or waits for somebody outside. -/
def PoolPhase.Rests (s : DotPool) : PoolPhase → Prop
  | .answered _ | .failed _ | .gone | .connecting => True
  -- behind a dial
  | .queueing => ∃ (c : Nat) (caller : Caller), s.callers[c]? = some caller ∧
      caller.phase = .connecting
  | .waiting waits => waits ≠ [] ∧ ∀ k ∈ waits, ∃ conn, s.conns[k]? = some conn ∧
      Listening conn ∧ conn.pending.length = maxDotInFlight
  | .querying k permit => AwaitsPeer s k permit
  | .joining probes => ∃ e ∈ probes, AwaitsPeer s e.1 e.2
  | _ => False

/-- Whoever waits for a permit waits for some connection. -/
def Waited (s : DotPool) : Prop :=
  ∀ (c : Nat) (caller : Caller), s.callers[c]? = some caller → caller.phase ≠ .waiting []

section Waited

variable {s u : DotPool} {c : Nat} {caller : Caller}

theorem Waited.modify (h : Waited s) (hc : s.callers[c]? = some caller) {f : Caller → Caller}
    (hCallers : u.callers = s.callers.modify c f) (hPhase : (f caller).phase ≠ .waiting []) :
    Waited u := by
  intro c' caller' hc'
  rw [hCallers] at hc'
  rcases getElem?_modify_cases hc hc' with ⟨rfl, rfl⟩ | ⟨-, hc'⟩
  · exact hPhase
  · exact h c' caller' hc'

theorem Waited.append (h : Waited s) {new : Caller} (hPhase : new.phase ≠ .waiting []) :
    Waited { s with callers := s.callers ++ [new] } := by
  intro c caller hc
  rcases getElem?_append_one hc with hc | ⟨-, rfl⟩
  · exact h c caller hc
  · exact hPhase

theorem waited_step {label : PoolLabel} (h : Waited s) (hStep : poolStep s label = some u) :
    Waited u := by
  cases poolStep_moves hStep with
  | query | keepalive => exact h.append fun hEq => by cases hEq
  | inside hInside =>
    obtain ⟨conn, conn', -, -, rfl⟩ := inside_eq_some.mp hInside
    exact h
  | @scanWait c caller hc hPhase =>
    -- it waits only where the vector is full
    rcases scan_first hc hPhase hStep with ⟨hFull, -⟩ | ⟨-, hSame⟩
    · refine h.modify hc rfl fun hEq => ?_
      have hNil : s.connections = [] := PoolPhase.waiting.inj hEq
      rw [hNil] at hFull
      cases hFull
    · rw [hSame]
      exact h.modify hc rfl fun hEq => by cases hEq
  | scanFound hc hPhase hReserve | acquire hc hPhase hReserve | reserve hc hPhase hReserve
  | probeTaken hc hPhase hReserve =>
    obtain ⟨conn, -, hInside, -⟩ := tryReserve_eq_some.mp hReserve
    obtain ⟨_, _, -, -, rfl⟩ := inside_eq_some.mp hInside
    exact h.modify hc rfl fun hEq => by cases hEq
  | dead hc hPhase hDrop | cancelPushing hc hPhase hDrop =>
    obtain ⟨_, _, -, -, rfl⟩ := inside_eq_some.mp hDrop
    exact h.modify hc rfl fun hEq => by cases hEq
  | cloned hc hPhase hNext =>
    refine h.modify hc rfl ?_
    rcases hNext with rfl | rfl <;> exact fun hEq => by cases hEq
  | finished retried hc hPhase hNext =>
    refine h.modify hc rfl ?_
    rcases hNext with rfl | rfl | ⟨_, rfl⟩ | ⟨_, rfl⟩ <;> exact fun hEq => by cases hEq
  | lock hc | retainNext hc | retained hc | scanNext hc | scanQueue hc | scanConnect hc
  | scanAgain hc | alive hc | dial hc | connected hc | connectFailed hc | reserveFailed hc
  | push hc | probeSkipped hc | probesMade hc | leave hc | cancelLocking hc | cancelIdle hc
  | cancelConnecting hc => exact h.modify hc rfl fun hEq => by cases hEq

end Waited

/-- A pool in which nobody can go on by himself. -/
structure AtRest (s : DotPool) : Prop where
  permits : Permits s
  held : Held s []
  waited : Waited s
  stuck : ∀ label, label.internal = true → poolStep s label = none

section AtRest

variable {s : DotPool} {c k n : Nat} {caller : Caller} {conn : DotConnection} {call : Call}

/-- What a caller could do by itself it would do. -/
theorem AtRest.idle (h : AtRest s) (label : PoolLabel) (hc : s.callers[c]? = some caller)
    (hLabel : label.caller? = some c) (hInternal : label.internal = true) :
    s.stepCaller c caller label = none := by
  rw [← poolStep_caller hc hLabel]
  exact h.stuck label hInternal

/-- Nobody is in a section of the lock. -/
theorem AtRest.not_locks (h : AtRest s) (hc : s.callers[c]? = some caller) :
    caller.phase.locks = false := by
  by_contra hLocks
  have hRetain := h.idle (.retain c) hc rfl rfl
  have hScan := h.idle (.scan c) hc rfl rfl
  have hNames := h.held.names c caller hc
  cases hPhase : caller.phase with
  | retaining sec kept rest =>
    cases rest with
    | cons k rest =>
      -- the next connection to look at is there
      rw [hPhase] at hNames
      have hk := List.getElem?_eq_getElem (hNames k (List.mem_append_right _ List.mem_cons_self))
      simp only [DotPool.stepCaller, hPhase, hk, Option.map_some] at hRetain
      cases hRetain
    | nil =>
      cases sec <;> simp only [DotPool.stepCaller, hPhase] at hRetain <;> cases hRetain
  | scanning dialing rest =>
    cases rest with
    | cons k rest =>
      simp only [DotPool.stepCaller, hPhase] at hScan
      split at hScan <;> cases hScan
    | nil =>
      cases dialing <;> simp only [DotPool.stepCaller, hPhase] at hScan <;> split at hScan <;>
        cases hScan
  | locking | waiting | acquired | queueing | connecting | reserving | pushing | querying
  | answered | failed | probing | joining | gone =>
    rw [hPhase] at hLocks
    exact hLocks rfl

theorem AtRest.unlocked (h : AtRest s) : s.lockedBy = none := by
  cases hLock : s.lockedBy with
  | none => rfl
  | some c =>
    obtain ⟨caller, hc, hLocks⟩ := h.held.lock c hLock
    rw [h.not_locks hc] at hLocks
    cases hLocks

/-- The phases in which a caller can always go on. -/
theorem AtRest.phase (h : AtRest s) (hc : s.callers[c]? = some caller) :
    (∀ sec, caller.phase ≠ .locking sec) ∧ (∀ k permit, caller.phase ≠ .acquired k permit) ∧
    (∀ k, caller.phase ≠ .reserving k) ∧ (∀ k permit, caller.phase ≠ .pushing k permit) ∧
    ∀ rest probes, caller.phase ≠ .probing rest probes := by
  refine ⟨fun sec hPhase => ?_, fun k permit hPhase => ?_, fun k hPhase => ?_,
    fun k permit hPhase => ?_, fun rest probes hPhase => ?_⟩
  · have hLock := h.idle (.lock c) hc rfl rfl
    simp only [DotPool.stepCaller, hPhase, h.unlocked] at hLock
    cases hLock
  · have hCheck := h.idle (.checkAlive c) hc rfl rfl
    have hReserved := h.permits.unused c caller hc (k, permit) (by rw [hPhase]; exact .head _)
    obtain ⟨hSem, -⟩ := h.permits.held c caller hc (k, permit) (by rw [hPhase]; exact .head _)
    obtain ⟨conn, hk, hCall⟩ := Option.bind_eq_some_iff.mp hReserved
    obtain ⟨call, hn, hEarly⟩ := Option.map_eq_some_iff.mp hCall
    obtain ⟨labels, hConn⟩ := h.permits.started k conn hk
    simp only [DotPool.stepCaller, hPhase, hk, Option.bind_some] at hCheck
    split at hCheck
    · -- on a dead connection the permit can be dropped
      dsimp only at hSem
      rw [DotPool.dropPermit, DotPool.inside, hSem, hk, Option.bind_some, step,
        if_pos (book_run hConn).fault] at hCheck
      simp only [Label.call?, hn, Option.bind_some, stepCall, hEarly, Option.map_some] at hCheck
      cases hCheck
    · cases hCheck
  · have hReserve := h.idle (.reserve c) hc rfl rfl
    simp only [DotPool.stepCaller, hPhase] at hReserve
    split at hReserve <;> cases hReserve
  · have hPush := h.idle (.push c) hc rfl rfl
    simp only [DotPool.stepCaller, hPhase, h.unlocked] at hPush
    cases hPush
  · have hProbe := h.idle (.probe c false) hc rfl rfl
    cases rest with
    | nil | cons =>
      simp only [DotPool.stepCaller, hPhase] at hProbe
      cases hProbe

/-- Whoever has a permit runs its call. -/
theorem AtRest.runs (h : AtRest s) (hc : s.callers[c]? = some caller)
    (hMem : (k, ⟨k, n⟩) ∈ caller.phase.pairs) : caller.runs k n = true := by
  obtain ⟨-, hAcquired, -, hPushing, hProbing⟩ := h.phase hc
  unfold Caller.runs
  cases hPhase : caller.phase with
  | querying connection permit =>
    rw [hPhase] at hMem
    cases List.mem_singleton.mp hMem
    simp
  | joining probes =>
    rw [hPhase] at hMem
    exact List.contains_iff_mem.mpr hMem
  | acquired connection permit => exact absurd hPhase (hAcquired _ _)
  | pushing connection permit => exact absurd hPhase (hPushing _ _)
  | probing rest probes => exact absurd hPhase (hProbing _ _)
  | locking | retaining | scanning | waiting | queueing | connecting | reserving | answered | failed
  | gone =>
    rw [hPhase] at hMem
    cases hMem

/-- A call that a caller runs cannot take a step of its own either. -/
theorem AtRest.call_idle (h : AtRest s) (hk : s.conns[k]? = some conn)
    (hn : conn.calls[n]? = some call) (hc : s.callers[c]? = some caller)
    (hMem : (k, ⟨k, n⟩) ∈ caller.phase.pairs) (label : Label) (hLabel : label.call? = some n)
    (hInternal : label.internal = true) : conn.stepCall n call label = none := by
  have hNone := h.stuck (.inside k label) hInternal
  have hAny : s.callers.any (fun caller => caller.runs k n) = true :=
    List.any_eq_true.mpr ⟨caller, List.mem_of_getElem? hc, h.runs hc hMem⟩
  obtain ⟨labels, hConn⟩ := h.permits.started k conn hk
  unfold poolStep DotPool.stepInside at hNone
  simp only [hLabel, hAny, if_true, DotPool.inside, hk, Option.bind_some, Option.map_eq_none_iff]
    at hNone
  rw [step, if_pos (book_run hConn).fault] at hNone
  simpa only [hLabel, hn, Option.bind_some] using hNone

/-- Nor can the tasks of a connection. -/
theorem AtRest.task_idle (h : AtRest s) (hk : s.conns[k]? = some conn) (label : Label)
    (hLabel : label.call? = none) (hReserve : label.isReserve = false)
    (hInternal : label.internal = true) : conn.stepTask label = none := by
  have hNone := h.stuck (.inside k label) hInternal
  obtain ⟨labels, hConn⟩ := h.permits.started k conn hk
  unfold poolStep DotPool.stepInside at hNone
  simp only [hLabel, hReserve, Bool.false_eq_true, if_false, DotPool.inside, hk, Option.bind_some,
    Option.map_eq_none_iff] at hNone
  rw [step, if_pos (book_run hConn).fault] at hNone
  simpa only [hLabel] using hNone

/-- At rest no permit is out: whoever had one would register its query. -/
theorem AtRest.spent (h : AtRest s) (hk : s.conns[k]? = some conn) :
    conn.lockedBy = none ∧
    ∀ (n : Nat) (call : Call), conn.calls[n]? = some call → call.phase.holdsPermit = false := by
  obtain ⟨labels, hConn⟩ := h.permits.started k conn hk
  obtain ⟨hBook, hShut, hTended⟩ := tended_run hConn
  -- before, under and past the lock
  have hStep : ∀ (n : Nat) (call : Call), conn.calls[n]? = some call →
      call.phase.holdsPermit = true → ∀ label : Label, label.call? = some n →
      label.internal = true → conn.stepCall n call label = none := by
    intro n call hn hHolds label hLabel hInternal
    obtain ⟨c, caller, hc, hMem⟩ :=
      (h.held.permits k conn n call hk hn hHolds).resolve_left List.not_mem_nil
    exact h.call_idle hk hn hc hMem label hLabel hInternal
  have hInside : ∀ (n : Nat) (call : Call), conn.calls[n]? = some call →
      call.phase ≠ .locked ∧ call.phase ≠ .cleared := by
    refine fun n call hn => ⟨fun hPhase => ?_, fun hPhase => ?_⟩
    · have hNone := hStep n call hn (by rw [hPhase]; rfl) (.recheck n) rfl rfl
      simp only [stepCall, hPhase, if_true] at hNone
      cases hNone
    · have hNone := hStep n call hn (by rw [hPhase]; rfl) (.insert n 0) rfl rfl
      simp only [stepCall, hPhase, if_true] at hNone
      cases hNone
  have hFree : conn.lockedBy = none := by
    cases hLock : conn.lockedBy with
    | none => rfl
    | some m =>
      rcases hTended.lock m hLock with hPhase | hPhase
      · obtain ⟨call, hm, hLocked⟩ := Option.map_eq_some_iff.mp hPhase
        exact absurd hLocked (hInside m call hm).1
      · obtain ⟨call, hm, hCleared⟩ := Option.map_eq_some_iff.mp hPhase
        exact absurd hCleared (hInside m call hm).2
  refine ⟨hFree, fun n call hn => ?_⟩
  by_contra hHolds
  rw [Bool.not_eq_false] at hHolds
  have hNone := hStep n call hn hHolds
  cases hPhase : call.phase with
  | reserved =>
    have hCheck := hNone (.check n) rfl rfl
    simp only [stepCall, hPhase, if_true] at hCheck
    cases hCheck
  | checked =>
    have hLock := hNone (.lock n) rfl rfl
    simp only [stepCall, hPhase, hFree, and_self, if_true] at hLock
    cases hLock
  | locked => exact (hInside n call hn).1 hPhase
  | cleared => exact (hInside n call hn).2 hPhase
  | inserted | stopping | waiting | returned | dropped =>
    rw [hPhase] at hHolds
    cases hHolds

/-- At rest a connection with pending queries is alive and has nothing left to do but read. -/
theorem AtRest.listening (h : AtRest s) (hk : s.conns[k]? = some conn) (hPending : conn.pending ≠ []) :
    Listening conn := by
  obtain ⟨labels, hConn⟩ := h.permits.started k conn hk
  obtain ⟨hBook, hShut, hTended⟩ := tended_run hConn
  obtain ⟨hFree, -⟩ := h.spent hk
  have hTask := fun label => h.task_idle hk label
  have hAlive : conn.dead = false := by
    by_contra hDead
    have hFailed := hShut.failed (by simpa using hDead)
    have hDrain := hTask .drain rfl rfl rfl
    cases hState : conn.drain with
    | idle => exact hFailed hState
    | owed error =>
      -- the lock is free, so the drain can run
      simp only [stepTask, hState, hFree] at hDrain
      cases hDrain
    | done => exact hPending (hShut.done hState).1
  have hReader : conn.reader = .running := by
    cases hState : conn.reader with
    | running => rfl
    | failing error =>
      have hFail := hTask .readerFail rfl rfl rfl
      simp only [stepTask, hState] at hFail
      cases hFail
    | ended => exact absurd hState (hShut.alive hAlive).2.2
  have hWriter : conn.writer = .running := by
    cases hState : conn.writer with
    | running => rfl
    | failing error =>
      have hFail := hTask .writerFail rfl rfl rfl
      simp only [stepTask, hState] at hFail
      cases hFail
    | ended => exact absurd hState (hTended.writer hAlive)
  refine ⟨hAlive, hReader, hWriter, ?_⟩
  cases hWrites : conn.writes with
  | nil => rfl
  | cons frame writes =>
    have hWrite := hTask .write rfl rfl rfl
    simp only [stepTask, hWriter, hWrites] at hWrite
    cases hWrite

/-- A call that somebody waits for and that is not over waits for its response. -/
theorem AtRest.awaits {permit : Permit} (h : AtRest s) (hc : s.callers[c]? = some caller)
    (hMem : (k, permit) ∈ caller.phase.pairs) (hOpen : s.settled k permit = false) :
    AwaitsPeer s k permit := by
  obtain ⟨hSem, conn, hk, hLt⟩ := h.permits.held c caller hc _ hMem
  obtain ⟨semaphore, n⟩ := permit
  dsimp only at hSem hLt hk
  subst hSem
  have hn := List.getElem?_eq_getElem hLt
  obtain ⟨labels, hConn⟩ := h.permits.started _ conn hk
  obtain ⟨-, -, hTended⟩ := tended_run hConn
  obtain ⟨-, hSpent⟩ := h.spent hk
  have hIdle := h.call_idle hk hn hc hMem
  have hHolds := hSpent n _ hn
  generalize conn.calls[n] = call at hn hIdle hHolds
  unfold DotPool.settled DotPool.callPhase? DotConnection.phase? at hOpen
  rw [hk, Option.bind_some, hn, Option.map_some] at hOpen
  cases hPhase : call.phase with
  | waiting =>
    -- without a reply its entry is still there
    have hDeliver := hIdle (.deliver n) rfl rfl
    simp only [stepCall, hPhase, if_true] at hDeliver
    split at hDeliver
    · cases hDeliver
    · split at hDeliver
      · rename_i hAny
        obtain ⟨e, he, hCall⟩ := List.any_eq_true.mp hAny
        rw [beq_iff_eq] at hCall
        refine ⟨conn, hk, h.listening hk (List.ne_nil_of_mem he), ?_, e, he, hCall⟩
        rw [DotConnection.phase?, hn, Option.map_some, hPhase]
      · cases hDeliver
  | inserted =>
    have hSend := hIdle (.send n) rfl rfl
    obtain ⟨a, hAssigned⟩ := Option.ne_none_iff_exists'.mp (hTended.queued n call hn hPhase)
    simp only [stepCall, hPhase, hAssigned] at hSend
    cases hSend
  | stopping =>
    have hStop := hIdle (.stop n) rfl rfl
    simp only [stepCall, hPhase, if_true] at hStop
    cases hStop
  | returned | dropped =>
    rw [hPhase] at hOpen
    cases hOpen
  | reserved | checked | locked | cleared =>
    rw [hPhase] at hHolds
    cases hHolds

/-- At rest everybody has returned or waits for somebody outside. -/
theorem AtRest.rests (h : AtRest s) (hc : s.callers[c]? = some caller) : caller.phase.Rests s := by
  have hLocks := h.not_locks hc
  obtain ⟨hLocking, hAcquired, hReserving, hPushing, hProbing⟩ := h.phase hc
  cases hPhase : caller.phase with
  | answered | failed | gone | connecting => trivial
  | locking sec => exact absurd hPhase (hLocking sec)
  | retaining | scanning =>
    rw [hPhase] at hLocks
    cases hLocks
  | acquired k permit => exact absurd hPhase (hAcquired k permit)
  | reserving k => exact absurd hPhase (hReserving k)
  | pushing k permit => exact absurd hPhase (hPushing k permit)
  | probing rest probes => exact absurd hPhase (hProbing rest probes)
  | queueing =>
    -- the lock is taken, and of those who may have it only a dial takes time
    have hDial := h.idle (.dial c) hc rfl rfl
    cases hHolder : s.dialingBy with
    | none =>
      simp only [DotPool.stepCaller, hPhase, hHolder] at hDial
      cases hDial
    | some c' =>
      obtain ⟨caller', hc', hDials⟩ := h.held.dialing c' hHolder
      have hLocks' := h.not_locks hc'
      obtain ⟨hLocking', -, hReserving', hPushing', -⟩ := h.phase hc'
      refine ⟨c', caller', hc', ?_⟩
      cases hPhase' : caller'.phase with
      | connecting => rfl
      | locking sec => exact absurd hPhase' (hLocking' sec)
      | reserving k => exact absurd hPhase' (hReserving' k)
      | pushing k permit => exact absurd hPhase' (hPushing' k permit)
      | retaining | scanning =>
        rw [hPhase'] at hLocks'
        cases hLocks'
      | waiting | acquired | queueing | querying | answered | failed | probing | joining | gone =>
        rw [hPhase'] at hDials
        cases hDials
  | waiting waits =>
    refine ⟨fun hNil => h.waited c caller hc (by rw [hPhase, hNil]), fun k hk => ?_⟩
    have hKnown := h.held.names c caller hc k (by rw [hPhase]; exact hk)
    have hConn := List.getElem?_eq_getElem hKnown
    generalize s.conns[k] = conn at hConn
    obtain ⟨labels, hRun⟩ := h.permits.started k conn hConn
    have hBook := book_run hRun
    obtain ⟨-, hSpent⟩ := h.spent hConn
    -- no permit is free, and none is with a call
    have hAcquire := h.idle (.acquire c k) hc rfl rfl
    have hNone : conn.available = 0 := by
      by_contra hSome
      simp only [DotPool.stepCaller, hPhase, hk, if_true, DotPool.tryReserve, DotPool.inside,
        hConn, Option.bind_some, step, hBook.fault, Label.call?, stepTask,
        Nat.pos_of_ne_zero hSome, Option.map_some] at hAcquire
      cases hAcquire
    have hCalls : conn.calls.countP (·.phase.holdsPermit) = 0 := by
      refine List.countP_eq_zero.mpr fun call hCall => ?_
      obtain ⟨n, hn⟩ := List.getElem?_of_mem hCall
      rw [hSpent n call hn]
      exact Bool.false_ne_true
    have hFull : conn.pending.length = maxDotInFlight := by
      have := hBook.permits
      omega
    refine ⟨conn, hConn, h.listening hConn fun hNil => ?_, hFull⟩
    rw [hNil] at hFull
    cases hFull
  | querying k permit =>
    refine h.awaits hc (by rw [hPhase]; exact .head _) ?_
    by_contra hSettled
    have hFinish := h.idle (.finish c) hc rfl rfl
    simp only [DotPool.stepCaller, hPhase] at hFinish
    unfold DotPool.settled at hSettled
    split at hFinish
    · cases hFinish
    · cases hFinish
    · cases hFinish
    · rename_i hOk hError hDropped
      split at hSettled
      · rename_i reply hReturned
        cases reply with
        | ok response => exact hOk response hReturned
        | error failure => exact hError failure hReturned
      · rename_i hGone
        exact hDropped hGone
      · exact hSettled rfl
  | joining probes =>
    have hLeave := h.idle (.leave c) hc rfl rfl
    simp only [DotPool.stepCaller, hPhase] at hLeave
    split at hLeave
    · cases hLeave
    · rename_i hSome
      rw [Bool.not_eq_true, List.all_eq_false] at hSome
      obtain ⟨e, he, hOpen⟩ := hSome
      refine ⟨e, he, h.awaits hc (by rw [hPhase]; exact he) (by simpa using hOpen)⟩

end AtRest

/-- **No deadlock.** In every state the pool can reach, some party can take a step of its own —
a caller, a call on one of the connections, or a task — or every caller has returned or waits
for somebody outside: for the end of a dial, its own or the one it queues behind; for the
response to its own query, on a connection that is alive, has sent the query and is reading; or
for a permit, of connections that are alive and wait for 256 responses each. -/
theorem pool_waits_for_peers {labels : List PoolLabel} {s : DotPool}
    (hRun : run poolStep .new labels = some s) :
    (∃ label u, label.internal = true ∧ poolStep s label = some u) ∨
    ∀ (c : Nat) (caller : Caller), s.callers[c]? = some caller → caller.phase.Rests s := by
  by_cases hMoves : ∃ label u, label.internal = true ∧ poolStep s label = some u
  · exact .inl hMoves
  · refine .inr fun c caller hc => ?_
    obtain ⟨hPermits, hHeld⟩ := held_run hRun
    have hWaited : Waited s := by
      refine run_invariant (fun _ _ _ => waited_step) ?_ hRun
      exact fun c caller hc => by cases hc
    refine AtRest.rests ⟨hPermits, hHeld, hWaited, fun label hInternal => ?_⟩ hc
    cases hStep : poolStep s label with
    | none => rfl
    | some u => exact absurd ⟨label, u, hInternal, hStep⟩ hMoves

/-- Nobody goes on by himself while all there is is a dial, and callers that queue behind it. -/
theorem dialing_stuck {s : DotPool} {label : PoolLabel} (hConns : s.conns = [])
    (hDial : s.dialingBy ≠ none)
    (hPhases : ∀ caller ∈ s.callers, caller.phase = .connecting ∨ caller.phase = .queueing)
    (hInternal : label.internal = true) : poolStep s label = none := by
  obtain ⟨dialer, hDialer⟩ := Option.ne_none_iff_exists'.mp hDial
  have hOwn : ∀ c, label.caller? = some c → poolStep s label = none := by
    intro c hLabel
    cases hc : s.callers[c]? with
    | none => cases label <;> cases hLabel <;> simp [poolStep, PoolLabel.caller?, hc]
    | some caller =>
      rw [poolStep_caller hc hLabel]
      rcases hPhases caller (List.mem_of_getElem? hc) with hPhase | hPhase
      -- who connects waits for the outside, who queues for the dialer
      · cases label <;> simp only [DotPool.stepCaller, hPhase]
        all_goals cases hInternal
      · cases label <;> simp only [DotPool.stepCaller, hPhase, hDialer]
        all_goals cases hInternal
  cases label with
  | query | keepalive | connected | connectFailed | cancel => cases hInternal
  | inside k label =>
    have hNone : s.inside k label = none := by
      rw [DotPool.inside, hConns]
      rfl
    simp only [poolStep, DotPool.stepInside, hNone, ite_self]
    split <;> rfl
  | lock c | retain c | scan c | acquire c | checkAlive c | dial c | reserve c | push c | finish c
  | probe c | leave c => exact hOwn c rfl

/-- One caller dials, another one queues behind it, and both rest. -/
theorem waits_for_peers_dialing :
    ∃ s, run poolStep .new (twoDials.take 12) = some s ∧
      s.callers.map Caller.phase = [.connecting, .queueing] ∧
      (¬ ∃ label u, label.internal = true ∧ poolStep s label = some u) ∧
      ∀ (c : Nat) (caller : Caller), s.callers[c]? = some caller → caller.phase.Rests s := by
  have hView : (run poolStep .new (twoDials.take 12)).map (fun s =>
      (s.callers.map Caller.phase, s.conns.length, s.dialingBy)) =
        some ([.connecting, .queueing], 0, some 0) := by decide +kernel
  obtain ⟨s, hRun, hView⟩ := Option.map_eq_some_iff.mp hView
  obtain ⟨hPhases, hView⟩ := Prod.mk.inj hView
  obtain ⟨hConns, hDial⟩ := Prod.mk.inj hView
  have hStuck : ¬ ∃ label u, label.internal = true ∧ poolStep s label = some u := by
    rintro ⟨label, u, hInternal, hStep⟩
    rw [dialing_stuck (List.length_eq_zero_iff.mp hConns) (by rw [hDial]; simp) ?_ hInternal] at hStep
    · cases hStep
    · intro caller hMem
      have hPhase := List.mem_map_of_mem (f := Caller.phase) hMem
      rw [hPhases] at hPhase
      simpa using hPhase
  exact ⟨s, hRun, hPhases, hStuck, (pool_waits_for_peers hRun).resolve_left hStuck⟩

end DnsRs.Dot
