import DnsRs.Dot.Pool

/-!
# The pool stays small

The length of the vector is checked in one section of its lock, and the new connection is
pushed in another, with a dial in between. What holds the two together is the lock
`dialing`: whoever is past the check holds it until the push, so nobody else pushes in
between, and the sections of others only make the vector shorter.

* `Bounded` — each lock is held by the callers that think they hold it, and there is room
  for whoever is going to push.
* `Permits` — each connection is one of `DotConnection.start` and its steps; a permit
  belongs to one caller, and to the connection it is paired with.
* `dot_pool_bounded` — both over every run.
-/

namespace DnsRs.Dot

open Lib Wire

/-! ## Locks -/

/-- The caller holds the lock of the vector. -/
def PoolPhase.locks : PoolPhase → Bool
  | .retaining _ _ _ | .scanning _ _ => true
  | _ => false

/-- The caller holds `dialing`. -/
def PoolPhase.dials : PoolPhase → Bool
  | .locking (.lookup dialing) | .retaining (.lookup dialing) _ _ | .scanning dialing _ => dialing
  | .connecting | .reserving _ | .pushing _ _ => true
  | _ => false

/-- The caller is past the check of the length and has still to push. -/
def PoolPhase.pushes : PoolPhase → Bool
  | .connecting | .reserving _ | .pushing _ _ => true
  | _ => false

theorem PoolPhase.dials_of_pushes {phase : PoolPhase} (h : phase.pushes = true) :
    phase.dials = true := by
  cases phase with
  | connecting | reserving | pushing => rfl
  | locking | retaining | scanning | waiting | acquired | queueing | querying | answered | failed
  | probing | joining | gone => cases h

/-- Nobody but `c` holds a lock. -/
def OnlyBy (holder : Option Nat) (c : Nat) : Prop := ∀ c', holder = some c' → c' = c

theorem onlyBy_none (c : Nat) : OnlyBy none c := fun _ h => by cases h

theorem onlyBy_some (c : Nat) : OnlyBy (some c) c := fun _ h => (Option.some.inj h).symm

/-- What a caller relies on in this phase. -/
structure PoolPhase.Ok (phase : PoolPhase) (c : Nat) (lockedBy dialingBy : Option Nat)
    (connections : List Nat) : Prop where
  lock : phase.locks = true → lockedBy = some c
  dialing : phase.dials = true → dialingBy = some c
  room : phase.pushes = true → connections.length < maxDotConnections
  kept : ∀ sec kept rest, phase = .retaining sec kept rest →
    kept.length + rest.length ≤ connections.length

/-- The vector is short, and the locks are held by those who rely on them. -/
structure Bounded (s : DotPool) : Prop where
  short : s.connections.length ≤ maxDotConnections
  callers : ∀ (c : Nat) (caller : Caller), s.callers[c]? = some caller →
    caller.phase.Ok c s.lockedBy s.dialingBy s.connections

section BoundedSteps

variable {s u s' : DotPool} {c k : Nat} {caller : Caller} {phase : PoolPhase}

/-- A phase without locks relies on nothing. -/
theorem PoolPhase.ok_of_free (hLocks : phase.locks = false) (hDials : phase.dials = false)
    {lockedBy dialingBy : Option Nat} {connections : List Nat} :
    phase.Ok c lockedBy dialingBy connections where
  lock h := by rw [hLocks] at h; cases h
  dialing h := by rw [hDials] at h; cases h
  room h := by
    have := PoolPhase.dials_of_pushes h
    rw [hDials] at this
    cases this
  kept sec kept rest h := by
    subst h
    cases hLocks

theorem Bounded.own (h : Bounded s) (hc : s.callers[c]? = some caller)
    (hPhase : caller.phase = phase) : phase.Ok c s.lockedBy s.dialingBy s.connections := by
  rw [← hPhase]
  exact h.callers c caller hc

theorem PoolPhase.Ok.onlyLock {lockedBy dialingBy : Option Nat} {connections : List Nat}
    (h : phase.Ok c lockedBy dialingBy connections) (hLocks : phase.locks = true) :
    OnlyBy lockedBy c := by
  rw [h.lock hLocks]
  exact onlyBy_some c

theorem PoolPhase.Ok.onlyDial {lockedBy dialingBy : Option Nat} {connections : List Nat}
    (h : phase.Ok c lockedBy dialingBy connections) (hDials : phase.dials = true) :
    OnlyBy dialingBy c := by
  rw [h.dialing hDials]
  exact onlyBy_some c

/-- What a step of `c` leaves to the other callers. -/
theorem PoolPhase.Ok.other {c' : Nat} (h : phase.Ok c' s.lockedBy s.dialingBy s.connections)
    (hne : c' ≠ c) (hLock : u.lockedBy = s.lockedBy ∨ OnlyBy s.lockedBy c)
    (hDial : u.dialingBy = s.dialingBy ∨ OnlyBy s.dialingBy c)
    (hVec : u.connections = s.connections ∨ OnlyBy s.lockedBy c ∧
      (u.connections.length ≤ s.connections.length ∨ OnlyBy s.dialingBy c)) :
    phase.Ok c' u.lockedBy u.dialingBy u.connections where
  lock hLocks := by
    rcases hLock with hSame | hOnly
    · rw [hSame]
      exact h.lock hLocks
    · exact absurd (hOnly c' (h.lock hLocks)) hne
  dialing hDials := by
    rcases hDial with hSame | hOnly
    · rw [hSame]
      exact h.dialing hDials
    · exact absurd (hOnly c' (h.dialing hDials)) hne
  room hPushes := by
    rcases hVec with hSame | ⟨-, hLess | hOnly⟩
    · rw [hSame]
      exact h.room hPushes
    · exact hLess.trans_lt (h.room hPushes)
    · exact absurd (hOnly c' (h.dialing (PoolPhase.dials_of_pushes hPushes))) hne
  kept sec kept rest hPhase := by
    rcases hVec with hSame | ⟨hOnly, -⟩
    · rw [hSame]
      exact h.kept sec kept rest hPhase
    · subst hPhase
      exact absurd (hOnly c' (h.lock rfl)) hne

/-- One caller moves on. -/
theorem Bounded.advance (h : Bounded s) (hc : s.callers[c]? = some caller) {f : Caller → Caller}
    (hCallers : u.callers = s.callers.modify c f)
    (hOwn : (f caller).phase.Ok c u.lockedBy u.dialingBy u.connections)
    (hLock : u.lockedBy = s.lockedBy ∨ OnlyBy s.lockedBy c)
    (hDial : u.dialingBy = s.dialingBy ∨ OnlyBy s.dialingBy c)
    (hVec : u.connections = s.connections ∨ OnlyBy s.lockedBy c ∧
      (u.connections.length ≤ s.connections.length ∨ OnlyBy s.dialingBy c))
    (hShort : u.connections.length ≤ maxDotConnections) : Bounded u where
  short := hShort
  callers c' caller' hc' := by
    rw [hCallers] at hc'
    rcases getElem?_modify_cases hc hc' with ⟨rfl, rfl⟩ | ⟨hne, hc'⟩
    · exact hOwn
    · exact (h.callers c' caller' hc').other hne hLock hDial hVec

/-- A caller moves on and changes none of the locks. -/
theorem Bounded.goto (h : Bounded s) (hc : s.callers[c]? = some caller)
    (hOwn : phase.Ok c s.lockedBy s.dialingBy s.connections) : Bounded (s.goto c phase) :=
  h.advance hc rfl hOwn (.inl rfl) (.inl rfl) (.inl rfl) h.short

/-- Steps that change no more than connections. -/
theorem Bounded.congr (h : Bounded s) (hCallers : u.callers = s.callers)
    (hVec : u.connections = s.connections) (hLock : u.lockedBy = s.lockedBy)
    (hDial : u.dialingBy = s.dialingBy) : Bounded u := by
  refine ⟨by rw [hVec]; exact h.short, fun c caller hc => ?_⟩
  rw [hLock, hDial, hVec]
  exact h.callers c caller (hCallers ▸ hc)

theorem inside_eq_some {label : Label} :
    s.inside k label = some u ↔ ∃ conn conn', s.conns[k]? = some conn ∧
      step conn label = some conn' ∧ u = { s with conns := s.conns.set k conn' } := by
  unfold DotPool.inside
  rw [Option.bind_eq_some_iff]
  constructor
  · rintro ⟨conn, hk, h⟩
    obtain ⟨conn', hStep, rfl⟩ := Option.map_eq_some_iff.mp h
    exact ⟨conn, conn', hk, hStep, rfl⟩
  · rintro ⟨conn, conn', hk, hStep, rfl⟩
    exact ⟨conn, hk, by rw [hStep]; rfl⟩

theorem Bounded.inside {label : Label} (h : Bounded s) (hInside : s.inside k label = some u) :
    Bounded u ∧ u.callers = s.callers := by
  obtain ⟨conn, conn', -, -, rfl⟩ := inside_eq_some.mp hInside
  exact ⟨h.congr rfl rfl rfl rfl, rfl⟩

theorem tryReserve_eq_some {query : Bytes} {permit : Permit} :
    s.tryReserve k query = some (permit, s') ↔ ∃ conn, s.conns[k]? = some conn ∧
      s.inside k (.reserve query) = some s' ∧ permit = ⟨k, conn.calls.length⟩ := by
  unfold DotPool.tryReserve
  rw [Option.bind_eq_some_iff]
  constructor
  · rintro ⟨conn, hk, h⟩
    obtain ⟨s'', hInside, hEq⟩ := Option.map_eq_some_iff.mp h
    cases hEq
    exact ⟨conn, hk, hInside, rfl⟩
  · rintro ⟨conn, hk, hInside, rfl⟩
    exact ⟨conn, hk, by rw [hInside]; rfl⟩

theorem Bounded.tryReserve {query : Bytes} {permit : Permit} (h : Bounded s)
    (hReserve : s.tryReserve k query = some (permit, s')) :
    Bounded s' ∧ s'.callers = s.callers := by
  obtain ⟨conn, -, hInside, -⟩ := tryReserve_eq_some.mp hReserve
  exact h.inside hInside

/-- A caller goes on without locks, and gives up those it had. -/
theorem Bounded.leave (h : Bounded s) (hc : s.callers[c]? = some caller) {f : Caller → Caller}
    (hCallers : u.callers = s.callers.modify c f) (hLocks : (f caller).phase.locks = false)
    (hDials : (f caller).phase.dials = false)
    (hLock : u.lockedBy = s.lockedBy ∨ caller.phase.locks = true)
    (hDial : u.dialingBy = s.dialingBy ∨ caller.phase.dials = true)
    (hVec : u.connections = s.connections) : Bounded u := by
  have hOk := h.callers c caller hc
  exact h.advance hc hCallers (PoolPhase.ok_of_free hLocks hDials) (hLock.imp_right hOk.onlyLock)
    (hDial.imp_right hOk.onlyDial) (.inl hVec) (by rw [hVec]; exact h.short)

theorem hangUp_dialingBy (s : DotPool) {dialing dials : Bool} (h : dials = dialing) :
    (s.hangUp dialing).dialingBy = s.dialingBy ∨ dials = true := by
  subst h
  cases dials with
  | true => exact .inr rfl
  | false => exact .inl rfl

theorem Bounded.append (h : Bounded s) {new : Caller} (hLocks : new.phase.locks = false)
    (hDials : new.phase.dials = false) : Bounded { s with callers := s.callers ++ [new] } := by
  refine ⟨h.short, fun c caller hc => ?_⟩
  rcases getElem?_append_one hc with hOld | ⟨-, rfl⟩
  · exact h.callers c caller hOld
  · exact PoolPhase.ok_of_free hLocks hDials

/-- **One step.** -/
theorem bounded_step {label : PoolLabel} (h : Bounded s) (hStep : poolStep s label = some u) :
    Bounded u := by
  cases poolStep_moves hStep with
  | query | keepalive => exact h.append rfl rfl
  | inside hInside hRuns => exact (h.inside hInside).1
  | @lock c caller sec hc hPhase hLock =>
    have hOk := h.own hc hPhase
    have hDials : (PoolPhase.retaining sec [] s.connections).dials = true →
        s.dialingBy = some c := by
      cases sec with
      | lookup dialing => exact hOk.dialing
      | keepalive => exact nofun
    refine h.advance hc rfl ⟨fun _ => rfl, hDials, nofun, ?_⟩ (.inr ?_) (.inl rfl) (.inl rfl)
      h.short
    · rintro _ _ _ ⟨⟩
      exact (Nat.zero_add _).le
    · rw [hLock]
      exact onlyBy_none c
  | @retainNext c caller sec kept k rest kept' hc hPhase hKept =>
    have hOk := h.own hc hPhase
    have hDials : (PoolPhase.retaining sec kept' rest).dials = true → s.dialingBy = some c := by
      cases sec with
      | lookup dialing => exact hOk.dialing
      | keepalive => exact nofun
    refine h.goto hc ⟨fun _ => hOk.lock rfl, hDials, nofun, ?_⟩
    rintro _ _ _ ⟨⟩
    -- the connection is dropped or moves from one list to the other
    have hLen := hOk.kept sec kept (k :: rest) rfl
    rw [List.length_cons] at hLen
    rcases hKept with rfl | rfl
    · omega
    · rw [List.length_append, List.length_singleton]
      omega
  | @retained c caller dialing kept hc hPhase =>
    -- the vector gets shorter, in a section of the lock
    have hOk := h.own hc hPhase
    have hLess : kept.length ≤ s.connections.length := hOk.kept _ kept [] rfl
    exact h.advance hc rfl ⟨fun _ => hOk.lock rfl, hOk.dialing, nofun, nofun⟩ (.inl rfl)
      (.inl rfl) (.inr ⟨hOk.onlyLock rfl, .inl hLess⟩) (hLess.trans h.short)
  | @cloned c caller kept phase hc hPhase hNext =>
    have hOk := h.own hc hPhase
    have hLess : kept.length ≤ s.connections.length := hOk.kept _ kept [] rfl
    have hOnly := hOk.onlyLock rfl
    refine h.advance hc rfl (PoolPhase.ok_of_free ?_ ?_) (.inr hOnly) (.inl rfl)
      (.inr ⟨hOnly, .inl hLess⟩) (hLess.trans h.short)
    · rcases hNext with rfl | rfl <;> rfl
    · rcases hNext with rfl | rfl <;> rfl
  | scanFound hc hPhase hReserve =>
    obtain ⟨h', hSame⟩ := h.tryReserve hReserve
    rw [← hSame] at hc
    exact h'.leave hc rfl rfl rfl (.inr (by rw [hPhase]; rfl))
      (hangUp_dialingBy _ (by rw [hPhase]; rfl)) rfl
  | @scanNext c caller dialing k rest hc hPhase =>
    have hOk := h.own hc hPhase
    exact h.goto hc ⟨hOk.lock, hOk.dialing, nofun, nofun⟩
  | scanWait hc hPhase | scanQueue hc hPhase =>
    exact h.leave hc rfl rfl rfl (.inr (by rw [hPhase]; rfl)) (.inl rfl) rfl
  | @scanConnect c caller hc hPhase hRoom =>
    -- from here on there is room until the push
    have hOk := h.own hc hPhase
    exact h.advance hc rfl ⟨nofun, hOk.dialing, fun _ => hRoom, nofun⟩ (.inr (hOk.onlyLock rfl))
      (.inl rfl) (.inl rfl) h.short
  | scanAgain hc hPhase =>
    exact h.leave hc rfl rfl rfl (.inr (by rw [hPhase]; rfl)) (.inr (by rw [hPhase]; rfl)) rfl
  | acquire hc hPhase hReserve | probeTaken hc hPhase hReserve =>
    obtain ⟨h', hSame⟩ := h.tryReserve hReserve
    rw [← hSame] at hc
    exact h'.goto hc (PoolPhase.ok_of_free rfl rfl)
  | alive hc | probeSkipped hc | probesMade hc | leave hc | cancelIdle hc =>
    exact h.goto hc (PoolPhase.ok_of_free rfl rfl)
  | dead hc hPhase hDrop =>
    obtain ⟨h', hSame⟩ := h.inside hDrop
    rw [← hSame] at hc
    exact h'.goto hc (PoolPhase.ok_of_free rfl rfl)
  | @dial c caller hc hPhase hFree =>
    refine h.advance hc rfl ⟨nofun, fun _ => rfl, nofun, nofun⟩ (.inl rfl) (.inr ?_) (.inl rfl)
      h.short
    rw [hFree]
    exact onlyBy_none c
  | @connected c caller hc hPhase =>
    have hOk := h.own hc hPhase
    exact h.advance hc rfl ⟨nofun, hOk.dialing, hOk.room, nofun⟩ (.inl rfl) (.inl rfl) (.inl rfl)
      h.short
  | connectFailed hc hPhase | reserveFailed hc hPhase | cancelConnecting hc hPhase =>
    exact h.leave hc rfl rfl rfl (.inl rfl) (.inr (by rw [hPhase]; rfl)) rfl
  | @reserve c caller k permit s' hc hPhase hReserve =>
    obtain ⟨h', hSame⟩ := h.tryReserve hReserve
    rw [← hSame] at hc
    have hOk := h'.own hc hPhase
    exact h'.goto hc ⟨nofun, hOk.dialing, hOk.room, nofun⟩
  | @push c caller k permit hc hPhase hLock =>
    have hOk := h.own hc hPhase
    -- whoever else has room to push would hold `dialing` too
    have hOnly := hOk.onlyDial rfl
    refine h.advance hc rfl (PoolPhase.ok_of_free rfl rfl) (.inl rfl) (.inr hOnly)
      (.inr ⟨?_, .inr hOnly⟩) ?_
    · rw [hLock]
      exact onlyBy_none c
    · have hRoom := hOk.room rfl
      show (s.connections ++ [k]).length ≤ maxDotConnections
      rw [List.length_append, List.length_singleton]
      exact hRoom
  | finished retried hc hPhase hNext =>
    refine h.leave hc rfl ?_ ?_ (.inl rfl) (.inl rfl) rfl
    · rcases hNext with rfl | rfl | ⟨_, rfl⟩ | ⟨_, rfl⟩ <;> rfl
    · rcases hNext with rfl | rfl | ⟨_, rfl⟩ | ⟨_, rfl⟩ <;> rfl
  | cancelLocking hc hPhase =>
    exact h.leave hc rfl rfl rfl (.inl rfl) (hangUp_dialingBy _ (by rw [hPhase]; rfl)) rfl
  | cancelPushing hc hPhase hDrop =>
    obtain ⟨h', hSame⟩ := h.inside hDrop
    rw [← hSame] at hc
    exact h'.leave hc rfl rfl rfl (.inl rfl) (.inr (by rw [hPhase]; rfl)) rfl

end BoundedSteps

/-! ## Permits -/

/-- The permits a caller has, each with the connection it came with. -/
def PoolPhase.pairs : PoolPhase → List (Nat × Permit)
  | .acquired k permit | .pushing k permit | .querying k permit => [(k, permit)]
  | .probing _ probes | .joining probes => probes
  | _ => []

/-- Those that `connection` has not returned yet. -/
def PoolPhase.unused : PoolPhase → List (Nat × Permit)
  | .acquired k permit | .pushing k permit => [(k, permit)]
  | _ => []

theorem PoolPhase.pairs_of_unused {phase : PoolPhase} {e : Nat × Permit} (h : e ∈ phase.unused) :
    e ∈ phase.pairs := by
  cases phase with
  | acquired | pushing => exact h
  | locking | retaining | scanning | waiting | queueing | connecting | reserving | querying
  | answered | failed | probing | joining | gone => cases h

theorem Caller.pairs_of_runs {caller : Caller} {k n : Nat} (h : caller.runs k n = true) :
    (k, ⟨k, n⟩) ∈ caller.phase.pairs ∧ caller.phase.unused = [] := by
  unfold Caller.runs at h
  split at h
  · rename_i hPhase
    rw [Bool.and_eq_true, decide_eq_true_iff, decide_eq_true_iff] at h
    obtain ⟨rfl, rfl⟩ := h
    rw [hPhase]
    exact ⟨List.mem_singleton_self _, rfl⟩
  · rename_i hPhase
    rw [hPhase]
    exact ⟨List.contains_iff_mem.mp h, rfl⟩
  · cases h

/-- The pair is one of a connection and a permit of its own semaphore. -/
def Matched (s : DotPool) (e : Nat × Permit) : Prop :=
  e.2.semaphore = e.1 ∧ ∃ conn, s.conns[e.1]? = some conn ∧ e.2.call < conn.calls.length

/-- The permits are matched, each caller has its own, and those that have not been returned
have not been used. -/
structure Permits (s : DotPool) : Prop where
  started : ∀ (k : Nat) (conn : DotConnection), s.conns[k]? = some conn →
    ∃ labels, run step .start labels = some conn
  held : ∀ (c : Nat) (caller : Caller), s.callers[c]? = some caller →
    ∀ e ∈ caller.phase.pairs, Matched s e
  apart : ∀ (c c' : Nat) (caller caller' : Caller), s.callers[c]? = some caller →
    s.callers[c']? = some caller' → c ≠ c' → ∀ e ∈ caller.phase.pairs, e ∉ caller'.phase.pairs
  unused : ∀ (c : Nat) (caller : Caller), s.callers[c]? = some caller →
    ∀ e ∈ caller.phase.unused, s.callPhase? e.1 e.2 = some .reserved

section PermitSteps

variable {s u s' : DotPool} {c k : Nat} {caller : Caller} {phase : PoolPhase}

/-- A connection takes a step that is not of an unused permit. -/
theorem Permits.inside {label : Label} (h : Permits s) (hInside : s.inside k label = some u)
    (hOwner : ∀ n, label.call? = some n → ∀ (c : Nat) (caller : Caller),
      s.callers[c]? = some caller → (k, ⟨k, n⟩) ∉ caller.phase.unused) : Permits u := by
  obtain ⟨conn, conn', hk, hStep, rfl⟩ := inside_eq_some.mp hInside
  have hLt := (List.getElem?_eq_some_iff.mp hk).1
  refine ⟨fun k' found hFound => ?_, fun c caller hc e he => ?_, h.apart,
    fun c caller hc e he => ?_⟩
  · -- the run of the connection is one step longer
    by_cases hEq : k = k'
    · subst hEq
      rw [List.getElem?_set_self hLt] at hFound
      cases hFound
      obtain ⟨labels, hRun⟩ := h.started k conn hk
      exact ⟨labels ++ [label], run_append_eq_some.mpr
        ⟨conn, hRun, run_cons_eq_some.mpr ⟨_, hStep, rfl⟩⟩⟩
    · rw [List.getElem?_set_ne hEq] at hFound
      exact h.started k' found hFound
  · obtain ⟨hSem, found, hFound, hCall⟩ := h.held c caller hc e he
    refine ⟨hSem, ?_⟩
    by_cases hEq : k = e.1
    · rw [← hEq, hk] at hFound
      cases hFound
      exact ⟨conn', by rw [← hEq]; exact List.getElem?_set_self hLt,
        hCall.trans_le (length_calls_step hStep)⟩
    · exact ⟨found, by rw [← hFound]; exact List.getElem?_set_ne hEq, hCall⟩
  · -- the call of an unused permit is not the one that takes the step
    have hOld := h.unused c caller hc e he
    obtain ⟨hSem, -⟩ := h.held c caller hc e (PoolPhase.pairs_of_unused he)
    unfold DotPool.callPhase? at hOld ⊢
    by_cases hEq : k = e.1
    · rw [← hEq, hk, Option.bind_some] at hOld
      rw [← hEq, List.getElem?_set_self hLt, Option.bind_some]
      refine phase_step hStep (fun hCall => ?_) hOld
      refine hOwner _ hCall c caller hc ?_
      obtain ⟨e₁, semaphore, call⟩ := e
      cases hEq
      cases hSem
      exact he
    · rw [List.getElem?_set_ne hEq]
      exact hOld

/-- One caller moves on, with what it had or with a permit of its own. -/
theorem Permits.advance (h : Permits s) (hc : s.callers[c]? = some caller) {f : Caller → Caller}
    (hCallers : u.callers = s.callers.modify c f) (hConns : u.conns = s.conns)
    (hPairs : ∀ e ∈ (f caller).phase.pairs, e ∈ caller.phase.pairs ∨
      Matched s e ∧ ∀ (c' : Nat) (caller' : Caller), s.callers[c']? = some caller' →
        e ∉ caller'.phase.pairs)
    (hUnused : ∀ e ∈ (f caller).phase.unused, s.callPhase? e.1 e.2 = some .reserved) :
    Permits u := by
  have hMatched : ∀ e, Matched s e → Matched u e := by
    rintro e ⟨hSem, conn, hk, hCall⟩
    exact ⟨hSem, conn, by rw [hConns]; exact hk, hCall⟩
  have hSame : ∀ k permit, u.callPhase? k permit = s.callPhase? k permit := by
    intro k permit
    rw [DotPool.callPhase?, hConns, DotPool.callPhase?]
  -- what the caller has now is nobody else's
  have hOwn : ∀ (c' : Nat) (caller' : Caller), c' ≠ c → s.callers[c']? = some caller' →
      ∀ e ∈ (f caller).phase.pairs, e ∉ caller'.phase.pairs := by
    intro c' caller' hne hc' e he
    rcases hPairs e he with hOld | ⟨-, hFresh⟩
    · exact h.apart c c' caller caller' hc hc' hne.symm e hOld
    · exact hFresh c' caller' hc'
  refine ⟨fun k conn hk => h.started k conn (hConns ▸ hk), fun c' caller' hc' e he => ?_,
    fun c₁ c₂ caller₁ caller₂ h₁ h₂ hne e he => ?_, fun c' caller' hc' e he => ?_⟩
  · rw [hCallers] at hc'
    rcases getElem?_modify_cases hc hc' with ⟨rfl, rfl⟩ | ⟨-, hc'⟩
    · rcases hPairs e he with hOld | ⟨hNew, -⟩
      · exact hMatched e (h.held _ _ hc e hOld)
      · exact hMatched e hNew
    · exact hMatched e (h.held c' caller' hc' e he)
  · rw [hCallers] at h₁ h₂
    rcases getElem?_modify_cases hc h₁ with ⟨rfl, rfl⟩ | ⟨hne₁, hOld₁⟩
    · rcases getElem?_modify_cases hc h₂ with ⟨rfl, rfl⟩ | ⟨hne₂, hOld₂⟩
      · exact absurd rfl hne
      · exact hOwn c₂ caller₂ hne₂ hOld₂ e he
    · rcases getElem?_modify_cases hc h₂ with ⟨rfl, rfl⟩ | ⟨hne₂, hOld₂⟩
      · exact fun hBoth => hOwn c₁ caller₁ hne₁ hOld₁ e hBoth he
      · exact h.apart c₁ c₂ caller₁ caller₂ hOld₁ hOld₂ hne e he
  · rw [hCallers] at hc'
    rw [hSame]
    rcases getElem?_modify_cases hc hc' with ⟨rfl, rfl⟩ | ⟨-, hc'⟩
    · exact hUnused e he
    · exact h.unused c' caller' hc' e he

/-- A caller moves on with permits it had, none of which it has still to return. -/
theorem Permits.leave (h : Permits s) (hc : s.callers[c]? = some caller) {f : Caller → Caller}
    (hCallers : u.callers = s.callers.modify c f) (hConns : u.conns = s.conns)
    (hPairs : ∀ e ∈ (f caller).phase.pairs, e ∈ caller.phase.pairs)
    (hUnused : (f caller).phase.unused = []) : Permits u := by
  refine h.advance hc hCallers hConns (fun e he => .inl (hPairs e he)) fun e he => ?_
  rw [hUnused] at he
  cases he

/-- A permit that was just taken. -/
structure Taken (s : DotPool) (k : Nat) (permit : Permit) : Prop where
  permits : Permits s
  pair : Matched s (k, permit)
  fresh : ∀ (c : Nat) (caller : Caller), s.callers[c]? = some caller →
    (k, permit) ∉ caller.phase.pairs
  reserved : s.callPhase? k permit = some .reserved

theorem Permits.tryReserve {query : Bytes} {permit : Permit} (h : Permits s)
    (hReserve : s.tryReserve k query = some (permit, s')) :
    Taken s' k permit ∧ s'.callers = s.callers := by
  obtain ⟨conn, hk, hInside, rfl⟩ := tryReserve_eq_some.mp hReserve
  have h' := h.inside hInside fun n hn => by cases hn
  obtain ⟨conn', conn'', hk', hStep, rfl⟩ := inside_eq_some.mp hInside
  rw [hk] at hk'
  cases hk'
  have hLt := (List.getElem?_eq_some_iff.mp hk).1
  have hNew := List.getElem?_set_self hLt (a := conn'')
  obtain ⟨-, hMoves⟩ := step_moves hStep
  cases hMoves with
  | reserve hAvail =>
    refine ⟨⟨h', ⟨rfl, _, hNew, ?_⟩, fun c caller hc hMem => ?_, ?_⟩, rfl⟩
    · rw [List.length_append]
      exact Nat.lt_succ_self _
    · -- the permits there are were taken for earlier calls
      obtain ⟨-, old, hOld, hCall⟩ := h.held c caller hc _ hMem
      rw [hk] at hOld
      cases hOld
      exact absurd hCall (Nat.lt_irrefl _)
    · rw [DotPool.callPhase?, hNew, Option.bind_some, DotConnection.phase?,
        List.getElem?_append_right (Nat.le_refl _), Nat.sub_self]
      rfl

/-- A caller goes on with the permit it has taken. -/
theorem Taken.advance {permit : Permit} (h : Taken s k permit) (hc : s.callers[c]? = some caller)
    {f : Caller → Caller} (hCallers : u.callers = s.callers.modify c f) (hConns : u.conns = s.conns)
    (hPairs : ∀ e ∈ (f caller).phase.pairs, e ∈ caller.phase.pairs ∨ e = (k, permit))
    (hUnused : ∀ e ∈ (f caller).phase.unused, e = (k, permit)) : Permits u := by
  refine h.permits.advance hc hCallers hConns (fun e he => (hPairs e he).imp_right ?_)
    fun e he => ?_
  · rintro rfl
    exact ⟨h.pair, h.fresh⟩
  · obtain rfl := hUnused e he
    exact h.reserved

/-- A caller gives back a permit it has not used. -/
theorem Permits.drop {permit : Permit} (h : Permits s) (hc : s.callers[c]? = some caller)
    (hMem : (k, permit) ∈ caller.phase.unused) (hDrop : s.dropPermit permit = some s')
    (hPairs : phase.pairs = []) : Permits (s'.goto c phase) := by
  have hNone : phase.unused = [] := by
    by_contra hSome
    obtain ⟨e, he⟩ := List.exists_mem_of_ne_nil _ hSome
    have := PoolPhase.pairs_of_unused he
    rw [hPairs] at this
    cases this
  -- without it the caller has nothing, and the others have other permits
  have hWithout : Permits (s.goto c phase) :=
    h.leave hc rfl rfl (fun e he => by rw [hPairs] at he; cases he) hNone
  obtain ⟨hSem, -⟩ := h.held c caller hc _ (PoolPhase.pairs_of_unused hMem)
  obtain ⟨conn, conn', hk, hStep, rfl⟩ := inside_eq_some.mp hDrop
  have hInside : (s.goto c phase).inside permit.semaphore (.cancel permit.call) =
      some ({ s with conns := s.conns.set permit.semaphore conn' }.goto c phase) :=
    inside_eq_some.mpr ⟨conn, conn', hk, hStep, rfl⟩
  refine hWithout.inside hInside fun n hn c' caller' hc' hUnused => ?_
  cases hn
  rcases getElem?_modify_cases hc hc' with ⟨rfl, rfl⟩ | ⟨hne, hOld⟩
  · rw [hNone] at hUnused
    cases hUnused
  · refine h.apart c c' caller caller' hc hOld hne.symm (k, permit)
      (PoolPhase.pairs_of_unused hMem) ?_
    obtain ⟨semaphore, call⟩ := permit
    cases hSem
    exact PoolPhase.pairs_of_unused hUnused

theorem Permits.append (h : Permits s) {new : Caller} (hPairs : new.phase.pairs = [])
    (hUnused : new.phase.unused = []) : Permits { s with callers := s.callers ++ [new] } := by
  refine ⟨h.started, fun c caller hc e he => ?_,
    fun c c' caller caller' hc hc' hne e he hBoth => ?_, fun c caller hc e he => ?_⟩
  · rcases getElem?_append_one hc with hOld | ⟨-, rfl⟩
    · exact h.held c caller hOld e he
    · rw [hPairs] at he
      cases he
  · rcases getElem?_append_one hc with hOld | ⟨-, rfl⟩
    · rcases getElem?_append_one hc' with hOld' | ⟨-, rfl⟩
      · exact h.apart c c' caller caller' hOld hOld' hne e he hBoth
      · rw [hPairs] at hBoth
        cases hBoth
    · rw [hPairs] at he
      cases he
  · rcases getElem?_append_one hc with hOld | ⟨-, rfl⟩
    · exact h.unused c caller hOld e he
    · rw [hUnused] at he
      cases he

/-- A dial has succeeded. -/
theorem Permits.start (h : Permits s) : Permits { s with conns := s.conns ++ [.start] } := by
  have hOld : ∀ {k : Nat} {conn : DotConnection}, s.conns[k]? = some conn →
      (s.conns ++ [.start])[k]? = some conn := by
    intro k conn hk
    rw [List.getElem?_append_left (List.getElem?_eq_some_iff.mp hk).1]
    exact hk
  refine ⟨fun k conn hk => ?_, fun c caller hc e he => ?_, h.apart, fun c caller hc e he => ?_⟩
  · rcases getElem?_append_one hk with hk | ⟨-, rfl⟩
    · exact h.started k conn hk
    · exact ⟨[], rfl⟩
  · obtain ⟨hSem, conn, hk, hCall⟩ := h.held c caller hc e he
    exact ⟨hSem, conn, hOld hk, hCall⟩
  · obtain ⟨conn, hk, hPhase⟩ := Option.bind_eq_some_iff.mp (h.unused c caller hc e he)
    exact Option.bind_eq_some_iff.mpr ⟨conn, hOld hk, hPhase⟩

/-- **One step.** -/
theorem permits_step {label : PoolLabel} (h : Permits s) (hStep : poolStep s label = some u) :
    Permits u := by
  cases poolStep_moves hStep with
  | query | keepalive => exact h.append rfl rfl
  | inside hInside hRuns =>
    refine h.inside hInside fun n hn c' caller' hc' hUnused => ?_
    -- the caller that runs the call is the only one that has its permit
    obtain ⟨c, caller, hc, hRun⟩ := hRuns n hn
    obtain ⟨hPair, hNone⟩ := Caller.pairs_of_runs hRun
    by_cases hEq : c = c'
    · subst hEq
      rw [hc] at hc'
      cases hc'
      rw [hNone] at hUnused
      cases hUnused
    · exact h.apart c c' caller caller' hc hc' hEq _ hPair (PoolPhase.pairs_of_unused hUnused)
  | cloned hc hPhase hNext =>
    refine h.leave hc rfl rfl (fun e he => ?_) ?_
    · rcases hNext with rfl | rfl <;> cases he
    · rcases hNext with rfl | rfl <;> rfl
  | scanFound hc hPhase hReserve =>
    obtain ⟨h', hSame⟩ := h.tryReserve hReserve
    rw [← hSame] at hc
    exact h'.advance hc rfl rfl (fun e he => .inr (List.mem_singleton.mp he)) nofun
  | acquire hc hPhase hReserve | reserve hc hPhase hReserve =>
    obtain ⟨h', hSame⟩ := h.tryReserve hReserve
    rw [← hSame] at hc
    exact h'.advance hc rfl rfl (fun e he => .inr (List.mem_singleton.mp he))
      fun e he => List.mem_singleton.mp he
  | alive hc hPhase | push hc hPhase | probeSkipped hc hPhase | probesMade hc hPhase =>
    refine h.leave hc rfl rfl (fun e he => ?_) rfl
    rw [hPhase]
    exact he
  | dead hc hPhase hDrop =>
    exact h.drop hc (by rw [hPhase]; exact List.mem_singleton_self _) hDrop rfl
  | connected hc hPhase => exact h.start.leave hc rfl rfl nofun rfl
  | finished retried hc hPhase hNext =>
    refine h.leave hc rfl rfl (fun e he => ?_) ?_
    · rcases hNext with rfl | rfl | ⟨_, rfl⟩ | ⟨_, rfl⟩ <;> cases he
    · rcases hNext with rfl | rfl | ⟨_, rfl⟩ | ⟨_, rfl⟩ <;> rfl
  | probeTaken hc hPhase hReserve =>
    obtain ⟨h', hSame⟩ := h.tryReserve hReserve
    rw [← hSame] at hc
    refine h'.advance hc rfl rfl (fun e he => ?_) nofun
    rw [hPhase]
    exact (List.mem_append.mp he).imp_right List.mem_singleton.mp
  | cancelPushing hc hPhase hDrop =>
    have h' : Permits (DotPool.goto _ _ .gone) :=
      h.drop hc (by rw [hPhase]; exact List.mem_singleton_self _) hDrop rfl
    exact ⟨h'.started, h'.held, h'.apart, h'.unused⟩
  | lock hc | retainNext hc | retained hc | scanNext hc | scanWait hc | scanQueue hc
  | scanConnect hc | scanAgain hc | dial hc | connectFailed hc | reserveFailed hc | leave hc
  | cancelLocking hc | cancelIdle hc | cancelConnecting hc => exact h.leave hc rfl rfl nofun rfl

end PermitSteps

/-! ## What is returned -/

/-- In this step `connection` returns the pair to caller `c`. -/
def Returns (s u : DotPool) (c k : Nat) (permit : Permit) : Prop :=
  (u.callers[c]?).map Caller.phase = some (.querying k permit) ∧
    (s.callers[c]?).map Caller.phase ≠ some (.querying k permit)

section Returned

variable {s u : DotPool} {c k : Nat} {permit : Permit}

theorem Returns.of_modify {c' : Nat} {caller : Caller} {f : Caller → Caller}
    (h : Returns s u c k permit) (hc : s.callers[c']? = some caller)
    (hCallers : u.callers = s.callers.modify c' f) : (f caller).phase = .querying k permit := by
  obtain ⟨found, hFound, hPhase⟩ := Option.map_eq_some_iff.mp h.1
  rw [hCallers] at hFound
  rcases getElem?_modify_cases hc hFound with ⟨-, rfl⟩ | ⟨-, hOld⟩
  · exact hPhase
  · exact absurd (Option.map_eq_some_iff.mpr ⟨found, hOld, hPhase⟩) h.2

theorem Returns.not_append {new : Caller} (h : Returns s u c k permit)
    (hCallers : u.callers = s.callers ++ [new]) : new.phase = .querying k permit := by
  obtain ⟨found, hFound, hPhase⟩ := Option.map_eq_some_iff.mp h.1
  rw [hCallers] at hFound
  rcases getElem?_append_one hFound with hOld | ⟨-, rfl⟩
  · exact absurd (Option.map_eq_some_iff.mpr ⟨found, hOld, hPhase⟩) h.2
  · exact hPhase

/-- A permit that is returned has not been used. -/
theorem Returns.reserved {label : PoolLabel} (hReturns : Returns s u c k permit) (h : Permits s)
    (hStep : poolStep s label = some u) : u.callPhase? k permit = some .reserved := by
  cases poolStep_moves hStep with
  | query | keepalive => cases hReturns.not_append rfl
  | inside hInside hRuns =>
    obtain ⟨conn, conn', -, -, rfl⟩ := inside_eq_some.mp hInside
    exact absurd hReturns.1 hReturns.2
  | cloned hc hPhase hNext =>
    rcases hNext with rfl | rfl <;> cases hReturns.of_modify hc rfl
  | scanFound hc hPhase hReserve =>
    obtain ⟨h', hSame⟩ := h.tryReserve hReserve
    cases hReturns.of_modify hc (congrArg (List.modify · _ _) hSame)
    exact h'.reserved
  | acquire hc hPhase hReserve | reserve hc hPhase hReserve | probeTaken hc hPhase hReserve =>
    obtain ⟨h', hSame⟩ := h.tryReserve hReserve
    cases hReturns.of_modify hc (congrArg (List.modify · _ _) hSame)
  | alive hc hPhase | push hc hPhase =>
    cases hReturns.of_modify hc rfl
    exact h.unused _ _ hc _ (by rw [hPhase]; exact List.mem_singleton_self _)
  | dead hc hPhase hDrop | cancelPushing hc hPhase hDrop =>
    obtain ⟨conn, conn', -, -, rfl⟩ := inside_eq_some.mp hDrop
    cases hReturns.of_modify hc rfl
  | finished retried hc hPhase hNext =>
    rcases hNext with rfl | rfl | ⟨_, rfl⟩ | ⟨_, rfl⟩ <;> cases hReturns.of_modify hc rfl
  | lock hc | retainNext hc | retained hc | scanNext hc | scanWait hc | scanQueue hc
  | scanConnect hc | scanAgain hc | dial hc | connected hc | connectFailed hc | reserveFailed hc
  | probeSkipped hc | probesMade hc | leave hc | cancelLocking hc | cancelIdle hc
  | cancelConnecting hc =>
    cases hReturns.of_modify hc rfl

end Returned

/-! ## Runs -/

theorem pool_run {labels : List PoolLabel} {s : DotPool}
    (hRun : run poolStep .new labels = some s) : Bounded s ∧ Permits s := by
  constructor
  · refine run_invariant (fun _ _ _ => bounded_step) ⟨Nat.zero_le _, fun c caller hc => ?_⟩ hRun
    cases hc
  · refine run_invariant (fun _ _ _ => permits_step) ⟨?_, ?_, ?_, ?_⟩ hRun
    · exact fun k conn hk => by cases hk
    · exact fun c caller hc => by cases hc
    · exact fun c c' caller caller' hc => by cases hc
    · exact fun c caller hc => by cases hc

/-- **The pool.** Whatever callers of `connection` and `keepalive` do in whatever order, while
dials succeed or fail, callers are dropped and connections die: the vector never holds more
than `MAX_DOT_CONNECTIONS` connections; and whenever `connection` returns a pair, the permit is
one of the semaphore of the very connection it comes with, which it is still reserved in,
and no other caller has it. -/
theorem dot_pool_bounded {labels : List PoolLabel} {s : DotPool}
    (hRun : run poolStep .new labels = some s) :
    s.connections.length ≤ maxDotConnections ∧
    ∀ label u, poolStep s label = some u → ∀ c k permit, Returns s u c k permit →
      permit.semaphore = k ∧
      (∃ conn, u.conns[k]? = some conn ∧ conn.phase? permit.call = some .reserved ∧
        conn.available + conn.calls.countP (·.phase.holdsPermit) + conn.pending.length =
          maxDotInFlight) ∧
      ∀ (c' : Nat) (caller' : Caller), u.callers[c']? = some caller' → c' ≠ c →
        (k, permit) ∉ caller'.phase.pairs := by
  obtain ⟨hBounded, hPermits⟩ := pool_run hRun
  refine ⟨hBounded.short, fun label u hStep c k permit hReturns => ?_⟩
  have hNext := permits_step hPermits hStep
  obtain ⟨caller, hc, hPhase⟩ := Option.map_eq_some_iff.mp hReturns.1
  have hPair : (k, permit) ∈ caller.phase.pairs := by
    rw [hPhase]
    exact List.mem_singleton_self _
  obtain ⟨conn, hk, hReserved⟩ :=
    Option.bind_eq_some_iff.mp (hReturns.reserved hPermits hStep)
  obtain ⟨labels', hConn⟩ := hNext.started k conn hk
  refine ⟨(hNext.held c caller hc _ hPair).1, ⟨conn, hk, hReserved, (book_run hConn).permits⟩, ?_⟩
  exact fun c' caller' hc' hne => hNext.apart c c' caller caller' hc hc' hne.symm _ hPair

/-- Two callers find the vector empty and queue for the dial; the first one has dialled. -/
def twoDials : List PoolLabel :=
  [.query rootQuery, .query rootQuery, .lock 0, .retain 0, .scan 0, .lock 1, .retain 1, .scan 1,
    .dial 0, .lock 0, .retain 0, .scan 0, .connected 0, .reserve 0]

theorem dot_pool_twoDials :
    ∃ s u, run poolStep .new twoDials = some s ∧ s.connections.length ≤ maxDotConnections ∧
      poolStep s (.push 0) = some u ∧ Returns s u 0 0 ⟨0, 0⟩ ∧
      ∃ conn, u.conns[0]? = some conn ∧ conn.phase? 0 = some .reserved := by
  have hView : (run poolStep .new twoDials).bind (fun s => (poolStep s (.push 0)).map fun u =>
      ((s.callers[0]?).map Caller.phase, (u.callers[0]?).map Caller.phase)) =
        some (some (.pushing 0 ⟨0, 0⟩), some (.querying 0 ⟨0, 0⟩)) := by
    decide +kernel
  obtain ⟨s, hRun, hView⟩ := Option.bind_eq_some_iff.mp hView
  obtain ⟨u, hPush, hPhases⟩ := Option.map_eq_some_iff.mp hView
  obtain ⟨hBefore, hAfter⟩ := Prod.mk.inj hPhases
  have hReturns : Returns s u 0 0 ⟨0, 0⟩ := ⟨hAfter, by rw [hBefore]; exact nofun⟩
  obtain ⟨hShort, hPairs⟩ := dot_pool_bounded hRun
  obtain ⟨-, ⟨conn, hk, hReserved, -⟩, -⟩ := hPairs _ u hPush 0 0 _ hReturns
  exact ⟨s, u, hRun, hShort, hPush, hReturns, conn, hk, hReserved⟩

end DnsRs.Dot
