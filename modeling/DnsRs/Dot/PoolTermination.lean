import DnsRs.Dot.PoolAttempts
import DnsRs.Lib.Tally

/-!
# The lookup does not spin

`connection` is a loop. A caller that waited for a permit starts over when the connection it
got one of has died; a caller that queued for the dial starts over when it finds the vector
full. Other callers dial, push and clean up in between, and connections die at any moment.

What turns the loop is used up: a caller dials at most once per attempt and has two attempts, a
connection is pushed once and dies once. Between two such events the vector only loses its dead
members, and `rank` is the longest way a caller can still go. So a number of callers takes a
bounded number of steps altogether (`pool_steps_bounded`), whatever the connections do.
-/

namespace DnsRs.Dot

open Lib Wire DotConnection

/-! ## What the loop turns on -/

namespace DotPool

/-- Connection `k` has failed. -/
def deadAt (s : DotPool) (k : Nat) : Bool := (s.conns[k]?).any DotConnection.dead

/-- Some connection in the vector has failed. -/
def stale (s : DotPool) : Bool := s.connections.any s.deadAt

/-- The vector is full of connections that are alive. -/
def full (s : DotPool) : Bool := decide (maxDotConnections ≤ s.connections.length) && !s.stale

/-- The connections that can still fail. -/
def living (s : DotPool) : Nat := s.conns.countP fun conn => !conn.dead

end DotPool

/-- The dials a caller has left, and the push it owes: three for a dial, since the connection
has still to be pushed and to die. -/
def PoolPhase.weight (retried : Bool) : PoolPhase → Nat
  | .answered _ | .failed _ | .gone | .probing _ _ | .joining _ => 0
  | .querying _ _ => if retried then 0 else 3
  | .reserving _ | .pushing _ _ => if retried then 1 else 4
  | _ => if retried then 3 else 6

/-- The longest way through the loop while no connection dies or is added. A full vector sends
callers to `waiting`, another one to `connecting`; a dead connection seen too late costs one
more turn. -/
def PoolPhase.rank (dead : Nat → Bool) (full stale : Bool) : PoolPhase → Nat
  | .answered _ | .failed _ | .gone => 0
  | .querying _ _ | .joining _ => 1
  | .connecting | .pushing _ _ => 2
  | .reserving _ => 3
  | .acquired k _ => if dead k then 18 else 2
  | .waiting waits => if waits.any dead then 19 else 3
  | .probing rest _ => 2 + rest.length
  | .locking .keepalive => 21
  | .retaining .keepalive _ rest => 18 + rest.length
  | .locking (.lookup false) => if full then 10 else 17
  | .locking (.lookup true) => if full then 17 else 9
  | .queueing => if full then 18 else 10
  | .retaining (.lookup false) kept rest =>
    (if kept.any dead then 23 else if full then 7 else 14) + rest.length
  | .retaining (.lookup true) kept rest =>
    (if kept.any dead then 21 else if full then 14 else 6) + rest.length
  | .scanning false rest => (if stale then 20 else if full then 4 else 11) + rest.length
  | .scanning true rest => (if stale then 18 else if full then 11 else 3) + rest.length

/-- `query_wire` or `keepalive` has returned, or was dropped. -/
def PoolPhase.over : PoolPhase → Bool
  | .answered _ | .failed _ | .gone => true
  | _ => false

/-- A caller that has not retried may go through the loop again. -/
def Caller.rank (s : DotPool) (caller : Caller) : Nat :=
  if caller.phase.over then 0
  else (if caller.retried then 0 else 30) + caller.phase.rank s.deadAt s.full s.stale

namespace DotPool

/-- How many connections can still come, be pushed and die. -/
def budget (s : DotPool) : Nat :=
  (s.callers.map fun caller => caller.phase.weight caller.retried).sum + s.living

def ranks (s : DotPool) : Nat := (s.callers.map (Caller.rank s)).sum

end DotPool

/-! ## Connections that die -/

section Death

variable {c c' : DotConnection} {label : Label}

theorem dead_step (hStep : step c label = some c') (hDead : c.dead = true) : c'.dead = true := by
  cases (step_moves hStep).2 with
  | stop | writerFail | readerFail | timerFail | fail => rfl
  | reserve | check | checkDead | lock | recheck | recheckDead | insert | insertRefused
  | insertFault | send | sendStopped | deliver | deliverClosed | cancelReserved | cancelWaiting
  | write | writeError | writerClosed | receiveFault | receiveAnswered | receiveMismatch
  | receiveOther | readError | readerClosed | drain | timer => exact hDead

/-- Taking a permit and dropping it kills nobody. -/
theorem dead_reserve {query : Bytes} (hStep : step c (.reserve query) = some c') :
    c'.dead = c.dead := by
  cases (step_moves hStep).2 with
  | reserve => rfl

theorem dead_cancel {n : Nat} (hStep : step c (.cancel n) = some c') : c'.dead = c.dead := by
  cases (step_moves hStep).2 with
  | cancelReserved | cancelWaiting => rfl

end Death

/-- The same connections have failed. -/
structure SameDead (s u : DotPool) : Prop where
  deadAt : u.deadAt = s.deadAt
  living : u.living = s.living

section SameDead

variable {s u s' : DotPool} {k : Nat} {conn conn' : DotConnection}

theorem deadAt_iff : s.deadAt k = true ↔ ∃ conn, s.conns[k]? = some conn ∧ conn.dead = true := by
  unfold DotPool.deadAt
  cases s.conns[k]? with
  | none => simp
  | some conn => simp

theorem sameDead_refl (hConns : u.conns = s.conns) : SameDead s u := by
  refine ⟨funext fun k => ?_, ?_⟩
  · rw [DotPool.deadAt, hConns]
    rfl
  · rw [DotPool.living, hConns]
    rfl

theorem deadAt_set (hk : s.conns[k]? = some conn) (k' : Nat) :
    (DotPool.deadAt { s with conns := s.conns.set k conn' }) k' =
      if k = k' then conn'.dead else s.deadAt k' := by
  unfold DotPool.deadAt
  by_cases hEq : k = k'
  · subst hEq
    rw [if_pos rfl, List.getElem?_set_self (List.getElem?_eq_some_iff.mp hk).1]
    rfl
  · rw [if_neg hEq, List.getElem?_set_ne hEq]

theorem living_set (conn' : DotConnection) (hk : s.conns[k]? = some conn) :
    (DotPool.living { s with conns := s.conns.set k conn' }) + (if conn.dead then 0 else 1) =
      s.living + (if conn'.dead then 0 else 1) := by
  have hSet : s.conns.set k conn' = s.conns.modify k fun _ => conn' := List.set_eq_modify ..
  have hCount := countP_modify (f := fun _ => conn') (fun conn => !conn.dead) hk
  unfold DotPool.living
  rw [hSet]
  cases hOld : conn.dead <;> cases hNew : conn'.dead <;> simp [hOld, hNew] at hCount ⊢ <;> omega

theorem sameDead_set (hk : s.conns[k]? = some conn) (hDead : conn'.dead = conn.dead) :
    SameDead s { s with conns := s.conns.set k conn' } := by
  refine ⟨funext fun k' => ?_, ?_⟩
  · rw [deadAt_set hk]
    split
    · subst k'
      rw [hDead, DotPool.deadAt, hk]
      rfl
    · rfl
  · have := living_set conn' hk
    rw [hDead] at this
    omega

theorem sameDead_tryReserve {query : Bytes} {permit : Permit}
    (hReserve : s.tryReserve k query = some (permit, s')) :
    SameDead s s' ∧ s'.connections = s.connections ∧ s'.callers = s.callers := by
  obtain ⟨conn, -, hInside, -⟩ := tryReserve_eq_some.mp hReserve
  obtain ⟨conn₀, conn', hk, hStep, rfl⟩ := inside_eq_some.mp hInside
  exact ⟨sameDead_set hk (dead_reserve hStep), rfl, rfl⟩

theorem sameDead_dropPermit {permit : Permit} (hDrop : s.dropPermit permit = some s') :
    SameDead s s' ∧ s'.connections = s.connections ∧ s'.callers = s.callers := by
  obtain ⟨conn, conn', hk, hStep, rfl⟩ := inside_eq_some.mp hDrop
  exact ⟨sameDead_set hk (dead_cancel hStep), rfl, rfl⟩

theorem SameDead.stale (h : SameDead s u) (hVec : u.connections = s.connections) :
    u.stale = s.stale := by
  unfold DotPool.stale
  rw [hVec, h.deadAt]

theorem SameDead.full (h : SameDead s u) (hVec : u.connections = s.connections) :
    u.full = s.full := by
  unfold DotPool.full
  rw [hVec, h.stale hVec]

end SameDead

/-! ## The lists callers go through -/

/-- What a caller in a section of the lock has in hand is the vector, with some of its dead
members left out; what `keepalive` has cloned is as short. -/
def PoolPhase.Listed (connections : List Nat) (dead : Nat → Bool) : PoolPhase → Prop
  | .retaining _ kept rest =>
    (kept ++ rest).Sublist connections ∧
      (connections.filter fun k => !dead k).Sublist (kept ++ rest)
  | .scanning _ rest => rest.Sublist connections
  | .probing rest _ => rest.length ≤ maxDotConnections
  | _ => True

def Listed (s : DotPool) : Prop := ∀ (c : Nat) (caller : Caller), s.callers[c]? = some caller →
  caller.phase.Listed s.connections s.deadAt

section ListedSteps

variable {s u s' : DotPool} {c k : Nat} {caller : Caller}

/-- With more of them dead, fewer are left. -/
theorem PoolPhase.Listed.mono {phase : PoolPhase} {connections connections' : List Nat}
    {dead dead' : Nat → Bool} (h : phase.Listed connections dead)
    (hVec : phase.locks = true → connections' = connections)
    (hDead : ∀ k, dead k = true → dead' k = true) : phase.Listed connections' dead' := by
  cases phase with
  | retaining sec kept rest =>
    rw [hVec rfl]
    refine ⟨h.1, List.Sublist.trans ?_ h.2⟩
    refine List.monotone_filter_right _ fun k hk => ?_
    rw [Bool.not_eq_true'] at hk ⊢
    by_contra hSome
    rw [hDead k (by simpa using hSome)] at hk
    cases hk
  | scanning dialing rest =>
    rw [hVec rfl]
    exact h
  | probing => exact h
  | locking | waiting | acquired | queueing | connecting | reserving | pushing | querying
  | answered | failed | joining | gone => trivial

/-- A caller moves on and leaves the vector alone, or has its lock. -/
theorem Listed.advance (h : Listed s) (hBounded : Bounded s) (hc : s.callers[c]? = some caller)
    {f : Caller → Caller} (hCallers : u.callers = s.callers.modify c f)
    (hDead : ∀ k, s.deadAt k = true → u.deadAt k = true)
    (hVec : u.connections = s.connections ∨ OnlyBy s.lockedBy c)
    (hNext : (f caller).phase.Listed u.connections u.deadAt) : Listed u := by
  intro c' caller' hc'
  rw [hCallers] at hc'
  rcases getElem?_modify_cases hc hc' with ⟨rfl, rfl⟩ | ⟨hne, hOld⟩
  · exact hNext
  · -- nobody else is in a section when the vector changes
    refine (h c' caller' hOld).mono (fun hLocks => ?_) hDead
    rcases hVec with hSame | hOnly
    · exact hSame
    · exact absurd (hOnly c' ((hBounded.callers c' caller' hOld).lock hLocks)) hne

theorem Listed.append (h : Listed s) {new : Caller}
    (hNew : new.phase.Listed s.connections s.deadAt) :
    Listed { s with callers := s.callers ++ [new] } := by
  intro c caller hc
  rcases getElem?_append_one hc with hc | ⟨-, rfl⟩
  · exact h c caller hc
  · exact hNew

theorem Listed.own (h : Listed s) {phase : PoolPhase} (hc : s.callers[c]? = some caller)
    (hPhase : caller.phase = phase) : phase.Listed s.connections s.deadAt := by
  rw [← hPhase]
  exact h c caller hc

/-- What `retain` does with the next connection. -/
theorem retain_next {sec : Section} {kept rest : List Nat} (hc : s.callers[c]? = some caller)
    (hPhase : caller.phase = .retaining sec kept (k :: rest))
    (hStep : poolStep s (.retain c) = some u) :
    u = s.goto c (.retaining sec (if s.deadAt k then kept else kept ++ [k]) rest) := by
  rw [poolStep_caller hc rfl] at hStep
  simp only [DotPool.stepCaller, hPhase] at hStep
  obtain ⟨conn, hk, rfl⟩ := Option.map_eq_some_iff.mp hStep
  rw [DotPool.deadAt, hk]
  rfl

theorem deadAt_step {label : PoolLabel} (hStep : poolStep s label = some u)
    (h : s.deadAt k = true) : u.deadAt k = true := by
  obtain ⟨conn, hk, hDead⟩ := deadAt_iff.mp h
  obtain ⟨conn', hk', rfl | ⟨label', hInside⟩⟩ := later_step hStep k conn hk
  · exact deadAt_iff.mpr ⟨_, hk', hDead⟩
  · exact deadAt_iff.mpr ⟨conn', hk', dead_step hInside hDead⟩

/-- `retain` leaves out dead ones only. -/
theorem PoolPhase.Listed.retain {sec : Section} {kept rest connections : List Nat}
    {dead : Nat → Bool} (h : (retaining sec kept (k :: rest)).Listed connections dead) :
    (retaining sec (if dead k then kept else kept ++ [k]) rest).Listed connections dead := by
  obtain ⟨hSub, hAlive⟩ := h
  split
  · rename_i hGone
    refine ⟨List.Sublist.trans ?_ hSub, ?_⟩
    · exact (List.Sublist.refl kept).append (List.sublist_cons_self k rest)
    · have hFilter := hAlive.filter fun k => !dead k
      rw [List.filter_filter, List.filter_append, List.filter_cons_of_neg (by simp [hGone]),
        ← List.filter_append] at hFilter
      simp only [Bool.and_self] at hFilter
      exact hFilter.trans List.filter_sublist
  · show (kept ++ [k] ++ rest).Sublist connections ∧
      (connections.filter fun k => !dead k).Sublist (kept ++ [k] ++ rest)
    rw [List.append_assoc, List.singleton_append]
    exact ⟨hSub, hAlive⟩

/-- **One step.** -/
theorem listed_step {label : PoolLabel} (hBounded : Bounded s) (h : Listed s)
    (hStep : poolStep s label = some u) : Listed u := by
  have hDead : ∀ k, s.deadAt k = true → u.deadAt k = true := fun k => deadAt_step hStep
  cases poolStep_moves hStep with
  | query | keepalive => exact h.append trivial
  | inside hInside =>
    obtain ⟨conn, conn', -, -, rfl⟩ := inside_eq_some.mp hInside
    exact fun c caller hc => (h c caller hc).mono (fun _ => rfl) hDead
  | lock hc hPhase hLock =>
    exact h.advance hBounded hc rfl hDead (.inl rfl) ⟨.refl _, List.filter_sublist⟩
  | retainNext hc hPhase =>
    rw [retain_next hc hPhase hStep] at hDead ⊢
    exact h.advance hBounded hc rfl hDead (.inl rfl) (h.own hc hPhase).retain
  | retained hc hPhase =>
    have hOnly := (hBounded.own hc hPhase).onlyLock rfl
    exact h.advance hBounded hc rfl hDead (.inr hOnly) (.refl _)
  | cloned hc hPhase hNext =>
    have hOnly := (hBounded.own hc hPhase).onlyLock rfl
    have hShort := (hBounded.own hc hPhase).kept _ _ _ rfl
    refine h.advance hBounded hc rfl hDead (.inr hOnly) ?_
    rcases hNext with rfl | rfl
    · trivial
    · exact le_trans (Nat.le_of_add_right_le hShort) hBounded.short
  | scanNext hc hPhase =>
    exact h.advance hBounded hc rfl hDead (.inl rfl)
      ((List.sublist_cons_self _ _).trans (h.own hc hPhase))
  | probeTaken hc hPhase hReserve =>
    obtain ⟨-, hVec, hCallers⟩ := sameDead_tryReserve hReserve
    exact h.advance hBounded hc (congrArg (List.modify · _ _) hCallers) hDead (.inl hVec)
      (Nat.le_of_succ_le (h.own hc hPhase))
  | probeSkipped hc hPhase =>
    exact h.advance hBounded hc rfl hDead (.inl rfl) (Nat.le_of_succ_le (h.own hc hPhase))
  | scanFound hc hPhase hReserve | acquire hc hPhase hReserve | reserve hc hPhase hReserve =>
    obtain ⟨-, hVec, hCallers⟩ := sameDead_tryReserve hReserve
    exact h.advance hBounded hc (congrArg (List.modify · _ _) hCallers) hDead (.inl hVec) trivial
  | dead hc hPhase hDrop | cancelPushing hc hPhase hDrop =>
    obtain ⟨-, hVec, hCallers⟩ := sameDead_dropPermit hDrop
    exact h.advance hBounded hc (congrArg (List.modify · _ _) hCallers) hDead (.inl hVec) trivial
  | push hc hPhase hLock =>
    refine h.advance hBounded hc rfl hDead (.inr ?_) trivial
    rw [hLock]
    exact onlyBy_none _
  | finished retried hc hPhase hNext =>
    refine h.advance hBounded hc rfl hDead (.inl rfl) ?_
    rcases hNext with rfl | rfl | ⟨_, rfl⟩ | ⟨_, rfl⟩ <;> trivial
  | scanWait hc | scanQueue hc | scanConnect hc | scanAgain hc | alive hc | dial hc | connected hc
  | connectFailed hc | reserveFailed hc | probesMade hc | leave hc | cancelLocking hc
  | cancelIdle hc | cancelConnecting hc =>
    exact h.advance hBounded hc rfl hDead (.inl rfl) trivial

end ListedSteps

/-! ## A turn of a caller -/

section Turns

variable {s u s' : DotPool} {c k : Nat} {caller : Caller}

/-- The end of the second section: the vector has room, or was filled by somebody else. -/
theorem scan_second (hc : s.callers[c]? = some caller) (hPhase : caller.phase = .scanning true [])
    (hStep : poolStep s (.scan c) = some u) :
    u = (s.goto c .connecting).unlock ∨
    (maxDotConnections ≤ s.connections.length ∧
      u = ((s.goto c (.locking (.lookup false))).unlock.hangUp true)) := by
  rw [poolStep_caller hc rfl] at hStep
  simp only [DotPool.stepCaller, hPhase] at hStep
  split at hStep
  · exact .inl (Option.some.inj hStep).symm
  · rename_i hRoom
    exact .inr ⟨Nat.le_of_not_lt hRoom, (Option.some.inj hStep).symm⟩

theorem acquire_waited {waits : List Nat} (hc : s.callers[c]? = some caller)
    (hPhase : caller.phase = .waiting waits) (hStep : poolStep s (.acquire c k) = some u) :
    k ∈ waits := by
  rw [poolStep_caller hc rfl] at hStep
  simp only [DotPool.stepCaller, hPhase] at hStep
  split at hStep
  · assumption
  · cases hStep

/-- A caller goes back to the start only if the connection it waited for is dead. -/
theorem checkAlive_cases {permit : Permit} (hc : s.callers[c]? = some caller)
    (hPhase : caller.phase = .acquired k permit) (hStep : poolStep s (.checkAlive c) = some u) :
    u = s.goto c (.querying k permit) ∨
    (s.deadAt k = true ∧ ∃ s', s.dropPermit permit = some s' ∧
      u = s'.goto c (.locking (.lookup false))) := by
  rw [poolStep_caller hc rfl] at hStep
  simp only [DotPool.stepCaller, hPhase] at hStep
  obtain ⟨conn, hk, hStep⟩ := Option.bind_eq_some_iff.mp hStep
  split at hStep
  · rename_i hDead
    obtain ⟨s', hDrop, rfl⟩ := Option.map_eq_some_iff.mp hStep
    exact .inr ⟨deadAt_iff.mpr ⟨conn, hk, hDead⟩, s', hDrop, rfl⟩
  · exact .inl (Option.some.inj hStep).symm

/-- Only an attempt that was the first one is followed by another. -/
theorem finish_turn (hStep : poolStep s (.finish c) = some u) :
    ∃ caller k permit, s.callers[c]? = some caller ∧ caller.phase = .querying k permit ∧
      ((∃ phase, phase.over = true ∧ u = s.goto c phase) ∨
        (caller.retried = false ∧ u = { s with
          callers := s.callers.modify c fun caller =>
            { caller with retried := true, phase := .locking (.lookup false) } })) := by
  obtain ⟨caller, k, permit, hc, hPhase, hNext⟩ := finish_cases hStep
  refine ⟨caller, k, permit, hc, hPhase, ?_⟩
  rcases hNext with ⟨response, -, rfl⟩ | ⟨failure, rfl⟩ | rfl
  · exact .inl ⟨_, rfl, rfl⟩
  · unfold DotPool.retry
    split
    · split
      · exact .inl ⟨_, rfl, rfl⟩
      · rename_i hFirst
        exact .inr ⟨by simpa using hFirst, rfl⟩
    · exact .inl ⟨_, rfl, rfl⟩
  · exact .inl ⟨_, rfl, rfl⟩

/-! ### The vector -/

theorem full_of_room (h : s.connections.length < maxDotConnections) : s.full = false := by
  unfold DotPool.full
  rw [decide_eq_false (Nat.not_le.mpr h), Bool.false_and]

theorem full_of_long (h : maxDotConnections ≤ s.connections.length) : s.full = !s.stale := by
  unfold DotPool.full
  rw [decide_eq_true h, Bool.true_and]

/-- Cleaning up neither fills the vector nor makes room among those alive: it was full of
connections that are alive, and nothing was left out, or it was not and still is not. -/
theorem full_retain {kept : List Nat} (hBounded : Bounded s) (hSame : SameDead s u)
    (hSub : kept.Sublist s.connections)
    (hAlive : (s.connections.filter fun k => !s.deadAt k).Sublist kept)
    (hVec : u.connections = kept) : u.full = s.full := by
  by_cases hEq : kept = s.connections
  · exact hSame.full (hVec.trans hEq)
  · -- something was left out, so it was dead
    have hShorter : kept.length < s.connections.length :=
      lt_of_le_of_ne hSub.length_le fun hLength => hEq (hSub.eq_of_length hLength)
    have hRoom : u.full = false := by
      refine full_of_room ?_
      rw [hVec]
      exact lt_of_lt_of_le hShorter hBounded.short
    have hStale : s.stale = true := by
      by_contra hFresh
      have hAll : (s.connections.filter fun k => !s.deadAt k) = s.connections := by
        refine List.filter_eq_self.mpr fun k hk => ?_
        have := fun hDead => hFresh (List.any_eq_true.mpr ⟨k, hk, hDead⟩)
        simpa using this
      rw [hAll] at hAlive
      exact absurd hAlive.length_le (Nat.not_le.mpr hShorter)
    rw [hRoom]
    unfold DotPool.full
    rw [hStale, Bool.not_true, Bool.and_false]

/-! ### One turn -/

/-- The measure, read lexicographically. -/
def Spends (s u : DotPool) : Prop := u.budget < s.budget ∨ u.budget ≤ s.budget ∧ u.ranks < s.ranks

/-- A phase is followed by a lower one. -/
structure PoolPhase.Lower (dead : Nat → Bool) (full stale stale' : Bool) (phase phase' : PoolPhase) :
    Prop where
  weight : ∀ retried, phase'.weight retried ≤ phase.weight retried
  rank : phase'.rank dead full stale' < phase.rank dead full stale

/-- Those outside a section do not look at the vector. -/
theorem PoolPhase.rank_congr {phase : PoolPhase} {dead : Nat → Bool} {full stale stale' : Bool}
    (h : phase.locks = true → stale' = stale) :
    phase.rank dead full stale' = phase.rank dead full stale := by
  cases phase with
  | scanning dialing rest => rw [h rfl]
  | locking sec | retaining sec => rcases sec with (_ | _) | _ <;> rfl
  | waiting | acquired | queueing | connecting | reserving | pushing | querying | answered | failed
  | probing | joining | gone => rfl

theorem PoolPhase.rank_of_over {phase : PoolPhase} (h : phase.over = true) (dead : Nat → Bool)
    (full stale : Bool) : phase.rank dead full stale = 0 := by
  cases phase with
  | answered | failed | gone => rfl
  | locking | retaining | scanning | waiting | acquired | queueing | connecting | reserving | pushing
  | querying | probing | joining => cases h

/-- The callers other than `c` keep their ranks, so the measure follows `c`. -/
theorem spends_of_caller (hBounded : Bounded s) (hc : s.callers[c]? = some caller)
    {f : Caller → Caller} (hCallers : u.callers = s.callers.modify c f) (hSame : SameDead s u)
    (hFull : u.full = s.full) (hVec : u.connections = s.connections ∨ OnlyBy s.lockedBy c)
    (hWeight : (f caller).phase.weight (f caller).retried ≤ caller.phase.weight caller.retried)
    (hRank : (f caller).rank u < caller.rank s) : Spends s u := by
  have hOthers : ∀ (c' : Nat) (other : Caller), c' ≠ c → s.callers[c']? = some other →
      other.rank u = other.rank s := by
    intro c' other hne hOther
    unfold Caller.rank
    rw [hSame.deadAt, hFull, PoolPhase.rank_congr fun hLocks => ?_]
    rcases hVec with hVec | hOnly
    · exact hSame.stale hVec
    · exact absurd (hOnly c' ((hBounded.callers c' other hOther).lock hLocks)) hne
  have hRanks := sum_map_modify (f := f) hc hOthers
  have hBudget := sum_map_modify (f := f) (g := fun caller => caller.phase.weight caller.retried) hc
    fun _ _ _ _ => rfl
  refine .inr ⟨?_, ?_⟩
  · unfold DotPool.budget
    rw [hCallers, hSame.living]
    omega
  · unfold DotPool.ranks
    rw [hCallers]
    omega

/-- A turn from one phase to the next. -/
theorem spends_turn (hBounded : Bounded s) (hc : s.callers[c]? = some caller)
    {phase phase' : PoolPhase} (hPhase : caller.phase = phase)
    (hCallers : u.callers = (s.goto c phase').callers) (hSame : SameDead s u)
    (hFull : u.full = s.full) (hVec : u.connections = s.connections ∨ OnlyBy s.lockedBy c)
    (hLower : phase.Lower s.deadAt s.full s.stale u.stale phase') : Spends s u := by
  refine spends_of_caller hBounded hc hCallers hSame hFull hVec ?_ ?_
  · rw [hPhase]
    exact hLower.weight caller.retried
  · have hRank := hLower.rank
    -- a caller that is done has nothing lower
    have hGoes : phase.over = false := by
      by_contra hOver
      have hZero : phase.rank s.deadAt s.full s.stale = 0 :=
        PoolPhase.rank_of_over (by simpa using hOver) ..
      omega
    unfold Caller.rank
    rw [hPhase, hGoes, hSame.deadAt, hFull]
    split
    · simp only [Bool.false_eq_true, if_false]
      omega
    · simp only [Bool.false_eq_true, if_false]
      omega

/-- A turn that leaves the vector alone. -/
theorem spends_still (hBounded : Bounded s) (hc : s.callers[c]? = some caller)
    {phase phase' : PoolPhase} (hPhase : caller.phase = phase)
    (hCallers : u.callers = (s.goto c phase').callers) (hSame : SameDead s u)
    (hVec : u.connections = s.connections)
    (hLower : phase.Lower s.deadAt s.full s.stale s.stale phase') : Spends s u := by
  refine spends_turn hBounded hc hPhase hCallers hSame (hSame.full hVec) (.inl hVec) ?_
  rw [hSame.stale hVec]
  exact hLower

end Turns

/-! ### The turns -/

section Lower

variable {dead : Nat → Bool} {full stale : Bool} {k : Nat} {connections kept rest waits : List Nat}

theorem PoolPhase.rank_pos {phase : PoolPhase} (h : phase.over = false) :
    0 < phase.rank dead full stale := by
  unfold PoolPhase.rank
  split
  case h_1 | h_2 | h_3 => cases h
  all_goals (try split_ifs) <;> omega

/-- Returning, failing and being dropped. -/
theorem lower_over {phase phase' : PoolPhase} (hPhase : phase.over = false)
    (hNext : phase'.over = true) : phase.Lower dead full stale stale phase' := by
  refine ⟨fun retried => ?_, ?_⟩
  · cases phase' with
    | answered | failed | gone => exact Nat.zero_le _
    | locking | retaining | scanning | waiting | acquired | queueing | connecting | reserving
    | pushing | querying | probing | joining => cases hNext
  · rw [PoolPhase.rank_of_over hNext]
    exact PoolPhase.rank_pos hPhase

theorem lower_lock {sec : Section} (hShort : connections.length ≤ maxDotConnections) :
    (PoolPhase.locking sec).Lower dead full stale stale (.retaining sec [] connections) := by
  unfold maxDotConnections at hShort
  refine ⟨fun retried => le_refl _, ?_⟩
  rcases sec with (_ | _) | _ <;> cases full <;>
    simp only [PoolPhase.rank, List.any_nil, Bool.false_eq_true, if_true, if_false] <;> omega

/-- The list gets shorter; one that is alive is kept. -/
theorem lower_retain {sec : Section} :
    (PoolPhase.retaining sec kept (k :: rest)).Lower dead full stale stale
      (.retaining sec (if dead k then kept else kept ++ [k]) rest) := by
  have hAny : (if dead k then kept else kept ++ [k]).any dead = kept.any dead := by
    split
    · rfl
    · rename_i hAlive
      simp [hAlive]
  refine ⟨fun retried => le_refl _, ?_⟩
  rcases sec with (_ | _) | _ <;> simp only [PoolPhase.rank, hAny, List.length_cons] <;> omega

theorem lower_retained {dialing : Bool} (hShort : kept.length ≤ maxDotConnections) :
    (PoolPhase.retaining (.lookup dialing) kept []).Lower dead full stale (kept.any dead)
      (.scanning dialing kept) := by
  unfold maxDotConnections at hShort
  refine ⟨fun retried => le_refl _, ?_⟩
  cases dialing <;> simp only [PoolPhase.rank, List.length_nil] <;> split_ifs <;> omega

theorem lower_cloned {phase : PoolPhase} {stale' : Bool} (hShort : kept.length ≤ maxDotConnections)
    (hNext : phase = .locking (.lookup false) ∨ phase = .probing kept []) :
    (PoolPhase.retaining .keepalive kept []).Lower dead full stale stale' phase := by
  unfold maxDotConnections at hShort
  rcases hNext with rfl | rfl
  · refine ⟨fun retried => le_refl _, ?_⟩
    simp only [PoolPhase.rank, List.length_nil]
    split_ifs <;> omega
  · refine ⟨fun retried => Nat.zero_le _, ?_⟩
    simp only [PoolPhase.rank, List.length_nil]
    omega

theorem lower_scanFound {dialing : Bool} {permit : Permit} :
    (PoolPhase.scanning dialing (k :: rest)).Lower dead full stale stale (.querying k permit) := by
  refine ⟨fun retried => by cases retried <;> simp [PoolPhase.weight], ?_⟩
  cases dialing <;> simp only [PoolPhase.rank, List.length_cons] <;> split_ifs <;> omega

theorem lower_scanNext {dialing : Bool} :
    (PoolPhase.scanning dialing (k :: rest)).Lower dead full stale stale
      (.scanning dialing rest) := by
  refine ⟨fun retried => le_refl _, ?_⟩
  cases dialing <;> simp only [PoolPhase.rank, List.length_cons] <;> omega

/-- A full vector sends a caller to wait. One of its members may be dead by then. -/
theorem lower_scanWait (hStale : waits.any dead = stale) :
    (PoolPhase.scanning false []).Lower dead full stale stale (.waiting waits) := by
  refine ⟨fun retried => le_refl _, ?_⟩
  simp only [PoolPhase.rank, List.length_nil, hStale]
  split_ifs <;> omega

theorem lower_scanQueue (hRoom : full = false) :
    (PoolPhase.scanning false []).Lower dead full stale stale .queueing := by
  refine ⟨fun retried => le_refl _, ?_⟩
  simp only [PoolPhase.rank, List.length_nil, hRoom, Bool.false_eq_true, if_false]
  split_ifs <;> omega

theorem lower_scanConnect :
    (PoolPhase.scanning true []).Lower dead full stale stale .connecting := by
  refine ⟨fun retried => le_refl _, ?_⟩
  simp only [PoolPhase.rank, List.length_nil]
  split_ifs <;> omega

/-- Back to the first section, where the vector is full unless a member has died. -/
theorem lower_scanAgain (hLong : full = !stale) :
    (PoolPhase.scanning true []).Lower dead full stale stale (.locking (.lookup false)) := by
  refine ⟨fun retried => le_refl _, ?_⟩
  rw [hLong]
  cases stale <;> simp [PoolPhase.rank]

theorem lower_acquire {permit : Permit} (hMem : k ∈ waits) :
    (PoolPhase.waiting waits).Lower dead full stale stale (.acquired k permit) := by
  refine ⟨fun retried => le_refl _, ?_⟩
  simp only [PoolPhase.rank]
  cases hDead : dead k with
  | true =>
    rw [if_pos rfl, if_pos (List.any_eq_true.mpr ⟨k, hMem, hDead⟩)]
    omega
  | false =>
    rw [if_neg Bool.false_ne_true]
    split_ifs <;> omega

theorem lower_alive {permit : Permit} :
    (PoolPhase.acquired k permit).Lower dead full stale stale (.querying k permit) := by
  refine ⟨fun retried => by cases retried <;> simp [PoolPhase.weight], ?_⟩
  simp only [PoolPhase.rank]
  split_ifs <;> omega

theorem lower_dead {permit : Permit} (hDead : dead k = true) :
    (PoolPhase.acquired k permit).Lower dead full stale stale (.locking (.lookup false)) := by
  refine ⟨fun retried => le_refl _, ?_⟩
  simp only [PoolPhase.rank, hDead]
  split_ifs <;> omega

theorem lower_dial :
    (PoolPhase.queueing).Lower dead full stale stale (.locking (.lookup true)) := by
  refine ⟨fun retried => le_refl _, ?_⟩
  simp only [PoolPhase.rank]
  split_ifs <;> omega

theorem lower_reserve {permit : Permit} :
    (PoolPhase.reserving k).Lower dead full stale stale (.pushing k permit) :=
  ⟨fun _ => le_refl _, Nat.lt_succ_self 2⟩

theorem lower_probe {probes probes' : List (Nat × Permit)} :
    (PoolPhase.probing (k :: rest) probes).Lower dead full stale stale (.probing rest probes') :=
  ⟨fun _ => le_refl _, Nat.lt_succ_self _⟩

theorem lower_join {probes : List (Nat × Permit)} :
    (PoolPhase.probing [] probes).Lower dead full stale stale (.joining probes) :=
  ⟨fun _ => le_refl _, Nat.lt_succ_self 1⟩

end Lower

/-! ## Every step -/

section Steps

variable {s u s' : DotPool} {c : Nat} {caller : Caller}

/-- A dial that succeeds, and a push, are paid for. -/
theorem spends_event (hc : s.callers[c]? = some caller) {phase phase' : PoolPhase}
    (hPhase : caller.phase = phase) (hCallers : u.callers = (s.goto c phase').callers)
    (hPaid : ∀ retried, phase'.weight retried + u.living < phase.weight retried + s.living) :
    Spends s u := by
  have hBudget : ((s.goto c phase').callers.map
        fun caller => caller.phase.weight caller.retried).sum + caller.phase.weight caller.retried =
      (s.callers.map fun caller => caller.phase.weight caller.retried).sum +
        phase'.weight caller.retried := sum_map_modify hc fun _ _ _ _ => rfl
  have := hPaid caller.retried
  refine .inl ?_
  unfold DotPool.budget
  rw [hCallers]
  rw [hPhase] at hBudget
  omega

theorem living_connected : DotPool.living { s with conns := s.conns ++ [.start] } = s.living + 1 := by
  unfold DotPool.living
  rw [List.countP_append]
  rfl

/-- **One step of a caller.** It pays for what it adds, or gets nearer to its end. -/
theorem spends_step {label : PoolLabel} (hBounded : Bounded s) (hListed : Listed s)
    (hCaller : label.caller?.isSome = true) (hStep : poolStep s label = some u) : Spends s u := by
  cases poolStep_moves hStep with
  | query | keepalive | inside => cases hCaller
  | lock hc hPhase =>
    exact spends_still hBounded hc hPhase rfl (sameDead_refl rfl) rfl (lower_lock hBounded.short)
  | retainNext hc hPhase =>
    rw [retain_next hc hPhase hStep]
    exact spends_still hBounded hc hPhase rfl (sameDead_refl rfl) rfl lower_retain
  | @retained c caller dialing kept hc hPhase =>
    obtain ⟨hSub, hAlive⟩ := hListed.own hc hPhase
    rw [List.append_nil] at hSub hAlive
    refine spends_turn hBounded hc hPhase rfl (sameDead_refl rfl)
      (full_retain hBounded (sameDead_refl rfl) hSub hAlive rfl)
      (.inr ((hBounded.own hc hPhase).onlyLock rfl)) ?_
    exact lower_retained (le_trans hSub.length_le hBounded.short)
  | @cloned c caller kept phase hc hPhase hNext =>
    obtain ⟨hSub, hAlive⟩ := hListed.own hc hPhase
    rw [List.append_nil] at hSub hAlive
    refine spends_turn hBounded hc hPhase rfl (sameDead_refl rfl)
      (full_retain hBounded (sameDead_refl rfl) hSub hAlive rfl)
      (.inr ((hBounded.own hc hPhase).onlyLock rfl)) ?_
    exact lower_cloned (le_trans hSub.length_le hBounded.short) hNext
  | scanFound hc hPhase hReserve =>
    obtain ⟨hSame, hVec, hCallers⟩ := sameDead_tryReserve hReserve
    exact spends_still hBounded hc hPhase (congrArg (List.modify · _ _) hCallers)
      ⟨hSame.deadAt, hSame.living⟩ hVec lower_scanFound
  | scanNext hc hPhase =>
    exact spends_still hBounded hc hPhase rfl (sameDead_refl rfl) rfl lower_scanNext
  | scanWait hc hPhase =>
    exact spends_still hBounded hc hPhase rfl (sameDead_refl rfl) rfl (lower_scanWait rfl)
  | scanQueue hc hPhase =>
    rcases scan_first hc hPhase hStep with ⟨-, hEq⟩ | ⟨hRoom, -⟩
    · rw [hEq]
      exact spends_still hBounded hc hPhase rfl (sameDead_refl rfl) rfl (lower_scanWait rfl)
    · exact spends_still hBounded hc hPhase rfl (sameDead_refl rfl) rfl
        (lower_scanQueue (full_of_room hRoom))
  | scanConnect hc hPhase =>
    exact spends_still hBounded hc hPhase rfl (sameDead_refl rfl) rfl lower_scanConnect
  | scanAgain hc hPhase =>
    rcases scan_second hc hPhase hStep with hEq | ⟨hLong, -⟩
    · rw [hEq]
      exact spends_still hBounded hc hPhase rfl (sameDead_refl rfl) rfl lower_scanConnect
    · exact spends_still hBounded hc hPhase rfl (sameDead_refl rfl) rfl
        (lower_scanAgain (full_of_long hLong))
  | acquire hc hPhase hReserve =>
    obtain ⟨hSame, hVec, hCallers⟩ := sameDead_tryReserve hReserve
    exact spends_still hBounded hc hPhase (congrArg (List.modify · _ _) hCallers)
      ⟨hSame.deadAt, hSame.living⟩ hVec (lower_acquire (acquire_waited hc hPhase hStep))
  | alive hc hPhase =>
    exact spends_still hBounded hc hPhase rfl (sameDead_refl rfl) rfl lower_alive
  | dead hc hPhase hDrop =>
    rcases checkAlive_cases hc hPhase hStep with hEq | ⟨hDead, -⟩
    · rw [hEq]
      exact spends_still hBounded hc hPhase rfl (sameDead_refl rfl) rfl lower_alive
    · obtain ⟨hSame, hVec, hCallers⟩ := sameDead_dropPermit hDrop
      exact spends_still hBounded hc hPhase (congrArg (List.modify · _ _) hCallers)
        ⟨hSame.deadAt, hSame.living⟩ hVec (lower_dead hDead)
  | dial hc hPhase =>
    exact spends_still hBounded hc hPhase rfl (sameDead_refl rfl) rfl lower_dial
  | @connected c caller hc hPhase =>
    refine spends_event hc hPhase rfl fun retried => ?_
    have hLiving : DotPool.living { s.goto c (.reserving s.conns.length) with
        conns := s.conns ++ [.start] } = s.living + 1 := living_connected
    rw [hLiving]
    cases retried <;> simp only [PoolPhase.weight] <;> simp <;> omega
  | reserve hc hPhase hReserve =>
    obtain ⟨hSame, hVec, hCallers⟩ := sameDead_tryReserve hReserve
    exact spends_still hBounded hc hPhase (congrArg (List.modify · _ _) hCallers)
      ⟨hSame.deadAt, hSame.living⟩ hVec lower_reserve
  | push hc hPhase =>
    refine spends_event hc hPhase rfl fun retried => ?_
    refine Nat.add_lt_add_right ?_ s.living
    cases retried <;> simp [PoolPhase.weight]
  | finished retried hc hPhase =>
    obtain ⟨caller, k, permit, hc, hPhase, ⟨phase, hOver, hEq⟩ | ⟨hFirst, hEq⟩⟩ := finish_turn hStep
    · rw [hEq]
      exact spends_still hBounded hc hPhase rfl (sameDead_refl rfl) rfl (lower_over rfl hOver)
    · rw [hEq]
      -- the one retry pays for another way through the loop
      refine spends_of_caller hBounded hc rfl (sameDead_refl rfl) rfl (.inl rfl) ?_ ?_
      · rw [hPhase, hFirst]
        exact le_refl _
      · unfold Caller.rank
        rw [hPhase, hFirst]
        simp only [PoolPhase.over, PoolPhase.rank]
        split_ifs <;> simp at *
  | probeTaken hc hPhase hReserve =>
    obtain ⟨hSame, hVec, hCallers⟩ := sameDead_tryReserve hReserve
    exact spends_still hBounded hc hPhase (congrArg (List.modify · _ _) hCallers)
      ⟨hSame.deadAt, hSame.living⟩ hVec lower_probe
  | probeSkipped hc hPhase =>
    exact spends_still hBounded hc hPhase rfl (sameDead_refl rfl) rfl lower_probe
  | probesMade hc hPhase =>
    exact spends_still hBounded hc hPhase rfl (sameDead_refl rfl) rfl lower_join
  | cancelPushing hc hPhase hDrop =>
    obtain ⟨hSame, hVec, hCallers⟩ := sameDead_dropPermit hDrop
    exact spends_still hBounded hc hPhase (congrArg (List.modify · _ _) hCallers)
      ⟨hSame.deadAt, hSame.living⟩ hVec (lower_over rfl rfl)
  | connectFailed hc hPhase | reserveFailed hc hPhase | leave hc hPhase | cancelLocking hc hPhase
  | cancelConnecting hc hPhase =>
    exact spends_still hBounded hc hPhase rfl (sameDead_refl rfl) rfl (lower_over rfl rfl)
  | cancelIdle hc hPhase =>
    rcases hPhase with hPhase | ⟨waits, hPhase⟩ | hPhase <;>
      exact spends_still hBounded hc hPhase rfl (sameDead_refl rfl) rfl (lower_over rfl rfl)

/-- **One step of a connection.** It dies, or nothing of this changes. -/
theorem inside_spends {k : Nat} {label : Label} (hInside : s.inside k label = some u) :
    u.budget < s.budget ∨ u.budget = s.budget ∧ u.ranks = s.ranks := by
  obtain ⟨conn, conn', hk, hStep, rfl⟩ := inside_eq_some.mp hInside
  by_cases hDead : conn'.dead = conn.dead
  · have hSame := sameDead_set hk hDead
    refine .inr ⟨congrArg (_ + ·) hSame.living, ?_⟩
    unfold DotPool.ranks Caller.rank
    rw [hSame.deadAt, hSame.full rfl, hSame.stale rfl]
  · have hDied : conn.dead = false ∧ conn'.dead = true := by
      cases hOld : conn.dead with
      | true => exact absurd ((dead_step hStep hOld).trans hOld.symm) hDead
      | false =>
        refine ⟨rfl, ?_⟩
        rw [hOld] at hDead
        simpa using hDead
    have hLiving := living_set conn' hk
    rw [hDied.1, hDied.2] at hLiving
    refine .inl (Nat.add_lt_add_left ?_ _)
    simp only [Bool.false_eq_true, if_false, if_true] at hLiving
    omega

/-- Without new callers their number stays. -/
theorem callers_length_step {label : PoolLabel}
    (hClosed : label.caller?.isSome = true ∨ ∃ k l, label = .inside k l)
    (hStep : poolStep s label = some u) : u.callers.length = s.callers.length := by
  cases poolStep_moves hStep with
  | query | keepalive => rcases hClosed with h | ⟨_, _, h⟩ <;> cases h
  | inside hInside =>
    obtain ⟨conn, conn', -, -, rfl⟩ := inside_eq_some.mp hInside
    rfl
  | scanFound hc hPhase hReserve | acquire hc hPhase hReserve | reserve hc hPhase hReserve
  | probeTaken hc hPhase hReserve =>
    obtain ⟨-, -, hCallers⟩ := sameDead_tryReserve hReserve
    exact (List.length_modify ..).trans (congrArg List.length hCallers)
  | dead hc hPhase hDrop | cancelPushing hc hPhase hDrop =>
    obtain ⟨-, -, hCallers⟩ := sameDead_dropPermit hDrop
    exact (List.length_modify ..).trans (congrArg List.length hCallers)
  | lock | retainNext | retained | cloned | scanNext | scanWait | scanQueue | scanConnect | scanAgain
  | alive | dial | connected | connectFailed | reserveFailed | push | finished | probeSkipped
  | probesMade | leave | cancelLocking | cancelIdle | cancelConnecting =>
    exact List.length_modify ..

/-! ## Bounds -/

theorem rank_le (hBounded : Bounded s) (hListed : Listed s) (hc : s.callers[c]? = some caller) :
    caller.rank s ≤ 55 := by
  have hPhase : caller.phase.rank s.deadAt s.full s.stale ≤ 25 := by
    have hShort := hBounded.short
    have hOwn := hListed c caller hc
    unfold maxDotConnections at hShort
    cases h : caller.phase with
    | retaining sec kept rest =>
      have := (hBounded.own hc h).kept sec kept rest rfl
      rcases sec with (_ | _) | _ <;> simp only [PoolPhase.rank] <;>
        (try split_ifs) <;> omega
    | scanning dialing rest =>
      rw [h] at hOwn
      have := List.Sublist.length_le hOwn
      cases dialing <;> simp only [PoolPhase.rank] <;> split_ifs <;> omega
    | probing rest probes =>
      rw [h] at hOwn
      have : rest.length ≤ 2 := hOwn
      simp only [PoolPhase.rank]
      omega
    | locking sec =>
      rcases sec with (_ | _) | _ <;> simp only [PoolPhase.rank] <;> (try split_ifs) <;> omega
    | waiting | acquired | queueing | connecting | reserving | pushing | querying | answered | failed
    | joining | gone =>
      simp only [PoolPhase.rank]
      (try split_ifs) <;> omega
  unfold Caller.rank
  split_ifs <;> omega

theorem ranks_le (hBounded : Bounded s) (hListed : Listed s) :
    s.ranks ≤ 55 * s.callers.length := by
  have := List.sum_le_card_nsmul (s.callers.map (Caller.rank s)) 55 (by
    intro r hr
    obtain ⟨caller, hMem, rfl⟩ := List.mem_map.mp hr
    obtain ⟨c, hc⟩ := List.getElem?_of_mem hMem
    exact rank_le hBounded hListed hc)
  rw [List.length_map, smul_eq_mul] at this
  unfold DotPool.ranks
  omega

theorem PoolPhase.weight_le (phase : PoolPhase) (retried : Bool) : phase.weight retried ≤ 6 := by
  unfold PoolPhase.weight
  split <;> (try split) <;> omega

theorem budget_le (s : DotPool) : s.budget ≤ 6 * s.callers.length + s.conns.length := by
  have := List.sum_le_card_nsmul (s.callers.map fun caller => caller.phase.weight caller.retried) 6
    (by
      intro w hw
      obtain ⟨caller, -, rfl⟩ := List.mem_map.mp hw
      exact caller.phase.weight_le caller.retried)
  rw [List.length_map, smul_eq_mul] at this
  have hLiving : s.living ≤ s.conns.length := List.countP_le_length
  unfold DotPool.budget
  omega

/-- The measure as one number: after something was paid, `n` callers may start over. -/
def DotPool.measure (n : Nat) (s : DotPool) : Nat := s.budget * (55 * n + 1) + s.ranks

theorem measure_lt {n : Nat} (hRanks : u.ranks ≤ 55 * n) (h : Spends s u) :
    u.measure n < s.measure n := by
  unfold DotPool.measure
  rcases h with hPaid | ⟨hBudget, hLess⟩
  · calc u.budget * (55 * n + 1) + u.ranks
        < u.budget * (55 * n + 1) + (55 * n + 1) := by omega
      _ = (u.budget + 1) * (55 * n + 1) := by ring
      _ ≤ s.budget * (55 * n + 1) := Nat.mul_le_mul_right _ hPaid
      _ ≤ s.budget * (55 * n + 1) + s.ranks := Nat.le_add_right _ _
  · exact Nat.add_lt_add_of_le_of_lt (Nat.mul_le_mul_right _ hBudget) hLess

end Steps

/-! ## Whole runs -/

/-- **No caller spins.** From any state that callers, dials and dying connections can bring the
pool into, the `n` callers there are take a bounded number of steps altogether until somebody
calls `query_wire` or `keepalive` again: however their steps are interleaved, whichever dials
succeed, and whenever the connections die. The bound depends on `n` and on the connections that
were started, not on what the connections do. -/
theorem pool_steps_bounded {before after : List PoolLabel} {s u : DotPool}
    (hBefore : run poolStep .new before = some s) (hAfter : run poolStep s after = some u)
    (hClosed : ∀ label ∈ after, label.caller?.isSome = true ∨ ∃ k l, label = .inside k l) :
    after.countP (fun label => label.caller?.isSome) ≤
      (6 * s.callers.length + s.conns.length) * (55 * s.callers.length + 1) +
        55 * s.callers.length := by
  have hListed : Bounded s ∧ Listed s := by
    refine run_invariant (I := fun s => Bounded s ∧ Listed s) ?_ ⟨?_, ?_⟩ hBefore
    · exact fun s label u h hStep => ⟨bounded_step h.1 hStep, listed_step h.1 h.2 hStep⟩
    · exact ⟨Nat.zero_le _, fun c caller hc => by cases hc⟩
    · exact fun c caller hc => by cases hc
  have hCount := run_count_le
    (I := fun t => Bounded t ∧ Listed t ∧ t.callers.length = s.callers.length)
    (fun label => label.caller?.isSome) (DotPool.measure s.callers.length) ?_
    ⟨hListed.1, hListed.2, rfl⟩ (guarded_of_forall hClosed s) hAfter
  · have hBudget := Nat.mul_le_mul_right (55 * s.callers.length + 1) (budget_le s)
    have hRanks := ranks_le hListed.1 hListed.2
    have hStart : DotPool.measure s.callers.length s =
      s.budget * (55 * s.callers.length + 1) + s.ranks := rfl
    omega
  · rintro t label t' ⟨hBounded, hListed, hLength⟩ hLabel hStep
    have hBounded' := bounded_step hBounded hStep
    have hListed' := listed_step hBounded hListed hStep
    have hLength' : t'.callers.length = s.callers.length :=
      (callers_length_step hLabel hStep).trans hLength
    have hRanks : t'.ranks ≤ 55 * s.callers.length := hLength' ▸ ranks_le hBounded' hListed'
    refine ⟨⟨hBounded', hListed', hLength'⟩, ?_⟩
    rcases hLabel with hCaller | ⟨k, label, rfl⟩
    · have := measure_lt hRanks (spends_step hBounded hListed hCaller hStep)
      exact ⟨this.le, fun _ => this⟩
    · refine ⟨?_, fun h => by cases h⟩
      cases poolStep_moves hStep with
      | inside hInside =>
        rcases inside_spends hInside with hPaid | ⟨hBudget, hEq⟩
        · exact (measure_lt hRanks (.inl hPaid)).le
        · unfold DotPool.measure
          rw [hBudget, hEq]

/-- A caller whose connection fails looks again, dials and asks once more. -/
theorem steps_bounded_retried :
    ∃ s u, run poolStep .new askTwice = some s ∧ run poolStep s askTwiceThen = some u ∧
      askTwiceThen.countP (fun label => label.caller?.isSome) = 11 ∧
      askTwiceThen.countP (fun label => label.caller?.isSome) ≤ (6 * 1 + 1) * (55 * 1 + 1) + 55 * 1 := by
  have hView : (run poolStep .new askTwice).bind (fun s =>
      (run poolStep s askTwiceThen).map fun _ => (s.callers.length, s.conns.length)) =
      some (1, 1) := by decide +kernel
  obtain ⟨s, hBefore, hView⟩ := Option.bind_eq_some_iff.mp hView
  obtain ⟨u, hAfter, hView⟩ := Option.map_eq_some_iff.mp hView
  obtain ⟨hCallers, hConns⟩ := Prod.mk.inj hView
  have hCallersOnly : askTwiceThen.all (fun label => label.caller?.isSome) = true := rfl
  have hBound := pool_steps_bounded hBefore hAfter
    (fun label hLabel => .inl (List.all_eq_true.mp hCallersOnly label hLabel))
  rw [hCallers, hConns] at hBound
  exact ⟨s, u, hBefore, hAfter, rfl, hBound⟩

end DnsRs.Dot
