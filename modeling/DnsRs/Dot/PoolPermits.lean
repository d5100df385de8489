import DnsRs.Dot.PoolRuns
import DnsRs.Dot.Tended

/-!
# No permit is lost

A caller of the pool takes a permit of a connection, carries it through the lookup, and its
query gives it to the pending map. Callers are dropped and dials fail on the way.

* `Held` — a lock of the pool that is taken has an owner inside its section, and a permit that
  is out belongs to a caller that still has it.
* `pool_permits_accounted` — so no permit is lost: those a connection lacks are with pending
  queries and with callers.
-/

namespace DnsRs.Dot

open Lib Wire DotConnection

/-! ## Permits and guards -/

section Permits

variable {c c' : DotConnection} {label : Label}

/-- A permit is taken by `reserve`, and by nothing else. -/
theorem holds_step (hStep : step c label = some c') {m : Nat} {call' : Call}
    (hm : c'.calls[m]? = some call') (hHolds : call'.phase.holdsPermit = true) :
    (∃ call, c.calls[m]? = some call ∧ call.phase.holdsPermit = true) ∨
      m = c.calls.length ∧ label.isReserve = true := by
  obtain ⟨-, hMoves⟩ := step_moves hStep
  -- the call that moves has held its permit before
  have hMoved : ∀ {n : Nat} {call : Call} {f : Call → Call}, c.calls[n]? = some call →
      (c.calls.modify n f)[m]? = some call' →
      ((f call).phase.holdsPermit = true → call.phase.holdsPermit = true) →
      ∃ call, c.calls[m]? = some call ∧ call.phase.holdsPermit = true := by
    intro n call f hn hm hOld
    rcases getElem?_modify_cases hn hm with ⟨rfl, rfl⟩ | ⟨-, hm⟩
    · exact ⟨call, hn, hOld hHolds⟩
    · exact ⟨call', hm, hHolds⟩
  -- a reply moves nobody
  have hSame : ∀ {calls : List Call}, calls.map Call.phase = c.calls.map Call.phase →
      calls[m]? = some call' → ∃ call, c.calls[m]? = some call ∧ call.phase.holdsPermit = true := by
    intro calls hPhases hm
    obtain ⟨call, hn, hEq⟩ := exists_getElem?_of_map_eq hPhases hm
    exact ⟨call, hn, by rw [hEq]; exact hHolds⟩
  cases hMoves with
  | reserve hAvail =>
    rcases getElem?_append_one hm with hOld | ⟨hNew, -⟩
    · exact .inl ⟨call', hOld, hHolds⟩
    · exact .inr ⟨hNew, rfl⟩
  | check hn hPhase | lock hn hPhase | recheck hn hPhase =>
    exact .inl (hMoved hn hm fun _ => by rw [hPhase]; rfl)
  | checkDead hn | recheckDead hn | insert hn | insertRefused hn | send hn | sendStopped hn
  | stop hn | deliver hn | deliverClosed hn | cancelReserved hn | cancelWaiting hn =>
    exact .inl (hMoved hn hm fun hNone => by cases hNone)
  | receiveAnswered | receiveMismatch => exact .inl (hSame (map_phase_sendReply _ _ _) hm)
  | drain => exact .inl (hSame (map_phase_sendAll _ _ _) hm)
  | insertFault | write | writeError | writerFail | writerClosed | receiveFault | receiveOther
  | readError | readerFail | readerClosed | timer | timerFail | fail => exact .inl ⟨call', hm, hHolds⟩

end Permits

/-- The connections a caller has in hand. -/
def PoolPhase.names : PoolPhase → List Nat
  | .retaining _ kept rest => kept ++ rest
  | .scanning _ rest | .probing rest _ => rest
  | .waiting waits => waits
  | .reserving k | .acquired k _ | .pushing k _ | .querying k _ => [k]
  | _ => []

section Guards

variable {s u : DotPool} {c k : Nat} {caller : Caller} {permit : Permit}

/-- A step of a caller is one of `stepCaller`. -/
theorem poolStep_caller {label : PoolLabel} (hc : s.callers[c]? = some caller)
    (hLabel : label.caller? = some c) : poolStep s label = s.stepCaller c caller label := by
  unfold poolStep
  cases label <;> simp only [PoolLabel.caller?] at hLabel <;> try contradiction
  all_goals
    cases hLabel
    simp only [PoolLabel.caller?, Option.bind_some, hc]

theorem finish_settled (hc : s.callers[c]? = some caller)
    (hPhase : caller.phase = .querying k permit) (hStep : poolStep s (.finish c) = some u) :
    s.settled k permit = true := by
  rw [poolStep_caller hc rfl] at hStep
  simp only [DotPool.stepCaller, hPhase] at hStep
  unfold DotPool.settled
  split at hStep
  · rename_i hReturned
    rw [hReturned]
  · rename_i hReturned
    rw [hReturned]
  · rename_i hDropped
    rw [hDropped]
  · cases hStep

theorem leave_settled {probes : List (Nat × Permit)} (hc : s.callers[c]? = some caller)
    (hPhase : caller.phase = .joining probes) (hStep : poolStep s (.leave c) = some u) :
    ∀ e ∈ probes, s.settled e.1 e.2 = true := by
  rw [poolStep_caller hc rfl] at hStep
  simp only [DotPool.stepCaller, hPhase] at hStep
  split at hStep
  · rename_i hAll
    exact List.all_eq_true.mp hAll
  · cases hStep

/-- The end of the first section: nothing was free. -/
theorem scan_first (hc : s.callers[c]? = some caller) (hPhase : caller.phase = .scanning false [])
    (hStep : poolStep s (.scan c) = some u) :
    (maxDotConnections ≤ s.connections.length ∧
      u = (s.goto c (.waiting s.connections)).unlock) ∨
    (s.connections.length < maxDotConnections ∧ u = (s.goto c .queueing).unlock) := by
  rw [poolStep_caller hc rfl] at hStep
  simp only [DotPool.stepCaller, hPhase] at hStep
  split at hStep
  · rename_i hFull
    exact .inl ⟨hFull, (Option.some.inj hStep).symm⟩
  · rename_i hRoom
    exact .inr ⟨Nat.lt_of_not_le hRoom, (Option.some.inj hStep).symm⟩

/-- The call of the permit holds it no more. -/
def Spent (s : DotPool) (e : Nat × Permit) : Prop :=
  ∀ (conn : DotConnection) (call : Call), s.conns[e.1]? = some conn →
    conn.calls[e.2.call]? = some call → call.phase.holdsPermit = false

/-- A call that is over holds no permit. -/
theorem settled_spent (h : s.settled k permit = true) : Spent s (k, permit) := by
  intro conn call hk hn
  unfold DotPool.settled DotPool.callPhase? DotConnection.phase? at h
  rw [hk, Option.bind_some, hn, Option.map_some] at h
  cases hPhase : call.phase with
  | returned | dropped => rfl
  | reserved | checked | locked | cleared | inserted | stopping | waiting =>
    rw [hPhase] at h
    cases h

end Guards

/-! ## Locks and permits have holders -/

/-- A lock that is taken is held by somebody inside its section, the connections in hand are
ones that were started, and a permit that is out is with a caller, those in `loose` apart. -/
structure Held (s : DotPool) (loose : List (Nat × Permit)) : Prop where
  lock : ∀ c, s.lockedBy = some c →
    ∃ caller, s.callers[c]? = some caller ∧ caller.phase.locks = true
  dialing : ∀ c, s.dialingBy = some c →
    ∃ caller, s.callers[c]? = some caller ∧ caller.phase.dials = true
  known : ∀ k ∈ s.connections, k < s.conns.length
  names : ∀ (c : Nat) (caller : Caller), s.callers[c]? = some caller →
    ∀ k ∈ caller.phase.names, k < s.conns.length
  permits : ∀ (k : Nat) (conn : DotConnection) (n : Nat) (call : Call),
    s.conns[k]? = some conn → conn.calls[n]? = some call → call.phase.holdsPermit = true →
    (k, ⟨k, n⟩) ∈ loose ∨ ∃ (c : Nat) (caller : Caller), s.callers[c]? = some caller ∧
      (k, ⟨k, n⟩) ∈ caller.phase.pairs

section HeldSteps

variable {s u s' : DotPool} {c k : Nat} {caller : Caller} {phase : PoolPhase}
  {loose : List (Nat × Permit)}

/-- One connection moves. What its calls hold they have held before, or it is loose. -/
theorem Held.set {conn conn' : DotConnection} {loose' : List (Nat × Permit)} (h : Held s loose)
    (hk : s.conns[k]? = some conn) (hLoose : loose ⊆ loose')
    (hNew : ∀ (n : Nat) (call : Call), conn'.calls[n]? = some call →
      call.phase.holdsPermit = true →
      (∃ old, conn.calls[n]? = some old ∧ old.phase.holdsPermit = true) ∨
        (k, ⟨k, n⟩) ∈ loose') : Held { s with conns := s.conns.set k conn' } loose' := by
  have hLen : (s.conns.set k conn').length = s.conns.length := List.length_set
  refine ⟨h.lock, h.dialing, ?_, ?_, fun k' found n call hFound hn hHolds => ?_⟩
  · intro k' hk'
    rw [hLen]
    exact h.known k' hk'
  · intro c caller hc k' hk'
    rw [hLen]
    exact h.names c caller hc k' hk'
  · rcases getElem?_set_cases hFound with ⟨rfl, rfl⟩ | ⟨-, hFound⟩
    · rcases hNew n call hn hHolds with ⟨old, hOld, hHeld⟩ | hMem
      · exact (h.permits k' conn n old hk hOld hHeld).imp_left (hLoose ·)
      · exact .inl hMem
    · exact (h.permits k' found n call hFound hn hHolds).imp_left (hLoose ·)

/-- A connection takes a step that is not a `reserve`. -/
theorem Held.inside {label : Label} (h : Held s loose) (hInside : s.inside k label = some u)
    (hLabel : label.isReserve = false) : Held u loose := by
  obtain ⟨conn, conn', hk, hStep, rfl⟩ := inside_eq_some.mp hInside
  refine h.set hk (List.Subset.refl _) fun n call hn hHolds => ?_
  rcases holds_step hStep hn hHolds with hOld | ⟨-, hReserve⟩
  · exact .inl hOld
  · rw [hLabel] at hReserve
    cases hReserve

/-- A permit that was just taken is with nobody yet. -/
theorem Held.tryReserve {query : Bytes} {permit : Permit} (h : Held s [])
    (hReserve : s.tryReserve k query = some (permit, s')) :
    Held s' [(k, permit)] ∧ s'.callers = s.callers := by
  obtain ⟨conn, hk, hInside, rfl⟩ := tryReserve_eq_some.mp hReserve
  obtain ⟨conn₀, conn', hk₀, hStep, rfl⟩ := inside_eq_some.mp hInside
  cases hk.symm.trans hk₀
  refine ⟨h.set hk (List.nil_subset _) fun n call hn hHolds => ?_, rfl⟩
  rcases holds_step hStep hn hHolds with hOld | ⟨rfl, -⟩
  · exact .inl hOld
  · exact .inr (List.mem_singleton_self _)

/-- What becomes of a lock when caller `c` goes from `before` to `after`: it stays, is taken or
is given up. -/
def Passes (old new : Option Nat) (c : Nat) (before after : Bool) : Prop :=
  new = old ∧ (before = true → after = true) ∨ new = some c ∧ after = true ∨ new = none

theorem Passes.holder {old new : Option Nat} {before after : Bool} {f : Caller → Caller}
    {holds : PoolPhase → Bool} (h : Passes old new c before after)
    (hc : s.callers[c]? = some caller) (hBefore : holds caller.phase = before)
    (hAfter : holds (f caller).phase = after)
    (hOld : ∀ c', old = some c' →
      ∃ caller, s.callers[c']? = some caller ∧ holds caller.phase = true) :
    ∀ c', new = some c' →
      ∃ caller, (s.callers.modify c f)[c']? = some caller ∧ holds caller.phase = true := by
  intro c' hc'
  rcases h with ⟨rfl, hStays⟩ | ⟨rfl, hTakes⟩ | rfl
  · obtain ⟨found, hFound, hHolds⟩ := hOld c' hc'
    by_cases hEq : c' = c
    · -- the holder itself moves, and keeps the lock
      subst hEq
      rw [hc] at hFound
      cases hFound
      exact ⟨f caller, getElem?_modify_self hc,
        hAfter.trans (hStays (hBefore.symm.trans hHolds))⟩
    · exact ⟨found, (List.getElem?_modify_ne _ _ (Ne.symm hEq)).trans hFound, hHolds⟩
  · cases hc'
    exact ⟨f caller, getElem?_modify_self hc, hAfter.trans hTakes⟩
  · cases hc'

/-- One caller moves on, from the phase `phase`. -/
theorem Held.advance (h : Held s loose) (hc : s.callers[c]? = some caller)
    (hPhase : caller.phase = phase) {f : Caller → Caller}
    (hCallers : u.callers = s.callers.modify c f) (hConns : u.conns = s.conns)
    (hLock : Passes s.lockedBy u.lockedBy c phase.locks (f caller).phase.locks)
    (hDial : Passes s.dialingBy u.dialingBy c phase.dials (f caller).phase.dials)
    (hVec : ∀ k ∈ u.connections, k < s.conns.length)
    (hNames : ∀ k ∈ (f caller).phase.names, k < s.conns.length)
    (hPairs : ∀ e ∈ phase.pairs ++ loose, e ∈ (f caller).phase.pairs ∨ Spent s e) :
    Held u [] where
  lock := by
    rw [hCallers]
    exact hLock.holder hc (congrArg _ hPhase) rfl h.lock
  dialing := by
    rw [hCallers]
    exact hDial.holder hc (congrArg _ hPhase) rfl h.dialing
  known k hk := by
    rw [hConns]
    exact hVec k hk
  names c' caller' hc' k hk := by
    rw [hConns]
    rw [hCallers] at hc'
    rcases getElem?_modify_cases hc hc' with ⟨rfl, rfl⟩ | ⟨-, hc'⟩
    · exact hNames k hk
    · exact h.names c' caller' hc' k hk
  permits k conn n call hk hn hHolds := by
    rw [hConns] at hk
    rw [hCallers]
    -- what the caller gives up is a permit that has been spent
    have hOwn : (k, (⟨k, n⟩ : Permit)) ∈ phase.pairs ++ loose →
        (k, (⟨k, n⟩ : Permit)) ∈ (f caller).phase.pairs := by
      intro hMem
      refine (hPairs _ hMem).resolve_right fun hSpent => ?_
      have := hSpent conn call hk hn
      rw [hHolds] at this
      cases this
    have hNow : (k, (⟨k, n⟩ : Permit)) ∈ phase.pairs ++ loose →
        ∃ (c' : Nat) (found : Caller), (s.callers.modify c f)[c']? = some found ∧
          (k, (⟨k, n⟩ : Permit)) ∈ found.phase.pairs :=
      fun hMem => ⟨c, f caller, getElem?_modify_self hc, hOwn hMem⟩
    refine .inr ?_
    rcases h.permits k conn n call hk hn hHolds with hLoose | ⟨c', caller', hc', hMem⟩
    · exact hNow (List.mem_append_right _ hLoose)
    · by_cases hEq : c' = c
      · subst hEq
        rw [hc] at hc'
        cases hc'
        exact hNow (List.mem_append_left _ (hPhase ▸ hMem))
      · exact ⟨c', caller', (List.getElem?_modify_ne _ _ (Ne.symm hEq)).trans hc', hMem⟩

theorem passes_same (old : Option Nat) {before after : Bool} (h : before = true → after = true) :
    Passes old old c before after := .inl ⟨rfl, h⟩

/-- The caller does not have this lock. -/
theorem passes_unheld (old : Option Nat) {before after : Bool} (h : before = false) :
    Passes old old c before after :=
  passes_same old fun hHeld => by rw [h] at hHeld; cases hHeld

theorem passes_free (old : Option Nat) {before after : Bool} : Passes old none c before after :=
  .inr (.inr rfl)

theorem passes_taken (old : Option Nat) {before after : Bool} (h : after = true) :
    Passes old (some c) c before after := .inr (.inl ⟨rfl, h⟩)

/-- `_dialing` is dropped by a caller that has it or has not. -/
theorem passes_hangUp (s : DotPool) {dialing before after : Bool} (h : before = dialing) :
    Passes s.dialingBy (s.hangUp dialing).dialingBy c before after := by
  subst h
  cases before with
  | true => exact passes_free _
  | false => exact passes_same _ fun h => by cases h

section Carrying

variable (h : Held s []) (hc : s.callers[c]? = some caller) (hPhase : caller.phase = phase)
  {f : Caller → Caller} (hCallers : u.callers = s.callers.modify c f) (hConns : u.conns = s.conns)
  (hLock : Passes s.lockedBy u.lockedBy c phase.locks (f caller).phase.locks)
  (hDial : Passes s.dialingBy u.dialingBy c phase.dials (f caller).phase.dials)
  (hVec : ∀ k ∈ u.connections, k < s.conns.length)
  (hNames : ∀ k ∈ (f caller).phase.names, k < s.conns.length)

include h hc hPhase hCallers hConns hLock hDial hVec hNames

/-- A caller moves on with the permits it has. -/
theorem Held.carry (hPairs : phase.pairs ⊆ (f caller).phase.pairs) : Held u [] := by
  refine h.advance hc hPhase hCallers hConns hLock hDial hVec hNames fun e he => .inl (hPairs ?_)
  rwa [List.append_nil] at he

/-- A caller moves on from permits that are spent. -/
theorem Held.spend (hSpent : ∀ e ∈ phase.pairs, Spent s e) : Held u [] := by
  refine h.advance hc hPhase hCallers hConns hLock hDial hVec hNames fun e he => .inr (hSpent e ?_)
  rwa [List.append_nil] at he

end Carrying

theorem Held.append (h : Held s []) {new : Caller} (hNames : new.phase.names = []) :
    Held { s with callers := s.callers ++ [new] } [] := by
  have hOld : ∀ {c : Nat} {caller : Caller}, s.callers[c]? = some caller →
      (s.callers ++ [new])[c]? = some caller := fun hc =>
    (List.getElem?_append_left (List.getElem?_eq_some_iff.mp hc).1).trans hc
  refine ⟨fun c hc => ?_, fun c hc => ?_, h.known, fun c caller hc k hk => ?_,
    fun k conn n call hk hn hHolds => .inr ?_⟩
  · obtain ⟨caller, hFound, hLocks⟩ := h.lock c hc
    exact ⟨caller, hOld hFound, hLocks⟩
  · obtain ⟨caller, hFound, hDials⟩ := h.dialing c hc
    exact ⟨caller, hOld hFound, hDials⟩
  · rcases getElem?_append_one hc with hc | ⟨-, rfl⟩
    · exact h.names c caller hc k hk
    · rw [hNames] at hk
      cases hk
  · obtain ⟨c, caller, hc, hMem⟩ :=
      (h.permits k conn n call hk hn hHolds).resolve_left List.not_mem_nil
    exact ⟨c, caller, hOld hc, hMem⟩

/-- A dial has succeeded: the new connection has all its permits. -/
theorem Held.start (h : Held s []) : Held { s with conns := s.conns ++ [.start] } [] := by
  have hLen : (s.conns ++ [DotConnection.start]).length = s.conns.length + 1 := List.length_append
  refine ⟨h.lock, h.dialing, fun k hk => ?_, fun c caller hc k hk => ?_,
    fun k conn n call hk hn hHolds => ?_⟩
  · rw [hLen]
    exact (h.known k hk).trans (Nat.lt_succ_self _)
  · rw [hLen]
    exact (h.names c caller hc k hk).trans (Nat.lt_succ_self _)
  · rcases getElem?_append_one hk with hk | ⟨-, rfl⟩
    · exact h.permits k conn n call hk hn hHolds
    · cases hn

/-- The permit that is dropped is spent. -/
theorem dropPermit_spent {permit : Permit} (hSem : permit.semaphore = k)
    (hDrop : s.dropPermit permit = some s') : Spent s' (k, permit) := by
  intro conn call hk hn
  obtain ⟨conn₀, conn', hk₀, hStep, rfl⟩ := inside_eq_some.mp hDrop
  subst hSem
  rw [List.getElem?_set_self (List.getElem?_eq_some_iff.mp hk₀).1] at hk
  cases hk
  have hDropped := dropped_cancel hStep
  rw [DotConnection.phase?, hn, Option.map_some] at hDropped
  rw [Option.some.inj hDropped]
  rfl

/-- A step of a connection is not one in which a permit is taken. -/
theorem inside_not_reserve {label : Label} (h : poolStep s (.inside k label) = some u) :
    label.isReserve = false := by
  cases label with
  | reserve query => cases h
  | check | lock | recheck | insert | send | stop | deliver | cancel | write | writeError
  | writerFail | writerClosed | receive | readError | readerFail | readerClosed | drain | timer
  | timerFail | fail => rfl

theorem tryReserve_known {query : Bytes} {permit : Permit}
    (hReserve : s.tryReserve k query = some (permit, s')) : k < s'.conns.length := by
  obtain ⟨conn, hk, hInside, -⟩ := tryReserve_eq_some.mp hReserve
  obtain ⟨conn₀, conn', -, -, rfl⟩ := inside_eq_some.mp hInside
  show k < (s.conns.set k conn').length
  rw [List.length_set]
  exact (List.getElem?_eq_some_iff.mp hk).1

section Taking

variable {query : Bytes} {permit : Permit} {f : Caller → Caller} (h : Held s [])
  (hc : s.callers[c]? = some caller) (hPhase : caller.phase = phase)
  (hCallers : u.callers = s'.callers.modify c f) (hConns : u.conns = s'.conns)
  (hVec : u.connections = s'.connections)
  (hLock : Passes s'.lockedBy u.lockedBy c phase.locks (f caller).phase.locks)
  (hDial : Passes s'.dialingBy u.dialingBy c phase.dials (f caller).phase.dials)

include h hc hPhase hCallers hConns hVec hLock hDial

/-- A caller takes a permit of `k`. -/
theorem Held.take (hReserve : s.tryReserve k query = some (permit, s'))
    (hNames : (f caller).phase.names ⊆ k :: phase.names)
    (hPairs : phase.pairs ++ [(k, permit)] ⊆ (f caller).phase.pairs) : Held u [] := by
  obtain ⟨h', hSame⟩ := h.tryReserve hReserve
  rw [← hSame] at hc
  refine h'.advance hc hPhase hCallers hConns hLock hDial (hVec ▸ h'.known) (fun k' hk' => ?_)
    fun e he => .inl (hPairs he)
  rcases List.mem_cons.mp (hNames hk') with rfl | hOld
  · exact tryReserve_known hReserve
  · exact h'.names c caller hc k' (hPhase ▸ hOld)

/-- A caller drops the one permit it has. -/
theorem Held.giveUp (hPermits : Permits s) (hPairs : phase.pairs = [(k, permit)])
    (hDrop : s.dropPermit permit = some s') (hNames : (f caller).phase.names = []) : Held u [] := by
  obtain ⟨hSem, -⟩ := hPermits.held c caller hc (k, permit)
    (by rw [hPhase, hPairs]; exact List.mem_singleton_self _)
  have h' := h.inside hDrop rfl
  have hSpent := dropPermit_spent hSem hDrop
  obtain ⟨conn, conn', -, -, rfl⟩ := inside_eq_some.mp hDrop
  refine h'.spend hc hPhase hCallers hConns hLock hDial (hVec ▸ h'.known) (fun k' hk' => ?_)
    fun e he => ?_
  · rw [hNames] at hk'
    cases hk'
  · rw [hPairs] at he
    rwa [List.mem_singleton.mp he]

end Taking

/-- The kept connections are among those in hand. -/
theorem Held.kept {sec : Section} {kept : List Nat} (h : Held s [])
    (hc : s.callers[c]? = some caller) (hPhase : caller.phase = .retaining sec kept []) :
    ∀ k ∈ kept, k < s.conns.length := by
  intro k hk
  refine h.names c caller hc k ?_
  rw [hPhase]
  exact List.mem_append_left _ hk

/-- **One step.** -/
theorem held_step {label : PoolLabel} (hPermits : Permits s) (h : Held s [])
    (hStep : poolStep s label = some u) : Held u [] := by
  cases poolStep_moves hStep with
  | query | keepalive => exact h.append rfl
  | inside hInside hRuns => exact h.inside hInside (inside_not_reserve hStep)
  | @lock c caller sec hc hPhase hLock =>
    refine h.carry hc hPhase rfl rfl (passes_taken _ rfl) (passes_same _ fun hDials => ?_) h.known
      h.known (List.nil_subset _)
    cases sec with
    | lookup dialing => exact hDials
    | keepalive => cases hDials
  | @retainNext c caller sec kept k rest kept' hc hPhase hKept =>
    refine h.carry hc hPhase rfl rfl (passes_same _ fun _ => rfl) (passes_same _ fun hDials => ?_)
      h.known (fun k' hk' => h.names c caller hc k' ?_) (List.nil_subset _)
    · cases sec with
      | lookup dialing => exact hDials
      | keepalive => cases hDials
    · -- nothing new is looked at
      rw [hPhase]
      show k' ∈ kept ++ k :: rest
      rcases hKept with rfl | rfl
      · rcases List.mem_append.mp hk' with hMem | hMem
        · exact List.mem_append_left _ hMem
        · exact List.mem_append_right _ (List.mem_cons_of_mem _ hMem)
      · rwa [PoolPhase.names, List.append_assoc, List.singleton_append] at hk'
  | retained hc hPhase =>
    exact h.carry hc hPhase rfl rfl (passes_same _ fun _ => rfl) (passes_same _ id)
      (h.kept hc hPhase) (h.kept hc hPhase) (List.nil_subset _)
  | cloned hc hPhase hNext =>
    refine h.carry hc hPhase rfl rfl (passes_free _) (passes_unheld _ rfl) (h.kept hc hPhase) ?_
      (List.nil_subset _)
    rcases hNext with rfl | rfl
    · exact List.forall_mem_nil _
    · exact h.kept hc hPhase
  | scanFound hc hPhase hReserve =>
    exact h.take hc hPhase rfl rfl rfl (passes_free _) (passes_hangUp _ rfl) hReserve
      (List.cons_subset_cons _ (List.nil_subset _)) (List.Subset.refl _)
  | @scanNext c caller dialing k rest hc hPhase =>
    refine h.carry hc hPhase rfl rfl (passes_same _ fun _ => rfl) (passes_same _ id) h.known
      (fun k' hk' => h.names c caller hc k' ?_) (List.nil_subset _)
    rw [hPhase]
    exact List.mem_cons_of_mem _ hk'
  | scanWait hc hPhase =>
    exact h.carry hc hPhase rfl rfl (passes_free _) (passes_unheld _ rfl) h.known h.known
      (List.nil_subset _)
  | scanQueue hc hPhase =>
    exact h.carry hc hPhase rfl rfl (passes_free _) (passes_unheld _ rfl) h.known
      (List.forall_mem_nil _) (List.nil_subset _)
  | scanConnect hc hPhase hRoom =>
    exact h.carry hc hPhase rfl rfl (passes_free _) (passes_same _ fun _ => rfl) h.known
      (List.forall_mem_nil _) (List.nil_subset _)
  | scanAgain hc hPhase =>
    exact h.carry hc hPhase rfl rfl (passes_free _) (passes_free _) h.known
      (List.forall_mem_nil _) (List.nil_subset _)
  | acquire hc hPhase hReserve =>
    exact h.take hc hPhase rfl rfl rfl (passes_unheld _ rfl) (passes_unheld _ rfl) hReserve
      (List.cons_subset_cons _ (List.nil_subset _)) (List.Subset.refl _)
  | @alive c caller k permit hc hPhase =>
    refine h.carry hc hPhase rfl rfl (passes_unheld _ rfl) (passes_unheld _ rfl) h.known
      (fun k' hk' => h.names c caller hc k' ?_) (List.Subset.refl _)
    rw [hPhase]
    exact hk'
  | dead hc hPhase hDrop =>
    exact h.giveUp hc hPhase rfl rfl rfl (passes_unheld _ rfl) (passes_unheld _ rfl) hPermits rfl
      hDrop rfl
  | dial hc hPhase hFree =>
    exact h.carry hc hPhase rfl rfl (passes_unheld _ rfl) (passes_taken _ rfl) h.known
      (List.forall_mem_nil _) (List.nil_subset _)
  | connected hc hPhase =>
    refine h.start.carry hc hPhase rfl rfl (passes_unheld _ rfl) (passes_same _ fun _ => rfl)
      h.start.known (fun k hk => ?_) (List.nil_subset _)
    rw [List.mem_singleton.mp hk, List.length_append]
    exact Nat.lt_succ_self _
  | connectFailed hc hPhase | reserveFailed hc hPhase | cancelConnecting hc hPhase =>
    exact h.carry hc hPhase rfl rfl (passes_unheld _ rfl) (passes_free _) h.known
      (List.forall_mem_nil _) (List.nil_subset _)
  | reserve hc hPhase hReserve =>
    exact h.take hc hPhase rfl rfl rfl (passes_unheld _ rfl) (passes_same _ fun _ => rfl) hReserve
      (List.cons_subset_cons _ (List.nil_subset _)) (List.Subset.refl _)
  | @push c caller k permit hc hPhase hLock =>
    have hKnown : ∀ k' ∈ [k], k' < s.conns.length := by
      intro k' hk'
      refine h.names c caller hc k' ?_
      rw [hPhase]
      exact hk'
    exact h.carry hc hPhase rfl rfl (passes_unheld _ rfl) (passes_free _)
      (List.forall_mem_append.mpr ⟨h.known, hKnown⟩) hKnown (List.Subset.refl _)
  | @finished c caller k permit phase retried hc hPhase hNext =>
    -- the call of the permit is over
    have hSettled := finish_settled hc hPhase hStep
    refine h.spend hc hPhase rfl rfl (passes_unheld _ rfl) (passes_unheld _ rfl) h.known ?_
      fun e he => ?_
    · rcases hNext with rfl | rfl | ⟨_, rfl⟩ | ⟨_, rfl⟩ <;> exact List.forall_mem_nil _
    · rw [List.mem_singleton.mp he]
      exact settled_spent hSettled
  | @probeTaken c caller k rest probes idle permit s' hc hPhase hReserve =>
    exact h.take hc hPhase rfl rfl rfl (passes_unheld _ rfl) (passes_unheld _ rfl) hReserve
      (fun k' hk' => List.mem_cons_of_mem _ (List.mem_cons_of_mem _ hk')) (List.Subset.refl _)
  | @probeSkipped c caller k rest probes idle hc hPhase =>
    refine h.carry hc hPhase rfl rfl (passes_unheld _ rfl) (passes_unheld _ rfl) h.known
      (fun k' hk' => h.names c caller hc k' ?_) (List.Subset.refl _)
    rw [hPhase]
    exact List.mem_cons_of_mem _ hk'
  | probesMade hc hPhase =>
    exact h.carry hc hPhase rfl rfl (passes_unheld _ rfl) (passes_unheld _ rfl) h.known
      (List.forall_mem_nil _) (List.Subset.refl _)
  | leave hc hPhase =>
    have hSettled := leave_settled hc hPhase hStep
    exact h.spend hc hPhase rfl rfl (passes_unheld _ rfl) (passes_unheld _ rfl) h.known
      (List.forall_mem_nil _) fun e he => settled_spent (hSettled e he)
  | cancelLocking hc hPhase =>
    exact h.carry hc hPhase rfl rfl (passes_unheld _ rfl) (passes_hangUp _ rfl) h.known
      (List.forall_mem_nil _) (List.nil_subset _)
  | cancelIdle hc hPhase =>
    rcases hPhase with hPhase | ⟨waits, hPhase⟩ | hPhase <;>
    exact h.carry hc hPhase rfl rfl (passes_unheld _ rfl) (passes_unheld _ rfl) h.known
      (List.forall_mem_nil _) (List.nil_subset _)
  | cancelPushing hc hPhase hDrop =>
    exact h.giveUp hc hPhase rfl rfl rfl (passes_unheld _ rfl) (passes_free _) hPermits rfl hDrop
      rfl

end HeldSteps

theorem held_new : Held .new [] where
  lock c h := by cases h
  dialing c h := by cases h
  known k h := by cases h
  names c caller h := by cases h
  permits k conn n call h := by cases h

theorem held_run {labels : List PoolLabel} {s : DotPool}
    (hRun : run poolStep .new labels = some s) : Permits s ∧ Held s [] := by
  refine run_invariant (I := fun s => Permits s ∧ Held s [])
    (fun _ _ _ h hStep => ⟨permits_step h.1 hStep, held_step h.1 h.2 hStep⟩) ⟨?_, held_new⟩ hRun
  exact (pool_run (rfl : run poolStep .new [] = some .new)).2

/-! ## No permit is lost -/

/-- **Permits.** Of the 256 permits of a connection, at every moment, each is in its semaphore,
with a pending query or with a call that has not registered; each such call is in the hands of
one caller and no other. So a connection that no caller has in hand lacks the permits of its
pending queries and no more, however many callers were dropped and dials failed. -/
theorem pool_permits_accounted {labels : List PoolLabel} {s : DotPool}
    (hRun : run poolStep .new labels = some s) {k : Nat} {conn : DotConnection}
    (hk : s.conns[k]? = some conn) :
    conn.available + conn.calls.countP (·.phase.holdsPermit) + conn.pending.length =
      maxDotInFlight ∧
    (∀ (n : Nat) (call : Call), conn.calls[n]? = some call → call.phase.holdsPermit = true →
      ∃ (c : Nat) (caller : Caller), s.callers[c]? = some caller ∧
        (k, ⟨k, n⟩) ∈ caller.phase.pairs ∧
        ∀ (c' : Nat) (caller' : Caller), s.callers[c']? = some caller' →
          (k, ⟨k, n⟩) ∈ caller'.phase.pairs → c' = c) ∧
    ((∀ (c : Nat) (caller : Caller), s.callers[c]? = some caller →
        ∀ e ∈ caller.phase.pairs, e.1 ≠ k) →
      conn.available + conn.pending.length = maxDotInFlight) := by
  obtain ⟨hPermits, hHeld⟩ := held_run hRun
  obtain ⟨labels', hConn⟩ := hPermits.started k conn hk
  have hBook := (book_run hConn).permits
  have hOwner : ∀ (n : Nat) (call : Call), conn.calls[n]? = some call →
      call.phase.holdsPermit = true → ∃ (c : Nat) (caller : Caller),
        s.callers[c]? = some caller ∧ (k, ⟨k, n⟩) ∈ caller.phase.pairs := fun n call hn hHolds =>
    (hHeld.permits k conn n call hk hn hHolds).resolve_left List.not_mem_nil
  refine ⟨hBook, fun n call hn hHolds => ?_, fun hNobody => ?_⟩
  · obtain ⟨c, caller, hc, hMem⟩ := hOwner n call hn hHolds
    refine ⟨c, caller, hc, hMem, fun c' caller' hc' hMem' => ?_⟩
    by_contra hne
    exact hPermits.apart c' c caller' caller hc' hc hne _ hMem' hMem
  · -- a call with a permit would be in somebody's hands
    have hNone : conn.calls.countP (·.phase.holdsPermit) = 0 := by
      refine List.countP_eq_zero.mpr fun call hCall hHolds => ?_
      obtain ⟨n, hn⟩ := List.getElem?_of_mem hCall
      obtain ⟨c, caller, hc, hMem⟩ := hOwner n call hn hHolds
      exact hNobody c caller hc _ hMem rfl
    omega

/-- The second caller is dropped while it queues; the first has pushed its connection and holds
the one permit that is out. -/
theorem permits_accounted_twoDials :
    ∃ s conn, run poolStep .new (twoDials ++ [.push 0, .cancel 1]) = some s ∧
      s.conns[0]? = some conn ∧ conn.available = 255 ∧
      conn.available + conn.calls.countP (·.phase.holdsPermit) + conn.pending.length =
        maxDotInFlight := by
  have hView : (run poolStep .new (twoDials ++ [.push 0, .cancel 1])).bind (fun s =>
      (s.conns[0]?).map DotConnection.available) = some 255 := by decide +kernel
  obtain ⟨s, hRun, hView⟩ := Option.bind_eq_some_iff.mp hView
  obtain ⟨conn, hk, hAvail⟩ := Option.map_eq_some_iff.mp hView
  exact ⟨s, conn, hRun, hk, hAvail, (pool_permits_accounted hRun hk).1⟩

end DnsRs.Dot
