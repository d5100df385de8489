import DnsRs.Dot.Multiplex

/-!
# No waiter is left behind

`fail` sets the dead flag without the pending lock and only its first caller
drains; `query` checks the flag a second time under the lock before it
registers. A call that has passed this check still holds the lock, so the
drain comes after its registration and answers it; one that has not finds the
flag set.

`dot_shutdown`: once the drain is done nothing is pending, every call that ever
registered has been sent exactly one reply, and this stays so in every
continuation, in which no call registers and none returns a response. The
reader task has ended only on a dead connection.
-/

namespace DnsRs.Dot

open Lib Wire DotConnection

/-- What the dead flag, the lock and the drain have to do with each other. -/
structure Shut (c : DotConnection) : Prop where
  lock : ∀ (n : Nat) (call : Call), c.calls[n]? = some call →
    call.phase = .locked ∨ call.phase = .cleared → c.lockedBy = some n
  alive : c.dead = false → c.drain = .idle ∧ c.closed = false ∧ c.reader ≠ .ended
  failed : c.dead = true → c.drain ≠ .idle
  /-- A call that has registered is pending, or has its reply. -/
  replied : ∀ (n : Nat) (call : Call), c.calls[n]? = some call → call.assigned ≠ none →
    call.sent.length = 1 ∨ n ∈ c.pending.map (·.2.call)
  done : c.drain = .done → c.pending = [] ∧
    ∀ (n : Nat) (call : Call), c.calls[n]? = some call → call.phase ≠ .cleared

theorem shut_start : Shut .start where
  lock n call hn := by simp [start] at hn
  alive _ := ⟨rfl, rfl, nofun⟩
  failed h := by cases h
  replied n call hn := by simp [start] at hn
  done h := by cases h

section ShutSteps

variable {c c' : DotConnection} {n : Nat} {call : Call}

/-- A drain is owed only after `fail`. -/
theorem Shut.dead (h : Shut c) (hDrain : c.drain ≠ .idle) : c.dead = true := by
  by_contra hAlive
  exact hDrain (h.alive (by simpa using hAlive)).1

/-- Steps that leave calls, entries, the lock and the drain alone. -/
theorem Shut.congr (h : Shut c) (hPending : c'.pending = c.pending) (hCalls : c'.calls = c.calls)
    (hLock : c'.lockedBy = c.lockedBy) (hDead : c'.dead = c.dead) (hDrain : c'.drain = c.drain)
    (hClosed : c'.closed = c.closed) (hReader : c'.reader = .ended → c.reader = .ended) :
    Shut c' where
  lock := by rw [hCalls, hLock]; exact h.lock
  alive hAlive := by
    rw [hDead] at hAlive
    obtain ⟨hIdle, hOpen, hRunning⟩ := h.alive hAlive
    exact ⟨hDrain.trans hIdle, hClosed.trans hOpen, fun hEnd => hRunning (hReader hEnd)⟩
  failed := by rw [hDead, hDrain]; exact h.failed
  replied := by rw [hCalls, hPending]; exact h.replied
  done := by rw [hDrain, hPending, hCalls]; exact h.done

/-- `fail` up to its drain: whoever is first owes the drain. -/
theorem Shut.swapDead (h : Shut c) (error : DotFailure) : Shut (c.swapDead error) where
  lock := h.lock
  alive hAlive := by cases hAlive
  failed _ := by
    simp only [DotConnection.swapDead]
    split
    · exact h.failed ‹_›
    · exact nofun
  replied := h.replied
  done hDone := by
    simp only [DotConnection.swapDead] at hDone
    split at hDone
    · exact h.done hDone
    · cases hDone

/-- After `fail` it does not matter whether the reader has ended. -/
theorem Shut.of_dead (h : Shut c) (hDead : c.dead = true) (hPending : c'.pending = c.pending)
    (hCalls : c'.calls = c.calls) (hLock : c'.lockedBy = c.lockedBy)
    (hDead' : c'.dead = c.dead) (hDrain : c'.drain = c.drain) : Shut c' where
  lock := by rw [hCalls, hLock]; exact h.lock
  alive hAlive := by rw [hDead', hDead] at hAlive; cases hAlive
  failed := by rw [hDead', hDrain]; exact h.failed
  replied := by rw [hCalls, hPending]; exact h.replied
  done := by rw [hDrain, hPending, hCalls]; exact h.done

/-- A call moves to another phase, taking or leaving the lock as it does. -/
theorem Shut.goto (h : Shut c) (hn : c.calls[n]? = some call) (phase : Phase)
    (hHold : phase = .locked ∨ phase = .cleared → c'.lockedBy = some n)
    (hOther : ∀ m, m ≠ n → c.lockedBy = some m → c'.lockedBy = some m)
    (hClear : phase = .cleared → c.dead = false)
    (hPending : c'.pending = c.pending)
    (hCalls : c'.calls = c.calls.modify n fun call => { call with phase := phase })
    (hDead : c'.dead = c.dead) (hDrain : c'.drain = c.drain) (hClosed : c'.closed = c.closed)
    (hReader : c'.reader = c.reader) : Shut c' where
  lock m call' hm hPhase := by
    rw [hCalls] at hm
    rcases getElem?_modify_cases hn hm with ⟨rfl, rfl⟩ | ⟨hNe, hm⟩
    · exact hHold hPhase
    · exact hOther m hNe (h.lock m call' hm hPhase)
  alive := by rw [hDead, hDrain, hClosed, hReader]; exact h.alive
  failed := by rw [hDead, hDrain]; exact h.failed
  replied m call' hm hAssigned := by
    rw [hCalls] at hm
    rw [hPending]
    rcases getElem?_modify_cases hn hm with ⟨rfl, rfl⟩ | ⟨-, hm⟩
    · exact h.replied m call hn hAssigned
    · exact h.replied m call' hm hAssigned
  done hDone := by
    rw [hDrain] at hDone
    obtain ⟨hNone, hCleared⟩ := h.done hDone
    refine ⟨hPending.trans hNone, fun m call' hm hPhase => ?_⟩
    rw [hCalls] at hm
    rcases getElem?_modify_cases hn hm with ⟨rfl, rfl⟩ | ⟨-, hm⟩
    · -- on a connection that is not dead no drain is done
      have hIdle := (h.alive (hClear hPhase)).1
      rw [hDone] at hIdle
      cases hIdle
    · exact hCleared m call' hm hPhase

theorem Shut.reserve (h : Shut c) (query : Bytes) :
    Shut { c with
      available := c.available - 1
      calls := c.calls ++ [⟨query, .reserved, none, []⟩] } := by
  constructor
  case lock =>
    intro m call' hm hPhase
    rcases getElem?_append_one hm with hm | ⟨-, rfl⟩
    · exact h.lock m call' hm hPhase
    · simp at hPhase
  case alive => exact h.alive
  case failed => exact h.failed
  case replied =>
    intro m call' hm hAssigned
    rcases getElem?_append_one hm with hm | ⟨-, rfl⟩
    · exact h.replied m call' hm hAssigned
    · exact absurd rfl hAssigned
  case done =>
    intro hDone
    obtain ⟨hNone, hCleared⟩ := h.done hDone
    refine ⟨hNone, fun m call' hm => ?_⟩
    rcases getElem?_append_one hm with hm | ⟨-, rfl⟩
    · exact hCleared m call' hm
    · exact nofun

/-- Registering: the call held the lock since before the flag was set, so the
drain is still to come. -/
theorem Shut.insert (h : Shut c) (hn : c.calls[n]? = some call) (hPhase : call.phase = .cleared)
    {a : Assigned} (hFree : a.id ∉ c.pending.map Prod.fst) :
    Shut { c.unlock with
      pending := c.pending.insert a.id ⟨n, a.expectedQuestion⟩
      calls := c.calls.modify n fun call =>
        { call with phase := .inserted, assigned := some a } } := by
  have hLocked := h.lock n call hn (.inr hPhase)
  have hInsert := insert_of_not_mem hFree ⟨n, a.expectedQuestion⟩
  constructor
  case lock =>
    intro m call' hm hPhase'
    rcases getElem?_modify_cases hn hm with ⟨rfl, rfl⟩ | ⟨hNe, hm⟩
    · simp at hPhase'
    · -- nobody else can be under the lock
      have := h.lock m call' hm hPhase'
      rw [hLocked] at this
      exact absurd (Option.some.inj this).symm hNe
  case alive => exact h.alive
  case failed => exact h.failed
  case replied =>
    intro m call' hm hAssigned
    rw [hInsert, List.map_cons]
    rcases getElem?_modify_cases hn hm with ⟨rfl, rfl⟩ | ⟨-, hm⟩
    · exact .inr List.mem_cons_self
    · exact (h.replied m call' hm hAssigned).imp_right (List.mem_cons_of_mem _)
  case done =>
    intro hDone
    -- after the drain no call is past its check
    exact absurd hPhase ((h.done hDone).2 n call hn)

/-- The reader takes an entry out and sends its call the reply. -/
theorem Shut.take (h : Shut c) (hBook : Book c) {id : Nat} {p : PendingQuery}
    (hMem : (id, p) ∈ c.pending) {reply : DotReply}
    (hPending : c'.pending = c.pending.remove id)
    (hCalls : c'.calls = sendReply c.calls p.call reply) (hLock : c'.lockedBy = c.lockedBy)
    (hDead : c'.dead = c.dead) (hDrain : c'.drain = c.drain) (hClosed : c'.closed = c.closed)
    (hReader : c'.reader = .ended → c.reader = .ended) : Shut c' := by
  obtain ⟨call, a, hn, -, -, -, hSent⟩ := hBook.backed _ hMem
  constructor
  case lock =>
    intro m call' hm hPhase
    rw [hCalls] at hm
    rw [hLock]
    rcases getElem?_modify_cases hn hm with ⟨rfl, rfl⟩ | ⟨-, hm⟩
    · exact h.lock _ call hn hPhase
    · exact h.lock m call' hm hPhase
  case alive =>
    intro hAlive
    rw [hDead] at hAlive
    obtain ⟨hIdle, hOpen, hRunning⟩ := h.alive hAlive
    exact ⟨hDrain.trans hIdle, hClosed.trans hOpen, fun hEnd => hRunning (hReader hEnd)⟩
  case failed =>
    rw [hDead, hDrain]
    exact h.failed
  case replied =>
    intro m call' hm hAssigned
    rw [hCalls] at hm
    rcases getElem?_modify_cases hn hm with ⟨rfl, rfl⟩ | ⟨hNe, hm⟩
    · left
      rw [hSent]
      rfl
    · refine (h.replied m call' hm hAssigned).imp_right fun hm => ?_
      -- the entry of another call is another entry, and stays
      obtain ⟨e, he, rfl⟩ := List.mem_map.mp hm
      rw [hPending]
      refine List.mem_map_of_mem (mem_remove.mpr ⟨he, fun hEq => hNe ?_⟩)
      rw [List.inj_on_of_nodup_map hBook.ids he hMem hEq]
  case done =>
    intro hDone
    rw [hDrain] at hDone
    rw [(h.done hDone).1] at hMem
    cases hMem

/-- The drain needs the lock, so nobody is between the check and the
registration when it runs. -/
theorem Shut.drain (h : Shut c) (hBook : Book c) {error : DotFailure} (hOwed : c.drain = .owed error)
    (hLock : c.lockedBy = none) (hPending : c'.pending = [])
    (hCalls : c'.calls = sendAll error c.pending c.calls) (hLock' : c'.lockedBy = c.lockedBy)
    (hDead : c'.dead = c.dead) (hDrain : c'.drain = .done) : Shut c' := by
  -- phases and assignments are those of before
  have hOld : ∀ (m : Nat) (call' : Call), c'.calls[m]? = some call' → ∃ call,
      c.calls[m]? = some call ∧ call'.phase = call.phase ∧ call'.assigned = call.assigned ∧
      ((m ∈ c.pending.map (·.2.call) ∧ call'.sent = call.sent ++ [.error error]) ∨
        (m ∉ c.pending.map (·.2.call) ∧ call'.sent = call.sent)) := by
    intro m call' hm
    rw [hCalls, getElem?_sendAll error c.calls hBook.owners] at hm
    split at hm
    · obtain ⟨call, hCall, rfl⟩ := Option.map_eq_some_iff.mp hm
      exact ⟨call, hCall, rfl, rfl, .inl ⟨‹_›, rfl⟩⟩
    · exact ⟨call', hm, rfl, rfl, .inr ⟨‹_›, rfl⟩⟩
  have hFailed : c.dead = true := h.dead (by rw [hOwed]; exact nofun)
  constructor
  case lock =>
    intro m call' hm hPhase
    obtain ⟨call, hm, hSame, -⟩ := hOld m call' hm
    rw [hLock']
    exact h.lock m call hm (hSame ▸ hPhase)
  case alive =>
    rw [hDead, hFailed]
    exact nofun
  case failed =>
    rw [hDrain]
    exact fun _ => nofun
  case replied =>
    intro m call' hm hAssigned
    obtain ⟨call, hm, -, hSame, hSent⟩ := hOld m call' hm
    rw [hSame] at hAssigned
    left
    rcases hSent with ⟨hMem, hSent⟩ | ⟨hMem, hSent⟩
    · -- it had an entry, so the error is its first reply
      obtain ⟨a, -, hNone⟩ := hBook.waiting hm hMem
      rw [hSent, hNone]
      rfl
    · rw [hSent]
      exact (h.replied m call hm hAssigned).resolve_right hMem
  case done =>
    refine fun _ => ⟨hPending, fun m call' hm hPhase => ?_⟩
    obtain ⟨call, hm, hSame, -⟩ := hOld m call' hm
    -- a call past its check would hold the lock
    have := h.lock m call hm (.inr (hSame ▸ hPhase))
    rw [hLock] at this
    cases this

/-- **Step.** -/
theorem shut_step {label : Label} (hBook : Book c) (h : Shut c) (hStep : step c label = some c') :
    Shut c' := by
  obtain ⟨-, hMoves⟩ := step_moves hStep
  -- the lock stays with the call that has it
  have hKeep : ∀ {n : Nat} (m : Nat), m ≠ n → c.lockedBy = some m → c.lockedBy = some m :=
    fun _ _ hm => hm
  have hLeave : ∀ {n : Nat} {call : Call}, c.calls[n]? = some call →
      call.phase = .locked ∨ call.phase = .cleared →
      ∀ m, m ≠ n → c.lockedBy = some m → none = some m := by
    intro n call hn hPhase m hNe hm
    rw [h.lock n call hn hPhase] at hm
    exact absurd (Option.some.inj hm).symm hNe
  cases hMoves with
  | reserve hAvail => exact h.reserve _
  | check hn hPhase hDead => exact h.goto hn .checked (by simp) hKeep nofun rfl rfl rfl rfl rfl rfl
  | checkDead hn | deliverClosed hn =>
    exact h.goto hn (.returned closedReply) (by simp) hKeep nofun rfl rfl rfl rfl rfl rfl
  | lock hn hPhase hLock =>
    refine h.goto hn .locked (fun _ => rfl) (fun m _ hm => ?_) nofun rfl rfl rfl rfl rfl rfl
    rw [hLock] at hm
    cases hm
  | recheck hn hPhase hDead =>
    exact h.goto hn .cleared (fun _ => h.lock _ _ hn (.inl hPhase)) hKeep (fun _ => hDead)
      rfl rfl rfl rfl rfl rfl
  | recheckDead hn hPhase hDead =>
    exact h.goto hn (.returned closedReply) (by simp) (hLeave hn (.inl hPhase)) nofun
      rfl rfl rfl rfl rfl rfl
  | insert hn hPhase hPrepare => exact h.insert hn hPhase (prepare_fits hPrepare).1
  | insertRefused hn hPhase hPrepare =>
    exact h.goto hn (.returned (.error _)) (by simp) (hLeave hn (.inr hPhase)) nofun
      rfl rfl rfl rfl rfl rfl
  | insertFault | receiveFault | write | writeError | timer | writerClosed =>
    exact h.congr rfl rfl rfl rfl rfl rfl fun hEnd => hEnd
  | send hn hPhase hAssigned hWriter =>
    exact h.goto hn .waiting (by simp) hKeep nofun rfl rfl rfl rfl rfl rfl
  | sendStopped hn hPhase hAssigned hWriter =>
    exact h.goto hn .stopping (by simp) hKeep nofun rfl rfl rfl rfl rfl rfl
  | stop hn hPhase =>
    exact (h.swapDead _).goto hn .waiting (by simp) hKeep nofun rfl rfl rfl rfl rfl rfl
  | deliver hn hPhase hSent =>
    exact h.goto hn (.returned _) (by simp) hKeep nofun rfl rfl rfl rfl rfl rfl
  | cancelReserved hn | cancelWaiting hn =>
    exact h.goto hn .dropped (by simp) hKeep nofun rfl rfl rfl rfl rfl rfl
  | receiveAnswered hReader hLock hBranch =>
    obtain ⟨p, hMem, rfl, -⟩ := readerBranch_entry.1 hBranch
    exact h.take hBook hMem rfl rfl rfl rfl rfl rfl fun hEnd => hEnd
  | receiveMismatch hReader hLock hBranch =>
    obtain ⟨p, hMem, rfl⟩ := readerBranch_entry.2 hBranch
    exact h.take hBook hMem rfl rfl rfl rfl rfl rfl nofun
  | receiveOther | readError => exact h.congr rfl rfl rfl rfl rfl rfl nofun
  | writerFail | timerFail =>
    exact (h.swapDead _).congr rfl rfl rfl rfl rfl rfl fun hEnd => hEnd
  | readerFail hReader => exact (h.swapDead _).of_dead rfl rfl rfl rfl rfl rfl
  | readerClosed hReader hClosed =>
    -- the stream is closed by `fail` only
    have hDead : c.dead = true := by
      by_contra hAlive
      rw [(h.alive (by simpa using hAlive)).2.1] at hClosed
      cases hClosed
    exact h.of_dead hDead rfl rfl rfl rfl rfl
  | drain hOwed hLock => exact h.drain hBook hOwed hLock rfl rfl rfl rfl rfl
  | fail => exact h.swapDead _

/-! ## After the drain -/

/-- A call changed in any way but by registering keeps what it was assigned. -/
theorem assigned_modify {calls : List Call} {f : Call → Call} {m : Nat} {call' : Call}
    (hm : (calls.modify n f)[m]? = some call') (hf : ∀ call, (f call).assigned = call.assigned) :
    ∃ call, calls[m]? = some call ∧ call.assigned = call'.assigned := by
  rw [List.getElem?_modify] at hm
  obtain ⟨call, hCall, rfl⟩ := Option.map_eq_some_iff.mp hm
  refine ⟨call, hCall, ?_⟩
  split
  · exact (hf call).symm
  · rfl

theorem assigned_sendAll {error : DotFailure} {pending : Pending} {calls : List Call} {m : Nat}
    {call' : Call} (hm : (sendAll error pending calls)[m]? = some call') :
    ∃ call, calls[m]? = some call ∧ call.assigned = call'.assigned := by
  induction pending generalizing calls with
  | nil => exact ⟨call', hm, rfl⟩
  | cons e pending ih =>
    obtain ⟨call, hCall, hEq⟩ := ih hm
    obtain ⟨call₀, hCall₀, hEq₀⟩ := assigned_modify hCall fun _ => rfl
    exact ⟨call₀, hCall₀, hEq₀.trans hEq⟩

/-- Only the step that registers a call assigns something to it. -/
theorem assigned_of_step {label : Label} (hStep : step c label = some c') {m : Nat} {call' : Call}
    (hm : c'.calls[m]? = some call') (hAssigned : call'.assigned ≠ none) :
    (∃ call, c.calls[m]? = some call ∧ call.assigned = call'.assigned) ∨
      ∃ call, c.calls[m]? = some call ∧ call.phase = .cleared := by
  obtain ⟨-, hMoves⟩ := step_moves hStep
  cases hMoves with
  | reserve hAvail =>
    rcases getElem?_append_one hm with hm | ⟨-, rfl⟩
    · exact .inl ⟨call', hm, rfl⟩
    · exact absurd rfl hAssigned
  | insert hn hPhase hPrepare =>
    rcases getElem?_modify_cases hn hm with ⟨rfl, -⟩ | ⟨-, hm⟩
    · exact .inr ⟨_, hn, hPhase⟩
    · exact .inl ⟨call', hm, rfl⟩
  | drain hOwed hLock => exact .inl (assigned_sendAll hm)
  | check | checkDead | lock | recheck | recheckDead | insertRefused | send | sendStopped | stop
  | deliver | deliverClosed | cancelReserved | cancelWaiting | receiveAnswered | receiveMismatch =>
    exact .inl (assigned_modify hm fun _ => rfl)
  | insertFault | receiveFault | write | writeError | writerFail | writerClosed | receiveOther
  | readError | readerFail | readerClosed | timer | timerFail | fail =>
    exact .inl ⟨call', hm, rfl⟩

/-- The drain happens once. -/
theorem drain_step {label : Label} (h : Shut c) (hDone : c.drain = .done)
    (hStep : step c label = some c') : c'.drain = .done := by
  have hDead : c.dead = true := h.dead (by rw [hDone]; exact nofun)
  -- only the first `fail` owes a drain
  have hSwap : ∀ error, (c.swapDead error).drain = .done := by
    intro error
    rw [DotConnection.swapDead, hDead]
    exact hDone
  obtain ⟨-, hMoves⟩ := step_moves hStep
  cases hMoves with
  | drain => rfl
  | stop | writerFail | readerFail | timerFail | fail => exact hSwap _
  | reserve | check | checkDead | lock | recheck | recheckDead | insert | insertRefused
  | insertFault | send | sendStopped | deliver | deliverClosed | cancelReserved | cancelWaiting
  | write | writeError | writerClosed | receiveFault | receiveAnswered | receiveMismatch
  | receiveOther | readError | readerClosed | timer => exact hDone

end ShutSteps

/-! ## Runs -/

theorem shut_run {c : DotConnection} {labels : List Label}
    (hRun : run step .start labels = some c) : Book c ∧ Shut c :=
  run_invariant (I := fun c => Book c ∧ Shut c)
    (fun _ _ _ h hStep => ⟨book_step h.1 hStep, shut_step h.1 h.2 hStep⟩)
    ⟨book_start, shut_start⟩ hRun

/-- What a run cannot change once the drain is done. -/
theorem drained_run {c c' : DotConnection} {labels : List Label} (hBook : Book c) (hShut : Shut c)
    (hDone : c.drain = .done) (hRun : run step c labels = some c') :
    Book c' ∧ Shut c' ∧ c'.drain = .done ∧
      ∀ (m : Nat) (call' : Call), c'.calls[m]? = some call' → call'.assigned ≠ none →
        ∃ call, c.calls[m]? = some call ∧ call.assigned = call'.assigned := by
  refine run_invariant (I := fun c' => Book c' ∧ Shut c' ∧ c'.drain = .done ∧
    ∀ (m : Nat) (call' : Call), c'.calls[m]? = some call' → call'.assigned ≠ none →
      ∃ call, c.calls[m]? = some call ∧ call.assigned = call'.assigned) ?_
    ⟨hBook, hShut, hDone, fun m call' hm _ => ⟨call', hm, rfl⟩⟩ hRun
  rintro d label d' ⟨hBook, hShut, hDone, hOld⟩ hStep
  refine ⟨book_step hBook hStep, shut_step hBook hShut hStep, drain_step hShut hDone hStep, ?_⟩
  intro m call' hm hAssigned
  rcases assigned_of_step hStep hm hAssigned with ⟨call, hCall, hEq⟩ | ⟨call, hCall, hPhase⟩
  · obtain ⟨call₀, hCall₀, hEq₀⟩ := hOld m call hCall (hEq ▸ hAssigned)
    exact ⟨call₀, hCall₀, hEq₀.trans hEq⟩
  · exact absurd hPhase ((hShut.done hDone).2 m call hCall)

/-- A call that starts on a dead connection returns at its first check. -/
theorem check_of_dead {c : DotConnection} {n : Nat} {call : Call} (hFault : c.fault = none)
    (hn : c.calls[n]? = some call) (hPhase : call.phase = .reserved) (hDead : c.dead = true) :
    step c (.check n) = some (c.goto n (.returned closedReply)).giveBack := by
  rw [step, if_pos hFault]
  simp only [Label.call?, hn, Option.bind_some, stepCall, hPhase, hDead, if_true]

/-- **Shutdown.** In every state a connection can reach, the reader has ended
only if the connection is dead. Once the drain is done, nothing is pending and
every call that has registered has been sent exactly one reply; and however the
run goes on, nothing is ever pending again, no further call registers, one that
has not registered returns nothing but errors, and a call that is still to
start returns its error at once. -/
theorem dot_shutdown {c : DotConnection} {labels : List Label}
    (hRun : run step .start labels = some c) :
    (c.reader = .ended → c.dead = true) ∧
    (c.drain = .done →
      c.pending = [] ∧
      (∀ (n : Nat) (call : Call), c.calls[n]? = some call → call.assigned ≠ none →
        call.sent.length = 1) ∧
      ∀ later c', run step c later = some c' →
        c'.pending = [] ∧
        (∀ (n : Nat) (call' : Call), c'.calls[n]? = some call' → call'.assigned ≠ none →
          ∃ call, c.calls[n]? = some call ∧ call.assigned = call'.assigned) ∧
        (∀ (n : Nat) (call' : Call) (reply : DotReply), c'.calls[n]? = some call' →
          call'.assigned = none → call'.phase = .returned reply →
          ∃ failure, reply = .error failure) ∧
        (∀ (n : Nat) (call' : Call), c'.calls[n]? = some call' → call'.phase = .reserved →
          step c' (.check n) = some (c'.goto n (.returned closedReply)).giveBack)) := by
  obtain ⟨hBook, hShut⟩ := shut_run hRun
  refine ⟨fun hEnd => ?_, fun hDone => ⟨(hShut.done hDone).1, ?_, ?_⟩⟩
  · by_contra hAlive
    exact (hShut.alive (by simpa using hAlive)).2.2 hEnd
  · intro n call hn hAssigned
    refine (hShut.replied n call hn hAssigned).resolve_right ?_
    rw [(hShut.done hDone).1]
    exact nofun
  · intro later c' hLater
    obtain ⟨hBook', hShut', hDone', hOld⟩ := drained_run hBook hShut hDone hLater
    refine ⟨(hShut'.done hDone').1, hOld, ?_, ?_⟩
    · intro n call' reply hn hNone hPhase
      cases reply with
      | error failure => exact ⟨failure, rfl⟩
      | ok wire =>
        have hOk := hBook'.calls n call' hn
        -- a response is sent to registered calls only
        have hSent := hOk.returned wire hPhase
        rw [hOk.unsent hNone] at hSent
        cases hSent
    · intro n call' hn hPhase
      have hDead : c'.dead = true := hShut'.dead (by rw [hDone']; exact nofun)
      exact check_of_dead hBook'.fault hn hPhase hDead

/-- The peer goes away under one pending query. -/
def failRootQuery : List Label :=
  sendRootQuery ++ [.readError (.connection "eof"), .readerFail, .drain]

theorem rootQuery_failed :
    ∃ c, run step .start failRootQuery = some c ∧ c.reader = .ended ∧ c.drain = .done ∧
      c.dead = true ∧ c.pending = [] ∧
      ∀ (n : Nat) (call : Call), c.calls[n]? = some call → call.assigned ≠ none →
        call.sent.length = 1 := by
  have hRun : (run step .start failRootQuery).map (fun c => (c.reader, c.drain)) =
      some (.ended, .done) := by decide +kernel
  obtain ⟨c, hc, hEnd⟩ := Option.map_eq_some_iff.mp hRun
  obtain ⟨hReader, hDone⟩ := Prod.mk.inj hEnd
  obtain ⟨hDead, hDrained⟩ := dot_shutdown hc
  obtain ⟨hPending, hReplied, -⟩ := hDrained hDone
  exact ⟨c, hc, hReader, hDone, hDead hReader, hPending, hReplied⟩

end DnsRs.Dot
