import DnsRs.Dot.Connection

/-!
# What a step of the connection can do

`Moves` lists the transitions of `step`, one constructor per kind, with the
guards under which each is taken; `step_moves` is the inversion lemma every
invariant below starts from. The rest are the lemmas on calls and pending
entries that the transitions share.
-/

namespace DnsRs.Dot

open Lib Wire DotConnection

/-- The transitions of the connection. -/
inductive Moves (c : DotConnection) : Label → DotConnection → Prop where
  | reserve {query} (hAvail : 0 < c.available) :
      Moves c (.reserve query)
        { c with
          available := c.available - 1
          calls := c.calls ++ [⟨query, .reserved, none, []⟩] }
  | check {n call} (hn : c.calls[n]? = some call) (hPhase : call.phase = .reserved)
      (hDead : c.dead = false) : Moves c (.check n) (c.goto n .checked)
  | checkDead {n call} (hn : c.calls[n]? = some call) (hPhase : call.phase = .reserved)
      (hDead : c.dead = true) : Moves c (.check n) (c.goto n (.returned closedReply)).giveBack
  | lock {n call} (hn : c.calls[n]? = some call) (hPhase : call.phase = .checked)
      (hLock : c.lockedBy = none) : Moves c (.lock n) { c.goto n .locked with lockedBy := some n }
  | recheck {n call} (hn : c.calls[n]? = some call) (hPhase : call.phase = .locked)
      (hDead : c.dead = false) : Moves c (.recheck n) (c.goto n .cleared)
  | recheckDead {n call} (hn : c.calls[n]? = some call) (hPhase : call.phase = .locked)
      (hDead : c.dead = true) :
      Moves c (.recheck n) (c.goto n (.returned closedReply)).giveBack.unlock
  | insert {n call start a} (hn : c.calls[n]? = some call) (hPhase : call.phase = .cleared)
      (hPrepare : prepare c.pending call.query start = .ok (.ok a)) :
      Moves c (.insert n start)
        { c.unlock with
          pending := c.pending.insert a.id ⟨n, a.expectedQuestion⟩
          calls := c.calls.modify n fun call =>
            { call with phase := .inserted, assigned := some a } }
  | insertRefused {n call start failure} (hn : c.calls[n]? = some call)
      (hPhase : call.phase = .cleared)
      (hPrepare : prepare c.pending call.query start = .ok (.error failure)) :
      Moves c (.insert n start) (c.goto n (.returned (.error failure))).giveBack.unlock
  | insertFault {n call start fault} (hn : c.calls[n]? = some call)
      (hPhase : call.phase = .cleared)
      (hPrepare : prepare c.pending call.query start = .error fault) :
      Moves c (.insert n start) (c.crash fault)
  | send {n call a} (hn : c.calls[n]? = some call) (hPhase : call.phase = .inserted)
      (hAssigned : call.assigned = some a) (hWriter : c.writer ≠ .ended) :
      Moves c (.send n) { c.goto n .waiting with writes := c.writes ++ [(n, a.frame)] }
  | sendStopped {n call a} (hn : c.calls[n]? = some call) (hPhase : call.phase = .inserted)
      (hAssigned : call.assigned = some a) (hWriter : c.writer = .ended) :
      Moves c (.send n) (c.goto n .stopping)
  | stop {n call} (hn : c.calls[n]? = some call) (hPhase : call.phase = .stopping) :
      Moves c (.stop n) ((c.swapDead (.connection "DoT writer stopped")).goto n .waiting)
  | deliver {n call reply rest} (hn : c.calls[n]? = some call) (hPhase : call.phase = .waiting)
      (hSent : call.sent = reply :: rest) : Moves c (.deliver n) (c.goto n (.returned reply))
  | deliverClosed {n call} (hn : c.calls[n]? = some call) (hPhase : call.phase = .waiting)
      (hSent : call.sent = []) (hEntry : ∀ e ∈ c.pending, e.2.call ≠ n) :
      Moves c (.deliver n) (c.goto n (.returned closedReply))
  | cancelReserved {n call} (hn : c.calls[n]? = some call) (hPhase : call.phase = .reserved) :
      Moves c (.cancel n) (c.goto n .dropped).giveBack
  | cancelWaiting {n call a} (hn : c.calls[n]? = some call) (hPhase : call.phase = .waiting)
      (hAssigned : call.assigned = some a) :
      Moves c (.cancel n) { c.goto n .dropped with timers := c.timers ++ [a.id] }
  | write {frame writes} (hWriter : c.writer = .running) (hWrites : c.writes = frame :: writes) :
      Moves c .write { c with writes := writes }
  | writeError {frame writes error failure} (hWriter : c.writer = .running)
      (hWrites : c.writes = frame :: writes) :
      Moves c (.writeError error) { c with writes := writes, writer := .failing failure }
  | writerFail {error} (hWriter : c.writer = .failing error) :
      Moves c .writerFail { c.swapDead error with writer := .ended }
  | writerClosed (hWriter : c.writer = .running) (hClosed : c.closed = true) :
      Moves c .writerClosed { c with writer := .ended }
  | receiveFault {wire fault} (hReader : c.reader = .running) (hLock : c.lockedBy = none)
      (hBranch : readerBranch c.pending wire = .error fault) :
      Moves c (.receive wire) (c.crash fault)
  | receiveAnswered {wire n} (hReader : c.reader = .running) (hLock : c.lockedBy = none)
      (hBranch : readerBranch c.pending wire = .ok (.answered n)) :
      Moves c (.receive wire)
        { c.giveBack with
          pending := c.pending.remove (responseId wire)
          calls := sendReply c.calls n (.ok wire) }
  | receiveMismatch {wire n failure error} (hReader : c.reader = .running)
      (hLock : c.lockedBy = none) (hBranch : readerBranch c.pending wire = .ok (.mismatch n)) :
      Moves c (.receive wire)
        { c.giveBack with
          pending := c.pending.remove (responseId wire)
          calls := sendReply c.calls n (.error failure)
          reader := .failing error }
  | receiveOther {wire branch error} (hReader : c.reader = .running) (hLock : c.lockedBy = none)
      (hBranch : readerBranch c.pending wire = .ok branch)
      (hOther : branch = .empty ∨ branch = .short ∨ branch = .unexpected) :
      Moves c (.receive wire) { c with reader := .failing error }
  | readError {error} (hReader : c.reader = .running) :
      Moves c (.readError error) { c with reader := .failing error }
  | readerFail {error} (hReader : c.reader = .failing error) :
      Moves c .readerFail { c.swapDead error with reader := .ended }
  | readerClosed (hReader : c.reader = .running) (hClosed : c.closed = true) :
      Moves c .readerClosed { c with reader := .ended }
  | drain {error} (hDrain : c.drain = .owed error) (hLock : c.lockedBy = none) :
      Moves c .drain
        { c with
          drain := .done
          pending := []
          available := c.available + c.pending.length
          calls := sendAll error c.pending c.calls }
  | timer {id due} (hTimer : id ∈ c.timers) (hLock : c.lockedBy = none) :
      Moves c (.timer id) { c with timers := c.timers.erase id, due := due }
  | timerFail {error} (hDue : 0 < c.due) :
      Moves c .timerFail { c.swapDead error with due := c.due - 1 }
  | fail {error} : Moves c (.fail error) (c.swapDead error)

/-- The steps of a call. -/
theorem stepCall_moves {c c' : DotConnection} {n : Nat} {call : Call} {label : Label}
    (hn : c.calls[n]? = some call) (hLabel : label.call? = some n)
    (h : c.stepCall n call label = some c') : Moves c label c' := by
  cases label <;> simp only [Label.call?] at hLabel <;> try contradiction
  all_goals cases hLabel
  case check =>
    simp only [stepCall] at h
    split at h
    · cases hDead : c.dead <;> simp only [hDead] at h <;> cases h
      · exact .check hn ‹_› hDead
      · exact .checkDead hn ‹_› hDead
    · cases h
  case lock =>
    simp only [stepCall] at h
    split at h
    · rename_i hGuard
      cases h
      exact .lock hn hGuard.1 hGuard.2
    · cases h
  case recheck =>
    simp only [stepCall] at h
    split at h
    · cases hDead : c.dead <;> simp only [hDead] at h <;> cases h
      · exact .recheck hn ‹_› hDead
      · exact .recheckDead hn ‹_› hDead
    · cases h
  case insert start =>
    simp only [stepCall] at h
    split at h
    · cases h
      rename_i hPhase
      unfold DotConnection.insert
      split
      · exact .insertFault hn hPhase ‹_›
      · exact .insertRefused hn hPhase ‹_›
      · exact .insert hn hPhase ‹_›
    · cases h
  case send =>
    simp only [stepCall] at h
    split at h
    · rename_i hPhase hAssigned
      by_cases hWriter : c.writer = .ended
      · rw [if_pos hWriter] at h
        cases h
        exact .sendStopped hn hPhase hAssigned hWriter
      · rw [if_neg hWriter] at h
        cases h
        exact .send hn hPhase hAssigned hWriter
    · cases h
  case stop =>
    simp only [stepCall] at h
    split at h
    · cases h
      exact .stop hn ‹_›
    · cases h
  case deliver =>
    simp only [stepCall] at h
    split at h
    · rename_i hPhase
      split at h
      · cases h
        exact .deliver hn hPhase ‹_›
      · split at h
        · cases h
        · rename_i hSent hEntry
          cases h
          refine .deliverClosed hn hPhase hSent fun e he hEq => hEntry ?_
          exact List.any_eq_true.mpr ⟨e, he, by rw [hEq, beq_self_eq_true]⟩
    · cases h
  case cancel =>
    simp only [stepCall] at h
    split at h
    · cases h
      exact .cancelReserved hn ‹_›
    · cases h
      exact .cancelWaiting hn ‹_› ‹_›
    · cases h

/-- The steps of the background tasks, the timers and the callers of `fail`. -/
theorem stepTask_moves {c c' : DotConnection} {label : Label}
    (h : c.stepTask label = some c') : Moves c label c' := by
  cases label <;> simp only [stepTask] at h <;> try contradiction
  case reserve query =>
    split at h
    · cases h
      exact .reserve ‹_›
    · cases h
  case write =>
    split at h
    · cases h
      exact .write ‹_› ‹_›
    · cases h
  case writeError error =>
    split at h
    · cases h
      exact .writeError ‹_› ‹_›
    · cases h
  case writerFail =>
    split at h
    · cases h
      exact .writerFail ‹_›
    · cases h
  case writerClosed =>
    split at h
    · rename_i hGuard
      cases h
      exact .writerClosed hGuard.1 hGuard.2
    · cases h
  case receive wire =>
    split at h
    · rename_i hGuard
      cases h
      unfold DotConnection.receive
      split
      · exact .receiveFault hGuard.1 hGuard.2 ‹_›
      · exact .receiveOther hGuard.1 hGuard.2 ‹_› (.inl rfl)
      · exact .receiveOther hGuard.1 hGuard.2 ‹_› (.inr (.inl rfl))
      · exact .receiveAnswered hGuard.1 hGuard.2 ‹_›
      · exact .receiveMismatch hGuard.1 hGuard.2 ‹_›
      · exact .receiveOther hGuard.1 hGuard.2 ‹_› (.inr (.inr rfl))
    · cases h
  case readError error =>
    split at h
    · cases h
      exact .readError ‹_›
    · cases h
  case readerFail =>
    split at h
    · cases h
      exact .readerFail ‹_›
    · cases h
  case readerClosed =>
    split at h
    · rename_i hGuard
      cases h
      exact .readerClosed hGuard.1 hGuard.2
    · cases h
  case drain =>
    split at h
    · cases h
      exact .drain ‹_› ‹_›
    · cases h
  case timer id =>
    split at h
    · rename_i hGuard
      cases h
      exact .timer hGuard.1 hGuard.2
    · cases h
  case timerFail =>
    split at h
    · cases h
      exact .timerFail ‹_›
    · cases h
  case fail error =>
    cases h
    exact .fail

/-- **Inversion of `step`.** -/
theorem step_moves {c c' : DotConnection} {label : Label} (h : step c label = some c') :
    c.fault = none ∧ Moves c label c' := by
  unfold step at h
  split at h
  · rename_i hFault
    refine ⟨hFault, ?_⟩
    split at h
    · rename_i n hLabel
      obtain ⟨call, hn, hCall⟩ := Option.bind_eq_some_iff.mp h
      exact stepCall_moves hn hLabel hCall
    · exact stepTask_moves h
  · cases h

end DnsRs.Dot
