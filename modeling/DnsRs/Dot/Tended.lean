import DnsRs.Dot.Timers

/-!
# Who keeps a connection going

The pending map of a connection has a lock, and its frames are written by a task of their own.
A lock whose holder is gone would stop everybody, and so would a writer that is gone.

* `Tended` — the lock is held by a call that goes on, and a connection without its writer is
  dead.
-/

namespace DnsRs.Dot

open Lib Wire DotConnection

/-- The lock has a holder, only a dead connection is without its writer, and a call that has
registered has something to send. -/
structure Tended (c : DotConnection) : Prop where
  lock : ∀ n, c.lockedBy = some n → c.phase? n = some .locked ∨ c.phase? n = some .cleared
  writer : c.dead = false → c.writer ≠ .ended
  queued : ∀ (n : Nat) (call : Call), c.calls[n]? = some call → call.phase = .inserted →
    call.assigned ≠ none

variable {c c' : DotConnection} {n : Nat} {call : Call} {label : Label}

theorem tended_start : Tended .start where
  lock n h := by cases h
  writer _ h := by cases h
  queued n call h := by cases h

/-- The lock stays where it is, and the call that moves is not the one that has it. -/
theorem Tended.keep (h : Tended c) (hStep : step c label = some c')
    (hLock : c'.lockedBy = c.lockedBy)
    (hOwn : ∀ m, label.call? = some m → c.phase? m ≠ some .locked ∧ c.phase? m ≠ some .cleared) :
    ∀ m, c'.lockedBy = some m → c'.phase? m = some .locked ∨ c'.phase? m = some .cleared := by
  intro m hm
  rw [hLock] at hm
  have hPhase := h.lock m hm
  have hOther : label.call? ≠ some m := by
    intro hLabel
    obtain ⟨hNotLocked, hNotCleared⟩ := hOwn m hLabel
    exact hPhase.elim hNotLocked hNotCleared
  exact hPhase.imp (phase_step hStep hOther) (phase_step hStep hOther)

/-- A call in one of the other phases does not hold the lock. -/
theorem phase_unlocked (hn : c.calls[n]? = some call) (hLocked : call.phase ≠ .locked)
    (hCleared : call.phase ≠ .cleared) :
    ∀ m, some n = some m → c.phase? m ≠ some .locked ∧ c.phase? m ≠ some .cleared := by
  rintro m ⟨⟩
  rw [DotConnection.phase?, hn]
  exact ⟨fun h => hLocked (Option.some.inj h), fun h => hCleared (Option.some.inj h)⟩

theorem Tended.lock_step (h : Tended c) (hShut : Shut c) (hStep : step c label = some c') :
    ∀ m, c'.lockedBy = some m → c'.phase? m = some .locked ∨ c'.phase? m = some .cleared := by
  have hMoves := (step_moves hStep).2
  cases hMoves with
  | check hn hPhase | checkDead hn hPhase | send hn hPhase | sendStopped hn hPhase
  | deliver hn hPhase | deliverClosed hn hPhase | cancelReserved hn hPhase
  | cancelWaiting hn hPhase | stop hn hPhase =>
    refine h.keep hStep rfl (phase_unlocked hn ?_ ?_) <;> rw [hPhase] <;> exact nofun
  | lock hn hPhase hLock =>
    rintro m ⟨⟩
    exact .inl (Option.map_eq_some_iff.mpr ⟨_, getElem?_modify_self hn, rfl⟩)
  | @recheck n call hn hPhase hDead =>
    -- the holder is the call that goes on
    intro m hm
    have hSame : n = m := Option.some.inj ((hShut.lock n call hn (.inl hPhase)).symm.trans hm)
    subst hSame
    exact .inr (Option.map_eq_some_iff.mpr ⟨_, getElem?_modify_self hn, rfl⟩)
  | recheckDead | insert | insertRefused => exact fun m hm => by cases hm
  | insertFault | receiveFault => exact h.lock
  | reserve | write | receiveAnswered | receiveMismatch | receiveOther | readError | timer | drain
  | writeError | readerClosed | writerClosed | writerFail | readerFail | timerFail | fail =>
    exact h.keep hStep rfl fun m hm => by cases hm

theorem Tended.writer_step (h : Tended c) (hShut : Shut c) (hStep : step c label = some c') :
    c'.dead = false → c'.writer ≠ .ended := by
  have hMoves := (step_moves hStep).2
  cases hMoves with
  | writeError => exact fun _ hEnd => by cases hEnd
  | writerClosed hWriter hClosed =>
    intro hAlive
    -- `closed` is cancelled by `fail` only
    rw [(hShut.alive hAlive).2.1] at hClosed
    cases hClosed
  | stop | writerFail | readerFail | timerFail | fail => exact fun hAlive => by cases hAlive
  | reserve | check | checkDead | lock | recheck | recheckDead | insert | insertRefused
  | insertFault | send | sendStopped | deliver | deliverClosed | cancelReserved | cancelWaiting
  | write | receiveFault | receiveAnswered | receiveMismatch | receiveOther | readError
  | readerClosed | timer | drain => exact h.writer

theorem Tended.queued_step (h : Tended c) (hBook : Book c) (hStep : step c label = some c') :
    ∀ (m : Nat) (call' : Call), c'.calls[m]? = some call' → call'.phase = .inserted →
      call'.assigned ≠ none := by
  have hMoves := (step_moves hStep).2
  intro m call' hm hPhase
  -- a call that moves on is past the queue or not there yet
  have hMoved : ∀ {n : Nat} {call : Call} {f : Call → Call}, c.calls[n]? = some call →
      (c.calls.modify n f)[m]? = some call' →
      ((f call).phase = .inserted → (f call).assigned ≠ none) → call'.assigned ≠ none := by
    intro n call f hn hm hNew
    rcases getElem?_modify_cases hn hm with ⟨rfl, rfl⟩ | ⟨-, hm⟩
    · exact hNew hPhase
    · exact h.queued m call' hm hPhase
  cases hMoves with
  | reserve hAvail =>
    rcases getElem?_append_one hm with hm | ⟨-, rfl⟩
    · exact h.queued m call' hm hPhase
    · cases hPhase
  | insert hn => exact hMoved hn hm fun _ hNone => by cases hNone
  | check hn | checkDead hn | lock hn | recheck hn | recheckDead hn | insertRefused hn | send hn
  | sendStopped hn | stop hn | deliver hn | deliverClosed hn | cancelReserved hn
  | cancelWaiting hn => exact hMoved hn hm fun hOther => by cases hOther
  | receiveAnswered hReader hLock hBranch =>
    obtain ⟨p, hMem, rfl, -⟩ := readerBranch_entry.1 hBranch
    obtain ⟨call, a, hn, hAssigned, -⟩ := hBook.backed _ hMem
    exact hMoved hn hm fun _ hNone => by rw [hAssigned] at hNone; cases hNone
  | receiveMismatch hReader hLock hBranch =>
    obtain ⟨p, hMem, rfl⟩ := readerBranch_entry.2 hBranch
    obtain ⟨call, a, hn, hAssigned, -⟩ := hBook.backed _ hMem
    exact hMoved hn hm fun _ hNone => by rw [hAssigned] at hNone; cases hNone
  | drain =>
    rw [getElem?_sendAll _ c.calls hBook.owners] at hm
    split at hm
    · obtain ⟨call, hn, rfl⟩ := Option.map_eq_some_iff.mp hm
      exact h.queued m call hn hPhase
    · exact h.queued m call' hm hPhase
  | insertFault | write | writeError | writerFail | writerClosed | receiveFault | receiveOther
  | readError | readerFail | readerClosed | timer | timerFail | fail =>
    exact h.queued m call' hm hPhase

/-- Everything that holds of a connection that was started. -/
theorem tended_run {labels : List Label} (hRun : run step .start labels = some c) :
    Book c ∧ Shut c ∧ Tended c := by
  refine run_invariant (I := fun c => Book c ∧ Shut c ∧ Tended c) ?_
    ⟨book_start, shut_start, tended_start⟩ hRun
  rintro c label c' ⟨hBook, hShut, h⟩ hStep
  exact ⟨book_step hBook hStep, shut_step hBook hShut hStep,
    h.lock_step hShut hStep, h.writer_step hShut hStep, h.queued_step hBook hStep⟩

end DnsRs.Dot
