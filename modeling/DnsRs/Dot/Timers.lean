import DnsRs.Dot.Peer

/-!
# Timers of abandoned queries

A call of `query` that is dropped while it waits leaves its entry in `pending`. The drop of
its `PendingQueryGuard` spawns a task that sleeps for `DOT_RESPONSE_BODY_TIMEOUT` and then
fails the connection if the entry is still there and nobody waits for it. What the task
knows of its query is the message ID, and an ID is free again once it has been answered.

`DotConnection` keeps these IDs and no more, as the source does. `TimedConnection` adds the
clock, and for each sleeping task the call it was spawned for and the time.

* `timed_run` — its runs are runs of the connection, and its tasks the timers there.
* `Distinct` — under the ID of a sleeping task nobody is abandoned but its own query; a
  drop keeps this if it is `Unshared`.
* `timer_finds_its_query` — then a timer fails the connection only for a query that has
  been abandoned and unanswered for the whole time.
* `shared_not_distinct`, `confused_misfires` — any other drop loses `Distinct`, and where it
  is lost the connection is failed for another query; `reused_id_misfires` is a run with
  an ID that is used twice within five seconds.
-/

namespace DnsRs.Dot

open Lib Wire DotConnection

/-- `DOT_RESPONSE_BODY_TIMEOUT`, in nanoseconds -/
def dotResponseBodyTimeout : Nat := 5 * 10 ^ 9

/-- A task that the drop of a guard spawned: for which call, and when. -/
structure Timer where
  call : Nat
  /-- the guard's `id`, all that the task itself has -/
  id : Nat
  since : Nat
  deriving DecidableEq, Repr

structure TimedConnection where
  conn : DotConnection
  now : Nat
  asleep : List Timer

namespace TimedConnection

def start : TimedConnection := ⟨.start, 0, []⟩

/-- The task that a step spawns. -/
def spawned (s : TimedConnection) : Label → List Timer
  | .cancel n =>
    match s.conn.calls[n]? with
    | some ⟨_, .waiting, some a, _⟩ => [⟨n, a.id, s.now⟩]
    | _ => []
  | _ => []

end TimedConnection

def Label.isTimer : Label → Bool
  | .timer _ => true
  | _ => false

inductive TimedLabel where
  /-- time passes -/
  | pass (duration : Nat)
  /-- a step of the connection other than a timer's -/
  | act (label : Label)
  /-- a task has slept long enough and looks for its ID -/
  | wake (τ : Timer)
  deriving DecidableEq

def timedStep (s : TimedConnection) : TimedLabel → Option TimedConnection
  | .pass duration => some { s with now := s.now + duration }
  | .act label =>
    if label.isTimer then none
    else (step s.conn label).map fun conn =>
      { s with conn := conn, asleep := s.asleep ++ s.spawned label }
  | .wake τ =>
    if τ ∈ s.asleep ∧ τ.since + dotResponseBodyTimeout ≤ s.now then
      (step s.conn (.timer τ.id)).map fun conn =>
        { s with conn := conn, asleep := s.asleep.erase τ }
    else none

/-- The transitions of the timed connection. -/
inductive TimedMoves (s : TimedConnection) : TimedLabel → TimedConnection → Prop where
  | pass (duration : Nat) : TimedMoves s (.pass duration) { s with now := s.now + duration }
  | act {label conn} (hLabel : label.isTimer = false) (hStep : step s.conn label = some conn) :
      TimedMoves s (.act label) { s with conn := conn, asleep := s.asleep ++ s.spawned label }
  | wake {τ conn} (hAsleep : τ ∈ s.asleep) (hElapsed : τ.since + dotResponseBodyTimeout ≤ s.now)
      (hStep : step s.conn (.timer τ.id) = some conn) :
      TimedMoves s (.wake τ) { s with conn := conn, asleep := s.asleep.erase τ }

section Moves

variable {s u : TimedConnection} {label : TimedLabel}

/-- **Inversion of `timedStep`.** -/
theorem timedStep_moves (h : timedStep s label = some u) : TimedMoves s label u := by
  cases label with
  | pass duration =>
    cases h
    exact .pass duration
  | act label =>
    simp only [timedStep] at h
    split at h
    · cases h
    · rename_i hLabel
      obtain ⟨conn, hStep, rfl⟩ := Option.map_eq_some_iff.mp h
      exact .act (Bool.eq_false_iff.mpr hLabel) hStep
  | wake τ =>
    simp only [timedStep] at h
    split at h
    · rename_i hGuard
      obtain ⟨conn, hStep, rfl⟩ := Option.map_eq_some_iff.mp h
      exact .wake hGuard.1 hGuard.2 hStep
    · cases h

theorem spawned_cancel {n : Nat} {call : Call} {a : Assigned} (hn : s.conn.calls[n]? = some call)
    (hPhase : call.phase = .waiting) (hAssigned : call.assigned = some a) :
    s.spawned (.cancel n) = [⟨n, a.id, s.now⟩] := by
  obtain ⟨query, phase, assigned, sent⟩ := call
  subst hPhase hAssigned
  simp only [TimedConnection.spawned, hn]

theorem mem_spawned {l : Label} {τ : Timer} (h : τ ∈ s.spawned l) :
    l = .cancel τ.call ∧ τ.since = s.now ∧
      ∃ call a, s.conn.calls[τ.call]? = some call ∧ call.phase = .waiting ∧
        call.assigned = some a ∧ a.id = τ.id := by
  unfold TimedConnection.spawned at h
  split at h
  · split at h
    · rename_i hn
      cases List.mem_singleton.mp h
      exact ⟨rfl, rfl, _, _, hn, rfl, rfl, rfl⟩
    · cases h
  · cases h

end Moves

/-! ## The connection below -/

section Below

variable {s u : TimedConnection} {c c' : DotConnection} {label : Label}

/-- The IDs of the sleeping tasks are the timers of the connection, and their calls have been
dropped. -/
structure Tasks (s : TimedConnection) : Prop where
  ids : (s.asleep.map Timer.id).Perm s.conn.timers
  since : ∀ τ ∈ s.asleep, τ.since ≤ s.now
  dropped : ∀ τ ∈ s.asleep, s.conn.phase? τ.call = some .dropped

theorem dropped_cancel {n : Nat} (hStep : step c (.cancel n) = some c') :
    c'.phase? n = some .dropped := by
  obtain ⟨-, hMoves⟩ := step_moves hStep
  cases hMoves with
  | cancelReserved hn | cancelWaiting hn =>
    exact Option.map_eq_some_iff.mpr ⟨_, getElem?_modify_self hn, rfl⟩

/-- A step other than a timer's spawns what the connection says it does. -/
theorem timers_step (hStep : step c label = some c') (hLabel : label.isTimer = false) (now : Nat)
    (asleep : List Timer) :
    c'.timers = c.timers ++ (TimedConnection.spawned ⟨c, now, asleep⟩ label).map Timer.id := by
  obtain ⟨-, hMoves⟩ := step_moves hStep
  cases hMoves with
  | @cancelReserved n call hn hPhase =>
    obtain ⟨query, phase, assigned, sent⟩ := call
    subst hPhase
    simp only [TimedConnection.spawned, hn, List.map_nil, List.append_nil]
    rfl
  | cancelWaiting hn hPhase hAssigned => rw [spawned_cancel hn hPhase hAssigned]; rfl
  | timer hTimer hLock => cases hLabel
  | reserve | check | checkDead | lock | recheck | recheckDead | insert | insertRefused
  | insertFault | send | sendStopped | stop | deliver | deliverClosed | write | writeError
  | writerFail | writerClosed | receiveFault | receiveAnswered | receiveMismatch | receiveOther
  | readError | readerFail | readerClosed | drain | timerFail | fail =>
    exact (List.append_nil _).symm

/-- What a timer does to the connection. -/
theorem step_timer {id : Nat} (h : step c (.timer id) = some c') :
    c' = { c with
      timers := c.timers.erase id
      due := if (c.pending.get id).any fun entry => c.isClosed entry.call then c.due + 1
        else c.due } := by
  simp only [step, Label.call?, stepTask] at h
  split at h
  · split at h
    · exact (Option.some.inj h).symm
    · cases h
  · cases h

theorem tasks_step {label : TimedLabel} (h : Tasks s) (hTimed : timedStep s label = some u) :
    Tasks u := by
  cases timedStep_moves hTimed with
  | pass duration =>
    exact ⟨h.ids, fun τ hτ => (h.since τ hτ).trans (Nat.le_add_right _ _), h.dropped⟩
  | act hLabel hStep =>
    refine ⟨?_, fun τ hτ => ?_, fun τ hτ => ?_⟩
    · rw [timers_step hStep hLabel s.now s.asleep, List.map_append]
      exact h.ids.append_right _
    · rcases List.mem_append.mp hτ with hτ | hτ
      · exact h.since τ hτ
      · exact (mem_spawned hτ).2.1.le
    · rcases List.mem_append.mp hτ with hτ | hτ
      · exact over_step rfl hStep (h.dropped τ hτ)
      · obtain ⟨rfl, -⟩ := mem_spawned hτ
        exact dropped_cancel hStep
  | @wake τ conn hAsleep hElapsed hStep =>
    refine ⟨?_, fun τ hτ => h.since τ (List.mem_of_mem_erase hτ), fun τ hτ => ?_⟩
    · have hMem : τ.id ∈ s.conn.timers := h.ids.mem_iff.mp (List.mem_map_of_mem hAsleep)
      have hIds : (τ.id :: (s.asleep.erase τ).map Timer.id).Perm s.conn.timers :=
        ((List.perm_cons_erase hAsleep).map Timer.id).symm.trans h.ids
      rw [step_timer hStep]
      exact (hIds.trans (List.perm_cons_erase hMem)).cons_inv
    · exact over_step rfl hStep (h.dropped τ (List.mem_of_mem_erase hτ))

/-- **The layers agree.** A run of the timed connection is one of the connection, whose timers
are the tasks that are asleep. -/
theorem timed_run {labels : List TimedLabel} (hRun : run timedStep .start labels = some s) :
    (∃ labels', run step .start labels' = some s.conn) ∧ Tasks s := by
  constructor
  · have hView : ∀ s label u, timedStep s label = some u →
        u.conn = s.conn ∨ ∃ label', step s.conn label' = some u.conn := by
      intro s label u hTimed
      cases timedStep_moves hTimed with
      | pass duration => exact .inl rfl
      | act hLabel hStep | wake hAsleep hElapsed hStep => exact .inr ⟨_, hStep⟩
    exact run_simulation hView hRun
  · have hStart : Tasks .start := ⟨.nil, fun τ hτ => (by cases hτ), fun τ hτ => (by cases hτ)⟩
    exact run_invariant (fun _ _ _ => tasks_step) hStart hRun

end Below

/-! ## Abandoned queries -/

/-- Query `n` is pending under `id`, and nobody waits for it. -/
structure Abandoned (c : DotConnection) (id n : Nat) : Prop where
  entry : ∃ p, (id, p) ∈ c.pending ∧ p.call = n
  closed : c.phase? n = some .dropped

section Abandoned

variable {c c' : DotConnection} {n m id : Nat} {call : Call} {label : Label}

/-- The one call that changes is not dropped by it. -/
theorem dropped_of_modify {f : Call → Call} (hCalls : c'.calls = c.calls.modify n f)
    (hPhase : ∀ call, n = m → (f call).phase = .dropped → call.phase = .dropped)
    (h : c'.phase? m = some .dropped) : c.phase? m = some .dropped := by
  obtain ⟨call', hm, hClosed⟩ := Option.map_eq_some_iff.mp h
  rw [hCalls, List.getElem?_modify] at hm
  obtain ⟨call, hOld, rfl⟩ := Option.map_eq_some_iff.mp hm
  refine Option.map_eq_some_iff.mpr ⟨call, hOld, ?_⟩
  split at hClosed
  · exact hPhase call ‹_› hClosed
  · exact hClosed

theorem Abandoned.of_modify {f : Call → Call} (h : Abandoned c' id m)
    (hCalls : c'.calls = c.calls.modify n f) (hPending : ∀ e ∈ c'.pending, e ∈ c.pending)
    (hPhase : ∀ call, n = m → (f call).phase = .dropped → call.phase = .dropped) :
    Abandoned c id m := by
  obtain ⟨p, hp, hCall⟩ := h.entry
  exact ⟨⟨p, hPending _ hp, hCall⟩, dropped_of_modify hCalls hPhase h.closed⟩

/-- The calls with an entry have been assigned its ID. -/
theorem Book.entry_id (h : Book c) {p : PendingQuery} (hp : (id, p) ∈ c.pending)
    (hCall : p.call = n) (hn : c.calls[n]? = some call) : ∃ a, call.assigned = some a ∧ a.id = id := by
  obtain ⟨call', a, hn', hAssigned, hId, -, -⟩ := h.backed _ hp
  rw [hCall, hn] at hn'
  cases hn'
  exact ⟨a, hAssigned, hId⟩

/-- **One step.** A query comes to be abandoned only when it is cancelled. -/
theorem abandoned_step (hBook : Book c) (hStep : step c label = some c') (h : Abandoned c' id m) :
    Abandoned c id m ∨ label = .cancel m ∧ (∃ p, (id, p) ∈ c.pending ∧ p.call = m) ∧
      ∃ call a, c.calls[m]? = some call ∧ call.phase = .waiting ∧ call.assigned = some a ∧
        a.id = id := by
  obtain ⟨-, hMoves⟩ := step_moves hStep
  have hSame : ∀ e ∈ c.pending, e ∈ c.pending := fun _ he => he
  cases hMoves with
  | reserve hAvail =>
    obtain ⟨call', hm, hClosed⟩ := Option.map_eq_some_iff.mp h.closed
    rcases getElem?_append_one hm with hm | ⟨-, rfl⟩
    · exact .inl ⟨h.entry, Option.map_eq_some_iff.mpr ⟨call', hm, hClosed⟩⟩
    · cases hClosed
  | @insert n call start a hn hPhase hPrepare =>
    obtain ⟨p, hp, hCall⟩ := h.entry
    rcases List.mem_cons.mp hp with hNew | hOld
    · -- the new entry is that of a call that goes on
      obtain ⟨-, rfl⟩ := Prod.mk.inj hNew
      subst hCall
      have hClosed := h.closed
      rw [DotConnection.phase?, getElem?_modify_self hn] at hClosed
      cases hClosed
    · refine .inl ⟨⟨p, (mem_remove.mp hOld).1, hCall⟩, dropped_of_modify rfl ?_ h.closed⟩
      exact fun _ _ hClosed => by cases hClosed
  | @cancelReserved n call hn hPhase =>
    refine .inl (h.of_modify rfl hSame fun call' hEq _ => ?_)
    -- a call that still holds its permit has no entry
    subst hEq
    obtain ⟨p, hp, hCall⟩ := h.entry
    obtain ⟨a, hAssigned, -⟩ := hBook.entry_id hp hCall hn
    have hNone := (hBook.calls _ _ hn).early (by rw [hPhase]; rfl)
    rw [hAssigned] at hNone
    cases hNone
  | @cancelWaiting n call a hn hPhase hAssigned =>
    -- the one step that abandons an entry, that of its own call
    by_cases hEq : n = m
    · subst hEq
      obtain ⟨p, hp, hCall⟩ := h.entry
      obtain ⟨a', hAssigned', hId⟩ := hBook.entry_id hp hCall hn
      exact .inr ⟨rfl, ⟨p, hp, hCall⟩, call, a', hn, hPhase, hAssigned', hId⟩
    · exact .inl (h.of_modify rfl hSame fun _ hEq' => absurd hEq' hEq)
  | receiveAnswered | receiveMismatch =>
    exact .inl (h.of_modify rfl (fun e he => (mem_remove.mp he).1) fun _ _ hClosed => hClosed)
  | drain hDrain hLock =>
    obtain ⟨p, hp, -⟩ := h.entry
    cases hp
  | check | checkDead | lock | recheck | recheckDead | insertRefused | send | sendStopped | stop
  | deliver | deliverClosed =>
    exact .inl (h.of_modify rfl hSame fun _ _ hClosed => by cases hClosed)
  | insertFault | write | writeError | writerFail | writerClosed | receiveFault | receiveOther
  | readError | readerFail | readerClosed | timer | timerFail | fail =>
    exact .inl ⟨h.entry, h.closed⟩

/-- Only a timer that finds an abandoned query makes a call of `fail` due. -/
theorem due_step (hStep : step c label = some c') (hLabel : label.isTimer = false) :
    c'.due ≤ c.due := by
  obtain ⟨-, hMoves⟩ := step_moves hStep
  cases hMoves with
  | timer hTimer hLock => cases hLabel
  | timerFail hDue => exact Nat.sub_le _ _
  | reserve | check | checkDead | lock | recheck | recheckDead | insert | insertRefused
  | insertFault | send | sendStopped | stop | deliver | deliverClosed | cancelReserved
  | cancelWaiting | write | writeError | writerFail | writerClosed | receiveFault
  | receiveAnswered | receiveMismatch | receiveOther | readError | readerFail | readerClosed
  | drain | fail => exact Nat.le_refl _

theorem due_timer (hBook : Book c) (hStep : step c (.timer id) = some c') :
    c.due < c'.due ↔ ∃ n, Abandoned c id n := by
  rw [step_timer hStep]
  dsimp only
  constructor
  · intro hDue
    split at hDue
    · rename_i hFound
      cases hGet : c.pending.get id with
      | none =>
        rw [hGet] at hFound
        cases hFound
      | some p =>
        rw [hGet] at hFound
        exact ⟨p.call, ⟨p, mem_of_get hGet, rfl⟩, beq_iff_eq.mp hFound⟩
    · exact absurd hDue (Nat.lt_irrefl _)
  · rintro ⟨n, ⟨p, hp, rfl⟩, hClosed⟩
    have hFound : (c.pending.get id).any (fun entry => c.isClosed entry.call) = true := by
      rw [get_of_mem hBook.ids hp]
      exact beq_iff_eq.mpr hClosed
    rw [if_pos hFound]
    exact Nat.lt_succ_self _

end Abandoned

/-! ## Whose timer finds whom -/

section Distinct

variable {s u : TimedConnection} {label : TimedLabel}

/-- Under the ID of a sleeping task nobody is abandoned but its own query. -/
def Distinct (s : TimedConnection) : Prop :=
  ∀ τ ∈ s.asleep, ∀ n, Abandoned s.conn τ.id n → n = τ.call

/-- Whoever is dropped shares the ID with no other abandoned query: when the entry there is
its own, no task sleeps under the ID; when it has been answered and the ID is another
query's by now, that one is not abandoned. -/
def Unshared (s : TimedConnection) : TimedLabel → Prop
  | .act label => ∀ τ ∈ s.spawned label, ∀ e ∈ s.conn.pending, e.1 = τ.id →
      if e.2.call = τ.call then ∀ τ' ∈ s.asleep, τ'.id ≠ τ.id
      else s.conn.isClosed e.2.call = false
  | _ => True

instance Unshared.decidable (s : TimedConnection) : ∀ label, Decidable (Unshared s label)
  | .pass _ | .wake _ => isTrue trivial
  | .act label =>
    inferInstanceAs (Decidable (∀ τ ∈ s.spawned label, ∀ e ∈ s.conn.pending, e.1 = τ.id →
      if e.2.call = τ.call then ∀ τ' ∈ s.asleep, τ'.id ≠ τ.id
      else s.conn.isClosed e.2.call = false))

/-- **One step** of a run whose drops are unshared. -/
theorem distinct_step (hBook : Book s.conn) (h : Distinct s) (hGuard : Unshared s label)
    (hTimed : timedStep s label = some u) : Distinct u := by
  cases timedStep_moves hTimed with
  | pass duration => exact h
  | @act label conn hLabel hStep =>
    intro τ hτ n hn
    rcases List.mem_append.mp hτ with hAsleep | hSpawned
    · rcases abandoned_step hBook hStep hn with hOld |
        ⟨rfl, ⟨p, hp, rfl⟩, call, a, hCall, hPhase, hAssigned, hId⟩
      · exact h τ hAsleep n hOld
      · -- dropped under the ID of a task that is asleep
        have hNew := hGuard ⟨p.call, a.id, s.now⟩
          (by rw [spawned_cancel hCall hPhase hAssigned]; exact List.mem_singleton_self _)
          _ hp hId.symm
        rw [if_pos rfl] at hNew
        exact absurd hId.symm (hNew τ hAsleep)
    · obtain ⟨rfl, -, -⟩ := mem_spawned hSpawned
      rcases abandoned_step hBook hStep hn with ⟨⟨p, hp, rfl⟩, hClosed⟩ | ⟨hSame, -⟩
      · by_contra hOther
        have hOpen := hGuard τ hSpawned _ hp rfl
        rw [if_neg hOther, DotConnection.isClosed, hClosed, beq_self_eq_true] at hOpen
        cases hOpen
      · cases hSame
        rfl
  | wake hAsleep hElapsed hStep =>
    intro τ hτ n hn
    rw [step_timer hStep] at hn
    exact h τ (List.mem_of_mem_erase hτ) n ⟨hn.entry, hn.closed⟩

/-- The query of `τ` was dropped when `τ` says, it has had no reply, and its time is up. -/
structure Overdue (past : List (TimedConnection × TimedLabel)) (s : TimedConnection) (τ : Timer) :
    Prop where
  cancelled : ∃ moment ∈ past, moment.2 = .act (.cancel τ.call) ∧ moment.1.now = τ.since
  pending : Abandoned s.conn τ.id τ.call
  unanswered : ∃ call, s.conn.calls[τ.call]? = some call ∧ call.sent = []
  elapsed : τ.since + dotResponseBodyTimeout ≤ s.now

theorem Overdue.append {past : List (TimedConnection × TimedLabel)} {τ : Timer}
    (h : Overdue past s τ) (moment : TimedConnection × TimedLabel) :
    Overdue (past ++ [moment]) s τ := by
  obtain ⟨old, hOld, hCancelled⟩ := h.cancelled
  exact ⟨⟨old, List.mem_append_left _ hOld, hCancelled⟩, h.pending, h.unanswered, h.elapsed⟩

/-- What the past of a run says of its tasks. -/
structure Kept (past : List (TimedConnection × TimedLabel)) (s : TimedConnection) : Prop where
  book : Book s.conn
  distinct : Distinct s
  cancelled : ∀ τ ∈ s.asleep,
    ∃ moment ∈ past, moment.2 = .act (.cancel τ.call) ∧ moment.1.now = τ.since
  due : 0 < s.conn.due → ∃ moment ∈ past, ∃ τ, moment.2 = .wake τ ∧ Overdue past moment.1 τ

/-- A task that finds somebody finds its own query, and not before its time. -/
theorem Kept.overdue {past : List (TimedConnection × TimedLabel)} (h : Kept past s) {τ : Timer}
    (hTimed : timedStep s (.wake τ) = some u) (hFinds : s.conn.due < u.conn.due) :
    Overdue past s τ := by
  cases timedStep_moves hTimed with
  | wake hAsleep hElapsed hStep =>
    obtain ⟨n, hn⟩ := (due_timer h.book hStep).mp hFinds
    obtain rfl := h.distinct τ hAsleep n hn
    obtain ⟨p, hp, hCall⟩ := hn.entry
    obtain ⟨call, -, hBacked, -, -, -, hSent⟩ := h.book.backed _ hp
    exact ⟨h.cancelled τ hAsleep, hn, ⟨call, hCall ▸ hBacked, hSent⟩, hElapsed⟩

theorem kept_step {past : List (TimedConnection × TimedLabel)} (h : Kept past s)
    (hGuard : Unshared s label) (hTimed : timedStep s label = some u) :
    Kept (past ++ [(s, label)]) u := by
  have hCancelled : ∀ τ ∈ s.asleep, ∃ moment ∈ past ++ [(s, label)],
      moment.2 = .act (.cancel τ.call) ∧ moment.1.now = τ.since := by
    intro τ hτ
    obtain ⟨moment, hOld, hMoment⟩ := h.cancelled τ hτ
    exact ⟨moment, List.mem_append_left _ hOld, hMoment⟩
  have hDue : 0 < s.conn.due → ∃ moment ∈ past ++ [(s, label)], ∃ τ, moment.2 = .wake τ ∧
      Overdue (past ++ [(s, label)]) moment.1 τ := by
    intro hPos
    obtain ⟨moment, hOld, τ, hWake, hOverdue⟩ := h.due hPos
    exact ⟨moment, List.mem_append_left _ hOld, τ, hWake, hOverdue.append _⟩
  have hDistinct := distinct_step h.book h.distinct hGuard hTimed
  cases timedStep_moves hTimed with
  | pass duration => exact ⟨h.book, hDistinct, hCancelled, hDue⟩
  | act hLabel hStep =>
    refine ⟨book_step h.book hStep, hDistinct, ?_, fun hPos => ?_⟩
    · intro τ hτ
      rcases List.mem_append.mp hτ with hτ | hτ
      · exact hCancelled τ hτ
      · -- a task that is spawned now is of the call that is dropped now
        obtain ⟨rfl, hSince, -⟩ := mem_spawned hτ
        exact ⟨_, List.mem_append_right _ (List.mem_singleton_self _), rfl, hSince.symm⟩
    · exact hDue (hPos.trans_le (due_step hStep hLabel))
  | @wake τ conn hAsleep hElapsed hStep =>
    refine ⟨book_step h.book hStep, hDistinct, ?_, fun hPos => ?_⟩
    · exact fun τ hτ => hCancelled τ (List.mem_of_mem_erase hτ)
    · by_cases hFinds : s.conn.due < conn.due
      · -- this is the moment itself
        exact ⟨_, List.mem_append_right _ (List.mem_singleton_self _), τ, rfl,
          (h.overdue hTimed hFinds).append _⟩
      · exact hDue (hPos.trans_le (Nat.le_of_not_lt hFinds))

end Distinct

/-! ## Runs -/

theorem kept_run {labels : List TimedLabel} {s : TimedConnection}
    (hGuard : Guarded timedStep Unshared .start labels)
    (hRun : run timedStep .start labels = some s) : Kept (history timedStep .start labels) s := by
  refine history_invariant_guarded (fun _ _ _ _ => kept_step) ?_ hGuard hRun
  exact ⟨book_start, fun τ hτ => (by cases hτ), fun τ hτ => (by cases hτ), fun h => (by cases h)⟩

/-- **A timer acts for its own query.** In every run whose drops are unshared: a timer that
finds a query abandoned and goes on to fail the connection has found the one it was spawned
for, which was dropped `DOT_RESPONSE_BODY_TIMEOUT` or more ago and is still pending, without
any reply; so whenever a timer fails the connection, there was a query that had been abandoned
and unanswered for the whole of that time. -/
theorem timer_finds_its_query {labels : List TimedLabel} {s : TimedConnection}
    (hGuard : Guarded timedStep Unshared .start labels)
    (hRun : run timedStep .start labels = some s) :
    (∀ τ u, timedStep s (.wake τ) = some u → s.conn.due < u.conn.due →
      Overdue (history timedStep .start labels) s τ) ∧
    ∀ u, timedStep s (.act .timerFail) = some u →
      ∃ moment ∈ history timedStep .start labels, ∃ τ, moment.2 = .wake τ ∧
        Overdue (history timedStep .start labels) moment.1 τ := by
  have h := kept_run hGuard hRun
  refine ⟨fun τ u hWake hFinds => h.overdue hWake hFinds, fun u hFail => ?_⟩
  cases timedStep_moves hFail with
  | act hLabel hStep =>
    obtain ⟨-, hMoves⟩ := step_moves hStep
    cases hMoves with
    | timerFail hDue => exact h.due hDue

/-- A query that is dropped at once; five seconds pass. -/
def abandonedQuery : List TimedLabel := cancelledQuery.map .act ++ [.pass dotResponseBodyTimeout]

theorem abandonedQuery_overdue :
    ∃ s u, run timedStep .start abandonedQuery = some s ∧
      timedStep s (.wake ⟨0, 7, 0⟩) = some u ∧ s.conn.due < u.conn.due ∧
      Overdue (history timedStep .start abandonedQuery) s ⟨0, 7, 0⟩ := by
  have hGuard : Guarded timedStep Unshared .start abandonedQuery := by decide +kernel
  have hWakes : (run timedStep .start abandonedQuery).bind (fun s =>
      (timedStep s (.wake ⟨0, 7, 0⟩)).map fun u => (s.conn.due, u.conn.due)) = some (0, 1) := by
    decide +kernel
  obtain ⟨s, hRun, hWakes⟩ := Option.bind_eq_some_iff.mp hWakes
  obtain ⟨u, hWake, hDue⟩ := Option.map_eq_some_iff.mp hWakes
  obtain ⟨hBefore, hAfter⟩ := Prod.mk.inj hDue
  have hFinds : s.conn.due < u.conn.due := by omega
  exact ⟨s, u, hRun, hWake, hFinds, (timer_finds_its_query hGuard hRun).1 _ u hWake hFinds⟩

/-! ## Shared IDs -/

/-- The condition is needed: a drop that is not unshared leaves a task asleep under the ID of
an abandoned query of somebody else. -/
theorem shared_not_distinct {s u : TimedConnection} {label : TimedLabel} (hTasks : Tasks s)
    (hShared : ¬ Unshared s label) (hTimed : timedStep s label = some u) : ¬ Distinct u := by
  cases timedStep_moves hTimed with
  | pass | wake => exact absurd trivial hShared
  | @act label conn hLabel hStep =>
    intro hDistinct
    refine hShared fun τ hτ e he hId => ?_
    obtain ⟨rfl, -, call, a, hn, hPhase, hAssigned, hTimer⟩ := mem_spawned hτ
    -- a drop leaves every entry where it is
    have hPending : conn.pending = s.conn.pending := by
      obtain ⟨-, hMoves⟩ := step_moves hStep
      cases hMoves with
      | cancelReserved | cancelWaiting => rfl
    have hEntry : ∃ p, (τ.id, p) ∈ conn.pending ∧ p.call = e.2.call :=
      ⟨e.2, by rw [hPending, ← hId]; exact he, rfl⟩
    split
    · rename_i hOwn
      intro τ' hτ' hSame
      -- the task is of a call that was dropped before
      have hEq := hDistinct τ' (List.mem_append_left _ hτ') τ.call
        ⟨by rw [hSame, ← hOwn]; exact hEntry, dropped_cancel hStep⟩
      have hDropped := hTasks.dropped τ' hτ'
      rw [← hEq, DotConnection.phase?, hn, Option.map_some, hPhase] at hDropped
      cases hDropped
    · rename_i hOther
      by_contra hClosed
      rw [Bool.not_eq_false, DotConnection.isClosed, beq_iff_eq] at hClosed
      exact hOther (hDistinct τ (List.mem_append_right _ hτ) e.2.call
        ⟨hEntry, over_step rfl hStep hClosed⟩)

/-- Where somebody is abandoned under the ID of a sleeping task, whoever it is, the task will
fail the connection for it. -/
theorem confused_misfires {labels : List TimedLabel} {s : TimedConnection}
    (hRun : run timedStep .start labels = some s) (hLock : s.conn.lockedBy = none) {τ : Timer}
    (hAsleep : τ ∈ s.asleep) {n : Nat} (hAbandoned : Abandoned s.conn τ.id n) :
    ∃ u, run timedStep s [.pass dotResponseBodyTimeout, .wake τ, .act .timerFail] = some u ∧
      u.conn.dead = true := by
  obtain ⟨⟨labels', hConn⟩, hTasks⟩ := timed_run hRun
  have hBook := book_run hConn
  have hTimer : τ.id ∈ s.conn.timers := hTasks.ids.mem_iff.mp (List.mem_map_of_mem hAsleep)
  have hElapsed : τ.since + dotResponseBodyTimeout ≤ s.now + dotResponseBodyTimeout :=
    Nat.add_le_add_right (hTasks.since τ hAsleep) _
  obtain ⟨c, hc⟩ : ∃ c, step s.conn (.timer τ.id) = some c := by
    simp only [step, hBook.fault, Label.call?, stepTask, hTimer, hLock]
    exact ⟨_, rfl⟩
  have hWake : timedStep { s with now := s.now + dotResponseBodyTimeout } (.wake τ) =
      some ⟨c, s.now + dotResponseBodyTimeout, s.asleep.erase τ⟩ := by
    rw [timedStep, if_pos ⟨hAsleep, hElapsed⟩, hc]
    rfl
  -- what it finds makes its call of `fail` due
  have hDue : 0 < c.due := Nat.zero_lt_of_lt ((due_timer hBook hc).mpr ⟨n, hAbandoned⟩)
  obtain ⟨d, hd, hDead⟩ : ∃ d, step c .timerFail = some d ∧ d.dead = true := by
    simp only [step, (book_step hBook hc).fault, Label.call?, stepTask, hDue]
    exact ⟨_, rfl, rfl⟩
  have hFail : timedStep ⟨c, s.now + dotResponseBodyTimeout, s.asleep.erase τ⟩ (.act .timerFail) =
      some ⟨d, s.now + dotResponseBodyTimeout, s.asleep.erase τ ++ []⟩ := by
    simp only [timedStep, hd]
    rfl
  refine ⟨⟨d, s.now + dotResponseBodyTimeout, s.asleep.erase τ ++ []⟩, ?_, hDead⟩
  exact run_cons_eq_some.mpr ⟨_, rfl,
    run_cons_eq_some.mpr ⟨_, hWake, run_cons_eq_some.mpr ⟨_, hFail, rfl⟩⟩⟩

/-- A query is dropped at once and then answered; its ID 7 goes to a second query, which is
dropped a millisecond before the timer of the first one wakes up. -/
def reusedId : List TimedLabel :=
  cancelledQuery.map .act ++
    [.act (.receive rootResponse), .act (.reserve rootQuery), .act (.check 1), .act (.lock 1),
      .act (.recheck 1), .act (.insert 1 7), .act (.send 1), .act .write,
      .pass (dotResponseBodyTimeout - 10 ^ 6), .act (.cancel 1), .pass (10 ^ 6)]

theorem reused_id_misfires :
    ∃ s u v, run timedStep .start reusedId = some s ∧ timedStep s (.wake ⟨0, 7, 0⟩) = some u ∧
      timedStep u (.act .timerFail) = some v ∧ s.conn.dead = false ∧ v.conn.dead = true ∧
      (s.conn.calls[0]?).map Call.sent = some [.ok rootResponse] ∧
      (∀ e ∈ s.conn.pending, e.2.call ≠ 0) ∧
      ∀ τ, ¬ Overdue (history timedStep .start reusedId) s τ := by
  have hView : (run timedStep .start reusedId).bind (fun s =>
      (timedStep s (.wake ⟨0, 7, 0⟩)).bind fun u => (timedStep u (.act .timerFail)).map fun v =>
        (s.conn.dead, v.conn.dead, s.conn.pending.map (·.2.call), s.now)) =
      some (false, true, [1], dotResponseBodyTimeout) := by
    decide +kernel
  have hReply : (run timedStep .start reusedId).map (fun s => (s.conn.calls[0]?).map Call.sent) =
      some (some [.ok rootResponse]) := by
    decide +kernel
  -- the one entry is that of the second query, which was dropped a millisecond ago
  have hDrops : ((history timedStep .start reusedId).filter fun moment =>
      decide (moment.2 = .act (.cancel 1))).map (·.1.now) = [dotResponseBodyTimeout - 10 ^ 6] := by
    decide +kernel
  obtain ⟨s, hRun, hView⟩ := Option.bind_eq_some_iff.mp hView
  obtain ⟨u, hWake, hView⟩ := Option.bind_eq_some_iff.mp hView
  obtain ⟨v, hFail, hView⟩ := Option.map_eq_some_iff.mp hView
  simp only [Prod.mk.injEq] at hView
  obtain ⟨hAlive, hDead, hCalls, hNow⟩ := hView
  rw [hRun] at hReply
  have hEntries : ∀ e ∈ s.conn.pending, e.2.call = 1 := by
    intro e he
    have hMem : e.2.call ∈ s.conn.pending.map (·.2.call) := List.mem_map_of_mem he
    rw [hCalls] at hMem
    exact List.mem_singleton.mp hMem
  refine ⟨s, u, v, hRun, hWake, hFail, hAlive, hDead, Option.some.inj hReply,
    fun e he => ?_, fun τ hOverdue => ?_⟩
  · rw [hEntries e he]
    exact Nat.one_ne_zero
  · obtain ⟨p, hp, hCall⟩ := hOverdue.pending.entry
    obtain ⟨moment, hMoment, hCancel, hSince⟩ := hOverdue.cancelled
    rw [← hCall, hEntries _ hp] at hCancel
    have hMem : moment.1.now ∈ ((history timedStep .start reusedId).filter fun moment =>
        decide (moment.2 = .act (.cancel 1))).map (·.1.now) :=
      List.mem_map_of_mem (List.mem_filter.mpr ⟨hMoment, decide_eq_true hCancel⟩)
    rw [hDrops, List.mem_singleton] at hMem
    have hElapsed := hOverdue.elapsed
    rw [← hSince, hMem, hNow, dotResponseBodyTimeout] at hElapsed
    omega

end DnsRs.Dot
