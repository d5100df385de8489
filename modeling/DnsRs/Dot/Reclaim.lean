import DnsRs.Dot.PoolTermination

/-!
# Slots of abandoned queries

A query whose caller goes away keeps its entry in `pending`, and with it a permit of the
connection. Callers go away all the time: a hedged or raced upstream that loses is dropped. The
guard of such a query leaves a timer behind, and this module is about what the timers are for.

* `Covered` — for each abandoned entry a timer of its own is asleep, or the failure it has
  asked for is due, or the connection is dead.
* `Unreturned` — nobody who has returned has an entry.
* `abandoned_slots_reclaimed` — if time does not pass what is due, a connection that is alive
  has lost no slot to a query that was dropped more than `DOT_RESPONSE_BODY_TIMEOUT` ago: its
  256 permits are free, or with calls that are under way, or with queries dropped since then.
-/

namespace DnsRs.Dot

open Lib Wire DotConnection

/-! ## Prompt timers -/

/-- Time does not pass a timer that is due, nor a failure that a timer has asked for. -/
def TimersFirst (s : TimedConnection) : TimedLabel → Prop
  | .pass duration =>
    s.conn.due = 0 ∧ ∀ τ ∈ s.asleep, s.now + duration ≤ τ.since + dotResponseBodyTimeout
  | _ => True

instance TimersFirst.decidable (s : TimedConnection) : ∀ label, Decidable (TimersFirst s label)
  | .pass duration =>
    inferInstanceAs (Decidable (s.conn.due = 0 ∧
      ∀ τ ∈ s.asleep, s.now + duration ≤ τ.since + dotResponseBodyTimeout))
  | .act _ | .wake _ => isTrue trivial

/-- The calls that were dropped no longer than `DOT_RESPONSE_BODY_TIMEOUT` ago. -/
def recentDrops (past : List (TimedConnection × TimedLabel)) (now : Nat) : List Nat :=
  past.filterMap fun moment =>
    match moment.2 with
    | .act (.cancel n) => if now ≤ moment.1.now + dotResponseBodyTimeout then some n else none
    | _ => none

/-- The drop of `n` at this moment is a recent one. -/
theorem mem_recentDrops {past : List (TimedConnection × TimedLabel)} {now n : Nat}
    {moment : TimedConnection × TimedLabel} (hPast : moment ∈ past)
    (hCancel : moment.2 = .act (.cancel n))
    (hRecent : now ≤ moment.1.now + dotResponseBodyTimeout) : n ∈ recentDrops past now := by
  refine List.mem_filterMap.mpr ⟨moment, hPast, ?_⟩
  simp only [hCancel]
  exact if_pos hRecent

/-! ## Who looks after an abandoned entry -/

section Covered

variable {past : List (TimedConnection × TimedLabel)} {s u : TimedConnection}
  {label : TimedLabel} {id n : Nat}

/-- Query `n` was dropped at `moment`, which is not too long ago, and will be seen to. -/
structure SeenTo (s : TimedConnection) (id n : Nat) (moment : TimedConnection × TimedLabel) :
    Prop where
  cancelled : moment.2 = .act (.cancel n)
  recent : s.now ≤ moment.1.now + dotResponseBodyTimeout
  timer : 0 < s.conn.due ∨ ∃ τ ∈ s.asleep, τ.id = id ∧ τ.since = moment.1.now

/-- Every abandoned entry is seen to, on a connection that is alive. -/
def Covered (past : List (TimedConnection × TimedLabel)) (s : TimedConnection) : Prop :=
  ∀ id n, Abandoned s.conn id n → s.conn.dead = true ∨ ∃ moment ∈ past, SeenTo s id n moment

/-- A failure that is due stays due until it has happened. -/
theorem due_or_dead {c c' : DotConnection} {label : Label} (hStep : step c label = some c')
    (hDue : 0 < c.due) (hLabel : label.isTimer = false) : 0 < c'.due ∨ c'.dead = true := by
  cases (step_moves hStep).2 with
  | timer => cases hLabel
  | timerFail => exact .inr rfl
  | reserve | check | checkDead | lock | recheck | recheckDead | insert | insertRefused
  | insertFault | send | sendStopped | stop | deliver | deliverClosed | cancelReserved
  | cancelWaiting | write | writeError | writerFail | writerClosed | receiveFault
  | receiveAnswered | receiveMismatch | receiveOther | readError | readerFail | readerClosed
  | drain | fail => exact .inl hDue

theorem covered_pass {duration : Nat} (h : Covered past s)
    (hFirst : TimersFirst s (.pass duration)) :
    Covered past { s with now := s.now + duration } := by
  intro id n hAbandoned
  rcases h id n hAbandoned with hDead | ⟨moment, hPast, hBy⟩
  · exact .inl hDead
  · refine .inr ⟨moment, hPast, hBy.cancelled, ?_, hBy.timer⟩
    -- nothing is due, so there is a timer, and time stops there
    rcases hBy.timer with hDue | ⟨τ, hAsleep, -, hSince⟩
    · exact absurd hFirst.1 hDue.ne'
    · rw [← hSince]
      exact hFirst.2 τ hAsleep

theorem covered_act {l : Label} {conn : DotConnection} (hBook : Book s.conn) (h : Covered past s)
    (hLabel : l.isTimer = false) (hStep : step s.conn l = some conn) :
    Covered (past ++ [(s, .act l)])
      { s with conn := conn, asleep := s.asleep ++ s.spawned l } := by
  intro id n hAbandoned
  rcases abandoned_step hBook hStep hAbandoned with hOld |
    ⟨rfl, -, call, a, hCall, hPhase, hAssigned, hId⟩
  · rcases h id n hOld with hDead | ⟨moment, hPast, hBy⟩
    · exact .inl (dead_step hStep hDead)
    · have hPast' := List.mem_append_left [(s, TimedLabel.act l)] hPast
      rcases hBy.timer with hDue | ⟨τ, hAsleep, hTimer⟩
      · rcases due_or_dead hStep hDue hLabel with hDue' | hDead
        · exact .inr ⟨moment, hPast', hBy.cancelled, hBy.recent, .inl hDue'⟩
        · exact .inl hDead
      · exact .inr ⟨moment, hPast', hBy.cancelled, hBy.recent,
          .inr ⟨τ, List.mem_append_left _ hAsleep, hTimer⟩⟩
  · -- dropped just now: its timer has been spawned
    refine .inr ⟨(s, .act (.cancel n)), List.mem_append_right _ (List.mem_singleton_self _), rfl,
      Nat.le_add_right _ _, .inr ⟨⟨n, a.id, s.now⟩, List.mem_append_right _ ?_, hId, rfl⟩⟩
    rw [spawned_cancel hCall hPhase hAssigned]
    exact List.mem_singleton_self _

theorem covered_wake {τ : Timer} {conn : DotConnection} (hBook : Book s.conn)
    (h : Covered past s) (hStep : step s.conn (.timer τ.id) = some conn) :
    Covered past { s with conn := conn, asleep := s.asleep.erase τ } := by
  intro id n hAbandoned
  -- waking up, a timer changes no entry
  have hOld : Abandoned s.conn id n := by
    have hSame := hAbandoned
    rw [step_timer hStep] at hSame
    exact ⟨hSame.entry, hSame.closed⟩
  have hMore : s.conn.due ≤ conn.due := by
    rw [step_timer hStep]
    dsimp only
    split <;> omega
  rcases h id n hOld with hDead | ⟨moment, hPast, hBy⟩
  · exact .inl (dead_step hStep hDead)
  · refine .inr ⟨moment, hPast, hBy.cancelled, hBy.recent, ?_⟩
    rcases hBy.timer with hDue | ⟨τ', hAsleep, hId, hSince⟩
    · exact .inl (hDue.trans_le hMore)
    · by_cases hSame : τ' = τ
      · -- the entry's own timer finds it
        rw [← hSame, hId] at hStep
        exact .inl (Nat.zero_lt_of_lt ((due_timer hBook hStep).mpr ⟨n, hOld⟩))
      · exact .inr ⟨τ', (List.mem_erase_of_ne hSame).mpr hAsleep, hId, hSince⟩

theorem Covered.append (h : Covered past s) (moment : TimedConnection × TimedLabel) :
    Covered (past ++ [moment]) s := by
  intro id n hAbandoned
  rcases h id n hAbandoned with hDead | ⟨old, hPast, hBy⟩
  · exact .inl hDead
  · exact .inr ⟨old, List.mem_append_left _ hPast, hBy⟩

/-- **One step.** -/
theorem covered_step (hBook : Book s.conn) (h : Covered past s) (hFirst : TimersFirst s label)
    (hTimed : timedStep s label = some u) : Covered (past ++ [(s, label)]) u := by
  cases timedStep_moves hTimed with
  | pass duration => exact (covered_pass h hFirst).append _
  | act hLabel hStep => exact covered_act hBook h hLabel hStep
  | wake hAsleep hElapsed hStep => exact (covered_wake hBook h hStep).append _

end Covered

/-! ## Who has an entry -/

section Unreturned

variable {c c' : DotConnection} {label : Label}

/-- Nobody who has returned has an entry. -/
def Unreturned (c : DotConnection) : Prop :=
  ∀ e ∈ c.pending, ∀ reply, c.phase? e.2.call ≠ some (.returned reply)

theorem pending_step {e : Nat × PendingQuery} (hStep : step c label = some c')
    (he : e ∈ c'.pending) : e ∈ c.pending ∨ c'.phase? e.2.call = some .inserted := by
  cases (step_moves hStep).2 with
  | insert hn hPhase hPrepare =>
    rcases List.mem_cons.mp he with rfl | hOld
    · refine .inr (Option.map_eq_some_iff.mpr ⟨_, getElem?_modify_self hn, rfl⟩)
    · exact .inl (mem_remove.mp hOld).1
  | receiveAnswered | receiveMismatch => exact .inl (mem_remove.mp he).1
  | drain => cases he
  | reserve | check | checkDead | lock | recheck | recheckDead | insertRefused | insertFault
  | send | sendStopped | stop | deliver | deliverClosed | cancelReserved | cancelWaiting | write
  | writeError | writerFail | writerClosed | receiveFault | receiveOther | readError | readerFail
  | readerClosed | timer | timerFail | fail => exact .inl he

/-- A call that returns has no entry. -/
theorem no_entry_at_return {n : Nat} {reply : DotReply} (hBook : Book c)
    (hStep : step c label = some c') (hOwn : label.call? = some n)
    (hReturned : c'.phase? n = some (.returned reply)) : ∀ e ∈ c.pending, e.2.call ≠ n := by
  intro e he hCall
  obtain ⟨call', a, hn', hAssigned, -, -, hSent⟩ := hBook.backed e he
  rw [hCall] at hn'
  -- before its entry a call has been assigned nothing
  have hEarly : call'.phase.holdsPermit ≠ true := fun hHolds => by
    have hNone := (hBook.calls n call' hn').early hHolds
    rw [hAssigned] at hNone
    cases hNone
  have hMoved : ∀ {call : Call} {f : Call → Call}, c.calls[n]? = some call →
      c'.calls = c.calls.modify n f → (f call).phase = .returned reply := by
    intro call f hn hCalls
    unfold DotConnection.phase? at hReturned
    rw [hCalls, getElem?_modify_self hn] at hReturned
    exact Option.some.inj hReturned
  cases (step_moves hStep).2 with
  | check hn | lock hn | recheck hn | insert hn | send hn | sendStopped hn | stop hn
  | cancelReserved hn | cancelWaiting hn =>
    cases hOwn
    cases hMoved hn rfl
  | checkDead hn hPhase | recheckDead hn hPhase | insertRefused hn hPhase | insertFault hn hPhase =>
    cases hOwn
    rw [hn] at hn'
    cases hn'
    exact hEarly (by rw [hPhase]; rfl)
  | deliver hn hPhase hReply =>
    cases hOwn
    rw [hn] at hn'
    cases hn'
    rw [hSent] at hReply
    cases hReply
  | deliverClosed hn hPhase hNone hEntry =>
    cases hOwn
    exact hEntry e he hCall
  | reserve | write | writeError | writerFail | writerClosed | receiveFault | receiveAnswered
  | receiveMismatch | receiveOther | readError | readerFail | readerClosed | drain | timer
  | timerFail | fail => cases hOwn

theorem unreturned_step (hBook : Book c) (h : Unreturned c) (hStep : step c label = some c') :
    Unreturned c' := by
  intro e he reply hReturned
  rcases pending_step hStep he with hOld | hNew
  · by_cases hOwn : label.call? = some e.2.call
    · exact no_entry_at_return hBook hStep hOwn hReturned e hOld rfl
    · -- nobody else makes it return
      obtain ⟨call, a, hn, -⟩ := hBook.backed e hOld
      have hPhase : c.phase? e.2.call = some call.phase := Option.map_eq_some_iff.mpr ⟨call, hn, rfl⟩
      have hSame := phase_step hStep hOwn hPhase
      rw [hReturned] at hSame
      exact h e hOld reply (hPhase.trans hSame.symm)
  · rw [hReturned] at hNew
    cases hNew

end Unreturned

/-! ## Counting slots -/

/-- The call has neither returned nor been dropped. -/
def Phase.underWay : Phase → Bool
  | .returned _ | .dropped => false
  | _ => true

/-- Past its entry, and under way. -/
def Phase.awaits (phase : Phase) : Bool := phase.underWay && !phase.holdsPermit

theorem countP_underWay (calls : List Call) :
    calls.countP (·.phase.underWay) =
      calls.countP (·.phase.holdsPermit) + calls.countP (·.phase.awaits) := by
  induction calls with
  | nil => rfl
  | cons call calls ih =>
    rw [List.countP_cons, List.countP_cons, List.countP_cons, ih]
    cases call.phase <;> simp [Phase.underWay, Phase.awaits, Phase.holdsPermit] <;> omega

/-- Each entry is that of a call that is under way, or of one dropped a short time ago. -/
theorem pending_length_le {past : List (TimedConnection × TimedLabel)} {s : TimedConnection}
    (hBook : Book s.conn) (hUnreturned : Unreturned s.conn)
    (hDrops : ∀ id n, Abandoned s.conn id n → n ∈ recentDrops past s.now) :
    s.conn.pending.length ≤
      s.conn.calls.countP (·.phase.awaits) + (recentDrops past s.now).length := by
  let owners := s.conn.pending.map (·.2.call)
  let closed : Nat → Bool := fun n => s.conn.isClosed n
  have hSplit : owners.length = (owners.filter closed).length +
      (owners.filter fun n => !closed n).length := List.length_eq_length_filter_add closed
  have hDropped : (owners.filter closed).length ≤ (recentDrops past s.now).length := by
    refine ((hBook.owners.filter _).subperm fun n hn => ?_).length_le
    obtain ⟨hOwner, hClosed⟩ := List.mem_filter.mp hn
    obtain ⟨e, he, rfl⟩ := List.mem_map.mp hOwner
    exact hDrops e.1 _ ⟨⟨e.2, he, rfl⟩, beq_iff_eq.mp hClosed⟩
  have hAwaiting : (owners.filter fun n => !closed n).length ≤
      s.conn.calls.countP (·.phase.awaits) := by
    refine length_le_countP (hBook.owners.filter _) fun n hn => ?_
    obtain ⟨hOwner, hOpen⟩ := List.mem_filter.mp hn
    obtain ⟨e, he, rfl⟩ := List.mem_map.mp hOwner
    obtain ⟨call, a, hCall, hAssigned, -⟩ := hBook.backed e he
    refine ⟨call, hCall, ?_⟩
    have hPhase : s.conn.phase? e.2.call = some call.phase :=
      Option.map_eq_some_iff.mpr ⟨call, hCall, rfl⟩
    have hEarly := (hBook.calls _ call hCall).early
    rw [hAssigned] at hEarly
    cases hCase : call.phase with
    | returned reply => exact absurd (hCase ▸ hPhase) (hUnreturned e he reply)
    | dropped =>
      simp only [closed, DotConnection.isClosed, hPhase, hCase, beq_self_eq_true, Bool.not_true] at hOpen
      cases hOpen
    | reserved | checked | locked | cleared =>
      rw [hCase] at hEarly
      cases hEarly rfl
    | inserted | stopping | waiting => rfl
  have hLength : s.conn.pending.length = owners.length := (List.length_map _).symm
  omega

/-! ## Runs -/

/-- **Slots come back.** In every run of a connection in which time does not pass what is due,
with calls that come and go in any order, and as long as the connection is alive: whoever is
abandoned and still pending was dropped no longer than `DOT_RESPONSE_BODY_TIMEOUT` ago, so the
permits that are not free are with calls that are under way or were dropped in that time. -/
theorem abandoned_slots_reclaimed {labels : List TimedLabel} {s : TimedConnection}
    (hFirst : Guarded timedStep TimersFirst .start labels)
    (hRun : run timedStep .start labels = some s) (hAlive : s.conn.dead = false) :
    (∀ id n, Abandoned s.conn id n → n ∈ recentDrops (history timedStep .start labels) s.now) ∧
      maxDotInFlight ≤ s.conn.available + s.conn.calls.countP (·.phase.underWay) +
        (recentDrops (history timedStep .start labels) s.now).length := by
  have hInv : (Book s.conn ∧ Unreturned s.conn) ∧ Covered (history timedStep .start labels) s := by
    refine history_invariant_guarded
      (I := fun past s => (Book s.conn ∧ Unreturned s.conn) ∧ Covered past s) ?_ ?_ hFirst hRun
    · rintro past s label u ⟨⟨hBook, hUnreturned⟩, hCovered⟩ hGuard hTimed
      refine ⟨?_, covered_step hBook hCovered hGuard hTimed⟩
      cases timedStep_moves hTimed with
      | pass duration => exact ⟨hBook, hUnreturned⟩
      | act hLabel hStep | wake hAsleep hElapsed hStep =>
        exact ⟨book_step hBook hStep, unreturned_step hBook hUnreturned hStep⟩
    · refine ⟨⟨book_start, fun e he => (by cases he)⟩, fun id n hAbandoned => ?_⟩
      obtain ⟨p, hp, -⟩ := hAbandoned.entry
      cases hp
  obtain ⟨⟨hBook, hUnreturned⟩, hCovered⟩ := hInv
  have hDrops : ∀ id n, Abandoned s.conn id n →
      n ∈ recentDrops (history timedStep .start labels) s.now := by
    intro id n hAbandoned
    rcases hCovered id n hAbandoned with hDead | ⟨moment, hPast, hBy⟩
    · rw [hAlive] at hDead
      cases hDead
    · exact mem_recentDrops hPast hBy.cancelled hBy.recent
  refine ⟨hDrops, ?_⟩
  have hPending := pending_length_le hBook hUnreturned hDrops
  have hPermits := hBook.permits
  have hUnderWay := countP_underWay s.conn.calls
  omega

/-- A query is dropped at once, and its time is just up: the one slot is still gone. -/
theorem slots_reclaimed_abandoned :
    ∃ s, run timedStep .start abandonedQuery = some s ∧ s.conn.dead = false ∧
      s.conn.available = 255 ∧ s.conn.calls.countP (·.phase.underWay) = 0 ∧
      maxDotInFlight ≤ s.conn.available + s.conn.calls.countP (·.phase.underWay) +
        (recentDrops (history timedStep .start abandonedQuery) s.now).length := by
  have hFirst : Guarded timedStep TimersFirst .start abandonedQuery := by decide +kernel
  have hView : (run timedStep .start abandonedQuery).map (fun s =>
      (s.conn.dead, s.conn.available, s.conn.calls.countP (·.phase.underWay))) =
      some (false, 255, 0) := by decide +kernel
  obtain ⟨s, hRun, hView⟩ := Option.map_eq_some_iff.mp hView
  simp only [Prod.mk.injEq] at hView
  obtain ⟨hAlive, hAvail, hNone⟩ := hView
  exact ⟨s, hRun, hAlive, hAvail, hNone, (abandoned_slots_reclaimed hFirst hRun hAlive).2⟩

end DnsRs.Dot
