import DnsRs.Upstream.HedgedTiming

/-!
# The three strategies compared

* `resolve_within_timeout` — no strategy takes longer than one `UPSTREAM_TIMEOUT`, however many
  upstreams there are.
* `hedged_latency` — the head start of the others delays upstream `j` by no more than `j` hedge
  delays, and no more attempts run at once than hedge delays have passed.
* `strategies_in_time` — an answer that `sequential` would have is there at least as early with
  `hedged`, and one that `hedged` has is there at least as early with `race`; requests are spent
  the other way round.
-/

namespace DnsRs.Upstream

open Lib Wire

variable {ε : Type}

/-! ## The race -/

/-- The race and its clock. -/
structure Racing (upstreams : List (TimedUpstream ε)) (timed : Prop) (now : Nat) (r : Race ε) :
    Prop where
  sound : r.Sound (untimed upstreams) timed
  answer : ∀ response, r.result = some (.ok response) →
    ∃ i d, EndsIn upstreams i (.ok response) d ∧ d ≤ now

section Racing

variable {upstreams : List (TimedUpstream ε)} {timed : Prop} {now : Nat} {r r' : Race ε}
  {e : RaceEvent}

theorem race_due_ends {i d : Nat} {outcome : Except ε Bytes} (hPending : r.result = none)
    (hMem : i ∈ r.running) (hEnds : EndsIn upstreams i outcome d) :
    d ∈ Race.due upstreams r (.ends i) := by
  obtain ⟨upstream, hUp, -, hLatency⟩ := hEnds
  simp [Race.due, hPending, hMem, hUp, hLatency]

theorem race_due_expires {i : Nat} (hPending : r.result = none) (hMem : i ∈ r.running) :
    upstreamTimeout ∈ Race.due upstreams r (.expires i) := by
  simp [Race.due, hPending, hMem]

theorem stepRace_running {upstreams : List (SingleUpstream ε)}
    (hStep : stepRace upstreams r e = some r') :
    r.result = none ∧ ∀ i ∈ r'.running, i ∈ r.running := by
  obtain ⟨hPending, hMoves⟩ := Race.stepRace_moves hStep
  refine ⟨hPending, ?_⟩
  cases hMoves with
  | answered | failed | expired => exact fun j hj => List.mem_of_mem_erase hj

/-- Nothing becomes due that was not. -/
theorem race_due_mono (hPending : r.result = none) (hSub : ∀ i ∈ r'.running, i ∈ r.running) {t : Nat}
    (h : t ∈ Race.due upstreams r' e) : t ∈ Race.due upstreams r e := by
  cases e with
  | ends i | expires i =>
    simp only [Race.due, Option.mem_def, Option.ite_none_right_eq_some] at h ⊢
    exact ⟨⟨by rw [hPending]; rfl, hSub i h.1.2⟩, h.2⟩

/-- The events the race waits for. -/
def Race.events (r : Race ε) : List RaceEvent :=
  r.running.flatMap fun i => [.ends i, .expires i]

theorem Race.prompt_iff {t : Timed.State (Race ε)} {duration : Nat} :
    (∀ e ∈ t.state.events, ∀ time ∈ Race.due upstreams t.state e, t.now + duration ≤ time) ↔
      Timed.Prompt (Race.due upstreams) t (.pass duration) := by
  refine ⟨fun h e time hTime => h e ?_ time hTime, fun h e _ => h e⟩
  cases e with
  | ends | expires =>
    simp only [Race.due, Option.mem_def, Option.ite_none_right_eq_some] at hTime
    simpa [Race.events] using hTime.1.2

instance Race.decidablePrompt (t : Timed.State (Race ε)) :
    ∀ label, Decidable (Timed.Prompt (Race.due upstreams) t label)
  | .pass _ => decidable_of_iff _ Race.prompt_iff
  | .act _ => isTrue trivial

/-- **One event that is due.** -/
theorem racing_act (h : Racing upstreams timed now r)
    (hPunctual : Timed.Punctual (Race.due upstreams) now r)
    (hTime : ∀ i, e = .expires i → timed) (hDue : Timed.Due (Race.due upstreams) ⟨now, r⟩ e)
    (hAct : Race.act upstreams now r e = some r') :
    Racing upstreams timed now r' ∧ Timed.Punctual (Race.due upstreams) now r' := by
  obtain ⟨hPending, hSub⟩ := stepRace_running hAct
  have hSound := (h.sound.step hTime hAct).1
  refine ⟨⟨hSound, fun response hOk => ?_⟩,
    fun b t ht => hPunctual b t (race_due_mono hPending hSub ht)⟩
  cases (Race.stepRace_moves hAct).2 with
  | @answered i response' hMem hAnswer =>
    cases hOk
    obtain ⟨upstream, hUp, hOutcome⟩ := hAnswer
    rw [untimed_getElem?, Option.map_eq_some_iff] at hUp
    obtain ⟨timedUpstream, hUp, rfl⟩ := hUp
    -- it answers now because its latency has passed
    obtain ⟨t, ht, hLe⟩ := hDue
    simp only [Race.due, hPending, Option.isNone_none, hMem, and_self, if_true, hUp,
      Option.bind_some, Option.mem_def] at ht
    exact ⟨i, t, ⟨timedUpstream, hUp, hOutcome, ht⟩, hLe⟩
  | failed | expired =>
    -- the last one to leave ends the race with an error
    simp only [Race.drop] at hOk
    split at hOk <;> cases hOk

/-- **Every prompt run.** -/
theorem racing_run (timed : Prop) {t : Timed.State (Race ε)} (hRun : RaceAt upstreams t)
    (hTime : ∀ now r, Racing upstreams timed now r → Timed.Punctual (Race.due upstreams) now r →
      r.result = none → upstreamTimeout ≤ now → timed) :
    Racing upstreams timed t.now t.state ∧ Timed.Punctual (Race.due upstreams) t.now t.state := by
  obtain ⟨labels, hPrompt, hRun⟩ := hRun
  have hStart : Racing upstreams timed 0 (resolveRace (untimed upstreams)) := by
    refine ⟨(resolveRace_sound (untimed upstreams) timed).1, fun response hOk => ?_⟩
    unfold resolveRace at hOk
    split at hOk <;> cases hOk
  refine Timed.prompt_invariant (I := Racing upstreams timed) ?_ ?_ hStart
    (fun _ _ _ => Nat.zero_le _) hPrompt hRun
  · intro now r duration h
    refine ⟨h.sound, fun response hOk => ?_⟩
    obtain ⟨i, d, hEnds, hLe⟩ := h.answer response hOk
    exact ⟨i, d, hEnds, by omega⟩
  · intro now r e r' h hPunctual hDue hAct
    refine racing_act h hPunctual (fun i hExpires => ?_) hDue hAct
    subst hExpires
    have hPending := (stepRace_running hAct).1
    obtain ⟨t, ht, hLe⟩ := hDue
    simp only [Race.due, Option.mem_def, Option.ite_none_right_eq_some, Option.some.injEq] at ht
    exact hTime now r h hPunctual hPending (ht.2 ▸ hLe)

/-- An upstream that would answer within the timeout is not waited for any longer. -/
theorem Racing.pending_by (h : Racing upstreams False now r)
    (hPunctual : Timed.Punctual (Race.due upstreams) now r) {k d : Nat} {response : Bytes}
    (hEnds : EndsIn upstreams k (.ok response) d) (hPending : r.result = none) : now ≤ d := by
  have hRuns : k ∈ r.running := by
    by_contra hOut
    have hFails := (h.sound.settled k (untimed_length.symm ▸ hEnds.lt) hOut hPending).resolve_left id
    exact not_answersAt_of_failsAt hFails hEnds.answersAt
  exact hPunctual (.ends k) d (race_due_ends hPending hRuns hEnds)

theorem race_answers_by {t : Timed.State (Race ε)} (hRun : RaceAt upstreams t) {k d : Nat}
    {response : Bytes} (hEnds : EndsIn upstreams k (.ok response) d) (hInTime : d < upstreamTimeout) :
    (t.state.result = none ∧ t.now ≤ d) ∨ ∃ response', t.state.result = some (.ok response') := by
  obtain ⟨h, hPunctual⟩ := racing_run False hRun fun now r h hPunctual hPending hLate => by
    have := h.pending_by hPunctual hEnds hPending
    omega
  cases hResult : t.state.result with
  | none => exact .inl ⟨rfl, h.pending_by hPunctual hEnds hResult⟩
  | some result =>
    cases result with
    | ok response' => exact .inr ⟨response', rfl⟩
    | error err =>
      have hFails := (h.sound.failed err hResult).resolve_left id k (untimed_length.symm ▸ hEnds.lt)
      exact absurd hEnds.answersAt (not_answersAt_of_failsAt hFails)

end Racing

/-! ## The three strategies -/

section Strategies

variable {upstreams : List (TimedUpstream ε)}

/-- **One timeout for all.** Falling back over any number of upstreams, none of which need ever
answer, takes no longer than one `UPSTREAM_TIMEOUT`: the sequential loop has returned by then,
and the other two are not waiting any more. -/
theorem resolve_within_timeout (upstreams : List (TimedUpstream ε)) :
    (resolveSequentialAt upstreams).1 ≤ upstreamTimeout ∧
    (∀ s, HedgedAt upstreams s → s.state.hedge.result = none → s.now ≤ upstreamTimeout) ∧
    ∀ s, RaceAt upstreams s → s.state.result = none → s.now ≤ upstreamTimeout := by
  refine ⟨?_, fun s hRun hPending => ?_, fun s hRun hPending => ?_⟩
  · exact (sequentialAt_spec upstreams upstreams [] none 0 rfl (Nat.zero_le _)
      (.inl ⟨fun i hi => absurd hi (Nat.not_lt_zero i), rfl⟩)).inTime
  · obtain ⟨h, hPunctual⟩ := hedging_run True hRun fun _ _ _ _ _ _ => trivial
    exact hPunctual .expire _ (expire_due hPending)
  · obtain ⟨h, hPunctual⟩ := racing_run True hRun fun _ _ _ _ _ _ => trivial
    obtain ⟨i, hRuns⟩ := List.exists_mem_of_ne_nil _ (h.sound.waits hPending)
    exact hPunctual (.expires i) _ (race_due_expires hPending hRuns)

/-- **The head start of the others.** In a hedged resolution an upstream `i` that is asked is asked
at the latest when `i` hedge delays have passed, and as long as there is no result every upstream
is asked by then; one that answers within `d` of being asked has its answer, or an earlier one,
returned by then. And no more requests are under way at any time than hedge delays have passed,
and one. -/
theorem hedged_latency {s : Timed.State (TimedHedge ε)} (hRun : HedgedAt upstreams s) :
    (∀ i t, s.state.startedAt[i]? = some t → t ≤ i * hedgeDelay) ∧
    (s.state.hedge.result = none → ∀ i < upstreams.length, i * hedgeDelay < s.now →
      ∃ t, s.state.startedAt[i]? = some t) ∧
    s.state.hedge.active.length ≤ s.now / hedgeDelay + 1 ∧
    ∀ k response d, EndsIn upstreams k (.ok response) d → k * hedgeDelay + d < upstreamTimeout →
      (s.state.hedge.result = none ∧ s.now ≤ k * hedgeDelay + d) ∨
        ∃ response', s.state.hedge.result = some (.ok response') := by
  have hDelays : ∀ k, ReachedBy upstreams k fun i => i * hedgeDelay := by
    intro k i _
    exact .inl (Nat.le_of_eq (Nat.succ_mul i hedgeDelay).symm)
  obtain ⟨h, hPunctual⟩ := hedging_run True hRun fun _ _ _ _ _ _ => trivial
  refine ⟨fun i t ht => ?_, fun hPending i hi hLate => ?_, ?_, fun k response d hEnds hInTime => ?_⟩
  · exact h.started_by (hDelays i) (Nat.le_refl i) ht
  · refine ⟨_, List.getElem?_eq_getElem (h.starts.symm ▸ Nat.lt_of_not_le fun hNext => ?_)⟩
    exact absurd (h.waits_by hPunctual (hDelays i) hPending hNext hi) (Nat.not_le_of_lt hLate)
  · have hLe : s.state.hedge.active.length * hedgeDelay ≤ s.now + hedgeDelay :=
      Nat.le_trans h.few h.armed
    have hPos : 0 < hedgeDelay := by decide
    rw [← Nat.add_div_right _ hPos]
    exact (Nat.le_div_iff_mul_le hPos).mpr hLe
  · exact hedged_answers_by hRun (hDelays k) hEnds hInTime

/-- Three upstreams: the first one never answers, the second one fails after 40 ms, the third one
answers after 10 ms. -/
def slowUpstreams : List (TimedUpstream Unit) :=
  [⟨⟨"silent", .error ()⟩, none⟩, ⟨⟨"broken", .error ()⟩, some (40 * 10 ^ 6)⟩,
    ⟨⟨"healthy", .ok [7, 7, 0x80]⟩, some (10 * 10 ^ 6)⟩]

/-- Two hedge delays later the third one is asked. -/
def slowEvents : List (Timed.Label HedgeEvent) :=
  [.pass hedgeDelay, .act .tick, .pass hedgeDelay, .act .tick, .pass (10 * 10 ^ 6), .act (.yields 2)]

theorem hedged_latency_slow :
    ∃ s, HedgedAt slowUpstreams s ∧ s.state.startedAt = [0, hedgeDelay, 2 * hedgeDelay] ∧
      s.now = 2 * hedgeDelay + 10 * 10 ^ 6 ∧
      ∃ response', s.state.hedge.result = some (.ok response') := by
  have hView : (run (Timed.step (TimedHedge.act slowUpstreams) (TimedHedge.due slowUpstreams))
        ⟨0, TimedHedge.start slowUpstreams⟩ slowEvents).map
      (fun s => (s.state.startedAt, s.now, s.state.hedge.result.isSome)) =
      some ([0, hedgeDelay, 2 * hedgeDelay], 2 * hedgeDelay + 10 * 10 ^ 6, true) := by decide +kernel
  obtain ⟨s, hRun, hFields⟩ := Option.map_eq_some_iff.mp hView
  obtain ⟨hStarts, hFields⟩ := Prod.mk.inj hFields
  obtain ⟨hNow, hResult⟩ := Prod.mk.inj hFields
  have hAt : HedgedAt slowUpstreams s := ⟨slowEvents, by decide +kernel, hRun⟩
  refine ⟨s, hAt, hStarts, hNow, ?_⟩
  rcases (hedged_latency hAt).2.2.2 2 [7, 7, 0x80] (10 * 10 ^ 6) ⟨_, rfl, rfl, rfl⟩ (by decide) with
    ⟨hNone, -⟩ | hAnswer
  · rw [hNone] at hResult
    cases hResult
  · exact hAnswer

/-- **The strategies in time.** For the same upstreams: an answer that the sequential loop returns
within the timeout has been returned, or another one, by that time in every hedged resolution, and
what a hedged resolution has returned within the timeout has been returned, or another one, in
every race; on the other hand the sequential loop asks no upstream that the hedged one has not asked
when it answers, and the race asks all of them. -/
theorem strategies_in_time {h : Timed.State (TimedHedge ε)} (hHedged : HedgedAt upstreams h) :
    (∀ response, (resolveSequentialAt upstreams).2.result = .ok response →
      (resolveSequentialAt upstreams).1 < upstreamTimeout →
      (h.state.hedge.result = none ∧ h.now ≤ (resolveSequentialAt upstreams).1) ∨
        ∃ response', h.state.hedge.result = some (.ok response') ∧
          ∀ i ∈ (resolveSequentialAt upstreams).2.started, i ∈ h.state.hedge.started) ∧
    ∀ response, h.state.hedge.result = some (.ok response) → h.now < upstreamTimeout →
      ∀ r, RaceAt upstreams r →
        ((r.state.result = none ∧ r.now ≤ h.now) ∨
          ∃ response', r.state.result = some (.ok response')) ∧
        ∀ i ∈ h.state.hedge.started, i ∈ r.state.started := by
  obtain ⟨hInv, -⟩ := hedging_run True hHedged fun _ _ _ _ _ _ => trivial
  refine ⟨fun response hOk hInTime => ?_, fun response hOk hInTime r hRace => ?_⟩
  · have hTurn := sequentialAt_spec upstreams upstreams [] none 0 rfl (Nat.zero_le _)
      (.inl ⟨fun i hi => absurd hi (Nat.not_lt_zero i), rfl⟩)
    obtain ⟨k, d, -, hEnds, hAt, hStarted, hFails⟩ := hTurn.answer response hOk
    -- the loop reaches upstream `i` when all before it have failed, one after the other
    have hReached : ReachedBy upstreams k (turnAt upstreams) := by
      intro i hi
      obtain ⟨err, d, hErr⟩ := hFails i hi
      exact .inr ⟨err, d, hErr, Nat.le_of_eq (turnAt_succ hErr).symm⟩
    have hAt : (resolveSequentialAt upstreams).1 = turnAt upstreams k + d := hAt
    rw [hAt] at hInTime ⊢
    rcases hedged_answers_by hHedged hReached hEnds hInTime with hWaits | ⟨response', hAnswer⟩
    · exact .inl hWaits
    · refine .inr ⟨response', hAnswer, fun i hi => ?_⟩
      obtain ⟨j, hj, hAnswers⟩ := hInv.sound.answer response' hAnswer
      -- the answer is from `k` or later: those before it fail
      have hLater : k ≤ j := by
        by_contra hBefore
        obtain ⟨err, d, hErr⟩ := hFails j (Nat.lt_of_not_le hBefore)
        exact not_answersAt_of_failsAt hErr.failsAt hAnswers
      have hStarted : (resolveSequentialAt upstreams).2.started = List.range' 0 (k + 1 - 0) := hStarted
      rw [hStarted, Nat.sub_zero, ← List.range_eq_range'] at hi
      rw [hInv.sound.order]
      have := List.mem_range.mp hi
      exact List.mem_range.mpr (by omega)
  · obtain ⟨j, t, d, -, hEnds, hLe⟩ := hInv.answer response hOk
    refine ⟨?_, fun i hi => ?_⟩
    · rcases race_answers_by hRace hEnds (by omega) with ⟨hPending, hNow⟩ | hAnswer
      · exact .inl ⟨hPending, by omega⟩
      · exact .inr hAnswer
    · obtain ⟨hRacing, -⟩ := racing_run True hRace fun _ _ _ _ _ _ => trivial
      rw [hRacing.sound.order]
      rw [hInv.sound.order] at hi
      exact List.mem_range.mpr (Nat.lt_of_lt_of_le (List.mem_range.mp hi) hInv.sound.le)

/-- Of the last two of these upstreams the sequential loop has an answer after 50 ms, the hedged
one after 35 ms and the race after 10 ms. -/
theorem strategies_in_time_slow :
    ∃ h r, HedgedAt slowUpstreams.tail h ∧ RaceAt slowUpstreams.tail r ∧
      (resolveSequentialAt slowUpstreams.tail).1 = 50 * 10 ^ 6 ∧ h.now = 35 * 10 ^ 6 ∧
      r.now = 10 * 10 ^ 6 ∧
      (∃ response', h.state.hedge.result = some (.ok response') ∧
        ∀ i ∈ (resolveSequentialAt slowUpstreams.tail).2.started, i ∈ h.state.hedge.started) ∧
      ((r.state.result = none ∧ r.now ≤ h.now) ∨
        ∃ response', r.state.result = some (.ok response')) := by
  have hView : (run (Timed.step (TimedHedge.act slowUpstreams.tail)
          (TimedHedge.due slowUpstreams.tail)) ⟨0, TimedHedge.start slowUpstreams.tail⟩
        [.pass hedgeDelay, .act .tick, .pass (10 * 10 ^ 6), .act (.yields 1)]).map
      (fun h => (h.state.hedge.result.isNone, h.now)) = some (false, 35 * 10 ^ 6) := by
    decide +kernel
  obtain ⟨h, hRun, hFields⟩ := Option.map_eq_some_iff.mp hView
  obtain ⟨hDone, hNow⟩ := Prod.mk.inj hFields
  have hHedged : HedgedAt slowUpstreams.tail h := ⟨_, by decide +kernel, hRun⟩
  have hView : (run (Timed.step (Race.act slowUpstreams.tail) (Race.due slowUpstreams.tail))
        ⟨0, resolveRace (untimed slowUpstreams.tail)⟩ [.pass (10 * 10 ^ 6), .act (.ends 1)]).map
      (fun r => r.now) = some (10 * 10 ^ 6) := by decide +kernel
  obtain ⟨r, hRaceRun, hRaceNow⟩ := Option.map_eq_some_iff.mp hView
  have hRace : RaceAt slowUpstreams.tail r := ⟨_, by decide +kernel, hRaceRun⟩
  obtain ⟨hSequential, hThen⟩ := strategies_in_time hHedged
  have hAnswer := (hSequential [7, 7, 0x80] rfl (by decide +kernel)).resolve_left fun hWaits => by
    rw [hWaits.1] at hDone
    cases hDone
  obtain ⟨response', hOk, hStarted⟩ := hAnswer
  refine ⟨h, r, hHedged, hRace, by decide +kernel, hNow, hRaceNow, ⟨response', hOk, hStarted⟩, ?_⟩
  exact (hThen response' hOk (by rw [hNow]; decide) r hRace).1

end Strategies

end DnsRs.Upstream
