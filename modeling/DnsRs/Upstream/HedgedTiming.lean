import DnsRs.Upstream.Timing

/-!
# The hedged loop in time

Between two attempts of `resolve_hedged` lies one `HEDGE_DELAY` at most, and less if the attempt
that was started last has failed by then.

* `Hedging` — what holds of the loop and its clock at every moment.
* `hedging_run` — it does in every prompt run.
* `hedged_answers_by` — an upstream that is reached by some time and answers within the timeout
  does not leave the loop without an answer.
-/

namespace DnsRs.Upstream

open Lib Wire

variable {ε : Type}

/-! ## The hedged loop -/

/-- What an event does to the hedged loop at its await. -/
inductive HedgeMoves (upstreams : List (SingleUpstream ε)) (h : Hedge ε) :
    HedgeEvent → Hedge ε → Prop where
  | answered {i response} (hMem : i ∈ h.active) (hAnswer : AnswersAt upstreams i response) :
      HedgeMoves upstreams h (.yields i)
        { h with active := h.active.erase i, result := some (.ok response) }
  | replaced {i err} (hMem : i ∈ h.active) (hNext : h.next < upstreams.length) :
      HedgeMoves upstreams h (.yields i)
        { h with
          active := h.active.erase i ++ [h.next], started := h.started ++ [h.next],
          next := h.next + 1, lastErr := some (.failed err) }
  | dropped {i err} (hMem : i ∈ h.active) (hNext : h.next = upstreams.length) :
      HedgeMoves upstreams h (.yields i)
        { h with active := h.active.erase i, lastErr := some (.failed err) }
  | gaveUp {i err} (hMem : i ∈ h.active) (hNext : h.next = upstreams.length) :
      HedgeMoves upstreams h (.yields i)
        { h with
          active := h.active.erase i, lastErr := some (.failed err),
          result := some (.error (.failed err)) }
  | tick (hNext : h.next < upstreams.length) :
      HedgeMoves upstreams h .tick
        { h with
          active := h.active ++ [h.next], started := h.started ++ [h.next], next := h.next + 1 }
  | expire : HedgeMoves upstreams h .expire { h with result := some (.error .allTimedOut) }

section HedgeMoves

variable {upstreams : List (SingleUpstream ε)} {h h' : Hedge ε} {e : HedgeEvent} {timed : Prop}

theorem Hedge.push_eq (hNext : h.next < upstreams.length) : h.push upstreams =
    { h with
      active := h.active ++ [h.next], started := h.started ++ [h.next], next := h.next + 1 } :=
  if_pos hNext

theorem Hedge.turn_eq (hActive : h.active ≠ []) : h.turn upstreams = h := if_neg hActive

/-- **Inversion of `stepHedged`.** -/
theorem stepHedged_moves (hSound : h.Sound upstreams timed)
    (hStep : stepHedged upstreams h e = some h') :
    h.result = none ∧ HedgeMoves upstreams h e h' := by
  cases e with
  | yields i =>
    simp only [stepHedged, Option.ite_none_left_eq_some, not_or, Option.map_eq_some_iff,
      Option.not_isSome_iff_eq_none, not_not] at hStep
    obtain ⟨⟨hPending, -, hMem⟩, upstream, hUp, rfl⟩ := hStep
    refine ⟨hPending, ?_⟩
    split
    · rename_i response hOk
      exact .answered hMem ⟨upstream, hUp, hOk⟩
    · split
      · rename_i err _ hNext
        -- the last upstream has been started: nothing takes the place of this one
        by_cases hIdle : h.active.erase i = []
        · have hTurn : Hedge.turn upstreams
              { h with active := h.active.erase i, lastErr := some (.failed err) } =
            { h with
              active := h.active.erase i, lastErr := some (.failed err),
              result := some (.error (.failed err)) } := by
            unfold Hedge.turn
            rw [if_pos hIdle, if_pos hNext]
            rfl
          rw [hTurn]
          exact .gaveUp hMem hNext
        · rw [Hedge.turn_eq hIdle]
          exact .dropped hMem hNext
      · rename_i err _ hNext
        have hLt : h.next < upstreams.length := Nat.lt_of_le_of_ne hSound.le hNext
        have hPush : Hedge.push upstreams
              { h with active := h.active.erase i, lastErr := some (.failed err) } =
            { h with
              active := h.active.erase i ++ [h.next], started := h.started ++ [h.next],
              next := h.next + 1, lastErr := some (.failed err) } := Hedge.push_eq hLt
        rw [hPush, Hedge.turn_eq (by simp)]
        exact .replaced hMem hLt
  | drained =>
    simp only [stepHedged, Option.ite_none_left_eq_some, not_or,
      Option.not_isSome_iff_eq_none, not_not] at hStep
    obtain ⟨⟨hPending, -, hIdle⟩, -⟩ := hStep
    exact absurd hIdle (hSound.waits hPending).2
  | tick =>
    simp only [stepHedged, Option.ite_none_left_eq_some, not_or, Option.some.injEq,
      Option.not_isSome_iff_eq_none] at hStep
    obtain ⟨⟨hPending, -, hNext⟩, rfl⟩ := hStep
    have hLt : h.next < upstreams.length := Nat.lt_of_le_of_ne hSound.le hNext
    rw [Hedge.push_eq hLt, Hedge.turn_eq (by simp)]
    exact ⟨hPending, .tick hLt⟩
  | expire =>
    simp only [stepHedged, Option.ite_none_left_eq_some, not_or, Option.some.injEq,
      Option.not_isSome_iff_eq_none] at hStep
    obtain ⟨⟨hPending, -⟩, rfl⟩ := hStep
    exact ⟨hPending, .expire⟩

end HedgeMoves

/-- The hedged loop and its clock. `timed` says that `UPSTREAM_TIMEOUT` may have passed. -/
structure Hedging (upstreams : List (TimedUpstream ε)) (timed : Prop) (now : Nat)
    (s : TimedHedge ε) : Prop where
  sound : s.hedge.Sound (untimed upstreams) timed
  starts : s.startedAt.length = s.hedge.next
  first : ∀ t, s.startedAt[0]? = some t → t = 0
  /-- an attempt is started when the hedge delay has passed since the one before it, or earlier,
  and no later than that one has failed -/
  gap : ∀ i t t', s.startedAt[i]? = some t → s.startedAt[i + 1]? = some t' →
    t' ≤ t + hedgeDelay ∧ ∀ err d, EndsIn upstreams i (.error err) d → t' ≤ t + d
  /-- the attempt that was started last still runs, and the timer was set then -/
  timer : s.hedge.result = none → s.hedge.next < upstreams.length →
    ∃ i t, s.hedge.next = i + 1 ∧ i ∈ s.hedge.active ∧ s.startedAt[i]? = some t ∧
      s.hedgeAt = t + hedgeDelay
  armed : s.hedgeAt ≤ now + hedgeDelay
  few : s.hedge.active.length * hedgeDelay ≤ s.hedgeAt
  answer : ∀ response, s.hedge.result = some (.ok response) →
    ∃ i t d, s.startedAt[i]? = some t ∧ EndsIn upstreams i (.ok response) d ∧ t + d ≤ now

section Hedging

variable {upstreams : List (TimedUpstream ε)} {timed : Prop} {now : Nat} {s u : TimedHedge ε}
  {e : HedgeEvent}

theorem Hedging.pass (h : Hedging upstreams timed now s) (duration : Nat) :
    Hedging upstreams timed (now + duration) s where
  sound := h.sound
  starts := h.starts
  first := h.first
  gap := h.gap
  timer := h.timer
  armed := by
    have := h.armed
    omega
  few := h.few
  answer response hResult := by
    obtain ⟨i, t, d, hStart, hEnds, hLe⟩ := h.answer response hResult
    exact ⟨i, t, d, hStart, hEnds, by omega⟩

/-! ### What is due -/

theorem due_of_result {result : Except (ResolveError ε) Bytes}
    (h : s.hedge.result = some result) : Timed.Punctual (TimedHedge.due upstreams) now s := by
  intro e t ht
  unfold TimedHedge.due at ht
  rw [h] at ht
  cases ht

theorem due_yields {i : Nat} {t : Nat} (hPending : s.hedge.result = none)
    (h : t ∈ TimedHedge.due upstreams s (.yields i)) :
    i ∈ s.hedge.active ∧ ∃ start latency upstream, s.startedAt[i]? = some start ∧
      upstreams[i]? = some upstream ∧ upstream.latency = some latency ∧ t = start + latency := by
  simp only [TimedHedge.due, hPending, Option.isSome_none, Bool.false_eq_true, if_false,
    Option.mem_def, Option.ite_none_right_eq_some, Option.bind_eq_some_iff,
    Option.map_eq_some_iff] at h
  obtain ⟨hMem, start, hStart, upstream, hUp, latency, hLatency, rfl⟩ := h
  exact ⟨hMem, start, latency, upstream, hStart, hUp, hLatency, rfl⟩

theorem yields_due {i start d : Nat} {outcome : Except ε Bytes} (hPending : s.hedge.result = none)
    (hMem : i ∈ s.hedge.active) (hStart : s.startedAt[i]? = some start)
    (hEnds : EndsIn upstreams i outcome d) :
    start + d ∈ TimedHedge.due upstreams s (.yields i) := by
  obtain ⟨upstream, hUp, -, hLatency⟩ := hEnds
  simp only [TimedHedge.due, hPending, Option.isSome_none, Bool.false_eq_true, if_false, hMem,
    if_true, hStart, hUp, hLatency, Option.bind_some, Option.map_some, Option.mem_def]

theorem tick_due (hPending : s.hedge.result = none) (hNext : s.hedge.next < upstreams.length) :
    s.hedgeAt ∈ TimedHedge.due upstreams s .tick := by
  simp only [TimedHedge.due, hPending, Option.isSome_none, Bool.false_eq_true, if_false, hNext,
    if_true, Option.mem_def]

theorem expire_due (hPending : s.hedge.result = none) :
    upstreamTimeout ∈ TimedHedge.due upstreams s .expire := by
  simp only [TimedHedge.due, hPending, Option.isSome_none, Bool.false_eq_true, if_false,
    Option.mem_def]

/-- What is due while the loop waits is due in the future, if the attempts that run have not
ended. -/
theorem punctual_of_pending (h : u.hedge.result = none) (hActive : u.hedge.active ≠ [])
    (hYields : ∀ i ∈ u.hedge.active, ∀ start, u.startedAt[i]? = some start →
      ∀ upstream, upstreams[i]? = some upstream → ∀ latency, upstream.latency = some latency →
      now ≤ start + latency)
    (hTick : u.hedge.next < upstreams.length → now ≤ u.hedgeAt) (hExpire : now ≤ upstreamTimeout) :
    Timed.Punctual (TimedHedge.due upstreams) now u := by
  intro e t ht
  cases e with
  | yields i =>
    obtain ⟨hMem, start, latency, upstream, hStart, hUp, hLatency, rfl⟩ := due_yields h ht
    exact hYields i hMem start hStart upstream hUp latency hLatency
  | drained =>
    simp only [TimedHedge.due, h, Option.isSome_none, Bool.false_eq_true, if_false, hActive,
      Option.not_mem_none] at ht
  | tick =>
    simp only [TimedHedge.due, h, Option.isSome_none, Bool.false_eq_true, if_false, Option.mem_def,
      Option.ite_none_right_eq_some, Option.some.injEq] at ht
    exact ht.2 ▸ hTick ht.1
  | expire =>
    simp only [TimedHedge.due, h, Option.isSome_none, Bool.false_eq_true, if_false, Option.mem_def,
      Option.some.injEq] at ht
    exact ht ▸ hExpire

/-- The events the loop waits for. -/
def TimedHedge.events (s : TimedHedge ε) : List HedgeEvent :=
  .drained :: .tick :: .expire :: s.hedge.active.map .yields

theorem TimedHedge.mem_events_of_due {t : Nat} (h : t ∈ TimedHedge.due upstreams s e) :
    e ∈ s.events := by
  cases e with
  | drained | tick | expire => simp [TimedHedge.events]
  | yields i =>
    cases hPending : s.hedge.result with
    | some result =>
      simp only [TimedHedge.due, hPending, Option.isSome_some, if_true, Option.not_mem_none] at h
    | none =>
      have := (due_yields hPending h).1
      simpa [TimedHedge.events] using this

theorem TimedHedge.prompt_iff {t : Timed.State (TimedHedge ε)} {duration : Nat} :
    (∀ e ∈ t.state.events, ∀ time ∈ TimedHedge.due upstreams t.state e, t.now + duration ≤ time) ↔
      Timed.Prompt (TimedHedge.due upstreams) t (.pass duration) :=
  ⟨fun h e time hTime => h e (TimedHedge.mem_events_of_due hTime) time hTime, fun h e _ => h e⟩

instance TimedHedge.decidablePrompt (t : Timed.State (TimedHedge ε)) :
    ∀ label, Decidable (Timed.Prompt (TimedHedge.due upstreams) t label)
  | .pass _ => decidable_of_iff _ TimedHedge.prompt_iff
  | .act _ => isTrue trivial

/-! ### One event -/

theorem TimedHedge.follow_same (hedge : Hedge ε) (h : hedge.next = s.hedge.next) :
    s.follow now hedge = { s with hedge := hedge } := if_pos h

theorem TimedHedge.follow_next {hedge : Hedge ε} (h : hedge.next = s.hedge.next + 1) :
    s.follow now hedge = ⟨hedge, s.startedAt ++ [now], now + hedgeDelay⟩ :=
  if_neg (by omega)

/-- The loop returns. -/
theorem Hedging.returned (h : Hedging upstreams timed now s) {hedge : Hedge ε}
    {result : Except (ResolveError ε) Bytes} (hSound : hedge.Sound (untimed upstreams) timed)
    (hNext : hedge.next = s.hedge.next) (hActive : hedge.active.length ≤ s.hedge.active.length)
    (hResult : hedge.result = some result)
    (hAnswer : ∀ response, result = .ok response →
      ∃ i t d, s.startedAt[i]? = some t ∧ EndsIn upstreams i (.ok response) d ∧ t + d ≤ now) :
    Hedging upstreams timed now (s.follow now hedge) ∧
      Timed.Punctual (TimedHedge.due upstreams) now (s.follow now hedge) := by
  rw [TimedHedge.follow_same hedge hNext]
  refine ⟨⟨hSound, hNext ▸ h.starts, h.first, h.gap, ?_, h.armed, ?_, ?_⟩, due_of_result hResult⟩
  · intro hPending
    rw [hResult] at hPending
    cases hPending
  · exact Nat.le_trans (Nat.mul_le_mul_right _ hActive) h.few
  · intro response hOk
    rw [hResult] at hOk
    exact hAnswer response (Option.some.inj hOk)

/-- The loop starts the next attempt, with the others that still run. -/
theorem Hedging.next (h : Hedging upstreams timed now s)
    (hPunctual : Timed.Punctual (TimedHedge.due upstreams) now s) {hedge : Hedge ε}
    {others : List Nat} (hPending : s.hedge.result = none)
    (hSound : hedge.Sound (untimed upstreams) timed) (hResult : hedge.result = none)
    (hRoom : s.hedge.next < upstreams.length) (hNext : hedge.next = s.hedge.next + 1)
    (hActive : hedge.active = others ++ [s.hedge.next]) (hOthers : ∀ i ∈ others, i ∈ s.hedge.active)
    (hFew : (others.length + 1) * hedgeDelay ≤ now + hedgeDelay) :
    Hedging upstreams timed now (s.follow now hedge) ∧
      Timed.Punctual (TimedHedge.due upstreams) now (s.follow now hedge) := by
  obtain ⟨last, start, hLast, hRuns, hStart, hTimer⟩ := h.timer hPending hRoom
  have hNew : (s.startedAt ++ [now])[s.hedge.next]? = some now := by
    rw [List.getElem?_append_right (Nat.le_of_eq h.starts), h.starts, Nat.sub_self]
    rfl
  -- the attempts before keep their times
  have hOld : ∀ {i t : Nat}, i < s.hedge.next → (s.startedAt ++ [now])[i]? = some t →
      s.startedAt[i]? = some t := by
    intro i t hi ht
    rwa [List.getElem?_append_left (h.starts ▸ hi)] at ht
  have hLength : (s.startedAt ++ [now]).length = s.hedge.next + 1 := by
    rw [List.length_append, h.starts]
    rfl
  have hExpire := hPunctual .expire _ (expire_due hPending)
  rw [TimedHedge.follow_next hNext]
  refine ⟨⟨hSound, hNext ▸ hLength, ?_, ?_, ?_, Nat.le_refl _, ?_, ?_⟩, ?_⟩
  · intro t ht
    exact h.first t (hOld (by omega) ht)
  · intro i t t' ht ht'
    have hi : i + 1 < s.hedge.next + 1 := hLength ▸ (List.getElem?_eq_some_iff.mp ht').1
    rcases Nat.lt_succ_iff_lt_or_eq.mp hi with hi | hi
    · exact h.gap i t t' (hOld (by omega) ht) (hOld hi ht')
    · -- the new one: the timer and the last attempt were both still waited for
      obtain rfl : i = last := by omega
      rw [hi, hNew] at ht'
      cases ht'
      rw [hOld (by omega) ht] at hStart
      cases hStart
      refine ⟨?_, fun err d hEnds => ?_⟩
      · rw [← hTimer]
        exact hPunctual .tick _ (tick_due hPending hRoom)
      · exact hPunctual (.yields i) _ (yields_due hPending hRuns (hOld (by omega) ht) hEnds)
  · intro _ _
    refine ⟨s.hedge.next, now, hNext, ?_, hNew, rfl⟩
    rw [hActive]
    exact List.mem_append_right _ (List.mem_singleton_self _)
  · show hedge.active.length * hedgeDelay ≤ now + hedgeDelay
    rw [hActive, List.length_append]
    exact hFew
  · intro response hOk
    rw [hResult] at hOk
    cases hOk
  · refine punctual_of_pending hResult (by rw [hActive]; simp) ?_ (fun _ => Nat.le_add_right _ _)
      hExpire
    intro i hi t ht upstream hUp latency hLatency
    have hMem : i ∈ others ++ [s.hedge.next] := hActive ▸ hi
    rcases List.mem_append.mp hMem with hMem | hMem
    · have hRuns := hOthers i hMem
      have hBegun := (h.sound.waits hPending).1.begun i hRuns
      exact hPunctual (.yields i) _
        (yields_due hPending hRuns (hOld hBegun ht) ⟨upstream, hUp, rfl, hLatency⟩)
    · cases List.mem_singleton.mp hMem
      rw [hNew] at ht
      cases ht
      exact Nat.le_add_right _ _

/-- **One event that is due.** -/
theorem hedging_act (h : Hedging upstreams timed now s)
    (hPunctual : Timed.Punctual (TimedHedge.due upstreams) now s)
    (hTime : e = .expire → timed) (hDue : Timed.Due (TimedHedge.due upstreams) ⟨now, s⟩ e)
    (hAct : TimedHedge.act upstreams now s e = some u) :
    Hedging upstreams timed now u ∧ Timed.Punctual (TimedHedge.due upstreams) now u := by
  obtain ⟨hedge, hStep, rfl⟩ := Option.map_eq_some_iff.mp hAct
  have hSound := (h.sound.step hTime hStep).1
  obtain ⟨hPending, hMoves⟩ := stepHedged_moves h.sound hStep
  obtain ⟨t, hDue, hLe⟩ := hDue
  cases hMoves with
  | @answered i response hMem hAnswer =>
    refine h.returned hSound rfl List.erase_sublist.length_le rfl ?_
    rintro response' ⟨⟩
    obtain ⟨-, start, latency, upstream, hStart, hUp, hLatency, rfl⟩ := due_yields hPending hDue
    obtain ⟨upstream', hUp', hOk⟩ := hAnswer
    rw [untimed_getElem?, hUp] at hUp'
    cases hUp'
    exact ⟨i, start, latency, hStart, ⟨upstream, hUp, hOk, hLatency⟩, hLe⟩
  | @replaced i err hMem hNext =>
    rw [untimed_length] at hNext
    refine h.next hPunctual hPending hSound hPending hNext rfl rfl
      (fun j hj => List.mem_of_mem_erase hj) ?_
    -- it takes the place of the one that has failed
    have hCount : (s.hedge.active.erase i).length + 1 = s.hedge.active.length := by
      rw [List.length_erase_of_mem hMem]
      exact Nat.sub_add_cancel (List.length_pos_of_mem hMem)
    rw [hCount]
    exact Nat.le_trans h.few h.armed
  | @dropped i err hMem hNext =>
    rw [untimed_length] at hNext
    rw [TimedHedge.follow_same { s.hedge with
      active := s.hedge.active.erase i, lastErr := some (.failed err) } rfl]
    refine ⟨⟨hSound, h.starts, h.first, h.gap, fun _ hRoom => absurd hNext (Nat.ne_of_lt hRoom),
      h.armed, ?_, h.answer⟩, ?_⟩
    · exact Nat.le_trans (Nat.mul_le_mul_right _ List.erase_sublist.length_le) h.few
    · refine punctual_of_pending hPending (hSound.waits hPending).2 ?_
        (fun hRoom => absurd hNext (Nat.ne_of_lt hRoom)) (hPunctual .expire _ (expire_due hPending))
      intro j hj t ht upstream hUp latency hLatency
      exact hPunctual (.yields j) _ (yields_due hPending (List.mem_of_mem_erase hj) ht
        ⟨upstream, hUp, rfl, hLatency⟩)
  | gaveUp hMem hNext =>
    refine h.returned hSound rfl List.erase_sublist.length_le rfl ?_
    rintro response' ⟨⟩
  | tick hNext =>
    rw [untimed_length] at hNext
    refine h.next hPunctual hPending hSound hPending hNext rfl rfl (fun j hj => hj) ?_
    simp only [TimedHedge.due, hPending, Option.isSome_none, Bool.false_eq_true, if_false, hNext,
      if_true, Option.mem_def, Option.some.injEq] at hDue
    have hFew := h.few
    have hLe : t ≤ now := hLe
    rw [Nat.succ_mul]
    omega
  | expire =>
    refine h.returned hSound rfl (Nat.le_refl _) rfl ?_
    rintro response' ⟨⟩

theorem hedging_start (upstreams : List (TimedUpstream ε)) (timed : Prop) :
    Hedging upstreams timed 0 (TimedHedge.start upstreams) ∧
      Timed.Punctual (TimedHedge.due upstreams) 0 (TimedHedge.start upstreams) := by
  refine ⟨?_, fun e t _ => Nat.zero_le t⟩
  have hSound := (resolveHedged_sound (untimed upstreams) timed).1
  by_cases hNone : untimed upstreams = []
  · have hStart : resolveHedged (untimed upstreams) =
        ⟨[], 0, none, [], some (.error .noUpstreams), none⟩ := if_pos hNone
    unfold TimedHedge.start
    rw [hStart] at hSound ⊢
    exact ⟨hSound, rfl, fun t ht => (by cases ht), fun i t t' ht => (by cases ht),
      fun h => (by cases h), Nat.le_add_left _ _, by simp [TimedHedge.follow], fun response h => (by cases h)⟩
  · have hLt : 0 < (untimed upstreams).length := List.length_pos_of_ne_nil hNone
    have hStart : resolveHedged (untimed upstreams) = ⟨[0], 1, none, [0], none, none⟩ := by
      unfold resolveHedged
      rw [if_neg hNone, Hedge.turn, if_pos rfl, if_neg (Nat.ne_of_lt hLt)]
      exact Hedge.push_eq hLt
    unfold TimedHedge.start
    rw [hStart] at hSound ⊢
    refine ⟨hSound, rfl, ?_, ?_, ?_, Nat.le_refl _, by simp [TimedHedge.follow], ?_⟩
    · rintro t ⟨⟩
      rfl
    · intro i t t' ht ht'
      cases ht'
    · intro _ _
      exact ⟨0, 0, rfl, List.mem_singleton_self 0, rfl, (Nat.zero_add _).symm⟩
    · rintro response ⟨⟩

/-! ### Prompt runs -/

/-- **Every prompt run.** Whether the timeout can have passed is for the caller to say, from what
holds at the moment it is due. -/
theorem hedging_run (timed : Prop) {t : Timed.State (TimedHedge ε)} (hRun : HedgedAt upstreams t)
    (hTime : ∀ now s, Hedging upstreams timed now s →
      Timed.Punctual (TimedHedge.due upstreams) now s → s.hedge.result = none →
      upstreamTimeout ≤ now → timed) :
    Hedging upstreams timed t.now t.state ∧
      Timed.Punctual (TimedHedge.due upstreams) t.now t.state := by
  obtain ⟨labels, hPrompt, hRun⟩ := hRun
  obtain ⟨hStart, hPunctual⟩ := hedging_start upstreams timed
  refine Timed.prompt_invariant (fun now s duration h => h.pass duration) ?_ hStart hPunctual hPrompt
    hRun
  intro now s e u h hPunctual hDue hAct
  refine hedging_act h hPunctual (fun hExpire => ?_) hDue hAct
  subst hExpire
  obtain ⟨hedge, hStep, -⟩ := Option.map_eq_some_iff.mp hAct
  have hPending := (stepHedged_moves h.sound hStep).1
  obtain ⟨t, ht, hLe⟩ := hDue
  have hAt : upstreamTimeout ∈ TimedHedge.due upstreams s .expire := expire_due hPending
  cases hAt.symm.trans ht
  exact hTime now s h hPunctual hPending hLe

/-- A bound on the time an upstream is reached: the one before it has had its hedge delay by
then, or has failed. -/
def ReachedBy (upstreams : List (TimedUpstream ε)) (k : Nat) (reached : Nat → Nat) : Prop :=
  ∀ i < k, reached i + hedgeDelay ≤ reached (i + 1) ∨
    ∃ err d, EndsIn upstreams i (.error err) d ∧ reached i + d ≤ reached (i + 1)

variable {k : Nat} {reached : Nat → Nat}

theorem ReachedBy.mono (h : ReachedBy upstreams k reached) {i j : Nat} (hij : i ≤ j) (hj : j ≤ k) :
    reached i ≤ reached j := by
  induction j, hij using Nat.le_induction with
  | base => exact Nat.le_refl _
  | succ j hij ih =>
    have := ih (by omega)
    rcases h j (by omega) with hLe | ⟨-, d, -, hLe⟩ <;> omega

theorem Hedging.started_by (h : Hedging upstreams timed now s) (hReached : ReachedBy upstreams k reached)
    {i t : Nat} (hi : i ≤ k) (ht : s.startedAt[i]? = some t) : t ≤ reached i := by
  induction i generalizing t with
  | zero =>
    rw [h.first t ht]
    exact Nat.zero_le _
  | succ i ih =>
    obtain ⟨t₀, ht₀⟩ : ∃ t₀, s.startedAt[i]? = some t₀ := by
      have := (List.getElem?_eq_some_iff.mp ht).1
      exact ⟨_, List.getElem?_eq_getElem (Nat.lt_of_succ_lt this)⟩
    have hBefore := ih (by omega) ht₀
    obtain ⟨hDelay, hFailed⟩ := h.gap i t₀ t ht₀ ht
    rcases hReached i hi with hLe | ⟨err, d, hEnds, hLe⟩
    · omega
    · have := hFailed err d hEnds
      omega

/-- While there is no result, an upstream is started by the time it is reached by: the timer for
the next one runs. -/
theorem Hedging.waits_by (h : Hedging upstreams timed now s)
    (hPunctual : Timed.Punctual (TimedHedge.due upstreams) now s)
    (hReached : ReachedBy upstreams k reached) (hPending : s.hedge.result = none)
    (hNext : s.hedge.next ≤ k) (hk : k < upstreams.length) : now ≤ reached k := by
  have hRoom := Nat.lt_of_le_of_lt hNext hk
  obtain ⟨i, t, hLast, hRuns, hStart, hTimer⟩ := h.timer hPending hRoom
  have hTick := hPunctual .tick _ (tick_due hPending hRoom)
  have hStarted := h.started_by hReached (by omega) hStart
  have hMono := hReached.mono hNext (Nat.le_refl k)
  rw [hLast] at hMono
  rcases hReached i (by omega) with hLe | ⟨err, d', hFails, hLe⟩
  · omega
  · have := hPunctual (.yields i) _ (yields_due hPending hRuns hStart hFails)
    omega

/-- One that would answer is started by then, and has not had its time yet. -/
theorem Hedging.pending_by (h : Hedging upstreams timed now s)
    (hPunctual : Timed.Punctual (TimedHedge.due upstreams) now s)
    (hReached : ReachedBy upstreams k reached) {response : Bytes} {d : Nat}
    (hEnds : EndsIn upstreams k (.ok response) d) (hPending : s.hedge.result = none) :
    now ≤ reached k + d := by
  obtain ⟨hOpen, -⟩ := h.sound.waits hPending
  by_cases hNext : s.hedge.next ≤ k
  · have := h.waits_by hPunctual hReached hPending hNext hEnds.lt
    omega
  · have hBegun : k < s.hedge.next := Nat.lt_of_not_le hNext
    have hRuns : k ∈ s.hedge.active := by
      by_contra hOut
      exact not_answersAt_of_failsAt (hOpen.settled k hBegun hOut) hEnds.answersAt
    obtain ⟨t, ht⟩ : ∃ t, s.startedAt[k]? = some t :=
      ⟨_, List.getElem?_eq_getElem (h.starts.symm ▸ hBegun)⟩
    have := h.started_by hReached (Nat.le_refl k) ht
    have := hPunctual (.yields k) _ (yields_due hPending hRuns ht hEnds)
    omega

/-- An upstream that would answer within the timeout, so reached, does not leave the loop without
an answer. -/
theorem hedged_answers_by {t : Timed.State (TimedHedge ε)} (hRun : HedgedAt upstreams t)
    (hReached : ReachedBy upstreams k reached) {response : Bytes} {d : Nat}
    (hEnds : EndsIn upstreams k (.ok response) d) (hInTime : reached k + d < upstreamTimeout) :
    (t.state.hedge.result = none ∧ t.now ≤ reached k + d) ∨
      ∃ response', t.state.hedge.result = some (.ok response') := by
  -- the timeout is never due before the answer is
  obtain ⟨h, hPunctual⟩ := hedging_run False hRun
    fun now s h hPunctual hPending hLate => by
      have := h.pending_by hPunctual hReached hEnds hPending
      omega
  cases hResult : t.state.hedge.result with
  | none => exact .inl ⟨rfl, h.pending_by hPunctual hReached hEnds hResult⟩
  | some result =>
    cases result with
    | ok response' => exact .inr ⟨response', rfl⟩
    | error err =>
      have hFails := (h.sound.failed err hResult).resolve_left id k (untimed_length.symm ▸ hEnds.lt)
      exact absurd hEnds.answersAt (not_answersAt_of_failsAt hFails)

end Hedging

end DnsRs.Upstream
