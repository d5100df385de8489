import DnsRs.Lib.Timed
import DnsRs.Upstream.Strategies

/-!
# The upstream strategies in time

`Strategies` leaves the order of events to the labels. Here every upstream has a latency, the
time its attempt takes from its start, and the clock decides: `resolve_sequential` spends one
deadline on all its attempts, `resolve_hedged` starts an attempt when `HEDGE_DELAY` has passed
since the last one was started, or when one has failed, and `resolve_race` starts all of them at
once. The events are those of `Strategies`; what is new is when they are due.

The executor is taken to be prompt: what is ready is polled before time passes. Times are in
nanoseconds since the call.

* `sequentialAt_refines` — the clock only picks among the timings of the untimed loop; the other
  two take the steps of `stepHedged` and `stepRace`.
* `sequentialAt_spec` — when the loop in order comes to which upstream.
-/

namespace DnsRs.Upstream

open Lib Wire

variable {ε : Type}

/-- `UPSTREAM_TIMEOUT` -/
def upstreamTimeout : Nat := 5 * 10 ^ 9

/-- `HEDGE_DELAY` -/
def hedgeDelay : Nat := 25 * 10 ^ 6

structure TimedUpstream (ε : Type) extends SingleUpstream ε where
  /-- how long an attempt takes, if it ever ends -/
  latency : Option Nat

/-- The upstreams as the untimed model has them. -/
def untimed (upstreams : List (TimedUpstream ε)) : List (SingleUpstream ε) :=
  upstreams.map TimedUpstream.toSingleUpstream

/-! ## Sequential -/

/-- The loop of `resolve_sequential` from the upstream at `index` on, at the time `now`: when it
returns, and with what. -/
def sequentialAt : Nat → Nat → List (TimedUpstream ε) → Option (ResolveError ε) → Nat × Attempts ε
  | now, _, [], lastErr => (now, ⟨[], .error (lastErr.getD .noUpstreams)⟩)
  | now, index, upstream :: rest, _ =>
    let remaining := upstreamTimeout - now
    if remaining = 0 then (now, ⟨[], .error (.timedOut upstream.label)⟩)
    else
      match upstream.latency.filter (· ≤ remaining) with
      | some latency =>
        match upstream.outcome with
        | .ok response => (now + latency, ⟨[index], .ok response⟩)
        | .error err =>
          let later := sequentialAt (now + latency) (index + 1) rest (some (.failed err))
          (later.1, ⟨index :: later.2.started, later.2.result⟩)
      | none =>
        -- `timeout` gives up at the deadline
        let later := sequentialAt (now + remaining) (index + 1) rest
          (some (.timedOut upstream.label))
        (later.1, ⟨index :: later.2.started, later.2.result⟩)

def resolveSequentialAt (upstreams : List (TimedUpstream ε)) : Nat × Attempts ε :=
  sequentialAt 0 0 upstreams none

/-! ## Hedged -/

structure TimedHedge (ε : Type) where
  hedge : Hedge ε
  /-- when the attempts were started, in list order -/
  startedAt : List Nat
  /-- when the `sleep` of the `select!` ends -/
  hedgeAt : Nat

section Hedged

variable (upstreams : List (TimedUpstream ε))

/-- The attempt that an event has started, if any, and the next `sleep`. -/
def TimedHedge.follow (s : TimedHedge ε) (now : Nat) (hedge : Hedge ε) : TimedHedge ε :=
  if hedge.next = s.hedge.next then { s with hedge := hedge }
  else ⟨hedge, s.startedAt ++ [now], now + hedgeDelay⟩

def TimedHedge.start : TimedHedge ε :=
  TimedHedge.follow ⟨⟨[], 0, none, [], none, none⟩, [], hedgeDelay⟩ 0
    (resolveHedged (untimed upstreams))

def TimedHedge.act (now : Nat) (s : TimedHedge ε) (e : HedgeEvent) : Option (TimedHedge ε) :=
  (stepHedged (untimed upstreams) s.hedge e).map (s.follow now)

/-- When an event is due, while there is no result. -/
def TimedHedge.due (s : TimedHedge ε) (e : HedgeEvent) : Option Nat :=
  if s.hedge.result.isSome then none
  else
    match e with
    | .yields i =>
      if i ∈ s.hedge.active then
        (s.startedAt[i]?).bind fun t => (upstreams[i]?).bind fun upstream =>
          upstream.latency.map (t + ·)
      else none
    | .drained => if s.hedge.active = [] then some 0 else none
    | .tick => if s.hedge.next < upstreams.length then some s.hedgeAt else none
    | .expire => some upstreamTimeout

/-- The hedged loop at some moment of a prompt run. -/
def HedgedAt (s : Timed.State (TimedHedge ε)) : Prop :=
  ∃ labels, Guarded (Timed.step (TimedHedge.act upstreams) (TimedHedge.due upstreams))
      (Timed.Prompt (TimedHedge.due upstreams)) ⟨0, TimedHedge.start upstreams⟩ labels ∧
    run (Timed.step (TimedHedge.act upstreams) (TimedHedge.due upstreams))
      ⟨0, TimedHedge.start upstreams⟩ labels = some s

end Hedged

/-! ## Race -/

section Race

variable (upstreams : List (TimedUpstream ε))

def Race.act (_ : Nat) (r : Race ε) (e : RaceEvent) : Option (Race ε) :=
  stepRace (untimed upstreams) r e

/-- All attempts are started at once, each with a timeout of its own. -/
def Race.due (r : Race ε) : RaceEvent → Option Nat
  | .ends i =>
    if r.result.isNone ∧ i ∈ r.running then (upstreams[i]?).bind TimedUpstream.latency else none
  | .expires i => if r.result.isNone ∧ i ∈ r.running then some upstreamTimeout else none

/-- The race at some moment of a prompt run. -/
def RaceAt (s : Timed.State (Race ε)) : Prop :=
  ∃ labels, Guarded (Timed.step (Race.act upstreams) (Race.due upstreams))
      (Timed.Prompt (Race.due upstreams)) ⟨0, resolveRace (untimed upstreams)⟩ labels ∧
    run (Timed.step (Race.act upstreams) (Race.due upstreams))
      ⟨0, resolveRace (untimed upstreams)⟩ labels = some s

end Race

/-! ## Outcomes with their latencies -/

/-- An attempt at this upstream comes to this outcome after this time. -/
def EndsIn (upstreams : List (TimedUpstream ε)) (i : Nat) (outcome : Except ε Bytes) (latency : Nat) :
    Prop :=
  ∃ upstream, upstreams[i]? = some upstream ∧ upstream.outcome = outcome ∧
    upstream.latency = some latency

section Outcomes

variable {upstreams : List (TimedUpstream ε)} {i d : Nat} {response : Bytes} {err : ε}

theorem untimed_getElem? : (untimed upstreams)[i]? =
    (upstreams[i]?).map TimedUpstream.toSingleUpstream := List.getElem?_map

theorem untimed_length : (untimed upstreams).length = upstreams.length := List.length_map _

theorem EndsIn.answersAt (h : EndsIn upstreams i (.ok response) d) :
    AnswersAt (untimed upstreams) i response := by
  obtain ⟨upstream, hUp, hOk, -⟩ := h
  exact ⟨upstream.toSingleUpstream, by rw [untimed_getElem?, hUp]; rfl, hOk⟩

theorem EndsIn.failsAt (h : EndsIn upstreams i (.error err) d) : FailsAt (untimed upstreams) i := by
  obtain ⟨upstream, hUp, hErr, -⟩ := h
  exact ⟨upstream.toSingleUpstream, err, by rw [untimed_getElem?, hUp]; rfl, hErr⟩

theorem EndsIn.lt {outcome : Except ε Bytes} (h : EndsIn upstreams i outcome d) :
    i < upstreams.length := by
  obtain ⟨upstream, hUp, -⟩ := h
  exact (List.getElem?_eq_some_iff.mp hUp).1

end Outcomes

/-! ## The loop in order -/

section Sequential

variable {upstreams : List (TimedUpstream ε)}

/-- The clock picks one of the timings that the untimed loop leaves open. -/
theorem sequentialAt_refines (now index : Nat) (upstreams : List (TimedUpstream ε))
    (lastErr : Option (ResolveError ε)) :
    ∃ timings, timings.map Prod.fst = untimed upstreams ∧
      (sequentialAt now index upstreams lastErr).2 = sequentialFrom index timings lastErr := by
  induction upstreams generalizing now index lastErr with
  | nil => exact ⟨[], rfl, rfl⟩
  | cons upstream rest ih =>
    rw [sequentialAt]
    dsimp only
    split
    · refine ⟨(untimed (upstream :: rest)).map (·, .late), ?_, rfl⟩
      rw [List.map_map]
      exact List.map_id' _
    · split
      · rename_i latency hLatency
        split
        · rename_i response hOk
          refine ⟨(untimed (upstream :: rest)).map (·, .answers), ?_, ?_⟩
          · rw [List.map_map]
            exact List.map_id' _
          · show _ = sequentialFrom index ((upstream.toSingleUpstream, Timing.answers) :: _) lastErr
            rw [sequentialFrom, hOk]
        · rename_i err hErr
          obtain ⟨timings, hUntimed, hLater⟩ := ih (now + latency) (index + 1) (some (.failed err))
          refine ⟨(upstream.toSingleUpstream, .answers) :: timings, ?_, ?_⟩
          · rw [List.map_cons, hUntimed]
            rfl
          · rw [sequentialFrom, hErr, hLater]
      · obtain ⟨timings, hUntimed, hLater⟩ := ih (now + (upstreamTimeout - now)) (index + 1)
          (some (.timedOut upstream.label))
        refine ⟨(upstream.toSingleUpstream, .expires) :: timings, ?_, ?_⟩
        · rw [List.map_cons, hUntimed]
          rfl
        · rw [sequentialFrom, hLater]

/-- When `resolve_sequential` comes to an upstream, if all before it have failed. -/
def turnAt (upstreams : List (TimedUpstream ε)) (i : Nat) : Nat :=
  ((upstreams.take i).map fun upstream => upstream.latency.getD 0).sum

theorem turnAt_succ {i d : Nat} {outcome : Except ε Bytes} (h : EndsIn upstreams i outcome d) :
    turnAt upstreams (i + 1) = turnAt upstreams i + d := by
  obtain ⟨upstream, hUp, -, hLatency⟩ := h
  unfold turnAt
  rw [List.take_add_one, hUp]
  simp [hLatency]

/-- What the loop has come to: it is in time, and an answer is the first one in list order, with
the latencies before it added up. -/
structure InTurn (upstreams : List (TimedUpstream ε)) (first now : Nat) (out : Nat × Attempts ε) :
    Prop where
  late : now ≤ out.1
  inTime : out.1 ≤ upstreamTimeout
  answer : ∀ response, out.2.result = .ok response →
    ∃ k d, first ≤ k ∧ EndsIn upstreams k (.ok response) d ∧ out.1 = turnAt upstreams k + d ∧
      out.2.started = List.range' first (k + 1 - first) ∧
      ∀ i < k, ∃ err d, EndsIn upstreams i (.error err) d

/-- The rest of the loop, with the attempt before it. -/
theorem InTurn.cons {index now now' : Nat} {out : Nat × Attempts ε}
    (h : InTurn upstreams (index + 1) now' out) (hNow : now ≤ now') :
    InTurn upstreams index now (out.1, ⟨index :: out.2.started, out.2.result⟩) where
  late := Nat.le_trans hNow h.late
  inTime := h.inTime
  answer response hOk := by
    obtain ⟨k, d, hFrom, hEnds, hAt, hStarted, hFails⟩ := h.answer response hOk
    refine ⟨k, d, Nat.le_of_succ_le hFrom, hEnds, hAt, ?_, hFails⟩
    show index :: out.2.started = List.range' index (k + 1 - index)
    have hLength : k + 1 - index = (k + 1 - (index + 1)) + 1 := by omega
    rw [hStarted, hLength, List.range'_succ]

theorem sequentialAt_spec (all : List (TimedUpstream ε)) :
    ∀ (rest done : List (TimedUpstream ε)) (lastErr : Option (ResolveError ε)) (now : Nat),
      all = done ++ rest → now ≤ upstreamTimeout →
      ((∀ i < done.length, ∃ err d, EndsIn all i (.error err) d) ∧ now = turnAt all done.length ∨
        now = upstreamTimeout) →
      InTurn all done.length now (sequentialAt now done.length rest lastErr) := by
  -- by induction on the upstreams that were not asked yet: all before them have failed in time,
  -- or the deadline has passed
  intro rest
  induction rest with
  | nil =>
    intro done lastErr now hAll hNow hBefore
    exact ⟨Nat.le_refl _, hNow, fun response hOk => by cases hOk⟩
  | cons upstream rest ih =>
    intro done lastErr now hAll hNow hBefore
    have hAt : all[done.length]? = some upstream := by
      rw [hAll, List.getElem?_append_right (Nat.le_refl _), Nat.sub_self]
      rfl
    have hDone : (done ++ [upstream]).length = done.length + 1 := List.length_append
    have hAll' : all = (done ++ [upstream]) ++ rest := by simp [hAll]
    rw [sequentialAt]
    dsimp only
    split
    · exact ⟨Nat.le_refl _, hNow, fun response hOk => by cases hOk⟩
    · rename_i hRemaining
      obtain ⟨hFails, hTurn⟩ := hBefore.resolve_right (by omega)
      split
      · rename_i latency hLatency
        obtain ⟨hLatency, hLe⟩ := Option.filter_eq_some_iff.mp hLatency
        have hLe : latency ≤ upstreamTimeout - now := by simpa using hLe
        split
        · rename_i response hOk
          have hEnds : EndsIn all done.length (.ok response) latency :=
            ⟨upstream, hAt, hOk, hLatency⟩
          refine ⟨Nat.le_add_right _ _, by omega, ?_⟩
          rintro response' ⟨⟩
          refine ⟨done.length, latency, Nat.le_refl _, hEnds, by rw [← hTurn], ?_, hFails⟩
          rw [Nat.add_sub_cancel_left]
          rfl
        · rename_i err hErr
          have hEnds : EndsIn all done.length (.error err) latency :=
            ⟨upstream, hAt, hErr, hLatency⟩
          have hFails' : ∀ i < (done ++ [upstream]).length, ∃ err d, EndsIn all i (.error err) d := by
            intro i hi
            rcases Nat.lt_succ_iff_lt_or_eq.mp (hDone ▸ hi) with hi | rfl
            · exact hFails i hi
            · exact ⟨err, latency, hEnds⟩
          have hTurn' : now + latency = turnAt all (done ++ [upstream]).length := by
            rw [hDone, turnAt_succ hEnds, hTurn]
          have hLater := ih (done ++ [upstream]) (some (.failed err)) (now + latency) hAll'
            (by omega) (.inl ⟨hFails', hTurn'⟩)
          rw [hDone] at hLater
          exact hLater.cons (by omega)
      · have hLater := ih (done ++ [upstream]) (some (.timedOut upstream.label))
          (now + (upstreamTimeout - now)) hAll' (by omega) (.inr (by omega))
        rw [hDone] at hLater
        exact hLater.cons (by omega)

end Sequential

end DnsRs.Upstream
