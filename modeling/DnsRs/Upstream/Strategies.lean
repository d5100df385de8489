import DnsRs.Lib.Run
import DnsRs.Wire.Question

/-!
# The upstream strategies

`MultiUpstream::resolve_wire` asks a list of upstreams in one of three ways. Each
upstream is seen as the outcome its attempt comes to when it is waited for; the
order in which attempts end and timers fire is left to the labels.

`resolve_sequential` is a plain loop. `resolve_hedged` is a loop around a set of
running attempts: the model stands at its await between two steps, and `turn` is
what the loop does from its head to the next await. Indexing `upstreams[next]`
and the two `expect`s can fail in the model. `resolve_race` is `select_ok` over
all attempts.

`strategies_agree`: whatever the order of events, all three succeed on the same
lists of upstreams, with the response of an upstream that succeeded.
-/

namespace DnsRs.Upstream

open Lib Wire

variable {ε : Type}

/-! ## Upstreams -/

structure SingleUpstream (ε : Type) where
  label : String
  /-- what `resolve` comes to, if it is waited for -/
  outcome : Except ε Bytes

inductive ResolveError (ε : Type) where
  | failed (err : ε)
  /-- `timed out querying {label}` -/
  | timedOut (label : String)
  /-- `no upstream resolvers configured` -/
  | noUpstreams
  /-- `all hedged upstream queries failed` -/
  | allFailed
  /-- `all hedged upstream queries timed out` -/
  | allTimedOut
  deriving DecidableEq, Repr

inductive Strategy where
  | sequential
  | hedged
  | race
  deriving DecidableEq, Repr

/-! ## Sequential -/

/-- What the deadline does when it is an upstream's turn. -/
inductive Timing where
  /-- the attempt ends in time -/
  | answers
  /-- the deadline passes while the attempt is waited for -/
  | expires
  /-- it has passed already -/
  | late
  deriving DecidableEq, Repr

/-- The upstreams that were asked, in this order, and the result. -/
structure Attempts (ε : Type) where
  started : List Nat
  result : Except (ResolveError ε) Bytes

/-- The loop of `resolve_sequential`, from the upstream at `index` on. -/
def sequentialFrom : Nat → List (SingleUpstream ε × Timing) → Option (ResolveError ε) → Attempts ε
  | _, [], lastErr => ⟨[], .error (lastErr.getD .noUpstreams)⟩
  | _, (upstream, .late) :: _, _ => ⟨[], .error (.timedOut upstream.label)⟩
  | index, (upstream, .expires) :: rest, _ =>
    let later := sequentialFrom (index + 1) rest (some (.timedOut upstream.label))
    ⟨index :: later.started, later.result⟩
  | index, (upstream, .answers) :: rest, _ =>
    match upstream.outcome with
    | .ok response => ⟨[index], .ok response⟩
    | .error err =>
      let later := sequentialFrom (index + 1) rest (some (.failed err))
      ⟨index :: later.started, later.result⟩

def resolveSequential (upstreams : List (SingleUpstream ε × Timing)) : Attempts ε :=
  sequentialFrom 0 upstreams none

/-! ## Hedged -/

structure Hedge (ε : Type) where
  /-- attempts that have not ended -/
  active : List Nat
  next : Nat
  lastErr : Option (ResolveError ε)
  started : List Nat
  result : Option (Except (ResolveError ε) Bytes)
  fault : Option Fault

inductive HedgeEvent where
  /-- `active.next()` gives the result of this attempt -/
  | yields (i : Nat)
  /-- `active.next()` gives `None` -/
  | drained
  /-- the hedge delay has passed -/
  | tick
  /-- `UPSTREAM_TIMEOUT` has passed -/
  | expire
  deriving DecidableEq, Repr

section Hedged

variable (upstreams : List (SingleUpstream ε)) (h : Hedge ε)

/-- `active.push(hedged_attempt(&self.upstreams[next], query)); next += 1` -/
def Hedge.push : Hedge ε :=
  if h.next < upstreams.length then
    { h with
      active := h.active ++ [h.next], started := h.started ++ [h.next], next := h.next + 1 }
  else { h with fault := some .panic }

/-- From the head of the loop to the next await. -/
def Hedge.turn : Hedge ε :=
  if h.active = [] then
    if h.next = upstreams.length then
      { h with result := some (.error (h.lastErr.getD .allFailed)) }
    else h.push upstreams
  else h

/-- `resolve_hedged` up to its first await. -/
def resolveHedged : Hedge ε :=
  let fresh : Hedge ε := ⟨[], 0, none, [], none, none⟩
  if upstreams = [] then { fresh with result := some (.error .noUpstreams) }
  else fresh.turn upstreams

def stepHedged : HedgeEvent → Option (Hedge ε)
  | .yields i =>
    if h.result.isSome ∨ h.fault.isSome ∨ i ∉ h.active then none
    else upstreams[i]?.map fun upstream =>
      match upstream.outcome with
      | .ok response => { h with active := h.active.erase i, result := some (.ok response) }
      | .error err =>
        let h := { h with active := h.active.erase i, lastErr := some (.failed err) }
        -- only the `select!` replaces the attempt at once
        if h.next = upstreams.length then h.turn upstreams else (h.push upstreams).turn upstreams
  | .drained =>
    if h.result.isSome ∨ h.fault.isSome ∨ h.active ≠ [] then none
    else some { h with fault := some .panic }
  | .tick =>
    if h.result.isSome ∨ h.fault.isSome ∨ h.next = upstreams.length then none
    else some ((h.push upstreams).turn upstreams)
  | .expire =>
    if h.result.isSome ∨ h.fault.isSome then none
    else some { h with result := some (.error .allTimedOut) }

end Hedged

/-! ## Race -/

structure Race (ε : Type) where
  running : List Nat
  started : List Nat
  result : Option (Except (ResolveError ε) Bytes)

inductive RaceEvent where
  | ends (i : Nat)
  /-- the attempt's own timeout passes -/
  | expires (i : Nat)
  deriving DecidableEq, Repr

section Race

variable (upstreams : List (SingleUpstream ε)) (r : Race ε)

/-- `resolve_race` up to the first poll of `select_ok`. -/
def resolveRace : Race ε :=
  if upstreams = [] then ⟨[], [], some (.error .noUpstreams)⟩
  else ⟨List.range upstreams.length, List.range upstreams.length, none⟩

/-- What `select_ok` does when an attempt has failed. -/
def Race.drop (i : Nat) (err : ResolveError ε) : Race ε :=
  { r with
    running := r.running.erase i
    result := if r.running.erase i = [] then some (.error err) else none }

def stepRace : RaceEvent → Option (Race ε)
  | .ends i =>
    if r.result.isSome ∨ i ∉ r.running then none
    else upstreams[i]?.map fun upstream =>
      match upstream.outcome with
      | .ok response => { r with running := r.running.erase i, result := some (.ok response) }
      | .error err => r.drop i (.failed err)
  | .expires i =>
    if r.result.isSome ∨ i ∉ r.running then none
    else upstreams[i]?.map fun upstream => r.drop i (.timedOut upstream.label)

end Race

/-! ## The message ID -/

/-- The ID of the caller's query. -/
def originalId (query : Bytes) : Nat :=
  if 2 ≤ query.length then ofBe (readAt query 0 2) else 0

/-- What `resolve_wire` makes of the result of the strategy. -/
def resolveWire (query : Bytes) :
    Except (ResolveError ε) Bytes → Except Fault (Except (ResolveError ε) Bytes)
  | .ok response => do
    let response ← setId response (originalId query)
    return .ok response
  | .error err => .ok (.error err)

/-! ## What it is to resolve -/

/-- The upstream at this place fails. -/
def FailsAt (upstreams : List (SingleUpstream ε)) (i : Nat) : Prop :=
  ∃ upstream err, upstreams[i]? = some upstream ∧ upstream.outcome = .error err

/-- The upstream at this place answers with these bytes. -/
def AnswersAt (upstreams : List (SingleUpstream ε)) (i : Nat) (response : Bytes) : Prop :=
  ∃ upstream, upstreams[i]? = some upstream ∧ upstream.outcome = .ok response

/-- What the three strategies have in common. -/
structure Agrees (upstreams : List (SingleUpstream ε)) (started : List Nat)
    (result : Except (ResolveError ε) Bytes) : Prop where
  ok_iff : (∃ response, result = .ok response) ↔ ∃ i response, AnswersAt upstreams i response
  bytes : ∀ response, result = .ok response → ∃ i ∈ started, AnswersAt upstreams i response
  once : started.Nodup
  known : ∀ i ∈ started, i < upstreams.length

variable {upstreams : List (SingleUpstream ε)}

theorem not_answersAt_of_failsAt {i : Nat} {response : Bytes} (h : FailsAt upstreams i) :
    ¬ AnswersAt upstreams i response := by
  rintro ⟨upstream, hUp, hOk⟩
  obtain ⟨upstream', err, hUp', hErr⟩ := h
  rw [hUp] at hUp'
  cases hUp'
  rw [hOk] at hErr
  cases hErr

/-- An answer, found among attempts that were started. -/
theorem agrees_ok {started : List Nat} {i : Nat} {response : Bytes}
    (h : AnswersAt upstreams i response) (hMem : i ∈ started) (hOnce : started.Nodup)
    (hKnown : ∀ i ∈ started, i < upstreams.length) : Agrees upstreams started (.ok response) where
  ok_iff := ⟨fun _ => ⟨i, response, h⟩, fun _ => ⟨response, rfl⟩⟩
  bytes := by
    rintro response' ⟨⟩
    exact ⟨i, hMem, h⟩
  once := hOnce
  known := hKnown

/-- No answer, when all of them fail. -/
theorem agrees_error {started : List Nat} {err : ResolveError ε}
    (h : ∀ i < upstreams.length, FailsAt upstreams i) (hOnce : started.Nodup)
    (hKnown : ∀ i ∈ started, i < upstreams.length) : Agrees upstreams started (.error err) where
  ok_iff := by
    constructor
    · rintro ⟨response, hOk⟩
      cases hOk
    · rintro ⟨i, response, hAnswer⟩
      obtain ⟨upstream, hUp, -⟩ := id hAnswer
      have hLt := (List.getElem?_eq_some_iff.mp hUp).1
      exact absurd hAnswer (not_answersAt_of_failsAt (h i hLt))
  bytes := by
    intro response hOk
    cases hOk
  once := hOnce
  known := hKnown

/-! ## The loop in order -/

/-- Where the sequential loop stops: at the first upstream that answers. -/
theorem sequentialFrom_spec (all : List (SingleUpstream ε)) :
    ∀ (rest done : List (SingleUpstream ε)) (lastErr : Option (ResolveError ε)), all = done ++ rest →
      (∀ i < done.length, FailsAt all i) →
      ∃ k, (sequentialFrom done.length (rest.map (·, .answers)) lastErr).started =
          List.range' done.length k ∧ done.length + k ≤ all.length ∧
        ((∃ response, (sequentialFrom done.length (rest.map (·, .answers)) lastErr).result =
            .ok response ∧ 0 < k ∧ AnswersAt all (done.length + k - 1) response ∧
            ∀ i < done.length + k - 1, FailsAt all i) ∨
          (∃ err, (sequentialFrom done.length (rest.map (·, .answers)) lastErr).result =
            .error err) ∧ ∀ i < all.length, FailsAt all i) := by
  -- by induction on the upstreams that were not asked yet: all before them have failed
  intro rest
  induction rest with
  | nil =>
    intro done lastErr hAll hFails
    rw [List.append_nil] at hAll
    subst hAll
    exact ⟨0, rfl, Nat.le_refl _, .inr ⟨⟨_, rfl⟩, hFails⟩⟩
  | cons upstream rest ih =>
    intro done lastErr hAll hFails
    -- the index the loop is at
    have hAt : all[done.length]? = some upstream := by
      rw [hAll, List.getElem?_append_right (Nat.le_refl _), Nat.sub_self]
      rfl
    have hLt := (List.getElem?_eq_some_iff.mp hAt).1
    rw [List.map_cons, sequentialFrom]
    cases hOutcome : upstream.outcome with
    | ok response =>
      refine ⟨1, rfl, hLt, .inl ⟨response, rfl, Nat.one_pos, ⟨upstream, ?_, hOutcome⟩, ?_⟩⟩
      · rwa [Nat.add_sub_cancel]
      · rwa [Nat.add_sub_cancel]
    | error err =>
      -- this one has failed too
      have hDone : (done ++ [upstream]).length = done.length + 1 := List.length_append
      have hFails' : ∀ i < (done ++ [upstream]).length, FailsAt all i := by
        intro i hi
        rcases Nat.lt_succ_iff_lt_or_eq.mp (hDone ▸ hi) with hi | rfl
        · exact hFails i hi
        · exact ⟨upstream, err, hAt, hOutcome⟩
      obtain ⟨k, hStarted, hLe, hResult⟩ :=
        ih (done ++ [upstream]) (some (.failed err)) (by simp [hAll]) hFails'
      rw [hDone] at hStarted hLe hResult
      refine ⟨k + 1, ?_, by omega, ?_⟩
      · dsimp only
        rw [hStarted, List.range'_succ]
      · rcases hResult with ⟨response, hOk, hPos, hAnswer, hBefore⟩ | hError
        · have hIndex : done.length + (k + 1) - 1 = done.length + 1 + k - 1 := by omega
          rw [hIndex]
          exact .inl ⟨response, hOk, by omega, hAnswer, hBefore⟩
        · exact .inr hError

/-- **Sequential** asks in list order and takes the first answer. -/
theorem resolveSequential_spec (upstreams : List (SingleUpstream ε)) :
    ∃ k, (resolveSequential (upstreams.map (·, .answers))).started = List.range k ∧
      Agrees upstreams (resolveSequential (upstreams.map (·, .answers))).started
        (resolveSequential (upstreams.map (·, .answers))).result ∧
      ∀ response, (resolveSequential (upstreams.map (·, .answers))).result = .ok response →
        ∃ i, AnswersAt upstreams i response ∧ ∀ j < i, FailsAt upstreams j := by
  obtain ⟨k, hStarted, hLe, hResult⟩ := sequentialFrom_spec upstreams upstreams [] none rfl nofun
  rw [List.length_nil, Nat.zero_add, ← List.range_eq_range'] at *
  have hOnce : (List.range k).Nodup := List.nodup_range
  have hKnown : ∀ i ∈ List.range k, i < upstreams.length := fun i hi => by
    have := List.mem_range.mp hi
    omega
  rw [resolveSequential]
  refine ⟨k, hStarted, ?_⟩
  rw [hStarted]
  rcases hResult with ⟨response, hOk, hPos, hAnswer, hBefore⟩ | ⟨⟨err, hError⟩, hFails⟩
  · rw [hOk]
    refine ⟨agrees_ok hAnswer (List.mem_range.mpr (by omega)) hOnce hKnown, ?_⟩
    rintro response' ⟨⟩
    exact ⟨k - 1, hAnswer, hBefore⟩
  · rw [hError]
    refine ⟨agrees_error hFails hOnce hKnown, ?_⟩
    intro response hOk
    cases hOk

/-! ## The hedged loop -/

namespace Hedge

variable {h h' : Hedge ε}

/-- At the head of the loop: attempts were started in list order, and those that
have ended have failed. -/
structure Open (upstreams : List (SingleUpstream ε)) (h : Hedge ε) : Prop where
  running : h.fault = none
  pending : h.result = none
  le : h.next ≤ upstreams.length
  order : h.started = List.range h.next
  once : h.active.Nodup
  begun : ∀ i ∈ h.active, i < h.next
  settled : ∀ i < h.next, i ∉ h.active → FailsAt upstreams i

/-- At the await, or returned. `timed` says that the overall timeout may have
passed. -/
structure Sound (upstreams : List (SingleUpstream ε)) (timed : Prop) (h : Hedge ε) : Prop where
  running : h.fault = none
  le : h.next ≤ upstreams.length
  order : h.started = List.range h.next
  waits : h.result = none → h.Open upstreams ∧ h.active ≠ []
  answer : ∀ response, h.result = some (.ok response) →
    ∃ i < h.next, AnswersAt upstreams i response
  failed : ∀ err, h.result = some (.error err) →
    timed ∨ ∀ i < upstreams.length, FailsAt upstreams i

/-- What is left to happen: every attempt that runs can end, and every one not
started yet can start and end. -/
def left (upstreams : List (SingleUpstream ε)) (h : Hedge ε) : Nat :=
  if h.result.isSome then 0 else 2 * (upstreams.length - h.next) + h.active.length + 1

theorem left_of_pending (hPending : h.result = none) :
    h.left upstreams = 2 * (upstreams.length - h.next) + h.active.length + 1 := by
  rw [left, hPending]
  rfl

/-- Starting the next attempt, while there is one. -/
theorem Open.push (hOpen : h.Open upstreams) (hNext : h.next ≠ upstreams.length) :
    (h.push upstreams).Open upstreams ∧ (h.push upstreams).active ≠ [] ∧
      (h.push upstreams).left upstreams < h.left upstreams := by
  have hLt : h.next < upstreams.length := Nat.lt_of_le_of_ne hOpen.le hNext
  -- no attempt is started twice: `next` is larger than all that were
  have hFresh : h.next ∉ h.active := fun hMem => Nat.lt_irrefl _ (hOpen.begun _ hMem)
  have hPush : h.push upstreams = { h with
      active := h.active ++ [h.next], started := h.started ++ [h.next], next := h.next + 1 } :=
    if_pos hLt
  rw [hPush]
  refine ⟨⟨hOpen.running, hOpen.pending, hLt, ?_, ?_, ?_, ?_⟩, by simp, ?_⟩
  · rw [hOpen.order, ← List.range_succ]
  · exact hOpen.once.append (List.nodup_singleton _)
      (List.disjoint_singleton.mpr hFresh)
  · intro i hi
    rcases List.mem_append.mp hi with hi | hi
    · exact Nat.lt_succ_of_lt (hOpen.begun i hi)
    · exact List.mem_singleton.mp hi ▸ Nat.lt_succ_self _
  · intro i hi hOut
    rw [List.mem_append, List.mem_singleton, not_or] at hOut
    exact hOpen.settled i (Nat.lt_of_le_of_ne (Nat.le_of_lt_succ hi) hOut.2) hOut.1
  · rw [left_of_pending hOpen.pending]
    simp only [left, hOpen.pending, Option.isSome_none, Bool.false_eq_true, if_false,
      List.length_append, List.length_singleton]
    omega

/-- With an attempt running the loop is at its await. -/
theorem Open.sound (timed : Prop) (hOpen : h.Open upstreams) (hActive : h.active ≠ []) :
    h.Sound upstreams timed := by
  refine ⟨hOpen.running, hOpen.le, hOpen.order, fun _ => ⟨hOpen, hActive⟩, ?_, ?_⟩
  · intro response hResult
    rw [hOpen.pending] at hResult
    cases hResult
  · intro err hResult
    rw [hOpen.pending] at hResult
    cases hResult

/-- The head of the loop leads to the await or returns. -/
theorem Open.turn (timed : Prop) (hOpen : h.Open upstreams) :
    (h.turn upstreams).Sound upstreams timed ∧
      (h.turn upstreams).left upstreams ≤ h.left upstreams := by
  rw [Hedge.turn]
  split
  · rename_i hIdle
    split
    · -- every upstream has been tried
      rename_i hNext
      refine ⟨⟨hOpen.running, hOpen.le, hOpen.order, nofun, nofun, ?_⟩, Nat.zero_le _⟩
      intro err _
      right
      intro i hi
      exact hOpen.settled i (hNext ▸ hi) (hIdle ▸ List.not_mem_nil)
    · rename_i hNext
      obtain ⟨hPushed, hActive, hLess⟩ := hOpen.push hNext
      exact ⟨hPushed.sound timed hActive, Nat.le_of_lt hLess⟩
  · rename_i hActive
    exact ⟨hOpen.sound timed hActive, Nat.le_refl _⟩

/-- An attempt that has failed is taken out of the set. -/
theorem Open.erase {i : Nat} (err : ε) (hOpen : h.Open upstreams) (hMem : i ∈ h.active)
    (hFails : FailsAt upstreams i) :
    Open upstreams { h with active := h.active.erase i, lastErr := some (.failed err) } ∧
      left upstreams { h with active := h.active.erase i, lastErr := some (.failed err) } <
        h.left upstreams := by
  refine ⟨⟨hOpen.running, hOpen.pending, hOpen.le, hOpen.order, hOpen.once.erase i, ?_, ?_⟩, ?_⟩
  · intro j hj
    exact hOpen.begun j (List.mem_of_mem_erase hj)
  · intro j hj hOut
    by_cases hEq : j = i
    · exact hEq ▸ hFails
    · exact hOpen.settled j hj fun hIn => hOut ((List.mem_erase_of_ne hEq).mpr hIn)
  · have hPos := List.length_pos_of_mem hMem
    rw [left_of_pending hOpen.pending]
    simp only [left, hOpen.pending, Option.isSome_none, Bool.false_eq_true, if_false,
      List.length_erase_of_mem hMem]
    omega

/-- One event keeps the loop sound and brings it nearer to its end. -/
theorem Sound.step {timed : Prop} {e : HedgeEvent} (hSound : h.Sound upstreams timed)
    (hTime : e = .expire → timed) (hStep : stepHedged upstreams h e = some h') :
    h'.Sound upstreams timed ∧ h'.left upstreams < h.left upstreams := by
  have hLeft : h.result = none → 0 < h.left upstreams := fun hPending => by
    rw [left_of_pending hPending]
    omega
  cases e with
  -- an answer ends the loop, a failure starts the next attempt without waiting for the timer
  | yields i =>
    simp only [stepHedged, Option.ite_none_left_eq_some, not_or, Option.map_eq_some_iff,
      Option.not_isSome_iff_eq_none, not_not] at hStep
    obtain ⟨⟨hPending, -, hMem⟩, upstream, hUp, rfl⟩ := hStep
    obtain ⟨hOpen, -⟩ := hSound.waits hPending
    cases hOutcome : upstream.outcome with
    | ok response =>
      refine ⟨⟨hSound.running, hSound.le, hSound.order, nofun, ?_, nofun⟩, hLeft hPending⟩
      rintro response' ⟨⟩
      exact ⟨i, hOpen.begun i hMem, upstream, hUp, hOutcome⟩
    | error err =>
      obtain ⟨hErased, hLess⟩ := hOpen.erase err hMem ⟨upstream, err, hUp, hOutcome⟩
      dsimp only
      split
      · obtain ⟨hTurned, hLe⟩ := hErased.turn timed
        exact ⟨hTurned, Nat.lt_of_le_of_lt hLe hLess⟩
      · rename_i hNext
        obtain ⟨hPushed, -, hLess'⟩ := hErased.push hNext
        obtain ⟨hTurned, hLe⟩ := hPushed.turn timed
        exact ⟨hTurned, Nat.lt_of_le_of_lt hLe (Nat.lt_trans hLess' hLess)⟩
  | drained =>
    -- the set is never empty at the await
    simp only [stepHedged, Option.ite_none_left_eq_some, not_or,
      Option.not_isSome_iff_eq_none, not_not] at hStep
    obtain ⟨⟨hPending, -, hIdle⟩, -⟩ := hStep
    exact absurd hIdle (hSound.waits hPending).2
  -- the hedge timer is armed only while there is another upstream
  | tick =>
    simp only [stepHedged, Option.ite_none_left_eq_some, not_or, Option.some.injEq,
      Option.not_isSome_iff_eq_none] at hStep
    obtain ⟨⟨hPending, -, hNext⟩, rfl⟩ := hStep
    obtain ⟨hOpen, -⟩ := hSound.waits hPending
    obtain ⟨hPushed, -, hLess⟩ := hOpen.push hNext
    obtain ⟨hTurned, hLe⟩ := hPushed.turn timed
    exact ⟨hTurned, Nat.lt_of_le_of_lt hLe hLess⟩
  | expire =>
    simp only [stepHedged, Option.ite_none_left_eq_some, not_or, Option.some.injEq,
      Option.not_isSome_iff_eq_none] at hStep
    obtain ⟨⟨hPending, -⟩, rfl⟩ := hStep
    exact ⟨⟨hSound.running, hSound.le, hSound.order, nofun, nofun, fun _ _ => .inl (hTime rfl)⟩,
      hLeft hPending⟩

/-- While the loop waits, some attempt can end. -/
theorem Sound.live {timed : Prop} (hSound : h.Sound upstreams timed) (hPending : h.result = none) :
    ∃ i h', stepHedged upstreams h (.yields i) = some h' := by
  obtain ⟨hOpen, hActive⟩ := hSound.waits hPending
  -- the attempt that ends is any of those running
  obtain ⟨i, hMem⟩ := List.exists_mem_of_ne_nil _ hActive
  have hLt : i < upstreams.length := Nat.lt_of_lt_of_le (hOpen.begun i hMem) hOpen.le
  refine ⟨i, ?_⟩
  rw [stepHedged, if_neg (by simp [hPending, hSound.running, hMem]),
    List.getElem?_eq_getElem hLt]
  exact ⟨_, rfl⟩

end Hedge

theorem resolveHedged_sound (upstreams : List (SingleUpstream ε)) (timed : Prop) :
    (resolveHedged upstreams).Sound upstreams timed ∧
      (resolveHedged upstreams).left upstreams ≤ 2 * upstreams.length + 1 := by
  have hFresh : Hedge.Open upstreams ⟨[], 0, none, [], none, none⟩ :=
    ⟨rfl, rfl, Nat.zero_le _, rfl, List.nodup_nil, nofun, nofun⟩
  rw [resolveHedged]
  split
  · rename_i hNone
    subst hNone
    exact ⟨⟨rfl, Nat.le_refl _, rfl, nofun, nofun, fun _ _ => .inr nofun⟩, Nat.zero_le _⟩
  · exact hFresh.turn timed

/-! ## The race -/

namespace Race

variable {r r' : Race ε}

/-- What an event does to a race that has no result. -/
inductive Moves (upstreams : List (SingleUpstream ε)) (r : Race ε) : RaceEvent → Race ε → Prop where
  | answered {i response} (hMem : i ∈ r.running) (hAnswer : AnswersAt upstreams i response) :
      Moves upstreams r (.ends i)
        { r with running := r.running.erase i, result := some (.ok response) }
  | failed {i upstream err} (hMem : i ∈ r.running) (hUp : upstreams[i]? = some upstream)
      (hOutcome : upstream.outcome = .error err) :
      Moves upstreams r (.ends i) (r.drop i (.failed err))
  | expired {i upstream} (hMem : i ∈ r.running) (hUp : upstreams[i]? = some upstream) :
      Moves upstreams r (.expires i) (r.drop i (.timedOut upstream.label))

theorem stepRace_moves {e : RaceEvent} (hStep : stepRace upstreams r e = some r') :
    r.result = none ∧ r.Moves upstreams e r' := by
  cases e with
  | ends i =>
    simp only [stepRace, Option.ite_none_left_eq_some, not_or, Option.map_eq_some_iff,
      Option.not_isSome_iff_eq_none, not_not] at hStep
    obtain ⟨⟨hPending, hMem⟩, upstream, hUp, rfl⟩ := hStep
    refine ⟨hPending, ?_⟩
    cases hOutcome : upstream.outcome with
    | ok response => exact .answered hMem ⟨upstream, hUp, hOutcome⟩
    | error err => exact .failed hMem hUp hOutcome
  | expires i =>
    simp only [stepRace, Option.ite_none_left_eq_some, not_or, Option.map_eq_some_iff,
      Option.not_isSome_iff_eq_none, not_not] at hStep
    obtain ⟨⟨hPending, hMem⟩, upstream, hUp, rfl⟩ := hStep
    exact ⟨hPending, .expired hMem hUp⟩

/-- `select_ok` waits for the attempts that have not failed. `timed` says that
an attempt's timeout may have passed. -/
structure Sound (upstreams : List (SingleUpstream ε)) (timed : Prop) (r : Race ε) : Prop where
  order : r.started = List.range upstreams.length
  once : r.running.Nodup
  known : ∀ i ∈ r.running, i < upstreams.length
  settled : ∀ i < upstreams.length, i ∉ r.running → r.result = none → timed ∨ FailsAt upstreams i
  waits : r.result = none → r.running ≠ []
  answer : ∀ response, r.result = some (.ok response) →
    ∃ i < upstreams.length, AnswersAt upstreams i response
  failed : ∀ err, r.result = some (.error err) →
    timed ∨ ∀ i < upstreams.length, FailsAt upstreams i

/-- How many attempts can still end. -/
def left (r : Race ε) : Nat :=
  if r.result.isSome then 0 else r.running.length

/-- An attempt that fails leaves the race; the last one ends it. -/
theorem Sound.drop {timed : Prop} {i : Nat} (err : ResolveError ε) (hSound : r.Sound upstreams timed)
    (hPending : r.result = none) (hMem : i ∈ r.running) (hFails : timed ∨ FailsAt upstreams i) :
    (r.drop i err).Sound upstreams timed ∧ (r.drop i err).left < r.left := by
  -- all that have left the race have failed, this one included
  have hSettled : ∀ j < upstreams.length, j ∉ r.running.erase i → timed ∨ FailsAt upstreams j := by
    intro j hj hOut
    by_cases hEq : j = i
    · exact hEq ▸ hFails
    · exact hSound.settled j hj (fun hIn => hOut ((List.mem_erase_of_ne hEq).mpr hIn)) hPending
  have hPos := List.length_pos_of_mem hMem
  have hLength := List.length_erase_of_mem hMem
  rw [Race.drop]
  -- `select_ok` gives up with the last of them
  by_cases hLast : r.running.erase i = []
  · rw [if_pos hLast]
    refine ⟨⟨hSound.order, hSound.once.erase i, fun j hj => hSound.known j (List.mem_of_mem_erase hj),
      nofun, nofun, nofun, ?_⟩, ?_⟩
    · intro err' _
      by_cases hTimed : timed
      · exact .inl hTimed
      · right
        intro j hj
        exact (hSettled j hj (hLast ▸ List.not_mem_nil)).resolve_left hTimed
    · simp only [left, hPending, Option.isSome_some, Option.isSome_none, Bool.false_eq_true, if_true,
        if_false]
      exact hPos
  · rw [if_neg hLast]
    refine ⟨⟨hSound.order, hSound.once.erase i, fun j hj => hSound.known j (List.mem_of_mem_erase hj),
      fun j hj hOut _ => hSettled j hj hOut, fun _ => hLast, nofun, nofun⟩, ?_⟩
    simp only [left, hPending, Option.isSome_none, Bool.false_eq_true, if_false]
    omega

theorem Sound.step {timed : Prop} {e : RaceEvent} (hSound : r.Sound upstreams timed)
    (hTime : ∀ i, e = .expires i → timed) (hStep : stepRace upstreams r e = some r') :
    r'.Sound upstreams timed ∧ r'.left < r.left := by
  obtain ⟨hPending, hMoves⟩ := stepRace_moves hStep
  cases hMoves with
  | @answered i response hMem hAnswer =>
    refine ⟨⟨hSound.order, hSound.once.erase i,
      fun j hj => hSound.known j (List.mem_of_mem_erase hj), nofun, nofun, ?_, nofun⟩, ?_⟩
    · rintro response' ⟨⟩
      exact ⟨i, hSound.known i hMem, hAnswer⟩
    · simp only [left, hPending, Option.isSome_some, Option.isSome_none, Bool.false_eq_true, if_true,
        if_false]
      exact List.length_pos_of_mem hMem
  | failed hMem hUp hOutcome => exact hSound.drop _ hPending hMem (.inr ⟨_, _, hUp, hOutcome⟩)
  | @expired i upstream hMem => exact hSound.drop _ hPending hMem (.inl (hTime i rfl))

theorem Sound.live {timed : Prop} (hSound : r.Sound upstreams timed) (hPending : r.result = none) :
    ∃ i r', stepRace upstreams r (.ends i) = some r' := by
  obtain ⟨i, hMem⟩ := List.exists_mem_of_ne_nil _ (hSound.waits hPending)
  refine ⟨i, ?_⟩
  rw [stepRace, if_neg (by simp [hPending, hMem]), List.getElem?_eq_getElem (hSound.known i hMem)]
  exact ⟨_, rfl⟩

end Race

theorem resolveRace_sound (upstreams : List (SingleUpstream ε)) (timed : Prop) :
    (resolveRace upstreams).Sound upstreams timed ∧
      (resolveRace upstreams).left ≤ upstreams.length := by
  rw [resolveRace]
  split
  · rename_i hNone
    subst hNone
    exact ⟨⟨rfl, List.nodup_nil, nofun, nofun, nofun, nofun, fun _ _ => .inr nofun⟩, Nat.zero_le _⟩
  · rename_i hSome
    refine ⟨⟨rfl, List.nodup_range, fun i hi => List.mem_range.mp hi, ?_, ?_, nofun, nofun⟩, ?_⟩
    · intro i hi hOut _
      exact absurd (List.mem_range.mpr hi) hOut
    · intro _ hEmpty
      exact hSome (List.length_eq_zero_iff.mp (List.range_eq_nil.mp hEmpty))
    · simp [Race.left]

/-! ## All three -/

/-- A resolution without timeouts that has come to a result, with the attempts
it started. -/
inductive Ends (upstreams : List (SingleUpstream ε)) :
    Strategy → List Nat → Except (ResolveError ε) Bytes → Prop
  | sequential :
    Ends upstreams .sequential (resolveSequential (upstreams.map (·, .answers))).started
      (resolveSequential (upstreams.map (·, .answers))).result
  | hedged {events : List HedgeEvent} {h : Hedge ε} {result : Except (ResolveError ε) Bytes}
      (hTime : .expire ∉ events)
      (hRun : run (stepHedged upstreams) (resolveHedged upstreams) events = some h)
      (hResult : h.result = some result) : Ends upstreams .hedged h.started result
  | race {events : List RaceEvent} {r : Race ε} {result : Except (ResolveError ε) Bytes}
      (hTime : ∀ i, .expires i ∉ events)
      (hRun : run (stepRace upstreams) (resolveRace upstreams) events = some r)
      (hResult : r.result = some result) : Ends upstreams .race r.started result

/-- The hedged loop at any moment of a run: it has not panicked, its attempts were
started in list order, only so many events can have happened, and unless it has
returned an attempt can end. -/
structure HedgedRun (upstreams : List (SingleUpstream ε)) (events : List HedgeEvent) (h : Hedge ε) :
    Prop where
  no_panic : h.fault = none
  order : h.started = List.range h.next
  bounded : events.length ≤ 2 * upstreams.length + 1
  live : h.result = none → ∃ i h', stepHedged upstreams h (.yields i) = some h'

structure RaceRun (upstreams : List (SingleUpstream ε)) (events : List RaceEvent) (r : Race ε) :
    Prop where
  once : r.started.Nodup
  bounded : events.length ≤ upstreams.length
  live : r.result = none → ∃ i r', stepRace upstreams r (.ends i) = some r'

section Runs

variable {h : Hedge ε} {r : Race ε}

/-- Any run of the hedged loop, from the invariant of its events. -/
theorem hedged_run (timed : Prop) {events : List HedgeEvent}
    (hTime : ∀ e ∈ events, e = .expire → timed)
    (hRun : run (stepHedged upstreams) (resolveHedged upstreams) events = some h) :
    h.Sound upstreams timed ∧ events.length ≤ 2 * upstreams.length + 1 := by
  obtain ⟨hStart, hLeft⟩ := resolveHedged_sound upstreams timed
  have hGuard : Guarded (stepHedged upstreams) (fun _ e => e = .expire → timed)
      (resolveHedged upstreams) events := guarded_of_forall hTime _
  have hSound := run_invariant_guarded (fun _ _ _ hSound hTime hStep => (hSound.step hTime hStep).1)
    hStart hGuard hRun
  have hLength := run_length_le (Hedge.left upstreams)
    (fun _ _ _ hSound hTime hStep => Hedge.Sound.step hSound hTime hStep) hStart hGuard hRun
  exact ⟨hSound, by omega⟩

theorem race_run (timed : Prop) {events : List RaceEvent}
    (hTime : ∀ e ∈ events, ∀ i, e = .expires i → timed)
    (hRun : run (stepRace upstreams) (resolveRace upstreams) events = some r) :
    r.Sound upstreams timed ∧ events.length ≤ upstreams.length := by
  obtain ⟨hStart, hLeft⟩ := resolveRace_sound upstreams timed
  have hGuard : Guarded (stepRace upstreams) (fun _ e => ∀ i, e = .expires i → timed)
      (resolveRace upstreams) events := guarded_of_forall hTime _
  have hSound := run_invariant_guarded (fun _ _ _ hSound hTime hStep => (hSound.step hTime hStep).1)
    hStart hGuard hRun
  have hLength := run_length_le Race.left
    (fun _ _ _ hSound hTime hStep => Race.Sound.step hSound hTime hStep) hStart hGuard hRun
  exact ⟨hSound, by omega⟩

/-- Without timeouts a result of any strategy is one they agree on. -/
theorem Ends.agrees {strategy : Strategy} {started : List Nat}
    {result : Except (ResolveError ε) Bytes} (h : Ends upstreams strategy started result) :
    Agrees upstreams started result := by
  cases h with
  | sequential =>
    obtain ⟨-, -, hAgrees, -⟩ := resolveSequential_spec upstreams
    exact hAgrees
  | @hedged events h _ hTime hRun hResult =>
    obtain ⟨hSound, -⟩ := hedged_run False (fun e he hEq => hTime (hEq ▸ he)) hRun
    rw [hSound.order]
    have hKnown : ∀ i ∈ List.range h.next, i < upstreams.length := fun i hi =>
      Nat.lt_of_lt_of_le (List.mem_range.mp hi) hSound.le
    cases result with
    | ok response =>
      obtain ⟨i, hi, hAnswer⟩ := hSound.answer response hResult
      exact agrees_ok hAnswer (List.mem_range.mpr hi) List.nodup_range hKnown
    | error err =>
      exact agrees_error ((hSound.failed err hResult).resolve_left id) List.nodup_range hKnown
  | @race events r _ hTime hRun hResult =>
    obtain ⟨hSound, -⟩ := race_run False (fun e he i hEq => hTime i (hEq ▸ he)) hRun
    rw [hSound.order]
    have hKnown : ∀ i ∈ List.range upstreams.length, i < upstreams.length := fun i hi =>
      List.mem_range.mp hi
    cases result with
    | ok response =>
      obtain ⟨i, hi, hAnswer⟩ := hSound.answer response hResult
      exact agrees_ok hAnswer (List.mem_range.mpr hi) List.nodup_range hKnown
    | error err =>
      exact agrees_error ((hSound.failed err hResult).resolve_left id) List.nodup_range hKnown

/-- Every strategy comes to a result. -/
theorem exists_ends (upstreams : List (SingleUpstream ε)) (strategy : Strategy) :
    ∃ started result, Ends upstreams strategy started result := by
  cases strategy with
  | sequential => exact ⟨_, _, .sequential⟩
  | hedged =>
    have hReach : ∃ events h, Guarded (stepHedged upstreams) (fun _ e => e ≠ .expire)
        (resolveHedged upstreams) events ∧
        run (stepHedged upstreams) (resolveHedged upstreams) events = some h ∧
        h.result ≠ none := by
      refine exists_run_done (I := Hedge.Sound upstreams False) (Hedge.left upstreams) ?_ _
        (resolveHedged_sound upstreams False).1
      intro h hSound hDone
      obtain ⟨i, h', hStep⟩ := hSound.live (not_not.mp hDone)
      exact ⟨.yields i, h', nofun, hStep, hSound.step (e := .yields i) nofun hStep⟩
    obtain ⟨events, h, hGuard, hRun, hDone⟩ := hReach
    obtain ⟨result, hResult⟩ := Option.ne_none_iff_exists'.mp hDone
    exact ⟨_, result,
      .hedged (fun hMem => forall_of_guarded hGuard hRun _ hMem rfl) hRun hResult⟩
  | race =>
    have hReach : ∃ events r, Guarded (stepRace upstreams) (fun _ e => ∀ i, e ≠ .expires i)
        (resolveRace upstreams) events ∧
        run (stepRace upstreams) (resolveRace upstreams) events = some r ∧ r.result ≠ none := by
      refine exists_run_done (I := Race.Sound upstreams False) Race.left ?_ _
        (resolveRace_sound upstreams False).1
      intro r hSound hDone
      obtain ⟨i, r', hStep⟩ := hSound.live (not_not.mp hDone)
      exact ⟨.ends i, r', nofun, hStep, hSound.step (e := .ends i) nofun hStep⟩
    obtain ⟨events, r, hGuard, hRun, hDone⟩ := hReach
    obtain ⟨result, hResult⟩ := Option.ne_none_iff_exists'.mp hDone
    exact ⟨_, result,
      .race (fun i hMem => forall_of_guarded hGuard hRun _ hMem i rfl) hRun hResult⟩

end Runs

/-- What the caller of `resolve_wire` gets: the bytes of the strategy, with the ID
of its own query. -/
structure Restored (query response restored : Bytes) : Prop where
  length : restored.length = response.length
  rest : restored.drop 2 = response.drop 2
  id : 2 ≤ query.length → 2 ≤ response.length →
    ofBe (readAt restored 0 2) = ofBe (readAt query 0 2)

theorem originalId_lt (query : Bytes) : originalId query < 2 ^ 16 := by
  rw [originalId]
  split
  · rename_i hLen
    cases query with
    | nil => simp at hLen
    | cons b0 query =>
      cases query with
      | nil => simp at hLen
      | cons b1 rest => exact ofBe_pair_lt b0 b1
  · omega

/-- Restoring the ID always succeeds. -/
theorem resolveWire_ok (query response : Bytes) :
    ∃ restored, resolveWire (ε := ε) query (.ok response) = .ok (.ok restored) ∧
      Restored query response restored := by
  obtain ⟨restored, hSet, hLength, hRest, hId⟩ := setId_total response (originalId query)
  refine ⟨restored, ?_, hLength, hRest, ?_⟩
  · rw [resolveWire, hSet]
    rfl
  · intro hQuery hResponse
    have hBack := hId hResponse (originalId_lt query)
    rw [originalId, if_pos hQuery] at hBack
    exact hBack

/-- The contract the three strategies share, and what is particular to each. -/
structure StrategiesAgree (upstreams : List (SingleUpstream ε)) : Prop where
  /-- the result is a success exactly when some upstream succeeds, and its bytes are those of
  an attempt that was made; no upstream is asked twice -/
  agree : ∀ strategy started result, Ends upstreams strategy started result →
    Agrees upstreams started result
  /-- there is a result -/
  returns : ∀ strategy, ∃ started result, Ends upstreams strategy started result
  first : ∀ started response, Ends upstreams .sequential started (.ok response) →
    ∃ i, AnswersAt upstreams i response ∧ ∀ j < i, FailsAt upstreams j
  order : ∀ strategy started result, Ends upstreams strategy started result →
    strategy ≠ .race → ∃ k, started = List.range k
  /-- at every moment, timeouts or not -/
  hedged : ∀ events h, run (stepHedged upstreams) (resolveHedged upstreams) events = some h →
    HedgedRun upstreams events h
  race : ∀ events r, run (stepRace upstreams) (resolveRace upstreams) events = some r →
    RaceRun upstreams events r
  wire : ∀ query response, ∃ restored,
    resolveWire (ε := ε) query (.ok response) = .ok (.ok restored) ∧
      Restored query response restored

/-- **The strategies agree.** Whatever the upstreams come to and whatever the
order of events: as long as no timeout passes, a resolution succeeds in one
strategy exactly when it does in the others, and the hedged loop cannot panic. -/
theorem strategies_agree (upstreams : List (SingleUpstream ε)) : StrategiesAgree upstreams where
  agree _ _ _ hEnds := hEnds.agrees
  returns := exists_ends upstreams
  first started response hEnds := by
    obtain ⟨-, -, -, hFirst⟩ := resolveSequential_spec upstreams
    generalize hResult : Except.ok response = result at hEnds
    cases hEnds with
    | sequential => exact hFirst response hResult.symm
  order strategy started result hEnds hRace := by
    cases hEnds with
    | sequential =>
      obtain ⟨k, hStarted, -⟩ := resolveSequential_spec upstreams
      exact ⟨k, hStarted⟩
    | hedged hTime hRun hResult =>
      obtain ⟨hSound, -⟩ := hedged_run True (fun _ _ _ => trivial) hRun
      exact ⟨_, hSound.order⟩
    | race => exact absurd rfl hRace
  hedged events h hRun := by
    obtain ⟨hSound, hBounded⟩ := hedged_run True (fun _ _ _ => trivial) hRun
    exact ⟨hSound.running, hSound.order, hBounded, hSound.live⟩
  race events r hRun := by
    obtain ⟨hSound, hBounded⟩ := race_run True (fun _ _ _ _ => trivial) hRun
    exact ⟨hSound.order ▸ List.nodup_range, hBounded, hSound.live⟩
  wire := resolveWire_ok

/-- The first refuses, the other two answer. -/
def threeUpstreams : List (SingleUpstream String) :=
  [⟨"dot://a:853", .error "refused"⟩, ⟨"dot://b:853", .ok [9, 9, 0x80]⟩,
    ⟨"doh://c", .ok [7, 7, 0x80]⟩]

/-- A hedged resolution that takes the third upstream's answer, where the
sequential one takes the second's. -/
theorem strategies_agree_three :
    (∃ h, run (stepHedged threeUpstreams) (resolveHedged threeUpstreams)
        [.yields 0, .tick, .yields 2] = some h ∧ h.started = [0, 1, 2] ∧
      h.result = some (.ok [7, 7, 0x80]) ∧ Agrees threeUpstreams h.started (.ok [7, 7, 0x80])) ∧
    (resolveSequential (threeUpstreams.map (·, .answers))).result = .ok [9, 9, 0x80] := by
  refine ⟨?_, by decide +kernel⟩
  have hView : (run (stepHedged threeUpstreams) (resolveHedged threeUpstreams)
      [.yields 0, .tick, .yields 2]).map (fun h => (h.started, h.result)) =
      some ([0, 1, 2], some (.ok [7, 7, 0x80])) := by decide +kernel
  obtain ⟨h, hRun, hFields⟩ := Option.map_eq_some_iff.mp hView
  obtain ⟨hStarted, hResult⟩ := Prod.mk.injEq .. ▸ hFields
  exact ⟨h, hRun, hStarted, hResult,
    (strategies_agree threeUpstreams).agree .hedged _ _ (.hedged (by decide) hRun hResult)⟩

end DnsRs.Upstream
