import DnsRs.Dot.PoolAnswers

/-!
# How often a query goes out

`query_wire` starts over once if a connection fails under it, and before that the lookup may
go round any number of times. What counts is how often the caller is given a connection and a
permit: each time its query is written once.

* `query_wire_sends_twice` — this is at most twice, and once more at most after the retry.
-/

namespace DnsRs.Dot

open Lib Wire DotConnection

/-- The caller is at `connection.query`. -/
def PoolPhase.queries : PoolPhase → Bool
  | .querying _ _ => true
  | _ => false

def DotPool.queriesAt (s : DotPool) (c : Nat) : Bool := (s.callers[c]?).any (·.phase.queries)

/-- How often in this run `connection` returns a pair to caller `c`. -/
def attempts (c : Nat) : DotPool → List PoolLabel → Nat
  | _, [] => 0
  | s, label :: labels =>
    match poolStep s label with
    | none => 0
    | some u => (if u.queriesAt c && !s.queriesAt c then 1 else 0) + attempts c u labels

/-- How often it still may, for a caller in this phase. -/
def PoolPhase.left (retried : Bool) : PoolPhase → Nat
  | .answered _ | .failed _ | .gone | .probing _ _ | .joining _ => 0
  | .querying _ _ => if retried then 0 else 1
  | _ => if retried then 1 else 2

/-- A caller that has not come yet has both of its attempts. -/
def DotPool.left (s : DotPool) (c : Nat) : Nat :=
  match s.callers[c]? with
  | some caller => caller.phase.left caller.retried
  | none => 2

section Attempts

variable {s u s' : DotPool} {c k : Nat} {caller : Caller}

/-- An attempt is paid for by what the caller had left. -/
def Pays (s u : DotPool) : Prop :=
  ∀ c, (if u.queriesAt c && !s.queriesAt c then 1 else 0) + u.left c ≤ s.left c

theorem pays_modify {f : Caller → Caller} (hc : s.callers[c]? = some caller)
    (hCallers : u.callers = s.callers.modify c f)
    (hPays : (if (f caller).phase.queries && !caller.phase.queries then 1 else 0) +
      (f caller).phase.left (f caller).retried ≤ caller.phase.left caller.retried) : Pays s u := by
  intro c'
  unfold DotPool.queriesAt DotPool.left
  rw [hCallers]
  by_cases hEq : c' = c
  · subst hEq
    rw [getElem?_modify_self hc, hc]
    exact hPays
  · rw [List.getElem?_modify_ne _ _ (Ne.symm hEq), Bool.and_not_self]
    exact (Nat.zero_add _).le

/-- A caller that does not come to its query needs no more than it had. -/
theorem pays_quiet {f : Caller → Caller} (hc : s.callers[c]? = some caller)
    (hCallers : u.callers = s.callers.modify c f) (hQuiet : (f caller).phase.queries = false)
    (hLess : (f caller).phase.left (f caller).retried ≤ caller.phase.left caller.retried) :
    Pays s u := by
  refine pays_modify hc hCallers ?_
  rw [hQuiet, Bool.false_and]
  exact (Nat.zero_add _).le.trans hLess

/-- One that comes to its query has an attempt less. -/
theorem pays_taken {f : Caller → Caller} {permit : Permit} (hc : s.callers[c]? = some caller)
    (hCallers : u.callers = s.callers.modify c f) (hPhase : (f caller).phase = .querying k permit)
    (hRetried : (f caller).retried = caller.retried) {phase : PoolPhase}
    (hOld : caller.phase = phase) (hSeeks : ∀ retried, phase.left retried = if retried then 1 else 2) :
    Pays s u := by
  refine pays_modify hc hCallers ?_
  rw [hPhase, hOld, hRetried, hSeeks]
  cases caller.retried <;> simp only [PoolPhase.left] <;> split <;> simp

theorem pays_append {new : Caller} (hQuiet : new.phase.queries = false)
    (hLess : new.phase.left new.retried ≤ 2) :
    Pays s { s with callers := s.callers ++ [new] } := by
  intro c
  unfold DotPool.queriesAt DotPool.left
  rcases Nat.lt_trichotomy c s.callers.length with hLt | rfl | hGt
  · dsimp only
    rw [List.getElem?_append_left hLt, Bool.and_not_self]
    exact (Nat.zero_add _).le
  · dsimp only
    rw [List.getElem?_append_right (Nat.le_refl _), Nat.sub_self, List.getElem?_eq_none (Nat.le_refl _)]
    simpa [hQuiet] using hLess
  · have hNone : (s.callers ++ [new])[c]? = none := by
      refine List.getElem?_eq_none ?_
      rw [List.length_append, List.length_singleton]
      omega
    dsimp only
    rw [hNone, List.getElem?_eq_none hGt.le]
    simp

/-- **One step.** -/
theorem pays_step {label : PoolLabel} (hStep : poolStep s label = some u) : Pays s u := by
  cases poolStep_moves hStep with
  | query | keepalive => exact pays_append rfl (Nat.le_refl _)
  | inside hInside =>
    obtain ⟨conn, conn', -, -, rfl⟩ := inside_eq_some.mp hInside
    intro c
    show (if s.queriesAt c && !s.queriesAt c then 1 else 0) + s.left c ≤ s.left c
    rw [Bool.and_not_self]
    exact (Nat.zero_add _).le
  | finished =>
    obtain ⟨caller, k, permit, hc, hPhase, hEnd⟩ := finish_cases hStep
    have hLeft : caller.phase.left caller.retried = if caller.retried then 0 else 1 := by
      rw [hPhase]
      rfl
    rcases hEnd with ⟨response, -, hu⟩ | ⟨failure, hu⟩ | hu
    · rw [hu]
      exact pays_quiet hc rfl rfl (Nat.zero_le _)
    · rw [hu]
      unfold DotPool.retry
      split
      · split
        · exact pays_quiet hc rfl rfl (Nat.zero_le _)
        · -- the second attempt is the last one
          rename_i hFirst
          refine pays_quiet hc rfl rfl ?_
          rw [hLeft, if_neg hFirst]
          exact Nat.le_refl 1
      · exact pays_quiet hc rfl rfl (Nat.zero_le _)
    · rw [hu]
      exact pays_quiet hc rfl rfl (Nat.zero_le _)
  | scanFound hc hPhase hReserve =>
    obtain ⟨conn, -, hInside, -⟩ := tryReserve_eq_some.mp hReserve
    obtain ⟨_, _, -, -, rfl⟩ := inside_eq_some.mp hInside
    exact pays_taken hc rfl rfl rfl hPhase fun _ => rfl
  | alive hc hPhase | push hc hPhase => exact pays_taken hc rfl rfl rfl hPhase fun _ => rfl
  | acquire hc hPhase hReserve | reserve hc hPhase hReserve | probeTaken hc hPhase hReserve =>
    obtain ⟨conn, -, hInside, -⟩ := tryReserve_eq_some.mp hReserve
    obtain ⟨_, _, -, -, rfl⟩ := inside_eq_some.mp hInside
    exact pays_quiet hc rfl rfl (by rw [hPhase]; exact Nat.le_refl _)
  | dead hc hPhase hDrop =>
    obtain ⟨_, _, -, -, rfl⟩ := inside_eq_some.mp hDrop
    exact pays_quiet hc rfl rfl (by rw [hPhase]; exact Nat.le_refl _)
  | cancelPushing hc hPhase hDrop =>
    obtain ⟨_, _, -, -, rfl⟩ := inside_eq_some.mp hDrop
    exact pays_quiet hc rfl rfl (Nat.zero_le _)
  | cloned hc hPhase hNext =>
    rcases hNext with rfl | rfl
    · exact pays_quiet hc rfl rfl (by rw [hPhase]; exact Nat.le_refl _)
    · exact pays_quiet hc rfl rfl (Nat.zero_le _)
  | lock hc hPhase | retainNext hc hPhase | retained hc hPhase | scanNext hc hPhase
  | scanWait hc hPhase | scanQueue hc hPhase | scanConnect hc hPhase | scanAgain hc hPhase
  | dial hc hPhase | connected hc hPhase =>
    exact pays_quiet hc rfl rfl (by rw [hPhase]; exact Nat.le_refl _)
  | connectFailed hc | reserveFailed hc | probeSkipped hc | probesMade hc | leave hc
  | cancelLocking hc | cancelIdle hc | cancelConnecting hc =>
    exact pays_quiet hc rfl rfl (Nat.zero_le _)

theorem attempts_le_left {labels : List PoolLabel} (hRun : run poolStep s labels = some u) (c : Nat) :
    attempts c s labels + u.left c ≤ s.left c := by
  induction labels generalizing s with
  | nil =>
    cases hRun
    exact (Nat.zero_add _).le
  | cons label labels ih =>
    obtain ⟨t, hStep, hRest⟩ := run_cons_eq_some.mp hRun
    have hFirst := pays_step hStep c
    have hThen := ih hRest
    rw [attempts, hStep]
    dsimp only
    omega

end Attempts

/-- **At most two attempts.** In every run, `connection` returns a pair to a caller of
`query_wire` at most twice, and at most once more after any moment at which it has retried.
Each pair is one call on one connection, so a query is written upstream at most twice however
often connections die. -/
theorem query_wire_sends_twice {before after : List PoolLabel} {s u : DotPool}
    (hBefore : run poolStep .new before = some s) (hAfter : run poolStep s after = some u) (c : Nat) :
    attempts c .new before + attempts c s after ≤ 2 ∧
    ∀ caller, s.callers[c]? = some caller → caller.retried = true → attempts c s after ≤ 1 := by
  have hFirst := attempts_le_left hBefore c
  have hThen := attempts_le_left hAfter c
  have hStart : DotPool.left .new c = 2 := rfl
  refine ⟨by omega, fun caller hc hRetried => ?_⟩
  have hLeft : s.left c ≤ 1 := by
    unfold DotPool.left
    rw [hc]
    show PoolPhase.left caller.retried caller.phase ≤ 1
    rw [hRetried]
    unfold PoolPhase.left
    split <;> simp
  omega

/-- Its first connection fails under it: it retries, and dials again. -/
def askTwice : List PoolLabel :=
  dialAndAsk.take 17 ++ [.inside 0 (.readError (.connection "eof")), .inside 0 .readerFail,
    .inside 0 .drain, .inside 0 (.deliver 0), .finish 0]

def askTwiceThen : List PoolLabel :=
  [.lock 0, .retain 0, .retain 0, .scan 0, .dial 0, .lock 0, .retain 0, .scan 0, .connected 0,
    .reserve 0, .push 0]

theorem query_wire_sends_twice_retried :
    ∃ s u caller, run poolStep .new askTwice = some s ∧ run poolStep s askTwiceThen = some u ∧
      s.callers[0]? = some caller ∧ caller.retried = true ∧
      attempts 0 .new askTwice = 1 ∧ attempts 0 s askTwiceThen = 1 ∧
      attempts 0 .new askTwice + attempts 0 s askTwiceThen ≤ 2 := by
  have hView : (run poolStep .new askTwice).bind (fun s =>
      (run poolStep s askTwiceThen).bind fun _ =>
        (s.callers[0]?).map fun caller =>
          (caller.retried, attempts 0 .new askTwice, attempts 0 s askTwiceThen)) =
      some (true, 1, 1) := by decide +kernel
  obtain ⟨s, hBefore, hView⟩ := Option.bind_eq_some_iff.mp hView
  obtain ⟨u, hAfter, hView⟩ := Option.bind_eq_some_iff.mp hView
  obtain ⟨caller, hc, hView⟩ := Option.map_eq_some_iff.mp hView
  obtain ⟨hRetried, hCounts⟩ := Prod.mk.inj hView
  obtain ⟨hOnce, hAgain⟩ := Prod.mk.inj hCounts
  exact ⟨s, u, caller, hBefore, hAfter, hc, hRetried, hOnce, hAgain,
    (query_wire_sends_twice hBefore hAfter 0).1⟩

end DnsRs.Dot
