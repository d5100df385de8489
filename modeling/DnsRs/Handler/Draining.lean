import DnsRs.Lib.Tally
import DnsRs.Handler.Flights
import DnsRs.Handler.Provenance

/-!
# Queries are answered, once, and the handler comes to rest

What holds of all tasks of the handler together, in every interleaving of clients, refreshes,
the timer, the sweeper, cancellations and swaps of the blocklist:

* `queries_answered_once` — the queries that came in are the ones answered, the ones some task
  is working on, and the ones whose client went away. None is lost and none is answered twice.
* `refresh_permits_conserved` — the free permits and those that tasks hold are always
  `REFRESH_CONCURRENCY`, so no more than that many refreshes are under way.
* `handler_waits_for_upstream` — a task that is not idle can go on, or waits for the upstream, or
  waits for the cell of a task of which this is true.
* `handler_drains` — the steps left to take without a new query are bounded, and while the
  upstream returns, in whatever way, they lead to a state in which everybody is idle.
-/

namespace DnsRs.Handler

open Lib Wire Cache InFlight

variable {RecordType DNSClass Heap : Type} {rr : RrFrom RecordType DNSClass}

/-! ## What tasks count for -/

/-- The query a task is working on for a client. -/
def Task.asked : Task rr → Multiset Bytes
  | .missed q | .spawning q _ (.client _ _) | .inFlight q .client _ | .replying q _ _ => {q.raw}
  | _ => 0

/-- The refresh permit a task holds. -/
def Task.permits : Task rr → Nat
  | .spawning _ .blocklist _ | .spawning _ (.release true) _ | .spawning _ .dropPermit _ => 1
  | .inFlight _ .refresh _ | .releasing _ | .leaving => 1
  | _ => 0

/-- The steps of the caller of `spawn_refresh` after the call. Each other candidate of the timer
costs the call, and the refresh that is spawned. -/
def Caller.work : Caller → Nat
  | .client _ _ => 1
  | .timer rest => 11 * rest.length + 1

/-- The steps of the call itself, and of the refresh. -/
def Spawning.work : Spawning → Nat
  | .permit => 10
  | .blocklist => 9
  | .release _ => 2
  | .dropPermit => 1

/-- How many steps a task has left at most, those of the refreshes it spawns included. -/
def Task.work : Task rr → Nat
  | .idle => 0
  | .leaving | .replying _ _ _ => 1
  | .releasing _ => 2
  | .inFlight _ _ (.fetched _ _ _) => 3
  | .inFlight _ _ (.fetching _ (.produced _)) => 4
  | .inFlight _ _ (.fetching _ (.settling _)) => 5
  | .inFlight _ _ (.fetching _ .resolving) => 6
  | .inFlight _ _ (.waiting _ _) => 7
  | .inFlight _ _ .entering => 8
  | .missed _ => 9
  | .spawning _ progress caller => caller.work + progress.work
  | .timing rest => 11 * rest.length + 1
  | .scanning budget => 11 * budget + 2

/-- All but finitely many tasks are idle. -/
def Few (s : State rr Heap) : Prop := FewBusy .idle s.tasks

section Tasks

variable {s u : State rr Heap} {t : Nat} {old new : Task rr}

theorem Caller.work_resume (q : Request rr) (caller : Caller) :
    (caller.resume q).work = caller.work := by
  cases caller <;> rfl

theorem Caller.permits_resume (q : Request rr) (caller : Caller) : (caller.resume q).permits = 0 := by
  cases caller <;> rfl

@[simp] theorem Task.asked_idle : (Task.idle : Task rr).asked = 0 := rfl

theorem Task.asked_spawning (q : Request rr) (progress progress' : Spawning) (caller : Caller) :
    (Task.spawning q progress caller).asked = (Task.spawning q progress' caller).asked := by
  cases caller <;> rfl

theorem Task.asked_inFlight (q : Request rr) (role : Role)
    (flight flight' : Flight RecordType DNSClass) :
    (Task.inFlight q role flight).asked = (Task.inFlight q role flight').asked := by
  cases role <;> rfl

theorem Task.permits_inFlight (q : Request rr) (role : Role)
    (flight flight' : Flight RecordType DNSClass) :
    (Task.inFlight q role flight).permits = (Task.inFlight q role flight').permits := by
  cases role <;> rfl

/-- The answer a client gets after `spawn_refresh` is still for its own query. -/
theorem Caller.asked_resume (q : Request rr) (progress : Spawning) (caller : Caller) :
    (caller.resume q).asked = (Task.spawning q progress caller).asked := by
  cases caller <;> rfl

theorem Role.asked_resume (q : Request rr) (wire : Bytes) (role : Role)
    (flight : Flight RecordType DNSClass) :
    (role.resume q wire).asked = (Task.inFlight q role flight).asked := by
  cases role <;> rfl

theorem Role.permits_resume (q : Request rr) (wire : Bytes) (role : Role)
    (flight : Flight RecordType DNSClass) :
    (role.resume q wire).permits = (Task.inFlight q role flight).permits := by
  cases role <;> rfl

theorem Role.permits_cancelled (q : Request rr) (role : Role) (flight : Flight RecordType DNSClass) :
    (role.cancelled : Task rr).permits = (Task.inFlight q role flight).permits := by
  cases role <;> rfl

theorem Role.work_resume (q : Request rr) (wire : Bytes) (role : Role) :
    (role.resume q wire).work ≤ 2 := by
  cases role <;> simp [Role.resume, Task.work]

theorem Role.work_cancelled (role : Role) : (role.cancelled : Task rr).work ≤ 1 := by
  cases role <;> simp [Role.cancelled, Task.work]

/-- One task changes. -/
theorem tally_task {M : Type} [AddCommMonoid M] {w : Task rr → M} (hIdle : w .idle = 0) (h : Few s)
    (ht : s.tasks t = old) (hTasks : u.tasks = Function.update s.tasks t new) :
    tally w u.tasks + w old = tally w s.tasks + w new := by
  rw [hTasks, ← ht]
  exact tally_update hIdle h

theorem tasks_goto_other {t child : Nat} {q : Request rr} {progress : Spawning} {caller : Caller}
    {task : Task rr} (ht : s.tasks t = .spawning q progress caller)
    (hChild : s.tasks child = .idle) : (s.goto child task).tasks t = .spawning q progress caller := by
  have hne : t ≠ child := by
    rintro rfl
    rw [ht] at hChild
    cases hChild
  exact (Function.update_of_ne hne ..).trans ht

end Tasks

/-! ## Every query once -/

/-- The bytes `handle_query` is called with. -/
def Label.raw? : Label → Option Bytes
  | .query _ raw _ => some raw
  | _ => none

/-- The query whose client goes away in this step. -/
def Label.abandons (label : Label) (s : State rr Heap) : Multiset Bytes :=
  match label with
  | .cancel t => (s.tasks t).asked
  | _ => 0

/-- The queries that came in. -/
def queries (labels : List Label) : Multiset Bytes := labels.filterMap Label.raw?

/-- The queries that were answered. -/
def State.answered (s : State rr Heap) : Multiset Bytes := s.answers.map Answer.raw

/-- The queries that tasks are working on. -/
noncomputable def State.pending (s : State rr Heap) : Multiset Bytes := tally Task.asked s.tasks

/-- The queries whose clients went away. -/
def abandoned (past : List (State rr Heap × Label)) : Multiset Bytes :=
  (past.map fun moment => moment.2.abandons moment.1).sum

/-- What one step adds on either side. -/
def Balanced (s : State rr Heap) (label : Label) (u : State rr Heap) : Prop :=
  s.answered + s.pending + queries [label] = u.answered + u.pending + label.abandons s

section Balanced

variable {s u : State rr Heap} {label : Label} {t : Nat} {old new : Task rr}

/-- A task goes on with its query. -/
theorem balanced_keep (h : Few s) (ht : s.tasks t = old)
    (hTasks : u.tasks = Function.update s.tasks t new) (hAnswers : u.answers = s.answers)
    (hAsked : new.asked = old.asked) (hQuery : label.raw? = none) (hStays : label.abandons s = 0) :
    Balanced s label u := by
  have hPending : u.pending + old.asked = s.pending + new.asked := tally_task rfl h ht hTasks
  rw [hAsked] at hPending
  unfold Balanced State.answered queries
  rw [hAnswers, add_right_cancel hPending, hStays, List.filterMap_cons_none hQuery]
  rfl

/-- A task takes up a query. -/
theorem balanced_begin {raw : Bytes} {now : Nat} (h : Few s) (ht : s.tasks t = .idle)
    (hTasks : u.tasks = Function.update s.tasks t new) (hAnswers : u.answers = s.answers)
    (hAsked : new.asked = {raw}) : Balanced s (.query t raw now) u := by
  have hPending : u.pending + 0 = s.pending + new.asked := tally_task rfl h ht hTasks
  rw [hAsked, add_zero] at hPending
  unfold Balanced State.answered
  rw [hAnswers, hPending]
  show _ + _ + ({raw} : Multiset Bytes) = _ + (_ + {raw}) + 0
  abel

/-- A task answers the query it has worked on. -/
theorem balanced_answer {raw response : Bytes} {path : Path} (h : Few s) (ht : s.tasks t = old)
    (hAsked : old.asked = {raw}) (hQuery : label.raw? = none) (hStays : label.abandons s = 0) :
    Balanced s label (s.answer t raw path response) := by
  have hPending : (s.answer t raw path response).pending + old.asked =
      s.pending + (Task.idle : Task rr).asked := tally_task rfl h ht rfl
  have hAnswered : (s.answer t raw path response).answered = {raw} + s.answered := rfl
  rw [hAsked, Task.asked_idle, add_zero] at hPending
  unfold Balanced queries
  rw [← hPending, hAnswered, hStays, List.filterMap_cons_none hQuery]
  show _ + (_ + ({raw} : Multiset Bytes)) + 0 = _
  abel

/-- A query is answered at once. -/
theorem balanced_atOnce {raw response : Bytes} {path : Path} {now : Nat} (h : Few s)
    (ht : s.tasks t = .idle) : Balanced s (.query t raw now) (s.answer t raw path response) := by
  have hPending : (s.answer t raw path response).pending + (Task.idle : Task rr).asked =
      s.pending + (Task.idle : Task rr).asked := tally_task rfl h ht rfl
  have hAnswered : (s.answer t raw path response).answered = {raw} + s.answered := rfl
  unfold Balanced
  rw [add_right_cancel hPending, hAnswered]
  show _ + _ + ({raw} : Multiset Bytes) = _ + _ + _ + 0
  abel

/-- A task is dropped. -/
theorem balanced_cancel (h : Few s) (ht : s.tasks t = old)
    (hTasks : u.tasks = Function.update s.tasks t new) (hAnswers : u.answers = s.answers)
    (hAsked : new.asked = 0) : Balanced s (.cancel t) u := by
  have hPending : u.pending + old.asked = s.pending + new.asked := tally_task rfl h ht hTasks
  rw [hAsked, add_zero] at hPending
  have hGone : (Label.cancel t).abandons s = old.asked := congrArg Task.asked ht
  unfold Balanced State.answered
  rw [hAnswers, hGone, ← hPending]
  show _ + (_ + _) + (0 : Multiset Bytes) = _
  abel

theorem Role.asked_cancelled (role : Role) : (role.cancelled : Task rr).asked = 0 := by
  cases role <;> rfl

end Balanced

/-! ## Whose answer it is -/

/-- The task that returns in this step, if it has its answer by then. -/
def Label.returns? : Label → Option Nat
  | .query t _ _ | .reply t | .checkMiss t => some t
  | _ => none

/-- What a step is to the queries that tasks are working on. -/
inductive Outcome (s : State rr Heap) (label : Label) (u : State rr Heap) : Prop where
  | begins {t now : Nat} {raw : Bytes} (hLabel : label = .query t raw now)
      (hIdle : s.tasks t = .idle) (hAsked : (u.tasks t).asked = {raw})
      (hOthers : ∀ t', t' ≠ t → u.tasks t' = s.tasks t') (hAnswers : u.answers = s.answers)
  | goesOn (hLabel : label.raw? = none)
      (hAsked : ∀ t, label ≠ .cancel t → (u.tasks t).asked = (s.tasks t).asked)
      (hAnswers : u.answers = s.answers)
  | atOnce {t now : Nat} {a : Answer} (hLabel : label = .query t a.raw now)
      (hIdle : s.tasks t = .idle) (hTasks : u.tasks = s.tasks)
      (hAnswers : u.answers = a :: s.answers)
  | returns {t : Nat} {a : Answer} (hLabel : label.raw? = none) (hTask : label.returns? = some t)
      (hAsked : (s.tasks t).asked = {a.raw}) (hTasks : u.tasks = Function.update s.tasks t .idle)
      (hAnswers : u.answers = a :: s.answers)

section Outcome

variable {s u : State rr Heap} {label : Label} {t : Nat} {old new : Task rr}

theorem outcome_goesOn (ht : s.tasks t = old) (hTasks : u.tasks = Function.update s.tasks t new)
    (hAnswers : u.answers = s.answers) (hAsked : label ≠ .cancel t → new.asked = old.asked)
    (hLabel : label.raw? = none) : Outcome s label u := by
  refine .goesOn hLabel (fun t' hKept => ?_) hAnswers
  by_cases hEq : t' = t
  · subst hEq
    rw [hTasks, Function.update_self, ht]
    exact hAsked hKept
  · rw [hTasks, Function.update_of_ne hEq]

theorem outcome_begins {raw : Bytes} {now : Nat} (ht : s.tasks t = .idle)
    (hTasks : u.tasks = Function.update s.tasks t new) (hAnswers : u.answers = s.answers)
    (hAsked : new.asked = {raw}) : Outcome s (.query t raw now) u := by
  refine .begins rfl ht ?_ (fun t' hEq => ?_) hAnswers
  · rw [hTasks, Function.update_self]
    exact hAsked
  · rw [hTasks, Function.update_of_ne hEq]

theorem outcome_atOnce {raw response : Bytes} {path : Path} {now : Nat} (ht : s.tasks t = .idle) :
    Outcome s (.query t raw now) (s.answer t raw path response) := by
  refine .atOnce (a := ⟨raw, path, response⟩) rfl ht ?_ rfl
  show Function.update s.tasks t .idle = s.tasks
  rw [← ht, Function.update_eq_self]

theorem outcome_returns {raw response : Bytes} {path : Path} (ht : s.tasks t = old)
    (hAsked : old.asked = {raw}) (hLabel : label.raw? = none) (hTask : label.returns? = some t) :
    Outcome s label (s.answer t raw path response) :=
  .returns (a := ⟨raw, path, response⟩) hLabel hTask (by rw [ht]; exact hAsked) rfl rfl

end Outcome

/-- The permits that are free, and those that tasks hold. -/
def Conserved (s u : State rr Heap) : Prop :=
  u.refreshSlots + tally Task.permits u.tasks = s.refreshSlots + tally Task.permits s.tasks

theorem scanCandidates_length {budget now count entry : Nat} {requests requests' : List Bytes}
    {st st' : CacheState RecordType DNSClass Heap} (hLe : requests.length ≤ budget)
    (h : ResponseCache.scanCandidates budget now count entry requests st = .ok (requests', st')) :
    requests'.length ≤ budget := by
  induction count generalizing entry requests st with
  | zero =>
    cases h
    exact hLe
  | succ count ih =>
    rw [ResponseCache.scanCandidates] at h
    split at h
    · cases h
      exact hLe
    · rename_i hStop
      have hRoom : requests.length < budget :=
        Nat.lt_of_le_of_ne hLe fun hFull => hStop (.inr hFull)
      obtain ⟨m, -, h⟩ := bind_eq_ok.mp h
      split at h
      · cases h
      · split at h
        · obtain ⟨request, -, h⟩ := bind_eq_ok.mp h
          obtain ⟨st₁, -, h⟩ := bind_eq_ok.mp h
          refine ih ?_ h
          rw [List.length_append]
          exact hRoom
        · exact ih hLe h

/-- The timer gets no more candidates than it has read permits. -/
theorem refreshCandidates_length {c c' : ResponseCache RecordType DNSClass Heap} {budget now : Nat}
    {requests : List Bytes} (h : c.refreshCandidates budget now = .ok (requests, c')) :
    requests.length ≤ budget := by
  unfold ResponseCache.refreshCandidates at h
  split at h
  · cases h
    exact Nat.zero_le _
  · obtain ⟨⟨found, st⟩, hScan, h⟩ := bind_eq_ok.mp h
    cases h
    exact scanCandidates_length (Nat.zero_le _) hScan

section Change

variable {s u : State rr Heap} {t : Nat} {old new : Task rr}

/-- What a task takes is not free any more, and what it drops is. -/
theorem conserved_change (h : Few s) (ht : s.tasks t = old)
    (hTasks : u.tasks = Function.update s.tasks t new)
    (hSlots : u.refreshSlots + new.permits = s.refreshSlots + old.permits) : Conserved s u := by
  have hTally : tally Task.permits u.tasks + old.permits =
      tally Task.permits s.tasks + new.permits := tally_task rfl h ht hTasks
  unfold Conserved
  omega

/-- A task keeps what it holds. -/
theorem conserved_keep (h : Few s) (ht : s.tasks t = old)
    (hTasks : u.tasks = Function.update s.tasks t new) (hSlots : u.refreshSlots = s.refreshSlots)
    (hPermits : new.permits = old.permits) : Conserved s u :=
  conserved_change h ht hTasks (by rw [hSlots, hPermits])

/-- A task gets on. -/
theorem work_lt (h : Few s) (ht : s.tasks t = old)
    (hTasks : u.tasks = Function.update s.tasks t new) (hLess : new.work < old.work) :
    tally Task.work u.tasks < tally Task.work s.tasks := by
  have hTally : tally Task.work u.tasks + old.work = tally Task.work s.tasks + new.work :=
    tally_task rfl h ht hTasks
  omega

end Change

/-- The task is at `resolve_wire(..).await`. -/
def AwaitsUpstream (s : State rr Heap) (t : Nat) : Prop :=
  ∃ q role place, s.tasks t = .inFlight q role (.fetching place .resolving)

/-- The task runs the fetch of this cell. -/
def Fetches (s : State rr Heap) (t cell : Nat) : Prop :=
  ∃ q role key fetch, s.tasks t = .inFlight q role (.fetching (some (key, cell)) fetch)

/-- A task is at the fetch of a cell if the registry sees it there. -/
theorem fetches_of_phase {s : State rr Heap} {t cell : Nat} {key : FlightKey RecordType DNSClass}
    (h : phaseOf (s.tasks t) = .fetching key cell) : Fetches s t cell := by
  unfold phaseOf at h
  split at h
  case h_3 q role key' cell' fetch ht =>
    cases h
    exact ⟨q, role, key, fetch, ht⟩
  all_goals cases h

variable [DecidableEq RecordType] [DecidableEq DNSClass] {sys : System RecordType DNSClass Heap}
  {s u : State sys.rr Heap} {label : Label}

theorem few_moves (h : Few s) (hMoves : Moves s label u) : Few u := by
  cases hMoves with
  | crash | sweep | swap => exact h
  | refreshSpawned => exact FewBusy.update (FewBusy.update h)
  | malformed | static | lookupMiss | lookupRefresh | lookupHit | reply | permitDenied | permitTaken
  | refreshBlocked | spawnReleased | spawnDropped | missBlocked | missAllowed | enterDirect
  | enterShared | enterFresh | initialise | wake | resolved | stored | uncached | failed
  | publishDirect | publish | remove | release | leave | cancelWaiting | cancelDirect
  | cancelFetching | tick | scan | timerDone | timerSkip | timerSpawn => exact FewBusy.update h

/-- **One step.** -/
theorem balanced_moves (h : Few s) (hFaults : ∀ f, ¬ Faults s f) (hMoves : Moves s label u) :
    Balanced s label u := by
  cases hMoves with
  | crash hFault => exact absurd hFault (hFaults _)
  | malformed ht | static ht => exact balanced_atOnce h ht
  | lookupMiss ht | lookupRefresh ht | lookupHit ht => exact balanced_begin h ht rfl rfl rfl
  | reply ht | missBlocked ht => exact balanced_answer h ht rfl rfl rfl
  | permitDenied ht | permitTaken ht | refreshBlocked ht =>
    exact balanced_keep h ht rfl rfl (Task.asked_spawning ..) rfl rfl
  | @spawnReleased t now q caller permit cache ht hRelease =>
    refine balanced_keep h ht rfl rfl ?_ rfl rfl
    cases permit with
    | true => exact Task.asked_spawning ..
    | false => exact Caller.asked_resume ..
  | spawnDropped ht => exact balanced_keep h ht rfl rfl (Caller.asked_resume ..) rfl rfl
  | @refreshSpawned t child q caller ht hChild hBlocked =>
    -- the refresh is nobody's query
    have hSpawned : Balanced s (.checkRefresh t child)
        (s.goto child (.inFlight q .refresh .entering)) := balanced_keep h hChild rfl rfl rfl rfl rfl
    have hResumed : Balanced (s.goto child (.inFlight q .refresh .entering)) (.checkRefresh t child)
        ((s.goto child (.inFlight q .refresh .entering)).goto t (caller.resume q)) :=
      balanced_keep (FewBusy.update h) (tasks_goto_other ht hChild) rfl rfl (Caller.asked_resume ..)
        rfl rfl
    exact hSpawned.trans hResumed
  | missAllowed ht | release ht | leave ht | tick ht | scan ht | timerDone ht | timerSkip ht
  | timerSpawn ht => exact balanced_keep h ht rfl rfl rfl rfl rfl
  | enterDirect ht | enterShared ht | enterFresh ht | initialise ht | wake ht | resolved ht
  | stored ht | uncached ht | failed ht | publish ht =>
    exact balanced_keep h ht rfl rfl (Task.asked_inFlight ..) rfl rfl
  | publishDirect ht | remove ht =>
    exact balanced_keep h ht rfl rfl (Role.asked_resume ..) rfl rfl
  | cancelWaiting ht | cancelDirect ht | cancelFetching ht =>
    exact balanced_cancel h ht rfl rfl (Role.asked_cancelled _)
  | sweep | swap => rfl

/-- **One step.** -/
theorem outcome_moves (hFaults : ∀ f, ¬ Faults s f) (hMoves : Moves s label u) :
    Outcome s label u := by
  cases hMoves with
  | crash hFault => exact absurd hFault (hFaults _)
  | malformed ht | static ht => exact outcome_atOnce ht
  | lookupMiss ht | lookupRefresh ht | lookupHit ht => exact outcome_begins ht rfl rfl rfl
  | reply ht | missBlocked ht => exact outcome_returns ht rfl rfl rfl
  | permitDenied ht | permitTaken ht | refreshBlocked ht =>
    exact outcome_goesOn ht rfl rfl (fun _ => Task.asked_spawning ..) rfl
  | @spawnReleased t now q caller permit cache ht hRelease =>
    refine outcome_goesOn ht rfl rfl (fun _ => ?_) rfl
    cases permit with
    | true => exact Task.asked_spawning ..
    | false => exact Caller.asked_resume ..
  | spawnDropped ht => exact outcome_goesOn ht rfl rfl (fun _ => Caller.asked_resume ..) rfl
  | @refreshSpawned t child q caller ht hChild hBlocked =>
    refine .goesOn rfl (fun t' _ => ?_) rfl
    show (Function.update (Function.update s.tasks child _) t _ t').asked = _
    by_cases hEq : t' = t
    · subst hEq
      rw [Function.update_self, ht]
      exact Caller.asked_resume ..
    · rw [Function.update_of_ne hEq]
      by_cases hRefresh : t' = child
      · -- the refresh is nobody's query
        subst hRefresh
        rw [Function.update_self, hChild]
        rfl
      · rw [Function.update_of_ne hRefresh]
  | missAllowed ht | release ht | leave ht | tick ht | scan ht | timerDone ht | timerSkip ht
  | timerSpawn ht => exact outcome_goesOn ht rfl rfl (fun _ => rfl) rfl
  | enterDirect ht | enterShared ht | enterFresh ht | initialise ht | wake ht | resolved ht
  | stored ht | uncached ht | failed ht | publish ht =>
    exact outcome_goesOn ht rfl rfl (fun _ => Task.asked_inFlight ..) rfl
  | publishDirect ht | remove ht =>
    exact outcome_goesOn ht rfl rfl (fun _ => Role.asked_resume ..) rfl
  | cancelWaiting ht | cancelDirect ht | cancelFetching ht =>
    exact outcome_goesOn ht rfl rfl (fun hKept => absurd rfl hKept) rfl
  | sweep | swap => exact .goesOn rfl (fun _ _ => rfl) rfl

/-! ## Refresh permits -/

/-- **One step.** -/
theorem conserved_moves (h : Few s) (hMoves : Moves s label u) : Conserved s u := by
  cases hMoves with
  | crash | sweep | swap => rfl
  | malformed ht | static ht | lookupMiss ht | lookupRefresh ht | lookupHit ht | reply ht
  | permitDenied ht | refreshBlocked ht | missBlocked ht | missAllowed ht | release ht | tick ht
  | scan ht | timerDone ht | timerSkip ht | timerSpawn ht => exact conserved_keep h ht rfl rfl rfl
  | enterDirect ht | enterShared ht | enterFresh ht | initialise ht | wake ht | resolved ht
  | stored ht | uncached ht | failed ht | publish ht =>
    exact conserved_keep h ht rfl rfl (Task.permits_inFlight ..)
  | publishDirect ht | remove ht => exact conserved_keep h ht rfl rfl (Role.permits_resume ..)
  | cancelWaiting ht | cancelDirect ht | cancelFetching ht =>
    exact conserved_keep h ht rfl rfl (Role.permits_cancelled ..)
  | permitTaken ht hSlots =>
    exact conserved_change h ht rfl (Nat.sub_add_cancel (Nat.pos_of_ne_zero hSlots))
  | @refreshSpawned t child q caller ht hChild hBlocked =>
    -- the permit goes to the refresh
    have hSpawned : tally Task.permits (s.goto child (.inFlight q .refresh .entering)).tasks +
          (Task.idle : Task sys.rr).permits = tally Task.permits s.tasks +
          (Task.inFlight q .refresh .entering : Task sys.rr).permits := tally_task rfl h hChild rfl
    have hResumed : tally Task.permits
          ((s.goto child (.inFlight q .refresh .entering)).goto t (caller.resume q)).tasks +
          (Task.spawning q .blocklist caller : Task sys.rr).permits =
        tally Task.permits (s.goto child (.inFlight q .refresh .entering)).tasks +
          (caller.resume q).permits :=
      tally_task rfl (FewBusy.update h) (tasks_goto_other ht hChild) rfl
    rw [Caller.permits_resume] at hResumed
    simp only [Task.permits] at hSpawned hResumed
    show s.refreshSlots + _ = s.refreshSlots + _
    omega
  | @spawnReleased t now q caller permit cache ht hRelease =>
    refine conserved_keep h ht rfl rfl ?_
    cases permit with
    | true => rfl
    | false => exact Caller.permits_resume q caller
  | @spawnDropped t q caller ht =>
    refine conserved_change h ht rfl ?_
    rw [Caller.permits_resume]
    rfl
  | leave ht => exact conserved_change h ht rfl rfl

/-! ## Work -/

/-- Not a new query, and not a tick of the timer. -/
def Label.closed : Label → Bool
  | .query _ _ _ | .tick _ => false
  | _ => true

/-- A step of a task. -/
def Label.works : Label → Bool
  | .query _ _ _ | .tick _ | .sweep _ _ _ | .swap _ => false
  | _ => true

/-- **One step.** -/
theorem work_moves (h : Few s) (hFaults : ∀ f, ¬ Faults s f) (hClosed : label.closed = true)
    (hMoves : Moves s label u) :
    tally Task.work u.tasks ≤ tally Task.work s.tasks ∧
      (label.works = true → tally Task.work u.tasks < tally Task.work s.tasks) := by
  have hLess : tally Task.work u.tasks < tally Task.work s.tasks →
      tally Task.work u.tasks ≤ tally Task.work s.tasks ∧
        (label.works = true → tally Task.work u.tasks < tally Task.work s.tasks) :=
    fun hLt => ⟨hLt.le, fun _ => hLt⟩
  cases hMoves with
  | crash hFault => exact absurd hFault (hFaults _)
  | malformed | static | lookupMiss | lookupRefresh | lookupHit | tick => cases hClosed
  | sweep | swap => exact ⟨Nat.le_refl _, fun hWorks => by cases hWorks⟩
  | reply ht | permitDenied ht | permitTaken ht | refreshBlocked ht | missBlocked ht | missAllowed ht
  | enterDirect ht | enterShared ht | enterFresh ht | initialise ht | wake ht | resolved ht
  | stored ht | uncached ht | failed ht | publish ht | release ht | leave ht | timerDone ht
  | timerSkip ht | timerSpawn ht =>
    refine hLess (work_lt h ht rfl ?_)
    simp only [Task.work, Spawning.work, Caller.work, List.length_cons, List.length_nil]
    omega
  | @refreshSpawned t child q caller ht hChild hBlocked =>
    -- the steps of the refresh were counted for its caller
    have hSpawned : tally Task.work (s.goto child (.inFlight q .refresh .entering)).tasks +
          (Task.idle : Task sys.rr).work = tally Task.work s.tasks +
          (Task.inFlight q .refresh .entering : Task sys.rr).work := tally_task rfl h hChild rfl
    have hResumed : tally Task.work
          ((s.goto child (.inFlight q .refresh .entering)).goto t (caller.resume q)).tasks +
          (Task.spawning q .blocklist caller : Task sys.rr).work =
        tally Task.work (s.goto child (.inFlight q .refresh .entering)).tasks +
          (caller.resume q).work :=
      tally_task rfl (FewBusy.update h) (tasks_goto_other ht hChild) rfl
    rw [Caller.work_resume] at hResumed
    simp only [Task.work, Spawning.work] at hSpawned hResumed
    exact hLess (by omega)
  | @spawnReleased t now q caller permit cache ht hRelease =>
    refine hLess (work_lt h ht rfl ?_)
    cases permit with
    | true => exact Nat.add_lt_add_left (Nat.lt_succ_self 1) _
    | false =>
      show (caller.resume q).work < caller.work + 2
      rw [Caller.work_resume]
      omega
  | @spawnDropped t q caller ht =>
    refine hLess (work_lt h ht rfl ?_)
    rw [Caller.work_resume]
    exact Nat.lt_succ_self _
  | publishDirect ht | remove ht =>
    exact hLess (work_lt h ht rfl (Nat.lt_of_le_of_lt (Role.work_resume ..) (by simp [Task.work])))
  | cancelWaiting ht | cancelDirect ht | cancelFetching ht =>
    exact hLess (work_lt h ht rfl (Nat.lt_of_le_of_lt (Role.work_cancelled _) (by simp [Task.work])))
  | @scan t now budget requests cache ht hScan =>
    refine hLess (work_lt h ht rfl ?_)
    have := refreshCandidates_length hScan
    simp only [Task.work]
    omega

/-- What a query makes a task do. -/
theorem work_query {t now : Nat} {raw : Bytes} (h : Few s) (hFaults : ∀ f, ¬ Faults s f)
    (hMoves : Moves s (.query t raw now) u) :
    tally Task.work u.tasks ≤ tally Task.work s.tasks + 11 := by
  have hNew : ∀ {new : Task sys.rr}, s.tasks t = .idle → u.tasks = Function.update s.tasks t new →
      new.work ≤ 11 → tally Task.work u.tasks ≤ tally Task.work s.tasks + 11 := by
    intro new ht hTasks hWork
    have hTally : tally Task.work u.tasks + (Task.idle : Task sys.rr).work =
        tally Task.work s.tasks + new.work := tally_task rfl h ht hTasks
    have hIdle : (Task.idle : Task sys.rr).work = 0 := rfl
    omega
  cases hMoves with
  | crash hFault => exact absurd hFault (hFaults _)
  | malformed ht | static ht | lookupMiss ht | lookupRefresh ht | lookupHit ht =>
    exact hNew ht rfl (by simp [Task.work, Caller.work, Spawning.work])

/-! ## Nobody waits for nothing -/

/-- The task whose own step this is. A query that begins, a tick, an upstream that returns and a
client that goes away are not up to the handler. -/
def Label.own? : Label → Option Nat
  | .query _ _ _ | .tick _ | .resolved _ _ | .cancel _ | .sweep _ _ _ | .swap _ => none
  | .reply t | .tryPermit t | .checkRefresh t _ | .releaseSpawn t _ | .dropSpawn t | .checkMiss t
  | .enter t | .initialise t | .wake t | .settle t _ _ _ | .publish t | .remove t | .release t _
  | .leave t | .scan t _ | .spawnNext t => some t

/-- The task can take a step. -/
def CanStep (sys : System RecordType DNSClass Heap) (s : State sys.rr Heap) (t : Nat) : Prop :=
  ∃ label u, label.own? = some t ∧ step sys s label = some u

section Progress

variable {t : Nat}

theorem canStep_of_isSome (hAlive : s.fault = none) (label : Label) (hOwn : label.own? = some t)
    (h : (stepLive sys s label).isSome = true) : CanStep sys s t := by
  obtain ⟨u, hu⟩ := Option.isSome_iff_exists.mp h
  refine ⟨label, u, hOwn, ?_⟩
  unfold step
  rw [hAlive]
  exact hu

/-- A fetch goes on as soon as the upstream has returned. -/
theorem fetching_goes_on (hAlive : s.fault = none) {q : Request sys.rr} {role : Role}
    {place : Option (FlightKey RecordType DNSClass × Nat)} {fetch : Fetch}
    (ht : s.tasks t = .inFlight q role (.fetching place fetch)) :
    CanStep sys s t ∨ AwaitsUpstream s t := by
  cases fetch with
  | resolving => exact .inr ⟨q, role, place, ht⟩
  | settling result =>
    exact .inl (canStep_of_isSome hAlive (.settle t 0 0 0) rfl (by simp [stepLive, ht]))
  | produced wire =>
    cases place with
    | none | some => exact .inl (canStep_of_isSome hAlive (.publish t) rfl (by simp [stepLive, ht]))

/-- What a task is waiting for. -/
inductive Waits (sys : System RecordType DNSClass Heap) (s : State sys.rr Heap) (t : Nat) : Prop where
  | idle (ht : s.tasks t = .idle)
  | steps (h : CanStep sys s t)
  | upstream (h : AwaitsUpstream s t)
  /-- a cell, and the task that fetches for it is not stuck -/
  | cell {q role key cell t'} (ht : s.tasks t = .inFlight q role (.waiting key cell))
      (hFetch : Fetches s t' cell) (h : CanStep sys s t' ∨ AwaitsUpstream s t')

/-- A cell has a value, or is free to be initialised, or somebody is at its fetch. -/
theorem waits_for_cell (hAlive : s.fault = none) (hOwned : Owned (flights s)) {q : Request sys.rr}
    {role : Role} {key : FlightKey RecordType DNSClass} {cell : Nat}
    (ht : s.tasks t = .inFlight q role (.waiting key cell)) : Waits sys s t := by
  cases hOwner : (s.inFlight.cells cell).owner with
  | some t' =>
    obtain ⟨-, key', hPhase⟩ := hOwned cell t' hOwner
    obtain ⟨q', role', key', fetch, ht'⟩ := fetches_of_phase hPhase
    exact .cell ht ⟨q', role', key', fetch, ht'⟩ (fetching_goes_on hAlive ht')
  | none =>
    cases hValue : (s.inFlight.cells cell).value with
    | some wire =>
      exact .steps (canStep_of_isSome hAlive (.wake t) rfl (by simp [stepLive, ht, hValue]))
    | none =>
      have hNew : s.inFlight.cells cell = .new := by
        cases hCell : s.inFlight.cells cell with
        | mk value owner =>
          rw [hCell] at hOwner hValue
          cases hOwner
          cases hValue
          rfl
      exact .steps (canStep_of_isSome hAlive (.initialise t) rfl (by simp [stepLive, ht, hNew]))

/-- **No task is stuck.** -/
theorem waits_of_alive (hAlive : s.fault = none) (hFew : Few s) (hOwned : Owned (flights s))
    (t : Nat) : Waits sys s t := by
  -- most tasks need nobody else
  have hSteps : ∀ label : Label, label.own? = some t → (stepLive sys s label).isSome = true →
      Waits sys s t := fun label hOwn h => .steps (canStep_of_isSome hAlive label hOwn h)
  cases ht : s.tasks t with
  | idle => exact .idle ht
  | missed q => exact hSteps (.checkMiss t) rfl (by simp [stepLive, ht])
  | spawning q progress caller =>
    cases progress with
    | permit =>
      refine hSteps (.tryPermit t) rfl ?_
      simp only [stepLive, ht]
      split <;> rfl
    | blocklist =>
      -- a refresh can always be spawned: there are tasks enough
      obtain ⟨child, hChild⟩ := FewBusy.exists_idle hFew
      refine hSteps (.checkRefresh t child) rfl ?_
      simp only [stepLive, ht, hChild]
      split <;> rfl
    | release permit => exact hSteps (.releaseSpawn t 0) rfl (by simp [stepLive, ht])
    | dropPermit => exact hSteps (.dropSpawn t) rfl (by simp [stepLive, ht])
  | inFlight q role flight =>
    cases flight with
    | entering => exact hSteps (.enter t) rfl (by simp [stepLive, ht])
    | waiting key cell => exact waits_for_cell hAlive hOwned ht
    | fetching place fetch =>
      rcases fetching_goes_on hAlive ht with h | h
      · exact .steps h
      · exact .upstream h
    | fetched key cell wire => exact hSteps (.remove t) rfl (by simp [stepLive, ht])
  | replying q wire path => exact hSteps (.reply t) rfl (by simp [stepLive, ht])
  | releasing q => exact hSteps (.release t 0) rfl (by simp [stepLive, ht])
  | leaving => exact hSteps (.leave t) rfl (by simp [stepLive, ht])
  | scanning budget => exact hSteps (.scan t 0) rfl (by simp [stepLive, ht])
  | timing rest => exact hSteps (.spawnNext t) rfl (by simp [stepLive, ht])

end Progress

/-! ## Whole runs -/

/-- What a run keeps. -/
structure Healthy (s : State sys.rr Heap) : Prop where
  traced : ∃ owner, Traced owner s
  few : Few s
  flights : ∃ labels, run InFlight.step .init labels = some (flights s)

section Runs

variable {labels : List Label}

theorem Healthy.alive (h : Healthy s) : s.fault = none := by
  obtain ⟨owner, hTraced⟩ := h.traced
  exact hTraced.alive

theorem Healthy.no_faults (h : Healthy s) (hA : sys.env.alloc.Lawful) (f : Fault) : ¬ Faults s f := by
  obtain ⟨owner, hTraced⟩ := h.traced
  exact hTraced.no_faults hA

theorem Healthy.waits (h : Healthy s) (t : Nat) : Waits sys s t := by
  obtain ⟨labels, hRun⟩ := h.flights
  exact waits_of_alive h.alive h.few (owned_run hRun) t

theorem healthy_start (hA : sys.env.alloc.Lawful) {enabled : Bool} {maxSizeBytes : Nat}
    (hMax : enabled = true → maxSizeBytes ≤ maxCacheBytes) (blocked : Bytes → Bool) :
    Healthy (State.start sys enabled maxSizeBytes blocked) where
  traced := ⟨_, traced_start hA hMax blocked⟩
  few := fewBusy_const
  flights := ⟨[], rfl⟩

theorem healthy_step (hA : sys.env.alloc.Lawful) (h : Healthy s) (hStep : step sys s label = some u) :
    Healthy u where
  traced := by
    obtain ⟨owner, hTraced⟩ := h.traced
    exact hTraced.moves hA (step_moves hStep)
  few := few_moves h.few (step_moves hStep)
  flights := by
    obtain ⟨labels, hRun⟩ := h.flights
    rcases moves_flights (step_moves hStep) with hSame | ⟨a, hMoves⟩
    · exact ⟨labels, hSame ▸ hRun⟩
    · refine ⟨labels ++ [a], run_append_eq_some.mpr ⟨_, hRun, ?_⟩⟩
      exact run_cons_eq_some.mpr ⟨_, hMoves.step_eq, rfl⟩

theorem healthy_run (hA : sys.env.alloc.Lawful) {enabled : Bool} {maxSizeBytes : Nat}
    (hMax : enabled = true → maxSizeBytes ≤ maxCacheBytes) {blocked : Bytes → Bool}
    (hRun : run (step sys) (State.start sys enabled maxSizeBytes blocked) labels = some s) :
    Healthy s :=
  run_invariant (fun _ _ _ h hStep => healthy_step hA h hStep) (healthy_start hA hMax blocked) hRun

theorem queries_cons (label : Label) (labels : List Label) :
    queries (label :: labels) = queries [label] + queries labels := by
  unfold queries
  rw [Multiset.coe_add, ← List.filterMap_append]
  rfl

theorem balanced_run (hA : sys.env.alloc.Lawful) (h : Healthy s)
    (hRun : run (step sys) s labels = some u) :
    s.answered + s.pending + queries labels =
      u.answered + u.pending + abandoned (history (step sys) s labels) := by
  induction labels generalizing s with
  | nil =>
    cases hRun
    rfl
  | cons label labels ih =>
    obtain ⟨t, ht, hRest⟩ := run_cons_eq_some.mp hRun
    have hFirst : Balanced s label t := balanced_moves h.few (h.no_faults hA) (step_moves ht)
    have hThen := ih (healthy_step hA h ht) hRest
    have hPast : abandoned (history (step sys) s (label :: labels)) =
        label.abandons s + abandoned (history (step sys) t labels) := by
      rw [history_cons ht]
      exact List.sum_cons
    calc s.answered + s.pending + queries (label :: labels)
        = s.answered + s.pending + queries [label] + queries labels := by
          rw [queries_cons label labels]
          abel
      _ = t.answered + t.pending + queries labels + label.abandons s := by
          rw [hFirst]
          abel
      _ = u.answered + u.pending + abandoned (history (step sys) s (label :: labels)) := by
          rw [hThen, hPast]
          abel

/-- **Every query once.** Whatever clients, refreshes, the timer, cancellations, the sweeper and
swaps of the blocklist do in whatever order: the queries that came in are, with their
multiplicities, those that were answered, those that some task is working on and those whose client
went away. So no query is lost, none is answered twice, and no client is given the answer to bytes
nobody sent. -/
theorem queries_answered_once (hA : sys.env.alloc.Lawful) {enabled : Bool} {maxSizeBytes : Nat}
    (hMax : enabled = true → maxSizeBytes ≤ maxCacheBytes) {blocked : Bytes → Bool}
    (hRun : run (step sys) (State.start sys enabled maxSizeBytes blocked) labels = some s) :
    queries labels = s.answered + s.pending +
        abandoned (history (step sys) (State.start sys enabled maxSizeBytes blocked) labels) ∧
      ((∀ t, s.tasks t = .idle) → s.pending = 0) := by
  refine ⟨?_, fun hIdle => tally_of_idle rfl hIdle⟩
  have hStart : (State.start sys enabled maxSizeBytes blocked).pending = 0 :=
    tally_of_idle rfl fun _ => rfl
  rw [← balanced_run hA (healthy_start hA hMax blocked) hRun, hStart]
  show _ = 0 + 0 + _
  rw [zero_add, zero_add]

theorem queries_answered_once_busy :
    ∃ s, run (step smallSystem) (State.start smallSystem true 128 fun _ => false)
        (busyMinute.take 22) = some s ∧ s.answers.length = 3 ∧
      queries (busyMinute.take 22) = s.answered + s.pending +
        abandoned (history (step smallSystem) (State.start smallSystem true 128 fun _ => false)
          (busyMinute.take 22)) := by
  have hView : (run (step smallSystem) (State.start smallSystem true 128 fun _ => false)
      (busyMinute.take 22)).map (fun s => s.answers.length) = some 3 := by decide +kernel
  obtain ⟨s, hRun, hEq⟩ := Option.map_eq_some_iff.mp hView
  exact ⟨s, hRun, hEq,
    (queries_answered_once FirstFit.allocator_lawful (fun _ => by decide) hRun).1⟩

/-- **The permits of the background refresh.** In every reachable state the free permits and the
ones that tasks hold are `REFRESH_CONCURRENCY` together, whether calls of `spawn_refresh` found the
name blocked, refreshes failed or were dropped; so no more than that many refreshes are ever under
way, and none of the permits is lost. -/
theorem refresh_permits_conserved (hA : sys.env.alloc.Lawful) {enabled : Bool} {maxSizeBytes : Nat}
    (hMax : enabled = true → maxSizeBytes ≤ maxCacheBytes) {blocked : Bytes → Bool}
    (hRun : run (step sys) (State.start sys enabled maxSizeBytes blocked) labels = some s) :
    s.refreshSlots + tally Task.permits s.tasks = refreshConcurrency ∧
    (∀ refreshes : Finset Nat, (∀ t ∈ refreshes, ∃ q flight, s.tasks t = .inFlight q .refresh flight) →
      refreshes.card ≤ refreshConcurrency) ∧
    ((∀ t, s.tasks t = .idle) → s.refreshSlots = refreshConcurrency) := by
  have hConserved : Healthy s ∧ s.refreshSlots + tally Task.permits s.tasks = refreshConcurrency := by
    refine run_invariant (I := fun s => Healthy s ∧
      s.refreshSlots + tally Task.permits s.tasks = refreshConcurrency) ?_ ⟨?_, ?_⟩ hRun
    · rintro s label u ⟨h, hEq⟩ hStep
      exact ⟨healthy_step hA h hStep, (conserved_moves h.few (step_moves hStep)).trans hEq⟩
    · exact healthy_start hA hMax blocked
    · show refreshConcurrency + tally Task.permits (fun _ => .idle) = refreshConcurrency
      rw [tally_of_idle (w := Task.permits) rfl fun _ => rfl]
      rfl
  obtain ⟨h, hEq⟩ := hConserved
  refine ⟨hEq, fun refreshes hAll => ?_, fun hIdle => ?_⟩
  · have hCard : refreshes.card ≤ tally Task.permits s.tasks := by
      refine card_le_tally (w := Task.permits) rfl h.few fun t ht => ?_
      obtain ⟨q, flight, hTask⟩ := hAll t ht
      rw [hTask]
      exact Nat.le_refl 1
    omega
  · rw [tally_of_idle (w := Task.permits) rfl hIdle] at hEq
    exact hEq

theorem refresh_permits_conserved_busy :
    ∃ s, run (step smallSystem) (State.start smallSystem true 128 fun _ => false)
        (busyMinute.take 21) = some s ∧ s.refreshSlots = 3 ∧
      s.refreshSlots + tally Task.permits s.tasks = refreshConcurrency := by
  have hView : (run (step smallSystem) (State.start smallSystem true 128 fun _ => false)
      (busyMinute.take 21)).map (fun s => s.refreshSlots) = some 3 := by decide +kernel
  obtain ⟨s, hRun, hEq⟩ := Option.map_eq_some_iff.mp hView
  exact ⟨s, hRun, hEq,
    (refresh_permits_conserved FirstFit.allocator_lawful (fun _ => by decide) hRun).1⟩

/-- **Nobody waits for nothing.** In every reachable state a task that is not idle can take a step
of its own, or is waiting for the upstream, or is waiting for a cell whose fetch another task is at
that can take a step or is waiting for the upstream. -/
theorem handler_waits_for_upstream (hA : sys.env.alloc.Lawful) {enabled : Bool} {maxSizeBytes : Nat}
    (hMax : enabled = true → maxSizeBytes ≤ maxCacheBytes) {blocked : Bytes → Bool}
    (hRun : run (step sys) (State.start sys enabled maxSizeBytes blocked) labels = some s) (t : Nat) :
    Waits sys s t :=
  (healthy_run hA hMax hRun).waits t

/-- The second client waits for the cell that the first one fetches for. -/
theorem waits_for_upstream_busy :
    ∃ s, run (step smallSystem) (State.start smallSystem true 128 fun _ => false)
        (busyMinute.take 7) = some s ∧ phaseOf (s.tasks 1) = .waiting ⟨1, 1, 0, ⟨[0x61, 0x2e], by decide⟩⟩ 0 ∧
      Waits smallSystem s 1 := by
  have hView : (run (step smallSystem) (State.start smallSystem true 128 fun _ => false)
      (busyMinute.take 7)).map (fun s => phaseOf (s.tasks 1)) =
        some (.waiting ⟨1, 1, 0, ⟨[0x61, 0x2e], by decide⟩⟩ 0) := by decide +kernel
  obtain ⟨s, hRun, hEq⟩ := Option.map_eq_some_iff.mp hView
  exact ⟨s, hRun, hEq,
    handler_waits_for_upstream FirstFit.allocator_lawful (fun _ => by decide) hRun 1⟩

theorem works_of_own {t : Nat} (h : label.own? = some t) :
    label.closed = true ∧ label.works = true := by
  cases label with
  | query | tick | resolved | cancel | sweep | swap => cases h
  | reply | tryPermit | checkRefresh | releaseSpawn | dropSpawn | checkMiss | enter | initialise | wake
  | settle | publish | remove | release | leave | scan | spawnNext => exact ⟨rfl, rfl⟩

/-- A step of a task, or the upstream returns something. -/
def Label.onwards (label : Label) : Prop :=
  label.own?.isSome = true ∨ ∃ t result, label = .resolved t result

/-- While a task is not idle, some task gets on when the upstream returns. -/
theorem Healthy.gets_on (h : Healthy s) (hA : sys.env.alloc.Lawful) {t : Nat}
    (hBusy : s.tasks t ≠ .idle) :
    ∃ label u, label.onwards ∧ step sys s label = some u ∧ Healthy u ∧
      tally Task.work u.tasks < tally Task.work s.tasks := by
  have hStep : ∀ t, CanStep sys s t → ∃ label u, label.onwards ∧ step sys s label = some u ∧
      Healthy u ∧ tally Task.work u.tasks < tally Task.work s.tasks := by
    rintro t ⟨label, u, hOwn, hu⟩
    obtain ⟨hClosed, hWorks⟩ := works_of_own hOwn
    refine ⟨label, u, .inl (hOwn ▸ rfl), hu, healthy_step hA h hu, ?_⟩
    exact (work_moves h.few (h.no_faults hA) hClosed (step_moves hu)).2 hWorks
  have hResolve : ∀ t, AwaitsUpstream s t → ∃ label u, label.onwards ∧ step sys s label = some u ∧
      Healthy u ∧ tally Task.work u.tasks < tally Task.work s.tasks := by
    rintro t ⟨q, role, place, ht⟩
    have hu : step sys s (.resolved t none) = some ({ s with
        upstream := (q.raw, none) :: s.upstream }.goto t
          (.inFlight q role (.fetching place (.settling none)))) := by
      unfold step
      rw [if_neg (by simp [h.alive])]
      simp only [stepLive, ht]
    refine ⟨_, _, .inr ⟨t, none, rfl⟩, hu, healthy_step hA h hu, ?_⟩
    exact (work_moves h.few (h.no_faults hA) rfl (step_moves hu)).2 rfl
  cases h.waits t with
  | idle ht => exact absurd ht hBusy
  | steps hOwn => exact hStep t hOwn
  | upstream hUp => exact hResolve t hUp
  | @cell q role key cell t' ht hFetch hNext =>
    rcases hNext with hOwn | hUp
    · exact hStep t' hOwn
    · exact hResolve t' hUp

/-- **The handler comes to rest.** From any state the server can get into, the tasks there are
take a bounded number of steps until somebody sends a query or the timer ticks: `work` counts them,
with those of the refreshes that are spawned on the way. And from any state on the way they can
all be finished by steps of their own and by the upstream returning what it likes. -/
theorem handler_drains (hA : sys.env.alloc.Lawful) {enabled : Bool} {maxSizeBytes : Nat}
    (hMax : enabled = true → maxSizeBytes ≤ maxCacheBytes) {blocked : Bytes → Bool}
    {before after : List Label}
    (hBefore : run (step sys) (State.start sys enabled maxSizeBytes blocked) before = some s)
    (hAfter : run (step sys) s after = some u) (hClosed : ∀ label ∈ after, label.closed = true) :
    after.countP Label.works + tally Task.work u.tasks ≤ tally Task.work s.tasks ∧
    ∃ rest v, (∀ label ∈ rest, label.onwards) ∧ run (step sys) u rest = some v ∧
      ∀ t, v.tasks t = .idle := by
  have hHealthy := healthy_run hA hMax hBefore
  constructor
  · refine run_count_le (I := Healthy) Label.works (fun s => tally Task.work s.tasks) ?_ hHealthy
      (guarded_of_forall hClosed s) hAfter
    intro s label u h hLabel hStep
    exact ⟨healthy_step hA h hStep, work_moves h.few (h.no_faults hA) hLabel (step_moves hStep)⟩
  · have hThen : Healthy u := run_invariant (fun _ _ _ h hStep => healthy_step hA h hStep) hHealthy
      hAfter
    have hReach : ∃ rest v, Guarded (step sys) (fun _ label => label.onwards) u rest ∧
        run (step sys) u rest = some v ∧ ∀ t, v.tasks t = .idle := by
      refine exists_run_done (I := Healthy) (fun s => tally Task.work s.tasks) ?_ u hThen
      intro s h hBusy
      obtain ⟨t, ht⟩ := not_forall.mp hBusy
      exact h.gets_on hA ht
    obtain ⟨rest, v, hGuard, hRun, hIdle⟩ := hReach
    exact ⟨rest, v, forall_of_guarded hGuard hRun, hRun, hIdle⟩

/-- The upstream returns for the first client, and both are answered. -/
theorem drains_busy :
    ∃ s u, run (step smallSystem) (State.start smallSystem true 128 fun _ => false)
        (busyMinute.take 7) = some s ∧
      run (step smallSystem) s ((busyMinute.drop 7).take 8) = some u ∧ u.answers.length = 2 ∧
      8 + tally Task.work u.tasks ≤ tally Task.work s.tasks := by
  have hView : (run (step smallSystem) (State.start smallSystem true 128 fun _ => false)
      (busyMinute.take 7)).bind (fun s =>
        (run (step smallSystem) s ((busyMinute.drop 7).take 8)).map fun u => u.answers.length) =
      some 2 := by decide +kernel
  obtain ⟨s, hBefore, hView⟩ := Option.bind_eq_some_iff.mp hView
  obtain ⟨u, hAfter, hEq⟩ := Option.map_eq_some_iff.mp hView
  have hClosed : ((busyMinute.drop 7).take 8).all Label.closed = true := rfl
  exact ⟨s, u, hBefore, hAfter, hEq, (handler_drains FirstFit.allocator_lawful
    (fun _ => by decide) hBefore hAfter (List.all_eq_true.mp hClosed)).1⟩

end Runs

end DnsRs.Handler
