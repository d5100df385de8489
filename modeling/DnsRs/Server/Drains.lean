import DnsRs.Server.Served

/-!
# A listener that is shut down drains

When the token is cancelled the accept loop returns, and the connections there are finish on
their own. They share the handler, so what each of them waits for may be a task of the handler,
and that one may wait for the fetch of another client or of a refresh.

* `Listener.work` — bounds the steps that are left, over all connections and all tasks. A poll
  that begins costs the steps of `handle_query`, which the connection has paid for before.
* `Running.gets_on` — when the clients have closed, somebody can go on until everything is done,
  if the upstream returns.
* `dot_listener_drains` — so everything is answered and written, and all permits come back.
-/

namespace DnsRs.Server

open Lib Wire

variable {RecordType DNSClass Heap : Type} {rr : RrFrom RecordType DNSClass}

/-! ## Work -/

/-- The steps a connection has left, with those of the handler that it causes: a step of the
stream counts for thirteen, of which twelve go to the next poll. -/
def Connection.work (conn : Connection) : Nat :=
  match conn.stream with
  | none => if conn.permit then 100 else 0
  | some stream => 13 * stream.work + (if conn.polling then 0 else 12) + conn.permit.toNat

noncomputable def Listener.work (s : Listener rr Heap) : Nat :=
  (s.conns.map Connection.work).sum + tally Handler.Task.work s.app.tasks + s.accepting.toNat

/-- Nobody connects, sends, or asks elsewhere, the timer does not tick, and no write fails. -/
def ListenerLabel.closed : ListenerLabel → Bool
  | .accept | .inside _ (.arrives _) | .inside _ .writeFails => false
  | .app label => label.closed
  | _ => true

/-- Somebody gets on. -/
def ListenerLabel.works : ListenerLabel → Bool
  | .shutdown | .accept | .acceptFails => false
  | .app label => label.works
  | _ => true

/-- A read timed out or failed. -/
def ListenerLabel.rough : ListenerLabel → Bool
  | .inside _ label => label.rough
  | _ => false

/-- A step of the listener's own, or the upstream returns. -/
def ListenerLabel.onwards : ListenerLabel → Prop
  | .inside _ label => label.smooth = true
  | .begins _ _ _ | .parks _ | .ends _ => True
  | .app label => label.onwards
  | _ => False

theorem ListenerLabel.closed_of_onwards {label : ListenerLabel} (h : label.onwards) :
    label.closed = true ∧ label.works = true ∧ label.rough = false := by
  cases label with
  | shutdown | accept | acceptFails | returns | wrapped | wrapFails => cases h
  | begins | parks | ends => exact ⟨rfl, rfl, rfl⟩
  | inside i label =>
    cases label with
    | arrives | writeFails | idle | stall | readFails => cases h
    | _ => exact ⟨rfl, rfl, rfl⟩
  | app label =>
    rcases h with hOwn | ⟨t, result, rfl⟩
    · obtain ⟨t, ht⟩ := Option.isSome_iff_exists.mp hOwn
      exact ⟨(Handler.works_of_own ht).1, (Handler.works_of_own ht).2, rfl⟩
    · exact ⟨rfl, rfl, rfl⟩

theorem ListenerLabel.writes_of_closed {label : ListenerLabel} (h : label.closed = true) (i : Nat) :
    label ≠ .inside i .writeFails := by
  rintro rfl
  cases h

theorem work_stream (stream : Stream) (permit polling : Bool) :
    (⟨some stream, permit, polling⟩ : Connection).work =
      13 * stream.work + (if polling then 0 else 12) + permit.toNat := rfl

theorem work_handshake (polling : Bool) : (⟨none, true, polling⟩ : Connection).work = 100 := rfl

/-- A connection is replaced, and the handler may have taken a step. -/
theorem work_lt_of_set {s u : Listener rr Heap} {i : Nat} {conn conn' : Connection}
    (hi : s.conns[i]? = some conn) (hConns : u.conns = s.conns.set i conn')
    (hLoop : u.accepting = s.accepting)
    (hLess : conn'.work + tally Handler.Task.work u.app.tasks <
      conn.work + tally Handler.Task.work s.app.tasks) : u.work < s.work := by
  have hSum := sum_map_set (g := Connection.work) (x := conn') hi
  unfold Listener.work
  rw [hConns, hLoop]
  omega

/-! ## Runs without write errors -/

theorem returned_step {st st' : Stream} {a : Label} {result : Except String Unit} (hRoles : Roles st)
    (hStep : step st a = some st') (h : st.reader = .returned result) :
    st'.reader = .returned result := by
  cases step_moves hStep with
  | header hReader | zero hReader | last hReader | query hReader | cut hReader | acquire hReader
  | ready hReader | spawn hReader | dropsSender hReader | joins hReader =>
    rw [h] at hReader
    cases hReader
  | rough ha hReader =>
    rw [h] at hReader
    rcases hReader with hReader | ⟨len, hReader⟩
    · cases hReader
    · cases hReader
  | @finishes k inline response hPhase =>
    cases inline with
    | false => exact h
    | true =>
      -- whoever is handled in the reader's task keeps the reader busy
      have hServing := (hRoles.own k _ hPhase rfl).1
      rw [h] at hServing
      cases hServing
  | arrives | closes | resolves | sends | lost | takes | skips | ends | writes | writesAll | flushes
  | writeFails => exact h

/-- A response finds its query. -/
theorem Joined.hand_enabled {s s' : Listener rr Heap} (h : Joined s) (hConns : s'.conns = s.conns)
    {t i k : Nat} (hServing : s.serving t = some (i, k)) (response : Bytes) :
    ∃ u, s'.hand i k response = some u := by
  obtain ⟨stream, permit, polling, q, hServes⟩ := h.serves t i k hServing
  have hi : s'.conns[i]? = some ⟨some stream, permit, polling⟩ := hConns ▸ hServes.conn
  have hPhase := phaseAt_of_query hServes.query
  have hFound : (s'.stream? i).bind (·.phaseAt k) = some q.phase := by
    rw [Listener.stream?, hi]
    exact hPhase
  unfold Listener.hand
  rw [hFound]
  rcases hServes.phase with hResolving | ⟨hPermitted, -⟩
  · rw [hResolving] at hPhase ⊢
    have hStep : step stream (.resolves k response) =
        some (stream.setPhase k (.sending false response)) := by
      simp only [step, hPhase, if_true]
    exact ⟨_, inside_eq_some.mpr ⟨stream, _, permit, polling, hi, hStep, rfl⟩⟩
  · rw [hPermitted] at hPhase ⊢
    obtain ⟨hReader, rfl⟩ := (h.streams i stream permit polling hServes.conn).roles.own k _ hPhase rfl
    have hStep : step stream (.polls (some response)) =
        some (stream.setPhase stream.current (.sending true response)) := by
      simp only [step, hReader, hPhase, and_self, if_true]
    exact ⟨_, inside_eq_some.mpr ⟨stream, _, permit, polling, hi, hStep, rfl⟩⟩

section Running

variable [DecidableEq RecordType] [DecidableEq DNSClass]
  {sys : Handler.System RecordType DNSClass Heap} {s u : Listener sys.rr Heap}
  {label : ListenerLabel} {calm : Prop}

open Handler

/-- What such a run keeps; `calm` says that no read times out or fails. -/
structure Running (calm : Prop) (s : Listener sys.rr Heap) : Prop where
  joined : Joined s
  healthy : Healthy s.app
  sound : Streams (Sound calm) s
  ended : ∀ conn ∈ s.conns, conn.permit = false → ∀ stream, conn.stream = some stream →
    ∃ result, stream.reader = .returned result

theorem Running.sound_at (h : Running calm s) {i : Nat} {stream : Stream} {permit polling : Bool}
    (hi : s.conns[i]? = some ⟨some stream, permit, polling⟩) : Sound calm stream :=
  h.sound _ (List.mem_of_getElem? hi) stream rfl

theorem running_start (hA : sys.env.alloc.Lawful) {enabled : Bool} {maxSizeBytes : Nat}
    (hMax : enabled = true → maxSizeBytes ≤ Cache.maxCacheBytes) (blocked : Bytes → Bool) :
    Running calm (.start (State.start sys enabled maxSizeBytes blocked)) where
  joined := joined_start
  healthy := healthy_start hA hMax blocked
  sound conn h := by cases h
  ended conn h := by cases h

/-- A connection whose task has ended stays as it is. -/
theorem Running.ended_step (h : Running calm s) (hStep : listenerStep sys s label = some u) :
    ∀ conn ∈ u.conns, conn.permit = false → ∀ stream, conn.stream = some stream →
      ∃ result, stream.reader = .returned result := by
  have hSet : ∀ {i : Nat} {stream stream' : Stream} {permit polling polling' : Bool} {a : Label},
      s.conns[i]? = some ⟨some stream, permit, polling⟩ → step stream a = some stream' →
      ∀ conn ∈ s.conns.set i ⟨some stream', permit, polling'⟩, conn.permit = false →
        ∀ st, conn.stream = some st → ∃ result, st.reader = .returned result := by
    intro i stream stream' permit polling polling' a hi hInside conn hConn hPermit st hStream
    rcases List.mem_or_eq_of_mem_set hConn with hOld | rfl
    · exact h.ended conn hOld hPermit st hStream
    · cases hStream
      obtain ⟨result, hReturned⟩ := h.ended _ (List.mem_of_getElem? hi) hPermit stream rfl
      exact ⟨result, returned_step (h.sound_at hi).roles hInside hReturned⟩
  cases listenerStep_moves hStep with
  | shutdown | rejected | acceptFails | returns | app => exact h.ended
  | accept =>
    intro conn hConn hPermit stream hStream
    rcases List.mem_append.mp hConn with hOld | hNew
    · exact h.ended conn hOld hPermit stream hStream
    · cases List.mem_singleton.mp hNew
      cases hPermit
  | wrapped hi =>
    intro conn hConn hPermit stream hStream
    rcases List.mem_or_eq_of_mem_set hConn with hOld | rfl
    · exact h.ended conn hOld hPermit stream hStream
    · cases hPermit
  | wrapFails hi =>
    intro conn hConn hPermit stream hStream
    rcases List.mem_or_eq_of_mem_set hConn with hOld | rfl
    · exact h.ended conn hOld hPermit stream hStream
    · cases hStream
  | inside hi _ hInside | answers _ _ _ _ hi _ hInside => exact hSet hi hInside
  | atOnce hi _ _ _ hPoll | parks hi hPoll => exact hSet hi hPoll
  | begins hi =>
    intro conn hConn hPermit stream hStream
    rcases List.mem_or_eq_of_mem_set hConn with hOld | rfl
    · exact h.ended conn hOld hPermit stream hStream
    · cases hStream
      exact h.ended _ (List.mem_of_getElem? hi) hPermit _ rfl
  | ends hi hReturned =>
    intro conn hConn hPermit stream hStream
    rcases List.mem_or_eq_of_mem_set hConn with hOld | rfl
    · exact h.ended conn hOld hPermit stream hStream
    · cases hStream
      exact ⟨_, hReturned⟩

/-- **One step.** -/
theorem running_step (hA : sys.env.alloc.Lawful) (h : Running calm s)
    (hWrite : ∀ i, label ≠ .inside i .writeFails) (hRough : label.rough = true → ¬ calm)
    (hStep : listenerStep sys s label = some u) : Running calm u where
  joined := joined_step hA h.healthy h.joined hStep
  healthy := by
    rcases app_step hStep with hSame | ⟨label', hApp⟩
    · exact hSame ▸ h.healthy
    · exact healthy_step hA h.healthy hApp
  sound := by
    refine streams_step (fun a => a ≠ .writeFails ∧ (a.rough = true → ¬ calm)) (sound_start calm)
      ?_ ?_ ?_ h.sound hStep
    · exact fun st a st' hSound ha hInside => hSound.step ha.1 ha.2 hInside
    · intro a hAsks
      cases a with
      | polls | resolves => exact ⟨nofun, nofun⟩
      | _ => cases hAsks
    · rintro i a rfl
      exact ⟨fun ha => hWrite i (by rw [ha]), hRough⟩
  ended := h.ended_step hStep

/-- **Work is done.** In a step that is closed nothing is added, and whoever gets on has less to
do. -/
theorem work_step (hA : sys.env.alloc.Lawful) (h : Running calm s) (hClosed : label.closed = true)
    (hStep : listenerStep sys s label = some u) :
    u.work ≤ s.work ∧ (label.works = true → u.work < s.work) := by
  have hLess : u.work < s.work → u.work ≤ s.work ∧ (label.works = true → u.work < s.work) :=
    fun hLt => ⟨hLt.le, fun _ => hLt⟩
  have hFaults := h.healthy.no_faults hA
  -- a step of a stream
  have hStream : ∀ {i : Nat} {stream stream' : Stream} {permit polling : Bool} {a : Label},
      s.conns[i]? = some ⟨some stream, permit, polling⟩ → step stream a = some stream' →
      (∀ bytes, a ≠ .arrives bytes) → stream'.work < stream.work := by
    intro i stream stream' permit polling a hi hInside ha
    have hSound := h.sound_at hi
    exact work_moves hSound.roles (step_moves hInside) ha hSound.reads.body_pos
  cases listenerStep_moves hStep with
  | shutdown | acceptFails => exact ⟨Nat.le_refl _, fun hWorks => by cases hWorks⟩
  | accept | rejected => cases hClosed
  | returns hLoop hShutdown =>
    refine hLess ?_
    simp only [Listener.work, hLoop, Bool.toNat_true, Bool.toNat_false]
    omega
  | wrapped hi | wrapFails hi =>
    refine hLess (work_lt_of_set hi rfl rfl (Nat.add_lt_add_right ?_ _))
    rw [work_handshake]
    decide
  | @inside i a stream stream' permit polling hi hLabel hInside =>
    have hFewer := hStream hi hInside fun bytes ha => by rw [ha] at hClosed; cases hClosed
    refine hLess (work_lt_of_set hi rfl rfl (Nat.add_lt_add_right ?_ _))
    rw [work_stream, work_stream]
    omega
  | @atOnce i t now stream stream' permit raw response app hi hQuery hApp hAnswer hPoll =>
    have hFewer := hStream hi hPoll nofun
    refine hLess (work_lt_of_set hi rfl rfl ?_)
    have hQuery := work_query h.healthy.few hFaults (Handler.step_moves hApp)
    rw [work_stream, work_stream]
    dsimp only
    omega
  | @begins i t now stream permit raw app hi hReader hQuery hApp hAnswer =>
    -- paid for by the last step of the stream, or from the start
    refine hLess (work_lt_of_set hi rfl rfl ?_)
    have hQuery := work_query h.healthy.few hFaults (Handler.step_moves hApp)
    rw [work_stream, work_stream]
    simp only [if_true, Bool.false_eq_true, if_false]
    omega
  | @parks i stream stream' permit hi hPoll =>
    have hFewer := hStream hi hPoll nofun
    refine hLess (work_lt_of_set hi rfl rfl (Nat.add_lt_add_right ?_ _))
    rw [work_stream, work_stream]
    simp only [if_true, Bool.false_eq_true, if_false]
    omega
  | app hKept hApp hAnswer =>
    obtain ⟨hLe, hLt⟩ := Handler.work_moves h.healthy.few hFaults hClosed (Handler.step_moves hApp)
    refine ⟨?_, fun hWorks => ?_⟩
    · exact Nat.add_le_add_right (Nat.add_le_add_left hLe _) _
    · exact Nat.add_lt_add_right (Nat.add_lt_add_left (hLt hWorks) _) _
  | @answers label t i k app response stream stream' permit polling l hTask hServing hApp hAnswer hi
      hHand hInside =>
    have hFewer := hStream hi hInside (by rcases hHand with ⟨-, rfl⟩ | ⟨-, rfl⟩ <;> exact nofun)
    obtain ⟨hLe, -⟩ := Handler.work_moves h.healthy.few hFaults hClosed (Handler.step_moves hApp)
    refine hLess (work_lt_of_set hi rfl rfl ?_)
    rw [work_stream, work_stream]
    dsimp only
    split <;> omega
  | ends hi hReturned =>
    refine hLess (work_lt_of_set hi rfl rfl (Nat.add_lt_add_right ?_ _))
    rw [work_stream, work_stream]
    simp only [Bool.toNat_true, Bool.toNat_false]
    omega

/-! ## Nobody is stuck -/

/-- What the handler can do the listener can do, unless a query is to be dropped. -/
theorem Joined.app_enabled (h : Joined s) {l : Handler.Label} {app : Handler.State sys.rr Heap}
    (hApp : Handler.step sys s.app l = some app) (hKept : ∀ t, l ≠ .cancel t) :
    ∃ u, listenerStep sys s (.app l) = some u := by
  have hServes : s.serves l = false := by
    cases l with
    | cancel t => exact absurd rfl (hKept t)
    | _ => rfl
  unfold listenerStep
  simp only [hServes, stepApp, hApp, Option.bind_some, Bool.false_eq_true, if_false]
  split
  · rename_i response t hAnswer hTask
    split
    · rename_i i k hServing
      exact h.hand_enabled (by rfl) hServing response
    · exact ⟨_, rfl⟩
  · exact ⟨_, rfl⟩

theorem not_cancel_of_onwards {l : Handler.Label} (h : l.onwards) (t : Nat) :
    l ≠ .cancel t := by
  rintro rfl
  rcases h with hOwn | ⟨t', result, hEq⟩
  · cases hOwn
  · cases hEq

/-- While a task of the handler is busy somebody gets on. -/
theorem Running.task_gets_on (hA : sys.env.alloc.Lawful) (h : Running calm s) {t : Nat}
    (hBusy : s.app.tasks t ≠ .idle) :
    ∃ label u, label.onwards ∧ listenerStep sys s label = some u := by
  obtain ⟨l, app, hOnwards, hApp, -, -⟩ := h.healthy.gets_on hA hBusy
  obtain ⟨u, hu⟩ := h.joined.app_enabled hApp (not_cancel_of_onwards hOnwards)
  exact ⟨.app l, u, hOnwards, hu⟩

/-- The reader polls its query, for the first time or again. -/
theorem Running.poll_gets_on (h : Running calm s) {i : Nat} {stream : Stream} {permit polling : Bool}
    (hi : s.conns[i]? = some ⟨some stream, permit, polling⟩) (hReader : stream.reader = .serving)
    (hPhase : stream.phaseAt stream.current = some .permitted) :
    ∃ label u, label.onwards ∧ listenerStep sys s label = some u := by
  have hPoll : ∀ response, ∃ stream', step stream (.polls response) = some stream' := by
    intro response
    simp only [step, hReader, hPhase, and_self, if_true]
    cases response with
    | none | some => exact ⟨_, rfl⟩
  cases polling with
  | true =>
    obtain ⟨stream', hStep⟩ := hPoll none
    have hParks : listenerStep sys s (.parks i) = s.inside i (.polls none) :=
      if_pos (by rw [hi]; rfl)
    have hInside := inside_eq_some.mpr ⟨stream, stream', permit, true, hi, hStep, rfl⟩
    exact ⟨.parks i, _, trivial, hParks.trans hInside⟩
  | false =>
    -- there are tasks enough for it to begin
    obtain ⟨t, ht⟩ := FewBusy.exists_idle h.healthy.few
    obtain ⟨raw, hQuery⟩ := phaseAt_eq_some.mp hPhase
    obtain ⟨app, hApp⟩ : ∃ app, Handler.step sys s.app (.query t raw 0) = some app := by
      unfold Handler.step
      rw [if_neg (by simp [h.healthy.alive])]
      simp only [stepLive, ht]
      exact ⟨_, rfl⟩
    have hBegins : ∃ u, stepBegins sys s i ⟨some stream, permit, false⟩ stream raw t 0 = some u := by
      unfold stepBegins
      rw [hApp, Option.bind_some]
      split
      · rename_i response hAnswer
        obtain ⟨stream', hStep⟩ := hPoll (some response)
        exact ⟨_, inside_eq_some.mpr ⟨stream, stream', permit, false, hi, hStep, rfl⟩⟩
      · exact ⟨_, rfl⟩
    obtain ⟨u, hu⟩ := hBegins
    refine ⟨.begins i t 0, u, trivial, ?_⟩
    simp only [listenerStep, hi, Option.bind_some, hReader, hQuery]
    exact hu

/-- A connection whose client has closed gets on, or has ended. -/
theorem Running.conn_gets_on (hA : sys.env.alloc.Lawful) (h : Running calm s) {i : Nat} {stream : Stream}
    {polling : Bool} (hi : s.conns[i]? = some ⟨some stream, true, polling⟩)
    (hEof : stream.eof = true) : ∃ label u, label.onwards ∧ listenerStep sys s label = some u := by
  have hSound := h.sound_at hi
  by_cases hReturned : ∃ result, stream.reader = .returned result
  · obtain ⟨result, hResult⟩ := hReturned
    have hEnds : ∃ u, listenerStep sys s (.ends i) = some u := by
      simp only [listenerStep, hi, hResult]
      exact ⟨_, rfl⟩
    obtain ⟨u, hu⟩ := hEnds
    exact ⟨.ends i, u, trivial, hu⟩
  · obtain ⟨a, hSmooth, hEnabled⟩ := canMove hSound.roles hSound.closing hEof
      fun result hResult => hReturned ⟨result, hResult⟩
    obtain ⟨stream', hStep⟩ := Option.isSome_iff_exists.mp hEnabled
    cases hAsks : a.asks with
    | false =>
      have hOwn : listenerStep sys s (.inside i a) = s.inside i a :=
        if_neg (by rw [hAsks]; exact Bool.false_ne_true)
      have hInside := inside_eq_some.mpr ⟨stream, stream', true, polling, hi, hStep, rfl⟩
      exact ⟨.inside i a, _, hSmooth, hOwn.trans hInside⟩
    | true =>
      -- what it waits for is a task of the handler
      cases a with
      | polls response =>
        cases step_moves hStep with
        | rough hRough => cases hRough
        | ready hReader hPhase | spawn hReader hPhase => exact h.poll_gets_on hi hReader hPhase
      | resolves k response =>
        cases step_moves hStep with
        | rough hRough => cases hRough
        | resolves hPhase =>
          obtain ⟨t, ht⟩ := (h.joined.streams i stream true polling hi).resolving k hPhase
          refine h.task_gets_on hA (t := t) fun hIdle => ?_
          cases (h.joined.idle hIdle).symm.trans ht
      | _ => cases hAsks

/-! ## After the clients -/

/-- Whoever still has a connection has closed their side. -/
def ClientsDone (s : Listener sys.rr Heap) : Prop :=
  ∀ conn ∈ s.conns, conn.permit = true → ∃ stream, conn.stream = some stream ∧ stream.eof = true

theorem clientsDone_step (h : ClientsDone s) (hLabel : label.onwards)
    (hStep : listenerStep sys s label = some u) : ClientsDone u := by
  have hSet : ∀ {i : Nat} {stream stream' : Stream} {permit permit' polling polling' : Bool},
      s.conns[i]? = some ⟨some stream, permit, polling⟩ → (permit' = true → permit = true) →
      (stream.eof = true → stream'.eof = true) →
      ∀ conn ∈ s.conns.set i ⟨some stream', permit', polling'⟩, conn.permit = true →
        ∃ st, conn.stream = some st ∧ st.eof = true := by
    intro i stream stream' permit permit' polling polling' hi hPermit hEof conn hConn hHolds
    rcases List.mem_or_eq_of_mem_set hConn with hOld | rfl
    · exact h conn hOld hHolds
    · obtain ⟨st, hStream, hDone⟩ := h _ (List.mem_of_getElem? hi) (hPermit hHolds)
      cases hStream
      exact ⟨stream', rfl, hEof hDone⟩
  cases listenerStep_moves hStep with
  | shutdown | accept | rejected | acceptFails | returns | wrapped | wrapFails => cases hLabel
  | inside hi _ hInside | answers _ _ _ _ hi _ hInside =>
    exact hSet hi id (eof_moves (step_moves hInside))
  | atOnce hi _ _ _ hPoll | parks hi hPoll => exact hSet hi id (eof_moves (step_moves hPoll))
  | begins hi => exact hSet hi id id
  | app => exact h
  | ends hi => exact hSet hi nofun id

/-- A client stays where it is, and nothing arrives. -/
theorem received_step {i : Nat} {stream : Stream} (hi : s.stream? i = some stream)
    (hLabel : label.onwards) (hStep : listenerStep sys s label = some u) :
    ∃ stream', u.stream? i = some stream' ∧ stream'.received = stream.received := by
  obtain ⟨⟨_, permit, polling⟩, hConn, hStream⟩ := Option.bind_eq_some_iff.mp hi
  cases hStream
  have hSet : ∀ {j : Nat} {old new : Stream} {permit permit' polling polling' : Bool},
      s.conns[j]? = some ⟨some old, permit, polling⟩ → new.received = old.received →
      ∃ stream', ((s.conns.set j ⟨some new, permit', polling'⟩)[i]?).bind Connection.stream =
        some stream' ∧ stream'.received = stream.received := by
    intro j old new permit permit' polling polling' hj hReceived
    by_cases hEq : i = j
    · subst hEq
      cases hConn.symm.trans hj
      exact ⟨new, by rw [getElem?_set_same hConn]; rfl, hReceived⟩
    · exact ⟨stream, by rw [List.getElem?_set_ne (Ne.symm hEq)]; exact hi, rfl⟩
  cases listenerStep_moves hStep with
  | shutdown | accept | rejected | acceptFails | returns | wrapped | wrapFails => cases hLabel
  | inside hj _ hInside => exact hSet hj (received_moves (step_moves hInside) hLabel)
  | atOnce hj _ _ _ hPoll | parks hj hPoll => exact hSet hj (received_moves (step_moves hPoll) rfl)
  | begins hj | ends hj => exact hSet hj rfl
  | app => exact ⟨stream, hi, rfl⟩
  | answers _ _ _ _ hj hHand hInside =>
    refine hSet hj (received_moves (step_moves hInside) ?_)
    rcases hHand with ⟨-, rfl⟩ | ⟨-, rfl⟩ <;> rfl

theorem received_run {i : Nat} {stream : Stream} (hi : s.stream? i = some stream)
    {rest : List ListenerLabel} (hOnwards : ∀ label ∈ rest, label.onwards)
    (hRun : run (listenerStep sys) s rest = some u) :
    ∃ stream', u.stream? i = some stream' ∧ stream'.received = stream.received := by
  refine run_invariant_guarded (I := fun t : Listener sys.rr Heap =>
    ∃ stream', t.stream? i = some stream' ∧ stream'.received = stream.received) ?_ ⟨stream, hi, rfl⟩
    (guarded_of_forall hOnwards s) hRun
  rintro t label t' ⟨stream', hi', hReceived⟩ hLabel hStep
  obtain ⟨stream'', hi'', hSame⟩ := received_step hi' hLabel hStep
  exact ⟨stream'', hi'', hSame.trans hReceived⟩

/-- No connection has its task any more, and the handler has none at all. -/
def AllDone (s : Listener sys.rr Heap) : Prop :=
  (∀ conn ∈ s.conns, conn.permit = false) ∧ ∀ t, s.app.tasks t = .idle

/-- **Somebody gets on**, until all is done. -/
theorem Running.gets_on (hA : sys.env.alloc.Lawful) (h : Running calm s) (hClients : ClientsDone s)
    (hBusy : ¬ AllDone s) : ∃ label u, label.onwards ∧ listenerStep sys s label = some u := by
  by_cases hConns : ∀ conn ∈ s.conns, conn.permit = false
  · obtain ⟨t, ht⟩ := not_forall.mp fun hIdle => hBusy ⟨hConns, hIdle⟩
    exact h.task_gets_on hA ht
  · obtain ⟨⟨stream?, permit, polling⟩, hNot⟩ := not_forall.mp hConns
    obtain ⟨hMem, hPermit⟩ := Classical.not_imp.mp hNot
    cases Bool.eq_true_of_not_eq_false hPermit
    obtain ⟨stream, hStream, hEof⟩ := hClients _ hMem rfl
    cases hStream
    obtain ⟨i, hi⟩ := List.getElem?_of_mem hMem
    exact h.conn_gets_on hA hi hEof

/-- What the client of a stream has at the end. -/
structure Delivered (calm : Prop) (s : Listener sys.rr Heap) (stream : Stream) : Prop where
  /-- every query has the response that `handle_query` returned for it -/
  answered : ∀ q ∈ stream.queries, ∃ a ∈ s.app.answers, a.raw = q.raw ∧ q.phase = .finished a.response
  /-- and these were written: each as its frame, or not at all if it has more than 65535 bytes -/
  written : ∃ order : List Bytes, order.Perm stream.responses ∧ stream.written = order.flatMap onWire
  /-- a client that sent whole frames had all of them read -/
  complete : calm → ∀ sent : List Bytes,
    (∀ raw ∈ sent, 0 < raw.length ∧ raw.length ≤ maxMessageSize) →
      stream.received = sent.flatMap framed → stream.queries.map (·.raw) = sent

theorem Running.delivered (h : Running calm s) (hDone : AllDone s) {conn : Connection}
    (hConn : conn ∈ s.conns) {stream : Stream} (hStream : conn.stream = some stream) :
    Delivered calm s stream := by
  obtain ⟨result, hReturned⟩ := h.ended conn hConn (hDone.1 conn hConn) stream hStream
  have hSound := h.sound conn hConn stream hStream
  refine ⟨fun q hq => ?_, (hSound.wrote hReturned).2, ?_⟩
  · obtain ⟨response, hPhase⟩ := hSound.finished (hSound.closing.joined result hReturned) q hq
    obtain ⟨k, hk⟩ := List.getElem?_of_mem hq
    obtain ⟨i, hi⟩ := List.getElem?_of_mem hConn
    obtain ⟨stream?, permit, polling⟩ := conn
    cases hStream
    obtain ⟨a, ha, hRaw, hSame⟩ := (h.joined.streams i stream permit polling hi).told k q response hk
      (by rw [hPhase]; rfl)
    exact ⟨a, ha, hRaw, by rw [hPhase, hSame]⟩
  · intro hCalm sent hSent hReceived
    rw [eq_true hCalm] at hSound
    exact (hSound.complete hReturned hSent hReceived).1

/-- What holds from when the clients have closed their side. -/
structure Finishing (calm : Prop) (s : Listener sys.rr Heap) : Prop where
  running : Running calm s
  clients : ClientsDone s
  permits : s.available + s.conns.countP Connection.permit = maxConcurrentConnections

/-- Each step onwards is work that was left to do. -/
theorem Finishing.step (hA : sys.env.alloc.Lawful) (h : Finishing calm s) (hLabel : label.onwards)
    (hStep : listenerStep sys s label = some u) : Finishing calm u ∧ u.work < s.work := by
  obtain ⟨hClosed, hWorks, hCalm⟩ := ListenerLabel.closed_of_onwards hLabel
  have hRunning : Running calm u :=
    running_step hA h.running (ListenerLabel.writes_of_closed hClosed)
      (fun hRough => by rw [hCalm] at hRough; cases hRough) hStep
  exact ⟨⟨hRunning, clientsDone_step h.clients hLabel hStep, permits_step h.permits hStep⟩,
    (work_step hA h.running hClosed hStep).2 hWorks⟩

/-- Somebody gets on until all is done, and what is left to do gets less each time. -/
theorem Finishing.drains (hA : sys.env.alloc.Lawful) (h : Finishing calm s) :
    ∃ rest v, (∀ label ∈ rest, label.onwards) ∧ run (listenerStep sys) s rest = some v ∧
      Finishing calm v ∧ AllDone v := by
  have hReach : ∃ rest v, Guarded (listenerStep sys) (fun _ label => label.onwards) s rest ∧
      run (listenerStep sys) s rest = some v ∧ AllDone v := by
    refine exists_run_done (I := Finishing calm) Listener.work ?_ s h
    intro s h hBusy
    obtain ⟨label, u, hLabel, hStep⟩ := h.running.gets_on hA h.clients hBusy
    exact ⟨label, u, hLabel, hStep, h.step hA hLabel hStep⟩
  obtain ⟨rest, v, hRest, hRun, hDone⟩ := hReach
  exact ⟨rest, v, forall_of_guarded hRest hRun, hRun,
    run_invariant_guarded (fun _ _ _ h hLabel hStep => (h.step hA hLabel hStep).1) h hRest hRun,
    hDone⟩

theorem Finishing.available (h : Finishing calm s) (hDone : AllDone s) :
    s.available = maxConcurrentConnections := by
  have hNone : s.conns.countP Connection.permit = 0 :=
    List.countP_eq_zero.mpr fun conn hConn => by simp [hDone.1 conn hConn]
  have hPermits := h.permits
  omega

/-- **Draining.** After any run without write errors, let nobody connect, send or ask elsewhere
any more. Then however the rest is interleaved, over all connections and the handler's tasks,
only boundedly many steps are left. And once the clients have closed their side, the listener's
own steps and the upstream's returns lead to where nothing is left to do: every query that was
read has the response `handle_query` returned for it, the frames of those responses that fit a
frame, of at most 65535 bytes, were written to the client who asked, whole frames were all read
unless a read had timed out or failed, no task is left, and all 512 permits are free. -/
theorem dot_listener_drains (hA : sys.env.alloc.Lawful) {enabled : Bool} {maxSizeBytes : Nat}
    (hMax : enabled = true → maxSizeBytes ≤ Cache.maxCacheBytes) {blocked : Bytes → Bool}
    {before after : List ListenerLabel}
    (hBefore : run (listenerStep sys)
      (.start (State.start sys enabled maxSizeBytes blocked)) before = some s)
    (hWrite : ∀ label ∈ before, ∀ i, label ≠ .inside i .writeFails)
    (hAfter : run (listenerStep sys) s after = some u)
    (hClosed : ∀ label ∈ after, label.closed = true) :
    after.countP ListenerLabel.works + u.work ≤ s.work ∧
    (ClientsDone u → ∃ rest v, (∀ label ∈ rest, label.onwards) ∧
      run (listenerStep sys) u rest = some v ∧ (∀ t, v.app.tasks t = .idle) ∧
      v.available = maxConcurrentConnections ∧
      (∀ i stream, u.stream? i = some stream →
        ∃ stream', v.stream? i = some stream' ∧ stream'.received = stream.received) ∧
      ∀ i stream, v.stream? i = some stream →
        Delivered (∀ label ∈ before ++ after, label.rough = false) v stream) := by
  generalize hCalm : (∀ label ∈ before ++ after, label.rough = false) = calm
  have hRough : ∀ label ∈ before ++ after, label.rough = true → ¬ calm := by
    intro label hMem hRough hc
    rw [← hCalm] at hc
    rw [hc label hMem] at hRough
    cases hRough
  -- the runs, up to where the clients have closed
  have hKeeps : ∀ (s : Listener sys.rr Heap) (label : ListenerLabel) (u : Listener sys.rr Heap),
      Running calm s → (∀ i, label ≠ .inside i .writeFails) ∧ (label.rough = true → ¬ calm) →
      listenerStep sys s label = some u → Running calm u :=
    fun s label u h hLabel hStep => running_step hA h hLabel.1 hLabel.2 hStep
  have hFirst : Running calm s := by
    refine run_invariant_guarded hKeeps (running_start hA hMax blocked)
      (guarded_of_forall (fun label hMem => ?_) _) hBefore
    exact ⟨hWrite label hMem, hRough label (List.mem_append_left _ hMem)⟩
  have hGuard : Guarded (listenerStep sys)
      (fun _ label => label.closed = true ∧ (label.rough = true → ¬ calm)) s after :=
    guarded_of_forall (fun label hMem =>
      ⟨hClosed label hMem, hRough label (List.mem_append_right _ hMem)⟩) s
  have hThen : ∀ s label u, Running calm s → label.closed = true ∧ (label.rough = true → ¬ calm) →
      listenerStep sys s label = some u → Running calm u := fun s label u h hLabel =>
    hKeeps s label u h ⟨ListenerLabel.writes_of_closed hLabel.1, hLabel.2⟩
  constructor
  · refine run_count_le (I := Running calm) ListenerLabel.works Listener.work ?_ hFirst hGuard hAfter
    intro s label u h hLabel hStep
    exact ⟨hThen s label u h hLabel hStep, work_step hA h hLabel.1 hStep⟩
  · intro hClients
    have hLast : Running calm u := run_invariant_guarded hThen hFirst hGuard hAfter
    have hPermits : u.available + u.conns.countP Connection.permit = maxConcurrentConnections :=
      run_invariant (fun _ _ _ => permits_step)
        (run_invariant (fun _ _ _ => permits_step) rfl hBefore) hAfter
    obtain ⟨rest, v, hOnwards, hRun, hEnd, hDone⟩ :=
      Finishing.drains hA ⟨hLast, hClients, hPermits⟩
    refine ⟨rest, v, hOnwards, hRun, hDone.2, hEnd.available hDone,
      fun i stream hi => received_run hi hOnwards hRun, fun i stream hi => ?_⟩
    obtain ⟨conn, hConn, hStream⟩ := Option.bind_eq_some_iff.mp hi
    exact hEnd.running.delivered hDone (List.mem_of_getElem? hConn) hStream

/-- The client has what `handle_query` returned for its one query. -/
def ServedAt (s : Listener sys.rr Heap) (i : Nat) (raw : Bytes) : Prop :=
  ∃ stream, s.stream? i = some stream ∧ ∃ a ∈ s.app.answers, a.raw = raw ∧
    stream.written = onWire a.response

omit [DecidableEq RecordType] [DecidableEq DNSClass] in
theorem Delivered.servedAt {i : Nat} {stream : Stream} {raw : Bytes} (h : Delivered True s stream)
    (hi : s.stream? i = some stream) (hFits : 0 < raw.length ∧ raw.length ≤ maxMessageSize)
    (hReceived : stream.received = framed raw) : ServedAt s i raw := by
  have hRaws : stream.queries.map (·.raw) = [raw] :=
    h.complete trivial [raw] (by simpa using hFits) (by simpa using hReceived)
  obtain ⟨q, hq, rfl⟩ := List.map_eq_singleton_iff.mp hRaws
  obtain ⟨a, ha, hRaw, hPhase⟩ := h.answered q (by rw [hq]; exact List.mem_singleton_self q)
  have hResponses : stream.responses = [a.response] := by
    rw [Stream.responses, hq, List.filterMap_cons, hPhase]
    rfl
  obtain ⟨order, hPerm, hWritten⟩ := h.written
  rw [hResponses, List.perm_singleton] at hPerm
  exact ⟨stream, hi, a, ha, hRaw, by rw [hWritten, hPerm]; simp⟩

/-- The token is cancelled while both clients wait for one fetch, and both close. Both are
answered. -/
theorem dot_listener_drains_two :
    ∃ s u, run (listenerStep smallSystem)
        (.start (State.start smallSystem true 128 fun _ => false)) (twoClients.take 21) = some s ∧
      run (listenerStep smallSystem) s
        [.shutdown, .returns, .inside 0 .closes, .inside 1 .closes] = some u ∧
      3 + u.work ≤ s.work ∧
      ∃ rest v, (∀ label ∈ rest, ListenerLabel.onwards label) ∧
        run (listenerStep smallSystem) u rest = some v ∧
        v.available = maxConcurrentConnections ∧
        ServedAt v 0 (ask 1 0x61) ∧ ServedAt v 1 (ask 2 0x41) := by
  have hView : (run (listenerStep smallSystem)
      (.start (State.start smallSystem true 128 fun _ => false)) (twoClients.take 21)).bind (fun s =>
        (run (listenerStep smallSystem) s
          [.shutdown, .returns, .inside 0 .closes, .inside 1 .closes]).map fun u =>
            (u.conns.all fun conn => conn.stream.any Stream.eof,
              (u.stream? 0).map Stream.received, (u.stream? 1).map Stream.received)) =
      some (true, some (framed (ask 1 0x61)), some (framed (ask 2 0x41))) := by decide +kernel
  obtain ⟨s, hBefore, hView⟩ := Option.bind_eq_some_iff.mp hView
  obtain ⟨u, hAfter, hView⟩ := Option.map_eq_some_iff.mp hView
  obtain ⟨hEof, hView⟩ := Prod.mk.inj hView
  obtain ⟨hFirst, hSecond⟩ := Prod.mk.inj hView
  have hClients : ClientsDone u := by
    intro conn hConn _
    have hAny := List.all_eq_true.mp hEof conn hConn
    cases hStream : conn.stream with
    | none =>
      rw [hStream] at hAny
      cases hAny
    | some stream =>
      rw [hStream] at hAny
      exact ⟨stream, rfl, hAny⟩
  have hWrite : ∀ label ∈ twoClients.take 21, ∀ i, label ≠ .inside i .writeFails := by
    simp [twoClients]
  obtain ⟨hWork, hDrains⟩ := dot_listener_drains Cache.FirstFit.allocator_lawful
    (fun _ => by decide) hBefore hWrite hAfter (by simp [ListenerLabel.closed])
  obtain ⟨rest, v, hOnwards, hRun, -, hFree, hStays, hDelivered⟩ := hDrains hClients
  -- no read has timed out
  rw [eq_true (show ∀ label ∈ twoClients.take 21 ++
    [.shutdown, .returns, .inside 0 .closes, .inside 1 .closes], label.rough = false by decide)]
    at hDelivered
  have hServed : ∀ i raw, 0 < raw.length ∧ raw.length ≤ maxMessageSize →
      (u.stream? i).map Stream.received = some (framed raw) → ServedAt v i raw := by
    intro i raw hFits hReceived
    obtain ⟨stream, hi, hReceived⟩ := Option.map_eq_some_iff.mp hReceived
    obtain ⟨stream', hi', hSame⟩ := hStays i stream hi
    exact (hDelivered i stream' hi').servedAt hi' hFits (hSame.trans hReceived)
  exact ⟨s, u, hBefore, hAfter, hWork, rest, v, hOnwards, hRun, hFree,
    hServed 0 _ (by decide) hFirst, hServed 1 _ (by decide) hSecond⟩

end Running

end DnsRs.Server
