import DnsRs.Handler.Draining
import DnsRs.Server.Frames

/-!
# The DoT listener

`serve_listener` accepts connections and spawns a task for each one that gets one of 512
permits. The task does the handshake and runs `handle_stream`. The queries of all connections
go to `handle_query`, over one `AppState`.

`Listener` puts the parts together: the accept loop, a `Stream` for each connection, and the
handler with all its tasks. A query that was read off a connection is one task of the handler
while `handle_query` runs for it, and `serving` says which. It begins when the reader polls it;
if the poll finds it pending it is parked in a task of its own; and when `handle_query` returns,
the response is with the stream in the same step. Nothing drops such a query: a spawned task
goes on when its connection is gone.

The handler's other tasks are refreshes, the timer, and queries that came in elsewhere. When
they run is open, and so is what clients send, when they close, and whether a handshake fails.

* `listenerStep_moves` — what a step can do.
* `Joined` — each task serves the query it was begun for, and every response in a stream is the
  handler's answer to that query.
-/

namespace DnsRs.Server

open Lib Wire

variable {RecordType DNSClass Heap : Type} {rr : RrFrom RecordType DNSClass}

/-- `MAX_CONCURRENT_CONNECTIONS` -/
def maxConcurrentConnections : Nat := 512

/-- An accepted connection, seen from its task. -/
structure Connection where
  /-- none until the handshake is done -/
  stream : Option Stream
  /-- the task has not ended, and `_permit` is not dropped -/
  permit : Bool
  /-- the reader is in `poll_immediate`, and `handle_query` has begun -/
  polling : Bool

structure Listener (rr : RrFrom RecordType DNSClass) (Heap : Type) where
  /-- in its loop -/
  accepting : Bool
  shutdown : Bool
  /-- permits left in `connections` -/
  available : Nat
  /-- every connection that got a permit, in the order of acceptance -/
  conns : List Connection
  /-- `state`, and the tasks that work on it -/
  app : Handler.State rr Heap
  /-- the connection and the query there that a task of the handler works for -/
  serving : Nat → Option (Nat × Nat)

inductive ListenerLabel where
  /-- the token is cancelled -/
  | shutdown
  /-- a client connects -/
  | accept
  | acceptFails
  /-- the loop sees the token -/
  | returns
  /-- `wrap(tcp)` returns -/
  | wrapped (i : Nat)
  | wrapFails (i : Nat)
  /-- a step of `handle_stream` that is not about `handle_query` -/
  | inside (i : Nat) (label : Label)
  /-- the reader polls its query for the first time; it becomes task `t` of the handler -/
  | begins (i t now : Nat)
  /-- the poll finds it pending -/
  | parks (i : Nat)
  /-- a step of the handler -/
  | app (label : Handler.Label)
  /-- the task of the connection ends -/
  | ends (i : Nat)

/-- The labels of a stream at which `handle_query` comes in. -/
def Label.asks : Label → Bool
  | .polls _ | .resolves _ _ => true
  | _ => false

def Label.isPoll : Label → Bool
  | .polls _ => true
  | _ => false

namespace Listener

/-- A listener that has just been bound. -/
def start (app : Handler.State rr Heap) : Listener rr Heap where
  accepting := true
  shutdown := false
  available := maxConcurrentConnections
  conns := []
  app := app
  serving := fun _ => none

/-- The response `handle_query` has returned in a step of the handler. -/
def newAnswer (before after : Handler.State rr Heap) : Option Bytes :=
  if before.answers.length < after.answers.length then
    after.answers.head?.map Handler.Answer.response
  else none

def stream? (s : Listener rr Heap) (i : Nat) : Option Stream :=
  (s.conns[i]?).bind Connection.stream

/-- Connection `i` takes a step. A poll that is over leaves `poll_immediate`. -/
def inside (s : Listener rr Heap) (i : Nat) (label : Label) : Option (Listener rr Heap) :=
  (s.conns[i]?).bind fun conn => conn.stream.bind fun stream =>
    (step stream label).map fun stream' =>
      { s with conns := s.conns.set i { conn with
          stream := some stream', polling := conn.polling && !label.isPoll } }

/-- The response goes to the reader, if it is still polling, or to the query's own task. -/
def hand (s : Listener rr Heap) (i k : Nat) (response : Bytes) : Option (Listener rr Heap) :=
  if (s.stream? i).bind (·.phaseAt k) = some .permitted then s.inside i (.polls (some response))
  else s.inside i (.resolves k response)

/-- The future is of a query that was read off a connection. -/
def serves (s : Listener rr Heap) : Handler.Label → Bool
  | .cancel t => (s.serving t).isSome
  | _ => false

end Listener

section Step

variable [DecidableEq RecordType] [DecidableEq DNSClass]
  (sys : Handler.System RecordType DNSClass Heap) (s : Listener sys.rr Heap)

/-- The reader polls `handle_query(&state, &buf)`. -/
def stepBegins (i : Nat) (conn : Connection) (stream : Stream) (raw : Bytes) (t now : Nat) :
    Option (Listener sys.rr Heap) :=
  (Handler.step sys s.app (.query t raw now)).bind fun app =>
    match Listener.newAnswer s.app app with
    | some response => { s with app := app }.inside i (.polls (some response))
    | none => some { s with
        app := app
        serving := Function.update s.serving t (some (i, stream.current))
        conns := s.conns.set i { conn with polling := true } }

/-- A step of the handler; a task that returns hands its response over. -/
def stepApp (label : Handler.Label) : Option (Listener sys.rr Heap) :=
  (Handler.step sys s.app label).bind fun app =>
    match Listener.newAnswer s.app app, label.returns? with
    | some response, some t =>
      match s.serving t with
      | some (i, k) =>
        { s with app := app, serving := Function.update s.serving t none }.hand i k response
      | none => some { s with app := app }
    | _, _ => some { s with app := app }

/-- One step of the listener, of a connection or of the handler. -/
def listenerStep : ListenerLabel → Option (Listener sys.rr Heap)
  | .shutdown => some { s with shutdown := true }
  | .accept =>
    if s.accepting then
      -- without a permit the socket is dropped
      if s.available = 0 then some s
      else some { s with
        available := s.available - 1, conns := s.conns ++ [⟨none, true, false⟩] }
    else none
  | .acceptFails => if s.accepting then some s else none
  | .returns => if s.accepting ∧ s.shutdown then some { s with accepting := false } else none
  | .wrapped i =>
    match s.conns[i]? with
    | some ⟨none, true, _⟩ => some { s with conns := s.conns.set i ⟨some .start, true, false⟩ }
    | _ => none
  | .wrapFails i =>
    match s.conns[i]? with
    | some ⟨none, true, _⟩ => some { s with
        available := s.available + 1, conns := s.conns.set i ⟨none, false, false⟩ }
    | _ => none
  | .inside i label => if label.asks then none else s.inside i label
  | .begins i t now =>
    (s.conns[i]?).bind fun conn => conn.stream.bind fun stream =>
      match conn.polling, stream.reader, stream.queries[stream.current]? with
      | false, .serving, some ⟨raw, .permitted⟩ => stepBegins sys s i conn stream raw t now
      | _, _, _ => none
  | .parks i =>
    if (s.conns[i]?).any Connection.polling then s.inside i (.polls none) else none
  | .app label => if s.serves label then none else stepApp sys s label
  | .ends i =>
    match s.conns[i]? with
    | some ⟨some stream, true, polling⟩ =>
      match stream.reader with
      | .returned _ => some { s with
          available := s.available + 1, conns := s.conns.set i ⟨some stream, false, polling⟩ }
      | _ => none
    | _ => none

end Step

/-! ## What a step can do -/

section Hand

variable {s u : Listener rr Heap} {i k : Nat}

theorem inside_eq_some {label : Label} :
    s.inside i label = some u ↔ ∃ stream stream' permit polling,
      s.conns[i]? = some ⟨some stream, permit, polling⟩ ∧ step stream label = some stream' ∧
        u = { s with conns := s.conns.set i ⟨some stream', permit, polling && !label.isPoll⟩ } := by
  constructor
  · intro h
    obtain ⟨⟨stream?, permit, polling⟩, hi, h⟩ := Option.bind_eq_some_iff.mp h
    obtain ⟨stream, hStream, h⟩ := Option.bind_eq_some_iff.mp h
    obtain ⟨stream', hStep, rfl⟩ := Option.map_eq_some_iff.mp h
    cases hStream
    exact ⟨stream, stream', permit, polling, hi, hStep, rfl⟩
  · rintro ⟨stream, stream', permit, polling, hi, hStep, rfl⟩
    simp only [Listener.inside, hi, Option.bind_some, hStep, Option.map_some]

/-- The response is handed over to a stream. -/
theorem hand_eq_some {response : Bytes}
    (h : s.hand i k response = some u) : ∃ stream stream' permit polling l,
      s.conns[i]? = some ⟨some stream, permit, polling⟩ ∧
      (stream.phaseAt k = some .permitted ∧ l = .polls (some response) ∨
        stream.phaseAt k ≠ some .permitted ∧ l = .resolves k response) ∧
      step stream l = some stream' ∧
      u = { s with conns := s.conns.set i ⟨some stream', permit, polling && !l.isPoll⟩ } := by
  unfold Listener.hand Listener.stream? at h
  split at h
  · rename_i hPhase
    obtain ⟨stream, stream', permit, polling, hi, hStep, rfl⟩ := inside_eq_some.mp h
    rw [hi] at hPhase
    exact ⟨stream, stream', permit, polling, _, hi, .inl ⟨hPhase, rfl⟩, hStep, rfl⟩
  · rename_i hPhase
    obtain ⟨stream, stream', permit, polling, hi, hStep, rfl⟩ := inside_eq_some.mp h
    rw [hi] at hPhase
    exact ⟨stream, stream', permit, polling, _, hi, .inr ⟨hPhase, rfl⟩, hStep, rfl⟩

end Hand

section Moves

variable [DecidableEq RecordType] [DecidableEq DNSClass]
  {sys : Handler.System RecordType DNSClass Heap} {s u : Listener sys.rr Heap}

open Listener

/-- The transitions of the listener. -/
inductive ListenerMoves (s : Listener sys.rr Heap) : ListenerLabel → Listener sys.rr Heap → Prop where
  | shutdown : ListenerMoves s .shutdown { s with shutdown := true }
  | accept (hLoop : s.accepting = true) (hFree : 0 < s.available) :
      ListenerMoves s .accept { s with
        available := s.available - 1, conns := s.conns ++ [⟨none, true, false⟩] }
  | rejected (hLoop : s.accepting = true) (hFull : s.available = 0) : ListenerMoves s .accept s
  | acceptFails (hLoop : s.accepting = true) : ListenerMoves s .acceptFails s
  | returns (hLoop : s.accepting = true) (hShutdown : s.shutdown = true) :
      ListenerMoves s .returns { s with accepting := false }
  | wrapped {i : Nat} {polling : Bool} (hi : s.conns[i]? = some ⟨none, true, polling⟩) :
      ListenerMoves s (.wrapped i) { s with conns := s.conns.set i ⟨some .start, true, false⟩ }
  | wrapFails {i : Nat} {polling : Bool} (hi : s.conns[i]? = some ⟨none, true, polling⟩) :
      ListenerMoves s (.wrapFails i) { s with
        available := s.available + 1, conns := s.conns.set i ⟨none, false, false⟩ }
  | inside {i : Nat} {label : Label} {stream stream' : Stream} {permit polling : Bool}
      (hi : s.conns[i]? = some ⟨some stream, permit, polling⟩) (hLabel : label.asks = false)
      (hStep : step stream label = some stream') :
      ListenerMoves s (.inside i label) { s with
        conns := s.conns.set i ⟨some stream', permit, polling⟩ }
  | atOnce {i t now : Nat} {stream stream' : Stream} {permit : Bool} {raw response : Bytes}
      {app : Handler.State sys.rr Heap}
      (hi : s.conns[i]? = some ⟨some stream, permit, false⟩)
      (hQuery : stream.queries[stream.current]? = some ⟨raw, .permitted⟩)
      (hApp : Handler.step sys s.app (.query t raw now) = some app)
      (hAnswer : newAnswer s.app app = some response)
      (hStep : step stream (.polls (some response)) = some stream') :
      ListenerMoves s (.begins i t now) { s with
        app := app, conns := s.conns.set i ⟨some stream', permit, false⟩ }
  | begins {i t now : Nat} {stream : Stream} {permit : Bool} {raw : Bytes}
      {app : Handler.State sys.rr Heap}
      (hi : s.conns[i]? = some ⟨some stream, permit, false⟩) (hReader : stream.reader = .serving)
      (hQuery : stream.queries[stream.current]? = some ⟨raw, .permitted⟩)
      (hApp : Handler.step sys s.app (.query t raw now) = some app)
      (hAnswer : newAnswer s.app app = none) :
      ListenerMoves s (.begins i t now) { s with
        app := app
        serving := Function.update s.serving t (some (i, stream.current))
        conns := s.conns.set i ⟨some stream, permit, true⟩ }
  | parks {i : Nat} {stream stream' : Stream} {permit : Bool}
      (hi : s.conns[i]? = some ⟨some stream, permit, true⟩)
      (hStep : step stream (.polls none) = some stream') :
      ListenerMoves s (.parks i) { s with conns := s.conns.set i ⟨some stream', permit, false⟩ }
  | app {label : Handler.Label} {app : Handler.State sys.rr Heap}
      (hKept : ∀ t, label = .cancel t → s.serving t = none)
      (hApp : Handler.step sys s.app label = some app)
      (hAnswer : newAnswer s.app app = none ∨ ∀ t, label.returns? = some t → s.serving t = none) :
      ListenerMoves s (.app label) { s with app := app }
  | answers {label : Handler.Label} {t i k : Nat} {app : Handler.State sys.rr Heap}
      {response : Bytes} {stream stream' : Stream} {permit polling : Bool} {l : Label}
      (hTask : label.returns? = some t) (hServing : s.serving t = some (i, k))
      (hApp : Handler.step sys s.app label = some app)
      (hAnswer : newAnswer s.app app = some response)
      (hi : s.conns[i]? = some ⟨some stream, permit, polling⟩)
      (hHand : stream.phaseAt k = some .permitted ∧ l = .polls (some response) ∨
        stream.phaseAt k ≠ some .permitted ∧ l = .resolves k response)
      (hStep : step stream l = some stream') :
      ListenerMoves s (.app label) { s with
        app := app
        serving := Function.update s.serving t none
        conns := s.conns.set i ⟨some stream', permit, polling && !l.isPoll⟩ }
  | ends {i : Nat} {stream : Stream} {polling : Bool} {result : Except String Unit}
      (hi : s.conns[i]? = some ⟨some stream, true, polling⟩)
      (hReturned : stream.reader = .returned result) :
      ListenerMoves s (.ends i) { s with
        available := s.available + 1, conns := s.conns.set i ⟨some stream, false, polling⟩ }

theorem stepBegins_moves {i t now : Nat} {stream : Stream} {permit : Bool} {raw : Bytes}
    (hi : s.conns[i]? = some ⟨some stream, permit, false⟩) (hReader : stream.reader = .serving)
    (hQuery : stream.queries[stream.current]? = some ⟨raw, .permitted⟩)
    (h : stepBegins sys s i ⟨some stream, permit, false⟩ stream raw t now = some u) :
    ListenerMoves s (.begins i t now) u := by
  obtain ⟨app, hApp, h⟩ := Option.bind_eq_some_iff.mp h
  split at h
  · rename_i response hAnswer
    obtain ⟨stream₁, stream', permit₁, polling, hi₁, hStep, rfl⟩ := inside_eq_some.mp h
    cases hi.symm.trans hi₁
    exact .atOnce hi hQuery hApp hAnswer hStep
  · rename_i hAnswer
    cases h
    exact .begins hi hReader hQuery hApp hAnswer

theorem stepApp_moves {label : Handler.Label} (hKept : s.serves label = false)
    (h : stepApp sys s label = some u) : ListenerMoves s (.app label) u := by
  have hCancel : ∀ t, label = .cancel t → s.serving t = none := by
    rintro t rfl
    exact Option.not_isSome_iff_eq_none.mp (Bool.eq_false_iff.mp hKept)
  obtain ⟨app, hApp, h⟩ := Option.bind_eq_some_iff.mp h
  split at h
  · rename_i response t hAnswer hTask
    split at h
    · rename_i i k hServing
      obtain ⟨stream, stream', permit, polling, l, hi, hHand, hStep, rfl⟩ := hand_eq_some h
      exact .answers hTask hServing hApp hAnswer hi hHand hStep
    · rename_i hServing
      cases h
      refine .app hCancel hApp (.inr fun t' ht' => ?_)
      cases hTask.symm.trans ht'
      exact hServing
  · rename_i hNot
    cases h
    refine .app hCancel hApp ?_
    cases hAnswer : newAnswer s.app app with
    | none => exact .inl rfl
    | some response => exact .inr fun t ht => absurd ht (hNot response t hAnswer)

/-- **Inversion of `listenerStep`.** -/
theorem listenerStep_moves {label : ListenerLabel} (h : listenerStep sys s label = some u) :
    ListenerMoves s label u := by
  cases label with
  | shutdown =>
    cases h
    exact .shutdown
  | accept =>
    simp only [listenerStep, Option.ite_none_right_eq_some] at h
    obtain ⟨hLoop, h⟩ := h
    split at h
    · rename_i hFull
      cases h
      exact .rejected hLoop hFull
    · rename_i hFree
      cases h
      exact .accept hLoop (Nat.pos_of_ne_zero hFree)
  | acceptFails =>
    simp only [listenerStep, Option.ite_none_right_eq_some] at h
    obtain ⟨hLoop, h⟩ := h
    cases h
    exact .acceptFails hLoop
  | returns =>
    simp only [listenerStep, Option.ite_none_right_eq_some] at h
    obtain ⟨hLoop, h⟩ := h
    cases h
    exact .returns hLoop.1 hLoop.2
  | wrapped i =>
    simp only [listenerStep] at h
    split at h
    · cases h
      exact .wrapped ‹_›
    · cases h
  | wrapFails i =>
    simp only [listenerStep] at h
    split at h
    · cases h
      exact .wrapFails ‹_›
    · cases h
  | inside i label =>
    simp only [listenerStep, Option.ite_none_left_eq_some] at h
    obtain ⟨hLabel, h⟩ := h
    obtain ⟨stream, stream', permit, polling, hi, hStep, rfl⟩ := inside_eq_some.mp h
    have hPoll : label.isPoll = false := by
      cases label with
      | polls => exact absurd rfl hLabel
      | _ => rfl
    rw [hPoll, Bool.not_false, Bool.and_true]
    exact .inside hi (Bool.eq_false_iff.mpr hLabel) hStep
  | begins i t now =>
    simp only [listenerStep] at h
    obtain ⟨⟨stream?, permit, polling⟩, hi, h⟩ := Option.bind_eq_some_iff.mp h
    obtain ⟨stream, hStream, h⟩ := Option.bind_eq_some_iff.mp h
    cases hStream
    split at h
    · rename_i raw hPolling hReader hQuery
      cases hPolling
      exact stepBegins_moves hi hReader hQuery h
    · cases h
  | parks i =>
    simp only [listenerStep, Option.ite_none_right_eq_some] at h
    obtain ⟨hPolling, h⟩ := h
    obtain ⟨stream, stream', permit, polling, hi, hStep, rfl⟩ := inside_eq_some.mp h
    rw [hi] at hPolling
    cases (hPolling : polling = true)
    exact .parks hi hStep
  | app label =>
    simp only [listenerStep, Option.ite_none_left_eq_some] at h
    exact stepApp_moves (Bool.eq_false_iff.mpr h.1) h.2
  | ends i =>
    simp only [listenerStep] at h
    split at h
    · rename_i stream polling hi
      split at h
      · rename_i result hReturned
        cases h
        exact .ends hi hReturned
      · cases h
    · cases h

end Moves

/-! ## Queries of a stream -/

section Queries

variable {st st' : Stream} {a : Label} {j k : Nat} {p p' : Phase} {q q' : Query}

/-- What a step that is not about `handle_query` leaves of a query. -/
structure Carried (q q' : Query) : Prop where
  raw : q'.raw = q.raw
  response : q'.phase.response = q.phase.response
  held : q.phase = .permitted ∨ q.phase = .resolving → q'.phase = q.phase
  back : q'.phase = .resolving → q.phase = .resolving

theorem carried_self (q : Query) : Carried q q := ⟨rfl, rfl, fun _ => rfl, fun h => h⟩

theorem getElem?_setPhase (st : Stream) (j k : Nat) (p' : Phase) :
    (st.setPhase j p').queries[k]? =
      (st.queries[k]?).map fun q => if j = k then { q with phase := p' } else q :=
  List.getElem?_modify ..

theorem getElem?_setPhase_ne (st : Stream) (p' : Phase) (h : k ≠ j) :
    (st.setPhase j p').queries[k]? = st.queries[k]? := by
  simp [getElem?_setPhase, h.symm]

/-- The phase of a query that was polled and is settled changes, or of one that waits. -/
theorem carried_setPhase (hPhase : st.phaseAt j = some p) (hResponse : p'.response = p.response)
    (hHeld : p ≠ .permitted ∧ p ≠ .resolving) (hBack : p' ≠ .resolving)
    (hq : st.queries[k]? = some q) :
    ∃ q', (st.setPhase j p').queries[k]? = some q' ∧ Carried q q' := by
  rw [getElem?_setPhase, hq]
  refine ⟨_, rfl, ?_⟩
  split
  · rename_i hEq
    subst hEq
    obtain ⟨raw, hj⟩ := phaseAt_eq_some.mp hPhase
    cases hq.symm.trans hj
    refine ⟨rfl, hResponse, fun h => ?_, fun h => absurd h hBack⟩
    rcases h with h | h
    · exact absurd h hHeld.1
    · exact absurd h hHeld.2
  · exact carried_self q

theorem carried_step (hStep : step st a = some st') (ha : a.asks = false)
    (hq : st.queries[k]? = some q) : ∃ q', st'.queries[k]? = some q' ∧ Carried q q' := by
  cases step_moves hStep with
  | ready | spawn | resolves => cases ha
  | acquire hReader hPhase => exact carried_setPhase hPhase rfl (by decide) nofun hq
  | sends hPhase | lost hPhase | finishes hPhase =>
    exact carried_setPhase hPhase rfl ⟨nofun, nofun⟩ nofun hq
  | query => exact ⟨q, List.getElem?_append_left (List.getElem?_eq_some_iff.mp hq).1 ▸ hq, carried_self q⟩
  | arrives | closes | header | zero | last | cut | rough | dropsSender | takes | skips | ends
  | writes | writesAll | flushes | writeFails | joins => exact ⟨q, hq, carried_self q⟩

/-- A query that was not there waits for its permit. -/
theorem waiting_step (hStep : step st a = some st') (hNone : st.queries[k]? = none)
    (hq : st'.queries[k]? = some q') : q'.phase = .waiting := by
  have hSet : ∀ {j : Nat} {p' : Phase}, (st.setPhase j p').queries[k]? ≠ some q' := by
    intro j p' h
    rw [getElem?_setPhase, hNone] at h
    cases h
  cases step_moves hStep with
  | query =>
    have hLen := List.getElem?_eq_none_iff.mp hNone
    rw [List.getElem?_append_right hLen] at hq
    cases List.mem_singleton.mp (List.mem_of_getElem? hq)
    rfl
  | acquire | ready | spawn | resolves | sends | lost | finishes => exact absurd hq hSet
  | arrives | closes | header | zero | last | cut | rough | dropsSender | takes | skips | ends
  | writes | writesAll | flushes | writeFails | joins =>
    rw [hNone] at hq
    cases hq

/-- While the reader is busy with a query it reads no other. -/
theorem current_step (hStep : step st a = some st') (hReader : st.reader = .serving) :
    st'.current = st.current := by
  cases step_moves hStep with
  | query hBody =>
    rw [hReader] at hBody
    cases hBody
  | acquire | ready | resolves | sends | lost | spawn | finishes => exact current_setPhase ..
  | arrives | closes | header | zero | last | cut | rough | dropsSender | takes | skips | ends
  | writes | writesAll | flushes | writeFails | joins => rfl

theorem exists_query (h : st.phaseAt k = some p) : ∃ q, st.queries[k]? = some q ∧ q.phase = p := by
  obtain ⟨raw, hq⟩ := phaseAt_eq_some.mp h
  exact ⟨_, hq, rfl⟩

theorem phaseAt_of_query (h : st.queries[k]? = some q) : st.phaseAt k = some q.phase :=
  phaseAt_eq_some.mpr ⟨q.raw, h⟩

/-- The queries before a step and after it. -/
theorem query_step (hStep : step st a = some st') (ha : a.asks = false)
    (hq : st'.queries[k]? = some q') :
    q'.phase = .waiting ∨ ∃ q, st.queries[k]? = some q ∧ Carried q q' := by
  cases hOld : st.queries[k]? with
  | none => exact .inl (waiting_step hStep hOld hq)
  | some q =>
    obtain ⟨q₁, hq₁, hCarried⟩ := carried_step hStep ha hOld
    cases hq₁.symm.trans hq
    exact .inr ⟨q, rfl, hCarried⟩

end Queries

/-! ## Tasks and queries -/

section Joined

variable {s u : Listener rr Heap} {t i k : Nat}

/-- Task `t` of the handler works on query `k` of connection `i`: the reader is polling it, or
it has a task of its own. -/
structure Serves (s : Listener rr Heap) (t i k : Nat) (stream : Stream) (permit polling : Bool)
    (q : Query) : Prop where
  conn : s.conns[i]? = some ⟨some stream, permit, polling⟩
  query : stream.queries[k]? = some q
  asked : (s.app.tasks t).asked = {q.raw}
  phase : q.phase = .resolving ∨ q.phase = .permitted ∧ polling = true

/-- The stream of connection `i`, with what the handler has to do with it. -/
structure StreamOk (serving : Nat → Option (Nat × Nat)) (answers : List Handler.Answer) (i : Nat)
    (stream : Stream) (polling : Bool) : Prop where
  roles : Roles stream
  resolving : ∀ k, stream.phaseAt k = some .resolving → ∃ t, serving t = some (i, k)
  polling : polling = true →
    stream.phaseAt stream.current = some .permitted ∧ ∃ t, serving t = some (i, stream.current)
  /-- a response is what `handle_query` returned for this very query -/
  told : ∀ (k : Nat) (q : Query) (response : Bytes), stream.queries[k]? = some q →
    q.phase.response = some response →
      ∃ a ∈ answers, a.raw = q.raw ∧ a.response = response

/-- The tasks of the handler and the queries of the connections belong together. -/
structure Joined (s : Listener rr Heap) : Prop where
  serves : ∀ t i k, s.serving t = some (i, k) →
    ∃ stream permit polling q, Serves s t i k stream permit polling q
  once : ∀ t t' p, s.serving t = some p → s.serving t' = some p → t = t'
  streams : ∀ i stream permit polling, s.conns[i]? = some ⟨some stream, permit, polling⟩ →
    StreamOk s.serving s.app.answers i stream polling

theorem joined_start {app : Handler.State rr Heap} : Joined (Listener.start app) where
  serves t i k h := by cases h
  once t t' p h := by cases h
  streams i stream permit polling h := by cases h

/-- More was answered, and the tasks for this connection are as they were. -/
theorem StreamOk.mono {serving serving' : Nat → Option (Nat × Nat)}
    {answers answers' : List Handler.Answer} {stream : Stream} {polling : Bool}
    (h : StreamOk serving answers i stream polling)
    (hServing : ∀ t k, serving t = some (i, k) → serving' t = some (i, k))
    (hAnswers : answers ⊆ answers') : StreamOk serving' answers' i stream polling where
  roles := h.roles
  resolving k hPhase := by
    obtain ⟨t, ht⟩ := h.resolving k hPhase
    exact ⟨t, hServing t k ht⟩
  polling hPolling := by
    obtain ⟨hPhase, t, ht⟩ := h.polling hPolling
    exact ⟨hPhase, t, hServing t _ ht⟩
  told k q response hq hResponse := by
    obtain ⟨a, ha, hRaw⟩ := h.told k q response hq hResponse
    exact ⟨a, hAnswers ha, hRaw⟩

theorem streamOk_start (serving : Nat → Option (Nat × Nat)) (answers : List Handler.Answer)
    (i : Nat) : StreamOk serving answers i .start false where
  roles := ⟨fun k p h => (by cases h), fun h => (by cases h)⟩
  resolving k h := by cases h
  polling h := by cases h
  told k q response h := by cases h

/-- A step of the stream that is not about `handle_query`. -/
theorem StreamOk.inside {serving : Nat → Option (Nat × Nat)} {answers : List Handler.Answer}
    {stream stream' : Stream} {polling : Bool} {label : Label}
    (h : StreamOk serving answers i stream polling) (hLabel : label.asks = false)
    (hStep : step stream label = some stream') : StreamOk serving answers i stream' polling where
  roles := h.roles.moves (step_moves hStep)
  resolving k hPhase := by
    obtain ⟨q', hq', hPhase⟩ := exists_query hPhase
    rcases query_step hStep hLabel hq' with hWaiting | ⟨q, hq, hCarried⟩
    · rw [hWaiting] at hPhase
      cases hPhase
    · refine h.resolving k ?_
      rw [phaseAt_of_query hq, hCarried.back hPhase]
  polling hPolling := by
    obtain ⟨hPhase, hTask⟩ := h.polling hPolling
    have hReader := (h.roles.own _ _ hPhase rfl).1
    rw [current_step hStep hReader]
    refine ⟨?_, hTask⟩
    obtain ⟨q, hq, hPhase⟩ := exists_query hPhase
    obtain ⟨q', hq', hCarried⟩ := carried_step hStep hLabel hq
    rw [phaseAt_of_query hq', hCarried.held (.inl hPhase), hPhase]
  told k q' response hq' hResponse := by
    rcases query_step hStep hLabel hq' with hWaiting | ⟨q, hq, hCarried⟩
    · rw [hWaiting] at hResponse
      cases hResponse
    · rw [hCarried.response] at hResponse
      rw [hCarried.raw]
      exact h.told k q response hq hResponse

/-- Replacing one connection, the handler and the rest being as they were. -/
theorem Joined.set (h : Joined s) {stream stream' : Stream} {permit permit' polling polling' : Bool}
    (hi : s.conns[i]? = some ⟨some stream, permit, polling⟩) (available : Nat)
    (hKept : ∀ (k : Nat) (q : Query), stream.queries[k]? = some q →
      q.phase = .resolving ∨ q.phase = .permitted ∧ polling = true →
      ∃ q', stream'.queries[k]? = some q' ∧ q'.raw = q.raw ∧
        (q'.phase = .resolving ∨ q'.phase = .permitted ∧ polling' = true))
    (hOk : StreamOk s.serving s.app.answers i stream' polling') :
    Joined { s with
      available := available, conns := s.conns.set i ⟨some stream', permit', polling'⟩ } where
  serves t j k ht := by
    obtain ⟨st, permit₁, polling₁, q, hServes⟩ := h.serves t j k ht
    by_cases hEq : j = i
    · subst hEq
      cases hi.symm.trans hServes.conn
      obtain ⟨q', hq', hRaw, hPhase⟩ := hKept k q hServes.query hServes.phase
      exact ⟨stream', permit', polling', q', getElem?_set_same hi, hq', hRaw ▸ hServes.asked, hPhase⟩
    · refine ⟨st, permit₁, polling₁, q, ?_, hServes.query, hServes.asked, hServes.phase⟩
      rw [List.getElem?_set_ne (Ne.symm hEq)]
      exact hServes.conn
  once := h.once
  streams j st permit₁ polling₁ hj := by
    rcases getElem?_set_cases hj with ⟨rfl, hEq⟩ | ⟨-, hj⟩
    · cases hEq
      exact hOk
    · exact h.streams j st permit₁ polling₁ hj

/-- The handshake of a connection ends; nobody serves it yet. -/
theorem Joined.handshake (h : Joined s) {permit polling : Bool}
    (hi : s.conns[i]? = some ⟨none, permit, polling⟩) (available : Nat) (conn : Connection)
    (hOk : ∀ stream permit' polling', conn = ⟨some stream, permit', polling'⟩ →
      StreamOk s.serving s.app.answers i stream polling') :
    Joined { s with available := available, conns := s.conns.set i conn } where
  serves t j k ht := by
    obtain ⟨stream, permit', polling', q, hServes⟩ := h.serves t j k ht
    refine ⟨stream, permit', polling', q, ?_, hServes.query, hServes.asked, hServes.phase⟩
    refine (List.getElem?_set_ne ?_).trans hServes.conn
    rintro rfl
    cases hi.symm.trans hServes.conn
  once := h.once
  streams j stream permit' polling' hj := by
    rcases getElem?_set_cases hj with ⟨rfl, hEq⟩ | ⟨-, hj⟩
    · exact hOk stream permit' polling' hEq.symm
    · exact h.streams j stream permit' polling' hj

/-- The accept loop goes on. -/
theorem Joined.loop (h : Joined s) (accepting shutdown : Bool) :
    Joined { s with accepting := accepting, shutdown := shutdown } where
  serves t i k ht := by
    obtain ⟨stream, permit, polling, q, hServes⟩ := h.serves t i k ht
    exact ⟨stream, permit, polling, q, hServes.conn, hServes.query, hServes.asked, hServes.phase⟩
  once := h.once
  streams := h.streams

/-- The handler takes a step, and those who serve somebody keep their query. -/
theorem Joined.withApp (h : Joined s) {app : Handler.State rr Heap}
    (hAsked : ∀ t, s.serving t ≠ none → (app.tasks t).asked = (s.app.tasks t).asked)
    (hAnswers : s.app.answers ⊆ app.answers) : Joined { s with app := app } where
  serves t i k ht := by
    obtain ⟨stream, permit, polling, q, hServes⟩ := h.serves t i k ht
    refine ⟨stream, permit, polling, q, hServes.conn, hServes.query, ?_, hServes.phase⟩
    exact (hAsked t fun hNone => by cases ht.symm.trans hNone).trans hServes.asked
  once := h.once
  streams i stream permit polling hi :=
    (h.streams i stream permit polling hi).mono (fun _ _ ht => ht) hAnswers

/-- An idle task serves nobody. -/
theorem Joined.idle (h : Joined s) (ht : s.app.tasks t = .idle) : s.serving t = none := by
  cases hServing : s.serving t with
  | none => rfl
  | some p =>
    obtain ⟨stream, permit, polling, q, hServes⟩ := h.serves t p.1 p.2 hServing
    have hAsked := hServes.asked
    rw [ht] at hAsked
    cases (Multiset.zero_ne_singleton q.raw) hAsked

theorem newAnswer_same {before after : Handler.State rr Heap} (h : after.answers = before.answers) :
    Listener.newAnswer before after = none := by
  unfold Listener.newAnswer
  rw [h, if_neg (Nat.lt_irrefl _)]

theorem newAnswer_cons {before after : Handler.State rr Heap} {a : Handler.Answer}
    (h : after.answers = a :: before.answers) :
    Listener.newAnswer before after = some a.response := by
  unfold Listener.newAnswer
  rw [h, if_pos (by simp)]
  rfl

end Joined

section JoinedMoves

variable {s : Listener rr Heap} {stream stream' : Stream} {permit polling : Bool} {i t now : Nat}
  {raw response : Bytes} {app : Handler.State rr Heap}

open Listener Handler

/-- The stream's query `k` has its response, and needs its task no more. -/
theorem StreamOk.answered {serving serving' : Nat → Option (Nat × Nat)}
    {answers answers' : List Answer} {k : Nat} {q : Query} {inline polling' : Bool}
    (h : StreamOk serving answers i stream polling) (hRoles : Roles stream')
    (hServing : ∀ t k', k' ≠ k → serving t = some (i, k') → serving' t = some (i, k'))
    (hAnswers : answers ⊆ answers') (hq : stream.queries[k]? = some q)
    (hQueries : stream'.queries = (stream.setPhase k (.sending inline response)).queries)
    (hTold : ∃ a ∈ answers', a.raw = q.raw ∧ a.response = response)
    (hPolling : polling' = true → stream.phaseAt k ≠ some .permitted ∧ polling = true) :
    StreamOk serving' answers' i stream' polling' where
  roles := hRoles
  resolving k' hPhase := by
    obtain ⟨q', hq', hPhase⟩ := exists_query hPhase
    rw [hQueries] at hq'
    by_cases hEq : k' = k
    · subst hEq
      rw [getElem?_setPhase, hq, Option.map_some, if_pos rfl] at hq'
      cases hq'
      cases hPhase
    · rw [getElem?_setPhase_ne _ _ hEq] at hq'
      obtain ⟨t, ht⟩ := h.resolving k' (by rw [phaseAt_of_query hq', hPhase])
      exact ⟨t, hServing t k' hEq ht⟩
  polling hTrue := by
    obtain ⟨hOther, hWas⟩ := hPolling hTrue
    obtain ⟨hPhase, t, ht⟩ := h.polling hWas
    have hCurrent : stream'.current = stream.current := by
      unfold Stream.current
      rw [hQueries]
      exact current_setPhase ..
    have hNe : stream.current ≠ k := fun hEq => hOther (hEq ▸ hPhase)
    rw [hCurrent]
    refine ⟨?_, t, hServing t _ hNe ht⟩
    obtain ⟨q', hq', hPhase'⟩ := exists_query hPhase
    rw [Stream.phaseAt, hQueries, getElem?_setPhase_ne _ _ hNe, hq', ← hPhase']
    rfl
  told k' q' response' hq' hResponse := by
    rw [hQueries] at hq'
    by_cases hEq : k' = k
    · subst hEq
      rw [getElem?_setPhase, hq, Option.map_some, if_pos rfl] at hq'
      cases hq'
      cases hResponse
      exact hTold
    · rw [getElem?_setPhase_ne _ _ hEq] at hq'
      obtain ⟨a, ha, hSame⟩ := h.told k' q' response' hq' hResponse
      exact ⟨a, hAnswers ha, hSame⟩

/-- The reader's query is answered by its first poll. -/
theorem Joined.atOnce (h : Joined s) (hOutcome : Outcome s.app (.query t raw now) app)
    (hi : s.conns[i]? = some ⟨some stream, permit, false⟩)
    (hQuery : stream.queries[stream.current]? = some ⟨raw, .permitted⟩)
    (hAnswer : newAnswer s.app app = some response)
    (hStep : Server.step stream (.polls (some response)) = some stream') :
    Joined { s with app := app, conns := s.conns.set i ⟨some stream', permit, false⟩ } := by
  obtain ⟨a, hRaw, hTasks, hAnswers⟩ : ∃ a : Answer, raw = a.raw ∧ app.tasks = s.app.tasks ∧
      app.answers = a :: s.app.answers := by
    cases hOutcome with
    | begins _ _ _ _ hSame =>
      rw [newAnswer_same hSame] at hAnswer
      cases hAnswer
    | goesOn hLabel => cases hLabel
    | returns hLabel => cases hLabel
    | atOnce hLabel hIdle hTasks hAnswers =>
      cases hLabel
      exact ⟨_, rfl, hTasks, hAnswers⟩
  rw [newAnswer_cons hAnswers] at hAnswer
  cases hAnswer
  have hApp : Joined { s with app := app } :=
    h.withApp (fun t _ => by rw [hTasks]) (hAnswers ▸ List.subset_cons_self ..)
  have hOk := hApp.streams i stream permit false hi
  cases step_moves hStep with
  | rough hRough => cases hRough
  | ready hReader hPhase =>
    refine hApp.set hi s.available (fun k q hq hBusy => ?_) ?_
    · -- whoever has a task is another query
      have hResolving : q.phase = .resolving := hBusy.resolve_right fun hPoll => by cases hPoll.2
      have hNe : k ≠ stream.current := by
        rintro rfl
        cases hq.symm.trans hQuery
        cases hResolving
      exact ⟨q, by rw [getElem?_setPhase_ne _ _ hNe]; exact hq, rfl, .inl hResolving⟩
    · exact hOk.answered (hOk.roles.moves (step_moves hStep)) (fun _ _ _ ht => ht)
        (List.Subset.refl _) hQuery rfl
        ⟨a, by rw [hAnswers]; exact List.mem_cons_self, hRaw.symm, rfl⟩ (fun hPoll => by cases hPoll)

/-- The reader's query has begun. -/
theorem Joined.begins (h : Joined s) (hOutcome : Outcome s.app (.query t raw now) app)
    (hi : s.conns[i]? = some ⟨some stream, permit, false⟩)
    (hQuery : stream.queries[stream.current]? = some ⟨raw, .permitted⟩)
    (hAnswer : newAnswer s.app app = none) :
    Joined { s with
      app := app
      serving := Function.update s.serving t (some (i, stream.current))
      conns := s.conns.set i ⟨some stream, permit, true⟩ } := by
  obtain ⟨hIdle, hAsked, hOthers, hAnswers⟩ : s.app.tasks t = .idle ∧ (app.tasks t).asked = {raw} ∧
      (∀ t', t' ≠ t → app.tasks t' = s.app.tasks t') ∧ app.answers = s.app.answers := by
    cases hOutcome with
    | begins hLabel hIdle hAsked hOthers hAnswers =>
      cases hLabel
      exact ⟨hIdle, hAsked, hOthers, hAnswers⟩
    | goesOn hLabel => cases hLabel
    | returns hLabel => cases hLabel
    | atOnce hLabel hIdle hTasks hAnswers =>
      rw [newAnswer_cons hAnswers] at hAnswer
      cases hAnswer
  have hFree := h.idle hIdle
  -- nobody has served this query before
  have hNew : ∀ t', s.serving t' ≠ some (i, stream.current) := by
    intro t' ht'
    obtain ⟨st, permit₁, polling₁, q, hServes⟩ := h.serves t' _ _ ht'
    cases hi.symm.trans hServes.conn
    cases hServes.query.symm.trans hQuery
    rcases hServes.phase with hPhase | ⟨-, hPoll⟩
    · cases hPhase
    · cases hPoll
  have hKeep : ∀ t' j k, s.serving t' = some (j, k) →
      Function.update s.serving t (some (i, stream.current)) t' = some (j, k) := by
    intro t' j k ht'
    rw [Function.update_of_ne]
    · exact ht'
    · rintro rfl
      cases hFree.symm.trans ht'
  constructor
  · intro t' j k ht'
    rcases update_eq_some ht' with ⟨rfl, hNow⟩ | ⟨hEq, ht'⟩
    · cases hNow
      exact ⟨stream, permit, true, ⟨raw, .permitted⟩, getElem?_set_same hi, hQuery, hAsked,
        .inr ⟨rfl, rfl⟩⟩
    · obtain ⟨st, permit₁, polling₁, q, hServes⟩ := h.serves t' j k ht'
      have hAsked' : (app.tasks t').asked = {q.raw} := by
        rw [hOthers t' hEq]
        exact hServes.asked
      by_cases hSame : j = i
      · subst hSame
        cases hi.symm.trans hServes.conn
        have hResolving : q.phase = .resolving :=
          hServes.phase.resolve_right fun hPoll => by cases hPoll.2
        exact ⟨stream, permit, true, q, getElem?_set_same hi, hServes.query, hAsked', .inl hResolving⟩
      · refine ⟨st, permit₁, polling₁, q, ?_, hServes.query, hAsked', hServes.phase⟩
        rw [List.getElem?_set_ne (Ne.symm hSame)]
        exact hServes.conn
  · intro t₁ t₂ p h₁ h₂
    rcases update_eq_some h₁ with ⟨rfl, hNow⟩ | ⟨-, hOld₁⟩
    · rcases update_eq_some h₂ with ⟨rfl, -⟩ | ⟨-, hOld₂⟩
      · rfl
      · exact absurd (hNow ▸ hOld₂) (hNew t₂)
    · rcases update_eq_some h₂ with ⟨rfl, hNow⟩ | ⟨-, hOld₂⟩
      · exact absurd (hNow ▸ hOld₁) (hNew t₁)
      · exact h.once t₁ t₂ p hOld₁ hOld₂
  · intro j st permit₁ polling₁ hj
    have hMono : ∀ {st : Stream} {polling₁ : Bool},
        StreamOk s.serving s.app.answers j st polling₁ →
        StreamOk (Function.update s.serving t (some (i, stream.current))) app.answers j st polling₁ :=
      fun hOk => hOk.mono (fun t' k ht' => hKeep t' j k ht') (hAnswers ▸ List.Subset.refl _)
    rcases getElem?_set_cases hj with ⟨rfl, hEq⟩ | ⟨-, hj⟩
    · cases hEq
      have hOk := hMono (h.streams _ _ _ _ hi)
      refine ⟨hOk.roles, hOk.resolving, fun _ => ⟨?_, t, Function.update_self ..⟩, hOk.told⟩
      exact phaseAt_of_query hQuery
    · exact hMono (h.streams _ _ _ _ hj)

/-- The reader gives its query to a task. -/
theorem Joined.parks (h : Joined s) (hi : s.conns[i]? = some ⟨some stream, permit, true⟩)
    (hStep : Server.step stream (.polls none) = some stream') :
    Joined { s with conns := s.conns.set i ⟨some stream', permit, false⟩ } := by
  have hOk := h.streams i stream permit true hi
  obtain ⟨hCurrent, hTask⟩ := hOk.polling rfl
  have hRoles := hOk.roles.moves (step_moves hStep)
  obtain ⟨q₀, hq₀, hPhase₀⟩ := exists_query hCurrent
  cases step_moves hStep with
  | rough hRough => cases hRough
  | spawn hReader hPhase =>
    refine h.set hi s.available (fun k q hq hBusy => ?_) ?_
    · by_cases hEq : k = stream.current
      · subst hEq
        refine ⟨{ q with phase := .resolving }, ?_, rfl, .inl rfl⟩
        show (stream.setPhase _ _).queries[_]? = _
        rw [getElem?_setPhase, hq, Option.map_some, if_pos rfl]
      · -- only the reader's query is polled by it
        have hResolving : q.phase = .resolving := by
          refine hBusy.resolve_right fun hPoll => hEq ?_
          exact (hOk.roles.own k q.phase (phaseAt_of_query hq) (by rw [hPoll.1]; rfl)).2
        refine ⟨q, ?_, rfl, .inl hResolving⟩
        show (stream.setPhase _ _).queries[_]? = _
        rw [getElem?_setPhase_ne _ _ hEq]
        exact hq
    · refine ⟨hRoles, fun k hk => ?_, fun hPoll => (by cases hPoll), fun k q response hq hResponse => ?_⟩
      · by_cases hEq : k = stream.current
        · exact hEq ▸ hTask
        · refine hOk.resolving k ?_
          have hk' : (stream.setPhase stream.current .resolving).phaseAt k = some .resolving := hk
          rwa [phaseAt_setPhase, if_neg hEq] at hk'
      · have hq' : (stream.setPhase stream.current .resolving).queries[k]? = some q := hq
        by_cases hEq : k = stream.current
        · subst hEq
          rw [getElem?_setPhase, hq₀, Option.map_some, if_pos rfl] at hq'
          cases hq'
          cases hResponse
        · rw [getElem?_setPhase_ne _ _ hEq] at hq'
          exact hOk.told k q response hq' hResponse

/-- A step of the handler that answers no query of a connection. -/
theorem Joined.handler {label : Handler.Label} (h : Joined s) (hOutcome : Outcome s.app label app)
    (hKept : ∀ t, label = .cancel t → s.serving t = none)
    (hAnswer : newAnswer s.app app = none ∨ ∀ t, label.returns? = some t → s.serving t = none) :
    Joined { s with app := app } := by
  cases hOutcome with
  | begins hLabel hIdle hAsked hOthers hAnswers =>
    refine h.withApp (fun t' ht' => ?_) (hAnswers ▸ List.Subset.refl _)
    have hNe : ∀ {t : Nat}, s.app.tasks t = .idle → t' ≠ t := fun hIdle hEq =>
      ht' (h.idle (by rw [hEq]; exact hIdle))
    rw [hOthers t' (hNe hIdle)]
  | goesOn hLabel hAsked hAnswers =>
    refine h.withApp (fun t' ht' => hAsked t' fun hCancel => ht' (hKept t' hCancel)) ?_
    exact hAnswers ▸ List.Subset.refl _
  | atOnce hLabel hIdle hTasks hAnswers =>
    exact h.withApp (fun t' _ => by rw [hTasks]) (hAnswers ▸ List.subset_cons_self ..)
  | returns hLabel hTask hAsked hTasks hAnswers =>
    have hFree := hAnswer.resolve_left (by rw [newAnswer_cons hAnswers]; exact nofun) _ hTask
    refine h.withApp (fun t' ht' => ?_) (hAnswers ▸ List.subset_cons_self ..)
    rw [hTasks, Function.update_of_ne]
    rintro rfl
    exact ht' hFree

/-- A task returns and hands its response to the query it serves. -/
theorem Joined.answers {label : Handler.Label} {k : Nat} {l : Label} (h : Joined s)
    (hOutcome : Outcome s.app label app) (hTask : label.returns? = some t)
    (hServing : s.serving t = some (i, k)) (hAnswer : newAnswer s.app app = some response)
    (hi : s.conns[i]? = some ⟨some stream, permit, polling⟩)
    (hHand : stream.phaseAt k = some .permitted ∧ l = .polls (some response) ∨
      stream.phaseAt k ≠ some .permitted ∧ l = .resolves k response)
    (hStep : Server.step stream l = some stream') :
    Joined { s with
      app := app
      serving := Function.update s.serving t none
      conns := s.conns.set i ⟨some stream', permit, polling && !l.isPoll⟩ } := by
  obtain ⟨st, permit₁, polling₁, q, hServes⟩ := h.serves t i k hServing
  cases hi.symm.trans hServes.conn
  have hOk := h.streams i stream permit polling hi
  -- the answer is the one to this query
  obtain ⟨a, hRaw, hTasks, hAnswers⟩ : ∃ a : Answer, a.raw = q.raw ∧
      app.tasks = Function.update s.app.tasks t .idle ∧ app.answers = a :: s.app.answers := by
    cases hOutcome with
    | begins _ _ _ _ hSame | goesOn _ _ hSame =>
      rw [newAnswer_same hSame] at hAnswer
      cases hAnswer
    | atOnce hLabel hIdle hTasks hAnswers =>
      -- a task that begins serves nobody yet
      subst hLabel
      cases hTask
      cases (h.idle hIdle).symm.trans hServing
    | returns hLabel hTask' hAsked hTasks hAnswers =>
      cases hTask.symm.trans hTask'
      refine ⟨_, ?_, hTasks, hAnswers⟩
      exact Multiset.singleton_inj.mp (hAsked.symm.trans hServes.asked)
  rw [newAnswer_cons hAnswers] at hAnswer
  cases hAnswer
  have hSub : s.app.answers ⊆ app.answers := hAnswers ▸ List.subset_cons_self ..
  have hTold : ∃ a' ∈ app.answers, a'.raw = q.raw ∧ a'.response = a.response :=
    ⟨a, by rw [hAnswers]; exact List.mem_cons_self, hRaw, rfl⟩
  -- the others serve other queries
  have hOther : ∀ t' p, t' ≠ t → s.serving t' = some p → p ≠ (i, k) := by
    intro t' p hNe ht' hEq
    exact hNe (h.once t' t (i, k) (hEq ▸ ht') hServing)
  obtain ⟨inline, hQueries⟩ : ∃ inline,
      stream'.queries = (stream.setPhase k (.sending inline a.response)).queries := by
    rcases hHand with ⟨hPhase, rfl⟩ | ⟨-, rfl⟩
    · have hCurrent := (hOk.roles.own k _ hPhase rfl).2
      cases step_moves hStep with
      | rough hRough => cases hRough
      | ready => exact ⟨true, by rw [hCurrent]⟩
    · cases step_moves hStep with
      | rough hRough => cases hRough
      | resolves => exact ⟨false, rfl⟩
  have hPolling : (polling && !l.isPoll) = true →
      stream.phaseAt k ≠ some .permitted ∧ polling = true := by
    intro hBoth
    obtain ⟨hPolling, hNot⟩ := Bool.and_eq_true_iff.mp hBoth
    refine ⟨fun hPhase => ?_, hPolling⟩
    rcases hHand with ⟨-, rfl⟩ | ⟨hNe, -⟩
    · cases hNot
    · exact hNe hPhase
  constructor
  · intro t' j k' ht'
    rcases update_eq_some ht' with ⟨-, hNow⟩ | ⟨hNe, hOld⟩
    · cases hNow
    · obtain ⟨st, permit₁, polling₁, q', hServes'⟩ := h.serves t' j k' hOld
      have hAsked' : (app.tasks t').asked = {q'.raw} := by
        rw [hTasks, Function.update_of_ne hNe]
        exact hServes'.asked
      by_cases hSame : j = i
      · subst hSame
        cases hi.symm.trans hServes'.conn
        have hk : k' ≠ k := fun hEq => hOther t' _ hNe hOld (by rw [hEq])
        refine ⟨stream', permit, _, q', getElem?_set_same hi, ?_, hAsked', ?_⟩
        · rw [hQueries, getElem?_setPhase_ne _ _ hk]
          exact hServes'.query
        · -- the reader polls one query, and it is not the one that was answered
          refine hServes'.phase.imp_right fun hPoll => ⟨hPoll.1, ?_⟩
          have hPhase' := phaseAt_of_query hServes'.query
          rw [hPoll.1] at hPhase'
          rcases hHand with ⟨hPhase, -⟩ | ⟨-, rfl⟩
          · have hEq := (hOk.roles.own k _ hPhase rfl).2
            exact absurd ((hOk.roles.own k' _ hPhase' rfl).2.trans hEq.symm) hk
          · rw [hPoll.2]
            rfl
      · refine ⟨st, permit₁, polling₁, q', ?_, hServes'.query, hAsked', hServes'.phase⟩
        rw [List.getElem?_set_ne (Ne.symm hSame)]
        exact hServes'.conn
  · intro t₁ t₂ p h₁ h₂
    rcases update_eq_some h₁ with ⟨-, hNow⟩ | ⟨-, hOld₁⟩
    · cases hNow
    · rcases update_eq_some h₂ with ⟨-, hNow⟩ | ⟨-, hOld₂⟩
      · cases hNow
      · exact h.once t₁ t₂ p hOld₁ hOld₂
  · intro j st permit₁ polling₁ hj
    have hKeep : ∀ t' p, p ≠ (i, k) → s.serving t' = some p →
        Function.update s.serving t none t' = some p := by
      intro t' p hNe ht'
      rw [Function.update_of_ne]
      · exact ht'
      · rintro rfl
        exact hNe (Option.some.inj (ht'.symm.trans hServing))
    rcases getElem?_set_cases hj with ⟨rfl, hEq⟩ | ⟨hNe, hj⟩
    · cases hEq
      exact hOk.answered (hOk.roles.moves (step_moves hStep))
        (fun t' k' hk ht' => hKeep t' _ (fun hEq => hk (Prod.mk.inj hEq).2) ht') hSub hServes.query
        hQueries hTold hPolling
    · exact (h.streams j st permit₁ polling₁ hj).mono
        (fun t' k' ht' => hKeep t' _ (fun hEq => hNe (Prod.mk.inj hEq).1) ht') hSub

end JoinedMoves

section Runs

variable [DecidableEq RecordType] [DecidableEq DNSClass]
  {sys : Handler.System RecordType DNSClass Heap} {s u : Listener sys.rr Heap}
  {label : ListenerLabel}

open Handler

/-- A step of the listener is one of the handler, or the handler sees nothing of it. -/
theorem app_step (hStep : listenerStep sys s label = some u) :
    u.app = s.app ∨ ∃ label', Handler.step sys s.app label' = some u.app := by
  cases listenerStep_moves hStep with
  | shutdown | accept | rejected | acceptFails | returns | wrapped | wrapFails | inside | parks
  | ends => exact .inl rfl
  | atOnce _ _ hApp | begins _ _ _ hApp | app _ hApp | answers _ _ hApp => exact .inr ⟨_, hApp⟩

/-- **One step.** -/
theorem joined_step (hA : sys.env.alloc.Lawful) (hHealthy : Healthy s.app) (h : Joined s)
    (hStep : listenerStep sys s label = some u) : Joined u := by
  have hOutcome : ∀ {label : Handler.Label} {app : Handler.State sys.rr Heap},
      Handler.step sys s.app label = some app → Outcome s.app label app := fun hApp =>
    outcome_moves (hHealthy.no_faults hA) (Handler.step_moves hApp)
  cases listenerStep_moves hStep with
  | shutdown => exact h.loop s.accepting true
  | returns => exact h.loop false s.shutdown
  | rejected | acceptFails => exact h
  | accept hLoop hFree =>
    refine ⟨fun t i k ht => ?_, h.once, fun i stream permit polling hi => ?_⟩
    · obtain ⟨stream, permit, polling, q, hServes⟩ := h.serves t i k ht
      refine ⟨stream, permit, polling, q, ?_, hServes.query, hServes.asked, hServes.phase⟩
      exact (List.getElem?_append_left (List.getElem?_eq_some_iff.mp hServes.conn).1).trans
        hServes.conn
    · -- the new connection has no stream yet
      have hi' : (s.conns ++ [⟨none, true, false⟩])[i]? = some ⟨some stream, permit, polling⟩ := hi
      rcases Nat.lt_or_ge i s.conns.length with hLt | hGe
      · rw [List.getElem?_append_left hLt] at hi'
        exact h.streams i stream permit polling hi'
      · rw [List.getElem?_append_right hGe] at hi'
        cases List.mem_singleton.mp (List.mem_of_getElem? hi')
  | wrapped hi =>
    refine h.handshake hi s.available _ fun stream permit polling hEq => ?_
    cases hEq
    exact streamOk_start ..
  | wrapFails hi =>
    exact h.handshake hi (s.available + 1) _ fun stream permit polling hEq => (by cases hEq)
  | inside hi hLabel hInside =>
    refine h.set hi s.available (fun k q hq hBusy => ?_)
      ((h.streams _ _ _ _ hi).inside hLabel hInside)
    obtain ⟨q', hq', hCarried⟩ := carried_step hInside hLabel hq
    refine ⟨q', hq', hCarried.raw, ?_⟩
    rw [hCarried.held (hBusy.symm.imp And.left fun hEq => hEq)]
    exact hBusy
  | atOnce hi hQuery hApp hAnswer hPoll => exact h.atOnce (hOutcome hApp) hi hQuery hAnswer hPoll
  | begins hi hReader hQuery hApp hAnswer => exact h.begins (hOutcome hApp) hi hQuery hAnswer
  | parks hi hPoll => exact h.parks hi hPoll
  | app hKept hApp hAnswer => exact h.handler (hOutcome hApp) hKept hAnswer
  | answers hTask hServing hApp hAnswer hi hHand hInside =>
    exact h.answers (hOutcome hApp) hTask hServing hAnswer hi hHand hInside
  | ends hi hReturned =>
    exact h.set hi (s.available + 1) (fun k q hq hBusy => ⟨q, hq, rfl, hBusy⟩) (h.streams _ _ _ _ hi)

/-- **Whole runs.** The handler runs as the handler does, and its tasks and the connections'
queries belong together. -/
theorem joined_run (hA : sys.env.alloc.Lawful) {app : Handler.State sys.rr Heap}
    (hHealthy : Healthy app) {labels : List ListenerLabel}
    (hRun : run (listenerStep sys) (.start app) labels = some s) :
    Joined s ∧ Healthy s.app ∧ ∃ labels', run (Handler.step sys) app labels' = some s.app := by
  have hBoth : Joined s ∧ Healthy s.app := by
    refine run_invariant (I := fun s : Listener sys.rr Heap => Joined s ∧ Healthy s.app) ?_
      ⟨joined_start, hHealthy⟩ hRun
    rintro s label u ⟨hJoined, hHealthy⟩ hStep
    refine ⟨joined_step hA hHealthy hJoined hStep, ?_⟩
    rcases app_step hStep with hSame | ⟨label', hApp⟩
    · exact hSame ▸ hHealthy
    · exact healthy_step hA hHealthy hApp
  exact ⟨hBoth.1, hBoth.2, run_simulation (fun _ _ _ => app_step) hRun⟩

end Runs

end DnsRs.Server
