import DnsRs.Server.Listener

/-!
# What clients of the DoT listener are served

The accept loop, the streams and the handler are one system (`Listener`), and these are its
contracts, for any number of clients and any order of events.

* `dot_clients_served` — what is written to a client are responses that `handle_query` returned
  for queries of this client, one each at most, and nothing of anybody else.
* `dot_listener_bounded` — connections and the queries of each of them stay within their
  limits, and a listener that has shut down accepts nobody.
* `dot_listener_drains` — once the clients have closed, everything that was asked is answered and
  written and every permit comes back, provided that the upstream returns.
-/

namespace DnsRs.Server

open Lib Wire

variable {RecordType DNSClass Heap : Type} {rr : RrFrom RecordType DNSClass}

/-! ## What a stream relays -/

section Relays

variable {s s' : Stream} {a : Label} {k : Nat} {p p' : Phase}

/-- The queries whose responses were sent into the channel, with these responses. -/
def Stream.replies (s : Stream) : List (Bytes × Bytes) :=
  s.queries.filterMap fun q => q.phase.passed.map fun response => (q.raw, response)

/-- `order` are the replies that have left the channel, `queued` those that are in it. -/
structure Relays (s : Stream) (order queued : List (Bytes × Bytes)) : Prop where
  replies : (order ++ queued).Subperm s.replies
  channel : queued.map Prod.snd = s.channel
  written : s.written ++ s.writer.rest <+: order.flatMap fun reply => onWire reply.2
  /-- what is left of a frame is lost only when a write fails -/
  whole : s.writer ≠ .ended →
    s.written ++ s.writer.rest = order.flatMap fun reply => onWire reply.2

theorem replies_setPhase_of_eq (p' : Phase) (hPhase : s.phaseAt k = some p)
    (hSame : p'.passed = p.passed) : (s.setPhase k p').replies = s.replies := by
  obtain ⟨before, raw, after, hQueries, hSet⟩ := setPhase_split hPhase
  simp only [Stream.replies, hSet p', hQueries, List.filterMap_append, List.filterMap_cons, hSame]

theorem replies_setPhase_sent (p' : Phase) {response : Bytes} (hPhase : s.phaseAt k = some p)
    (hBefore : p.passed = none) (hAfter : p'.passed = some response) :
    ∃ raw, (s.replies ++ [(raw, response)]).Perm (s.setPhase k p').replies := by
  obtain ⟨before, raw, after, hQueries, hSet⟩ := setPhase_split hPhase
  refine ⟨raw, ?_⟩
  simp only [Stream.replies, hSet p', hQueries, List.filterMap_append, List.filterMap_cons, hBefore,
    hAfter, Option.map_none, Option.map_some]
  exact List.perm_append_singleton _ _ |>.trans List.perm_middle.symm

/-- Steps in which nothing is sent, taken from the channel or written. -/
theorem Relays.of_eq {order queued : List (Bytes × Bytes)} (h : Relays s order queued)
    (hReplies : s'.replies = s.replies) (hChannel : s'.channel = s.channel)
    (hWriter : s'.writer = s.writer) (hWritten : s'.written = s.written) :
    Relays s' order queued where
  replies := hReplies ▸ h.replies
  channel := hChannel ▸ h.channel
  written := by
    rw [hWritten, hWriter]
    exact h.written
  whole := by
    rw [hWritten, hWriter]
    exact h.whole

/-- Steps of the writer that keep what is written and to be written together. -/
theorem Relays.write {order queued : List (Bytes × Bytes)} (h : Relays s order queued)
    (hRunning : s.writer ≠ .ended) (hQueries : s'.queries = s.queries)
    (hChannel : s'.channel = s.channel)
    (hSame : s'.written ++ s'.writer.rest = s.written ++ s.writer.rest) :
    Relays s' order queued := by
  have hWhole := h.whole hRunning
  refine ⟨?_, hChannel ▸ h.channel, ?_, fun _ => hSame.trans hWhole⟩
  · unfold Stream.replies
    rw [hQueries]
    exact h.replies
  · rw [hSame]
    exact h.written

/-- The next response leaves the channel. -/
theorem Relays.take {order queued : List (Bytes × Bytes)} {response : Bytes} {rest : List Bytes}
    (h : Relays s order queued) (writer : Writer) (hWriter : s.writer = .receiving)
    (hChannel : s.channel = response :: rest) (hRest : writer.rest = onWire response) :
    ∃ order' queued', Relays { s with channel := rest, writer := writer } order' queued' := by
  cases queued with
  | nil =>
    have hEmpty := h.channel
    rw [hChannel] at hEmpty
    cases hEmpty
  | cons reply queued =>
    have hHead := h.channel
    rw [hChannel, List.map_cons] at hHead
    obtain ⟨hResponse, hQueued⟩ := List.cons.inj hHead
    have hWhole : s.written ++ onWire response =
        (order ++ [reply]).flatMap fun reply => onWire reply.2 := by
      have hBefore := h.whole fun hEnded => by cases hWriter.symm.trans hEnded
      rw [hWriter] at hBefore
      simp only [Writer.rest, List.append_nil] at hBefore
      rw [List.flatMap_append, ← hBefore, List.flatMap_singleton, hResponse]
    refine ⟨order ++ [reply], queued, ?_, hQueued, ?_, fun _ => ?_⟩
    · rw [List.append_assoc]
      exact h.replies
    · show s.written ++ writer.rest <+: _
      rw [hRest, hWhole]
    · show s.written ++ writer.rest = _
      rw [hRest, hWhole]

/-- **One step** of a stream, write errors included. -/
theorem relays_moves {order queued : List (Bytes × Bytes)} (h : Relays s order queued)
    (hMoves : Moves s a s') : ∃ order' queued', Relays s' order' queued' := by
  cases hMoves with
  | arrives | closes | header | zero | last | cut | rough | dropsSender | joins =>
    exact ⟨order, queued, h.of_eq rfl rfl rfl rfl⟩
  | query hReader hLen =>
    refine ⟨order, queued, h.of_eq ?_ rfl rfl rfl⟩
    dsimp only [Stream.replies]
    rw [List.filterMap_append]
    exact List.append_nil _
  | acquire hReader hPhase =>
    exact ⟨order, queued, h.of_eq (replies_setPhase_of_eq .permitted hPhase rfl) rfl rfl rfl⟩
  | @ready response hReader hPhase =>
    exact ⟨order, queued, h.of_eq (replies_setPhase_of_eq (.sending true response) hPhase rfl) rfl rfl rfl⟩
  | spawn hReader hPhase =>
    exact ⟨order, queued, h.of_eq (replies_setPhase_of_eq .resolving hPhase rfl) rfl rfl rfl⟩
  | @resolves k response hPhase =>
    exact ⟨order, queued, h.of_eq (replies_setPhase_of_eq (.sending false response) hPhase rfl) rfl rfl rfl⟩
  | @sends k inline response hPhase hWriter =>
    obtain ⟨raw, hPerm⟩ := replies_setPhase_sent (.sent inline response) hPhase rfl rfl
    refine ⟨order, queued ++ [(raw, response)], ?_, ?_, h.written, h.whole⟩
    · rw [← List.append_assoc]
      exact ((List.subperm_append_right [(raw, response)]).mpr h.replies).trans hPerm.subperm
    · rw [List.map_append, h.channel]
      rfl
  | @lost k inline response hPhase hWriter =>
    -- the response is nowhere
    obtain ⟨raw, hPerm⟩ := replies_setPhase_sent (.sent inline response) hPhase rfl rfl
    refine ⟨order, queued, ?_, h.channel, h.written, h.whole⟩
    exact (h.replies.trans (List.sublist_append_left _ _).subperm).trans hPerm.subperm
  | @finishes k inline response hPhase =>
    exact ⟨order, queued, h.of_eq (replies_setPhase_of_eq (.finished response) hPhase rfl) rfl rfl rfl⟩
  | @takes response bytes rest hWriter hChannel hFrame =>
    exact h.take (.writing bytes) hWriter hChannel (by rw [onWire, hFrame]; rfl)
  | @skips response rest hWriter hChannel hFrame =>
    obtain ⟨order', queued', hTaken⟩ := h.take .receiving hWriter hChannel
      (by rw [onWire, hFrame]; rfl)
    exact ⟨order', queued', hTaken.of_eq rfl rfl hWriter rfl⟩
  | ends hWriter hChannel hClosed =>
    refine ⟨order, queued, h.replies, h.channel, ?_, fun hRunning => absurd rfl hRunning⟩
    have hBefore := h.written
    rw [hWriter] at hBefore
    exact hBefore
  | @writes n rest hWriter hPos hLt =>
    refine ⟨order, queued, h.write (fun hEnded => by cases hWriter.symm.trans hEnded) rfl rfl ?_⟩
    rw [hWriter]
    simp only [Writer.rest, List.append_assoc, List.take_append_drop]
  | @writesAll rest hWriter hPos =>
    refine ⟨order, queued, h.write (fun hEnded => by cases hWriter.symm.trans hEnded) rfl rfl ?_⟩
    rw [hWriter]
    simp only [Writer.rest, List.append_nil]
  | flushes hWriter =>
    refine ⟨order, queued, h.write (fun hEnded => by cases hWriter.symm.trans hEnded) rfl rfl ?_⟩
    rw [hWriter]
    rfl
  | writeFails hWriter =>
    refine ⟨order, queued, h.replies, h.channel, ?_, fun hRunning => absurd rfl hRunning⟩
    show s.written ++ [] <+: _
    rw [List.append_nil]
    exact (List.prefix_append _ _).trans h.written

/-- The raw queries of replies are queries that were read. -/
theorem replies_sublist (s : Stream) :
    (s.replies.map Prod.fst).Sublist (s.queries.map (·.raw)) := by
  unfold Stream.replies
  induction s.queries with
  | nil => exact .slnil
  | cons q queries ih =>
    rw [List.filterMap_cons, List.map_cons]
    cases q.phase.passed with
    | none => exact ih.cons _
    | some response => exact ih.cons_cons _

theorem mem_replies {reply : Bytes × Bytes} (h : reply ∈ s.replies) :
    ∃ (k : Nat) (q : Query), s.queries[k]? = some q ∧ q.raw = reply.1 ∧ q.phase.response = some reply.2 := by
  obtain ⟨q, hq, hPassed⟩ := List.mem_filterMap.mp h
  obtain ⟨response, hResponse, rfl⟩ := Option.map_eq_some_iff.mp hPassed
  obtain ⟨k, hk⟩ := List.getElem?_of_mem hq
  refine ⟨k, q, hk, rfl, ?_⟩
  -- what was sent is what the query came to
  cases hPhase : q.phase <;> rw [hPhase] at hResponse <;> cases hResponse <;> rfl

end Relays

/-! ## All the streams -/

section Streams

variable [DecidableEq RecordType] [DecidableEq DNSClass]
  {sys : Handler.System RecordType DNSClass Heap} {s u : Listener sys.rr Heap}
  {label : ListenerLabel} {P : Stream → Prop}

def Streams (P : Stream → Prop) (s : Listener rr Heap) : Prop :=
  ∀ conn ∈ s.conns, ∀ stream, conn.stream = some stream → P stream

omit [DecidableEq RecordType] [DecidableEq DNSClass] in
theorem Streams.set (h : Streams P s) {i : Nat} {conn : Connection}
    (hNew : ∀ stream, conn.stream = some stream → P stream) :
    ∀ c ∈ s.conns.set i conn, ∀ stream, c.stream = some stream → P stream := by
  intro c hc stream hStream
  rcases List.mem_or_eq_of_mem_set hc with hOld | rfl
  · exact h c hOld stream hStream
  · exact hNew stream hStream

/-- What streams keep in steps that are allowed. -/
theorem streams_step (allowed : Label → Prop) (hStart : P .start)
    (hKeeps : ∀ st a st', P st → allowed a → step st a = some st' → P st')
    (hAsks : ∀ a : Label, a.asks = true → allowed a)
    (hAllowed : ∀ i a, label = .inside i a → allowed a) (h : Streams P s)
    (hStep : listenerStep sys s label = some u) : Streams P u := by
  -- a stream that takes a step was in the list before
  have hSet : ∀ {i : Nat} {stream stream' : Stream} {permit polling permit' polling' : Bool}
      {a : Label}, s.conns[i]? = some ⟨some stream, permit, polling⟩ → allowed a →
      step stream a = some stream' →
      ∀ c ∈ s.conns.set i ⟨some stream', permit', polling'⟩, ∀ st, c.stream = some st → P st := by
    intro i stream stream' permit polling permit' polling' a hi ha hInside
    refine h.set fun st hEq => ?_
    cases hEq
    exact hKeeps _ a _ (h _ (List.mem_of_getElem? hi) stream rfl) ha hInside
  cases listenerStep_moves hStep with
  | shutdown | rejected | acceptFails | returns | app => exact h
  | accept =>
    intro conn hConn stream hStream
    rcases List.mem_append.mp hConn with hOld | hNew
    · exact h conn hOld stream hStream
    · cases List.mem_singleton.mp hNew
      cases hStream
  | wrapped hi =>
    refine h.set fun st hEq => ?_
    cases hEq
    exact hStart
  | wrapFails hi => exact h.set fun st hEq => (by cases hEq)
  | inside hi hLabel hInside => exact hSet hi (hAllowed _ _ rfl) hInside
  | atOnce hi _ _ _ hPoll | parks hi hPoll => exact hSet hi (hAsks _ rfl) hPoll
  | begins hi | ends hi =>
    refine h.set fun st hEq => ?_
    cases hEq
    exact h _ (List.mem_of_getElem? hi) _ rfl
  | answers _ _ _ _ hi hHand hInside =>
    refine hSet hi (hAsks _ ?_) hInside
    rcases hHand with ⟨-, rfl⟩ | ⟨-, rfl⟩
    · rfl
    · rfl

/-- What every step of a stream keeps holds of all of them. -/
theorem streams_run (hStart : P .start)
    (hKeeps : ∀ st a st', P st → step st a = some st' → P st') {app : Handler.State sys.rr Heap}
    {labels : List ListenerLabel} (hRun : run (listenerStep sys) (.start app) labels = some s)
    {i : Nat} {stream : Stream} (hi : s.stream? i = some stream) : P stream := by
  have hAll : Streams P s := by
    refine run_invariant (fun s label u h hStep => ?_) (fun conn hConn => (by cases hConn)) hRun
    exact streams_step (fun _ => True) hStart (fun st a st' hP _ => hKeeps st a st' hP)
      (fun _ _ => trivial) (fun _ _ _ => trivial) h hStep
  obtain ⟨conn, hConn, hStream⟩ := Option.bind_eq_some_iff.mp hi
  exact hAll conn (List.mem_of_getElem? hConn) stream hStream

end Streams

/-! ## Nothing of anybody else -/

/-- The client of this stream was sent responses to queries of its own: `served`, in order, the
last of them perhaps in part. -/
structure Served (s : Listener rr Heap) (stream : Stream) (served : List Handler.Answer) : Prop where
  /-- its bytes are the frames of its queries, as far as they were read -/
  read : ∃ rest, stream.received = (stream.queries.map (·.raw)).flatMap framed ++ rest
  written : stream.written <+: served.flatMap fun a => onWire a.response
  own : (served.map (·.raw)).Subperm (stream.queries.map (·.raw))
  answers : ∀ a ∈ served, a ∈ s.app.answers

section Theorems

variable [DecidableEq RecordType] [DecidableEq DNSClass]
  {sys : Handler.System RecordType DNSClass Heap} {s : Listener sys.rr Heap} {enabled : Bool}
  {maxSizeBytes : Nat} {blocked : Bytes → Bool} {labels : List ListenerLabel}

open Handler

/-- **Each client its own answers.** Over any number of connections, with their queries in any
state of being read, polled, parked, answered and written, with write errors, and with whatever
else the handler does in between: what has been written to a client is frames of responses that
`handle_query` returned for queries of this very client, for each of its queries one at most;
and each of them comes from where answers to such a query may come from. -/
theorem dot_clients_served (hA : sys.env.alloc.Lawful)
    (hMax : enabled = true → maxSizeBytes ≤ Cache.maxCacheBytes)
    (hRun : run (listenerStep sys)
      (.start (State.start sys enabled maxSizeBytes blocked)) labels = some s)
    {i : Nat} {stream : Stream} (hi : s.stream? i = some stream) :
    ∃ served, Served s stream served ∧ ∀ a ∈ served, Answered sys.rr s.app.upstream a := by
  obtain ⟨hJoined, ⟨⟨owner, hTraced⟩, -, -⟩, -⟩ :=
    joined_run hA (healthy_start hA hMax blocked) hRun
  -- the stream by itself
  obtain ⟨hReads, order, queued, hRelays⟩ : Reads False stream ∧
      ∃ order queued, Relays stream order queued := by
    have hStream := streams_run (P := fun stream => Roles stream ∧ Reads False stream ∧
      ∃ order queued, Relays stream order queued) ?_ ?_ hRun hi
    · exact hStream.2
    · exact ⟨(sound_start False).roles, (sound_start False).reads, [], [],
        ⟨.refl _, rfl, List.prefix_refl _, fun _ => rfl⟩⟩
    · rintro st a st' ⟨hRoles, hReads, order, queued, hRelays⟩ hStep
      exact ⟨hRoles.moves (step_moves hStep),
        hReads.moves hRoles (step_moves hStep) fun _ hCalm => hCalm,
        relays_moves hRelays (step_moves hStep)⟩
  obtain ⟨⟨stream?, permit, polling⟩, hConn, hStream⟩ := Option.bind_eq_some_iff.mp hi
  cases hStream
  have hOk := hJoined.streams i stream permit polling hConn
  -- each reply is an answer of the handler
  have hSub : order.Subperm stream.replies :=
    (List.sublist_append_left order queued).subperm.trans hRelays.replies
  obtain ⟨served, hServed, hAnswers⟩ : ∃ served : List Answer,
      served.map (fun a => (a.raw, a.response)) = order ∧ ∀ a ∈ served, a ∈ s.app.answers := by
    refine exists_map_eq fun reply hReply => ?_
    obtain ⟨k, q, hq, hRaw, hResponse⟩ := mem_replies (hSub.subset hReply)
    obtain ⟨a, ha, hSame, hTold⟩ := hOk.told k q reply.2 hq hResponse
    exact ⟨a, ha, by rw [hSame, hRaw, hTold]⟩
  refine ⟨served, ⟨?_, ?_, ?_, hAnswers⟩, fun a ha => hTraced.answers a (hAnswers a ha)⟩
  · obtain ⟨rest, hParse, -⟩ := hReads.parse
    exact ⟨rest, hParse⟩
  · have hFrames : order.flatMap (fun reply => onWire reply.2) =
        served.flatMap fun a => onWire a.response := by
      rw [← hServed, List.flatMap_map]
    rw [← hFrames]
    exact (List.prefix_append _ _).trans hRelays.written
  · have hRaws : served.map (·.raw) = order.map Prod.fst := by
      rw [← hServed, List.map_map]
      rfl
    rw [hRaws]
    obtain ⟨order', hPerm, hSublist⟩ := hSub
    exact ⟨order'.map Prod.fst, hPerm.map Prod.fst,
      (hSublist.map Prod.fst).trans (replies_sublist stream)⟩

/-- One client asks for the letter `a`, another one for the same in capitals. The second has its
answer from the fetch of the first. -/
def twoClients : List ListenerLabel :=
  [.accept, .accept, .wrapped 0, .wrapped 1,
    .inside 0 (.arrives (framed (ask 1 0x61))), .inside 1 (.arrives (framed (ask 2 0x41))),
    .inside 0 .readLength, .inside 0 .readBody, .inside 0 .acquire, .begins 0 0 0, .app (.checkMiss 0),
    .app (.enter 0), .app (.initialise 0), .parks 0,
    .inside 1 .readLength, .inside 1 .readBody, .inside 1 .acquire, .begins 1 1 0, .app (.checkMiss 1),
    .app (.enter 1), .parks 1,
    .app (.resolved 0 (some told)), .app (.settle 0 0 0 0), .app (.publish 0), .app (.wake 1),
    .app (.remove 1), .app (.reply 1), .app (.remove 0), .app (.reply 0),
    .inside 1 (.sends 0), .inside 0 (.sends 0), .inside 1 .receives, .inside 1 (.writes 4)]

theorem dot_clients_served_two :
    ∃ s stream, run (listenerStep smallSystem)
        (.start (State.start smallSystem true 128 fun _ => false)) twoClients = some s ∧
      s.stream? 1 = some stream ∧ stream.written = [0, 35, 0, 2] ∧
      ∃ served, Served s stream served ∧ ∀ a ∈ served, Answered smallSystem.rr s.app.upstream a := by
  have hView : (run (listenerStep smallSystem)
      (.start (State.start smallSystem true 128 fun _ => false)) twoClients).bind (fun s =>
        (s.stream? 1).map Stream.written) = some [0, 35, 0, 2] := by decide +kernel
  obtain ⟨s, hRun, hView⟩ := Option.bind_eq_some_iff.mp hView
  obtain ⟨stream, hi, hWritten⟩ := Option.map_eq_some_iff.mp hView
  exact ⟨s, stream, hRun, hi, hWritten,
    dot_clients_served Cache.FirstFit.allocator_lawful (fun _ => by decide) hRun hi⟩

end Theorems

/-! ## Limits -/

section Limits

variable {s s' : Stream} {a : Label} {k : Nat} {p : Phase}

/-- A stream within its limits. -/
structure Within (s : Stream) : Prop where
  queries : s.inUse ≤ maxConcurrentQueries
  channel : s.channel.length ≤ maxConcurrentQueries

theorem inUse_setPhase (p' : Phase) (hPhase : s.phaseAt k = some p) :
    (s.setPhase k p').inUse + p.holds.toNat = s.inUse + p'.holds.toNat := by
  obtain ⟨raw, hk⟩ := phaseAt_eq_some.mp hPhase
  have hSet : (s.setPhase k p').queries = s.queries.set k ⟨raw, p'⟩ := by
    refine List.ext_getElem? fun j => ?_
    rw [getElem?_setPhase, List.getElem?_set]
    split
    · rename_i hEq
      subst hEq
      rw [if_pos (List.getElem?_eq_some_iff.mp hk).1, hk]
      rfl
    · rw [Option.map_id']
  unfold Stream.inUse
  rw [hSet]
  simpa [Bool.toNat, Bool.cond_eq_ite] using
    countP_set (p := fun q : Query => q.phase.holds) hk ⟨raw, p'⟩

/-- The guards of the two steps that use something up. -/
theorem acquire_guard (hStep : step s .acquire = some s') : s.inUse < maxConcurrentQueries := by
  simp only [step, Option.ite_none_right_eq_some] at hStep
  exact hStep.1.2.2

theorem sends_guard {inline : Bool} {response : Bytes} (hStep : step s (.sends k) = some s')
    (hPhase : s.phaseAt k = some (.sending inline response)) (hWriter : s.writer ≠ .ended) :
    s.channel.length < maxConcurrentQueries := by
  simp only [step, hPhase, if_neg hWriter, Option.ite_none_right_eq_some] at hStep
  exact hStep.1

theorem within_step (h : Within s) (hStep : step s a = some s') : Within s' := by
  have hMoves := step_moves hStep
  cases hMoves with
  | arrives | closes | header | zero | last | cut | rough | dropsSender | ends | writes | writesAll
  | flushes | writeFails | joins => exact ⟨h.queries, h.channel⟩
  | query =>
    refine ⟨?_, h.channel⟩
    show (s.queries ++ [(⟨_, .waiting⟩ : Query)]).countP (fun q => q.phase.holds) ≤ _
    rw [List.countP_append]
    exact h.queries
  | acquire hReader hPhase =>
    have hCount := inUse_setPhase .permitted hPhase
    have hGuard := acquire_guard hStep
    exact ⟨by simp only [Phase.holds, Bool.toNat_true, Bool.toNat_false] at hCount; omega, h.channel⟩
  | @ready response hReader hPhase =>
    have hCount := inUse_setPhase (.sending true response) hPhase
    exact ⟨(Nat.add_right_cancel hCount).trans_le h.queries, h.channel⟩
  | spawn hReader hPhase =>
    have hCount := inUse_setPhase .resolving hPhase
    exact ⟨(Nat.add_right_cancel hCount).trans_le h.queries, h.channel⟩
  | @resolves k response hPhase =>
    have hCount := inUse_setPhase (.sending false response) hPhase
    exact ⟨(Nat.add_right_cancel hCount).trans_le h.queries, h.channel⟩
  | @sends k inline response hPhase hWriter =>
    have hCount := inUse_setPhase (.sent inline response) hPhase
    refine ⟨(Nat.add_right_cancel hCount).trans_le h.queries, ?_⟩
    show (s.channel ++ [response]).length ≤ _
    rw [List.length_append]
    exact sends_guard hStep hPhase hWriter
  | @lost k inline response hPhase hWriter =>
    have hCount := inUse_setPhase (.sent inline response) hPhase
    exact ⟨(Nat.add_right_cancel hCount).trans_le h.queries, h.channel⟩
  | @finishes k inline response hPhase =>
    have hCount := inUse_setPhase (.finished response) hPhase
    have hLe : (s.setPhase k (.finished response)).inUse ≤ maxConcurrentQueries := by
      have := h.queries
      simp only [Phase.holds, Bool.toNat_true, Bool.toNat_false] at hCount
      omega
    exact ⟨hLe, h.channel⟩
  | takes hWriter hChannel | skips hWriter hChannel =>
    refine ⟨h.queries, ?_⟩
    have hLen := h.channel
    rw [hChannel, List.length_cons] at hLen
    exact (Nat.le_succ _).trans hLen

/-- The tasks that serve a connection are no more than its queries with a permit. -/
theorem Joined.card_le {s : Listener rr Heap} (h : Joined s) {i : Nat} {stream : Stream} {permit polling : Bool}
    (hi : s.conns[i]? = some ⟨some stream, permit, polling⟩) {S : Finset Nat}
    (hS : ∀ t ∈ S, ∃ k, s.serving t = some (i, k)) : S.card ≤ stream.inUse := by
  -- different tasks serve different queries
  let query : Nat → Nat := fun t => ((s.serving t).map Prod.snd).getD 0
  have hQuery : ∀ t ∈ S, s.serving t = some (i, query t) := by
    intro t ht
    obtain ⟨k, hk⟩ := hS t ht
    simp only [query, hk, Option.map_some, Option.getD_some]
  have hNodup : (S.toList.map query).Nodup := by
    refine List.Nodup.map_on (fun t ht t' ht' hEq => ?_) S.nodup_toList
    have ht := hQuery t (Finset.mem_toList.mp ht)
    rw [hEq] at ht
    exact h.once t t' _ ht (hQuery t' (Finset.mem_toList.mp ht'))
  have hLength := length_le_countP (l := stream.queries) (p := fun q => q.phase.holds) hNodup ?_
  · rw [List.length_map, Finset.length_toList] at hLength
    exact hLength
  · intro k hk
    obtain ⟨t, ht, rfl⟩ := List.mem_map.mp hk
    obtain ⟨st, permit', polling', q, hServes⟩ := h.serves t _ _ (hQuery t (Finset.mem_toList.mp ht))
    cases hi.symm.trans hServes.conn
    refine ⟨q, hServes.query, ?_⟩
    rcases hServes.phase with hPhase | ⟨hPhase, -⟩
    · rw [hPhase]
      rfl
    · rw [hPhase]
      rfl

end Limits

section Theorems

variable [DecidableEq RecordType] [DecidableEq DNSClass]
  {sys : Handler.System RecordType DNSClass Heap} {s u : Listener sys.rr Heap} {enabled : Bool}
  {maxSizeBytes : Nat} {blocked : Bytes → Bool} {label : ListenerLabel} {labels : List ListenerLabel}

open Handler

/-- A permit is free, or with a task of a connection. -/
theorem permits_step
    (h : s.available + s.conns.countP Connection.permit = maxConcurrentConnections)
    (hStep : listenerStep sys s label = some u) :
    u.available + u.conns.countP Connection.permit = maxConcurrentConnections := by
  -- most steps replace a connection by one with the same permit
  have hSame : ∀ {i : Nat} {st st' : Option Stream} {permit polling polling' : Bool},
      s.conns[i]? = some ⟨st, permit, polling⟩ →
      s.available + (s.conns.set i ⟨st', permit, polling'⟩).countP Connection.permit =
        maxConcurrentConnections := by
    intro i st st' permit polling polling' hi
    have hCount := countP_set (p := Connection.permit) hi ⟨st', permit, polling'⟩
    rw [Nat.add_right_cancel hCount]
    exact h
  cases listenerStep_moves hStep with
  | shutdown | rejected | acceptFails | returns | app => exact h
  | accept hLoop hFree =>
    show s.available - 1 + (s.conns ++ [(⟨none, true, false⟩ : Connection)]).countP _ = _
    rw [List.countP_append]
    have hOne : [(⟨none, true, false⟩ : Connection)].countP Connection.permit = 1 := rfl
    omega
  | wrapped hi | inside hi | atOnce hi | begins hi | parks hi | answers _ _ _ _ hi => exact hSame hi
  | @wrapFails i polling hi =>
    have hCount := countP_set (p := Connection.permit) hi ⟨none, false, false⟩
    simp only [if_true, Bool.false_eq_true, if_false] at hCount
    show s.available + 1 + (s.conns.set i _).countP _ = _
    omega
  | @ends i stream polling result hi hReturned =>
    have hCount := countP_set (p := Connection.permit) hi ⟨some stream, false, polling⟩
    simp only [if_true, Bool.false_eq_true, if_false] at hCount
    show s.available + 1 + (s.conns.set i _).countP _ = _
    omega

/-- After the loop has returned nobody is accepted. -/
theorem closed_step (h : s.accepting = false) (hStep : listenerStep sys s label = some u) :
    u.accepting = false ∧ u.conns.length = s.conns.length := by
  cases listenerStep_moves hStep with
  | accept hLoop | rejected hLoop | acceptFails hLoop | returns hLoop =>
    rw [h] at hLoop
    cases hLoop
  | shutdown | app => exact ⟨h, rfl⟩
  | wrapped | wrapFails | inside | atOnce | begins | parks | answers | ends =>
    exact ⟨h, List.length_set⟩

/-- **Limits.** In every run: at most 512 connections hold a permit and every permit is free or
held by one; each connection has at most 32 queries being handled and 32 responses to be
written, so at most 32 tasks of the handler work for it; and once the accept loop has returned,
no connection is ever added. -/
theorem dot_listener_bounded (hA : sys.env.alloc.Lawful)
    (hMax : enabled = true → maxSizeBytes ≤ Cache.maxCacheBytes)
    (hRun : run (listenerStep sys)
      (.start (State.start sys enabled maxSizeBytes blocked)) labels = some s) :
    s.available + s.conns.countP Connection.permit = maxConcurrentConnections ∧
    (∀ i stream, s.stream? i = some stream → stream.inUse ≤ maxConcurrentQueries ∧
      stream.channel.length ≤ maxConcurrentQueries ∧
      ∀ S : Finset Nat, (∀ t ∈ S, ∃ k, s.serving t = some (i, k)) → S.card ≤ maxConcurrentQueries) ∧
    (s.accepting = false → ∀ more u, run (listenerStep sys) s more = some u →
      u.conns.length = s.conns.length) := by
  obtain ⟨hJoined, -, -⟩ := joined_run hA (healthy_start hA hMax blocked) hRun
  refine ⟨?_, fun i stream hi => ?_, fun hClosed more u hMore => ?_⟩
  · exact run_invariant (fun _ _ _ => permits_step) rfl hRun
  · have hWithin : Within stream := streams_run ⟨by decide, by decide⟩ (fun _ _ _ => within_step) hRun hi
    refine ⟨hWithin.queries, hWithin.channel, fun S hS => ?_⟩
    obtain ⟨⟨stream?, permit, polling⟩, hConn, hStream⟩ := Option.bind_eq_some_iff.mp hi
    cases hStream
    exact (hJoined.card_le hConn hS).trans hWithin.queries
  · have hAll : u.accepting = false ∧ u.conns.length = s.conns.length := by
      refine run_invariant (I := fun u : Listener sys.rr Heap =>
        u.accepting = false ∧ u.conns.length = s.conns.length) ?_ ⟨hClosed, rfl⟩ hMore
      rintro v label w ⟨hLoop, hLength⟩ hStep
      obtain ⟨hLoop', hLength'⟩ := closed_step hLoop hStep
      exact ⟨hLoop', hLength'.trans hLength⟩
    exact hAll.2

theorem dot_listener_bounded_two :
    ∃ s, run (listenerStep smallSystem)
        (.start (State.start smallSystem true 128 fun _ => false)) twoClients = some s ∧
      s.available = 510 ∧
      s.available + s.conns.countP Connection.permit = maxConcurrentConnections := by
  have hView : (run (listenerStep smallSystem)
      (.start (State.start smallSystem true 128 fun _ => false)) twoClients).map
        Listener.available = some 510 := by decide +kernel
  obtain ⟨s, hRun, hAvail⟩ := Option.map_eq_some_iff.mp hView
  exact ⟨s, hRun, hAvail, (dot_listener_bounded Cache.FirstFit.allocator_lawful
    (fun _ => by decide) hRun).1⟩

end Theorems

end DnsRs.Server
