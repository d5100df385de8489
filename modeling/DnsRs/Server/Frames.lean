import DnsRs.Server.Stream

/-!
# One frame for each query

The writer ends only when no clone of the sender is left, a query drops its clone
after its response is in the channel, and `handle_stream` returns after the
writer. So at return every response has passed through the channel and was
written, whatever the order of events.

* `Roles` — only the query the reader is busy with is handled in its task.
* `Closing` — when the writer has ended, nobody is left to send.
* `Ordered` — what is written, with what is being written, is the frames of the
  responses that left the channel.
* `Reads` — what was read is a sequence of frames.
* `Stream.work` — every step but an arrival lowers it, and until the return some
  step is enabled.
-/

namespace DnsRs.Server

open Lib Wire

variable {s s' : Stream} {a : Label} {k : Nat} {p p' : Phase}

/-! ## Phases -/

theorem phaseAt_eq_some : s.phaseAt k = some p ↔ ∃ raw, s.queries[k]? = some ⟨raw, p⟩ := by
  rw [Stream.phaseAt, Option.map_eq_some_iff]
  constructor
  · rintro ⟨⟨raw, phase⟩, hQuery, rfl⟩
    exact ⟨raw, hQuery⟩
  · rintro ⟨raw, hQuery⟩
    exact ⟨_, hQuery, rfl⟩

theorem phaseAt_setPhase (s : Stream) (k j : Nat) (p : Phase) :
    (s.setPhase k p).phaseAt j = if j = k then (s.phaseAt k).map fun _ => p else s.phaseAt j := by
  simp only [Stream.phaseAt, Stream.setPhase, List.getElem?_modify]
  by_cases hEq : j = k
  · subst hEq
    simp [Function.comp_def]
  · simp [hEq, Ne.symm hEq]

@[simp] theorem current_setPhase (s : Stream) (k : Nat) (p : Phase) :
    (s.setPhase k p).current = s.current := by
  simp [Stream.current, Stream.setPhase]

/-- The queries around the one whose phase changes. -/
theorem setPhase_split (hPhase : s.phaseAt k = some p) :
    ∃ before raw after, s.queries = before ++ ⟨raw, p⟩ :: after ∧
      ∀ p', (s.setPhase k p').queries = before ++ ⟨raw, p'⟩ :: after := by
  obtain ⟨raw, hQuery⟩ := phaseAt_eq_some.mp hPhase
  obtain ⟨hLt, hAt⟩ := List.getElem?_eq_some_iff.mp hQuery
  refine ⟨s.queries.take k, raw, s.queries.drop (k + 1), ?_, ?_⟩
  · rw [← hAt, List.getElem_cons_drop, List.take_append_drop]
  · intro p'
    rw [Stream.setPhase, List.modify_eq_take_cons_drop hLt, hAt]

theorem mem_of_phaseAt (hPhase : s.phaseAt k = some p) : ∃ q ∈ s.queries, q.phase = p := by
  obtain ⟨raw, hQuery⟩ := phaseAt_eq_some.mp hPhase
  exact ⟨_, List.mem_of_getElem? hQuery, rfl⟩

theorem exists_phaseAt {q : Query} (hMem : q ∈ s.queries) : ∃ k, s.phaseAt k = some q.phase := by
  obtain ⟨k, hQuery⟩ := List.getElem?_of_mem hMem
  exact ⟨k, phaseAt_eq_some.mpr ⟨q.raw, hQuery⟩⟩

/-! ## Who handles which query -/

structure Roles (s : Stream) : Prop where
  own : ∀ k p, s.phaseAt k = some p → p.inline = true → s.reader = .serving ∧ k = s.current
  serving : s.reader = .serving → ∃ p, s.phaseAt s.current = some p ∧ p.inline = true

theorem Roles.idle (h : Roles s) (hReader : s.reader ≠ .serving) :
    ∀ k p, s.phaseAt k = some p → p.inline = false := by
  intro k p hPhase
  by_contra hInline
  exact hReader (h.own k p hPhase (Bool.eq_true_of_not_eq_false hInline)).1

/-- A reader that is busy with no query, before and after. -/
theorem Roles.of_idle (h : Roles s) (hReader : s.reader ≠ .serving) (hQueries : s'.queries = s.queries)
    (hReader' : s'.reader ≠ .serving) : Roles s' := by
  refine ⟨?_, fun hServing => absurd hServing hReader'⟩
  intro k p hPhase hInline
  rw [Stream.phaseAt, hQueries] at hPhase
  exact absurd hInline (Bool.eq_false_iff.mp (h.idle hReader k p hPhase))

theorem Roles.of_eq (h : Roles s) (hQueries : s'.queries = s.queries) (hReader : s'.reader = s.reader) :
    Roles s' := by
  have hPhaseAt : s'.phaseAt = s.phaseAt := by
    funext k
    rw [Stream.phaseAt, hQueries, Stream.phaseAt]
  have hCurrent : s'.current = s.current := by rw [Stream.current, hQueries, Stream.current]
  constructor
  · intro k p hPhase hInline
    rw [hReader, hCurrent]
    exact h.own k p (hPhaseAt ▸ hPhase) hInline
  · intro hServing
    rw [hPhaseAt, hCurrent]
    exact h.serving (hReader ▸ hServing)

/-- A phase changes and stays in the task it was in. -/
theorem Roles.set (h : Roles s) (hPhase : s.phaseAt k = some p) (hSame : p'.inline = p.inline) :
    Roles (s.setPhase k p') := by
  constructor
  · intro j q hj hInline
    rw [phaseAt_setPhase] at hj
    rw [current_setPhase]
    split at hj
    · rename_i hEq
      rw [hPhase] at hj
      cases hj
      rw [hEq]
      exact h.own k p hPhase (hSame ▸ hInline)
    · exact h.own j q hj hInline
  · intro hServing
    obtain ⟨q, hq, hInline⟩ := h.serving hServing
    rw [current_setPhase, phaseAt_setPhase]
    split
    · rename_i hEq
      rw [hEq, hPhase] at hq
      cases hq
      exact ⟨p', by rw [hPhase]; rfl, hSame.trans hInline⟩
    · exact ⟨q, hq, hInline⟩

/-- The reader is done with its query, or has given it to a task. -/
theorem Roles.leave (h : Roles s) (hPhase : s.phaseAt k = some p) (hInline : p.inline = true)
    (hLeft : p'.inline = false) : Roles { s.setPhase k p' with reader := .length } := by
  refine ⟨?_, nofun⟩
  intro j q hj hq
  have hj' : (s.setPhase k p').phaseAt j = some q := hj
  rw [phaseAt_setPhase] at hj'
  split at hj'
  · rw [hPhase] at hj'
    cases hj'
    rw [hLeft] at hq
    cases hq
  · rename_i hNe
    have hCurrent := (h.own k p hPhase hInline).2
    exact absurd ((h.own j q hj' hq).2.trans hCurrent.symm) hNe

theorem Roles.moves (h : Roles s) (hMoves : Moves s a s') : Roles s' := by
  cases hMoves with
  | header hReader | zero hReader | last hReader | cut hReader | dropsSender hReader
  | joins hReader =>
    exact h.of_idle (by simp [hReader]) rfl nofun
  | rough ha hReader =>
    refine h.of_idle ?_ rfl nofun
    rcases hReader with hReader | ⟨len, hReader⟩ <;> simp [hReader]
  | query hReader hLen =>
    -- the reader had no query, so every inline phase is that of the new one
    have hIdle := h.idle (by simp [hReader])
    constructor
    · intro k p hPhase hInline
      refine ⟨rfl, ?_⟩
      obtain ⟨raw, hQuery⟩ := phaseAt_eq_some.mp hPhase
      have hLt := (List.getElem?_eq_some_iff.mp hQuery).1
      dsimp only at hQuery hLt
      simp only [Stream.current, List.length_append, List.length_singleton] at hLt ⊢
      rw [List.getElem?_append] at hQuery
      split at hQuery
      · have hOld := hIdle k p (phaseAt_eq_some.mpr ⟨raw, hQuery⟩)
        rw [hOld] at hInline
        cases hInline
      · omega
    · intro _
      refine ⟨.waiting, ?_, rfl⟩
      simp [Stream.phaseAt, Stream.current]
  | acquire hReader hPhase | ready hReader hPhase | resolves hPhase => exact h.set hPhase rfl
  | spawn hReader hPhase => exact h.leave hPhase rfl rfl
  | @sends k inline response hPhase hWriter =>
    have hSet : Roles (s.setPhase k (.sent inline response)) :=
      h.set hPhase (by cases inline <;> rfl)
    exact hSet.of_eq rfl rfl
  | @lost k inline response hPhase hWriter =>
    refine h.set hPhase ?_
    cases inline <;> rfl
  -- a query of the reader frees it, one of a task does not concern it
  | @finishes k inline response hPhase =>
    cases inline with
    | true => exact h.leave hPhase rfl rfl
    | false =>
      have hSet : Roles (s.setPhase k (.finished response)) := h.set hPhase rfl
      exact hSet.of_eq rfl rfl
  | arrives | closes | takes | skips | ends | writes | writesAll | flushes | writeFails =>
    exact h.of_eq rfl rfl

/-! ## The end of the channel -/

theorem closed_reader (hClosed : s.channelOpen = false) : s.reader.holdsSender = false :=
  (Bool.or_eq_false_iff.mp hClosed).1

theorem closed_phase (hClosed : s.channelOpen = false) (hPhase : s.phaseAt k = some p) :
    p.holds = false := by
  obtain ⟨q, hMem, rfl⟩ := mem_of_phaseAt hPhase
  have hNone := List.any_eq_false.mp (Bool.or_eq_false_iff.mp hClosed).2 q hMem
  exact Bool.eq_false_of_not_eq_true hNone

/-- The part of the state the writer's end depends on. -/
structure Closing (s : Stream) : Prop where
  ended : s.writer = .ended → s.channel = [] ∧ s.channelOpen = false
  joined : ∀ result, s.reader = .returned result → s.writer = .ended
  writing : ∀ rest, s.writer = .writing rest → rest ≠ []

/-- While somebody holds a sender the writer runs. -/
theorem Closing.running (h : Closing s) (hOpen : s.channelOpen = true) : s.writer ≠ .ended := by
  intro hEnded
  rw [(h.ended hEnded).2] at hOpen
  cases hOpen

/-- The connection's task returns after the writer. -/
theorem Closing.not_returned (h : Closing s) (hWriter : s.writer ≠ .ended)
    (result : Except String Unit) : s.reader ≠ .returned result :=
  fun hReturned => hWriter (h.joined result hReturned)

theorem channelOpen_of_reader (hReader : s.reader.holdsSender = true) : s.channelOpen = true := by
  rw [Stream.channelOpen, hReader, Bool.true_or]

theorem channelOpen_of_phase (hPhase : s.phaseAt k = some p) (hHolds : p.holds = true) :
    s.channelOpen = true := by
  by_contra hClosed
  rw [closed_phase (Bool.eq_false_of_not_eq_true hClosed) hPhase] at hHolds
  cases hHolds

/-- A step that leaves the writer alone, of somebody who holds a sender. -/
theorem Closing.of_open (h : Closing s) (hOpen : s.channelOpen = true) (hWriter : s'.writer = s.writer)
    (hReader : ∀ result, s'.reader = .returned result → s.reader = .returned result) :
    Closing s' := by
  refine ⟨?_, ?_, ?_⟩
  · intro hEnded
    exact absurd (hWriter ▸ hEnded) (h.running hOpen)
  · intro result hResult
    rw [hWriter]
    exact h.joined result (hReader result hResult)
  · intro rest hRest
    exact h.writing rest (hWriter ▸ hRest)

theorem Closing.moves (h : Closing s) (hMoves : Moves s a s') (ha : a ≠ .writeFails) :
    Closing s' := by
  have hReader : s.reader.holdsSender = true → s.channelOpen = true := channelOpen_of_reader
  cases hMoves with
  | arrives | closes => exact ⟨h.ended, h.joined, h.writing⟩
  | header hLength | zero hLength | last hLength | query hLength | cut hLength =>
    exact h.of_open (hReader (by rw [hLength]; rfl)) rfl nofun
  | rough hRough hLength =>
    refine h.of_open (hReader ?_) rfl nofun
    rcases hLength with hLength | ⟨len, hLength⟩ <;> rw [hLength] <;> rfl
  | acquire hServing | ready hServing =>
    exact h.of_open (hReader (by rw [hServing]; rfl)) rfl fun _ => id
  | spawn hServing hPhase => exact h.of_open (hReader (by rw [hServing]; rfl)) rfl nofun
  | resolves hPhase | sends hPhase =>
    exact h.of_open (channelOpen_of_phase hPhase rfl) rfl fun _ => id
  -- the sender is alive, so the receiver is
  | lost hPhase hWriter => exact absurd hWriter (h.running (channelOpen_of_phase hPhase rfl))
  | @finishes k inline response hPhase =>
    refine h.of_open (channelOpen_of_phase hPhase rfl) rfl fun result hResult => ?_
    cases inline with
    | true => cases hResult
    | false => exact hResult
  | dropsSender hStopped => exact h.of_open (hReader (by rw [hStopped]; rfl)) rfl nofun
  | @takes response bytes rest hWriter hChannel hFrame =>
    refine ⟨nofun, fun result hResult => ?_, ?_⟩
    · exact absurd hResult (h.not_returned (by simp [hWriter]) result)
    · -- a frame has at least its length
      rintro rest' ⟨⟩ rfl
      rw [frame] at hFrame
      split at hFrame <;> cases hFrame
  | skips hWriter hChannel hFrame =>
    refine ⟨?_, h.joined, h.writing⟩
    intro hEnded
    rw [hWriter] at hEnded
    cases hEnded
  | ends hWriter hChannel hClosed => exact ⟨fun _ => ⟨hChannel, hClosed⟩, fun _ _ => rfl, nofun⟩
  | @writes n rest hWriter hPos hLt =>
    refine ⟨nofun, fun result hResult => ?_, ?_⟩
    · exact absurd hResult (h.not_returned (by simp [hWriter]) result)
    · rintro rest' ⟨⟩ hNil
      exact absurd (List.drop_eq_nil_iff.mp hNil) (Nat.not_le_of_lt hLt)
  | writesAll hWriter hPos | flushes hWriter =>
    refine ⟨nofun, fun result hResult => ?_, nofun⟩
    exact absurd hResult (h.not_returned (by simp [hWriter]) result)
  | writeFails => exact absurd rfl ha
  -- the reader held no sender any more, so nothing opens again
  | joins hJoining hWriter =>
    refine ⟨?_, fun _ _ => hWriter, h.writing⟩
    intro hEnded
    obtain ⟨hChannel, hClosed⟩ := h.ended hEnded
    refine ⟨hChannel, ?_⟩
    rw [Stream.channelOpen]
    exact (Bool.or_eq_false_iff.mp hClosed).2

/-! ## What is written -/

/-- What a response leaves on the wire; nothing, if it does not fit. -/
def onWire (response : Bytes) : Bytes := (frame response).getD []

def Phase.passed : Phase → Option Bytes
  | .sent _ response | .finished response => some response
  | _ => none

/-- The responses that were sent into the channel. -/
def Stream.passed (s : Stream) : List Bytes := s.queries.filterMap (·.phase.passed)

def Writer.rest : Writer → Bytes
  | .writing rest => rest
  | .receiving | .flushing | .ended => []

/-- `order` lists the responses that have left the channel. -/
def Ordered (output : Bytes) (channel passed : List Bytes) : Prop :=
  ∃ order : List Bytes, output = order.flatMap onWire ∧ (order ++ channel).Perm passed

theorem passed_setPhase_of_eq (p' : Phase) (hPhase : s.phaseAt k = some p) (hSame : p'.passed = p.passed) :
    (s.setPhase k p').passed = s.passed := by
  obtain ⟨before, raw, after, hQueries, hSet⟩ := setPhase_split hPhase
  simp only [Stream.passed, hSet p', hQueries, List.filterMap_append, List.filterMap_cons, hSame]

theorem passed_setPhase_sent (p' : Phase) {response : Bytes} (hPhase : s.phaseAt k = some p)
    (hBefore : p.passed = none) (hAfter : p'.passed = some response) :
    (s.passed ++ [response]).Perm (s.setPhase k p').passed := by
  obtain ⟨before, raw, after, hQueries, hSet⟩ := setPhase_split hPhase
  simp only [Stream.passed, hSet p', hQueries, List.filterMap_append, List.filterMap_cons, hBefore,
    hAfter]
  exact List.perm_append_singleton _ _ |>.trans List.perm_middle.symm

/-- The next response leaves the channel. -/
theorem Ordered.take {output : Bytes} {response : Bytes} {rest passed : List Bytes}
    (h : Ordered output (response :: rest) passed) :
    Ordered (output ++ onWire response) rest passed := by
  obtain ⟨order, rfl, hPerm⟩ := h
  refine ⟨order ++ [response], ?_, ?_⟩
  · simp
  · rwa [List.append_assoc, List.singleton_append]

theorem Ordered.moves (h : Ordered (s.written ++ s.writer.rest) s.channel s.passed)
    (hMoves : Moves s a s') (ha : a ≠ .writeFails) (hClosing : Closing s) :
    Ordered (s'.written ++ s'.writer.rest) s'.channel s'.passed := by
  cases hMoves with
  | arrives | closes | header | zero | last | cut | rough | dropsSender | joins => exact h
  -- a query that was only read has sent nothing
  | query hReader hLen =>
    dsimp only [Stream.passed]
    rw [List.filterMap_append]
    exact (List.append_nil s.passed).symm ▸ h
  | acquire hReader hPhase => exact passed_setPhase_of_eq .permitted hPhase rfl ▸ h
  | @ready response hReader hPhase =>
    exact passed_setPhase_of_eq (.sending true response) hPhase rfl ▸ h
  | spawn hReader hPhase => exact passed_setPhase_of_eq .resolving hPhase rfl ▸ h
  | @resolves k response hPhase =>
    exact passed_setPhase_of_eq (.sending false response) hPhase rfl ▸ h
  -- the response is appended to the channel and to the responses that passed
  | @sends k inline response hPhase hWriter =>
    have hSent := passed_setPhase_sent (.sent inline response) hPhase rfl rfl
    obtain ⟨order, hOutput, hPerm⟩ := h
    refine ⟨order, hOutput, ?_⟩
    rw [← List.append_assoc]
    exact (hPerm.append_right [response]).trans hSent
  | lost hPhase hWriter =>
    exact absurd hWriter (hClosing.running (channelOpen_of_phase hPhase rfl))
  | @finishes k inline response hPhase =>
    exact passed_setPhase_of_eq (.finished response) hPhase rfl ▸ h
  -- from here on the response counts as output, though its bytes are still to go
  | @takes response bytes rest hWriter hChannel hFrame =>
    rw [hWriter, hChannel] at h
    have hTake := h.take
    rwa [Writer.rest, List.append_nil, onWire, hFrame] at hTake
  | @skips response rest hWriter hChannel hFrame =>
    rw [hChannel] at h
    have hTake := h.take
    rwa [onWire, hFrame, Option.getD_none, List.append_nil] at hTake
  | ends hWriter hChannel hClosed | flushes hWriter =>
    rw [hWriter] at h
    exact h
  -- a partial write moves bytes from the rest to the output
  | @writes n rest hWriter hPos hLt =>
    rw [hWriter] at h
    rw [Writer.rest, List.append_assoc, List.take_append_drop]
    exact h
  | @writesAll rest hWriter hPos =>
    rw [hWriter] at h
    dsimp only [Writer.rest]
    rw [List.append_nil]
    exact h
  | writeFails => exact absurd rfl ha

/-! ## What is read -/

/-- How the reader stops without a timeout, and the bytes it has made no query
of. -/
inductive Ending (eof : Bool) : Except String Unit → Bytes → Prop
  | short {rest : Bytes} (hEof : eof = true) (hShort : rest.length < 2) : Ending eof (.ok ()) rest
  | zero (tail : Bytes) : Ending eof (.ok ()) (be16 0 ++ tail)
  | cut {len : Nat} {tail : Bytes} (hEof : eof = true) (hLen : len < 2 ^ 16)
      (hShort : tail.length < len) :
    Ending eof (.error "failed to read DNS query body") (be16 len ++ tail)

/-- The bytes behind the last query, by where the reader stands. -/
def Unread (calm : Prop) (s : Stream) (rest : Bytes) : Prop :=
  match s.reader with
  | .length | .serving => rest = s.input
  | .body len => (0 < len ∧ len < 2 ^ 16) ∧ rest = be16 len ++ s.input
  | .stopped result | .joining result | .returned result => calm → Ending s.eof result rest

/-- The client's bytes are the frames of the queries and what is unread. `calm`
says that no read was given up. -/
structure Reads (calm : Prop) (s : Stream) : Prop where
  sizes : ∀ raw ∈ s.queries.map (·.raw), 0 < raw.length ∧ raw.length < 2 ^ 16
  parse : ∃ rest, s.received = (s.queries.map (·.raw)).flatMap framed ++ rest ∧ Unread calm s rest

/-- A step that reads nothing. -/
theorem Reads.of_eq {calm : Prop} (h : Reads calm s)
    (hQueries : s'.queries.map (·.raw) = s.queries.map (·.raw)) (hReceived : s'.received = s.received)
    (hUnread : ∀ rest, Unread calm s rest → Unread calm s' rest) : Reads calm s' := by
  obtain ⟨rest, hParse, hRest⟩ := h.parse
  refine ⟨hQueries ▸ h.sizes, rest, ?_, hUnread rest hRest⟩
  rw [hReceived, hQueries, hParse]

theorem raw_setPhase (s : Stream) (k : Nat) (p : Phase) :
    (s.setPhase k p).queries.map (·.raw) = s.queries.map (·.raw) := by
  rw [Stream.setPhase]
  refine List.ext_getElem? fun i => ?_
  simp only [List.getElem?_map, List.getElem?_modify]
  cases s.queries[i]? with
  | none => rfl
  | some q => by_cases hEq : k = i <;> simp [hEq]

theorem Unread.of_eq {calm : Prop} {rest : Bytes} (hReader : s'.reader = s.reader)
    (hInput : s'.input = s.input) (hEof : s'.eof = s.eof) (h : Unread calm s rest) :
    Unread calm s' rest := by
  rw [Unread, hReader, hInput, hEof]
  exact h

/-- More bytes come in behind the unread ones. -/
theorem Unread.arrives {calm : Prop} {rest : Bytes} (bytes received : Bytes) (hOpen : s.eof = false)
    (h : Unread calm s rest) :
    Unread calm { s with input := s.input ++ bytes, received := received } (rest ++ bytes) := by
  have hEnding : ∀ result, (calm → Ending s.eof result rest) →
      calm → Ending s.eof result (rest ++ bytes) := by
    intro result hEnding hCalm
    cases hEnding hCalm with
    | zero tail => exact .zero (tail ++ bytes)
    | short hEof | cut hEof =>
      rw [hOpen] at hEof
      cases hEof
  unfold Unread at h ⊢
  dsimp only
  cases hReader : s.reader with
  | length | serving =>
    rw [hReader] at h
    exact congrArg (· ++ bytes) h
  | body len =>
    rw [hReader] at h
    refine ⟨h.1, ?_⟩
    rw [h.2, List.append_assoc]
  | stopped result | joining result | returned result =>
    rw [hReader] at h
    exact hEnding result h

theorem Unread.closes {calm : Prop} {rest : Bytes} (hOpen : s.eof = false) (h : Unread calm s rest) :
    Unread calm { s with eof := true } rest := by
  have hEnding : ∀ result, (calm → Ending s.eof result rest) → calm → Ending true result rest := by
    intro result hEnding hCalm
    cases hEnding hCalm with
    | zero tail => exact .zero tail
    | short hEof | cut hEof =>
      rw [hOpen] at hEof
      cases hEof
  unfold Unread at h ⊢
  dsimp only
  cases hReader : s.reader with
  | length | serving | body =>
    rw [hReader] at h
    exact h
  | stopped result | joining result | returned result =>
    rw [hReader] at h
    exact hEnding result h

theorem Reads.moves {calm : Prop} (h : Reads calm s) (hRoles : Roles s) (hMoves : Moves s a s')
    (ha : a.rough = true → ¬ calm) : Reads calm s' := by
  cases hMoves with
  | arrives bytes hOpen =>
    obtain ⟨rest, hParse, hRest⟩ := h.parse
    refine ⟨h.sizes, rest ++ bytes, ?_, hRest.arrives bytes _ hOpen⟩
    dsimp only
    rw [hParse, List.append_assoc]
  | closes hOpen => exact h.of_eq rfl rfl fun rest => Unread.closes hOpen
  -- the two bytes of the length are read but belong to no query yet
  | @header b0 b1 input hReader hInput hLen =>
    refine h.of_eq rfl rfl fun rest hRest => ?_
    rw [Unread, hReader] at hRest
    refine ⟨⟨Nat.pos_of_ne_zero hLen, ofBe_pair_lt b0 b1⟩, ?_⟩
    rw [hRest, hInput, be16_ofBe]
    rfl
  -- a zero length stops the reader, whatever comes behind it
  | @zero b0 b1 input hReader hInput hLen =>
    refine h.of_eq rfl rfl fun rest hRest => ?_
    rw [Unread, hReader] at hRest
    intro _
    have hZero : rest = be16 0 ++ input := by
      rw [hRest, hInput, ← hLen, be16_ofBe]
      rfl
    rw [hZero]
    exact .zero input
  | last hReader hInput hEof =>
    refine h.of_eq rfl rfl fun rest hRest => ?_
    rw [Unread, hReader] at hRest
    intro _
    exact .short hEof (hRest ▸ hInput)
  -- length and body together are one frame
  | @query len hReader hLen =>
    obtain ⟨rest, hParse, hRest⟩ := h.parse
    rw [Unread, hReader] at hRest
    obtain ⟨⟨hPos, hFits⟩, hRest⟩ := hRest
    have hTake : (s.input.take len).length = len := List.length_take_of_le hLen
    refine ⟨?_, s.input.drop len, ?_, rfl⟩
    · intro raw hRaw
      rw [List.map_append, List.mem_append] at hRaw
      rcases hRaw with hRaw | hRaw
      · exact h.sizes raw hRaw
      · rw [List.mem_singleton.mp hRaw]
        dsimp only
        rw [hTake]
        exact ⟨hPos, hFits⟩
    · have hFrame : be16 len ++ s.input = framed (s.input.take len) ++ s.input.drop len := by
        rw [framed, hTake, List.append_assoc, List.take_append_drop]
      dsimp only
      rw [hParse, hRest, hFrame]
      simp
  | @cut len hReader hShort hEof =>
    refine h.of_eq rfl rfl fun rest hRest => ?_
    rw [Unread, hReader] at hRest
    intro _
    rw [hRest.2]
    exact .cut hEof hRest.1.2 hShort
  -- nothing is claimed about a connection whose reads were given up
  | rough hRough hReader =>
    exact h.of_eq rfl rfl fun rest _ hCalm => absurd hCalm (ha hRough)
  | acquire hReader hPhase | ready hReader hPhase | resolves hPhase | sends hPhase | lost hPhase =>
    exact h.of_eq (raw_setPhase s _ _) rfl fun rest => Unread.of_eq rfl rfl rfl
  | spawn hReader hPhase =>
    refine h.of_eq (raw_setPhase s _ _) rfl fun rest hRest => ?_
    rw [Unread, hReader] at hRest
    exact hRest
  | @finishes k inline response hPhase =>
    refine h.of_eq (raw_setPhase s _ _) rfl fun rest hRest => ?_
    cases inline with
    | false => exact hRest
    | true =>
      rw [Unread, (hRoles.own k _ hPhase rfl).1] at hRest
      exact hRest
  | dropsSender hReader | joins hReader =>
    refine h.of_eq rfl rfl fun rest hRest => ?_
    rw [Unread, hReader] at hRest
    exact hRest
  | takes | skips | ends | writes | writesAll | flushes | writeFails =>
    exact h.of_eq rfl rfl fun rest => Unread.of_eq rfl rfl rfl

/-- A client that sends whole frames has all of them read. -/
theorem frames_unique {eof : Bool} {result : Except String Unit} {rest : Bytes} :
    ∀ {asked sent : List Bytes},
      (∀ raw ∈ asked, 0 < raw.length ∧ raw.length < 2 ^ 16) →
      (∀ raw ∈ sent, 0 < raw.length ∧ raw.length < 2 ^ 16) →
      sent.flatMap framed = asked.flatMap framed ++ rest → Ending eof result rest →
      asked = sent ∧ result = .ok () := by
  intro asked
  induction asked with
  | nil =>
    intro sent _ hSent hEq hEnding
    rw [List.flatMap_nil, List.nil_append] at hEq
    cases sent with
    | nil =>
      refine ⟨rfl, ?_⟩
      cases hEnding with
      | short | zero => rfl
      | cut => cases hEq
    | cons raw sent =>
      -- the unread bytes start with a whole frame, and none of the endings allows that
      exfalso
      obtain ⟨hPos, hFits⟩ := hSent raw List.mem_cons_self
      rw [List.flatMap_cons, framed, List.append_assoc] at hEq
      cases hEnding with
      | short hEof hShort =>
        rw [← hEq, List.length_append, length_be16] at hShort
        omega
      | zero tail =>
        have hZero := be16_inj hFits (by omega) (List.append_inj_left hEq rfl)
        omega
      | @cut len tail hEof hLen hShort =>
        have hSame := be16_inj hFits hLen (List.append_inj_left hEq rfl)
        rw [← List.append_inj_right hEq rfl, List.length_append] at hShort
        omega
  | cons raw asked ih =>
    intro sent hAsked hSent hEq hEnding
    -- both sides start with a frame: equal lengths first, then equal bodies
    obtain ⟨hPos, hFits⟩ := hAsked raw List.mem_cons_self
    rw [List.flatMap_cons, framed, List.append_assoc, List.append_assoc] at hEq
    cases sent with
    | nil => cases hEq
    | cons raw' sent =>
      rw [List.flatMap_cons, framed, List.append_assoc] at hEq
      obtain ⟨hPos', hFits'⟩ := hSent raw' List.mem_cons_self
      have hLength := be16_inj hFits' hFits (List.append_inj_left hEq rfl)
      have hTail := List.append_inj_right hEq rfl
      obtain ⟨hRaw, hRest⟩ := List.append_inj hTail hLength
      obtain ⟨rfl, hResult⟩ := ih (fun q hq => hAsked q (List.mem_cons_of_mem _ hq))
        (fun q hq => hSent q (List.mem_cons_of_mem _ hq)) hRest hEnding
      exact ⟨hRaw ▸ rfl, hResult⟩

/-! ## What is left to do -/

def Phase.cost : Phase → Nat
  | .waiting => 65545
  | .permitted => 65544
  | .resolving => 65543
  | .sending _ _ => 65542
  | .sent _ _ => 1
  | .finished _ => 0

def Reader.cost : Reader → Nat
  | .serving => 5
  | .length | .body _ => 4
  | .stopped _ => 3
  | .joining _ => 2
  | .returned _ => 1

def Writer.cost : Writer → Nat
  | .writing rest => rest.length + 2
  | .flushing => 2
  | .receiving => 1
  | .ended => 0

/-- An upper bound of the steps that can be taken before the client sends more: a
byte of input stands for a query, a response in the channel for the writes of its
frame, which has at most 65537 bytes. -/
def Stream.work (s : Stream) : Nat :=
  65550 * s.input.length + (!s.eof).toNat + s.reader.cost +
    (s.queries.map (·.phase.cost)).sum + 65540 * s.channel.length + s.writer.cost

/-- A query goes on to another phase. -/
theorem work_setPhase (p' : Phase) (hPhase : s.phaseAt k = some p) :
    (s.setPhase k p').work + p.cost = s.work + p'.cost := by
  obtain ⟨before, raw, after, hQueries, hSet⟩ := setPhase_split hPhase
  rw [Stream.work, hSet p', Stream.work, hQueries]
  simp only [Stream.setPhase, List.map_append, List.map_cons, List.sum_append, List.sum_cons]
  omega

theorem work_setPhase_lt (p' : Phase) (hPhase : s.phaseAt k = some p) (hLess : p'.cost < p.cost) :
    (s.setPhase k p').work < s.work := by
  have hCost := work_setPhase p' hPhase
  omega

theorem work_reader (s : Stream) (reader : Reader) :
    { s with reader := reader }.work + s.reader.cost = s.work + reader.cost := by
  simp only [Stream.work]
  omega

theorem work_channel (s : Stream) (channel : List Bytes) :
    { s with channel := channel }.work + 65540 * s.channel.length =
      s.work + 65540 * channel.length := by
  simp only [Stream.work]
  omega

theorem length_frame {response bytes : Bytes} (h : frame response = some bytes) :
    bytes.length ≤ 65537 := by
  simp only [frame, Option.ite_none_right_eq_some, Option.some.injEq] at h
  obtain ⟨hFits, rfl⟩ := h
  rw [framed, List.length_append, length_be16]
  omega

/-- Every step but an arrival is one less to do. -/
theorem work_moves (hRoles : Roles s) (hMoves : Moves s a s') (ha : ∀ bytes, a ≠ .arrives bytes)
    (hBody : ∀ len, s.reader = .body len → 0 < len) : s'.work < s.work := by
  cases hMoves with
  | arrives bytes => exact absurd rfl (ha bytes)
  | closes hOpen =>
    simp only [Stream.work, hOpen, Bool.not_true, Bool.not_false, Bool.toNat_true, Bool.toNat_false]
    omega
  | header hReader hInput | zero hReader hInput =>
    simp only [Stream.work, hReader, hInput, Reader.cost, List.length_cons]
    omega
  | last hReader | cut hReader | dropsSender hReader | joins hReader =>
    simp only [Stream.work, hReader, Reader.cost]
    omega
  | @query len hReader hLen =>
    -- the body leaves the input, which pays for all the phases of its query
    have hPos := hBody len hReader
    simp only [Stream.work, hReader, Reader.cost, List.length_drop, List.map_append, List.map_cons,
      List.map_nil, List.sum_append, List.sum_singleton, Phase.cost]
    omega
  | rough hRough hReader =>
    rcases hReader with hReader | ⟨len, hReader⟩ <;>
      simp only [Stream.work, hReader, Reader.cost] <;> omega
  | acquire hReader hPhase => exact work_setPhase_lt .permitted hPhase (by decide)
  | @ready response hReader hPhase =>
    exact work_setPhase_lt (.sending true response) hPhase (by simp [Phase.cost])
  | spawn hReader hPhase =>
    have hCost := work_setPhase .resolving hPhase
    have hLeave := work_reader (s.setPhase s.current .resolving) .length
    have hBusy : (s.setPhase s.current .resolving).reader = .serving := hReader
    simp only [Phase.cost] at hCost
    simp only [hBusy, Reader.cost] at hLeave
    dsimp only
    omega
  | @resolves k response hPhase =>
    exact work_setPhase_lt (.sending false response) hPhase (by simp [Phase.cost])
  | @sends k inline response hPhase hWriter =>
    have hCost := work_setPhase (.sent inline response) hPhase
    -- what the query no longer costs pays for its place in the channel
    have hQueue := work_channel (s.setPhase k (.sent inline response)) (s.channel ++ [response])
    have hChannel : (s.setPhase k (.sent inline response)).channel = s.channel := rfl
    simp only [Phase.cost] at hCost
    simp only [hChannel, List.length_append, List.length_singleton] at hQueue
    dsimp only
    omega
  | @lost k inline response hPhase hWriter =>
    exact work_setPhase_lt (.sent inline response) hPhase (by simp [Phase.cost])
  | @finishes k inline response hPhase =>
    have hCost := work_setPhase (.finished response) hPhase
    simp only [Phase.cost] at hCost
    cases inline with
    | false =>
      have hStays : { s.setPhase k (.finished response) with
          reader := if false then .length else s.reader } = s.setPhase k (.finished response) := rfl
      rw [hStays]
      omega
    | true =>
      have hLeave := work_reader (s.setPhase k (.finished response)) .length
      have hBusy : (s.setPhase k (.finished response)).reader = .serving :=
        (hRoles.own k _ hPhase rfl).1
      simp only [hBusy, Reader.cost] at hLeave
      simp only [if_true]
      omega
  | @takes response bytes rest hWriter hChannel hFrame =>
    -- and that for the bytes to write
    have hLength := length_frame hFrame
    simp only [Stream.work, hWriter, hChannel, Writer.cost, List.length_cons]
    omega
  | skips hWriter hChannel hFrame =>
    simp only [Stream.work, hChannel, List.length_cons]
    omega
  | ends hWriter | writesAll hWriter | flushes hWriter =>
    simp only [Stream.work, hWriter, Writer.cost]
    omega
  | writes hWriter hPos hLt =>
    simp only [Stream.work, hWriter, Writer.cost, List.length_drop]
    omega
  | writeFails hWriter =>
    cases hCase : s.writer with
    | receiving => exact absurd hCase hWriter.1
    | ended => exact absurd hCase hWriter.2
    | writing | flushing =>
      simp only [Stream.work, hCase, Writer.cost]
      omega

theorem eof_moves (hMoves : Moves s a s') (hEof : s.eof = true) : s'.eof = true := by
  cases hMoves with
  | closes => rfl
  | _ => exact hEof

/-! ## No deadlock -/

/-- A step of the server itself that nothing goes wrong in. -/
def Label.smooth : Label → Bool
  | .arrives _ | .idle | .stall | .readFails | .writeFails => false
  | _ => true

theorem received_moves (hMoves : Moves s a s') (hSmooth : a.smooth = true) :
    s'.received = s.received := by
  cases hMoves with
  | arrives => cases hSmooth
  | _ => rfl

/-- Some party can move on. -/
def CanMove (s : Stream) : Prop := ∃ a : Label, a.smooth = true ∧ (step s a).isSome = true

/-- The writer moves on when there is a response, or nobody to wait for. -/
theorem Closing.writer_moves (h : Closing s) (hWriter : s.writer ≠ .ended)
    (hReady : s.channel ≠ [] ∨ s.channelOpen = false) : CanMove s := by
  cases hCase : s.writer with
  | receiving =>
    cases hChannel : s.channel with
    | nil =>
      have hClosed := hReady.resolve_left (not_not.mpr hChannel)
      exact ⟨.receives, rfl, by simp [step, hCase, hChannel, hClosed]⟩
    | cons response rest =>
      cases hFrame : frame response with
      | some | none => exact ⟨.receives, rfl, by simp [step, hCase, hChannel, hFrame]⟩
  | writing rest =>
    have hPos := List.length_pos_of_ne_nil (h.writing rest hCase)
    exact ⟨.writes rest.length, rfl, by simp [step, hCase, hPos]⟩
  | flushing => exact ⟨.flushes, rfl, by simp [step, hCase]⟩
  | ended => exact absurd hCase hWriter

/-- A query that holds a permit and was polled moves on, or the writer does. -/
theorem Closing.query_moves (h : Closing s) (hPhase : s.phaseAt k = some p) (hHolds : p.holds = true)
    (hPolled : p ≠ .permitted) : CanMove s := by
  have hWriter := h.running (channelOpen_of_phase hPhase hHolds)
  cases p with
  | waiting | finished => cases hHolds
  | permitted => exact absurd rfl hPolled
  | resolving => exact ⟨.resolves k [], rfl, by simp [step, hPhase]⟩
  | sending inline response =>
    by_cases hRoom : s.channel.length < maxConcurrentQueries
    · exact ⟨.sends k, rfl, by simp [step, hPhase, hWriter, hRoom]⟩
    · -- the channel is full, so the writer has something to take
      refine h.writer_moves hWriter (.inl fun hEmpty => hRoom ?_)
      rw [hEmpty]
      decide
  | sent inline response => exact ⟨.finishes k, rfl, by simp [step, hPhase]⟩

/-- After the end of the input somebody can move until the connection's task
returns. -/
theorem canMove (hRoles : Roles s) (hClosing : Closing s) (hEof : s.eof = true)
    (hReader : ∀ result, s.reader ≠ .returned result) : CanMove s := by
  cases hCase : s.reader with
  -- at the end of the input every read returns
  | length =>
    refine ⟨.readLength, rfl, ?_⟩
    simp only [step, hCase, hEof, if_true]
    split
    · split <;> rfl
    · rfl
    · rename_i hNot hLong
      exact absurd rfl hNot
  | body len =>
    refine ⟨.readBody, rfl, ?_⟩
    simp only [step, hCase, hEof, if_true]
    split <;> rfl
  | serving =>
    obtain ⟨p, hPhase, hInline⟩ := hRoles.serving hCase
    cases p with
    | resolving | finished => cases hInline
    | sending | sent =>
      refine hClosing.query_moves hPhase rfl ?_
      intro hPermitted
      cases hPermitted
    | permitted => exact ⟨.polls none, rfl, by simp [step, hCase, hPhase]⟩
    | waiting =>
      by_cases hFree : s.inUse < maxConcurrentQueries
      · exact ⟨.acquire, rfl, by simp [step, hCase, hPhase, hFree]⟩
      · -- somebody else holds a permit, and the reader's query is the only one not polled
        have hSome : 0 < s.inUse := by
          rw [maxConcurrentQueries] at hFree
          omega
        obtain ⟨q, hMem, hHolds⟩ := List.countP_pos_iff.mp hSome
        obtain ⟨j, hj⟩ := exists_phaseAt hMem
        refine hClosing.query_moves hj hHolds fun hPermitted => ?_
        have hCurrent := (hRoles.own j _ hj (by rw [hPermitted]; rfl)).2
        rw [hCurrent, hPhase, hPermitted] at hj
        cases hj
  | stopped result => exact ⟨.dropsSender, rfl, by simp [step, hCase]⟩
  | joining result =>
    by_cases hEnded : s.writer = .ended
    · exact ⟨.joins, rfl, by simp [step, hCase, hEnded]⟩
    · cases hOpen : s.channelOpen with
      | false => exact hClosing.writer_moves hEnded (.inr hOpen)
      | true =>
        -- the last senders are with tasks of their own
        rw [Stream.channelOpen, hCase, Reader.holdsSender, Bool.false_or] at hOpen
        obtain ⟨q, hMem, hHolds⟩ := List.any_eq_true.mp hOpen
        obtain ⟨j, hj⟩ := exists_phaseAt hMem
        refine hClosing.query_moves hj hHolds fun hPermitted => ?_
        have hIdle := hRoles.idle (by simp [hCase]) j _ hj
        rw [hPermitted] at hIdle
        cases hIdle
  | returned result => exact absurd hCase (hReader result)

/-! ## The connection -/

/-- Everything a run without write errors keeps. -/
structure Sound (calm : Prop) (s : Stream) : Prop where
  roles : Roles s
  closing : Closing s
  ordered : Ordered (s.written ++ s.writer.rest) s.channel s.passed
  reads : Reads calm s

theorem sound_start (calm : Prop) : Sound calm Stream.start where
  roles := ⟨nofun, nofun⟩
  closing := ⟨nofun, nofun, nofun⟩
  ordered := ⟨[], rfl, .nil⟩
  reads := ⟨nofun, [], rfl, rfl⟩

theorem Sound.step {calm : Prop} (h : Sound calm s) (ha : a ≠ .writeFails)
    (hRough : a.rough = true → ¬ calm) (hStep : step s a = some s') : Sound calm s' where
  roles := h.roles.moves (step_moves hStep)
  closing := h.closing.moves (step_moves hStep) ha
  ordered := h.ordered.moves (step_moves hStep) ha h.closing
  reads := h.reads.moves h.roles (step_moves hStep) hRough

theorem run_sound {labels : List Label} (calm : Prop) (hRun : run step Stream.start labels = some s)
    (hWrite : .writeFails ∉ labels) (hRough : ∀ a ∈ labels, a.rough = true → ¬ calm) :
    Sound calm s := by
  have hGuard : Guarded step (fun _ a => a ≠ .writeFails ∧ (a.rough = true → ¬ calm)) Stream.start
      labels := guarded_of_forall (fun a ha => ⟨fun hEq => hWrite (hEq ▸ ha), hRough a ha⟩) _
  exact run_invariant_guarded (fun _ _ _ h hGuard hStep => h.step hGuard.1 hGuard.2 hStep)
    (sound_start calm) hGuard hRun

theorem Reads.body_pos {calm : Prop} (h : Reads calm s) (len : Nat) (hReader : s.reader = .body len) :
    0 < len := by
  obtain ⟨rest, -, hRest⟩ := h.parse
  rw [Unread, hReader] at hRest
  exact hRest.1.1

/-- When the writer has ended every query is finished. -/
theorem Sound.finished {calm : Prop} (h : Sound calm s) (hEnded : s.writer = .ended) :
    ∀ q ∈ s.queries, ∃ response, q.phase = .finished response := by
  intro q hMem
  obtain ⟨k, hPhase⟩ := exists_phaseAt hMem
  -- the writer ended because no sender was left, and a query in any other phase has one
  obtain ⟨-, hClosed⟩ := h.closing.ended hEnded
  have hFree := closed_phase hClosed hPhase
  have hReader := closed_reader hClosed
  cases hCase : q.phase with
  | finished response => exact ⟨response, rfl⟩
  | permitted | resolving | sending | sent =>
    rw [hCase] at hFree
    cases hFree
  | waiting =>
    rw [hCase] at hPhase
    rw [(h.roles.own k _ hPhase rfl).1] at hReader
    cases hReader

/-- The contract of one connection. -/
structure OneFrameEach (labels : List Label) (s : Stream) : Prop where
  /-- at return every query has its response, and the frames of the responses were written,
  one after the other -/
  delivered : ∀ result, s.reader = .returned result →
    (∀ response ∈ s.responses, response.length ≤ maxMessageSize) →
      s.queries.map (·.phase) = s.responses.map .finished ∧
        ∃ order : List Bytes, order.Perm s.responses ∧ s.written = order.flatMap framed
  /-- a client that sent whole frames had all of them read -/
  complete : ∀ result, s.reader = .returned result → (∀ a ∈ labels, a.rough = false) →
    ∀ sent : List Bytes, (∀ raw ∈ sent, 0 < raw.length ∧ raw.length ≤ maxMessageSize) →
      s.received = sent.flatMap framed → s.queries.map (·.raw) = sent ∧ result = .ok ()
  /-- there is always a way to the return -/
  returns : s.eof = true → ∃ more s', (∀ a ∈ more, a.smooth = true) ∧ run step s more = some s' ∧
    ∃ result, s'.reader = .returned result
  /-- and it is not put off forever -/
  bounded : ∀ more s', .writeFails ∉ more → (∀ bytes, .arrives bytes ∉ more) →
    run step s more = some s' → more.length ≤ s.work

theorem frame_of_le {response : Bytes} (h : response.length ≤ maxMessageSize) :
    onWire response = framed response := by
  rw [maxMessageSize] at h
  rw [onWire, frame, if_pos (by omega)]
  rfl

/-- At return, what was written is what was sent through the channel. -/
theorem Sound.wrote {calm : Prop} (h : Sound calm s) {result : Except String Unit}
    (hReturned : s.reader = .returned result) :
    s.queries.map (·.phase) = s.responses.map .finished ∧
      ∃ order : List Bytes, order.Perm s.responses ∧ s.written = order.flatMap onWire := by
  have hEnded := h.closing.joined result hReturned
  obtain ⟨hChannel, -⟩ := h.closing.ended hEnded
  have hFinished := h.finished hEnded
  -- all queries are finished, so what passed the channel is all there is
  have hPassed : s.passed = s.responses := by
    refine List.filterMap_congr fun q hq => ?_
    obtain ⟨response, hPhase⟩ := hFinished q hq
    rw [hPhase]
    rfl
  have hPhases : s.queries.map (·.phase) = s.responses.map .finished := by
    rw [Stream.responses, List.map_filterMap]
    rw [← List.filterMap_eq_map]
    refine List.filterMap_congr fun q hq => ?_
    obtain ⟨response, hPhase⟩ := hFinished q hq
    simp [hPhase, Phase.response]
  obtain ⟨order, hOutput, hPerm⟩ := h.ordered
  rw [hChannel, List.append_nil, hPassed] at hPerm
  rw [hEnded, Writer.rest, List.append_nil] at hOutput
  exact ⟨hPhases, order, hPerm, hOutput⟩

/-- These are whole frames, if the responses fit. -/
theorem Sound.delivered {calm : Prop} (h : Sound calm s) {result : Except String Unit}
    (hReturned : s.reader = .returned result)
    (hFits : ∀ response ∈ s.responses, response.length ≤ maxMessageSize) :
    s.queries.map (·.phase) = s.responses.map .finished ∧
      ∃ order : List Bytes, order.Perm s.responses ∧ s.written = order.flatMap framed := by
  obtain ⟨hPhases, order, hPerm, hWritten⟩ := h.wrote hReturned
  refine ⟨hPhases, order, hPerm, ?_⟩
  rw [hWritten]
  exact List.flatMap_congr fun response hMem => frame_of_le (hFits response (hPerm.subset hMem))

/-- At return, what was read is what was sent. -/
theorem Sound.complete (h : Sound True s) {result : Except String Unit}
    (hReturned : s.reader = .returned result) {sent : List Bytes}
    (hSent : ∀ raw ∈ sent, 0 < raw.length ∧ raw.length ≤ maxMessageSize)
    (hReceived : s.received = sent.flatMap framed) :
    s.queries.map (·.raw) = sent ∧ result = .ok () := by
  obtain ⟨rest, hParse, hRest⟩ := h.reads.parse
  rw [Unread, hReturned] at hRest
  refine frames_unique h.reads.sizes ?_ (hReceived ▸ hParse) (hRest trivial)
  intro raw hMem
  obtain ⟨hPos, hLe⟩ := hSent raw hMem
  rw [maxMessageSize] at hLe
  exact ⟨hPos, by omega⟩

/-- **One frame for each query.** Whatever the order of events and however many
queries there are: without write errors, when `handle_stream` returns the output is
the frames of the responses in some order, one for each query that was read. After
the end of the input it does return. -/
theorem one_frame_per_query {labels : List Label} {s : Stream}
    (hRun : run step Stream.start labels = some s) (hWrite : .writeFails ∉ labels) :
    OneFrameEach labels s where
  delivered result hReturned hFits :=
    (run_sound False hRun hWrite fun _ _ _ => id).delivered hReturned hFits
  complete result hReturned hCalm sent hSent hReceived := by
    have hSound := run_sound True hRun hWrite fun a ha hRough => by
      rw [hCalm a ha] at hRough
      cases hRough
    exact hSound.complete hReturned hSent hReceived
  returns hEof := by
    have hSound := run_sound False hRun hWrite fun _ _ _ => id
    have hReach : ∃ more s', Guarded step (fun _ a => a.smooth = true) s more ∧
        run step s more = some s' ∧ ∃ result, s'.reader = .returned result := by
      -- some step is enabled and lowers the work, until the return
      refine exists_run_done (I := fun s => Sound False s ∧ s.eof = true) Stream.work ?_ s
        ⟨hSound, hEof⟩
      rintro u ⟨hSound, hEof⟩ hDone
      obtain ⟨a, hSmooth, hEnabled⟩ := canMove hSound.roles hSound.closing hEof
        fun result hResult => hDone ⟨result, hResult⟩
      obtain ⟨v, hStep⟩ := Option.isSome_iff_exists.mp hEnabled
      refine ⟨a, v, hSmooth, hStep, ⟨?_, ?_⟩, ?_⟩
      · refine hSound.step (fun hEq => ?_) (fun _ => id) hStep
        rw [hEq] at hSmooth
        cases hSmooth
      · exact eof_moves (step_moves hStep) hEof
      · refine work_moves hSound.roles (step_moves hStep) (fun bytes hEq => ?_) hSound.reads.body_pos
        rw [hEq] at hSmooth
        cases hSmooth
    obtain ⟨more, s', hGuard, hMore, hReturned⟩ := hReach
    exact ⟨more, s', forall_of_guarded hGuard hMore, hMore, hReturned⟩
  bounded more s' hWrite' hArrives hMore := by
    have hSound := run_sound False hRun hWrite fun _ _ _ => id
    have hGuard : Guarded step (fun _ a => a ≠ .writeFails ∧ ∀ bytes, a ≠ .arrives bytes) s more :=
      guarded_of_forall (fun a ha =>
        ⟨fun hEq => hWrite' (hEq ▸ ha), fun bytes hEq => hArrives bytes (hEq ▸ ha)⟩) _
    have hLength := run_length_le (I := Sound False) Stream.work
      (fun _ _ _ hSound hGuard hStep => ⟨hSound.step hGuard.1 (fun _ => id) hStep,
        work_moves hSound.roles (step_moves hStep) hGuard.2 hSound.reads.body_pos⟩)
      hSound hGuard hMore
    omega

/-- Two queries in one segment. The second is answered at once, the first after the
end of the input. -/
def twoQueries : List Label :=
  [.arrives [0, 1, 5, 0, 1, 6], .closes, .readLength, .readBody, .acquire, .polls none, .readLength,
    .readBody, .acquire, .polls (some [9]), .sends 1, .receives, .finishes 1, .readLength,
    .dropsSender, .writes 2, .writes 1, .flushes, .resolves 0 [7, 7], .sends 0, .finishes 0, .receives,
    .writes 4, .flushes, .receives, .joins]

theorem one_frame_per_query_two : ∃ s, run step Stream.start twoQueries = some s ∧
    s.reader = .returned (.ok ()) ∧ s.written = [0, 1, 9, 0, 2, 7, 7] ∧
    OneFrameEach twoQueries s := by
  have hView : (run step Stream.start twoQueries).map (fun s => (s.reader, s.written)) =
      some (.returned (.ok ()), [0, 1, 9, 0, 2, 7, 7]) := by decide +kernel
  obtain ⟨s, hRun, hFields⟩ := Option.map_eq_some_iff.mp hView
  obtain ⟨hReader, hWritten⟩ := Prod.mk.injEq .. ▸ hFields
  exact ⟨s, hRun, hReader, hWritten, one_frame_per_query hRun (by decide)⟩

end DnsRs.Server
