import DnsRs.Lib.Run
import DnsRs.Wire.Names

/-!
# One connection of the DoT listener

`handle_stream` reads length-prefixed queries, resolves up to 32 of them at once
and writes the responses as they come. Three kinds of parties run side by side:
the reader loop, which polls each query once itself and spawns a task for those
that are not ready; the spawned tasks; and the writer, which takes responses from
a bounded channel.

The label says who moves and carries what the model leaves open: the bytes that
arrive, the response `handle_query` comes to, how much a write accepts, timeouts
and socket errors. Permits and sender clones are not counted; who holds one is
read off the phases, and a drop is a step.
-/

namespace DnsRs.Server

open Lib Wire

/-- `MAX_MESSAGE_SIZE` -/
def maxMessageSize : Nat := 65535

/-- `MAX_CONCURRENT_QUERIES_PER_CONNECTION` -/
def maxConcurrentQueries : Nat := 32

/-- A message with its length in front. -/
def framed (message : Bytes) : Bytes := be16 message.length ++ message

/-- What the writer makes of a response; `none` is its `continue`. -/
def frame (response : Bytes) : Option Bytes :=
  if response.length < 2 ^ 16 then some (framed response) else none

/-! ## The parties -/

/-- A query that was read. From `permitted` to `sent` it holds a permit and a
clone of the sender. -/
inductive Phase where
  /-- the reader is at `acquire_owned` -/
  | waiting
  /-- not polled yet -/
  | permitted
  /-- in its own task, at `query.await` -/
  | resolving
  /-- at `tx.send(response)`, in the reader's task or its own -/
  | sending (inline : Bool) (response : Bytes)
  /-- past it, with permit and sender not dropped yet -/
  | sent (inline : Bool) (response : Bytes)
  | finished (response : Bytes)
  deriving DecidableEq, Repr

structure Query where
  raw : Bytes
  phase : Phase
  deriving DecidableEq, Repr

inductive Reader where
  /-- at the read of the length prefix -/
  | length
  /-- at the read of a body of this length -/
  | body (len : Nat)
  /-- busy with the query it has read last -/
  | serving
  /-- out of its loop -/
  | stopped (result : Except String Unit)
  /-- `tx` is dropped, at `writer.await` -/
  | joining (result : Except String Unit)
  | returned (result : Except String Unit)
  deriving DecidableEq

inductive Writer where
  /-- at `rx.recv()` -/
  | receiving
  /-- at `write_all`, with this much to go -/
  | writing (rest : Bytes)
  | flushing
  /-- the task has ended and `rx` is dropped -/
  | ended
  deriving DecidableEq, Repr

structure Stream where
  /-- all the client has sent so far -/
  received : Bytes
  /-- what of it was not read -/
  input : Bytes
  eof : Bool
  reader : Reader
  queries : List Query
  channel : List Bytes
  writer : Writer
  written : Bytes
  deriving DecidableEq

inductive Label where
  | arrives (bytes : Bytes)
  | closes
  | readLength
  /-- `IDLE_TIMEOUT` -/
  | idle
  | readBody
  /-- `READ_TIMEOUT` -/
  | stall
  | readFails
  | acquire
  /-- `poll_immediate` -/
  | polls (response : Option Bytes)
  | resolves (k : Nat) (response : Bytes)
  | sends (k : Nat)
  | finishes (k : Nat)
  /-- `drop(tx)` -/
  | dropsSender
  | receives
  /-- a write that takes `n` bytes -/
  | writes (n : Nat)
  | flushes
  | writeFails
  | joins
  deriving DecidableEq, Repr

def Phase.holds : Phase → Bool
  | .waiting | .finished _ => false
  | _ => true

/-- Handled in the reader's task. -/
def Phase.inline : Phase → Bool
  | .waiting | .permitted | .sending true _ | .sent true _ => true
  | _ => false

def Phase.response : Phase → Option Bytes
  | .sending _ response | .sent _ response | .finished response => some response
  | _ => none

def Reader.holdsSender : Reader → Bool
  | .joining _ | .returned _ => false
  | _ => true

namespace Stream

variable (s : Stream)

def start : Stream := ⟨[], [], false, .length, [], [], .receiving, []⟩

/-- Permits taken. -/
def inUse : Nat := s.queries.countP (·.phase.holds)

/-- Some clone of the sender is alive. -/
def channelOpen : Bool := s.reader.holdsSender || s.queries.any (·.phase.holds)

/-- The query the reader is busy with. -/
def current : Nat := s.queries.length - 1

def setPhase (k : Nat) (phase : Phase) : Stream :=
  { s with queries := s.queries.modify k fun q => { q with phase := phase } }

def stop (result : Except String Unit) : Stream := { s with reader := .stopped result }

/-- The phase of a query, if there is one of this number. -/
def phaseAt (k : Nat) : Option Phase := s.queries[k]?.map (·.phase)

/-- The responses `handle_query` has come to. -/
def responses : List Bytes := s.queries.filterMap (·.phase.response)

end Stream

/-! ## Steps -/

def step (s : Stream) : Label → Option Stream
  | .arrives bytes =>
    if s.eof then none
    else some { s with input := s.input ++ bytes, received := s.received ++ bytes }
  | .closes => if s.eof then none else some { s with eof := true }
  -- `read_exact` of two bytes: it waits for both, or for the end
  | .readLength =>
    match s.reader, s.input with
    | .length, b0 :: b1 :: rest =>
      let len := ofBe [b0, b1]
      let s := { s with input := rest }
      -- the second test never holds for a `u16`, but the source has it
      if len = 0 ∨ maxMessageSize < len then some (s.stop (.ok ()))
      else some { s with reader := .body len }
    -- `UnexpectedEof`
    | .length, _ => if s.eof then some (s.stop (.ok ())) else none
    | _, _ => none
  | .idle =>
    match s.reader with
    | .length => some (s.stop (.ok ()))
    | _ => none
  | .readBody =>
    match s.reader with
    | .body len =>
      if len ≤ s.input.length then
        some { s with
          input := s.input.drop len, reader := .serving
          queries := s.queries ++ [⟨s.input.take len, .waiting⟩] }
      else if s.eof then some (s.stop (.error "failed to read DNS query body"))
      else none
    | _ => none
  | .stall =>
    match s.reader with
    | .body _ => some (s.stop (.error "timed out reading DNS query body"))
    | _ => none
  | .readFails =>
    match s.reader with
    | .length => some (s.stop (.error "failed to read message length prefix"))
    | .body _ => some (s.stop (.error "failed to read DNS query body"))
    | _ => none
  -- the reader itself waits for the permit, so it reads no further query
  | .acquire =>
    if s.reader = .serving ∧ s.phaseAt s.current = some .waiting ∧ s.inUse < maxConcurrentQueries then
      some (s.setPhase s.current .permitted)
    else none
  -- `poll_immediate`: a cached answer is sent from the reader's own task
  | .polls response =>
    if s.reader = .serving ∧ s.phaseAt s.current = some .permitted then
      match response with
      | some response => some (s.setPhase s.current (.sending true response))
      | none => some { s.setPhase s.current .resolving with reader := .length }
    else none
  | .resolves k response =>
    if s.phaseAt k = some .resolving then some (s.setPhase k (.sending false response)) else none
  | .sends k =>
    match s.phaseAt k with
    | some (.sending inline response) =>
      -- without a receiver the send is an error, which nobody looks at
      if s.writer = .ended then some (s.setPhase k (.sent inline response))
      else if s.channel.length < maxConcurrentQueries then
        some { s.setPhase k (.sent inline response) with channel := s.channel ++ [response] }
      else none
    | _ => none
  | .finishes k =>
    match s.phaseAt k with
    | some (.sent inline response) =>
      let s := s.setPhase k (.finished response)
      -- only the reader goes back to its loop; a task just ends
      some (if inline then { s with reader := .length } else s)
    | _ => none
  | .dropsSender =>
    match s.reader with
    | .stopped result => some { s with reader := .joining result }
    | _ => none
  | .receives =>
    match s.writer, s.channel with
    | .receiving, response :: rest =>
      match frame response with
      | some bytes => some { s with channel := rest, writer := .writing bytes }
      | none => some { s with channel := rest }
    -- `recv` gives `None` once the last sender is dropped
    | .receiving, [] => if s.channelOpen then none else some { s with writer := .ended }
    | _, _ => none
  | .writes n =>
    match s.writer with
    | .writing rest =>
      if 0 < n ∧ n ≤ rest.length then
        some { s with
          written := s.written ++ rest.take n
          writer := if n = rest.length then .flushing else .writing (rest.drop n) }
      else none
    | _ => none
  | .flushes => if s.writer = .flushing then some { s with writer := .receiving } else none
  | .writeFails =>
    match s.writer with
    | .writing _ | .flushing => some { s with writer := .ended }
    | _ => none
  | .joins =>
    match s.reader, s.writer with
    | .joining result, .ended => some { s with reader := .returned result }
    | _, _ => none

/-! ## What a step can do -/

/-- A read that is given up, or fails. -/
def Label.rough : Label → Bool
  | .idle | .stall | .readFails => true
  | _ => false

/-- The cases of `step`. -/
inductive Moves (s : Stream) : Label → Stream → Prop
  | arrives (bytes : Bytes) (hOpen : s.eof = false) :
    Moves s (.arrives bytes)
      { s with input := s.input ++ bytes, received := s.received ++ bytes }
  | closes (hOpen : s.eof = false) : Moves s .closes { s with eof := true }
  | header {b0 b1 : UInt8} {rest : Bytes} (hReader : s.reader = .length)
      (hInput : s.input = b0 :: b1 :: rest) (hLen : ofBe [b0, b1] ≠ 0) :
    Moves s .readLength { s with input := rest, reader := .body (ofBe [b0, b1]) }
  | zero {b0 b1 : UInt8} {rest : Bytes} (hReader : s.reader = .length)
      (hInput : s.input = b0 :: b1 :: rest) (hLen : ofBe [b0, b1] = 0) :
    Moves s .readLength { s with input := rest, reader := .stopped (.ok ()) }
  | last (hReader : s.reader = .length) (hInput : s.input.length < 2) (hEof : s.eof = true) :
    Moves s .readLength { s with reader := .stopped (.ok ()) }
  | query {len : Nat} (hReader : s.reader = .body len) (hLen : len ≤ s.input.length) :
    Moves s .readBody { s with
      input := s.input.drop len, reader := .serving
      queries := s.queries ++ [⟨s.input.take len, .waiting⟩] }
  | cut {len : Nat} (hReader : s.reader = .body len) (hLen : s.input.length < len)
      (hEof : s.eof = true) :
    Moves s .readBody { s with reader := .stopped (.error "failed to read DNS query body") }
  | rough {a : Label} {result : Except String Unit} (ha : a.rough)
      (hReader : s.reader = .length ∨ ∃ len, s.reader = .body len) :
    Moves s a { s with reader := .stopped result }
  | acquire (hReader : s.reader = .serving) (hPhase : s.phaseAt s.current = some .waiting) :
    Moves s .acquire (s.setPhase s.current .permitted)
  | ready {response : Bytes} (hReader : s.reader = .serving)
      (hPhase : s.phaseAt s.current = some .permitted) :
    Moves s (.polls (some response)) (s.setPhase s.current (.sending true response))
  | spawn (hReader : s.reader = .serving) (hPhase : s.phaseAt s.current = some .permitted) :
    Moves s (.polls none) { s.setPhase s.current .resolving with reader := .length }
  | resolves {k : Nat} {response : Bytes} (hPhase : s.phaseAt k = some .resolving) :
    Moves s (.resolves k response) (s.setPhase k (.sending false response))
  | sends {k : Nat} {inline : Bool} {response : Bytes}
      (hPhase : s.phaseAt k = some (.sending inline response)) (hWriter : s.writer ≠ .ended) :
    Moves s (.sends k)
      { s.setPhase k (.sent inline response) with channel := s.channel ++ [response] }
  | lost {k : Nat} {inline : Bool} {response : Bytes}
      (hPhase : s.phaseAt k = some (.sending inline response)) (hWriter : s.writer = .ended) :
    Moves s (.sends k) (s.setPhase k (.sent inline response))
  | finishes {k : Nat} {inline : Bool} {response : Bytes}
      (hPhase : s.phaseAt k = some (.sent inline response)) :
    Moves s (.finishes k)
      { s.setPhase k (.finished response) with reader := if inline then .length else s.reader }
  | dropsSender {result : Except String Unit} (hReader : s.reader = .stopped result) :
    Moves s .dropsSender { s with reader := .joining result }
  | takes {response bytes : Bytes} {rest : List Bytes} (hWriter : s.writer = .receiving)
      (hChannel : s.channel = response :: rest) (hFrame : frame response = some bytes) :
    Moves s .receives { s with channel := rest, writer := .writing bytes }
  | skips {response : Bytes} {rest : List Bytes} (hWriter : s.writer = .receiving)
      (hChannel : s.channel = response :: rest) (hFrame : frame response = none) :
    Moves s .receives { s with channel := rest }
  | ends (hWriter : s.writer = .receiving) (hChannel : s.channel = []) (hClosed : s.channelOpen = false) :
    Moves s .receives { s with writer := .ended }
  | writes {n : Nat} {rest : Bytes} (hWriter : s.writer = .writing rest) (hPos : 0 < n)
      (hLt : n < rest.length) :
    Moves s (.writes n)
      { s with written := s.written ++ rest.take n, writer := .writing (rest.drop n) }
  | writesAll {rest : Bytes} (hWriter : s.writer = .writing rest) (hPos : 0 < rest.length) :
    Moves s (.writes rest.length) { s with written := s.written ++ rest, writer := .flushing }
  | flushes (hWriter : s.writer = .flushing) : Moves s .flushes { s with writer := .receiving }
  | writeFails (hWriter : s.writer ≠ .receiving ∧ s.writer ≠ .ended) :
    Moves s .writeFails { s with writer := .ended }
  | joins {result : Except String Unit} (hReader : s.reader = .joining result)
      (hWriter : s.writer = .ended) : Moves s .joins { s with reader := .returned result }

theorem step_moves {s s' : Stream} {a : Label} (h : step s a = some s') : Moves s a s' := by
  cases a with
  | arrives bytes =>
    simp only [step, Option.ite_none_left_eq_some, Option.some.injEq] at h
    obtain ⟨hOpen, rfl⟩ := h
    exact .arrives bytes (Bool.eq_false_of_not_eq_true hOpen)
  | closes =>
    simp only [step, Option.ite_none_left_eq_some, Option.some.injEq] at h
    obtain ⟨hOpen, rfl⟩ := h
    exact .closes (Bool.eq_false_of_not_eq_true hOpen)
  | readLength =>
    simp only [step] at h
    split at h
    · rename_i b0 b1 rest hReader hInput
      split at h
      · rename_i hLen
        cases h
        -- a prefix of two bytes is never too large
        have hFits := ofBe_pair_lt b0 b1
        refine .zero hReader hInput (hLen.resolve_right fun hLarge => ?_)
        rw [maxMessageSize] at hLarge
        omega
      · rename_i hLen
        cases h
        exact .header hReader hInput fun hZero => hLen (.inl hZero)
    · rename_i hReader hShort
      simp only [Option.ite_none_right_eq_some, Option.some.injEq] at h
      obtain ⟨hEof, rfl⟩ := h
      refine .last hReader ?_ hEof
      by_contra hLong
      cases hInput : s.input with
      | nil => simp [hInput] at hLong
      | cons b0 rest =>
        cases rest with
        | nil => simp [hInput] at hLong
        | cons b1 rest => exact hShort b0 b1 rest hInput
    · cases h
  | idle =>
    simp only [step] at h
    split at h
    · rename_i hReader
      cases h
      exact .rough rfl (.inl hReader)
    · cases h
  | readBody =>
    simp only [step] at h
    split at h
    · rename_i len hReader
      split at h
      · rename_i hLen
        cases h
        exact .query hReader hLen
      · rename_i hLen
        simp only [Option.ite_none_right_eq_some, Option.some.injEq] at h
        obtain ⟨hEof, rfl⟩ := h
        exact .cut hReader (Nat.lt_of_not_le hLen) hEof
    · cases h
  | stall =>
    simp only [step] at h
    split at h
    · rename_i len hReader
      cases h
      exact .rough rfl (.inr ⟨len, hReader⟩)
    · cases h
  | readFails =>
    simp only [step] at h
    split at h
    · rename_i hReader
      cases h
      exact .rough rfl (.inl hReader)
    · rename_i len hReader
      cases h
      exact .rough rfl (.inr ⟨len, hReader⟩)
    · cases h
  | acquire =>
    simp only [step, Option.ite_none_right_eq_some, Option.some.injEq] at h
    obtain ⟨⟨hReader, hPhase, -⟩, rfl⟩ := h
    exact .acquire hReader hPhase
  | polls response =>
    simp only [step, Option.ite_none_right_eq_some] at h
    obtain ⟨⟨hReader, hPhase⟩, h⟩ := h
    cases response with
    | some response =>
      cases h
      exact .ready hReader hPhase
    | none =>
      cases h
      exact .spawn hReader hPhase
  | resolves k response =>
    simp only [step, Option.ite_none_right_eq_some, Option.some.injEq] at h
    obtain ⟨hPhase, rfl⟩ := h
    exact .resolves hPhase
  | sends k =>
    simp only [step] at h
    split at h
    · rename_i inline response hPhase
      split at h
      · rename_i hWriter
        cases h
        exact .lost hPhase hWriter
      · rename_i hWriter
        simp only [Option.ite_none_right_eq_some, Option.some.injEq] at h
        obtain ⟨-, rfl⟩ := h
        exact .sends hPhase hWriter
    · cases h
  | finishes k =>
    simp only [step] at h
    split at h
    · rename_i inline response hPhase
      cases h
      cases inline with
      | true | false => exact .finishes hPhase
    · cases h
  | dropsSender =>
    simp only [step] at h
    split at h
    · rename_i result hReader
      cases h
      exact .dropsSender hReader
    · cases h
  | receives =>
    simp only [step] at h
    split at h
    · rename_i response rest hWriter hChannel
      split at h
      · rename_i bytes hFrame
        cases h
        exact .takes hWriter hChannel hFrame
      · rename_i hFrame
        cases h
        exact .skips hWriter hChannel hFrame
    · rename_i hWriter hChannel
      simp only [Option.ite_none_left_eq_some, Option.some.injEq] at h
      obtain ⟨hClosed, rfl⟩ := h
      exact .ends hWriter hChannel (Bool.eq_false_of_not_eq_true hClosed)
    · cases h
  | writes n =>
    simp only [step] at h
    split at h
    · rename_i rest hWriter
      simp only [Option.ite_none_right_eq_some, Option.some.injEq] at h
      obtain ⟨⟨hPos, hLe⟩, rfl⟩ := h
      -- `write_all` ends with the write that takes the rest
      by_cases hAll : n = rest.length
      · subst hAll
        rw [if_pos rfl, List.take_length]
        exact .writesAll hWriter hPos
      · rw [if_neg hAll]
        exact .writes hWriter hPos (Nat.lt_of_le_of_ne hLe hAll)
    · cases h
  | flushes =>
    simp only [step, Option.ite_none_right_eq_some, Option.some.injEq] at h
    obtain ⟨hWriter, rfl⟩ := h
    exact .flushes hWriter
  | writeFails =>
    simp only [step] at h
    split at h
    · rename_i rest hWriter
      cases h
      exact .writeFails (by simp [hWriter])
    · rename_i hWriter
      cases h
      exact .writeFails (by simp [hWriter])
    · cases h
  | joins =>
    simp only [step] at h
    split at h
    · rename_i result hReader hWriter
      cases h
      exact .joins hReader hWriter
    · cases h

end DnsRs.Server
