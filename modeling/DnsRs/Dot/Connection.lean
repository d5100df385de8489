import DnsRs.Lib.Run
import DnsRs.Wire.Question

/-!
# One multiplexed DoT connection

`DotConnection` sends many queries over one TLS stream. `query` takes a permit
of the connection's semaphore, picks a message ID no pending query uses,
registers a waiter under it and queues the frame; `dot_writer` writes the
queued frames, `dot_reader` hands each response to the waiter of its ID, and
`fail` marks the connection dead and answers everything that is pending.

`step` interleaves any number of calls of `query` with the writer, the reader,
calls of `fail` and the timers of abandoned queries. One label is one access to
the dead flag or one critical section of the pending lock; `query` rechecks the
flag inside its critical section, so that section is three steps, between which
others may set the flag but nobody else can take the lock.

The peer is arbitrary: `receive` carries any frame. A panic is a state of its
own (`fault`), from which no step leads on. The connection is one that somebody
still holds: dropping the last reference is no step.
-/

namespace DnsRs.Dot

open Lib Wire

/-- `MAX_DOT_IN_FLIGHT` -/
def maxDotInFlight : Nat := 256

inductive DotFailure where
  | connection (message : String)
  | protocol (message : String)
  deriving DecidableEq, Repr

abbrev DotReply := Except DotFailure Bytes

/-- An entry of `pending`. The `reply` sender is named by the call that holds
the receiver; the permit is counted in `permits_balance`. -/
structure PendingQuery where
  call : Nat
  expectedQuestion : QuestionKey
  deriving DecidableEq, Repr

/-- `FxHashMap<u16, PendingQuery>` -/
abbrev Pending := List (Nat × PendingQuery)

/-- `pending.get(&id)` -/
def Pending.get (pending : Pending) (id : Nat) : Option PendingQuery :=
  (pending.find? fun e => e.1 == id).map Prod.snd

/-- `pending.remove(&id)`, the map afterwards -/
def Pending.remove (pending : Pending) (id : Nat) : Pending := pending.filter fun e => e.1 != id

/-- `pending.insert(id, query)` -/
def Pending.insert (pending : Pending) (id : Nat) (query : PendingQuery) : Pending :=
  (id, query) :: pending.remove id

/-- `(start..=u16::MAX).chain(0..start)` -/
def idsFrom (start : UInt16) : List Nat :=
  List.range' start.toNat (2 ^ 16 - start.toNat) ++ List.range start.toNat

/-- The first free ID from `start` on, with wrap-around. -/
def nextAvailableId (pending : Pending) (start : UInt16) : Except Fault Nat :=
  match (idsFrom start).find? fun id => (pending.get id).isNone with
  | some id => .ok id
  | none => .error .panic

/-! ## Calls of `query` -/

/-- What a call gets under the lock: its ID, its question and its frame. -/
structure Assigned where
  id : Nat
  expectedQuestion : QuestionKey
  frame : Bytes
  deriving DecidableEq, Repr

inductive Phase where
  /-- holds a permit, `query` not entered or before the first `is_alive` -/
  | reserved
  /-- past the first `is_alive` -/
  | checked
  /-- holds the pending lock -/
  | locked
  /-- holds the pending lock, past the second `is_alive` -/
  | cleared
  /-- registered, frame not yet queued -/
  | inserted
  /-- the writer is gone, `fail` comes next -/
  | stopping
  /-- at `reply_rx.await` -/
  | waiting
  | returned (reply : DotReply)
  /-- its future was dropped -/
  | dropped
  deriving DecidableEq

/-- The permit is still the call's own. -/
def Phase.holdsPermit : Phase → Bool
  | .reserved | .checked | .locked | .cleared => true
  | _ => false

structure Call where
  query : Bytes
  phase : Phase
  assigned : Option Assigned
  /-- everything that was sent into its reply channel -/
  sent : List DotReply
  deriving DecidableEq

/-- The part of `query` between the second `is_alive` and `pending.insert`. -/
def prepare (pending : Pending) (query : Bytes) (start : UInt16) :
    Except Fault (Except DotFailure Assigned) := do
  let id ← nextAvailableId pending start
  let outgoing ← setId query id
  if outgoing.length < 2 ^ 16 then do
    match ← settle (QuestionKey.fromWire outgoing) with
    | some expectedQuestion =>
      return .ok ⟨id, expectedQuestion, be16 outgoing.length ++ outgoing⟩
    | none => return .error (.protocol "query has no valid question")
  else return .error (.protocol "query too large for DoT framing")

/-! ## The connection -/

/-- A background task; `failing` is about to call `fail`. -/
inductive Task where
  | running
  | failing (error : DotFailure)
  | ended
  deriving DecidableEq

/-- Where the first `fail` call stands. -/
inductive Drain where
  | idle
  | owed (error : DotFailure)
  | done
  deriving DecidableEq

structure DotConnection where
  /-- queued frames, each with the call that queued it -/
  writes : List (Nat × Bytes)
  pending : Pending
  lockedBy : Option Nat
  /-- permits left in `capacity` -/
  available : Nat
  dead : Bool
  closed : Bool
  drain : Drain
  writer : Task
  reader : Task
  /-- sleeping timers of dropped guards, by the guard's ID -/
  timers : List Nat
  /-- timers that found their query abandoned and are about to call `fail` -/
  due : Nat
  calls : List Call
  fault : Option Fault

namespace DotConnection

/-- `DotConnection::start` -/
def start : DotConnection where
  writes := []
  pending := []
  lockedBy := none
  available := maxDotInFlight
  dead := false
  closed := false
  drain := .idle
  writer := .running
  reader := .running
  timers := []
  due := 0
  calls := []
  fault := none

def phase? (c : DotConnection) (n : Nat) : Option Phase := (c.calls[n]?).map Call.phase

def goto (c : DotConnection) (n : Nat) (phase : Phase) : DotConnection :=
  { c with calls := c.calls.modify n fun call => { call with phase := phase } }

/-- A dropped permit goes back to the semaphore. -/
def giveBack (c : DotConnection) : DotConnection := { c with available := c.available + 1 }

def unlock (c : DotConnection) : DotConnection := { c with lockedBy := none }

def crash (c : DotConnection) (fault : Fault) : DotConnection := { c with fault := some fault }

/-- The first half of `fail`: `dead.swap(true)`, and for the first caller
`closed.cancel()`; the drain is then its duty. -/
def swapDead (c : DotConnection) (error : DotFailure) : DotConnection :=
  { c with
    dead := true
    closed := if c.dead then c.closed else true
    drain := if c.dead then c.drain else .owed error }

end DotConnection

/-- `reply.send(..)` into the channel of call `n` -/
def sendReply (calls : List Call) (n : Nat) (reply : DotReply) : List Call :=
  calls.modify n fun call => { call with sent := call.sent ++ [reply] }

/-- The loop over `pending.drain()`. -/
def sendAll (error : DotFailure) : Pending → List Call → List Call
  | [], calls => calls
  | e :: pending, calls => sendAll error pending (sendReply calls e.2.call (.error error))

/-- `Err(DotFailure::Connection("DoT connection closed"))` -/
def closedReply : DotReply := .error (.connection "DoT connection closed")

/-- What `dot_reader` does with a complete frame. -/
inductive Branch where
  | empty
  | short
  | answered (n : Nat)
  | mismatch (n : Nat)
  | unexpected
  deriving DecidableEq

/-- `wire.get(2).is_some_and(|flags| flags & 0x80 != 0)` -/
def qrSet (wire : Bytes) : Bool := (wire[2]?).any fun flags => flags &&& 0x80 != 0

/-- The ID of a response. -/
def responseId (wire : Bytes) : Nat := ofBe (readAt wire 0 2)

/-- The branch `dot_reader` takes for a frame with these pending queries. -/
def readerBranch (pending : Pending) (wire : Bytes) : Except Fault Branch :=
  if wire.length = 0 then .ok .empty
  else if wire.length < 2 then .ok .short
  else match pending.get (responseId wire) with
    | none => .ok .unexpected
    | some entry =>
      if qrSet wire then do
        if ← entry.expectedQuestion.matches wire then return .answered entry.call
        else return .mismatch entry.call
      else .ok (.mismatch entry.call)

/-! ## Steps -/

inductive Label where
  /-- a caller gets a permit for `query` -/
  | reserve (query : Bytes)
  | check (n : Nat)
  | lock (n : Nat)
  | recheck (n : Nat)
  /-- `start` is the random ID to search from -/
  | insert (n : Nat) (start : UInt16)
  | send (n : Nat)
  | stop (n : Nat)
  | deliver (n : Nat)
  | cancel (n : Nat)
  /-- the writer's next frame is written, or fails with `error` -/
  | write
  | writeError (error : String)
  | writerFail
  | writerClosed
  /-- a complete frame arrives -/
  | receive (wire : Bytes)
  /-- reading a length or a body fails or times out -/
  | readError (error : DotFailure)
  | readerFail
  | readerClosed
  | drain
  /-- the timer of a dropped guard wakes up -/
  | timer (id : Nat)
  | timerFail
  /-- any other caller of `fail` (the keepalive probe) -/
  | fail (error : DotFailure)
  deriving DecidableEq

namespace DotConnection

/-- The reply channel's receiver is gone. -/
def isClosed (c : DotConnection) (n : Nat) : Bool := c.phase? n == some .dropped

/-- The locked section of `dot_reader` and what follows it up to `fail`. -/
def receive (c : DotConnection) (wire : Bytes) : DotConnection :=
  match readerBranch c.pending wire with
  | .error fault => c.crash fault
  | .ok .empty => { c with reader := .failing (.protocol "empty DoT response") }
  | .ok .short => { c with reader := .failing (.protocol "short DoT response") }
  | .ok (.answered n) =>
    { c.giveBack with
      pending := c.pending.remove (responseId wire)
      calls := sendReply c.calls n (.ok wire) }
  | .ok (.mismatch n) =>
    let id := responseId wire
    { c.giveBack with
      pending := c.pending.remove id
      calls := sendReply c.calls n
        (.error (.protocol s!"DoT response question mismatch for ID {id}"))
      reader := .failing (.connection "DoT connection closed after response question mismatch") }
  | .ok .unexpected =>
    let id := responseId wire
    { c with reader := .failing (.protocol s!"unexpected DoT response ID {id}") }

/-- The rest of the locked section of `query`, up to its end. -/
def insert (c : DotConnection) (n : Nat) (query : Bytes) (start : UInt16) : DotConnection :=
  match prepare c.pending query start with
  | .error fault => c.crash fault
  | .ok (.error failure) => (c.goto n (.returned (.error failure))).giveBack.unlock
  | .ok (.ok a) =>
    { c.unlock with
      pending := c.pending.insert a.id ⟨n, a.expectedQuestion⟩
      calls := c.calls.modify n fun call => { call with phase := .inserted, assigned := some a } }

/-- One step of a call of `query`. -/
def stepCall (c : DotConnection) (n : Nat) (call : Call) : Label → Option DotConnection
  | .check _ =>
    if call.phase = .reserved then
      some (if c.dead then (c.goto n (.returned closedReply)).giveBack else c.goto n .checked)
    else none
  | .lock _ =>
    if call.phase = .checked ∧ c.lockedBy = none then
      some { c.goto n .locked with lockedBy := some n }
    else none
  | .recheck _ =>
    if call.phase = .locked then
      some (if c.dead then (c.goto n (.returned closedReply)).giveBack.unlock
        else c.goto n .cleared)
    else none
  | .insert _ start =>
    if call.phase = .cleared then some (c.insert n call.query start) else none
  | .send _ =>
    match call.phase, call.assigned with
    | .inserted, some a =>
      -- the channel is open as long as the writer task holds the receiver
      some (if c.writer = .ended then c.goto n .stopping
        else { c.goto n .waiting with writes := c.writes ++ [(n, a.frame)] })
    | _, _ => none
  | .stop _ =>
    if call.phase = .stopping then
      some ((c.swapDead (.connection "DoT writer stopped")).goto n .waiting)
    else none
  | .deliver _ =>
    if call.phase = .waiting then
      match call.sent with
      | reply :: _ => some (c.goto n (.returned reply))
      | [] =>
        -- the sender was dropped without a reply
        if c.pending.any fun e => e.2.call == n then none
        else some (c.goto n (.returned closedReply))
    else none
  | .cancel _ =>
    match call.phase, call.assigned with
    | .reserved, _ => some (c.goto n .dropped).giveBack
    | .waiting, some a => some { c.goto n .dropped with timers := c.timers ++ [a.id] }
    | _, _ => none
  | _ => none

/-- One step of the writer, the reader, a timer or a caller of `fail`. -/
def stepTask (c : DotConnection) : Label → Option DotConnection
  | .reserve query =>
    if 0 < c.available then
      some { c with
        available := c.available - 1
        calls := c.calls ++ [⟨query, .reserved, none, []⟩] }
    else none
  | .write =>
    match c.writer, c.writes with
    | .running, _ :: writes => some { c with writes := writes }
    | _, _ => none
  | .writeError error =>
    match c.writer, c.writes with
    | .running, _ :: writes =>
      some { c with
        writes := writes
        writer := .failing (.connection s!"failed to write DoT query: {error}") }
    | _, _ => none
  | .writerFail =>
    match c.writer with
    | .failing error => some { c.swapDead error with writer := .ended }
    | _ => none
  | .writerClosed =>
    if c.writer = .running ∧ c.closed then some { c with writer := .ended } else none
  | .receive wire =>
    if c.reader = .running ∧ c.lockedBy = none then some (c.receive wire) else none
  | .readError error =>
    if c.reader = .running then some { c with reader := .failing error } else none
  | .readerFail =>
    match c.reader with
    | .failing error => some { c.swapDead error with reader := .ended }
    | _ => none
  | .readerClosed =>
    if c.reader = .running ∧ c.closed then some { c with reader := .ended } else none
  | .drain =>
    match c.drain, c.lockedBy with
    | .owed error, none =>
      some { c with
        drain := .done
        pending := []
        available := c.available + c.pending.length
        calls := sendAll error c.pending c.calls }
    | _, _ => none
  | .timer id =>
    if id ∈ c.timers ∧ c.lockedBy = none then
      some { c with
        timers := c.timers.erase id
        due := if (c.pending.get id).any fun entry => c.isClosed entry.call then c.due + 1
          else c.due }
    else none
  | .timerFail =>
    if 0 < c.due then
      some { c.swapDead
          (.connection "DoT connection closed after an abandoned query timed out") with
        due := c.due - 1 }
    else none
  | .fail error => some (c.swapDead error)
  | _ => none

end DotConnection

/-- The call a label is a step of. -/
def Label.call? : Label → Option Nat
  | .check n | .lock n | .recheck n | .insert n _ | .send n | .stop n | .deliver n | .cancel n =>
    some n
  | _ => none

/-- One step of the connection; none after a panic. -/
def step (c : DotConnection) (label : Label) : Option DotConnection :=
  if c.fault = none then
    match label.call? with
    | some n => (c.calls[n]?).bind fun call => c.stepCall n call label
    | none => c.stepTask label
  else none

end DnsRs.Dot
