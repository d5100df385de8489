import DnsRs.Dot.Shutdown

/-!
# A well-behaved peer

The peer answers each query frame at most once, in any order and at any later
time, with the frame's ID, QR set and its question up to ASCII case. A query
that is cancelled keeps its ID and its entry until its response arrives. `fail`
sets the dead flag first and drains the entries later, and in between they are
all still there. So until the drain a response finds the entry of exactly the
query it answers (`response_finds_its_query`), and reading it neither ends the
reader nor fails the connection.

Cancelling a query also starts a timer that fails the connection when no
response has come in time. A reader that has already taken a late response off
the stream finds the entries drained then (`late_response_unexpected`); the
connection is dead by that time for the timer's reason. A response is never
taken for another query's.
-/

namespace DnsRs.Dot

open Lib Wire DotConnection

/-- The connection, and the frames written to the peer that it has not
answered, each with its call. -/
structure Exchange where
  conn : DotConnection
  unanswered : List (Nat × Bytes)

inductive Event where
  /-- a step of this side -/
  | own (label : Label)
  /-- the peer's response to the frame of call `n` is read -/
  | respond (n : Nat) (response : Bytes)

def Exchange.start : Exchange := ⟨.start, []⟩

/-- One step of either side. -/
def peerStep (s : Exchange) : Event → Option Exchange
  | .own .write => (step s.conn .write).map fun c =>
      ⟨c, s.conn.writes.head?.toList ++ s.unanswered⟩
  | .own label => (step s.conn label).map fun c => ⟨c, s.unanswered⟩
  | .respond n response => (step s.conn (.receive response)).map fun c =>
      ⟨c, s.unanswered.filter fun f => f.1 != n⟩

/-- Frames come from the peer only, and each answers a frame that has been
written and not answered. -/
def WellBehaved (s : Exchange) : Event → Prop
  | .own (.receive _) => False
  | .own _ => True
  | .respond n response => ∃ frame, (n, frame) ∈ s.unanswered ∧ Answers (frame.drop 2) response

/-! ## Frames on their way have their entries -/

/-- The frames that are queued or on the wire. -/
def Exchange.frames (s : Exchange) : List (Nat × Bytes) := s.conn.writes ++ s.unanswered

/-- Call `n` is pending, with the frame `frame`. -/
def Registered (c : DotConnection) (n : Nat) (frame : Bytes) : Prop :=
  ∃ call a, c.calls[n]? = some call ∧ call.assigned = some a ∧ a.frame = frame ∧
    (a.id, ⟨n, a.expectedQuestion⟩) ∈ c.pending

/-- The call has not queued its frame yet. -/
def Phase.unqueued : Phase → Bool
  | .reserved | .checked | .locked | .cleared | .inserted => true
  | _ => false

/-- What holds until the entries are drained. -/
structure Paired (s : Exchange) : Prop where
  registered : ∀ f ∈ s.frames, Registered s.conn f.1 f.2
  inserted : ∀ (n : Nat) (call : Call) (a : Assigned), s.conn.calls[n]? = some call →
    call.phase = .inserted → call.assigned = some a → Registered s.conn n a.frame
  once : (s.frames.map Prod.fst).Nodup
  unqueued : ∀ (n : Nat) (call : Call), s.conn.calls[n]? = some call →
    call.phase.unqueued = true → n ∉ s.frames.map Prod.fst

/-- With distinct IDs the entry that is there is the one that is found. -/
theorem get_of_mem {pending : Pending} {id : Nat} {p : PendingQuery}
    (hIds : (pending.map Prod.fst).Nodup) (h : (id, p) ∈ pending) : pending.get id = some p := by
  cases hGet : pending.get id with
  | none =>
    have := get_isNone_iff.mp (Option.isNone_iff_eq_none.mpr hGet)
    exact absurd (List.mem_map_of_mem h) this
  | some q =>
    have := List.inj_on_of_nodup_map hIds (mem_of_get hGet) h rfl
    rw [(Prod.mk.inj this).2]

/-- An assigned query starts with its ID. -/
theorem Assigned.Fits.frame_drop {a : Assigned} {query : Bytes} (h : a.Fits query) :
    QuestionKey.fromWire (a.frame.drop 2) = .ok a.expectedQuestion ∧
      ofBe (readAt (a.frame.drop 2) 0 2) = a.id := by
  obtain ⟨outgoing, hOut, -, hKey, hFrame⟩ := h.outgoing
  have hDrop : a.frame.drop 2 = outgoing := by
    rw [hFrame]
    rfl
  rw [hDrop]
  refine ⟨hKey, ?_⟩
  -- a message with a question is long enough to have an ID
  obtain ⟨span, hSpan, -, -⟩ := fromWire_question hKey
  have hLong := (questionSpan_eq_ok.mp hSpan).1
  have hHeader : headerLen = 12 := rfl
  obtain ⟨wire', hWire, hLen, -, hId⟩ := setId_total query a.id
  rw [hWire] at hOut
  cases hOut
  exact hId (by omega) h.id_lt

/-- A response to a registered frame is answered to its call. -/
theorem readerBranch_of_answers {c : DotConnection} (hBook : Book c) {n : Nat}
    {frame response : Bytes} (hReg : Registered c n frame)
    (hAnswers : Answers (frame.drop 2) response) :
    readerBranch c.pending response = .ok (.answered n) ∧
      ∃ call a, c.calls[n]? = some call ∧ call.assigned = some a ∧ a.frame = frame ∧
        (a.id, ⟨n, a.expectedQuestion⟩) ∈ c.pending ∧ a.id = responseId response := by
  obtain ⟨call, a, hn, hAssigned, rfl, hMem⟩ := hReg
  obtain ⟨hKey, hId⟩ := ((hBook.calls n call hn).fits a hAssigned).frame_drop
  obtain ⟨flags, hFlags, hQr⟩ := hAnswers.qr
  have hLong : 2 < response.length := (List.getElem?_eq_some_iff.mp hFlags).1
  -- the response has the ID of the frame, which is the one assigned
  have hResponseId : responseId response = a.id := by
    rw [responseId, hAnswers.id, hId]
  have hQrSet : qrSet response = true := by
    rw [qrSet, hFlags]
    simpa using hQr
  refine ⟨?_, call, a, hn, hAssigned, rfl, hMem, hResponseId.symm⟩
  rw [readerBranch, if_neg (by omega), if_neg (by omega), hResponseId, get_of_mem hBook.ids hMem]
  simp only [hQrSet, if_true, matches_of_answers hAnswers hKey, ok_bind, pure_eq_ok]

/-- Reading a frame is not yet the call of `fail` that it may lead to. -/
theorem receive_dead {c c' : DotConnection} {wire : Bytes} (hMoves : Moves c (.receive wire) c') :
    c'.dead = c.dead ∧ c'.drain = c.drain := by
  cases hMoves <;> exact ⟨rfl, rfl⟩

/-- `fail` leaves the drain to be done. -/
theorem Shut.undrained_of_swapDead {c : DotConnection} {error : DotFailure} (h : Shut c)
    (hDrain : (c.swapDead error).drain ≠ .done) : c.drain ≠ .done := by
  intro hDone
  have hDead := h.dead (by rw [hDone]; exact nofun)
  exact hDrain (by rw [DotConnection.swapDead]; simp only [hDead, if_true, hDone])

/-- A response that is answered to a call ends neither the reader nor the
connection. -/
theorem receive_answered {c c' : DotConnection} {wire : Bytes} {n : Nat}
    (hBranch : readerBranch c.pending wire = .ok (.answered n))
    (hMoves : Moves c (.receive wire) c') :
    c' = { c.giveBack with
      pending := c.pending.remove (responseId wire)
      calls := sendReply c.calls n (.ok wire) } := by
  cases hMoves with
  | receiveFault hReader hLock hFault =>
    rw [hBranch] at hFault
    cases hFault
  | receiveAnswered hReader hLock hAnswered =>
    rw [hBranch] at hAnswered
    cases hAnswered
    rfl
  | receiveMismatch hReader hLock hMismatch =>
    rw [hBranch] at hMismatch
    cases hMismatch
  | receiveOther hReader hLock hOther hNot =>
    rw [hBranch] at hOther
    cases hOther
    simp at hNot

section PairedSteps

variable {s : Exchange} {c' : DotConnection} {n : Nat} {call : Call}

/-- A registered call stays so when calls keep what they were assigned and its
entry stays. -/
theorem Registered.keep {c : DotConnection} {frame : Bytes} (h : Registered c n frame)
    (hCalls : ∀ call, c.calls[n]? = some call →
      ∃ call', c'.calls[n]? = some call' ∧ call'.assigned = call.assigned)
    (hPending : ∀ id p, (id, p) ∈ c.pending → p.call = n → (id, p) ∈ c'.pending) :
    Registered c' n frame := by
  obtain ⟨call, a, hn, hAssigned, hFrame, hMem⟩ := h
  obtain ⟨call', hn', hSame⟩ := hCalls call hn
  exact ⟨call', a, hn', hSame.trans hAssigned, hFrame, hPending _ _ hMem rfl⟩

theorem modify_keeps {calls : List Call} {f : Call → Call} {m : Nat}
    (hf : ∀ call, (f call).assigned = call.assigned) (hm : calls[m]? = some call) :
    ∃ call', (calls.modify n f)[m]? = some call' ∧ call'.assigned = call.assigned := by
  by_cases hEq : m = n
  · subst hEq
    exact ⟨f call, getElem?_modify_self hm, hf call⟩
  · exact ⟨call, (List.getElem?_modify_ne _ _ (Ne.symm hEq)).trans hm, rfl⟩

/-- A call moves to a phase other than `inserted`. -/
theorem Paired.goto (h : Paired s) (hn : s.conn.calls[n]? = some call) (phase : Phase)
    (hNot : phase ≠ .inserted) (hEarly : phase.unqueued = true → call.phase.unqueued = true)
    (hPending : c'.pending = s.conn.pending)
    (hCalls : c'.calls = s.conn.calls.modify n fun call => { call with phase := phase })
    (hWrites : c'.writes = s.conn.writes) : Paired ⟨c', s.unanswered⟩ := by
  have hFrames : Exchange.frames ⟨c', s.unanswered⟩ = s.frames := by
    rw [Exchange.frames, Exchange.frames, hWrites]
  have hReg : ∀ {m frame}, Registered s.conn m frame → Registered c' m frame := by
    intro m frame hReg
    refine hReg.keep (fun call hm => ?_) fun _ _ hMem _ => by rw [hPending]; exact hMem
    rw [hCalls]
    exact modify_keeps (fun _ => rfl) hm
  constructor
  case registered => exact fun f hf => hReg (h.registered f (hFrames ▸ hf))
  case inserted =>
    intro m call' a hm hPhase hAssigned
    rw [hCalls] at hm
    rcases getElem?_modify_cases hn hm with ⟨rfl, rfl⟩ | ⟨-, hm⟩
    · exact absurd hPhase hNot
    · exact hReg (h.inserted m call' a hm hPhase hAssigned)
  case once =>
    rw [hFrames]
    exact h.once
  case unqueued =>
    intro m call' hm hPhase
    rw [hFrames]
    rw [hCalls] at hm
    rcases getElem?_modify_cases hn hm with ⟨rfl, rfl⟩ | ⟨-, hm⟩
    · exact h.unqueued m call hn (hEarly hPhase)
    · exact h.unqueued m call' hm hPhase

theorem Paired.reserve (h : Paired s) (query : Bytes) :
    Paired ⟨{ s.conn with
      available := s.conn.available - 1
      calls := s.conn.calls ++ [⟨query, .reserved, none, []⟩] }, s.unanswered⟩ := by
  have hReg : ∀ {m frame}, Registered s.conn m frame →
      Registered { s.conn with
        available := s.conn.available - 1
        calls := s.conn.calls ++ [⟨query, .reserved, none, []⟩] } m frame := by
    intro m frame hReg
    refine hReg.keep (fun call hm => ⟨call, ?_, rfl⟩) fun _ _ hMem _ => hMem
    exact (List.getElem?_append_left (List.getElem?_eq_some_iff.mp hm).1).trans hm
  constructor
  case registered => exact fun f hf => hReg (h.registered f hf)
  case inserted =>
    intro m call' a hm hPhase hAssigned
    rcases getElem?_append_one hm with hm | ⟨-, rfl⟩
    · exact hReg (h.inserted m call' a hm hPhase hAssigned)
    · cases hPhase
  case once => exact h.once
  case unqueued =>
    intro m call' hm hPhase
    by_cases hLt : m < s.conn.calls.length
    · rw [List.getElem?_append_left hLt] at hm
      exact h.unqueued m call' hm hPhase
    · -- the frames are those of calls that were there before
      intro hMem
      obtain ⟨f, hf, rfl⟩ := List.mem_map.mp hMem
      obtain ⟨call, a, hn, -⟩ := h.registered f hf
      exact hLt (List.getElem?_eq_some_iff.mp hn).1

/-- A call registers: it has no frame yet, and its entry is new. -/
theorem Paired.insert (h : Paired s) (hn : s.conn.calls[n]? = some call)
    (hPhase : call.phase = .cleared) {a : Assigned}
    (hFree : a.id ∉ s.conn.pending.map Prod.fst) :
    Paired ⟨{ s.conn.unlock with
      pending := s.conn.pending.insert a.id ⟨n, a.expectedQuestion⟩
      calls := s.conn.calls.modify n fun call =>
        { call with phase := .inserted, assigned := some a } }, s.unanswered⟩ := by
  have hInsert := insert_of_not_mem hFree ⟨n, a.expectedQuestion⟩
  -- its frame is queued only after it has registered
  have hNew := h.unqueued n call hn (by rw [hPhase]; rfl)
  have hReg : ∀ {m frame}, m ≠ n → Registered s.conn m frame →
      Registered { s.conn.unlock with
        pending := s.conn.pending.insert a.id ⟨n, a.expectedQuestion⟩
        calls := s.conn.calls.modify n fun call =>
          { call with phase := .inserted, assigned := some a } } m frame := by
    intro m frame hNe hReg
    refine hReg.keep (fun call hm => ⟨call, (List.getElem?_modify_ne _ _ (Ne.symm hNe)).trans hm, rfl⟩) ?_
    intro _ _ hMem _
    rw [hInsert]
    exact List.mem_cons_of_mem _ hMem
  constructor
  case registered =>
    intro f hf
    exact hReg (fun hEq => hNew (hEq ▸ List.mem_map_of_mem hf)) (h.registered f hf)
  case inserted =>
    intro m call' a' hm hPhase' hAssigned
    rcases getElem?_modify_cases hn hm with ⟨rfl, rfl⟩ | ⟨hNe, hm⟩
    · cases hAssigned
      refine ⟨_, a, getElem?_modify_self hn, rfl, rfl, ?_⟩
      rw [hInsert]
      exact List.mem_cons_self
    · exact hReg hNe (h.inserted m call' a' hm hPhase' hAssigned)
  case once => exact h.once
  case unqueued =>
    intro m call' hm hPhase'
    rcases getElem?_modify_cases hn hm with ⟨rfl, rfl⟩ | ⟨-, hm⟩
    · exact hNew
    · exact h.unqueued m call' hm hPhase'

/-- A registered call queues its frame. -/
theorem Paired.send (h : Paired s) (hn : s.conn.calls[n]? = some call)
    (hPhase : call.phase = .inserted) {a : Assigned} (hAssigned : call.assigned = some a) :
    Paired ⟨{ s.conn.goto n .waiting with writes := s.conn.writes ++ [(n, a.frame)] },
      s.unanswered⟩ := by
  have hMoved : Paired ⟨s.conn.goto n .waiting, s.unanswered⟩ :=
    h.goto hn .waiting nofun nofun rfl rfl rfl
  have hNew : n ∉ s.frames.map Prod.fst := h.unqueued n call hn (by rw [hPhase]; rfl)
  -- in whatever order, there is one frame more
  have hFrames : (Exchange.frames
      ⟨{ s.conn.goto n .waiting with writes := s.conn.writes ++ [(n, a.frame)] }, s.unanswered⟩).Perm
        ((n, a.frame) :: s.frames) := by
    simp only [Exchange.frames, List.append_assoc, List.singleton_append]
    exact List.perm_middle
  constructor
  case registered =>
    intro f hf
    rcases List.mem_cons.mp (hFrames.mem_iff.mp hf) with rfl | hf
    · refine (h.inserted n call a hn hPhase hAssigned).keep (fun call' hm => ?_) fun _ _ hMem _ => hMem
      exact modify_keeps (fun _ => rfl) hm
    · exact hMoved.registered f hf
  case inserted => exact hMoved.inserted
  case once =>
    rw [(hFrames.map Prod.fst).nodup_iff]
    exact List.nodup_cons.mpr ⟨hNew, h.once⟩
  case unqueued =>
    intro m call' hm hEarly hMem
    rw [(hFrames.map Prod.fst).mem_iff, List.map_cons, List.mem_cons] at hMem
    rcases hMem with rfl | hMem
    · rcases getElem?_modify_cases hn hm with ⟨-, rfl⟩ | ⟨hNe, -⟩
      · cases hEarly
      · exact absurd rfl hNe
    · exact hMoved.unqueued m call' hm hEarly hMem

/-- Frames move from the queue to the wire, or are lost. -/
theorem Paired.of_subperm (h : Paired s) {unanswered : List (Nat × Bytes)}
    (hPending : c'.pending = s.conn.pending) (hCalls : c'.calls = s.conn.calls)
    (hFrames : (c'.writes ++ unanswered).Subperm s.frames) : Paired ⟨c', unanswered⟩ := by
  have hReg : ∀ {m frame}, Registered s.conn m frame → Registered c' m frame := by
    intro m frame hReg
    exact hReg.keep (fun call hm => ⟨call, by rw [hCalls]; exact hm, rfl⟩)
      fun _ _ hMem _ => by rw [hPending]; exact hMem
  have hFst : ((c'.writes ++ unanswered).map Prod.fst).Subperm (s.frames.map Prod.fst) := by
    obtain ⟨l, hPerm, hSub⟩ := hFrames
    exact ⟨l.map Prod.fst, hPerm.map _, hSub.map _⟩
  constructor
  case registered => exact fun f hf => hReg (h.registered f (hFrames.subset hf))
  case inserted =>
    intro m call a hm hPhase hAssigned
    exact hReg (h.inserted m call a (hCalls ▸ hm) hPhase hAssigned)
  case once =>
    obtain ⟨l, hPerm, hSub⟩ := hFst
    exact hPerm.nodup_iff.mp (h.once.sublist hSub)
  case unqueued =>
    intro m call hm hPhase hMem
    exact h.unqueued m call (hCalls ▸ hm) hPhase (hFst.subset hMem)

/-- Steps that leave calls, entries and frames alone. -/
theorem Paired.congr (h : Paired s) (hPending : c'.pending = s.conn.pending)
    (hCalls : c'.calls = s.conn.calls) (hWrites : c'.writes = s.conn.writes) :
    Paired ⟨c', s.unanswered⟩ := by
  refine h.of_subperm hPending hCalls ?_
  rw [hWrites]
  exact List.Subperm.refl _

/-- The response to a frame is handed to its call. -/
theorem Paired.answered (h : Paired s) (hBook : Book s.conn) {response frame : Bytes}
    (hMem : (n, frame) ∈ s.unanswered) (hAnswers : Answers (frame.drop 2) response)
    (hPending : c'.pending = s.conn.pending.remove (responseId response))
    (hCalls : c'.calls = sendReply s.conn.calls n (.ok response))
    (hWrites : c'.writes = s.conn.writes) :
    Paired ⟨c', s.unanswered.filter fun f => f.1 != n⟩ := by
  have hFrame : (n, frame) ∈ s.frames := List.mem_append_right _ hMem
  obtain ⟨-, call, a, hn, -, -, hEntry, hId⟩ :=
    readerBranch_of_answers hBook (h.registered _ hFrame) hAnswers
  have hReg : ∀ {m frame'}, m ≠ n → Registered s.conn m frame' → Registered c' m frame' := by
    intro m frame' hNe hReg
    refine hReg.keep (fun call hm => ?_) fun id p hMem' hCall => ?_
    · rw [hCalls]
      exact modify_keeps (fun _ => rfl) hm
    · rw [hPending]
      refine mem_remove.mpr ⟨hMem', fun hEq => hNe ?_⟩
      -- the entry of the answered ID is the one of call `n`
      have := List.inj_on_of_nodup_map hBook.ids hMem' hEntry (hEq.trans hId.symm)
      rw [← hCall, (Prod.mk.inj this).2]
  have hSub : (c'.writes ++ s.unanswered.filter fun f => f.1 != n).Sublist s.frames := by
    rw [hWrites]
    exact (List.Sublist.refl _).append List.filter_sublist
  have hGone : ∀ f ∈ c'.writes ++ s.unanswered.filter fun f => f.1 != n, f.1 ≠ n := by
    intro f hf hEq
    rcases List.mem_append.mp hf with hf | hf
    · -- the call's only frame is on the wire, not in the queue
      have hDisjoint := h.once
      rw [Exchange.frames, List.map_append] at hDisjoint
      rw [hWrites] at hf
      exact (List.disjoint_of_nodup_append hDisjoint) (List.mem_map_of_mem hf)
        (hEq ▸ List.mem_map_of_mem hMem)
    · have := (List.mem_filter.mp hf).2
      simp [hEq] at this
  constructor
  case registered => exact fun f hf => hReg (hGone f hf) (h.registered f (hSub.subset hf))
  case inserted =>
    intro m call' a' hm hPhase hAssigned'
    rw [hCalls] at hm
    rcases getElem?_modify_cases hn hm with ⟨rfl, rfl⟩ | ⟨hNe, hm⟩
    · -- an inserted call has no frame yet, so none that is answered
      have hEarly : call.phase.unqueued = true := by
        rw [show call.phase = .inserted from hPhase]
        rfl
      exact absurd (List.mem_map_of_mem hFrame) (h.unqueued m call hn hEarly)
    · exact hReg hNe (h.inserted m call' a' hm hPhase hAssigned')
  case once => exact h.once.sublist (hSub.map Prod.fst)
  case unqueued =>
    intro m call' hm hPhase hMem'
    rw [hCalls] at hm
    obtain ⟨f, hf, rfl⟩ := List.mem_map.mp hMem'
    rcases getElem?_modify_cases hn hm with ⟨hEq, -⟩ | ⟨-, hm⟩
    · exact hGone f hf hEq
    · exact h.unqueued _ call' hm hPhase (List.mem_map_of_mem (hSub.subset hf))

/-- A step of this side other than writing a frame. -/
theorem paired_own {label : Label} (hShut : Shut s.conn) (h : s.conn.drain ≠ .done → Paired s)
    (hMoves : Moves s.conn label c') (hWrite : label ≠ .write)
    (hReceive : ∀ wire, label ≠ .receive wire) (hDrain : c'.drain ≠ .done) :
    Paired ⟨c', s.unanswered⟩ := by
  cases hMoves with
  | reserve hAvail => exact (h hDrain).reserve _
  | check hn hPhase hDead =>
    exact (h hDrain).goto hn .checked nofun (fun _ => by rw [hPhase]; rfl) rfl rfl rfl
  | checkDead hn | recheckDead hn | deliverClosed hn =>
    exact (h hDrain).goto hn (.returned closedReply) nofun nofun rfl rfl rfl
  | lock hn hPhase hLock =>
    exact (h hDrain).goto hn .locked nofun (fun _ => by rw [hPhase]; rfl) rfl rfl rfl
  | recheck hn hPhase hDead =>
    exact (h hDrain).goto hn .cleared nofun (fun _ => by rw [hPhase]; rfl) rfl rfl rfl
  | insert hn hPhase hPrepare => exact (h hDrain).insert hn hPhase (prepare_fits hPrepare).1
  | insertRefused hn hPhase hPrepare =>
    exact (h hDrain).goto hn (.returned (.error _)) nofun nofun rfl rfl rfl
  | send hn hPhase hAssigned hWriter => exact (h hDrain).send hn hPhase hAssigned
  | sendStopped hn hPhase hAssigned hWriter =>
    exact (h hDrain).goto hn .stopping nofun nofun rfl rfl rfl
  | deliver hn hPhase hSent => exact (h hDrain).goto hn (.returned _) nofun nofun rfl rfl rfl
  | cancelReserved hn | cancelWaiting hn =>
    exact (h hDrain).goto hn .dropped nofun nofun rfl rfl rfl
  | writeError hWriter hWrites =>
    refine (h hDrain).of_subperm rfl rfl (List.Sublist.subperm ?_)
    rw [Exchange.frames, hWrites]
    exact (List.sublist_cons_self _ _).append (List.Sublist.refl _)
  | insertFault | writerClosed | readError | readerClosed | timer =>
    exact (h hDrain).congr rfl rfl rfl
  | write => exact absurd rfl hWrite
  | receiveFault | receiveAnswered | receiveMismatch | receiveOther => exact absurd rfl (hReceive _)
  | drain hOwed hLock => exact absurd rfl hDrain
  -- setting the flag leaves the entries where they are
  | stop hn hPhase =>
    exact (h (hShut.undrained_of_swapDead hDrain)).goto hn .waiting nofun nofun rfl rfl rfl
  | writerFail | readerFail | timerFail | fail =>
    exact (h (hShut.undrained_of_swapDead hDrain)).congr rfl rfl rfl

end PairedSteps

/-- The bookkeeping, and the frames until the drain. -/
structure PeerInv (s : Exchange) : Prop where
  book : Book s.conn
  shut : Shut s.conn
  paired : s.conn.drain ≠ .done → Paired s

/-- **Step.** -/
theorem peerInv_step {s t : Exchange} {event : Event} (h : PeerInv s)
    (hGuard : WellBehaved s event) (hStep : peerStep s event = some t) : PeerInv t := by
  have hLocal : ∀ {label : Label} {c' : DotConnection}, step s.conn label = some c' →
      Book c' ∧ Shut c' :=
    fun hStep => ⟨book_step h.book hStep, shut_step h.book h.shut hStep⟩
  cases event with
  | own label =>
    by_cases hWrite : label = .write
    · subst hWrite
      obtain ⟨c', hc', rfl⟩ := Option.map_eq_some_iff.mp hStep
      obtain ⟨hBook, hShut⟩ := hLocal hc'
      refine ⟨hBook, hShut, fun hDrain => ?_⟩
      obtain ⟨-, hMoves⟩ := step_moves hc'
      cases hMoves with
      | @write frame writes hWriter hWrites =>
        refine (h.paired hDrain).of_subperm rfl rfl (List.Perm.subperm ?_)
        rw [Exchange.frames, hWrites]
        exact List.perm_middle
    · have hOwn : peerStep s (.own label) = (step s.conn label).map fun c => ⟨c, s.unanswered⟩ := by
        cases label <;> first | rfl | exact absurd rfl hWrite
      rw [hOwn] at hStep
      obtain ⟨c', hc', rfl⟩ := Option.map_eq_some_iff.mp hStep
      obtain ⟨hBook, hShut⟩ := hLocal hc'
      refine ⟨hBook, hShut, fun hDrain => ?_⟩
      refine paired_own h.shut h.paired (step_moves hc').2 hWrite ?_ hDrain
      rintro wire rfl
      exact hGuard
  | respond n response =>
    obtain ⟨c', hc', rfl⟩ := Option.map_eq_some_iff.mp hStep
    obtain ⟨hBook, hShut⟩ := hLocal hc'
    refine ⟨hBook, hShut, fun hDrain => ?_⟩
    obtain ⟨frame, hMem, hAnswers⟩ := hGuard
    obtain ⟨-, hMoves⟩ := step_moves hc'
    -- reading drains nothing, so the entry was there when it was read
    have h' := h.paired ((receive_dead hMoves).2 ▸ hDrain)
    obtain ⟨hBranch, -⟩ := readerBranch_of_answers h.book
      (h'.registered _ (List.mem_append_right _ hMem)) hAnswers
    rw [receive_answered hBranch hMoves]
    exact h'.answered h.book hMem hAnswers rfl rfl rfl

theorem peerInv_start : PeerInv .start where
  book := book_start
  shut := shut_start
  paired _ := ⟨nofun, fun n call a hn => by simp [Exchange.start, DotConnection.start] at hn,
    List.nodup_nil, fun n call hn => by simp [Exchange.start, DotConnection.start] at hn⟩

/-! ## Runs -/

theorem peerInv_run {events : List Event} {s : Exchange}
    (hPeer : Guarded peerStep WellBehaved .start events)
    (hRun : run peerStep .start events = some s) : PeerInv s :=
  run_invariant_guarded (fun _ _ _ => peerInv_step) peerInv_start hPeer hRun

/-- Without entries every ID is unexpected. -/
theorem readerBranch_nil {response : Bytes} (hLong : 2 ≤ response.length) :
    readerBranch [] response = .ok .unexpected := by
  rw [readerBranch, if_neg (by omega), if_neg (by omega)]
  rfl

/-- **A well-behaved peer.** After any run with such a peer, a response that arrives before the
entries of the connection are drained is handed to the query it answers: the entry under its ID
is that of the call whose frame it answers, and it matches. After the drain, which comes only on a
dead connection, there are no entries and its ID is unexpected. Reading it never sets the dead
flag, and before the drain it leaves the reader running. -/
theorem response_finds_its_query {events : List Event} {s : Exchange}
    (hPeer : Guarded peerStep WellBehaved .start events)
    (hRun : run peerStep .start events = some s)
    {n : Nat} {response : Bytes} (hResponse : WellBehaved s (.respond n response)) :
    (s.conn.drain ≠ .done → readerBranch s.conn.pending response = .ok (.answered n) ∧
      ∃ call a, s.conn.calls[n]? = some call ∧ call.assigned = some a ∧
        (a.id, ⟨n, a.expectedQuestion⟩) ∈ s.conn.pending ∧ a.id = responseId response ∧
        Answers (a.frame.drop 2) response) ∧
    (s.conn.drain = .done → s.conn.dead = true ∧ s.conn.pending = [] ∧
      readerBranch s.conn.pending response = .ok .unexpected) ∧
    (∀ t, peerStep s (.respond n response) = some t →
      t.conn.dead = s.conn.dead ∧
      (s.conn.drain ≠ .done → t.conn.reader = s.conn.reader)) := by
  have h := peerInv_run hPeer hRun
  obtain ⟨frame, hMem, hAnswers⟩ := hResponse
  have hFound : s.conn.drain ≠ .done → readerBranch s.conn.pending response = .ok (.answered n) ∧ _ :=
    fun hDrain => readerBranch_of_answers h.book
      ((h.paired hDrain).registered _ (List.mem_append_right _ hMem)) hAnswers
  refine ⟨fun hDrain => ?_, fun hDone => ?_, fun t ht => ?_⟩
  · obtain ⟨hBranch, call, a, hn, hAssigned, rfl, hEntry, hId⟩ := hFound hDrain
    exact ⟨hBranch, call, a, hn, hAssigned, hEntry, hId, hAnswers⟩
  · obtain ⟨flags, hFlags, -⟩ := hAnswers.qr
    have hLong : 2 < response.length := (List.getElem?_eq_some_iff.mp hFlags).1
    have hNone := (h.shut.done hDone).1
    refine ⟨h.shut.dead (by rw [hDone]; exact nofun), hNone, ?_⟩
    rw [hNone]
    exact readerBranch_nil (Nat.le_of_lt hLong)
  · obtain ⟨c', hc', rfl⟩ := Option.map_eq_some_iff.mp ht
    have hMoves := (step_moves hc').2
    refine ⟨(receive_dead hMoves).1, fun hDrain => ?_⟩
    rw [receive_answered (hFound hDrain).1 hMoves]
    rfl

/-- Steps of this side alone ask nothing of the peer. -/
theorem wellBehaved_own {labels : List Label} (h : ∀ l ∈ labels, ∀ wire, l ≠ .receive wire)
    (s : Exchange) : Guarded peerStep WellBehaved s (labels.map .own) := by
  induction labels generalizing s with
  | nil => trivial
  | cons l labels ih =>
    refine ⟨?_, fun t _ => ih (fun l' hl' => h l' (List.mem_cons_of_mem _ hl')) t⟩
    cases l <;> first | trivial | exact absurd rfl (h _ List.mem_cons_self _)

/-- The frame of `rootQuery` under the ID 7. -/
def rootFrame : Bytes := [0, 17, 0, 7, 1, 0, 0, 1, 0, 0, 0, 0, 0, 0, 0, 0, 2, 0, 1]

theorem rootResponse_answers : Answers (rootFrame.drop 2) rootResponse where
  id := rfl
  qr := ⟨0x81, rfl, by decide⟩
  qdcount := rfl
  question span hSpan := by
    have hEq : questionSpan (rootFrame.drop 2) = .ok ⟨12, 17⟩ := by decide +kernel
    rw [hEq] at hSpan
    cases hSpan
    decide

/-- A query that is cancelled when its frame is on the wire. -/
def cancelledQuery : List Label := sendRootQuery ++ [.cancel 0]

/-- A cancelled query whose timer has set the dead flag. -/
def flaggedQuery : List Label := cancelledQuery ++ [.timer 7, .timerFail]

/-- Its response is still handed to it. -/
theorem cancelled_rootQuery_answered :
    ∃ s, run peerStep .start (flaggedQuery.map .own) = some s ∧ s.conn.dead = true ∧
      readerBranch s.conn.pending rootResponse = .ok (.answered 0) := by
  have hRun : (run peerStep .start (flaggedQuery.map .own)).map
      (fun s => (s.unanswered, s.conn.dead, decide (s.conn.drain = .done))) =
        some ([(0, rootFrame)], true, false) := by decide +kernel
  obtain ⟨s, hs, hEnd⟩ := Option.map_eq_some_iff.mp hRun
  simp only [Prod.mk.injEq, decide_eq_false_iff_not] at hEnd
  obtain ⟨hFrames, hDead, hDrain⟩ := hEnd
  have hFound := response_finds_its_query
    (wellBehaved_own (by simp [flaggedQuery, cancelledQuery, sendRootQuery]) _) hs
    ⟨rootFrame, by rw [hFrames]; exact List.mem_cons_self, rootResponse_answers⟩
  exact ⟨s, hs, hDead, (hFound.1 hDrain).1⟩

/-- Nothing fails from outside: no write error, no read error, no probe. -/
def Undisturbed : Event → Prop
  | .own (.writeError _) => False
  | .own (.readError _) => False
  | .own (.fail _) => False
  | _ => True

/-- A query is cancelled, its timer runs out and the connection is failed and
drained; the reader task has not noticed yet. -/
def timedOutQuery : List Label := cancelledQuery ++ [.timer 7, .timerFail, .drain]

/-- The peer's late response finds no entry. -/
theorem late_response_unexpected :
    ¬ ∀ (events : List Event) (s : Exchange) (n : Nat) (response : Bytes),
      Guarded peerStep WellBehaved .start events → (∀ e ∈ events, Undisturbed e) →
      run peerStep .start events = some s → WellBehaved s (.respond n response) →
      s.conn.reader = .running → s.conn.lockedBy = none →
      readerBranch s.conn.pending response = .ok (.answered n) := by
  intro h
  have hRun : (run peerStep .start (timedOutQuery.map .own)).map
      (fun s => (s.unanswered, s.conn.reader, s.conn.lockedBy, s.conn.pending.length)) =
        some ([(0, rootFrame)], .running, none, 0) := by decide +kernel
  obtain ⟨s, hs, hEnd⟩ := Option.map_eq_some_iff.mp hRun
  simp only [Prod.mk.injEq] at hEnd
  obtain ⟨hFrames, hReader, hLock, hPending⟩ := hEnd
  have hAnswered := h (timedOutQuery.map .own) s 0 rootResponse
    (wellBehaved_own (by simp [timedOutQuery, cancelledQuery, sendRootQuery]) _)
    (by simp [timedOutQuery, cancelledQuery, sendRootQuery, Undisturbed]) hs
    ⟨rootFrame, by rw [hFrames]; exact List.mem_cons_self, rootResponse_answers⟩ hReader hLock
  rw [List.length_eq_zero_iff.mp hPending] at hAnswered
  cases hAnswered

end DnsRs.Dot
