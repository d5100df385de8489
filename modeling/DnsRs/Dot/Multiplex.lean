import DnsRs.Dot.Moves
import DnsRs.Lib.Lists

/-!
# Each answer reaches its own query

The bookkeeping invariant of the connection (`Book`): permits are conserved
between the semaphore, the calls that have not registered yet and the pending
entries; no two entries share an ID or a call; an entry belongs to a call that
has been sent nothing, under the ID and the question the call was assigned.

From it, over every run (`dot_multiplexing`): a waiter is resolved at most
once, a call returns `Ok` only a response with its own ID, QR set and its own
question, a new ID is never one in use, and there are never more than
`maxDotInFlight` entries, so the search for an ID cannot fail.
-/

namespace DnsRs.Dot

open Lib Wire DotConnection

/-! ## The pending map -/

section PendingMap

variable {pending : Pending} {id : Nat}

theorem mem_of_get {p : PendingQuery} (h : pending.get id = some p) : (id, p) ∈ pending := by
  obtain ⟨e, he, rfl⟩ := Option.map_eq_some_iff.mp h
  have hId := List.find?_some he
  simp only [beq_iff_eq] at hId
  rw [← hId]
  exact List.mem_of_find?_eq_some he

theorem get_isNone_iff : (pending.get id).isNone = true ↔ id ∉ pending.map Prod.fst := by
  rw [Pending.get, Option.isNone_map, Option.isNone_iff_eq_none, List.find?_eq_none, List.mem_map]
  constructor
  · rintro h ⟨e, he, hId⟩
    exact h e he (by rw [hId, beq_self_eq_true])
  · intro h e he hId
    exact h ⟨e, he, by simpa using hId⟩

theorem mem_remove {e : Nat × PendingQuery} :
    e ∈ pending.remove id ↔ e ∈ pending ∧ e.1 ≠ id := by
  simp [Pending.remove]

theorem remove_of_not_mem (h : id ∉ pending.map Prod.fst) : pending.remove id = pending := by
  refine List.filter_eq_self.mpr fun e he => ?_
  simp only [bne_iff_ne, ne_eq]
  exact fun hEq => h (hEq ▸ List.mem_map_of_mem he)

theorem insert_of_not_mem (h : id ∉ pending.map Prod.fst) (p : PendingQuery) :
    pending.insert id p = (id, p) :: pending := by
  rw [Pending.insert, remove_of_not_mem h]

/-- Distinct IDs: removing one that is there removes one entry. -/
theorem length_remove (hNodup : (pending.map Prod.fst).Nodup) (hMem : id ∈ pending.map Prod.fst) :
    (pending.remove id).length + 1 = pending.length := by
  induction pending with
  | nil => simp at hMem
  | cons e pending ih =>
    simp only [List.map_cons, List.nodup_cons] at hNodup
    by_cases he : e.1 = id
    · -- no later entry has this ID
      have hRest := remove_of_not_mem (he ▸ hNodup.1)
      rw [Pending.remove] at hRest ⊢
      rw [List.filter_cons_of_neg (by simp [he]), hRest, List.length_cons]
    · have hTail : id ∈ pending.map Prod.fst := by
        simp only [List.map_cons, List.mem_cons] at hMem
        exact hMem.resolve_left fun h => he h.symm
      have := ih hNodup.2 hTail
      rw [Pending.remove] at this ⊢
      rw [List.filter_cons_of_pos (by simp [he]), List.length_cons, List.length_cons]
      omega

/-! ## Choosing an ID -/

theorem mem_idsFrom (start : UInt16) : id ∈ idsFrom start ↔ id < 2 ^ 16 := by
  have := start.toNat_lt
  simp only [idsFrom, List.mem_append, List.mem_range'_1, List.mem_range]
  omega

/-- The ID that is found is free. -/
theorem nextAvailableId_free {start : UInt16} (h : nextAvailableId pending start = .ok id) :
    id < 2 ^ 16 ∧ id ∉ pending.map Prod.fst := by
  unfold nextAvailableId at h
  split at h
  · rename_i found hFound
    cases h
    have hNone := List.find?_some hFound
    exact ⟨(mem_idsFrom start).mp (List.mem_of_find?_eq_some hFound), get_isNone_iff.mp hNone⟩
  · cases h

/-- With fewer entries than IDs there is a free one. -/
theorem nextAvailableId_total (start : UInt16) (h : pending.length < 2 ^ 16) :
    ∃ id, nextAvailableId pending start = .ok id := by
  unfold nextAvailableId
  split
  · exact ⟨_, rfl⟩
  · rename_i hNone
    -- otherwise all the IDs are keys of the map
    exfalso
    have hAll : ∀ id, id < 2 ^ 16 → id ∈ pending.map Prod.fst := by
      intro id hId
      by_contra hFree
      exact List.find?_eq_none.mp hNone id ((mem_idsFrom start).mpr hId) (get_isNone_iff.mpr hFree)
    -- so the map has at least as many entries as there are IDs
    have hLen : (List.range (2 ^ 16)).length ≤ (pending.map Prod.fst).length :=
      (List.subperm_of_subset List.nodup_range fun id hId => hAll id (List.mem_range.mp hId)).length_le
    rw [List.length_range, List.length_map] at hLen
    omega

end PendingMap

/-! ## Preparing a query -/

/-- What a call is assigned fits its query. -/
structure Assigned.Fits (a : Assigned) (query : Bytes) : Prop where
  id_lt : a.id < 2 ^ 16
  outgoing : ∃ outgoing, setId query a.id = .ok outgoing ∧ outgoing.length < 2 ^ 16 ∧
    QuestionKey.fromWire outgoing = .ok a.expectedQuestion ∧
    a.frame = be16 outgoing.length ++ outgoing

theorem prepare_fits {pending : Pending} {query : Bytes} {start : UInt16} {a : Assigned}
    (h : prepare pending query start = .ok (.ok a)) :
    a.id ∉ pending.map Prod.fst ∧ a.Fits query := by
  unfold prepare at h
  obtain ⟨id, hId, h⟩ := bind_eq_ok.mp h
  obtain ⟨outgoing, hOut, h⟩ := bind_eq_ok.mp h
  obtain ⟨hLt, hFree⟩ := nextAvailableId_free hId
  split at h
  · rename_i hLen
    obtain ⟨key, hKey, h⟩ := bind_eq_ok.mp h
    cases key with
    | some key =>
      cases h
      exact ⟨hFree, hLt, outgoing, hOut, hLen, settle_eq_some.mp hKey, rfl⟩
    | none => cases h
  · cases h

theorem prepare_total {pending : Pending} (hLen : pending.length < 2 ^ 16) (query : Bytes)
    (start : UInt16) : ∃ r, prepare pending query start = .ok r := by
  obtain ⟨id, hId⟩ := nextAvailableId_total start hLen
  obtain ⟨outgoing, hOut, -⟩ := setId_total query id
  unfold prepare
  rw [hId, ok_bind, hOut, ok_bind]
  split
  · obtain ⟨key, hKey⟩ := (fromWire_noFault outgoing).settles
    rw [hKey, ok_bind]
    cases key with
    | none | some => exact ⟨_, rfl⟩
  · exact ⟨_, rfl⟩

/-! ## Reading a response -/

/-- The response `wire` is one for `a`: its ID, QR set, its question. -/
structure Assigned.Accepts (a : Assigned) (wire : Bytes) : Prop where
  long : 2 ≤ wire.length
  id : responseId wire = a.id
  qr : qrSet wire = true
  question : a.expectedQuestion.matches wire = .ok true

/-- The branches that touch an entry, and the entry they touch. -/
theorem readerBranch_entry {pending : Pending} {wire : Bytes} {n : Nat} :
    (readerBranch pending wire = .ok (.answered n) → ∃ p, (responseId wire, p) ∈ pending ∧
      p.call = n ∧ 2 ≤ wire.length ∧ qrSet wire = true ∧
      p.expectedQuestion.matches wire = .ok true) ∧
    (readerBranch pending wire = .ok (.mismatch n) → ∃ p, (responseId wire, p) ∈ pending ∧
      p.call = n) := by
  unfold readerBranch
  split
  · exact ⟨nofun, nofun⟩
  · split
    · exact ⟨nofun, nofun⟩
    · rename_i hLong
      split
      · exact ⟨nofun, nofun⟩
      · rename_i entry hGet
        have hMem := mem_of_get hGet
        split
        · rename_i hQr
          constructor
          · intro h
            obtain ⟨b, hb, h⟩ := bind_eq_ok.mp h
            cases b with
            | true =>
              cases h
              exact ⟨entry, hMem, rfl, by omega, hQr, hb⟩
            | false => cases h
          · intro h
            obtain ⟨b, hb, h⟩ := bind_eq_ok.mp h
            cases b with
            | true => cases h
            | false =>
              cases h
              exact ⟨entry, hMem, rfl⟩
        · refine ⟨nofun, fun h => ?_⟩
          cases h
          exact ⟨entry, hMem, rfl⟩

theorem readerBranch_total {pending : Pending} (wire : Bytes)
    (hKeys : ∀ e ∈ pending, e.2.expectedQuestion.len ≤ e.2.expectedQuestion.bytes.length) :
    ∃ branch, readerBranch pending wire = .ok branch := by
  unfold readerBranch
  split
  · exact ⟨_, rfl⟩
  · split
    · exact ⟨_, rfl⟩
    · split
      · exact ⟨_, rfl⟩
      · rename_i entry hGet
        split
        · obtain ⟨b, hb⟩ := matches_total (hKeys _ (mem_of_get hGet)) wire
          rw [hb, ok_bind]
          cases b <;> exact ⟨_, rfl⟩
        · exact ⟨_, rfl⟩

/-! ## Draining -/

/-- Every call with an entry is sent the error once, the others nothing. -/
theorem getElem?_sendAll (error : DotFailure) {pending : Pending} (calls : List Call)
    (hOwners : (pending.map (·.2.call)).Nodup) (n : Nat) :
    (sendAll error pending calls)[n]? =
      if n ∈ pending.map (·.2.call) then
        (calls[n]?).map fun call => { call with sent := call.sent ++ [.error error] }
      else calls[n]? := by
  induction pending generalizing calls with
  | nil => rfl
  | cons e pending ih =>
    simp only [List.map_cons, List.nodup_cons] at hOwners
    rw [sendAll, ih _ hOwners.2, sendReply]
    by_cases hEq : n = e.2.call
    · subst hEq
      -- the head is the only entry of its call
      rw [if_neg hOwners.1, if_pos (by simp), List.getElem?_modify_eq]
      rfl
    · have hMem : n ∈ (e :: pending).map (·.2.call) ↔ n ∈ pending.map (·.2.call) := by
        simp only [List.map_cons, List.mem_cons]
        exact or_iff_right hEq
      simp only [hMem, List.getElem?_modify_ne _ _ (Ne.symm hEq)]

/-- A reply changes no phase. -/
theorem map_phase_sendReply (calls : List Call) (n : Nat) (reply : DotReply) :
    (sendReply calls n reply).map Call.phase = calls.map Call.phase :=
  map_modify_of_eq fun _ => rfl

theorem map_phase_sendAll (error : DotFailure) (pending : Pending) (calls : List Call) :
    (sendAll error pending calls).map Call.phase = calls.map Call.phase := by
  induction pending generalizing calls with
  | nil => rfl
  | cons e pending ih => rw [sendAll, ih, map_phase_sendReply]

/-! ## The invariant -/

/-- What holds of each call by itself. -/
structure Call.Ok (call : Call) : Prop where
  once : call.sent.length ≤ 1
  unsent : call.assigned = none → call.sent = []
  early : call.phase.holdsPermit = true → call.assigned = none
  fits : ∀ a, call.assigned = some a → a.Fits call.query
  accepted : ∀ wire, .ok wire ∈ call.sent → ∃ a, call.assigned = some a ∧ a.Accepts wire
  returned : ∀ wire, call.phase = .returned (.ok wire) → .ok wire ∈ call.sent

/-- The entry `e` is the one of a call that waits under its ID and question. -/
def Backed (calls : List Call) (e : Nat × PendingQuery) : Prop :=
  ∃ call a, calls[e.2.call]? = some call ∧ call.assigned = some a ∧ a.id = e.1 ∧
    a.expectedQuestion = e.2.expectedQuestion ∧ call.sent = []

/-- The bookkeeping of the connection. -/
structure Book (c : DotConnection) : Prop where
  permits : c.available + c.calls.countP (·.phase.holdsPermit) + c.pending.length = maxDotInFlight
  ids : (c.pending.map Prod.fst).Nodup
  owners : (c.pending.map (·.2.call)).Nodup
  backed : ∀ e ∈ c.pending, Backed c.calls e
  calls : ∀ (n : Nat) (call : Call), c.calls[n]? = some call → call.Ok
  fault : c.fault = none

theorem book_start : Book .start where
  permits := rfl
  ids := List.nodup_nil
  owners := List.nodup_nil
  backed e he := by cases he
  calls n call hn := by simp [start] at hn
  fault := rfl

section BookSteps

variable {c c' : DotConnection} {n : Nat} {call : Call}

/-- Steps that leave calls, entries and permits alone. -/
theorem Book.congr (h : Book c) (hPending : c'.pending = c.pending) (hCalls : c'.calls = c.calls)
    (hAvail : c'.available = c.available) (hFault : c'.fault = c.fault) : Book c' where
  permits := by rw [hPending, hCalls, hAvail]; exact h.permits
  ids := by rw [hPending]; exact h.ids
  owners := by rw [hPending]; exact h.owners
  backed := by rw [hPending, hCalls]; exact h.backed
  calls := by rw [hCalls]; exact h.calls
  fault := by rw [hFault]; exact h.fault

/-- An entry stays backed when no call loses what it was assigned and its own
call is sent nothing. -/
theorem Backed.modify {calls : List Call} {e : Nat × PendingQuery} {f : Call → Call}
    (h : Backed calls e)
    (hKeep : ∀ call, e.2.call = n → calls[n]? = some call →
      (f call).assigned = call.assigned ∧ (f call).sent = call.sent) :
    Backed (calls.modify n f) e := by
  obtain ⟨call, a, hn, hAssigned, hId, hQuestion, hSent⟩ := h
  by_cases hEq : e.2.call = n
  · have hKept := hKeep call hEq (hEq ▸ hn)
    refine ⟨f call, a, ?_, hKept.1.trans hAssigned, hId, hQuestion, hKept.2.trans hSent⟩
    rw [hEq] at hn ⊢
    exact getElem?_modify_self hn
  · refine ⟨call, a, ?_, hAssigned, hId, hQuestion, hSent⟩
    rw [List.getElem?_modify_ne _ _ (Ne.symm hEq)]
    exact hn

theorem Book.calls_modify (h : Book c) (hn : c.calls[n]? = some call) {f : Call → Call}
    (hOk : (f call).Ok) (m : Nat) (call' : Call) :
    (c.calls.modify n f)[m]? = some call' → call'.Ok := by
  intro hm
  rcases getElem?_modify_cases hn hm with ⟨-, rfl⟩ | ⟨-, hm⟩
  · exact hOk
  · exact h.calls m call' hm

/-- A call that has an entry has been assigned something and sent nothing. -/
theorem Book.waiting (h : Book c) (hn : c.calls[n]? = some call)
    (hMem : n ∈ c.pending.map (·.2.call)) : ∃ a, call.assigned = some a ∧ call.sent = [] := by
  obtain ⟨e, he, rfl⟩ := List.mem_map.mp hMem
  obtain ⟨call', a, hn', hAssigned, -, -, hSent⟩ := h.backed e he
  rw [hn] at hn'
  cases hn'
  exact ⟨a, hAssigned, hSent⟩

/-- A waiting call is sent its one reply. -/
theorem Call.Ok.send (h : call.Ok) {a : Assigned} (hAssigned : call.assigned = some a)
    (hSent : call.sent = []) {reply : DotReply}
    (hReply : ∀ wire, reply = .ok wire → a.Accepts wire) :
    Call.Ok { call with sent := call.sent ++ [reply] } := by
  refine ⟨?_, ?_, h.early, h.fits, ?_, ?_⟩
  · rw [hSent]
    simp
  · rw [hAssigned]
    exact nofun
  · intro wire hWire
    rw [hSent, List.nil_append, List.mem_singleton] at hWire
    exact ⟨a, hAssigned, hReply wire hWire.symm⟩
  · intro wire hWire
    exact List.mem_append_left _ (h.returned wire hWire)

/-- A call moves to another phase; its permit, if it gives it up, goes back. -/
theorem Book.goto (h : Book c) (hn : c.calls[n]? = some call) {phase : Phase}
    (hOk : Call.Ok { call with phase := phase })
    (hPending : c'.pending = c.pending)
    (hCalls : c'.calls = c.calls.modify n fun call => { call with phase := phase })
    (hAvail : c'.available + (if phase.holdsPermit then 1 else 0) =
      c.available + (if call.phase.holdsPermit then 1 else 0))
    (hFault : c'.fault = c.fault) : Book c' where
  permits := by
    have hCount := countP_modify (f := fun call => { call with phase := phase })
      (·.phase.holdsPermit) hn
    have := h.permits
    rw [hPending, hCalls]
    simp only at hCount
    omega
  ids := by rw [hPending]; exact h.ids
  owners := by rw [hPending]; exact h.owners
  backed e he := by
    rw [hPending] at he
    rw [hCalls]
    exact (h.backed e he).modify fun _ _ _ => ⟨rfl, rfl⟩
  calls := by rw [hCalls]; exact h.calls_modify hn hOk
  fault := by rw [hFault]; exact h.fault

/-- Changing only the phase keeps a call in order, if the new phase holds a
permit only when the old one did and returns nothing new. -/
theorem Call.Ok.goto (h : call.Ok) {phase : Phase}
    (hEarly : phase.holdsPermit = true → call.phase.holdsPermit = true)
    (hReturned : ∀ wire, phase = .returned (.ok wire) → .ok wire ∈ call.sent) :
    Call.Ok { call with phase := phase } where
  once := h.once
  unsent := h.unsent
  early hPhase := h.early (hEarly hPhase)
  fits := h.fits
  accepted := h.accepted
  returned := hReturned

/-- A call moves from phase `old` to a phase that returns no response. -/
theorem Book.move (h : Book c) (hn : c.calls[n]? = some call) {old : Phase}
    (hPhase : call.phase = old) (phase : Phase)
    (hEarly : phase.holdsPermit = true → old.holdsPermit = true)
    (hReturned : ∀ wire, phase ≠ .returned (.ok wire))
    (hPending : c'.pending = c.pending)
    (hCalls : c'.calls = c.calls.modify n fun call => { call with phase := phase })
    (hAvail : c'.available + (if phase.holdsPermit then 1 else 0) =
      c.available + (if old.holdsPermit then 1 else 0))
    (hFault : c'.fault = c.fault) : Book c' := by
  subst hPhase
  refine h.goto hn ?_ hPending hCalls hAvail hFault
  exact (h.calls _ _ hn).goto hEarly fun wire hWire => absurd hWire (hReturned wire)

/-- A new call takes a permit. -/
theorem Book.reserve (h : Book c) (query : Bytes) (hAvail : 0 < c.available) :
    Book { c with
      available := c.available - 1
      calls := c.calls ++ [⟨query, .reserved, none, []⟩] } where
  permits := by
    have hHolds : Phase.reserved.holdsPermit = true := rfl
    have := h.permits
    simp only [List.countP_append, List.countP_singleton, hHolds, if_true]
    omega
  ids := h.ids
  owners := h.owners
  backed e he := by
    obtain ⟨call, a, hn, hRest⟩ := h.backed e he
    exact ⟨call, a, (List.getElem?_append_left (List.getElem?_eq_some_iff.mp hn).1).trans hn, hRest⟩
  calls m call' hm := by
    rcases getElem?_append_one hm with hm | ⟨-, rfl⟩
    · exact h.calls m call' hm
    · exact ⟨by simp, fun _ => rfl, fun _ => rfl, nofun, nofun, nofun⟩
  fault := h.fault

/-- A call registers under a free ID; its permit moves into the entry. -/
theorem Book.insert (h : Book c) (hn : c.calls[n]? = some call) (hPhase : call.phase = .cleared)
    {a : Assigned} (hFree : a.id ∉ c.pending.map Prod.fst) (hFits : a.Fits call.query) :
    Book { c.unlock with
      pending := c.pending.insert a.id ⟨n, a.expectedQuestion⟩
      calls := c.calls.modify n fun call =>
        { call with phase := .inserted, assigned := some a } } := by
  have hOk := h.calls n call hn
  have hUnassigned : call.assigned = none := hOk.early (by rw [hPhase]; rfl)
  have hUnsent := hOk.unsent hUnassigned
  -- a call without an ID has no entry yet
  have hOwner : n ∉ c.pending.map (·.2.call) := by
    intro hMem
    obtain ⟨a', hAssigned, -⟩ := h.waiting hn hMem
    rw [hUnassigned] at hAssigned
    cases hAssigned
  have hInsert := insert_of_not_mem hFree ⟨n, a.expectedQuestion⟩
  constructor
  case permits =>
    have hCount := countP_modify
      (f := fun call => { call with phase := .inserted, assigned := some a })
      (·.phase.holdsPermit) hn
    -- the permit leaves the call for the entry, and the sum stays
    have hHolds : Phase.cleared.holdsPermit = true := rfl
    have hMoved : Phase.inserted.holdsPermit = false := rfl
    have := h.permits
    simp only [hPhase, hHolds, hMoved, if_true, Bool.false_eq_true, if_false] at hCount
    rw [hInsert]
    simp only [List.length_cons, unlock]
    omega
  case ids =>
    rw [hInsert]
    exact List.nodup_cons.mpr ⟨hFree, h.ids⟩
  case owners =>
    rw [hInsert]
    exact List.nodup_cons.mpr ⟨hOwner, h.owners⟩
  case backed =>
    intro e he
    rw [hInsert] at he
    rcases List.mem_cons.mp he with rfl | he
    · exact ⟨_, a, getElem?_modify_self hn, rfl, rfl, rfl, hUnsent⟩
    · refine (h.backed e he).modify fun _ hEq _ => ?_
      exact absurd (hEq ▸ List.mem_map_of_mem he) hOwner
  case calls =>
    refine h.calls_modify hn ?_
    refine ⟨hOk.once, nofun, nofun, ?_, ?_, nofun⟩
    · intro a' ha'
      cases ha'
      exact hFits
    · intro wire hWire
      rw [hUnsent] at hWire
      cases hWire
  case fault => exact h.fault

/-- The reader takes an entry out and sends its call the one reply. -/
theorem Book.take (h : Book c) {id : Nat} {p : PendingQuery} (hMem : (id, p) ∈ c.pending)
    {reply : DotReply}
    (hReply : ∀ wire, reply = .ok wire → ∀ a : Assigned, a.id = id →
      a.expectedQuestion = p.expectedQuestion → a.Accepts wire)
    (hPending : c'.pending = c.pending.remove id)
    (hCalls : c'.calls = sendReply c.calls p.call reply)
    (hAvail : c'.available = c.available + 1) (hFault : c'.fault = c.fault) : Book c' := by
  obtain ⟨call, a, hn, hAssigned, hId, hQuestion, hSent⟩ := h.backed _ hMem
  constructor
  case permits =>
    have hCount := countP_modify (f := fun call => { call with sent := call.sent ++ [reply] })
      (·.phase.holdsPermit) hn
    have hLen := length_remove h.ids (List.mem_map_of_mem hMem)
    have := h.permits
    rw [hPending, hCalls, hAvail, sendReply]
    simp only at hCount hLen
    omega
  case ids =>
    rw [hPending]
    exact h.ids.sublist (List.filter_sublist.map _)
  case owners =>
    rw [hPending]
    exact h.owners.sublist (List.filter_sublist.map _)
  case backed =>
    intro e he
    rw [hPending] at he
    obtain ⟨he, hNe⟩ := mem_remove.mp he
    rw [hCalls]
    refine (h.backed e he).modify fun _ hEq _ => ?_
    -- two entries of one call are one entry
    have := List.inj_on_of_nodup_map h.owners he hMem hEq
    rw [this] at hNe
    exact absurd rfl hNe
  case calls =>
    rw [hCalls]
    refine h.calls_modify hn ((h.calls _ _ hn).send hAssigned hSent fun wire hWire => ?_)
    exact hReply wire hWire a hId hQuestion
  case fault =>
    rw [hFault]
    exact h.fault

/-- The drain answers every entry and gives all their permits back. -/
theorem Book.drain (h : Book c) {error : DotFailure} (hPending : c'.pending = [])
    (hCalls : c'.calls = sendAll error c.pending c.calls)
    (hAvail : c'.available = c.available + c.pending.length) (hFault : c'.fault = c.fault) :
    Book c' := by
  have hCount : c'.calls.countP (·.phase.holdsPermit) = c.calls.countP (·.phase.holdsPermit) := by
    -- sending moves no call
    have hPhases := map_phase_sendAll error c.pending c.calls
    have := congrArg (List.countP Phase.holdsPermit) hPhases
    rw [List.countP_map, List.countP_map] at this
    rw [hCalls]
    exact this
  constructor
  case permits =>
    have := h.permits
    rw [hPending, hAvail, hCount, List.length_nil]
    omega
  case ids =>
    rw [hPending]
    exact List.nodup_nil
  case owners =>
    rw [hPending]
    exact List.nodup_nil
  case backed =>
    intro e he
    rw [hPending] at he
    cases he
  case calls =>
    intro m call' hm
    rw [hCalls, getElem?_sendAll error c.calls h.owners] at hm
    split at hm
    · rename_i hMem
      obtain ⟨call, hn, rfl⟩ := Option.map_eq_some_iff.mp hm
      obtain ⟨a, hAssigned, hSent⟩ := h.waiting hn hMem
      refine (h.calls m call hn).send hAssigned hSent fun wire hWire => ?_
      cases hWire
    · exact h.calls m call' hm
  case fault =>
    rw [hFault]
    exact h.fault

/-- Every key that is pending has its bytes. -/
theorem Book.keys (h : Book c) : ∀ e ∈ c.pending,
    e.2.expectedQuestion.len ≤ e.2.expectedQuestion.bytes.length := by
  intro e he
  obtain ⟨call, a, hn, hAssigned, -, hQuestion, -⟩ := h.backed e he
  obtain ⟨outgoing, -, -, hKey, -⟩ := ((h.calls _ _ hn).fits a hAssigned).outgoing
  obtain ⟨-, -, hLen, -⟩ := fromWire_question hKey
  rw [← hQuestion]
  exact hLen

theorem Book.length_pending (h : Book c) : c.pending.length ≤ maxDotInFlight := by
  have := h.permits
  omega

/-- There are fewer entries than IDs. -/
theorem Book.few (h : Book c) : c.pending.length < 2 ^ 16 := by
  have hLen := h.length_pending
  have : maxDotInFlight = 256 := rfl
  omega

/-- **Step.** Every step keeps the books. -/
theorem book_step {label : Label} (h : Book c) (hStep : step c label = some c') : Book c' := by
  obtain ⟨-, hMoves⟩ := step_moves hStep
  cases hMoves with
  | reserve hAvail => exact h.reserve _ hAvail
  | check hn hPhase hDead =>
    exact h.move hn hPhase .checked (fun _ => rfl) nofun rfl rfl rfl rfl
  | checkDead hn hPhase | recheckDead hn hPhase | deliverClosed hn hPhase =>
    exact h.move hn hPhase (.returned closedReply) nofun nofun rfl rfl rfl rfl
  | lock hn hPhase hLock =>
    exact h.move hn hPhase .locked (fun _ => rfl) nofun rfl rfl rfl rfl
  | recheck hn hPhase hDead =>
    exact h.move hn hPhase .cleared (fun _ => rfl) nofun rfl rfl rfl rfl
  | insert hn hPhase hPrepare =>
    obtain ⟨hFree, hFits⟩ := prepare_fits hPrepare
    exact h.insert hn hPhase hFree hFits
  | insertRefused hn hPhase hPrepare =>
    exact h.move hn hPhase (.returned (.error _)) nofun nofun rfl rfl rfl rfl
  | insertFault hn hPhase hPrepare =>
    -- there is always a free ID, so nothing panics here
    obtain ⟨r, hr⟩ := prepare_total h.few _ _
    rw [hr] at hPrepare
    cases hPrepare
  | send hn hPhase | stop hn hPhase => exact h.move hn hPhase .waiting nofun nofun rfl rfl rfl rfl
  | sendStopped hn hPhase hAssigned hWriter =>
    exact h.move hn hPhase .stopping nofun nofun rfl rfl rfl rfl
  | @deliver n call reply rest hn hPhase hSent =>
    have hOk : Call.Ok { call with phase := .returned reply } := by
      refine (h.calls _ _ hn).goto nofun fun wire hWire => ?_
      cases hWire
      rw [hSent]
      exact List.mem_cons_self
    exact h.goto hn hOk rfl rfl (by rw [hPhase]; rfl) rfl
  | cancelReserved hn hPhase | cancelWaiting hn hPhase =>
    exact h.move hn hPhase .dropped nofun nofun rfl rfl rfl rfl
  | receiveFault hReader hLock hBranch =>
    -- every stored key has its bytes, so comparing returns
    obtain ⟨branch, hOk⟩ := readerBranch_total _ h.keys
    rw [hOk] at hBranch
    cases hBranch
  | receiveAnswered hReader hLock hBranch =>
    obtain ⟨p, hMem, rfl, hLong, hQr, hMatch⟩ := readerBranch_entry.1 hBranch
    refine h.take hMem (fun wire hWire a hId hQuestion => ?_) rfl rfl rfl rfl
    cases hWire
    exact ⟨hLong, hId.symm, hQr, by rw [hQuestion]; exact hMatch⟩
  | receiveMismatch hReader hLock hBranch =>
    obtain ⟨p, hMem, rfl⟩ := readerBranch_entry.2 hBranch
    exact h.take hMem (fun _ hWire => by cases hWire) rfl rfl rfl rfl
  | drain hDrain hLock => exact h.drain rfl rfl rfl rfl
  | write | writeError | writerFail | writerClosed | receiveOther | readError | readerFail
  | readerClosed | timer | timerFail | fail => exact h.congr rfl rfl rfl rfl

end BookSteps

/-! ## Calls that others' steps pass over -/

section OtherCalls

variable {c c' : DotConnection} {label : Label} {m : Nat}

/-- A call moves on by its own steps only. -/
theorem phase_step (hStep : step c label = some c') (hOther : label.call? ≠ some m) {phase : Phase}
    (h : c.phase? m = some phase) : c'.phase? m = some phase := by
  obtain ⟨-, hMoves⟩ := step_moves hStep
  obtain ⟨call, hm, -⟩ := Option.map_eq_some_iff.mp h
  -- the call that takes a step is another one
  have hModify : ∀ {n : Nat} (f : Call → Call), (some n ≠ some m) →
      ((c.calls.modify n f)[m]?).map Call.phase = some phase := by
    intro n f hne
    rw [List.getElem?_modify_ne _ _ fun hEq => hne (congrArg some hEq)]
    exact h
  have hSame : ∀ {calls : List Call}, calls.map Call.phase = c.calls.map Call.phase →
      (calls[m]?).map Call.phase = some phase := by
    intro calls hPhases
    rw [← List.getElem?_map, hPhases, List.getElem?_map]
    exact h
  cases hMoves with
  | reserve hAvail =>
    have hLt := (List.getElem?_eq_some_iff.mp hm).1
    rw [DotConnection.phase?, List.getElem?_append_left hLt]
    exact h
  | check | checkDead | lock | recheck | recheckDead | insert | insertRefused | send | sendStopped
  | stop | deliver | deliverClosed | cancelReserved | cancelWaiting => exact hModify _ hOther
  | receiveAnswered | receiveMismatch => exact hSame (map_phase_sendReply _ _ _)
  | drain hDrain hLock => exact hSame (map_phase_sendAll _ _ _)
  | insertFault | write | writeError | writerFail | writerClosed | receiveFault | receiveOther
  | readError | readerFail | readerClosed | timer | timerFail | fail => exact h

def Phase.over : Phase → Bool
  | .returned _ | .dropped => true
  | _ => false

/-- A call that is over stays as it is. -/
theorem over_step {phase : Phase} (hOver : phase.over = true) (hStep : step c label = some c')
    (h : c.phase? m = some phase) : c'.phase? m = some phase := by
  refine phase_step hStep (fun hOwn => ?_) h
  -- it takes no step of its own
  obtain ⟨call, hm, hPhase⟩ := Option.map_eq_some_iff.mp h
  unfold step at hStep
  rw [hOwn] at hStep
  simp only [hm, Option.bind_some] at hStep
  split at hStep
  · cases phase with
    | returned | dropped => cases label <;> simp [stepCall, hPhase] at hStep
    | reserved | checked | locked | cleared | inserted | stopping | waiting => cases hOver
  · cases hStep

/-- Calls are never forgotten. -/
theorem length_calls_step (hStep : step c label = some c') : c.calls.length ≤ c'.calls.length := by
  obtain ⟨-, hMoves⟩ := step_moves hStep
  cases hMoves with
  | reserve hAvail =>
    rw [List.length_append]
    exact Nat.le_add_right _ _
  | drain hDrain hLock =>
    have hPhases := congrArg List.length (map_phase_sendAll ‹_› c.pending c.calls)
    rw [List.length_map, List.length_map] at hPhases
    exact hPhases.ge
  | check | checkDead | lock | recheck | recheckDead | insert | insertRefused | send | sendStopped
  | stop | deliver | deliverClosed | cancelReserved | cancelWaiting | receiveAnswered
  | receiveMismatch => exact (List.length_modify ..).ge
  | insertFault | write | writeError | writerFail | writerClosed | receiveFault | receiveOther
  | readError | readerFail | readerClosed | timer | timerFail | fail => exact Nat.le_refl _

end OtherCalls

/-! ## Runs -/

theorem book_run {c : DotConnection} {labels : List Label}
    (hRun : run step .start labels = some c) : Book c :=
  run_invariant (fun _ _ _ => book_step) book_start hRun

/-- **Multiplexing.** In every state a connection can reach: a waiter has been
resolved at most once; a call has returned `Ok` only a response with the ID it
was assigned, with QR set and with its question; whatever ID the search starts
from, it finds one, and one that no pending query uses; every pending query
holds a permit, so at most `maxDotInFlight` are pending; and nothing has
panicked. -/
theorem dot_multiplexing {c : DotConnection} {labels : List Label}
    (hRun : run step .start labels = some c) :
    (∀ (n : Nat) (call : Call), c.calls[n]? = some call → call.sent.length ≤ 1) ∧
    (∀ (n : Nat) (call : Call) (wire : Bytes), c.calls[n]? = some call →
      call.phase = .returned (.ok wire) →
      ∃ a, call.assigned = some a ∧ a.Fits call.query ∧ a.Accepts wire) ∧
    (∀ start, ∃ id, nextAvailableId c.pending start = .ok id ∧
      id ∉ c.pending.map Prod.fst) ∧
    c.available + c.calls.countP (·.phase.holdsPermit) + c.pending.length = maxDotInFlight ∧
    c.pending.length ≤ maxDotInFlight ∧ c.fault = none := by
  have h := book_run hRun
  refine ⟨fun n call hn => (h.calls n call hn).once, ?_, ?_, h.permits, h.length_pending, h.fault⟩
  · intro n call wire hn hPhase
    have hOk := h.calls n call hn
    obtain ⟨a, hAssigned, hAccepts⟩ := hOk.accepted wire (hOk.returned wire hPhase)
    exact ⟨a, hAssigned, hOk.fits a hAssigned, hAccepts⟩
  · intro start
    obtain ⟨id, hId⟩ := nextAvailableId_total start h.few
    exact ⟨id, hId, (nextAvailableId_free hId).2⟩

/-- A query for the root's NS records. -/
def rootQuery : Bytes := [0, 0, 1, 0, 0, 1, 0, 0, 0, 0, 0, 0, 0, 0, 2, 0, 1]

/-- A response to it under the ID 7. -/
def rootResponse : Bytes := [0, 7, 0x81, 0x80, 0, 1, 0, 0, 0, 0, 0, 0, 0, 0, 2, 0, 1]

/-- One query from its permit to its frame on the wire, with ID 7. -/
def sendRootQuery : List Label :=
  [.reserve rootQuery, .check 0, .lock 0, .recheck 0, .insert 0 7, .send 0, .write]

theorem rootQuery_answered :
    ∃ c, run step .start (sendRootQuery ++ [.receive rootResponse, .deliver 0]) = some c ∧
      c.calls.map Call.phase = [.returned (.ok rootResponse)] ∧
      ∃ a : Assigned, a.Fits rootQuery ∧ a.Accepts rootResponse := by
  have hRun : (run step .start (sendRootQuery ++ [.receive rootResponse, .deliver 0])).map
      (fun c => (c.calls.map Call.phase, c.calls.map Call.query)) =
        some ([.returned (.ok rootResponse)], [rootQuery]) := by decide +kernel
  obtain ⟨c, hc, hCalls⟩ := Option.map_eq_some_iff.mp hRun
  obtain ⟨hPhases, hQueries⟩ := Prod.mk.inj hCalls
  refine ⟨c, hc, hPhases, ?_⟩
  obtain ⟨call, hcall⟩ : ∃ call, c.calls = [call] := List.length_eq_one_iff.mp (by
    have := congrArg List.length hPhases
    simpa using this)
  rw [hcall] at hPhases hQueries
  obtain ⟨a, -, hFits, hAccepts⟩ := (dot_multiplexing hc).2.1 0 call rootResponse
    (by rw [hcall]; rfl) (by simpa using hPhases)
  have hQuery : call.query = rootQuery := by simpa using hQueries
  exact ⟨a, hQuery ▸ hFits, hAccepts⟩

end DnsRs.Dot
