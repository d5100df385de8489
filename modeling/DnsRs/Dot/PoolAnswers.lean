import DnsRs.Dot.PoolRest

/-!
# What `query_wire` returns

`query_wire` takes a connection and a permit, runs its query there, and if the connection
fails it starts over once. The responses travel through three layers: the reader gives a
frame to the call that is pending under its ID, the call returns it, and the caller of the
pool returns what its call returned. Between any two of these steps connections die, other
callers come and go, and permits change hands.

* `query_wire_answers` — the response a caller returns is one that was received and accepted
  for its own query, and no two callers return the response of the same call.
-/

namespace DnsRs.Dot

open Lib Wire DotConnection

/-! ## What stays of a call -/

section Calls

variable {c c' : DotConnection} {label : Label}

/-- What an error in its reply channel does not change about a call. -/
theorem map_sendAll {β : Type} {g : Call → β} {error : DotFailure}
    (hg : ∀ call, g { call with sent := call.sent ++ [.error error] } = g call) (pending : Pending)
    (calls : List Call) : (sendAll error pending calls).map g = calls.map g := by
  induction pending generalizing calls with
  | nil => rfl
  | cons e pending ih =>
    rw [sendAll, ih, sendReply]
    exact map_modify_of_eq hg

/-- Calls are for the query they were reserved for. -/
theorem query_step (hStep : step c label = some c') {n : Nat} {query : Bytes}
    (h : (c.calls[n]?).map Call.query = some query) :
    (c'.calls[n]?).map Call.query = some query := by
  have hMoves := (step_moves hStep).2
  have hSame : ∀ {calls : List Call}, calls.map Call.query = c.calls.map Call.query →
      (calls[n]?).map Call.query = some query := by
    intro calls hQueries
    rw [← List.getElem?_map, hQueries, List.getElem?_map]
    exact h
  cases hMoves with
  | reserve hAvail =>
    obtain ⟨call, hn, -⟩ := Option.map_eq_some_iff.mp h
    rw [List.getElem?_append_left (List.getElem?_eq_some_iff.mp hn).1]
    exact h
  | drain => exact hSame (map_sendAll (fun _ => rfl) _ _)
  | check | checkDead | lock | recheck | recheckDead | insert | insertRefused | send | sendStopped
  | stop | deliver | deliverClosed | cancelReserved | cancelWaiting | receiveAnswered
  | receiveMismatch => exact hSame (map_modify_of_eq fun _ => rfl)
  | insertFault | write | writeError | writerFail | writerClosed | receiveFault | receiveOther
  | readError | readerFail | readerClosed | timer | timerFail | fail => exact h

/-- The responses that were sent into its reply channel. -/
def Call.got (call : Call) : List Bytes := call.sent.filterMap Except.toOption

/-- A response comes into a reply channel when it is received, and in no other way. -/
theorem got_step (hStep : step c label = some c') {n : Nat} {call : Call} {response : Bytes}
    (hn : c'.calls[n]? = some call) (hGot : response ∈ call.got) :
    label = .receive response ∨ ∃ call', c.calls[n]? = some call' ∧ response ∈ call'.got := by
  have hMoves := (step_moves hStep).2
  have hSame : ∀ {calls : List Call}, calls[n]? = some call →
      calls.map Call.got = c.calls.map Call.got →
        ∃ call', c.calls[n]? = some call' ∧ response ∈ call'.got := by
    intro calls hn hMap
    obtain ⟨call', hn', hEq⟩ := exists_getElem?_of_map_eq hMap hn
    exact ⟨call', hn', hEq ▸ hGot⟩
  cases hMoves with
  | reserve hAvail =>
    rcases getElem?_append_one hn with hOld | ⟨-, rfl⟩
    · exact .inr ⟨call, hOld, hGot⟩
    · cases hGot
  | @receiveAnswered wire m =>
    rw [sendReply, List.getElem?_modify, Option.map_eq_map, Option.map_eq_some_iff] at hn
    obtain ⟨call', hn', rfl⟩ := hn
    split at hGot
    · -- the one frame that was read is the response
      rw [Call.got, List.filterMap_append, List.mem_append] at hGot
      rcases hGot with hOld | hNew
      · exact .inr ⟨call', hn', hOld⟩
      · cases List.mem_singleton.mp hNew
        exact .inl rfl
    · exact .inr ⟨call', hn', hGot⟩
  | drain => exact .inr (hSame hn (map_sendAll (fun call => by simp [Call.got, Except.toOption]) _ _))
  | receiveMismatch =>
    exact .inr (hSame hn (map_modify_of_eq fun call => by simp [Call.got, Except.toOption]))
  | check | checkDead | lock | recheck | recheckDead | insert | insertRefused | send | sendStopped
  | stop | deliver | deliverClosed | cancelReserved | cancelWaiting =>
    exact .inr (hSame hn (map_modify_of_eq fun _ => rfl))
  | insertFault | write | writeError | writerFail | writerClosed | receiveFault | receiveOther
  | readError | readerFail | readerClosed | timer | timerFail | fail => exact .inr ⟨call, hn, hGot⟩

end Calls

/-! ## Across the pool -/

/-- Call `n` of connection `k` was made for this query. -/
def AskedAt (s : DotPool) (k n : Nat) (query : Bytes) : Prop :=
  ∃ conn, s.conns[k]? = some conn ∧ (conn.calls[n]?).map Call.query = some query

/-- It has returned this response. -/
def AnsweredAt (s : DotPool) (k n : Nat) (response : Bytes) : Prop :=
  ∃ conn, s.conns[k]? = some conn ∧ conn.phase? n = some (.returned (.ok response))

/-- What became of connection `k` in a step of the pool. -/
def Later (s u : DotPool) : Prop :=
  ∀ (k : Nat) (conn : DotConnection), s.conns[k]? = some conn →
    ∃ conn', u.conns[k]? = some conn' ∧ (conn' = conn ∨ ∃ label, step conn label = some conn')

section Later

variable {s u s' : DotPool} {k n : Nat} {query response : Bytes}

theorem later_refl (hConns : u.conns = s.conns) : Later s u := by
  intro k conn hk
  exact ⟨conn, by rw [hConns]; exact hk, .inl rfl⟩

theorem later_inside {label : Label} (hInside : s.inside k label = some u) : Later s u := by
  obtain ⟨conn, conn', hk, hStep, rfl⟩ := inside_eq_some.mp hInside
  intro k' found hFound
  by_cases hEq : k = k'
  · subst hEq
    rw [hk] at hFound
    cases hFound
    exact ⟨conn', List.getElem?_set_self (List.getElem?_eq_some_iff.mp hk).1, .inr ⟨label, hStep⟩⟩
  · exact ⟨found, (List.getElem?_set_ne hEq).trans hFound, .inl rfl⟩

theorem later_tryReserve {permit : Permit} (hReserve : s.tryReserve k query = some (permit, s')) :
    Later s s' := by
  obtain ⟨conn, -, hInside, -⟩ := tryReserve_eq_some.mp hReserve
  exact later_inside hInside

theorem later_step {label : PoolLabel} (hStep : poolStep s label = some u) : Later s u := by
  cases poolStep_moves hStep with
  | inside hInside => exact later_inside hInside
  | scanFound hc hPhase hReserve | acquire hc hPhase hReserve | reserve hc hPhase hReserve
  | probeTaken hc hPhase hReserve => exact fun k conn hk => later_tryReserve hReserve k conn hk
  | dead hc hPhase hDrop | cancelPushing hc hPhase hDrop =>
    exact fun k conn hk => later_inside hDrop k conn hk
  | connected hc hPhase =>
    intro k conn hk
    refine ⟨conn, ?_, .inl rfl⟩
    exact (List.getElem?_append_left (List.getElem?_eq_some_iff.mp hk).1).trans hk
  | query | keepalive | lock | retainNext | retained | cloned | scanNext | scanWait | scanQueue
  | scanConnect | scanAgain | alive | dial | connectFailed | reserveFailed | push | finished
  | probeSkipped | probesMade | leave | cancelLocking | cancelIdle | cancelConnecting =>
    exact later_refl rfl

theorem Later.asked (h : Later s u) (hAsked : AskedAt s k n query) : AskedAt u k n query := by
  obtain ⟨conn, hk, hQuery⟩ := hAsked
  obtain ⟨conn', hk', rfl | ⟨label, hStep⟩⟩ := h k conn hk
  · exact ⟨_, hk', hQuery⟩
  · exact ⟨conn', hk', query_step hStep hQuery⟩

theorem Later.answered (h : Later s u) (hAnswered : AnsweredAt s k n response) :
    AnsweredAt u k n response := by
  obtain ⟨conn, hk, hPhase⟩ := hAnswered
  obtain ⟨conn', hk', rfl | ⟨label, hStep⟩⟩ := h k conn hk
  · exact ⟨_, hk', hPhase⟩
  · exact ⟨conn', hk', over_step rfl hStep hPhase⟩

end Later

/-! ## What was received -/

/-- Call `n` of connection `k` was given this response. -/
def GotAt (s : DotPool) (k n : Nat) (response : Bytes) : Prop :=
  ∃ conn call, s.conns[k]? = some conn ∧ conn.calls[n]? = some call ∧ response ∈ call.got

section Received

variable {s u : DotPool} {k n : Nat} {response : Bytes}

theorem gotAt_inside {j : Nat} {label : Label} (hInside : s.inside j label = some u)
    (h : GotAt u k n response) : j = k ∧ label = .receive response ∨ GotAt s k n response := by
  obtain ⟨conn, conn', hj, hStep, rfl⟩ := inside_eq_some.mp hInside
  obtain ⟨found, call, hk, hn, hGot⟩ := h
  rcases getElem?_set_cases hk with ⟨rfl, rfl⟩ | ⟨-, hk⟩
  · rcases got_step hStep hn hGot with hReceive | ⟨call', hn', hGot'⟩
    · exact .inl ⟨rfl, hReceive⟩
    · exact .inr ⟨conn, call', hj, hn', hGot'⟩
  · exact .inr ⟨found, call, hk, hn, hGot⟩

theorem gotAt_step {label : PoolLabel} (hStep : poolStep s label = some u)
    (h : GotAt u k n response) : label = .inside k (.receive response) ∨ GotAt s k n response := by
  -- the pool itself only reserves and drops permits
  have hQuiet : ∀ {j : Nat} {l : Label} {t : DotPool}, s.inside j l = some t →
      l ≠ .receive response → GotAt t k n response → GotAt s k n response := by
    intro j l t hInside hOther hGot
    rcases gotAt_inside hInside hGot with ⟨-, hReceive⟩ | hOld
    · exact absurd hReceive hOther
    · exact hOld
  cases poolStep_moves hStep with
  | inside hInside =>
    rcases gotAt_inside hInside h with ⟨rfl, rfl⟩ | hOld
    · exact .inl rfl
    · exact .inr hOld
  | scanFound hc hPhase hReserve | acquire hc hPhase hReserve | reserve hc hPhase hReserve
  | probeTaken hc hPhase hReserve =>
    obtain ⟨conn, -, hInside, -⟩ := tryReserve_eq_some.mp hReserve
    exact .inr (hQuiet hInside (fun hEq => by cases hEq) h)
  | dead hc hPhase hDrop | cancelPushing hc hPhase hDrop =>
    exact .inr (hQuiet hDrop (fun hEq => by cases hEq) h)
  | connected hc hPhase =>
    obtain ⟨conn, call, hk, hn, hGot⟩ := h
    rcases getElem?_append_one hk with hOld | ⟨-, rfl⟩
    · exact .inr ⟨conn, call, hOld, hn, hGot⟩
    · cases hn
  | query | keepalive | lock | retainNext | retained | cloned | scanNext | scanWait | scanQueue
  | scanConnect | scanAgain | alive | dial | connectFailed | reserveFailed | push | finished
  | probeSkipped | probesMade | leave | cancelLocking | cancelIdle | cancelConnecting =>
    exact .inr h

/-- **Nothing is made up.** Over any run of the pool, a response that a call was given was
received on its connection. -/
theorem gotAt_run {labels : List PoolLabel} (hRun : run poolStep s labels = some u)
    (h : GotAt u k n response) :
    PoolLabel.inside k (.receive response) ∈ labels ∨ GotAt s k n response := by
  induction labels generalizing s with
  | nil =>
    cases hRun
    exact .inr h
  | cons label labels ih =>
    obtain ⟨t, hStep, hRest⟩ := run_cons_eq_some.mp hRun
    rcases ih hRest with hMem | hOld
    · exact .inl (List.mem_cons_of_mem label hMem)
    · rcases gotAt_step hStep hOld with rfl | hOlder
      · exact .inl List.mem_cons_self
      · exact .inr hOlder

end Received

/-! ## Answers and their calls -/

/-- `source` names the call each answer came from: a call for the caller's own query, that
nobody has a permit of any more and that no other answer came from. -/
structure Sourced (s : DotPool) (source : Nat → Nat × Nat) : Prop where
  asked : ∀ (c : Nat) (caller : Caller), s.callers[c]? = some caller →
    ∀ e ∈ caller.phase.pairs, AskedAt s e.1 e.2.call caller.query
  answered : ∀ (c : Nat) (caller : Caller) (response : Bytes), s.callers[c]? = some caller →
    caller.phase = .answered response → AskedAt s (source c).1 (source c).2 caller.query ∧
      AnsweredAt s (source c).1 (source c).2 response
  free : ∀ (c : Nat) (caller : Caller) (response : Bytes), s.callers[c]? = some caller →
    caller.phase = .answered response → ∀ (c' : Nat) (caller' : Caller),
      s.callers[c']? = some caller' → ∀ e ∈ caller'.phase.pairs, (e.1, e.2.call) ≠ source c
  apart : ∀ (c c' : Nat) (caller caller' : Caller) (response response' : Bytes),
    s.callers[c]? = some caller → s.callers[c']? = some caller' →
    caller.phase = .answered response → caller'.phase = .answered response' →
    source c = source c' → c = c'

section SourcedSteps

variable {s u s' : DotPool} {source : Nat → Nat × Nat} {c k : Nat} {caller : Caller}

/-- One caller moves on, with what it had or with a permit for its own query, and does not
return an answer. -/
theorem Sourced.advance (h : Sourced s source) (hLater : Later s u)
    (hc : s.callers[c]? = some caller) {f : Caller → Caller}
    (hCallers : u.callers = s.callers.modify c f) (hQuery : (f caller).query = caller.query)
    (hSilent : ∀ response, (f caller).phase ≠ .answered response)
    (hPairs : ∀ e ∈ (f caller).phase.pairs, e ∈ caller.phase.pairs ∨
      AskedAt u e.1 e.2.call caller.query ∧
        ∀ conn, s.conns[e.1]? = some conn → conn.calls.length ≤ e.2.call) :
    Sourced u source := by
  -- an answer of `u` is one of `s`
  have hOld : ∀ (c' : Nat) (caller' : Caller) (response : Bytes), u.callers[c']? = some caller' →
      caller'.phase = .answered response → s.callers[c']? = some caller' := by
    intro c' caller' response hc' hPhase
    rw [hCallers] at hc'
    rcases getElem?_modify_cases hc hc' with ⟨rfl, rfl⟩ | ⟨-, hc'⟩
    · exact absurd hPhase (hSilent response)
    · exact hc'
  refine ⟨fun c' caller' hc' e he => ?_, fun c' caller' response hc' hPhase => ?_,
    fun c₀ caller₀ response h₀ hPhase c' caller' hc' e he => ?_,
    fun c₁ c₂ caller₁ caller₂ r₁ r₂ h₁ h₂ hPhase₁ hPhase₂ => ?_⟩
  · rw [hCallers] at hc'
    rcases getElem?_modify_cases hc hc' with ⟨rfl, rfl⟩ | ⟨-, hc'⟩
    · rw [hQuery]
      rcases hPairs e he with hHad | ⟨hNew, -⟩
      · exact hLater.asked (h.asked _ caller hc e hHad)
      · exact hNew
    · exact hLater.asked (h.asked c' caller' hc' e he)
  · obtain ⟨hAsked, hAnswered⟩ := h.answered c' caller' response (hOld _ _ _ hc' hPhase) hPhase
    exact ⟨hLater.asked hAsked, hLater.answered hAnswered⟩
  · have hAnswer := hOld c₀ caller₀ response h₀ hPhase
    rw [hCallers] at hc'
    rcases getElem?_modify_cases hc hc' with ⟨rfl, rfl⟩ | ⟨-, hc'⟩
    · rcases hPairs e he with hHad | ⟨-, hFresh⟩
      · exact h.free c₀ caller₀ response hAnswer hPhase _ caller hc e hHad
      · -- a new call is none that has returned
        intro hEq
        obtain ⟨-, conn, hk, hReturned⟩ := h.answered c₀ caller₀ response hAnswer hPhase
        rw [← hEq] at hk hReturned
        obtain ⟨call, hn, -⟩ := Option.map_eq_some_iff.mp hReturned
        have hLt := (List.getElem?_eq_some_iff.mp hn).1
        exact absurd (hFresh conn hk) (Nat.not_le.mpr hLt)
    · exact h.free c₀ caller₀ response hAnswer hPhase c' caller' hc' e he
  · exact h.apart c₁ c₂ caller₁ caller₂ r₁ r₂ (hOld _ _ _ h₁ hPhase₁) (hOld _ _ _ h₂ hPhase₂)
      hPhase₁ hPhase₂

/-- One caller moves on with no more than it had. -/
theorem Sourced.pass (h : Sourced s source) (hLater : Later s u)
    (hc : s.callers[c]? = some caller) {f : Caller → Caller}
    (hCallers : u.callers = s.callers.modify c f) (hQuery : (f caller).query = caller.query)
    (hSilent : ∀ response, (f caller).phase ≠ .answered response)
    (hPairs : ∀ e ∈ (f caller).phase.pairs, e ∈ caller.phase.pairs) : Sourced u source :=
  h.advance hLater hc hCallers hQuery hSilent fun e he => .inl (hPairs e he)

theorem Sourced.append (h : Sourced s source) {new : Caller} (hPairs : new.phase.pairs = [])
    (hSilent : ∀ response, new.phase ≠ .answered response) :
    Sourced { s with callers := s.callers ++ [new] } source := by
  have hOld : ∀ (c : Nat) (caller : Caller) (response : Bytes),
      (s.callers ++ [new])[c]? = some caller → caller.phase = .answered response →
      s.callers[c]? = some caller := by
    intro c caller response hc hPhase
    rcases getElem?_append_one hc with hc | ⟨-, rfl⟩
    · exact hc
    · exact absurd hPhase (hSilent response)
  refine ⟨fun c caller hc e he => ?_, fun c caller response hc hPhase => ?_,
    fun c₀ caller₀ response h₀ hPhase c caller hc e he => ?_,
    fun c₁ c₂ caller₁ caller₂ r₁ r₂ h₁ h₂ hPhase₁ hPhase₂ => ?_⟩
  · rcases getElem?_append_one hc with hc | ⟨-, rfl⟩
    · exact h.asked c caller hc e he
    · rw [hPairs] at he
      cases he
  · exact h.answered c caller response (hOld _ _ _ hc hPhase) hPhase
  · rcases getElem?_append_one hc with hc | ⟨-, rfl⟩
    · exact h.free c₀ caller₀ response (hOld _ _ _ h₀ hPhase) hPhase c caller hc e he
    · rw [hPairs] at he
      cases he
  · exact h.apart c₁ c₂ caller₁ caller₂ r₁ r₂ (hOld _ _ _ h₁ hPhase₁) (hOld _ _ _ h₂ hPhase₂)
      hPhase₁ hPhase₂

/-- The permit that was just taken is for this query, and new. -/
theorem tryReserve_asked {query : Bytes} {permit : Permit}
    (hReserve : s.tryReserve k query = some (permit, s')) :
    AskedAt s' k permit.call query ∧
      ∀ conn, s.conns[k]? = some conn → conn.calls.length ≤ permit.call := by
  obtain ⟨conn, hk, hInside, rfl⟩ := tryReserve_eq_some.mp hReserve
  obtain ⟨conn₀, conn', hk₀, hStep, rfl⟩ := inside_eq_some.mp hInside
  rw [hk] at hk₀
  cases hk₀
  refine ⟨⟨conn', List.getElem?_set_self (List.getElem?_eq_some_iff.mp hk).1, ?_⟩, ?_⟩
  · cases (step_moves hStep).2 with
    | reserve hAvail =>
      show ((conn.calls ++ [_])[conn.calls.length]?).map Call.query = some query
      rw [List.getElem?_append_right (Nat.le_refl _), Nat.sub_self]
      rfl
  · intro found hFound
    rw [hk] at hFound
    cases hFound
    exact Nat.le_refl _

/-- The end of `connection.query`, as `query_wire` sees it. -/
theorem finish_cases {u : DotPool} (hStep : poolStep s (.finish c) = some u) :
    ∃ caller k permit, s.callers[c]? = some caller ∧ caller.phase = .querying k permit ∧
      ((∃ response, s.callPhase? k permit = some (.returned (.ok response)) ∧
          u = s.goto c (.answered response)) ∨
        (∃ failure, u = s.retry c caller failure) ∨ u = s.goto c .gone) := by
  obtain ⟨caller, hc, h⟩ : ∃ caller, s.callers[c]? = some caller ∧
      s.stepCaller c caller (.finish c) = some u := Option.bind_eq_some_iff.mp hStep
  simp only [DotPool.stepCaller] at h
  split at h
  · rename_i k permit hPhase
    refine ⟨caller, k, permit, hc, hPhase, ?_⟩
    split at h
    · rename_i response hReturned
      exact .inl ⟨response, hReturned, (Option.some.inj h).symm⟩
    · rename_i failure hReturned
      exact .inr (.inl ⟨failure, (Option.some.inj h).symm⟩)
    · exact .inr (.inr (Option.some.inj h).symm)
    · cases h
  · cases h

/-- The caller that returns an answer gives up the call it came from. -/
theorem Sourced.answer {permit : Permit} {response : Bytes} (h : Sourced s source)
    (hPermits : Permits s) (hc : s.callers[c]? = some caller)
    (hPhase : caller.phase = .querying k permit)
    (hReturned : s.callPhase? k permit = some (.returned (.ok response))) :
    Sourced (s.goto c (.answered response)) (Function.update source c (k, permit.call)) := by
  have hPair : (k, permit) ∈ caller.phase.pairs := by
    rw [hPhase]
    exact List.mem_singleton_self _
  have hAsked := h.asked c caller hc _ hPair
  have hSem := (hPermits.held c caller hc _ hPair).1
  obtain ⟨conn, hk, hCall⟩ := Option.bind_eq_some_iff.mp hReturned
  -- nobody else has a permit of this call
  have hOthers : ∀ (c' : Nat) (caller' : Caller), c' ≠ c → s.callers[c']? = some caller' →
      ∀ e ∈ caller'.phase.pairs, (e.1, e.2.call) ≠ (k, permit.call) := by
    intro c' caller' hne hc' e he hEq
    obtain ⟨hSem', -⟩ := hPermits.held c' caller' hc' e he
    obtain ⟨e₁, semaphore, call⟩ := e
    obtain ⟨semaphore', call'⟩ := permit
    dsimp only at hSem hSem' hEq
    obtain ⟨rfl, rfl⟩ := Prod.mk.inj hEq
    subst hSem hSem'
    exact hPermits.apart c c' caller caller' hc hc' hne.symm _ hPair he
  refine ⟨fun c' caller' hc' e he => ?_, fun c' caller' r hc' hAnswer => ?_,
    fun c₀ caller₀ r h₀ hAnswer c' caller' hc' e he => ?_,
    fun c₁ c₂ caller₁ caller₂ r₁ r₂ h₁ h₂ hAnswer₁ hAnswer₂ hEq => ?_⟩
  · rcases getElem?_modify_cases hc hc' with ⟨rfl, rfl⟩ | ⟨-, hc'⟩
    · cases he
    · exact h.asked c' caller' hc' e he
  · rcases getElem?_modify_cases hc hc' with ⟨rfl, rfl⟩ | ⟨hne, hc'⟩
    · rw [Function.update_self]
      cases hAnswer
      exact ⟨hAsked, conn, hk, hCall⟩
    · rw [Function.update_of_ne hne]
      exact h.answered c' caller' r hc' hAnswer
  · rcases getElem?_modify_cases hc hc' with ⟨rfl, rfl⟩ | ⟨hne, hOld⟩
    · cases he
    · rcases getElem?_modify_cases hc h₀ with ⟨rfl, -⟩ | ⟨hne₀, h₀⟩
      · rw [Function.update_self]
        exact hOthers c' caller' hne hOld e he
      · rw [Function.update_of_ne hne₀]
        exact h.free c₀ caller₀ r h₀ hAnswer c' caller' hOld e he
  · -- the call was still held when the earlier answers were returned
    have hNew : ∀ (c' : Nat) (caller' : Caller) (r : Bytes), s.callers[c']? = some caller' →
        caller'.phase = .answered r → source c' ≠ (k, permit.call) :=
      fun c' caller' r hc' hAnswer hSame =>
        h.free c' caller' r hc' hAnswer c caller hc _ hPair hSame.symm
    rcases getElem?_modify_cases hc h₁ with ⟨rfl, -⟩ | ⟨hne₁, hOld₁⟩
    · rcases getElem?_modify_cases hc h₂ with ⟨rfl, -⟩ | ⟨hne₂, hOld₂⟩
      · rfl
      · rw [Function.update_self, Function.update_of_ne hne₂] at hEq
        exact absurd hEq.symm (hNew c₂ caller₂ r₂ hOld₂ hAnswer₂)
    · rcases getElem?_modify_cases hc h₂ with ⟨rfl, -⟩ | ⟨hne₂, hOld₂⟩
      · rw [Function.update_self, Function.update_of_ne hne₁] at hEq
        exact absurd hEq (hNew c₁ caller₁ r₁ hOld₁ hAnswer₁)
      · rw [Function.update_of_ne hne₁, Function.update_of_ne hne₂] at hEq
        exact h.apart c₁ c₂ caller₁ caller₂ r₁ r₂ hOld₁ hOld₂ hAnswer₁ hAnswer₂ hEq

theorem Sourced.finish (h : Sourced s source) (hPermits : Permits s)
    (hStep : poolStep s (.finish c) = some u) : ∃ source', Sourced u source' := by
  obtain ⟨caller, k, permit, hc, hPhase, hEnd⟩ := finish_cases hStep
  rcases hEnd with ⟨response, hReturned, rfl⟩ | ⟨failure, rfl⟩ | rfl
  · exact ⟨_, h.answer hPermits hc hPhase hReturned⟩
  · refine ⟨source, ?_⟩
    have hEmpty : ∀ (e : Nat × Permit), e ∈ ([] : List (Nat × Permit)) →
        e ∈ caller.phase.pairs := fun e he => by cases he
    unfold DotPool.retry
    split
    · split
      · exact h.pass (later_refl rfl) hc rfl rfl (fun r hEq => by cases hEq) hEmpty
      · exact h.pass (later_refl rfl) hc rfl rfl (fun r hEq => by cases hEq) hEmpty
    · exact h.pass (later_refl rfl) hc rfl rfl (fun r hEq => by cases hEq) hEmpty
  · exact ⟨source, h.pass (later_refl rfl) hc rfl rfl (fun r hEq => by cases hEq)
      fun e he => by cases he⟩

/-- **One step.** -/
theorem sourced_step {label : PoolLabel} (hPermits : Permits s) (h : ∃ source, Sourced s source)
    (hStep : poolStep s label = some u) : ∃ source, Sourced u source := by
  obtain ⟨source, h⟩ := h
  have hLater := later_step hStep
  cases poolStep_moves hStep with
  | query | keepalive => exact ⟨source, h.append rfl fun r hEq => by cases hEq⟩
  | inside hInside =>
    obtain ⟨conn, conn', -, -, rfl⟩ := inside_eq_some.mp hInside
    refine ⟨source, fun c caller hc e he => hLater.asked (h.asked c caller hc e he),
      fun c caller r hc hPhase => ?_, h.free, h.apart⟩
    obtain ⟨hAsked, hAnswered⟩ := h.answered c caller r hc hPhase
    exact ⟨hLater.asked hAsked, hLater.answered hAnswered⟩
  | finished => exact h.finish hPermits hStep
  | cloned hc hPhase hNext =>
    refine ⟨source, h.pass hLater hc rfl rfl ?_ ?_⟩
    · rcases hNext with rfl | rfl <;> exact fun r hEq => by cases hEq
    · rcases hNext with rfl | rfl <;> exact fun e he => by cases he
  | scanFound hc hPhase hReserve | acquire hc hPhase hReserve | reserve hc hPhase hReserve =>
    obtain ⟨hAsked, hNew⟩ := tryReserve_asked hReserve
    obtain ⟨conn, -, hInside, -⟩ := tryReserve_eq_some.mp hReserve
    obtain ⟨_, _, -, -, rfl⟩ := inside_eq_some.mp hInside
    refine ⟨source, h.advance hLater hc rfl rfl (fun r hEq => by cases hEq) fun e he => .inr ?_⟩
    cases List.mem_singleton.mp he
    exact ⟨hAsked, hNew⟩
  | probeTaken hc hPhase hReserve =>
    obtain ⟨hAsked, hNew⟩ := tryReserve_asked hReserve
    obtain ⟨conn, -, hInside, -⟩ := tryReserve_eq_some.mp hReserve
    obtain ⟨_, _, -, -, rfl⟩ := inside_eq_some.mp hInside
    refine ⟨source, h.advance hLater hc rfl rfl (fun r hEq => by cases hEq) fun e he => ?_⟩
    rw [hPhase]
    refine (List.mem_append.mp he).imp_right fun hMem => ?_
    cases List.mem_singleton.mp hMem
    exact ⟨hAsked, hNew⟩
  | dead hc hPhase hDrop | cancelPushing hc hPhase hDrop =>
    obtain ⟨_, _, -, -, rfl⟩ := inside_eq_some.mp hDrop
    exact ⟨source, h.pass hLater hc rfl rfl (fun r hEq => by cases hEq) fun e he => by cases he⟩
  | alive hc hPhase | push hc hPhase | probeSkipped hc hPhase | probesMade hc hPhase =>
    refine ⟨source, h.pass hLater hc rfl rfl (fun r hEq => by cases hEq) fun e he => ?_⟩
    rw [hPhase]
    exact he
  | lock hc | retainNext hc | retained hc | scanNext hc | scanWait hc | scanQueue hc
  | scanConnect hc | scanAgain hc | dial hc | connected hc | connectFailed hc | reserveFailed hc
  | leave hc | cancelLocking hc | cancelIdle hc | cancelConnecting hc =>
    exact ⟨source, h.pass hLater hc rfl rfl (fun r hEq => by cases hEq) fun e he => by cases he⟩

end SourcedSteps

/-- What callers have returned has its source. -/
theorem sourced_run {labels : List PoolLabel} {s : DotPool} (hRun : run poolStep .new labels = some s) :
    Permits s ∧ ∃ source, Sourced s source := by
  refine run_invariant (I := fun s => Permits s ∧ ∃ source, Sourced s source)
    (fun _ _ _ h hStep => ⟨permits_step h.1 hStep, sourced_step h.1 h.2 hStep⟩) ⟨?_, ?_⟩ hRun
  · exact (pool_run (rfl : run poolStep .new [] = some .new)).2
  · exact ⟨fun _ => (0, 0), fun c caller hc => (by cases hc), fun c caller r hc => (by cases hc),
      fun c caller r hc => (by cases hc), fun c c' caller caller' r r' hc => (by cases hc)⟩

/-- The call whose response a caller has returned. -/
theorem Sourced.call {s : DotPool} {source : Nat → Nat × Nat} (h : Sourced s source)
    (hPermits : Permits s) {c : Nat} {caller : Caller} {response : Bytes}
    (hc : s.callers[c]? = some caller) (hPhase : caller.phase = .answered response) :
    ∃ conn call a, s.conns[(source c).1]? = some conn ∧ conn.calls[(source c).2]? = some call ∧
      call.query = caller.query ∧ call.phase = .returned (.ok response) ∧ call.assigned = some a ∧
      a.Fits caller.query ∧ a.Accepts response := by
  obtain ⟨⟨conn, hk, hQuery⟩, conn', hk', hReturned⟩ := h.answered c caller response hc hPhase
  rw [hk] at hk'
  cases hk'
  obtain ⟨call, hn, hQuery⟩ := Option.map_eq_some_iff.mp hQuery
  rw [DotConnection.phase?, hn, Option.map_some] at hReturned
  obtain ⟨labels', hConn⟩ := hPermits.started _ conn hk
  -- the call was given the response by the reader
  have hOk := (book_run hConn).calls _ call hn
  obtain ⟨a, hAssigned, hAccepts⟩ :=
    hOk.accepted response (hOk.returned response (Option.some.inj hReturned))
  exact ⟨conn, call, a, hk, hn, hQuery, Option.some.inj hReturned, hAssigned,
    hQuery ▸ hOk.fits a hAssigned, hAccepts⟩

/-- It was received on the connection of that call. -/
theorem Sourced.received {labels : List PoolLabel} {s : DotPool} {source : Nat → Nat × Nat}
    (h : Sourced s source) (hPermits : Permits s) (hRun : run poolStep .new labels = some s) {c : Nat}
    {caller : Caller} {response : Bytes} (hc : s.callers[c]? = some caller)
    (hPhase : caller.phase = .answered response) :
    PoolLabel.inside (source c).1 (.receive response) ∈ labels := by
  obtain ⟨conn, call, -, hk, hn, -, hReturned, -⟩ := h.call hPermits hc hPhase
  obtain ⟨labels', hConn⟩ := hPermits.started _ conn hk
  have hSent := ((book_run hConn).calls _ call hn).returned response hReturned
  have hGot : response ∈ call.got := List.mem_filterMap.mpr ⟨_, hSent, rfl⟩
  rcases gotAt_run hRun ⟨conn, call, hk, hn, hGot⟩ with hMem | ⟨conn', call', hNone, -⟩
  · exact hMem
  · -- a new pool has no connections
    cases hNone

/-- **Every answer is an answer to the caller's own query.** Whatever callers, connections and
peers do: when `query_wire` has returned a response, it is what one call on one connection of
the pool returned; that call was made for this caller's query, sent it under an ID of its own,
and the response was received on that connection, has that ID, has QR set and matches the
question. No two callers return the response of the same call. -/
theorem query_wire_answers {labels : List PoolLabel} {s : DotPool}
    (hRun : run poolStep .new labels = some s) :
    ∃ source : Nat → Nat × Nat,
      (∀ (c : Nat) (caller : Caller) (response : Bytes), s.callers[c]? = some caller →
        caller.phase = .answered response →
        ∃ conn call a, s.conns[(source c).1]? = some conn ∧
          conn.calls[(source c).2]? = some call ∧ call.query = caller.query ∧
          call.phase = .returned (.ok response) ∧ call.assigned = some a ∧
          a.Fits caller.query ∧ a.Accepts response ∧
          PoolLabel.inside (source c).1 (.receive response) ∈ labels) ∧
      ∀ (c c' : Nat) (caller caller' : Caller) (response response' : Bytes),
        s.callers[c]? = some caller → s.callers[c']? = some caller' →
        caller.phase = .answered response → caller'.phase = .answered response' →
        source c = source c' → c = c' := by
  obtain ⟨hPermits, source, hSourced⟩ := sourced_run hRun
  refine ⟨source, fun c caller response hc hPhase => ?_, hSourced.apart⟩
  obtain ⟨conn, call, a, hk, hn, hQuery, hReturned, hAssigned, hFits, hAccepts⟩ :=
    hSourced.call hPermits hc hPhase
  exact ⟨conn, call, a, hk, hn, hQuery, hReturned, hAssigned, hFits, hAccepts,
    hSourced.received hPermits hRun hc hPhase⟩

/-- One caller dials and is answered under the ID 7. -/
def dialAndAsk : List PoolLabel :=
  [.query rootQuery, .lock 0, .retain 0, .scan 0, .dial 0, .lock 0, .retain 0, .scan 0,
    .connected 0, .reserve 0, .push 0, .inside 0 (.check 0), .inside 0 (.lock 0),
    .inside 0 (.recheck 0), .inside 0 (.insert 0 7), .inside 0 (.send 0), .inside 0 .write,
    .inside 0 (.receive rootResponse), .inside 0 (.deliver 0), .finish 0]

theorem query_wire_answers_root :
    ∃ s, run poolStep .new dialAndAsk = some s ∧
      s.callers.map Caller.phase = [.answered rootResponse] ∧
      ∃ a : Assigned, a.Fits rootQuery ∧ a.Accepts rootResponse := by
  have hView : (run poolStep .new dialAndAsk).map (fun s =>
      s.callers.map fun caller => (caller.query, caller.phase)) =
        some [(rootQuery, .answered rootResponse)] := by decide +kernel
  obtain ⟨s, hRun, hCallers⟩ := Option.map_eq_some_iff.mp hView
  obtain ⟨caller, hOne⟩ : ∃ caller, s.callers = [caller] := by
    rw [← List.length_eq_one_iff]
    have hLen := congrArg List.length hCallers
    rwa [List.length_map] at hLen
  rw [hOne] at hCallers
  obtain ⟨hQuery, hPhase⟩ := Prod.mk.inj (List.cons.inj hCallers).1
  obtain ⟨source, hAnswers, -⟩ := query_wire_answers hRun
  obtain ⟨conn, call, a, -, -, -, -, -, hFits, hAccepts, -⟩ :=
    hAnswers 0 caller rootResponse (by rw [hOne]; rfl) hPhase
  refine ⟨s, hRun, ?_, a, hQuery ▸ hFits, hAccepts⟩
  rw [hOne, List.map_singleton, hPhase]

end DnsRs.Dot
