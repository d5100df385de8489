import DnsRs.Dot.PoolAnswers
import DnsRs.Upstream.Doh
import DnsRs.Wire.Answering

/-!
# What `resolve_wire` returns

A query that is not answered here goes to `MultiUpstream::resolve_wire`. It is given to a list of
upstreams, each of them a DoT pool or a DoH server; each sends it under an ID of its own and
checks what comes back; the strategy takes one of the responses, or none; and the ID of the
query is put back.

The layers are modelled on their own. Here they are put on top of each other: `Resolves` is one
upstream, with a whole run of a pool or an exchange over HTTP behind it, `Comes` a strategy with
its events and timeouts, and `Returned` the result of `resolve_wire`.

* `resolve_wire_answers` — whatever is returned answers the query (`Answers`): its ID, QR set,
  and its question up to ASCII case.
-/

namespace DnsRs.Upstream

open Lib Wire

/-! ## One upstream -/

/-- `SingleUpstream::resolve` comes to this result for `query`. What errors say is open. -/
inductive Resolves (query : Bytes) : Except String Bytes → Prop where
  /-- some caller of the pool has returned this, after any run of it -/
  | dot {labels : List Dot.PoolLabel} {pool : Dot.DotPool} {c : Nat} {caller : Dot.Caller}
      {response : Bytes} (hRun : run Dot.poolStep .new labels = some pool)
      (hCaller : pool.callers[c]? = some caller) (hQuery : caller.query = query)
      (hPhase : caller.phase = .answered response) : Resolves query (.ok response)
  | dotFails (err : String) : Resolves query (.error err)
  | doh {url : String} {expectedId : UInt16} {first second : Except HttpError Bytes}
      {result : Except String Bytes}
      (hResult : resolveDoh url query expectedId first second = .ok result) : Resolves query result

/-- What both backends check before they pass a response on: it is a response, and its question
is the one that was sent. -/
structure Checked (query response : Bytes) : Prop where
  long : 2 ≤ response.length
  qr : Dot.qrSet response = true
  question : ∃ id outgoing key, setId query id = .ok outgoing ∧
    QuestionKey.fromWire outgoing = .ok key ∧ key.matches response = .ok true

theorem Resolves.checked {query response : Bytes} (h : Resolves query (.ok response)) :
    Checked query response := by
  generalize hResult : Except.ok response = result at h
  cases h with
  | dot hRun hCaller hQuery hPhase =>
    cases hResult
    obtain ⟨hPermits, source, hSourced⟩ := Dot.sourced_run hRun
    obtain ⟨conn, call, a, -, -, -, -, -, hFits, hAccepts⟩ := hSourced.call hPermits hCaller hPhase
    obtain ⟨outgoing, hOutgoing, -, hKey, -⟩ := hFits.outgoing
    rw [hQuery] at hOutgoing
    exact ⟨hAccepts.long, hAccepts.qr, a.id, outgoing, a.expectedQuestion, hOutgoing, hKey,
      hAccepts.question⟩
  | dotFails => cases hResult
  | doh hResult' =>
    subst hResult
    obtain ⟨hLong, hQr, -, outgoing, key, hOutgoing, hKey, hMatches⟩ := resolveDoh_eq_ok hResult'
    exact ⟨hLong, hQr, _, outgoing, key, hOutgoing, hKey, hMatches⟩

/-- The ID under which the query was sent is not part of the question. -/
theorem Checked.sameAsked {query response : Bytes} (h : Checked query response) :
    SameAsked query response := by
  obtain ⟨id, outgoing, key, hOutgoing, hKey, hMatches⟩ := h.question
  obtain ⟨p, q, hp, hq, hEq⟩ := sameAsked_of_matches hKey hMatches
  exact ⟨p, q, questionOf_setId hOutgoing ▸ hp, hq, hEq⟩

/-! ## The strategies, with timeouts -/

variable {ε : Type}

/-- A resolution comes to this result, with whatever timeouts pass on the way. -/
inductive Comes (upstreams : List (SingleUpstream ε)) :
    Strategy → Except (ResolveError ε) Bytes → Prop where
  | sequential (timed : List (SingleUpstream ε × Timing)) (hTimed : timed.map Prod.fst = upstreams) :
      Comes upstreams .sequential (resolveSequential timed).result
  | hedged {events : List HedgeEvent} {h : Hedge ε} {result : Except (ResolveError ε) Bytes}
      (hRun : run (stepHedged upstreams) (resolveHedged upstreams) events = some h)
      (hResult : h.result = some result) : Comes upstreams .hedged result
  | race {events : List RaceEvent} {r : Race ε} {result : Except (ResolveError ε) Bytes}
      (hRun : run (stepRace upstreams) (resolveRace upstreams) events = some r)
      (hResult : r.result = some result) : Comes upstreams .race result

theorem sequentialFrom_answer {timed : List (SingleUpstream ε × Timing)} {index : Nat}
    {lastErr : Option (ResolveError ε)} {response : Bytes}
    (h : (sequentialFrom index timed lastErr).result = .ok response) :
    ∃ upstream timing, (upstream, timing) ∈ timed ∧ upstream.outcome = .ok response := by
  -- by induction on the upstreams that are left, with any error before them
  induction timed generalizing index lastErr with
  | nil => cases h
  | cons first rest ih =>
    obtain ⟨upstream, timing⟩ := first
    have hLater : ∀ {lastErr : Option (ResolveError ε)},
        (sequentialFrom (index + 1) rest lastErr).result = .ok response →
        ∃ upstream' timing', (upstream', timing') ∈ (upstream, timing) :: rest ∧
          upstream'.outcome = .ok response := by
      intro lastErr hRest
      obtain ⟨upstream', timing', hMem, hOutcome⟩ := ih hRest
      exact ⟨upstream', timing', List.mem_cons_of_mem _ hMem, hOutcome⟩
    cases timing with
    | late => cases h
    | expires => exact hLater h
    | answers =>
      unfold sequentialFrom at h
      cases hOutcome : upstream.outcome with
      | ok wire =>
        rw [hOutcome] at h
        cases h
        exact ⟨upstream, .answers, List.mem_cons_self, hOutcome⟩
      | error err =>
        rw [hOutcome] at h
        exact hLater h

/-- A response that is returned is one that an upstream has given. -/
theorem Comes.answer {upstreams : List (SingleUpstream ε)} {strategy : Strategy} {response : Bytes}
    (h : Comes upstreams strategy (.ok response)) :
    ∃ upstream ∈ upstreams, upstream.outcome = .ok response := by
  have hAt : ∀ {i : Nat}, AnswersAt upstreams i response →
      ∃ upstream ∈ upstreams, upstream.outcome = .ok response := by
    rintro i ⟨upstream, hUpstream, hOutcome⟩
    exact ⟨upstream, List.mem_of_getElem? hUpstream, hOutcome⟩
  generalize hResult : Except.ok response = result at h
  cases h with
  | sequential timed hTimed =>
    obtain ⟨upstream, timing, hMem, hOutcome⟩ := sequentialFrom_answer hResult.symm
    exact ⟨upstream, hTimed ▸ List.mem_map_of_mem (f := Prod.fst) hMem, hOutcome⟩
  | hedged hRun hDone =>
    subst hResult
    obtain ⟨i, -, hAnswer⟩ := (hedged_run True (fun _ _ _ => trivial) hRun).1.answer response hDone
    exact hAt hAnswer
  | race hRun hDone =>
    subst hResult
    obtain ⟨i, -, hAnswer⟩ := (race_run True (fun _ _ _ _ => trivial) hRun).1.answer response hDone
    exact hAt hAnswer

/-! ## `resolve_wire` -/

/-- `resolve_wire` returns `wire` for this query: what one of these upstreams has given, with the
ID of the query. -/
structure Returned (upstreams : List (SingleUpstream String)) (strategy : Strategy)
    (query wire : Bytes) : Prop where
  each : ∀ upstream ∈ upstreams, Resolves query upstream.outcome
  result : ∃ result, Comes upstreams strategy result ∧
    resolveWire query result = .ok (.ok wire)

/-- The ID that is put back. -/
theorem be16_originalId {query : Bytes} (h : 2 ≤ query.length) :
    be16 (originalId query) = readAt query 0 2 := by
  rw [originalId, if_pos h]
  rcases query with _ | ⟨b0, _ | ⟨b1, rest⟩⟩
  · simp at h
  · simp at h
  · exact be16_ofBe b0 b1

/-- The response it goes back to. -/
theorem Returned.source {upstreams : List (SingleUpstream String)} {strategy : Strategy}
    {query wire : Bytes} (h : Returned upstreams strategy query wire) :
    ∃ upstream ∈ upstreams, ∃ response, upstream.outcome = .ok response ∧
      Checked query response ∧ setId response (originalId query) = .ok wire := by
  obtain ⟨result, hComes, hWire⟩ := h.result
  cases result with
  | error err => cases hWire
  | ok response =>
    obtain ⟨upstream, hMem, hOutcome⟩ := hComes.answer
    have hResolves := h.each upstream hMem
    rw [hOutcome] at hResolves
    obtain ⟨restored, hSet, hOk⟩ := bind_eq_ok.mp hWire
    cases hOk
    exact ⟨upstream, hMem, response, hOutcome, hResolves.checked, hSet⟩

/-- A response that was checked, with the ID of the query put back. -/
theorem Checked.answers {query response wire : Bytes} (h : Checked query response)
    (hSet : setId response (originalId query) = .ok wire) : Answers query wire := by
  obtain ⟨p, q, hp, hq, hEq⟩ := h.sameAsked
  have hQuery : 2 ≤ query.length := by
    obtain ⟨span, hSpan, -⟩ := questionOf_eq_some.mp hp
    exact Nat.le_trans (by decide) (questionSpan_eq_ok.mp hSpan).1
  refine answers_of_sameAsked ?_ ?_ ⟨p, q, hp, (questionOf_setId hSet).trans hq, hEq⟩
  · rw [readAt_setId h.long hSet, be16_originalId hQuery]
  · have hQr := h.qr
    rw [Dot.qrSet, ← (setId_agreeFrom hSet).same 2 (Nat.le_refl 2)] at hQr
    cases hFlags : wire[2]? with
    | none =>
      rw [hFlags] at hQr
      cases hQr
    | some flags =>
      rw [hFlags] at hQr
      exact ⟨flags, rfl, bne_iff_ne.mp hQr⟩

theorem Returned.answers {upstreams : List (SingleUpstream String)} {strategy : Strategy}
    {query wire : Bytes} (h : Returned upstreams strategy query wire) : Answers query wire := by
  obtain ⟨-, -, response, -, hChecked, hSet⟩ := h.source
  exact hChecked.answers hSet

/-- **Whatever `resolve_wire` returns answers the query.** Over any mix of DoT and DoH upstreams,
any strategy, any order of events and any timeouts, whatever other callers of the pools do and
whatever the servers send: the response has the ID of the query and QR set, it has one
question, and that is the question of the query up to ASCII case. From the third byte on it is
the response that one of the upstreams came to. -/
theorem resolve_wire_answers {upstreams : List (SingleUpstream String)} {strategy : Strategy}
    {query wire : Bytes} (h : Returned upstreams strategy query wire) :
    Answers query wire ∧ ∃ upstream ∈ upstreams, ∃ response, upstream.outcome = .ok response ∧
      wire.length = response.length ∧ wire.drop 2 = response.drop 2 := by
  obtain ⟨upstream, hMem, response, hOutcome, hChecked, hSet⟩ := h.source
  have hAgree := setId_agreeFrom hSet
  refine ⟨hChecked.answers hSet, upstream, hMem, response, hOutcome, hAgree.length, ?_⟩
  refine List.ext_getElem? fun i => ?_
  rw [List.getElem?_drop, List.getElem?_drop]
  exact hAgree.same _ (Nat.le_add_right 2 i)

/-- A DoH server that answers under another ID, and a DoT pool. -/
def strictThenDot : List (SingleUpstream String) :=
  [⟨"doh://a", .error "upstream response ID mismatch"⟩, ⟨"dot://b:853", .ok Dot.rootResponse⟩]

/-- The pool dials and is answered under the ID 7; the caller gets its own ID back. -/
theorem resolve_wire_answers_root :
    Returned strictThenDot .sequential Dot.rootQuery ([0, 0] ++ Dot.rootResponse.drop 2) ∧
      Answers Dot.rootQuery ([0, 0] ++ Dot.rootResponse.drop 2) := by
  have hView : (run Dot.poolStep .new Dot.dialAndAsk).bind (fun pool =>
      (pool.callers[0]?).map fun caller => (caller.query, caller.phase)) =
        some (Dot.rootQuery, .answered Dot.rootResponse) := by decide +kernel
  obtain ⟨pool, hRun, hView⟩ := Option.bind_eq_some_iff.mp hView
  obtain ⟨caller, hCaller, hPair⟩ := Option.map_eq_some_iff.mp hView
  obtain ⟨hQuery, hPhase⟩ := Prod.mk.inj hPair
  have hDoh : resolveDoh "https://a" Dot.rootQuery 3 (.ok Dot.rootResponse) (.error .final) =
      .ok (.error "upstream response ID mismatch") := by decide +kernel
  have hReturned : Returned strictThenDot .sequential Dot.rootQuery
      ([0, 0] ++ Dot.rootResponse.drop 2) := by
    refine ⟨fun upstream hMem => ?_, .ok Dot.rootResponse,
      .sequential (strictThenDot.map (·, .answers)) rfl, rfl⟩
    rcases List.mem_cons.mp hMem with rfl | hMem
    · exact .doh hDoh
    · cases List.mem_singleton.mp hMem
      exact .dot hRun hCaller hQuery hPhase
  exact ⟨hReturned, (resolve_wire_answers hReturned).1⟩

end DnsRs.Upstream
