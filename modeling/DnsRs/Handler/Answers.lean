import DnsRs.Handler.Sources
import DnsRs.Server.Stream
import DnsRs.Upstream.Doh
import DnsRs.Wire.Header
import DnsRs.Wire.Walk

/-!
# What clients can rely on

Three properties of everything `handle_query` returns, read off the sources of the
answers.

* Size: an answer fits the framing of DNS streams exactly as far as the upstream's
  responses do, and nothing bounds the body of a DoH response.
* Header: ID and QR are always right. The opcode is the one of the request that was
  sent upstream, and it is not part of the identity under which answers are shared.
* EDNS: an OPT record reaches those who have sent one as long as requests of one
  identity agree on having one; the identity has the DO bit but not the record.
-/

namespace DnsRs.Handler

open Lib Wire Cache InFlight

variable {RecordType DNSClass Heap : Type} {rr : RrFrom RecordType DNSClass}
  {sys : System RecordType DNSClass Heap} {s : State sys.rr Heap} {enabled : Bool}
  {maxSizeBytes : Nat} {blocked : Bytes → Bool} {labels : List Label}

/-! ## Sizes -/

theorem Request.length_synthesize (q : Request rr) {rcode : UInt8} {answer : Option (Ipv4Addr × Nat)}
    {wire : Bytes} (h : synthesize q.raw q.query rcode answer = .ok wire) :
    wire.length ≤ Server.maxMessageSize :=
  Nat.le_trans (Wire.length_synthesize length_emptyNameBuf q.parsed h) (by decide)

/-- An answer is short, or as long as a response of the upstream. -/
theorem run_lengths [DecidableEq RecordType] [DecidableEq DNSClass] (hA : sys.env.alloc.Lawful)
    (hMax : enabled = true → maxSizeBytes ≤ maxCacheBytes)
    (hRun : run (step sys) (State.start sys enabled maxSizeBytes blocked) labels = some s) :
    ∀ a ∈ s.answers, a.response.length ≤ Server.maxMessageSize ∨
      ∃ raw wire, (raw, some wire) ∈ s.upstream ∧ a.response.length = wire.length := by
  intro a ha
  rcases run_sources hA hMax hRun a ha with hLocal | ⟨-, q, q', hServed⟩
  · left
    cases hLocal with
    | formerr hParse hResponse =>
      rw [hResponse, length_bareError]
      decide
    | @synthesized q rcode answer hRaw hResponse => exact q.length_synthesize hResponse
  · obtain ⟨wire, hSource, hId⟩ := hServed.response
    -- neither the ID nor aged TTLs change the length
    have hLength := (setId_agreeFrom hId).length
    cases hSource with
    | fetched hMem => exact .inr ⟨_, wire, hMem, hLength⟩
    | @aged original elapsedSecs forceZero done hMem hAge =>
      exact .inr ⟨_, original, hMem, hLength.trans (ageTtls_walk hAge).1.length⟩
    | failed hMem hWire => exact .inl (hLength ▸ q'.length_synthesize hWire)

/-- **Answers fit the framing.** In a run in which no response of the upstream is
longer than a DNS message can be, neither is an answer, and the writer of a stream
skips none. -/
theorem answers_fit [DecidableEq RecordType] [DecidableEq DNSClass] (hA : sys.env.alloc.Lawful)
    (hMax : enabled = true → maxSizeBytes ≤ maxCacheBytes)
    (hRun : run (step sys) (State.start sys enabled maxSizeBytes blocked) labels = some s)
    (hBodies : ∀ raw wire, (raw, some wire) ∈ s.upstream → wire.length ≤ Server.maxMessageSize) :
    ∀ a ∈ s.answers, a.response.length ≤ Server.maxMessageSize ∧
      Server.frame a.response = some (Server.framed a.response) := by
  intro a ha
  have hLength : a.response.length ≤ Server.maxMessageSize := by
    rcases run_lengths hA hMax hRun a ha with hShort | ⟨raw, wire, hMem, hEq⟩
    · exact hShort
    · exact hEq ▸ hBodies raw wire hMem
  refine ⟨hLength, if_pos ?_⟩
  rw [Server.maxMessageSize] at hLength
  omega

theorem answers_fit_busyMinute :
    ∃ s, run (step smallSystem) (State.start smallSystem true 128 fun _ => false) busyMinute =
        some s ∧
      s.answers.length = 4 ∧ ∀ a ∈ s.answers, a.response.length ≤ Server.maxMessageSize ∧
        Server.frame a.response = some (Server.framed a.response) := by
  have hView : (run (step smallSystem) (State.start smallSystem true 128 fun _ => false)
      busyMinute).map (fun s => (s.answers.length, s.upstream)) =
        some (4, [(ask 4 0x62, none), (ask 1 0x61, some told)]) := by
    decide +kernel
  obtain ⟨s, hRun, hFields⟩ := Option.map_eq_some_iff.mp hView
  obtain ⟨hCount, hUpstream⟩ := Prod.mk.injEq .. ▸ hFields
  refine ⟨s, hRun, hCount,
    answers_fit FirstFit.allocator_lawful (fun _ => by decide) hRun fun raw wire hMem => ?_⟩
  rw [hUpstream] at hMem
  simp only [List.mem_cons, Prod.mk.injEq, reduceCtorEq, and_false, false_or, Option.some.injEq,
    List.not_mem_nil, or_false] at hMem
  rw [hMem.2]
  decide

/-- A client that fetches for itself gets what the upstream returns. -/
theorem fetch_answered [DecidableEq RecordType] [DecidableEq DNSClass] (hA : sys.env.alloc.Lawful)
    {owner : Nat → Option (FlightKey RecordType DNSClass)} (h : Traced owner s) {t cell : Nat}
    {q : Request sys.rr} {key : FlightKey RecordType DNSClass}
    (ht : s.tasks t = .inFlight q .client (.fetching (some (key, cell)) .resolving)) (wire : Bytes)
    (hTtl : (sys.fromVec wire).bind responseTtl = none) :
    ∃ u response,
      run (step sys) s [.resolved t (some wire), .settle t 0 0 0, .publish t, .remove t, .reply t] =
        some u ∧
      response.length = wire.length ∧ u.upstream = (q.raw, some wire) :: s.upstream ∧
      ⟨q.raw, .miss, response⟩ ∈ u.answers := by
  obtain ⟨response, hId, hLength, -⟩ := setId_total wire q.query.id
  -- the only call that could panic is the release of the claim
  obtain ⟨cache, hRelease⟩ : ∃ cache,
      s.cache.releaseRefreshClaimWithFlags sys.env q.key 0 = .ok cache := by
    obtain ⟨out, cache, events, hOk, -⟩ := apply_spec hA h.cache.sound (.release q.key 0)
    obtain ⟨cache, hRelease, -⟩ := bind_eq_ok.mp hOk
    exact ⟨cache, hRelease⟩
  have hSteps : (run (step sys) s
      [.resolved t (some wire), .settle t 0 0 0, .publish t, .remove t, .reply t]).map
        (fun u => (u.upstream, u.answers)) =
      some ((q.raw, some wire) :: s.upstream, ⟨q.raw, .miss, response⟩ :: s.answers) := by
    simp only [run, step, h.alive, Option.isSome_none, Bool.false_eq_true, ↓reduceIte, stepLive, ht,
      State.goto, stepSettle, State.attempt, Role.resume, State.answer, Option.bind_fun_some,
      Option.bind_some, Function.update_self, hTtl, hRelease, Function.update_idem, hId,
      Option.map_some]
  obtain ⟨u, hRun, hFields⟩ := Option.map_eq_some_iff.mp hSteps
  obtain ⟨hUpstream, hAnswers⟩ := Prod.mk.injEq .. ▸ hFields
  exact ⟨u, response, hRun, hLength, hUpstream, hAnswers ▸ List.mem_cons_self⟩

/-- The request a client is fetching for itself. -/
def Task.ownFetch : Task rr → Option Bytes
  | .inFlight q .client (.fetching (some _) .resolving) => some q.raw
  | _ => none

theorem Task.ownFetch_eq_some {task : Task rr} {raw : Bytes} (h : task.ownFetch = some raw) :
    ∃ q key cell, task = .inFlight q .client (.fetching (some (key, cell)) .resolving) ∧
      q.raw = raw := by
  unfold Task.ownFetch at h
  split at h
  · rename_i q place
    cases h
    exact ⟨q, place.1, place.2, rfl, rfl⟩
  · cases h

/-- A server that finds no TTL in a response, as in one without records. -/
def recordlessSystem : System Nat Nat FirstFit.Heap :=
  { smallSystem with fromVec := fun _ => some ⟨.noError, [], []⟩ }

/-- A response to `ask 1 0x61` without records, and 65536 zeros behind it. -/
def padded : Bytes :=
  [0, 1, 0x81, 0x80, 0, 1, 0, 0, 0, 0, 0, 0] ++ ([1, 0x61, 0, 0, 1, 0, 1] ++ List.replicate 65536 0)

theorem length_padded : padded.length = 65555 := by
  rw [padded, List.length_append, List.length_append, List.length_replicate]
  rfl

theorem padded_answers : Answers (ask 1 0x61) padded where
  id := rfl
  qr := ⟨0x81, rfl, by decide⟩
  qdcount := rfl
  question := by
    intro span hSpan
    have hSpan' : questionSpan (ask 1 0x61) = .ok ⟨12, 19⟩ := by decide +kernel
    cases hSpan.symm.trans hSpan'
    refine ⟨?_, rfl⟩
    rw [length_padded]
    decide

/-- An HTTP body of that length passes every check. -/
theorem padded_delivers : Upstream.Delivers (ask 1 0x61) padded padded := by
  have hQuery : setId (ask 1 0x61) (1 : UInt16).toNat = .ok (ask 1 0x61) := setId_self 0 1 _
  have hSame : setId padded (Upstream.originalId (ask 1 0x61)) = .ok padded := setId_self 0 1 _
  obtain ⟨key, hKey⟩ : ∃ key, settle (QuestionKey.fromWire (ask 1 0x61)) = .ok (some key) := by
    rcases (fromWire_noFault (ask 1 0x61)).settle with hNone | ⟨key, -, hSome⟩
    · have hFound : settle (QuestionKey.fromWire (ask 1 0x61)) ≠ .ok none := by decide +kernel
      exact absurd hNone hFound
    · exact ⟨key, hSome⟩
  have hMatches := matches_of_answers padded_answers (settle_eq_some.mp hKey)
  have hId : ¬¬ (2 ≤ padded.length ∧ Dot.responseId padded = (1 : UInt16).toNat) := by
    rw [not_not, length_padded]
    exact ⟨by decide, rfl⟩
  refine ⟨"https://resolver/dns-query", 1, ?_, ?_⟩
  · unfold Upstream.resolveDoh Upstream.queryDoh
    rw [hQuery, ok_bind, hKey, ok_bind]
    dsimp only
    rw [if_neg hId, if_neg (by rw [not_not]; rfl), hMatches, ok_bind]
    rfl
  · rw [Upstream.resolveWire, hSame]
    rfl

/-- A client asks, misses and starts to fetch. -/
def oneMiss : List Label :=
  [.query 0 (ask 1 0x61) 0, .checkMiss 0, .enter 0, .initialise 0]

/-- **An answer that cannot be framed.** The upstream passes all the checks, and the
client of a stream gets no answer at all. -/
theorem oversized_answer_skipped : ∃ labels s,
    run (step recordlessSystem) (State.start recordlessSystem true 128 fun _ => false) labels =
      some s ∧
    (∀ raw wire, (raw, some wire) ∈ s.upstream → ∃ body, Upstream.Delivers raw body wire) ∧
    ∃ a ∈ s.answers, a.raw = ask 1 0x61 ∧ Server.maxMessageSize < a.response.length ∧
      Server.frame a.response = none := by
  have hView : (run (step recordlessSystem) (State.start recordlessSystem true 128 fun _ => false)
      oneMiss).map (fun s => ((s.tasks 0).ownFetch, s.upstream)) = some (some (ask 1 0x61), []) := by
    decide +kernel
  obtain ⟨s, hRun, hFields⟩ := Option.map_eq_some_iff.mp hView
  obtain ⟨hTask, hUpstream⟩ := Prod.mk.injEq .. ▸ hFields
  obtain ⟨q, key, cell, ht, hRaw⟩ := Task.ownFetch_eq_some hTask
  obtain ⟨owner, hTraced⟩ := run_traced FirstFit.allocator_lawful (fun _ => by decide) hRun
  obtain ⟨u, response, hMore, hLength, hUp, hAnswer⟩ :=
    fetch_answered FirstFit.allocator_lawful hTraced ht padded rfl
  rw [length_padded] at hLength
  refine ⟨_, u, run_append_eq_some.mpr ⟨s, hRun, hMore⟩, ?_, _, hAnswer, hRaw, ?_, ?_⟩
  · intro raw wire hMem
    rw [hUp, hUpstream, hRaw, List.mem_singleton, Prod.mk.injEq, Option.some.injEq] at hMem
    obtain ⟨rfl, rfl⟩ := hMem
    exact ⟨padded, padded_delivers⟩
  · rw [hLength]
    decide
  · rw [Server.frame, if_neg (by rw [hLength]; decide)]

/-! ## Headers -/

theorem Request.opcode_eq (q : Request rr) :
    ∃ b, q.raw[2]? = some b ∧ q.query.opcode = opcodeOf b := by
  obtain ⟨b0, b1, b2, b3, pos, nameLen, nameBuf₁, nameLen', qtype, qclass, opt, -,
    ⟨-, -, hb2, -⟩, -, -, -, -, -, -, -, -, hQuery⟩ := parseQuery_eq_ok q.parsed
  exact ⟨b2, hb2, by rw [hQuery]; rfl⟩

/-- What echoes the flags of a request echoes those of another with its opcode. -/
theorem echoesFlags_of_opcode {q q' : Request rr} {wire : Bytes} (h : EchoesFlags q'.raw wire)
    (hOpcode : q.query.opcode = q'.query.opcode) : EchoesFlags q.raw wire := by
  obtain ⟨b, b', hb, hb', hQr, hSame⟩ := h
  obtain ⟨c, hc, hq⟩ := q.opcode_eq
  obtain ⟨c', hc', hq'⟩ := q'.opcode_eq
  rw [hb] at hc'
  cases hc'
  exact ⟨c, b', hc, hb', hQr, by rw [hSame, ← hq', ← hOpcode, hq]⟩

/-- The flags of what comes of a fetch, if the upstream echoes the request's. -/
theorem Source.flags {up : List (Bytes × Option Bytes)} {q : Request rr} {wire : Bytes}
    (h : Source up q wire)
    (hUp : ∀ raw wire, (raw, some wire) ∈ up → EchoesFlags raw wire) : EchoesFlags q.raw wire := by
  cases h with
  | fetched hMem => exact hUp _ _ hMem
  | aged hMem hAge =>
    obtain ⟨b, b', hb, hb', hRest⟩ := hUp _ _ hMem
    exact ⟨b, b', hb, ((ageTtls_walk hAge).1.same 2 (by decide)).trans hb', hRest⟩
  | failed hMem hWire => exact (synthesize_echoes q.parsed hWire).flags

/-- **Headers are echoed.** In a run in which the upstream's responses have QR set
and the opcode of the request they answer, and requests of one identity have one
opcode, every answer has QR set and the ID and the opcode of its request. -/
theorem headers_echoed [DecidableEq RecordType] [DecidableEq DNSClass] (hA : sys.env.alloc.Lawful)
    (hMax : enabled = true → maxSizeBytes ≤ maxCacheBytes)
    (hRun : run (step sys) (State.start sys enabled maxSizeBytes blocked) labels = some s)
    (hUp : ∀ raw wire, (raw, some wire) ∈ s.upstream → EchoesFlags raw wire)
    (hSame : ∀ q q' : Request sys.rr, Asked sys labels q → Asked sys labels q' → q.key = q'.key →
      q.query.opcode = q'.query.opcode) :
    ∀ a ∈ s.answers, 3 ≤ a.raw.length → Echoes a.raw a.response := by
  intro a ha hLen
  rcases run_sources hA hMax hRun a ha with hLocal | ⟨hRemote, q, q', hServed⟩
  · cases hLocal with
    | formerr hParse hResponse =>
      rw [hResponse]
      exact bareError_echoes hLen _
    | @synthesized q rcode answer hRaw hResponse =>
      rw [← hRaw]
      exact synthesize_echoes q.parsed hResponse
  · obtain ⟨hAsked, hAsked'⟩ := run_asked hA hMax hRun ha hRemote hServed
    obtain ⟨wire, hSource, hId⟩ := hServed.response
    -- the opcode is that of the request the fetch was made with
    have hOpcode := hSame q q' hAsked hAsked' hServed.key.symm
    rw [← hServed.raw]
    exact setId_echoes q.parsed hId (echoesFlags_of_opcode (hSource.flags hUp) hOpcode)

/-- One client fetches, and another is answered from the cache. -/
def oneFetch (raw response raw' : Bytes) : List Label :=
  [.query 0 raw 0, .checkMiss 0, .enter 0, .initialise 0, .resolved 0 (some response),
    .settle 0 0 0 0, .publish 0, .remove 0, .reply 0, .query 1 raw' 0, .reply 1]

theorem asked_oneFetch {raw response raw' : Bytes} {q : Request sys.rr}
    (h : Asked sys (oneFetch raw response raw') q) : q.raw = raw ∨ q.raw = raw' := by
  obtain ⟨⟨t, now, hMem⟩, -⟩ := h
  simp only [oneFetch, List.mem_cons, Label.query.injEq, reduceCtorEq, false_or, List.not_mem_nil,
    or_false] at hMem
  rcases hMem with ⟨-, hRaw, -⟩ | ⟨-, hRaw, -⟩
  · exact .inl hRaw
  · exact .inr hRaw

theorem headers_echoed_oneFetch : ∃ s,
    run (step smallSystem) (State.start smallSystem true 128 fun _ => false)
      (oneFetch (ask 1 0x61) told (ask 2 0x61)) = some s ∧
    s.answers.map (fun a => (a.path, a.response.take 3)) =
      [(.fresh, [0, 2, 0x81]), (.miss, [0, 1, 0x81])] ∧
    ∀ a ∈ s.answers, 3 ≤ a.raw.length → Echoes a.raw a.response := by
  have hView : (run (step smallSystem) (State.start smallSystem true 128 fun _ => false)
      (oneFetch (ask 1 0x61) told (ask 2 0x61))).map
        (fun s => (s.upstream, s.answers.map fun a => (a.path, a.response.take 3))) =
      some ([(ask 1 0x61, some told)], [(.fresh, [0, 2, 0x81]), (.miss, [0, 1, 0x81])]) := by
    decide +kernel
  obtain ⟨s, hRun, hFields⟩ := Option.map_eq_some_iff.mp hView
  obtain ⟨hUpstream, hAnswers⟩ := Prod.mk.injEq .. ▸ hFields
  refine ⟨s, hRun, hAnswers,
    headers_echoed FirstFit.allocator_lawful (fun _ => by decide) hRun ?_ ?_⟩
  · intro raw wire hMem
    rw [hUpstream, List.mem_singleton, Prod.mk.injEq, Option.some.injEq] at hMem
    obtain ⟨rfl, rfl⟩ := hMem
    exact ⟨1, 0x81, rfl, rfl, by decide, by decide⟩
  · -- both ask with opcode 0
    have hZero : ∀ q : Request smallSystem.rr,
        Asked smallSystem (oneFetch (ask 1 0x61) told (ask 2 0x61)) q → q.query.opcode = 0 := by
      intro q hAsked
      obtain ⟨b, hb, hOpcode⟩ := q.opcode_eq
      rcases asked_oneFetch hAsked with hRaw | hRaw <;> rw [hRaw] at hb <;> cases hb <;>
        rw [hOpcode] <;> rfl
    intro q q' hq hq' _
    rw [hZero q hq, hZero q' hq']

/-- The same question under another opcode. -/
def askStatus (id letter : UInt8) : Bytes :=
  [0, id, 0x11, 0, 0, 1, 0, 0, 0, 0, 0, 0] ++ [1, letter, 0, 0, 1, 0, 1]

/-- **An answer with another client's opcode.** -/
theorem status_answered_as_query : ∃ s,
    run (step smallSystem) (State.start smallSystem true 128 fun _ => false)
      (oneFetch (ask 1 0x61) told (askStatus 2 0x61)) = some s ∧
    (∀ raw wire, (raw, some wire) ∈ s.upstream → EchoesFlags raw wire) ∧
    ∃ a ∈ s.answers, a.raw = askStatus 2 0x61 ∧ a.path = .fresh ∧ ¬ Echoes a.raw a.response := by
  have hView : (run (step smallSystem) (State.start smallSystem true 128 fun _ => false)
      (oneFetch (ask 1 0x61) told (askStatus 2 0x61))).map (fun s => (s.upstream, s.answers)) =
        some ([(ask 1 0x61, some told)],
          [⟨askStatus 2 0x61, .fresh, [0, 2] ++ told.drop 2⟩,
            ⟨ask 1 0x61, .miss, [0, 1] ++ told.drop 2⟩]) := by
    decide +kernel
  obtain ⟨s, hRun, hFields⟩ := Option.map_eq_some_iff.mp hView
  obtain ⟨hUpstream, hAnswers⟩ := Prod.mk.injEq .. ▸ hFields
  refine ⟨s, hRun, ?_, ⟨askStatus 2 0x61, .fresh, [0, 2] ++ told.drop 2⟩, ?_, rfl, rfl, ?_⟩
  · intro raw wire hMem
    rw [hUpstream, List.mem_singleton, Prod.mk.injEq, Option.some.injEq] at hMem
    obtain ⟨rfl, rfl⟩ := hMem
    exact ⟨1, 0x81, rfl, rfl, by decide, by decide⟩
  · rw [hAnswers]
    exact List.mem_cons_self
  · rintro ⟨-, b, b', hb, hb', -, hOpcode⟩
    cases hb
    cases hb'
    revert hOpcode
    decide

/-! ## OPT records -/

/-- The identity has the DO bit. -/
theorem Request.dnssecOk_of_key {q q' : Request rr} (h : q'.key = q.key) :
    q'.query.dnssecOk = q.query.dnssecOk := by
  have hFlags : cacheFlags q'.query = cacheFlags q.query := congrArg Key.flags h
  rw [cacheFlags, cacheFlags] at hFlags
  revert hFlags
  cases q'.query.dnssecOk <;> cases q.query.dnssecOk <;> cases q'.query.checkingDisabled <;>
    cases q.query.checkingDisabled <;> decide

/-- What comes of a fetch without OPT has none, if the upstream adds none. -/
theorem Source.not_carriesOpt {up : List (Bytes × Option Bytes)} {q : Request rr} {wire : Bytes}
    (h : Source up q wire) (hOpt : q.query.hasOpt = false)
    (hUp : ∀ (q : Request rr) wire, (q.raw, some wire) ∈ up → CarriesOpt wire →
      q.query.hasOpt = true) : ¬ CarriesOpt wire := by
  have hNone : ∀ wire, (q.raw, some wire) ∈ up → ¬ CarriesOpt wire := fun wire hMem hCarries => by
    rw [hUp q wire hMem hCarries] at hOpt
    cases hOpt
  cases h with
  | fetched hMem => exact hNone wire hMem
  | aged hMem hAge =>
    rintro ⟨dnssecOk, hFound⟩
    exact hNone _ hMem ⟨dnssecOk, (ageTtls_walk hAge).2.symm.trans hFound⟩
  | failed hMem hWire =>
    exact not_carriesOpt_of_no_additionals (synthesize_additionals hOpt hWire)

/-- **Clients with and without OPT are kept apart**, in a run in which requests of
one identity agree on having an OPT record. The DO bits agree in any run. -/
theorem opt_kept_apart [DecidableEq RecordType] [DecidableEq DNSClass] (hA : sys.env.alloc.Lawful)
    (hMax : enabled = true → maxSizeBytes ≤ maxCacheBytes)
    (hRun : run (step sys) (State.start sys enabled maxSizeBytes blocked) labels = some s)
    (hSame : ∀ q q' : Request sys.rr, Asked sys labels q → Asked sys labels q' → q.key = q'.key →
      q.query.hasOpt = q'.query.hasOpt) :
    (∀ a ∈ s.answers, a.path.remote = true →
      (∃ q q' : Request sys.rr, ServedFrom s.upstream a q q') ∧
      ∀ q q' : Request sys.rr, ServedFrom s.upstream a q q' →
        q'.query.hasOpt = q.query.hasOpt ∧ q'.query.dnssecOk = q.query.dnssecOk) ∧
    ((∀ (q : Request sys.rr) wire, (q.raw, some wire) ∈ s.upstream → CarriesOpt wire →
        q.query.hasOpt = true) →
      ∀ a ∈ s.answers, ∀ q : Request sys.rr, q.raw = a.raw → q.query.hasOpt = false →
        ¬ CarriesOpt a.response) := by
  have hAgree : ∀ a ∈ s.answers, a.path.remote = true → ∀ q q' : Request sys.rr,
      ServedFrom s.upstream a q q' → q'.query.hasOpt = q.query.hasOpt := by
    intro a ha hRemote q q' hServed
    obtain ⟨hAsked, hAsked'⟩ := run_asked hA hMax hRun ha hRemote hServed
    exact hSame q' q hAsked' hAsked hServed.key
  refine ⟨?_, ?_⟩
  · intro a ha hRemote
    obtain ⟨owner, hTraced⟩ := run_traced hA hMax hRun
    refine ⟨(hTraced.answers a ha).servedFrom hRemote, fun q q' hServed => ?_⟩
    exact ⟨hAgree a ha hRemote q q' hServed, Request.dnssecOk_of_key hServed.key⟩
  · intro hUp a ha q hRaw hPlain
    rcases run_sources hA hMax hRun a ha with hLocal | ⟨hRemote, p, q', hServed⟩
    · cases hLocal with
      | formerr hParse hResponse =>
        -- a request that parses gets no FORMERR
        rw [← hRaw, parseRequest_raw] at hParse
        cases hParse
      | @synthesized p rcode answer hRaw' hResponse =>
        obtain rfl := Request.eq_of_raw (hRaw'.trans hRaw.symm)
        exact not_carriesOpt_of_no_additionals (synthesize_additionals hPlain hResponse)
    · obtain rfl := Request.eq_of_raw (hServed.raw.trans hRaw.symm)
      -- the request that was forwarded had no OPT record either
      have hPlain' := (hAgree a ha hRemote p q' hServed).trans hPlain
      obtain ⟨wire, hSource, hId⟩ := hServed.response
      rintro ⟨dnssecOk, hFound⟩
      refine hSource.not_carriesOpt hPlain' hUp ⟨dnssecOk, ?_⟩
      rw [← hFound]
      exact (optOf_agreeFrom (setId_agreeFrom hId)).symm

/-- A query with an OPT record, DO clear. -/
def askOpt (id letter : UInt8) : Bytes :=
  [0, id, 1, 0, 0, 1, 0, 0, 0, 0, 0, 1] ++ [1, letter, 0, 0, 1, 0, 1] ++
    [0, 0, 41, 4, 0xd0, 0, 0, 0, 0, 0, 0]

/-- `told`, with an OPT record. -/
def toldOpt : Bytes :=
  [9, 9, 0x81, 0x80, 0, 1, 0, 1, 0, 0, 0, 1] ++ [1, 0x61, 0, 0, 1, 0, 1] ++
    [0xc0, 12, 0, 1, 0, 1, 0, 0, 0, 60, 0, 4, 10, 0, 0, 1] ++ [0, 0, 41, 4, 0xd0, 0, 0, 0, 0, 0, 0]

/-- A server whose upstream sends `toldOpt`. -/
def optSystem : System Nat Nat FirstFit.Heap :=
  { smallSystem with
    fromVec := fun wire => if wire = toldOpt then some ⟨.noError, [⟨60, none⟩], []⟩ else none }

/-- A request with these bytes, by what `parse_query` reads off them. -/
theorem exists_request {raw : Bytes} {f : ParsedQuery RecordType DNSClass → Bool} {b : Bool}
    (h : (parseQuery rr raw emptyNameBuf).toOption.map (fun p => f p.1) = some b) :
    ∃ q : Request rr, q.raw = raw ∧ f q.query = b := by
  cases hParse : parseQuery rr raw emptyNameBuf with
  | error e =>
    rw [hParse] at h
    cases h
  | ok p =>
    rw [hParse] at h
    exact ⟨⟨raw, p.1, p.2, hParse⟩, rfl, Option.some.inj h⟩

theorem hasOpt_of_raw {q : Request optSystem.rr} {raw : Bytes} {b : Bool} (hRaw : q.raw = raw)
    (h : (parseQuery plainRr raw emptyNameBuf).toOption.map (fun p => p.1.hasOpt) = some b) :
    q.query.hasOpt = b := by
  obtain ⟨p, hp, hOpt⟩ := exists_request (f := fun query => query.hasOpt) h
  obtain rfl : q = p := Request.eq_of_raw (hRaw.trans hp.symm)
  exact hOpt

theorem opt_kept_apart_oneFetch : ∃ s,
    run (step optSystem) (State.start optSystem true 128 fun _ => false)
      (oneFetch (askOpt 1 0x61) toldOpt (askOpt 2 0x61)) = some s ∧
    s.answers.map Answer.path = [.fresh, .miss] ∧
    (∀ a ∈ s.answers, a.path.remote = true →
      (∃ q q' : Request optSystem.rr, ServedFrom s.upstream a q q') ∧
      ∀ q q' : Request optSystem.rr, ServedFrom s.upstream a q q' →
        q'.query.hasOpt = q.query.hasOpt ∧ q'.query.dnssecOk = q.query.dnssecOk) := by
  have hView : (run (step optSystem) (State.start optSystem true 128 fun _ => false)
      (oneFetch (askOpt 1 0x61) toldOpt (askOpt 2 0x61))).map (fun s => s.answers.map Answer.path) =
        some [.fresh, .miss] := by
    decide +kernel
  obtain ⟨s, hRun, hPaths⟩ := Option.map_eq_some_iff.mp hView
  refine ⟨s, hRun, hPaths,
    (opt_kept_apart FirstFit.allocator_lawful (fun _ => by decide) hRun ?_).1⟩
  have hOpt : ∀ q : Request optSystem.rr,
      Asked optSystem (oneFetch (askOpt 1 0x61) toldOpt (askOpt 2 0x61)) q →
        q.query.hasOpt = true := by
    intro q hAsked
    rcases asked_oneFetch hAsked with hRaw | hRaw
    · exact hasOpt_of_raw hRaw (by decide +kernel)
    · exact hasOpt_of_raw hRaw (by decide +kernel)
  intro q q' hq hq' _
  rw [hOpt q hq, hOpt q' hq']

/-- **A client that sent no OPT record gets one**, from the fetch of a client that
did. -/
theorem plain_client_gets_opt : ∃ s,
    run (step optSystem) (State.start optSystem true 128 fun _ => false)
      (oneFetch (askOpt 1 0x61) toldOpt (ask 2 0x61)) = some s ∧
    (∀ (q : Request optSystem.rr) wire, (q.raw, some wire) ∈ s.upstream → CarriesOpt wire →
      q.query.hasOpt = true) ∧
    ∃ a ∈ s.answers, a.path = .fresh ∧ CarriesOpt a.response ∧
      ∃ q q' : Request optSystem.rr, ServedFrom s.upstream a q q' ∧ q.query.hasOpt = false ∧
        q'.query.hasOpt = true := by
  have hView : (run (step optSystem) (State.start optSystem true 128 fun _ => false)
      (oneFetch (askOpt 1 0x61) toldOpt (ask 2 0x61))).map (fun s => (s.upstream, s.answers)) =
        some ([(askOpt 1 0x61, some toldOpt)],
          [⟨ask 2 0x61, .fresh, [0, 2] ++ toldOpt.drop 2⟩,
            ⟨askOpt 1 0x61, .miss, [0, 1] ++ toldOpt.drop 2⟩]) := by
    decide +kernel
  obtain ⟨s, hRun, hFields⟩ := Option.map_eq_some_iff.mp hView
  obtain ⟨hUpstream, hAnswers⟩ := Prod.mk.injEq .. ▸ hFields
  have hFetched : ∀ (q : Request optSystem.rr) result, (q.raw, result) ∈ s.upstream →
      q.query.hasOpt = true := by
    intro q result hMem
    rw [hUpstream, List.mem_singleton, Prod.mk.injEq] at hMem
    exact hasOpt_of_raw hMem.1 (by decide +kernel)
  have hMem : ⟨ask 2 0x61, .fresh, [0, 2] ++ toldOpt.drop 2⟩ ∈ s.answers := by
    rw [hAnswers]
    exact List.mem_cons_self
  obtain ⟨owner, hTraced⟩ := run_traced FirstFit.allocator_lawful (fun _ => by decide) hRun
  obtain ⟨q, q', hServed⟩ := (hTraced.answers _ hMem).servedFrom rfl
  obtain ⟨wire, hSource, -⟩ := hServed.response
  obtain ⟨result, hUp⟩ := hSource.mem
  refine ⟨s, hRun, fun q wire hMem _ => hFetched q _ hMem, _, hMem, rfl, ⟨false, ?_⟩, q, q', hServed,
    hasOpt_of_raw hServed.raw (by decide +kernel), hFetched q' result hUp⟩
  decide +kernel

end DnsRs.Handler
