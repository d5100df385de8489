import DnsRs.Handler.Sources
import DnsRs.Upstream.Resolution

/-!
# Clients are answered what they asked

A response that reaches a client may have been fetched for somebody else, may have waited in the
cache and been aged there, and may have been made here when the fetch failed. Nobody checks it
again on the way out. `answers_own_question` says that nobody has to: if the upstreams are asked
through `resolve_wire`, every response that is returned for a request that can be read passes
the checks that `resolve_wire` makes of its own responses, against the client's request.

What has to be assumed is that requests of one identity have the literal dots of their labels in
the same places. Flattened names do not keep them, and a client that asks for `a\.b` may be given
the answer for `a.b`.
-/

namespace DnsRs.Handler

open Lib Wire Cache InFlight

variable {RecordType DNSClass Heap : Type} {rr : RrFrom RecordType DNSClass}

/-! ## Requests and responses -/

theorem Request.be16_id (q : Request rr) : be16 q.query.id = readAt q.raw 0 2 := by
  obtain ⟨b0, b1, b2, b3, pos, nameLen, nameBuf₁, nameLen', qtype, qclass, opt, -,
    ⟨hb0, hb1, -, -⟩, -, -, -, -, -, -, -, -, hQuery⟩ := parseQuery_eq_ok q.parsed
  rw [hQuery, readAt_two hb0 hb1]
  exact be16_ofBe b0 b1

theorem Request.exists_question (q : Request rr) : ∃ question, questionOf q.raw = some question := by
  obtain ⟨asked, hAccepted⟩ := parseQuery_sound length_emptyNameBuf q.parsed
  exact ⟨_, hAccepted.asks.questionOf⟩

/-- A response made here answers its request. -/
theorem Request.synthesize_answers (q : Request rr) {rcode : UInt8}
    {answer : Option (Ipv4Addr × Nat)} {wire : Bytes}
    (h : synthesize q.raw q.query rcode answer = .ok wire) : Answers q.raw wire := by
  obtain ⟨⟨b0, b1, hb0, hb1, hc0, hc1⟩, b, b', -, hb', hQr, -⟩ := synthesize_echoes q.parsed h
  refine answers_of_sameAsked ?_ ⟨b', hb', by rw [hQr]; decide⟩ (sameAsked_synthesize q.parsed h)
  rw [readAt_two hb0 hb1, readAt_two hc0 hc1]

/-- What came of a fetch for `q` is a response, and about the question of `q`. -/
theorem Source.sameAsked {up : List (Bytes × Option Bytes)} {q : Request rr} {wire : Bytes}
    (h : Source up q wire) (hUp : ∀ raw wire, (raw, some wire) ∈ up → Answers raw wire) :
    SameAsked q.raw wire ∧ ∃ b, wire[2]? = some b ∧ b &&& 0x80 ≠ 0 := by
  obtain ⟨question, hQuestion⟩ := q.exists_question
  cases h with
  | fetched hMem =>
    have hAnswers := hUp _ _ hMem
    exact ⟨hAnswers.sameAsked hQuestion, hAnswers.qr⟩
  | @aged original elapsedSecs forceZero done hMem hAge =>
    have hAnswers := hUp _ _ hMem
    obtain ⟨p, p', hp, hp', hEq⟩ := hAnswers.sameAsked hQuestion
    refine ⟨⟨p, p', hp, questionOf_ageTtls hAge hp', hEq⟩, ?_⟩
    -- the flags are in the header, which aging leaves
    obtain ⟨b, hb, hQr⟩ := hAnswers.qr
    exact ⟨b, ((ageTtls_walk hAge).1.same 2 (by decide)).trans hb, hQr⟩
  | failed hMem hWire =>
    have hAnswers := q.synthesize_answers hWire
    exact ⟨hAnswers.sameAsked hQuestion, hAnswers.qr⟩

/-- Requests of one identity. -/
theorem Request.sameAsked (hrr : rr.Injective) {q q' : Request rr} (hKey : q'.key = q.key)
    (hDots : literalDots q.raw = literalDots q'.raw) : SameAsked q.raw q'.raw :=
  sameAsked_of_identity hrr q.parsed q'.parsed hKey.symm hDots

/-- **What was fetched for one request answers another** of the same identity, once it has its
ID. -/
theorem ServedFrom.answers {up : List (Bytes × Option Bytes)} {a : Answer} {q q' : Request rr}
    (hrr : rr.Injective) (h : ServedFrom up a q q')
    (hUp : ∀ raw wire, (raw, some wire) ∈ up → Answers raw wire)
    (hDots : literalDots q.raw = literalDots q'.raw) : Answers a.raw a.response := by
  obtain ⟨wire, hSource, hId⟩ := h.response
  obtain ⟨hAsked, b, hb, hQr⟩ := hSource.sameAsked hUp
  obtain ⟨p, p', hp, hp', hEq⟩ := (Request.sameAsked hrr h.key hDots).trans hAsked
  have hLen : 2 ≤ wire.length := Nat.le_of_lt (List.getElem?_eq_some_iff.mp hb).1
  rw [← h.raw]
  refine answers_of_sameAsked ?_ ⟨b, ?_, hQr⟩ ⟨p, p', hp, (questionOf_setId hId).trans hp', hEq⟩
  · rw [readAt_setId hLen hId, q.be16_id]
  · exact ((setId_agreeFrom hId).same 2 (Nat.le_refl 2)).trans hb

/-! ## Whole runs -/

variable [DecidableEq RecordType] [DecidableEq DNSClass] {sys : System RecordType DNSClass Heap}
  {s : State sys.rr Heap} {enabled : Bool} {maxSizeBytes : Nat} {blocked : Bytes → Bool}
  {labels : List Label}

/-- **Clients are answered what they asked.** In every run of the handler over upstreams that are
asked through `resolve_wire`: each response returned for a request that can be read has the
request's ID, has QR set, and has one question, the one of the request up to ASCII case. It may
have been made here, fetched for this client or for another, or aged in the cache. -/
theorem answers_own_question (hA : sys.env.alloc.Lawful)
    (hMax : enabled = true → maxSizeBytes ≤ maxCacheBytes) (hrr : sys.rr.Injective)
    (hRun : run (step sys) (State.start sys enabled maxSizeBytes blocked) labels = some s)
    (hUp : ∀ raw wire, (raw, some wire) ∈ s.upstream →
      ∃ upstreams strategy, Upstream.Returned upstreams strategy raw wire)
    (hDots : ∀ q q' : Request sys.rr, (∃ a ∈ s.answers, a.raw = q.raw) →
      (∃ result, (q'.raw, result) ∈ s.upstream) → q'.key = q.key →
      literalDots q.raw = literalDots q'.raw) :
    ∀ a ∈ s.answers, parseRequest sys.rr a.raw ≠ .ok none → Answers a.raw a.response := by
  have hAnswers : ∀ raw wire, (raw, some wire) ∈ s.upstream → Answers raw wire := by
    intro raw wire hMem
    obtain ⟨upstreams, strategy, hReturned⟩ := hUp raw wire hMem
    exact hReturned.answers
  intro a ha hReadable
  rcases run_sources hA hMax hRun a ha with hLocal | ⟨-, q, q', hServed⟩
  · cases hLocal with
    | formerr hParse => exact absurd hParse hReadable
    | @synthesized q rcode answer hRaw hResponse =>
      rw [← hRaw]
      exact q.synthesize_answers hResponse
  · obtain ⟨wire, hSource, -⟩ := hServed.response
    exact hServed.answers hrr hAnswers
      (hDots q q' ⟨a, ha, hServed.raw.symm⟩ hSource.mem hServed.key)

/-- What `resolve_wire` returns to the first client: `told`, under its ID. -/
def restored : Bytes := [0, 1] ++ told.drop 2

theorem restored_returned :
    Upstream.Returned [⟨"doh://a", .ok told⟩] .race (ask 1 0x61) restored := by
  have hDoh : Upstream.resolveDoh "https://a" (ask 1 0x61) 0x0909 (.ok told) (.error .final) =
      .ok (.ok told) := by decide +kernel
  have hRace : (run (Upstream.stepRace [⟨"doh://a", .ok told⟩])
      (Upstream.resolveRace [(⟨"doh://a", .ok told⟩ : Upstream.SingleUpstream String)])
      [.ends 0]).map (·.result) = some (some (.ok told)) := by decide +kernel
  obtain ⟨r, hRun, hResult⟩ := Option.map_eq_some_iff.mp hRace
  refine ⟨fun upstream hMem => ?_, .ok told, .race hRun hResult, rfl⟩
  cases List.mem_singleton.mp hMem
  exact .doh hDoh

/-- The second client asks in capitals and shares the fetch of the first. -/
theorem answers_own_question_shared :
    ∃ s, run (step smallSystem) (State.start smallSystem true 128 fun _ => false)
        [.query 0 (ask 1 0x61) 0, .checkMiss 0, .enter 0, .initialise 0,
          .query 1 (ask 2 0x41) 0, .checkMiss 1, .enter 1, .resolved 0 (some restored),
          .settle 0 0 0 0, .publish 0, .wake 1, .remove 0, .reply 0, .remove 1, .reply 1] = some s ∧
      s.answers.map (·.raw) = [ask 2 0x41, ask 1 0x61] ∧
      ∀ a ∈ s.answers, parseRequest smallSystem.rr a.raw ≠ .ok none → Answers a.raw a.response := by
  have hView : (run (step smallSystem) (State.start smallSystem true 128 fun _ => false)
      [.query 0 (ask 1 0x61) 0, .checkMiss 0, .enter 0, .initialise 0,
        .query 1 (ask 2 0x41) 0, .checkMiss 1, .enter 1, .resolved 0 (some restored),
        .settle 0 0 0 0, .publish 0, .wake 1, .remove 0, .reply 0, .remove 1, .reply 1]).map
      (fun s => (s.upstream, s.answers.map (·.raw))) =
        some ([(ask 1 0x61, some restored)], [ask 2 0x41, ask 1 0x61]) := by
    decide +kernel
  obtain ⟨s, hRun, hFields⟩ := Option.map_eq_some_iff.mp hView
  obtain ⟨hUpstream, hRaws⟩ := Prod.mk.injEq .. ▸ hFields
  refine ⟨s, hRun, hRaws, answers_own_question FirstFit.allocator_lawful (fun _ => by decide)
    plainRr_injective hRun ?_ ?_⟩
  · intro raw wire hMem
    rw [hUpstream, List.mem_singleton, Prod.mk.injEq, Option.some.injEq] at hMem
    obtain ⟨rfl, rfl⟩ := hMem
    exact ⟨_, _, restored_returned⟩
  · -- neither name has a literal dot
    rintro q q' ⟨a, ha, hRaw⟩ ⟨result, hMem⟩ -
    rw [hUpstream, List.mem_singleton, Prod.mk.injEq] at hMem
    have hMem' := List.mem_map_of_mem (f := Answer.raw) ha
    rw [hRaws, hRaw, List.mem_cons, List.mem_singleton] at hMem'
    rw [hMem.1]
    rcases hMem' with hEq | hEq
    · rw [hEq]
      rfl
    · rw [hEq]

end DnsRs.Handler
