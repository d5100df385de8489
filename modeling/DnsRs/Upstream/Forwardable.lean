import DnsRs.Wire.Matching
import DnsRs.Upstream.Doh

/-!
# Which accepted queries can be forwarded

A query is forwarded with the key of its question, against which the response is
checked. `parse_query` bounds the dotted name by 255 bytes, which is one byte less
than its encoding; `QuestionKey` bounds the encoded question by 259, which is a name
of 255 bytes and the two codes. So the two disagree about names that take 256 bytes:
such a query is accepted, and both kinds of upstream then reject it
(`longest_name_rejected`). The accepted queries that can be forwarded are those whose
name takes at most 255 bytes, as it should (`accepted_forwardable`).
-/

namespace DnsRs.Upstream

open Lib Wire

variable {RecordType DNSClass : Type} {rr : RrFrom RecordType DNSClass}
  {raw nameBuf nameBuf' : Bytes} {query : ParsedQuery RecordType DNSClass}

/-- The error of both upstreams for a query without a question. -/
def noQuestion : String := "query has no valid question"

/-- The query has a question where the front end saw it, and no upstream says that it
has none. -/
structure Forwardable (raw : Bytes) (query : ParsedQuery RecordType DNSClass) : Prop where
  span : questionSpan raw = .ok query.question
  key : ∃ key, QuestionKey.fromWire raw = .ok key ∧ key.matches raw = .ok true
  dot : ∀ pending start, Dot.prepare pending raw start ≠ .ok (.error (.protocol noQuestion))
  doh : ∀ url expectedId first second,
    resolveDoh url raw expectedId first second ≠ .ok (.error noQuestion)

/-! ## The question of an accepted query -/

theorem asks_of_parseQuery (hBuf : nameBuf.length = maxNameLen)
    (hParse : parseQuery rr raw nameBuf = .ok (query, nameBuf')) :
    ∃ q, Asks raw q ∧ query.question = ⟨headerLen, headerLen + (encodeQuestion q).length⟩ := by
  obtain ⟨q, hq⟩ := parseQuery_sound hBuf hParse
  exact ⟨q, hq.asks, hq.span⟩

/-- The bound of a key is one on the name. -/
theorem question_short_iff {q : Question} :
    (encodeQuestion q).length ≤ maxQuestionLen ↔ (encodeName q.labels).length ≤ maxNameLen := by
  rw [length_encodeQuestion, show maxQuestionLen = maxNameLen + 4 from rfl]
  omega

/-! ## Upstreams -/

section Upstreams

variable {q : Question} (h : Asks raw q) (hShort : (encodeQuestion q).length ≤ maxQuestionLen)

include h hShort

/-- The key is made of the query as it is sent, under another ID. -/
theorem settle_fromWire_setId {id : Nat} {outgoing : Bytes}
    (hSet : setId raw id = .ok outgoing) :
    ∃ key, settle (QuestionKey.fromWire outgoing) = .ok (some key) := by
  obtain ⟨key, hKey⟩ := (h.setId hSet).fromWire.mpr hShort
  exact ⟨key, settle_eq_some.mpr hKey⟩

theorem prepare_ne_noQuestion (pending : Dot.Pending) (start : UInt16) :
    Dot.prepare pending raw start ≠ .ok (.error (.protocol noQuestion)) := by
  intro hPrepare
  rw [Dot.prepare] at hPrepare
  obtain ⟨id, -, hPrepare⟩ := bind_eq_ok.mp hPrepare
  obtain ⟨outgoing, hSet, hPrepare⟩ := bind_eq_ok.mp hPrepare
  obtain ⟨key, hKey⟩ := settle_fromWire_setId h hShort hSet
  rw [hKey, ok_bind] at hPrepare
  split at hPrepare
  · cases hPrepare
  · exact absurd hPrepare (by decide)

omit h hShort in
/-- What `query_doh` says of a failed exchange begins otherwise. -/
theorem queryDoh_ne_noQuestion (url : String) (first second : Except HttpError Bytes) :
    queryDoh url first second ≠ .error noQuestion := by
  intro hQuery
  have hHead : ∀ rest : String, "DoH request to " ++ url ++ rest ≠ noQuestion := by
    intro rest hEq
    have hChar := congrArg (fun s : String => s.toList.head?) hEq
    simp [noQuestion] at hChar
  unfold queryDoh at hQuery
  split at hQuery
  · cases hQuery
  · split at hQuery
    · cases hQuery
    · exact hHead _ (Except.error.inj hQuery)
  · exact hHead _ (Except.error.inj hQuery)

theorem resolveDoh_ne_noQuestion (url : String) (expectedId : UInt16)
    (first second : Except HttpError Bytes) :
    resolveDoh url raw expectedId first second ≠ .ok (.error noQuestion) := by
  intro hResolve
  rw [resolveDoh] at hResolve
  obtain ⟨outgoing, hSet, hResolve⟩ := bind_eq_ok.mp hResolve
  obtain ⟨key, hKey⟩ := settle_fromWire_setId h hShort hSet
  rw [hKey, ok_bind] at hResolve
  dsimp only at hResolve
  cases hQuery : queryDoh url first second with
  | error err =>
    rw [hQuery] at hResolve
    cases hResolve
    exact queryDoh_ne_noQuestion url first second hQuery
  | ok response =>
    rw [hQuery] at hResolve
    dsimp only at hResolve
    split at hResolve
    · exact absurd hResolve (by decide)
    · split at hResolve
      · exact absurd hResolve (by decide)
      · obtain ⟨matched, -, hResolve⟩ := bind_eq_ok.mp hResolve
        cases matched with
        | false =>
          rw [if_neg (by decide)] at hResolve
          exact absurd hResolve (by decide)
        | true => cases hResolve

end Upstreams

/-- **Accepted queries can be forwarded** exactly if the name in their question takes
at most 255 bytes. Both sides see the same question in any case. -/
theorem accepted_forwardable (hBuf : nameBuf.length = maxNameLen)
    (hParse : parseQuery rr raw nameBuf = .ok (query, nameBuf')) :
    questionSpan raw = .ok query.question ∧
      ∃ q, Asks raw q ∧ (Forwardable raw query ↔ (encodeName q.labels).length ≤ maxNameLen) := by
  obtain ⟨q, hAsks, hSpan⟩ := asks_of_parseQuery hBuf hParse
  have hQuestionSpan : questionSpan raw = .ok query.question := by
    rw [hSpan, hAsks.questionSpan]
  refine ⟨hQuestionSpan, q, hAsks, ?_, ?_⟩
  · rintro ⟨-, ⟨key, hKey, -⟩, -, -⟩
    exact question_short_iff.mp (hAsks.fromWire.mp ⟨key, hKey⟩)
  · intro hName
    have hShort := question_short_iff.mpr hName
    obtain ⟨key, hKey⟩ := hAsks.fromWire.mpr hShort
    obtain ⟨hFits, hQuestion⟩ := hAsks.key_question hKey
    refine ⟨hQuestionSpan, ⟨key, hKey, ?_⟩, prepare_ne_noQuestion hAsks hShort,
      resolveDoh_ne_noQuestion hAsks hShort⟩
    refine (matches_eq_true hFits).mpr ⟨_, hAsks.questionSpan, ?_⟩
    rw [Nat.add_sub_cancel_left, hAsks.readAt_question, hQuestion]
    exact questionsMatch_iff_map.mpr rfl

theorem accepted_forwardable_type1 : Forwardable (askType 1) (askedType 1) := by
  have hParse : parseQuery plainRr (askType 1) emptyNameBuf = .ok (askedType 1, nameBufA) := by
    decide +kernel
  obtain ⟨-, q, hAsks, hIff⟩ := accepted_forwardable length_emptyNameBuf hParse
  rw [hIff, hAsks.unique (askType_asks (by decide))]
  decide

/-- Labels of 63, 63, 63 and 62 bytes: 255 bytes with their dots, 256 on the wire. -/
def longestLabels : List Bytes :=
  [List.replicate 63 0x61, List.replicate 63 0x61, List.replicate 63 0x61, List.replicate 62 0x61]

def askLongest : Bytes :=
  [0, 1, 1, 0, 0, 1, 0, 0, 0, 0, 0, 0] ++ encodeQuestion ⟨longestLabels, 1, 1⟩

def askedLongest : ParsedQuery Nat Nat :=
  ⟨1, 0, true, 255, 1, 1, ⟨12, 272⟩, false, false, false⟩

/-- A query for the longest name is accepted, and its question is then said not to
be one. -/
theorem longest_name_rejected :
    parseQuery plainRr askLongest emptyNameBuf = .ok (askedLongest, dottedName longestLabels) ∧
      questionSpan askLongest = .ok askedLongest.question ∧
      QuestionKey.fromWire askLongest = .error .none ∧
      Dot.prepare [] askLongest 0 = .ok (.error (.protocol noQuestion)) ∧
      ¬ Forwardable askLongest askedLongest := by
  have hPrepare : Dot.prepare [] askLongest 0 = .ok (.error (.protocol noQuestion)) := by
    decide +kernel
  exact ⟨by decide +kernel, by decide +kernel, by decide +kernel, hPrepare,
    fun h => h.dot _ _ hPrepare⟩

end DnsRs.Upstream
