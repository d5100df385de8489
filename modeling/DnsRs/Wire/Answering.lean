import DnsRs.Wire.Header
import DnsRs.Wire.Matching
import DnsRs.Wire.Rewriting

/-!
# Whose question a message answers

A response is checked once, against the query that was sent upstream. After that it gets other
IDs, its TTLs are aged, and it is handed to clients whose requests only share an identity with
that query. `questionOf` is the question section of a message, and `SameAsked` compares two of
them as `questions_match` does. Everything on the way of a response keeps it:

* `questionOf_setId`, `questionOf_ageTtls` — neither IDs nor TTLs are part of the question;
* `sameAsked_synthesize` — responses made here repeat the question of the request;
* `sameAsked_of_identity` — requests of one identity ask the same, if their labels have their
  literal dots in the same places;
* `answers_of_sameAsked` — and so a response that came this way answers the request, in the sense
  in which responses of an upstream are checked (`Answers`).
-/

namespace DnsRs.Wire

open Lib

variable {a b c wire wire' query response p q : Bytes} {id : Nat}

/-! ## Questions -/

/-- The question section of a message with one question. -/
def questionOf (wire : Bytes) : Option Bytes :=
  (questionSpan wire).toOption.map fun span => readAt wire span.start (span.stop - span.start)

theorem questionOf_eq_some : questionOf wire = some p ↔ ∃ span, questionSpan wire = .ok span ∧
    p = readAt wire span.start (span.stop - span.start) := by
  unfold questionOf
  rw [Option.map_eq_some_iff]
  constructor
  · rintro ⟨span, hSpan, rfl⟩
    exact ⟨span, toOption_eq_some.mp hSpan, rfl⟩
  · rintro ⟨span, hSpan, rfl⟩
    exact ⟨span, toOption_eq_some.mpr hSpan, rfl⟩

/-- Both messages have one question, and it is the same up to ASCII case. -/
def SameAsked (a b : Bytes) : Prop :=
  ∃ p q, questionOf a = some p ∧ questionOf b = some q ∧ p.map asciiLower = q.map asciiLower

theorem SameAsked.trans (hab : SameAsked a b) (hbc : SameAsked b c) : SameAsked a c := by
  obtain ⟨p, q, hp, hq, hpq⟩ := hab
  obtain ⟨q', r, hq', hr, hqr⟩ := hbc
  cases hq.symm.trans hq'
  exact ⟨p, r, hp, hr, hpq.trans hqr⟩

/-! ## Keys -/

/-- A key is made of the question. -/
theorem questionOf_of_fromWire {key : QuestionKey} (h : QuestionKey.fromWire wire = .ok key) :
    questionOf wire = some key.question := by
  obtain ⟨span, hSpan, -, hQuestion⟩ := fromWire_question h
  exact questionOf_eq_some.mpr ⟨span, hSpan, hQuestion⟩

/-- What a key matches asks the same. -/
theorem sameAsked_of_matches {key : QuestionKey} (hKey : QuestionKey.fromWire query = .ok key)
    (h : key.matches response = .ok true) : SameAsked query response := by
  obtain ⟨-, -, hLen, -⟩ := fromWire_question hKey
  obtain ⟨span, hSpan, hMatch⟩ := (matches_eq_true hLen).mp h
  exact ⟨_, _, questionOf_of_fromWire hKey, questionOf_eq_some.mpr ⟨span, hSpan, rfl⟩,
    (questionsMatch_iff_map.mp hMatch).symm⟩

/-! ## IDs -/

theorem questionSpan_agreeFrom (h : AgreeFrom 2 a b) : questionSpan b = questionSpan a := by
  rw [questionSpan, questionSpan, h.length, u16At_agreeFrom h (show 2 ≤ 4 by omega),
    skipName_agreeFrom h (show 2 ≤ headerLen by decide)]

theorem questionOf_setId (h : setId wire id = .ok wire') : questionOf wire' = questionOf wire := by
  have hAgree := setId_agreeFrom h
  unfold questionOf
  rw [questionSpan_agreeFrom hAgree]
  cases hSpan : questionSpan wire with
  | error e => rfl
  | ok span =>
    obtain ⟨hStart, -, -⟩ := questionSpan_bounds hSpan
    have hHeader : headerLen = 12 := rfl
    -- the question begins behind the header
    exact congrArg some (readAt_congr fun i hi _ => hAgree.same i (by omega))

/-- The new ID stands in front. -/
theorem readAt_setId (hLen : 2 ≤ wire.length) (h : setId wire id = .ok wire') :
    readAt wire' 0 2 = be16 id := by
  have hFits : 0 + (be16 id).length ≤ wire.length := by
    rw [length_be16]
    omega
  rw [setId, if_pos hLen] at h
  cases h.symm.trans (overwrite_eq_ok hFits)
  exact readAt_writeAt_self hFits

/-! ## TTLs -/

/-- The records of a message with one question stand behind it. -/
theorem walk_found_ge {span : Span} (hSpan : questionSpan wire = .ok span) {r : RecordAt}
    (hr : r ∈ (walk wire).found) : span.stop ≤ r.start := by
  obtain ⟨hHeader, hOne, stop, hStop, hFits, rfl⟩ := questionSpan_eq_ok.mp hSpan
  have hCount : countAt wire 4 = 1 := ofBe_readAt_of_u16At hOne
  have hQuestions : (walkQuestions wire (countAt wire 4) headerLen).ends = some (stop + 4) := by
    rw [hCount, walkQuestions, toOption_eq_some.mpr hStop]
    dsimp only
    rw [if_neg (by omega)]
    rfl
  unfold walk at hr
  rw [if_neg (by omega)] at hr
  dsimp only at hr
  rw [hQuestions] at hr
  exact (walkRecords_separate.found r hr).2

theorem ageTtls_agreeBelow {elapsedSecs : Nat} {forceZero done : Bool} {span : Span}
    (h : ageTtls wire elapsedSecs forceZero = .ok (done, wire'))
    (hSpan : questionSpan wire = .ok span) : AgreeBelow span.stop wire wire' := by
  obtain ⟨-, hPatched⟩ := patched_of_ageTtls h
  refine ⟨hPatched.length, fun i hi => hPatched.same i fun field hField hIn => ?_⟩
  obtain ⟨r, hr, hTtl⟩ := inField_ttlPatches hField hIn
  have hGe := walk_found_ge hSpan hr
  have hName := ((walk_separate wire).found r hr).1.bounds.1
  unfold RecordAt.InTtl RecordAt.ttlAt at hTtl
  omega

theorem questionOf_ageTtls {elapsedSecs : Nat} {forceZero done : Bool}
    (h : ageTtls wire elapsedSecs forceZero = .ok (done, wire')) (hq : questionOf wire = some q) :
    questionOf wire' = some q := by
  obtain ⟨span, hSpan, rfl⟩ := questionOf_eq_some.mp hq
  have hAgree := ageTtls_agreeBelow h hSpan
  obtain ⟨hHeader, hOne, stop, hStop, hFits, rfl⟩ := questionSpan_eq_ok.mp hSpan
  have hBound := (skipName_bounds hStop).1
  dsimp only at hAgree
  refine questionOf_eq_some.mpr ⟨⟨headerLen, stop + 4⟩, questionSpan_eq_ok.mpr
    ⟨by rw [hAgree.length]; exact hHeader, ?_, stop, ?_, by rw [hAgree.length]; exact hFits, rfl⟩, ?_⟩
  · rw [headerLen] at hBound
    rw [u16At_congr (hAgree.same 4 (by omega)) (hAgree.same 5 (by omega))]
    exact hOne
  · exact skipName_agreeBelow (hAgree.mono (Nat.le_add_right _ _)) hStop
  · exact readAt_congr fun i _ hi => (hAgree.same i (by dsimp only at hi; omega)).symm

/-! ## Requests -/

section Requests

variable {RecordType DNSClass : Type} {rr : RrFrom RecordType DNSClass} {raw raw' : Bytes}
  {parsed parsed' : ParsedQuery RecordType DNSClass} {nameBuf nameBuf' : Bytes}

theorem Asks.questionOf {asked : Question} (h : Asks wire asked) :
    questionOf wire = some (encodeQuestion asked) := by
  refine questionOf_eq_some.mpr ⟨_, h.questionSpan, ?_⟩
  rw [Nat.add_sub_cancel_left]
  exact h.readAt_question.symm

/-- **Requests of one identity** ask the same, as far as literal dots go. -/
theorem sameAsked_of_identity (hrr : rr.Injective)
    (h : parseQuery rr raw emptyNameBuf = .ok (parsed, nameBuf))
    (h' : parseQuery rr raw' emptyNameBuf = .ok (parsed', nameBuf'))
    (hId : identity parsed nameBuf = identity parsed' nameBuf')
    (hDots : literalDots raw = literalDots raw') : SameAsked raw raw' := by
  obtain ⟨asked, ha⟩ := parseQuery_sound length_emptyNameBuf h
  obtain ⟨asked', ha'⟩ := parseQuery_sound length_emptyNameBuf h'
  simp only [identity, Key.mk.injEq] at hId
  obtain ⟨hName, hType, hClass, -⟩ := hId
  refine ⟨_, _, ha.asks.questionOf, ha'.asks.questionOf, ?_⟩
  -- the codes are those of the parsed query, and the labels those of the flattened name
  have hQtype : asked.qtype = asked'.qtype :=
    hrr.recordType _ _ ha.wf.qtype ha'.wf.qtype (by rw [← ha.qtype, ← ha'.qtype, hType])
  have hQclass : asked.qclass = asked'.qclass :=
    hrr.dnsClass _ _ ha.wf.qclass ha'.wf.qclass (by rw [← ha.qclass, ← ha'.qclass, hClass])
  have hFlat : flatName asked.labels = flatName asked'.labels :=
    dottedName_inj_flatName ha.wf.labels ha'.wf.labels (by rw [← ha.name_eq, ← ha'.name_eq, hName])
  rw [ha.literalDots_eq, ha'.literalDots_eq] at hDots
  have hLabels := lowered_labels_eq hFlat hDots
  rw [← questionsMatch_iff_map]
  exact Question.Same.match ha.wf ha'.wf ⟨hLabels, hQtype, hQclass⟩

/-- A response made here repeats the question. -/
theorem sameAsked_synthesize {rcode : UInt8} {answer : Option (Ipv4Addr × Nat)}
    (h : parseQuery rr raw emptyNameBuf = .ok (parsed, nameBuf))
    (hWire : synthesize raw parsed rcode answer = .ok wire) : SameAsked raw wire := by
  obtain ⟨asked, ha⟩ := parseQuery_sound length_emptyNameBuf h
  obtain ⟨flags, question, record, opt, hSlice, -, -, rfl⟩ := synthesize_eq_ok hWire
  have hQuestion : question = encodeQuestion asked := by
    have hInside := ha.inside
    rw [ha.span] at hSlice hInside
    rw [slice_eq_ok (Nat.le_add_right _ _) hInside, Nat.add_sub_cancel_left,
      ha.asks.readAt_question] at hSlice
    exact (Except.ok.inj hSlice).symm
  subst hQuestion
  refine ⟨_, encodeQuestion asked, ha.asks.questionOf, Asks.questionOf ⟨?_, ?_, ha.wf, ?_⟩, rfl⟩
  · simp [length_be16, headerLen]
    omega
  · rfl
  · rw [List.append_assoc, List.append_assoc]
    exact stands_append _ _ _

end Requests

/-! ## Answers -/

/-- **A response with the ID and the question of a query answers it.** -/
theorem answers_of_sameAsked (hId : readAt response 0 2 = readAt query 0 2)
    (hQr : ∃ b, response[2]? = some b ∧ b &&& 0x80 ≠ 0) (h : SameAsked query response) :
    Answers query response := by
  obtain ⟨p, q, hp, hq, hEq⟩ := h
  obtain ⟨span, hSpan, rfl⟩ := questionOf_eq_some.mp hp
  obtain ⟨span', hSpan', rfl⟩ := questionOf_eq_some.mp hq
  obtain ⟨-, hOne, stop', hStop', hFits', rfl⟩ := questionSpan_eq_ok.mp hSpan'
  refine ⟨hId, hQr, hOne, fun s hs => ?_⟩
  cases hSpan.symm.trans hs
  obtain ⟨hHeader, -, stop, hStop, hFits, rfl⟩ := questionSpan_eq_ok.mp hSpan
  -- both start behind the header, and they are equally long
  have hBound := (skipName_bounds hStop).1
  have hBound' := (skipName_bounds hStop').1
  have hLen := congrArg List.length hEq
  rw [List.length_map, List.length_map, length_readAt (by dsimp only; omega),
    length_readAt (by dsimp only; omega)] at hLen
  dsimp only at hLen hEq ⊢
  have hStops : stop' = stop := by omega
  subst hStops
  exact ⟨hFits', questionsMatch_iff_map.mpr hEq.symm⟩

theorem Answers.sameAsked (h : Answers query response) (hq : questionOf query = some q) :
    SameAsked query response := by
  obtain ⟨span, hSpan, rfl⟩ := questionOf_eq_some.mp hq
  exact ⟨_, _, hq, questionOf_eq_some.mpr ⟨span, h.questionSpan_eq hSpan, rfl⟩,
    (questionsMatch_iff_map.mp (h.question span hSpan).2).symm⟩

end DnsRs.Wire
