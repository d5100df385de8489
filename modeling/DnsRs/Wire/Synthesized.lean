import DnsRs.Wire.Message
import DnsRs.Wire.Matching

/-!
# Synthesized responses

`synthesize` writes its response byte by byte. What it writes is the encoding of a
message: the question of the request, an A record if there is an answer, an OPT record
if the request has one (`synthesize_encodes`). So everything that is known of encoded
messages holds of it: a walk comes across these records and ends with the response, and
`parse_query` reads the request's query back out of it once QR is cleared
(`synthesize_round_trip`).
-/

namespace DnsRs.Wire

open Lib

variable {RecordType DNSClass : Type} {rr : RrFrom RecordType DNSClass}
  {raw nameBuf nameBuf' : Bytes} {query : ParsedQuery RecordType DNSClass}

/-! ## The message -/

/-- An A record that points at the question's name. -/
def aRecord (ip : Ipv4Addr) (ttl : UInt32) : WireRecord where
  name := ⟨[], .question, labelOk_nil⟩
  recordType := 1
  dnsClass := 1
  ttl := ttl
  rdata := ip.octets
  rdata_le := by rw [ip.length_octets]; decide

/-- The OPT record, whose class is the payload size. -/
def optRecord (dnssecOk : Bool) : WireRecord where
  name := ⟨[], .root, labelOk_nil⟩
  recordType := 41
  dnsClass := 1232
  ttl := if dnssecOk then 0x8000 else 0
  rdata := []
  rdata_le := length_nil_rdata

theorem encode_aRecord (ip : Ipv4Addr) (ttl : UInt32) :
    (aRecord ip ttl).encode = [0xc0, UInt8.ofNat headerLen] ++ be16 1 ++ be16 1 ++ be32 ttl.toNat ++
      be16 4 ++ ip.octets := by
  have hName : (aRecord ip ttl).name.encode = [0xc0, UInt8.ofNat headerLen] := by
    show encodeLabels [] ++ NameEnd.question.encode = _
    decide
  rw [WireRecord.encode, hName, WireRecord.body]
  simp only [aRecord, ip.length_octets, List.append_assoc]
  rfl

theorem encode_optRecord (dnssecOk : Bool) :
    (optRecord dnssecOk).encode = [0] ++ be16 optRecordType ++ be16 ednsPayloadSize ++
      be32 (if dnssecOk then dnssecOkBit else 0) ++ be16 0 := by
  cases dnssecOk with
  | true => decide
  | false => decide

/-- The additional section. -/
def optRecords (query : ParsedQuery RecordType DNSClass) : List WireRecord :=
  if query.hasOpt then [optRecord query.dnssecOk] else []

theorem encode_optRecords (query : ParsedQuery RecordType DNSClass) :
    encodeRecords (optRecords query) =
      if query.hasOpt then
        [0] ++ be16 optRecordType ++ be16 ednsPayloadSize ++
          be32 (if query.dnssecOk then dnssecOkBit else 0) ++ be16 0
      else [] := by
  rw [optRecords]
  cases query.hasOpt with
  | false => rfl
  | true => exact (List.flatMap_singleton _ _).trans (encode_optRecord _)

theorem length_optRecords (query : ParsedQuery RecordType DNSClass) :
    (optRecords query).length = u16OfBool query.hasOpt := by
  rw [optRecords]
  cases query.hasOpt <;> rfl

theorem view_optRecords (query : ParsedQuery RecordType DNSClass) :
    (optRecords query).map WireRecord.view =
      if query.hasOpt then
        [⟨[0], optRecordType, ednsPayloadSize, if query.dnssecOk then dnssecOkBit else 0, []⟩]
      else [] := by
  rw [optRecords]
  cases query.hasOpt <;> cases query.dnssecOk <;> decide

/-- OPT is found among them if the query has it, with its DO bit. -/
theorem find_optRecords (query : ParsedQuery RecordType DNSClass)
    (hImp : query.dnssecOk = true → query.hasOpt = true) :
    ((optRecords query).find? WireRecord.isOpt).isSome = query.hasOpt ∧
      ((optRecords query).find? WireRecord.isOpt).any WireRecord.dnssecOk = query.dnssecOk := by
  rw [optRecords]
  cases hHas : query.hasOpt with
  | true => cases query.dnssecOk <;> decide
  | false =>
    -- no OPT record is written, so DO must not have been set
    have hDo : query.dnssecOk = false := Bool.eq_false_iff.mpr fun hDo => by
      rw [hHas] at hImp
      exact absurd (hImp hDo) (by decide)
    rw [hDo]
    decide

/-- The flags of a header, byte by byte. -/
def flagsOf (hi lo : UInt8) : UInt16 := UInt16.ofNat (ofBe [hi, lo])

theorem toNat_flagsOf (hi lo : UInt8) : (flagsOf hi lo).toNat = ofBe [hi, lo] :=
  UInt16.toNat_ofNat_of_lt' (ofBe_pair_lt hi lo)

/-- The response to a query, with these flags. -/
def responseMessage (query : ParsedQuery RecordType DNSClass) (q : WireQuestion) (hi lo : UInt8)
    (answer : Option (Ipv4Addr × UInt32)) : WireMessage where
  id := UInt16.ofNat query.id
  flags := flagsOf hi lo
  questions := [q]
  answers := answer.toList.map fun a => aRecord a.1 a.2
  authorities := []
  additionals := optRecords query
  questions_lt := by simp
  answers_lt := by cases answer <;> simp
  authorities_lt := by simp
  additionals_lt := by rw [length_optRecords]; cases query.hasOpt <;> decide

theorem encodeQuestions_response (q : WireQuestion) (hi lo : UInt8)
    (answer : Option (Ipv4Addr × UInt32)) :
    encodeQuestions (responseMessage query q hi lo answer).questions = q.encode :=
  List.flatMap_singleton _ _

/-- The third and the fourth byte of a synthesized response. -/
def firstFlags (query : ParsedQuery RecordType DNSClass) : UInt8 :=
  (0x80 : UInt8) ||| (query.opcode <<< 3) ||| u8OfBool query.recursionDesired

def secondFlags (query : ParsedQuery RecordType DNSClass) (rcode : UInt8) : UInt8 :=
  (0x80 : UInt8) ||| (u8OfBool query.checkingDisabled <<< 4) ||| (rcode &&& 0x0f)

/-- **What `synthesize` writes is an encoded message.** -/
theorem synthesize_encodes {q : WireQuestion} (hId : query.id < 2 ^ 16)
    (hQuestion : slice raw query.question.start query.question.stop = .ok q.encode) (rcode : UInt8)
    (answer : Option (Ipv4Addr × UInt32)) :
    synthesize raw query rcode (answer.map fun a => (a.1, a.2.toNat)) =
      .ok (responseMessage query q (firstFlags query) (secondFlags query rcode) answer).encode := by
  have hWord : (UInt16.ofNat query.id).toNat = query.id := UInt16.toNat_ofNat_of_lt' hId
  unfold synthesize
  rw [hQuestion, ok_bind]
  refine congrArg Except.ok ?_
  rw [WireMessage.encode, WireMessage.header, WireMessage.records, responseMessage,
    encodeRecords_append, encodeRecords_append, encode_optRecords, length_optRecords, hWord,
    toNat_flagsOf, be16_ofBe]
  cases answer with
  | none => simp [encodeRecords, encodeQuestions, firstFlags, secondFlags, u16OfBool]
  | some a =>
    simp [encodeRecords, encodeQuestions, firstFlags, secondFlags, u16OfBool, encode_aRecord]

/-! ## The query behind it -/

theorem findOptRecords_found : ∀ {sectionIdx count pos : Nat} {found : Bool × Bool},
    findOptRecords raw sectionIdx count pos = .ok (.inr found) → found.1 = true := by
  intro sectionIdx count
  induction count with
  | zero => exact fun h => by cases h
  | succ count ih =>
    intro pos found h
    rw [findOptRecords] at h
    obtain ⟨stop, -, h⟩ := bind_eq_ok.mp h
    obtain ⟨rtype, -, h⟩ := bind_eq_ok.mp h
    obtain ⟨rdlen, -, h⟩ := bind_eq_ok.mp h
    split at h
    · obtain ⟨b0, -, h⟩ := bind_eq_ok.mp h
      obtain ⟨b1, -, h⟩ := bind_eq_ok.mp h
      obtain ⟨b2, -, h⟩ := bind_eq_ok.mp h
      obtain ⟨b3, -, h⟩ := bind_eq_ok.mp h
      cases h
      rfl
    · split at h
      · cases h
      · exact ih h

/-- DO is reported only with an OPT record. -/
theorem findOptSections_dnssecOk : ∀ {counts : List Nat} {sectionIdx pos : Nat} {found : Bool × Bool},
    findOptSections raw sectionIdx counts pos = .ok found → found.2 = true → found.1 = true := by
  intro counts
  induction counts with
  | nil =>
    intro sectionIdx pos found h hDo
    cases h
    exact hDo
  | cons count counts ih =>
    intro sectionIdx pos found h hDo
    rw [findOptSections] at h
    obtain ⟨r, hRecords, h⟩ := bind_eq_ok.mp h
    cases r with
    | inl next => exact ih h hDo
    | inr found' =>
      cases h
      exact findOptRecords_found hRecords

/-- What a parsed query is made of. -/
structure Parsed (rr : RrFrom RecordType DNSClass) (raw : Bytes)
    (query : ParsedQuery RecordType DNSClass) (name : Bytes) (q : WireQuestion) : Prop where
  root : q.name.ending = .root
  short : (q.name.labels.map fun l => l.length + 1).sum ≤ maxNameLen
  asks : Asks raw ⟨q.name.labels, q.qtype.toNat, q.qclass.toNat⟩
  span : query.question = ⟨headerLen, headerLen + q.encode.length⟩
  id : query.id < 2 ^ 16
  opcode : query.opcode.toNat < 16
  name : name = dottedName q.name.labels
  nameLen : query.nameLen = (dottedName q.name.labels).length
  qtype : query.qtype = rr.recordType q.qtype.toNat
  qclass : query.qclass = rr.dnsClass q.qclass.toNat
  opt : query.dnssecOk = true → query.hasOpt = true

theorem encode_of_root {q : WireQuestion} (h : q.name.ending = .root) :
    q.encode = encodeQuestion ⟨q.name.labels, q.qtype.toNat, q.qclass.toNat⟩ := by
  rw [WireQuestion.encode, WireName.encode, h, encodeQuestion, encodeName_eq, List.append_assoc,
    List.append_assoc, List.append_assoc]
  rfl

theorem parsed_of_parseQuery (hBuf : nameBuf.length = maxNameLen)
    (hParse : parseQuery rr raw nameBuf = .ok (query, nameBuf')) :
    ∃ q, Parsed rr raw query (nameBuf'.take query.nameLen) q := by
  obtain ⟨labels, h⟩ := grammar_of_parseQuery hBuf hParse
  obtain ⟨b0, b1, b2, b3, opt, nameBuf₁, -, -, -, -, hOpt, hName, hParse'⟩ :=
    @parseQuery_of_grammar _ _ rr _ _ _ hBuf h
  have hAsks := h.asks
  obtain ⟨-, hType, hClass⟩ := hAsks.wf
  have hSpan := length_encodeQuestion
    ⟨labels, ofBe (readAt raw (headerLen + (encodeName labels).length) 2),
      ofBe (readAt raw (headerLen + (encodeName labels).length + 2) 2)⟩
  set qtype := ofBe (readAt raw (headerLen + (encodeName labels).length) 2)
  set qclass := ofBe (readAt raw (headerLen + (encodeName labels).length + 2) 2)
  have hTypeWord : (UInt16.ofNat qtype).toNat = qtype := UInt16.toNat_ofNat_of_lt' hType
  have hClassWord : (UInt16.ofNat qclass).toNat = qclass := UInt16.toNat_ofNat_of_lt' hClass
  rw [hParse] at hParse'
  cases hParse'
  refine ⟨⟨⟨labels, .root, h.labels_ok⟩, UInt16.ofNat qtype, UInt16.ofNat qclass⟩, ?_⟩
  constructor
  case root => rfl
  case short => exact h.short
  case asks =>
    rw [hTypeWord, hClassWord]
    exact hAsks
  case span =>
    rw [encode_of_root rfl, hTypeWord, hClassWord, hSpan, Nat.add_assoc]
  case id => exact ofBe_pair_lt b0 b1
  case opcode =>
    have hBits := (flag_bits b2).1
    rw [hBits]
    exact Nat.mod_lt _ (by decide)
  case name => exact hName
  case nameLen => rfl
  case qtype => rw [hTypeWord]
  case qclass => rw [hClassWord]
  case opt =>
    cases opt with
    | none => exact fun hDo => hDo
    | some found =>
      have hFound := settle_eq_some.mp hOpt
      rw [findOpt] at hFound
      obtain ⟨answers, -, hFound⟩ := bind_eq_ok.mp hFound
      obtain ⟨authorities, -, hFound⟩ := bind_eq_ok.mp hFound
      obtain ⟨additionals, -, hFound⟩ := bind_eq_ok.mp hFound
      exact findOptSections_dnssecOk hFound

/-! ## Flags -/

/-- The first flags byte, and what is left of it when QR is cleared. -/
theorem firstFlags_bits (h : query.opcode.toNat < 16) :
    (firstFlags query).toNat.testBit 7 = true ∧ (firstFlags query &&& 0x7f).toNat < 128 ∧
      ((firstFlags query &&& 0x7f) >>> 3) &&& 0x0f = query.opcode ∧
      ((firstFlags query &&& 0x7f) &&& 0x01 != 0) = query.recursionDesired := by
  have key : ∀ n < 16, ∀ rd : Bool,
      ((0x80 : UInt8) ||| (UInt8.ofNat n <<< 3) ||| u8OfBool rd).toNat.testBit 7 = true ∧
      (((0x80 : UInt8) ||| (UInt8.ofNat n <<< 3) ||| u8OfBool rd) &&& 0x7f).toNat < 128 ∧
      ((((0x80 : UInt8) ||| (UInt8.ofNat n <<< 3) ||| u8OfBool rd) &&& 0x7f) >>> 3) &&& 0x0f =
        UInt8.ofNat n ∧
      ((((0x80 : UInt8) ||| (UInt8.ofNat n <<< 3) ||| u8OfBool rd) &&& 0x7f) &&& 0x01 != 0) = rd := by
    decide +kernel
  have hKey := key query.opcode.toNat h query.recursionDesired
  rwa [ofNat_toNat] at hKey

theorem secondFlags_bits (query : ParsedQuery RecordType DNSClass) (rcode : UInt8) :
    (secondFlags query rcode).toNat.testBit 7 = true ∧
      (secondFlags query rcode).toNat % 16 = rcode.toNat % 16 ∧
      (secondFlags query rcode &&& 0x10 != 0) = query.checkingDisabled := by
  have key : ∀ n < 256, ∀ cd : Bool,
      ((0x80 : UInt8) ||| (u8OfBool cd <<< 4) ||| (UInt8.ofNat n &&& 0x0f)).toNat.testBit 7 = true ∧
      ((0x80 : UInt8) ||| (u8OfBool cd <<< 4) ||| (UInt8.ofNat n &&& 0x0f)).toNat % 16 = n % 16 ∧
      (((0x80 : UInt8) ||| (u8OfBool cd <<< 4) ||| (UInt8.ofNat n &&& 0x0f)) &&& 0x10 != 0) = cd := by
    decide +kernel
  have hKey := key rcode.toNat rcode.toNat_lt query.checkingDisabled
  rwa [ofNat_toNat] at hKey

/-- The message with its QR bit cleared. -/
def clearQr (wire : Bytes) : Bytes := wire.modify 2 (· &&& 0x7f)

theorem clearQr_response (q : WireQuestion) (hi lo : UInt8) (answer : Option (Ipv4Addr × UInt32)) :
    clearQr (responseMessage query q hi lo answer).encode =
      (responseMessage query q (hi &&& 0x7f) lo answer).encode := by
  simp only [clearQr, WireMessage.encode, WireMessage.header, WireMessage.records, responseMessage,
    toNat_flagsOf, be16_ofBe]
  simp only [be16, List.cons_append, List.nil_append, List.modify_succ_cons, List.modify_zero_cons]

/-! ## There and back -/

section Response

variable {q : WireQuestion} {name : Bytes} (h : Parsed rr raw query name q)

include h

/-- The response asks what the request asks. -/
theorem Parsed.asks_response (hi lo : UInt8) (answer : Option (Ipv4Addr × UInt32)) :
    Asks (responseMessage query q hi lo answer).encode
      ⟨q.name.labels, q.qtype.toNat, q.qclass.toNat⟩ := by
  set m := responseMessage query q hi lo answer with hm
  refine ⟨m.header_le, ofBe_readAt_of_u16At m.counts.1, h.asks.wf, ?_⟩
  have hStands := m.stands_questions
  rw [← encode_of_root h.root]
  rw [hm, encodeQuestions_response] at hStands
  exact hStands

/-- `parse_query` reads the query back. -/
theorem Parsed.parseQuery_response {hi lo : UInt8} (answer : Option (Ipv4Addr × UInt32))
    (hQuery : hi.toNat < 128) (hOpcode : (hi >>> 3) &&& 0x0f = query.opcode)
    (hRd : (hi &&& 0x01 != 0) = query.recursionDesired)
    (hCd : (lo &&& 0x10 != 0) = query.checkingDisabled) (hBuf : nameBuf.length = maxNameLen) :
    ∃ nameBuf', parseQuery rr (responseMessage query q hi lo answer).encode nameBuf =
      .ok (query, nameBuf') ∧ nameBuf'.take query.nameLen = name := by
  set m := responseMessage query q hi lo answer with hm
  have hLo := lo.toNat_lt
  have hFlags : m.flags.toNat = hi.toNat * 256 + lo.toNat := by
    rw [hm, responseMessage, toNat_flagsOf, ofBe_pair]
  have hIs : m.IsQuery q := ⟨by omega, rfl, h.root, h.short⟩
  obtain ⟨nameBuf', hName, hParse⟩ := @WireMessage.IsQuery.parseQuery_eq _ _ rr _ _ _ hIs hBuf
  have hHi : UInt8.ofNat (m.flags.toNat / 256) = hi := by
    rw [hFlags, show (hi.toNat * 256 + lo.toNat) / 256 = hi.toNat by omega, ofNat_toNat]
  have hLow : UInt8.ofNat m.flags.toNat = lo := by
    rw [hFlags, ← UInt8.toNat_inj, UInt8.toNat_ofNat']
    omega
  have hId : m.id.toNat = query.id := UInt16.toNat_ofNat_of_lt' h.id
  have hSpan : (⟨headerLen, m.recordsAt⟩ : Span) = query.question := by
    rw [h.span, WireMessage.recordsAt, hm, encodeQuestions_response]
  obtain ⟨hHas, hDo⟩ : m.opt.isSome = query.hasOpt ∧
      m.opt.any WireRecord.dnssecOk = query.dnssecOk := find_optRecords query h.opt
  refine ⟨nameBuf', ?_, ?_⟩
  · rw [hParse, hId, hHi, hLow, hOpcode, hRd, hCd, hSpan, hHas, hDo, ← h.qtype, ← h.qclass,
      ← h.nameLen]
  · rw [h.nameLen, hName, h.name]

end Response

/-- The response as its readers see it. -/
structure WellFormed (raw : Bytes) (query : ParsedQuery RecordType DNSClass) (rcode : UInt8)
    (answer : Option (Ipv4Addr × UInt32)) (wire : Bytes) : Prop where
  /-- QR -/
  qr : ∃ b, wire[2]? = some b ∧ b.toNat.testBit 7 = true
  /-- RA and RCODE -/
  ra : ∃ b, wire[3]? = some b ∧ b.toNat.testBit 7 = true ∧ b.toNat % 16 = rcode.toNat
  span : questionSpan wire = .ok query.question
  question : readAt wire query.question.start (query.question.stop - query.question.start) =
    readAt raw query.question.start (query.question.stop - query.question.start)
  /-- the walk over the announced records ends with the response -/
  ends : (walk wire).ends = some wire.length
  /-- it comes across an A record for an answer, and OPT for OPT -/
  found : (walk wire).found.map (RecordAt.view wire) =
    answer.toList.map (fun a => ⟨[0xc0, 12], 1, 1, a.2.toNat, a.1.octets⟩) ++
      if query.hasOpt then
        [⟨[0], optRecordType, ednsPayloadSize, if query.dnssecOk then dnssecOkBit else 0, []⟩]
      else []

/-- **Synthesized responses are well formed and round-trip.** -/
theorem synthesize_round_trip (hBuf : nameBuf.length = maxNameLen)
    (hParse : parseQuery rr raw nameBuf = .ok (query, nameBuf')) (rcode : UInt8)
    (hRcode : rcode.toNat < 16) (answer : Option (Ipv4Addr × UInt32)) :
    ∃ wire, synthesize raw query rcode (answer.map fun a => (a.1, a.2.toNat)) = .ok wire ∧
      WellFormed raw query rcode answer wire ∧
      ∀ nameBuf₂ : Bytes, nameBuf₂.length = maxNameLen → ∃ nameBuf₃,
        parseQuery rr (clearQr wire) nameBuf₂ = .ok (query, nameBuf₃) ∧
        nameBuf₃.take query.nameLen = nameBuf'.take query.nameLen := by
  obtain ⟨q, h⟩ := parsed_of_parseQuery hBuf hParse
  -- what is copied from the request is its encoded question
  have hEncode := encode_of_root h.root
  have hInside := h.asks.question.le (by rw [length_encodeQuestion]; omega)
  have hSlice : slice raw query.question.start query.question.stop = .ok q.encode := by
    rw [h.span, hEncode, slice_eq_ok (Nat.le_add_right _ _) hInside, Nat.add_sub_cancel_left,
      h.asks.readAt_question]
  obtain ⟨hQr, hQuery, hOpcode, hRd⟩ := firstFlags_bits h.opcode
  obtain ⟨hRa, hCode, hCd⟩ := secondFlags_bits query rcode
  set m := responseMessage query q (firstFlags query) (secondFlags query rcode) answer with hm
  refine ⟨m.encode, synthesize_encodes h.id hSlice rcode answer, ?_, ?_⟩
  · have hAsks := h.asks_response (firstFlags query) (secondFlags query rcode) answer
    have hFlags := m.stands_header.right.left
    rw [hm, responseMessage, toNat_flagsOf, be16_ofBe] at hFlags
    constructor
    case qr => exact ⟨_, hFlags.head, hQr⟩
    case ra =>
      refine ⟨_, hFlags.getElem? (i := 1) Nat.one_lt_two, hRa, ?_⟩
      rw [hCode, Nat.mod_eq_of_lt hRcode]
    case span => rw [h.span, hEncode, hAsks.questionSpan]
    case question =>
      rw [h.span, hEncode, Nat.add_sub_cancel_left, hAsks.readAt_question, h.asks.readAt_question]
    case ends => exact (walk_encode m).2
    case found =>
      rw [(walk_encode m).1, ← view_optRecords]
      show (answer.toList.map (fun a : Ipv4Addr × UInt32 => aRecord a.1 a.2) ++
        ([] ++ optRecords query)).map
        WireRecord.view = _
      rw [List.nil_append, List.map_append, List.map_map]
      cases answer <;> rfl
  · -- with QR cleared it is the encoding of a query, with the same flags otherwise
    intro nameBuf₂ hBuf₂
    rw [hm, clearQr_response]
    exact h.parseQuery_response answer hQuery hOpcode hRd hCd hBuf₂

theorem synthesize_round_trip_type1 :
    ∃ wire, synthesize (askType 1) (askedType 1) 3 (some (⟨[10, 0, 0, 1], rfl⟩, 300)) = .ok wire ∧
      WellFormed (askType 1) (askedType 1) 3 (some (⟨[10, 0, 0, 1], rfl⟩, 300)) wire ∧
      ∃ nameBuf', parseQuery plainRr (clearQr wire) emptyNameBuf = .ok (askedType 1, nameBuf') := by
  have hParse : parseQuery plainRr (askType 1) emptyNameBuf = .ok (askedType 1, nameBufA) := by
    decide +kernel
  obtain ⟨wire, hWire, hWell, hBack⟩ := synthesize_round_trip length_emptyNameBuf hParse 3
    (by decide) (some (⟨[10, 0, 0, 1], rfl⟩, 300))
  obtain ⟨nameBuf', hAgain, -⟩ := hBack emptyNameBuf length_emptyNameBuf
  exact ⟨wire, hWire, hWell, nameBuf', hAgain⟩

end DnsRs.Wire
