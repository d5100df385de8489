import Mathlib.Data.Nat.Bitwise
import DnsRs.Wire.Grammar
import DnsRs.Wire.Rewriting

/-!
# Whole messages

A message is a header, questions and three sections of records, and its header
counts what it has. Two walks of `dns/wire.rs` are followed over every such message:

* `find_opt` sees the additional records of type 41 and nothing else of that look
  (`findOpt_message`), so `parse_query` reports OPT and its DO bit as they are
  (`parseQuery_reports_opt`);
* `age_ttls` gives the encoding of the same message with its TTLs aged
  (`ageTtls_encode`).
-/

namespace DnsRs.Wire

open Lib

variable {RecordType DNSClass : Type} {rr : RrFrom RecordType DNSClass} {raw nameBuf : Bytes}

structure WireMessage where
  id : UInt16
  flags : UInt16
  questions : List WireQuestion
  answers : List WireRecord
  authorities : List WireRecord
  additionals : List WireRecord
  questions_lt : questions.length < 2 ^ 16
  answers_lt : answers.length < 2 ^ 16
  authorities_lt : authorities.length < 2 ^ 16
  additionals_lt : additionals.length < 2 ^ 16

def encodeQuestions (qs : List WireQuestion) : Bytes := qs.flatMap WireQuestion.encode

def encodeRecords (rs : List WireRecord) : Bytes := rs.flatMap WireRecord.encode

theorem encodeRecords_cons (r : WireRecord) (rs : List WireRecord) :
    encodeRecords (r :: rs) = r.encode ++ encodeRecords rs :=
  List.flatMap_cons

theorem encodeRecords_append (rs ss : List WireRecord) :
    encodeRecords (rs ++ ss) = encodeRecords rs ++ encodeRecords ss :=
  List.flatMap_append

namespace WireMessage

def header (m : WireMessage) : Bytes :=
  be16 m.id.toNat ++ (be16 m.flags.toNat ++ (be16 m.questions.length ++
    (be16 m.answers.length ++ (be16 m.authorities.length ++ be16 m.additionals.length))))

def records (m : WireMessage) : List WireRecord := m.answers ++ (m.authorities ++ m.additionals)

def encode (m : WireMessage) : Bytes :=
  m.header ++ (encodeQuestions m.questions ++ encodeRecords m.records)

/-- Where the records start. -/
def recordsAt (m : WireMessage) : Nat := headerLen + (encodeQuestions m.questions).length

/-! ## Where things stand -/

theorem length_header (m : WireMessage) : m.header.length = headerLen := rfl

theorem stands_header (m : WireMessage) : Stands m.encode 0 m.header :=
  List.prefix_append _ _

theorem stands_questions (m : WireMessage) : Stands m.encode headerLen (encodeQuestions m.questions) :=
  stands_append m.header _ _

theorem stands_records (m : WireMessage) : Stands m.encode m.recordsAt (encodeRecords m.records) := by
  have h : Stands m.encode headerLen (encodeQuestions m.questions ++ encodeRecords m.records) := by
    have hAll := stands_append m.header (encodeQuestions m.questions ++ encodeRecords m.records) []
    rwa [List.append_nil] at hAll
  exact h.right

theorem length_encode (m : WireMessage) :
    m.encode.length = m.recordsAt + (encodeRecords m.records).length := by
  rw [encode, List.length_append, List.length_append, length_header, recordsAt, Nat.add_assoc]

theorem header_le (m : WireMessage) : headerLen ≤ m.encode.length := by
  rw [m.length_encode, recordsAt]
  omega

theorem length_records (m : WireMessage) :
    m.answers.length + m.authorities.length + m.additionals.length = m.records.length := by
  rw [records, List.length_append, List.length_append, Nat.add_assoc]

/-- The header counts. -/
theorem counts (m : WireMessage) :
    u16At m.encode 4 = .ok m.questions.length ∧ u16At m.encode 6 = .ok m.answers.length ∧
      u16At m.encode 8 = .ok m.authorities.length ∧
      u16At m.encode 10 = .ok m.additionals.length := by
  have h := m.stands_header.right.right
  exact ⟨u16At_of_stands h.left m.questions_lt, u16At_of_stands h.right.left m.answers_lt,
    u16At_of_stands h.right.right.left m.authorities_lt,
    u16At_of_stands h.right.right.right m.additionals_lt⟩

end WireMessage

/-! ## Layout -/

def WireRecord.view (r : WireRecord) : RecordView :=
  ⟨r.name.encode, r.recordType.toNat, r.dnsClass.toNat, r.ttl.toNat, r.rdata⟩

/-- A walk comes across an encoded record. -/
theorem recordAt_of_stands {r : WireRecord} {pos : Nat} (h : Stands raw pos r.encode) :
    ∃ s, recordAt raw pos = some s ∧ s.view raw = r.view ∧
      s.next raw = some (pos + r.encode.length) := by
  have hReads := WireRecord.reads h
  have hInside := hReads.inside
  have hRecord : recordAt raw pos = some ⟨pos, pos + r.name.encode.length, r.recordType.toNat,
      ofBe (be32 r.ttl.toNat), some r.rdata.length⟩ := by
    simp only [recordAt, toOption_eq_some.mpr hReads.name, toOption_eq_some.mpr hReads.recordType,
      toOption_eq_some.mpr hReads.ttl, toOption_eq_some.mpr hReads.rdlen, Option.bind_eq_bind,
      Option.bind_some]
    rfl
  refine ⟨_, hRecord, ?_, ?_⟩
  · have hOwner := h.left.readAt
    have hClass : readAt raw (pos + r.name.encode.length + 2) 2 = be16 r.dnsClass.toNat :=
      h.right.right.left.readAt
    have hData : readAt raw (pos + r.name.encode.length + 10) r.rdata.length = r.rdata :=
      h.right.right.right.right.right.readAt
    rw [RecordAt.view, WireRecord.view]
    simp only [Nat.add_sub_cancel_left, Option.getD_some]
    rw [hOwner, hClass, hData, ofBe_be16 r.dnsClass.toNat_lt, ofBe_be32 r.ttl.toNat_lt]
  · rw [RecordAt.next]
    dsimp only
    rw [if_neg (by omega), r.length_encode]
    congr 1
    omega

theorem walkRecords_of_stands : ∀ {rs : List WireRecord} {pos : Nat},
    Stands raw pos (encodeRecords rs) →
      (walkRecords raw rs.length pos).found.map (RecordAt.view raw) = rs.map WireRecord.view ∧
      (walkRecords raw rs.length pos).ends = some (pos + (encodeRecords rs).length) := by
  intro rs
  induction rs with
  | nil => exact fun _ => ⟨rfl, rfl⟩
  | cons r rs ih =>
    intro pos h
    rw [encodeRecords_cons] at h
    obtain ⟨s, hs, hView, hNext⟩ := recordAt_of_stands h.left
    obtain ⟨hFound, hEnds⟩ := ih h.right
    rw [List.length_cons, walkRecords, hs]
    dsimp only
    rw [hNext]
    dsimp only
    rw [List.map_cons, List.map_cons, hView, hFound, hEnds, encodeRecords_cons, List.length_append,
      Nat.add_assoc]
    exact ⟨rfl, rfl⟩

theorem walkQuestions_of_stands : ∀ {qs : List WireQuestion} {pos : Nat},
    Stands raw pos (encodeQuestions qs) →
      (walkQuestions raw qs.length pos).ends = some (pos + (encodeQuestions qs).length) := by
  intro qs
  induction qs with
  | nil => exact fun _ => rfl
  | cons q qs ih =>
    intro pos h
    have hCons : encodeQuestions (q :: qs) = q.encode ++ encodeQuestions qs := List.flatMap_cons
    have hLen : q.encode.length = q.name.encode.length + 4 := by
      rw [WireQuestion.encode, List.length_append, List.length_append, length_be16, length_be16]
    rw [hCons] at h
    have hInside := h.left.le (by omega)
    rw [List.length_cons, walkQuestions, toOption_eq_some.mpr (skipName_of_stands h.left.left)]
    dsimp only
    rw [if_neg (by omega)]
    dsimp only
    rw [Nat.add_assoc, ← hLen, ih h.right, hCons, List.length_append, Nat.add_assoc]

/-- **A walk over a message** comes across its records and ends with it. -/
theorem walk_encode (m : WireMessage) :
    (walk m.encode).found.map (RecordAt.view m.encode) = m.records.map WireRecord.view ∧
      (walk m.encode).ends = some m.encode.length := by
  obtain ⟨hQuestions, hAnswers, hAuthorities, hAdditionals⟩ := m.counts
  have hCount : ∀ {pos n : Nat}, u16At m.encode pos = .ok n → countAt m.encode pos = n :=
    ofBe_readAt_of_u16At
  rw [walk, if_neg (Nat.not_lt.mpr m.header_le), hCount hQuestions, hCount hAnswers,
    hCount hAuthorities, hCount hAdditionals, m.length_records, m.length_encode]
  dsimp only
  -- first past the questions, then over the records of all three sections
  rw [walkQuestions_of_stands m.stands_questions]
  exact walkRecords_of_stands m.stands_records

/-! ## OPT -/

/-- Type 41. -/
def WireRecord.isOpt (r : WireRecord) : Bool := r.recordType.toNat == optRecordType

/-- DO, bit 15 of the 32-bit field that is a TTL in other records. -/
def WireRecord.dnssecOk (r : WireRecord) : Bool := r.ttl.toNat.testBit 15

theorem and_dnssecOkBit (n : Nat) : (n &&& dnssecOkBit != 0) = n.testBit 15 := by
  rw [dnssecOkBit, Nat.and_two_pow]
  cases n.testBit 15 <;> rfl

/-- **A section under `find_opt`.** Records are passed over, whatever they are; only
in the additional section does the first OPT record end the walk. -/
theorem findOptRecords_of_stands {sectionIdx : Nat} : ∀ {rs : List WireRecord} {pos : Nat},
    Stands raw pos (encodeRecords rs) → findOptRecords raw sectionIdx rs.length pos =
      .ok ((rs.find? fun r => sectionIdx == 2 && r.isOpt).elim (.inl (pos + (encodeRecords rs).length))
        fun r => .inr (true, r.dnssecOk)) := by
  intro rs
  induction rs with
  | nil => exact fun _ => rfl
  | cons r rs ih =>
    intro pos h
    rw [encodeRecords_cons] at h
    have hReads := WireRecord.reads h.left
    rw [List.length_cons, findOptRecords, hReads.name, ok_bind, hReads.recordType, ok_bind,
      hReads.rdlen, ok_bind]
    by_cases hOpt : sectionIdx = 2 ∧ r.recordType.toNat = optRecordType
    · -- OPT: its four TTL bytes are read one by one
      have hTtl : Stands raw (pos + r.name.encode.length + 4) (be32 r.ttl.toNat) :=
        h.left.right.right.right.left
      have hByte : ∀ {i : Nat} {b : UInt8}, (be32 r.ttl.toNat)[i]? = some b →
          get? raw (pos + r.name.encode.length + (4 + i)) = .ok b := fun hb => by
        obtain ⟨hLt, -⟩ := List.getElem?_eq_some_iff.mp hb
        rw [get?_eq_ok, ← Nat.add_assoc, hTtl.getElem? hLt, hb]
      rw [if_pos hOpt, hByte (i := 0) rfl, ok_bind, hByte (i := 1) rfl, ok_bind,
        hByte (i := 2) rfl, ok_bind, hByte (i := 3) rfl, ok_bind]
      have hHit : (sectionIdx == 2 && r.isOpt) = true := by
        simpa [WireRecord.isOpt] using hOpt
      have hField : ofBe (be32 r.ttl.toNat) = r.ttl.toNat := ofBe_be32 r.ttl.toNat_lt
      rw [be32] at hField
      rw [hField, and_dnssecOkBit, List.find?_cons, hHit]
      rfl
    · -- any other record is passed over
      have hInside := hReads.inside
      have hNext : pos + r.name.encode.length + 10 + r.rdata.length = pos + r.encode.length := by
        rw [r.length_encode]
        omega
      have hMiss : (sectionIdx == 2 && r.isOpt) = false := by
        rw [Bool.eq_false_iff]
        simpa [WireRecord.isOpt] using hOpt
      rw [if_neg hOpt, if_neg (by omega), hNext, ih h.right, List.find?_cons, hMiss,
        encodeRecords_cons, List.length_append, Nat.add_assoc]

/-- The OPT record of a message: the first one among its additional records. -/
def WireMessage.opt (m : WireMessage) : Option WireRecord :=
  m.additionals.find? WireRecord.isOpt

theorem findOpt_message (m : WireMessage) :
    findOpt m.encode m.recordsAt = .ok (m.opt.isSome, m.opt.any WireRecord.dnssecOk) := by
  obtain ⟨-, hAnswers, hAuthorities, hAdditionals⟩ := m.counts
  have hStands := m.stands_records
  rw [WireMessage.records, encodeRecords_append, encodeRecords_append] at hStands
  -- no record is OPT in the first two sections
  have hOther : ∀ {sectionIdx : Nat} (rs : List WireRecord), sectionIdx ≠ 2 →
      rs.find? (fun r => sectionIdx == 2 && r.isOpt) = none := fun rs hIdx =>
    List.find?_eq_none.mpr fun r _ => by simp [hIdx]
  rw [findOpt, hAnswers, ok_bind, hAuthorities, ok_bind, hAdditionals, ok_bind,
    findOptSections, findOptRecords_of_stands hStands.left, hOther _ (by decide)]
  simp only [Option.elim_none, ok_bind]
  rw [findOptSections, findOptRecords_of_stands hStands.right.left, hOther _ (by decide)]
  simp only [Option.elim_none, ok_bind]
  rw [findOptSections, findOptRecords_of_stands hStands.right.right]
  have hOpt : m.additionals.find? (fun r => 0 + 1 + 1 == 2 && r.isOpt) = m.opt := by
    simp [WireMessage.opt]
  rw [hOpt]
  cases m.opt with
  | none => rfl
  | some r => rfl

/-! ## Queries -/

/-- A query as `parse_query` wants it: QR clear and one question, whose name is not
compressed and not too long. -/
structure WireMessage.IsQuery (m : WireMessage) (q : WireQuestion) : Prop where
  query : m.flags.toNat < 2 ^ 15
  questions : m.questions = [q]
  root : q.name.ending = .root
  short : (q.name.labels.map fun l => l.length + 1).sum ≤ maxNameLen

section Queries

variable {m : WireMessage} {q : WireQuestion} (h : m.IsQuery q)

include h

theorem WireMessage.IsQuery.encode_questions :
    encodeQuestions m.questions =
      encodeName q.name.labels ++ (be16 q.qtype.toNat ++ be16 q.qclass.toNat) := by
  rw [h.questions, encodeQuestions, List.flatMap_singleton, WireQuestion.encode, WireName.encode,
    h.root, encodeName_eq]
  rfl

theorem WireMessage.IsQuery.recordsAt_eq :
    m.recordsAt = headerLen + (encodeName q.name.labels).length + 4 := by
  rw [WireMessage.recordsAt, h.encode_questions, List.length_append, List.length_append, length_be16,
    length_be16, Nat.add_assoc]

theorem WireMessage.IsQuery.grammar : Grammar m.encode q.name.labels := by
  have hLen := m.length_encode
  rw [h.recordsAt_eq] at hLen
  have hName := m.stands_questions
  rw [h.encode_questions] at hName
  have hFlags := m.stands_header.right.left
  refine ⟨m.header_le, ⟨_, hFlags.head, ?_⟩, ?_, q.name.labels_ok, h.short, hName.left, by omega⟩
  · have hQuery := h.query
    rw [toNat_ofNat_of_lt (by omega)]
    omega
  · rw [ofBe_readAt_of_u16At m.counts.1, h.questions]
    rfl

/-- **What `parse_query` makes of a message.** -/
theorem WireMessage.IsQuery.parseQuery_eq (hBuf : nameBuf.length = maxNameLen) :
    ∃ nameBuf', nameBuf'.take (dottedName q.name.labels).length = dottedName q.name.labels ∧
      parseQuery rr m.encode nameBuf = .ok (⟨m.id.toNat,
        (UInt8.ofNat (m.flags.toNat / 256) >>> 3) &&& 0x0f,
        UInt8.ofNat (m.flags.toNat / 256) &&& 0x01 != 0, (dottedName q.name.labels).length,
        rr.recordType q.qtype.toNat, rr.dnsClass q.qclass.toNat, ⟨headerLen, m.recordsAt⟩,
        m.opt.isSome, m.opt.any WireRecord.dnssecOk,
        UInt8.ofNat m.flags.toNat &&& 0x10 != 0⟩, nameBuf') := by
  obtain ⟨b0, b1, b2, b3, opt, nameBuf', hb0, hb1, hb2, hb3, hOpt, hName, hParse⟩ :=
    @parseQuery_of_grammar _ _ rr _ _ _ hBuf h.grammar
  refine ⟨nameBuf', hName, hParse.trans ?_⟩
  -- the first four bytes
  have hId := m.stands_header.left
  have hFlags := m.stands_header.right.left
  obtain rfl : _ = b0 := Option.some.inj (hId.head.symm.trans hb0)
  obtain rfl : _ = b1 := Option.some.inj ((hId.getElem? (i := 1) Nat.one_lt_two).symm.trans hb1)
  obtain rfl : _ = b2 := Option.some.inj (hFlags.head.symm.trans hb2)
  obtain rfl : _ = b3 := Option.some.inj ((hFlags.getElem? (i := 1) Nat.one_lt_two).symm.trans hb3)
  -- the codes behind the name, and OPT behind the question
  have hQuestion := m.stands_questions
  rw [h.encode_questions] at hQuestion
  have hType : readAt m.encode (headerLen + (encodeName q.name.labels).length) 2 =
      be16 q.qtype.toNat := hQuestion.right.left.readAt
  have hClass : readAt m.encode (headerLen + (encodeName q.name.labels).length + 2) 2 =
      be16 q.qclass.toNat := hQuestion.right.right.readAt
  rw [← h.recordsAt_eq, settle_eq_some.mpr (findOpt_message m)] at hOpt
  cases hOpt
  have hWord : ofBe (be16 m.id.toNat) = m.id.toNat := ofBe_be16 m.id.toNat_lt
  rw [be16] at hWord
  rw [hWord, hType, hClass, ofBe_be16 q.qtype.toNat_lt, ofBe_be16 q.qclass.toNat_lt,
    ← h.recordsAt_eq]
  rfl

end Queries

/-- **OPT is found where it is, and nowhere else.** -/
theorem parseQuery_reports_opt (hBuf : nameBuf.length = maxNameLen) (m : WireMessage)
    (q : WireQuestion) (h : m.IsQuery q) :
    ∃ query nameBuf', parseQuery rr m.encode nameBuf = .ok (query, nameBuf') ∧
      (query.hasOpt = true ↔ ∃ r ∈ m.additionals, r.recordType = 41) ∧
      query.dnssecOk =
        (m.additionals.find? (·.recordType = 41)).any fun r => r.ttl.toNat.testBit 15 := by
  obtain ⟨nameBuf', -, hParse⟩ := h.parseQuery_eq hBuf
  have hIs : ∀ r : WireRecord, r.isOpt = true ↔ r.recordType = 41 := fun r => by
    rw [WireRecord.isOpt, beq_iff_eq, ← UInt16.toNat_inj]
    rfl
  have hOpt : m.opt = m.additionals.find? (·.recordType = 41) := by
    rw [WireMessage.opt]
    congr 1
    funext r
    rw [Bool.eq_iff_iff, hIs, decide_eq_true_iff]
  refine ⟨_, nameBuf', hParse, ?_, ?_⟩
  · simp [WireMessage.opt, hIs]
  · dsimp only
    rw [hOpt]
    rfl

/-- A query with an OPT record where it does not count, among the answers, and two
where it does. -/
def decoyQuery : WireMessage where
  id := 0x1234
  flags := 0x0100
  questions := [⟨⟨[[0x61]], .root, by simp [LabelOk]⟩, 1, 1⟩]
  answers := [⟨⟨[], .question, labelOk_nil⟩, 41, 1232, 0x8000, [0, 41, 0, 0], by decide⟩]
  authorities := []
  additionals := [⟨⟨[], .root, labelOk_nil⟩, 1, 1, 0x8000, [10, 0, 0, 1], by decide⟩,
    ⟨⟨[], .root, labelOk_nil⟩, 41, 1232, 0, [], length_nil_rdata⟩,
    ⟨⟨[], .root, labelOk_nil⟩, 41, 1232, 0x8000, [], length_nil_rdata⟩]
  questions_lt := by decide
  answers_lt := by decide
  authorities_lt := by decide
  additionals_lt := by decide

theorem parseQuery_reports_opt_decoy :
    ∃ query nameBuf', parseQuery plainRr decoyQuery.encode emptyNameBuf = .ok (query, nameBuf') ∧
      query.hasOpt = true ∧ query.dnssecOk = false := by
  have hQuery : decoyQuery.IsQuery ⟨⟨[[0x61]], .root, by simp [LabelOk]⟩, 1, 1⟩ :=
    ⟨by decide, rfl, rfl, by decide⟩
  obtain ⟨query, nameBuf', hParse, hOpt, hDo⟩ :=
    parseQuery_reports_opt length_emptyNameBuf decoyQuery _ hQuery
  exact ⟨query, nameBuf', hParse, hOpt.mpr (by decide), hDo.trans (by decide)⟩

/-! ## Aging -/

/-- A record some seconds later; OPT has no TTL. -/
def WireRecord.age (elapsedSecs : Nat) (forceZero : Bool) (r : WireRecord) : WireRecord :=
  if r.isOpt then r
  else { r with ttl := if forceZero then 0 else UInt32.ofNat (r.ttl.toNat - elapsedSecs) }

def WireMessage.age (elapsedSecs : Nat) (forceZero : Bool) (m : WireMessage) : WireMessage where
  id := m.id
  flags := m.flags
  questions := m.questions
  answers := m.answers.map (WireRecord.age elapsedSecs forceZero)
  authorities := m.authorities.map (WireRecord.age elapsedSecs forceZero)
  additionals := m.additionals.map (WireRecord.age elapsedSecs forceZero)
  questions_lt := m.questions_lt
  answers_lt := by rw [List.length_map]; exact m.answers_lt
  authorities_lt := by rw [List.length_map]; exact m.authorities_lt
  additionals_lt := by rw [List.length_map]; exact m.additionals_lt

section Aging

variable (elapsedSecs : Nat) (forceZero : Bool)

theorem WireMessage.header_age (m : WireMessage) : (m.age elapsedSecs forceZero).header = m.header := by
  simp only [WireMessage.header, WireMessage.age, List.length_map]

theorem WireMessage.records_age (m : WireMessage) :
    (m.age elapsedSecs forceZero).records = m.records.map (WireRecord.age elapsedSecs forceZero) := by
  simp only [WireMessage.records, WireMessage.age, List.map_append]

/-- Only the TTL differs. -/
theorem WireRecord.age_fields (r : WireRecord) :
    (r.age elapsedSecs forceZero).name = r.name ∧
      (r.age elapsedSecs forceZero).recordType = r.recordType ∧
      (r.age elapsedSecs forceZero).dnsClass = r.dnsClass ∧
      (r.age elapsedSecs forceZero).rdata = r.rdata := by
  rw [WireRecord.age]
  split
  · exact ⟨rfl, rfl, rfl, rfl⟩
  · exact ⟨rfl, rfl, rfl, rfl⟩

theorem WireRecord.age_ttl {r : WireRecord} (h : r.isOpt = false) :
    (r.age elapsedSecs forceZero).ttl.toNat = agedTtl r.ttl.toNat elapsedSecs forceZero := by
  have hLt := r.ttl.toNat_lt
  rw [WireRecord.age, h, if_neg (by decide), agedTtl]
  cases forceZero with
  | true => rfl
  | false => exact UInt32.toNat_ofNat_of_lt' (Nat.lt_of_le_of_lt (Nat.sub_le _ _) hLt)

/-- The write of one pass gives the encoding of the aged record. -/
theorem rewriteTtl_encode (r : WireRecord) (before after : Bytes) :
    rewriteTtl (before ++ (r.encode ++ after)) (before.length + r.name.encode.length + 4)
        r.recordType.toNat (be32 r.ttl.toNat) elapsedSecs forceZero =
      .ok (before ++ ((r.age elapsedSecs forceZero).encode ++ after)) := by
  rw [rewriteTtl]
  by_cases hOpt : r.isOpt = true
  · have hType : r.recordType.toNat = optRecordType := by
      rwa [WireRecord.isOpt, beq_iff_eq] at hOpt
    rw [if_neg (not_not.mpr hType), WireRecord.age, if_pos hOpt]
  · have hType : r.recordType.toNat ≠ optRecordType := by
      rwa [WireRecord.isOpt, beq_iff_eq] at hOpt
    rw [Bool.not_eq_true] at hOpt
    rw [if_pos hType, ofBe_be32 r.ttl.toNat_lt, ← WireRecord.age_ttl elapsedSecs forceZero hOpt]
    obtain ⟨hName, hTypeEq, hClass, hData⟩ := r.age_fields elapsedSecs forceZero
    set aged := r.age elapsedSecs forceZero
    -- the record, cut before and behind its TTL
    let front := before ++ (r.name.encode ++ (be16 r.recordType.toNat ++ be16 r.dnsClass.toNat))
    have hCut : ∀ s : WireRecord, s.name = r.name → s.recordType = r.recordType →
        s.dnsClass = r.dnsClass → s.rdata = r.rdata →
        before ++ (s.encode ++ after) = front ++ (be32 s.ttl.toNat ++ (r.body ++ after)) := by
      intro s h1 h2 h3 h4
      simp only [WireRecord.encode, WireRecord.body, front, h1, h2, h3, h4, List.append_assoc]
    have hFront : before.length + r.name.encode.length + 4 = front.length := by
      simp only [front, List.length_append, length_be16]
      omega
    rw [hCut r rfl rfl rfl rfl, hCut aged hName hTypeEq hClass hData, hFront]
    have hFits : front.length + (be32 aged.ttl.toNat).length ≤
        (front ++ (be32 r.ttl.toNat ++ (r.body ++ after))).length := by
      simp only [List.length_append, length_be32]
      omega
    have hWrite := overwrite_eq_ok hFits
    rw [length_be32] at hWrite
    rw [hWrite, writeAt_middle front _ (by rw [length_be32, length_be32])]

/-- **The records of a message, one pass after the other.** -/
theorem ageRecords_encode : ∀ (rs : List WireRecord) (before after : Bytes),
    ageRecords elapsedSecs forceZero rs.length (before ++ (encodeRecords rs ++ after)) before.length =
      .ok (true, before ++ (encodeRecords (rs.map (WireRecord.age elapsedSecs forceZero)) ++ after)) := by
  intro rs
  induction rs with
  | nil => exact fun _ _ => rfl
  | cons r rs ih =>
    intro before after
    obtain ⟨hName, -, -, hData⟩ := r.age_fields elapsedSecs forceZero
    rw [List.map_cons, encodeRecords_cons, encodeRecords_cons, List.append_assoc, List.append_assoc]
    have hReads := WireRecord.reads (stands_append before r.encode (encodeRecords rs ++ after))
    have hAged := WireRecord.reads
      (stands_append before (r.age elapsedSecs forceZero).encode (encodeRecords rs ++ after))
    -- RDLENGTH is read after the write, from the aged record
    have hInside := hAged.inside
    have hRdlen := hAged.rdlen
    have hLen := (r.age elapsedSecs forceZero).length_encode
    rw [hName, hData] at hInside hRdlen hLen
    rw [List.length_cons, ageRecords, settle_eq_some.mpr hReads.name, ok_bind]
    dsimp only
    rw [settle_eq_some.mpr hReads.recordType, ok_bind]
    dsimp only
    rw [settle_eq_some.mpr hReads.ttl, ok_bind]
    dsimp only
    rw [rewriteTtl_encode, ok_bind, settle_eq_some.mpr hRdlen, ok_bind]
    dsimp only
    -- the next pass starts behind this record, in the buffer it has left
    have hNext : before.length + r.name.encode.length + 10 + r.rdata.length =
        (before ++ (r.age elapsedSecs forceZero).encode).length := by
      rw [List.length_append, hLen]
      omega
    rw [if_neg (by omega), hNext, ← List.append_assoc before, ih, List.append_assoc before]

end Aging

/-- **Aging commutes with encoding.** -/
theorem ageTtls_encode (m : WireMessage) (elapsedSecs : Nat) (forceZero : Bool) :
    ageTtls m.encode elapsedSecs forceZero = .ok (true, (m.age elapsedSecs forceZero).encode) := by
  obtain ⟨hQuestions, hAnswers, hAuthorities, hAdditionals⟩ := m.counts
  -- the records stand behind the header and the questions, and nothing behind them
  have hRun := ageRecords_encode elapsedSecs forceZero m.records
    (m.header ++ encodeQuestions m.questions) []
  rw [List.append_nil, List.append_nil, List.append_assoc, List.append_assoc,
    List.length_append] at hRun
  rw [ageTtls, if_neg (Nat.not_lt.mpr m.header_le), settle_eq_some.mpr hQuestions, ok_bind,
    settle_eq_some.mpr hAnswers, ok_bind, settle_eq_some.mpr hAuthorities, ok_bind,
    settle_eq_some.mpr hAdditionals, ok_bind]
  dsimp only
  rw [ageQuestions_eq, walkQuestions_of_stands m.stands_questions, ok_bind]
  dsimp only
  rw [m.length_records, WireMessage.encode, WireMessage.encode, WireMessage.header_age,
    WireMessage.records_age]
  exact hRun

end DnsRs.Wire
