import DnsRs.Lib.Slice

/-!
# `dns/wire.rs` — reading questions and building responses in place

A message is a list of bytes. Offsets are `usize` in the source and `Nat`
here: every offset is at most the message length plus a 16-bit field.
`RecordType::from` and `DNSClass::from` belong to `hickory_proto`; they are
taken as parameters (`RrFrom`), and `RrFrom.Injective` is what the code
relies on: both keep the 16-bit code they are made from.

`raw.get(i)?` is `get?`, `raw[i]` is `index`, `raw.get(a..b)?` is `getRange?`
and `raw[a..b]` is `slice`; the second and the fourth fault out of bounds.
Loops over the message run with one more unit of fuel than the message has
bytes.
-/

namespace DnsRs.Wire

open Lib

abbrev Bytes := List UInt8

/-! ## Constants -/

/-- RFC 1035 wire-format name length limit. -/
def maxNameLen : Nat := 255

/-- Longest possible encoded qname plus QTYPE/QCLASS. -/
def maxQuestionLen : Nat := 259

def headerLen : Nat := 12

/-- EDNS(0) pseudo-record type. -/
def optRecordType : Nat := 41

/-- DO (DNSSEC OK) bit of the OPT record's TTL field. -/
def dnssecOkBit : Nat := 2 ^ 15

def ednsPayloadSize : Nat := 1232

def rcodeNoerror : UInt8 := 0
def rcodeFormerr : UInt8 := 1
def rcodeServfail : UInt8 := 2
def rcodeNxdomain : UInt8 := 3

/-- `b'.'` -/
def dot : UInt8 := 0x2e

/-! ## Bytes -/

/-- `u8::to_ascii_lowercase` -/
def asciiLower (b : UInt8) : UInt8 := if 65 ≤ b ∧ b ≤ 90 then b + 32 else b

/-- `u8::eq_ignore_ascii_case` -/
def eqIgnoreAsciiCase (a b : UInt8) : Bool := asciiLower a == asciiLower b

/-- `from_be_bytes` -/
def ofBe (bytes : Bytes) : Nat := bytes.foldl (fun acc b => acc * 256 + b.toNat) 0

/-- `u16::to_be_bytes` -/
def be16 (n : Nat) : Bytes := [UInt8.ofNat (n / 256), UInt8.ofNat n]

/-- `u32::to_be_bytes` -/
def be32 (n : Nat) : Bytes :=
  [UInt8.ofNat (n / 2 ^ 24), UInt8.ofNat (n / 2 ^ 16), UInt8.ofNat (n / 2 ^ 8), UInt8.ofNat n]

/-- `raw.get(pos)?` -/
def get? (raw : Bytes) (pos : Nat) : Except Exit UInt8 :=
  match raw[pos]? with
  | some b => .ok b
  | none => .error .none

/-- `raw[pos]` -/
def index (raw : Bytes) (pos : Nat) : Except Fault UInt8 :=
  match raw[pos]? with
  | some b => .ok b
  | none => .error .panic

/-- `raw.get(start..stop)?` -/
def getRange? (raw : Bytes) (start stop : Nat) : Except Exit Bytes :=
  if start ≤ stop ∧ stop ≤ raw.length then .ok (readAt raw start (stop - start))
  else .error .none

def u16At (raw : Bytes) (pos : Nat) : Except Exit Nat := do
  let hi ← get? raw pos
  let lo ← get? raw (pos + 1)
  return ofBe [hi, lo]

/-! ## The parsed query -/

/-- `Range<usize>` -/
structure Span where
  start : Nat
  stop : Nat
  deriving DecidableEq, Repr

/-- The conversions of `hickory_proto` that `parse_query` applies to the two
16-bit codes of a question. -/
structure RrFrom (RecordType DNSClass : Type) where
  recordType : Nat → RecordType
  dnsClass : Nat → DNSClass

/-- Both conversions keep the code: unknown codes are carried along. -/
structure RrFrom.Injective {RecordType DNSClass : Type} (rr : RrFrom RecordType DNSClass) :
    Prop where
  recordType : ∀ a b, a < 2 ^ 16 → b < 2 ^ 16 → rr.recordType a = rr.recordType b → a = b
  dnsClass : ∀ a b, a < 2 ^ 16 → b < 2 ^ 16 → rr.dnsClass a = rr.dnsClass b → a = b

variable {RecordType DNSClass : Type}

structure ParsedQuery (RecordType DNSClass : Type) where
  id : Nat
  opcode : UInt8
  recursionDesired : Bool
  /-- Length of the lowercased qname in the caller's buffer. -/
  nameLen : Nat
  qtype : RecordType
  qclass : DNSClass
  /-- Byte range of the question section within the request. -/
  question : Span
  hasOpt : Bool
  dnssecOk : Bool
  checkingDisabled : Bool
  deriving DecidableEq, Repr

/-- `[0u8; MAX_NAME_LEN]` -/
def emptyNameBuf : Bytes := List.replicate maxNameLen 0

/-- One label copied into the name buffer, lowercased there, and the dot that
follows it. -/
def pushLabel (nameBuf : Bytes) (nameLen : Nat) (label : Bytes) : Except Fault Bytes := do
  let stop := nameLen + label.length
  let copied ← overwrite nameBuf nameLen stop label
  let lowered ← overwrite copied nameLen stop ((readAt copied nameLen label.length).map asciiLower)
  overwrite lowered stop (stop + 1) [dot]

/-- The label loop of `parse_query`: the offset past the name, the name length
and the name buffer. -/
def parseLabels (raw : Bytes) : Nat → Nat → Nat → Bytes → Except Exit (Nat × Nat × Bytes)
  | 0, _, _, _ => .error (.fault .hang)
  | fuel + 1, pos, nameLen, nameBuf => do
    let labelLen ← get? raw pos
    if labelLen &&& 0xc0 ≠ 0 then
      .error .none -- compression pointer or reserved label type
    else if labelLen = 0 then
      .ok (pos + 1, nameLen, nameBuf)
    else do
      let label ← getRange? raw (pos + 1) (pos + 1 + labelLen.toNat)
      -- + 1 for the dot that follows every label, including the last
      if nameLen + labelLen.toNat + 1 > maxNameLen then
        .error .none
      else do
        let nameBuf ← pushLabel nameBuf nameLen label
        parseLabels raw fuel (pos + 1 + labelLen.toNat) (nameLen + labelLen.toNat + 1) nameBuf

/-- The root, which has no label of its own, is just a dot. -/
def finishName (nameLen : Nat) (nameBuf : Bytes) : Except Fault (Nat × Bytes) :=
  if nameLen = 0 then do
    let nameBuf ← overwrite nameBuf 0 1 [dot]
    return (1, nameBuf)
  else .ok (nameLen, nameBuf)

/-- Skips a possibly compressed name, returning the offset just past it. -/
def skipNameFrom (raw : Bytes) : Nat → Nat → Except Exit Nat
  | 0, _ => .error (.fault .hang)
  | fuel + 1, pos => do
    let len ← get? raw pos
    if len &&& 0xc0 = 0xc0 then
      -- a pointer always ends the name, and is two bytes wide
      if pos + 2 ≤ raw.length then .ok (pos + 2) else .error .none
    else if len &&& 0xc0 ≠ 0 then
      .error .none
    else if len = 0 then
      if pos + 1 ≤ raw.length then .ok (pos + 1) else .error .none
    else
      skipNameFrom raw fuel (pos + 1 + len.toNat)

def skipName (raw : Bytes) (pos : Nat) : Except Exit Nat :=
  skipNameFrom raw (raw.length + 1) pos

/-- The records of one section of `find_opt`: the offset past them, or the
answer once an OPT record is met. -/
def findOptRecords (raw : Bytes) (sectionIdx : Nat) :
    Nat → Nat → Except Exit (Nat ⊕ (Bool × Bool))
  | 0, pos => .ok (.inl pos)
  | count + 1, pos => do
    let pos ← skipName raw pos
    let rtype ← u16At raw pos
    let rdlen ← u16At raw (pos + 8)
    -- OPT is only meaningful in the additional section (index 2)
    if sectionIdx = 2 ∧ rtype = optRecordType then do
      let b0 ← get? raw (pos + 4)
      let b1 ← get? raw (pos + 5)
      let b2 ← get? raw (pos + 6)
      let b3 ← get? raw (pos + 7)
      return .inr (true, ofBe [b0, b1, b2, b3] &&& dnssecOkBit != 0)
    else if pos + 10 + rdlen > raw.length then
      .error .none
    else
      findOptRecords raw sectionIdx count (pos + 10 + rdlen)

/-- The sections of `find_opt`, from index `sectionIdx` on. -/
def findOptSections (raw : Bytes) : Nat → List Nat → Nat → Except Exit (Bool × Bool)
  | _, [], _ => .ok (false, false)
  | sectionIdx, count :: counts, pos => do
    match ← findOptRecords raw sectionIdx count pos with
    | .inl pos => findOptSections raw (sectionIdx + 1) counts pos
    | .inr found => return found

def findOpt (raw : Bytes) (pos : Nat) : Except Exit (Bool × Bool) := do
  let answers ← u16At raw 6
  let authorities ← u16At raw 8
  let additionals ← u16At raw 10
  findOptSections raw 0 [answers, authorities, additionals] pos

/-- Reads the question section of `raw`, writing the lowercased qname into
`nameBuf`; the buffer is returned beside the result. -/
def parseQuery (rr : RrFrom RecordType DNSClass) (raw nameBuf : Bytes) :
    Except Exit (ParsedQuery RecordType DNSClass × Bytes) := do
  if raw.length < headerLen then
    .error .none
  else do
    let b2 ← index raw 2
    -- QR must be clear: this is a query, not a response
    if b2 &&& 0x80 ≠ 0 then
      .error .none
    else do
      let qdcount ← u16At raw 4
      if qdcount ≠ 1 then
        .error .none
      else do
        let (pos, nameLen, nameBuf) ← parseLabels raw (raw.length + 1) headerLen 0 nameBuf
        let (nameLen, nameBuf) ← finishName nameLen nameBuf
        let qtype ← u16At raw pos
        let qclass ← u16At raw (pos + 2)
        let question : Span := ⟨headerLen, pos + 4⟩
        if question.stop > raw.length then
          .error .none
        else do
          let opt ← settle (findOpt raw question.stop)
          let (hasOpt, dnssecOk) := opt.getD (false, false)
          let b0 ← index raw 0
          let b1 ← index raw 1
          let b3 ← index raw 3
          return (⟨ofBe [b0, b1], (b2 >>> 3) &&& 0x0f, b2 &&& 0x01 != 0, nameLen,
            rr.recordType qtype, rr.dnsClass qclass, question, hasOpt, dnssecOk,
            b3 &&& 0x10 != 0⟩, nameBuf)

/-! ## Identifiers and questions of responses -/

/-- Overwrites the message ID in an already encoded message. -/
def setId (wire : Bytes) (id : Nat) : Except Fault Bytes :=
  if wire.length ≥ 2 then overwrite wire 0 2 (be16 id) else .ok wire

def questionSpan (raw : Bytes) : Except Exit Span := do
  if raw.length < headerLen then
    .error .none
  else do
    let qdcount ← u16At raw 4
    if qdcount ≠ 1 then
      .error .none
    else do
      let stop ← skipName raw headerLen
      if stop + 4 ≤ raw.length then .ok ⟨headerLen, stop + 4⟩ else .error .none

/-- Compares two question sections, case-insensitively. -/
def questionsMatch (a b : Bytes) : Bool :=
  a.length == b.length && (a.zip b).all fun p => eqIgnoreAsciiCase p.1 p.2

structure QuestionKey where
  len : Nat
  bytes : Bytes
  deriving DecidableEq, Repr

def QuestionKey.fromWire (wire : Bytes) : Except Exit QuestionKey := do
  let span ← questionSpan wire
  let question ← getRange? wire span.start span.stop
  if question.length > maxQuestionLen then
    .error .none
  else do
    let bytes ← overwrite (List.replicate maxQuestionLen 0) 0 question.length question
    return ⟨question.length % 2 ^ 16, bytes⟩

def QuestionKey.matches (key : QuestionKey) (wire : Bytes) : Except Fault Bool := do
  match ← settle (questionSpan wire) with
  | none => return false
  | some span => do
    let question ← slice wire span.start span.stop
    let expected ← slice key.bytes 0 key.len
    return questionsMatch question expected

/-! ## TTL aging -/

/-- The question loop of `age_ttls`: the offset past the questions, or `none`
where the function returns `false`. -/
def ageQuestions (wire : Bytes) : Nat → Nat → Except Fault (Option Nat)
  | 0, pos => .ok (some pos)
  | count + 1, pos => do
    match ← settle (skipName wire pos) with
    | none => return none
    | some stop => if stop + 4 > wire.length then return none else ageQuestions wire count (stop + 4)

/-- The TTL a record is given. -/
def agedTtl (ttl elapsedSecs : Nat) (forceZero : Bool) : Nat :=
  if forceZero then 0 else ttl - elapsedSecs

/-- The TTL of a record is rewritten in place; OPT's 32-bit field is no TTL. -/
def rewriteTtl (wire : Bytes) (ttlAt recordType : Nat) (ttlBytes : Bytes) (elapsedSecs : Nat)
    (forceZero : Bool) : Except Fault Bytes :=
  if recordType ≠ optRecordType then
    overwrite wire ttlAt (ttlAt + 4) (be32 (agedTtl (ofBe ttlBytes) elapsedSecs forceZero))
  else .ok wire

/-- The record loop of `age_ttls`: its return value and the buffer. -/
def ageRecords (elapsedSecs : Nat) (forceZero : Bool) :
    Nat → Bytes → Nat → Except Fault (Bool × Bytes)
  | 0, wire, _ => .ok (true, wire)
  | count + 1, wire, pos => do
    match ← settle (skipName wire pos) with
    | none => return (false, wire)
    | some pos =>
      match ← settle (u16At wire pos) with
      | none => return (false, wire)
      | some recordType =>
        match ← settle (getRange? wire (pos + 4) (pos + 4 + 4)) with
        | none => return (false, wire)
        | some ttlBytes => do
          let wire ← rewriteTtl wire (pos + 4) recordType ttlBytes elapsedSecs forceZero
          match ← settle (u16At wire (pos + 8)) with
          | none => return (false, wire)
          | some rdlen =>
            if pos + 10 + rdlen > wire.length then return (false, wire)
            else ageRecords elapsedSecs forceZero count wire (pos + 10 + rdlen)

/-- Ages every ordinary resource-record TTL in place. -/
def ageTtls (wire : Bytes) (elapsedSecs : Nat) (forceZero : Bool) :
    Except Fault (Bool × Bytes) := do
  if wire.length < headerLen then
    return (false, wire)
  else do
    let questions ← settle (u16At wire 4)
    let answers ← settle (u16At wire 6)
    let authorities ← settle (u16At wire 8)
    let additionals ← settle (u16At wire 10)
    match questions, answers, authorities, additionals with
    | some questions, some answers, some authorities, some additionals => do
      match ← ageQuestions wire questions headerLen with
      | none => return (false, wire)
      | some pos =>
        ageRecords elapsedSecs forceZero (answers + authorities + additionals) wire pos
    | _, _, _, _ => return (false, wire)

/-! ## Synthesized responses -/

structure Ipv4Addr where
  octets : Bytes
  length_octets : octets.length = 4
  deriving DecidableEq, Repr

/-- `Ipv4Addr::UNSPECIFIED` -/
def Ipv4Addr.unspecified : Ipv4Addr := ⟨[0, 0, 0, 0], rfl⟩

/-- `u8::from(bool)` -/
def u8OfBool (b : Bool) : UInt8 := if b then 1 else 0

/-- `u16::from(bool)` -/
def u16OfBool (b : Bool) : Nat := if b then 1 else 0

/-- Builds a response to `raw` by copying its header and question. -/
def synthesize (raw : Bytes) (query : ParsedQuery RecordType DNSClass) (rcode : UInt8)
    (answer : Option (Ipv4Addr × Nat)) : Except Fault Bytes := do
  let question ← slice raw query.question.start query.question.stop
  let header := be16 query.id
    -- QR set, opcode preserved, RD echoed back
    ++ [(0x80 : UInt8) ||| (query.opcode <<< 3) ||| u8OfBool query.recursionDesired,
    -- RA set, CD echoed back, RCODE as given
      (0x80 : UInt8) ||| (u8OfBool query.checkingDisabled <<< 4) ||| (rcode &&& 0x0f)]
    ++ be16 1 ++ be16 (u16OfBool answer.isSome) ++ be16 0 ++ be16 (u16OfBool query.hasOpt)
  let record := match answer with
    | some (ip, ttl) =>
      -- pointer to the qname at offset 12, then type A, class IN
      [0xc0, UInt8.ofNat headerLen] ++ be16 1 ++ be16 1 ++ be32 ttl ++ be16 4 ++ ip.octets
    | none => []
  let opt := if query.hasOpt then
      [0] ++ be16 optRecordType ++ be16 ednsPayloadSize
        ++ be32 (if query.dnssecOk then dnssecOkBit else 0) ++ be16 0
    else []
  return header ++ question ++ record ++ opt

/-- Last-resort response for a request too malformed to read a question from. -/
def bareError (raw : Bytes) (rcode : UInt8) : Bytes :=
  let id := if 2 ≤ raw.length then ofBe (readAt raw 0 2) else 0
  let opcode : UInt8 := match raw[2]? with
    | some b => (b >>> 3) &&& 0x0f
    | none => 0
  be16 id ++ [(0x80 : UInt8) ||| (opcode <<< 3), (0x80 : UInt8) ||| (rcode &&& 0x0f)] ++ List.replicate 8 0

end DnsRs.Wire
