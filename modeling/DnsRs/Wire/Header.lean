import DnsRs.Wire.Total

/-!
# Headers of the responses built here

A response echoes a request when it has the request's ID and opcode and its QR
bit is set. `synthesize` and `bare_error` echo; a response of the upstream that is
given a new ID echoes if its flags byte does. The responses built here are short,
however long the request is.
-/

namespace DnsRs.Wire

open Lib

variable {RecordType DNSClass : Type} {rr : RrFrom RecordType DNSClass} {raw wire : Bytes}

/-- The four opcode bits of the third byte of a header. -/
def opcodeOf (flags : UInt8) : UInt8 := (flags >>> 3) &&& 0x0f

/-- The third byte: QR set, and the opcode of the request. -/
def EchoesFlags (raw response : Bytes) : Prop :=
  ∃ b b', raw[2]? = some b ∧ response[2]? = some b' ∧ b' &&& 0x80 = 0x80 ∧ opcodeOf b' = opcodeOf b

structure Echoes (raw response : Bytes) : Prop where
  id : ∃ b0 b1, raw[0]? = some b0 ∧ raw[1]? = some b1 ∧ response[0]? = some b0 ∧
    response[1]? = some b1
  flags : EchoesFlags raw response

/-- QR and opcode of a flags byte that is put together from its parts. -/
theorem flags_of_parts (opcode rd : UInt8) (hRd : rd = 0 ∨ rd = 1) :
    ((0x80 : UInt8) ||| (((opcode >>> 3) &&& 0x0f) <<< 3) ||| rd) &&& 0x80 = 0x80 ∧
      opcodeOf ((0x80 : UInt8) ||| (((opcode >>> 3) &&& 0x0f) <<< 3) ||| rd) = opcodeOf opcode := by
  -- one case for each flags byte and each RD bit
  have hAll : ∀ n < 256, ∀ r < 2,
      ((0x80 : UInt8) ||| (((UInt8.ofNat n >>> 3) &&& 0x0f) <<< 3) ||| UInt8.ofNat r) &&& 0x80 = 0x80 ∧
        opcodeOf ((0x80 : UInt8) ||| (((UInt8.ofNat n >>> 3) &&& 0x0f) <<< 3) ||| UInt8.ofNat r) =
          opcodeOf (UInt8.ofNat n) := by decide +kernel
  have hByte := hAll opcode.toNat opcode.toNat_lt
  rw [ofNat_toNat] at hByte
  rcases hRd with rfl | rfl
  · exact hByte 0 (by decide)
  · exact hByte 1 (by decide)

/-! ## The parts of a synthesized response -/

theorem length_encodeName (labels : List Bytes) :
    (encodeName labels).length = (flatName labels).length + 1 := by
  induction labels with
  | nil => rfl
  | cons label labels ih =>
    rw [encodeName, flatName_cons]
    simp only [List.length_cons, List.length_append, List.length_map, List.length_nil, ih]
    omega

/-- The question of an accepted request is short. -/
theorem Accepted.length_question {query : ParsedQuery RecordType DNSClass} {name : Bytes}
    {q : Question} (h : Accepted rr raw query name q) :
    (encodeQuestion q).length ≤ maxNameLen + 5 := by
  have hShort := h.short
  rw [h.name_eq, dottedName] at hShort
  have hFlat : (flatName q.labels).length ≤ maxNameLen := by
    split at hShort
    · rename_i hRoot
      rw [hRoot]
      exact Nat.zero_le _
    · exact hShort
  rw [encodeQuestion, List.length_append, List.length_append, length_encodeName, length_be16,
    length_be16]
  omega

/-- A synthesized response: its header, the question, and at most two records. -/
theorem synthesize_eq_ok {query : ParsedQuery RecordType DNSClass} {rcode : UInt8}
    {answer : Option (Ipv4Addr × Nat)} (h : synthesize raw query rcode answer = .ok wire) :
    ∃ (flags : UInt8) (question record opt : Bytes),
      slice raw query.question.start query.question.stop = .ok question ∧
      record.length ≤ 16 ∧ opt.length ≤ 11 ∧
      wire = be16 query.id ++
        [(0x80 : UInt8) ||| (query.opcode <<< 3) ||| u8OfBool query.recursionDesired, flags] ++
        be16 1 ++ be16 (u16OfBool answer.isSome) ++ be16 0 ++ be16 (u16OfBool query.hasOpt) ++
        question ++ record ++ opt := by
  unfold synthesize at h
  obtain ⟨question, hSlice, h⟩ := bind_eq_ok.mp h
  cases h
  refine ⟨_, question, _, _, hSlice, ?_, ?_, rfl⟩
  · rcases answer with - | ⟨ip, ttl⟩
    · exact Nat.zero_le _
    · simp [length_be16, length_be32, ip.length_octets]
  · split
    · simp [length_be16, length_be32]
    · exact Nat.zero_le _

/-- **A synthesized response echoes the request.** -/
theorem synthesize_echoes {nameBuf nameBuf' : Bytes} {query : ParsedQuery RecordType DNSClass}
    {rcode : UInt8} {answer : Option (Ipv4Addr × Nat)}
    (hParse : parseQuery rr raw nameBuf = .ok (query, nameBuf'))
    (h : synthesize raw query rcode answer = .ok wire) : Echoes raw wire := by
  obtain ⟨b0, b1, b2, b3, pos, nameLen, nameBuf₁, nameLen', qtype, qclass, opt, -,
    ⟨hb0, hb1, hb2, -⟩, -, -, -, -, -, -, -, -, rfl⟩ := parseQuery_eq_ok hParse
  obtain ⟨flags, question, record, optRecord, -, -, -, rfl⟩ := synthesize_eq_ok h
  have hRd : u8OfBool (b2 &&& 0x01 != 0) = 0 ∨ u8OfBool (b2 &&& 0x01 != 0) = 1 := by
    cases b2 &&& 0x01 != 0
    · exact .inl rfl
    · exact .inr rfl
  obtain ⟨hQr, hOpcode⟩ := flags_of_parts b2 _ hRd
  dsimp only
  rw [be16_ofBe]
  exact ⟨⟨b0, b1, hb0, hb1, rfl, rfl⟩, b2, _, hb2, rfl, hQr, hOpcode⟩

/-- It fits a message, whatever the request is. -/
theorem length_synthesize {nameBuf nameBuf' : Bytes} {query : ParsedQuery RecordType DNSClass}
    {rcode : UInt8} {answer : Option (Ipv4Addr × Nat)} (hBuf : nameBuf.length = maxNameLen)
    (hParse : parseQuery rr raw nameBuf = .ok (query, nameBuf'))
    (h : synthesize raw query rcode answer = .ok wire) : wire.length ≤ 299 := by
  obtain ⟨q, hq⟩ := parseQuery_sound hBuf hParse
  have hQuestion := hq.length_question
  have hSpan := hq.span
  obtain ⟨flags, question, record, opt, hSlice, hRecord, hOpt, rfl⟩ := synthesize_eq_ok h
  have hInside := hq.inside
  rw [hSpan] at hInside hSlice
  rw [slice_eq_ok (Nat.le_add_right _ _) hInside] at hSlice
  cases hSlice
  -- 12 of the header, at most 260 of the question, 16 of the record, 11 of the OPT
  rw [maxNameLen] at hQuestion
  simp only [List.length_append, length_be16, List.length_cons, List.length_nil, readAt,
    List.length_take, Nat.add_sub_cancel_left]
  omega

/-- It has an OPT record only if the request has one. -/
theorem synthesize_additionals {query : ParsedQuery RecordType DNSClass} {rcode : UInt8}
    {answer : Option (Ipv4Addr × Nat)} (hOpt : query.hasOpt = false)
    (h : synthesize raw query rcode answer = .ok wire) : u16At wire 10 = .ok 0 := by
  obtain ⟨flags, question, record, opt, -, -, -, rfl⟩ := synthesize_eq_ok h
  rw [hOpt]
  rfl

/-! ## The other responses -/

/-- **A bare error echoes the request**, well formed or not. -/
theorem bareError_echoes (hLen : 3 ≤ raw.length) (rcode : UInt8) :
    Echoes raw (bareError raw rcode) := by
  rcases raw with - | ⟨b0, - | ⟨b1, - | ⟨b2, rest⟩⟩⟩
  · simp at hLen
  · simp at hLen
  · simp at hLen
  · have hId : ofBe (readAt (b0 :: b1 :: b2 :: rest) 0 2) = ofBe [b0, b1] := rfl
    obtain ⟨hQr, hOpcode⟩ := flags_of_parts b2 0 (.inl rfl)
    rw [bareError, if_pos (by simp), hId, be16_ofBe]
    refine ⟨⟨b0, b1, rfl, rfl, rfl, rfl⟩, b2, _, rfl, rfl, ?_, ?_⟩
    · rwa [UInt8.or_zero] at hQr
    · rwa [UInt8.or_zero] at hOpcode

theorem length_bareError (raw : Bytes) (rcode : UInt8) : (bareError raw rcode).length = 12 := by
  simp [bareError, length_be16]

/-- Setting the ID a message has already. -/
theorem setId_self (b0 b1 : UInt8) (rest : Bytes) :
    setId (b0 :: b1 :: rest) (ofBe [b0, b1]) = .ok (b0 :: b1 :: rest) := by
  have hFits : 0 + ([b0, b1] : Bytes).length ≤ (b0 :: b1 :: rest).length := by simp
  rw [setId, if_pos (by simp), be16_ofBe]
  refine (overwrite_eq_ok hFits).trans ?_
  simp [writeAt]

/-- **A response with the request's ID echoes it**, if its flags do. -/
theorem setId_echoes {nameBuf nameBuf' response : Bytes} {query : ParsedQuery RecordType DNSClass}
    (hParse : parseQuery rr raw nameBuf = .ok (query, nameBuf'))
    (h : setId wire query.id = .ok response) (hFlags : EchoesFlags raw wire) :
    Echoes raw response := by
  obtain ⟨b0, b1, b2, b3, pos, nameLen, nameBuf₁, nameLen', qtype, qclass, opt, -,
    ⟨hb0, hb1, hb2, -⟩, -, -, -, -, -, -, -, -, rfl⟩ := parseQuery_eq_ok hParse
  obtain ⟨b, b', hb, hb', hQr, hOpcode⟩ := hFlags
  have hLen : 2 < wire.length := (List.getElem?_eq_some_iff.mp hb').1
  have hFits : 0 + ([b0, b1] : Bytes).length ≤ wire.length := by simp; omega
  rw [setId, if_pos (by omega), be16_ofBe] at h
  cases (overwrite_eq_ok hFits).symm.trans h
  -- the first two bytes are overwritten, the flags byte stays
  refine ⟨⟨b0, b1, hb0, hb1, ?_, ?_⟩, b, b', hb, ?_, hQr, hOpcode⟩
  · rw [getElem?_writeAt hFits]
    rfl
  · rw [getElem?_writeAt hFits]
    rfl
  · rw [getElem?_writeAt hFits]
    exact hb'

end DnsRs.Wire
