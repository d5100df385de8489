import DnsRs.Wire.Records
import DnsRs.Wire.Total
import DnsRs.Wire.Identity

/-!
# The grammar of `parse_query`

`Grammar raw labels` says, without a word about the parser, that `raw` is a
request for the name `labels`. `parse_query` accepts these requests and no others
(`parseQuery_accepts_iff`), and what it returns is read off the request
(`parseQuery_of_grammar`, `Decodes`).

A name of the grammar may be one byte longer on the wire than a name can be: the
bound of 255 is kept by the dotted form, which does not count the root. Everything
here is for the bound the code has.
-/

namespace DnsRs.Wire

open Lib

variable {RecordType DNSClass : Type} {rr : RrFrom RecordType DNSClass} {raw nameBuf : Bytes}
  {labels : List Bytes}

/-- A request for this name, as far as `parse_query` asks. -/
structure Grammar (raw : Bytes) (labels : List Bytes) : Prop where
  header : headerLen ≤ raw.length
  /-- QR, the top bit of the third byte, is clear -/
  query : ∃ b, raw[2]? = some b ∧ b.toNat < 128
  /-- QDCOUNT -/
  one : ofBe (readAt raw 4 2) = 1
  labels_ok : ∀ l ∈ labels, LabelOk l
  short : (labels.map fun l => l.length + 1).sum ≤ maxNameLen
  name : Stands raw headerLen (encodeName labels)
  /-- QTYPE and QCLASS -/
  codes : headerLen + (encodeName labels).length + 4 ≤ raw.length

/-! ## Names -/

theorem length_flatName (labels : List Bytes) :
    (flatName labels).length = (labels.map fun l => l.length + 1).sum := by
  induction labels with
  | nil => rfl
  | cons l labels ih =>
    rw [flatName_cons, List.map_cons, List.sum_cons, ← ih]
    simp only [List.length_append, List.length_map, List.length_singleton]

/-- **The label loop accepts every name that fits.** -/
theorem parseLabels_complete : ∀ {labels : List Bytes} {fuel pos nameLen : Nat} {nameBuf : Bytes},
    (∀ l ∈ labels, LabelOk l) → Stands raw pos (encodeName labels) → raw.length < fuel + pos →
    nameBuf.length = maxNameLen → nameLen + (flatName labels).length ≤ maxNameLen →
    ∃ nameBuf', parseLabels raw fuel pos nameLen nameBuf =
      .ok (pos + (encodeName labels).length, nameLen + (flatName labels).length, nameBuf') := by
  intro labels
  induction labels with
  | nil =>
    intro fuel pos nameLen nameBuf _ h hFuel _ _
    have hLe := h.le Nat.one_pos
    obtain ⟨fuel, rfl⟩ : ∃ n, fuel = n + 1 := ⟨fuel - 1, by omega⟩
    refine ⟨nameBuf, ?_⟩
    rw [parseLabels, get?_eq_ok.mpr h.head, ok_bind, if_neg (by decide), if_pos rfl]
    rfl
  | cons label labels ih =>
    intro fuel pos nameLen nameBuf hOk h hFuel hBuf hFits
    have hLabel := hOk label List.mem_cons_self
    have hHead : raw[pos]? = some (UInt8.ofNat label.length) := h.head
    -- the label stands behind its length, and the other labels behind it
    have hTail : Stands raw (pos + 1) (label ++ encodeName labels) :=
      Stands.right (show Stands raw pos ([UInt8.ofNat label.length] ++ _) from h)
    have hLe := hTail.left.le hLabel.1
    obtain ⟨fuel, rfl⟩ : ∃ n, fuel = n + 1 := ⟨fuel - 1, by omega⟩
    have hFlat : (flatName (label :: labels)).length =
        label.length + 1 + (flatName labels).length := by
      rw [length_flatName, length_flatName, List.map_cons, List.sum_cons]
    have hSmall : UInt8.ofNat label.length &&& 0xc0 = 0 := by
      rw [and_c0_eq_zero_iff, hLabel.toNat_length]
      have := hLabel.2
      omega
    obtain ⟨nameBuf₁, hPush, hBuf₁, -⟩ :=
      pushLabel_ok (show nameLen + label.length + 1 ≤ nameBuf.length by omega)
    obtain ⟨nameBuf', hRest⟩ := ih (fun l hl => hOk l (List.mem_cons_of_mem _ hl)) hTail.right
      (show raw.length < fuel + (pos + 1 + label.length) by omega) (hBuf₁.trans hBuf)
      (show nameLen + label.length + 1 + (flatName labels).length ≤ maxNameLen by omega)
    refine ⟨nameBuf', ?_⟩
    rw [parseLabels, get?_eq_ok.mpr hHead, ok_bind, if_neg (not_not.mpr hSmall),
      if_neg hLabel.length_ne_zero, hLabel.toNat_length, getRange?_of_stands hTail.left hLabel.1,
      ok_bind, if_neg (by omega), hPush, lift_ok, ok_bind, hRest, hFlat, encodeName,
      List.length_cons, List.length_append]
    rw [show pos + 1 + label.length + (encodeName labels).length =
      pos + (label.length + (encodeName labels).length + 1) by omega, Nat.add_assoc nameLen,
      Nat.add_assoc nameLen]

theorem finishName_length {nameLen nameLen' : Nat} {nameBuf' : Bytes}
    (h : finishName nameLen nameBuf = .ok (nameLen', nameBuf')) :
    nameBuf'.length = nameBuf.length := by
  rw [finishName] at h
  split at h
  · obtain ⟨written, hWrite, h⟩ := bind_eq_ok.mp h
    cases h
    rw [overwrite] at hWrite
    split at hWrite
    · rename_i hFits
      cases hWrite
      exact length_writeAt (by simpa using hFits.2.1)
    · cases hWrite
  · cases h
    rfl

/-! ## Requests -/

theorem and_80_eq_zero_iff (b : UInt8) : b &&& 0x80 = 0 ↔ b.toNat < 128 := by
  have key : ∀ v : BitVec 8, v &&& 0x80#8 = 0#8 ↔ v.toNat < 128 := by decide
  rw [← UInt8.toBitVec_inj]
  exact key b.toBitVec

/-- **A request of the grammar is accepted**, and every part of the result is read
off it. -/
theorem parseQuery_of_grammar (hBuf : nameBuf.length = maxNameLen) (h : Grammar raw labels) :
    ∃ (b0 b1 b2 b3 : UInt8) (opt : Option (Bool × Bool)) (nameBuf' : Bytes),
      raw[0]? = some b0 ∧ raw[1]? = some b1 ∧ raw[2]? = some b2 ∧ raw[3]? = some b3 ∧
      settle (findOpt raw (headerLen + (encodeName labels).length + 4)) = .ok opt ∧
      nameBuf'.take (dottedName labels).length = dottedName labels ∧
      parseQuery rr raw nameBuf = .ok (⟨ofBe [b0, b1], (b2 >>> 3) &&& 0x0f, b2 &&& 0x01 != 0,
        (dottedName labels).length,
        rr.recordType (ofBe (readAt raw (headerLen + (encodeName labels).length) 2)),
        rr.dnsClass (ofBe (readAt raw (headerLen + (encodeName labels).length + 2) 2)),
        ⟨headerLen, headerLen + (encodeName labels).length + 4⟩,
        (opt.getD (false, false)).1, (opt.getD (false, false)).2, b3 &&& 0x10 != 0⟩, nameBuf') := by
  have hHeader := h.header
  have hCodes := h.codes
  obtain ⟨b2, hb2, hQr⟩ := h.query
  have hByte : ∀ i < headerLen, ∃ b, raw[i]? = some b := fun i hi =>
    ⟨_, List.getElem?_eq_getElem (by omega)⟩
  obtain ⟨b0, hb0⟩ := hByte 0 (by decide)
  obtain ⟨b1, hb1⟩ := hByte 1 (by decide)
  obtain ⟨b3, hb3⟩ := hByte 3 (by decide)
  -- the loop walks over the name, and the name fits the buffer
  have hShort : 0 + (flatName labels).length ≤ maxNameLen := by
    rw [length_flatName, Nat.zero_add]
    exact h.short
  obtain ⟨nameBuf₁, hLoop⟩ := parseLabels_complete h.labels_ok h.name
    (show raw.length < (raw.length + 1) + headerLen by omega) hBuf hShort
  obtain ⟨labels', hOk', hDrop, hPos, hBuf₁, -, hLen', hTake⟩ :=
    parseLabels_sound hLoop hBuf (Nat.zero_le _)
  -- the loop has read a name that stands where this one does
  obtain rfl : labels' = labels := by
    obtain ⟨rest, hRest⟩ := h.name
    rw [← hRest] at hDrop
    exact (encodeName_append_inj hOk' h.labels_ok hDrop.symm).1
  obtain ⟨⟨nameLen', nameBuf'⟩, hFinish⟩ :=
    finishName_total hBuf₁ (0 + (flatName labels').length)
  obtain ⟨hName, hNameLen⟩ :=
    finishName_ok hBuf₁ (Nat.zero_add _) hShort (by simpa using hTake) hFinish
  -- the root gets its dot after the loop
  obtain rfl : nameLen' = (dottedName labels').length := by
    have hBuf' := (finishName_length hFinish).trans hBuf₁
    rw [← hName, List.length_take, hBuf']
    omega
  obtain ⟨opt, hOpt⟩ := (findOpt_noFault raw (headerLen + (encodeName labels').length + 4)).settles
  refine ⟨b0, b1, b2, b3, opt, nameBuf', hb0, hb1, hb2, hb3, hOpt, hName, ?_⟩
  have hOne : u16At raw 4 = .ok 1 := by
    rw [u16At_eq_readAt (by rw [headerLen] at hHeader; omega), h.one]
  rw [parseQuery, if_neg (by omega), index_eq_ok.mpr hb2, lift_ok, ok_bind,
    if_neg (not_not.mpr ((and_80_eq_zero_iff b2).mpr hQr)), hOne, ok_bind,
    if_neg (not_not.mpr rfl), hLoop, ok_bind]
  dsimp only
  rw [hFinish, lift_ok, ok_bind]
  dsimp only
  rw [u16At_eq_readAt (by omega), ok_bind, u16At_eq_readAt (by omega), ok_bind, if_neg (by omega),
    hOpt, lift_ok, ok_bind, index_eq_ok.mpr hb0, lift_ok, ok_bind, index_eq_ok.mpr hb1, lift_ok,
    ok_bind, index_eq_ok.mpr hb3, lift_ok, ok_bind]
  rfl

/-- **What is accepted is in the grammar.** -/
theorem grammar_of_parseQuery {nameBuf' : Bytes} {query : ParsedQuery RecordType DNSClass}
    (hBuf : nameBuf.length = maxNameLen)
    (h : parseQuery rr raw nameBuf = .ok (query, nameBuf')) : ∃ labels, Grammar raw labels := by
  obtain ⟨b0, b1, b2, b3, pos, nameLen, nameBuf₁, nameLen', qtype, qclass, opt, hHeader,
    ⟨-, -, hb2, -⟩, hQr, hQd, hLoop, -, -, -, hStop, -, -⟩ := parseQuery_eq_ok h
  obtain ⟨labels, hOk, hDrop, rfl, -, hShort, hLen, -⟩ :=
    parseLabels_sound hLoop hBuf (Nat.zero_le _)
  refine ⟨labels, hHeader, ⟨b2, hb2, (and_80_eq_zero_iff b2).mp hQr⟩, ofBe_readAt_of_u16At hQd, hOk,
    ?_, ⟨_, hDrop.symm⟩, hStop⟩
  rw [← length_flatName]
  omega

theorem parseQuery_accepts_iff (hBuf : nameBuf.length = maxNameLen) :
    (∃ query nameBuf', parseQuery rr raw nameBuf = .ok (query, nameBuf')) ↔
      ∃ labels, Grammar raw labels := by
  constructor
  · rintro ⟨query, nameBuf', h⟩
    exact grammar_of_parseQuery hBuf h
  · rintro ⟨labels, h⟩
    obtain ⟨b0, b1, b2, b3, opt, nameBuf', -, -, -, -, -, -, hParse⟩ :=
      parseQuery_of_grammar hBuf h
    exact ⟨_, nameBuf', hParse⟩

/-! ## What is decoded -/

/-- The parsed query and the name buffer say what stands in the request. The two
codes of the question are known by their conversions. -/
structure Decodes (rr : RrFrom RecordType DNSClass) (raw : Bytes) (labels : List Bytes)
    (query : ParsedQuery RecordType DNSClass) (nameBuf : Bytes) : Prop where
  name : nameBuf.take query.nameLen = dottedName labels
  nameLen : query.nameLen = (dottedName labels).length
  qtype : ∀ n < 2 ^ 16, rr.recordType n = query.qtype ↔
    n = ofBe (readAt raw (headerLen + (encodeName labels).length) 2)
  qclass : ∀ n < 2 ^ 16, rr.dnsClass n = query.qclass ↔
    n = ofBe (readAt raw (headerLen + (encodeName labels).length + 2) 2)
  question : query.question = ⟨headerLen, headerLen + (encodeName labels).length + 4⟩
  id : query.id = ofBe (readAt raw 0 2)
  /-- OPCODE and RD -/
  flags : ∃ b, raw[2]? = some b ∧ query.opcode.toNat = b.toNat / 8 % 16 ∧
    query.recursionDesired = b.toNat.testBit 0
  /-- CD -/
  checkingDisabled : ∃ b, raw[3]? = some b ∧ query.checkingDisabled = b.toNat.testBit 4

/-- The bits of the two flag bytes, as `parse_query` takes them out. -/
theorem flag_bits (b : UInt8) : ((b >>> 3) &&& 0x0f).toNat = b.toNat / 8 % 16 ∧
    (b &&& 0x01 != 0) = b.toNat.testBit 0 ∧ (b &&& 0x10 != 0) = b.toNat.testBit 4 := by
  have key : ∀ n < 256, ((UInt8.ofNat n >>> 3) &&& 0x0f).toNat = n / 8 % 16 ∧
      (UInt8.ofNat n &&& 0x01 != 0) = n.testBit 0 ∧
      (UInt8.ofNat n &&& 0x10 != 0) = n.testBit 4 := by decide +kernel
  have h := key b.toNat b.toNat_lt
  rwa [ofNat_toNat] at h

/-- **`parse_query` accepts its grammar and decodes it.** -/
theorem parseQuery_exact (hrr : rr.Injective) (raw : Bytes) (hBuf : nameBuf.length = maxNameLen) :
    ((∃ query nameBuf', parseQuery rr raw nameBuf = .ok (query, nameBuf')) ↔
      ∃ labels, Grammar raw labels) ∧
    ((¬ ∃ labels, Grammar raw labels) → parseQuery rr raw nameBuf = .error .none) ∧
    ∀ labels query nameBuf', Grammar raw labels →
      parseQuery rr raw nameBuf = .ok (query, nameBuf') → Decodes rr raw labels query nameBuf' := by
  refine ⟨parseQuery_accepts_iff hBuf, ?_, ?_⟩
  · intro hNot
    cases hParse : parseQuery rr raw nameBuf with
    | ok result => exact absurd (grammar_of_parseQuery hBuf hParse) hNot
    | error e =>
      cases e with
      | none => rfl
      | fault f => exact absurd hParse (parseQuery_noFault rr raw hBuf f)
  · intro labels query nameBuf' h hParse
    have hCodes := h.codes
    obtain ⟨b0, b1, b2, b3, opt, nameBuf₁, hb0, hb1, hb2, hb3, -, hName, hParse'⟩ :=
      @parseQuery_of_grammar _ _ rr _ _ _ hBuf h
    rw [hParse] at hParse'
    cases hParse'
    have hType := ofBe_readAt_lt
      (show headerLen + (encodeName labels).length + 2 ≤ raw.length by omega)
    have hClass := ofBe_readAt_lt
      (show headerLen + (encodeName labels).length + 2 + 2 ≤ raw.length by omega)
    have hId : readAt raw 0 2 = [b0, b1] := readAt_two hb0 hb1
    exact ⟨hName, rfl, fun n hn => ⟨hrr.recordType n _ hn hType, fun h => h ▸ rfl⟩,
      fun n hn => ⟨hrr.dnsClass n _ hn hClass, fun h => h ▸ rfl⟩, rfl, congrArg ofBe hId.symm,
      ⟨b2, hb2, (flag_bits b2).1, (flag_bits b2).2.1⟩, ⟨b3, hb3, (flag_bits b3).2.2⟩⟩

/-- The grammar has requests: the one-label query for `a\.b`. -/
theorem parseQuery_exact_escapedDot : ∃ query nameBuf',
    parseQuery plainRr escapedDotQuery emptyNameBuf = .ok (query, nameBuf') ∧
      Decodes plainRr escapedDotQuery [[0x61, 0x2e, 0x62]] query nameBuf' := by
  have hGrammar : Grammar escapedDotQuery [[0x61, 0x2e, 0x62]] :=
    ⟨by decide, ⟨1, rfl, by decide⟩, by decide, by simp [LabelOk], by decide,
      ⟨[0, 1, 0, 1], rfl⟩, by decide⟩
  obtain ⟨hAccepts, -, hDecodes⟩ :=
    parseQuery_exact plainRr_injective escapedDotQuery length_emptyNameBuf
  obtain ⟨query, nameBuf', hParse⟩ := hAccepts.mpr ⟨_, hGrammar⟩
  exact ⟨query, nameBuf', hParse, hDecodes _ _ _ hGrammar hParse⟩

end DnsRs.Wire
