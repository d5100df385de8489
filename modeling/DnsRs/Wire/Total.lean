import DnsRs.Wire.Aging
import DnsRs.Wire.Identity

/-!
# Requests are parsed without a panic

`parse_query` is run on whatever a client sent. Each label moves the offset
forward, and the length check before a label is copied leaves room for the dot
after it, so the loop ends and every write is inside the name buffer
(`parseQuery_noFault`). A request that is accepted holds its question, so a
response can be made from it (`synthesize_total`).

`wire_total` puts these beside what the other modules prove of responses: no
function of `dns/wire.rs` panics or loops, whatever the bytes are.
-/

namespace DnsRs.Wire

open Lib

variable {RecordType DNSClass : Type}

/-! ## The name -/

/-- As much fuel as there are bytes left is enough, and a name that is not too
long fits into the buffer. -/
theorem parseLabels_noFault {raw : Bytes} : ∀ {fuel pos nameLen : Nat} {nameBuf : Bytes},
    0 < fuel → raw.length < fuel + pos → nameBuf.length = maxNameLen →
    NoFault (parseLabels raw fuel pos nameLen nameBuf) := by
  intro fuel
  induction fuel with
  | zero => exact fun h => absurd h (by omega)
  | succ fuel ih =>
    intro pos nameLen nameBuf _ hFuel hBuf
    rw [parseLabels]
    refine (get?_noFault raw pos).bind fun labelLen hLen => ?_
    have hPos : pos < raw.length := (List.getElem?_eq_some_iff.mp (get?_eq_ok.mp hLen)).1
    split
    · exact .exit
    split
    · exact .ok _
    refine (getRange?_noFault raw _ _).bind fun label hLabel => ?_
    obtain ⟨⟨-, hStop⟩, hLabel⟩ := getRange?_eq_ok.mp hLabel
    rw [Nat.add_sub_cancel_left] at hLabel
    have hLabelLen : label.length = labelLen.toNat := by
      rw [← hLabel]
      exact length_readAt hStop
    split
    · exact .exit
    · -- the check has left room for the label and its dot
      have hRoom : nameLen + label.length + 1 ≤ nameBuf.length := by omega
      obtain ⟨nameBuf', hPush, hBuf', -⟩ := pushLabel_ok hRoom
      rw [hPush, lift_ok, ok_bind]
      exact ih (by omega) (by omega) (hBuf'.trans hBuf)

theorem finishName_total {nameBuf : Bytes} (hBuf : nameBuf.length = maxNameLen) (nameLen : Nat) :
    ∃ r, finishName nameLen nameBuf = .ok r := by
  rw [finishName]
  split
  · have hFits : 0 + [dot].length ≤ nameBuf.length := by
      rw [hBuf]
      decide
    exact ⟨_, congrArg (· >>= _) (overwrite_eq_ok hFits)⟩
  · exact ⟨_, rfl⟩

/-! ## The OPT record -/

theorem findOptRecords_noFault (raw : Bytes) (sectionIdx : Nat) :
    ∀ count pos, NoFault (findOptRecords raw sectionIdx count pos) := by
  intro count
  induction count with
  | zero => exact fun pos => .ok _
  | succ count ih =>
    intro pos
    rw [findOptRecords]
    refine (skipName_noFault raw pos).bind fun pos _ => ?_
    refine (u16At_noFault raw pos).bind fun rtype _ => ?_
    refine (u16At_noFault raw (pos + 8)).bind fun rdlen _ => ?_
    split
    · refine (get?_noFault raw (pos + 4)).bind fun b0 _ => ?_
      refine (get?_noFault raw (pos + 5)).bind fun b1 _ => ?_
      refine (get?_noFault raw (pos + 6)).bind fun b2 _ => ?_
      exact (get?_noFault raw (pos + 7)).bind fun b3 _ => .ok _
    · split
      · exact .exit
      · exact ih _

theorem findOptSections_noFault (raw : Bytes) :
    ∀ (counts : List Nat) (sectionIdx pos : Nat),
      NoFault (findOptSections raw sectionIdx counts pos) := by
  intro counts
  induction counts with
  | nil => exact fun sectionIdx pos => .ok _
  | cons count counts ih =>
    intro sectionIdx pos
    rw [findOptSections]
    refine (findOptRecords_noFault raw sectionIdx count pos).bind fun found _ => ?_
    cases found with
    | inl pos => exact ih (sectionIdx + 1) pos
    | inr found => exact .ok _

theorem findOpt_noFault (raw : Bytes) (pos : Nat) : NoFault (findOpt raw pos) := by
  unfold findOpt
  refine (u16At_noFault raw 6).bind fun answers _ => ?_
  refine (u16At_noFault raw 8).bind fun authorities _ => ?_
  refine (u16At_noFault raw 10).bind fun additionals _ => ?_
  exact findOptSections_noFault raw _ 0 pos

/-! ## Requests -/

theorem index_noFault {raw : Bytes} {pos : Nat} (h : pos < raw.length) :
    NoFault (liftM (index raw pos) : Except Exit UInt8) :=
  .lift (index_eq_ok.mpr (List.getElem?_eq_getElem h))

/-- **`parse_query` is total.** -/
theorem parseQuery_noFault (rr : RrFrom RecordType DNSClass) (raw : Bytes) {nameBuf : Bytes}
    (hBuf : nameBuf.length = maxNameLen) : NoFault (parseQuery rr raw nameBuf) := by
  rw [parseQuery]
  split
  · exact .exit
  rename_i hHeader
  have hIndex : ∀ pos < headerLen, NoFault (liftM (index raw pos) : Except Exit UInt8) :=
    fun pos hPos => index_noFault (by omega)
  refine (hIndex 2 (by decide)).bind fun b2 _ => ?_
  split
  · exact .exit
  refine (u16At_noFault raw 4).bind fun qdcount _ => ?_
  split
  · exact .exit
  refine (parseLabels_noFault (by omega) (by omega) hBuf).bind ?_
  rintro ⟨pos, nameLen, nameBuf⟩ hLabels
  -- the loop keeps the size of the buffer, which the root's dot needs
  obtain ⟨-, -, -, -, hBuf', -⟩ := parseLabels_sound hLabels hBuf (Nat.zero_le _)
  obtain ⟨named, hNamed⟩ := finishName_total hBuf' nameLen
  refine (NoFault.lift hNamed).bind fun _ _ => ?_
  refine (u16At_noFault raw pos).bind fun qtype _ => ?_
  refine (u16At_noFault raw (pos + 2)).bind fun qclass _ => ?_
  dsimp only
  split
  · exact .exit
  · -- an OPT record that cannot be read counts as none
    obtain ⟨opt, hOpt⟩ := (findOpt_noFault raw (pos + 4)).settles
    refine (NoFault.lift hOpt).bind fun _ _ => ?_
    refine (hIndex 0 (by decide)).bind fun b0 _ => ?_
    refine (hIndex 1 (by decide)).bind fun b1 _ => ?_
    exact (hIndex 3 (by decide)).bind fun b3 _ => .ok _

/-! ## Responses -/

/-- **A response can be made for every accepted request.** -/
theorem synthesize_total {rr : RrFrom RecordType DNSClass} {raw nameBuf nameBuf' : Bytes}
    {query : ParsedQuery RecordType DNSClass} (hBuf : nameBuf.length = maxNameLen)
    (h : parseQuery rr raw nameBuf = .ok (query, nameBuf')) (rcode : UInt8)
    (answer : Option (Ipv4Addr × Nat)) : ∃ wire, synthesize raw query rcode answer = .ok wire := by
  obtain ⟨q, hq⟩ := parseQuery_sound hBuf h
  have hStart : query.question.start ≤ query.question.stop := by
    rw [hq.span]
    exact Nat.le_add_right _ _
  unfold synthesize
  rw [slice_eq_ok hStart hq.inside, ok_bind]
  exact ⟨_, rfl⟩

/-- `bare_error` with every access of the source checked: `b[0]` and `b[1]`
index the two bytes that `raw.get(0..2)` has returned. -/
def bareErrorIndexed (raw : Bytes) (rcode : UInt8) : Except Fault Bytes := do
  let id ← match ← settle (getRange? raw 0 2) with
    | some b => do
      let b0 ← index b 0
      let b1 ← index b 1
      pure (ofBe [b0, b1])
    | none => pure 0
  let opcode : UInt8 := match ← settle (get? raw 2) with
    | some b => (b >>> 3) &&& 0x0f
    | none => 0
  return be16 id ++ [(0x80 : UInt8) ||| (opcode <<< 3), (0x80 : UInt8) ||| (rcode &&& 0x0f)] ++
    List.replicate 8 0

/-- `bare_error` is total: its two indices are inside the slice. -/
theorem bareErrorIndexed_eq (raw : Bytes) (rcode : UInt8) :
    bareErrorIndexed raw rcode = .ok (bareError raw rcode) := by
  -- only the first three bytes are ever looked at
  rcases raw with - | ⟨b0, - | ⟨b1, - | ⟨b2, rest⟩⟩⟩
  · rfl
  · rfl
  · rfl
  · have hRange : getRange? (b0 :: b1 :: b2 :: rest) 0 2 = .ok [b0, b1] := by
      rw [getRange?, if_pos ⟨by omega, by simp⟩]
      rfl
    rw [bareErrorIndexed, hRange, bareError, if_pos (by simp)]
    rfl

/-! ## All of it -/

/-- What it is for the functions of `dns/wire.rs` to return on the bytes
`raw`, with the caller's name buffer `nameBuf`. -/
structure WireTotal (rr : RrFrom RecordType DNSClass) (raw nameBuf : Bytes) : Prop where
  parse : NoFault (parseQuery rr raw nameBuf)
  opt : ∀ pos, NoFault (findOpt raw pos)
  skip : ∀ pos, NoFault (skipName raw pos)
  span : NoFault (questionSpan raw)
  key : NoFault (QuestionKey.fromWire raw)
  /-- The keys compared with are those made from some other message. -/
  compare : ∀ {query : Bytes} {key : QuestionKey}, QuestionKey.fromWire query = .ok key →
    ∃ matched, key.matches raw = .ok matched
  age : ∀ elapsedSecs forceZero, ∃ r, ageTtls raw elapsedSecs forceZero = .ok r
  id : ∀ id, ∃ wire, setId raw id = .ok wire
  bare : ∀ rcode, ∃ wire, bareErrorIndexed raw rcode = .ok wire
  respond : ∀ {query : ParsedQuery RecordType DNSClass} {nameBuf' : Bytes},
    parseQuery rr raw nameBuf = .ok (query, nameBuf') → ∀ rcode answer,
      ∃ wire, synthesize raw query rcode answer = .ok wire

/-- **The wire code is total.** On any bytes, with a name buffer of the size
the callers give it, every function terminates and stays inside the message,
the name buffer and the question buffer. -/
theorem wire_total (rr : RrFrom RecordType DNSClass) (raw : Bytes) {nameBuf : Bytes}
    (hBuf : nameBuf.length = maxNameLen) : WireTotal rr raw nameBuf where
  parse := parseQuery_noFault rr raw hBuf
  opt := findOpt_noFault raw
  skip := skipName_noFault raw
  span := questionSpan_noFault raw
  key := fromWire_noFault raw
  compare := by
    intro query key hKey
    obtain ⟨-, -, hLen, -⟩ := fromWire_question hKey
    exact matches_total hLen raw
  age := by
    intro elapsedSecs forceZero
    obtain ⟨ok, wire, hOk, -⟩ := ageTtls_total raw elapsedSecs forceZero
    exact ⟨(ok, wire), hOk⟩
  id := by
    intro id
    obtain ⟨wire, hOk, -⟩ := setId_total raw id
    exact ⟨wire, hOk⟩
  bare := fun rcode => ⟨_, bareErrorIndexed_eq raw rcode⟩
  respond := fun hParse rcode answer => synthesize_total hBuf hParse rcode answer

/-- A request cut off inside its second label, with the zeroed buffer of
`handle_query`. -/
theorem wire_total_truncated :
    emptyNameBuf.length = maxNameLen ∧
      WireTotal plainRr [0, 1, 1, 0, 0, 1, 0, 0, 0, 0, 0, 0, 1, 97, 63, 98] emptyNameBuf :=
  ⟨length_emptyNameBuf, wire_total _ _ length_emptyNameBuf⟩

end DnsRs.Wire
