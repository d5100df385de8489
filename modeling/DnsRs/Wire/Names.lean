import DnsRs.Wire.Model

/-!
# Names and questions on the wire

What the label loop of `parse_query` and the header reads around it decode.
`encodeName` and `encodeQuestion` are the RFC 1035 encodings of a label
sequence and of a question; they are stated here independently of the
parser. The encoding of a name is prefix-free (`encodeName_append_inj`), so
the bytes of a question determine it.

Main results:

* `parseLabels_sound` — the loop stops past an encoded name, and the buffer
  holds its labels, lowercased, each followed by a dot.
* `parseQuery_sound` — an accepted request carries an encoded question at
  offset 12, and every field of the result is read off the request.
-/

namespace DnsRs.Wire

open Lib

variable {RecordType DNSClass : Type}

/-! ## Encodings -/

/-- A label the wire format can carry uncompressed. -/
def LabelOk (label : Bytes) : Prop := 1 ≤ label.length ∧ label.length ≤ 63

/-- A label sequence on the wire: length-prefixed labels and the root. -/
def encodeName : List Bytes → Bytes
  | [] => [0]
  | label :: labels => UInt8.ofNat label.length :: (label ++ encodeName labels)

structure Question where
  labels : List Bytes
  qtype : Nat
  qclass : Nat
  deriving DecidableEq, Repr

structure Question.Wf (q : Question) : Prop where
  labels : ∀ l ∈ q.labels, LabelOk l
  qtype : q.qtype < 2 ^ 16
  qclass : q.qclass < 2 ^ 16

def encodeQuestion (q : Question) : Bytes :=
  encodeName q.labels ++ be16 q.qtype ++ be16 q.qclass

/-- The lowercased labels, each followed by a dot. -/
def flatName (labels : List Bytes) : Bytes :=
  labels.flatMap fun l => l.map asciiLower ++ [dot]

/-- The canonical name of a label sequence; the root is a single dot. -/
def dottedName (labels : List Bytes) : Bytes :=
  if labels = [] then [dot] else flatName labels

theorem flatName_cons (l : Bytes) (labels : List Bytes) :
    flatName (l :: labels) = l.map asciiLower ++ [dot] ++ flatName labels := by
  simp [flatName]

/-! ## Byte arithmetic -/

theorem toNat_ofNat_of_lt {n : Nat} (h : n < 256) : (UInt8.ofNat n).toNat = n := by
  rw [UInt8.toNat_ofNat']
  exact Nat.mod_eq_of_lt h

theorem ofNat_toNat (b : UInt8) : UInt8.ofNat b.toNat = b := by
  simp

/-- The two top bits of a length byte are clear exactly for lengths below 64. -/
theorem and_c0_eq_zero_iff (b : UInt8) : b &&& 0xc0 = 0 ↔ b.toNat < 64 := by
  have key : ∀ v : BitVec 8, v &&& 0xc0#8 = 0#8 ↔ v.toNat < 64 := by decide
  rw [← UInt8.toBitVec_inj]
  exact key b.toBitVec

theorem ofBe_pair (hi lo : UInt8) : ofBe [hi, lo] = hi.toNat * 256 + lo.toNat := by
  simp [ofBe]

theorem ofBe_pair_lt (hi lo : UInt8) : ofBe [hi, lo] < 2 ^ 16 := by
  rw [ofBe_pair]
  have h1 := hi.toNat_lt
  have h2 := lo.toNat_lt
  omega

/-- A big-endian number is below what its bytes can hold. -/
theorem ofBe_lt (bytes : Bytes) : ofBe bytes < 256 ^ bytes.length := by
  have key : ∀ (bytes : Bytes) (acc : Nat),
      bytes.foldl (fun acc b => acc * 256 + b.toNat) acc < (acc + 1) * 256 ^ bytes.length := by
    intro bytes
    induction bytes with
    | nil => exact fun acc => by simp
    | cons b bytes ih =>
      intro acc
      have hByte := b.toNat_lt
      calc bytes.foldl (fun acc b => acc * 256 + b.toNat) (acc * 256 + b.toNat)
          < (acc * 256 + b.toNat + 1) * 256 ^ bytes.length := ih _
        _ ≤ ((acc + 1) * 256) * 256 ^ bytes.length := Nat.mul_le_mul_right _ (by omega)
        _ = (acc + 1) * 256 ^ (b :: bytes).length := by
          rw [List.length_cons, Nat.pow_succ, Nat.mul_assoc, Nat.mul_comm 256]
  simpa [ofBe] using key bytes 0

theorem be16_ofBe (hi lo : UInt8) : be16 (ofBe [hi, lo]) = [hi, lo] := by
  have h1 := hi.toNat_lt
  have h2 := lo.toNat_lt
  have hdiv : (hi.toNat * 256 + lo.toNat) / 256 = hi.toNat := by omega
  have hlow : UInt8.ofNat (hi.toNat * 256 + lo.toNat) = lo := by
    apply UInt8.toNat_inj.mp
    rw [UInt8.toNat_ofNat']
    omega
  rw [be16, ofBe_pair, hdiv, hlow, ofNat_toNat]

theorem ofBe_be16 {n : Nat} (h : n < 2 ^ 16) : ofBe (be16 n) = n := by
  rw [be16, ofBe_pair, UInt8.toNat_ofNat', UInt8.toNat_ofNat']
  omega

theorem be16_inj {a b : Nat} (ha : a < 2 ^ 16) (hb : b < 2 ^ 16) (h : be16 a = be16 b) :
    a = b := by
  rw [← ofBe_be16 ha, ← ofBe_be16 hb, h]

theorem length_be16 (n : Nat) : (be16 n).length = 2 := rfl

/-! ## Reads that succeed -/

theorem get?_eq_ok {raw : Bytes} {pos : Nat} {b : UInt8} :
    get? raw pos = .ok b ↔ raw[pos]? = some b := by
  unfold get?
  cases raw[pos]? <;> simp

theorem index_eq_ok {raw : Bytes} {pos : Nat} {b : UInt8} :
    index raw pos = .ok b ↔ raw[pos]? = some b := by
  unfold index
  cases raw[pos]? <;> simp

theorem getRange?_eq_ok {raw : Bytes} {start stop : Nat} {r : Bytes} :
    getRange? raw start stop = .ok r ↔
      (start ≤ stop ∧ stop ≤ raw.length) ∧ readAt raw start (stop - start) = r := by
  unfold getRange?
  split
  · rename_i h
    simp [h]
  · rename_i h
    simp [h]

/-- A successful 16-bit read: the two bytes at the offset. -/
theorem u16At_eq_ok {raw : Bytes} {pos n : Nat} :
    u16At raw pos = .ok n ↔
      ∃ hi lo, raw[pos]? = some hi ∧ raw[pos + 1]? = some lo ∧ n = ofBe [hi, lo] := by
  unfold u16At
  rw [bind_eq_ok]
  constructor
  · rintro ⟨hi, hHi, h⟩
    obtain ⟨lo, hLo, h⟩ := bind_eq_ok.mp h
    cases h
    exact ⟨hi, lo, get?_eq_ok.mp hHi, get?_eq_ok.mp hLo, rfl⟩
  · rintro ⟨hi, lo, hHi, hLo, rfl⟩
    exact ⟨hi, get?_eq_ok.mpr hHi, bind_eq_ok.mpr ⟨lo, get?_eq_ok.mpr hLo, rfl⟩⟩

theorem u16At_lt {raw : Bytes} {pos n : Nat} (h : u16At raw pos = .ok n) : n < 2 ^ 16 := by
  obtain ⟨hi, lo, -, -, rfl⟩ := u16At_eq_ok.mp h
  exact ofBe_pair_lt hi lo

/-- The suffix of the message a 16-bit read looks at. -/
theorem drop_of_u16At {raw : Bytes} {pos n : Nat} (h : u16At raw pos = .ok n) :
    raw.drop pos = be16 n ++ raw.drop (pos + 2) := by
  obtain ⟨hi, lo, hHi, hLo, rfl⟩ := u16At_eq_ok.mp h
  obtain ⟨hLt, hEq⟩ := List.getElem?_eq_some_iff.mp hHi
  obtain ⟨hLt', hEq'⟩ := List.getElem?_eq_some_iff.mp hLo
  rw [be16_ofBe, List.drop_eq_getElem_cons hLt, List.drop_eq_getElem_cons hLt', hEq, hEq']
  rfl

/-- Two bytes that are there are read. -/
theorem u16At_eq_readAt {raw : Bytes} {pos : Nat} (h : pos + 2 ≤ raw.length) :
    u16At raw pos = .ok (ofBe (readAt raw pos 2)) := by
  have hHi : raw[pos]? = some raw[pos] := List.getElem?_eq_getElem (by omega)
  have hLo : raw[pos + 1]? = some raw[pos + 1] := List.getElem?_eq_getElem (by omega)
  refine u16At_eq_ok.mpr ⟨_, _, hHi, hLo, ?_⟩
  rw [readAt_two hHi hLo]

theorem ofBe_readAt_of_u16At {raw : Bytes} {pos n : Nat} (h : u16At raw pos = .ok n) :
    ofBe (readAt raw pos 2) = n := by
  obtain ⟨hi, lo, hHi, hLo, rfl⟩ := u16At_eq_ok.mp h
  rw [readAt_two hHi hLo]

theorem ofBe_readAt_lt {raw : Bytes} {pos : Nat} (h : pos + 2 ≤ raw.length) :
    ofBe (readAt raw pos 2) < 2 ^ 16 :=
  u16At_lt (u16At_eq_readAt h)

/-! ## The label loop -/

/-- Storing a label that fits: the buffer grows by the lowered label and a dot. -/
theorem pushLabel_ok {nameBuf label : Bytes} {nameLen : Nat}
    (h : nameLen + label.length + 1 ≤ nameBuf.length) :
    ∃ nameBuf', pushLabel nameBuf nameLen label = .ok nameBuf' ∧
      nameBuf'.length = nameBuf.length ∧
      nameBuf'.take (nameLen + label.length + 1) =
        nameBuf.take nameLen ++ (label.map asciiLower ++ [dot]) := by
  have h1 : nameLen + label.length ≤ nameBuf.length := by omega
  have hLen1 := length_writeAt h1
  have hRead := readAt_writeAt_self h1
  -- the source copies the label and lowers the copy, then appends the dot
  set copied := writeAt nameBuf nameLen label with hcopied
  have h2 : nameLen + (label.map asciiLower).length ≤ copied.length := by
    rw [List.length_map, hLen1]
    exact h1
  set lowered := writeAt copied nameLen (label.map asciiLower) with hlowered
  have hLen2 : lowered.length = nameBuf.length := by
    rw [hlowered, length_writeAt h2, hLen1]
  have h3 : nameLen + label.length + [dot].length ≤ lowered.length := by
    rw [hLen2]
    exact h
  refine ⟨writeAt lowered (nameLen + label.length) [dot], ?_, ?_, ?_⟩
  · rw [pushLabel, overwrite_eq_ok h1, ok_bind, ← hcopied, hRead]
    have hLow : overwrite copied nameLen (nameLen + label.length) (label.map asciiLower) =
        .ok lowered := by
      have := overwrite_eq_ok h2
      rwa [List.length_map] at this
    rw [hLow, ok_bind]
    exact overwrite_eq_ok h3
  · rw [length_writeAt h3, hLen2]
  · have hTake := take_writeAt h3
    rw [show nameLen + label.length + 1 = nameLen + label.length + [dot].length from rfl, hTake]
    have hPre := take_writeAt h2
    rw [List.length_map, ← hlowered] at hPre
    rw [hPre, hcopied, take_writeAt_of_le h1 le_rfl, List.append_assoc]

/-- What one pass over an encoded label leaves of the message. -/
theorem drop_label {raw : Bytes} {pos : Nat} {b : UInt8} (hb : raw[pos]? = some b)
    (hRange : pos + 1 + b.toNat ≤ raw.length) :
    raw.drop pos =
      UInt8.ofNat (readAt raw (pos + 1) b.toNat).length ::
        (readAt raw (pos + 1) b.toNat ++ raw.drop (pos + 1 + b.toNat)) := by
  obtain ⟨hLt, hEq⟩ := List.getElem?_eq_some_iff.mp hb
  have hTail : raw.drop (pos + 1 + b.toNat) = (raw.drop (pos + 1)).drop b.toNat := by
    rw [List.drop_drop]
  rw [length_readAt hRange, ofNat_toNat, List.drop_eq_getElem_cons hLt, hEq, readAt, hTail,
    List.take_append_drop]

/-- **The label loop.** A run that returns has walked over an encoded name;
the buffer holds its labels in lower case, each followed by a dot. -/
theorem parseLabels_sound {raw : Bytes} : ∀ {fuel pos nameLen : Nat} {nameBuf : Bytes}
    {pos' nameLen' : Nat} {nameBuf' : Bytes},
    parseLabels raw fuel pos nameLen nameBuf = .ok (pos', nameLen', nameBuf') →
    nameBuf.length = maxNameLen → nameLen ≤ maxNameLen →
    ∃ labels : List Bytes, (∀ l ∈ labels, LabelOk l) ∧
      raw.drop pos = encodeName labels ++ raw.drop pos' ∧
      pos' = pos + (encodeName labels).length ∧
      nameBuf'.length = maxNameLen ∧ nameLen' ≤ maxNameLen ∧
      nameLen' = nameLen + (flatName labels).length ∧
      nameBuf'.take nameLen' = nameBuf.take nameLen ++ flatName labels := by
  intro fuel
  induction fuel with
  | zero =>
    intro pos nameLen nameBuf pos' nameLen' nameBuf' h
    cases h
  | succ fuel ih =>
    intro pos nameLen nameBuf pos' nameLen' nameBuf' h hBuf hName
    rw [parseLabels] at h
    obtain ⟨b, hb, h⟩ := bind_eq_ok.mp h
    have hb := get?_eq_ok.mp hb
    obtain ⟨hLt, hEq⟩ := List.getElem?_eq_some_iff.mp hb
    by_cases hTop : b &&& 0xc0 = 0
    · rw [if_neg (not_not.mpr hTop)] at h
      by_cases hZero : b = 0
      · -- the root label ends the name
        subst hZero
        rw [if_pos rfl] at h
        cases h
        refine ⟨[], by simp, ?_, rfl, hBuf, hName, rfl, by simp [flatName]⟩
        rw [List.drop_eq_getElem_cons hLt, hEq]
        rfl
      · rw [if_neg hZero] at h
        obtain ⟨label, hLabel, h⟩ := bind_eq_ok.mp h
        obtain ⟨⟨-, hRange⟩, hLabel⟩ := getRange?_eq_ok.mp hLabel
        rw [Nat.add_sub_cancel_left] at hLabel
        have hLabelLen : label.length = b.toNat := by
          rw [← hLabel]
          exact length_readAt hRange
        by_cases hFit : nameLen + b.toNat + 1 > maxNameLen
        · rw [if_pos hFit] at h
          cases h
        · rw [if_neg hFit] at h
          obtain ⟨nameBuf₁, hPush, h⟩ := bind_eq_ok.mp h
          have hPush := lift_eq_ok.mp hPush
          have hRoom : nameLen + label.length + 1 ≤ nameBuf.length := by
            rw [hBuf, hLabelLen]
            omega
          obtain ⟨nameBuf₂, hPush', hLen₂, hTake₂⟩ := pushLabel_ok hRoom
          rw [hPush] at hPush'
          cases hPush'
          obtain ⟨labels, hOk, hDrop, hPos, hLen', hName', hNameEq, hTake'⟩ :=
            ih h (hLen₂.trans hBuf) (by omega)
          have hPositive : b.toNat ≠ 0 := fun h0 => hZero (UInt8.toNat_inj.mp h0)
          have hSmall : b.toNat < 64 := (and_c0_eq_zero_iff b).mp hTop
          refine ⟨label :: labels, ?_, ?_, ?_, hLen', hName', ?_, ?_⟩
          · intro l hl
            rcases List.mem_cons.mp hl with rfl | hl
            · exact ⟨by omega, by omega⟩
            · exact hOk l hl
          · -- the bytes: this label, then the ones the rest of the loop has read
            have hHead := drop_label hb hRange
            rw [hLabel] at hHead
            rw [hHead, hDrop]
            simp [encodeName]
          · rw [hPos, encodeName]
            simp only [List.length_cons, List.length_append]
            omega
          · rw [hNameEq, flatName_cons]
            simp only [List.length_append, List.length_map, List.length_singleton]
            omega
          · -- the name: what was there, this label and its dot, then the others
            rw [hTake', ← hLabelLen, hTake₂, flatName_cons, List.append_assoc]
    · rw [if_pos hTop] at h
      cases h

/-! ## The encoding is prefix-free -/

/-- The length of a label fits its length byte. -/
theorem LabelOk.toNat_length {l : Bytes} (h : LabelOk l) :
    (UInt8.ofNat l.length).toNat = l.length := by
  have := h.2
  exact toNat_ofNat_of_lt (by omega)

/-- Its length byte is not the one that ends a name. -/
theorem LabelOk.length_ne_zero {l : Bytes} (h : LabelOk l) : UInt8.ofNat l.length ≠ 0 := by
  intro hZero
  have hLen := h.toNat_length
  rw [hZero] at hLen
  have hOne := h.1
  have : (0 : UInt8).toNat = 0 := rfl
  omega

theorem encodeName_append_inj {ls ms : List Bytes} {r t : Bytes}
    (hl : ∀ l ∈ ls, LabelOk l) (hm : ∀ l ∈ ms, LabelOk l)
    (h : encodeName ls ++ r = encodeName ms ++ t) : ls = ms ∧ r = t := by
  induction ls generalizing ms with
  | nil =>
    cases ms with
    | nil => exact ⟨rfl, by simpa [encodeName] using h⟩
    | cons m ms =>
      simp only [encodeName, List.cons_append, List.cons.injEq] at h
      exact absurd h.1.symm (hm m (List.mem_cons_self ..)).length_ne_zero
  | cons l ls ih =>
    cases ms with
    | nil =>
      simp only [encodeName, List.cons_append, List.cons.injEq] at h
      exact absurd h.1 (hl l (List.mem_cons_self ..)).length_ne_zero
    | cons m ms =>
      have hlOk := hl l (List.mem_cons_self ..)
      have hmOk := hm m (List.mem_cons_self ..)
      simp only [encodeName, List.cons_append, List.cons.injEq, List.append_assoc] at h
      -- the length bytes agree, so the labels end at the same place
      have hSame : l.length = m.length := by
        rw [← hlOk.toNat_length, ← hmOk.toNat_length, h.1]
      obtain ⟨rfl, hRest⟩ := List.append_inj h.2 hSame
      obtain ⟨rfl, rfl⟩ := ih (fun x hx => hl x (List.mem_cons_of_mem _ hx))
        (fun x hx => hm x (List.mem_cons_of_mem _ hx)) hRest
      exact ⟨rfl, rfl⟩

/-- The bytes of a question determine it. -/
theorem encodeQuestion_inj {p q : Question} (hp : p.Wf) (hq : q.Wf)
    (h : encodeQuestion p = encodeQuestion q) : p = q := by
  unfold encodeQuestion at h
  rw [List.append_assoc, List.append_assoc] at h
  obtain ⟨hLabels, hRest⟩ := encodeName_append_inj hp.labels hq.labels h
  obtain ⟨hType, hClass⟩ := List.append_inj hRest rfl
  obtain ⟨pl, pt, pc⟩ := p
  obtain ⟨ql, qt, qc⟩ := q
  simp only [Question.mk.injEq]
  exact ⟨hLabels, be16_inj hp.qtype hq.qtype hType, be16_inj hp.qclass hq.qclass hClass⟩

/-! ## Accepted requests -/

/-- What a request accepted by `parse_query` carries, beside its question. -/
structure Accepted (rr : RrFrom RecordType DNSClass) (raw : Bytes)
    (query : ParsedQuery RecordType DNSClass) (name : Bytes) (q : Question) : Prop where
  wf : q.Wf
  header : headerLen ≤ raw.length
  query_bit : ∃ b, raw[2]? = some b ∧ b &&& 0x80 = 0
  qdcount : u16At raw 4 = .ok 1
  bytes : raw.drop headerLen = encodeQuestion q ++ raw.drop query.question.stop
  span : query.question = ⟨headerLen, headerLen + (encodeQuestion q).length⟩
  inside : query.question.stop ≤ raw.length
  name_eq : name = dottedName q.labels
  short : name.length ≤ maxNameLen
  qtype : query.qtype = rr.recordType q.qtype
  qclass : query.qclass = rr.dnsClass q.qclass

theorem length_emptyNameBuf : emptyNameBuf.length = maxNameLen := by
  rw [emptyNameBuf, List.length_replicate]

theorem length_flatName_pos {labels : List Bytes} (h : labels ≠ []) :
    0 < (flatName labels).length := by
  cases labels with
  | nil => exact absurd rfl h
  | cons l labels =>
    rw [flatName_cons]
    simp only [List.length_append, List.length_singleton]
    omega

/-- The name buffer and length after the root has been given its dot. -/
theorem finishName_ok {nameBuf nameBuf' : Bytes} {nameLen nameLen' : Nat} {labels : List Bytes}
    (hBuf : nameBuf.length = maxNameLen) (hLen : nameLen = (flatName labels).length)
    (hName : nameLen ≤ maxNameLen) (hTake : nameBuf.take nameLen = flatName labels)
    (h : finishName nameLen nameBuf = .ok (nameLen', nameBuf')) :
    nameBuf'.take nameLen' = dottedName labels ∧ nameLen' ≤ maxNameLen := by
  rw [finishName] at h
  -- the root is the only name the loop leaves empty
  by_cases hRoot : labels = []
  · subst hRoot
    have hZero : nameLen = 0 := by simpa [flatName] using hLen
    have hFits : 0 + [dot].length ≤ nameBuf.length := by
      rw [hBuf]
      decide
    have hOk := overwrite_eq_ok hFits
    rw [show (0 : Nat) + [dot].length = 1 from rfl] at hOk
    rw [if_pos hZero, hOk, ok_bind] at h
    cases h
    have := take_writeAt hFits
    exact ⟨by simpa [dottedName] using this, by decide⟩
  · have hPos := length_flatName_pos hRoot
    rw [if_neg (by omega)] at h
    cases h
    rw [hTake, dottedName, if_neg hRoot]
    exact ⟨rfl, hName⟩

/-- What `parse_query` has read when it accepts, in the order of the source. -/
theorem parseQuery_eq_ok {rr : RrFrom RecordType DNSClass} {raw nameBuf nameBuf' : Bytes}
    {query : ParsedQuery RecordType DNSClass}
    (h : parseQuery rr raw nameBuf = .ok (query, nameBuf')) :
    ∃ (b0 b1 b2 b3 : UInt8) (pos nameLen : Nat) (nameBuf₁ : Bytes) (nameLen' qtype qclass : Nat)
        (opt : Option (Bool × Bool)),
      headerLen ≤ raw.length ∧
      (raw[0]? = some b0 ∧ raw[1]? = some b1 ∧ raw[2]? = some b2 ∧ raw[3]? = some b3) ∧
      b2 &&& 0x80 = 0 ∧ u16At raw 4 = .ok 1 ∧
      parseLabels raw (raw.length + 1) headerLen 0 nameBuf = .ok (pos, nameLen, nameBuf₁) ∧
      finishName nameLen nameBuf₁ = .ok (nameLen', nameBuf') ∧
      u16At raw pos = .ok qtype ∧ u16At raw (pos + 2) = .ok qclass ∧ pos + 4 ≤ raw.length ∧
      settle (findOpt raw (pos + 4)) = .ok opt ∧
      query = ⟨ofBe [b0, b1], (b2 >>> 3) &&& 0x0f, b2 &&& 0x01 != 0, nameLen',
        rr.recordType qtype, rr.dnsClass qclass, ⟨headerLen, pos + 4⟩,
        (opt.getD (false, false)).1, (opt.getD (false, false)).2, b3 &&& 0x10 != 0⟩ := by
  rw [parseQuery] at h
  by_cases hHeader : raw.length < headerLen
  · rw [if_pos hHeader] at h
    cases h
  rw [if_neg hHeader] at h
  obtain ⟨b2, hb2, h⟩ := bind_eq_ok.mp h
  by_cases hQr : b2 &&& 0x80 = 0
  swap
  · rw [if_pos hQr] at h
    cases h
  rw [if_neg (not_not.mpr hQr)] at h
  obtain ⟨qd, hQd, h⟩ := bind_eq_ok.mp h
  by_cases hOne : qd = 1
  swap
  · rw [if_pos hOne] at h
    cases h
  subst hOne
  rw [if_neg (not_not.mpr rfl)] at h
  obtain ⟨⟨pos, nameLen, nameBuf₁⟩, hLoop, h⟩ := bind_eq_ok.mp h
  obtain ⟨⟨nameLen', nameBuf₂⟩, hFinish, h⟩ := bind_eq_ok.mp h
  obtain ⟨qtype, hType, h⟩ := bind_eq_ok.mp h
  obtain ⟨qclass, hClass, h⟩ := bind_eq_ok.mp h
  by_cases hStop : pos + 4 > raw.length
  · rw [if_pos hStop] at h
    cases h
  rw [if_neg hStop] at h
  obtain ⟨opt, hOpt, h⟩ := bind_eq_ok.mp h
  obtain ⟨b0, hb0, h⟩ := bind_eq_ok.mp h
  obtain ⟨b1, hb1, h⟩ := bind_eq_ok.mp h
  obtain ⟨b3, hb3, h⟩ := bind_eq_ok.mp h
  cases h
  have hIndex : ∀ {pos : Nat} {b : UInt8},
      (liftM (index raw pos) : Except Exit UInt8) = .ok b → raw[pos]? = some b :=
    fun h => index_eq_ok.mp (lift_eq_ok.mp h)
  exact ⟨b0, b1, b2, b3, pos, nameLen, nameBuf₁, nameLen', qtype, qclass, opt, by omega,
    ⟨hIndex hb0, hIndex hb1, hIndex hb2, hIndex hb3⟩, hQr, hQd, hLoop, lift_eq_ok.mp hFinish,
    hType, hClass, by omega, lift_eq_ok.mp hOpt, rfl⟩

/-- **`parse_query` is sound.** An accepted request holds an encoded question
right after its header, and the result is read off that question. -/
theorem parseQuery_sound {rr : RrFrom RecordType DNSClass} {raw nameBuf nameBuf' : Bytes}
    {query : ParsedQuery RecordType DNSClass} (hBuf : nameBuf.length = maxNameLen)
    (h : parseQuery rr raw nameBuf = .ok (query, nameBuf')) :
    ∃ q : Question, Accepted rr raw query (nameBuf'.take query.nameLen) q := by
  obtain ⟨b0, b1, b2, b3, pos, nameLen, nameBuf₁, nameLen', qtype, qclass, opt, hHeader,
    ⟨-, -, hb2, -⟩, hQr, hQd, hLoop, hFinish, hType, hClass, hStop, -, rfl⟩ := parseQuery_eq_ok h
  -- what the loop has read is the name of the question
  obtain ⟨labels, hOk, hDrop, hPos, hLen₁, hName, hNameEq, hTake⟩ :=
    parseLabels_sound hLoop hBuf (Nat.zero_le _)
  have hNameEq : nameLen = (flatName labels).length := by omega
  obtain ⟨hDotted, hShort⟩ :=
    finishName_ok hLen₁ hNameEq hName (by simpa using hTake) hFinish
  have hQuestion : (encodeQuestion ⟨labels, qtype, qclass⟩).length =
      (encodeName labels).length + 4 := by
    simp [encodeQuestion, length_be16]
  refine ⟨⟨labels, qtype, qclass⟩, ⟨hOk, u16At_lt hType, u16At_lt hClass⟩, hHeader,
    ⟨b2, hb2, hQr⟩, hQd, ?_, ?_, hStop, hDotted, ?_, rfl, rfl⟩
  · -- the question, and then whatever follows it
    rw [hDrop, drop_of_u16At hType, drop_of_u16At hClass]
    simp [encodeQuestion]
  · simp only [Span.mk.injEq, true_and]
    omega
  · rw [List.length_take]
    exact le_trans (min_le_left _ _) hShort

end DnsRs.Wire
