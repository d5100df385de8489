import DnsRs.Wire.Grammar
import DnsRs.Wire.Question
import DnsRs.Wire.Walk
import DnsRs.Wire.Header

/-!
# Matching questions

`questions_match` compares two question sections byte by byte and ignores ASCII
case everywhere: in the labels, where it should, but in QTYPE and QCLASS as well.
A type whose code has a byte that is a letter is confused with the type of the
other case, and the letters are not far away: HTTPS is type 65, `A`, and matches
type 97, `a` (`https_matches_97`).

Where no byte of the two codes is a letter the comparison is the right one, and only
there (`matches_iff_same_question`): length bytes are never letters, so labels end
where they should, and a letter in a code can be written in the other case. What
stands behind a compression pointer is never reached: a query that was accepted has
none.
-/

namespace DnsRs.Wire

open Lib

variable {RecordType DNSClass : Type} {rr : RrFrom RecordType DNSClass}
  {raw wire nameBuf nameBuf' : Bytes} {query : ParsedQuery RecordType DNSClass}

/-! ## Messages with a question -/

/-- The message has one question, and it is this one, without compression. -/
structure Asks (wire : Bytes) (q : Question) : Prop where
  header : headerLen ≤ wire.length
  one : ofBe (readAt wire 4 2) = 1
  wf : q.Wf
  question : Stands wire headerLen (encodeQuestion q)

theorem length_encodeQuestion (q : Question) :
    (encodeQuestion q).length = (encodeName q.labels).length + 4 := by
  rw [encodeQuestion, List.length_append, List.length_append, length_be16, length_be16]

/-- The question of an accepted query. -/
theorem Accepted.asks {name : Bytes} {q : Question} (h : Accepted rr raw query name q) :
    Asks raw q :=
  ⟨h.header, ofBe_readAt_of_u16At h.qdcount, h.wf, ⟨_, h.bytes.symm⟩⟩

/-- The question of a request of the grammar. -/
theorem Grammar.asks {labels : List Bytes} (h : Grammar raw labels) :
    Asks raw ⟨labels, ofBe (readAt raw (headerLen + (encodeName labels).length) 2),
      ofBe (readAt raw (headerLen + (encodeName labels).length + 2) 2)⟩ := by
  have hCodes := h.codes
  have hCode : ∀ pos, pos + 2 ≤ raw.length → Stands raw pos (be16 (ofBe (readAt raw pos 2))) :=
    fun pos hPos => ⟨_, (drop_of_u16At (u16At_eq_readAt hPos)).symm⟩
  refine ⟨h.header, h.one, ⟨h.labels_ok, ofBe_readAt_lt (by omega), ofBe_readAt_lt (by omega)⟩, ?_⟩
  refine (h.name.append (hCode _ (by omega))).append ?_
  rw [List.length_append, length_be16, ← Nat.add_assoc]
  exact hCode _ (by omega)

/-- A message keeps its question under every ID. -/
theorem Asks.setId {q : Question} {id : Nat} {wire' : Bytes} (h : Asks wire q)
    (hSet : setId wire id = .ok wire') : Asks wire' q := by
  obtain ⟨wire'', hOk, hLen, hDrop, -⟩ := setId_total wire id
  cases hSet.symm.trans hOk
  have hAfter : ∀ n, wire'.drop (2 + n) = wire.drop (2 + n) := fun n => by
    rw [← List.drop_drop, hDrop, List.drop_drop]
  refine ⟨hLen ▸ h.header, ?_, h.wf, ?_⟩
  · rw [readAt, hAfter 2]
    exact h.one
  · rw [Stands, show headerLen = 2 + 10 from rfl, hAfter 10]
    exact h.question

/-- `question_span` finds it. -/
theorem Asks.questionSpan {q : Question} (h : Asks wire q) :
    questionSpan wire = .ok ⟨headerLen, headerLen + (encodeQuestion q).length⟩ := by
  have hHeader := h.header
  have hInside := h.question.le (by rw [length_encodeQuestion]; omega)
  rw [length_encodeQuestion] at hInside
  -- the name is skipped as one that ends with the root
  let name : WireName := ⟨q.labels, .root, h.wf.labels⟩
  have hEncode : name.encode = encodeName q.labels := (encodeName_eq q.labels).symm
  have hName : Stands wire headerLen name.encode := by
    rw [hEncode]
    have hQuestion := h.question
    rw [encodeQuestion, List.append_assoc] at hQuestion
    exact hQuestion.left
  refine questionSpan_eq_ok.mpr ⟨hHeader, ?_, headerLen + (encodeName q.labels).length, ?_, by omega,
    by rw [length_encodeQuestion, Nat.add_assoc]⟩
  · rw [u16At_eq_readAt (by rw [headerLen] at hHeader; omega), h.one]
  · rw [skipName_of_stands hName, hEncode]

theorem Asks.readAt_question {q : Question} (h : Asks wire q) :
    readAt wire headerLen (encodeQuestion q).length = encodeQuestion q :=
  h.question.readAt

/-- A key holds the question it was made from. -/
theorem Asks.key_question {q : Question} {key : QuestionKey} (h : Asks wire q)
    (hKey : QuestionKey.fromWire wire = .ok key) :
    key.len ≤ key.bytes.length ∧ key.question = encodeQuestion q := by
  obtain ⟨span, hSpan, hLen, hQuestion⟩ := fromWire_question hKey
  rw [h.questionSpan] at hSpan
  cases hSpan
  refine ⟨hLen, ?_⟩
  rw [hQuestion, Nat.add_sub_cancel_left, h.readAt_question]

/-- A key is made of every question that fits it. -/
theorem Asks.fromWire {q : Question} (h : Asks wire q) :
    (∃ key, QuestionKey.fromWire wire = .ok key) ↔ (encodeQuestion q).length ≤ maxQuestionLen := by
  have hInside := h.question.le (by rw [length_encodeQuestion]; omega)
  have hRange : getRange? wire headerLen (headerLen + (encodeQuestion q).length) =
      .ok (encodeQuestion q) :=
    getRange?_of_stands h.question (by rw [length_encodeQuestion]; omega)
  rw [QuestionKey.fromWire, h.questionSpan, ok_bind, hRange, ok_bind]
  split
  · rename_i hLong
    exact ⟨fun ⟨key, hKey⟩ => (by cases hKey), fun hShort => absurd hShort (by omega)⟩
  · rename_i hShort
    have hCopy := overwrite_eq_ok (question_fits hShort)
    rw [Nat.zero_add] at hCopy
    rw [hCopy, lift_ok, ok_bind]
    exact ⟨fun _ => by omega, fun _ => ⟨_, rfl⟩⟩

theorem matches_eq_true {key : QuestionKey} (hKey : key.len ≤ key.bytes.length) :
    key.matches wire = .ok true ↔ ∃ span, questionSpan wire = .ok span ∧
      questionsMatch (readAt wire span.start (span.stop - span.start)) key.question = true := by
  constructor
  · intro h
    rcases (questionSpan_noFault wire).settle with hNone | ⟨span, hSpan, hSome⟩
    · rw [QuestionKey.matches, hNone, ok_bind] at h
      cases h
    · refine ⟨span, hSpan, ?_⟩
      obtain ⟨hStart, hLt, hStop⟩ := questionSpan_bounds hSpan
      rw [QuestionKey.matches, hSome, ok_bind] at h
      dsimp only at h
      rw [slice_eq_ok (by omega) hStop, ok_bind, slice_eq_ok (Nat.zero_le _) hKey, ok_bind] at h
      exact Except.ok.inj h
  · rintro ⟨span, hSpan, hMatch⟩
    exact matches_eq_true_of_span hKey hSpan hMatch

/-! ## Case folding -/

/-- The comparison is that of the lowered sections. -/
theorem questionsMatch_iff_map {a b : Bytes} :
    questionsMatch a b = true ↔ a.map asciiLower = b.map asciiLower := by
  rw [questionsMatch_eq_true]
  constructor
  · rintro ⟨hLen, hAll⟩
    refine List.ext_getElem (by simpa using hLen) fun i hi hi' => ?_
    rw [List.getElem_map, List.getElem_map]
    rw [List.length_map] at hi hi'
    have hByte := hAll i _ _ (List.getElem?_eq_getElem hi) (List.getElem?_eq_getElem hi')
    rwa [eqIgnoreAsciiCase, beq_iff_eq] at hByte
  · intro h
    refine ⟨by simpa using congrArg List.length h, fun i x y hx hy => ?_⟩
    have hByte := congrArg (·[i]?) h
    simp only [List.getElem?_map, hx, hy, Option.map_some, Option.some.injEq] at hByte
    rw [eqIgnoreAsciiCase, hByte, beq_self_eq_true]

/-- `A` to `Z` and `a` to `z`. -/
def AsciiLetter (b : UInt8) : Prop := 65 ≤ b.toNat ∧ b.toNat ≤ 90 ∨ 97 ≤ b.toNat ∧ b.toNat ≤ 122

instance : DecidablePred AsciiLetter := fun b =>
  inferInstanceAs (Decidable (65 ≤ b.toNat ∧ b.toNat ≤ 90 ∨ 97 ≤ b.toNat ∧ b.toNat ≤ 122))

/-- Only letters are folded onto each other. -/
theorem eq_of_asciiLower_eq {a b : UInt8} (h : asciiLower a = asciiLower b) (hb : ¬ AsciiLetter b) :
    a = b := by
  have hNat := congrArg UInt8.toNat h
  rw [toNat_asciiLower, toNat_asciiLower] at hNat
  rw [AsciiLetter] at hb
  rw [← UInt8.toNat_inj]
  split at hNat <;> split at hNat <;> omega

theorem eq_of_map_asciiLower_eq {a b : Bytes} (h : a.map asciiLower = b.map asciiLower)
    (hb : ∀ x ∈ b, ¬ AsciiLetter x) : a = b := by
  induction b generalizing a with
  | nil => exact List.map_eq_nil_iff.mp h
  | cons y b ih =>
    cases a with
    | nil => cases h
    | cons x a =>
      rw [List.map_cons, List.map_cons, List.cons.injEq] at h
      rw [eq_of_asciiLower_eq h.1 (hb y List.mem_cons_self),
        ih h.2 fun z hz => hb z (List.mem_cons_of_mem _ hz)]

/-- The length of a label is no letter. -/
theorem LabelOk.not_letter {l : Bytes} (h : LabelOk l) : ¬ AsciiLetter (UInt8.ofNat l.length) := by
  have hLe := h.2
  rw [AsciiLetter, h.toNat_length]
  omega

theorem not_letter_zero : ¬ AsciiLetter 0 := by decide

/-- A byte that is no letter is its own lower case. -/
theorem asciiLower_of_not_letter {b : UInt8} (h : ¬ AsciiLetter b) : asciiLower b = b := by
  rw [AsciiLetter] at h
  rw [← UInt8.toNat_inj, toNat_asciiLower, if_neg (by omega)]

/-- The other letter that is folded onto the same one. -/
def otherCase (b : UInt8) : UInt8 := if AsciiLetter b then b ^^^ 0x20 else b

theorem asciiLower_otherCase (b : UInt8) : asciiLower (otherCase b) = asciiLower b := by
  have hAll : ∀ n < 256, asciiLower (otherCase (UInt8.ofNat n)) = asciiLower (UInt8.ofNat n) := by
    decide +kernel
  have := hAll b.toNat b.toNat_lt
  rwa [ofNat_toNat] at this

theorem otherCase_eq_self {b : UInt8} : otherCase b = b ↔ ¬ AsciiLetter b := by
  have hAll : ∀ n < 256, otherCase (UInt8.ofNat n) = UInt8.ofNat n ↔ ¬ AsciiLetter (UInt8.ofNat n) := by
    decide +kernel
  have := hAll b.toNat b.toNat_lt
  rwa [ofNat_toNat] at this

/-- **Folding a name folds its labels.** -/
theorem map_asciiLower_encodeName {labels : List Bytes} (hOk : ∀ l ∈ labels, LabelOk l) :
    (encodeName labels).map asciiLower = encodeName (labels.map (List.map asciiLower)) := by
  induction labels with
  | nil => rfl
  | cons label labels ih =>
    have hLabel := hOk label List.mem_cons_self
    rw [List.map_cons, encodeName, encodeName, List.map_cons, List.map_append, List.length_map,
      asciiLower_of_not_letter hLabel.not_letter,
      ih fun l hl => hOk l (List.mem_cons_of_mem _ hl)]

/-- Bytes that fold onto a name are a name, with labels that fold onto its labels. -/
theorem encodeName_of_map_eq {labels : List Bytes} (hOk : ∀ l ∈ labels, LabelOk l) :
    ∀ {bytes : Bytes}, bytes.map asciiLower = (encodeName labels).map asciiLower →
      ∃ labels', (∀ l ∈ labels', LabelOk l) ∧ bytes = encodeName labels' ∧
        labels'.map (List.map asciiLower) = labels.map (List.map asciiLower) := by
  induction labels with
  | nil =>
    intro bytes h
    refine ⟨[], fun l hl => absurd hl (by simp), ?_, rfl⟩
    refine eq_of_map_asciiLower_eq h fun x hx => ?_
    rw [encodeName, List.mem_singleton] at hx
    exact hx ▸ not_letter_zero
  | cons label labels ih =>
    intro bytes h
    have hLabel := hOk label List.mem_cons_self
    rw [encodeName, List.map_cons, List.map_append] at h
    -- a length byte folds onto itself only, so the first label ends where it should
    obtain ⟨x, rest, rfl, hx, hRest⟩ := List.map_eq_cons_iff.mp h
    obtain ⟨label', rest', rfl, hLabel', hTail⟩ := List.map_eq_append_iff.mp hRest
    obtain ⟨labels', hOk', rfl, hFold⟩ := ih (fun l hl => hOk l (List.mem_cons_of_mem _ hl)) hTail
    have hLen : label'.length = label.length := by simpa using congrArg List.length hLabel'
    refine ⟨label' :: labels', ?_, ?_, ?_⟩
    · intro l hl
      rcases List.mem_cons.mp hl with rfl | hl
      · rw [LabelOk, hLen]
        exact hLabel
      · exact hOk' l hl
    · rw [encodeName, hLen, eq_of_asciiLower_eq hx hLabel.not_letter]
    · rw [List.map_cons, List.map_cons, hLabel', hFold]

/-! ## The same question -/

/-- The same labels up to ASCII case, and the same codes. -/
structure Question.Same (p q : Question) : Prop where
  labels : p.labels.map (List.map asciiLower) = q.labels.map (List.map asciiLower)
  qtype : p.qtype = q.qtype
  qclass : p.qclass = q.qclass

theorem Question.Same.match {p q : Question} (hp : p.Wf) (hq : q.Wf) (h : p.Same q) :
    questionsMatch (encodeQuestion p) (encodeQuestion q) = true := by
  rw [questionsMatch_iff_map, encodeQuestion, encodeQuestion]
  simp only [List.map_append]
  rw [map_asciiLower_encodeName hp.labels, map_asciiLower_encodeName hq.labels, h.labels, h.qtype,
    h.qclass]

/-- Bytes that match a question whose codes have no letters are the same question. -/
theorem same_of_match {bytes : Bytes} {q : Question} (hq : q.Wf)
    (hCodes : ∀ x ∈ be16 q.qtype ++ be16 q.qclass, ¬ AsciiLetter x)
    (h : questionsMatch bytes (encodeQuestion q) = true) :
    ∃ p : Question, p.Wf ∧ bytes = encodeQuestion p ∧ p.Same q := by
  rw [questionsMatch_iff_map, encodeQuestion, List.append_assoc, List.map_append] at h
  obtain ⟨name, codes, rfl, hName, hTail⟩ := List.map_eq_append_iff.mp h
  obtain ⟨labels, hOk, rfl, hFold⟩ := encodeName_of_map_eq hq.labels hName
  obtain rfl := eq_of_map_asciiLower_eq hTail hCodes
  exact ⟨⟨labels, q.qtype, q.qclass⟩, ⟨hOk, hq.qtype, hq.qclass⟩,
    (List.append_assoc _ _ _).symm, hFold, rfl, rfl⟩

/-! ## Codes with letters -/

/-- A message has at most one question. -/
theorem Asks.unique {p q : Question} (hp : Asks wire p) (hq : Asks wire q) : p = q := by
  have hEnd := hp.questionSpan.symm.trans hq.questionSpan
  have hLen : (encodeQuestion p).length = (encodeQuestion q).length := by
    simpa using hEnd
  exact encodeQuestion_inj hp.wf hq.wf (by rw [← hp.readAt_question, hLen, hq.readAt_question])

/-- A query with this question. -/
def asking (q : Question) : Bytes := [0, 1, 1, 0, 0, 1, 0, 0, 0, 0, 0, 0] ++ encodeQuestion q

theorem asking_asks {q : Question} (h : q.Wf) : Asks (asking q) q where
  header := by simp [asking, headerLen]
  one := rfl
  wf := h
  question := ⟨[], by simp [asking, headerLen]⟩

/-- A code whose letters are written in the other case. -/
def codeOtherCase (n : Nat) : Nat := ofBe ((be16 n).map otherCase)

theorem be16_codeOtherCase (n : Nat) : be16 (codeOtherCase n) = (be16 n).map otherCase :=
  be16_ofBe _ _

theorem codeOtherCase_lt (n : Nat) : codeOtherCase n < 2 ^ 16 := by
  have hLt := ofBe_lt ((be16 n).map otherCase)
  rw [List.length_map, length_be16] at hLt
  exact hLt

theorem not_letter_of_codeOtherCase {n : Nat} (h : codeOtherCase n = n) :
    ∀ x ∈ be16 n, ¬ AsciiLetter x := by
  have hMap : (be16 n).map otherCase = (be16 n).map id := by
    rw [← be16_codeOtherCase, h, List.map_id]
  exact fun x hx => otherCase_eq_self.mp (List.map_inj_left.mp hMap x hx)

/-- A question with other codes, which still matches. -/
def Question.otherCodes (q : Question) : Question :=
  ⟨q.labels, codeOtherCase q.qtype, codeOtherCase q.qclass⟩

theorem Question.Wf.otherCodes {q : Question} (h : q.Wf) : q.otherCodes.Wf :=
  ⟨h.labels, codeOtherCase_lt _, codeOtherCase_lt _⟩

theorem match_otherCodes (q : Question) :
    questionsMatch (encodeQuestion q.otherCodes) (encodeQuestion q) = true := by
  have hFold : ∀ n, (be16 (codeOtherCase n)).map asciiLower = (be16 n).map asciiLower := by
    intro n
    rw [be16_codeOtherCase, List.map_map]
    exact List.map_congr_left fun b _ => asciiLower_otherCase b
  rw [questionsMatch_iff_map, encodeQuestion, encodeQuestion, Question.otherCodes]
  simp only [List.map_append, hFold]

/-! ## What a key matches -/

/-- The last four bytes of the question are its codes. -/
theorem Accepted.readAt_codes {name : Bytes} {q : Question} (h : Accepted rr raw query name q) :
    readAt raw (query.question.stop - 4) 4 = be16 q.qtype ++ be16 q.qclass := by
  have hStop : query.question.stop - 4 = headerLen + (encodeName q.labels).length := by
    rw [h.span, length_encodeQuestion]
    exact Nat.add_sub_cancel (headerLen + (encodeName q.labels).length) 4
  have hStands := h.asks.question
  rw [encodeQuestion, List.append_assoc] at hStands
  rw [hStop]
  exact hStands.right.readAt

/-- What a key matches is its question, if the codes have no letters. -/
theorem Asks.matches_iff {q : Question} {key : QuestionKey} (h : Asks raw q)
    (hKey : QuestionKey.fromWire raw = .ok key)
    (hCodes : ∀ x ∈ be16 q.qtype ++ be16 q.qclass, ¬ AsciiLetter x) :
    key.matches wire = .ok true ↔ ∃ p, Asks wire p ∧ p.Same q := by
  obtain ⟨hLen, hQuestion⟩ := h.key_question hKey
  rw [matches_eq_true hLen, hQuestion]
  constructor
  · -- the span found in `wire` may end with a pointer, but then its bytes do not match
    rintro ⟨span, hSpan, hMatch⟩
    obtain ⟨p, hp, hBytes, hSame⟩ := same_of_match h.wf hCodes hMatch
    obtain ⟨hHeader, hOne, -⟩ := questionSpan_eq_ok.mp hSpan
    refine ⟨p, ⟨hHeader, ofBe_readAt_of_u16At hOne, hp, ?_⟩, hSame⟩
    rw [← hBytes, (questionSpan_bounds hSpan).1]
    exact stands_readAt wire headerLen _
  · rintro ⟨p, hp, hSame⟩
    refine ⟨_, hp.questionSpan, ?_⟩
    rw [Nat.add_sub_cancel_left, hp.readAt_question]
    exact hSame.match hp.wf h.wf

/-- A key also matches the codes in the other case. -/
theorem Asks.matches_otherCodes {q : Question} {key : QuestionKey} (h : Asks raw q)
    (hKey : QuestionKey.fromWire raw = .ok key) : key.matches (asking q.otherCodes) = .ok true := by
  obtain ⟨hLen, hQuestion⟩ := h.key_question hKey
  have hOther := asking_asks h.wf.otherCodes
  refine (matches_eq_true hLen).mpr ⟨_, hOther.questionSpan, ?_⟩
  rw [Nat.add_sub_cancel_left, hOther.readAt_question, hQuestion]
  exact match_otherCodes q

/-- **Matching is asking the same question** exactly for the queries whose QTYPE and
QCLASS have no byte that is an ASCII letter. -/
theorem matches_iff_same_question {key : QuestionKey} (hBuf : nameBuf.length = maxNameLen)
    (hParse : parseQuery rr raw nameBuf = .ok (query, nameBuf'))
    (hKey : QuestionKey.fromWire raw = .ok key) :
    (∃ q, Asks raw q ∧
      ∀ wire, key.matches wire = .ok true ↔ ∃ p, Asks wire p ∧ p.Same q) ↔
    ∀ x ∈ readAt raw (query.question.stop - 4) 4, ¬ AsciiLetter x := by
  obtain ⟨q, hq⟩ := parseQuery_sound hBuf hParse
  rw [hq.readAt_codes]
  constructor
  · rintro ⟨q', hAsks, hIff⟩
    obtain rfl := hAsks.unique hq.asks
    -- the codes in the other case match too, so they are the same codes
    obtain ⟨p, hp, hSame⟩ := (hIff _).mp (hAsks.matches_otherCodes hKey)
    obtain rfl := hp.unique (asking_asks hAsks.wf.otherCodes)
    intro x hx
    rcases List.mem_append.mp hx with hType | hClass
    · exact not_letter_of_codeOtherCase hSame.qtype x hType
    · exact not_letter_of_codeOtherCase hSame.qclass x hClass
  · exact fun hCodes => ⟨q, hq.asks, fun wire => hq.asks.matches_iff hKey hCodes⟩

/-! ## A type with a letter in its code -/

/-- A query for the records of this type at the name `a`. -/
def askType (qtype : Nat) : Bytes :=
  [0, 1, 1, 0, 0, 1, 0, 0, 0, 0, 0, 0] ++ encodeQuestion ⟨[[0x61]], qtype, 1⟩

theorem askType_asks {qtype : Nat} (h : qtype < 2 ^ 16) :
    Asks (askType qtype) ⟨[[0x61]], qtype, 1⟩ :=
  asking_asks ⟨by simp [LabelOk], h, Nat.one_lt_two_pow (by decide)⟩

/-- What `parse_query` and `from_wire` return for it. -/
def askedType (qtype : Nat) : ParsedQuery Nat Nat :=
  ⟨1, 0, true, 2, qtype, 1, ⟨12, 19⟩, false, false, false⟩

def nameBufA : Bytes := writeAt emptyNameBuf 0 [0x61, dot]

def keyOfType (qtype : Nat) : QuestionKey :=
  ⟨7, writeAt (List.replicate maxQuestionLen 0) 0 (encodeQuestion ⟨[[0x61]], qtype, 1⟩)⟩

/-- For type 1 the key matches what asks the same question, and for type 65 it does not. -/
theorem matches_iff_same_question_type1 :
    (∃ q, Asks (askType 1) q ∧
      ∀ wire, (keyOfType 1).matches wire = .ok true ↔ ∃ p, Asks wire p ∧ p.Same q) ∧
    ¬ ∃ q, Asks (askType 65) q ∧
      ∀ wire, (keyOfType 65).matches wire = .ok true ↔ ∃ p, Asks wire p ∧ p.Same q := by
  have hParse : ∀ qtype ∈ [1, 65],
      parseQuery plainRr (askType qtype) emptyNameBuf = .ok (askedType qtype, nameBufA) := by
    decide +kernel
  have hKey : ∀ qtype ∈ [1, 65], QuestionKey.fromWire (askType qtype) = .ok (keyOfType qtype) := by
    decide +kernel
  constructor
  · exact (matches_iff_same_question length_emptyNameBuf (hParse 1 (by decide))
      (hKey 1 (by decide))).mpr (by decide +kernel)
  · rw [matches_iff_same_question length_emptyNameBuf (hParse 65 (by decide)) (hKey 65 (by decide))]
    decide +kernel

/-- A query for HTTPS records, type 65, is matched by a response about type 97. -/
theorem https_matches_97 :
    ¬ ∀ (raw nameBuf' : Bytes) (query : ParsedQuery Nat Nat) (key : QuestionKey),
      parseQuery plainRr raw emptyNameBuf = .ok (query, nameBuf') →
      QuestionKey.fromWire raw = .ok key →
      ∃ q, Asks raw q ∧ ∀ wire, key.matches wire = .ok true ↔ ∃ p, Asks wire p ∧ p.Same q := by
  intro h
  have hParse : parseQuery plainRr (askType 65) emptyNameBuf = .ok (askedType 65, nameBufA) := by
    decide +kernel
  have hKey : QuestionKey.fromWire (askType 65) = .ok (keyOfType 65) := by decide +kernel
  have hMatch : (keyOfType 65).matches (askType 97) = .ok true := by decide +kernel
  obtain ⟨q, hq, hIff⟩ := h _ _ _ _ hParse hKey
  obtain ⟨p, hp, hSame⟩ := (hIff (askType 97)).mp hMatch
  rw [hp.unique (askType_asks (by decide)), hq.unique (askType_asks (by decide))] at hSame
  exact absurd hSame.qtype (by decide)

end DnsRs.Wire
