import DnsRs.Wire.Names

/-!
# Questions of responses

`question_span`, `QuestionKey::from_wire` and `QuestionKey::matches` return on
every input (`questionSpan_noFault`, `fromWire_noFault`, `matches_total`): the
name skipper moves forward with every label, so it cannot loop, and every
range it gives lies inside the message.

A response that carries a query's question, up to ASCII case, matches the key
made from the query (`matches_of_answers`).
-/

namespace DnsRs.Wire

open Lib

/-! ## Skipping a name -/

theorem get?_noFault (raw : Bytes) (pos : Nat) : NoFault (get? raw pos) := by
  unfold get?
  split
  · exact .ok _
  · exact .exit

theorem getRange?_noFault (raw : Bytes) (start stop : Nat) : NoFault (getRange? raw start stop) := by
  unfold getRange?
  split
  · exact .ok _
  · exact .exit

theorem u16At_noFault (raw : Bytes) (pos : Nat) : NoFault (u16At raw pos) := by
  unfold u16At
  refine (get?_noFault raw pos).bind fun hi _ => ?_
  exact (get?_noFault raw (pos + 1)).bind fun lo _ => .ok _

/-- One more byte of fuel than the message is long is enough: every label moves
the offset forward, and past the end the read stops the loop. -/
theorem skipNameFrom_noFault {raw : Bytes} : ∀ {fuel pos : Nat}, 0 < fuel →
    raw.length < fuel + pos → NoFault (skipNameFrom raw fuel pos) := by
  intro fuel
  induction fuel with
  | zero => exact fun h => absurd h (by omega)
  | succ fuel ih =>
    intro pos _ hFuel
    rw [skipNameFrom]
    refine (get?_noFault raw pos).bind fun len hLen => ?_
    have hPos : pos < raw.length := (List.getElem?_eq_some_iff.mp (get?_eq_ok.mp hLen)).1
    split
    · split
      · exact .ok _
      · exact .exit
    · split
      · exact .exit
      · split
        · split
          · exact .ok _
          · exact .exit
        · -- a label moves the offset by at least two
          exact ih (by omega) (by omega)

theorem skipName_noFault (raw : Bytes) (pos : Nat) : NoFault (skipName raw pos) :=
  skipNameFrom_noFault (by omega) (by omega)

/-- A skipped name lies inside the message and is not empty. -/
theorem skipNameFrom_bounds {raw : Bytes} : ∀ {fuel pos stop : Nat},
    skipNameFrom raw fuel pos = .ok stop → pos < stop ∧ stop ≤ raw.length := by
  intro fuel
  induction fuel with
  | zero => exact fun h => by cases h
  | succ fuel ih =>
    intro pos stop h
    rw [skipNameFrom, bind_eq_ok] at h
    obtain ⟨len, -, h⟩ := h
    split at h
    · split at h
      · cases h
        omega
      · cases h
    · split at h
      · cases h
      · split at h
        · split at h
          · cases h
            omega
          · cases h
        · have := ih h
          omega

theorem skipName_bounds {raw : Bytes} {pos stop : Nat} (h : skipName raw pos = .ok stop) :
    pos < stop ∧ stop ≤ raw.length :=
  skipNameFrom_bounds h

/-! ## The question section -/

theorem questionSpan_noFault (raw : Bytes) : NoFault (questionSpan raw) := by
  unfold questionSpan
  split
  · exact .exit
  · refine (u16At_noFault raw 4).bind fun qdcount _ => ?_
    split
    · exact .exit
    · refine (skipName_noFault raw headerLen).bind fun stop _ => ?_
      split
      · exact .ok _
      · exact .exit

/-- What a span that `question_span` returns is. -/
theorem questionSpan_eq_ok {raw : Bytes} {span : Span} :
    questionSpan raw = .ok span ↔
      headerLen ≤ raw.length ∧ u16At raw 4 = .ok 1 ∧
        ∃ stop, skipName raw headerLen = .ok stop ∧ stop + 4 ≤ raw.length ∧
          span = ⟨headerLen, stop + 4⟩ := by
  unfold questionSpan
  constructor
  · intro h
    split at h
    · cases h
    · rename_i hHeader
      obtain ⟨qdcount, hCount, h⟩ := bind_eq_ok.mp h
      split at h
      · cases h
      · rename_i hOne
        rw [Decidable.not_not] at hOne
        subst hOne
        obtain ⟨stop, hStop, h⟩ := bind_eq_ok.mp h
        split at h
        · cases h
          exact ⟨by omega, hCount, stop, hStop, ‹_›, rfl⟩
        · cases h
  · rintro ⟨hHeader, hCount, stop, hStop, hLen, rfl⟩
    rw [if_neg (by omega), hCount, ok_bind, if_neg (by simp), hStop, ok_bind, if_pos hLen]

theorem questionSpan_bounds {raw : Bytes} {span : Span} (h : questionSpan raw = .ok span) :
    span.start = headerLen ∧ headerLen < span.stop ∧ span.stop ≤ raw.length := by
  obtain ⟨-, -, stop, hStop, hLen, rfl⟩ := questionSpan_eq_ok.mp h
  have := (skipName_bounds hStop).1
  exact ⟨rfl, by simp only; omega, hLen⟩

/-! ## Question keys -/

/-- The stored question, without the unused rest of its buffer. -/
def QuestionKey.question (key : QuestionKey) : Bytes := key.bytes.take key.len

theorem question_fits {question : Bytes} (h : ¬ question.length > maxQuestionLen) :
    0 + question.length ≤ (List.replicate maxQuestionLen (0 : UInt8)).length := by
  rw [List.length_replicate]
  omega

theorem fromWire_noFault (wire : Bytes) : NoFault (QuestionKey.fromWire wire) := by
  unfold QuestionKey.fromWire
  refine (questionSpan_noFault wire).bind fun span _ => ?_
  refine (getRange?_noFault wire span.start span.stop).bind fun question _ => ?_
  split
  · exact .exit
  · rename_i hLen
    have hFits := question_fits hLen
    have hCopy := overwrite_eq_ok hFits
    rw [Nat.zero_add] at hCopy
    rw [hCopy, lift_ok, ok_bind]
    exact .ok _

/-- A key made from a message holds the message's question. -/
theorem fromWire_question {wire : Bytes} {key : QuestionKey}
    (h : QuestionKey.fromWire wire = .ok key) :
    ∃ span, questionSpan wire = .ok span ∧ key.len ≤ key.bytes.length ∧
      key.question = readAt wire span.start (span.stop - span.start) := by
  unfold QuestionKey.fromWire at h
  obtain ⟨span, hSpan, h⟩ := bind_eq_ok.mp h
  obtain ⟨question, hQuestion, h⟩ := bind_eq_ok.mp h
  obtain ⟨-, hRead⟩ := getRange?_eq_ok.mp hQuestion
  split at h
  · cases h
  · rename_i hLen
    have hFits := question_fits hLen
    have hCopy := overwrite_eq_ok hFits
    rw [Nat.zero_add] at hCopy
    rw [hCopy, lift_ok, ok_bind] at h
    cases h
    -- the length is stored as a `u16`, which it fits
    have hSmall : question.length % 2 ^ 16 = question.length := by
      have : maxQuestionLen = 259 := rfl
      omega
    have hTake := take_writeAt hFits
    rw [Nat.zero_add, List.take_zero, List.nil_append] at hTake
    refine ⟨span, hSpan, ?_, ?_⟩
    · show question.length % 2 ^ 16 ≤ (writeAt _ 0 question).length
      rw [hSmall, length_writeAt hFits]
      omega
    · rw [QuestionKey.question, hSmall, hTake, hRead]

/-- `matches` returns, and says whether the message has the key's question. -/
theorem matches_total {key : QuestionKey} (hKey : key.len ≤ key.bytes.length) (wire : Bytes) :
    ∃ b, key.matches wire = .ok b := by
  unfold QuestionKey.matches
  rcases (questionSpan_noFault wire).settle with hNone | ⟨span, hSpan, hSome⟩
  · exact ⟨false, by rw [hNone, ok_bind]; rfl⟩
  · obtain ⟨hStart, hLt, hStop⟩ := questionSpan_bounds hSpan
    rw [hSome, ok_bind]
    dsimp only
    rw [slice_eq_ok (by omega) hStop, ok_bind, slice_eq_ok (Nat.zero_le _) hKey, ok_bind]
    exact ⟨_, rfl⟩

theorem matches_eq_true_of_span {key : QuestionKey} (hKey : key.len ≤ key.bytes.length)
    {wire : Bytes} {span : Span} (hSpan : questionSpan wire = .ok span)
    (hMatch : questionsMatch (readAt wire span.start (span.stop - span.start)) key.question = true) :
    key.matches wire = .ok true := by
  obtain ⟨hStart, hLt, hStop⟩ := questionSpan_bounds hSpan
  unfold QuestionKey.matches
  rw [settle_eq_some.mpr hSpan, ok_bind]
  dsimp only
  rw [slice_eq_ok (by omega) hStop, ok_bind, slice_eq_ok (Nat.zero_le _) hKey, ok_bind]
  exact congrArg _ hMatch

/-! ## Message IDs -/

/-- Setting the ID returns on every message, changes nothing behind the ID, and
the ID of a message that has one is the new one. -/
theorem setId_total (wire : Bytes) (id : Nat) :
    ∃ wire', setId wire id = .ok wire' ∧ wire'.length = wire.length ∧
      wire'.drop 2 = wire.drop 2 ∧
      (2 ≤ wire.length → id < 2 ^ 16 → ofBe (readAt wire' 0 2) = id) := by
  rw [setId]
  split
  · have hFits : 0 + (be16 id).length ≤ wire.length := by
      rw [length_be16]
      omega
    refine ⟨_, overwrite_eq_ok hFits, length_writeAt hFits, ?_, fun _ hId => ?_⟩
    · simp [writeAt, be16]
    · have hRead := readAt_writeAt_self hFits
      rw [length_be16] at hRead
      rw [hRead, ofBe_be16 hId]
  · rename_i hShort
    exact ⟨wire, rfl, rfl, rfl, fun hLong => absurd hLong hShort⟩

/-! ## Answers -/

/-- The message `response` answers the message `query`: the same ID, QR set,
one question, and it is the question of `query` up to ASCII case. -/
structure Answers (query response : Bytes) : Prop where
  id : readAt response 0 2 = readAt query 0 2
  qr : ∃ b, response[2]? = some b ∧ b &&& 0x80 ≠ 0
  qdcount : u16At response 4 = .ok 1
  question : ∀ span, questionSpan query = .ok span → span.stop ≤ response.length ∧
    questionsMatch (readAt response span.start (span.stop - span.start))
      (readAt query span.start (span.stop - span.start)) = true

theorem toNat_asciiLower (b : UInt8) :
    (asciiLower b).toNat = if 65 ≤ b.toNat ∧ b.toNat ≤ 90 then b.toNat + 32 else b.toNat := by
  have hNat : ∀ n : Nat, n < 256 → (asciiLower (UInt8.ofNat n)).toNat =
      if 65 ≤ n ∧ n ≤ 90 then n + 32 else n := by decide +kernel
  have := hNat b.toNat b.toNat_lt
  rwa [ofNat_toNat] at this

/-- The two top bits of a pointer byte. -/
theorem and_c0_eq_c0_iff (b : UInt8) : b &&& 0xc0 = 0xc0 ↔ 192 ≤ b.toNat := by
  have key : ∀ v : BitVec 8, v &&& 0xc0#8 = 0xc0#8 ↔ 192 ≤ v.toNat := by decide
  rw [← UInt8.toBitVec_inj]
  exact key b.toBitVec

/-- Length and pointer bytes are no letters, so they agree exactly. -/
theorem eq_of_eqIgnoreAsciiCase {a b : UInt8} (h : eqIgnoreAsciiCase a b = true)
    (hb : b.toNat < 64 ∨ 192 ≤ b.toNat) : a = b := by
  have hLower : (asciiLower a).toNat = (asciiLower b).toNat := by
    rw [eqIgnoreAsciiCase, beq_iff_eq] at h
    rw [h]
  rw [toNat_asciiLower, toNat_asciiLower] at hLower
  rw [← UInt8.toNat_inj]
  split at hLower <;> split at hLower <;> omega

/-- A name is skipped to the same end in a message that agrees with it up to
ASCII case. -/
theorem skipNameFrom_congr {query response : Bytes} : ∀ {fuel fuel' pos stop : Nat},
    skipNameFrom query fuel pos = .ok stop → stop ≤ response.length →
    response.length < fuel' + pos →
    (∀ i, pos ≤ i → i < stop → ∃ a b, response[i]? = some a ∧ query[i]? = some b ∧
      eqIgnoreAsciiCase a b = true) →
    skipNameFrom response fuel' pos = .ok stop := by
  intro fuel
  induction fuel with
  | zero => exact fun h => by cases h
  | succ fuel ih =>
    intro fuel' pos stop h hStop hFuel hSame
    obtain ⟨hPos, -⟩ := skipNameFrom_bounds h
    obtain ⟨a, b, ha, hb, hab⟩ := hSame pos (Nat.le_refl _) hPos
    -- the two messages differ in length, so in fuel; only enough of it matters
    obtain ⟨fuel', rfl⟩ : ∃ n, fuel' = n + 1 := ⟨fuel' - 1, by omega⟩
    rw [skipNameFrom, get?_eq_ok.mpr hb, ok_bind] at h
    rw [skipNameFrom, get?_eq_ok.mpr ha, ok_bind]
    -- a byte that does not stop the skipper is a length or a pointer
    by_cases hPtr : b &&& 0xc0 = 0xc0
    · obtain rfl := eq_of_eqIgnoreAsciiCase hab (.inr ((and_c0_eq_c0_iff b).mp hPtr))
      rw [if_pos hPtr] at h ⊢
      split at h
      · cases h
        rw [if_pos hStop]
      · cases h
    · rw [if_neg hPtr] at h
      by_cases hLen : b &&& 0xc0 = 0
      · obtain rfl := eq_of_eqIgnoreAsciiCase hab (.inl ((and_c0_eq_zero_iff b).mp hLen))
        rw [if_neg hPtr, if_neg (by rw [hLen]; simp)]
        rw [if_neg (by rw [hLen]; simp)] at h
        by_cases hZero : a = 0
        · rw [if_pos hZero] at h ⊢
          split at h
          · cases h
            rw [if_pos hStop]
          · cases h
        · rw [if_neg hZero] at h ⊢
          have hNext := (skipNameFrom_bounds h).1
          exact ih h hStop (by omega) fun i hi hi' => hSame i (by omega) hi'
      · rw [if_pos hLen] at h
        cases h

theorem questionsMatch_eq_true {a b : Bytes} :
    questionsMatch a b = true ↔ a.length = b.length ∧
      ∀ (i : Nat) (x y : UInt8), a[i]? = some x → b[i]? = some y →
        eqIgnoreAsciiCase x y = true := by
  rw [questionsMatch, Bool.and_eq_true, beq_iff_eq, List.all_eq_true]
  constructor
  · rintro ⟨hLen, hAll⟩
    refine ⟨hLen, fun i x y hx hy => ?_⟩
    exact hAll (x, y) (List.mem_of_getElem? (by rw [List.getElem?_zip_eq_some]; exact ⟨hx, hy⟩))
  · rintro ⟨hLen, hAll⟩
    refine ⟨hLen, fun p hp => ?_⟩
    obtain ⟨i, hi⟩ := List.getElem?_of_mem hp
    rw [List.getElem?_zip_eq_some] at hi
    exact hAll i p.1 p.2 hi.1 hi.2

/-- An answer has its question where the query has it. -/
theorem Answers.questionSpan_eq {query response : Bytes} {span : Span} (h : Answers query response)
    (hSpan : questionSpan query = .ok span) : questionSpan response = .ok span := by
  obtain ⟨hLen, hMatch⟩ := h.question span hSpan
  obtain ⟨hHeader, -, stop, hStop, hInside, rfl⟩ := questionSpan_eq_ok.mp hSpan
  simp only at hLen hMatch
  have hBound := (skipName_bounds hStop).1
  refine questionSpan_eq_ok.mpr ⟨by omega, h.qdcount, stop, ?_, hLen, rfl⟩
  refine skipNameFrom_congr hStop (by omega) (by omega) ?_
  intro i hi hi'
  -- the bytes of the name are among those of the question, which agree
  obtain ⟨-, hAll⟩ := questionsMatch_eq_true.mp hMatch
  obtain ⟨a, ha⟩ : ∃ a, response[i]? = some a := ⟨_, List.getElem?_eq_getElem (by omega)⟩
  obtain ⟨b, hb⟩ : ∃ b, query[i]? = some b := ⟨_, List.getElem?_eq_getElem (by omega)⟩
  refine ⟨a, b, ha, hb, hAll (i - headerLen) a b ?_ ?_⟩
  · rw [getElem?_readAt, if_pos (by omega), Nat.add_sub_cancel' hi, ha]
  · rw [getElem?_readAt, if_pos (by omega), Nat.add_sub_cancel' hi, hb]

/-- An answer to a query matches the query's key. -/
theorem matches_of_answers {query response : Bytes} {key : QuestionKey}
    (h : Answers query response) (hKey : QuestionKey.fromWire query = .ok key) :
    key.matches response = .ok true := by
  obtain ⟨span, hSpan, hLen, hQuestion⟩ := fromWire_question hKey
  refine matches_eq_true_of_span hLen (h.questionSpan_eq hSpan) ?_
  rw [hQuestion]
  exact (h.question span hSpan).2

end DnsRs.Wire
