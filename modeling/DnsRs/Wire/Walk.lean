import DnsRs.Wire.Aging

/-!
# Walks over the records of a message

`find_opt` and `age_ttls` step over records by their names, types and lengths.
A name is skipped without following its pointer, so such a walk only ever looks
ahead: from an offset on it depends on nothing before it, and what `age_ttls`
writes lies behind everything it reads later.

* `findOptSections_agreeFrom` — a walk does not look back.
* `ageRecords_walk` — after aging, all before the first record is as it was, and
  `find_opt` sees the same records.
-/

namespace DnsRs.Wire

open Lib

variable {a b w w' : Bytes} {n pos : Nat}

/-! ## Buffers that agree -/

/-- The two differ only before `n`. -/
structure AgreeFrom (n : Nat) (a b : Bytes) : Prop where
  length : b.length = a.length
  same : ∀ i, n ≤ i → b[i]? = a[i]?

/-- The two differ only from `n` on. -/
structure AgreeBelow (n : Nat) (a b : Bytes) : Prop where
  length : b.length = a.length
  same : ∀ i, i < n → b[i]? = a[i]?

theorem AgreeBelow.refl (n : Nat) (a : Bytes) : AgreeBelow n a a := ⟨rfl, fun _ _ => rfl⟩

theorem AgreeBelow.mono {m : Nat} (h : AgreeBelow n a b) (hm : m ≤ n) : AgreeBelow m a b :=
  ⟨h.length, fun i hi => h.same i (by omega)⟩

theorem get?_congr (h : b[pos]? = a[pos]?) : get? b pos = get? a pos := by
  rw [get?, get?, h]

theorem u16At_congr (h0 : b[pos]? = a[pos]?) (h1 : b[pos + 1]? = a[pos + 1]?) :
    u16At b pos = u16At a pos := by
  rw [u16At, u16At, get?_congr h0, get?_congr h1]

/-! ## Looking ahead -/

theorem skipNameFrom_agreeFrom (h : AgreeFrom n a b) :
    ∀ (fuel pos : Nat), n ≤ pos → skipNameFrom b fuel pos = skipNameFrom a fuel pos := by
  intro fuel
  induction fuel with
  | zero => exact fun _ _ => rfl
  | succ fuel ih =>
    intro pos hPos
    rw [skipNameFrom, skipNameFrom, get?_congr (h.same pos hPos), h.length]
    refine bind_congr fun len => ?_
    rw [ih (pos + 1 + len.toNat) (by omega)]

theorem skipName_agreeFrom (h : AgreeFrom n a b) (hPos : n ≤ pos) : skipName b pos = skipName a pos := by
  rw [skipName, skipName, h.length]
  exact skipNameFrom_agreeFrom h _ _ hPos

theorem u16At_agreeFrom (h : AgreeFrom n a b) (hPos : n ≤ pos) : u16At b pos = u16At a pos :=
  u16At_congr (h.same _ hPos) (h.same _ (by omega))

/-- One record of the walk of `find_opt`. -/
theorem findOptSections_succ (raw : Bytes) (sectionIdx count : Nat) (counts : List Nat) (pos : Nat) :
    findOptSections raw sectionIdx ((count + 1) :: counts) pos = (do
      let stop ← skipName raw pos
      let rtype ← u16At raw stop
      let rdlen ← u16At raw (stop + 8)
      if sectionIdx = 2 ∧ rtype = optRecordType then do
        let b0 ← get? raw (stop + 4)
        let b1 ← get? raw (stop + 5)
        let b2 ← get? raw (stop + 6)
        let b3 ← get? raw (stop + 7)
        return (true, ofBe [b0, b1, b2, b3] &&& dnssecOkBit != 0)
      else if stop + 10 + rdlen > raw.length then .error .none
      else findOptSections raw sectionIdx (count :: counts) (stop + 10 + rdlen)) := by
  rw [findOptSections, findOptRecords, bind_assoc]
  refine bind_congr fun stop => ?_
  rw [bind_assoc]
  refine bind_congr fun rtype => ?_
  rw [bind_assoc]
  refine bind_congr fun rdlen => ?_
  split
  · simp only [bind_assoc, pure_bind]
  · split
    · rfl
    · rw [findOptSections]

/-- The next section. -/
theorem findOptSections_zero (raw : Bytes) (sectionIdx : Nat) (counts : List Nat) (pos : Nat) :
    findOptSections raw sectionIdx (0 :: counts) pos =
      findOptSections raw (sectionIdx + 1) counts pos := rfl

/-- **A walk does not look back.** -/
theorem findOptSections_agreeFrom (h : AgreeFrom n a b) :
    ∀ (counts : List Nat) (sectionIdx pos : Nat), n ≤ pos →
      findOptSections b sectionIdx counts pos = findOptSections a sectionIdx counts pos := by
  intro counts
  induction counts with
  | nil => exact fun _ _ _ => rfl
  | cons count counts ihCounts =>
    induction count with
    | zero =>
      intro sectionIdx pos hPos
      rw [findOptSections_zero, findOptSections_zero]
      exact ihCounts _ _ hPos
    | succ count ih =>
      intro sectionIdx pos hPos
      rw [findOptSections_succ, findOptSections_succ, skipName_agreeFrom h hPos, h.length]
      cases hSkip : skipName a pos with
      | error e => rw [error_bind, error_bind]
      | ok stop =>
        obtain ⟨hStop, -⟩ := skipName_bounds hSkip
        rw [ok_bind, ok_bind, u16At_agreeFrom h (show n ≤ stop by omega),
          u16At_agreeFrom h (show n ≤ stop + 8 by omega)]
        refine bind_congr fun rtype => bind_congr fun rdlen => ?_
        refine ite_congr rfl (fun _ => ?_) fun _ => ite_congr rfl (fun _ => rfl) fun _ => ?_
        · rw [get?_congr (h.same (stop + 4) (by omega)), get?_congr (h.same (stop + 5) (by omega)),
            get?_congr (h.same (stop + 6) (by omega)), get?_congr (h.same (stop + 7) (by omega))]
        · exact ih sectionIdx (stop + 10 + rdlen) (by omega)

/-! ## Aging -/

theorem skipNameFrom_agreeBelow {stop : Nat} (h : AgreeBelow stop a b) :
    ∀ {fuel pos : Nat}, skipNameFrom a fuel pos = .ok stop → skipNameFrom b fuel pos = .ok stop := by
  intro fuel
  induction fuel with
  | zero => exact fun hSkip => by cases hSkip
  | succ fuel ih =>
    intro pos hSkip
    have hPos := (skipNameFrom_bounds hSkip).1
    rw [skipNameFrom] at hSkip ⊢
    rw [get?_congr (h.same pos hPos), h.length]
    obtain ⟨len, hLen, hSkip⟩ := bind_eq_ok.mp hSkip
    rw [hLen, ok_bind]
    -- only the last branch goes on reading
    by_cases hPointer : len &&& 0xc0 = 0xc0
    · rw [if_pos hPointer] at hSkip ⊢
      exact hSkip
    rw [if_neg hPointer] at hSkip ⊢
    by_cases hReserved : len &&& 0xc0 ≠ 0
    · rw [if_pos hReserved] at hSkip
      cases hSkip
    rw [if_neg hReserved] at hSkip ⊢
    by_cases hZero : len = 0
    · rw [if_pos hZero] at hSkip ⊢
      exact hSkip
    rw [if_neg hZero] at hSkip ⊢
    exact ih hSkip

theorem skipName_agreeBelow {stop : Nat} (h : AgreeBelow stop a b) (hSkip : skipName a pos = .ok stop) :
    skipName b pos = .ok stop := by
  rw [skipName, h.length]
  exact skipNameFrom_agreeBelow h hSkip

/-- Rewriting a TTL touches its four bytes, and none of an OPT record. -/
theorem rewriteTtl_same {ttlBytes : Bytes} {ttlAt recordType elapsedSecs : Nat} {forceZero : Bool}
    (hRange : getRange? w ttlAt (ttlAt + 4) = .ok ttlBytes)
    (h : rewriteTtl w ttlAt recordType ttlBytes elapsedSecs forceZero = .ok w') :
    w'.length = w.length ∧ (∀ i, i < ttlAt ∨ ttlAt + 4 ≤ i → w'[i]? = w[i]?) ∧
      (recordType = optRecordType → w' = w) := by
  obtain ⟨⟨-, hStop⟩, -⟩ := getRange?_eq_ok.mp hRange
  rw [rewriteTtl] at h
  split at h
  · rename_i hOther
    have hFits : ttlAt + (be32 (agedTtl (ofBe ttlBytes) elapsedSecs forceZero)).length ≤
        w.length := by
      rw [length_be32]
      exact hStop
    have hWrite := overwrite_eq_ok hFits
    rw [length_be32] at hWrite
    cases hWrite.symm.trans h
    refine ⟨length_writeAt hFits, ?_, fun hOpt => absurd hOpt hOther⟩
    intro i hi
    rw [getElem?_writeAt hFits, length_be32, if_neg (by omega)]
  · cases h
    exact ⟨rfl, fun _ _ => rfl, fun _ => rfl⟩

/-- One turn of the record loop of `age_ttls`: it gives up before it has written,
or gives up after it, or goes on to the next record. -/
theorem ageRecords_succ {elapsedSecs count : Nat} {forceZero done : Bool}
    (h : ageRecords elapsedSecs forceZero (count + 1) w pos = .ok (done, w')) :
    (done = false ∧ w' = w) ∨
      ∃ stop recordType ttlBytes w₁, skipName w pos = .ok stop ∧ u16At w stop = .ok recordType ∧
        getRange? w (stop + 4) (stop + 4 + 4) = .ok ttlBytes ∧
        rewriteTtl w (stop + 4) recordType ttlBytes elapsedSecs forceZero = .ok w₁ ∧
        ((done = false ∧ w' = w₁ ∧
            ∀ rdlen, u16At w₁ (stop + 8) = .ok rdlen → w₁.length < stop + 10 + rdlen) ∨
          ∃ rdlen, u16At w₁ (stop + 8) = .ok rdlen ∧ stop + 10 + rdlen ≤ w₁.length ∧
            ageRecords elapsedSecs forceZero count w₁ (stop + 10 + rdlen) = .ok (done, w')) := by
  rw [ageRecords] at h
  rcases (skipName_noFault w pos).settle with hNone | ⟨stop, hSkip, hSome⟩
  · rw [hNone, ok_bind] at h
    cases h
    exact .inl ⟨rfl, rfl⟩
  rw [hSome, ok_bind] at h
  dsimp only at h
  rcases (u16At_noFault w stop).settle with hNone | ⟨recordType, hType, hSome⟩
  · rw [hNone, ok_bind] at h
    cases h
    exact .inl ⟨rfl, rfl⟩
  rw [hSome, ok_bind] at h
  dsimp only at h
  rcases (getRange?_noFault w (stop + 4) (stop + 4 + 4)).settle with hNone | ⟨ttlBytes, hTtl, hSome⟩
  · rw [hNone, ok_bind] at h
    cases h
    exact .inl ⟨rfl, rfl⟩
  rw [hSome, ok_bind] at h
  dsimp only at h
  obtain ⟨w₁, hWrite, h⟩ := bind_eq_ok.mp h
  refine .inr ⟨stop, recordType, ttlBytes, w₁, hSkip, hType, hTtl, hWrite, ?_⟩
  rcases (u16At_noFault w₁ (stop + 8)).settle with hNone | ⟨rdlen, hLen, hSome⟩
  · rw [hNone, ok_bind] at h
    cases h
    refine .inl ⟨rfl, rfl, fun rdlen hLen => ?_⟩
    rw [hLen] at hNone
    cases hNone
  rw [hSome, ok_bind] at h
  dsimp only at h
  split at h
  · rename_i hLong
    cases h
    refine .inl ⟨rfl, rfl, fun rdlen' hLen' => ?_⟩
    cases hLen.symm.trans hLen'
    exact hLong
  · rename_i hFits
    exact .inr ⟨rdlen, hLen, by omega, h⟩

/-- The walk of `find_opt` over one record of two buffers that differ in nothing it
reads there. -/
theorem findOptSections_record {stop next recordType sectionIdx count : Nat} {counts : List Nat}
    (hSkip : skipName w pos = .ok stop) (hType : u16At w stop = .ok recordType)
    (hLen : w'.length = w.length) (hNext : stop + 10 ≤ next)
    (hSame : ∀ i < next, i < stop + 4 ∨ stop + 8 ≤ i → w'[i]? = w[i]?)
    (hOpt : recordType = optRecordType → ∀ i < next, w'[i]? = w[i]?)
    (hRest : ∀ rdlen, u16At w (stop + 8) = .ok rdlen → stop + 10 + rdlen ≤ w.length →
      findOptSections w' sectionIdx (count :: counts) (stop + 10 + rdlen) =
        findOptSections w sectionIdx (count :: counts) (stop + 10 + rdlen)) :
    findOptSections w' sectionIdx ((count + 1) :: counts) pos =
      findOptSections w sectionIdx ((count + 1) :: counts) pos := by
  have hName : skipName w' pos = .ok stop :=
    skipName_agreeBelow ⟨hLen, fun i hi => hSame i (by omega) (by omega)⟩ hSkip
  have hType' : u16At w' stop = .ok recordType :=
    (u16At_congr (hSame _ (by omega) (by omega)) (hSame _ (by omega) (by omega))).trans hType
  have hRdlen : u16At w' (stop + 8) = u16At w (stop + 8) :=
    u16At_congr (hSame _ (by omega) (by omega)) (hSame _ (by omega) (by omega))
  rw [findOptSections_succ, findOptSections_succ, hName, hSkip, ok_bind, ok_bind, hType', hType,
    ok_bind, ok_bind, hRdlen, hLen]
  cases hRd : u16At w (stop + 8) with
  | error e => rw [error_bind, error_bind]
  | ok rdlen =>
    rw [ok_bind, ok_bind]
    split
    · -- an OPT record is read with its TTL
      rename_i hFound
      have hAll := hOpt hFound.2
      rw [get?_congr (hAll (stop + 4) (by omega)), get?_congr (hAll (stop + 5) (by omega)),
        get?_congr (hAll (stop + 6) (by omega)), get?_congr (hAll (stop + 7) (by omega))]
    · split
      · rfl
      · rename_i hFits
        exact hRest rdlen hRd (by omega)

/-- **Aging keeps the walk.** Nothing before the first record is touched, and the
records are found again where they were. -/
theorem ageRecords_walk {elapsedSecs : Nat} {forceZero done : Bool} :
    ∀ {count : Nat} {w : Bytes} {pos : Nat},
      ageRecords elapsedSecs forceZero count w pos = .ok (done, w') →
      AgreeBelow pos w w' ∧ ∀ (counts : List Nat) (sectionIdx : Nat), counts.sum ≤ count →
        findOptSections w' sectionIdx counts pos = findOptSections w sectionIdx counts pos := by
  intro count
  induction count with
  | zero =>
    intro w pos h
    cases h
    exact ⟨.refl _ _, fun _ _ _ => rfl⟩
  | succ count ih =>
    intro w pos h
    rcases ageRecords_succ h with
      ⟨-, rfl⟩ | ⟨stop, recordType, ttlBytes, w₁, hSkip, hType, hTtl, hWrite, hRest⟩
    · exact ⟨.refl _ _, fun _ _ _ => rfl⟩
    obtain ⟨hPos, -⟩ := skipName_bounds hSkip
    obtain ⟨hLen₁, hSame₁, hOpt⟩ := rewriteTtl_same hTtl hWrite
    have hRdlen : u16At w₁ (stop + 8) = u16At w (stop + 8) :=
      u16At_congr (hSame₁ _ (by omega)) (hSame₁ _ (by omega))
    -- up to the next record only this TTL was written, and behind it the walk is the same
    have hNext : ∃ next, w'.length = w.length ∧ stop + 10 ≤ next ∧ (∀ i < next, w'[i]? = w₁[i]?) ∧
        ∀ rdlen, u16At w (stop + 8) = .ok rdlen → stop + 10 + rdlen ≤ w.length →
          ∀ (counts : List Nat) (sectionIdx : Nat), counts.sum ≤ count →
            findOptSections w' sectionIdx counts (stop + 10 + rdlen) =
              findOptSections w sectionIdx counts (stop + 10 + rdlen) := by
      rcases hRest with ⟨-, rfl, hShort⟩ | ⟨rdlen, hRd, -, hRest⟩
      · refine ⟨stop + 10, hLen₁, Nat.le_refl _, fun _ _ => rfl, fun rdlen hRd hFits => ?_⟩
        have hLong := hShort rdlen (hRdlen.trans hRd)
        omega
      · obtain ⟨hBelow, hWalk⟩ := ih hRest
        refine ⟨stop + 10 + rdlen, hBelow.length.trans hLen₁, by omega, hBelow.same, ?_⟩
        intro rdlen' hRd' _ counts sectionIdx hSum
        cases (hRdlen.symm.trans hRd).symm.trans hRd'
        have hAhead : AgreeFrom (stop + 10 + rdlen) w w₁ := ⟨hLen₁, fun i hi => hSame₁ i (by omega)⟩
        rw [hWalk counts sectionIdx hSum]
        exact findOptSections_agreeFrom hAhead counts sectionIdx _ (Nat.le_refl _)
    obtain ⟨next, hLen, hNext, hSame, hAfter⟩ := hNext
    have hSame' : ∀ i < next, i < stop + 4 ∨ stop + 8 ≤ i → w'[i]? = w[i]? := fun i hi hOutside =>
      (hSame i hi).trans (hSame₁ i (by omega))
    refine ⟨⟨hLen, fun i hi => hSame' i (by omega) (by omega)⟩, ?_⟩
    intro counts
    induction counts with
    | nil => exact fun _ _ => rfl
    | cons c counts ihCounts =>
      intro sectionIdx hSum
      rw [List.sum_cons] at hSum
      cases c with
      | zero =>
        rw [findOptSections_zero, findOptSections_zero]
        exact ihCounts (sectionIdx + 1) (by omega)
      | succ c =>
        refine findOptSections_record hSkip hType hLen hNext hSame' ?_ ?_
        · intro hIsOpt i hi
          rw [hSame i hi, hOpt hIsOpt]
        · intro rdlen hRd hFits
          exact hAfter rdlen hRd hFits _ _ (by rw [List.sum_cons]; omega)

theorem ageQuestions_le {wire : Bytes} : ∀ {count pos stop : Nat},
    ageQuestions wire count pos = .ok (some stop) → pos ≤ stop := by
  intro count
  induction count with
  | zero =>
    intro pos stop h
    cases h
    exact Nat.le_refl _
  | succ count ih =>
    intro pos stop h
    rw [ageQuestions] at h
    rcases (skipName_noFault wire pos).settle with hNone | ⟨next, hSkip, hSome⟩
    · rw [hNone, ok_bind] at h
      cases h
    · rw [hSome, ok_bind] at h
      dsimp only at h
      split at h
      · cases h
      · have hNext := (skipName_bounds hSkip).1
        have hRest := ih h
        omega

/-- With one question, the questions end where `question_span` says. -/
theorem questionSpan_of_ageQuestions {wire : Bytes} {stop : Nat} (hHeader : headerLen ≤ wire.length)
    (hOne : u16At wire 4 = .ok 1) (h : ageQuestions wire 1 headerLen = .ok (some stop)) :
    questionSpan wire = .ok ⟨headerLen, stop⟩ := by
  rw [ageQuestions] at h
  rcases (skipName_noFault wire headerLen).settle with hNone | ⟨next, hSkip, hSome⟩
  · rw [hNone, ok_bind] at h
    cases h
  · rw [hSome, ok_bind] at h
    dsimp only at h
    split at h
    · cases h
    · rename_i hFits
      cases h
      exact questionSpan_eq_ok.mpr ⟨hHeader, hOne, next, hSkip, by omega, rfl⟩

/-! ## The OPT record of a response -/

/-- What `find_opt` reads off a message with one question. -/
def optOf (wire : Bytes) : Except Exit (Bool × Bool) := do
  let span ← questionSpan wire
  findOpt wire span.stop

/-- The message has an OPT record in its additional section. -/
def CarriesOpt (wire : Bytes) : Prop := ∃ dnssecOk, optOf wire = .ok (true, dnssecOk)

theorem optOf_agreeFrom (h : AgreeFrom 2 a b) : optOf b = optOf a := by
  have hSpan : questionSpan b = questionSpan a := by
    rw [questionSpan, questionSpan, h.length, u16At_agreeFrom h (show 2 ≤ 4 by omega),
      skipName_agreeFrom h (show 2 ≤ headerLen by decide)]
  rw [optOf, optOf, hSpan]
  cases hOk : questionSpan a with
  | error e => rw [error_bind, error_bind]
  | ok span =>
    obtain ⟨-, hStop, -⟩ := questionSpan_bounds hOk
    rw [headerLen] at hStop
    rw [ok_bind, ok_bind, findOpt, findOpt, u16At_agreeFrom h (show 2 ≤ 6 by omega),
      u16At_agreeFrom h (show 2 ≤ 8 by omega), u16At_agreeFrom h (show 2 ≤ 10 by omega)]
    refine bind_congr fun answers => bind_congr fun authorities => bind_congr fun additionals => ?_
    exact findOptSections_agreeFrom h _ _ _ (by omega)

/-- The ID is not part of the walk. -/
theorem setId_agreeFrom {id : Nat} (h : setId w id = .ok w') : AgreeFrom 2 w w' := by
  obtain ⟨w'', hOk, hLen, hDrop, -⟩ := setId_total w id
  cases h.symm.trans hOk
  refine ⟨hLen, fun i hi => ?_⟩
  have hAt := congrArg (·[i - 2]?) hDrop
  simp only [List.getElem?_drop] at hAt
  rwa [show 2 + (i - 2) = i by omega] at hAt

/-- **Aging keeps the header and the OPT record.** -/
theorem ageTtls_walk {elapsedSecs : Nat} {forceZero done : Bool}
    (h : ageTtls w elapsedSecs forceZero = .ok (done, w')) :
    AgreeBelow headerLen w w' ∧ optOf w' = optOf w := by
  rw [ageTtls] at h
  split at h
  · cases h
    exact ⟨.refl _ _, rfl⟩
  rename_i hHeader
  -- the four counts are in the header
  have hCount : ∀ pos, pos + 1 < headerLen → ∃ n, u16At w pos = .ok n := fun pos hPos => by
    obtain ⟨n, hn⟩ := (u16At_noFault w pos).settles
    cases n with
    | some n => exact ⟨n, settle_eq_some.mp hn⟩
    | none =>
      have hLt : pos + 1 < w.length := by omega
      rw [u16At, get?_eq_ok.mpr (List.getElem?_eq_getElem (by omega)), ok_bind,
        get?_eq_ok.mpr (List.getElem?_eq_getElem hLt), ok_bind] at hn
      cases hn
  obtain ⟨questions, hQuestions⟩ := hCount 4 (by decide)
  obtain ⟨answers, hAnswers⟩ := hCount 6 (by decide)
  obtain ⟨authorities, hAuthorities⟩ := hCount 8 (by decide)
  obtain ⟨additionals, hAdditionals⟩ := hCount 10 (by decide)
  rw [settle_eq_some.mpr hQuestions, ok_bind, settle_eq_some.mpr hAnswers, ok_bind,
    settle_eq_some.mpr hAuthorities, ok_bind, settle_eq_some.mpr hAdditionals, ok_bind] at h
  obtain ⟨found, hFound, h⟩ := bind_eq_ok.mp h
  cases found with
  | none =>
    cases h
    exact ⟨.refl _ _, rfl⟩
  | some pos =>
    obtain ⟨hBelow, hWalk⟩ := ageRecords_walk h
    have hPos : headerLen ≤ pos := ageQuestions_le hFound
    have hHead : AgreeBelow headerLen w w' := hBelow.mono hPos
    have hU16 : ∀ i, i + 1 < headerLen → u16At w' i = u16At w i := fun i hi =>
      u16At_congr (hHead.same i (by omega)) (hHead.same (i + 1) hi)
    refine ⟨hHead, ?_⟩
    by_cases hOne : questions = 1
    · subst hOne
      have hSpan := questionSpan_of_ageQuestions (by omega) hQuestions hFound
      obtain ⟨-, -, stop, hSkip, hFits, hEq⟩ := questionSpan_eq_ok.mp hSpan
      cases hEq
      have hSpan' : questionSpan w' = .ok ⟨headerLen, stop + 4⟩ :=
        questionSpan_eq_ok.mpr ⟨by rw [hBelow.length]; omega, (hU16 4 (by decide)).trans hQuestions,
          stop, skipName_agreeBelow (hBelow.mono (by omega)) hSkip, by rw [hBelow.length]; omega, rfl⟩
      rw [optOf, optOf, hSpan, hSpan', ok_bind, ok_bind, findOpt, findOpt, hU16 6 (by decide),
        hU16 8 (by decide), hU16 10 (by decide), hAnswers, hAuthorities, hAdditionals]
      exact hWalk _ _ (by simp [Nat.add_assoc])
    · -- neither of the two is read at all
      have hNone : ∀ v : Bytes, u16At v 4 = .ok questions → v.length = w.length →
          optOf v = .error .none := fun v hv hLen => by
        rw [optOf, questionSpan, if_neg (by omega), hv, ok_bind, if_pos hOne]
        rfl
      rw [hNone w hQuestions rfl, hNone w' ((hU16 4 (by decide)).trans hQuestions) hBelow.length]

theorem findOptRecords_other {raw : Bytes} {sectionIdx : Nat} (hIdx : sectionIdx ≠ 2) :
    ∀ {count pos : Nat} {r : Nat ⊕ (Bool × Bool)},
      findOptRecords raw sectionIdx count pos = .ok r → ∃ stop, r = .inl stop := by
  intro count
  induction count with
  | zero =>
    intro pos r h
    cases h
    exact ⟨pos, rfl⟩
  | succ count ih =>
    intro pos r h
    rw [findOptRecords] at h
    obtain ⟨stop, -, h⟩ := bind_eq_ok.mp h
    obtain ⟨rtype, -, h⟩ := bind_eq_ok.mp h
    obtain ⟨rdlen, -, h⟩ := bind_eq_ok.mp h
    rw [if_neg fun hBoth => hIdx hBoth.1] at h
    split at h
    · cases h
    · exact ih h

/-- Without additional records there is no OPT record. -/
theorem not_carriesOpt_of_no_additionals {wire : Bytes} (h : u16At wire 10 = .ok 0) :
    ¬ CarriesOpt wire := by
  rintro ⟨dnssecOk, hOpt⟩
  rw [optOf] at hOpt
  obtain ⟨span, -, hOpt⟩ := bind_eq_ok.mp hOpt
  rw [findOpt] at hOpt
  obtain ⟨answers, -, hOpt⟩ := bind_eq_ok.mp hOpt
  obtain ⟨authorities, -, hOpt⟩ := bind_eq_ok.mp hOpt
  rw [h, ok_bind, findOptSections] at hOpt
  obtain ⟨r, hRecords, hOpt⟩ := bind_eq_ok.mp hOpt
  obtain ⟨stop, rfl⟩ := findOptRecords_other (by decide) hRecords
  dsimp only at hOpt
  rw [findOptSections] at hOpt
  obtain ⟨r, hRecords, hOpt⟩ := bind_eq_ok.mp hOpt
  obtain ⟨stop, rfl⟩ := findOptRecords_other (by decide) hRecords
  cases hOpt

end DnsRs.Wire
