import DnsRs.Wire.Question

/-!
# Aging always returns

`age_ttls` is run on whatever an upstream sent. It never panics and never
loops, and it only writes inside the buffer: `ageTtls_total`.
-/

namespace DnsRs.Wire

open Lib

theorem length_be32 (n : Nat) : (be32 n).length = 4 := by
  simp [be32]

theorem ageQuestions_total (wire : Bytes) :
    ∀ (count pos : Nat), ∃ r, ageQuestions wire count pos = .ok r := by
  intro count
  induction count with
  | zero => exact fun pos => ⟨_, rfl⟩
  | succ count ih =>
    intro pos
    rw [ageQuestions]
    rcases (skipName_noFault wire pos).settle with hNone | ⟨stop, -, hSome⟩
    · rw [hNone, ok_bind]
      exact ⟨_, rfl⟩
    · rw [hSome, ok_bind]
      dsimp only
      split
      · exact ⟨_, rfl⟩
      · exact ih _

/-- A TTL that was read can be written back. -/
theorem rewriteTtl_total {wire ttlBytes : Bytes} {ttlAt : Nat}
    (h : getRange? wire ttlAt (ttlAt + 4) = .ok ttlBytes) (recordType elapsedSecs : Nat)
    (forceZero : Bool) :
    ∃ wire', rewriteTtl wire ttlAt recordType ttlBytes elapsedSecs forceZero = .ok wire' ∧
      wire'.length = wire.length := by
  obtain ⟨⟨-, hStop⟩, -⟩ := getRange?_eq_ok.mp h
  rw [rewriteTtl]
  split
  · have hFits : ttlAt + (be32 (agedTtl (ofBe ttlBytes) elapsedSecs forceZero)).length ≤
        wire.length := by
      rw [length_be32]
      exact hStop
    have hWrite := overwrite_eq_ok hFits
    rw [length_be32] at hWrite
    exact ⟨_, hWrite, length_writeAt hFits⟩
  · exact ⟨wire, rfl, rfl⟩

theorem ageRecords_total (elapsedSecs : Nat) (forceZero : Bool) :
    ∀ (count : Nat) (wire : Bytes) (pos : Nat), ∃ done wire',
      ageRecords elapsedSecs forceZero count wire pos = .ok (done, wire') ∧
        wire'.length = wire.length := by
  intro count
  induction count with
  | zero => exact fun wire pos => ⟨true, wire, rfl, rfl⟩
  | succ count ih =>
    intro wire pos
    rw [ageRecords]
    rcases (skipName_noFault wire pos).settle with hNone | ⟨pos, -, hSome⟩
    · rw [hNone, ok_bind]
      exact ⟨_, _, rfl, rfl⟩
    rw [hSome, ok_bind]
    dsimp only
    rcases (u16At_noFault wire pos).settle with hNone | ⟨recordType, -, hSome⟩
    · rw [hNone, ok_bind]
      exact ⟨_, _, rfl, rfl⟩
    rw [hSome, ok_bind]
    dsimp only
    rcases (getRange?_noFault wire (pos + 4) (pos + 4 + 4)).settle with
      hNone | ⟨ttlBytes, hRange, hSome⟩
    · rw [hNone, ok_bind]
      exact ⟨_, _, rfl, rfl⟩
    rw [hSome, ok_bind]
    dsimp only
    obtain ⟨wire₁, hWrite, hLen⟩ := rewriteTtl_total hRange recordType elapsedSecs forceZero
    -- the length is that of before, so the rest is again about `wire₁`
    rw [hWrite, ok_bind, ← hLen]
    rcases (u16At_noFault wire₁ (pos + 8)).settle with hNone | ⟨rdlen, -, hSome⟩
    · rw [hNone, ok_bind]
      exact ⟨_, _, rfl, rfl⟩
    rw [hSome, ok_bind]
    dsimp only
    split
    · exact ⟨_, _, rfl, rfl⟩
    · exact ih wire₁ _

/-- **Aging is total.** It returns for every buffer and keeps its length. -/
theorem ageTtls_total (wire : Bytes) (elapsedSecs : Nat) (forceZero : Bool) :
    ∃ done wire', ageTtls wire elapsedSecs forceZero = .ok (done, wire') ∧
      wire'.length = wire.length := by
  rw [ageTtls]
  split
  · exact ⟨_, _, rfl, rfl⟩
  · obtain ⟨questions, hQuestions⟩ := (u16At_noFault wire 4).settles
    obtain ⟨answers, hAnswers⟩ := (u16At_noFault wire 6).settles
    obtain ⟨authorities, hAuthorities⟩ := (u16At_noFault wire 8).settles
    obtain ⟨additionals, hAdditionals⟩ := (u16At_noFault wire 10).settles
    rw [hQuestions, ok_bind, hAnswers, ok_bind, hAuthorities, ok_bind, hAdditionals, ok_bind]
    split
    · rename_i count _ _ _
      obtain ⟨pos, hPos⟩ := ageQuestions_total wire count headerLen
      rw [hPos, ok_bind]
      cases pos with
      -- a question that cannot be skipped leaves the copy as it is
      | none => exact ⟨_, _, rfl, rfl⟩
      | some pos => exact ageRecords_total elapsedSecs forceZero _ wire pos
    · exact ⟨_, _, rfl, rfl⟩

end DnsRs.Wire
