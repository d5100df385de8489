import DnsRs.Wire.Layout
import DnsRs.Wire.Records

/-!
# Aging is a patch

On any bytes, well formed or not, `age_ttls` replaces the TTLs of the records that
`walk` finds, OPT apart, and nothing else; it returns `true` if the walk ends
(`ageTtls_patches`). Since the way of the walk does not lead through a TTL, the aged
bytes have the layout they had (`walk_patched`), and two agings make one
(`ageTtls_composes`).
-/

namespace DnsRs.Wire

open Lib

variable {w w' : Bytes} {f : Nat → Nat} {found : List RecordAt}

/-! ## TTL fields -/

/-- The fields of these records, with the TTLs `f` gives them. -/
def ttlPatches (f : Nat → Nat) (found : List RecordAt) : List (Nat × Bytes) :=
  (found.filter fun r => r.recordType ≠ optRecordType).map fun r => (r.ttlAt, be32 (f r.ttl))

theorem mem_ttlPatches {p : Nat × Bytes} :
    p ∈ ttlPatches f found ↔
      ∃ r ∈ found, r.recordType ≠ optRecordType ∧ p = (r.ttlAt, be32 (f r.ttl)) := by
  rw [ttlPatches, List.mem_map]
  constructor
  · rintro ⟨r, hr, rfl⟩
    obtain ⟨hMem, hType⟩ := List.mem_filter.mp hr
    exact ⟨r, hMem, of_decide_eq_true hType, rfl⟩
  · rintro ⟨r, hr, hType, rfl⟩
    exact ⟨r, List.mem_filter.mpr ⟨hr, decide_eq_true hType⟩, rfl⟩

/-- An offset in a patched field is one of a TTL. -/
theorem inField_ttlPatches {p : Nat × Bytes} (hp : p ∈ ttlPatches f found) {i : Nat}
    (hi : InField p i) : ∃ r ∈ found, r.recordType ≠ optRecordType ∧ r.InTtl i := by
  obtain ⟨r, hr, hType, rfl⟩ := mem_ttlPatches.mp hp
  rw [InField, length_be32] at hi
  exact ⟨r, hr, hType, hi⟩

theorem ttlPatches_cons (r : RecordAt) (found : List RecordAt) :
    ttlPatches f (r :: found) =
      if r.recordType ≠ optRecordType then (r.ttlAt, be32 (f r.ttl)) :: ttlPatches f found
      else ttlPatches f found := by
  rw [ttlPatches, List.filter_cons]
  by_cases h : r.recordType = optRecordType
  · simp [h, ttlPatches]
  · simp [h, ttlPatches]

/-! ## One record -/

/-- The buffer when the record has been given its new TTL. -/
def RecordAt.rewrite (f : Nat → Nat) (w : Bytes) (r : RecordAt) : Bytes :=
  if r.recordType ≠ optRecordType then writeAt w r.ttlAt (be32 (f r.ttl)) else w

theorem RecordAt.Found.fits {r : RecordAt} (h : r.Found w) :
    r.ttlAt + (be32 (f r.ttl)).length ≤ w.length := by
  rw [length_be32]
  exact h.bounds.2

theorem RecordAt.Found.rewrite_patches {r : RecordAt} (h : r.Found w) :
    Patched (ttlPatches f [r]) w (r.rewrite f w) := by
  rw [ttlPatches_cons, RecordAt.rewrite]
  split
  · exact patched_writeAt h.fits
  · exact Patched.refl fun p hp => absurd hp List.not_mem_nil

/-- Outside its TTL the record is what it was. -/
theorem RecordAt.Found.rewrite_same {r : RecordAt} (h : r.Found w) {i : Nat} (hi : ¬ r.InTtl i) :
    (r.rewrite f w)[i]? = w[i]? := by
  refine h.rewrite_patches.same i fun p hp hIn => hi ?_
  obtain ⟨s, hs, -, hTtl⟩ := inField_ttlPatches hp hIn
  obtain rfl := List.mem_singleton.mp hs
  exact hTtl

/-- A record whose TTL has the same bytes. -/
theorem RecordAt.Found.reread_eq {r : RecordAt} (h : r.Found w)
    (hSame : ∀ i, r.InTtl i → w'[i]? = w[i]?) : r.reread w' = r := by
  have hRead : readAt w' r.ttlAt 4 = readAt w r.ttlAt 4 :=
    readAt_congr fun i hi hi' => hSame i ⟨hi, hi'⟩
  rw [RecordAt.reread, hRead, ← h.ttl]

section Loop

variable (elapsedSecs : Nat) (forceZero : Bool)

/-- **One turn of the record loop**, in terms of the layout. -/
theorem ageRecords_step (count : Nat) (w : Bytes) (pos : Nat) :
    ageRecords elapsedSecs forceZero (count + 1) w pos =
      match recordAt w pos with
      | none => .ok (false, w)
      | some r =>
        match r.next w with
        | none => .ok (false, r.rewrite (agedTtl · elapsedSecs forceZero) w)
        | some next =>
          ageRecords elapsedSecs forceZero count (r.rewrite (agedTtl · elapsedSecs forceZero) w) next := by
  rw [ageRecords, (skipName_noFault w pos).settle_eq, ok_bind]
  cases hStop : (skipName w pos).toOption with
  | none =>
    rw [recordAt, hStop]
    rfl
  | some stop =>
    dsimp only
    rw [(u16At_noFault w stop).settle_eq, ok_bind]
    cases hType : (u16At w stop).toOption with
    | none =>
      rw [recordAt, hStop, Option.bind_eq_bind, Option.bind_some, hType]
      rfl
    | some recordType =>
      dsimp only
      rw [(getRange?_noFault w (stop + 4) (stop + 4 + 4)).settle_eq, ok_bind]
      cases hTtl : (getRange? w (stop + 4) (stop + 4 + 4)).toOption with
      | none =>
        simp only [recordAt, hStop, hType, hTtl, Option.bind_eq_bind, Option.bind_some]
        rfl
      | some ttl =>
        have hr : recordAt w pos =
            some ⟨pos, stop, recordType, ofBe ttl, (u16At w (stop + 8)).toOption⟩ := by
          simp only [recordAt, hStop, hType, hTtl, Option.bind_eq_bind, Option.bind_some]
          rfl
        rw [hr]
        set r : RecordAt := ⟨pos, stop, recordType, ofBe ttl, (u16At w (stop + 8)).toOption⟩ with hrDef
        have hFound := (recordAt_eq_some hr).2
        set w₁ := r.rewrite (agedTtl · elapsedSecs forceZero) w with hw₁
        have hWrite : rewriteTtl w (stop + 4) recordType ttl elapsedSecs forceZero = .ok w₁ := by
          have hOk := overwrite_eq_ok (hFound.fits (f := (agedTtl · elapsedSecs forceZero)))
          rw [length_be32] at hOk
          rw [rewriteTtl, hw₁, RecordAt.rewrite]
          by_cases hOther : recordType ≠ optRecordType
          · rw [if_pos hOther, if_pos hOther]
            exact hOk
          · rw [if_neg hOther, if_neg hOther]
        -- RDLENGTH is read behind the TTL just written
        have hRdlen : u16At w₁ (stop + 8) = u16At w (stop + 8) := by
          refine u16At_congr (hFound.rewrite_same ?_) (hFound.rewrite_same ?_)
          · rw [RecordAt.InTtl, RecordAt.ttlAt]
            show ¬ (stop + 4 ≤ stop + 8 ∧ stop + 8 < stop + 4 + 4)
            omega
          · rw [RecordAt.InTtl, RecordAt.ttlAt]
            show ¬ (stop + 4 ≤ stop + 8 + 1 ∧ stop + 8 + 1 < stop + 4 + 4)
            omega
        have hLen : w₁.length = w.length := hFound.rewrite_patches.length
        dsimp only
        rw [hWrite, ok_bind, (u16At_noFault w₁ (stop + 8)).settle_eq, ok_bind, hRdlen, hLen,
          RecordAt.next, hrDef]
        dsimp only
        cases (u16At w (stop + 8)).toOption with
        | none => rfl
        | some rdlen =>
          dsimp only
          split
          · rfl
          · rfl

/-- **The record loop.** The TTLs of the records found are replaced, and the loop
returns `true` if the walk ends. -/
theorem ageRecords_patches : ∀ (count : Nat) (w : Bytes) (pos : Nat), ∃ w',
    ageRecords elapsedSecs forceZero count w pos =
      .ok ((walkRecords w count pos).ends.isSome, w') ∧
    Patched (ttlPatches (agedTtl · elapsedSecs forceZero) (walkRecords w count pos).found) w w' := by
  intro count
  induction count with
  | zero => exact fun w pos => ⟨w, rfl, Patched.refl fun p hp => absurd hp List.not_mem_nil⟩
  | succ count ih =>
    intro w pos
    rw [ageRecords_step, walkRecords]
    cases hr : recordAt w pos with
    | none => exact ⟨w, rfl, Patched.refl fun p hp => absurd hp List.not_mem_nil⟩
    | some r =>
      obtain ⟨rfl, hFound⟩ := recordAt_eq_some hr
      -- the rest of the loop runs on `w₁`, where the first TTL has been replaced
      have hFirst := hFound.rewrite_patches (f := (agedTtl · elapsedSecs forceZero))
      set w₁ := r.rewrite (agedTtl · elapsedSecs forceZero) w with hw₁
      dsimp only
      cases hNext : r.next w with
      | none => exact ⟨w₁, rfl, hFirst⟩
      | some next =>
        dsimp only
        have hBehind := (RecordAt.next_bounds hNext).1
        have hSeparate : (walkRecords w count next).Separate w next := walkRecords_separate
        -- what is found behind the record is found there after the write as well
        have hWalk : walkRecords w₁ count next = walkRecords w count next := by
          have hSame : ∀ i, next ≤ i → w₁[i]? = w[i]? := fun i hi => hFound.rewrite_same (by
            rw [RecordAt.InTtl, RecordAt.ttlAt]
            omega)
          rw [walkRecords_congr hFirst.length fun i hi => hSame i (hSeparate.reads_ge i hi),
            Walked.reread]
          have hTtls : (walkRecords w count next).found.map (RecordAt.reread w₁) =
              (walkRecords w count next).found := by
            refine (List.map_congr_left fun s hs => ?_).trans (List.map_id _)
            obtain ⟨hFound', hGe⟩ := hSeparate.found s hs
            have hLt := hFound'.bounds.1
            refine hFound'.reread_eq fun i hi => hSame i ?_
            rw [RecordAt.InTtl, RecordAt.ttlAt] at hi
            omega
          rw [hTtls]
        obtain ⟨w', hRun, hRest⟩ := ih w₁ next
        rw [hWalk] at hRun hRest
        refine ⟨w', hRun, ?_⟩
        rw [ttlPatches_cons] at hFirst ⊢
        split at hFirst
        · rename_i hType
          rw [if_pos hType]
          -- later TTLs are behind this one
          refine hFirst.cons hRest fun p hp i hi hIn => ?_
          obtain ⟨s, hs, -, hTtl⟩ := inField_ttlPatches hp hIn
          obtain ⟨hFound', hGe⟩ := hSeparate.found s hs
          have hLt := hFound'.bounds.1
          rw [InField, length_be32] at hi
          rw [RecordAt.InTtl] at hTtl
          simp only [RecordAt.ttlAt] at hi hTtl
          omega
        · -- OPT is left alone
          rename_i hType
          have hSame : w₁ = w := by
            rw [hw₁, RecordAt.rewrite, if_neg hType]
          rw [hSame] at hRest
          rw [if_neg hType]
          exact hRest

end Loop

/-! ## Whole messages -/

theorem ageQuestions_eq (w : Bytes) : ∀ (count pos : Nat),
    ageQuestions w count pos = .ok (walkQuestions w count pos).ends := by
  intro count
  induction count with
  | zero => exact fun _ => rfl
  | succ count ih =>
    intro pos
    rw [ageQuestions, walkQuestions, (skipName_noFault w pos).settle_eq, ok_bind]
    cases (skipName w pos).toOption with
    | none => rfl
    | some stop =>
      dsimp only
      split
      · rfl
      · exact ih _

/-- **Aging a message** replaces the TTLs of its records; `true` is returned if the
walk over them ends. -/
theorem ageTtls_patches (w : Bytes) (elapsedSecs : Nat) (forceZero : Bool) : ∃ w',
    ageTtls w elapsedSecs forceZero = .ok ((walk w).ends.isSome, w') ∧
    Patched (ttlPatches (agedTtl · elapsedSecs forceZero) (walk w).found) w w' := by
  have hNone : Patched (ttlPatches (agedTtl · elapsedSecs forceZero) []) w w :=
    Patched.refl fun p hp => absurd hp List.not_mem_nil
  rw [ageTtls, walk]
  split
  · exact ⟨w, rfl, hNone⟩
  · rename_i hHeader
    have hCount : ∀ n, n + 2 ≤ 12 → settle (u16At w n) = .ok (some (countAt w n)) := fun n hn => by
      rw [headerLen] at hHeader
      exact settle_eq_some.mpr (u16At_eq_readAt (by omega))
    rw [hCount 4 (by omega), ok_bind, hCount 6 (by omega), ok_bind, hCount 8 (by omega), ok_bind,
      hCount 10 (by omega), ok_bind]
    dsimp only
    rw [ageQuestions_eq, ok_bind]
    cases (walkQuestions w (countAt w 4) headerLen).ends with
    | none => exact ⟨w, rfl, hNone⟩
    | some pos => exact ageRecords_patches elapsedSecs forceZero _ w pos

/-- What is known of an aging that was run. -/
theorem patched_of_ageTtls {elapsedSecs : Nat} {forceZero done : Bool}
    (h : ageTtls w elapsedSecs forceZero = .ok (done, w')) :
    (walk w).ends.isSome = done ∧
      Patched (ttlPatches (agedTtl · elapsedSecs forceZero) (walk w).found) w w' := by
  obtain ⟨w'', hRun, hPatched⟩ := ageTtls_patches w elapsedSecs forceZero
  rw [h] at hRun
  cases hRun
  exact ⟨rfl, hPatched⟩

/-- A record with another TTL; OPT has none. -/
def RecordAt.mapTtl (f : Nat → Nat) (r : RecordAt) : RecordAt :=
  if r.recordType ≠ optRecordType then { r with ttl := f r.ttl } else r

def Walked.mapTtl (f : Nat → Nat) (v : Walked) : Walked :=
  { v with found := v.found.map (RecordAt.mapTtl f) }

/-- TTLs of different records do not overlap. -/
theorem Walked.Separate.ttl_unique {v : Walked} {pos : Nat} (h : v.Separate w pos) {r s : RecordAt}
    (hr : r ∈ v.found) (hs : s ∈ v.found) {i : Nat} (hri : r.InTtl i) (hsi : s.InTtl i) : r = s := by
  have hLater : ∀ {r s : RecordAt}, s ∈ v.found → r.stop + 10 ≤ s.start → r.InTtl i → s.InTtl i →
      False := by
    intro r s hs hOrder hri hsi
    have hLt := (h.found s hs).1.bounds.1
    simp only [RecordAt.InTtl, RecordAt.ttlAt] at hri hsi
    omega
  -- of two different records one is behind the other
  have hOrder : r ≠ s → r.stop + 10 ≤ s.start ∨ s.stop + 10 ≤ r.start :=
    List.Pairwise.forall_of_forall_of_flip
      (R := fun r s => r ≠ s → r.stop + 10 ≤ s.start ∨ s.stop + 10 ≤ r.start)
      (fun r _ hne => absurd rfl hne) (h.ttls.imp fun hOrder _ => .inl hOrder)
      (h.ttls.imp fun hOrder _ => .inr hOrder) hr hs
  by_contra hne
  rcases hOrder hne with hOrder | hOrder
  · exact hLater hs hOrder hri hsi
  · exact hLater hr hOrder hsi hri

/-- **The layout after a patch** is the layout before it, with the new TTLs. -/
theorem walk_patched (hf : ∀ ttl < 2 ^ 32, f ttl < 2 ^ 32)
    (h : Patched (ttlPatches f (walk w).found) w w') : walk w' = (walk w).mapTtl f := by
  have hSeparate := walk_separate w
  have hReads : ∀ i ∈ (walk w).reads, w'[i]? = w[i]? := fun i hi => h.same i fun p hp hIn => by
    obtain ⟨r, hr, -, hTtl⟩ := inField_ttlPatches hp hIn
    exact hSeparate.reads i hi r hr hTtl
  rw [walk_congr h.length hReads, Walked.reread, Walked.mapTtl]
  congr 1
  refine List.map_congr_left fun r hr => ?_
  have hFound := (hSeparate.found r hr).1
  rw [RecordAt.mapTtl]
  by_cases hType : r.recordType ≠ optRecordType
  · -- the new TTL stands in the field
    have hStands := h.stands _ (mem_ttlPatches.mpr ⟨r, hr, hType, rfl⟩)
    have hRead := hStands.readAt
    rw [length_be32] at hRead
    have hSmall : r.ttl < 2 ^ 32 := by
      have hLt := ofBe_lt (readAt w r.ttlAt 4)
      rw [length_readAt hFound.bounds.2, ← hFound.ttl] at hLt
      exact hLt
    rw [if_pos hType, RecordAt.reread, hRead, ofBe_be32 (hf _ hSmall)]
  · -- the field of an OPT record is in nobody's TTL
    rw [if_neg hType]
    refine hFound.reread_eq fun i hi => h.same i fun p hp hIn => hType ?_
    obtain ⟨s, hs, hOther, hTtl⟩ := inField_ttlPatches hp hIn
    exact hSeparate.ttl_unique hr hs hi hTtl ▸ hOther

/-- A patch of TTLs leaves the counts of the header alone. -/
theorem countAt_patched (h : Patched (ttlPatches f (walk w).found) w w')
    (hHeader : headerLen ≤ w.length) {pos : Nat} (hPos : 4 ≤ pos ∧ pos + 2 ≤ 12) :
    countAt w' pos = countAt w pos := by
  rw [countAt, countAt, readAt_congr fun i hi hi' => h.same i fun p hp hIn => ?_]
  obtain ⟨r, hr, -, hTtl⟩ := inField_ttlPatches hp hIn
  exact (walk_separate w).reads _ (mem_walk_reads hHeader (by omega)) r hr hTtl

/-- A patch of TTLs leaves RDATA alone. -/
theorem readAt_rdata_patched (h : Patched (ttlPatches f (walk w).found) w w') {r : RecordAt}
    (hr : r ∈ (walk w).found) :
    readAt w' (r.stop + 10) (r.rdlen.getD 0) = readAt w (r.stop + 10) (r.rdlen.getD 0) := by
  cases hRdlen : r.rdlen with
  | none => rfl
  | some rdlen =>
    refine readAt_congr fun i hi hi' => h.same i fun p hp hIn => ?_
    obtain ⟨s, hs, -, hTtl⟩ := inField_ttlPatches hp hIn
    exact walk_rdata_not_inTtl hr hs hRdlen ⟨hi, hi'⟩ hTtl

/-- A patch that changes no TTL changes nothing. -/
theorem eq_of_patched (h : Patched (ttlPatches f (walk w).found) w w')
    (hKeep : ∀ r ∈ (walk w).found, r.recordType ≠ optRecordType → f r.ttl = r.ttl) : w' = w := by
  refine h.unique (Patched.refl fun p hp => ?_)
  obtain ⟨r, hr, hType, rfl⟩ := mem_ttlPatches.mp hp
  obtain ⟨hTtl, hInside⟩ := walk_ttl hr
  rw [hKeep r hr hType, hTtl, be32_ofBe (length_readAt hInside)]
  exact stands_readAt w r.ttlAt 4

/-! ## Aging and aging again -/

theorem agedTtl_le (ttl elapsedSecs : Nat) (forceZero : Bool) :
    agedTtl ttl elapsedSecs forceZero ≤ ttl := by
  cases forceZero with
  | true => exact Nat.zero_le ttl
  | false => exact Nat.sub_le ttl elapsedSecs

/-- What an aging does, in terms of the layout. -/
theorem ageTtls_layout {elapsedSecs : Nat} {forceZero : Bool}
    (h : Patched (ttlPatches (agedTtl · elapsedSecs forceZero) (walk w).found) w w') :
    walk w' = (walk w).mapTtl (agedTtl · elapsedSecs forceZero) :=
  walk_patched (fun ttl hTtl => Nat.lt_of_le_of_lt (agedTtl_le ttl _ _) hTtl) h

/-- An aging that fails leaves the bytes alone exactly if it reaches no TTL that it
changes. -/
theorem ageTtls_unchanged_iff {elapsedSecs : Nat} {forceZero : Bool} :
    (∀ w', ageTtls w elapsedSecs forceZero = .ok (false, w') → w' = w) ↔
      ((walk w).ends = none → ∀ r ∈ (walk w).found, r.recordType ≠ optRecordType →
        agedTtl r.ttl elapsedSecs forceZero = r.ttl) := by
  obtain ⟨w', hRun, hPatched⟩ := ageTtls_patches w elapsedSecs forceZero
  constructor
  · intro hSame hEnds r hr hType
    rw [hEnds] at hRun
    rw [hSame w' hRun] at hPatched
    -- the layout of the same bytes is the same, and the aging has its own TTLs in it
    have hFound : (walk w).found = (walk w).found.map (RecordAt.mapTtl (agedTtl · elapsedSecs forceZero)) :=
      congrArg Walked.found (ageTtls_layout hPatched)
    have hSelf := List.map_inj_left.mp ((List.map_id _).trans hFound) r hr
    rw [id, RecordAt.mapTtl, if_pos hType] at hSelf
    exact (congrArg RecordAt.ttl hSelf).symm
  · intro hKeep w'' hFails
    rw [hFails, Except.ok.injEq, Prod.mk.injEq] at hRun
    obtain ⟨hEnds, rfl⟩ := hRun
    exact eq_of_patched hPatched (hKeep (Option.not_isSome_iff_eq_none.mp (by simp [← hEnds])))

theorem ttlPatches_map (g f : Nat → Nat) (found : List RecordAt) :
    ttlPatches g (found.map (RecordAt.mapTtl f)) = ttlPatches (fun ttl => g (f ttl)) found := by
  induction found with
  | nil => rfl
  | cons r found ih =>
    rw [List.map_cons, ttlPatches_cons, ttlPatches_cons, ih, RecordAt.mapTtl]
    by_cases hType : r.recordType ≠ optRecordType
    · rw [if_pos hType, if_pos hType, if_pos hType]
      rfl
    · rw [if_neg hType, if_neg hType, if_neg hType]

/-- The bytes an aging leaves are aged again, whatever it has returned. -/
def ageAgain (first : Except Fault (Bool × Bytes)) (elapsedSecs : Nat) (forceZero : Bool) :
    Except Fault (Bool × Bytes) := do
  let (_, wire) ← first
  ageTtls wire elapsedSecs forceZero

/-- **Two agings make one**, if they do for every TTL. -/
theorem ageAgain_eq {e₁ e₂ e : Nat} {z₁ z₂ z : Bool}
    (hTtl : ∀ ttl, agedTtl (agedTtl ttl e₁ z₁) e₂ z₂ = agedTtl ttl e z) :
    ageAgain (ageTtls w e₁ z₁) e₂ z₂ = ageTtls w e z := by
  obtain ⟨w₁, hRun₁, h₁⟩ := ageTtls_patches w e₁ z₁
  obtain ⟨w₂, hRun₂, h₂⟩ := ageTtls_patches w₁ e₂ z₂
  obtain ⟨w₃, hRun, h⟩ := ageTtls_patches w e z
  -- the second one meets the layout that the first has met
  rw [ageTtls_layout h₁] at hRun₂ h₂
  rw [Walked.mapTtl, ttlPatches_map, funext hTtl] at h₂
  have hBoth := h₁.trans h₂ (by
    intro p hp
    obtain ⟨r, hr, hType, rfl⟩ := mem_ttlPatches.mp hp
    exact ⟨_, mem_ttlPatches.mpr ⟨r, hr, hType, rfl⟩, rfl, by rw [length_be32, length_be32]⟩)
  rw [ageAgain, hRun₁, ok_bind]
  dsimp only
  rw [hRun₂, hRun, hBoth.unique h]
  rfl

/-- What is known of the bytes that an aging leaves. -/
structure Ages (w : Bytes) (elapsedSecs : Nat) (forceZero : Bool) (w' : Bytes) : Prop where
  returns : ageTtls w elapsedSecs forceZero = .ok ((walk w).ends.isSome, w')
  length : w'.length = w.length
  /-- the same records at the same places, each with its TTL aged -/
  layout : walk w' = (walk w).mapTtl (agedTtl · elapsedSecs forceZero)
  /-- nothing is written outside of the TTLs -/
  written : ∀ i, w'[i]? ≠ w[i]? →
    ∃ r ∈ (walk w).found, r.recordType ≠ optRecordType ∧ r.InTtl i

/-- **Aging composes on arbitrary bytes.** What the walk reads tells it its way, and is
never what an aging writes. -/
theorem ageTtls_composes (w : Bytes) :
    (∀ e z, ∃ w', Ages w e z w') ∧
    (∀ e₁ e₂, ageAgain (ageTtls w e₁ false) e₂ false = ageTtls w (e₁ + e₂) false) ∧
    (∀ e₁ e₂ e z, ageAgain (ageTtls w e₁ z) e₂ true = ageTtls w e true ∧
      ageAgain (ageTtls w e₁ true) e₂ z = ageTtls w e true) ∧
    (∀ i ∈ (walk w).reads, ∀ r ∈ (walk w).found, ¬ r.InTtl i) ∧
    ∀ b : Bytes, b.length = w.length → (∀ i ∈ (walk w).reads, b[i]? = w[i]?) →
      walk b = (walk w).reread b := by
  refine ⟨fun e z => ?_, fun e₁ e₂ => ageAgain_eq fun ttl => Nat.sub_sub ttl e₁ e₂,
    fun e₁ e₂ e z => ⟨ageAgain_eq fun ttl => rfl, ageAgain_eq fun ttl => ?_⟩,
    (walk_separate w).reads, fun b hLen hSame => walk_congr hLen hSame⟩
  · obtain ⟨w', hRun, h⟩ := ageTtls_patches w e z
    refine ⟨w', hRun, h.length, ageTtls_layout h, fun i hi => ?_⟩
    by_contra hNot
    refine hi (h.same i fun p hp hIn => hNot ?_)
    exact inField_ttlPatches hp hIn
  · cases z with
    | true => rfl
    | false => exact Nat.zero_sub e₂

end DnsRs.Wire
