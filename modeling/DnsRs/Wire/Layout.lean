import DnsRs.Lib.Patch
import DnsRs.Wire.Walk

/-!
# The layout of a message

`age_ttls` is run on whatever an upstream has sent. `walk` says what it comes across
in any bytes at all: the records it reaches, and every offset at which it looks for
its way (a count of the header, a length byte of a name, a type, an RDLENGTH).

Three facts about layouts carry everything that is said of `age_ttls`:

* the way does not lead through a TTL: no TTL field of a record holds an offset that is
  read, nor any part of another TTL field (`walk_separate`);
* the way depends on what is read and on nothing else: in a buffer of the same length
  that agrees at the offsets read, the same records are found, with the TTLs that
  buffer has (`walk_congr`);
* a TTL is four bytes of the buffer (`walk_ttl`).
-/

namespace DnsRs.Wire

open Lib

variable {raw a b : Bytes} {pos count : Nat}

/-! ## Records -/

/-- A record as a walk comes across it. -/
structure RecordAt where
  /-- where its name starts -/
  start : Nat
  /-- where its name ends and its type stands -/
  stop : Nat
  recordType : Nat
  ttl : Nat
  /-- RDLENGTH, unless the message ends before it -/
  rdlen : Option Nat
  deriving DecidableEq, Repr

/-- Where the TTL stands. -/
def RecordAt.ttlAt (r : RecordAt) : Nat := r.stop + 4

/-- The record has this offset in its TTL. -/
def RecordAt.InTtl (r : RecordAt) (i : Nat) : Prop := r.ttlAt ≤ i ∧ i < r.ttlAt + 4

/-- The record whose name starts at `pos`, if the message reaches behind its TTL. -/
def recordAt (raw : Bytes) (pos : Nat) : Option RecordAt := do
  let stop ← (skipName raw pos).toOption
  let recordType ← (u16At raw stop).toOption
  let ttl ← (getRange? raw (stop + 4) (stop + 4 + 4)).toOption
  return ⟨pos, stop, recordType, ofBe ttl, (u16At raw (stop + 8)).toOption⟩

/-- Where the next record starts, if the message reaches as far. -/
def RecordAt.next (raw : Bytes) (r : RecordAt) : Option Nat :=
  match r.rdlen with
  | none => none
  | some rdlen => if r.stop + 10 + rdlen > raw.length then none else some (r.stop + 10 + rdlen)

/-- The parts of a record. -/
structure RecordView where
  owner : Bytes
  recordType : Nat
  dnsClass : Nat
  ttl : Nat
  rdata : Bytes
  deriving DecidableEq, Repr

def RecordAt.view (raw : Bytes) (r : RecordAt) : RecordView :=
  ⟨readAt raw r.start (r.stop - r.start), r.recordType, ofBe (readAt raw (r.stop + 2) 2), r.ttl,
    readAt raw (r.stop + 10) (r.rdlen.getD 0)⟩

/-- The length bytes `skip_name` looks at. -/
def nameReadsFrom (raw : Bytes) : Nat → Nat → List Nat
  | 0, _ => []
  | fuel + 1, pos =>
    match raw[pos]? with
    | none => [pos]
    | some len =>
      -- a pointer, a length that is none, or the root: the name goes no further
      if len &&& 0xc0 ≠ 0 ∨ len = 0 then [pos]
      else pos :: nameReadsFrom raw fuel (pos + 1 + len.toNat)

def nameReads (raw : Bytes) (pos : Nat) : List Nat := nameReadsFrom raw (raw.length + 1) pos

/-- The offsets looked at to get past a record. -/
def recordReads (raw : Bytes) (pos : Nat) : List Nat :=
  match (skipName raw pos).toOption with
  | none => nameReads raw pos
  -- type and RDLENGTH; class, TTL and RDATA do not tell the way
  | some stop => nameReads raw pos ++ [stop, stop + 1, stop + 8, stop + 9]

/-! ## Walks -/

structure Walked where
  /-- the records, as far as their TTL is reached -/
  found : List RecordAt
  /-- the offsets that were looked at -/
  reads : List Nat
  /-- where the walk ends, if it does not break off -/
  ends : Option Nat
  deriving DecidableEq, Repr

def walkRecords (raw : Bytes) : Nat → Nat → Walked
  | 0, pos => ⟨[], [], some pos⟩
  | count + 1, pos =>
    match recordAt raw pos with
    | none => ⟨[], recordReads raw pos, none⟩
    | some r =>
      match r.next raw with
      -- the TTL is there, but the message ends within the record
      | none => ⟨[r], recordReads raw pos, none⟩
      | some next =>
        ⟨r :: (walkRecords raw count next).found,
          recordReads raw pos ++ (walkRecords raw count next).reads,
          (walkRecords raw count next).ends⟩

def walkQuestions (raw : Bytes) : Nat → Nat → Walked
  | 0, pos => ⟨[], [], some pos⟩
  | count + 1, pos =>
    match (skipName raw pos).toOption with
    | none => ⟨[], nameReads raw pos, none⟩
    | some stop =>
      if stop + 4 > raw.length then ⟨[], nameReads raw pos, none⟩
      else
        ⟨[], nameReads raw pos ++ (walkQuestions raw count (stop + 4)).reads,
          (walkQuestions raw count (stop + 4)).ends⟩

/-- A count of the header. -/
def countAt (raw : Bytes) (pos : Nat) : Nat := ofBe (readAt raw pos 2)

/-- The walk over a whole message. -/
def walk (raw : Bytes) : Walked :=
  if raw.length < headerLen then ⟨[], [], none⟩
  else
    -- the four counts are read first, at offsets 4 to 11
    let questions := walkQuestions raw (countAt raw 4) headerLen
    match questions.ends with
    | none => ⟨[], List.range' 4 8 ++ questions.reads, none⟩
    | some pos =>
      let records := walkRecords raw (countAt raw 6 + countAt raw 8 + countAt raw 10) pos
      ⟨records.found, List.range' 4 8 ++ questions.reads ++ records.reads, records.ends⟩

/-! ## Where things are -/

/-- What is known of a record that was found. -/
structure RecordAt.Found (raw : Bytes) (r : RecordAt) : Prop where
  name : skipName raw r.start = .ok r.stop
  recordType : u16At raw r.stop = .ok r.recordType
  range : getRange? raw (r.stop + 4) (r.stop + 4 + 4) = .ok (readAt raw r.ttlAt 4)
  ttl : r.ttl = ofBe (readAt raw r.ttlAt 4)
  rdlen : r.rdlen = (u16At raw (r.stop + 8)).toOption

theorem recordAt_eq_some {r : RecordAt} (h : recordAt raw pos = some r) :
    r.start = pos ∧ r.Found raw := by
  simp only [recordAt, Option.bind_eq_bind, Option.bind_eq_some_iff, toOption_eq_some] at h
  obtain ⟨stop, hStop, recordType, hType, ttl, hTtl, h⟩ := h
  cases h
  have hRead := (getRange?_eq_ok.mp hTtl).2
  rw [Nat.add_sub_cancel_left] at hRead
  subst hRead
  exact ⟨rfl, hStop, hType, hTtl, rfl, rfl⟩

theorem RecordAt.Found.bounds {r : RecordAt} (h : r.Found raw) :
    r.start < r.stop ∧ r.ttlAt + 4 ≤ raw.length :=
  ⟨(skipName_bounds h.name).1, (getRange?_eq_ok.mp h.range).1.2⟩

theorem RecordAt.next_bounds {r : RecordAt} {next : Nat} (h : r.next raw = some next) :
    r.stop + 10 ≤ next ∧ next ≤ raw.length := by
  rw [RecordAt.next] at h
  split at h
  · cases h
  · split at h
    · cases h
    · cases h
      omega

/-- Names are read from their start on, and not behind their end. -/
theorem nameReadsFrom_bounds : ∀ {fuel pos i : Nat}, i ∈ nameReadsFrom raw fuel pos →
    pos ≤ i ∧ ∀ stop, skipNameFrom raw fuel pos = .ok stop → i < stop := by
  intro fuel
  induction fuel with
  | zero => exact fun hi => absurd hi (List.not_mem_nil)
  | succ fuel ih =>
    intro pos i hi
    -- whatever is read first is the start, and every name has a byte
    have hFirst : i = pos → pos ≤ i ∧
        ∀ stop, skipNameFrom raw (fuel + 1) pos = .ok stop → i < stop := by
      rintro rfl
      exact ⟨Nat.le_refl _, fun stop hStop => (skipNameFrom_bounds hStop).1⟩
    rw [nameReadsFrom] at hi
    split at hi
    · exact hFirst (List.mem_singleton.mp hi)
    · rename_i len hLen
      split at hi
      · exact hFirst (List.mem_singleton.mp hi)
      · rename_i hLabel
        rcases List.mem_cons.mp hi with hi | hi
        · exact hFirst hi
        · obtain ⟨hLe, hStop⟩ := ih hi
          rw [not_or, not_not] at hLabel
          refine ⟨by omega, fun stop hSkip => hStop stop ?_⟩
          rw [skipNameFrom, get?_eq_ok.mpr hLen, ok_bind, if_neg (by rw [hLabel.1]; decide),
            if_neg (not_not.mpr hLabel.1), if_neg hLabel.2] at hSkip
          exact hSkip

theorem nameReads_bounds {i : Nat} (hi : i ∈ nameReads raw pos) :
    pos ≤ i ∧ ∀ stop, skipName raw pos = .ok stop → i < stop :=
  nameReadsFrom_bounds hi

theorem recordReads_ge {i : Nat} (hi : i ∈ recordReads raw pos) : pos ≤ i := by
  rw [recordReads] at hi
  split at hi
  · exact (nameReads_bounds hi).1
  · rename_i stop hStop
    have hLt := (skipName_bounds (toOption_eq_some.mp hStop)).1
    rcases List.mem_append.mp hi with hi | hi
    · exact (nameReads_bounds hi).1
    · simp only [List.mem_cons, List.not_mem_nil, or_false] at hi
      omega

/-- The reads for a record keep away from its TTL and end where the next one starts. -/
theorem RecordAt.Found.reads {r : RecordAt} (h : r.Found raw) {i : Nat}
    (hi : i ∈ recordReads raw r.start) : ¬ r.InTtl i ∧ i < r.stop + 10 := by
  rw [recordReads, toOption_eq_some.mpr h.name] at hi
  dsimp only at hi
  rw [RecordAt.InTtl, RecordAt.ttlAt]
  rcases List.mem_append.mp hi with hi | hi
  · have hLt := (nameReads_bounds hi).2 r.stop h.name
    omega
  · simp only [List.mem_cons, List.not_mem_nil, or_false] at hi
    omega

/-- The facts about a walk from `pos` on. -/
structure Walked.Separate (w : Walked) (raw : Bytes) (pos : Nat) : Prop where
  found : ∀ r ∈ w.found, r.Found raw ∧ pos ≤ r.start
  reads_ge : ∀ i ∈ w.reads, pos ≤ i
  /-- no offset that is read lies in a TTL -/
  reads : ∀ i ∈ w.reads, ∀ r ∈ w.found, ¬ r.InTtl i
  /-- no two TTLs overlap -/
  ttls : w.found.Pairwise fun r s => r.stop + 10 ≤ s.start

theorem walkRecords_separate : ∀ {count pos : Nat},
    (walkRecords raw count pos).Separate raw pos := by
  intro count
  induction count with
  | zero =>
    intro pos
    exact ⟨by simp [walkRecords], by simp [walkRecords], by simp [walkRecords], by simp [walkRecords]⟩
  | succ count ih =>
    intro pos
    rw [walkRecords]
    split
    · exact ⟨by simp, fun i hi => recordReads_ge hi, by simp, by simp⟩
    · rename_i r hr
      obtain ⟨rfl, hFound⟩ := recordAt_eq_some hr
      have hLt := hFound.bounds.1
      split
      · refine ⟨?_, fun i hi => recordReads_ge hi, ?_, by simp⟩
        · intro s hs
          obtain rfl := List.mem_singleton.mp hs
          exact ⟨hFound, Nat.le_refl _⟩
        · intro i hi s hs
          obtain rfl := List.mem_singleton.mp hs
          exact (hFound.reads hi).1
      · rename_i next hNext
        have hNext := (RecordAt.next_bounds hNext).1
        -- the reads for this record end before `next`, and the rest starts there
        have hRest : (walkRecords raw count next).Separate raw next := ih
        constructor
        case found =>
          intro s hs
          rcases List.mem_cons.mp hs with rfl | hs
          · exact ⟨hFound, Nat.le_refl _⟩
          · obtain ⟨hFound', hGe⟩ := hRest.found s hs
            exact ⟨hFound', by omega⟩
        case reads_ge =>
          intro i hi
          rcases List.mem_append.mp hi with hi | hi
          · exact recordReads_ge hi
          · have hGe := hRest.reads_ge i hi
            omega
        case reads =>
          intro i hi s hs
          rcases List.mem_cons.mp hs with rfl | hLater
          · rcases List.mem_append.mp hi with hHere | hBehind
            · exact (hFound.reads hHere).1
            · have hGe := hRest.reads_ge i hBehind
              rw [RecordAt.InTtl, RecordAt.ttlAt]
              omega
          · rcases List.mem_append.mp hi with hHere | hBehind
            · -- a later record starts behind everything read for this one
              have hEnd := (hFound.reads hHere).2
              obtain ⟨hFound', hGe⟩ := hRest.found s hLater
              have hLt' := hFound'.bounds.1
              rw [RecordAt.InTtl, RecordAt.ttlAt]
              omega
            · exact hRest.reads i hBehind s hLater
        case ttls =>
          refine List.pairwise_cons.mpr ⟨fun s hs => ?_, hRest.ttls⟩
          have hGe := (hRest.found s hs).2
          omega

/-- A record starts behind the RDATA of the ones before it. -/
theorem walkRecords_rdata : ∀ {count pos : Nat}, (walkRecords raw count pos).found.Pairwise
    fun r s => ∃ rdlen, r.rdlen = some rdlen ∧ r.stop + 10 + rdlen ≤ s.start := by
  intro count
  induction count with
  | zero => exact List.Pairwise.nil
  | succ count ih =>
    intro pos
    rw [walkRecords]
    split
    · exact List.Pairwise.nil
    · rename_i r hr
      split
      · exact List.pairwise_singleton _ _
      · rename_i next hNext
        refine List.pairwise_cons.mpr ⟨fun s hs => ?_, ih⟩
        have hRest : (walkRecords raw count next).Separate raw next := walkRecords_separate
        have hGe := (hRest.found s hs).2
        rw [RecordAt.next] at hNext
        split at hNext
        · cases hNext
        · rename_i rdlen hRdlen
          split at hNext
          · cases hNext
          · cases hNext
            exact ⟨rdlen, hRdlen, hGe⟩

/-- The questions are read up to where the records start. -/
theorem walkQuestions_reads : ∀ {count pos : Nat},
    (walkQuestions raw count pos).found = [] ∧
      (∀ stop, (walkQuestions raw count pos).ends = some stop → pos ≤ stop ∧
        ∀ i ∈ (walkQuestions raw count pos).reads, i < stop) := by
  intro count
  induction count with
  | zero =>
    intro pos
    refine ⟨rfl, fun stop hStop => ⟨?_, fun i hi => absurd hi List.not_mem_nil⟩⟩
    cases hStop
    exact Nat.le_refl _
  | succ count ih =>
    intro pos
    rw [walkQuestions]
    split
    · exact ⟨rfl, fun stop hStop => by cases hStop⟩
    · rename_i next hNext
      have hNext := toOption_eq_some.mp hNext
      have hLt := (skipName_bounds hNext).1
      split
      · exact ⟨rfl, fun stop hStop => by cases hStop⟩
      · refine ⟨rfl, fun stop hStop => ?_⟩
        obtain ⟨hLe, hReads⟩ := ih.2 stop hStop
        refine ⟨by omega, fun i hi => ?_⟩
        rcases List.mem_append.mp hi with hi | hi
        · have := (nameReads_bounds hi).2 next hNext
          omega
        · exact hReads i hi

/-- **The way does not lead through a TTL.** -/
theorem walk_separate (raw : Bytes) : (walk raw).Separate raw 0 := by
  rw [walk]
  split
  · exact ⟨by simp, by simp, by simp, by simp⟩
  · dsimp only
    split
    · exact ⟨by simp, by simp, by simp, by simp⟩
    · rename_i pos hPos
      obtain ⟨hLe, hQuestions⟩ := walkQuestions_reads.2 pos hPos
      have hRecords : (walkRecords raw (countAt raw 6 + countAt raw 8 + countAt raw 10) pos).Separate
        raw pos := walkRecords_separate
      refine ⟨fun r hr => ⟨(hRecords.found r hr).1, Nat.zero_le _⟩, fun i _ => Nat.zero_le i, ?_,
        hRecords.ttls⟩
      intro i hi r hr
      obtain ⟨hFound, hGe⟩ := hRecords.found r hr
      have hLt := hFound.bounds.1
      -- the header and the questions end before the first record
      have hBefore : i < pos → ¬ r.InTtl i := fun hi => by
        rw [RecordAt.InTtl, RecordAt.ttlAt]
        omega
      rcases List.mem_append.mp hi with hi | hi
      · rcases List.mem_append.mp hi with hi | hi
        · rw [List.mem_range'_1] at hi
          rw [headerLen] at hLe
          exact hBefore (by omega)
        · exact hBefore (hQuestions i hi)
      · exact hRecords.reads i hi r hr

/-- **No TTL stands in RDATA.** -/
theorem walk_rdata_not_inTtl {r s : RecordAt} (hr : r ∈ (walk raw).found)
    (hs : s ∈ (walk raw).found) {rdlen i : Nat} (hRdlen : r.rdlen = some rdlen)
    (hi : r.stop + 10 ≤ i ∧ i < r.stop + 10 + rdlen) : ¬ s.InTtl i := by
  have hPairs : (walk raw).found.Pairwise
      fun r s => ∃ rdlen, r.rdlen = some rdlen ∧ r.stop + 10 + rdlen ≤ s.start := by
    rw [walk]
    split
    · exact List.Pairwise.nil
    · dsimp only
      split
      · exact List.Pairwise.nil
      · exact walkRecords_rdata
  have hBounds : ∀ r ∈ (walk raw).found, r.start < r.stop :=
    fun r hr => ((walk_separate raw).found r hr).1.bounds.1
  have hrLt := hBounds r hr
  have hsLt := hBounds s hs
  have hOrder : r = s ∨ (∃ n, r.rdlen = some n ∧ r.stop + 10 + n ≤ s.start) ∨
      ∃ n, s.rdlen = some n ∧ s.stop + 10 + n ≤ r.start :=
    List.Pairwise.forall_of_forall_of_flip
      (R := fun r s => r = s ∨ (∃ n, r.rdlen = some n ∧ r.stop + 10 + n ≤ s.start) ∨
        ∃ n, s.rdlen = some n ∧ s.stop + 10 + n ≤ r.start)
      (fun r _ => .inl rfl) (hPairs.imp fun h => .inr (.inl h)) (hPairs.imp fun h => .inr (.inr h))
      hr hs
  rw [RecordAt.InTtl, RecordAt.ttlAt]
  rcases hOrder with rfl | ⟨n, hn, hLe⟩ | ⟨n, -, hLe⟩
  · omega
  · obtain rfl : n = rdlen := Option.some.inj (hn.symm.trans hRdlen)
    omega
  · omega

/-- The counts of the header are always read. -/
theorem mem_walk_reads (hHeader : headerLen ≤ raw.length) {i : Nat} (hi : 4 ≤ i ∧ i < 12) :
    i ∈ (walk raw).reads := by
  have hRange : i ∈ List.range' 4 8 := List.mem_range'_1.mpr (by omega)
  rw [walk, if_neg (by omega)]
  dsimp only
  split
  · exact List.mem_append_left _ hRange
  · exact List.mem_append_left _ (List.mem_append_left _ hRange)

theorem walk_ttl {r : RecordAt} (hr : r ∈ (walk raw).found) :
    r.ttl = ofBe (readAt raw r.ttlAt 4) ∧ r.ttlAt + 4 ≤ raw.length := by
  have hFound := ((walk_separate raw).found r hr).1
  exact ⟨hFound.ttl, hFound.bounds.2⟩

/-! ## What the way depends on -/

/-- A record with the TTL that `raw` has in its place. -/
def RecordAt.reread (raw : Bytes) (r : RecordAt) : RecordAt :=
  { r with ttl := ofBe (readAt raw r.ttlAt 4) }

def Walked.reread (raw : Bytes) (w : Walked) : Walked :=
  { w with found := w.found.map (RecordAt.reread raw) }

section Congr

variable (hLen : b.length = a.length)

include hLen

theorem nameReadsFrom_congr : ∀ {fuel pos : Nat},
    (∀ i ∈ nameReadsFrom a fuel pos, b[i]? = a[i]?) →
      skipNameFrom b fuel pos = skipNameFrom a fuel pos ∧
        nameReadsFrom b fuel pos = nameReadsFrom a fuel pos := by
  intro fuel
  induction fuel with
  | zero => exact fun _ => ⟨rfl, rfl⟩
  | succ fuel ih =>
    intro pos hSame
    -- the length byte is always read, and the same byte takes the same branch
    have hPos : b[pos]? = a[pos]? := hSame pos (by
      rw [nameReadsFrom]
      split
      · exact List.mem_cons_self
      · split <;> exact List.mem_cons_self)
    rw [skipNameFrom, skipNameFrom, nameReadsFrom, nameReadsFrom, get?, get?, hPos, hLen]
    rw [nameReadsFrom] at hSame
    cases hByte : a[pos]? with
    | none => exact ⟨rfl, rfl⟩
    | some len =>
      rw [hByte] at hSame
      simp only [ok_bind] at hSame ⊢
      by_cases hLabel : len &&& 0xc0 ≠ 0 ∨ len = 0
      · rw [if_pos hLabel, if_pos hLabel]
        refine ⟨?_, rfl⟩
        split
        · rfl
        · split
          · rfl
          · rename_i hOther
            rw [if_pos (hLabel.resolve_left hOther), if_pos (hLabel.resolve_left hOther)]
      · rw [if_neg hLabel] at hSame
        rw [if_neg hLabel, if_neg hLabel]
        obtain ⟨hSkip, hReads⟩ := ih fun i hi => hSame i (List.mem_cons_of_mem _ hi)
        rw [hSkip, hReads]
        exact ⟨rfl, rfl⟩

theorem nameReads_congr (hSame : ∀ i ∈ nameReads a pos, b[i]? = a[i]?) :
    skipName b pos = skipName a pos ∧ nameReads b pos = nameReads a pos := by
  rw [skipName, skipName, nameReads, nameReads, hLen]
  exact nameReadsFrom_congr hLen hSame

/-- The record is found again, with the TTL it has now. -/
theorem recordAt_congr (hSame : ∀ i ∈ recordReads a pos, b[i]? = a[i]?) :
    recordAt b pos = (recordAt a pos).map (RecordAt.reread b) ∧
      recordReads b pos = recordReads a pos := by
  have hNames : ∀ i ∈ nameReads a pos, b[i]? = a[i]? := fun i hi => hSame i (by
    rw [recordReads]
    split
    · exact hi
    · exact List.mem_append_left _ hi)
  obtain ⟨hSkip, hReads⟩ := nameReads_congr hLen hNames
  rw [recordReads] at hSame
  rw [recordAt, recordAt, recordReads, recordReads, hSkip, hReads]
  cases hStop : (skipName a pos).toOption with
  | none => exact ⟨rfl, rfl⟩
  | some stop =>
    rw [hStop] at hSame
    have hAt : ∀ i ∈ [stop, stop + 1, stop + 8, stop + 9], b[i]? = a[i]? := fun i hi =>
      hSame i (List.mem_append_right _ hi)
    have hType : u16At b stop = u16At a stop :=
      u16At_congr (hAt stop (by simp)) (hAt (stop + 1) (by simp))
    have hRdlen : u16At b (stop + 8) = u16At a (stop + 8) :=
      u16At_congr (hAt (stop + 8) (by simp)) (hAt (stop + 9) (by simp))
    refine ⟨?_, rfl⟩
    -- whether the TTL is there depends on the length alone
    simp only [Option.bind_eq_bind, Option.bind_some, hType, hRdlen, getRange?, hLen]
    cases (u16At a stop).toOption with
    | none => rfl
    | some recordType =>
      split
      · simp only [Nat.add_sub_cancel_left]
        rfl
      · rfl

theorem RecordAt.next_reread (r : RecordAt) : (r.reread b).next b = r.next a := by
  rw [RecordAt.next, RecordAt.next, hLen]
  rfl

theorem walkRecords_congr : ∀ {count pos : Nat},
    (∀ i ∈ (walkRecords a count pos).reads, b[i]? = a[i]?) →
      walkRecords b count pos = (walkRecords a count pos).reread b := by
  intro count
  induction count with
  | zero => exact fun _ => rfl
  | succ count ih =>
    intro pos hSame
    have hHere : ∀ i ∈ recordReads a pos, b[i]? = a[i]? := fun i hi => hSame i (by
      rw [walkRecords]
      split
      · exact hi
      · split
        · exact hi
        · exact List.mem_append_left _ hi)
    obtain ⟨hRecord, hReads⟩ := recordAt_congr hLen hHere
    rw [walkRecords] at hSame
    rw [walkRecords, walkRecords, hRecord, hReads]
    cases hr : recordAt a pos with
    | none => rfl
    | some r =>
      rw [hr] at hSame
      simp only [Option.map_some, RecordAt.next_reread hLen] at hSame ⊢
      cases hNext : r.next a with
      | none => rfl
      | some next =>
        rw [hNext] at hSame
        have hRest := ih fun i hi => hSame i (List.mem_append_right _ hi)
        dsimp only
        rw [hRest]
        rfl

theorem walkQuestions_congr : ∀ {count pos : Nat},
    (∀ i ∈ (walkQuestions a count pos).reads, b[i]? = a[i]?) →
      walkQuestions b count pos = walkQuestions a count pos := by
  intro count
  induction count with
  | zero => exact fun _ => rfl
  | succ count ih =>
    intro pos hSame
    have hHere : ∀ i ∈ nameReads a pos, b[i]? = a[i]? := fun i hi => hSame i (by
      rw [walkQuestions]
      split
      · exact hi
      · split
        · exact hi
        · exact List.mem_append_left _ hi)
    obtain ⟨hSkip, hReads⟩ := nameReads_congr hLen hHere
    rw [walkQuestions] at hSame
    rw [walkQuestions, walkQuestions, hSkip, hReads, hLen]
    cases hStop : (skipName a pos).toOption with
    | none => rfl
    | some stop =>
      rw [hStop] at hSame
      dsimp only at hSame ⊢
      split
      · rfl
      · rename_i hInside
        rw [if_neg hInside] at hSame
        rw [ih fun i hi => hSame i (List.mem_append_right _ hi)]

/-- **The way depends on what is read.** -/
theorem walk_congr (hSame : ∀ i ∈ (walk a).reads, b[i]? = a[i]?) : walk b = (walk a).reread b := by
  rw [walk] at hSame
  rw [walk, walk, hLen]
  split
  · rfl
  · rename_i hHeader
    rw [if_neg hHeader] at hSame
    dsimp only at hSame ⊢
    -- the counts and the questions are read whatever comes of them
    have hCounts : ∀ i ∈ List.range' 4 8 ++ (walkQuestions a (countAt a 4) headerLen).reads,
        b[i]? = a[i]? := by
      intro i hi
      cases hEnds : (walkQuestions a (countAt a 4) headerLen).ends with
      | none =>
        rw [hEnds] at hSame
        exact hSame i hi
      | some pos =>
        rw [hEnds] at hSame
        exact hSame i (List.mem_append_left _ hi)
    have hCount : ∀ n, 4 ≤ n → n + 2 ≤ 12 → countAt b n = countAt a n := by
      intro n hn hn'
      rw [countAt, countAt, readAt_congr fun i hi hi' => hCounts i ?_]
      exact List.mem_append_left _ (List.mem_range'_1.mpr (by omega))
    rw [hCount 4 (by omega) (by omega), hCount 6 (by omega) (by omega),
      hCount 8 (by omega) (by omega), hCount 10 (by omega) (by omega),
      walkQuestions_congr hLen fun i hi => hCounts i (List.mem_append_right _ hi)]
    cases hEnds : (walkQuestions a (countAt a 4) headerLen).ends with
    | none => rfl
    | some pos =>
      rw [hEnds] at hSame
      dsimp only at hSame ⊢
      rw [walkRecords_congr hLen fun i hi => hSame i (List.mem_append_right _ hi)]
      rfl

end Congr

end DnsRs.Wire
