import DnsRs.Cache.Lifetime
import DnsRs.Handler.Provenance

/-!
# Negative answers

An NXDOMAIN, or a NOERROR without answers, may be kept for `min(SOA TTL, MINIMUM)` of
the SOA in its authority section, and without an SOA not at all. `negative_ttl` says
so, but two things get around it.

`fetch_from_upstream` asks for the negative TTL only when there are no answers. An
NXDOMAIN behind a CNAME has some, and is kept for as long as they last
(`negative_caching_iff`).

A cached response is served with its TTLs aged, and MINIMUM is no TTL. Where MINIMUM is
the smaller of the two it bounds what is served for as long as the entry lives, so a
cache downstream is told the full negative TTL again on every hit
(`negative_lifetime_iff`).

What `Message::from_vec` makes of a message is assumed to be what stands in it
(`Faithful`).
-/

namespace DnsRs.Handler

open Lib Wire Cache InFlight

variable {RecordType DNSClass Heap : Type}

/-! ## Records on the wire -/

def soaRecordType : Nat := 6

/-- MINIMUM, the last field of an SOA: behind two names and four other fields, so there
are 22 bytes at least. -/
def soaMinimum (v : RecordView) : Option Nat :=
  if v.recordType = soaRecordType ∧ 22 ≤ v.rdata.length then
    some (ofBe (v.rdata.drop (v.rdata.length - 4)))
  else none

def decodeRecord (v : RecordView) : ResourceRecord := ⟨v.ttl, soaMinimum v⟩

/-- The records of the answer section. -/
def answerRecords (wire : Bytes) : List ResourceRecord :=
  ((walk wire).found.take (countAt wire 6)).map fun r => decodeRecord (r.view wire)

/-- The records of the authority section. -/
def authorityRecords (wire : Bytes) : List ResourceRecord :=
  (((walk wire).found.drop (countAt wire 6)).take (countAt wire 8)).map fun r =>
    decodeRecord (r.view wire)

/-- Messages are decoded as they stand on the wire. -/
structure Faithful (fromVec : Bytes → Option Message) : Prop where
  answers : ∀ wire response, fromVec wire = some response → response.answers = answerRecords wire
  authorities : ∀ wire response, fromVec wire = some response →
    response.authorities = authorityRecords wire

/-- TTL and MINIMUM of the first SOA. -/
def firstSoa (records : List ResourceRecord) : Option (Nat × Nat) :=
  records.findSome? fun record => record.soaMinimum.map fun minimum => (record.ttl, minimum)

theorem firstSoa_cons (record : ResourceRecord) (records : List ResourceRecord) :
    firstSoa (record :: records) =
      (record.soaMinimum.map fun minimum => (record.ttl, minimum)).or (firstSoa records) := by
  rw [firstSoa, List.findSome?_cons, ← firstSoa]
  cases record.soaMinimum <;> rfl

/-- How long a cache may keep the absence that a message tells of. -/
def negativeLifetime (wire : Bytes) : Option Nat :=
  (firstSoa (authorityRecords wire)).map fun soa => min soa.1 soa.2

def IsNegative (response : Message) : Prop :=
  response.responseCode = .nxDomain ∨ (response.responseCode = .noError ∧ response.answers = [])

theorem negativeTtl_eq {response : Message} (h : IsNegative response) :
    negativeTtl response = (firstSoa response.authorities).map fun soa => min soa.1 soa.2 := by
  unfold IsNegative at h
  rw [negativeTtl, if_pos h]
  induction response.authorities with
  | nil => rfl
  | cons record records ih =>
    rw [List.findSome?_cons, firstSoa_cons]
    cases record.soaMinimum with
    | none => exact ih
    | some minimum => rfl

theorem isNegative_of_negativeTtl {response : Message} {ttl : Nat}
    (h : negativeTtl response = some ttl) : IsNegative response := by
  rw [negativeTtl] at h
  split at h
  · assumption
  · cases h

/-! ## What is cached -/

/-- What the end of `fetch_from_upstream` does to the cache when the upstream has
answered with `wire`. -/
def settleOp (sys : System RecordType DNSClass Heap) (q : Request sys.rr) (wire : Bytes)
    (now lockedAt storedAt : Nat) : Op RecordType DNSClass :=
  match (sys.fromVec wire).bind responseTtl with
  | some ttl => .insert q.key ttl wire q.raw now lockedAt storedAt
  | none => .release q.key now

theorem stepSettle_eq [DecidableEq RecordType] [DecidableEq DNSClass]
    (sys : System RecordType DNSClass Heap) (s : State sys.rr Heap) (t : Nat) (q : Request sys.rr)
    (role : Role) (place : Option (FlightKey RecordType DNSClass × Nat)) (wire : Bytes)
    (now lockedAt storedAt : Nat) :
    stepSettle sys s t q role place (some wire) now lockedAt storedAt =
      s.attempt (apply sys.env s.cache (settleOp sys q wire now lockedAt storedAt)) fun result =>
        { s with cache := result.2 }.goto t (.inFlight q role (.fetching place (.produced wire))) := by
  rw [stepSettle, settleOp]
  cases (sys.fromVec wire).bind responseTtl with
  | some ttl =>
    dsimp only [apply]
    cases s.cache.insertWithFlags sys.env q.key ttl wire q.raw now lockedAt storedAt with
    | ok result => rfl
    | error fault => rfl
  | none =>
    dsimp only [apply]
    cases s.cache.releaseRefreshClaimWithFlags sys.env q.key now with
    | ok result => rfl
    | error fault => rfl

theorem settleOp_eq_insert_iff {sys : System RecordType DNSClass Heap} {q : Request sys.rr}
    {wire : Bytes} {now lockedAt storedAt ttl : Nat} :
    settleOp sys q wire now lockedAt storedAt = .insert q.key ttl wire q.raw now lockedAt storedAt ↔
      (sys.fromVec wire).bind responseTtl = some ttl := by
  rw [settleOp]
  cases (sys.fromVec wire).bind responseTtl with
  | some ttl' => simp
  | none => simp

/-- Answers come first: with some, the negative TTL is not asked for. -/
theorem responseTtl_eq_some_iff {response : Message} {ttl : Nat} :
    responseTtl response = some ttl ↔ 0 < ttl ∧
      ((response.answers = [] ∧ negativeTtl response = some ttl) ∨
        (response.answers.map ResourceRecord.ttl).min? = some ttl) := by
  rw [responseTtl, Option.filter_eq_some_iff]
  cases hMin : (response.answers.map ResourceRecord.ttl).min? with
  | none =>
    have hNil : response.answers = [] := by
      rwa [List.min?_eq_none_iff, List.map_eq_nil_iff] at hMin
    simp [hNil, and_comm]
  | some least =>
    have hNotNil : response.answers ≠ [] := by
      intro hNil
      rw [hNil] at hMin
      cases hMin
    simp [hNotNil, and_comm]

/-- **Negative caching.** A negative response is kept only by an SOA and for no longer
than it says, exactly when it has no answers, or an answer with TTL 0, or an SOA and an
answer that is not to be kept longer than that. -/
theorem negative_caching_iff (sys : System RecordType DNSClass Heap) (q : Request sys.rr)
    {wire : Bytes} {response : Message} (hDecode : sys.fromVec wire = some response) (hNegative : IsNegative response)
    (now lockedAt storedAt : Nat) :
    (∀ ttl, settleOp sys q wire now lockedAt storedAt =
        .insert q.key ttl wire q.raw now lockedAt storedAt →
      ∃ soa, firstSoa response.authorities = some soa ∧ ttl ≤ min soa.1 soa.2) ↔
    response.answers = [] ∨ (∃ record ∈ response.answers, record.ttl = 0) ∨
      ∃ soa, firstSoa response.authorities = some soa ∧
        ∃ record ∈ response.answers, record.ttl ≤ min soa.1 soa.2 := by
  simp only [settleOp_eq_insert_iff, hDecode, Option.bind_some, responseTtl_eq_some_iff]
  constructor
  · intro h
    cases hMin : (response.answers.map ResourceRecord.ttl).min? with
    | none =>
      rw [List.min?_eq_none_iff, List.map_eq_nil_iff] at hMin
      exact Or.inl hMin
    | some least =>
      -- the least answer decides: it is 0, or it is what the response is kept for
      obtain ⟨record, hRecord, rfl⟩ := List.mem_map.mp (List.min?_eq_some_iff.mp hMin).1
      rcases Nat.eq_zero_or_pos record.ttl with hZero | hPos
      · exact Or.inr (Or.inl ⟨record, hRecord, hZero⟩)
      · obtain ⟨soa, hSoa, hLe⟩ := h record.ttl ⟨hPos, Or.inr hMin⟩
        exact Or.inr (Or.inr ⟨soa, hSoa, record, hRecord, hLe⟩)
  · rintro h ttl ⟨hPos, ⟨-, hTtl⟩ | hMin⟩
    · rw [negativeTtl_eq hNegative, Option.map_eq_some_iff] at hTtl
      obtain ⟨soa, hSoa, rfl⟩ := hTtl
      exact ⟨soa, hSoa, Nat.le_refl _⟩
    · have hLeast : ∀ record ∈ response.answers, ttl ≤ record.ttl := fun record hRecord =>
        (List.min?_eq_some_iff.mp hMin).2 _ (List.mem_map_of_mem hRecord)
      rcases h with hNil | ⟨record, hRecord, hZero⟩ | ⟨soa, hSoa, record, hRecord, hLe⟩
      · rw [hNil] at hMin
        cases hMin
      · have := hLeast record hRecord
        omega
      · exact ⟨soa, hSoa, (hLeast record hRecord).trans hLe⟩

/-! ## What is served -/

section Served

variable {w w' : Bytes} {f : Nat → Nat}

theorem soaMinimum_patched (h : Patched (ttlPatches f (walk w).found) w w') {r : RecordAt}
    (hr : r ∈ (walk w).found) :
    soaMinimum ((r.mapTtl f).view w') = soaMinimum (r.view w) := by
  have hRdata := readAt_rdata_patched h hr
  have hView : ((r.mapTtl f).view w').recordType = (r.view w).recordType ∧
      ((r.mapTtl f).view w').rdata = (r.view w).rdata := by
    rw [RecordAt.mapTtl]
    split
    · exact ⟨rfl, hRdata⟩
    · exact ⟨rfl, hRdata⟩
  rw [soaMinimum, soaMinimum, hView.1, hView.2]

theorem mapTtl_of_soa {r : RecordAt} {minimum : Nat} (h : soaMinimum (r.view w) = some minimum) :
    (r.mapTtl f).ttl = f r.ttl := by
  rw [soaMinimum] at h
  split at h
  · rename_i hSoa
    have hType : r.recordType = soaRecordType := hSoa.1
    rw [RecordAt.mapTtl, if_pos (by rw [hType]; decide)]
  · cases h

/-- New TTLs give the first SOA its new TTL, and leave it its MINIMUM. -/
theorem firstSoa_patched (hf : ∀ ttl < 2 ^ 32, f ttl < 2 ^ 32)
    (h : Patched (ttlPatches f (walk w).found) w w') :
    firstSoa (authorityRecords w') =
      (firstSoa (authorityRecords w)).map fun soa => (f soa.1, soa.2) := by
  -- over any of the records of the message
  have hRecords : ∀ found : List RecordAt, (∀ r ∈ found, r ∈ (walk w).found) →
      firstSoa ((found.map (RecordAt.mapTtl f)).map fun r => decodeRecord (r.view w')) =
        (firstSoa (found.map fun r => decodeRecord (r.view w))).map fun soa => (f soa.1, soa.2) := by
    intro found
    induction found with
    | nil =>
      intro _
      rfl
    | cons r found ih =>
      intro hAll
      have hRest := ih fun s hs => hAll s (List.mem_cons_of_mem r hs)
      have hMinimum := soaMinimum_patched h (hAll r List.mem_cons_self)
      simp only [List.map_cons, firstSoa_cons, hRest]
      rw [decodeRecord, decodeRecord, hMinimum]
      cases hSoa : soaMinimum (r.view w) with
      | none => rfl
      | some minimum =>
        have hTtl : ((r.mapTtl f).view w').ttl = f (r.view w).ttl := mapTtl_of_soa hSoa
        rw [hTtl]
        rfl
  rw [authorityRecords, authorityRecords, walk_patched hf h]
  by_cases hHeader : w.length < headerLen
  · rw [walk, if_pos hHeader]
    simp [Walked.mapTtl, firstSoa]
  · rw [countAt_patched h (by omega) (by omega), countAt_patched h (by omega) (by omega),
      Walked.mapTtl, ← List.map_drop, ← List.map_take]
    exact hRecords _ fun r hr => List.mem_of_mem_drop (List.mem_of_mem_take hr)

/-- TTLs on the wire have 32 bits. -/
theorem firstSoa_ttl_lt {soa : Nat × Nat} (h : firstSoa (authorityRecords w) = some soa) :
    soa.1 < 2 ^ 32 := by
  rw [firstSoa, authorityRecords] at h
  obtain ⟨record, hRecord, hSoa⟩ := List.exists_of_findSome?_eq_some h
  obtain ⟨r, hr, rfl⟩ := List.mem_map.mp hRecord
  obtain ⟨minimum, -, rfl⟩ := Option.map_eq_some_iff.mp hSoa
  obtain ⟨hTtl, hInside⟩ := walk_ttl (List.mem_of_mem_drop (List.mem_of_mem_take hr))
  have hLt := ofBe_lt (readAt w r.ttlAt 4)
  rw [length_readAt hInside, ← hTtl] at hLt
  exact hLt

end Served

/-- A response that `fetch_from_upstream` caches for its negative TTL. -/
structure NegativelyCached (response : Message) (ttl : Nat) : Prop where
  cached : responseTtl response = some ttl
  negative : negativeTtl response = some ttl

/-- **Negative answers downstream.** On a hit that is not stale, the negative TTL in the
bytes served is at most what is left of the entry's lifetime, rounded up to seconds,
exactly when MINIMUM is not the smaller bound or the first second has not passed. -/
theorem negative_lifetime_iff [DecidableEq RecordType] [DecidableEq DNSClass]
    {env : Env RecordType DNSClass Heap} {fromVec : Bytes → Option Message}
    (hA : env.alloc.Lawful) (hFaithful : Faithful fromVec) {enabled : Bool} {maxSizeBytes : Nat}
    (hMax : enabled = true → maxSizeBytes ≤ maxCacheBytes) {ops : List (Op RecordType DNSClass)}
    {calls : List (Op RecordType DNSClass × Output)} {c c' : ResponseCache RecordType DNSClass Heap}
    (hRun : trace env (ResponseCache.new env enabled maxSizeBytes) ops = .ok (calls, c))
    {key : Key RecordType DNSClass} {t : Nat} (hClock : Clocked (ops ++ [.get key t]))
    {wire : Bytes} {refresh : Bool}
    (hGet : c.getWithFlags env key t = .ok (some (wire, refresh, false), c'))
    {last : Insertion} (hLast : lastStored key calls = some last) {response : Message}
    (hDecode : fromVec last.wire = some response) (hCached : NegativelyCached response last.ttl) :
    ∃ soa served, firstSoa response.authorities = some soa ∧ last.ttl = min soa.1 soa.2 ∧
      negativeLifetime wire = some served ∧
      (served ≤ secondsUp (last.now + last.ttl * second - t) ↔
        soa.1 ≤ soa.2 ∨ t < last.now + second) := by
  obtain ⟨rfl, last', done, hLast', -, hStale, hAge⟩ := hit_of_trace hA hMax hRun hGet
  obtain rfl : last' = last := Option.some.inj (hLast'.symm.trans hLast)
  obtain ⟨request, lockedAt, storedAt, hMem⟩ := mem_of_lastStored hLast
  have hLe := hClock.le hMem
  have hFresh : t < last'.now + last'.ttl * second :=
    Nat.lt_of_not_le (of_decide_eq_false hStale.symm)
  -- the SOA that the TTL was taken from
  have hTtl := hCached.negative
  rw [negativeTtl_eq (isNegative_of_negativeTtl hTtl), Option.map_eq_some_iff] at hTtl
  obtain ⟨soa, hSoa, hMin⟩ := hTtl
  have hSmall := hSoa
  rw [hFaithful.authorities _ _ hDecode] at hSmall
  have hLt : last'.ttl < 2 ^ 32 := by
    have := firstSoa_ttl_lt hSmall
    omega
  -- and what aging has made of it
  obtain ⟨-, hPatched⟩ := patched_of_ageTtls hAge
  rw [elapsedSecs_fresh hLt hLe hFresh] at hPatched
  have hServed := firstSoa_patched
    (fun ttl h => Nat.lt_of_le_of_lt (agedTtl_le ttl _ _) h) hPatched
  rw [hSmall, Option.map_some] at hServed
  obtain ⟨hLeft, hSeconds⟩ := remaining_eq hLe hFresh
  refine ⟨soa, _, hSoa, hMin.symm, by rw [negativeLifetime, hServed]; rfl, ?_⟩
  rw [← hSeconds]
  show min (soa.1 - (t - last'.now) / second) soa.2 ≤ _ ↔ _
  have hFirst : (t - last'.now) / second = 0 ↔ t < last'.now + second := by
    rw [Nat.div_eq_zero_iff]
    simp only [second]
    omega
  rw [← hFirst]
  -- what is left is about the two bounds and the seconds that have passed
  generalize (t - last'.now) / second = elapsed at hLeft ⊢
  omega

/-! ## Two responses -/

def responseCodeOf (wire : Bytes) : ResponseCode :=
  match wire[3]? with
  | none => .noError
  | some b =>
    if b.toNat % 16 = 0 then .noError
    else if b.toNat % 16 = 3 then .nxDomain
    else .other (b.toNat % 16)

/-- A decoder of just what the handler asks for. -/
def decodeWire (wire : Bytes) : Option Message :=
  if (walk wire).ends.isSome then
    some ⟨responseCodeOf wire, answerRecords wire, authorityRecords wire⟩
  else none

theorem decodeWire_faithful : Faithful decodeWire where
  answers wire response h := by
    rw [decodeWire] at h
    split at h
    · cases h
      rfl
    · cases h
  authorities wire response h := by
    rw [decodeWire] at h
    split at h
    · cases h
      rfl
    · cases h

/-- The question of `twoLabelQuery`, which a response to it repeats. -/
def twoLabelQuestion : Bytes := [1, 0x61, 1, 0x42, 0, 0, 1, 0, 1]

/-- NXDOMAIN with an SOA for the root. Its TTL is given by the two low bytes, its MINIMUM
is one minute. -/
def absent (high low : UInt8) : Bytes :=
  [0, 1, 0x81, 0x83, 0, 1, 0, 0, 0, 1, 0, 0] ++ twoLabelQuestion ++
    [0, 0, 6, 0, 1, 0, 0, high, low, 0, 22] ++ [0, 0] ++
    [0, 0, 0, 1, 0, 0, 14, 16, 0, 0, 2, 88, 0, 1, 81, 128, 0, 0, 0, 60]

/-- What it is decoded to. -/
def absentMessage (ttl : Nat) : Message := ⟨.nxDomain, [], [⟨ttl, some 60⟩]⟩

/-- An SOA of 3600 seconds with a MINIMUM of 60: half a minute after the insert the
served bytes still say one minute. -/
theorem negative_lifetime_extended :
    decodeWire (absent 14 16) = some (absentMessage 3600) ∧
    responseTtl (absentMessage 3600) = some 60 ∧ negativeTtl (absentMessage 3600) = some 60 ∧
    insertAndGet (absent 14 16) (30 * second) =
      .ok (some ⟨0, 60, absent 14 16⟩, some (absent 13 242, false, false)) ∧
    negativeLifetime (absent 13 242) = some 60 ∧ secondsUp (0 + 60 * second - 30 * second) = 30 := by
  decide +kernel

/-- With a TTL of 60 as well, half a minute is left. -/
theorem negative_lifetime_iff_minute : ∃ served, negativeLifetime (absent 0 30) = some served ∧
    served ≤ secondsUp (0 + 60 * second - 30 * second) := by
  obtain ⟨calls, c, c', hRun, hGet, hStored⟩ := insertAndGet_eq_ok
    (show insertAndGet (absent 0 60) (30 * second) =
      .ok (some ⟨0, 60, absent 0 60⟩, some (absent 0 30, false, false)) by decide +kernel)
  obtain ⟨soa, served, hSoa, -, hServed, hIff⟩ :=
    negative_lifetime_iff FirstFit.allocator_lawful decodeWire_faithful (fun _ => by decide) hRun
      (clocked_insertAndGet _ _) hGet hStored
      (show decodeWire (absent 0 60) = some (absentMessage 60) by decide +kernel)
      ⟨by decide, by decide⟩
  cases hSoa
  exact ⟨served, hServed, hIff.mpr (Or.inl (Nat.le_refl 60))⟩

/-- NXDOMAIN behind a CNAME of five minutes, without an SOA. -/
def absentAlias : Bytes :=
  [0, 1, 0x81, 0x83, 0, 1, 0, 1, 0, 0, 0, 0] ++ twoLabelQuestion ++
    [0xc0, 12, 0, 5, 0, 1, 0, 0, 1, 44, 0, 3, 1, 0x62, 0]

def decodingSystem : System Nat Nat FirstFit.Heap := { smallSystem with fromVec := decodeWire }

def twoLabelRequest : Request decodingSystem.rr :=
  ⟨twoLabelQuery, parsedDotQuery 0x1234, dotNameBuf, parseQuery_twoLabel⟩

theorem absent_alias_cached :
    decodeWire absentAlias = some ⟨.nxDomain, [⟨300, none⟩], []⟩ ∧
    settleOp decodingSystem twoLabelRequest absentAlias 0 0 0 =
      .insert twoLabelRequest.key 300 absentAlias twoLabelRequest.raw 0 0 0 :=
  ⟨by decide +kernel, settleOp_eq_insert_iff.mpr
    (show (decodeWire absentAlias).bind responseTtl = some 300 by decide +kernel)⟩

theorem negative_caching_iff_absent :
    settleOp decodingSystem twoLabelRequest (absent 14 16) 0 0 0 =
      .insert twoLabelRequest.key 60 (absent 14 16) twoLabelRequest.raw 0 0 0 ∧
    ∃ soa, firstSoa (absentMessage 3600).authorities = some soa ∧ 60 ≤ min soa.1 soa.2 := by
  have hStored : settleOp decodingSystem twoLabelRequest (absent 14 16) 0 0 0 =
      .insert twoLabelRequest.key 60 (absent 14 16) twoLabelRequest.raw 0 0 0 :=
    settleOp_eq_insert_iff.mpr
      (show (decodeWire (absent 14 16)).bind responseTtl = some 60 by decide +kernel)
  have hCached := (negative_caching_iff decodingSystem twoLabelRequest
    (show decodingSystem.fromVec (absent 14 16) = some (absentMessage 3600) by decide +kernel)
    (Or.inl rfl) 0 0 0).mpr (Or.inl rfl)
  exact ⟨hStored, hCached 60 hStored⟩

end DnsRs.Handler
