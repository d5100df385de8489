import DnsRs.Cache.Holding
import DnsRs.Wire.Rewriting

/-!
# How long a response is served, and with which TTLs

A hit is explained by the last insert under its key that stored something
(`lastStored`, `trace_dated`): when it was made, its TTL and its bytes say how long the
response is served and what is left of its TTLs (`hit_lifetime`).

The result of `age_ttls` is ignored by `get_with_flags`. It has written by the time it
finds a message cut off, so a message that breaks off behind a record is served with that
record aged and the ones behind it not (`half_aged_served`). This is the only way: aging
is all or nothing for the messages whose records can all be reached and those that break
off before a TTL that could change, and for no others (`aging_all_or_nothing`).
-/

namespace DnsRs.Cache

open Lib Wire CacheState ResponseCache

variable {RecordType DNSClass Heap : Type} [DecidableEq RecordType] [DecidableEq DNSClass]
  {env : Env RecordType DNSClass Heap} {c c' : ResponseCache RecordType DNSClass Heap}
  {ops : List (Op RecordType DNSClass)} {calls done : List (Op RecordType DNSClass × Output)}
  {key : Key RecordType DNSClass}

/-! ## Runs and what they return -/

/-- A sequence of calls, each with what it returns. -/
def trace (env : Env RecordType DNSClass Heap) :
    ResponseCache RecordType DNSClass Heap → List (Op RecordType DNSClass) →
      Except Fault (List (Op RecordType DNSClass × Output) × ResponseCache RecordType DNSClass Heap)
  | c, [] => .ok ([], c)
  | c, op :: ops => do
    let (out, c) ← apply env c op
    let (calls, c) ← trace env c ops
    return ((op, out) :: calls, c)

structure Insertion where
  now : Nat
  ttl : Nat
  wire : Bytes
  deriving DecidableEq, Repr

/-- A call that stores a response under the key. -/
def storedBy (key : Key RecordType DNSClass) : Op RecordType DNSClass × Output → Option Insertion
  | (.insert k ttl wire _ now _ _, .inserted true) => if k = key then some ⟨now, ttl, wire⟩ else none
  | _ => none

theorem storedBy_eq_some {op : Op RecordType DNSClass} {out : Output} {last : Insertion}
    (h : storedBy key (op, out) = some last) : ∃ request lockedAt storedAt,
      op = .insert key last.ttl last.wire request last.now lockedAt storedAt ∧
      out = .inserted true := by
  unfold storedBy at h
  split at h
  · rename_i heq
    split at h
    · rename_i hKey
      cases h
      cases heq
      exact ⟨_, _, _, by rw [hKey], rfl⟩
    · cases h
  · cases h

/-- The most recent one. -/
def lastStored (key : Key RecordType DNSClass) (calls : List (Op RecordType DNSClass × Output)) :
    Option Insertion :=
  calls.reverse.findSome? (storedBy key)

theorem lastStored_concat (call : Op RecordType DNSClass × Output) :
    lastStored key (calls ++ [call]) = (storedBy key call).or (lastStored key calls) := by
  rw [lastStored, List.reverse_append, List.reverse_singleton, List.singleton_append,
    List.findSome?_cons, lastStored]
  cases storedBy key call <;> rfl

/-- What the log has under a key is the record of the last insert there. -/
def Dated (calls : List (Op RecordType DNSClass × Output))
    (log : List (CacheEvent RecordType DNSClass)) : Prop :=
  ∀ key record, current log key = some record → ∃ last request, lastStored key calls = some last ∧
    record = recordOf last.ttl last.now last.wire request

/-- Only an insert that stores puts something under its key. -/
theorem Explains.storedBy {log events : List (CacheEvent RecordType DNSClass)}
    {op : Op RecordType DNSClass} {out : Output} {record : Record}
    (h : Explains log op out events) (hMem : .stored key record ∈ events) :
    ∃ ttl wire request now lockedAt storedAt, op = .insert key ttl wire request now lockedAt storedAt ∧
      out = .inserted true ∧ record = recordOf ttl now wire request := by
  cases op with
  | insert k ttl wire request now lockedAt storedAt =>
    cases out with
    | inserted stored =>
      obtain ⟨victims, replaced, hReplaced, rfl⟩ := h
      rcases List.mem_append.mp hMem with hMem | hMem
      · cases stored with
        | false => cases hMem
        | true =>
          cases List.mem_singleton.mp hMem
          exact ⟨ttl, wire, request, now, lockedAt, storedAt, rfl, rfl, rfl⟩
      · -- the rest are evictions
        rcases List.mem_append.mp hMem with hMem | hMem
        · obtain ⟨victim, -, hEq⟩ := List.mem_map.mp hMem
          cases hEq
        · rcases hReplaced with rfl | rfl
          · cases hMem
          · cases List.mem_singleton.mp hMem
    | _ => exact h.elim
  | get k now =>
    cases out with
    | got found =>
      have hLookup : LookupEvents log k now found events := h
      rw [LookupEvents] at hLookup
      split at hLookup
      · rw [hLookup.2] at hMem
        cases hMem
      · split at hLookup
        · rw [hLookup.2] at hMem
          cases List.mem_singleton.mp hMem
        · rw [hLookup.2] at hMem
          cases List.mem_singleton.mp hMem
    | _ => exact h.elim
  | release k now =>
    cases out with
    | released =>
      cases h
      cases hMem
    | _ => exact h.elim
  | candidates budget now =>
    cases out with
    | requests list =>
      cases h
      cases hMem
    | _ => exact h.elim
  | sweep start stop now =>
    cases out with
    | swept =>
      obtain ⟨victims, rfl, -⟩ := h
      obtain ⟨victim, -, hEq⟩ := List.mem_map.mp hMem
      cases hEq
    | _ => exact h.elim

/-- **One call.** An insert that stores dates its key anew; no other call stores. -/
theorem Dated.step {log events : List (CacheEvent RecordType DNSClass)}
    {op : Op RecordType DNSClass} {out : Output} (h : Dated calls log)
    (hExplains : Explains log op out events) : Dated (calls ++ [(op, out)]) (events ++ log) := by
  intro key record hCurrent
  rw [lastStored_concat]
  cases hStored : storedBy key (op, out) with
  | none =>
    -- a call that stores nothing under the key
    refine h key record (current_of_append (fun v hv => ?_) hCurrent)
    obtain ⟨ttl, wire, request, now, lockedAt, storedAt, rfl, rfl, -⟩ := hExplains.storedBy hv
    rw [storedBy, if_pos rfl] at hStored
    cases hStored
  | some last =>
    obtain ⟨request, lockedAt, storedAt, rfl, rfl⟩ := storedBy_eq_some hStored
    obtain ⟨victims, replaced, -, rfl⟩ := hExplains
    rw [if_pos rfl, List.singleton_append, List.cons_append, current, if_pos rfl] at hCurrent
    cases hCurrent
    exact ⟨_, request, rfl, rfl⟩

/-- **Every run.** -/
theorem trace_dated (hA : env.alloc.Lawful) : ∀ {ops : List (Op RecordType DNSClass)}
    {calls done : List (Op RecordType DNSClass × Output)}
    {c c' : ResponseCache RecordType DNSClass Heap}, Sound env c → Dated done c.state.log →
      trace env c ops = .ok (calls, c') →
      Sound env c' ∧ Dated (done ++ calls) c'.state.log ∧ calls.map Prod.fst = ops := by
  intro ops
  -- on the calls to come; `done` are those made before
  induction ops with
  | nil =>
    intro calls done c c' h hDated hRun
    cases hRun
    rw [List.append_nil]
    exact ⟨h, hDated, rfl⟩
  | cons op ops ih =>
    intro calls done c c' h hDated hRun
    rw [trace] at hRun
    obtain ⟨⟨out, c₁⟩, hApply, hRun⟩ := bind_eq_ok.mp hRun
    obtain ⟨⟨rest, c₂⟩, hRest, hRun⟩ := bind_eq_ok.mp hRun
    cases hRun
    obtain ⟨h₁, events, hLog, hExplains⟩ := h.call hA op hApply
    obtain ⟨h₂, hDated₂, hOps⟩ := ih h₁ (by rw [hLog]; exact hDated.step hExplains) hRest
    rw [List.append_assoc, List.singleton_append] at hDated₂
    exact ⟨h₂, hDated₂, by rw [List.map_cons, hOps]⟩

/-- **A hit** is the last stored response under its key, aged. -/
theorem hit_of_trace (hA : env.alloc.Lawful) {enabled : Bool} {maxSizeBytes : Nat}
    (hMax : enabled = true → maxSizeBytes ≤ maxCacheBytes)
    (hRun : trace env (ResponseCache.new env enabled maxSizeBytes) ops = .ok (calls, c))
    {t : Nat} {wire : Bytes} {refresh stale : Bool}
    (hGet : c.getWithFlags env key t = .ok (some (wire, refresh, stale), c')) :
    calls.map Prod.fst = ops ∧ ∃ last done, lastStored key calls = some last ∧
      t < last.now + last.ttl * second + serveStaleWindow ∧
      stale = decide (last.now + last.ttl * second ≤ t) ∧
      ageTtls last.wire (elapsedSecs (last.ttl * second) (last.now + last.ttl * second) t) stale =
        .ok (done, wire) := by
  have hStart : Dated [] (ResponseCache.new env enabled maxSizeBytes).state.log :=
    fun key record h => by cases h
  obtain ⟨hSound, hDated, hOps⟩ := trace_dated hA (new_sound hA hMax) hStart hRun
  -- the lookup, seen as one more call of the run
  obtain ⟨-, events, -, hExplains⟩ :=
    hSound.call hA (.get key t) (by rw [apply, hGet]; rfl)
  obtain ⟨record, done, hCurrent, hEarly, hStale, hAge⟩ := LookupEvents.served hExplains
  obtain ⟨last, request, hLast, rfl⟩ := hDated key record hCurrent
  exact ⟨hOps, last, done, hLast, hEarly, hStale, hAge⟩

/-! ## The clock -/

/-- The readings a call takes while it holds the lock. -/
def Op.readings : Op RecordType DNSClass → List Nat
  | .insert _ _ _ _ _ lockedAt storedAt => [lockedAt, storedAt]
  | .get _ now => [now]
  | .release _ now => [now]
  | .candidates _ now => [now]
  | .sweep _ _ now => [now]

/-- The clock does not go back. An insert reads it once before it waits for the lock. -/
structure Clocked (ops : List (Op RecordType DNSClass)) : Prop where
  order : (ops.flatMap Op.readings).Pairwise (· ≤ ·)
  before : ∀ key ttl wire request now lockedAt storedAt,
    Op.insert key ttl wire request now lockedAt storedAt ∈ ops → now ≤ lockedAt

/-- An insert reads the clock before it waits for the lock, and no later than behind it. -/
def Op.waits : Op RecordType DNSClass → Bool
  | .insert _ _ _ _ now lockedAt _ => now ≤ lockedAt
  | _ => true

omit [DecidableEq RecordType] [DecidableEq DNSClass] in
theorem clocked_of_waits (hOrder : (ops.flatMap Op.readings).Pairwise (· ≤ ·))
    (hWaits : ∀ op ∈ ops, op.waits = true) : Clocked ops :=
  ⟨hOrder, fun _ _ _ _ _ _ _ hMem => of_decide_eq_true (hWaits _ hMem)⟩

theorem mem_of_lastStored {last : Insertion} (h : lastStored key calls = some last) :
    ∃ request lockedAt storedAt,
      Op.insert key last.ttl last.wire request last.now lockedAt storedAt ∈ calls.map Prod.fst := by
  obtain ⟨⟨op, out⟩, hCall, hStored⟩ := List.exists_of_findSome?_eq_some h
  rw [List.mem_reverse] at hCall
  obtain ⟨request, lockedAt, storedAt, rfl, rfl⟩ := storedBy_eq_some hStored
  exact ⟨request, lockedAt, storedAt, List.mem_map.mpr ⟨_, hCall, rfl⟩⟩

omit [DecidableEq RecordType] [DecidableEq DNSClass] in
theorem Clocked.le_later {later : List (Op RecordType DNSClass)} {op op' : Op RecordType DNSClass}
    {t t' : Nat} (h : Clocked (ops ++ op :: later)) (ht : t ∈ op.readings) (hOp : op' ∈ later)
    (ht' : t' ∈ op'.readings) : t ≤ t' := by
  have hOrder := h.order
  rw [List.flatMap_append, List.flatMap_cons] at hOrder
  have hLater := (List.pairwise_append.mp (List.pairwise_append.mp hOrder).2.1).2.2
  exact hLater t ht t' (List.mem_flatMap.mpr ⟨op', hOp, ht'⟩)

omit [DecidableEq RecordType] [DecidableEq DNSClass] in
/-- A lookup comes after every insert before it. -/
theorem Clocked.le {key' : Key RecordType DNSClass} {ttl now lockedAt storedAt t : Nat}
    {wire request : Bytes} (h : Clocked (ops ++ [.get key' t]))
    (hMem : .insert key ttl wire request now lockedAt storedAt ∈ ops) : now ≤ t := by
  have hNow := h.before _ _ _ _ _ _ _ (List.mem_append_left _ hMem)
  obtain ⟨before, after, rfl⟩ := List.append_of_mem hMem
  rw [List.append_assoc, List.cons_append] at h
  exact hNow.trans (h.le_later List.mem_cons_self (List.mem_append_right _ List.mem_cons_self)
    List.mem_cons_self)

/-! ## TTLs -/

/-- The TTLs of the answer section. -/
def answerTtls (wire : Bytes) : List Nat :=
  (((walk wire).found.take (countAt wire 6)).filter fun r => r.recordType ≠ optRecordType).map
    RecordAt.ttl

theorem ttls_mapTtl (f : Nat → Nat) (found : List RecordAt) :
    ((found.map (RecordAt.mapTtl f)).filter fun r => r.recordType ≠ optRecordType).map RecordAt.ttl =
      ((found.filter fun r => r.recordType ≠ optRecordType).map RecordAt.ttl).map f := by
  induction found with
  | nil => rfl
  | cons r found ih =>
    rw [List.map_cons, List.filter_cons, List.filter_cons, RecordAt.mapTtl]
    by_cases hType : r.recordType ≠ optRecordType
    · rw [if_pos hType, if_pos (decide_eq_true hType), if_pos (decide_eq_true hType), List.map_cons,
        List.map_cons, List.map_cons, ih]
    · rw [if_neg hType, if_neg (by simpa using hType), if_neg (by simpa using hType), ih]

theorem answerTtls_patched {w w' : Bytes} {f : Nat → Nat} (hf : ∀ ttl < 2 ^ 32, f ttl < 2 ^ 32)
    (h : Patched (ttlPatches f (walk w).found) w w') :
    answerTtls w' = (answerTtls w).map f := by
  rw [answerTtls, answerTtls, walk_patched hf h]
  by_cases hHeader : w.length < headerLen
  · -- too short for a header, so no records
    rw [walk, if_pos hHeader]
    simp [Walked.mapTtl]
  · rw [countAt_patched h (by omega) (by omega), Walked.mapTtl, ← List.map_take, ttls_mapTtl]

theorem min?_map_sub {l : List Nat} {a : Nat} (e : Nat) (h : l.min? = some a) :
    (l.map (· - e)).min? = some (a - e) := by
  rw [List.min?_eq_some_iff] at h ⊢
  refine ⟨List.mem_map_of_mem h.1, fun b hb => ?_⟩
  obtain ⟨x, hx, rfl⟩ := List.mem_map.mp hb
  exact Nat.sub_le_sub_right (h.2 x hx) e

/-- A duration in whole seconds, rounded up. -/
def secondsUp (n : Nat) : Nat := (n + (second - 1)) / second

/-- While a response is fresh, it ages by the seconds since its insert. -/
theorem elapsedSecs_fresh {s ttl t : Nat} (hTtl : ttl < 2 ^ 32) (hLe : s ≤ t)
    (hFresh : t < s + ttl * second) :
    elapsedSecs (ttl * second) (s + ttl * second) t = (t - s) / second := by
  have hAge : ttl * second - (s + ttl * second - t) = t - s := by omega
  -- the cap of `u32::MAX` seconds is not reached within the TTL
  have hLt : (t - s) / second < ttl := Nat.div_lt_of_lt_mul (by rw [Nat.mul_comm]; omega)
  rw [elapsedSecs, hAge]
  omega

/-- What is left of a TTL is what is left of the lifetime. -/
theorem remaining_eq {s ttl t : Nat} (hLe : s ≤ t) (hFresh : t < s + ttl * second) :
    1 ≤ ttl - (t - s) / second ∧ ttl - (t - s) / second = secondsUp (s + ttl * second - t) := by
  rw [secondsUp]
  simp only [second] at hFresh ⊢
  omega

/-! ## Hits -/

/-- What a hit at `t` owes to the insert at `s` with this TTL and these bytes. -/
structure Lifetime (s ttl : Nat) (stored : Bytes) (t : Nat) (wire : Bytes) (stale : Bool) : Prop where
  ends : t < s + ttl * second + 30 * second
  stale_iff : stale = true ↔ s + ttl * second ≤ t
  /-- a stale response has TTL 0 everywhere -/
  zeroed : stale = true → Patched (ttlPatches (fun _ => 0) (walk stored).found) stored wire
  /-- a fresh one has aged by the seconds since the insert -/
  aged : stale = false →
    Patched (ttlPatches (fun recordTtl => recordTtl - (t - s) / second) (walk stored).found) stored wire
  /-- and if the insert was made with the least TTL of the answers, what is left of it is
  what is left of the lifetime -/
  remaining : stale = false → (ageTtls stored 0 false).map Prod.fst = .ok true →
    (answerTtls stored).min? = some ttl → ∃ left, (answerTtls wire).min? = some left ∧ 1 ≤ left ∧
      left = secondsUp (s + ttl * second - t)

/-- **The lifetime of a hit.** -/
theorem hit_lifetime (hA : env.alloc.Lawful) {enabled : Bool} {maxSizeBytes : Nat}
    (hMax : enabled = true → maxSizeBytes ≤ maxCacheBytes)
    (hRun : trace env (ResponseCache.new env enabled maxSizeBytes) ops = .ok (calls, c))
    {t : Nat} (hClock : Clocked (ops ++ [.get key t])) {wire : Bytes} {refresh stale : Bool}
    (hGet : c.getWithFlags env key t = .ok (some (wire, refresh, stale), c')) :
    ∃ last, lastStored key calls = some last ∧
      (last.ttl < 2 ^ 32 → Lifetime last.now last.ttl last.wire t wire stale) := by
  obtain ⟨rfl, last, done, hLast, hEnds, rfl, hAge⟩ := hit_of_trace hA hMax hRun hGet
  refine ⟨last, hLast, fun hTtl => ?_⟩
  obtain ⟨request, lockedAt, storedAt, hMem⟩ := mem_of_lastStored hLast
  have hLe := hClock.le hMem
  obtain ⟨-, hPatched⟩ := patched_of_ageTtls hAge
  have hFresh : decide (last.now + last.ttl * second ≤ t) = false →
      Patched (ttlPatches (fun ttl => ttl - (t - last.now) / second) (walk last.wire).found)
        last.wire wire := by
    intro hStale
    have hNot : ¬ last.now + last.ttl * second ≤ t := of_decide_eq_false hStale
    rw [hStale, elapsedSecs_fresh hTtl hLe (by omega)] at hPatched
    exact hPatched
  constructor
  case ends => exact hEnds
  case stale_iff => rw [decide_eq_true_iff]
  case zeroed =>
    intro hStale
    rw [hStale] at hPatched
    exact hPatched
  case aged => exact hFresh
  case remaining =>
    intro hStale hAccepted hMin
    have hNot : ¬ last.now + last.ttl * second ≤ t := of_decide_eq_false hStale
    obtain ⟨hOne, hLeft⟩ := remaining_eq hLe (show t < last.now + last.ttl * second by omega)
    -- subtracting the same from every TTL keeps the least one least
    have hServed := answerTtls_patched
      (fun ttl h => Nat.lt_of_le_of_lt (Nat.sub_le ttl _) h) (hFresh hStale)
    refine ⟨_, ?_, hOne, hLeft⟩
    rw [hServed]
    exact min?_map_sub _ hMin

/-- A response with one A record of this TTL and whatever comes behind it. -/
def oneAnswer (answers : UInt8) (ttl : UInt8) (rest : Bytes) : Bytes :=
  [0, 1, 0x81, 0x80, 0, 0, 0, answers, 0, 0, 0, 0] ++
    [0, 0, 1, 0, 1, 0, 0, 0, ttl, 0, 4, 10, 0, 0, 1] ++ rest

def keyA : Key Nat Nat := ⟨[97, 46], 1, 1, 0⟩

/-- An insert and, some time later, a lookup. -/
def insertAndGet (wire : Bytes) (t : Nat) :
    Except Fault (Option Insertion × Option (Bytes × Bool × Bool)) := do
  let (calls, c) ← trace collidingEnv (ResponseCache.new collidingEnv true 128)
    [.insert keyA 60 wire [] 0 0 0]
  let (found, _) ← c.getWithFlags collidingEnv keyA t
  return (lastStored keyA calls, found)

theorem insertAndGet_eq_ok {wire : Bytes} {t : Nat} {last : Option Insertion}
    {found : Option (Bytes × Bool × Bool)} (h : insertAndGet wire t = .ok (last, found)) :
    ∃ calls c c', trace collidingEnv (ResponseCache.new collidingEnv true 128)
        [.insert keyA 60 wire [] 0 0 0] = .ok (calls, c) ∧
      c.getWithFlags collidingEnv keyA t = .ok (found, c') ∧ lastStored keyA calls = last := by
  rw [insertAndGet] at h
  obtain ⟨⟨calls, c⟩, hRun, h⟩ := bind_eq_ok.mp h
  obtain ⟨⟨found', c'⟩, hGet, h⟩ := bind_eq_ok.mp h
  cases h
  exact ⟨calls, c, c', hRun, hGet, rfl⟩

theorem clocked_insertAndGet (wire : Bytes) (t : Nat) :
    Clocked ([.insert keyA 60 wire [] 0 0 0] ++ [.get keyA t]) :=
  clocked_of_waits (by simp [Op.readings]) (by simp [Op.waits])

/-- After ten and a half seconds a TTL of 60 is served as 50: 49.5 seconds are left. -/
theorem hit_lifetime_fresh :
    Lifetime 0 60 (oneAnswer 1 60 []) 10500000000 (oneAnswer 1 50 []) false := by
  obtain ⟨calls, c, c', hRun, hGet, hStored⟩ := insertAndGet_eq_ok
    (show insertAndGet (oneAnswer 1 60 []) 10500000000 =
      .ok (some ⟨0, 60, oneAnswer 1 60 []⟩, some (oneAnswer 1 50 [], false, false)) by decide +kernel)
  obtain ⟨last, hLast, hLife⟩ :=
    hit_lifetime FirstFit.allocator_lawful (fun _ => by decide) hRun (clocked_insertAndGet _ _) hGet
  cases hStored.symm.trans hLast
  exact hLife (by decide)

/-! ## All or nothing -/

/-- All records can be reached, or no TTL that could change stands before the one that
cannot. -/
def AgesWhole (stored : Bytes) : Prop :=
  (walk stored).ends = none →
    ∀ r ∈ (walk stored).found, r.recordType ≠ optRecordType → r.ttl = 0

theorem ageTtls_unchanged_iff_agesWhole {stored : Bytes} :
    (∀ elapsedSecs forceZero wire,
      ageTtls stored elapsedSecs forceZero = .ok (false, wire) → wire = stored) ↔
    AgesWhole stored := by
  constructor
  · -- what is served stale gets TTL 0, so all that is reached had it before
    intro hSame hEnds r hr hType
    exact (ageTtls_unchanged_iff.mp (hSame 0 true) hEnds r hr hType).symm
  · intro hWhole elapsedSecs forceZero
    refine ageTtls_unchanged_iff.mpr fun hEnds r hr hType => ?_
    have hLe := agedTtl_le r.ttl elapsedSecs forceZero
    rw [hWhole hEnds r hr hType] at hLe ⊢
    omega

/-- **All or nothing.** An aging that fails leaves the bytes alone exactly for the
messages whose records can all be reached and for those that break off before a TTL that
could change; and a hit on one of these is served with all TTLs aged or with none. -/
theorem aging_all_or_nothing (hA : env.alloc.Lawful) {enabled : Bool} {maxSizeBytes : Nat}
    (hMax : enabled = true → maxSizeBytes ≤ maxCacheBytes) (stored : Bytes) :
    ((∀ elapsedSecs forceZero wire,
      ageTtls stored elapsedSecs forceZero = .ok (false, wire) → wire = stored) ↔
      AgesWhole stored) ∧
    (AgesWhole stored →
      ∀ (ops : List (Op RecordType DNSClass)) (calls : List (Op RecordType DNSClass × Output))
        (c c' : ResponseCache RecordType DNSClass Heap) (key : Key RecordType DNSClass) (t : Nat)
        (wire : Bytes) (refresh stale : Bool) (last : Insertion),
        trace env (ResponseCache.new env enabled maxSizeBytes) ops = .ok (calls, c) →
        c.getWithFlags env key t = .ok (some (wire, refresh, stale), c') →
        lastStored key calls = some last → last.wire = stored →
        wire = stored ∨ (walk stored).ends.isSome = true ∧ ∃ elapsedSecs,
          Patched (ttlPatches (agedTtl · elapsedSecs stale) (walk stored).found) stored wire) := by
  refine ⟨ageTtls_unchanged_iff_agesWhole, fun hWhole => ?_⟩
  rintro ops calls c c' key t wire refresh stale last hRun hGet hLast rfl
  obtain ⟨-, last', done, hLast', -, -, hAge⟩ := hit_of_trace hA hMax hRun hGet
  cases hLast.symm.trans hLast'
  obtain ⟨hEnds, hPatched⟩ := patched_of_ageTtls hAge
  -- `get_with_flags` does not look at the result; whether it was `true` decides the case
  cases done with
  | true => exact .inr ⟨hEnds, _, hPatched⟩
  | false => exact .inl (ageTtls_unchanged_iff_agesWhole.mpr hWhole _ _ _ hAge)

/-- The lookup after ten and a half seconds, served with its one TTL aged. -/
theorem aging_all_or_nothing_fresh :
    (∀ elapsedSecs forceZero wire,
      ageTtls (oneAnswer 1 60 []) elapsedSecs forceZero = .ok (false, wire) →
        wire = oneAnswer 1 60 []) ∧
    (oneAnswer 1 50 [] = oneAnswer 1 60 [] ∨ (walk (oneAnswer 1 60 [])).ends.isSome = true ∧
      ∃ elapsedSecs, Patched (ttlPatches (agedTtl · elapsedSecs false)
        (walk (oneAnswer 1 60 [])).found) (oneAnswer 1 60 []) (oneAnswer 1 50 [])) := by
  have hEnds : (walk (oneAnswer 1 60 [])).ends ≠ none := by decide +kernel
  obtain ⟨calls, c, c', hRun, hGet, hStored⟩ := insertAndGet_eq_ok
    (show insertAndGet (oneAnswer 1 60 []) 10500000000 =
      .ok (some ⟨0, 60, oneAnswer 1 60 []⟩, some (oneAnswer 1 50 [], false, false)) by decide +kernel)
  obtain ⟨hFails, hServed⟩ := aging_all_or_nothing
    (show collidingEnv.alloc.Lawful from FirstFit.allocator_lawful)
    (fun _ => show 128 ≤ maxCacheBytes by decide) (oneAnswer 1 60 [])
  have hWhole : AgesWhole (oneAnswer 1 60 []) := fun hNone => absurd hNone hEnds
  exact ⟨hFails.mpr hWhole, hServed hWhole _ _ _ _ _ _ _ _ _ _ hRun hGet hStored rfl⟩

/-- A second A record of TTL 60 whose name has a length byte that is none. -/
def badRecord : Bytes := [0x40, 0, 1, 0, 1, 0, 0, 0, 60, 0, 4, 10, 0, 0, 2]

/-- A message is aged as far as it can be walked, reported as malformed, and served by
the cache with its first record aged and its second not. -/
theorem half_aged_served :
    ageTtls (oneAnswer 2 60 badRecord) 10 false = .ok (false, oneAnswer 2 50 badRecord) ∧
      oneAnswer 2 50 badRecord ≠ oneAnswer 2 60 badRecord ∧
      insertAndGet (oneAnswer 2 60 badRecord) (10 * second) =
        .ok (some ⟨0, 60, oneAnswer 2 60 badRecord⟩,
          some (oneAnswer 2 50 badRecord, false, false)) := by
  exact ⟨by decide +kernel, by decide +kernel, by decide +kernel⟩

end DnsRs.Cache
