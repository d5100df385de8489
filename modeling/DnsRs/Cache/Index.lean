import DnsRs.Lib.Probe
import DnsRs.Cache.State

/-!
# The hash index

`Index env placed st` is the invariant of the open-addressed table: its size is
a power of two, every entry in `placed` stands in its own slot with the hash of
its key and an open path to it, every live slot is one of these, and the counts
are right and leave an empty slot. `placed` is everything between operations;
during a rehash it is what has been moved so far.

`locate_spec`: under it a lookup returns, finds exactly the placed keys, and
otherwise gives a slot where the key can be put.
-/

namespace DnsRs.Cache

open Lib Wire

variable {RecordType DNSClass Heap : Type}

namespace CacheState

variable (st : CacheState RecordType DNSClass Heap)

/-! ## Views of the slab -/

/-- The live entry at an index. -/
def live? (i : Nat) : Option (EntryMeta RecordType DNSClass) := (st.entries[i]?).join

/-- The key of the live entry at an index. -/
def keyAt (i : Nat) : Option (Key RecordType DNSClass) := (st.live? i).map (keyOf st.pool)

variable {st} {i j : Nat} {m : EntryMeta RecordType DNSClass}

theorem live?_eq_some : st.live? i = some m ↔ st.entries[i]? = some (some m) := by
  rw [live?, Option.join_eq_some_iff]

theorem lt_of_live? (h : st.live? i = some m) : i < st.entries.length :=
  (List.getElem?_eq_some_iff.mp (live?_eq_some.mp h)).1

theorem entry_eq_ok : st.entry i = .ok m ↔ st.live? i = some m := by
  rw [live?_eq_some, entry]
  constructor
  · intro h
    split at h
    · cases h
      assumption
    · cases h
  · intro h
    rw [h]

/-- What an update of one live entry does to the slab. -/
theorem modifyEntry_eq_ok (h : st.live? i = some m)
    (f : EntryMeta RecordType DNSClass → EntryMeta RecordType DNSClass) :
    st.modifyEntry i f = .ok { st with entries := st.entries.set i (some (f m)) } := by
  rw [modifyEntry, entry_eq_ok.mpr h]
  rfl

theorem live?_set {v : Option (EntryMeta RecordType DNSClass)} (hi : i < st.entries.length) :
    (({ st with entries := st.entries.set i v } : CacheState RecordType DNSClass Heap).live? j) =
      if j = i then v else st.live? j := by
  rw [live?, live?, List.getElem?_set]
  by_cases hj : i = j
  · subst hj
    rw [if_pos rfl, if_pos hi, if_pos rfl]
    rfl
  · rw [if_neg hj, if_neg fun hEq => hj hEq.symm]

theorem keyAt_eq_some {key : Key RecordType DNSClass} :
    st.keyAt i = some key ↔ ∃ m, st.live? i = some m ∧ keyOf st.pool m = key := by
  rw [keyAt, Option.map_eq_some_iff]

/-- Every live entry's allocation lies in the pool. -/
def Readable (st : CacheState RecordType DNSClass Heap) : Prop :=
  ∀ i m, st.live? i = some m → m.offset + m.totalLen ≤ st.pool.length

theorem Readable.name (h : st.Readable) (hi : st.live? i = some m) :
    st.name i = .ok (readAt st.pool m.offset m.nameLen) := by
  have hFits := h i m hi
  rw [EntryMeta.totalLen] at hFits
  rw [CacheState.name, entry_eq_ok.mpr hi, ok_bind, slice_eq_ok (by omega) (by omega),
    Nat.add_sub_cancel_left]

end CacheState

open CacheState

/-! ## Slots -/

/-- The slot points to an entry. -/
def KeySlot.isLive (slot : KeySlot) : Bool := slot.entry != emptySlot && slot.entry != tombstone

def KeySlot.isTombstone (slot : KeySlot) : Bool := slot.entry == tombstone

/-- The slot does not end a probe. -/
def Filled (table : List KeySlot) (s : Nat) : Prop :=
  ∃ slot, table[s]? = some slot ∧ slot.entry ≠ emptySlot

theorem KeySlot.isLive_iff {slot : KeySlot} :
    slot.isLive = true ↔ slot.entry ≠ emptySlot ∧ slot.entry ≠ tombstone := by
  simp [KeySlot.isLive]

theorem KeySlot.isTombstone_iff {slot : KeySlot} :
    slot.isTombstone = true ↔ slot.entry = tombstone := by
  simp [KeySlot.isTombstone]

/-- A table without an empty slot is made of live slots and tombstones. -/
theorem length_eq_of_filled {table : List KeySlot} (h : ∀ slot ∈ table, slot.entry ≠ emptySlot) :
    table.countP KeySlot.isLive + table.countP KeySlot.isTombstone = table.length := by
  induction table with
  | nil => rfl
  | cons slot table ih =>
    have hRest := ih fun x hx => h x (List.mem_cons_of_mem _ hx)
    have hSlot := h slot List.mem_cons_self
    rw [List.countP_cons, List.countP_cons, List.length_cons]
    by_cases hTomb : slot.entry = tombstone
    · have hDead : slot.isLive = false := by simp [KeySlot.isLive, hTomb]
      rw [hDead, KeySlot.isTombstone_iff.mpr hTomb, if_neg (by simp), if_pos rfl]
      omega
    · have hNot : slot.isTombstone = false := by simp [KeySlot.isTombstone, hTomb]
      rw [hNot, KeySlot.isLive_iff.mpr ⟨hSlot, hTomb⟩, if_pos rfl, if_neg (by simp)]
      omega

/-! ## The invariant -/

/-- The table serves the entries in `placed`. -/
structure Index (env : Env RecordType DNSClass Heap) (placed : Nat → Prop)
    (st : CacheState RecordType DNSClass Heap) : Prop where
  size : ∃ k, st.table.length = 2 ^ k
  small : st.table.length ≤ 2 ^ 32
  /-- No index is one of the two sentinels. -/
  proper : st.entries.length ≤ tombstone
  placed_slot : ∀ i m, placed i → st.live? i = some m →
    st.table[m.tableSlot]? = some ⟨env.keyHash (keyOf st.pool m), i⟩ ∧
      Open (Filled st.table) st.table.length (env.keyHash (keyOf st.pool m)).toNat m.tableSlot
  slot_placed : ∀ (s : Nat) (slot : KeySlot), st.table[s]? = some slot → slot.isLive = true →
    placed slot.entry ∧ ∃ m, st.live? slot.entry = some m ∧ m.tableSlot = s
  tableLen_eq : st.tableLen = st.table.countP KeySlot.isLive
  tombstones_eq : st.tombstones = st.table.countP KeySlot.isTombstone
  room : st.tableLen + st.tombstones < st.table.length

section Locate

variable {env : Env RecordType DNSClass Heap} {placed : Nat → Prop}
  {st : CacheState RecordType DNSClass Heap}

theorem Index.exists_empty (h : Index env placed st) :
    ∃ s < st.table.length, ¬ Filled st.table s := by
  by_contra hNone
  push Not at hNone
  -- otherwise the two counts would add up to the size
  have hAll : ∀ slot ∈ st.table, slot.entry ≠ emptySlot := by
    intro slot hSlot
    obtain ⟨s, hs⟩ := List.getElem?_of_mem hSlot
    obtain ⟨slot', hs', hFilled⟩ := hNone s (List.getElem?_eq_some_iff.mp hs).1
    rw [hs] at hs'
    cases hs'
    exact hFilled
  have hLen := length_eq_of_filled hAll
  have hRoom := h.room
  rw [h.tableLen_eq, h.tombstones_eq] at hRoom
  omega

/-- The slot of an index is live. -/
theorem Index.isLive (h : Index env placed st) {i : Nat} (hi : i < st.entries.length) (hash : UInt64) :
    (⟨hash, i⟩ : KeySlot).isLive = true := by
  have hProper := h.proper
  have hOrder : tombstone < emptySlot := by decide
  refine KeySlot.isLive_iff.mpr ⟨?_, ?_⟩
  · exact fun hEq : i = emptySlot => by omega
  · exact fun hEq : i = tombstone => by omega

/-- What is known of the answer to a lookup from position `j` of its path on,
when the first empty slot is at position `e`. -/
def LocatedFrom (placed : Nat → Prop) (st : CacheState RecordType DNSClass Heap) (hash : UInt64)
    (key : Key RecordType DNSClass) (e j : Nat) : Locate → Prop
  | .found i => placed i ∧ st.keyAt i = some key
  | .vacant s =>
    (∀ (i : Nat) (slot : KeySlot), j ≤ i → i < e →
      st.table[probe st.table.length hash.toNat i]? = some slot → slot.isLive = true →
      slot.hash = hash → st.keyAt slot.entry ≠ some key) ∧
    ∃ i ≤ e, probe st.table.length hash.toNat i = s ∧
      ∃ slot, st.table[s]? = some slot ∧ slot.isLive = false

/-- A slot that does not hold the key can be passed over. -/
theorem LocatedFrom.step {hash : UInt64} {key : Key RecordType DNSClass} {e j : Nat} {r : Locate}
    (h : LocatedFrom placed st hash key e (j + 1) r)
    (hSkip : ∀ slot, st.table[probe st.table.length hash.toNat j]? = some slot →
      slot.isLive = true → slot.hash = hash → st.keyAt slot.entry ≠ some key) :
    LocatedFrom placed st hash key e j r := by
  cases r with
  | found i => exact h
  | vacant s =>
    refine ⟨fun i slot hi hi' hSlot => ?_, h.2⟩
    -- position `j` itself is the slot that was passed over
    rcases Nat.lt_or_eq_of_le hi with hi | rfl
    · exact h.1 i slot hi hi' hSlot
    · exact hSkip slot hSlot

variable [DecidableEq RecordType] [DecidableEq DNSClass]

/-- Comparing a live entry's key returns. -/
theorem keyMatches_eq_ok (hRead : st.Readable) {i : Nat} {m : EntryMeta RecordType DNSClass}
    (hi : st.live? i = some m) (key : Key RecordType DNSClass) :
    st.keyMatches i key = .ok (decide (keyOf st.pool m = key)) := by
  rw [keyMatches, entry_eq_ok.mpr hi, ok_bind, hRead.name hi]
  split
  · rename_i hSame
    obtain ⟨hType, hClass, hFlags⟩ := hSame
    rw [ok_bind, pure_eq_ok]
    congr 1
    rw [Bool.eq_iff_iff, beq_iff_eq, decide_eq_true_iff]
    constructor
    · intro hName
      rw [keyOf, hName, hType, hClass, hFlags]
    · intro hKey
      rw [← hKey]
      rfl
  · rename_i hDiffer
    rw [pure_eq_ok]
    congr 1
    symm
    rw [decide_eq_false_iff_not]
    rintro rfl
    exact hDiffer ⟨rfl, rfl, rfl⟩

/-- A lookup that has not been stopped up to position `j` returns. -/
theorem locateFrom_spec (h : Index env placed st) (hRead : st.Readable)
    (hash : UInt64) (key : Key RecordType DNSClass) {e : Nat}
    (hEmpty : ¬ Filled st.table (probe st.table.length hash.toNat e))
    (hBefore : ∀ i < e, Filled st.table (probe st.table.length hash.toNat i)) :
    ∀ (fuel j : Nat) (first : Option Nat), j ≤ e → e < j + fuel →
      (∀ s, first = some s → ∃ i ≤ e, probe st.table.length hash.toNat i = s ∧
        ∃ slot, st.table[s]? = some slot ∧ slot.isLive = false) →
      ∃ r, st.locateFrom hash key (st.table.length - 1) fuel
          (probe st.table.length hash.toNat j) first = .ok r ∧
        LocatedFrom placed st hash key e j r := by
  obtain ⟨k, hk⟩ := h.size
  have hPos : 0 < st.table.length := by
    rw [hk]
    exact Nat.two_pow_pos k
  intro fuel
  induction fuel with
  | zero =>
    intro j first hj hFuel
    omega
  | succ fuel ih =>
    intro j first hj hFuel hFirst
    have hLt := probe_lt hPos hash.toNat j
    obtain ⟨slot, hSlot⟩ : ∃ slot, st.table[probe st.table.length hash.toNat j]? = some slot :=
      ⟨_, List.getElem?_eq_getElem hLt⟩
    have hNext : (probe st.table.length hash.toNat j + 1) &&& (st.table.length - 1) =
        probe st.table.length hash.toNat (j + 1) := by
      rw [land_mask hk, probe_succ]
    rw [locateFrom, hSlot]
    simp only [hNext]
    by_cases hEnd : slot.entry = emptySlot
    · -- the probe ends here, at the first empty slot
      have hEq : j = e := by
        by_contra hne
        obtain ⟨slot', hSlot', hFilled⟩ := hBefore j (by omega)
        rw [hSlot] at hSlot'
        cases hSlot'
        exact hFilled hEnd
      subst hEq
      rw [if_pos hEnd]
      refine ⟨_, rfl, fun i slot hi hi' => by omega, ?_⟩
      cases first with
      | none => exact ⟨j, Nat.le_refl _, rfl, slot, hSlot, by simp [KeySlot.isLive, hEnd]⟩
      | some s => exact hFirst s rfl
    · -- the slot is filled, so the first empty one is further on
      have hLater : j < e := by
        rcases Nat.lt_or_eq_of_le hj with hLt | rfl
        · exact hLt
        · exact absurd ⟨slot, hSlot, hEnd⟩ hEmpty
      rw [if_neg hEnd]
      by_cases hTomb : slot.entry = tombstone
      · -- a tombstone is passed over, and remembered if it is the first
        rw [if_pos hTomb]
        have hDead : slot.isLive = false := by simp [KeySlot.isLive, hTomb]
        obtain ⟨r, hr, hSpec⟩ := ih (j + 1) (some (first.getD (probe st.table.length hash.toNat j)))
          hLater (by omega) (by
            intro s hs
            cases first with
            | none =>
              cases hs
              exact ⟨j, hj, rfl, slot, hSlot, hDead⟩
            | some s' =>
              cases hs
              exact hFirst s' rfl)
        refine ⟨r, hr, hSpec.step fun slot' hSlot' hLive => ?_⟩
        rw [hSlot] at hSlot'
        cases hSlot'
        rw [hDead] at hLive
        cases hLive
      · rw [if_neg hTomb]
        have hLive : slot.isLive = true := KeySlot.isLive_iff.mpr ⟨hEnd, hTomb⟩
        obtain ⟨hPlaced, m, hm, -⟩ := h.slot_placed _ slot hSlot hLive
        obtain ⟨r, hr, hSpec⟩ := ih (j + 1) first hLater (by omega) hFirst
        -- what the rest says, once this slot is known not to hold the key
        have hRest : (slot.hash = hash → st.keyAt slot.entry ≠ some key) →
            LocatedFrom placed st hash key e j r := by
          intro hOther
          refine hSpec.step fun slot' hSlot' _ => ?_
          rw [hSlot] at hSlot'
          cases hSlot'
          exact hOther
        -- the key is compared only behind an equal hash
        by_cases hHash : slot.hash = hash
        · rw [if_pos hHash, keyMatches_eq_ok hRead hm, ok_bind]
          by_cases hKey : keyOf st.pool m = key
          · rw [decide_eq_true hKey, if_pos rfl]
            exact ⟨_, rfl, hPlaced, keyAt_eq_some.mpr ⟨m, hm, hKey⟩⟩
          · rw [decide_eq_false hKey, if_neg (by simp)]
            refine ⟨r, hr, hRest fun _ hAt => ?_⟩
            obtain ⟨m', hm', hKey'⟩ := keyAt_eq_some.mp hAt
            rw [hm] at hm'
            cases hm'
            exact hKey hKey'
        · rw [if_neg hHash]
          exact ⟨r, hr, hRest fun hEq => absurd hEq hHash⟩

/-- **Lookup.** A lookup returns. It finds a placed entry with the key, or there
is none and the slot it gives is not live and reached by an open path. -/
theorem locate_spec (h : Index env placed st) (hRead : st.Readable)
    (key : Key RecordType DNSClass) :
    (∃ i, st.locate (env.keyHash key) key = .ok (.found i) ∧ placed i ∧ st.keyAt i = some key) ∨
    (∃ s, st.locate (env.keyHash key) key = .ok (.vacant s) ∧
      (∀ i, placed i → st.keyAt i ≠ some key) ∧
      (∃ slot, st.table[s]? = some slot ∧ slot.isLive = false) ∧
      Open (Filled st.table) st.table.length (env.keyHash key).toNat s) := by
  classical
  obtain ⟨k, hk⟩ := h.size
  obtain ⟨s₀, hs₀, hEmpty₀⟩ := h.exists_empty
  -- the probe sees every slot, so it ends at the first empty one
  obtain ⟨e, he, hEmpty, hBefore⟩ := exists_first (env.keyHash key).toNat hs₀ hEmpty₀
  obtain ⟨r, hr, hSpec⟩ := locateFrom_spec h hRead (env.keyHash key) key hEmpty hBefore
    st.table.length 0 none (Nat.zero_le _) (by omega) nofun
  have hLocate : st.locate (env.keyHash key) key = .ok r := by
    rw [locate, if_neg (by omega)]
    simp only [land_mask hk]
    exact hr
  cases r with
  | found i => exact .inl ⟨i, hLocate, hSpec⟩
  | vacant s =>
    obtain ⟨hNone, i, hi, rfl, hSlot⟩ := hSpec
    refine .inr ⟨_, hLocate, fun j hj hAt => ?_, hSlot, i, by omega, rfl, fun l hl =>
      hBefore l (by omega)⟩
    -- a placed entry with the key stands before the first empty slot
    obtain ⟨m, hm, hKey⟩ := keyAt_eq_some.mp hAt
    obtain ⟨hAtSlot, hOpen⟩ := h.placed_slot j m hj hm
    rw [hKey] at hAtSlot hOpen
    have hLive := h.isLive (lt_of_live? hm) (env.keyHash key)
    obtain ⟨l, hl, -, hProbe⟩ := hOpen.before_first hEmpty
      ⟨_, hAtSlot, (KeySlot.isLive_iff.mp hLive).1⟩
    exact hNone l _ (Nat.zero_le _) hl (by rw [hProbe]; exact hAtSlot) hLive rfl hAt

end Locate

end DnsRs.Cache
