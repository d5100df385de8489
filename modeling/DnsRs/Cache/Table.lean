import DnsRs.Cache.Links
import DnsRs.Lib.Lists

/-!
# Keeping the hash index

The three things that happen to the table. Evicting an entry leaves a tombstone
in its slot (`Index.discarded`); a new entry is put where `locate` says
(`Index.placedAt`); and a rehash puts all entries into a fresh table, one after
the other (`rehash_spec`). `ensure_table_capacity` leaves room for one more
entry, whichever way it goes (`ensureTableCapacity_spec`).
-/

namespace DnsRs.Cache

open Lib Wire CacheState

variable {RecordType DNSClass Heap : Type}

namespace CacheState

/-- The number of occupied slab entries among the first `n`. -/
def occupiedBelow (st : CacheState RecordType DNSClass Heap) (n : Nat) : Nat :=
  (st.entries.take n).countP Option.isSome

/-- The number of occupied slab entries. -/
def occupied (st : CacheState RecordType DNSClass Heap) : Nat := st.entries.countP Option.isSome

/-- What `evict` leaves behind. -/
def discarded (env : Env RecordType DNSClass Heap) (st : CacheState RecordType DNSClass Heap)
    (entry : Nat) (m : EntryMeta RecordType DNSClass) (reason : Reason) :
    CacheState RecordType DNSClass Heap :=
  { st with
    entries := st.entries.set entry none
    table := st.table.set m.tableSlot ⟨env.keyHash (keyOf st.pool m), tombstone⟩
    tableLen := st.tableLen - 1
    tombstones := st.tombstones + 1
    heap := env.alloc.deallocate st.heap m.offset m.totalLen
    freeEntries := entry :: st.freeEntries
    log := .evicted (keyOf st.pool m) reason :: st.log }

/-- What placing an entry in the table leads to. -/
def placedAt (env : Env RecordType DNSClass Heap) (st : CacheState RecordType DNSClass Heap)
    (slot entry : Nat) (m : EntryMeta RecordType DNSClass) (tombstones : Nat) :
    CacheState RecordType DNSClass Heap :=
  { st with
    entries := st.entries.set entry (some { m with tableSlot := slot })
    table := st.table.set slot ⟨env.keyHash (keyOf st.pool m), entry⟩
    tableLen := st.tableLen + 1
    tombstones := tombstones }

end CacheState

variable {env : Env RecordType DNSClass Heap} {placed : Nat → Prop}
  {st st₁ st₂ : CacheState RecordType DNSClass Heap} {i : Nat} {m : EntryMeta RecordType DNSClass}

/-! ## Slots and counts -/

theorem Same.occupiedBelow (h : Same st₁ st₂) (n : Nat) :
    st₂.occupiedBelow n = st₁.occupiedBelow n := by
  -- occupancy is one bit of each slab entry, and the bits agree
  have hMap : st₂.entries.map Option.isSome = st₁.entries.map Option.isSome := by
    refine List.ext_getElem (by simp [h.length]) fun i hi₂ hi₁ => ?_
    rw [List.length_map] at hi₁ hi₂
    have hSome := h.isSome i
    rw [live?, live?, List.getElem?_eq_getElem hi₁, List.getElem?_eq_getElem hi₂] at hSome
    simpa using hSome
  have hCount : ∀ l : List (Option (EntryMeta RecordType DNSClass)),
      (l.take n).countP Option.isSome = ((l.map Option.isSome).take n).countP id := fun l => by
    rw [← List.map_take, List.countP_map]
    rfl
  rw [CacheState.occupiedBelow, CacheState.occupiedBelow, hCount, hCount, hMap]

theorem occupiedBelow_length : st.occupiedBelow st.entries.length = st.occupied := by
  rw [occupiedBelow, List.take_length, occupied]

theorem Same.occupied (h : Same st₁ st₂) : st₂.occupied = st₁.occupied := by
  rw [← occupiedBelow_length, ← occupiedBelow_length, h.length, h.occupiedBelow]

theorem occupiedBelow_succ {e : Option (EntryMeta RecordType DNSClass)}
    (h : st.entries[i]? = some e) :
    st.occupiedBelow (i + 1) = st.occupiedBelow i + if e.isSome = true then 1 else 0 := by
  rw [occupiedBelow, List.take_add_one, h, List.countP_append, occupiedBelow, Option.toList_some,
    List.countP_singleton]

theorem occupiedBelow_le (st : CacheState RecordType DNSClass Heap) (n : Nat) :
    st.occupiedBelow n ≤ st.occupied :=
  (List.take_sublist n st.entries).countP_le

theorem filled_set {table : List KeySlot} {s : Nat} (hs : s < table.length) {new : KeySlot}
    (hNew : new.entry ≠ emptySlot) {x : Nat} (h : Filled table x) : Filled (table.set s new) x := by
  obtain ⟨slot, hSlot, hEntry⟩ := h
  rw [Filled, List.getElem?_set]
  by_cases hx : s = x
  · rw [if_pos hx, if_pos hs]
    exact ⟨new, rfl, hNew⟩
  · rw [if_neg hx]
    exact ⟨slot, hSlot, hEntry⟩

theorem tombstone_ne_emptySlot : tombstone ≠ emptySlot := by decide

/-- An entry is referred to by its own slot only. -/
theorem Index.one_slot (h : Index env (fun _ => True) st)
    (hi : st.live? i = some m) (s : Nat) :
    (∃ slot, st.table[s]? = some slot ∧ slot.entry = i) ↔ s = m.tableSlot := by
  constructor
  · rintro ⟨slot, hSlot, rfl⟩
    obtain ⟨-, m', hm', hAt⟩ := h.slot_placed s slot hSlot (h.isLive (lt_of_live? hi) slot.hash)
    rw [hi] at hm'
    cases hm'
    exact hAt.symm
  · rintro rfl
    exact ⟨_, (h.placed_slot i m trivial hi).1, rfl⟩

/-- No tombstones are counted, so no slot is one. -/
theorem Index.isTombstone_of_none (h : Index env placed st) (hNone : st.tombstones = 0) {s : Nat}
    {slot : KeySlot} (hSlot : st.table[s]? = some slot) : slot.isTombstone = false := by
  by_contra hTomb
  have hPos : 0 < st.table.countP KeySlot.isTombstone :=
    List.countP_pos_iff.mpr
      ⟨slot, List.mem_of_getElem? hSlot, Bool.eq_true_of_not_eq_false hTomb⟩
  rw [← h.tombstones_eq] at hPos
  omega

/-- The path to a slot, written as the loop of `locate` takes it. -/
theorem Index.path (h : Index env (fun _ => True) st) (hi : st.live? i = some m) :
    ∃ n, (((env.keyHash (keyOf st.pool m)).toNat &&& (st.table.length - 1)) + n) %
        st.table.length = m.tableSlot ∧
      ∀ k < n, Filled st.table
        ((((env.keyHash (keyOf st.pool m)).toNat &&& (st.table.length - 1)) + k) %
          st.table.length) := by
  obtain ⟨k, hk⟩ := h.size
  obtain ⟨n, -, hProbe, hFilled⟩ := (h.placed_slot i m trivial hi).2
  -- masking is reduction modulo the size, a power of two
  have hStep : ∀ j, (((env.keyHash (keyOf st.pool m)).toNat &&& (st.table.length - 1)) + j) %
      st.table.length = probe st.table.length (env.keyHash (keyOf st.pool m)).toNat j := by
    intro j
    rw [land_mask hk, probe, Nat.mod_add_mod]
  refine ⟨n, ?_, fun j hj => ?_⟩
  · rw [hStep, hProbe]
  · rw [hStep]
    exact hFilled j hj

/-! ## Evicting -/

/-- The slot of a placed entry is counted. -/
theorem Index.tableLen_pos (h : Index env placed st) (hPlaced : placed i)
    (hi : st.live? i = some m) : 0 < st.tableLen := by
  obtain ⟨hSlot, -⟩ := h.placed_slot i m hPlaced hi
  rw [h.tableLen_eq]
  exact List.countP_pos_iff.mpr ⟨_, List.mem_of_getElem? hSlot, h.isLive (lt_of_live? hi) _⟩

theorem discard_eq_ok (h : Index env placed st) (hPlaced : placed i) (hi : st.live? i = some m)
    (reason : Reason) : st.discard env i m reason = .ok (st.discarded env i m reason) := by
  obtain ⟨hSlot, -⟩ := h.placed_slot i m hPlaced hi
  have hPos := h.tableLen_pos hPlaced hi
  rw [CacheState.discard, hSlot]
  simp only [if_neg (show ¬ st.tableLen = 0 by omega)]
  rfl

theorem live?_discarded (env : Env RecordType DNSClass Heap) (hi : st.live? i = some m)
    (reason : Reason) (j : Nat) :
    (st.discarded env i m reason).live? j = if j = i then none else st.live? j :=
  live?_set (lt_of_live? hi)

theorem Index.discarded (h : Index env (fun _ => True) st) (hi : st.live? i = some m)
    (reason : Reason) : Index env (fun _ => True) (st.discarded env i m reason) := by
  obtain ⟨hSlot, -⟩ := h.placed_slot i m trivial hi
  have hLt := (List.getElem?_eq_some_iff.mp hSlot).1
  have hLive := h.isLive (lt_of_live? hi) (env.keyHash (keyOf st.pool m))
  have hNotTomb : (⟨env.keyHash (keyOf st.pool m), i⟩ : KeySlot).isTombstone = false := by
    simpa [KeySlot.isTombstone] using (KeySlot.isLive_iff.mp hLive).2
  have hPos := h.tableLen_pos trivial hi
  have hView := live?_discarded env hi reason
  constructor
  case size => simpa [CacheState.discarded] using h.size
  case small => simpa [CacheState.discarded] using h.small
  case proper => simpa [CacheState.discarded] using h.proper
  case placed_slot =>
    intro j m' _ hj
    rw [hView] at hj
    split at hj
    · cases hj
    · rename_i hne
      obtain ⟨hSlot', hOpen⟩ := h.placed_slot j m' trivial hj
      constructor
      · -- its slot is another one, for that of `i` holds `i`
        have hOther : m.tableSlot ≠ m'.tableSlot := by
          intro hEq
          rw [hEq, hSlot'] at hSlot
          exact hne (congrArg KeySlot.entry (Option.some.inj hSlot))
        simp only [CacheState.discarded]
        rw [List.getElem?_set, if_neg hOther]
        exact hSlot'
      · simp only [CacheState.discarded, List.length_set]
        exact hOpen.mono fun x => filled_set hLt tombstone_ne_emptySlot
  case slot_placed =>
    intro s slot hs hSlotLive
    simp only [CacheState.discarded] at hs
    rw [List.getElem?_set, if_pos hLt] at hs
    split at hs
    · cases hs
      exact absurd rfl (KeySlot.isLive_iff.mp hSlotLive).2
    · rename_i hne
      obtain ⟨-, m', hm', hAt⟩ := h.slot_placed s slot hs hSlotLive
      -- the slot of `i` is the one that was overwritten
      have hOther : slot.entry ≠ i := by
        intro hEq
        rw [hEq, hi] at hm'
        cases hm'
        exact hne hAt
      refine ⟨trivial, m', ?_, hAt⟩
      rw [hView, if_neg hOther]
      exact hm'
  case tableLen_eq =>
    have hCount := countP_set (p := KeySlot.isLive) hSlot
      ⟨env.keyHash (keyOf st.pool m), tombstone⟩
    rw [hLive, ← h.tableLen_eq] at hCount
    simp only [KeySlot.isLive, CacheState.discarded] at hCount ⊢
    simp at hCount
    omega
  case tombstones_eq =>
    have hCount := countP_set (p := KeySlot.isTombstone) hSlot
      ⟨env.keyHash (keyOf st.pool m), tombstone⟩
    rw [hNotTomb, ← h.tombstones_eq] at hCount
    simp only [KeySlot.isTombstone, CacheState.discarded] at hCount ⊢
    simp at hCount
    omega
  case room =>
    have hRoom := h.room
    simp only [CacheState.discarded, List.length_set]
    omega

theorem occupied_discarded (env : Env RecordType DNSClass Heap) (hi : st.live? i = some m)
    (reason : Reason) :
    (st.discarded env i m reason).occupied + 1 = st.occupied := by
  have hCount := countP_set (p := Option.isSome) (live?_eq_some.mp hi) none
  simpa [CacheState.occupied, CacheState.discarded] using hCount

/-! ## Placing -/

theorem place_eq_ok (h : Index env placed st) (hi : st.live? i = some m) {s : Nat}
    (hs : s < st.table.length) (tombs : Nat) :
    ({ st with tombstones := tombs } : CacheState RecordType DNSClass Heap).place s
      (env.keyHash (keyOf st.pool m)) i = .ok (st.placedAt env s i m tombs) := by
  have hSmall := h.small
  have hLive : ({ st with
      tombstones := tombs
      table := st.table.set s ⟨env.keyHash (keyOf st.pool m), i⟩
      tableLen := st.tableLen + 1 } : CacheState RecordType DNSClass Heap).live? i = some m := hi
  rw [place]
  simp only [if_pos hs]
  rw [modifyEntry_eq_ok hLive, Nat.mod_eq_of_lt (by omega)]
  rfl

theorem live?_placedAt (env : Env RecordType DNSClass Heap) (hi : st.live? i = some m)
    (s tombs j : Nat) :
    (st.placedAt env s i m tombs).live? j =
      if j = i then some { m with tableSlot := s } else st.live? j :=
  live?_set (lt_of_live? hi)

/-- **Placing.** An entry goes into a slot that is not live and is reached by an
open path. -/
theorem Index.placedAt (h : Index env placed st) (hi : st.live? i = some m) (hNew : ¬ placed i)
    {s : Nat} {old : KeySlot} (hSlot : st.table[s]? = some old) (hDead : old.isLive = false)
    (hOpen : Open (Filled st.table) st.table.length (env.keyHash (keyOf st.pool m)).toNat s)
    (hRoom : st.tableLen + st.tombstones + 1 < st.table.length) (tombs : Nat)
    (hTombs : tombs + (if old.isTombstone = true then 1 else 0) = st.tombstones) :
    Index env (fun j => placed j ∨ j = i) (st.placedAt env s i m tombs) := by
  have hLt := (List.getElem?_eq_some_iff.mp hSlot).1
  have hLive := h.isLive (lt_of_live? hi) (env.keyHash (keyOf st.pool m))
  obtain ⟨hNotEmpty, hNotTomb⟩ := KeySlot.isLive_iff.mp hLive
  have hView := live?_placedAt env hi s tombs
  have hFilled : ∀ x, Filled st.table x →
      Filled (st.table.set s ⟨env.keyHash (keyOf st.pool m), i⟩) x := fun x =>
    filled_set hLt hNotEmpty
  constructor
  case size => simpa [CacheState.placedAt] using h.size
  case small => simpa [CacheState.placedAt] using h.small
  case proper => simpa [CacheState.placedAt] using h.proper
  case placed_slot =>
    intro j m' hj hm'
    simp only [CacheState.placedAt, List.length_set, List.getElem?_set]
    rw [hView] at hm'
    split at hm'
    · cases hm'
      subst_vars
      -- the new entry is where the probe from its hash leads
      exact ⟨by simp only [if_true, if_pos hLt]; rfl, hOpen.mono hFilled⟩
    · rename_i hne
      obtain ⟨hSlot', hOpen'⟩ := h.placed_slot j m' (hj.resolve_right hne) hm'
      -- its slot is live, the one that was taken is not
      have hOther : s ≠ m'.tableSlot := by
        rintro rfl
        rw [hSlot] at hSlot'
        cases hSlot'
        rw [h.isLive (lt_of_live? hm')] at hDead
        cases hDead
      rw [if_neg hOther]
      exact ⟨hSlot', hOpen'.mono hFilled⟩
  case slot_placed =>
    intro x slot hx hSlotLive
    simp only [CacheState.placedAt] at hx
    rw [List.getElem?_set, if_pos hLt] at hx
    split at hx
    · cases hx
      exact ⟨.inr rfl, _, by rw [hView, if_pos rfl], by assumption⟩
    · obtain ⟨hPlaced, m', hm', hAt⟩ := h.slot_placed x slot hx hSlotLive
      have hOther : slot.entry ≠ i := fun hEq => hNew (hEq ▸ hPlaced)
      exact ⟨.inl hPlaced, m', by rw [hView, if_neg hOther]; exact hm', hAt⟩
  case tableLen_eq =>
    have hCount := countP_set (p := KeySlot.isLive) hSlot
      ⟨env.keyHash (keyOf st.pool m), i⟩
    rw [hDead, hLive, ← h.tableLen_eq, if_neg (by simp), if_pos rfl] at hCount
    simp only [CacheState.placedAt]
    omega
  case tombstones_eq =>
    have hCount := countP_set (p := KeySlot.isTombstone) hSlot
      ⟨env.keyHash (keyOf st.pool m), i⟩
    have hNo : (⟨env.keyHash (keyOf st.pool m), i⟩ : KeySlot).isTombstone = false := by
      simpa [KeySlot.isTombstone] using hNotTomb
    rw [hNo, ← h.tombstones_eq, if_neg Bool.false_ne_true] at hCount
    simp only [CacheState.placedAt]
    omega
  case room =>
    simp only [CacheState.placedAt, List.length_set]
    omega

/-- Only what `placed` says of live entries matters. -/
theorem Index.congr_placed {placed' : Nat → Prop} (h : Index env placed st)
    (hIff : ∀ j, (st.live? j).isSome = true → (placed' j ↔ placed j)) : Index env placed' st := by
  constructor
  case size => exact h.size
  case small => exact h.small
  case proper => exact h.proper
  case placed_slot =>
    intro j m' hj hm'
    exact h.placed_slot j m' ((hIff j (by rw [hm']; rfl)).mp hj) hm'
  case slot_placed =>
    intro s slot hs hLive
    obtain ⟨hPlaced, m', hm', hAt⟩ := h.slot_placed s slot hs hLive
    exact ⟨(hIff _ (by rw [hm']; rfl)).mpr hPlaced, m', hm', hAt⟩
  case tableLen_eq => exact h.tableLen_eq
  case tombstones_eq => exact h.tombstones_eq
  case room => exact h.room

/-! ## Rehashing -/

/-- An entry but for its slot. -/
def EntryMeta.unslotted (m : EntryMeta RecordType DNSClass) : EntryMeta RecordType DNSClass :=
  { m with tableSlot := 0 }

/-- Both states differ in nothing but the table. -/
structure Reslotted (st₁ st₂ : CacheState RecordType DNSClass Heap) : Prop where
  pool : st₂.pool = st₁.pool
  heap : st₂.heap = st₁.heap
  freeEntries : st₂.freeEntries = st₁.freeEntries
  lruHead : st₂.lruHead = st₁.lruHead
  lruTail : st₂.lruTail = st₁.lruTail
  log : st₂.log = st₁.log
  length : st₂.entries.length = st₁.entries.length
  entry : ∀ i, (st₂.live? i).map EntryMeta.unslotted = (st₁.live? i).map EntryMeta.unslotted

theorem Reslotted.refl (st : CacheState RecordType DNSClass Heap) : Reslotted st st :=
  ⟨rfl, rfl, rfl, rfl, rfl, rfl, rfl, fun _ => rfl⟩

theorem Reslotted.trans {st₃ : CacheState RecordType DNSClass Heap} (h : Reslotted st₁ st₂)
    (h' : Reslotted st₂ st₃) : Reslotted st₁ st₃ :=
  ⟨h'.pool.trans h.pool, h'.heap.trans h.heap, h'.freeEntries.trans h.freeEntries,
    h'.lruHead.trans h.lruHead, h'.lruTail.trans h.lruTail, h'.log.trans h.log,
    h'.length.trans h.length, fun i => (h'.entry i).trans (h.entry i)⟩

theorem Reslotted.view {α : Type} (h : Reslotted st₁ st₂)
    (view : EntryMeta RecordType DNSClass → α) (i : Nat) :
    (st₂.live? i).map (view ∘ EntryMeta.unslotted) =
      (st₁.live? i).map (view ∘ EntryMeta.unslotted) := by
  rw [← Option.map_map, ← Option.map_map, h.entry i]

theorem Reslotted.same (h : Reslotted st₁ st₂) : Same st₁ st₂ :=
  ⟨h.pool, h.heap, h.freeEntries, h.log, h.length, h.view EntryMeta.body⟩

theorem Reslotted.lruList {l : List Nat} (h : Reslotted st₁ st₂) (hList : st₁.LruList l) :
    st₂.LruList l := by
  have hNext : st₂.nextOf = st₁.nextOf :=
    funext fun i => congrArg (Option.getD · noEntry) (h.view EntryMeta.next i)
  have hPrev : st₂.prevOf = st₁.prevOf :=
    funext fun i => congrArg (Option.getD · noEntry) (h.view EntryMeta.prev i)
  rw [LruList, hNext, hPrev, h.lruHead, h.lruTail]
  exact hList

theorem reslotted_placedAt (env : Env RecordType DNSClass Heap) (hi : st.live? i = some m)
    (s tombs : Nat) :
    Reslotted st (st.placedAt env s i m tombs) := by
  refine ⟨rfl, rfl, rfl, rfl, rfl, rfl, List.length_set, fun j => ?_⟩
  rw [live?_placedAt env hi]
  split
  · subst_vars
    rw [hi]
    rfl
  · rfl

/-- No two live entries have the same key. -/
def Distinct (st : CacheState RecordType DNSClass Heap) : Prop :=
  ∀ i j key, st.keyAt i = some key → st.keyAt j = some key → i = j

theorem Same.distinct (h : Same st₁ st₂) (hDistinct : Distinct st₁) : Distinct st₂ := by
  intro i j key hi hj
  rw [h.keyAt] at hi hj
  exact hDistinct i j key hi hj

/-- An empty table serves no entry. -/
theorem index_fresh (st : CacheState RecordType DNSClass Heap) {k : Nat} (hSize : 2 ^ k ≤ 2 ^ 32)
    (hProper : st.entries.length ≤ tombstone) :
    Index env (· < 0)
      { st with table := List.replicate (2 ^ k) .empty, tableLen := 0, tombstones := 0 } := by
  have hEmpty : ∀ (s : Nat) (slot : KeySlot),
      (List.replicate (2 ^ k) KeySlot.empty)[s]? = some slot → slot = .empty := fun s slot hs =>
    List.eq_of_mem_replicate (List.mem_of_getElem? hs)
  constructor
  case size => exact ⟨k, List.length_replicate⟩
  case small => simpa using hSize
  case proper => exact hProper
  case placed_slot => exact fun i m hi => absurd hi (Nat.not_lt_zero i)
  case slot_placed =>
    intro s slot hs hLive
    rw [hEmpty s slot hs] at hLive
    cases hLive
  case tableLen_eq =>
    rw [List.countP_replicate]
    rfl
  case tombstones_eq =>
    rw [List.countP_replicate]
    rfl
  case room =>
    rw [List.length_replicate]
    exact Nat.two_pow_pos k

section Rehash

variable [DecidableEq RecordType] [DecidableEq DNSClass]

/-- The loop of `rehash` moves the entries from `index` on. -/
theorem rehashFrom_spec (env : Env RecordType DNSClass Heap) :
    ∀ (count index : Nat) (st : CacheState RecordType DNSClass Heap),
      index + count = st.entries.length → Index env (· < index) st → st.Readable → Distinct st →
      st.tombstones = 0 → st.tableLen = st.occupiedBelow index → st.occupied < st.table.length →
      ∃ st', rehashFrom env count index st = .ok st' ∧ Index env (fun _ => True) st' ∧
        Reslotted st st' ∧ st'.tombstones = 0 ∧ st'.tableLen = st'.occupied ∧
        st'.table.length = st.table.length := by
  intro count
  induction count with
  | zero =>
    intro index st hEnd hIndex hRead hDistinct hTombs hLen hFits
    -- all entries have been moved
    rw [Nat.add_zero] at hEnd
    subst hEnd
    refine ⟨st, rfl, hIndex.congr_placed fun j hj => ?_, Reslotted.refl st, hTombs, ?_, rfl⟩
    · obtain ⟨m, hm⟩ := Option.isSome_iff_exists.mp hj
      exact ⟨fun _ => lt_of_live? hm, fun _ => trivial⟩
    · rw [hLen, occupiedBelow_length]
  | succ count ih =>
    intro index st hEnd hIndex hRead hDistinct hTombs hLen hFits
    -- the invariant: what lies below `index` is placed, and the table counts just that
    have hLt : index < st.entries.length := by omega
    rw [rehashFrom, List.getElem?_eq_getElem hLt]
    cases hEntry : st.entries[index] with
    | none =>
      have hAt : st.entries[index]? = some none := by rw [List.getElem?_eq_getElem hLt, hEntry]
      have hNone : st.live? index = none := by rw [live?, hAt]; rfl
      refine ih (index + 1) st (by omega) (hIndex.congr_placed fun j hj => ?_) hRead hDistinct
        hTombs ?_ hFits
      · -- a vacant slab entry has no slot, so one more of them is moved
        have hne : j ≠ index := by
          rintro rfl
          rw [hNone] at hj
          cases hj
        omega
      · rw [occupiedBelow_succ hAt, hLen]
        rfl
    | some m =>
      have hAt : st.entries[index]? = some (some m) := by
        rw [List.getElem?_eq_getElem hLt, hEntry]
      have hm : st.live? index = some m := live?_eq_some.mpr hAt
      have hKey : st.keyAt index = some (keyOf st.pool m) := keyAt_eq_some.mpr ⟨m, hm, rfl⟩
      have hBelow : st.occupiedBelow (index + 1) = st.occupiedBelow index + 1 :=
        occupiedBelow_succ hAt
      have hAll := occupiedBelow_le st (index + 1)
      simp only [hRead.name hm, ok_bind]
      rcases locate_spec hIndex hRead (keyOf st.pool m) with
        ⟨j, -, hj, hFound⟩ | ⟨s, hLocate, -, ⟨old, hSlot, hDead⟩, hOpen⟩
      · -- an entry with the same key was moved before: there is none
        exact absurd (hDistinct j index _ hFound hKey) (by omega)
      · have hOldTomb := hIndex.isTombstone_of_none hTombs hSlot
        -- the entry is not placed yet, so it goes where its probe ends
        have hNext := hIndex.placedAt hm (Nat.lt_irrefl _) hSlot hDead hOpen (by omega)
          st.tombstones (by rw [hOldTomb]; rfl)
        have hSame := reslotted_placedAt env hm s st.tombstones
        have hPlace := place_eq_ok hIndex hm (List.getElem?_eq_some_iff.mp hSlot).1 st.tombstones
        have hName : (⟨readAt st.pool m.offset m.nameLen, m.recordType, m.dnsClass, m.flags⟩ :
            Key RecordType DNSClass) = keyOf st.pool m := rfl
        obtain ⟨st', hRun, hIndex', hSame', hTombs', hLen', hTable'⟩ :=
          ih (index + 1) (st.placedAt env s index m st.tombstones)
            (by rw [hSame.length]; omega)
            (hNext.congr_placed fun j _ => by omega)
            (hSame.same.readable hRead) (hSame.same.distinct hDistinct) hTombs
            (by rw [hSame.same.occupiedBelow, hBelow, ← hLen]; rfl)
            (by
              rw [hSame.same.occupied]
              simpa [CacheState.placedAt] using hFits)
        refine ⟨st', ?_, hIndex', hSame.trans hSame', hTombs', hLen', ?_⟩
        · rw [hName, hLocate, ok_bind]
          simp only [hPlace, ok_bind]
          exact hRun
        · rw [hTable']
          exact List.length_set

theorem rehash_spec (env : Env RecordType DNSClass Heap) {k : Nat} (hSize : 2 ^ k ≤ 2 ^ 32)
    (hProper : st.entries.length ≤ tombstone) (hRead : st.Readable)
    (hDistinct : Distinct st) (hFits : st.occupied < 2 ^ k) :
    ∃ st', st.rehash env (2 ^ k) = .ok st' ∧ Index env (fun _ => True) st' ∧ Reslotted st st' ∧
      st'.tombstones = 0 ∧ st'.tableLen = st'.occupied ∧ st'.table.length = 2 ^ k := by
  have hWord : st.entries.length % 2 ^ 32 = st.entries.length :=
    Nat.mod_eq_of_lt (lt_of_le_of_lt hProper (by decide))
  obtain ⟨st', hRun, hIndex, hSame, hTombs, hLen, hTable⟩ :=
    rehashFrom_spec env st.entries.length 0
      { st with table := List.replicate (2 ^ k) .empty, tableLen := 0, tombstones := 0 }
      (Nat.zero_add _) (index_fresh st hSize hProper) hRead hDistinct rfl rfl
      (by rw [List.length_replicate]; exact hFits)
  refine ⟨st', ?_, hIndex, ?_, hTombs, hLen, ?_⟩
  · rw [rehash, hWord]
    exact hRun
  · exact ⟨hSame.pool, hSame.heap, hSame.freeEntries, hSame.lruHead, hSame.lruTail, hSame.log,
      hSame.length, hSame.entry⟩
  · rw [hTable]
    exact List.length_replicate

/-- **`ensure_table_capacity`** leaves room for one more entry: the table is not
three quarters full, or it is rehashed without its tombstones, or doubled. -/
theorem ensureTableCapacity_spec (h : Index env (fun _ => True) st) (hRead : st.Readable)
    (hDistinct : Distinct st) (hCount : st.tableLen = st.occupied)
    (hSlab : st.entries.length ≤ 2 ^ 30) :
    ∃ st', st.ensureTableCapacity env = .ok st' ∧ Index env (fun _ => True) st' ∧
      Reslotted st st' ∧ st'.tableLen = st'.occupied ∧
      st'.tableLen + st'.tombstones + 1 < st'.table.length := by
  obtain ⟨k, hk⟩ := h.size
  have hRoom := h.room
  have hSmall := h.small
  have hOccupied : st.occupied ≤ st.entries.length := List.countP_le_length
  rw [ensureTableCapacity]
  by_cases hLight : (st.tableLen + st.tombstones + 1) * 4 < st.table.length * 3
  · rw [if_pos hLight]
    exact ⟨st, rfl, h, Reslotted.refl st, hCount, by omega⟩
  · rw [if_neg hLight]
    by_cases hTombs : st.tombstones > st.tableLen / 2
    · rw [if_pos hTombs, hk]
      -- many tombstones: the same size is enough without them
      obtain ⟨st', hRun, hIndex, hSame, hTombs', hLen', hTable'⟩ :=
        rehash_spec env (by omega) h.proper hRead hDistinct (k := k) (by omega)
      refine ⟨st', hRun, hIndex, hSame, hLen', ?_⟩
      rw [hTombs', hLen', hTable', hSame.same.occupied]
      omega
    · rw [if_neg hTombs, hk, ← Nat.pow_succ]
      -- a table of more than half the maximal size would not be so full
      have hBound : k ≤ 31 := by
        by_contra hLarge
        have hPow : 2 ^ 32 ≤ 2 ^ k := Nat.pow_le_pow_right (by decide) (by omega)
        omega
      have hDouble : 2 ^ (k + 1) ≤ 2 ^ 32 := Nat.pow_le_pow_right (by decide) (by omega)
      have hPow : 2 ^ (k + 1) = 2 ^ k * 2 := Nat.pow_succ ..
      obtain ⟨st', hRun, hIndex, hSame, hTombs', hLen', hTable'⟩ :=
        rehash_spec env hDouble h.proper hRead hDistinct (by omega)
      refine ⟨st', hRun, hIndex, hSame, hLen', ?_⟩
      rw [hTombs', hLen', hTable', hSame.same.occupied]
      omega

end Rehash

end DnsRs.Cache
