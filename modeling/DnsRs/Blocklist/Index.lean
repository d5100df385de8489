import Mathlib.Data.List.Dedup
import Mathlib.Algebra.BigOperators.Group.Finset.Basic
import Mathlib.Algebra.Order.BigOperators.Group.Finset
import DnsRs.Lib.OpenTable
import DnsRs.Lib.Slice
import DnsRs.Wire.Model

/-!
# The domain index

`DomainIndex` is a set of names: their bytes one after the other in an arena, and
an open-addressed table of spans into it. Spans are pairs of `u32`, so an arena of
4 GiB or more wraps; everything here is for arenas below that.

A loop over the table that finds neither the name nor a free slot in one round
goes round forever, so the loops run with as much fuel as the table has slots and
out of fuel is a hang.

* `find_spec`, `insertNormalized_spec` — lookups and insertions return, and the
  index holds what was inserted.
-/

namespace DnsRs.Blocklist

open Lib Wire

/-- Offset and length in the arena; length zero marks an unused slot. -/
abbrev Slot := Nat × Nat

def emptySlot : Slot := (0, 0)

structure DomainIndex where
  arena : Bytes
  slots : List Slot
  mask : Nat
  len : Nat
  deriving DecidableEq, Repr

/-- `usize::next_power_of_two` -/
def nextPowerOfTwo (n : Nat) : Nat := if n ≤ 1 then 1 else 2 ^ (Nat.log2 (n - 1) + 1)

/-- The slots of a table for `expected` names, in 64-bit arithmetic. -/
def tableSize (expected : Nat) : Nat :=
  max (nextPowerOfTwo (min (expected * 2) (2 ^ 64 - 1)) % 2 ^ 64) 16

namespace DomainIndex

def withCapacity (expected : Nat) : DomainIndex where
  arena := []
  slots := List.replicate (tableSize expected) emptySlot
  mask := tableSize expected - 1
  len := 0

def new : DomainIndex := withCapacity 0

def nameAt (ix : DomainIndex) (slot : Slot) : Except Fault Bytes :=
  slice ix.arena slot.1 (slot.1 + slot.2)

/-- The loop of `find`. -/
def findFrom (ix : DomainIndex) (bytes : Bytes) : Nat → Nat → Except Fault (Option Nat)
  | 0, _ => .error .hang
  -- an index outside the table panics; the mask keeps `i` inside
  | fuel + 1, i =>
    match ix.slots[i]? with
    | none => .error .panic
    | some slot =>
      if slot.2 = 0 then .ok none
      else do
        let name ← ix.nameAt slot
        if name = bytes then .ok (some i) else findFrom ix bytes fuel ((i + 1) &&& ix.mask)

/-- `while self.slots[i].1 != 0 { i = (i + 1) & self.mask }` -/
def vacantFrom (ix : DomainIndex) : Nat → Nat → Except Fault Nat
  | 0, _ => .error .hang
  | fuel + 1, i =>
    match ix.slots[i]? with
    | none => .error .panic
    | some slot => if slot.2 = 0 then .ok i else vacantFrom ix fuel ((i + 1) &&& ix.mask)

/-- `self.slots[i] = slot` -/
def setSlot (ix : DomainIndex) (i : Nat) (slot : Slot) : DomainIndex :=
  { ix with slots := ix.slots.set i slot }

section Hash

variable (hash : Bytes → UInt64)

def find (ix : DomainIndex) (bytes : Bytes) : Except Fault (Option Nat) :=
  if bytes = [] then .ok none
  else ix.findFrom bytes ix.slots.length ((hash bytes).toNat &&& ix.mask)

def containsBytes (ix : DomainIndex) (bytes : Bytes) : Except Fault Bool := do
  return (← ix.find hash bytes).isSome

/-- One turn of the loop of `grow`. -/
def rehashSlot (ix : DomainIndex) (slot : Slot) : Except Fault DomainIndex :=
  if slot.2 = 0 then .ok ix
  else do
    let name ← ix.nameAt slot
    let i ← ix.vacantFrom ix.slots.length ((hash name).toNat &&& ix.mask)
    .ok (ix.setSlot i slot)

def grow (ix : DomainIndex) : Except Fault DomainIndex :=
  ix.slots.foldlM (rehashSlot hash)
    { ix with
      slots := List.replicate (ix.slots.length * 2) emptySlot
      mask := ix.slots.length * 2 - 1 }

def insertNormalized (ix : DomainIndex) (bytes : Bytes) : Except Fault DomainIndex :=
  if bytes = [] then .ok ix
  else do
    match ← ix.find hash bytes with
    | some _ => .ok ix
    | none =>
      -- at 75% load
      let ix ← if ix.slots.length * 3 ≤ (ix.len + 1) * 4 then ix.grow hash else .ok ix
      -- `as u32`
      let entry := (ix.arena.length % 2 ^ 32, bytes.length % 2 ^ 32)
      let ix := { ix with arena := ix.arena ++ bytes }
      let i ← ix.vacantFrom ix.slots.length ((hash bytes).toNat &&& ix.mask)
      .ok { ix.setSlot i entry with len := ix.len + 1 }

end Hash

/-- `names()`, collected. -/
def names (ix : DomainIndex) : Except Fault (List Bytes) :=
  (ix.slots.filter fun slot => slot.2 ≠ 0).mapM ix.nameAt

end DomainIndex

/-! ## What the slots hold -/

/-- The name a slot stands for. -/
def slotName (arena : Bytes) (slot : Slot) : Option Bytes :=
  if slot.2 = 0 then none else some (readAt arena slot.1 slot.2)

namespace DomainIndex

/-- The slots as names. -/
def table (ix : DomainIndex) : List (Option Bytes) := ix.slots.map (slotName ix.arena)

/-- The names in the order of their slots. -/
def stored (ix : DomainIndex) : List Bytes := ix.table.reduceOption

/-- What the index is for. -/
def members (ix : DomainIndex) : Finset Bytes := ix.stored.toFinset

end DomainIndex

/-- The bytes it takes to store a set of names. -/
def totalBytes (names : Finset Bytes) : Nat := ∑ name ∈ names, name.length

open DomainIndex

variable {hash : Bytes → UInt64} {ix : DomainIndex} {bytes : Bytes} {slot : Slot} {i j e : Nat}

@[simp] theorem length_table (ix : DomainIndex) : ix.table.length = ix.slots.length :=
  List.length_map ..

theorem getElem?_table (hSlot : ix.slots[i]? = some slot) :
    ix.table[i]? = some (slotName ix.arena slot) := by
  rw [table, List.getElem?_map, hSlot]
  rfl

theorem mem_members : bytes ∈ ix.members ↔ bytes ∈ ix.stored := List.mem_toFinset

theorem taken_iff (hSlot : ix.slots[i]? = some slot) : Taken ix.table i ↔ slot.2 ≠ 0 := by
  rw [Taken, getElem?_table hSlot, slotName]
  split
  · rename_i hZero
    simp [hZero]
  · rename_i hPos
    simp [hPos]

/-! ## The invariant -/

/-- The table is a set of names in the arena. -/
structure Shaped (hash : Bytes → UInt64) (ix : DomainIndex) : Prop where
  size : ∃ k, ix.slots.length = 2 ^ k
  mask : ix.mask = ix.slots.length - 1
  bounds : ∀ slot ∈ ix.slots, slot.2 ≠ 0 → slot.1 + slot.2 ≤ ix.arena.length
  findable : Findable (fun name => (hash name).toNat) ix.table

/-- And it is the set the other fields speak of, with slots to spare. -/
structure WellFormed (hash : Bytes → UInt64) (ix : DomainIndex) : Prop extends Shaped hash ix where
  large : 16 ≤ ix.slots.length
  len : ix.len = ix.stored.length
  load : ix.len * 4 < ix.slots.length * 3
  arena : ix.arena.length = (ix.stored.map List.length).sum

/-- Some slot is free. -/
def Roomy (ix : DomainIndex) : Prop := ix.stored.length < ix.slots.length

theorem WellFormed.roomy (h : WellFormed hash ix) : Roomy ix := by
  have hLen := h.len
  have hLoad := h.load
  rw [Roomy]
  omega

theorem Shaped.nameAt (h : Shaped hash ix) (hMem : slot ∈ ix.slots) (hSlot : slot.2 ≠ 0) :
    ix.nameAt slot = .ok (readAt ix.arena slot.1 slot.2) := by
  rw [DomainIndex.nameAt, slice_eq_ok (by omega) (h.bounds slot hMem hSlot),
    Nat.add_sub_cancel_left]

theorem Shaped.start (h : Shaped hash ix) (name : Bytes) :
    (hash name).toNat &&& ix.mask = probe ix.table.length (hash name).toNat 0 := by
  obtain ⟨k, hk⟩ := h.size
  rw [h.mask, land_mask hk, probe, length_table, Nat.add_zero]

theorem Shaped.next (h : Shaped hash ix) (start j : Nat) :
    (probe ix.table.length start j + 1) &&& ix.mask = probe ix.table.length start (j + 1) := by
  obtain ⟨k, hk⟩ := h.size
  rw [h.mask, land_mask hk, ← length_table, probe_succ]

/-- The slot at a position of a search. -/
theorem exists_slot (hEnd : FreeAt (fun name => (hash name).toNat) ix.table bytes e) (j : Nat) :
    ∃ slot, ix.slots[probe ix.table.length (hash bytes).toNat j]? = some slot := by
  have hLt := hEnd.probe_lt j
  rw [length_table] at hLt ⊢
  exact ⟨_, List.getElem?_eq_getElem hLt⟩

/-- Every search comes to an end within one round. -/
theorem Roomy.exists_freeAt (h : Roomy ix) (name : Bytes) :
    ∃ e < ix.slots.length, FreeAt (fun name => (hash name).toNat) ix.table name e := by
  have hRoom : ix.table.reduceOption.length < ix.table.length := by
    rw [length_table]
    exact h
  obtain ⟨e, hEnd⟩ := Lib.exists_freeAt hRoom name
  refine ⟨e, ?_, hEnd⟩
  rw [← length_table]
  exact hEnd.lt

/-! ## Searches -/

theorem findFrom_spec (h : Shaped hash ix)
    (hEnd : FreeAt (fun name => (hash name).toNat) ix.table bytes e) :
    ∀ fuel j, j ≤ e → e < j + fuel →
      ∃ r, ix.findFrom bytes fuel (probe ix.table.length (hash bytes).toNat j) = .ok r ∧
        (r.isSome = true ↔ ∃ i, j ≤ i ∧ i < e ∧
          ix.table[probe ix.table.length (hash bytes).toNat i]? = some (some bytes)) := by
  intro fuel
  -- from position `j` on; the fuel left always covers the first free slot at `e`
  induction fuel with
  | zero =>
    intro j hj hFuel
    omega
  | succ fuel ih =>
    intro j hj hFuel
    obtain ⟨slot, hSlot⟩ := exists_slot hEnd j
    rw [findFrom, hSlot]
    dsimp only
    by_cases hZero : slot.2 = 0
    · -- a free slot on the path is the first one
      rw [if_pos hZero]
      have hLast : ¬ j < e := fun hLt => (taken_iff hSlot).mp (hEnd.taken j hLt) hZero
      refine ⟨none, rfl, ?_⟩
      constructor
      · intro hSome
        cases hSome
      · rintro ⟨i, hi, hLt, -⟩
        omega
    · rw [if_neg hZero, h.nameAt (List.mem_of_getElem? hSlot) hZero, ok_bind]
      -- the slot is taken: it is the name, or it is passed over
      have hName := getElem?_table hSlot
      rw [slotName, if_neg hZero] at hName
      have hLater : j < e := by
        rcases Nat.lt_or_eq_of_le hj with hLt | rfl
        · exact hLt
        · exact absurd ((taken_iff hSlot).mpr hZero) hEnd.free
      by_cases hFound : readAt ix.arena slot.1 slot.2 = bytes
      · rw [if_pos hFound]
        refine ⟨some _, rfl, fun _ => ⟨j, Nat.le_refl j, hLater, ?_⟩, fun _ => rfl⟩
        rw [hName, hFound]
      · rw [if_neg hFound, h.next]
        obtain ⟨r, hr, hIff⟩ := ih (j + 1) hLater (by omega)
        refine ⟨r, hr, hIff.trans ?_⟩
        constructor
        · rintro ⟨i, hi, hLt, hAt⟩
          exact ⟨i, by omega, hLt, hAt⟩
        · rintro ⟨i, hi, hLt, hAt⟩
          refine ⟨i, ?_, hLt, hAt⟩
          -- position `j` itself holds another name
          rcases Nat.lt_or_eq_of_le hi with hMore | rfl
          · exact hMore
          · rw [hName] at hAt
            exact absurd (Option.some.inj (Option.some.inj hAt)) hFound

/-- **Lookup.** A search returns, and finds exactly what is stored. -/
theorem find_spec (h : Shaped hash ix) (hRoom : Roomy ix) (hBytes : bytes ≠ []) :
    ∃ r, ix.find hash bytes = .ok r ∧ (r.isSome = true ↔ bytes ∈ ix.members) := by
  obtain ⟨e, hLt, hEnd⟩ := hRoom.exists_freeAt bytes
  obtain ⟨r, hr, hIff⟩ := findFrom_spec h hEnd ix.slots.length 0 (Nat.zero_le e) (by omega)
  refine ⟨r, ?_, hIff.trans ?_⟩
  · rw [find, if_neg hBytes, h.start, hr]
  · rw [mem_members, stored, mem_reduceOption]
    constructor
    · rintro ⟨i, -, -, hAt⟩
      exact ⟨_, hAt⟩
    · -- a stored name stands before the first free slot of its path
      rintro ⟨s, hs⟩
      obtain ⟨i, hi, rfl⟩ := h.findable.before hEnd hs
      exact ⟨i, Nat.zero_le i, hi, hs⟩

theorem vacantFrom_spec (h : Shaped hash ix)
    (hEnd : FreeAt (fun name => (hash name).toNat) ix.table bytes e) :
    ∀ fuel j, j ≤ e → e < j + fuel →
      ix.vacantFrom fuel (probe ix.table.length (hash bytes).toNat j) =
        .ok (probe ix.table.length (hash bytes).toNat e) := by
  intro fuel
  induction fuel with
  | zero =>
    intro j hj hFuel
    omega
  | succ fuel ih =>
    intro j hj hFuel
    obtain ⟨slot, hSlot⟩ := exists_slot hEnd j
    rw [vacantFrom, hSlot]
    dsimp only
    -- every slot before `e` is taken, the one at `e` is not
    rcases Nat.lt_or_eq_of_le hj with hLt | rfl
    · rw [if_neg ((taken_iff hSlot).mp (hEnd.taken j hLt)), h.next]
      exact ih (j + 1) hLt (by omega)
    · rw [if_pos]
      by_contra hPos
      exact hEnd.free ((taken_iff hSlot).mpr hPos)

/-! ## Empty tables -/

theorem nextPowerOfTwo_eq (n : Nat) : ∃ k, nextPowerOfTwo n = 2 ^ k := by
  unfold nextPowerOfTwo
  split
  · exact ⟨0, rfl⟩
  · exact ⟨_, rfl⟩

/-- The size is a power of two even where the doubling runs out of bits. -/
theorem tableSize_eq (expected : Nat) : ∃ k, tableSize expected = 2 ^ k ∧ 16 ≤ 2 ^ k := by
  obtain ⟨k, hk⟩ := nextPowerOfTwo_eq (min (expected * 2) (2 ^ 64 - 1))
  have hMod : 2 ^ k % 2 ^ 64 = 0 ∨ 2 ^ k % 2 ^ 64 = 2 ^ k := by
    by_cases hFits : k < 64
    · exact .inr (Nat.mod_eq_of_lt (Nat.pow_lt_pow_right (by decide) hFits))
    · exact .inl (Nat.mod_eq_zero_of_dvd (Nat.pow_dvd_pow 2 (by omega)))
  rw [tableSize, hk]
  rcases hMod with hMod | hMod
  · exact ⟨4, by rw [hMod]; rfl, by decide⟩
  · rw [hMod]
    rcases Nat.le_total (2 ^ k) 16 with hSmall | hLarge
    · exact ⟨4, by rw [Nat.max_eq_right hSmall]; rfl, by decide⟩
    · exact ⟨k, Nat.max_eq_left hLarge, hLarge⟩

theorem table_replicate (arena : Bytes) (n mask len : Nat) :
    (⟨arena, List.replicate n emptySlot, mask, len⟩ : DomainIndex).table =
      List.replicate n none := by
  rw [table, List.map_replicate]
  rfl

theorem stored_replicate (arena : Bytes) (n mask len : Nat) :
    (⟨arena, List.replicate n emptySlot, mask, len⟩ : DomainIndex).stored = [] := by
  rw [stored, table_replicate, List.reduceOption_replicate_none]

theorem shaped_replicate (arena : Bytes) {n k : Nat} (hSize : n = 2 ^ k) (len : Nat) :
    Shaped hash ⟨arena, List.replicate n emptySlot, n - 1, len⟩ where
  size := ⟨k, by rw [List.length_replicate, hSize]⟩
  mask := by rw [List.length_replicate]
  bounds slot hSlot hPos := by
    rw [(List.mem_replicate.mp hSlot).2] at hPos
    exact absurd rfl hPos
  findable := by
    rw [table_replicate]
    exact findable_replicate n

theorem wellFormed_withCapacity (expected : Nat) : WellFormed hash (withCapacity expected) := by
  obtain ⟨k, hSize, hLarge⟩ := tableSize_eq expected
  refine ⟨shaped_replicate [] hSize 0, ?_, ?_, ?_, ?_⟩
  · rw [withCapacity, List.length_replicate, hSize]
    exact hLarge
  · rw [withCapacity, stored_replicate]
    rfl
  · rw [withCapacity, List.length_replicate, hSize]
    dsimp only
    omega
  · rw [withCapacity, stored_replicate]
    rfl

theorem members_withCapacity (expected : Nat) : (withCapacity expected).members = ∅ := by
  rw [members, withCapacity, stored_replicate]
  rfl

/-! ## Insertions -/

/-- A span is placed at the end of the search for its name. -/
theorem Shaped.place (h : Shaped hash ix) (hRoom : Roomy ix) {name : Bytes}
    (hName : slotName ix.arena slot = some name) (hBounds : slot.1 + slot.2 ≤ ix.arena.length)
    (hNew : name ∉ ix.stored) :
    ∃ i, ix.vacantFrom ix.slots.length ((hash name).toNat &&& ix.mask) = .ok i ∧
      Shaped hash (ix.setSlot i slot) ∧ (ix.setSlot i slot).stored.Perm (name :: ix.stored) := by
  obtain ⟨e, hLt, hEnd⟩ := hRoom.exists_freeAt name
  -- on the side of names this puts one name into the table
  have hTable : ∀ i, (ix.setSlot i slot).table = ix.table.set i (some name) := by
    intro i
    rw [table, setSlot, List.map_set, hName]
    rfl
  refine ⟨probe ix.table.length (hash name).toNat e, ?_, ?_, ?_⟩
  · rw [h.start]
    exact vacantFrom_spec h hEnd ix.slots.length 0 (Nat.zero_le e) (by omega)
  · refine ⟨?_, ?_, ?_, ?_⟩
    · rw [setSlot, List.length_set]
      exact h.size
    · rw [setSlot, List.length_set]
      exact h.mask
    · intro other hOther hPos
      rcases List.mem_or_eq_of_mem_set hOther with hOld | rfl
      · exact h.bounds other hOld hPos
      · exact hBounds
    · rw [hTable]
      exact h.findable.put hNew hEnd
  · rw [stored, hTable]
    exact reduceOption_set (hEnd.probe_lt e) hEnd.free

/-- Growing the arena moves no name. -/
theorem Shaped.table_append (h : Shaped hash ix) (bytes : Bytes) :
    ({ ix with arena := ix.arena ++ bytes } : DomainIndex).table = ix.table := by
  refine List.map_congr_left fun slot hSlot => ?_
  rw [slotName, slotName]
  split
  · rfl
  · rename_i hPos
    rw [readAt_append (h.bounds slot hSlot hPos)]

theorem Shaped.append (h : Shaped hash ix) (bytes : Bytes) :
    Shaped hash { ix with arena := ix.arena ++ bytes } where
  size := h.size
  mask := h.mask
  bounds slot hSlot hPos := by
    have hOld := h.bounds slot hSlot hPos
    rw [List.length_append]
    omega
  findable := by
    rw [h.table_append]
    exact h.findable

/-- What `grow` has after the slots in `done`. -/
structure Rehashed (hash : Bytes → UInt64) (ix : DomainIndex) (done : List Slot)
    (out : DomainIndex) : Prop where
  shaped : Shaped hash out
  arena : out.arena = ix.arena
  len : out.len = ix.len
  size : out.slots.length = ix.slots.length * 2
  stored : out.stored.Perm (done.map (slotName ix.arena)).reduceOption

/-- The names in the first slots are among those in all. -/
theorem stored_split {done rest : List Slot} (hSlots : ix.slots = done ++ rest) :
    ix.stored = (done.map (slotName ix.arena)).reduceOption ++
      (rest.map (slotName ix.arena)).reduceOption := by
  rw [DomainIndex.stored, table, hSlots, List.map_append, List.reduceOption_append]

theorem Rehashed.turn (hix : WellFormed hash ix) {done rest : List Slot} {out : DomainIndex}
    (hSlots : ix.slots = done ++ slot :: rest) (h : Rehashed hash ix done out) :
    ∃ out', out.rehashSlot hash slot = .ok out' ∧ Rehashed hash ix (done ++ [slot]) out' := by
  have hMem : slot ∈ ix.slots := hSlots ▸ List.mem_append_right done List.mem_cons_self
  -- an unused slot of the old table is skipped
  by_cases hZero : slot.2 = 0
  · refine ⟨out, if_pos hZero, h.shaped, h.arena, h.len, h.size, ?_⟩
    simpa [List.reduceOption_append, slotName, hZero] using h.stored
  · have hName : slotName out.arena slot = some (readAt out.arena slot.1 slot.2) := if_neg hZero
    have hBounds : slot.1 + slot.2 ≤ out.arena.length := by
      rw [h.arena]
      exact hix.bounds slot hMem hZero
    -- all names are different, so this one has not been moved yet
    have hStored := stored_split hSlots
    rw [List.map_cons, ← h.arena, hName, List.reduceOption_cons_of_some, h.arena] at hStored
    have hNodup := hix.findable.nodup
    rw [← DomainIndex.stored, hStored, List.nodup_middle, List.nodup_cons] at hNodup
    have hNew : readAt out.arena slot.1 slot.2 ∉ out.stored := by
      rw [h.stored.mem_iff, h.arena]
      exact fun hOld => hNodup.1 (List.mem_append_left _ hOld)
    -- the new table has twice the slots of the old one, and at most its names
    have hRoom : Roomy out := by
      have hOld := hix.roomy
      rw [Roomy, hStored, List.length_append] at hOld
      rw [Roomy, h.stored.length_eq, h.size]
      omega
    obtain ⟨i, hi, hShaped, hPerm⟩ := h.shaped.place hRoom hName hBounds hNew
    refine ⟨out.setSlot i slot, ?_, hShaped, h.arena, h.len, ?_, ?_⟩
    · rw [rehashSlot, if_neg hZero, DomainIndex.nameAt, slice_eq_ok (by omega) hBounds,
        Nat.add_sub_cancel_left, ok_bind, hi]
      rfl
    · rw [setSlot, List.length_set]
      exact h.size
    · refine hPerm.trans ?_
      rw [List.map_append, List.reduceOption_append, List.map_singleton, ← h.arena, hName]
      refine (List.Perm.cons _ h.stored).trans ?_
      rw [h.arena]
      exact (List.perm_append_singleton _ _).symm

theorem grow_spec (h : WellFormed hash ix) :
    ∃ ix', ix.grow hash = .ok ix' ∧ Rehashed hash ix ix.slots ix' := by
  refine foldlM_eq_ok ?_ fun done slot rest out hSlots hOut => hOut.turn h hSlots
  obtain ⟨k, hk⟩ := h.size
  have hSize : ix.slots.length * 2 = 2 ^ (k + 1) := by rw [hk, Nat.pow_succ]
  refine ⟨shaped_replicate ix.arena hSize ix.len, rfl, rfl, by simp, ?_⟩
  rw [stored_replicate]
  exact List.Perm.refl _

theorem WellFormed.grown {ix' : DomainIndex} (h : WellFormed hash ix)
    (hGrown : Rehashed hash ix ix.slots ix') : WellFormed hash ix' where
  toShaped := hGrown.shaped
  large := by
    have := h.large
    rw [hGrown.size]
    omega
  len := by
    rw [hGrown.len, h.len, hGrown.stored.length_eq]
    rfl
  load := by
    have := h.load
    rw [hGrown.len, hGrown.size]
    omega
  arena := by
    rw [hGrown.arena, h.arena]
    exact ((hGrown.stored.map List.length).sum_eq).symm

theorem WellFormed.length_arena (h : WellFormed hash ix) :
    ix.arena.length = totalBytes ix.members := by
  rw [h.arena, totalBytes, members]
  exact (List.sum_toFinset _ h.findable.nodup).symm

theorem totalBytes_insert {names : Finset Bytes} (h : bytes ∉ names) :
    totalBytes (insert bytes names) = bytes.length + totalBytes names :=
  Finset.sum_insert h

theorem totalBytes_mono {small large : Finset Bytes} (h : small ⊆ large) :
    totalBytes small ≤ totalBytes large :=
  Finset.sum_le_sum_of_subset h

/-- A new name, once there is room for it. -/
theorem WellFormed.add (h : WellFormed hash ix) (hBytes : bytes ≠ []) (hNew : bytes ∉ ix.members)
    (hFits : bytes.length + ix.arena.length < 2 ^ 32)
    (hLoad : (ix.len + 1) * 4 < ix.slots.length * 3) :
    ∃ i, ({ ix with arena := ix.arena ++ bytes } : DomainIndex).vacantFrom ix.slots.length
        ((hash bytes).toNat &&& ix.mask) = .ok i ∧
      WellFormed hash
        { ix with
          arena := ix.arena ++ bytes
          slots := ix.slots.set i (ix.arena.length % 2 ^ 32, bytes.length % 2 ^ 32)
          len := ix.len + 1 } ∧
      ({ ix with
          arena := ix.arena ++ bytes
          slots := ix.slots.set i (ix.arena.length % 2 ^ 32, bytes.length % 2 ^ 32)
          len := ix.len + 1 } : DomainIndex).members = insert bytes ix.members := by
  have hPos : 0 < bytes.length := List.length_pos_iff.mpr hBytes
  rw [Nat.mod_eq_of_lt (show ix.arena.length < 2 ^ 32 by omega),
    Nat.mod_eq_of_lt (show bytes.length < 2 ^ 32 by omega)]
  have hName : slotName (ix.arena ++ bytes) (ix.arena.length, bytes.length) = some bytes := by
    rw [slotName, if_neg (by dsimp only; omega), readAt_append_length]
  have hStored : ({ ix with arena := ix.arena ++ bytes } : DomainIndex).stored = ix.stored := by
    rw [stored, h.table_append]
    rfl
  have hRoom : Roomy { ix with arena := ix.arena ++ bytes } := by
    rw [Roomy, hStored]
    exact h.roomy
  obtain ⟨i, hi, hShaped, hPerm⟩ := (h.toShaped.append bytes).place hRoom hName
    (by simp) (hStored ▸ mt mem_members.mpr hNew)
  rw [hStored] at hPerm
  refine ⟨i, hi, ⟨⟨hShaped.size, hShaped.mask, hShaped.bounds, hShaped.findable⟩, ?_, ?_, ?_, ?_⟩, ?_⟩
  · rw [List.length_set]
    exact h.large
  · exact (congrArg (· + 1) h.len).trans hPerm.length_eq.symm
  · rw [List.length_set]
    exact hLoad
  · -- the arena has grown by exactly the new name
    have hSum := (hPerm.map List.length).sum_eq
    rw [List.map_cons, List.sum_cons, ← h.arena] at hSum
    rw [List.length_append, Nat.add_comm]
    exact hSum.symm
  · have hFinset := List.toFinset_eq_of_perm _ _ hPerm
    rw [List.toFinset_cons] at hFinset
    exact hFinset

/-- **Insertion.** As long as the arena stays below 4 GiB an insertion returns,
and the index then holds one name more. -/
theorem insertNormalized_spec (h : WellFormed hash ix) (hBytes : bytes ≠ [])
    (hFits : totalBytes (insert bytes ix.members) < 2 ^ 32) :
    ∃ ix', ix.insertNormalized hash bytes = .ok ix' ∧ WellFormed hash ix' ∧
      ix'.members = insert bytes ix.members := by
  obtain ⟨r, hFind, hIff⟩ := find_spec h.toShaped h.roomy hBytes
  rw [insertNormalized, if_neg hBytes, hFind, ok_bind]
  cases r with
  | some s =>
    refine ⟨ix, rfl, h, ?_⟩
    rw [Finset.insert_eq_of_mem (hIff.mp rfl)]
  | none =>
    have hNew : bytes ∉ ix.members := fun hMem => by
      have := hIff.mpr hMem
      cases this
    rw [totalBytes_insert hNew, ← h.length_arena] at hFits
    dsimp only
    by_cases hFull : ix.slots.length * 3 ≤ (ix.len + 1) * 4
    · rw [if_pos hFull]
      obtain ⟨ix₁, hGrow, hGrown⟩ := grow_spec h
      have hWell := h.grown hGrown
      have hMembers : ix₁.members = ix.members := List.toFinset_eq_of_perm _ _ hGrown.stored
      -- doubled, the table has room for one more name below 75%
      have hLoad : (ix₁.len + 1) * 4 < ix₁.slots.length * 3 := by
        have := h.load
        have := h.large
        rw [hGrown.len, hGrown.size]
        omega
      obtain ⟨i, hi, hAdded, hSet⟩ := hWell.add hBytes (hMembers ▸ hNew)
        (by rw [hGrown.arena]; exact hFits) hLoad
      refine ⟨_, ?_, hAdded, hMembers ▸ hSet⟩
      rw [hGrow, ok_bind, hi]
      rfl
    · rw [if_neg hFull]
      obtain ⟨i, hi, hAdded, hSet⟩ := h.add hBytes hNew hFits (by omega)
      refine ⟨_, ?_, hAdded, hSet⟩
      rw [ok_bind, hi]
      rfl

end DnsRs.Blocklist
