import Mathlib.Tactic
import DnsRs.Lib.Outcome

/-!
# Slices of a buffer

Reading and overwriting a contiguous range of a list, with the frame rule
that carries every argument about bytes stored side by side: a write leaves
each range disjoint from it unchanged. `slice` and `overwrite` are the
checked forms, which fault where Rust's range indexing panics.
-/

namespace DnsRs.Lib

variable {α : Type}

/-- The `n` elements starting at offset `off`. -/
def readAt (buf : List α) (off n : Nat) : List α := (buf.drop off).take n

/-- `buf` with the elements from `off` on replaced by `data`. -/
def writeAt (buf : List α) (off : Nat) (data : List α) : List α :=
  buf.take off ++ data ++ buf.drop (off + data.length)

/-- Two ranges, each given by its start and length, share no offset. -/
def DisjointRange (a n b m : Nat) : Prop := a + n ≤ b ∨ b + m ≤ a

/-- Disjoint ranges below `n` are together no longer than `n`. -/
theorem sum_length_le_of_disjoint {β : Type} {start len : β → Nat} {l : List β} {n : Nat}
    (hApart : l.Pairwise fun s t => DisjointRange (start s) (len s) (start t) (len t))
    (hBelow : ∀ s ∈ l, start s + len s ≤ n) : (l.map len).sum ≤ n := by
  -- the offsets of all ranges are distinct numbers below `n`
  have hNodup : (l.flatMap fun s => List.range' (start s) (len s)).Nodup := by
    refine List.nodup_flatMap.mpr ⟨fun s _ => List.nodup_range', hApart.imp ?_⟩
    intro s t hDisjoint x hs ht
    rw [List.mem_range'_1] at hs ht
    rcases hDisjoint with h | h <;> omega
  have hSub : (l.flatMap fun s => List.range' (start s) (len s)) ⊆ List.range n := by
    intro x hx
    obtain ⟨s, hs, hx⟩ := List.mem_flatMap.mp hx
    have hEnd := hBelow s hs
    rw [List.mem_range'_1] at hx
    exact List.mem_range.mpr (by omega)
  simpa [List.length_flatMap, Function.comp_def] using (hNodup.subperm hSub).length_le

/-! ## Reads -/

theorem length_readAt {buf : List α} {off n : Nat} (h : off + n ≤ buf.length) :
    (readAt buf off n).length = n := by
  rw [readAt, List.length_take, List.length_drop]
  omega

theorem getElem?_readAt (buf : List α) (off n i : Nat) :
    (readAt buf off n)[i]? = if i < n then buf[off + i]? else none := by
  rw [readAt, List.getElem?_take, List.getElem?_drop]

/-- A range is read from its own elements alone. -/
theorem readAt_congr {a b : List α} {off n : Nat}
    (h : ∀ i, off ≤ i → i < off + n → b[i]? = a[i]?) : readAt b off n = readAt a off n := by
  refine List.ext_getElem? fun i => ?_
  rw [getElem?_readAt, getElem?_readAt]
  exact ite_congr rfl (fun hi => h _ (by omega) (by omega)) fun _ => rfl

theorem readAt_two {buf : List α} {off : Nat} {a b : α} (ha : buf[off]? = some a)
    (hb : buf[off + 1]? = some b) : readAt buf off 2 = [a, b] := by
  refine List.ext_getElem? fun i => ?_
  rw [getElem?_readAt]
  match i with
  | 0 => exact ha
  | 1 => exact hb
  | i + 2 => simp

/-- A range is not moved by what is appended. -/
theorem readAt_append {buf : List α} {off n : Nat} (h : off + n ≤ buf.length) (more : List α) :
    readAt (buf ++ more) off n = readAt buf off n := by
  rw [readAt, readAt, List.drop_append_of_le_length (by omega),
    List.take_append_of_le_length (by rw [List.length_drop]; omega)]

theorem readAt_append_length (buf more : List α) :
    readAt (buf ++ more) buf.length more.length = more := by
  rw [readAt, List.drop_left, List.take_length]

/-! ## Data at an offset -/

/-- `data` stands in `buf` at offset `off`. -/
def Stands (buf : List α) (off : Nat) (data : List α) : Prop := data <+: buf.drop off

section Stands

variable {buf data data' : List α} {off : Nat}

theorem stands_append (before data after : List α) :
    Stands (before ++ (data ++ after)) before.length data := by
  rw [Stands, List.drop_left]
  exact List.prefix_append data after

theorem stands_readAt (buf : List α) (off n : Nat) : Stands buf off (readAt buf off n) :=
  List.take_prefix n (buf.drop off)

theorem Stands.left (h : Stands buf off (data ++ data')) : Stands buf off data :=
  (List.prefix_append data data').trans h

theorem Stands.right (h : Stands buf off (data ++ data')) : Stands buf (off + data.length) data' := by
  obtain ⟨rest, hRest⟩ := h
  refine ⟨rest, ?_⟩
  rw [← List.drop_drop, ← hRest, List.append_assoc, List.drop_left]

theorem Stands.append (h : Stands buf off data) (h' : Stands buf (off + data.length) data') :
    Stands buf off (data ++ data') := by
  obtain ⟨rest, hRest⟩ := h
  obtain ⟨rest', hRest'⟩ := h'
  refine ⟨rest', ?_⟩
  rw [← List.drop_drop, ← hRest, List.drop_left] at hRest'
  rw [← hRest, List.append_assoc, hRest']

theorem Stands.getElem? (h : Stands buf off data) {i : Nat} (hi : i < data.length) :
    buf[off + i]? = data[i]? := by
  obtain ⟨rest, hRest⟩ := h
  rw [← List.getElem?_drop, ← hRest, List.getElem?_append_left hi]

theorem stands_of_getElem? (h : ∀ i < data.length, buf[off + i]? = data[i]?) : Stands buf off data := by
  refine List.prefix_iff_getElem?.mpr fun i hi => ?_
  rw [List.getElem?_drop, h i hi, List.getElem?_eq_getElem hi]

theorem Stands.head {x : α} (h : Stands buf off (x :: data)) : buf[off]? = some x :=
  h.getElem? (i := 0) (Nat.succ_pos _)

theorem Stands.le (h : Stands buf off data) (hData : 0 < data.length) :
    off + data.length ≤ buf.length := by
  have hLen := List.IsPrefix.length_le h
  rw [List.length_drop] at hLen
  omega

theorem Stands.readAt (h : Stands buf off data) : Lib.readAt buf off data.length = data := by
  obtain ⟨rest, hRest⟩ := h
  rw [Lib.readAt, ← hRest, List.take_left]

end Stands

/-! ## Writes -/

theorem length_writeAt {buf data : List α} {off : Nat}
    (h : off + data.length ≤ buf.length) :
    (writeAt buf off data).length = buf.length := by
  simp only [writeAt, List.length_append, List.length_take, List.length_drop]
  omega

theorem getElem?_writeAt {buf data : List α} {off : Nat}
    (h : off + data.length ≤ buf.length) (i : Nat) :
    (writeAt buf off data)[i]? =
      if off ≤ i ∧ i < off + data.length then data[i - off]? else buf[i]? := by
  have hlen : (buf.take off).length = off := by
    rw [List.length_take]
    omega
  rw [writeAt, List.append_assoc]
  by_cases hlo : i < off
  · rw [if_neg (by omega), List.getElem?_append_left (by omega), List.getElem?_take,
      if_pos hlo]
  · rw [List.getElem?_append_right (by omega), hlen]
    by_cases hhi : i < off + data.length
    · rw [if_pos ⟨by omega, hhi⟩, List.getElem?_append_left (by omega)]
    · rw [if_neg (by omega), List.getElem?_append_right (by omega), List.getElem?_drop]
      congr 1
      omega

/-- What was written is what is read back. -/
theorem readAt_writeAt_self {buf data : List α} {off : Nat}
    (h : off + data.length ≤ buf.length) :
    readAt (writeAt buf off data) off data.length = data := by
  apply List.ext_getElem?
  intro j
  rw [getElem?_readAt, getElem?_writeAt h]
  by_cases hj : j < data.length
  · rw [if_pos hj, if_pos (by omega), Nat.add_sub_cancel_left]
  · rw [if_neg hj, List.getElem?_eq_none (by omega)]

/-- **Frame rule.** A range disjoint from the written one reads the same. -/
theorem readAt_writeAt_of_disjoint {buf data : List α} {off a n : Nat}
    (h : off + data.length ≤ buf.length)
    (hDisj : DisjointRange a n off data.length) :
    readAt (writeAt buf off data) a n = readAt buf a n := by
  refine readAt_congr fun i hi hi' => ?_
  rw [getElem?_writeAt h, if_neg]
  rcases hDisj with hd | hd <;> omega

theorem take_writeAt_of_le {buf data : List α} {off n : Nat}
    (h : off + data.length ≤ buf.length) (hn : n ≤ off) :
    (writeAt buf off data).take n = buf.take n := by
  have := readAt_writeAt_of_disjoint (a := 0) (n := n) h (Or.inl (by omega))
  simpa [readAt] using this

/-- The prefix that ends where a write ends. -/
theorem take_writeAt {buf data : List α} {off : Nat}
    (h : off + data.length ≤ buf.length) :
    (writeAt buf off data).take (off + data.length) = buf.take off ++ data := by
  have hlen : (buf.take off ++ data).length = off + data.length := by
    rw [List.length_append, List.length_take]
    omega
  rw [writeAt, ← hlen, List.take_left]

/-- Data in the middle of a buffer is replaced. -/
theorem writeAt_middle (before after : List α) {old new : List α} (h : new.length = old.length) :
    writeAt (before ++ (old ++ after)) before.length new = before ++ (new ++ after) := by
  rw [writeAt, List.take_left, h, ← List.drop_drop, List.drop_left, List.drop_left,
    List.append_assoc]

/-! ## Checked access -/

/-- `buf[start..stop]`. -/
def slice (buf : List α) (start stop : Nat) : Except Fault (List α) :=
  if start ≤ stop ∧ stop ≤ buf.length then .ok (readAt buf start (stop - start))
  else .error .panic

/-- `buf[start..stop].copy_from_slice(src)`. -/
def overwrite (buf : List α) (start stop : Nat) (src : List α) : Except Fault (List α) :=
  if start ≤ stop ∧ stop ≤ buf.length ∧ src.length = stop - start then
    .ok (writeAt buf start src)
  else .error .panic

theorem slice_eq_ok {buf : List α} {start stop : Nat} (h : start ≤ stop)
    (hStop : stop ≤ buf.length) : slice buf start stop = .ok (readAt buf start (stop - start)) :=
  if_pos ⟨h, hStop⟩

theorem overwrite_eq_ok {buf src : List α} {start : Nat}
    (h : start + src.length ≤ buf.length) :
    overwrite buf start (start + src.length) src = .ok (writeAt buf start src) :=
  if_pos ⟨by omega, h, by omega⟩

end DnsRs.Lib
