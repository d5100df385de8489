import DnsRs.Lib.Linked
import DnsRs.Cache.Index

/-!
# The LRU list

The LRU list is threaded through the slab by `prev` and `next`. `unlink`,
`attach_front` and `touch` change nothing but these links and the two ends
(`Relinked`), and do to the list what their names say (`unlink_spec`,
`attachFront_spec`, `touch_spec`).
-/

namespace DnsRs.Cache

open Lib Wire CacheState

variable {RecordType DNSClass Heap : Type}

/-- An entry but for its links. -/
def EntryMeta.core (m : EntryMeta RecordType DNSClass) : EntryMeta RecordType DNSClass :=
  { m with prev := 0, next := 0 }

/-- What of an entry does not change while it is in the cache: all but its
links, its slot and its refresh bookkeeping. -/
def EntryMeta.body (m : EntryMeta RecordType DNSClass) : EntryMeta RecordType DNSClass :=
  { m with
    lastUsed := 0
    retryAfter := 0
    reused := false
    refreshFailures := 0
    refreshClaimed := false
    prev := 0
    next := 0
    tableSlot := 0 }

namespace CacheState

def nextOf (st : CacheState RecordType DNSClass Heap) (i : Nat) : Nat :=
  ((st.live? i).map EntryMeta.next).getD noEntry

def prevOf (st : CacheState RecordType DNSClass Heap) (i : Nat) : Nat :=
  ((st.live? i).map EntryMeta.prev).getD noEntry

/-- The LRU list of the state is `l`. -/
def LruList (st : CacheState RecordType DNSClass Heap) (l : List Nat) : Prop :=
  Threaded st.nextOf st.prevOf noEntry st.lruHead st.lruTail l

end CacheState

variable {st st₁ st₂ st₃ : CacheState RecordType DNSClass Heap} {i : Nat}
  {m m' : EntryMeta RecordType DNSClass}

/-! ## What stays the same -/

/-- Both states hold the same entries. -/
structure Same (st₁ st₂ : CacheState RecordType DNSClass Heap) : Prop where
  pool : st₂.pool = st₁.pool
  heap : st₂.heap = st₁.heap
  freeEntries : st₂.freeEntries = st₁.freeEntries
  log : st₂.log = st₁.log
  length : st₂.entries.length = st₁.entries.length
  body : ∀ i, (st₂.live? i).map EntryMeta.body = (st₁.live? i).map EntryMeta.body

/-- They also have the same table: entries were at most updated in place. -/
structure Updated (st₁ st₂ : CacheState RecordType DNSClass Heap) : Prop extends
    Same st₁ st₂ where
  table : st₂.table = st₁.table
  tableLen : st₂.tableLen = st₁.tableLen
  tombstones : st₂.tombstones = st₁.tombstones
  slots : ∀ i, (st₂.live? i).map EntryMeta.tableSlot = (st₁.live? i).map EntryMeta.tableSlot

/-- They differ in nothing but the LRU list. -/
structure Relinked (st₁ st₂ : CacheState RecordType DNSClass Heap) : Prop extends
    Updated st₁ st₂ where
  core : ∀ i, (st₂.live? i).map EntryMeta.core = (st₁.live? i).map EntryMeta.core

theorem Same.refl (st : CacheState RecordType DNSClass Heap) : Same st st :=
  ⟨rfl, rfl, rfl, rfl, rfl, fun _ => rfl⟩

theorem Same.trans (h : Same st₁ st₂) (h' : Same st₂ st₃) : Same st₁ st₃ :=
  ⟨h'.pool.trans h.pool, h'.heap.trans h.heap, h'.freeEntries.trans h.freeEntries,
    h'.log.trans h.log, h'.length.trans h.length, fun i => (h'.body i).trans (h.body i)⟩

theorem Updated.refl (st : CacheState RecordType DNSClass Heap) : Updated st st :=
  ⟨Same.refl st, rfl, rfl, rfl, fun _ => rfl⟩

theorem Updated.trans (h : Updated st₁ st₂) (h' : Updated st₂ st₃) : Updated st₁ st₃ :=
  ⟨h.toSame.trans h'.toSame, h'.table.trans h.table, h'.tableLen.trans h.tableLen,
    h'.tombstones.trans h.tombstones, fun i => (h'.slots i).trans (h.slots i)⟩

theorem Relinked.refl (st : CacheState RecordType DNSClass Heap) : Relinked st st :=
  ⟨Updated.refl st, fun _ => rfl⟩

theorem Relinked.trans (h : Relinked st₁ st₂) (h' : Relinked st₂ st₃) : Relinked st₁ st₃ :=
  ⟨h.toUpdated.trans h'.toUpdated, fun i => (h'.core i).trans (h.core i)⟩

/-- A live entry of one state is one of the other, with the same body. -/
theorem Same.live (h : Same st₁ st₂) (hi : st₁.live? i = some m) :
    ∃ m', st₂.live? i = some m' ∧ m'.body = m.body := by
  have hBody := h.body i
  rw [hi] at hBody
  exact Option.map_eq_some_iff.mp hBody

theorem Same.symm (h : Same st₁ st₂) : Same st₂ st₁ :=
  ⟨h.pool.symm, h.heap.symm, h.freeEntries.symm, h.log.symm, h.length.symm,
    fun i => (h.body i).symm⟩

theorem Same.isSome (h : Same st₁ st₂) (i : Nat) :
    (st₂.live? i).isSome = (st₁.live? i).isSome := by
  have hBody := congrArg Option.isSome (h.body i)
  rwa [Option.isSome_map, Option.isSome_map] at hBody

/-- Fields that a body determines. -/
theorem body_eq_iff (h : m'.body = m.body) :
    m'.offset = m.offset ∧ m'.totalLen = m.totalLen ∧
      ∀ pool, keyOf pool m' = keyOf pool m := by
  have hOffset : m'.body.offset = m.body.offset := congrArg _ h
  have hTotal : m'.body.totalLen = m.body.totalLen := congrArg _ h
  have hKey : ∀ pool, keyOf pool m'.body = keyOf pool m.body := fun pool => congrArg _ h
  exact ⟨hOffset, hTotal, hKey⟩

theorem Same.keyAt (h : Same st₁ st₂) (i : Nat) : st₂.keyAt i = st₁.keyAt i := by
  have hKey : ∀ (st : CacheState RecordType DNSClass Heap),
      st.keyAt i = ((st.live? i).map EntryMeta.body).map (keyOf st.pool) := by
    intro st
    rw [CacheState.keyAt, Option.map_map]
    rfl
  rw [hKey st₂, hKey st₁, h.body i, h.pool]

theorem Same.readable (h : Same st₁ st₂) (hRead : st₁.Readable) : st₂.Readable := by
  intro i m hi
  obtain ⟨m', hi', hBody⟩ := h.symm.live hi
  obtain ⟨hOffset, hTotal, -⟩ := body_eq_iff hBody
  rw [← hOffset, ← hTotal, h.pool]
  exact hRead i m' hi'

/-- The index does not look at links or refresh bookkeeping. -/
theorem Updated.index {env : Env RecordType DNSClass Heap} {placed : Nat → Prop}
    (h : Updated st₁ st₂) (hIndex : Index env placed st₁) : Index env placed st₂ := by
  -- what the index reads of an entry is the same in both states
  have hLive : ∀ {i m}, st₂.live? i = some m → ∃ m', st₁.live? i = some m' ∧
      m'.tableSlot = m.tableSlot ∧ keyOf st₁.pool m' = keyOf st₂.pool m := by
    intro i m hi
    obtain ⟨m', hi', hBody⟩ := h.toSame.symm.live hi
    refine ⟨m', hi', ?_, ?_⟩
    · have hSlot := h.slots i
      rw [hi, hi'] at hSlot
      exact (Option.some.inj hSlot).symm
    · rw [h.pool]
      exact (body_eq_iff hBody).2.2 _
  constructor
  case size => rw [h.table]; exact hIndex.size
  case small => rw [h.table]; exact hIndex.small
  case proper => rw [h.length]; exact hIndex.proper
  case placed_slot =>
    intro i m hi hm
    obtain ⟨m', hm', hSlot, hKey⟩ := hLive hm
    rw [h.table, ← hSlot, ← hKey]
    exact hIndex.placed_slot i m' hi hm'
  case slot_placed =>
    intro s slot hs hSlotLive
    rw [h.table] at hs
    obtain ⟨hPlaced, m, hm, hSlot⟩ := hIndex.slot_placed s slot hs hSlotLive
    obtain ⟨m', hm', -⟩ := h.toSame.live hm
    obtain ⟨m'', hm'', hSlot', -⟩ := hLive hm'
    rw [hm] at hm''
    cases hm''
    exact ⟨hPlaced, m', hm', hSlot'.symm.trans hSlot⟩
  case tableLen_eq => rw [h.table, h.tableLen]; exact hIndex.tableLen_eq
  case tombstones_eq => rw [h.table, h.tombstones]; exact hIndex.tombstones_eq
  case room => rw [h.table, h.tableLen, h.tombstones]; exact hIndex.room

/-! ## Updating one entry -/

theorem live?_modified (hi : st.live? i = some m) (m' : EntryMeta RecordType DNSClass) (j : Nat) :
    (({ st with entries := st.entries.set i (some m') } :
      CacheState RecordType DNSClass Heap).live? j) = if j = i then some m' else st.live? j :=
  live?_set (lt_of_live? hi)

theorem map_live?_modified {α : Type} (view : EntryMeta RecordType DNSClass → α)
    (hi : st.live? i = some m) (hView : view m' = view m) (j : Nat) :
    (({ st with entries := st.entries.set i (some m') } :
      CacheState RecordType DNSClass Heap).live? j).map view = (st.live? j).map view := by
  rw [live?_modified hi]
  split
  · subst_vars
    rw [hi, Option.map_some, Option.map_some, hView]
  · rfl

/-- An update of links or refresh bookkeeping. -/
theorem updated_modify (hi : st.live? i = some m) (hBody : m'.body = m.body)
    (hSlot : m'.tableSlot = m.tableSlot) :
    Updated st { st with entries := st.entries.set i (some m') } :=
  ⟨⟨rfl, rfl, rfl, rfl, List.length_set, map_live?_modified _ hi hBody⟩, rfl, rfl, rfl,
    map_live?_modified _ hi hSlot⟩

/-- An update of links. -/
theorem relinked_modify (hi : st.live? i = some m) (hCore : m'.core = m.core) :
    Relinked st { st with entries := st.entries.set i (some m') } := by
  have hBody : m'.core.body = m.core.body := congrArg _ hCore
  have hSlot : m'.core.tableSlot = m.core.tableSlot := congrArg _ hCore
  exact ⟨updated_modify hi hBody hSlot, map_live?_modified _ hi hCore⟩

theorem nextOf_modify (hi : st.live? i = some m) (m' : EntryMeta RecordType DNSClass) :
    ({ st with entries := st.entries.set i (some m') } :
      CacheState RecordType DNSClass Heap).nextOf = Function.update st.nextOf i m'.next := by
  funext j
  rw [nextOf, live?_modified hi, Function.update_apply]
  split
  · rfl
  · rfl

theorem prevOf_modify (hi : st.live? i = some m) (m' : EntryMeta RecordType DNSClass) :
    ({ st with entries := st.entries.set i (some m') } :
      CacheState RecordType DNSClass Heap).prevOf = Function.update st.prevOf i m'.prev := by
  funext j
  rw [prevOf, live?_modified hi, Function.update_apply]
  split
  · rfl
  · rfl

theorem nextOf_eq (hi : st.live? i = some m) : st.nextOf i = m.next := by
  rw [nextOf, hi]
  rfl

theorem prevOf_eq (hi : st.live? i = some m) : st.prevOf i = m.prev := by
  rw [prevOf, hi]
  rfl

/-! ## The operations on the list -/

/-- The links of `st₂` are those of `st₁`, updated. -/
structure LinkedAs (st : CacheState RecordType DNSClass Heap) (nxt prv : Nat → Nat)
    (head tail : Nat) : Prop where
  next_eq : st.nextOf = nxt
  prev_eq : st.prevOf = prv
  head_eq : st.lruHead = head
  tail_eq : st.lruTail = tail

/-- The ends of the list are no part of an entry. -/
theorem relinked_ends (head tail : Nat) :
    Relinked st { st with lruHead := head, lruTail := tail } :=
  ⟨⟨⟨rfl, rfl, rfl, rfl, rfl, fun _ => rfl⟩, rfl, rfl, rfl, fun _ => rfl⟩, fun _ => rfl⟩

/-- The link forward from a live entry is changed. -/
theorem linkedAs_next (hm : st.live? i = some m) (next : Nat) :
    LinkedAs { st with entries := st.entries.set i (some { m with next := next }) }
      (Function.update st.nextOf i next) st.prevOf st.lruHead st.lruTail := by
  refine ⟨nextOf_modify hm _, ?_, rfl, rfl⟩
  rw [prevOf_modify hm, ← prevOf_eq hm]
  exact Function.update_eq_self _ _

/-- The link back from a live entry is changed. -/
theorem linkedAs_prev (hm : st.live? i = some m) (prev : Nat) :
    LinkedAs { st with entries := st.entries.set i (some { m with prev := prev }) }
      st.nextOf (Function.update st.prevOf i prev) st.lruHead st.lruTail := by
  refine ⟨?_, prevOf_modify hm _, rfl, rfl⟩
  rw [nextOf_modify hm, ← nextOf_eq hm]
  exact Function.update_eq_self _ _

theorem setNext_spec {prev : Nat} (hPrev : prev = noEntry ∨ (st.live? prev).isSome = true)
    (next : Nat) :
    ∃ st', st.setNext prev next = .ok st' ∧ Relinked st st' ∧
      LinkedAs st' (if prev = noEntry then st.nextOf else Function.update st.nextOf prev next)
        st.prevOf (if prev = noEntry then next else st.lruHead) st.lruTail := by
  rw [setNext]
  by_cases hEnd : prev = noEntry
  · simp only [if_pos hEnd]
    exact ⟨_, rfl, relinked_ends _ _, rfl, rfl, rfl, rfl⟩
  · obtain ⟨m, hm⟩ := Option.isSome_iff_exists.mp (hPrev.resolve_left hEnd)
    simp only [if_neg hEnd]
    exact ⟨_, modifyEntry_eq_ok hm _, relinked_modify hm rfl, linkedAs_next hm next⟩

theorem setPrev_spec {next : Nat} (hNext : next = noEntry ∨ (st.live? next).isSome = true)
    (prev : Nat) :
    ∃ st', st.setPrev next prev = .ok st' ∧ Relinked st st' ∧
      LinkedAs st' st.nextOf
        (if next = noEntry then st.prevOf else Function.update st.prevOf next prev)
        st.lruHead (if next = noEntry then prev else st.lruTail) := by
  rw [setPrev]
  by_cases hEnd : next = noEntry
  · simp only [if_pos hEnd]
    exact ⟨_, rfl, relinked_ends _ _, rfl, rfl, rfl, rfl⟩
  · obtain ⟨m, hm⟩ := Option.isSome_iff_exists.mp (hNext.resolve_left hEnd)
    simp only [if_neg hEnd]
    exact ⟨_, modifyEntry_eq_ok hm _, relinked_modify hm rfl, linkedAs_prev hm prev⟩

/-- The neighbours of a member are members or the sentinel. -/
theorem LruList.neighbours_live {l₁ l₂ : List Nat} (h : st.LruList (l₁ ++ i :: l₂))
    (hLive : ∀ x ∈ l₁ ++ i :: l₂, (st.live? x).isSome = true) :
    (st.prevOf i = noEntry ∨ (st.live? (st.prevOf i)).isSome = true) ∧
      (st.nextOf i = noEntry ∨ (st.live? (st.nextOf i)).isSome = true) := by
  obtain ⟨hp, hn⟩ := h.neighbours
  constructor
  · by_cases hEmpty : l₁ = []
    · exact .inl (by rw [hp, hEmpty]; rfl)
    · exact .inr (hLive _ (List.mem_append_left _ (hp ▸ getLastD_mem hEmpty)))
  · by_cases hEmpty : l₂ = []
    · exact .inl (by rw [hn, hEmpty]; rfl)
    · exact .inr (hLive _ (List.mem_append_right _ (List.mem_cons_of_mem _
        (hn ▸ headD_mem hEmpty))))

/-- The head of the list is a member or the sentinel. -/
theorem LruList.head_live {l : List Nat} (h : st.LruList l)
    (hLive : ∀ x ∈ l, (st.live? x).isSome = true) :
    st.lruHead = noEntry ∨ (st.live? st.lruHead).isSome = true := by
  by_cases hEmpty : l = []
  · exact .inl ((Threaded.head_eq_iff h).mpr hEmpty)
  · exact .inr (hLive _ (Threaded.head_eq h ▸ headD_mem hEmpty))

/-- The list depends on its members and the two ends. -/
theorem LruList.congr {l : List Nat} (h : st₁.LruList l)
    (hLive : ∀ x ∈ l, st₂.live? x = st₁.live? x) (hHead : st₂.lruHead = st₁.lruHead)
    (hTail : st₂.lruTail = st₁.lruTail) : st₂.LruList l := by
  refine ⟨h.links.congr (fun x hx => ?_) fun x hx => ?_, h.nodup, h.proper, ?_, ?_⟩
  · rw [nextOf, hLive x hx, nextOf]
  · rw [prevOf, hLive x hx, prevOf]
  · rw [hHead]
    exact h.head_eq
  · rw [hTail]
    exact h.tail_eq

/-- **`unlink`** takes an entry out of the list. -/
theorem unlink_spec {l₁ l₂ : List Nat} (h : st.LruList (l₁ ++ i :: l₂))
    (hLive : ∀ x ∈ l₁ ++ i :: l₂, (st.live? x).isSome = true) :
    ∃ st', st.unlink i = .ok st' ∧ Relinked st st' ∧ st'.LruList (l₁ ++ l₂) := by
  -- the neighbours are joined one after the other; the first join keeps the second one live
  obtain ⟨m, hm⟩ := Option.isSome_iff_exists.mp (hLive i (by simp))
  obtain ⟨hPrevLive, hNextLive⟩ := LruList.neighbours_live h hLive
  rw [prevOf_eq hm] at hPrevLive
  rw [nextOf_eq hm] at hNextLive
  obtain ⟨st₁, hSt₁, hSame₁, hLinks₁⟩ := setNext_spec hPrevLive m.next
  have hNextLive₁ : m.next = noEntry ∨ (st₁.live? m.next).isSome = true := by
    rwa [hSame₁.isSome]
  obtain ⟨st₂, hSt₂, hSame₂, hLinks₂⟩ := setPrev_spec hNextLive₁ m.prev
  refine ⟨st₂, ?_, hSame₁.trans hSame₂, ?_⟩
  · rw [unlink, entry_eq_ok.mpr hm, ok_bind, hSt₁, ok_bind, hSt₂]
  · -- the two joins together are what unlinking does to the list
    have hUnlinked := Threaded.unlink h
    rw [prevOf_eq hm, nextOf_eq hm] at hUnlinked
    rw [LruList, hLinks₂.next_eq, hLinks₂.prev_eq, hLinks₂.head_eq, hLinks₂.tail_eq,
      hLinks₁.next_eq, hLinks₁.prev_eq, hLinks₁.head_eq, hLinks₁.tail_eq]
    exact hUnlinked

theorem linkBack_spec {oldHead : Nat}
    (hHead : oldHead = noEntry ∨ (st.live? oldHead).isSome = true) (entry : Nat) :
    ∃ st', st.linkBack oldHead entry = .ok st' ∧ Relinked st st' ∧
      LinkedAs st' st.nextOf
        (if oldHead = noEntry then st.prevOf else Function.update st.prevOf oldHead entry)
        st.lruHead st.lruTail := by
  rw [linkBack]
  by_cases hEnd : oldHead = noEntry
  · simp only [if_pos hEnd]
    exact ⟨_, rfl, Relinked.refl _, rfl, rfl, rfl, rfl⟩
  · obtain ⟨m, hm⟩ := Option.isSome_iff_exists.mp (hHead.resolve_left hEnd)
    simp only [if_neg hEnd]
    exact ⟨_, modifyEntry_eq_ok hm _, relinked_modify hm rfl, linkedAs_prev hm entry⟩

/-- **`attach_front`** puts an entry that is not in the list at its front. -/
theorem attachFront_spec {l : List Nat} (h : st.LruList l)
    (hLive : ∀ x ∈ l, (st.live? x).isSome = true) (hi : (st.live? i).isSome = true) (hNew : i ∉ l)
    (hProper : i ≠ noEntry) :
    ∃ st', st.attachFront i = .ok st' ∧ Relinked st st' ∧ st'.LruList (i :: l) := by
  obtain ⟨m, hm⟩ := Option.isSome_iff_exists.mp hi
  have hSame₁ : Relinked st { st with
      entries := st.entries.set i (some { m with prev := noEntry, next := st.lruHead }) } :=
    relinked_modify hm rfl
  -- the old head, if there is one, is live and gets its link back
  have hHead := LruList.head_live h hLive
  rw [← hSame₁.isSome] at hHead
  obtain ⟨st₂, hSt₂, hSame₂, hLinks₂⟩ := linkBack_spec hHead i
  refine ⟨{ st₂ with
      lruHead := i
      lruTail := if st₂.lruTail = noEntry then i else st₂.lruTail }, ?_, ?_, ?_⟩
  · rw [attachFront]
    simp only [modifyEntry_eq_ok hm, ok_bind, hSt₂]
    rfl
  · exact hSame₁.trans (hSame₂.trans (relinked_ends _ _))
  · -- the links after the three writes are those of the longer list
    have hPushed := Threaded.pushFront h hNew hProper
    have hNext : st₂.nextOf = Function.update st.nextOf i st.lruHead := by
      rw [hLinks₂.next_eq, nextOf_modify hm]
    have hPrev : st₂.prevOf = if st.lruHead = noEntry then Function.update st.prevOf i noEntry
        else Function.update (Function.update st.prevOf i noEntry) st.lruHead i := by
      rw [hLinks₂.prev_eq, prevOf_modify hm]
    rw [← hNext, ← hPrev] at hPushed
    have hTail : st₂.lruTail = st.lruTail := hLinks₂.tail_eq
    rw [← hTail] at hPushed
    exact hPushed

/-- **`touch`** moves an entry to the front. -/
theorem touch_spec {l₁ l₂ : List Nat} (h : st.LruList (l₁ ++ i :: l₂))
    (hLive : ∀ x ∈ l₁ ++ i :: l₂, (st.live? x).isSome = true) :
    ∃ st', st.touch i = .ok st' ∧ Relinked st st' ∧ st'.LruList (i :: (l₁ ++ l₂)) := by
  have hMem : i ∈ l₁ ++ i :: l₂ := by simp
  have hNodup := Threaded.nodup h
  have hProper : i ≠ noEntry := fun hEq => Threaded.proper h (hEq ▸ hMem)
  rw [touch]
  by_cases hFront : st.lruHead = i
  · -- it is at the front already
    rw [if_pos hFront]
    have hEmpty : l₁ = [] := by
      cases l₁ with
      | nil => rfl
      | cons b l₁ =>
        have hHead : st.lruHead = b := Threaded.head_eq h
        rw [List.cons_append, List.nodup_cons] at hNodup
        exact absurd (List.mem_append_right _ List.mem_cons_self)
          (by rw [← hHead, hFront] at hNodup; exact hNodup.1)
    refine ⟨st, rfl, Relinked.refl _, ?_⟩
    rw [hEmpty] at h ⊢
    exact h
  · rw [if_neg hFront]
    -- it is taken out and put in front again
    obtain ⟨st₁, hSt₁, hSame₁, hList₁⟩ := unlink_spec h hLive
    have hSub : ∀ x ∈ l₁ ++ l₂, x ∈ l₁ ++ i :: l₂ := by
      intro x hx
      simp only [List.mem_append, List.mem_cons] at hx ⊢
      tauto
    have hNew : i ∉ l₁ ++ l₂ := by
      rw [List.nodup_middle, List.nodup_cons] at hNodup
      exact hNodup.1
    obtain ⟨st₂, hSt₂, hSame₂, hList₂⟩ := attachFront_spec hList₁
      (fun x hx => by rw [hSame₁.isSome]; exact hLive x (hSub x hx))
      (by rw [hSame₁.isSome]; exact hLive i hMem) hNew hProper
    exact ⟨st₂, by rw [hSt₁, ok_bind, hSt₂], hSame₁.trans hSame₂, hList₂⟩

end DnsRs.Cache
