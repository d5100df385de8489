import DnsRs.Blocklist.Index
import DnsRs.Blocklist.Normalize

/-!
# Merging the lists

`republish_merged` builds two indexes: the union of the whitelist's inline names
and sources, and the union of the blocklist's without the names in the first.

* `containsBytes_spec`, `names_spec` — what an index says it holds.
* `republishIndex_spec` — the merged index holds the blocked names that are not
  allowed.
* `domain_index_is_set` — what an index says depends only on the names that were
  inserted.
-/

namespace DnsRs.Blocklist

open Lib Wire DomainIndex

/-! ## Inline names -/

/-- The inline names of a `DomainSet`. -/
def inlineNames (domains : List (List Char)) : List Bytes :=
  domains.map fun domain => asBytes (normalizeName domain)

theorem inlineNames_ne_nil (domains : List (List Char)) : ∀ name ∈ inlineNames domains, name ≠ [] := by
  intro name hName
  obtain ⟨domain, -, rfl⟩ := List.mem_map.mp hName
  exact asBytes_ne_nil (normalizeName_ne_nil domain)

/-! ## The code -/

section Hash

variable (hash : Bytes → UInt64)

/-- The closure `excluded`. -/
def excluded (exclude : Option DomainIndex) (bytes : Bytes) : Except Fault Bool :=
  match exclude with
  | none => .ok false
  | some e => e.containsBytes hash bytes

def insertUnless (exclude : Option DomainIndex) (out : DomainIndex) (name : Bytes) :
    Except Fault DomainIndex := do
  if ← excluded hash exclude name then .ok out else out.insertNormalized hash name

def mergedWithCapacity (expected : Nat) (inline : List Bytes) (sources : List DomainIndex)
    (exclude : Option DomainIndex) : Except Fault DomainIndex := do
  let out ← inline.foldlM (insertUnless hash exclude) (withCapacity expected)
  sources.foldlM
    (fun out source => do (← source.names).foldlM (insertUnless hash exclude) out) out

/-- `inline.len() + sources.iter().map(|s| s.len()).sum()` -/
def expectedLen (inline : List Bytes) (sources : List DomainIndex) : Nat :=
  inline.length + (sources.map DomainIndex.len).sum

def merged (inline : List Bytes) (sources : List DomainIndex) (exclude : Option DomainIndex) :
    Except Fault DomainIndex :=
  mergedWithCapacity hash (expectedLen inline sources) inline sources exclude

/-- What `republish_merged` makes of its snapshots. -/
def republishIndex (blockInline allowInline : List Bytes) (block allow : List DomainIndex) :
    Except Fault DomainIndex := do
  let allowed ← merged hash allowInline allow none
  mergedWithCapacity hash (expectedLen blockInline block) blockInline block (some allowed)

/-- `parse_list_async`, given the length of the body and the names its lines
insert. -/
def parseList (bodyLen : Nat) (names : List Bytes) : Except Fault DomainIndex :=
  names.foldlM (insertNormalized hash) (withCapacity (bodyLen / 24))

end Hash

/-! ## What it computes -/

variable {hash : Bytes → UInt64} {ix out : DomainIndex}

/-- No name is empty. -/
theorem Shaped.nil_notMem (h : Shaped hash ix) : [] ∉ ix.members := by
  intro hMem
  rw [mem_members, stored, List.reduceOption_mem_iff, table, List.mem_map] at hMem
  obtain ⟨slot, hSlot, hName⟩ := hMem
  rw [slotName] at hName
  split at hName
  · cases hName
  · rename_i hPos
    have hLen := length_readAt (h.bounds slot hSlot hPos)
    rw [Option.some.inj hName] at hLen
    exact hPos hLen.symm

theorem containsBytes_spec (h : WellFormed hash ix) (bytes : Bytes) :
    ix.containsBytes hash bytes = .ok (decide (bytes ∈ ix.members)) := by
  -- `find` answers for the empty name without looking
  by_cases hBytes : bytes = []
  · rw [containsBytes, find, if_pos hBytes, hBytes, decide_eq_false h.nil_notMem]
    rfl
  · obtain ⟨r, hFind, hIff⟩ := find_spec h.toShaped h.roomy hBytes
    rw [containsBytes, hFind, ok_bind, pure_eq_ok]
    congr 1
    rw [Bool.eq_iff_iff, hIff, decide_eq_true_iff]

theorem names_spec (h : Shaped hash ix) : ix.names = .ok ix.stored := by
  have hSlots : ∀ slots : List Slot, (∀ slot ∈ slots, slot ∈ ix.slots) →
      (slots.filter fun slot => slot.2 ≠ 0).mapM ix.nameAt =
        .ok (slots.map (slotName ix.arena)).reduceOption := by
    intro slots
    induction slots with
    | nil =>
      intro _
      rfl
    | cons slot slots ih =>
      intro hAll
      have hRest := ih fun other hOther => hAll other (List.mem_cons_of_mem slot hOther)
      rw [List.map_cons]
      -- the filter drops exactly the slots that stand for no name
      by_cases hZero : slot.2 = 0
      · rw [List.filter_cons_of_neg (by simp [hZero]), slotName, if_pos hZero,
          List.reduceOption_cons_of_none, hRest]
      · rw [List.filter_cons_of_pos (by simp [hZero]), slotName, if_neg hZero,
          List.reduceOption_cons_of_some, List.mapM_cons,
          h.nameAt (hAll slot List.mem_cons_self) hZero, ok_bind, hRest]
        rfl
  exact hSlots ix.slots fun slot hSlot => hSlot

/-- The names of a direction: inline or from a source. -/
def listed (inline : List Bytes) (sources : List DomainIndex) : Finset Bytes :=
  inline.toFinset ∪ (sources.flatMap stored).toFinset

theorem mem_listed {inline : List Bytes} {sources : List DomainIndex} {name : Bytes} :
    name ∈ listed inline sources ↔ name ∈ inline ∨ ∃ source ∈ sources, name ∈ source.members := by
  simp [listed, mem_members]

/-- The closure decides membership in a set. -/
def Excludes (hash : Bytes → UInt64) (exclude : Option DomainIndex) (E : Finset Bytes) : Prop :=
  ∀ name, excluded hash exclude name = .ok (decide (name ∈ E))

theorem excludes_none : Excludes hash none ∅ := by
  intro name
  rw [excluded, decide_eq_false (Finset.notMem_empty name)]

theorem excludes_some (h : WellFormed hash ix) : Excludes hash (some ix) ix.members :=
  containsBytes_spec h

/-- The loop over a list of names. -/
theorem insertAll_spec {exclude : Option DomainIndex} {E : Finset Bytes} {names : List Bytes}
    (hExclude : Excludes hash exclude E) (h : WellFormed hash out)
    (hNames : ∀ name ∈ names, name ≠ [])
    (hFits : totalBytes (out.members ∪ (names.toFinset \ E)) < 2 ^ 32) :
    ∃ out', names.foldlM (insertUnless hash exclude) out = .ok out' ∧ WellFormed hash out' ∧
      out'.members = out.members ∪ (names.toFinset \ E) := by
  -- the invariant: the names done so far that are not excluded have been added
  refine foldlM_eq_ok (I := fun done out' => WellFormed hash out' ∧
    out'.members = out.members ∪ (done.toFinset \ E)) ⟨h, by simp⟩ ?_
  rintro done name rest out' rfl ⟨hWell, hMembers⟩
  rw [insertUnless, hExclude name, ok_bind]
  -- an excluded name changes nothing
  by_cases hSkip : name ∈ E
  · rw [decide_eq_true hSkip, if_pos rfl]
    refine ⟨out', rfl, hWell, ?_⟩
    rw [hMembers]
    ext other
    simp only [List.toFinset_append, Finset.mem_union, Finset.mem_sdiff, List.mem_toFinset,
      List.mem_singleton]
    grind
  · have hSet : insert name out'.members = out.members ∪ ((done ++ [name]).toFinset \ E) := by
      rw [hMembers]
      ext other
      simp only [List.toFinset_append, Finset.mem_insert, Finset.mem_union, Finset.mem_sdiff,
        List.mem_toFinset, List.mem_singleton]
      grind
    -- what is stored after this turn is part of what is stored in the end
    have hSub : insert name out'.members ⊆
        out.members ∪ ((done ++ name :: rest).toFinset \ E) := by
      rw [hSet]
      refine Finset.union_subset_union (Finset.Subset.refl _) (Finset.sdiff_subset_sdiff ?_
        (Finset.Subset.refl _))
      intro other hOther
      simp only [List.mem_toFinset, List.mem_append, List.mem_cons] at hOther ⊢
      grind
    obtain ⟨out'', hInsert, hWell', hMembers'⟩ := insertNormalized_spec hWell
      (hNames name (List.mem_append_right done List.mem_cons_self))
      (Nat.lt_of_le_of_lt (totalBytes_mono hSub) hFits)
    rw [decide_eq_false hSkip, if_neg (by simp)]
    exact ⟨out'', hInsert, hWell', hMembers'.trans hSet⟩

/-- **Merging.** The result holds the names of the direction that are not
excluded. -/
theorem mergedWithCapacity_spec {exclude : Option DomainIndex} {E : Finset Bytes} (expected : Nat)
    {inline : List Bytes} {sources : List DomainIndex} (hExclude : Excludes hash exclude E)
    (hInline : ∀ name ∈ inline, name ≠ []) (hSources : ∀ source ∈ sources, WellFormed hash source)
    (hFits : totalBytes (listed inline sources \ E) < 2 ^ 32) :
    ∃ out, mergedWithCapacity hash expected inline sources exclude = .ok out ∧
      WellFormed hash out ∧ out.members = listed inline sources \ E := by
  -- no intermediate index is larger than the final one
  have hBelow : ∀ some' ⊆ listed inline sources \ E, totalBytes some' < 2 ^ 32 :=
    fun _ hSub => Nat.lt_of_le_of_lt (totalBytes_mono hSub) hFits
  have hFirst : (withCapacity expected).members ∪ (inline.toFinset \ E) = inline.toFinset \ E := by
    rw [members_withCapacity, Finset.empty_union]
  obtain ⟨first, hFold, hWell, hMembers⟩ := insertAll_spec hExclude
    (wellFormed_withCapacity expected) hInline (by
      rw [hFirst]
      exact hBelow _ (Finset.sdiff_subset_sdiff Finset.subset_union_left (Finset.Subset.refl _)))
  rw [hFirst] at hMembers
  rw [mergedWithCapacity, hFold, ok_bind]
  refine foldlM_eq_ok (I := fun done out => WellFormed hash out ∧
    out.members = listed inline done \ E) ⟨hWell, ?_⟩ ?_
  · rw [hMembers]
    simp [listed]
  · rintro done source rest out rfl ⟨hOut, hMembers'⟩
    -- `names()` of a source lists its members, which the inner loop adds
    have hSource := hSources source (List.mem_append_right done List.mem_cons_self)
    have hSet : out.members ∪ (source.stored.toFinset \ E) = listed inline (done ++ [source]) \ E := by
      rw [hMembers']
      ext name
      simp only [listed, List.flatMap_append, List.flatMap_cons, List.flatMap_nil, List.append_nil,
        List.toFinset_append, Finset.mem_union, Finset.mem_sdiff]
      tauto
    obtain ⟨out', hFold', hWell', hOut'⟩ := insertAll_spec hExclude hOut
      (fun name hName hNil => hSource.nil_notMem (mem_members.mpr (hNil ▸ hName)))
      (by
        rw [hSet]
        refine hBelow _ (Finset.sdiff_subset_sdiff ?_ (Finset.Subset.refl _))
        intro name hName
        rw [mem_listed] at hName ⊢
        grind)
    refine ⟨out', ?_, hWell', hOut'.trans hSet⟩
    rw [names_spec hSource.toShaped, ok_bind, hFold']

/-- **Republishing.** The merged index holds the blocked names that are not
allowed. -/
theorem republishIndex_spec {blockInline allowInline : List Bytes} {block allow : List DomainIndex}
    (hBlockInline : ∀ name ∈ blockInline, name ≠ []) (hAllowInline : ∀ name ∈ allowInline, name ≠ [])
    (hBlock : ∀ source ∈ block, WellFormed hash source)
    (hAllow : ∀ source ∈ allow, WellFormed hash source)
    (hAllowFits : totalBytes (listed allowInline allow) < 2 ^ 32)
    (hBlockFits : totalBytes (listed blockInline block \ listed allowInline allow) < 2 ^ 32) :
    ∃ ix, republishIndex hash blockInline allowInline block allow = .ok ix ∧ WellFormed hash ix ∧
      ix.members = listed blockInline block \ listed allowInline allow := by
  have hNone : listed allowInline allow \ ∅ = listed allowInline allow := Finset.sdiff_empty
  obtain ⟨allowed, hMerged, hWell, hMembers⟩ := mergedWithCapacity_spec
    (expectedLen allowInline allow) excludes_none hAllowInline hAllow (by rw [hNone]; exact hAllowFits)
  rw [hNone] at hMembers
  rw [republishIndex, merged, hMerged, ok_bind]
  -- the whitelist index is what the second merge excludes
  have hExclude := excludes_some hWell
  rw [hMembers] at hExclude
  exact mergedWithCapacity_spec _ hExclude hBlockInline hBlock hBlockFits

/-- Empty names are passed over. -/
theorem foldlM_insert_filter (names : List Bytes) (ix : DomainIndex) :
    (names.filter fun name => name ≠ []).foldlM (insertNormalized hash) ix =
      names.foldlM (insertNormalized hash) ix := by
  induction names generalizing ix with
  | nil => rfl
  | cons name names ih =>
    by_cases hNil : name = []
    · have hSkip : ix.insertNormalized hash name = .ok ix := if_pos hNil
      rw [List.filter_cons_of_neg (by simp [hNil]), List.foldlM_cons, hSkip, ok_bind, ih]
    · rw [List.filter_cons_of_pos (by simp [hNil]), List.foldlM_cons, List.foldlM_cons]
      exact congrArg (bind (ix.insertNormalized hash name)) (funext ih)

/-- Insertions into an empty index, in whatever order and however often. -/
theorem insertNames_spec (expected : Nat) {names : List Bytes}
    (hFits : totalBytes (names.filter fun name => name ≠ []).toFinset < 2 ^ 32) :
    ∃ ix, names.foldlM (insertNormalized hash) (withCapacity expected) = .ok ix ∧
      WellFormed hash ix ∧ ix.members = (names.filter fun name => name ≠ []).toFinset := by
  have hSet : ∀ S : Finset Bytes, (withCapacity expected).members ∪ (S \ ∅) = S := by
    intro S
    rw [members_withCapacity, Finset.empty_union, Finset.sdiff_empty]
  have hProper : ∀ name ∈ names.filter fun name => name ≠ [], name ≠ [] := by
    intro name hName
    simpa using (List.mem_filter.mp hName).2
  obtain ⟨ix, hFold, hWell, hMembers⟩ := insertAll_spec excludes_none
    (wellFormed_withCapacity expected) hProper (by rw [hSet]; exact hFits)
  refine ⟨ix, ?_, hWell, hMembers.trans (hSet _)⟩
  rw [← foldlM_insert_filter, ← hFold]
  rfl

/-- A fetched list is the set of the names its lines insert. -/
theorem parseList_spec (bodyLen : Nat) {names : List Bytes}
    (hFits : totalBytes (names.filter fun name => name ≠ []).toFinset < 2 ^ 32) :
    ∃ ix, parseList hash bodyLen names = .ok ix ∧ WellFormed hash ix ∧
      ix.members = (names.filter fun name => name ≠ []).toFinset :=
  insertNames_spec (bodyLen / 24) hFits

/-! ## The index as a set -/

/-- Names that are inserted again take no more bytes. -/
theorem totalBytes_toFinset_le (names : List Bytes) :
    totalBytes names.toFinset ≤ (names.map List.length).sum := by
  induction names with
  | nil => exact Nat.le_refl 0
  | cons name names ih =>
    rw [List.toFinset_cons, List.map_cons, List.sum_cons]
    by_cases hMem : name ∈ names.toFinset
    · rw [Finset.insert_eq_of_mem hMem]
      omega
    · rw [totalBytes_insert hMem]
      omega

theorem totalBytes_filter_lt {names : List Bytes} (hFits : (names.map List.length).sum < 2 ^ 32) :
    totalBytes (names.filter fun name => name ≠ []).toFinset < 2 ^ 32 := by
  have hSub : (names.filter fun name => name ≠ []).toFinset ⊆ names.toFinset := by
    intro name hName
    rw [List.mem_toFinset] at hName ⊢
    exact List.mem_of_mem_filter hName
  calc totalBytes (names.filter fun name => name ≠ []).toFinset
      ≤ totalBytes names.toFinset := totalBytes_mono hSub
    _ ≤ (names.map List.length).sum := totalBytes_toFinset_le names
    _ < 2 ^ 32 := hFits

/-- What the index says of itself, for any insertions. -/
structure IsSetOf (hash : Bytes → UInt64) (names : List Bytes) (ix : DomainIndex) : Prop where
  contains : ∀ bytes, ix.containsBytes hash bytes = .ok (decide (bytes ≠ [] ∧ bytes ∈ names))
  len : ix.len = (names.filter fun name => name ≠ []).toFinset.card
  names : ∃ listing, ix.names = .ok listing ∧ listing.Nodup ∧
    ∀ bytes, bytes ∈ listing ↔ bytes ≠ [] ∧ bytes ∈ names

theorem WellFormed.isSetOf {names : List Bytes} (h : WellFormed hash ix)
    (hMembers : ix.members = (names.filter fun name => name ≠ []).toFinset) :
    IsSetOf hash names ix := by
  have hMem : ∀ bytes, bytes ∈ ix.members ↔ bytes ≠ [] ∧ bytes ∈ names := by
    intro bytes
    rw [hMembers, List.mem_toFinset, List.mem_filter, decide_eq_true_iff, and_comm]
  constructor
  case contains =>
    intro bytes
    rw [containsBytes_spec h, Except.ok.injEq, decide_eq_decide]
    exact hMem bytes
  case len =>
    -- the slots hold each name once
    rw [← hMembers, h.len]
    exact (List.toFinset_card_of_nodup h.findable.nodup).symm
  case names =>
    refine ⟨ix.stored, names_spec h.toShaped, h.findable.nodup, fun bytes => ?_⟩
    rw [← mem_members]
    exact hMem bytes

/-- **A set of names.** The insertions return for every capacity the table starts
with, and what the index then says depends only on which names were inserted. -/
theorem domain_index_is_set (hash : Bytes → UInt64) (expected : Nat) {names : List Bytes}
    (hFits : (names.map List.length).sum < 2 ^ 32) :
    ∃ ix, names.foldlM (insertNormalized hash) (withCapacity expected) = .ok ix ∧
      IsSetOf hash names ix ∧
      ∀ expected' (names' : List Bytes), (names'.map List.length).sum < 2 ^ 32 →
        (∀ bytes ≠ [], bytes ∈ names' ↔ bytes ∈ names) →
        ∃ ix', names'.foldlM (insertNormalized hash) (withCapacity expected') = .ok ix' ∧
          ∀ bytes, ix'.containsBytes hash bytes = ix.containsBytes hash bytes := by
  obtain ⟨ix, hFold, hWell, hMembers⟩ :=
    @insertNames_spec hash expected names (totalBytes_filter_lt hFits)
  have hSet := hWell.isSetOf hMembers
  refine ⟨ix, hFold, hSet, ?_⟩
  intro expected' names' hFits' hSame
  obtain ⟨ix', hFold', hWell', hMembers'⟩ :=
    @insertNames_spec hash expected' names' (totalBytes_filter_lt hFits')
  refine ⟨ix', hFold', fun bytes => ?_⟩
  rw [(hWell'.isSetOf hMembers').contains, hSet.contains, Except.ok.injEq, decide_eq_decide]
  exact and_congr_right (hSame bytes)

/-- Four insertions of two names, with one hash for all. -/
def twoNames : List Bytes := [[0x61, 0x2e], [], [0x62, 0x2e], [0x61, 0x2e]]

theorem domain_index_is_set_twoNames :
    ∃ ix, twoNames.foldlM (insertNormalized fun _ => 0) (withCapacity 0) = .ok ix ∧ ix.len = 2 ∧
      ix.containsBytes (fun _ => 0) [0x62, 0x2e] = .ok true := by
  obtain ⟨ix, hFold, hSet, -⟩ := domain_index_is_set (fun _ => 0) 0
    (show (twoNames.map List.length).sum < 2 ^ 32 by decide)
  refine ⟨ix, hFold, ?_, ?_⟩
  · rw [hSet.len]
    decide
  · rw [hSet.contains]
    decide

end DnsRs.Blocklist
