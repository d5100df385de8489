import DnsRs.Blocklist.Rebuild

/-!
# Published lists

What the sources hold and what the rebuilds make of it, over whole runs of the
manager. A run is looked at together with its past, in which the lists that
landed for a source stand in their order.

* `Landed` — a source, and every snapshot of it, holds the names of one of the
  lists that landed for it, and its version says which.
* `published_lists` — everything ever published is exact for its snapshots, and
  no publication uses an older set of a source than an earlier one did.
-/

namespace DnsRs.Blocklist

open Lib Wire DomainIndex

/-! ## Contents -/

/-- `contains_bytes` says yes. -/
def Contains (hash : Bytes → UInt64) (ix : DomainIndex) (name : Bytes) : Prop :=
  ix.containsBytes hash name = .ok true

/-- The name is one of a direction's inline domains, or in one of its sources. -/
def Lists.names (hash : Bytes → UInt64) (domains : List (List Char)) (sources : List Source)
    (name : Bytes) : Prop :=
  name ∈ inlineNames domains ∨ ∃ source ∈ sources, Contains hash source.set name

/-- What is to be blocked, given these snapshots. -/
def Lists.blocks (hash : Bytes → UInt64) (lists : Lists) (snaps : List Source) (name : Bytes) :
    Prop :=
  names hash lists.blockDomains (snaps.take lists.blockUrls) name ∧
    ¬ names hash lists.allowDomains (snaps.drop lists.blockUrls) name

/-- The published index answers every lookup, and contains exactly that. -/
def Exact (hash : Bytes → UInt64) (lists : Lists) (pub : Publication) : Prop :=
  ∀ name, ∃ answer, pub.index.containsBytes hash name = .ok answer ∧
    (answer = true ↔ lists.blocks hash pub.snaps name)

/-- The names of the two indexes `republish_merged` builds. -/
def Lists.allowed (lists : Lists) (snaps : List Source) : Finset Bytes :=
  listed (inlineNames lists.allowDomains) ((snaps.drop lists.blockUrls).map Source.set)

def Lists.blocked (lists : Lists) (snaps : List Source) : Finset Bytes :=
  listed (inlineNames lists.blockDomains) ((snaps.take lists.blockUrls).map Source.set) \
    lists.allowed snaps

/-- No index that is built takes 4 GiB of names. -/
def Fits (lists : Lists) (m : Manager) : Label → Prop
  | .fetched _ (some (_, names)) =>
    totalBytes (names.filter fun name => name ≠ []).toFinset < 2 ^ 32
  | .stores p =>
    match m.phase p with
    | .rebuilding snaps =>
      totalBytes (lists.allowed snaps) < 2 ^ 32 ∧ totalBytes (lists.blocked snaps) < 2 ^ 32
    | _ => True
  | _ => True

instance Fits.decidable (lists : Lists) (m : Manager) (a : Label) : Decidable (Fits lists m a) := by
  unfold Fits
  split
  · infer_instance
  · split <;> infer_instance
  · infer_instance

section Contents

variable {hash : Bytes → UInt64} {lists : Lists} {m m' : Manager} {a : Label} {p : Party}

theorem contains_iff {ix : DomainIndex} (h : WellFormed hash ix) {name : Bytes} :
    Contains hash ix name ↔ name ∈ ix.members := by
  rw [Contains, containsBytes_spec h, Except.ok.injEq, decide_eq_true_iff]

theorem names_iff {domains : List (List Char)} {sources : List Source} {name : Bytes}
    (h : ∀ source ∈ sources, WellFormed hash source.set) :
    Lists.names hash domains sources name ↔
      name ∈ listed (inlineNames domains) (sources.map Source.set) := by
  rw [mem_listed, Lists.names]
  refine or_congr Iff.rfl ?_
  constructor
  · rintro ⟨source, hSource, hName⟩
    exact ⟨source.set, List.mem_map_of_mem hSource, (contains_iff (h source hSource)).mp hName⟩
  · rintro ⟨ix, hIx, hName⟩
    obtain ⟨source, hSource, rfl⟩ := List.mem_map.mp hIx
    exact ⟨source, hSource, (contains_iff (h source hSource)).mpr hName⟩

/-- What `republish_merged` stores is exact for its snapshots. -/
theorem publish_exact {snaps : List Source} {index : DomainIndex}
    (hSnaps : ∀ source ∈ snaps, WellFormed hash source.set)
    (hAllowFits : totalBytes (lists.allowed snaps) < 2 ^ 32)
    (hBlockFits : totalBytes (lists.blocked snaps) < 2 ^ 32)
    (hIndex : publish hash lists snaps = .ok index) : Exact hash lists ⟨snaps, index⟩ := by
  have hBlock : ∀ source ∈ snaps.take lists.blockUrls, WellFormed hash source.set :=
    fun source hSource => hSnaps source (List.mem_of_mem_take hSource)
  have hAllow : ∀ source ∈ snaps.drop lists.blockUrls, WellFormed hash source.set :=
    fun source hSource => hSnaps source (List.mem_of_mem_drop hSource)
  have hSets : ∀ sources : List Source, (∀ source ∈ sources, WellFormed hash source.set) →
      ∀ ix ∈ sources.map Source.set, WellFormed hash ix := by
    intro sources hAll ix hIx
    obtain ⟨source, hSource, rfl⟩ := List.mem_map.mp hIx
    exact hAll source hSource
  obtain ⟨index', hIndex', hWell, hMembers⟩ := republishIndex_spec
    (inlineNames_ne_nil lists.blockDomains) (inlineNames_ne_nil lists.allowDomains)
    (hSets _ hBlock) (hSets _ hAllow) hAllowFits hBlockFits
  rw [publish, hIndex'] at hIndex
  cases hIndex
  intro name
  refine ⟨_, containsBytes_spec hWell name, ?_⟩
  rw [decide_eq_true_iff, hMembers, Finset.mem_sdiff, Lists.blocks, names_iff hBlock,
    names_iff hAllow]

/-- The sets in the sources, in the snapshots and in what was published. -/
structure Sets (hash : Bytes → UInt64) (lists : Lists) (m : Manager) : Prop where
  sources : ∀ source ∈ m.sources, WellFormed hash source.set
  taken : ∀ p snaps, m.phase p = .rebuilding snaps → ∀ source ∈ snaps, WellFormed hash source.set
  log : ∀ pub ∈ m.log, Exact hash lists pub
  current : m.merged = (m.log.head?.map Publication.index).getD DomainIndex.new

theorem sets_new (lists : Lists) : Sets hash lists (Manager.new lists) where
  sources source hSource := by
    rw [(List.mem_replicate.mp hSource).2]
    exact wellFormed_withCapacity 0
  taken p snaps h source hSource := by
    rw [new_rebuilding h] at hSource
    cases hSource
  log pub hPub := by cases hPub
  current := rfl

/-- A step that stores nothing. -/
theorem Sets.of_update {φ : Phase} (h : Sets hash lists m)
    (hPhase : m'.phase = Function.update m.phase p φ)
    (hSources : ∀ source ∈ m'.sources, WellFormed hash source.set)
    (hOwn : ∀ snaps, φ = .rebuilding snaps → ∀ source ∈ snaps, WellFormed hash source.set)
    (hLog : m'.log = m.log) (hMerged : m'.merged = m.merged) : Sets hash lists m' where
  sources := hSources
  taken q snaps hq := by
    rw [hPhase] at hq
    rcases update_rebuilding hq with hOwn' | hOld
    · exact hOwn snaps hOwn'
    · exact h.taken q snaps hOld
  log := hLog ▸ h.log
  current := by rw [hMerged, hLog, h.current]

theorem Sets.moves (h : Sets hash lists m) (hFits : Fits lists m a)
    (hMoves : Moves hash lists m a m') : Sets hash lists m' := by
  -- phases without snapshots
  have hFetch : ∀ (p : Party) (k : Nat) (snaps : List Source),
      lists.fetchPhase p k = .rebuilding snaps → ∀ source ∈ snaps, WellFormed hash source.set := by
    intro p k snaps hSnaps source hSource
    rw [fetchPhase_rebuilding hSnaps] at hSource
    cases hSource
  cases hMoves with
  | keeps | wakes => exact h.of_update rfl h.sources (hFetch _ _) rfl rfl
  | @lands p k bodyLen names source set hPhase hSource hSet =>
    refine h.of_update rfl ?_ (hFetch _ _) rfl rfl
    intro other hOther
    rcases List.mem_or_eq_of_mem_set hOther with hOld | rfl
    · exact h.sources other hOld
    · -- the fetched list is below 4 GiB, so its index is well formed
      obtain ⟨set', hSet', hWell, -⟩ := parseList_spec bodyLen hFits
      rw [hSet] at hSet'
      cases hSet'
      exact hWell
  | breaks | releases | stops =>
    refine h.of_update rfl h.sources ?_ rfl rfl
    intro snaps hSnaps
    cases hSnaps
  | locks =>
    refine h.of_update rfl h.sources ?_ rfl rfl
    intro snaps hSnaps source hSource
    cases hSnaps
    cases hSource
  | panics =>
    refine h.of_update rfl h.sources ?_ rfl rfl
    intro snaps hSnaps
    split at hSnaps <;> cases hSnaps
  | spawns =>
    refine ⟨h.sources, ?_, h.log, h.current⟩
    intro q snaps hq
    exact absurd hq (release_not_rebuilding q snaps)
  | @snaps p snaps source hPhase hSource =>
    refine h.of_update rfl h.sources ?_ rfl rfl
    intro snaps' hSnaps other hOther
    cases hSnaps
    rcases List.mem_append.mp hOther with hOld | hNew
    · exact h.taken p snaps hPhase other hOld
    · rw [List.mem_singleton.mp hNew]
      exact h.sources source (List.mem_of_getElem? hSource)
  | @stores p snaps index hPhase hAll hIndex =>
    rw [Fits, hPhase] at hFits
    refine ⟨h.sources, ?_, ?_, rfl⟩
    · intro q snaps' hq
      rcases update_rebuilding hq with hOwn | hOld
      · cases hOwn
      · exact h.taken q snaps' hOld
    · intro pub hPub
      rcases List.mem_cons.mp hPub with rfl | hOld
      · exact publish_exact (h.taken p snaps hPhase) hFits.1 hFits.2 hIndex
      · exact h.log pub hOld

end Contents

/-! ## Lists that have landed -/

/-- The names that a step lands for the source at `k`. -/
def landing (k : Nat) (m : Manager) : Label → Option (List Bytes)
  | .fetched p (some (_, names)) => if m.phase p = .fetching k then some names else none
  | _ => none

/-- The lists that have landed for the source at `k`, the oldest first. -/
def landings (k : Nat) (past : List (Manager × Label)) : List (List Bytes) :=
  past.filterMap fun moment => landing k moment.1 moment.2

/-- The set of this source is that of the list its version counts to; version 0 is empty. -/
structure LandedAs (hash : Bytes → UInt64) (fetched : List (List Bytes)) (source : Source) :
    Prop where
  version : source.version ≤ fetched.length
  names : ∀ name, Contains hash source.set name ↔
    name ≠ [] ∧ name ∈ (fetched.take source.version).getLast?.getD []

/-- What the sources, the snapshots and the publications hold has landed. -/
structure Landed (hash : Bytes → UInt64) (past : List (Manager × Label)) (m : Manager) : Prop where
  sources : ∀ k source, m.sources[k]? = some source →
    source.version = (landings k past).length ∧ LandedAs hash (landings k past) source
  taken : ∀ p snaps, m.phase p = .rebuilding snaps → ∀ k source, snaps[k]? = some source →
    LandedAs hash (landings k past) source
  log : ∀ pub ∈ m.log, ∀ k source, pub.snaps[k]? = some source →
    LandedAs hash (landings k past) source

section Landed

variable {hash : Bytes → UInt64} {lists : Lists} {m m' : Manager} {a : Label} {p : Party}
  {past : List (Manager × Label)} {k : Nat}

theorem landings_snoc (k : Nat) :
    landings k (past ++ [(m, a)]) = landings k past ++ (landing k m a).toList := by
  unfold landings
  rw [List.filterMap_append]
  cases h : landing k m a <;> simp [h]

/-- Later lists do not change what an earlier version is. -/
theorem LandedAs.append {fetched : List (List Bytes)} {source : Source}
    (h : LandedAs hash fetched source) (later : List (List Bytes)) :
    LandedAs hash (fetched ++ later) source where
  version := by
    have := h.version
    rw [List.length_append]
    omega
  names name := by
    rw [List.take_append_of_le_length h.version]
    exact h.names name

theorem LandedAs.snoc {source : Source} (h : LandedAs hash (landings k past) source) :
    LandedAs hash (landings k (past ++ [(m, a)])) source := by
  rw [landings_snoc]
  exact h.append _

theorem landed_new (lists : Lists) : Landed hash [] (Manager.new lists) where
  sources k source hSource := by
    rw [(List.mem_replicate.mp (List.mem_of_getElem? hSource)).2]
    refine ⟨rfl, Nat.le_refl 0, fun name => ?_⟩
    have hNew : Contains hash .new name ↔ name ∈ (∅ : Finset Bytes) := by
      rw [← members_withCapacity 0]
      exact contains_iff (wellFormed_withCapacity 0)
    simpa using hNew
  taken p snaps h k source hSource := by
    rw [new_rebuilding h] at hSource
    cases hSource
  log pub hPub := by cases hPub

/-- A source for which nothing lands. -/
theorem Landed.sources_quiet {source : Source} (h : Landed hash past m)
    (hQuiet : landing k m a = none) (hSource : m.sources[k]? = some source) :
    source.version = (landings k (past ++ [(m, a)])).length ∧
      LandedAs hash (landings k (past ++ [(m, a)])) source := by
  rw [landings_snoc, hQuiet, Option.toList_none, List.append_nil]
  exact h.sources k source hSource

/-- A step at which no list lands, and nothing is stored. -/
theorem Landed.of_update {φ : Phase} (h : Landed hash past m) (hQuiet : ∀ k, landing k m a = none)
    (hPhase : m'.phase = Function.update m.phase p φ) (hSources : m'.sources = m.sources)
    (hOwn : ∀ snaps, φ = .rebuilding snaps → ∀ k source, snaps[k]? = some source →
      LandedAs hash (landings k past) source)
    (hLog : m'.log = m.log) : Landed hash (past ++ [(m, a)]) m' where
  sources k source hSource := h.sources_quiet (hQuiet k) (hSources ▸ hSource)
  taken q snaps hq k source hSource := by
    rw [hPhase] at hq
    rcases update_rebuilding hq with hNow | hOld
    · exact (hOwn snaps hNow k source hSource).snoc
    · exact (h.taken q snaps hOld k source hSource).snoc
  log pub hPub k source hSource := (h.log pub (hLog ▸ hPub) k source hSource).snoc

/-- **A list lands.** It replaces the set of its source, and of no other. -/
theorem Landed.lands (h : Landed hash past m) {bodyLen : Nat} {names : List Bytes} {source : Source}
    {set : DomainIndex} (hPhase : m.phase p = .fetching k) (hSource : m.sources[k]? = some source)
    (hSet : parseList hash bodyLen names = .ok set)
    (hFits : totalBytes (names.filter fun name => name ≠ []).toFinset < 2 ^ 32) :
    Landed hash (past ++ [(m, .fetched p (some (bodyLen, names)))])
      (({ m with sources := m.sources.set k ⟨set, source.version + 1⟩ }).setPhase p
        (lists.fetchPhase p (k + 1))) where
  sources j other hOther := by
    rcases getElem?_set_cases hOther with ⟨rfl, rfl⟩ | ⟨hNe, hOther⟩
    · -- the newest list of its source is this one
      have hLanding : landing j m (.fetched p (some (bodyLen, names))) = some names := if_pos hPhase
      have hVersion := (h.sources j source hSource).1
      obtain ⟨set', hSet', hWell, hMembers⟩ := parseList_spec bodyLen hFits
      cases hSet.symm.trans hSet'
      rw [landings_snoc, hLanding]
      refine ⟨by simp [hVersion], by simp [hVersion], fun name => ?_⟩
      rw [contains_iff hWell, hMembers, hVersion, List.take_of_length_le (by simp)]
      simp [and_comm]
    · refine h.sources_quiet (if_neg fun hEq => hNe ?_) hOther
      cases hPhase.symm.trans hEq
      rfl
  taken q snaps hq j other hOther := by
    rcases update_rebuilding hq with hNow | hOld
    · rw [fetchPhase_rebuilding hNow] at hOther
      cases hOther
    · exact (h.taken q snaps hOld j other hOther).snoc
  log pub hPub j other hOther := (h.log pub hPub j other hOther).snoc

theorem Landed.moves (h : Landed hash past m) (hFits : Fits lists m a)
    (hMoves : Moves hash lists m a m') : Landed hash (past ++ [(m, a)]) m' := by
  -- phases without snapshots
  have hNone : ∀ (snaps : List Source), snaps = [] → ∀ (k : Nat) (source : Source),
      snaps[k]? = some source → LandedAs hash (landings k past) source := by
    rintro snaps rfl k source hSource
    cases hSource
  cases hMoves with
  | keeps | wakes =>
    exact h.of_update (fun _ => rfl) rfl rfl (fun snaps hSnaps => hNone snaps
      (fetchPhase_rebuilding hSnaps)) rfl
  | lands hPhase hSource hSet => exact h.lands hPhase hSource hSet hFits
  | @breaks p k bodyLen names fault hPhase hSet =>
    -- a list below 4 GiB does not break anything
    obtain ⟨set, hOk, -⟩ := parseList_spec bodyLen hFits
    cases hSet.symm.trans hOk
  | releases | stops =>
    refine h.of_update (fun _ => rfl) rfl rfl ?_ rfl
    intro snaps hSnaps
    cases hSnaps
  | locks =>
    refine h.of_update (fun _ => rfl) rfl rfl ?_ rfl
    intro snaps hSnaps
    cases hSnaps
    exact hNone _ rfl
  | panics hPhase hLabel =>
    refine h.of_update ?_ rfl rfl ?_ rfl
    · rcases hLabel with rfl | rfl <;> exact fun _ => rfl
    · intro snaps hSnaps
      split at hSnaps <;> cases hSnaps
  | spawns =>
    refine ⟨fun k source hSource => ?_, fun q snaps hq => ?_, fun pub hPub k source hSource => ?_⟩
    · exact h.sources_quiet rfl hSource
    · exact absurd hq (release_not_rebuilding q snaps)
    · exact (h.log pub hPub k source hSource).snoc
  | @snaps p snaps source hPhase hSource =>
    refine h.of_update (fun _ => rfl) rfl rfl ?_ rfl
    intro snaps' hSnaps k other hOther
    cases hSnaps
    rcases getElem?_append_one hOther with hOld | ⟨rfl, rfl⟩
    · exact h.taken p snaps hPhase k other hOld
    · exact (h.sources _ other hSource).2
  | @stores p snaps index hPhase hAll hIndex =>
    refine ⟨fun k source hSource => ?_, fun q snaps' hq => ?_, fun pub hPub k source hSource => ?_⟩
    · exact h.sources_quiet rfl hSource
    · intro k source hSource
      rcases update_rebuilding hq with hNow | hOld
      · cases hNow
      · exact (h.taken q snaps' hOld k source hSource).snoc
    · rcases List.mem_cons.mp hPub with rfl | hOld
      · exact (h.taken p snaps hPhase k source hSource).snoc
      · exact (h.log pub hOld k source hSource).snoc

end Landed

/-! ## Whole runs -/

/-- What the log says about all that was published, after a run with this past. -/
structure Published (hash : Bytes → UInt64) (lists : Lists) (past : List (Manager × Label))
    (m : Manager) : Prop where
  /-- a source holds the names of the list that landed last for it: a fetch that succeeds
  replaces its set, and one that fails changes nothing -/
  sources : ∀ k source, m.sources[k]? = some source →
    source.version = (landings k past).length ∧ LandedAs hash (landings k past) source
  /-- a snapshot holds the names of the list that its version counts to -/
  landed : ∀ pub ∈ m.log, ∀ k source, pub.snaps[k]? = some source →
    LandedAs hash (landings k past) source
  exact : ∀ pub ∈ m.log, Exact hash lists pub
  /-- readers see the newest publication -/
  current : m.merged = (m.log.head?.map Publication.index).getD DomainIndex.new
  /-- the snapshots are of the sources, and none is ahead of its source -/
  taken : ∀ pub ∈ m.log, List.Forall₂ Older pub.snaps m.sources
  monotone : m.log.Pairwise fun later earlier => List.Forall₂ Older earlier.snaps later.snaps
  /-- a name a whitelist source had before is blocked again only because the
  source was replaced in between -/
  whitelisted : m.log.Pairwise fun later earlier =>
    ∀ (i : Nat) (a b : Source) (name : Bytes), lists.blockUrls ≤ i → earlier.snaps[i]? = some a →
      later.snaps[i]? = some b → Contains hash a.set name → Contains hash later.index name →
      a.version < b.version

theorem Behind.forall₂ {xs ys : List Source} (h : Behind xs ys) (hLen : xs.length = ys.length) :
    List.Forall₂ Older xs ys := by
  refine List.forall₂_iff_get.mpr ⟨hLen, fun i hx hy => h i _ _ ?_ ?_⟩
  · exact List.getElem?_eq_getElem hx
  · exact List.getElem?_eq_getElem hy

/-- A name in a whitelist snapshot is not in the index. -/
theorem Exact.not_contains {hash : Bytes → UInt64} {lists : Lists} {pub : Publication}
    (h : Exact hash lists pub) {i : Nat} {source : Source} {name : Bytes}
    (hAllow : lists.blockUrls ≤ i) (hSource : pub.snaps[i]? = some source)
    (hName : Contains hash source.set name) : ¬ Contains hash pub.index name := by
  intro hBlocked
  obtain ⟨answer, hAnswer, hIff⟩ := h name
  rw [Contains, hAnswer] at hBlocked
  refine (hIff.mp (Except.ok.inj hBlocked)).2 (.inr ⟨source, ?_, hName⟩)
  refine List.mem_iff_getElem?.mpr ⟨i - lists.blockUrls, ?_⟩
  rw [List.getElem?_drop, Nat.add_sub_cancel' hAllow, hSource]

/-- **Publications are exact and never go back.** Through any interleaving of
fetches, failures and rebuilds, as long as no index takes 4 GiB of names: every
source holds the names of the last list that was fetched for it; every
index that was published contains exactly the names that its snapshots block; and
every publication uses each source as it was for the one before it or replaced
since. -/
theorem published_lists {hash : Bytes → UInt64} {lists : Lists} {labels : List Label} {m : Manager}
    (hFits : Guarded (step hash lists) (Fits lists) (Manager.new lists) labels)
    (hRun : run (step hash lists) (Manager.new lists) labels = some m) :
    Published hash lists (history (step hash lists) (Manager.new lists) labels) m := by
  obtain ⟨hOrdered, hSets⟩ : Ordered m ∧ Sets hash lists m := by
    refine (run_invariant_guarded (I := fun m => Exclusive m ∧ Ordered m ∧ Sets hash lists m) ?_
      ⟨exclusive_new lists, ordered_new lists, sets_new lists⟩ hFits hRun).2
    rintro m a m' ⟨hExclusive, hOrdered, hSets⟩ hFits hStep
    have hMoves := step_moves hStep
    exact ⟨hExclusive.moves hMoves, hOrdered.moves hExclusive hMoves, hSets.moves hFits hMoves⟩
  have hLanded : Landed hash (history (step hash lists) (Manager.new lists) labels) m :=
    history_invariant_guarded (I := Landed hash)
      (fun _ _ _ _ hLanded hFits hStep => hLanded.moves hFits (step_moves hStep))
      (landed_new lists) hFits hRun
  refine ⟨hLanded.sources, hLanded.log, hSets.log, hSets.current, ?_, ?_, ?_⟩
  · intro pub hPub
    obtain ⟨hLen, hBehind⟩ := hOrdered.stored pub hPub
    exact hBehind.forall₂ hLen
  · refine hOrdered.log.imp_of_mem ?_
    intro later earlier hLater hEarlier hBehind
    exact hBehind.forall₂
      ((hOrdered.stored earlier hEarlier).1.trans (hOrdered.stored later hLater).1.symm)
  · refine hOrdered.log.imp_of_mem ?_
    intro later earlier hLater _ hBehind i a b name hAllow ha hb hName hBlocked
    -- had the source not been replaced, its snapshot would still keep the name out
    rcases hBehind i a b ha hb with hNewer | rfl
    · exact hNewer
    · exact absurd hBlocked ((hSets.log later hLater).not_contains hAllow hb hName)

/-- One inline domain, and one source on either side. -/
def sampleLists : Lists where
  blockDomains := ["Ads.test".toList]
  allowDomains := []
  blockUrls := 1
  allowUrls := 1

def lengthHash (bytes : Bytes) : UInt64 := UInt64.ofNat bytes.length

/-- The whitelist cannot be fetched at first. Later both loops are under way at
once: the blocklist is replaced while the other loop takes its snapshots. -/
def busyRefresh : List Label :=
  let list (names : List String) : Option (Nat × List Bytes) :=
    some (20, names.map fun name => asBytes name.toList)
  [.fetched .start (list ["a.test.", "b.test."]), .fetched .start none, .snaps .start,
    .snaps .start, .stores .start, .releases .start, .wakes .block, .wakes .allow,
    .fetched .allow (list ["a.test."]), .locks .allow, .snaps .allow,
    .fetched .block (list ["a.test.", "c.test."]), .snaps .allow, .stores .allow, .releases .allow,
    .locks .block, .snaps .block, .snaps .block, .stores .block]

/-- The whitelist takes `a.test.` off the second publication, and the third has the names of the
new blocklist. -/
theorem published_lists_busyRefresh :
    ∃ m, run (step lengthHash sampleLists) (Manager.new sampleLists) busyRefresh = some m ∧
      m.log.map (fun pub => pub.snaps.map Source.version) = [[2, 1], [1, 1], [1, 0]] ∧
      m.log.map (fun pub => ["ads.test.", "a.test.", "b.test.", "c.test."].filter fun name =>
        (pub.index.containsBytes lengthHash (asBytes name.toList)).toOption = some true) =
          [["ads.test.", "c.test."], ["ads.test.", "b.test."],
            ["ads.test.", "a.test.", "b.test."]] ∧
      Published lengthHash sampleLists
        (history (step lengthHash sampleLists) (Manager.new sampleLists) busyRefresh) m := by
  have hView : (run (step lengthHash sampleLists) (Manager.new sampleLists) busyRefresh).map
      (fun m => (m.log.map fun pub => pub.snaps.map Source.version,
        m.log.map fun pub => ["ads.test.", "a.test.", "b.test.", "c.test."].filter fun name =>
          (pub.index.containsBytes lengthHash (asBytes name.toList)).toOption = some true)) =
        some ([[2, 1], [1, 1], [1, 0]], [["ads.test.", "c.test."], ["ads.test.", "b.test."],
          ["ads.test.", "a.test.", "b.test."]]) := by
    decide +kernel
  obtain ⟨m, hRun, hLog⟩ := Option.map_eq_some_iff.mp hView
  rw [Prod.mk.injEq] at hLog
  exact ⟨m, hRun, hLog.1, hLog.2, published_lists (by decide +kernel) hRun⟩

end DnsRs.Blocklist
