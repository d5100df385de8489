import DnsRs.Blocklist.Merge
import DnsRs.Lib.Lists
import DnsRs.Lib.Run

/-!
# Rebuilding the merged list

`BlocklistManager::start` fetches every source, publishes the merged index and
then leaves two loops behind, one for the blocklists and one for the whitelists.
Each loop sleeps, fetches its sources one after the other and republishes: it
takes the `rebuild` lock, and a blocking worker copies the source sets one by one,
merges them and stores the result. Fetches of the other loop land in between.

The sources stand in one list, those of the blocklist first; this is also the
order in which `start` fetches them and `republish_merged` copies them. A source
counts how often it was replaced, which the code does not, and the model keeps a
log of what was stored.

* `Moves` — what one step can do.
* `Exclusive` — one party rebuilds at a time.
* `Ordered` — a later rebuild takes no older set of a source than an earlier one did.
-/

namespace DnsRs.Blocklist

open Lib Wire DomainIndex

/-! ## The manager -/

structure Source where
  set : DomainIndex
  version : Nat
  deriving DecidableEq, Repr

/-- The two directions of the configuration. -/
structure Lists where
  blockDomains : List (List Char)
  allowDomains : List (List Char)
  /-- the number of `urls` -/
  blockUrls : Nat
  allowUrls : Nat

/-- `start` and the two refresh loops. -/
inductive Party where
  | start
  | block
  | allow
  deriving DecidableEq, Repr

inductive Phase where
  /-- not spawned -/
  | absent
  | sleeping
  /-- at `fetch_one` of the source at `k` -/
  | fetching (k : Nat)
  /-- at `self.rebuild.lock()` -/
  | locking
  /-- `republish_merged` has taken these snapshots -/
  | rebuilding (snaps : List Source)
  /-- `republish_merged` is over, the guard not dropped yet -/
  | holding
  | stopped
  deriving DecidableEq, Repr

structure Publication where
  snaps : List Source
  index : DomainIndex
  deriving DecidableEq, Repr

structure Manager where
  sources : List Source
  merged : DomainIndex
  /-- who holds the lock -/
  rebuild : Option Party
  phase : Party → Phase
  /-- what was stored in `merged`, the newest first -/
  log : List Publication

inductive Label where
  /-- `fetch_one` returns; a body is given by its length and the names in it -/
  | fetched (p : Party) (body : Option (Nat × List Bytes))
  | locks (p : Party)
  | snaps (p : Party)
  | stores (p : Party)
  /-- the blocking task does not run to its end -/
  | fails (p : Party)
  | releases (p : Party)
  | wakes (p : Party)
  /-- `shutdown` is cancelled -/
  | stops (p : Party)
  deriving DecidableEq, Repr

/-- Where a party is once its fetches are over: `start` republishes without the
lock. -/
def Party.fetchedAll : Party → Phase
  | .start => .rebuilding []
  | .block | .allow => .locking

namespace Lists

variable (lists : Lists)

def sources : Nat := lists.blockUrls + lists.allowUrls

/-- The sources a party fetches, from this one on. -/
def first : Party → Nat
  | .start | .block => 0
  | .allow => lists.blockUrls

/-- Up to this one. -/
def stop : Party → Nat
  | .start | .allow => lists.sources
  | .block => lists.blockUrls

/-- Before the fetch of the source at `k`, if that is one of the party's. -/
def fetchPhase (p : Party) (k : Nat) : Phase :=
  if k < lists.stop p then .fetching k else p.fetchedAll

/-- `spawn_refresh_loop` -/
def loopPhase (p : Party) : Phase :=
  if lists.first p < lists.stop p then .sleeping else .absent

end Lists

def Manager.setPhase (m : Manager) (p : Party) (φ : Phase) : Manager :=
  { m with phase := Function.update m.phase p φ }

/-- `BlocklistManager::new`, and `start` is called. -/
def Manager.new (lists : Lists) : Manager where
  sources := List.replicate lists.sources ⟨DomainIndex.new, 0⟩
  merged := DomainIndex.new
  rebuild := none
  phase := fun p => if p = .start then lists.fetchPhase .start 0 else .absent
  log := []

section Step

variable (hash : Bytes → UInt64) (lists : Lists)

/-- `republish_merged`, after its snapshots. -/
def publish (snaps : List Source) : Except Fault DomainIndex :=
  republishIndex hash (inlineNames lists.blockDomains) (inlineNames lists.allowDomains)
    ((snaps.take lists.blockUrls).map Source.set) ((snaps.drop lists.blockUrls).map Source.set)

/-- The end of `fetch_and_store` for the source at `k`. -/
def fetchAndStore (m : Manager) (p : Party) (k : Nat) : Option (Nat × List Bytes) → Option Manager
  -- "keeping previous contents"
  | none => some (m.setPhase p (lists.fetchPhase p (k + 1)))
  | some (bodyLen, names) =>
    match m.sources[k]?, parseList hash bodyLen names with
    -- `*src.set.lock().unwrap() = Arc::new(set)`
    | some source, .ok set =>
      some (({ m with sources := m.sources.set k ⟨set, source.version + 1⟩ }).setPhase p
        (lists.fetchPhase p (k + 1)))
    -- a list that does not fit: the task is gone, the set stays
    | _, .error _ => some (m.setPhase p .stopped)
    | none, _ => none

/-- `start` spawns the loops, a loop goes back to sleep. -/
def release (m : Manager) : Party → Manager
  | .start =>
    ((m.setPhase .block (lists.loopPhase .block)).setPhase .allow (lists.loopPhase .allow)).setPhase
      .start .stopped
  | p => ({ m with rebuild := none }).setPhase p .sleeping

def step (m : Manager) : Label → Option Manager
  | .fetched p body =>
    match m.phase p with
    | .fetching k => fetchAndStore hash lists m p k body
    | _ => none
  -- the guard is held from here to `releases`
  | .locks p =>
    if m.phase p = .locking ∧ m.rebuild = none then
      some (({ m with rebuild := some p }).setPhase p (.rebuilding []))
    else none
  -- one `src.set.lock()` at a time; fetches land between two of them
  | .snaps p =>
    match m.phase p with
    | .rebuilding snaps =>
      (m.sources[snaps.length]?).map fun source => m.setPhase p (.rebuilding (snaps ++ [source]))
    | _ => none
  | .stores p =>
    match m.phase p with
    | .rebuilding snaps =>
      if snaps.length = m.sources.length then
        match publish hash lists snaps with
        | .ok index =>
          some (({ m with merged := index, log := ⟨snaps, index⟩ :: m.log }).setPhase p .holding)
        -- a panic of the worker is a warning, one of `start` is the end
        | .error _ => some (m.setPhase p (if p = .start then .stopped else .holding))
      else none
    | _ => none
  -- `start` calls `republish_merged` itself, so there is no task that could fail
  | .fails p =>
    match m.phase p with
    | .rebuilding _ => if p = .start then none else some (m.setPhase p .holding)
    | _ => none
  | .releases p => if m.phase p = .holding then some (release lists m p) else none
  | .wakes p =>
    if m.phase p = .sleeping then some (m.setPhase p (lists.fetchPhase p (lists.first p))) else none
  | .stops p => if m.phase p = .sleeping then some (m.setPhase p .stopped) else none

end Step

/-! ## What a step can do -/

inductive Moves (hash : Bytes → UInt64) (lists : Lists) (m : Manager) : Label → Manager → Prop
  /-- the fetch has failed -/
  | keeps {p : Party} {k : Nat} (hPhase : m.phase p = .fetching k) :
      Moves hash lists m (.fetched p none) (m.setPhase p (lists.fetchPhase p (k + 1)))
  | lands {p : Party} {k bodyLen : Nat} {names : List Bytes} {source : Source} {set : DomainIndex}
      (hPhase : m.phase p = .fetching k) (hSource : m.sources[k]? = some source)
      (hSet : parseList hash bodyLen names = .ok set) :
      Moves hash lists m (.fetched p (some (bodyLen, names)))
        (({ m with sources := m.sources.set k ⟨set, source.version + 1⟩ }).setPhase p
          (lists.fetchPhase p (k + 1)))
  | breaks {p : Party} {k bodyLen : Nat} {names : List Bytes} {fault : Fault}
      (hPhase : m.phase p = .fetching k) (hSet : parseList hash bodyLen names = .error fault) :
      Moves hash lists m (.fetched p (some (bodyLen, names))) (m.setPhase p .stopped)
  | locks {p : Party} (hPhase : m.phase p = .locking) (hFree : m.rebuild = none) :
      Moves hash lists m (.locks p)
        (({ m with rebuild := some p }).setPhase p (.rebuilding []))
  | snaps {p : Party} {snaps : List Source} {source : Source} (hPhase : m.phase p = .rebuilding snaps)
      (hSource : m.sources[snaps.length]? = some source) :
      Moves hash lists m (.snaps p) (m.setPhase p (.rebuilding (snaps ++ [source])))
  | stores {p : Party} {snaps : List Source} {index : DomainIndex}
      (hPhase : m.phase p = .rebuilding snaps) (hAll : snaps.length = m.sources.length)
      (hIndex : publish hash lists snaps = .ok index) :
      Moves hash lists m (.stores p)
        (({ m with merged := index, log := ⟨snaps, index⟩ :: m.log }).setPhase p .holding)
  /-- nothing is stored -/
  | panics {p : Party} {snaps : List Source} {a : Label} (hPhase : m.phase p = .rebuilding snaps)
      (hLabel : a = .stores p ∨ a = .fails p) :
      Moves hash lists m a (m.setPhase p (if p = .start then .stopped else .holding))
  | spawns (hPhase : m.phase .start = .holding) :
      Moves hash lists m (.releases .start) (release lists m .start)
  | releases {p : Party} (hPhase : m.phase p = .holding) (hLoop : p ≠ .start) :
      Moves hash lists m (.releases p) (({ m with rebuild := none }).setPhase p .sleeping)
  | wakes {p : Party} (hPhase : m.phase p = .sleeping) :
      Moves hash lists m (.wakes p) (m.setPhase p (lists.fetchPhase p (lists.first p)))
  | stops {p : Party} (hPhase : m.phase p = .sleeping) :
      Moves hash lists m (.stops p) (m.setPhase p .stopped)

section Invariants

variable {hash : Bytes → UInt64} {lists : Lists} {m m' : Manager} {a : Label} {p q : Party}

theorem fetchAndStore_moves {k : Nat} {body : Option (Nat × List Bytes)}
    (hPhase : m.phase p = .fetching k) (h : fetchAndStore hash lists m p k body = some m') :
    Moves hash lists m (.fetched p body) m' := by
  cases body with
  | none =>
    cases h
    exact .keeps hPhase
  | some body =>
    obtain ⟨bodyLen, names⟩ := body
    unfold fetchAndStore at h
    dsimp only at h
    split at h
    next source set hSource hSet =>
      cases h
      exact .lands hPhase hSource hSet
    next fault hSet =>
      cases h
      exact .breaks hPhase hSet
    next => cases h

/-- Every step is one of these. -/
theorem step_moves (h : step hash lists m a = some m') : Moves hash lists m a m' := by
  cases a with
  | fetched p body =>
    rw [step] at h
    split at h
    next k hPhase => exact fetchAndStore_moves hPhase h
    next => cases h
  | locks p =>
    rw [step] at h
    split at h
    next hLock =>
      cases h
      exact .locks hLock.1 hLock.2
    next => cases h
  | snaps p =>
    rw [step] at h
    split at h
    next snaps hPhase =>
      obtain ⟨source, hSource, rfl⟩ := Option.map_eq_some_iff.mp h
      exact .snaps hPhase hSource
    next => cases h
  | stores p =>
    rw [step] at h
    split at h
    next snaps hPhase =>
      split at h
      next hAll =>
        split at h
        next index hIndex =>
          cases h
          exact .stores hPhase hAll hIndex
        next =>
          cases h
          exact .panics hPhase (.inl rfl)
      next => cases h
    next => cases h
  | fails p =>
    rw [step] at h
    split at h
    next snaps hPhase =>
      split at h
      next => cases h
      next hLoop =>
        cases h
        have hPanics : Moves hash lists m (.fails p) _ := .panics hPhase (.inr rfl)
        rwa [if_neg hLoop] at hPanics
    next => cases h
  | releases p =>
    rw [step] at h
    split at h
    next hPhase =>
      cases h
      cases p with
      | start => exact .spawns hPhase
      | block | allow => exact .releases hPhase (by decide)
    next => cases h
  | wakes p =>
    rw [step] at h
    split at h
    next hPhase =>
      cases h
      exact .wakes hPhase
    next => cases h
  | stops p =>
    rw [step] at h
    split at h
    next hPhase =>
      cases h
      exact .stops hPhase
    next => cases h

theorem update_rebuilding {φ : Phase} {snaps : List Source}
    (h : Function.update m.phase p φ q = .rebuilding snaps) :
    φ = .rebuilding snaps ∨ m.phase q = .rebuilding snaps := by
  by_cases hq : q = p
  · subst hq
    rw [Function.update_self] at h
    exact .inl h
  · rw [Function.update_of_ne hq] at h
    exact .inr h

theorem fetchPhase_rebuilding {k : Nat} {snaps : List Source}
    (h : lists.fetchPhase p k = .rebuilding snaps) : snaps = [] := by
  unfold Lists.fetchPhase at h
  split at h
  · cases h
  · cases p <;> cases h
    rfl

/-! ## One rebuild at a time -/

/-- In `republish_merged`, or about to drop the guard. -/
def Phase.busy : Phase → Bool
  | .rebuilding _ | .holding => true
  | _ => false

/-- Running. -/
def Phase.awake : Phase → Bool
  | .absent | .stopped => false
  | _ => true

/-- The loops rebuild under the lock, and `start` before there are loops. -/
structure Exclusive (m : Manager) : Prop where
  holder : ∀ p, p ≠ .start → (m.phase p).busy = true → m.rebuild = some p
  young : m.phase .start ≠ .stopped → ∀ p, p ≠ .start → m.phase p = .absent

theorem Exclusive.unique (h : Exclusive m) (hp : (m.phase p).busy = true)
    (hq : (m.phase q).busy = true) : p = q := by
  have hStart : ∀ r, (m.phase .start).busy = true → (m.phase r).busy = true → r = .start := by
    intro r hBusy hr
    -- as long as `start` is busy there are no loops
    by_contra hLoop
    have hYoung : m.phase .start ≠ .stopped := by
      intro hStopped
      rw [hStopped] at hBusy
      cases hBusy
    rw [h.young hYoung r hLoop] at hr
    cases hr
  by_cases hp' : p = .start
  · subst hp'
    exact (hStart q hp hq).symm
  · by_cases hq' : q = .start
    · subst hq'
      exact hStart p hq hp
    · -- of two loops only one can hold the lock
      have hHolder := h.holder p hp' hp
      rw [h.holder q hq' hq] at hHolder
      exact (Option.some.inj hHolder).symm

/-- A party that runs moves to another phase. -/
theorem Exclusive.of_update {φ : Phase} (h : Exclusive m) (hAwake : (m.phase p).awake = true)
    (hPhase : m'.phase = Function.update m.phase p φ)
    (hOwn : p ≠ .start → φ.busy = true → m'.rebuild = some p)
    (hOthers : ∀ q, q ≠ p → q ≠ .start → (m.phase q).busy = true → m'.rebuild = some q) :
    Exclusive m' where
  holder q hq hBusy := by
    rw [hPhase] at hBusy
    by_cases hEq : q = p
    · subst hEq
      rw [Function.update_self] at hBusy
      exact hOwn hq hBusy
    · rw [Function.update_of_ne hEq] at hBusy
      exact hOthers q hEq hq hBusy
  young hStart q hq := by
    rw [hPhase] at hStart ⊢
    by_cases hp : p = .start
    · subst hp
      rw [Function.update_of_ne hq]
      refine h.young ?_ q hq
      intro hStopped
      rw [hStopped] at hAwake
      cases hAwake
    · rw [Function.update_of_ne (Ne.symm hp)] at hStart
      rw [h.young hStart p hp] at hAwake
      cases hAwake

theorem fetchPhase_not_busy (hLoop : p ≠ .start) (k : Nat) : (lists.fetchPhase p k).busy = false := by
  unfold Lists.fetchPhase
  split
  · rfl
  · cases p with
    | start => exact absurd rfl hLoop
    | block | allow => rfl

theorem loopPhase_not_busy (p : Party) : (lists.loopPhase p).busy = false := by
  unfold Lists.loopPhase
  split <;> rfl

/-- Nobody rebuilds when the loops are spawned. -/
theorem release_not_rebuilding (q : Party) (snaps : List Source) :
    (release lists m .start).phase q ≠ .rebuilding snaps := by
  intro hq
  have hBusy : (lists.loopPhase q).busy = false := loopPhase_not_busy q
  cases q with
  | start => cases hq
  | block | allow =>
    have hLoop : lists.loopPhase _ = .rebuilding snaps := hq
    rw [hLoop] at hBusy
    cases hBusy

theorem exclusive_new (lists : Lists) : Exclusive (Manager.new lists) where
  holder p hp hBusy := by
    have hAbsent : (Manager.new lists).phase p = .absent := if_neg hp
    rw [hAbsent] at hBusy
    cases hBusy
  young _ p hp := if_neg hp

theorem Exclusive.moves (h : Exclusive m) (hMoves : Moves hash lists m a m') : Exclusive m' := by
  have hSame : ∀ q, q ≠ .start → (m.phase q).busy = true → m.rebuild = some q := h.holder
  cases hMoves with
  | keeps hPhase | lands hPhase =>
    refine h.of_update (by rw [hPhase]; rfl) rfl ?_ fun q _ => hSame q
    intro hLoop hBusy
    rw [fetchPhase_not_busy hLoop] at hBusy
    cases hBusy
  | breaks hPhase | stops hPhase =>
    refine h.of_update (by rw [hPhase]; rfl) rfl ?_ fun q _ => hSame q
    intro _ hBusy
    cases hBusy
  -- the lock was free, so no loop was rebuilding
  | locks hPhase hFree =>
    refine h.of_update (by rw [hPhase]; rfl) rfl (fun _ _ => rfl) ?_
    intro q _ hq hBusy
    rw [h.holder q hq hBusy] at hFree
    cases hFree
  | snaps hPhase | stores hPhase | panics hPhase =>
    exact h.of_update (by rw [hPhase]; rfl) rfl
      (fun hLoop _ => h.holder _ hLoop (by rw [hPhase]; rfl)) fun q _ => hSame q
  | spawns hPhase =>
    refine ⟨?_, fun hStart => absurd rfl hStart⟩
    intro q hq hBusy
    have hLoop : (release lists m .start).phase q = lists.loopPhase q := by
      cases q with
      | start => exact absurd rfl hq
      | block | allow => rfl
    rw [hLoop, loopPhase_not_busy] at hBusy
    cases hBusy
  -- the lock is given up by the only one who rebuilds
  | @releases p hPhase hLoop =>
    refine h.of_update (by rw [hPhase]; rfl) rfl ?_ ?_
    · intro _ hBusy
      cases hBusy
    · intro q hq _ hBusy
      exact absurd (h.unique hBusy (by rw [hPhase]; rfl)) hq
  | @wakes p hPhase =>
    refine h.of_update (by rw [hPhase]; rfl) rfl ?_ fun q _ => hSame q
    intro hLoop hBusy
    rw [fetchPhase_not_busy hLoop] at hBusy
    cases hBusy

/-! ## Versions -/

/-- The same set of a source, or an earlier one. -/
def Older (a b : Source) : Prop := a.version < b.version ∨ a = b

/-- As far as both lists go, each source of the first is older than its
counterpart. -/
def Behind (xs ys : List Source) : Prop :=
  ∀ (i : Nat) (a b : Source), xs[i]? = some a → ys[i]? = some b → Older a b

theorem behind_nil (xs : List Source) : Behind xs [] := by
  intro i a b _ hb
  rw [List.getElem?_nil] at hb
  cases hb

theorem nil_behind (ys : List Source) : Behind [] ys := by
  intro i a b ha
  rw [List.getElem?_nil] at ha
  cases ha

theorem Behind.replace {xs ys : List Source} {k : Nat} {source : Source} (h : Behind xs ys)
    (hSource : ys[k]? = some source) (set : DomainIndex) :
    Behind xs (ys.set k ⟨set, source.version + 1⟩) := by
  intro i a b ha hb
  rw [List.getElem?_set] at hb
  split at hb
  · rename_i hk
    subst hk
    rw [if_pos (List.getElem?_eq_some_iff.mp hSource).1] at hb
    cases hb
    refine .inl ?_
    dsimp only
    -- what was no newer than the old set is older than the new one
    rcases h k a source ha hSource with hLess | rfl
    · omega
    · omega
  · exact h i a b ha hb

/-- Another snapshot is taken of the sources. -/
theorem Behind.snoc {xs ys sources : List Source} {source : Source} (h : Behind xs ys)
    (hSources : Behind xs sources) (hSource : sources[ys.length]? = some source) :
    Behind xs (ys ++ [source]) := by
  intro i a b ha hb
  rcases getElem?_append_one hb with hOld | ⟨rfl, rfl⟩
  · exact h i a b ha hOld
  · exact hSources _ a _ ha hSource

theorem Behind.snoc_self {xs sources : List Source} {source : Source} (h : Behind xs sources)
    (hSource : sources[xs.length]? = some source) : Behind (xs ++ [source]) sources := by
  intro i a b ha hb
  rcases getElem?_append_one ha with hOld | ⟨rfl, rfl⟩
  · exact h i a b hOld hb
  · rw [hSource] at hb
    cases hb
    exact .inr rfl

/-- Publications, the snapshots of a rebuild and the sources, in this order. -/
structure Ordered (m : Manager) : Prop where
  taken : ∀ p snaps, m.phase p = .rebuilding snaps →
    Behind snaps m.sources ∧ ∀ pub ∈ m.log, Behind pub.snaps snaps
  stored : ∀ pub ∈ m.log, pub.snaps.length = m.sources.length ∧ Behind pub.snaps m.sources
  log : m.log.Pairwise fun later earlier => Behind earlier.snaps later.snaps

/-- At the start no rebuild has taken a snapshot. -/
theorem new_rebuilding {lists : Lists} {p : Party} {snaps : List Source}
    (h : (Manager.new lists).phase p = .rebuilding snaps) : snaps = [] := by
  unfold Manager.new at h
  dsimp only at h
  split at h
  · exact fetchPhase_rebuilding h
  · cases h

theorem ordered_new (lists : Lists) : Ordered (Manager.new lists) where
  taken p snaps h := by
    obtain rfl := new_rebuilding h
    refine ⟨nil_behind _, fun pub hPub => ?_⟩
    cases hPub
  stored pub hPub := by cases hPub
  log := .nil

/-- A step that takes no snapshot and stores nothing. -/
theorem Ordered.of_update {φ : Phase} (h : Ordered m) (hLog : m'.log = m.log)
    (hPhase : m'.phase = Function.update m.phase p φ)
    (hIdle : ∀ snaps, φ = .rebuilding snaps → snaps = [])
    (hLen : m'.sources.length = m.sources.length)
    (hSources : ∀ xs, Behind xs m.sources → Behind xs m'.sources) : Ordered m' where
  taken q snaps hq := by
    rw [hPhase] at hq
    rw [hLog]
    rcases update_rebuilding hq with hOwn | hOld
    · rw [hIdle snaps hOwn]
      exact ⟨nil_behind _, fun pub _ => behind_nil pub.snaps⟩
    · obtain ⟨hSnaps, hPubs⟩ := h.taken q snaps hOld
      exact ⟨hSources snaps hSnaps, hPubs⟩
  stored pub hPub := by
    rw [hLog] at hPub
    obtain ⟨hAll, hBehind⟩ := h.stored pub hPub
    exact ⟨hAll.trans hLen.symm, hSources _ hBehind⟩
  log := hLog ▸ h.log

theorem Ordered.moves (h : Ordered m) (hExclusive : Exclusive m)
    (hMoves : Moves hash lists m a m') : Ordered m' := by
  cases hMoves with
  | keeps | wakes =>
    exact h.of_update rfl rfl (fun snaps => fetchPhase_rebuilding) rfl fun _ hxs => hxs
  -- all snapshots and publications stay behind the sources
  | lands hPhase hSource =>
    exact h.of_update rfl rfl (fun snaps => fetchPhase_rebuilding) (List.length_set ..)
      fun xs hxs => hxs.replace hSource _
  | breaks | releases | stops =>
    refine h.of_update rfl rfl ?_ rfl fun _ hxs => hxs
    intro snaps hIdle
    cases hIdle
  | locks =>
    refine h.of_update rfl rfl ?_ rfl fun _ hxs => hxs
    intro snaps hIdle
    cases hIdle
    rfl
  | panics =>
    refine h.of_update rfl rfl ?_ rfl fun _ hxs => hxs
    intro snaps hIdle
    split at hIdle <;> cases hIdle
  | spawns =>
    exact ⟨fun q snaps hq => absurd hq (release_not_rebuilding q snaps), h.stored, h.log⟩
  | @snaps p snaps source hPhase hSource =>
    refine ⟨?_, h.stored, h.log⟩
    intro q snaps' hq
    rcases update_rebuilding hq with hOwn | hOld
    · cases hOwn
      obtain ⟨hSnaps, hPubs⟩ := h.taken p snaps hPhase
      -- no publication has seen a newer set of this source than it has now
      exact ⟨hSnaps.snoc_self hSource, fun pub hPub =>
        (hPubs pub hPub).snoc (h.stored pub hPub).2 hSource⟩
    · exact h.taken q snaps' hOld
  | @stores p snaps index hPhase hAll =>
    -- the snapshots of this rebuild become the newest publication
    obtain ⟨hSnaps, hPubs⟩ := h.taken p snaps hPhase
    refine ⟨?_, ?_, List.pairwise_cons.mpr ⟨hPubs, h.log⟩⟩
    · -- nobody else is rebuilding
      intro q snaps' hq
      rcases update_rebuilding hq with hOwn | hOld
      · cases hOwn
      · have hEq : q = p := hExclusive.unique (by rw [hOld]; rfl) (by rw [hPhase]; rfl)
        subst hEq
        have hHolding : Function.update m.phase q Phase.holding q = .rebuilding snaps' := hq
        rw [Function.update_self] at hHolding
        cases hHolding
    · intro pub hPub
      rcases List.mem_cons.mp hPub with rfl | hOld
      · exact ⟨hAll, hSnaps⟩
      · exact h.stored pub hOld

end Invariants

end DnsRs.Blocklist
