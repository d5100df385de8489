import DnsRs.InFlight.Coalescing

/-!
# Entries nobody is responsible for

An entry is removed only by a caller that returns from `dedup_with_flags`. As
long as nobody is cancelled, every entry therefore has a caller inside. A
caller dropped in the middle leaves its entry to the others; if it was the
last one inside for its key, the entry stays until some later query for the
same key happens to finish (`cancelled_fetch_leaks`).

`leakFree_iff_cancels_covered` says that this is the only way: the states of a
run are free of leaks exactly when no cancellation in it takes away the last
caller of a key that has an entry.
-/

namespace DnsRs.InFlight

open Lib Wire

variable {RecordType DNSClass : Type}

/-- Every entry has a caller inside `dedup_with_flags` for its key. -/
def LeakFree {K : Type} (s : State K) : Prop :=
  ∀ key, (∀ i, (s.callers i).key? ≠ some key) → s.registry.entries key = none

/-- A cancelled caller leaves another one for its key behind, or no entry. -/
def CancelCovered (s : State (FlightKey RecordType DNSClass)) : Label RecordType DNSClass → Prop
  | .cancel i => ∀ key, (s.callers i).key? = some key →
      (∃ j, j ≠ i ∧ (s.callers j).key? = some key) ∨ s.registry.entries key = none
  | _ => True

theorem leakFree_init {K : Type} : LeakFree (State.init : State K) := fun _ _ => rfl

variable {s : State (FlightKey RecordType DNSClass)}

/-- A move that stays inside for the same key, or outside. -/
theorem LeakFree.goto_same (h : LeakFree s) {i : Nat}
    {phase : Phase (FlightKey RecordType DNSClass)} (hKey : phase.key? = (s.callers i).key?)
    {registry : InFlightRegistry (FlightKey RecordType DNSClass) Bytes}
    (hSame : registry.entries = s.registry.entries) :
    LeakFree ({ s with registry := registry }.goto i phase) := by
  intro key hOut
  rw [goto_registry, hSame]
  refine h key fun j => ?_
  have hj := hOut j
  rw [goto_callers] at hj
  split at hj
  · rename_i hEq
    rwa [hEq, ← hKey]
  · exact hj

/-- Entering keeps every entry attended: a new one has the new caller. -/
theorem LeakFree.enter (h : LeakFree s) {i : Nat} (hi : s.callers i = .idle)
    {key : FlightKey RecordType DNSClass} {cell : Nat}
    {registry : InFlightRegistry (FlightKey RecordType DNSClass) Bytes}
    (hSame : ∀ k, k ≠ key → registry.entries k = s.registry.entries k) :
    LeakFree ({ s with registry := registry }.goto i (.waiting key cell)) := by
  intro k hOut
  have hNe : k ≠ key := by
    rintro rfl
    exact hOut i (by rw [goto_callers, if_pos rfl]; rfl)
  rw [goto_registry, hSame k hNe]
  refine h k fun j => ?_
  have hj := hOut j
  rw [goto_callers] at hj
  split at hj
  · rename_i hEq
    rw [hEq, hi]
    simp [Phase.key?]
  · exact hj

/-- A caller leaves: its key must have another caller, or no entry left. -/
theorem leakFree_goto_idle_iff {registry : InFlightRegistry (FlightKey RecordType DNSClass) Bytes}
    {i : Nat} {key : FlightKey RecordType DNSClass} (hi : (s.callers i).key? = some key)
    (h : LeakFree s) (hSame : ∀ k, k ≠ key → registry.entries k = s.registry.entries k) :
    LeakFree ({ s with registry := registry }.goto i .idle) ↔
      (∃ j, j ≠ i ∧ (s.callers j).key? = some key) ∨ registry.entries key = none := by
  constructor
  · intro hAfter
    by_cases hOther : ∃ j, j ≠ i ∧ (s.callers j).key? = some key
    · exact .inl hOther
    · refine .inr (hAfter key fun j => ?_)
      rw [goto_callers]
      split
      · simp [Phase.key?]
      · rename_i hNe
        exact fun hj => hOther ⟨j, hNe, hj⟩
  · intro hKey k hOut
    -- the others are where they were
    have hOut' : ∀ j, j ≠ i → (s.callers j).key? ≠ some k := by
      intro j hj
      have := hOut j
      rwa [goto_callers, if_neg hj] at this
    by_cases hk : k = key
    · subst hk
      rcases hKey with ⟨j, hj, hjKey⟩ | hNone
      · exact absurd hjKey (hOut' j hj)
      · exact hNone
    · rw [goto_registry, hSame k hk]
      refine h k fun j => ?_
      by_cases hj : j = i
      · rw [hj, hi]
        exact fun hEq => hk (Option.some.inj hEq).symm
      · exact hOut' j hj

/-- A caller with a key is cancelled: the map stays as it is. -/
theorem leakFree_cancel_iff {registry : InFlightRegistry (FlightKey RecordType DNSClass) Bytes}
    {i : Nat} {key : FlightKey RecordType DNSClass} (hi : (s.callers i).key? = some key)
    (h : LeakFree s) (hSame : registry.entries = s.registry.entries) :
    LeakFree ({ s with registry := registry }.goto i .idle) ↔ CancelCovered s (.cancel i) := by
  rw [leakFree_goto_idle_iff hi h fun k _ => congrFun hSame k, hSame]
  constructor
  · intro hCovered k hk
    rw [hi] at hk
    cases hk
    exact hCovered
  · exact fun hCovered => hCovered key hi

variable [DecidableEq RecordType] [DecidableEq DNSClass]

/-- **Step.** From a state free of leaks, a step leads to one exactly when it
is no cancellation of the last caller of a key with an entry. -/
theorem leakFree_step_iff {t : State (FlightKey RecordType DNSClass)}
    {a : Label RecordType DNSClass} (h : LeakFree s) (hStep : step s a = some t) :
    LeakFree t ↔ CancelCovered s a := by
  cases step_moves hStep with
  | enterDirect hi | initialise hi | directDone hi | fetchDone hi | wake hi =>
    exact iff_of_true (h.goto_same (by rw [hi]; rfl) rfl) trivial
  | enterShared name hi hCell => exact iff_of_true (h.enter hi fun _ _ => rfl) trivial
  | enterFresh name hi hCell =>
    refine iff_of_true (h.enter hi fun k hk => ?_) trivial
    rw [register_entries, if_neg hk]
  | @finish i key cell wire hi =>
    refine iff_of_true ((leakFree_goto_idle_iff (by rw [hi]; rfl) h ?_).mpr (.inr ?_)) trivial
    · exact fun k hk => by rw [remove_entries, if_neg hk]
    · rw [remove_entries, if_pos rfl]
  | cancelDirect hi =>
    refine iff_of_true (h.goto_same (by rw [hi]; rfl) rfl) ?_
    intro key hKey
    rw [hi] at hKey
    cases hKey
  | cancelWaiting hi | cancelFetching hi => exact leakFree_cancel_iff (by rw [hi]; rfl) h rfl

/-! ## Runs -/

/-- **Leaks.** The states of a run are free of leaks exactly when every
cancellation in it leaves another caller of the same key inside, or no entry
for it. -/
theorem leakFree_iff_cancels_covered {labels : List (Label RecordType DNSClass)}
    (hRun : run step .init labels = some s) :
    (∀ before after, labels = before ++ after →
        ∀ t, run step .init before = some t → LeakFree t) ↔
      Guarded step CancelCovered .init labels := by
  constructor
  · intro hFree
    refine guarded_iff_prefix.mpr ?_
    intro before a after hEq t ht
    rw [hEq] at hRun
    obtain ⟨t', ht', hRest⟩ := run_append_eq_some.mp hRun
    rw [ht] at ht'
    cases ht'
    obtain ⟨u, hu, -⟩ := run_cons_eq_some.mp hRest
    -- the state after the step is that of a longer part of the run
    have hAfter : LeakFree u := by
      refine hFree (before ++ [a]) after (by rw [hEq, List.append_assoc]; rfl) u ?_
      exact run_append_eq_some.mpr ⟨t, ht, run_cons_eq_some.mpr ⟨u, hu, rfl⟩⟩
    exact (leakFree_step_iff (hFree before (a :: after) hEq t ht) hu).mp hAfter
  · intro hGuard before after hEq t ht
    have hBefore : Guarded step CancelCovered .init before := by
      refine guarded_iff_prefix.mpr ?_
      intro l a m hl u hu
      refine guarded_iff_prefix.mp hGuard l a (m ++ after) ?_ u hu
      rw [hEq, hl, List.append_assoc]
      rfl
    exact run_invariant_guarded (fun _ _ _ hFree hc hs => (leakFree_step_iff hFree hs).mpr hc)
      leakFree_init hBefore ht

/-- The initialiser is cancelled, and the caller that waits takes over. -/
def coveredCancel : List (Label Nat Nat) :=
  [enterA 0, enterA 1, .initialise 0, .cancel 0, .initialise 1, .fetchDone 1 [7], .finish 1]

theorem coveredCancel_leakFree :
    (run step .init coveredCancel).isSome = true ∧
      ∀ before after, coveredCancel = before ++ after →
        ∀ t, run step .init before = some t → LeakFree t := by
  have hSome : (run step .init coveredCancel).isSome = true := by decide
  obtain ⟨s, hs⟩ := Option.isSome_iff_exists.mp hSome
  refine ⟨hSome, (leakFree_iff_cancels_covered hs).mpr ?_⟩
  -- only the cancellation has something to show: caller 1 is inside as well
  refine ⟨trivial, fun t ht => ?_⟩
  cases ht
  refine ⟨trivial, fun t ht => ?_⟩
  cases ht
  refine ⟨trivial, fun t ht => ?_⟩
  cases ht
  refine ⟨fun key hKey => .inl ⟨1, by decide, hKey⟩, fun t ht => ?_⟩
  cases ht
  refine ⟨trivial, fun t ht => ?_⟩
  cases ht
  refine ⟨trivial, fun t ht => ?_⟩
  cases ht
  exact ⟨trivial, fun t ht => trivial⟩

/-- A single caller is dropped while its fetch runs. -/
def droppedFetch : List (Label Nat Nat) := [enterA 0, .initialise 0, .cancel 0]

/-- Nobody is inside any more, and the entry is still there. -/
theorem cancelled_fetch_leaks :
    ¬ ∀ (labels : List (Label Nat Nat)) (s : State (FlightKey Nat Nat)),
      run step .init labels = some s → LeakFree s := by
  intro h
  obtain ⟨s, hs⟩ : ∃ s, run step .init droppedFetch = some s := ⟨_, rfl⟩
  have hFree := h droppedFetch s hs flightA
  cases hs
  have hNone := hFree (by
    intro i
    by_cases hi : i = 0
    · subst hi
      decide
    · simp [goto_callers, hi, State.init, Phase.key?])
  revert hNone
  decide

end DnsRs.InFlight
