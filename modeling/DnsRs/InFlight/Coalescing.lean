import DnsRs.InFlight.Registry

/-!
# Coalescing

`dedup_with_flags` is meant to keep at most one upstream fetch per key
running. It does as long as nobody removes the entry of a flight that is still
running (`fetches_coalesced`): then every caller that waits for, or runs, an
unfinished flight holds the cell the map has for its key.

`remove` does not check whose cell it removes, so a follower of one flight
that wakes up late can remove the entry of the next flight. The next caller
then starts a second fetch beside the running one (`two_fetches_at_once`).
-/

namespace DnsRs.InFlight

open Lib Wire

variable {RecordType DNSClass : Type}

/-- The key and the cell of a caller that is inside `get_or_init`. -/
def Phase.flight? {K : Type} : Phase K → Option (K × Nat)
  | .waiting key cell => some (key, cell)
  | .fetching key cell => some (key, cell)
  | _ => none

/-- A `remove` of `key` finds no entry, or one whose flight has ended. -/
def RemovesEnded (key : FlightKey RecordType DNSClass)
    (s : State (FlightKey RecordType DNSClass)) : Label RecordType DNSClass → Prop
  | .finish i => (s.callers i).key? = some key →
      ∀ cell ∈ s.registry.entries key, (s.registry.cells cell).value ≠ none
  | _ => True

instance [DecidableEq RecordType] [DecidableEq DNSClass] (key : FlightKey RecordType DNSClass)
    (s : State (FlightKey RecordType DNSClass)) : ∀ a, Decidable (RemovesEnded key s a)
  | .finish i => inferInstanceAs (Decidable ((s.callers i).key? = some key →
      ∀ cell ∈ s.registry.entries key, (s.registry.cells cell).value ≠ none))
  | .enter .. | .initialise _ | .fetchDone .. | .wake _ | .cancel _ => isTrue trivial

/-! ## The invariant -/

/-- What holds of the flights of `key` as long as no running one is removed. -/
structure Coalesced (key : FlightKey RecordType DNSClass)
    (s : State (FlightKey RecordType DNSClass)) : Prop where
  /-- A running fetch owns its cell, and the cell has no value yet. -/
  owned : ∀ i k cell, s.callers i = .fetching k cell → s.registry.cells cell = ⟨none, some i⟩
  /-- Cells in use have been made. -/
  held : ∀ i k cell, (s.callers i).flight? = some (k, cell) → cell < s.registry.made
  mapped : ∀ k cell, s.registry.entries k = some cell → cell < s.registry.made
  /-- A caller of an unfinished flight holds the cell the map has. -/
  current : ∀ i cell, (s.callers i).flight? = some (key, cell) →
    (s.registry.cells cell).value = none → s.registry.entries key = some cell

theorem coalesced_init (key : FlightKey RecordType DNSClass) : Coalesced key .init where
  owned i k cell h := by cases h
  held i k cell h := by cases h
  mapped k cell h := by cases h
  current i cell h := by cases h

variable {key : FlightKey RecordType DNSClass} {s : State (FlightKey RecordType DNSClass)}

/-- Two callers of one key never run a fetch at the same time. -/
theorem Coalesced.unique (h : Coalesced key s) {i j cell cell' : Nat}
    (hi : s.callers i = .fetching key cell) (hj : s.callers j = .fetching key cell') : i = j := by
  have hOwnI := h.owned i key cell hi
  have hOwnJ := h.owned j key cell' hj
  -- both hold the cell of the map, so they hold the same one
  have hMapI := h.current i cell (by rw [hi]; rfl) (by rw [hOwnI])
  have hMapJ := h.current j cell' (by rw [hj]; rfl) (by rw [hOwnJ])
  rw [hMapI] at hMapJ
  cases hMapJ
  rw [hOwnI] at hOwnJ
  cases hOwnJ
  rfl

/-- Whoever is in a flight after a caller left its own has not moved. -/
theorem goto_of_flight {K : Type} {s : State K} {i j : Nat} {phase : Phase K}
    (hPhase : phase.flight? = none) (hj : ((s.goto i phase).callers j).flight? ≠ none) :
    j ≠ i ∧ (s.goto i phase).callers j = s.callers j := by
  rw [goto_callers] at hj ⊢
  split at hj
  · exact absurd hPhase hj
  · rename_i hNe
    exact ⟨hNe, if_neg hNe⟩

/-- A caller that is in no flight after its move leaves the others' as they
are. -/
theorem Coalesced.leave (h : Coalesced key s) (i : Nat)
    {phase : Phase (FlightKey RecordType DNSClass)} (hPhase : phase.flight? = none) :
    Coalesced key (s.goto i phase) where
  owned j k cell hj := by
    rw [(goto_of_flight hPhase (by rw [hj]; exact nofun)).2] at hj
    exact h.owned j k cell hj
  held j k cell hj := by
    rw [(goto_of_flight hPhase (by rw [hj]; exact nofun)).2] at hj
    exact h.held j k cell hj
  mapped := h.mapped
  current j cell hj hValue := by
    rw [(goto_of_flight hPhase (by rw [hj]; exact nofun)).2] at hj
    exact h.current j cell hj hValue

/-- Joining the flight the map has. -/
theorem Coalesced.join (h : Coalesced key s) {i cell : Nat} {k : FlightKey RecordType DNSClass}
    (hCell : s.registry.entries k = some cell) : Coalesced key (s.goto i (.waiting k cell)) where
  owned j k' cell' hj := by
    rw [goto_callers] at hj
    split at hj
    · cases hj
    · exact h.owned j k' cell' hj
  held j k' cell' hj := by
    rw [goto_callers] at hj
    split at hj
    · cases hj
      exact h.mapped k cell hCell
    · exact h.held j k' cell' hj
  mapped := h.mapped
  current j cell' hj hValue := by
    rw [goto_callers] at hj
    split at hj
    · cases hj
      exact hCell
    · exact h.current j cell' hj hValue

/-- Becoming the initialiser of a cell nobody initialises. -/
theorem Coalesced.initialise (h : Coalesced key s) {i cell : Nat}
    {k : FlightKey RecordType DNSClass} (hi : s.callers i = .waiting k cell)
    (hCell : s.registry.cells cell = .new) :
    Coalesced key ({ s with registry := s.registry.setCell cell ⟨none, some i⟩ }.goto i
      (.fetching k cell)) where
  owned j k' cell' hj := by
    rw [goto_callers] at hj
    rw [goto_registry, setCell_cells]
    split at hj
    · cases hj
      rw [if_pos rfl]
      simp_all
    · have hOwn := h.owned j k' cell' hj
      have hNe : cell' ≠ cell := by
        rintro rfl
        rw [hCell] at hOwn
        cases hOwn
      rw [if_neg hNe]
      exact hOwn
  held j k' cell' hj := by
    rw [goto_callers] at hj
    split at hj
    · cases hj
      exact h.held i k cell (by rw [hi]; rfl)
    · exact h.held j k' cell' hj
  mapped := h.mapped
  current j cell' hj hValue := by
    -- becoming the initialiser sets no value
    have hUnset : (s.registry.cells cell').value = none := by
      rw [goto_registry, setCell_cells] at hValue
      split at hValue
      · simp_all [OnceCell.new]
      · exact hValue
    rw [goto_callers] at hj
    split at hj
    · cases hj
      exact h.current i cell (by rw [hi]; rfl) hUnset
    · exact h.current j cell' hj hUnset

/-- The fetch of the owner ends, with a value or by being dropped. -/
theorem Coalesced.release (h : Coalesced key s) {i cell : Nat}
    {k : FlightKey RecordType DNSClass} (hi : s.callers i = .fetching k cell)
    {content : OnceCell Bytes} {phase : Phase (FlightKey RecordType DNSClass)}
    (hPhase : phase.flight? = none) :
    Coalesced key ({ s with registry := s.registry.setCell cell content }.goto i phase) where
  owned j k' cell' hj := by
    obtain ⟨hOther, hSame⟩ := goto_of_flight hPhase (by rw [hj]; exact nofun)
    rw [hSame] at hj
    have hOwn := h.owned j k' cell' hj
    -- a cell has one owner, and that of `cell` is the one who moves
    have hNe : cell' ≠ cell := by
      rintro rfl
      rw [h.owned i k cell' hi] at hOwn
      cases hOwn
      exact hOther rfl
    rw [goto_registry, setCell_cells, if_neg hNe]
    exact hOwn
  held j k' cell' hj := by
    rw [(goto_of_flight hPhase (by rw [hj]; exact nofun)).2] at hj
    exact h.held j k' cell' hj
  mapped := h.mapped
  current j cell' hj hValue := by
    have hUnset : (s.registry.cells cell').value = none := by
      rw [goto_registry, setCell_cells] at hValue
      split at hValue
      · rename_i hEq
        rw [hEq, h.owned i k cell hi]
      · exact hValue
    rw [(goto_of_flight hPhase (by rw [hj]; exact nofun)).2] at hj
    exact h.current j cell' hj hUnset

variable [DecidableEq RecordType] [DecidableEq DNSClass]

/-- Registering a fresh cell under a key without one. -/
theorem Coalesced.register (h : Coalesced key s) {k : FlightKey RecordType DNSClass}
    (hCell : s.registry.entries k = none) :
    Coalesced key { s with registry := s.registry.register k } where
  owned j k' cell hj := by
    -- a cell in use is older than the new one
    have hMade := h.held j k' cell (by rw [hj]; rfl)
    rw [register_cells, if_neg (by omega)]
    exact h.owned j k' cell hj
  held j k' cell hj := Nat.lt_succ_of_lt (h.held j k' cell hj)
  mapped k' cell hMap := by
    rw [register_made]
    rw [register_entries] at hMap
    split at hMap
    · cases hMap
      omega
    · have := h.mapped k' cell hMap
      omega
  current j cell hj hValue := by
    have hMade := h.held j key cell hj
    rw [register_cells, if_neg (by omega)] at hValue
    have hMap := h.current j cell hj hValue
    have hNe : key ≠ k := by
      rintro rfl
      rw [hCell] at hMap
      cases hMap
    rw [register_entries, if_neg hNe]
    exact hMap

/-- Removing the entry of a key, unless its flight is still running. -/
theorem Coalesced.remove (h : Coalesced key s) {k : FlightKey RecordType DNSClass}
    (hEnded : k = key → ∀ cell, s.registry.entries key = some cell →
      (s.registry.cells cell).value ≠ none) :
    Coalesced key { s with registry := s.registry.remove k } where
  owned := h.owned
  held := h.held
  mapped k' cell hMap := by
    rw [remove_entries] at hMap
    split at hMap
    · cases hMap
    · exact h.mapped k' cell hMap
  current j cell hj hValue := by
    have hMap := h.current j cell hj hValue
    rw [remove_entries]
    split
    · rename_i hKey
      -- a caller of an unfinished flight holds the entry that is removed
      exact absurd hValue (hEnded hKey.symm cell hMap)
    · exact hMap

/-- **Step.** One caller's step keeps the invariant, unless it removes a
running flight of the key. -/
theorem coalesced_step {t : State (FlightKey RecordType DNSClass)}
    {a : Label RecordType DNSClass} (h : Coalesced key s) (hGuard : RemovesEnded key s a)
    (hStep : step s a = some t) : Coalesced key t := by
  cases step_moves hStep with
  | enterDirect | directDone | wake | cancelDirect | cancelWaiting => exact h.leave _ rfl
  | enterShared name hi hCell => exact h.join hCell
  | enterFresh name hi hCell =>
    exact (h.register hCell).join (by rw [register_entries, if_pos rfl])
  | initialise hi hCell => exact h.initialise hi hCell
  | fetchDone hi | cancelFetching hi => exact h.release hi rfl
  | finish hi =>
    refine (h.remove ?_).leave _ rfl
    rintro rfl
    exact hGuard (by rw [hi]; rfl)

/-! ## Runs -/

/-- **Coalescing.** In a run in which every `remove` of `key` finds no entry or
the entry of an ended flight, no two fetches for `key` are ever running at
once. -/
theorem fetches_coalesced {labels : List (Label RecordType DNSClass)}
    (hRemove : Guarded step (RemovesEnded key) .init labels)
    (hRun : run step .init labels = some s) {i j cell cell' : Nat}
    (hi : s.callers i = .fetching key cell) (hj : s.callers j = .fetching key cell') : i = j := by
  have hInv : Coalesced key s :=
    run_invariant_guarded (fun _ _ _ => coalesced_step) (coalesced_init key) hRemove hRun
  exact hInv.unique hi hj

/-- The key of the runs below: the name `a.`, one type, one class, no flags. -/
def flightA : FlightKey Nat Nat := ⟨1, 1, 0, ⟨[0x61, 0x2e], by decide⟩⟩

/-- A caller asks for it. -/
def enterA (i : Nat) : Label Nat Nat := .enter i [0x61, 0x2e] 1 1 0

/-- Two callers share a flight and both leave before the next one starts. -/
def promptFollower : List (Label Nat Nat) :=
  [enterA 0, enterA 1, .initialise 0, .fetchDone 0 [7], .wake 1, .finish 0, .finish 1,
   enterA 2, enterA 3, .initialise 3]

theorem promptFollower_coalesced :
    (run step .init promptFollower).map (fun s => (s.callers 2, s.callers 3)) =
        some (.waiting flightA 1, .fetching flightA 1) ∧
      ∀ s, run step .init promptFollower = some s →
        ∀ i cell, s.callers i = .fetching flightA cell → i = 3 := by
  refine ⟨by decide, ?_⟩
  intro s hRun i cell hi
  have hThird : (run step .init promptFollower).map (fun s => s.callers 3) =
      some (.fetching flightA 1) := by decide
  rw [hRun] at hThird
  exact fetches_coalesced (by decide) hRun hi (Option.some.inj hThird)

/-- Caller 1 follows the flight of caller 0 but wakes up only after caller 2
has started the next one. It removes that flight's entry, and caller 3 finds
none. -/
def lateFollower : List (Label Nat Nat) :=
  [enterA 0, enterA 1, .initialise 0, .fetchDone 0 [7], .finish 0,
   enterA 2, .initialise 2, .wake 1, .finish 1, enterA 3, .initialise 3]

/-- Nobody is cancelled, and two fetches for one key run at once. -/
theorem two_fetches_at_once :
    ¬ ∀ (labels : List (Label Nat Nat)) (s : State (FlightKey Nat Nat)) (key : FlightKey Nat Nat)
        (i j cell cell' : Nat),
      run step .init labels = some s → (∀ a ∈ labels, ∀ n, a ≠ .cancel n) →
      s.callers i = .fetching key cell → s.callers j = .fetching key cell' → i = j := by
  intro h
  have hBoth : (run step .init lateFollower).map (fun s => (s.callers 2, s.callers 3)) =
      some (.fetching flightA 1, .fetching flightA 2) := by decide
  obtain ⟨s, hRun, hs⟩ := Option.map_eq_some_iff.mp hBoth
  simp only [Prod.mk.injEq] at hs
  have := h lateFollower s flightA 2 3 1 2 hRun (by simp [lateFollower, enterA]) hs.1 hs.2
  contradiction

end DnsRs.InFlight
