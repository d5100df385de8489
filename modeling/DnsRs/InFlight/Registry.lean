import DnsRs.Lib.Run
import DnsRs.Wire.Identity
import Mathlib.Logic.Function.Basic

/-!
# The in-flight registry

`InFlightRegistry` coalesces concurrent cache misses: a map from flight keys
to shared `OnceCell`s, under a mutex. `dedup_with_flags` takes or makes the
cell of its key, runs or awaits the cell's initialiser, and afterwards removes
whatever entry the map then holds for the key.

`cellFor` and `remove` are the two critical sections. The cell follows
`tokio::sync::OnceCell`: at most one caller holds the permit to initialise it
(`owner`), a dropped initialiser gives the permit back, and a cell that holds
a value keeps it.

`step` interleaves any number of callers. A caller can be dropped only at an
`await`: while it waits for a cell or while its fetch runs. Between the end of
`get_or_init` and the end of `remove` there is none.
-/

namespace DnsRs.InFlight

open Lib Wire

variable {RecordType DNSClass : Type}

/-- A name short enough to be a key: the bytes `as_bytes` gives back. -/
structure InlineName where
  bytes : Bytes
  short : bytes.length ≤ maxNameLen
  deriving DecidableEq

/-- `InlineName::from_bytes` -/
def InlineName.fromBytes (name : Bytes) : Option InlineName :=
  if h : name.length ≤ maxNameLen then some ⟨name, h⟩ else none

/-- `FlightKey`: record type, class, flags and name. -/
structure FlightKey (RecordType DNSClass : Type) where
  recordType : RecordType
  dnsClass : DNSClass
  flags : UInt8
  name : InlineName
  deriving DecidableEq

/-- `tokio::sync::OnceCell`: its value once set, and the caller whose
initialiser holds the permit. -/
structure OnceCell (Value : Type) where
  value : Option Value
  owner : Option Nat
  deriving DecidableEq

/-- A new cell. -/
def OnceCell.new {Value : Type} : OnceCell Value := ⟨none, none⟩

/-- The registry, with the heap its `Arc`s point into: `made` cells have been
created, and a cell is named by its number. -/
structure InFlightRegistry (FlightKey Value : Type) where
  entries : FlightKey → Option Nat
  cells : Nat → OnceCell Value
  made : Nat

namespace InFlightRegistry

variable {K Value : Type} [DecidableEq K]

/-- `InFlightRegistry::new` -/
def new : InFlightRegistry K Value := ⟨fun _ => none, fun _ => .new, 0⟩

/-- `or_insert_with(|| Arc::new(OnceCell::new()))` under a vacant key -/
def register (r : InFlightRegistry K Value) (key : K) : InFlightRegistry K Value where
  entries := Function.update r.entries key (some r.made)
  cells := Function.update r.cells r.made .new
  made := r.made + 1

/-- `cell_for`: the cell of the key, made if there is none. -/
def cellFor (r : InFlightRegistry K Value) (key : K) : Nat × InFlightRegistry K Value :=
  match r.entries key with
  | some cell => (cell, r)
  | none => (r.made, r.register key)

/-- `remove`: whatever cell the key has leaves the map. -/
def remove (r : InFlightRegistry K Value) (key : K) : InFlightRegistry K Value :=
  { r with entries := Function.update r.entries key none }

/-- The cell `cell` is given the content `content`. -/
def setCell (r : InFlightRegistry K Value) (cell : Nat) (content : OnceCell Value) :
    InFlightRegistry K Value :=
  { r with cells := Function.update r.cells cell content }

end InFlightRegistry

/-! ## Callers of `dedup_with_flags` -/

/-- Where a caller stands. -/
inductive Phase (K : Type) where
  /-- not inside `dedup_with_flags` -/
  | idle
  /-- the name is too long to key on: fetching without the registry -/
  | direct
  /-- in `get_or_init`, before the cell has a value for it -/
  | waiting (key : K) (cell : Nat)
  /-- in `get_or_init`, running its `fetch` as the initialiser -/
  | fetching (key : K) (cell : Nat)
  /-- `get_or_init` returned, `remove` comes next -/
  | fetched (key : K) (cell : Nat) (wire : Bytes)
  deriving DecidableEq

/-- The key a caller is inside `dedup_with_flags` for. -/
def Phase.key? {K : Type} : Phase K → Option K
  | .idle => none
  | .direct => none
  | .waiting key _ => some key
  | .fetching key _ => some key
  | .fetched key _ _ => some key

/-- The registry together with its callers. -/
structure State (K : Type) where
  registry : InFlightRegistry K Bytes
  callers : Nat → Phase K

/-- No caller, no entry. -/
def State.init {K : Type} : State K := ⟨.new, fun _ => .idle⟩

/-- Caller `i` moves to `phase`. -/
def State.goto {K : Type} (s : State K) (i : Nat) (phase : Phase K) : State K :=
  { s with callers := Function.update s.callers i phase }

/-- A step of one caller; `wire` is what its fetch produced. -/
inductive Label (RecordType DNSClass : Type) where
  | enter (i : Nat) (name : Bytes) (recordType : RecordType) (dnsClass : DNSClass) (flags : UInt8)
  | initialise (i : Nat)
  | fetchDone (i : Nat) (wire : Bytes)
  | wake (i : Nat)
  | finish (i : Nat)
  | cancel (i : Nat)
  deriving DecidableEq

variable [DecidableEq RecordType] [DecidableEq DNSClass]

/-- One step of one caller of `dedup_with_flags`. -/
def step (s : State (FlightKey RecordType DNSClass)) :
    Label RecordType DNSClass → Option (State (FlightKey RecordType DNSClass))
  | .enter i name recordType dnsClass flags =>
    match s.callers i with
    | .idle =>
      match InlineName.fromBytes name with
      | none => some (s.goto i .direct)
      | some inlineName =>
        let key := ⟨recordType, dnsClass, flags, inlineName⟩
        let (cell, registry) := s.registry.cellFor key
        some ({ s with registry := registry }.goto i (.waiting key cell))
    | _ => none
  | .initialise i =>
    match s.callers i with
    | .waiting key cell =>
      if s.registry.cells cell = .new then
        some ({ s with registry := s.registry.setCell cell ⟨none, some i⟩ }.goto i
          (.fetching key cell))
      else none
    | _ => none
  | .fetchDone i wire =>
    match s.callers i with
    | .direct => some (s.goto i .idle)
    | .fetching key cell =>
      some ({ s with registry := s.registry.setCell cell ⟨some wire, none⟩ }.goto i
        (.fetched key cell wire))
    | _ => none
  | .wake i =>
    match s.callers i with
    | .waiting key cell =>
      match (s.registry.cells cell).value with
      | some wire => some (s.goto i (.fetched key cell wire))
      | none => none
    | _ => none
  | .finish i =>
    match s.callers i with
    | .fetched key _ _ => some ({ s with registry := s.registry.remove key }.goto i .idle)
    | _ => none
  | .cancel i =>
    match s.callers i with
    | .direct => some (s.goto i .idle)
    | .waiting _ _ => some (s.goto i .idle)
    | .fetching _ cell =>
      some ({ s with registry := s.registry.setCell cell .new }.goto i .idle)
    | _ => none

/-! ## What a step can do -/

/-- The transitions of one caller, one constructor per kind. -/
inductive Moves (s : State (FlightKey RecordType DNSClass)) :
    Label RecordType DNSClass → State (FlightKey RecordType DNSClass) → Prop where
  | enterDirect {i name recordType dnsClass flags} (hi : s.callers i = .idle)
      (hName : maxNameLen < name.length) :
      Moves s (.enter i name recordType dnsClass flags) (s.goto i .direct)
  | enterShared {i recordType dnsClass flags cell} (name : InlineName) (hi : s.callers i = .idle)
      (hCell : s.registry.entries ⟨recordType, dnsClass, flags, name⟩ = some cell) :
      Moves s (.enter i name.bytes recordType dnsClass flags)
        (s.goto i (.waiting ⟨recordType, dnsClass, flags, name⟩ cell))
  | enterFresh {i recordType dnsClass flags} (name : InlineName) (hi : s.callers i = .idle)
      (hCell : s.registry.entries ⟨recordType, dnsClass, flags, name⟩ = none) :
      Moves s (.enter i name.bytes recordType dnsClass flags)
        ({ s with registry := s.registry.register ⟨recordType, dnsClass, flags, name⟩ }.goto i
          (.waiting ⟨recordType, dnsClass, flags, name⟩ s.registry.made))
  | initialise {i key cell} (hi : s.callers i = .waiting key cell)
      (hCell : s.registry.cells cell = .new) :
      Moves s (.initialise i)
        ({ s with registry := s.registry.setCell cell ⟨none, some i⟩ }.goto i (.fetching key cell))
  | directDone {i wire} (hi : s.callers i = .direct) :
      Moves s (.fetchDone i wire) (s.goto i .idle)
  | fetchDone {i key cell wire} (hi : s.callers i = .fetching key cell) :
      Moves s (.fetchDone i wire)
        ({ s with registry := s.registry.setCell cell ⟨some wire, none⟩ }.goto i
          (.fetched key cell wire))
  | wake {i key cell wire} (hi : s.callers i = .waiting key cell)
      (hCell : (s.registry.cells cell).value = some wire) :
      Moves s (.wake i) (s.goto i (.fetched key cell wire))
  | finish {i key cell wire} (hi : s.callers i = .fetched key cell wire) :
      Moves s (.finish i) ({ s with registry := s.registry.remove key }.goto i .idle)
  | cancelDirect {i} (hi : s.callers i = .direct) : Moves s (.cancel i) (s.goto i .idle)
  | cancelWaiting {i key cell} (hi : s.callers i = .waiting key cell) :
      Moves s (.cancel i) (s.goto i .idle)
  | cancelFetching {i key cell} (hi : s.callers i = .fetching key cell) :
      Moves s (.cancel i)
        ({ s with registry := s.registry.setCell cell .new }.goto i .idle)

/-- **Inversion of `step`.** -/
theorem step_moves {s t : State (FlightKey RecordType DNSClass)} {a : Label RecordType DNSClass}
    (h : step s a = some t) : Moves s a t := by
  cases a with
  | enter i name recordType dnsClass flags =>
    cases hi : s.callers i <;> simp only [step, hi] at h <;> try contradiction
    -- a name that does not fit goes past the registry
    unfold InlineName.fromBytes at h
    by_cases hName : name.length ≤ maxNameLen
    · simp only [hName, dite_true, InFlightRegistry.cellFor] at h
      cases hCell : s.registry.entries ⟨recordType, dnsClass, flags, ⟨name, hName⟩⟩ with
      | some cell =>
        rw [hCell] at h
        cases h
        exact .enterShared ⟨name, hName⟩ hi hCell
      | none =>
        rw [hCell] at h
        cases h
        exact .enterFresh ⟨name, hName⟩ hi hCell
    · simp only [hName, dite_false] at h
      cases h
      exact .enterDirect hi (by omega)
  | initialise i =>
    cases hi : s.callers i <;> simp only [step, hi] at h <;> try contradiction
    split at h
    · cases h
      exact .initialise hi ‹_›
    · contradiction
  | fetchDone i wire =>
    cases hi : s.callers i <;> simp only [step, hi] at h <;> try contradiction
    · cases h
      exact .directDone hi
    · cases h
      exact .fetchDone hi
  | wake i =>
    cases hi : s.callers i <;> simp only [step, hi] at h <;> try contradiction
    split at h
    · cases h
      exact .wake hi ‹_›
    · contradiction
  | finish i =>
    cases hi : s.callers i <;> simp only [step, hi] at h <;> try contradiction
    cases h
    exact .finish hi
  | cancel i =>
    cases hi : s.callers i <;> simp only [step, hi] at h <;> try contradiction
    · cases h
      exact .cancelDirect hi
    · cases h
      exact .cancelWaiting hi
    · cases h
      exact .cancelFetching hi

/-- The moves are exactly the enabled steps. -/
theorem Moves.step_eq {s t : State (FlightKey RecordType DNSClass)} {a : Label RecordType DNSClass}
    (h : Moves s a t) : step s a = some t := by
  cases h with
  | enterDirect hi hName => simp [step, hi, InlineName.fromBytes, Nat.not_le.mpr hName]
  | enterShared name hi hCell | enterFresh name hi hCell =>
    simp [step, hi, InlineName.fromBytes, name.short, InFlightRegistry.cellFor, hCell]
  | initialise hi hCell | wake hi hCell => simp [step, hi, hCell]
  | directDone hi | fetchDone hi | finish hi | cancelDirect hi | cancelWaiting hi
  | cancelFetching hi =>
    simp [step, hi]

/-! ## Frame lemmas -/

section Frame

variable {K Value : Type}

theorem goto_callers {s : State K} {i j : Nat} {phase : Phase K} :
    (s.goto i phase).callers j = if j = i then phase else s.callers j := by
  simp [State.goto, Function.update_apply]

@[simp] theorem goto_registry {s : State K} {i : Nat} {phase : Phase K} :
    (s.goto i phase).registry = s.registry := rfl

theorem register_entries [DecidableEq K] (r : InFlightRegistry K Value) (key k : K) :
    (r.register key).entries k = if k = key then some r.made else r.entries k := by
  simp [InFlightRegistry.register, Function.update_apply]

theorem register_cells [DecidableEq K] (r : InFlightRegistry K Value) (key : K) (c : Nat) :
    (r.register key).cells c = if c = r.made then .new else r.cells c := by
  simp [InFlightRegistry.register, Function.update_apply]

@[simp] theorem register_made [DecidableEq K] (r : InFlightRegistry K Value) (key : K) :
    (r.register key).made = r.made + 1 := rfl

theorem remove_entries [DecidableEq K] (r : InFlightRegistry K Value) (key k : K) :
    (r.remove key).entries k = if k = key then none else r.entries k := by
  simp [InFlightRegistry.remove, Function.update_apply]

theorem setCell_cells (r : InFlightRegistry K Value) (cell c : Nat) (content : OnceCell Value) :
    (r.setCell cell content).cells c = if c = cell then content else r.cells c := by
  simp [InFlightRegistry.setCell, Function.update_apply]

end Frame

/-! ## Owners -/

/-- A cell that is being initialised has no value yet, and its owner is at the fetch. -/
def Owned {K : Type} (s : State K) : Prop :=
  ∀ cell i, (s.registry.cells cell).owner = some i →
    (s.registry.cells cell).value = none ∧ ∃ key, s.callers i = .fetching key cell

section Owned

variable {K : Type} {s : State K} {i : Nat} {phase : Phase K}

/-- A caller that was not at a fetch moves. -/
theorem Owned.goto (h : Owned s) (hi : ∀ key cell, s.callers i ≠ .fetching key cell) :
    Owned (s.goto i phase) := by
  intro cell j hOwner
  obtain ⟨hNone, key, hj⟩ := h cell j hOwner
  refine ⟨hNone, key, ?_⟩
  rw [goto_callers, if_neg, hj]
  rintro rfl
  exact hi key cell hj

/-- A caller ends the fetch of its cell, one way or another. -/
theorem Owned.end_fetch (h : Owned s) {key : K} {cell : Nat} {content : OnceCell Bytes}
    (hi : s.callers i = .fetching key cell) (hContent : content.owner = none) :
    Owned ({ s with registry := s.registry.setCell cell content }.goto i phase) := by
  intro cell' j hOwner
  rw [goto_registry, setCell_cells] at hOwner ⊢
  split at hOwner
  · rw [hContent] at hOwner
    cases hOwner
  · rename_i hne
    rw [if_neg hne]
    obtain ⟨hNone, key', hj⟩ := h cell' j hOwner
    refine ⟨hNone, key', ?_⟩
    rw [goto_callers, if_neg]
    · exact hj
    · -- the owner of another cell is at that cell
      rintro rfl
      rw [hi] at hj
      cases hj
      exact hne rfl

end Owned

section OwnedSteps

variable {s t : State (FlightKey RecordType DNSClass)}

theorem owned_moves {a : Label RecordType DNSClass} (h : Owned s) (hMoves : Moves s a t) :
    Owned t := by
  cases hMoves with
  | enterDirect hi | enterShared _ hi | directDone hi | wake hi | finish hi | cancelDirect hi
  | cancelWaiting hi => exact h.goto fun key cell hFetch => by rw [hi] at hFetch; cases hFetch
  | @enterFresh j recordType dnsClass flags name hi hCell =>
    have hRegistered : Owned { s with
        registry := s.registry.register ⟨recordType, dnsClass, flags, name⟩ } := by
      intro cell i hOwner
      rw [register_cells] at hOwner ⊢
      split at hOwner
      · cases hOwner
      · rename_i hne
        rw [if_neg hne]
        exact h cell i hOwner
    exact hRegistered.goto fun key cell hFetch => by
      have hFetch : s.callers j = .fetching key cell := hFetch
      rw [hi] at hFetch
      cases hFetch
  | @initialise j key cell hi hCell =>
    intro cell' i hOwner
    rw [goto_registry, setCell_cells] at hOwner ⊢
    split at hOwner
    · rename_i hEq
      cases hOwner
      rw [if_pos hEq]
      exact ⟨rfl, key, by rw [goto_callers, if_pos rfl, hEq]⟩
    · rename_i hne
      rw [if_neg hne]
      obtain ⟨hNone, key', hi'⟩ := h cell' i hOwner
      refine ⟨hNone, key', ?_⟩
      rw [goto_callers, if_neg]
      · exact hi'
      · rintro rfl
        rw [hi] at hi'
        cases hi'
  | fetchDone hi | cancelFetching hi => exact h.end_fetch hi rfl

/-- **Whole runs.** -/
theorem owned_run {labels : List (Label RecordType DNSClass)}
    (hRun : run step .init labels = some s) : Owned s := by
  refine run_invariant (fun _ _ _ h hStep => owned_moves h (step_moves hStep)) ?_ hRun
  intro cell i hOwner
  cases hOwner

end OwnedSteps

end DnsRs.InFlight
