import Mathlib.Data.List.Basic

/-!
# The log of a store

A store of values under keys, seen through the events of its past, most recent
first. `current` is the finite map that the log describes: what was stored last
under a key, unless it has been evicted since. `uses` lists the keys in the
order in which they were stored or looked up, and `Recent` says that a list of
places is sorted by the last use of the keys held there. `Only` says what is
true of everything stored: whoever stores has to show it, and nothing else can
break it.
-/

namespace DnsRs.Lib

variable {κ ν ρ : Type}

inductive StoreEvent (κ ν ρ : Type) where
  | stored (key : κ) (value : ν)
  | hit (key : κ)
  | evicted (key : κ) (reason : ρ)
  deriving DecidableEq, Repr

/-- The keys stored or looked up, most recent first. -/
def uses : List (StoreEvent κ ν ρ) → List κ
  | [] => []
  | .stored key _ :: log => key :: uses log
  | .hit key :: log => key :: uses log
  | .evicted _ _ :: log => uses log

/-- Where one of several evictions in a row stands in the log. -/
theorem evictions_split {reason : ρ} {v : κ} {victims : List κ}
    {after before later earlier : List (StoreEvent κ ν ρ)} (hAfter : .evicted v reason ∉ after)
    (hBefore : .evicted v reason ∉ before)
    (h : after ++ (victims.map (.evicted · reason) ++ before) =
      later ++ .evicted v reason :: earlier) :
    ∃ newer older, victims = newer ++ v :: older ∧
      earlier = older.map (.evicted · reason) ++ before := by
  induction later generalizing after victims with
  | nil =>
    cases after with
    | cons event after =>
      rw [List.cons_append, List.nil_append, List.cons.injEq] at h
      exact absurd (h.1 ▸ List.mem_cons_self) hAfter
    | nil =>
      cases victims with
      | nil =>
        rw [List.map_nil, List.nil_append, List.nil_append, List.nil_append] at h
        exact absurd (h ▸ List.mem_cons_self) hBefore
      | cons u victims =>
        rw [List.map_cons, List.cons_append, List.nil_append, List.nil_append, List.cons.injEq] at h
        cases h.1
        exact ⟨[], victims, rfl, h.2.symm⟩
  | cons event later ih =>
    cases after with
    | cons event' after =>
      rw [List.cons_append, List.cons_append, List.cons.injEq] at h
      exact ih (fun hMem => hAfter (List.mem_cons_of_mem _ hMem)) h.2
    | nil =>
      cases victims with
      | nil =>
        rw [List.map_nil, List.nil_append, List.nil_append] at h
        refine absurd (h ▸ ?_) hBefore
        exact List.mem_append_right _ List.mem_cons_self
      | cons u victims =>
        rw [List.map_cons, List.cons_append, List.nil_append, List.cons_append,
          List.cons.injEq] at h
        obtain ⟨newer, older, rfl, hEarlier⟩ := ih List.not_mem_nil h.2
        exact ⟨u :: newer, older, rfl, hEarlier⟩

variable [DecidableEq κ]

/-- The value that a log leaves under a key. -/
def current : List (StoreEvent κ ν ρ) → κ → Option ν
  | [], _ => none
  | .stored key value :: log, k => if key = k then some value else current log k
  | .hit _ :: log, k => current log k
  | .evicted key _ :: log, k => if key = k then none else current log k

/-- Evictions take nothing but their keys away. -/
theorem current_evictions (victims : List κ) (reason : ρ) (log : List (StoreEvent κ ν ρ)) (k : κ) :
    current (victims.map (.evicted · reason) ++ log) k =
      if k ∈ victims then none else current log k := by
  induction victims with
  | nil => rw [if_neg (List.not_mem_nil)]; rfl
  | cons v victims ih =>
    rw [List.map_cons, List.cons_append, current, ih]
    by_cases hv : v = k
    · rw [if_pos hv, if_pos (hv ▸ List.mem_cons_self)]
    · rw [if_neg hv]
      simp only [List.mem_cons, Ne.symm hv, false_or]

/-- What is stored under a key after events that store nothing there was stored before. -/
theorem current_of_append {events log : List (StoreEvent κ ν ρ)} {k : κ} {value : ν}
    (hEvents : ∀ v, .stored k v ∉ events) (h : current (events ++ log) k = some value) :
    current log k = some value := by
  induction events with
  | nil => exact h
  | cons event events ih =>
    refine ih (fun v hv => hEvents v (List.mem_cons_of_mem _ hv)) ?_
    rw [List.cons_append] at h
    cases event with
    | stored key v =>
      rw [current] at h
      split at h
      · rename_i hKey
        exact absurd (hKey ▸ List.mem_cons_self) (hEvents v)
      · exact h
    | hit key => exact h
    | evicted key reason =>
      rw [current] at h
      split at h
      · cases h
      · exact h

/-- Events that neither store nor evict a key leave what is there. -/
theorem current_append_of_notMem {events log : List (StoreEvent κ ν ρ)} {k : κ}
    (hStored : ∀ v, .stored k v ∉ events) (hEvicted : ∀ reason, .evicted k reason ∉ events) :
    current (events ++ log) k = current log k := by
  induction events with
  | nil => rfl
  | cons event events ih =>
    have hRest := ih (fun v hv => hStored v (List.mem_cons_of_mem _ hv))
      fun reason hr => hEvicted reason (List.mem_cons_of_mem _ hr)
    cases event with
    | stored key v =>
      rw [List.cons_append, current, if_neg, hRest]
      rintro rfl
      exact hStored v List.mem_cons_self
    | hit key => exact hRest
    | evicted key reason =>
      rw [List.cons_append, current, if_neg, hRest]
      rintro rfl
      exact hEvicted reason List.mem_cons_self

/-- Everything that a log leaves stored meets `P`. -/
def Only (P : κ → ν → Prop) (log : List (StoreEvent κ ν ρ)) : Prop :=
  ∀ k value, current log k = some value → P k value

section Only

variable {P Q : κ → ν → Prop} {log : List (StoreEvent κ ν ρ)}

theorem Only.nil : Only P ([] : List (StoreEvent κ ν ρ)) := by
  intro k value h
  cases h

theorem Only.mono (h : Only P log) (hPQ : ∀ k value, P k value → Q k value) : Only Q log :=
  fun k value hCurrent => hPQ k value (h k value hCurrent)

theorem Only.stored (h : Only P log) {key : κ} {value : ν} (hNew : P key value) :
    Only P (.stored key value :: log) := by
  intro k v hCurrent
  rw [current] at hCurrent
  by_cases hKey : key = k
  · rw [if_pos hKey] at hCurrent
    cases hCurrent
    exact hKey ▸ hNew
  · rw [if_neg hKey] at hCurrent
    exact h k v hCurrent

theorem Only.hit (h : Only P log) (key : κ) : Only P (.hit key :: log) := h

theorem Only.evictions (h : Only P log) (victims : List κ) (reason : ρ) :
    Only P (victims.map (.evicted · reason) ++ log) := by
  intro k v hCurrent
  rw [current_evictions] at hCurrent
  split at hCurrent
  · cases hCurrent
  · exact h k v hCurrent

end Only

/-- The places in `l` hold keys in the order of their last use. -/
def Recent (keyAt : Nat → Option κ) (used : List κ) (l : List Nat) : Prop :=
  l.Pairwise fun i j => ∀ a b, keyAt i = some a → keyAt j = some b → used.idxOf a < used.idxOf b

variable {keyAt keyAt' : Nat → Option κ} {used : List κ} {l l' : List Nat} {i : Nat} {key : κ}

theorem Recent.sublist (h : Recent keyAt used l) (hSub : l'.Sublist l) : Recent keyAt used l' :=
  List.Pairwise.sublist hSub h

theorem Recent.congr (h : Recent keyAt used l) (hKeys : ∀ j ∈ l, keyAt' j = keyAt j) :
    Recent keyAt' used l := by
  refine List.Pairwise.imp_of_mem (fun {i j} hi hj hOrder a b ha hb => ?_) h
  rw [hKeys i hi] at ha
  rw [hKeys j hj] at hb
  exact hOrder a b ha hb

/-- The place of a key that is used moves to the front. -/
theorem Recent.use (h : Recent keyAt used l) (hKey : keyAt i = some key)
    (hOther : ∀ j ∈ l, keyAt j ≠ some key) : Recent keyAt (key :: used) (i :: l) := by
  have hShift : ∀ j ∈ l, ∀ a, keyAt j = some a →
      (key :: used).idxOf a = used.idxOf a + 1 := fun j hj a ha =>
    List.idxOf_cons_ne _ fun hEq => hOther j hj (hEq ▸ ha)
  refine List.pairwise_cons.mpr ⟨fun j hj a b ha hb => ?_, ?_⟩
  · rw [hKey] at ha
    cases ha
    rw [List.idxOf_cons_self, hShift j hj b hb]
    exact Nat.succ_pos _
  · refine List.Pairwise.imp_of_mem (fun {j k} hj hk hOrder a b ha hb => ?_) h
    rw [hShift j hj a ha, hShift k hk b hb]
    exact Nat.succ_lt_succ (hOrder a b ha hb)

end DnsRs.Lib
