import Mathlib.Tactic

/-!
# Runs of a labelled transition function

A concurrent component is embedded as `step : σ → ι → Option σ`: a label says
which party takes which step and carries the outcome of everything the model
leaves open (the scheduler, the peer, the clock), and `none` says that the
step is not enabled. A run is a list of labels.

* `run_invariant` — what every enabled step preserves holds after every run.
* `run_invariant_guarded` — the same for runs whose steps all meet a guard.
* `guarded_iff_prefix` — the guard read off the prefixes of a run.
* `run_simulation` — a view of the state under which every step is a step of
  another component or changes nothing turns runs into runs.
* `history_invariant`, `history_invariant_guarded` — an invariant that may speak
  of every earlier moment of the run: `history` lists the steps with the states
  they were taken in.
* `run_length_le`, `exists_run_done` — a measure that every step lowers bounds
  the length of runs, and where some step is enabled until the goal is reached
  a run to the goal exists.
* `run_count_le` — the same for the steps of one kind, where the others leave
  the measure.
-/

namespace DnsRs.Lib

variable {σ ι : Type} {step : σ → ι → Option σ}

/-- The state after a list of steps, if all of them are enabled. -/
def run (step : σ → ι → Option σ) : σ → List ι → Option σ
  | s, [] => some s
  | s, a :: labels => (step s a).bind fun t => run step t labels

/-- Every step of the run from `s` meets the guard in the state it is taken. -/
def Guarded (step : σ → ι → Option σ) (guard : σ → ι → Prop) : σ → List ι → Prop
  | _, [] => True
  | s, a :: labels => guard s a ∧ ∀ t, step s a = some t → Guarded step guard t labels

instance Guarded.decidable (guard : σ → ι → Prop) [∀ s a, Decidable (guard s a)] :
    ∀ s labels, Decidable (Guarded step guard s labels)
  | _, [] => isTrue trivial
  | s, a :: labels =>
    match h : step s a with
    | none => decidable_of_iff (guard s a) (by simp [Guarded, h])
    | some t =>
      have := Guarded.decidable guard t labels
      decidable_of_iff (guard s a ∧ Guarded step guard t labels) (by simp [Guarded, h])

@[simp] theorem run_nil (s : σ) : run step s [] = some s := rfl

theorem run_cons_eq_some {s u : σ} {a : ι} {labels : List ι} :
    run step s (a :: labels) = some u ↔ ∃ t, step s a = some t ∧ run step t labels = some u :=
  Option.bind_eq_some_iff

theorem run_append_eq_some {s u : σ} {l m : List ι} :
    run step s (l ++ m) = some u ↔ ∃ t, run step s l = some t ∧ run step t m = some u := by
  induction l generalizing s with
  | nil => simp
  | cons a l ih =>
    simp only [List.cons_append, run_cons_eq_some, ih]
    constructor
    · rintro ⟨t, ht, v, hv, hu⟩
      exact ⟨v, ⟨t, ht, hv⟩, hu⟩
    · rintro ⟨v, ⟨t, ht, hv⟩, hu⟩
      exact ⟨t, ht, v, hv, hu⟩

/-- A guarded invariant: preserved by every enabled step that meets the guard,
it holds after every run all of whose steps meet it. -/
theorem run_invariant_guarded {I : σ → Prop} {guard : σ → ι → Prop}
    (hStep : ∀ s a t, I s → guard s a → step s a = some t → I t)
    {s t : σ} {labels : List ι} (hs : I s) (hGuard : Guarded step guard s labels)
    (hRun : run step s labels = some t) : I t := by
  induction labels generalizing s with
  | nil =>
    cases hRun
    exact hs
  | cons a labels ih =>
    obtain ⟨u, hu, hRest⟩ := run_cons_eq_some.mp hRun
    exact ih (hStep s a u hs hGuard.1 hu) (hGuard.2 u hu) hRest

theorem guarded_true (s : σ) (labels : List ι) : Guarded step (fun _ _ => True) s labels := by
  induction labels generalizing s with
  | nil => trivial
  | cons a labels ih => exact ⟨trivial, fun t _ => ih t⟩

/-- An invariant of every enabled step holds after every run. -/
theorem run_invariant {I : σ → Prop} (hStep : ∀ s a t, I s → step s a = some t → I t)
    {s t : σ} {labels : List ι} (hs : I s) (hRun : run step s labels = some t) : I t :=
  run_invariant_guarded (fun s a t hI _ h => hStep s a t hI h) hs (guarded_true s labels) hRun

/-- A component seen through `view` runs as another one, if each of its steps is
a step of that one or is not seen. -/
theorem run_simulation {τ κ : Type} {step' : τ → κ → Option τ} {view : σ → τ}
    (hStep : ∀ s a t, step s a = some t →
      view t = view s ∨ ∃ b, step' (view s) b = some (view t))
    {s t : σ} {labels : List ι} (hRun : run step s labels = some t) :
    ∃ labels', run step' (view s) labels' = some (view t) := by
  induction labels generalizing s with
  | nil =>
    cases hRun
    exact ⟨[], rfl⟩
  | cons a labels ih =>
    obtain ⟨u, hu, hRest⟩ := run_cons_eq_some.mp hRun
    obtain ⟨labels', hLabels'⟩ := ih hRest
    rcases hStep s a u hu with hSame | ⟨b, hb⟩
    · exact ⟨labels', hSame ▸ hLabels'⟩
    · exact ⟨b :: labels', run_cons_eq_some.mpr ⟨view u, hb, hLabels'⟩⟩

/-- A run is guarded when the guard holds at the end of each of its prefixes,
for the step that follows. -/
theorem guarded_iff_prefix {guard : σ → ι → Prop} {s : σ} {labels : List ι} :
    Guarded step guard s labels ↔
      ∀ before a after, labels = before ++ a :: after →
        ∀ t, run step s before = some t → guard t a := by
  induction labels generalizing s with
  | nil =>
    constructor
    · intro _ before a after h
      simp at h
    · intro _
      trivial
  | cons b labels ih =>
    constructor
    · rintro ⟨hb, hRest⟩ before a after hEq t ht
      cases before with
      | nil =>
        simp only [List.nil_append, List.cons.injEq] at hEq
        obtain ⟨rfl, rfl⟩ := hEq
        cases ht
        exact hb
      | cons c before =>
        simp only [List.cons_append, List.cons.injEq] at hEq
        obtain ⟨rfl, rfl⟩ := hEq
        obtain ⟨u, hu, hRun⟩ := run_cons_eq_some.mp ht
        exact ih.mp (hRest u hu) before a after rfl t hRun
    · intro h
      refine ⟨h [] b labels rfl s rfl, ?_⟩
      intro u hu
      refine ih.mpr ?_
      intro before a after hEq t ht
      exact h (b :: before) a after (by rw [hEq]; rfl) t (run_cons_eq_some.mpr ⟨u, hu, ht⟩)

theorem guarded_append {guard : σ → ι → Prop} {s : σ} {l m : List ι}
    (hFirst : Guarded step guard s l) (hThen : ∀ t, run step s l = some t → Guarded step guard t m) :
    Guarded step guard s (l ++ m) := by
  induction l generalizing s with
  | nil => exact hThen s rfl
  | cons a l ih =>
    refine ⟨hFirst.1, fun t ht => ih (hFirst.2 t ht) ?_⟩
    intro u hu
    exact hThen u (run_cons_eq_some.mpr ⟨t, ht, hu⟩)

/-- A guard that does not look at the state holds of a run when it holds of all
its labels. -/
theorem guarded_of_forall {guard : ι → Prop} {labels : List ι} (h : ∀ a ∈ labels, guard a)
    (s : σ) : Guarded step (fun _ a => guard a) s labels :=
  guarded_iff_prefix.mpr fun _ a _ hEq _ _ => h a (hEq ▸ List.mem_append_right _ List.mem_cons_self)

theorem forall_of_guarded {guard : ι → Prop} {s t : σ} {labels : List ι}
    (h : Guarded step (fun _ a => guard a) s labels) (hRun : run step s labels = some t) :
    ∀ a ∈ labels, guard a := by
  intro a ha
  obtain ⟨before, after, rfl⟩ := List.append_of_mem ha
  obtain ⟨u, hBefore, -⟩ := run_append_eq_some.mp hRun
  exact guarded_iff_prefix.mp h before a after rfl u hBefore

/-! ## Runs that end -/

/-- No run is longer than a measure that all its steps lower. -/
theorem run_length_le {I : σ → Prop} {guard : σ → ι → Prop} (μ : σ → Nat)
    (hStep : ∀ s a t, I s → guard s a → step s a = some t → I t ∧ μ t < μ s)
    {s t : σ} {labels : List ι} (hs : I s) (hGuard : Guarded step guard s labels)
    (hRun : run step s labels = some t) : labels.length + μ t ≤ μ s := by
  induction labels generalizing s with
  | nil =>
    cases hRun
    simp
  | cons a labels ih =>
    obtain ⟨u, hu, hRest⟩ := run_cons_eq_some.mp hRun
    obtain ⟨hI, hLess⟩ := hStep s a u hs hGuard.1 hu
    have hTail := ih hI (hGuard.2 u hu) hRest
    rw [List.length_cons]
    omega

/-- No run has more steps of a kind than a measure that they lower and no other
step raises. -/
theorem run_count_le {I : σ → Prop} {guard : σ → ι → Prop} (p : ι → Bool) (μ : σ → Nat)
    (hStep : ∀ s a t, I s → guard s a → step s a = some t →
      I t ∧ μ t ≤ μ s ∧ (p a = true → μ t < μ s))
    {s t : σ} {labels : List ι} (hs : I s) (hGuard : Guarded step guard s labels)
    (hRun : run step s labels = some t) : labels.countP p + μ t ≤ μ s := by
  induction labels generalizing s with
  | nil =>
    cases hRun
    simp
  | cons a labels ih =>
    obtain ⟨u, hu, hRest⟩ := run_cons_eq_some.mp hRun
    obtain ⟨hI, hLe, hLess⟩ := hStep s a u hs hGuard.1 hu
    have hTail := ih hI (hGuard.2 u hu) hRest
    by_cases hp : p a = true
    · have := hLess hp
      rw [List.countP_cons_of_pos hp]
      omega
    · rw [List.countP_cons_of_neg hp]
      omega

/-- Where some step that lowers the measure is enabled until the goal is reached,
a run reaches it. -/
theorem exists_run_done {I Done : σ → Prop} {guard : σ → ι → Prop} (μ : σ → Nat)
    (hStep : ∀ s, I s → ¬ Done s → ∃ a t, guard s a ∧ step s a = some t ∧ I t ∧ μ t < μ s)
    (s : σ) (hs : I s) :
    ∃ labels t, Guarded step guard s labels ∧ run step s labels = some t ∧ Done t := by
  induction hn : μ s using Nat.strong_induction_on generalizing s with
  | _ n ih =>
    by_cases hDone : Done s
    · exact ⟨[], s, trivial, rfl, hDone⟩
    · obtain ⟨a, t, hGuard, ht, hI, hLess⟩ := hStep s hs hDone
      obtain ⟨labels, u, hRest, hRun, hu⟩ := ih (μ t) (hn ▸ hLess) t hI rfl
      refine ⟨a :: labels, u, ⟨hGuard, fun t' ht' => ?_⟩, run_cons_eq_some.mpr ⟨t, ht, hRun⟩, hu⟩
      rw [ht] at ht'
      cases ht'
      exact hRest

/-! ## The past of a run -/

/-- The steps of a run, each with the state it is taken in, the first one first. -/
def history (step : σ → ι → Option σ) : σ → List ι → List (σ × ι)
  | _, [] => []
  | s, a :: labels => (s, a) :: ((step s a).map fun t => history step t labels).getD []

theorem history_cons {s t : σ} {a : ι} {labels : List ι} (h : step s a = some t) :
    history step s (a :: labels) = (s, a) :: history step t labels := by
  rw [history, h]
  rfl

/-- An invariant of the state and the past: what holds of an empty past and is
kept when a step that meets the guard is added to it holds of the whole history
of a guarded run. -/
theorem history_invariant_guarded {I : List (σ × ι) → σ → Prop} {guard : σ → ι → Prop}
    (hStep : ∀ past s a t, I past s → guard s a → step s a = some t → I (past ++ [(s, a)]) t)
    {s t : σ} {labels : List ι} (hs : I [] s) (hGuard : Guarded step guard s labels)
    (hRun : run step s labels = some t) : I (history step s labels) t := by
  -- the run goes on from any past
  have hFrom : ∀ (labels : List ι) (past : List (σ × ι)) (s : σ), I past s →
      Guarded step guard s labels → run step s labels = some t →
      I (past ++ history step s labels) t := by
    intro labels
    induction labels with
    | nil =>
      intro past s hI _ hRun
      cases hRun
      rwa [history, List.append_nil]
    | cons a labels ih =>
      intro past s hI hGuard hRun
      obtain ⟨u, hu, hRest⟩ := run_cons_eq_some.mp hRun
      have hNext := ih _ u (hStep past s a u hI hGuard.1 hu) (hGuard.2 u hu) hRest
      rwa [List.append_assoc, List.singleton_append, ← history_cons hu] at hNext
  exact hFrom labels [] s hs hGuard hRun

/-- The same for every run. -/
theorem history_invariant {I : List (σ × ι) → σ → Prop}
    (hStep : ∀ past s a t, I past s → step s a = some t → I (past ++ [(s, a)]) t)
    {s t : σ} {labels : List ι} (hs : I [] s) (hRun : run step s labels = some t) :
    I (history step s labels) t :=
  history_invariant_guarded (fun past s a t hI _ h => hStep past s a t hI h) hs
    (guarded_true s labels) hRun

/-- Every moment in the history is reached by the run up to it. -/
theorem history_moment {s t : σ} {labels : List ι} {past later : List (σ × ι)} {u : σ} {a : ι}
    (hRun : run step s labels = some t) (h : history step s labels = past ++ (u, a) :: later) :
    ∃ before after, labels = before ++ a :: after ∧ run step s before = some u ∧
      history step s before = past ∧ ∃ v, step u a = some v := by
  induction labels generalizing s past with
  | nil => simp [history] at h
  | cons b labels ih =>
    obtain ⟨v, hv, hRest⟩ := run_cons_eq_some.mp hRun
    rw [history_cons hv] at h
    cases past with
    | nil =>
      simp only [List.nil_append, List.cons.injEq, Prod.mk.injEq] at h
      obtain ⟨⟨rfl, rfl⟩, -⟩ := h
      exact ⟨[], labels, rfl, rfl, rfl, v, hv⟩
    | cons p past =>
      simp only [List.cons_append, List.cons.injEq] at h
      obtain ⟨rfl, hTail⟩ := h
      obtain ⟨before, after, rfl, hBefore, hPast, hStep⟩ := ih hRest hTail
      refine ⟨b :: before, after, rfl, run_cons_eq_some.mpr ⟨v, hv, hBefore⟩, ?_, hStep⟩
      rw [history_cons hv, hPast]

end DnsRs.Lib
