import Mathlib.Algebra.BigOperators.Finprod
import Mathlib.Data.Set.Finite.Basic
import Mathlib.Tactic.Abel

/-!
# Sums over all parties

A system with any number of tasks has a function from task numbers to task states, all but
finitely many of them idle. `tally w tasks` adds up what every task counts for, in any
commutative monoid: steps left to take, permits held, the multiset of what is being worked on.
An idle task counts for nothing.

`tally_update` is the one rule: when one task changes, the tally loses what it counted for and
gains what it counts for now.

Where the parties are a list that only grows, `sum_map_modify` says the same of sums over it;
`length_le_countP` counts members by their positions.
-/

namespace DnsRs.Lib

variable {ι α M : Type} [AddCommMonoid M]

/-- All but finitely many tasks are idle. -/
def FewBusy (idle : α) (tasks : ι → α) : Prop := {i | tasks i ≠ idle}.Finite

noncomputable def tally (w : α → M) (tasks : ι → α) : M := ∑ᶠ i, w (tasks i)

section Tally

variable {idle : α} {tasks : ι → α} {w : α → M} {i : ι} {a : α}

theorem fewBusy_const : FewBusy idle fun _ : ι => idle := by
  unfold FewBusy
  simp

/-- Somebody is idle, if there are enough to choose from. -/
theorem FewBusy.exists_idle [Infinite ι] (h : FewBusy idle tasks) : ∃ i, tasks i = idle := by
  obtain ⟨i, hi⟩ := h.exists_notMem
  exact ⟨i, by simpa using hi⟩

theorem tally_eq_sum (hIdle : w idle = 0) {S : Finset ι} (hS : ∀ i, tasks i ≠ idle → i ∈ S) :
    tally w tasks = ∑ i ∈ S, w (tasks i) := by
  refine finsum_eq_sum_of_support_subset _ fun i hi => ?_
  refine hS i fun hEq => ?_
  rw [Function.mem_support, hEq, hIdle] at hi
  exact hi rfl

theorem tally_of_idle (hIdle : w idle = 0) (h : ∀ i, tasks i = idle) : tally w tasks = 0 := by
  have hSum := tally_eq_sum (S := ∅) hIdle fun i hi => absurd (h i) hi
  rw [hSum, Finset.sum_empty]

variable [DecidableEq ι]

theorem FewBusy.update (h : FewBusy idle tasks) : FewBusy idle (Function.update tasks i a) := by
  refine (h.insert i).subset fun j (hj : Function.update tasks i a j ≠ idle) => ?_
  by_cases hEq : j = i
  · exact Set.mem_insert_iff.mpr (.inl hEq)
  · rw [Function.update_of_ne hEq] at hj
    exact Set.mem_insert_iff.mpr (.inr hj)

/-- **One task changes.** -/
theorem tally_update (hIdle : w idle = 0) (h : FewBusy idle tasks) :
    tally w (Function.update tasks i a) + w (tasks i) = tally w tasks + w a := by
  let S : Finset ι := insert i h.toFinset
  have hi : i ∈ S := Finset.mem_insert_self _ _
  have hOld : tally w tasks = ∑ j ∈ S, w (tasks j) := by
    refine tally_eq_sum hIdle fun j hj => ?_
    exact Finset.mem_insert_of_mem (h.mem_toFinset.mpr hj)
  have hNew : tally w (Function.update tasks i a) = ∑ j ∈ S, w (Function.update tasks i a j) := by
    refine tally_eq_sum hIdle fun j hj => ?_
    by_cases hEq : j = i
    · exact hEq ▸ hi
    · rw [Function.update_of_ne hEq] at hj
      exact Finset.mem_insert_of_mem (h.mem_toFinset.mpr hj)
  -- the others count as before
  have hOthers : ∑ j ∈ S.erase i, w (Function.update tasks i a j) =
      ∑ j ∈ S.erase i, w (tasks j) := by
    refine Finset.sum_congr rfl fun j hj => ?_
    rw [Function.update_of_ne (Finset.ne_of_mem_erase hj)]
  rw [hOld, hNew, ← Finset.add_sum_erase S _ hi, ← Finset.add_sum_erase S (fun j => w (tasks j)) hi,
    hOthers, Function.update_self]
  abel

end Tally

section Count

variable {idle : α} {tasks : ι → α} {w : α → Nat}

/-- Tasks that count for one each are no more than the tally. -/
theorem card_le_tally [DecidableEq ι] (hIdle : w idle = 0) (h : FewBusy idle tasks) {S : Finset ι}
    (hS : ∀ i ∈ S, 1 ≤ w (tasks i)) : S.card ≤ tally w tasks := by
  have hAll : tally w tasks = ∑ i ∈ S ∪ h.toFinset, w (tasks i) :=
    tally_eq_sum hIdle fun i hi => Finset.mem_union_right _ (h.mem_toFinset.mpr hi)
  calc S.card = ∑ _i ∈ S, 1 := Finset.card_eq_sum_ones S
    _ ≤ ∑ i ∈ S, w (tasks i) := Finset.sum_le_sum hS
    _ ≤ ∑ i ∈ S ∪ h.toFinset, w (tasks i) :=
      Finset.sum_le_sum_of_subset Finset.subset_union_left
    _ = tally w tasks := hAll.symm

end Count

/-! ## Parties in a list -/

section Lists

variable {l : List α} {i : Nat} {a : α}

/-- One of them changes, the others count as before. -/
theorem sum_map_modify {f : α → α} {g g' : α → Nat} (hi : l[i]? = some a)
    (hOthers : ∀ (j : Nat) (b : α), j ≠ i → l[j]? = some b → g' b = g b) :
    ((l.modify i f).map g').sum + g a = (l.map g).sum + g' (f a) := by
  induction l generalizing i with
  | nil => cases hi
  | cons b l ih =>
    cases i with
    | zero =>
      cases hi
      have hSame : l.map g' = l.map g := by
        refine List.map_congr_left fun x hx => ?_
        obtain ⟨j, hj⟩ := List.getElem?_of_mem hx
        exact hOthers (j + 1) x (Nat.succ_ne_zero j) hj
      simp only [List.modify_zero_cons, List.map_cons, List.sum_cons, hSame]
      omega
    | succ i =>
      have hHead : g' b = g b := hOthers 0 b (Nat.succ_ne_zero i).symm rfl
      have := ih (by simpa using hi) fun j x hne hx => hOthers (j + 1) x (by omega) hx
      simp only [List.modify_succ_cons, List.map_cons, List.sum_cons, hHead]
      omega

theorem sum_map_set {g : α → Nat} {x : α} (hi : l[i]? = some a) :
    ((l.set i x).map g).sum + g a = (l.map g).sum + g x := by
  rw [List.set_eq_modify]
  exact sum_map_modify hi fun _ _ _ _ => rfl

theorem countP_range_getElem? (l : List α) (p : α → Bool) :
    (List.range l.length).countP (fun n => (l[n]?).any p) = l.countP p := by
  induction l using List.reverseRecOn with
  | nil => rfl
  | append_singleton l a ih =>
    have hOld : (List.range l.length).countP (fun n => ((l ++ [a])[n]?).any p) =
        (List.range l.length).countP (fun n => (l[n]?).any p) := by
      refine List.countP_congr fun n hn => ?_
      rw [List.getElem?_append_left (List.mem_range.mp hn)]
    rw [List.length_append, List.length_singleton, List.range_succ, List.countP_append, hOld, ih,
      List.countP_append]
    simp [List.countP_cons]

/-- Distinct positions of members with a property are no more than these members. -/
theorem length_le_countP {p : α → Bool} {ns : List Nat} (hNodup : ns.Nodup)
    (h : ∀ n ∈ ns, ∃ a, l[n]? = some a ∧ p a = true) : ns.length ≤ l.countP p := by
  rw [← countP_range_getElem? l p, List.countP_eq_length_filter]
  refine (hNodup.subperm fun n hn => ?_).length_le
  obtain ⟨a, ha, hp⟩ := h n hn
  obtain ⟨hLt, -⟩ := List.getElem?_eq_some_iff.mp ha
  exact List.mem_filter.mpr ⟨List.mem_range.mpr hLt, by rw [ha]; exact hp⟩

end Lists

end DnsRs.Lib
