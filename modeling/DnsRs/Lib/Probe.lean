import Mathlib.Tactic

/-!
# Linear probing

The slots a probe looks at in a table of `n` slots: from `h` on, with
wrap-around. `Open p n h s` says that the probe from `h` reaches `s` through
slots that all satisfy `p`, in the tables below "not empty": it is what keeps
an entry findable.

* `exists_probe` — in `n` steps the probe sees every slot.
* `exists_first` — a slot without `p` stops the probe within `n` steps.
* `Open.mono` — filling slots keeps every path open.
-/

namespace DnsRs.Lib

variable {n h s : Nat} {p p' : Nat → Prop}

/-- The `j`-th slot of the probe from `h`. -/
def probe (n h j : Nat) : Nat := (h + j) % n

theorem probe_lt (hn : 0 < n) (h j : Nat) : probe n h j < n := Nat.mod_lt _ hn

theorem probe_succ (n h j : Nat) : (probe n h j + 1) % n = probe n h (j + 1) := by
  rw [probe, probe, Nat.mod_add_mod, Nat.add_assoc]

/-- The mask of a table whose size is a power of two. -/
theorem land_mask {k : Nat} (hn : n = 2 ^ k) (x : Nat) : x &&& (n - 1) = x % n := by
  rw [hn, Nat.and_two_pow_sub_one_eq_mod]

/-- Every slot is on the path. -/
theorem exists_probe (h : Nat) (hs : s < n) : ∃ j < n, probe n h j = s := by
  have hn : 0 < n := by omega
  refine ⟨(s + (n - h % n)) % n, Nat.mod_lt _ hn, ?_⟩
  have hLt := Nat.mod_lt h hn
  have hSplit := Nat.div_add_mod h n
  have hSum : h + (s + (n - h % n)) = s + n * (h / n + 1) := by
    rw [Nat.mul_add, Nat.mul_one]
    omega
  rw [probe, Nat.add_mod_mod, hSum, Nat.add_mul_mod_self_left, Nat.mod_eq_of_lt hs]

/-- The first slot on the path without `p`. -/
theorem exists_first [DecidablePred p] (h : Nat) (hs : s < n) (hp : ¬ p s) :
    ∃ e < n, ¬ p (probe n h e) ∧ ∀ i < e, p (probe n h i) := by
  obtain ⟨j, hj, rfl⟩ := exists_probe h hs
  have hEx : ∃ e, ¬ p (probe n h e) := ⟨j, hp⟩
  refine ⟨Nat.find hEx, ?_, Nat.find_spec hEx, fun i hi => ?_⟩
  · exact Nat.lt_of_le_of_lt (Nat.find_min' hEx hp) hj
  · exact Decidable.not_not.mp (Nat.find_min hEx hi)

/-- The probe from `h` reaches `s` through slots with `p`. -/
def Open (p : Nat → Prop) (n h s : Nat) : Prop :=
  ∃ j < n, probe n h j = s ∧ ∀ i < j, p (probe n h i)

theorem Open.mono (hOpen : Open p n h s) (hp : ∀ s, p s → p' s) : Open p' n h s := by
  obtain ⟨j, hj, hEq, hPath⟩ := hOpen
  exact ⟨j, hj, hEq, fun i hi => hp _ (hPath i hi)⟩

/-- A slot reached by an open path lies before the first slot without `p`,
unless it is that slot. -/
theorem Open.before_first (hOpen : Open p n h s) {e : Nat} (hFirst : ¬ p (probe n h e))
    (hs : p s) : ∃ j < e, j < n ∧ probe n h j = s := by
  obtain ⟨j, hj, hEq, hPath⟩ := hOpen
  refine ⟨j, ?_, hj, hEq⟩
  rcases Nat.lt_trichotomy j e with hLt | rfl | hGt
  · exact hLt
  · exact absurd (hEq ▸ hs) hFirst
  · exact absurd (hPath e hGt) hFirst

end DnsRs.Lib
