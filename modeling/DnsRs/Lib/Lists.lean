import Mathlib.Data.List.Basic
import Mathlib.Logic.Function.Basic

/-!
# Lists that change in one place

A table of parties is a list: one of them changes (`modify`, `set`), or a new one is added at
the end. What stands at a position afterwards is the new value or what stood there before, and
a count changes by what the two values contribute.
-/

namespace DnsRs.Lib

variable {α β : Type} {l : List α} {i j : Nat} {a x y : α} {f : α → α}

/-! ## What stands where -/

theorem getElem?_set_same (h : l[i]? = some a) : (l.set i x)[i]? = some x := by
  rw [List.getElem?_set, if_pos rfl, if_pos (List.getElem?_eq_some_iff.mp h).1]

theorem getElem?_set_cases (h : (l.set i x)[j]? = some y) :
    j = i ∧ y = x ∨ j ≠ i ∧ l[j]? = some y := by
  rw [List.getElem?_set] at h
  split at h
  · rename_i hEq
    split at h
    · cases h
      exact .inl ⟨hEq.symm, rfl⟩
    · cases h
  · rename_i hNe
    exact .inr ⟨fun hEq => hNe hEq.symm, h⟩

theorem getElem?_modify_self (h : l[i]? = some a) : (l.modify i f)[i]? = some (f a) := by
  rw [List.getElem?_modify_eq, h]
  rfl

theorem getElem?_modify_cases (hi : l[i]? = some a) (hj : (l.modify i f)[j]? = some y) :
    j = i ∧ y = f a ∨ j ≠ i ∧ l[j]? = some y := by
  by_cases hEq : j = i
  · rw [hEq, getElem?_modify_self hi] at hj
    exact .inl ⟨hEq, (Option.some.inj hj).symm⟩
  · rw [List.getElem?_modify_ne _ _ (Ne.symm hEq)] at hj
    exact .inr ⟨hEq, hj⟩

/-- What `f` leaves alone is the same everywhere. -/
theorem map_modify_of_eq {g : α → β} (hg : ∀ a, g (f a) = g a) : (l.modify i f).map g = l.map g := by
  apply List.ext_getElem?
  intro j
  rw [List.getElem?_map, List.getElem?_map, List.getElem?_modify]
  cases l[j]? with
  | none => rfl
  | some a =>
    simp only [Option.map_eq_map, Option.map_some, Option.some.injEq]
    split
    · exact hg a
    · rfl

theorem exists_getElem?_of_map_eq {l' : List α} {g : α → β} (hMap : l'.map g = l.map g)
    (h : l'[i]? = some a) : ∃ b, l[i]? = some b ∧ g b = g a := by
  have hMapped : (l.map g)[i]? = some (g a) := by
    rw [← hMap, List.getElem?_map, h, Option.map_some]
  rwa [List.getElem?_map, Option.map_eq_some_iff] at hMapped

/-- A new one has come. -/
theorem getElem?_append_one (h : (l ++ [x])[j]? = some y) :
    l[j]? = some y ∨ j = l.length ∧ y = x := by
  rcases Nat.lt_or_ge j l.length with hLt | hGe
  · rw [List.getElem?_append_left hLt] at h
    exact .inl h
  · rw [List.getElem?_append_right hGe, List.getElem?_singleton] at h
    split at h
    · cases h
      exact .inr ⟨by omega, rfl⟩
    · cases h

/-- The same for a table that is a function. -/
theorem update_eq_some {g : Nat → Option α} {v : Option α} (h : Function.update g i v j = some x) :
    j = i ∧ v = some x ∨ j ≠ i ∧ g j = some x := by
  by_cases hEq : j = i
  · subst hEq
    rw [Function.update_self] at h
    exact .inl ⟨rfl, h⟩
  · rw [Function.update_of_ne hEq] at h
    exact .inr ⟨hEq, h⟩

/-! ## Counts -/

theorem countP_set {p : α → Bool} (h : l[i]? = some a) (x : α) :
    (l.set i x).countP p + (if p a then 1 else 0) = l.countP p + if p x then 1 else 0 := by
  obtain ⟨hi, rfl⟩ := List.getElem?_eq_some_iff.mp h
  rw [List.countP_set hi]
  -- the subtraction in `List.countP_set` does not truncate
  have hPos : p l[i] = true → 0 < l.countP p := fun hp =>
    List.countP_pos_iff.mpr ⟨l[i], List.getElem_mem hi, hp⟩
  split
  · have := hPos ‹_›
    omega
  · omega

theorem countP_modify (p : α → Bool) (h : l[i]? = some a) :
    (l.modify i f).countP p + (if p a then 1 else 0) = l.countP p + if p (f a) then 1 else 0 := by
  have hSet : l.modify i f = l.set i (f a) := by
    rw [List.modify_eq_set_getElem?, h]
    rfl
  rw [hSet]
  exact countP_set h (f a)

/-! ## Preimages -/

/-- A list of things that are all values of `g`. -/
theorem exists_map_eq {g : α → β} {P : α → Prop} {l : List β} (h : ∀ b ∈ l, ∃ a, P a ∧ g a = b) :
    ∃ l' : List α, l'.map g = l ∧ ∀ a ∈ l', P a := by
  induction l with
  | nil => exact ⟨[], rfl, fun a ha => (by cases ha)⟩
  | cons b l ih =>
    obtain ⟨a, ha, hEq⟩ := h b List.mem_cons_self
    obtain ⟨l', hl', hAll⟩ := ih fun b hb => h b (List.mem_cons_of_mem _ hb)
    refine ⟨a :: l', by rw [List.map_cons, hEq, hl'], ?_⟩
    intro x hx
    rcases List.mem_cons.mp hx with rfl | hx
    · exact ha
    · exact hAll x hx

end DnsRs.Lib
