import Mathlib.Data.List.ReduceOption
import DnsRs.Lib.Probe

/-!
# Open-addressed sets without removal

A table is a list of slots, each free or taken by an element. What it holds is
`t.reduceOption`. `Findable hash t` says that every element stands on an open
path from its hash and that none is held twice; then a search that stops at the
first free slot of its path has seen the element if it is there.

* `exists_freeAt` — a search ends, as long as a slot is free.
* `Findable.before` — an element that is held stands before that slot.
* `Findable.put` — a new element can be put there.
-/

namespace DnsRs.Lib

variable {α : Type} {hash : α → Nat} {t : List (Option α)} {a : α} {s e : Nat}

/-- The slot holds an element. -/
def Taken (t : List (Option α)) (s : Nat) : Prop := ∃ a, t[s]? = some (some a)

structure Findable (hash : α → Nat) (t : List (Option α)) : Prop where
  path : ∀ s a, t[s]? = some (some a) → Open (Taken t) t.length (hash a) s
  nodup : t.reduceOption.Nodup

/-- The search for `a` passes `e` taken slots and then meets a free one. -/
structure FreeAt (hash : α → Nat) (t : List (Option α)) (a : α) (e : Nat) : Prop where
  lt : e < t.length
  free : ¬ Taken t (probe t.length (hash a) e)
  taken : ∀ i < e, Taken t (probe t.length (hash a) i)

theorem mem_reduceOption : a ∈ t.reduceOption ↔ ∃ s : Nat, t[s]? = some (some a) := by
  rw [List.reduceOption_mem_iff, List.mem_iff_getElem?]

theorem getElem?_of_free (hs : s < t.length) (hFree : ¬ Taken t s) : t[s]? = some none := by
  rw [List.getElem?_eq_getElem hs]
  cases hSlot : t[s] with
  | none => rfl
  | some b => exact absurd ⟨b, by rw [List.getElem?_eq_getElem hs, hSlot]⟩ hFree

theorem exists_freeAt (hRoom : t.reduceOption.length < t.length) (a : α) :
    ∃ e, FreeAt hash t a e := by
  classical
  -- fewer elements than slots, so some slot holds none
  obtain ⟨s, hs, hSlot⟩ := List.mem_iff_getElem.mp (List.reduceOption_length_lt_iff.mp hRoom)
  have hFree : ¬ Taken t s := by
    rintro ⟨b, hb⟩
    rw [List.getElem?_eq_getElem hs, hSlot] at hb
    cases hb
  obtain ⟨e, he, hEnd, hTaken⟩ := exists_first (hash a) hs hFree
  exact ⟨e, he, hEnd, hTaken⟩

theorem FreeAt.probe_lt (h : FreeAt hash t a e) (i : Nat) : probe t.length (hash a) i < t.length :=
  Lib.probe_lt (by have := h.lt; omega) _ _

/-- An element that is held is seen by the search for it. -/
theorem Findable.before (h : Findable hash t) (hEnd : FreeAt hash t a e)
    (hs : t[s]? = some (some a)) : ∃ i < e, probe t.length (hash a) i = s := by
  obtain ⟨i, hi, -, hProbe⟩ := (h.path s a hs).before_first hEnd.free ⟨a, hs⟩
  exact ⟨i, hi, hProbe⟩

theorem findable_replicate (n : Nat) : Findable hash (List.replicate n none) where
  path s a hs := by
    rw [List.getElem?_replicate] at hs
    split at hs <;> cases hs
  nodup := by simp [List.reduceOption_replicate_none]

/-- A free slot that is taken adds one element. -/
theorem reduceOption_set (hs : s < t.length) (hFree : ¬ Taken t s) :
    (t.set s (some a)).reduceOption.Perm (a :: t.reduceOption) := by
  -- the slots before and after are untouched, and the slot itself held nothing
  have hNone : t[s] = none := by
    have hSlot := getElem?_of_free hs hFree
    rw [List.getElem?_eq_getElem hs] at hSlot
    exact Option.some.inj hSlot
  have hSplit : t.reduceOption = (t.take s).reduceOption ++ (t.drop (s + 1)).reduceOption := by
    conv_lhs => rw [← List.take_append_drop s t, List.drop_eq_getElem_cons hs, hNone]
    rw [List.reduceOption_append, List.reduceOption_cons_of_none]
  rw [List.set_eq_take_append_cons_drop, if_pos hs, List.reduceOption_append,
    List.reduceOption_cons_of_some, hSplit]
  exact List.perm_middle

theorem Taken.set (h : Taken t s) (i : Nat) : Taken (t.set i (some a)) s := by
  obtain ⟨b, hb⟩ := h
  rw [Taken, List.getElem?_set]
  split
  · rename_i hEq
    subst hEq
    rw [if_pos (List.getElem?_eq_some_iff.mp hb).1]
    exact ⟨a, rfl⟩
  · exact ⟨b, hb⟩

/-- The end of the search for a new element is the place for it. -/
theorem Findable.put (h : Findable hash t) (hNew : a ∉ t.reduceOption) (hEnd : FreeAt hash t a e) :
    Findable hash (t.set (probe t.length (hash a) e) (some a)) where
  path s b hs := by
    rw [List.length_set]
    rw [List.getElem?_set] at hs
    split at hs
    · -- the new element: all slots before its own were taken
      rename_i hEq
      rw [if_pos (hEnd.probe_lt e)] at hs
      cases hs
      exact ⟨e, hEnd.lt, hEq, fun i hi => (hEnd.taken i hi).set _⟩
    · -- for the others taking one more slot closes no path
      exact (h.path s b hs).mono fun s' hs' => hs'.set _
  nodup := (reduceOption_set (hEnd.probe_lt e) hEnd.free).nodup_iff.mpr
    (List.nodup_cons.mpr ⟨hNew, h.nodup⟩)

end DnsRs.Lib
