import Mathlib.Logic.Function.Basic
import Mathlib.Data.List.Nodup
import Mathlib.Tactic.Common

/-!
# Doubly linked lists over indexes

A list threaded through two functions `nxt` and `prv` on indexes, with a
sentinel `z` for "no neighbour" and the two ends kept apart. `Links nxt prv p l
q` is the segment `l` between the neighbours `p` and `q`; `Threaded` is the
whole list.

* `Threaded.unlink` — what taking one index out has to change.
* `Threaded.pushFront` — what putting one in front has to change.
-/

namespace DnsRs.Lib

/-- The segment `l`, entered from `p` and left to `q`. -/
def Links (nxt prv : Nat → Nat) : Nat → List Nat → Nat → Prop
  | _, [], _ => True
  | p, a :: l, q => prv a = p ∧ nxt a = l.headD q ∧ Links nxt prv a l q

variable {nxt prv nxt' prv' : Nat → Nat} {p q z head tail a : Nat} {l l₁ l₂ : List Nat}

/-- A segment depends on the links of its own members. -/
theorem Links.congr (h : Links nxt prv p l q) (hNxt : ∀ x ∈ l, nxt' x = nxt x)
    (hPrv : ∀ x ∈ l, prv' x = prv x) : Links nxt' prv' p l q := by
  induction l generalizing p with
  | nil => trivial
  | cons b l ih =>
    obtain ⟨hp, hn, hRest⟩ := h
    refine ⟨?_, ?_, ?_⟩
    · rw [hPrv b List.mem_cons_self, hp]
    · rw [hNxt b List.mem_cons_self, hn]
    · exact ih hRest (fun x hx => hNxt x (List.mem_cons_of_mem _ hx))
        fun x hx => hPrv x (List.mem_cons_of_mem _ hx)

theorem links_append :
    Links nxt prv p (l₁ ++ l₂) q ↔
      Links nxt prv p l₁ (l₂.headD q) ∧ Links nxt prv (l₁.getLastD p) l₂ q := by
  induction l₁ generalizing p with
  | nil => simp [Links]
  | cons b l₁ ih =>
    have hHead : (l₁ ++ l₂).headD q = l₁.headD (l₂.headD q) := by
      cases l₁ <;> rfl
    simp only [List.cons_append, Links, ih, hHead, List.getLastD_cons, and_assoc]

theorem getLastD_append : (l₁ ++ l₂).getLastD z = l₂.getLastD (l₁.getLastD z) := by
  induction l₁ generalizing z with
  | nil => rfl
  | cons b l₁ ih => rw [List.cons_append, List.getLastD_cons, List.getLastD_cons, ih]

/-- The default does not matter for a list that has a last member. -/
theorem getLastD_of_ne_nil (h : l ≠ []) : l.getLastD p = l.getLastD q := by
  cases l with
  | nil => exact absurd rfl h
  | cons b l => rw [List.getLastD_cons, List.getLastD_cons]

theorem getLastD_mem (h : l ≠ []) : l.getLastD z ∈ l := by
  induction l generalizing z with
  | nil => exact absurd rfl h
  | cons b l ih =>
    rw [List.getLastD_cons]
    by_cases hl : l = []
    · rw [hl]
      exact List.mem_cons_self
    · exact List.mem_cons_of_mem _ (ih hl)

theorem headD_mem (h : l ≠ []) : l.headD z ∈ l := by
  cases l with
  | nil => exact absurd rfl h
  | cons b l => exact List.mem_cons_self

/-- A sentinel is the first member only of the empty list. -/
theorem headD_eq_iff (hz : z ∉ l) : l.headD z = z ↔ l = [] := by
  constructor
  · intro hEq
    by_contra hne
    exact hz (hEq ▸ headD_mem hne)
  · rintro rfl
    rfl

/-- A sentinel is the last member only of the empty list. -/
theorem getLastD_eq_iff (hz : z ∉ l) : l.getLastD z = z ↔ l = [] := by
  constructor
  · intro hEq
    by_contra hne
    exact hz (hEq ▸ getLastD_mem hne)
  · rintro rfl
    rfl

/-- The last member of a segment is given another successor. -/
theorem Links.setNext (h : Links nxt prv p l q) (hNodup : l.Nodup) (hne : l ≠ []) (q' : Nat) :
    Links (Function.update nxt (l.getLastD p) q') prv p l q' := by
  induction l generalizing p with
  | nil => exact absurd rfl hne
  | cons b l ih =>
    obtain ⟨hp, hn, hRest⟩ := h
    rw [List.nodup_cons] at hNodup
    rw [List.getLastD_cons]
    cases l with
    | nil => exact ⟨hp, Function.update_self .., trivial⟩
    | cons c l =>
      -- the last member is further on, so `b` keeps its successor
      have hLast : (c :: l).getLastD b ≠ b := fun hEq =>
        hNodup.1 (hEq ▸ getLastD_mem (by simp))
      refine ⟨hp, ?_, ih hRest hNodup.2 (by simp)⟩
      rw [Function.update_of_ne hLast.symm]
      exact hn

/-- The first member of a segment is given another predecessor. -/
theorem Links.setPrev (h : Links nxt prv p l q) (hNodup : l.Nodup) (hne : l ≠ []) (p' : Nat) :
    Links nxt (Function.update prv (l.headD q) p') p' l q := by
  cases l with
  | nil => exact absurd rfl hne
  | cons b l =>
    obtain ⟨-, hn, hRest⟩ := h
    rw [List.nodup_cons] at hNodup
    refine ⟨Function.update_self .., hn, hRest.congr (fun _ _ => rfl) fun x hx => ?_⟩
    have hNe : x ≠ b := fun hEq => hNodup.1 (hEq ▸ hx)
    exact Function.update_of_ne hNe ..

/-- The list `l`, with its ends and its sentinel. -/
structure Threaded (nxt prv : Nat → Nat) (z head tail : Nat) (l : List Nat) : Prop where
  links : Links nxt prv z l z
  nodup : l.Nodup
  proper : z ∉ l
  head_eq : head = l.headD z
  tail_eq : tail = l.getLastD z

/-- The head is the sentinel exactly when there is nothing to point to. -/
theorem Threaded.head_eq_iff (h : Threaded nxt prv z head tail l) : head = z ↔ l = [] := by
  rw [h.head_eq]
  exact headD_eq_iff h.proper

theorem Threaded.tail_eq_iff (h : Threaded nxt prv z head tail l) : tail = z ↔ l = [] := by
  rw [h.tail_eq]
  exact getLastD_eq_iff h.proper

/-- The neighbours of a member. -/
theorem Threaded.neighbours (h : Threaded nxt prv z head tail (l₁ ++ a :: l₂)) :
    prv a = l₁.getLastD z ∧ nxt a = l₂.headD z := by
  obtain ⟨-, hp, hn, -⟩ := links_append.mp h.links
  exact ⟨hp, hn⟩

/-- A list with a member, seen from that member. -/
theorem Threaded.neighbour_ne (h : Threaded nxt prv z head tail (l₁ ++ a :: l₂)) :
    (prv a = z ↔ l₁ = []) ∧ (nxt a = z ↔ l₂ = []) := by
  obtain ⟨hp, hn⟩ := h.neighbours
  have hProper := h.proper
  rw [List.mem_append, not_or, List.mem_cons, not_or] at hProper
  rw [hp, hn]
  exact ⟨getLastD_eq_iff hProper.1, headD_eq_iff hProper.2.2⟩

/-- **Unlink.** The neighbours of `a`, or the ends in their place, are joined. -/
theorem Threaded.unlink (h : Threaded nxt prv z head tail (l₁ ++ a :: l₂)) :
    Threaded
      (if prv a = z then nxt else Function.update nxt (prv a) (nxt a))
      (if nxt a = z then prv else Function.update prv (nxt a) (prv a))
      z (if prv a = z then nxt a else head) (if nxt a = z then prv a else tail) (l₁ ++ l₂) := by
  obtain ⟨hp, hn⟩ := h.neighbours
  obtain ⟨hFirst, hLast⟩ := h.neighbour_ne
  obtain ⟨hBefore, -, -, hAfter⟩ := links_append.mp h.links
  have hNodup := h.nodup
  rw [List.nodup_append, List.nodup_cons] at hNodup
  obtain ⟨hNodup₁, ⟨-, hNodup₂⟩, hDisjoint⟩ := hNodup
  have hApart : ∀ x ∈ l₁, ∀ y ∈ l₂, x ≠ y := fun x hx y hy =>
    hDisjoint x hx y (List.mem_cons_of_mem _ hy)
  have hSub : (l₁ ++ l₂).Sublist (l₁ ++ a :: l₂) := (List.sublist_cons_self a l₂).append_left l₁
  -- the part before `a` now leads to the part after it, and back
  have hLinks₁ : Links (if prv a = z then nxt else Function.update nxt (prv a) (nxt a)) prv
      z l₁ (nxt a) := by
    by_cases hEmpty : l₁ = []
    · rw [hEmpty]
      trivial
    · rw [if_neg (fun hz => hEmpty (hFirst.mp hz)), hp]
      exact hBefore.setNext hNodup₁ hEmpty _
  have hLinks₂ : Links nxt (if nxt a = z then prv else Function.update prv (nxt a) (prv a))
      (prv a) l₂ z := by
    by_cases hEmpty : l₂ = []
    · rw [hEmpty]
      trivial
    · rw [if_neg (fun hz => hEmpty (hLast.mp hz)), hn]
      exact hAfter.setPrev hNodup₂ hEmpty _
  constructor
  case links =>
    refine links_append.mpr ⟨?_, ?_⟩
    · -- the predecessor that changed belongs to a member after `a`
      rw [← hn]
      refine hLinks₁.congr (fun _ _ => rfl) fun x hx => ?_
      split
      · rfl
      · rename_i hne
        rw [Function.update_of_ne]
        exact hApart x hx _ (hn ▸ headD_mem fun hEmpty => hne (hLast.mpr hEmpty))
    · -- the successor that changed belongs to a member before `a`
      rw [← hp]
      refine hLinks₂.congr (fun x hx => ?_) fun _ _ => rfl
      split
      · rfl
      · rename_i hne
        rw [Function.update_of_ne]
        exact (hApart _ (hp ▸ getLastD_mem fun hEmpty => hne (hFirst.mpr hEmpty)) x hx).symm
  case nodup => exact h.nodup.sublist hSub
  case proper => exact fun hz => h.proper (hSub.subset hz)
  case head_eq =>
    cases l₁ with
    | nil => rw [if_pos (hFirst.mpr rfl), hn, List.nil_append]
    | cons b l₁ =>
      rw [if_neg (fun hz => by simpa using hFirst.mp hz)]
      exact h.head_eq
  case tail_eq =>
    -- only a last member leaves the tail to its predecessor
    by_cases hEmpty : l₂ = []
    · rw [if_pos (hLast.mpr hEmpty), hp, hEmpty, List.append_nil]
    · rw [if_neg fun hz => hEmpty (hLast.mp hz), h.tail_eq, getLastD_append, getLastD_append,
        List.getLastD_cons]
      exact getLastD_of_ne_nil hEmpty

/-- **Push to the front.** -/
theorem Threaded.pushFront (h : Threaded nxt prv z head tail l) (ha : a ∉ l) (haz : a ≠ z) :
    Threaded (Function.update nxt a head)
      (if head = z then Function.update prv a z
        else Function.update (Function.update prv a z) head a)
      z a (if tail = z then a else tail) (a :: l) := by
  have hOther : ∀ x ∈ l, x ≠ a := fun x hx hEq => ha (hEq ▸ hx)
  have hHead : head = z ↔ l = [] := h.head_eq_iff
  have hTail : tail = z ↔ l = [] := h.tail_eq_iff
  constructor
  case links =>
    refine ⟨?_, ?_, ?_⟩
    · -- the old head, if there is one, is another node than `a`
      split
      · exact Function.update_self ..
      · rename_i hne
        have hMem : head ∈ l := h.head_eq ▸ headD_mem fun hEmpty => hne (hHead.mpr hEmpty)
        rw [Function.update_of_ne (hOther head hMem).symm, Function.update_self]
    · rw [Function.update_self, h.head_eq]
    · by_cases hEmpty : l = []
      · rw [hEmpty]
        trivial
      · rw [if_neg fun hz => hEmpty (hHead.mp hz)]
        -- the links of the old members stay, but for the way back from the old head
        have hLinks : Links (Function.update nxt a head) (Function.update prv a z) z l z :=
          h.links.congr (fun x hx => Function.update_of_ne (hOther x hx) ..)
            fun x hx => Function.update_of_ne (hOther x hx) ..
        have := hLinks.setPrev h.nodup hEmpty a
        rwa [← h.head_eq] at this
  case nodup => exact List.nodup_cons.mpr ⟨ha, h.nodup⟩
  case proper =>
    rw [List.mem_cons, not_or]
    exact ⟨haz.symm, h.proper⟩
  case head_eq => rfl
  case tail_eq =>
    rw [List.getLastD_cons]
    split
    · rw [hTail.mp ‹_›]
      rfl
    · rename_i hne
      rw [h.tail_eq]
      exact getLastD_of_ne_nil fun hEmpty => hne (hTail.mpr hEmpty)

/-! ## Reading the list -/

/-- The nodes met by following `nxt` up to the sentinel. -/
def follow (nxt : Nat → Nat) (z : Nat) : Nat → Nat → List Nat
  | 0, _ => []
  | fuel + 1, i => if i = z then [] else i :: follow nxt z fuel (nxt i)

/-- Following `nxt` from the first node visits the list. -/
theorem Links.follow (h : Links nxt prv p l z) (hProper : z ∉ l) {fuel : Nat}
    (hFuel : l.length ≤ fuel) : Lib.follow nxt z fuel (l.headD z) = l := by
  induction l generalizing p fuel with
  | nil =>
    cases fuel with
    | zero => rfl
    | succ fuel => exact if_pos rfl
  | cons a l ih =>
    obtain ⟨-, hn, hRest⟩ := h
    rw [List.mem_cons, not_or] at hProper
    cases fuel with
    | zero => cases hFuel
    | succ fuel =>
      have hTail := ih hRest hProper.2 (Nat.le_of_succ_le_succ hFuel)
      rw [List.headD_cons, Lib.follow, if_neg (Ne.symm hProper.1), hn, hTail]

/-- The links and the head determine the list. -/
theorem Threaded.unique {prv' : Nat → Nat} {tail' : Nat} {l' : List Nat}
    (h : Threaded nxt prv z head tail l) (h' : Threaded nxt prv' z head tail' l') : l = l' := by
  have hFollow := h.links.follow h.proper (Nat.le_max_left l.length l'.length)
  have hFollow' := h'.links.follow h'.proper (Nat.le_max_right l.length l'.length)
  rw [← h.head_eq, h'.head_eq] at hFollow
  exact hFollow.symm.trans hFollow'

/-- `prv` is the inverse of `nxt`. -/
theorem Threaded.inverse (h : Threaded nxt prv z head tail l) {i j : Nat} (hi : i ∈ l)
    (hj : j ∈ l) : nxt i = j ↔ prv j = i := by
  constructor
  · intro hNext
    obtain ⟨l₁, l₂, rfl⟩ := List.append_of_mem hi
    have hn := h.neighbours.2
    -- `j` is the member after `i`, since the sentinel is no member
    cases l₂ with
    | nil =>
      obtain rfl : z = j := hn.symm.trans hNext
      exact absurd hj h.proper
    | cons b l₂ =>
      obtain rfl : b = j := hn.symm.trans hNext
      have hSplit : l₁ ++ i :: b :: l₂ = (l₁ ++ [i]) ++ b :: l₂ := by simp
      rw [hSplit] at h
      rw [h.neighbours.1, getLastD_append]
      rfl
  · intro hPrev
    obtain ⟨l₁, l₂, rfl⟩ := List.append_of_mem hj
    have hp := h.neighbours.1
    -- likewise `i` is the member before `j`
    rcases List.eq_nil_or_concat l₁ with rfl | ⟨l₁, b, rfl⟩
    · obtain rfl : z = i := hp.symm.trans hPrev
      exact absurd hi h.proper
    · rw [List.concat_eq_append] at h hp
      have hLast : (l₁ ++ [b]).getLastD z = b := by
        rw [getLastD_append]
        rfl
      obtain rfl : b = i := hLast.symm.trans (hp.symm.trans hPrev)
      have hSplit : (l₁ ++ [b]) ++ j :: l₂ = l₁ ++ b :: j :: l₂ := by simp
      rw [hSplit] at h
      exact h.neighbours.2

/-- The two ends have no neighbour beyond them. -/
theorem Threaded.ends (h : Threaded nxt prv z head tail l) (hne : l ≠ []) :
    prv head = z ∧ nxt tail = z := by
  constructor
  · cases l with
    | nil => exact absurd rfl hne
    | cons a l =>
      rw [h.head_eq]
      exact h.links.1
  · rcases List.eq_nil_or_concat l with rfl | ⟨l, a, rfl⟩
    · exact absurd rfl hne
    · rw [List.concat_eq_append] at h
      have hTail := h.tail_eq
      rw [getLastD_append] at hTail
      rw [hTail]
      exact h.neighbours.2

end DnsRs.Lib
