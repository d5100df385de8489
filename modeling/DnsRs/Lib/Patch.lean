import DnsRs.Lib.Slice

/-!
# Patched buffers

A buffer some of whose fields have been replaced. A field is given by its offset and
its new contents; what a buffer becomes is determined by its fields
(`Patched.unique`), patches over the same fields compose, the later one winning
(`Patched.trans`), and a patch is made one field after the other (`Patched.cons`).
-/

namespace DnsRs.Lib

variable {α : Type} {a b c : List α} {fields : List (Nat × List α)}

/-- The offset lies in the field. -/
def InField (f : Nat × List α) (i : Nat) : Prop := f.1 ≤ i ∧ i < f.1 + f.2.length

/-- `b` is `a` with these fields replaced. -/
structure Patched (fields : List (Nat × List α)) (a b : List α) : Prop where
  length : b.length = a.length
  stands : ∀ f ∈ fields, Stands b f.1 f.2
  same : ∀ i, (∀ f ∈ fields, ¬ InField f i) → b[i]? = a[i]?

/-- Fields that are there already. -/
theorem Patched.refl (h : ∀ f ∈ fields, Stands a f.1 f.2) : Patched fields a a :=
  ⟨rfl, h, fun _ _ => rfl⟩

theorem Patched.unique (hb : Patched fields a b) (hc : Patched fields a c) : b = c := by
  refine List.ext_getElem? fun i => ?_
  by_cases h : ∃ f ∈ fields, InField f i
  · obtain ⟨f, hf, hStart, hEnd⟩ := h
    have hi : i - f.1 < f.2.length := by omega
    have hb' := (hb.stands f hf).getElem? hi
    have hc' := (hc.stands f hf).getElem? hi
    rw [Nat.add_sub_cancel' hStart] at hb' hc'
    rw [hb', hc']
  · have hOutside : ∀ f ∈ fields, ¬ InField f i := fun f hf hIn => h ⟨f, hf, hIn⟩
    rw [hb.same i hOutside, hc.same i hOutside]

/-- The fields of a first patch are replaced again by a second one. -/
theorem Patched.trans {fields' : List (Nat × List α)} (h : Patched fields a b)
    (h' : Patched fields' b c)
    (hCover : ∀ f ∈ fields, ∃ f' ∈ fields', f'.1 = f.1 ∧ f'.2.length = f.2.length) :
    Patched fields' a c := by
  refine ⟨h'.length.trans h.length, h'.stands, fun i hi => (h'.same i hi).trans (h.same i ?_)⟩
  intro f hf hIn
  obtain ⟨f', hf', hStart, hLen⟩ := hCover f hf
  refine hi f' hf' ?_
  rwa [InField, hStart, hLen]

theorem patched_writeAt {off : Nat} {data : List α} (h : off + data.length ≤ a.length) :
    Patched [(off, data)] a (writeAt a off data) := by
  refine ⟨length_writeAt h, fun f hf => ?_, fun i hi => ?_⟩
  · rw [List.mem_singleton] at hf
    subst hf
    refine stands_of_getElem? fun i hi => ?_
    dsimp only at hi ⊢
    rw [getElem?_writeAt h, if_pos (by omega), Nat.add_sub_cancel_left]
  · rw [getElem?_writeAt h]
    exact if_neg (hi _ List.mem_cons_self)

/-- One field, and then others that do not meet it. -/
theorem Patched.cons {f : Nat × List α} (h : Patched [f] a b) (h' : Patched fields b c)
    (hDisj : ∀ g ∈ fields, ∀ i, InField f i → ¬ InField g i) : Patched (f :: fields) a c := by
  refine ⟨h'.length.trans h.length, fun g hg => ?_, fun i hi => ?_⟩
  · rcases List.mem_cons.mp hg with rfl | hg
    · refine stands_of_getElem? fun i hi => ?_
      have hIn : InField g (g.1 + i) := ⟨by omega, by omega⟩
      rw [h'.same _ fun f hf => hDisj f hf _ hIn,
        (h.stands g List.mem_cons_self).getElem? hi]
    · exact h'.stands g hg
  · rw [h'.same i fun g hg => hi g (List.mem_cons_of_mem _ hg), h.same i fun g hg => ?_]
    rw [List.mem_singleton] at hg
    exact hg ▸ hi f List.mem_cons_self

end DnsRs.Lib
