import DnsRs.Cache.State

/-!
# A first-fit allocator

An allocator that meets `Allocator.Lawful`: it keeps the list of allocations
and takes the lowest place, at the start of the pool or right behind an
allocation, where the new one fits. Sizes are rounded as the crate does, to
whole words and at least two of them. The crate also refuses a hole of which
something, but less than two words, would be left over, because it keeps its
list of holes in them; this one does not. `Allocator.Lawful` allows both.
-/

namespace DnsRs.Cache

open Lib

namespace FirstFit

structure Heap where
  size : Nat
  spans : List (Nat × Nat)
  deriving DecidableEq, Repr

/-- The bytes an allocation of `n` takes. -/
def block (n : Nat) : Nat := (max n 16 + 7) / 8 * 8

/-- An allocation of `n` bytes at `offset` lies in the pool and overlaps
nothing. -/
def fits (h : Heap) (n offset : Nat) : Bool :=
  decide (offset + block n ≤ h.size) &&
    h.spans.all fun s => decide (offset + block n ≤ s.1 ∨ s.1 + block s.2 ≤ offset)

def insertSorted (x : Nat) : List Nat → List Nat
  | [] => [x]
  | y :: l => if x ≤ y then x :: y :: l else y :: insertSorted x l

/-- The places to try, in ascending order. -/
def places (h : Heap) : List Nat :=
  h.spans.foldr (fun s l => insertSorted (s.1 + block s.2) l) [0]

def allocateFirstFit (h : Heap) (n : Nat) : Option (Nat × Heap) :=
  ((places h).find? (fits h n)).map fun offset => (offset, { h with spans := (offset, n) :: h.spans })

def allocator : Allocator Heap where
  new := fun size => ⟨size, []⟩
  allocateFirstFit := allocateFirstFit
  deallocate := fun h offset n => { h with spans := h.spans.erase (offset, n) }
  poolSize := Heap.size
  spans := Heap.spans
  block := block

theorem allocateFirstFit_eq_some {h h' : Heap} {n offset : Nat}
    (hAlloc : allocateFirstFit h n = some (offset, h')) :
    fits h n offset = true ∧ h' = { h with spans := (offset, n) :: h.spans } := by
  rw [allocateFirstFit, Option.map_eq_some_iff] at hAlloc
  obtain ⟨place, hFind, hEq⟩ := hAlloc
  rw [Prod.mk.injEq] at hEq
  obtain ⟨rfl, rfl⟩ := hEq
  exact ⟨List.find?_some hFind, rfl⟩

theorem allocator_lawful : allocator.Lawful where
  block_pos := fun n => by
    change 0 < block n
    rw [block]
    omega
  le_block := fun n => by
    change n ≤ block n
    rw [block]
    omega
  poolSize_new := fun _ => rfl
  poolSize_allocate := fun hAlloc => by
    rw [(allocateFirstFit_eq_some hAlloc).2]
    rfl
  poolSize_deallocate := fun _ => rfl
  spans_allocate := fun hAlloc => by
    rw [(allocateFirstFit_eq_some hAlloc).2]
    rfl
  inside := fun hAlloc => by
    have hFits := (allocateFirstFit_eq_some hAlloc).1
    rw [fits, Bool.and_eq_true, decide_eq_true_iff] at hFits
    exact hFits.1
  disjoint := fun hAlloc s hs => by
    have hFits := (allocateFirstFit_eq_some hAlloc).1
    rw [fits, Bool.and_eq_true, List.all_eq_true] at hFits
    have hApart := hFits.2 s hs
    rw [decide_eq_true_iff] at hApart
    exact hApart
  spans_deallocate := fun _ => rfl

end FirstFit

end DnsRs.Cache
