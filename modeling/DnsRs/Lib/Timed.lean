import DnsRs.Lib.Run

/-!
# Components with a clock

`act now s a` is a component that is told the time; `due s a` is when its event `a` is due, if
it is waited for at all. `Timed.step` adds the clock. Time passes by a step of its own, and an
event happens when it is due or at any moment after that.

A run is `Prompt` if time never passes an event that is due: what is ready is polled before the
clock moves on. `prompt_invariant` is the rule for such runs. Nothing is ever overdue
(`Punctual`), so a state that still waits for an event is at most at the time it is due. That
is how latencies are read off states.
-/

namespace DnsRs.Lib.Timed

variable {σ ι : Type}

structure State (σ : Type) where
  now : Nat
  state : σ

inductive Label (ι : Type) where
  /-- time passes -/
  | pass (duration : Nat)
  /-- an event that is due -/
  | act (a : ι)

section Step

variable (act : Nat → σ → ι → Option σ) (due : σ → ι → Option Nat)

/-- The event is due by now. -/
def Due (s : State σ) (a : ι) : Prop := ∃ t ∈ due s.state a, t ≤ s.now

instance Due.decidable (s : State σ) (a : ι) : Decidable (Due due s a) :=
  inferInstanceAs (Decidable (∃ t ∈ due s.state a, t ≤ s.now))

def step (s : State σ) : Label ι → Option (State σ)
  | .pass duration => some { s with now := s.now + duration }
  | .act a => if Due due s a then (act s.now s.state a).map fun u => ⟨s.now, u⟩ else none

/-- Time does not pass what is due. -/
def Prompt (s : State σ) : Label ι → Prop
  | .pass duration => ∀ a, ∀ t ∈ due s.state a, s.now + duration ≤ t
  | .act _ => True

/-- Nothing is overdue. -/
def Punctual (now : Nat) (s : σ) : Prop := ∀ a, ∀ t ∈ due s a, now ≤ t

end Step

variable {act : Nat → σ → ι → Option σ} {due : σ → ι → Option Nat}

theorem step_act_eq_some {s u : State σ} {a : ι} :
    step act due s (.act a) = some u ↔
      Due due s a ∧ ∃ v, act s.now s.state a = some v ∧ u = ⟨s.now, v⟩ := by
  show (if Due due s a then (act s.now s.state a).map _ else none) = some u ↔ _
  split
  · rename_i hDue
    rw [Option.map_eq_some_iff]
    exact ⟨fun ⟨v, hv, hEq⟩ => ⟨hDue, v, hv, hEq.symm⟩, fun ⟨_, v, hv, hEq⟩ => ⟨v, hv, hEq.symm⟩⟩
  · rename_i hDue
    exact ⟨fun h => (by cases h), fun h => absurd h.1 hDue⟩

/-- **Prompt runs.** What time and the events that are due preserve holds throughout, and nothing
is ever overdue, if no event leaves another one behind that should have happened before. -/
theorem prompt_invariant {I : Nat → σ → Prop}
    (hPass : ∀ now s duration, I now s → I (now + duration) s)
    (hAct : ∀ now s a u, I now s → Punctual due now s → Due due ⟨now, s⟩ a →
      act now s a = some u → I now u ∧ Punctual due now u)
    {s u : State σ} {labels : List (Label ι)} (hs : I s.now s.state)
    (hPunctual : Punctual due s.now s.state)
    (hPrompt : Guarded (step act due) (Prompt due) s labels)
    (hRun : run (step act due) s labels = some u) :
    I u.now u.state ∧ Punctual due u.now u.state := by
  refine run_invariant_guarded (I := fun s => I s.now s.state ∧ Punctual due s.now s.state)
    ?_ ⟨hs, hPunctual⟩ hPrompt hRun
  rintro s label t ⟨hI, hPunctual⟩ hGuard hStep
  cases label with
  | pass duration =>
    cases hStep
    exact ⟨hPass _ _ _ hI, fun a t ht => hGuard a t ht⟩
  | act a =>
    obtain ⟨hDue, v, hv, rfl⟩ := step_act_eq_some.mp hStep
    exact hAct _ _ a v hI hPunctual hDue hv

end DnsRs.Lib.Timed
