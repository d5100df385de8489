import Mathlib.Tactic

/-!
# Outcomes of Rust computations

A Rust function either returns, panics, or loops forever. Functions are
embedded in `Except Fault`, so that "never panics" and "always terminates"
are statements about the model and not conventions of it: a loop is run with
fuel, and running out of fuel is the outcome `hang`, not a default value.

A function that returns `Option` and uses the `?` operator is embedded in
`Except Exit`: `Exit.none` is the early `return None`, the other constructor
is a fault. `settle` turns such a computation back into one that returns an
`Option`.
-/

namespace DnsRs.Lib

/-- The ways a computation can fail to return. -/
inductive Fault where
  | panic
  | hang
  deriving DecidableEq, Repr

/-- The ways a function returning `Option` can stop early. -/
inductive Exit where
  | none
  | fault (f : Fault)
  deriving DecidableEq, Repr

instance : MonadLift (Except Fault) (Except Exit) where
  monadLift
    | .ok a => .ok a
    | .error f => .error (.fault f)

/-- The `Option` a `?`-style computation returns, unless it faults. -/
def settle {α : Type} : Except Exit α → Except Fault (Option α)
  | .ok a => .ok (some a)
  | .error .none => .ok none
  | .error (.fault f) => .error f

section Bind

variable {ε α β : Type}

/-- A sequence returns exactly when both halves do. -/
theorem bind_eq_ok {x : Except ε α} {f : α → Except ε β} {b : β} :
    (x >>= f) = .ok b ↔ ∃ a, x = .ok a ∧ f a = .ok b := by
  cases x with
  | ok a =>
    show f a = .ok b ↔ _
    constructor
    · intro h
      exact ⟨a, rfl, h⟩
    · rintro ⟨a', ha, h⟩
      cases ha
      exact h
  | error e =>
    constructor
    · intro h
      cases h
    · rintro ⟨a, ha, -⟩
      cases ha

@[simp] theorem ok_bind (a : α) (f : α → Except ε β) :
    ((Except.ok a : Except ε α) >>= f) = f a := rfl

@[simp] theorem error_bind (e : ε) (f : α → Except ε β) :
    ((Except.error e : Except ε α) >>= f) = .error e := rfl

@[simp] theorem pure_eq_ok (a : α) : (pure a : Except ε α) = .ok a := rfl

/-- What every turn of a loop keeps, the loop keeps. -/
theorem foldlM_keeps {f : β → α → Except ε β} {I : β → Prop}
    (hTurn : ∀ a b b', I b → f b a = .ok b' → I b') {l : List α} {b b' : β} (hStart : I b)
    (h : l.foldlM f b = .ok b') : I b' := by
  induction l generalizing b with
  | nil =>
    cases h
    exact hStart
  | cons a l ih =>
    rw [List.foldlM_cons] at h
    obtain ⟨b₁, hStep, h⟩ := bind_eq_ok.mp h
    exact ih (hTurn a b b₁ hStart hStep) h

/-- A loop returns when every turn of it does: `I` is what holds after the
elements in `done`. -/
theorem foldlM_eq_ok {f : β → α → Except ε β} {I : List α → β → Prop} {l : List α} {b : β}
    (hStart : I [] b)
    (hTurn : ∀ done a rest b, l = done ++ a :: rest → I done b →
      ∃ b', f b a = .ok b' ∧ I (done ++ [a]) b') :
    ∃ b', l.foldlM f b = .ok b' ∧ I l b' := by
  -- the loop from any point on
  have hFrom : ∀ (rest done : List α) (b : β), l = done ++ rest → I done b →
      ∃ b', rest.foldlM f b = .ok b' ∧ I l b' := by
    intro rest
    induction rest with
    | nil =>
      intro done b hl hb
      rw [List.append_nil] at hl
      exact ⟨b, rfl, hl ▸ hb⟩
    | cons a rest ih =>
      intro done b hl hb
      obtain ⟨b₁, hb₁, hI⟩ := hTurn done a rest b hl hb
      obtain ⟨b', hb', hEnd⟩ := ih (done ++ [a]) b₁ (by rw [hl]; simp) hI
      exact ⟨b', by rw [List.foldlM_cons, hb₁, ok_bind, hb'], hEnd⟩
  exact hFrom l [] b rfl hStart

end Bind

@[simp] theorem lift_ok {α : Type} (a : α) :
    (liftM (Except.ok a : Except Fault α) : Except Exit α) = .ok a := rfl

@[simp] theorem lift_error {α : Type} (f : Fault) :
    (liftM (Except.error f : Except Fault α) : Except Exit α) = .error (.fault f) := rfl

/-- A lifted computation returns exactly when the computation does. -/
theorem lift_eq_ok {α : Type} {x : Except Fault α} {a : α} :
    (liftM x : Except Exit α) = .ok a ↔ x = .ok a := by
  cases x with
  | ok b =>
    rw [lift_ok]
    simp
  | error f =>
    rw [lift_error]
    simp

theorem settle_eq_some {α : Type} {x : Except Exit α} {a : α} :
    settle x = .ok (some a) ↔ x = .ok a := by
  rcases x with (- | f) | b <;> simp [settle]

theorem toOption_eq_some {ε α : Type} {x : Except ε α} {a : α} :
    x.toOption = some a ↔ x = .ok a := by
  cases x with
  | ok | error => simp [Except.toOption]

/-! ## Computations without a fault -/

/-- A `?`-style computation that returns, or stops with `None`. -/
def NoFault {α : Type} (x : Except Exit α) : Prop := ∀ f, x ≠ .error (.fault f)

theorem NoFault.ok {α : Type} (a : α) : NoFault (.ok a : Except Exit α) := nofun

theorem NoFault.exit {α : Type} : NoFault (.error .none : Except Exit α) := nofun

theorem NoFault.bind {α β : Type} {x : Except Exit α} {g : α → Except Exit β} (hx : NoFault x)
    (hg : ∀ a, x = .ok a → NoFault (g a)) : NoFault (x >>= g) := by
  cases x with
  | ok a => exact hg a rfl
  | error e =>
    cases e with
    | none => exact NoFault.exit
    | fault f => exact absurd rfl (hx f)

theorem NoFault.lift {α : Type} {x : Except Fault α} {a : α} (h : x = .ok a) :
    NoFault (liftM x : Except Exit α) := by
  rw [h, lift_ok]
  exact .ok a

/-- Such a computation settles. -/
theorem NoFault.settle {α : Type} {x : Except Exit α} (hx : NoFault x) :
    Lib.settle x = .ok none ∨ ∃ a, x = .ok a ∧ Lib.settle x = .ok (some a) := by
  rcases x with (- | f) | a
  · exact .inl rfl
  · exact absurd rfl (hx f)
  · exact .inr ⟨a, rfl, rfl⟩

theorem NoFault.settle_eq {α : Type} {x : Except Exit α} (hx : NoFault x) :
    Lib.settle x = .ok x.toOption := by
  rcases x with (- | f) | a
  · rfl
  · exact absurd rfl (hx f)
  · rfl

theorem NoFault.settles {α : Type} {x : Except Exit α} (hx : NoFault x) :
    ∃ r, Lib.settle x = .ok r := by
  rcases hx.settle with hNone | ⟨a, -, hSome⟩
  · exact ⟨none, hNone⟩
  · exact ⟨some a, hSome⟩

end DnsRs.Lib
