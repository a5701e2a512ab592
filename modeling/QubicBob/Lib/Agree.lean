import Mathlib.Logic.Basic

set_option autoImplicit false

/-! # Computations that agree on a part of their result

`AgreeOn proj x y` says that two computations fail alike or return results with the same `proj`.
The rules follow the shape of a program: to show that a program does not look at some part of its
state, run it on two states that differ in this part and go through it step by step.
-/

variable {ε σ τ σ' τ' α : Type}

def AgreeOn (proj : σ → τ) (x y : Except ε σ) : Prop := x.map proj = y.map proj

namespace AgreeOn

variable {proj : σ → τ}

theorem refl (x : Except ε σ) : AgreeOn proj x x := rfl

theorem ok {a b : σ} (h : proj a = proj b) : AgreeOn proj (.ok a : Except ε σ) (.ok b) :=
  congrArg Except.ok h

/-- A step that both computations make in the same way. -/
theorem bind_same (x : Except ε α) {f g : α → Except ε σ}
    (h : ∀ a, AgreeOn proj (f a) (g a)) : AgreeOn proj (x >>= f) (x >>= g) := by
  cases x with
  | error e => exact rfl
  | ok a => exact h a

/-- A step in which they agree on what the rest looks at. -/
theorem bind {proj' : σ' → τ'} {x y : Except ε σ'} {f g : σ' → Except ε σ}
    (h : AgreeOn proj' x y) (hrest : ∀ a b, proj' a = proj' b → AgreeOn proj (f a) (g b)) :
    AgreeOn proj (x >>= f) (y >>= g) := by
  cases x with
  | error e =>
      cases y with
      | error e' => exact congrArg Except.error (Except.error.inj h)
      | ok b => exact absurd h (by simp [AgreeOn, Except.map])
  | ok a =>
      cases y with
      | error e' => exact absurd h (by simp [AgreeOn, Except.map])
      | ok b => exact hrest a b (Except.ok.inj h)

theorem ite {c : Prop} [Decidable c] {x y x' y' : Except ε σ} (h : AgreeOn proj x y)
    (h' : AgreeOn proj x' y') : AgreeOn proj (if c then x else x') (if c then y else y') := by
  by_cases hc : c
  · rw [if_pos hc, if_pos hc]
    exact h
  · rw [if_neg hc, if_neg hc]
    exact h'

/-- If one returns, so does the other. -/
theorem exists_ok {x y : Except ε σ} (h : AgreeOn proj x y) {a : σ} (hx : x = .ok a) :
    ∃ b, y = .ok b ∧ proj b = proj a := by
  rw [hx] at h
  cases y with
  | error e => exact absurd h (by simp [AgreeOn, Except.map])
  | ok b => exact ⟨b, rfl, (Except.ok.inj h).symm⟩

end AgreeOn
