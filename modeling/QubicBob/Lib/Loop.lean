import Mathlib.Tactic

set_option autoImplicit false

/-! # Loops that may not end

A loop is a step that either leaves it with a result or goes on in a new state. `run` is the loop
with a bound on the number of steps, `after` the state behind a number of steps that all went on.
Where the loop ends the result does not depend on the bound (`run_unique`); a loop that goes round in
an invariant does not end (`run_eq_none`), and one whose steps bring a measure down does
(`exists_run`).
-/

namespace Loop

variable {σ ρ : Type*}

/-- The result, where the loop is left within the given number of steps. -/
def run (step : σ → ρ ⊕ σ) : Nat → σ → Option ρ
  | 0, _ => none
  | n + 1, s => (step s).elim some fun s' => run step n s'

/-- The state behind the given number of steps, where none of them leaves the loop. -/
def after (step : σ → ρ ⊕ σ) : Nat → σ → Option σ
  | 0, s => some s
  | n + 1, s => (step s).elim (fun _ => none) fun s' => after step n s'

variable {step : σ → ρ ⊕ σ} {s s' : σ} {r r' : ρ} {n m : Nat}

theorem run_inl (h : step s = .inl r) : run step (n + 1) s = some r := by
  rw [run, h]
  rfl

theorem run_inr (h : step s = .inr s') : run step (n + 1) s = run step n s' := by
  rw [run, h]
  rfl

theorem after_inr (h : step s = .inr s') : after step (n + 1) s = after step n s' := by
  rw [after, h]
  rfl

/-- A larger bound gives the same result. -/
theorem run_add (m : Nat) (h : run step n s = some r) : run step (n + m) s = some r := by
  induction n generalizing s with
  | zero => cases h
  | succ n ih =>
      rw [Nat.add_right_comm]
      cases hs : step s with
      | inl r₀ =>
          rw [run_inl hs] at h ⊢
          exact h
      | inr s₀ =>
          rw [run_inr hs] at h ⊢
          exact ih h

theorem run_unique (h : run step n s = some r) (h' : run step m s = some r') : r = r' := by
  have h₁ := run_add m h
  rw [Nat.add_comm, run_add n h'] at h₁
  exact (Option.some.inj h₁).symm

/-- The bound is spent on the steps made. -/
theorem run_after (h : after step n s = some s') (m : Nat) :
    run step (n + m) s = run step m s' := by
  induction n generalizing s with
  | zero => rw [Option.some.inj h, Nat.zero_add]
  | succ n ih =>
      rw [Nat.add_right_comm]
      cases hs : step s with
      | inl r₀ =>
          rw [after, hs] at h
          cases h
      | inr s₀ =>
          rw [after_inr hs] at h
          rw [run_inr hs]
          exact ih h

/-- The state whose step leaves the loop. -/
theorem exists_after_of_run (h : run step n s = some r) :
    ∃ m s', after step m s = some s' ∧ step s' = .inl r := by
  induction n generalizing s with
  | zero => cases h
  | succ n ih =>
      cases hs : step s with
      | inl r₀ =>
          rw [run_inl hs] at h
          exact ⟨0, s, rfl, by rw [hs, Option.some.inj h]⟩
      | inr s₀ =>
          rw [run_inr hs] at h
          obtain ⟨m, s', hafter, hleave⟩ := ih h
          exact ⟨m + 1, s', by rw [after_inr hs, hafter], hleave⟩

/-- A loop that goes on from every state of an invariant does not end. -/
theorem run_eq_none {Inv : σ → Prop} (hstep : ∀ s, Inv s → ∃ s', step s = .inr s' ∧ Inv s')
    (hs : Inv s) (n : Nat) : run step n s = none := by
  induction n generalizing s with
  | zero => rfl
  | succ n ih =>
      obtain ⟨s', hgo, hs'⟩ := hstep s hs
      rw [run_inr hgo]
      exact ih hs'

/-- A loop ends when each of its steps leaves it or brings a measure down. -/
theorem exists_run (μ : σ → Nat) (hstep : ∀ n s', after step n s = some s' →
      (∃ r, step s' = .inl r) ∨ ∃ s'', step s' = .inr s'' ∧ μ s'' < μ s') :
    ∃ n r, run step n s = some r := by
  induction hμ : μ s using Nat.strongRecOn generalizing s with
  | ind k ih =>
      rcases hstep 0 s rfl with ⟨r, hr⟩ | ⟨s₀, hs₀, hlt⟩
      · exact ⟨1, r, run_inl hr⟩
      · have hrest : ∀ n s', after step n s₀ = some s' →
            (∃ r, step s' = .inl r) ∨ ∃ s'', step s' = .inr s'' ∧ μ s'' < μ s' :=
          fun n s' h => hstep (n + 1) s' (by rw [after_inr hs₀, h])
        obtain ⟨n, r, hn⟩ := ih (μ s₀) (hμ ▸ hlt) hrest rfl
        exact ⟨n + 1, r, by rw [run_inr hs₀, hn]⟩

end Loop
