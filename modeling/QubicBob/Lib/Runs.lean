import Mathlib.Tactic

set_option autoImplicit false

/-! # Runs of a step function

A system is a step function on states; a run is a list of steps. Conditions on a step are stated on
the state it is made in (`Guarded`), and two rules take facts about one step to whole runs: an
invariant that every guarded step keeps holds at the end of a guarded run (`run_invariant`;
`run_keeps` where there is no condition), and a relation between two systems that hidden steps of
the first keep and visible steps of both keep relates a run to the run without its hidden steps
(`run_unwind`). A `script` is a run whose steps are chosen call by call from the state reached. For
steps that may fail there are `runExcept` and `GuardedExcept`, with the rules that a guarded run
comes to its end (`runExcept_invariant`) and that a run that does has kept its invariants
(`runExcept_keeps`).
-/

namespace Runs

variable {σ α : Type*} {step : σ → α → σ} {ok : σ → α → Prop}

def run (step : σ → α → σ) (s : σ) (as : List α) : σ := as.foldl step s

@[simp] theorem run_nil (s : σ) : run step s [] = s := rfl

@[simp] theorem run_cons (s : σ) (a : α) (as : List α) :
    run step s (a :: as) = run step (step s a) as := rfl

/-- Every step of the run meets the condition in the state it is made in. -/
def Guarded (step : σ → α → σ) (ok : σ → α → Prop) : σ → List α → Prop
  | _, [] => True
  | s, a :: as => ok s a ∧ Guarded step ok (step s a) as

instance Guarded.decidable [∀ s a, Decidable (ok s a)] :
    ∀ (s : σ) (as : List α), Decidable (Guarded step ok s as)
  | _, [] => isTrue trivial
  | s, a :: as =>
      have := Guarded.decidable (step s a) as
      inferInstanceAs (Decidable (ok s a ∧ Guarded step ok (step s a) as))

/-- An invariant that every guarded step keeps. -/
theorem run_invariant {Inv : σ → Prop} (hstep : ∀ s a, Inv s → ok s a → Inv (step s a)) {s : σ}
    {as : List α} (hs : Inv s) (hok : Guarded step ok s as) : Inv (run step s as) := by
  induction as generalizing s with
  | nil => exact hs
  | cons a as ih => exact ih (hstep s a hs hok.1) hok.2

/-- An invariant that every step keeps. -/
theorem run_keeps {Inv : σ → Prop} (hstep : ∀ s a, Inv s → Inv (step s a)) {s : σ} (hs : Inv s)
    (as : List α) : Inv (run step s as) := by
  induction as generalizing s with
  | nil => exact hs
  | cons a as ih => exact ih (hstep s a hs)

/-- The condition in the middle of a run. -/
theorem Guarded.at {s : σ} {as bs : List α} {a : α} (hok : Guarded step ok s (as ++ a :: bs)) :
    ok (run step s as) a := by
  induction as generalizing s with
  | nil => exact hok.1
  | cons b as ih => exact ih hok.2

theorem Guarded.of_append {s : σ} {as bs : List α} (hok : Guarded step ok s (as ++ bs)) :
    Guarded step ok s as := by
  induction as generalizing s with
  | nil => exact trivial
  | cons a as ih => exact ⟨hok.1, ih hok.2⟩

theorem Guarded.and {ok' : σ → α → Prop} {s : σ} {as : List α} (h : Guarded step ok s as)
    (h' : Guarded step ok' s as) : Guarded step (fun s a => ok s a ∧ ok' s a) s as := by
  induction as generalizing s with
  | nil => exact trivial
  | cons a as ih => exact ⟨⟨h.1, h'.1⟩, ih h.2 h'.2⟩

theorem Guarded.mono {ok' : σ → α → Prop} {s : σ} {as : List α} (h : Guarded step ok s as)
    (hle : ∀ s a, ok s a → ok' s a) : Guarded step ok' s as := by
  induction as generalizing s with
  | nil => exact trivial
  | cons a as ih => exact ⟨hle s a h.1, ih h.2⟩

/-- A condition that another gives where an invariant holds. -/
theorem Guarded.of_invariant {Inv : σ → Prop} {ok' : σ → α → Prop}
    (hstep : ∀ s a, Inv s → ok s a → ok' s a ∧ (ok' s a → Inv (step s a))) {s : σ} {as : List α}
    (hs : Inv s) (hok : Guarded step ok s as) : Guarded step ok' s as := by
  induction as generalizing s with
  | nil => exact trivial
  | cons a as ih =>
      have h := hstep s a hs hok.1
      exact ⟨h.1, ih (h.2 h.1) hok.2⟩

/-- A condition on the steps alone. -/
theorem guarded_of_forall {q : α → Prop} {as : List α} (h : ∀ a ∈ as, q a) (s : σ) :
    Guarded step (fun _ a => q a) s as := by
  induction as generalizing s with
  | nil => exact trivial
  | cons a as ih =>
      exact ⟨h a List.mem_cons_self, ih (fun b hb => h b (List.mem_cons_of_mem a hb)) _⟩

/-- A run and the run without its hidden steps, in step with each other. -/
theorem run_unwind {R : σ → σ → Prop} {hidden : α → Bool}
    (hhidden : ∀ s t a, R s t → ok s a → hidden a = true → R (step s a) t)
    (hvisible : ∀ s t a, R s t → ok s a → hidden a = false → R (step s a) (step t a))
    {s t : σ} {as : List α} (hst : R s t) (hok : Guarded step ok s as) :
    R (run step s as) (run step t (as.filter (fun a => !hidden a))) := by
  induction as generalizing s t with
  | nil => exact hst
  | cons a as ih =>
      cases ha : hidden a with
      | true =>
          rw [List.filter_cons_of_neg (by simp [ha])]
          exact ih (hhidden s t a hst hok.1 ha) hok.2
      | false =>
          rw [List.filter_cons_of_pos (by simp [ha])]
          exact ih (hvisible s t a hst hok.1 ha) hok.2

/-! ## Scripts -/

section scripts

variable {β : Type*} {call : σ → β → List α}

theorem run_append (s : σ) (as bs : List α) : run step s (as ++ bs) = run step (run step s as) bs :=
  List.foldl_append

theorem guarded_append {s : σ} {as bs : List α} :
    Guarded step ok s (as ++ bs) ↔ Guarded step ok s as ∧ Guarded step ok (run step s as) bs := by
  induction as generalizing s with
  | nil => exact ⟨fun h => ⟨trivial, h⟩, fun h => h.2⟩
  | cons a as ih =>
      rw [List.cons_append, Guarded, Guarded, ih, run_cons, and_assoc]

/-- The steps of a list of calls, each of which chooses its steps by the state it is made in. -/
def script (step : σ → α → σ) (call : σ → β → List α) : σ → List β → List α
  | _, [] => []
  | s, b :: bs => call s b ++ script step call (run step s (call s b)) bs

/-- The steps of a script are those of its calls. -/
theorem mem_script {s : σ} {bs : List β} {a : α} (h : a ∈ script step call s bs) :
    ∃ b ∈ bs, ∃ s', a ∈ call s' b := by
  induction bs generalizing s with
  | nil => cases h
  | cons b bs ih =>
      rcases List.mem_append.mp h with h | h
      · exact ⟨b, List.mem_cons_self, s, h⟩
      · obtain ⟨b', hb', s', ha⟩ := ih h
        exact ⟨b', List.mem_cons_of_mem _ hb', s', ha⟩

/-- Whether a script has a step of some kind, where the state does not decide which calls do. -/
theorem exists_mem_script {P : α → Prop} {Q : β → Prop}
    (h : ∀ s b, (∃ a ∈ call s b, P a) ↔ Q b) {s : σ} {bs : List β} :
    (∃ a ∈ script step call s bs, P a) ↔ ∃ b ∈ bs, Q b := by
  induction bs generalizing s with
  | nil => simp [script]
  | cons b bs ih =>
      rw [List.exists_mem_cons_iff, ← h s b, ← @ih (run step s (call s b)), script]
      simp only [List.mem_append, or_and_right, exists_or]

/-- A call as one step. -/
def callStep (step : σ → α → σ) (call : σ → β → List α) (s : σ) (b : β) : σ :=
  run step s (call s b)

theorem run_script (s : σ) (bs : List β) :
    run step s (script step call s bs) = run (callStep step call) s bs := by
  induction bs generalizing s with
  | nil => rfl
  | cons b bs ih =>
      rw [script, run_append, ih]
      rfl

theorem guarded_script {s : σ} {bs : List β} :
    Guarded step ok s (script step call s bs) ↔
      Guarded (callStep step call) (fun s b => Guarded step ok s (call s b)) s bs := by
  induction bs generalizing s with
  | nil => exact Iff.rfl
  | cons b bs ih =>
      rw [script, guarded_append, ih]
      rfl

theorem guarded_map {f : β → α} {s : σ} {bs : List β} :
    Guarded step ok s (bs.map f) ↔
      Guarded (fun s b => step s (f b)) (fun s b => ok s (f b)) s bs := by
  induction bs generalizing s with
  | nil => exact Iff.rfl
  | cons b bs ih => exact and_congr Iff.rfl ih

theorem Guarded.congr {ok' : σ → α → Prop} (h : ∀ s a, ok s a ↔ ok' s a) {s : σ} {as : List α} :
    Guarded step ok s as ↔ Guarded step ok' s as := by
  induction as generalizing s with
  | nil => exact Iff.rfl
  | cons a as ih => exact and_congr (h s a) ih

end scripts

/-! ## Steps that may fail -/

variable {ε : Type*} {stepE : σ → α → Except ε σ}

def runExcept (stepE : σ → α → Except ε σ) (s : σ) (as : List α) : Except ε σ := as.foldlM stepE s

/-- Every step of the run meets the condition in the state it is made in, as far as the run gets. -/
def GuardedExcept (stepE : σ → α → Except ε σ) (ok : σ → α → Prop) : σ → List α → Prop
  | _, [] => True
  | s, a :: as => ok s a ∧ ∀ s', stepE s a = .ok s' → GuardedExcept stepE ok s' as

/-- Guarded steps that do not fail and keep an invariant take the run to its end. -/
theorem runExcept_invariant {Inv : σ → Prop}
    (hstep : ∀ s a, Inv s → ok s a → ∃ s', stepE s a = .ok s' ∧ Inv s') {s : σ} {as : List α}
    (hs : Inv s) (hok : GuardedExcept stepE ok s as) :
    ∃ s', runExcept stepE s as = .ok s' ∧ Inv s' := by
  induction as generalizing s with
  | nil => exact ⟨s, rfl, hs⟩
  | cons a as ih =>
      obtain ⟨m, hm, hinv⟩ := hstep s a hs hok.1
      obtain ⟨s', hs', hinv'⟩ := ih hinv (hok.2 m hm)
      refine ⟨s', ?_, hinv'⟩
      rw [runExcept, List.foldlM_cons, hm]
      exact hs'

/-- An invariant that every step keeps that does not fail. -/
theorem runExcept_keeps {Inv : σ → Prop} (hstep : ∀ s a s', Inv s → stepE s a = .ok s' → Inv s')
    {s s' : σ} {as : List α} (hs : Inv s) (hrun : runExcept stepE s as = .ok s') : Inv s' := by
  induction as generalizing s with
  | nil =>
      obtain rfl := Except.ok.inj hrun
      exact hs
  | cons a as ih =>
      rw [runExcept, List.foldlM_cons] at hrun
      cases hm : stepE s a with
      | error e =>
          rw [hm] at hrun
          cases hrun
      | ok m =>
          rw [hm] at hrun
          exact ih (hstep s a m hs hm) hrun

end Runs
