import Mathlib.Tactic
import Mathlib.Algebra.BigOperators.Group.Finset.Piecewise
import Mathlib.Algebra.Order.BigOperators.Group.Finset

set_option autoImplicit false

/-! # Sums over a table

`tally cap f A` adds up the measure `f` over the slots `0 .. cap - 1` of the table `A`. One rule
says what a write to a slot does to the sum (`tally_update`), the others compare the sum with its
terms, or with the sum over another table (`tally_eq_of_matching`). `vacant` counts slots the same
way.
-/

namespace Tally

section Sum

variable {α : Type} {cap : Nat} {f : α → Int} {A : Nat → α}

/-- The sum of the measure `f` over the slots of `A`. -/
def tally (cap : Nat) (f : α → Int) (A : Nat → α) : Int := ∑ j ∈ Finset.range cap, f (A j)

/-- Writing a slot replaces its term. -/
theorem tally_update {x : Nat} (hx : x < cap) (r : α) :
    tally cap f (Function.update A x r) = tally cap f A - f (A x) + f r := by
  have hmem : x ∈ Finset.range cap := Finset.mem_range.mpr hx
  have hcomp : ∀ j, f (Function.update A x r j) = Function.update (fun j => f (A j)) x (f r) j := by
    intro j
    by_cases hj : j = x
    · subst hj; simp
    · rw [Function.update_of_ne hj, Function.update_of_ne hj]
  unfold tally
  calc ∑ j ∈ Finset.range cap, f (Function.update A x r j)
      = ∑ j ∈ Finset.range cap, Function.update (fun j => f (A j)) x (f r) j :=
        Finset.sum_congr rfl (fun j _ => hcomp j)
    _ = f r + ∑ j ∈ Finset.range cap \ {x}, f (A j) := Finset.sum_update_of_mem hmem _ _
    _ = f r + ∑ j ∈ (Finset.range cap).erase x, f (A j) := by
        rw [Finset.sdiff_singleton_eq_erase]
    _ = (∑ j ∈ Finset.range cap, f (A j)) - f (A x) + f r := by
        rw [← Finset.add_sum_erase _ (fun j => f (A j)) hmem]
        ring

/-- No term exceeds a sum of non-negative terms. -/
theorem le_tally {x : Nat} (hx : x < cap) (hnonneg : ∀ j, j < cap → 0 ≤ f (A j)) :
    f (A x) ≤ tally cap f A :=
  Finset.single_le_sum (f := fun j => f (A j)) (fun j hj => hnonneg j (Finset.mem_range.mp hj))
    (Finset.mem_range.mpr hx)

theorem tally_eq_zero (hzero : ∀ j, j < cap → f (A j) = 0) : tally cap f A = 0 :=
  Finset.sum_eq_zero (fun j hj => hzero j (Finset.mem_range.mp hj))

theorem tally_succ (n : Nat) : tally (n + 1) f A = tally n f A + f (A n) :=
  Finset.sum_range_succ _ _

/-- A positive sum has a positive term. -/
theorem exists_of_tally_pos (h : 0 < tally cap f A) : ∃ j, j < cap ∧ 0 < f (A j) := by
  by_contra hno
  push Not at hno
  have hle : tally cap f A ≤ 0 :=
    Finset.sum_nonpos (fun j hj => hno j (Finset.mem_range.mp hj))
  omega

/-- Two tables whose non-zero terms can be paired off have the same sum. -/
theorem tally_eq_of_matching {β : Type} {g : β → Int} {B : Nat → β} {rel : Nat → Nat → Prop}
    (hto : ∀ a, a < cap → f (A a) ≠ 0 → ∃ b, b < cap ∧ rel a b ∧ g (B b) = f (A a))
    (hfrom : ∀ b, b < cap → g (B b) ≠ 0 → ∃ a, a < cap ∧ rel a b ∧ g (B b) = f (A a))
    (hleft : ∀ a a' b, a < cap → a' < cap → rel a b → rel a' b → a = a')
    (hright : ∀ a b b', b < cap → b' < cap → rel a b → rel a b' → b = b') :
    tally cap f A = tally cap g B := by
  have hto' : ∀ a, a ∈ Finset.range cap → f (A a) ≠ 0 →
      ∃ b, b < cap ∧ rel a b ∧ g (B b) = f (A a) := by
    intro a ha hne
    exact hto a (Finset.mem_range.mp ha) hne
  choose! partner hlt hrel hvalue using hto'
  refine Finset.sum_bij_ne_zero (fun a _ _ => partner a) ?_ ?_ ?_ ?_
  · intro a ha hne
    exact Finset.mem_range.mpr (hlt a ha hne)
  · intro a ha hne a' ha' hne' hsame
    refine hleft a a' (partner a') (Finset.mem_range.mp ha) (Finset.mem_range.mp ha') ?_
      (hrel a' ha' hne')
    rw [← hsame]
    exact hrel a ha hne
  · intro b hb hne
    obtain ⟨a, ha, hab, hv⟩ := hfrom b (Finset.mem_range.mp hb) hne
    have hmem := Finset.mem_range.mpr ha
    have hneA : f (A a) ≠ 0 := hv ▸ hne
    exact ⟨a, hmem, hneA, hright a _ b (hlt a hmem hneA) (Finset.mem_range.mp hb)
      (hrel a hmem hneA) hab⟩
  · intro a ha hne
    exact (hvalue a ha hne).symm

end Sum

/-! ## Vacant slots -/

section Vacant

variable {cap : Nat} {empty empty' : Nat → Bool}

/-- The number of slots that satisfy `empty`. -/
def vacant (cap : Nat) (empty : Nat → Bool) : Nat :=
  ((Finset.range cap).filter (fun i => empty i = true)).card

theorem exists_of_vacant_pos (h : 0 < vacant cap empty) : ∃ i, i < cap ∧ empty i = true := by
  obtain ⟨i, hi⟩ := Finset.card_pos.mp h
  have hmem := Finset.mem_filter.mp hi
  exact ⟨i, Finset.mem_range.mp hmem.1, hmem.2⟩

/-- Filling one slot takes at most one vacant slot away. -/
theorem vacant_le_succ (x : Nat) (h : ∀ i, i ≠ x → empty i = true → empty' i = true) :
    vacant cap empty ≤ vacant cap empty' + 1 := by
  have hsub : (Finset.range cap).filter (fun i => empty i = true) ⊆
      insert x ((Finset.range cap).filter (fun i => empty' i = true)) := by
    intro i hi
    have hmem := Finset.mem_filter.mp hi
    by_cases hix : i = x
    · exact Finset.mem_insert.mpr (Or.inl hix)
    · exact Finset.mem_insert.mpr (Or.inr (Finset.mem_filter.mpr ⟨hmem.1, h i hix hmem.2⟩))
  exact le_trans (Finset.card_le_card hsub) (Finset.card_insert_le _ _)

/-- When the occupied slots can be told apart by slots other than `x`, some slot is vacant. -/
theorem exists_vacant_of_missing {occ : Nat → Prop} {rel : Nat → Nat → Prop} {x : Nat}
    (hx : x < cap) (hto : ∀ j, j < cap → occ j → ∃ i, i < cap ∧ i ≠ x ∧ rel j i)
    (hinj : ∀ j j' i, j < cap → j' < cap → rel j i → rel j' i → j = j') :
    ∃ z, z < cap ∧ ¬ occ z := by
  by_contra hfull
  push Not at hfull
  have hto' : ∀ j, j ∈ Finset.range cap → ∃ i, i < cap ∧ i ≠ x ∧ rel j i := by
    intro j hj
    exact hto j (Finset.mem_range.mp hj) (hfull j (Finset.mem_range.mp hj))
  choose! partner hlt hne hrel using hto'
  have hcard : (Finset.range cap).card ≤ ((Finset.range cap).erase x).card := by
    refine Finset.card_le_card_of_injOn partner ?_ ?_
    · intro j hj
      exact Finset.mem_coe.mpr (Finset.mem_erase.mpr
        ⟨hne j hj, Finset.mem_range.mpr (hlt j hj)⟩)
    · intro j hj j' hj' hsame
      refine hinj j j' (partner j') (Finset.mem_range.mp hj) (Finset.mem_range.mp hj') ?_
        (hrel j' hj')
      rw [← hsame]
      exact hrel j hj
  rw [Finset.card_erase_of_mem (Finset.mem_range.mpr hx), Finset.card_range] at hcard
  omega

end Vacant

end Tally
