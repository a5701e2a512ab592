import Mathlib.Data.List.AList
import Mathlib.Tactic

set_option autoImplicit false

/-! # Counters by key

A map of counters. `count` reads an absent entry as 0, so an entry with the value 0 and no entry are
the same; `total` is the sum of the entries. `count_insert`, `count_erase`, `total_insert` and
`total_erase` say what the two operations of the map do to both.
-/

/-- A map from keys to counters. -/
abbrev Counters (κ : Type*) := AList (fun _ : κ => ℕ)

namespace Counters

variable {κ : Type*} [DecidableEq κ]

def count (m : Counters κ) (k : κ) : ℕ := (m.lookup k).getD 0

def total (m : Counters κ) : ℕ := (m.entries.map Sigma.snd).sum

@[simp] theorem count_empty (k : κ) : count (∅ : Counters κ) k = 0 := rfl

omit [DecidableEq κ] in
@[simp] theorem total_empty : total (∅ : Counters κ) = 0 := rfl

variable (m : Counters κ) (k k' : κ) (n : ℕ)

theorem count_insert :
    count (AList.insert k n m) k' = if k' = k then n else m.count k' := by
  unfold count
  split
  · next h => rw [h, AList.lookup_insert, Option.getD_some]
  · next h => rw [AList.lookup_insert_ne h]

theorem count_erase :
    count (AList.erase k m) k' = if k' = k then 0 else m.count k' := by
  unfold count
  split
  · next h => rw [h, AList.lookup_erase, Option.getD_none]
  · next h => rw [AList.lookup_erase_ne h]

/-- The sum of a list of entries, one of which is taken out. -/
theorem sum_kerase (l : List (Sigma fun _ : κ => ℕ)) :
    (l.map Sigma.snd).sum = (l.dlookup k).getD 0 + ((l.kerase k).map Sigma.snd).sum := by
  induction l with
  | nil => rfl
  | cons e l ih =>
      by_cases h : k = e.1
      · obtain ⟨k₀, v⟩ := e
        obtain rfl : k = k₀ := h
        have hk : List.kerase k (⟨k, v⟩ :: l) = l := List.kerase_cons_eq rfl
        rw [List.dlookup_cons_eq, hk]
        rfl
      · rw [List.dlookup_cons_ne _ _ h, List.kerase_cons_ne h, List.map_cons, List.map_cons,
          List.sum_cons, List.sum_cons, ih]
        omega

theorem total_erase : m.count k + total (AList.erase k m) = m.total :=
  (sum_kerase k m.entries).symm

theorem total_insert : total (AList.insert k n m) + m.count k = m.total + n := by
  have hsum : total (AList.insert k n m) = n + total (AList.erase k m) := rfl
  rw [hsum, ← total_erase m k]
  omega

end Counters
