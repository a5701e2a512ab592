import Mathlib.Data.List.Pairwise
import Mathlib.Data.List.Count
import Mathlib.Order.Defs.LinearOrder
import Mathlib.Tactic

set_option autoImplicit false

/-! # Counting in an ordered map

A `std::map<κ, int>` whose comparator looks at one part of the key only, here `key : κ → β` into a
linear order. `bump` is `m[k]++`: it finds the entry with an equivalent key, which keeps the key it
was made with, or inserts a new entry at its place. There is one entry for each key class, and it
holds the number of elements of this class (`Sorted.value_eq`, `value_countAll`), whatever their
other parts are.
-/

namespace CountMap

variable {κ β : Type} [LinearOrder β]

/-- `m[k]++`. -/
def bump (key : κ → β) (k : κ) : List (κ × Nat) → List (κ × Nat)
  | [] => [(k, 1)]
  | (k', n) :: m =>
      if key k < key k' then (k, 1) :: (k', n) :: m
      else if key k' < key k then (k', n) :: bump key k m
      else (k', n + 1) :: m

/-- The map after `m[k]++` for every element of the list. -/
def countAll (key : κ → β) (l : List κ) : List (κ × Nat) :=
  l.foldl (fun m k => bump key k m) []

/-- The sum of the entries of a key class. -/
def value (key : κ → β) (b : β) (m : List (κ × Nat)) : Nat :=
  ((m.filter (fun e => key e.1 = b)).map Prod.snd).sum

def Sorted (key : κ → β) (m : List (κ × Nat)) : Prop :=
  m.Pairwise (fun e e' => key e.1 < key e'.1)

variable {key : κ → β}

theorem value_cons (b : β) (e : κ × Nat) (m : List (κ × Nat)) :
    value key b (e :: m) = (if key e.1 = b then e.2 else 0) + value key b m := by
  by_cases h : key e.1 = b
  · simp [value, h]
  · simp [value, h]

theorem value_bump (b : β) (k : κ) (m : List (κ × Nat)) :
    value key b (bump key k m) = value key b m + if key k = b then 1 else 0 := by
  induction m with
  | nil =>
      rw [bump, value_cons]
      exact Nat.add_comm _ _
  | cons e m ih =>
      obtain ⟨k', n⟩ := e
      unfold bump
      split
      · rw [value_cons]
        exact Nat.add_comm _ _
      next hlt =>
      split
      · rw [value_cons, ih, value_cons]
        exact (Nat.add_assoc _ _ _).symm
      next hgt =>
      -- neither is smaller: the classes are the same
      have heq : key k = key k' := le_antisymm (not_lt.mp hgt) (not_lt.mp hlt)
      rw [value_cons, value_cons, heq]
      by_cases hb : key k' = b
      · simp only [hb, if_true]
        omega
      · simp only [hb, if_false]
        omega

/-- Bumping keeps a lower bound of the keys. -/
theorem bump_lower {b : β} {k : κ} {m : List (κ × Nat)} (hk : b < key k)
    (hm : ∀ e ∈ m, b < key e.1) : ∀ e ∈ bump key k m, b < key e.1 := by
  induction m with
  | nil =>
      intro e he
      rw [bump, List.mem_singleton] at he
      rw [he]
      exact hk
  | cons e' m ih =>
      obtain ⟨k', n⟩ := e'
      intro e he
      have hhead : b < key k' := hm (k', n) List.mem_cons_self
      have htail : ∀ e ∈ m, b < key e.1 := fun e he => hm e (List.mem_cons_of_mem _ he)
      unfold bump at he
      split at he
      · rcases List.mem_cons.mp he with rfl | he
        · exact hk
        · exact hm e he
      split at he
      · rcases List.mem_cons.mp he with rfl | he
        · exact hhead
        · exact ih htail e he
      · rcases List.mem_cons.mp he with rfl | he
        · exact hhead
        · exact htail e he

theorem Sorted.bump {m : List (κ × Nat)} (h : Sorted key m) (k : κ) :
    Sorted key (bump key k m) := by
  induction m with
  | nil => exact List.pairwise_singleton _ _
  | cons e m ih =>
      obtain ⟨k', n⟩ := e
      obtain ⟨hhead, htail⟩ := List.pairwise_cons.mp h
      unfold CountMap.bump
      split
      · next hlt =>
          refine List.pairwise_cons.mpr ⟨?_, h⟩
          intro e he
          rcases List.mem_cons.mp he with rfl | he
          · exact hlt
          · exact lt_trans hlt (hhead e he)
      split
      · next hgt =>
          exact List.pairwise_cons.mpr ⟨bump_lower hgt hhead, ih htail⟩
      · exact List.pairwise_cons.mpr ⟨hhead, htail⟩

/-- In a sorted map an entry is all there is of its class. -/
theorem Sorted.value_eq {m : List (κ × Nat)} (h : Sorted key m) {e : κ × Nat} (he : e ∈ m) :
    value key (key e.1) m = e.2 := by
  induction m with
  | nil => exact absurd he List.not_mem_nil
  | cons e' m ih =>
      obtain ⟨hhead, htail⟩ := List.pairwise_cons.mp h
      rcases List.mem_cons.mp he with rfl | he
      · have hrest : m.filter (fun e' => key e'.1 = key e.1) = [] := by
          rw [List.filter_eq_nil_iff]
          intro e' he'
          simpa using ne_of_gt (hhead e' he')
        rw [value_cons, if_pos rfl, value, hrest]
        rfl
      · rw [value_cons, if_neg (ne_of_lt (hhead e he)), ih htail he, Nat.zero_add]

theorem foldl_bump_spec (l : List κ) : ∀ {m : List (κ × Nat)}, Sorted key m →
    Sorted key (l.foldl (fun m k => bump key k m) m) ∧
      ∀ b, value key b (l.foldl (fun m k => bump key k m) m)
        = value key b m + l.countP (fun k => key k = b) := by
  induction l with
  | nil => exact fun h => ⟨h, fun _ => rfl⟩
  | cons k l ih =>
      intro m h
      obtain ⟨hsorted, hvalue⟩ := ih (h.bump k)
      refine ⟨hsorted, ?_⟩
      intro b
      calc value key b ((k :: l).foldl (fun m k => bump key k m) m)
          = value key b (bump key k m) + l.countP (fun k => key k = b) := hvalue b
        _ = value key b m + (if key k = b then 1 else 0) + l.countP (fun k => key k = b) := by
            rw [value_bump]
        _ = value key b m + (k :: l).countP (fun k => key k = b) := by
            rw [List.countP_cons, Nat.add_assoc, Nat.add_comm (l.countP _)]
            simp only [decide_eq_true_eq]

theorem sorted_countAll (l : List κ) : Sorted key (countAll key l) :=
  (foldl_bump_spec l List.Pairwise.nil).1

theorem value_countAll (b : β) (l : List κ) :
    value key b (countAll key l) = l.countP (fun k => key k = b) := by
  rw [countAll, (foldl_bump_spec l List.Pairwise.nil).2 b]
  exact Nat.zero_add _

/-- A class with a positive sum has an entry. -/
theorem exists_mem_of_value_pos {b : β} {m : List (κ × Nat)} (h : 0 < value key b m) :
    ∃ e ∈ m, key e.1 = b := by
  obtain ⟨e, he⟩ : ∃ e, e ∈ m.filter (fun e => key e.1 = b) := by
    refine List.exists_mem_of_ne_nil _ ?_
    intro hnil
    rw [value, hnil] at h
    exact absurd h (by simp)
  obtain ⟨hmem, hkey⟩ := List.mem_filter.mp he
  exact ⟨e, hmem, of_decide_eq_true hkey⟩

end CountMap
