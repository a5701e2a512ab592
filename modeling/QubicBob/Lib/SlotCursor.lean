import Mathlib.Tactic

set_option autoImplicit false

/-! # Cursors over a list of slots

A cursor goes along a list of slots while items come in, and moves when an item is past its slot: by
one (`next`), or to wherever `advance` says. `walk` is the list of the positions, one for each item,
as long as the cursor stays within the slots.

A cursor that moves by one takes each slot with the first item that is past it, which is as early as
any choice of items could. So it runs out of slots exactly when some of the items, in their order,
are past all the slots (`Exhausts`). For items with a slot of their own, past exactly the slots
before it (`Levelled`), the induction on the items needs no more than that the cursor is not beyond
the slot of the next one: `next` then comes one slot closer with each item, and a rule that finds
the slot is there at once.
-/

namespace SlotCursor

variable {ι β : Type*} (past : ι → β → Bool) (advance : Nat → ι → Nat) (slots : List β)

/-- The position behind an item. -/
def step (i : Nat) (x : ι) : Option Nat :=
  slots[i]?.bind fun s =>
    if past x s then
      if advance i x < slots.length then some (advance i x) else none
    else some i

def walk : Nat → List ι → Option (List Nat)
  | _, [] => some []
  | i, x :: xs => (step past advance slots i x).bind fun j => (walk j xs).map (j :: ·)

/-- The rule that moves by one. -/
def next (i : Nat) (_ : ι) : Nat := i + 1

variable {past advance slots} {i j : Nat} {x : ι} {xs : List ι}

theorem step_of_past {s : β} (hs : slots[i]? = some s) (h : past x s = true) :
    step past advance slots i x =
      if advance i x < slots.length then some (advance i x) else none := by
  rw [step, hs, Option.bind_some, if_pos h]

theorem step_of_not_past {s : β} (hs : slots[i]? = some s) (h : past x s = false) :
    step past advance slots i x = some i := by
  rw [step, hs, Option.bind_some, h]
  rfl

theorem walk_cons (h : step past advance slots i x = some j) :
    walk past advance slots i (x :: xs) = (walk past advance slots j xs).map (j :: ·) := by
  rw [walk, h, Option.bind_some]

theorem walk_cons_isSome (h : step past advance slots i x = some j) :
    (walk past advance slots i (x :: xs)).isSome = (walk past advance slots j xs).isSome := by
  rw [walk_cons h, Option.isSome_map]

theorem walk_of_step_none (h : step past advance slots i x = none) :
    walk past advance slots i (x :: xs) = none := by
  rw [walk, h]
  rfl

/-! ## Running out of slots -/

/-- Some of the items, in their order, are past the slots one after the other. -/
def Exhausts (past : ι → β → Bool) (slots : List β) (xs : List ι) : Prop :=
  ∃ ys, ys.Sublist xs ∧ List.Forall₂ (fun x s => past x s = true) ys slots

theorem exhausts_nil_slots : Exhausts past [] xs := ⟨[], List.nil_sublist xs, .nil⟩

theorem not_exhausts_nil {s : β} {rest : List β} : ¬ Exhausts past (s :: rest) ([] : List ι) := by
  rintro ⟨ys, hsub, hpast⟩
  rw [List.sublist_nil.mp hsub] at hpast
  cases hpast

/-- The first item takes the first slot if it is past it. -/
theorem exhausts_cons_of_past {s : β} {rest : List β} (h : past x s = true) :
    Exhausts past (s :: rest) (x :: xs) ↔ Exhausts past rest xs := by
  constructor
  · rintro ⟨ys, hsub, hpast⟩
    cases hpast with
    | cons hy hrest =>
        cases hsub with
        | cons _ hsub => exact ⟨_, (List.sublist_cons_self _ _).trans hsub, hrest⟩
        | cons_cons _ hsub => exact ⟨_, hsub, hrest⟩
  · rintro ⟨ys, hsub, hpast⟩
    exact ⟨x :: ys, hsub.cons_cons x, .cons h hpast⟩

theorem exhausts_cons_of_not_past {s : β} {rest : List β} (h : past x s = false) :
    Exhausts past (s :: rest) (x :: xs) ↔ Exhausts past (s :: rest) xs := by
  constructor
  · rintro ⟨ys, hsub, hpast⟩
    cases hpast with
    | cons hy hrest =>
        cases hsub with
        | cons _ hsub => exact ⟨_, hsub, .cons hy hrest⟩
        | cons_cons _ hsub =>
            rw [h] at hy
            cases hy
  · rintro ⟨ys, hsub, hpast⟩
    exact ⟨ys, hsub.cons x, hpast⟩

theorem walk_next_isSome_iff (hi : i < slots.length) :
    (walk past next slots i xs).isSome ↔ ¬ Exhausts past (slots.drop i) xs := by
  induction xs generalizing i with
  | nil =>
      rw [List.drop_eq_getElem_cons hi]
      exact ⟨fun _ => not_exhausts_nil, fun _ => rfl⟩
  | cons x xs ih =>
      have hs : slots[i]? = some slots[i] := List.getElem?_eq_getElem hi
      rw [List.drop_eq_getElem_cons hi]
      cases hpast : past x slots[i] with
      | false =>
          rw [exhausts_cons_of_not_past hpast, walk_cons_isSome (step_of_not_past hs hpast), ih hi,
            List.drop_eq_getElem_cons hi]
      | true =>
          rw [exhausts_cons_of_past hpast]
          by_cases hnext : i + 1 < slots.length
          · rw [walk_cons_isSome ((step_of_past hs hpast).trans (if_pos hnext))]
            exact ih hnext
          · rw [walk_of_step_none ((step_of_past hs hpast).trans (if_neg hnext)),
              List.drop_eq_nil_of_le (Nat.le_of_not_lt hnext)]
            exact ⟨fun h => absurd h Bool.false_ne_true, fun h => absurd exhausts_nil_slots h⟩

/-- A rule that never leaves the slots. -/
theorem walk_isSome (hadvance : ∀ i x, advance i x < slots.length) (hi : i < slots.length) :
    (walk past advance slots i xs).isSome := by
  induction xs generalizing i with
  | nil => rfl
  | cons x xs ih =>
      have hs : slots[i]? = some slots[i] := List.getElem?_eq_getElem hi
      cases hpast : past x slots[i] with
      | false =>
          rw [walk_cons_isSome (step_of_not_past hs hpast)]
          exact ih hi
      | true =>
          rw [walk_cons_isSome ((step_of_past hs hpast).trans (if_pos (hadvance i x)))]
          exact ih (hadvance i x)

theorem step_eq_none_of_le (hi : slots.length ≤ i) : step past advance slots i x = none := by
  rw [step, List.getElem?_eq_none hi]
  rfl

/-! ## At the slot of the item -/

section level

variable {σ : ι → Nat}

/-- Each item has a slot, and is past the slots before it from the position `i` on. -/
def Levelled (past : ι → β → Bool) (slots : List β) (σ : ι → Nat) (i : Nat) (xs : List ι) : Prop :=
  ∀ x ∈ xs, σ x < slots.length ∧ i ≤ σ x ∧
    ∀ k s, i ≤ k → slots[k]? = some s → (past x s = true ↔ k < σ x)

theorem Levelled.mono (h : Levelled past slots σ i xs) (hij : i ≤ j) (hle : ∀ x ∈ xs, j ≤ σ x) :
    Levelled past slots σ j xs :=
  fun x hx => ⟨(h x hx).1, hle x hx, fun k s hk => (h x hx).2.2 k s (hij.trans hk)⟩

/-- One move towards the slot of the item. -/
theorem step_next (h : Levelled past slots σ i (x :: xs)) :
    step past next slots i x = some (min (i + 1) (σ x)) := by
  obtain ⟨hlt, hle, hpast⟩ := h x List.mem_cons_self
  have hs : slots[i]? = some slots[i] := List.getElem?_eq_getElem (hle.trans_lt hlt)
  have hiff := hpast i _ le_rfl hs
  by_cases hi : i < σ x
  · have hnext : next i x < slots.length := lt_of_le_of_lt hi hlt
    rw [step_of_past hs (hiff.mpr hi), if_pos hnext, next, Nat.min_eq_left hi]
  · have hnot : past x slots[i] = false := Bool.eq_false_iff.mpr fun htrue => hi (hiff.mp htrue)
    rw [step_of_not_past hs hnot]
    exact congrArg some (by omega)

theorem Levelled.tail (h : Levelled past slots σ i (x :: xs)) (hij : i ≤ j)
    (hsorted : (x :: xs).Pairwise (σ · ≤ σ ·)) (hj : j ≤ σ x) : Levelled past slots σ j xs :=
  Levelled.mono (fun y hy => h y (List.mem_cons_of_mem _ hy)) hij
    fun y hy => hj.trans ((List.pairwise_cons.mp hsorted).1 y hy)

/-- Moving by one, the cursor is at the slot of an item exactly when it has had as many items as it
has to pass slots, counted from the start and from each item before. -/
theorem walk_next_eq_iff {ps : List Nat} (h : Levelled past slots σ i xs)
    (hsorted : xs.Pairwise (σ · ≤ σ ·)) (hps : walk past next slots i xs = some ps) {p : Nat}
    (hp : ps[j]? = some p) (hx : xs[j]? = some x) :
    p = σ x ↔ σ x ≤ i + j + 1 ∧ ∀ k y, k ≤ j → xs[k]? = some y → σ x ≤ σ y + (j - k) := by
  induction xs generalizing i ps j with
  | nil => cases hx
  | cons z xs ih =>
      have hi : i ≤ σ z := (h z List.mem_cons_self).2.1
      rw [walk_cons (step_next h)] at hps
      obtain ⟨ps', hps', rfl⟩ := Option.map_eq_some_iff.mp hps
      cases j with
      | zero =>
          obtain rfl : min (i + 1) (σ z) = p := Option.some.inj hp
          obtain rfl : z = x := Option.some.inj hx
          constructor
          · intro heq
            refine ⟨by omega, fun k y hk hy => ?_⟩
            obtain rfl : k = 0 := Nat.le_zero.mp hk
            obtain rfl : z = y := Option.some.inj hy
            exact Nat.le_add_right _ _
          · intro hle
            omega
      | succ j =>
          have hrest := ih (h.tail (by omega) hsorted (Nat.min_le_right _ _))
            (List.pairwise_cons.mp hsorted).2 hps' hp hx
          rw [hrest]
          constructor
          · rintro ⟨hstart, hall⟩
            refine ⟨by omega, fun k y hk hy => ?_⟩
            cases k with
            | zero =>
                obtain rfl : z = y := Option.some.inj hy
                omega
            | succ k =>
                have hle := hall k y (by omega) hy
                omega
          · rintro ⟨hstart, hall⟩
            have hz := hall 0 z (by omega) rfl
            refine ⟨by omega, fun k y hk hy => ?_⟩
            have hle := hall (k + 1) y (by omega) hy
            omega

theorem exists_walk_next (h : Levelled past slots σ i xs) (hsorted : xs.Pairwise (σ · ≤ σ ·)) :
    ∃ ps, walk past next slots i xs = some ps ∧ ps.length = xs.length := by
  induction xs generalizing i with
  | nil => exact ⟨[], rfl, rfl⟩
  | cons x xs ih =>
      have hi : i ≤ σ x := (h x List.mem_cons_self).2.1
      have hstart : i ≤ min (i + 1) (σ x) := by omega
      obtain ⟨ps, hps, hlen⟩ := ih (h.tail hstart hsorted (Nat.min_le_right _ _))
        (List.pairwise_cons.mp hsorted).2
      exact ⟨_ :: ps, by rw [walk_cons (step_next h), hps]; rfl, congrArg (· + 1) hlen⟩

/-- A rule that finds the slot of the item is always there. -/
theorem walk_advance_eq (h : Levelled past slots σ i xs) (hsorted : xs.Pairwise (σ · ≤ σ ·))
    (hadvance : ∀ x ∈ xs, ∀ k, i ≤ k → k < σ x → advance k x = σ x) :
    walk past advance slots i xs = some (xs.map σ) := by
  induction xs generalizing i with
  | nil => rfl
  | cons x xs ih =>
      obtain ⟨hlt, hle, hpast⟩ := h x List.mem_cons_self
      have hs : slots[i]? = some slots[i] := List.getElem?_eq_getElem (hle.trans_lt hlt)
      have hstep : step past advance slots i x = some (σ x) := by
        by_cases hi : i < σ x
        · have hmove := hadvance x List.mem_cons_self i le_rfl hi
          rw [step_of_past hs ((hpast i _ le_rfl hs).mpr hi), hmove, if_pos hlt]
        · have hnot : past x slots[i] = false :=
            Bool.eq_false_iff.mpr fun htrue => hi ((hpast i _ le_rfl hs).mp htrue)
          rw [step_of_not_past hs hnot]
          exact congrArg some (by omega)
      rw [walk_cons hstep, ih (h.tail hle hsorted le_rfl) (List.pairwise_cons.mp hsorted).2
        (fun y hy k hk => hadvance y (List.mem_cons_of_mem _ hy) k (hle.trans hk))]
      rfl

end level

end SlotCursor
