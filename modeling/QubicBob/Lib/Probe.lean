import Mathlib.Tactic

set_option autoImplicit false

/-! # Linear probing in a cyclic table

A table of `2 ^ depth` slots is searched from a home slot onwards, wrapping around at the end,
until a slot satisfies the stop condition. `probe` is that search: it looks at every slot once and
gives up (`none`) when none stops it, which is where the loop `i := (i + 1) & (cap - 1)` of a
program would go round for ever.

A key can be found if no empty slot stands between its home slot and the slot that holds it
(`Reach`). The lookup rules are `probe_eq_of_reach` for a key that is there, `probe_absent` for
one that is not, `probe_exists` for termination, and `probe_complete` for the three together. For
a table that is nothing but keys, `Keyed` is the invariant: `Keyed.probe_present` and `probe_free`
are its lookups, `Keyed.insert` its update.
-/

namespace Probe

/-- Follow the slots from `i` on until one stops the search. -/
def walk (stop : Nat → Bool) (depth : Nat) : Nat → Nat → Option Nat
  | 0, _ => none
  | fuel + 1, i => if stop i then some i else walk stop depth fuel ((i + 1) &&& (2 ^ depth - 1))

/-- The search from a home slot: each of the `2 ^ depth` slots is looked at once. -/
def probe (stop : Nat → Bool) (depth home : Nat) : Option Nat :=
  walk stop depth (2 ^ depth) home

/-- `x` is reached from `home` over slots satisfying `occ` only. -/
def Reach (occ : Nat → Prop) (cap home x : Nat) : Prop :=
  ∃ k, x = (home + k) % cap ∧ ∀ j, j < k → occ ((home + j) % cap)

theorem and_mask (i depth : Nat) : i &&& (2 ^ depth - 1) = i % 2 ^ depth :=
  Nat.and_two_pow_sub_one_eq_mod i depth

theorem and_mask_lt (i depth : Nat) : i &&& (2 ^ depth - 1) < 2 ^ depth := by
  rw [and_mask]; exact Nat.mod_lt _ (Nat.two_pow_pos depth)

/-! ## Reachable slots -/

section Reach

variable {occ occ' : Nat → Prop} {cap home x y : Nat}

theorem Reach.refl (h : home < cap) : Reach occ cap home home :=
  ⟨0, by rw [Nat.add_zero, Nat.mod_eq_of_lt h], fun j hj => absurd hj (Nat.not_lt_zero j)⟩

theorem Reach.mono (h : Reach occ cap home x) (himp : ∀ i, i < cap → occ i → occ' i)
    (hcap : 0 < cap) : Reach occ' cap home x := by
  obtain ⟨k, hx, hocc⟩ := h
  exact ⟨k, hx, fun j hj => himp _ (Nat.mod_lt _ hcap) (hocc j hj)⟩

/-- A reachable slot is reached in less than one turn. -/
theorem Reach.bounded (h : Reach occ cap home x) (hcap : 0 < cap) :
    ∃ k, k < cap ∧ x = (home + k) % cap ∧ ∀ j, j < k → occ ((home + j) % cap) := by
  obtain ⟨k, hx, hocc⟩ := h
  refine ⟨k % cap, Nat.mod_lt _ hcap, ?_, ?_⟩
  · rw [hx, Nat.add_mod_mod]
  · intro j hj
    exact hocc j (lt_of_lt_of_le hj (Nat.mod_le _ _))

/-- Going on from an occupied slot to its successor. -/
theorem Reach.next (h : Reach occ cap home x) (hx : occ x)
    (h' : Reach occ cap ((x + 1) % cap) y) : Reach occ cap home y := by
  obtain ⟨k, hk, hocc⟩ := h
  obtain ⟨k', hk', hocc'⟩ := h'
  have hshift : ∀ j, ((x + 1) % cap + j) % cap = (home + (k + 1 + j)) % cap := by
    intro j
    rw [hk, Nat.mod_add_mod, Nat.add_assoc, Nat.mod_add_mod]
    congr 1
    omega
  refine ⟨k + 1 + k', by rw [hk', hshift], ?_⟩
  intro j hj
  rcases Nat.lt_trichotomy j k with hlt | heq | hgt
  · exact hocc j hlt
  · rw [heq, ← hk]; exact hx
  · have hj' := hocc' (j - (k + 1)) (by omega)
    rw [hshift] at hj'
    rwa [show k + 1 + (j - (k + 1)) = j by omega] at hj'

/-- Every slot of the table is some number of steps from home. -/
theorem exists_step (hx : x < cap) (hh : home < cap) : ∃ k, k < cap ∧ x = (home + k) % cap := by
  by_cases hle : home ≤ x
  · exact ⟨x - home, by omega, by rw [Nat.mod_eq_of_lt (by omega)]; omega⟩
  · refine ⟨x + cap - home, by omega, ?_⟩
    rw [show home + (x + cap - home) = x + cap by omega, Nat.add_mod_right, Nat.mod_eq_of_lt hx]

/-- Different numbers of steps below one turn lead to different slots. -/
theorem step_inj {j k : Nat} (hj : j < cap) (hk : k < cap)
    (h : (home + j) % cap = (home + k) % cap) : j = k := by
  have hmod : j % cap = k % cap := Nat.ModEq.add_left_cancel' home h
  rwa [Nat.mod_eq_of_lt hj, Nat.mod_eq_of_lt hk] at hmod

end Reach

/-! ## The search -/

section Search

variable {stop : Nat → Bool} {depth home x : Nat}

/-- What a successful walk has seen. -/
theorem walk_some {fuel i : Nat} (hi : i < 2 ^ depth) (h : walk stop depth fuel i = some x) :
    ∃ k, k < fuel ∧ x = (i + k) % 2 ^ depth ∧ stop x = true ∧
      ∀ j, j < k → stop ((i + j) % 2 ^ depth) = false := by
  induction fuel generalizing i with
  | zero => exact absurd h (by simp [walk])
  | succ fuel ih =>
      rw [walk] at h
      by_cases hs : stop i = true
      · rw [if_pos hs, Option.some.injEq] at h
        exact ⟨0, Nat.succ_pos _, by rw [Nat.add_zero, Nat.mod_eq_of_lt hi, h], h ▸ hs,
          fun j hj => absurd hj (Nat.not_lt_zero j)⟩
      · rw [if_neg hs, and_mask] at h
        obtain ⟨k, hk, hx, hsx, hbefore⟩ := ih (Nat.mod_lt _ (Nat.two_pow_pos depth)) h
        have hshift : ∀ j, ((i + 1) % 2 ^ depth + j) % 2 ^ depth = (i + (j + 1)) % 2 ^ depth := by
          intro j
          rw [Nat.mod_add_mod]
          congr 1
          omega
        refine ⟨k + 1, Nat.succ_lt_succ hk, by rw [hx, hshift], hsx, ?_⟩
        intro j hj
        cases j with
        | zero => rw [Nat.add_zero, Nat.mod_eq_of_lt hi]; simpa using hs
        | succ j => rw [← hshift]; exact hbefore j (by omega)

/-- A walk with enough fuel to get to a stopping slot stops. -/
theorem walk_exists {fuel i k : Nat} (hi : i < 2 ^ depth) (hk : k < fuel)
    (hstop : stop ((i + k) % 2 ^ depth) = true) : ∃ y, walk stop depth fuel i = some y := by
  induction fuel generalizing i k with
  | zero => exact absurd hk (Nat.not_lt_zero k)
  | succ fuel ih =>
      rw [walk]
      by_cases hs : stop i = true
      · exact ⟨i, by rw [if_pos hs]⟩
      · rw [if_neg hs, and_mask]
        cases k with
        | zero =>
            rw [Nat.add_zero, Nat.mod_eq_of_lt hi] at hstop
            exact absurd hstop hs
        | succ k =>
            refine ih (Nat.mod_lt _ (Nat.two_pow_pos depth)) (Nat.lt_of_succ_lt_succ hk) ?_
            rw [Nat.mod_add_mod, show i + 1 + k = i + (k + 1) by omega]
            exact hstop

theorem probe_stop (hh : home < 2 ^ depth) (h : probe stop depth home = some x) :
    stop x = true := by
  obtain ⟨k, _, _, hs, _⟩ := walk_some hh h
  exact hs

theorem probe_lt (hh : home < 2 ^ depth) (h : probe stop depth home = some x) :
    x < 2 ^ depth := by
  obtain ⟨k, _, hx, _⟩ := walk_some hh h
  rw [hx]
  exact Nat.mod_lt _ (Nat.two_pow_pos depth)

theorem probe_reach (hh : home < 2 ^ depth) (h : probe stop depth home = some x) :
    Reach (fun i => stop i = false) (2 ^ depth) home x := by
  obtain ⟨k, _, hx, _, hbefore⟩ := walk_some hh h
  exact ⟨k, hx, hbefore⟩

/-- The search stops as soon as some slot of the table stops it. -/
theorem probe_exists (hh : home < 2 ^ depth) (hx : x < 2 ^ depth) (hs : stop x = true) :
    ∃ y, probe stop depth home = some y := by
  obtain ⟨k, hk, hxk⟩ := exists_step hx hh
  exact walk_exists hh hk (hxk ▸ hs)

/-- The search ends exactly when some slot of the table stops it. -/
theorem probe_ends_iff (hh : home < 2 ^ depth) :
    (∃ y, probe stop depth home = some y) ↔ ∃ x, x < 2 ^ depth ∧ stop x = true := by
  constructor
  · rintro ⟨y, hy⟩
    exact ⟨y, probe_lt hh hy, probe_stop hh hy⟩
  · rintro ⟨x, hx, hs⟩
    exact probe_exists hh hx hs

/-- The search finds the first stopping slot on its way. -/
theorem probe_eq_of_reach (hh : home < 2 ^ depth) (hs : stop x = true)
    (hr : Reach (fun i => stop i = false) (2 ^ depth) home x) :
    probe stop depth home = some x := by
  obtain ⟨k, hk, hxk, hbefore⟩ := hr.bounded (Nat.two_pow_pos depth)
  obtain ⟨y, hy⟩ := walk_exists hh hk (hxk ▸ hs)
  obtain ⟨m, hm, hym, hys, hmb⟩ := walk_some hh hy
  have hkm : k = m := by
    rcases Nat.lt_trichotomy k m with hlt | heq | hgt
    · have := hmb k hlt
      rw [← hxk, hs] at this
      exact absurd this (by simp)
    · exact heq
    · have := hbefore m hgt
      rw [← hym, hys] at this
      exact absurd this (by simp)
  rw [probe, hy, hym, ← hkm, ← hxk]

/-- The search depends on the stop condition inside the table only. -/
theorem probe_congr {stop' : Nat → Bool} (h : ∀ i, i < 2 ^ depth → stop i = stop' i)
    (hh : home < 2 ^ depth) : probe stop depth home = probe stop' depth home := by
  have hwalk : ∀ fuel i, i < 2 ^ depth → walk stop depth fuel i = walk stop' depth fuel i := by
    intro fuel
    induction fuel with
    | zero => exact fun _ _ => rfl
    | succ fuel ih =>
        intro i hi
        rw [walk, walk, h i hi, ih _ (and_mask_lt _ _)]
  exact hwalk _ home hh

/-- A search that ends at an empty slot has shown that the key is not in the table. -/
theorem probe_absent {empty key : Nat → Bool} (hh : home < 2 ^ depth)
    (h : probe (fun i => empty i || key i) depth home = some x) (hx : key x = false)
    {z : Nat} (hr : Reach (fun i => empty i = false) (2 ^ depth) home z) : key z = false := by
  by_contra hcon
  rw [Bool.not_eq_false] at hcon
  obtain ⟨k, hk, hzk, hbefore⟩ := hr.bounded (Nat.two_pow_pos depth)
  obtain ⟨m, hm, hxm, hxs, hmb⟩ := walk_some hh h
  have hempty : empty x = true := by simpa [hx] using hxs
  rcases Nat.lt_trichotomy k m with hlt | heq | hgt
  · have := hmb k hlt
    rw [← hzk] at this
    simp [hcon] at this
  · rw [heq, ← hxm] at hzk
    rw [hzk, hx] at hcon
    exact absurd hcon (by simp)
  · have := hbefore m hgt
    rw [← hxm, hempty] at this
    exact absurd this (by simp)

/-- Where every slot of the key is on the chain, a search that some slot stops ends at a slot of the
key, or at an empty one when there is none. -/
theorem probe_complete {empty key : Nat → Bool} {z : Nat} (hh : home < 2 ^ depth)
    (hz : z < 2 ^ depth) (hstops : empty z = true ∨ key z = true)
    (hreach : ∀ j, j < 2 ^ depth → key j = true →
      Reach (fun i => empty i = false) (2 ^ depth) home j) :
    ∃ x, probe (fun i => empty i || key i) depth home = some x ∧ x < 2 ^ depth ∧
      (key x = true ∨ empty x = true ∧ ∀ j, j < 2 ^ depth → key j = false) := by
  obtain ⟨x, hx⟩ : ∃ x, probe (fun i => empty i || key i) depth home = some x :=
    probe_exists hh hz (by rw [Bool.or_eq_true]; exact hstops)
  refine ⟨x, hx, probe_lt hh hx, ?_⟩
  cases hkey : key x with
  | true => exact Or.inl rfl
  | false =>
      have hstop := probe_stop hh hx
      simp only [hkey, Bool.or_false] at hstop
      refine Or.inr ⟨hstop, fun j hj => ?_⟩
      by_contra hcon
      have hmissed := probe_absent hh hx hkey (hreach j hj (by simpa using hcon))
      exact hcon hmissed

end Search

/-! ## Tables of keys

`keyAt` gives the key of each slot, with one value for the empty slots. A search for a key stops at
the key or at an empty slot; a key that is not there is put into the empty slot its search ends at.
-/

section Keyed

variable {κ : Type*} {empty key : κ} {home : κ → Nat} {keyAt : Nat → κ} {depth x : Nat}

/-- No key is in two slots and every key can be found from its home slot. -/
structure Keyed (empty : κ) (home : κ → Nat) (cap : Nat) (keyAt : Nat → κ) : Prop where
  unique : ∀ i j, i < cap → j < cap → keyAt i ≠ empty → keyAt i = keyAt j → i = j
  reach : ∀ i, i < cap → keyAt i ≠ empty →
    Reach (fun j => keyAt j ≠ empty) cap (home (keyAt i)) i

theorem Keyed.of_all_empty {cap : Nat} (h : ∀ i, i < cap → keyAt i = empty) :
    Keyed empty home cap keyAt where
  unique i _ hi _ hne _ := absurd (h i hi) hne
  reach i hi hne := absurd (h i hi) hne

variable [DecidableEq κ]

/-- Where the search for a key stops. -/
def keyStop (empty : κ) (keyAt : Nat → κ) (key : κ) (i : Nat) : Bool :=
  keyAt i == key || keyAt i == empty

theorem keyStop_eq_false_iff {i : Nat} :
    keyStop empty keyAt key i = false ↔ keyAt i ≠ key ∧ keyAt i ≠ empty := by
  rw [keyStop, Bool.or_eq_false_iff, beq_eq_false_iff_ne, beq_eq_false_iff_ne]

theorem keyStop_eq_true_iff {i : Nat} :
    keyStop empty keyAt key i = true ↔ keyAt i = key ∨ keyAt i = empty := by
  rw [keyStop, Bool.or_eq_true, beq_iff_eq, beq_iff_eq]

/-- The search for a key that is in the table ends at its slot. -/
theorem Keyed.probe_present (h : Keyed empty home (2 ^ depth) keyAt) (hx : x < 2 ^ depth)
    (hkey : keyAt x = key) (hne : key ≠ empty) (hhome : home key < 2 ^ depth) :
    probe (keyStop empty keyAt key) depth (home key) = some x := by
  have hpos := Nat.two_pow_pos depth
  have hr := h.reach x hx (hkey ▸ hne)
  rw [hkey] at hr
  obtain ⟨k, hk, hxk, hocc⟩ := hr.bounded hpos
  refine probe_eq_of_reach hhome (keyStop_eq_true_iff.mpr (Or.inl hkey)) ⟨k, hxk, fun j hj => ?_⟩
  refine keyStop_eq_false_iff.mpr ⟨fun hcon => ?_, hocc j hj⟩
  -- a slot before the last with the same key would be the last one
  have hsame := h.unique ((home key + j) % 2 ^ depth) x (Nat.mod_lt _ hpos) hx (hocc j hj)
    (hcon.trans hkey.symm)
  rw [hxk] at hsame
  exact absurd (step_inj (by omega) hk hsame) (by omega)

/-- With a free slot in the table the search for a key that is not there ends at a free slot. -/
theorem probe_free {z : Nat} (hhome : home key < 2 ^ depth) (hz : z < 2 ^ depth)
    (hempty : keyAt z = empty) (habsent : ∀ i, i < 2 ^ depth → keyAt i ≠ key) :
    ∃ x, probe (keyStop empty keyAt key) depth (home key) = some x ∧ x < 2 ^ depth ∧
      keyAt x = empty := by
  obtain ⟨x, hx⟩ := probe_exists hhome hz (keyStop_eq_true_iff.mpr (Or.inr hempty))
  have hlt := probe_lt hhome hx
  have hstop := keyStop_eq_true_iff.mp (probe_stop hhome hx)
  exact ⟨x, hx, hlt, hstop.resolve_left (habsent x hlt)⟩

/-- A new key goes into the free slot its search ends at. -/
theorem Keyed.insert (h : Keyed empty home (2 ^ depth) keyAt) (hhome : home key < 2 ^ depth)
    (hprobe : probe (keyStop empty keyAt key) depth (home key) = some x)
    (habsent : ∀ i, i < 2 ^ depth → keyAt i ≠ key) (hne : key ≠ empty) :
    Keyed empty home (2 ^ depth) (Function.update keyAt x key) := by
  have hpos := Nat.two_pow_pos depth
  have hkept : ∀ i, keyAt i ≠ empty → Function.update keyAt x key i ≠ empty := by
    intro i hi
    by_cases hix : i = x
    · rw [hix, Function.update_self]
      exact hne
    · rwa [Function.update_of_ne hix]
  constructor
  · intro i j hi hj hocc heq
    by_cases hix : i = x
    · by_cases hjx : j = x
      · rw [hix, hjx]
      · rw [hix, Function.update_self, Function.update_of_ne hjx] at heq
        exact absurd heq.symm (habsent j hj)
    · rw [Function.update_of_ne hix] at heq hocc
      by_cases hjx : j = x
      · rw [hjx, Function.update_self] at heq
        exact absurd heq (habsent i hi)
      · rw [Function.update_of_ne hjx] at heq
        exact h.unique i j hi hj hocc heq
  · intro i hi hocc
    by_cases hix : i = x
    · rw [hix, Function.update_self]
      refine (probe_reach hhome hprobe).mono (fun j _ hj => hkept j ?_) hpos
      exact (keyStop_eq_false_iff.mp hj).2
    · rw [Function.update_of_ne hix] at hocc ⊢
      exact (h.reach i hi hocc).mono (fun j _ hj => hkept j hj) hpos

end Keyed

end Probe
