import Mathlib.Data.List.AList
import Mathlib.Tactic

set_option autoImplicit false

/-! # Maps to sets

A map whose values are sets, kept as lists without repetition, and which has no entry for an empty
set: `add` makes the entry of a key when its first member comes, `remove` erases it with the last.
`members` reads an absent entry as the empty set; `mem_members_add` and `mem_members_remove` say what
the operations do to it, and `WellFormed` is what they keep.
-/

/-- A map from keys to lists of members. -/
abbrev MultiMap (κ β : Type*) := AList (fun _ : κ => List β)

namespace MultiMap

variable {κ β : Type*} [DecidableEq κ]

def members (m : MultiMap κ β) (k : κ) : List β := (m.lookup k).getD []

/-- Every entry is a set with a member. -/
def WellFormed (m : MultiMap κ β) : Prop :=
  ∀ k bs, m.lookup k = some bs → bs.Nodup ∧ bs ≠ []

variable {m : MultiMap κ β}

theorem wellFormed_empty : WellFormed (∅ : MultiMap κ β) := by
  intro k bs h
  rw [AList.lookup_empty] at h
  cases h

theorem WellFormed.nodup_members (h : m.WellFormed) (k : κ) : (m.members k).Nodup := by
  rw [members]
  cases hk : m.lookup k with
  | none => exact List.nodup_nil
  | some bs => exact (h k bs hk).1

theorem members_insert (k k' : κ) (bs : List β) :
    members (AList.insert k bs m) k' = if k' = k then bs else m.members k' := by
  unfold members
  split
  · next h => rw [h, AList.lookup_insert, Option.getD_some]
  · next h => rw [AList.lookup_insert_ne h]

theorem members_erase (k k' : κ) :
    members (AList.erase k m) k' = if k' = k then [] else m.members k' := by
  unfold members
  split
  · next h => rw [h, AList.lookup_erase, Option.getD_none]
  · next h => rw [AList.lookup_erase_ne h]

theorem WellFormed.insert (hm : m.WellFormed) {k : κ} {bs : List β} (hbs : bs.Nodup)
    (hne : bs ≠ []) : WellFormed (AList.insert k bs m) := by
  intro k' bs' h
  by_cases hk : k' = k
  · rw [hk, AList.lookup_insert] at h
    obtain rfl := Option.some.inj h
    exact ⟨hbs, hne⟩
  · rw [AList.lookup_insert_ne hk] at h
    exact hm k' bs' h

variable [DecidableEq β]

def add (m : MultiMap κ β) (k : κ) (b : β) : MultiMap κ β :=
  AList.insert k ((m.members k).insert b) m

def remove (m : MultiMap κ β) (b : β) (k : κ) : MultiMap κ β :=
  match m.lookup k with
  | none => m
  | some bs => if (bs.erase b).isEmpty then AList.erase k m else AList.insert k (bs.erase b) m

theorem mem_members_add {k k' : κ} {b b' : β} :
    b' ∈ (m.add k b).members k' ↔ (k' = k ∧ b' = b) ∨ b' ∈ m.members k' := by
  rw [add, members_insert]
  by_cases h : k' = k
  · rw [if_pos h, List.mem_insert_iff, h]
    simp
  · rw [if_neg h]
    simp [h]

/-- Removing a member changes the set of its key only. -/
theorem members_remove (b : β) (k k' : κ) :
    (m.remove b k).members k' = if k' = k then (m.members k).erase b else m.members k' := by
  unfold remove
  cases hk : m.lookup k with
  | none =>
      by_cases h : k' = k
      · rw [if_pos h, h]
        simp [members, hk]
      · rw [if_neg h]
  | some bs =>
      have hbs : m.members k = bs := by rw [members, hk, Option.getD_some]
      dsimp only
      split
      · next hempty => rw [members_erase, hbs, List.isEmpty_iff.mp hempty]
      · rw [members_insert, hbs]

theorem mem_members_remove (hm : m.WellFormed) {k k' : κ} {b b' : β} :
    b' ∈ (m.remove b k).members k' ↔ b' ∈ m.members k' ∧ ¬ (k' = k ∧ b' = b) := by
  rw [members_remove]
  by_cases h : k' = k
  · rw [if_pos h, (hm.nodup_members k).mem_erase_iff, h]
    tauto
  · rw [if_neg h]
    tauto

theorem WellFormed.add (hm : m.WellFormed) (k : κ) (b : β) : (m.add k b).WellFormed :=
  hm.insert ((hm.nodup_members k).insert) (List.ne_nil_of_mem List.mem_insert_self)

theorem WellFormed.remove (hm : m.WellFormed) (b : β) (k : κ) : (m.remove b k).WellFormed := by
  unfold MultiMap.remove
  cases hk : m.lookup k with
  | none => exact hm
  | some bs =>
      dsimp only
      split
      · intro k' bs' h
        by_cases hk' : k' = k
        · rw [hk', AList.lookup_erase] at h
          cases h
        · rw [AList.lookup_erase_ne hk'] at h
          exact hm k' bs' h
      · next hne => exact hm.insert ((hm k bs hk).1.erase b) (by simpa using hne)

/-- Removing one member from the sets of several keys. -/
theorem WellFormed.foldl_remove (hm : m.WellFormed) (b : β) (ks : List κ) :
    (ks.foldl (fun m k => m.remove b k) m).WellFormed := by
  induction ks generalizing m with
  | nil => exact hm
  | cons k ks ih => exact ih (hm.remove b k)

theorem mem_members_foldl_remove (hm : m.WellFormed) {ks : List κ} {k' : κ} {b b' : β} :
    b' ∈ (ks.foldl (fun m k => m.remove b k) m).members k' ↔
      b' ∈ m.members k' ∧ ¬ (k' ∈ ks ∧ b' = b) := by
  induction ks generalizing m with
  | nil => simp
  | cons k ks ih =>
      rw [List.foldl_cons, ih (hm.remove b k), mem_members_remove hm, List.mem_cons]
      tauto

end MultiMap
