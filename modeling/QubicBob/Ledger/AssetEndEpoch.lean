import QubicBob.Ledger.AssetRebuild

set_option autoImplicit false

/-! # The asset table after the end of an epoch

After `n` slots of the old table the new one mirrors the records that some possession among them
needs (`Needed`), and a holding has got back the shares of the possessions seen so far (`Weight`).
After all slots these are the records with shares left, and every holding has its old share count:
`reinsertAll_mirrors` is the run, `Rebuilt` what is known of the two tables at its end.
-/

namespace QubicBob

open Probe BitWords Tally

/-! ## What has been moved after some slots -/

/-- The loop does something for this slot. -/
def Moves (assets : Assets) (p : Nat) : Prop :=
  (assets p).type = POSSESSION ∧ 0 < (assets p).numberOfShares.toInt

/-- The slot of the ownership the possession in slot `p` is under. -/
def oldOwnership (assets : Assets) (p : Nat) : Nat := (assets p).index.toNat

/-- The slot of the issuance the possession in slot `p` belongs to. -/
def oldIssuance (assets : Assets) (p : Nat) : Nat := (assets (oldOwnership assets p)).index.toNat

/-- A possession below slot `n` with shares left needs the record in slot `i`. -/
def Needed (assets : Assets) (n i : Nat) : Prop :=
  ∃ p, p < n ∧ Moves assets p ∧
    (i = oldIssuance assets p ∨ i = oldOwnership assets p ∨ i = p)

/-- The shares slot `i` has got back after `n` slots. -/
def Weight (assets : Assets) (n i : Nat) : Int :=
  if (assets i).type = OWNERSHIP then tally n (AssetRecord.part POSSESSION i) assets
  else if (assets i).type = POSSESSION ∧ i < n then (assets i).shares
  else 0

section Weight

variable {depth : Nat} {A : Assets} {acc : Accounts} {n i p : Nat}

theorem Needed.succ_of_moves (h : Moves A n) (i : Nat) :
    Needed A (n + 1) i ↔
      ((Needed A n i ∨ i = oldIssuance A n) ∨ i = oldOwnership A n) ∨ i = n := by
  constructor
  · rintro ⟨p, hp, hmoves, hi⟩
    rcases Nat.lt_succ_iff_lt_or_eq.mp hp with hlt | rfl
    · exact Or.inl (Or.inl (Or.inl ⟨p, hlt, hmoves, hi⟩))
    · rcases hi with hi | hi | hi
      · exact Or.inl (Or.inl (Or.inr hi))
      · exact Or.inl (Or.inr hi)
      · exact Or.inr hi
  · rintro (((⟨p, hp, hmoves, hi⟩ | hi) | hi) | hi)
    · exact ⟨p, by omega, hmoves, hi⟩
    · exact ⟨n, by omega, h, Or.inl hi⟩
    · exact ⟨n, by omega, h, Or.inr (Or.inl hi)⟩
    · exact ⟨n, by omega, h, Or.inr (Or.inr hi)⟩

theorem Needed.succ_of_not_moves (h : ¬ Moves A n) (i : Nat) :
    Needed A (n + 1) i ↔ Needed A n i := by
  constructor
  · rintro ⟨p, hp, hmoves, hi⟩
    rcases Nat.lt_succ_iff_lt_or_eq.mp hp with hlt | rfl
    · exact ⟨p, hlt, hmoves, hi⟩
    · exact absurd hmoves h
  · rintro ⟨p, hp, hmoves, hi⟩
    exact ⟨p, by omega, hmoves, hi⟩

theorem weight_ownership (ht : (A i).type = OWNERSHIP) :
    Weight A n i = tally n (AssetRecord.part POSSESSION i) A :=
  if_pos ht

theorem weight_possession (ht : (A i).type = POSSESSION) :
    Weight A n i = if i < n then (A i).shares else 0 := by
  rw [Weight, if_neg (by rw [ht]; decide)]
  simp only [ht, true_and]

theorem weight_other (hO : (A i).type ≠ OWNERSHIP) (hP : (A i).type ≠ POSSESSION) :
    Weight A n i = 0 := by
  rw [Weight, if_neg hO, if_neg (fun hc => hP hc.1)]

theorem part_nonneg (h : NonNegative depth A POSSESSION) (hp : p < 2 ^ depth) (i : Nat) :
    0 ≤ AssetRecord.part POSSESSION i (A p) := by
  unfold AssetRecord.part
  split
  · next hc => exact h p hp hc.1
  · exact le_refl 0

/-- A possession that is not moved has no shares. -/
theorem part_of_not_moves (h : NonNegative depth A POSSESSION) (hp : p < 2 ^ depth)
    (hmoves : ¬ Moves A p) (i : Nat) : AssetRecord.part POSSESSION i (A p) = 0 := by
  by_cases ht : (A p).type = POSSESSION
  · have hnonneg := h p hp ht
    have hzero : (A p).shares = 0 := by
      have hle : ¬ 0 < (A p).shares := fun hc => hmoves ⟨ht, hc⟩
      omega
    rw [part_of_type ht, hzero, ite_self]
  · exact part_of_type_ne ht

theorem weight_nonneg (h : NonNegative depth A POSSESSION) (hn : n ≤ 2 ^ depth) :
    0 ≤ Weight A n i := by
  unfold Weight
  split
  · apply Finset.sum_nonneg
    intro j hj
    have hlt := Finset.mem_range.mp hj
    exact part_nonneg h (by omega) i
  · split
    · next hc => exact h i (by omega) hc.1
    · exact le_refl 0

/-- An ownership never gets back more than it had. -/
theorem weight_le (h : TableInvariant depth A acc) (hn : n ≤ 2 ^ depth) (hi : i < 2 ^ depth)
    (ht : (A i).type = OWNERSHIP) : Weight A n i ≤ (A i).shares := by
  rw [weight_ownership ht, h.books.ownership i hi ht]
  refine Finset.sum_le_sum_of_subset_of_nonneg (Finset.range_subset_range.mpr hn) ?_
  intro j hj _
  exact part_nonneg (h.books.nonNegative (Or.inr rfl)) (Finset.mem_range.mp hj) i

/-- A slot that is passed over adds nothing. -/
theorem weight_succ_of_not_moves (h : NonNegative depth A POSSESSION) (hn : n < 2 ^ depth)
    (hmoves : ¬ Moves A n) : Weight A (n + 1) = Weight A n := by
  funext i
  by_cases hO : (A i).type = OWNERSHIP
  · rw [weight_ownership hO, weight_ownership hO, tally_succ, part_of_not_moves h hn hmoves]
    ring
  by_cases hP : (A i).type = POSSESSION
  · rw [weight_possession hP, weight_possession hP]
    by_cases hin : i = n
    · have hnonneg := h n hn (hin ▸ hP)
      have hle : ¬ 0 < (A n).shares := fun hc => hmoves ⟨hin ▸ hP, hc⟩
      rw [hin, if_pos (Nat.lt_succ_self n), if_neg (lt_irrefl n)]
      omega
    · have hiff : i < n + 1 ↔ i < n := by omega
      rw [if_congr hiff rfl rfl]
  · rw [weight_other hO hP, weight_other hO hP]

/-- An ownership gets the shares of each of its possessions. -/
theorem weight_succ_ownership (hmoves : Moves A n) (ht : (A (oldOwnership A n)).type = OWNERSHIP) :
    Weight A (n + 1) (oldOwnership A n) = Weight A n (oldOwnership A n) + (A n).shares := by
  have hpart : AssetRecord.part POSSESSION (oldOwnership A n) (A n) = (A n).shares :=
    if_pos ⟨hmoves.1, rfl⟩
  rw [weight_ownership ht, weight_ownership ht, tally_succ, hpart]

/-- A possession adds its shares to itself and to its ownership. -/
theorem weight_succ_of_moves (h : TableShape depth A) (hn : n < 2 ^ depth) (hmoves : Moves A n) :
    Weight A (n + 1) = Function.update
      (Function.update (Weight A n) (oldOwnership A n)
        (Weight A n (oldOwnership A n) + (A n).shares)) n (Weight A n n + (A n).shares) := by
  have htO : (A (oldOwnership A n)).type = OWNERSHIP := ((h.linked n hn).2 hmoves.1).2
  funext i
  by_cases hin : i = n
  · rw [hin, Function.update_self, weight_possession hmoves.1, weight_possession hmoves.1,
      if_pos (Nat.lt_succ_self n), if_neg (lt_irrefl n)]
    ring
  rw [Function.update_of_ne hin]
  by_cases hio : i = oldOwnership A n
  · rw [hio, Function.update_self, weight_succ_ownership hmoves htO]
  rw [Function.update_of_ne hio]
  by_cases hO : (A i).type = OWNERSHIP
  · have hpart : AssetRecord.part POSSESSION i (A n) = 0 :=
      if_neg (fun hc => hio hc.2.symm)
    rw [weight_ownership hO, weight_ownership hO, tally_succ, hpart]
    ring
  by_cases hP : (A i).type = POSSESSION
  · have hiff : i < n + 1 ↔ i < n := by omega
    rw [weight_possession hP, weight_possession hP, if_congr hiff rfl rfl]
  · rw [weight_other hO hP, weight_other hO hP]

end Weight

/-! ## The loop -/

section Loop

variable {depth : Nat} {A R : Assets} {acc : Accounts} {n : Nat}

theorem reinsertAll_append (xs ys : List Nat) (R : Assets) :
    reinsertAll depth A (xs ++ ys) R
      = (reinsertAll depth A xs R).bind (reinsertAll depth A ys) := by
  induction xs generalizing R with
  | nil => rfl
  | cons x xs ih =>
      rw [List.cons_append, reinsertAll, reinsertAll]
      split
      · simp only [bind, Except.bind]
        cases reinsert depth A R x with
        | error e => rfl
        | ok R' => exact ih R'
      · exact ih R

/-- The empty table mirrors nothing. -/
theorem mirrors_empty : Mirrors depth A (fun _ => AssetRecord.empty) (Needed A 0) (Weight A 0) := by
  have hnone : ∀ i, ¬ Needed A 0 i := by
    rintro i ⟨p, hp, _⟩
    omega
  have htwin : ∀ i j, ¬ Twin depth A (fun _ => AssetRecord.empty) i j :=
    fun i j ht => ht.occupied rfl
  constructor
  case shape =>
    exact shape_of_empty (fun _ _ => rfl)
  case sound =>
    intro j _ hocc
    exact absurd rfl hocc
  case complete =>
    intro i hi
    exact absurd hi (hnone i)
  case issuance =>
    intro i j ht
    exact absurd ht (htwin i j)
  case shares =>
    intro i j ht
    exact absurd ht (htwin i j)
  case fresh =>
    intro i _
    by_cases hO : (A i).type = OWNERSHIP
    · rw [weight_ownership hO]
      rfl
    by_cases hP : (A i).type = POSSESSION
    · rw [weight_possession hP, if_neg (Nat.not_lt_zero i)]
    · exact weight_other hO hP

/-- One slot of the loop. -/
theorem reinsertAll_step (hdepth : depth ≤ 31) (h : TableInvariant depth A acc)
    (hn : n < 2 ^ depth) (hm : Mirrors depth A R (Needed A n) (Weight A n)) :
    ∃ R', reinsertAll depth A [n] R = .ok R' ∧
      Mirrors depth A R' (Needed A (n + 1)) (Weight A (n + 1)) := by
  have hnonneg : NonNegative depth A POSSESSION := h.books.nonNegative (Or.inr rfl)
  by_cases hmoves : Moves A n
  · obtain ⟨holt, htO⟩ := (h.shape.linked n hn).2 hmoves.1
    have hfitO : Weight A n (oldOwnership A n) + (A n).shares < 2 ^ 63 := by
      have hbound : (A (oldOwnership A n)).shares < 2 ^ 63 := BitVec.toInt_lt
      calc Weight A n (oldOwnership A n) + (A n).shares
          = Weight A (n + 1) (oldOwnership A n) := (weight_succ_ownership hmoves htO).symm
        _ ≤ (A (oldOwnership A n)).shares := weight_le h (by omega) holt htO
        _ < 2 ^ 63 := hbound
    have hfitP : Weight A n n + (A n).shares < 2 ^ 63 := by
      have hbound : (A n).shares < 2 ^ 63 := BitVec.toInt_lt
      rw [weight_possession hmoves.1, if_neg (lt_irrefl n)]
      omega
    obtain ⟨R', hR', hm'⟩ := hm.reinsert hdepth h.shape hn hmoves.1 rfl rfl hmoves.2
      (weight_nonneg hnonneg hn.le) (weight_nonneg hnonneg hn.le) hfitO hfitP
    refine ⟨R', ?_, ?_⟩
    · rw [reinsertAll, if_pos (show _ ∧ _ from hmoves), hR']
      rfl
    · rw [weight_succ_of_moves h.shape hn hmoves]
      exact hm'.congr (fun i => (Needed.succ_of_moves hmoves i).symm)
  · refine ⟨R, ?_, ?_⟩
    · rw [reinsertAll, if_neg (show ¬ (_ ∧ _) from hmoves)]
      rfl
    · rw [weight_succ_of_not_moves hnonneg hn hmoves]
      exact hm.congr (fun i => (Needed.succ_of_not_moves hmoves i).symm)

/-- The loop over the first `n` slots. -/
theorem reinsertAll_mirrors (hdepth : depth ≤ 31) (h : TableInvariant depth A acc)
    (hn : n ≤ 2 ^ depth) :
    ∃ R, reinsertAll depth A (List.range n) (fun _ => AssetRecord.empty) = .ok R ∧
      Mirrors depth A R (Needed A n) (Weight A n) := by
  induction n with
  | zero => exact ⟨_, rfl, mirrors_empty⟩
  | succ n ih =>
      obtain ⟨R, hR, hm⟩ := ih (by omega)
      obtain ⟨R', hR', hm'⟩ := reinsertAll_step hdepth h (by omega) hm
      refine ⟨R', ?_, hm'⟩
      rw [List.range_succ, reinsertAll_append, hR]
      exact hR'

end Loop

/-! ## The two tables compared -/

/-- The shares a record stands for: of an issuance, those of its ownerships. -/
def remaining (depth : Nat) (assets : Assets) (i : Nat) : Int :=
  if (assets i).type = ISSUANCE then held depth assets OWNERSHIP i else (assets i).shares

/-- The record in slot `i` has shares left. -/
def Remains (depth : Nat) (assets : Assets) (i : Nat) : Prop :=
  i < 2 ^ depth ∧ (∃ K, keyOf assets i = some K) ∧ 0 < remaining depth assets i

/-- The new table `R` has the records of `A` with shares left, and nothing else. -/
structure Rebuilt (depth : Nat) (A R : Assets) : Prop where
  shape : TableShape depth R
  sound : ∀ j, j < 2 ^ depth → (R j).type ≠ EMPTY → ∃ i, Remains depth A i ∧ Twin depth A R i j
  complete : ∀ i, Remains depth A i → ∃ j, Twin depth A R i j
  issuance : ∀ i j, Twin depth A R i j → (A i).type = ISSUANCE → R j = A i
  shares : ∀ i j, Twin depth A R i j → (A i).type ≠ ISSUANCE → (R j).shares = (A i).shares

section Remains

variable {depth : Nat} {A : Assets} {acc : Accounts} {i p : Nat} {kind : BitVec 8}

theorem exists_of_held_pos (h : 0 < held depth A kind i) :
    ∃ p, p < 2 ^ depth ∧ (A p).type = kind ∧ (A p).index.toNat = i ∧ 0 < (A p).shares := by
  obtain ⟨p, hp, hpos⟩ := exists_of_tally_pos h
  by_cases hc : (A p).type = kind ∧ (A p).index.toNat = i
  · rw [AssetRecord.part, if_pos hc] at hpos
    exact ⟨p, hp, hc.1, hc.2, hpos⟩
  · rw [AssetRecord.part, if_neg hc] at hpos
    exact absurd hpos (lt_irrefl 0)

theorem Moves.ownership (h : TableInvariant depth A acc) (hp : p < 2 ^ depth) (hm : Moves A p) :
    oldOwnership A p < 2 ^ depth ∧ (A (oldOwnership A p)).type = OWNERSHIP ∧
      0 < (A (oldOwnership A p)).shares := by
  obtain ⟨hlt, ht⟩ := (h.shape.linked p hp).2 hm.1
  refine ⟨hlt, ht, ?_⟩
  have hpos : 0 < (A p).shares := hm.2
  calc 0 < (A p).shares := hpos
    _ ≤ held depth A POSSESSION (oldOwnership A p) :=
        shares_le_held (h.books.nonNegative (Or.inr rfl)) hp hm.1
    _ = (A (oldOwnership A p)).shares := (h.books.ownership _ hlt ht).symm

theorem Moves.issuance (h : TableInvariant depth A acc) (hp : p < 2 ^ depth) (hm : Moves A p) :
    oldIssuance A p < 2 ^ depth ∧ (A (oldIssuance A p)).type = ISSUANCE ∧
      0 < held depth A OWNERSHIP (oldIssuance A p) := by
  obtain ⟨hltO, htO, hpos⟩ := hm.ownership h hp
  obtain ⟨hlt, ht⟩ := (h.shape.linked _ hltO).1 htO
  refine ⟨hlt, ht, ?_⟩
  calc 0 < (A (oldOwnership A p)).shares := hpos
    _ ≤ held depth A OWNERSHIP (oldIssuance A p) :=
        shares_le_held (h.books.nonNegative (Or.inl rfl)) hltO htO

/-- Some possession under an ownership with shares left has shares left. -/
theorem exists_moves_of_ownership (h : TableInvariant depth A acc) (hi : i < 2 ^ depth)
    (ht : (A i).type = OWNERSHIP) (hpos : 0 < (A i).shares) :
    ∃ p, p < 2 ^ depth ∧ Moves A p ∧ oldOwnership A p = i := by
  rw [h.books.ownership i hi ht] at hpos
  obtain ⟨p, hp, htP, hindex, hs⟩ := exists_of_held_pos hpos
  exact ⟨p, hp, ⟨htP, hs⟩, hindex⟩

theorem keyOf_kinds {K : AssetKey} (h : keyOf A i = some K) :
    (A i).type = ISSUANCE ∨ (A i).type = OWNERSHIP ∨ (A i).type = POSSESSION := by
  rw [keyOf_kind h]
  cases K with
  | issuance => exact Or.inl rfl
  | ownership => exact Or.inr (Or.inl rfl)
  | possession => exact Or.inr (Or.inr rfl)

theorem remaining_issuance (ht : (A i).type = ISSUANCE) :
    remaining depth A i = held depth A OWNERSHIP i :=
  if_pos ht

theorem remaining_holding (ht : (A i).type ≠ ISSUANCE) : remaining depth A i = (A i).shares :=
  if_neg ht

/-- What is needed in the end is what has shares left. -/
theorem needed_iff (h : TableInvariant depth A acc) (i : Nat) :
    Needed A (2 ^ depth) i ↔ Remains depth A i := by
  constructor
  · rintro ⟨p, hp, hmoves, hi⟩
    obtain ⟨hltO, htO, hposO⟩ := hmoves.ownership h hp
    obtain ⟨hltX, htX, hposX⟩ := hmoves.issuance h hp
    rcases hi with rfl | rfl | rfl
    · refine ⟨hltX, exists_keyOf (Or.inl htX), ?_⟩
      rw [remaining_issuance htX]
      exact hposX
    · refine ⟨hltO, exists_keyOf (Or.inr (Or.inl htO)), ?_⟩
      rw [remaining_holding (by rw [htO]; decide)]
      exact hposO
    · refine ⟨hp, exists_keyOf (Or.inr (Or.inr hmoves.1)), ?_⟩
      rw [remaining_holding (by rw [hmoves.1]; decide)]
      exact hmoves.2
  · rintro ⟨hi, ⟨K, hK⟩, hpos⟩
    rcases keyOf_kinds hK with ht | ht | ht
    · rw [remaining_issuance ht] at hpos
      obtain ⟨o, ho, htO, hindex, hs⟩ := exists_of_held_pos hpos
      obtain ⟨p, hp, hmoves, rfl⟩ := exists_moves_of_ownership h ho htO hs
      exact ⟨p, hp, hmoves, Or.inl hindex.symm⟩
    · rw [remaining_holding (by rw [ht]; decide)] at hpos
      obtain ⟨p, hp, hmoves, rfl⟩ := exists_moves_of_ownership h hi ht hpos
      exact ⟨p, hp, hmoves, Or.inr (Or.inl rfl)⟩
    · rw [remaining_holding (by rw [ht]; decide)] at hpos
      exact ⟨i, hi, ⟨ht, hpos⟩, Or.inr (Or.inr rfl)⟩

/-- In the end a holding has got back what it had. -/
theorem weight_all (h : TableInvariant depth A acc) (hi : i < 2 ^ depth)
    (ht : (A i).type = OWNERSHIP ∨ (A i).type = POSSESSION) :
    Weight A (2 ^ depth) i = (A i).shares := by
  rcases ht with ht | ht
  · rw [weight_ownership ht, h.books.ownership i hi ht]
    rfl
  · rw [weight_possession ht, if_pos hi]

end Remains

section Rebuilt

variable {depth : Nat} {A R R' : Assets} {acc : Accounts} {i j : Nat} {kind : BitVec 8}

theorem Twin.kinds (h : Twin depth A R i j) :
    (A i).type = ISSUANCE ∨ (A i).type = OWNERSHIP ∨ (A i).type = POSSESSION := by
  obtain ⟨_, _, K, hK, _⟩ := h
  exact keyOf_kinds hK

theorem rebuilt_of_mirrors (h : TableInvariant depth A acc)
    (hm : Mirrors depth A R (Needed A (2 ^ depth)) (Weight A (2 ^ depth))) :
    Rebuilt depth A R := by
  constructor
  case shape => exact hm.shape
  case sound =>
    intro j hj hocc
    obtain ⟨i, hi, ht⟩ := hm.sound j hj hocc
    exact ⟨i, (needed_iff h i).mp hi, ht⟩
  case complete => exact fun i hi => hm.complete i ((needed_iff h i).mpr hi)
  case issuance => exact hm.issuance
  case shares =>
    intro i j ht hne
    rw [hm.shares i j ht hne]
    refine weight_all h ht.1 ?_
    rcases ht.kinds with hk | hk
    · exact absurd hk hne
    · exact hk

/-- Slots beyond the table do not matter to its shape. -/
theorem TableShape.congr (h : TableShape depth R) (hsame : ∀ i, i < 2 ^ depth → R' i = R i) :
    TableShape depth R' := by
  have htype : ∀ i, i < 2 ^ depth → (R i).type ≠ EMPTY → (R' i).type = (R i).type :=
    fun i hi _ => by rw [hsame i hi]
  constructor
  case empty =>
    intro i hi ht
    rw [hsame i hi] at ht ⊢
    exact h.empty i hi ht
  case linked =>
    intro i hi
    rw [hsame i hi]
    exact (h.linked i hi).mono htype
  case unique =>
    intro i j hi hj hkey
    rw [hsame i hi, hsame j hj] at hkey
    exact h.unique i j hi hj hkey
  case reach =>
    intro i hi ht
    rw [hsame i hi] at ht ⊢
    exact (h.reach i hi ht).mono (fun k hk hocc => by rw [hsame k hk]; exact hocc)

theorem Rebuilt.congr (h : Rebuilt depth A R) (hsame : ∀ i, i < 2 ^ depth → R' i = R i) :
    Rebuilt depth A R' := by
  have hto : ∀ i j, Twin depth A R i j → Twin depth A R' i j :=
    fun i j ht => ht.congr h.shape (fun k hk _ => by rw [hsame k hk])
  have hfrom : ∀ i j, Twin depth A R' i j → Twin depth A R i j :=
    fun i j ht => ht.congr (h.shape.congr hsame) (fun k hk _ => by rw [hsame k hk])
  constructor
  case shape => exact h.shape.congr hsame
  case sound =>
    intro j hj hocc
    rw [hsame j hj] at hocc
    obtain ⟨i, hi, ht⟩ := h.sound j hj hocc
    exact ⟨i, hi, hto i j ht⟩
  case complete =>
    intro i hi
    obtain ⟨j, ht⟩ := h.complete i hi
    exact ⟨j, hto i j ht⟩
  case issuance =>
    intro i j ht hk
    rw [hsame j ht.2.1]
    exact h.issuance i j (hfrom i j ht) hk
  case shares =>
    intro i j ht hk
    rw [hsame j ht.2.1]
    exact h.shares i j (hfrom i j ht) hk

/-- The slot references point to the moved records. -/
theorem Rebuilt.link (hA : TableShape depth A) (h : Rebuilt depth A R) (ht : Twin depth A R i j)
    (hk : (A i).type = OWNERSHIP ∨ (A i).type = POSSESSION) :
    Twin depth A R (A i).index.toNat (R j).index.toNat := by
  have hkR : (R j).type = OWNERSHIP ∨ (R j).type = POSSESSION := by rwa [ht.type]
  obtain ⟨hi, hj, K, hKi, hKj⟩ := ht
  obtain ⟨hlt, P, hP, hPK⟩ := hA.keyOf_link hi hk hKi
  obtain ⟨hlt', P', hP', hPK'⟩ := h.shape.keyOf_link hj hkR hKj
  obtain ⟨rfl, -, -⟩ := AssetKey.holding_inj hPK hPK'
  exact ⟨hlt, hlt', P, hP, hP'⟩

/-- What is held under a record is held under its twin. -/
theorem Rebuilt.held_eq (h : TableInvariant depth A acc) (hr : Rebuilt depth A R)
    (hkind : kind = OWNERSHIP ∨ kind = POSSESSION) (ht : Twin depth A R i j) :
    held depth A kind i = held depth R kind j := by
  have hne : kind ≠ ISSUANCE := by rcases hkind with rfl | rfl <;> decide
  refine @tally_eq_of_matching _ _ _ _ _ _ _ (Twin depth A R) ?_ ?_ ?_ ?_
  · intro a ha hpart
    have hc : (A a).type = kind ∧ (A a).index.toNat = i := by
      by_contra hc
      exact hpart (if_neg hc)
    rw [AssetRecord.part, if_pos hc] at hpart ⊢
    have htOP : (A a).type = OWNERSHIP ∨ (A a).type = POSSESSION := by rwa [hc.1]
    have hneA : (A a).type ≠ ISSUANCE := by rwa [hc.1]
    have hnonneg := h.books.nonneg a ha htOP
    obtain ⟨b, hab⟩ := hr.complete a ⟨ha, exists_keyOf (Or.inr htOP), by
      rw [remaining_holding hneA]
      omega⟩
    have hlink := hr.link h.shape hab htOP
    rw [hc.2] at hlink
    refine ⟨b, hab.2.1, hab, ?_⟩
    rw [AssetRecord.part, if_pos ⟨hab.type.trans hc.1, hlink.right hr.shape ht⟩,
      hr.shares a b hab hneA]
  · intro b hb hpart
    have hc : (R b).type = kind ∧ (R b).index.toNat = j := by
      by_contra hc
      exact hpart (if_neg hc)
    obtain ⟨a, _, hab⟩ := hr.sound b hb (by
      rw [hc.1]
      rcases hkind with rfl | rfl <;> decide)
    have htA : (A a).type = kind := by rw [← hab.type, hc.1]
    have htOP : (A a).type = OWNERSHIP ∨ (A a).type = POSSESSION := by rwa [htA]
    have hlink := hr.link h.shape hab htOP
    rw [hc.2] at hlink
    refine ⟨a, hab.1, hab, ?_⟩
    rw [AssetRecord.part, if_pos hc, AssetRecord.part,
      if_pos ⟨htA, hlink.left h.shape ht⟩, hr.shares a b hab (by rwa [htA])]
  · exact fun a a' b _ _ hab hab' => hab.left h.shape hab'
  · exact fun a b b' _ _ hab hab' => hab.right hr.shape hab'

/-- The new table has the invariant, with the accounts of the issuances it keeps. -/
theorem Rebuilt.invariant (h : TableInvariant depth A acc) (hr : Rebuilt depth A R) :
    ∃ acc', TableInvariant depth R acc' ∧ ∀ i j, Twin depth A R i j →
      acc'.issued j = acc.issued i ∧ acc'.burned j = acc.burned i := by
  have horigin : ∀ j, ∃ i, ∀ i', Twin depth A R i' j → i = i' := by
    intro j
    by_cases hex : ∃ i, Twin depth A R i j
    · obtain ⟨i, ht⟩ := hex
      exact ⟨i, fun i' ht' => ht.left h.shape ht'⟩
    · exact ⟨0, fun i' ht' => absurd ⟨i', ht'⟩ hex⟩
  choose origin horigin using horigin
  have hacc : ∀ i j, Twin depth A R i j → acc.issued (origin j) = acc.issued i ∧
      acc.burned (origin j) = acc.burned i := by
    intro i j ht
    rw [horigin j i ht]
    exact ⟨rfl, rfl⟩
  refine ⟨⟨fun j => acc.issued (origin j), fun j => acc.burned (origin j)⟩, ⟨hr.shape, ?_⟩, hacc⟩
  -- each fact about a slot is that about its twin
  have htwin : ∀ j, j < 2 ^ depth → (R j).type ≠ EMPTY →
      ∃ i, i < 2 ^ depth ∧ Twin depth A R i j ∧ (R j).type = (A i).type := by
    intro j hj hocc
    obtain ⟨i, _, ht⟩ := hr.sound j hj hocc
    exact ⟨i, ht.1, ht, ht.type⟩
  constructor
  case nonneg =>
    intro j hj hk
    obtain ⟨i, hi, ht, htype⟩ := htwin j hj (by rcases hk with hk | hk <;> rw [hk] <;> decide)
    rw [htype] at hk
    rw [hr.shares i j ht (by rcases hk with hk | hk <;> rw [hk] <;> decide)]
    exact h.books.nonneg i hi hk
  case ownership =>
    intro j hj hk
    obtain ⟨i, hi, ht, htype⟩ := htwin j hj (by rw [hk]; decide)
    rw [htype] at hk
    rw [hr.shares i j ht (by rw [hk]; decide), h.books.ownership i hi hk,
      hr.held_eq h (Or.inr rfl) ht]
  case issuance =>
    intro j hj hk
    obtain ⟨i, hi, ht, htype⟩ := htwin j hj (by rw [hk]; decide)
    rw [htype] at hk
    simp only [(hacc i j ht).1, (hacc i j ht).2]
    rw [← hr.held_eq h (Or.inl rfl) ht, h.books.issuance i hi hk]
  case burned_nonneg =>
    intro j hj hk
    obtain ⟨i, hi, ht, htype⟩ := htwin j hj (by rw [hk]; decide)
    simp only [(hacc i j ht).2]
    exact h.books.burned_nonneg i hi (htype ▸ hk)
  case issued_lt =>
    intro j hj hk
    obtain ⟨i, hi, ht, htype⟩ := htwin j hj (by rw [hk]; decide)
    simp only [(hacc i j ht).1]
    exact h.books.issued_lt i hi (htype ▸ hk)

end Rebuilt

end QubicBob
