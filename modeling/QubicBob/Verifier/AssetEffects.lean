import QubicBob.Verifier.Simulation
import QubicBob.Ledger.AssetInvariant

set_option autoImplicit false

/-! # What applying an asset event means

The counterpart of `SpectrumEffects` for the three handlers of asset events: what the table looks
like after an event that was applied, the condition on the table before the call, and the theorem
that the handler applies its event exactly under this condition. Only a change of managing
contracts reports a failure, by stopping the process; `ChangeManagingContractStops` and
`ChangeOwnershipStops` are the two ways a handler can exit.
-/

namespace QubicBob

open Probe BitWords Tally

/-! ## Issuances -/

/-- Three slots that were empty hold the issuance, its ownership and its possession, and nothing
else has changed. -/
def IssueApplied (depth : Nat) (A A' : Assets) (issuer : m256i) (name : BitVec 56) (d : BitVec 8)
    (unit : BitVec 56) (n : BitVec 64) (c : BitVec 16) : Prop :=
  ∃ iss own poss, iss < 2 ^ depth ∧ own < 2 ^ depth ∧ poss < 2 ^ depth ∧
    (A iss).type = EMPTY ∧ (A own).type = EMPTY ∧ (A poss).type = EMPTY ∧
    A' iss = AssetRecord.issuance issuer name d unit ∧
    (A' own).isHolding OWNERSHIP issuer c (BitVec.ofNat 32 iss) = true ∧
    (A' own).numberOfShares = n ∧
    (A' poss).isHolding POSSESSION issuer c (BitVec.ofNat 32 own) = true ∧
    (A' poss).numberOfShares = n ∧
    ∀ i, i ≠ iss → i ≠ own → i ≠ poss → A' i = A i

/-- The asset is not in the table, which has three empty slots. -/
def IssueReady (depth : Nat) (A : Assets) (issuer : m256i) (name : BitVec 56) : Prop :=
  findIssuerIndex depth A issuer (name.zeroExtend 64) = .ok (-1) ∧ 3 ≤ room depth A

section Issue

variable {depth : Nat} {u u' : Universe} {A A' : Assets} {issuer : m256i} {name : BitVec 56}
  {d : BitVec 8} {unit : BitVec 56} {n : BitVec 64} {c : BitVec 16}

theorem findIssuerIndex_absent_iff {name : BitVec 64} :
    findIssuerIndex depth A issuer name = .ok (-1) ↔
      ∃ i, probeIssuance depth A issuer name = .ok i ∧ isEmptySlot A i = true := by
  unfold findIssuerIndex
  rw [bind_eq_ok]
  constructor
  · rintro ⟨i, hi, h⟩
    refine ⟨i, hi, ?_⟩
    by_contra hne
    rw [if_neg hne] at h
    have := Except.ok.inj h
    omega
  · rintro ⟨i, hi, hempty⟩
    exact ⟨i, hi, by rw [if_pos hempty]; rfl⟩

/-- The three slots of an issuance were different empty slots. -/
theorem IssueApplied.room (h : IssueApplied depth A A' issuer name d unit n c) :
    3 ≤ room depth A := by
  obtain ⟨iss, own, poss, hi, ho, hp, hei, heo, hep, hA, hown, _, hposs, _⟩ := h
  have hti : (A' iss).type = ISSUANCE := by rw [hA]; rfl
  have hto : (A' own).type = OWNERSHIP := (AssetRecord.isHolding_iff.mp hown).1
  have htp : (A' poss).type = POSSESSION := (AssetRecord.isHolding_iff.mp hposs).1
  have hio : iss ≠ own := by
    rintro rfl
    exact absurd (hti.symm.trans hto) (by decide)
  have hip : iss ≠ poss := by
    rintro rfl
    exact absurd (hti.symm.trans htp) (by decide)
  have hop : own ≠ poss := by
    rintro rfl
    exact absurd (hto.symm.trans htp) (by decide)
  -- three slots of different kinds are three slots, and all were empty
  have hcard : ({iss, own, poss} : Finset Nat).card = 3 := by
    rw [Finset.card_insert_of_notMem (by simp [hio, hip]), Finset.card_pair hop]
  have hsub : ({iss, own, poss} : Finset Nat) ⊆
      (Finset.range (2 ^ depth)).filter (fun i => isEmptySlot A i = true) := by
    intro i hmem
    rw [Finset.mem_filter, Finset.mem_range, isEmptySlot_iff]
    rcases Finset.mem_insert.mp hmem with rfl | hmem
    · exact ⟨hi, hei⟩
    rcases Finset.mem_insert.mp hmem with rfl | hmem
    · exact ⟨ho, heo⟩
    · rw [Finset.mem_singleton.mp hmem]
      exact ⟨hp, hep⟩
  calc 3 = ({iss, own, poss} : Finset Nat).card := hcard.symm
    _ ≤ QubicBob.room depth A := Finset.card_le_card hsub

/-- An issuance that took its three slots is applied. -/
theorem issued_applied {iss own poss : Nat}
    (hiss : probeIssuance depth A issuer (name.zeroExtend 64) = .ok iss)
    (hempty : isEmptySlot A iss = true)
    (hown : probeEmpty depth (Function.update A iss (AssetRecord.issuance issuer name d unit))
      ((iss + 1) &&& (2 ^ depth - 1)) = .ok own)
    (hposs : probeEmpty depth (Function.update (Function.update A iss
        (AssetRecord.issuance issuer name d unit)) own
      { (Function.update A iss (AssetRecord.issuance issuer name d unit) own).holding
          OWNERSHIP issuer c iss with numberOfShares := n })
      ((own + 1) &&& (2 ^ depth - 1)) = .ok poss) :
    IssueApplied depth A (issuedAssets A issuer name d unit n c iss own poss) issuer name d unit n
      c := by
  have hissLt := probe_lt (homeSlot_lt depth issuer) (probeIssuance_eq_ok.mp hiss)
  rw [isEmptySlot_iff] at hempty
  -- the slot found for the ownership was empty before the issuance was written
  have hownStop := probe_stop (and_mask_lt _ _) (probeEmpty_eq_ok.mp hown)
  have hownLt := probe_lt (and_mask_lt _ _) (probeEmpty_eq_ok.mp hown)
  rw [isEmptySlot_iff] at hownStop
  have hownIss : own ≠ iss := by
    rintro rfl
    rw [Function.update_self] at hownStop
    exact absurd hownStop (show ISSUANCE ≠ EMPTY by decide)
  rw [Function.update_of_ne hownIss] at hownStop
  -- and the one for the possession before both
  have hpossStop := probe_stop (and_mask_lt _ _) (probeEmpty_eq_ok.mp hposs)
  have hpossLt := probe_lt (and_mask_lt _ _) (probeEmpty_eq_ok.mp hposs)
  rw [isEmptySlot_iff] at hpossStop
  have hpossOwn : poss ≠ own := by
    rintro rfl
    rw [Function.update_self] at hpossStop
    exact absurd hpossStop (show OWNERSHIP ≠ EMPTY by decide)
  rw [Function.update_of_ne hpossOwn] at hpossStop
  have hpossIss : poss ≠ iss := by
    rintro rfl
    rw [Function.update_self] at hpossStop
    exact absurd hpossStop (show ISSUANCE ≠ EMPTY by decide)
  rw [Function.update_of_ne hpossIss] at hpossStop
  refine ⟨iss, own, poss, hissLt, hownLt, hpossLt, hempty, hownStop, hpossStop, ?_, ?_, ?_, ?_, ?_,
    ?_⟩
  · unfold issuedAssets
    rw [Function.update_of_ne (Ne.symm hpossIss), Function.update_of_ne (Ne.symm hownIss),
      Function.update_self]
  · unfold issuedAssets
    rw [Function.update_of_ne (Ne.symm hpossOwn), Function.update_self]
    exact AssetRecord.isHolding_iff.mpr ⟨rfl, rfl, rfl, rfl⟩
  · unfold issuedAssets
    rw [Function.update_of_ne (Ne.symm hpossOwn), Function.update_self]
  · unfold issuedAssets
    rw [Function.update_self]
    exact AssetRecord.isHolding_iff.mpr ⟨rfl, rfl, rfl, rfl⟩
  · unfold issuedAssets
    rw [Function.update_self]
  · intro i hi ho hp
    unfold issuedAssets
    rw [Function.update_of_ne hp, Function.update_of_ne ho, Function.update_of_ne hi]

/-- An issuance is applied exactly when the asset is new and there is room for it. -/
theorem issueAsset_applied_iff :
    (∃ u' r, issueAsset depth u issuer name d unit n c = .ok (u', r) ∧
      IssueApplied depth u.assets u'.assets issuer name d unit n c) ↔
      IssueReady depth u.assets issuer name := by
  constructor
  · rintro ⟨u', r, hrun, happ⟩
    refine ⟨?_, happ.room⟩
    rw [findIssuerIndex_absent_iff]
    rcases issueAsset_cases hrun with ⟨i, rfl, _, _⟩ | ⟨iss, _, _, _, hiss, hempty, _⟩
    · obtain ⟨iss, _, _, _, _, _, hempty, _, _, hrec, _⟩ := happ
      rw [hrec] at hempty
      exact absurd hempty (show ISSUANCE ≠ EMPTY by decide)
    · exact ⟨iss, hiss, hempty⟩
  · rintro ⟨habsent, hroom⟩
    obtain ⟨u', r, hrun⟩ := issueAsset_returns hroom issuer name d unit n c
    refine ⟨u', r, hrun, ?_⟩
    obtain ⟨i, hi, hempty⟩ := findIssuerIndex_absent_iff.mp habsent
    rcases issueAsset_cases hrun with
      ⟨j, _, _, hj, hfull⟩ | ⟨iss, own, poss, _, hiss, hslot, hown, hposs, rfl⟩
    · rw [hi] at hj
      rw [← Except.ok.inj hj, hempty] at hfull
      exact absurd hfull (by simp)
    · exact issued_applied hiss hslot hown hposs

end Issue

/-! ## Changes of owner and possessor -/

/-- The table after a burn. -/
def burnedAssets (A : Assets) (own poss : Nat) (n : BitVec 64) : Assets :=
  let A₁ := Function.update A own ((A own).subShares n)
  Function.update A₁ poss ((A₁ poss).subShares n)

/-- The table after the two moves of a transfer. -/
def movedAssets (A : Assets) (own poss : Nat) (ownerKey : m256i) (ownershipContract : BitVec 16)
    (possessorKey : m256i) (possessionContract : BitVec 16) (n : BitVec 64) (dOwn dPoss : Nat) :
    Assets :=
  moveBetween (moveBetween A own dOwn OWNERSHIP ownerKey ownershipContract (A own).index.toNat n)
    poss dPoss POSSESSION possessorKey possessionContract dOwn n

/-- The shares have left the two source records: burned, or moved to the records of `key`. -/
def SharesTransferred (depth : Nat) (A A' : Assets) (own poss : Nat) (key : m256i)
    (n : BitVec 64) : Prop :=
  0 < n.toInt ∧ CanMove depth A own poss n ∧
    (key = m256i.zero ∧ A' = burnedAssets A own poss n ∨
      key ≠ m256i.zero ∧ ∃ dOwn dPoss, A' = movedAssets A own poss key
        (A own).managingContractIndex key (A poss).managingContractIndex n dOwn dPoss)

/-- The probes for the two destination records find their slots. -/
def MoveRoom (depth : Nat) (A : Assets) (own : Nat) (ownerKey : m256i)
    (ownershipContract : BitVec 16) (possessorKey : m256i) (possessionContract : BitVec 16)
    (n : BitVec 64) : Prop :=
  ∃ dOwn dPoss, probeHolding depth A OWNERSHIP ownerKey ownershipContract (A own).index = .ok dOwn ∧
    probeHolding depth (moveBetween A own dOwn OWNERSHIP ownerKey ownershipContract
      (A own).index.toNat n) POSSESSION possessorKey possessionContract (BitVec.ofNat 32 dOwn)
      = .ok dPoss

/-- The source records have the shares, and they may be burned or there is room for them. -/
def TransferSlotsReady (depth : Nat) (A : Assets) (own poss : Nat) (key : m256i) (n : BitVec 64) :
    Prop :=
  0 < n.toInt ∧ CanMove depth A own poss n ∧
    (key = m256i.zero ∧ (A own).index.toNat < 2 ^ depth ∧
        (A (A own).index.toNat).publicKey ≠ m256i.zero ∨
      key ≠ m256i.zero ∧ MoveRoom depth A own key (A own).managingContractIndex key
        (A poss).managingContractIndex n)

section Transfer

variable {depth : Nat} {u u' : Universe} {own poss : Nat} {key : m256i} {n : BitVec 64}

theorem checkedSource_of_canMove {A : Assets} (h : CanMove depth A own poss n) :
    checkedSource depth A own poss n = .ok (some (own, poss)) := by
  have hown : ownershipCanGive A own n = true := by
    simp [ownershipCanGive, h.own_type, h.own_shares]
  have hposs : possessionCanGive A own poss n = true := by
    simp [possessionCanGive, h.poss_type, h.poss_shares, h.poss_index]
  rw [checkedSource, slotOf_eq_ok.mpr ⟨rfl, h.own_lt⟩, slotOf_eq_ok.mpr ⟨rfl, h.poss_lt⟩]
  simp only [bind, Except.bind, hown, hposs, if_true]
  rfl

/-- A guarded move comes back exactly when there is room for it. -/
theorem moveShares_ok_iff {ok pk : m256i} {oc pc : BitVec 16} :
    (∃ u' r, moveShares depth u own poss ok oc pk pc n = .ok (u', r)) ↔
      MoveRoom depth u.assets own ok oc pk pc n := by
  constructor
  · rintro ⟨u', r, hrun⟩
    obtain ⟨dOwn, dPoss, _, hdOwn, hdPoss, _⟩ := moveShares_cases hrun
    exact ⟨dOwn, dPoss, hdOwn, hdPoss⟩
  · rintro ⟨dOwn, dPoss, hdOwn, hdPoss⟩
    rw [moveShares, hdOwn]
    simp only [bind, Except.bind, hdPoss]
    exact ⟨_, _, rfl⟩

theorem moveShares_assets {ok pk : m256i} {oc pc : BitVec 16} {r : TransferResult}
    (hrun : moveShares depth u own poss ok oc pk pc n = .ok (u', r)) :
    ∃ dOwn dPoss, u'.assets = movedAssets u.assets own poss ok oc pk pc n dOwn dPoss := by
  obtain ⟨dOwn, dPoss, _, _, _, rfl⟩ := moveShares_cases hrun
  exact ⟨dOwn, dPoss, rfl⟩

/-- With a good guard, the transfer between slots is the burn or the move. -/
theorem transferSlots_eq (hn : 0 < n.toInt) (hm : CanMove depth u.assets own poss n) :
    transferShareOwnershipAndPossession depth u own poss key n =
      if key.isZero then burnShares depth u own poss n
      else moveShares depth u own poss key (u.assets own).managingContractIndex key
        (u.assets poss).managingContractIndex n := by
  unfold transferShareOwnershipAndPossession
  rw [if_neg (by omega), checkedSource_of_canMove hm]
  rfl

/-- A transfer between slots is applied exactly when its sources have the shares and the shares
may be burned or have room. -/
theorem transferSlots_applied_iff :
    (∃ u' t, transferShareOwnershipAndPossession depth u own poss key n = .ok (u', t) ∧
      SharesTransferred depth u.assets u'.assets own poss key n) ↔
      TransferSlotsReady depth u.assets own poss key n := by
  constructor
  · rintro ⟨u', t, hrun, hn, hm, hcase⟩
    refine ⟨hn, hm, ?_⟩
    rw [transferSlots_eq hn hm] at hrun
    rcases hcase with ⟨hz, hassets⟩ | ⟨hz, _⟩
    · left
      rw [if_pos (m256i.isZero_iff.mpr hz), burnShares, bind_eq_ok] at hrun
      obtain ⟨iss, hiss, hrun⟩ := hrun
      obtain ⟨hidx, hlt⟩ := slotOf_eq_ok.mp hiss
      have hidx' : (u.assets own).index.toNat = iss := by exact_mod_cast hidx
      refine ⟨hz, by rw [hidx']; exact hlt, ?_⟩
      rw [hidx']
      intro hissuer
      -- a refused burn leaves the shares where they are
      rw [if_pos (m256i.isZero_iff.mpr hissuer)] at hrun
      rw [← (Prod.mk.inj (Except.ok.inj hrun)).1] at hassets
      have hshares := congrArg AssetRecord.numberOfShares (congrFun hassets own)
      unfold burnedAssets at hshares
      rw [Function.update_of_ne hm.ne, Function.update_self] at hshares
      have hzero : n = 0 := by
        simp only [AssetRecord.subShares] at hshares
        generalize (u.assets own).numberOfShares = x at hshares
        bv_omega
      rw [hzero] at hn
      exact absurd hn (by decide)
    · right
      have hne : ¬ key.isZero = true := fun hc => hz (m256i.isZero_iff.mp hc)
      rw [if_neg hne] at hrun
      exact ⟨hz, moveShares_ok_iff.mp ⟨u', t, hrun⟩⟩
  · rintro ⟨hn, hm, ⟨hz, hlt, hissuer⟩ | ⟨hz, hroom⟩⟩
    · have hne : ¬ (u.assets (u.assets own).index.toNat).publicKey.isZero = true :=
        fun hc => hissuer (m256i.isZero_iff.mp hc)
      rw [transferSlots_eq hn hm, if_pos (m256i.isZero_iff.mpr hz), burnShares,
        slotOf_eq_ok.mpr ⟨rfl, hlt⟩]
      simp only [bind, Except.bind, if_neg hne]
      exact ⟨_, _, rfl, hn, hm, Or.inl ⟨hz, rfl⟩⟩
    · have hne : ¬ key.isZero = true := fun hc => hz (m256i.isZero_iff.mp hc)
      obtain ⟨u', t, hrun⟩ := moveShares_ok_iff.mpr hroom
      rw [transferSlots_eq hn hm, if_neg hne]
      exact ⟨u', t, hrun, hn, hm, Or.inr ⟨hz, moveShares_assets hrun⟩⟩

end Transfer

/-- The lookups of the transfer by key: the slots of the ownership and the possession, or `none`
when one of them is not found or has another managing contract. -/
def lookupByKey (depth : Nat) (A : Assets) (assetName : BitVec 64) (issuer owner possessor : m256i)
    (managingContractIndex : BitVec 64) : Except Halt (Option (Nat × Nat)) := do
  let issuanceIndex ← probeIssuance depth A issuer assetName
  if isEmptySlot A issuanceIndex then pure none
  else
    let ownershipIndex ← orDiverge (probe (fun i => isEmptySlot A i
        || (A i).matchesHolding OWNERSHIP owner managingContractIndex.toInt issuanceIndex)
      depth (homeSlot depth owner))
    if isEmptySlot A ownershipIndex then pure none
    else
      let possessionIndex ← orDiverge (probe (fun i => isEmptySlot A i
          || (A i).isPossessionOf possessor ownershipIndex)
        depth (homeSlot depth possessor))
      if isEmptySlot A possessionIndex then pure none
      else if ((A possessionIndex).managingContractIndex.toNat : Int)
          = managingContractIndex.toInt then
        pure (some (ownershipIndex, possessionIndex))
      else pure none

section ByKey

variable {depth : Nat} {u u' : Universe} {name : BitVec 64} {issuer owner possessor : m256i}
  {n c : BitVec 64} {key : m256i} {own poss : Nat}

/-- When the lookups find the records and the possession has the shares, the transfer by key does
to the table what the transfer between the two slots does. -/
theorem transferByKey_of_lookup
    (hlook : lookupByKey depth u.assets name issuer owner possessor c = .ok (some (own, poss)))
    (hle : n.toInt ≤ (u.assets poss).numberOfShares.toInt) (u' : Universe) :
    (∃ r, transferShareOwnershipAndPossessionByKey depth u name issuer owner possessor n c key
        = .ok (u', r)) ↔
      ∃ t, transferShareOwnershipAndPossession depth u own poss key n = .ok (u', t) := by
  rw [lookupByKey, bind_eq_ok] at hlook
  obtain ⟨iss, hiss, hlook⟩ := hlook
  split at hlook
  · exact absurd (Except.ok.inj hlook) (by simp)
  next hissNe =>
  rw [bind_eq_ok] at hlook
  obtain ⟨own', hown, hlook⟩ := hlook
  split at hlook
  · exact absurd (Except.ok.inj hlook) (by simp)
  next hownNe =>
  rw [bind_eq_ok] at hlook
  obtain ⟨poss', hposs, hlook⟩ := hlook
  split at hlook
  · exact absurd (Except.ok.inj hlook) (by simp)
  next hpossNe =>
  split at hlook
  · next hcontract =>
      obtain ⟨rfl, rfl⟩ := Prod.mk.inj (Option.some.inj (Except.ok.inj hlook))
      rw [transferShareOwnershipAndPossessionByKey, hiss]
      simp only [bind, Except.bind, if_neg hissNe, hown, if_neg hownNe, hposs, if_neg hpossNe,
        if_pos hcontract, if_pos hle]
      -- the table is the one the transfer between slots has left, whatever it returned
      cases transferShareOwnershipAndPossession depth u own' poss' key n with
      | error e => simp
      | ok p =>
          obtain ⟨u₁, t⟩ := p
          dsimp only
          split
          · simp [pure, Except.pure]
          · simp [pure, Except.pure]
  · exact absurd (Except.ok.inj hlook) (by simp)

end ByKey

/-- The ownership half of a pair, which decides the transfer. -/
def ownershipHalf (le0 le1 : LogEvent) : AssetOwnershipChange :=
  (orderPair ASSET_OWNERSHIP_CHANGE le0 le1).1.assetOwnershipChange

/-- The lookup a pair of ownership and possession changes makes. -/
def pairLookup (depth : Nat) (A : Assets) (aoc : AssetOwnershipChange) :
    Except Halt (Option (Nat × Nat)) :=
  lookupByKey depth A (aoc.name.zeroExtend 64) aoc.issuerPublicKey aoc.sourcePublicKey
    aoc.sourcePublicKey aoc.managingContractIndex

/-- The shares of the records the pair names have been transferred. -/
def ChangeOwnershipApplied (depth : Nat) (A A' : Assets) (le0 le1 : LogEvent) : Prop :=
  ∃ own poss, pairLookup depth A (ownershipHalf le0 le1) = .ok (some (own, poss)) ∧
    SharesTransferred depth A A' own poss (ownershipHalf le0 le1).destinationPublicKey
      (ownershipHalf le0 le1).numberOfShares

/-- The handler exits: the two events are not the two halves of one change. -/
def ChangeOwnershipStops (le0 le1 : LogEvent) : Prop :=
  isPairOf ASSET_OWNERSHIP_CHANGE ASSET_POSSESSION_CHANGE le0 le1 = false ∨
    ownershipHalf le0 le1
      ≠ (orderPair ASSET_OWNERSHIP_CHANGE le0 le1).2.assetOwnershipChange

/-- The events are a pair, the records they name are found, and the transfer can be made. -/
def ChangeOwnershipReady (depth : Nat) (A : Assets) (le0 le1 : LogEvent) : Prop :=
  ¬ ChangeOwnershipStops le0 le1 ∧
  ∃ own poss, pairLookup depth A (ownershipHalf le0 le1) = .ok (some (own, poss)) ∧
    TransferSlotsReady depth A own poss (ownershipHalf le0 le1).destinationPublicKey
      (ownershipHalf le0 le1).numberOfShares

theorem processChangeOwnershipAndPossession_eq {depth : Nat} {u : Universe} {le0 le1 : LogEvent}
    (h : ¬ ChangeOwnershipStops le0 le1) :
    processChangeOwnershipAndPossession depth u le0 le1 =
      transferShareOwnershipAndPossessionByKey depth u ((ownershipHalf le0 le1).name.zeroExtend 64)
        (ownershipHalf le0 le1).issuerPublicKey (ownershipHalf le0 le1).sourcePublicKey
        (ownershipHalf le0 le1).sourcePublicKey (ownershipHalf le0 le1).numberOfShares
        (ownershipHalf le0 le1).managingContractIndex
        (ownershipHalf le0 le1).destinationPublicKey := by
  unfold ChangeOwnershipStops at h
  push Not at h
  unfold processChangeOwnershipAndPossession
  rw [if_neg h.1]
  exact if_neg (not_not.mpr h.2)

theorem processChangeOwnershipAndPossession_stops {depth : Nat} {u : Universe}
    {le0 le1 : LogEvent} (h : ChangeOwnershipStops le0 le1) :
    processChangeOwnershipAndPossession depth u le0 le1 = .error (.exit 1) := by
  unfold processChangeOwnershipAndPossession
  by_cases hpair : isPairOf ASSET_OWNERSHIP_CHANGE ASSET_POSSESSION_CHANGE le0 le1 = false
  · rw [if_pos hpair]
  · rw [if_neg hpair]
    exact if_pos (h.resolve_left hpair)

/-- A pair of ownership and possession changes is applied exactly when its transfer can be made. -/
theorem processChangeOwnershipAndPossession_applied_iff {depth : Nat} {u : Universe}
    {le0 le1 : LogEvent} :
    (∃ u' r, processChangeOwnershipAndPossession depth u le0 le1 = .ok (u', r) ∧
      ChangeOwnershipApplied depth u.assets u'.assets le0 le1) ↔
      ChangeOwnershipReady depth u.assets le0 le1 := by
  constructor
  · rintro ⟨u', r, hrun, own, poss, hlook, htrans⟩
    have hstop : ¬ ChangeOwnershipStops le0 le1 := by
      intro hc
      rw [processChangeOwnershipAndPossession_stops hc] at hrun
      exact absurd hrun (by simp)
    rw [processChangeOwnershipAndPossession_eq hstop] at hrun
    obtain ⟨t, ht⟩ := (transferByKey_of_lookup hlook htrans.2.1.poss_shares u').mp ⟨r, hrun⟩
    exact ⟨hstop, own, poss, hlook, transferSlots_applied_iff.mp ⟨u', t, ht, htrans⟩⟩
  · rintro ⟨hstop, own, poss, hlook, hready⟩
    obtain ⟨u', t, ht, htrans⟩ := transferSlots_applied_iff.mpr hready
    obtain ⟨r, hrun⟩ := (transferByKey_of_lookup hlook hready.2.1.poss_shares u').mpr ⟨t, ht⟩
    refine ⟨u', r, ?_, own, poss, hlook, htrans⟩
    rw [processChangeOwnershipAndPossession_eq hstop]
    exact hrun

/-! ## Calls that never exit

Probes run for ever and bad indices are undefined, but only the handlers call `exit`. -/

def NeverExits {α : Type} (x : Except Halt α) : Prop := ∀ code, x ≠ .error (.exit code)

section NeverExits

variable {α β : Type}

theorem neverExits_ok (a : α) : NeverExits (.ok a : Except Halt α) := by
  intro code hc
  exact absurd hc (by simp)

theorem neverExits_pure (a : α) : NeverExits (pure a : Except Halt α) := neverExits_ok a

theorem neverExits_orDiverge (o : Option α) : NeverExits (orDiverge o) := by
  intro code
  cases o with
  | none => simp
  | some a => simp

theorem neverExits_slotOf (depth : Nat) (index : Int) : NeverExits (slotOf depth index) := by
  intro code
  unfold slotOf
  split
  · simp
  · simp

theorem NeverExits.bind {x : Except Halt α} {f : α → Except Halt β} (hx : NeverExits x)
    (hf : ∀ a, NeverExits (f a)) : NeverExits (x >>= f) := by
  intro code
  cases x with
  | error e =>
      intro hc
      exact hx code (by rw [Except.error.inj hc])
  | ok a => exact hf a code

/-- An exit behind a call that never exits comes from what follows it. -/
theorem NeverExits.exit_of_bind {x : Except Halt α} {f : α → Except Halt β} {code : Int}
    (hx : NeverExits x) (h : (x >>= f) = .error (.exit code)) :
    ∃ a, x = .ok a ∧ f a = .error (.exit code) := by
  cases x with
  | error e => exact absurd (congrArg Except.error (Except.error.inj h)) (hx code)
  | ok a => exact ⟨a, rfl, h⟩

theorem NeverExits.ite {p : Prop} [Decidable p] {x y : Except Halt α} (hx : NeverExits x)
    (hy : NeverExits y) : NeverExits (if p then x else y) := by
  split
  · exact hx
  · exact hy

end NeverExits

section Assets

variable {depth : Nat} {u : Universe} {A : Assets}

theorem moveShares_neverExits {own poss : Nat} {ok pk : m256i} {oc pc : BitVec 16}
    {n : BitVec 64} : NeverExits (moveShares depth u own poss ok oc pk pc n) :=
  (neverExits_orDiverge _).bind (fun _ => (neverExits_orDiverge _).bind (fun _ => neverExits_pure _))

theorem checkedSource_neverExits {a b : Int} {n : BitVec 64} :
    NeverExits (checkedSource depth A a b n) :=
  (neverExits_slotOf _ _).bind (fun _ => NeverExits.ite
    ((neverExits_slotOf _ _).bind (fun _ => NeverExits.ite (neverExits_pure _) (neverExits_pure _)))
    (neverExits_pure _))

theorem burnShares_neverExits {own poss : Nat} {n : BitVec 64} :
    NeverExits (burnShares depth u own poss n) :=
  (neverExits_slotOf _ _).bind (fun _ => NeverExits.ite (neverExits_pure _) (neverExits_pure _))

theorem transferShareOwnershipAndPossession_neverExits {a b : Int} {key : m256i} {n : BitVec 64} :
    NeverExits (transferShareOwnershipAndPossession depth u a b key n) := by
  refine NeverExits.ite (neverExits_pure _) (checkedSource_neverExits.bind ?_)
  intro o
  cases o with
  | none => exact neverExits_pure _
  | some src => exact NeverExits.ite burnShares_neverExits moveShares_neverExits

theorem transferShareManagementRights_neverExits {a b : Int} {oc pc : BitVec 16} {n : BitVec 64} :
    NeverExits (transferShareManagementRights depth u a b oc pc n) := by
  refine NeverExits.ite (neverExits_pure _) (checkedSource_neverExits.bind ?_)
  intro o
  cases o with
  | none => exact neverExits_pure _
  | some src => exact moveShares_neverExits

theorem transferByKey_neverExits {name : BitVec 64} {issuer owner possessor : m256i}
    {n c : BitVec 64} {key : m256i} :
    NeverExits
      (transferShareOwnershipAndPossessionByKey depth u name issuer owner possessor n c key) := by
  refine (neverExits_orDiverge _).bind (fun iss => NeverExits.ite (neverExits_pure _) ?_)
  refine (neverExits_orDiverge _).bind (fun own => NeverExits.ite (neverExits_pure _) ?_)
  refine (neverExits_orDiverge _).bind (fun poss => NeverExits.ite (neverExits_pure _) ?_)
  refine NeverExits.ite (NeverExits.ite ?_ (neverExits_pure _)) (neverExits_pure _)
  refine transferShareOwnershipAndPossession_neverExits.bind (fun p => ?_)
  exact NeverExits.ite (neverExits_pure _) (neverExits_pure _)

theorem issueAsset_neverExits {issuer : m256i} {name : BitVec 56} {d : BitVec 8} {unit : BitVec 56}
    {n : BitVec 64} {c : BitVec 16} :
    NeverExits (issueAsset depth u issuer name d unit n c) := by
  refine (neverExits_orDiverge _).bind (fun iss => NeverExits.ite ?_ (neverExits_pure _))
  exact (neverExits_orDiverge _).bind (fun own =>
    (neverExits_orDiverge _).bind (fun poss => neverExits_pure _))

theorem findHoldingIndex_neverExits {kind : BitVec 8} {index managingIndex : Int} {key : m256i} :
    NeverExits (findHoldingIndex depth A kind index key managingIndex) :=
  (neverExits_orDiverge _).bind (fun _ => NeverExits.ite (neverExits_pure _) (neverExits_pure _))

end Assets

/-! ## Changes of managing contracts -/

/-- The two halves of a change of managing contracts. -/
def managingHalves (le0 le1 : LogEvent) :
    AssetOwnershipManagingContractChange × AssetPossessionManagingContractChange :=
  let pair := orderPair ASSET_OWNERSHIP_MANAGING_CONTRACT_CHANGE le0 le1
  (pair.1.assetOwnershipManagingContractChange, pair.2.assetPossessionManagingContractChange)

/-- The indices the handler passes on; `-1` for what it does not find. -/
def managingLookup (depth : Nat) (A : Assets) (omcc : AssetOwnershipManagingContractChange)
    (pmcc : AssetPossessionManagingContractChange) : Except Halt (Int × Int) := do
  let issuanceIndex ←
    findIssuerIndex depth A omcc.issuerPublicKey (omcc.assetName.zeroExtend 64)
  let ownershipIndex ← findOwnershipIndex depth A issuanceIndex omcc.ownershipPublicKey
    omcc.sourceContractIndex.toInt
  let possessionIndex ← findPossessionIndex depth A ownershipIndex pmcc.possessionPublicKey
    omcc.sourceContractIndex.toInt
  pure (ownershipIndex, possessionIndex)

/-- The events are the two halves of one change. -/
def managingPair (le0 le1 : LogEvent) : Prop :=
  isPairOf ASSET_OWNERSHIP_MANAGING_CONTRACT_CHANGE ASSET_POSSESSION_MANAGING_CONTRACT_CHANGE
      le0 le1 ≠ false ∧
    managingPairAgrees (managingHalves le0 le1).1 (managingHalves le0 le1).2 ≠ false

/-- The contract that takes the shares over. -/
def managingDestination (le0 le1 : LogEvent) : BitVec 16 :=
  (managingHalves le0 le1).1.destinationContractIndex.setWidth 16

/-- The shares of the records the pair names are with the new contract. -/
def ChangeManagingApplied (depth : Nat) (A A' : Assets) (le0 le1 : LogEvent) : Prop :=
  ∃ own poss : Nat, managingLookup depth A (managingHalves le0 le1).1 (managingHalves le0 le1).2
      = .ok ((own : Int), (poss : Int)) ∧
    0 < (managingHalves le0 le1).1.numberOfShares.toInt ∧
    CanMove depth A own poss (managingHalves le0 le1).1.numberOfShares ∧
    ∃ dOwn dPoss, A' = movedAssets A own poss (A own).publicKey (managingDestination le0 le1)
      (A poss).publicKey (managingDestination le0 le1) (managingHalves le0 le1).1.numberOfShares
      dOwn dPoss

/-- The events are a pair, the records they name have the shares, and there is room for them. -/
def ChangeManagingReady (depth : Nat) (A : Assets) (le0 le1 : LogEvent) : Prop :=
  managingPair le0 le1 ∧
  ∃ own poss : Nat, managingLookup depth A (managingHalves le0 le1).1 (managingHalves le0 le1).2
      = .ok ((own : Int), (poss : Int)) ∧
    0 < (managingHalves le0 le1).1.numberOfShares.toInt ∧
    CanMove depth A own poss (managingHalves le0 le1).1.numberOfShares ∧
    MoveRoom depth A own (A own).publicKey (managingDestination le0 le1) (A poss).publicKey
      (managingDestination le0 le1) (managingHalves le0 le1).1.numberOfShares

/-- The handler exits: the events are no pair, or the records found do not have the shares. -/
def ChangeManagingStops (depth : Nat) (A : Assets) (le0 le1 : LogEvent) : Prop :=
  ¬ managingPair le0 le1 ∨
  ∃ a b, managingLookup depth A (managingHalves le0 le1).1 (managingHalves le0 le1).2 = .ok (a, b) ∧
    ((managingHalves le0 le1).1.numberOfShares.toInt ≤ 0 ∨
      checkedSource depth A a b (managingHalves le0 le1).1.numberOfShares = .ok none)

section Managing

variable {depth : Nat} {u : Universe} {le0 le1 : LogEvent}

theorem managingLookup_neverExits {A : Assets} {omcc : AssetOwnershipManagingContractChange}
    {pmcc : AssetPossessionManagingContractChange} :
    NeverExits (managingLookup depth A omcc pmcc) := by
  refine NeverExits.bind ?_ (fun iss => ?_)
  · exact (neverExits_orDiverge _).bind
      (fun _ => NeverExits.ite (neverExits_pure _) (neverExits_pure _))
  · exact findHoldingIndex_neverExits.bind
      (fun own => findHoldingIndex_neverExits.bind (fun poss => neverExits_pure _))

theorem processChangeManagingContract_not_pair (h : ¬ managingPair le0 le1) :
    processChangeManagingContract depth u le0 le1 = .error (.exit 1) := by
  unfold processChangeManagingContract
  by_cases hpair : isPairOf ASSET_OWNERSHIP_MANAGING_CONTRACT_CHANGE
      ASSET_POSSESSION_MANAGING_CONTRACT_CHANGE le0 le1 = false
  · rw [if_pos hpair]
  · rw [if_neg hpair]
    refine if_pos ?_
    by_contra hagree
    exact h ⟨hpair, hagree⟩

/-- For a pair the handler is its lookups followed by the transfer. -/
theorem processChangeManagingContract_eq (h : managingPair le0 le1) :
    processChangeManagingContract depth u le0 le1 = (do
      let ab ← managingLookup depth u.assets (managingHalves le0 le1).1 (managingHalves le0 le1).2
      let (u', r) ← transferShareManagementRights depth u ab.1 ab.2 (managingDestination le0 le1)
        (managingDestination le0 le1) (managingHalves le0 le1).1.numberOfShares
      if r.returnValue then pure (u', r) else .error (.exit 1)) := by
  have hstep : processChangeManagingContract depth u le0 le1 = (do
      let issuanceIndex ← findIssuerIndex depth u.assets (managingHalves le0 le1).1.issuerPublicKey
        ((managingHalves le0 le1).1.assetName.zeroExtend 64)
      let ownershipIndex ← findOwnershipIndex depth u.assets issuanceIndex
        (managingHalves le0 le1).1.ownershipPublicKey
        (managingHalves le0 le1).1.sourceContractIndex.toInt
      let possessionIndex ← findPossessionIndex depth u.assets ownershipIndex
        (managingHalves le0 le1).2.possessionPublicKey
        (managingHalves le0 le1).1.sourceContractIndex.toInt
      let (u', r) ← transferShareManagementRights depth u ownershipIndex possessionIndex
        (managingDestination le0 le1) (managingDestination le0 le1)
        (managingHalves le0 le1).1.numberOfShares
      if r.returnValue then pure (u', r) else .error (.exit 1)) := by
    unfold processChangeManagingContract
    rw [if_neg h.1]
    exact if_neg h.2
  rw [hstep, managingLookup]
  simp only [bind_assoc, pure_bind]

/-- With a good guard, the change of managing contracts is the move. -/
theorem transferManagement_eq {own poss : Nat} {oc pc : BitVec 16} {n : BitVec 64}
    (hn : 0 < n.toInt) (hm : CanMove depth u.assets own poss n) :
    transferShareManagementRights depth u own poss oc pc n =
      moveShares depth u own poss (u.assets own).publicKey oc (u.assets poss).publicKey pc n := by
  unfold transferShareManagementRights
  rw [if_neg (by omega), checkedSource_of_canMove hm]
  rfl

/-- A change of managing contracts is applied exactly when its transfer can be made. -/
theorem processChangeManagingContract_applied_iff :
    (∃ u' r, processChangeManagingContract depth u le0 le1 = .ok (u', r) ∧
      ChangeManagingApplied depth u.assets u'.assets le0 le1) ↔
      ChangeManagingReady depth u.assets le0 le1 := by
  constructor
  · rintro ⟨u', r, hrun, own, poss, hlook, hn, hm, _⟩
    have hpair : managingPair le0 le1 := by
      by_contra hc
      rw [processChangeManagingContract_not_pair hc] at hrun
      exact absurd hrun (by simp)
    refine ⟨hpair, own, poss, hlook, hn, hm, ?_⟩
    rw [processChangeManagingContract_eq hpair, hlook] at hrun
    simp only [Except.bind, bind] at hrun
    rw [transferManagement_eq hn hm] at hrun
    refine (@moveShares_ok_iff depth u own poss _ _ _ _ _).mp ?_
    cases hmove : moveShares depth u own poss (u.assets own).publicKey (managingDestination le0 le1)
        (u.assets poss).publicKey (managingDestination le0 le1)
        (managingHalves le0 le1).1.numberOfShares with
    | error e =>
        rw [hmove] at hrun
        exact absurd hrun (by simp)
    | ok p => exact ⟨p.1, p.2, rfl⟩
  · rintro ⟨hpair, own, poss, hlook, hn, hm, hroom⟩
    obtain ⟨u', r, hmove⟩ := moveShares_ok_iff.mpr hroom
    refine ⟨u', r, ?_, own, poss, hlook, hn, hm, moveShares_assets hmove⟩
    obtain ⟨dOwn, dPoss, hr, _⟩ := moveShares_cases hmove
    rw [processChangeManagingContract_eq hpair, hlook]
    simp only [Except.bind, bind]
    rw [transferManagement_eq hn hm, hmove, hr]
    rfl

/-- The handler exits exactly on what is no pair and on shares that are not there. -/
theorem processChangeManagingContract_exit_iff :
    (∃ code, processChangeManagingContract depth u le0 le1 = .error (.exit code)) ↔
      ChangeManagingStops depth u.assets le0 le1 := by
  constructor
  · rintro ⟨code, hrun⟩
    by_cases hpair : managingPair le0 le1
    swap
    · exact Or.inl hpair
    right
    rw [processChangeManagingContract_eq hpair] at hrun
    obtain ⟨ab, hlook, hrun⟩ := managingLookup_neverExits.exit_of_bind hrun
    refine ⟨ab.1, ab.2, hlook, ?_⟩
    obtain ⟨⟨u', r⟩, htrans, hrun⟩ := transferShareManagementRights_neverExits.exit_of_bind hrun
    -- a refused transfer is one whose guard failed
    have hr : r = .failed := by
      cases r with
      | failed => rfl
      | burned => exact absurd hrun (by simp [TransferResult.returnValue, pure, Except.pure])
      | moved dOwn dPoss =>
          exact absurd hrun (by simp [TransferResult.returnValue, pure, Except.pure])
    by_cases hn : (managingHalves le0 le1).1.numberOfShares.toInt ≤ 0
    · exact Or.inl hn
    right
    unfold transferShareManagementRights at htrans
    rw [if_neg hn, bind_eq_ok] at htrans
    obtain ⟨o, hsrc, htrans⟩ := htrans
    cases o with
    | none => exact hsrc
    | some src =>
        obtain ⟨dOwn, dPoss, hmoved, _⟩ := moveShares_cases htrans
        rw [hr] at hmoved
        exact absurd hmoved (by simp)
  · rintro (hpair | ⟨a, b, hlook, hguard⟩)
    · exact ⟨1, processChangeManagingContract_not_pair hpair⟩
    by_cases hpair : managingPair le0 le1
    · refine ⟨1, ?_⟩
      have hfail : transferShareManagementRights depth u a b (managingDestination le0 le1)
          (managingDestination le0 le1) (managingHalves le0 le1).1.numberOfShares
          = .ok (u, .failed) := by
        unfold transferShareManagementRights
        by_cases hn : (managingHalves le0 le1).1.numberOfShares.toInt ≤ 0
        · rw [if_pos hn]
          rfl
        · rw [if_neg hn, hguard.resolve_left hn]
          rfl
      rw [processChangeManagingContract_eq hpair, hlook]
      simp only [bind, Except.bind, hfail]
      rfl
    · exact ⟨1, processChangeManagingContract_not_pair hpair⟩

end Managing

end QubicBob
