import QubicBob.Verifier.AssetEffects
import QubicBob.Ledger.AssetLookup

set_option autoImplicit false

/-! # Tables the event handlers make

`AssetReachable` are the tables that the three handlers of asset events make out of an empty one, for
any events in any order, as long as they come back. Any number of shares may be issued. Such a table
has the right shape, so every lookup in it is complete while a slot is empty.
-/

namespace QubicBob

open Probe BitWords

/-- The table after some asset events, starting with an empty one. -/
inductive AssetReachable (depth : Nat) : Universe → Prop where
  | start {u : Universe} (h : ∀ i, i < 2 ^ depth → u.assets i = AssetRecord.empty) :
      AssetReachable depth u
  | issueAsset {u u' : Universe} {le : LogEvent} {r : IssueResult} (h : AssetReachable depth u)
      (hrun : processIssueAsset depth u le = .ok (u', r)) : AssetReachable depth u'
  | changeOwnershipAndPossession {u u' : Universe} {le0 le1 : LogEvent} {r : KeyTransferResult}
      (h : AssetReachable depth u)
      (hrun : processChangeOwnershipAndPossession depth u le0 le1 = .ok (u', r)) :
      AssetReachable depth u'
  | changeManagingContract {u u' : Universe} {le0 le1 : LogEvent} {r : TransferResult}
      (h : AssetReachable depth u)
      (hrun : processChangeManagingContract depth u le0 le1 = .ok (u', r)) :
      AssetReachable depth u'

/-- The universe without any record. -/
def emptyUniverse : Universe := ⟨fun _ => AssetRecord.empty, fun _ => 0, fun _ => 0⟩

theorem assetReachable_empty (depth : Nat) : AssetReachable depth emptyUniverse :=
  .start (fun _ _ => rfl)

section Runs

variable {depth : Nat} {u u' : Universe} {le0 le1 : LogEvent}

/-- A change of owner and possessor that comes back is a transfer by key. -/
theorem processChangeOwnershipAndPossession_cases {r : KeyTransferResult}
    (h : processChangeOwnershipAndPossession depth u le0 le1 = .ok (u', r)) :
    transferShareOwnershipAndPossessionByKey depth u ((ownershipHalf le0 le1).name.zeroExtend 64)
      (ownershipHalf le0 le1).issuerPublicKey (ownershipHalf le0 le1).sourcePublicKey
      (ownershipHalf le0 le1).sourcePublicKey (ownershipHalf le0 le1).numberOfShares
      (ownershipHalf le0 le1).managingContractIndex (ownershipHalf le0 le1).destinationPublicKey
      = .ok (u', r) := by
  by_cases hstop : ChangeOwnershipStops le0 le1
  · rw [processChangeOwnershipAndPossession_stops hstop] at h
    exact absurd h (by simp)
  · rwa [processChangeOwnershipAndPossession_eq hstop] at h

/-- A change of managing contracts that comes back is a transfer that was made. -/
theorem processChangeManagingContract_cases {r : TransferResult}
    (h : processChangeManagingContract depth u le0 le1 = .ok (u', r)) :
    ∃ a b, transferShareManagementRights depth u a b (managingDestination le0 le1)
      (managingDestination le0 le1) (managingHalves le0 le1).1.numberOfShares = .ok (u', r) := by
  by_cases hpair : managingPair le0 le1
  · rw [processChangeManagingContract_eq hpair, bind_eq_ok] at h
    obtain ⟨ab, _, h⟩ := h
    rw [bind_eq_ok] at h
    obtain ⟨⟨u₁, t⟩, ht, h⟩ := h
    dsimp only at h
    split at h
    · obtain ⟨rfl, rfl⟩ := Prod.mk.inj (Except.ok.inj h)
      exact ⟨ab.1, ab.2, ht⟩
    · exact absurd h (by simp)
  · rw [processChangeManagingContract_not_pair hpair] at h
    exact absurd h (by simp)

/-- Every table the handlers make has the right shape. -/
theorem AssetReachable.shape (hdepth : depth ≤ 31) (h : AssetReachable depth u) :
    TableShape depth u.assets := by
  induction h with
  | start h => exact (@tableInvariant_of_empty _ _ ⟨fun _ => 0, fun _ => 0⟩ h).shape
  | issueAsset _ hrun ih => exact issueAsset_shape hdepth ih hrun
  | changeOwnershipAndPossession _ hrun ih =>
      exact transferByKey_shape hdepth ih (processChangeOwnershipAndPossession_cases hrun)
  | changeManagingContract _ hrun ih =>
      obtain ⟨a, b, ht⟩ := processChangeManagingContract_cases hrun
      exact managementRights_shape hdepth ih ht

/-- **Lookups are complete.** In every table the handlers make, as long as it has an empty slot, each
find function comes back with the one slot of the record that was asked for, or with `-1` and
`false` if there is none; and the balances of a key are the share counts of its records. -/
theorem assetLookup_complete (hdepth : depth ≤ 31) (h : AssetReachable depth u)
    (hfree : ∃ z, z < 2 ^ depth ∧ (u.assets z).type = EMPTY) :
    (∀ (issuer : m256i) (name : BitVec 64), ∃ index,
      findIssuerIndex depth u.assets issuer name = .ok index ∧
      Finds depth (fun i => (u.assets i).isIssuance issuer name) index) ∧
    (∀ (issuanceIndex : Int) (owner : m256i) (managingIndex : Int), ∃ index,
      findOwnershipIndex depth u.assets issuanceIndex owner managingIndex = .ok index ∧
      Finds depth (fun i =>
        (u.assets i).matchesHolding OWNERSHIP owner managingIndex issuanceIndex) index) ∧
    (∀ (ownershipIndex : Int) (possession : m256i) (managingIndex : Int), ∃ index,
      findPossessionIndex depth u.assets ownershipIndex possession managingIndex = .ok index ∧
      Finds depth (fun i =>
        (u.assets i).matchesHolding POSSESSION possession managingIndex ownershipIndex) index) ∧
    ∀ (pk issuer : m256i) (assetName : BitVec 64) (manageSCIndex : BitVec 32), ∃ b,
      getAssetBalances depth u.assets pk issuer assetName manageSCIndex = .ok b ∧
      BalanceOf u.assets (IsOwnership depth u.assets pk issuer assetName manageSCIndex) b.1 ∧
      BalanceOf u.assets (IsPossession depth u.assets pk issuer assetName manageSCIndex) b.2 := by
  obtain ⟨z, hz, hempty⟩ := hfree
  have hshape := h.shape hdepth
  refine ⟨?_, ?_, ?_, ?_⟩
  · intro issuer name
    exact findIssuerIndex_finds hshape issuer name ⟨z, hz, Or.inl hempty⟩
  · intro index owner c
    exact findHoldingIndex_finds hshape (Or.inl rfl) index owner c ⟨z, hz, Or.inl hempty⟩
  · intro index possession c
    exact findHoldingIndex_finds hshape (Or.inr rfl) index possession c ⟨z, hz, Or.inl hempty⟩
  · intro pk issuer name c
    exact getAssetBalances_spec hshape (Or.inl ⟨z, hz, hempty⟩)

end Runs

/-! ## Events by their fields -/

def AssetIssuance.bytes (ai : AssetIssuance) : List Byte :=
  ai.issuerPublicKey.bytes ++ leBytes 8 ai.numberOfShares ++ leBytes 8 ai.managingContractIndex
    ++ leBytes 7 ai.name ++ leBytes 1 ai.numberOfDecimalPlaces ++ leBytes 7 ai.unitOfMeasurement

def AssetOwnershipChange.bytes (aoc : AssetOwnershipChange) : List Byte :=
  aoc.sourcePublicKey.bytes ++ aoc.destinationPublicKey.bytes ++ aoc.issuerPublicKey.bytes
    ++ leBytes 8 aoc.numberOfShares ++ leBytes 8 aoc.managingContractIndex ++ leBytes 7 aoc.name
    ++ leBytes 1 aoc.numberOfDecimalPlaces ++ leBytes 7 aoc.unitOfMeasurement

def LogEvent.ofAssetIssuance (tick : BitVec 32) (logId : BitVec 64) (ai : AssetIssuance) :
    LogEvent :=
  .pack 1 tick ASSET_ISSUANCE logId 0 ai.bytes

/-- The two halves of a change of owner and possessor differ in their type only. -/
def LogEvent.ofAssetChange (tick : BitVec 32) (logId : BitVec 64) (type : Nat)
    (aoc : AssetOwnershipChange) : LogEvent :=
  .pack 1 tick type logId 0 aoc.bytes

def AssetOwnershipManagingContractChange.bytes (omcc : AssetOwnershipManagingContractChange) :
    List Byte :=
  omcc.ownershipPublicKey.bytes ++ omcc.issuerPublicKey.bytes ++ leBytes 4 omcc.sourceContractIndex
    ++ leBytes 4 omcc.destinationContractIndex ++ leBytes 8 omcc.numberOfShares
    ++ leBytes 7 omcc.assetName

/-- The ownership half of a change of managing contracts. -/
def LogEvent.ofOwnershipManaging (tick : BitVec 32) (logId : BitVec 64)
    (omcc : AssetOwnershipManagingContractChange) : LogEvent :=
  .pack 1 tick ASSET_OWNERSHIP_MANAGING_CONTRACT_CHANGE logId 0 omcc.bytes

/-- The possession half: the same fields behind the key of the possessor. -/
def LogEvent.ofPossessionManaging (tick : BitVec 32) (logId : BitVec 64) (possessor : m256i)
    (omcc : AssetOwnershipManagingContractChange) : LogEvent :=
  .pack 1 tick ASSET_POSSESSION_MANAGING_CONTRACT_CHANGE logId 0 (possessor.bytes ++ omcc.bytes)

/-- The theorem at 16 slots, after an issuance of 100 shares and a transfer of 40: the balances of
the new owner. -/
theorem assetLookup_complete_at_transfer :
    let aoc : AssetOwnershipChange := ⟨1, 17, 1, 40, 2, 0x41, 0, 0⟩
    ∃ u₁ r₁ u₂ r₂,
      processIssueAsset 4 emptyUniverse (.ofAssetIssuance 11 0 ⟨1, 100, 2, 0x41, 0, 0⟩)
        = .ok (u₁, r₁) ∧
      processChangeOwnershipAndPossession 4 u₁ (.ofAssetChange 11 1 ASSET_OWNERSHIP_CHANGE aoc)
        (.ofAssetChange 11 2 ASSET_POSSESSION_CHANGE aoc) = .ok (u₂, r₂) ∧
      ∃ b, getAssetBalances 4 u₂.assets 17 1 0x41 2 = .ok b ∧
        BalanceOf u₂.assets (IsOwnership 4 u₂.assets 17 1 0x41 2) b.1 ∧
        BalanceOf u₂.assets (IsPossession 4 u₂.assets 17 1 0x41 2) b.2 := by
  intro aoc
  obtain ⟨⟨u₁, r₁⟩, hissue, hchange⟩ :=
    @exists_ok_of_any _
      (processIssueAsset 4 emptyUniverse (.ofAssetIssuance 11 0 ⟨1, 100, 2, 0x41, 0, 0⟩))
      (fun p => (processChangeOwnershipAndPossession 4 p.1
        (.ofAssetChange 11 1 ASSET_OWNERSHIP_CHANGE aoc)
        (.ofAssetChange 11 2 ASSET_POSSESSION_CHANGE aoc)).toOption.any
          (fun q => (q.1.assets 0).type == EMPTY)) (by decide +kernel)
  obtain ⟨⟨u₂, r₂⟩, htransfer, hempty⟩ := exists_ok_of_any hchange
  have hreach : AssetReachable 4 u₂ :=
    .changeOwnershipAndPossession (.issueAsset (assetReachable_empty 4) hissue) htransfer
  exact ⟨u₁, r₁, u₂, r₂, hissue, htransfer,
    (assetLookup_complete (by decide) hreach ⟨0, by decide, beq_iff_eq.mp hempty⟩).2.2.2 17 1 0x41
      2⟩

end QubicBob
