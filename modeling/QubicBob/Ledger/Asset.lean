import QubicBob.Ledger.Spectrum
import QubicBob.Lib.BitWords

set_option autoImplicit false

/-! # The asset table

The universe of `Asset.h`: one open-addressing table of `2 ^ depth` records (`ASSETS_DEPTH` is 24
in the node) that mixes issuances, ownerships and possessions. A possession names its ownership
and an ownership its issuance by slot index. Every mutator marks the slots it wrote in
`assetChangeFlags`.

A record is the 48 bytes of the union `AssetRecord`. The issuance view (`name`, decimals, unit)
and the ownership/possession view overlap: the 7 bytes of the name are the padding, contract index
and link of a holding, and the decimals and unit are its share count.
-/

namespace QubicBob

open Probe BitWords

def EMPTY : BitVec 8 := 0
def ISSUANCE : BitVec 8 := 1
def OWNERSHIP : BitVec 8 := 2
def POSSESSION : BitVec 8 := 3

/-- The record in its ownership/possession view; `index` is the `issuanceIndex` of an ownership
and the `ownershipIndex` of a possession. -/
structure AssetRecord where
  publicKey : m256i
  type : BitVec 8
  padding : BitVec 8
  managingContractIndex : BitVec 16
  index : BitVec 32
  numberOfShares : BitVec 64
  deriving DecidableEq, Repr

namespace AssetRecord

/-- The all-zero record. -/
def empty : AssetRecord := ⟨0, 0, 0, 0, 0, 0⟩

/-- The 7 bytes of the issuance view behind the type. -/
def name (r : AssetRecord) : BitVec 56 := r.index ++ r.managingContractIndex ++ r.padding

/-- The 48 bytes of the record. -/
def bytes (r : AssetRecord) : List Byte :=
  r.publicKey.bytes ++ leBytes 1 r.type ++ leBytes 1 r.padding
    ++ leBytes 2 r.managingContractIndex ++ leBytes 4 r.index ++ leBytes 8 r.numberOfShares

/-- An issuance record: all 48 bytes are written. -/
def issuance (issuer : m256i) (name : BitVec 56) (numberOfDecimalPlaces : BitVec 8)
    (unitOfMeasurement : BitVec 56) : AssetRecord :=
  { publicKey := issuer
    type := ISSUANCE
    padding := name.extractLsb' 0 8
    managingContractIndex := name.extractLsb' 8 16
    index := name.extractLsb' 24 32
    numberOfShares := unitOfMeasurement ++ numberOfDecimalPlaces }

/-- An ownership or possession written over the empty slot `r`: padding and shares stay. -/
def holding (r : AssetRecord) (type : BitVec 8) (publicKey : m256i)
    (managingContractIndex : BitVec 16) (index : Nat) : AssetRecord :=
  { r with
    publicKey := publicKey
    type := type
    managingContractIndex := managingContractIndex
    index := BitVec.ofNat 32 index }

/-- `numberOfShares += n`. -/
def addShares (r : AssetRecord) (n : BitVec 64) : AssetRecord :=
  { r with numberOfShares := r.numberOfShares + n }

/-- `numberOfShares -= n`. -/
def subShares (r : AssetRecord) (n : BitVec 64) : AssetRecord :=
  { r with numberOfShares := r.numberOfShares - n }

/-- The record is the issuance of `name` by `issuer`. -/
def isIssuance (r : AssetRecord) (issuer : m256i) (name : BitVec 64) : Bool :=
  r.type == ISSUANCE && r.name.zeroExtend 64 == name && r.publicKey == issuer

/-- The record is the holding of the given kind and key. -/
def isHolding (r : AssetRecord) (type : BitVec 8) (publicKey : m256i)
    (managingContractIndex : BitVec 16) (index : BitVec 32) : Bool :=
  r.type == type && r.managingContractIndex == managingContractIndex && r.index == index
    && r.publicKey == publicKey

theorem name_issuance (issuer : m256i) (name : BitVec 56) (d : BitVec 8) (u : BitVec 56) :
    (issuance issuer name d u).name = name := by
  show (name.extractLsb' 24 32 ++ name.extractLsb' 8 16 : BitVec 48) ++ name.extractLsb' 0 8 = name
  apply BitVec.eq_of_getLsbD_eq
  intro i hi
  rw [BitVec.getLsbD_append, BitVec.getLsbD_append]
  simp only [BitVec.getLsbD_extractLsb']
  by_cases h8 : i < 8
  · simp [h8]
  · by_cases h24 : i - 8 < 16
    · simp [h8, h24, show 8 + (i - 8) = i by omega]
    · simp [h8, h24, show 24 + (i - 8 - 16) = i by omega, show i - 8 - 16 < 32 by omega]

end AssetRecord

/-- The table. -/
abbrev Assets := Nat → AssetRecord

/-- The table with its digest tree and change flags. -/
structure Universe where
  assets : Assets
  assetDigests : Nat → m256i
  assetChangeFlags : Words

def isEmptySlot (assets : Assets) (i : Nat) : Bool := (assets i).type == EMPTY

/-- `assetChangeFlags[i >> 6] |= 1ULL << (i & 63)`. -/
def Universe.mark (u : Universe) (i : Nat) : Universe :=
  { u with assetChangeFlags := setBit u.assetChangeFlags i }

@[simp] theorem Universe.mark_assets (u : Universe) (i : Nat) : (u.mark i).assets = u.assets := rfl

/-- Probe for an empty slot from `start` on. -/
def probeEmpty (depth : Nat) (assets : Assets) (start : Nat) : Except Halt Nat :=
  orDiverge (probe (isEmptySlot assets) depth start)

/-- Probe for an issuance from the issuer's home slot on, or an empty slot. -/
def probeIssuance (depth : Nat) (assets : Assets) (issuer : m256i) (name : BitVec 64) :
    Except Halt Nat :=
  orDiverge (probe (fun i => isEmptySlot assets i || (assets i).isIssuance issuer name) depth
    (homeSlot depth issuer))

/-- Probe for a holding from the holder's home slot on, or an empty slot. -/
def probeHolding (depth : Nat) (assets : Assets) (type : BitVec 8) (publicKey : m256i)
    (managingContractIndex : BitVec 16) (index : BitVec 32) : Except Halt Nat :=
  orDiverge (probe (fun i => isEmptySlot assets i
      || (assets i).isHolding type publicKey managingContractIndex index) depth
    (homeSlot depth publicKey))

/-! ## Issuing -/

/-- What `issueAsset` reports: the three slots written, or the slot of an equal issuance. -/
inductive IssueResult where
  | issued (issuanceIndex ownershipIndex possessionIndex : Nat)
  | alreadyIssued (issuanceIndex : Nat)
  deriving DecidableEq, Repr

/-- The value returned: the number of shares, or 0 for an asset that exists. -/
def IssueResult.returnValue (numberOfShares : BitVec 64) : IssueResult → BitVec 64
  | .issued _ _ _ => numberOfShares
  | .alreadyIssued _ => 0

/-- The issuance goes to the first empty slot from the issuer's home slot on; its ownership and
possession to the first empty slots behind it. -/
def issueAsset (depth : Nat) (u : Universe) (issuerPublicKey : m256i) (name : BitVec 56)
    (numberOfDecimalPlaces : BitVec 8) (unitOfMeasurement : BitVec 56) (numberOfShares : BitVec 64)
    (managingContractIndex : BitVec 16) : Except Halt (Universe × IssueResult) := do
  let issuanceIndex ← probeIssuance depth u.assets issuerPublicKey (name.zeroExtend 64)
  if isEmptySlot u.assets issuanceIndex then
    let assets := Function.update u.assets issuanceIndex
      (AssetRecord.issuance issuerPublicKey name numberOfDecimalPlaces unitOfMeasurement)
    -- the probes for the other two records go on behind the issuance; their key is the issuer's
    -- too, so they stay on its chain
    let ownershipIndex ← probeEmpty depth assets ((issuanceIndex + 1) &&& (2 ^ depth - 1))
    let assets := Function.update assets ownershipIndex
      { (assets ownershipIndex).holding OWNERSHIP issuerPublicKey managingContractIndex
          issuanceIndex with numberOfShares := numberOfShares }
    let possessionIndex ← probeEmpty depth assets ((ownershipIndex + 1) &&& (2 ^ depth - 1))
    let assets := Function.update assets possessionIndex
      { (assets possessionIndex).holding POSSESSION issuerPublicKey managingContractIndex
          ownershipIndex with numberOfShares := numberOfShares }
    let u := { u with assets := assets }
    pure (((u.mark issuanceIndex).mark ownershipIndex).mark possessionIndex,
      .issued issuanceIndex ownershipIndex possessionIndex)
  else
    pure (u, .alreadyIssued issuanceIndex)

/-! ## Moving shares -/

/-- What a transfer between slots reports. Only `failed` is the return value `false`. -/
inductive TransferResult where
  | failed
  | burned
  | moved (destinationOwnershipIndex destinationPossessionIndex : Nat)
  deriving DecidableEq, Repr

def TransferResult.returnValue : TransferResult → Bool
  | .failed => false
  | _ => true

/-- Debit `source` by `n`, create the destination holding if its slot is empty, credit it. -/
def moveBetween (assets : Assets) (source destination : Nat) (type : BitVec 8) (publicKey : m256i)
    (managingContractIndex : BitVec 16) (index : Nat) (n : BitVec 64) : Assets :=
  -- the slot is tested after the debit: the source may be the destination
  let assets := Function.update assets source ((assets source).subShares n)
  let assets :=
    if isEmptySlot assets destination then
      Function.update assets destination
        ((assets destination).holding type publicKey managingContractIndex index)
    else assets
  Function.update assets destination ((assets destination).addShares n)

/-- The body that `transferShareOwnershipAndPossession` and `transferShareManagementRights`
share: find or create the destination ownership and then the destination possession, and move the
shares. The two differ only in the keys of the destination records. -/
def moveShares (depth : Nat) (u : Universe) (sourceOwnershipIndex sourcePossessionIndex : Nat)
    (ownerKey : m256i) (ownershipContract : BitVec 16) (possessorKey : m256i)
    (possessionContract : BitVec 16) (numberOfShares : BitVec 64) :
    Except Halt (Universe × TransferResult) := do
  let issuanceIndex := (u.assets sourceOwnershipIndex).index
  let destinationOwnershipIndex ←
    probeHolding depth u.assets OWNERSHIP ownerKey ownershipContract issuanceIndex
  let assets := moveBetween u.assets sourceOwnershipIndex destinationOwnershipIndex OWNERSHIP
    ownerKey ownershipContract issuanceIndex.toNat numberOfShares
  -- this probe sees the table with the ownership already moved
  let destinationPossessionIndex ← probeHolding depth assets POSSESSION possessorKey
    possessionContract (BitVec.ofNat 32 destinationOwnershipIndex)
  let assets := moveBetween assets sourcePossessionIndex destinationPossessionIndex POSSESSION
    possessorKey possessionContract destinationOwnershipIndex numberOfShares
  let u := { u with assets := assets }
  pure ((((u.mark sourceOwnershipIndex).mark sourcePossessionIndex).mark
      destinationOwnershipIndex).mark destinationPossessionIndex,
    .moved destinationOwnershipIndex destinationPossessionIndex)

/-- An `int` used as an array index. -/
def slotOf (depth : Nat) (index : Int) : Except Halt Nat :=
  if 0 ≤ index ∧ index < 2 ^ depth then .ok index.toNat else .error .outOfBounds

/-- The source ownership may give `numberOfShares`. -/
def ownershipCanGive (assets : Assets) (own : Nat) (numberOfShares : BitVec 64) : Bool :=
  (assets own).type == OWNERSHIP
    && decide (numberOfShares.toInt ≤ (assets own).numberOfShares.toInt)

/-- The source possession may give `numberOfShares` and belongs to the source ownership. -/
def possessionCanGive (assets : Assets) (own poss : Nat) (numberOfShares : BitVec 64) : Bool :=
  (assets poss).type == POSSESSION
    && decide (numberOfShares.toInt ≤ (assets poss).numberOfShares.toInt)
    && (assets poss).index == BitVec.ofNat 32 own

/-- The common guard of the two transfers between slots: the slots of ownership and possession, or
`none` when one of the checks fails. The possession is only looked at when the ownership passes. -/
def checkedSource (depth : Nat) (assets : Assets)
    (sourceOwnershipIndex sourcePossessionIndex : Int) (numberOfShares : BitVec 64) :
    Except Halt (Option (Nat × Nat)) := do
  let own ← slotOf depth sourceOwnershipIndex
  if ownershipCanGive assets own numberOfShares then do
    let poss ← slotOf depth sourcePossessionIndex
    if possessionCanGive assets own poss numberOfShares then pure (some (own, poss))
    else pure none
  else pure none

/-- Burn by subtracting the shares from the source records. Contract shares, those of the zero
issuer, cannot be burned. -/
def burnShares (depth : Nat) (u : Universe) (own poss : Nat) (numberOfShares : BitVec 64) :
    Except Halt (Universe × TransferResult) := do
  let issuanceIndex ← slotOf depth (u.assets own).index.toNat
  -- contract shares
  if (u.assets issuanceIndex).publicKey.isZero then pure (u, .failed)
  else
    let assets := Function.update u.assets own ((u.assets own).subShares numberOfShares)
    let assets := Function.update assets poss ((assets poss).subShares numberOfShares)
    pure ((({ u with assets := assets } : Universe).mark own).mark poss, .burned)

/-- The transfer between slots; an all-zero destination burns the shares. -/
def transferShareOwnershipAndPossession (depth : Nat) (u : Universe)
    (sourceOwnershipIndex sourcePossessionIndex : Int) (destinationPublicKey : m256i)
    (numberOfShares : BitVec 64) : Except Halt (Universe × TransferResult) :=
  if numberOfShares.toInt ≤ 0 then pure (u, .failed)
  else do
    match ← checkedSource depth u.assets sourceOwnershipIndex sourcePossessionIndex
        numberOfShares with
    | none => pure (u, .failed)
    | some (own, poss) =>
        if destinationPublicKey.isZero then burnShares depth u own poss numberOfShares
        else
          -- the managing contracts stay, and one key is both owner and possessor
          moveShares depth u own poss destinationPublicKey (u.assets own).managingContractIndex
            destinationPublicKey (u.assets poss).managingContractIndex numberOfShares

/-- The change of managing contracts between slots. -/
def transferShareManagementRights (depth : Nat) (u : Universe)
    (sourceOwnershipIndex sourcePossessionIndex : Int)
    (destinationOwnershipManagingContractIndex
      destinationPossessionManagingContractIndex : BitVec 16)
    (numberOfShares : BitVec 64) : Except Halt (Universe × TransferResult) :=
  if numberOfShares.toInt ≤ 0 then pure (u, .failed)
  else do
    match ← checkedSource depth u.assets sourceOwnershipIndex sourcePossessionIndex
        numberOfShares with
    | none => pure (u, .failed)
    | some (own, poss) =>
        -- owner and possessor stay
        moveShares depth u own poss (u.assets own).publicKey
          destinationOwnershipManagingContractIndex (u.assets poss).publicKey
          destinationPossessionManagingContractIndex numberOfShares

/-! ## Finding by key -/

/-- The index of an issuance, or `-1`. -/
def findIssuerIndex (depth : Nat) (assets : Assets) (issuer : m256i) (name : BitVec 64) :
    Except Halt Int := do
  let i ← probeIssuance depth assets issuer name
  if isEmptySlot assets i then pure (-1) else pure i

/-- The record is the holding of the given kind; `index` and `managingIndex` are `int`s. -/
def AssetRecord.matchesHolding (r : AssetRecord) (type : BitVec 8) (publicKey : m256i)
    (managingIndex : Int) (index : Int) : Bool :=
  r.type == type && r.index == BitVec.ofInt 32 index && r.publicKey == publicKey
    && decide ((r.managingContractIndex.toNat : Int) = managingIndex)

/-- `findOwnershipIndex` and `findPossessionIndex` are this search, for their kinds. -/
def findHoldingIndex (depth : Nat) (assets : Assets) (type : BitVec 8) (index : Int)
    (publicKey : m256i) (managingIndex : Int) : Except Halt Int := do
  let i ← orDiverge (probe (fun i => isEmptySlot assets i
      || (assets i).matchesHolding type publicKey managingIndex index) depth
    (homeSlot depth publicKey))
  if isEmptySlot assets i then pure (-1) else pure i

def findOwnershipIndex (depth : Nat) (assets : Assets) (issuanceIndex : Int) (owner : m256i)
    (managingIndex : Int) : Except Halt Int :=
  findHoldingIndex depth assets OWNERSHIP issuanceIndex owner managingIndex

def findPossessionIndex (depth : Nat) (assets : Assets) (ownershipIndex : Int)
    (possession : m256i) (managingIndex : Int) : Except Halt Int :=
  findHoldingIndex depth assets POSSESSION ownershipIndex possession managingIndex

/-- The shares a key owns and possesses under its own ownership, `-1` where there is no record. -/
def getAssetBalances (depth : Nat) (assets : Assets) (pk issuer : m256i) (assetName : BitVec 64)
    (manageSCIndex : BitVec 32) : Except Halt (Int × Int) := do
  let issuanceIndex ← findIssuerIndex depth assets issuer assetName
  if issuanceIndex = -1 then pure (-1, -1)
  else
    let ownershipIndex ← findOwnershipIndex depth assets issuanceIndex pk manageSCIndex.toInt
    if ownershipIndex = -1 then pure (-1, -1)
    else
      let ownershipBalance := (assets ownershipIndex.toNat).numberOfShares.toInt
      let possIndex ← findPossessionIndex depth assets ownershipIndex pk manageSCIndex.toInt
      if possIndex = -1 then pure (ownershipBalance, -1)
      else pure (ownershipBalance, (assets possIndex.toNat).numberOfShares.toInt)

/-- What the transfer by key reports. -/
inductive KeyTransferResult where
  | notFound
  | otherContract
  | notEnough (possessionIndex : Nat)
  | refused
  | done (ownershipIndex possessionIndex : Nat) (result : TransferResult)
  deriving DecidableEq, Repr

/-- The value the transfer by key returns, with `assets` the table after it. -/
def KeyTransferResult.returnValue (assets : Assets) (numberOfShares : BitVec 64) :
    KeyTransferResult → BitVec 64
  | .notFound => -numberOfShares
  | .otherContract => -1
  | .notEnough i => (assets i).numberOfShares - numberOfShares
  | .refused => -1
  | .done _ i _ => (assets i).numberOfShares

/-- The record is a possession of `possessor` under the ownership in slot `ownershipIndex`; this
probe does not look at the managing contract. -/
def AssetRecord.isPossessionOf (r : AssetRecord) (possessor : m256i) (ownershipIndex : Nat) :
    Bool :=
  r.type == POSSESSION && r.index == BitVec.ofNat 32 ownershipIndex && r.publicKey == possessor

/-- The transfer by key, copied from the contract interface. -/
def transferShareOwnershipAndPossessionByKey (depth : Nat) (u : Universe) (assetName : BitVec 64)
    (issuer owner possessor : m256i) (numberOfShares : BitVec 64)
    (managingContractIndex : BitVec 64) (newOwnerAndPossessor : m256i) :
    Except Halt (Universe × KeyTransferResult) := do
  let issuanceIndex ← probeIssuance depth u.assets issuer assetName
  if isEmptySlot u.assets issuanceIndex then pure (u, .notFound)
  else
    let ownershipIndex ← orDiverge (probe (fun i => isEmptySlot u.assets i
        || (u.assets i).matchesHolding OWNERSHIP owner managingContractIndex.toInt issuanceIndex)
      depth (homeSlot depth owner))
    if isEmptySlot u.assets ownershipIndex then pure (u, .notFound)
    else
      let possessionIndex ← orDiverge (probe (fun i => isEmptySlot u.assets i
          || (u.assets i).isPossessionOf possessor ownershipIndex)
        depth (homeSlot depth possessor))
      if isEmptySlot u.assets possessionIndex then pure (u, .notFound)
      -- the contract is compared only now, with the possession the probe has found
      else if ((u.assets possessionIndex).managingContractIndex.toNat : Int)
          = managingContractIndex.toInt then
        if numberOfShares.toInt ≤ (u.assets possessionIndex).numberOfShares.toInt then do
          let (u', result) ← transferShareOwnershipAndPossession depth u ownershipIndex
            possessionIndex newOwnerAndPossessor numberOfShares
          if result.returnValue then pure (u', .done ownershipIndex possessionIndex result)
          else pure (u', .refused)
        else pure (u, .notEnough possessionIndex)
      else pure (u, .otherContract)

/-! ## End of epoch -/

/-- The body of `assetsEndEpoch` for one possession with shares left: its issuance, its ownership
and the possession itself are found or created in the new table `reorg`. -/
def reinsert (depth : Nat) (assets reorg : Assets) (i : Nat) : Except Halt Assets := do
  let oldOwnershipIndex ← slotOf depth (assets i).index.toNat
  let oldIssuanceIndex ← slotOf depth (assets oldOwnershipIndex).index.toNat
  let oldIssuance := assets oldIssuanceIndex
  let oldOwnership := assets oldOwnershipIndex
  let issuanceIndex ←
    probeIssuance depth reorg oldIssuance.publicKey (oldIssuance.name.zeroExtend 64)
  let reorg :=
    if isEmptySlot reorg issuanceIndex then Function.update reorg issuanceIndex oldIssuance
    else reorg
  let ownershipIndex ← probeHolding depth reorg OWNERSHIP oldOwnership.publicKey
    oldOwnership.managingContractIndex (BitVec.ofNat 32 issuanceIndex)
  let reorg :=
    if isEmptySlot reorg ownershipIndex then
      Function.update reorg ownershipIndex ((reorg ownershipIndex).holding OWNERSHIP
        oldOwnership.publicKey oldOwnership.managingContractIndex issuanceIndex)
    else reorg
  -- an ownership gets back the shares of its possessions, one possession after the other
  let reorg := Function.update reorg ownershipIndex
    ((reorg ownershipIndex).addShares (assets i).numberOfShares)
  let possessionIndex ← probeHolding depth reorg POSSESSION (assets i).publicKey
    (assets i).managingContractIndex (BitVec.ofNat 32 ownershipIndex)
  let reorg :=
    if isEmptySlot reorg possessionIndex then
      Function.update reorg possessionIndex ((reorg possessionIndex).holding POSSESSION
        (assets i).publicKey (assets i).managingContractIndex ownershipIndex)
    else reorg
  pure (Function.update reorg possessionIndex
    ((reorg possessionIndex).addShares (assets i).numberOfShares))

/-- The loop of `assetsEndEpoch` over the slots `is`. -/
def reinsertAll (depth : Nat) (assets : Assets) : List Nat → Assets → Except Halt Assets
  | [], reorg => pure reorg
  | i :: is, reorg =>
      if (assets i).type = POSSESSION ∧ 0 < (assets i).numberOfShares.toInt then do
        let reorg ← reinsert depth assets reorg i
        reinsertAll depth assets is reorg
      else reinsertAll depth assets is reorg

/-- Rebuild the table without the holdings that have no shares; every flag is set. -/
def assetsEndEpoch (depth : Nat) (u : Universe) : Except Halt Universe := do
  let reorg ← reinsertAll depth u.assets (List.range (2 ^ depth)) (fun _ => AssetRecord.empty)
  pure { u with
    -- `memcpy` of the table over the old one
    assets := fun i => if i < 2 ^ depth then reorg i else u.assets i
    assetChangeFlags := fun w => if w < 2 ^ depth / 64 then BitVec.allOnes 64
      else u.assetChangeFlags w }

/-! ## What a call can do

One inversion lemma per call that returns; the proofs about the table and about its digests start
from these. -/

section Inversion

variable {depth : Nat} {u u' : Universe}

theorem slotOf_eq_ok {index : Int} {i : Nat} :
    slotOf depth index = .ok i ↔ index = i ∧ i < 2 ^ depth := by
  unfold slotOf
  by_cases h : 0 ≤ index ∧ index < 2 ^ depth
  · rw [if_pos h, Except.ok.injEq]
    have hcast : ((2 : Int) ^ depth) = ((2 ^ depth : Nat) : Int) := by push_cast; rfl
    rw [hcast] at h
    omega
  · rw [if_neg h]
    have hcast : ((2 : Int) ^ depth) = ((2 ^ depth : Nat) : Int) := by push_cast; rfl
    rw [hcast] at h
    constructor
    · intro hc; exact absurd hc (by simp)
    · rintro ⟨rfl, hlt⟩; omega

theorem probeEmpty_eq_ok {assets : Assets} {start i : Nat} :
    probeEmpty depth assets start = .ok i ↔ probe (isEmptySlot assets) depth start = some i :=
  orDiverge_eq_ok

theorem probeIssuance_eq_ok {assets : Assets} {issuer : m256i} {name : BitVec 64} {i : Nat} :
    probeIssuance depth assets issuer name = .ok i ↔
      probe (fun i => isEmptySlot assets i || (assets i).isIssuance issuer name) depth
        (homeSlot depth issuer) = some i :=
  orDiverge_eq_ok

theorem probeHolding_eq_ok {assets : Assets} {type : BitVec 8} {key : m256i} {c : BitVec 16}
    {index : BitVec 32} {i : Nat} :
    probeHolding depth assets type key c index = .ok i ↔
      probe (fun i => isEmptySlot assets i || (assets i).isHolding type key c index) depth
        (homeSlot depth key) = some i :=
  orDiverge_eq_ok

/-- The table after an issuance into the three given slots. -/
def issuedAssets (assets : Assets) (issuer : m256i) (name : BitVec 56) (d : BitVec 8)
    (unit : BitVec 56) (n : BitVec 64) (c : BitVec 16) (iss own poss : Nat) : Assets :=
  let assets := Function.update assets iss (AssetRecord.issuance issuer name d unit)
  let assets := Function.update assets own
    { (assets own).holding OWNERSHIP issuer c iss with numberOfShares := n }
  Function.update assets poss
    { (assets poss).holding POSSESSION issuer c own with numberOfShares := n }

/-- An issuance finds an equal one, or takes three empty slots in a row of probes. -/
theorem issueAsset_cases {issuer : m256i} {name : BitVec 56} {d : BitVec 8} {unit : BitVec 56}
    {n : BitVec 64} {c : BitVec 16} {r : IssueResult}
    (h : issueAsset depth u issuer name d unit n c = .ok (u', r)) :
    (∃ i, u' = u ∧ r = .alreadyIssued i ∧
      probeIssuance depth u.assets issuer (name.zeroExtend 64) = .ok i ∧
      isEmptySlot u.assets i = false) ∨
    ∃ iss own poss, r = .issued iss own poss ∧
      probeIssuance depth u.assets issuer (name.zeroExtend 64) = .ok iss ∧
      isEmptySlot u.assets iss = true ∧
      probeEmpty depth (Function.update u.assets iss (AssetRecord.issuance issuer name d unit))
        ((iss + 1) &&& (2 ^ depth - 1)) = .ok own ∧
      probeEmpty depth (Function.update (Function.update u.assets iss
          (AssetRecord.issuance issuer name d unit)) own
        { (Function.update u.assets iss (AssetRecord.issuance issuer name d unit) own).holding
            OWNERSHIP issuer c iss with numberOfShares := n })
        ((own + 1) &&& (2 ^ depth - 1)) = .ok poss ∧
      u' = ((({ u with assets := issuedAssets u.assets issuer name d unit n c iss own poss } :
        Universe).mark iss).mark own).mark poss := by
  rw [issueAsset, bind_eq_ok] at h
  obtain ⟨iss, hiss, h⟩ := h
  by_cases he : isEmptySlot u.assets iss = true
  · rw [if_pos he, bind_eq_ok] at h
    obtain ⟨own, hown, h⟩ := h
    rw [bind_eq_ok] at h
    obtain ⟨poss, hposs, h⟩ := h
    have heq := Prod.mk.inj (Except.ok.inj h)
    exact Or.inr ⟨iss, own, poss, heq.2.symm, hiss, he, hown, hposs, heq.1.symm⟩
  · rw [if_neg he] at h
    have heq := Prod.mk.inj (Except.ok.inj h)
    exact Or.inl ⟨iss, heq.1.symm, heq.2.symm, hiss, Bool.not_eq_true _ ▸ he⟩

theorem moveShares_cases {own poss : Nat} {ok pk : m256i} {oc pc : BitVec 16} {n : BitVec 64}
    {r : TransferResult} (h : moveShares depth u own poss ok oc pk pc n = .ok (u', r)) :
    ∃ dOwn dPoss, r = .moved dOwn dPoss ∧
      probeHolding depth u.assets OWNERSHIP ok oc (u.assets own).index = .ok dOwn ∧
      probeHolding depth (moveBetween u.assets own dOwn OWNERSHIP ok oc
        (u.assets own).index.toNat n) POSSESSION pk pc (BitVec.ofNat 32 dOwn) = .ok dPoss ∧
      u' = (((({ u with assets := moveBetween (moveBetween u.assets own dOwn OWNERSHIP ok oc
        (u.assets own).index.toNat n) poss dPoss POSSESSION pk pc dOwn n } :
        Universe).mark own).mark poss).mark dOwn).mark dPoss := by
  rw [moveShares, bind_eq_ok] at h
  obtain ⟨dOwn, hdOwn, h⟩ := h
  rw [bind_eq_ok] at h
  obtain ⟨dPoss, hdPoss, h⟩ := h
  have heq := Prod.mk.inj (Except.ok.inj h)
  exact ⟨dOwn, dPoss, heq.2.symm, hdOwn, hdPoss, heq.1.symm⟩

theorem burnShares_cases {own poss : Nat} {n : BitVec 64} {r : TransferResult}
    (h : burnShares depth u own poss n = .ok (u', r)) :
    (u' = u ∧ r = .failed) ∨ (r = .burned ∧ ∃ assets,
      assets = Function.update u.assets own ((u.assets own).subShares n) ∧
      u' = (({ u with assets := Function.update assets poss ((assets poss).subShares n) } :
        Universe).mark own).mark poss) := by
  rw [burnShares, bind_eq_ok] at h
  obtain ⟨iss, _, h⟩ := h
  by_cases hz : (u.assets iss).publicKey.isZero = true
  · rw [if_pos hz] at h
    have heq := Prod.mk.inj (Except.ok.inj h)
    exact Or.inl ⟨heq.1.symm, heq.2.symm⟩
  · rw [if_neg hz] at h
    have heq := Prod.mk.inj (Except.ok.inj h)
    exact Or.inr ⟨heq.2.symm, _, rfl, heq.1.symm⟩

/-- What the guard of the two transfers between slots has checked. -/
structure CanMove (depth : Nat) (assets : Assets) (own poss : Nat) (n : BitVec 64) : Prop where
  own_lt : own < 2 ^ depth
  poss_lt : poss < 2 ^ depth
  own_type : (assets own).type = OWNERSHIP
  own_shares : n.toInt ≤ (assets own).numberOfShares.toInt
  poss_type : (assets poss).type = POSSESSION
  poss_shares : n.toInt ≤ (assets poss).numberOfShares.toInt
  poss_index : (assets poss).index = BitVec.ofNat 32 own

theorem CanMove.ne {assets : Assets} {own poss : Nat} {n : BitVec 64}
    (h : CanMove depth assets own poss n) : own ≠ poss := by
  rintro rfl
  exact absurd (h.own_type.symm.trans h.poss_type) (by decide)

theorem checkedSource_some {assets : Assets} {a b : Int} {n : BitVec 64} {own poss : Nat}
    (h : checkedSource depth assets a b n = .ok (some (own, poss))) :
    a = own ∧ b = poss ∧ CanMove depth assets own poss n := by
  rw [checkedSource, bind_eq_ok] at h
  obtain ⟨o, ho, h⟩ := h
  by_cases hg : ownershipCanGive assets o n = true
  · rw [if_pos hg, bind_eq_ok] at h
    obtain ⟨p, hp, h⟩ := h
    by_cases hq : possessionCanGive assets o p n = true
    · rw [if_pos hq] at h
      have heq := Prod.mk.inj (Option.some.inj (Except.ok.inj h))
      rw [heq.1] at hg hq ho
      rw [heq.2] at hq hp
      simp only [ownershipCanGive, Bool.and_eq_true, beq_iff_eq, decide_eq_true_eq] at hg
      simp only [possessionCanGive, Bool.and_eq_true, beq_iff_eq, decide_eq_true_eq] at hq
      obtain ⟨ha, hown⟩ := slotOf_eq_ok.mp ho
      obtain ⟨hb, hposs⟩ := slotOf_eq_ok.mp hp
      exact ⟨ha, hb, hown, hposs, hg.1, hg.2, hq.1.1, hq.1.2, hq.2⟩
    · rw [if_neg hq] at h
      exact absurd (Except.ok.inj h) (by simp)
  · rw [if_neg hg] at h
    exact absurd (Except.ok.inj h) (by simp)

/-- A transfer between slots fails, burns or moves. -/
theorem transferShareOwnershipAndPossession_cases {a b : Int} {key : m256i} {n : BitVec 64}
    {r : TransferResult} (h : transferShareOwnershipAndPossession depth u a b key n = .ok (u', r)) :
    (u' = u ∧ r = .failed) ∨
    ∃ own poss : Nat, a = own ∧ b = poss ∧ 0 < n.toInt ∧ CanMove depth u.assets own poss n ∧
      (key.isZero = true ∧ burnShares depth u own poss n = .ok (u', r) ∨
       key.isZero = false ∧ moveShares depth u own poss key (u.assets own).managingContractIndex
         key (u.assets poss).managingContractIndex n = .ok (u', r)) := by
  unfold transferShareOwnershipAndPossession at h
  by_cases hn : n.toInt ≤ 0
  · rw [if_pos hn] at h
    have heq := Prod.mk.inj (Except.ok.inj h)
    exact Or.inl ⟨heq.1.symm, heq.2.symm⟩
  rw [if_neg hn, bind_eq_ok] at h
  obtain ⟨src, hsrc, h⟩ := h
  cases src with
  | none =>
      have heq := Prod.mk.inj (Except.ok.inj h)
      exact Or.inl ⟨heq.1.symm, heq.2.symm⟩
  | some src =>
      obtain ⟨own, poss⟩ := src
      obtain ⟨ha, hb, hcan⟩ := checkedSource_some hsrc
      refine Or.inr ⟨own, poss, ha, hb, by omega, hcan, ?_⟩
      cases hz : key.isZero with
      | true => exact Or.inl ⟨rfl, by simpa [hz] using h⟩
      | false => exact Or.inr ⟨rfl, by simpa [hz] using h⟩

/-- A change of managing contracts fails or moves. -/
theorem transferShareManagementRights_cases {a b : Int} {oc pc : BitVec 16} {n : BitVec 64}
    {r : TransferResult} (h : transferShareManagementRights depth u a b oc pc n = .ok (u', r)) :
    (u' = u ∧ r = .failed) ∨
    ∃ own poss : Nat, a = own ∧ b = poss ∧ 0 < n.toInt ∧ CanMove depth u.assets own poss n ∧
      moveShares depth u own poss (u.assets own).publicKey oc (u.assets poss).publicKey pc n
        = .ok (u', r) := by
  unfold transferShareManagementRights at h
  by_cases hn : n.toInt ≤ 0
  · rw [if_pos hn] at h
    have heq := Prod.mk.inj (Except.ok.inj h)
    exact Or.inl ⟨heq.1.symm, heq.2.symm⟩
  rw [if_neg hn, bind_eq_ok] at h
  obtain ⟨src, hsrc, h⟩ := h
  cases src with
  | none =>
      have heq := Prod.mk.inj (Except.ok.inj h)
      exact Or.inl ⟨heq.1.symm, heq.2.symm⟩
  | some src =>
      obtain ⟨own, poss⟩ := src
      obtain ⟨ha, hb, hcan⟩ := checkedSource_some hsrc
      exact Or.inr ⟨own, poss, ha, hb, by omega, hcan, h⟩

/-- What a transfer by key reports of the transfer between slots. -/
theorem keyResult_of_transfer {u₁ : Universe} {own poss : Nat} {t : TransferResult}
    {r : KeyTransferResult} (h : (if t.returnValue then pure (u₁, .done own poss t)
      else pure (u₁, .refused) : Except Halt (Universe × KeyTransferResult)) = .ok (u', r)) :
    u₁ = u' ∧ (t = .failed ∧ r = .refused ∨ t ≠ .failed ∧ r = .done own poss t) := by
  cases t with
  | failed =>
      obtain ⟨hu, hr⟩ := Prod.mk.inj (Except.ok.inj h)
      exact ⟨hu, Or.inl ⟨rfl, hr.symm⟩⟩
  | burned =>
      obtain ⟨hu, hr⟩ := Prod.mk.inj (Except.ok.inj h)
      exact ⟨hu, Or.inr ⟨by simp, hr.symm⟩⟩
  | moved dOwn dPoss =>
      obtain ⟨hu, hr⟩ := Prod.mk.inj (Except.ok.inj h)
      exact ⟨hu, Or.inr ⟨by simp, hr.symm⟩⟩

/-- A transfer by key does nothing or is a transfer between the slots it found. -/
theorem transferByKey_cases {name : BitVec 64} {issuer owner possessor : m256i} {n c : BitVec 64}
    {key : m256i} {r : KeyTransferResult}
    (h : transferShareOwnershipAndPossessionByKey depth u name issuer owner possessor n c key
      = .ok (u', r)) :
    (u' = u ∧ ∀ own poss t, r ≠ .done own poss t) ∨ ∃ (own poss : Nat) (t : TransferResult),
      transferShareOwnershipAndPossession depth u own poss key n = .ok (u', t) ∧
      (t = .failed ∧ r = .refused ∨ t ≠ .failed ∧ r = .done own poss t) := by
  rw [transferShareOwnershipAndPossessionByKey, bind_eq_ok] at h
  obtain ⟨iss, _, h⟩ := h
  -- the ways out that return before a transfer
  have hout : ∀ r', (pure (u, r') : Except Halt (Universe × KeyTransferResult)) = .ok (u', r) →
      (∀ own poss t, r' ≠ .done own poss t) → u' = u ∧ ∀ own poss t, r ≠ .done own poss t := by
    intro r' hr hne
    have heq := Prod.mk.inj (Except.ok.inj hr)
    exact ⟨heq.1.symm, heq.2 ▸ hne⟩
  split at h
  · exact Or.inl (hout _ h (by simp))
  rw [bind_eq_ok] at h
  obtain ⟨own, _, h⟩ := h
  split at h
  · exact Or.inl (hout _ h (by simp))
  rw [bind_eq_ok] at h
  obtain ⟨poss, _, h⟩ := h
  split at h
  · exact Or.inl (hout _ h (by simp))
  split at h
  · split at h
    · rw [bind_eq_ok] at h
      obtain ⟨⟨u₁, t⟩, h₁, h⟩ := h
      dsimp only at h
      obtain ⟨rfl, hr⟩ := keyResult_of_transfer h
      exact Or.inr ⟨own, poss, t, h₁, hr⟩
    · exact Or.inl (hout _ h (by simp))
  · exact Or.inl (hout _ h (by simp))

/-- `moveBetween` writes its two slots only. -/
theorem moveBetween_frame {assets : Assets} {source destination : Nat} {type : BitVec 8}
    {key : m256i} {c : BitVec 16} {index : Nat} {n : BitVec 64} {i : Nat} (hs : i ≠ source)
    (hd : i ≠ destination) :
    moveBetween assets source destination type key c index n i = assets i := by
  unfold moveBetween
  rw [Function.update_of_ne hd]
  split
  · rw [Function.update_of_ne hd, Function.update_of_ne hs]
  · rw [Function.update_of_ne hs]

end Inversion

end QubicBob
