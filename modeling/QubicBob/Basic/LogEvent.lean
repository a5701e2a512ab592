import QubicBob.Basic.Bytes

set_option autoImplicit false

/-! # Log events

A `LogEvent` is the raw content vector of `LogEvent.h`: a packed header of 26 bytes followed by
the body. The accessors read the header, `selfCheck` is the validation every log passes before it
is used, and the body structs of `structs.h` are decoded at their byte offsets.
-/

namespace QubicBob

/-- The types of log events the node knows (`GlobalVar.h`). -/
def QU_TRANSFER : Nat := 0
def ASSET_ISSUANCE : Nat := 1
def ASSET_OWNERSHIP_CHANGE : Nat := 2
def ASSET_POSSESSION_CHANGE : Nat := 3
def CONTRACT_ERROR_MESSAGE : Nat := 4
def CONTRACT_WARNING_MESSAGE : Nat := 5
def CONTRACT_INFORMATION_MESSAGE : Nat := 6
def CONTRACT_DEBUG_MESSAGE : Nat := 7
def BURNING : Nat := 8
def DUST_BURNING : Nat := 9
def SPECTRUM_STATS : Nat := 10
def ASSET_OWNERSHIP_MANAGING_CONTRACT_CHANGE : Nat := 11
def ASSET_POSSESSION_MANAGING_CONTRACT_CHANGE : Nat := 12
def CONTRACT_RESERVE_DEDUCTION : Nat := 13
def CUSTOM_MESSAGE : Nat := 255

/-- The custom messages: the ASCII texts `STA_DDIV`, `END_DDIV` and `END_EPOC`. -/
def CUSTOM_MESSAGE_OP_START_DISTRIBUTE_DIVIDENDS : Nat := 6217575821008262227
def CUSTOM_MESSAGE_OP_END_DISTRIBUTE_DIVIDENDS : Nat := 6217575821008457285
def CUSTOM_MESSAGE_OP_END_EPOCH : Nat := 4850183582582591045

structure LogEvent where
  content : List Byte
  deriving DecidableEq, Repr

/-- The places of the three topics of a log. -/
def topic1 : Fin 3 := 0
def topic2 : Fin 3 := 1
def topic3 : Fin 3 := 2

namespace LogEvent

def PackedHeaderSize : Nat := 26

def hasPackedHeader (le : LogEvent) : Bool := PackedHeaderSize ≤ le.content.length

def getEpoch (le : LogEvent) : Nat :=
  if le.hasPackedHeader then readLE le.content 0 2 else 0

def getTick (le : LogEvent) : BitVec 32 :=
  if le.hasPackedHeader then BitVec.ofNat 32 (readLE le.content 2 4) else 0

/-- The size/type word: the body size in the low 24 bits, the type in the high 8. -/
def combo (le : LogEvent) : Nat := readLE le.content 6 4

def getType (le : LogEvent) : Nat :=
  if le.hasPackedHeader then (le.combo >>> 24) &&& 0xFF else 0

def getLogSize (le : LogEvent) : Nat :=
  if le.hasPackedHeader then le.combo &&& 0x00FFFFFF else 0

def getLogId (le : LogEvent) : Nat :=
  if le.hasPackedHeader then readLE le.content 10 8 else 0

def getLogDigest (le : LogEvent) : BitVec 64 :=
  if le.hasPackedHeader then BitVec.ofNat 64 (readLE le.content 18 8) else 0

/-- The bytes behind the header. -/
def body (le : LogEvent) : List Byte := le.content.drop PackedHeaderSize

/-- The smallest body a type may have: the `sizeof` of its packed struct. -/
def expectedMinBodySizeForType (t : Nat) : Nat :=
  if t = QU_TRANSFER then 72
  else if t = BURNING then 44
  else if t = ASSET_ISSUANCE then 63
  else if t = ASSET_OWNERSHIP_CHANGE then 127
  else if t = ASSET_POSSESSION_CHANGE then 127
  else if t = ASSET_OWNERSHIP_MANAGING_CONTRACT_CHANGE then 87
  else if t = ASSET_POSSESSION_MANAGING_CONTRACT_CHANGE then 119
  else if t = CUSTOM_MESSAGE then 8
  else 0

def selfCheck (K : KangarooTwelve) (le : LogEvent) (epoch : Nat) : Bool :=
  if le.content.length < 8 + PackedHeaderSize then false
  else if le.getEpoch ≠ epoch then false
  -- an empty body would be let through here, but is shorter than the first test allows
  else if le.content.length ≠ PackedHeaderSize + le.getLogSize then
    le.getLogSize == 0 && le.content.length == PackedHeaderSize
  else if 0 < expectedMinBodySizeForType le.getType ∧
      le.getLogSize < expectedMinBodySizeForType le.getType then false
  else K.hash8 (le.body.take le.getLogSize) == le.getLogDigest

/-- The payload of a custom message; any other event gives 0. -/
def getCustomMessage (le : LogEvent) : Nat :=
  if le.getType = 255 ∧ le.getLogSize = 8 ∧ le.hasPackedHeader then
    readLE le.content PackedHeaderSize 8
  else 0

def isSCType (le : LogEvent) : Bool :=
  CONTRACT_ERROR_MESSAGE ≤ le.getType && le.getType ≤ CONTRACT_DEBUG_MESSAGE

/-- The event with the given header fields and body, laid out as the header comment of
`LogEvent.h` says. -/
def pack (epoch : BitVec 16) (tick : BitVec 32) (type : Nat) (logId logDigest : BitVec 64)
    (body : List Byte) : LogEvent :=
  ⟨leBytes 2 epoch ++ leBytes 4 tick ++ leBytes 4 (BitVec.ofNat 32 (type * 2 ^ 24 + body.length))
    ++ leBytes 8 logId ++ leBytes 8 logDigest ++ body⟩

end LogEvent

/-! ## Bodies

`memcpy` of the body into the event's struct, field by field. All structs but `QuTransfer` are
packed; its natural layout has no padding before the last field either. -/

structure QuTransfer where
  sourcePublicKey : m256i
  destinationPublicKey : m256i
  amount : BitVec 64
  deriving DecidableEq, Repr

structure Burning where
  sourcePublicKey : m256i
  amount : BitVec 64
  deriving DecidableEq, Repr

structure AssetIssuance where
  issuerPublicKey : m256i
  numberOfShares : BitVec 64
  managingContractIndex : BitVec 64
  name : BitVec 56
  numberOfDecimalPlaces : BitVec 8
  unitOfMeasurement : BitVec 56
  deriving DecidableEq, Repr

/-- `AssetOwnershipChange`; `AssetPossessionChange` has the same fields. -/
structure AssetOwnershipChange where
  sourcePublicKey : m256i
  destinationPublicKey : m256i
  issuerPublicKey : m256i
  numberOfShares : BitVec 64
  managingContractIndex : BitVec 64
  name : BitVec 56
  numberOfDecimalPlaces : BitVec 8
  unitOfMeasurement : BitVec 56
  deriving DecidableEq, Repr

structure AssetOwnershipManagingContractChange where
  ownershipPublicKey : m256i
  issuerPublicKey : m256i
  sourceContractIndex : BitVec 32
  destinationContractIndex : BitVec 32
  numberOfShares : BitVec 64
  assetName : BitVec 56
  deriving DecidableEq, Repr

structure AssetPossessionManagingContractChange where
  possessionPublicKey : m256i
  ownershipPublicKey : m256i
  issuerPublicKey : m256i
  sourceContractIndex : BitVec 32
  destinationContractIndex : BitVec 32
  numberOfShares : BitVec 64
  assetName : BitVec 56
  deriving DecidableEq, Repr

/-- Field of `n` bytes at `offset` of the body. -/
def LogEvent.field (le : LogEvent) (offset n : Nat) {w : Nat} : BitVec w :=
  BitVec.ofNat w (readLE le.body offset n)

def LogEvent.quTransfer (le : LogEvent) : QuTransfer :=
  { sourcePublicKey := le.field 0 32
    destinationPublicKey := le.field 32 32
    amount := le.field 64 8 }

/-- The 72 bytes of a transfer. -/
def QuTransfer.bytes (qt : QuTransfer) : List Byte :=
  qt.sourcePublicKey.bytes ++ qt.destinationPublicKey.bytes ++ leBytes 8 qt.amount

def LogEvent.burning (le : LogEvent) : Burning :=
  { sourcePublicKey := le.field 0 32
    amount := le.field 32 8 }

def LogEvent.assetIssuance (le : LogEvent) : AssetIssuance :=
  { issuerPublicKey := le.field 0 32
    numberOfShares := le.field 32 8
    managingContractIndex := le.field 40 8
    name := le.field 48 7
    numberOfDecimalPlaces := le.field 55 1
    unitOfMeasurement := le.field 56 7 }

def LogEvent.assetOwnershipChange (le : LogEvent) : AssetOwnershipChange :=
  { sourcePublicKey := le.field 0 32
    destinationPublicKey := le.field 32 32
    issuerPublicKey := le.field 64 32
    numberOfShares := le.field 96 8
    managingContractIndex := le.field 104 8
    name := le.field 112 7
    numberOfDecimalPlaces := le.field 119 1
    unitOfMeasurement := le.field 120 7 }

def LogEvent.assetOwnershipManagingContractChange (le : LogEvent) :
    AssetOwnershipManagingContractChange :=
  { ownershipPublicKey := le.field 0 32
    issuerPublicKey := le.field 32 32
    sourceContractIndex := le.field 64 4
    destinationContractIndex := le.field 68 4
    numberOfShares := le.field 72 8
    assetName := le.field 80 7 }

def LogEvent.assetPossessionManagingContractChange (le : LogEvent) :
    AssetPossessionManagingContractChange :=
  { possessionPublicKey := le.field 0 32
    ownershipPublicKey := le.field 32 32
    issuerPublicKey := le.field 64 32
    sourceContractIndex := le.field 96 4
    destinationContractIndex := le.field 100 4
    numberOfShares := le.field 104 8
    assetName := le.field 112 7 }

/-- A self-checked event has its header, its epoch and a body of the announced size, which is at
least what its type needs. -/
theorem LogEvent.selfCheck_spec {K : KangarooTwelve} {le : LogEvent} {epoch : Nat}
    (h : le.selfCheck K epoch = true) :
    le.hasPackedHeader = true ∧ le.getEpoch = epoch ∧
      le.content.length = PackedHeaderSize + le.getLogSize ∧
      expectedMinBodySizeForType le.getType ≤ le.getLogSize := by
  unfold selfCheck at h
  by_cases hlen : le.content.length < 8 + PackedHeaderSize
  · rw [if_pos hlen] at h; exact absurd h (by simp)
  rw [if_neg hlen] at h
  by_cases hep : le.getEpoch ≠ epoch
  · rw [if_pos hep] at h; exact absurd h (by simp)
  rw [if_neg hep] at h
  by_cases hsz : le.content.length ≠ PackedHeaderSize + le.getLogSize
  · rw [if_pos hsz, Bool.and_eq_true, beq_iff_eq, beq_iff_eq] at h
    omega
  rw [if_neg hsz] at h
  by_cases hmin : 0 < expectedMinBodySizeForType le.getType ∧
      le.getLogSize < expectedMinBodySizeForType le.getType
  · rw [if_pos hmin] at h; exact absurd h (by simp)
  refine ⟨?_, not_not.mp hep, not_not.mp hsz, by omega⟩
  rw [hasPackedHeader, decide_eq_true_eq]
  omega

end QubicBob
