import QubicBob.Api.CustomLogFilter
import QubicBob.Api.Identities

set_option autoImplicit false

/-! # Transfers of an identity and of an asset

`getQuTransfersForIdentity`, `getAssetTransfersForIdentity` and `getAllAssetTransfers`. Each list of
an answer is made in two stages: a search of the index for the ticks, and a scan of the 1029 slots
of each tick found, which names the slots with a log that matches.

The scan of a tick has every slot it should, so a list is complete exactly if each tick with a slot
to be named is found and has tick data (`EveryTick`), and what is left is to say which ticks are
found. The index has the logs of a tick under their type and topics, so a transfer is found under
the key it is from or to, unless that is the zero key, under which nothing is filed. The search for
assets only asks for changes of the ownership, though the scan also takes changes of the possession:
there a tick may have a slot to be named and nothing that the search finds.
-/

namespace QubicBob

/-! ## The slots of a tick -/

/-- `db_try_get_logs`. The ids are converted to `uint64_t`; those without a log are left out. -/
def dbTryGetLogsBetween (db : LogDB) (epoch : Nat) (logIdStart logIdEnd : BitVec 64) : List LogEvent :=
  (List.range (logIdEnd.toInt + 1 - logIdStart.toInt).toNat).filterMap
    (fun k => dbTryGetLog db epoch (logIdStart + BitVec.ofNat 64 k).toNat)

/-- From an id on that is not negative, they are the logs of the range of ids. -/
theorem dbTryGetLogsBetween_eq {db : LogDB} {epoch : Nat} {logIdStart logIdEnd : BitVec 64}
    (h : 0 ≤ logIdStart.toInt) : dbTryGetLogsBetween db epoch logIdStart logIdEnd =
      dbTryGetLogsFromTo db epoch logIdStart.toInt logIdEnd.toInt := by
  have hend := BitVec.toInt_lt (x := logIdEnd)
  have hstart : logIdStart.toInt = logIdStart.toNat := by
    refine BitVec.toInt_eq_toNat_of_lt ?_
    rw [BitVec.toInt_eq_toNat_cond] at h
    split at h
    · assumption
    · omega
  unfold dbTryGetLogsBetween dbTryGetLogsFromTo
  rw [List.range'_eq_map_range, List.filterMap_map, hstart, Int.toNat_natCast]
  refine List.filterMap_congr (fun k hk => ?_)
  rw [List.mem_range] at hk
  have hid : (logIdStart + BitVec.ofNat 64 k).toNat = logIdStart.toNat + k := by
    rw [BitVec.toNat_add, BitVec.toNat_ofNat, Nat.mod_eq_of_lt (by omega),
      Nat.mod_eq_of_lt (by omega)]
  rw [hid]
  rfl

/-- The logs of a slot. -/
def slotLogs (a : Archive) (epoch : Nat) (tick : BitVec 32) (i : Fin LOG_TX_PER_TICK) :
    List LogEvent :=
  let lr := a.loadedRanges tick
  dbTryGetLogsBetween a.logStores epoch (lr.fromLogId i) (lr.lastLogId i)

/-- The label of a special event. -/
def specialEventName (tick : BitVec 32) (i : Fin LOG_TX_PER_TICK) : List Char :=
  if i = SC_INITIALIZE_TX then "SC_INITIALIZE_TX_".toList ++ toDecimal tick.toNat
  else if i = SC_BEGIN_EPOCH_TX then "SC_BEGIN_EPOCH_TX_".toList ++ toDecimal tick.toNat
  else if i = SC_BEGIN_TICK_TX then "SC_BEGIN_TICK_TX_".toList ++ toDecimal tick.toNat
  else if i = SC_END_TICK_TX then "SC_END_TICK_TX_".toList ++ toDecimal tick.toNat
  else "SC_END_EPOCH_TX_".toList ++ toDecimal tick.toNat

/-- A slot in an answer: the hash of the transaction, or the label. -/
def slotName (K : KangarooTwelve) (td : TickData) (tick : BitVec 32) (i : Fin LOG_TX_PER_TICK) :
    List Char :=
  if h : i.val < NUMBER_OF_TRANSACTIONS_PER_TICK then
    getIdentityFromPublicKey K (td.transactionDigests ⟨i.val, h⟩) true
  else specialEventName tick i

/-- The slots with a log that matches; the loop over the logs of a slot ends at the first. -/
def slotsWith (a : Archive) (hit : LogEvent → Bool) (epoch : Nat) (tick : BitVec 32) :
    List (Fin LOG_TX_PER_TICK) :=
  (List.finRange LOG_TX_PER_TICK).filter (fun i => (slotLogs a epoch tick i).any hit)

/-- The loop body for a tick. -/
def transfersOfTick (K : KangarooTwelve) (a : Archive) (hit : LogEvent → Bool) (tick : BitVec 32) :
    List (List Char) :=
  let td := a.loadedTickData tick
  if td.epoch = 0 then []
  else (slotsWith a hit td.epoch.toNat tick).map (slotName K td tick)

/-! ## The logs that match -/

def quSentBy (requester : m256i) (le : LogEvent) : Bool :=
  le.getType == QU_TRANSFER && le.quTransfer.sourcePublicKey == requester

def quReceivedBy (requester : m256i) (le : LogEvent) : Bool :=
  le.getType == QU_TRANSFER && le.quTransfer.destinationPublicKey == requester

/-- A change of the ownership or of the possession of the asset. -/
def isAssetTransfer (issuer : m256i) (assetName : List Byte) (le : LogEvent) : Bool :=
  (le.getType == ASSET_OWNERSHIP_CHANGE || le.getType == ASSET_POSSESSION_CHANGE) &&
    (le.assetOwnershipChange.issuerPublicKey == issuer && assetNameOf le == assetName)

def assetSentBy (requester issuer : m256i) (assetName : List Byte) (le : LogEvent) : Bool :=
  isAssetTransfer issuer assetName le && le.assetOwnershipChange.sourcePublicKey == requester

def assetReceivedBy (requester issuer : m256i) (assetName : List Byte) (le : LogEvent) : Bool :=
  isAssetTransfer issuer assetName le && le.assetOwnershipChange.destinationPublicKey == requester

/-! ## The endpoints -/

/-- The two arrays of an answer. -/
structure TransferLists where
  incoming : List (List Char)
  outgoing : List (List Char)
  deriving DecidableEq

/-- The hash of the issuer and the name in a field of seven bytes. -/
def requestedHash (K : KangarooTwelve) (issuer : m256i) (assetName : List Byte) : m256i :=
  K.hash32 (issuer.bytes ++ (assetName ++ List.replicate (7 - assetName.length) 0))

section endpoints

variable (K : KangarooTwelve) (a : Archive) (index : LogIndex) (fromTick toTick : BitVec 32)

def getQuTransfersForIdentity (identity : List Char) : Except String TransferLists :=
  if toTick < fromTick then
    .error "\x7b\"error\":\"Invalid tick range: toTick must be >= fromTick\"\x7d"
  else if 1000 ≤ (toTick - fromTick).toNat then
    .error "\x7b\"error\":\"Invalid tick range: toTick - fromTick must be < 1000\"\x7d"
  else if identity.length ≠ 60 then .error "\x7b\"error\":\"Invalid identity length\"\x7d"
  else
    let requester := getPublicKeyFromIdentity (charBytes identity)
    let lcIdentity := toLowerCase identity
    let outgoingTicks := dbSearchLog index 0 0 fromTick toTick ![lcIdentity, WILDCARD, WILDCARD]
    let incomingTicks := dbSearchLog index 0 0 fromTick toTick ![WILDCARD, lcIdentity, WILDCARD]
    .ok
      { incoming := incomingTicks.flatMap (transfersOfTick K a (quReceivedBy requester))
        outgoing := outgoingTicks.flatMap (transfersOfTick K a (quSentBy requester)) }

def getAssetTransfersForIdentity (identity assetIssuer : List Char) (assetName : List Byte) :
    Except String TransferLists :=
  if toTick < fromTick then
    .error "\x7b\"error\":\"Invalid tick range: toTick must be >= fromTick\"\x7d"
  else if 1000 ≤ (toTick - fromTick).toNat then
    .error "\x7b\"error\":\"Invalid tick range: toTick - fromTick must be < 1000\"\x7d"
  else if identity.length ≠ 60 ∨ assetIssuer.length ≠ 60 then
    .error "\x7b\"error\":\"Invalid identity length\"\x7d"
  else if 7 < assetName.length then .error "\x7b\"error\":\"Invalid assetName length\"\x7d"
  else
    let issuerPubkey := getPublicKeyFromIdentity (charBytes assetIssuer)
    let assetHashStr := getIdentityFromPublicKey K (requestedHash K issuerPubkey assetName) true
    let requester := getPublicKeyFromIdentity (charBytes identity)
    let lcIdentity := toLowerCase identity
    let outgoingTicks := dbSearchLog index 0 (BitVec.ofNat 32 ASSET_OWNERSHIP_CHANGE) fromTick
      toTick ![lcIdentity, WILDCARD, assetHashStr]
    let incomingTicks := dbSearchLog index 0 (BitVec.ofNat 32 ASSET_OWNERSHIP_CHANGE) fromTick
      toTick ![WILDCARD, lcIdentity, assetHashStr]
    .ok
      { incoming := incomingTicks.flatMap
          (transfersOfTick K a (assetReceivedBy requester issuerPubkey assetName))
        outgoing := outgoingTicks.flatMap
          (transfersOfTick K a (assetSentBy requester issuerPubkey assetName)) }

def getAllAssetTransfers (assetIssuer : List Char) (assetName : List Byte) :
    Except String (List (List Char)) :=
  if toTick < fromTick then
    .error "\x7b\"error\":\"Invalid tick range: toTick must be >= fromTick\"\x7d"
  else if 1000 ≤ (toTick - fromTick).toNat then
    .error "\x7b\"error\":\"Invalid tick range: toTick - fromTick must be < 1000\"\x7d"
  else if assetIssuer.length ≠ 60 then .error "\x7b\"error\":\"Invalid identity length\"\x7d"
  else if 7 < assetName.length then .error "\x7b\"error\":\"Invalid assetName length\"\x7d"
  else
    let issuerPubkey := getPublicKeyFromIdentity (charBytes assetIssuer)
    let assetHashStr := getIdentityFromPublicKey K (requestedHash K issuerPubkey assetName) true
    let outgoingTicks := dbSearchLog index 0 (BitVec.ofNat 32 ASSET_OWNERSHIP_CHANGE) fromTick
      toTick ![WILDCARD, WILDCARD, assetHashStr]
    .ok (outgoingTicks.flatMap (transfersOfTick K a (isAssetTransfer issuerPubkey assetName)))

end endpoints

/-! ## What the lists should have -/

/-- The ticks of a query. -/
def queryTicks (fromTick toTick : BitVec 32) : List (BitVec 32) :=
  (ticksFromTo fromTick.toNat toTick.toNat).map (BitVec.ofNat 32)

/-- The names of the slots of the range with a log that matches, in order; `epochOf` is the epoch of
the logs of a tick. -/
def namedSlots (K : KangarooTwelve) (a : Archive) (epochOf : BitVec 32 → Nat)
    (hit : LogEvent → Bool) (fromTick toTick : BitVec 32) : List (List Char) :=
  (queryTicks fromTick toTick).flatMap (fun tick =>
    (slotsWith a hit (epochOf tick) tick).map (slotName K (a.loadedTickData tick) tick))

/-- The logs of the slots of the ticks were indexed, and tick data has the epoch of the tick. -/
structure TicksIndexed (a : Archive) (calls : List IndexCall) (epochOf : BitVec 32 → Nat)
    (fromTick toTick : BitVec 32) : Prop where
  indexed : ∀ tick, fromTick ≤ tick → tick ≤ toTick → ∀ i, ∀ le ∈ slotLogs a (epochOf tick) tick i,
    ∃ call ∈ calls, call.tick = tick ∧ le ∈ call.vle
  epoch : ∀ tick, fromTick ≤ tick → tick ≤ toTick → (a.loadedTickData tick).epoch ≠ 0 →
    (a.loadedTickData tick).epoch.toNat = epochOf tick

/-- Each tick of the range with a slot to be named has tick data and is `Found`. -/
def EveryTick (a : Archive) (epochOf : BitVec 32 → Nat) (hit : LogEvent → Bool)
    (fromTick toTick : BitVec 32) (Found : BitVec 32 → Prop) : Prop :=
  ∀ tick, fromTick ≤ tick → tick ≤ toTick → slotsWith a hit (epochOf tick) tick ≠ [] →
    (a.loadedTickData tick).epoch ≠ 0 ∧ Found tick

/-- The topic of an event is what a search asks for. -/
def Asked (K : KangarooTwelve) (asked : List Char) (topic : m256i) : Prop :=
  IsWildcard asked ∨ topic ≠ m256i.zero ∧ getIdentityFromPublicKey K topic true = toLowerCase asked

/-- The identity is that of a key, and not of the zero key. -/
def Searchable (K : KangarooTwelve) (identity : List Char) : Prop :=
  getPublicKeyFromIdentity (charBytes identity) ≠ m256i.zero ∧
    getIdentityFromPublicKey K (getPublicKeyFromIdentity (charBytes identity)) true =
      toLowerCase identity

/-- The topics of a transfer in the index. -/
def quTopics (le : LogEvent) : Fin 3 → m256i :=
  ![le.quTransfer.sourcePublicKey, le.quTransfer.destinationPublicKey, m256i.zero]

/-- The topics of a change of the ownership in the index. -/
def ownershipTopics (K : KangarooTwelve) (le : LogEvent) : Fin 3 → m256i :=
  ![le.assetOwnershipChange.sourcePublicKey, le.assetOwnershipChange.destinationPublicKey,
    assetHash K le.assetOwnershipChange.issuerPublicKey le.assetOwnershipChange.name]

/-- The indexed logs of the tick have a log of the type with the topics asked for. -/
def LogIndexed (K : KangarooTwelve) (calls : List IndexCall) (type : Nat)
    (topics : LogEvent → Fin 3 → m256i) (q : Fin 3 → List Char) (tick : BitVec 32) : Prop :=
  ∃ call ∈ calls, call.tick = tick ∧ ∃ le ∈ call.vle, le.getType = type ∧
    ∀ i, Asked K (q i) (topics le i)

/-- The indexed logs of the tick have a change of the ownership, not only of the possession, with the
source, the destination and the asset asked for. -/
def OwnershipChangeIndexed (K : KangarooTwelve) (calls : List IndexCall) (q : Fin 3 → List Char)
    (tick : BitVec 32) : Prop :=
  LogIndexed K calls ASSET_OWNERSHIP_CHANGE (ownershipTopics K) q tick

/-! ## The two stages -/

section stages

variable {K : KangarooTwelve} {a : Archive} {calls : List IndexCall} {epochOf : BitVec 32 → Nat}
  {fromTick toTick tick : BitVec 32} {hit : LogEvent → Bool}

theorem mem_queryTicks : tick ∈ queryTicks fromTick toTick ↔ fromTick ≤ tick ∧ tick ≤ toTick := by
  have hto := toTick.isLt
  unfold queryTicks ticksFromTo
  rw [List.mem_map, BitVec.le_def, BitVec.le_def]
  constructor
  · rintro ⟨t, ht, rfl⟩
    rw [List.mem_range'_1] at ht
    rw [BitVec.toNat_ofNat, Nat.mod_eq_of_lt (by omega)]
    omega
  · intro ht
    refine ⟨tick.toNat, List.mem_range'_1.mpr (by omega), ?_⟩
    rw [BitVec.ofNat_toNat, BitVec.setWidth_eq]

theorem pairwise_queryTicks : (queryTicks fromTick toTick).Pairwise (· < ·) := by
  have hto := toTick.isLt
  unfold queryTicks ticksFromTo
  rw [List.pairwise_map]
  refine List.Pairwise.imp_of_mem ?_ (List.pairwise_lt_range' 1)
  intro t u ht hu hlt
  rw [List.mem_range'_1] at ht hu
  rw [BitVec.lt_def, BitVec.toNat_ofNat, BitVec.toNat_ofNat, Nat.mod_eq_of_lt (by omega),
    Nat.mod_eq_of_lt (by omega)]
  exact hlt

theorem TicksIndexed.transfersOfTick_eq (h : TicksIndexed a calls epochOf fromTick toTick)
    (ht : tick ∈ queryTicks fromTick toTick) :
    transfersOfTick K a hit tick =
      if (a.loadedTickData tick).epoch = 0 then []
      else (slotsWith a hit (epochOf tick) tick).map (slotName K (a.loadedTickData tick) tick) := by
  unfold transfersOfTick
  by_cases hepoch : (a.loadedTickData tick).epoch = 0
  · rw [if_pos hepoch, if_pos hepoch]
  · have hsame := h.epoch tick (mem_queryTicks.mp ht).1 (mem_queryTicks.mp ht).2 hepoch
    rw [if_neg hepoch, if_neg hepoch, hsame]

/-- A list has every slot exactly if each tick with a slot to be named is found and has tick data. -/
theorem TicksIndexed.scan_eq_iff (h : TicksIndexed a calls epochOf fromTick toTick)
    {ticks : List (BitVec 32)} (hsorted : ticks.Pairwise (· < ·)) {Found : BitVec 32 → Prop}
    (hmem : ∀ tick, tick ∈ ticks ↔ (fromTick ≤ tick ∧ tick ≤ toTick) ∧ Found tick) :
    ticks.flatMap (transfersOfTick K a hit) = namedSlots K a epochOf hit fromTick toTick ↔
      EveryTick a epochOf hit fromTick toTick Found := by
  have hfound : ∀ tick, tick ∈ ticks ↔ tick ∈ queryTicks fromTick toTick ∧ Found tick := by
    intro tick
    rw [hmem, mem_queryTicks]
  unfold namedSlots EveryTick
  rw [InvertedIndex.flatMap_found_eq_iff pairwise_queryTicks hsorted hfound
    (fun tick ht => h.transfersOfTick_eq ht)]
  simp only [mem_queryTicks, ne_eq, List.map_eq_nil_iff, and_imp]

/-- A log that matches, of a tick with a slot to be named, was indexed. -/
theorem TicksIndexed.exists_log (h : TicksIndexed a calls epochOf fromTick toTick)
    (hfrom : fromTick ≤ tick) (hto : tick ≤ toTick)
    (hslots : slotsWith a hit (epochOf tick) tick ≠ []) :
    ∃ call ∈ calls, call.tick = tick ∧ ∃ le ∈ call.vle, hit le = true := by
  obtain ⟨i, hi⟩ := List.exists_mem_of_ne_nil _ hslots
  obtain ⟨le, hle, hhit⟩ := List.any_eq_true.mp (List.mem_filter.mp hi).2
  obtain ⟨call, hcall, htick, hmem⟩ := h.indexed tick hfrom hto i le hle
  exact ⟨call, hcall, htick, le, hmem, hhit⟩

theorem EveryTick.congr {Found Found' : BitVec 32 → Prop}
    (h : ∀ tick, fromTick ≤ tick → tick ≤ toTick → slotsWith a hit (epochOf tick) tick ≠ [] →
      (Found tick ↔ Found' tick)) :
    EveryTick a epochOf hit fromTick toTick Found ↔
      EveryTick a epochOf hit fromTick toTick Found' := by
  unfold EveryTick
  refine forall₄_congr (fun tick hfrom hto hslots => ?_)
  rw [h tick hfrom hto hslots]

end stages

/-! ## What the index has -/

section indexed

variable {K : KangarooTwelve} {U : Unspecified} {le : LogEvent} {e : IndexFields}

theorem indexedEvent_quTransfer (h : le.getType = QU_TRANSFER) : indexedEvent K U le =
    some ⟨0, BitVec.ofNat 32 QU_TRANSFER, quTopics le⟩ := by
  have hzero : (0 : BitVec 32) ≠ NO_INDEX := by decide
  unfold indexedEvent readEvent
  dsimp only
  rw [if_pos h, h, if_neg hzero]
  rfl

theorem indexedEvent_ownershipChange (h : le.getType = ASSET_OWNERSHIP_CHANGE) :
    indexedEvent K U le =
      some ⟨0, BitVec.ofNat 32 ASSET_OWNERSHIP_CHANGE, ownershipTopics K le⟩ := by
  have hzero : (0 : BitVec 32) ≠ NO_INDEX := by decide
  have htransfer : le.getType ≠ QU_TRANSFER := by
    rw [h]
    decide
  have hissuance : le.getType ≠ ASSET_ISSUANCE := by
    rw [h]
    decide
  unfold indexedEvent readEvent
  dsimp only
  rw [if_neg htransfer, if_neg hissuance, if_pos (Or.inl h), h, if_neg hzero]
  rfl

theorem getType_lt : le.getType < 256 := by
  have hbyte : (le.combo >>> 24) &&& 0xFF ≤ 0xFF := Nat.and_le_right
  unfold LogEvent.getType
  split <;> omega

/-- A message of a contract is never under a type below 100000. -/
theorem le_logType_of_contract (hsc : le.isSCType = true) (h : indexedEvent K U le = some e) :
    100000 ≤ e.logType.toNat := by
  unfold indexedEvent at h
  rw [readEvent_contract hsc] at h
  by_cases hsize : 8 ≤ le.getLogSize
  · by_cases htype : 100000 ≤ (le.field 4 4 : BitVec 32).toNat
    · rw [if_pos hsize, if_pos htype] at h
      dsimp only at h
      split at h
      · cases h
      · rw [← Option.some.inj h]
        exact htype
    · rw [if_pos hsize, if_neg htype] at h
      cases h
  · rw [if_neg hsize] at h
    cases h

/-- What is under a type below 100000 is a log of that type. -/
theorem getType_of_indexed (h : indexedEvent K U le = some e) {type : Nat} (htype : type < 100000)
    (hlt : e.logType = BitVec.ofNat 32 type) : le.getType = type := by
  have hnat : e.logType.toNat = type := by
    rw [hlt, BitVec.toNat_ofNat, Nat.mod_eq_of_lt (by omega)]
  cases hsc : le.isSCType with
  | true =>
      have hlarge := le_logType_of_contract hsc h
      omega
  | false =>
      have hsame := congrArg BitVec.toNat (indexedEvent_protocol hsc h).2
      have hbyte : le.getType < 256 := getType_lt
      rw [BitVec.toNat_ofNat, Nat.mod_eq_of_lt (by omega)] at hsame
      omega

end indexed

section search

variable {K : KangarooTwelve} {calls : List IndexCall} {fromTick toTick tick : BitVec 32}
  {type : Nat} {topics : LogEvent → Fin 3 → m256i} {q : Fin 3 → List Char}

/-- The events of a type are the logs of the type, with their topics. -/
theorem hasEvent_iff_logIndexed (htype : type < 100000)
    (hread : ∀ U le, le.getType = type →
      indexedEvent K U le = some ⟨0, BitVec.ofNat 32 type, topics le⟩) :
    HasEvent K calls tick 0 (BitVec.ofNat 32 type) q ↔ LogIndexed K calls type topics q tick := by
  unfold HasEvent LogIndexed Asked
  simp only [or_iff_not_imp_left]
  constructor
  · rintro ⟨call, hcall, htick, le, hle, e, he, _, hlt, htopics⟩
    have hsame := getType_of_indexed he htype hlt
    rw [hread _ _ hsame] at he
    rw [← Option.some.inj he] at htopics
    exact ⟨call, hcall, htick, le, hle, hsame, htopics⟩
  · rintro ⟨call, hcall, htick, le, hle, hsame, htopics⟩
    exact ⟨call, hcall, htick, le, hle, _, hread _ _ hsame, rfl, rfl, htopics⟩

/-- The ticks that a search for a type finds. -/
theorem mem_search_iff (htype : type < 100000)
    (hread : ∀ U le, le.getType = type →
      indexedEvent K U le = some ⟨0, BitVec.ofNat 32 type, topics le⟩)
    (hlen : ∀ i, (q i).length = 60) :
    tick ∈ dbSearchLog (indexTicks K calls) 0 (BitVec.ofNat 32 type) fromTick toTick
        (fun i => toLowerCase (q i)) ↔
      (fromTick ≤ tick ∧ tick ≤ toTick) ∧ LogIndexed K calls type topics q tick ∧
        ((∀ i, IsWildcard (q i)) → type ≠ 0) := by
  have hsmall : BitVec.ofNat 32 type ≠ 0xffffffff := by
    intro heq
    have hnat := congrArg BitVec.toNat heq
    have hmax : (0xffffffff : BitVec 32).toNat = 4294967295 := rfl
    rw [BitVec.toNat_ofNat, Nat.mod_eq_of_lt (by omega)] at hnat
    omega
  have hzero : BitVec.ofNat 32 type = 0 ↔ type = 0 := by
    rw [← BitVec.toNat_inj, BitVec.toNat_ofNat, Nat.mod_eq_of_lt (by omega)]
    rfl
  rw [mem_dbSearchLog hlen hsmall, hasEvent_iff_logIndexed htype hread, hzero]
  simp only [true_and, ne_eq]

theorem TicksIndexed.list_eq_iff {a : Archive} {epochOf : BitVec 32 → Nat} {hit : LogEvent → Bool}
    (h : TicksIndexed a calls epochOf fromTick toTick) (htype : type < 100000)
    (hread : ∀ U le, le.getType = type →
      indexedEvent K U le = some ⟨0, BitVec.ofNat 32 type, topics le⟩)
    (hlen : ∀ i, (q i).length = 60) :
    (dbSearchLog (indexTicks K calls) 0 (BitVec.ofNat 32 type) fromTick toTick
        (fun i => toLowerCase (q i))).flatMap (transfersOfTick K a hit) =
        namedSlots K a epochOf hit fromTick toTick ↔
      EveryTick a epochOf hit fromTick toTick (fun tick =>
        LogIndexed K calls type topics q tick ∧ ((∀ i, IsWildcard (q i)) → type ≠ 0)) :=
  h.scan_eq_iff (pairwise_dbSearchLog hlen) (fun _ => mem_search_iff htype hread hlen)

theorem toLowerCase_wildcard : toLowerCase WILDCARD = WILDCARD := by decide

theorem lower_topics (x y z : List Char) : (fun i => toLowerCase (![x, y, z] i)) =
    ![toLowerCase x, toLowerCase y, toLowerCase z] := by
  funext i
  match i with
  | 0 => rfl
  | 1 => rfl
  | 2 => rfl

theorem length_topics {x y z : List Char} (hx : x.length = 60) (hy : y.length = 60)
    (hz : z.length = 60) : ∀ i, (![x, y, z] i).length = 60 := by
  simp [Fin.forall_fin_succ, hx, hy, hz]

end search

/-! ## The lists -/

section lists

variable {K : KangarooTwelve} {a : Archive} {calls : List IndexCall} {epochOf : BitVec 32 → Nat}
  {fromTick toTick : BitVec 32} {identity : List Char}

/-- An identity that is no wildcard and asks for a topic is the identity of its key. -/
theorem searchable_of_asked (hidentity : UpperCaseIdentity identity)
    (hwild : ¬ IsWildcard identity) {topic : m256i} (h : Asked K identity topic) :
    Searchable K identity := by
  obtain ⟨hne, hname⟩ := h.resolve_left hwild
  have hkey := hidentity.eq_key hname
  unfold Searchable
  rw [← hkey]
  exact ⟨hne, hname⟩

/-- The identity of any key but zero can be searched for. -/
theorem searchable_identity {publicKey : m256i} (h : publicKey ≠ m256i.zero) :
    Searchable K (getIdentityFromPublicKey K publicKey false) := by
  unfold Searchable
  rw [getPublicKeyFromIdentity_identity, toLowerCase_identity]
  exact ⟨h, rfl⟩

theorem Searchable.not_wildcard (h : Searchable K identity)
    (hidentity : UpperCaseIdentity identity) : ¬ IsWildcard identity :=
  fun hwild => h.1 (hidentity.key_of_wildcard hwild)

/-- A list of transfers has every slot exactly if the identity can be searched for: `j` is the place
of the identity among the topics. -/
theorem TicksIndexed.qu_list_eq_iff (h : TicksIndexed a calls epochOf fromTick toTick)
    (hidentity : UpperCaseIdentity identity) {q : Fin 3 → List Char} {j : Fin 3}
    (hj : q j = identity) (hrest : ∀ i, i ≠ j → q i = WILDCARD) {hit : LogEvent → Bool}
    (hhit : ∀ le, hit le = true → le.getType = QU_TRANSFER ∧
      quTopics le j = getPublicKeyFromIdentity (charBytes identity)) :
    (dbSearchLog (indexTicks K calls) 0 0 fromTick toTick
        (fun i => toLowerCase (q i))).flatMap (transfersOfTick K a hit) =
        namedSlots K a epochOf hit fromTick toTick ↔
      EveryTick a epochOf hit fromTick toTick (fun _ => Searchable K identity) := by
  have hlen : ∀ i, (q i).length = 60 := by
    intro i
    by_cases hi : i = j
    · rw [hi, hj, hidentity.length]
    · rw [hrest i hi]
      rfl
  have hwild : (∀ i, IsWildcard (q i)) ↔ IsWildcard identity := by
    constructor
    · intro hall
      rw [← hj]
      exact hall j
    · intro hwild i
      by_cases hi : i = j
      · rwa [hi, hj]
      · rw [hrest i hi]
        exact toLowerCase_wildcard
  have hsmall : QU_TRANSFER < 100000 := by decide
  refine (h.list_eq_iff hsmall (fun _ _ hle => indexedEvent_quTransfer hle) hlen).trans
    (EveryTick.congr ?_)
  intro tick hfrom hto hslots
  obtain ⟨call, hcall, htick, le, hle, hmatch⟩ := h.exists_log hfrom hto hslots
  obtain ⟨htype, hkey⟩ := hhit le hmatch
  rw [hwild]
  constructor
  · rintro ⟨⟨_, _, _, le', _, _, hasked⟩, hnot⟩
    have hidentityAsked := hasked j
    rw [hj] at hidentityAsked
    exact searchable_of_asked hidentity (fun hw => hnot hw rfl) hidentityAsked
  · intro hsearch
    refine ⟨⟨call, hcall, htick, le, hle, htype, fun i => ?_⟩,
      fun hw => absurd hw (hsearch.not_wildcard hidentity)⟩
    by_cases hi : i = j
    · rw [hi, hj, hkey]
      exact Or.inr hsearch
    · rw [hrest i hi]
      exact Or.inl toLowerCase_wildcard

/-- A list of asset transfers has every slot exactly if the tick of each has an indexed change of the
ownership with the topics asked for. -/
theorem TicksIndexed.asset_list_eq_iff (h : TicksIndexed a calls epochOf fromTick toTick)
    {q : Fin 3 → List Char} (hlen : ∀ i, (q i).length = 60) {hit : LogEvent → Bool} :
    (dbSearchLog (indexTicks K calls) 0 (BitVec.ofNat 32 ASSET_OWNERSHIP_CHANGE) fromTick toTick
        (fun i => toLowerCase (q i))).flatMap (transfersOfTick K a hit) =
        namedSlots K a epochOf hit fromTick toTick ↔
      EveryTick a epochOf hit fromTick toTick (OwnershipChangeIndexed K calls q) := by
  refine (h.list_eq_iff (by decide) (fun _ _ hle => indexedEvent_ownershipChange hle)
    hlen).trans (EveryTick.congr ?_)
  intro tick _ _ _
  exact and_iff_left (fun _ => by decide)

/-! ### The three endpoints -/

theorem getQuTransfersForIdentity_complete_iff (hrange : fromTick ≤ toTick)
    (hlt : (toTick - fromTick).toNat < 1000) (h : TicksIndexed a calls epochOf fromTick toTick)
    (hidentity : UpperCaseIdentity identity) :
    let requester := getPublicKeyFromIdentity (charBytes identity)
    ∃ r, getQuTransfersForIdentity K a (indexTicks K calls) fromTick toTick identity = .ok r ∧
      (r.outgoing = namedSlots K a epochOf (quSentBy requester) fromTick toTick ↔
        EveryTick a epochOf (quSentBy requester) fromTick toTick
          (fun _ => Searchable K identity)) ∧
      (r.incoming = namedSlots K a epochOf (quReceivedBy requester) fromTick toTick ↔
        EveryTick a epochOf (quReceivedBy requester) fromTick toTick
          (fun _ => Searchable K identity)) := by
  intro requester
  have hout : ![toLowerCase identity, WILDCARD, WILDCARD] =
      fun i => toLowerCase (![identity, WILDCARD, WILDCARD] i) := by
    rw [lower_topics, toLowerCase_wildcard]
  have hin : ![WILDCARD, toLowerCase identity, WILDCARD] =
      fun i => toLowerCase (![WILDCARD, identity, WILDCARD] i) := by
    rw [lower_topics, toLowerCase_wildcard]
  unfold getQuTransfersForIdentity
  rw [if_neg (BitVec.not_lt.mpr hrange), if_neg (not_le.mpr hlt),
    if_neg (not_not.mpr hidentity.length)]
  dsimp only
  rw [hout, hin]
  refine ⟨_, rfl, ?_, ?_⟩
  · refine h.qu_list_eq_iff hidentity (j := 0) rfl ?_ (fun le hle => ?_)
    · simp [Fin.forall_fin_succ]
    · simpa [quSentBy, quTopics] using hle
  · refine h.qu_list_eq_iff hidentity (j := 1) rfl ?_ (fun le hle => ?_)
    · simp [Fin.forall_fin_succ]
    · simpa [quReceivedBy, quTopics] using hle

theorem getAssetTransfersForIdentity_complete_iff {assetIssuer : List Char} {assetName : List Byte}
    (hrange : fromTick ≤ toTick) (hlt : (toTick - fromTick).toNat < 1000)
    (h : TicksIndexed a calls epochOf fromTick toTick) (hidentity : identity.length = 60)
    (hissuer : assetIssuer.length = 60) (hname : assetName.length ≤ 7) :
    let requester := getPublicKeyFromIdentity (charBytes identity)
    let issuer := getPublicKeyFromIdentity (charBytes assetIssuer)
    let asset := getIdentityFromPublicKey K (requestedHash K issuer assetName) true
    ∃ r, getAssetTransfersForIdentity K a (indexTicks K calls) fromTick toTick identity assetIssuer
        assetName = .ok r ∧
      (r.outgoing =
          namedSlots K a epochOf (assetSentBy requester issuer assetName) fromTick toTick ↔
        EveryTick a epochOf (assetSentBy requester issuer assetName) fromTick toTick
          (OwnershipChangeIndexed K calls ![identity, WILDCARD, asset])) ∧
      (r.incoming =
          namedSlots K a epochOf (assetReceivedBy requester issuer assetName) fromTick toTick ↔
        EveryTick a epochOf (assetReceivedBy requester issuer assetName) fromTick toTick
          (OwnershipChangeIndexed K calls ![WILDCARD, identity, asset])) := by
  intro requester issuer asset
  have hout : ![toLowerCase identity, WILDCARD, asset] =
      fun i => toLowerCase (![identity, WILDCARD, asset] i) := by
    rw [lower_topics, toLowerCase_wildcard, toLowerCase_lower]
  have hin : ![WILDCARD, toLowerCase identity, asset] =
      fun i => toLowerCase (![WILDCARD, identity, asset] i) := by
    rw [lower_topics, toLowerCase_wildcard, toLowerCase_lower]
  unfold getAssetTransfersForIdentity
  rw [if_neg (BitVec.not_lt.mpr hrange), if_neg (not_le.mpr hlt),
    if_neg (not_or.mpr ⟨not_not.mpr hidentity, not_not.mpr hissuer⟩), if_neg (not_lt.mpr hname)]
  dsimp only
  rw [hout, hin]
  exact ⟨_, rfl, h.asset_list_eq_iff (length_topics hidentity rfl length_lower),
    h.asset_list_eq_iff (length_topics rfl hidentity length_lower)⟩

theorem getAllAssetTransfers_complete_iff {assetIssuer : List Char} {assetName : List Byte}
    (hrange : fromTick ≤ toTick) (hlt : (toTick - fromTick).toNat < 1000)
    (h : TicksIndexed a calls epochOf fromTick toTick) (hissuer : assetIssuer.length = 60)
    (hname : assetName.length ≤ 7) :
    let issuer := getPublicKeyFromIdentity (charBytes assetIssuer)
    let asset := getIdentityFromPublicKey K (requestedHash K issuer assetName) true
    ∃ names, getAllAssetTransfers K a (indexTicks K calls) fromTick toTick assetIssuer assetName
        = .ok names ∧
      (names = namedSlots K a epochOf (isAssetTransfer issuer assetName) fromTick toTick ↔
        EveryTick a epochOf (isAssetTransfer issuer assetName) fromTick toTick
          (OwnershipChangeIndexed K calls ![WILDCARD, WILDCARD, asset])) := by
  intro issuer asset
  have hall : ![WILDCARD, WILDCARD, asset] =
      fun i => toLowerCase (![WILDCARD, WILDCARD, asset] i) := by
    rw [lower_topics, toLowerCase_wildcard, toLowerCase_lower]
  unfold getAllAssetTransfers
  rw [if_neg (BitVec.not_lt.mpr hrange), if_neg (not_le.mpr hlt), if_neg (not_not.mpr hissuer),
    if_neg (not_lt.mpr hname)]
  dsimp only
  refine ⟨_, rfl, ?_⟩
  rw [← h.asset_list_eq_iff (length_topics rfl rfl length_lower), ← hall]

end lists

/-- **The transfer endpoints.** Each list of an answer has exactly the slots of the range with a log
that matches, each once and in order, if and only if each tick with such a slot has tick data and is
found: for transfers the identity must be that of a key other than zero, for assets the tick must
have a change of the ownership that the search asks for. -/
theorem transfers_complete_iff (K : KangarooTwelve) (a : Archive) (calls : List IndexCall)
    (epochOf : BitVec 32 → Nat) (fromTick toTick : BitVec 32) (identity assetIssuer : List Char)
    (assetName : List Byte) (hrange : fromTick ≤ toTick) (hlt : (toTick - fromTick).toNat < 1000)
    (h : TicksIndexed a calls epochOf fromTick toTick) (hidentity : UpperCaseIdentity identity)
    (hissuer : UpperCaseIdentity assetIssuer) (hname : assetName.length ≤ 7) :
    let index := indexTicks K calls
    let requester := getPublicKeyFromIdentity (charBytes identity)
    let issuer := getPublicKeyFromIdentity (charBytes assetIssuer)
    let asset := getIdentityFromPublicKey K (requestedHash K issuer assetName) true
    (∃ r, getQuTransfersForIdentity K a index fromTick toTick identity = .ok r ∧
      (r.outgoing = namedSlots K a epochOf (quSentBy requester) fromTick toTick ↔
        EveryTick a epochOf (quSentBy requester) fromTick toTick
          (fun _ => Searchable K identity)) ∧
      (r.incoming = namedSlots K a epochOf (quReceivedBy requester) fromTick toTick ↔
        EveryTick a epochOf (quReceivedBy requester) fromTick toTick
          (fun _ => Searchable K identity))) ∧
    (∃ r, getAssetTransfersForIdentity K a index fromTick toTick identity assetIssuer assetName
        = .ok r ∧
      (r.outgoing =
          namedSlots K a epochOf (assetSentBy requester issuer assetName) fromTick toTick ↔
        EveryTick a epochOf (assetSentBy requester issuer assetName) fromTick toTick
          (OwnershipChangeIndexed K calls ![identity, WILDCARD, asset])) ∧
      (r.incoming =
          namedSlots K a epochOf (assetReceivedBy requester issuer assetName) fromTick toTick ↔
        EveryTick a epochOf (assetReceivedBy requester issuer assetName) fromTick toTick
          (OwnershipChangeIndexed K calls ![WILDCARD, identity, asset]))) ∧
    ∃ names, getAllAssetTransfers K a index fromTick toTick assetIssuer assetName = .ok names ∧
      (names = namedSlots K a epochOf (isAssetTransfer issuer assetName) fromTick toTick ↔
        EveryTick a epochOf (isAssetTransfer issuer assetName) fromTick toTick
          (OwnershipChangeIndexed K calls ![WILDCARD, WILDCARD, asset])) := by
  intro index requester issuer asset
  exact ⟨getQuTransfersForIdentity_complete_iff hrange hlt h hidentity,
    getAssetTransfersForIdentity_complete_iff hrange hlt h hidentity.length hissuer.length hname,
    getAllAssetTransfers_complete_iff hrange hlt h hissuer.length hname⟩

/-! ## A transfer at the end of a tick without transactions -/

/-- The end of tick 11 has one log, of id 5. -/
def endTickOfLog5 : LogRangesPerTxInTick where
  fromLogId i := if i = SC_END_TICK_TX then 5 else -1
  length i := if i = SC_END_TICK_TX then 1 else -1

/-- Key 5 sends 30 to key 6. -/
def transferAtEndOfTick11 : LogEvent :=
  LogEvent.pack 1 11 QU_TRANSFER 5 0 (QuTransfer.bytes ⟨5, 6, 30⟩)

/-- Tick 11 has its log and its ranges. -/
def archiveOfEndTick (ticks : TickKeyDB) : Archive :=
  { emptyArchive with
    ticks := ticks
    logRanges := fun tick => if tick = 11 then some endTickOfLog5 else none
    tickLogRange := fun tick => if tick = 11 then some (5, 1) else none
    logs := fun epoch logId =>
      if epoch = 1 ∧ logId = 5 then some transferAtEndOfTick11.content else none }

/-- The tick was indexed. -/
def indexedEndTick : List IndexCall :=
  [⟨11, [transferAtEndOfTick11], ⟨fun _ => 0, fun _ => 0⟩⟩]

theorem ticksIndexed_endTick {ticks : TickKeyDB}
    (hepoch : ((archiveOfEndTick ticks).loadedTickData 11).epoch ≠ 0 →
      ((archiveOfEndTick ticks).loadedTickData 11).epoch.toNat = 1) :
    TicksIndexed (archiveOfEndTick ticks) indexedEndTick (fun _ => 1) 11 11 where
  indexed := by
    intro tick hfrom hto i le hle
    obtain rfl : tick = 11 := BitVec.le_antisymm hto hfrom
    have hlogs : ∀ i, ∀ le ∈ slotLogs (archiveOfEndTick emptyArchive.ticks) 1 11 i,
        le = transferAtEndOfTick11 := by
      decide +kernel
    rw [hlogs i le hle]
    exact ⟨_, List.mem_cons_self, rfl, List.mem_cons_self⟩
  epoch := by
    intro tick hfrom hto
    obtain rfl : tick = 11 := BitVec.le_antisymm hto hfrom
    exact hepoch

/-- With tick data the transfer of key 5 is named. -/
theorem transfers_complete_iff_endTick :
    let a := archiveOfEndTick archiveOfTick11.ticks
    let identity := getIdentityFromPublicKey constantHash 5 false
    ∃ r, getQuTransfersForIdentity constantHash a (indexTicks constantHash indexedEndTick) 11 11
        identity = .ok r ∧
      r.outgoing = namedSlots constantHash a (fun _ => 1)
        (quSentBy (getPublicKeyFromIdentity (charBytes identity))) 11 11 := by
  intro a identity
  have hepoch : (a.loadedTickData 11).epoch = 1 := by decide +kernel
  have hsearchable : Searchable constantHash identity := searchable_identity (by decide)
  obtain ⟨⟨r, hrun, hout, _⟩, _⟩ := transfers_complete_iff constantHash a indexedEndTick (fun _ => 1)
    11 11 identity identity [] (by decide) (by decide)
    (ticksIndexed_endTick (fun _ => congrArg BitVec.toNat hepoch))
    (upperCaseIdentity_of_key constantHash 5) (upperCaseIdentity_of_key constantHash 5) (by decide)
  refine ⟨r, hrun, hout.mpr (fun tick hfrom hto _ => ⟨?_, hsearchable⟩)⟩
  obtain rfl : tick = 11 := BitVec.le_antisymm hto hfrom
  rw [hepoch]
  decide

/-- Without tick data the answer for key 5 leaves it out. -/
theorem transfers_incomplete_without_tickData :
    let a := archiveOfEndTick emptyArchive.ticks
    let identity := getIdentityFromPublicKey constantHash 5 false
    let requester := getPublicKeyFromIdentity (charBytes identity)
    TicksIndexed a indexedEndTick (fun _ => 1) 11 11 ∧ UpperCaseIdentity identity ∧
    namedSlots constantHash a (fun _ => 1) (quSentBy requester) 11 11 =
      ["SC_END_TICK_TX_11".toList] ∧
    getQuTransfersForIdentity constantHash a (indexTicks constantHash indexedEndTick) 11 11
      identity = .ok ⟨[], []⟩ ∧
    ¬ ∃ r, getQuTransfersForIdentity constantHash a (indexTicks constantHash indexedEndTick) 11 11
        identity = .ok r ∧
      r.outgoing = namedSlots constantHash a (fun _ => 1) (quSentBy requester) 11 11 := by
  intro a identity requester
  have hnamed : namedSlots constantHash a (fun _ => 1) (quSentBy requester) 11 11 =
      ["SC_END_TICK_TX_11".toList] := by decide +kernel
  have hanswer : getQuTransfersForIdentity constantHash a
      (indexTicks constantHash indexedEndTick) 11 11 identity = .ok ⟨[], []⟩ := by decide +kernel
  refine ⟨ticksIndexed_endTick (fun hne => absurd rfl hne), upperCaseIdentity_of_key constantHash 5,
    hnamed, hanswer, ?_⟩
  rintro ⟨r, hrun, hout⟩
  rw [hanswer] at hrun
  rw [← Except.ok.inj hrun, hnamed] at hout
  exact absurd hout (by simp)

end QubicBob
