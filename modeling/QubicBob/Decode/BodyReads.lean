import QubicBob.Verifier.Skips
import QubicBob.Archive.LogRanges
import QubicBob.Archive.Move
import QubicBob.Stream.Server

set_option autoImplicit false

/-! # Reading the bodies of logs

`LogEvent::getStruct` and `getLogBodyPtr` do not look at the size of the content; that the bytes they
point to are there is left to `selfCheck`, with its table of smallest bodies. This file lists, for
each function that takes a body apart, the bytes it reads (`BodyRead`): the handlers of the
simulation, `indexTick`, the conversion to JSON, the log stream and the endpoints of the API.

For a database of self-checked logs the reads stay inside the contents in all of them but two
(`readsInside_iff`): `indexTick` looks at the first log of a transaction also when it is not there,
and at deductions of contract reserves, which the table does not know; `getCustomLog` compares 32
bytes of the third topic when 24 are there.
-/

namespace QubicBob

/-- `length` bytes from `getLogBodyPtr() + offset`. -/
structure BodyRead where
  le : LogEvent
  offset : Nat
  length : Nat

/-- Every byte lies inside the content. -/
def BodyRead.Inside (r : BodyRead) : Prop :=
  ∀ k, k < r.length → LogEvent.PackedHeaderSize + r.offset + k < r.le.content.length

def ReadsInside (reads : List BodyRead) : Prop := ∀ r ∈ reads, r.Inside

/-- Several fields of one body, as offset and length. -/
def LogEvent.readAll (le : LogEvent) (fields : List (Nat × Nat)) : List BodyRead :=
  fields.map (fun f => ⟨le, f.1, f.2⟩)

/-! ## The simulation -/

def QuTransfer.sizeOf : Nat := 72
def AssetIssuance.sizeOf : Nat := 63
def AssetOwnershipChange.sizeOf : Nat := 127
def AssetOwnershipManagingContractChange.sizeOf : Nat := 87
def AssetPossessionManagingContractChange.sizeOf : Nat := 119
def Burning.sizeOf : Nat := 44
def ContractReserveDeduction.sizeOf : Nat := 20

/-- `getCustomMessage`. -/
def LogEvent.customMessageReads (le : LogEvent) : List BodyRead :=
  if le.getType = 255 ∧ le.getLogSize = 8 ∧ le.hasPackedHeader then le.readAll [(0, 8)] else []

/-- The loop over the transfers of a dividend: it ends at a transfer with another source. A second
loop reads the same again. -/
def dividendReads (source : m256i) : List LogEvent → List BodyRead
  | [] => []
  | le :: vle => le.readAll [(0, QuTransfer.sizeOf)] ++
      if le.quTransfer.sourcePublicKey ≠ source then [] else dividendReads source vle

/-- The `memcpy`s of a handler. -/
def Call.reads : Call → List BodyRead
  | .quTransfer le => le.readAll [(0, QuTransfer.sizeOf)]
  | .issueAsset le => le.readAll [(0, AssetIssuance.sizeOf)]
  | .changeOwnershipAndPossession le0 le1 =>
      if isPairOf ASSET_OWNERSHIP_CHANGE ASSET_POSSESSION_CHANGE le0 le1 = false then []
      else
        let pair := orderPair ASSET_OWNERSHIP_CHANGE le0 le1
        pair.1.readAll [(0, AssetOwnershipChange.sizeOf)] ++
          pair.2.readAll [(0, AssetOwnershipChange.sizeOf)]
  | .changeManagingContract le0 le1 =>
      if isPairOf ASSET_OWNERSHIP_MANAGING_CONTRACT_CHANGE ASSET_POSSESSION_MANAGING_CONTRACT_CHANGE
          le0 le1 = false then []
      else
        let pair := orderPair ASSET_OWNERSHIP_MANAGING_CONTRACT_CHANGE le0 le1
        pair.1.readAll [(0, AssetOwnershipManagingContractChange.sizeOf)] ++
          pair.2.readAll [(0, AssetPossessionManagingContractChange.sizeOf)]
  | .quBurn le => le.readAll [(0, Burning.sizeOf)]
  | .distributeDividends dd =>
      -- only if all are transfers
      if dd.all (fun le => le.getType == QU_TRANSFER) then
        match dd with
        | [] => []
        | le :: _ => dividendReads le.quTransfer.sourcePublicKey dd
      else []
  | .endEpoch _ => []

/-- The loop of the simulation, as far as it gets. -/
def simulationReads (N : Node) : Control → List LogEvent → Ledger → List BodyRead
  | _, [], _ => []
  | c, le :: vle, st =>
      (if le.selfCheck N.K N.gCurrentProcessingEpoch = true then le.customMessageReads else []) ++
      match dispatch N c le with
      | .error _ => []
      | .ok (c', none) => simulationReads N c' vle st
      | .ok (c', some call) => call.reads ++
          match call.exec N st with
          | .error _ => []
          | .ok st' => simulationReads N c' vle st'

/-! ## `indexTick` -/

/-- The log after `db_try_get_log`, whether or not it was found: what was read from Kvrocks, else what
was read from KeyDB under a wrong header, else nothing. -/
def dbTryGetLogOut (db : LogDB) (epoch logId : Nat) : LogEvent :=
  match dbGetLog db.keydb epoch logId with
  | some log => log
  | none =>
      match db.kvrocks.log epoch logId with
      | some bytes => ⟨bytes⟩
      | none => ⟨(db.keydb.log epoch logId).getD []⟩

/-- The look at the first log of a transaction. The result of `db_try_get_log` is not used, and an
empty log has type 0. -/
def firstEventReads (db : LogDB) (td : TickData) (lr : LogRangesPerTxInTick)
    (i : Fin NUMBER_OF_TRANSACTIONS_PER_TICK) : List BodyRead :=
  if td.transactionDigests i = m256i.zero then []
  else if 0 < (lr.length (i.castLE transactions_le_ranges)).toInt then
    let firstEvent := dbTryGetLogOut db td.epoch.toNat
      (lr.fromLogId (i.castLE transactions_le_ranges)).toNat
    if firstEvent.getType = QU_TRANSFER then firstEvent.readAll [(0, QuTransfer.sizeOf)] else []
  else []

/-- The fields the `switch` of `indexTick` reads. -/
def indexEventReads (le : LogEvent) : List BodyRead :=
  let type := le.getType
  let le_sz := le.getLogSize
  if type = QU_TRANSFER then le.readAll [(0, 32), (32, 32)]
  else if type = ASSET_ISSUANCE then le.readAll [(0, 32), (32, 31)]
  else if type = ASSET_OWNERSHIP_CHANGE ∨ type = ASSET_POSSESSION_CHANGE then
    le.readAll [(0, 32), (32, 32), (64, 32), (112, 7)]
  else if type = ASSET_OWNERSHIP_MANAGING_CONTRACT_CHANGE then
    le.readAll [(0, 32), (32, 32), (80, 7)]
  else if type = ASSET_POSSESSION_MANAGING_CONTRACT_CHANGE then
    le.readAll [(32, 32), (64, 32), (112, 7)]
  else if type = BURNING then le.readAll [(0, 32), (40, 4)]
  else if type = CONTRACT_RESERVE_DEDUCTION then le.readAll [(16, 4)]
  else if le.isSCType then
    if 8 ≤ le_sz then
      le.readAll [(0, 4), (4, 4)] ++
        if 100000 ≤ (le.field 4 4 : BitVec 32).toNat then
          le.readAll [(8, min 32 (le_sz - 8)), (40, min 32 (le_sz - 40)), (72, min 32 (le_sz - 72))]
        else []
    else []
  else []

def indexTickReads (N : Node) (db : LogDB) (tick : Nat) (td : TickData)
    (logrange : LogRangesPerTxInTick) : List BodyRead :=
  (if td.tick.toNat = tick then
      (List.finRange NUMBER_OF_TRANSACTIONS_PER_TICK).flatMap (firstEventReads db td logrange)
    else []) ++
  (dbGetLogsByTickRange N.K db N.gCurrentProcessingEpoch tick tick).1.flatMap indexEventReads

/-! ## `parseToJson` -/

/-- The fields of a struct, or a dump of the body if it is too small for it. -/
def structReads (le : LogEvent) (needed : Nat) (fields : List (Nat × Nat)) : List BodyRead :=
  if le.getLogSize < needed then le.readAll [(0, le.getLogSize)] else le.readAll fields

def parseToJsonReads (le : LogEvent) : List BodyRead :=
  let type := le.getType
  let bodySize := le.getLogSize
  if le.hasPackedHeader = false then []
  else if type = QU_TRANSFER then structReads le QuTransfer.sizeOf [(0, 32), (32, 32), (64, 8)]
  else if type = ASSET_ISSUANCE then
    structReads le AssetIssuance.sizeOf [(0, 32), (32, 8), (40, 8), (48, 7), (55, 1), (56, 7)]
  else if type = ASSET_OWNERSHIP_CHANGE ∨ type = ASSET_POSSESSION_CHANGE then
    structReads le AssetOwnershipChange.sizeOf [(0, 32), (32, 32), (112, 7), (96, 8)]
  else if type = BURNING then structReads le Burning.sizeOf [(0, 32), (32, 8), (40, 4)]
  else if type = CONTRACT_RESERVE_DEDUCTION then
    structReads le ContractReserveDeduction.sizeOf [(0, 8), (8, 8), (16, 4)]
  else if type = CUSTOM_MESSAGE ∧ bodySize = 8 then le.readAll [(0, 8)]
  else if le.isSCType then
    (if 4 ≤ bodySize then le.readAll [(0, 4)] else []) ++
      (if 8 ≤ bodySize then le.readAll [(4, 4)] else []) ++
      (if 8 < bodySize then le.readAll [(8, bodySize - 8)] else [])
  else le.readAll [(0, bodySize)]

/-! ## The log stream -/

def extractSubscriptionKeyReads (log : LogEvent) : List BodyRead :=
  if log.isSCType ∧ 8 ≤ log.getLogSize then log.readAll [(0, 4), (4, 4)] else []

/-- A log on its way to the subscribers of its key; a live push also reads the amount of a
transfer. -/
def streamReads (live : Bool) (subscribed : SubscriptionKey → Bool) (log : LogEvent) :
    List BodyRead :=
  extractSubscriptionKeyReads log ++
    match extractSubscriptionKey log with
    | none => []
    | some key =>
        if subscribed key then
          parseToJsonReads log ++
            (if live ∧ log.getType = QU_TRANSFER then log.readAll [(64, 8)] else [])
        else []

/-! ## The endpoints -/

/-- A topic is compared if it is asked for and the body is large enough for it. -/
def topicReads (le : LogEvent) (topic : m256i) (needed offset : Nat) : List BodyRead :=
  if topic ≠ m256i.zero ∧ needed ≤ le.getLogSize then le.readAll [(offset, 32)] else []

def topicMatches (le : LogEvent) (topic : m256i) (needed offset : Nat) : Bool :=
  !(decide (topic ≠ m256i.zero ∧ needed ≤ le.getLogSize)) || le.field offset 32 == topic

/-- `getCustomLog` for one log. The third topic is compared from 96 bytes on. -/
def customLogReads (scIndex logType : BitVec 32) (topic : Fin 3 → m256i) (le : LogEvent) :
    List BodyRead :=
  if scIndex = 0 ∧ le.isSCType = false then
    if BitVec.ofNat 32 le.getType = logType then parseToJsonReads le else []
  else if le.isSCType ∧ 8 ≤ le.getLogSize then
    le.readAll [(0, 4)] ++
      if le.field 0 4 = scIndex then
        le.readAll [(4, 4)] ++ topicReads le (topic topic1) 40 8 ++
          topicReads le (topic topic2) 72 40 ++ topicReads le (topic topic3) 96 72 ++
          (if topicMatches le (topic topic1) 40 8 && topicMatches le (topic topic2) 72 40 &&
            topicMatches le (topic topic3) 96 72 then parseToJsonReads le else [])
      else []
  else []

/-- The transfers of a transaction, up to the first that matches. -/
def quTransferReads (incoming : Bool) (requester : m256i) : List LogEvent → List BodyRead
  | [] => []
  | le :: vle =>
      if le.getType = QU_TRANSFER then
        let key := if incoming then 32 else 0
        le.readAll [(key, 32)] ++
          if le.field key 32 = requester then [] else quTransferReads incoming requester vle
      else quTransferReads incoming requester vle

/-- `std::string(name)` of the seven bytes and a zero behind them. -/
def assetNameOf (le : LogEvent) : List Byte :=
  ((le.body.drop 112).take 7).takeWhile (fun b => b ≠ 0)

/-- The asset transfers of a transaction, up to the first that matches; `party` is the key to compare
with the requester, where there is one. -/
def assetTransferReads (party : Option (Nat × m256i)) (issuer : m256i) (assetName : List Byte) :
    List LogEvent → List BodyRead
  | [] => []
  | le :: vle =>
      if le.getType = ASSET_OWNERSHIP_CHANGE ∨ le.getType = ASSET_POSSESSION_CHANGE then
        let partyMatches := match party with
          | none => true
          | some (key, requester) => le.field key 32 == requester
        le.readAll [(112, 7)] ++ le.readAll (party.toList.map (fun p => (p.1, 32))) ++
          (if partyMatches then le.readAll [(64, 32)] else []) ++
          if partyMatches && le.field 64 32 == issuer && assetNameOf le == assetName then []
          else assetTransferReads party issuer assetName vle
      else assetTransferReads party issuer assetName vle

/-! ## All of them -/

/-- A function that takes logs of the database apart, with its arguments. The endpoints for transfers
go through ranges of log ids, each of an epoch. -/
inductive LogConsumer where
  | simulate (processFromTick processToTick : Nat) (st : Ledger)
  | indexTick (tick : Nat) (td : TickData) (logrange : LogRangesPerTxInTick)
  | pushVerifiedLogs (processFromTick processToTick : Nat) (subscribed : SubscriptionKey → Bool)
  | performCatchUp (tick batchEnd : Nat) (subscribed : SubscriptionKey → Bool)
  | performCatchUpByLogId (id batchEnd : Int) (subscribed : SubscriptionKey → Bool)
  | bobGetLog (epoch : Nat) (first last : Int)
  | getCustomLog (scIndex logType : BitVec 32) (topic : Fin 3 → m256i) (epoch startTick endTick : Nat)
  | getQuTransfersForIdentity (incoming : Bool) (requester : m256i)
      (ranges : List (Nat × Int × Int))
  | getAssetTransfersForIdentity (incoming : Bool) (requester issuer : m256i)
      (assetName : List Byte) (ranges : List (Nat × Int × Int))
  | getAllAssetTransfers (issuer : m256i) (assetName : List Byte) (ranges : List (Nat × Int × Int))

def LogConsumer.reads (N : Node) (db : LogDB) : LogConsumer → List BodyRead
  | .simulate processFromTick processToTick st =>
      simulationReads N .neutral (dbGetLogsByTickRange N.K db N.gCurrentProcessingEpoch
        processFromTick processToTick).1 st
  | .indexTick tick td logrange => indexTickReads N db tick td logrange
  | .pushVerifiedLogs processFromTick processToTick subscribed =>
      (dbGetLogsByTickRange N.K db N.gCurrentProcessingEpoch processFromTick
        processToTick).1.flatMap (streamReads true subscribed)
  | .performCatchUp tick batchEnd subscribed =>
      (dbGetLogsByTickRange N.K db N.gCurrentProcessingEpoch tick batchEnd).1.flatMap
        (streamReads false subscribed)
  | .performCatchUpByLogId id batchEnd subscribed =>
      (dbTryGetLogsFromTo db N.gCurrentProcessingEpoch id batchEnd).flatMap
        (streamReads false subscribed)
  | .bobGetLog epoch first last =>
      (dbTryGetLogsFromTo db epoch first last).flatMap parseToJsonReads
  | .getCustomLog scIndex logType topic epoch startTick endTick =>
      (dbGetLogsByTickRange N.K db epoch startTick endTick).1.flatMap
        (customLogReads scIndex logType topic)
  | .getQuTransfersForIdentity incoming requester ranges => ranges.flatMap (fun r =>
      quTransferReads incoming requester (dbTryGetLogsFromTo db r.1 r.2.1 r.2.2))
  | .getAssetTransfersForIdentity incoming requester issuer assetName ranges =>
      ranges.flatMap (fun r =>
        assetTransferReads (some (if incoming then 32 else 0, requester)) issuer assetName
          (dbTryGetLogsFromTo db r.1 r.2.1 r.2.2))
  | .getAllAssetTransfers issuer assetName ranges => ranges.flatMap (fun r =>
      assetTransferReads none issuer assetName (dbTryGetLogsFromTo db r.1 r.2.1 r.2.2))

/-! ## Self-checked logs -/

/-- The log has passed a `selfCheck`. -/
def Checked (K : KangarooTwelve) (le : LogEvent) : Prop := ∃ epoch, le.selfCheck K epoch = true

/-- Every log of both databases has, when it was inserted. -/
def CheckedLogs (K : KangarooTwelve) (db : LogDB) : Prop :=
  (∀ epoch logId bytes, db.keydb.log epoch logId = some bytes → Checked K ⟨bytes⟩) ∧
  ∀ epoch logId bytes, db.kvrocks.log epoch logId = some bytes → Checked K ⟨bytes⟩

section checked

variable {K : KangarooTwelve} {le : LogEvent}

theorem Checked.size (h : Checked K le) :
    le.content.length = LogEvent.PackedHeaderSize + le.getLogSize := by
  obtain ⟨epoch, h⟩ := h
  exact (LogEvent.selfCheck_spec h).2.2.1

theorem Checked.min (h : Checked K le) :
    LogEvent.expectedMinBodySizeForType le.getType ≤ le.getLogSize := by
  obtain ⟨epoch, h⟩ := h
  exact (LogEvent.selfCheck_spec h).2.2.2

/-- Whatever the type, eight bytes are there. -/
theorem Checked.eight (h : Checked K le) : 8 ≤ le.getLogSize := by
  have hsize := h.size
  obtain ⟨epoch, h⟩ := h
  unfold LogEvent.selfCheck at h
  by_cases hlen : le.content.length < 8 + LogEvent.PackedHeaderSize
  · rw [if_pos hlen] at h
    cases h
  · omega

/-- The body of a struct of the table. -/
theorem Checked.struct {t n : Nat} (h : Checked K le) (ht : le.getType = t)
    (hn : LogEvent.expectedMinBodySizeForType t = n) : n ≤ le.getLogSize := by
  have hmin := h.min
  rw [ht, hn] at hmin
  exact hmin

theorem readsInside_readAll (h : Checked K le) {fields : List (Nat × Nat)} :
    ReadsInside (le.readAll fields) ↔ ∀ f ∈ fields, f.2 = 0 ∨ f.1 + f.2 ≤ le.getLogSize := by
  have hsize := h.size
  unfold ReadsInside LogEvent.readAll
  rw [List.forall_mem_map]
  refine forall₂_congr (fun f _ => ?_)
  unfold BodyRead.Inside
  dsimp only
  constructor
  · intro hin
    by_cases hzero : f.2 = 0
    · exact Or.inl hzero
    · have hlast := hin (f.2 - 1) (by omega)
      omega
  · intro hle k hk
    omega

theorem readsInside_append {as bs : List BodyRead} :
    ReadsInside (as ++ bs) ↔ ReadsInside as ∧ ReadsInside bs := List.forall_mem_append

theorem readsInside_nil : ReadsInside [] := fun _ h => absurd h List.not_mem_nil

/-- One branch at a time. -/
theorem readsInside_ite {p : Prop} [Decidable p] {as bs : List BodyRead}
    (has : p → ReadsInside as) (hbs : ¬ p → ReadsInside bs) :
    ReadsInside (if p then as else bs) := by
  by_cases h : p
  · rw [if_pos h]
    exact has h
  · rw [if_neg h]
    exact hbs h

theorem readsInside_flatMap {α : Type} {l : List α} {f : α → List BodyRead} :
    ReadsInside (l.flatMap f) ↔ ∀ x ∈ l, ReadsInside (f x) := by
  unfold ReadsInside
  constructor
  · exact fun h x hx r hr => h r (List.mem_flatMap.mpr ⟨x, hx, hr⟩)
  · intro h r hr
    obtain ⟨x, hx, hr⟩ := List.mem_flatMap.mp hr
    exact h x hx r hr

/-- Fields inside the first `n` bytes of a body of `n` bytes. -/
theorem readsInside_of_fields (h : Checked K le) {fields : List (Nat × Nat)} {n : Nat}
    (hn : n ≤ le.getLogSize) (hfields : ∀ f ∈ fields, f.1 + f.2 ≤ n) :
    ReadsInside (le.readAll fields) :=
  (readsInside_readAll h).mpr (fun f hf => Or.inr (le_trans (hfields f hf) hn))

theorem readsInside_structReads (h : Checked K le) {needed : Nat} {fields : List (Nat × Nat)}
    (hfields : ∀ f ∈ fields, f.1 + f.2 ≤ needed) : ReadsInside (structReads le needed fields) := by
  unfold structReads
  refine readsInside_ite (fun _ => ?_) (fun hlarge => ?_)
  · exact readsInside_of_fields h (le_refl _) (by simp)
  · exact readsInside_of_fields h (not_lt.mp hlarge) hfields

theorem readsInside_parseToJson (h : Checked K le) : ReadsInside (parseToJsonReads le) := by
  have height := h.eight
  unfold parseToJsonReads
  refine readsInside_ite (fun _ => readsInside_nil) (fun _ => ?_)
  refine readsInside_ite (fun _ => readsInside_structReads h (by decide)) (fun _ => ?_)
  refine readsInside_ite (fun _ => readsInside_structReads h (by decide)) (fun _ => ?_)
  refine readsInside_ite (fun _ => readsInside_structReads h (by decide)) (fun _ => ?_)
  refine readsInside_ite (fun _ => readsInside_structReads h (by decide)) (fun _ => ?_)
  refine readsInside_ite (fun _ => readsInside_structReads h (by decide)) (fun _ => ?_)
  refine readsInside_ite (fun _ => readsInside_of_fields h height (by decide)) (fun _ => ?_)
  refine readsInside_ite (fun _ => ?_) (fun _ => readsInside_of_fields h (le_refl _) (by simp))
  -- a message of a contract: its header, and the rest as a dump
  rw [readsInside_append, readsInside_append]
  refine ⟨⟨?_, ?_⟩, ?_⟩
  · exact readsInside_ite (fun _ => readsInside_of_fields h height (by decide))
      (fun _ => readsInside_nil)
  · exact readsInside_ite (fun _ => readsInside_of_fields h height (by decide))
      (fun _ => readsInside_nil)
  · refine readsInside_ite (fun hlong => ?_) (fun _ => readsInside_nil)
    refine readsInside_of_fields h (le_refl _) (fun f hf => ?_)
    rw [List.mem_singleton.mp hf]
    dsimp only
    omega

theorem readsInside_customMessage (h : Checked K le) : ReadsInside le.customMessageReads :=
  readsInside_ite (fun _ => readsInside_of_fields h h.eight (by decide)) (fun _ => readsInside_nil)

theorem readsInside_stream (h : Checked K le) (live : Bool) (subscribed : SubscriptionKey → Bool) :
    ReadsInside (streamReads live subscribed le) := by
  unfold streamReads
  rw [readsInside_append]
  refine ⟨?_, ?_⟩
  · exact readsInside_ite (fun _ => readsInside_of_fields h h.eight (by decide))
      (fun _ => readsInside_nil)
  · cases extractSubscriptionKey le with
    | none => exact readsInside_nil
    | some key =>
        refine readsInside_ite (fun _ => ?_) (fun _ => readsInside_nil)
        rw [readsInside_append]
        refine ⟨readsInside_parseToJson h, readsInside_ite (fun htransfer => ?_)
          (fun _ => readsInside_nil)⟩
        exact readsInside_of_fields h (h.struct htransfer.2 rfl) (by decide)

/-- The `switch` of `indexTick` reads past the end of a short deduction of a contract reserve, and
nowhere else. -/
theorem readsInside_indexEvent (h : Checked K le) : ReadsInside (indexEventReads le) ↔
    (le.getType = CONTRACT_RESERVE_DEDUCTION → ContractReserveDeduction.sizeOf ≤ le.getLogSize) := by
  by_cases hreserve : le.getType = CONTRACT_RESERVE_DEDUCTION
  · have hreads : indexEventReads le = le.readAll [(16, 4)] := by
      unfold indexEventReads
      simp [hreserve, CONTRACT_RESERVE_DEDUCTION, QU_TRANSFER, ASSET_ISSUANCE,
        ASSET_OWNERSHIP_CHANGE, ASSET_POSSESSION_CHANGE, BURNING,
        ASSET_OWNERSHIP_MANAGING_CONTRACT_CHANGE, ASSET_POSSESSION_MANAGING_CONTRACT_CHANGE]
    rw [hreads, readsInside_readAll h]
    simp [hreserve, ContractReserveDeduction.sizeOf]
  · refine iff_of_true ?_ (fun heq => absurd heq hreserve)
    have hstruct : ∀ {t n : Nat} {fields : List (Nat × Nat)},
        LogEvent.expectedMinBodySizeForType t = n → (∀ f ∈ fields, f.1 + f.2 ≤ n) →
          le.getType = t → ReadsInside (le.readAll fields) :=
      fun hn hfields ht => readsInside_of_fields h (h.struct ht hn) hfields
    unfold indexEventReads
    refine readsInside_ite (hstruct rfl (by decide)) (fun _ => ?_)
    refine readsInside_ite (hstruct rfl (by decide)) (fun _ => ?_)
    refine readsInside_ite (fun ht => ht.elim (hstruct rfl (by decide)) (hstruct rfl (by decide)))
      (fun _ => ?_)
    refine readsInside_ite (hstruct rfl (by decide)) (fun _ => ?_)
    refine readsInside_ite (hstruct rfl (by decide)) (fun _ => ?_)
    refine readsInside_ite (hstruct rfl (by decide)) (fun _ => ?_)
    refine readsInside_ite (fun ht => absurd ht hreserve) (fun _ => ?_)
    refine readsInside_ite (fun _ => ?_) (fun _ => readsInside_nil)
    refine readsInside_ite (fun height => ?_) (fun _ => readsInside_nil)
    -- a message of a contract: its header, and what there is of the topics
    rw [readsInside_append]
    refine ⟨readsInside_of_fields h height (by decide), readsInside_ite (fun _ => ?_)
      (fun _ => readsInside_nil)⟩
    rw [readsInside_readAll h]
    intro f hf
    simp only [List.mem_cons, List.not_mem_nil, or_false] at hf
    rcases hf with rfl | rfl | rfl
    · dsimp only
      omega
    · dsimp only
      omega
    · dsimp only
      omega

/-- The comparison of a topic. -/
theorem readsInside_topic (h : Checked K le) {topic : m256i} {needed offset : Nat} :
    ReadsInside (topicReads le topic needed offset) ↔
      (topic ≠ m256i.zero → needed ≤ le.getLogSize → offset + 32 ≤ le.getLogSize) := by
  unfold topicReads
  by_cases hread : topic ≠ m256i.zero ∧ needed ≤ le.getLogSize
  · rw [if_pos hread, readsInside_readAll h]
    simp [hread.1, hread.2]
  · rw [if_neg hread]
    exact iff_of_true readsInside_nil (fun h₁ h₂ => absurd ⟨h₁, h₂⟩ hread)

/-- `getCustomLog` reads past the end of a message of the contract whose third topic is cut off, and
nowhere else. -/
theorem readsInside_customLog (h : Checked K le) {scIndex logType : BitVec 32}
    {topic : Fin 3 → m256i} : ReadsInside (customLogReads scIndex logType topic le) ↔
      (le.isSCType = true → le.field 0 4 = scIndex → topic topic3 ≠ m256i.zero →
        96 ≤ le.getLogSize → 104 ≤ le.getLogSize) := by
  unfold customLogReads
  by_cases hprotocol : scIndex = 0 ∧ le.isSCType = false
  · rw [if_pos hprotocol]
    refine iff_of_true ?_ (fun hsc => absurd hsc (by rw [hprotocol.2]; simp))
    exact readsInside_ite (fun _ => readsInside_parseToJson h) (fun _ => readsInside_nil)
  rw [if_neg hprotocol]
  by_cases hsc : le.isSCType = true
  · rw [if_pos ⟨hsc, h.eight⟩, readsInside_append,
      and_iff_right (readsInside_of_fields h h.eight (by decide))]
    by_cases hindex : le.field 0 4 = scIndex
    · rw [if_pos hindex]
      simp only [readsInside_append, readsInside_topic h]
      have hparse : ReadsInside (if topicMatches le (topic topic1) 40 8 &&
          topicMatches le (topic topic2) 72 40 && topicMatches le (topic topic3) 96 72 then parseToJsonReads le else []) :=
        readsInside_ite (fun _ => readsInside_parseToJson h) (fun _ => readsInside_nil)
      refine ⟨fun hin _ _ => hin.1.2, fun hthird => ⟨⟨⟨⟨?_, ?_⟩, ?_⟩, hthird hsc hindex⟩, hparse⟩⟩
      · exact readsInside_of_fields h h.eight (by decide)
      · exact fun _ hle => hle
      · exact fun _ hle => hle
    · rw [if_neg hindex]
      exact iff_of_true readsInside_nil (fun _ heq => absurd heq hindex)
  · rw [if_neg (fun hboth => hsc hboth.1)]
    exact iff_of_true readsInside_nil (fun heq => absurd heq hsc)

theorem readsInside_quTransfer {incoming : Bool} {requester : m256i} {vle : List LogEvent}
    (h : ∀ le ∈ vle, Checked K le) : ReadsInside (quTransferReads incoming requester vle) := by
  induction vle with
  | nil => exact readsInside_nil
  | cons le vle ih =>
      have hle := h le List.mem_cons_self
      have hrest := ih (fun le' hle' => h le' (List.mem_cons_of_mem _ hle'))
      unfold quTransferReads
      split
      · next ht =>
          have hkey : ∀ f ∈ [((if incoming then 32 else 0 : Nat), 32)], f.1 + f.2 ≤ 72 := by
            cases incoming with
            | false => decide
            | true => decide
          dsimp only
          generalize (if incoming then 32 else 0 : Nat) = key at hkey ⊢
          rw [readsInside_append]
          exact ⟨readsInside_of_fields hle (hle.struct ht rfl) hkey,
            readsInside_ite (fun _ => readsInside_nil) (fun _ => hrest)⟩
      · exact hrest

theorem readsInside_assetTransfer {party : Option (Nat × m256i)} {issuer : m256i}
    {assetName : List Byte} {vle : List LogEvent} (hparty : ∀ p, party = some p → p.1 ≤ 32)
    (h : ∀ le ∈ vle, Checked K le) :
    ReadsInside (assetTransferReads party issuer assetName vle) := by
  induction vle with
  | nil => exact readsInside_nil
  | cons le vle ih =>
      have hle := h le List.mem_cons_self
      have hrest := ih (fun le' hle' => h le' (List.mem_cons_of_mem _ hle'))
      unfold assetTransferReads
      split
      · next ht =>
          have hsize : 127 ≤ le.getLogSize := by
            rcases ht with ht | ht
            · exact hle.struct ht rfl
            · exact hle.struct ht rfl
          dsimp only
          generalize (match party with
            | none => true
            | some (key, requester) => le.field key 32 == requester) = partyMatches
          rw [readsInside_append, readsInside_append, readsInside_append]
          refine ⟨⟨⟨readsInside_of_fields hle hsize (by decide), ?_⟩, ?_⟩, ?_⟩
          · refine readsInside_of_fields hle hsize (fun f hf => ?_)
            obtain ⟨p, hp, rfl⟩ := List.mem_map.mp hf
            have hp' := hparty p (Option.mem_toList.mp hp)
            dsimp only
            omega
          · exact readsInside_ite (fun _ => readsInside_of_fields hle hsize (by decide))
              (fun _ => readsInside_nil)
          · exact readsInside_ite (fun _ => readsInside_nil) (fun _ => hrest)
      · exact hrest

/-! ## The simulation over checked logs -/

/-- The halves of a pair, in order. -/
theorem orderPair_types {a b : Nat} {le0 le1 : LogEvent} (h : isPairOf a b le0 le1 ≠ false) :
    (orderPair a le0 le1).1.getType = a ∧ (orderPair a le0 le1).2.getType = b := by
  unfold isPairOf at h
  unfold orderPair
  simp only [ne_eq, Bool.not_eq_false, Bool.or_eq_true, Bool.and_eq_true, beq_iff_eq] at h
  by_cases hfirst : le0.getType = a
  · rw [if_pos hfirst]
    refine ⟨hfirst, ?_⟩
    rcases h with h | h
    · exact h.2
    · -- both are of type `a`, and the other half of the condition says `a = b`
      change le1.getType = b
      rw [h.1, ← hfirst, h.2]
  · rw [if_neg hfirst]
    rcases h with h | h
    · exact absurd h.1 hfirst
    · exact h

theorem orderPair_checked {a : Nat} {le0 le1 : LogEvent} (h₀ : Checked K le0) (h₁ : Checked K le1) :
    Checked K (orderPair a le0 le1).1 ∧ Checked K (orderPair a le0 le1).2 := by
  unfold orderPair
  split
  · exact ⟨h₀, h₁⟩
  · exact ⟨h₁, h₀⟩

theorem readsInside_pair {a b n m : Nat} {le0 le1 : LogEvent} (h₀ : Checked K le0)
    (h₁ : Checked K le1) (hn : LogEvent.expectedMinBodySizeForType a = n)
    (hm : LogEvent.expectedMinBodySizeForType b = m) :
    ReadsInside (if isPairOf a b le0 le1 = false then [] else
      (orderPair a le0 le1).1.readAll [(0, n)] ++ (orderPair a le0 le1).2.readAll [(0, m)]) := by
  by_cases hpair : isPairOf a b le0 le1 = false
  · rw [if_pos hpair]
    exact readsInside_nil
  · obtain ⟨hta, htb⟩ := orderPair_types hpair
    obtain ⟨hc₁, hc₂⟩ := orderPair_checked (a := a) h₀ h₁
    rw [if_neg hpair, readsInside_append]
    exact ⟨readsInside_of_fields hc₁ (hc₁.struct hta hn) (by simp),
      readsInside_of_fields hc₂ (hc₂.struct htb hm) (by simp)⟩

theorem readsInside_dividend {source : m256i} {dd : List LogEvent} (h : ∀ le ∈ dd, Checked K le)
    (htype : ∀ le ∈ dd, le.getType = QU_TRANSFER) : ReadsInside (dividendReads source dd) := by
  induction dd with
  | nil => exact readsInside_nil
  | cons le dd ih =>
      have hle := h le List.mem_cons_self
      unfold dividendReads
      rw [readsInside_append]
      have hsize : 72 ≤ le.getLogSize := hle.struct (htype le List.mem_cons_self) rfl
      refine ⟨readsInside_of_fields hle hsize (by decide), ?_⟩
      refine readsInside_ite (fun _ => readsInside_nil) (fun _ => ?_)
      exact ih (fun le' hle' => h le' (List.mem_cons_of_mem _ hle'))
        (fun le' hle' => htype le' (List.mem_cons_of_mem _ hle'))

theorem readsInside_distributeDividends {dd : List LogEvent} (h : ∀ le ∈ dd, Checked K le) :
    ReadsInside (Call.distributeDividends dd).reads := by
  unfold Call.reads
  refine readsInside_ite (fun hall => ?_) (fun _ => readsInside_nil)
  cases dd with
  | nil => exact readsInside_nil
  | cons le dd =>
      refine readsInside_dividend h (fun le' hle' => ?_)
      exact beq_iff_eq.mp (List.all_eq_true.mp hall le' hle')

/-- The events the loop has put aside. -/
def Control.AllChecked (K : KangarooTwelve) (c : Control) : Prop :=
  (∀ dd, c.window = some dd → ∀ le ∈ dd, Checked K le) ∧
    (∀ le, c.ple = some le → Checked K le) ∧ ∀ le, c.ple1 = some le → Checked K le

/-- One event: what is put aside stays checked, and the handler reads inside. -/
theorem Dispatched.readsInside {c c' : Control} {call : Option Call} (h : Dispatched c le c' call)
    (hle : Checked K le) (hc : c.AllChecked K) :
    c'.AllChecked K ∧ ∀ call', call = some call' → ReadsInside call'.reads := by
  obtain ⟨hwindow, hple, hple1⟩ := hc
  have hnone : ∀ dd : List LogEvent, (none : Option (List LogEvent)) = some dd →
      ∀ le ∈ dd, Checked K le := fun _ h => absurd h (by simp)
  have hnoLog : ∀ le : LogEvent, (none : Option LogEvent) = some le → Checked K le :=
    fun _ h => absurd h (by simp)
  have hthis : ∀ le', some le = some le' → Checked K le' := by
    intro le' heq
    rwa [← Option.some.inj heq]
  cases h with
  | collected hw ht =>
      refine ⟨⟨fun dd' heq => ?_, hple, hple1⟩, fun _ h => absurd h (by simp)⟩
      rw [← Option.some.inj heq, List.forall_mem_append]
      exact ⟨hwindow _ hw, List.forall_mem_singleton.mpr hle⟩
  | windowEnd hw ht hend =>
      refine ⟨⟨hnone, hple, hple1⟩, fun call' heq => ?_⟩
      rw [← Option.some.inj heq]
      exact readsInside_distributeDividends (hwindow _ hw)
  | transfer hw ht =>
      refine ⟨⟨hwindow, hple, hple1⟩, fun call' heq => ?_⟩
      rw [← Option.some.inj heq]
      exact readsInside_of_fields hle (hle.struct ht rfl) (by decide)
  | issue hw ht =>
      refine ⟨⟨hwindow, hple, hple1⟩, fun call' heq => ?_⟩
      rw [← Option.some.inj heq]
      exact readsInside_of_fields hle (hle.struct ht rfl) (by decide)
  | firstOfPair hw hp ht => exact ⟨⟨hwindow, hthis, hple1⟩, fun _ h => absurd h (by simp)⟩
  | pair hw hp ht =>
      refine ⟨⟨hwindow, hnoLog, hple1⟩, fun call' heq => ?_⟩
      rw [← Option.some.inj heq]
      exact readsInside_pair (hple _ hp) hle rfl rfl
  | firstOfManagingPair hw hp ht => exact ⟨⟨hwindow, hple, hthis⟩, fun _ h => absurd h (by simp)⟩
  | managingPair hw hp ht =>
      refine ⟨⟨hwindow, hple, hnoLog⟩, fun call' heq => ?_⟩
      rw [← Option.some.inj heq]
      exact readsInside_pair (hple1 _ hp) hle rfl rfl
  | burn hw ht =>
      refine ⟨⟨hwindow, hple, hple1⟩, fun call' heq => ?_⟩
      rw [← Option.some.inj heq]
      exact readsInside_of_fields hle (hle.struct ht rfl) (by decide)
  | windowStart hw ht hstart =>
      refine ⟨⟨fun dd' heq => ?_, hple, hple1⟩, fun _ h => absurd h (by simp)⟩
      rw [← Option.some.inj heq]
      exact fun _ h => absurd h List.not_mem_nil
  | endEpoch hw ht hend =>
      refine ⟨⟨hwindow, hple, hple1⟩, fun call' heq => ?_⟩
      rw [← Option.some.inj heq]
      exact readsInside_nil
  | ignored hw hnot hstart => exact ⟨⟨hwindow, hple, hple1⟩, fun _ h => absurd h (by simp)⟩

theorem readsInside_simulation {N : Node} {vle : List LogEvent} : ∀ {c : Control} {st : Ledger},
    c.AllChecked N.K → (∀ le ∈ vle, Checked N.K le) → ReadsInside (simulationReads N c vle st) := by
  induction vle with
  | nil => exact fun _ _ => readsInside_nil
  | cons le vle ih =>
      intro c st hc hvle
      have hle := hvle le List.mem_cons_self
      have hrest : ∀ le' ∈ vle, Checked N.K le' :=
        fun le' hle' => hvle le' (List.mem_cons_of_mem _ hle')
      unfold simulationReads
      rw [readsInside_append]
      refine ⟨?_, ?_⟩
      · exact readsInside_ite (fun _ => readsInside_customMessage hle) (fun _ => readsInside_nil)
      · split
        · exact readsInside_nil
        · next c' hdispatch =>
            exact ih ((dispatch_dispatched hdispatch).readsInside hle hc).1 hrest
        · next c' call hdispatch =>
            obtain ⟨hc', hcall⟩ := (dispatch_dispatched hdispatch).readsInside hle hc
            rw [readsInside_append]
            refine ⟨hcall call rfl, ?_⟩
            split
            · exact readsInside_nil
            · exact ih hc' hrest

/-! ## Where the logs come from -/

/-- A batch of ticks has self-checked logs only. -/
theorem checked_of_batch {db : LogDB} {epoch startTick endTick : Nat}
    (h : le ∈ (dbGetLogsByTickRange K db epoch startTick endTick).1) : Checked K le :=
  ⟨epoch, (accepted_of_mem_batch h).2⟩

/-- A log that is returned is stored. -/
theorem dbGetLog_stored {store : LogStore} {epoch logId : Nat}
    (h : dbGetLog store epoch logId = some le) : store.log epoch logId = some le.content := by
  unfold dbGetLog at h
  split at h
  · cases h
  · next bytes hbytes =>
      dsimp only at h
      split at h
      · cases h
      split at h
      · cases h
      · rw [hbytes, ← Option.some.inj h]

theorem CheckedLogs.tryGet {db : LogDB} (hdb : CheckedLogs K db) {epoch logId : Nat}
    (h : dbTryGetLog db epoch logId = some le) : Checked K le := by
  unfold dbTryGetLog at h
  split at h
  · next log hlog =>
      rw [← Option.some.inj h]
      exact hdb.1 _ _ _ (dbGetLog_stored hlog)
  · exact hdb.2 _ _ _ (dbGetLog_stored h)

theorem CheckedLogs.ids {db : LogDB} (hdb : CheckedLogs K db) {epoch : Nat} {first last : Int}
    (h : le ∈ dbTryGetLogsFromTo db epoch first last) : Checked K le :=
  hdb.tryGet (mem_dbTryGetLogsFromTo.mp h).1

/-- One of the databases answers for the log. -/
def LogStored (db : LogDB) (epoch logId : Nat) : Prop :=
  (db.keydb.log epoch logId).isSome ∨ (db.kvrocks.log epoch logId).isSome

/-- `indexTick` looks at a stored log, if there is one. -/
theorem CheckedLogs.out {db : LogDB} (hdb : CheckedLogs K db) {epoch logId : Nat}
    (h : LogStored db epoch logId) : Checked K (dbTryGetLogOut db epoch logId) := by
  unfold dbTryGetLogOut
  split
  · next log hlog => exact hdb.1 _ _ _ (dbGetLog_stored hlog)
  split
  · next bytes hbytes => exact hdb.2 _ _ _ hbytes
  · next hkv =>
      rcases h with h | h
      · obtain ⟨bytes, hbytes⟩ := Option.isSome_iff_exists.mp h
        rw [hbytes]
        exact hdb.1 _ _ _ hbytes
      · rw [hkv] at h
        cases h

/-- Else at an empty one. -/
theorem dbTryGetLogOut_of_not_stored {db : LogDB} {epoch logId : Nat}
    (h : ¬ LogStored db epoch logId) : dbTryGetLogOut db epoch logId = ⟨[]⟩ := by
  unfold LogStored at h
  simp only [Option.isSome_iff_ne_none, not_or, not_not] at h
  unfold dbTryGetLogOut dbGetLog
  simp [h.1, h.2]

/-- The look at the first log of a transaction reads inside it if and only if it is there. -/
theorem readsInside_firstEvent {db : LogDB} (hdb : CheckedLogs K db) {td : TickData}
    {lr : LogRangesPerTxInTick} {i : Fin NUMBER_OF_TRANSACTIONS_PER_TICK} :
    ReadsInside (firstEventReads db td lr i) ↔
      (td.transactionDigests i ≠ m256i.zero →
        0 < (lr.length (i.castLE transactions_le_ranges)).toInt →
          LogStored db td.epoch.toNat (lr.fromLogId (i.castLE transactions_le_ranges)).toNat) := by
  unfold firstEventReads
  by_cases hdigest : td.transactionDigests i = m256i.zero
  · rw [if_pos hdigest]
    exact iff_of_true readsInside_nil (fun hne => absurd hdigest hne)
  rw [if_neg hdigest]
  by_cases hlength : 0 < (lr.length (i.castLE transactions_le_ranges)).toInt
  · rw [if_pos hlength]
    dsimp only
    by_cases hstored : LogStored db td.epoch.toNat
        (lr.fromLogId (i.castLE transactions_le_ranges)).toNat
    · refine iff_of_true ?_ (fun _ _ => hstored)
      have hout := hdb.out hstored
      exact readsInside_ite (fun ht => readsInside_of_fields hout (hout.struct ht rfl) (by decide))
        (fun _ => readsInside_nil)
    · refine iff_of_false (fun hin => ?_) (fun h => hstored (h hdigest hlength))
      -- the empty log passes for a transfer, and already its first byte is missing
      rw [dbTryGetLogOut_of_not_stored hstored, if_pos (by rfl)] at hin
      exact absurd (hin _ List.mem_cons_self 0 (by decide)) (by simp)
  · rw [if_neg hlength]
    exact iff_of_true readsInside_nil (fun _ hpos => absurd hpos hlength)

end checked

/-! ## The exact condition -/

/-- The logs the function will look at are there, and large enough where `selfCheck` does not say. -/
def LogConsumer.Supplied (N : Node) (db : LogDB) : LogConsumer → Prop
  | .indexTick tick td logrange =>
      (td.tick.toNat = tick → ∀ i : Fin NUMBER_OF_TRANSACTIONS_PER_TICK,
        td.transactionDigests i ≠ m256i.zero →
          0 < (logrange.length (i.castLE transactions_le_ranges)).toInt →
            LogStored db td.epoch.toNat
              (logrange.fromLogId (i.castLE transactions_le_ranges)).toNat) ∧
      ∀ le ∈ (dbGetLogsByTickRange N.K db N.gCurrentProcessingEpoch tick tick).1,
        le.getType = CONTRACT_RESERVE_DEDUCTION → ContractReserveDeduction.sizeOf ≤ le.getLogSize
  | .getCustomLog scIndex _ topic epoch startTick endTick =>
      ∀ le ∈ (dbGetLogsByTickRange N.K db epoch startTick endTick).1,
        le.isSCType = true → le.field 0 4 = scIndex → topic topic3 ≠ m256i.zero →
          96 ≤ le.getLogSize → 104 ≤ le.getLogSize
  | _ => True

/-- Over a database of self-checked logs a function that takes bodies apart stays inside them if and
only if the logs it does not check are supplied. -/
theorem readsInside_iff (N : Node) (db : LogDB) (hdb : CheckedLogs N.K db) (c : LogConsumer) :
    ReadsInside (c.reads N db) ↔ c.Supplied N db := by
  cases c with
  | simulate processFromTick processToTick st =>
      refine iff_of_true (readsInside_simulation ?_ (fun le hle => checked_of_batch hle)) trivial
      exact ⟨fun _ h => absurd h (by simp [Control.neutral]),
        fun _ h => absurd h (by simp [Control.neutral]),
        fun _ h => absurd h (by simp [Control.neutral])⟩
  | indexTick tick td logrange =>
      unfold LogConsumer.reads LogConsumer.Supplied indexTickReads
      dsimp only
      rw [readsInside_append, readsInside_flatMap]
      refine and_congr ?_ (forall₂_congr fun le hle => readsInside_indexEvent (checked_of_batch hle))
      by_cases htick : td.tick.toNat = tick
      · rw [if_pos htick, readsInside_flatMap, forall_prop_of_true htick]
        exact forall_congr' fun i =>
          (forall_prop_of_true (List.mem_finRange i)).trans (readsInside_firstEvent hdb)
      · rw [if_neg htick]
        exact iff_of_true readsInside_nil (fun heq => absurd heq htick)
  | pushVerifiedLogs processFromTick processToTick subscribed =>
      refine iff_of_true (readsInside_flatMap.mpr fun le hle => ?_) trivial
      exact readsInside_stream (checked_of_batch hle) _ _
  | performCatchUp tick batchEnd subscribed =>
      refine iff_of_true (readsInside_flatMap.mpr fun le hle => ?_) trivial
      exact readsInside_stream (checked_of_batch hle) _ _
  | performCatchUpByLogId id batchEnd subscribed =>
      refine iff_of_true (readsInside_flatMap.mpr fun le hle => ?_) trivial
      exact readsInside_stream (hdb.ids hle) _ _
  | bobGetLog epoch first last =>
      refine iff_of_true (readsInside_flatMap.mpr fun le hle => ?_) trivial
      exact readsInside_parseToJson (hdb.ids hle)
  | getCustomLog scIndex logType topic epoch startTick endTick =>
      unfold LogConsumer.reads LogConsumer.Supplied
      dsimp only
      rw [readsInside_flatMap]
      exact forall₂_congr fun le hle => readsInside_customLog (checked_of_batch hle)
  | getQuTransfersForIdentity incoming requester ranges =>
      refine iff_of_true (readsInside_flatMap.mpr fun r hr => ?_) trivial
      exact readsInside_quTransfer (fun le hle => hdb.ids hle)
  | getAssetTransfersForIdentity incoming requester issuer assetName ranges =>
      refine iff_of_true (readsInside_flatMap.mpr fun r hr => ?_) trivial
      refine readsInside_assetTransfer (fun p hp => ?_) (fun le hle => hdb.ids hle)
      rw [← Option.some.inj hp]
      change (if incoming then 32 else 0 : Nat) ≤ 32
      cases incoming with
      | false => decide
      | true => decide
  | getAllAssetTransfers issuer assetName ranges =>
      refine iff_of_true (readsInside_flatMap.mpr fun r hr => ?_) trivial
      exact readsInside_assetTransfer (fun p hp => absurd hp (by simp)) (fun le hle => hdb.ids hle)

/-- Tick 11 with one transaction, whose logs are those from id 0 on. -/
def tickOfOneTransaction : TickData :=
  { TickData.zero with
    epoch := 1
    tick := 11
    transactionDigests := fun i => if i.val = 0 then 3 else 0 }

def rangesOfOneTransaction : LogRangesPerTxInTick :=
  ⟨fun _ => 0, fun i => if i.val = 0 then 1 else 0⟩

/-- The theorem at a tick whose only log, a transfer, is stored. -/
theorem readsInside_iff_at_stored_transfer :
    let N : Node := ⟨⟨fun _ => 7, fun _ => 0⟩, 2, 2, 1⟩
    let db : LogDB := ⟨⟨fun _ => some ⟨0, 1, by decide⟩,
        fun _ id => if id = 0 then some (LogEvent.ofTransfer 11 0 ⟨5, 6, 30⟩).content else none⟩,
      ⟨fun _ => none, fun _ _ => none⟩⟩
    ReadsInside ((LogConsumer.indexTick 11 tickOfOneTransaction rangesOfOneTransaction).reads N
      db) := by
  intro N db
  have hdb : CheckedLogs N.K db := by
    refine ⟨fun epoch logId bytes hbytes => ?_, fun _ _ _ hbytes => absurd hbytes (by simp [db])⟩
    change (if logId = 0 then some (LogEvent.ofTransfer 11 0 ⟨5, 6, 30⟩).content else none) =
      some bytes at hbytes
    split at hbytes
    · rw [← Option.some.inj hbytes]
      exact ⟨1, by decide +kernel⟩
    · cases hbytes
  refine (readsInside_iff N db hdb _).mpr ⟨fun _ i _ _ => Or.inl rfl, ?_⟩
  decide +kernel

/-- When the log is not stored, `indexTick` reads 72 bytes of nothing. -/
theorem readsInside_fails_on_absent_log :
    let N : Node := ⟨⟨fun _ => 7, fun _ => 0⟩, 2, 2, 1⟩
    let db := LogDB.ofRanges (fun _ => none)
    CheckedLogs N.K db ∧
      ¬ ReadsInside ((LogConsumer.indexTick 11 tickOfOneTransaction rangesOfOneTransaction).reads N
        db) := by
  intro N db
  refine ⟨⟨fun _ _ _ h => absurd h (by simp [db, LogDB.ofRanges]),
    fun _ _ _ h => absurd h (by simp [db, LogDB.ofRanges])⟩, fun hin => ?_⟩
  have hread : (⟨⟨[]⟩, 0, QuTransfer.sizeOf⟩ : BodyRead) ∈
      (LogConsumer.indexTick 11 tickOfOneTransaction rangesOfOneTransaction).reads N db := by
    refine List.mem_append_left _ ?_
    rw [if_pos (by decide)]
    exact List.mem_flatMap.mpr ⟨⟨0, by decide⟩, List.mem_finRange _, List.mem_cons_self⟩
  exact absurd (hin _ hread 0 (by decide)) (by decide)

end QubicBob
