import QubicBob.Lib.Ring
import QubicBob.Network.RoundBuffer
import QubicBob.Network.Replies

set_option autoImplicit false

/-! # The receive path

From the bytes of a peer to the database: `receiveAFullPacket`, the type filter of `connReceiver`
and the handlers of `DataProcessorThread`. A worker copies each packet to the start of one buffer of
16 MB, so that behind a short packet lies what longer ones have left there; the handlers get a
pointer into that buffer and, but for one, no size.

Each function gives, besides its result, the list of accesses it makes: ranges of the packet, and
indices into `computorsList.publicKeys`. Which of them are made depends on bytes that were received
and, behind a short packet, on stale ones. The condition `HoldsTogether` follows each handler up to
the first access that could leave the packet, so it speaks of received bytes only, and up to there
the handler decides the same whatever is behind. For log chunks the walk is compared with one over
the chunk alone (`wholeEvents`): the two agree event by event, by induction on what is left of the
chunk, until one is cut off, and the copy of that one is the access that leaves the packet.
-/

namespace QubicBob

/-! ## Accesses -/

inductive Access where
  | bytes (offset length : Nat)
  | publicKey (index : Nat)
  deriving DecidableEq, Repr

/-- The access is inside a packet of `n` bytes, or inside the list of computors. -/
def Access.Inside (n : Nat) : Access → Prop
  | .bytes offset length => offset + length ≤ n
  | .publicKey index => index < NUMBER_OF_COMPUTORS

instance (n : Nat) : (a : Access) → Decidable (a.Inside n)
  | .bytes offset length => inferInstanceAs (Decidable (offset + length ≤ n))
  | .publicKey index => inferInstanceAs (Decidable (index < NUMBER_OF_COMPUTORS))

/-- All accesses are inside. -/
def StayInside (n : Nat) (accesses : List Access) : Prop := ∀ a ∈ accesses, a.Inside n

@[simp] theorem stayInside_nil (n : Nat) : StayInside n [] := fun _ h => absurd h List.not_mem_nil

@[simp] theorem stayInside_cons (n : Nat) (a : Access) (as : List Access) :
    StayInside n (a :: as) ↔ a.Inside n ∧ StayInside n as := List.forall_mem_cons

@[simp] theorem stayInside_append (n : Nat) (as bs : List Access) :
    StayInside n (as ++ bs) ↔ StayInside n as ∧ StayInside n bs := List.forall_mem_append

/-! ## Structs -/

def TickVote.sizeOf : Nat := 352
def TickData.sizeOf : Nat := 41072
def Transaction.sizeOf : Nat := 80
def SIGNATURE_SIZE : Nat := 64
def LOG_TX_PER_TICK : Nat := 1029
def LogRangesPerTxInTick.sizeOf : Nat := 16464

/-- `memcpy(&vote, ptr, sizeof(TickVote))`. -/
def TickVote.ofBytes (ptr : List Byte) : TickVote where
  computorIndex := BitVec.ofNat 16 (readLE ptr 0 2)
  epoch := BitVec.ofNat 16 (readLE ptr 2 2)
  tick := BitVec.ofNat 32 (readLE ptr 4 4)
  millisecond := BitVec.ofNat 16 (readLE ptr 8 2)
  second := BitVec.ofNat 8 (readLE ptr 10 1)
  minute := BitVec.ofNat 8 (readLE ptr 11 1)
  hour := BitVec.ofNat 8 (readLE ptr 12 1)
  day := BitVec.ofNat 8 (readLE ptr 13 1)
  month := BitVec.ofNat 8 (readLE ptr 14 1)
  year := BitVec.ofNat 8 (readLE ptr 15 1)
  prevResourceTestingDigest := BitVec.ofNat 32 (readLE ptr 16 4)
  saltedResourceTestingDigest := BitVec.ofNat 32 (readLE ptr 20 4)
  prevTransactionBodyDigest := BitVec.ofNat 32 (readLE ptr 24 4)
  saltedTransactionBodyDigest := BitVec.ofNat 32 (readLE ptr 28 4)
  prevSpectrumDigest := BitVec.ofNat 256 (readLE ptr 32 32)
  prevUniverseDigest := BitVec.ofNat 256 (readLE ptr 64 32)
  prevComputerDigest := BitVec.ofNat 256 (readLE ptr 96 32)
  saltedSpectrumDigest := BitVec.ofNat 256 (readLE ptr 128 32)
  saltedUniverseDigest := BitVec.ofNat 256 (readLE ptr 160 32)
  saltedComputerDigest := BitVec.ofNat 256 (readLE ptr 192 32)
  transactionDigest := BitVec.ofNat 256 (readLE ptr 224 32)
  expectedNextTickTransactionDigest := BitVec.ofNat 256 (readLE ptr 256 32)
  signature := BitVec.ofNat 512 (readLE ptr 288 64)

/-- `memcpy(&data, ptr, sizeof(TickData))`. -/
def TickData.ofBytes (ptr : List Byte) : TickData where
  computorIndex := BitVec.ofNat 16 (readLE ptr 0 2)
  epoch := BitVec.ofNat 16 (readLE ptr 2 2)
  tick := BitVec.ofNat 32 (readLE ptr 4 4)
  millisecond := BitVec.ofNat 16 (readLE ptr 8 2)
  second := BitVec.ofNat 8 (readLE ptr 10 1)
  minute := BitVec.ofNat 8 (readLE ptr 11 1)
  hour := BitVec.ofNat 8 (readLE ptr 12 1)
  day := BitVec.ofNat 8 (readLE ptr 13 1)
  month := BitVec.ofNat 8 (readLE ptr 14 1)
  year := BitVec.ofNat 8 (readLE ptr 15 1)
  timelock := BitVec.ofNat 256 (readLE ptr 16 32)
  transactionDigests := fun i => BitVec.ofNat 256 (readLE ptr (48 + 32 * i.val) 32)
  contractFees := fun i => BitVec.ofNat 64 (readLE ptr (32816 + 8 * i.val) 8)
  signature := BitVec.ofNat 512 (readLE ptr 41008 64)

/-! ## The stores the handlers write -/

structure DataStore where
  ticks : TickKeyDB
  kvrocks : TickKvrocks
  /-- `transaction:<hash>` -/
  transactions : List Char → Option (List Byte)
  /-- `log:<epoch>:<logId>` -/
  logs : Nat → Nat → Option (List Byte)
  /-- the field `latest_log_id` of `db_status:epoch:<epoch>`, −1 if there is none -/
  latestLogId : Nat → Int
  /-- `log_ranges:<tick>`, the whole struct -/
  logRanges : Nat → Option (List Byte)
  /-- `tick_log_range:<tick>`, as first id and length -/
  tickLogRange : Nat → Option (Int × Int)

/-- `SET … NX`: a key that has a value keeps it. -/
def setNX {α : Type} (old : Option α) (new : α) : Option α :=
  match old with
  | some a => some a
  | none => some new

/-- A sum of two `long long` values. -/
def wrapLongLong (x : Int) : Int := (BitVec.ofInt 64 x).toInt

/-- `tonumber` of a decimal number in a script: the nearest number of 53 significant bits, of two as
near the even one. The text a script writes back for it is taken as this number; the exponent that Redis
prints from 10 ^ 17 on is left out. -/
def luaNumber (x : Int) : Int :=
  let n := x.natAbs
  let ulp := 2 ^ (n.log2 + 1 - 53)
  let up := if ulp < 2 * (n % ulp) ∨ 2 * (n % ulp) = ulp ∧ n / ulp % 2 = 1 then 1 else 0
  x.sign * ((n / ulp + up) * ulp : Nat)

namespace DataStore

def dbTryGetTickData (db : DataStore) (tick : BitVec 32) : Option TickData :=
  match dbGetTickData db.ticks tick with
  | some td => some td
  | none => (db.kvrocks.vtick tick).map FullTickStruct.td

def dbInsertTransaction (K : KangarooTwelve) (db : DataStore) (tx : List Byte) : DataStore :=
  let hash := getIdentityFromPublicKey K (K.hash32 tx) true
  { db with
    transactions := Function.update db.transactions hash (setNX (db.transactions hash) tx)
    ticks := { db.ticks with hasTransaction := fun h => h == hash || db.ticks.hasTransaction h } }

def dbInsertLog (db : DataStore) (epoch logId : Nat) (content : List Byte) : DataStore :=
  { db with
    logs := Function.update db.logs epoch
      (Function.update (db.logs epoch) logId (setNX (db.logs epoch logId) content)) }

/-- The id becomes a `long long`; the script compares it as a number and keeps the larger one. -/
def dbUpdateLatestLogId (db : DataStore) (epoch : Nat) (logId : Nat) : DataStore :=
  let new_id := luaNumber (wrapLongLong logId)
  if db.latestLogId epoch < new_id then
    { db with latestLogId := Function.update db.latestLogId epoch new_id }
  else db

/-- The ranges of a struct that are not `-1`, as first id and length. -/
def usedRanges (logRange : List Byte) : List (Int × Int) :=
  (List.range LOG_TX_PER_TICK).filterMap (fun i =>
    let fromLogId := (BitVec.ofNat 64 (readLE logRange (8 * i) 8)).toInt
    let length := (BitVec.ofNat 64 (readLE logRange (8 * LOG_TX_PER_TICK + 8 * i) 8)).toInt
    if fromLogId = -1 ∨ length = -1 then none else some (fromLogId, length))

def dbInsertLogRange (db : DataStore) (tick : Nat) (logRange : List Byte) : DataStore :=
  let ranges := usedRanges logRange
  let minId := ranges.foldl (fun m r => min m r.1) (2 ^ 63 - 1)
  let maxId := ranges.foldl (fun m r => max m (wrapLongLong (r.1 + r.2))) (-1)
  if logRange.all (fun b => b = 0) then db
  else if ranges.any (fun r => r.1 < -1 || r.2 < -1) then db
  else
    { db with
      logRanges := Function.update db.logRanges tick (setNX (db.logRanges tick) logRange)
      -- the summary is written each time, the struct only the first
      tickLogRange := Function.update db.tickLogRange tick
        (some (if minId = 2 ^ 63 - 1 then (-1, -1) else (minId, maxId - minId))) }

end DataStore

/-- What the handlers know: epoch, progress and keys, the hash and the signature check. -/
structure DataReceiver where
  receiver : Receiver
  K : KangarooTwelve
  verify : m256i → m256i → List Byte → Bool
  now : Nat

/-- The state a data packet may change. -/
structure DataNode where
  db : DataStore
  requestMapperFrom : RequestMap
  responseSCData : RequestMap

/-! ## From the socket -/

/-- The bytes that arrive before the peer stops, to a packet or an exception. -/
def receiveAFullPacket (stream : List Byte) : List Access × Option (List Byte) :=
  if stream.length < RequestResponseHeader.sizeOf then ([], none)
  else
    let packet_size := (RequestResponseHeader.ofBytes stream).size
    if RequestResponseHeader.max_size < packet_size then ([], none)
    -- the header is copied into a buffer of the declared size; the rest has a negative length
    else if packet_size < RequestResponseHeader.sizeOf then ([.bytes 0 8], none)
    else
      let rest := (stream.drop 8).take (packet_size - 8)
      ([.bytes 0 8, .bytes 8 rest.length],
        if rest.length ≠ packet_size - 8 then none else some (stream.take 8 ++ rest))

/-! ## Handlers

`mem` is the memory from the start of the packet on: the packet and what lies behind it. -/

section handlers

variable (D : DataReceiver) (node : DataNode) (mem : List Byte)

def processTickVoteAt : List Access × DataNode :=
  let vote := TickVote.ofBytes (mem.drop 8)
  let reached := vote.epoch = D.receiver.gCurrentProcessingEpoch ∧
    ¬ vote.tick < D.receiver.gCurrentVerifyLoggingTick - 1
  (.bytes 8 TickVote.sizeOf ::
      if reached then [.publicKey vote.computorIndex.toNat] else [],
    { node with
      db := { node.db with ticks := processTickVote D.receiver node.db.ticks vote } })

def processTickDataAt : List Access × DataNode :=
  let data := TickData.ofBytes (mem.drop 8)
  let reached := data.epoch = D.receiver.gCurrentProcessingEpoch ∧
    ¬ data.tick < D.receiver.gCurrentVerifyLoggingTick - 1
  (.bytes 8 TickData.sizeOf ::
      if reached then [.publicKey data.computorIndex.toNat] else [],
    { node with
      db := { node.db with ticks := processTickData D.receiver node.db.ticks data } })

/-- `KangarooTwelve` of all but the signature, and the check of the signature. -/
def verifySignature (bytes : List Byte) (pubkey : m256i) : Bool :=
  D.verify pubkey (D.K.hash32 (bytes.take (bytes.length - SIGNATURE_SIZE)))
    (bytes.drop (bytes.length - SIGNATURE_SIZE))

/-- The transaction is one of those of the tick data. -/
def listedIn (td : TickData) (tx_digest : m256i) : Bool :=
  (List.finRange NUMBER_OF_TRANSACTIONS_PER_TICK).any (fun i =>
    td.transactionDigests i ≠ m256i.zero && td.transactionDigests i = tx_digest)

def processTransaction : List Access × DataNode :=
  let tick := BitVec.ofNat 32 (readLE mem (8 + 72) 4)
  let inputSize := readLE mem (8 + 78) 2
  if 1024 < inputSize then ([.bytes 8 Transaction.sizeOf], node)
  else if tick < D.receiver.gCurrentVerifyLoggingTick - 1 then
    ([.bytes 8 Transaction.sizeOf], node)
  else
    match node.db.dbTryGetTickData tick with
    | none => ([.bytes 8 Transaction.sizeOf], node)
    | some td =>
        let tx := Ring.slice mem 8 (Transaction.sizeOf + inputSize + SIGNATURE_SIZE)
        let sourcePublicKey : m256i := BitVec.ofNat 256 (readLE mem 8 32)
        ([.bytes 8 Transaction.sizeOf,
            .bytes (8 + Transaction.sizeOf) (inputSize + SIGNATURE_SIZE)],
          if listedIn td (D.K.hash32 tx) && verifySignature D tx sourcePublicKey then
            { node with db := node.db.dbInsertTransaction D.K tx }
          else node)

/-- The loop of `processLogEvent`: the largest id so far and the state. -/
def processLogEntries (epoch chunkSize : Nat) (payload : List Byte) (offset maxLogId : Nat)
    (db : DataStore) : List Access × Nat × DataStore :=
  if offset < chunkSize then
    let tmp := readLE payload (offset + 6) 4
    let logId := readLE payload (offset + 10) 8
    let messageSize := tmp &&& 0x00FFFFFF
    let le : LogEvent := ⟨Ring.slice payload offset (messageSize + LogEvent.PackedHeaderSize)⟩
    let reads : List Access :=
      [.bytes (8 + offset) 2, .bytes (8 + (offset + 2)) 4, .bytes (8 + (offset + 6)) 4,
        .bytes (8 + (offset + 10)) 8,
        .bytes (8 + offset) (messageSize + LogEvent.PackedHeaderSize)]
    if le.selfCheck D.K epoch then
      let rest := processLogEntries epoch chunkSize payload
        (offset + (messageSize + LogEvent.PackedHeaderSize)) (max maxLogId logId)
        (db.dbInsertLog (readLE payload offset 2) logId le.content)
      -- `db_insert_log` reads the event once more
      (reads ++ .bytes (8 + offset) (messageSize + LogEvent.PackedHeaderSize) :: rest.1, rest.2)
    -- break here and get the rest of logging chunk later
    else (reads, maxLogId, db)
  else ([], maxLogId, db)
  termination_by chunkSize - offset
  decreasing_by
    rw [LogEvent.PackedHeaderSize]
    omega

def processLogEvent (chunkSize : Nat) : List Access × DataNode :=
  let epoch := D.receiver.gCurrentProcessingEpoch.toNat
  let r := processLogEntries D epoch chunkSize (mem.drop 8) 0 0 node.db
  (r.1, { node with db := r.2.2.dbUpdateLatestLogId epoch r.2.1 })

/-- The tick is taken from the request the dejavu stands for. -/
def processLogRanges : List Access × DataNode :=
  let header := RequestResponseHeader.ofBytes mem
  let request := (node.requestMapperFrom.get header.getDejavu).getD []
  if request.length = 48 ∧
      header.size = RequestResponseHeader.sizeOf + LogRangesPerTxInTick.sizeOf then
    ([.bytes 8 LogRangesPerTxInTick.sizeOf],
      { node with
        db := node.db.dbInsertLogRange (readLE request 40 4)
          (Ring.slice mem 8 LogRangesPerTxInTick.sizeOf) })
  else ([], node)

def recordSmartContractResponse : List Access × DataNode :=
  let header := RequestResponseHeader.ofBytes mem
  let size := header.size - RequestResponseHeader.sizeOf
  ([.bytes 8 size],
    { node with
      responseSCData :=
        node.responseSCData.add D.now header.getDejavu (Ring.slice mem 8 size) none })

/-- The `switch` of `DataProcessorThread`. -/
def processData (packet_size type : Nat) : List Access × DataNode :=
  if type = BROADCAST_TICK_VOTE then processTickVoteAt D node mem
  else if type = TICK_DATA then processTickDataAt D node mem
  else if type = BROADCAST_TRANSACTION then processTransaction D node mem
  else if type = RESPOND_LOG then processLogEvent D node mem (packet_size - 8)
  else if type = LOG_RANGES_PER_TX_IN_TICK then processLogRanges node mem
  else if type = RESPOND_CONTRACT_FUNCTION then recordSmartContractResponse D node mem
  else ([], node)

end handlers

/-- One iteration of `DataProcessorThread` on a packet that `GetPacket` has copied over the start of
`buf`. -/
def DataProcessorThread (D : DataReceiver) (node : DataNode) (buf packet : List Byte) :
    List Access × DataNode :=
  if packet.length = 0 ∨ RequestResponseHeader.max_size ≤ packet.length then ([], node)
  else
    let mem := Ring.overwrite buf 0 packet
    let header := RequestResponseHeader.ofBytes mem
    let r := processData D node mem packet.length header.type
    (.bytes 0 8 :: r.1, r.2)

/-- The path of one packet from the socket of a trusted node: received, passed by the type filter
into the data queue and taken by a worker. -/
def receivePath (D : DataReceiver) (node : DataNode) (buf stream : List Byte) :
    List Access × DataNode :=
  match receiveAFullPacket stream with
  | (accesses, none) => (accesses, node)
  | (accesses, some packet) =>
      if isDataType (RequestResponseHeader.ofBytes packet).type then
        let r := DataProcessorThread D node buf packet
        (accesses ++ r.1, r.2)
      else (accesses, node)

/-! ## What the path is to do -/

/-- The size of the event at the front, by its own header. -/
def entrySize (chunk : List Byte) : Nat :=
  (readLE chunk 6 4 &&& 0x00FFFFFF) + LogEvent.PackedHeaderSize

/-- The events at the front of a chunk that are whole and pass the check, and what is left where the
walk stops. -/
def wholeEvents (K : KangarooTwelve) (epoch : Nat) (chunk : List Byte) :
    List LogEvent × List Byte :=
  if chunk.length < entrySize chunk then ([], chunk)
  else if LogEvent.selfCheck K ⟨chunk.take (entrySize chunk)⟩ epoch then
    let rest := wholeEvents K epoch (chunk.drop (entrySize chunk))
    (⟨chunk.take (entrySize chunk)⟩ :: rest.1, rest.2)
  else ([], chunk)
  termination_by chunk.length
  decreasing_by
    have h26 : 26 ≤ entrySize chunk := Nat.le_add_left _ _
    rw [List.length_drop]
    omega

/-- The walk does not stop at an event that is cut off. -/
def EndsClean (K : KangarooTwelve) (epoch : Nat) (chunk : List Byte) : Prop :=
  let left := (wholeEvents K epoch chunk).2
  left = [] ∨ entrySize left ≤ left.length

/-- The events stored one after the other, and the largest id noted. -/
def storeEvents (db : DataStore) (events : List LogEvent) : DataStore :=
  events.foldl (fun db le => db.dbInsertLog le.getEpoch le.getLogId le.content) db

def maxLogId (events : List LogEvent) : Nat := (events.map LogEvent.getLogId).foldl max 0

/-- The struct of the type does not fit into the packet. -/
def TooShort (packet : List Byte) : Prop :=
  let type := (RequestResponseHeader.ofBytes packet).type
  (type = BROADCAST_TICK_VOTE ∧ packet.length < 8 + TickVote.sizeOf) ∨
    (type = TICK_DATA ∧ packet.length < 8 + TickData.sizeOf) ∨
    (type = BROADCAST_TRANSACTION ∧
      packet.length < 8 + Transaction.sizeOf + readLE packet (8 + 78) 2 + SIGNATURE_SIZE) ∨
    (type = LOG_RANGES_PER_TX_IN_TICK ∧ packet.length < 8 + LogRangesPerTxInTick.sizeOf)

/-- The computor of a vote or tick data. -/
def computorIndexOf (packet : List Byte) : Nat := (BitVec.ofNat 16 (readLE packet 8 2)).toNat

def IndexOutOfRange (packet : List Byte) : Prop :=
  let type := (RequestResponseHeader.ofBytes packet).type
  (type = BROADCAST_TICK_VOTE ∨ type = TICK_DATA) ∧ NUMBER_OF_COMPUTORS ≤ computorIndexOf packet

/-- The path of a packet reads only what was received: every access is inside the bytes the header
declares; a packet too short for its type, or with an index out of range, leaves the database as it
was; and of a log chunk exactly the whole events at its front are stored. -/
structure ReadsReceived (D : DataReceiver) (node : DataNode) (buf stream : List Byte) : Prop where
  inside : StayInside (RequestResponseHeader.ofBytes stream).size (receivePath D node buf stream).1
  dropped : ∀ packet, (receiveAFullPacket stream).2 = some packet →
    TooShort packet ∨ IndexOutOfRange packet → (receivePath D node buf stream).2.db = node.db
  events : ∀ packet, (receiveAFullPacket stream).2 = some packet →
    packet.length < RequestResponseHeader.max_size →
    (RequestResponseHeader.ofBytes packet).type = RESPOND_LOG →
      let epoch := D.receiver.gCurrentProcessingEpoch.toNat
      let whole := (wholeEvents D.K epoch (packet.drop 8)).1
      (receivePath D node buf stream).2.db =
        (storeEvents node.db whole).dbUpdateLatestLogId epoch (maxLogId whole)

/-! ## When it does -/

/-- A vote or tick data of the current epoch that is not of an old tick: its computor's key is
looked up. -/
def KeyLookedUp (D : DataReceiver) (packet : List Byte) : Prop :=
  BitVec.ofNat 16 (readLE packet 10 2) = D.receiver.gCurrentProcessingEpoch ∧
    ¬ BitVec.ofNat 32 (readLE packet 12 4) < D.receiver.gCurrentVerifyLoggingTick - 1

instance (D : DataReceiver) (packet : List Byte) : Decidable (KeyLookedUp D packet) :=
  inferInstanceAs (Decidable (_ ∧ _))

/-- A transaction of admissible size and of a tick that is not old and has its tick data: the rest
of the transaction is copied. -/
def BodyCopied (D : DataReceiver) (node : DataNode) (packet : List Byte) : Prop :=
  readLE packet (8 + 78) 2 ≤ 1024 ∧
    ¬ BitVec.ofNat 32 (readLE packet (8 + 72) 4) < D.receiver.gCurrentVerifyLoggingTick - 1 ∧
    (node.db.dbTryGetTickData (BitVec.ofNat 32 (readLE packet (8 + 72) 4))).isSome

/-- The packet has all the bytes its handler reads: the struct of its type, the body of a
transaction that gets that far, and each log event the walk comes to; and the index of a vote or
tick data that gets that far is one of the list. -/
def HoldsTogether (D : DataReceiver) (node : DataNode) (packet : List Byte) : Prop :=
  let type := (RequestResponseHeader.ofBytes packet).type
  (type = BROADCAST_TICK_VOTE → 8 + TickVote.sizeOf ≤ packet.length ∧
    (KeyLookedUp D packet → computorIndexOf packet < NUMBER_OF_COMPUTORS)) ∧
  (type = TICK_DATA → 8 + TickData.sizeOf ≤ packet.length ∧
    (KeyLookedUp D packet → computorIndexOf packet < NUMBER_OF_COMPUTORS)) ∧
  (type = BROADCAST_TRANSACTION → 8 + Transaction.sizeOf ≤ packet.length ∧
    (BodyCopied D node packet →
      8 + Transaction.sizeOf + readLE packet (8 + 78) 2 + SIGNATURE_SIZE ≤ packet.length)) ∧
  (type = RESPOND_LOG →
    EndsClean D.K D.receiver.gCurrentProcessingEpoch.toNat (packet.drop 8))

/-- The condition on what the peer sends. A header that declares less than its own eight bytes is
not covered; one that is not complete, or declares no size, is refused, and so is a packet that does
not arrive in full or has the largest size. -/
def WellBehaved (D : DataReceiver) (node : DataNode) (stream : List Byte) : Prop :=
  let size := (RequestResponseHeader.ofBytes stream).size
  8 ≤ stream.length → size ≤ RequestResponseHeader.max_size →
    8 ≤ size ∧
      (size ≤ stream.length → size < RequestResponseHeader.max_size →
        HoldsTogether D node (stream.take size))

section proofs

variable {D : DataReceiver} {node : DataNode} {packet stale : List Byte}

theorem readLE_append {l s : List Byte} {off n : Nat} (h : off + n ≤ l.length) :
    readLE (l ++ s) off n = readLE l off n := by
  rw [readLE, readLE, List.drop_append_of_le_length (by omega),
    List.take_append_of_le_length (by rw [List.length_drop]; omega)]

theorem readLE_drop (l : List Byte) (k off n : Nat) :
    readLE (l.drop k) off n = readLE l (k + off) n := by
  rw [readLE, readLE, List.drop_drop]

theorem slice_append {l s : List Byte} {off n : Nat} (h : off + n ≤ l.length) :
    Ring.slice (l ++ s) off n = Ring.slice l off n := by
  rw [Ring.slice, Ring.slice, List.drop_append_of_le_length (by omega),
    List.take_append_of_le_length (by rw [List.length_drop]; omega)]

theorem ofBytes_append {l s : List Byte} (h : 8 ≤ l.length) :
    RequestResponseHeader.ofBytes (l ++ s) = RequestResponseHeader.ofBytes l := by
  simp only [RequestResponseHeader.ofBytes, readLE_append (show 0 + 3 ≤ l.length by omega),
    readLE_append (show 3 + 1 ≤ l.length by omega),
    readLE_append (show 4 + 4 ≤ l.length by omega)]

/-! ### Votes and tick data -/

/-- The accesses of the two handlers that check a computor's signature. -/
def signedAccesses (D : DataReceiver) (size : Nat) (mem : List Byte) : List Access :=
  .bytes 8 size :: if KeyLookedUp D mem then [.publicKey (computorIndexOf mem)] else []

theorem processTickVoteAt_accesses (mem : List Byte) :
    (processTickVoteAt D node mem).1 = signedAccesses D TickVote.sizeOf mem := by
  simp only [processTickVoteAt, signedAccesses, TickVote.ofBytes, readLE_drop, KeyLookedUp,
    computorIndexOf]
  rfl

theorem processTickDataAt_accesses (mem : List Byte) :
    (processTickDataAt D node mem).1 = signedAccesses D TickData.sizeOf mem := by
  simp only [processTickDataAt, signedAccesses, TickData.ofBytes, readLE_drop, KeyLookedUp,
    computorIndexOf]
  rfl

theorem keyLookedUp_append (h : 16 ≤ packet.length) :
    KeyLookedUp D (packet ++ stale) ↔ KeyLookedUp D packet := by
  rw [KeyLookedUp, KeyLookedUp, readLE_append (by omega), readLE_append (by omega)]

theorem computorIndexOf_append (h : 16 ≤ packet.length) :
    computorIndexOf (packet ++ stale) = computorIndexOf packet := by
  rw [computorIndexOf, computorIndexOf, readLE_append (by omega)]

theorem signedAccesses_inside {size : Nat} (hsize : 8 ≤ size) :
    StayInside packet.length (signedAccesses D size (packet ++ stale)) ↔
      8 + size ≤ packet.length ∧
        (KeyLookedUp D packet → computorIndexOf packet < NUMBER_OF_COMPUTORS) := by
  rw [signedAccesses, stayInside_cons]
  refine and_congr_right (fun hlen => ?_)
  change 8 + size ≤ packet.length at hlen
  rw [computorIndexOf_append (by omega)]
  by_cases hkey : KeyLookedUp D packet
  · rw [if_pos ((keyLookedUp_append (by omega)).mpr hkey)]
    simp [hkey, Access.Inside]
  · rw [if_neg (fun h => hkey ((keyLookedUp_append (by omega)).mp h))]
    simp [hkey]

/-- A vote whose key is not looked up is dropped. -/
theorem processTickVoteAt_dropped {mem : List Byte} (h : ¬KeyLookedUp D mem) :
    (processTickVoteAt D node mem).2.db = node.db := by
  have hticks : processTickVote D.receiver node.db.ticks (TickVote.ofBytes (mem.drop 8)) =
      node.db.ticks := by
    unfold processTickVote
    split
    · rfl
    split
    · rfl
    · next hepoch htick =>
        refine absurd ?_ h
        simp only [TickVote.ofBytes, readLE_drop] at hepoch htick
        exact ⟨not_not.mp hepoch, htick⟩
  rw [processTickVoteAt, hticks]

theorem processTickDataAt_dropped {mem : List Byte} (h : ¬KeyLookedUp D mem) :
    (processTickDataAt D node mem).2.db = node.db := by
  have hticks : processTickData D.receiver node.db.ticks (TickData.ofBytes (mem.drop 8)) =
      node.db.ticks := by
    unfold processTickData
    split
    · rfl
    split
    · rfl
    · next hepoch htick =>
        refine absurd ?_ h
        simp only [TickData.ofBytes, readLE_drop] at hepoch htick
        exact ⟨not_not.mp hepoch, htick⟩
  rw [processTickDataAt, hticks]

/-! ### Transactions -/

theorem processTransaction_cases (D : DataReceiver) (node : DataNode) (mem : List Byte) :
    (BodyCopied D node mem ∧ (processTransaction D node mem).1 =
      [.bytes 8 Transaction.sizeOf,
        .bytes (8 + Transaction.sizeOf) (readLE mem (8 + 78) 2 + SIGNATURE_SIZE)]) ∨
    (¬BodyCopied D node mem ∧
      processTransaction D node mem = ([.bytes 8 Transaction.sizeOf], node)) := by
  unfold processTransaction BodyCopied
  dsimp only
  split
  · next h => exact Or.inr ⟨fun hb => absurd hb.1 (not_le.mpr h), rfl⟩
  split
  · next h => exact Or.inr ⟨fun hb => hb.2.1 h, rfl⟩
  next hsize htick =>
    split
    · next h =>
        refine Or.inr ⟨fun hb => ?_, rfl⟩
        rw [h] at hb
        exact Bool.noConfusion hb.2.2
    · next td h =>
        refine Or.inl ⟨⟨not_lt.mp hsize, htick, ?_⟩, rfl⟩
        rw [h]
        rfl

theorem bodyCopied_append (h : 8 + Transaction.sizeOf ≤ packet.length) :
    BodyCopied D node (packet ++ stale) ↔ BodyCopied D node packet := by
  rw [Transaction.sizeOf] at h
  rw [BodyCopied, BodyCopied, readLE_append (by omega), readLE_append (by omega)]

theorem processTransaction_inside :
    StayInside packet.length (processTransaction D node (packet ++ stale)).1 ↔
      8 + Transaction.sizeOf ≤ packet.length ∧
        (BodyCopied D node packet →
          8 + Transaction.sizeOf + readLE packet (8 + 78) 2 + SIGNATURE_SIZE ≤ packet.length) := by
  rcases processTransaction_cases D node (packet ++ stale) with
    ⟨hbody, hacc⟩ | ⟨hbody, heq⟩
  · rw [hacc, stayInside_cons, stayInside_cons]
    refine and_congr_right (fun hlen => ?_)
    change 8 + Transaction.sizeOf ≤ packet.length at hlen
    have hbody' := (bodyCopied_append hlen).mp hbody
    rw [readLE_append (by rw [Transaction.sizeOf] at hlen; omega)]
    simp only [Access.Inside, hbody', stayInside_nil, and_true, true_imp_iff, Nat.add_assoc]
  · rw [heq, stayInside_cons]
    refine and_congr_right (fun hlen => ?_)
    change 8 + Transaction.sizeOf ≤ packet.length at hlen
    have hbody' : ¬BodyCopied D node packet := fun h => hbody ((bodyCopied_append hlen).mpr h)
    simp [hbody']

/-! ### Log chunks -/

section chunk

variable {chunk : List Byte} {epoch offset : Nat}

/-- The size of the event at `offset` as the loop computes it. -/
def sizeAt (payload : List Byte) (offset : Nat) : Nat :=
  (readLE payload (offset + 6) 4 &&& 0x00FFFFFF) + LogEvent.PackedHeaderSize

/-- What the loop reads of an event before it checks it. -/
def entryReads (offset size : Nat) : List Access :=
  [.bytes (8 + offset) 2, .bytes (8 + (offset + 2)) 4, .bytes (8 + (offset + 6)) 4,
    .bytes (8 + (offset + 10)) 8, .bytes (8 + offset) size]

theorem entryReads_inside {n size : Nat} (h26 : 26 ≤ size) :
    StayInside (8 + n) (entryReads offset size) ↔ offset + size ≤ n := by
  simp only [entryReads, stayInside_cons, stayInside_nil, Access.Inside, and_true]
  omega

theorem processLogEntries_end {chunkSize maxId : Nat} {payload : List Byte} {db : DataStore}
    (h : ¬offset < chunkSize) :
    processLogEntries D epoch chunkSize payload offset maxId db = ([], maxId, db) := by
  rw [processLogEntries, if_neg h]

/-- One round of the loop, with its event. -/
theorem processLogEntries_round {chunkSize maxId : Nat} {payload : List Byte} {db : DataStore}
    (h : offset < chunkSize) :
    processLogEntries D epoch chunkSize payload offset maxId db =
      if LogEvent.selfCheck D.K ⟨Ring.slice payload offset (sizeAt payload offset)⟩ epoch then
        let rest := processLogEntries D epoch chunkSize payload (offset + sizeAt payload offset)
          (max maxId (readLE payload (offset + 10) 8))
          (db.dbInsertLog (readLE payload offset 2) (readLE payload (offset + 10) 8)
            (Ring.slice payload offset (sizeAt payload offset)))
        (entryReads offset (sizeAt payload offset) ++
          .bytes (8 + offset) (sizeAt payload offset) :: rest.1, rest.2)
      else (entryReads offset (sizeAt payload offset), maxId, db) := by
  rw [processLogEntries, if_pos h]
  rfl

/-- The event at `offset` as the loop sees it is the one of the chunk. -/
theorem entry_eq (stale : List Byte) (hle : offset ≤ chunk.length)
    (hfit : entrySize (chunk.drop offset) ≤ (chunk.drop offset).length) :
    sizeAt (chunk ++ stale) offset = entrySize (chunk.drop offset) ∧
      Ring.slice (chunk ++ stale) offset (entrySize (chunk.drop offset)) =
        (chunk.drop offset).take (entrySize (chunk.drop offset)) := by
  have h26 : 26 ≤ entrySize (chunk.drop offset) := Nat.le_add_left _ _
  have hlen : (chunk.drop offset).length = chunk.length - offset := List.length_drop
  constructor
  · rw [sizeAt, readLE_append (by omega), entrySize, readLE_drop]
  · rw [slice_append (by omega), Ring.slice]

/-- An event that is cut off is read behind the end of the chunk. -/
theorem cut_off (stale : List Byte) (hlt : offset < chunk.length)
    (hcut : (chunk.drop offset).length < entrySize (chunk.drop offset)) :
    chunk.length < offset + sizeAt (chunk ++ stale) offset := by
  have hlen : (chunk.drop offset).length = chunk.length - offset := List.length_drop
  rw [sizeAt]
  by_cases hshort : chunk.length - offset < 26
  · rw [LogEvent.PackedHeaderSize]
    omega
  · rw [readLE_append (by omega)]
    rw [entrySize, readLE_drop] at hcut
    omega

/-- The fields the loop reads are those of the event. -/
theorem entry_fields (stale : List Byte) (hle : offset ≤ chunk.length)
    (hfit : entrySize (chunk.drop offset) ≤ (chunk.drop offset).length) :
    readLE (chunk ++ stale) offset 2 =
        LogEvent.getEpoch ⟨(chunk.drop offset).take (entrySize (chunk.drop offset))⟩ ∧
      readLE (chunk ++ stale) (offset + 10) 8 =
        LogEvent.getLogId ⟨(chunk.drop offset).take (entrySize (chunk.drop offset))⟩ := by
  have h26 : 26 ≤ entrySize (chunk.drop offset) := Nat.le_add_left _ _
  have hlen : (chunk.drop offset).length = chunk.length - offset := List.length_drop
  have hheader : LogEvent.hasPackedHeader
      ⟨(chunk.drop offset).take (entrySize (chunk.drop offset))⟩ = true := by
    rw [LogEvent.hasPackedHeader, List.length_take, LogEvent.PackedHeaderSize]
    exact decide_eq_true (by omega)
  rw [LogEvent.getEpoch, LogEvent.getLogId, if_pos hheader, if_pos hheader,
    readLE_take (by omega), readLE_take (by omega), readLE_drop, readLE_drop,
    readLE_append (by omega), readLE_append (by omega), Nat.add_zero]
  exact ⟨rfl, rfl⟩

theorem wholeEvents_cut {K : KangarooTwelve} {c : List Byte} (h : c.length < entrySize c) :
    wholeEvents K epoch c = ([], c) := by
  rw [wholeEvents, if_pos h]

theorem wholeEvents_rejected {K : KangarooTwelve} {c : List Byte} (h : entrySize c ≤ c.length)
    (hcheck : LogEvent.selfCheck K ⟨c.take (entrySize c)⟩ epoch = false) :
    wholeEvents K epoch c = ([], c) := by
  rw [wholeEvents, if_neg (not_lt.mpr h), hcheck, if_neg Bool.false_ne_true]

theorem wholeEvents_whole {K : KangarooTwelve} {c : List Byte} (h : entrySize c ≤ c.length)
    (hcheck : LogEvent.selfCheck K ⟨c.take (entrySize c)⟩ epoch = true) :
    wholeEvents K epoch c =
      (⟨c.take (entrySize c)⟩ :: (wholeEvents K epoch (c.drop (entrySize c))).1,
        (wholeEvents K epoch (c.drop (entrySize c))).2) := by
  rw [wholeEvents, if_neg (not_lt.mpr h), if_pos hcheck]

/-- What the loop is to do from an offset on: to stay inside the chunk exactly when it does not come
to an event that is cut off, and then to store the whole events. -/
def LoopSpec (D : DataReceiver) (epoch : Nat) (chunk stale : List Byte) (offset : Nat) : Prop :=
  ∀ (maxId : Nat) (db : DataStore),
    let r := processLogEntries D epoch chunk.length (chunk ++ stale) offset maxId db
    let whole := (wholeEvents D.K epoch (chunk.drop offset)).1
    (StayInside (8 + chunk.length) r.1 ↔ EndsClean D.K epoch (chunk.drop offset)) ∧
      (EndsClean D.K epoch (chunk.drop offset) →
        r.2 = ((whole.map LogEvent.getLogId).foldl max maxId, storeEvents db whole))

theorem loopSpec_end (h : chunk.length ≤ offset) : LoopSpec D epoch chunk stale offset := by
  intro maxId db
  have hnil : chunk.drop offset = [] := List.drop_of_length_le h
  have hcut : (chunk.drop offset).length < entrySize (chunk.drop offset) := by
    rw [hnil]
    exact Nat.lt_of_lt_of_le (by decide) (Nat.le_add_left 26 _)
  dsimp only
  rw [processLogEntries_end (not_lt.mpr h), EndsClean, wholeEvents_cut hcut]
  exact ⟨⟨fun _ => Or.inl hnil, fun _ => stayInside_nil _⟩, fun _ => rfl⟩

/-- An event that is cut off: the copy of it leaves the packet, and the walk ends here. -/
theorem loopSpec_cut (hlt : offset < chunk.length)
    (hcut : (chunk.drop offset).length < entrySize (chunk.drop offset)) :
    LoopSpec D epoch chunk stale offset := by
  intro maxId db
  have hlen : (chunk.drop offset).length = chunk.length - offset := List.length_drop
  have hout := cut_off stale hlt hcut
  have h26 : 26 ≤ sizeAt (chunk ++ stale) offset := Nat.le_add_left _ _
  have hunclean : ¬EndsClean D.K epoch (chunk.drop offset) := by
    rw [EndsClean, wholeEvents_cut hcut]
    rintro (hnil | hle)
    · rw [← List.length_eq_zero_iff] at hnil
      change (chunk.drop offset).length = 0 at hnil
      omega
    · exact absurd hcut (not_lt.mpr hle)
  dsimp only
  refine ⟨⟨fun hin => ?_, fun h => absurd h hunclean⟩, fun h => absurd h hunclean⟩
  have hreads : StayInside (8 + chunk.length)
      (entryReads offset (sizeAt (chunk ++ stale) offset)) := by
    rw [processLogEntries_round hlt] at hin
    split at hin
    · exact ((stayInside_append _ _ _).mp hin).1
    · exact hin
  have := (entryReads_inside h26).mp hreads
  omega

/-- A whole event: it is stored if it passes the check, and the walk goes on behind it. -/
theorem loopSpec_whole (hlt : offset < chunk.length)
    (hfit : entrySize (chunk.drop offset) ≤ (chunk.drop offset).length)
    (ih : LoopSpec D epoch chunk stale (offset + entrySize (chunk.drop offset))) :
    LoopSpec D epoch chunk stale offset := by
  intro maxId db
  have hlen : (chunk.drop offset).length = chunk.length - offset := List.length_drop
  have h26 : 26 ≤ entrySize (chunk.drop offset) := Nat.le_add_left _ _
  obtain ⟨hsize, hcontent⟩ := entry_eq stale hlt.le hfit
  obtain ⟨hepoch, hid⟩ := entry_fields stale hlt.le hfit
  have hreads : StayInside (8 + chunk.length) (entryReads offset (entrySize (chunk.drop offset))) :=
    (entryReads_inside h26).mpr (by omega)
  dsimp only
  rw [processLogEntries_round hlt, hsize, hcontent]
  cases hcheck : LogEvent.selfCheck D.K
      ⟨(chunk.drop offset).take (entrySize (chunk.drop offset))⟩ epoch with
  | false =>
      have hclean : EndsClean D.K epoch (chunk.drop offset) := by
        rw [EndsClean, wholeEvents_rejected hfit hcheck]
        exact Or.inr hfit
      rw [if_neg Bool.false_ne_true, wholeEvents_rejected hfit hcheck]
      exact ⟨⟨fun _ => hclean, fun _ => hreads⟩, fun _ => rfl⟩
  | true =>
      have hclean : EndsClean D.K epoch (chunk.drop offset) ↔
          EndsClean D.K epoch (chunk.drop (offset + entrySize (chunk.drop offset))) := by
        rw [EndsClean, wholeEvents_whole hfit hcheck, EndsClean, ← List.drop_drop]
      have hstored : Access.Inside (8 + chunk.length)
          (.bytes (8 + offset) (entrySize (chunk.drop offset))) := by
        change 8 + offset + _ ≤ 8 + chunk.length
        omega
      obtain ⟨ihin, ihout⟩ := ih (max maxId (readLE (chunk ++ stale) (offset + 10) 8))
        (db.dbInsertLog (readLE (chunk ++ stale) offset 2) (readLE (chunk ++ stale) (offset + 10) 8)
          ((chunk.drop offset).take (entrySize (chunk.drop offset))))
      rw [if_pos rfl, hclean, wholeEvents_whole hfit hcheck, List.drop_drop]
      constructor
      · rw [stayInside_append, stayInside_cons, ihin]
        exact ⟨fun h => h.2.2, fun h => ⟨hreads, hstored, h⟩⟩
      · intro h
        rw [ihout h, hepoch, hid]
        rfl

theorem loopSpec (D : DataReceiver) (epoch : Nat) (chunk stale : List Byte) (offset : Nat) :
    LoopSpec D epoch chunk stale offset := by
  by_cases hlt : offset < chunk.length
  swap
  · exact loopSpec_end (not_lt.mp hlt)
  by_cases hfit : entrySize (chunk.drop offset) ≤ (chunk.drop offset).length
  swap
  · exact loopSpec_cut hlt (not_le.mp hfit)
  exact loopSpec_whole hlt hfit (loopSpec D epoch chunk stale _)
  termination_by chunk.length - offset
  decreasing_by
    have h26 : 26 ≤ entrySize (chunk.drop offset) := Nat.le_add_left _ _
    omega

end chunk

/-! ### One packet -/

section packet

variable (hsize : (RequestResponseHeader.ofBytes packet).size = packet.length)
  (h8 : 8 ≤ packet.length)

include h8 in
theorem processLogEvent_inside :
    StayInside packet.length
        (processLogEvent D node (packet ++ stale) (packet.length - 8)).1 ↔
      EndsClean D.K D.receiver.gCurrentProcessingEpoch.toNat (packet.drop 8) := by
  have hlen : packet.length - 8 = (packet.drop 8).length := List.length_drop.symm
  have hall : 8 + (packet.drop 8).length = packet.length := by omega
  rw [processLogEvent, List.drop_append_of_le_length h8, hlen]
  have hspec := (loopSpec D D.receiver.gCurrentProcessingEpoch.toNat (packet.drop 8) stale 0 0
    node.db).1
  rw [hall, List.drop_zero] at hspec
  exact hspec

include h8 in
theorem processLogEvent_db
    (h : EndsClean D.K D.receiver.gCurrentProcessingEpoch.toNat (packet.drop 8)) :
    let epoch := D.receiver.gCurrentProcessingEpoch.toNat
    let whole := (wholeEvents D.K epoch (packet.drop 8)).1
    (processLogEvent D node (packet ++ stale) (packet.length - 8)).2.db =
      (storeEvents node.db whole).dbUpdateLatestLogId epoch (maxLogId whole) := by
  have hlen : packet.length - 8 = (packet.drop 8).length := List.length_drop.symm
  have hspec := (loopSpec D D.receiver.gCurrentProcessingEpoch.toNat (packet.drop 8) stale 0 0
    node.db).2
  rw [List.drop_zero] at hspec
  dsimp only
  rw [processLogEvent, List.drop_append_of_le_length h8, hlen, hspec h]
  rfl

include hsize h8 in
theorem processLogRanges_inside :
    StayInside packet.length (processLogRanges node (packet ++ stale)).1 := by
  rw [processLogRanges, ofBytes_append h8, hsize]
  split
  · next h =>
      rw [stayInside_cons]
      exact ⟨h.2.ge, stayInside_nil _⟩
  · exact stayInside_nil _

include hsize h8 in
theorem processLogRanges_short (hshort : packet.length < 8 + LogRangesPerTxInTick.sizeOf) :
    (processLogRanges node (packet ++ stale)).2 = node := by
  rw [processLogRanges, ofBytes_append h8, hsize]
  split
  · next h =>
      rw [RequestResponseHeader.sizeOf] at h
      omega
  · rfl

include hsize h8 in
theorem recordSmartContractResponse_inside :
    StayInside packet.length (recordSmartContractResponse D node (packet ++ stale)).1 := by
  rw [recordSmartContractResponse, ofBytes_append h8, hsize, stayInside_cons]
  refine ⟨?_, stayInside_nil _⟩
  change 8 + (packet.length - 8) ≤ packet.length
  omega

include hsize h8 in
/-- A handler stays inside a packet exactly when the packet holds together. -/
theorem processData_inside (D : DataReceiver) (node : DataNode) (stale : List Byte) :
    StayInside packet.length (processData D node (packet ++ stale) packet.length
        (RequestResponseHeader.ofBytes packet).type).1 ↔ HoldsTogether D node packet := by
  unfold processData HoldsTogether
  dsimp only
  split
  · next h =>
      rw [processTickVoteAt_accesses, signedAccesses_inside (by decide)]
      simp [h, BROADCAST_TICK_VOTE, TICK_DATA, BROADCAST_TRANSACTION, RESPOND_LOG]
  split
  · next h =>
      rw [processTickDataAt_accesses, signedAccesses_inside (by decide)]
      simp [h, BROADCAST_TICK_VOTE, TICK_DATA, BROADCAST_TRANSACTION, RESPOND_LOG]
  split
  · next h =>
      rw [processTransaction_inside]
      simp [h, BROADCAST_TICK_VOTE, TICK_DATA, BROADCAST_TRANSACTION, RESPOND_LOG]
  split
  · next h =>
      rw [processLogEvent_inside h8]
      simp [h, BROADCAST_TICK_VOTE, TICK_DATA, BROADCAST_TRANSACTION, RESPOND_LOG]
  next hvote hdata htx hlog =>
    simp only [hvote, hdata, htx, hlog, false_imp_iff, and_self, iff_true]
    split
    · exact processLogRanges_inside hsize h8
    split
    · exact recordSmartContractResponse_inside hsize h8
    · exact stayInside_nil _

include hsize h8 in
/-- A packet that holds together but is too short, or has an index out of range, is dropped. -/
theorem processData_dropped (h : HoldsTogether D node packet)
    (hbad : TooShort packet ∨ IndexOutOfRange packet) :
    (processData D node (packet ++ stale) packet.length
      (RequestResponseHeader.ofBytes packet).type).2.db = node.db := by
  obtain ⟨hvote, hdata, htx, -⟩ := h
  rcases hbad with (⟨ht, hs⟩ | ⟨ht, hs⟩ | ⟨ht, hs⟩ | ⟨ht, hs⟩) | ⟨ht | ht, hs⟩
  · exact absurd (hvote ht).1 (not_le.mpr hs)
  · exact absurd (hdata ht).1 (not_le.mpr hs)
  · obtain ⟨hlen, hbody⟩ := htx ht
    have hno : ¬BodyCopied D node (packet ++ stale) := fun hb =>
      absurd (hbody ((bodyCopied_append hlen).mp hb)) (not_le.mpr hs)
    rcases processTransaction_cases D node (packet ++ stale) with ⟨hb, -⟩ | ⟨-, heq⟩
    · exact absurd hb hno
    · rw [ht]
      change (processTransaction D node (packet ++ stale)).2.db = node.db
      rw [heq]
  · rw [ht]
    change (processLogRanges node (packet ++ stale)).2.db = node.db
    rw [processLogRanges_short hsize h8 hs]
  · obtain ⟨hlen, hkey⟩ := hvote ht
    rw [ht]
    refine processTickVoteAt_dropped (fun hk => absurd (hkey ?_) (not_lt.mpr hs))
    exact (keyLookedUp_append (by rw [TickVote.sizeOf] at hlen; omega)).mp hk
  · obtain ⟨hlen, hkey⟩ := hdata ht
    rw [ht]
    refine processTickDataAt_dropped (fun hk => absurd (hkey ?_) (not_lt.mpr hs))
    exact (keyLookedUp_append (by rw [TickData.sizeOf] at hlen; omega)).mp hk

end packet

theorem holdsTogether_of_not_data
    (h : isDataType (RequestResponseHeader.ofBytes packet).type = false) :
    HoldsTogether D node packet := by
  simp only [isDataType, Bool.or_eq_false_iff, decide_eq_false_iff_not] at h
  obtain ⟨⟨⟨⟨⟨hvote, hdata⟩, htx⟩, hlog⟩, -⟩, -⟩ := h
  exact ⟨fun ht => absurd ht hvote, fun ht => absurd ht hdata, fun ht => absurd ht htx,
    fun ht => absurd ht hlog⟩

/-! ### The whole path -/

section path

variable {stream buf : List Byte}

theorem receiveAFullPacket_refused (h : stream.length < 8 ∨
    RequestResponseHeader.max_size < (RequestResponseHeader.ofBytes stream).size) :
    receiveAFullPacket stream = ([], none) := by
  rw [receiveAFullPacket, RequestResponseHeader.sizeOf]
  split
  · rfl
  · next hlen =>
      dsimp only
      rw [if_pos (h.resolve_left hlen)]

variable (hlen : 8 ≤ stream.length)
  (hmax : (RequestResponseHeader.ofBytes stream).size ≤ RequestResponseHeader.max_size)

include hlen hmax in
theorem receiveAFullPacket_headerOnly (h : (RequestResponseHeader.ofBytes stream).size < 8) :
    receiveAFullPacket stream = ([.bytes 0 8], none) := by
  rw [receiveAFullPacket, RequestResponseHeader.sizeOf, if_neg (not_lt.mpr hlen)]
  dsimp only
  rw [if_neg (not_lt.mpr hmax), if_pos h]

include hlen hmax in
theorem receiveAFullPacket_incomplete (h8 : 8 ≤ (RequestResponseHeader.ofBytes stream).size)
    (h : stream.length < (RequestResponseHeader.ofBytes stream).size) :
    receiveAFullPacket stream = ([.bytes 0 8, .bytes 8 (stream.length - 8)], none) := by
  have hrest : ((stream.drop 8).take ((RequestResponseHeader.ofBytes stream).size - 8)).length =
      stream.length - 8 := by
    rw [List.length_take, List.length_drop]
    omega
  rw [receiveAFullPacket, RequestResponseHeader.sizeOf, if_neg (not_lt.mpr hlen)]
  dsimp only
  rw [if_neg (not_lt.mpr hmax), if_neg (not_lt.mpr h8), hrest, if_pos (by omega)]

include hlen hmax in
theorem receiveAFullPacket_ok (h8 : 8 ≤ (RequestResponseHeader.ofBytes stream).size)
    (h : (RequestResponseHeader.ofBytes stream).size ≤ stream.length) :
    receiveAFullPacket stream =
      ([.bytes 0 8, .bytes 8 ((RequestResponseHeader.ofBytes stream).size - 8)],
        some (stream.take (RequestResponseHeader.ofBytes stream).size)) := by
  have hrest : ((stream.drop 8).take ((RequestResponseHeader.ofBytes stream).size - 8)).length =
      (RequestResponseHeader.ofBytes stream).size - 8 := by
    rw [List.length_take, List.length_drop]
    omega
  have hwhole : stream.take 8 ++
      (stream.drop 8).take ((RequestResponseHeader.ofBytes stream).size - 8) =
        stream.take (RequestResponseHeader.ofBytes stream).size := by
    rw [← List.take_add]
    congr 1
    omega
  rw [receiveAFullPacket, RequestResponseHeader.sizeOf, if_neg (not_lt.mpr hlen)]
  dsimp only
  rw [if_neg (not_lt.mpr hmax), if_neg (not_lt.mpr h8), hrest, if_neg (by simp), hwhole]

/-- Nothing was received: the node is as before, and the accesses are those of the socket. -/
theorem readsReceived_of_none {accesses : List Access}
    (h : receiveAFullPacket stream = (accesses, none)) :
    ReadsReceived D node buf stream ↔
      StayInside (RequestResponseHeader.ofBytes stream).size accesses := by
  have hpath : receivePath D node buf stream = (accesses, node) := by
    rw [receivePath, h]
  constructor
  · intro hr
    have := hr.inside
    rwa [hpath] at this
  · intro hin
    refine ⟨by rw [hpath]; exact hin, ?_, ?_⟩
    · intro packet hp
      rw [h] at hp
      cases hp
    · intro packet hp
      rw [h] at hp
      cases hp

/-- A packet of `n` bytes whose worker does not touch it. -/
theorem readsReceived_of_ignored {n : Nat} (hn : (RequestResponseHeader.ofBytes stream).size = n)
    (h8 : 8 ≤ n)
    (hrecv : receiveAFullPacket stream = ([.bytes 0 8, .bytes 8 (n - 8)], some packet))
    (hpath : receivePath D node buf stream = ([.bytes 0 8, .bytes 8 (n - 8)], node))
    (hevents : packet.length < RequestResponseHeader.max_size →
      (RequestResponseHeader.ofBytes packet).type ≠ RESPOND_LOG) :
    ReadsReceived D node buf stream where
  inside := by
    rw [hpath, hn]
    simp only [stayInside_cons, stayInside_nil, Access.Inside, and_true]
    omega
  dropped := fun _ _ _ => by rw [hpath]
  events := by
    intro p hp hlt ht
    rw [hrecv] at hp
    obtain rfl := Option.some.inj hp
    exact absurd ht (hevents hlt)

/-- A data packet that a worker processes. -/
theorem receivePath_processed (D : DataReceiver) (node : DataNode) (buf : List Byte)
    (hrecv : receiveAFullPacket stream =
      ([.bytes 0 8, .bytes 8 (packet.length - 8)], some packet))
    (h8 : 8 ≤ packet.length) (hlt : packet.length < RequestResponseHeader.max_size)
    (hdata : isDataType (RequestResponseHeader.ofBytes packet).type = true) :
    receivePath D node buf stream =
      ([.bytes 0 8, .bytes 8 (packet.length - 8)] ++
        .bytes 0 8 :: (processData D node (packet ++ buf.drop packet.length) packet.length
          (RequestResponseHeader.ofBytes packet).type).1,
        (processData D node (packet ++ buf.drop packet.length) packet.length
          (RequestResponseHeader.ofBytes packet).type).2) := by
  have hmem : Ring.overwrite buf 0 packet = packet ++ buf.drop packet.length := by
    rw [Ring.overwrite, List.take_zero, List.nil_append, Nat.zero_add]
  rw [receivePath, hrecv]
  dsimp only
  rw [if_pos hdata, DataProcessorThread, if_neg (by omega), hmem]
  dsimp only
  rw [ofBytes_append h8]

theorem readsReceived_of_processed
    (hsize : (RequestResponseHeader.ofBytes packet).size = packet.length)
    (hn : (RequestResponseHeader.ofBytes stream).size = packet.length)
    (hrecv : receiveAFullPacket stream =
      ([.bytes 0 8, .bytes 8 (packet.length - 8)], some packet))
    (h8 : 8 ≤ packet.length) (hlt : packet.length < RequestResponseHeader.max_size)
    (hdata : isDataType (RequestResponseHeader.ofBytes packet).type = true) :
    ReadsReceived D node buf stream ↔ HoldsTogether D node packet := by
  have hpath := receivePath_processed D node buf hrecv h8 hlt hdata
  have hin := processData_inside hsize h8 D node (buf.drop packet.length)
  constructor
  · intro hr
    have hinside := hr.inside
    rw [hpath, hn, stayInside_append] at hinside
    exact hin.mp ((stayInside_cons _ _ _).mp hinside.2).2
  · intro hholds
    constructor
    · rw [hpath, hn]
      simp only [stayInside_append, stayInside_cons, stayInside_nil, Access.Inside, and_true, hin]
      exact ⟨⟨by omega, by omega⟩, by omega, hholds⟩
    · intro p hp hbad
      rw [hrecv] at hp
      obtain rfl := Option.some.inj hp
      rw [hpath]
      exact processData_dropped hsize h8 hholds hbad
    · intro p hp _ ht
      rw [hrecv] at hp
      obtain rfl := Option.some.inj hp
      rw [hpath, ht]
      exact processLogEvent_db h8 (hholds.2.2.2 ht)

/-- The path of a packet stays inside what was received, and drops what does not hold together,
exactly when the peer is well behaved: its header declares at least its own eight bytes, and a
packet that arrives has every byte its handler reads. -/
theorem receivePath_iff (D : DataReceiver) (node : DataNode) (buf stream : List Byte) :
    ReadsReceived D node buf stream ↔ WellBehaved D node stream := by
  rw [WellBehaved]
  by_cases hrefused : stream.length < 8 ∨
      RequestResponseHeader.max_size < (RequestResponseHeader.ofBytes stream).size
  · rw [readsReceived_of_none (receiveAFullPacket_refused hrefused)]
    refine ⟨fun _ hlen hmax => ?_, fun _ => stayInside_nil _⟩
    omega
  rw [not_or, not_lt, not_lt] at hrefused
  obtain ⟨hlen, hmax⟩ := hrefused
  simp only [hlen, hmax, true_imp_iff]
  by_cases h8 : 8 ≤ (RequestResponseHeader.ofBytes stream).size
  swap
  · -- eight bytes are copied into a buffer that is smaller
    rw [readsReceived_of_none (receiveAFullPacket_headerOnly hlen hmax (not_le.mp h8))]
    simp only [stayInside_cons, stayInside_nil, Access.Inside, Nat.zero_add, and_true, h8,
      false_and]
  simp only [h8, true_and]
  by_cases hall : (RequestResponseHeader.ofBytes stream).size ≤ stream.length
  swap
  · rw [readsReceived_of_none (receiveAFullPacket_incomplete hlen hmax h8 (not_le.mp hall))]
    simp only [stayInside_cons, stayInside_nil, Access.Inside, and_true, hall, false_imp_iff,
      iff_true]
    omega
  simp only [hall, true_imp_iff]
  have hrecv := receiveAFullPacket_ok hlen hmax h8 hall
  have hpl : (stream.take (RequestResponseHeader.ofBytes stream).size).length =
      (RequestResponseHeader.ofBytes stream).size := by
    rw [List.length_take]
    omega
  have hph : RequestResponseHeader.ofBytes
      (stream.take (RequestResponseHeader.ofBytes stream).size) =
        RequestResponseHeader.ofBytes stream := ofBytes_take h8
  by_cases hdata : isDataType (RequestResponseHeader.ofBytes
      (stream.take (RequestResponseHeader.ofBytes stream).size)).type = true
  swap
  · rw [Bool.not_eq_true] at hdata
    refine ⟨fun _ _ => holdsTogether_of_not_data hdata, fun _ => ?_⟩
    refine readsReceived_of_ignored rfl h8 hrecv ?_ (fun _ ht => ?_)
    · rw [receivePath, hrecv]
      dsimp only
      rw [hdata, if_neg Bool.false_ne_true]
    · rw [ht] at hdata
      exact absurd hdata (by decide)
  by_cases hlt : (RequestResponseHeader.ofBytes stream).size < RequestResponseHeader.max_size
  swap
  · -- the largest size is refused by the worker
    refine ⟨fun _ h => absurd h hlt, fun _ => ?_⟩
    refine readsReceived_of_ignored rfl h8 hrecv ?_ (fun h => ?_)
    · rw [receivePath, hrecv]
      dsimp only
      rw [if_pos hdata, DataProcessorThread, if_pos (Or.inr (by rw [hpl]; omega))]
      rfl
    · rw [hpl] at h
      exact absurd h hlt
  simp only [hlt, true_imp_iff]
  refine readsReceived_of_processed (by rw [hph, hpl]) hpl.symm ?_ (by rw [hpl]; exact h8)
    (by rw [hpl]; exact hlt) hdata
  rw [hrecv, hpl]

end path

end proofs

/-- A node in epoch 0 that verifies tick 1 and accepts every signature. -/
def bareReceiver : DataReceiver where
  receiver :=
    { gCurrentProcessingEpoch := 0
      gCurrentVerifyLoggingTick := 1
      publicKeys := fun _ => 0
      verifyVote := fun _ _ => true
      verifyData := fun _ _ => true }
  K := ⟨fun _ => 0, fun _ => 0⟩
  verify := fun _ _ _ => true
  now := 0

def emptyNode : DataNode where
  db :=
    { ticks :=
        { tickVote := fun _ _ => none
          tickData := fun _ => none
          hasTransaction := fun _ => false
          vote_key := @no_vote_key
          data_key := @no_data_key }
      kvrocks := { vtick := fun _ => none, vtick_wf := fun h => nomatch h }
      transactions := fun _ => none
      logs := fun _ _ => none
      latestLogId := fun _ => -1
      logRanges := fun _ => none
      tickLogRange := fun _ => none }
  requestMapperFrom := RequestMap.empty
  responseSCData := RequestMap.empty

/-- A vote without a payload, a header that declares five bytes, and a vote of computor 676: 352
bytes are read behind the first, the second is copied into five bytes, and the third reads behind
the list of computors. -/
theorem short_packets_are_read_past :
    ¬ ReadsReceived bareReceiver emptyNode [] [8, 0, 0, 3, 0, 0, 0, 0] ∧
      ¬ ReadsReceived bareReceiver emptyNode [] [5, 0, 0, 3, 0, 0, 0, 0] ∧
      ¬ ReadsReceived bareReceiver emptyNode []
        ([0x68, 1, 0, 3, 0, 0, 0, 0, 0xA4, 2] ++ List.replicate 350 0) := by
  refine ⟨fun h => ?_, fun h => ?_, fun h => ?_⟩
  · have hread := h.inside (.bytes 8 352) (by decide +kernel)
    exact absurd hread (by decide)
  · have hread := h.inside (.bytes 0 8) (by decide +kernel)
    exact absurd hread (by decide)
  · have hread := h.inside (.publicKey 676) (by decide +kernel)
    exact absurd hread (by decide)

end QubicBob
