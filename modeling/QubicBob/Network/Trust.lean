import QubicBob.Lib.Runs
import QubicBob.Network.StructBytes

set_option autoImplicit false

/-! # Trusted and other peers

The node with two kinds of connections. From a connection that is not trusted, `connReceiver` drops
log chunks and log ranges, which carry no signature; the other data packets and all requests pass.
The replies to a request are noted in `requestMapperFrom` like any packet the node sends, and there
`processLogRanges` looks for the tick of a log range.

A run is compared with the run without the packets of the other peers. The two nodes keep the same
logs, log ranges and responses (`SameLogs`), while their ticks and transactions drift apart, and with
them the replies that are made of these. So the two maps of requests can be compared only under the
dejavus that no such reply has taken (`replied`); a log range under any other is where the two runs
may part, as they do at once when a response of a smart contract is let through.
-/

namespace QubicBob

structure PeerNode where
  env : DataReceiver
  node : DataNode
  /-- the buffers of the data workers -/
  bufs : Nat → List Byte
  /-- what `querySmartContract` has returned, with the nonces asked for -/
  answers : List (Nat × Option (List Byte))
  /-- the dejavus whose latest entry in `requestMapperFrom` may be a reply that other peers have had a
  part in: one to an untrusted client, or one with ticks or transactions -/
  replied : Nat → Bool

/-- What a reply handler reads besides the node's own state: the computors, and what Kvrocks has. -/
structure ServingRest where
  gInitialTick : Nat
  computorsEpoch : Nat
  computors : List Byte
  kvTransactions : List Char → Option (List Byte)
  kvLogs : Nat → Nat → Option (List Byte)
  kvLogRanges : Nat → Option (List Byte)

/-- What happens at the node. -/
inductive PeerStep where
  | data (trusted : Bool) (k : Nat) (packet : List Byte)
  | request (trusted : Bool) (conn : Conn) (packet : List Byte) (x : ServingRest) (rnd : Nat)
      (stale : List Byte)
  | ownPacket (packet : List Byte)
  | query (nonce : Nat)
  | clean
  | elapse (seconds : Nat)
  | progress (R : Receiver)

/-- The votes in KeyDB; if there is none, the entries of the record with the right tick. -/
def DataStore.dbTryGetTickVote (db : DataStore) (tick : BitVec 32) : List TickVote :=
  let result := dbGetTickVotes db.ticks tick
  if result.isEmpty = false then result
  else (dbGetTickVotesFromVtick db.kvrocks tick).filter (fun v => v.tick = tick)

namespace PeerNode

open MutexRoundBuffer

/-- The entry `enqueueSend` makes of a packet it sends: none for dejavu 0. -/
def notesDejavu (packet : List Byte) : Option Nat :=
  let dejavu := (RequestResponseHeader.ofBytes packet).getDejavu
  if 8 ≤ packet.length ∧ dejavu ≠ 0 then some dejavu else none

/-- What the reply handlers of the node read. -/
def serving (s : PeerNode) (x : ServingRest) : Serving where
  K := s.env.K
  gCurrentVerifyLoggingTick := s.env.receiver.gCurrentVerifyLoggingTick.toNat
  gCurrentProcessingEpoch := s.env.receiver.gCurrentProcessingEpoch.toNat
  gInitialTick := x.gInitialTick
  computorsEpoch := x.computorsEpoch
  computors := x.computors
  tryGetTickData tick := s.node.db.dbTryGetTickData (BitVec.ofNat 32 tick)
  tryGetTickVote tick := s.node.db.dbTryGetTickVote (BitVec.ofNat 32 tick)
  tryGetTransaction hash := (s.node.db.transactions hash).or (x.kvTransactions hash)
  tryGetLog := dbTryGetLog ⟨⟨fun _ => none, s.node.db.logs⟩, ⟨fun _ => none, x.kvLogs⟩⟩
  tryGetLogRanges tick := (s.node.db.logRanges tick).or (x.kvLogRanges tick)

/-- `enqueueSend`: the packet is noted under its dejavu; `client` says that it goes to a connection
that is not trusted. -/
def enqueueSend (client : Bool) (s : PeerNode) (packet : List Byte) : PeerNode :=
  match notesDejavu packet with
  | none => s
  | some dejavu =>
      { s with
        node := { s.node with
          requestMapperFrom := s.node.requestMapperFrom.add s.env.now dejavu packet none }
        replied := Function.update s.replied dejavu client }

/-- The replies to a request are sent. Of those with ticks both dejavus are marked, as the replies of a
node with other ticks may have taken either. -/
def sendReplies (s : PeerNode) (trusted ticks : Bool) (dejavu rnd : Nat) (sends : List Send) :
    PeerNode :=
  let s' := (sends.map Send.packet).foldl (enqueueSend !trusted) s
  if trusted && ticks then
    { s' with replied := fun d => s'.replied d || (d != 0 && (d == dejavu || d == rnd % 2 ^ 32)) }
  else s'

/-- The data packets `connReceiver` puts into the queue. -/
def admittedData (trusted : Bool) (packet : List Byte) : Bool :=
  let type := (RequestResponseHeader.ofBytes packet).type
  decide (IsPacket packet) && decide (packet.length ≤ RequestResponseHeader.max_size)
    && (trusted || checkAllowedTypeForNonTrusted type) && isDataType type

/-- The requests among them. -/
def admittedRequest (trusted : Bool) (packet : List Byte) : Bool :=
  let type := (RequestResponseHeader.ofBytes packet).type
  decide (IsPacket packet) && decide (packet.length ≤ RequestResponseHeader.max_size)
    && (trusted || checkAllowedTypeForNonTrusted type) && isRequestType type

def step (s : PeerNode) : PeerStep → PeerNode
  | .data trusted k packet =>
      if admittedData trusted packet then
        { s with
          node := (DataProcessorThread s.env s.node (s.bufs k) packet).2
          bufs := Function.update s.bufs k (Ring.overwrite (s.bufs k) 0 packet) }
      else s
  | .request trusted conn packet x rnd stale =>
      if admittedRequest trusted packet then
        let header := RequestResponseHeader.ofBytes packet
        match replyTo (s.serving x) conn header.getDejavu rnd (packet.drop 8 ++ stale)
            header.type with
        | .error _ => s
        | .ok sends => s.sendReplies trusted (readsTicks header.type) header.getDejavu rnd sends
      else s
  | .ownPacket packet => s.enqueueSend false packet
  | .query nonce => { s with answers := s.answers ++ [(nonce, s.node.responseSCData.get nonce)] }
  | .clean =>
      { s with
        node := { s.node with
          requestMapperFrom := s.node.requestMapperFrom.clean s.env.now 60
          responseSCData := s.node.responseSCData.clean s.env.now 10 } }
  | .elapse seconds => { s with env := { s.env with now := s.env.now + seconds } }
  | .progress R => { s with env := { s.env with receiver := R } }

def run (s : PeerNode) (steps : List PeerStep) : PeerNode := Runs.run step s steps

end PeerNode

/-- The packet came on a connection that is not trusted. -/
def PeerStep.untrusted : PeerStep → Bool
  | .data trusted _ _ => !trusted
  | .request trusted _ _ _ _ _ => !trusted
  | _ => false

/-! ## What the other peers may do -/

/-- A vote of the current epoch with a valid signature of its computor. -/
def SignedVote (env : DataReceiver) (v : TickVote) : Prop :=
  v.epoch = env.receiver.gCurrentProcessingEpoch ∧ v.computorIndex.toNat < NUMBER_OF_COMPUTORS ∧
    env.receiver.verifyVote { v with computorIndex := v.computorIndex ^^^ 3 }
      (env.receiver.publicKeys v.computorIndex) = true

def SignedData (env : DataReceiver) (td : TickData) : Prop :=
  td.epoch = env.receiver.gCurrentProcessingEpoch ∧
    td.computorIndex.toNat < NUMBER_OF_COMPUTORS ∧
    env.receiver.verifyData { td with computorIndex := td.computorIndex ^^^ 8 }
      (env.receiver.publicKeys td.computorIndex) = true

/-- A transaction listed in the stored tick data of its tick, with a valid signature of its
source. -/
def SignedTransaction (env : DataReceiver) (db : DataStore) (tx : List Byte) : Prop :=
  (∃ td, db.dbTryGetTickData (BitVec.ofNat 32 (readLE tx 72 4)) = some td ∧
    listedIn td (env.K.hash32 tx) = true) ∧
    verifySignature env tx (BitVec.ofNat 256 (readLE tx 0 32)) = true

/-- The database after a packet of another peer. -/
inductive SignedChange (env : DataReceiver) (db : DataStore) : DataStore → Prop where
  | unchanged : SignedChange env db db
  | vote (v : TickVote) (h : SignedVote env v) :
      SignedChange env db { db with ticks := dbInsertTickVote db.ticks v }
  | data (td : TickData) (h : SignedData env td) :
      SignedChange env db { db with ticks := dbInsertTickData db.ticks td }
  | transaction (tx : List Byte) (h : SignedTransaction env db tx) :
      SignedChange env db (db.dbInsertTransaction env.K tx)

/-- The logs, the ids and the ranges of logs. -/
def DataStore.logStores (db : DataStore) :
    (Nat → Nat → Option (List Byte)) × (Nat → Int) × (Nat → Option (List Byte)) ×
      (Nat → Option (Int × Int)) :=
  (db.logs, db.latestLogId, db.logRanges, db.tickLogRange)

/-- The packets of the other peers change nothing but by storing what is signed, and the logs, the
log ranges, the responses of smart contracts and the answers given are those of the run without
them. -/
structure NoInjection (s : PeerNode) (steps : List PeerStep) : Prop where
  stored : ∀ before st after, steps = before ++ st :: after → st.untrusted = true →
    let a := s.run before
    SignedChange a.env a.node.db (a.step st).node.db ∧
      (a.step st).node.responseSCData = a.node.responseSCData ∧
      (a.step st).answers = a.answers ∧ (a.step st).env = a.env
  same : let a := s.run steps
    let b := s.run (steps.filter (fun st => !st.untrusted))
    a.node.db.logStores = b.node.db.logStores ∧ a.node.responseSCData = b.node.responseSCData ∧
      a.answers = b.answers

/-- The data packets of the other peers are well formed. -/
def WellFormedStep (s : PeerNode) : PeerStep → Prop
  | .data false _ packet => HoldsTogether s.env s.node packet
  | _ => True

/-- The condition on a step: no response of a smart contract from another peer; no log range under a
dejavu that a reply to another peer, or one with ticks or transactions, may have taken since the node
last used it; and no log chunk that stops at a cut-off event, which would be completed from the
buffer. -/
def Screened (s : PeerNode) : PeerStep → Prop
  | .data trusted _ packet =>
      let header := RequestResponseHeader.ofBytes packet
      (trusted = false → header.type ≠ RESPOND_CONTRACT_FUNCTION) ∧
      (trusted = true → header.type = LOG_RANGES_PER_TX_IN_TICK →
        s.replied header.getDejavu = false) ∧
      (trusted = true → header.type = RESPOND_LOG →
        EndsClean s.env.K s.env.receiver.gCurrentProcessingEpoch.toNat (packet.drop 8))
  | _ => True

/-! ## One packet -/

section handlers

variable {env : DataReceiver} {node : DataNode} {packet stale mem : List Byte}

/-- A vote is stored only if it is of the epoch, not old, and signed. -/
theorem processTickVote_cases (R : Receiver) (db : TickKeyDB) (v : TickVote) :
    processTickVote R db v = db ∨
      (v.epoch = R.gCurrentProcessingEpoch ∧ ¬v.tick < R.gCurrentVerifyLoggingTick - 1 ∧
        R.verifyVote { v with computorIndex := v.computorIndex ^^^ 3 }
          (R.publicKeys v.computorIndex) = true ∧
        processTickVote R db v = dbInsertTickVote db v) := by
  unfold processTickVote
  split
  · exact Or.inl rfl
  split
  · exact Or.inl rfl
  split
  · next hepoch htick hsig => exact Or.inr ⟨not_not.mp hepoch, htick, hsig, rfl⟩
  · exact Or.inl rfl

theorem processTickData_cases (R : Receiver) (db : TickKeyDB) (td : TickData) :
    processTickData R db td = db ∨
      (td.epoch = R.gCurrentProcessingEpoch ∧ ¬td.tick < R.gCurrentVerifyLoggingTick - 1 ∧
        R.verifyData { td with computorIndex := td.computorIndex ^^^ 8 }
          (R.publicKeys td.computorIndex) = true ∧
        processTickData R db td = dbInsertTickData db td) := by
  unfold processTickData
  split
  · exact Or.inl rfl
  split
  · exact Or.inl rfl
  split
  · next hepoch htick hsig => exact Or.inr ⟨not_not.mp hepoch, htick, hsig, rfl⟩
  · exact Or.inl rfl

theorem processTickVoteAt_signed
    (hindex : KeyLookedUp env mem → computorIndexOf mem < NUMBER_OF_COMPUTORS) :
    SignedChange env node.db (processTickVoteAt env node mem).2.db := by
  rw [processTickVoteAt]
  dsimp only
  rcases processTickVote_cases env.receiver node.db.ticks (TickVote.ofBytes (mem.drop 8)) with
    h | ⟨hepoch, htick, hsig, h⟩
  · rw [h]
    exact .unchanged
  · rw [h]
    refine .vote _ ⟨hepoch, ?_, hsig⟩
    simp only [TickVote.ofBytes, readLE_drop] at hepoch htick ⊢
    exact hindex ⟨hepoch, htick⟩

theorem processTickDataAt_signed
    (hindex : KeyLookedUp env mem → computorIndexOf mem < NUMBER_OF_COMPUTORS) :
    SignedChange env node.db (processTickDataAt env node mem).2.db := by
  rw [processTickDataAt]
  dsimp only
  rcases processTickData_cases env.receiver node.db.ticks (TickData.ofBytes (mem.drop 8)) with
    h | ⟨hepoch, htick, hsig, h⟩
  · rw [h]
    exact .unchanged
  · rw [h]
    refine .data _ ⟨hepoch, ?_, hsig⟩
    simp only [TickData.ofBytes, readLE_drop] at hepoch htick ⊢
    exact hindex ⟨hepoch, htick⟩

theorem processTransaction_signed :
    SignedChange env node.db (processTransaction env node mem).2.db := by
  unfold processTransaction
  dsimp only
  split
  · exact .unchanged
  split
  · exact .unchanged
  split
  · exact .unchanged
  next td htd =>
    dsimp only
    split
    · next hok =>
        rw [Bool.and_eq_true] at hok
        have hfield : ∀ off n, off + n ≤ 80 →
            readLE (Ring.slice mem 8 (Transaction.sizeOf + readLE mem (8 + 78) 2 + SIGNATURE_SIZE))
              off n = readLE mem (8 + off) n := by
          intro off n hle
          rw [Ring.slice, readLE_take (by rw [Transaction.sizeOf]; omega), readLE_drop]
        refine .transaction _ ⟨⟨td, ?_, hok.1⟩, ?_⟩
        · rw [hfield 72 4 (by decide)]
          exact htd
        · rw [hfield 0 32 (by decide)]
          exact hok.2
    · exact .unchanged

theorem SignedChange.logStores {db db' : DataStore} (h : SignedChange env db db') :
    db'.logStores = db.logStores := by
  cases h with
  | unchanged => rfl
  | vote v hv => rfl
  | data td htd => rfl
  | transaction tx htx => rfl

/-- A transaction touches none of the maps. -/
theorem processTransaction_maps :
    (processTransaction env node mem).2.responseSCData = node.responseSCData ∧
      (processTransaction env node mem).2.requestMapperFrom = node.requestMapperFrom := by
  unfold processTransaction
  dsimp only
  split
  · exact ⟨rfl, rfl⟩
  split
  · exact ⟨rfl, rfl⟩
  split
  · exact ⟨rfl, rfl⟩
  · dsimp only
    split
    · exact ⟨rfl, rfl⟩
    · exact ⟨rfl, rfl⟩

/-- A packet of another peer, other than a response of a smart contract. -/
theorem processData_signed (stale : List Byte) (n : Nat) (h : HoldsTogether env node packet)
    (hallowed : checkAllowedTypeForNonTrusted (RequestResponseHeader.ofBytes packet).type = true)
    (hsc : (RequestResponseHeader.ofBytes packet).type ≠ RESPOND_CONTRACT_FUNCTION) :
    let r := (processData env node (packet ++ stale) n
      (RequestResponseHeader.ofBytes packet).type).2
    SignedChange env node.db r.db ∧ r.responseSCData = node.responseSCData ∧
      r.requestMapperFrom = node.requestMapperFrom := by
  obtain ⟨hvote, hdata, -, -⟩ := h
  dsimp only
  unfold processData
  split
  · next ht =>
      obtain ⟨hlen, hindex⟩ := hvote ht
      have h16 : 16 ≤ packet.length := by rw [TickVote.sizeOf] at hlen; omega
      refine ⟨processTickVoteAt_signed ?_, rfl, rfl⟩
      rw [keyLookedUp_append h16, computorIndexOf_append h16]
      exact hindex
  split
  · next ht =>
      obtain ⟨hlen, hindex⟩ := hdata ht
      have h16 : 16 ≤ packet.length := by rw [TickData.sizeOf] at hlen; omega
      refine ⟨processTickDataAt_signed ?_, rfl, rfl⟩
      rw [keyLookedUp_append h16, computorIndexOf_append h16]
      exact hindex
  split
  · exact ⟨processTransaction_signed, processTransaction_maps⟩
  split
  · next ht => rw [ht] at hallowed; exact absurd hallowed (by decide)
  split
  · next ht => rw [ht] at hallowed; exact absurd hallowed (by decide)
  · exact ⟨.unchanged, rfl, rfl⟩

/-! ## Two nodes and one packet -/

/-- Two nodes with the same logs, ranges and responses, and the same requests but for some
dejavus. -/
structure SameLogs (replied : Nat → Bool) (a b : DataNode) : Prop where
  stores : a.db.logStores = b.db.logStores
  responses : a.responseSCData = b.responseSCData
  requests : ∀ d, replied d = false → a.requestMapperFrom d = b.requestMapperFrom d

section stores

variable {a b : DataStore}

theorem logStores_ext (hlogs : a.logs = b.logs) (hlatest : a.latestLogId = b.latestLogId)
    (hranges : a.logRanges = b.logRanges) (hsummary : a.tickLogRange = b.tickLogRange) :
    a.logStores = b.logStores := by
  rw [DataStore.logStores, DataStore.logStores, hlogs, hlatest, hranges, hsummary]

theorem logStores_fields (h : a.logStores = b.logStores) :
    a.logs = b.logs ∧ a.latestLogId = b.latestLogId ∧ a.logRanges = b.logRanges ∧
      a.tickLogRange = b.tickLogRange := by
  simpa only [DataStore.logStores, Prod.mk.injEq] using h

theorem dbInsertLog_logStores (h : a.logStores = b.logStores) (epoch logId : Nat)
    (content : List Byte) :
    (a.dbInsertLog epoch logId content).logStores = (b.dbInsertLog epoch logId content).logStores := by
  obtain ⟨hlogs, hlatest, hranges, hsummary⟩ := logStores_fields h
  refine logStores_ext ?_ hlatest hranges hsummary
  rw [DataStore.dbInsertLog, DataStore.dbInsertLog, hlogs]

theorem storeEvents_logStores (events : List LogEvent) (h : a.logStores = b.logStores) :
    (storeEvents a events).logStores = (storeEvents b events).logStores := by
  induction events generalizing a b with
  | nil => exact h
  | cons le events ih => exact ih (dbInsertLog_logStores h _ _ _)

theorem dbUpdateLatestLogId_logStores (h : a.logStores = b.logStores) (epoch logId : Nat) :
    (a.dbUpdateLatestLogId epoch logId).logStores =
      (b.dbUpdateLatestLogId epoch logId).logStores := by
  obtain ⟨hlogs, hlatest, hranges, hsummary⟩ := logStores_fields h
  rw [DataStore.dbUpdateLatestLogId, DataStore.dbUpdateLatestLogId, hlatest]
  split
  · exact logStores_ext hlogs rfl hranges hsummary
  · exact h

theorem dbInsertLogRange_logStores (h : a.logStores = b.logStores) (tick : Nat)
    (logRange : List Byte) :
    (a.dbInsertLogRange tick logRange).logStores = (b.dbInsertLogRange tick logRange).logStores := by
  obtain ⟨hlogs, hlatest, hranges, hsummary⟩ := logStores_fields h
  rw [DataStore.dbInsertLogRange, DataStore.dbInsertLogRange, hranges, hsummary]
  split
  · exact h
  split
  · exact h
  · exact logStores_ext hlogs hlatest rfl rfl

end stores

section two

variable {replied : Nat → Bool} {a b : DataNode} {stale' : List Byte}

/-- Handlers that change neither logs nor maps keep two nodes alike. -/
theorem SameLogs.frame {a' b' : DataNode} (h : SameLogs replied a b)
    (ha : a'.db.logStores = a.db.logStores ∧ a'.responseSCData = a.responseSCData ∧
      a'.requestMapperFrom = a.requestMapperFrom)
    (hb : b'.db.logStores = b.db.logStores ∧ b'.responseSCData = b.responseSCData ∧
      b'.requestMapperFrom = b.requestMapperFrom) : SameLogs replied a' b' where
  stores := by rw [ha.1, hb.1, h.stores]
  responses := by rw [ha.2.1, hb.2.1, h.responses]
  requests := by rw [ha.2.2, hb.2.2]; exact h.requests

/-- The same packet at two such nodes, with what its worker's buffer has behind it. -/
theorem SameLogs.processed (h : SameLogs replied a b)
    (hsize : (RequestResponseHeader.ofBytes packet).size = packet.length) (h8 : 8 ≤ packet.length)
    (hranges : (RequestResponseHeader.ofBytes packet).type = LOG_RANGES_PER_TX_IN_TICK →
      replied (RequestResponseHeader.ofBytes packet).getDejavu = false)
    (hlog : (RequestResponseHeader.ofBytes packet).type = RESPOND_LOG →
      EndsClean env.K env.receiver.gCurrentProcessingEpoch.toNat (packet.drop 8)) :
    SameLogs replied
      (processData env a (packet ++ stale) packet.length
        (RequestResponseHeader.ofBytes packet).type).2
      (processData env b (packet ++ stale') packet.length
        (RequestResponseHeader.ofBytes packet).type).2 := by
  unfold processData
  split
  · exact h.frame ⟨rfl, rfl, rfl⟩ ⟨rfl, rfl, rfl⟩
  split
  · exact h.frame ⟨rfl, rfl, rfl⟩ ⟨rfl, rfl, rfl⟩
  split
  · exact h.frame ⟨processTransaction_signed.logStores, processTransaction_maps⟩
      ⟨processTransaction_signed.logStores, processTransaction_maps⟩
  split
  · next ht =>
      refine ⟨?_, h.responses, h.requests⟩
      rw [processLogEvent_db h8 (hlog ht), processLogEvent_db h8 (hlog ht)]
      exact dbUpdateLatestLogId_logStores (storeEvents_logStores _ h.stores) _ _
  split
  · next ht =>
      have hreq := h.requests _ (hranges ht)
      rw [processLogRanges, processLogRanges, ofBytes_append h8, ofBytes_append h8, RequestMap.get,
        RequestMap.get, hreq]
      split
      · next hfit =>
          have hlen : 8 + LogRangesPerTxInTick.sizeOf ≤ packet.length := by
            rw [← hsize]
            exact hfit.2.ge
          refine ⟨?_, h.responses, h.requests⟩
          rw [slice_append hlen, slice_append hlen]
          exact dbInsertLogRange_logStores h.stores _ _
      · exact h
  split
  · have hlen : 8 + (packet.length - 8) ≤ packet.length := by omega
    rw [recordSmartContractResponse, recordSmartContractResponse, ofBytes_append h8,
      ofBytes_append h8, hsize, RequestResponseHeader.sizeOf]
    dsimp only
    refine ⟨h.stores, ?_, h.requests⟩
    rw [slice_append hlen, slice_append hlen, h.responses]
  · exact h

end two

end handlers

/-! ## Runs -/

namespace PeerNode

open MutexRoundBuffer

/-- The run with the other peers and the run without them. -/
structure InStep (s t : PeerNode) : Prop where
  env : s.env = t.env
  node : SameLogs s.replied s.node t.node
  answers : s.answers = t.answers

section steps

variable {s t : PeerNode} {packet : List Byte}

theorem admittedData_spec {trusted : Bool} (h : admittedData trusted packet = true) :
    IsPacket packet ∧ packet.length ≤ RequestResponseHeader.max_size ∧
      (trusted || checkAllowedTypeForNonTrusted (RequestResponseHeader.ofBytes packet).type) =
        true := by
  simp only [admittedData, Bool.and_eq_true, decide_eq_true_eq] at h
  exact ⟨h.1.1.1, h.1.1.2, h.1.2⟩

/-- What a worker makes of an admitted packet: nothing of one of the largest size. -/
theorem dataProcessorThread_snd (env : DataReceiver) (node : DataNode) (buf : List Byte)
    (h8 : 8 ≤ packet.length) :
    (DataProcessorThread env node buf packet).2 =
      if RequestResponseHeader.max_size ≤ packet.length then node
      else (processData env node (packet ++ buf.drop packet.length) packet.length
        (RequestResponseHeader.ofBytes packet).type).2 := by
  have hmem : Ring.overwrite buf 0 packet = packet ++ buf.drop packet.length := by
    rw [Ring.overwrite, List.take_zero, List.nil_append, Nat.zero_add]
  rw [DataProcessorThread]
  by_cases hmax : RequestResponseHeader.max_size ≤ packet.length
  · rw [if_pos (Or.inr hmax), if_pos hmax]
  · rw [if_neg (by omega), if_neg hmax, hmem]
    dsimp only
    rw [ofBytes_append h8]

/-- A data packet of another peer. -/
theorem step_untrusted_data {k : Nat} (hwf : WellFormedStep s (.data false k packet))
    (hscr : Screened s (.data false k packet)) :
    let s' := s.step (.data false k packet)
    SignedChange s.env s.node.db s'.node.db ∧ s'.node.responseSCData = s.node.responseSCData ∧
      s'.answers = s.answers ∧ s'.env = s.env ∧ s'.replied = s.replied ∧
      s'.node.requestMapperFrom = s.node.requestMapperFrom := by
  dsimp only
  rw [step]
  split
  · next hadm =>
      obtain ⟨hp, -, hallowed⟩ := admittedData_spec hadm
      rw [Bool.false_or] at hallowed
      dsimp only
      rw [dataProcessorThread_snd s.env s.node (s.bufs k) hp.1]
      split
      · exact ⟨.unchanged, rfl, rfl, rfl, rfl, rfl⟩
      · obtain ⟨hchange, hresp, hreq⟩ := processData_signed ((s.bufs k).drop packet.length)
          packet.length hwf hallowed (hscr.1 rfl)
        exact ⟨hchange, hresp, rfl, rfl, rfl, hreq⟩
  · exact ⟨.unchanged, rfl, rfl, rfl, rfl, rfl⟩

/-- A packet sent is noted in the map and nowhere else. -/
theorem enqueueSend_frame (client : Bool) (s : PeerNode) (packet : List Byte) :
    (s.enqueueSend client packet).env = s.env ∧
      (s.enqueueSend client packet).node.db = s.node.db ∧
      (s.enqueueSend client packet).node.responseSCData = s.node.responseSCData ∧
      (s.enqueueSend client packet).answers = s.answers := by
  rw [enqueueSend]
  split
  · exact ⟨rfl, rfl, rfl, rfl⟩
  · exact ⟨rfl, rfl, rfl, rfl⟩

theorem foldl_enqueueSend_frame (client : Bool) (packets : List (List Byte)) (s : PeerNode) :
    (packets.foldl (enqueueSend client) s).env = s.env ∧
      (packets.foldl (enqueueSend client) s).node.db = s.node.db ∧
      (packets.foldl (enqueueSend client) s).node.responseSCData = s.node.responseSCData ∧
      (packets.foldl (enqueueSend client) s).answers = s.answers := by
  induction packets generalizing s with
  | nil => exact ⟨rfl, rfl, rfl, rfl⟩
  | cons p ps ih =>
      obtain ⟨h₁, h₂, h₃, h₄⟩ := enqueueSend_frame client s p
      obtain ⟨i₁, i₂, i₃, i₄⟩ := ih (s.enqueueSend client p)
      exact ⟨i₁.trans h₁, i₂.trans h₂, i₃.trans h₃, i₄.trans h₄⟩

/-- A reply to another peer is noted under a dejavu that no longer counts. -/
theorem InStep.enqueueSend_client (h : InStep s t) (packet : List Byte) :
    InStep (s.enqueueSend true packet) t := by
  rw [enqueueSend]
  split
  · exact h
  next dejavu hd =>
    refine ⟨h.env, ⟨h.node.stores, h.node.responses, ?_⟩, h.answers⟩
    intro d hrep
    change Function.update s.replied dejavu true d = false at hrep
    by_cases hdd : d = dejavu
    · rw [hdd, Function.update_self] at hrep
      cases hrep
    · rw [Function.update_of_ne hdd] at hrep
      change s.node.requestMapperFrom.add _ dejavu packet none d = _
      rw [RequestMap.add, Function.update_of_ne hdd]
      exact h.node.requests d hrep

/-- A packet both nodes send is noted in both. -/
theorem InStep.enqueueSend_both (h : InStep s t) (packet : List Byte) :
    InStep (s.enqueueSend false packet) (t.enqueueSend false packet) := by
  rw [enqueueSend, enqueueSend]
  split
  · exact h
  next dejavu hd =>
    refine ⟨h.env, ⟨h.node.stores, h.node.responses, ?_⟩, h.answers⟩
    intro d hrep
    change Function.update s.replied dejavu false d = false at hrep
    change s.node.requestMapperFrom.add _ dejavu packet none d =
      t.node.requestMapperFrom.add _ dejavu packet none d
    rw [RequestMap.add, RequestMap.add, h.env]
    by_cases hdd : d = dejavu
    · rw [hdd, Function.update_self, Function.update_self]
    · rw [Function.update_of_ne hdd] at hrep
      rw [Function.update_of_ne hdd, Function.update_of_ne hdd]
      exact h.node.requests d hrep

/-- Sending replies does to the node what sending packets does. -/
theorem sendReplies_node (s : PeerNode) (trusted ticks : Bool) (dejavu rnd : Nat)
    (sends : List Send) : (s.sendReplies trusted ticks dejavu rnd sends).node =
      ((sends.map Send.packet).foldl (enqueueSend !trusted) s).node := by
  rw [sendReplies]
  split <;> rfl

theorem sendReplies_frame (s : PeerNode) (trusted ticks : Bool) (dejavu rnd : Nat)
    (sends : List Send) :
    (s.sendReplies trusted ticks dejavu rnd sends).env = s.env ∧
      (s.sendReplies trusted ticks dejavu rnd sends).node.db = s.node.db ∧
      (s.sendReplies trusted ticks dejavu rnd sends).node.responseSCData = s.node.responseSCData ∧
      (s.sendReplies trusted ticks dejavu rnd sends).answers = s.answers := by
  rw [sendReplies]
  split
  · exact foldl_enqueueSend_frame (!trusted) (sends.map Send.packet) s
  · exact foldl_enqueueSend_frame (!trusted) (sends.map Send.packet) s

/-- Packets with other dejavus do not touch an entry. -/
theorem foldl_enqueueSend_of_ne (client : Bool) {packets : List (List Byte)} {d : Nat}
    (h : ∀ p ∈ packets, notesDejavu p ≠ some d) (s : PeerNode) :
    (packets.foldl (enqueueSend client) s).node.requestMapperFrom d = s.node.requestMapperFrom d ∧
      (packets.foldl (enqueueSend client) s).replied d = s.replied d := by
  induction packets generalizing s with
  | nil => exact ⟨rfl, rfl⟩
  | cons p ps ih =>
      have hsame : (s.enqueueSend client p).node.requestMapperFrom d = s.node.requestMapperFrom d ∧
          (s.enqueueSend client p).replied d = s.replied d := by
        have hne := h p List.mem_cons_self
        rw [enqueueSend]
        split
        · exact ⟨rfl, rfl⟩
        next dejavu hd =>
          rw [hd] at hne
          have hdd : d ≠ dejavu := fun heq => hne (by rw [heq])
          exact ⟨Function.update_of_ne hdd _ _, Function.update_of_ne hdd _ _⟩
      obtain ⟨h₁, h₂⟩ := ih (fun q hq => h q (List.mem_cons_of_mem p hq)) (s.enqueueSend client p)
      exact ⟨h₁.trans hsame.1, h₂.trans hsame.2⟩

/-- Replies are noted under the dejavu of the request or under the random one. -/
theorem notesDejavu_of_areReplies {conn : Conn} {dejavu rnd d : Nat} {sends : List Send}
    (h : AreReplies conn dejavu rnd sends) (hdejavu : dejavu < 2 ^ 32)
    (hd : d = 0 ∨ (d ≠ dejavu ∧ d ≠ rnd % 2 ^ 32)) :
    ∀ p ∈ sends.map Send.packet, notesDejavu p ≠ some d := by
  intro p hp hnotes
  obtain ⟨send, hsend, rfl⟩ := List.mem_map.mp hp
  obtain ⟨d', type, payload, rfl, hd'⟩ := h send hsend
  rw [notesDejavu] at hnotes
  obtain ⟨⟨-, hne⟩, hsome⟩ := Option.ite_none_right_eq_some.mp hnotes
  have heq := Option.some.inj hsome
  rw [heq] at hne
  rw [dejavu_reply] at heq
  rcases hd with hzero | ⟨hnot, hnot'⟩
  · exact hne hzero
  · rcases hd' with rfl | rfl
    · rw [Nat.mod_eq_of_lt hdejavu] at heq
      exact hnot heq.symm
    · exact hnot' heq.symm

theorem InStep.foldl_client (h : InStep s t) (packets : List (List Byte)) :
    InStep (packets.foldl (enqueueSend true) s) t := by
  induction packets generalizing s with
  | nil => exact h
  | cons p ps ih => exact ih (h.enqueueSend_client p)

theorem InStep.foldl_both (h : InStep s t) (packets : List (List Byte)) :
    InStep (packets.foldl (enqueueSend false) s) (packets.foldl (enqueueSend false) t) := by
  induction packets generalizing s t with
  | nil => exact h
  | cons p ps ih => exact ih (h.enqueueSend_both p)

/-- Two nodes in step differ in their ticks and transactions only. -/
theorem InStep.serving (h : InStep s t) (x : ServingRest) :
    (s.serving x).AlikeButTicks (t.serving x) := by
  obtain ⟨hlogs, -, hranges, -⟩ := logStores_fields h.node.stores
  rw [Serving.AlikeButTicks, PeerNode.serving, PeerNode.serving, h.env, hlogs, hranges]

/-- Replies made of ticks, which both nodes send in their own way. -/
theorem InStep.sendReplies_ticks {conn : Conn} {dejavu rnd : Nat} {sends sends' : List Send}
    (h : InStep s t) (hdejavu : dejavu < 2 ^ 32) (hsends : AreReplies conn dejavu rnd sends)
    (hsends' : AreReplies conn dejavu rnd sends') :
    InStep (s.sendReplies true true dejavu rnd sends)
      (t.sendReplies true true dejavu rnd sends') := by
  obtain ⟨henv, hdb, hresp, hans⟩ := s.sendReplies_frame true true dejavu rnd sends
  obtain ⟨henv', hdb', hresp', hans'⟩ := t.sendReplies_frame true true dejavu rnd sends'
  refine ⟨by rw [henv, henv', h.env], ⟨?_, ?_, fun d hrep => ?_⟩, by rw [hans, hans', h.answers]⟩
  · rw [hdb, hdb', h.node.stores]
  · rw [hresp, hresp', h.node.responses]
  · rw [sendReplies] at hrep
    simp only [Bool.and_true, if_true, Bool.or_eq_false_iff, Bool.and_eq_false_iff, bne_eq_false_iff_eq,
      beq_eq_false_iff_ne] at hrep
    obtain ⟨hfold, hd⟩ := hrep
    obtain ⟨hsame, hreplied⟩ := foldl_enqueueSend_of_ne (!true)
      (notesDejavu_of_areReplies hsends hdejavu hd) s
    obtain ⟨hsame', -⟩ := foldl_enqueueSend_of_ne (!true)
      (notesDejavu_of_areReplies hsends' hdejavu hd) t
    rw [sendReplies_node, sendReplies_node, hsame, hsame']
    exact h.node.requests d (hreplied.symm.trans hfold)

theorem InStep.clean (h : InStep s t) : InStep (s.step .clean) (t.step .clean) := by
  refine ⟨h.env, ⟨h.node.stores, ?_, fun d hrep => ?_⟩, h.answers⟩
  · change s.node.responseSCData.clean s.env.now 10 = t.node.responseSCData.clean t.env.now 10
    rw [h.node.responses, h.env]
  · change s.node.requestMapperFrom.clean s.env.now 60 d =
      t.node.requestMapperFrom.clean t.env.now 60 d
    rw [RequestMap.clean, RequestMap.clean, h.node.requests d hrep, h.env]

/-- A packet of another peer leaves the two runs in step. -/
theorem InStep.hidden (h : InStep s t) (st : PeerStep)
    (hok : WellFormedStep s st ∧ Screened s st) (hst : st.untrusted = true) :
    InStep (s.step st) t := by
  cases st with
  | data trusted k packet =>
      obtain rfl : trusted = false := by simpa [PeerStep.untrusted] using hst
      obtain ⟨hchange, hresp, hans, henv, hrep, hreq⟩ := step_untrusted_data hok.1 hok.2
      refine ⟨henv.trans h.env, ⟨?_, ?_, ?_⟩, hans.trans h.answers⟩
      · exact hchange.logStores.trans h.node.stores
      · exact hresp.trans h.node.responses
      · rw [hrep, hreq]
        exact h.node.requests
  | request trusted conn packet x rnd stale =>
      obtain rfl : trusted = false := by simpa [PeerStep.untrusted] using hst
      rw [step]
      split
      · dsimp only
        split
        · exact h
        · exact h.foldl_client _
      · exact h
  | ownPacket packet => cases hst
  | query nonce => cases hst
  | clean => cases hst
  | elapse seconds => cases hst
  | progress R => cases hst

/-- Any other step, made in both runs. -/
theorem InStep.visible (h : InStep s t) (st : PeerStep)
    (hok : WellFormedStep s st ∧ Screened s st) (hst : st.untrusted = false) :
    InStep (s.step st) (t.step st) := by
  cases st with
  | data trusted k packet =>
      obtain rfl : trusted = true := by simpa [PeerStep.untrusted] using hst
      obtain ⟨-, hranges, hlog⟩ := hok.2
      rw [step, step]
      split
      · next hadm =>
          obtain ⟨hp, -, -⟩ := admittedData_spec hadm
          refine ⟨h.env, ?_, h.answers⟩
          dsimp only
          rw [dataProcessorThread_snd s.env s.node (s.bufs k) hp.1,
            dataProcessorThread_snd t.env t.node (t.bufs k) hp.1, ← h.env]
          split
          · exact h.node
          · exact h.node.processed hp.2 hp.1 (hranges rfl) (hlog rfl)
      · exact h
  | request trusted conn packet x rnd stale =>
      obtain rfl : trusted = true := by simpa [PeerStep.untrusted] using hst
      rw [step, step]
      split
      · dsimp only
        have hdejavu : (RequestResponseHeader.ofBytes packet).getDejavu < 2 ^ 32 := readLE_lt _ _ _
        cases hticks : readsTicks (RequestResponseHeader.ofBytes packet).type with
        | true =>
            obtain ⟨sends, hsends⟩ := @exists_replyTo_of_readsTicks (s.serving x) conn
              (RequestResponseHeader.ofBytes packet).getDejavu rnd (packet.drop 8 ++ stale) _ hticks
            obtain ⟨sends', hsends'⟩ := @exists_replyTo_of_readsTicks (t.serving x) conn
              (RequestResponseHeader.ofBytes packet).getDejavu rnd (packet.drop 8 ++ stale) _ hticks
            rw [hsends, hsends']
            exact h.sendReplies_ticks hdejavu (replyTo_replies hsends) (replyTo_replies hsends')
        | false =>
            rw [(h.serving x).replyTo hticks]
            split
            · exact h
            · exact h.foldl_both _
      · exact h
  | ownPacket packet => exact h.enqueueSend_both packet
  | query nonce =>
      refine ⟨h.env, h.node, ?_⟩
      change s.answers ++ _ = t.answers ++ _
      rw [h.answers, h.node.responses]
  | clean => exact h.clean
  | elapse seconds =>
      refine ⟨?_, h.node, h.answers⟩
      change { s.env with now := s.env.now + seconds } = { t.env with now := t.env.now + seconds }
      rw [h.env]
  | progress R =>
      refine ⟨?_, h.node, h.answers⟩
      change { s.env with receiver := R } = { t.env with receiver := R }
      rw [h.env]

/-- What a packet of another peer does to the node. -/
theorem step_untrusted (st : PeerStep) (hok : WellFormedStep s st ∧ Screened s st)
    (hst : st.untrusted = true) :
    SignedChange s.env s.node.db (s.step st).node.db ∧
      (s.step st).node.responseSCData = s.node.responseSCData ∧
      (s.step st).answers = s.answers ∧ (s.step st).env = s.env := by
  cases st with
  | data trusted k packet =>
      obtain rfl : trusted = false := by simpa [PeerStep.untrusted] using hst
      obtain ⟨hchange, hresp, hans, henv, -, -⟩ := step_untrusted_data hok.1 hok.2
      exact ⟨hchange, hresp, hans, henv⟩
  | request trusted conn packet x rnd stale =>
      rw [step]
      split
      · dsimp only
        split
        · exact ⟨.unchanged, rfl, rfl, rfl⟩
        · next sends _ =>
            obtain ⟨henv, hdb, hresp, hans⟩ := s.sendReplies_frame trusted
              (readsTicks (RequestResponseHeader.ofBytes packet).type)
              (RequestResponseHeader.ofBytes packet).getDejavu rnd sends
            rw [hdb]
            exact ⟨.unchanged, hresp, hans, henv⟩
      · exact ⟨.unchanged, rfl, rfl, rfl⟩
  | ownPacket packet => cases hst
  | query nonce => cases hst
  | clean => cases hst
  | elapse seconds => cases hst
  | progress R => cases hst

end steps

/-- In every run in which the data packets of the other peers are well formed and the steps meet the
condition, the other peers store nothing but what is signed, and the logs, the log ranges and the
responses of smart contracts are those of the run without their packets. -/
theorem screened_no_injection (s : PeerNode) (steps : List PeerStep)
    (hwf : Runs.Guarded step WellFormedStep s steps)
    (hscr : Runs.Guarded step Screened s steps) : NoInjection s steps := by
  have hok := hwf.and hscr
  constructor
  · rintro before st after rfl hst
    exact step_untrusted st hok.at hst
  · have hstart : InStep s s := ⟨rfl, ⟨rfl, rfl, fun _ _ => rfl⟩, rfl⟩
    have hhidden : ∀ s t st, InStep s t → WellFormedStep s st ∧ Screened s st →
        st.untrusted = true → InStep (s.step st) t :=
      fun _ _ st h hok hst => h.hidden st hok hst
    have hvisible : ∀ s t st, InStep s t → WellFormedStep s st ∧ Screened s st →
        st.untrusted = false → InStep (s.step st) (t.step st) :=
      fun _ _ st h hok hst => h.visible st hok hst
    have h := Runs.run_unwind hhidden hvisible hstart hok
    exact ⟨h.node.stores, h.node.responses, h.answers⟩

def start : PeerNode where
  env := bareReceiver
  node := emptyNode
  bufs := fun _ => []
  answers := []
  replied := fun _ => false

/-- A vote of computor 0. -/
def votePacket : List Byte := [0x68, 1, 0, 3, 0, 0, 0, 0] ++ List.replicate 352 0

/-- A vote from another peer, stored, and a query. -/
def voteAndQuery : List PeerStep := [.data false 0 votePacket, .query 7]

theorem screened_no_injection_vote :
    Runs.Guarded step WellFormedStep start voteAndQuery ∧
      Runs.Guarded step Screened start voteAndQuery ∧
      (dbGetTickVote (start.run voteAndQuery).node.db.ticks 0 0).isSome = true ∧
      NoInjection start voteAndQuery := by
  have htype : (RequestResponseHeader.ofBytes votePacket).type = BROADCAST_TICK_VOTE := by
    decide +kernel
  have hwf : Runs.Guarded step WellFormedStep start voteAndQuery := by
    refine ⟨⟨fun _ => ⟨by decide +kernel, fun _ => by decide +kernel⟩, ?_, ?_, ?_⟩, trivial, trivial⟩
    · exact fun h => absurd (htype.symm.trans h) (by decide)
    · exact fun h => absurd (htype.symm.trans h) (by decide)
    · exact fun h => absurd (htype.symm.trans h) (by decide)
  have hscr : Runs.Guarded step Screened start voteAndQuery :=
    ⟨⟨fun _ h => absurd (htype.symm.trans h) (by decide), nofun, nofun⟩, trivial, trivial⟩
  exact ⟨hwf, hscr, by decide +kernel, screened_no_injection start voteAndQuery hwf hscr⟩

/-- A response of a smart contract from another peer, and a query for its nonce. -/
def forgedResponse : List PeerStep := [.data false 0 [12, 0, 0, 43, 7, 0, 0, 0, 1, 2, 3, 4], .query 7]

/-- The query returns what the other peer has sent. -/
theorem forged_response_returned :
    (start.run forgedResponse).answers = [(7, some [1, 2, 3, 4])] ∧
      Runs.Guarded step WellFormedStep start forgedResponse ∧
      ¬ NoInjection start forgedResponse := by
  have htype : (RequestResponseHeader.ofBytes [12, 0, 0, 43, 7, 0, 0, 0, 1, 2, 3, 4]).type =
      RESPOND_CONTRACT_FUNCTION := by decide
  have hwf : Runs.Guarded step WellFormedStep start forgedResponse := by
    refine ⟨⟨?_, ?_, ?_, ?_⟩, trivial, trivial⟩
    · exact fun h => absurd (htype.symm.trans h) (by decide)
    · exact fun h => absurd (htype.symm.trans h) (by decide)
    · exact fun h => absurd (htype.symm.trans h) (by decide)
    · exact fun h => absurd (htype.symm.trans h) (by decide)
  have hans : (start.run forgedResponse).answers = [(7, some [1, 2, 3, 4])] := by decide +kernel
  refine ⟨hans, hwf, fun h => ?_⟩
  have hsame := h.same.2.2
  rw [hans] at hsame
  exact absurd hsame (by decide +kernel)

end PeerNode

end QubicBob
