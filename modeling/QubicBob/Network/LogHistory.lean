import QubicBob.Network.LogFetcher
import QubicBob.Network.Trust

set_option autoImplicit false

/-! # Log ranges and logs at the other nodes

What the nodes that `EventRequestFromTrustedNode` asks have of an epoch: for each tick one struct of
log ranges, and under each id one log (`LogHistory`). A node may have any part of it and be at any
tick (`Serves`). What such a node sends in answer to a request of the fetcher is an end packet, one of
these structs, or a chunk of these logs (`answer_cases`), and what the data thread makes of it is in
`processData_answer`.
-/

namespace QubicBob

/-- The log ranges and the logs of an epoch. -/
structure LogHistory (K : KangarooTwelve) where
  epoch : Nat
  /-- the struct `LogRangesPerTxInTick` of a tick -/
  ranges : Nat → Option (List Byte)
  log : Nat → Option LogEvent
  ranges_length : ∀ {tick b}, ranges tick = some b → b.length = LogRangesPerTxInTick.sizeOf
  ranges_accepted : ∀ {tick b}, ranges tick = some b →
    (LogRangesPerTxInTick.ofBytes b).accepted = true
  ranges_end : ∀ {tick b}, ranges tick = some b → ∀ r ∈ (LogRangesPerTxInTick.ofBytes b).used,
    r.1 + r.2 < LLONG_MAX
  log_id : ∀ {id le}, log id = some le → le.getLogId = id
  log_checked : ∀ {id le}, log id = some le → le.selfCheck K epoch = true
  /-- a chunk of logs fits into a packet -/
  log_short : ∀ {id le}, log id = some le → le.content.length ≤ 2 ^ 16

/-- The summary of the struct of a tick. -/
def LogHistory.summary {K : KangarooTwelve} (H : LogHistory K) (tick : Nat) : Option (Int × Int) :=
  (H.ranges tick).map fun b => (LogRangesPerTxInTick.ofBytes b).summary

theorem LogHistory.ranges_fit {K : KangarooTwelve} (H : LogHistory K) {tick : Nat} {b : List Byte}
    (h : H.ranges tick = some b) : (LogRangesPerTxInTick.ofBytes b).Fits := by
  intro r hr
  have hnonneg := LogRangesPerTxInTick.nonneg_of_accepted (H.ranges_accepted h) r hr
  have hend := H.ranges_end h r hr
  rw [LLONG_MAX] at hend
  omega

/-- A node of the epoch has no other structs and logs than these. -/
structure LogHistory.Serves {K : KangarooTwelve} (H : LogHistory K) (S : Serving) : Prop where
  epoch : S.gCurrentProcessingEpoch = H.epoch
  ranges : ∀ {tick b}, S.tryGetLogRanges tick = some b → H.ranges tick = some b
  log : ∀ {id le}, S.tryGetLog H.epoch id = some le → H.log id = some le

/-! ## The packets of requests -/

section packets

variable {a : AskedRequest} {tick : Nat} {fromid toid : Int}

theorem readLE_tick (passcode : m256i) (padding : BitVec 32) :
    readLE ((LogRequest.RequestAllLogIdRangesFromTick tick).bytes passcode padding) 32 4 =
      tick % 2 ^ 32 := by
  rw [← BitVec.toNat_ofNat]
  exact (readLE_skip (by decide)).trans (readLE_front rfl)

theorem readLE_fromid (passcode : m256i) (padding : BitVec 32) :
    readLE ((LogRequest.RequestLog fromid toid).bytes passcode padding) 32 8 =
      (BitVec.ofInt 64 fromid).toNat :=
  (readLE_skip (by decide)).trans (readLE_front rfl)

theorem readLE_toid (passcode : m256i) (padding : BitVec 32) :
    readLE ((LogRequest.RequestLog fromid toid).bytes passcode padding) 40 8 =
      (BitVec.ofInt 64 toid).toNat :=
  calc readLE ((LogRequest.RequestLog fromid toid).bytes passcode padding) 40 8
      = readLE (leBytes 8 (BitVec.ofInt 64 fromid) ++ leBytes 8 (BitVec.ofInt 64 toid)) 8 8 :=
        readLE_skip (by decide)
    _ = readLE (leBytes 8 (BitVec.ofInt 64 toid)) 0 8 := readLE_skip (by decide)
    _ = (BitVec.ofInt 64 toid).toNat := readLE_last rfl

/-- A request for log ranges, and no other, has the length `processLogRanges` looks for. -/
theorem AskedRequest.length_packet (a : AskedRequest) : a.packet.length =
    match a.request with
    | .RequestAllLogIdRangesFromTick _ => 48
    | .RequestLog _ _ => 56 := by
  rw [AskedRequest.packet, length_enqueueWithHeader]
  cases a.request with
  | RequestAllLogIdRangesFromTick tick =>
      simp only [LogRequest.bytes, m256i.bytes, List.length_append, length_leBytes]
  | RequestLog fromid toid =>
      simp only [LogRequest.bytes, m256i.bytes, List.length_append, length_leBytes]

/-- The tick `processLogRanges` finds in a request for log ranges. -/
theorem AskedRequest.readLE_packet (ha : a.request = .RequestAllLogIdRangesFromTick tick) :
    readLE a.packet 40 4 = tick % 2 ^ 32 := by
  have hdrop := readLE_drop a.packet 8 32 4
  rw [AskedRequest.packet, drop_enqueueWithHeader, ha, readLE_tick] at hdrop
  rw [AskedRequest.packet, ha]
  exact hdrop.symm

end packets

/-! ## Answers -/

section answers

variable {K : KangarooTwelve} {H : LogHistory K} {S : Serving} {a : AskedRequest}
  {packet : List Byte}

/-- A node of the epoch sends this packet when it answers the request. -/
def LogHistory.AnswerTo (H : LogHistory K) (a : AskedRequest) (packet : List Byte) : Prop :=
  ∃ S conn rnd sends, H.Serves S ∧
    replyTo S conn a.dejavu.toNat rnd (a.packet.drop 8) a.request.type = .ok sends ∧
    ⟨conn, packet⟩ ∈ sends

theorem type_end (conn : Conn) (dejavu rnd : Nat) :
    (RequestResponseHeader.ofBytes (sendEndPacket conn dejavu rnd).packet).type = END_RESPONSE :=
  (reply_header conn _ END_RESPONSE [] (by decide) (by decide)).1

/-- The logs a node has of a request for one chunk are at most 128. -/
theorem length_storedLogs (fromid toid : Int)
    (h : (LogRequest.RequestLog fromid toid).OneChunk) :
    (storedLogs S (BitVec.ofInt 64 fromid).toNat (BitVec.ofInt 64 toid).toNat).length ≤ 128 := by
  obtain ⟨hle, hlt⟩ := h
  rw [BOB_LOG_EVENT_CHUNK_SIZE] at hlt
  refine (List.length_filterMap_le _ _).trans ?_
  rw [List.length_range', BitVec.toNat_ofInt, BitVec.toNat_ofInt]
  omega

theorem length_flatMap_content {logs : List LogEvent} {n : Nat} (hn : logs.length ≤ n)
    (hshort : ∀ le ∈ logs, le.content.length ≤ 2 ^ 16) :
    (logs.flatMap LogEvent.content).length ≤ n * 2 ^ 16 := by
  have hsum : ((logs.map LogEvent.content).map List.length).sum ≤ logs.length * 2 ^ 16 := by
    have hle := List.sum_le_card_nsmul ((logs.map LogEvent.content).map List.length) (2 ^ 16)
      (fun x hx => ?_)
    · simpa using hle
    · obtain ⟨c, hc, rfl⟩ := List.mem_map.mp hx
      obtain ⟨le, hle, rfl⟩ := List.mem_map.mp hc
      exact hshort le hle
  calc (logs.flatMap LogEvent.content).length
      = ((logs.map LogEvent.content).map List.length).sum := by
        rw [List.flatMap_def, List.length_flatten]
    _ ≤ logs.length * 2 ^ 16 := hsum
    _ ≤ n * 2 ^ 16 := Nat.mul_le_mul_right _ hn

theorem replyTo_logRange (conn : Conn) (dejavu rnd : Nat) (ptr : List Byte) :
    replyTo S conn dejavu rnd ptr REQUEST_ALL_LOG_ID_RANGES_FROM_TICK =
      .ok (replyLogRange S conn dejavu rnd ptr) := by
  rw [replyTo, if_neg (by decide), if_neg (by decide), if_neg (by decide), if_neg (by decide),
    if_neg (by decide), if_neg (by decide), if_pos rfl]

theorem replyTo_log (conn : Conn) (dejavu rnd : Nat) (ptr : List Byte) :
    replyTo S conn dejavu rnd ptr REQUEST_LOG = replyLogEvent S conn dejavu rnd ptr := by
  rw [replyTo, if_neg (by decide), if_neg (by decide), if_neg (by decide), if_neg (by decide),
    if_neg (by decide), if_pos rfl]

/-- A request for logs is refused, or answered with the stored logs of its range. -/
theorem replyLogEvent_cases {conn : Conn} {dejavu rnd : Nat} {ptr : List Byte} {sends : List Send}
    (h : replyLogEvent S conn dejavu rnd ptr = .ok sends) :
    sends = [sendEndPacket conn 0xffffffff rnd] ∨
      sends = [reply conn dejavu RESPOND_LOG
        ((storedLogs S (readLE ptr 32 8) (readLE ptr 40 8)).flatMap packedLog)] := by
  by_cases hrefused : passcodeIsZero ptr = false ∨
      1000 ≤ (readLE ptr 40 8 + 2 ^ 64 - readLE ptr 32 8 + 1) % 2 ^ 64
  · rw [(replyLogEventWithin_refused hrefused 0).2] at h
    exact .inl (Except.ok.inj h).symm
  rw [not_or, Bool.not_eq_false, not_le] at hrefused
  by_cases htop : readLE ptr 40 8 < 2 ^ 64 - 1
  · rw [replyLogEvent_eq hrefused.1 hrefused.2 htop] at h
    exact .inr (Except.ok.inj h).symm
  · have hto : readLE ptr 40 8 < 2 ^ 64 := readLE_lt _ _ _
    rw [replyLogEvent, hrefused.1, if_neg (by decide), if_neg (not_le.mpr hrefused.2),
      if_pos (by omega)] at h
    cases h

/-- The logs of an answer are logs of the epoch under their ids. -/
theorem LogHistory.Serves.storedLogs (hS : H.Serves S) {fromid toid : Nat} {le : LogEvent}
    (h : le ∈ QubicBob.storedLogs S fromid toid) : H.log le.getLogId = some le := by
  obtain ⟨id, -, -, hget⟩ := mem_storedLogs.mp h
  rw [hS.epoch] at hget
  have hlog := hS.log hget
  rw [H.log_id hlog]
  exact hlog

/-- What an answer can be: an end packet, a chunk of logs, or the struct of the tick asked for. -/
theorem answer_cases (h : H.AnswerTo a packet) :
    (RequestResponseHeader.ofBytes packet).type = END_RESPONSE ∨
    ((RequestResponseHeader.ofBytes packet).type = RESPOND_LOG ∧
      ∃ logs : List LogEvent, (∀ le ∈ logs, H.log le.getLogId = some le) ∧
        packet.drop 8 = logs.flatMap LogEvent.content) ∨
    ((RequestResponseHeader.ofBytes packet).type = LOG_RANGES_PER_TX_IN_TICK ∧
      ∃ tick b, a.request = .RequestAllLogIdRangesFromTick tick ∧
        H.ranges (tick % 2 ^ 32) = some b ∧
        packet = enqueueWithHeader a.dejavu.toNat LOG_RANGES_PER_TX_IN_TICK b) := by
  obtain ⟨S, conn, rnd, sends, hS, hreply, hmem⟩ := h
  have hend : ∀ dejavu, (⟨conn, packet⟩ : Send) ∈ [sendEndPacket conn dejavu rnd] →
      (RequestResponseHeader.ofBytes packet).type = END_RESPONSE := by
    intro dejavu hp
    rw [← type_end conn dejavu rnd, ← List.mem_singleton.mp hp]
  rw [AskedRequest.packet, drop_enqueueWithHeader] at hreply
  cases hreq : a.request with
  | RequestAllLogIdRangesFromTick tick =>
      rw [hreq, LogRequest.type, replyTo_logRange] at hreply
      rw [← Except.ok.inj hreply] at hmem
      unfold replyLogRange at hmem
      dsimp only at hmem
      split at hmem
      · exact .inl (hend _ hmem)
      split at hmem
      · exact .inl (hend _ hmem)
      split at hmem
      · next b hb =>
        have hrange := hS.ranges hb
        rw [readLE_tick] at hrange
        obtain rfl : packet = (reply conn a.dejavu.toNat LOG_RANGES_PER_TX_IN_TICK b).packet :=
          congrArg Send.packet (List.mem_singleton.mp hmem)
        have hlen := H.ranges_length hrange
        rw [LogRangesPerTxInTick.sizeOf] at hlen
        exact .inr (.inr ⟨(reply_header conn _ _ b (by decide) (by omega)).1, tick, b, rfl, hrange,
          reply_eq_enqueueWithHeader conn _ _ b⟩)
      · exact .inl (hend _ hmem)
  | RequestLog fromid toid =>
      have hchunk : (LogRequest.RequestLog fromid toid).OneChunk := hreq ▸ a.oneChunk
      rw [hreq, LogRequest.type, replyTo_log] at hreply
      rcases replyLogEvent_cases hreply with rfl | rfl
      · exact .inl (hend _ hmem)
      rw [readLE_fromid, readLE_toid] at hmem
      have hchunk' := @length_storedLogs S fromid toid hchunk
      generalize hsent : storedLogs S (BitVec.ofInt 64 fromid).toNat (BitVec.ofInt 64 toid).toNat =
        logs at hmem hchunk'
      have hlogs : ∀ le ∈ logs, H.log le.getLogId = some le :=
        fun le hle => hS.storedLogs (hsent ▸ hle)
      have hpacked : logs.flatMap packedLog = logs.flatMap LogEvent.content :=
        List.flatMap_congr fun le hle => packedLog_of_selfCheck (H.log_checked (hlogs le hle))
      have hlen := length_flatMap_content hchunk' fun le hle => H.log_short (hlogs le hle)
      rw [hpacked] at hmem
      obtain rfl := congrArg Send.packet (List.mem_singleton.mp hmem)
      exact .inr (.inl ⟨(reply_header conn _ _ _ (by decide) (by omega)).1, logs, hlogs,
        drop_reply conn _ _ _⟩)

end answers

/-! ## What the data thread makes of an answer -/

section stores

variable {K : KangarooTwelve} {H : LogHistory K} {env : DataReceiver} {node : DataNode}
  {a : AskedRequest} {packet : List Byte} {db : DataStore} {T I : Nat → Prop}

/-- The log ranges and logs of the database are those of the epoch, and a tick with a struct has its
summary. -/
structure LogHistory.Holds (H : LogHistory K) (db : DataStore) : Prop where
  ranges : ∀ {tick b}, db.logRanges tick = some b → H.ranges tick = some b
  summary : ∀ {tick r}, db.tickLogRange tick = some r → H.summary tick = some r
  both : ∀ {tick}, (db.logRanges tick).isSome = true → (db.tickLogRange tick).isSome = true
  logs : ∀ {id c}, db.logs H.epoch id = some c → ∃ le, H.log id = some le ∧ c = le.content

/-- The same for some ticks and some ids only. -/
structure LogHistory.HoldsOn (H : LogHistory K) (T I : Nat → Prop) (db : DataStore) : Prop where
  ranges : ∀ {tick b}, T tick → db.logRanges tick = some b → H.ranges tick = some b
  summary : ∀ {tick r}, T tick → db.tickLogRange tick = some r → H.summary tick = some r
  both : ∀ {tick}, T tick → (db.logRanges tick).isSome = true → (db.tickLogRange tick).isSome = true
  logs : ∀ {id c}, I id → db.logs H.epoch id = some c → ∃ le, H.log id = some le ∧ c = le.content

theorem LogHistory.holds_iff_holdsOn :
    H.Holds db ↔ H.HoldsOn (fun _ => True) (fun _ => True) db :=
  ⟨fun h => ⟨fun _ => h.ranges, fun _ => h.summary, fun _ => h.both, fun _ => h.logs⟩,
    fun h => ⟨h.ranges trivial, h.summary trivial, h.both trivial, h.logs trivial⟩⟩

/-- The second database has every struct and every log of the epoch that the first one has. -/
structure DataStore.LogsGrow (epoch : Nat) (db db' : DataStore) : Prop where
  ranges : ∀ {tick}, (db.logRanges tick).isSome = true → (db'.logRanges tick).isSome = true
  logs : ∀ {id}, (db.logs epoch id).isSome = true → (db'.logs epoch id).isSome = true

theorem DataStore.LogsGrow.refl (epoch : Nat) (db : DataStore) : db.LogsGrow epoch db :=
  ⟨id, id⟩

/-- Both are about the log stores only. -/
theorem LogHistory.HoldsOn.of_logStores {db' : DataStore} (h : H.HoldsOn T I db)
    (heq : db'.logStores = db.logStores) : H.HoldsOn T I db' ∧ db.LogsGrow H.epoch db' := by
  obtain ⟨hlogs, -, hranges, hsummary⟩ := logStores_fields heq
  refine ⟨⟨fun ht hb => h.ranges ht ?_, fun ht hr => h.summary ht ?_, fun ht hb => ?_,
    fun hi hc => h.logs hi ?_⟩, ?_⟩
  · rwa [← hranges]
  · rwa [← hsummary]
  · rw [hsummary]
    rw [hranges] at hb
    exact h.both ht hb
  · rwa [← hlogs]
  · exact ⟨fun hb => by rwa [hranges], fun hb => by rwa [hlogs]⟩

/-- The other packets leave the log stores and the noted requests alone. -/
theorem processData_other {mem : List Byte} {size type : Nat} (hlog : type ≠ RESPOND_LOG)
    (hranges : type ≠ LOG_RANGES_PER_TX_IN_TICK) :
    (processData env node mem size type).2.db.logStores = node.db.logStores ∧
      (processData env node mem size type).2.requestMapperFrom = node.requestMapperFrom := by
  unfold processData
  split
  · exact ⟨rfl, rfl⟩
  split
  · exact ⟨rfl, rfl⟩
  split
  · exact ⟨processTransaction_signed.logStores, processTransaction_maps.2⟩
  -- the branches of the two excluded types are gone
  split
  · exact ⟨rfl, rfl⟩
  · exact ⟨rfl, rfl⟩

theorem LogHistory.HoldsOn.processData_other {mem : List Byte} {size type : Nat}
    (h : H.HoldsOn T I node.db) (hlog : type ≠ RESPOND_LOG)
    (hranges : type ≠ LOG_RANGES_PER_TX_IN_TICK) :
    H.HoldsOn T I (processData env node mem size type).2.db ∧
      node.db.LogsGrow H.epoch (processData env node mem size type).2.db ∧
      (processData env node mem size type).2.requestMapperFrom = node.requestMapperFrom := by
  obtain ⟨hstores, hmap⟩ := @QubicBob.processData_other env node mem size type hlog hranges
  obtain ⟨hholds, hgrow⟩ := h.of_logStores hstores
  exact ⟨hholds, hgrow, hmap⟩

/-- A struct that passes the checks is stored where there is none, and its summary in any case. -/
theorem dbInsertLogRange_of_accepted {b : List Byte} (tick : Nat)
    (hlen : b.length = LogRangesPerTxInTick.sizeOf)
    (h : (LogRangesPerTxInTick.ofBytes b).accepted = true) :
    db.dbInsertLogRange tick b = { db with
      logRanges := Function.update db.logRanges tick (setNX (db.logRanges tick) b)
      tickLogRange := Function.update db.tickLogRange tick
        (some (LogRangesPerTxInTick.ofBytes b).summary) } := by
  rw [LogRangesPerTxInTick.accepted, LogRangesPerTxInTick.isZero_ofBytes (by rw [hlen]; rfl),
    LogRangesPerTxInTick.used_ofBytes, Bool.and_eq_true, Bool.not_eq_true', Bool.not_eq_true'] at h
  rw [DataStore.dbInsertLogRange, LogRangesPerTxInTick.summary, LogRangesPerTxInTick.used_ofBytes,
    h.1, if_neg (by decide), h.2, if_neg (by decide)]

theorem LogHistory.HoldsOn.insertLogRange (h : H.HoldsOn T I db) {tick : Nat} {b : List Byte}
    (hb : H.ranges tick = some b) :
    H.HoldsOn T I (db.dbInsertLogRange tick b) ∧
      db.LogsGrow H.epoch (db.dbInsertLogRange tick b) ∧
      ((db.dbInsertLogRange tick b).logRanges tick).isSome = true := by
  rw [dbInsertLogRange_of_accepted tick (H.ranges_length hb) (H.ranges_accepted hb)]
  have hsetNX : (setNX (db.logRanges tick) b).isSome = true := by
    cases db.logRanges tick with
    | none => rfl
    | some old => rfl
  refine ⟨⟨fun {t c} hT hc => ?_, fun {t r} hT hr => ?_, fun {t} hT hsome => ?_, h.logs⟩,
    ⟨fun {t} hsome => ?_, id⟩, ?_⟩
  · by_cases ht : t = tick
    · subst ht
      dsimp only at hc
      rw [Function.update_self] at hc
      cases hold : db.logRanges t with
      | none =>
          rw [hold, setNX] at hc
          rw [← Option.some.inj hc, hb]
      | some old =>
          rw [hold, setNX] at hc
          rw [← Option.some.inj hc]
          exact h.ranges hT hold
    · dsimp only at hc
      rw [Function.update_of_ne ht] at hc
      exact h.ranges hT hc
  · by_cases ht : t = tick
    · subst ht
      dsimp only at hr
      rw [Function.update_self] at hr
      rw [LogHistory.summary, hb, ← hr]
      rfl
    · dsimp only at hr
      rw [Function.update_of_ne ht] at hr
      exact h.summary hT hr
  · by_cases ht : t = tick
    · subst ht
      dsimp only
      rw [Function.update_self]
      rfl
    · dsimp only at hsome ⊢
      rw [Function.update_of_ne ht] at hsome ⊢
      exact h.both hT hsome
  · by_cases ht : t = tick
    · subst ht
      dsimp only
      rw [Function.update_self]
      exact hsetNX
    · dsimp only
      rw [Function.update_of_ne ht]
      exact hsome
  · dsimp only
    rw [Function.update_self]
    exact hsetNX

/-- A chunk of logs of the epoch. -/
theorem LogHistory.HoldsOn.storeEvents (h : H.HoldsOn T I db) {logs : List LogEvent}
    (hlogs : ∀ le ∈ logs, H.log le.getLogId = some le) (latest : Nat → Int) :
    let db' : DataStore := { QubicBob.storeEvents db logs with latestLogId := latest }
    H.HoldsOn T I db' ∧ db.LogsGrow H.epoch db' ∧
      ∀ le ∈ logs, (db'.logs H.epoch le.getLogId).isSome = true := by
  have hepoch : ∀ le ∈ logs, le.getEpoch = H.epoch := fun le hle =>
    (LogEvent.selfCheck_spec (H.log_checked (hlogs le hle))).2.1
  have hframe := storeEvents_frame db logs
  have hranges : (QubicBob.storeEvents db logs).logRanges = db.logRanges := by rw [hframe]
  have hsummary : (QubicBob.storeEvents db logs).tickLogRange = db.tickLogRange := by rw [hframe]
  dsimp only
  rw [hranges, hsummary]
  refine ⟨⟨h.ranges, h.summary, h.both, fun {id c} hI hc => ?_⟩, ⟨id, fun {id} hsome => ?_⟩,
    fun le hle => ?_⟩
  · dsimp only at hc
    rw [storeEvents_logs, Option.or_eq_some_iff] at hc
    rcases hc with hc | ⟨-, hc⟩
    · exact h.logs hI hc
    · obtain ⟨le, hfind, rfl⟩ := Option.map_eq_some_iff.mp hc
      have hkey := List.find?_some hfind
      obtain ⟨-, hid⟩ := of_decide_eq_true hkey
      have hlog := hlogs le (List.mem_of_find?_eq_some hfind)
      rw [hid] at hlog
      exact ⟨le, hlog, rfl⟩
  · dsimp only
    rw [storeEvents_logs, Option.isSome_or, hsome, Bool.true_or]
  · rw [storeEvents_logs, Option.isSome_or, Bool.or_eq_true, Option.isSome_map]
    exact .inr (List.find?_isSome.mpr ⟨le, hle, decide_eq_true ⟨hepoch le hle, rfl⟩⟩)

/-- Where the dejavu of a request for log ranges stands for a packet of its length, it is this
request. -/
def AskedRequest.Noted (a : AskedRequest) (m : RequestMap) : Prop :=
  ∀ data, m.get a.dejavu.toNat = some data → a.packet.length = 48 → data.length = 48 →
    data = a.packet

theorem header_enqueueWithHeader (dejavu type : Nat) (buffer : List Byte) (htype : type < 2 ^ 8)
    (h : 8 + buffer.length < 2 ^ 24) :
    (RequestResponseHeader.ofBytes (enqueueWithHeader dejavu type buffer)).type = type ∧
      (RequestResponseHeader.ofBytes (enqueueWithHeader dejavu type buffer)).size =
        8 + buffer.length := by
  obtain ⟨htype', hsize⟩ := reply_header 0 dejavu type buffer htype h
  rw [reply_eq_enqueueWithHeader] at htype' hsize
  exact ⟨htype', hsize.trans (length_enqueueWithHeader dejavu type buffer)⟩

/-- A struct that comes in answer to a request for log ranges is inserted for the tick of the request. -/
theorem processData_logRanges {b : List Byte} (hlen : b.length = LogRangesPerTxInTick.sizeOf)
    (dejavu : BitVec 32) (stale : List Byte) :
    let packet := enqueueWithHeader dejavu.toNat LOG_RANGES_PER_TX_IN_TICK b
    let request := (node.requestMapperFrom.get dejavu.toNat).getD []
    (processData env node (packet ++ stale) packet.length LOG_RANGES_PER_TX_IN_TICK).2 =
      if request.length = 48 then
        { node with db := node.db.dbInsertLogRange (readLE request 40 4) b }
      else node := by
  intro packet request
  have hpacket : packet.length = 8 + LogRangesPerTxInTick.sizeOf :=
    (length_enqueueWithHeader _ _ _).trans (congrArg (8 + ·) hlen)
  have hsize : (RequestResponseHeader.ofBytes packet).size = 8 + LogRangesPerTxInTick.sizeOf :=
    (header_enqueueWithHeader _ _ b (by decide) (by rw [hlen]; decide)).2.trans
      (congrArg (8 + ·) hlen)
  have hslice : Ring.slice (packet ++ stale) 8 LogRangesPerTxInTick.sizeOf = b := by
    rw [slice_append hpacket.ge, Ring.slice, drop_enqueueWithHeader, List.take_of_length_le hlen.le]
  have hprocess : (processData env node (packet ++ stale) packet.length
      LOG_RANGES_PER_TX_IN_TICK).2 = (processLogRanges node (packet ++ stale)).2 := rfl
  rw [hprocess, processLogRanges, ofBytes_append (by omega), hsize, hslice,
    dejavu_enqueueWithHeader dejavu LOG_RANGES_PER_TX_IN_TICK b]
  split
  · next hfit => rw [if_pos hfit.1]
  · next hfit => rw [if_neg fun h => hfit ⟨h, rfl⟩]

/-- **An answer of a node of the epoch** adds to the log stores what is of the epoch. -/
theorem processData_answer (hK : env.K = K)
    (hepoch : env.receiver.gCurrentProcessingEpoch.toNat = H.epoch) (h : H.HoldsOn T I node.db)
    (hanswer : H.AnswerTo a packet) (hnoted : a.Noted node.requestMapperFrom)
    (hsize : (RequestResponseHeader.ofBytes packet).size = packet.length)
    (h8 : 8 ≤ packet.length) (stale : List Byte) :
    let r := (processData env node (packet ++ stale) packet.length
      (RequestResponseHeader.ofBytes packet).type).2
    H.HoldsOn T I r.db ∧ node.db.LogsGrow H.epoch r.db ∧
      r.requestMapperFrom = node.requestMapperFrom := by
  dsimp only
  rcases answer_cases hanswer with htype | ⟨htype, logs, hlogs, hdrop⟩ |
    ⟨htype, tick, b, hreq, hb, rfl⟩
  · rw [htype]
    exact h.processData_other (by decide) (by decide)
  · have hwhole : wholeEvents env.K env.receiver.gCurrentProcessingEpoch.toNat (packet.drop 8) =
        (logs, []) := by
      rw [hK, hepoch, hdrop]
      exact wholeEvents_flatMap logs fun le hle => H.log_checked (hlogs le hle)
    have hclean : EndsClean env.K env.receiver.gCurrentProcessingEpoch.toNat (packet.drop 8) := by
      rw [EndsClean, hwhole]
      exact .inl rfl
    have hdb := @processLogEvent_db env node packet stale h8 hclean
    rw [htype]
    have hprocess : (processData env node (packet ++ stale) packet.length RESPOND_LOG).2 =
        (processLogEvent env node (packet ++ stale) (packet.length - 8)).2 := rfl
    rw [hprocess, hdb, hwhole, dbUpdateLatestLogId_frame]
    obtain ⟨hholds, hgrow, -⟩ := h.storeEvents hlogs
      ((QubicBob.storeEvents node.db logs).dbUpdateLatestLogId
        env.receiver.gCurrentProcessingEpoch.toNat (maxLogId logs)).latestLogId
    exact ⟨hholds, hgrow, rfl⟩
  · rw [htype]
    have hstored := @processData_logRanges env node b (H.ranges_length hb) a.dejavu stale
    dsimp only at hstored
    rw [hstored]
    split
    · next hfit =>
      have hpacket : (node.requestMapperFrom.get a.dejavu.toNat).getD [] = a.packet := by
        cases hget : node.requestMapperFrom.get a.dejavu.toNat with
        | none =>
            rw [hget] at hfit
            exact absurd hfit (by decide)
        | some data =>
            rw [hget] at hfit
            exact hnoted data hget (by rw [AskedRequest.length_packet, hreq]) hfit
      rw [hpacket, AskedRequest.readLE_packet hreq]
      obtain ⟨hholds, hgrow, -⟩ := h.insertLogRange hb
      exact ⟨hholds, hgrow, rfl⟩
    · exact ⟨h, .refl _ _, rfl⟩

end stores

end QubicBob
