import QubicBob.Network.Packet
import QubicBob.Basic.LogEvent
import QubicBob.Storage.TickStore

set_option autoImplicit false

/-! # Reply handlers

The functions `reply…` of `DataProcessors.cpp`: each reads the request behind the header and sends
packets on the connection it is given, most of them closed by an end packet. `ptr` is the memory
behind the header of the request; a request shorter than its struct is followed by what an earlier
packet left in the buffer.

All handlers send by `reply` and by `sendEndPacket`, and this is what is used of them elsewhere:
their packets are `AreReplies`, on one connection, with the dejavu of the request or, for the end
packet, a random one. Only some of them read the stores of ticks, votes and transactions
(`readsTicks`); for the others two nodes that are alike in all else send the same.
-/

namespace QubicBob

/-- What the handlers read: the progress of the node, the computors and the stored records. -/
structure Serving where
  K : KangarooTwelve
  gCurrentVerifyLoggingTick : Nat
  gCurrentProcessingEpoch : Nat
  gInitialTick : Nat
  computorsEpoch : Nat
  computors : List Byte
  tryGetTickData : Nat → Option TickData
  tryGetTickVote : Nat → List TickVote
  tryGetTransaction : List Char → Option (List Byte)
  tryGetLog : Nat → Nat → Option LogEvent
  tryGetLogRanges : Nat → Option (List Byte)

/-- A packet given to `enqueueSend` of a connection. -/
structure Send where
  conn : Conn
  packet : List Byte
  deriving DecidableEq, Repr

/-- The memory image of a vote. -/
def TickVote.bytes (v : TickVote) : List Byte :=
  leBytes 2 v.computorIndex ++ leBytes 2 v.epoch ++ leBytes 4 v.tick
    ++ leBytes 2 v.millisecond ++ leBytes 1 v.second ++ leBytes 1 v.minute ++ leBytes 1 v.hour
    ++ leBytes 1 v.day ++ leBytes 1 v.month ++ leBytes 1 v.year
    ++ leBytes 4 v.prevResourceTestingDigest ++ leBytes 4 v.saltedResourceTestingDigest
    ++ leBytes 4 v.prevTransactionBodyDigest ++ leBytes 4 v.saltedTransactionBodyDigest
    ++ v.prevSpectrumDigest.bytes ++ v.prevUniverseDigest.bytes ++ v.prevComputerDigest.bytes
    ++ v.saltedSpectrumDigest.bytes ++ v.saltedUniverseDigest.bytes ++ v.saltedComputerDigest.bytes
    ++ v.transactionDigest.bytes ++ v.expectedNextTickTransactionDigest.bytes
    ++ leBytes 64 v.signature

section handlers

variable (S : Serving) (conn : Conn) (dejavu : Nat) (rnd : Nat) (ptr : List Byte)

/-- A packet of the given type around a payload. -/
def reply (type : Nat) (payload : List Byte) : Send :=
  ⟨conn, ({ _size := 8 + payload.length, _type := type, _dejavu := dejavu } :
    RequestResponseHeader).bytes ++ payload⟩

/-- `sendEndPacket`: the dejavu `0xffffffff`, also the default, is replaced by a random one. -/
def sendEndPacket : Send :=
  reply conn (if dejavu ≠ 0xffffffff then dejavu else rnd) END_RESPONSE []

/-- The bit of entry `i` in a flag array at `offset`. -/
def flagAt (offset i : Nat) : Bool :=
  (readLE ptr (offset + (i >>> 3)) 1) &&& (1 <<< (i &&& 7)) ≠ 0

def replyTransaction : List Send :=
  match S.tryGetTickData (readLE ptr 0 4) with
  | none => [sendEndPacket conn dejavu rnd]
  | some td =>
      (List.finRange NUMBER_OF_TRANSACTIONS_PER_TICK).filterMap (fun i =>
        if td.transactionDigests i ≠ m256i.zero ∧ flagAt ptr 4 i.val = false then
          (S.tryGetTransaction (getIdentityFromPublicKey S.K (td.transactionDigests i) true)).map
            (reply conn dejavu BROADCAST_TRANSACTION)
        else none)
      ++ [sendEndPacket conn dejavu rnd]

def replyComputorList : List Send :=
  if S.computorsEpoch ≠ 0 then [reply conn dejavu RESPOND_COMPUTOR_LIST S.computors]
  else [sendEndPacket conn dejavu rnd]

def replyTickVotes : List Send :=
  let tick := readLE ptr 0 4
  if S.gCurrentVerifyLoggingTick ≤ tick then [sendEndPacket conn 0xffffffff rnd]
  else
    (S.tryGetTickVote tick).filterMap (fun tv =>
      if tv.epoch ≠ 0 ∧ tv.tick.toNat = tick ∧ flagAt ptr 4 tv.computorIndex.toNat = false then
        some (reply conn dejavu BROADCAST_TICK_VOTE tv.bytes)
      else none)
    ++ [sendEndPacket conn dejavu rnd]

def replyTickData : List Send :=
  let tick := readLE ptr 0 4
  if S.gCurrentVerifyLoggingTick ≤ tick then [sendEndPacket conn 0xffffffff rnd]
  else
    match S.tryGetTickData tick with
    | none => [sendEndPacket conn dejavu rnd]
    | some td => [reply conn dejavu TICK_DATA td.bytes]

/-- The four words of a passcode are all zero. -/
def passcodeIsZero : Bool := (List.range 4).all (fun i => readLE ptr (8 * i) 8 = 0)

/-- The loop `for (i = fromid; i <= toid; i++)` over unsigned 64-bit numbers does not end when
`toid` is the largest of them. -/
def replyLogEvent : Except Halt (List Send) :=
  let fromid := readLE ptr 32 8
  let toid := readLE ptr 40 8
  if passcodeIsZero ptr = false then .ok [sendEndPacket conn 0xffffffff rnd]
  -- the difference wraps round for a `fromid` beyond `toid`
  else if 1000 ≤ (toid + 2 ^ 64 - fromid + 1) % 2 ^ 64 then .ok [sendEndPacket conn 0xffffffff rnd]
  else if toid = 2 ^ 64 - 1 then .error .diverge
  else
    .ok [reply conn dejavu RESPOND_LOG
      ((List.range' fromid (toid + 1 - fromid)).flatMap (fun i =>
        match S.tryGetLog S.gCurrentProcessingEpoch i with
        | none => []
        | some le => le.content.take (le.getLogSize + LogEvent.PackedHeaderSize)))]

def replyLogRange : List Send :=
  let tick := readLE ptr 32 4
  if S.gCurrentVerifyLoggingTick ≤ tick then [sendEndPacket conn 0xffffffff rnd]
  else if passcodeIsZero ptr = false then [sendEndPacket conn 0xffffffff rnd]
  else
    match S.tryGetLogRanges tick with
    | some logRange => [reply conn dejavu LOG_RANGES_PER_TX_IN_TICK logRange]
    | none => [sendEndPacket conn dejavu rnd]

/-- `CurrentTickInfo`: zero until the computors are known. -/
def currentTickInfo : List Byte :=
  if S.computorsEpoch ≠ 0 then
    leBytes 2 (0#16) ++ leBytes 2 (BitVec.ofNat 16 S.gCurrentProcessingEpoch)
      ++ leBytes 4 (BitVec.ofNat 32 (S.gCurrentVerifyLoggingTick + 2 ^ 32 - 1))
      ++ leBytes 2 (0#16) ++ leBytes 2 (0#16) ++ leBytes 4 (BitVec.ofNat 32 S.gInitialTick)
  else List.replicate 16 0

def replyCurrentTickInfo : List Send :=
  [reply conn dejavu RESPOND_CURRENT_TICK_INFO (currentTickInfo S)]

/-- The `switch` of `RequestProcessorThread`. -/
def replyTo (type : Nat) : Except Halt (List Send) :=
  if type = REQUEST_COMPUTOR_LIST then .ok (replyComputorList S conn dejavu rnd)
  else if type = REQUESTED_QUORUM_TICK then .ok (replyTickVotes S conn dejavu rnd ptr)
  else if type = REQUEST_TICK_DATA then .ok (replyTickData S conn dejavu rnd ptr)
  else if type = REQUEST_CURRENT_TICK_INFO then .ok (replyCurrentTickInfo S conn dejavu)
  else if type = REQUEST_TICK_TRANSACTIONS then .ok (replyTransaction S conn dejavu rnd ptr)
  else if type = REQUEST_LOG then replyLogEvent S conn dejavu rnd ptr
  else if type = REQUEST_ALL_LOG_ID_RANGES_FROM_TICK then .ok (replyLogRange S conn dejavu rnd ptr)
  else .ok []

end handlers

/-! ## Where replies go -/

section conn

variable {S : Serving} {conn : Conn} {dejavu rnd : Nat} {ptr : List Byte}

/-- The sends all go to one connection. -/
def OnlyTo (conn : Conn) (sends : List Send) : Prop := ∀ x ∈ sends, x.conn = conn

/-- The sends are replies on one connection, under the dejavu of the request or the random one of an
end packet. -/
def AreReplies (conn : Conn) (dejavu rnd : Nat) (sends : List Send) : Prop :=
  ∀ x ∈ sends, ∃ d type payload, x = reply conn d type payload ∧ (d = dejavu ∨ d = rnd)

theorem AreReplies.onlyTo {sends : List Send} (h : AreReplies conn dejavu rnd sends) :
    OnlyTo conn sends := by
  intro x hx
  obtain ⟨d, type, payload, rfl, -⟩ := h x hx
  rfl

theorem areReplies_reply (type : Nat) (payload : List Byte) :
    AreReplies conn dejavu rnd [reply conn dejavu type payload] := by
  intro x hx
  exact ⟨dejavu, type, payload, List.mem_singleton.mp hx, .inl rfl⟩

theorem areReplies_end : AreReplies conn dejavu rnd [sendEndPacket conn dejavu rnd] := by
  intro x hx
  refine ⟨_, END_RESPONSE, [], List.mem_singleton.mp hx, ?_⟩
  split
  · exact .inl rfl
  · exact .inr rfl

theorem areReplies_endDefault :
    AreReplies conn dejavu rnd [sendEndPacket conn 0xffffffff rnd] := by
  intro x hx
  exact ⟨rnd, END_RESPONSE, [], List.mem_singleton.mp hx, .inr rfl⟩

theorem AreReplies.append {xs ys : List Send} (hxs : AreReplies conn dejavu rnd xs)
    (hys : AreReplies conn dejavu rnd ys) : AreReplies conn dejavu rnd (xs ++ ys) := by
  intro x hx
  rcases List.mem_append.mp hx with hx | hx
  · exact hxs x hx
  · exact hys x hx

theorem areReplies_filterMap {α : Type} {f : α → Option Send} (l : List α)
    (hf : ∀ a x, f a = some x → ∃ type payload, x = reply conn dejavu type payload) :
    AreReplies conn dejavu rnd (l.filterMap f) := by
  intro x hx
  obtain ⟨a, _, ha⟩ := List.mem_filterMap.mp hx
  obtain ⟨type, payload, hreply⟩ := hf a x ha
  exact ⟨dejavu, type, payload, hreply, .inl rfl⟩

theorem replyTransaction_replies :
    AreReplies conn dejavu rnd (replyTransaction S conn dejavu rnd ptr) := by
  unfold replyTransaction
  split
  · exact areReplies_end
  · refine AreReplies.append (areReplies_filterMap _ ?_) areReplies_end
    intro i x hx
    split at hx
    · obtain ⟨txData, _, rfl⟩ := Option.map_eq_some_iff.mp hx
      exact ⟨_, txData, rfl⟩
    · cases hx

theorem replyTickVotes_replies :
    AreReplies conn dejavu rnd (replyTickVotes S conn dejavu rnd ptr) := by
  unfold replyTickVotes
  dsimp only
  split
  · exact areReplies_endDefault
  · refine AreReplies.append (areReplies_filterMap _ ?_) areReplies_end
    intro tv x hx
    split at hx
    · rw [← Option.some.inj hx]
      exact ⟨_, tv.bytes, rfl⟩
    · cases hx

theorem replyTickData_replies :
    AreReplies conn dejavu rnd (replyTickData S conn dejavu rnd ptr) := by
  unfold replyTickData
  dsimp only
  split
  · exact areReplies_endDefault
  · split
    · exact areReplies_end
    · exact areReplies_reply _ _

theorem replyComputorList_replies :
    AreReplies conn dejavu rnd (replyComputorList S conn dejavu rnd) := by
  unfold replyComputorList
  split
  · exact areReplies_reply _ _
  · exact areReplies_end

theorem replyLogRange_replies :
    AreReplies conn dejavu rnd (replyLogRange S conn dejavu rnd ptr) := by
  unfold replyLogRange
  dsimp only
  split
  · exact areReplies_endDefault
  split
  · exact areReplies_endDefault
  split
  · exact areReplies_reply _ _
  · exact areReplies_end

theorem replyLogEvent_replies {sends : List Send}
    (h : replyLogEvent S conn dejavu rnd ptr = .ok sends) : AreReplies conn dejavu rnd sends := by
  unfold replyLogEvent at h
  dsimp only at h
  split at h
  · rw [← Except.ok.inj h]
    exact areReplies_endDefault
  split at h
  · rw [← Except.ok.inj h]
    exact areReplies_endDefault
  split at h
  · cases h
  · rw [← Except.ok.inj h]
    exact areReplies_reply _ _

theorem replyTo_replies {type : Nat} {sends : List Send}
    (h : replyTo S conn dejavu rnd ptr type = .ok sends) : AreReplies conn dejavu rnd sends := by
  unfold replyTo at h
  split at h
  · rw [← Except.ok.inj h]; exact replyComputorList_replies
  split at h
  · rw [← Except.ok.inj h]; exact replyTickVotes_replies
  split at h
  · rw [← Except.ok.inj h]; exact replyTickData_replies
  split at h
  · rw [← Except.ok.inj h]; exact areReplies_reply _ _
  split at h
  · rw [← Except.ok.inj h]; exact replyTransaction_replies
  split at h
  · exact replyLogEvent_replies h
  split at h
  · rw [← Except.ok.inj h]; exact replyLogRange_replies
  · rw [← Except.ok.inj h]
    exact fun x hx => absurd hx List.not_mem_nil

/-- A handler sends on the connection it is given and on no other. -/
theorem replyTo_conn {type : Nat} {sends : List Send}
    (h : replyTo S conn dejavu rnd ptr type = .ok sends) : OnlyTo conn sends :=
  (replyTo_replies h).onlyTo

end conn

/-! ## Replies that need no ticks -/

section sameLogs

variable {S S' : Serving} {conn : Conn} {dejavu rnd : Nat} {ptr : List Byte}

/-- The handlers of these requests read tick data, votes or transactions. -/
def readsTicks (type : Nat) : Bool :=
  type = REQUESTED_QUORUM_TICK ∨ type = REQUEST_TICK_DATA ∨ type = REQUEST_TICK_TRANSACTIONS

/-- Two nodes that may differ in their ticks and transactions only. -/
def Serving.AlikeButTicks (S S' : Serving) : Prop :=
  S' = { S with
    tryGetTickData := S'.tryGetTickData
    tryGetTickVote := S'.tryGetTickVote
    tryGetTransaction := S'.tryGetTransaction }

theorem Serving.AlikeButTicks.replyTo (h : S.AlikeButTicks S') {type : Nat}
    (htype : readsTicks type = false) :
    QubicBob.replyTo S' conn dejavu rnd ptr type = QubicBob.replyTo S conn dejavu rnd ptr type := by
  rw [readsTicks, decide_eq_false_iff_not, not_or, not_or] at htype
  obtain ⟨hvotes, hdata, htransactions⟩ := htype
  rw [h]
  unfold QubicBob.replyTo
  rw [if_neg hvotes, if_neg hdata, if_neg htransactions, if_neg hvotes, if_neg hdata,
    if_neg htransactions]
  rfl

/-- A request for ticks is answered in any case. -/
theorem exists_replyTo_of_readsTicks {type : Nat} (htype : readsTicks type = true) :
    ∃ sends, replyTo S conn dejavu rnd ptr type = .ok sends := by
  rw [readsTicks, decide_eq_true_eq] at htype
  rcases htype with rfl | rfl | rfl
  · exact ⟨_, rfl⟩
  · exact ⟨_, rfl⟩
  · exact ⟨_, rfl⟩

end sameLogs

end QubicBob
