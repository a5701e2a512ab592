import QubicBob.Consensus.TickNode
import QubicBob.Network.StructBytes
import QubicBob.Network.TickRequests

set_option autoImplicit false

/-! # Requests and answers about ticks

What is in the answer of another node to a request of `IORequestThread`, what a data thread makes of
a packet of it, and what any step of the node does to the votes of a tick.

A vote can be missing at the requester for two reasons only: it was flagged in the request, or its
packet was not taken. The bits of a request are read back as they were written, so a vote that is
stored at the other node and not flagged is in the answer; and a packet of the answer is a packet
like any other, whose handler stores a vote of the right epoch with a good signature. What happens
in between does no harm as the keys of votes are written with `NX`: the votes of a tick only grow
unless the tick is cleaned (`VotesGrow`).
-/

namespace QubicBob

open FlagBytes

/-! ## Answers -/

section answers

variable {S : Serving} {conn : Conn} {dejavu rnd : Nat} {ptr : List Byte}

/-- A vote of the tick that is not flagged is in the answer. -/
theorem mem_replyTickVotes {tv : TickVote} (hpast : ¬ S.gCurrentVerifyLoggingTick ≤ readLE ptr 0 4)
    (htv : tv ∈ S.tryGetTickVote (readLE ptr 0 4)) (hepoch : tv.epoch ≠ 0)
    (htick : tv.tick.toNat = readLE ptr 0 4) (hflag : flagAt ptr 4 tv.computorIndex.toNat = false) :
    reply conn dejavu BROADCAST_TICK_VOTE tv.bytes ∈ replyTickVotes S conn dejavu rnd ptr := by
  rw [replyTickVotes, if_neg hpast]
  exact List.mem_append_left _ (List.mem_filterMap.mpr ⟨tv, htv, if_pos ⟨hepoch, htick, hflag⟩⟩)

theorem readLE_byte (bytes : List Byte) (k : Nat) : readLE bytes k 1 = (bytes.getD k 0).toNat := by
  rw [readLE, List.getD_eq_getElem?_getD, ← List.head?_drop]
  cases bytes.drop k with
  | nil => rfl
  | cons b rest => rfl

/-- The flag of a request, as the other node tests it. -/
theorem flagAt_eq {front flags rest : List Byte} {i : Nat} (hi : i < 8 * flags.length) :
    flagAt (front ++ (flags ++ rest)) front.length i = testFlag flags i := by
  have hbyte : i >>> 3 < flags.length := by
    rw [shiftRight_three]
    omega
  rw [flagAt, testFlag, flagByte, readLE_append_right rfl (Nat.le_add_right _ _),
    Nat.add_sub_cancel_left, readLE_byte, List.getD_append _ _ _ _ hbyte]

/-- A request for votes in the memory of the other node. -/
theorem readLE_quorum (rqt : BitVec 32) (flags stale : List Byte) :
    readLE ((TickRequest.RequestedQuorumTick rqt flags).bytes ++ stale) 0 4 = rqt.toNat := by
  rw [TickRequest.bytes, List.append_assoc]
  exact readLE_front rfl

theorem flagAt_quorum (rqt : BitVec 32) (tvs : List TickVote)
    (htvs : ∀ tv ∈ tvs, tv.computorIndex.toNat < NUMBER_OF_COMPUTORS) (stale : List Byte) {i : Nat}
    (hi : i < NUMBER_OF_COMPUTORS) :
    flagAt ((TickRequest.RequestedQuorumTick rqt (voteFlags tvs)).bytes ++ stale) 4 i =
      decide (∃ tv ∈ tvs, tv.computorIndex.toNat = i) := by
  have hcount : NUMBER_OF_COMPUTORS = 676 := rfl
  have hlen : (voteFlags tvs).length = 85 := by
    rw [voteFlags, length_foldl_setFlag, List.length_replicate]
    rfl
  have hbits : ∀ j ∈ tvs.map fun tv => tv.computorIndex.toNat,
      j < 8 * (List.replicate ((NUMBER_OF_COMPUTORS + 7) / 8) (0 : Byte)).length := by
    intro j hj
    obtain ⟨tv, htv, rfl⟩ := List.mem_map.mp hj
    have hlt := htvs tv htv
    rw [List.length_replicate]
    omega
  have hflag := @flagAt_eq (leBytes 4 rqt) (voteFlags tvs) (List.replicate 3 0 ++ stale) i
    (by rw [hlen]; omega)
  rw [length_leBytes] at hflag
  rw [TickRequest.bytes, List.append_assoc, List.append_assoc, hflag, voteFlags,
    testFlag_foldl_setFlag hbits, testFlag_replicate, Bool.or_false, decide_eq_decide, List.mem_map]

/-- A transaction that is listed, not flagged and stored is in the answer. -/
theorem mem_replyTransaction {td : TickData} {i : Fin NUMBER_OF_TRANSACTIONS_PER_TICK} {tx : List Byte}
    (htd : S.tryGetTickData (readLE ptr 0 4) = some td) (hlisted : td.transactionDigests i ≠ m256i.zero)
    (hflag : flagAt ptr 4 i.val = false)
    (htx : S.tryGetTransaction (getIdentityFromPublicKey S.K (td.transactionDigests i) true) =
      some tx) :
    reply conn dejavu BROADCAST_TRANSACTION tx ∈ replyTransaction S conn dejavu rnd ptr := by
  unfold replyTransaction
  rw [htd]
  refine List.mem_append_left _ (List.mem_filterMap.mpr ⟨i, List.mem_finRange i, ?_⟩)
  rw [if_pos ⟨hlisted, hflag⟩, htx]
  rfl

theorem readLE_transactions (rtt : BitVec 32) (flag stale : List Byte) :
    readLE ((TickRequest.RequestedTickTransactions rtt flag).bytes ++ stale) 0 4 = rtt.toNat := by
  rw [TickRequest.bytes, List.append_assoc]
  exact readLE_front rfl

theorem flagAt_transactions (rtt : BitVec 32) {flag : List Byte} (stale : List Byte) {i : Nat}
    (hi : i < 8 * flag.length) :
    flagAt ((TickRequest.RequestedTickTransactions rtt flag).bytes ++ stale) 4 i = testFlag flag i := by
  have hflag := @flagAt_eq (leBytes 4 rtt) flag stale i hi
  rw [length_leBytes] at hflag
  rw [TickRequest.bytes, List.append_assoc, hflag]

end answers

/-! ## One packet of an answer -/

/-- A data packet of a reply reaches its handler. -/
theorem PeerNode.step_reply (s : PeerNode) (trusted : Bool) (k : Nat) (conn : Conn) (dejavu : Nat)
    {type : Nat} {payload : List Byte} (hdata : isDataType type = true)
    (hallowed : checkAllowedTypeForNonTrusted type = true) (htype : type < 2 ^ 8)
    (hlen : 8 + payload.length < RequestResponseHeader.max_size) :
    ∃ stale, (s.step (.data trusted k (reply conn dejavu type payload).packet)).node =
      (processData s.env s.node ((reply conn dejavu type payload).packet ++ stale)
        (8 + payload.length) type).2 ∧
      (s.step (.data trusted k (reply conn dejavu type payload).packet)).env = s.env := by
  have hmax : RequestResponseHeader.max_size = 2 ^ 24 - 1 := rfl
  have hlength := length_reply conn dejavu type payload
  obtain ⟨hread, hsize⟩ := reply_header conn dejavu type payload htype (by omega)
  generalize (reply conn dejavu type payload).packet = packet at hlength hread hsize
  have hpacket : MutexRoundBuffer.IsPacket packet := ⟨by omega, hsize⟩
  have hadmitted : admittedData trusted packet = true := by
    rw [admittedData, decide_eq_true hpacket, decide_eq_true (by omega), hread, hallowed, hdata,
      Bool.or_true]
    rfl
  refine ⟨(s.bufs k).drop packet.length, ?_, ?_⟩
  · rw [PeerNode.step, if_pos hadmitted]
    dsimp only
    rw [PeerNode.dataProcessorThread_snd s.env s.node (s.bufs k) hpacket.1,
      if_neg (by omega), hread, hlength]
  · rw [PeerNode.step, if_pos hadmitted]

/-- The vote of an answer is taken like any other. -/
theorem PeerNode.step_vote (s : PeerNode) (trusted : Bool) (k : Nat) (conn : Conn) (dejavu : Nat)
    (tv : TickVote) :
    (s.step (.data trusted k (reply conn dejavu BROADCAST_TICK_VOTE tv.bytes).packet)).node.db.ticks =
      processTickVote s.env.receiver s.node.db.ticks tv := by
  obtain ⟨stale, hnode, -⟩ := @PeerNode.step_reply s trusted k conn dejavu BROADCAST_TICK_VOTE
    tv.bytes (by decide) (by decide) (by decide) (by rw [TickVote.length_bytes]; decide)
  rw [hnode, processData, if_pos rfl, processTickVoteAt]
  dsimp only
  rw [List.drop_append_of_le_length (by rw [length_reply]; omega), drop_reply, TickVote.ofBytes_bytes]

/-- A transaction with the digest `d`, of the tick, whole and signed. -/
structure DataReceiver.TakesTransaction (D : DataReceiver) (t : BitVec 32) (d : m256i)
    (tx : List Byte) : Prop where
  inputSize : readLE tx 78 2 ≤ 1024
  length : tx.length = Transaction.sizeOf + readLE tx 78 2 + SIGNATURE_SIZE
  tick : BitVec.ofNat 32 (readLE tx 72 4) = t
  digest : D.K.hash32 tx = d
  signature : verifySignature D tx (BitVec.ofNat 256 (readLE tx 0 32)) = true

/-- The transaction of an answer is stored if the tick data lists it. -/
theorem PeerNode.step_transaction (s : PeerNode) (trusted : Bool) (k : Nat) (conn : Conn)
    (dejavu : Nat) {t : BitVec 32} {d : m256i} {tx : List Byte} {td : TickData}
    (htx : s.env.TakesTransaction t d tx) (hfresh : ¬ t < s.env.receiver.gCurrentVerifyLoggingTick - 1)
    (htd : s.node.db.dbTryGetTickData t = some td) (hlisted : listedIn td d = true) :
    (s.step (.data trusted k (reply conn dejavu BROADCAST_TRANSACTION tx).packet)).node.db =
      s.node.db.dbInsertTransaction s.env.K tx := by
  have hsize : Transaction.sizeOf = 80 := rfl
  have hsignature : SIGNATURE_SIZE = 64 := rfl
  have hmax : RequestResponseHeader.max_size = 2 ^ 24 - 1 := rfl
  have hinput := htx.inputSize
  have hlength := htx.length
  obtain ⟨stale, hnode, -⟩ := @PeerNode.step_reply s trusted k conn dejavu BROADCAST_TRANSACTION tx
    (by decide) (by decide) (by decide) (by omega)
  have hdrop : ((reply conn dejavu BROADCAST_TRANSACTION tx).packet ++ stale).drop 8 = tx ++ stale := by
    rw [List.drop_append_of_le_length (by rw [length_reply]; omega), drop_reply]
  have hfield : ∀ off n, off + n ≤ 80 →
      readLE ((reply conn dejavu BROADCAST_TRANSACTION tx).packet ++ stale) (8 + off) n =
        readLE tx off n := by
    intro off n hle
    rw [← readLE_drop, hdrop, readLE_append (by omega)]
  have hslice : Ring.slice ((reply conn dejavu BROADCAST_TRANSACTION tx).packet ++ stale) 8
      (Transaction.sizeOf + readLE tx 78 2 + SIGNATURE_SIZE) = tx := by
    rw [Ring.slice, hdrop, ← hlength, List.take_left]
  rw [hnode, processData, if_neg (by decide), if_neg (by decide), if_pos rfl, processTransaction]
  dsimp only
  rw [hfield 72 4 (by decide), hfield 78 2 (by decide), htx.tick, if_neg (by omega), if_neg hfresh,
    htd, hslice]
  have hkey := hfield 0 32 (by decide)
  rw [Nat.add_zero] at hkey
  dsimp only
  rw [hkey, htx.digest, hlisted, htx.signature]
  rfl

theorem processTickVote_accepted {R : Receiver} {tv : TickVote} (haccepts : R.Accepts tv)
    (hfresh : ¬ tv.tick < R.gCurrentVerifyLoggingTick - 1) (db : TickKeyDB) :
    processTickVote R db tv = dbInsertTickVote db tv := by
  rw [processTickVote, if_neg (not_not.mpr haccepts.1), if_neg hfresh, if_pos haccepts.2]

/-! ## Votes of a tick only grow -/

/-- A key of the tick keeps what it has, and one without a value may get a vote. -/
def VotesGrow (t : BitVec 32) (db db' : TickKeyDB) : Prop :=
  ∀ i, db'.tickVote t i = db.tickVote t i ∨
    (db.tickVote t i = none ∧ ∃ v, db'.tickVote t i = some (.sized v))

section growth

variable {t : BitVec 32} {db db' db'' : TickKeyDB} {i : BitVec 16} {v : TickVote}

theorem VotesGrow.refl (t : BitVec 32) (db : TickKeyDB) : VotesGrow t db db := fun _ => .inl rfl

theorem VotesGrow.of_eq (h : db'.tickVote = db.tickVote) : VotesGrow t db db' := by
  intro i
  rw [h]
  exact .inl rfl

theorem VotesGrow.trans (h : VotesGrow t db db') (h' : VotesGrow t db' db'') :
    VotesGrow t db db'' := by
  intro i
  rcases h i with hsame | ⟨hnone, v, hv⟩
  · rw [← hsame]
    exact h' i
  · rcases h' i with hsame' | ⟨hnone', -⟩
    · exact .inr ⟨hnone, v, hsame'.trans hv⟩
    · rw [hnone'] at hv
      cases hv

theorem VotesGrow.keeps (h : VotesGrow t db db') (hv : dbGetTickVote db t i = some v) :
    dbGetTickVote db' t i = some v := by
  rw [dbGetTickVote] at hv ⊢
  rcases h i with hsame | ⟨hnone, -⟩
  · rw [hsame]
    exact hv
  · rw [hnone] at hv
    cases hv

/-- The values of the keys are votes. -/
def VotesSized (t : BitVec 32) (db : TickKeyDB) : Prop := ∀ i, db.tickVote t i ≠ some .otherSize

theorem VotesGrow.sized (h : VotesGrow t db db') (hdb : VotesSized t db) : VotesSized t db' := by
  intro i
  rcases h i with hsame | ⟨-, v, hv⟩
  · rw [hsame]
    exact hdb i
  · rw [hv]
    nofun

theorem votesGrow_insert (db : TickKeyDB) (vote : TickVote) :
    VotesGrow t db (dbInsertTickVote db vote) := by
  intro i
  rw [dbInsertTickVote]
  split
  · exact .inl rfl
  · next hfree =>
    dsimp only
    split
    · next hkey =>
      obtain ⟨rfl, rfl⟩ := hkey
      rw [Bool.not_eq_true, Option.isSome_eq_false_iff, Option.isNone_iff_eq_none] at hfree
      exact .inr ⟨hfree, vote, rfl⟩
    · exact .inl rfl

/-- After an insert the key has a vote. -/
theorem exists_vote_insert (hsized : VotesSized v.tick db) :
    ∃ v', dbGetTickVote (dbInsertTickVote db v) v.tick v.computorIndex = some v' := by
  rw [dbGetTickVote, dbInsertTickVote]
  split
  · next hsome =>
    obtain ⟨c, hc⟩ := Option.isSome_iff_exists.mp hsome
    cases c with
    | sized v' => exact ⟨v', by rw [hc]; rfl⟩
    | otherSize => exact absurd hc (hsized _)
  · exact ⟨v, by dsimp only; rw [if_pos ⟨rfl, rfl⟩]; rfl⟩

theorem votesGrow_processTickVote (R : Receiver) (db : TickKeyDB) (vote : TickVote) :
    VotesGrow t db (processTickVote R db vote) := by
  rcases processTickVote_cases R db vote with hsame | ⟨-, -, -, hinsert⟩
  · rw [hsame]
    exact .refl t db
  · rw [hinsert]
    exact votesGrow_insert db vote

theorem tickVote_processTickData (R : Receiver) (db : TickKeyDB) (data : TickData) :
    (processTickData R db data).tickVote = db.tickVote := by
  rcases processTickData_cases R db data with hsame | ⟨-, -, -, hinsert⟩
  · rw [hsame]
  · rw [hinsert]
    rfl

theorem TicksChange.votesGrow {R : Receiver} (h : TicksChange R db db') : VotesGrow t db db' := by
  cases h with
  | unchanged => exact .refl t db
  | vote v => exact votesGrow_processTickVote R db v
  | data td => exact .of_eq (tickVote_processTickData R db td)
  | transaction hash => exact .of_eq rfl

theorem tickVote_verifyQuorum {K : KangarooTwelve} {epoch : BitVec 16} {tick : BitVec 32}
    {cache : QuorumCache} : (verifyQuorum K epoch db tick cache).db.tickVote = db.tickVote := by
  unfold verifyQuorum verifyQuorumWith
  dsimp only
  split
  · rfl
  split
  · rfl
  split
  · rfl
  unfold verifyTickData
  split
  · rfl
  dsimp only
  split
  · rfl
  split
  · rfl
  · rfl

theorem votesGrow_node (s : TickNode) (st : TickNodeStep) (hst : st ≠ .cleanRawTick t) :
    VotesGrow t s.ticks (s.step st).ticks := by
  cases st with
  | peer st => exact (s.peer.step_ticks st).votesGrow
  | verify updated =>
      refine .of_eq ?_
      rw [TickNode.step, (s.verify_frame updated).2.1, TickNode.outcome, tickVote_verifyQuorum]
  | cleanRawTick tick =>
      intro i
      have hne : t ≠ tick := fun h => hst (h ▸ rfl)
      exact .inl (if_neg fun h => hne h.1)
  | cleanTransaction hash => exact .of_eq rfl
  | restart => exact .refl _ _

end growth

end QubicBob
