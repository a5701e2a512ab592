import QubicBob.Lib.Loop
import QubicBob.Network.DataThread
import QubicBob.Storage.LogStore

set_option autoImplicit false

/-! # Log chunks

`replyLogEvent` puts the stored logs of a range of ids into one packet, one behind the other and
without a count; `processLogEvent` of the node that asked takes them apart again.

The loop goes over the ids of the range and adds each stored log to the response; for a range up to
the top of the 64 bits its condition never fails. The guard takes the width of the range modulo 2 ^
64, so it lets the range of all ids pass for an empty one. What the loop has gathered then goes
through a header of 24 bits: `enqueueSend` puts out as many bytes as the header says, and the answer
is one with all the stored logs only if their length fits.

On the other side the chunk is its own index. An event that passes the check has a size field that
is its length, so the walk over the chunk of such events finds each of them where the sender put it.
The logs are inserted with `NX`, in ascending order, and only `latest_log_id` is not: it is compared
by a script, which rounds to 53 bits, and it is written for a chunk without logs too.
-/

namespace QubicBob

section loop

variable (S : Serving) (conn : Conn) (dejavu : Nat) (rnd : Nat) (ptr : List Byte)

/-! ## The reply loop -/

/-- The bytes of a log in a reply. -/
def packedLog (le : LogEvent) : List Byte :=
  le.content.take (le.getLogSize + LogEvent.PackedHeaderSize)

/-- The state of the loop of `replyLogEvent`, with the ids it has looked up. -/
structure ReplyLoop where
  i : Nat
  resp : List Byte := []
  lookedUp : List Nat := []
  deriving DecidableEq, Repr

/-- One round; the loop is left where its condition fails. `i` is a `uint64_t`. -/
def ReplyLoop.round (toid : Nat) (l : ReplyLoop) : ReplyLoop ⊕ ReplyLoop :=
  if l.i ≤ toid then
    .inr
      { i := (l.i + 1) % 2 ^ 64
        resp := l.resp ++ ((S.tryGetLog S.gCurrentProcessingEpoch l.i).map packedLog).getD []
        lookedUp := l.lookedUp ++ [l.i] }
  else .inl l

/-- `replyLogEvent` with its loop, and the ids it looks up. -/
def replyLogEventWithin (rounds : Nat) : Option (List Send × List Nat) :=
  let fromid := readLE ptr 32 8
  let toid := readLE ptr 40 8
  if passcodeIsZero ptr = false then some ([sendEndPacket conn 0xffffffff rnd], [])
  else if 1000 ≤ (toid + 2 ^ 64 - fromid + 1) % 2 ^ 64 then
    some ([sendEndPacket conn 0xffffffff rnd], [])
  else
    (Loop.run (ReplyLoop.round S toid) rounds { i := fromid }).map fun l =>
      ([reply conn dejavu RESPOND_LOG l.resp], l.lookedUp)

/-- The stored logs of the current epoch with the ids of a range, in ascending order. -/
def storedLogs (fromid toid : Nat) : List LogEvent :=
  (List.range' fromid (toid + 1 - fromid)).filterMap (S.tryGetLog S.gCurrentProcessingEpoch)

end loop

section loop

variable {S : Serving} {conn : Conn} {dejavu rnd : Nat} {ptr : List Byte} {toid : Nat}

/-- The loop on a range of `k` ids below the top. -/
theorem ReplyLoop.run_range (htop : toid < 2 ^ 64 - 1) (k : Nat) (l : ReplyLoop)
    (hk : toid + 1 - l.i = k) : Loop.run (ReplyLoop.round S toid) (k + 1) l = some
      { i := l.i + k
        resp := l.resp ++ ((List.range' l.i k).filterMap
          (S.tryGetLog S.gCurrentProcessingEpoch)).flatMap packedLog
        lookedUp := l.lookedUp ++ List.range' l.i k } := by
  induction k generalizing l with
  | zero =>
      have hleave : ReplyLoop.round S toid l = .inl l := if_neg (by omega)
      rw [Loop.run_inl hleave]
      simp
  | succ k ih =>
      have hnext : (l.i + 1) % 2 ^ 64 = l.i + 1 := Nat.mod_eq_of_lt (by omega)
      have hround : ReplyLoop.round S toid l = .inr _ := if_pos (by omega)
      rw [Loop.run_inr hround, hnext, ih _ (by dsimp only; omega)]
      dsimp only
      rw [List.range'_succ, List.filterMap_cons]
      cases S.tryGetLog S.gCurrentProcessingEpoch l.i with
      | none => simp [Nat.add_assoc, Nat.add_comm 1]
      | some le => simp [Nat.add_assoc, Nat.add_comm 1]

/-- A loop to the top of the 64 bits never ends. -/
theorem ReplyLoop.run_top (n : Nat) (l : ReplyLoop) (hl : l.i < 2 ^ 64) :
    Loop.run (ReplyLoop.round S (2 ^ 64 - 1)) n l = none := by
  have hstep : ∀ l : ReplyLoop, l.i < 2 ^ 64 →
      ∃ l', ReplyLoop.round S (2 ^ 64 - 1) l = .inr l' ∧ l'.i < 2 ^ 64 := fun l hl =>
    ⟨_, if_pos (by omega), Nat.mod_lt _ (by decide)⟩
  exact Loop.run_eq_none hstep hl n

/-- What `replyLogEvent` computes, case by case. -/
theorem replyLogEvent_eq (hpass : passcodeIsZero ptr = true)
    (hacc : (readLE ptr 40 8 + 2 ^ 64 - readLE ptr 32 8 + 1) % 2 ^ 64 < 1000)
    (htop : readLE ptr 40 8 < 2 ^ 64 - 1) :
    replyLogEvent S conn dejavu rnd ptr = .ok [reply conn dejavu RESPOND_LOG
      ((storedLogs S (readLE ptr 32 8) (readLE ptr 40 8)).flatMap packedLog)] := by
  have hjoin : ∀ f : Nat → List Byte,
      (∀ i, f i = ((S.tryGetLog S.gCurrentProcessingEpoch i).map packedLog).getD []) →
        ∀ l : List Nat, l.flatMap f =
          (l.filterMap (S.tryGetLog S.gCurrentProcessingEpoch)).flatMap packedLog := by
    intro f hf l
    induction l with
    | nil => rfl
    | cons i l ih =>
        rw [List.filterMap_cons, List.flatMap_cons, ih, hf]
        cases S.tryGetLog S.gCurrentProcessingEpoch i with
        | none => rfl
        | some le => rfl
  rw [replyLogEvent, hpass, if_neg (by decide), if_neg (not_le.mpr hacc), if_neg (by omega)]
  refine congrArg (fun p => Except.ok [reply conn dejavu RESPOND_LOG p]) (hjoin _ (fun i => ?_) _)
  cases S.tryGetLog S.gCurrentProcessingEpoch i with
  | none => rfl
  | some le => rfl

theorem replyLogEventWithin_eq (hpass : passcodeIsZero ptr = true)
    (hacc : (readLE ptr 40 8 + 2 ^ 64 - readLE ptr 32 8 + 1) % 2 ^ 64 < 1000) (n : Nat) :
    replyLogEventWithin S conn dejavu rnd ptr n =
      (Loop.run (ReplyLoop.round S (readLE ptr 40 8)) n { i := readLE ptr 32 8 }).map fun l =>
        ([reply conn dejavu RESPOND_LOG l.resp], l.lookedUp) := by
  rw [replyLogEventWithin, hpass, if_neg (by decide), if_neg (not_le.mpr hacc)]

/-- An accepted request below the top: the answer, and one look-up for each id. -/
theorem replyLogEventWithin_answer (hpass : passcodeIsZero ptr = true)
    (hacc : (readLE ptr 40 8 + 2 ^ 64 - readLE ptr 32 8 + 1) % 2 ^ 64 < 1000)
    (htop : readLE ptr 40 8 < 2 ^ 64 - 1) (m : Nat) :
    replyLogEventWithin S conn dejavu rnd ptr (readLE ptr 40 8 + 1 - readLE ptr 32 8 + 1 + m) =
      some ([reply conn dejavu RESPOND_LOG
          ((storedLogs S (readLE ptr 32 8) (readLE ptr 40 8)).flatMap packedLog)],
        List.range' (readLE ptr 32 8) (readLE ptr 40 8 + 1 - readLE ptr 32 8)) := by
  rw [replyLogEventWithin_eq hpass hacc,
    Loop.run_add m (ReplyLoop.run_range htop _ { i := readLE ptr 32 8 } rfl)]
  rfl

/-- An accepted range up to the top of the 64 bits has no answer. -/
theorem replyLogEventWithin_top (hpass : passcodeIsZero ptr = true)
    (hacc : (readLE ptr 40 8 + 2 ^ 64 - readLE ptr 32 8 + 1) % 2 ^ 64 < 1000)
    (htop : readLE ptr 40 8 = 2 ^ 64 - 1) (n : Nat) :
    replyLogEventWithin S conn dejavu rnd ptr n = none := by
  have hfrom : readLE ptr 32 8 < 2 ^ 64 := readLE_lt _ _ _
  rw [replyLogEventWithin_eq hpass hacc, htop, ReplyLoop.run_top n _ hfrom, Option.map_none]

/-- A request is refused by its passcode or by the width of its range. -/
theorem replyLogEventWithin_refused (h : passcodeIsZero ptr = false ∨
      1000 ≤ (readLE ptr 40 8 + 2 ^ 64 - readLE ptr 32 8 + 1) % 2 ^ 64) (n : Nat) :
    replyLogEventWithin S conn dejavu rnd ptr n = some ([sendEndPacket conn 0xffffffff rnd], []) ∧
      replyLogEvent S conn dejavu rnd ptr = .ok [sendEndPacket conn 0xffffffff rnd] := by
  rw [replyLogEventWithin, replyLogEvent]
  by_cases hpass : passcodeIsZero ptr = false
  · rw [if_pos hpass, if_pos hpass]
    exact ⟨rfl, rfl⟩
  · have hwide := h.resolve_left hpass
    rw [if_neg hpass, if_neg hpass, if_pos hwide, if_pos hwide]
    exact ⟨rfl, rfl⟩

/-- The loop ends for some number of rounds exactly where `replyLogEvent` gives a result, and the
result is the same. -/
theorem replyLogEventWithin_iff {sends : List Send} :
    (∃ n ids, replyLogEventWithin S conn dejavu rnd ptr n = some (sends, ids)) ↔
      replyLogEvent S conn dejavu rnd ptr = .ok sends := by
  have hto : readLE ptr 40 8 < 2 ^ 64 := readLE_lt _ _ _
  by_cases hrefused : passcodeIsZero ptr = false ∨
      1000 ≤ (readLE ptr 40 8 + 2 ^ 64 - readLE ptr 32 8 + 1) % 2 ^ 64
  · rw [(replyLogEventWithin_refused hrefused 0).2]
    constructor
    · rintro ⟨n, ids, hn⟩
      rw [(replyLogEventWithin_refused hrefused n).1, Option.some.injEq, Prod.mk.injEq] at hn
      rw [hn.1]
    · intro hok
      rw [← Except.ok.inj hok]
      exact ⟨0, [], (replyLogEventWithin_refused hrefused 0).1⟩
  rw [not_or, Bool.not_eq_false, not_le] at hrefused
  obtain ⟨hpass, hacc⟩ := hrefused
  by_cases htop : readLE ptr 40 8 < 2 ^ 64 - 1
  · rw [replyLogEvent_eq hpass hacc htop]
    constructor
    · rintro ⟨n, ids, hn⟩
      rw [replyLogEventWithin_eq hpass hacc, Option.map_eq_some_iff] at hn
      obtain ⟨l, hl, hpair⟩ := hn
      have hl' := Loop.run_add (readLE ptr 40 8 + 1 - readLE ptr 32 8 + 1) hl
      have hans := @replyLogEventWithin_answer S conn dejavu rnd ptr hpass hacc htop n
      rw [replyLogEventWithin_eq hpass hacc, Nat.add_comm _ n, hl'] at hans
      rw [← (Prod.mk.inj hpair).1]
      exact congrArg Except.ok (Prod.mk.inj (Option.some.inj hans)).1.symm
    · intro hok
      rw [← Except.ok.inj hok]
      exact ⟨_, _, replyLogEventWithin_answer hpass hacc htop 0⟩
  · have heq : readLE ptr 40 8 = 2 ^ 64 - 1 := by omega
    constructor
    · rintro ⟨n, ids, hn⟩
      rw [replyLogEventWithin_top hpass hacc heq] at hn
      cases hn
    · intro hok
      rw [replyLogEvent, hpass, if_neg (by decide), if_neg (not_le.mpr hacc), if_pos heq] at hok
      cases hok

/-! ## The packet of an answer -/

theorem reply_packet (conn : Conn) (dejavu type : Nat) (payload : List Byte) :
    (reply conn dejavu type payload).packet =
      leBytes 3 (BitVec.ofNat 24 (8 + payload.length)) ++ (leBytes 1 (BitVec.ofNat 8 type) ++
        (leBytes 4 (BitVec.ofNat 32 dejavu) ++ payload)) := by
  simp only [reply, RequestResponseHeader.bytes, List.append_assoc]

theorem length_reply (conn : Conn) (dejavu type : Nat) (payload : List Byte) :
    (reply conn dejavu type payload).packet.length = 8 + payload.length := by
  rw [reply_packet]
  simp only [List.length_append, length_leBytes]
  omega

theorem drop_reply (conn : Conn) (dejavu type : Nat) (payload : List Byte) :
    (reply conn dejavu type payload).packet.drop 8 = payload := by
  rw [reply_packet, ← List.append_assoc, ← List.append_assoc, List.drop_left']
  simp only [List.length_append, length_leBytes]

/-- The header keeps the low 24 bits of the size; zero stands for a broken packet. -/
theorem reply_size (conn : Conn) (dejavu type : Nat) (payload : List Byte) :
    (RequestResponseHeader.ofBytes (reply conn dejavu type payload).packet).size =
      if (8 + payload.length) % 2 ^ 24 = 0 then RequestResponseHeader.broken
      else (8 + payload.length) % 2 ^ 24 := by
  have hsize := leNat_leBytes (BitVec.ofNat 24 (8 + payload.length)) 3
  rw [BitVec.toNat_ofNat, show 256 ^ 3 = 2 ^ 24 by norm_num, Nat.mod_mod] at hsize
  rw [RequestResponseHeader.size, RequestResponseHeader.ofBytes, reply_packet]
  dsimp only
  rw [readLE, List.drop_zero, List.take_left' (length_leBytes 3 _), hsize]

/-- `enqueueSend` is given the length of the packet and does not look at it: what goes out is what
the header announces. -/
def Send.Whole (s : Send) : Prop :=
  (RequestResponseHeader.ofBytes s.packet).size = s.packet.length

/-- A packet goes out whole exactly when its length fits into the header. -/
theorem reply_whole_iff (conn : Conn) (dejavu type : Nat) (payload : List Byte) :
    (reply conn dejavu type payload).Whole ↔ 8 + payload.length < 2 ^ 24 := by
  rw [Send.Whole, reply_size, length_reply, RequestResponseHeader.broken]
  split
  · omega
  · omega

/-- A chunk travels in one packet whose header announces its length. -/
theorem reply_header (conn : Conn) (dejavu type : Nat) (payload : List Byte)
    (htype : type < 2 ^ 8) (h : 8 + payload.length < 2 ^ 24) :
    (RequestResponseHeader.ofBytes (reply conn dejavu type payload).packet).type = type ∧
      (RequestResponseHeader.ofBytes (reply conn dejavu type payload).packet).size =
        (reply conn dejavu type payload).packet.length := by
  have h8 : (BitVec.ofNat 8 type).toNat = type := by
    rw [BitVec.toNat_ofNat, Nat.mod_eq_of_lt htype]
  have htype' := leNat_leBytes (BitVec.ofNat 8 type) 1
  rw [h8, Nat.mod_eq_of_lt (by omega)] at htype'
  refine ⟨?_, (reply_whole_iff conn dejavu type payload).mpr h⟩
  rw [RequestResponseHeader.type, RequestResponseHeader.ofBytes, reply_packet]
  dsimp only
  rw [readLE, List.drop_left' (length_leBytes 3 _), List.take_left' (length_leBytes 1 _), htype']

/-! ## Bounded requests -/

/-- The bytes that the answer to a request carries behind its header. -/
def answerSize (S : Serving) (fromid toid : Nat) : Nat :=
  ((storedLogs S fromid toid).map fun le => (packedLog le).length).sum

/-- The request is answered within some number of rounds and with less than 1000 look-ups: refused
with an end packet, or with the stored logs of its range in one packet that goes out whole. -/
def AnsweredBounded (S : Serving) (conn : Conn) (dejavu rnd : Nat) (ptr : List Byte) : Prop :=
  ∃ n sends ids, replyLogEventWithin S conn dejavu rnd ptr n = some (sends, ids) ∧
    ids.length < 1000 ∧
    (sends = [sendEndPacket conn 0xffffffff rnd] ∨
      ∃ answer, answer = reply conn dejavu RESPOND_LOG
          ((storedLogs S (readLE ptr 32 8) (readLE ptr 40 8)).flatMap packedLog) ∧
        sends = [answer] ∧ answer.Whole)

/-- An end packet is no answer with logs. -/
theorem sendEndPacket_ne_reply (payload : List Byte) :
    sendEndPacket conn 0xffffffff rnd ≠ reply conn dejavu RESPOND_LOG payload := by
  intro h
  have htype := congrArg (fun s : Send => readLE s.packet 3 1) h
  rw [sendEndPacket] at htype
  simp only [reply_packet, readLE, List.drop_left' (length_leBytes 3 _),
    List.take_left' (length_leBytes 1 _)] at htype
  exact absurd htype (by decide)

/-- A request with zero passcode is answered, within the bound, exactly when the guard refuses its
range as too wide, or the range does not go up to the largest 64-bit number and the stored logs of it
fit into a packet. -/
theorem log_request_bounded (S : Serving) (conn : Conn) (dejavu rnd : Nat) (ptr : List Byte)
    (hpass : passcodeIsZero ptr = true) :
    AnsweredBounded S conn dejavu rnd ptr ↔
      1000 ≤ (readLE ptr 40 8 + 2 ^ 64 - readLE ptr 32 8 + 1) % 2 ^ 64 ∨
        (readLE ptr 40 8 ≠ 2 ^ 64 - 1 ∧
          8 + answerSize S (readLE ptr 32 8) (readLE ptr 40 8) < 2 ^ 24) := by
  have hto : readLE ptr 40 8 < 2 ^ 64 := readLE_lt _ _ _
  by_cases hacc : (readLE ptr 40 8 + 2 ^ 64 - readLE ptr 32 8 + 1) % 2 ^ 64 < 1000
  swap
  · exact iff_of_true ⟨0, _, _, (replyLogEventWithin_refused (.inr (not_lt.mp hacc)) 0).1,
      by decide, .inl rfl⟩ (.inl (not_lt.mp hacc))
  rw [or_iff_right (not_le.mpr hacc)]
  by_cases htop : readLE ptr 40 8 < 2 ^ 64 - 1
  · rw [and_iff_right htop.ne]
    have hwidth : (List.range' (readLE ptr 32 8)
        (readLE ptr 40 8 + 1 - readLE ptr 32 8)).length < 1000 := by
      have hfrom : readLE ptr 32 8 < 2 ^ 64 := readLE_lt _ _ _
      rw [List.length_range']
      omega
    have hwhole := reply_whole_iff conn dejavu RESPOND_LOG
      ((storedLogs S (readLE ptr 32 8) (readLE ptr 40 8)).flatMap packedLog)
    rw [List.length_flatMap] at hwhole
    have hans := @replyLogEventWithin_answer S conn dejavu rnd ptr hpass hacc htop
    constructor
    · rintro ⟨n, sends, ids, hn, -, hsends⟩
      -- the loop has one result, whatever the number of rounds
      have hok := replyLogEventWithin_iff.mp ⟨n, ids, hn⟩
      have hok' := replyLogEventWithin_iff.mp ⟨_, _, hans 0⟩
      have heq := Except.ok.inj (hok.symm.trans hok')
      rcases hsends with hend | ⟨answer, rfl, -, hw⟩
      · rw [heq] at hend
        exact absurd (List.singleton_inj.mp hend).symm (sendEndPacket_ne_reply _)
      · exact hwhole.mp hw
    · exact fun h => ⟨_, _, _, hans 0, hwidth, .inr ⟨_, rfl, rfl, hwhole.mpr h⟩⟩
  · have heq : readLE ptr 40 8 = 2 ^ 64 - 1 := by omega
    refine iff_of_false ?_ (fun h => h.1 heq)
    rintro ⟨n, sends, ids, hn, -⟩
    rw [replyLogEventWithin_top hpass hacc heq] at hn
    cases hn

/-- A node that serves the logs of a database in epoch 0. -/
def logServing (db : LogDB) : Serving where
  K := ⟨fun _ => 0, fun _ => 0⟩
  gCurrentVerifyLoggingTick := 1
  gCurrentProcessingEpoch := 0
  gInitialTick := 1
  computorsEpoch := 0
  computors := []
  tryGetTickData := fun _ => none
  tryGetTickVote := fun _ => []
  tryGetTransaction := fun _ => none
  tryGetLog := dbTryGetLog db
  tryGetLogRanges := fun _ => none

/-- A request for a range of ids, with zero passcode. -/
def logRequest (fromid toid : BitVec 64) : List Byte :=
  List.replicate 32 0 ++ leBytes 8 fromid ++ leBytes 8 toid

def emptyLogDB : LogDB := ⟨⟨fun _ => none, fun _ _ => none⟩, ⟨fun _ => none, fun _ _ => none⟩⟩

/-- The custom message 1 of tick 1 in epoch 0. -/
def messageLog (logId : BitVec 64) : LogEvent :=
  LogEvent.pack 0 1 255 logId 0 (leBytes 8 (1 : BitVec 64))

def storedLog : LogEvent := messageLog 5

/-- The log 5 alone. -/
def oneLogDB : LogDB :=
  { emptyLogDB with keydb :=
    { emptyLogDB.keydb with log := fun epoch id =>
        if epoch = 0 ∧ id = 5 then some storedLog.content else none } }

/-- The logs 4, 6 and 7: the log 5 is missing. -/
def gapLogDB : LogDB :=
  { emptyLogDB with keydb :=
    { emptyLogDB.keydb with log := fun epoch id =>
        if epoch = 0 ∧ id ∈ [4, 6, 7] then some (messageLog (BitVec.ofNat 64 id)).content
        else none } }

/-- A range with a missing log: four look-ups, and an answer with three logs. -/
theorem log_request_bounded_gap :
    AnsweredBounded (logServing gapLogDB) 0 7 7 (logRequest 4 7) ∧
      storedLogs (logServing gapLogDB) 4 7 = [messageLog 4, messageLog 6, messageLog 7] :=
  ⟨(log_request_bounded _ 0 7 7 (logRequest 4 7) (by decide)).2
    (.inr ⟨by decide, by decide +kernel⟩), by decide +kernel⟩

/-- A request for the ids from 0 to the largest: the range passes for an empty one, and the loop
does not end. -/
theorem all_ids_not_answered :
    ¬ ∀ ptr, passcodeIsZero ptr = true → AnsweredBounded (logServing emptyLogDB) 0 7 7 ptr := by
  intro h
  obtain ⟨n, sends, ids, hn, -⟩ := h (logRequest 0 (BitVec.ofNat 64 (2 ^ 64 - 1))) (by decide)
  rw [replyLogEventWithin_top (by decide) (by decide) (by decide)] at hn
  cases hn

end loop

/-! ## The chunk on the other side -/

/-- A chunk of logs that all pass the check is taken apart into these logs, to its end. -/
theorem wholeEvents_flatMap {K : KangarooTwelve} {epoch : Nat} (logs : List LogEvent)
    (h : ∀ le ∈ logs, le.selfCheck K epoch = true) :
    wholeEvents K epoch (logs.flatMap LogEvent.content) = (logs, []) := by
  induction logs with
  | nil => exact wholeEvents_cut (Nat.lt_of_lt_of_le (by decide) (Nat.le_add_left 26 _))
  | cons le logs ih =>
      have hcheck := h le List.mem_cons_self
      obtain ⟨hheader, -, hlen, -⟩ := LogEvent.selfCheck_spec hcheck
      have h26 : 26 ≤ le.content.length := by
        rw [hlen, LogEvent.PackedHeaderSize]
        exact Nat.le_add_right _ _
      have hsize : entrySize (le.content ++ logs.flatMap LogEvent.content) = le.content.length := by
        rw [entrySize, readLE_append (by omega), hlen, Nat.add_comm, LogEvent.getLogSize,
          if_pos hheader, LogEvent.combo]
      rw [List.flatMap_cons, wholeEvents_whole]
      · rw [hsize, List.drop_left, List.take_left, ih fun x hx => h x (List.mem_cons_of_mem _ hx)]
      · rw [hsize, List.length_append]
        exact Nat.le_add_right _ _
      · rw [hsize, List.take_left]
        exact hcheck

/-- The bytes of a checked log in a reply are its content. -/
theorem packedLog_of_selfCheck {K : KangarooTwelve} {epoch : Nat} {le : LogEvent}
    (h : le.selfCheck K epoch = true) : packedLog le = le.content := by
  obtain ⟨-, -, hlen, -⟩ := LogEvent.selfCheck_spec h
  rw [packedLog, Nat.add_comm, ← hlen, List.take_length]

theorem storeEvents_frame (db : DataStore) (events : List LogEvent) :
    storeEvents db events = { db with logs := (storeEvents db events).logs } := by
  induction events generalizing db with
  | nil => rfl
  | cons le events ih => exact ih _

/-- A key that has a log keeps it, and one that has none gets the first of the list. -/
theorem storeEvents_logs (db : DataStore) (events : List LogEvent) (epoch id : Nat) :
    (storeEvents db events).logs epoch id = (db.logs epoch id).or
      ((events.find? fun le => le.getEpoch = epoch ∧ le.getLogId = id).map LogEvent.content) := by
  induction events generalizing db with
  | nil => rw [List.find?_nil, Option.map_none, Option.or_none]; rfl
  | cons le events ih =>
      have hinsert : (db.dbInsertLog le.getEpoch le.getLogId le.content).logs epoch id =
          if le.getEpoch = epoch ∧ le.getLogId = id then setNX (db.logs epoch id) le.content
          else db.logs epoch id := by
        rw [DataStore.dbInsertLog]
        dsimp only
        by_cases he : le.getEpoch = epoch
        · subst he
          rw [Function.update_self]
          by_cases hi : le.getLogId = id
          · subst hi
            rw [Function.update_self, if_pos ⟨rfl, rfl⟩]
          · rw [Function.update_of_ne (Ne.symm hi), if_neg fun hc => hi hc.2]
        · rw [Function.update_of_ne (Ne.symm he), if_neg fun hc => he hc.1]
      have hrest := ih (db.dbInsertLog le.getEpoch le.getLogId le.content)
      rw [hinsert] at hrest
      rw [List.find?_cons]
      refine hrest.trans ?_
      by_cases hkey : le.getEpoch = epoch ∧ le.getLogId = id
      · rw [if_pos hkey, decide_eq_true hkey]
        cases db.logs epoch id with
        | none => rfl
        | some old => rfl
      · rw [if_neg hkey, decide_eq_false hkey]

theorem foldl_max_le {m a : Nat} {l : List Nat} (ha : a ≤ m) (h : ∀ x ∈ l, x ≤ m) :
    l.foldl max a ≤ m := by
  induction l generalizing a with
  | nil => exact ha
  | cons x l ih =>
      exact ih (max_le ha (h x List.mem_cons_self)) fun y hy => h y (List.mem_cons_of_mem _ hy)

theorem le_foldl_max {a x : Nat} {l : List Nat} (h : x ∈ a :: l) : x ≤ l.foldl max a := by
  induction l generalizing a x with
  | nil => exact (List.mem_singleton.mp h).le
  | cons y l ih =>
      rcases List.mem_cons.mp h with rfl | h
      · exact (le_max_left _ _).trans (ih List.mem_cons_self)
      rcases List.mem_cons.mp h with rfl | h
      · exact (le_max_right _ _).trans (ih List.mem_cons_self)
      · exact ih (List.mem_cons_of_mem _ h)

section roundTrip

variable {S : Serving} {fromid toid : Nat}

/-- The ids of a range that have a stored log. -/
def servedIds (S : Serving) (fromid toid : Nat) : Set Nat :=
  {id | fromid ≤ id ∧ id ≤ toid ∧ (S.tryGetLog S.gCurrentProcessingEpoch id).isSome = true}

theorem mem_storedLogs {le : LogEvent} : le ∈ storedLogs S fromid toid ↔
    ∃ id, fromid ≤ id ∧ id ≤ toid ∧ S.tryGetLog S.gCurrentProcessingEpoch id = some le := by
  rw [storedLogs, List.mem_filterMap]
  refine exists_congr fun id => ?_
  rw [List.mem_range'_1, and_assoc]
  refine and_congr_right fun hle => and_congr_left fun _ => ?_
  omega

variable (hid : ∀ id le, S.tryGetLog S.gCurrentProcessingEpoch id = some le → le.getLogId = id)

include hid

/-- The logs of an answer are in ascending order. -/
theorem storedLogs_ascending :
    (storedLogs S fromid toid).Pairwise fun a b => a.getLogId < b.getLogId := by
  refine List.Pairwise.filterMap _ ?_ List.pairwise_lt_range'
  intro i j hij a ha b hb
  rw [hid i a ha, hid j b hb]
  exact hij

theorem getLogId_mem_servedIds {le : LogEvent} (h : le ∈ storedLogs S fromid toid) :
    le.getLogId ∈ servedIds S fromid toid := by
  obtain ⟨id, hle, hto, hget⟩ := mem_storedLogs.mp h
  rw [hid id le hget]
  exact ⟨hle, hto, Option.isSome_of_eq_some hget⟩

/-- The largest id of an answer that is not empty. -/
theorem maxLogId_storedLogs {m : Nat} (hm : IsGreatest (servedIds S fromid toid) m) :
    maxLogId (storedLogs S fromid toid) = m := by
  obtain ⟨⟨hle, hto, hsome⟩, hgreatest⟩ := hm
  obtain ⟨le, hget⟩ := Option.isSome_iff_exists.mp hsome
  refine le_antisymm (foldl_max_le (Nat.zero_le _) fun x hx => ?_) (le_foldl_max ?_)
  · obtain ⟨le', hle', rfl⟩ := List.mem_map.mp hx
    exact hgreatest (getLogId_mem_servedIds hid hle')
  · exact List.mem_cons_of_mem _
      (List.mem_map.mpr ⟨le, mem_storedLogs.mpr ⟨m, hle, hto, hget⟩, hid m le hget⟩)

/-- The log of a key among the logs of an answer. -/
theorem find?_storedLogs {epoch id : Nat}
    (hepoch : ∀ le ∈ storedLogs S fromid toid, le.getEpoch = S.gCurrentProcessingEpoch) :
    (storedLogs S fromid toid).find? (fun le => le.getEpoch = epoch ∧ le.getLogId = id) =
      if epoch = S.gCurrentProcessingEpoch ∧ fromid ≤ id ∧ id ≤ toid then
        S.tryGetLog S.gCurrentProcessingEpoch id
      else none := by
  cases hfind : (storedLogs S fromid toid).find?
      (fun le => le.getEpoch = epoch ∧ le.getLogId = id) with
  | some le =>
      have hmem := List.mem_of_find?_eq_some hfind
      have hkey := List.find?_some hfind
      obtain ⟨hle, hlid⟩ := of_decide_eq_true hkey
      obtain ⟨j, hj, hjto, hget⟩ := mem_storedLogs.mp hmem
      obtain rfl : id = j := hlid.symm.trans (hid j le hget)
      rw [if_pos ⟨hle.symm.trans (hepoch le hmem), hj, hjto⟩, hget]
  | none =>
      split
      · next h =>
        cases hget : S.tryGetLog S.gCurrentProcessingEpoch id with
        | none => rfl
        | some le =>
            have hmem := mem_storedLogs.mpr ⟨id, h.2.1, h.2.2, hget⟩
            have hno := List.find?_eq_none.mp hfind le hmem
            rw [decide_eq_true ⟨(hepoch le hmem).trans h.1.symm, hid id le hget⟩] at hno
            exact absurd rfl hno
      · rfl

end roundTrip

/-- What the other node's database is to be after an answer: each stored log of the range is under
its key unless that key had a log, the logs were inserted in ascending order, nothing but the logs
and `latest_log_id` has changed, and this is the larger of its old value and the largest id; after
an answer without logs the database is as before. -/
structure ChunkSurvives (S : Serving) (fromid toid : Nat) (db db' : DataStore) : Prop where
  logs : ∀ epoch id, db'.logs epoch id = (db.logs epoch id).or
    (if epoch = S.gCurrentProcessingEpoch ∧ fromid ≤ id ∧ id ≤ toid then
      (S.tryGetLog S.gCurrentProcessingEpoch id).map LogEvent.content
    else none)
  ordered : ∃ sent : List LogEvent, (sent.Pairwise fun a b => a.getLogId < b.getLogId) ∧
    db' = { storeEvents db sent with latestLogId := db'.latestLogId }
  latest : ∀ m : Nat, IsGreatest (servedIds S fromid toid) m →
    db'.latestLogId = Function.update db.latestLogId S.gCurrentProcessingEpoch
      (max (db.latestLogId S.gCurrentProcessingEpoch) m)
  empty : servedIds S fromid toid = ∅ → db' = db

/-- The answer has a log, or `latest_log_id` is set; and the largest id is a `long long` that the
script reads exactly, or neither it nor what the script reads is above `latest_log_id`. -/
def LatestRecorded (S : Serving) (fromid toid : Nat) (latest : Int) : Prop :=
  (servedIds S fromid toid = ∅ → 0 ≤ latest) ∧
    ∀ m : Nat, IsGreatest (servedIds S fromid toid) m →
      luaNumber (wrapLongLong m) = m ∨ (m ≤ latest ∧ luaNumber (wrapLongLong m) ≤ latest)

/-- A number of at most 53 bits is read exactly. -/
theorem luaNumber_of_lt {x : Int} (h : x.natAbs < 2 ^ 53) : luaNumber x = x := by
  have hlog : x.natAbs.log2 + 1 - 53 = 0 := by
    rcases Nat.eq_zero_or_pos x.natAbs with h0 | hpos
    · rw [h0]
      rfl
    · have := (Nat.log2_lt hpos.ne').2 h
      omega
  rw [luaNumber, hlog, pow_zero, Nat.mod_one, Nat.div_one, if_neg (by omega), Nat.add_zero, Nat.mul_one]
  exact Int.sign_mul_natAbs x

/-- Ids of at most 53 bits are recorded right, where the answer has a log or `latest_log_id` is
set. -/
theorem latestRecorded_of_lt {S : Serving} {fromid toid : Nat} {latest : Int}
    (htop : toid < 2 ^ 53) (h : servedIds S fromid toid = ∅ → 0 ≤ latest) :
    LatestRecorded S fromid toid latest := by
  refine ⟨h, fun m hm => .inl ?_⟩
  have hle : m ≤ toid := hm.1.2.1
  have hwrap : wrapLongLong m = m := by
    rw [wrapLongLong, BitVec.toInt_ofInt]
    exact Int.bmod_eq_of_le (by omega) (by omega)
  rw [hwrap]
  exact luaNumber_of_lt (by omega)

theorem dbUpdateLatestLogId_frame (db : DataStore) (epoch logId : Nat) :
    db.dbUpdateLatestLogId epoch logId =
      { db with latestLogId := (db.dbUpdateLatestLogId epoch logId).latestLogId } := by
  rw [DataStore.dbUpdateLatestLogId]
  split <;> rfl

/-- The script takes an id into account. -/
theorem latestLogId_dbUpdate (db : DataStore) (epoch logId : Nat) :
    (db.dbUpdateLatestLogId epoch logId).latestLogId = Function.update db.latestLogId epoch
      (max (db.latestLogId epoch) (luaNumber (wrapLongLong logId))) := by
  rw [DataStore.dbUpdateLatestLogId]
  split
  · next h => rw [max_eq_right h.le]
  · next h => rw [max_eq_left (not_lt.mp h), Function.update_eq_self]

/-- Of an answer with a log the database is as it is to be exactly when the largest id is recorded
right, and an answer without one must not set `latest_log_id`. -/
theorem chunkSurvives_iff {S : Serving} {fromid toid : Nat}
    (hid : ∀ id le, S.tryGetLog S.gCurrentProcessingEpoch id = some le → le.getLogId = id)
    (hepoch : ∀ le ∈ storedLogs S fromid toid, le.getEpoch = S.gCurrentProcessingEpoch)
    (db : DataStore) :
    ChunkSurvives S fromid toid db
        ((storeEvents db (storedLogs S fromid toid)).dbUpdateLatestLogId S.gCurrentProcessingEpoch
          (maxLogId (storedLogs S fromid toid))) ↔
      LatestRecorded S fromid toid (db.latestLogId S.gCurrentProcessingEpoch) := by
  have hold : (storeEvents db (storedLogs S fromid toid)).latestLogId = db.latestLogId := by
    rw [storeEvents_frame]
  have hlatest := latestLogId_dbUpdate (storeEvents db (storedLogs S fromid toid))
    S.gCurrentProcessingEpoch (maxLogId (storedLogs S fromid toid))
  have hframe := dbUpdateLatestLogId_frame (storeEvents db (storedLogs S fromid toid))
    S.gCurrentProcessingEpoch (maxLogId (storedLogs S fromid toid))
  rw [hold] at hlatest
  have hrecord : ∀ m : Nat, IsGreatest (servedIds S fromid toid) m →
      (((storeEvents db (storedLogs S fromid toid)).dbUpdateLatestLogId S.gCurrentProcessingEpoch
          (maxLogId (storedLogs S fromid toid))).latestLogId =
        Function.update db.latestLogId S.gCurrentProcessingEpoch
          (max (db.latestLogId S.gCurrentProcessingEpoch) m) ↔
      luaNumber (wrapLongLong m) = m ∨ (m ≤ db.latestLogId S.gCurrentProcessingEpoch ∧
        luaNumber (wrapLongLong m) ≤ db.latestLogId S.gCurrentProcessingEpoch)) := by
    intro m hm
    rw [hlatest, maxLogId_storedLogs hid hm, (Function.update_injective _ _).eq_iff]
    omega
  have hnone : servedIds S fromid toid = ∅ → storedLogs S fromid toid = [] := by
    intro hempty
    refine List.eq_nil_iff_forall_not_mem.mpr fun le hle => ?_
    have hmem := getLogId_mem_servedIds hid hle
    rw [hempty] at hmem
    exact hmem
  constructor
  · intro h
    refine ⟨fun hempty => ?_, fun m hm => (hrecord m hm).mp (h.latest m hm)⟩
    have hsame := congrArg (fun db' => db'.latestLogId S.gCurrentProcessingEpoch) (h.empty hempty)
    rw [hlatest, hnone hempty, Function.update_self] at hsame
    exact (le_max_right _ _).trans_eq hsame
  · intro h
    refine ⟨fun epoch id => ?_, ⟨_, storedLogs_ascending hid, hframe⟩,
      fun m hm => (hrecord m hm).mpr (h.2 m hm), fun hempty => ?_⟩
    · rw [hframe]
      dsimp only
      rw [storeEvents_logs, find?_storedLogs hid hepoch]
      split <;> rfl
    · rw [hnone hempty] at hlatest hframe ⊢
      rw [hframe, hlatest]
      have hzero : max (db.latestLogId S.gCurrentProcessingEpoch)
          (luaNumber (wrapLongLong (maxLogId []))) = db.latestLogId S.gCurrentProcessingEpoch :=
        max_eq_left (h.1 hempty)
      rw [hzero, Function.update_eq_self]
      rfl

/-- Two nodes in one epoch. An accepted request for ids below the top, over stored logs that all
pass the check and fit into a packet, is answered with one packet; taken apart by the other node it
leaves the database as it is to be, exactly when the largest id of the answer is recorded right. -/
theorem log_chunk_survives (S : Serving) (store : LogDB) (D : DataReceiver) (node : DataNode)
    (conn : Conn) (dejavu rnd : Nat) (ptr stale : List Byte)
    (hstore : S.tryGetLog = dbTryGetLog store) (hhash : D.K = S.K)
    (hepoch : D.receiver.gCurrentProcessingEpoch.toNat = S.gCurrentProcessingEpoch)
    (hpass : passcodeIsZero ptr = true)
    (hacc : (readLE ptr 40 8 + 2 ^ 64 - readLE ptr 32 8 + 1) % 2 ^ 64 < 1000)
    (htop : readLE ptr 40 8 < 2 ^ 64 - 1)
    (hcheck : ∀ le ∈ storedLogs S (readLE ptr 32 8) (readLE ptr 40 8),
      le.selfCheck S.K S.gCurrentProcessingEpoch = true)
    (hsize : ((storedLogs S (readLE ptr 32 8) (readLE ptr 40 8)).map
      fun le => le.content.length).sum + 8 < 2 ^ 24) :
    ∃ packet, replyLogEvent S conn dejavu rnd ptr = .ok [⟨conn, packet⟩] ∧
      (RequestResponseHeader.ofBytes packet).type = RESPOND_LOG ∧
      (RequestResponseHeader.ofBytes packet).size = packet.length ∧
      (ChunkSurvives S (readLE ptr 32 8) (readLE ptr 40 8) node.db
          (processLogEvent D node (packet ++ stale) (packet.length - 8)).2.db ↔
        LatestRecorded S (readLE ptr 32 8) (readLE ptr 40 8)
          (node.db.latestLogId S.gCurrentProcessingEpoch)) := by
  have hid : ∀ id le, S.tryGetLog S.gCurrentProcessingEpoch id = some le → le.getLogId = id := by
    intro id le h
    rw [hstore] at h
    exact dbTryGetLog_id h
  generalize hsent : storedLogs S (readLE ptr 32 8) (readLE ptr 40 8) = sent at hcheck hsize
  have hpacked : sent.flatMap packedLog = sent.flatMap LogEvent.content :=
    List.flatMap_congr fun le hle => packedLog_of_selfCheck (hcheck le hle)
  have hlength : 8 + (sent.flatMap LogEvent.content).length < 2 ^ 24 := by
    rw [List.length_flatMap]
    omega
  obtain ⟨htype, hlen⟩ := reply_header conn dejavu RESPOND_LOG
    (sent.flatMap LogEvent.content) (by decide) hlength
  refine ⟨(reply conn dejavu RESPOND_LOG (sent.flatMap LogEvent.content)).packet, ?_, htype, hlen, ?_⟩
  · rw [replyLogEvent_eq hpass hacc htop, hsent, hpacked]
    rfl
  have hwhole : wholeEvents D.K D.receiver.gCurrentProcessingEpoch.toNat
      ((reply conn dejavu RESPOND_LOG (sent.flatMap LogEvent.content)).packet.drop 8) =
        (sent, []) := by
    rw [drop_reply, hhash, hepoch]
    exact wholeEvents_flatMap sent hcheck
  have h8 : 8 ≤ (reply conn dejavu RESPOND_LOG (sent.flatMap LogEvent.content)).packet.length := by
    rw [length_reply]
    exact Nat.le_add_right _ _
  have hclean : EndsClean D.K D.receiver.gCurrentProcessingEpoch.toNat
      ((reply conn dejavu RESPOND_LOG (sent.flatMap LogEvent.content)).packet.drop 8) := by
    rw [EndsClean, hwhole]
    exact .inl rfl
  rw [processLogEvent_db h8 hclean, hwhole, hepoch, ← hsent]
  refine chunkSurvives_iff hid (fun le hle => ?_) node.db
  exact (LogEvent.selfCheck_spec (hcheck le (hsent ▸ hle))).2.1

/-- The logs 4, 6 and 7 are taken over by a node without any. -/
theorem log_chunk_survives_gap :
    ∃ packet, replyLogEvent (logServing gapLogDB) 0 7 7 (logRequest 4 7) = .ok [⟨0, packet⟩] ∧
      ChunkSurvives (logServing gapLogDB) 4 7 emptyNode.db
        (processLogEvent bareReceiver emptyNode packet (packet.length - 8)).2.db := by
  have hfrom : readLE (logRequest 4 7) 32 8 = 4 := by decide
  have hto : readLE (logRequest 4 7) 40 8 = 7 := by decide
  have hserved : (6 : Nat) ∈ servedIds (logServing gapLogDB) 4 7 :=
    ⟨by decide, by decide, by decide +kernel⟩
  obtain ⟨packet, hreply, -, -, hiff⟩ := log_chunk_survives (logServing gapLogDB) gapLogDB
    bareReceiver emptyNode 0 7 7 (logRequest 4 7) [] rfl rfl rfl (by decide) (by decide) (by decide)
    (by rw [hfrom, hto]; decide +kernel) (by rw [hfrom, hto]; decide +kernel)
  rw [hfrom, hto, List.append_nil] at hiff
  refine ⟨packet, hreply, hiff.2 (latestRecorded_of_lt (by decide) fun hempty => ?_)⟩
  rw [hempty] at hserved
  exact hserved.elim

/-- An answer without logs sets the `latest_log_id` of a node that has none to 0. -/
theorem empty_chunk_sets_latest :
    ¬ ∀ packet, replyLogEvent (logServing emptyLogDB) 0 7 7 (logRequest 4 6) = .ok [⟨0, packet⟩] →
      ChunkSurvives (logServing emptyLogDB) 4 6 emptyNode.db
        (processLogEvent bareReceiver emptyNode packet (packet.length - 8)).2.db := by
  intro h
  have hnone : servedIds (logServing emptyLogDB) 4 6 = ∅ :=
    Set.eq_empty_iff_forall_notMem.mpr fun id hid => Bool.false_ne_true hid.2.2
  have hsurvives := h _ (replyLogEvent_eq (by decide) (by decide) (by decide))
  have hzero := congrArg (fun db => db.latestLogId 0) (hsurvives.empty hnone)
  exact absurd hzero (by decide +kernel)

end QubicBob
