import QubicBob.Lib.Runs
import QubicBob.Network.LogHistory

set_option autoImplicit false

/-! # Fetching logs from other nodes

The fetcher of the logs together with the threads it shares the database with: the data threads,
which store what the other nodes answer, the other senders, which note their packets in the same map
of dejavus, the garbage cleaner, and restarts of the program. An answer may come at any time after
its request, any number of times, or never. Each call of a `db_` function is one step, the handler
of a packet another, so between any two of them the other threads may work.

The fetcher goes by what it reads of the database, so what it has found out must still hold when it
goes on. The invariant `LogSync.Kept` says what nobody takes away:

* the ranges, summaries and logs in KeyDB are those of the epoch. What is stored comes in an answer
  to a request, and a request for log ranges is told from another packet by its length, and its tick
  read from it, under the dejavu of the answer. So the dejavus of such requests must stand for them
  as long as an answer may come; another packet of the same length under one of them would file the
  struct of one tick under another;
* what the fetcher has found out of its tick holds of the database as it is now, and the ticks it
  has left are complete. Stores only add to what is there. The cleaner removes, and it removes logs
  by their ids: what it still has to remove of a tick it has reached is `LogDeletion.Behind` that
  tick, and where the ids of later ticks are larger it does not touch the ticks ahead of it.

Once the cleaner has reached the fetcher's own tick nothing is claimed of this one any more.
-/

namespace QubicBob

/-! ## The system -/

/-- What a request takes with it to its connection. -/
structure Route where
  passcode : m256i
  padding : BitVec 32
  dejavu : BitVec 32
  /-- `randomizeDejavu` does not give zero -/
  dejavu_ne : dejavu ≠ 0

/-- What the garbage cleaner has to take from KeyDB, as far as log ranges and logs are concerned. -/
inductive LogDeletion where
  | deleteLogRanges (tick : Nat)
  /-- the loop of `db_delete_logs`, from `start` on -/
  | deleteLogs (epoch : Nat) (start last : Int)

structure LogSync where
  peer : PeerNode
  fetcher : LogFetcher
  /-- the requests of the fetcher since the program was started -/
  asked : List AskedRequest
  gInitialTick : Nat
  /-- the last tick of which the garbage cleaner has removed anything -/
  lastClean : Nat
  /-- what it has still to remove -/
  cleaning : List LogDeletion

inductive LogSyncStep where
  /-- a step of the fetcher; without a valid connection its request is not sent -/
  | fetch (kvrocks : Nat → Option (Int × Int)) (up : Bool) (route : Option Route)
  | peer (st : PeerStep)
  /-- `IOVerifyThread` moves `gCurrentFetchingTick` -/
  | progressTick (tick : Nat)
  /-- the verifier enters or leaves rescue mode -/
  | refetch (fromTick toTick fromId toId : Int)
  /-- the garbage cleaner reads the struct of a tick -/
  | clean (tick epoch : Nat) (kvrocks : Option (List Byte)) (hasTransaction : Nat → Bool)
  /-- it removes the next record -/
  | delete
  | restart (gCurrentFetchingTick : Nat)

namespace DataStore

/-- Both records of the tick are unlinked. -/
def dbDeleteLogRanges (db : DataStore) (tick : Nat) : DataStore :=
  { db with
    logRanges := Function.update db.logRanges tick none
    tickLogRange := Function.update db.tickLogRange tick none }

/-- The logs from `start` to `last` are unlinked. -/
def dbDeleteLogs (db : DataStore) (epoch : Nat) (start last : Int) : DataStore :=
  { db with
    logs := fun e id => if e = epoch ∧ start ≤ id ∧ id ≤ last then none else db.logs e id }

end DataStore

/-- `cleanTransactionLogs` for a tick with this struct: its records, and then the logs of its
transactions. -/
def cleanTransactionLogs (tick epoch : Nat) (lr : LogRangesPerTxInTick)
    (hasTransaction : Nat → Bool) : List LogDeletion :=
  .deleteLogRanges tick :: (List.finRange LOG_TX_PER_TICK).filterMap fun i =>
    let fromLogId := (lr.fromLogId i).toInt
    let length := (lr.length i).toInt
    if i.val < NUMBER_OF_TRANSACTIONS_PER_TICK ∧ hasTransaction i.val = true ∧
        0 < fromLogId ∧ 0 < length then
      some (.deleteLogs epoch fromLogId (fromLogId + length - 1))
    else none

namespace LogDeletion

/-- One call of `db_delete_log_ranges`, or one round of the loop over the logs. -/
def exec (db : DataStore) : LogDeletion → DataStore
  | deleteLogRanges tick => db.dbDeleteLogRanges tick
  | deleteLogs epoch start _ => db.dbDeleteLogs epoch start start

/-- What is left to do after it. -/
def rest : LogDeletion → List LogDeletion
  | deleteLogRanges _ => []
  | deleteLogs epoch start last => if start < last then [.deleteLogs epoch (start + 1) last] else []

end LogDeletion

namespace LogSync

variable (s : LogSync)

/-- The database the threads share. -/
def db : DataStore := s.peer.node.db

def withDb (db : DataStore) : LogSync :=
  { s with peer := { s.peer with node := { s.peer.node with db := db } } }

/-- `sendWithPasscodeToRandom`. -/
def ask (r : LogRequest) (h : r.OneChunk) : Option Route → LogSync
  | none => s
  | some route =>
      let a : AskedRequest := ⟨r, route.passcode, route.padding, route.dejavu, h⟩
      { s with peer := s.peer.enqueueSend false a.packet, asked := a :: s.asked }

def step : LogSyncStep → LogSync
  | .fetch kvrocks up route =>
      let s' := { s with fetcher := (s.fetcher.step ⟨s.db, kvrocks, up⟩).2 }
      match h : (s.fetcher.step ⟨s.db, kvrocks, up⟩).1 with
      | none => s'
      | some r => s'.ask r (LogFetcher.step_request h) route
  | .peer st => { s with peer := s.peer.step st }
  | .progressTick tick => { s with fetcher := { s.fetcher with gCurrentFetchingTick := tick } }
  | .refetch fromTick toTick fromId toId =>
      { s with fetcher := { s.fetcher with
        refetchLogFromTick := fromTick, refetchLogToTick := toTick
        refetchFromId := fromId, refetchToId := toId } }
  | .clean tick epoch kvrocks hasTransaction =>
      match s.cleaning, (s.db.logRanges tick).or kvrocks with
      | [], some logRange =>
          { s with
            lastClean := max s.lastClean tick
            cleaning :=
              QubicBob.cleanTransactionLogs tick epoch (.ofBytes logRange) hasTransaction }
      | _, _ => s
  | .delete =>
      match s.cleaning with
      | [] => s
      | d :: ds => { s.withDb (d.exec s.db) with cleaning := d.rest ++ ds }
  | .restart gCurrentFetchingTick =>
      { s with
        peer := { s.peer with node := { s.peer.node with
          requestMapperFrom := RequestMap.empty, responseSCData := RequestMap.empty } }
        -- the tick is read from `db_status`, and is at least the initial tick of the epoch
        fetcher :=
          { gCurrentProcessingEpoch := s.fetcher.gCurrentProcessingEpoch
            gCurrentFetchingTick := gCurrentFetchingTick
            gCurrentFetchingLogTick := max s.gInitialTick ((s.fetcher.latestEvent.map Prod.fst).getD 0)
            latestEvent := s.fetcher.latestEvent }
        asked := []
        cleaning := [] }

theorem ask_frame {r : LogRequest} (h : r.OneChunk) (route : Option Route) :
    (s.ask r h route).fetcher = s.fetcher ∧ (s.ask r h route).gInitialTick = s.gInitialTick ∧
      (s.ask r h route).lastClean = s.lastClean ∧ (s.ask r h route).cleaning = s.cleaning := by
  cases route with
  | none => exact ⟨rfl, rfl, rfl, rfl⟩
  | some route => exact ⟨rfl, rfl, rfl, rfl⟩

/-- No request for log ranges that may still be answered has the dejavu of this packet, unless the
packet is this request or has another length. -/
def Fresh (packet : List Byte) : Prop :=
  ∀ a ∈ s.asked, a.packet.length = 48 → packet.length = 48 →
    (RequestResponseHeader.ofBytes packet).getDejavu = a.dejavu.toNat → packet = a.packet

end LogSync

/-! ## The conditions on a run -/

section conditions

variable {K : KangarooTwelve} (H : LogHistory K)

/-- The ids of later ticks are larger. -/
def LogHistory.Ordered : Prop :=
  ∀ {t t' r r'}, t < t' → H.summary t = some r → H.summary t' = some r' → r.1 ≠ -1 → r'.1 ≠ -1 →
    r.1 + r.2 ≤ r'.1

/-- Packets with logs and log ranges come from trusted connections in answer to a request of the
fetcher, from nodes of the epoch; and no packet that is sent takes the dejavu of a request for log
ranges. -/
def LogSync.PeerOk (s : LogSync) : PeerStep → Prop
  | .data true _ packet =>
      ((RequestResponseHeader.ofBytes packet).type ≠ RESPOND_LOG ∧
        (RequestResponseHeader.ofBytes packet).type ≠ LOG_RANGES_PER_TX_IN_TICK) ∨
      ∃ a ∈ s.asked, H.AnswerTo a packet
  | .request _ conn packet x rnd stale => ∀ sends,
      replyTo (s.peer.serving x) conn (RequestResponseHeader.ofBytes packet).getDejavu rnd
        (packet.drop 8 ++ stale) (RequestResponseHeader.ofBytes packet).type = .ok sends →
          ∀ send ∈ sends, s.Fresh send.packet
  | .ownPacket packet => s.Fresh packet
  | .progress R => R.gCurrentProcessingEpoch.toNat = H.epoch
  | _ => True

/-- What Kvrocks has is of the epoch, and dejavus are not used twice. -/
def LogSync.Ok (s : LogSync) : LogSyncStep → Prop
  | .fetch kvrocks up route =>
      (∀ {tick r}, kvrocks tick = some r → H.summary tick = some r) ∧
      ∀ r ∈ (s.fetcher.step ⟨s.db, kvrocks, up⟩).1, ∀ ρ ∈ route,
        s.Fresh (enqueueWithHeader ρ.dejavu.toNat r.type (r.bytes ρ.passcode ρ.padding))
  | .peer st => s.PeerOk H st
  | .clean tick _ kvrocks _ => ∀ {b}, kvrocks = some b → H.ranges tick = some b
  | _ => True

/-- The program is started for the first time in the epoch. -/
structure LogSync.Starts (s : LogSync) : Prop where
  hash : s.peer.env.K = K
  epoch : s.peer.env.receiver.gCurrentProcessingEpoch.toNat = H.epoch
  fetcherEpoch : s.fetcher.gCurrentProcessingEpoch = H.epoch
  holds : H.Holds s.db
  tick : s.fetcher.gCurrentFetchingLogTick = s.gInitialTick
  latestEvent : s.fetcher.latestEvent = none
  phase : s.fetcher.phase = .refetchTicks
  asked : s.asked = []
  cleaning : s.cleaning = []

/-- KeyDB has the struct of the tick and a log under each id of its summary. -/
structure LogHistory.Complete (db : DataStore) (tick : Nat) : Prop where
  ranges : (db.logRanges tick).isSome = true
  logs : Fetched (H.summary tick) fun id => db.dbLogExists H.epoch id = true

end conditions

/-! ## Ids of a summary -/

section summaries

variable {K : KangarooTwelve} {H : LogHistory K} {tick : Nat} {r : Int × Int}

/-- A summary is a range of ids that are `long long` numbers, or stands for no logs. -/
theorem LogHistory.summary_wf (h : H.summary tick = some r) :
    r = (-1, -1) ∨ (0 ≤ r.1 ∧ 0 ≤ r.2 ∧ r.1 + r.2 < 2 ^ 63 - 1) := by
  obtain ⟨b, hb, rfl⟩ := Option.map_eq_some_iff.mp h
  have hcover := LogRangesPerTxInTick.smallestCover_summary (H.ranges_accepted hb) (H.ranges_fit hb)
  have hnonneg := LogRangesPerTxInTick.nonneg_of_accepted (H.ranges_accepted hb)
  by_cases hnone : (LogRangesPerTxInTick.ofBytes b).used = []
  · exact .inl (hcover.1 hnone)
  obtain ⟨hall, ⟨r₁, hr₁, hfirst⟩, r₂, hr₂, hlast⟩ := hcover.2 hnone
  have hend := H.ranges_end hb r₂ hr₂
  rw [LLONG_MAX] at hend
  have h₁ := hnonneg r₁ hr₁
  have hin := hall r₁ hr₁
  exact .inr ⟨by omega, by omega, by omega⟩

/-- The range of a transaction that has logs is inside the summary. -/
theorem LogHistory.slot_in_summary {b : List Byte} (hb : H.ranges tick = some b)
    {i : Fin LOG_TX_PER_TICK} (hfrom : 0 < ((LogRangesPerTxInTick.ofBytes b).fromLogId i).toInt)
    (hlen : 0 < ((LogRangesPerTxInTick.ofBytes b).length i).toInt) :
    ∃ r, H.summary tick = some r ∧ r.1 ≠ -1 ∧
      ((LogRangesPerTxInTick.ofBytes b).fromLogId i).toInt +
        ((LogRangesPerTxInTick.ofBytes b).length i).toInt ≤ r.1 + r.2 := by
  have hsummary : H.summary tick = some (LogRangesPerTxInTick.ofBytes b).summary := by
    rw [LogHistory.summary, hb, Option.map_some]
  have hused : (((LogRangesPerTxInTick.ofBytes b).fromLogId i).toInt,
      ((LogRangesPerTxInTick.ofBytes b).length i).toInt) ∈ (LogRangesPerTxInTick.ofBytes b).used := by
    rw [LogRangesPerTxInTick.used, List.mem_filterMap]
    exact ⟨i, List.mem_finRange i, if_neg (by omega)⟩
  have hcover := (LogRangesPerTxInTick.smallestCover_summary (H.ranges_accepted hb)
    (H.ranges_fit hb)).2 (List.ne_nil_of_mem hused)
  obtain ⟨r₁, hr₁, hfirst⟩ := hcover.2.1
  have hnonneg := LogRangesPerTxInTick.nonneg_of_accepted (H.ranges_accepted hb) r₁ hr₁
  exact ⟨_, hsummary, by omega, (hcover.1 _ hused).2⟩

theorem toNat_ofInt_of_lt {id : Int} (h₀ : 0 ≤ id) (h : id < 2 ^ 63) :
    ((BitVec.ofInt 64 id).toNat : Int) = id := by
  rw [BitVec.toNat_ofInt]
  omega

/-- What the fetcher reads as the range of a tick is its summary. -/
theorem LogHistory.Holds.dbTryGetLogRangeForTick {db : DataStore} (h : H.Holds db)
    {kvrocks : Nat → Option (Int × Int)}
    (hkv : ∀ {tick r}, kvrocks tick = some r → H.summary tick = some r) {up : Bool}
    (hread : db.dbTryGetLogRangeForTick kvrocks up tick = some r) : H.summary tick = some r := by
  obtain ⟨x, hx, hr⟩ := Option.map_eq_some_iff.mp hread
  have hsummary : H.summary tick = some x := by
    rcases Option.or_eq_some_iff.mp hx with hx | ⟨-, hx⟩
    · cases up with
      | true => exact h.summary hx
      | false => cases hx
    · exact hkv hx
  rcases H.summary_wf hsummary with rfl | ⟨h₁, h₂, -⟩
  · rw [← hr, hsummary]
    rfl
  · rw [if_neg (by omega)] at hr
    rw [← hr, hsummary]

end summaries

/-! ## Cleaning -/

section deletions

variable {K : KangarooTwelve} {H : LogHistory K} {db db' : DataStore} {T I : Nat → Prop}

/-- Nothing but log ranges of whole ticks and logs has been taken from the database. -/
structure DataStore.Deletes (db db' : DataStore) : Prop where
  ranges : ∀ t, (db'.logRanges t = db.logRanges t ∧ db'.tickLogRange t = db.tickLogRange t) ∨
    (db'.logRanges t = none ∧ db'.tickLogRange t = none)
  logs : ∀ {epoch id c}, db'.logs epoch id = some c → db.logs epoch id = some c

theorem DataStore.deletes_dbDeleteLogRanges (db : DataStore) (tick : Nat) :
    db.Deletes (db.dbDeleteLogRanges tick) where
  ranges t := by
    rw [DataStore.dbDeleteLogRanges]
    by_cases ht : t = tick
    · rw [ht]
      exact .inr ⟨Function.update_self _ _ _, Function.update_self _ _ _⟩
    · exact .inl ⟨Function.update_of_ne ht _ _, Function.update_of_ne ht _ _⟩
  logs h := h

theorem DataStore.deletes_dbDeleteLogs (db : DataStore) (epoch : Nat) (start last : Int) :
    db.Deletes (db.dbDeleteLogs epoch start last) where
  ranges _ := .inl ⟨rfl, rfl⟩
  logs h := by
    rw [DataStore.dbDeleteLogs] at h
    dsimp only at h
    split at h
    · cases h
    · exact h

theorem LogDeletion.deletes (d : LogDeletion) (db : DataStore) : db.Deletes (d.exec db) := by
  cases d with
  | deleteLogRanges tick => exact db.deletes_dbDeleteLogRanges tick
  | deleteLogs epoch start last => exact db.deletes_dbDeleteLogs epoch start start

theorem LogHistory.HoldsOn.deletes (h : H.HoldsOn T I db) (hdel : db.Deletes db') :
    H.HoldsOn T I db' where
  ranges {t b} ht hb := by
    rcases hdel.ranges t with ⟨hsame, -⟩ | ⟨hnone, -⟩
    · exact h.ranges ht (hsame ▸ hb)
    · rw [hnone] at hb
      cases hb
  summary {t r} ht hr := by
    rcases hdel.ranges t with ⟨-, hsame⟩ | ⟨-, hnone⟩
    · exact h.summary ht (hsame ▸ hr)
    · rw [hnone] at hr
      cases hr
  both {t} ht hsome := by
    rcases hdel.ranges t with ⟨hsame, hsame'⟩ | ⟨hnone, -⟩
    · rw [hsame']
      exact h.both ht (hsame ▸ hsome)
    · rw [hnone] at hsome
      cases hsome
  logs hi hc := h.logs hi (hdel.logs hc)

/-- What is to be removed belongs to a tick the cleaner has reached: the log ranges of one, or logs
that end inside the summary of one. -/
def LogDeletion.Behind (H : LogHistory K) (lastClean : Nat) : LogDeletion → Prop
  | deleteLogRanges tick => tick ≤ lastClean
  | deleteLogs _ start last => start ≤ last ∧ ∃ tick r, tick ≤ lastClean ∧
      H.summary tick = some r ∧ r.1 ≠ -1 ∧ last < r.1 + r.2

theorem LogDeletion.Behind.mono {lastClean lastClean' : Nat} {d : LogDeletion}
    (h : d.Behind H lastClean) (hle : lastClean ≤ lastClean') : d.Behind H lastClean' := by
  cases d with
  | deleteLogRanges tick => exact le_trans h hle
  | deleteLogs epoch start last =>
      obtain ⟨hstart, tick, r, htick, hr⟩ := h
      exact ⟨hstart, tick, r, htick.trans hle, hr⟩

/-- Everything that is removed for a tick. -/
theorem behind_cleanTransactionLogs {tick : Nat} {b : List Byte} (hb : H.ranges tick = some b)
    (epoch : Nat) (hasTransaction : Nat → Bool) :
    ∀ d ∈ cleanTransactionLogs tick epoch (.ofBytes b) hasTransaction, d.Behind H tick := by
  intro d hd
  rcases List.mem_cons.mp hd with rfl | hd
  · exact le_rfl
  · obtain ⟨i, -, hi⟩ := List.mem_filterMap.mp hd
    obtain ⟨⟨-, -, hfrom, hlen⟩, hi⟩ := Option.ite_none_right_eq_some.mp hi
    obtain ⟨r, hr, hne, hle⟩ := H.slot_in_summary hb hfrom hlen
    rw [← Option.some.inj hi]
    exact ⟨by omega, tick, r, le_rfl, hr, hne, by omega⟩

theorem LogDeletion.Behind.rest {lastClean : Nat} {d : LogDeletion} (h : d.Behind H lastClean) :
    ∀ d' ∈ d.rest, d'.Behind H lastClean := by
  intro d' hd'
  cases d with
  | deleteLogRanges tick => cases hd'
  | deleteLogs epoch start last =>
      rw [LogDeletion.rest] at hd'
      split at hd'
      · next hlt =>
          rw [List.mem_singleton.mp hd']
          exact ⟨by omega, h.2⟩
      · cases hd'

/-- A later tick keeps its log ranges. -/
theorem LogDeletion.Behind.logRanges {lastClean t : Nat} {d : LogDeletion}
    (h : d.Behind H lastClean) (ht : lastClean < t) (db : DataStore) :
    (d.exec db).logRanges t = db.logRanges t := by
  cases d with
  | deleteLogRanges tick =>
      have hle : tick ≤ lastClean := h
      exact Function.update_of_ne (by omega) _ _
  | deleteLogs epoch start last => rfl

/-- A later tick keeps its logs: their ids are larger. -/
theorem LogDeletion.Behind.logs {lastClean t : Nat} {d : LogDeletion} (h : d.Behind H lastClean)
    (hordered : H.Ordered) (ht : lastClean < t) {r : Int × Int} (hr : H.summary t = some r)
    {id : Int} (hle : r.1 ≤ id) (hlt : id < r.1 + r.2) (db : DataStore)
    (hid : db.dbLogExists H.epoch id = true) : (d.exec db).dbLogExists H.epoch id = true := by
  cases d with
  | deleteLogRanges tick => exact hid
  | deleteLogs epoch start last =>
      obtain ⟨hstart, tick, r', htick, hr', hne, hlast⟩ := h
      rcases H.summary_wf hr with rfl | ⟨h₀, h₁, h₂⟩
      · dsimp only at hle hlt
        omega
      · have hbefore := hordered (by omega) hr' hr hne (by omega)
        have hne' : ((BitVec.ofInt 64 id).toNat : Int) ≠ start := by
          rw [toNat_ofInt_of_lt (by omega) (by omega)]
          omega
        rw [DataStore.dbLogExists] at hid ⊢
        rw [LogDeletion.exec, DataStore.dbDeleteLogs]
        dsimp only
        rwa [if_neg fun hdel => hne' (by omega)]

end deletions

/-! ## The invariant -/

section invariant

variable {K : KangarooTwelve} {H : LogHistory K} {s s' : LogSync}

/-- Besides what is claimed of a state: what the fetcher has found out about its tick, and that the
dejavus of its requests stand for them. -/
structure LogSync.Kept (H : LogHistory K) (s : LogSync) : Prop where
  hash : s.peer.env.K = K
  epoch : s.peer.env.receiver.gCurrentProcessingEpoch.toNat = H.epoch
  fetcherEpoch : s.fetcher.gCurrentProcessingEpoch = H.epoch
  holds : H.Holds s.db
  base : s.gInitialTick ≤ s.fetcher.gCurrentFetchingLogTick
  event : ∀ e ∈ s.fetcher.latestEvent, e.1 ≤ s.fetcher.gCurrentFetchingLogTick
  noted : ∀ a ∈ s.asked, a.Noted s.peer.node.requestMapperFrom
  ranged : s.lastClean < s.fetcher.gCurrentFetchingLogTick → s.fetcher.phase.ranged = true →
    s.db.dbCheckLogRange s.fetcher.gCurrentFetchingLogTick = true
  scanned : s.lastClean < s.fetcher.gCurrentFetchingLogTick →
    s.fetcher.phase.Scanned (H.summary s.fetcher.gCurrentFetchingLogTick)
      fun id => s.db.dbLogExists H.epoch id = true
  passed : ∀ tick, s.gInitialTick ≤ tick → tick < s.fetcher.gCurrentFetchingLogTick →
    s.lastClean < tick → H.Complete s.db tick
  cleaning : ∀ d ∈ s.cleaning, d.Behind H s.lastClean

/-- A tick stays complete where nothing of it is taken from the database. -/
theorem LogHistory.Complete.mono {db db' : DataStore} {tick : Nat} (h : H.Complete db tick)
    (hranges : (db.logRanges tick).isSome = true → (db'.logRanges tick).isSome = true)
    (hlogs : ∀ r, H.summary tick = some r → ∀ id, r.1 ≤ id → id < r.1 + r.2 →
      db.dbLogExists H.epoch id = true → db'.dbLogExists H.epoch id = true) :
    H.Complete db' tick := by
  obtain ⟨r, hr, hall⟩ := h.logs
  refine ⟨hranges h.ranges, r, hr, ?_⟩
  rcases hall with h₁ | h₂ | hall
  · exact .inl h₁
  · exact .inr (.inl h₂)
  · exact .inr (.inr fun id hle hlt => hlogs r hr id hle hlt (hall id hle hlt))

/-- Sending a packet that takes no dejavu away. -/
theorem AskedRequest.Noted.enqueueSend {a : AskedRequest} {p : PeerNode} {client : Bool}
    {packet : List Byte} (h : a.Noted p.node.requestMapperFrom)
    (hfresh : a.packet.length = 48 → packet.length = 48 →
      (RequestResponseHeader.ofBytes packet).getDejavu = a.dejavu.toNat → packet = a.packet) :
    a.Noted (p.enqueueSend client packet).node.requestMapperFrom := by
  intro data hget hlen hdata
  rw [PeerNode.enqueueSend] at hget
  cases hnotes : PeerNode.notesDejavu packet with
  | none =>
      rw [hnotes] at hget
      exact h data hget hlen hdata
  | some dejavu =>
      rw [hnotes] at hget
      have hdejavu : (RequestResponseHeader.ofBytes packet).getDejavu = dejavu := by
        rw [PeerNode.notesDejavu] at hnotes
        split at hnotes
        · exact Option.some.inj hnotes
        · cases hnotes
      dsimp only at hget
      rw [RequestMap.get, RequestMap.add] at hget
      by_cases hsame : a.dejavu.toNat = dejavu
      · rw [hsame, Function.update_self, Option.map_some] at hget
        rw [← Option.some.inj hget] at hdata ⊢
        exact hfresh hlen hdata (hdejavu.trans hsame.symm)
      · rw [Function.update_of_ne hsame] at hget
        exact h data hget hlen hdata

theorem AskedRequest.Noted.foldl_enqueueSend {a : AskedRequest} {client : Bool}
    {packets : List (List Byte)} {p : PeerNode} (h : a.Noted p.node.requestMapperFrom)
    (hfresh : ∀ packet ∈ packets, a.packet.length = 48 → packet.length = 48 →
      (RequestResponseHeader.ofBytes packet).getDejavu = a.dejavu.toNat → packet = a.packet) :
    a.Noted (packets.foldl (PeerNode.enqueueSend client) p).node.requestMapperFrom := by
  induction packets generalizing p with
  | nil => exact h
  | cons packet packets ih =>
      exact ih (h.enqueueSend (hfresh packet List.mem_cons_self))
        fun x hx => hfresh x (List.mem_cons_of_mem _ hx)

/-- The requests of a map that has lost entries. -/
theorem AskedRequest.Noted.clean {a : AskedRequest} {m : RequestMap} (h : a.Noted m)
    (now period : Nat) : a.Noted (m.clean now period) := by
  intro data hget
  refine h data ?_
  rw [RequestMap.get, Option.map_eq_some_iff] at hget ⊢
  obtain ⟨rd, hrd, hdata⟩ := hget
  exact ⟨rd, (Option.filter_eq_some_iff.mp hrd).1, hdata⟩

/-- The requests of the run are noted in the node that sends them. -/
structure LogSync.Linked (H : LogHistory K) (s : LogSync) : Prop where
  hash : s.peer.env.K = K
  epoch : s.peer.env.receiver.gCurrentProcessingEpoch.toNat = H.epoch
  noted : ∀ a ∈ s.asked, a.Noted s.peer.node.requestMapperFrom

/-- What a worker does to the log stores and to the noted requests. -/
theorem LogSync.Linked.worker {T I : Nat → Prop} (h : s.Linked H) (hon : H.HoldsOn T I s.db)
    {trusted : Bool} {k : Nat} {packet : List Byte}
    (hadm : PeerNode.admittedData trusted packet = true)
    (hok : s.PeerOk H (.data trusted k packet)) :
    H.HoldsOn T I (DataProcessorThread s.peer.env s.peer.node (s.peer.bufs k) packet).2.db ∧
      s.db.LogsGrow H.epoch
        (DataProcessorThread s.peer.env s.peer.node (s.peer.bufs k) packet).2.db ∧
      (DataProcessorThread s.peer.env s.peer.node (s.peer.bufs k) packet).2.requestMapperFrom =
        s.peer.node.requestMapperFrom := by
  obtain ⟨hpacket, -, hallowed⟩ := PeerNode.admittedData_spec hadm
  rw [PeerNode.dataProcessorThread_snd s.peer.env s.peer.node _ hpacket.1]
  split
  · exact ⟨hon, .refl H.epoch s.db, rfl⟩
  cases trusted with
  | false =>
      -- logs and log ranges from other peers are dropped
      rw [Bool.false_or, checkAllowedTypeForNonTrusted] at hallowed
      refine hon.processData_other (fun ht => ?_) fun ht => ?_
      · rw [ht] at hallowed
        exact absurd hallowed (by decide)
      · rw [ht] at hallowed
        exact absurd hallowed (by decide)
  | true =>
      rcases hok with ⟨hlog, hranges⟩ | ⟨a, ha, hanswer⟩
      · exact hon.processData_other hlog hranges
      · exact processData_answer h.hash h.epoch hon hanswer (h.noted a ha) hpacket.2 hpacket.1 _

/-- The replies to a request are sent. -/
theorem LogSync.Linked.sendReplies (h : s.Linked H) {trusted ticks : Bool} {dejavu rnd : Nat}
    {sends : List Send} (hfresh : ∀ send ∈ sends, s.Fresh send.packet) :
    LogSync.Linked H { s with peer := s.peer.sendReplies trusted ticks dejavu rnd sends } := by
  obtain ⟨henv, -, -, -⟩ := s.peer.sendReplies_frame trusted ticks dejavu rnd sends
  refine ⟨by rw [henv]; exact h.hash, by rw [henv]; exact h.epoch, fun a ha => ?_⟩
  rw [PeerNode.sendReplies_node]
  refine (h.noted a ha).foldl_enqueueSend fun x hx hlen => ?_
  obtain ⟨send, hsend, rfl⟩ := List.mem_map.mp hx
  exact hfresh send hsend a ha hlen

/-- Each step of the other threads. What comes in is of the epoch, whatever else the database has. -/
theorem LogSync.Linked.peer {T I : Nat → Prop} (h : s.Linked H) (hon : H.HoldsOn T I s.db)
    (st : PeerStep) (hok : s.PeerOk H st) :
    (s.step (.peer st)).Linked H ∧ H.HoldsOn T I (s.step (.peer st)).db ∧
      s.db.LogsGrow H.epoch (s.step (.peer st)).db := by
  have hsame := DataStore.LogsGrow.refl H.epoch s.db
  cases st with
  | data trusted k packet =>
      by_cases hadm : PeerNode.admittedData trusted packet = true
      swap
      · have hstep : s.step (.peer (.data trusted k packet)) = s := by
          rw [step, PeerNode.step, if_neg hadm]
        rw [hstep]
        exact ⟨h, hon, hsame⟩
      have hstep : s.step (.peer (.data trusted k packet)) = { s with peer :=
          { s.peer with
            node := (DataProcessorThread s.peer.env s.peer.node (s.peer.bufs k) packet).2
            bufs := Function.update s.peer.bufs k (Ring.overwrite (s.peer.bufs k) 0 packet) } } := by
        rw [step, PeerNode.step, if_pos hadm]
      obtain ⟨hholds, hgrow, hmap⟩ := h.worker hon hadm hok
      rw [hstep]
      refine ⟨⟨h.hash, h.epoch, fun a ha => ?_⟩, hholds, hgrow⟩
      dsimp only
      rw [hmap]
      exact h.noted a ha
  | request trusted conn packet x rnd stale =>
      rw [step, PeerNode.step]
      split
      · dsimp only
        split
        · exact ⟨h, hon, hsame⟩
        · next sends hreply =>
          obtain ⟨-, hdb, -, -⟩ := s.peer.sendReplies_frame trusted
            (readsTicks (RequestResponseHeader.ofBytes packet).type)
            (RequestResponseHeader.ofBytes packet).getDejavu rnd sends
          exact ⟨h.sendReplies (hok sends hreply), by rw [db, hdb]; exact hon,
            by rw [db, db, hdb]; exact hsame⟩
      · exact ⟨h, hon, hsame⟩
  | ownPacket packet =>
      obtain ⟨henv, hdb, -, -⟩ := PeerNode.enqueueSend_frame false s.peer packet
      rw [step, PeerNode.step]
      exact ⟨⟨by rw [henv]; exact h.hash, by rw [henv]; exact h.epoch,
        fun a ha => (h.noted a ha).enqueueSend (hok a ha)⟩, by rw [db, hdb]; exact hon,
        by rw [db, db, hdb]; exact hsame⟩
  | query nonce => exact ⟨⟨h.hash, h.epoch, h.noted⟩, hon, hsame⟩
  | clean => exact ⟨⟨h.hash, h.epoch, fun a ha => (h.noted a ha).clean _ _⟩, hon, hsame⟩
  | elapse seconds => exact ⟨⟨h.hash, h.epoch, h.noted⟩, hon, hsame⟩
  | progress R => exact ⟨⟨h.hash, hok, h.noted⟩, hon, hsame⟩

/-- The request of a fetcher's step is sent. -/
theorem LogSync.Linked.ask {r : LogRequest} (h : s.Linked H) (hr : r.OneChunk) (route : Option Route)
    (hfresh : ∀ ρ ∈ route,
      s.Fresh (enqueueWithHeader ρ.dejavu.toNat r.type (r.bytes ρ.passcode ρ.padding))) :
    (s.ask r hr route).Linked H ∧ (s.ask r hr route).db = s.db := by
  cases route with
  | none => exact ⟨h, rfl⟩
  | some ρ =>
      obtain ⟨henv, hdb, -, -⟩ := PeerNode.enqueueSend_frame false s.peer
        (AskedRequest.packet ⟨r, ρ.passcode, ρ.padding, ρ.dejavu, hr⟩)
      refine ⟨⟨by rw [LogSync.ask, henv]; exact h.hash, by rw [LogSync.ask, henv]; exact h.epoch,
        fun a ha => ?_⟩, by rw [LogSync.ask, db, hdb]; rfl⟩
      rcases List.mem_cons.mp ha with rfl | ha
      · -- the new request is noted under its own dejavu, which is not zero
        intro data hget _ _
        have hlen : 8 ≤ (AskedRequest.packet ⟨r, ρ.passcode, ρ.padding, ρ.dejavu, hr⟩).length := by
          rw [AskedRequest.packet, length_enqueueWithHeader]
          exact Nat.le_add_right _ _
        have hne : ρ.dejavu.toNat ≠ 0 := fun h0 => ρ.dejavu_ne (BitVec.eq_of_toNat_eq h0)
        have hnotes : PeerNode.notesDejavu (AskedRequest.packet ⟨r, ρ.passcode, ρ.padding,
            ρ.dejavu, hr⟩) = some ρ.dejavu.toNat := by
          rw [PeerNode.notesDejavu, AskedRequest.packet, dejavu_enqueueWithHeader]
          exact if_pos ⟨hlen, hne⟩
        rw [LogSync.ask, PeerNode.enqueueSend, hnotes] at hget
        dsimp only at hget
        rw [RequestMap.get, RequestMap.add, Function.update_self, Option.map_some] at hget
        exact (Option.some.inj hget).symm
      · exact (h.noted a ha).enqueueSend (hfresh ρ rfl a ha)

theorem LogSync.Kept.linked (h : s.Kept H) : s.Linked H := ⟨h.hash, h.epoch, h.noted⟩

/-- Steps that only add to the log stores. -/
theorem LogSync.Kept.grow (h : s.Kept H) (hfetcher : s'.fetcher = s.fetcher)
    (hinitial : s'.gInitialTick = s.gInitialTick) (hclean : s'.lastClean = s.lastClean)
    (hcleaning : s'.cleaning = s.cleaning) (hlinked : s'.Linked H) (hholds : H.Holds s'.db)
    (hgrow : s.db.LogsGrow H.epoch s'.db) :
    s'.Kept H where
  hash := hlinked.hash
  epoch := hlinked.epoch
  fetcherEpoch := by rw [hfetcher]; exact h.fetcherEpoch
  holds := hholds
  base := by rw [hfetcher, hinitial]; exact h.base
  event := by rw [hfetcher]; exact h.event
  noted := hlinked.noted
  ranged := by
    rw [hfetcher, hclean]
    exact fun hlt hp => hgrow.ranges (h.ranged hlt hp)
  scanned := by
    rw [hfetcher, hclean]
    exact fun hlt => (h.scanned hlt).mono fun id hid => hgrow.logs hid
  passed := by
    rw [hfetcher, hclean, hinitial]
    exact fun tick hle hlt hc => (h.passed tick hle hlt hc).mono hgrow.ranges
      fun _ _ id _ _ hid => hgrow.logs hid
  cleaning := by
    rw [hcleaning, hclean]
    exact h.cleaning

theorem LogSync.Kept.peer (h : s.Kept H) (st : PeerStep) (hok : s.PeerOk H st) :
    (s.step (.peer st)).Kept H := by
  obtain ⟨hlinked, hon, hgrow⟩ := h.linked.peer (LogHistory.holds_iff_holdsOn.mp h.holds) st hok
  exact h.grow rfl rfl rfl rfl hlinked (LogHistory.holds_iff_holdsOn.mpr hon) hgrow

theorem LogSync.Kept.ask {r : LogRequest} (h : s.Kept H) (hr : r.OneChunk) (route : Option Route)
    (hfresh : ∀ ρ ∈ route,
      s.Fresh (enqueueWithHeader ρ.dejavu.toNat r.type (r.bytes ρ.passcode ρ.padding))) :
    (s.ask r hr route).Kept H := by
  obtain ⟨hlinked, hdb⟩ := h.linked.ask hr route hfresh
  obtain ⟨hfetcher, hinitial, hclean, hcleaning⟩ := s.ask_frame hr route
  exact h.grow hfetcher hinitial hclean hcleaning hlinked (hdb ▸ h.holds) (hdb ▸ .refl _ _)

/-- A step of the fetcher without its request. -/
theorem LogSync.Kept.fetcherStep (h : s.Kept H) {kvrocks : Nat → Option (Int × Int)} (up : Bool)
    (hkv : ∀ {tick r}, kvrocks tick = some r → H.summary tick = some r) :
    LogSync.Kept H { s with fetcher := (s.fetcher.step ⟨s.db, kvrocks, up⟩).2 } := by
  obtain ⟨hepoch, -, hevent⟩ := @LogFetcher.step_frame ⟨s.db, kvrocks, up⟩ s.fetcher
  have htick := @LogFetcher.step_tick ⟨s.db, kvrocks, up⟩ s.fetcher
  have hpasses := fun hscanned => @LogFetcher.step_passes ⟨s.db, kvrocks, up⟩ s.fetcher _
    (fun id => s.db.dbLogExists H.epoch id = true)
    (fun r hr => h.holds.dbTryGetLogRangeForTick hkv hr)
    (fun id hid => by rw [← h.fetcherEpoch]; exact hid) hscanned
  generalize (s.fetcher.step ⟨s.db, kvrocks, up⟩).2 = f' at hepoch hevent htick hpasses ⊢
  have hle : s.fetcher.gCurrentFetchingLogTick ≤ f'.gCurrentFetchingLogTick := by
    rcases htick with ht | ht <;> omega
  refine ⟨h.hash, h.epoch, hepoch.trans h.fetcherEpoch, h.holds, h.base.trans hle, ?_, h.noted, ?_,
    ?_, ?_, h.cleaning⟩
  · intro e he
    dsimp only at he ⊢
    rcases hevent with hold | hnew
    · rw [hold] at he
      exact (h.event e he).trans hle
    · rw [hnew] at he
      rw [← Option.some.inj he]
      exact hle
  · intro hlt hp
    dsimp only at hlt hp ⊢
    rcases htick with ⟨hsame, hfound⟩ | ⟨-, -, hphase⟩
    · rw [hsame] at hlt ⊢
      exact (hfound hp).elim (h.ranged hlt) id
    · rcases hphase with hphase | hphase
      · rw [hphase] at hp
        cases hp
      · rw [hphase] at hp
        cases hp
  · intro hlt
    dsimp only at hlt ⊢
    rcases htick with ⟨hsame, -⟩ | ⟨-, -, hphase⟩
    · rw [hsame] at hlt ⊢
      rcases hpasses (h.scanned hlt) with ⟨-, hscanned⟩ | ⟨hnext, -⟩
      · exact hscanned
      · omega
    · rcases hphase with hphase | hphase
      · rw [hphase]
        exact trivial
      · rw [hphase]
        exact trivial
  · intro tick hinitial hlt hclean
    dsimp only at hlt ⊢
    by_cases hpast : tick < s.fetcher.gCurrentFetchingLogTick
    · exact h.passed tick hinitial hpast hclean
    -- the tick is the one just left
    obtain rfl : tick = s.fetcher.gCurrentFetchingLogTick := by
      rcases htick with ht | ht <;> omega
    rcases htick with ht | ⟨-, hranged, -⟩
    · omega
    rcases hpasses (h.scanned hclean) with ⟨hsame, -⟩ | ⟨-, hfetched⟩
    · omega
    · exact ⟨h.ranged hclean hranged, hfetched⟩

/-- The garbage cleaner goes to a tick: nothing is claimed of it any more. -/
theorem LogSync.Kept.clean (h : s.Kept H) {tick : Nat} (epoch : Nat) {kvrocks : Option (List Byte)}
    (hkv : ∀ {b}, kvrocks = some b → H.ranges tick = some b) (hasTransaction : Nat → Bool) :
    (s.step (.clean tick epoch kvrocks hasTransaction)).Kept H := by
  rw [LogSync.step]
  split
  · next b _ hb =>
      have hranges : H.ranges tick = some b := by
        rcases Option.or_eq_some_iff.mp hb with hkeydb | ⟨-, hkvrocks⟩
        · exact h.holds.ranges hkeydb
        · exact hkv hkvrocks
      have hlt : ∀ {t}, max s.lastClean tick < t → s.lastClean < t :=
        fun ht => (le_max_left _ _).trans_lt ht
      exact ⟨h.hash, h.epoch, h.fetcherEpoch, h.holds, h.base, h.event, h.noted,
        fun ht => h.ranged (hlt ht), fun ht => h.scanned (hlt ht),
        fun t hinitial hpassed ht => h.passed t hinitial hpassed (hlt ht),
        fun d hd => (behind_cleanTransactionLogs hranges epoch hasTransaction d hd).mono
          (le_max_right _ _)⟩
  · exact h

/-- The garbage cleaner removes a record. -/
theorem LogSync.Kept.delete (h : s.Kept H) (hordered : H.Ordered) : (s.step .delete).Kept H := by
  rw [LogSync.step]
  split
  · exact h
  · next d ds hcleaning =>
      have hbehind : d.Behind H s.lastClean := h.cleaning d (hcleaning ▸ List.mem_cons_self)
      have hholds : H.Holds (d.exec s.db) :=
        LogHistory.holds_iff_holdsOn.mpr ((LogHistory.holds_iff_holdsOn.mp h.holds).deletes (d.deletes s.db))
      refine ⟨h.hash, h.epoch, h.fetcherEpoch, hholds, h.base, h.event, h.noted,
        fun hlt hp => ?_, fun hlt => ?_, fun t hinitial hlt hclean => ?_, fun d' hd' => ?_⟩
      · have hthere := h.ranged hlt hp
        rw [DataStore.dbCheckLogRange] at hthere ⊢
        exact (congrArg Option.isSome (hbehind.logRanges hlt s.db)).trans hthere
      · exact (h.scanned hlt).mono_in fun r hr id hle hlt' hid =>
          hbehind.logs hordered hlt hr hle hlt' s.db hid
      · refine (h.passed t hinitial hlt hclean).mono (fun hsome => ?_) fun r hr id hle hlt' hid =>
          hbehind.logs hordered hclean hr hle hlt' s.db hid
        exact (congrArg Option.isSome (hbehind.logRanges hclean s.db)).trans hsome
      · rcases List.mem_append.mp hd' with hrest | hds
        · exact hbehind.rest d' hrest
        · exact h.cleaning d' (hcleaning ▸ List.mem_cons_of_mem d hds)

/-- The program is started again. -/
theorem LogSync.Kept.restart (h : s.Kept H) (gCurrentFetchingTick : Nat) :
    (s.step (.restart gCurrentFetchingTick)).Kept H := by
  have hback : max s.gInitialTick ((s.fetcher.latestEvent.map Prod.fst).getD 0) ≤
      s.fetcher.gCurrentFetchingLogTick := by
    refine max_le h.base ?_
    cases hlatest : s.fetcher.latestEvent with
    | none => exact Nat.zero_le _
    | some e => exact h.event e hlatest
  refine ⟨h.hash, h.epoch, h.fetcherEpoch, h.holds, le_max_left _ _, ?_,
    fun a ha => absurd ha List.not_mem_nil, fun _ hp => absurd hp Bool.false_ne_true,
    fun _ => trivial, fun t hinitial hlt hclean => h.passed t hinitial (hlt.trans_le hback) hclean,
    fun d hd => absurd hd List.not_mem_nil⟩
  intro e he
  refine le_max_of_le_right ?_
  rw [Option.mem_def] at he
  change s.fetcher.latestEvent = some e at he
  rw [he]
  exact le_refl _

theorem LogSync.Kept.step (h : s.Kept H) (hordered : H.Ordered) (st : LogSyncStep)
    (hok : s.Ok H st) : (s.step st).Kept H := by
  cases st with
  | fetch kvrocks up route =>
      obtain ⟨hkv, hfresh⟩ := hok
      have hstep := h.fetcherStep up hkv
      rw [LogSync.step]
      split
      · exact hstep
      · next r hr => exact hstep.ask _ route (hfresh r hr)
  | peer st => exact h.peer st hok
  | progressTick tick =>
      exact ⟨h.hash, h.epoch, h.fetcherEpoch, h.holds, h.base, h.event, h.noted, h.ranged,
        h.scanned, h.passed, h.cleaning⟩
  | refetch fromTick toTick fromId toId =>
      exact ⟨h.hash, h.epoch, h.fetcherEpoch, h.holds, h.base, h.event, h.noted, h.ranged,
        h.scanned, h.passed, h.cleaning⟩
  | clean tick epoch kvrocks hasTransaction => exact h.clean epoch hok hasTransaction
  | delete => exact h.delete hordered
  | restart gCurrentFetchingTick => exact h.restart gCurrentFetchingTick

theorem LogSync.Starts.kept (h : s.Starts H) : s.Kept H where
  hash := h.hash
  epoch := h.epoch
  fetcherEpoch := h.fetcherEpoch
  holds := h.holds
  base := h.tick.ge
  event := by
    intro e he
    rw [h.latestEvent] at he
    cases he
  noted := by
    intro a ha
    rw [h.asked] at ha
    cases ha
  ranged := by
    intro _ hp
    rw [h.phase] at hp
    cases hp
  scanned := by
    rw [h.phase]
    exact fun _ => trivial
  passed := fun tick hle hlt _ => absurd hlt (by rw [h.tick]; omega)
  cleaning := by
    intro d hd
    rw [h.cleaning] at hd
    cases hd

end invariant

/-! ## Runs -/

section runs

variable {K : KangarooTwelve} {H : LogHistory K} {s : LogSync} {steps : List LogSyncStep}

theorem LogSync.kept_of_run (hordered : H.Ordered) (hs : s.Starts H)
    (hok : Runs.Guarded LogSync.step (fun s st => s.Ok H st) s steps) :
    (Runs.run LogSync.step s steps).Kept H :=
  Runs.run_invariant (fun _ st h hst => h.step hordered st hst) hs.kept hok

/-- **Fetching logs.** In every run, the log ranges, summaries and logs in KeyDB are those of the
epoch, and every tick that the fetcher has left, from the first one of the epoch on and behind the
last one cleaned, is in KeyDB with its ranges and all its logs. -/
theorem log_sync (hordered : H.Ordered) (hs : s.Starts H)
    (hok : Runs.Guarded LogSync.step (fun s st => s.Ok H st) s steps) :
    H.Holds (Runs.run LogSync.step s steps).db ∧
      ∀ tick, (Runs.run LogSync.step s steps).gInitialTick ≤ tick →
        tick < (Runs.run LogSync.step s steps).fetcher.gCurrentFetchingLogTick →
        (Runs.run LogSync.step s steps).lastClean < tick →
        H.Complete (Runs.run LogSync.step s steps).db tick := by
  have hkept := LogSync.kept_of_run hordered hs hok
  exact ⟨hkept.holds, hkept.passed⟩

end runs

/-! ## One fetched tick -/

/-- The epoch 0 with the log 5 in tick 1. -/
def oneTickHistory : LogHistory bareReceiver.K where
  epoch := 0
  ranges tick := if tick = 1 then some (oneRange 5 1).bytes else none
  log id := if id = 5 then some storedLog else none
  ranges_length h := by
    rw [← Option.some.inj (Option.ite_none_right_eq_some.mp h).2]
    exact (oneRange 5 1).length_bytes
  ranges_accepted h := by
    rw [← Option.some.inj (Option.ite_none_right_eq_some.mp h).2, ← List.append_nil (oneRange 5 1).bytes,
      LogRangesPerTxInTick.ofBytes_bytes]
    decide +kernel
  ranges_end h := by
    rw [← Option.some.inj (Option.ite_none_right_eq_some.mp h).2, ← List.append_nil (oneRange 5 1).bytes,
      LogRangesPerTxInTick.ofBytes_bytes]
    decide +kernel
  log_id h := by
    obtain ⟨rfl, h⟩ := Option.ite_none_right_eq_some.mp h
    rw [← Option.some.inj h]
    decide +kernel
  log_checked h := by
    rw [← Option.some.inj (Option.ite_none_right_eq_some.mp h).2]
    decide +kernel
  log_short h := by
    rw [← Option.some.inj (Option.ite_none_right_eq_some.mp h).2]
    decide +kernel

theorem summary_oneTickHistory {tick : Nat} :
    oneTickHistory.summary tick = if tick = 1 then some (5, 1) else none := by
  have hsummary : (oneRange 5 1).summary = (5, 1) := by decide +kernel
  have hbytes := LogRangesPerTxInTick.ofBytes_bytes [] (oneRange 5 1)
  rw [List.append_nil] at hbytes
  by_cases htick : tick = 1
  · have hranges : oneTickHistory.ranges tick = some (oneRange 5 1).bytes := if_pos htick
    rw [LogHistory.summary, hranges, Option.map_some, hbytes, hsummary, if_pos htick]
  · have hranges : oneTickHistory.ranges tick = none := if_neg htick
    rw [LogHistory.summary, hranges, Option.map_none, if_neg htick]

/-- The fetcher is at tick 1, of which KeyDB has the log ranges and not the log. -/
def oneTickStart : LogSync where
  peer :=
    { env := bareReceiver
      node := { emptyNode with db := { emptyNode.db with
        logRanges := oneTickHistory.ranges
        tickLogRange := fun tick => if tick = 1 then some (5, 1) else none } }
      bufs := fun _ => []
      answers := []
      replied := fun _ => false }
  fetcher := { gCurrentProcessingEpoch := 0, gCurrentFetchingTick := 4, gCurrentFetchingLogTick := 1 }
  asked := []
  gInitialTick := 1
  lastClean := 0
  cleaning := []

theorem ordered_oneTickHistory : oneTickHistory.Ordered := by
  intro t t' r r' hlt hr hr'
  rw [summary_oneTickHistory] at hr hr'
  obtain ⟨rfl, -⟩ := Option.ite_none_right_eq_some.mp hr
  obtain ⟨rfl, -⟩ := Option.ite_none_right_eq_some.mp hr'
  omega

theorem starts_oneTickStart : oneTickStart.Starts oneTickHistory where
  hash := rfl
  epoch := rfl
  fetcherEpoch := rfl
  holds :=
    { ranges := id
      summary := fun h => summary_oneTickHistory.trans h
      both := fun {tick} h => by
        obtain ⟨b, hb⟩ := Option.isSome_iff_exists.mp h
        obtain ⟨rfl, -⟩ := Option.ite_none_right_eq_some.mp hb
        rfl
      logs := fun h => by cases h }
  tick := rfl
  latestEvent := rfl
  phase := rfl
  asked := rfl
  cleaning := rfl

/-- Steps of the fetcher without a connection. -/
theorem guarded_unconnected {K : KangarooTwelve} {H : LogHistory K} (n : Nat) (s : LogSync) :
    Runs.Guarded LogSync.step (fun s st => s.Ok H st) s
      (List.replicate n (.fetch (fun _ => none) true none)) := by
  induction n generalizing s with
  | zero => exact trivial
  | succ n ih => exact ⟨⟨fun h => (by cases h), fun _ _ _ h => absurd h (Option.not_mem_none _)⟩, ih _⟩

theorem oneChunk_five : (LogRequest.RequestLog 5 5).OneChunk := ⟨le_rfl, by decide⟩

/-- The request for the log 5. -/
def logFiveRequest : AskedRequest := ⟨.RequestLog 5 5, 0, 0, 7, oneChunk_five⟩

def logFiveRoute : Route := ⟨0, 0, 7, by decide⟩

def logFiveAnswer : List Byte :=
  enqueueWithHeader logFiveRequest.dejavu.toNat RESPOND_LOG (packedLog storedLog)

theorem answerTo_logFiveRequest : oneTickHistory.AnswerTo logFiveRequest logFiveAnswer := by
  refine ⟨{ logServing emptyLogDB with tryGetLog := fun _ => oneTickHistory.log }, 0, 0,
    [reply 0 7 RESPOND_LOG (packedLog storedLog)], ⟨rfl, fun h => (by cases h), id⟩, ?_, ?_⟩
  · decide +kernel
  · rw [logFiveAnswer, ← reply_eq_enqueueWithHeader 0]
    exact List.mem_singleton.mpr rfl

/-- To the request for the log 5. -/
def untilLogAsked : List LogSyncStep :=
  List.replicate 5 (.fetch (fun _ => none) true none) ++
    [.fetch (fun _ => none) true (some logFiveRoute)]

/-- The request is answered, and the fetcher goes on from there. -/
def oneTickRun : List LogSyncStep :=
  untilLogAsked ++ .peer (.data true 0 logFiveAnswer) ::
    List.replicate 13 (.fetch (fun _ => none) true none)

theorem asked_untilLogAsked :
    (Runs.run LogSync.step oneTickStart untilLogAsked).asked = [logFiveRequest] := rfl

theorem guarded_oneTickRun :
    Runs.Guarded LogSync.step (fun s st => s.Ok oneTickHistory st) oneTickStart oneTickRun := by
  refine Runs.guarded_append.mpr ⟨Runs.guarded_append.mpr ⟨guarded_unconnected 5 _, ⟨?_, ?_⟩, trivial⟩,
    .inr ⟨logFiveRequest, ?_, answerTo_logFiveRequest⟩, guarded_unconnected 13 _⟩
  · exact fun h => (by cases h)
  · -- nothing has been asked for before
    intro r _ ρ _ a ha
    cases ha
  · rw [asked_untilLogAsked]
    exact List.mem_singleton.mpr rfl

theorem passed_oneTick :
    (Runs.run LogSync.step oneTickStart oneTickRun).fetcher.gCurrentFetchingLogTick = 2 := by
  decide +kernel

/-- Tick 1 is complete once its log has been asked for and answered. -/
theorem log_sync_oneTick :
    ¬oneTickHistory.Complete oneTickStart.db 1 ∧
      oneTickHistory.Complete (Runs.run LogSync.step oneTickStart oneTickRun).db 1 := by
  refine ⟨fun hcomplete => ?_, ?_⟩
  · obtain ⟨r, hr, hall⟩ := hcomplete.logs
    obtain rfl := Option.some.inj (hr.symm.trans (summary_oneTickHistory.trans (if_pos rfl)))
    rcases hall with hall | hall | hall
    · exact absurd hall (by decide)
    · exact absurd hall (by decide)
    · exact absurd (hall 5 (by decide) (by decide)) (by decide)
  · refine (log_sync ordered_oneTickHistory starts_oneTickStart guarded_oneTickRun).2 1 ?_ ?_ ?_
    · decide +kernel
    · rw [passed_oneTick]
      decide
    · decide +kernel

end QubicBob
