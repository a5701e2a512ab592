import QubicBob.Api.TxCursor
import QubicBob.Stream.Server

set_option autoImplicit false

/-! # Queries for logs

The functions that report logs with their transactions: the two REST calls `bobGetLog` and
`getCustomLog`, the live push and the two replays of the log stream. Each is `tagLogs` on the logs
it goes through, with its own rule for the cursor, so that which accesses they make is known from
the two results about the rules, once for each comparison.

A replay goes through its logs in batches. A failed send leaves the batch, a closed connection the
loop, so a run of a replay is given by the number of logs it goes through in each batch.
-/

namespace QubicBob

/-- The record of a pair of numbers that `db_insert_log_range` writes. -/
def TickLogRange.ofPair (r : Int × Int) : Option TickLogRange :=
  if h : (r.1 = -1 ∧ r.2 = -1) ∨ (0 ≤ r.1 ∧ 0 ≤ r.2 ∧ r.1 + r.2 < LLONG_MAX) then
    some ⟨r.1, r.2, h⟩
  else none

namespace Archive

/-- The logs and the ranges of ticks in both databases. -/
def logStores (a : Archive) : LogDB where
  keydb := ⟨fun tick => (a.tickLogRange (BitVec.ofNat 32 tick)).bind TickLogRange.ofPair, a.logs⟩
  kvrocks :=
    ⟨fun tick => (a.kvTickLogRange (BitVec.ofNat 32 tick)).bind TickLogRange.ofPair, a.kvLogs⟩

end Archive

/-- A log that the cursor is moved for. -/
def Visit.ofLog (log : LogEvent) : Visit := ⟨log, BitVec.ofNat 64 log.getLogId⟩

/-! ## REST calls -/

inductive LogEntry where
  | log (entry : TaggedLog)
  | notFound (epoch logId : Nat)

def LogEntry.tagged? : LogEntry → Option TaggedLog
  | .log entry => some entry
  | .notFound _ _ => none

section queries

variable (a : Archive)

def bobGetLogLoop (epoch : Nat) : TxCursor → List Nat → Except Halt (List LogEntry)
  | _, [] => .ok []
  | c, id :: ids =>
      match dbTryGetLog a.logStores epoch id with
      | some log => do
          let (c', txIndex) ← (c.moveTo a (.ofLog log)).take (.next signedPast) (BitVec.ofNat 64 id)
          let entries ← bobGetLogLoop epoch c' ids
          pure (.log ⟨log, c'.td, txIndex⟩ :: entries)
      | none => do
          let entries ← bobGetLogLoop epoch c ids
          pure (.notFound epoch id :: entries)

/-- `none` is the error "Wrong range". -/
def bobGetLog (epoch : Nat) (start last : Int) : Except Halt (Option (List LogEntry)) :=
  if start < 0 ∨ last < 0 ∨ last < start then .ok none
  else (bobGetLogLoop a epoch .init (List.range' start.toNat (last + 1 - start).toNat)).map some

/-- The logs of a range of ids that are found. -/
def bobGetLogVisits (epoch : Nat) (start last : Int) : List Visit :=
  (dbTryGetLogsFromTo a.logStores epoch start last).map .ofLog

end queries

/-- What `getCustomLog` is asked for. A topic of zero is not compared. -/
structure CustomLogQuery where
  scIndex : BitVec 32
  logType : BitVec 32
  topic : Fin 3 → m256i

/-- A topic is only compared where the body is large enough for the source. -/
def CustomLogQuery.matchesTopic (q : CustomLogQuery) (le : LogEvent) (i : Fin 3) (minSize : Nat) :
    Bool :=
  q.topic i == m256i.zero || le.getLogSize < minSize || q.topic i == le.field (8 + 32 * i.val) 32

def CustomLogQuery.reports (q : CustomLogQuery) (le : LogEvent) : Bool :=
  -- protocol log
  if q.scIndex = 0 ∧ le.isSCType = false then BitVec.ofNat 32 le.getType == q.logType
  -- smart contract
  else if le.isSCType then
    8 ≤ le.getLogSize && le.field 0 4 == q.scIndex &&
      (q.matchesTopic le topic1 40 && q.matchesTopic le topic2 72 && q.matchesTopic le topic3 96)
  else false

section queries

variable (K : KangarooTwelve) (a : Archive) (epoch : Nat)

/-- The logs `getCustomLog` goes through; the `success` flag is not looked at. -/
def getCustomLogVisits (startTick endTick : Nat) : List Visit :=
  (dbGetLogsByTickRange K a.logStores epoch startTick endTick).1.map .ofLog

def getCustomLog (q : CustomLogQuery) (startTick endTick : Nat) : Except Halt (List TaggedLog) :=
  let r := tagLogs (.next unsignedPast) (TxCursor.moveTo a) .init
    (getCustomLogVisits K a epoch startTick endTick)
  r.2.map fun _ => r.1.filter fun entry => q.reports entry.log

/-! ## The log stream -/

/-- The logs of a push that somebody is subscribed to. -/
def LogSubscriptionManager.pushVisits (m : LogSubscriptionManager) (logs : List LogEvent) :
    List Visit :=
  if m.clients_.entries.isEmpty || m.subscriptionIndex_.entries.isEmpty then []
  else (logs.filter fun log =>
    match extractSubscriptionKey log with
    | none => false
    | some key => !(m.subscribers key).isEmpty).map .ofLog

/-- The cursor of a push, loaded for the first log. -/
def pushCursor (tick : BitVec 32) : List LogEvent → TxCursor
  | [] => { TxCursor.init with td := a.loadedTickData tick, lr := a.loadedRanges tick }
  | log :: _ => .load a tick (BitVec.ofNat 64 log.getLogId)

/-- The logs of `pushVerifiedLogs` as they go into the messages. -/
def LogSubscriptionManager.pushTags (m : LogSubscriptionManager) (tick : BitVec 32)
    (logs : List LogEvent) : List TaggedLog × Except Halt TxCursor :=
  tagLogs (.rescan unsignedPast) (fun c _ => c) (pushCursor a tick logs) (m.pushVisits logs)

/-- The logs of one batch that are sent; a batch that could not be read completely is skipped. -/
def catchUpBatch (subscriptions : List SubscriptionKey) (tick toTick : Nat) : List LogEvent :=
  let read := dbGetLogsByTickRange K a.logStores epoch tick (StreamServer.batchEnd tick toTick)
  if read.2 then read.1.filter (subscribedTo subscriptions) else []

/-- The logs `performCatchUp` goes through, with their number for each batch. -/
def catchUpVisits (subscriptions : List SubscriptionKey) (toTick : Nat) : List Nat → Nat → List Visit
  | [], _ => []
  | n :: ns, tick =>
      if tick ≤ toTick then
        ((catchUpBatch K a epoch subscriptions tick toTick).take n).map .ofLog ++
          catchUpVisits subscriptions toTick ns ((tick + BATCH_SIZE) % 2 ^ 32)
      else []

def performCatchUpTags (subscriptions : List SubscriptionKey) (ns : List Nat)
    (fromTick toTick : Nat) : List TaggedLog × Except Halt TxCursor :=
  tagLogs (.rescan unsignedPast) (TxCursor.moveTo a) .init
    (catchUpVisits K a epoch subscriptions toTick ns fromTick)

/-- Here the cursor is moved for the first id of the batch, not for that of the log. -/
def catchUpByLogIdVisits (subscriptions : List SubscriptionKey) (toLogId : Int) :
    List Nat → Int → List Visit
  | [], _ => []
  | n :: ns, id =>
      if id ≤ toLogId then
        (((dbTryGetLogsFromTo a.logStores epoch id (StreamServer.batchEndByLogId id toLogId)).filter
          (subscribedTo subscriptions)).take n).map (fun log => ⟨log, BitVec.ofInt 64 id⟩) ++
            catchUpByLogIdVisits subscriptions toLogId ns (id + BATCH_SIZE_BY_LOG_ID)
      else []

def performCatchUpByLogIdTags (subscriptions : List SubscriptionKey) (ns : List Nat)
    (fromLogId toLogId : Int) : List TaggedLog × Except Halt TxCursor :=
  tagLogs (.rescan signedPast) (TxCursor.moveTo a) .init
    (catchUpByLogIdVisits a epoch subscriptions toLogId ns fromLogId)

end queries

/-! ## Bounds -/

section bounds

variable {K : KangarooTwelve} {a : Archive} {epoch : Nat}

theorem ofLog_id_eq {id : Nat} {log : LogEvent} (h : dbTryGetLog a.logStores epoch id = some log) :
    (Visit.ofLog log).id = BitVec.ofNat 64 id := by
  rw [Visit.ofLog, dbTryGetLog_id h]

theorem bobGetLogLoop_notFound {c : TxCursor} {id : Nat} (ids : List Nat)
    (hlog : dbTryGetLog a.logStores epoch id = none) : bobGetLogLoop a epoch c (id :: ids) =
      (bobGetLogLoop a epoch c ids).map (.notFound epoch id :: ·) := by
  rw [bobGetLogLoop, hlog]
  rfl

theorem bobGetLogLoop_found {c c' : TxCursor} {id : Nat} {log : LogEvent}
    {txIndex : Fin LOG_TX_PER_TICK} (ids : List Nat)
    (hlog : dbTryGetLog a.logStores epoch id = some log)
    (htake : (c.moveTo a (.ofLog log)).take (.next signedPast) (BitVec.ofNat 64 id) =
      .ok (c', txIndex)) :
    bobGetLogLoop a epoch c (id :: ids) =
      (bobGetLogLoop a epoch c' ids).map (.log ⟨log, c'.td, txIndex⟩ :: ·) := by
  rw [bobGetLogLoop, hlog]
  show (do let r ← (c.moveTo a (.ofLog log)).take _ _; _) = _
  rw [htake]
  rfl

/-- The logs that are found, tagged, and the entries of the others in between. -/
theorem bobGetLogLoop_spec (c : TxCursor) (ids : List Nat) :
    let r := tagLogs (.next signedPast) (TxCursor.moveTo a) c
      ((ids.filterMap (dbTryGetLog a.logStores epoch)).map .ofLog)
    (∀ h, r.2 = .error h → bobGetLogLoop a epoch c ids = .error h) ∧
    ∀ c', r.2 = .ok c' → ∃ entries, bobGetLogLoop a epoch c ids = .ok entries ∧
      entries.filterMap LogEntry.tagged? = r.1 := by
  induction ids generalizing c with
  | nil =>
      refine ⟨fun h hh => ?_, fun c' _ => ⟨[], rfl, rfl⟩⟩
      cases hh
  | cons id ids ih =>
      cases hlog : dbTryGetLog a.logStores epoch id with
      | none =>
          rw [List.filterMap_cons_none hlog, bobGetLogLoop_notFound ids hlog]
          obtain ⟨herror, hok⟩ := ih c
          refine ⟨fun h hh => by rw [herror h hh]; rfl, fun c' hc' => ?_⟩
          obtain ⟨entries, hentries, htags⟩ := hok c' hc'
          exact ⟨.notFound epoch id :: entries, by rw [hentries]; rfl, htags⟩
      | some log =>
          rw [List.filterMap_cons_some hlog, List.map_cons]
          cases htake : (c.moveTo a (.ofLog log)).take (.next signedPast) (BitVec.ofNat 64 id) with
          | error h₀ =>
              have hloop : bobGetLogLoop a epoch c (id :: ids) = .error h₀ := by
                rw [bobGetLogLoop, hlog]
                show (do let r ← (c.moveTo a (.ofLog log)).take _ _; _) = _
                rw [htake]
                rfl
              rw [← ofLog_id_eq hlog] at htake
              rw [tagLogs_of_error rfl htake, hloop]
              refine ⟨fun h hh => ?_, fun c' hc' => ?_⟩
              · rw [Except.error.inj hh]
              · cases hc'
          | ok p =>
              obtain ⟨c₁, txIndex⟩ := p
              have hloop := bobGetLogLoop_found ids hlog htake
              rw [← ofLog_id_eq hlog] at htake
              rw [tagLogs_of_ok rfl htake, hloop]
              obtain ⟨herror, hok⟩ := ih c₁
              refine ⟨fun h hh => by rw [herror h hh]; rfl, fun c' hc' => ?_⟩
              obtain ⟨entries, hentries, htags⟩ := hok c' hc'
              exact ⟨.log ⟨log, c₁.td, txIndex⟩ :: entries, by rw [hentries]; rfl,
                congrArg (List.cons _) htags⟩

theorem bobGetLog_ok_iff (start last : Int) : (∃ r, bobGetLog a epoch start last = .ok r) ↔
    (start < 0 ∨ last < 0 ∨ last < start) ∨
      TagsInBounds (.next signedPast) (TxCursor.moveTo a) .init
        (bobGetLogVisits a epoch start last) := by
  by_cases hrange : start < 0 ∨ last < 0 ∨ last < start
  · exact ⟨fun _ => .inl hrange, fun _ => ⟨none, if_pos hrange⟩⟩
  · rw [or_iff_right hrange]
    obtain ⟨herror, hok⟩ := @bobGetLogLoop_spec a epoch .init
      (List.range' start.toNat (last + 1 - start).toNat)
    constructor
    · rintro ⟨r, hr⟩
      rw [bobGetLog, if_neg hrange] at hr
      cases hend : (tagLogs (.next signedPast) (TxCursor.moveTo a) .init
          (bobGetLogVisits a epoch start last)).2 with
      | ok c => exact ⟨c, hend⟩
      | error h =>
          rw [herror h hend] at hr
          cases hr
    · rintro ⟨c, hc⟩
      obtain ⟨entries, hentries, -⟩ := hok c hc
      exact ⟨some entries, by rw [bobGetLog, if_neg hrange, hentries]; rfl⟩

theorem map_ok_iff {ε α β : Type} {x : Except ε α} {f : α → β} :
    (∃ r, x.map f = .ok r) ↔ ∃ y, x = .ok y := by
  cases x with
  | error e =>
      constructor
      · rintro ⟨r, hr⟩
        cases hr
      · rintro ⟨y, hy⟩
        cases hy
  | ok y => exact ⟨fun _ => ⟨y, rfl⟩, fun _ => ⟨f y, rfl⟩⟩

theorem pushVisits_nil (m : LogSubscriptionManager) : m.pushVisits [] = [] := by
  rw [LogSubscriptionManager.pushVisits]
  split
  · rfl
  · rfl

/-- A push needs the ranges of the tick as soon as it sends a log. -/
theorem pushTags_ok_iff (m : LogSubscriptionManager) (tick : BitVec 32) (logs : List LogEvent) :
    (∃ c, (m.pushTags a tick logs).2 = .ok c) ↔
      m.pushVisits logs = [] ∨ (a.loadedRanges tick).sort ≠ [] := by
  have hbounds : (∃ c, (m.pushTags a tick logs).2 = .ok c) ↔
      ((pushCursor a tick logs).walk (.rescan unsignedPast)
        ((m.pushVisits logs).map Visit.id)).isSome := tagsInBounds_iff_walk
  rw [hbounds]
  cases logs with
  | nil =>
      rw [pushVisits_nil]
      exact ⟨fun _ => .inl rfl, fun _ => rfl⟩
  | cons log logs =>
      by_cases horder : (a.loadedRanges tick).sort = []
      · rw [@walk_of_order_nil _ (pushCursor a tick (log :: logs)) horder, List.map_eq_nil_iff]
        exact ⟨.inl, fun h => h.resolve_right fun hne => hne horder⟩
      · refine ⟨fun _ => .inr horder, fun _ => SlotCursor.walk_isSome (fun i id => ?_)
          (load_index_lt horder)⟩
        exact LogRangesPerTxInTick.scanTxId_lt _ horder (i + 1) id

end bounds

/-- When the accesses to `logTxOrder` are in bounds. An access out of bounds is the only way in which
one of the loops is not gone through. -/
theorem logTxOrder_in_bounds_iff (K : KangarooTwelve) (a : Archive) (epoch : Nat) :
    (∀ start last, (∃ r, bobGetLog a epoch start last = .ok r) ↔
      (start < 0 ∨ last < 0 ∨ last < start) ∨
        AllSegments a (fun seg => seg.RangesFound a ∧ seg.SlotsSuffice a signedPast)
          (bobGetLogVisits a epoch start last)) ∧
    (∀ q startTick endTick, (∃ r, getCustomLog K a epoch q startTick endTick = .ok r) ↔
      AllSegments a (fun seg => seg.RangesFound a ∧ seg.SlotsSuffice a unsignedPast)
        (getCustomLogVisits K a epoch startTick endTick)) ∧
    (∀ (m : LogSubscriptionManager) tick logs, (∃ c, (m.pushTags a tick logs).2 = .ok c) ↔
      m.pushVisits logs = [] ∨ (a.loadedRanges tick).sort ≠ []) ∧
    (∀ subscriptions ns fromTick toTick,
      (∃ c, (performCatchUpTags K a epoch subscriptions ns fromTick toTick).2 = .ok c) ↔
        AllSegments a (fun seg => seg.RangesFound a)
          (catchUpVisits K a epoch subscriptions toTick ns fromTick)) ∧
    (∀ subscriptions ns fromLogId toLogId,
      (∃ c, (performCatchUpByLogIdTags a epoch subscriptions ns fromLogId toLogId).2 = .ok c) ↔
        AllSegments a (fun seg => seg.RangesFound a)
          (catchUpByLogIdVisits a epoch subscriptions toLogId ns fromLogId)) := by
  refine ⟨fun start last => ?_, fun q startTick endTick => ?_, pushTags_ok_iff, ?_, ?_⟩
  · rw [bobGetLog_ok_iff, tagsInBounds_next_iff]
  · rw [← tagsInBounds_next_iff]
    exact map_ok_iff
  · exact fun subscriptions ns fromTick toTick => tagsInBounds_rescan_iff
  · exact fun subscriptions ns fromLogId toLogId => tagsInBounds_rescan_iff

/-- A log of tick 11 in epoch 1. -/
def logOfTick11 (logId : Nat) : LogEvent :=
  LogEvent.pack 1 11 SPECTRUM_STATS (BitVec.ofNat 64 logId) 0 (List.replicate 8 0)

theorem header_logOfTick11 : ∀ id ∈ [5, 7],
    (logOfTick11 id).hasPackedHeader = true ∧
    (logOfTick11 id).getEpoch = 1 ∧
    (logOfTick11 id).getLogId = id ∧
    (logOfTick11 id).getTick = 11 := by decide +kernel

/-- KeyDB has the log 5 of tick 11, and its ranges are gone. -/
def oneLogWithoutRanges : Archive :=
  { emptyArchive with
    logs := fun epoch logId => if epoch = 1 ∧ logId = 5 then some (logOfTick11 5).content else none }

theorem sort_allUnused : allUnused.sort = [] :=
  List.filter_eq_nil_iff.mpr fun i _ => by simp [allUnused]

/-- A log with the header of its key is read from KeyDB. -/
theorem dbTryGetLog_of_header {a : Archive} {log : LogEvent}
    (h : a.logs log.getEpoch log.getLogId = some log.content)
    (hheader : log.hasPackedHeader = true) :
    dbTryGetLog a.logStores log.getEpoch log.getLogId = some log := by
  have hkeydb : dbGetLog a.logStores.keydb log.getEpoch log.getLogId = some log := by
    have hbytes : a.logStores.keydb.log log.getEpoch log.getLogId = some log.content := h
    rw [dbGetLog, hbytes]
    show (if log.hasPackedHeader = false then none else _) = some log
    rw [if_neg (by rw [hheader]; exact Bool.noConfusion),
      if_neg (not_or.mpr ⟨not_not.mpr rfl, not_not.mpr rfl⟩)]
  rw [dbTryGetLog, hkeydb]

theorem dbTryGetLog_oneLogWithoutRanges :
    dbTryGetLog oneLogWithoutRanges.logStores 1 5 = some (logOfTick11 5) := by
  obtain ⟨hheader, hepoch, hlogId, -⟩ := header_logOfTick11 5 List.mem_cons_self
  have hread := @dbTryGetLog_of_header oneLogWithoutRanges (logOfTick11 5)
  rw [hepoch, hlogId] at hread
  exact hread rfl hheader

/-- The order of a tick without ranges is empty, and `bobGetLog` reads its first entry. -/
theorem bobGetLog_out_of_bounds :
    bobGetLog oneLogWithoutRanges 1 5 5 = .error .outOfBounds := by
  have hmove : TxCursor.moveTo oneLogWithoutRanges .init (.ofLog (logOfTick11 5)) =
      .load oneLogWithoutRanges (logOfTick11 5).getTick (Visit.ofLog (logOfTick11 5)).id := by
    refine if_pos ?_
    show (logOfTick11 5).getTick ≠ 0
    rw [(header_logOfTick11 5 List.mem_cons_self).2.2.2]
    decide
  have horder : (TxCursor.load oneLogWithoutRanges (logOfTick11 5).getTick
      (Visit.ofLog (logOfTick11 5)).id).logTxOrder = [] := by
    have hranges : ∀ tick, oneLogWithoutRanges.loadedRanges tick = allUnused := fun _ => rfl
    rw [TxCursor.load, hranges, sort_allUnused]
  have htake : (TxCursor.moveTo oneLogWithoutRanges .init (.ofLog (logOfTick11 5))).take
      (.next signedPast) (Visit.ofLog (logOfTick11 5)).id = .error .outOfBounds := by
    rw [hmove, TxCursor.take, TxCursor.slot, horder]
    rfl
  have hvisits : (([5] : List Nat).filterMap (dbTryGetLog oneLogWithoutRanges.logStores 1)).map
      Visit.ofLog = [.ofLog (logOfTick11 5)] := by
    rw [List.filterMap_cons_some dbTryGetLog_oneLogWithoutRanges]
    rfl
  obtain ⟨herror, -⟩ := @bobGetLogLoop_spec oneLogWithoutRanges 1 .init [5]
  have hloop := herror .outOfBounds (by rw [hvisits, tagLogs_of_error rfl htake])
  have hids : List.range' (5 : Int).toNat ((5 : Int) + 1 - 5).toNat = [5] := by decide
  rw [bobGetLog, if_neg (by decide), hids, hloop]
  rfl

end QubicBob
