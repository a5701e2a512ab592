import QubicBob.Lib.Blocks
import QubicBob.Api.LogTags

set_option autoImplicit false

/-! # The logs of a tick in the queries

What the five functions report of one tick, where the databases have its ranges and some of its
logs. A query goes through logs of many ticks, but the cursor is loaded when the tick comes up, so
that its tags depend on the tick's own logs alone as long as these stand together. They do: a list
in the order of ids has the logs of a tick in one block, as does one that is put together tick by
tick (`Blocks.OneBlock`). The results about the cursor then apply to the block, each with the ids
and the comparison of its function.
-/

namespace QubicBob

open Blocks

/-- What the databases have of a tick: its ranges, and any of its logs. -/
structure Archive.HasTick (a : Archive) (epoch : Nat) (t : BitVec 32) (lr : LogRangesPerTxInTick) :
    Prop where
  own : OwnRecord a t
  ranges : a.dbTryGetLogRanges true true t = some lr
  contiguous : lr.Contiguous
  logs : ∀ id log, dbTryGetLog a.logStores epoch id = some log →
    (log.getTick = t ↔ ∃ p, lr.SlotAt p id)
  /-- The ids of the tick are found under the tick. -/
  recorded : ∀ (u : BitVec 32) id log, id ∈ tickIds a.logStores u.toNat →
    dbTryGetLog a.logStores epoch id = some log → (log.getTick = t ↔ u = t)

/-! ## Lists of stored logs -/

section lists

variable {K : KangarooTwelve} {db : LogDB} {epoch : Nat}

/-- Logs that are found for ascending ids. -/
theorem pairwise_found {ids : List Nat} (h : ids.Pairwise (· < ·)) :
    (ids.filterMap (dbTryGetLog db epoch)).Pairwise fun log log' =>
      log.getLogId < log'.getLogId := by
  refine List.pairwise_filterMap.mpr (h.imp fun hlt log hlog log' hlog' => ?_)
  rw [dbTryGetLog_id hlog, dbTryGetLog_id hlog']
  exact hlt

theorem pairwise_dbTryGetLogsFromTo {logIdStart logIdEnd : Int} :
    (dbTryGetLogsFromTo db epoch logIdStart logIdEnd).Pairwise fun log log' =>
      log.getLogId < log'.getLogId := pairwise_found List.pairwise_lt_range'

theorem pairwise_tickLogs (tick : Nat) : (tickLogs db epoch tick).Pairwise fun log log' =>
    log.getLogId < log'.getLogId := by
  refine pairwise_found ?_
  unfold tickIds
  split
  · exact .nil
  · exact List.pairwise_lt_range'

/-- A batch is made of the logs of its ticks. -/
theorem batch_sublist {startTick endTick : Nat} :
    (dbGetLogsByTickRange K db epoch startTick endTick).1.Sublist
      ((ticksFromTo startTick endTick).flatMap (tickLogs db epoch)) := by
  rcases @dbGetLogsByTickRange_cases K db epoch startTick endTick with ⟨hvle, -⟩ | ⟨hvle, -⟩
  · rw [hvle]
    exact (List.takeWhile_sublist _).flatMap _
  · rw [hvle]
    exact List.nil_sublist _

end lists

/-! ## The logs of the tick -/

section tick

variable {K : KangarooTwelve} {a : Archive} {epoch : Nat} {t : BitVec 32}
  {lr : LogRangesPerTxInTick} {logs : List LogEvent} {x : TaggedLog}

namespace Archive.HasTick

theorem loadedRanges (h : a.HasTick epoch t lr) : a.loadedRanges t = lr := by
  rw [Archive.loadedRanges, h.ranges]
  rfl

/-- A log between two logs of the tick is of the tick. -/
theorem tick_between (h : a.HasTick epoch t lr) {log log' log'' : LogEvent}
    (hstored : dbTryGetLog a.logStores epoch log.getLogId = some log)
    (hstored' : dbTryGetLog a.logStores epoch log'.getLogId = some log')
    (hstored'' : dbTryGetLog a.logStores epoch log''.getLogId = some log'')
    (hlt : log.getLogId < log'.getLogId) (hlt' : log'.getLogId < log''.getLogId)
    (ht : log.getTick = t) (ht'' : log''.getTick = t) : log'.getTick = t := by
  obtain ⟨p, i, hi, hin⟩ := (h.logs _ log hstored).mp ht
  obtain ⟨q, hq⟩ := (h.logs _ log'' hstored'').mp ht''
  refine (h.logs _ log' hstored').mpr ?_
  refine (h.contiguous.slotAt_or_below hq hlt'.le).resolve_right fun hbelow => ?_
  have hfrom := hin.1
  have hnot := hbelow p i hi
  omega

/-- Logs in the order of their ids. -/
theorem oneBlock_of_ascending (h : a.HasTick epoch t lr)
    (hstored : ∀ log ∈ logs, dbTryGetLog a.logStores epoch log.getLogId = some log)
    (hsorted : logs.Pairwise fun log log' => log.getLogId < log'.getLogId) :
    OneBlock (fun log => log.getTick = t) (fun log log' => log.getLogId < log'.getLogId) logs :=
  oneBlock_of_pairwise hsorted fun x hx y hy z hz =>
    h.tick_between (hstored x hx) (hstored y hy) (hstored z hz)

/-- Logs that come by ticks. -/
theorem oneBlock_ticks (h : a.HasTick epoch t lr) {ticks : List Nat} (hnodup : ticks.Nodup)
    (hlt : ∀ u ∈ ticks, u < 2 ^ 32) :
    OneBlock (fun log => log.getTick = t) (fun log log' => log.getLogId < log'.getLogId)
      (ticks.flatMap (tickLogs a.logStores epoch)) := by
  have hsorted := @pairwise_tickLogs a.logStores epoch t.toNat
  refine oneBlock_flatMap hnodup (fun u hu log hlog => ?_) hsorted
  obtain ⟨hid, hfound⟩ := mem_tickLogs hlog
  have hu' : (BitVec.ofNat 32 u).toNat = u := by
    rw [BitVec.toNat_ofNat]
    exact Nat.mod_eq_of_lt (hlt u hu)
  rw [h.recorded (BitVec.ofNat 32 u) _ log (by rw [hu']; exact hid) hfound]
  constructor
  · rintro rfl
    exact hu'.symm
  · rintro rfl
    exact BitVec.eq_of_toNat_eq hu'

/-- A log of the tick has a slot. -/
theorem own_of_stored (h : a.HasTick epoch t lr) {log : LogEvent}
    (hstored : dbTryGetLog a.logStores epoch log.getLogId = some log) (ht : log.getTick = t) :
    (Visit.ofLog log).Own lr where
  id := rfl
  slot := by
    obtain ⟨p, hp⟩ := (h.logs _ log hstored).mp ht
    exact h.contiguous.slotAt_place hp

theorem ownBlock (h : a.HasTick epoch t lr)
    (hstored : ∀ log ∈ logs, dbTryGetLog a.logStores epoch log.getLogId = some log)
    (ht : ∀ log ∈ logs, log.getTick = t)
    (hsorted : logs.Pairwise fun log log' => log.getLogId < log'.getLogId) :
    OwnBlock lr t (logs.map .ofLog) where
  tick := List.forall_mem_map.mpr ht
  own := List.forall_mem_map.mpr fun _ _ => rfl
  slot := List.forall_mem_map.mpr fun log hlog => (h.logs _ log (hstored log hlog)).mp (ht log hlog)
  sorted := List.pairwise_map.mpr hsorted

end Archive.HasTick

/-! ## Moving by one -/

section next

variable {past : BitVec 64 → BitVec 64 → Bool}

/-- The logs of the tick among some logs. -/
def logsOf (t : BitVec 32) (logs : List LogEvent) : List LogEvent :=
  logs.filter fun log => decide (log.getTick = t)

theorem rightTag_next_iff (h : a.HasTick epoch t lr)
    (hpast : past = signedPast ∨ past = unsignedPast)
    (hstored : ∀ log ∈ logs, dbTryGetLog a.logStores epoch log.getLogId = some log)
    (hblock : OneBlock (fun log => log.getTick = t)
      (fun log log' => log.getLogId < log'.getLogId) logs)
    (hx : x ∈ (tagLogs (.next past) (TxCursor.moveTo a) .init (logs.map .ofLog)).1)
    (ht : x.log.getTick = t) :
    x.RightTag lr ↔
      ((a.loadedTickData t).tick = t → KeepsPace lr (logsOf t logs) x.log) := by
  obtain ⟨pre, blk, post, rfl, hpre, hblk, hpost, hsorted⟩ := hblock
  rw [logsOf, filter_eq_block hpre hblk hpost]
  rw [List.map_append, List.map_append] at hx
  obtain ⟨c, hc, hx⟩ := exists_block h.own (List.forall_mem_map.mpr hpre)
    (List.forall_mem_map.mpr hpost) hx ht
  have hown := h.ownBlock (fun log hlog => hstored log (by simp [hlog])) hblk hsorted
  have hlogs : (blk.map Visit.ofLog).map Visit.log = blk := by
    rw [List.map_map]
    exact List.map_id _
  rw [rightTag_iff_keepsPace hown h.contiguous hpast h.loadedRanges hc hx, hlogs]

theorem mem_dbTryGetLogsFromTo_stored {db : LogDB} {logIdStart logIdEnd : Int} :
    ∀ log ∈ dbTryGetLogsFromTo db epoch logIdStart logIdEnd,
      dbTryGetLog db epoch log.getLogId = some log :=
  fun _ hlog => (mem_dbTryGetLogsFromTo.mp hlog).1

theorem rightTag_bobGetLog_iff (h : a.HasTick epoch t lr) {start last : Int}
    {entries : List LogEntry} (hok : bobGetLog a epoch start last = .ok (some entries))
    (hx : .log x ∈ entries) (ht : x.log.getTick = t) :
    x.RightTag lr ↔ ((a.loadedTickData t).tick = t →
      KeepsPace lr (logsOf t (dbTryGetLogsFromTo a.logStores epoch start last)) x.log) := by
  refine rightTag_next_iff h (.inl rfl) mem_dbTryGetLogsFromTo_stored
    (h.oneBlock_of_ascending mem_dbTryGetLogsFromTo_stored pairwise_dbTryGetLogsFromTo) ?_ ht
  rw [bobGetLog] at hok
  split at hok
  · cases hok
  · obtain ⟨herror, hall⟩ := @bobGetLogLoop_spec a epoch .init
      (List.range' start.toNat (last + 1 - start).toNat)
    cases hend : (tagLogs (.next signedPast) (TxCursor.moveTo a) .init
        (bobGetLogVisits a epoch start last)).2 with
    | error e =>
        rw [herror e hend] at hok
        cases hok
    | ok c =>
        obtain ⟨entries', hentries, htags⟩ := hall c hend
        rw [hentries] at hok
        obtain rfl : entries' = entries := Option.some.inj (Except.ok.inj hok)
        show x ∈ (tagLogs (.next signedPast) (TxCursor.moveTo a) .init
          (bobGetLogVisits a epoch start last)).1
        rw [bobGetLogVisits, dbTryGetLogsFromTo, ← htags]
        exact List.mem_filterMap.mpr ⟨.log x, hx, rfl⟩

theorem stored_of_mem_batch {startTick endTick : Nat} :
    ∀ log ∈ (dbGetLogsByTickRange K a.logStores epoch startTick endTick).1,
      dbTryGetLog a.logStores epoch log.getLogId = some log := by
  intro log hlog
  obtain ⟨u, -, hlog⟩ := List.mem_flatMap.mp (batch_sublist.subset hlog)
  exact (mem_tickLogs hlog).2

theorem Archive.HasTick.oneBlock_batch (h : a.HasTick epoch t lr) {startTick : Nat}
    {endTick : Nat} (hend : endTick < 2 ^ 32) :
    OneBlock (fun log => log.getTick = t) (fun log log' => log.getLogId < log'.getLogId)
      (dbGetLogsByTickRange K a.logStores epoch startTick endTick).1 :=
  (h.oneBlock_ticks nodup_ticksFromTo fun _ hu =>
    lt_of_le_of_lt (mem_ticksFromTo.mp hu).2 hend).sublist batch_sublist

theorem rightTag_getCustomLog_iff (h : a.HasTick epoch t lr) {q : CustomLogQuery}
    {startTick endTick : BitVec 32} {entries : List TaggedLog}
    (hok : getCustomLog K a epoch q startTick.toNat endTick.toNat = .ok entries) (hx : x ∈ entries)
    (ht : x.log.getTick = t) :
    x.RightTag lr ↔ ((a.loadedTickData t).tick = t →
      KeepsPace lr (logsOf t (dbGetLogsByTickRange K a.logStores epoch startTick.toNat
        endTick.toNat).1) x.log) := by
  refine rightTag_next_iff h (.inr rfl) stored_of_mem_batch (h.oneBlock_batch endTick.isLt) ?_ ht
  rw [getCustomLog] at hok
  cases hend : (tagLogs (.next unsignedPast) (TxCursor.moveTo a) .init
      (getCustomLogVisits K a epoch startTick.toNat endTick.toNat)).2 with
  | error e =>
      rw [hend] at hok
      cases hok
  | ok c =>
      rw [hend] at hok
      rw [← Except.ok.inj hok] at hx
      exact (List.mem_filter.mp hx).1

end next

/-! ## Scanning -/

theorem pushVisits_sublist (m : LogSubscriptionManager) (logs : List LogEvent) :
    ∃ sent : List LogEvent, m.pushVisits logs = sent.map .ofLog ∧ sent.Sublist logs := by
  rw [LogSubscriptionManager.pushVisits]
  split
  · exact ⟨[], rfl, List.nil_sublist _⟩
  · exact ⟨_, rfl, List.filter_sublist⟩

theorem rightTag_pushTags (h : a.HasTick epoch t lr) {m : LogSubscriptionManager}
    (hstored : ∀ log ∈ logs, dbTryGetLog a.logStores epoch log.getLogId = some log)
    (ht : ∀ log ∈ logs, log.getTick = t)
    (hsorted : logs.Pairwise fun log log' => log.getLogId < log'.getLogId)
    (hx : x ∈ (m.pushTags a t logs).1) : x.RightTag lr := by
  obtain ⟨sent, hvisits, hsub⟩ := pushVisits_sublist m logs
  rw [LogSubscriptionManager.pushTags, hvisits] at hx
  have hown : OwnBlock lr t (sent.map .ofLog) :=
    h.ownBlock (fun log hlog => hstored log (hsub.subset hlog))
      (fun log hlog => ht log (hsub.subset hlog)) (hsorted.sublist hsub)
  cases logs with
  | nil =>
      rw [List.sublist_nil.mp hsub] at hx
      cases hx
  | cons first rest =>
      have hfirst :=
        h.own_of_stored (hstored first List.mem_cons_self) (ht first List.mem_cons_self)
      -- the cursor starts at the slot of the first log, sent or not
      have hplaced : Placed (.rescan unsignedPast) lr (lr.place (Visit.ofLog first).id)
          ((sent.map Visit.ofLog).map Visit.id) := by
        refine hown.placed h.contiguous (.inr rfl) hfirst.slot
          (List.forall_mem_map.mpr fun log hlog => ?_)
        have hslot := h.own_of_stored (hstored log (hsub.subset hlog)) (ht log (hsub.subset hlog))
        refine h.contiguous.slotAt_le hfirst.slot hslot.slot ?_
        rcases List.mem_cons.mp (hsub.subset hlog) with rfl | hmem
        · exact le_rfl
        · exact ((List.pairwise_cons.mp hsorted).1 log hmem).le
      have hwalk := walk_rescan_eq hplaced fun v hv k hk => by
        have hslot := hown.slotAt_place h.contiguous hv
        rw [hown.own v hv] at hslot hk ⊢
        exact h.contiguous.scanTxId_eq hslot hk
      have hwalk' : (pushCursor a t (first :: rest)).walk (.rescan unsignedPast)
          ((sent.map Visit.ofLog).map Visit.id) =
            some (((sent.map Visit.ofLog).map Visit.id).map lr.place) := by
        rw [← h.loadedRanges] at hwalk ⊢
        exact hwalk
      obtain ⟨j, v, p, hv, hp, hlog, htx⟩ := tags_of_walk (fun _ _ _ => rfl) hwalk' hx
      rw [List.getElem?_map, List.getElem?_map, hv] at hp
      obtain rfl := Option.some.inj hp
      have hslot := hown.slotAt_place h.contiguous (List.mem_of_getElem? hv)
      have htx' : lr.sort[lr.place v.id]? = some x.txIndex := by
        rw [← h.loadedRanges] at htx ⊢
        exact htx
      exact (rightTag_iff h.contiguous (hlog ▸ hslot) htx').mpr rfl

/-- The group of the tick in a batch of `verifyLoggingEvent`. -/
theorem rightTag_pushVerifiedLogs (h : a.HasTick epoch t lr) {m : LogSubscriptionManager}
    {fromTick toTick : BitVec 32} {group : Nat × List LogEvent}
    (hgroup : group ∈ groupByTick (dbGetLogsByTickRange K a.logStores epoch fromTick.toNat
      toTick.toNat).1) (hticks : group.1 = t.toNat) (hx : x ∈ (m.pushTags a t group.2).1) :
    x.RightTag lr := by
  have ht : ∀ log ∈ group.2, log.getTick = t := fun log hlog =>
    BitVec.eq_of_toNat_eq ((groupByTick_tick _ group hgroup log hlog).trans hticks)
  have hsub : group.2.Sublist (dbGetLogsByTickRange K a.logStores epoch fromTick.toNat
      toTick.toNat).1 := by
    rw [← groupByTick_flatMap
      (dbGetLogsByTickRange K a.logStores epoch fromTick.toNat toTick.toNat).1]
    exact List.sublist_flatten_of_mem (List.mem_map_of_mem hgroup)
  have hblock := (h.oneBlock_batch toTick.isLt).sublist hsub
  refine rightTag_pushTags h (fun log hlog => stored_of_mem_batch log (hsub.subset hlog)) ht ?_ hx
  exact hblock.pairwise.imp_of_mem fun hlog hlog' hlt => hlt (ht _ hlog) (ht _ hlog')

/-! ### Batches of ticks -/

section catchUp

variable {subscriptions : List SubscriptionKey} {toTick : Nat} {ns : List Nat}

theorem catchUpBatch_sublist {tick : Nat} :
    (catchUpBatch K a epoch subscriptions tick toTick).Sublist
      ((ticksFromTo tick (StreamServer.batchEnd tick toTick)).flatMap
        (tickLogs a.logStores epoch)) := by
  rw [catchUpBatch]
  split
  · exact List.filter_sublist.trans batch_sublist
  · exact List.nil_sublist _

/-- A batch has at most 100 ticks. -/
theorem ticksFromTo_batchEnd_sublist {tick : Nat} :
    (ticksFromTo tick (StreamServer.batchEnd tick toTick)).Sublist
      (List.range' tick BATCH_SIZE) := by
  refine List.range'_sublist_right.mpr ?_
  rw [StreamServer.batchEnd, BATCH_SIZE]
  have hmod := Nat.mod_le (tick + 100 - 1) (2 ^ 32)
  omega

theorem stored_of_mem_catchUp {tick : Nat} {v : Visit}
    (hv : v ∈ catchUpVisits K a epoch subscriptions toTick ns tick) :
    ∃ log, v = .ofLog log ∧ dbTryGetLog a.logStores epoch log.getLogId = some log := by
  induction ns generalizing tick with
  | nil => cases hv
  | cons n ns ih =>
      rw [catchUpVisits] at hv
      split at hv
      · rcases List.mem_append.mp hv with hv | hv
        · obtain ⟨log, hlog, rfl⟩ := List.mem_map.mp hv
          obtain ⟨u, -, hlog⟩ := List.mem_flatMap.mp
            (catchUpBatch_sublist.subset (List.mem_of_mem_take hlog))
          exact ⟨log, rfl, (mem_tickLogs hlog).2⟩
        · exact ih hv
      · cases hv

/-- Until the 32 bits of the counter are used up, the batches go through the ticks in order. -/
theorem catchUpVisits_sublist {tick : Nat} (hfit : tick + BATCH_SIZE * ns.length ≤ 2 ^ 32) :
    ((catchUpVisits K a epoch subscriptions toTick ns tick).map Visit.log).Sublist
      ((List.range' tick (BATCH_SIZE * ns.length)).flatMap (tickLogs a.logStores epoch)) := by
  induction ns generalizing tick with
  | nil => exact List.nil_sublist _
  | cons n ns ih =>
      rw [catchUpVisits]
      split
      · have hids : List.range' tick (BATCH_SIZE * (n :: ns).length) =
            List.range' tick BATCH_SIZE ++
              List.range' (tick + BATCH_SIZE) (BATCH_SIZE * ns.length) := by
          rw [List.range'_append_1, List.length_cons, Nat.mul_succ, Nat.add_comm]
        rw [hids, List.flatMap_append, List.map_append, List.map_map]
        refine List.Sublist.append ?_ ?_
        · rw [show Visit.log ∘ Visit.ofLog = id from rfl, List.map_id]
          exact (List.take_sublist _ _).trans
            (catchUpBatch_sublist.trans (ticksFromTo_batchEnd_sublist.flatMap _))
        · rw [List.length_cons, Nat.mul_succ] at hfit
          cases ns with
          | nil => exact List.nil_sublist _
          | cons m ns =>
              have hnext : (tick + BATCH_SIZE) % 2 ^ 32 = tick + BATCH_SIZE := by
                rw [List.length_cons, Nat.mul_succ, BATCH_SIZE] at hfit
                rw [BATCH_SIZE]
                omega
              rw [hnext]
              exact ih (by omega)
      · exact List.nil_sublist _

theorem rightTag_performCatchUp_iff (h : a.HasTick epoch t lr) {fromTick j : Nat}
    (hx : (performCatchUpTags K a epoch subscriptions ns fromTick toTick).1[j]? = some x)
    (ht : x.log.getTick = t) :
    x.RightTag lr ↔ ((a.loadedTickData t).tick = t →
      NotBehind lr t
        ((catchUpVisits K a epoch subscriptions toTick ns fromTick).map Visit.log) j) := by
  refine rightTag_iff_notBehind h.own h.contiguous (.inr rfl) h.loadedRanges
    (fun v hv hvt => ?_) hx ht
  obtain ⟨log, rfl, hstored⟩ := stored_of_mem_catchUp hv
  exact h.own_of_stored hstored hvt

theorem rightTag_performCatchUp (h : a.HasTick epoch t lr) {fromTick : Nat}
    (hfit : fromTick + BATCH_SIZE * ns.length ≤ 2 ^ 32)
    (hx : x ∈ (performCatchUpTags K a epoch subscriptions ns fromTick toTick).1)
    (ht : x.log.getTick = t) : x.RightTag lr := by
  obtain ⟨j, hj⟩ := List.mem_iff_getElem?.mp hx
  refine (rightTag_performCatchUp_iff h hj ht).mpr fun _ => notBehind_of_pairwise h.contiguous ?_
  have hlt : ∀ u ∈ List.range' fromTick (BATCH_SIZE * ns.length), u < 2 ^ 32 := by
    intro u hu
    have hlast := (List.mem_range'_1.mp hu).2
    omega
  exact ((h.oneBlock_ticks List.nodup_range' hlt).sublist (catchUpVisits_sublist hfit)).pairwise

end catchUp

/-! ### Batches of ids -/

/-- The first id of the batch in which a log comes. -/
def batchStart (fromLogId : Int) (logId : Nat) : Int :=
  fromLogId + BATCH_SIZE_BY_LOG_ID * ((logId - fromLogId) / BATCH_SIZE_BY_LOG_ID)

section catchUpByLogId

variable {subscriptions : List SubscriptionKey} {fromLogId toLogId : Int} {ns : List Nat}

theorem batchStart_next {logId : Nat} :
    batchStart (fromLogId + BATCH_SIZE_BY_LOG_ID) logId = batchStart fromLogId logId := by
  rw [batchStart, batchStart, BATCH_SIZE_BY_LOG_ID]
  omega

theorem batchStart_mono {logId logId' : Nat} (h : logId ≤ logId') :
    batchStart fromLogId logId ≤ batchStart fromLogId logId' := by
  rw [batchStart, batchStart, BATCH_SIZE_BY_LOG_ID]
  omega

theorem le_batchStart {logId : Nat} (h : fromLogId ≤ logId) :
    fromLogId ≤ batchStart fromLogId logId ∧ batchStart fromLogId logId ≤ logId := by
  rw [batchStart, BATCH_SIZE_BY_LOG_ID]
  omega

/-- A log of the first batch. -/
theorem mem_firstBatch {log : LogEvent} (h0 : 0 ≤ fromLogId)
    (hlog : log ∈ dbTryGetLogsFromTo a.logStores epoch fromLogId
      (StreamServer.batchEndByLogId fromLogId toLogId)) :
    dbTryGetLog a.logStores epoch log.getLogId = some log ∧ fromLogId ≤ log.getLogId ∧
      log.getLogId ≤ toLogId ∧ (log.getLogId : Int) < fromLogId + BATCH_SIZE_BY_LOG_ID := by
  obtain ⟨hstored, hlo, hhi⟩ := mem_dbTryGetLogsFromTo.mp hlog
  rw [StreamServer.batchEndByLogId] at hhi
  have hmin := min_le_left (fromLogId + BATCH_SIZE_BY_LOG_ID - 1) toLogId
  have hmin' := min_le_right (fromLogId + BATCH_SIZE_BY_LOG_ID - 1) toLogId
  exact ⟨hstored, by omega, by omega, by omega⟩

/-- The logs of the batches, each with the first id of its batch. -/
theorem mem_catchUpByLogIdVisits (h0 : 0 ≤ fromLogId) {v : Visit}
    (hv : v ∈ catchUpByLogIdVisits a epoch subscriptions toLogId ns fromLogId) :
    dbTryGetLog a.logStores epoch v.log.getLogId = some v.log ∧ fromLogId ≤ v.log.getLogId ∧
      v.log.getLogId ≤ toLogId ∧ v.id = BitVec.ofInt 64 (batchStart fromLogId v.log.getLogId) := by
  induction ns generalizing fromLogId with
  | nil => cases hv
  | cons n ns ih =>
      rw [catchUpByLogIdVisits] at hv
      split at hv
      · rcases List.mem_append.mp hv with hv | hv
        · obtain ⟨log, hlog, rfl⟩ := List.mem_map.mp hv
          obtain ⟨hstored, hlo, hhi, hend⟩ :=
            mem_firstBatch h0 (List.mem_filter.mp (List.mem_of_mem_take hlog)).1
          have hfirst : batchStart fromLogId log.getLogId = fromLogId := by
            rw [BATCH_SIZE_BY_LOG_ID] at hend
            rw [batchStart, BATCH_SIZE_BY_LOG_ID]
            omega
          exact ⟨hstored, hlo, hhi, by rw [hfirst]⟩
        · have hpos : 0 ≤ fromLogId + BATCH_SIZE_BY_LOG_ID := by
            rw [BATCH_SIZE_BY_LOG_ID]
            omega
          obtain ⟨hstored, hlo, hhi, hid⟩ := ih hpos hv
          refine ⟨hstored, ?_, hhi, hid.trans (congrArg _ batchStart_next)⟩
          rw [BATCH_SIZE_BY_LOG_ID] at hlo
          omega
      · cases hv

theorem pairwise_catchUpByLogIdVisits (h0 : 0 ≤ fromLogId) :
    (catchUpByLogIdVisits a epoch subscriptions toLogId ns fromLogId).Pairwise fun v w =>
      v.log.getLogId < w.log.getLogId := by
  induction ns generalizing fromLogId with
  | nil => exact .nil
  | cons n ns ih =>
      have hpos : 0 ≤ fromLogId + BATCH_SIZE_BY_LOG_ID := by
        rw [BATCH_SIZE_BY_LOG_ID]
        omega
      rw [catchUpByLogIdVisits]
      split
      · refine List.pairwise_append.mpr ⟨?_, ih hpos, fun v hv w hw => ?_⟩
        · exact List.pairwise_map.mpr
            ((pairwise_dbTryGetLogsFromTo.sublist List.filter_sublist).sublist
              (List.take_sublist _ _))
        · obtain ⟨log, hlog, rfl⟩ := List.mem_map.mp hv
          have hend :=
            (mem_firstBatch h0 (List.mem_filter.mp (List.mem_of_mem_take hlog)).1).2.2.2
          have hlo := (mem_catchUpByLogIdVisits hpos hw).2.1
          show log.getLogId < w.log.getLogId
          omega
      · exact .nil

/-- A log of the tick, with the first id of its batch. -/
theorem rightTag_performCatchUpByLogId_iff (h : a.HasTick epoch t lr) (h0 : 0 ≤ fromLogId)
    (hx : x ∈ (performCatchUpByLogIdTags a epoch subscriptions ns fromLogId toLogId).1)
    (ht : x.log.getTick = t) :
    x.RightTag lr ↔ lr.SameSlot (batchStart fromLogId x.log.getLogId).toNat x.log.getLogId := by
  have hvisits := fun v => @mem_catchUpByLogIdVisits a epoch subscriptions fromLogId toLogId ns h0 v
  have hascending := @pairwise_catchUpByLogIdVisits a epoch subscriptions fromLogId toLogId ns h0
  obtain ⟨pre, blk, post, hsplit, hpre, hblk, hpost, hsorted⟩ :
      OneBlock (fun v => v.log.getTick = t) (fun v w => v.log.getLogId < w.log.getLogId)
        (catchUpByLogIdVisits a epoch subscriptions toLogId ns fromLogId) :=
    oneBlock_of_pairwise hascending fun u hu v hv w hw =>
      h.tick_between (hvisits u hu).1 (hvisits v hv).1 (hvisits w hw).1
  rw [performCatchUpByLogIdTags, hsplit] at hx
  obtain ⟨c, hc, hx⟩ := exists_block h.own hpre hpost hx ht
  have hstart : ∀ v ∈ blk, 0 ≤ batchStart fromLogId v.log.getLogId ∧
      batchStart fromLogId v.log.getLogId ≤ v.log.getLogId := fun v hv => by
    obtain ⟨hfrom, hle⟩ := le_batchStart (hvisits v (by rw [hsplit]; simp [hv])).2.1
    exact ⟨h0.trans hfrom, hle⟩
  have hbatch : BatchBlock lr t (fun logId => (batchStart fromLogId logId).toNat) blk :=
    { tick := hblk
      id := fun v hv => by
        rw [(hvisits v (by rw [hsplit]; simp [hv])).2.2.2, ← BitVec.ofInt_natCast,
          Int.toNat_of_nonneg (hstart v hv).1]
      start_le := fun v hv => by
        have hle := hstart v hv
        omega
      mono := fun _ _ hle => Int.toNat_le_toNat (batchStart_mono hle)
      slot := fun v hv => (h.logs _ v.log (hvisits v (by rw [hsplit]; simp [hv])).1).mp (hblk v hv)
      sorted := hsorted }
  exact rightTag_iff_sameSlot hbatch h.contiguous h.loadedRanges hc hx

end catchUpByLogId

end tick

/-- Which logs of a tick are reported with their transaction, where the databases have any of its
logs. -/
theorem logs_tagged_right_iff (K : KangarooTwelve) {a : Archive} {epoch : Nat} {t : BitVec 32}
    {lr : LogRangesPerTxInTick} (h : a.HasTick epoch t lr) :
    (∀ logId, ∀ i ∈ lr.sort, ∀ j ∈ lr.sort, lr.InSlot i logId → lr.InSlot j logId → i = j) ∧
    (∀ start last entries x, bobGetLog a epoch start last = .ok (some entries) →
      .log x ∈ entries → x.log.getTick = t →
        (x.RightTag lr ↔ ((a.loadedTickData t).tick = t →
          KeepsPace lr (logsOf t (dbTryGetLogsFromTo a.logStores epoch start last)) x.log))) ∧
    (∀ q (startTick endTick : BitVec 32) entries,
      getCustomLog K a epoch q startTick.toNat endTick.toNat = .ok entries →
        ∀ x ∈ entries, x.log.getTick = t →
          (x.RightTag lr ↔ ((a.loadedTickData t).tick = t →
            KeepsPace lr (logsOf t (dbGetLogsByTickRange K a.logStores epoch startTick.toNat
              endTick.toNat).1) x.log))) ∧
    (∀ (m : LogSubscriptionManager) (fromTick toTick : BitVec 32) group,
      group ∈ groupByTick (dbGetLogsByTickRange K a.logStores epoch fromTick.toNat toTick.toNat).1 →
        group.1 = t.toNat → ∀ x ∈ (m.pushTags a t group.2).1, x.RightTag lr) ∧
    (∀ subscriptions ns fromTick toTick j x,
      (performCatchUpTags K a epoch subscriptions ns fromTick toTick).1[j]? = some x →
        x.log.getTick = t →
          (x.RightTag lr ↔ ((a.loadedTickData t).tick = t → NotBehind lr t
            ((catchUpVisits K a epoch subscriptions toTick ns fromTick).map Visit.log) j))) ∧
    (∀ subscriptions ns fromTick toTick, fromTick + BATCH_SIZE * ns.length ≤ 2 ^ 32 →
      ∀ x ∈ (performCatchUpTags K a epoch subscriptions ns fromTick toTick).1,
        x.log.getTick = t → x.RightTag lr) ∧
    (∀ subscriptions ns fromLogId toLogId, 0 ≤ fromLogId →
      ∀ x ∈ (performCatchUpByLogIdTags a epoch subscriptions ns fromLogId toLogId).1,
        x.log.getTick = t → (x.RightTag lr ↔
          lr.SameSlot (batchStart fromLogId x.log.getLogId).toNat x.log.getLogId)) := by
  refine ⟨?_, ?_, ?_, ?_, ?_, ?_, ?_⟩
  · exact fun _ _ hi _ hj hin hjn => h.contiguous.inSlot_unique hi hj hin hjn
  · exact fun _ _ _ _ hok hx ht => rightTag_bobGetLog_iff h hok hx ht
  · exact fun _ _ _ _ hok _ hx ht => rightTag_getCustomLog_iff h hok hx ht
  · exact fun _ _ _ _ hgroup hticks _ hx => rightTag_pushVerifiedLogs h hgroup hticks hx
  · exact fun _ _ _ _ _ _ hx ht => rightTag_performCatchUp_iff h hx ht
  · exact fun _ _ _ _ hfit _ hx ht => rightTag_performCatchUp h hfit hx ht
  · exact fun _ _ _ _ h0 _ hx ht => rightTag_performCatchUpByLogId_iff h h0 hx ht

/-! ## A tick with a missing log -/

theorem three_le_slots : 3 ≤ LOG_TX_PER_TICK := by decide

def txSlot (i : Fin 3) : Fin LOG_TX_PER_TICK := Fin.castLE three_le_slots i

/-- Three transactions with one log each, of the ids 5, 6 and 7. -/
def threeSlots : LogRangesPerTxInTick where
  fromLogId i := if i.val < 3 then BitVec.ofNat 64 (5 + i.val) else -1
  length i := if i.val < 3 then 1 else -1

theorem ranges_threeSlots : threeSlots.sort = (List.finRange 3).map txSlot ∧
    ∀ k : Fin 3, (threeSlots.fromLogId (txSlot k)).toInt = 5 + k.val ∧
      (threeSlots.length (txSlot k)).toInt = 1 := by decide +kernel

theorem getElem?_sort_threeSlots {p : Nat} {i : Fin LOG_TX_PER_TICK} :
    threeSlots.sort[p]? = some i ↔ ∃ k : Fin 3, k.val = p ∧ txSlot k = i := by
  rw [ranges_threeSlots.1, List.getElem?_map, Option.map_eq_some_iff]
  refine exists_congr fun k => and_congr_left' ?_
  rw [List.getElem?_eq_some_iff]
  constructor
  · rintro ⟨hp, rfl⟩
    rw [List.getElem_finRange]
    rfl
  · rintro rfl
    exact ⟨by rw [List.length_finRange]; exact k.isLt, List.getElem_finRange _⟩

theorem contiguous_threeSlots : threeSlots.Contiguous where
  nonneg i hi := by
    obtain ⟨p, hp⟩ := List.mem_iff_getElem?.mp hi
    obtain ⟨k, rfl, rfl⟩ := getElem?_sort_threeSlots.mp hp
    rw [(ranges_threeSlots.2 k).1, (ranges_threeSlots.2 k).2]
    omega
  next p i j hi hj := by
    obtain ⟨k, rfl, rfl⟩ := getElem?_sort_threeSlots.mp hi
    obtain ⟨k', hk, rfl⟩ := getElem?_sort_threeSlots.mp hj
    rw [(ranges_threeSlots.2 k).1, (ranges_threeSlots.2 k).2, (ranges_threeSlots.2 k').1]
    omega

theorem inSlot_threeSlots {k : Fin 3} {logId : Nat} :
    threeSlots.InSlot (txSlot k) logId ↔ logId = 5 + k.val := by
  rw [LogRangesPerTxInTick.InSlot, (ranges_threeSlots.2 k).1, (ranges_threeSlots.2 k).2]
  omega

theorem slotAt_threeSlots (k : Fin 3) : threeSlots.SlotAt k.val (5 + k.val) :=
  ⟨txSlot k, getElem?_sort_threeSlots.mpr ⟨k, rfl, rfl⟩, inSlot_threeSlots.mpr rfl⟩

/-- Tick 11 with its tick data and its ranges. The log 6 is missing. -/
def gapInTick11 : Archive :=
  { archiveOfTick11 with
    logRanges := fun tick => if tick = 11 then some threeSlots else none
    tickLogRange := fun tick => if tick = 11 then some (5, 3) else none
    logs := fun epoch logId =>
      if epoch = 1 ∧ (logId = 5 ∨ logId = 7) then some (logOfTick11 logId).content
      else none }

theorem dbTryGetLog_gapInTick11 {id : Nat} (h : id = 5 ∨ id = 7) :
    dbTryGetLog gapInTick11.logStores 1 id = some (logOfTick11 id) := by
  obtain ⟨hheader, hepoch, hlogId, -⟩ := header_logOfTick11 id (by simpa using h)
  have hread := @dbTryGetLog_of_header gapInTick11 (logOfTick11 id)
  rw [hepoch, hlogId] at hread
  exact hread (if_pos ⟨rfl, h⟩) hheader

theorem found_gapInTick11 {id : Nat} {log : LogEvent}
    (h : dbTryGetLog gapInTick11.logStores 1 id = some log) :
    (id = 5 ∨ id = 7) ∧ log = logOfTick11 id := by
  by_cases hid : id = 5 ∨ id = 7
  · rw [dbTryGetLog_gapInTick11 hid] at h
    exact ⟨hid, (Option.some.inj h).symm⟩
  · have hkeydb : dbGetLog gapInTick11.logStores.keydb 1 id = none := by
      have hbytes : gapInTick11.logStores.keydb.log 1 id = none := if_neg fun hin => hid hin.2
      rw [dbGetLog, hbytes]
    rw [dbTryGetLog, hkeydb] at h
    cases h

theorem getTick_logOfTick11 {id : Nat} (h : id = 5 ∨ id = 7) :
    (logOfTick11 id).getTick = 11 :=
  (header_logOfTick11 id (by simpa using h)).2.2.2

theorem hasTick_gapInTick11 : gapInTick11.HasTick 1 11 threeSlots where
  own := ⟨by decide, fun _ _ h => by cases h⟩
  ranges := rfl
  contiguous := contiguous_threeSlots
  logs id log hlog := by
    obtain ⟨hid, rfl⟩ := found_gapInTick11 hlog
    refine ⟨fun _ => ?_, fun _ => getTick_logOfTick11 hid⟩
    rcases hid with rfl | rfl
    · exact ⟨_, slotAt_threeSlots 0⟩
    · exact ⟨_, slotAt_threeSlots 2⟩
  recorded u id log hin hlog := by
    obtain ⟨hid, rfl⟩ := found_gapInTick11 hlog
    refine ⟨fun _ => ?_, fun _ => getTick_logOfTick11 hid⟩
    by_contra hu
    have hkeydb : gapInTick11.logStores.keydb.tickLogRange u.toNat = none := by
      show (gapInTick11.tickLogRange (BitVec.ofNat 32 u.toNat)).bind _ = none
      rw [BitVec.ofNat_toNat, BitVec.setWidth_eq]
      show (if u = 11 then _ else none : Option (Int × Int)).bind _ = none
      rw [if_neg hu]
      rfl
    have hnone : dbTryGetLogRangeForTick gapInTick11.logStores u.toNat = none := by
      rw [dbTryGetLogRangeForTick, hkeydb]
      rfl
    rw [tickIds, hnone] at hin
    cases hin

/-- The cursor while it is in tick 11. -/
def cursorInTick11 (i : Nat) : TxCursor :=
  ⟨gapInTick11.loadedTickData 11, threeSlots, (List.finRange 3).map txSlot, i⟩

theorem load_gapInTick11 :
    TxCursor.load gapInTick11 11 (BitVec.ofNat 64 5) = cursorInTick11 0 := by
  have hplace : threeSlots.place (BitVec.ofNat 64 5) = 0 :=
    contiguous_threeSlots.place_eq (slotAt_threeSlots 0)
  rw [load_eq hasTick_gapInTick11.loadedRanges, hplace, ranges_threeSlots.1]
  rfl

/-- An id is past the first slot unless it is in it. -/
theorem signedPast_threeSlots (k : Fin 3) :
    signedPast (BitVec.ofNat 64 (5 + k.val)) (threeSlots.lastLogId (txSlot 0)) = true ↔ 0 < k.val :=
  contiguous_threeSlots.signedPast_iff (slotAt_threeSlots k)
    (getElem?_sort_threeSlots.mpr ⟨0, rfl, rfl⟩)

theorem take_log5 : (cursorInTick11 0).take (.next signedPast) (BitVec.ofNat 64 5) =
    .ok (cursorInTick11 0, txSlot 0) :=
  take_of_not_past rfl (Bool.eq_false_iff.mpr fun h =>
    lt_irrefl _ ((signedPast_threeSlots 0).mp h))

theorem take_log7 : (cursorInTick11 0).take (.next signedPast) (BitVec.ofNat 64 7) =
    .ok (cursorInTick11 1, txSlot 1) :=
  take_of_past rfl ((signedPast_threeSlots 2).mpr Nat.two_pos) rfl rfl

/-- The log 7 is tagged with the transaction of the log 6. -/
theorem bobGetLog_gapInTick11 : bobGetLog gapInTick11 1 5 7 = .ok (some
    [.log ⟨logOfTick11 5, gapInTick11.loadedTickData 11, txSlot 0⟩, .notFound 1 6,
      .log ⟨logOfTick11 7, gapInTick11.loadedTickData 11, txSlot 1⟩]) := by
  have hids : List.range' (5 : Int).toNat ((7 : Int) + 1 - 5).toNat = [5, 6, 7] := by decide
  have h5 : dbTryGetLog gapInTick11.logStores 1 5 = some (logOfTick11 5) :=
    dbTryGetLog_gapInTick11 (.inl rfl)
  have h6 : dbTryGetLog gapInTick11.logStores 1 6 = none := by
    cases hlog : dbTryGetLog gapInTick11.logStores 1 6 with
    | none => rfl
    | some log => exact absurd (found_gapInTick11 hlog).1 (by decide)
  have h7 : dbTryGetLog gapInTick11.logStores 1 7 = some (logOfTick11 7) :=
    dbTryGetLog_gapInTick11 (.inr rfl)
  have hmove : TxCursor.moveTo gapInTick11 .init (.ofLog (logOfTick11 5)) = cursorInTick11 0 := by
    rw [moveTo_of_ne (t := 11) (getTick_logOfTick11 (.inl rfl)) (by decide), ofLog_id_eq h5,
      load_gapInTick11]
  have hstay : TxCursor.moveTo gapInTick11 (cursorInTick11 0) (.ofLog (logOfTick11 7)) =
      cursorInTick11 0 := moveTo_of_eq (t := 11) (getTick_logOfTick11 (.inr rfl)) rfl
  rw [bobGetLog, if_neg (by decide), hids,
    bobGetLogLoop_found [6, 7] h5 (by rw [hmove]; exact take_log5), bobGetLogLoop_notFound [7] h6,
    bobGetLogLoop_found [] h7 (by rw [hstay]; exact take_log7)]
  rfl

theorem not_rightTag_log7 : ¬ (⟨logOfTick11 7, gapInTick11.loadedTickData 11, txSlot 1⟩ :
    TaggedLog).RightTag threeSlots := by
  rintro ⟨-, hin⟩
  have hlogId := (header_logOfTick11 7 (by decide)).2.2.1
  have hslot := inSlot_threeSlots.mp hin
  exact absurd (hlogId.symm.trans hslot) (by decide)

/-- Since the log 6 is missing, the log 7 is two slots further than the log before it. -/
theorem not_keepsPace_log7 :
    ¬ KeepsPace threeSlots (logsOf 11 (dbTryGetLogsFromTo gapInTick11.logStores 1 5 7))
      (logOfTick11 7) := by
  have hiff := (logs_tagged_right_iff constantHash hasTick_gapInTick11).2.1 5 7 _ _
    bobGetLog_gapInTick11 (List.mem_cons_of_mem _ (List.mem_cons_of_mem _ List.mem_cons_self))
    (getTick_logOfTick11 (.inr rfl))
  exact fun hpace => not_rightTag_log7 (hiff.mpr fun _ => hpace)

/-- The ranges are contiguous, and a log is reported with another transaction. -/
theorem log7_not_right : gapInTick11.HasTick 1 11 threeSlots ∧ ∃ entries x,
    bobGetLog gapInTick11 1 5 7 = .ok (some entries) ∧ .log x ∈ entries ∧ x.log.getTick = 11 ∧
      ¬ x.RightTag threeSlots :=
  ⟨hasTick_gapInTick11, _, ⟨logOfTick11 7, gapInTick11.loadedTickData 11, txSlot 1⟩,
    bobGetLog_gapInTick11, by simp, getTick_logOfTick11 (.inr rfl), not_rightTag_log7⟩

end QubicBob
