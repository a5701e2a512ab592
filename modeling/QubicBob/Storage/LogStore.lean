import QubicBob.Basic.LogEvent
import Mathlib.Data.List.TakeWhile

set_option autoImplicit false

/-! # Stored logs and the completeness gate

The logs of an epoch and the log range of each tick, as `db.cpp` reads them: from KeyDB first, from
Kvrocks when KeyDB does not answer. `dbGetLogsByTickRange` walks the ticks of a batch and stops at
the first tick whose range is unknown; `dbGetCombinedLogRangeForTicks` skips such a tick. The gate
of `verifyLoggingEvent` compares the number of logs of the first walk with the width of the second
and does not look at the `success` flag.
-/

namespace QubicBob

def LLONG_MAX : Int := 2 ^ 63 - 1

/-- The hash `tick_log_range:<tick>` as `db_insert_log_range` writes it: `(-1, -1)` for a tick
without logs, else a range of log ids. -/
structure TickLogRange where
  fromLogId : Int
  length : Int
  wf : (fromLogId = -1 ∧ length = -1) ∨
    (0 ≤ fromLogId ∧ 0 ≤ length ∧ fromLogId + length < LLONG_MAX)

/-- What one of the two databases holds about logs; `log` is keyed by epoch and log id. -/
structure LogStore where
  tickLogRange : Nat → Option TickLogRange
  log : Nat → Nat → Option (List Byte)

structure LogDB where
  keydb : LogStore
  kvrocks : LogStore

/-! ## Reading -/

def dbTryGetLogRangeForTick (db : LogDB) (tick : Nat) : Option TickLogRange :=
  match db.keydb.tickLogRange tick with
  | some r => some r
  | none => db.kvrocks.tickLogRange tick

/-- A stored log is only returned with a header of its own epoch and id. -/
def dbGetLog (store : LogStore) (epoch logId : Nat) : Option LogEvent :=
  match store.log epoch logId with
  | none => none
  | some bytes =>
      let log : LogEvent := ⟨bytes⟩
      if log.hasPackedHeader = false then none
      else if log.getEpoch ≠ epoch ∨ log.getLogId ≠ logId then none
      else some log

def dbTryGetLog (db : LogDB) (epoch logId : Nat) : Option LogEvent :=
  match dbGetLog db.keydb epoch logId with
  | some log => some log
  | none => dbGetLog db.kvrocks epoch logId

/-- The ids of a range. -/
def TickLogRange.ids (r : TickLogRange) : List Nat :=
  List.range' r.fromLogId.toNat r.length.toNat

/-- The logs of a range; ids without a log are left out. -/
def dbTryGetLogs (db : LogDB) (epoch : Nat) (r : TickLogRange) : List LogEvent :=
  r.ids.filterMap (dbTryGetLog db epoch)

/-- The ticks from `startTick` to `endTick`. -/
def ticksFromTo (startTick endTick : Nat) : List Nat :=
  List.range' startTick (endTick + 1 - startTick)

/-- The checks a log has to pass to be part of the batch `[startTick, endTick]`. -/
def acceptsLog (K : KangarooTwelve) (epoch startTick endTick : Nat) (le : LogEvent) : Bool :=
  le.hasPackedHeader && le.getEpoch == epoch
    && decide (startTick ≤ le.getTick.toNat ∧ le.getTick.toNat ≤ endTick) && le.selfCheck K epoch

/-- The loop of `db_get_logs_by_tick_range`: the logs found so far and the `success` flag. A log
that is not accepted clears the result. -/
def gatherLogs (K : KangarooTwelve) (db : LogDB) (epoch startTick endTick : Nat) :
    List Nat → List LogEvent → List LogEvent × Bool
  | [], out => (out, true)
  | tick :: ticks, out =>
      match dbTryGetLogRangeForTick db tick with
      -- the range of this tick is unknown: the walk ends with what it has
      | none => (out, false)
      | some r =>
          -- a tick without logs
          if r.fromLogId = -1 ∨ r.length = -1 ∨ r.length = 0 then
            gatherLogs K db epoch startTick endTick ticks out
          else
            let logs := dbTryGetLogs db epoch r
            if logs.all (acceptsLog K epoch startTick endTick) then
              gatherLogs K db epoch startTick endTick ticks (out ++ logs)
            else ([], false)

def dbGetLogsByTickRange (K : KangarooTwelve) (db : LogDB) (epoch startTick endTick : Nat) :
    List LogEvent × Bool :=
  gatherLogs K db epoch startTick endTick (ticksFromTo startTick endTick) []

/-- One round of the loop of `db_get_combined_log_range_for_ticks` on `(minId, maxId)`. -/
def widen (db : LogDB) (hull : Int × Int) (tick : Nat) : Int × Int :=
  match dbTryGetLogRangeForTick db tick with
  -- here an unknown tick is passed over
  | none => hull
  | some r =>
      if r.fromLogId ≠ -1 ∧ r.length ≠ -1 then
        (min hull.1 r.fromLogId, max hull.2 (r.fromLogId + r.length))
      else hull

/-- The hull of the known ranges, as first id and length; `(-1, -1)` if there is none. -/
def dbGetCombinedLogRangeForTicks (db : LogDB) (startTick endTick : Nat) : Int × Int :=
  let hull := (ticksFromTo startTick endTick).foldl (widen db) (LLONG_MAX, -1)
  if hull.1 = LLONG_MAX ∨ hull.2 = -1 then (-1, -1) else (hull.1, hull.2 - hull.1)

/-- The gate: the batch goes into rescue mode. -/
def entersRescueMode (K : KangarooTwelve) (db : LogDB) (epoch processFromTick processToTick : Nat) :
    Bool :=
  let vle := (dbGetLogsByTickRange K db epoch processFromTick processToTick).1
  let range := dbGetCombinedLogRangeForTicks db processFromTick processToTick
  -- the `success` flag of the first walk plays no part
  decide (range.1 ≠ -1 ∧ range.2 ≠ -1 ∧ (vle.length : Int) ≠ range.2)

/-! ## What the two walks see -/

section Walks

variable {K : KangarooTwelve} {db : LogDB} {epoch startTick endTick : Nat}

def rangeKnown (db : LogDB) (tick : Nat) : Bool := (dbTryGetLogRangeForTick db tick).isSome

/-- The ids of a tick's range; none if the range is not known. -/
def tickIds (db : LogDB) (tick : Nat) : List Nat :=
  match dbTryGetLogRangeForTick db tick with
  | none => []
  | some r => r.ids

/-- The logs found for a tick. -/
def tickLogs (db : LogDB) (epoch tick : Nat) : List LogEvent :=
  (tickIds db tick).filterMap (dbTryGetLog db epoch)

theorem mem_ticksFromTo {t : Nat} : t ∈ ticksFromTo startTick endTick ↔
    startTick ≤ t ∧ t ≤ endTick := by
  unfold ticksFromTo
  rw [List.mem_range'_1]
  omega

theorem nodup_ticksFromTo : (ticksFromTo startTick endTick).Nodup := List.nodup_range'

/-- A log comes back under its own id. -/
theorem dbTryGetLog_id {logId : Nat} {le : LogEvent} (h : dbTryGetLog db epoch logId = some le) :
    le.getLogId = logId := by
  have hstore : ∀ store, dbGetLog store epoch logId = some le → le.getLogId = logId := by
    intro store hs
    unfold dbGetLog at hs
    split at hs
    · exact absurd hs (by simp)
    · dsimp only at hs
      split at hs
      · exact absurd hs (by simp)
      · split at hs
        · exact absurd hs (by simp)
        · next hok =>
            rw [← Option.some.inj hs]
            exact not_not.mp (fun hc => hok (Or.inr hc))
  unfold dbTryGetLog at h
  split at h
  · next log hlog => exact hstore db.keydb (hlog.trans h)
  · exact hstore db.kvrocks h

/-- The first walk: the logs of the ticks before the first unknown one, or nothing when one of
them is not accepted. -/
theorem gatherLogs_eq (ticks : List Nat) (out : List LogEvent) :
    gatherLogs K db epoch startTick endTick ticks out =
      if (ticks.takeWhile (rangeKnown db)).all
          (fun t => (tickLogs db epoch t).all (acceptsLog K epoch startTick endTick)) then
        (out ++ (ticks.takeWhile (rangeKnown db)).flatMap (tickLogs db epoch),
          ticks.all (rangeKnown db))
      else ([], false) := by
  induction ticks generalizing out with
  | nil => simp [gatherLogs]
  | cons tick ticks ih =>
      rw [gatherLogs]
      cases hr : dbTryGetLogRangeForTick db tick with
      | none =>
          have hunknown : rangeKnown db tick = false := by simp [rangeKnown, hr]
          simp [hunknown]
      | some r =>
          have hknown : rangeKnown db tick = true := by simp [rangeKnown, hr]
          have hlogs : tickLogs db epoch tick = dbTryGetLogs db epoch r := by
            simp [tickLogs, tickIds, hr, dbTryGetLogs]
          simp only [List.takeWhile_cons, hknown, if_true, List.all_cons, List.flatMap_cons,
            Bool.true_and, hlogs]
          -- a range without logs contributes nothing, as the code passes over it
          by_cases hnone : r.fromLogId = -1 ∨ r.length = -1 ∨ r.length = 0
          · have hempty : dbTryGetLogs db epoch r = [] := by
              have hlen : r.length.toNat = 0 := by
                rcases r.wf with ⟨_, hl⟩ | ⟨hf, hl, _⟩ <;> omega
              simp [dbTryGetLogs, TickLogRange.ids, hlen]
            rw [if_pos hnone, ih, hempty]
            simp
          · rw [if_neg hnone]
            by_cases hall : (dbTryGetLogs db epoch r).all (acceptsLog K epoch startTick endTick)
                = true
            · rw [if_pos hall, ih, hall]
              simp [List.append_assoc]
            · rw [if_neg hall]
              rw [Bool.not_eq_true] at hall
              simp [hall]

/-- A batch whose ranges are all known and whose logs are each accepted for their own tick is read
in full. -/
theorem dbGetLogsByTickRange_of_accepted
    (hknown : ∀ t ∈ ticksFromTo startTick endTick, rangeKnown db t = true)
    (haccepted : ∀ t ∈ ticksFromTo startTick endTick, ∀ le ∈ tickLogs db epoch t,
      acceptsLog K epoch t t le = true) :
    dbGetLogsByTickRange K db epoch startTick endTick =
      ((ticksFromTo startTick endTick).flatMap (tickLogs db epoch), true) := by
  have hall : (ticksFromTo startTick endTick).all (fun t => (tickLogs db epoch t).all
      (acceptsLog K epoch startTick endTick)) = true := by
    refine List.all_eq_true.mpr fun t ht => List.all_eq_true.mpr fun le hle => ?_
    obtain ⟨h₁, h₂⟩ := mem_ticksFromTo.mp ht
    have hacc := haccepted t ht le hle
    -- a log of tick `t` also lies in the wider window
    simp only [acceptsLog, Bool.and_eq_true, decide_eq_true_eq] at hacc ⊢
    exact ⟨⟨hacc.1.1, by omega⟩, hacc.2⟩
  unfold dbGetLogsByTickRange
  rw [gatherLogs_eq, List.takeWhile_eq_self_iff.mpr hknown, if_pos hall, List.nil_append,
    List.all_eq_true.mpr hknown]

/-- The ticks before the first unknown one. -/
theorem mem_takeWhile_range' {p : Nat → Bool} {n : Nat} :
    ∀ {s t : Nat}, t ∈ (List.range' s n).takeWhile p ↔
      s ≤ t ∧ t < s + n ∧ ∀ t', s ≤ t' → t' ≤ t → p t' = true := by
  induction n with
  | zero =>
      intro s t
      simp only [List.range'_zero, List.takeWhile_nil, List.not_mem_nil, false_iff]
      omega
  | succ n ih =>
      intro s t
      rw [List.range'_succ, List.takeWhile_cons]
      by_cases hp : p s = true
      · rw [if_pos hp, List.mem_cons, ih]
        constructor
        · rintro (rfl | ⟨hst, hlt, hall⟩)
          · refine ⟨le_refl _, by omega, ?_⟩
            intro t' h₁ h₂
            rwa [le_antisymm h₂ h₁]
          · refine ⟨by omega, by omega, ?_⟩
            intro t' h₁ h₂
            rcases Nat.eq_or_lt_of_le h₁ with rfl | hlt'
            · exact hp
            · exact hall t' hlt' h₂
        · rintro ⟨hst, hlt, hall⟩
          rcases Nat.eq_or_lt_of_le hst with rfl | hlt'
          · exact Or.inl rfl
          · exact Or.inr ⟨hlt', by omega, fun t' h₁ h₂ => hall t' (by omega) h₂⟩
      · rw [if_neg hp]
        simp only [List.not_mem_nil, false_iff]
        rintro ⟨hst, _, hall⟩
        exact hp (hall s (le_refl s) hst)

/-- The ids whose log the first walk finds on a tick. -/
theorem tickLogs_ids (tick : Nat) : (tickLogs db epoch tick).map LogEvent.getLogId =
    (tickIds db tick).filter (fun id => (dbTryGetLog db epoch id).isSome) := by
  unfold tickLogs
  induction tickIds db tick with
  | nil => rfl
  | cons id ids ih =>
      cases hlog : dbTryGetLog db epoch id with
      | none => simp [hlog, ih]
      | some le => simp [hlog, ih, dbTryGetLog_id hlog]

theorem nodup_tickIds (tick : Nat) : (tickIds db tick).Nodup := by
  unfold tickIds
  split
  · exact List.nodup_nil
  · exact List.nodup_range'

/-! ### The hull -/

theorem widen_le (hull : Int × Int) (tick : Nat) :
    (widen db hull tick).1 ≤ hull.1 ∧ hull.2 ≤ (widen db hull tick).2 := by
  unfold widen
  split
  · exact ⟨le_refl _, le_refl _⟩
  · split
    · exact ⟨min_le_left _ _, le_max_left _ _⟩
    · exact ⟨le_refl _, le_refl _⟩

theorem foldl_widen_le (ticks : List Nat) : ∀ hull : Int × Int,
    (ticks.foldl (widen db) hull).1 ≤ hull.1 ∧ hull.2 ≤ (ticks.foldl (widen db) hull).2 := by
  induction ticks with
  | nil => exact fun hull => ⟨le_refl _, le_refl _⟩
  | cons tick ticks ih =>
      intro hull
      have hstep := @widen_le db hull tick
      have hrest := ih (widen db hull tick)
      exact ⟨le_trans hrest.1 hstep.1, le_trans hstep.2 hrest.2⟩

/-- The hull is still in its initial state or a proper range of ids. -/
def HullOk (hull : Int × Int) : Prop := hull = (LLONG_MAX, -1) ∨ 0 ≤ hull.1 ∧ hull.1 ≤ hull.2

theorem widen_ok {hull : Int × Int} (h : HullOk hull) (tick : Nat) : HullOk (widen db hull tick) := by
  unfold widen
  split
  · exact h
  · next r hr =>
      split
      · next hne =>
          have hmax : (0 : Int) ≤ LLONG_MAX := by decide
          right
          dsimp only
          rcases r.wf with ⟨hf, _⟩ | ⟨hf, hl, _⟩
          · exact absurd hf hne.1
          · rcases h with rfl | ⟨h₁, h₂⟩
            · dsimp only
              omega
            · omega
      · exact h

theorem foldl_widen_ok (ticks : List Nat) :
    ∀ hull : Int × Int, HullOk hull → HullOk (ticks.foldl (widen db) hull) := by
  induction ticks with
  | nil => exact fun hull h => h
  | cons tick ticks ih => exact fun hull h => ih _ (widen_ok h tick)

/-- Every id of a known range is inside the hull. -/
theorem foldl_widen_mem {ticks : List Nat} {tick id : Nat} (ht : tick ∈ ticks)
    (hid : id ∈ tickIds db tick) : ∀ hull : Int × Int,
    (ticks.foldl (widen db) hull).1 ≤ id ∧ (ticks.foldl (widen db) hull).1 < LLONG_MAX ∧
      (id : Int) < (ticks.foldl (widen db) hull).2 := by
  induction ticks with
  | nil => exact absurd ht (List.not_mem_nil)
  | cons t ticks ih =>
      intro hull
      rcases List.mem_cons.mp ht with rfl | ht'
      -- the tick of the id widens the hull to the id, and later ticks only widen it further
      · have hrest := @foldl_widen_le db ticks (widen db hull tick)
        have hstep : (widen db hull tick).1 ≤ id ∧ (widen db hull tick).1 < LLONG_MAX ∧
            (id : Int) < (widen db hull tick).2 := by
          unfold tickIds at hid
          unfold widen
          cases hr : dbTryGetLogRangeForTick db tick with
          | none => simp [hr] at hid
          | some r =>
              simp only [hr, TickLogRange.ids, List.mem_range'_1] at hid
              dsimp only
              have hwf := r.wf
              rw [if_pos (by omega)]
              dsimp only
              omega
        have h₁ := hrest.1
        have h₂ := hrest.2
        simp only [List.foldl_cons]
        omega
      · exact ih ht' (widen db hull t)

/-- The hull of a batch as a set of ids. -/
def hullIds (db : LogDB) (startTick endTick : Nat) : Finset Nat :=
  Finset.Ico (dbGetCombinedLogRangeForTicks db startTick endTick).1.toNat
    ((dbGetCombinedLogRangeForTicks db startTick endTick).1
      + (dbGetCombinedLogRangeForTicks db startTick endTick).2).toNat

/-- No hull, or one with as many ids as its length says. -/
theorem hull_cases : (dbGetCombinedLogRangeForTicks db startTick endTick = (-1, -1)) ∨
    (0 ≤ (dbGetCombinedLogRangeForTicks db startTick endTick).1 ∧
      ((hullIds db startTick endTick).card : Int)
        = (dbGetCombinedLogRangeForTicks db startTick endTick).2) := by
  have hok := @foldl_widen_ok db (ticksFromTo startTick endTick) (LLONG_MAX, -1) (Or.inl rfl)
  unfold hullIds dbGetCombinedLogRangeForTicks
  dsimp only
  split
  · exact Or.inl rfl
  · next hne =>
      right
      rcases hok with heq | ⟨h₁, h₂⟩
      · rw [heq] at hne
        exact absurd (Or.inl rfl) hne
      · rw [Nat.card_Ico]
        dsimp only
        omega

theorem mem_hullIds {id : Nat} : id ∈ hullIds db startTick endTick ↔
    (dbGetCombinedLogRangeForTicks db startTick endTick).1 ≤ id ∧
      (id : Int) < (dbGetCombinedLogRangeForTicks db startTick endTick).1
        + (dbGetCombinedLogRangeForTicks db startTick endTick).2 := by
  unfold hullIds
  rw [Finset.mem_Ico]
  rcases @hull_cases db startTick endTick with heq | ⟨h₁, _⟩
  · rw [heq]
    dsimp only
    omega
  · omega

theorem tickIds_subset_hull {tick id : Nat} (ht : tick ∈ ticksFromTo startTick endTick)
    (hid : id ∈ tickIds db tick) : id ∈ hullIds db startTick endTick := by
  have hmem := foldl_widen_mem ht hid (LLONG_MAX, -1)
  rw [mem_hullIds]
  unfold dbGetCombinedLogRangeForTicks
  dsimp only
  rw [if_neg (by omega)]
  dsimp only
  omega

end Walks

/-! ## The gate -/

section Gate

variable {K : KangarooTwelve} {db : LogDB} {epoch startTick endTick : Nat}

/-- No log id belongs to the ranges of two ticks of the batch. -/
def RangesDisjoint (db : LogDB) (startTick endTick : Nat) : Prop :=
  ∀ t t', t ∈ ticksFromTo startTick endTick → t' ∈ ticksFromTo startTick endTick → t ≠ t' →
    ∀ id, id ∈ tickIds db t → id ∉ tickIds db t'

/-- What the gate is for: a batch it lets through has all its ranges known, and the list handed to
the simulation has every id of the combined range exactly once, each log passing `selfCheck`. -/
def GateSound (K : KangarooTwelve) (db : LogDB) (epoch startTick endTick : Nat) : Prop :=
  entersRescueMode K db epoch startTick endTick = false →
    (∀ t, startTick ≤ t → t ≤ endTick → (dbTryGetLogRangeForTick db t).isSome = true) ∧
    (∀ id : Nat, (dbGetCombinedLogRangeForTicks db startTick endTick).1 ≤ id →
      (id : Int) < (dbGetCombinedLogRangeForTicks db startTick endTick).1
        + (dbGetCombinedLogRangeForTicks db startTick endTick).2 →
      ((dbGetLogsByTickRange K db epoch startTick endTick).1.map LogEvent.getLogId).count id = 1) ∧
    ∀ le ∈ (dbGetLogsByTickRange K db epoch startTick endTick).1, le.selfCheck K epoch = true

/-- The id lies in the range of a tick before the first unknown one, and its log is stored and
accepted. -/
def Covered (K : KangarooTwelve) (db : LogDB) (epoch startTick endTick id : Nat) : Prop :=
  ∃ t, startTick ≤ t ∧ t ≤ endTick ∧
    (∀ t', startTick ≤ t' → t' ≤ t → (dbTryGetLogRangeForTick db t').isSome = true) ∧
    id ∈ tickIds db t ∧ ∃ le, dbTryGetLog db epoch id = some le ∧
      acceptsLog K epoch startTick endTick le = true

/-- The ticks the first walk gets to see. -/
def seenTicks (db : LogDB) (startTick endTick : Nat) : List Nat :=
  (ticksFromTo startTick endTick).takeWhile (rangeKnown db)

/-- The logs on them. -/
def seenLogs (db : LogDB) (epoch startTick endTick : Nat) : List LogEvent :=
  (seenTicks db startTick endTick).flatMap (tickLogs db epoch)

theorem mem_seenTicks {t : Nat} : t ∈ seenTicks db startTick endTick ↔
    startTick ≤ t ∧ t ≤ endTick ∧ ∀ t', startTick ≤ t' → t' ≤ t → rangeKnown db t' = true := by
  unfold seenTicks ticksFromTo
  rw [mem_takeWhile_range']
  constructor
  · rintro ⟨h₁, h₂, h₃⟩
    exact ⟨h₁, by omega, h₃⟩
  · rintro ⟨h₁, h₂, h₃⟩
    exact ⟨h₁, by omega, h₃⟩

theorem seenTicks_subset {t : Nat} (h : t ∈ seenTicks db startTick endTick) :
    t ∈ ticksFromTo startTick endTick :=
  (List.takeWhile_sublist _).subset h

theorem mem_seenLogs_ids {id : Nat} :
    id ∈ (seenLogs db epoch startTick endTick).map LogEvent.getLogId ↔
      ∃ t ∈ seenTicks db startTick endTick, id ∈ tickIds db t ∧
        (dbTryGetLog db epoch id).isSome = true := by
  unfold seenLogs
  rw [List.map_flatMap, List.mem_flatMap]
  simp only [tickLogs_ids, List.mem_filter]

/-- With disjoint ranges no id is found twice. -/
theorem nodup_seenLogs_ids (hdisj : RangesDisjoint db startTick endTick) :
    ((seenLogs db epoch startTick endTick).map LogEvent.getLogId).Nodup := by
  unfold seenLogs
  rw [List.map_flatMap, List.nodup_flatMap]
  constructor
  · intro t _
    rw [tickLogs_ids]
    exact (nodup_tickIds t).filter _
  · have hnodup : (seenTicks db startTick endTick).Nodup :=
      nodup_ticksFromTo.sublist (List.takeWhile_sublist _)
    refine List.Pairwise.imp_of_mem ?_ hnodup
    intro t t' ht ht' hne
    simp only [Function.onFun, tickLogs_ids]
    intro id hid hid'
    exact hdisj t t' (seenTicks_subset ht) (seenTicks_subset ht') hne id
      (List.mem_of_mem_filter hid) (List.mem_of_mem_filter hid')

/-- The walk returns the logs it has seen, or nothing if one of them is not accepted. -/
theorem dbGetLogsByTickRange_cases :
    ((dbGetLogsByTickRange K db epoch startTick endTick).1 = seenLogs db epoch startTick endTick ∧
      ∀ le ∈ seenLogs db epoch startTick endTick,
        acceptsLog K epoch startTick endTick le = true) ∨
    ((dbGetLogsByTickRange K db epoch startTick endTick).1 = [] ∧
      ∃ t ∈ seenTicks db startTick endTick, ∃ le ∈ tickLogs db epoch t,
        acceptsLog K epoch startTick endTick le = false) := by
  unfold dbGetLogsByTickRange
  rw [gatherLogs_eq]
  split
  · next hall =>
      left
      refine ⟨by rw [List.nil_append]; rfl, ?_⟩
      intro le hle
      obtain ⟨t, ht, hle⟩ := List.mem_flatMap.mp hle
      exact List.all_eq_true.mp (List.all_eq_true.mp hall t ht) le hle
  · next hall =>
      right
      refine ⟨rfl, ?_⟩
      rw [Bool.not_eq_true, List.all_eq_false] at hall
      obtain ⟨t, ht, hle⟩ := hall
      rw [Bool.not_eq_true, List.all_eq_false] at hle
      obtain ⟨le, hmem, hacc⟩ := hle
      exact ⟨t, ht, le, hmem, by simpa using hacc⟩

/-- A batch has accepted logs only. -/
theorem accepted_of_mem_batch {le : LogEvent}
    (h : le ∈ (dbGetLogsByTickRange K db epoch startTick endTick).1) :
    (startTick ≤ le.getTick.toNat ∧ le.getTick.toNat ≤ endTick) ∧ le.selfCheck K epoch = true := by
  rcases @dbGetLogsByTickRange_cases K db epoch startTick endTick with ⟨hvle, hall⟩ | ⟨hvle, _⟩
  · rw [hvle] at h
    have hacc := hall le h
    unfold acceptsLog at hacc
    rw [Bool.and_eq_true, Bool.and_eq_true, decide_eq_true_eq] at hacc
    exact ⟨hacc.1.2, hacc.2⟩
  · rw [hvle] at h
    exact absurd h List.not_mem_nil

/-- A log found on a tick belongs to an id of its range. -/
theorem mem_tickLogs {t : Nat} {le : LogEvent} (h : le ∈ tickLogs db epoch t) :
    le.getLogId ∈ tickIds db t ∧ dbTryGetLog db epoch le.getLogId = some le := by
  obtain ⟨id, hid, hlog⟩ := List.mem_filterMap.mp h
  rw [dbTryGetLog_id hlog]
  exact ⟨hid, hlog⟩

/-- A log that is not accepted leaves its own id uncovered. -/
theorem not_covered_of_rejected {t : Nat} {le : LogEvent}
    (ht : t ∈ seenTicks db startTick endTick) (hle : le ∈ tickLogs db epoch t)
    (hacc : acceptsLog K epoch startTick endTick le = false) :
    le.getLogId ∈ hullIds db startTick endTick ∧
      ¬ Covered K db epoch startTick endTick le.getLogId := by
  obtain ⟨hin, hlog⟩ := mem_tickLogs hle
  refine ⟨tickIds_subset_hull (seenTicks_subset ht) hin, ?_⟩
  rintro ⟨_, _, _, _, _, le', hle', hacc'⟩
  rw [hlog] at hle'
  rw [← Option.some.inj hle', hacc] at hacc'
  exact absurd hacc' (by simp)

/-- What the gate really checks: every id of the hull is covered. The two sides have the same
number of ids only if they have the same ids. -/
theorem not_entersRescueMode_iff (hdisj : RangesDisjoint db startTick endTick) :
    entersRescueMode K db epoch startTick endTick = false ↔
      ∀ id ∈ hullIds db startTick endTick, Covered K db epoch startTick endTick id := by
  set ids := (seenLogs db epoch startTick endTick).map LogEvent.getLogId with hids
  have hnodup : ids.Nodup := nodup_seenLogs_ids hdisj
  have hlen : ids.toFinset.card = (seenLogs db epoch startTick endTick).length := by
    rw [List.toFinset_card_of_nodup hnodup, hids, List.length_map]
  have hsub : ids.toFinset ⊆ hullIds db startTick endTick := by
    intro id hid
    obtain ⟨t, ht, hin, _⟩ := mem_seenLogs_ids.mp (List.mem_toFinset.mp hid)
    exact tickIds_subset_hull (seenTicks_subset ht) hin
  unfold entersRescueMode
  simp only [decide_eq_false_iff_not]
  constructor
  · intro hpass id hid
    have hpos : 0 < (hullIds db startTick endTick).card := Finset.card_pos.mpr ⟨id, hid⟩
    rcases @hull_cases db startTick endTick with heq | ⟨h₁, hcard⟩
    · rw [mem_hullIds, heq] at hid
      dsimp only at hid
      omega
    rcases @dbGetLogsByTickRange_cases K db epoch startTick endTick with ⟨hvle, hall⟩ | ⟨hvle, _⟩
    · -- equal numbers: the ids found are the whole hull
      rw [hvle] at hpass
      have hge : (hullIds db startTick endTick).card ≤ ids.toFinset.card := by
        rw [hlen]
        omega
      have heq := Finset.eq_of_subset_of_card_le hsub hge
      rw [← heq, List.mem_toFinset] at hid
      obtain ⟨t, ht, hin, hstored⟩ := mem_seenLogs_ids.mp hid
      obtain ⟨le, hle⟩ := Option.isSome_iff_exists.mp hstored
      obtain ⟨hs, he, hknown⟩ := mem_seenTicks.mp ht
      refine ⟨t, hs, he, hknown, hin, le, hle, hall le ?_⟩
      exact List.mem_flatMap.mpr ⟨t, ht, List.mem_filterMap.mpr ⟨id, hin, hle⟩⟩
    · rw [hvle] at hpass
      simp only [List.length_nil, Nat.cast_zero] at hpass
      omega
  · intro hcov hrescue
    rcases @hull_cases db startTick endTick with heq | ⟨_, hcard⟩
    · exact hrescue.1 (by rw [heq])
    rcases @dbGetLogsByTickRange_cases K db epoch startTick endTick with ⟨hvle, _⟩ | ⟨_, hbad⟩
    · have hsup : hullIds db startTick endTick ⊆ ids.toFinset := by
        intro id hid
        obtain ⟨t, hs, he, hknown, hin, le, hle, _⟩ := hcov id hid
        refine List.mem_toFinset.mpr (mem_seenLogs_ids.mpr ⟨t, ?_, hin, by rw [hle]; rfl⟩)
        exact mem_seenTicks.mpr ⟨hs, he, hknown⟩
      have heq := Finset.Subset.antisymm hsub hsup
      refine hrescue.2.2 ?_
      rw [hvle, ← hlen, heq, hcard]
    · obtain ⟨t, ht, le, hle, hacc⟩ := hbad
      obtain ⟨hin, hnot⟩ := not_covered_of_rejected ht hle hacc
      exact hnot (hcov le.getLogId hin)

/-- **The completeness gate.** It does what it is for exactly when every tick of the batch has a
known range, or some id of the combined range is not covered by the ticks before the first unknown
one, which sends the batch into rescue mode. -/
theorem gateSound_iff (hdisj : RangesDisjoint db startTick endTick) :
    GateSound K db epoch startTick endTick ↔
      (∀ t, startTick ≤ t → t ≤ endTick → (dbTryGetLogRangeForTick db t).isSome = true) ∨
      ∃ id ∈ hullIds db startTick endTick, ¬ Covered K db epoch startTick endTick id := by
  constructor
  · intro hsound
    by_cases hcov : ∀ id ∈ hullIds db startTick endTick, Covered K db epoch startTick endTick id
    · exact Or.inl (hsound ((not_entersRescueMode_iff hdisj).mpr hcov)).1
    · push Not at hcov
      exact Or.inr hcov
  · intro hcond hpass
    have hcov := (not_entersRescueMode_iff hdisj).mp hpass
    have hknown : ∀ t, startTick ≤ t → t ≤ endTick →
        (dbTryGetLogRangeForTick db t).isSome = true := by
      rcases hcond with hknown | ⟨id, hid, hnot⟩
      · exact hknown
      · exact absurd (hcov id hid) hnot
    refine ⟨hknown, ?_, ?_⟩
    · intro id h₁ h₂
      have hid : id ∈ hullIds db startTick endTick := mem_hullIds.mpr ⟨h₁, h₂⟩
      rcases @dbGetLogsByTickRange_cases K db epoch startTick endTick with ⟨hvle, _⟩ | ⟨_, hbad⟩
      · obtain ⟨t, hs, he, hk, hin, le, hle, _⟩ := hcov id hid
        rw [hvle]
        refine List.count_eq_one_of_mem (nodup_seenLogs_ids hdisj) (mem_seenLogs_ids.mpr
          ⟨t, mem_seenTicks.mpr ⟨hs, he, hk⟩, hin, by rw [hle]; rfl⟩)
      -- a rejected log empties the list, but then its own id is not covered
      · obtain ⟨t, ht, le, hle, hacc⟩ := hbad
        obtain ⟨hin, hnot⟩ := not_covered_of_rejected ht hle hacc
        exact absurd (hcov le.getLogId hin) hnot
    · intro le hle
      rcases @dbGetLogsByTickRange_cases K db epoch startTick endTick with ⟨hvle, hall⟩ | ⟨hvle, _⟩
      · rw [hvle] at hle
        have hacc := hall le hle
        unfold acceptsLog at hacc
        rw [Bool.and_eq_true] at hacc
        exact hacc.2
      · rw [hvle] at hle
        exact absurd hle (List.not_mem_nil)

/-- A tick without logs. -/
def TickLogRange.noLogs : TickLogRange := ⟨-1, -1, Or.inl ⟨rfl, rfl⟩⟩

/-- A KeyDB with the given ranges and no logs, and an empty Kvrocks. -/
def LogDB.ofRanges (tickLogRange : Nat → Option TickLogRange) : LogDB :=
  ⟨⟨tickLogRange, fun _ _ => none⟩, ⟨fun _ => none, fun _ _ => none⟩⟩

/-- A log of epoch 1 whose hash is zero. -/
def gateLog (tick : BitVec 32) (logId : Nat) : LogEvent :=
  LogEvent.pack 1 tick SPECTRUM_STATS (BitVec.ofNat 64 logId) 0 (List.replicate 8 0)

/-- Two logs of tick 10 and one of tick 11, all stored. -/
def twoTickDB : LogDB :=
  ⟨⟨fun t => if t = 10 then some ⟨0, 2, by decide⟩ else some ⟨2, 1, by decide⟩,
    fun epoch id => if epoch = 1 ∧ id < 3 then
      some (gateLog (if id < 2 then 10 else 11) id).content else none⟩,
    ⟨fun _ => none, fun _ _ => none⟩⟩

/-- A batch of two ticks whose three logs are stored goes through the gate, which is sound there. -/
theorem gateSound_iff_at_complete_batch :
    let K : KangarooTwelve := ⟨fun _ => 7, fun _ => 0⟩
    RangesDisjoint twoTickDB 10 11 ∧ entersRescueMode K twoTickDB 1 10 11 = false ∧
      GateSound K twoTickDB 1 10 11 := by
  intro K
  have hticks : ∀ t, t ∈ ticksFromTo 10 11 → t = 10 ∨ t = 11 := by
    intro t ht
    have := mem_ticksFromTo.mp ht
    omega
  have hdisj : RangesDisjoint twoTickDB 10 11 := by
    intro t t' ht ht' hne id hid hid'
    have hids : tickIds twoTickDB 10 = [0, 1] ∧ tickIds twoTickDB 11 = [2] := by decide
    rcases hticks t ht with rfl | rfl <;> rcases hticks t' ht' with rfl | rfl <;>
      simp only [hids.1, hids.2] at hid hid' <;> simp at hid hid' hne <;> omega
  refine ⟨hdisj, by decide +kernel, (gateSound_iff hdisj).mpr (Or.inl ?_)⟩
  intro t h₁ h₂
  rcases hticks t (mem_ticksFromTo.mpr ⟨h₁, h₂⟩) with rfl | rfl
  · decide
  · decide

/-- A batch whose last tick has no known range goes through: tick 10 has no logs, tick 11 is not in
either database. -/
theorem gateSound_fails_on_unknown_tick :
    let db := LogDB.ofRanges (fun t => if t = 10 then some .noLogs else none)
    RangesDisjoint db 10 11 ∧ ∀ K : KangarooTwelve, ¬ GateSound K db 1 10 11 := by
  intro db
  have hempty : ∀ t, tickIds db t = [] := by
    intro t
    by_cases ht : t = 10
    · rw [ht]
      decide
    · simp [tickIds, dbTryGetLogRangeForTick, db, LogDB.ofRanges, ht]
  refine ⟨?_, ?_⟩
  · intro t t' _ _ _ id hid
    rw [hempty] at hid
    exact absurd hid (List.not_mem_nil)
  · intro K hsound
    have hpass : entersRescueMode K db 1 10 11 = false := by
      have hrange : dbGetCombinedLogRangeForTicks db 10 11 = (-1, -1) := by decide
      unfold entersRescueMode
      simp [hrange]
    have hknown := (hsound hpass).1 11 (by decide) (by decide)
    exact absurd hknown (by decide)

end Gate

end QubicBob
