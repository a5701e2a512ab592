import QubicBob.Lib.SlotCursor
import QubicBob.Archive.Reads

set_option autoImplicit false

/-! # The transaction of a log

A log is reported with its transaction, which is found by the ranges of its tick. `bobGetLog`,
`getCustomLog`, `pushVerifiedLogs`, `performCatchUp` and `performCatchUpByLogId` each go through a
list of logs with a cursor into `LogRangesPerTxInTick::sort()`: it is loaded when the tick changes,
and moved when a log is past the range it points to. The five copies differ in the comparison, in
how the cursor is moved and in the id it is moved for (`CursorRule`, `Visit`).

Whether an access is in bounds is a question about one tick at a time, since every tick that comes
up loads the cursor anew at a place the scan has given. The scan gives 0 where it finds nothing,
which is out of bounds only for an order without slots. From there on a rule that scans stays in
bounds, and one that moves by one leaves the order when the logs of the tick have been past all
slots, one after the other.
-/

namespace QubicBob

/-! ## `LogRangesPerTxInTick` -/

theorem specialEvent_lt (k : Fin 5) : NUMBER_OF_TRANSACTIONS_PER_TICK + k.val < LOG_TX_PER_TICK :=
  Nat.add_lt_add_left k.isLt 1024

def specialEvent (k : Fin 5) : Fin LOG_TX_PER_TICK :=
  ⟨NUMBER_OF_TRANSACTIONS_PER_TICK + k.val, specialEvent_lt k⟩

def SC_INITIALIZE_TX : Fin LOG_TX_PER_TICK := specialEvent 0
def SC_BEGIN_EPOCH_TX : Fin LOG_TX_PER_TICK := specialEvent 1
def SC_BEGIN_TICK_TX : Fin LOG_TX_PER_TICK := specialEvent 2
def SC_END_TICK_TX : Fin LOG_TX_PER_TICK := specialEvent 3
def SC_END_EPOCH_TX : Fin LOG_TX_PER_TICK := specialEvent 4

namespace LogRangesPerTxInTick

variable (lr : LogRangesPerTxInTick)

/-- The slots that are in use, in the order in which their logs are made. -/
def sort : List (Fin LOG_TX_PER_TICK) :=
  ([SC_INITIALIZE_TX, SC_BEGIN_EPOCH_TX, SC_BEGIN_TICK_TX] ++
    (List.finRange NUMBER_OF_TRANSACTIONS_PER_TICK).map (Fin.castLE transactions_le_ranges) ++
    [SC_END_TICK_TX, SC_END_EPOCH_TX]).filter (fun i => lr.fromLogId i != -1)

/-- The last id of a slot, `s + length - 1`. -/
def lastLogId (i : Fin LOG_TX_PER_TICK) : BitVec 64 := lr.fromLogId i + lr.length i - 1

/-- The first place from `startFrom` on whose slot has the id; 0 if there is none. -/
def scanTxId (logTxOrder : List (Fin LOG_TX_PER_TICK)) (startFrom : Nat) (logId : BitVec 64) : Nat :=
  match (logTxOrder.drop startFrom).findIdx? (fun i =>
      (lr.fromLogId i).sle logId && logId.sle (lr.lastLogId i)) with
  | some i => startFrom + i
  | none => 0

theorem scanTxId_lt {logTxOrder : List (Fin LOG_TX_PER_TICK)} (h : logTxOrder ≠ [])
    (startFrom : Nat) (logId : BitVec 64) :
    lr.scanTxId logTxOrder startFrom logId < logTxOrder.length := by
  unfold scanTxId
  split
  · next i hi =>
      have hlt := (List.findIdx?_eq_some_iff_findIdx_eq.mp hi).1
      rw [List.length_drop] at hlt
      omega
  · exact List.length_pos_iff.mpr h

end LogRangesPerTxInTick

/-! ## The cursor -/

/-- The variables of a query. The tick data also goes into the report. -/
structure TxCursor where
  td : TickData
  lr : LogRangesPerTxInTick
  logTxOrder : List (Fin LOG_TX_PER_TICK)
  logTxOrderIndex : Nat

/-- A log of the list, with the id that the cursor is loaded and moved for. -/
structure Visit where
  log : LogEvent
  id : BitVec 64

/-- A log as it is reported. -/
structure TaggedLog where
  log : LogEvent
  td : TickData
  txIndex : Fin LOG_TX_PER_TICK

/-- What the copies do differently: `id > e`, signed or not, and the place the cursor moves to. -/
structure CursorRule where
  past : BitVec 64 → BitVec 64 → Bool
  advance : LogRangesPerTxInTick → List (Fin LOG_TX_PER_TICK) → Nat → BitVec 64 → Nat

/-- `id > e` for two numbers of type `long long`. -/
def signedPast (id e : BitVec 64) : Bool := e.slt id

/-- `id > e` where `id` is of type `uint64_t`, so that `e` is converted. -/
def unsignedPast (id e : BitVec 64) : Bool := e.ult id

namespace CursorRule

/-- "continuous log, don't need to scan" -/
def next (past : BitVec 64 → BitVec 64 → Bool) : CursorRule := ⟨past, fun _ _ i _ => i + 1⟩

/-- "rescan to find next cursor" -/
def rescan (past : BitVec 64 → BitVec 64 → Bool) : CursorRule :=
  ⟨past, fun lr order i id => lr.scanTxId order (i + 1) id⟩

end CursorRule

namespace Archive

variable (a : Archive)

/-- `td` after `db_try_get_tick_data`. -/
def loadedTickData (tick : BitVec 32) : TickData :=
  (a.dbTryGetTickData true true tick).getD TickData.zero

/-- `lr` after `db_try_get_log_ranges`. -/
def loadedRanges (tick : BitVec 32) : LogRangesPerTxInTick :=
  (a.dbTryGetLogRanges true true tick).getD allUnused

end Archive

namespace TxCursor

/-- Before the first log: no tick. -/
def init : TxCursor := ⟨TickData.zero, ⟨fun i => if i.val = 0 then -1 else 0, fun _ => 0⟩, [], 0⟩

def load (a : Archive) (tick : BitVec 32) (id : BitVec 64) : TxCursor where
  td := a.loadedTickData tick
  lr := a.loadedRanges tick
  logTxOrder := (a.loadedRanges tick).sort
  logTxOrderIndex := (a.loadedRanges tick).scanTxId (a.loadedRanges tick).sort 0 id

/-- The test at the beginning of the loop body. -/
def moveTo (a : Archive) (c : TxCursor) (v : Visit) : TxCursor :=
  if v.log.getTick ≠ c.td.tick then load a v.log.getTick v.id else c

/-- `logTxOrder[i]`. -/
def slot (c : TxCursor) (i : Nat) : Except Halt (Fin LOG_TX_PER_TICK) :=
  match c.logTxOrder[i]? with
  | some txIndex => .ok txIndex
  | none => .error .outOfBounds

/-- The slot for an id, and the cursor behind it. -/
def take (rule : CursorRule) (c : TxCursor) (id : BitVec 64) :
    Except Halt (TxCursor × Fin LOG_TX_PER_TICK) := do
  let txIndex ← c.slot c.logTxOrderIndex
  if rule.past id (c.lr.lastLogId txIndex) then
    let i := rule.advance c.lr c.logTxOrder c.logTxOrderIndex id
    let txIndex ← c.slot i
    pure ({ c with logTxOrderIndex := i }, txIndex)
  else pure (c, txIndex)

end TxCursor

/-- The logs that are tagged, and the cursor at the end, or how the loop is left before. -/
def tagLogs (rule : CursorRule) (move : TxCursor → Visit → TxCursor) :
    TxCursor → List Visit → List TaggedLog × Except Halt TxCursor
  | c, [] => ([], .ok c)
  | c, v :: vs =>
      match (move c v).take rule v.id with
      | .error h => ([], .error h)
      | .ok (c', txIndex) =>
          let rest := tagLogs rule move c' vs
          (⟨v.log, c'.td, txIndex⟩ :: rest.1, rest.2)

/-! ## Walks -/

namespace TxCursor

variable {rule : CursorRule} {c : TxCursor} {id : BitVec 64}

/-- The positions the cursor takes for some ids, with the ranges it has. -/
def walk (rule : CursorRule) (c : TxCursor) (ids : List (BitVec 64)) : Option (List Nat) :=
  SlotCursor.walk (fun id s => rule.past id (c.lr.lastLogId s))
    (fun i id => rule.advance c.lr c.logTxOrder i id) c.logTxOrder c.logTxOrderIndex ids

/-- One access or two, as a step of the walk. -/
theorem take_cases (rule : CursorRule) (c : TxCursor) (id : BitVec 64) :
    (c.take rule id = .error .outOfBounds ∧ ∀ ids, c.walk rule (id :: ids) = none) ∨
    ∃ i txIndex, c.logTxOrder[i]? = some txIndex ∧
      c.take rule id = .ok ({ c with logTxOrderIndex := i }, txIndex) ∧
      ∀ ids, c.walk rule (id :: ids) =
        (({ c with logTxOrderIndex := i } : TxCursor).walk rule ids).map (i :: ·) := by
  cases hs : c.logTxOrder[c.logTxOrderIndex]? with
  | none =>
      refine .inl ⟨by rw [take, slot, hs]; rfl, fun ids => ?_⟩
      exact SlotCursor.walk_of_step_none
        (SlotCursor.step_eq_none_of_le (List.getElem?_eq_none_iff.mp hs))
  | some s =>
      cases hpast : rule.past id (c.lr.lastLogId s) with
      | false =>
          refine .inr ⟨c.logTxOrderIndex, s, hs, ?_, fun ids => ?_⟩
          · rw [take, slot, hs]
            show (if rule.past id (c.lr.lastLogId s) = true then _ else _) = _
            rw [hpast]
            rfl
          · exact SlotCursor.walk_cons (SlotCursor.step_of_not_past hs hpast)
      | true =>
          have htake : c.take rule id =
              (c.slot (rule.advance c.lr c.logTxOrder c.logTxOrderIndex id)).map fun txIndex =>
                ({ c with logTxOrderIndex := rule.advance c.lr c.logTxOrder c.logTxOrderIndex id },
                  txIndex) := by
            rw [take, slot, hs]
            show (if rule.past id (c.lr.lastLogId s) = true then _ else _) = _
            rw [hpast, if_pos rfl]
            rfl
          cases hnext : c.logTxOrder[rule.advance c.lr c.logTxOrder c.logTxOrderIndex id]? with
          | none =>
              refine .inl ⟨by rw [htake, slot, hnext]; rfl, fun ids => ?_⟩
              exact SlotCursor.walk_of_step_none ((SlotCursor.step_of_past hs hpast).trans
                (if_neg (Nat.not_lt.mpr (List.getElem?_eq_none_iff.mp hnext))))
          | some txIndex =>
              refine .inr ⟨_, txIndex, hnext, by rw [htake, slot, hnext]; rfl, fun ids => ?_⟩
              exact SlotCursor.walk_cons ((SlotCursor.step_of_past hs hpast).trans
                (if_pos (List.getElem?_eq_some_iff.mp hnext).1))

end TxCursor

/-! ## Bounds -/

section bounds

variable {a : Archive} {rule : CursorRule} {move : TxCursor → Visit → TxCursor} {c c₁ c' : TxCursor}
  {v : Visit} {vs ws : List Visit} {txIndex : Fin LOG_TX_PER_TICK}

theorem tagLogs_of_error {h : Halt} (hmove : move c v = c₁) (htake : c₁.take rule v.id = .error h) :
    tagLogs rule move c (v :: vs) = ([], .error h) := by
  rw [tagLogs, hmove, htake]

theorem tagLogs_of_ok (hmove : move c v = c₁) (htake : c₁.take rule v.id = .ok (c', txIndex)) :
    tagLogs rule move c (v :: vs) =
      (⟨v.log, c'.td, txIndex⟩ :: (tagLogs rule move c' vs).1, (tagLogs rule move c' vs).2) := by
  rw [tagLogs, hmove, htake]

/-- No access of the loop is out of bounds. -/
def TagsInBounds (rule : CursorRule) (move : TxCursor → Visit → TxCursor) (c : TxCursor)
    (vs : List Visit) : Prop := ∃ c', (tagLogs rule move c vs).2 = .ok c'

theorem tagsInBounds_cons (hmove : move c v = c₁) (htake : c₁.take rule v.id = .ok (c', txIndex)) :
    TagsInBounds rule move c (v :: vs) ↔ TagsInBounds rule move c' vs := by
  rw [TagsInBounds, tagLogs_of_ok hmove htake]
  exact Iff.rfl

theorem not_tagsInBounds_cons {h : Halt} (hmove : move c v = c₁)
    (htake : c₁.take rule v.id = .error h) : ¬ TagsInBounds rule move c (v :: vs) := by
  rw [TagsInBounds, tagLogs_of_error hmove htake]
  rintro ⟨c', hc'⟩
  cases hc'

/-- The loop of a query that loads the cursor once. -/
theorem tagsInBounds_iff_walk : TagsInBounds rule (fun c _ => c) c vs ↔
    (c.walk rule (vs.map Visit.id)).isSome := by
  induction vs generalizing c with
  | nil => exact ⟨fun _ => rfl, fun _ => ⟨c, rfl⟩⟩
  | cons v vs ih =>
      rw [List.map_cons]
      rcases TxCursor.take_cases rule c v.id with ⟨htake, hwalk⟩ | ⟨i, txIndex, -, htake, hwalk⟩
      · rw [hwalk]
        exact ⟨fun h => absurd h (not_tagsInBounds_cons rfl htake),
          fun h => absurd h Bool.false_ne_true⟩
      · rw [hwalk, Option.isSome_map, ← ih]
        exact tagsInBounds_cons rfl htake

/-- The logs that are tagged with one load of the cursor. -/
structure Segment where
  first : Visit
  rest : List Visit

namespace Segment

def ids (seg : Segment) : List (BitVec 64) := (seg.first :: seg.rest).map Visit.id

/-- The cursor loaded for the segment. -/
def cursor (a : Archive) (seg : Segment) : TxCursor :=
  TxCursor.load a seg.first.log.getTick seg.first.id

end Segment

/-- The logs up to the first that is not of the tick, and the rest cut at the logs that load the
cursor. -/
def segmentsFrom (a : Archive) : BitVec 32 → List Visit → List Visit × List Segment
  | _, [] => ([], [])
  | tick, v :: vs =>
      if v.log.getTick ≠ tick then
        let r := segmentsFrom a (a.loadedTickData v.log.getTick).tick vs
        ([], ⟨v, r.1⟩ :: r.2)
      else
        let r := segmentsFrom a tick vs
        (v :: r.1, r.2)

/-- The loop of a query that loads the cursor for each tick. -/
theorem tagsInBounds_iff_segments : TagsInBounds rule (TxCursor.moveTo a) c vs ↔
    (c.walk rule ((segmentsFrom a c.td.tick vs).1.map Visit.id)).isSome ∧
      ∀ seg ∈ (segmentsFrom a c.td.tick vs).2, ((seg.cursor a).walk rule seg.ids).isSome := by
  induction vs generalizing c with
  | nil => exact ⟨fun _ => ⟨rfl, fun _ h => absurd h List.not_mem_nil⟩, fun _ => ⟨c, rfl⟩⟩
  | cons v vs ih =>
      by_cases htick : v.log.getTick ≠ c.td.tick
      · -- the cursor is loaded
        have hmove : TxCursor.moveTo a c v = TxCursor.load a v.log.getTick v.id := if_pos htick
        rw [segmentsFrom, if_pos htick]
        simp only [List.forall_mem_cons]
        rw [Segment.ids, Segment.cursor, List.map_cons]
        rcases TxCursor.take_cases rule (TxCursor.load a v.log.getTick v.id) v.id with
          ⟨htake, hwalk⟩ | ⟨i, txIndex, -, htake, hwalk⟩
        · rw [hwalk]
          exact ⟨fun h => absurd h (not_tagsInBounds_cons hmove htake),
            fun h => absurd h.2.1 Bool.false_ne_true⟩
        · rw [hwalk, Option.isSome_map, tagsInBounds_cons hmove htake, ih]
          exact ⟨fun h => ⟨rfl, h⟩, fun h => h.2⟩
      · have hmove : TxCursor.moveTo a c v = c := if_neg htick
        rw [segmentsFrom, if_neg htick, List.map_cons]
        rcases TxCursor.take_cases rule c v.id with ⟨htake, hwalk⟩ | ⟨i, txIndex, -, htake, hwalk⟩
        · rw [hwalk]
          exact ⟨fun h => absurd h (not_tagsInBounds_cons hmove htake),
            fun h => absurd h.1 Bool.false_ne_true⟩
        · rw [hwalk, Option.isSome_map, tagsInBounds_cons hmove htake, ih]

variable {past : BitVec 64 → BitVec 64 → Bool}

theorem walk_of_order_nil (horder : c.logTxOrder = []) (ids : List (BitVec 64)) :
    (c.walk rule ids).isSome ↔ ids = [] := by
  cases ids with
  | nil => exact ⟨fun _ => rfl, fun _ => rfl⟩
  | cons id ids =>
      have hnone : c.walk rule (id :: ids) = none :=
        SlotCursor.walk_of_step_none
          (SlotCursor.step_eq_none_of_le (by rw [horder]; exact Nat.zero_le _))
      rw [hnone]
      exact ⟨fun h => absurd h Bool.false_ne_true, fun h => absurd h (List.cons_ne_nil _ _)⟩

/-- The ranges of the tick are found, and one of them is in use. -/
def Segment.RangesFound (a : Archive) (seg : Segment) : Prop := (seg.cursor a).logTxOrder ≠ []

/-- The ids do not go past all the slots from that of the first log on, one after the other. -/
def Segment.SlotsSuffice (a : Archive) (past : BitVec 64 → BitVec 64 → Bool) (seg : Segment) :
    Prop :=
  ¬ SlotCursor.Exhausts (fun id s => past id ((seg.cursor a).lr.lastLogId s))
    ((seg.cursor a).logTxOrder.drop (seg.cursor a).logTxOrderIndex) seg.ids

theorem load_index_lt {tick : BitVec 32} {id : BitVec 64}
    (h : (TxCursor.load a tick id).logTxOrder ≠ []) :
    (TxCursor.load a tick id).logTxOrderIndex < (TxCursor.load a tick id).logTxOrder.length :=
  LogRangesPerTxInTick.scanTxId_lt _ h 0 id

theorem walk_next_iff {seg : Segment} : ((seg.cursor a).walk (.next past) seg.ids).isSome ↔
    seg.RangesFound a ∧ seg.SlotsSuffice a past := by
  by_cases hfound : seg.RangesFound a
  · rw [and_iff_right hfound]
    exact SlotCursor.walk_next_isSome_iff (load_index_lt hfound)
  · rw [walk_of_order_nil (not_not.mp hfound)]
    exact ⟨fun h => absurd h (List.cons_ne_nil _ _), fun h => absurd h.1 hfound⟩

theorem walk_rescan_iff {seg : Segment} : ((seg.cursor a).walk (.rescan past) seg.ids).isSome ↔
    seg.RangesFound a := by
  by_cases hfound : seg.RangesFound a
  · refine ⟨fun _ => hfound, fun _ => SlotCursor.walk_isSome (fun i id => ?_)
      (load_index_lt hfound)⟩
    exact LogRangesPerTxInTick.scanTxId_lt _ hfound (i + 1) id
  · rw [walk_of_order_nil (not_not.mp hfound)]
    exact ⟨fun h => absurd h (List.cons_ne_nil _ _), fun h => absurd h hfound⟩

/-- The segments of a list of logs, and no log of tick 0 before them. -/
def AllSegments (a : Archive) (P : Segment → Prop) (vs : List Visit) : Prop :=
  (∀ v ∈ vs.head?, v.log.getTick ≠ 0) ∧ ∀ seg ∈ (segmentsFrom a 0 vs).2, P seg

theorem segmentsFrom_fst_eq_nil_iff {tick : BitVec 32} :
    (segmentsFrom a tick vs).1 = [] ↔ ∀ v ∈ vs.head?, v.log.getTick ≠ tick := by
  cases vs with
  | nil => exact ⟨fun _ _ h => absurd h (Option.not_mem_none _), fun _ => rfl⟩
  | cons v vs =>
      rw [segmentsFrom]
      by_cases htick : v.log.getTick ≠ tick
      · rw [if_pos htick]
        exact ⟨fun _ w hw => (Option.some.inj hw) ▸ htick, fun _ => rfl⟩
      · rw [if_neg htick]
        exact ⟨fun h => absurd h (List.cons_ne_nil _ _), fun h => absurd (h v rfl) htick⟩

theorem tagsInBounds_init_iff : TagsInBounds rule (TxCursor.moveTo a) .init vs ↔
    AllSegments a (fun seg => ((seg.cursor a).walk rule seg.ids).isSome) vs := by
  rw [tagsInBounds_iff_segments, walk_of_order_nil rfl, List.map_eq_nil_iff]
  exact and_congr_left' segmentsFrom_fst_eq_nil_iff

theorem tagsInBounds_next_iff : TagsInBounds (.next past) (TxCursor.moveTo a) .init vs ↔
    AllSegments a (fun seg => seg.RangesFound a ∧ seg.SlotsSuffice a past) vs := by
  rw [tagsInBounds_init_iff]
  simp only [AllSegments, walk_next_iff]

theorem tagsInBounds_rescan_iff : TagsInBounds (.rescan past) (TxCursor.moveTo a) .init vs ↔
    AllSegments a (fun seg => seg.RangesFound a) vs := by
  rw [tagsInBounds_init_iff]
  simp only [AllSegments, walk_rescan_iff]

end bounds

end QubicBob
