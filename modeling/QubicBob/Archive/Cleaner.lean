import Mathlib.Tactic

set_option autoImplicit false

/-! # The passes of the garbage cleaner

`garbageCleaner` with ticks and transactions kept in Kvrocks. Two marks move forward on their own:
`lastCleanTickData`, up to which ticks are compressed and their raw records removed, and
`lastCleanTransactionTick`, up to which `cleanTransactionLogs` has been called. When the epoch has
ended a last pass goes from the first mark to the last tick.

A tick is handed to three functions, and the list of these calls is what the thread leaves behind.
Each list of ticks is one interval (`compressed_garbageCleaner`, `cleaned_garbageCleaner`), except
that the ticks between the two marks never get their `cleanTransactionLogs`
(`txCleaned_garbageCleaner`), and all intervals begin one tick after `gInitialTick`.
-/

namespace QubicBob

/-! ## Ticks after a mark -/

/-- The ticks of the loops `for (t = last + 1; t <= cleanToTick; t++)`. -/
def ticksAfter (last cleanToTick : Int) : List Int :=
  (List.range (cleanToTick - last).toNat).map (fun k : Nat => last + 1 + (k : Int))

theorem mem_ticksAfter {last cleanToTick t : Int} :
    t ∈ ticksAfter last cleanToTick ↔ last < t ∧ t ≤ cleanToTick := by
  rw [ticksAfter, List.mem_map]
  constructor
  · rintro ⟨k, hk, rfl⟩
    rw [List.mem_range] at hk
    omega
  · rintro ⟨h₁, h₂⟩
    refine ⟨(t - last - 1).toNat, ?_, ?_⟩
    · rw [List.mem_range]
      omega
    · omega

theorem nodup_ticksAfter (last cleanToTick : Int) : (ticksAfter last cleanToTick).Nodup := by
  refine List.Nodup.map (fun j k h => ?_) List.nodup_range
  have hjk : last + 1 + (j : Int) = last + 1 + (k : Int) := h
  omega

theorem ticksAfter_of_le {last cleanToTick : Int} (h : cleanToTick ≤ last) :
    ticksAfter last cleanToTick = [] := by
  rw [ticksAfter, Int.toNat_eq_zero.mpr (by omega)]
  rfl

theorem ticksAfter_append {a b c : Int} (hab : a ≤ b) (hbc : b ≤ c) :
    ticksAfter a b ++ ticksAfter b c = ticksAfter a c := by
  have hlen : (c - a).toNat = (b - a).toNat + (c - b).toNat := by omega
  rw [ticksAfter, ticksAfter, ticksAfter, hlen, List.range_add, List.map_append, List.map_map]
  congr 1
  refine List.map_congr_left (fun k _ => ?_)
  rw [Function.comp_apply]
  omega

/-! ## The thread -/

/-- What the thread calls for a tick. -/
inductive CleanerCall where
  | compressTickAndMoveToKVRocks (tick : Int)
  | cleanRawTick (tick : Int)
  | cleanTransactionLogs (tick : Int)
  deriving DecidableEq, Repr

/-- The two marks and the calls so far. -/
structure CleanerMarks where
  lastCleanTickData : Int
  lastCleanTransactionTick : Int
  calls : List CleanerCall
  deriving DecidableEq, Repr

/-- The three reads of `gCurrentIndexingTick` in a round: one for the ticks, two for the
transactions. -/
structure IndexingReads where
  tickData : Int
  transactions : Int
  transactionsTtl : Int
  deriving DecidableEq, Repr

/-- `cleanRawTick`: the transactions of a tick, if they are asked for, before its raw records. -/
def cleanRawTickCalls (ticks : List Int) (withTransactions : Bool) : List CleanerCall :=
  ticks.flatMap (fun t =>
    (if withTransactions then [.cleanTransactionLogs t] else []) ++ [.cleanRawTick t])

/-- Compress the ticks up to `cleanToTick`, then clean them. -/
def moveTicks (m : CleanerMarks) (cleanToTick : Int) (withTransactions : Bool) : CleanerMarks :=
  if m.lastCleanTickData < cleanToTick then
    let ticks := ticksAfter m.lastCleanTickData cleanToTick
    { m with
      lastCleanTickData := cleanToTick
      calls := m.calls ++ ticks.map .compressTickAndMoveToKVRocks
        ++ cleanRawTickCalls ticks withTransactions }
  else m

def moveTransactions (m : CleanerMarks) (cleanToTick : Int) : CleanerMarks :=
  if m.lastCleanTransactionTick < cleanToTick then
    { m with
      lastCleanTransactionTick := cleanToTick
      calls := m.calls ++
        (ticksAfter m.lastCleanTransactionTick cleanToTick).map .cleanTransactionLogs }
  else m

/-- One round of the loop. -/
def cleanerRound (gTxTickToLive : Nat) (m : CleanerMarks) (r : IndexingReads) : CleanerMarks :=
  moveTransactions (moveTicks m (r.tickData - 5) false)
    (min (r.transactions - 5) (r.transactionsTtl - 1 - gTxTickToLive))

/-- A fresh start: both marks are at the initial tick. -/
def CleanerMarks.start (gInitialTick : Int) : CleanerMarks := ⟨gInitialTick, gInitialTick, []⟩

/-- The marks when the loop is left. -/
def cleanerLoop (gInitialTick : Int) (gTxTickToLive : Nat) (rounds : List IndexingReads) :
    CleanerMarks :=
  rounds.foldl (cleanerRound gTxTickToLive) (CleanerMarks.start gInitialTick)

/-- The thread in an epoch that ends with `gCurrentIndexingTick` at `endTick`. -/
def garbageCleaner (gInitialTick : Int) (gTxTickToLive : Nat) (rounds : List IndexingReads)
    (endTick : Int) : List CleanerCall :=
  -- after the loop everything left is cleaned, with its transactions
  (moveTicks (cleanerLoop gInitialTick gTxTickToLive rounds) (endTick - 1) true).calls

/-! ## The ticks of each kind of call -/

def CleanerCall.compressed? : CleanerCall → Option Int
  | .compressTickAndMoveToKVRocks t => some t
  | _ => none

def CleanerCall.cleaned? : CleanerCall → Option Int
  | .cleanRawTick t => some t
  | _ => none

def CleanerCall.txCleaned? : CleanerCall → Option Int
  | .cleanTransactionLogs t => some t
  | _ => none

def compressedTicks (calls : List CleanerCall) : List Int := calls.filterMap CleanerCall.compressed?
def cleanedTicks (calls : List CleanerCall) : List Int := calls.filterMap CleanerCall.cleaned?
def txCleanedTicks (calls : List CleanerCall) : List Int := calls.filterMap CleanerCall.txCleaned?

section projections

variable {calls : List CleanerCall} {t : Int} (ticks : List Int) (b : Bool)

theorem mem_compressedTicks :
    t ∈ compressedTicks calls ↔ .compressTickAndMoveToKVRocks t ∈ calls := by
  rw [compressedTicks, List.mem_filterMap]
  constructor
  · rintro ⟨c, hc, h⟩
    cases c with
    | compressTickAndMoveToKVRocks t' => exact Option.some.inj h ▸ hc
    | cleanRawTick t' => cases h
    | cleanTransactionLogs t' => cases h
  · intro h
    exact ⟨_, h, rfl⟩

theorem mem_txCleanedTicks : t ∈ txCleanedTicks calls ↔ .cleanTransactionLogs t ∈ calls := by
  rw [txCleanedTicks, List.mem_filterMap]
  constructor
  · rintro ⟨c, hc, h⟩
    cases c with
    | compressTickAndMoveToKVRocks t' => cases h
    | cleanRawTick t' => cases h
    | cleanTransactionLogs t' => exact Option.some.inj h ▸ hc
  · intro h
    exact ⟨_, h, rfl⟩

/-- A list of calls of one kind seen through the projection of that kind, or of another. -/
theorem filterMap_map_some {f : Int → CleanerCall} {p : CleanerCall → Option Int}
    (h : ∀ t, p (f t) = some t) : (ticks.map f).filterMap p = ticks := by
  rw [List.filterMap_map]
  exact (List.filterMap_congr (fun t _ => h t)).trans (List.filterMap_some)

theorem filterMap_map_none {f : Int → CleanerCall} {p : CleanerCall → Option Int}
    (h : ∀ t, p (f t) = none) : (ticks.map f).filterMap p = [] := by
  rw [List.filterMap_map, List.filterMap_eq_nil_iff]
  exact fun t _ => h t

theorem compressedTicks_append (c c' : List CleanerCall) :
    compressedTicks (c ++ c') = compressedTicks c ++ compressedTicks c' := List.filterMap_append

theorem cleanedTicks_append (c c' : List CleanerCall) :
    cleanedTicks (c ++ c') = cleanedTicks c ++ cleanedTicks c' := List.filterMap_append

theorem txCleanedTicks_append (c c' : List CleanerCall) :
    txCleanedTicks (c ++ c') = txCleanedTicks c ++ txCleanedTicks c' := List.filterMap_append

theorem compressedTicks_compress :
    compressedTicks (ticks.map .compressTickAndMoveToKVRocks) = ticks :=
  filterMap_map_some ticks (fun _ => rfl)

theorem cleanedTicks_compress : cleanedTicks (ticks.map .compressTickAndMoveToKVRocks) = [] :=
  filterMap_map_none ticks (fun _ => rfl)

theorem txCleanedTicks_compress : txCleanedTicks (ticks.map .compressTickAndMoveToKVRocks) = [] :=
  filterMap_map_none ticks (fun _ => rfl)

theorem compressedTicks_cleanTx : compressedTicks (ticks.map .cleanTransactionLogs) = [] :=
  filterMap_map_none ticks (fun _ => rfl)

theorem cleanedTicks_cleanTx : cleanedTicks (ticks.map .cleanTransactionLogs) = [] :=
  filterMap_map_none ticks (fun _ => rfl)

theorem txCleanedTicks_cleanTx : txCleanedTicks (ticks.map .cleanTransactionLogs) = ticks :=
  filterMap_map_some ticks (fun _ => rfl)

theorem compressedTicks_cleanRawTickCalls : compressedTicks (cleanRawTickCalls ticks b) = [] := by
  rw [compressedTicks, List.filterMap_eq_nil_iff]
  intro c hc
  obtain ⟨t, -, hc⟩ := List.mem_flatMap.mp hc
  cases b with
  | false =>
      obtain rfl : c = .cleanRawTick t := by simpa using hc
      rfl
  | true =>
      have hc : c = .cleanTransactionLogs t ∨ c = .cleanRawTick t := by simpa using hc
      rcases hc with rfl | rfl
      · rfl
      · rfl

theorem cleanedTicks_cleanRawTickCalls : cleanedTicks (cleanRawTickCalls ticks b) = ticks := by
  induction ticks with
  | nil => rfl
  | cons t ticks ih =>
      rw [cleanRawTickCalls, List.flatMap_cons, ← cleanRawTickCalls, cleanedTicks_append, ih]
      cases b with
      | false => rfl
      | true => rfl

theorem txCleanedTicks_cleanRawTickCalls :
    txCleanedTicks (cleanRawTickCalls ticks b) = if b then ticks else [] := by
  induction ticks with
  | nil =>
      rw [ite_self]
      rfl
  | cons t ticks ih =>
      rw [cleanRawTickCalls, List.flatMap_cons, ← cleanRawTickCalls, txCleanedTicks_append, ih]
      cases b with
      | false => rfl
      | true => rfl

end projections

/-! ## What the marks say about the calls -/

/-- Everything between the initial tick and a mark has been handled, once and in order. -/
structure MarksHold (gInitialTick : Int) (m : CleanerMarks) : Prop where
  tickData : gInitialTick ≤ m.lastCleanTickData
  transactions : gInitialTick ≤ m.lastCleanTransactionTick
  compressed : compressedTicks m.calls = ticksAfter gInitialTick m.lastCleanTickData
  cleaned : cleanedTicks m.calls = ticksAfter gInitialTick m.lastCleanTickData
  txCleaned : txCleanedTicks m.calls = ticksAfter gInitialTick m.lastCleanTransactionTick

theorem marksHold_start (gInitialTick : Int) :
    MarksHold gInitialTick (CleanerMarks.start gInitialTick) where
  tickData := le_refl _
  transactions := le_refl _
  compressed := (ticksAfter_of_le (le_refl _)).symm
  cleaned := (ticksAfter_of_le (le_refl _)).symm
  txCleaned := (ticksAfter_of_le (le_refl _)).symm

section passes

variable {gInitialTick : Int} {m : CleanerMarks}

/-- The calls of a pass over the ticks, by kind. -/
theorem compressedTicks_moveTicks (h : MarksHold gInitialTick m) (cleanToTick : Int) (b : Bool) :
    compressedTicks (moveTicks m cleanToTick b).calls =
        ticksAfter gInitialTick (max m.lastCleanTickData cleanToTick) ∧
      cleanedTicks (moveTicks m cleanToTick b).calls =
        ticksAfter gInitialTick (max m.lastCleanTickData cleanToTick) := by
  unfold moveTicks
  by_cases hlt : m.lastCleanTickData < cleanToTick
  · rw [if_pos hlt, max_eq_right hlt.le, ← ticksAfter_append h.tickData hlt.le]
    constructor
    · rw [compressedTicks_append, compressedTicks_append, h.compressed, compressedTicks_compress,
        compressedTicks_cleanRawTickCalls, List.append_nil]
    · rw [cleanedTicks_append, cleanedTicks_append, h.cleaned, cleanedTicks_compress,
        cleanedTicks_cleanRawTickCalls, List.append_nil]
  · rw [if_neg hlt, max_eq_left (by omega)]
    exact ⟨h.compressed, h.cleaned⟩

theorem txCleanedTicks_moveTicks (cleanToTick : Int) (b : Bool) :
    txCleanedTicks (moveTicks m cleanToTick b).calls = txCleanedTicks m.calls ++
      (if b then ticksAfter m.lastCleanTickData cleanToTick else []) := by
  unfold moveTicks
  by_cases hlt : m.lastCleanTickData < cleanToTick
  · rw [if_pos hlt, txCleanedTicks_append, txCleanedTicks_append, txCleanedTicks_compress,
      List.append_nil, txCleanedTicks_cleanRawTickCalls]
  · rw [if_neg hlt, ticksAfter_of_le (by omega), ite_self, List.append_nil]

theorem MarksHold.moveTicks (h : MarksHold gInitialTick m) (cleanToTick : Int) :
    MarksHold gInitialTick (moveTicks m cleanToTick false) := by
  have hcalls := compressedTicks_moveTicks h cleanToTick false
  have htx := txCleanedTicks_moveTicks (m := m) cleanToTick false
  have hmark : (QubicBob.moveTicks m cleanToTick false).lastCleanTickData =
      max m.lastCleanTickData cleanToTick := by
    unfold QubicBob.moveTicks
    split
    · next hlt => exact (max_eq_right hlt.le).symm
    · next hlt => exact (max_eq_left (by omega)).symm
  have hother : (QubicBob.moveTicks m cleanToTick false).lastCleanTransactionTick =
      m.lastCleanTransactionTick := by
    unfold QubicBob.moveTicks
    split
    · rfl
    · rfl
  have hfirst := h.tickData
  refine ⟨?_, ?_, ?_, ?_, ?_⟩
  · rw [hmark]
    omega
  · rw [hother]
    exact h.transactions
  · rw [hmark]
    exact hcalls.1
  · rw [hmark]
    exact hcalls.2
  · rw [hother, htx, if_neg Bool.false_ne_true, List.append_nil]
    exact h.txCleaned

theorem MarksHold.moveTransactions (h : MarksHold gInitialTick m) (cleanToTick : Int) :
    MarksHold gInitialTick (moveTransactions m cleanToTick) := by
  unfold QubicBob.moveTransactions
  by_cases hlt : m.lastCleanTransactionTick < cleanToTick
  · rw [if_pos hlt]
    have hfirst := h.transactions
    refine ⟨h.tickData, ?_, ?_, ?_, ?_⟩
    · dsimp only
      omega
    · rw [compressedTicks_append, compressedTicks_cleanTx, List.append_nil]
      exact h.compressed
    · rw [cleanedTicks_append, cleanedTicks_cleanTx, List.append_nil]
      exact h.cleaned
    · rw [txCleanedTicks_append, txCleanedTicks_cleanTx, h.txCleaned]
      exact ticksAfter_append hfirst hlt.le
  · rw [if_neg hlt]
    exact h

end passes

theorem marksHold_cleanerLoop (gInitialTick : Int) (gTxTickToLive : Nat)
    (rounds : List IndexingReads) :
    MarksHold gInitialTick (cleanerLoop gInitialTick gTxTickToLive rounds) := by
  unfold cleanerLoop
  have hstart := marksHold_start gInitialTick
  revert hstart
  generalize CleanerMarks.start gInitialTick = m
  intro hm
  induction rounds generalizing m with
  | nil => exact hm
  | cons r rounds ih => exact ih _ ((hm.moveTicks _).moveTransactions _)

section thread

variable {gInitialTick endTick : Int} {gTxTickToLive : Nat} {rounds : List IndexingReads}

theorem compressed_garbageCleaner :
    compressedTicks (garbageCleaner gInitialTick gTxTickToLive rounds endTick) =
      ticksAfter gInitialTick
        (max (cleanerLoop gInitialTick gTxTickToLive rounds).lastCleanTickData (endTick - 1)) :=
  (compressedTicks_moveTicks (marksHold_cleanerLoop _ _ _) _ _).1

theorem cleaned_garbageCleaner :
    cleanedTicks (garbageCleaner gInitialTick gTxTickToLive rounds endTick) =
      ticksAfter gInitialTick
        (max (cleanerLoop gInitialTick gTxTickToLive rounds).lastCleanTickData (endTick - 1)) :=
  (compressedTicks_moveTicks (marksHold_cleanerLoop _ _ _) _ _).2

/-- `cleanTransactionLogs` covers the ticks up to the second mark and those after the first mark:
if the second stands behind the first, the ticks between them are left out. -/
theorem txCleaned_garbageCleaner :
    txCleanedTicks (garbageCleaner gInitialTick gTxTickToLive rounds endTick) =
      ticksAfter gInitialTick
          (cleanerLoop gInitialTick gTxTickToLive rounds).lastCleanTransactionTick ++
        ticksAfter (cleanerLoop gInitialTick gTxTickToLive rounds).lastCleanTickData
          (endTick - 1) := by
  rw [garbageCleaner, txCleanedTicks_moveTicks, if_pos rfl,
    (marksHold_cleanerLoop gInitialTick gTxTickToLive rounds).txCleaned]

end thread

/-! ## The whole epoch -/

/-- Every tick of the epoch went through all three functions, and none was compressed twice. -/
def CoversEpoch (gInitialTick endTick : Int) (calls : List CleanerCall) : Prop :=
  (∀ t, gInitialTick ≤ t → t ≤ endTick - 1 → .compressTickAndMoveToKVRocks t ∈ calls ∧
    .cleanRawTick t ∈ calls ∧ .cleanTransactionLogs t ∈ calls) ∧
  (compressedTicks calls).Nodup

/-- Whatever the reads of the rounds are: an epoch is covered only if it has no tick at all, for the
initial tick is never handled. -/
theorem coversEpoch_iff (gInitialTick endTick : Int) (gTxTickToLive : Nat)
    (rounds : List IndexingReads) :
    CoversEpoch gInitialTick endTick (garbageCleaner gInitialTick gTxTickToLive rounds endTick) ↔
      endTick ≤ gInitialTick := by
  constructor
  · rintro ⟨hall, -⟩
    by_contra hlt
    obtain ⟨hcompress, -, -⟩ := hall gInitialTick (le_refl _) (by omega)
    rw [← mem_compressedTicks, compressed_garbageCleaner, mem_ticksAfter] at hcompress
    exact lt_irrefl _ hcompress.1
  · intro hle
    refine ⟨fun t h₁ h₂ => ?_, ?_⟩
    · omega
    · rw [compressed_garbageCleaner]
      exact nodup_ticksAfter _ _

/-- Initial tick 10, transactions kept for 20 ticks, two rounds and the end of the epoch at 45: tick
10 is never compressed, and ticks 20 to 35 are compressed and cleaned, but their transactions and
logs are not. -/
theorem coversEpoch_fails_on_epoch_of_35_ticks :
    ¬ CoversEpoch 10 45 (garbageCleaner 10 20 [⟨30, 30, 30⟩, ⟨40, 40, 40⟩] 45) ∧
      .compressTickAndMoveToKVRocks 10 ∉ garbageCleaner 10 20 [⟨30, 30, 30⟩, ⟨40, 40, 40⟩] 45 ∧
      ∀ t, 20 ≤ t → t ≤ 35 →
        .cleanTransactionLogs t ∉ garbageCleaner 10 20 [⟨30, 30, 30⟩, ⟨40, 40, 40⟩] 45 := by
  have hinitial : CleanerCall.compressTickAndMoveToKVRocks 10 ∉
      garbageCleaner 10 20 [⟨30, 30, 30⟩, ⟨40, 40, 40⟩] 45 := by
    decide +kernel
  refine ⟨fun h => hinitial (h.1 10 (by decide) (by decide)).1, hinitial, fun t h₁ h₂ hmem => ?_⟩
  rw [← mem_txCleanedTicks, txCleaned_garbageCleaner, List.mem_append, mem_ticksAfter,
    mem_ticksAfter] at hmem
  have hmarks : (cleanerLoop 10 20 [⟨30, 30, 30⟩, ⟨40, 40, 40⟩]).lastCleanTransactionTick = 19 ∧
      (cleanerLoop 10 20 [⟨30, 30, 30⟩, ⟨40, 40, 40⟩]).lastCleanTickData = 35 := by
    decide +kernel
  rw [hmarks.1, hmarks.2] at hmem
  omega

end QubicBob
