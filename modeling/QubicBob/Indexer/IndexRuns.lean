import QubicBob.Api.TxCursor
import QubicBob.Archive.LogRanges
import QubicBob.Indexer.Search
import QubicBob.Lib.Redo
import QubicBob.Lib.Runs

set_option autoImplicit false

/-! # The indexer thread

`indexVerifiedTicks` and the whole of `indexTick`: the records of the transactions and special
events of a tick, and its log events. `last_indexed_tick` is written behind them, so a program that
stops within a tick, or whose update of it fails, indexes the tick once more, with what the database
has then.

The store is the result of a list of writes, and the writes of a cut-off attempt may be left out of
it if the next attempt makes up for them: it writes the same keys again, and adding to the index
what is there already changes nothing. A write can be moved behind those that do not mind it, so the
first of two writes of a key goes. This is `Redo`, for jobs that are the ticks; the invariant
`Indexed` connects its list of finished jobs with `last_indexed_tick`. An attempt that finds less
than an earlier one leaves a write behind that nothing makes up for, which is what the condition
`Ok` excludes.
-/

namespace QubicBob

/-! ## Time -/

/-- The leap days before a year, counted from a fixed year on. -/
def leapDaysBefore (year : Int) : Int := (year - 1) / 4 - (year - 1) / 100 + (year - 1) / 400

def isLeapYear (year : Int) : Bool := year % 4 == 0 && (year % 100 != 0 || year % 400 == 0)

def daysBeforeMonth (leap : Bool) (mon : Nat) : Int :=
  ([0, 31, 59, 90, 120, 151, 181, 212, 243, 273, 304, 334].getD mon 0 : Int) +
    if leap && decide (2 ≤ mon) then 1 else 0

/-- `timegm`, with the full year, and months from 0 on. A month outside the year moves the year. -/
def timegm (year mon mday hour min sec : Int) : Int :=
  let y := year + mon / 12
  let days := 365 * (y - 1970) + (leapDaysBefore y - leapDaysBefore 1970) +
    daysBeforeMonth (isLeapYear y) (mon % 12).toNat + (mday - 1)
  ((days * 24 + hour) * 60 + min) * 60 + sec

def calculateUnixTimestamp (td : TickData) : BitVec 64 :=
  BitVec.ofInt 64 (timegm (td.year.toNat + 2000) (td.month.toNat - 1) td.day.toNat td.hour.toNat
    td.minute.toNat td.second.toNat) * 1000 + td.millisecond.setWidth 64

/-! ## Records -/

/-- `indexedTxData`. -/
structure IndexedTx where
  tx_index : BitVec 32
  isExecuted : Bool
  from_log_id : BitVec 64
  to_log_id : BitVec 64
  timestamp : BitVec 64
  deriving DecidableEq

/-- What the indexer writes to. -/
structure IndexStore where
  itx : List Char → Option IndexedTx
  indexed : LogIndex

inductive IndexWrite where
  | setIndexedTx (key : List Char) (data : IndexedTx)
  | addIndexer (key : List Char) (tick : BitVec 32)

namespace IndexStore

def empty : IndexStore := ⟨fun _ => none, fun _ => SortedSet.empty⟩

def apply (s : IndexStore) : IndexWrite → IndexStore
  | .setIndexedTx key data => { s with itx := Function.update s.itx key (some data) }
  | .addIndexer key tick => { s with indexed := dbAddIndexer s.indexed key tick }

end IndexStore

/-- `db_get_indexed_tx`. -/
def dbGetIndexedTx (s : IndexStore) (txHash : List Char) : Option IndexedTx :=
  s.itx ("itx:".toList ++ txHash)

/-! ## A tick -/

/-- `Transaction`, without the input and the signature. -/
structure TransactionFields where
  sourcePublicKey : m256i
  destinationPublicKey : m256i
  amount : BitVec 64
  tick : BitVec 32
  inputType : BitVec 16
  inputSize : BitVec 16

def TransactionFields.ofBytes (ptr : List Byte) : TransactionFields where
  sourcePublicKey := BitVec.ofNat 256 (readLE ptr 0 32)
  destinationPublicKey := BitVec.ofNat 256 (readLE ptr 32 32)
  amount := BitVec.ofNat 64 (readLE ptr 64 8)
  tick := BitVec.ofNat 32 (readLE ptr 72 4)
  inputType := BitVec.ofNat 16 (readLE ptr 76 2)
  inputSize := BitVec.ofNat 16 (readLE ptr 78 2)

def matchesTransaction (transfer : QuTransfer) (tx : TransactionFields) : Bool :=
  transfer.sourcePublicKey == tx.sourcePublicKey &&
    transfer.destinationPublicKey == tx.destinationPublicKey && transfer.amount == tx.amount

/-- What one call of `indexTick` finds. `td` is not initialised where the tick has no data, and neither
is `firstEvent` where a slot with logs has none stored. -/
structure TickReads where
  gCurrentProcessingEpoch : BitVec 16
  gSpamThreshold : BitVec 64
  td : TickData
  logrange : LogRangesPerTxInTick
  firstEvent : Fin NUMBER_OF_TRANSACTIONS_PER_TICK → LogEvent
  /-- `db_try_get_transaction` -/
  txData : Fin NUMBER_OF_TRANSACTIONS_PER_TICK → Option (List Byte)
  vle : List LogEvent
  unspecified : Unspecified

/-- A tick without data, ranges and logs. -/
def TickReads.nothing : TickReads where
  gCurrentProcessingEpoch := 0
  gSpamThreshold := 0
  td := TickData.zero
  logrange := ⟨fun _ => 0, fun _ => 0⟩
  firstEvent := fun _ => ⟨[]⟩
  txData := fun _ => none
  vle := []
  unspecified := ⟨fun _ => m256i.zero, fun _ => 0⟩

section tick

variable (K : KangarooTwelve) (tick : BitVec 32) (r : TickReads)

def TickReads.timestamp : BitVec 64 :=
  if r.td.epoch = r.gCurrentProcessingEpoch then calculateUnixTimestamp r.td else 0

/-- The record of a slot. -/
def TickReads.record (i : Fin LOG_TX_PER_TICK) (isExecuted : Bool) : IndexedTx where
  tx_index := BitVec.ofNat 32 i.val
  isExecuted := isExecuted
  from_log_id := r.logrange.fromLogId i
  to_log_id := r.logrange.lastLogId i
  timestamp := r.timestamp

def isSpam (tx : TransactionFields) (gSpamThreshold : BitVec 64) : Bool :=
  tx.amount.slt gSpamThreshold && tx.inputSize == 0 && tx.inputType == 0

/-- Whether a transaction has been executed; `none` where it is not indexed. -/
def TickReads.executed (i : Fin NUMBER_OF_TRANSACTIONS_PER_TICK) : Option Bool :=
  if (0 : BitVec 64).slt (r.logrange.length (i.castLE transactions_le_ranges)) ∧
      (r.firstEvent i).getType = QU_TRANSFER then
    match (r.txData i).map TransactionFields.ofBytes with
    | some tx =>
        if isSpam tx r.gSpamThreshold then none
        else some (matchesTransaction (r.firstEvent i).quTransfer tx)
    | none => some false
  else some false

/-- `itx:<hash>`. -/
def txKey (digest : m256i) : List Char := "itx:".toList ++ getIdentityFromPublicKey K digest true

/-- `itx:<tick>_<slot>`. -/
def specialKey (i : Fin LOG_TX_PER_TICK) : List Char :=
  "itx:".toList ++ (toDecimal tick.toNat ++ '_' :: toDecimal i.val)

def TickReads.transactionWrites : List IndexWrite :=
  if r.td.tick = tick then
    (List.finRange NUMBER_OF_TRANSACTIONS_PER_TICK).filterMap fun i =>
      if r.td.transactionDigests i = m256i.zero then none
      else (r.executed i).map fun isExecuted =>
        .setIndexedTx (txKey K (r.td.transactionDigests i))
          (r.record (i.castLE transactions_le_ranges) isExecuted)
  else []

def TickReads.specialWrites : List IndexWrite :=
  (List.finRange 5).map fun k =>
    .setIndexedTx (specialKey tick (specialEvent k)) (r.record (specialEvent k) true)

/-- The loop over the events of the tick. -/
def eventWrites (U : Unspecified) : IndexFields → List LogEvent → List IndexWrite
  | _, [] => []
  | s, le :: vle =>
      let e := readEvent K U s le
      (if e.SC_index ≠ NO_INDEX then (indexKeys K e).map (IndexWrite.addIndexer · tick) else []) ++
        eventWrites U e vle

/-- What `indexTick` writes, in order. -/
def TickReads.writes : List IndexWrite :=
  r.transactionWrites K tick ++ r.specialWrites tick ++
    eventWrites K tick r.unspecified ⟨0, 0, r.unspecified.topic⟩ r.vle

/-- The events of the tick, as a call of the last loop. -/
def TickReads.call : IndexCall := ⟨tick, r.vle, r.unspecified⟩

end tick

/-! ## The thread -/

structure Indexer where
  work : Redo.Work IndexStore IndexWrite
  /-- in `db_status`; -1 if there is none -/
  last_indexed_tick : Int
  gInitialTick : BitVec 32
  /-- in the thread, while it runs -/
  lastIndexed : Option Int

inductive IndexerStep where
  | start
  /-- the reads of `indexTick`, if the next tick has been verified -/
  | begin (gCurrentVerifyLoggingTick : BitVec 32) (reads : TickReads)
  | write
  /-- `db_update_last_indexed_tick`, and whether it works -/
  | update (ok : Bool)
  | crash

namespace Indexer

variable (K : KangarooTwelve) (s : Indexer)

/-- The tick that comes next for a thread. -/
def nextTick (lastIndexed : Int) : BitVec 32 := BitVec.ofInt 32 (lastIndexed + 1)

def step : IndexerStep → Indexer
  | .start =>
      match s.lastIndexed with
      | some _ => s
      | none =>
          let l := if s.last_indexed_tick = -1 then ((s.gInitialTick - 1).toNat : Int)
            else s.last_indexed_tick
          { s with lastIndexed := some l }
  | .begin gCurrentVerifyLoggingTick reads =>
      match s.lastIndexed with
      | none => s
      | some l =>
          if nextTick l < gCurrentVerifyLoggingTick then
            { s with work := s.work.begin (reads.writes K (nextTick l)) }
          else s
  | .write => { s with work := s.work.write IndexStore.apply }
  | .update ok =>
      match s.lastIndexed, s.work.current with
      | some l, some (_, []) =>
          if ok then
            { s with
              work := s.work.finish
              last_indexed_tick :=
                if s.last_indexed_tick < (nextTick l).toNat then ((nextTick l).toNat : Int)
                else s.last_indexed_tick
              lastIndexed := some ((nextTick l).toNat : Int) }
          -- the tick is indexed again
          else { s with work := s.work.abandon }
      | _, _ => s
  | .crash => { s with work := s.work.abandon, lastIndexed := none }

/-- The writes make up for an earlier one: its key is written again. -/
def Covers (ws : List IndexWrite) : IndexWrite → Prop
  | .setIndexedTx key _ => ∃ data, .setIndexedTx key data ∈ ws
  | .addIndexer key tick => .addIndexer key tick ∈ ws

/-- An attempt finds what the attempts before it found. -/
def Ok : IndexerStep → Prop
  | .begin _ reads => ∀ l, s.lastIndexed = some l →
      ∀ x ∈ s.work.abandoned, Covers (reads.writes K (nextTick l)) x
  | _ => True

/-- The database has the same for a tick whenever it is indexed. -/
def Stable (f : BitVec 32 → TickReads) : IndexerStep → Prop
  | .begin _ reads => ∀ l, s.lastIndexed = some l → reads = f (nextTick l)
  | _ => True

end Indexer

/-! ## Writes that make up for others -/

section covers

variable {K : KangarooTwelve} {tick : BitVec 32} {r : TickReads} {ws : List IndexWrite}
  {x : IndexWrite}

theorem tick_of_mem_eventWrites {U : Unspecified} {s : IndexFields} {vle : List LogEvent}
    (h : x ∈ eventWrites K tick U s vle) : ∃ key, x = .addIndexer key tick := by
  induction vle generalizing s with
  | nil => cases h
  | cons le vle ih =>
      rw [eventWrites] at h
      rcases List.mem_append.mp h with hhead | htail
      · split at hhead
        · obtain ⟨key, -, rfl⟩ := List.mem_map.mp hhead
          exact ⟨key, rfl⟩
        · cases hhead
      · exact ih htail

/-- The slot has a transaction. -/
def TickReads.Lists (r : TickReads) (tick : BitVec 32) (i : Fin NUMBER_OF_TRANSACTIONS_PER_TICK)
    (digest : m256i) : Prop :=
  r.td.tick = tick ∧ r.td.transactionDigests i = digest ∧ digest ≠ m256i.zero

theorem mem_transactionWrites : x ∈ r.transactionWrites K tick ↔
    ∃ i digest isExecuted, r.Lists tick i digest ∧ r.executed i = some isExecuted ∧
      .setIndexedTx (txKey K digest) (r.record (i.castLE transactions_le_ranges) isExecuted) = x := by
  rw [TickReads.transactionWrites]
  constructor
  · intro h
    split at h
    · next htick =>
      obtain ⟨i, -, hi⟩ := List.mem_filterMap.mp h
      split at hi
      · cases hi
      · next hzero =>
        obtain ⟨isExecuted, hexecuted, heq⟩ := Option.map_eq_some_iff.mp hi
        exact ⟨i, _, isExecuted, ⟨htick, rfl, hzero⟩, hexecuted, heq⟩
    · cases h
  · rintro ⟨i, digest, isExecuted, ⟨htick, rfl, hzero⟩, hexecuted, rfl⟩
    rw [if_pos htick]
    refine List.mem_filterMap.mpr ⟨i, List.mem_finRange i, ?_⟩
    rw [if_neg hzero, hexecuted]
    rfl

theorem mem_specialWrites : x ∈ r.specialWrites tick ↔
    ∃ k, .setIndexedTx (specialKey tick (specialEvent k)) (r.record (specialEvent k) true) = x := by
  rw [TickReads.specialWrites, List.mem_map]
  exact exists_congr fun k => and_iff_right (List.mem_finRange k)

/-- Only the tick itself is added to the index. -/
theorem tick_of_mem_writes {key : List Char} {t : BitVec 32}
    (h : .addIndexer key t ∈ r.writes K tick) : t = tick := by
  rcases List.mem_append.mp h with hrecords | hevents
  · rcases List.mem_append.mp hrecords with htx | hspecial
    · obtain ⟨_, _, _, -, -, heq⟩ := mem_transactionWrites.mp htx
      cases heq
    · obtain ⟨_, heq⟩ := mem_specialWrites.mp hspecial
      cases heq
  · obtain ⟨key', heq⟩ := tick_of_mem_eventWrites hevents
    exact (IndexWrite.addIndexer.inj heq).2

/-- The records are those of the transactions and of the special events. -/
theorem mem_writes_record {key : List Char} {data : IndexedTx} :
    .setIndexedTx key data ∈ r.writes K tick ↔
      .setIndexedTx key data ∈ r.transactionWrites K tick ∨
        .setIndexedTx key data ∈ r.specialWrites tick := by
  rw [TickReads.writes, List.mem_append, List.mem_append, or_iff_left]
  intro hevent
  obtain ⟨_, heq⟩ := tick_of_mem_eventWrites hevent
  cases heq

/-- A member that is there is not added again. -/
theorem zadd_zadd (z : SortedSet (List Char) Nat) (member : List Char) (score : Nat) :
    (z.zadd member score).zadd member score = z.zadd member score := by
  have hthere : member ∈ (z.zadd member score).members := by
    by_cases hold : member ∈ z.members
    · obtain ⟨e, he, hsame⟩ := List.mem_map.mp hold
      exact List.mem_map.mpr ⟨e, SortedSet.mem_entries_zadd.mpr (.inl he), hsame⟩
    · exact List.mem_map.mpr ⟨_, SortedSet.mem_entries_zadd.mpr (.inr ⟨hold, rfl⟩), rfl⟩
  generalize z.zadd member score = z' at hthere ⊢
  rw [SortedSet.zadd, dif_pos hthere]

theorem overrides_set (key : List Char) (data data' : IndexedTx) :
    Redo.Overrides IndexStore.apply (.setIndexedTx key data) (.setIndexedTx key data') := by
  intro s
  rw [IndexStore.apply, IndexStore.apply, IndexStore.apply]
  dsimp only
  rw [Function.update_idem]

theorem overrides_add (key : List Char) (tick : BitVec 32) :
    Redo.Overrides IndexStore.apply (.addIndexer key tick) (.addIndexer key tick) := by
  intro s
  rw [IndexStore.apply, IndexStore.apply]
  dsimp only
  rw [dbAddIndexer, dbAddIndexer, InvertedIndex.add, InvertedIndex.add, Function.update_self,
    Function.update_idem, zadd_zadd]

/-- Writes to different keys, or to different kinds of keys, do not mind each other. -/
theorem commutes_of_ne {v w : IndexWrite}
    (hset : ∀ key data data', v = .setIndexedTx key data → w ≠ .setIndexedTx key data')
    (hadd : ∀ key t t', v = .addIndexer key t → w ≠ .addIndexer key t') :
    Redo.Commutes IndexStore.apply v w := by
  intro s
  cases v with
  | setIndexedTx key data =>
      cases w with
      | setIndexedTx key' data' =>
          have hne : key ≠ key' := fun h => hset key data data' rfl (h ▸ rfl)
          rw [IndexStore.apply, IndexStore.apply, IndexStore.apply, IndexStore.apply]
          dsimp only
          rw [Function.update_comm hne]
      | addIndexer key' t => rfl
  | addIndexer key t =>
      cases w with
      | setIndexedTx key' data' => rfl
      | addIndexer key' t' =>
          have hne : key ≠ key' := fun h => hadd key t t' rfl (h ▸ rfl)
          rw [IndexStore.apply, IndexStore.apply, IndexStore.apply, IndexStore.apply]
          dsimp only
          rw [dbAddIndexer, dbAddIndexer, dbAddIndexer, dbAddIndexer, InvertedIndex.add,
            InvertedIndex.add, InvertedIndex.add, InvertedIndex.add, Function.update_of_ne hne,
            Function.update_of_ne hne.symm, Function.update_comm hne]

theorem absorbs_of_covers (hcovers : Indexer.Covers (r.writes K tick) x) :
    Redo.Absorbs IndexStore.apply (r.writes K tick) x := by
  cases x with
  | setIndexedTx key data =>
      obtain ⟨data', hmem⟩ := hcovers
      refine Redo.absorbs_of_overrides (fun v _ => ?_) ⟨_, hmem, overrides_set key data' data⟩
      cases v with
      | setIndexedTx key' data'' =>
          by_cases hkey : key' = key
          · subst hkey
            exact .inl (overrides_set key' data'' data)
          · refine .inr (commutes_of_ne (fun k _ _ hv hw => ?_) fun _ _ _ hv => nomatch hv)
            cases hv
            cases hw
            exact hkey rfl
      | addIndexer key' t =>
          exact .inr (commutes_of_ne (fun _ _ _ hv => nomatch hv) fun _ _ _ _ hw => nomatch hw)
  | addIndexer key t =>
      obtain rfl := tick_of_mem_writes hcovers
      refine Redo.absorbs_of_overrides (fun v hv => ?_) ⟨_, hcovers, overrides_add key t⟩
      cases v with
      | setIndexedTx key' data =>
          exact .inr (commutes_of_ne (fun _ _ _ _ hw => nomatch hw) fun _ _ _ hv => nomatch hv)
      | addIndexer key' t' =>
          obtain rfl := tick_of_mem_writes hv
          by_cases hkey : key' = key
          · subst hkey
            exact .inl (overrides_add key' t')
          · refine .inr (commutes_of_ne (fun _ _ _ hv => nomatch hv) fun k _ _ hv hw => ?_)
            cases hv
            cases hw
            exact hkey rfl

end covers

/-! ## Runs -/

/-- Nothing has been indexed. -/
def Indexer.fresh (gInitialTick : BitVec 32) : Indexer where
  work := ⟨.empty, [], [], none⟩
  last_indexed_tick := -1
  gInitialTick := gInitialTick
  lastIndexed := none

/-- The tick of the job `n`. -/
def jobTick (first : BitVec 32) (n : Nat) : BitVec 32 := BitVec.ofNat 32 (first.toNat + n)

/-- As many ticks as `last_indexed_tick` says have been indexed, each with the writes of a call for
which `Q` holds. -/
structure Indexed (K : KangarooTwelve) (first : BitVec 32) (Q : BitVec 32 → TickReads → Prop)
    (s : Indexer) : Prop where
  initial : s.gInitialTick = first
  consistent : s.work.Consistent IndexStore.apply .empty
  room : first.toNat + s.work.done.length < 2 ^ 32
  marker : s.last_indexed_tick =
    if s.work.done = [] then -1 else (first.toNat + s.work.done.length - 1 : Int)
  position : ∀ l, s.lastIndexed = some l → l + 1 = (first.toNat + s.work.done.length : Nat)
  done : ∀ i ws, s.work.done[i]? = some ws →
    ∃ r, Q (jobTick first i) r ∧ ws = r.writes K (jobTick first i)
  current : ∀ made left, s.work.current = some (made, left) →
    first.toNat + s.work.done.length + 1 < 2 ^ 32 ∧
      ∃ r, Q (jobTick first s.work.done.length) r ∧
        made ++ left = r.writes K (jobTick first s.work.done.length)
  abandoned : ∀ x ∈ s.work.abandoned, ∃ r, Q (jobTick first s.work.done.length) r ∧
    x ∈ r.writes K (jobTick first s.work.done.length)

section runs

variable {K : KangarooTwelve} {first : BitVec 32} {Q : BitVec 32 → TickReads → Prop} {s : Indexer}

theorem indexed_fresh (first : BitVec 32) : Indexed K first Q (.fresh first) where
  initial := rfl
  consistent := Redo.Work.consistent_start _
  room := first.isLt
  marker := rfl
  position := nofun
  done _ _ h := nomatch h
  current := nofun
  abandoned := nofun

theorem Indexed.nextTick_eq (h : Indexed K first Q s) {l : Int} (hl : s.lastIndexed = some l) :
    Indexer.nextTick l = jobTick first s.work.done.length := by
  rw [Indexer.nextTick, h.position l hl, jobTick]
  exact BitVec.ofInt_natCast _ _

theorem Indexed.toNat_jobTick (h : Indexed K first Q s) :
    (jobTick first s.work.done.length).toNat = first.toNat + s.work.done.length := by
  rw [jobTick, BitVec.toNat_ofNat, Nat.mod_eq_of_lt h.room]

theorem Indexed.start (h : Indexed K first Q s) (hfirst : first ≠ 0) :
    Indexed K first Q (s.step K .start) := by
  rw [Indexer.step]
  split
  · exact h
  · refine { h with position := fun l hl => ?_ }
    obtain rfl := Option.some.inj hl
    have hpos : 0 < first.toNat := Nat.pos_of_ne_zero fun hzero =>
      hfirst (BitVec.eq_of_toNat_eq hzero)
    have hone : (first - 1).toNat = first.toNat - 1 :=
      BitVec.toNat_sub_of_le (BitVec.le_def.mpr hpos)
    dsimp only
    rw [h.marker, h.initial, hone]
    by_cases hdone : s.work.done = []
    · rw [if_pos hdone, if_pos rfl, hdone, List.length_nil]
      omega
    · have hlen : 0 < s.work.done.length := List.length_pos_iff.mpr hdone
      rw [if_neg hdone, if_neg (by omega)]
      omega

theorem Indexed.begin (h : Indexed K first Q s) {v : BitVec 32} {reads : TickReads}
    (hok : s.Ok K (.begin v reads))
    (hreads : ∀ l, s.lastIndexed = some l → Indexer.nextTick l < v → Q (Indexer.nextTick l) reads) :
    Indexed K first Q (s.step K (.begin v reads)) := by
  rw [Indexer.step]
  split
  · exact h
  next l hl =>
  split
  · next hlt =>
    have hconsistent := h.consistent.begin fun x hx => absorbs_of_covers (hok l hl x hx)
    have hQ := hreads l hl hlt
    rw [h.nextTick_eq hl] at hconsistent hlt hQ ⊢
    rw [Redo.Work.begin] at hconsistent ⊢
    split at hconsistent
    · refine { h with
        consistent := hconsistent
        current := fun made left hcurrent => ⟨?_, reads, hQ, ?_⟩ }
      · have hv := v.isLt
        rw [BitVec.lt_def, h.toNat_jobTick] at hlt
        change first.toNat + s.work.done.length + 1 < 2 ^ 32
        omega
      · obtain ⟨rfl, rfl⟩ := Prod.mk.inj (Option.some.inj hcurrent)
        rfl
    · exact h
  · exact h

theorem Indexed.write (h : Indexed K first Q s) : Indexed K first Q (s.step K .write) := by
  have hconsistent := h.consistent.write
  rw [Indexer.step]
  rw [Redo.Work.write] at hconsistent ⊢
  split at hconsistent
  · next made x left hcurrent =>
    refine { h with consistent := hconsistent, current := fun made' left' hcurrent' => ?_ }
    obtain ⟨rfl, rfl⟩ := Prod.mk.inj (Option.some.inj hcurrent')
    rw [List.append_assoc]
    exact h.current made _ hcurrent
  · exact h

theorem Indexed.abandon (h : Indexed K first Q s) {lastIndexed : Option Int}
    (hlast : ∀ l, lastIndexed = some l → s.lastIndexed = some l) :
    Indexed K first Q { s with work := s.work.abandon, lastIndexed := lastIndexed } := by
  have hconsistent := h.consistent.abandon
  rw [Redo.Work.abandon] at hconsistent ⊢
  split at hconsistent
  · next made left hcurrent =>
    refine { h with
      consistent := hconsistent
      position := fun l hl => h.position l (hlast l hl)
      current := fun made left hcurrent => by cases hcurrent
      abandoned := fun x hx => ?_ }
    rcases List.mem_append.mp hx with hold | hmade
    · exact h.abandoned x hold
    · obtain ⟨-, r, hQ, hr⟩ := h.current made left hcurrent
      exact ⟨r, hQ, hr ▸ List.mem_append_left left hmade⟩
  · exact { h with position := fun l hl => h.position l (hlast l hl) }

theorem Indexed.finish (h : Indexed K first Q s) {l : Int} (hl : s.lastIndexed = some l)
    {made : List IndexWrite} (hcurrent : s.work.current = some (made, [])) :
    Indexed K first Q (s.step K (.update true)) := by
  obtain ⟨hroom, r, hQ, hr⟩ := h.current made [] hcurrent
  rw [List.append_nil] at hr
  have hconsistent := h.consistent.finish
  have hnext : (Indexer.nextTick l).toNat = first.toNat + s.work.done.length := by
    rw [h.nextTick_eq hl, h.toNat_jobTick]
  have hless : s.last_indexed_tick < (first.toNat + s.work.done.length : Nat) := by
    rw [h.marker]
    split
    · omega
    · omega
  rw [Indexer.step]
  simp only [hl, hcurrent]
  rw [hnext, if_pos trivial, if_pos hless]
  rw [Redo.Work.finish, hcurrent] at hconsistent ⊢
  have hlen : (s.work.done ++ [made]).length = s.work.done.length + 1 := List.length_append
  constructor
  · exact h.initial
  · exact hconsistent
  · dsimp only
    rw [hlen]
    exact hroom
  · dsimp only
    rw [hlen, if_neg (List.append_ne_nil_of_right_ne_nil _ (List.cons_ne_nil _ _))]
    omega
  · intro l' hl'
    obtain rfl := Option.some.inj hl'
    dsimp only
    rw [hlen]
    omega
  · intro i ws hws
    change (s.work.done ++ [made])[i]? = some ws at hws
    rcases Nat.lt_or_ge i s.work.done.length with hlt | hge
    · rw [List.getElem?_append_left hlt] at hws
      exact h.done i ws hws
    · rw [List.getElem?_append_right hge, List.getElem?_singleton] at hws
      obtain ⟨hzero, hsame⟩ := Option.ite_none_right_eq_some.mp hws
      obtain rfl : i = s.work.done.length := by omega
      exact ⟨r, hQ, (Option.some.inj hsame).symm.trans hr⟩
  · intro made' left hcurrent'
    cases hcurrent'
  · exact fun x hx => absurd hx List.not_mem_nil

theorem Indexed.update (h : Indexed K first Q s) (ok : Bool) :
    Indexed K first Q (s.step K (.update ok)) := by
  cases hl : s.lastIndexed with
  | none =>
      rw [Indexer.step]
      simp only [hl]
      exact h
  | some l =>
      rcases hcurrent : s.work.current with - | ⟨made, - | ⟨x, left⟩⟩
      · rw [Indexer.step]
        simp only [hl, hcurrent]
        exact h
      · cases ok with
        | true => exact h.finish hl hcurrent
        | false =>
            rw [Indexer.step]
            simp only [hl, hcurrent]
            exact h.abandon fun l' hl' => hl.trans hl'
      · rw [Indexer.step]
        simp only [hl, hcurrent]
        exact h

theorem Indexed.step (h : Indexed K first Q s) (hfirst : first ≠ 0) (st : IndexerStep)
    (hok : s.Ok K st) (hreads : ∀ v reads l, st = .begin v reads → s.lastIndexed = some l →
      Indexer.nextTick l < v → Q (Indexer.nextTick l) reads) :
    Indexed K first Q (s.step K st) := by
  cases st with
  | start => exact h.start hfirst
  | begin v reads => exact h.begin hok fun l => hreads v reads l rfl
  | write => exact h.write
  | update ok => exact h.update ok
  | crash => exact h.abandon nofun

theorem covers_of_mem {ws : List IndexWrite} {x : IndexWrite} (h : x ∈ ws) :
    Indexer.Covers ws x := by
  cases x with
  | setIndexedTx key data => exact ⟨data, h⟩
  | addIndexer key tick => exact h

/-- As long as the database does not change, there is nothing to ask of an attempt. -/
theorem guarded_of_stable {f : BitVec 32 → TickReads} {steps : List IndexerStep} (hfirst : first ≠ 0)
    (hstable : Runs.Guarded (Indexer.step K) (fun s st => s.Stable f st) (.fresh first) steps) :
    Runs.Guarded (Indexer.step K) (fun s st => s.Ok K st) (.fresh first) steps := by
  refine @Runs.Guarded.of_invariant _ _ (Indexer.step K) _
    (Indexed K first fun tick r => r = f tick) _ (fun s st h hst => ⟨?_, fun hok => ?_⟩) _ steps
    (indexed_fresh first) hstable
  · cases st with
    | begin v reads =>
        intro l hl x hx
        obtain ⟨r, rfl, hr⟩ := h.abandoned x hx
        rw [hst l hl, h.nextTick_eq hl]
        exact covers_of_mem hr
    | start => trivial
    | write => trivial
    | update ok => trivial
    | crash => trivial
  · refine h.step hfirst st hok fun v reads l heq hl _ => ?_
    subst heq
    exact hst l hl

/-- A call of `indexTick` of the run, for a tick that had been verified. -/
def Called (steps : List IndexerStep) (tick : BitVec 32) (r : TickReads) : Prop :=
  ∃ v, tick < v ∧ .begin v r ∈ steps

theorem indexed_run {steps : List IndexerStep} (hfirst : first ≠ 0)
    (hok : Runs.Guarded (Indexer.step K) (fun s st => s.Ok K st) (.fresh first) steps) :
    Indexed K first (Called steps) (Runs.run (Indexer.step K) (.fresh first) steps) := by
  have hmem : Runs.Guarded (Indexer.step K) (fun _ st => st ∈ steps) (.fresh first) steps :=
    Runs.guarded_of_forall (fun _ hst => hst) _
  refine @Runs.run_invariant _ _ (Indexer.step K) (fun s st => s.Ok K st ∧ st ∈ steps)
    (Indexed K first (Called steps)) (fun s st h hst => ?_) _ steps (indexed_fresh first) (hok.and hmem)
  exact h.step hfirst st hst.1 fun v reads l heq _ htick => ⟨v, htick, heq ▸ hst.2⟩

/-- The ticks that have been indexed, and the calls that did it. -/
theorem Indexed.exists_reads (h : Indexed K first Q s) :
    ∃ reads : Nat → TickReads, (∀ i < s.work.done.length, Q (jobTick first i) (reads i)) ∧
      s.work.done = (List.range s.work.done.length).map fun i =>
        (reads i).writes K (jobTick first i) := by
  have hexists : ∀ i, ∃ r : TickReads, i < s.work.done.length →
      Q (jobTick first i) r ∧ s.work.done[i]? = some (r.writes K (jobTick first i)) := by
    intro i
    by_cases hi : i < s.work.done.length
    · obtain ⟨r, hQ, hr⟩ := h.done i _ (List.getElem?_eq_getElem hi)
      exact ⟨r, fun _ => ⟨hQ, by rw [List.getElem?_eq_getElem hi, hr]⟩⟩
    · exact ⟨.nothing, fun hlt => absurd hlt hi⟩
  choose reads hreads using hexists
  refine ⟨reads, fun i hi => (hreads i hi).1, List.ext_getElem? fun i => ?_⟩
  rw [List.getElem?_map]
  rcases Nat.lt_or_ge i s.work.done.length with hlt | hge
  · rw [(hreads i hlt).2, List.getElem?_range hlt]
    rfl
  · rw [List.getElem?_eq_none hge, List.getElem?_eq_none (by rw [List.length_range]; exact hge)]
    rfl

theorem Indexed.mem_unfinished (h : Indexed K first Q s) {x : IndexWrite}
    (hx : x ∈ s.work.unfinished) : ∃ r, Q (jobTick first s.work.done.length) r ∧
      x ∈ r.writes K (jobTick first s.work.done.length) := by
  rcases List.mem_append.mp hx with hold | hmade
  · exact h.abandoned x hold
  · rcases hcurrent : s.work.current with - | ⟨made, left⟩
    · rw [hcurrent] at hmade
      cases hmade
    · rw [hcurrent] at hmade
      obtain ⟨-, r, hQ, hr⟩ := h.current made left hcurrent
      exact ⟨r, hQ, hr ▸ List.mem_append_left left hmade⟩

/-- The ticks that have been indexed: the call that is left of each, and what there is of the next. -/
structure IndexedBy (K : KangarooTwelve) (first : BitVec 32) (steps : List IndexerStep) (s : Indexer)
    (n : Nat) (reads : Nat → TickReads) (rest : List IndexWrite) : Prop where
  marker : s.last_indexed_tick = if n = 0 then -1 else (first.toNat + n - 1 : Int)
  room : first.toNat + n < 2 ^ 32
  called : ∀ i < n, Called steps (jobTick first i) (reads i)
  store : s.work.store = (((List.range n).flatMap fun i => (reads i).writes K (jobTick first i)) ++
    rest).foldl IndexStore.apply .empty
  next : ∀ x ∈ rest, ∃ r, Called steps (jobTick first n) r ∧ x ∈ r.writes K (jobTick first n)

theorem Indexed.exists_indexedBy {steps : List IndexerStep}
    (h : Indexed K first (Called steps) s) : ∃ n reads rest, IndexedBy K first steps s n reads rest := by
  obtain ⟨reads, hcalled, hdone⟩ := h.exists_reads
  refine ⟨s.work.done.length, reads, s.work.unfinished, ?_, h.room, hcalled, ?_,
    fun x hx => h.mem_unfinished hx⟩
  · rw [h.marker]
    simp only [List.length_eq_zero_iff]
  · rw [h.consistent.store_eq, List.flatMap_def, ← hdone]

/-- **Each tick once.** In every run, with the program stopping and starting again anywhere and updates
of `last_indexed_tick` failing, the records and the index are those of indexing each tick from the
initial one to `last_indexed_tick` once, in order, by a call made when the tick had been verified, and of
some writes of the next tick besides. -/
theorem indexed_once {steps : List IndexerStep} (hfirst : first ≠ 0)
    (hok : Runs.Guarded (Indexer.step K) (fun s st => s.Ok K st) (.fresh first) steps) :
    ∃ n reads rest,
      IndexedBy K first steps (Runs.run (Indexer.step K) (.fresh first) steps) n reads rest :=
  (indexed_run hfirst hok).exists_indexedBy

/-- Tick 10 is indexed at the second attempt, the first is cut off after one write. -/
def interrupted (r : TickReads) : List IndexerStep :=
  [.start, .begin 11 r, .write, .crash, .start, .begin 11 r] ++ List.replicate 16 .write ++
    [.update true]

theorem eq_of_begin_mem_interrupted {r r' : TickReads} {v : BitVec 32}
    (h : .begin v r' ∈ interrupted r) : v = 11 ∧ r' = r := by
  simp only [interrupted, List.mem_append, List.mem_cons, List.mem_replicate, reduceCtorEq,
    IndexerStep.begin.injEq, List.not_mem_nil, and_false, false_or, or_false] at h
  rcases h with ⟨rfl, rfl⟩ | ⟨rfl, rfl⟩
  · exact ⟨rfl, rfl⟩
  · exact ⟨rfl, rfl⟩

theorem guarded_interrupted (r : TickReads) :
    Runs.Guarded (Indexer.step K) (fun s st => s.Ok K st) (.fresh 10) (interrupted r) := by
  refine @guarded_of_stable _ _ (fun _ => r) _ (by decide) ?_
  have hreads : ∀ st ∈ interrupted r, ∀ v r', st = .begin v r' → r' = r := by
    rintro st hst v r' rfl
    exact (eq_of_begin_mem_interrupted hst).2
  refine (Runs.guarded_of_forall hreads _).mono fun s st hst => ?_
  cases st with
  | begin v r' => exact fun _ _ => hst v r' rfl
  | start => trivial
  | write => trivial
  | update ok => trivial
  | crash => trivial

/-- The log of the transfer. -/
def oneTransferLog : LogEvent := LogEvent.pack 1 10 QU_TRANSFER 3 0 (QuTransfer.bytes ⟨5, 6, 30⟩)

/-- Tick 10 with one transaction, the transfer of 30 from key 5 to key 6, and the log 3 of it. -/
def oneTransfer : TickReads where
  gCurrentProcessingEpoch := 1
  gSpamThreshold := 10
  td :=
    { TickData.zero with
      epoch := 1
      tick := 10
      transactionDigests := fun i => if i.val = 0 then 1 else 0 }
  logrange := ⟨fun i => if i.val = 0 then 3 else -1, fun i => if i.val = 0 then 1 else -1⟩
  firstEvent := fun _ => oneTransferLog
  txData := fun _ => some (QuTransfer.bytes ⟨5, 6, 30⟩ ++ leBytes 4 (10 : BitVec 32) ++
    List.replicate 4 0)
  vle := [oneTransferLog]
  unspecified := ⟨fun _ => m256i.zero, fun _ => 0⟩

/-- The tick with the transfer, in spite of the attempt that was cut off. -/
theorem indexed_once_interrupted :
    let K : KangarooTwelve := ⟨fun _ => 0, fun _ => 0⟩
    let s := Runs.run (Indexer.step K) (.fresh 10) (interrupted oneTransfer)
    s.last_indexed_tick = 10 ∧ ∃ n reads rest, IndexedBy K 10 (interrupted oneTransfer) s n reads rest :=
  ⟨by decide +kernel, indexed_once (by decide) (guarded_interrupted _)⟩

end runs

end QubicBob
