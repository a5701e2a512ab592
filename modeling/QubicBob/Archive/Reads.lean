import QubicBob.Archive.CopyFirst
import QubicBob.Storage.LogStore

set_option autoImplicit false

/-! # Reading a tick that has been moved

The reading functions look in KeyDB first and then in Kvrocks, so that a tick which the cleaner has
moved should read as before. Transactions, logs and log ranges do (`lookup` is what a reader finds,
and copies and deletions of copied items keep it).

The record of the tick has a fixed layout, with zero bytes for a tick data or a vote that is not
there. `db_try_get_tick_vote` leaves such entries out, `db_try_to_get_votes` returns all 676, and
`db_try_get_tick_data` returns the zero tick data of an empty tick. `sameReads_iff` says for which
ticks no read changes.
-/

namespace QubicBob

/-! ## The reading functions -/

/-- No command fails. -/
def allSucceed : RoundOutcomes where
  compress _ := ⟨6, true, true, true, true, true, true, true, true⟩
  unlinkTickData _ := true
  unlinkTickVote _ := true
  clean _ := ⟨true, true, true, true, true, true, fun _ => true, fun _ => true, fun _ _ => true,
    fun _ _ => true, fun _ _ => true, fun _ _ => true, fun _ => true⟩

/-- An item that is no part of a tick record. -/
def Item.Apart : Item → Prop
  | .tickData _ | .vote _ _ => False
  | .transaction _ | .log _ _ => True

namespace Archive

/-- The votes in KeyDB; if there is none, all entries of the record. -/
def dbTryToGetVotes (a : Archive) (tick : BitVec 32) : List TickVote :=
  let votes := dbGetTickVotes a.ticks tick
  if votes.isEmpty then
    match a.vtick tick with
    | none => []
    | some full => List.ofFn full.tv
  else votes

/-- The votes in KeyDB; if there is none, the entries of the record with the right tick. -/
def dbTryGetTickVote (a : Archive) (tick : BitVec 32) : List TickVote :=
  let result := dbGetTickVotes a.ticks tick
  if result.isEmpty = false then result
  else
    match a.vtick tick with
    | none => result
    | some full => (List.ofFn full.tv).filter (fun v => v.tick = tick)

def dbTryGetTransaction (a : Archive) (hash : List Char) : Option (List Byte) :=
  (a.transactions hash).or (a.kvTransactions hash)

/-- The logs of both databases. -/
def logDB (a : Archive) : LogDB := ⟨⟨fun _ => none, a.logs⟩, ⟨fun _ => none, a.kvLogs⟩⟩

/-- The three functions in turn, on one tick. -/
def moveTick (K : KangarooTwelve) (a : Archive) (tick : BitVec 32) : Archive :=
  let a₁ := Runs.run exec a (a.compressTickAndMoveToKVRocks (allSucceed.compress tick) tick)
  let a₂ := Runs.run exec a₁
    (cleanRawTick (allSucceed.unlinkTickData tick) (allSucceed.unlinkTickVote tick) tick)
  Runs.run exec a₂ (cleanTransactionLogs K (allSucceed.clean tick) a₂ tick)

/-- The seven reads of a tick and its items give the same in both states. -/
structure SameReads (a a' : Archive) (tick : BitVec 32) : Prop where
  tickData : a'.dbTryGetTickData true true tick = a.dbTryGetTickData true true tick
  votes : a'.dbTryToGetVotes tick = a.dbTryToGetVotes tick
  tickVote : a'.dbTryGetTickVote tick = a.dbTryGetTickVote tick
  logRanges : a'.dbTryGetLogRanges true true tick = a.dbTryGetLogRanges true true tick
  logRangeForTick :
    a'.dbTryGetLogRangeForTick true true tick = a.dbTryGetLogRangeForTick true true tick
  log : ∀ epoch logId, dbTryGetLog a'.logDB epoch logId = dbTryGetLog a.logDB epoch logId
  transaction : ∀ hash, a'.dbTryGetTransaction hash = a.dbTryGetTransaction hash

/-! ## What a reader finds -/

/-- The item in KeyDB, else in Kvrocks. -/
def lookup (a : Archive) (item : Item) : Option ItemValue := (a.value item).or (a.copy item)

section lookups

variable {a : Archive} {c : Command} {cs : List Command} {item : Item}

theorem value_exec_le {x : ItemValue} (h : (a.exec c).value item = some x) :
    a.value item = some x := by
  by_cases hitem : c.Unlinks item
  · rw [value_exec_of_unlinks hitem] at h
    cases h
  · rw [value_exec_of_not_unlinks hitem] at h
    exact h

/-- Nothing comes into KeyDB. -/
theorem value_run_le {x : ItemValue} (h : (Runs.run exec a cs).value item = some x) :
    a.value item = some x := by
  induction cs generalizing a with
  | nil => exact h
  | cons c cs ih => exact value_exec_le (ih h)

theorem copy_run_of_not_sets (h : ∀ c ∈ cs, ∀ y, ¬ c.Sets item y) :
    (Runs.run exec a cs).copy item = a.copy item := by
  induction cs generalizing a with
  | nil => rfl
  | cons c cs ih =>
      rw [Runs.run_cons, ih (fun c' hc' => h c' (List.mem_cons_of_mem _ hc')),
        copy_exec_of_not_sets (h c List.mem_cons_self)]

/-- Copies of what KeyDB has change no lookup. -/
theorem lookup_run_of_copies (hno : ∀ c ∈ cs, ∀ item, ¬ c.Unlinks item)
    (hsets : ∀ c ∈ cs, ∀ y, c.Sets item y → a.value item = some y) :
    (Runs.run exec a cs).lookup item = a.lookup item := by
  unfold lookup
  rw [value_run_of_no_unlink hno]
  cases hvalue : a.value item with
  | some x => rfl
  | none =>
      rw [copy_run_of_not_sets]
      intro c hc y hy
      have hheld := hsets c hc y hy
      rw [hvalue] at hheld
      cases hheld

theorem lookup_exec_of_copiedFirst (hc : c.OnKeyDB) (hfirst : a.CopiedFirst c) :
    (a.exec c).lookup item = a.lookup item := by
  unfold lookup
  rw [copy_exec_of_onKeyDB hc]
  by_cases hitem : c.Unlinks item
  · rw [value_exec_of_unlinks hitem]
    cases hvalue : a.value item with
    | none => rfl
    | some x => exact copiedFirst_iff.mp hfirst item hitem x hvalue
  · rw [value_exec_of_not_unlinks hitem]

/-- Neither do deletions of items that have a copy. -/
theorem lookup_run_of_deletions (hkeydb : ∀ c ∈ cs, c.OnKeyDB) (h : a.CopyBeforeDelete cs) :
    (Runs.run exec a cs).lookup item = a.lookup item := by
  induction cs generalizing a with
  | nil => rfl
  | cons c cs ih =>
      rw [Runs.run_cons, ih (fun c' hc' => hkeydb c' (List.mem_cons_of_mem _ hc')) h.2,
        lookup_exec_of_copiedFirst (hkeydb c List.mem_cons_self) h.1]

/-- Commands about other items. -/
theorem lookup_run_of_others (hunlinks : ∀ c ∈ cs, ¬ c.Unlinks item)
    (hsets : ∀ c ∈ cs, ∀ y, ¬ c.Sets item y) :
    (Runs.run exec a cs).lookup item = a.lookup item := by
  unfold lookup
  rw [copy_run_of_not_sets hsets]
  congr 1
  clear hsets
  induction cs generalizing a with
  | nil => rfl
  | cons c cs ih =>
      rw [Runs.run_cons, ih (fun c' hc' => hunlinks c' (List.mem_cons_of_mem _ hc')),
        value_exec_of_not_unlinks (hunlinks c List.mem_cons_self)]

end lookups

/-! ## The transactions of a tick -/

/-- What is stored about ticks is the same. -/
structure SameTicks (a a' : Archive) : Prop where
  tickData : a'.ticks.tickData = a.ticks.tickData
  tickVote : a'.ticks.tickVote = a.ticks.tickVote
  vtick : a'.vtick = a.vtick
  logRanges : a'.logRanges = a.logRanges
  cLogRange : a'.cLogRange = a.cLogRange
  tickLogRange : a'.tickLogRange = a.tickLogRange
  kvTickLogRange : a'.kvTickLogRange = a.kvTickLogRange

theorem SameTicks.refl (a : Archive) : SameTicks a a := ⟨rfl, rfl, rfl, rfl, rfl, rfl, rfl⟩

theorem SameTicks.trans {a b c : Archive} (h : SameTicks a b) (h' : SameTicks b c) :
    SameTicks a c :=
  ⟨h'.tickData.trans h.tickData, h'.tickVote.trans h.tickVote, h'.vtick.trans h.vtick,
    h'.logRanges.trans h.logRanges, h'.cLogRange.trans h.cLogRange,
    h'.tickLogRange.trans h.tickLogRange, h'.kvTickLogRange.trans h.kvTickLogRange⟩

section transactions

variable {K : KangarooTwelve} {tick : BitVec 32} {td : TickData} {lr : LogRangesPerTxInTick}
  {a : Archive} {i : Fin NUMBER_OF_TRANSACTIONS_PER_TICK} {item : Item}

theorem transactionSafe_allSucceed :
    TransactionSafe K (allSucceed.clean tick) td lr a i :=
  fun _ => ⟨fun _ _ _ => Or.inl ⟨rfl, rfl⟩, fun _ _ _ _ => Or.inl ⟨rfl, rfl, rfl⟩⟩

theorem lookup_cleanTransaction :
    (Runs.run exec a (cleanTransaction K (allSucceed.clean tick) td lr a i)).lookup item =
      a.lookup item := by
  by_cases hzero : td.transactionDigests i = m256i.zero
  · rw [cleanTransaction, if_pos hzero, Runs.run_nil]
  · have hsafe : TransactionSafe K (allSucceed.clean tick) td lr a i := transactionSafe_allSucceed
    have hfirst := copyBeforeDelete_cleanTransaction.mpr hsafe
    rw [cleanTransaction_eq hzero, copyBeforeDelete_append] at hfirst
    rw [cleanTransaction_eq hzero, Runs.run_append,
      lookup_run_of_deletions onKeyDB_deleteCommands hfirst.2]
    exact lookup_run_of_copies (fun c hc item => not_unlinks_copyCommands hc item)
      (fun c hc y hy => sets_copyCommands hc hy)

/-- One transaction changes nothing about ticks. -/
theorem sameTicks_cleanTransaction {o : CleanOutcomes} :
    SameTicks a (Runs.run exec a (cleanTransaction K o td lr a i)) := by
  have hrun : ∀ (cs : List Command) (a : Archive), (∀ c ∈ cs, ∀ a : Archive, SameTicks a (a.exec c)) →
      SameTicks a (Runs.run exec a cs) := by
    intro cs
    induction cs with
    | nil => exact fun a _ => SameTicks.refl a
    | cons c cs ih =>
        exact fun a h => (h c List.mem_cons_self a).trans
          (ih _ (fun c' hc' => h c' (List.mem_cons_of_mem _ hc')))
  refine hrun _ a (fun c hc a => ?_)
  by_cases hzero : td.transactionDigests i = m256i.zero
  · rw [cleanTransaction, if_pos hzero] at hc
    cases hc
  · rw [cleanTransaction_eq hzero, List.mem_append, mem_copyCommands, deleteCommands,
      List.mem_append] at hc
    rcases hc with (⟨value, -, -, -, rfl⟩ | ⟨logId, -, value, -, -, rfl⟩) | hc | hc
    · exact ⟨rfl, rfl, rfl, rfl, rfl, rfl, rfl⟩
    · exact ⟨rfl, rfl, rfl, rfl, rfl, rfl, rfl⟩
    · obtain ⟨logId, -, rfl⟩ := List.mem_map.mp hc
      exact ⟨rfl, rfl, rfl, rfl, rfl, rfl, rfl⟩
    · split at hc
      · rw [List.mem_singleton.mp hc]
        exact ⟨rfl, rfl, rfl, rfl, rfl, rfl, rfl⟩
      · cases hc

/-- The loop over the transactions changes no lookup and nothing about ticks. -/
theorem run_cleanTransactions (K : KangarooTwelve) (tick : BitVec 32) (td : TickData)
    (lr : LogRangesPerTxInTick) (is : List (Fin NUMBER_OF_TRANSACTIONS_PER_TICK)) (a : Archive) :
    (∀ item, (Runs.run exec a (Runs.script exec (cleanTransaction K (allSucceed.clean tick) td lr)
      a is)).lookup item = a.lookup item) ∧
    SameTicks a (Runs.run exec a
      (Runs.script exec (cleanTransaction K (allSucceed.clean tick) td lr) a is)) := by
  rw [Runs.run_script]
  induction is generalizing a with
  | nil => exact ⟨fun _ => rfl, SameTicks.refl a⟩
  | cons i is ih =>
      obtain ⟨ihlookup, ihticks⟩ := ih (Runs.callStep exec
        (cleanTransaction K (allSucceed.clean tick) td lr) a i)
      exact ⟨fun item => (ihlookup item).trans lookup_cleanTransaction,
        sameTicks_cleanTransaction.trans ihticks⟩

end transactions

/-! ## The tick after the move -/

section moved

variable {K : KangarooTwelve} {tick : BitVec 32} {a : Archive}

theorem normalRange_idem (range : Int × Int) :
    normalRange (normalRange range) = normalRange range := by
  unfold normalRange
  by_cases h : range.1 = -1 ∨ range.2 = -1
  · rw [if_pos h]
    rfl
  · rw [if_neg h, if_neg h]

/-- What compressing a tick leaves, where the record is written. -/
structure Compressed (a a₁ : Archive) (tick : BitVec 32) : Prop where
  vtick : a₁.vtick tick = some (fullRead a.ticks (allSucceed.compress tick) tick)
  logRanges : a₁.logRanges = a.logRanges
  tickLogRange : a₁.tickLogRange = a.tickLogRange
  cLogRange : a₁.cLogRange tick = a.dbTryGetLogRanges true true tick
  kvTickLogRange : a₁.kvTickLogRange tick = a.dbTryGetLogRangeForTick true true tick

theorem compressed_run (hw : WritesVtick a.ticks (allSucceed.compress tick) tick) :
    Compressed a (Runs.run exec a
      (a.compressTickAndMoveToKVRocks (allSucceed.compress tick) tick)) tick := by
  obtain ⟨henough, hset⟩ := writesVtick_iff.mp hw
  have hranges : a.dbTryGetLogRanges (allSucceed.compress tick).getLogRanges
      (allSucceed.compress tick).getCLogRange tick = a.dbTryGetLogRanges true true tick := rfl
  have hrange : a.dbTryGetLogRangeForTick (allSucceed.compress tick).hmgetKeydb
      (allSucceed.compress tick).hmgetKvrocks tick = a.dbTryGetLogRangeForTick true true tick := rfl
  unfold compressTickAndMoveToKVRocks
  dsimp only
  rw [if_neg henough, if_neg hset, hranges, hrange, Runs.run_cons, Runs.run_append]
  -- a range that is not found anywhere is not written, and then Kvrocks has none
  have hnone : a.dbTryGetLogRanges true true tick = none → a.cLogRange tick = none := by
    intro h
    exact (Option.or_eq_none_iff.mp h).2
  have hnone' : a.dbTryGetLogRangeForTick true true tick = none → a.kvTickLogRange tick = none := by
    intro h
    exact (Option.or_eq_none_iff.mp (Option.map_eq_none_iff.mp h)).2
  cases hlr : a.dbTryGetLogRanges true true tick with
  | none =>
      cases hr : a.dbTryGetLogRangeForTick true true tick with
      | none =>
          exact ⟨Function.update_self _ _ _, rfl, rfl, (hnone hlr).trans hlr.symm,
            (hnone' hr).trans hr.symm⟩
      | some range =>
          exact ⟨Function.update_self _ _ _, rfl, rfl, (hnone hlr).trans hlr.symm,
            (Function.update_self _ _ _).trans hr.symm⟩
  | some lr =>
      cases hr : a.dbTryGetLogRangeForTick true true tick with
      | none =>
          exact ⟨Function.update_self _ _ _, rfl, rfl, (Function.update_self _ _ _).trans hlr.symm,
            (hnone' hr).trans hr.symm⟩
      | some range =>
          exact ⟨Function.update_self _ _ _, rfl, rfl, (Function.update_self _ _ _).trans hlr.symm,
            (Function.update_self _ _ _).trans hr.symm⟩

theorem lookup_compress {o : CompressOutcomes} {item : Item} (h : item.Apart) :
    (Runs.run exec a (a.compressTickAndMoveToKVRocks o tick)).lookup item = a.lookup item := by
  refine lookup_run_of_others (fun c hc => not_unlinks_compress hc item) (fun c hc y hy => ?_)
  rcases compressTickAndMoveToKVRocks_cases a o tick with ⟨-, hnil⟩ | ⟨-, ranges, hcons, hranges⟩
  · rw [hnil] at hc
    cases hc
  · rw [hcons, List.mem_cons] at hc
    rcases hc with rfl | hc
    · cases item with
      | tickData => exact h
      | vote => exact h
      | _ => exact hy
    · rcases hranges c hc with ⟨lr, rfl⟩ | ⟨range, rfl⟩
      · cases item with
        | _ => exact hy
      · cases item with
        | _ => exact hy

/-- The tick after all three functions: KeyDB has no tick data and no vote of it, Kvrocks has what
compressing left, and the log ranges are gone from KeyDB or as they were. -/
structure Moved (a₁ a₃ : Archive) (tick : BitVec 32) : Prop where
  noData : dbGetTickData a₃.ticks tick = none
  noVotes : ∀ i : Fin NUMBER_OF_COMPUTORS, dbGetTickVote a₃.ticks tick (BitVec.ofNat 16 i.val) = none
  vtick : a₃.vtick = a₁.vtick
  cLogRange : a₃.cLogRange = a₁.cLogRange
  kvTickLogRange : a₃.kvTickLogRange = a₁.kvTickLogRange
  ranges : (a₃.logRanges tick = none ∧ a₃.tickLogRange tick = none) ∨
    (a₃.logRanges = a₁.logRanges ∧ a₃.tickLogRange = a₁.tickLogRange)

theorem Moved.sameTicks {a₁ a₂ a₃ : Archive} (h : Moved a₁ a₂ tick) (hsame : SameTicks a₂ a₃) :
    Moved a₁ a₃ tick where
  noData := by
    rw [dbGetTickData, hsame.tickData]
    exact h.noData
  noVotes i := by
    rw [dbGetTickVote, hsame.tickVote]
    exact h.noVotes i
  vtick := hsame.vtick.trans h.vtick
  cLogRange := hsame.cLogRange.trans h.cLogRange
  kvTickLogRange := hsame.kvTickLogRange.trans h.kvTickLogRange
  ranges := by
    rw [hsame.logRanges, hsame.tickLogRange]
    exact h.ranges

theorem moved_cleanRawTick (a₁ : Archive) (tick : BitVec 32) :
    Moved a₁ (Runs.run exec a₁ (cleanRawTick true true tick)) tick where
  noData := by
    have hnone : ((a₁.exec (.unlinkTickData tick)).exec (.unlinkTickVote tick)).value
        (.tickData tick) = none := by
      rw [value_exec_of_not_unlinks id]
      exact value_exec_of_unlinks (c := .unlinkTickData tick) rfl
    exact Option.map_eq_none_iff.mp hnone
  noVotes i := by
    have hnone : ((a₁.exec (.unlinkTickData tick)).exec (.unlinkTickVote tick)).value
        (.vote tick i) = none := value_exec_of_unlinks (c := .unlinkTickVote tick) rfl
    exact Option.map_eq_none_iff.mp hnone
  vtick := rfl
  cLogRange := rfl
  kvTickLogRange := rfl
  ranges := Or.inr ⟨rfl, rfl⟩

theorem lookup_cleanRawTick {item : Item} (h : item.Apart) :
    (Runs.run exec a (cleanRawTick true true tick)).lookup item = a.lookup item := by
  have hcommands : ∀ c ∈ cleanRawTick true true tick,
      c = .unlinkTickData tick ∨ c = .unlinkTickVote tick := by
    intro c hc
    rcases List.mem_cons.mp hc with hc | hc
    · exact Or.inl hc
    · exact Or.inr (List.mem_singleton.mp hc)
  refine lookup_run_of_others (fun c hc hitem => ?_) (fun c hc y hy => ?_)
  · rcases hcommands c hc with rfl | rfl
    · cases item with
      | tickData => exact h
      | _ => exact hitem
    · cases item with
      | vote => exact h
      | _ => exact hitem
  · rcases hcommands c hc with rfl | rfl
    · cases item with
      | _ => exact hy
    · cases item with
      | _ => exact hy

theorem lookup_dbDeleteLogRanges {o : CleanOutcomes} {item : Item} :
    (Runs.run exec a (dbDeleteLogRanges o tick)).lookup item = a.lookup item := by
  refine lookup_run_of_deletions (fun c hc => ?_) (copyBeforeDelete_of_no_unlink
    (fun c hc item => not_unlinks_dbDeleteLogRanges hc item))
  unfold dbDeleteLogRanges at hc
  split at hc
  · cases hc
  · rcases List.mem_cons.mp hc with rfl | hc
    · exact trivial
    · split at hc
      · rw [List.mem_singleton.mp hc]
        exact trivial
      · cases hc

theorem run_cleanTransactionLogs {a₁ a₂ : Archive} (h : Moved a₁ a₂ tick) :
    Moved a₁ (Runs.run exec a₂ (cleanTransactionLogs K (allSucceed.clean tick) a₂ tick)) tick ∧
    ∀ item, (Runs.run exec a₂ (cleanTransactionLogs K (allSucceed.clean tick) a₂ tick)).lookup item =
      a₂.lookup item := by
  unfold cleanTransactionLogs
  split
  · next td lr _ _ =>
      rw [Runs.run_append]
      have hranges : Moved a₁ (Runs.run exec a₂ (dbDeleteLogRanges (allSucceed.clean tick) tick))
          tick :=
        ⟨h.noData, h.noVotes, h.vtick, h.cLogRange, h.kvTickLogRange,
          Or.inl ⟨Function.update_self _ _ _, Function.update_self _ _ _⟩⟩
      obtain ⟨hlookup, hsame⟩ := run_cleanTransactions K tick td lr
        (List.finRange NUMBER_OF_TRANSACTIONS_PER_TICK)
        (Runs.run exec a₂ (dbDeleteLogRanges (allSucceed.clean tick) tick))
      exact ⟨hranges.sameTicks hsame, fun item => (hlookup item).trans lookup_dbDeleteLogRanges⟩
  · exact ⟨h, fun _ => rfl⟩

theorem moved_moveTick (K : KangarooTwelve) (a : Archive) (tick : BitVec 32) :
    Moved (Runs.run exec a (a.compressTickAndMoveToKVRocks (allSucceed.compress tick) tick))
      (moveTick K a tick) tick :=
  (run_cleanTransactionLogs (moved_cleanRawTick _ tick)).1

theorem lookup_moveTick (K : KangarooTwelve) (a : Archive) (tick : BitVec 32) {item : Item}
    (h : item.Apart) :
    (moveTick K a tick).lookup item = a.lookup item :=
  ((run_cleanTransactionLogs (moved_cleanRawTick _ tick)).2 item).trans
    ((lookup_cleanRawTick h).trans (lookup_compress h))

end moved

/-! ## Votes as a list -/

section votes

variable {a : Archive} {db : TickKeyDB} {tick : BitVec 32}

theorem votesRead_allSucceed :
    votesRead db tick (allSucceed.compress tick).mget = dbGetTickVotes db tick := by
  have hall : NUMBER_OF_COMPUTORS ≤ VOTES_BATCH_SIZE * (allSucceed.compress tick).mget :=
    show 676 ≤ 128 * 6 by decide
  rw [votesRead, dbGetTickVotes, List.take_of_length_le]
  rw [List.length_finRange]
  exact hall

theorem writesVtick_allSucceed : WritesVtick db (allSucceed.compress tick) tick ↔
    (dbGetTickData db tick).isSome = true ∨ 225 < emptyVotes (dbGetTickVotes db tick) := by
  rw [WritesVtick, votesRead_allSucceed]
  exact ⟨fun h => h.1.imp And.right id, fun h => ⟨h.imp (fun h => ⟨rfl, h⟩) id, rfl⟩⟩

theorem fullRead_tv_of_nil (h : dbGetTickVotes db tick = []) :
    (fullRead db (allSucceed.compress tick) tick).tv = fun _ => TickVote.zero := by
  unfold fullRead
  dsimp only
  rw [votesRead_allSucceed, h, packVotes]

/-- A list from which nothing is filtered. -/
theorem eq_some_of_filterMap_eq_map {α β : Type} {f : α → Option β} {g : α → β} {l : List α}
    (h : l.filterMap f = l.map g) : ∀ x ∈ l, f x = some (g x) := by
  induction l with
  | nil => exact fun x hx => absurd hx List.not_mem_nil
  | cons y l ih =>
      cases hy : f y with
      | none =>
          rw [List.filterMap_cons_none hy] at h
          have hlen := congrArg List.length h
          have hle := List.length_filterMap_le f l
          rw [List.length_map, List.length_cons] at hlen
          omega
      | some z =>
          rw [List.filterMap_cons_some hy, List.map_cons, List.cons.injEq] at h
          intro x hx
          rcases List.mem_cons.mp hx with rfl | hx
          · rw [hy, h.1]
          · exact ih h.2 x hx

theorem dbGetTickVotes_eq_ofFn {tv : Fin NUMBER_OF_COMPUTORS → TickVote} :
    dbGetTickVotes db tick = List.ofFn tv ↔
      ∀ i, dbGetTickVote db tick (BitVec.ofNat 16 i.val) = some (tv i) := by
  rw [dbGetTickVotes, List.ofFn_eq_map]
  constructor
  · exact fun h i => eq_some_of_filterMap_eq_map h i (List.mem_finRange i)
  · intro h
    rw [← List.filterMap_eq_map]
    exact List.filterMap_congr (fun i _ => h i)

theorem dbGetTickVotes_eq_nil :
    dbGetTickVotes db tick = [] ↔ ∀ i : Fin NUMBER_OF_COMPUTORS,
      dbGetTickVote db tick (BitVec.ofNat 16 i.val) = none := by
  rw [dbGetTickVotes, List.filterMap_eq_nil_iff]
  exact ⟨fun h i => h i (List.mem_finRange i), fun h i _ => h i⟩

/-- With an epoch in every vote, the cleaner counts every vote with a zero digest. -/
theorem emptyVotes_eq (h : ∀ v ∈ dbGetTickVotes db tick, v.epoch ≠ 0) :
    emptyVotes (dbGetTickVotes db tick) =
      (dbGetTickVotes db tick).countP (fun v => v.transactionDigest = m256i.zero) := by
  refine List.countP_congr (fun v hv => ?_)
  have hindex := (mem_dbGetTickVotes hv).2
  rw [decide_eq_true_eq, decide_eq_true_eq]
  exact ⟨fun hv' => hv'.2.2, fun hdigest => ⟨hindex, h v hv, hdigest⟩⟩

theorem ofFn_ne_nil (tv : Fin NUMBER_OF_COMPUTORS → TickVote) : List.ofFn tv ≠ [] := by
  rw [Ne, List.ofFn_eq_nil_iff]
  decide

theorem dbTryToGetVotes_of_nil {full : FullTickStruct} (hnil : dbGetTickVotes a.ticks tick = [])
    (hfull : a.vtick tick = some full) : a.dbTryToGetVotes tick = List.ofFn full.tv := by
  unfold dbTryToGetVotes
  simp only [hnil, hfull, List.isEmpty_nil, if_true]

theorem dbTryToGetVotes_of_none (hnil : dbGetTickVotes a.ticks tick = [])
    (hnone : a.vtick tick = none) : a.dbTryToGetVotes tick = [] := by
  unfold dbTryToGetVotes
  simp only [hnil, hnone, List.isEmpty_nil, if_true]

theorem dbTryToGetVotes_of_votes (h : dbGetTickVotes a.ticks tick ≠ []) :
    a.dbTryToGetVotes tick = dbGetTickVotes a.ticks tick := by
  unfold dbTryToGetVotes
  simp only [List.isEmpty_iff, h, if_false]

theorem dbTryGetTickVote_of_nil {full : FullTickStruct} (hnil : dbGetTickVotes a.ticks tick = [])
    (hfull : a.vtick tick = some full) :
    a.dbTryGetTickVote tick = (List.ofFn full.tv).filter (fun v => v.tick = tick) := by
  unfold dbTryGetTickVote
  simp only [hnil, hfull, List.isEmpty_nil, Bool.true_eq_false, if_false]

theorem dbTryGetTickVote_of_votes (h : dbGetTickVotes a.ticks tick ≠ []) :
    a.dbTryGetTickVote tick = dbGetTickVotes a.ticks tick := by
  unfold dbTryGetTickVote
  simp only [List.isEmpty_eq_false_iff, ne_eq, h, not_false_eq_true, if_true]

end votes

/-! ## The logs -/

/-- Every log in KeyDB has the header of its key, as `db_insert_log` is called. -/
def ReadableLogs (a : Archive) : Prop :=
  ∀ epoch logId, a.logs epoch logId ≠ none → dbGetLog a.logDB.keydb epoch logId ≠ none

/-- The record of the tick is one that the cleaner wrote. -/
def WrittenRecord (a : Archive) (tick : BitVec 32) : Prop :=
  ∀ full, a.vtick tick = some full → full.WellFormed tick

section logs

variable {a a' : Archive} {epoch logId : Nat}

/-- A log found under a key, if its header says so. -/
def readLog (epoch logId : Nat) (bytes : List Byte) : Option LogEvent :=
  dbGetLog ⟨fun _ => none, fun _ _ => some bytes⟩ epoch logId

theorem dbGetLog_eq_bind (epoch logId : Nat) (logs : Nat → Nat → Option (List Byte)) :
    dbGetLog ⟨fun _ => none, logs⟩ epoch logId = (logs epoch logId).bind (readLog epoch logId) := by
  unfold readLog dbGetLog
  dsimp only
  cases logs epoch logId with
  | none => rfl
  | some bytes => rfl

/-- With readable logs in KeyDB the read depends only on what is found first. -/
theorem dbTryGetLog_eq_bind (h : ReadableLogs a) : dbTryGetLog a.logDB epoch logId =
    ((a.logs epoch logId).or (a.kvLogs epoch logId)).bind (readLog epoch logId) := by
  have hkeydb := dbGetLog_eq_bind epoch logId a.logs
  have hkvrocks := dbGetLog_eq_bind epoch logId a.kvLogs
  unfold dbTryGetLog logDB
  dsimp only
  rw [hkeydb, hkvrocks]
  cases hlog : a.logs epoch logId with
  | none => rfl
  | some bytes =>
      have hread := h epoch logId (by rw [hlog]; simp)
      rw [show a.logDB.keydb = ⟨fun _ => none, a.logs⟩ from rfl, hkeydb, hlog] at hread
      obtain ⟨log, hread⟩ := Option.ne_none_iff_exists'.mp hread
      rw [Option.bind_some] at hread
      rw [Option.bind_some, Option.some_or, Option.bind_some, hread]

theorem lookup_log : a.lookup (.log epoch logId) =
    ((a.logs epoch logId).or (a.kvLogs epoch logId)).map .bytes := by
  rw [lookup, value, copy]
  cases a.logs epoch logId with
  | none => rfl
  | some bytes => rfl

theorem lookup_transaction (hash : List Char) :
    a.lookup (.transaction hash) = (a.dbTryGetTransaction hash).map .bytes := by
  rw [lookup, value, copy, dbTryGetTransaction]
  cases a.transactions hash with
  | none => rfl
  | some bytes => rfl

theorem map_bytes_inj {x y : Option (List Byte)} (h : x.map ItemValue.bytes = y.map .bytes) :
    x = y := by
  refine Option.map_injective (fun b b' hb => ?_) h
  exact ItemValue.bytes.inj hb

end logs

/-! ## All reads -/

/-- The ticks whose move is defined: a tick data, or 226 votes for an empty tick. -/
def Movable (a : Archive) (tick : BitVec 32) : Prop :=
  (dbGetTickData a.ticks tick).isSome = true ∨
    226 ≤ (dbGetTickVotes a.ticks tick).countP (fun v => v.transactionDigest = m256i.zero)

/-- The condition for no read to change: there is a tick data, or else a record with a zero one from
before; and all votes are there, with an epoch, or else none is and there is a record without votes
from before. -/
def Unpadded (a : Archive) (tick : BitVec 32) : Prop :=
  ((dbGetTickData a.ticks tick).isSome = true ∨
    ∃ full, a.vtick tick = some full ∧ full.td = TickData.zero) ∧
  ((∀ i : Fin NUMBER_OF_COMPUTORS, ∃ v,
      dbGetTickVote a.ticks tick (BitVec.ofNat 16 i.val) = some v ∧ v.epoch ≠ 0) ∨
    (∀ i : Fin NUMBER_OF_COMPUTORS, dbGetTickVote a.ticks tick (BitVec.ofNat 16 i.val) = none) ∧
      ∃ full, a.vtick tick = some full ∧ ∀ i, full.tv i = TickVote.zero)

section reads

variable {K : KangarooTwelve} {a : Archive} {tick : BitVec 32}

theorem readableLogs_moveTick (h : ReadableLogs a) : ReadableLogs (moveTick K a tick) := by
  intro epoch logId hheld
  obtain ⟨bytes, hbytes⟩ := Option.ne_none_iff_exists'.mp hheld
  have hvalue : (moveTick K a tick).value (.log epoch logId) = some (.bytes bytes) := by
    rw [value, hbytes]
    rfl
  have hbefore : a.value (.log epoch logId) = some (.bytes bytes) :=
    value_run_le (value_run_le (value_run_le hvalue))
  have hlog : a.logs epoch logId = some bytes := map_bytes_inj hbefore
  have hread := h epoch logId (by rw [hlog]; simp)
  rw [show a.logDB.keydb = ⟨fun _ => none, a.logs⟩ from rfl, dbGetLog_eq_bind, hlog] at hread
  rw [show (moveTick K a tick).logDB.keydb = ⟨fun _ => none, (moveTick K a tick).logs⟩ from rfl,
    dbGetLog_eq_bind, hbytes]
  exact hread

/-- The logs and transactions read as before, whatever the tick is. -/
theorem dbTryGetLog_moveTick (h : ReadableLogs a) (epoch logId : Nat) :
    dbTryGetLog (moveTick K a tick).logDB epoch logId = dbTryGetLog a.logDB epoch logId := by
  have hlookup : (moveTick K a tick).lookup (.log epoch logId) = a.lookup (.log epoch logId) :=
    lookup_moveTick K a tick trivial
  rw [lookup_log, lookup_log] at hlookup
  rw [dbTryGetLog_eq_bind (readableLogs_moveTick h), dbTryGetLog_eq_bind h, map_bytes_inj hlookup]

theorem dbTryGetTransaction_moveTick (hash : List Char) :
    (moveTick K a tick).dbTryGetTransaction hash = a.dbTryGetTransaction hash := by
  have hlookup : (moveTick K a tick).lookup (.transaction hash) = a.lookup (.transaction hash) :=
    lookup_moveTick K a tick trivial
  rw [lookup_transaction, lookup_transaction] at hlookup
  exact map_bytes_inj hlookup

theorem dbTryGetLogRanges_moveTick (hw : WritesVtick a.ticks (allSucceed.compress tick) tick) :
    (moveTick K a tick).dbTryGetLogRanges true true tick = a.dbTryGetLogRanges true true tick := by
  have hcompressed := compressed_run hw
  have hmoved := moved_moveTick K a tick
  change ((moveTick K a tick).logRanges tick).or ((moveTick K a tick).cLogRange tick) = _
  rw [hmoved.cLogRange, hcompressed.cLogRange]
  rcases hmoved.ranges with ⟨hnone, -⟩ | ⟨hsame, -⟩
  · rw [hnone, Option.none_or]
  · rw [hsame, hcompressed.logRanges]
    change (a.logRanges tick).or ((a.logRanges tick).or (a.cLogRange tick)) =
      (a.logRanges tick).or (a.cLogRange tick)
    rw [← Option.or_assoc, Option.or_self]

theorem dbTryGetLogRangeForTick_moveTick
    (hw : WritesVtick a.ticks (allSucceed.compress tick) tick) :
    (moveTick K a tick).dbTryGetLogRangeForTick true true tick =
      a.dbTryGetLogRangeForTick true true tick := by
  have hcompressed := compressed_run hw
  have hmoved := moved_moveTick K a tick
  change (((moveTick K a tick).tickLogRange tick).or ((moveTick K a tick).kvTickLogRange tick)).map
    normalRange = _
  rw [hmoved.kvTickLogRange, hcompressed.kvTickLogRange]
  have hidem : (a.dbTryGetLogRangeForTick true true tick).map normalRange =
      a.dbTryGetLogRangeForTick true true tick := by
    rw [dbTryGetLogRangeForTick, Option.map_map]
    exact congrArg (fun f => Option.map f _) (funext normalRange_idem)
  rcases hmoved.ranges with ⟨-, hnone⟩ | ⟨-, hsame⟩
  · rw [hnone, Option.none_or, hidem]
  · rw [hsame, hcompressed.tickLogRange]
    cases hrange : a.tickLogRange tick with
    | none => rw [Option.none_or, hidem]
    | some range =>
        rw [Option.some_or, dbTryGetLogRangeForTick, answered, if_pos rfl, hrange, Option.some_or]

/-- The record of the tick after the move. -/
def movedRecord (a : Archive) (tick : BitVec 32) : Option FullTickStruct :=
  if WritesVtick a.ticks (allSucceed.compress tick) tick then
    some (fullRead a.ticks (allSucceed.compress tick) tick)
  else a.vtick tick

theorem vtick_moveTick : (moveTick K a tick).vtick tick = a.movedRecord tick := by
  rw [(moved_moveTick K a tick).vtick, (run_compress a (allSucceed.compress tick) tick).2, movedRecord]
  split
  · exact Function.update_self _ _ _
  · rfl

theorem dbTryGetTickData_moveTick :
    (moveTick K a tick).dbTryGetTickData true true tick =
      (a.movedRecord tick).map FullTickStruct.td := by
  change (dbGetTickData (moveTick K a tick).ticks tick).or
    (((moveTick K a tick).vtick tick).map FullTickStruct.td) = _
  rw [(moved_moveTick K a tick).noData, Option.none_or, vtick_moveTick]

theorem dbGetTickVotes_moveTick : dbGetTickVotes (moveTick K a tick).ticks tick = [] :=
  dbGetTickVotes_eq_nil.mpr (moved_moveTick K a tick).noVotes

theorem dbTryToGetVotes_moveTick {full : FullTickStruct} (h : a.movedRecord tick = some full) :
    (moveTick K a tick).dbTryToGetVotes tick = List.ofFn full.tv :=
  dbTryToGetVotes_of_nil dbGetTickVotes_moveTick (vtick_moveTick.trans h)

theorem dbTryGetTickVote_moveTick {full : FullTickStruct} (h : a.movedRecord tick = some full) :
    (moveTick K a tick).dbTryGetTickVote tick =
      (List.ofFn full.tv).filter (fun v => v.tick = tick) :=
  dbTryGetTickVote_of_nil dbGetTickVotes_moveTick (vtick_moveTick.trans h)

/-- Votes that read the same are all there, or none is. -/
theorem votes_of_sameReads (htick : tick ≠ 0) (hwritten : WrittenRecord a tick)
    (hmovable : a.Movable tick)
    (h : (moveTick K a tick).dbTryToGetVotes tick = a.dbTryToGetVotes tick) :
    (∀ i : Fin NUMBER_OF_COMPUTORS, ∃ v,
      dbGetTickVote a.ticks tick (BitVec.ofNat 16 i.val) = some v ∧ v.epoch ≠ 0) ∨
    (∀ i : Fin NUMBER_OF_COMPUTORS, dbGetTickVote a.ticks tick (BitVec.ofNat 16 i.val) = none) ∧
      ∃ full, a.vtick tick = some full ∧ ∀ i, full.tv i = TickVote.zero := by
  -- a vote of this tick is not the zero vote
  have hnonzero : ∀ i v, dbGetTickVote a.ticks tick i = some v → v ≠ TickVote.zero := by
    intro i v hv hzero
    have hkey := (a.ticks.vote_key hv).1
    rw [hzero] at hkey
    exact htick hkey.symm
  by_cases hnil : dbGetTickVotes a.ticks tick = []
  · right
    have hnone := dbGetTickVotes_eq_nil.mp hnil
    refine ⟨hnone, ?_⟩
    -- a tick without votes is moved for its tick data, with a record of zero votes
    have hw : WritesVtick a.ticks (allSucceed.compress tick) tick := by
      rw [writesVtick_allSucceed]
      rcases hmovable with htd | hcount
      · exact Or.inl htd
      · rw [hnil] at hcount
        exact absurd hcount (by decide)
    have hrecord : a.movedRecord tick = some (fullRead a.ticks (allSucceed.compress tick) tick) :=
      if_pos hw
    rw [dbTryToGetVotes_moveTick hrecord, fullRead_tv_of_nil hnil] at h
    cases hfull : a.vtick tick with
    | none =>
        rw [dbTryToGetVotes_of_none hnil hfull] at h
        exact absurd h (ofFn_ne_nil _)
    | some full =>
        rw [dbTryToGetVotes_of_nil hnil hfull] at h
        exact ⟨full, rfl, fun i => (congrFun (List.ofFn_injective h) i).symm⟩
  · left
    rw [dbTryToGetVotes_of_votes hnil] at h
    cases hfull : a.movedRecord tick with
    | none =>
        rw [dbTryToGetVotes_of_none dbGetTickVotes_moveTick (vtick_moveTick.trans hfull)] at h
        exact absurd h.symm hnil
    | some full =>
        rw [dbTryToGetVotes_moveTick hfull] at h
        have hall := dbGetTickVotes_eq_ofFn.mp h.symm
        refine fun i => ⟨full.tv i, hall i, ?_⟩
        have hi := hnonzero _ _ (hall i)
        by_cases hw : WritesVtick a.ticks (allSucceed.compress tick) tick
        · rw [movedRecord, if_pos hw] at hfull
          have hentry := (fullRead_tv_eq_iff (o := allSucceed.compress tick) (hall i)).mp
            (by rw [Option.some.inj hfull])
          exact (hentry.resolve_right hi).2
        · rw [movedRecord, if_neg hw] at hfull
          exact ((hwritten full hfull i).resolve_left hi).2.2

theorem writesVtick_of_unpadded (hmovable : a.Movable tick)
    (hvotes : (∀ i : Fin NUMBER_OF_COMPUTORS, ∃ v,
      dbGetTickVote a.ticks tick (BitVec.ofNat 16 i.val) = some v ∧ v.epoch ≠ 0) ∨
    (∀ i : Fin NUMBER_OF_COMPUTORS, dbGetTickVote a.ticks tick (BitVec.ofNat 16 i.val) = none)) :
    WritesVtick a.ticks (allSucceed.compress tick) tick := by
  rw [writesVtick_allSucceed]
  rcases hmovable with htd | hcount
  · exact Or.inl htd
  · right
    rcases hvotes with hall | hnone
    · rw [emptyVotes_eq]
      · exact hcount
      · intro v hv
        obtain ⟨i, -, hi⟩ := List.mem_filterMap.mp hv
        obtain ⟨w, hw, hepoch⟩ := hall i
        rw [hw] at hi
        rw [← Option.some.inj hi]
        exact hepoch
    · rw [dbGetTickVotes_eq_nil.mpr hnone] at hcount
      exact absurd hcount (by decide)

/-- Votes that are all there are the entries of the new record. -/
theorem fullRead_tv_of_all {i : Fin NUMBER_OF_COMPUTORS}
    (h : ∃ v, dbGetTickVote a.ticks tick (BitVec.ofNat 16 i.val) = some v ∧ v.epoch ≠ 0) :
    dbGetTickVote a.ticks tick (BitVec.ofNat 16 i.val) =
      some ((fullRead a.ticks (allSucceed.compress tick) tick).tv i) := by
  obtain ⟨v, hv, hepoch⟩ := h
  have hbatch : i.val < VOTES_BATCH_SIZE * (allSucceed.compress tick).mget :=
    lt_of_lt_of_le i.isLt (show 676 ≤ 128 * 6 by decide)
  rw [hv, (fullRead_tv_eq_iff hv).mpr (Or.inl ⟨hbatch, hepoch⟩)]

/-- Under the condition both reads of the votes give the same. -/
theorem votes_moveTick (hrecord : a.movedRecord tick =
      some (fullRead a.ticks (allSucceed.compress tick) tick))
    (hvotes : (∀ i : Fin NUMBER_OF_COMPUTORS, ∃ v,
      dbGetTickVote a.ticks tick (BitVec.ofNat 16 i.val) = some v ∧ v.epoch ≠ 0) ∨
    (∀ i : Fin NUMBER_OF_COMPUTORS, dbGetTickVote a.ticks tick (BitVec.ofNat 16 i.val) = none) ∧
      ∃ full, a.vtick tick = some full ∧ ∀ i, full.tv i = TickVote.zero) :
    (moveTick K a tick).dbTryToGetVotes tick = a.dbTryToGetVotes tick ∧
      (moveTick K a tick).dbTryGetTickVote tick = a.dbTryGetTickVote tick := by
  rw [dbTryToGetVotes_moveTick hrecord, dbTryGetTickVote_moveTick hrecord]
  rcases hvotes with hall | ⟨hnone, full, hfull, hzero⟩
  · have hlist := dbGetTickVotes_eq_ofFn.mpr (fun i => fullRead_tv_of_all (hall i))
    have hne : dbGetTickVotes a.ticks tick ≠ [] := by
      rw [hlist]
      exact ofFn_ne_nil _
    rw [dbTryToGetVotes_of_votes hne, dbTryGetTickVote_of_votes hne, ← hlist]
    refine ⟨rfl, List.filter_eq_self.mpr (fun v hv => ?_)⟩
    exact decide_eq_true (mem_dbGetTickVotes hv).1
  · have hnil := dbGetTickVotes_eq_nil.mpr hnone
    have htv : full.tv = (fullRead a.ticks (allSucceed.compress tick) tick).tv := by
      rw [fullRead_tv_of_nil hnil]
      exact funext hzero
    rw [dbTryToGetVotes_of_nil hnil hfull, dbTryGetTickVote_of_nil hnil hfull, htv]
    exact ⟨rfl, rfl⟩

theorem fullRead_td_allSucceed : (fullRead a.ticks (allSucceed.compress tick) tick).td =
    (dbGetTickData a.ticks tick).getD TickData.zero := rfl

theorem dbTryGetTickData_eq_or : a.dbTryGetTickData true true tick =
    (dbGetTickData a.ticks tick).or ((a.vtick tick).map FullTickStruct.td) := rfl

end reads

/-- Whether a move changes no read, for a tick that is moved: exactly if the record needs no zero
bytes for a missing tick data or vote that were not there before. -/
theorem sameReads_iff (K : KangarooTwelve) (a : Archive) (tick : BitVec 32) (htick : tick ≠ 0)
    (hwritten : a.WrittenRecord tick) (hlogs : a.ReadableLogs) (hmovable : a.Movable tick) :
    SameReads a (moveTick K a tick) tick ↔ a.Unpadded tick := by
  constructor
  · intro h
    have hvotes := votes_of_sameReads htick hwritten hmovable h.votes
    have hw := writesVtick_of_unpadded hmovable (hvotes.imp id And.left)
    refine ⟨?_, hvotes⟩
    have htd := h.tickData
    rw [dbTryGetTickData_moveTick, movedRecord, if_pos hw, Option.map_some, fullRead_td_allSucceed,
      dbTryGetTickData_eq_or] at htd
    cases hdata : dbGetTickData a.ticks tick with
    | some td => exact Or.inl rfl
    | none =>
        rw [hdata, Option.none_or, Option.getD_none] at htd
        obtain ⟨full, hfull, hzero⟩ := Option.map_eq_some_iff.mp htd.symm
        exact Or.inr ⟨full, hfull, hzero⟩
  · rintro ⟨htd, hvotes⟩
    have hw := writesVtick_of_unpadded hmovable (hvotes.imp id And.left)
    have hrecord : a.movedRecord tick = some (fullRead a.ticks (allSucceed.compress tick) tick) :=
      if_pos hw
    obtain ⟨hread, hreadTick⟩ := votes_moveTick hrecord hvotes
    refine ⟨?_, hread, hreadTick, dbTryGetLogRanges_moveTick hw, dbTryGetLogRangeForTick_moveTick hw,
      dbTryGetLog_moveTick hlogs, dbTryGetTransaction_moveTick⟩
    rw [dbTryGetTickData_moveTick, hrecord, Option.map_some, fullRead_td_allSucceed,
      dbTryGetTickData_eq_or]
    cases hdata : dbGetTickData a.ticks tick with
    | some td => rfl
    | none =>
        rw [hdata] at htd
        obtain ⟨full, hfull, hzero⟩ := htd.resolve_left (by simp)
        rw [hfull, Option.map_some, hzero]
        rfl

end Archive

/-- A vote of tick 11. -/
def voteOfTick11 (computorIndex : BitVec 16) : TickVote :=
  { TickVote.zero with computorIndex, epoch := 1, tick := 11 }

theorem voteOfTick11_key {tick : BitVec 32} {i : BitVec 16} {v : TickVote}
    (h : Cell.read? (if tick = 11 then some (.sized (voteOfTick11 i)) else none) = some v) :
    v.tick = tick ∧ v.computorIndex = i := by
  split at h
  · next htick =>
      rw [← Option.some.inj h, htick]
      exact ⟨rfl, rfl⟩
  · cases h

/-- The tick data of tick 11 in epoch 1, with one transaction. -/
def dataOfTick11 : TickData :=
  { TickData.zero with
    epoch := 1
    tick := 11
    transactionDigests := fun i => if i.val = 0 then 1 else 0 }

/-- The log 10, of tick 11. -/
def logInTick11 : LogEvent := LogEvent.pack 1 11 SPECTRUM_STATS 10 0 (List.replicate 8 0)

/-- The key of the transaction of tick 11. -/
def hashOfTick11 : List Char := getIdentityFromPublicKey constantHash 1 true

/-- Tick 11 with its tick data, all votes, its transaction and the log of it. -/
def archiveWithVotes : Archive :=
  { emptyArchive with
    ticks := { dbInsertTickData emptyArchive.ticks dataOfTick11 with
      tickVote := fun t i => if t = 11 then some (.sized (voteOfTick11 i)) else none
      vote_key := voteOfTick11_key }
    logRanges := fun t => if t = 11 then some (oneRange 10 1) else none
    tickLogRange := fun t => if t = 11 then some (10, 1) else none
    transactions := fun hash => if hash = hashOfTick11 then some (List.replicate 144 0) else none
    logs := fun epoch logId =>
      if epoch = 1 ∧ logId = 10 then some logInTick11.content else none }

/-- A complete tick reads the same after the move, its log and its transaction as well. -/
theorem sameReads_iff_at_complete_tick :
    let moved := Archive.moveTick constantHash archiveWithVotes 11
    archiveWithVotes.Unpadded 11 ∧ Archive.SameReads archiveWithVotes moved 11 ∧
      dbTryGetLog moved.logDB 1 10 = some logInTick11 ∧
      moved.dbTryGetTransaction hashOfTick11 = some (List.replicate 144 0) := by
  intro moved
  have hvotes : ∀ i : Fin NUMBER_OF_COMPUTORS, ∃ v,
      dbGetTickVote archiveWithVotes.ticks 11 (BitVec.ofNat 16 i.val) = some v ∧ v.epoch ≠ 0 :=
    fun i => ⟨voteOfTick11 (BitVec.ofNat 16 i.val), rfl, show (1 : BitVec 16) ≠ 0 by decide⟩
  have hunpadded : archiveWithVotes.Unpadded 11 := ⟨Or.inl rfl, Or.inl hvotes⟩
  have hlogs : archiveWithVotes.ReadableLogs := by
    intro epoch logId hheld
    have hkey : epoch = 1 ∧ logId = 10 := by
      by_contra hnot
      exact hheld (if_neg hnot)
    obtain ⟨rfl, rfl⟩ := hkey
    decide
  have hsame : Archive.SameReads archiveWithVotes moved 11 :=
    (Archive.sameReads_iff constantHash archiveWithVotes 11 (by decide)
      (fun full hfull => by cases hfull) hlogs (Or.inl rfl)).mpr hunpadded
  refine ⟨hunpadded, hsame, ?_, ?_⟩
  · rw [hsame.log 1 10]
    decide
  · have hstored : archiveWithVotes.transactions hashOfTick11 = some (List.replicate 144 0) := by
      change (if hashOfTick11 = hashOfTick11 then _ else none) = _
      exact if_pos rfl
    rw [hsame.transaction hashOfTick11, Archive.dbTryGetTransaction, hstored, Option.some_or]

/-- Tick 11 with its tick data and the vote of computor 3. -/
def archiveWithOneVote : Archive :=
  { archiveOfTick11 with ticks := dbInsertTickVote archiveOfTick11.ticks (voteOfTick11 3) }

/-- One vote before the move, 676 after it. -/
theorem sameReads_fails_with_one_vote :
    archiveWithOneVote.Movable 11 ∧
    (archiveWithOneVote.dbTryToGetVotes 11).length = 1 ∧
    ((Archive.moveTick constantHash archiveWithOneVote 11).dbTryToGetVotes 11).length = 676 ∧
    ¬ Archive.SameReads archiveWithOneVote
      (Archive.moveTick constantHash archiveWithOneVote 11) 11 := by
  have hone : (dbGetTickVotes archiveWithOneVote.ticks 11).length = 1 := by decide +kernel
  have hne : dbGetTickVotes archiveWithOneVote.ticks 11 ≠ [] := by
    intro hnil
    rw [hnil] at hone
    cases hone
  have hbefore := Archive.dbTryToGetVotes_of_votes hne
  have hw : WritesVtick archiveWithOneVote.ticks (allSucceed.compress 11) 11 :=
    Archive.writesVtick_allSucceed.mpr (Or.inl rfl)
  have hrecord : archiveWithOneVote.movedRecord 11 =
      some (fullRead archiveWithOneVote.ticks (allSucceed.compress 11) 11) := if_pos hw
  have hafter : ((Archive.moveTick constantHash archiveWithOneVote 11).dbTryToGetVotes 11).length =
      676 := by
    rw [Archive.dbTryToGetVotes_moveTick hrecord, List.length_ofFn]
    rfl
  refine ⟨Or.inl rfl, by rw [hbefore, hone], hafter, fun h => ?_⟩
  rw [h.votes, hbefore, hone] at hafter
  cases hafter

end QubicBob
