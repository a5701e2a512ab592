import QubicBob.Lib.Loop
import QubicBob.Archive.Reads

set_option autoImplicit false

/-! # What cleaning leaves in KeyDB

`cleanRawTick` with transactions, tick by tick. Where the transactions are not kept in Kvrocks
nothing is copied, and a key that it leaves in KeyDB stays there for good.

What is unlinked for a tick depends on its tick data and its log ranges alone (`Cleans`), and these
are found in KeyDB or Kvrocks. Cleaning another tick takes away neither, so each tick of the
interval is cleaned as if it were the first, and a key is left exactly when it is unlinked for none
of them. The rest compares two lists of keys, those of a tick and those that are unlinked for it
(`Removable`). For a tick without tick data or without log ranges `cleanTransactionLogs` returns at
once. Otherwise the logs of the five special events, of slots without a transaction and of a range
that begins with the id 0 are left, and the votes above the last computor.
-/

namespace QubicBob

/-- Where the transactions are kept. -/
inductive TxStorageMode where
  | LastNTick
  | Kvrocks
  | Free

/-! ## Keys -/

/-- A key of KeyDB. -/
inductive KeyDBKey where
  | tickData (tick : BitVec 32)
  | tickVote (tick : BitVec 32) (computorIndex : BitVec 16)
  | logRanges (tick : BitVec 32)
  | tickLogRange (tick : BitVec 32)
  | transaction (hash : List Char)
  | log (epoch logId : Nat)

def Command.UnlinksKey : Command → KeyDBKey → Prop
  | .unlinkTickData tick, .tickData tick' => tick' = tick
  | .unlinkTickVote tick, .tickVote tick' i => tick' = tick ∧ i.toNat < NUMBER_OF_COMPUTORS
  | .unlinkLogRanges tick, .logRanges tick' => tick' = tick
  | .unlinkTickLogRange tick, .tickLogRange tick' => tick' = tick
  | .unlinkTransaction hash, .transaction hash' => hash' = hash
  | .unlinkLog epoch logId, .log epoch' logId' => epoch' = epoch ∧ logId' = logId
  | _, _ => False

/-- Whether a command leaves the key `log_ranges:<tick>`. -/
def Command.sparesLogRanges : Command → BitVec 32 → Bool
  | .unlinkLogRanges tick, tick' => tick' != tick
  | _, _ => true

theorem Archive.logRanges_exec_of_none {a : Archive} {tick : BitVec 32}
    (h : a.logRanges tick = none) (c : Command) : (a.exec c).logRanges tick = none := by
  cases c with
  | unlinkLogRanges tick' =>
      by_cases ht : tick = tick'
      · simp [Archive.exec, ht]
      · simp [Archive.exec, Function.update_of_ne ht, h]
  | _ => exact h

/-- The databases, with the keys `log_ranges:<tick>` whose value has another size. A reader finds
nothing there. -/
structure KeySpace where
  archive : Archive
  otherSize : BitVec 32 → Bool
  no_ranges : ∀ {tick}, otherSize tick = true → archive.logRanges tick = none

namespace KeySpace

theorem no_ranges_exec {k : KeySpace} {c : Command} {tick : BitVec 32}
    (h : (k.otherSize tick && c.sparesLogRanges tick) = true) :
    (k.archive.exec c).logRanges tick = none :=
  Archive.logRanges_exec_of_none (k.no_ranges (Bool.and_eq_true_iff.mp h).1) c

def exec (k : KeySpace) (c : Command) : KeySpace where
  archive := k.archive.exec c
  otherSize tick := k.otherSize tick && c.sparesLogRanges tick
  no_ranges := no_ranges_exec

/-- KeyDB has a value under the key. -/
def Holds (k : KeySpace) : KeyDBKey → Prop
  | .tickData tick => k.archive.ticks.tickData tick ≠ none
  | .tickVote tick i => k.archive.ticks.tickVote tick i ≠ none
  | .logRanges tick => k.archive.logRanges tick ≠ none ∨ k.otherSize tick = true
  | .tickLogRange tick => k.archive.tickLogRange tick ≠ none
  | .transaction hash => k.archive.transactions hash ≠ none
  | .log epoch logId => k.archive.logs epoch logId ≠ none

section keys

variable {k : KeySpace} {c : Command} {cs : List Command} {key : KeyDBKey}

/-- A command removes the keys it unlinks and leaves the others. -/
theorem holds_exec : (k.exec c).Holds key ↔ k.Holds key ∧ ¬ c.UnlinksKey key := by
  have hother : ¬ c.UnlinksKey key → ((k.exec c).Holds key ↔ k.Holds key) →
      ((k.exec c).Holds key ↔ k.Holds key ∧ ¬ c.UnlinksKey key) :=
    fun hnot h => h.trans (and_iff_left hnot).symm
  cases key with
  | tickData tick =>
      cases c with
      | unlinkTickData tick' =>
          by_cases ht : tick = tick'
          · simp [Holds, exec, Archive.exec, dbDeleteTickData, Command.UnlinksKey, ht]
          · simp [Holds, exec, Archive.exec, dbDeleteTickData, Command.UnlinksKey, ht]
      | _ => exact hother id Iff.rfl
  | tickVote tick i =>
      cases c with
      | unlinkTickVote tick' =>
          by_cases ht : tick = tick' ∧ i.toNat < NUMBER_OF_COMPUTORS
          · simp [Holds, exec, Archive.exec, dbDeleteTickVote, Command.UnlinksKey, ht]
          · simp only [Holds, exec, Archive.exec, dbDeleteTickVote, Command.UnlinksKey, if_neg ht]
            exact (and_iff_left ht).symm
      | _ => exact hother id Iff.rfl
  | logRanges tick =>
      cases c with
      | unlinkLogRanges tick' =>
          by_cases ht : tick = tick'
          · simp [Holds, exec, Archive.exec, Command.sparesLogRanges, Command.UnlinksKey, ht]
          · simp [Holds, exec, Archive.exec, Command.sparesLogRanges, Command.UnlinksKey, ht]
      | _ =>
          refine hother id ?_
          simp only [Holds, exec, Command.sparesLogRanges, Bool.and_true]
          exact Iff.rfl
  | tickLogRange tick =>
      cases c with
      | unlinkTickLogRange tick' =>
          by_cases ht : tick = tick'
          · simp [Holds, exec, Archive.exec, Command.UnlinksKey, ht]
          · simp [Holds, exec, Archive.exec, Command.UnlinksKey, ht]
      | _ => exact hother id Iff.rfl
  | transaction hash =>
      cases c with
      | unlinkTransaction hash' =>
          by_cases hh : hash = hash'
          · simp [Holds, exec, Archive.exec, Command.UnlinksKey, hh]
          · simp [Holds, exec, Archive.exec, Command.UnlinksKey, hh]
      | _ => exact hother id Iff.rfl
  | log epoch logId =>
      cases c with
      | unlinkLog epoch' logId' =>
          by_cases he : epoch = epoch'
          · by_cases hl : logId = logId'
            · simp [Holds, exec, Archive.exec, Command.UnlinksKey, he, hl]
            · simp [Holds, exec, Archive.exec, Command.UnlinksKey, he, hl]
          · simp [Holds, exec, Archive.exec, Command.UnlinksKey, he]
      | _ => exact hother id Iff.rfl

theorem holds_run :
    (Runs.run exec k cs).Holds key ↔ k.Holds key ∧ ∀ c ∈ cs, ¬ c.UnlinksKey key := by
  induction cs generalizing k with
  | nil => simp
  | cons c cs ih => rw [Runs.run_cons, ih, holds_exec, List.forall_mem_cons, and_assoc]

theorem archive_run : (Runs.run exec k cs).archive = Runs.run Archive.exec k.archive cs := by
  induction cs generalizing k with
  | nil => rfl
  | cons c cs ih =>
      rw [Runs.run_cons, Runs.run_cons, ih]
      rfl

end keys

end KeySpace

/-! ## Commands of one tick -/

namespace Archive

/-- The copies of one transaction and its logs: none but in the mode `Kvrocks`. -/
def copiesIn (mode : TxStorageMode) (K : KangarooTwelve) (td : TickData) (lr : LogRangesPerTxInTick)
    (a : Archive) (i : Fin NUMBER_OF_TRANSACTIONS_PER_TICK) : List Command :=
  match mode with
  | .Kvrocks => copyCommands K (allSucceed.clean td.tick) td lr a i
  | .LastNTick | .Free => []

/-- One round of `cleanTransactionAndLogsAndSaveToDisk`. -/
def cleanTransactionIn (mode : TxStorageMode) (K : KangarooTwelve) (td : TickData)
    (lr : LogRangesPerTxInTick) (a : Archive) (i : Fin NUMBER_OF_TRANSACTIONS_PER_TICK) :
    List Command :=
  if td.transactionDigests i = m256i.zero then []
  else copiesIn mode K td lr a i ++ deleteCommands K (allSucceed.clean td.tick) td lr i

theorem cleanTransactionIn_kvrocks (K : KangarooTwelve) (td : TickData)
    (lr : LogRangesPerTxInTick) :
    cleanTransactionIn .Kvrocks K td lr = cleanTransaction K (allSucceed.clean td.tick) td lr := by
  funext a i
  by_cases hzero : td.transactionDigests i = m256i.zero
  · rw [cleanTransactionIn, cleanTransaction, if_pos hzero, if_pos hzero]
  · rw [cleanTransactionIn, if_neg hzero, cleanTransaction_eq hzero]
    rfl

/-- `cleanTransactionLogs` in every mode, with no command that fails. -/
def cleanTransactionLogsIn (mode : TxStorageMode) (K : KangarooTwelve) (a : Archive)
    (tick : BitVec 32) : List Command :=
  match a.dbTryGetTickData true true tick, a.dbTryGetLogRanges true true tick with
  | some td, some lr =>
      dbDeleteLogRanges (allSucceed.clean tick) tick ++
        Runs.script exec (cleanTransactionIn mode K td lr)
          (Runs.run exec a (dbDeleteLogRanges (allSucceed.clean tick) tick))
          (List.finRange NUMBER_OF_TRANSACTIONS_PER_TICK)
  | _, _ => []

theorem cleanTransactionLogsIn_kvrocks (K : KangarooTwelve) (a : Archive) (tick : BitVec 32) :
    cleanTransactionLogsIn .Kvrocks K a tick =
      cleanTransactionLogs K (allSucceed.clean tick) a tick := by
  simp only [cleanTransactionLogsIn, cleanTransactionIn_kvrocks]
  rfl

/-- The body of the loop of `cleanRawTick`. -/
def rawTickCommands (mode : TxStorageMode) (K : KangarooTwelve) (withTransactions : Bool)
    (a : Archive) (tick : BitVec 32) : List Command :=
  (if withTransactions then a.cleanTransactionLogsIn mode K tick else []) ++
    cleanRawTick true true tick

/-- What `cleanTransactionLogs` goes by: the tick data and the log ranges, from KeyDB or Kvrocks. -/
def Recorded (a : Archive) (tick : BitVec 32) (td : TickData) (lr : LogRangesPerTxInTick) : Prop :=
  a.dbTryGetTickData true true tick = some td ∧ a.dbTryGetLogRanges true true tick = some lr

/-- The keys that are unlinked for a tick. -/
inductive Cleans (K : KangarooTwelve) (a : Archive) (tick : BitVec 32) : KeyDBKey → Prop
  | tickData : Cleans K a tick (.tickData tick)
  | tickVote {i : BitVec 16} (hi : i.toNat < NUMBER_OF_COMPUTORS) :
      Cleans K a tick (.tickVote tick i)
  | logRanges {td : TickData} {lr : LogRangesPerTxInTick} (h : a.Recorded tick td lr) :
      Cleans K a tick (.logRanges tick)
  | tickLogRange {td : TickData} {lr : LogRangesPerTxInTick} (h : a.Recorded tick td lr) :
      Cleans K a tick (.tickLogRange tick)
  | transaction {td : TickData} {lr : LogRangesPerTxInTick}
      {i : Fin NUMBER_OF_TRANSACTIONS_PER_TICK} (h : a.Recorded tick td lr)
      (hi : td.transactionDigests i ≠ m256i.zero) : Cleans K a tick (.transaction (hashOf K td i))
  | log {td : TickData} {lr : LogRangesPerTxInTick} {i : Fin NUMBER_OF_TRANSACTIONS_PER_TICK}
      {logId : Nat} (h : a.Recorded tick td lr) (hi : td.transactionDigests i ≠ m256i.zero)
      (hid : logId ∈ lr.logIds i) : Cleans K a tick (.log td.epoch.toNat logId)

section commands

variable {mode : TxStorageMode} {K : KangarooTwelve} {a : Archive} {tick : BitVec 32}
  {td : TickData} {lr : LogRangesPerTxInTick} {key : KeyDBKey}

theorem takeWhile_true {α : Type} (l : List α) : l.takeWhile (fun _ => true) = l := by
  induction l with
  | nil => rfl
  | cons x l ih => rw [List.takeWhile_cons_of_pos rfl, ih]

/-- What the deletions of one transaction unlink. -/
theorem unlinks_deleteCommands {i : Fin NUMBER_OF_TRANSACTIONS_PER_TICK} :
    (∃ c ∈ deleteCommands K (allSucceed.clean tick) td lr i, c.UnlinksKey key) ↔
      key = .transaction (hashOf K td i) ∨
        ∃ logId ∈ lr.logIds i, key = .log td.epoch.toNat logId := by
  have hcommands : deleteCommands K (allSucceed.clean tick) td lr i =
      (lr.logIds i).map (.unlinkLog td.epoch.toNat) ++ [.unlinkTransaction (hashOf K td i)] := by
    rw [deleteCommands, dbDeleteLogs]
    exact congrArg (fun ids => List.map _ ids ++ _) (takeWhile_true (lr.logIds i))
  rw [hcommands]
  simp only [List.mem_append, or_and_right, exists_or, List.mem_map, List.mem_singleton,
    exists_eq_left]
  constructor
  · rintro (⟨c, ⟨logId, hid, rfl⟩, hkey⟩ | hkey)
    · cases key with
      | log epoch logId' =>
          obtain ⟨rfl, rfl⟩ := hkey
          exact .inr ⟨logId', hid, rfl⟩
      | _ => exact absurd hkey id
    · cases key with
      | transaction hash =>
          have hhash : hash = hashOf K td i := hkey
          exact .inl (by rw [hhash])
      | _ => exact absurd hkey id
  · rintro (rfl | ⟨logId, hid, rfl⟩)
    · exact .inr rfl
    · exact .inl ⟨.unlinkLog td.epoch.toNat logId, ⟨logId, hid, rfl⟩, rfl, rfl⟩

theorem not_unlinksKey_copiesIn {i : Fin NUMBER_OF_TRANSACTIONS_PER_TICK} {c : Command}
    (hc : c ∈ copiesIn mode K td lr a i) : ¬ c.UnlinksKey key := by
  cases mode with
  | Kvrocks =>
      rcases mem_copyCommands.mp hc with ⟨value, -, -, -, rfl⟩ | ⟨logId, -, value, -, -, rfl⟩
      · exact id
      · exact id
  | LastNTick => cases hc
  | Free => cases hc

/-- The mode makes no difference to what is unlinked. -/
theorem unlinks_cleanTransactionIn (a : Archive) (i : Fin NUMBER_OF_TRANSACTIONS_PER_TICK) :
    (∃ c ∈ cleanTransactionIn mode K td lr a i, c.UnlinksKey key) ↔
      td.transactionDigests i ≠ m256i.zero ∧ (key = .transaction (hashOf K td i) ∨
        ∃ logId ∈ lr.logIds i, key = .log td.epoch.toNat logId) := by
  by_cases hzero : td.transactionDigests i = m256i.zero
  · simp [cleanTransactionIn, hzero]
  · have hdelete :
        (∃ c ∈ deleteCommands K (allSucceed.clean td.tick) td lr i, c.UnlinksKey key) ↔ _ :=
      unlinks_deleteCommands
    rw [cleanTransactionIn, if_neg hzero, and_iff_right hzero, ← hdelete]
    constructor
    · rintro ⟨c, hc, hkey⟩
      rcases List.mem_append.mp hc with hc | hc
      · exact absurd hkey (not_unlinksKey_copiesIn hc)
      · exact ⟨c, hc, hkey⟩
    · rintro ⟨c, hc, hkey⟩
      exact ⟨c, List.mem_append_right _ hc, hkey⟩

theorem unlinks_dbDeleteLogRanges :
    (∃ c ∈ dbDeleteLogRanges (allSucceed.clean tick) tick, c.UnlinksKey key) ↔
      key = .logRanges tick ∨ key = .tickLogRange tick := by
  have hcommands : dbDeleteLogRanges (allSucceed.clean tick) tick =
      [.unlinkLogRanges tick, .unlinkTickLogRange tick] := rfl
  rw [hcommands]
  cases key with
  | logRanges tick' => simp [Command.UnlinksKey]
  | tickLogRange tick' => simp [Command.UnlinksKey]
  | _ => simp [Command.UnlinksKey]

theorem unlinks_cleanRawTick : (∃ c ∈ cleanRawTick true true tick, c.UnlinksKey key) ↔
    key = .tickData tick ∨
      ∃ i : BitVec 16, i.toNat < NUMBER_OF_COMPUTORS ∧ key = .tickVote tick i := by
  have hcommands : cleanRawTick true true tick = [.unlinkTickData tick, .unlinkTickVote tick] := rfl
  rw [hcommands]
  cases key with
  | tickData tick' => simp [Command.UnlinksKey]
  | tickVote tick' i => simp [Command.UnlinksKey, and_comm]
  | _ => simp [Command.UnlinksKey]

theorem unlinks_cleanTransactionLogsIn :
    (∃ c ∈ cleanTransactionLogsIn mode K a tick, c.UnlinksKey key) ↔
      ∃ td lr, a.Recorded tick td lr ∧ (key = .logRanges tick ∨ key = .tickLogRange tick ∨
        ∃ i, td.transactionDigests i ≠ m256i.zero ∧ (key = .transaction (hashOf K td i) ∨
          ∃ logId ∈ lr.logIds i, key = .log td.epoch.toNat logId)) := by
  unfold cleanTransactionLogsIn Recorded
  split
  · next td lr htd hlr =>
      simp only [List.mem_append, or_and_right, exists_or, unlinks_dbDeleteLogRanges,
        Runs.exists_mem_script unlinks_cleanTransactionIn, List.mem_finRange, true_and, htd, hlr,
        Option.some.injEq]
      constructor
      · rintro ((hkey | hkey) | hkey)
        · exact ⟨td, lr, ⟨rfl, rfl⟩, .inl hkey⟩
        · exact ⟨td, lr, ⟨rfl, rfl⟩, .inr (.inl hkey)⟩
        · exact ⟨td, lr, ⟨rfl, rfl⟩, .inr (.inr hkey)⟩
      · rintro ⟨td', lr', ⟨rfl, rfl⟩, hkey | hkey | hkey⟩
        · exact .inl (.inl hkey)
        · exact .inl (.inr hkey)
        · exact .inr hkey
  · next hnone =>
      constructor
      · rintro ⟨c, hc, -⟩
        cases hc
      · rintro ⟨td, lr, ⟨htd, hlr⟩, -⟩
        exact absurd hlr (hnone td lr htd)

/-- The keys the body of the loop unlinks. -/
theorem unlinks_rawTickCommands : (∃ c ∈ rawTickCommands mode K true a tick, c.UnlinksKey key) ↔
    Cleans K a tick key := by
  rw [rawTickCommands, if_pos rfl]
  simp only [List.mem_append, or_and_right, exists_or, unlinks_cleanTransactionLogsIn,
    unlinks_cleanRawTick]
  constructor
  · rintro (⟨td, lr, h, rfl | rfl | ⟨i, hi, rfl | ⟨logId, hid, rfl⟩⟩⟩ | rfl | ⟨i, hi, rfl⟩)
    · exact .logRanges h
    · exact .tickLogRange h
    · exact .transaction h hi
    · exact .log h hi hid
    · exact .tickData
    · exact .tickVote hi
  · intro h
    cases h with
    | tickData => exact .inr (.inl rfl)
    | tickVote hi => exact .inr (.inr ⟨_, hi, rfl⟩)
    | logRanges h => exact .inl ⟨_, _, h, .inl rfl⟩
    | tickLogRange h => exact .inl ⟨_, _, h, .inr (.inl rfl)⟩
    | transaction h hi => exact .inl ⟨_, _, h, .inr (.inr ⟨_, hi, .inl rfl⟩)⟩
    | log h hi hid => exact .inl ⟨_, _, h, .inr (.inr ⟨_, hi, .inr ⟨_, hid, rfl⟩⟩)⟩

end commands

end Archive

/-! ## The other ticks -/

/-- The command neither writes a record of ticks nor unlinks a key of another tick. -/
def Command.OfTick (tick : BitVec 32) : Command → Prop
  | .setVtick .. | .setCLogRange .. | .setTickLogRange .. => False
  | .unlinkTickData t | .unlinkTickVote t | .unlinkLogRanges t | .unlinkTickLogRange t => t = tick
  | .setTransaction .. | .setLog .. | .unlinkTransaction .. | .unlinkLog .. => True

namespace Archive

section others

variable {mode : TxStorageMode} {K : KangarooTwelve} {withTransactions : Bool} {a : Archive}
  {tick tick' : BitVec 32} {td : TickData} {lr : LogRangesPerTxInTick} {key : KeyDBKey}

theorem ofTick_cleanTransactionIn {i : Fin NUMBER_OF_TRANSACTIONS_PER_TICK} {c : Command}
    (hc : c ∈ cleanTransactionIn mode K td lr a i) : c.OfTick tick := by
  unfold cleanTransactionIn at hc
  split at hc
  · cases hc
  · rcases List.mem_append.mp hc with hc | hc
    · cases mode with
      | Kvrocks =>
          rcases mem_copyCommands.mp hc with ⟨value, -, -, -, rfl⟩ | ⟨logId, -, value, -, -, rfl⟩
          · exact trivial
          · exact trivial
      | LastNTick => cases hc
      | Free => cases hc
    · rw [deleteCommands, dbDeleteLogs, List.mem_append, List.mem_map] at hc
      rcases hc with ⟨logId, -, rfl⟩ | hc
      · exact trivial
      · rw [List.mem_singleton.mp hc]
        exact trivial

theorem ofTick_rawTickCommands {c : Command}
    (hc : c ∈ rawTickCommands mode K withTransactions a tick) : c.OfTick tick := by
  rcases List.mem_append.mp hc with hc | hc
  · split at hc
    · unfold cleanTransactionLogsIn at hc
      split at hc
      · rcases List.mem_append.mp hc with hc | hc
        · rcases List.mem_cons.mp hc with rfl | hc
          · exact rfl
          · rw [List.mem_singleton.mp hc]
            exact rfl
        · obtain ⟨i, -, a', hc⟩ := Runs.mem_script hc
          exact ofTick_cleanTransactionIn hc
      · cases hc
    · cases hc
  · rcases List.mem_cons.mp hc with rfl | hc
    · exact rfl
    · rw [List.mem_singleton.mp hc]
      exact rfl

theorem recorded_exec {c : Command} (hc : c.OfTick tick) (hne : tick' ≠ tick) :
    (a.exec c).Recorded tick' td lr ↔ a.Recorded tick' td lr := by
  cases c with
  | setVtick => exact absurd hc id
  | setCLogRange => exact absurd hc id
  | setTickLogRange => exact absurd hc id
  | unlinkTickData t =>
      have ht : t = tick := hc
      simp [Recorded, exec, dbTryGetTickData, dbGetTickData, dbDeleteTickData, dbTryGetLogRanges,
        ht, hne]
  | unlinkLogRanges t =>
      have ht : t = tick := hc
      simp [Recorded, exec, dbTryGetTickData, dbTryGetLogRanges, ht, Function.update_of_ne hne]
  | _ => exact Iff.rfl

theorem recorded_run {cs : List Command} (hcs : ∀ c ∈ cs, c.OfTick tick) (hne : tick' ≠ tick) :
    (Runs.run exec a cs).Recorded tick' td lr ↔ a.Recorded tick' td lr := by
  induction cs generalizing a with
  | nil => exact Iff.rfl
  | cons c cs ih =>
      obtain ⟨hc, hcs⟩ := List.forall_mem_cons.mp hcs
      rw [Runs.run_cons, ih hcs, recorded_exec hc hne]

theorem Cleans.of_recorded {a' : Archive}
    (h : ∀ td lr, a.Recorded tick td lr → a'.Recorded tick td lr) (hclean : Cleans K a tick key) :
    Cleans K a' tick key := by
  cases hclean with
  | tickData => exact .tickData
  | tickVote hi => exact .tickVote hi
  | logRanges hr => exact .logRanges (h _ _ hr)
  | tickLogRange hr => exact .tickLogRange (h _ _ hr)
  | transaction hr hi => exact .transaction (h _ _ hr) hi
  | log hr hi hid => exact .log (h _ _ hr) hi hid

/-- Cleaning a tick makes no difference to the others. -/
theorem cleans_run {cs : List Command} (hcs : ∀ c ∈ cs, c.OfTick tick) (hne : tick' ≠ tick) :
    Cleans K (Runs.run exec a cs) tick' key ↔ Cleans K a tick' key :=
  ⟨.of_recorded fun _ _ => (recorded_run hcs hne).mp,
    .of_recorded fun _ _ => (recorded_run hcs hne).mpr⟩

end others

end Archive

/-! ## The loop -/

namespace KeySpace

/-- One test of `tick <= toTick`, with the body where it holds. -/
def cleanRawTickStep (mode : TxStorageMode) (K : KangarooTwelve) (withTransactions : Bool)
    (toTick : BitVec 32) (s : BitVec 32 × KeySpace) : KeySpace ⊕ (BitVec 32 × KeySpace) :=
  if s.1 ≤ toTick then
    .inr (s.1 + 1,
      Runs.run exec s.2 (s.2.archive.rawTickCommands mode K withTransactions s.1))
  else .inl s.2

/-- `cleanRawTick` returns with the databases `k'`. -/
def CleanRawTick (mode : TxStorageMode) (K : KangarooTwelve) (fromTick toTick : BitVec 32)
    (withTransactions : Bool) (k k' : KeySpace) : Prop :=
  ∃ n, Loop.run (cleanRawTickStep mode K withTransactions toTick) n (fromTick, k) = some k'

section loop

variable {mode : TxStorageMode} {K : KangarooTwelve} {withTransactions : Bool}
  {fromTick toTick : BitVec 32} {k k' : KeySpace} {key : KeyDBKey}

theorem cleanRawTickStep_of_le (h : fromTick ≤ toTick) :
    cleanRawTickStep mode K withTransactions toTick (fromTick, k) = .inr (fromTick + 1,
      Runs.run exec k (k.archive.rawTickCommands mode K withTransactions fromTick)) := if_pos h

theorem cleanRawTickStep_of_not_le (h : ¬ fromTick ≤ toTick) :
    cleanRawTickStep mode K withTransactions toTick (fromTick, k) = .inl k := if_neg h

/-- The largest tick is never passed: the counter begins again at 0. -/
theorem not_cleanRawTick_of_max (mode : TxStorageMode) (K : KangarooTwelve)
    (withTransactions : Bool) (fromTick : BitVec 32) (k k' : KeySpace) :
    ¬ CleanRawTick mode K fromTick 0xFFFFFFFF withTransactions k k' := by
  rintro ⟨n, h⟩
  have hstep : ∀ s : BitVec 32 × KeySpace, True → ∃ s',
      cleanRawTickStep mode K withTransactions 0xFFFFFFFF s = .inr s' ∧ True := by
    intro s _
    exact ⟨_, cleanRawTickStep_of_le (by bv_omega), trivial⟩
  rw [Loop.run_eq_none hstep trivial] at h
  cases h

/-- `cleanRawTick` returns unless it is to clean up to the largest tick. -/
theorem exists_cleanRawTick (mode : TxStorageMode) (K : KangarooTwelve) (fromTick : BitVec 32)
    (withTransactions : Bool) (k : KeySpace) (h : toTick ≠ 0xFFFFFFFF) :
    ∃ k', CleanRawTick mode K fromTick toTick withTransactions k k' := by
  have hend : ∃ n k', Loop.run (cleanRawTickStep mode K withTransactions toTick) n (fromTick, k) =
      some k' := by
    refine Loop.exists_run (fun s => toTick.toNat + 1 - s.1.toNat) (fun n s _ => ?_)
    by_cases hle : s.1 ≤ toTick
    · refine .inr ⟨_, cleanRawTickStep_of_le hle, ?_⟩
      show toTick.toNat + 1 - (s.1 + 1).toNat < toTick.toNat + 1 - s.1.toNat
      bv_omega
    · exact .inl ⟨s.2, cleanRawTickStep_of_not_le hle⟩
  obtain ⟨n, k', hn⟩ := hend
  exact ⟨k', n, hn⟩

/-- A key is left when it is unlinked for none of the ticks. -/
theorem holds_cleanRawTick (h : CleanRawTick mode K fromTick toTick true k k') :
    k'.Holds key ↔
      k.Holds key ∧ ∀ t, fromTick ≤ t → t ≤ toTick → ¬ Archive.Cleans K k.archive t key := by
  have hmax : toTick ≠ 0xFFFFFFFF := by
    rintro rfl
    exact not_cleanRawTick_of_max mode K true fromTick k k' h
  obtain ⟨n, hn⟩ := h
  induction n generalizing fromTick k with
  | zero => cases hn
  | succ n ih =>
      by_cases hle : fromTick ≤ toTick
      · rw [Loop.run_inr (cleanRawTickStep_of_le hle)] at hn
        have hcs : ∀ c ∈ k.archive.rawTickCommands mode K true fromTick, c.OfTick fromTick :=
          fun c hc => Archive.ofTick_rawTickCommands hc
        have hfirst : (∀ c ∈ k.archive.rawTickCommands mode K true fromTick, ¬ c.UnlinksKey key) ↔
            ¬ Archive.Cleans K k.archive fromTick key := by
          have hunlinks :
              (∃ c ∈ k.archive.rawTickCommands mode K true fromTick, c.UnlinksKey key) ↔ _ :=
            Archive.unlinks_rawTickCommands
          rw [← hunlinks]
          push Not
          exact Iff.rfl
        have hrest : ∀ t, fromTick + 1 ≤ t → (Archive.Cleans K (Runs.run exec k
            (k.archive.rawTickCommands mode K true fromTick)).archive t key ↔
              Archive.Cleans K k.archive t key) := by
          intro t ht
          rw [archive_run]
          exact Archive.cleans_run hcs (by bv_omega)
        refine (ih hn).trans ?_
        rw [holds_run, hfirst, and_assoc]
        refine and_congr Iff.rfl ⟨?_, ?_⟩
        · rintro ⟨hthis, hlater⟩ t hfrom hto
          by_cases ht : t = fromTick
          · exact ht ▸ hthis
          · have hnext : fromTick + 1 ≤ t := by bv_omega
            exact fun hclean => hlater t hnext hto ((hrest t hnext).mpr hclean)
        · intro hall
          refine ⟨hall fromTick (by bv_omega) hle, fun t hnext hto hclean => ?_⟩
          exact hall t (by bv_omega) hto ((hrest t hnext).mp hclean)
      · rw [Loop.run_inl (cleanRawTickStep_of_not_le hle)] at hn
        rw [Option.some.inj hn]
        exact ⟨fun hk => ⟨hk, fun t hfrom hto => absurd hto (by bv_omega)⟩, And.left⟩

end loop

end KeySpace

/-! ## The keys of a tick -/

namespace Archive

/-- The id is in the range of a slot of the tick, or in the range of the whole tick. -/
def InLogRange (a : Archive) (tick : BitVec 32) (logId : Nat) : Prop :=
  (∃ lr, a.dbTryGetLogRanges true true tick = some lr ∧
    ∃ r ∈ lr.used, r.1 ≤ logId ∧ (logId : Int) < r.1 + r.2) ∨
  ∃ r, a.dbTryGetLogRangeForTick true true tick = some r ∧ r.1 ≤ logId ∧ (logId : Int) < r.1 + r.2

/-- The keys of a tick. Without the tick data the epoch of its logs is not known, so the logs of all
epochs count. -/
inductive KeyOf (K : KangarooTwelve) (a : Archive) (tick : BitVec 32) : KeyDBKey → Prop
  | tickData : KeyOf K a tick (.tickData tick)
  | tickVote (i : BitVec 16) : KeyOf K a tick (.tickVote tick i)
  | logRanges : KeyOf K a tick (.logRanges tick)
  | tickLogRange : KeyOf K a tick (.tickLogRange tick)
  | transaction {td : TickData} {i : Fin NUMBER_OF_TRANSACTIONS_PER_TICK}
      (h : a.dbTryGetTickData true true tick = some td)
      (hi : td.transactionDigests i ≠ m256i.zero) : KeyOf K a tick (.transaction (hashOf K td i))
  | log {epoch logId : Nat} (h : a.InLogRange tick logId) : KeyOf K a tick (.log epoch logId)

section inversion

variable {K : KangarooTwelve} {a : Archive} {tick : BitVec 32}

theorem cleans_transaction_iff {hash : List Char} : Cleans K a tick (.transaction hash) ↔
    ∃ td lr, a.Recorded tick td lr ∧
      ∃ i, td.transactionDigests i ≠ m256i.zero ∧ hashOf K td i = hash := by
  constructor
  · intro h
    cases h with
    | transaction h hi => exact ⟨_, _, h, _, hi, rfl⟩
  · rintro ⟨td, lr, h, i, hi, rfl⟩
    exact .transaction h hi

theorem cleans_log_iff {epoch logId : Nat} : Cleans K a tick (.log epoch logId) ↔
    ∃ td lr, a.Recorded tick td lr ∧ td.epoch.toNat = epoch ∧
      ∃ i, td.transactionDigests i ≠ m256i.zero ∧ logId ∈ lr.logIds i := by
  constructor
  · intro h
    cases h with
    | log h hi hid => exact ⟨_, _, h, rfl, _, hi, hid⟩
  · rintro ⟨td, lr, h, rfl, i, hi, hid⟩
    exact .log h hi hid

end inversion

end Archive

namespace KeySpace

/-- What the cleaner needs to find of a tick. A transaction or log that is not deleted with its own
tick may still be deleted with another tick of the interval. -/
structure Removable (K : KangarooTwelve) (k : KeySpace) (fromTick toTick tick : BitVec 32) :
    Prop where
  votes : ∀ i : BitVec 16, NUMBER_OF_COMPUTORS ≤ i.toNat → ¬ k.Holds (.tickVote tick i)
  ranges : k.Holds (.logRanges tick) ∨ k.Holds (.tickLogRange tick) →
    ∃ td lr, k.archive.Recorded tick td lr
  transactions : ∀ td i, k.archive.dbTryGetTickData true true tick = some td →
    td.transactionDigests i ≠ m256i.zero → k.Holds (.transaction (Archive.hashOf K td i)) →
      ∃ t, fromTick ≤ t ∧ t ≤ toTick ∧ ∃ td' lr, k.archive.Recorded t td' lr ∧
        ∃ j, td'.transactionDigests j ≠ m256i.zero ∧ Archive.hashOf K td' j = Archive.hashOf K td i
  logs : ∀ epoch logId, k.archive.InLogRange tick logId → k.Holds (.log epoch logId) →
    ∃ t, fromTick ≤ t ∧ t ≤ toTick ∧ ∃ td lr, k.archive.Recorded t td lr ∧ td.epoch.toNat = epoch ∧
      ∃ i, td.transactionDigests i ≠ m256i.zero ∧ logId ∈ lr.logIds i

/-- After `cleanRawTick` KeyDB has no key of the ticks, exactly when all the ticks are removable. -/
theorem keydb_cleaned_iff (mode : TxStorageMode) (K : KangarooTwelve) (fromTick toTick : BitVec 32)
    (k k' : KeySpace) (h : CleanRawTick mode K fromTick toTick true k k') :
    (∀ t, fromTick ≤ t → t ≤ toTick → ∀ key, Archive.KeyOf K k.archive t key → ¬ k'.Holds key) ↔
      ∀ t, fromTick ≤ t → t ≤ toTick → Removable K k fromTick toTick t := by
  have hgone : ∀ key, ¬ k'.Holds key ↔ (k.Holds key →
      ∃ t, fromTick ≤ t ∧ t ≤ toTick ∧ Archive.Cleans K k.archive t key) := by
    intro key
    rw [holds_cleanRawTick h]
    push Not
    exact Iff.rfl
  constructor
  · intro hclean t hfrom hto
    have hkey : ∀ key, Archive.KeyOf K k.archive t key → k.Holds key →
        ∃ t, fromTick ≤ t ∧ t ≤ toTick ∧ Archive.Cleans K k.archive t key :=
      fun key hkey => (hgone key).mp (hclean t hfrom hto key hkey)
    refine ⟨fun i hi hheld => ?_, ?_, fun td i htd hi hheld => ?_, fun epoch logId hid hheld => ?_⟩
    · obtain ⟨t', -, -, hcleans⟩ := hkey _ (.tickVote i) hheld
      cases hcleans with
      | tickVote hlt => exact absurd hlt (Nat.not_lt.mpr hi)
    · rintro (hheld | hheld)
      · obtain ⟨t', -, -, hcleans⟩ := hkey _ .logRanges hheld
        cases hcleans with
        | logRanges hr => exact ⟨_, _, hr⟩
      · obtain ⟨t', -, -, hcleans⟩ := hkey _ .tickLogRange hheld
        cases hcleans with
        | tickLogRange hr => exact ⟨_, _, hr⟩
    · obtain ⟨t', hfrom', hto', hcleans⟩ := hkey _ (.transaction htd hi) hheld
      exact ⟨t', hfrom', hto', Archive.cleans_transaction_iff.mp hcleans⟩
    · obtain ⟨t', hfrom', hto', hcleans⟩ := hkey _ (.log hid) hheld
      exact ⟨t', hfrom', hto', Archive.cleans_log_iff.mp hcleans⟩
  · intro hrem t hfrom hto key hkey
    obtain ⟨hvotes, hranges, htransactions, hlogs⟩ := hrem t hfrom hto
    rw [hgone]
    intro hheld
    cases hkey with
    | tickData => exact ⟨t, hfrom, hto, .tickData⟩
    | tickVote i =>
        by_cases hi : i.toNat < NUMBER_OF_COMPUTORS
        · exact ⟨t, hfrom, hto, .tickVote hi⟩
        · exact absurd hheld (hvotes i (Nat.not_lt.mp hi))
    | logRanges =>
        obtain ⟨td, lr, hr⟩ := hranges (.inl hheld)
        exact ⟨t, hfrom, hto, .logRanges hr⟩
    | tickLogRange =>
        obtain ⟨td, lr, hr⟩ := hranges (.inr hheld)
        exact ⟨t, hfrom, hto, .tickLogRange hr⟩
    | transaction htd hi =>
        obtain ⟨t', hfrom', hto', hr⟩ := htransactions _ _ htd hi hheld
        exact ⟨t', hfrom', hto', Archive.cleans_transaction_iff.mpr hr⟩
    | log hid =>
        obtain ⟨t', hfrom', hto', hr⟩ := hlogs _ _ hid hheld
        exact ⟨t', hfrom', hto', Archive.cleans_log_iff.mpr hr⟩

end KeySpace

/-! ## Tick 11 -/

theorem zero_lt_transactions : 0 < NUMBER_OF_TRANSACTIONS_PER_TICK := by decide

def firstTransaction : Fin NUMBER_OF_TRANSACTIONS_PER_TICK := ⟨0, zero_lt_transactions⟩

/-- Tick 11 with its transaction, whose log is the log 10. -/
def oneTransaction : KeySpace where
  archive :=
    { emptyArchive with
      ticks := dbInsertTickData emptyArchive.ticks dataOfTick11
      logRanges := fun t => if t = 11 then some (oneRange 10 5) else none
      tickLogRange := fun t => if t = 11 then some (10, 5) else none
      transactions := fun _ => some []
      logs := fun epoch logId => if epoch = 1 ∧ logId = 10 then some [] else none }
  otherSize _ := false
  no_ranges h := absurd h Bool.false_ne_true

theorem recorded_oneTransaction : oneTransaction.archive.Recorded 11 dataOfTick11 (oneRange 10 5) :=
  ⟨rfl, rfl⟩

theorem logIds_oneRange_ten :
    (oneRange 10 5).logIds firstTransaction = [10, 11, 12, 13, 14] := by decide +kernel

theorem inLogRange_oneTransaction {logId : Nat} (h : oneTransaction.archive.InLogRange 11 logId) :
    logId ∈ (oneRange 10 5).logIds firstTransaction := by
  have hid : (10 : Int) ≤ logId ∧ (logId : Int) < 15 := by
    rcases h with ⟨lr, hlr, r, hr, hid⟩ | ⟨r, hr, hid⟩
    · obtain rfl := (Option.some.inj hlr).symm
      rw [used_oneRange_ten, List.mem_singleton] at hr
      rw [hr] at hid
      exact hid
    · obtain rfl := (Option.some.inj hr).symm
      exact hid
  rw [logIds_oneRange_ten]
  simp only [List.mem_cons, List.not_mem_nil, or_false]
  omega

/-- The logs of a transaction are removed with it. -/
theorem keydb_cleaned_at_oneTransaction : ∃ k',
    KeySpace.CleanRawTick .LastNTick constantHash 11 11 true oneTransaction k' ∧
    ∀ key, Archive.KeyOf constantHash oneTransaction.archive 11 key → ¬ k'.Holds key := by
  obtain ⟨k', hk⟩ := KeySpace.exists_cleanRawTick .LastNTick constantHash 11 true oneTransaction
    (show (11 : BitVec 32) ≠ 0xFFFFFFFF by decide)
  refine ⟨k', hk,
    (KeySpace.keydb_cleaned_iff .LastNTick constantHash 11 11 oneTransaction k' hk).mpr
      ?_ 11 (by decide) (by decide)⟩
  intro t hfrom hto
  obtain rfl : t = 11 := by bv_omega
  refine ⟨fun i _ hheld => absurd rfl hheld, fun _ => ⟨_, _, recorded_oneTransaction⟩,
    fun td i htd hi _ => ⟨11, hfrom, hto, td, _, ⟨htd, rfl⟩, i, hi, rfl⟩,
    fun epoch logId hid hheld => ?_⟩
  have hlog : epoch = 1 ∧ logId = 10 := by
    by_contra hnot
    exact hheld (if_neg hnot)
  exact ⟨11, hfrom, hto, _, _, recorded_oneTransaction, hlog.1.symm, firstTransaction,
    show (1 : m256i) ≠ m256i.zero by decide, inLogRange_oneTransaction hid⟩

/-- The ranges of a tick with one log, at the beginning of the tick (`SC_BEGIN_TICK_TX`). -/
def beginTickRanges : LogRangesPerTxInTick where
  fromLogId i := if i.val = 1026 then 5 else -1
  length i := if i.val = 1026 then 1 else -1

/-- Tick 11 without a transaction, and with the log 5 of its beginning. -/
def oneBeginTickLog : KeySpace where
  archive :=
    { archiveOfTick11 with
      logRanges := fun t => if t = 11 then some beginTickRanges else none
      tickLogRange := fun t => if t = 11 then some (5, 1) else none
      logs := fun epoch logId => if epoch = 1 ∧ logId = 5 then some [] else none }
  otherSize _ := false
  no_ranges h := absurd h Bool.false_ne_true

/-- The log of the beginning of the tick is left. -/
theorem keydb_not_cleaned_of_beginTick : ∃ k',
    KeySpace.CleanRawTick .LastNTick constantHash 11 11 true oneBeginTickLog k' ∧
    Archive.KeyOf constantHash oneBeginTickLog.archive 11 (.log 1 5) ∧ k'.Holds (.log 1 5) := by
  obtain ⟨k', hk⟩ := KeySpace.exists_cleanRawTick .LastNTick constantHash 11 true oneBeginTickLog
    (show (11 : BitVec 32) ≠ 0xFFFFFFFF by decide)
  refine ⟨k', hk, .log (.inr ⟨(5, 1), rfl, by decide, by decide⟩), ?_⟩
  refine (KeySpace.holds_cleanRawTick hk).mpr ⟨Option.some_ne_none [], fun t hfrom hto hclean => ?_⟩
  obtain rfl : t = 11 := by bv_omega
  obtain ⟨td, lr, hr, -, i, hi, -⟩ := Archive.cleans_log_iff.mp hclean
  have htd : td = { TickData.zero with epoch := 1, tick := 11 } := (Option.some.inj hr.1).symm
  rw [htd] at hi
  exact hi rfl

end QubicBob
