import QubicBob.Storage.TickStore
import QubicBob.Archive.Cleaner
import QubicBob.Archive.LogRanges
import QubicBob.Lib.Runs

set_option autoImplicit false

/-! # Moving a tick from KeyDB to Kvrocks

The functions of the garbage cleaner on both databases: `compressTickAndMoveToKVRocks` writes the
record `vtick:<tick>`, `cleanRawTick` unlinks the tick data and the votes, `cleanTransactionLogs`
copies and unlinks the transactions of a tick and their logs.

Every command of these functions may fail by itself, and then changes nothing; the outcomes are
arguments. A function gives the list of the commands that take effect (`Command`), chosen by the
state it is called in, so that a whole round is a script of commands (`roundCommands`) and "at that
moment" is the state before a command of the script.
-/

namespace QubicBob

/-! ## The databases -/

/-- KeyDB and Kvrocks, as far as the cleaner is concerned. Transactions are keyed by their hash, logs
by epoch and id. -/
structure Archive where
  ticks : TickKeyDB
  logRanges : BitVec 32 → Option LogRangesPerTxInTick
  tickLogRange : BitVec 32 → Option (Int × Int)
  transactions : List Char → Option (List Byte)
  logs : Nat → Nat → Option (List Byte)
  vtick : BitVec 32 → Option FullTickStruct
  cLogRange : BitVec 32 → Option LogRangesPerTxInTick
  kvTickLogRange : BitVec 32 → Option (Int × Int)
  kvTransactions : List Char → Option (List Byte)
  kvLogs : Nat → Nat → Option (List Byte)

/-- One `UNLINK` with the keys `tick_vote:<tick>:0` to `tick_vote:<tick>:675`. -/
def dbDeleteTickVote (db : TickKeyDB) (tick : BitVec 32) : TickKeyDB :=
  { db with
    tickVote := fun t i => if t = tick ∧ i.toNat < NUMBER_OF_COMPUTORS then none else db.tickVote t i
    vote_key := by
      intro t i v h
      split at h
      · exact absurd h (by simp [Cell.read?])
      · exact db.vote_key h }

/-- A command that writes, on the first five lines to Kvrocks, on the others to KeyDB. -/
inductive Command where
  | setVtick (tick : BitVec 32) (full : FullTickStruct)
  | setCLogRange (tick : BitVec 32) (logRange : LogRangesPerTxInTick)
  | setTickLogRange (tick : BitVec 32) (range : Int × Int)
  | setTransaction (hash : List Char) (value : List Byte)
  | setLog (epoch logId : Nat) (value : List Byte)
  | unlinkTickData (tick : BitVec 32)
  | unlinkTickVote (tick : BitVec 32)
  | unlinkLogRanges (tick : BitVec 32)
  | unlinkTickLogRange (tick : BitVec 32)
  | unlinkTransaction (hash : List Char)
  | unlinkLog (epoch logId : Nat)

namespace Archive

def exec (a : Archive) : Command → Archive
  | .setVtick tick full => { a with vtick := Function.update a.vtick tick (some full) }
  | .setCLogRange tick lr => { a with cLogRange := Function.update a.cLogRange tick (some lr) }
  | .setTickLogRange tick range =>
      { a with kvTickLogRange := Function.update a.kvTickLogRange tick (some range) }
  | .setTransaction hash value =>
      { a with kvTransactions := Function.update a.kvTransactions hash (some value) }
  | .setLog epoch logId value =>
      { a with
        kvLogs := Function.update a.kvLogs epoch
          (Function.update (a.kvLogs epoch) logId (some value)) }
  | .unlinkTickData tick => { a with ticks := dbDeleteTickData a.ticks tick }
  | .unlinkTickVote tick => { a with ticks := dbDeleteTickVote a.ticks tick }
  | .unlinkLogRanges tick => { a with logRanges := Function.update a.logRanges tick none }
  | .unlinkTickLogRange tick => { a with tickLogRange := Function.update a.tickLogRange tick none }
  | .unlinkTransaction hash =>
      { a with
        transactions := Function.update a.transactions hash none
        ticks := { a.ticks with hasTransaction := fun h => h != hash && a.ticks.hasTransaction h } }
  | .unlinkLog epoch logId =>
      { a with logs := Function.update a.logs epoch (Function.update (a.logs epoch) logId none) }

end Archive

/-! ## `compressTickAndMoveToKVRocks` -/

def VOTES_BATCH_SIZE : Nat := 128

/-- The outcomes of the commands of one call. `mget` is the number of batches of votes that are
answered before one fails. -/
structure CompressOutcomes where
  mget : Nat
  getTickData : Bool
  setVtick : Bool
  getLogRanges : Bool
  getCLogRange : Bool
  setCLogRange : Bool
  hmgetKeydb : Bool
  hmgetKvrocks : Bool
  hmset : Bool

/-- `db_get_tick_votes` when `mget` batches are answered: an error ends the loop, and the votes read
so far are returned. -/
def votesRead (db : TickKeyDB) (tick : BitVec 32) (mget : Nat) : List TickVote :=
  ((List.finRange NUMBER_OF_COMPUTORS).take (VOTES_BATCH_SIZE * mget)).filterMap
    (fun i => dbGetTickVote db tick (BitVec.ofNat 16 i.val))

/-- Among votes, those that are packed and have a zero transaction digest. -/
def emptyVotes (votes : List TickVote) : Nat :=
  votes.countP (fun v => v.computorIndex.toNat < NUMBER_OF_COMPUTORS ∧ v.epoch ≠ 0 ∧
    v.transactionDigest = m256i.zero)

/-- A read that is answered. -/
def answered {α : Type} (outcome : Bool) (value : Option α) : Option α :=
  if outcome then value else none

namespace Archive

def dbTryGetLogRanges (a : Archive) (get getKv : Bool) (tick : BitVec 32) :
    Option LogRangesPerTxInTick :=
  (answered get (a.logRanges tick)).or (answered getKv (a.cLogRange tick))

/-- A range with a `-1` is read as no range. -/
def normalRange (range : Int × Int) : Int × Int :=
  if range.1 = -1 ∨ range.2 = -1 then (-1, -1) else range

def dbTryGetLogRangeForTick (a : Archive) (hmget hmgetKv : Bool) (tick : BitVec 32) :
    Option (Int × Int) :=
  ((answered hmget (a.tickLogRange tick)).or (answered hmgetKv (a.kvTickLogRange tick))).map
    normalRange

def compressTickAndMoveToKVRocks (a : Archive) (o : CompressOutcomes) (tick : BitVec 32) :
    List Command :=
  let votes := votesRead a.ticks tick o.mget
  let td := answered o.getTickData (dbGetTickData a.ticks tick)
  -- no tick data, and not enough votes for an empty tick
  if td.isNone ∧ emptyVotes votes ≤ 225 then []
  else if o.setVtick = false then []
  else
    .setVtick tick ⟨td.getD TickData.zero, packVotes votes (fun _ => TickVote.zero)⟩ ::
      ((match a.dbTryGetLogRanges o.getLogRanges o.getCLogRange tick with
        | some lr => if o.setCLogRange then [.setCLogRange tick lr] else []
        | none => []) ++
      (match a.dbTryGetLogRangeForTick o.hmgetKeydb o.hmgetKvrocks tick with
        | some range => if o.hmset then [.setTickLogRange tick range] else []
        | none => []))

/-! ## `cleanRawTick` -/

/-- The two deletions of `cleanRawTick` for a tick. -/
def cleanRawTick (unlinkTickData unlinkTickVote : Bool) (tick : BitVec 32) : List Command :=
  (if unlinkTickData then [.unlinkTickData tick] else []) ++
    (if unlinkTickVote then [.unlinkTickVote tick] else [])

end Archive

/-! ## `cleanTransactionLogs` -/

/-- The outcomes of one call. Those for a transaction are told apart by its index in the tick, those
for a log also by its id. -/
structure CleanOutcomes where
  getTickData : Bool
  getVtick : Bool
  getLogRanges : Bool
  getCLogRange : Bool
  unlinkLogRanges : Bool
  unlinkTickLogRange : Bool
  getTransaction : Fin NUMBER_OF_TRANSACTIONS_PER_TICK → Bool
  setTransaction : Fin NUMBER_OF_TRANSACTIONS_PER_TICK → Bool
  existsLog : Fin NUMBER_OF_TRANSACTIONS_PER_TICK → Nat → Bool
  getLog : Fin NUMBER_OF_TRANSACTIONS_PER_TICK → Nat → Bool
  setLog : Fin NUMBER_OF_TRANSACTIONS_PER_TICK → Nat → Bool
  unlinkLog : Fin NUMBER_OF_TRANSACTIONS_PER_TICK → Nat → Bool
  unlinkTransaction : Fin NUMBER_OF_TRANSACTIONS_PER_TICK → Bool

theorem transactions_le_ranges : NUMBER_OF_TRANSACTIONS_PER_TICK ≤ LOG_TX_PER_TICK := by decide

/-- The ids from `start` to `start + length - 1` of a transaction with logs. -/
def LogRangesPerTxInTick.logIds (lr : LogRangesPerTxInTick)
    (i : Fin NUMBER_OF_TRANSACTIONS_PER_TICK) : List Nat :=
  let start := (lr.fromLogId (i.castLE transactions_le_ranges)).toInt
  let length := (lr.length (i.castLE transactions_le_ranges)).toInt
  if 0 < start ∧ 0 < length then
    List.range' start.toNat (wrapLongLong (start + length - 1) + 1 - start).toNat
  else []

namespace Archive

/-- `db_copy_transaction_to_kvrocks`. -/
def dbCopyTransactionToKvrocks (a : Archive) (get set : Bool) (hash : List Char) : List Command :=
  match answered get (a.transactions hash) with
  | some value => if set then [.setTransaction hash value] else []
  | none => []

/-- `db_move_log_to_kvrocks`; its result is not used. -/
def dbMoveLogToKvrocks (a : Archive) (existsKey get set : Bool) (epoch logId : Nat) : List Command :=
  match answered (existsKey && get) (a.logs epoch logId) with
  | some value => if set then [.setLog epoch logId value] else []
  | none => []

/-- `db_delete_logs`: an error ends the loop. -/
def dbDeleteLogs (unlink : Nat → Bool) (epoch : Nat) (ids : List Nat) : List Command :=
  (ids.takeWhile unlink).map (.unlinkLog epoch)

/-- One round of `cleanTransactionAndLogsAndSaveToDisk`. -/
def cleanTransaction (K : KangarooTwelve) (o : CleanOutcomes) (td : TickData)
    (lr : LogRangesPerTxInTick) (a : Archive) (i : Fin NUMBER_OF_TRANSACTIONS_PER_TICK) :
    List Command :=
  if td.transactionDigests i = m256i.zero then []
  else
    let hash := getIdentityFromPublicKey K (td.transactionDigests i) true
    let epoch := td.epoch.toNat
    a.dbCopyTransactionToKvrocks (o.getTransaction i) (o.setTransaction i) hash ++
      (lr.logIds i).flatMap (fun logId => a.dbMoveLogToKvrocks (o.existsLog i logId)
        (o.getLog i logId) (o.setLog i logId) epoch logId) ++
      dbDeleteLogs (o.unlinkLog i) epoch (lr.logIds i) ++
      (if o.unlinkTransaction i then [.unlinkTransaction hash] else [])

/-- `db_delete_log_ranges`. -/
def dbDeleteLogRanges (o : CleanOutcomes) (tick : BitVec 32) : List Command :=
  if o.unlinkLogRanges = false then []
  else .unlinkLogRanges tick ::
    (if o.unlinkTickLogRange then [.unlinkTickLogRange tick] else [])

def dbTryGetTickData (a : Archive) (get getKv : Bool) (tick : BitVec 32) : Option TickData :=
  (answered get (dbGetTickData a.ticks tick)).or
    (answered getKv ((a.vtick tick).map FullTickStruct.td))

def cleanTransactionLogs (K : KangarooTwelve) (o : CleanOutcomes) (a : Archive)
    (tick : BitVec 32) : List Command :=
  match a.dbTryGetTickData o.getTickData o.getVtick tick,
      a.dbTryGetLogRanges o.getLogRanges o.getCLogRange tick with
  | some td, some lr =>
      dbDeleteLogRanges o tick ++
        Runs.script exec (cleanTransaction K o td lr) (Runs.run exec a (dbDeleteLogRanges o tick))
          (List.finRange NUMBER_OF_TRANSACTIONS_PER_TICK)
  | _, _ => []

end Archive

/-! ## A round -/

/-- The outcomes of all commands of a round. It calls each function at most once for a tick. -/
structure RoundOutcomes where
  compress : BitVec 32 → CompressOutcomes
  unlinkTickData : BitVec 32 → Bool
  unlinkTickVote : BitVec 32 → Bool
  clean : BitVec 32 → CleanOutcomes

/-- The commands of a call; the functions take the tick as `uint32_t`. -/
def CleanerCall.commands (K : KangarooTwelve) (o : RoundOutcomes) (a : Archive) :
    CleanerCall → List Command
  | .compressTickAndMoveToKVRocks t =>
      a.compressTickAndMoveToKVRocks (o.compress (BitVec.ofInt 32 t)) (BitVec.ofInt 32 t)
  | .cleanRawTick t =>
      Archive.cleanRawTick (o.unlinkTickData (BitVec.ofInt 32 t)) (o.unlinkTickVote (BitVec.ofInt 32 t))
        (BitVec.ofInt 32 t)
  | .cleanTransactionLogs t =>
      Archive.cleanTransactionLogs K (o.clean (BitVec.ofInt 32 t)) a (BitVec.ofInt 32 t)

/-- The commands of a round that begins with the marks `m` and reads the indexing ticks `r`. -/
def roundCommands (K : KangarooTwelve) (o : RoundOutcomes) (gTxTickToLive : Nat) (m : CleanerMarks)
    (r : IndexingReads) (a : Archive) : List Command :=
  Runs.script Archive.exec (CleanerCall.commands K o) a
    (cleanerRound gTxTickToLive { m with calls := [] } r).calls

end QubicBob
