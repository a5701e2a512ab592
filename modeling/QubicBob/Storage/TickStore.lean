import QubicBob.Basic.Bytes
import QubicBob.Lib.Digits

set_option autoImplicit false

/-! # Stored ticks

What KeyDB and Kvrocks hold about a tick: the votes under `tick_vote:<tick>:<computorIndex>`, the
tick data under `tick_data:<tick>`, the transactions under `transaction:<hash>`, and the compressed
record `vtick:<tick>` that the garbage cleaner writes. The keys of a vote and of a tick data are
made from their own fields, so the stores carry this as a field: a store in which a key holds a vote
of another computor or tick cannot be built, and every operation below gives a store again.
-/

namespace QubicBob

def NUMBER_OF_TRANSACTIONS_PER_TICK : Nat := 1024

def NUMBER_OF_COMPUTORS : Nat := 676

/-! ## Records -/

structure TickVote where
  computorIndex : BitVec 16
  epoch : BitVec 16
  tick : BitVec 32
  millisecond : BitVec 16
  second : BitVec 8
  minute : BitVec 8
  hour : BitVec 8
  day : BitVec 8
  month : BitVec 8
  year : BitVec 8
  prevResourceTestingDigest : BitVec 32
  saltedResourceTestingDigest : BitVec 32
  prevTransactionBodyDigest : BitVec 32
  saltedTransactionBodyDigest : BitVec 32
  prevSpectrumDigest : m256i
  prevUniverseDigest : m256i
  prevComputerDigest : m256i
  saltedSpectrumDigest : m256i
  saltedUniverseDigest : m256i
  saltedComputerDigest : m256i
  transactionDigest : m256i
  expectedNextTickTransactionDigest : m256i
  signature : BitVec 512
  deriving DecidableEq

/-- The `memset` vote. -/
def TickVote.zero : TickVote :=
  ⟨0, 0, 0, 0, 0, 0, 0, 0, 0, 0, 0, 0, 0, 0, 0, 0, 0, 0, 0, 0, 0, 0, 0⟩

structure TickData where
  computorIndex : BitVec 16
  epoch : BitVec 16
  tick : BitVec 32
  millisecond : BitVec 16
  second : BitVec 8
  minute : BitVec 8
  hour : BitVec 8
  day : BitVec 8
  month : BitVec 8
  year : BitVec 8
  timelock : m256i
  transactionDigests : Fin NUMBER_OF_TRANSACTIONS_PER_TICK → m256i
  contractFees : Fin NUMBER_OF_TRANSACTIONS_PER_TICK → BitVec 64
  signature : BitVec 512

/-- `TickData td{}`. -/
def TickData.zero : TickData :=
  ⟨0, 0, 0, 0, 0, 0, 0, 0, 0, 0, 0, fun _ => 0, fun _ => 0, 0⟩

/-- The memory image of a tick data, which is what is hashed. -/
def TickData.bytes (td : TickData) : List Byte :=
  leBytes 2 td.computorIndex ++ leBytes 2 td.epoch ++ leBytes 4 td.tick
    ++ leBytes 2 td.millisecond ++ leBytes 1 td.second ++ leBytes 1 td.minute ++ leBytes 1 td.hour
    ++ leBytes 1 td.day ++ leBytes 1 td.month ++ leBytes 1 td.year ++ td.timelock.bytes
    ++ (List.ofFn td.transactionDigests).flatMap m256i.bytes
    ++ (List.ofFn td.contractFees).flatMap (leBytes 8) ++ leBytes 64 td.signature

structure FullTickStruct where
  td : TickData
  tv : Fin NUMBER_OF_COMPUTORS → TickVote

/-- The base-26 digits of a number, the lowest first. -/
def base26 : Nat → Nat → List Nat
  | 0, _ => []
  | n + 1, x => x % 26 :: base26 n (x / 26)

theorem base26_eq_digits (n x : Nat) : base26 n x = Digits.digits 26 n x := by
  induction n generalizing x with
  | zero => rfl
  | succ n ih => rw [base26, ih, Digits.digits]

theorem length_base26 (n x : Nat) : (base26 n x).length = n := by
  rw [base26_eq_digits, Digits.length_digits]

theorem lt_of_mem_base26 {n x d : Nat} (h : d ∈ base26 n x) : d < 26 := by
  rw [base26_eq_digits] at h
  exact Digits.lt_of_mem_digits (by decide) h

/-- The 60 letters of a public key or digest: 14 for each 8 bytes, and four of a checksum. The
hash is an extendable-output function, so its three bytes are the first three of the 32. -/
def getIdentityFromPublicKey (K : KangarooTwelve) (publicKey : m256i) (isLowerCase : Bool) :
    List Char :=
  let fragments := (List.range 4).flatMap
    (fun i => base26 14 (publicKey.extractLsb' (64 * i) 64).toNat)
  let identityBytesChecksum := (K.hash32 publicKey.bytes).toNat % 2 ^ 24 &&& 0x3FFFF
  (fragments ++ base26 4 identityBytesChecksum).map
    (fun d => Char.ofNat (d + if isLowerCase then 97 else 65))

/-! ## The stores -/

/-- The value of a key: a record of the size its readers expect, or something else. -/
inductive Cell (α : Type) where
  | sized (a : α)
  | otherSize

def Cell.read? {α : Type} : Option (Cell α) → Option α
  | some (.sized a) => some a
  | _ => none

/-- No vote and no tick data is stored under a wrong key where none is stored. -/
theorem no_vote_key {tick : BitVec 32} {i : BitVec 16} {v : TickVote}
    (h : Cell.read? (none : Option (Cell TickVote)) = some v) :
    v.tick = tick ∧ v.computorIndex = i := nomatch h

theorem no_data_key {tick : BitVec 32} {td : TickData}
    (h : Cell.read? (none : Option (Cell TickData)) = some td) : td.tick = tick := nomatch h

/-- KeyDB, as far as ticks are concerned. -/
structure TickKeyDB where
  tickVote : BitVec 32 → BitVec 16 → Option (Cell TickVote)
  tickData : BitVec 32 → Option (Cell TickData)
  hasTransaction : List Char → Bool
  vote_key : ∀ {tick i v}, Cell.read? (tickVote tick i) = some v →
    v.tick = tick ∧ v.computorIndex = i
  data_key : ∀ {tick td}, Cell.read? (tickData tick) = some td → td.tick = tick

/-- A record `vtick:<tick>`: the entry of a computor is its vote of the tick, or all zero if there
was none. The cleaner does not keep votes of epoch 0. -/
def FullTickStruct.WellFormed (tick : BitVec 32) (full : FullTickStruct) : Prop :=
  ∀ i, full.tv i = TickVote.zero ∨
    (full.tv i).tick = tick ∧ (full.tv i).computorIndex = BitVec.ofNat 16 i.val ∧
      (full.tv i).epoch ≠ 0

/-- Kvrocks: `none` stands for a missing record and for one that does not decompress. -/
structure TickKvrocks where
  vtick : BitVec 32 → Option FullTickStruct
  vtick_wf : ∀ {tick full}, vtick tick = some full → full.WellFormed tick

/-! ## Reading -/

def dbGetTickVote (db : TickKeyDB) (tick : BitVec 32) (computorIndex : BitVec 16) :
    Option TickVote :=
  Cell.read? (db.tickVote tick computorIndex)

/-- The votes under the keys `tick_vote:<tick>:0` to `tick_vote:<tick>:675`. -/
def dbGetTickVotes (db : TickKeyDB) (tick : BitVec 32) : List TickVote :=
  (List.finRange NUMBER_OF_COMPUTORS).filterMap
    (fun i => dbGetTickVote db tick (BitVec.ofNat 16 i.val))

def dbGetTickData (db : TickKeyDB) (tick : BitVec 32) : Option TickData :=
  Cell.read? (db.tickData tick)

def dbCheckTransactionExist (db : TickKeyDB) (hash : List Char) : Bool := db.hasTransaction hash

/-- All 676 entries of the record, the empty ones too. -/
def dbGetTickVotesFromVtick (kv : TickKvrocks) (tick : BitVec 32) : List TickVote :=
  match kv.vtick tick with
  | none => []
  | some full => List.ofFn full.tv

def dbTryToGetVotes (db : TickKeyDB) (kv : TickKvrocks) (tick : BitVec 32) : List TickVote :=
  let votes := dbGetTickVotes db tick
  if votes.isEmpty then dbGetTickVotesFromVtick kv tick else votes

/-! ## Writing -/

/-- `SET … NX` under the vote's own key. -/
def dbInsertTickVote (db : TickKeyDB) (vote : TickVote) : TickKeyDB :=
  if (db.tickVote vote.tick vote.computorIndex).isSome then db
  else
    { db with
      tickVote := fun t i =>
        if t = vote.tick ∧ i = vote.computorIndex then some (.sized vote) else db.tickVote t i
      vote_key := by
        intro t i v h
        split at h
        · next hkey =>
            rw [← Option.some.inj h]
            exact ⟨hkey.1.symm, hkey.2.symm⟩
        · exact db.vote_key h }

/-- `SET` under the tick of the data. -/
def dbInsertTickData (db : TickKeyDB) (data : TickData) : TickKeyDB :=
  { db with
    tickData := fun t => if t = data.tick then some (.sized data) else db.tickData t
    data_key := by
      intro t td h
      split at h
      · next hkey =>
          rw [← Option.some.inj h]
          exact hkey.symm
      · exact db.data_key h }

def dbDeleteTickData (db : TickKeyDB) (tick : BitVec 32) : TickKeyDB :=
  { db with
    tickData := fun t => if t = tick then none else db.tickData t
    data_key := by
      intro t td h
      split at h
      · exact absurd h (by simp [Cell.read?])
      · exact db.data_key h }

/-- What the receiving side of the node knows: the epoch, the progress of the verifier, the keys of
the computors and the signature check. -/
structure Receiver where
  gCurrentProcessingEpoch : BitVec 16
  gCurrentVerifyLoggingTick : BitVec 32
  publicKeys : BitVec 16 → m256i
  verifyVote : TickVote → m256i → Bool
  verifyData : TickData → m256i → Bool

/-- The signature is checked with `computorIndex ^ 3`; the vote is stored as it came. -/
def processTickVote (R : Receiver) (db : TickKeyDB) (vote : TickVote) : TickKeyDB :=
  if vote.epoch ≠ R.gCurrentProcessingEpoch then db
  else if vote.tick < R.gCurrentVerifyLoggingTick - 1 then db
  else if R.verifyVote { vote with computorIndex := vote.computorIndex ^^^ 3 }
      (R.publicKeys vote.computorIndex) then dbInsertTickVote db vote
  else db

def processTickData (R : Receiver) (db : TickKeyDB) (data : TickData) : TickKeyDB :=
  if data.epoch ≠ R.gCurrentProcessingEpoch then db
  else if data.tick < R.gCurrentVerifyLoggingTick - 1 then db
  else if R.verifyData { data with computorIndex := data.computorIndex ^^^ 8 }
      (R.publicKeys data.computorIndex) then dbInsertTickData db data
  else db

section Keep

variable {R : Receiver} {db : TickKeyDB} {tick : BitVec 32} {i : BitVec 16} {v : TickVote}

/-- A stored vote is not written over. -/
theorem dbInsertTickVote_keeps (h : dbGetTickVote db tick i = some v) (vote : TickVote) :
    dbGetTickVote (dbInsertTickVote db vote) tick i = some v := by
  unfold dbInsertTickVote
  split
  · exact h
  · next hfree =>
      have hne : ¬(tick = vote.tick ∧ i = vote.computorIndex) := by
        rintro ⟨rfl, rfl⟩
        rw [Bool.not_eq_true, Option.isSome_eq_false_iff, Option.isNone_iff_eq_none] at hfree
        rw [dbGetTickVote, hfree] at h
        exact absurd h (by simp [Cell.read?])
      rw [dbGetTickVote] at h ⊢
      dsimp only
      rw [if_neg hne]
      exact h

theorem processTickVote_keeps (h : dbGetTickVote db tick i = some v) (vote : TickVote) :
    dbGetTickVote (processTickVote R db vote) tick i = some v := by
  unfold processTickVote
  split
  · exact h
  split
  · exact h
  split
  · exact dbInsertTickVote_keeps h vote
  · exact h

theorem dbGetTickVote_processTickData (data : TickData) :
    dbGetTickVote (processTickData R db data) tick i = dbGetTickVote db tick i := by
  unfold processTickData
  split
  · rfl
  split
  · rfl
  split
  · rfl
  · rfl

end Keep

/-! ## Moving a tick to Kvrocks -/

/-- The loop over the votes: each goes to the entry of its computor. -/
def packVotes : List TickVote → (Fin NUMBER_OF_COMPUTORS → TickVote) →
    Fin NUMBER_OF_COMPUTORS → TickVote
  | [], tv => tv
  | v :: votes, tv =>
      if h : v.computorIndex.toNat < NUMBER_OF_COMPUTORS ∧ v.epoch ≠ 0 then
        -- a later vote of the same computor would go over an earlier one
        packVotes votes (Function.update tv ⟨v.computorIndex.toNat, h.1⟩ v)
      else packVotes votes tv

/-- The record `compressTickAndMoveToKVRocks` makes of the votes; the tick data is zero if there is
none. -/
def fullTickOf (db : TickKeyDB) (tick : BitVec 32) : FullTickStruct :=
  ⟨(dbGetTickData db tick).getD TickData.zero,
    packVotes (dbGetTickVotes db tick) (fun _ => TickVote.zero)⟩

/-- The votes of the record with a zero transaction digest. -/
def emptyCount (db : TickKeyDB) (tick : BitVec 32) : Nat :=
  (dbGetTickVotes db tick).countP (fun v => v.computorIndex.toNat < NUMBER_OF_COMPUTORS ∧
    v.epoch ≠ 0 ∧ v.transactionDigest = m256i.zero)

section Packing

theorem mem_dbGetTickVotes {db : TickKeyDB} {tick : BitVec 32} {v : TickVote}
    (h : v ∈ dbGetTickVotes db tick) :
    v.tick = tick ∧ v.computorIndex.toNat < NUMBER_OF_COMPUTORS := by
  obtain ⟨i, _, hi⟩ := List.mem_filterMap.mp h
  obtain ⟨htick, hindex⟩ := db.vote_key hi
  refine ⟨htick, ?_⟩
  rw [hindex, BitVec.toNat_ofNat]
  exact lt_of_le_of_lt (Nat.mod_le _ _) i.isLt

/-- Packing votes of the tick keeps the entries well formed. -/
theorem packVotes_wf {tick : BitVec 32} {votes : List TickVote} :
    ∀ {tv : Fin NUMBER_OF_COMPUTORS → TickVote}, (∀ v ∈ votes, v.tick = tick) →
      FullTickStruct.WellFormed tick ⟨TickData.zero, tv⟩ →
      FullTickStruct.WellFormed tick ⟨TickData.zero, packVotes votes tv⟩ := by
  induction votes with
  | nil => exact fun _ h => h
  | cons v votes ih =>
      intro tv hv hwf
      have hrest : ∀ v ∈ votes, v.tick = tick := fun v' h => hv v' (List.mem_cons_of_mem _ h)
      unfold packVotes
      split
      · next hkeep =>
          refine ih hrest ?_
          intro i
          dsimp only
          by_cases hi : i = ⟨v.computorIndex.toNat, hkeep.1⟩
          · subst hi
            rw [Function.update_self]
            exact Or.inr ⟨hv v List.mem_cons_self, by simp, hkeep.2⟩
          · rw [Function.update_of_ne hi]
            exact hwf i
      · exact ih hrest hwf

theorem fullTickOf_wf (db : TickKeyDB) (tick : BitVec 32) :
    (fullTickOf db tick).WellFormed tick :=
  packVotes_wf (fun _ h => (mem_dbGetTickVotes h).1) (fun _ => Or.inl rfl)

end Packing

/-- The record is written when there is a tick data, or enough empty votes to do without. -/
def compressTickAndMoveToKVRocks (db : TickKeyDB) (kv : TickKvrocks) (tick : BitVec 32) :
    TickKvrocks :=
  if (dbGetTickData db tick).isNone ∧ emptyCount db tick ≤ 225 then kv
  else
    { vtick := fun t => if t = tick then some (fullTickOf db tick) else kv.vtick t
      vtick_wf := by
        intro t full h
        split at h
        · next hkey =>
            rw [hkey, ← Option.some.inj h]
            exact fullTickOf_wf db tick
        · exact kv.vtick_wf h }

end QubicBob
