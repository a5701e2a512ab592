import QubicBob.Archive.Move
import QubicBob.Lib.FlagBytes
import QubicBob.Network.DataThread
import QubicBob.Network.Replies

set_option autoImplicit false

/-! # What a node asks about ticks

`IORequestThread`: for the ticks from `gCurrentFetchingTick` on it asks for the tick data, if there is
none, for the votes, and for the transactions of the tick data. With a request go flags for what the
node has already, so that it is not sent again.

Every read of KeyDB and of `gCurrentFetchingTick` is a step of its own. A flag is set only for what
the node has (`TickRequester.step_sound`); but the tick of a request and the tick its flags are about
are read one after the other.
-/

namespace QubicBob

open FlagBytes

/-! ## Requests -/

inductive TickRequest where
  | RequestTickData (tick : BitVec 32)
  | RequestedQuorumTick (tick : BitVec 32) (voteFlags : List Byte)
  | RequestedTickTransactions (tick : BitVec 32) (flag : List Byte)
  deriving DecidableEq

namespace TickRequest

def type : TickRequest → Nat
  | RequestTickData _ => REQUEST_TICK_DATA
  | RequestedQuorumTick _ _ => REQUESTED_QUORUM_TICK
  | RequestedTickTransactions _ _ => REQUEST_TICK_TRANSACTIONS

/-- The struct. Behind the 85 bytes of vote flags are three bytes of padding. -/
def bytes : TickRequest → List Byte
  | RequestTickData tick => leBytes 4 tick
  | RequestedQuorumTick tick voteFlags => leBytes 4 tick ++ (voteFlags ++ List.replicate 3 0)
  | RequestedTickTransactions tick flag => leBytes 4 tick ++ flag

end TickRequest

/-- Flags for these votes. -/
def voteFlags (tvs : List TickVote) : List Byte :=
  (tvs.map fun tv => tv.computorIndex.toNat).foldl setFlag
    (List.replicate ((NUMBER_OF_COMPUTORS + 7) / 8) 0)

/-- A batch of `db_get_tick_votes`. -/
def votesOfBatch (db : TickKeyDB) (tick : BitVec 32) (start : Nat) : List TickVote :=
  (((List.finRange NUMBER_OF_COMPUTORS).drop start).take VOTES_BATCH_SIZE).filterMap
    fun i => dbGetTickVote db tick (BitVec.ofNat 16 i.val)

/-! ## The thread -/

/-- What votes are asked for: those of `refetchTickVotes`, or those of the tick at an offset. -/
inductive VoteJob where
  | refetch
  | offset (k : Nat) (have_next_td : Bool)
  deriving DecidableEq

inductive RequestPhase where
  /-- the head of the loop -/
  | start
  | pace
  /-- the loop over the offsets -/
  | offset (k : Nat)
  | noTickData (k : Nat)
  /-- the tick of the request is next -/
  | rqt (job : VoteJob)
  /-- the tick whose votes are read is next -/
  | quorum (job : VoteJob) (rqt : BitVec 32)
  | readVotes (job : VoteJob) (rqt tick : BitVec 32) (start : Nat) (tvs : List TickVote)
  | askVotes (job : VoteJob) (rqt tick : BitVec 32) (tvs : List TickVote)
  | transactions (k : Nat) (have_next_td : Bool)
  | rtt (k : Nat) (td : TickData)
  /-- the loop over the transactions of the tick data -/
  | flags (k : Nat) (td : TickData) (rtt : BitVec 32) (i : Nat) (flag : List Byte) (count : Nat)

structure TickRequester where
  futureOffset : Nat
  refetchTickVotes : Int := -1
  phase : RequestPhase := .start

/-- What the thread reads: KeyDB, whether it answers, the progress of the other threads, and whether
the request cycle is over. -/
structure RequestView where
  K : KangarooTwelve
  ticks : TickKeyDB
  /-- the key `vtick:<tick>` exists -/
  hasVtick : BitVec 32 → Bool
  up : Bool
  gCurrentFetchingTick : BitVec 32
  gCurrentVerifyLoggingTick : BitVec 32
  due : Bool

namespace TickRequester

variable (v : RequestView) (r : TickRequester)

def dbHasTickData (tick : BitVec 32) : Bool :=
  v.up && ((v.ticks.tickData tick).isSome || v.hasVtick tick)

/-- The tick of a job, read anew each time. -/
def tickOf : VoteJob → BitVec 32
  | .refetch => BitVec.ofInt 32 r.refetchTickVotes
  | .offset k _ => v.gCurrentFetchingTick + BitVec.ofNat 32 k

/-- One step of the thread, with the request it sends. -/
def step : Option TickRequest × TickRequester :=
  match r.phase with
  | .start =>
      if r.refetchTickVotes ≠ -1 then (none, { r with phase := .rqt .refetch })
      else (none, { r with phase := .pace })
  | .pace =>
      -- not too far ahead of the verifier
      if v.gCurrentVerifyLoggingTick + 1000 < v.gCurrentFetchingTick then
        (none, { r with phase := .start })
      else if v.due then (none, { r with phase := .offset 0 })
      else (none, { r with phase := .start })
  | .offset k =>
      if k < r.futureOffset then
        if dbHasTickData v (v.gCurrentFetchingTick + BitVec.ofNat 32 k) then
          (none, { r with phase := .rqt (.offset k true) })
        else (none, { r with phase := .noTickData k })
      else (none, { r with phase := .start })
  | .noTickData k =>
      (some (.RequestTickData (v.gCurrentFetchingTick + BitVec.ofNat 32 k)),
        { r with phase := .rqt (.offset k false) })
  | .rqt job => (none, { r with phase := .quorum job (r.tickOf v job) })
  | .quorum job rqt => (none, { r with phase := .readVotes job rqt (r.tickOf v job) 0 [] })
  | .readVotes job rqt tick start tvs =>
      -- an error ends the loop over the batches, and what has been read is used
      if start < NUMBER_OF_COMPUTORS ∧ v.up = true then
        (none, { r with
          phase := .readVotes job rqt tick (start + VOTES_BATCH_SIZE)
            (tvs ++ votesOfBatch v.ticks tick start) })
      else (none, { r with phase := .askVotes job rqt tick tvs })
  | .askVotes job rqt _ tvs =>
      let request := if tvs.length < NUMBER_OF_COMPUTORS then
        some (TickRequest.RequestedQuorumTick rqt (voteFlags tvs)) else none
      match job with
      | .refetch => (request, { r with refetchTickVotes := -1, phase := .pace })
      | .offset k have_next_td => (request, { r with phase := .transactions k have_next_td })
  | .transactions k have_next_td =>
      if have_next_td then
        let td := if v.up then
          dbGetTickData v.ticks (v.gCurrentFetchingTick + BitVec.ofNat 32 k) else none
        (none, { r with phase := .rtt k (td.getD TickData.zero) })
      else (none, { r with phase := .offset (k + 1) })
  | .rtt k td =>
      (none, { r with
        phase := .flags k td (v.gCurrentFetchingTick + BitVec.ofNat 32 k) 0
          (List.replicate (NUMBER_OF_TRANSACTIONS_PER_TICK / 8) 0) 0 })
  | .flags k td rtt i flag count =>
      if h : i < NUMBER_OF_TRANSACTIONS_PER_TICK then
        if td.transactionDigests ⟨i, h⟩ = m256i.zero then
          (none, { r with phase := .flags k td rtt (i + 1) flag count })
        else if v.up && dbCheckTransactionExist v.ticks
            (getIdentityFromPublicKey v.K (td.transactionDigests ⟨i, h⟩) true) then
          (none, { r with phase := .flags k td rtt (i + 1) (setFlag flag i) count })
        else (none, { r with phase := .flags k td rtt (i + 1) flag (count + 1) })
      else
        (if count ≠ 0 then some (.RequestedTickTransactions rtt flag) else none,
          { r with phase := .offset (k + 1) })

end TickRequester

/-! ## Flags are for what the node has -/

/-- The votes read so far are stored, and so are the transactions flagged so far. -/
def RequestPhase.Sound (vote : TickVote → Prop) (transaction : m256i → Prop) : RequestPhase → Prop
  | .readVotes _ _ tick _ tvs => ∀ tv ∈ tvs, tv.tick = tick ∧ tv.computorIndex.toNat <
      NUMBER_OF_COMPUTORS ∧ vote tv
  | .askVotes _ _ tick tvs => ∀ tv ∈ tvs, tv.tick = tick ∧ tv.computorIndex.toNat <
      NUMBER_OF_COMPUTORS ∧ vote tv
  | .flags _ td _ i flag _ => flag.length = NUMBER_OF_TRANSACTIONS_PER_TICK / 8 ∧
      ∀ j, testFlag flag j = true → ∃ h : j < NUMBER_OF_TRANSACTIONS_PER_TICK, j < i ∧
        td.transactionDigests ⟨j, h⟩ ≠ m256i.zero ∧ transaction (td.transactionDigests ⟨j, h⟩)
  | _ => True

section sound

variable {vote vote' : TickVote → Prop} {transaction transaction' : m256i → Prop}

theorem RequestPhase.Sound.mono {p : RequestPhase} (h : p.Sound vote transaction)
    (hvote : ∀ tv, vote tv → vote' tv) (htransaction : ∀ d, transaction d → transaction' d) :
    p.Sound vote' transaction' := by
  cases p with
  | readVotes job rqt tick start tvs =>
      exact fun tv htv => ⟨(h tv htv).1, (h tv htv).2.1, hvote tv (h tv htv).2.2⟩
  | askVotes job rqt tick tvs =>
      exact fun tv htv => ⟨(h tv htv).1, (h tv htv).2.1, hvote tv (h tv htv).2.2⟩
  | flags k td rtt i flag count =>
      refine ⟨h.1, fun j hj => ?_⟩
      obtain ⟨hlt, hi, hne, htx⟩ := h.2 j hj
      exact ⟨hlt, hi, hne, htransaction _ htx⟩
  | _ => exact trivial

theorem mem_votesOfBatch {db : TickKeyDB} {tick : BitVec 32} {start : Nat} {tv : TickVote}
    (h : tv ∈ votesOfBatch db tick start) :
    tv.tick = tick ∧ tv.computorIndex.toNat < NUMBER_OF_COMPUTORS ∧
      dbGetTickVote db tv.tick tv.computorIndex = some tv := by
  have hall : tv ∈ dbGetTickVotes db tick := by
    obtain ⟨i, hi, hget⟩ := List.mem_filterMap.mp h
    exact List.mem_filterMap.mpr ⟨i, List.mem_finRange i, hget⟩
  obtain ⟨i, -, hget⟩ := List.mem_filterMap.mp hall
  obtain ⟨htick, hindex⟩ := mem_dbGetTickVotes hall
  refine ⟨htick, hindex, ?_⟩
  rw [htick, (db.vote_key hget).2]
  exact hget

/-- A step reads only what is stored. -/
theorem TickRequester.step_sound {v : RequestView} {r : TickRequester}
    (hvote : ∀ tv, dbGetTickVote v.ticks tv.tick tv.computorIndex = some tv → vote tv)
    (htransaction : ∀ d, dbCheckTransactionExist v.ticks (getIdentityFromPublicKey v.K d true) = true →
      transaction d) (h : r.phase.Sound vote transaction) :
    (r.step v).2.phase.Sound vote transaction := by
  unfold TickRequester.step
  cases hp : r.phase with
  | start =>
      dsimp only
      split
      · exact trivial
      · exact trivial
  | pace =>
      dsimp only
      split
      · exact trivial
      split
      · exact trivial
      · exact trivial
  | offset k =>
      dsimp only
      split
      · split
        · exact trivial
        · exact trivial
      · exact trivial
  | noTickData k => exact trivial
  | rqt job => exact trivial
  | quorum job rqt => exact fun tv htv => absurd htv List.not_mem_nil
  | readVotes job rqt tick start tvs =>
      rw [hp] at h
      dsimp only
      split
      · intro tv htv
        rcases List.mem_append.mp htv with hold | hnew
        · exact h tv hold
        · obtain ⟨htick, hindex, hget⟩ := mem_votesOfBatch hnew
          exact ⟨htick, hindex, hvote tv hget⟩
      · exact h
  | askVotes job rqt tick tvs =>
      cases job with
      | refetch => exact trivial
      | offset k have_next_td => exact trivial
  | transactions k have_next_td =>
      dsimp only
      split
      · exact trivial
      · exact trivial
  | rtt k td =>
      refine ⟨List.length_replicate, fun j hj => ?_⟩
      rw [testFlag_replicate] at hj
      exact absurd hj Bool.false_ne_true
  | flags k td rtt i flag count =>
      rw [hp] at h
      obtain ⟨hlen, hall⟩ := h
      have hnext : ∀ j, testFlag flag j = true → ∃ h : j < NUMBER_OF_TRANSACTIONS_PER_TICK,
          j < i + 1 ∧ td.transactionDigests ⟨j, h⟩ ≠ m256i.zero ∧
            transaction (td.transactionDigests ⟨j, h⟩) := by
        intro j hj
        obtain ⟨hlt, hi, hrest⟩ := hall j hj
        exact ⟨hlt, hi.trans (Nat.lt_succ_self i), hrest⟩
      dsimp only
      split
      · next hi =>
        split
        · exact ⟨hlen, hnext⟩
        · next hne =>
          split
          · next hstored =>
            rw [Bool.and_eq_true] at hstored
            refine ⟨(length_setFlag flag i).trans hlen, fun j hj => ?_⟩
            rw [testFlag_setFlag (by rw [hlen]; exact hi), Bool.or_eq_true,
              decide_eq_true_eq] at hj
            rcases hj with rfl | hold
            · exact ⟨hi, Nat.lt_succ_self j, hne, htransaction _ hstored.2⟩
            · exact hnext j hold
          · exact ⟨hlen, hnext⟩
      · exact trivial

end sound

end QubicBob
