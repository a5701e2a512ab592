import QubicBob.Lib.CountMap
import QubicBob.Storage.TickStore

set_option autoImplicit false

/-! # The quorum of a tick

`verifyQuorum` of `IOProcessor.cpp`: fetch the votes of a tick, count their transaction digests in
an ordered map, take the first digest that reaches its threshold, and compare it with the hash of
the tick data. The tick data and the votes are kept from call to call.

`verifyQuorum_result_iff` says when a call returns true, for any content of what it keeps. A
tick without transactions needs 226 votes of the 676 and any other 451; the two cannot both be
reached, so the order in which the map is gone through plays no role.
-/

namespace QubicBob

open CountMap

/-! ## Counting -/

/-- The key of the map in `verifyQuorum`. Its comparator looks at the transaction digest only. -/
structure ConsensusData where
  prevResourceTestingDigest : BitVec 32
  prevTransactionBodyDigest : BitVec 32
  prevSpectrumDigest : m256i
  prevUniverseDigest : m256i
  prevComputerDigest : m256i
  transactionDigest : m256i
  deriving DecidableEq

def TickVote.consensusData (vote : TickVote) : ConsensusData where
  prevResourceTestingDigest := vote.prevResourceTestingDigest
  prevTransactionBodyDigest := vote.prevTransactionBodyDigest
  prevSpectrumDigest := vote.prevSpectrumDigest
  prevUniverseDigest := vote.prevUniverseDigest
  prevComputerDigest := vote.prevComputerDigest
  transactionDigest := vote.transactionDigest

/-- `memcmp` compares the bytes from the first one on. -/
def memcmpKey (d : m256i) : List Nat := d.bytes.map BitVec.toNat

def ConsensusData.key (cd : ConsensusData) : List Nat := memcmpKey cd.transactionDigest

/-- The vote is of the given tick and epoch. -/
def TickVote.isOf (vote : TickVote) (tick : BitVec 32) (epoch : BitVec 16) : Bool :=
  vote.tick == tick && vote.epoch == epoch

/-- The votes of one tick, by computor. -/
abbrev VoteSet := Fin NUMBER_OF_COMPUTORS → TickVote

def currentVotes (tick : BitVec 32) (epoch : BitVec 16) (votes : VoteSet) : List TickVote :=
  (List.ofFn votes).filter (fun vote => vote.isOf tick epoch)

def digestCount (tick : BitVec 32) (epoch : BitVec 16) (votes : VoteSet) :
    List (ConsensusData × Nat) :=
  countAll ConsensusData.key ((currentVotes tick epoch votes).map TickVote.consensusData)

/-- The number of votes a digest needs: 226 for an empty tick, else 451. -/
def reachesThreshold (digest : m256i) (count : Nat) : Bool :=
  if digest = m256i.zero then 226 ≤ count else 451 ≤ count

/-! ## The check -/

/-- The two arguments `verifyQuorum` takes by reference. -/
structure QuorumCache where
  td : TickData
  votes : VoteSet

def QuorumCache.zeroed : QuorumCache := ⟨TickData.zero, fun _ => TickVote.zero⟩

/-- A vote of another tick is replaced by the stored one, if there is one. -/
def fetchVotes (db : TickKeyDB) (tick : BitVec 32) (votes : VoteSet) : VoteSet := fun i =>
  if (votes i).tick ≠ tick then (dbGetTickVote db tick (BitVec.ofNat 16 i.val)).getD (votes i)
  -- a vote of this tick is never read again, whatever its epoch
  else votes i

def TickData.isOf (td : TickData) (tick : BitVec 32) (epoch : BitVec 16) : Bool :=
  td.tick == tick && td.epoch == epoch

/-- The tick data of the check: the kept one if it is of this tick and epoch, else the stored
one. -/
def usedTickData (epoch : BitVec 16) (db : TickKeyDB) (tick : BitVec 32) (td : TickData) :
    Option TickData :=
  if td.isOf tick epoch then some td else dbGetTickData db tick

def allTransactionsStored (K : KangarooTwelve) (db : TickKeyDB) (td : TickData) : Bool :=
  (List.ofFn td.transactionDigests).all (fun d =>
    d == m256i.zero || dbCheckTransactionExist db (getIdentityFromPublicKey K d true))

/-- What a call returns, and what it leaves in the two arguments and in KeyDB. -/
structure QuorumOutcome where
  result : Bool
  cache : QuorumCache
  db : TickKeyDB

/-- The part after the digest of the quorum is known. -/
def verifyTickData (K : KangarooTwelve) (epoch : BitVec 16) (db : TickKeyDB) (tick : BitVec 32)
    (cache : QuorumCache) (maxDigest : m256i) : QuorumOutcome :=
  match usedTickData epoch db tick cache.td with
  | none => ⟨false, cache, db⟩
  | some td =>
      let cache := { cache with td := td }
      if td.isOf tick epoch = false then ⟨false, cache, db⟩
      -- the stored copy goes, the one in `cache` stays
      else if K.hash32 td.bytes ≠ maxDigest then ⟨false, cache, dbDeleteTickData db tick⟩
      else ⟨allTransactionsStored K db td, cache, db⟩

/-- `verifyQuorum`, with the order in which the entries of the map are gone through. -/
def verifyQuorumWith (order : List (ConsensusData × Nat) → List (ConsensusData × Nat))
    (K : KangarooTwelve) (epoch : BitVec 16) (db : TickKeyDB) (tick : BitVec 32)
    (cache : QuorumCache) : QuorumOutcome :=
  let votes := fetchVotes db tick cache.votes
  let cache := { cache with votes := votes }
  if (currentVotes tick epoch votes).length < 225 then ⟨false, cache, db⟩
  else
    -- the loop over the map breaks at the first digest with enough votes
    match (order (digestCount tick epoch votes)).find?
        (fun e => reachesThreshold e.1.transactionDigest e.2) with
    | none => ⟨false, cache, db⟩
    | some e =>
        -- an empty tick needs no tick data
        if e.1.transactionDigest = m256i.zero then ⟨true, cache, db⟩
        else verifyTickData K epoch db tick cache e.1.transactionDigest

/-- A `std::map` is gone through in the order of its keys. -/
def verifyQuorum (K : KangarooTwelve) (epoch : BitVec 16) (db : TickKeyDB) (tick : BitVec 32)
    (cache : QuorumCache) : QuorumOutcome :=
  verifyQuorumWith id K epoch db tick cache

/-! ## What the map counts -/

/-- The number of votes of the tick and epoch with a given digest. -/
def votesFor (tick : BitVec 32) (epoch : BitVec 16) (votes : VoteSet) (digest : m256i) : Nat :=
  (List.ofFn votes).countP (fun vote => vote.isOf tick epoch && vote.transactionDigest == digest)

section Counting

variable {tick : BitVec 32} {epoch : BitVec 16} {votes : VoteSet} {d d' : m256i}

theorem memcmpKey_injective : Function.Injective memcmpKey := by
  intro a b h
  have hbytes : a.bytes = b.bytes := by
    have htoNat : Function.Injective (BitVec.toNat : Byte → Nat) :=
      fun _ _ h => BitVec.eq_of_toNat_eq h
    exact htoNat.list_map h
  apply BitVec.eq_of_getLsbD_eq
  intro i hi
  -- bit `i` is bit `i % 8` of byte `i / 8`
  have hbyte := congrArg (fun bs => (bs.getD (i / 8) 0).getLsbD (i % 8)) hbytes
  have hk : i / 8 < 32 := by omega
  simp only [m256i.bytes, leBytes, List.getD_eq_getElem?_getD, List.getElem?_map,
    List.getElem?_range hk, Option.map_some, Option.getD_some, BitVec.getLsbD_extractLsb'] at hbyte
  rw [show 8 * (i / 8) + i % 8 = i by omega] at hbyte
  simpa [Nat.mod_lt i (show 0 < 8 by decide)] using hbyte

theorem value_digestCount :
    value ConsensusData.key (memcmpKey d) (digestCount tick epoch votes)
      = votesFor tick epoch votes d := by
  unfold digestCount currentVotes votesFor
  rw [value_countAll, List.countP_map, List.countP_filter]
  refine List.countP_congr ?_
  intro vote _
  have hkey : vote.consensusData.key = memcmpKey d ↔ vote.transactionDigest = d :=
    memcmpKey_injective.eq_iff
  simp only [Function.comp_apply, hkey, Bool.and_eq_true, decide_eq_true_eq, beq_iff_eq]
  exact And.comm

/-- The entries of the map are the digests of the votes with their numbers. -/
theorem mem_digestCount {e : ConsensusData × Nat} (he : e ∈ digestCount tick epoch votes) :
    e.2 = votesFor tick epoch votes e.1.transactionDigest := by
  rw [← value_digestCount]
  exact ((sorted_countAll _).value_eq he).symm

theorem exists_mem_digestCount (h : 0 < votesFor tick epoch votes d) :
    ∃ e ∈ digestCount tick epoch votes, e.1.transactionDigest = d := by
  rw [← value_digestCount] at h
  obtain ⟨e, he, hkey⟩ := exists_mem_of_value_pos h
  exact ⟨e, he, memcmpKey_injective hkey⟩

/-- Two digests share the votes among them. -/
theorem votesFor_add_le (hne : d ≠ d') :
    votesFor tick epoch votes d + votesFor tick epoch votes d' ≤ NUMBER_OF_COMPUTORS := by
  have hrest : votesFor tick epoch votes d' ≤ (List.ofFn votes).countP
      (fun vote => ¬ (vote.isOf tick epoch && vote.transactionDigest == d)) := by
    apply List.countP_mono_left
    intro vote _ hvote
    rw [Bool.and_eq_true, beq_iff_eq] at hvote
    simpa [hvote.1, hvote.2] using hne.symm
  calc votesFor tick epoch votes d + votesFor tick epoch votes d'
      ≤ votesFor tick epoch votes d + (List.ofFn votes).countP
          (fun vote => ¬ (vote.isOf tick epoch && vote.transactionDigest == d)) :=
        Nat.add_le_add_left hrest _
    _ = (List.ofFn votes).length := (List.length_eq_countP_add_countP _).symm
    _ = NUMBER_OF_COMPUTORS := List.length_ofFn

theorem threshold_pos {n : Nat} (h : reachesThreshold d n = true) : 226 ≤ n := by
  unfold reachesThreshold at h
  split at h
  · exact of_decide_eq_true h
  · exact le_trans (by decide) (of_decide_eq_true h)

/-- At most one digest reaches its threshold. -/
theorem reachesThreshold_unique
    (h : reachesThreshold d (votesFor tick epoch votes d) = true)
    (h' : reachesThreshold d' (votesFor tick epoch votes d') = true) : d = d' := by
  by_contra hne
  have hsum : votesFor tick epoch votes d + votesFor tick epoch votes d' ≤ 676 :=
    votesFor_add_le hne
  have hlow := threshold_pos h
  have hlow' := threshold_pos h'
  unfold reachesThreshold at h h'
  -- only one of the two can be the digest of an empty tick
  by_cases hz : d = m256i.zero
  · have hz' : d' ≠ m256i.zero := fun hz' => hne (hz.trans hz'.symm)
    rw [if_neg hz'] at h'
    have hhigh := of_decide_eq_true h'
    omega
  · rw [if_neg hz] at h
    have hhigh := of_decide_eq_true h
    omega

end Counting

/-! ## When a call returns true -/

/-- The tick data is of the tick and epoch, hashes to the digest and all its transactions are
stored. -/
def TickDataPasses (K : KangarooTwelve) (epoch : BitVec 16) (db : TickKeyDB) (tick : BitVec 32)
    (digest : m256i) (td : TickData) : Prop :=
  td.tick = tick ∧ td.epoch = epoch ∧ K.hash32 td.bytes = digest ∧
    ∀ i, td.transactionDigests i ≠ m256i.zero →
      dbCheckTransactionExist db (getIdentityFromPublicKey K (td.transactionDigests i) true) = true

section Result

variable {K : KangarooTwelve} {tick : BitVec 32} {epoch : BitVec 16} {db : TickKeyDB}
  {cache : QuorumCache} {order : List (ConsensusData × Nat) → List (ConsensusData × Nat)}

theorem TickData.isOf_iff {td : TickData} :
    td.isOf tick epoch = true ↔ td.tick = tick ∧ td.epoch = epoch := by
  rw [TickData.isOf, Bool.and_eq_true, beq_iff_eq, beq_iff_eq]

theorem allTransactionsStored_iff {td : TickData} : allTransactionsStored K db td = true ↔
    ∀ i, td.transactionDigests i ≠ m256i.zero →
      dbCheckTransactionExist db (getIdentityFromPublicKey K (td.transactionDigests i) true)
        = true := by
  unfold allTransactionsStored
  rw [List.all_eq_true]
  constructor
  · intro h i hi
    have hstored := h _ (List.mem_ofFn.mpr ⟨i, rfl⟩)
    rw [Bool.or_eq_true, beq_iff_eq] at hstored
    exact hstored.resolve_left hi
  · intro h d hd
    obtain ⟨i, rfl⟩ := List.mem_ofFn.mp hd
    rw [Bool.or_eq_true, beq_iff_eq]
    by_cases hi : td.transactionDigests i = m256i.zero
    · exact Or.inl hi
    · exact Or.inr (h i hi)

theorem verifyTickData_result_iff {digest : m256i} :
    (verifyTickData K epoch db tick cache digest).result = true ↔
      ∃ td, usedTickData epoch db tick cache.td = some td ∧
        TickDataPasses K epoch db tick digest td := by
  unfold verifyTickData
  cases hused : usedTickData epoch db tick cache.td with
  | none => simp
  | some td =>
      have hone : (∃ td', some td = some td' ∧ TickDataPasses K epoch db tick digest td') ↔
          TickDataPasses K epoch db tick digest td := by
        constructor
        · rintro ⟨td', htd, hpass⟩
          rw [Option.some.inj htd]
          exact hpass
        · exact fun hpass => ⟨td, rfl, hpass⟩
      rw [hone]
      dsimp only
      -- the three checks in the order of the code
      by_cases hof : td.isOf tick epoch = true
      · obtain ⟨htick, hepoch⟩ := TickData.isOf_iff.mp hof
        rw [if_neg (by simp [hof])]
        by_cases hhash : K.hash32 td.bytes = digest
        · rw [if_neg (not_not.mpr hhash)]
          dsimp only
          rw [allTransactionsStored_iff]
          exact ⟨fun h => ⟨htick, hepoch, hhash, h⟩, fun h => h.2.2.2⟩
        · rw [if_pos hhash]
          exact ⟨fun h => absurd h Bool.false_ne_true, fun h => absurd h.2.2.1 hhash⟩
      · rw [if_pos (by simpa using hof)]
        exact ⟨fun h => absurd h Bool.false_ne_true,
          fun h => absurd (TickData.isOf_iff.mpr ⟨h.1, h.2.1⟩) hof⟩

/-- The search through the map finds the digest that reaches its threshold. -/
theorem find?_digestCount (horder : ∀ m, (order m).Perm m) {votes : VoteSet} {d : m256i}
    (h : reachesThreshold d (votesFor tick epoch votes d) = true) :
    ∃ e, (order (digestCount tick epoch votes)).find?
        (fun e => reachesThreshold e.1.transactionDigest e.2) = some e ∧
      e.1.transactionDigest = d := by
  obtain ⟨e, he, hd⟩ := exists_mem_digestCount (lt_of_lt_of_le (by decide) (threshold_pos h))
  have hreach : reachesThreshold e.1.transactionDigest e.2 = true := by
    rw [mem_digestCount he, hd]
    exact h
  cases hfind : (order (digestCount tick epoch votes)).find?
      (fun e => reachesThreshold e.1.transactionDigest e.2) with
  | none =>
      exact absurd hreach (List.find?_eq_none.mp hfind e ((horder _).mem_iff.mpr he))
  | some e' =>
      have he' := (horder _).mem_iff.mp (List.mem_of_find?_eq_some hfind)
      have hreach' := List.find?_some hfind
      rw [mem_digestCount he'] at hreach'
      exact ⟨e', rfl, reachesThreshold_unique hreach' h⟩

/-- With a digest that reaches its threshold, the call ends there or with the tick data. -/
theorem verifyQuorumWith_of_reached (horder : ∀ m, (order m).Perm m) {d : m256i}
    (h : reachesThreshold d (votesFor tick epoch (fetchVotes db tick cache.votes) d) = true) :
    verifyQuorumWith order K epoch db tick cache
      = if d = m256i.zero then ⟨true, ⟨cache.td, fetchVotes db tick cache.votes⟩, db⟩
        else verifyTickData K epoch db tick ⟨cache.td, fetchVotes db tick cache.votes⟩ d := by
  obtain ⟨e, hfind, hd⟩ := find?_digestCount horder h
  -- the votes for the digest are more than the 225 of the first check
  have henough : ¬ (currentVotes tick epoch (fetchVotes db tick cache.votes)).length < 225 := by
    have hlow := threshold_pos h
    have hle : votesFor tick epoch (fetchVotes db tick cache.votes) d
        ≤ (currentVotes tick epoch (fetchVotes db tick cache.votes)).length := by
      unfold votesFor currentVotes
      rw [← List.countP_eq_length_filter]
      apply List.countP_mono_left
      intro vote _ hvote
      exact (Bool.and_eq_true _ _ ▸ hvote).1
    omega
  unfold verifyQuorumWith
  dsimp only
  rw [if_neg henough, hfind]
  dsimp only
  rw [hd]

/-- Without one it returns false and has only fetched votes. -/
theorem verifyQuorumWith_of_not_reached (horder : ∀ m, (order m).Perm m)
    (h : ∀ d, reachesThreshold d (votesFor tick epoch (fetchVotes db tick cache.votes) d)
      = false) :
    verifyQuorumWith order K epoch db tick cache
      = ⟨false, ⟨cache.td, fetchVotes db tick cache.votes⟩, db⟩ := by
  have hfind : (order (digestCount tick epoch (fetchVotes db tick cache.votes))).find?
      (fun e => reachesThreshold e.1.transactionDigest e.2) = none := by
    rw [List.find?_eq_none]
    intro e he
    rw [mem_digestCount ((horder _).mem_iff.mp he), h]
    exact Bool.false_ne_true
  unfold verifyQuorumWith
  dsimp only
  rw [hfind]
  dsimp only
  rw [ite_self]

theorem verifyQuorum_of_reached {d : m256i}
    (h : reachesThreshold d (votesFor tick epoch (fetchVotes db tick cache.votes) d) = true) :
    verifyQuorum K epoch db tick cache
      = if d = m256i.zero then ⟨true, ⟨cache.td, fetchVotes db tick cache.votes⟩, db⟩
        else verifyTickData K epoch db tick ⟨cache.td, fetchVotes db tick cache.votes⟩ d :=
  verifyQuorumWith_of_reached (fun m => List.Perm.refl (id m)) h

theorem verifyQuorum_of_not_reached
    (h : ∀ d, reachesThreshold d (votesFor tick epoch (fetchVotes db tick cache.votes) d)
      = false) :
    verifyQuorum K epoch db tick cache
      = ⟨false, ⟨cache.td, fetchVotes db tick cache.votes⟩, db⟩ :=
  verifyQuorumWith_of_not_reached (fun m => List.Perm.refl (id m)) h

/-- A call returns true exactly when a digest reaches its threshold among the votes it has, and
this digest is zero or the tick data it uses passes. -/
theorem verifyQuorum_result_iff : (verifyQuorum K epoch db tick cache).result = true ↔
    ∃ d, reachesThreshold d (votesFor tick epoch (fetchVotes db tick cache.votes) d) = true ∧
      (d = m256i.zero ∨ ∃ td, usedTickData epoch db tick cache.td = some td ∧
        TickDataPasses K epoch db tick d td) := by
  constructor
  · intro hres
    by_cases hreach : ∃ d, reachesThreshold d
        (votesFor tick epoch (fetchVotes db tick cache.votes) d) = true
    · obtain ⟨d, hd⟩ := hreach
      refine ⟨d, hd, ?_⟩
      rw [verifyQuorum_of_reached hd] at hres
      by_cases hz : d = m256i.zero
      · exact Or.inl hz
      · rw [if_neg hz, verifyTickData_result_iff] at hres
        exact Or.inr hres
    · push Not at hreach
      rw [verifyQuorum_of_not_reached (fun d => Bool.eq_false_iff.mpr (hreach d))] at hres
      exact absurd hres Bool.false_ne_true
  · rintro ⟨d, hd, hcase⟩
    rw [verifyQuorum_of_reached hd]
    by_cases hz : d = m256i.zero
    · rw [if_pos hz]
    · rw [if_neg hz, verifyTickData_result_iff]
      exact hcase.resolve_left hz

/-- The order in which the map is gone through does not matter. -/
theorem verifyQuorumWith_eq (horder : ∀ m, (order m).Perm m) :
    verifyQuorumWith order K epoch db tick cache = verifyQuorum K epoch db tick cache := by
  by_cases hreach : ∃ d, reachesThreshold d
      (votesFor tick epoch (fetchVotes db tick cache.votes) d) = true
  · obtain ⟨d, hd⟩ := hreach
    rw [verifyQuorumWith_of_reached horder hd, verifyQuorum_of_reached hd]
  · push Not at hreach
    have hno := fun d => Bool.eq_false_iff.mpr (hreach d)
    rw [verifyQuorumWith_of_not_reached horder hno, verifyQuorum_of_not_reached hno]

end Result

/-! ## Soundness -/

/-- The number of computors with a stored vote of this tick and epoch for the digest. -/
def storedVotes (db : TickKeyDB) (tick : BitVec 32) (epoch : BitVec 16) (digest : m256i) : Nat :=
  (List.finRange NUMBER_OF_COMPUTORS).countP (fun i =>
    (dbGetTickVote db tick (BitVec.ofNat 16 i.val)).any
      (fun vote => vote.isOf tick epoch && vote.transactionDigest == digest))

section Soundness

variable {tick : BitVec 32} {epoch : BitVec 16} {db : TickKeyDB} {d : m256i}

/-- A vote that is kept for the tick is the stored one. -/
def VotesCoherent (db : TickKeyDB) (tick : BitVec 32) (votes : VoteSet) : Prop :=
  ∀ i, (votes i).tick = tick → dbGetTickVote db tick (BitVec.ofNat 16 i.val) = some (votes i)

/-- With coherent votes the fetched votes are counted as the stored ones are. -/
theorem votesFor_fetchVotes {votes : VoteSet} (h : VotesCoherent db tick votes) :
    votesFor tick epoch (fetchVotes db tick votes) d = storedVotes db tick epoch d := by
  unfold votesFor storedVotes
  rw [List.ofFn_eq_map, List.countP_map]
  refine List.countP_congr ?_
  intro i _
  dsimp only [Function.comp_apply, fetchVotes]
  by_cases htick : (votes i).tick = tick
  · rw [if_neg (not_not.mpr htick), h i htick]
    rfl
  · rw [if_pos htick]
    cases hget : dbGetTickVote db tick (BitVec.ofNat 16 i.val) with
    | some v => rfl
    | none =>
        -- a vote of another tick stays and does not count
        have hno : (votes i).isOf tick epoch = false := by simp [TickVote.isOf, htick]
        simp [hno]

theorem zeroed_coherent (htick : tick ≠ 0) :
    VotesCoherent db tick QuorumCache.zeroed.votes :=
  fun _ h => absurd h.symm htick

/-- Zeroed votes of an epoch other than 0 are never counted for tick 0. -/
theorem votesFor_zeroed_tick_zero (hepoch : epoch ≠ 0) :
    votesFor 0 epoch (fetchVotes db 0 QuorumCache.zeroed.votes) d = 0 := by
  unfold votesFor
  rw [List.countP_eq_zero]
  intro vote hvote
  obtain ⟨i, rfl⟩ := List.mem_ofFn.mp hvote
  have hkept : fetchVotes db 0 QuorumCache.zeroed.votes i = TickVote.zero := rfl
  rw [hkept, Bool.and_eq_true, TickVote.isOf, Bool.and_eq_true, beq_iff_eq, beq_iff_eq]
  rintro ⟨⟨_, h⟩, _⟩
  exact hepoch h.symm

theorem usedTickData_zeroed (hstart : tick ≠ 0 ∨ epoch ≠ 0) :
    usedTickData epoch db tick QuorumCache.zeroed.td = dbGetTickData db tick := by
  refine if_neg ?_
  rw [TickData.isOf_iff]
  rintro ⟨htick, hepoch⟩
  rcases hstart with h | h
  · exact h htick.symm
  · exact h hepoch.symm

/-- A call with zeroed arguments returns true only on a quorum of stored votes, and with the stored
tick data if the tick is not empty. -/
theorem verifyQuorum_zeroed {K : KangarooTwelve} (hstart : tick ≠ 0 ∨ epoch ≠ 0) :
    (verifyQuorum K epoch db tick .zeroed).result = true →
      ∃ d, reachesThreshold d (storedVotes db tick epoch d) = true ∧
        (d = m256i.zero ∨ ∃ td, dbGetTickData db tick = some td ∧
          TickDataPasses K epoch db tick d td) := by
  intro h
  obtain ⟨d, hreach, hcase⟩ :=
    verifyQuorum_result_iff.mp h
  rw [usedTickData_zeroed hstart] at hcase
  by_cases htick : tick = 0
  · subst htick
    have hepoch : epoch ≠ 0 := hstart.resolve_left (fun hne => hne rfl)
    rw [votesFor_zeroed_tick_zero hepoch] at hreach
    exact absurd (threshold_pos hreach) (by decide)
  · rw [votesFor_fetchVotes (zeroed_coherent htick)] at hreach
    exact ⟨d, hreach, hcase⟩

/-- **`verifyQuorum` is sound and unambiguous.** Started with zeroed arguments it returns true only
on a quorum of stored votes: 226 for an empty tick, or 451 for the hash of the stored tick data,
whose transactions are then all stored. No vote set gives two digests their thresholds, and the
order in which the map is gone through does not change the outcome. -/
theorem verifyQuorum_sound (K : KangarooTwelve) (epoch : BitVec 16) (db : TickKeyDB)
    (tick : BitVec 32) (hstart : tick ≠ 0 ∨ epoch ≠ 0) :
    ((verifyQuorum K epoch db tick .zeroed).result = true →
      226 ≤ storedVotes db tick epoch m256i.zero ∨
      ∃ d, d ≠ m256i.zero ∧ 451 ≤ storedVotes db tick epoch d ∧
        ∃ td, dbGetTickData db tick = some td ∧ td.tick = tick ∧ td.epoch = epoch ∧
          K.hash32 td.bytes = d ∧ ∀ i, td.transactionDigests i ≠ m256i.zero →
            dbCheckTransactionExist db
              (getIdentityFromPublicKey K (td.transactionDigests i) true) = true) ∧
    (∀ (votes : VoteSet) (d d' : m256i),
      reachesThreshold d (votesFor tick epoch votes d) = true →
      reachesThreshold d' (votesFor tick epoch votes d') = true → d = d') ∧
    (∀ (order : List (ConsensusData × Nat) → List (ConsensusData × Nat)) (cache : QuorumCache),
      (∀ m, (order m).Perm m) →
      verifyQuorumWith order K epoch db tick cache = verifyQuorum K epoch db tick cache) := by
  refine ⟨?_, fun _ _ _ => reachesThreshold_unique, fun _ _ => verifyQuorumWith_eq⟩
  intro h
  obtain ⟨d, hreach, hcase⟩ := verifyQuorum_zeroed hstart h
  unfold reachesThreshold at hreach
  by_cases hz : d = m256i.zero
  · rw [if_pos hz, hz] at hreach
    exact Or.inl (of_decide_eq_true hreach)
  · rw [if_neg hz] at hreach
    obtain ⟨td, hget, hpass⟩ := hcase.resolve_left hz
    exact Or.inr ⟨d, hz, of_decide_eq_true hreach, td, hget, hpass⟩

end Soundness

/-! ## A unanimous tick -/

/-- A store in which every computor has voted for one digest, and no transaction is listed. -/
def unanimous (tick : BitVec 32) (epoch : BitVec 16) (digest : m256i) (data : Option TickData)
    (hdata : ∀ td ∈ data, td.tick = tick) : TickKeyDB where
  tickVote t i :=
    if t = tick then some (.sized { TickVote.zero with
      computorIndex := i, epoch := epoch, tick := tick, transactionDigest := digest })
    else none
  tickData t := if t = tick then data.map .sized else none
  hasTransaction _ := false
  vote_key := by
    intro t i v h
    split at h
    · next ht =>
        rw [← Option.some.inj h]
        exact ⟨ht.symm, rfl⟩
    · exact absurd h (by simp [Cell.read?])
  data_key := by
    intro t td h
    split at h
    · next ht =>
        rw [ht]
        cases data with
        | none => exact absurd h (by simp [Cell.read?])
        | some td' =>
            rw [← Option.some.inj h]
            exact hdata td' rfl
    · exact absurd h (by simp [Cell.read?])

section Unanimous

variable {tick : BitVec 32} {epoch : BitVec 16} {digest : m256i} {data : Option TickData}
  {hdata : ∀ td ∈ data, td.tick = tick}

theorem storedVotes_unanimous :
    storedVotes (unanimous tick epoch digest data hdata) tick epoch digest
      = NUMBER_OF_COMPUTORS := by
  unfold storedVotes
  rw [List.countP_eq_length.mpr, List.length_finRange]
  intro i _
  simp [dbGetTickVote, unanimous, Cell.read?, TickVote.isOf]

theorem dbGetTickData_unanimous :
    dbGetTickData (unanimous tick epoch digest data hdata) tick = data := by
  cases data with
  | none => simp [dbGetTickData, unanimous, Cell.read?]
  | some td => simp [dbGetTickData, unanimous, Cell.read?]

end Unanimous

/-- The theorem at a tick all computors have voted for; the call returns true there. -/
theorem verifyQuorum_sound_at_unanimous_tick :
    let td : TickData := { TickData.zero with tick := 10, epoch := 1 }
    let db := unanimous 10 1 7 (some td) (fun _ h => by rw [← Option.some.inj h])
    (verifyQuorum ⟨fun _ => 7, fun _ => 0⟩ 1 db 10 .zeroed).result = true ∧
      (226 ≤ storedVotes db 10 1 m256i.zero ∨ ∃ d, d ≠ m256i.zero ∧ 451 ≤ storedVotes db 10 1 d) := by
  intro td db
  have htrue : (verifyQuorum ⟨fun _ => 7, fun _ => 0⟩ 1 db 10 .zeroed).result = true := by
    refine verifyQuorum_result_iff.mpr
      ⟨7, ?_, Or.inr ⟨td, ?_, rfl, rfl, rfl, ?_⟩⟩
    · rw [votesFor_fetchVotes (zeroed_coherent (by decide)), storedVotes_unanimous]
      decide
    · rw [usedTickData_zeroed (Or.inl (by decide))]
      exact dbGetTickData_unanimous
    · intro i hi
      exact absurd rfl hi
  refine ⟨htrue, ?_⟩
  rcases (verifyQuorum_sound _ 1 db 10 (Or.inl (by decide))).1 htrue with h | ⟨d, hd, h, _⟩
  · exact Or.inl h
  · exact Or.inr ⟨d, hd, h⟩

end QubicBob
