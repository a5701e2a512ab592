import QubicBob.Consensus.Quorum

set_option autoImplicit false

/-! # The votes of a bucket

`verifyQuorum` counts the votes in a map whose keys have six fields and whose comparator looks at
one of them. A bucket therefore holds the votes with one transaction digest, whatever they say about
the previous state: the state digests are verified later, against the node's own state. Nothing but
the digest decides, so the number of a bucket is the number of votes with its digest, in any order
of the votes; and of two digests at most one can reach its threshold, which makes the outcome
independent of the order as well.
-/

namespace QubicBob

open CountMap

/-- The first bucket that reaches its threshold, with the votes gone through in the order of the
list. -/
def winningBucket (tick : BitVec 32) (epoch : BitVec 16) (votes : List TickVote) :
    Option (ConsensusData × Nat) :=
  let current := votes.filter (fun vote => vote.isOf tick epoch)
  if current.length < 225 then none
  else (countAll ConsensusData.key (current.map TickVote.consensusData)).find?
    (fun e => reachesThreshold e.1.transactionDigest e.2)

/-- The votes counted in the bucket of a key: the comparator puts none of the two first. -/
def bucketVotes (tick : BitVec 32) (epoch : BitVec 16) (votes : List TickVote)
    (cd : ConsensusData) : List TickVote :=
  votes.filter (fun vote => vote.isOf tick epoch &&
    (¬ vote.consensusData.key < cd.key && ¬ cd.key < vote.consensusData.key))

/-- `verifyQuorum` behind the fetching of the votes. -/
def verifyQuorumOn (K : KangarooTwelve) (epoch : BitVec 16) (db : TickKeyDB) (tick : BitVec 32)
    (cache : QuorumCache) (votes : List TickVote) : QuorumOutcome :=
  match (winningBucket tick epoch votes).map (fun e => e.1.transactionDigest) with
  | none => ⟨false, cache, db⟩
  | some d =>
      if d = m256i.zero then ⟨true, cache, db⟩ else verifyTickData K epoch db tick cache d

section buckets

variable {K : KangarooTwelve} {tick : BitVec 32} {epoch : BitVec 16} {db : TickKeyDB}
  {cache : QuorumCache} {votes : List TickVote} {cd : ConsensusData}

theorem verifyQuorum_eq_on : verifyQuorum K epoch db tick cache =
    verifyQuorumOn K epoch db tick { cache with votes := fetchVotes db tick cache.votes }
      (List.ofFn (fetchVotes db tick cache.votes)) := by
  unfold verifyQuorum verifyQuorumWith verifyQuorumOn winningBucket currentVotes digestCount
  dsimp only [id]
  by_cases hfew : ((List.ofFn (fetchVotes db tick cache.votes)).filter
      (fun vote => vote.isOf tick epoch)).length < 225
  · rw [if_pos hfew, if_pos hfew]
    rfl
  · rw [if_neg hfew, if_neg hfew]
    unfold currentVotes
    cases (countAll ConsensusData.key (((List.ofFn (fetchVotes db tick cache.votes)).filter
        (fun vote => vote.isOf tick epoch)).map TickVote.consensusData)).find?
        (fun e => reachesThreshold e.1.transactionDigest e.2) with
    | none => rfl
    | some e => rfl

/-- A vote is in the bucket of its transaction digest. -/
theorem mem_bucketVotes {vote : TickVote} : vote ∈ bucketVotes tick epoch votes cd ↔
    vote ∈ votes ∧ vote.tick = tick ∧ vote.epoch = epoch ∧
      vote.transactionDigest = cd.transactionDigest := by
  have hkey : (¬ vote.consensusData.key < cd.key ∧ ¬ cd.key < vote.consensusData.key) ↔
      vote.transactionDigest = cd.transactionDigest := by
    rw [not_lt, not_lt, and_comm, ← le_antisymm_iff]
    exact memcmpKey_injective.eq_iff
  rw [bucketVotes, List.mem_filter, Bool.and_eq_true, Bool.and_eq_true, decide_eq_true_eq,
    decide_eq_true_eq, hkey, TickVote.isOf, Bool.and_eq_true, beq_iff_eq, beq_iff_eq, and_assoc]

/-- The number of a bucket is the number of its votes. -/
theorem count_eq_length_bucketVotes {e : ConsensusData × Nat}
    (he : e ∈ countAll ConsensusData.key
      ((votes.filter (fun vote => vote.isOf tick epoch)).map TickVote.consensusData)) :
    e.2 = (bucketVotes tick epoch votes e.1).length := by
  have hvalue := (sorted_countAll _).value_eq he
  rw [value_countAll, List.countP_map, List.countP_filter] at hvalue
  rw [← hvalue, bucketVotes, ← List.countP_eq_length_filter]
  refine List.countP_congr ?_
  intro vote _
  have hkey : (vote.consensusData.key = e.1.key) ↔
      (¬ vote.consensusData.key < e.1.key ∧ ¬ e.1.key < vote.consensusData.key) := by
    rw [not_lt, not_lt, and_comm, ← le_antisymm_iff, eq_comm]
  simp only [Function.comp_apply, Bool.and_eq_true, decide_eq_true_eq, hkey]
  exact And.comm

theorem winningBucket_spec {e : ConsensusData × Nat} (h : winningBucket tick epoch votes = some e) :
    e.2 = (bucketVotes tick epoch votes e.1).length ∧
      reachesThreshold e.1.transactionDigest e.2 = true := by
  unfold winningBucket at h
  dsimp only at h
  split at h
  · cases h
  · have hreach := List.find?_some h
    exact ⟨count_eq_length_bucketVotes (List.mem_of_find?_eq_some h), hreach⟩

/-- The votes in the bucket of a digest, in any order of the votes. -/
theorem length_bucketVotes {voteSet : VoteSet} (hperm : votes.Perm (List.ofFn voteSet)) :
    (bucketVotes tick epoch votes cd).length = votesFor tick epoch voteSet cd.transactionDigest := by
  have hfilter : bucketVotes tick epoch votes cd = votes.filter (fun vote =>
      vote.isOf tick epoch && vote.transactionDigest == cd.transactionDigest) := by
    refine List.filter_congr fun vote hvote => Bool.eq_iff_iff.mpr ?_
    have hmem := @mem_bucketVotes tick epoch votes cd vote
    rw [bucketVotes, List.mem_filter] at hmem
    refine ((and_congr_right_iff.mp hmem) hvote).trans ?_
    rw [Bool.and_eq_true, beq_iff_eq, TickVote.isOf, Bool.and_eq_true, beq_iff_eq, beq_iff_eq,
      and_assoc]
  rw [hfilter, ← List.countP_eq_length_filter, hperm.countP_eq, votesFor]

/-- The digest of the winning bucket is the one that reaches its threshold. -/
theorem winningBucket_iff {voteSet : VoteSet} (hperm : votes.Perm (List.ofFn voteSet))
    {d : m256i} :
    (winningBucket tick epoch votes).map (fun e => e.1.transactionDigest) = some d ↔
      reachesThreshold d (votesFor tick epoch voteSet d) = true := by
  constructor
  · intro h
    obtain ⟨e, he, rfl⟩ := Option.map_eq_some_iff.mp h
    obtain ⟨hcount, hreach⟩ := winningBucket_spec he
    rwa [hcount, length_bucketVotes hperm] at hreach
  · intro h
    have hpos : 0 < votesFor tick epoch voteSet d := lt_of_lt_of_le (by decide) (threshold_pos h)
    have hcurrent : votesFor tick epoch voteSet d ≤
        (votes.filter (fun vote => vote.isOf tick epoch)).length := by
      rw [votesFor, ← hperm.countP_eq, ← List.countP_eq_length_filter]
      refine List.countP_mono_left fun vote _ hvote => ?_
      exact (Bool.and_eq_true _ _ ▸ hvote).1
    have henough : ¬ (votes.filter (fun vote => vote.isOf tick epoch)).length < 225 := by
      have hlow := threshold_pos h
      omega
    -- the bucket of the digest is in the map
    obtain ⟨vote, hvote, hof⟩ := List.countP_pos_iff.mp hpos
    rw [Bool.and_eq_true, beq_iff_eq] at hof
    have hmem : vote ∈ votes.filter (fun vote => vote.isOf tick epoch) :=
      List.mem_filter.mpr ⟨hperm.mem_iff.mpr hvote, hof.1⟩
    have hvalue : 0 < value ConsensusData.key (memcmpKey d) (countAll ConsensusData.key
        ((votes.filter (fun vote => vote.isOf tick epoch)).map TickVote.consensusData)) := by
      rw [value_countAll, List.countP_pos_iff]
      have hkey : vote.consensusData.key = memcmpKey d := by rw [← hof.2]; rfl
      refine ⟨vote.consensusData, List.mem_map_of_mem hmem, ?_⟩
      simp only [hkey, decide_true]
    obtain ⟨e, he, hkey⟩ := exists_mem_of_value_pos hvalue
    have hd : e.1.transactionDigest = d := memcmpKey_injective hkey
    have hreach : reachesThreshold e.1.transactionDigest e.2 = true := by
      rw [count_eq_length_bucketVotes he, length_bucketVotes hperm, hd]
      exact h
    cases hfind : winningBucket tick epoch votes with
    | none =>
        unfold winningBucket at hfind
        dsimp only at hfind
        rw [if_neg henough] at hfind
        exact absurd hreach (List.find?_eq_none.mp hfind e he)
    | some e' =>
        obtain ⟨hcount', hreach'⟩ := winningBucket_spec hfind
        rw [hcount', length_bucketVotes hperm] at hreach'
        exact congrArg some (reachesThreshold_unique hreach' h)

/-- The outcome is the same in every order of the votes. -/
theorem verifyQuorumOn_perm {voteSet : VoteSet} (hperm : votes.Perm (List.ofFn voteSet)) :
    verifyQuorumOn K epoch db tick cache votes =
      verifyQuorumOn K epoch db tick cache (List.ofFn voteSet) := by
  have hsame : (winningBucket tick epoch votes).map (fun e => e.1.transactionDigest) =
      (winningBucket tick epoch (List.ofFn voteSet)).map (fun e => e.1.transactionDigest) := by
    refine Option.ext fun d => ?_
    rw [winningBucket_iff hperm, winningBucket_iff (List.Perm.refl _)]
  rw [verifyQuorumOn, verifyQuorumOn, hsame]

/-- A call that returns true has a winning bucket. -/
theorem winningBucket_of_result (h : (verifyQuorumOn K epoch db tick cache votes).result = true) :
    ∃ e, winningBucket tick epoch votes = some e := by
  cases hwin : winningBucket tick epoch votes with
  | none =>
      rw [verifyQuorumOn, hwin] at h
      exact absurd h Bool.false_ne_true
  | some e => exact ⟨e, rfl⟩

end buckets

/-- **The votes of a quorum.** When `verifyQuorum` returns true, a bucket has reached its threshold,
its number is the number of its votes, and these are all of the tick and epoch and have the
transaction digest of the bucket. In whatever order the votes are gone through, the outcome is the
same. -/
theorem quorum_votes_aligned (K : KangarooTwelve) (epoch : BitVec 16) (db : TickKeyDB)
    (tick : BitVec 32) (cache : QuorumCache) :
    let voteSet := fetchVotes db tick cache.votes
    ((verifyQuorum K epoch db tick cache).result = true →
      ∃ e, winningBucket tick epoch (List.ofFn voteSet) = some e ∧
        reachesThreshold e.1.transactionDigest e.2 = true ∧
        e.2 = (bucketVotes tick epoch (List.ofFn voteSet) e.1).length ∧
        ∀ vote ∈ bucketVotes tick epoch (List.ofFn voteSet) e.1,
          vote.tick = tick ∧ vote.epoch = epoch ∧
            vote.transactionDigest = e.1.transactionDigest) ∧
    ∀ votes : List TickVote, votes.Perm (List.ofFn voteSet) →
      verifyQuorumOn K epoch db tick { cache with votes := voteSet } votes =
        verifyQuorum K epoch db tick cache := by
  intro voteSet
  refine ⟨fun hres => ?_, fun votes hperm => ?_⟩
  · rw [verifyQuorum_eq_on] at hres
    obtain ⟨e, hwin⟩ := winningBucket_of_result hres
    obtain ⟨hcount, hreach⟩ := winningBucket_spec hwin
    exact ⟨e, hwin, hreach, hcount, fun vote hvote => (mem_bucketVotes.mp hvote).2⟩
  · rw [verifyQuorum_eq_on]
    exact verifyQuorumOn_perm hperm

/-! ## A quorum of votes that differ -/

/-- Every computor votes for an empty tick 10 of epoch 1; the first one and the others disagree
about the previous state. -/
def mixedVote (i : BitVec 16) : TickVote :=
  let state : BitVec 32 := if i = 0 then 1 else 2
  { TickVote.zero with
    computorIndex := i
    epoch := 1
    tick := 10
    prevResourceTestingDigest := state
    prevTransactionBodyDigest := state
    prevSpectrumDigest := state.setWidth 256
    prevUniverseDigest := state.setWidth 256
    prevComputerDigest := state.setWidth 256 }

theorem mixedVote_key {t : BitVec 32} {i : BitVec 16} {v : TickVote}
    (h : Cell.read? (if t = 10 then some (Cell.sized (mixedVote i)) else none) = some v) :
    v.tick = t ∧ v.computorIndex = i := by
  by_cases ht : t = 10
  · rw [if_pos ht] at h
    obtain rfl := Option.some.inj h
    exact ⟨ht.symm, rfl⟩
  · rw [if_neg ht] at h
    cases h

def mixedVotes : TickKeyDB where
  tickVote t i := if t = 10 then some (.sized (mixedVote i)) else none
  tickData _ := none
  hasTransaction _ := false
  vote_key := @mixedVote_key
  data_key := @no_data_key

theorem fetchVotes_mixed (i : Fin NUMBER_OF_COMPUTORS) :
    fetchVotes mixedVotes 10 QuorumCache.zeroed.votes i = mixedVote (BitVec.ofNat 16 i.val) := by
  have hother : (QuorumCache.zeroed.votes i).tick ≠ 10 := by
    change (0 : BitVec 32) ≠ 10
    decide
  rw [fetchVotes, if_pos hother]
  rfl

theorem votesFor_mixed :
    votesFor 10 1 (fetchVotes mixedVotes 10 QuorumCache.zeroed.votes) m256i.zero = 676 := by
  rw [votesFor, List.countP_eq_length.mpr, List.length_ofFn]
  · rfl
  · intro vote hvote
    obtain ⟨i, rfl⟩ := List.mem_ofFn.mp hvote
    rw [fetchVotes_mixed]
    rfl

/-- Votes that agree in the transaction digest and in no other field make a quorum together. -/
theorem mixed_votes_reach_quorum :
    (verifyQuorum ⟨fun _ => 0, fun _ => 0⟩ 1 mixedVotes 10 .zeroed).result = true ∧
      ∃ e, winningBucket 10 1 (List.ofFn (fetchVotes mixedVotes 10 QuorumCache.zeroed.votes)) =
          some e ∧
        ∃ vote ∈ bucketVotes 10 1 (List.ofFn (fetchVotes mixedVotes 10 QuorumCache.zeroed.votes)) e.1,
        ∃ vote' ∈ bucketVotes 10 1
            (List.ofFn (fetchVotes mixedVotes 10 QuorumCache.zeroed.votes)) e.1,
          vote.prevResourceTestingDigest ≠ vote'.prevResourceTestingDigest ∧
          vote.prevTransactionBodyDigest ≠ vote'.prevTransactionBodyDigest ∧
          vote.prevSpectrumDigest ≠ vote'.prevSpectrumDigest ∧
          vote.prevUniverseDigest ≠ vote'.prevUniverseDigest ∧
          vote.prevComputerDigest ≠ vote'.prevComputerDigest := by
  have hreach : reachesThreshold m256i.zero (votesFor 10 1
      (fetchVotes mixedVotes 10 QuorumCache.zeroed.votes) m256i.zero) = true := by
    rw [votesFor_mixed]
    decide
  refine ⟨verifyQuorum_result_iff.mpr ⟨m256i.zero, hreach, .inl rfl⟩, ?_⟩
  obtain ⟨e, he, hzero⟩ := Option.map_eq_some_iff.mp
    ((winningBucket_iff (List.Perm.refl _)).mpr hreach)
  have hmem : ∀ i : Fin NUMBER_OF_COMPUTORS, mixedVote (BitVec.ofNat 16 i.val) ∈ bucketVotes 10 1
      (List.ofFn (fetchVotes mixedVotes 10 QuorumCache.zeroed.votes)) e.1 := by
    intro i
    rw [mem_bucketVotes, hzero]
    exact ⟨List.mem_ofFn.mpr ⟨i, fetchVotes_mixed i⟩, rfl, rfl, rfl⟩
  refine ⟨e, he, _, hmem ⟨0, by decide⟩, _, hmem ⟨1, by decide⟩, ?_⟩
  decide

end QubicBob
