import QubicBob.Storage.TickStore

set_option autoImplicit false

/-! # The votes behind an accepted batch

After a batch is replayed, `verifyLoggingEvent` counts the votes of its last tick: how many have a
zero transaction digest, and how many carry the salted digests of the spectrum and the universe in
memory. The votes come from the raw keys of the tick or, when there are none, from the record in
Kvrocks, which has an all-zero entry for every vote that is missing. These entries are counted as
votes for an empty tick, and an empty tick needs half as many matching votes.

`voteQuorumSound_iff` says exactly when an accepted batch has the votes it should have.
-/

namespace QubicBob

/-! ## Counting -/

/-- The keys of the computors, and the two digests in memory after the replay. -/
structure VoteContext where
  publicKeys : BitVec 16 → m256i
  spectrumDigest : m256i
  universeDigest : m256i

/-- The counters of the loop. -/
structure VoteCounts where
  emptyTick : Nat
  nonEmptyTick : Nat
  voteCount : Nat

/-- Both salted digests of the vote are those of the state in memory. -/
def VoteContext.isMatch (K : KangarooTwelve) (ctx : VoteContext) (vote : TickVote) : Bool :=
  kangarooTwelve64To32 K (ctx.publicKeys vote.computorIndex) ctx.spectrumDigest
      == vote.saltedSpectrumDigest
    && kangarooTwelve64To32 K (ctx.publicKeys vote.computorIndex) ctx.universeDigest
      == vote.saltedUniverseDigest

def TickVote.isEmpty (vote : TickVote) : Bool := vote.transactionDigest == m256i.zero

def countVote (K : KangarooTwelve) (ctx : VoteContext) (c : VoteCounts) (vote : TickVote) :
    VoteCounts :=
  let c := if vote.isEmpty then { c with emptyTick := c.emptyTick + 1 }
    else { c with nonEmptyTick := c.nonEmptyTick + 1 }
  -- a vote is compared with the state whether or not it is for an empty tick
  if ctx.isMatch K vote then { c with voteCount := c.voteCount + 1 } else c

def countVotes (K : KangarooTwelve) (ctx : VoteContext) (votes : List TickVote) : VoteCounts :=
  votes.foldl (countVote K ctx) ⟨0, 0, 0⟩

/-- What follows from the counters: the votes are fetched again, the node stops and cleans up, or
the batch is accepted. Once the tick is known to be empty or not, a batch without its quorum is
always taken as misaligned: the refetch branch after the counting is never reached. -/
inductive VoteCheck where
  | refetch
  | misaligned
  | matchedQuorum
  deriving DecidableEq, Repr

def checkVotes (c : VoteCounts) : VoteCheck :=
  if 226 ≤ c.emptyTick then
    -- hasTickData = false
    if 226 ≤ c.voteCount then .matchedQuorum else .misaligned
  else if 451 ≤ c.nonEmptyTick then
    -- hasTickData = true
    if 451 ≤ c.voteCount then .matchedQuorum else .misaligned
  else .refetch

/-- One round of `verifyNodeStateDigest` on what the databases hold. Only `matchedQuorum` moves
`gCurrentVerifyLoggingTick` past the batch. -/
def verifyNodeStateDigest (K : KangarooTwelve) (ctx : VoteContext) (db : TickKeyDB)
    (kv : TickKvrocks) (processToTick : BitVec 32) : VoteCheck :=
  checkVotes (countVotes K ctx (dbTryToGetVotes db kv processToTick))

/-! ## The votes that were received -/

/-- The vote of a computor as it was received and stored: the raw one, or the one the cleaner has
moved to Kvrocks. -/
def receivedVote (db : TickKeyDB) (kv : TickKvrocks) (tick : BitVec 32)
    (i : Fin NUMBER_OF_COMPUTORS) : Option TickVote :=
  match dbGetTickVote db tick (BitVec.ofNat 16 i.val) with
  | some v => some v
  | none =>
      match kv.vtick tick with
      | some full => if full.tv i = TickVote.zero then none else some (full.tv i)
      | none => none

/-- The number of received votes with a property. -/
def receivedCount (db : TickKeyDB) (kv : TickKvrocks) (tick : BitVec 32) (p : TickVote → Bool) :
    Nat :=
  (List.finRange NUMBER_OF_COMPUTORS).countP (fun i => (receivedVote db kv tick i).any p)

def missingCount (db : TickKeyDB) (kv : TickKvrocks) (tick : BitVec 32) : Nat :=
  (List.finRange NUMBER_OF_COMPUTORS).countP (fun i => (receivedVote db kv tick i).isNone)

/-- A batch is accepted only on 451 received votes that match, or on 226 for an empty tick and 226
that match. -/
def VoteQuorumSound (K : KangarooTwelve) (ctx : VoteContext) (db : TickKeyDB) (kv : TickKvrocks)
    (tick : BitVec 32) : Prop :=
  verifyNodeStateDigest K ctx db kv tick = .matchedQuorum →
    451 ≤ receivedCount db kv tick (ctx.isMatch K) ∨
    226 ≤ receivedCount db kv tick TickVote.isEmpty ∧
      226 ≤ receivedCount db kv tick (ctx.isMatch K)

/-- The missing votes make up for the votes for an empty tick, and the matching votes are enough
for an empty tick only. -/
def MissingVotesDecide (K : KangarooTwelve) (ctx : VoteContext) (db : TickKeyDB)
    (kv : TickKvrocks) (tick : BitVec 32) : Prop :=
  receivedCount db kv tick TickVote.isEmpty < 226 ∧
    226 ≤ receivedCount db kv tick TickVote.isEmpty + missingCount db kv tick ∧
    226 ≤ receivedCount db kv tick (ctx.isMatch K) ∧
    receivedCount db kv tick (ctx.isMatch K) < 451

/-! ## The counters -/

section Counters

variable {K : KangarooTwelve} {ctx : VoteContext}

theorem foldl_countVote (votes : List TickVote) : ∀ c : VoteCounts,
    votes.foldl (countVote K ctx) c
      = ⟨c.emptyTick + votes.countP TickVote.isEmpty,
         c.nonEmptyTick + votes.countP (fun v => !v.isEmpty),
         c.voteCount + votes.countP (ctx.isMatch K)⟩ := by
  induction votes with
  | nil => exact fun c => rfl
  | cons v votes ih =>
      intro c
      rw [List.foldl_cons, ih]
      cases hempty : v.isEmpty <;> cases hmatch : ctx.isMatch K v <;>
        simp [countVote, hempty, hmatch, Nat.add_assoc, Nat.add_comm 1]

theorem countVotes_eq (votes : List TickVote) :
    countVotes K ctx votes = ⟨votes.countP TickVote.isEmpty, votes.countP (fun v => !v.isEmpty),
      votes.countP (ctx.isMatch K)⟩ := by
  rw [countVotes, foldl_countVote]
  simp only [Nat.zero_add]

theorem checkVotes_matched_iff {c : VoteCounts} : checkVotes c = .matchedQuorum ↔
    226 ≤ c.emptyTick ∧ 226 ≤ c.voteCount ∨
      c.emptyTick < 226 ∧ 451 ≤ c.nonEmptyTick ∧ 451 ≤ c.voteCount := by
  unfold checkVotes
  split
  · next he =>
      split
      · next hv => exact ⟨fun _ => Or.inl ⟨he, hv⟩, fun _ => rfl⟩
      · next hv =>
          refine ⟨fun h => absurd h (by decide), ?_⟩
          rintro (⟨_, h⟩ | ⟨h, _⟩)
          · exact absurd h hv
          · exact absurd he (not_le.mpr h)
  -- a tick that does not count as empty
  · next he =>
      have he' : c.emptyTick < 226 := not_le.mp he
      split
      · next hn =>
          split
          · next hv => exact ⟨fun _ => Or.inr ⟨he', hn, hv⟩, fun _ => rfl⟩
          · next hv =>
              refine ⟨fun h => absurd h (by decide), ?_⟩
              rintro (⟨h, _⟩ | ⟨_, _, h⟩)
              · exact absurd h he
              · exact absurd h hv
      · next hn =>
          refine ⟨fun h => absurd h (by decide), ?_⟩
          rintro (⟨h, _⟩ | ⟨_, h, _⟩)
          · exact absurd h he
          · exact absurd h hn

end Counters

/-! ## Counted and received votes -/

section Received

variable {K : KangarooTwelve} {ctx : VoteContext} {db : TickKeyDB} {kv : TickKvrocks}
  {tick : BitVec 32}

/-- The raw votes are received votes. -/
theorem countP_dbGetTickVotes_le (p : TickVote → Bool) :
    (dbGetTickVotes db tick).countP p ≤ receivedCount db kv tick p := by
  unfold dbGetTickVotes receivedCount
  rw [List.countP_filterMap]
  apply List.countP_mono_left
  intro i _ hi
  unfold receivedVote
  cases hget : dbGetTickVote db tick (BitVec.ofNat 16 i.val) with
  | none =>
      rw [hget] at hi
      exact absurd hi Bool.false_ne_true
  | some v =>
      rw [hget] at hi
      exact hi

theorem dbGetTickVote_of_empty (h : dbGetTickVotes db tick = []) (i : Fin NUMBER_OF_COMPUTORS) :
    dbGetTickVote db tick (BitVec.ofNat 16 i.val) = none := by
  unfold dbGetTickVotes at h
  rw [List.filterMap_eq_nil_iff] at h
  exact h i (List.mem_finRange i)

theorem dbTryToGetVotes_of_empty (h : dbGetTickVotes db tick = []) :
    dbTryToGetVotes db kv tick = dbGetTickVotesFromVtick kv tick := by
  simp only [dbTryToGetVotes, h, List.isEmpty_nil, if_true]

/-- Without raw votes and without a record nothing was received. -/
theorem receivedCount_of_nothing (h : dbGetTickVotes db tick = []) (hkv : kv.vtick tick = none)
    (p : TickVote → Bool) : receivedCount db kv tick p = 0 := by
  unfold receivedCount
  rw [List.countP_eq_zero]
  intro i _
  rw [receivedVote, dbGetTickVote_of_empty h, hkv]
  exact Bool.false_ne_true

/-- The entries of a record with a property no zero entry has are received votes. -/
theorem countP_tv {full : FullTickStruct} (h : dbGetTickVotes db tick = [])
    (hkv : kv.vtick tick = some full) {p : TickVote → Bool} (hp : p TickVote.zero = false) :
    (List.ofFn full.tv).countP p = receivedCount db kv tick p := by
  unfold receivedCount
  rw [List.ofFn_eq_map, List.countP_map]
  refine List.countP_congr ?_
  intro i _
  rw [receivedVote, dbGetTickVote_of_empty h, hkv]
  dsimp only [Function.comp_apply]
  split
  · next hz =>
      rw [hz, hp]
      rfl
  · rfl

/-- The zero entries are counted with the votes for an empty tick. -/
theorem countP_tv_isEmpty {full : FullTickStruct} (h : dbGetTickVotes db tick = [])
    (hkv : kv.vtick tick = some full) :
    (List.ofFn full.tv).countP TickVote.isEmpty
      = receivedCount db kv tick TickVote.isEmpty + missingCount db kv tick := by
  have hreceived : ∀ i, receivedVote db kv tick i
      = if full.tv i = TickVote.zero then none else some (full.tv i) := by
    intro i
    rw [receivedVote, dbGetTickVote_of_empty h, hkv]
  unfold receivedCount missingCount
  rw [List.ofFn_eq_map, List.countP_map]
  induction List.finRange NUMBER_OF_COMPUTORS with
  | nil => rfl
  | cons i is ih =>
      rw [List.countP_cons, List.countP_cons, List.countP_cons, ih, hreceived i]
      by_cases hz : full.tv i = TickVote.zero
      · simp [hz, TickVote.isEmpty, TickVote.zero, m256i.zero]
        omega
      · simp [hz]
        omega

/-- A zero entry does not match: its salted digests are zero, and the hash is never zero. -/
theorem isMatch_zero (hK : ∀ bs, K.hash32 bs ≠ m256i.zero) :
    ctx.isMatch K TickVote.zero = false := by
  unfold VoteContext.isMatch
  rw [Bool.and_eq_false_iff]
  left
  rw [beq_eq_false_iff_ne]
  exact hK _

/-- With a record and no raw votes, the counters in terms of the received votes. -/
theorem verifyNodeStateDigest_of_vtick (hK : ∀ bs, K.hash32 bs ≠ m256i.zero)
    {full : FullTickStruct} (h : dbGetTickVotes db tick = []) (hkv : kv.vtick tick = some full) :
    ∃ nonEmptyTick, verifyNodeStateDigest K ctx db kv tick
      = checkVotes ⟨receivedCount db kv tick TickVote.isEmpty + missingCount db kv tick,
          nonEmptyTick, receivedCount db kv tick (ctx.isMatch K)⟩ := by
  refine ⟨(List.ofFn full.tv).countP (fun v => !v.isEmpty), ?_⟩
  have hvotes : dbTryToGetVotes db kv tick = List.ofFn full.tv := by
    rw [dbTryToGetVotes_of_empty h, dbGetTickVotesFromVtick, hkv]
  rw [verifyNodeStateDigest, hvotes, countVotes_eq, countP_tv_isEmpty h hkv,
    countP_tv h hkv (isMatch_zero hK)]

end Received

/-! ## The main result -/

section Main

/-- **An accepted batch has its quorum of received votes**, exactly when there are raw votes of the
tick or the missing votes do not decide. -/
theorem voteQuorumSound_iff (K : KangarooTwelve) (hK : ∀ bs, K.hash32 bs ≠ m256i.zero)
    (ctx : VoteContext) (db : TickKeyDB) (kv : TickKvrocks) (tick : BitVec 32) :
    VoteQuorumSound K ctx db kv tick ↔
      dbGetTickVotes db tick ≠ [] ∨ ¬ MissingVotesDecide K ctx db kv tick := by
  unfold VoteQuorumSound MissingVotesDecide
  by_cases hraw : dbGetTickVotes db tick = []
  · cases hkv : kv.vtick tick with
    | none =>
        -- there is nothing to count
        have hzero := receivedCount_of_nothing hraw hkv
        have hvotes : dbTryToGetVotes db kv tick = [] := by
          rw [dbTryToGetVotes_of_empty hraw, dbGetTickVotesFromVtick, hkv]
        have hrefetch : verifyNodeStateDigest K ctx db kv tick = .refetch := by
          rw [verifyNodeStateDigest, hvotes]
          rfl
        constructor
        · intro _
          right
          rw [hzero, hzero]
          omega
        · intro _ hmatched
          rw [hrefetch] at hmatched
          exact absurd hmatched (by decide)
    | some full =>
        obtain ⟨nonEmptyTick, hcheck⟩ := @verifyNodeStateDigest_of_vtick K ctx _ _ _ hK _ hraw hkv
        rw [hcheck, checkVotes_matched_iff]
        dsimp only
        constructor
        · intro hsound
          right
          rintro ⟨hempty, hall, hlow, hhigh⟩
          have hquorum := hsound (Or.inl ⟨hall, hlow⟩)
          omega
        · rintro (hne | hgood) hmatched
          · exact absurd hraw hne
          · omega
  · constructor
    · exact fun _ => Or.inl hraw
    · intro _ hmatched
      -- the raw votes are counted as they are
      have hvotes : dbTryToGetVotes db kv tick = dbGetTickVotes db tick := by
        unfold dbTryToGetVotes
        dsimp only
        rw [if_neg (by simpa using hraw)]
      rw [verifyNodeStateDigest, hvotes, countVotes_eq, checkVotes_matched_iff] at hmatched
      dsimp only at hmatched
      have hempty := @countP_dbGetTickVotes_le db kv tick TickVote.isEmpty
      have hmatch := @countP_dbGetTickVotes_le db kv tick (ctx.isMatch K)
      omega

/-- Kvrocks with the votes of the first `n` computors for tick 10, all of them matching under a
hash that is constantly 7. -/
def firstVotes (n : Nat) : TickKvrocks where
  vtick t :=
    if t = 10 then some ⟨TickData.zero, fun i =>
      if i.val < n then { TickVote.zero with
        computorIndex := BitVec.ofNat 16 i.val, epoch := 1, tick := 10, transactionDigest := 3
        saltedSpectrumDigest := 7, saltedUniverseDigest := 7 }
      else TickVote.zero⟩
    else none
  vtick_wf := by
    intro t full h i
    split at h
    · next ht =>
        rw [← Option.some.inj h, ht]
        dsimp only
        split
        · exact Or.inr ⟨rfl, rfl, (by decide : (1 : BitVec 16) ≠ 0)⟩
        · exact Or.inl rfl
    · exact absurd h (by simp)

/-- KeyDB after the cleaner has removed everything. -/
def cleanedKeyDB : TickKeyDB where
  tickVote _ _ := none
  tickData _ := none
  hasTransaction _ := false
  vote_key h := absurd h (by simp [Cell.read?])
  data_key h := absurd h (by simp [Cell.read?])

/-- With 300 votes for a tick that is not empty and 376 missing, the batch is accepted. -/
theorem voteQuorumSound_fails_on_300_votes :
    let K : KangarooTwelve := ⟨fun _ => 7, fun _ => 0⟩
    (∀ bs, K.hash32 bs ≠ m256i.zero) ∧
      ¬ VoteQuorumSound K ⟨fun _ => 0, 0, 0⟩ cleanedKeyDB (firstVotes 300) 10 := by
  intro K
  refine ⟨fun _ => (by decide : (7 : m256i) ≠ m256i.zero), ?_⟩
  intro hsound
  have hmatched : verifyNodeStateDigest K ⟨fun _ => 0, 0, 0⟩ cleanedKeyDB (firstVotes 300) 10
      = .matchedQuorum := by decide +kernel
  have hempty : receivedCount cleanedKeyDB (firstVotes 300) 10 TickVote.isEmpty = 0 := by
    decide +kernel
  have hmatch : receivedCount cleanedKeyDB (firstVotes 300) 10
      (VoteContext.isMatch K ⟨fun _ => 0, 0, 0⟩) = 300 := by decide +kernel
  have hquorum := hsound hmatched
  omega

/-- The theorem at a record with the votes of all computors, which is accepted. -/
theorem voteQuorumSound_iff_at_full_record :
    let K : KangarooTwelve := ⟨fun _ => 7, fun _ => 0⟩
    verifyNodeStateDigest K ⟨fun _ => 0, 0, 0⟩ cleanedKeyDB (firstVotes 676) 10
        = .matchedQuorum ∧
      VoteQuorumSound K ⟨fun _ => 0, 0, 0⟩ cleanedKeyDB (firstVotes 676) 10 := by
  intro K
  refine ⟨by decide +kernel, ?_⟩
  have hK : ∀ bs, K.hash32 bs ≠ m256i.zero := fun _ => (by decide : (7 : m256i) ≠ m256i.zero)
  refine (voteQuorumSound_iff K hK _ _ _ _).mpr (Or.inr ?_)
  rintro ⟨_, _, _, hhigh⟩
  have hmatch : receivedCount cleanedKeyDB (firstVotes 676) 10
      (VoteContext.isMatch K ⟨fun _ => 0, 0, 0⟩) = 676 := by decide +kernel
  omega

end Main

end QubicBob
