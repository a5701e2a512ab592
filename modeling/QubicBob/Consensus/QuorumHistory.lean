import QubicBob.Consensus.Quorum

set_option autoImplicit false

/-! # What `verifyQuorum` keeps between calls

`IOVerifyThread` gives the same tick data and the same 676 votes to every call. A kept vote of the
tick is the one some earlier call read for it, so votes that stay as they are in KeyDB do no harm.
A kept tick data is another matter: a call that finds it in disagreement with the quorum deletes
the stored copy and keeps its own, and no later call of this tick reads the store again.

`cacheFree_iff` says exactly when a call with what earlier calls left behaves as one with zeroed
arguments, and `cacheFree_of_tickDataKept` that it does so as long as the stored tick data stays.
A node that receives votes and tick data between the calls keeps its votes (`run_consistent`), so
that the same holds over its runs.
-/

namespace QubicBob

/-- A call of `verifyQuorum`: its tick and the database it finds. -/
structure QuorumCall where
  tick : BitVec 32
  db : TickKeyDB

/-- What a sequence of calls leaves in the two arguments. -/
def runCalls (K : KangarooTwelve) (epoch : BitVec 16) (cache : QuorumCache)
    (history : List QuorumCall) : QuorumCache :=
  history.foldl (fun cache call => (verifyQuorum K epoch call.db call.tick cache).cache) cache

/-- The votes an earlier call of the tick could read are still there and the same. -/
def VotesKept (history : List QuorumCall) (tick : BitVec 32) (db : TickKeyDB) : Prop :=
  ∀ call ∈ history, call.tick = tick → ∀ i v, dbGetTickVote call.db tick i = some v →
    dbGetTickVote db tick i = some v

/-- The same for the tick data. -/
def TickDataKept (history : List QuorumCall) (tick : BitVec 32) (db : TickKeyDB) : Prop :=
  ∀ call ∈ history, call.tick = tick → ∀ td, dbGetTickData call.db tick = some td →
    dbGetTickData db tick = some td

/-- The database has all a call needs: a quorum of votes, and a tick data that hashes to its digest
with all its transactions. -/
def QuorumReady (K : KangarooTwelve) (epoch : BitVec 16) (db : TickKeyDB) (tick : BitVec 32) :
    Prop :=
  ∃ d td, reachesThreshold d (storedVotes db tick epoch d) = true ∧
    dbGetTickData db tick = some td ∧ TickDataPasses K epoch db tick d td

/-- The call gives what it gives with zeroed arguments, and true on a database that has all it
needs. -/
def CacheFree (K : KangarooTwelve) (epoch : BitVec 16) (db : TickKeyDB) (tick : BitVec 32)
    (cache : QuorumCache) : Prop :=
  (verifyQuorum K epoch db tick cache).result
      = (verifyQuorum K epoch db tick .zeroed).result ∧
    (QuorumReady K epoch db tick → (verifyQuorum K epoch db tick cache).result = true)

/-- If the kept tick data is of this tick and epoch and 451 computors have voted for one non-zero
digest, then the kept tick data passes for this digest exactly when the stored one does. -/
def TickDataAgrees (K : KangarooTwelve) (epoch : BitVec 16) (db : TickKeyDB) (tick : BitVec 32)
    (td : TickData) : Prop :=
  td.isOf tick epoch = true → ∀ d, d ≠ m256i.zero → 451 ≤ storedVotes db tick epoch d →
    (TickDataPasses K epoch db tick d td ↔
      ∃ stored, dbGetTickData db tick = some stored ∧ TickDataPasses K epoch db tick d stored)

/-! ## One call -/

section Call

variable {K : KangarooTwelve} {epoch : BitVec 16} {db : TickKeyDB} {tick : BitVec 32}
  {cache : QuorumCache}

theorem verifyQuorum_cache_votes :
    (verifyQuorum K epoch db tick cache).cache.votes = fetchVotes db tick cache.votes := by
  unfold verifyQuorum verifyQuorumWith
  dsimp only
  split
  · rfl
  split
  · rfl
  split
  · rfl
  unfold verifyTickData
  split
  · rfl
  dsimp only
  split
  · rfl
  split
  · rfl
  · rfl

/-- The tick data after a call is the one before or the stored one. -/
theorem verifyQuorum_cache_td :
    (verifyQuorum K epoch db tick cache).cache.td = cache.td ∨
      dbGetTickData db tick = some (verifyQuorum K epoch db tick cache).cache.td := by
  unfold verifyQuorum verifyQuorumWith
  dsimp only
  split
  · exact Or.inl rfl
  split
  · exact Or.inl rfl
  split
  · exact Or.inl rfl
  unfold verifyTickData
  cases hused : usedTickData epoch db tick cache.td with
  | none => exact Or.inl rfl
  | some td =>
      have hcase : td = cache.td ∨ dbGetTickData db tick = some td := by
        unfold usedTickData at hused
        split at hused
        · exact Or.inl (Option.some.inj hused).symm
        · exact Or.inr hused
      dsimp only
      split
      · exact hcase
      split
      · exact hcase
      · exact hcase

end Call

/-! ## Histories -/

section History

variable {K : KangarooTwelve} {epoch : BitVec 16} {tick : BitVec 32}

theorem runCalls_nil (cache : QuorumCache) : runCalls K epoch cache [] = cache := List.foldl_nil ..

theorem runCalls_cons (cache : QuorumCache) (call : QuorumCall) (calls : List QuorumCall) :
    runCalls K epoch cache (call :: calls)
      = runCalls K epoch (verifyQuorum K epoch call.db call.tick cache).cache calls :=
  List.foldl_cons ..

theorem runCalls_append (cache : QuorumCache) (calls calls' : List QuorumCall) :
    runCalls K epoch cache (calls ++ calls')
      = runCalls K epoch (runCalls K epoch cache calls) calls' := List.foldl_append ..

/-- A vote of the tick after a run was there before, or was stored at a call of the tick. -/
theorem runCalls_votes {history : List QuorumCall} : ∀ {cache : QuorumCache}
    {i : Fin NUMBER_OF_COMPUTORS}, ((runCalls K epoch cache history).votes i).tick = tick →
      (cache.votes i).tick = tick ∧ (runCalls K epoch cache history).votes i = cache.votes i ∨
      ∃ call ∈ history, call.tick = tick ∧
        dbGetTickVote call.db tick (BitVec.ofNat 16 i.val)
          = some ((runCalls K epoch cache history).votes i) := by
  induction history with
  | nil =>
      intro cache i h
      exact Or.inl ⟨h, rfl⟩
  | cons call calls ih =>
      intro cache i h
      rw [runCalls_cons] at h ⊢
      rcases ih h with ⟨htick, hsame⟩ | ⟨call', hmem, hcall⟩
      · rw [verifyQuorum_cache_votes] at htick hsame
        rw [hsame]
        unfold fetchVotes at htick ⊢
        split at htick
        · next hne =>
            rw [if_pos hne]
            cases hget : dbGetTickVote call.db call.tick (BitVec.ofNat 16 i.val) with
            | none =>
                rw [hget] at htick
                exact Or.inl ⟨htick, rfl⟩
            | some v =>
                -- the call has read the vote for its own tick
                rw [hget] at htick
                have hkey : v.tick = call.tick := (call.db.vote_key hget).1
                have hcall : call.tick = tick := hkey.symm.trans htick
                refine Or.inr ⟨call, List.mem_cons_self, hcall, ?_⟩
                rw [← hcall]
                exact hget
        · next hkeep =>
            rw [if_neg hkeep]
            exact Or.inl ⟨htick, rfl⟩
      · exact Or.inr ⟨call', List.mem_cons_of_mem _ hmem, hcall⟩

/-- The tick data after a run was there before, or was stored at a call of its tick. -/
theorem runCalls_td {history : List QuorumCall} : ∀ {cache : QuorumCache},
    (runCalls K epoch cache history).td = cache.td ∨
      ∃ call ∈ history, call.tick = (runCalls K epoch cache history).td.tick ∧
        dbGetTickData call.db call.tick = some (runCalls K epoch cache history).td := by
  induction history with
  | nil =>
      intro cache
      exact Or.inl rfl
  | cons call calls ih =>
      intro cache
      rw [runCalls_cons]
      rcases @ih (verifyQuorum K epoch call.db call.tick cache).cache with
        hsame | ⟨call', hmem, hcall⟩
      · rw [hsame]
        rcases @verifyQuorum_cache_td K epoch call.db call.tick cache with hkeep | hread
        · exact Or.inl hkeep
        · exact Or.inr ⟨call, List.mem_cons_self, (call.db.data_key hread).symm, hread⟩
      · exact Or.inr ⟨call', List.mem_cons_of_mem _ hmem, hcall⟩

/-- Kept votes are coherent with a database that still has the stored ones. -/
theorem runCalls_coherent {history : List QuorumCall} {db : TickKeyDB} (htick : tick ≠ 0)
    (hkept : VotesKept history tick db) :
    VotesCoherent db tick (runCalls K epoch .zeroed history).votes := by
  intro i hi
  rcases runCalls_votes hi with ⟨hzero, _⟩ | ⟨call, hmem, hcall, hget⟩
  · exact absurd hzero.symm htick
  · exact hkept call hmem hcall _ _ hget

end History

/-! ## A node that verifies while it receives

Between two calls the receiving side goes on storing votes, tick data and transactions in the same
KeyDB. Its votes are written once, so the calls of such a run find them as they were. -/

/-- What happens to KeyDB while ticks are verified. -/
inductive QuorumStep where
  | tickVote (R : Receiver) (vote : TickVote)
  | tickData (R : Receiver) (data : TickData)
  | transaction (hash : List Char)
  | verify (tick : BitVec 32)

/-- KeyDB, the two arguments of `verifyQuorum`, and the calls so far. -/
structure QuorumNode where
  db : TickKeyDB
  cache : QuorumCache
  history : List QuorumCall

/-- `SET … NX` under the hash of the transaction. -/
def dbInsertTransaction (db : TickKeyDB) (hash : List Char) : TickKeyDB :=
  { db with hasTransaction := fun h => h == hash || db.hasTransaction h }

def QuorumStep.apply (K : KangarooTwelve) (epoch : BitVec 16) (n : QuorumNode) :
    QuorumStep → QuorumNode
  | tickVote R vote => { n with db := processTickVote R n.db vote }
  | tickData R data => { n with db := processTickData R n.db data }
  | transaction hash => { n with db := dbInsertTransaction n.db hash }
  | verify tick =>
      let outcome := verifyQuorum K epoch n.db tick n.cache
      ⟨outcome.db, outcome.cache, n.history ++ [⟨tick, n.db⟩]⟩

section Run

variable {K : KangarooTwelve} {epoch : BitVec 16} {tick : BitVec 32} {n : QuorumNode}

theorem dbGetTickVote_verifyQuorum {db : TickKeyDB} {cache : QuorumCache} {t : BitVec 32}
    {i : BitVec 16} :
    dbGetTickVote (verifyQuorum K epoch db tick cache).db t i = dbGetTickVote db t i := by
  unfold verifyQuorum verifyQuorumWith
  dsimp only
  split
  · rfl
  split
  · rfl
  split
  · rfl
  unfold verifyTickData
  split
  · rfl
  dsimp only
  split
  · rfl
  split
  · rfl
  · rfl

/-- No step changes a stored vote. -/
theorem QuorumStep.apply_keeps (step : QuorumStep) {t : BitVec 32} {i : BitVec 16} {v : TickVote}
    (h : dbGetTickVote n.db t i = some v) :
    dbGetTickVote (step.apply K epoch n).db t i = some v := by
  cases step with
  | tickVote R vote => exact processTickVote_keeps h vote
  | tickData R data => exact (dbGetTickVote_processTickData data).trans h
  | transaction hash => exact h
  | verify tick =>
      rw [QuorumStep.apply, dbGetTickVote_verifyQuorum]
      exact h

/-- The calls recorded so far find their votes kept, and have left the two arguments. -/
def QuorumNode.Consistent (K : KangarooTwelve) (epoch : BitVec 16) (n : QuorumNode) : Prop :=
  (∀ tick, VotesKept n.history tick n.db) ∧ n.cache = runCalls K epoch .zeroed n.history

theorem QuorumStep.apply_consistent (step : QuorumStep) (h : n.Consistent K epoch) :
    (step.apply K epoch n).Consistent K epoch := by
  obtain ⟨hvotes, hcache⟩ := h
  have hkept : ∀ tick, VotesKept n.history tick (step.apply K epoch n).db := by
    intro tick call hmem htick i v hget
    exact step.apply_keeps (hvotes tick call hmem htick i v hget)
  cases step with
  | tickVote R vote => exact ⟨hkept, hcache⟩
  | tickData R data => exact ⟨hkept, hcache⟩
  | transaction hash => exact ⟨hkept, hcache⟩
  | verify tick =>
      -- the call itself only deletes tick data, and joins the history with the votes it found
      constructor
      · intro t call hmem htick i v hget
        rcases List.mem_append.mp hmem with hold | hnew
        · exact hkept t call hold htick i v hget
        · rw [List.mem_singleton.mp hnew] at hget
          rw [QuorumStep.apply, dbGetTickVote_verifyQuorum]
          exact hget
      · rw [QuorumStep.apply, runCalls_append, ← hcache, runCalls_cons, runCalls_nil]

/-- Over a whole run, from any KeyDB and zeroed arguments, every vote a call could read stays, and
the arguments are what the calls have left. -/
theorem run_consistent (db : TickKeyDB) (steps : List QuorumStep) :
    (steps.foldl (QuorumStep.apply K epoch) ⟨db, .zeroed, []⟩).Consistent K epoch := by
  have hrun : ∀ (steps : List QuorumStep) (n : QuorumNode), n.Consistent K epoch →
      (steps.foldl (QuorumStep.apply K epoch) n).Consistent K epoch := by
    intro steps
    induction steps with
    | nil => exact fun _ h => h
    | cons step steps ih => exact fun n h => ih _ (step.apply_consistent h)
  refine hrun steps _ ⟨?_, rfl⟩
  intro tick call hmem
  exact absurd hmem List.not_mem_nil

end Run

/-! ## The main result -/

section Main

variable {K : KangarooTwelve} {epoch : BitVec 16} {db : TickKeyDB} {tick : BitVec 32}
  {cache : QuorumCache}

/-- A call with coherent votes, in terms of the stored ones. -/
theorem verifyQuorum_result_iff_of_coherent (hvotes : VotesCoherent db tick cache.votes) :
    (verifyQuorum K epoch db tick cache).result = true ↔
      ∃ d, reachesThreshold d (storedVotes db tick epoch d) = true ∧
        (d = m256i.zero ∨ ∃ td, usedTickData epoch db tick cache.td = some td ∧
          TickDataPasses K epoch db tick d td) := by
  rw [verifyQuorum_result_iff]
  simp only [votesFor_fetchVotes hvotes]

theorem verifyQuorum_zeroed_result_iff (htick : tick ≠ 0) :
    (verifyQuorum K epoch db tick .zeroed).result = true ↔
      ∃ d, reachesThreshold d (storedVotes db tick epoch d) = true ∧
        (d = m256i.zero ∨ ∃ td, dbGetTickData db tick = some td ∧
          TickDataPasses K epoch db tick d td) := by
  rw [verifyQuorum_result_iff_of_coherent (zeroed_coherent htick),
    usedTickData_zeroed (Or.inl htick)]

theorem storedVotes_unique (htick : tick ≠ 0) {d d' : m256i}
    (h : reachesThreshold d (storedVotes db tick epoch d) = true)
    (h' : reachesThreshold d' (storedVotes db tick epoch d') = true) : d = d' := by
  rw [← votesFor_fetchVotes (zeroed_coherent htick)] at h h'
  exact reachesThreshold_unique h h'

theorem reachesThreshold_nonzero {d : m256i} (hd : d ≠ m256i.zero) {n : Nat} :
    reachesThreshold d n = true ↔ 451 ≤ n := by
  rw [reachesThreshold, if_neg hd, decide_eq_true_eq]

/-- A call on a database that has all it needs returns true with zeroed arguments. -/
theorem verifyQuorum_zeroed_of_ready (htick : tick ≠ 0) (h : QuorumReady K epoch db tick) :
    (verifyQuorum K epoch db tick .zeroed).result = true := by
  obtain ⟨d, td, hreach, hget, hpass⟩ := h
  exact (verifyQuorum_zeroed_result_iff htick).mpr ⟨d, hreach, Or.inr ⟨td, hget, hpass⟩⟩

/-- With coherent votes, a call is free of its cache exactly when the tick data agree. -/
theorem cacheFree_iff_of_coherent (htick : tick ≠ 0) (hvotes : VotesCoherent db tick cache.votes) :
    CacheFree K epoch db tick cache ↔ TickDataAgrees K epoch db tick cache.td := by
  constructor
  · rintro ⟨heq, _⟩ hof d hd hquorum
    have hreach := (reachesThreshold_nonzero hd).mpr hquorum
    have hused : usedTickData epoch db tick cache.td = some cache.td := if_pos hof
    have hiff := Bool.eq_iff_iff.mp heq
    rw [verifyQuorum_result_iff_of_coherent hvotes, verifyQuorum_zeroed_result_iff htick,
      hused] at hiff
    constructor
    · intro hpass
      obtain ⟨d', hreach', hcase⟩ := hiff.mp ⟨d, hreach, Or.inr ⟨cache.td, rfl, hpass⟩⟩
      rw [storedVotes_unique htick hreach' hreach] at hcase
      exact hcase.resolve_left hd
    · rintro ⟨stored, hget, hpass⟩
      obtain ⟨d', hreach', hcase⟩ := hiff.mpr ⟨d, hreach, Or.inr ⟨stored, hget, hpass⟩⟩
      rw [storedVotes_unique htick hreach' hreach] at hcase
      obtain ⟨td, htd, hpass'⟩ := hcase.resolve_left hd
      rw [Option.some.inj htd]
      exact hpass'
  · intro hagree
    have heq : (verifyQuorum K epoch db tick cache).result
        = (verifyQuorum K epoch db tick .zeroed).result := by
      rw [Bool.eq_iff_iff, verifyQuorum_result_iff_of_coherent hvotes,
        verifyQuorum_zeroed_result_iff htick]
      apply exists_congr
      intro d
      apply and_congr_right
      intro hreach
      by_cases hd : d = m256i.zero
      · exact ⟨fun _ => Or.inl hd, fun _ => Or.inl hd⟩
      apply or_congr_right
      by_cases hof : cache.td.isOf tick epoch = true
      · -- the kept tick data is used, and passes as the stored one does
        have hboth := hagree hof d hd ((reachesThreshold_nonzero hd).mp hreach)
        rw [show usedTickData epoch db tick cache.td = some cache.td from if_pos hof, ← hboth]
        constructor
        · rintro ⟨td, htd, hpass⟩
          rw [Option.some.inj htd]
          exact hpass
        · exact fun hpass => ⟨cache.td, rfl, hpass⟩
      · rw [show usedTickData epoch db tick cache.td = dbGetTickData db tick from if_neg hof]
    refine ⟨heq, ?_⟩
    intro hready
    rw [heq]
    exact verifyQuorum_zeroed_of_ready htick hready

/-- **`verifyQuorum` does not depend on what earlier calls left**, exactly when the tick data they
left agrees with the stored one. -/
theorem cacheFree_iff (K : KangarooTwelve) (epoch : BitVec 16) (history : List QuorumCall)
    (tick : BitVec 32) (htick : tick ≠ 0) (db : TickKeyDB) (hkept : VotesKept history tick db) :
    CacheFree K epoch db tick (runCalls K epoch .zeroed history) ↔
      TickDataAgrees K epoch db tick (runCalls K epoch .zeroed history).td :=
  cacheFree_iff_of_coherent htick (runCalls_coherent htick hkept)

/-- As long as the stored tick data stays as it is, the call is free of its cache. -/
theorem cacheFree_of_tickDataKept {history : List QuorumCall} (htick : tick ≠ 0)
    (hvotes : VotesKept history tick db) (hdata : TickDataKept history tick db) :
    CacheFree K epoch db tick (runCalls K epoch .zeroed history) := by
  refine (cacheFree_iff_of_coherent htick (runCalls_coherent htick hvotes)).mpr ?_
  intro hof d hd _
  have hofTick := (TickData.isOf_iff.mp hof).1
  -- a kept tick data of this tick is the stored one
  have hstored : dbGetTickData db tick = some (runCalls K epoch .zeroed history).td := by
    rcases @runCalls_td K epoch history QuorumCache.zeroed with hzero | ⟨call, hmem, hcall, hget⟩
    · rw [hzero] at hofTick
      exact absurd hofTick.symm htick
    · have hct : call.tick = tick := hcall.trans hofTick
      rw [hct] at hget
      exact hdata call hmem hct _ hget
  rw [hstored]
  constructor
  · exact fun hpass => ⟨_, rfl, hpass⟩
  · rintro ⟨td, htd, hpass⟩
    rw [Option.some.inj htd]
    exact hpass

/-- In any run of a node that verifies while it receives, the tick data decides alone. -/
theorem run_cacheFree_iff (htick : tick ≠ 0) (steps : List QuorumStep) {n : QuorumNode}
    (hn : n = steps.foldl (QuorumStep.apply K epoch) ⟨db, .zeroed, []⟩) :
    CacheFree K epoch n.db tick n.cache ↔ TickDataAgrees K epoch n.db tick n.cache.td := by
  obtain ⟨hkept, hcache⟩ := hn ▸ @run_consistent K epoch db steps
  rw [hcache]
  exact cacheFree_iff_of_coherent htick (runCalls_coherent htick (hkept tick))

end Main

/-! ## Two tick data of one tick -/

/-- A hash that tells the tick data of computor 1 from the others. -/
def hashOfFirstByte : KangarooTwelve := ⟨fun bs => if bs.head? = some 1 then 7 else 9, fun _ => 0⟩

/-- The tick data of a computor for tick 10, without transactions. -/
def dataOfComputor (i : BitVec 16) : TickData :=
  { TickData.zero with computorIndex := i, tick := 10, epoch := 1 }

/-- All computors have voted for the tick data of computor 1; the store has the one of `i`. -/
def storeWithData (i : BitVec 16) : TickKeyDB :=
  unanimous 10 1 7 (some (dataOfComputor i)) (fun _ h => by rw [← Option.some.inj h]; rfl)

theorem dataOfComputor_passes (db : TickKeyDB) :
    TickDataPasses hashOfFirstByte 1 db 10 7 (dataOfComputor 1) := by
  refine ⟨rfl, rfl, ?_, ?_⟩
  · simp [hashOfFirstByte, TickData.bytes, dataOfComputor, leBytes, List.range_succ]
  · intro i hi
    exact absurd rfl hi

theorem dataOfComputor_zero_hash : hashOfFirstByte.hash32 (dataOfComputor 0).bytes ≠ 7 := by
  simp [hashOfFirstByte, TickData.bytes, dataOfComputor, leBytes, List.range_succ]

/-- The first call deletes the tick data of computor 0 and keeps it. -/
theorem verifyQuorum_storeWithData_zero :
    (verifyQuorum hashOfFirstByte 1 (storeWithData 0) 10 .zeroed).cache.td = dataOfComputor 0 ∧
      (verifyQuorum hashOfFirstByte 1 (storeWithData 0) 10 .zeroed).db
        = dbDeleteTickData (storeWithData 0) 10 := by
  have hreach : reachesThreshold 7 (votesFor 10 1 (fetchVotes (storeWithData 0) 10
      QuorumCache.zeroed.votes) 7) = true := by
    rw [votesFor_fetchVotes (zeroed_coherent (by decide)), storeWithData, storedVotes_unanimous]
    decide
  have hused : usedTickData 1 (storeWithData 0) 10 QuorumCache.zeroed.td
      = some (dataOfComputor 0) := by
    rw [usedTickData_zeroed (Or.inl (by decide))]
    exact dbGetTickData_unanimous
  rw [verifyQuorum_of_reached hreach, if_neg (by decide), verifyTickData, hused]
  dsimp only
  rw [if_neg (by decide), if_pos dataOfComputor_zero_hash]
  exact ⟨rfl, rfl⟩

/-- The wrong tick data is read and deleted, the right one is inserted, and the next call still
returns false. -/
theorem cacheFree_fails_after_deletion :
    let db := dbInsertTickData (dbDeleteTickData (storeWithData 0) 10) (dataOfComputor 1)
    let history : List QuorumCall := [⟨10, storeWithData 0⟩]
    (verifyQuorum hashOfFirstByte 1 (storeWithData 0) 10 .zeroed).db
        = dbDeleteTickData (storeWithData 0) 10 ∧
      VotesKept history 10 db ∧ QuorumReady hashOfFirstByte 1 db 10 ∧
      ¬ CacheFree hashOfFirstByte 1 db 10 (runCalls hashOfFirstByte 1 .zeroed history) := by
  intro db history
  obtain ⟨htd, hdb⟩ := verifyQuorum_storeWithData_zero
  have hkept : VotesKept history 10 db := by
    intro call hmem _ i v hget
    rw [List.mem_singleton.mp hmem] at hget
    exact hget
  have hcount : storedVotes db 10 1 7 = NUMBER_OF_COMPUTORS := by
    calc storedVotes db 10 1 7
        = storedVotes (storeWithData 0) 10 1 7 := rfl
      _ = NUMBER_OF_COMPUTORS := storedVotes_unanimous
  have hready : QuorumReady hashOfFirstByte 1 db 10 :=
    ⟨7, dataOfComputor 1, by rw [hcount]; decide, rfl, dataOfComputor_passes db⟩
  refine ⟨hdb, hkept, hready, ?_⟩
  intro hfree
  have hagree := (cacheFree_iff_of_coherent (by decide) (runCalls_coherent (by decide) hkept)).mp
    hfree
  -- what is kept is still the tick data of computor 0, which does not hash to the digest
  have hkeep : (runCalls hashOfFirstByte 1 .zeroed history).td = dataOfComputor 0 := by
    rw [runCalls_cons, runCalls_nil, htd]
  rw [hkeep] at hagree
  have hstored : dbGetTickData db 10 = some (dataOfComputor 1) := rfl
  have hquorum : 451 ≤ storedVotes db 10 1 7 := by
    rw [hcount]
    decide
  have hpass := (hagree rfl 7 (by decide) hquorum).mpr
    ⟨dataOfComputor 1, hstored, dataOfComputor_passes db⟩
  exact absurd hpass.2.2.1 dataOfComputor_zero_hash

/-- The theorem after a call that has read the right tick data. -/
theorem cacheFree_iff_at_repeated_call :
    let history : List QuorumCall := [⟨10, storeWithData 1⟩]
    CacheFree hashOfFirstByte 1 (storeWithData 1) 10
        (runCalls hashOfFirstByte 1 .zeroed history) ∧
      TickDataAgrees hashOfFirstByte 1 (storeWithData 1) 10
        (runCalls hashOfFirstByte 1 .zeroed history).td := by
  intro history
  have hvotes : VotesKept history 10 (storeWithData 1) := by
    intro call hmem _ i v hget
    rw [List.mem_singleton.mp hmem] at hget
    exact hget
  have hdata : TickDataKept history 10 (storeWithData 1) := by
    intro call hmem _ td hget
    rw [List.mem_singleton.mp hmem] at hget
    exact hget
  have hfree := @cacheFree_of_tickDataKept hashOfFirstByte 1 _ 10 history (by decide) hvotes hdata
  exact ⟨hfree, (cacheFree_iff hashOfFirstByte 1 history 10 (by decide) _ hvotes).mp hfree⟩

end QubicBob
