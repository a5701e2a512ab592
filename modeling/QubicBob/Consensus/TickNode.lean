import QubicBob.Archive.Move
import QubicBob.Consensus.QuorumHistory
import QubicBob.Network.LogReply
import QubicBob.Network.Trust

set_option autoImplicit false

/-! # Nodes that pass ticks

`IOVerifyThread` with the threads it shares KeyDB with: a round of it checks the quorum of the tick
the node is at, notes the tick in `db_status` and goes to the next one when it reads the tick back
from there. Between two rounds the data threads store what arrives, the garbage cleaner removes
ticks and transactions, and the program may be started again.

What a node has gone past stays a fact about the round that passed it, whatever is removed later:
the votes it counted were stored then. A vote of the epoch that is stored is signed by its computor,
as the data threads check the signature before they store anything; this is the invariant of KeyDB,
and the map of cached votes has it from there (`Kept`). Two nodes that have passed a tick on
different digests have counted two sets of signed votes for it, each of at least 451 of the 676
computors, or of 226 that voted for an empty tick. The computors in both sets have signed two
different votes.
-/

namespace QubicBob

/-! ## The node -/

structure TickNode where
  peer : PeerNode
  gInitialTick : Nat
  gCurrentFetchingTick : Nat
  /-- the tick data and the votes the thread keeps from round to round -/
  cache : QuorumCache
  /-- the fields `latest_tick` and `latest_epoch` of `db_status`, 0 if there are none -/
  latest : Nat × Nat

inductive TickNodeStep where
  | peer (st : PeerStep)
  /-- a round of `IOVerifyThread`; `updated` says whether `db_status` could be written -/
  | verify (updated : Bool)
  | cleanRawTick (tick : BitVec 32)
  | cleanTransaction (hash : List Char)
  | restart

namespace TickNode

variable (n : TickNode)

def ticks : TickKeyDB := n.peer.node.db.ticks

def withDb (db : DataStore) : TickNode :=
  { n with peer := { n.peer with node := { n.peer.node with db := db } } }

def epoch : BitVec 16 := n.peer.env.receiver.gCurrentProcessingEpoch

def tick : BitVec 32 := BitVec.ofNat 32 n.gCurrentFetchingTick

/-- The call of `verifyQuorum` in a round. -/
def outcome : QuorumOutcome := verifyQuorum n.peer.env.K n.epoch n.ticks n.tick n.cache

/-- `db_update_latest_tick_and_epoch`: the fields never go back. -/
def updateLatest (updated : Bool) : Nat × Nat :=
  if updated ∧ n.latest.1 < n.gCurrentFetchingTick then (n.gCurrentFetchingTick, n.epoch.toNat)
  else n.latest

/-- A round of `IOVerifyThread`. -/
def verify (updated : Bool) : TickNode :=
  let checked : TickNode :=
    { n.withDb { n.peer.node.db with ticks := n.outcome.db } with cache := n.outcome.cache }
  if n.outcome.result then
    let latest := n.updateLatest updated
    { checked with
      latest := latest
      gCurrentFetchingTick :=
        if n.gCurrentFetchingTick = latest.1 then (n.gCurrentFetchingTick + 1) % 2 ^ 32
        else n.gCurrentFetchingTick }
  else checked

def step : TickNodeStep → TickNode
  | .peer st => { n with peer := n.peer.step st }
  | .verify updated => n.verify updated
  | .cleanRawTick tick =>
      n.withDb { n.peer.node.db with
        ticks := dbDeleteTickVote (dbDeleteTickData n.ticks tick) tick }
  | .cleanTransaction hash =>
      n.withDb { n.peer.node.db with
        transactions := Function.update n.peer.node.db.transactions hash none
        ticks := { n.ticks with hasTransaction := fun h => h != hash && n.ticks.hasTransaction h } }
  | .restart =>
      { n with
        peer := { n.peer with node := { n.peer.node with
          requestMapperFrom := RequestMap.empty, responseSCData := RequestMap.empty } }
        -- the tick of `db_status`, or the initial tick of the epoch if that is later
        gCurrentFetchingTick := max n.gInitialTick n.latest.1
        cache := .zeroed }

/-- The votes the next round goes by. -/
def held : VoteSet := fetchVotes n.ticks n.tick n.cache.votes

/-- The next round passes the tick on this digest. -/
structure Passes (d : m256i) : Prop where
  quorum : reachesThreshold d (votesFor n.tick n.epoch n.held d) = true
  data : d = m256i.zero ∨ ∃ td, usedTickData n.epoch n.ticks n.tick n.cache.td = some td ∧
    TickDataPasses n.peer.env.K n.epoch n.ticks n.tick d td

/-- A round passes the tick exactly when a digest does. -/
theorem outcome_result_iff : n.outcome.result = true ↔ ∃ d, n.Passes d := by
  rw [outcome, verifyQuorum_result_iff]
  exact exists_congr fun d => ⟨fun h => ⟨h.1, h.2⟩, fun h => ⟨h.quorum, h.data⟩⟩

end TickNode

/-! ## Ticks a node has gone past -/

namespace TickNode

/-- One of the rounds of the run passed the tick. -/
def PassedIn (s : TickNode) (steps : List TickNodeStep) (t : Nat) : Prop :=
  ∃ before updated after d, steps = before ++ .verify updated :: after ∧
    (Runs.run step s before).gCurrentFetchingTick = t ∧ (Runs.run step s before).Passes d

theorem PassedIn.append {s : TickNode} {steps : List TickNodeStep} {t : Nat}
    (h : PassedIn s steps t) (more : List TickNodeStep) : PassedIn s (steps ++ more) t := by
  obtain ⟨before, updated, after, d, rfl, ht, hd⟩ := h
  exact ⟨before, updated, after ++ more, d, by rw [List.append_assoc, List.cons_append], ht, hd⟩

/-- The program is started for the first time in the epoch. -/
structure FirstStart (s : TickNode) : Prop where
  tick : s.gCurrentFetchingTick = s.gInitialTick
  latest : s.latest.1 ≤ s.gInitialTick
  cache : s.cache = .zeroed

/-- What a round leaves as it was, and what the check of the quorum gives. -/
theorem verify_frame (s : TickNode) (updated : Bool) :
    (s.verify updated).peer.env = s.peer.env ∧ (s.verify updated).ticks = s.outcome.db ∧
      (s.verify updated).cache = s.outcome.cache ∧
      (s.verify updated).gInitialTick = s.gInitialTick := by
  unfold verify withDb ticks
  dsimp only
  split
  · simp only [and_self]
  · simp only [and_self]

theorem gInitialTick_step (s : TickNode) (st : TickNodeStep) :
    (s.step st).gInitialTick = s.gInitialTick := by
  cases st with
  | verify updated => exact (verify_frame s updated).2.2.2
  | _ => rfl

/-- Of the two numbers of the thread only the round and a restart change any. -/
theorem step_numbers (s : TickNode) (st : TickNodeStep) :
    ((s.step st).gCurrentFetchingTick = s.gCurrentFetchingTick ∧ (s.step st).latest = s.latest) ∨
    (st = .restart ∧ (s.step st).gCurrentFetchingTick = max s.gInitialTick s.latest.1 ∧
      (s.step st).latest = s.latest) ∨
    (∃ updated, st = .verify updated ∧ s.outcome.result = true ∧
      ((s.step st).latest = s.latest ∨ (s.step st).latest.1 = s.gCurrentFetchingTick) ∧
      (s.step st).gCurrentFetchingTick ≤ s.gCurrentFetchingTick + 1) := by
  cases st with
  | verify updated =>
      unfold step verify withDb
      dsimp only
      split
      · next hresult =>
        refine .inr (.inr ⟨updated, rfl, hresult, ?_, ?_⟩)
        · dsimp only
          rw [updateLatest]
          split
          · exact .inr rfl
          · exact .inl rfl
        · dsimp only
          split
          · exact Nat.mod_le _ _
          · exact Nat.le_succ _
      · exact .inl ⟨rfl, rfl⟩
  | restart => exact .inr (.inl ⟨rfl, rfl, rfl⟩)
  | peer st => exact .inl ⟨rfl, rfl⟩
  | cleanRawTick tick => exact .inl ⟨rfl, rfl⟩
  | cleanTransaction hash => exact .inl ⟨rfl, rfl⟩

/-- Every tick a node has gone past was passed by one of its rounds. -/
theorem passed_of_run {s : TickNode} (hs : s.FirstStart) (steps : List TickNodeStep) {t : Nat}
    (hinitial : s.gInitialTick ≤ t) (ht : t < (Runs.run step s steps).gCurrentFetchingTick) :
    PassedIn s steps t := by
  -- what lies before `latest_tick` has been passed too: a restart goes back there
  have hboth : (Runs.run step s steps).gInitialTick = s.gInitialTick ∧
      (∀ t, s.gInitialTick ≤ t → t < (Runs.run step s steps).gCurrentFetchingTick →
        PassedIn s steps t) ∧
      ∀ t, s.gInitialTick ≤ t → t < (Runs.run step s steps).latest.1 → PassedIn s steps t := by
    clear ht
    induction steps using List.reverseRecOn with
    | nil =>
        refine ⟨rfl, fun t hle hlt => ?_, fun t hle hlt => ?_⟩
        · have hfirst := hs.tick
          rw [Runs.run_nil] at hlt
          omega
        · have hfirst := hs.latest
          rw [Runs.run_nil] at hlt
          omega
    | append_singleton steps st ih =>
        obtain ⟨hinit, hcur, hlatest⟩ := ih
        rw [Runs.run_append, Runs.run_cons, Runs.run_nil]
        refine ⟨(gInitialTick_step _ st).trans hinit, ?_⟩
        rcases step_numbers (Runs.run step s steps) st with ⟨hsame, hsame'⟩ | ⟨-, hsame, hsame'⟩ |
          ⟨updated, rfl, hresult, hnew, hnext⟩
        · rw [hsame, hsame']
          exact ⟨fun t hle hlt => (hcur t hle hlt).append _,
            fun t hle hlt => (hlatest t hle hlt).append _⟩
        · rw [hsame, hsame', hinit]
          exact ⟨fun t hle hlt => (hlatest t hle (by omega)).append _,
            fun t hle hlt => (hlatest t hle hlt).append _⟩
        · refine ⟨fun t hle hlt => ?_, fun t hle hlt => ?_⟩
          · by_cases hpast : t < (Runs.run step s steps).gCurrentFetchingTick
            · exact (hcur t hle hpast).append _
            · -- the tick of the round itself
              obtain ⟨d, hd⟩ := (outcome_result_iff _).mp hresult
              exact ⟨steps, updated, [], d, rfl, by omega, hd⟩
          · rcases hnew with hold | hcurrent
            · rw [hold] at hlt
              exact (hlatest t hle hlt).append _
            · rw [hcurrent] at hlt
              exact (hcur t hle hlt).append _
  exact hboth.2.1 t hinitial ht

end TickNode

/-! ## Votes are signed -/

/-- The vote is of the epoch and has a valid signature of its computor. -/
def Receiver.Accepts (R : Receiver) (v : TickVote) : Prop :=
  v.epoch = R.gCurrentProcessingEpoch ∧
    R.verifyVote { v with computorIndex := v.computorIndex ^^^ 3 } (R.publicKeys v.computorIndex) =
      true

/-- Two receivers that know the same epoch, keys and signatures. -/
structure Receiver.SameKeys (R R' : Receiver) : Prop where
  epoch : R.gCurrentProcessingEpoch = R'.gCurrentProcessingEpoch
  publicKeys : R.publicKeys = R'.publicKeys
  verifyVote : R.verifyVote = R'.verifyVote

theorem Receiver.SameKeys.accepts {R R' : Receiver} (h : R.SameKeys R') {v : TickVote} :
    R.Accepts v ↔ R'.Accepts v := by
  rw [Receiver.Accepts, Receiver.Accepts, h.epoch, h.publicKeys, h.verifyVote]

section votes

variable {R : Receiver} {t : BitVec 32} {i : BitVec 16} {v vote : TickVote}

/-- What a packet makes of the ticks. -/
inductive TicksChange (R : Receiver) (db : TickKeyDB) : TickKeyDB → Prop where
  | unchanged : TicksChange R db db
  | vote (v : TickVote) : TicksChange R db (processTickVote R db v)
  | data (td : TickData) : TicksChange R db (processTickData R db td)
  | transaction (hash : List Char) : TicksChange R db (dbInsertTransaction db hash)

/-- Logs touch no ticks. -/
theorem ticks_processLogEntries (D : DataReceiver) (epoch chunkSize : Nat) (payload : List Byte)
    (offset maxLogId : Nat) (db : DataStore) :
    (processLogEntries D epoch chunkSize payload offset maxLogId db).2.2.ticks = db.ticks := by
  fun_induction processLogEntries D epoch chunkSize payload offset maxLogId db with
  | case1 offset maxLogId db hlt tmp logId messageSize le reads hcheck rest ih => exact ih
  | case2 => rfl
  | case3 => rfl

theorem ticks_dbInsertLogRange (db : DataStore) (tick : Nat) (logRange : List Byte) :
    (db.dbInsertLogRange tick logRange).ticks = db.ticks := by
  rw [DataStore.dbInsertLogRange]
  split
  · rfl
  split
  · rfl
  · rfl

theorem processData_ticks (env : DataReceiver) (node : DataNode) (mem : List Byte)
    (size type : Nat) :
    TicksChange env.receiver node.db.ticks (processData env node mem size type).2.db.ticks := by
  unfold processData
  split
  · exact .vote _
  split
  · exact .data _
  split
  · unfold processTransaction
    dsimp only
    split
    · exact .unchanged
    split
    · exact .unchanged
    split
    · exact .unchanged
    · dsimp only
      split
      · exact .transaction _
      · exact .unchanged
  split
  · rw [processLogEvent]
    dsimp only
    rw [dbUpdateLatestLogId_frame]
    dsimp only
    rw [ticks_processLogEntries]
    exact .unchanged
  split
  · rw [processLogRanges]
    split
    · rw [ticks_dbInsertLogRange]
      exact .unchanged
    · exact .unchanged
  split
  · exact .unchanged
  · exact .unchanged

theorem PeerNode.step_ticks (s : PeerNode) (st : PeerStep) :
    TicksChange s.env.receiver s.node.db.ticks (s.step st).node.db.ticks := by
  cases st with
  | data trusted k packet =>
      rw [PeerNode.step]
      split
      · dsimp only
        rw [DataProcessorThread]
        split
        · exact .unchanged
        · exact processData_ticks _ _ _ _ _
      · exact .unchanged
  | request trusted conn packet x rnd stale =>
      rw [PeerNode.step]
      split
      · dsimp only
        split
        · exact .unchanged
        · rw [(s.sendReplies_frame _ _ _ _ _).2.1]
          exact .unchanged
      · exact .unchanged
  | ownPacket packet =>
      rw [PeerNode.step, (PeerNode.enqueueSend_frame false s packet).2.1]
      exact .unchanged
  | _ => exact .unchanged

theorem dbGetTickVote_insert {db : TickKeyDB}
    (h : dbGetTickVote (dbInsertTickVote db vote) t i = some v) :
    dbGetTickVote db t i = some v ∨ v = vote := by
  rw [dbGetTickVote, dbInsertTickVote] at h
  split at h
  · exact .inl h
  · dsimp only at h
    split at h
    · exact .inr (Option.some.inj h).symm
    · exact .inl h

/-- Only signed votes are added. -/
theorem TicksChange.vote_signed {db db' : TickKeyDB} (h : TicksChange R db db')
    (hv : dbGetTickVote db' t i = some v) : dbGetTickVote db t i = some v ∨ R.Accepts v := by
  cases h with
  | unchanged => exact .inl hv
  | vote vote =>
      rcases processTickVote_cases R db vote with hsame | ⟨hepoch, -, hsig, hinsert⟩
      · rw [hsame] at hv
        exact .inl hv
      · rw [hinsert] at hv
        rcases dbGetTickVote_insert hv with hold | rfl
        · exact .inl hold
        · exact .inr ⟨hepoch, hsig⟩
  | data td => exact .inl ((dbGetTickVote_processTickData td).symm.trans hv)
  | transaction hash => exact .inl hv

/-- Only progress changes what the node knows. -/
theorem PeerNode.step_receiver (s : PeerNode) (st : PeerStep) :
    (s.step st).env.receiver = s.env.receiver ∨ ∃ R, st = .progress R ∧
      (s.step st).env.receiver = R := by
  cases st with
  | data trusted k packet =>
      rw [PeerNode.step]
      split
      · exact .inl rfl
      · exact .inl rfl
  | request trusted conn packet x rnd stale =>
      rw [PeerNode.step]
      split
      · dsimp only
        split
        · exact .inl rfl
        · rw [(s.sendReplies_frame _ _ _ _ _).1]
          exact .inl rfl
      · exact .inl rfl
  | ownPacket packet =>
      rw [PeerNode.step, (PeerNode.enqueueSend_frame false s packet).1]
      exact .inl rfl
  | progress R => exact .inr ⟨R, rfl, rfl⟩
  | _ => exact .inl rfl

end votes

namespace TickNode

variable {R : Receiver} {s : TickNode} {steps : List TickNodeStep}

/-- The node goes on in the same epoch with the same computors. -/
def Ok (R : Receiver) : TickNodeStep → Prop
  | .peer (.progress R') => R'.SameKeys R
  | _ => True

/-- A vote, if it is of the epoch, is signed: the votes of an earlier epoch stay in KeyDB, signed by the
computors of their time. -/
def SignedIfOf (R : Receiver) (v : TickVote) : Prop :=
  v.epoch = R.gCurrentProcessingEpoch → R.Accepts v

/-- The votes of the epoch in KeyDB are signed, and so are those the thread keeps, each at the place
of its computor. -/
structure Kept (R : Receiver) (s : TickNode) : Prop where
  keys : s.peer.env.receiver.SameKeys R
  stored : ∀ {t i v}, dbGetTickVote s.ticks t i = some v → SignedIfOf R v
  cached : ∀ i, s.cache.votes i = TickVote.zero ∨
    (SignedIfOf R (s.cache.votes i) ∧ (s.cache.votes i).computorIndex = BitVec.ofNat 16 i.val)

/-- What the next round goes by is signed as well. -/
theorem Kept.held (h : s.Kept R) (i : Fin NUMBER_OF_COMPUTORS) :
    s.held i = TickVote.zero ∨
      (SignedIfOf R (s.held i) ∧ (s.held i).computorIndex = BitVec.ofNat 16 i.val) := by
  rw [TickNode.held, fetchVotes]
  split
  · cases hget : dbGetTickVote s.ticks s.tick (BitVec.ofNat 16 i.val) with
    | none => exact h.cached i
    | some v => exact .inr ⟨h.stored hget, (s.ticks.vote_key hget).2⟩
  · exact h.cached i

theorem Kept.step (h : s.Kept R) (st : TickNodeStep) (hok : Ok R st) : (s.step st).Kept R := by
  cases st with
  | peer st =>
      refine ⟨?_, fun {t i v} hv => ?_, h.cached⟩
      · rcases s.peer.step_receiver st with hsame | ⟨R', rfl, hnew⟩
        · change (s.peer.step st).env.receiver.SameKeys R
          rw [hsame]
          exact h.keys
        · exact hok
      · rcases (s.peer.step_ticks st).vote_signed hv with hold | hnew
        · exact h.stored hold
        · exact fun _ => h.keys.accepts.mp hnew
  | verify updated =>
      have hcached : ∀ i, s.outcome.cache.votes i = TickVote.zero ∨
          (SignedIfOf R (s.outcome.cache.votes i) ∧
            (s.outcome.cache.votes i).computorIndex = BitVec.ofNat 16 i.val) := by
        rw [outcome, verifyQuorum_cache_votes]
        exact h.held
      have hstored : ∀ {t i v}, dbGetTickVote s.outcome.db t i = some v → SignedIfOf R v := by
        intro t i v hv
        rw [outcome, dbGetTickVote_verifyQuorum] at hv
        exact h.stored hv
      obtain ⟨henv, hticks, hcache, -⟩ := s.verify_frame updated
      refine ⟨?_, fun {t i v} hv => ?_, fun i => ?_⟩
      · rw [TickNode.step, henv]
        exact h.keys
      · rw [TickNode.step, hticks] at hv
        exact hstored hv
      · rw [TickNode.step, hcache]
        exact hcached i
  | cleanRawTick tick =>
      refine ⟨h.keys, fun {t i v} hv => ?_, h.cached⟩
      change Cell.read? (if t = tick ∧ i.toNat < NUMBER_OF_COMPUTORS then none
        else s.ticks.tickVote t i) = some v at hv
      split at hv
      · exact absurd hv (by simp [Cell.read?])
      · exact h.stored hv
  | cleanTransaction hash => exact ⟨h.keys, h.stored, h.cached⟩
  | restart => exact ⟨h.keys, h.stored, fun _ => .inl rfl⟩

theorem kept_of_run (hs : s.Kept R) (hok : Runs.Guarded TickNode.step (fun _ st => Ok R st) s steps) :
    (Runs.run TickNode.step s steps).Kept R :=
  Runs.run_invariant (fun _ st h hst => h.step st hst) hs hok

end TickNode

/-! ## Two nodes -/

section agreement

open TickNode

variable {R : Receiver} {a b : TickNode}

/-- The computors of which the two nodes hold votes for the tick with different digests. -/
def doubleVoters (tick : BitVec 32) (epoch : BitVec 16) (a b : TickNode) :
    Finset (Fin NUMBER_OF_COMPUTORS) :=
  Finset.univ.filter fun i => (a.held i).isOf tick epoch = true ∧ (b.held i).isOf tick epoch = true ∧
    (a.held i).transactionDigest ≠ (b.held i).transactionDigest

/-- The votes a digest needs. -/
def threshold (d : m256i) : Nat := if d = m256i.zero then 226 else 451

theorem reachesThreshold_iff {d : m256i} {n : Nat} :
    reachesThreshold d n = true ↔ threshold d ≤ n := by
  rw [reachesThreshold, threshold]
  split
  · exact decide_eq_true_iff
  · exact decide_eq_true_iff

/-- The computors with a vote for the digest. -/
def votersFor (tick : BitVec 32) (epoch : BitVec 16) (votes : VoteSet) (d : m256i) :
    Finset (Fin NUMBER_OF_COMPUTORS) :=
  Finset.univ.filter fun i => (votes i).isOf tick epoch = true ∧ (votes i).transactionDigest = d

theorem card_filter_fin {n : Nat} (p : Fin n → Bool) :
    (Finset.univ.filter fun i => p i = true).card = (List.finRange n).countP p := by
  rw [Fin.univ_def, Finset.card_def, Finset.filter_val, Multiset.filter_coe, Multiset.coe_card,
    List.countP_eq_length_filter]
  congr 1
  exact List.filter_congr fun i _ => Bool.decide_eq_true

theorem card_votersFor (tick : BitVec 32) (epoch : BitVec 16) (votes : VoteSet) (d : m256i) :
    (votersFor tick epoch votes d).card = votesFor tick epoch votes d := by
  rw [votesFor, List.ofFn_eq_map, List.countP_map, ← card_filter_fin, votersFor]
  refine congrArg Finset.card (Finset.filter_congr fun i _ => ?_)
  rw [Function.comp_apply, Bool.and_eq_true, beq_iff_eq]

/-- Two quorums for different digests share computors, which have voted twice. -/
theorem card_doubleVoters {d d' : m256i} {tick : BitVec 32} {epoch : BitVec 16} (hne : d ≠ d')
    (ha : reachesThreshold d (votesFor tick epoch a.held d) = true)
    (hb : reachesThreshold d' (votesFor tick epoch b.held d') = true) :
    threshold d + threshold d' ≤ (doubleVoters tick epoch a b).card + NUMBER_OF_COMPUTORS := by
  rw [reachesThreshold_iff, ← card_votersFor] at ha hb
  have hshared : votersFor tick epoch a.held d ∩ votersFor tick epoch b.held d' ⊆
      doubleVoters tick epoch a b := by
    intro i hi
    simp only [votersFor, Finset.mem_inter, Finset.mem_filter, Finset.mem_univ, true_and] at hi
    obtain ⟨⟨hof, rfl⟩, hof', rfl⟩ := hi
    exact Finset.mem_filter.mpr ⟨Finset.mem_univ i, hof, hof', hne⟩
  calc threshold d + threshold d'
      ≤ (votersFor tick epoch a.held d).card + (votersFor tick epoch b.held d').card :=
        Nat.add_le_add ha hb
    _ = (votersFor tick epoch a.held d ∩ votersFor tick epoch b.held d').card +
          (votersFor tick epoch a.held d ∪ votersFor tick epoch b.held d').card :=
        (Finset.card_inter_add_card_union _ _).symm
    _ ≤ (doubleVoters tick epoch a b).card + NUMBER_OF_COMPUTORS :=
        Nat.add_le_add (Finset.card_le_card hshared)
          ((Finset.card_le_univ _).trans_eq (Fintype.card_fin _))

/-- Computors of which the two nodes hold different signed votes for the tick: at least 226, or at
least one where one of the two has passed the tick as an empty one. -/
structure Conflict (R : Receiver) (a b : TickNode) (d d' : m256i) : Prop where
  many : (if d = m256i.zero ∨ d' = m256i.zero then 1 else 226) ≤
    (doubleVoters a.tick R.gCurrentProcessingEpoch a b).card
  signed : ∀ i ∈ doubleVoters a.tick R.gCurrentProcessingEpoch a b,
    R.Accepts (a.held i) ∧ R.Accepts (b.held i) ∧
      (a.held i).computorIndex = BitVec.ofNat 16 i.val ∧
      (b.held i).computorIndex = BitVec.ofNat 16 i.val

/-- Two nodes pass a tick on one digest, or there is a conflict among the votes they hold. -/
theorem agree_or_conflict (hepoch : R.gCurrentProcessingEpoch ≠ 0) (ha : a.Kept R) (hb : b.Kept R)
    (htick : a.tick = b.tick) {d d' : m256i} (hd : a.Passes d) (hd' : b.Passes d') :
    d = d' ∨ Conflict R a b d d' := by
  by_cases hne : d = d'
  · exact .inl hne
  have hquorum := hd.quorum
  have hquorum' := hd'.quorum
  rw [show a.epoch = R.gCurrentProcessingEpoch from ha.keys.epoch] at hquorum
  rw [show b.epoch = R.gCurrentProcessingEpoch from hb.keys.epoch, ← htick] at hquorum'
  have hcard := card_doubleVoters hne hquorum hquorum'
  refine .inr ⟨?_, fun i hi => ?_⟩
  · have hcount : NUMBER_OF_COMPUTORS = 676 := rfl
    rw [threshold, threshold] at hcard
    by_cases hzero : d = m256i.zero
    · rw [if_pos (.inl hzero)]
      rw [if_pos hzero, if_neg fun h => hne (hzero.trans h.symm)] at hcard
      omega
    · rw [if_neg hzero] at hcard
      by_cases hzero' : d' = m256i.zero
      · rw [if_pos (.inr hzero')]
        rw [if_pos hzero'] at hcard
        omega
      · rw [if_neg (not_or.mpr ⟨hzero, hzero'⟩)]
        rw [if_neg hzero'] at hcard
        omega
  · -- a vote of the epoch is not the zero vote of an empty place
    obtain ⟨-, hof, hof', -⟩ := Finset.mem_filter.mp hi
    have hof_epoch : ∀ v : TickVote, v.isOf a.tick R.gCurrentProcessingEpoch = true →
        v.epoch = R.gCurrentProcessingEpoch := by
      intro v hv
      rw [TickVote.isOf, Bool.and_eq_true, beq_iff_eq, beq_iff_eq] at hv
      exact hv.2
    have hnonzero : ∀ v : TickVote, v.isOf a.tick R.gCurrentProcessingEpoch = true →
        v ≠ TickVote.zero := by
      rintro v hv rfl
      exact hepoch (hof_epoch _ hv).symm
    obtain ⟨hsigned, hindex⟩ := (ha.held i).resolve_left (hnonzero _ hof)
    obtain ⟨hsigned', hindex'⟩ := (hb.held i).resolve_left (hnonzero _ hof')
    exact ⟨hsigned (hof_epoch _ hof), hsigned' (hof_epoch _ hof'), hindex, hindex'⟩

/-- **Agreement.** Two nodes in one epoch, each in a run of its own, have gone past a tick. Then each
passed it in a round, and both on one digest, with the tick data of this digest and its transactions
unless the tick was empty; or they held different signed votes of at least 226 computors, or of one if
one of the two passed the tick as an empty one. -/
theorem passed_ticks_agree (hepoch : R.gCurrentProcessingEpoch ≠ 0) (hfirst : a.FirstStart)
    (hfirst' : b.FirstStart) (ha : a.Kept R) (hb : b.Kept R) {stepsA stepsB : List TickNodeStep}
    (hokA : Runs.Guarded TickNode.step (fun _ st => Ok R st) a stepsA)
    (hokB : Runs.Guarded TickNode.step (fun _ st => Ok R st) b stepsB) {t : Nat}
    (htA : a.gInitialTick ≤ t ∧ t < (Runs.run TickNode.step a stepsA).gCurrentFetchingTick)
    (htB : b.gInitialTick ≤ t ∧ t < (Runs.run TickNode.step b stepsB).gCurrentFetchingTick) :
    ∃ beforeA beforeB, beforeA <+: stepsA ∧ beforeB <+: stepsB ∧
      let a' := Runs.run TickNode.step a beforeA
      let b' := Runs.run TickNode.step b beforeB
      a'.gCurrentFetchingTick = t ∧ b'.gCurrentFetchingTick = t ∧
        ∃ d d', a'.Passes d ∧ b'.Passes d' ∧ (d = d' ∨ Conflict R a' b' d d') := by
  obtain ⟨beforeA, updatedA, afterA, d, rfl, hA, hd⟩ := passed_of_run hfirst stepsA htA.1 htA.2
  obtain ⟨beforeB, updatedB, afterB, d', rfl, hB, hd'⟩ := passed_of_run hfirst' stepsB htB.1 htB.2
  refine ⟨beforeA, beforeB, List.prefix_append _ _, List.prefix_append _ _, hA, hB, d, d', hd, hd',
    ?_⟩
  refine agree_or_conflict hepoch (kept_of_run ha hokA.of_append) (kept_of_run hb hokB.of_append)
    ?_ hd hd'
  rw [TickNode.tick, TickNode.tick, hA, hB]

end agreement

/-! ## Two nodes at one tick -/

/-- Epoch 1, where every signature is accepted. -/
def firstEpoch : Receiver := { bareReceiver.receiver with gCurrentProcessingEpoch := 1 }

/-- A node at tick 10, with what KeyDB has of it. -/
def nodeAtTen (K : KangarooTwelve) (ticks : TickKeyDB) : TickNode where
  peer :=
    { env := { bareReceiver with receiver := firstEpoch, K := K }
      node := { emptyNode with db := { emptyNode.db with ticks := ticks } }
      bufs := fun _ => []
      answers := []
      replied := fun _ => false }
  gInitialTick := 10
  gCurrentFetchingTick := 10
  cache := .zeroed
  latest := (0, 0)

section unanimousNode

variable {K : KangarooTwelve} {digest : m256i} {data : Option TickData}
  {hdata : ∀ td ∈ data, td.tick = 10}

theorem firstStart_nodeAtTen (ticks : TickKeyDB) : (nodeAtTen K ticks).FirstStart :=
  ⟨rfl, Nat.zero_le _, rfl⟩

theorem kept_nodeAtTen : (nodeAtTen K (unanimous 10 1 digest data hdata)).Kept firstEpoch where
  keys := ⟨rfl, rfl, rfl⟩
  stored {t i v} hv := by
    change Cell.read? (if t = 10 then _ else none) = some v at hv
    split at hv
    · rw [← Option.some.inj hv]
      exact fun _ => ⟨rfl, rfl⟩
    · exact absurd hv (by simp [Cell.read?])
  cached i := .inl rfl

/-- A node with the votes and what the digest needs goes to the next tick. -/
theorem passes_nodeAtTen (hneeds : digest = m256i.zero ∨ ∃ td, data = some td ∧
      TickDataPasses K 1 (unanimous 10 1 digest data hdata) 10 digest td) :
    (Runs.run TickNode.step (nodeAtTen K (unanimous 10 1 digest data hdata))
      [.verify true]).gCurrentFetchingTick = 11 := by
  have htrue : (nodeAtTen K (unanimous 10 1 digest data hdata)).outcome.result = true := by
    refine (TickNode.outcome_result_iff _).mpr ⟨digest, ?_, hneeds.imp_right ?_⟩
    · have hvotes : votesFor 10 1 (fetchVotes (unanimous 10 1 digest data hdata) 10
          QuorumCache.zeroed.votes) digest = NUMBER_OF_COMPUTORS := by
        rw [votesFor_fetchVotes (zeroed_coherent (by decide)), storedVotes_unanimous]
      change reachesThreshold digest (votesFor 10 1 (fetchVotes (unanimous 10 1 digest data hdata) 10
        QuorumCache.zeroed.votes) digest) = true
      rw [hvotes, reachesThreshold_iff, threshold]
      split
      · decide
      · decide
    · rintro ⟨td, htd, hpass⟩
      refine ⟨td, ?_, hpass⟩
      have hkept := @usedTickData_zeroed 10 1 (unanimous 10 1 digest data hdata) (.inl (by decide))
      exact hkept.trans (dbGetTickData_unanimous.trans htd)
  rw [Runs.run_cons, Runs.run_nil, TickNode.step, TickNode.verify]
  dsimp only
  rw [if_pos htrue]
  rfl

end unanimousNode

/-- A tick data of tick 10 without transactions. -/
def dataOfTen : TickData := { TickData.zero with tick := 10, epoch := 1 }

theorem tick_dataOfTen : ∀ td ∈ some dataOfTen, td.tick = 10 := by
  intro td htd
  obtain rfl := Option.some.inj htd
  rfl

theorem tick_none : ∀ td ∈ (none : Option TickData), td.tick = 10 :=
  fun _ htd => absurd htd (Option.not_mem_none _)

/-- Every input has the hash 7. -/
def hashSeven : KangarooTwelve := ⟨fun _ => 7, fun _ => 0⟩

theorem dataOfTen_passes (ticks : TickKeyDB) : TickDataPasses hashSeven 1 ticks 10 7 dataOfTen :=
  ⟨rfl, rfl, rfl, fun _ hi => absurd rfl hi⟩

/-- One node has passed tick 10 with its tick data, the other as an empty tick. -/
theorem passed_ticks_agree_at_ten :
    let a := nodeAtTen hashSeven (unanimous 10 1 7 (some dataOfTen) tick_dataOfTen)
    let b := nodeAtTen hashSeven (unanimous 10 1 m256i.zero none tick_none)
    ∃ beforeA beforeB : List TickNodeStep, beforeA <+: [.verify true] ∧ beforeB <+: [.verify true] ∧
      let a' := Runs.run TickNode.step a beforeA
      let b' := Runs.run TickNode.step b beforeB
      a'.gCurrentFetchingTick = 10 ∧ b'.gCurrentFetchingTick = 10 ∧
        ∃ d d', a'.Passes d ∧ b'.Passes d' ∧ (d = d' ∨ Conflict firstEpoch a' b' d d') := by
  have hok : ∀ s : TickNode, Runs.Guarded TickNode.step (fun _ st => TickNode.Ok firstEpoch st) s
      [.verify true] := fun _ => ⟨trivial, trivial⟩
  refine passed_ticks_agree (by decide) (firstStart_nodeAtTen _) (firstStart_nodeAtTen _)
    kept_nodeAtTen kept_nodeAtTen (hok _) (hok _) ⟨le_rfl, ?_⟩ ⟨le_rfl, ?_⟩
  · rw [passes_nodeAtTen (.inr ⟨dataOfTen, rfl, dataOfTen_passes _⟩)]
    decide
  · rw [passes_nodeAtTen (.inl rfl)]
    decide

end QubicBob
