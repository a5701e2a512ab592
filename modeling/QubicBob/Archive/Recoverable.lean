import QubicBob.Verifier.Snapshot
import QubicBob.Archive.Cleaner
import QubicBob.Lib.Runs

set_option autoImplicit false

/-! # What a restart finds

With `tick_storage_mode` LastNTick three threads share a few counters: the verifier moves
`gCurrentVerifyLoggingTick` and saves a snapshot every `SAVE_PERIOD` ticks, the indexer follows it with
`gCurrentIndexingTick`, and the garbage cleaner removes the ticks that lie more than
`last_n_tick_storage` behind the indexer. After a restart the verifier goes back to the snapshot,
while the indexer goes on where it was.

The verifier is never more than `SAVE_PERIOD` ticks ahead of the snapshot (`VerifierNear`), the
indexer is behind the verifier, and the cleaner is far enough behind the indexer, so what is removed
lies below the snapshot (`cleaned_below_snapshot`).
-/

namespace QubicBob

/-! ## The verifier and its snapshot -/

/-- The tick a restarted verifier begins after. -/
def snapshotTick (E : EpochLogs) (d : Disk) : Nat :=
  (d.latestVerifiedTick.filter (fun t => E.gInitialTick ≤ t)).getD (E.gInitialTick - 1)

/-- The batch does not begin behind its end. -/
def Phase.Forward (gCurrentVerifyLoggingTick : Nat) : Phase → Prop
  | .top => True
  | .scan tick processToTick =>
      gCurrentVerifyLoggingTick ≤ tick ∧ gCurrentVerifyLoggingTick ≤ processToTick
  | .saveLast tick processToTick =>
      gCurrentVerifyLoggingTick ≤ tick ∧ gCurrentVerifyLoggingTick ≤ processToTick
  | .replay processToTick => gCurrentVerifyLoggingTick ≤ processToTick

/-- A running verifier tracks the snapshot and is at most `SAVE_PERIOD` ticks ahead of it. -/
structure Process.Near (E : EpochLogs) (d : Disk) (p : Process) : Prop where
  tracker : p.lastVerifiedTick = snapshotTick E d
  after : snapshotTick E d + 1 ≤ p.gCurrentVerifyLoggingTick
  near : p.gCurrentVerifyLoggingTick ≤ snapshotTick E d + SAVE_PERIOD
  phase : p.phase.Forward p.gCurrentVerifyLoggingTick

def VerifierNear (E : EpochLogs) (m : Machine) : Prop :=
  ∀ p, m.process = some p → p.Near E m.disk

section verifier

variable {N : Node} {E : EpochLogs} {d : Disk} {p : Process} {s : Snapshot}

theorem snapshotTick_of_none (h : d.latestVerifiedTick = none) :
    snapshotTick E d = E.gInitialTick - 1 := by
  rw [snapshotTick, h]
  rfl

theorem snapshotTick_of_some {t : Nat} (h : d.latestVerifiedTick = some t) :
    snapshotTick E d = if E.gInitialTick ≤ t then t else E.gInitialTick - 1 := by
  rw [snapshotTick, h, Option.filter_some]
  by_cases hle : E.gInitialTick ≤ t
  · rw [if_pos hle, if_pos (decide_eq_true hle), Option.getD_some]
  · rw [if_neg hle, if_neg (by simpa using hle), Option.getD_none]

theorem le_snapshotTick (E : EpochLogs) (d : Disk) : E.gInitialTick - 1 ≤ snapshotTick E d := by
  cases h : d.latestVerifiedTick with
  | none => exact (snapshotTick_of_none h).ge
  | some t =>
      rw [snapshotTick_of_some h]
      split
      · omega
      · exact le_refl _

theorem snapshotTick_of_latest {d' : Disk} (h : d'.latestVerifiedTick = d.latestVerifiedTick) :
    snapshotTick E d' = snapshotTick E d := by
  rw [snapshotTick, h, snapshotTick]

/-- What the field is after a save: it never goes back. -/
theorem latest_saveState (d : Disk) (tracker tick : Nat) (s : Snapshot) :
    (saveState d tracker tick s).latestVerifiedTick = some tick ∨
      ∃ current, d.latestVerifiedTick = some current ∧ tick ≤ current ∧
        (saveState d tracker tick s).latestVerifiedTick = some current := by
  rw [saveState, removeFiles_latest]
  have hsaved : (saveFiles d tick s).latestVerifiedTick = d.latestVerifiedTick := rfl
  unfold dbUpdateLatestVerifiedTick
  rw [hsaved]
  cases hcur : d.latestVerifiedTick with
  | none => exact Or.inl rfl
  | some current =>
      dsimp only
      by_cases hlt : current < tick
      · rw [if_pos hlt]
        exact Or.inl rfl
      · rw [if_neg hlt]
        exact Or.inr ⟨current, rfl, not_lt.mp hlt, hcur⟩

/-- A save for a tick that is not behind the snapshot makes it the snapshot. -/
theorem snapshotTick_saveState {tracker tick : Nat} (h : snapshotTick E d ≤ tick) :
    snapshotTick E (saveState d tracker tick s) = tick := by
  have hfirst := le_snapshotTick E d
  rcases latest_saveState d tracker tick s with hlatest | ⟨current, hcur, hle, hlatest⟩
  · rw [snapshotTick_of_some hlatest]
    split
    · rfl
    · omega
  · rw [snapshotTick_of_some hcur] at h hfirst
    rw [snapshotTick_of_some hlatest]
    split
    · next hge =>
        rw [if_pos hge] at h
        omega
    · next hlt =>
        rw [if_neg hlt] at h
        omega

/-- Starting up. -/
theorem near_startAt {t : Nat} (h : t = snapshotTick E d) (s : Snapshot) :
    (startAt N t s).Near E d where
  tracker := h
  after := by
    rw [← h]
    exact le_refl _
  near := by
    change t + 1 ≤ _
    rw [← h, SAVE_PERIOD]
    omega
  phase := trivial

theorem verifierNear_startup : VerifierNear E (startup N E d) ∧
    snapshotTick E (startup N E d).disk = snapshotTick E d := by
  unfold startup
  cases h : d.latestVerifiedTick.filter (fun t => E.gInitialTick ≤ t) with
  | some t =>
      have ht : t = snapshotTick E d := by rw [snapshotTick, h, Option.getD_some]
      dsimp only
      split
      · refine ⟨fun p hp => ?_, rfl⟩
        rw [← Option.some.inj hp]
        exact near_startAt ht _
      · exact ⟨fun p hp => absurd hp (by simp), rfl⟩
  | none =>
      have ht : E.gInitialTick - 1 = snapshotTick E d := by rw [snapshotTick, h, Option.getD_none]
      dsimp only
      have hdisk : snapshotTick E (if (d.spectrumFile N.gCurrentProcessingEpoch).isNone then
          d.writeFiles N.gCurrentProcessingEpoch E.bootstrap else d) = snapshotTick E d := by
        refine snapshotTick_of_latest ?_
        split
        · rfl
        · rfl
      split
      · refine ⟨fun p hp => ?_, hdisk⟩
        rw [← Option.some.inj hp]
        exact near_startAt (ht.trans hdisk.symm) _
      · exact ⟨fun p hp => absurd hp (by simp), hdisk⟩

/-- What a step of the verifier keeps: it stays near the snapshot, which never goes back. -/
def StepKeeps (E : EpochLogs) (d : Disk) (m : Machine) : Prop :=
  VerifierNear E m ∧ snapshotTick E d ≤ snapshotTick E m.disk

theorem stepKeeps_stopped {d' : Disk} (h : d'.latestVerifiedTick = d.latestVerifiedTick) :
    StepKeeps E d ⟨d', none⟩ :=
  ⟨fun p hp => absurd hp (by simp), (snapshotTick_of_latest h).ge⟩

theorem stepKeeps_running (h : p.Near E d) : StepKeeps E d ⟨d, some p⟩ :=
  ⟨fun _ hq => Option.some.inj hq ▸ h, le_refl _⟩

/-- A batch that is cut before a tick does not end before its first tick. -/
theorem le_cutBatch {first tick processToTick : Nat} (hto : first ≤ processToTick) :
    first ≤ if first < tick then tick - 1 else processToTick := by
  split
  · omega
  · exact hto

theorem stepKeeps_scan {tick processToTick : Nat} (h : p.Near E d)
    (hphase : p.phase = .scan tick processToTick) :
    StepKeeps E d (scanStep E d p tick processToTick) := by
  have hforward := h.phase
  rw [hphase] at hforward
  obtain ⟨htick, hto⟩ := hforward
  have hcut := @le_cutBatch _ tick _ hto
  unfold scanStep
  dsimp only
  split
  · exact stepKeeps_running { h with phase := hto }
  split
  · exact stepKeeps_running { h with phase := ⟨by dsimp only; omega, hto⟩ }
  split
  · exact stepKeeps_running { h with phase := ⟨by dsimp only; omega, hcut⟩ }
  · have hafter := h.after
    have hsaved : snapshotTick E (saveState d p.lastVerifiedTick
        (p.gCurrentVerifyLoggingTick - 1) p.ledger.snapshot) =
          p.gCurrentVerifyLoggingTick - 1 := snapshotTick_saveState (by omega)
    refine ⟨fun q hq => ?_, ?_⟩
    · rw [← Option.some.inj hq]
      refine ⟨hsaved.symm, ?_, ?_, ⟨htick, hto⟩⟩
      · rw [hsaved]
        dsimp only
        omega
      · rw [hsaved, SAVE_PERIOD]
        dsimp only
        omega
    · rw [hsaved]
      omega

theorem stepKeeps_saveLast {tick processToTick : Nat} (h : p.Near E d)
    (hphase : p.phase = .saveLast tick processToTick) :
    StepKeeps E d (saveLastStep d p tick processToTick) := by
  have hforward := h.phase
  rw [hphase] at hforward
  obtain ⟨htick, hto⟩ := hforward
  have hcut := @le_cutBatch _ tick _ hto
  unfold saveLastStep
  have hsame : snapshotTick E (saveFiles d (tick - 1) p.ledger.snapshot) = snapshotTick E d :=
    snapshotTick_of_latest rfl
  refine ⟨fun q hq => ?_, hsame.ge⟩
  rw [← Option.some.inj hq]
  refine ⟨h.tracker.trans hsame.symm, ?_, ?_, ⟨by dsimp only; omega, hcut⟩⟩
  · rw [hsame]
    exact h.after
  · rw [hsame]
    exact h.near

theorem stepKeeps_accept {processToTick : Nat} {st : Ledger} (h : p.Near E d)
    (hto : p.gCurrentVerifyLoggingTick ≤ processToTick) :
    StepKeeps E d (acceptStep N d p processToTick st) := by
  have hafter := h.after
  have htracker := h.tracker
  unfold acceptStep
  dsimp only
  split
  · next hperiod =>
      have hsaved : ∀ s, snapshotTick E (saveState d p.lastVerifiedTick processToTick s) =
          processToTick := fun s => snapshotTick_saveState (by omega)
      refine ⟨fun q hq => ?_, ?_⟩
      · rw [← Option.some.inj hq]
        refine ⟨(hsaved _).symm, ?_, ?_, trivial⟩
        · rw [hsaved]
        · rw [hsaved, SAVE_PERIOD]
          dsimp only
          omega
      · rw [hsaved]
        omega
  · next hperiod =>
      refine stepKeeps_running ⟨h.tracker, ?_, ?_, trivial⟩
      · dsimp only
        omega
      · dsimp only
        omega

theorem stepKeeps_step {m : Machine} {a : Action} (h : VerifierNear E m) :
    StepKeeps E m.disk (m.step N E a) := by
  have hsame : StepKeeps E m.disk m := ⟨h, le_refl _⟩
  cases hp : m.process with
  | none =>
      cases a with
      | restart =>
          unfold Machine.step
          exact ⟨verifierNear_startup.1, verifierNear_startup.2.ge⟩
      | fetched tick =>
          unfold Machine.step
          rw [hp]
          exact hsame
      | proceed =>
          unfold Machine.step
          rw [hp]
          exact hsame
      | votes check =>
          unfold Machine.step
          rw [hp]
          exact hsame
  | some p =>
      have hnear := h p hp
      cases a with
      | restart =>
          unfold Machine.step
          exact ⟨verifierNear_startup.1, verifierNear_startup.2.ge⟩
      | fetched tick =>
          unfold Machine.step
          rw [hp]
          dsimp only
          split
          · split
            · next hle =>
                exact stepKeeps_running { hnear with phase := ⟨le_refl _, by dsimp only; omega⟩ }
            · exact hsame
          · exact hsame
      | proceed =>
          unfold Machine.step
          rw [hp]
          dsimp only
          split
          · next hphase => exact stepKeeps_scan hnear hphase
          · next hphase => exact stepKeeps_saveLast hnear hphase
          · exact hsame
      | votes check =>
          unfold Machine.step
          rw [hp]
          dsimp only
          split
          · next processToTick hphase =>
              have hto := hnear.phase
              rw [hphase] at hto
              unfold replayStep
              split
              · exact stepKeeps_stopped rfl
              · split
                · unfold endEpochStep
                  split
                  · exact stepKeeps_stopped rfl
                  · exact stepKeeps_stopped rfl
                · split
                  · exact stepKeeps_running hnear
                  · exact stepKeeps_stopped rfl
                  · exact stepKeeps_accept hnear hto
          · exact hsame

end verifier

/-! ## The three threads -/

/-- `indexVerifiedTicks`: what it has indexed last, before and after this is published. -/
inductive IndexerThread where
  | notStarted
  | waiting (lastIndexed : Int)
  | stored (nextTick : Int)
  deriving DecidableEq

/-- `garbageCleaner`: between two rounds, after the first read of the counter, inside `cleanRawTick`,
and behind it, before the last tick is recorded. -/
inductive CleanerThread where
  | notStarted
  | idle (lastCleanTickData : Int)
  | loaded (lastCleanTickData cleanToTick : Int)
  | cleaning (tick cleanToTick : Int)
  | cleaned (lastCleanTickData : Int)
  deriving DecidableEq

/-- What `cleanRawTick` does for a tick, with the tick of the last snapshot at that moment. -/
structure Deletion where
  tick : Int
  /-- log ranges, logs and transactions too, not only the tick data and the votes -/
  withTransactions : Bool
  lastSnapshot : Int
  deriving DecidableEq

/-- The disk and the process of the verifier, the fields of KeyDB that survive a restart, the shared
counters and the other two threads. -/
structure NodeState where
  verifier : Machine
  verifierStarted : Bool
  gCurrentVerifyLoggingTick : Nat
  /-- the field `last_indexed_tick` of `db_status` -/
  lastIndexedTick : Option Int
  gCurrentIndexingTick : Int
  indexer : IndexerThread
  /-- `garbage_cleaner:last_clean_tick_data` -/
  lastCleanTickData : Option Int
  cleaner : CleanerThread
  deletions : List Deletion

/-- The storage mode LastNTick, with transactions either in the same mode or never removed. -/
structure StorageConfig where
  gLastNTickStorage : Nat
  cleanTransactions : Bool

inductive NodeStep where
  /-- the process ends, wherever its threads are, and is started again -/
  | restart
  | startVerifier
  | verify (a : Action)
  | startIndexer
  | index
  | publishIndexed
  | startCleaner
  | loadIndexingTick
  | planCleaning
  | cleanTick
  /-- `db_insert_u32`, which may fail -/
  | recordCleaned (stored : Bool)

/-- The tick of the last saved snapshot, the one before the initial tick if there is none. -/
def lastSnapshot (E : EpochLogs) (d : Disk) : Int :=
  match d.latestVerifiedTick.filter (fun t => E.gInitialTick ≤ t) with
  | some t => t
  | none => (E.gInitialTick : Int) - 1

namespace NodeState

/-- A step of the verifier; its counter is visible to the others while it runs. -/
def withVerifier (s : NodeState) (m : Machine) : NodeState :=
  { s with
    verifier := m
    gCurrentVerifyLoggingTick :=
      (m.process.map Process.gCurrentVerifyLoggingTick).getD s.gCurrentVerifyLoggingTick }

/-- `last_indexed_tick` only grows. -/
def dbUpdateLastIndexedTick (s : NodeState) (tick : Int) : NodeState :=
  { s with lastIndexedTick := some (max (s.lastIndexedTick.getD (-1)) tick) }

def indexStep (s : NodeState) : NodeState :=
  match s.indexer with
  | .waiting lastIndexed =>
      if lastIndexed + 1 < s.gCurrentVerifyLoggingTick then
        { s.dbUpdateLastIndexedTick (lastIndexed + 1) with indexer := .stored (lastIndexed + 1) }
      else s
  | _ => s

def publishStep (s : NodeState) : NodeState :=
  match s.indexer with
  | .stored nextTick => { s with indexer := .waiting nextTick, gCurrentIndexingTick := nextTick }
  | _ => s

/-- The second read of the counter, and the decision. -/
def planStep (C : StorageConfig) (s : NodeState) : NodeState :=
  match s.cleaner with
  | .loaded last cleanToTick =>
      let cleanToTick := min cleanToTick (s.gCurrentIndexingTick - 1 - C.gLastNTickStorage)
      if last < cleanToTick then { s with cleaner := .cleaning (last + 1) cleanToTick }
      else { s with cleaner := .idle last }
  | _ => s

/-- One round of the loop of `cleanRawTick`. -/
def cleanStep (C : StorageConfig) (E : EpochLogs) (s : NodeState) : NodeState :=
  match s.cleaner with
  | .cleaning tick cleanToTick =>
      let deletions :=
        ⟨tick, C.cleanTransactions, lastSnapshot E s.verifier.disk⟩ :: s.deletions
      if tick < cleanToTick then
        { s with cleaner := .cleaning (tick + 1) cleanToTick, deletions := deletions }
      else { s with cleaner := .cleaned cleanToTick, deletions := deletions }
  | _ => s

/-- The thread goes by its own variable, also where the tick could not be recorded. -/
def recordStep (stored : Bool) (s : NodeState) : NodeState :=
  match s.cleaner with
  | .cleaned last =>
      { s with
        cleaner := .idle last
        lastCleanTickData := if stored then some last else s.lastCleanTickData }
  | _ => s

/-- A step that does not fit the state changes nothing. -/
def step (N : Node) (E : EpochLogs) (C : StorageConfig) (s : NodeState) : NodeStep → NodeState
  | .restart =>
      { s with
        verifier := ⟨s.verifier.disk, none⟩
        verifierStarted := false
        gCurrentVerifyLoggingTick := 0
        gCurrentIndexingTick := 0
        indexer := .notStarted
        cleaner := .notStarted }
  | .startVerifier =>
      if s.verifierStarted then s
      else { s.withVerifier (startup N E s.verifier.disk) with verifierStarted := true }
  | .verify .restart => s
  | .verify a => s.withVerifier (s.verifier.step N E a)
  | .startIndexer =>
      match s.indexer with
      | .notStarted =>
          let lastIndexed := s.lastIndexedTick.getD ((E.gInitialTick : Int) - 1)
          { s with indexer := .waiting lastIndexed, gCurrentIndexingTick := lastIndexed }
      | _ => s
  | .index => s.indexStep
  | .publishIndexed => s.publishStep
  | .startCleaner =>
      match s.cleaner with
      | .notStarted =>
          { s with cleaner :=
              .idle (max (s.lastCleanTickData.getD E.gInitialTick) E.gInitialTick) }
      | _ => s
  | .loadIndexingTick =>
      match s.cleaner with
      | .idle last => { s with cleaner := .loaded last (s.gCurrentIndexingTick - 5) }
      | _ => s
  | .planCleaning => s.planStep C
  | .cleanTick => s.cleanStep C E
  | .recordCleaned stored => s.recordStep stored

end NodeState

/-! ## The distances that every step keeps -/

/-- The indexer has no tick above the bound. -/
def IndexerThread.AtMost (bound : Int) : IndexerThread → Prop
  | .notStarted => True
  | .waiting lastIndexed => lastIndexed ≤ bound
  | .stored nextTick => nextTick ≤ bound

/-- The cleaner removes no tick from the bound on. -/
def CleanerThread.Below (bound : Int) : CleanerThread → Prop
  | .cleaning tick cleanToTick => tick ≤ cleanToTick ∧ cleanToTick < bound
  | _ => True

/-- The counters around a snapshot at tick `snapshot`. -/
structure CountersNear (snapshot : Nat) (s : NodeState) : Prop where
  verifying : s.gCurrentVerifyLoggingTick ≤ snapshot + SAVE_PERIOD
  stored : s.lastIndexedTick.getD (-1) < snapshot + SAVE_PERIOD
  indexing : s.gCurrentIndexingTick < snapshot + SAVE_PERIOD
  indexer : s.indexer.AtMost (snapshot + SAVE_PERIOD - 1)
  cleaner : s.cleaner.Below (snapshot - 1)

structure NodeInv (E : EpochLogs) (s : NodeState) : Prop where
  verifier : VerifierNear E s.verifier
  counters : CountersNear (snapshotTick E s.verifier.disk) s
  deletions : ∀ d ∈ s.deletions, d.tick ≤ d.lastSnapshot

section steps

variable {N : Node} {E : EpochLogs} {C : StorageConfig} {s : NodeState}

theorem IndexerThread.AtMost.mono {t : IndexerThread} {a b : Int} (h : t.AtMost a) (hab : a ≤ b) :
    t.AtMost b := by
  cases t with
  | notStarted => trivial
  | waiting lastIndexed => exact le_trans h hab
  | stored nextTick => exact le_trans h hab

theorem CleanerThread.Below.mono {t : CleanerThread} {a b : Int} (h : t.Below a) (hab : a ≤ b) :
    t.Below b := by
  cases t with
  | notStarted => trivial
  | idle last => trivial
  | loaded last cleanToTick => trivial
  | cleaning tick cleanToTick => exact ⟨h.1, lt_of_lt_of_le h.2 hab⟩
  | cleaned last => trivial

theorem snapshotTick_le_lastSnapshot (E : EpochLogs) (d : Disk) :
    (snapshotTick E d : Int) ≤ lastSnapshot E d + 1 := by
  unfold snapshotTick lastSnapshot
  cases d.latestVerifiedTick.filter (fun t => E.gInitialTick ≤ t) with
  | none =>
      rw [Option.getD_none]
      dsimp only
      omega
  | some t =>
      rw [Option.getD_some]
      dsimp only
      omega

/-- A step of the verifier alone. -/
theorem NodeInv.withVerifier {m : Machine} (h : NodeInv E s)
    (hm : StepKeeps E s.verifier.disk m) : NodeInv E (s.withVerifier m) := by
  obtain ⟨hnear, hle⟩ := hm
  have hc := h.counters
  have hverifying := hc.verifying
  have hstored := hc.stored
  have hindexing := hc.indexing
  refine ⟨hnear, ⟨?_, ?_, ?_, hc.indexer.mono ?_, hc.cleaner.mono ?_⟩, h.deletions⟩
  · cases hp : m.process with
    | none =>
        dsimp only [NodeState.withVerifier]
        rw [hp, Option.map_none, Option.getD_none]
        omega
    | some p =>
        dsimp only [NodeState.withVerifier]
        rw [hp, Option.map_some, Option.getD_some]
        exact (hnear p hp).near
  · dsimp only [NodeState.withVerifier]
    omega
  · dsimp only [NodeState.withVerifier]
    omega
  · dsimp only [NodeState.withVerifier]
    omega
  · dsimp only [NodeState.withVerifier]
    omega

theorem NodeInv.index (h : NodeInv E s) : NodeInv E s.indexStep := by
  unfold NodeState.indexStep
  have hc := h.counters
  have hstored := hc.stored
  have hverifying := hc.verifying
  split
  · split
    · next lastIndexed _ hlt =>
        refine ⟨h.verifier, { hc with stored := ?_, indexer := ?_ }, h.deletions⟩
        · dsimp only [NodeState.dbUpdateLastIndexedTick]
          rw [Option.getD_some]
          omega
        · change lastIndexed + 1 ≤ _
          dsimp only [NodeState.dbUpdateLastIndexedTick]
          omega
    · exact h
  · exact h

theorem NodeInv.publish (h : NodeInv E s) : NodeInv E s.publishStep := by
  unfold NodeState.publishStep
  have hc := h.counters
  have hindexer := hc.indexer
  split
  · next nextTick hphase =>
      rw [hphase] at hindexer
      have hle : nextTick ≤ _ := hindexer
      refine ⟨h.verifier, { hc with indexing := ?_, indexer := hle }, h.deletions⟩
      dsimp only
      omega
  · exact h

/-- The plan of the cleaner: with at least `SAVE_PERIOD` ticks kept it ends below the snapshot. -/
theorem NodeInv.plan (hC : SAVE_PERIOD ≤ C.gLastNTickStorage) (h : NodeInv E s) :
    NodeInv E (s.planStep C) := by
  unfold NodeState.planStep
  have hc := h.counters
  have hindexing := hc.indexing
  split
  · dsimp only
    split
    · next hlt =>
        refine ⟨h.verifier, { hc with cleaner := ⟨?_, ?_⟩ }, h.deletions⟩
        · omega
        · dsimp only
          omega
    · exact ⟨h.verifier, { hc with cleaner := trivial }, h.deletions⟩
  · exact h

theorem NodeInv.clean (h : NodeInv E s) : NodeInv E (s.cleanStep C E) := by
  unfold NodeState.cleanStep
  have hc := h.counters
  have hsnapshot := snapshotTick_le_lastSnapshot E s.verifier.disk
  have hcleaner := hc.cleaner
  split
  · next tick cleanToTick hphase =>
      rw [hphase] at hcleaner
      obtain ⟨hle, hbound⟩ := hcleaner
      have hdeletions : ∀ d ∈ (⟨tick, C.cleanTransactions,
          lastSnapshot E s.verifier.disk⟩ :: s.deletions : List Deletion),
          d.tick ≤ d.lastSnapshot := by
        intro d hd
        rcases List.mem_cons.mp hd with rfl | hd
        · dsimp only
          omega
        · exact h.deletions d hd
      dsimp only
      split
      · exact ⟨h.verifier, { hc with cleaner := ⟨by omega, hbound⟩ }, hdeletions⟩
      · exact ⟨h.verifier, { hc with cleaner := trivial }, hdeletions⟩
  · exact h

theorem NodeInv.record (h : NodeInv E s) (stored : Bool) : NodeInv E (s.recordStep stored) := by
  unfold NodeState.recordStep
  split
  · exact ⟨h.verifier, { h.counters with cleaner := trivial }, h.deletions⟩
  · exact h

theorem NodeInv.step (hC : SAVE_PERIOD ≤ C.gLastNTickStorage) (h : NodeInv E s) (a : NodeStep) :
    NodeInv E (s.step N E C a) := by
  have hc := h.counters
  have hstored := hc.stored
  have hfirst := le_snapshotTick E s.verifier.disk
  cases a with
  | restart =>
      refine ⟨fun p hp => absurd hp (by simp [NodeState.step]), ⟨?_, hc.stored, ?_, trivial, trivial⟩,
        h.deletions⟩
      · dsimp only [NodeState.step]
        omega
      · dsimp only [NodeState.step]
        rw [SAVE_PERIOD]
        omega
  | startVerifier =>
      dsimp only [NodeState.step]
      split
      · exact h
      · have hw := h.withVerifier
          (⟨verifierNear_startup.1, verifierNear_startup.2.ge⟩ :
            StepKeeps E s.verifier.disk (startup N E s.verifier.disk))
        exact ⟨hw.verifier, ⟨hw.counters.verifying, hw.counters.stored, hw.counters.indexing,
          hw.counters.indexer, hw.counters.cleaner⟩, hw.deletions⟩
  | verify a =>
      cases a with
      | restart => exact h
      | fetched tick => exact h.withVerifier (stepKeeps_step h.verifier)
      | proceed => exact h.withVerifier (stepKeeps_step h.verifier)
      | votes check => exact h.withVerifier (stepKeeps_step h.verifier)
  | startIndexer =>
      dsimp only [NodeState.step]
      have hlast : s.lastIndexedTick.getD ((E.gInitialTick : Int) - 1) <
          snapshotTick E s.verifier.disk + SAVE_PERIOD := by
        cases hl : s.lastIndexedTick with
        | none =>
            rw [Option.getD_none, SAVE_PERIOD]
            omega
        | some l =>
            rw [hl, Option.getD_some] at hstored
            rwa [Option.getD_some]
      split
      · refine ⟨h.verifier, { hc with indexing := hlast, indexer := ?_ }, h.deletions⟩
        change _ ≤ _
        dsimp only
        omega
      · exact h
  | index => exact h.index
  | publishIndexed => exact h.publish
  | startCleaner =>
      dsimp only [NodeState.step]
      split
      · exact ⟨h.verifier, { hc with cleaner := trivial }, h.deletions⟩
      · exact h
  | loadIndexingTick =>
      dsimp only [NodeState.step]
      split
      · exact ⟨h.verifier, { hc with cleaner := trivial }, h.deletions⟩
      · exact h
  | planCleaning => exact h.plan hC
  | cleanTick => exact h.clean
  | recordCleaned stored => exact h.record stored

end steps

/-! ## Runs -/

/-- Before the threads start: the disk, and what KeyDB holds from before. -/
def NodeState.initial (d : Disk) (lastIndexedTick lastCleanTickData : Option Int) : NodeState where
  verifier := ⟨d, none⟩
  verifierStarted := false
  gCurrentVerifyLoggingTick := 0
  lastIndexedTick := lastIndexedTick
  gCurrentIndexingTick := 0
  indexer := .notStarted
  lastCleanTickData := lastCleanTickData
  cleaner := .notStarted
  deletions := []

theorem nodeInv_initial {E : EpochLogs} {d : Disk} {lastIndexedTick lastCleanTickData : Option Int}
    (h : ∀ t, lastIndexedTick = some t → t < snapshotTick E d + SAVE_PERIOD) :
    NodeInv E (NodeState.initial d lastIndexedTick lastCleanTickData) where
  verifier p hp := absurd hp (by simp [NodeState.initial])
  counters :=
    { verifying := Nat.zero_le _
      stored := by
        change lastIndexedTick.getD (-1) < _
        cases hl : lastIndexedTick with
        | none =>
            rw [Option.getD_none]
            omega
        | some t => exact h t hl
      indexing := by
        change (0 : Int) < snapshotTick E d + (SAVE_PERIOD : Nat)
        rw [SAVE_PERIOD]
        omega
      indexer := trivial
      cleaner := trivial }
  deletions d hd := absurd hd List.not_mem_nil

/-- With at least `SAVE_PERIOD` ticks kept, in every interleaving of the three threads with restarts
anywhere: what the cleaner removes is never above the last saved snapshot. The run begins with
`last_indexed_tick` less than `SAVE_PERIOD` ticks above the snapshot; at the start of an epoch it lies
below the initial tick. -/
theorem cleaned_below_snapshot (N : Node) (E : EpochLogs) (C : StorageConfig)
    (hC : SAVE_PERIOD ≤ C.gLastNTickStorage) (d : Disk) (lastIndexedTick lastCleanTickData : Option Int)
    (hindexed : ∀ t, lastIndexedTick = some t → t < snapshotTick E d + SAVE_PERIOD)
    (steps : List NodeStep) :
    ∀ x ∈ (Runs.run (NodeState.step N E C)
      (NodeState.initial d lastIndexedTick lastCleanTickData) steps).deletions,
      x.tick ≤ x.lastSnapshot := by
  have hrun : NodeInv E (Runs.run (NodeState.step N E C)
      (NodeState.initial d lastIndexedTick lastCleanTickData) steps) :=
    Runs.run_keeps (fun _ a h => h.step hC a) (nodeInv_initial hindexed) steps
  exact hrun.deletions

/-- A node that was stopped 500 ticks after its snapshot at tick 5000: the cleaner of the new process
begins with tick 11. -/
theorem cleaned_below_snapshot_after_restart :
    let s := Runs.run (NodeState.step quietNode (quietEpoch 9000) ⟨1000, true⟩)
      (NodeState.initial { emptyDisk with latestVerifiedTick := some 5000 } (some 5500) none)
      [.startIndexer, .startCleaner, .loadIndexingTick, .planCleaning, .cleanTick, .cleanTick]
    s.deletions = [⟨12, true, 5000⟩, ⟨11, true, 5000⟩] ∧ s.cleaner = .cleaning 13 4499 ∧
      ∀ x ∈ s.deletions, x.tick ≤ x.lastSnapshot := by
  refine ⟨by decide +kernel, by decide +kernel, ?_⟩
  refine cleaned_below_snapshot quietNode (quietEpoch 9000) ⟨1000, true⟩ (by decide) _ (some 5500)
    none ?_ _
  intro t ht
  rw [← Option.some.inj ht]
  decide +kernel

end QubicBob
