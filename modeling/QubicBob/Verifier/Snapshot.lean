import QubicBob.Consensus.VoteCount
import QubicBob.Digest.UniverseDigest
import QubicBob.Verifier.Replay

set_option autoImplicit false

/-! # Snapshots of the verified state

`verifyLoggingEvent` as a state machine: what is on disk, and the process that runs, if any. A step
is one save or less, so that the process can be stopped and started again between any two of them.
The spectrum and the universe are saved every `SAVE_PERIOD` ticks after an accepted batch, and once
more when the log ranges of a batch announce the end of the epoch, before this batch is replayed.

The second save writes the state after the last verified tick, and then the same state under the
number of the last tick of the epoch. `saveState` deletes the files of the tick it is told was saved
last, even if these are the files it has just written. `snapshotsHold_of_guarded` says that nothing
else can go wrong: the snapshots are right in every run in which this save finds older files, and
the ticks in between change nothing.
-/

namespace QubicBob

def SAVE_PERIOD : Nat := 1000

def BATCH_VERIFICATION : Nat := 64

/-! ## The machine -/

/-- The files `spectrum.<n>` and `universe.<n>` and the field `latest_verified_tick` of `db_status`.
Ticks and epochs name their files alike. `written` is not on disk: it records the files that were
written for a tick. -/
structure Disk where
  spectrumFile : Nat → Option Spectrum
  universeFile : Nat → Option Assets
  latestVerifiedTick : Option Nat
  written : List (Nat × Snapshot)

/-- Where the loop of `verifyLoggingEvent` is. -/
inductive Phase where
  | top
  /-- looking for the end of the epoch, at `tick` -/
  | scan (tick processToTick : Nat)
  /-- between the two saves at the end of the epoch -/
  | saveLast (tick processToTick : Nat)
  /-- the batch is fixed -/
  | replay (processToTick : Nat)

structure Process where
  lastVerifiedTick : Nat
  gCurrentVerifyLoggingTick : Nat
  saveLastTick : Bool
  ledger : Ledger
  phase : Phase

structure Machine where
  disk : Disk
  process : Option Process

/-! ## Saving -/

def Disk.writeFiles (d : Disk) (name : Nat) (s : Snapshot) : Disk :=
  { d with
    spectrumFile := Function.update d.spectrumFile name (some s.spectrum)
    universeFile := Function.update d.universeFile name (some s.assets) }

/-- `saveFiles` under the number of a tick. -/
def saveFiles (d : Disk) (tick : Nat) (s : Snapshot) : Disk :=
  { d.writeFiles tick s with written := d.written ++ [(tick, s)] }

/-- The script of `db_update_latest_verified_tick`: the field never goes back. -/
def dbUpdateLatestVerifiedTick (d : Disk) (tick : Nat) : Disk :=
  match d.latestVerifiedTick with
  | none => { d with latestVerifiedTick := some tick }
  | some current => if current < tick then { d with latestVerifiedTick := some tick } else d

/-- Both files are removed if both are there. -/
def Disk.removeFiles (d : Disk) (name : Nat) : Disk :=
  if (d.spectrumFile name).isSome ∧ (d.universeFile name).isSome then
    { d with
      spectrumFile := Function.update d.spectrumFile name none
      universeFile := Function.update d.universeFile name none }
  else d

/-- The files of the new tick are written before those of `tracker` are removed. The caller sets
its tracker to `lastVerified`. -/
def saveState (d : Disk) (tracker lastVerified : Nat) (s : Snapshot) : Disk :=
  (dbUpdateLatestVerifiedTick (saveFiles d lastVerified s) lastVerified).removeFiles tracker

/-! ## Steps -/

/-- The state read from the files; all digests are computed anew. -/
def loadState (N : Node) (s : Snapshot) : Ledger where
  spectrum := s.spectrum
  assetUniverse := (getUniverseDigest N.K N.assetsDepth UINT32_MAX UINT32_MAX
    ⟨s.assets, fun _ => 0, fun _ => 0⟩).1
  gIsEndEpoch := false
  lastQuorumTick := 0

def startAt (N : Node) (lastVerifiedTick : Nat) (s : Snapshot) : Process :=
  ⟨lastVerifiedTick, lastVerifiedTick + 1, false, loadState N s, .top⟩

/-- The part of `verifyLoggingEvent` before its loop. Without the files of the last verified tick
it exits; the files of the epoch are downloaded if they are missing. -/
def startup (N : Node) (E : EpochLogs) (d : Disk) : Machine :=
  match d.latestVerifiedTick.filter (fun t => E.gInitialTick ≤ t) with
  | some t =>
      match d.spectrumFile t, d.universeFile t with
      | some s, some u => ⟨d, some (startAt N t ⟨s, u⟩)⟩
      -- the snapshot of the last verified tick is gone: `exit(1)`
      | _, _ => ⟨d, none⟩
  | none =>
      let d := if (d.spectrumFile N.gCurrentProcessingEpoch).isNone then
        d.writeFiles N.gCurrentProcessingEpoch E.bootstrap else d
      match d.spectrumFile N.gCurrentProcessingEpoch, d.universeFile N.gCurrentProcessingEpoch with
      | some s, some u => ⟨d, some (startAt N (E.gInitialTick - 1) ⟨s, u⟩)⟩
      | _, _ => ⟨d, none⟩

/-- One step of the loop that looks for the end of the epoch. -/
def scanStep (E : EpochLogs) (d : Disk) (p : Process) (tick processToTick : Nat) : Machine :=
  let cur := p.gCurrentVerifyLoggingTick
  let cut := if cur < tick then tick - 1 else processToTick
  if processToTick < tick then ⟨d, some { p with phase := .replay processToTick }⟩
  else if E.hasEndEpochLogs tick = false then
    ⟨d, some { p with phase := .scan (tick + 1) processToTick }⟩
  else if p.saveLastTick then ⟨d, some { p with phase := .scan (tick + 1) cut }⟩
  else
    -- the first time: the state in memory is the one after `cur - 1`
    ⟨saveState d p.lastVerifiedTick (cur - 1) p.ledger.snapshot,
      some { p with
        lastVerifiedTick := cur - 1, saveLastTick := true, phase := .saveLast tick processToTick }⟩

/-- The second save at the end of the epoch. -/
def saveLastStep (d : Disk) (p : Process) (tick processToTick : Nat) : Machine :=
  let cut := if p.gCurrentVerifyLoggingTick < tick then tick - 1 else processToTick
  -- still the state after `gCurrentVerifyLoggingTick - 1`, now under the number `tick - 1`
  ⟨saveFiles d (tick - 1) p.ledger.snapshot, some { p with phase := .scan (tick + 1) cut }⟩

/-- The accepted batch: a save if the last one is `SAVE_PERIOD` ticks old. -/
def acceptStep (N : Node) (d : Disk) (p : Process) (processToTick : Nat) (st : Ledger) : Machine :=
  let st := { st with
    assetUniverse := (getUniverseDigest N.K N.assetsDepth
      (BitVec.ofNat 32 p.gCurrentVerifyLoggingTick) (BitVec.ofNat 32 processToTick)
      st.assetUniverse).1 }
  let p := { p with
    gCurrentVerifyLoggingTick := processToTick + 1, ledger := st, phase := .top }
  -- the tables are those after `processToTick`; `lastVerifiedTick` is the tick of the last save
  if SAVE_PERIOD ≤ processToTick - p.lastVerifiedTick then
    ⟨saveState d p.lastVerifiedTick processToTick st.snapshot,
      some { p with lastVerifiedTick := processToTick }⟩
  else ⟨d, some p⟩

/-- The files of the next epoch. -/
def endEpochStep (N : Node) (E : EpochLogs) (d : Disk) (st : Ledger) : Machine :=
  match assetsEndEpoch N.assetsDepth st.assetUniverse with
  | .error _ => ⟨d, none⟩
  | .ok u =>
      ⟨d.writeFiles (N.gCurrentProcessingEpoch + 1) ⟨E.reorganizeSpectrum st.spectrum, u.assets⟩,
        none⟩

/-- The batch is replayed; then the epoch ends, or the votes decide. A batch that does not match
stops the process. -/
def replayStep (N : Node) (E : EpochLogs) (d : Disk) (p : Process) (processToTick : Nat)
    (check : VoteCheck) : Machine :=
  match simulateBatch N E.logs p.gCurrentVerifyLoggingTick processToTick p.ledger with
  | .error _ => ⟨d, none⟩
  | .ok st =>
      if st.gIsEndEpoch then endEpochStep N E d st
      else match check with
        -- the votes are asked for again and counted against the same replayed tables
        | .refetch => ⟨d, some p⟩
        | .misaligned => ⟨d, none⟩
        | .matchedQuorum => acceptStep N d p processToTick st

/-- What happens next: the process is started, after it was stopped at whatever point it had
reached; the logs up to a tick are there; the loop goes on; the votes of the batch are counted. -/
inductive Action where
  | restart
  | fetched (tick : Nat)
  | proceed
  | votes (check : VoteCheck)

/-- An action that does not fit the phase changes nothing. -/
def Machine.step (N : Node) (E : EpochLogs) (m : Machine) (a : Action) : Machine :=
  match a, m.process with
  | .restart, _ => startup N E m.disk
  | _, none => m
  | .fetched tick, some p =>
      match p.phase with
      | .top =>
          let cur := p.gCurrentVerifyLoggingTick
          if cur ≤ tick then
            ⟨m.disk, some { p with phase := .scan cur (min (cur + BATCH_VERIFICATION) tick) }⟩
          else m
      | _ => m
  | .proceed, some p =>
      match p.phase with
      | .scan tick processToTick => scanStep E m.disk p tick processToTick
      | .saveLast tick processToTick => saveLastStep m.disk p tick processToTick
      | _ => m
  | .votes check, some p =>
      match p.phase with
      | .replay processToTick => replayStep N E m.disk p processToTick check
      | _ => m

def Machine.run (N : Node) (E : EpochLogs) (m : Machine) (actions : List Action) : Machine :=
  actions.foldl (Machine.step N E) m

/-! ## What the snapshots should be -/

/-- The files of the last verified tick are there, with the state after the ticks up to it, and so
was every file written for a tick. -/
structure SnapshotsHold (N : Node) (E : EpochLogs) (d : Disk) : Prop where
  latest : ∀ t, d.latestVerifiedTick = some t → E.gInitialTick ≤ t →
    ∃ s u, d.spectrumFile t = some s ∧ d.universeFile t = some u ∧ Replayed N E t ⟨s, u⟩
  written : ∀ w ∈ d.written, Replayed N E w.1 w.2

/-- The state files of the epoch are the ones it starts from, or are missing. -/
structure EpochFiles (N : Node) (E : EpochLogs) (d : Disk) : Prop where
  spectrum : ∀ s, d.spectrumFile N.gCurrentProcessingEpoch = some s → s = E.bootstrap.spectrum
  assets : ∀ u, d.universeFile N.gCurrentProcessingEpoch = some u → u = E.bootstrap.assets

/-- A disk at the start of the epoch: no tick of it is verified. -/
structure FreshDisk (N : Node) (E : EpochLogs) (d : Disk) : Prop where
  latest : ∀ t, d.latestVerifiedTick = some t → t < E.gInitialTick
  epochFiles : EpochFiles N E d
  written : d.written = []

/-- The condition at the two saves at the end of the epoch: the files found are not those of the
tick that is saved, and the ticks before the end of the epoch leave the two tables as they are. -/
def Machine.Guard (N : Node) (E : EpochLogs) (m : Machine) (a : Action) : Prop :=
  match a, m.process with
  | .proceed, some p =>
      match p.phase with
      | .scan tick processToTick =>
          tick ≤ processToTick → E.hasEndEpochLogs tick = true → p.saveLastTick = false →
            p.lastVerifiedTick ≠ p.gCurrentVerifyLoggingTick - 1 ∨
              p.gCurrentVerifyLoggingTick = E.gInitialTick
      | .saveLast tick _ =>
          tick = p.gCurrentVerifyLoggingTick ∨
            ∃ st, simulateBatch N E.logs p.gCurrentVerifyLoggingTick (tick - 1) p.ledger = .ok st ∧
              st.snapshot = p.ledger.snapshot
      | _ => True
  | _, _ => True

/-- Every step of the run meets the condition. -/
def Machine.Guarded (N : Node) (E : EpochLogs) : Machine → List Action → Prop
  | _, [] => True
  | m, a :: actions => m.Guard N E a ∧ Machine.Guarded N E (m.step N E a) actions

/-! ## What a save does -/

section Saving

variable {d : Disk} {s : Snapshot} {name other tracker tick : Nat}

theorem writeFiles_self : (d.writeFiles name s).spectrumFile name = some s.spectrum ∧
    (d.writeFiles name s).universeFile name = some s.assets :=
  ⟨Function.update_self _ _ _, Function.update_self _ _ _⟩

theorem writeFiles_of_ne (hne : other ≠ name) :
    (d.writeFiles name s).spectrumFile other = d.spectrumFile other ∧
      (d.writeFiles name s).universeFile other = d.universeFile other :=
  ⟨Function.update_of_ne hne _ _, Function.update_of_ne hne _ _⟩

theorem dbUpdateLatestVerifiedTick_files (d : Disk) (tick : Nat) :
    (dbUpdateLatestVerifiedTick d tick).spectrumFile = d.spectrumFile ∧
      (dbUpdateLatestVerifiedTick d tick).universeFile = d.universeFile ∧
      (dbUpdateLatestVerifiedTick d tick).written = d.written := by
  unfold dbUpdateLatestVerifiedTick
  split
  · exact ⟨rfl, rfl, rfl⟩
  · split
    · exact ⟨rfl, rfl, rfl⟩
    · exact ⟨rfl, rfl, rfl⟩

/-- The field is the new tick, or what it was if that is not smaller. -/
theorem dbUpdateLatestVerifiedTick_latest {t : Nat}
    (h : (dbUpdateLatestVerifiedTick d tick).latestVerifiedTick = some t) :
    t = tick ∨ d.latestVerifiedTick = some t ∧ tick ≤ t := by
  unfold dbUpdateLatestVerifiedTick at h
  split at h
  · exact Or.inl (Option.some.inj h).symm
  · next current hcur =>
      split at h
      · exact Or.inl (Option.some.inj h).symm
      · next hle =>
          rw [hcur] at h
          rw [← Option.some.inj h]
          exact Or.inr ⟨hcur, not_lt.mp hle⟩

theorem removeFiles_of_ne (hne : other ≠ name) :
    (d.removeFiles name).spectrumFile other = d.spectrumFile other ∧
      (d.removeFiles name).universeFile other = d.universeFile other := by
  unfold Disk.removeFiles
  split
  · exact ⟨Function.update_of_ne hne _ _, Function.update_of_ne hne _ _⟩
  · exact ⟨rfl, rfl⟩

theorem removeFiles_latest : (d.removeFiles name).latestVerifiedTick = d.latestVerifiedTick := by
  unfold Disk.removeFiles
  split <;> rfl

theorem removeFiles_written : (d.removeFiles name).written = d.written := by
  unfold Disk.removeFiles
  split <;> rfl

theorem saveState_written :
    (saveState d tracker tick s).written = d.written ++ [(tick, s)] := by
  rw [saveState, removeFiles_written, (dbUpdateLatestVerifiedTick_files _ _).2.2]
  rfl

theorem saveState_latest {t : Nat}
    (h : (saveState d tracker tick s).latestVerifiedTick = some t) :
    t = tick ∨ d.latestVerifiedTick = some t ∧ tick ≤ t := by
  rw [saveState, removeFiles_latest] at h
  have hcase := dbUpdateLatestVerifiedTick_latest h
  exact hcase

/-- The new files stay unless they are the ones to remove. -/
theorem saveState_files (hne : tracker ≠ tick) :
    (saveState d tracker tick s).spectrumFile tick = some s.spectrum ∧
      (saveState d tracker tick s).universeFile tick = some s.assets := by
  have hupdate := dbUpdateLatestVerifiedTick_files (saveFiles d tick s) tick
  unfold saveState
  rw [(removeFiles_of_ne hne.symm).1, (removeFiles_of_ne hne.symm).2, hupdate.1, hupdate.2.1]
  exact writeFiles_self

theorem saveState_other (hne : other ≠ tick) (hne' : other ≠ tracker) :
    (saveState d tracker tick s).spectrumFile other = d.spectrumFile other ∧
      (saveState d tracker tick s).universeFile other = d.universeFile other := by
  have hupdate := dbUpdateLatestVerifiedTick_files (saveFiles d tick s) tick
  unfold saveState
  rw [(removeFiles_of_ne hne').1, (removeFiles_of_ne hne').2, hupdate.1, hupdate.2.1]
  exact writeFiles_of_ne hne

/-- Files saved under the number of the files to remove are removed. -/
theorem saveState_self : (saveState d tick tick s).spectrumFile tick = none := by
  have hupdate := dbUpdateLatestVerifiedTick_files (saveFiles d tick s) tick
  have hself := @writeFiles_self d s tick
  have hboth : ((dbUpdateLatestVerifiedTick (saveFiles d tick s) tick).spectrumFile tick).isSome ∧
      ((dbUpdateLatestVerifiedTick (saveFiles d tick s) tick).universeFile tick).isSome := by
    rw [hupdate.1, hupdate.2.1]
    exact ⟨by rw [show (saveFiles d tick s).spectrumFile tick = _ from hself.1]; rfl,
      by rw [show (saveFiles d tick s).universeFile tick = _ from hself.2]; rfl⟩
  unfold saveState Disk.removeFiles
  rw [if_pos hboth]
  exact Function.update_self _ _ _

end Saving

/-! ## The invariant -/

/-- A batch from `cur` on is not empty, and the end of the epoch is looked for from there. -/
def Phase.From (cur : Nat) : Phase → Prop
  | .top => True
  | .scan tick processToTick => cur ≤ tick ∧ cur ≤ processToTick
  | .saveLast tick processToTick => cur ≤ tick ∧ cur ≤ processToTick
  | .replay processToTick => cur ≤ processToTick

/-- What is true of a running process: its tables are those of the ticks it has verified, and the
snapshot it takes for the last one is the last one. -/
structure ProcessInv (N : Node) (E : EpochLogs) (d : Disk) (p : Process) : Prop where
  initial : E.gInitialTick ≤ p.gCurrentVerifyLoggingTick
  replayed : Replayed N E (p.gCurrentVerifyLoggingTick - 1) p.ledger.snapshot
  lower : E.gInitialTick - 1 ≤ p.lastVerifiedTick
  upper : p.lastVerifiedTick < p.gCurrentVerifyLoggingTick
  latest : ∀ t, d.latestVerifiedTick = some t → E.gInitialTick ≤ t → t = p.lastVerifiedTick
  phase : p.phase.From p.gCurrentVerifyLoggingTick

structure MachineInv (N : Node) (E : EpochLogs) (m : Machine) : Prop where
  snapshots : SnapshotsHold N E m.disk
  epochFiles : EpochFiles N E m.disk
  process : ∀ p, m.process = some p → ProcessInv N E m.disk p

section Steps

variable {N : Node} {E : EpochLogs} {d : Disk} {p : Process}

/-- A save of the verified state, when the files it finds are those of an earlier tick. -/
theorem saveState_snapshots {tracker tick : Nat} {s : Snapshot} (h : SnapshotsHold N E d)
    (hs : Replayed N E tick s)
    (hlatest : ∀ t, d.latestVerifiedTick = some t → E.gInitialTick ≤ t → t ≤ tick)
    (hguard : tracker ≠ tick ∨ tick < E.gInitialTick) :
    SnapshotsHold N E (saveState d tracker tick s) ∧
      ∀ t, (saveState d tracker tick s).latestVerifiedTick = some t → E.gInitialTick ≤ t →
        t = tick := by
  have hlast : ∀ t, (saveState d tracker tick s).latestVerifiedTick = some t →
      E.gInitialTick ≤ t → t = tick := by
    intro t ht hinit
    rcases saveState_latest ht with heq | ⟨hold, hle⟩
    · exact heq
    · exact le_antisymm (hlatest t hold hinit) hle
  refine ⟨⟨?_, ?_⟩, hlast⟩
  · intro t ht hinit
    have heq := hlast t ht hinit
    subst heq
    have hne : tracker ≠ t := hguard.resolve_right (not_lt.mpr hinit)
    exact ⟨s.spectrum, s.assets, (saveState_files hne).1, (saveState_files hne).2, hs⟩
  · intro w hw
    rw [saveState_written, List.mem_append, List.mem_singleton] at hw
    rcases hw with hw | rfl
    · exact h.written w hw
    · exact hs

theorem saveState_epochFiles {tracker tick : Nat} {s : Snapshot} (h : EpochFiles N E d)
    (htick : N.gCurrentProcessingEpoch ≠ tick) (htracker : N.gCurrentProcessingEpoch ≠ tracker) :
    EpochFiles N E (saveState d tracker tick s) := by
  have hother := @saveState_other d s N.gCurrentProcessingEpoch tracker tick htick htracker
  refine ⟨?_, ?_⟩
  · rw [hother.1]
    exact h.spectrum
  · rw [hother.2]
    exact h.assets

/-- The ticks of the epoch are numbered above the epoch and the next one. -/
def NamesApart (N : Node) (E : EpochLogs) : Prop :=
  N.gCurrentProcessingEpoch + 1 < E.gInitialTick - 1

theorem snapshot_getUniverseDigest (st : Ledger) (a b : BitVec 32) :
    Ledger.snapshot { st with
      assetUniverse := (getUniverseDigest N.K N.assetsDepth a b st.assetUniverse).1 }
      = st.snapshot := by
  unfold getUniverseDigest
  split <;> rfl

theorem loadState_snapshot (s : Snapshot) : (loadState N s).snapshot = s := by
  have h := @snapshot_getUniverseDigest N ⟨s.spectrum, ⟨s.assets, fun _ => 0, fun _ => 0⟩, false, 0⟩
    UINT32_MAX UINT32_MAX
  exact h

/-- A process that starts on the snapshot of a tick. -/
theorem startAt_inv {t : Nat} {s : Snapshot} (hapart : NamesApart N E)
    (hs : Replayed N E t s) (hlow : E.gInitialTick - 1 ≤ t)
    (hlatest : ∀ t', d.latestVerifiedTick = some t' → E.gInitialTick ≤ t' → t' = t) :
    ProcessInv N E d (startAt N t s) where
  initial := by
    have hpos : 0 < E.gInitialTick := by
      unfold NamesApart at hapart
      omega
    show E.gInitialTick ≤ t + 1
    omega
  replayed := by
    show Replayed N E (t + 1 - 1) (loadState N s).snapshot
    rw [loadState_snapshot]
    exact hs
  lower := hlow
  upper := Nat.lt_succ_self t
  latest := hlatest
  phase := trivial

/-- Writing files under another number than that of the last verified tick. -/
theorem writeFiles_snapshots {name : Nat} {s : Snapshot} (h : SnapshotsHold N E d)
    (hname : name < E.gInitialTick) : SnapshotsHold N E (d.writeFiles name s) := by
  refine ⟨?_, h.written⟩
  intro t ht hinit
  obtain ⟨s', u', hs, hu, hr⟩ := h.latest t ht hinit
  have hne : t ≠ name := by omega
  exact ⟨s', u', (writeFiles_of_ne hne).1.trans hs, (writeFiles_of_ne hne).2.trans hu, hr⟩

theorem writeFiles_bootstrap :
    EpochFiles N E (d.writeFiles N.gCurrentProcessingEpoch E.bootstrap) := by
  refine ⟨?_, ?_⟩
  · intro s hs
    rw [writeFiles_self.1] at hs
    exact (Option.some.inj hs).symm
  · intro u hu
    rw [writeFiles_self.2] at hu
    exact (Option.some.inj hu).symm

theorem startup_inv (hapart : NamesApart N E) (h : SnapshotsHold N E d)
    (hfiles : EpochFiles N E d) : MachineInv N E (startup N E d) := by
  have hstopped : ∀ {d : Disk}, SnapshotsHold N E d → EpochFiles N E d →
      MachineInv N E ⟨d, none⟩ := by
    intro d h hfiles
    exact ⟨h, hfiles, fun p hp => absurd hp (by simp)⟩
  unfold startup
  split
  · next t ht =>
      obtain ⟨hlatest, hinit⟩ := Option.filter_eq_some_iff.mp ht
      have hinit : E.gInitialTick ≤ t := of_decide_eq_true hinit
      obtain ⟨s, u, hs, hu, hr⟩ := h.latest t hlatest hinit
      rw [hs, hu]
      refine ⟨h, hfiles, ?_⟩
      intro p hp
      rw [← Option.some.inj hp]
      refine startAt_inv hapart hr (by omega) ?_
      intro t' ht' _
      rw [hlatest] at ht'
      exact (Option.some.inj ht').symm
  · next hnone =>
      have hno : ∀ t, d.latestVerifiedTick = some t → ¬ E.gInitialTick ≤ t := by
        intro t ht hinit
        rw [ht, Option.filter_some, if_pos (decide_eq_true hinit)] at hnone
        exact absurd hnone (by simp)
      dsimp only
      -- the download only writes the files of the epoch
      have hdown : ∃ d', (if (d.spectrumFile N.gCurrentProcessingEpoch).isNone then
            d.writeFiles N.gCurrentProcessingEpoch E.bootstrap else d) = d' ∧
          SnapshotsHold N E d' ∧ EpochFiles N E d' ∧
          d'.latestVerifiedTick = d.latestVerifiedTick := by
        split
        · refine ⟨_, rfl, writeFiles_snapshots h ?_, writeFiles_bootstrap, rfl⟩
          unfold NamesApart at hapart
          omega
        · exact ⟨d, rfl, h, hfiles, rfl⟩
      obtain ⟨d', hd', hsnap, hepoch, hsame⟩ := hdown
      rw [hd']
      split
      · next s u hs hu =>
          refine ⟨hsnap, hepoch, ?_⟩
          intro p hp
          rw [← Option.some.inj hp, hepoch.spectrum s hs, hepoch.assets u hu]
          refine startAt_inv hapart Replayed.bootstrap (le_refl _) ?_
          intro t ht hinit
          rw [hsame] at ht
          exact absurd hinit (hno t ht)
      · exact hstopped hsnap hepoch

/-- A step of the process that leaves the disk alone and only goes on in the loop. -/
theorem ProcessInv.withPhase {ph : Phase} (h : ProcessInv N E d p)
    (hph : ph.From p.gCurrentVerifyLoggingTick) :
    ProcessInv N E d { p with phase := ph } :=
  ⟨h.initial, h.replayed, h.lower, h.upper, h.latest, hph⟩

theorem MachineInv.of_process {p : Process} (h : SnapshotsHold N E d) (hfiles : EpochFiles N E d)
    (hp : ProcessInv N E d p) : MachineInv N E ⟨d, some p⟩ := by
  refine ⟨h, hfiles, ?_⟩
  intro p' hp'
  rw [← Option.some.inj hp']
  exact hp

/-- Cutting the batch before the end of the epoch leaves it non-empty. -/
theorem le_cut {cur tick processToTick : Nat} (h : cur ≤ processToTick) :
    cur ≤ if cur < tick then tick - 1 else processToTick := by
  split
  · omega
  · exact h

theorem scanStep_inv {tick processToTick : Nat} (hapart : NamesApart N E)
    (h : SnapshotsHold N E d) (hfiles : EpochFiles N E d) (hp : ProcessInv N E d p)
    (hphase : p.phase = .scan tick processToTick)
    (hguard : Machine.Guard N E ⟨d, some p⟩ .proceed) :
    MachineInv N E (scanStep E d p tick processToTick) := by
  have hfrom := hp.phase
  rw [hphase] at hfrom
  obtain ⟨htick, hto⟩ := hfrom
  unfold scanStep
  dsimp only
  split
  · exact MachineInv.of_process h hfiles (hp.withPhase hto)
  next hin =>
  split
  · exact MachineInv.of_process h hfiles (hp.withPhase ⟨by omega, hto⟩)
  next hend =>
  split
  · exact MachineInv.of_process h hfiles (hp.withPhase ⟨by omega, le_cut hto⟩)
  next hlast =>
  -- the save of the verified state; its guard keeps the files it writes
  have hnot : p.lastVerifiedTick ≠ p.gCurrentVerifyLoggingTick - 1 ∨
      p.gCurrentVerifyLoggingTick = E.gInitialTick := by
    unfold Machine.Guard at hguard
    simp only [hphase] at hguard
    exact hguard (not_lt.mp hin) (by simpa using hend) (by simpa using hlast)
  have hinit := hp.initial
  have hlow := hp.lower
  have hup := hp.upper
  unfold NamesApart at hapart
  obtain ⟨hsnap, hlatest⟩ := @saveState_snapshots N E d p.lastVerifiedTick
    (p.gCurrentVerifyLoggingTick - 1) p.ledger.snapshot h hp.replayed
    (by
      intro t ht hinit'
      have heq := hp.latest t ht hinit'
      omega)
    (by omega)
  refine MachineInv.of_process hsnap (saveState_epochFiles hfiles (by omega) (by omega)) ?_
  have hlow' : E.gInitialTick - 1 ≤ p.gCurrentVerifyLoggingTick - 1 := by omega
  have hup' : p.gCurrentVerifyLoggingTick - 1 < p.gCurrentVerifyLoggingTick := by omega
  exact ⟨hinit, hp.replayed, hlow', hup', hlatest, ⟨htick, hto⟩⟩

/-- The condition of the first save cannot be dropped: a save over the files of the last verified
tick leaves none. -/
theorem saveState_unguarded (hp : ProcessInv N E d p)
    (hsame : p.lastVerifiedTick = p.gCurrentVerifyLoggingTick - 1)
    (hlater : E.gInitialTick < p.gCurrentVerifyLoggingTick) :
    ¬ SnapshotsHold N E (saveState d p.lastVerifiedTick (p.gCurrentVerifyLoggingTick - 1)
      p.ledger.snapshot) := by
  intro h
  have hinit : E.gInitialTick ≤ p.gCurrentVerifyLoggingTick - 1 := by omega
  -- the field is the tick of the save, now or before
  have hlatest : (saveState d p.lastVerifiedTick (p.gCurrentVerifyLoggingTick - 1)
      p.ledger.snapshot).latestVerifiedTick = some (p.gCurrentVerifyLoggingTick - 1) := by
    rw [saveState, removeFiles_latest, dbUpdateLatestVerifiedTick]
    split
    · rfl
    · next current hcur =>
        split
        · rfl
        · next hnot =>
            have hcur : d.latestVerifiedTick = some current := hcur
            have heq := hp.latest current hcur (by omega)
            rw [show (saveFiles d (p.gCurrentVerifyLoggingTick - 1)
              p.ledger.snapshot).latestVerifiedTick = d.latestVerifiedTick from rfl, hcur, heq, hsame]
  obtain ⟨s, u, hs, _, _⟩ := h.latest _ hlatest hinit
  rw [hsame, saveState_self] at hs
  exact absurd hs (by simp)

theorem saveLastStep_inv {tick processToTick : Nat} (hapart : NamesApart N E)
    (h : SnapshotsHold N E d) (hfiles : EpochFiles N E d) (hp : ProcessInv N E d p)
    (hphase : p.phase = .saveLast tick processToTick)
    (hguard : Machine.Guard N E ⟨d, some p⟩ .proceed) :
    MachineInv N E (saveLastStep d p tick processToTick) := by
  have hfrom := hp.phase
  rw [hphase] at hfrom
  obtain ⟨htick, hto⟩ := hfrom
  have hinit := hp.initial
  unfold NamesApart at hapart
  -- the state in memory is also the one after the ticks before the end of the epoch
  have hlast : Replayed N E (tick - 1) p.ledger.snapshot := by
    unfold Machine.Guard at hguard
    simp only [hphase] at hguard
    rcases hguard with rfl | ⟨st, hst, hsame⟩
    · exact hp.replayed
    · by_cases heq : tick = p.gCurrentVerifyLoggingTick
      · rw [heq]
        exact hp.replayed
      · rw [← hsame]
        refine Replayed.batch hp.replayed (by omega) ?_
        rw [show p.gCurrentVerifyLoggingTick - 1 + 1 = p.gCurrentVerifyLoggingTick by omega]
        exact hst
  have hname : N.gCurrentProcessingEpoch ≠ tick - 1 := by omega
  refine MachineInv.of_process ⟨?_, ?_⟩ ⟨?_, ?_⟩ ?_
  · intro t ht hinit'
    by_cases heq : t = tick - 1
    · rw [heq]
      exact ⟨_, _, writeFiles_self.1, writeFiles_self.2, hlast⟩
    · obtain ⟨s, u, hs, hu, hr⟩ := h.latest t ht hinit'
      exact ⟨s, u, (writeFiles_of_ne heq).1.trans hs, (writeFiles_of_ne heq).2.trans hu, hr⟩
  · intro w hw
    rw [show (saveFiles d (tick - 1) p.ledger.snapshot).written
      = d.written ++ [(tick - 1, p.ledger.snapshot)] from rfl, List.mem_append,
      List.mem_singleton] at hw
    rcases hw with hw | rfl
    · exact h.written w hw
    · exact hlast
  · intro s hs
    exact hfiles.spectrum s ((writeFiles_of_ne hname).1.symm.trans hs)
  · intro u hu
    exact hfiles.assets u ((writeFiles_of_ne hname).2.symm.trans hu)
  · have hsame : ProcessInv N E (saveFiles d (tick - 1) p.ledger.snapshot) p :=
      ⟨hinit, hp.replayed, hp.lower, hp.upper, hp.latest, hp.phase⟩
    exact hsame.withPhase ⟨by omega, le_cut hto⟩

theorem acceptStep_inv {processToTick : Nat} {st : Ledger} (hapart : NamesApart N E)
    (h : SnapshotsHold N E d) (hfiles : EpochFiles N E d) (hp : ProcessInv N E d p)
    (hto : p.gCurrentVerifyLoggingTick ≤ processToTick)
    (hst : Replayed N E processToTick st.snapshot) :
    MachineInv N E (acceptStep N d p processToTick st) := by
  have hinit := hp.initial
  have hlow := hp.lower
  have hup := hp.upper
  unfold NamesApart at hapart
  unfold acceptStep
  dsimp only
  have hsnapshot := @snapshot_getUniverseDigest N st
    (BitVec.ofNat 32 p.gCurrentVerifyLoggingTick) (BitVec.ofNat 32 processToTick)
  split
  · -- the last save is at least `SAVE_PERIOD` ticks old
    next hold =>
      have hold : 1000 ≤ processToTick - p.lastVerifiedTick := hold
      obtain ⟨hsnap, hlatest⟩ := @saveState_snapshots N E d p.lastVerifiedTick processToTick
        st.snapshot h hst
        (by
          intro t ht hinit'
          have heq := hp.latest t ht hinit'
          omega)
        (by omega)
      rw [hsnapshot]
      refine MachineInv.of_process hsnap (saveState_epochFiles hfiles (by omega) (by omega)) ?_
      refine ⟨?_, ?_, ?_, ?_, hlatest, trivial⟩
      · show E.gInitialTick ≤ processToTick + 1
        omega
      · rw [← hsnapshot] at hst
        exact hst
      · show E.gInitialTick - 1 ≤ processToTick
        omega
      · exact Nat.lt_succ_self processToTick
  · refine MachineInv.of_process h hfiles ⟨?_, ?_, hlow, ?_, hp.latest, trivial⟩
    · show E.gInitialTick ≤ processToTick + 1
      omega
    · rw [← hsnapshot] at hst
      exact hst
    · show p.lastVerifiedTick < processToTick + 1
      omega

theorem MachineInv.stopped (h : SnapshotsHold N E d) (hfiles : EpochFiles N E d) :
    MachineInv N E ⟨d, none⟩ :=
  ⟨h, hfiles, fun _ hp => absurd hp (by simp)⟩

theorem endEpochStep_inv {st : Ledger} (hapart : NamesApart N E) (h : SnapshotsHold N E d)
    (hfiles : EpochFiles N E d) : MachineInv N E (endEpochStep N E d st) := by
  unfold endEpochStep
  split
  · exact MachineInv.stopped h hfiles
  · next u _ =>
      unfold NamesApart at hapart
      have hne : N.gCurrentProcessingEpoch ≠ N.gCurrentProcessingEpoch + 1 := by omega
      refine MachineInv.stopped (writeFiles_snapshots h (by omega)) ⟨?_, ?_⟩
      · intro s hs
        exact hfiles.spectrum s ((writeFiles_of_ne hne).1.symm.trans hs)
      · intro u hu
        exact hfiles.assets u ((writeFiles_of_ne hne).2.symm.trans hu)

theorem replayStep_inv {processToTick : Nat} {check : VoteCheck} (hapart : NamesApart N E)
    (h : SnapshotsHold N E d) (hfiles : EpochFiles N E d) (hp : ProcessInv N E d p)
    (hto : p.gCurrentVerifyLoggingTick ≤ processToTick) :
    MachineInv N E (replayStep N E d p processToTick check) := by
  have hinit := hp.initial
  unfold replayStep
  split
  · exact MachineInv.stopped h hfiles
  next st hsim =>
  have hst : Replayed N E processToTick st.snapshot := by
    unfold NamesApart at hapart
    refine Replayed.batch hp.replayed (by omega) ?_
    rw [show p.gCurrentVerifyLoggingTick - 1 + 1 = p.gCurrentVerifyLoggingTick by omega]
    exact hsim
  split
  · exact endEpochStep_inv hapart h hfiles
  cases check with
  | refetch => exact MachineInv.of_process h hfiles hp
  | misaligned => exact MachineInv.stopped h hfiles
  | matchedQuorum => exact acceptStep_inv hapart h hfiles hp hto hst

/-- One step that meets the condition keeps the invariant. -/
theorem step_inv {m : Machine} {a : Action} (hapart : NamesApart N E) (h : MachineInv N E m)
    (hguard : m.Guard N E a) : MachineInv N E (m.step N E a) := by
  obtain ⟨d, process⟩ := m
  -- without a process only a restart does anything
  cases process with
  | none =>
      cases a with
      | restart => exact startup_inv hapart h.snapshots h.epochFiles
      | fetched tick => exact h
      | proceed => exact h
      | votes check => exact h
  | some p =>
      have hp := h.process p rfl
      cases a with
      | restart => exact startup_inv hapart h.snapshots h.epochFiles
      | fetched tick =>
          unfold Machine.step
          dsimp only
          split
          · split
            · next hle =>
                refine MachineInv.of_process h.snapshots h.epochFiles
                  (hp.withPhase ⟨le_refl _, le_min ?_ hle⟩)
                exact Nat.le_add_right _ _
            · exact h
          · exact h
      | proceed =>
          unfold Machine.step
          dsimp only
          split
          · next tick processToTick hphase =>
              exact scanStep_inv hapart h.snapshots h.epochFiles hp hphase hguard
          · next tick processToTick hphase =>
              exact saveLastStep_inv hapart h.snapshots h.epochFiles hp hphase hguard
          · exact h
      | votes check =>
          unfold Machine.step
          dsimp only
          split
          · next processToTick hphase =>
              have hfrom := hp.phase
              rw [hphase] at hfrom
              exact replayStep_inv hapart h.snapshots h.epochFiles hp hfrom
          · exact h

theorem run_inv (hapart : NamesApart N E) (actions : List Action) : ∀ {m : Machine},
    MachineInv N E m → m.Guarded N E actions → MachineInv N E (m.run N E actions) := by
  induction actions with
  | nil => exact fun h _ => h
  | cons a actions ih =>
      intro m h hguard
      exact ih (step_inv hapart h hguard.1) hguard.2

/-- **The snapshots hold in every state of a run** from the start of the epoch on, whatever the
batches, the saves and the restarts are, if every step meets the condition at the end of the
epoch. -/
theorem snapshotsHold_of_guarded (N : Node) (E : EpochLogs) (hapart : NamesApart N E) (d : Disk)
    (hfresh : FreshDisk N E d) (actions : List Action)
    (hguard : Machine.Guarded N E ⟨d, none⟩ actions) :
    SnapshotsHold N E (Machine.run N E ⟨d, none⟩ actions).disk := by
  refine (run_inv hapart actions (MachineInv.stopped ⟨?_, ?_⟩ hfresh.epochFiles) hguard).snapshots
  · intro t ht hinit
    exact absurd hinit (not_le.mpr (hfresh.latest t ht))
  · intro w hw
    rw [hfresh.written] at hw
    exact absurd hw List.not_mem_nil

end Steps

/-! ## An epoch of four ticks -/

/-- An epoch from tick 10 on without logs, in which tick `last` announces the end of the epoch. -/
def quietEpoch (last : Nat) : EpochLogs where
  gInitialTick := 10
  logs := ⟨⟨fun _ => some .noLogs, fun _ _ => none⟩, ⟨fun _ => none, fun _ _ => none⟩⟩
  hasEndEpochLogs tick := tick == last
  bootstrap := ⟨fun _ => EntityRecord.empty, fun _ => AssetRecord.empty⟩
  reorganizeSpectrum := id

def quietNode : Node := ⟨⟨fun _ => 7, fun _ => 0⟩, 2, 2, 1⟩

/-- A disk without any file. -/
def emptyDisk : Disk := ⟨fun _ => none, fun _ => none, none, []⟩

theorem emptyDisk_fresh (last : Nat) : FreshDisk quietNode (quietEpoch last) emptyDisk where
  latest t h := absurd h (by simp [emptyDisk])
  epochFiles := ⟨fun s h => absurd h (by simp [emptyDisk]), fun u h => absurd h (by simp [emptyDisk])⟩
  written := rfl

theorem quietEpoch_namesApart (last : Nat) : NamesApart quietNode (quietEpoch last) :=
  show 1 + 1 < 10 - 1 by decide

/-- The first tick is verified, the end of the epoch is seen three ticks ahead and the state is
saved; after a restart the same save deletes the files of the last verified tick. -/
theorem snapshotsHold_fails_after_restart :
    let m := Machine.run quietNode (quietEpoch 13) ⟨emptyDisk, none⟩
      [.restart, .fetched 10, .proceed, .proceed, .votes .matchedQuorum,
       .fetched 13, .proceed, .proceed, .proceed,
       .restart, .fetched 13, .proceed, .proceed, .proceed, .proceed]
    NamesApart quietNode (quietEpoch 13) ∧ FreshDisk quietNode (quietEpoch 13) emptyDisk ∧
      ¬ SnapshotsHold quietNode (quietEpoch 13) m.disk := by
  intro m
  refine ⟨quietEpoch_namesApart 13, emptyDisk_fresh 13, ?_⟩
  intro h
  have hlatest : m.disk.latestVerifiedTick = some 10 := by decide +kernel
  have hgone : (m.disk.spectrumFile 10).isNone = true := by decide +kernel
  obtain ⟨s, u, hs, _, _⟩ := h.latest 10 hlatest (by decide)
  rw [hs] at hgone
  exact absurd hgone (by simp)

/-- The theorem at a run in which the end of the epoch is announced by the next tick. -/
theorem snapshotsHold_of_guarded_at_next_tick :
    SnapshotsHold quietNode (quietEpoch 11) (Machine.run quietNode (quietEpoch 11) ⟨emptyDisk, none⟩
      [.restart, .fetched 10, .proceed, .proceed, .votes .matchedQuorum,
       .fetched 13, .proceed, .proceed]).disk := by
  refine snapshotsHold_of_guarded quietNode (quietEpoch 11) (quietEpoch_namesApart 11)
    emptyDisk
    (emptyDisk_fresh 11) _ ⟨trivial, trivial, ?_, ?_, trivial, trivial, ?_, ?_, trivial⟩
  · intro _ hend
    exact absurd hend (by decide)
  · intro hle
    exact absurd hle (by decide)
  · intro _ _ _
    exact Or.inl (by decide)
  · exact Or.inl rfl

end QubicBob
