import QubicBob.Lib.Agree
import QubicBob.Verifier.Simulation

set_option autoImplicit false

/-! # What a replay depends on

A snapshot is the two tables of a ledger. Digests and change flags, which are not saved, play no
role in a replay: two ledgers with the same snapshot give ledgers with the same snapshot
(`simulateBatch_agree`). So what is replayed up to a tick is a matter of the events alone, and if
every tick closes what it opens, it is one state, however the ticks are divided into batches
(`Replayed.unique`).
-/

namespace QubicBob

/-- The content of the two files of a tick. -/
structure Snapshot where
  spectrum : Spectrum
  assets : Assets

def Ledger.snapshot (st : Ledger) : Snapshot := ⟨st.spectrum, st.assetUniverse.assets⟩

/-! ## Handlers -/

/-- The table, and what the handler returns. -/
def assetsOf {α : Type} (p : Universe × α) : Assets × α := (p.1.assets, p.2)

section Handlers

variable {depth : Nat} {u v : Universe}

theorem issueAsset_agree (h : u.assets = v.assets) (issuer : m256i) (name : BitVec 56)
    (d : BitVec 8) (unit : BitVec 56) (n : BitVec 64) (c : BitVec 16) :
    AgreeOn assetsOf (issueAsset depth u issuer name d unit n c)
      (issueAsset depth v issuer name d unit n c) := by
  unfold issueAsset
  rw [h]
  refine AgreeOn.bind_same _ fun iss => AgreeOn.ite ?_ (AgreeOn.ok ?_)
  · refine AgreeOn.bind_same _ fun own => AgreeOn.bind_same _ fun poss => AgreeOn.ok ?_
    rfl
  · rw [assetsOf, h]
    rfl

theorem moveShares_agree (h : u.assets = v.assets) (own poss : Nat) (ok pk : m256i)
    (oc pc : BitVec 16) (n : BitVec 64) :
    AgreeOn assetsOf (moveShares depth u own poss ok oc pk pc n)
      (moveShares depth v own poss ok oc pk pc n) := by
  unfold moveShares
  rw [h]
  refine AgreeOn.bind_same _ fun dOwn => AgreeOn.bind_same _ fun dPoss => AgreeOn.ok ?_
  rfl

theorem burnShares_agree (h : u.assets = v.assets) (own poss : Nat) (n : BitVec 64) :
    AgreeOn assetsOf (burnShares depth u own poss n) (burnShares depth v own poss n) := by
  unfold burnShares
  rw [h]
  refine AgreeOn.bind_same _ fun iss => AgreeOn.ite (AgreeOn.ok ?_) (AgreeOn.ok ?_)
  · rw [assetsOf, h]
    rfl
  · rfl

theorem failed_agree {α : Type} (h : u.assets = v.assets) (r : α) :
    AgreeOn assetsOf (pure (u, r) : Except Halt (Universe × α)) (pure (v, r)) :=
  AgreeOn.ok (by rw [assetsOf, h]; rfl)

theorem transferShareOwnershipAndPossession_agree (h : u.assets = v.assets) (a b : Int)
    (key : m256i) (n : BitVec 64) :
    AgreeOn assetsOf (transferShareOwnershipAndPossession depth u a b key n)
      (transferShareOwnershipAndPossession depth v a b key n) := by
  unfold transferShareOwnershipAndPossession
  refine AgreeOn.ite (failed_agree h _) ?_
  rw [h]
  refine AgreeOn.bind_same _ fun o => ?_
  cases o with
  | none => exact failed_agree h _
  | some p => exact AgreeOn.ite (burnShares_agree h _ _ _) (moveShares_agree h _ _ _ _ _ _ _)

theorem transferShareManagementRights_agree (h : u.assets = v.assets) (a b : Int)
    (oc pc : BitVec 16) (n : BitVec 64) :
    AgreeOn assetsOf (transferShareManagementRights depth u a b oc pc n)
      (transferShareManagementRights depth v a b oc pc n) := by
  unfold transferShareManagementRights
  refine AgreeOn.ite (failed_agree h _) ?_
  rw [h]
  refine AgreeOn.bind_same _ fun o => ?_
  cases o with
  | none => exact failed_agree h _
  | some p => exact moveShares_agree h _ _ _ _ _ _ _

theorem transferByKey_agree (h : u.assets = v.assets) (name : BitVec 64)
    (issuer owner possessor : m256i) (n c : BitVec 64) (key : m256i) :
    AgreeOn assetsOf
      (transferShareOwnershipAndPossessionByKey depth u name issuer owner possessor n c key)
      (transferShareOwnershipAndPossessionByKey depth v name issuer owner possessor n c key) := by
  unfold transferShareOwnershipAndPossessionByKey
  rw [h]
  refine AgreeOn.bind_same _ fun iss => AgreeOn.ite (failed_agree h _) ?_
  refine AgreeOn.bind_same _ fun own => AgreeOn.ite (failed_agree h _) ?_
  refine AgreeOn.bind_same _ fun poss => AgreeOn.ite (failed_agree h _) ?_
  refine AgreeOn.ite (AgreeOn.ite ?_ (failed_agree h _)) (failed_agree h _)
  refine AgreeOn.bind (transferShareOwnershipAndPossession_agree h _ _ _ _) ?_
  rintro ⟨u', r⟩ ⟨v', r'⟩ hsame
  obtain ⟨hassets, rfl⟩ := Prod.mk.inj hsame
  exact AgreeOn.ite (failed_agree hassets _) (failed_agree hassets _)

theorem processChangeOwnershipAndPossession_agree (h : u.assets = v.assets) (le0 le1 : LogEvent) :
    AgreeOn assetsOf (processChangeOwnershipAndPossession depth u le0 le1)
      (processChangeOwnershipAndPossession depth v le0 le1) := by
  unfold processChangeOwnershipAndPossession
  refine AgreeOn.ite (AgreeOn.refl _) (AgreeOn.ite (AgreeOn.refl _) ?_)
  exact transferByKey_agree h _ _ _ _ _ _ _

theorem processChangeManagingContract_agree (h : u.assets = v.assets) (le0 le1 : LogEvent) :
    AgreeOn assetsOf (processChangeManagingContract depth u le0 le1)
      (processChangeManagingContract depth v le0 le1) := by
  unfold processChangeManagingContract
  rw [h]
  refine AgreeOn.ite (AgreeOn.refl _) (AgreeOn.ite (AgreeOn.refl _) ?_)
  refine AgreeOn.bind_same _ fun iss => AgreeOn.bind_same _ fun own =>
    AgreeOn.bind_same _ fun poss => ?_
  refine AgreeOn.bind (transferShareManagementRights_agree h _ _ _ _ _) ?_
  rintro ⟨u', r⟩ ⟨v', r'⟩ hsame
  obtain ⟨hassets, rfl⟩ := Prod.mk.inj hsame
  exact AgreeOn.ite (failed_agree hassets _) (AgreeOn.refl _)

end Handlers

/-! ## The loop -/

section Loop

variable {N : Node} {st st' : Ledger}

/-- A handler of asset events, put back into the ledger. -/
theorem assets_agree {α : Type} {x y : Except Halt (Universe × α)} (h : AgreeOn assetsOf x y)
    (hs : st.snapshot = st'.snapshot) :
    AgreeOn Ledger.snapshot (do let (u, _) ← x; pure { st with assetUniverse := u })
      (do let (u, _) ← y; pure { st' with assetUniverse := u }) := by
  refine AgreeOn.bind h ?_
  rintro ⟨u, a⟩ ⟨v, b⟩ hsame
  refine AgreeOn.ok ?_
  have hspectrum : st.spectrum = st'.spectrum := congrArg Snapshot.spectrum hs
  have hassets : u.assets = v.assets := (Prod.mk.inj hsame).1
  rw [Ledger.snapshot, Ledger.snapshot, hspectrum, hassets]

/-- A handler of QU events, put back into the ledger. -/
theorem spectrum_agree {α : Type} (x : Except Halt α) (f : α → Spectrum)
    (hs : st.snapshot = st'.snapshot) :
    AgreeOn Ledger.snapshot (do let a ← x; pure { st with spectrum := f a })
      (do let a ← x; pure { st' with spectrum := f a }) := by
  refine AgreeOn.bind_same _ fun a => AgreeOn.ok ?_
  have hassets : st.assetUniverse.assets = st'.assetUniverse.assets := congrArg Snapshot.assets hs
  rw [Ledger.snapshot, Ledger.snapshot, hassets]

theorem Call.exec_agree (call : Call) (hs : st.snapshot = st'.snapshot) :
    AgreeOn Ledger.snapshot (call.exec N st) (call.exec N st') := by
  have hspectrum : st.spectrum = st'.spectrum := congrArg Snapshot.spectrum hs
  have hassets : st.assetUniverse.assets = st'.assetUniverse.assets := congrArg Snapshot.assets hs
  cases call with
  | quTransfer le =>
      unfold Call.exec
      rw [hspectrum]
      exact spectrum_agree _ id hs
  | issueAsset le => exact assets_agree (issueAsset_agree hassets _ _ _ _ _ _) hs
  | changeOwnershipAndPossession le0 le1 =>
      exact assets_agree (processChangeOwnershipAndPossession_agree hassets le0 le1) hs
  | changeManagingContract le0 le1 =>
      exact assets_agree (processChangeManagingContract_agree hassets le0 le1) hs
  | quBurn le =>
      unfold Call.exec
      rw [hspectrum]
      exact spectrum_agree _ id hs
  | distributeDividends dd =>
      unfold Call.exec
      rw [hspectrum]
      exact spectrum_agree _ Prod.fst hs
  | endEpoch tick =>
      refine AgreeOn.ok ?_
      rw [Ledger.snapshot, Ledger.snapshot, hspectrum, hassets]

/-- The control and the snapshot of a state of the loop. -/
def loopView (p : Control × Ledger) : Control × Snapshot := (p.1, p.2.snapshot)

theorem simulateFrom_agree (vle : List LogEvent) : ∀ (c : Control) {st st' : Ledger},
    st.snapshot = st'.snapshot →
      AgreeOn loopView (simulateFrom N c vle st) (simulateFrom N c vle st') := by
  induction vle with
  | nil =>
      intro c st st' hs
      refine AgreeOn.ok ?_
      rw [loopView, loopView, hs]
  | cons le vle ih =>
      intro c st st' hs
      unfold simulateFrom
      refine AgreeOn.bind_same _ ?_
      rintro ⟨c', call⟩
      cases call with
      | none => exact ih c' hs
      | some call => exact AgreeOn.bind (call.exec_agree hs) (fun _ _ hs' => ih c' hs')

theorem simulate_agree (vle : List LogEvent) (hs : st.snapshot = st'.snapshot) :
    AgreeOn Ledger.snapshot (simulate N vle st) (simulate N vle st') := by
  unfold simulate
  refine AgreeOn.bind (simulateFrom_agree vle .neutral hs) ?_
  rintro ⟨c, st₁⟩ ⟨c', st₁'⟩ hsame
  obtain ⟨rfl, hs₁⟩ := Prod.mk.inj hsame
  cases hw : c.window with
  | some dd =>
      simp only [hw]
      exact AgreeOn.refl _
  | none =>
      simp only [hw]
      exact AgreeOn.ok hs₁

/-- A batch gives the same snapshot on ledgers with the same snapshot. -/
theorem simulateBatch_agree {db : LogDB} {a b : Nat} (hs : st.snapshot = st'.snapshot)
    {st₁ : Ledger} (h : simulateBatch N db a b st = .ok st₁) :
    ∃ st₁', simulateBatch N db a b st' = .ok st₁' ∧ st₁'.snapshot = st₁.snapshot :=
  (simulate_agree _ hs).exists_ok h

end Loop

/-! ## Replaying an epoch -/

/-- An epoch of the node: its first tick, the logs of its ticks, which ticks have logs of the
transaction `SC_END_EPOCH_TX`, and the state files it starts from. What `reorganizeSpectrum` makes
of the spectrum only goes to the files of the next epoch. -/
structure EpochLogs where
  gInitialTick : Nat
  logs : LogDB
  hasEndEpochLogs : Nat → Bool
  bootstrap : Snapshot
  reorganizeSpectrum : Spectrum → Spectrum

/-- The tables after the events of all ticks up to `tick`, replayed in batches from the first tick
of the epoch on. -/
inductive Replayed (N : Node) (E : EpochLogs) : Nat → Snapshot → Prop where
  | bootstrap : Replayed N E (E.gInitialTick - 1) E.bootstrap
  | batch {tick toTick : Nat} {st st' : Ledger} : Replayed N E tick st.snapshot →
      tick < toTick → simulateBatch N E.logs (tick + 1) toTick st = .ok st' →
      Replayed N E toTick st'.snapshot

section Replayed

variable {N : Node} {E : EpochLogs} {t : Nat} {s s' : Snapshot}

/-- A ledger with the given tables. -/
def Snapshot.ledger (s : Snapshot) : Ledger :=
  ⟨s.spectrum, ⟨s.assets, fun _ => 0, fun _ => 0⟩, false, 0⟩

/-- With ticks that close what they open, what is replayed is the result of one batch. -/
theorem Replayed.single (hpos : 0 < E.gInitialTick) (h : Replayed N E t s)
    (hticks : ∀ t', E.gInitialTick ≤ t' → t' ≤ t →
      tickReadable N E.logs t' = true ∧ closesOwn N (tickEvents N E.logs t') = true) :
    t = E.gInitialTick - 1 ∧ s = E.bootstrap ∨
    E.gInitialTick ≤ t ∧ ∃ st, simulateBatch N E.logs E.gInitialTick t E.bootstrap.ledger = .ok st ∧
      st.snapshot = s := by
  induction h with
  | bootstrap => exact Or.inl ⟨rfl, rfl⟩
  | @batch tick toTick st st' _ hlt hsim ih =>
      right
      rcases ih (fun t' h₁ h₂ => hticks t' h₁ (by omega)) with ⟨htick, hboot⟩ | ⟨hle, st₀, hst₀, hs₀⟩
      · -- the first batch
        have hs : st.snapshot = E.bootstrap.ledger.snapshot := hboot
        obtain ⟨st₁, hst₁, hs₁⟩ := simulateBatch_agree hs hsim
        rw [htick, show E.gInitialTick - 1 + 1 = E.gInitialTick by omega] at hst₁
        exact ⟨by omega, st₁, hst₁, hs₁⟩
      · obtain ⟨st₁, hst₁, hs₁⟩ := simulateBatch_agree hs₀.symm hsim
        refine ⟨by omega, st₁, ?_, hs₁⟩
        obtain ⟨hlogs, hcut⟩ := batchLogs_split hle hlt hticks
        calc simulateBatch N E.logs E.gInitialTick toTick E.bootstrap.ledger
            = (simulateBatch N E.logs E.gInitialTick tick E.bootstrap.ledger
                >>= simulateBatch N E.logs (tick + 1) toTick) := by
              rw [simulateBatch, hlogs]
              exact simulate_append hcut _
          _ = simulateBatch N E.logs (tick + 1) toTick st₀ := by rw [hst₀]; rfl
          _ = .ok st₁ := hst₁

/-- The state after the ticks up to `t` is one state, however they were divided into batches. -/
theorem Replayed.unique (hpos : 0 < E.gInitialTick) (h : Replayed N E t s)
    (h' : Replayed N E t s')
    (hticks : ∀ t', E.gInitialTick ≤ t' → t' ≤ t →
      tickReadable N E.logs t' = true ∧ closesOwn N (tickEvents N E.logs t') = true) : s = s' := by
  rcases h.single hpos hticks with ⟨ht, rfl⟩ | ⟨ht, st, hst, rfl⟩
  · rcases h'.single hpos hticks with ⟨_, rfl⟩ | ⟨ht', _⟩
    · rfl
    · omega
  · rcases h'.single hpos hticks with ⟨ht', _⟩ | ⟨_, st', hst', rfl⟩
    · omega
    · rw [hst] at hst'
      rw [Except.ok.inj hst']

end Replayed

end QubicBob
