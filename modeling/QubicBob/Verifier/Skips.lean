import QubicBob.Ledger.SpectrumEffects
import QubicBob.Verifier.AssetEffects

set_option autoImplicit false

/-! # No event is silently skipped

The simulation loop hands every event to a handler, but most handlers do not report a failure: a
dividend window that holds anything but transfers of one source is dropped as a whole, a debit
without the money and an asset that is not found are passed over, and so is half a pair at the end
of the list. `nothingSkipped_iff` says exactly when the loop applies every event or stops with an
error exit: the conditions are those of the handlers, each on the ledger its call finds.
-/

namespace QubicBob

/-! ## What a call is about -/

/-- The events a call is made for. -/
def Call.events : Call → List LogEvent
  | .quTransfer le => [le]
  | .issueAsset le => [le]
  | .changeOwnershipAndPossession le0 le1 => [le0, le1]
  | .changeManagingContract le0 le1 => [le0, le1]
  | .quBurn le => [le]
  | .distributeDividends dd => dd.filter needsApplying
  | .endEpoch _ => []

/-- The events that wait in the control. -/
def Control.events (c : Control) : List LogEvent :=
  (c.window.getD []).filter needsApplying ++ c.ple.toList ++ c.ple1.toList

/-- The call has done what its events say. -/
def Call.Applied (N : Node) (st st' : Ledger) : Call → Prop
  | .quTransfer le => TransferApplied N.spectrumDepth st.spectrum st'.spectrum le
  | .issueAsset le =>
      IssueApplied N.assetsDepth st.assetUniverse.assets st'.assetUniverse.assets
        le.assetIssuance.issuerPublicKey le.assetIssuance.name
        le.assetIssuance.numberOfDecimalPlaces le.assetIssuance.unitOfMeasurement
        le.assetIssuance.numberOfShares (le.assetIssuance.managingContractIndex.setWidth 16)
  | .changeOwnershipAndPossession le0 le1 =>
      ChangeOwnershipApplied N.assetsDepth st.assetUniverse.assets st'.assetUniverse.assets le0 le1
  | .changeManagingContract le0 le1 =>
      ChangeManagingApplied N.assetsDepth st.assetUniverse.assets st'.assetUniverse.assets le0 le1
  | .quBurn le => BurnApplied N.spectrumDepth st.spectrum st'.spectrum le
  | .distributeDividends dd => DividendsApplied N.spectrumDepth st.spectrum st'.spectrum dd
  | .endEpoch _ => True

/-- The condition on the ledger before the call. -/
def Call.Ready (N : Node) (st : Ledger) : Call → Prop
  | .quTransfer le => TransferReady N.spectrumDepth st.spectrum le
  | .issueAsset le =>
      IssueReady N.assetsDepth st.assetUniverse.assets le.assetIssuance.issuerPublicKey
        le.assetIssuance.name
  | .changeOwnershipAndPossession le0 le1 =>
      ChangeOwnershipReady N.assetsDepth st.assetUniverse.assets le0 le1
  | .changeManagingContract le0 le1 =>
      ChangeManagingReady N.assetsDepth st.assetUniverse.assets le0 le1
  | .quBurn le => BurnReady N.spectrumDepth st.spectrum le
  | .distributeDividends dd => DividendsReady N.spectrumDepth st.spectrum dd
  | .endEpoch _ => True

/-- The condition under which the call stops the process. -/
def Call.Stops (N : Node) (st : Ledger) : Call → Prop
  | .changeOwnershipAndPossession le0 le1 => ChangeOwnershipStops le0 le1
  | .changeManagingContract le0 le1 =>
      ChangeManagingStops N.assetsDepth st.assetUniverse.assets le0 le1
  | _ => False

section Calls

variable {N : Node} {st : Ledger}

theorem exists_map_fst {α β γ : Type} {x : Except Halt (α × β)} {f : α → γ} {P : γ → Prop} :
    (∃ c, (do let (a, _) ← x; pure (f a)) = Except.ok c ∧ P c) ↔
      ∃ a b, x = .ok (a, b) ∧ P (f a) := by
  constructor
  · rintro ⟨c, hc, hP⟩
    obtain ⟨⟨a, b⟩, hx, hc⟩ := bind_eq_ok.mp hc
    refine ⟨a, b, hx, ?_⟩
    rw [← Except.ok.inj hc] at hP
    exact hP
  · rintro ⟨a, b, hx, hP⟩
    exact ⟨f a, bind_eq_ok.mpr ⟨(a, b), hx, rfl⟩, hP⟩

theorem exists_map {α γ : Type} {x : Except Halt α} {f : α → γ} {P : γ → Prop} :
    (∃ c, (do let a ← x; pure (f a)) = Except.ok c ∧ P c) ↔ ∃ a, x = .ok a ∧ P (f a) := by
  constructor
  · rintro ⟨c, hc, hP⟩
    obtain ⟨a, hx, hc⟩ := bind_eq_ok.mp hc
    refine ⟨a, hx, ?_⟩
    rw [← Except.ok.inj hc] at hP
    exact hP
  · rintro ⟨a, hx, hP⟩
    exact ⟨f a, bind_eq_ok.mpr ⟨a, hx, rfl⟩, hP⟩

/-- A call comes back having applied its events exactly when it was ready. -/
theorem Call.applied_iff (call : Call) :
    (∃ st', call.exec N st = .ok st' ∧ call.Applied N st st') ↔ call.Ready N st := by
  -- the handler works on one of the two tables, which is then put back
  have hassets := fun {β : Type} {x : Except Halt (Universe × β)} =>
    @exists_map_fst Universe β Ledger x (fun u => { st with assetUniverse := u })
      (fun st' => call.Applied N st st')
  cases call with
  | quTransfer le => exact exists_map.trans (processQuTransfer_applied_iff le)
  | issueAsset le => exact hassets.trans issueAsset_applied_iff
  | changeOwnershipAndPossession le0 le1 =>
      exact hassets.trans processChangeOwnershipAndPossession_applied_iff
  | changeManagingContract le0 le1 =>
      exact hassets.trans processChangeManagingContract_applied_iff
  | quBurn le => exact exists_map.trans (processQuBurn_applied_iff le)
  | distributeDividends dd =>
      have hspectrum := @exists_map_fst _ _ _ (processDistributeDividends N.spectrumDepth
        st.spectrum dd) (fun s => { st with spectrum := s })
        (fun st' => Call.Applied N st st' (.distributeDividends dd))
      exact hspectrum.trans (processDistributeDividends_applied_iff dd)
  | endEpoch tick => exact ⟨fun _ => trivial, fun _ => ⟨_, rfl, trivial⟩⟩

theorem spectrumIndex_neverExits {depth : Nat} {s : Spectrum} {key : m256i} :
    NeverExits (spectrumIndex depth s key) :=
  NeverExits.ite (neverExits_pure _) ((neverExits_orDiverge _).bind
    (fun _ => NeverExits.ite (neverExits_pure _) (neverExits_pure _)))

theorem increaseEnergy_neverExits {depth : Nat} {s : Spectrum} {key : m256i} {amount : BitVec 64}
    {tick : BitVec 32} : NeverExits (increaseEnergy depth s key amount tick) :=
  NeverExits.ite ((neverExits_orDiverge _).bind
    (fun _ => NeverExits.ite (neverExits_pure _) (neverExits_pure _))) (neverExits_pure _)

theorem creditAll_neverExits {depth : Nat} {tick : BitVec 32} (vle : List LogEvent) :
    ∀ s : Spectrum, NeverExits (creditAll depth tick vle s) := by
  induction vle with
  | nil => exact fun s => neverExits_pure s
  | cons le vle ih => exact fun s => increaseEnergy_neverExits.bind ih

theorem processDistributeDividends_neverExits {depth : Nat} {s : Spectrum} (dd : List LogEvent) :
    NeverExits (processDistributeDividends depth s dd) := by
  cases dd with
  | nil => exact neverExits_pure _
  | cons first rest =>
      refine NeverExits.ite (neverExits_pure _) ?_
      cases dividendTotal first.quTransfer.sourcePublicKey (first :: rest) with
      | none => exact neverExits_pure _
      | some total =>
          refine spectrumIndex_neverExits.bind ?_
          intro o
          cases o with
          | none => exact neverExits_pure _
          | some i => exact (creditAll_neverExits _ _).bind (fun _ => neverExits_pure _)

theorem processQuTransfer_neverExits {depth : Nat} {s : Spectrum} (le : LogEvent) :
    NeverExits (processQuTransfer depth s le) :=
  spectrumIndex_neverExits.bind (fun _ => increaseEnergy_neverExits)

theorem processQuBurn_neverExits {depth : Nat} {s : Spectrum} (le : LogEvent) :
    NeverExits (processQuBurn depth s le) := by
  refine spectrumIndex_neverExits.bind (fun o => ?_)
  cases o with
  | none => exact neverExits_pure _
  | some i => exact neverExits_pure _

/-- A call exits exactly when it is a bad pair or a change of managing contracts without the
shares. -/
theorem Call.exit_iff (call : Call) :
    (∃ code, call.exec N st = .error (.exit code)) ↔ call.Stops N st := by
  -- an exit of the whole call is an exit of its handler
  have hmap : ∀ {α β : Type} {x : Except Halt α} {f : α → β},
      (∃ code, (do let a ← x; pure (f a)) = Except.error (.exit code)) ↔
        ∃ code, x = .error (.exit code) := by
    intro α β x f
    cases x with
    | error e => simp [bind, Except.bind]
    | ok a => exact ⟨fun ⟨code, hc⟩ => absurd hc (by simp [bind, Except.bind, pure, Except.pure]),
        fun ⟨code, hc⟩ => absurd hc (by simp)⟩
  have hno : ∀ {α : Type} {x : Except Halt α}, NeverExits x →
      ((∃ code, x = .error (.exit code)) ↔ False) := by
    intro α x hx
    exact ⟨fun ⟨code, hc⟩ => hx code hc, False.elim⟩
  cases call with
  | quTransfer le => exact hmap.trans (hno (processQuTransfer_neverExits le))
  | issueAsset le => exact hmap.trans (hno issueAsset_neverExits)
  | changeOwnershipAndPossession le0 le1 =>
      refine hmap.trans ?_
      by_cases hstop : ChangeOwnershipStops le0 le1
      · exact ⟨fun _ => hstop, fun _ => ⟨1, processChangeOwnershipAndPossession_stops hstop⟩⟩
      · rw [processChangeOwnershipAndPossession_eq hstop]
        exact (hno transferByKey_neverExits).trans ⟨False.elim, hstop⟩
  | changeManagingContract le0 le1 => exact hmap.trans processChangeManagingContract_exit_iff
  | quBurn le => exact hmap.trans (hno (processQuBurn_neverExits le))
  | distributeDividends dd => exact hmap.trans (hno (processDistributeDividends_neverExits dd))
  | endEpoch tick => exact hno (neverExits_pure _)

end Calls

/-! ## Runs of calls -/

/-- Every call of the run comes back having applied its events. -/
def AppliedRun (N : Node) : List Call → Ledger → Ledger → Prop
  | [], st, st' => st' = st
  | call :: calls, st, st' =>
      ∃ st₁, call.exec N st = .ok st₁ ∧ call.Applied N st st₁ ∧ AppliedRun N calls st₁ st'

/-- Every call of the run is ready on the ledger it finds. -/
def ReadyRun (N : Node) : List Call → Ledger → Prop
  | [], _ => True
  | call :: calls, st =>
      call.Ready N st ∧ ∀ st₁, call.exec N st = .ok st₁ → ReadyRun N calls st₁

/-- Some call of the run meets the condition under which it stops the process. -/
def StopsRun (N : Node) : List Call → Ledger → Prop
  | [], _ => False
  | call :: calls, st =>
      call.Stops N st ∨ ∃ st₁, call.exec N st = .ok st₁ ∧ StopsRun N calls st₁

section Runs

variable {N : Node}

theorem appliedRun_iff (calls : List Call) : ∀ st : Ledger,
    (∃ st', AppliedRun N calls st st') ↔ ReadyRun N calls st := by
  induction calls with
  | nil => exact fun st => ⟨fun _ => trivial, fun _ => ⟨st, rfl⟩⟩
  | cons call calls ih =>
      intro st
      constructor
      · rintro ⟨st', st₁, hexec, happ, hrest⟩
        refine ⟨(Call.applied_iff call).mp ⟨st₁, hexec, happ⟩, ?_⟩
        intro st₂ hexec₂
        rw [hexec] at hexec₂
        rw [← Except.ok.inj hexec₂]
        exact (ih st₁).mp ⟨st', hrest⟩
      · rintro ⟨hready, hrest⟩
        obtain ⟨st₁, hexec, happ⟩ := (Call.applied_iff call).mpr hready
        obtain ⟨st', hrun⟩ := (ih st₁).mpr (hrest st₁ hexec)
        exact ⟨st', st₁, hexec, happ, hrun⟩

theorem AppliedRun.execAll {calls : List Call} : ∀ {st st' : Ledger},
    AppliedRun N calls st st' → execAll N calls st = .ok st' := by
  induction calls with
  | nil =>
      intro st st' h
      rw [show st' = st from h]
      rfl
  | cons call calls ih =>
      intro st st' h
      obtain ⟨st₁, hexec, _, hrest⟩ := h
      exact bind_eq_ok.mpr ⟨st₁, hexec, ih hrest⟩

theorem execAll_exit_iff (calls : List Call) : ∀ st : Ledger,
    (∃ code, execAll N calls st = .error (.exit code)) ↔ StopsRun N calls st := by
  induction calls with
  | nil => exact fun st => ⟨fun ⟨code, hc⟩ => absurd hc (neverExits_pure st code), False.elim⟩
  | cons call calls ih =>
      intro st
      constructor
      -- the first call that does not come back decides
      · rintro ⟨code, hc⟩
        cases hexec : call.exec N st with
        | error e =>
            left
            refine (Call.exit_iff call).mp ⟨code, ?_⟩
            rw [execAll, hexec] at hc
            rw [hexec]
            exact congrArg Except.error (Except.error.inj hc)
        | ok st₁ =>
            right
            rw [execAll, hexec] at hc
            exact ⟨st₁, hexec, (ih st₁).mp ⟨code, hc⟩⟩
      · rintro (hstop | ⟨st₁, hexec, hrest⟩)
        · obtain ⟨code, hc⟩ := (Call.exit_iff call).mpr hstop
          exact ⟨code, by rw [execAll, hc]; rfl⟩
        · obtain ⟨code, hc⟩ := (ih st₁).mpr hrest
          exact ⟨code, by rw [execAll, hexec]; exact hc⟩

end Runs

/-! ## Every event is in one call -/

/-- What the loop does with one event. -/
inductive Dispatched (c : Control) (le : LogEvent) : Control → Option Call → Prop where
  | collected {dd : List LogEvent} : c.window = some dd → le.getType ≠ CUSTOM_MESSAGE →
      Dispatched c le { c with window := some (dd ++ [le]) } none
  | windowEnd {dd : List LogEvent} : c.window = some dd → le.getType = CUSTOM_MESSAGE →
      le.getCustomMessage = CUSTOM_MESSAGE_OP_END_DISTRIBUTE_DIVIDENDS →
      Dispatched c le { c with window := none } (some (.distributeDividends dd))
  | transfer : c.window = none → le.getType = QU_TRANSFER →
      Dispatched c le c (some (.quTransfer le))
  | issue : c.window = none → le.getType = ASSET_ISSUANCE →
      Dispatched c le c (some (.issueAsset le))
  | firstOfPair : c.window = none → c.ple = none →
      le.getType = ASSET_OWNERSHIP_CHANGE ∨ le.getType = ASSET_POSSESSION_CHANGE →
      Dispatched c le { c with ple := some le } none
  | pair {ple : LogEvent} : c.window = none → c.ple = some ple →
      le.getType = ASSET_OWNERSHIP_CHANGE ∨ le.getType = ASSET_POSSESSION_CHANGE →
      Dispatched c le { c with ple := none } (some (.changeOwnershipAndPossession ple le))
  | firstOfManagingPair : c.window = none → c.ple1 = none →
      le.getType = ASSET_OWNERSHIP_MANAGING_CONTRACT_CHANGE ∨
        le.getType = ASSET_POSSESSION_MANAGING_CONTRACT_CHANGE →
      Dispatched c le { c with ple1 := some le } none
  | managingPair {ple1 : LogEvent} : c.window = none → c.ple1 = some ple1 →
      le.getType = ASSET_OWNERSHIP_MANAGING_CONTRACT_CHANGE ∨
        le.getType = ASSET_POSSESSION_MANAGING_CONTRACT_CHANGE →
      Dispatched c le { c with ple1 := none } (some (.changeManagingContract ple1 le))
  | burn : c.window = none → le.getType = BURNING → Dispatched c le c (some (.quBurn le))
  | windowStart : c.window = none → le.getType = CUSTOM_MESSAGE →
      le.getCustomMessage = CUSTOM_MESSAGE_OP_START_DISTRIBUTE_DIVIDENDS →
      Dispatched c le { c with window := some [] } none
  | endEpoch : c.window = none → le.getType = CUSTOM_MESSAGE →
      le.getCustomMessage = CUSTOM_MESSAGE_OP_END_EPOCH →
      Dispatched c le c (some (.endEpoch le.getTick))
  | ignored : c.window = none → needsApplying le = false →
      ¬(le.getType = CUSTOM_MESSAGE ∧
        le.getCustomMessage = CUSTOM_MESSAGE_OP_START_DISTRIBUTE_DIVIDENDS) →
      Dispatched c le c none

section Coverage

variable {N : Node}

theorem needsApplying_of_custom {le : LogEvent} (h : le.getType = CUSTOM_MESSAGE) :
    needsApplying le = false := by
  simp [needsApplying, h, CUSTOM_MESSAGE, QU_TRANSFER, BURNING, ASSET_ISSUANCE,
    ASSET_OWNERSHIP_CHANGE, ASSET_POSSESSION_CHANGE, ASSET_OWNERSHIP_MANAGING_CONTRACT_CHANGE,
    ASSET_POSSESSION_MANAGING_CONTRACT_CHANGE]

theorem needsApplying_of_pair {le : LogEvent}
    (h : le.getType = ASSET_OWNERSHIP_CHANGE ∨ le.getType = ASSET_POSSESSION_CHANGE) :
    needsApplying le = true := by
  rcases h with h | h <;> simp [needsApplying, h]

theorem needsApplying_of_managingPair {le : LogEvent}
    (h : le.getType = ASSET_OWNERSHIP_MANAGING_CONTRACT_CHANGE ∨
      le.getType = ASSET_POSSESSION_MANAGING_CONTRACT_CHANGE) : needsApplying le = true := by
  rcases h with h | h <;> simp [needsApplying, h]

theorem ne_custom_of_needsApplying {le : LogEvent} (h : needsApplying le = true) :
    le.getType ≠ CUSTOM_MESSAGE := by
  intro hc
  rw [needsApplying_of_custom hc] at h
  exact Bool.false_ne_true h

theorem dispatch_inside {c c' : Control} {le : LogEvent} {call : Option Call} {dd : List LogEvent}
    (hw : c.window = some dd) (h : dispatch N c le = .ok (c', call)) :
    Dispatched c le c' call := by
  unfold dispatch at h
  split at h
  · exact absurd h (by simp)
  rw [hw] at h
  dsimp only at h
  split at h
  · next htype =>
      obtain ⟨rfl, rfl⟩ := Prod.mk.inj (Except.ok.inj h)
      exact .collected hw htype
  next htype =>
  split at h
  · next hend =>
      obtain ⟨rfl, rfl⟩ := Prod.mk.inj (Except.ok.inj h)
      exact .windowEnd hw (not_not.mp htype) hend
  · exact absurd h (by simp)

theorem dispatch_outside {c c' : Control} {le : LogEvent} {call : Option Call}
    (hw : c.window = none) (h : dispatch N c le = .ok (c', call)) :
    Dispatched c le c' call := by
  unfold dispatch at h
  split at h
  · exact absurd h (by simp)
  rw [hw] at h
  dsimp only at h
  split at h
  · next ht =>
      obtain ⟨rfl, rfl⟩ := Prod.mk.inj (Except.ok.inj h)
      exact .transfer hw ht
  next h₁ =>
  split at h
  · next ht =>
      obtain ⟨rfl, rfl⟩ := Prod.mk.inj (Except.ok.inj h)
      exact .issue hw ht
  next h₂ =>
  split at h
  · next ht =>
      cases hp : c.ple with
      | none =>
          rw [hp] at h
          obtain ⟨rfl, rfl⟩ := Prod.mk.inj (Except.ok.inj h)
          have hstep := Dispatched.firstOfPair hw hp ht
          rwa [hw] at hstep
      | some ple =>
          rw [hp] at h
          obtain ⟨rfl, rfl⟩ := Prod.mk.inj (Except.ok.inj h)
          have hstep := Dispatched.pair hw hp ht
          rwa [hw] at hstep
  next h₃ =>
  split at h
  · next ht =>
      cases hp : c.ple1 with
      | none =>
          rw [hp] at h
          obtain ⟨rfl, rfl⟩ := Prod.mk.inj (Except.ok.inj h)
          have hstep := Dispatched.firstOfManagingPair hw hp ht
          rwa [hw] at hstep
      | some ple1 =>
          rw [hp] at h
          obtain ⟨rfl, rfl⟩ := Prod.mk.inj (Except.ok.inj h)
          have hstep := Dispatched.managingPair hw hp ht
          rwa [hw] at hstep
  next h₄ =>
  split at h
  · next ht =>
      obtain ⟨rfl, rfl⟩ := Prod.mk.inj (Except.ok.inj h)
      exact .burn hw ht
  next h₅ =>
  -- what is left changes nothing in the ledger
  have hnot : needsApplying le = false := by
    push Not at h₃ h₄
    simp [needsApplying, h₁, h₂, h₃.1, h₃.2, h₄.1, h₄.2, h₅]
  split at h
  · next ht =>
      split at h
      · next hstart =>
          obtain ⟨rfl, rfl⟩ := Prod.mk.inj (Except.ok.inj h)
          exact .windowStart hw ht hstart
      next hstart =>
      split at h
      · next hend =>
          obtain ⟨rfl, rfl⟩ := Prod.mk.inj (Except.ok.inj h)
          exact .endEpoch hw ht hend
      · obtain ⟨rfl, rfl⟩ := Prod.mk.inj (Except.ok.inj h)
        exact .ignored hw hnot (fun hc => hstart hc.2)
  · next ht =>
      obtain ⟨rfl, rfl⟩ := Prod.mk.inj (Except.ok.inj h)
      exact .ignored hw hnot (fun hc => ht hc.1)

theorem dispatch_dispatched {c c' : Control} {le : LogEvent} {call : Option Call}
    (h : dispatch N c le = .ok (c', call)) : Dispatched c le c' call := by
  cases hw : c.window with
  | some dd => exact dispatch_inside hw h
  | none => exact dispatch_outside hw h

/-- Dispatching an event moves it from the list to a call or into the control, and moves what was
waiting for it along. -/
theorem Dispatched.events {c c' : Control} {le : LogEvent} {call : Option Call}
    (h : Dispatched c le c' call) (e : LogEvent) :
    c.events.count e + ([le].filter needsApplying).count e
      = (call.toList.flatMap Call.events).count e + c'.events.count e := by
  cases h with
  | collected hw ht =>
      simp only [Control.events, hw, Option.getD_some, Option.toList_none, List.flatMap_nil,
        List.filter_append, List.count_append, List.count_nil]
      omega
  | windowEnd hw ht hend =>
      have hnot := needsApplying_of_custom ht
      simp [Control.events, hw, Call.events, hnot, List.count_append]
  | transfer hw ht =>
      have hyes : needsApplying le = true := by simp [needsApplying, ht]
      simp [Call.events, hyes]
      omega
  | issue hw ht =>
      have hyes : needsApplying le = true := by simp [needsApplying, ht]
      simp [Call.events, hyes]
      omega
  | firstOfPair hw hp ht =>
      have hyes := needsApplying_of_pair ht
      simp [Control.events, hw, hp, hyes, List.count_cons]
  | pair hw hp ht =>
      have hyes := needsApplying_of_pair ht
      simp [Control.events, Call.events, hw, hp, hyes, List.count_cons]
      omega
  | firstOfManagingPair hw hp ht =>
      have hyes := needsApplying_of_managingPair ht
      simp [Control.events, hw, hp, hyes, List.count_cons]
  | managingPair hw hp ht =>
      have hyes := needsApplying_of_managingPair ht
      simp [Control.events, Call.events, hw, hp, hyes, List.count_cons]
      omega
  | burn hw ht =>
      have hyes : needsApplying le = true := by simp [needsApplying, ht]
      simp [Call.events, hyes]
      omega
  | windowStart hw ht hstart => simp [Control.events, hw, needsApplying_of_custom ht]
  | endEpoch hw ht hend => simp [Call.events, needsApplying_of_custom ht]
  | ignored hw hnot hout => simp [hnot]

/-- The events of a list are, each as often as it occurs, in the calls made for it or still
waiting. -/
theorem dispatchAll_events {vle : List LogEvent} : ∀ {c c' : Control} {calls : List Call},
    dispatchAll N c vle = .ok (c', calls) → ∀ e : LogEvent,
      c.events.count e + (vle.filter needsApplying).count e
        = (calls.flatMap Call.events).count e + c'.events.count e := by
  induction vle with
  | nil =>
      intro c c' calls h e
      obtain ⟨rfl, rfl⟩ := Prod.mk.inj (Except.ok.inj h)
      simp
  | cons le vle ih =>
      intro c c' calls h e
      rw [dispatchAll, bind_eq_ok] at h
      obtain ⟨⟨c₁, call⟩, hstep, h⟩ := h
      rw [bind_eq_ok] at h
      obtain ⟨⟨c₂, calls'⟩, hrest, h⟩ := h
      obtain ⟨rfl, rfl⟩ := Prod.mk.inj (Except.ok.inj h)
      have hfirst := (dispatch_dispatched hstep).events e
      have hothers := ih hrest e
      rw [List.flatMap_append, List.count_append,
        show le :: vle = [le] ++ vle from rfl, List.filter_append, List.count_append]
      omega

end Coverage

/-! ## Dividend windows -/

/-- Every start of a dividend window is followed by its end, with no other custom message in
between; `inside` says whether a window is open at the start of the list. -/
def windowsClosed : Bool → List LogEvent → Bool
  | inside, [] => !inside
  | false, le :: vle => windowsClosed (decide (le.getType = CUSTOM_MESSAGE ∧
      le.getCustomMessage = CUSTOM_MESSAGE_OP_START_DISTRIBUTE_DIVIDENDS)) vle
  | true, le :: vle =>
      if le.getType = CUSTOM_MESSAGE then
        decide (le.getCustomMessage = CUSTOM_MESSAGE_OP_END_DISTRIBUTE_DIVIDENDS)
          && windowsClosed false vle
      else windowsClosed true vle

section Windows

variable {N : Node}

/-- The loop goes on from a self-checked event, unless it is a custom message inside a window that
does not end it. -/
theorem dispatch_returns {c : Control} {le : LogEvent}
    (hself : le.selfCheck N.K N.gCurrentProcessingEpoch = true)
    (hend : c.window.isSome = true → le.getType = CUSTOM_MESSAGE →
      le.getCustomMessage = CUSTOM_MESSAGE_OP_END_DISTRIBUTE_DIVIDENDS) :
    ∃ c' call, dispatch N c le = .ok (c', call) := by
  unfold dispatch
  rw [if_neg (by rw [hself]; simp)]
  cases hw : c.window with
  | some dd =>
      dsimp only
      split
      · exact ⟨_, _, rfl⟩
      · next ht =>
          rw [if_pos (hend (by rw [hw]; rfl) (not_not.mp ht))]
          exact ⟨_, _, rfl⟩
  | none =>
      dsimp only
      split
      · exact ⟨_, _, rfl⟩
      split
      · exact ⟨_, _, rfl⟩
      split
      · cases c.ple with
        | none => exact ⟨_, _, rfl⟩
        | some ple => exact ⟨_, _, rfl⟩
      split
      · cases c.ple1 with
        | none => exact ⟨_, _, rfl⟩
        | some ple1 => exact ⟨_, _, rfl⟩
      split
      · exact ⟨_, _, rfl⟩
      split
      · split
        · exact ⟨_, _, rfl⟩
        split
        · exact ⟨_, _, rfl⟩
        · exact ⟨_, _, rfl⟩
      · exact ⟨_, _, rfl⟩

theorem windowsClosed_outside {le : LogEvent} {vle : List LogEvent}
    (h : ¬(le.getType = CUSTOM_MESSAGE ∧
      le.getCustomMessage = CUSTOM_MESSAGE_OP_START_DISTRIBUTE_DIVIDENDS)) :
    windowsClosed false (le :: vle) = windowsClosed false vle := by
  rw [windowsClosed, decide_eq_false h]

/-- The control knows whether a window is open. -/
theorem Dispatched.windowsClosed {c c' : Control} {le : LogEvent} {call : Option Call}
    (h : Dispatched c le c' call) (vle : List LogEvent)
    (hwin : windowsClosed c.window.isSome (le :: vle) = true) :
    windowsClosed c'.window.isSome vle = true := by
  -- outside a window, an event that is no custom message leaves it so
  have hout : c.window = none → le.getType ≠ CUSTOM_MESSAGE →
      QubicBob.windowsClosed false vle = true := by
    intro hw ht
    rw [hw, Option.isSome_none, windowsClosed_outside (fun hc => ht hc.1)] at hwin
    exact hwin
  cases h with
  | collected hw ht =>
      rw [hw, Option.isSome_some, QubicBob.windowsClosed, if_neg ht] at hwin
      exact hwin
  | windowEnd hw ht hend =>
      rw [hw, Option.isSome_some, QubicBob.windowsClosed, if_pos ht, Bool.and_eq_true] at hwin
      exact hwin.2
  | transfer hw ht => rw [hw]; exact hout hw (by rw [ht]; decide)
  | issue hw ht => rw [hw]; exact hout hw (by rw [ht]; decide)
  | firstOfPair hw hp ht =>
      rw [hw]
      exact hout hw (ne_custom_of_needsApplying (needsApplying_of_pair ht))
  | pair hw hp ht =>
      rw [hw]
      exact hout hw (ne_custom_of_needsApplying (needsApplying_of_pair ht))
  | firstOfManagingPair hw hp ht =>
      rw [hw]
      exact hout hw (ne_custom_of_needsApplying (needsApplying_of_managingPair ht))
  | managingPair hw hp ht =>
      rw [hw]
      exact hout hw (ne_custom_of_needsApplying (needsApplying_of_managingPair ht))
  | burn hw ht => rw [hw]; exact hout hw (by rw [ht]; decide)
  | windowStart hw ht hstart =>
      rw [hw, Option.isSome_none, QubicBob.windowsClosed, decide_eq_true ⟨ht, hstart⟩] at hwin
      exact hwin
  | endEpoch hw ht hend =>
      have hns : le.getCustomMessage ≠ CUSTOM_MESSAGE_OP_START_DISTRIBUTE_DIVIDENDS := by
        rw [hend]; decide
      rw [hw, Option.isSome_none, windowsClosed_outside (fun hc => hns hc.2)] at hwin
      rw [hw]
      exact hwin
  | ignored hw hnot hns =>
      rw [hw, Option.isSome_none, windowsClosed_outside hns] at hwin
      rw [hw]
      exact hwin

theorem dispatch_of_windowsClosed {c : Control} {le : LogEvent} {vle : List LogEvent}
    (hself : le.selfCheck N.K N.gCurrentProcessingEpoch = true)
    (hwin : windowsClosed c.window.isSome (le :: vle) = true) :
    ∃ c₁ call, dispatch N c le = .ok (c₁, call) ∧ windowsClosed c₁.window.isSome vle = true := by
  have hend : c.window.isSome = true → le.getType = CUSTOM_MESSAGE →
      le.getCustomMessage = CUSTOM_MESSAGE_OP_END_DISTRIBUTE_DIVIDENDS := by
    intro hw ht
    rw [hw, windowsClosed, if_pos ht, Bool.and_eq_true, decide_eq_true_eq] at hwin
    exact hwin.1
  obtain ⟨c₁, call, hstep⟩ := dispatch_returns hself hend
  exact ⟨c₁, call, hstep, (dispatch_dispatched hstep).windowsClosed vle hwin⟩

/-- A list of self-checked events with closed windows is dispatched to its end. -/
theorem dispatchAll_of_windowsClosed {vle : List LogEvent} : ∀ {c : Control},
    (∀ le ∈ vle, le.selfCheck N.K N.gCurrentProcessingEpoch = true) →
      windowsClosed c.window.isSome vle = true →
      ∃ c' calls, dispatchAll N c vle = .ok (c', calls) ∧ c'.window = none := by
  induction vle with
  | nil =>
      intro c _ hwin
      refine ⟨c, [], rfl, ?_⟩
      cases hw : c.window with
      | none => rfl
      | some dd =>
          rw [hw] at hwin
          exact absurd hwin (by simp [windowsClosed])
  | cons le vle ih =>
      intro c hself hwin
      obtain ⟨c₁, call, hstep, hwin₁⟩ :=
        dispatch_of_windowsClosed (hself le List.mem_cons_self) hwin
      obtain ⟨c', calls, hrest, hnone⟩ :=
        ih (fun le' hle' => hself le' (List.mem_cons_of_mem _ hle')) hwin₁
      refine ⟨c', call.toList ++ calls, ?_, hnone⟩
      exact bind_eq_ok.mpr ⟨(c₁, call), hstep, bind_eq_ok.mpr ⟨(c', calls), hrest, rfl⟩⟩

end Windows

/-! ## The main result -/

/-- The loop stops with an error exit, or it comes to its end, every event that changes the ledger
belongs to exactly one of its calls, and every call has done what its events say. -/
def NothingSkipped (N : Node) (vle : List LogEvent) (st : Ledger) : Prop :=
  (∃ code, simulate N vle st = .error (.exit code)) ∨
  ∃ c calls st', dispatchAll N .neutral vle = .ok (c, calls) ∧
    (calls.flatMap Call.events).Perm (vle.filter needsApplying) ∧
    simulate N vle st = .ok st' ∧ AppliedRun N calls st st'

section Main

variable {N : Node}

/-- With no window open, the control is neutral when nothing waits in it. -/
theorem Control.eq_neutral_iff {c : Control} (hw : c.window = none) :
    c = .neutral ↔ c.events = [] := by
  obtain ⟨window, ple, ple1⟩ := c
  cases hw
  constructor
  · intro h
    rw [h]
    rfl
  · intro h
    simp only [Control.events, Option.getD_none, List.filter_nil, List.nil_append,
      List.append_eq_nil_iff] at h
    cases ple with
    | some a => exact absurd h.1 (by simp)
    | none =>
        cases ple1 with
        | some a => exact absurd h.2 (by simp)
        | none => rfl

/-- The calls account for every event exactly when no half of a pair is left over. -/
theorem calls_perm_iff {vle : List LogEvent} {c : Control} {calls : List Call}
    (h : dispatchAll N .neutral vle = .ok (c, calls)) (hw : c.window = none) :
    (calls.flatMap Call.events).Perm (vle.filter needsApplying) ↔ c = .neutral := by
  have hcount := dispatchAll_events h
  have hneutral : Control.neutral.events = [] := rfl
  rw [Control.eq_neutral_iff hw, List.perm_iff_count]
  constructor
  · intro hperm
    rw [List.eq_nil_iff_forall_not_mem]
    intro e he
    have hpos := List.count_pos_iff.mpr he
    have h₁ := hcount e
    have h₂ := hperm e
    rw [hneutral, List.count_nil] at h₁
    omega
  · intro hnil e
    have h₁ := hcount e
    rw [hneutral, hnil, List.count_nil] at h₁
    omega

/-- **No event is silently skipped**, exactly when some call meets its condition for stopping the
process, or no half of a pair is left over and every call is ready on the ledger it finds. -/
theorem nothingSkipped_iff (N : Node) (vle : List LogEvent)
    (hself : ∀ le ∈ vle, le.selfCheck N.K N.gCurrentProcessingEpoch = true)
    (hwin : windowsClosed false vle = true) (st : Ledger) :
    NothingSkipped N vle st ↔ ∃ c calls, dispatchAll N .neutral vle = .ok (c, calls) ∧
      (StopsRun N calls st ∨ c = .neutral ∧ ReadyRun N calls st) := by
  obtain ⟨c, calls, hdisp, hw⟩ : ∃ c calls, dispatchAll N .neutral vle = .ok (c, calls) ∧
      c.window = none := dispatchAll_of_windowsClosed hself hwin
  -- with all windows closed the loop is the run of its calls
  have hsim : simulate N vle st = execAll N calls st := by
    unfold simulate
    rw [simulateFrom_eq_execAll hdisp]
    cases execAll N calls st with
    | error e => rfl
    | ok st' =>
        simp only [bind, Except.bind, pure, Except.pure, hw]
  unfold NothingSkipped
  rw [hsim]
  constructor
  · rintro (hexit | ⟨c', calls', st', hdisp', hperm, _, happ⟩)
    · exact ⟨c, calls, hdisp, Or.inl ((execAll_exit_iff calls st).mp hexit)⟩
    · rw [hdisp] at hdisp'
      obtain ⟨rfl, rfl⟩ := Prod.mk.inj (Except.ok.inj hdisp')
      exact ⟨c, calls, hdisp, Or.inr ⟨(calls_perm_iff hdisp hw).mp hperm,
        (appliedRun_iff calls st).mp ⟨st', happ⟩⟩⟩
  · rintro ⟨c', calls', hdisp', hcond⟩
    rw [hdisp] at hdisp'
    obtain ⟨rfl, rfl⟩ := Prod.mk.inj (Except.ok.inj hdisp')
    rcases hcond with hstop | ⟨hneutral, hready⟩
    · exact Or.inl ((execAll_exit_iff calls st).mpr hstop)
    · obtain ⟨st', happ⟩ := (appliedRun_iff calls st).mpr hready
      exact Or.inr ⟨c, calls, st', hdisp, (calls_perm_iff hdisp hw).mpr hneutral, happ.execAll,
        happ⟩

/-- A ledger with one entity, of key 5, in slot 1, and no assets. -/
def oneEntityLedger (balance : BitVec 64) : Ledger :=
  ⟨Function.update (fun _ => EntityRecord.empty) 1 (EntityRecord.empty.create 5 balance 0),
    ⟨fun _ => AssetRecord.empty, fun _ => 0, fun _ => 0⟩, false, 0⟩

/-- The theorem at a window of one transfer, which its source can pay. -/
theorem nothingSkipped_iff_at_one_transfer :
    let N : Node := ⟨⟨fun _ => 7, fun _ => 0⟩, 2, 2, 1⟩
    let vle : List LogEvent :=
      [.ofCustomMessage 11 0 CUSTOM_MESSAGE_OP_START_DISTRIBUTE_DIVIDENDS,
       .ofTransfer 11 1 ⟨5, 6, 30⟩,
       .ofCustomMessage 11 2 CUSTOM_MESSAGE_OP_END_DISTRIBUTE_DIVIDENDS]
    NothingSkipped N vle (oneEntityLedger 100) := by
  intro N vle
  refine (nothingSkipped_iff N vle (by decide +kernel) (by decide +kernel) _).mpr
    ⟨.neutral, [.distributeDividends [.ofTransfer 11 1 ⟨5, 6, 30⟩]], ?_, Or.inr ⟨rfl, ?_, ?_⟩⟩
  · rfl
  · refine Or.inr ⟨_, [], 1, rfl, by unfold PaidBySource; decide +kernel, by decide +kernel,
      by decide +kernel, ?_⟩
    exact ⟨Or.inr ⟨by decide +kernel, none, by decide +kernel⟩, fun _ _ => trivial⟩
  · exact fun _ _ => trivial

/-- A contract message between the transfers of a window: the window is dropped. -/
theorem nothingSkipped_fails_on_contract_message :
    let N : Node := ⟨⟨fun _ => 7, fun _ => 0⟩, 2, 2, 1⟩
    let vle : List LogEvent :=
      [.ofCustomMessage 11 0 CUSTOM_MESSAGE_OP_START_DISTRIBUTE_DIVIDENDS,
       .ofTransfer 11 1 ⟨5, 6, 30⟩,
       .pack 1 11 CONTRACT_INFORMATION_MESSAGE 2 0 (leBytes 8 (0 : BitVec 64)),
       .ofCustomMessage 11 3 CUSTOM_MESSAGE_OP_END_DISTRIBUTE_DIVIDENDS]
    (∀ le ∈ vle, le.selfCheck N.K N.gCurrentProcessingEpoch = true) ∧
      windowsClosed false vle = true ∧ ¬ NothingSkipped N vle (oneEntityLedger 100) := by
  intro N vle
  refine ⟨by decide +kernel, by decide +kernel, ?_⟩
  rintro (⟨code, hexit⟩ | ⟨c, calls, st', hdisp, _, _, happ⟩)
  · have hok : (simulate N vle (oneEntityLedger 100)).isOk = true := by decide +kernel
    rw [hexit] at hok
    exact absurd hok Bool.false_ne_true
  · have hcalls : dispatchAll N .neutral vle = .ok (.neutral, [.distributeDividends
        [.ofTransfer 11 1 ⟨5, 6, 30⟩,
         .pack 1 11 CONTRACT_INFORMATION_MESSAGE 2 0 (leBytes 8 (0 : BitVec 64))]]) := by rfl
    rw [hcalls] at hdisp
    obtain ⟨rfl, rfl⟩ := Prod.mk.inj (Except.ok.inj hdisp)
    obtain ⟨st₁, hexec, ⟨_, _, m, hdeb, hcred⟩, _⟩ := happ
    -- the window is dropped, so the ledger is as before
    have hsame : oneEntityLedger 100 = st₁ := Except.ok.inj hexec
    rw [← hsame] at hcred
    have hnodebit := hdeb.not_sameOutgoing (List.nodup_dedup _) (by decide +kernel)
    exact hnodebit (SameOutgoing.trans_symm (fun _ => rfl) hcred.sameOutgoing)

end Main

end QubicBob
