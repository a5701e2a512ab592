import QubicBob.Ledger.Asset
import QubicBob.Storage.LogStore

set_option autoImplicit false

/-! # Replaying a batch of log events

The simulation loop of `verifyLoggingEvent`. An event is first dispatched: `dispatch` is the
`switch` of the loop and says which handler is called with which events. What it decides depends
on the events only, through three things the loop carries along: the events of an open dividend
window and the two pending halves of pair events (`ple`, `ple1`). `Call.exec` then runs the handler
on the ledger.

A tick that closes its windows and completes its pairs leaves `Control` as it found it, so a batch
may be cut at any such tick: `simulateBatch_split`.
-/

namespace QubicBob

/-- What the replay depends on besides the events: the hash, the sizes of the two tables, and the
epoch. -/
structure Node where
  K : KangarooTwelve
  spectrumDepth : Nat
  assetsDepth : Nat
  gCurrentProcessingEpoch : Nat

/-- The state the replay works on. -/
structure Ledger where
  spectrum : Spectrum
  assetUniverse : Universe
  gIsEndEpoch : Bool
  lastQuorumTick : BitVec 32

/-! ## The handlers of asset events -/

/-- `unsigned short managingContractIndex` takes the low 16 bits of the event's field. -/
def processIssueAsset (depth : Nat) (u : Universe) (le : LogEvent) :
    Except Halt (Universe × IssueResult) :=
  let ai := le.assetIssuance
  issueAsset depth u ai.issuerPublicKey ai.name ai.numberOfDecimalPlaces ai.unitOfMeasurement
    ai.numberOfShares (ai.managingContractIndex.setWidth 16)

/-- The two events are one of type `a` and one of type `b`. -/
def isPairOf (a b : Nat) (le0 le1 : LogEvent) : Bool :=
  (le0.getType == a && le1.getType == b) || (le1.getType == a && le0.getType == b)

/-- The ownership half of a pair first. -/
def orderPair (a : Nat) (le0 le1 : LogEvent) : LogEvent × LogEvent :=
  if le0.getType = a then (le0, le1) else (le1, le0)

/-- This goes with a pair of possession and ownership with equal bodies; the result of the transfer
is not looked at. -/
def processChangeOwnershipAndPossession (depth : Nat) (u : Universe) (le0 le1 : LogEvent) :
    Except Halt (Universe × KeyTransferResult) :=
  if isPairOf ASSET_OWNERSHIP_CHANGE ASSET_POSSESSION_CHANGE le0 le1 = false then
    .error (.exit 1)
  else
    let pair := orderPair ASSET_OWNERSHIP_CHANGE le0 le1
    let aoc := pair.1.assetOwnershipChange
    let apc := pair.2.assetOwnershipChange
    if aoc ≠ apc then .error (.exit 1)
    else
      -- the source is both owner and possessor
      transferShareOwnershipAndPossessionByKey depth u (aoc.name.zeroExtend 64) aoc.issuerPublicKey
        aoc.sourcePublicKey aoc.sourcePublicKey aoc.numberOfShares aoc.managingContractIndex
        aoc.destinationPublicKey

/-- The halves of a change of managing contracts agree; the issuers are not compared. -/
def managingPairAgrees (omcc : AssetOwnershipManagingContractChange)
    (pmcc : AssetPossessionManagingContractChange) : Bool :=
  omcc.ownershipPublicKey == pmcc.ownershipPublicKey && omcc.assetName == pmcc.assetName
    && omcc.numberOfShares == pmcc.numberOfShares
    && omcc.sourceContractIndex == pmcc.sourceContractIndex
    && omcc.destinationContractIndex == pmcc.destinationContractIndex

/-- The indices of a key that is not found are passed on as `-1`. -/
def processChangeManagingContract (depth : Nat) (u : Universe) (le0 le1 : LogEvent) :
    Except Halt (Universe × TransferResult) :=
  if isPairOf ASSET_OWNERSHIP_MANAGING_CONTRACT_CHANGE ASSET_POSSESSION_MANAGING_CONTRACT_CHANGE
      le0 le1 = false then
    .error (.exit 1)
  else
    let pair := orderPair ASSET_OWNERSHIP_MANAGING_CONTRACT_CHANGE le0 le1
    let omcc := pair.1.assetOwnershipManagingContractChange
    let pmcc := pair.2.assetPossessionManagingContractChange
    if managingPairAgrees omcc pmcc = false then .error (.exit 1)
    else do
      let issuanceIndex ←
        findIssuerIndex depth u.assets omcc.issuerPublicKey (omcc.assetName.zeroExtend 64)
      let ownershipIndex ← findOwnershipIndex depth u.assets issuanceIndex omcc.ownershipPublicKey
        omcc.sourceContractIndex.toInt
      let possessionIndex ← findPossessionIndex depth u.assets ownershipIndex
        pmcc.possessionPublicKey omcc.sourceContractIndex.toInt
      -- both rights go to the same contract
      let (u', r) ← transferShareManagementRights depth u ownershipIndex possessionIndex
        (omcc.destinationContractIndex.setWidth 16) (omcc.destinationContractIndex.setWidth 16)
        omcc.numberOfShares
      if r.returnValue then pure (u', r) else .error (.exit 1)

/-! ## Dispatch -/

/-- A handler with the events it is called with. -/
inductive Call where
  | quTransfer (le : LogEvent)
  | issueAsset (le : LogEvent)
  | changeOwnershipAndPossession (le0 le1 : LogEvent)
  | changeManagingContract (le0 le1 : LogEvent)
  | quBurn (le : LogEvent)
  | distributeDividends (dd : List LogEvent)
  | endEpoch (tick : BitVec 32)
  deriving DecidableEq

/-- What the loop carries from one event to the next: the events of the dividend window it is in,
and the two pending events. -/
structure Control where
  window : Option (List LogEvent)
  ple : Option LogEvent
  ple1 : Option LogEvent
  deriving DecidableEq

/-- Outside any window, with nothing pending. -/
def Control.neutral : Control := ⟨none, none, none⟩

/-- The body of the loop for one event: the next control and the handler to call. Inside a window
any custom message other than the end of the window is looked at for ever. -/
def dispatch (N : Node) (c : Control) (le : LogEvent) : Except Halt (Control × Option Call) :=
  if le.selfCheck N.K N.gCurrentProcessingEpoch = false then .error (.exit 2)
  else match c.window with
  | some dd =>
      if le.getType ≠ 255 then .ok ({ c with window := some (dd ++ [le]) }, none)
      else if le.getCustomMessage = CUSTOM_MESSAGE_OP_END_DISTRIBUTE_DIVIDENDS then
        .ok ({ c with window := none }, some (.distributeDividends dd))
      else .error .diverge
  | none =>
      if le.getType = QU_TRANSFER then .ok (c, some (.quTransfer le))
      else if le.getType = ASSET_ISSUANCE then .ok (c, some (.issueAsset le))
      else if le.getType = ASSET_OWNERSHIP_CHANGE ∨ le.getType = ASSET_POSSESSION_CHANGE then
        match c.ple with
        | some ple => .ok ({ c with ple := none }, some (.changeOwnershipAndPossession ple le))
        | none => .ok ({ c with ple := some le }, none)
      else if le.getType = ASSET_OWNERSHIP_MANAGING_CONTRACT_CHANGE ∨
          le.getType = ASSET_POSSESSION_MANAGING_CONTRACT_CHANGE then
        match c.ple1 with
        | some ple1 => .ok ({ c with ple1 := none }, some (.changeManagingContract ple1 le))
        | none => .ok ({ c with ple1 := some le }, none)
      else if le.getType = BURNING then .ok (c, some (.quBurn le))
      else if le.getType = CUSTOM_MESSAGE then
        if le.getCustomMessage = CUSTOM_MESSAGE_OP_START_DISTRIBUTE_DIVIDENDS then
          .ok ({ c with window := some [] }, none)
        else if le.getCustomMessage = CUSTOM_MESSAGE_OP_END_EPOCH then
          .ok (c, some (.endEpoch le.getTick))
        else .ok (c, none)
      else .ok (c, none) -- messages, statistics, dust burning and unknown types

/-- Run a handler. What `processDistributeDividends` returns is not looked at. -/
def Call.exec (N : Node) (st : Ledger) : Call → Except Halt Ledger
  | .quTransfer le => do
      let spectrum ← processQuTransfer N.spectrumDepth st.spectrum le
      pure { st with spectrum := spectrum }
  | .issueAsset le => do
      let (u, _) ← processIssueAsset N.assetsDepth st.assetUniverse le
      pure { st with assetUniverse := u }
  | .changeOwnershipAndPossession le0 le1 => do
      let (u, _) ← processChangeOwnershipAndPossession N.assetsDepth st.assetUniverse le0 le1
      pure { st with assetUniverse := u }
  | .changeManagingContract le0 le1 => do
      let (u, _) ← processChangeManagingContract N.assetsDepth st.assetUniverse le0 le1
      pure { st with assetUniverse := u }
  | .quBurn le => do
      let spectrum ← processQuBurn N.spectrumDepth st.spectrum le
      pure { st with spectrum := spectrum }
  | .distributeDividends dd => do
      let (spectrum, _) ← processDistributeDividends N.spectrumDepth st.spectrum dd
      pure { st with spectrum := spectrum }
  | .endEpoch tick => pure { st with gIsEndEpoch := true, lastQuorumTick := tick - 1 }

/-! ## The loop -/

def simulateFrom (N : Node) : Control → List LogEvent → Ledger → Except Halt (Control × Ledger)
  | c, [], st => pure (c, st)
  | c, le :: vle, st => do
      let (c', call) ← dispatch N c le
      match call with
      | none => simulateFrom N c' vle st
      | some call => do
          let st' ← call.exec N st
          simulateFrom N c' vle st'

/-- The whole loop: it starts with nothing pending, and a window that is still open at the end of
the list stops the process. A pending half of a pair is dropped. -/
def simulate (N : Node) (vle : List LogEvent) (st : Ledger) : Except Halt Ledger := do
  let (c, st') ← simulateFrom N .neutral vle st
  match c.window with
  | some _ => .error (.exit (-1))
  | none => pure st'

/-- The batch `[processFromTick, processToTick]` as it is read from the database and replayed. -/
def simulateBatch (N : Node) (db : LogDB) (processFromTick processToTick : Nat) (st : Ledger) :
    Except Halt Ledger :=
  simulate N (dbGetLogsByTickRange N.K db N.gCurrentProcessingEpoch processFromTick
    processToTick).1 st

/-! ## Dispatching a whole list

The control and the calls do not depend on the ledger. -/

/-- The control after a list of events and the handlers called for it, in order. -/
def dispatchAll (N : Node) : Control → List LogEvent → Except Halt (Control × List Call)
  | c, [] => pure (c, [])
  | c, le :: vle => do
      let (c', call) ← dispatch N c le
      let (c'', calls) ← dispatchAll N c' vle
      pure (c'', call.toList ++ calls)

def execAll (N : Node) : List Call → Ledger → Except Halt Ledger
  | [], st => pure st
  | call :: calls, st => do
      let st' ← call.exec N st
      execAll N calls st'

section Loop

variable {N : Node}

theorem dispatchAll_append (l₁ l₂ : List LogEvent) : ∀ c : Control,
    dispatchAll N c (l₁ ++ l₂) = (do
      let (c', calls) ← dispatchAll N c l₁
      let (c'', calls') ← dispatchAll N c' l₂
      pure (c'', calls ++ calls')) := by
  induction l₁ with
  | nil =>
      intro c
      simp only [List.nil_append, dispatchAll, pure_bind]
      cases dispatchAll N c l₂ <;> rfl
  | cons le l₁ ih =>
      intro c
      rw [List.cons_append, dispatchAll, dispatchAll]
      cases dispatch N c le with
      | error e => rfl
      | ok p =>
          simp only [bind, Except.bind, ih]
          cases dispatchAll N p.1 l₁ with
          | error e => rfl
          | ok q =>
              simp only [pure, Except.pure]
              cases dispatchAll N q.1 l₂ with
              | error e => rfl
              | ok r => simp [List.append_assoc]

theorem simulateFrom_append (l₁ l₂ : List LogEvent) : ∀ (c : Control) (st : Ledger),
    simulateFrom N c (l₁ ++ l₂) st
      = (simulateFrom N c l₁ st >>= fun p => simulateFrom N p.1 l₂ p.2) := by
  induction l₁ with
  | nil =>
      intro c st
      rfl
  | cons le l₁ ih =>
      intro c st
      rw [List.cons_append, simulateFrom, simulateFrom]
      cases dispatch N c le with
      | error e => rfl
      | ok p =>
          simp only [bind, Except.bind]
          cases p.2 with
          | none => exact ih p.1 st
          | some call =>
              dsimp only
              cases call.exec N st with
              | error e => rfl
              | ok st' => exact ih p.1 st'

/-- When the whole list can be dispatched, the loop is the handlers run one after the other. -/
theorem simulateFrom_eq_execAll {vle : List LogEvent} : ∀ {c c' : Control} {calls : List Call},
    dispatchAll N c vle = .ok (c', calls) → ∀ st,
      simulateFrom N c vle st = (execAll N calls st >>= fun st' => pure (c', st')) := by
  induction vle with
  | nil =>
      intro c c' calls h st
      have heq := Prod.mk.inj (Except.ok.inj h)
      rw [← heq.1, ← heq.2]
      rfl
  | cons le vle ih =>
      intro c c' calls h st
      rw [dispatchAll, bind_eq_ok] at h
      obtain ⟨p, hp, h⟩ := h
      rw [bind_eq_ok] at h
      obtain ⟨q, hq, h⟩ := h
      have heq := Prod.mk.inj (Except.ok.inj h)
      rw [simulateFrom, hp, ← heq.1, ← heq.2]
      simp only [bind, Except.bind]
      cases hcall : p.2 with
      | none => exact ih hq st
      | some call =>
          simp only [Option.toList_some, List.singleton_append, execAll, bind, Except.bind]
          cases call.exec N st with
          | error e => rfl
          | ok st' => exact ih hq st'

/-- A loop that comes to the end of the list has dispatched every event. -/
theorem dispatchAll_of_simulateFrom {vle : List LogEvent} : ∀ {c c' : Control} {st st' : Ledger},
    simulateFrom N c vle st = .ok (c', st') → ∃ calls, dispatchAll N c vle = .ok (c', calls) := by
  induction vle with
  | nil =>
      intro c c' st st' h
      have heq := Prod.mk.inj (Except.ok.inj h)
      exact ⟨[], by rw [← heq.1]; rfl⟩
  | cons le vle ih =>
      intro c c' st st' h
      rw [simulateFrom, bind_eq_ok] at h
      obtain ⟨⟨c₁, call⟩, hp, h⟩ := h
      have hrest : ∃ calls, dispatchAll N c₁ vle = .ok (c', calls) := by
        cases call with
        | none => exact ih h
        | some call =>
            dsimp only at h
            rw [bind_eq_ok] at h
            obtain ⟨st₁, _, h⟩ := h
            exact ih h
      obtain ⟨calls, hcalls⟩ := hrest
      refine ⟨call.toList ++ calls, ?_⟩
      rw [dispatchAll, hp]
      simp only [bind, Except.bind, hcalls]
      rfl

end Loop

/-! ## Cutting a batch -/

/-- The events close their own dividend windows and complete their own pairs: if they can be
dispatched at all, nothing is left open or pending behind them. -/
def closesOwn (N : Node) (vle : List LogEvent) : Bool :=
  match dispatchAll N .neutral vle with
  | .ok (c, _) => decide (c = .neutral)
  | .error _ => true

section Split

variable {N : Node}

theorem closesOwn_iff {vle : List LogEvent} : closesOwn N vle = true ↔
    ∀ c calls, dispatchAll N .neutral vle = .ok (c, calls) → c = .neutral := by
  unfold closesOwn
  cases dispatchAll N .neutral vle with
  | error e => simp
  | ok p =>
      simp only [decide_eq_true_eq]
      constructor
      · intro h c calls hc
        rw [← h, Except.ok.inj hc]
      · intro h
        exact h p.1 p.2 rfl

theorem closesOwn_append {l₁ l₂ : List LogEvent} (h₁ : closesOwn N l₁ = true)
    (h₂ : closesOwn N l₂ = true) : closesOwn N (l₁ ++ l₂) = true := by
  rw [closesOwn_iff] at h₁ h₂ ⊢
  intro c calls h
  rw [dispatchAll_append, bind_eq_ok] at h
  obtain ⟨⟨c₁, calls₁⟩, hc₁, h⟩ := h
  rw [h₁ c₁ calls₁ hc₁, bind_eq_ok] at h
  obtain ⟨⟨c₂, calls₂⟩, hc₂, h⟩ := h
  rw [← (Prod.mk.inj (Except.ok.inj h)).1]
  exact h₂ c₂ calls₂ hc₂

theorem closesOwn_flatMap {f : Nat → List LogEvent} {ticks : List Nat}
    (h : ∀ t ∈ ticks, closesOwn N (f t) = true) : closesOwn N (ticks.flatMap f) = true := by
  induction ticks with
  | nil => rfl
  | cons t ticks ih =>
      rw [List.flatMap_cons]
      exact closesOwn_append (h t List.mem_cons_self)
        (ih (fun t' ht' => h t' (List.mem_cons_of_mem _ ht')))

/-- Events that close their own windows and pairs may be replayed on their own. -/
theorem simulate_append {l₁ l₂ : List LogEvent} (h : closesOwn N l₁ = true) (st : Ledger) :
    simulate N (l₁ ++ l₂) st = (simulate N l₁ st >>= simulate N l₂) := by
  unfold simulate
  rw [simulateFrom_append]
  cases hrun : simulateFrom N .neutral l₁ st with
  | error e => rfl
  | ok p =>
      obtain ⟨calls, hcalls⟩ := dispatchAll_of_simulateFrom hrun
      have hneutral : p.1 = .neutral := closesOwn_iff.mp h p.1 calls hcalls
      simp only [bind, Except.bind, hneutral, Control.neutral]
      rfl

/-- The events of one tick. -/
def tickEvents (N : Node) (db : LogDB) (tick : Nat) : List LogEvent :=
  (dbGetLogsByTickRange N.K db N.gCurrentProcessingEpoch tick tick).1

/-- The tick's log range is known and all its logs that are stored are accepted. -/
def tickReadable (N : Node) (db : LogDB) (tick : Nat) : Bool :=
  (dbGetLogsByTickRange N.K db N.gCurrentProcessingEpoch tick tick).2

theorem tickReadable_spec {db : LogDB} {tick : Nat} (h : tickReadable N db tick = true) :
    rangeKnown db tick = true ∧
      tickEvents N db tick = tickLogs db N.gCurrentProcessingEpoch tick ∧
      ∀ le ∈ tickLogs db N.gCurrentProcessingEpoch tick,
        acceptsLog N.K N.gCurrentProcessingEpoch tick tick le = true := by
  have hticks : ticksFromTo tick tick = [tick] := by simp [ticksFromTo]
  unfold tickReadable dbGetLogsByTickRange at h
  unfold tickEvents dbGetLogsByTickRange
  rw [gatherLogs_eq, hticks] at h ⊢
  cases hk : rangeKnown db tick with
  | false => simp [hk] at h
  | true =>
      simp only [List.takeWhile_cons, hk, if_true, List.takeWhile_nil, List.all_cons, List.all_nil,
        Bool.and_true, List.flatMap_cons, List.flatMap_nil, List.append_nil, List.nil_append] at h ⊢
      split at h
      · next hall =>
          rw [if_pos hall]
          exact ⟨trivial, rfl, List.all_eq_true.mp hall⟩
      · exact absurd h (by simp)

/-- The logs of a batch of readable ticks are the logs of its ticks, one after the other. -/
theorem dbGetLogsByTickRange_eq_flatMap {db : LogDB} {a c : Nat}
    (h : ∀ t, a ≤ t → t ≤ c → tickReadable N db t = true) :
    (dbGetLogsByTickRange N.K db N.gCurrentProcessingEpoch a c).1
      = (ticksFromTo a c).flatMap (tickEvents N db) := by
  have hspec : ∀ t ∈ ticksFromTo a c, tickReadable N db t = true := by
    intro t ht
    obtain ⟨h₁, h₂⟩ := mem_ticksFromTo.mp ht
    exact h t h₁ h₂
  rw [dbGetLogsByTickRange_of_accepted (fun t ht => (tickReadable_spec (hspec t ht)).1)
    (fun t ht => (tickReadable_spec (hspec t ht)).2.2)]
  refine List.flatMap_congr ?_
  intro t ht
  exact (tickReadable_spec (hspec t ht)).2.1.symm

theorem ticksFromTo_split {a b c : Nat} (hab : a ≤ b) (hbc : b < c) :
    ticksFromTo a c = ticksFromTo a b ++ ticksFromTo (b + 1) c := by
  unfold ticksFromTo
  have h := @List.range'_append a (b + 1 - a) (c + 1 - (b + 1)) 1
  rw [show a + 1 * (b + 1 - a) = b + 1 by omega,
    show (b + 1 - a) + (c + 1 - (b + 1)) = c + 1 - a by omega] at h
  exact h.symm

/-- At any tick the logs of a batch fall into two parts, and nothing is left open behind the
first. -/
theorem batchLogs_split {db : LogDB} {a b c : Nat} (hab : a ≤ b) (hbc : b < c)
    (hticks : ∀ t, a ≤ t → t ≤ c →
      tickReadable N db t = true ∧ closesOwn N (tickEvents N db t) = true) :
    (dbGetLogsByTickRange N.K db N.gCurrentProcessingEpoch a c).1
        = (dbGetLogsByTickRange N.K db N.gCurrentProcessingEpoch a b).1
          ++ (dbGetLogsByTickRange N.K db N.gCurrentProcessingEpoch (b + 1) c).1 ∧
      closesOwn N (dbGetLogsByTickRange N.K db N.gCurrentProcessingEpoch a b).1 = true := by
  have hac := dbGetLogsByTickRange_eq_flatMap (fun t h₁ h₂ => (hticks t h₁ h₂).1)
  have hleft := @dbGetLogsByTickRange_eq_flatMap N db a b
    (fun t h₁ h₂ => (hticks t h₁ (by omega)).1)
  have hright := @dbGetLogsByTickRange_eq_flatMap N db (b + 1) c
    (fun t h₁ h₂ => (hticks t (by omega) h₂).1)
  rw [hac, hleft, hright, ticksFromTo_split hab hbc, List.flatMap_append]
  refine ⟨rfl, closesOwn_flatMap ?_⟩
  intro t ht
  obtain ⟨h₁, h₂⟩ := mem_ticksFromTo.mp ht
  exact (hticks t h₁ (by omega)).2

/-- **Batch splitting does not matter.** When every tick of the batch closes its own dividend
windows and completes its own pairs, replaying `[a, c]` is replaying `[a, b]` and then
`[b + 1, c]`. -/
theorem simulateBatch_split (N : Node) (db : LogDB) {a b c : Nat} (hab : a ≤ b) (hbc : b < c)
    (hticks : ∀ t, a ≤ t → t ≤ c →
      tickReadable N db t = true ∧ closesOwn N (tickEvents N db t) = true) (st : Ledger) :
    simulateBatch N db a c st
      = (simulateBatch N db a b st >>= simulateBatch N db (b + 1) c) := by
  obtain ⟨hlogs, hcut⟩ := batchLogs_split hab hbc hticks
  calc simulateBatch N db a c st
      = simulate N ((dbGetLogsByTickRange N.K db N.gCurrentProcessingEpoch a b).1
          ++ (dbGetLogsByTickRange N.K db N.gCurrentProcessingEpoch (b + 1) c).1) st := by
        rw [simulateBatch, hlogs]
    _ = (simulateBatch N db a b st >>= simulateBatch N db (b + 1) c) := simulate_append hcut st

/-- The event of a transfer, and a custom message, for a hash that is constantly zero. -/
def LogEvent.ofTransfer (tick : BitVec 32) (logId : BitVec 64) (qt : QuTransfer) : LogEvent :=
  .pack 1 tick QU_TRANSFER logId 0 qt.bytes

def LogEvent.ofCustomMessage (tick : BitVec 32) (logId : BitVec 64) (message : Nat) : LogEvent :=
  .pack 1 tick CUSTOM_MESSAGE logId 0 (leBytes 8 (BitVec.ofNat 64 message))

/-- The theorem at three ticks: a transfer, a dividend window, and a tick without logs. -/
theorem simulateBatch_split_at_three_ticks :
    let N : Node := ⟨⟨fun _ => 7, fun _ => 0⟩, 2, 2, 1⟩
    let log : Nat → Option LogEvent := fun id =>
      if id = 0 then some (.ofTransfer 10 0 ⟨0, 5, 100⟩)
      else if id = 1 then
        some (.ofCustomMessage 11 1 CUSTOM_MESSAGE_OP_START_DISTRIBUTE_DIVIDENDS)
      else if id = 2 then some (.ofTransfer 11 2 ⟨5, 6, 30⟩)
      else if id = 3 then
        some (.ofCustomMessage 11 3 CUSTOM_MESSAGE_OP_END_DISTRIBUTE_DIVIDENDS)
      else none
    let range : Nat → Option TickLogRange := fun t =>
      if t = 10 then some ⟨0, 1, by decide⟩
      else if t = 11 then some ⟨1, 3, by decide⟩ else some .noLogs
    let db : LogDB := ⟨⟨range, fun _ id => (log id).map LogEvent.content⟩,
      ⟨fun _ => none, fun _ _ => none⟩⟩
    ∀ st, simulateBatch N db 10 12 st
      = (simulateBatch N db 10 11 st >>= simulateBatch N db 12 12) := by
  intro N log range db st
  refine simulateBatch_split N db (by decide) (by decide) ?_ st
  intro t h₁ h₂
  have ht : t = 10 ∨ t = 11 ∨ t = 12 := by omega
  rcases ht with rfl | rfl | rfl
  · exact ⟨by decide +kernel, by decide +kernel⟩
  · exact ⟨by decide +kernel, by decide +kernel⟩
  · exact ⟨by decide +kernel, by decide +kernel⟩

end Split

end QubicBob
