import QubicBob.Verifier.Movements
import QubicBob.Verifier.Skips
import QubicBob.Verifier.Snapshot
import QubicBob.Ledger.Reorganize

set_option autoImplicit false

/-! # Balances read while events are applied

`bobGetBalance` reads a record of the spectrum at any moment of `verifyLoggingEvent`, which applies
the events of a batch before the batch is verified. `Verification` is the verifier thread with one
write to the spectrum as a step. Beside the state it keeps the movements made so far with their
events, so that the state after the events of the ticks up to `currentBobTick` is the one before the
first movement of a later tick (`Verification.reference`).

An answer without an error is wrong only by movements of later ticks. Between two batches there are
none, as `currentBobTick` is then the last tick whose events were applied. Within a batch the record
of a key is off by the movements of that key made so far, those of others being in other slots; so
the amounts are right where these come to zero. The test that should refuse such an answer does not
help: it compares the numbers of transfers of the record with the tick, where the ticks of the
latest transfers should be.
-/

namespace QubicBob

open Probe

/-! ## The call -/

/-- Fourteen letters of an identity, the last one first. -/
def identityWord (letters : List Byte) : Option (BitVec 64) :=
  letters.foldr (fun c acc => acc.bind fun w =>
    if c < 65 ∨ 90 < c then none else some (w * 26 + (c - 65).zeroExtend 64)) (some 0)

/-- A key that is not fully read is left zero. -/
def getPublicKeyFromIdentity (identity : List Byte) : m256i :=
  match identityWord (identity.take 14), identityWord ((identity.drop 14).take 14),
      identityWord ((identity.drop 28).take 14), identityWord ((identity.drop 42).take 14) with
  | some w0, some w1, some w2, some w3 => ((w3 ++ w2) ++ (w1 ++ w0) : BitVec 256)
  | _, _, _, _ => 0

/-- The fields of an answer. -/
structure BalanceFields where
  incomingAmount : BitVec 64
  outgoingAmount : BitVec 64
  balance : BitVec 64
  numberOfIncomingTransfers : BitVec 32
  numberOfOutgoingTransfers : BitVec 32
  latestIncomingTransferTick : BitVec 32
  latestOutgoingTransferTick : BitVec 32
  currentBobTick : BitVec 32
  error : String
  deriving DecidableEq

inductive BalanceAnswer where
  | wrongIdentity
  | entity (fields : BalanceFields)
  deriving DecidableEq

/-- The text of an answer. -/
def BalanceAnswer.text : BalanceAnswer → String
  | .wrongIdentity => "\x7b\"error\": \"Wrong identity format\"\x7d"
  | .entity r =>
      "\x7b\"incomingAmount\":" ++ toString r.incomingAmount.toInt
        ++ ",\"outgoingAmount\":" ++ toString r.outgoingAmount.toInt
        ++ ",\"balance\":" ++ toString r.balance.toInt
        ++ ",\"numberOfIncomingTransfers\":" ++ toString r.numberOfIncomingTransfers.toNat
        ++ ",\"numberOfOutgoingTransfers\":" ++ toString r.numberOfOutgoingTransfers.toNat
        ++ ",\"latestIncomingTransferTick\":" ++ toString r.latestIncomingTransferTick.toNat
        ++ ",\"latestOutgoingTransferTick\":" ++ toString r.latestOutgoingTransferTick.toNat
        ++ ",\"currentBobTick:\":" ++ toString r.currentBobTick.toNat
        ++ ",\"error:\":\"" ++ r.error ++ "\"\x7d"

def entityBeingProcessed : String :=
  "This entity is being processed. currentBobTick is smaller than latestIncomingTransferTick/latestOutgoingTransferTick"

/-- The test of `bobGetBalance` for a record that unverified events have changed. -/
def beingProcessed (e : EntityRecord) (currentBobTick : BitVec 32) : Bool :=
  -- the numbers of transfers, not the ticks of the latest ones
  decide (currentBobTick < e.numberOfIncomingTransfers)
    || decide (currentBobTick < e.numberOfOutgoingTransfers)

def balanceFields (e : EntityRecord) (currentBobTick : BitVec 32) : BalanceFields where
  incomingAmount := e.incomingAmount
  outgoingAmount := e.outgoingAmount
  balance := e.incomingAmount - e.outgoingAmount
  numberOfIncomingTransfers := e.numberOfIncomingTransfers
  numberOfOutgoingTransfers := e.numberOfOutgoingTransfers
  latestIncomingTransferTick := e.latestIncomingTransferTick
  latestOutgoingTransferTick := e.latestOutgoingTransferTick
  currentBobTick := currentBobTick
  error := if beingProcessed e currentBobTick then entityBeingProcessed else "null"

def bobGetBalance (depth : Nat) (spectrum : Spectrum) (gCurrentVerifyLoggingTick : BitVec 32)
    (identity : Option (List Byte)) : Except Halt BalanceAnswer :=
  match identity with
  | none => pure .wrongIdentity
  | some str =>
      if str.length < 60 then pure .wrongIdentity
      else do
        match ← spectrumIndex depth spectrum (getPublicKeyFromIdentity str) with
        | none => pure .wrongIdentity
        | some index =>
            pure (.entity (balanceFields (spectrum index) (gCurrentVerifyLoggingTick - 1)))

/-! ## The verifier thread -/

/-- Where `verifyLoggingEvent` is. -/
inductive VerifyStage where
  | top
  /-- in the loop over the events of a batch, at the first of `vle` -/
  | simulate (processToTick : Nat) (control : Control) (vle : List LogEvent)
  /-- in the handler called for `le`, with some of its writes to come -/
  | handler (processToTick : Nat) (control : Control) (vle : List LogEvent) (le : LogEvent)
      (ms : List Movement)
  /-- the batch is applied -/
  | verifyNodeStateDigest (processToTick : Nat)
  /-- `gIsEndEpoch` has left the loop -/
  | endEpoch
  | assetsEndEpoch
  /-- the thread is over -/
  | ended
  | stopped

structure Verification where
  gCurrentVerifyLoggingTick : Nat
  ledger : Ledger
  stage : VerifyStage
  /-- the writes to the spectrum made so far, and the events they belong to -/
  made : List (LogEvent × Movement)

namespace Verification

/-- The thread at its loop, with the state after the last verified tick in memory. -/
def start (lastVerifiedTick : Nat) (ledger : Ledger) : Verification :=
  ⟨lastVerifiedTick + 1, ledger, .top, []⟩

/-- The last tick of the batch: where the epoch ends inside of it, the tick before. -/
def batchEnd (hasEndEpochLogs : Nat → Bool) (processFromTick processToTick : Nat) : Nat :=
  match (ticksFromTo (processFromTick + 1) processToTick).find? hasEndEpochLogs with
  | some tick => tick - 1
  | none => processToTick

/-- What happens next: the events of a batch are read from the database as it is then, the thread
goes on, or the votes of the batch are counted. -/
inductive Action where
  | gather (db : LogDB) (hasEndEpochLogs : Nat → Bool) (gCurrentFetchingLogTick : BitVec 32)
  | proceed
  | votes (check : VoteCheck)

/-- A probe that goes round for ever keeps the thread where it is. -/
def orStay (v : Verification) : Except Halt Verification → Except Halt Verification
  | .error .diverge => .ok v
  | x => x

/-- The next event of the batch. -/
def nextEvent (N : Node) (v : Verification) (processToTick : Nat) (c : Control) (le : LogEvent)
    (vle : List LogEvent) : Except Halt Verification := do
  let (c', call) ← dispatch N c le
  match call with
  | none => pure { v with stage := .simulate processToTick c' vle }
  | some call => do
      let (st, ms) ← call.begin N v.ledger
      pure { v with ledger := st, stage := .handler processToTick c' vle le ms }

/-- The next write of a handler. -/
def nextWrite (N : Node) (v : Verification) (processToTick : Nat) (c : Control)
    (vle : List LogEvent) (le : LogEvent) (m : Movement) (ms : List Movement) :
    Except Halt Verification := do
  let spectrum ← m.exec N.spectrumDepth v.ledger.spectrum
  pure { v with
    ledger := { v.ledger with spectrum := spectrum }
    stage := .handler processToTick c vle le ms
    made := v.made ++ [(le, m)] }

/-- One step of the thread. An error is the end of the process. -/
def step (N : Node) (v : Verification) : Action → Except Halt Verification
  | .gather db hasEndEpochLogs gCurrentFetchingLogTick =>
      let cur := v.gCurrentVerifyLoggingTick
      let fetched := (gCurrentFetchingLogTick - 1).toNat
      match v.stage with
      | .top =>
          if fetched < cur then pure v
          else
            let processToTick :=
              batchEnd hasEndEpochLogs cur (min (cur + BATCH_VERIFICATION) fetched)
            let vle := (dbGetLogsByTickRange N.K db N.gCurrentProcessingEpoch cur processToTick).1
            pure { v with stage := .simulate processToTick .neutral vle }
      | _ => pure v
  | .proceed =>
      match v.stage with
      | .simulate processToTick c [] =>
          if c.window.isSome then .error (.exit (-1))
          else pure { v with stage := .verifyNodeStateDigest processToTick }
      | .simulate processToTick c (le :: vle) => v.orStay (v.nextEvent N processToTick c le vle)
      | .handler processToTick c vle _ [] => pure { v with stage := .simulate processToTick c vle }
      | .handler processToTick c vle le (m :: ms) =>
          v.orStay (v.nextWrite N processToTick c vle le m ms)
      | .verifyNodeStateDigest _ =>
          if v.ledger.gIsEndEpoch then pure { v with stage := .endEpoch } else pure v
      | .endEpoch => v.orStay do
          let spectrum ← reorganizeSpectrum N.spectrumDepth v.ledger.spectrum
          pure { v with
            ledger := { v.ledger with spectrum := spectrum }, stage := .assetsEndEpoch }
      | .assetsEndEpoch => v.orStay do
          let u ← QubicBob.assetsEndEpoch N.assetsDepth v.ledger.assetUniverse
          pure { v with
            ledger := { v.ledger with assetUniverse := u }
            gCurrentVerifyLoggingTick := (v.ledger.lastQuorumTick + 1).toNat
            stage := .ended }
      | _ => pure v
  | .votes check =>
      match v.stage with
      | .verifyNodeStateDigest processToTick =>
          if v.ledger.gIsEndEpoch then pure v
          else
            let u := (getUniverseDigest N.K N.assetsDepth
              (BitVec.ofNat 32 v.gCurrentVerifyLoggingTick) (BitVec.ofNat 32 processToTick)
              v.ledger.assetUniverse).1
            let v := { v with ledger := { v.ledger with assetUniverse := u } }
            match check with
            | .refetch => pure v
            | .misaligned => pure { v with stage := .stopped }
            | .matchedQuorum =>
                pure { v with gCurrentVerifyLoggingTick := processToTick + 1, stage := .top }
      | _ => pure v

/-! ## What a read should report -/

/-- The global as the reader sees it. -/
def tick32 (v : Verification) : BitVec 32 := BitVec.ofNat 32 v.gCurrentVerifyLoggingTick

def currentBobTick (v : Verification) : BitVec 32 := v.tick32 - 1

/-- The movements before the first one of a tick later than `currentBobTick`. -/
def verified (v : Verification) : List Movement :=
  (v.made.takeWhile fun e => decide (e.1.getTick ≤ v.currentBobTick)).map Prod.snd

/-- The movements from there on. -/
def pending (v : Verification) : List Movement :=
  (v.made.dropWhile fun e => decide (e.1.getTick ≤ v.currentBobTick)).map Prod.snd

/-- The spectrum after the events of the ticks up to `currentBobTick`, from the one at the start. -/
def reference (N : Node) (bootstrap : Spectrum) (v : Verification) : Except Halt Spectrum :=
  runMovements N.spectrumDepth bootstrap v.verified

/-- The answer, if it has no error, reports the amounts and the balance in the given table. -/
def Clean (depth : Nat) (ref : Spectrum) (identity : Option (List Byte))
    (answer : Except Halt BalanceAnswer) : Prop :=
  ∀ str r, identity = some str → answer = .ok (.entity r) → r.error = "null" →
    let e := recordOf depth ref (getPublicKeyFromIdentity str)
    r.incomingAmount = e.incomingAmount ∧ r.outgoingAmount = e.outgoingAmount ∧
      r.balance = e.incomingAmount - e.outgoingAmount

/-- The entity has a record, and the test of its numbers of transfers lets it pass. -/
def Answered (depth : Nat) (spectrum : Spectrum) (currentBobTick : BitVec 32) (str : List Byte) :
    Prop :=
  60 ≤ str.length ∧ ∃ i, spectrumIndex depth spectrum (getPublicKeyFromIdentity str) = .ok (some i) ∧
    beingProcessed (spectrum i) currentBobTick = false

/-! ## What a step does -/

/-- The steps of the thread that change something. -/
inductive Steps (N : Node) (v : Verification) : Verification → Prop where
  | gather {processToTick : Nat} {vle : List LogEvent} (htop : v.stage = .top)
      (hfrom : v.gCurrentVerifyLoggingTick ≤ processToTick) (hto : processToTick < 2 ^ 32)
      (hvle : ∀ le ∈ vle, v.gCurrentVerifyLoggingTick ≤ le.getTick.toNat ∧
        le.getTick.toNat ≤ processToTick) :
      Steps N v { v with stage := .simulate processToTick .neutral vle }
  | skip {processToTick : Nat} {c c' : Control} {le : LogEvent} {vle : List LogEvent}
      (hstage : v.stage = .simulate processToTick c (le :: vle)) :
      Steps N v { v with stage := .simulate processToTick c' vle }
  | call {processToTick : Nat} {c c' : Control} {le : LogEvent} {vle : List LogEvent}
      {ms : List Movement} {st : Ledger}
      (hstage : v.stage = .simulate processToTick c (le :: vle))
      (hst : st.spectrum = v.ledger.spectrum) :
      Steps N v { v with ledger := st, stage := .handler processToTick c' vle le ms }
  | write {processToTick : Nat} {c : Control} {le : LogEvent} {vle : List LogEvent} {m : Movement}
      {ms : List Movement} {spectrum : Spectrum}
      (hstage : v.stage = .handler processToTick c vle le (m :: ms))
      (hexec : m.exec N.spectrumDepth v.ledger.spectrum = .ok spectrum) :
      Steps N v { v with
        ledger := { v.ledger with spectrum := spectrum }
        stage := .handler processToTick c vle le ms
        made := v.made ++ [(le, m)] }
  | handled {processToTick : Nat} {c : Control} {le : LogEvent} {vle : List LogEvent}
      (hstage : v.stage = .handler processToTick c vle le []) :
      Steps N v { v with stage := .simulate processToTick c vle }
  | applied {processToTick : Nat} {c : Control} (hstage : v.stage = .simulate processToTick c []) :
      Steps N v { v with stage := .verifyNodeStateDigest processToTick }
  | leave {processToTick : Nat} (hstage : v.stage = .verifyNodeStateDigest processToTick) :
      Steps N v { v with stage := .endEpoch }
  | reorganize {spectrum : Spectrum} (hstage : v.stage = .endEpoch)
      (hreorg : reorganizeSpectrum N.spectrumDepth v.ledger.spectrum = .ok spectrum) :
      Steps N v { v with
        ledger := { v.ledger with spectrum := spectrum }, stage := .assetsEndEpoch }
  | finish {u : Universe} (hstage : v.stage = .assetsEndEpoch) :
      Steps N v { v with
        ledger := { v.ledger with assetUniverse := u }
        gCurrentVerifyLoggingTick := (v.ledger.lastQuorumTick + 1).toNat
        stage := .ended }
  | refetch {processToTick : Nat} {u : Universe}
      (hstage : v.stage = .verifyNodeStateDigest processToTick) :
      Steps N v { v with ledger := { v.ledger with assetUniverse := u } }
  | misaligned {processToTick : Nat} {u : Universe}
      (hstage : v.stage = .verifyNodeStateDigest processToTick) :
      Steps N v { v with ledger := { v.ledger with assetUniverse := u }, stage := .stopped }
  | accept {processToTick : Nat} {u : Universe}
      (hstage : v.stage = .verifyNodeStateDigest processToTick) :
      Steps N v { v with
        ledger := { v.ledger with assetUniverse := u }
        gCurrentVerifyLoggingTick := processToTick + 1
        stage := .top }

section Step

variable {N : Node} {v v' : Verification}

theorem orStay_ok {x : Except Halt Verification} (h : v.orStay x = .ok v') : v' = v ∨ x = .ok v' := by
  unfold orStay at h
  split at h
  · exact .inl (Except.ok.inj h).symm
  · exact .inr h

/-- A handler has not written to the spectrum before its first movement. -/
theorem begin_spectrum {st st' : Ledger} {call : Call} {ms : List Movement}
    (h : call.begin N st = .ok (st', ms)) : st'.spectrum = st.spectrum := by
  have hplain : ∀ {α : Type} (x : Except Halt (Universe × α)),
      (do
        let st' ← (do
          let p ← x
          pure { st with assetUniverse := p.1 })
        pure (st', ([] : List Movement))) = Except.ok (st', ms) → st'.spectrum = st.spectrum := by
    intro α x hx
    cases x with
    | error e => cases hx
    | ok p =>
        obtain ⟨rfl, -⟩ := Prod.mk.inj (Except.ok.inj hx)
        rfl
  cases call with
  | quTransfer le => exact congrArg Ledger.spectrum (Prod.mk.inj (Except.ok.inj h)).1.symm
  | quBurn le => exact congrArg Ledger.spectrum (Prod.mk.inj (Except.ok.inj h)).1.symm
  | distributeDividends dd =>
      obtain ⟨ms', -, h⟩ := bind_eq_ok.mp h
      exact congrArg Ledger.spectrum (Prod.mk.inj (Except.ok.inj h)).1.symm
  | issueAsset le => exact hplain _ h
  | changeOwnershipAndPossession le0 le1 => exact hplain _ h
  | changeManagingContract le0 le1 => exact hplain _ h
  | endEpoch tick =>
      obtain ⟨rfl, -⟩ := Prod.mk.inj (Except.ok.inj h)
      rfl

theorem le_batchEnd {hasEndEpochLogs : Nat → Bool} {a b : Nat} (hab : a ≤ b) :
    a ≤ batchEnd hasEndEpochLogs a b ∧ batchEnd hasEndEpochLogs a b ≤ b := by
  unfold batchEnd
  split
  · next tick h =>
      obtain ⟨hlo, hhi⟩ := mem_ticksFromTo.mp (List.mem_of_find?_eq_some h)
      omega
  · exact ⟨hab, le_rfl⟩

theorem steps_of_step {a : Action} (h : v.step N a = .ok v') : v' = v ∨ Steps N v v' := by
  have hstay : ∀ {x : Verification}, (pure x : Except Halt Verification) = .ok v' → v' = x :=
    fun hx => (Except.ok.inj hx).symm
  cases a with
  | gather db hasEndEpochLogs gCurrentFetchingLogTick =>
      dsimp only [step] at h
      split at h
      · next htop =>
          split at h
          · exact .inl (hstay h)
          · next hfetched =>
              rw [hstay h]
              have hto := (gCurrentFetchingLogTick - 1).isLt
              obtain ⟨hlo, hhi⟩ := @le_batchEnd hasEndEpochLogs v.gCurrentVerifyLoggingTick
                (min (v.gCurrentVerifyLoggingTick + BATCH_VERIFICATION)
                  (gCurrentFetchingLogTick - 1).toNat) (by omega)
              exact .inr (.gather htop hlo (by omega) fun le hle => (accepted_of_mem_batch hle).1)
      · exact .inl (hstay h)
  | proceed =>
      dsimp only [step] at h
      split at h
      · next hstage =>
          split at h
          · cases h
          · rw [hstay h]
            exact .inr (.applied hstage)
      · next processToTick c le vle hstage =>
          rcases orStay_ok h with h | h
          · exact .inl h
          · rw [nextEvent, bind_eq_ok] at h
            obtain ⟨⟨c', call⟩, -, h⟩ := h
            cases call with
            | none =>
                rw [hstay h]
                exact .inr (.skip hstage)
            | some call =>
                obtain ⟨⟨st, ms⟩, hbegin, h⟩ := bind_eq_ok.mp h
                rw [hstay h]
                exact .inr (.call hstage (begin_spectrum hbegin))
      · next hstage =>
          rw [hstay h]
          exact .inr (.handled hstage)
      · next hstage =>
          rcases orStay_ok h with h | h
          · exact .inl h
          · obtain ⟨spectrum, hexec, h⟩ := bind_eq_ok.mp h
            rw [hstay h]
            exact .inr (.write hstage hexec)
      · next hstage =>
          split at h
          · rw [hstay h]
            exact .inr (.leave hstage)
          · exact .inl (hstay h)
      · next hstage =>
          rcases orStay_ok h with h | h
          · exact .inl h
          · obtain ⟨spectrum, hreorg, h⟩ := bind_eq_ok.mp h
            rw [hstay h]
            exact .inr (.reorganize hstage hreorg)
      · next hstage =>
          rcases orStay_ok h with h | h
          · exact .inl h
          · obtain ⟨u, -, h⟩ := bind_eq_ok.mp h
            rw [hstay h]
            exact .inr (.finish hstage)
      · exact .inl (hstay h)
  | votes check =>
      dsimp only [step] at h
      split at h
      · next hstage =>
          split at h
          · exact .inl (hstay h)
          · cases check with
            | refetch =>
                rw [hstay h]
                exact .inr (.refetch hstage)
            | misaligned =>
                rw [hstay h]
                exact .inr (.misaligned hstage)
            | matchedQuorum =>
                rw [hstay h]
                exact .inr (.accept hstage)
      · exact .inl (hstay h)

/-! ## The table and the movements -/

/-- The table is the one of the movements made, or what `reorganizeSpectrum` has made of it. -/
def Tracked (N : Node) (bootstrap : Spectrum) (v : Verification) : Prop :=
  ∃ s, runMovements N.spectrumDepth bootstrap (v.made.map Prod.snd) = .ok s ∧
    match v.stage with
    | .assetsEndEpoch | .ended => reorganizeSpectrum N.spectrumDepth s = .ok v.ledger.spectrum
    | _ => v.ledger.spectrum = s

theorem Steps.tracked {bootstrap : Spectrum} (h : Steps N v v') (hv : v.Tracked N bootstrap) :
    v'.Tracked N bootstrap := by
  obtain ⟨s, hrun, hs⟩ := hv
  cases h with
  | write hstage hexec =>
      rw [hstage] at hs
      obtain rfl := hs
      refine ⟨_, ?_, rfl⟩
      rw [List.map_append, runMovements_append, hrun, List.map_singleton]
      exact (runMovements_cons _ _).trans (by rw [hexec]; rfl)
  | reorganize hstage hreorg =>
      rw [hstage] at hs
      obtain rfl := hs
      exact ⟨_, hrun, hreorg⟩
  | call hstage hst =>
      rw [hstage] at hs
      exact ⟨s, hrun, hst.trans hs⟩
  | refetch hstage =>
      rw [hstage] at hs
      refine ⟨s, hrun, ?_⟩
      dsimp only
      rw [hstage]
      exact hs
  | gather hstage | skip hstage | handled hstage | applied hstage | leave hstage | finish hstage
  | misaligned hstage | accept hstage =>
      rw [hstage] at hs
      exact ⟨s, hrun, hs⟩

theorem tracked_run {bootstrap : Ledger} {lastVerifiedTick : Nat} {actions : List Action}
    (hrun : Runs.runExcept (step N) (start lastVerifiedTick bootstrap) actions = .ok v) :
    v.Tracked N bootstrap.spectrum := by
  have hstep : ∀ (v : Verification) (a : Action) (v' : Verification),
      v.Tracked N bootstrap.spectrum → v.step N a = .ok v' → v'.Tracked N bootstrap.spectrum := by
    intro v a v' hv h
    rcases steps_of_step h with rfl | h
    · exact hv
    · exact h.tracked hv
  exact Runs.runExcept_keeps hstep ⟨bootstrap.spectrum, rfl, rfl⟩ hrun

/-- Every record behind `reorganizeSpectrum` is one of before. -/
theorem reorganizeSpectrum_copies {depth : Nat} {s s' : Spectrum}
    (h : reorganizeSpectrum depth s = .ok s') (k : Nat) (hk : (s' k).publicKey ≠ m256i.zero) :
    ∃ i, i < 2 ^ depth ∧ s' k = s i := by
  have hfold : ∀ (slots : List Nat) (t : Spectrum), (∀ i ∈ slots, i < 2 ^ depth) →
      (∀ k, (t k).publicKey ≠ m256i.zero → ∃ i, i < 2 ^ depth ∧ t k = s i) →
      slots.foldlM (reorganizeSlot depth s) t = .ok s' → ∃ i, i < 2 ^ depth ∧ s' k = s i := by
    intro slots
    induction slots with
    | nil =>
        intro t _ ht h
        obtain rfl := Except.ok.inj h
        exact ht k hk
    | cons i slots ih =>
        intro t hlt ht h
        rw [List.foldlM_cons, bind_eq_ok] at h
        obtain ⟨t', ht', h⟩ := h
        refine ih t' (fun j hj => hlt j (List.mem_cons_of_mem _ hj)) ?_ h
        intro k hk
        unfold reorganizeSlot at ht'
        split at ht'
        · obtain ⟨index, -, ht'⟩ := bind_eq_ok.mp ht'
          obtain rfl := Except.ok.inj ht'
          by_cases hki : k = index
          · exact ⟨i, hlt i List.mem_cons_self, by rw [hki, Function.update_self]⟩
          · rw [Function.update_of_ne hki] at hk ⊢
            exact ht k hk
        · obtain rfl := Except.ok.inj ht'
          exact ht k hk
  refine hfold _ zeroSpectrum (fun i hi => List.mem_range.mp hi) ?_ h
  intro k hk
  exact absurd rfl hk

/-- The record that a read finds is that of the table of the movements made. -/
theorem Tracked.record {bootstrap : Spectrum} (hv : v.Tracked N bootstrap)
    (hwf : WellFormedSpectrum N.spectrumDepth bootstrap) {key : m256i} {i : Nat}
    (hi : spectrumIndex N.spectrumDepth v.ledger.spectrum key = .ok (some i)) :
    ∃ s, runMovements N.spectrumDepth bootstrap (v.made.map Prod.snd) = .ok s ∧
      v.ledger.spectrum i = recordOf N.spectrumDepth s key := by
  obtain ⟨s, hrun, hs⟩ := hv
  obtain ⟨hkey, hlt, rfl⟩ := spectrumIndex_some hi
  obtain ⟨hwf', -⟩ := amounts_runMovements hkey hwf hrun
  refine ⟨s, hrun, ?_⟩
  have hreorganized : reorganizeSpectrum N.spectrumDepth s = .ok v.ledger.spectrum →
      v.ledger.spectrum i = recordOf N.spectrumDepth s (v.ledger.spectrum i).publicKey := by
    intro h
    obtain ⟨j, hj, hcopy⟩ := reorganizeSpectrum_copies h i hkey
    rw [hcopy] at hkey ⊢
    exact (recordOf_present hwf' hj hkey).symm
  split at hs
  · exact hreorganized hs
  · exact hreorganized hs
  · rw [hs] at hkey ⊢
    exact (recordOf_present hwf' hlt hkey).symm

theorem runMovements_verified {bootstrap s : Spectrum}
    (h : runMovements N.spectrumDepth bootstrap (v.made.map Prod.snd) = .ok s) :
    ∃ ref, v.reference N bootstrap = .ok ref ∧ runMovements N.spectrumDepth ref v.pending = .ok s := by
  have hsplit : v.made.map Prod.snd = v.verified ++ v.pending := by
    rw [verified, pending, ← List.map_append, List.takeWhile_append_dropWhile]
  rw [hsplit, runMovements_append] at h
  exact bind_eq_ok.mp h

/-! ## The ticks of the movements -/

/-- In a batch: the movements are of ticks up to its end, the events to come of its own ticks. -/
structure BatchInOrder (v : Verification) (processToTick : Nat) (vle : List LogEvent) : Prop where
  from_le : 0 < v.gCurrentVerifyLoggingTick ∧ v.gCurrentVerifyLoggingTick ≤ processToTick
  to_lt : processToTick < 2 ^ 32
  made_le : ∀ e ∈ v.made, e.1.getTick.toNat ≤ processToTick
  coming : ∀ le ∈ vle, v.gCurrentVerifyLoggingTick ≤ le.getTick.toNat ∧
    le.getTick.toNat ≤ processToTick

/-- Up to the end of the epoch the ticks of the movements follow the batches. -/
def InOrder (v : Verification) : Prop :=
  match v.stage with
  | .top => 0 < v.gCurrentVerifyLoggingTick ∧ v.gCurrentVerifyLoggingTick ≤ 2 ^ 32 ∧
      ∀ e ∈ v.made, e.1.getTick.toNat < v.gCurrentVerifyLoggingTick
  | .simulate processToTick _ vle => v.BatchInOrder processToTick vle
  | .handler processToTick _ vle le _ => v.BatchInOrder processToTick (le :: vle)
  | .verifyNodeStateDigest processToTick => v.BatchInOrder processToTick []
  | _ => True

theorem Steps.inOrder (h : Steps N v v') (hv : v.InOrder) : v'.InOrder := by
  cases h with
  | gather htop hfrom hto hvle =>
      rw [InOrder, htop] at hv
      obtain ⟨hpos, -, hmade⟩ := hv
      exact ⟨⟨hpos, hfrom⟩, hto, fun e he => (hmade e he).le.trans hfrom, hvle⟩
  | skip hstage =>
      rw [InOrder, hstage] at hv
      exact ⟨hv.from_le, hv.to_lt, hv.made_le, fun le hle => hv.coming le (List.mem_cons_of_mem _ hle)⟩
  | call hstage =>
      rw [InOrder, hstage] at hv
      exact ⟨hv.from_le, hv.to_lt, hv.made_le, hv.coming⟩
  | @write processToTick c le vle m ms spectrum hstage hexec =>
      rw [InOrder, hstage] at hv
      refine ⟨hv.from_le, hv.to_lt, ?_, hv.coming⟩
      intro e he
      rcases List.mem_append.mp he with hold | hnew
      · exact hv.made_le e hold
      · rw [List.mem_singleton.mp hnew]
        exact (hv.coming le List.mem_cons_self).2
  | handled hstage =>
      rw [InOrder, hstage] at hv
      exact ⟨hv.from_le, hv.to_lt, hv.made_le, fun le hle => hv.coming le (List.mem_cons_of_mem _ hle)⟩
  | applied hstage =>
      rw [InOrder, hstage] at hv
      exact ⟨hv.from_le, hv.to_lt, hv.made_le, hv.coming⟩
  | refetch hstage =>
      rw [InOrder, hstage] at hv
      rw [InOrder]
      dsimp only
      rw [hstage]
      exact ⟨hv.from_le, hv.to_lt, hv.made_le, hv.coming⟩
  | accept hstage =>
      rw [InOrder, hstage] at hv
      exact ⟨Nat.succ_pos _, hv.to_lt, fun e he => Nat.lt_succ_of_le (hv.made_le e he)⟩
  | leave | reorganize | finish | misaligned => exact trivial

/-- The reported tick is the one before the global, in a batch and between two batches. -/
theorem le_currentBobTick_iff {t : BitVec 32} (hpos : 0 < v.gCurrentVerifyLoggingTick)
    (hle : v.gCurrentVerifyLoggingTick ≤ 2 ^ 32) :
    t ≤ v.currentBobTick ↔ t.toNat < v.gCurrentVerifyLoggingTick := by
  have ht := t.isLt
  have hone : (1 : BitVec 32).toNat = 1 := rfl
  rw [BitVec.le_def, currentBobTick, tick32, BitVec.toNat_sub, BitVec.toNat_ofNat, hone]
  omega

/-- Between two batches no movement is of a tick later than the reported one. -/
theorem pending_of_top (hv : v.InOrder) (htop : v.stage = .top) : v.pending = [] := by
  rw [InOrder, htop] at hv
  obtain ⟨hpos, hle, hmade⟩ := hv
  have hdrop : v.made.dropWhile (fun e => decide (e.1.getTick ≤ v.currentBobTick)) = [] := by
    rw [List.dropWhile_eq_nil_iff]
    intro e he
    exact decide_eq_true ((le_currentBobTick_iff hpos hle).mpr (hmade e he))
  rw [pending, hdrop]
  rfl

theorem verified_congr (hmade : v'.made = v.made)
    (hcur : v'.gCurrentVerifyLoggingTick = v.gCurrentVerifyLoggingTick) : v'.verified = v.verified := by
  rw [verified, verified, currentBobTick, currentBobTick, tick32, tick32, hmade, hcur]

/-- The writes of a batch are pending: the reference stays what it was until the tick goes on. -/
theorem Steps.verified_eq (h : Steps N v v') (hv : v.InOrder)
    (hcur : v'.gCurrentVerifyLoggingTick = v.gCurrentVerifyLoggingTick) : v'.verified = v.verified := by
  cases h with
  | @write processToTick c le vle m ms spectrum hstage hexec =>
      rw [InOrder, hstage] at hv
      have hlater : ¬ le.getTick ≤ v.currentBobTick := by
        rw [le_currentBobTick_iff hv.from_le.1 (hv.from_le.2.trans hv.to_lt.le)]
        exact not_lt.mpr (hv.coming le List.mem_cons_self).1
      have htake : (v.made ++ [(le, m)]).takeWhile (fun e => decide (e.1.getTick ≤ v.currentBobTick))
          = v.made.takeWhile fun e => decide (e.1.getTick ≤ v.currentBobTick) := by
        rw [List.takeWhile_append]
        split
        · next hall =>
            rw [List.takeWhile_cons_of_neg (by simpa using hlater), List.append_nil]
            exact ((List.takeWhile_prefix _).eq_of_length hall).symm
        · rfl
      exact congrArg (List.map Prod.snd) htake
  | gather | skip | call | handled | applied | leave | reorganize | finish | refetch | misaligned
  | accept => exact verified_congr rfl hcur

theorem inOrder_run {bootstrap : Ledger} {lastVerifiedTick : Nat} {actions : List Action}
    (hlast : lastVerifiedTick < 2 ^ 32)
    (hrun : Runs.runExcept (step N) (start lastVerifiedTick bootstrap) actions = .ok v) :
    v.InOrder := by
  have hstep : ∀ (v : Verification) (a : Action) (v' : Verification),
      v.InOrder → v.step N a = .ok v' → v'.InOrder := by
    intro v a v' hv h
    rcases steps_of_step h with rfl | h
    · exact hv
    · exact h.inOrder hv
  have hstart : (start lastVerifiedTick bootstrap).InOrder :=
    ⟨Nat.succ_pos _, hlast, fun _ he => absurd he List.not_mem_nil⟩
  exact Runs.runExcept_keeps hstep hstart hrun

/-- Between two batches the reference is the table itself. -/
theorem reference_of_top {bootstrap : Spectrum} (hv : v.Tracked N bootstrap) (horder : v.InOrder)
    (htop : v.stage = .top) : v.reference N bootstrap = .ok v.ledger.spectrum := by
  obtain ⟨s, hrun, hs⟩ := hv
  rw [htop] at hs
  obtain ⟨ref, href, hpending⟩ := runMovements_verified hrun
  rw [pending_of_top horder htop, runMovements_nil] at hpending
  rw [href, Except.ok.inj hpending, show v.ledger.spectrum = s from hs]

/-! ## Answers -/

theorem error_eq_null_iff {e : EntityRecord} {t : BitVec 32} :
    (balanceFields e t).error = "null" ↔ beingProcessed e t = false := by
  unfold balanceFields
  dsimp only
  cases beingProcessed e t with
  | false => exact ⟨fun _ => rfl, fun _ => rfl⟩
  | true => exact ⟨fun h => absurd h (by decide), fun h => absurd h (by decide)⟩

theorem bobGetBalance_entity_iff {depth : Nat} {s : Spectrum} {tick : BitVec 32} {str : List Byte}
    {r : BalanceFields} : bobGetBalance depth s tick (some str) = .ok (.entity r) ↔
      60 ≤ str.length ∧ ∃ i, spectrumIndex depth s (getPublicKeyFromIdentity str) = .ok (some i) ∧
        balanceFields (s i) (tick - 1) = r := by
  unfold bobGetBalance
  dsimp only
  split
  · next hshort =>
      constructor
      · intro h
        cases h
      · rintro ⟨hlen, -⟩
        omega
  · next hlen =>
      rw [not_lt] at hlen
      constructor
      · intro h
        obtain ⟨o, ho, h⟩ := bind_eq_ok.mp h
        cases o with
        | none => cases h
        | some i => exact ⟨hlen, i, ho, BalanceAnswer.entity.inj (Except.ok.inj h)⟩
      · rintro ⟨-, i, hi, rfl⟩
        rw [hi]
        rfl

/-- What a read finds: the amounts of the reference and what the pending movements add. -/
theorem read_amounts {bootstrap ref : Spectrum} (hv : v.Tracked N bootstrap)
    (hwf : WellFormedSpectrum N.spectrumDepth bootstrap) (href : v.reference N bootstrap = .ok ref)
    {key : m256i} {i : Nat}
    (hi : spectrumIndex N.spectrumDepth v.ledger.spectrum key = .ok (some i)) :
    (v.ledger.spectrum i).incomingAmount =
        (recordOf N.spectrumDepth ref key).incomingAmount + receivedOf key v.pending ∧
      (v.ledger.spectrum i).outgoingAmount =
        (recordOf N.spectrumDepth ref key).outgoingAmount
          + paidOf N.spectrumDepth key ref v.pending := by
  obtain ⟨s, hmade, hrecord⟩ := hv.record hwf hi
  obtain ⟨hkey, -⟩ := spectrumIndex_some hi
  obtain ⟨ref', href', hpending⟩ := runMovements_verified hmade
  obtain rfl := Except.ok.inj (href.symm.trans href')
  obtain ⟨hwf', -⟩ := amounts_runMovements hkey hwf href
  obtain ⟨-, hadded⟩ := amounts_runMovements hkey hwf' hpending
  rw [hrecord]
  exact ⟨hadded.incoming, hadded.outgoing⟩

/-- **Balances without an error are clean** exactly when, for every entity with a record whose numbers
of transfers do not exceed `currentBobTick`, what the movements of later ticks made so far add to its
two amounts is zero. -/
theorem balance_clean_iff (N : Node) {bootstrap : Ledger} {lastVerifiedTick : Nat}
    (hwf : WellFormedSpectrum N.spectrumDepth bootstrap.spectrum) {actions : List Action}
    {v : Verification}
    (hrun : Runs.runExcept (step N) (start lastVerifiedTick bootstrap) actions = .ok v) :
    ∃ ref, v.reference N bootstrap.spectrum = .ok ref ∧ ∀ identity,
      (Clean N.spectrumDepth ref identity
          (bobGetBalance N.spectrumDepth v.ledger.spectrum v.tick32 identity) ↔
        ∀ str, identity = some str →
          Answered N.spectrumDepth v.ledger.spectrum v.currentBobTick str →
            receivedOf (getPublicKeyFromIdentity str) v.pending = 0 ∧
            paidOf N.spectrumDepth (getPublicKeyFromIdentity str) ref v.pending = 0) := by
  have hv := tracked_run hrun
  obtain ⟨s, hmade, -⟩ := tracked_run hrun
  obtain ⟨ref, href, -⟩ := runMovements_verified hmade
  refine ⟨ref, href, fun identity => ?_⟩
  constructor
  · rintro hclean str rfl ⟨hlen, i, hi, hpass⟩
    obtain ⟨hin, hout, -⟩ := hclean str _ rfl (bobGetBalance_entity_iff.mpr ⟨hlen, i, hi, rfl⟩)
      (error_eq_null_iff.mpr hpass)
    obtain ⟨hin', hout'⟩ := read_amounts hv hwf href hi
    exact ⟨add_eq_left.mp (hin'.symm.trans hin), add_eq_left.mp (hout'.symm.trans hout)⟩
  · rintro hzero str r rfl hanswer herror
    obtain ⟨hlen, i, hi, rfl⟩ := bobGetBalance_entity_iff.mp hanswer
    obtain ⟨hreceived, hpaid⟩ := hzero str rfl ⟨hlen, i, hi, error_eq_null_iff.mp herror⟩
    obtain ⟨hin, hout⟩ := read_amounts hv hwf href hi
    rw [hreceived, add_zero] at hin
    rw [hpaid, add_zero] at hout
    exact ⟨hin, hout, congrArg₂ (· - ·) hin hout⟩

end Step

/-! ## A transfer of a later tick -/

theorem one_log : (0 ≤ (0 : Int) ∧ 0 ≤ (1 : Int) ∧ 0 + 1 < LLONG_MAX) := by decide

/-- Tick 11 with a transfer of 30 to the entity 5. -/
def transferDB : LogDB :=
  ⟨⟨fun _ => some ⟨0, 1, .inr one_log⟩,
      fun _ _ => some (LogEvent.ofTransfer 11 0 ⟨0, 5, 30⟩).content⟩,
    ⟨fun _ => none, fun _ _ => none⟩⟩

/-- The identity of the entity 5. -/
def identityOfFive : List Byte := 70 :: List.replicate 59 65

/-- The batch of tick 11 is read, and the transfer is applied. -/
def untilCredited : List Action :=
  [.gather transferDB (fun _ => false) 12, .proceed, .proceed, .proceed]

/-- A node at the epoch of the example. -/
def smallNode : Node := ⟨⟨fun _ => 7, fun _ => 0⟩, 2, 2, 1⟩

theorem wellFormedSpectrum_oneEntity :
    WellFormedSpectrum smallNode.spectrumDepth (oneEntityLedger 100).spectrum := by
  refine (wellFormedSpectrum_zero 2).insert (by decide) ?_ rfl rfl
  rintro ⟨i, -, hi⟩
  exact absurd (show m256i.zero = 5 from hi) (by decide)

/-- The transfer. -/
def transferToFive : LogEvent := .ofTransfer 11 0 ⟨0, 5, 30⟩

/-- The record of the entity 5 after the transfer. -/
def fiveCredited : EntityRecord := ⟨5, 130, 0, 2, 0, 11, 0⟩

/-- The thread in the handler of the transfer, behind the credit. -/
def credited : Verification where
  gCurrentVerifyLoggingTick := 11
  ledger := { oneEntityLedger 100 with
    spectrum := Function.update (oneEntityLedger 100).spectrum 1 fiveCredited }
  stage := .handler 11 .neutral [] transferToFive []
  made := [(transferToFive, .debit 0 30 11), (transferToFive, .credit 5 30 11)]

theorem run_untilCredited :
    Runs.runExcept (step smallNode) (start 10 (oneEntityLedger 100)) untilCredited = .ok credited :=
  rfl

/-- An answer without an error reports a transfer that is not verified. -/
theorem credited_dirty :
    ¬ ∀ (N : Node) (bootstrap : Ledger) (lastVerifiedTick : Nat),
      WellFormedSpectrum N.spectrumDepth bootstrap.spectrum → ∀ (actions : List Action) v,
        Runs.runExcept (step N) (start lastVerifiedTick bootstrap) actions = .ok v →
          ∃ ref, v.reference N bootstrap.spectrum = .ok ref ∧ ∀ identity,
            Clean N.spectrumDepth ref identity
              (bobGetBalance N.spectrumDepth v.ledger.spectrum v.tick32 identity) := by
  intro h
  obtain ⟨ref, href, hclean⟩ := h smallNode (oneEntityLedger 100) 10 wellFormedSpectrum_oneEntity
    untilCredited credited run_untilCredited
  -- the transfer is of tick 11, the reported tick is 10
  have hverified : ref = (oneEntityLedger 100).spectrum := (Except.ok.inj href).symm
  obtain ⟨hin, -⟩ := hclean (some identityOfFive) identityOfFive (balanceFields fiveCredited 10)
    rfl rfl rfl
  rw [hverified] at hin
  exact absurd hin (by decide)

/-- The theorem at the read behind the credit. -/
theorem balance_clean_iff_credited :
    ∃ ref, credited.reference smallNode (oneEntityLedger 100).spectrum = .ok ref ∧ ∀ identity,
      (Clean 2 ref identity (bobGetBalance 2 credited.ledger.spectrum credited.tick32 identity) ↔
        ∀ str, identity = some str → Answered 2 credited.ledger.spectrum credited.currentBobTick str →
          receivedOf (getPublicKeyFromIdentity str) credited.pending = 0 ∧
          paidOf 2 (getPublicKeyFromIdentity str) ref credited.pending = 0) :=
  balance_clean_iff smallNode wellFormedSpectrum_oneEntity run_untilCredited

end Verification

end QubicBob
