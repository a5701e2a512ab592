import QubicBob.Ledger.SpectrumMap
import QubicBob.Verifier.Simulation

set_option autoImplicit false

/-! # The writes of the handlers, one by one

A handler of QU events changes the spectrum by debits and credits of single records. `Call.begin` is
a handler up to its first write, with the writes it is going to make, and `exec_eq_movements` puts
the handler together again. What a list of movements adds to the two amounts of an entity is
`receivedOf` and `paidOf` (`amounts_runMovements`).
-/

namespace QubicBob

open Probe

/-- A write to the spectrum. A debit looks its entity up first. -/
inductive Movement where
  | debit (publicKey : m256i) (amount : BitVec 64) (tick : BitVec 32)
  | credit (publicKey : m256i) (amount : BitVec 64) (tick : BitVec 32)
  deriving DecidableEq

namespace Movement

def exec (depth : Nat) (spectrum : Spectrum) : Movement → Except Halt Spectrum
  | .debit publicKey amount tick => do
      match ← spectrumIndex depth spectrum publicKey with
      | some i => pure (decreaseEnergy spectrum i amount tick).1
      | none => pure spectrum
  | .credit publicKey amount tick => increaseEnergy depth spectrum publicKey amount tick

/-- What an entity receives. -/
def received (key : m256i) : Movement → BitVec 64
  | .debit .. => 0
  | .credit publicKey amount _ => if publicKey = key ∧ 0 ≤ amount.toInt then amount else 0

/-- What an entity pays, if it has it. -/
def paid (depth : Nat) (spectrum : Spectrum) (key : m256i) : Movement → BitVec 64
  | .debit publicKey amount tick =>
      match spectrumIndex depth spectrum publicKey with
      | .ok (some i) =>
          if publicKey = key ∧ (decreaseEnergy spectrum i amount tick).2 = true then amount else 0
      | _ => 0
  | .credit .. => 0

end Movement

def runMovements (depth : Nat) (spectrum : Spectrum) (ms : List Movement) : Except Halt Spectrum :=
  Runs.runExcept (Movement.exec depth) spectrum ms

def receivedOf (key : m256i) (ms : List Movement) : BitVec 64 := (ms.map (Movement.received key)).sum

def paidOf (depth : Nat) (key : m256i) : Spectrum → List Movement → BitVec 64
  | _, [] => 0
  | spectrum, m :: ms =>
      match m.exec depth spectrum with
      | .ok s => m.paid depth spectrum key + paidOf depth key s ms
      | .error _ => 0

/-! ## Handlers -/

/-- The movements of a dividend window: none if it fails the sanity check. -/
def dividendMovements (depth : Nat) (spectrum : Spectrum) (vle : List LogEvent) :
    Except Halt (List Movement) :=
  match vle with
  | [] => pure []
  | first :: _ =>
      if vle.any (fun le => le.getType != QU_TRANSFER) then pure []
      else match dividendTotal first.quTransfer.sourcePublicKey vle with
        | none => pure []
        | some total => do
            match ← spectrumIndex depth spectrum first.quTransfer.sourcePublicKey with
            | none => pure []
            | some _ =>
                pure (.debit first.quTransfer.sourcePublicKey total first.getTick
                  :: vle.map fun le => .credit le.quTransfer.destinationPublicKey
                    le.quTransfer.amount first.getTick)

/-- The handler before its first write, and its writes. The other handlers leave the spectrum alone
and run at once. -/
def Call.begin (N : Node) (st : Ledger) : Call → Except Halt (Ledger × List Movement)
  | .quTransfer le =>
      let qt := le.quTransfer
      pure (st, [.debit qt.sourcePublicKey qt.amount le.getTick,
        .credit qt.destinationPublicKey qt.amount le.getTick])
  | .quBurn le => pure (st, [.debit le.burning.sourcePublicKey le.burning.amount le.getTick])
  | .distributeDividends dd => do
      let ms ← dividendMovements N.spectrumDepth st.spectrum dd
      pure (st, ms)
  | call => do
      let st' ← call.exec N st
      pure (st', [])

section Handlers

variable {depth : Nat} {s s' : Spectrum}

@[simp] theorem runMovements_nil : runMovements depth s [] = .ok s := rfl

theorem runMovements_cons (m : Movement) (ms : List Movement) :
    runMovements depth s (m :: ms) = m.exec depth s >>= fun s' => runMovements depth s' ms := by
  rw [runMovements, Runs.runExcept, List.foldlM_cons]
  rfl

theorem runMovements_append (ms ms' : List Movement) :
    runMovements depth s (ms ++ ms') =
      runMovements depth s ms >>= fun s' => runMovements depth s' ms' := by
  rw [runMovements, Runs.runExcept, List.foldlM_append]
  rfl

theorem creditAll_eq (tick : BitVec 32) (vle : List LogEvent) : ∀ s, creditAll depth tick vle s =
    runMovements depth s (vle.map fun le => .credit le.quTransfer.destinationPublicKey
      le.quTransfer.amount tick) := by
  induction vle with
  | nil => exact fun s => rfl
  | cons le vle ih =>
      intro s
      rw [creditAll, List.map_cons, runMovements_cons]
      exact bind_congr fun s' => ih s'

theorem processQuTransfer_eq (le : LogEvent) : processQuTransfer depth s le =
    runMovements depth s
      [.debit le.quTransfer.sourcePublicKey le.quTransfer.amount le.getTick,
        .credit le.quTransfer.destinationPublicKey le.quTransfer.amount le.getTick] := by
  rw [processQuTransfer, runMovements_cons, Movement.exec]
  cases spectrumIndex depth s le.quTransfer.sourcePublicKey with
  | error e => rfl
  | ok o =>
      cases o with
      | none => exact (bind_pure _).symm
      | some i => exact (bind_pure _).symm

theorem processQuBurn_eq (le : LogEvent) : processQuBurn depth s le =
    runMovements depth s [.debit le.burning.sourcePublicKey le.burning.amount le.getTick] := by
  rw [runMovements_cons]
  exact (bind_pure _).symm

theorem processDistributeDividends_eq (vle : List LogEvent) :
    Except.map Prod.fst (processDistributeDividends depth s vle) =
      dividendMovements depth s vle >>= runMovements depth s := by
  unfold processDistributeDividends dividendMovements
  cases vle with
  | nil => rfl
  | cons first rest =>
      dsimp only
      split
      · rfl
      cases dividendTotal first.quTransfer.sourcePublicKey (first :: rest) with
      | none => rfl
      | some total =>
          dsimp only
          cases hindex : spectrumIndex depth s first.quTransfer.sourcePublicKey with
          | error e => rfl
          | ok o =>
              cases o with
              | none => rfl
              | some i =>
                  simp only [bind, Except.bind, pure, Except.pure]
                  rw [creditAll_eq, runMovements_cons, Movement.exec, hindex]
                  simp only [bind, Except.bind, pure, Except.pure]
                  cases runMovements depth (decreaseEnergy s i total first.getTick).1 _ with
                  | error e => rfl
                  | ok s' => rfl

end Handlers

/-- A handler without movements. -/
theorem begin_plain (depth : Nat) (x : Except Halt Ledger) :
    x = (do
      let (st', ms) ← (do
        let st' ← x
        pure (st', ([] : List Movement)))
      let spectrum ← runMovements depth st'.spectrum ms
      pure { st' with spectrum := spectrum }) := by
  cases x with
  | error e => rfl
  | ok st' => rfl

/-- A handler is its writes one after the other. -/
theorem Call.exec_eq_movements (N : Node) (st : Ledger) (call : Call) :
    call.exec N st = (do
      let (st', ms) ← call.begin N st
      let spectrum ← runMovements N.spectrumDepth st'.spectrum ms
      pure { st' with spectrum := spectrum }) := by
  cases call with
  | quTransfer le =>
      rw [Call.exec, processQuTransfer_eq]
      rfl
  | quBurn le =>
      rw [Call.exec, processQuBurn_eq]
      rfl
  | distributeDividends dd =>
      have h := @processDistributeDividends_eq N.spectrumDepth st.spectrum dd
      rw [Call.exec, Call.begin]
      cases hms : dividendMovements N.spectrumDepth st.spectrum dd with
      | error e =>
          rw [hms] at h
          cases hp : processDistributeDividends N.spectrumDepth st.spectrum dd with
          | error e' =>
              rw [hp] at h
              exact congrArg _ (Except.error.inj h)
          | ok p =>
              rw [hp] at h
              cases h
      | ok ms =>
          rw [hms] at h
          simp only [bind, Except.bind, pure, Except.pure] at h ⊢
          rw [← h]
          cases processDistributeDividends N.spectrumDepth st.spectrum dd with
          | error e => rfl
          | ok p => rfl
  | issueAsset le => exact begin_plain _ _
  | changeOwnershipAndPossession le0 le1 => exact begin_plain _ _
  | changeManagingContract le0 le1 => exact begin_plain _ _
  | endEpoch tick => rfl

/-! ## Amounts -/

section Amounts

variable {depth : Nat} {s s' : Spectrum} {key : m256i}

/-- The amounts of a key behind a history. -/
theorem RepresentsFrom.amounts_recordOf {h : SpectrumHistory} (hr : RepresentsFrom depth s h)
    (hkey : key ≠ m256i.zero) :
    (recordOf depth h.spectrum key).incomingAmount =
        (recordOf depth s key).incomingAmount + sumOf key h.credits ∧
      (recordOf depth h.spectrum key).outgoingAmount =
        (recordOf depth s key).outgoingAmount + sumOf key h.debits := by
  by_cases hhas : HasEntity depth h.spectrum key
  · obtain ⟨i, hi, rfl⟩ := hhas
    rw [recordOf_present hr.wf hi hkey]
    exact hr.amounts i hi hkey
  · have hnew := (hr.held key hkey).not.mp hhas
    rw [not_or] at hnew
    have hdebit : key ∉ h.debits.map Prod.fst := by
      intro hmem
      obtain ⟨e, he, rfl⟩ := List.mem_map.mp hmem
      exact hhas (hr.debited e he).2
    rw [recordOf_absent hhas, recordOf_absent hnew.1, sumOf_eq_zero hnew.2, sumOf_eq_zero hdebit]
    exact ⟨rfl, rfl⟩

/-- A credit that comes back. -/
theorem credit_represents {publicKey : m256i} {amount : BitVec 64} {tick : BitVec 32}
    (hkey : key ≠ m256i.zero) (hs : WellFormedSpectrum depth s)
    (h : increaseEnergy depth s publicKey amount tick = .ok s') :
    ∃ hist, RepresentsFrom depth s hist ∧ hist.spectrum = s' ∧ hist.debits = [] ∧
      sumOf key hist.credits = (Movement.credit publicKey amount tick).received key := by
  by_cases hc : publicKey ≠ m256i.zero ∧ 0 ≤ amount.toInt
  · have hfree : ¬ HasEntity depth s publicKey → HasFreeSlot depth s := by
      intro habsent
      obtain ⟨-, i, hi, ⟨hik, -⟩ | ⟨hzero, -⟩⟩ := increaseEnergy_credited hc.1 h hc.2
      · exact absurd ⟨i, hi, hik⟩ habsent
      · exact ⟨i, hi, hzero⟩
    have hcall : ∃ hist, (SpectrumHistory.start s).make depth
        (.increaseEnergy publicKey amount tick) = .ok hist ∧ RepresentsFrom depth s hist :=
      (representsFrom_start hs).increaseEnergy hfree
    obtain ⟨hist, hmake, hr⟩ := hcall
    simp only [SpectrumHistory.make, SpectrumHistory.start, h, bind, Except.bind, if_pos hc] at hmake
    obtain rfl := Except.ok.inj hmake
    refine ⟨_, hr, rfl, rfl, ?_⟩
    rw [Movement.received]
    by_cases hkey : publicKey = key
    · rw [if_pos ⟨hkey, hc.2⟩, hkey, sumOf_singleton]
    · rw [if_neg fun h => hkey h.1]
      exact sumOf_of_other (fun e he => congrArg Prod.fst (List.mem_singleton.mp he)) hkey
  · rw [increaseEnergy_refused hc] at h
    refine ⟨_, representsFrom_start hs, Except.ok.inj h, rfl, ?_⟩
    have hnot : ¬ (publicKey = key ∧ 0 ≤ amount.toInt) := by
      rintro ⟨rfl, hamount⟩
      exact hc ⟨hkey, hamount⟩
    rw [Movement.received, if_neg hnot]
    exact sumOf_eq_zero List.not_mem_nil

/-- A debit of a slot that was looked up. -/
theorem debit_represents {publicKey : m256i} {amount : BitVec 64} {tick : BitVec 32} {i : Nat}
    (hs : WellFormedSpectrum depth s) (hi : spectrumIndex depth s publicKey = .ok (some i)) :
    ∃ hist, RepresentsFrom depth s hist ∧ hist.spectrum = (decreaseEnergy s i amount tick).1 ∧
      hist.credits = [] ∧
      sumOf key hist.debits = (Movement.debit publicKey amount tick).paid depth s key := by
  -- the lookup is remembered, so that the slot may be debited
  have hlooked : RepresentsFrom depth s
      { SpectrumHistory.start s with returned := [(publicKey, i)] } := by
    refine { representsFrom_start hs with returned := ?_ }
    intro e he
    rw [List.mem_singleton.mp he]
    exact spectrumIndex_some hi
  have hcall : ∃ hist, SpectrumHistory.make depth
      { SpectrumHistory.start s with returned := [(publicKey, i)] }
      (.decreaseEnergy publicKey i amount tick) = .ok hist ∧ RepresentsFrom depth s hist :=
    hlooked.decreaseEnergy List.mem_cons_self
  obtain ⟨hist, hmake, hr⟩ := hcall
  simp only [SpectrumHistory.make, SpectrumHistory.start] at hmake
  simp only [Movement.paid, hi]
  rcases hdec : decreaseEnergy s i amount tick with ⟨s', ok⟩
  rw [hdec] at hmake
  cases ok with
  | false =>
      obtain rfl := Except.ok.inj hmake
      refine ⟨_, hr, rfl, rfl, ?_⟩
      rw [if_neg fun h => Bool.false_ne_true h.2]
      exact sumOf_eq_zero List.not_mem_nil
  | true =>
      obtain rfl := Except.ok.inj hmake
      refine ⟨_, hr, rfl, rfl, ?_⟩
      by_cases hkey : publicKey = key
      · rw [if_pos ⟨hkey, rfl⟩, hkey]
        exact sumOf_singleton key amount
      · rw [if_neg fun h => hkey h.1]
        exact sumOf_of_other (fun e he => congrArg Prod.fst (List.mem_singleton.mp he)) hkey

/-- The amounts of the key grow by what it receives and what it pays. -/
structure AmountsAdded (depth : Nat) (s s' : Spectrum) (key : m256i) (received paid : BitVec 64) :
    Prop where
  incoming : (recordOf depth s' key).incomingAmount = (recordOf depth s key).incomingAmount + received
  outgoing : (recordOf depth s' key).outgoingAmount = (recordOf depth s key).outgoingAmount + paid

theorem Movement.exec_amounts {m : Movement} (hs : WellFormedSpectrum depth s)
    (hkey : key ≠ m256i.zero) (h : m.exec depth s = .ok s') :
    WellFormedSpectrum depth s' ∧
      AmountsAdded depth s s' key (m.received key) (m.paid depth s key) := by
  cases m with
  | credit publicKey amount tick =>
      obtain ⟨hist, hr, rfl, hdebits, hcredits⟩ := credit_represents hkey hs h
      have hamounts := hr.amounts_recordOf hkey
      rw [hcredits, hdebits, sumOf_eq_zero List.not_mem_nil] at hamounts
      exact ⟨hr.wf, hamounts.1, hamounts.2⟩
  | debit publicKey amount tick =>
      rw [Movement.exec, bind_eq_ok] at h
      obtain ⟨o, ho, h⟩ := h
      cases o with
      | none =>
          obtain rfl := Except.ok.inj h
          refine ⟨hs, (BitVec.add_zero _).symm, ?_⟩
          simp only [Movement.paid, ho]
          exact (BitVec.add_zero _).symm
      | some i =>
          obtain rfl := Except.ok.inj h
          obtain ⟨hist, hr, hspec, hcredits, hdebits⟩ :=
            @debit_represents depth s key publicKey amount tick i hs ho
          have hamounts := hr.amounts_recordOf hkey
          rw [hcredits, hdebits, sumOf_eq_zero List.not_mem_nil, hspec] at hamounts
          exact ⟨hspec ▸ hr.wf, hamounts.1, hamounts.2⟩

theorem amounts_runMovements {ms : List Movement} (hkey : key ≠ m256i.zero) :
    ∀ {s : Spectrum}, WellFormedSpectrum depth s → runMovements depth s ms = .ok s' →
      WellFormedSpectrum depth s' ∧
        AmountsAdded depth s s' key (receivedOf key ms) (paidOf depth key s ms) := by
  induction ms with
  | nil =>
      intro s hs h
      obtain rfl := Except.ok.inj h
      exact ⟨hs, (BitVec.add_zero _).symm, (BitVec.add_zero _).symm⟩
  | cons m ms ih =>
      intro s hs h
      rw [runMovements_cons, bind_eq_ok] at h
      obtain ⟨s₁, hm, hms⟩ := h
      obtain ⟨hs₁, hfirst⟩ := m.exec_amounts hs hkey hm
      obtain ⟨hs', hrest⟩ := ih hs₁ hms
      refine ⟨hs', ?_, ?_⟩
      · rw [hrest.incoming, hfirst.incoming, receivedOf, receivedOf, List.map_cons, List.sum_cons,
          BitVec.add_assoc]
      · rw [hrest.outgoing, hfirst.outgoing, paidOf, hm, BitVec.add_assoc]

end Amounts

end QubicBob
