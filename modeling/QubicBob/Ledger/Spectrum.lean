import QubicBob.Basic.LogEvent
import QubicBob.Lib.Probe

set_option autoImplicit false

/-! # The spectrum

The table of entities of `Entity.h`: an open-addressing table of `2 ^ depth` records
(`SPECTRUM_DEPTH` is 24 in the node), probed linearly from the slot given by the first four bytes
of the public key. A slot with the zero key is empty. The three handlers that move QUs
(`processQuTransfer`, `processDistributeDividends`, `processQuBurn`) are built on it.
-/

namespace QubicBob

open Probe

structure EntityRecord where
  publicKey : m256i
  incomingAmount : BitVec 64
  outgoingAmount : BitVec 64
  numberOfIncomingTransfers : BitVec 32
  numberOfOutgoingTransfers : BitVec 32
  latestIncomingTransferTick : BitVec 32
  latestOutgoingTransferTick : BitVec 32
  deriving DecidableEq, Repr

/-- The all-zero record. -/
def EntityRecord.empty : EntityRecord := ⟨0, 0, 0, 0, 0, 0, 0⟩

/-- The 64 bytes of a record. -/
def EntityRecord.bytes (r : EntityRecord) : List Byte :=
  r.publicKey.bytes ++ leBytes 8 r.incomingAmount ++ leBytes 8 r.outgoingAmount
    ++ leBytes 4 r.numberOfIncomingTransfers ++ leBytes 4 r.numberOfOutgoingTransfers
    ++ leBytes 4 r.latestIncomingTransferTick ++ leBytes 4 r.latestOutgoingTransferTick

/-- The array of records; the slots from `2 ^ depth` on are not used. -/
abbrev Spectrum := Nat → EntityRecord

/-- The home slot of a key in a table of `2 ^ depth` slots. -/
def homeSlot (depth : Nat) (key : m256i) : Nat := key.u32 &&& (2 ^ depth - 1)

theorem homeSlot_lt (depth : Nat) (key : m256i) : homeSlot depth key < 2 ^ depth :=
  and_mask_lt _ _

def energy (spectrum : Spectrum) (index : Nat) : BitVec 64 :=
  (spectrum index).incomingAmount - (spectrum index).outgoingAmount

/-- The slot where the probe loop of `increaseEnergy` and `spectrumIndex` stops: the key's own
slot, or an empty one. -/
def entityStop (spectrum : Spectrum) (publicKey : m256i) (i : Nat) : Bool :=
  (spectrum i).publicKey == publicKey || (spectrum i).publicKey.isZero

/-- The record of an entity that receives `amount`. -/
def EntityRecord.receive (r : EntityRecord) (amount : BitVec 64) (tick : BitVec 32) :
    EntityRecord :=
  { r with
    incomingAmount := r.incomingAmount + amount
    numberOfIncomingTransfers := r.numberOfIncomingTransfers + 1
    latestIncomingTransferTick := tick }

/-- The record of a new entity, written over the empty slot `r`. -/
def EntityRecord.create (r : EntityRecord) (publicKey : m256i) (amount : BitVec 64)
    (tick : BitVec 32) : EntityRecord :=
  { r with
    publicKey := publicKey
    incomingAmount := amount
    numberOfIncomingTransfers := 1
    latestIncomingTransferTick := tick }

/-- The record of an entity that pays `amount`. -/
def EntityRecord.pay (r : EntityRecord) (amount : BitVec 64) (tick : BitVec 32) : EntityRecord :=
  { r with
    outgoingAmount := r.outgoingAmount + amount
    numberOfOutgoingTransfers := r.numberOfOutgoingTransfers + 1
    latestOutgoingTransferTick := tick }

/-- Increase the balance of an entity. -/
def increaseEnergy (depth : Nat) (spectrum : Spectrum) (publicKey : m256i) (amount : BitVec 64)
    (tick : BitVec 32) : Except Halt Spectrum :=
  if publicKey.isZero = false ∧ 0 ≤ amount.toInt then do
    let index ← orDiverge (probe (entityStop spectrum publicKey) depth (homeSlot depth publicKey))
    -- the probe stops at the key or at an empty slot, which then becomes its record
    if (spectrum index).publicKey == publicKey then
      pure (Function.update spectrum index ((spectrum index).receive amount tick))
    else
      pure (Function.update spectrum index ((spectrum index).create publicKey amount tick))
  -- a zero key or a negative amount is passed over in silence
  else pure spectrum

/-- Decrease the balance of the entity at `index` if it is high enough. -/
def decreaseEnergy (spectrum : Spectrum) (index : Nat) (amount : BitVec 64) (tick : BitVec 32) :
    Spectrum × Bool :=
  if 0 ≤ amount.toInt ∧ amount.toInt ≤ (energy spectrum index).toInt then
    (Function.update spectrum index ((spectrum index).pay amount tick), true)
  else (spectrum, false)

/-- The slot of a key; `none` stands for the index `-1`. -/
def spectrumIndex (depth : Nat) (spectrum : Spectrum) (publicKey : m256i) :
    Except Halt (Option Nat) :=
  if publicKey.isZero then pure none
  else do
    let index ← orDiverge (probe (entityStop spectrum publicKey) depth (homeSlot depth publicKey))
    if (spectrum index).publicKey == publicKey then pure (some index) else pure none

/-! ## The handlers -/

/-- A transfer whose source cannot pay is only logged: the destination is credited all the same. -/
def processQuTransfer (depth : Nat) (spectrum : Spectrum) (le : LogEvent) :
    Except Halt Spectrum := do
  let qt := le.quTransfer
  let srcIdx ← spectrumIndex depth spectrum qt.sourcePublicKey
  -- a debit that fails is reported as critical and nothing more
  let spectrum := match srcIdx with
    | some i => (decreaseEnergy spectrum i qt.amount le.getTick).1
    | none => spectrum
  increaseEnergy depth spectrum qt.destinationPublicKey qt.amount le.getTick

/-- The `total` loop of `processDistributeDividends`; `none` when a source differs. -/
def dividendTotal (source : m256i) : List LogEvent → Option (BitVec 64)
  | [] => some 0
  | le :: vle =>
      if le.quTransfer.sourcePublicKey = source then
        (dividendTotal source vle).map (le.quTransfer.amount + ·)
      else none

/-- The crediting loop of `processDistributeDividends`. -/
def creditAll (depth : Nat) (tick : BitVec 32) :
    List LogEvent → Spectrum → Except Halt Spectrum
  | [], spectrum => pure spectrum
  | le :: vle, spectrum => do
      let spectrum ← increaseEnergy depth spectrum le.quTransfer.destinationPublicKey
        le.quTransfer.amount tick
      creditAll depth tick vle spectrum

/-- A dividend window: one payment of the total, then one credit per event. -/
def processDistributeDividends (depth : Nat) (spectrum : Spectrum) (vle : List LogEvent) :
    Except Halt (Spectrum × Bool) :=
  match vle with
  | [] => pure (spectrum, true)
  | first :: _ =>
      -- sanity check
      if vle.any (fun le => le.getType != QU_TRANSFER) then pure (spectrum, false)
      else match dividendTotal first.quTransfer.sourcePublicKey vle with
        | none => pure (spectrum, false)
        | some total => do
            match ← spectrumIndex depth spectrum first.quTransfer.sourcePublicKey with
            | none => pure (spectrum, false)
            | some i =>
                -- what `decreaseEnergy` returns is not looked at, and all credits carry the tick of
                -- the first event
                let spectrum ← creditAll depth first.getTick vle
                  (decreaseEnergy spectrum i total first.getTick).1
                pure (spectrum, true)

def processQuBurn (depth : Nat) (spectrum : Spectrum) (le : LogEvent) : Except Halt Spectrum := do
  let b := le.burning
  match ← spectrumIndex depth spectrum b.sourcePublicKey with
  | some i => pure (decreaseEnergy spectrum i b.amount le.getTick).1
  | none => pure spectrum

/-! ## What the operations change -/

/-- An increase either leaves the table alone or writes one record, stamped with the tick. -/
theorem increaseEnergy_cases {depth : Nat} {s s' : Spectrum} {key : m256i} {amount : BitVec 64}
    {tick : BitVec 32} (h : increaseEnergy depth s key amount tick = .ok s') :
    s' = s ∨ ∃ i r, i < 2 ^ depth ∧ s' = Function.update s i r ∧
      r.latestIncomingTransferTick = tick := by
  unfold increaseEnergy at h
  by_cases hc : key.isZero = false ∧ 0 ≤ amount.toInt
  · rw [if_pos hc, bind_eq_ok] at h
    obtain ⟨i, hi, h⟩ := h
    have hlt := probe_lt (homeSlot_lt depth key) (orDiverge_eq_ok.mp hi)
    right
    by_cases hk : ((s i).publicKey == key) = true
    · rw [if_pos hk] at h
      exact ⟨i, _, hlt, (Except.ok.inj h).symm, rfl⟩
    · rw [if_neg hk] at h
      exact ⟨i, _, hlt, (Except.ok.inj h).symm, rfl⟩
  · rw [if_neg hc] at h
    exact Or.inl (Except.ok.inj h).symm

/-- A decrease either fails and leaves the table alone, or writes one record, stamped with the
tick. -/
theorem decreaseEnergy_cases (s : Spectrum) (i : Nat) (amount : BitVec 64) (tick : BitVec 32) :
    (decreaseEnergy s i amount tick).1 = s ∨
      ∃ r, (decreaseEnergy s i amount tick).1 = Function.update s i r ∧
        r.latestOutgoingTransferTick = tick := by
  unfold decreaseEnergy
  split
  · exact Or.inr ⟨_, rfl, rfl⟩
  · exact Or.inl rfl

theorem all_transfers_iff {vle : List LogEvent} :
    vle.any (fun le => le.getType != QU_TRANSFER) = false ↔
      ∀ le ∈ vle, le.getType = QU_TRANSFER := by
  rw [List.any_eq_false]
  constructor
  · intro h le hle
    simpa using h le hle
  · intro h le hle
    simp [h le hle]

/-- A dividend window is dropped, or it holds transfers of one source that is in the table: then
the total is taken from the source and every event is credited. -/
theorem processDistributeDividends_cases {depth : Nat} {s s' : Spectrum} {vle : List LogEvent}
    {b : Bool} (h : processDistributeDividends depth s vle = .ok (s', b)) :
    s' = s ∨ ∃ first rest total i, vle = first :: rest ∧ (∀ le ∈ vle, le.getType = QU_TRANSFER) ∧
      dividendTotal first.quTransfer.sourcePublicKey vle = some total ∧
      spectrumIndex depth s first.quTransfer.sourcePublicKey = .ok (some i) ∧
      creditAll depth first.getTick vle (decreaseEnergy s i total first.getTick).1 = .ok s' := by
  have hdropped : ∀ {r : Bool}, (pure (s, r) : Except Halt (Spectrum × Bool)) = .ok (s', b) →
      s' = s := fun h => (Prod.mk.inj (Except.ok.inj h)).1.symm
  cases vle with
  | nil => exact Or.inl (hdropped h)
  | cons first rest =>
      unfold processDistributeDividends at h
      dsimp only at h
      split at h
      · exact Or.inl (hdropped h)
      -- past the sanity check; each of the next two lookups may still drop the window
      next hall =>
      cases htotal : dividendTotal first.quTransfer.sourcePublicKey (first :: rest) with
      | none =>
          rw [htotal] at h
          exact Or.inl (hdropped h)
      | some total =>
          rw [htotal] at h
          dsimp only at h
          rw [bind_eq_ok] at h
          obtain ⟨o, ho, h⟩ := h
          cases o with
          | none => exact Or.inl (hdropped h)
          | some i =>
              dsimp only at h
              rw [bind_eq_ok] at h
              obtain ⟨t, ht, h⟩ := h
              rw [(Prod.mk.inj (Except.ok.inj h)).1] at ht
              have htypes := all_transfers_iff.mp (Bool.eq_false_iff.mpr hall)
              exact Or.inr ⟨first, rest, total, i, rfl, htypes, htotal, ho, ht⟩

end QubicBob
