import QubicBob.Ledger.Spectrum
import Mathlib.Data.BitVec

set_option autoImplicit false

/-! # What applying a QU event means

`Debited` and `Credited` say what a payment does to the table of entities, in terms of the records
before and after. For each handler there is a condition on the table before the call (`canPay`,
`canReceive` and what is built from them) and a theorem that the handler applies its event exactly
under this condition. The handlers do not report it: a transfer that cannot be debited is credited
all the same, and a dividend window that fails its sanity check is dropped.

That a debit took place can be read off the number of outgoing transfers, which only a debit
changes; this is what the proofs of the converse directions use.
-/

namespace QubicBob

open Probe

/-! ## Effects -/

/-- A non-negative amount that its entity has is taken from it. -/
def Debited (depth : Nat) (s s' : Spectrum) (key : m256i) (amount : BitVec 64) (tick : BitVec 32) :
    Prop :=
  ∃ i, i < 2 ^ depth ∧ key ≠ m256i.zero ∧ (s i).publicKey = key ∧ 0 ≤ amount.toInt ∧
    amount.toInt ≤ (energy s i).toInt ∧ s' = Function.update s i ((s i).pay amount tick)

/-- A non-negative amount is added to an entity, or to a new one. -/
def Credited (depth : Nat) (s s' : Spectrum) (key : m256i) (amount : BitVec 64) (tick : BitVec 32) :
    Prop :=
  0 ≤ amount.toInt ∧ ∃ i, i < 2 ^ depth ∧
    ((s i).publicKey = key ∧ s' = Function.update s i ((s i).receive amount tick) ∨
      (s i).publicKey = m256i.zero ∧ s' = Function.update s i ((s i).create key amount tick))

/-- The zero key stands for no entity on either side of a transfer. -/
def DebitedUnlessZero (depth : Nat) (s s' : Spectrum) (key : m256i) (amount : BitVec 64)
    (tick : BitVec 32) : Prop :=
  key = m256i.zero ∧ s' = s ∨ key ≠ m256i.zero ∧ Debited depth s s' key amount tick

def CreditedUnlessZero (depth : Nat) (s s' : Spectrum) (key : m256i) (amount : BitVec 64)
    (tick : BitVec 32) : Prop :=
  key = m256i.zero ∧ s' = s ∨ key ≠ m256i.zero ∧ Credited depth s s' key amount tick

/-- The transfer of the event: source debited, destination credited. -/
def TransferApplied (depth : Nat) (s s' : Spectrum) (le : LogEvent) : Prop :=
  ∃ m, DebitedUnlessZero depth s m le.quTransfer.sourcePublicKey le.quTransfer.amount le.getTick ∧
    CreditedUnlessZero depth m s' le.quTransfer.destinationPublicKey le.quTransfer.amount le.getTick

def BurnApplied (depth : Nat) (s s' : Spectrum) (le : LogEvent) : Prop :=
  Debited depth s s' le.burning.sourcePublicKey le.burning.amount le.getTick

/-- Every event of the list is credited. -/
def CreditedAll (depth : Nat) (tick : BitVec 32) (s' : Spectrum) :
    List LogEvent → Spectrum → Prop
  | [], s => s' = s
  | le :: vle, s => ∃ m, CreditedUnlessZero depth s m le.quTransfer.destinationPublicKey
      le.quTransfer.amount tick ∧ CreditedAll depth tick s' vle m

/-- The events that change the ledger. -/
def needsApplying (le : LogEvent) : Bool :=
  le.getType == QU_TRANSFER || le.getType == BURNING || le.getType == ASSET_ISSUANCE
    || le.getType == ASSET_OWNERSHIP_CHANGE || le.getType == ASSET_POSSESSION_CHANGE
    || le.getType == ASSET_OWNERSHIP_MANAGING_CONTRACT_CHANGE
    || le.getType == ASSET_POSSESSION_MANAGING_CONTRACT_CHANGE

/-- The transfers of a window, whatever lies between them. -/
def windowTransfers (dd : List LogEvent) : List LogEvent :=
  dd.filter (fun le => le.getType == QU_TRANSFER)

/-- The sources of the transfers, each once. -/
def sourcesOf (ts : List LogEvent) : List m256i :=
  (ts.map (fun le => le.quTransfer.sourcePublicKey)).dedup

/-- What a source pays in a window. -/
def windowPayment (key : m256i) (vle : List LogEvent) : Int :=
  ((vle.filter (fun le => le.quTransfer.sourcePublicKey = key)).map
    (fun le => le.quTransfer.amount.toInt)).sum

/-- The same as the code sums it up, mod `2 ^ 64`. -/
def paidBy (key : m256i) (ts : List LogEvent) : BitVec 64 :=
  ((ts.filter (fun le => le.quTransfer.sourcePublicKey = key)).map
    (fun le => le.quTransfer.amount)).sum

/-- Each key of the list is debited what it pays in the window, the sum as an integer: a sum that
does not fit a `long long` is debited by no debit. -/
def DebitedSources (depth : Nat) (tick : BitVec 32) (ts : List LogEvent) (s' : Spectrum) :
    List m256i → Spectrum → Prop
  | [], s => s' = s
  | key :: keys, s => ∃ m amount, amount.toInt = windowPayment key ts ∧
      Debited depth s m key amount tick ∧ DebitedSources depth tick ts s' keys m

/-- The tick of the payments of a window. -/
def windowTick (dd : List LogEvent) : BitVec 32 := (dd.head?.map LogEvent.getTick).getD 0

/-- A dividend window: nothing but transfers is waiting to be applied in it, none of a negative
amount, each source has paid the total of its transfers and every transfer is credited. -/
def DividendsApplied (depth : Nat) (s s' : Spectrum) (dd : List LogEvent) : Prop :=
  (∀ le ∈ dd, needsApplying le = true → le.getType = QU_TRANSFER) ∧
  (∀ le ∈ windowTransfers dd, 0 ≤ le.quTransfer.amount.toInt) ∧
  ∃ m, DebitedSources depth (windowTick dd) (windowTransfers dd) m
      (sourcesOf (windowTransfers dd)) s ∧
    CreditedAll depth (windowTick dd) s' (windowTransfers dd) m

/-! ## Conditions on the table before the call -/

/-- The entity is in the table and has the amount. -/
def canPay (depth : Nat) (s : Spectrum) (key : m256i) (amount : BitVec 64) : Prop :=
  ∃ i, spectrumIndex depth s key = .ok (some i) ∧ 0 ≤ amount.toInt ∧
    amount.toInt ≤ (energy s i).toInt

/-- The amount is not negative and the probe for the entity finds it or an empty slot. -/
def canReceive (depth : Nat) (s : Spectrum) (key : m256i) (amount : BitVec 64) : Prop :=
  0 ≤ amount.toInt ∧ ∃ o, spectrumIndex depth s key = .ok o

def TransferReady (depth : Nat) (s : Spectrum) (le : LogEvent) : Prop :=
  (le.quTransfer.sourcePublicKey = m256i.zero ∨
    canPay depth s le.quTransfer.sourcePublicKey le.quTransfer.amount) ∧
  (le.quTransfer.destinationPublicKey = m256i.zero ∨
    canReceive depth s le.quTransfer.destinationPublicKey le.quTransfer.amount)

def BurnReady (depth : Nat) (s : Spectrum) (le : LogEvent) : Prop :=
  canPay depth s le.burning.sourcePublicKey le.burning.amount

/-- Each credit of the list finds its entity or an empty slot, in the table as the credits before
it leave it. -/
def CreditsReady (depth : Nat) (tick : BitVec 32) : List LogEvent → Spectrum → Prop
  | [], _ => True
  | le :: vle, s =>
      (le.quTransfer.destinationPublicKey = m256i.zero ∨
        canReceive depth s le.quTransfer.destinationPublicKey le.quTransfer.amount) ∧
      ∀ s', increaseEnergy depth s le.quTransfer.destinationPublicKey le.quTransfer.amount tick
        = .ok s' → CreditsReady depth tick vle s'

/-- Transfers of one source, none of a negative amount. -/
def PaidBySource (source : m256i) (dd : List LogEvent) : Prop :=
  ∀ le ∈ dd, le.getType = QU_TRANSFER ∧ le.quTransfer.sourcePublicKey = source ∧
    0 ≤ le.quTransfer.amount.toInt

/-- The window has nothing to apply, or only transfers of one source that has all it pays, the sum
as an integer, and whose credits find their slots. -/
def DividendsReady (depth : Nat) (s : Spectrum) (dd : List LogEvent) : Prop :=
  (∀ le ∈ dd, needsApplying le = false) ∨
  ∃ first rest i, dd = first :: rest ∧ PaidBySource first.quTransfer.sourcePublicKey dd ∧
    spectrumIndex depth s first.quTransfer.sourcePublicKey = .ok (some i) ∧
    windowPayment first.quTransfer.sourcePublicKey dd ≤ (energy s i).toInt ∧
    CreditsReady depth first.getTick dd (decreaseEnergy s i
      (BitVec.ofInt 64 (windowPayment first.quTransfer.sourcePublicKey dd)) first.getTick).1

/-! ## Lookups -/

section Lookup

variable {depth : Nat} {s s' m : Spectrum} {key : m256i} {amount : BitVec 64} {tick : BitVec 32}

theorem spectrumIndex_some {i : Nat} (h : spectrumIndex depth s key = .ok (some i)) :
    key ≠ m256i.zero ∧ i < 2 ^ depth ∧ (s i).publicKey = key := by
  unfold spectrumIndex at h
  by_cases hz : key.isZero = true
  · rw [if_pos hz] at h
    exact absurd (Except.ok.inj h) (by simp)
  rw [if_neg hz, bind_eq_ok] at h
  obtain ⟨x, hx, h⟩ := h
  have hlt := probe_lt (homeSlot_lt depth key) (orDiverge_eq_ok.mp hx)
  split at h
  · next hkey =>
      have hxi : x = i := Option.some.inj (Except.ok.inj h)
      rw [← hxi]
      exact ⟨fun hc => hz (m256i.isZero_iff.mpr hc), hlt, beq_iff_eq.mp hkey⟩
  · exact absurd (Except.ok.inj h) (by simp)

/-- The lookup of a key other than zero comes back when its probe does. -/
theorem spectrumIndex_ok_iff (hkey : key ≠ m256i.zero) :
    (∃ o, spectrumIndex depth s key = .ok o) ↔
      ∃ i, probe (entityStop s key) depth (homeSlot depth key) = some i := by
  have hz : ¬ key.isZero = true := fun hc => hkey (m256i.isZero_iff.mp hc)
  unfold spectrumIndex
  rw [if_neg hz]
  constructor
  · rintro ⟨o, ho⟩
    obtain ⟨i, hi, _⟩ := bind_eq_ok.mp ho
    exact ⟨i, orDiverge_eq_ok.mp hi⟩
  · rintro ⟨i, hi⟩
    rw [hi]
    simp only [orDiverge_some, bind, Except.bind]
    split
    · exact ⟨_, rfl⟩
    · exact ⟨_, rfl⟩

/-- Lookups only read the keys. -/
theorem entityStop_congr (h : ∀ i, (s' i).publicKey = (s i).publicKey) :
    entityStop s' key = entityStop s key := by
  funext i
  unfold entityStop
  rw [h]

theorem decreaseEnergy_keys (i : Nat) (j : Nat) :
    ((decreaseEnergy s i amount tick).1 j).publicKey = (s j).publicKey := by
  unfold decreaseEnergy
  split
  · dsimp only
    by_cases hj : j = i
    · rw [hj, Function.update_self]
      rfl
    · rw [Function.update_of_ne hj]
  · rfl

theorem canReceive_congr (h : ∀ i, (s' i).publicKey = (s i).publicKey) (hkey : key ≠ m256i.zero) :
    canReceive depth s' key amount ↔ canReceive depth s key amount := by
  unfold canReceive
  rw [spectrumIndex_ok_iff hkey, spectrumIndex_ok_iff hkey, entityStop_congr h]

/-! ## Increases -/

/-- What an increase of a key other than zero by a non-negative amount does. -/
theorem increaseEnergy_credited (hkey : key ≠ m256i.zero)
    (h : increaseEnergy depth s key amount tick = .ok s') (hamount : 0 ≤ amount.toInt) :
    Credited depth s s' key amount tick := by
  have hz : key.isZero = false := by
    rw [Bool.eq_false_iff]
    exact fun hc => hkey (m256i.isZero_iff.mp hc)
  unfold increaseEnergy at h
  rw [if_pos ⟨hz, hamount⟩, bind_eq_ok] at h
  obtain ⟨i, hi, h⟩ := h
  have hhome := homeSlot_lt depth key
  have hprobe := orDiverge_eq_ok.mp hi
  have hstop := probe_stop hhome hprobe
  refine ⟨hamount, i, probe_lt hhome hprobe, ?_⟩
  split at h
  · next hk => exact Or.inl ⟨beq_iff_eq.mp hk, (Except.ok.inj h).symm⟩
  · next hk =>
      unfold entityStop at hstop
      rw [Bool.or_eq_true] at hstop
      have hempty := hstop.resolve_left hk
      exact Or.inr ⟨m256i.isZero_iff.mp hempty, (Except.ok.inj h).symm⟩

theorem increaseEnergy_zero : increaseEnergy depth s m256i.zero amount tick = .ok s := by
  unfold increaseEnergy
  exact if_neg (fun hc => absurd hc.1 (by decide))

/-- A credit that can be received is made. -/
theorem increaseEnergy_returns (hkey : key ≠ m256i.zero) (h : canReceive depth s key amount) :
    ∃ s', increaseEnergy depth s key amount tick = .ok s' := by
  have hz : key.isZero = false := by
    rw [Bool.eq_false_iff]
    exact fun hc => hkey (m256i.isZero_iff.mp hc)
  obtain ⟨i, hi⟩ := (spectrumIndex_ok_iff hkey).mp h.2
  unfold increaseEnergy
  rw [if_pos ⟨hz, h.1⟩, hi]
  simp only [orDiverge_some, bind, Except.bind]
  split
  · exact ⟨_, rfl⟩
  · exact ⟨_, rfl⟩

/-- A credit that was made could be received. -/
theorem canReceive_of_increaseEnergy (hkey : key ≠ m256i.zero) (hamount : 0 ≤ amount.toInt)
    (h : increaseEnergy depth s key amount tick = .ok s') : canReceive depth s key amount := by
  have hz : key.isZero = false := by
    rw [Bool.eq_false_iff]
    exact fun hc => hkey (m256i.isZero_iff.mp hc)
  refine ⟨hamount, (spectrumIndex_ok_iff hkey).mpr ?_⟩
  unfold increaseEnergy at h
  rw [if_pos ⟨hz, hamount⟩, bind_eq_ok] at h
  obtain ⟨i, hi, _⟩ := h
  exact ⟨i, orDiverge_eq_ok.mp hi⟩

/-- Both cases of a destination at once. -/
theorem increaseEnergy_unlessZero
    (hready : key = m256i.zero ∨ canReceive depth s key amount) :
    ∃ s', increaseEnergy depth s key amount tick = .ok s' ∧
      CreditedUnlessZero depth s s' key amount tick := by
  by_cases hkey : key = m256i.zero
  · exact ⟨s, by rw [hkey]; exact increaseEnergy_zero, Or.inl ⟨hkey, rfl⟩⟩
  · have hrec := hready.resolve_left hkey
    obtain ⟨s', hs'⟩ : ∃ s', increaseEnergy depth s key amount tick = .ok s' :=
      increaseEnergy_returns hkey hrec
    exact ⟨s', hs', Or.inr ⟨hkey, increaseEnergy_credited hkey hs' hrec.1⟩⟩

/-! ## The number of outgoing transfers -/

/-- The two tables agree on the numbers of outgoing transfers. -/
def SameOutgoing (s s' : Spectrum) : Prop :=
  ∀ i, (s' i).numberOfOutgoingTransfers = (s i).numberOfOutgoingTransfers

theorem Credited.sameOutgoing (h : Credited depth s s' key amount tick) : SameOutgoing s s' := by
  intro j
  obtain ⟨_, i, _, ⟨_, hs'⟩ | ⟨_, hs'⟩⟩ := h
  · by_cases hj : j = i
    · rw [hs', hj, Function.update_self]
      rfl
    · rw [hs', Function.update_of_ne hj]
  · by_cases hj : j = i
    · rw [hs', hj, Function.update_self]
      rfl
    · rw [hs', Function.update_of_ne hj]

theorem CreditedUnlessZero.sameOutgoing (h : CreditedUnlessZero depth s s' key amount tick) :
    SameOutgoing s s' := by
  rcases h with ⟨_, rfl⟩ | ⟨_, h⟩
  · exact fun _ => rfl
  · exact h.sameOutgoing

theorem CreditedAll.sameOutgoing {vle : List LogEvent} :
    ∀ {s : Spectrum}, CreditedAll depth tick s' vle s → SameOutgoing s s' := by
  induction vle with
  | nil =>
      intro s h i
      rw [show s' = s from h]
  | cons le vle ih =>
      intro s h i
      obtain ⟨m, hm, hrest⟩ := h
      rw [ih hrest i, hm.sameOutgoing i]

theorem increaseEnergy_sameOutgoing (h : increaseEnergy depth s key amount tick = .ok s') :
    SameOutgoing s s' := by
  by_cases hc : key ≠ m256i.zero ∧ 0 ≤ amount.toInt
  · exact (increaseEnergy_credited hc.1 h hc.2).sameOutgoing
  · unfold increaseEnergy at h
    have hneg : ¬ (key.isZero = false ∧ 0 ≤ amount.toInt) := by
      rintro ⟨hz, ha⟩
      refine hc ⟨?_, ha⟩
      rintro rfl
      exact absurd hz (by decide)
    rw [if_neg hneg] at h
    rw [← Except.ok.inj h]
    exact fun _ => rfl

theorem creditAll_sameOutgoing {vle : List LogEvent} :
    ∀ {s : Spectrum}, creditAll depth tick vle s = .ok s' → SameOutgoing s s' := by
  induction vle with
  | nil =>
      intro s h i
      rw [Except.ok.inj h]
  | cons le vle ih =>
      intro s h i
      rw [creditAll, bind_eq_ok] at h
      obtain ⟨m, hm, hrest⟩ := h
      rw [ih hrest i, increaseEnergy_sameOutgoing hm i]

/-- A debit changes a number of outgoing transfers. -/
theorem Debited.not_sameOutgoing (h : Debited depth s m key amount tick) : ¬ SameOutgoing s m := by
  intro hsame
  obtain ⟨i, _, _, _, _, _, rfl⟩ := h
  have hi := hsame i
  rw [Function.update_self] at hi
  simp [EntityRecord.pay] at hi

/-- A debit leaves the entities of the other keys as they were. -/
theorem Debited.of_ne (h : Debited depth s m key amount tick) {i : Nat}
    (hi : (s i).publicKey ≠ key) : m i = s i := by
  obtain ⟨j, _, _, hj, _, _, rfl⟩ := h
  have hij : i ≠ j := by
    rintro rfl
    exact hi hj
  exact Function.update_of_ne hij _ _

theorem DebitedSources.of_not_mem {ts : List LogEvent} {keys : List m256i} {i : Nat} :
    ∀ {s : Spectrum}, DebitedSources depth tick ts s' keys s → (s i).publicKey ∉ keys →
      s' i = s i := by
  induction keys with
  | nil =>
      intro s h _
      rw [show s' = s from h]
  | cons key keys ih =>
      intro s h hi
      obtain ⟨m, _, _, hdeb, hrest⟩ := h
      rw [List.mem_cons, not_or] at hi
      have hm : m i = s i := hdeb.of_ne hi.1
      rw [ih hrest (by rw [hm]; exact hi.2), hm]

/-- Debiting distinct sources, one at least, changes a number of outgoing transfers. -/
theorem DebitedSources.not_sameOutgoing {ts : List LogEvent} {keys : List m256i}
    (hnodup : keys.Nodup) (hne : keys ≠ []) (h : DebitedSources depth tick ts s' keys s) :
    ¬ SameOutgoing s s' := by
  cases keys with
  | nil => exact absurd rfl hne
  | cons key keys =>
      obtain ⟨m, amount, _, hdeb, hrest⟩ := h
      obtain ⟨i, hlt, hkey, hpk, hamount, henough, rfl⟩ := hdeb
      intro hsame
      -- the slot of the first source is not touched again
      have hi : s' i = (s i).pay amount tick := by
        rw [hrest.of_not_mem, Function.update_self]
        rw [Function.update_self]
        rw [show ((s i).pay amount tick).publicKey = key from hpk]
        exact (List.nodup_cons.mp hnodup).1
      have hcount := hsame i
      rw [hi] at hcount
      simp [EntityRecord.pay] at hcount

theorem SameOutgoing.trans_symm (h₁ : SameOutgoing s s') (h₂ : SameOutgoing m s') :
    SameOutgoing s m := by
  intro i
  rw [← h₂ i, h₁ i]

/-- A decrease that has the amount is a debit. -/
theorem decreaseEnergy_debited {i : Nat} (hi : spectrumIndex depth s key = .ok (some i))
    (hamount : 0 ≤ amount.toInt) (henough : amount.toInt ≤ (energy s i).toInt) :
    Debited depth s (decreaseEnergy s i amount tick).1 key amount tick := by
  obtain ⟨hkey, hlt, hpk⟩ := spectrumIndex_some hi
  refine ⟨i, hlt, hkey, hpk, hamount, henough, ?_⟩
  unfold decreaseEnergy
  rw [if_pos ⟨hamount, henough⟩]

/-- A decrease that has not got the amount leaves the table alone. -/
theorem decreaseEnergy_failed {i : Nat}
    (h : ¬ (0 ≤ amount.toInt ∧ amount.toInt ≤ (energy s i).toInt)) :
    (decreaseEnergy s i amount tick).1 = s := by
  unfold decreaseEnergy
  rw [if_neg h]

end Lookup

/-! ## The handlers apply their events exactly when they are ready -/

section Handlers

variable {depth : Nat} {s : Spectrum}

/-- The debit of a transfer leaves the keys of the table. -/
theorem debit_keys {o : Option Nat} {amount : BitVec 64} {tick : BitVec 32} (j : Nat) :
    ((match o with
      | some i => (decreaseEnergy s i amount tick).1
      | none => s) j).publicKey = (s j).publicKey := by
  cases o with
  | none => rfl
  | some i => exact decreaseEnergy_keys i j

/-- A transfer is applied exactly when its source can pay and its destination can receive. -/
theorem processQuTransfer_applied_iff (le : LogEvent) :
    (∃ s', processQuTransfer depth s le = .ok s' ∧ TransferApplied depth s s' le) ↔
      TransferReady depth s le := by
  unfold TransferReady TransferApplied processQuTransfer
  generalize le.quTransfer = qt
  constructor
  · rintro ⟨s', hrun, m, hdebit, hcredit⟩
    rw [bind_eq_ok] at hrun
    obtain ⟨o, ho, hrun⟩ := hrun
    have hkeys := @debit_keys s o qt.amount le.getTick
    refine ⟨?_, ?_⟩
    · by_cases hsrc : qt.sourcePublicKey = m256i.zero
      · exact Or.inl hsrc
      right
      have hdeb : Debited depth s m qt.sourcePublicKey qt.amount le.getTick := by
        rcases hdebit with ⟨hz, _⟩ | ⟨_, hdeb⟩
        · exact absurd hz hsrc
        · exact hdeb
      -- without a debit the code could not have got to a table with one
      have hcontra : ∀ t, increaseEnergy depth t qt.destinationPublicKey qt.amount le.getTick
          = .ok s' → t ≠ s := by
        rintro t ht rfl
        exact hdeb.not_sameOutgoing
          ((increaseEnergy_sameOutgoing ht).trans_symm hcredit.sameOutgoing)
      cases o with
      | none => exact absurd rfl (hcontra _ hrun)
      | some i =>
          by_cases henough : 0 ≤ qt.amount.toInt ∧ qt.amount.toInt ≤ (energy s i).toInt
          · exact ⟨i, ho, henough.1, henough.2⟩
          · exact absurd (decreaseEnergy_failed henough) (hcontra _ hrun)
    · rcases hcredit with ⟨hz, _⟩ | ⟨hdst, hcred⟩
      · exact Or.inl hz
      · right
        exact (canReceive_congr hkeys hdst).mp (canReceive_of_increaseEnergy hdst hcred.1 hrun)
  · rintro ⟨hsrc, hdst⟩
    -- the debit
    obtain ⟨o, m, ho, hm, hdebit⟩ : ∃ o m, spectrumIndex depth s qt.sourcePublicKey = .ok o ∧
        m = (match o with
          | some i => (decreaseEnergy s i qt.amount le.getTick).1
          | none => s) ∧
        DebitedUnlessZero depth s m qt.sourcePublicKey qt.amount le.getTick := by
      by_cases hz : qt.sourcePublicKey = m256i.zero
      · exact ⟨none, s, by rw [hz]; rfl, rfl, Or.inl ⟨hz, rfl⟩⟩
      · obtain ⟨i, hi, hamount, henough⟩ := hsrc.resolve_left hz
        exact ⟨some i, _, hi, rfl, Or.inr ⟨hz, decreaseEnergy_debited hi hamount henough⟩⟩
    -- the credit looks up its entity in a table with the same keys
    have hkeys : ∀ j, (m j).publicKey = (s j).publicKey := by
      rw [hm]
      exact debit_keys
    have hdst' : qt.destinationPublicKey = m256i.zero ∨
        canReceive depth m qt.destinationPublicKey qt.amount := by
      by_cases hz : qt.destinationPublicKey = m256i.zero
      · exact Or.inl hz
      · exact Or.inr ((canReceive_congr hkeys hz).mpr (hdst.resolve_left hz))
    obtain ⟨s', hs', hcredit⟩ := increaseEnergy_unlessZero hdst'
    rw [hm] at hs'
    exact ⟨s', bind_eq_ok.mpr ⟨o, ho, hs'⟩, m, hdebit, hcredit⟩

/-- A burn is applied exactly when its source can pay. -/
theorem processQuBurn_applied_iff (le : LogEvent) :
    (∃ s', processQuBurn depth s le = .ok s' ∧ BurnApplied depth s s' le) ↔
      BurnReady depth s le := by
  unfold BurnReady BurnApplied processQuBurn
  generalize le.burning = b
  constructor
  · rintro ⟨s', hrun, hdeb⟩
    rw [bind_eq_ok] at hrun
    obtain ⟨o, ho, hrun⟩ := hrun
    have hcontra : s' ≠ s := by
      rintro rfl
      exact hdeb.not_sameOutgoing (fun _ => rfl)
    cases o with
    | none => exact absurd (Except.ok.inj hrun).symm hcontra
    | some i =>
        by_cases henough : 0 ≤ b.amount.toInt ∧ b.amount.toInt ≤ (energy s i).toInt
        · exact ⟨i, ho, henough.1, henough.2⟩
        · have heq : (decreaseEnergy s i b.amount le.getTick).1 = s' := Except.ok.inj hrun
          rw [decreaseEnergy_failed henough] at heq
          exact absurd heq.symm hcontra
  · rintro ⟨i, hi, hamount, henough⟩
    exact ⟨_, bind_eq_ok.mpr ⟨some i, hi, rfl⟩, decreaseEnergy_debited hi hamount henough⟩

/-- The crediting loop credits every event exactly when each credit finds its slot. -/
theorem creditAll_applied {tick : BitVec 32} {vle : List LogEvent} :
    ∀ {s : Spectrum}, CreditsReady depth tick vle s →
      ∃ s', creditAll depth tick vle s = .ok s' ∧ CreditedAll depth tick s' vle s := by
  induction vle with
  | nil =>
      intro s _
      exact ⟨s, rfl, rfl⟩
  | cons le vle ih =>
      intro s h
      obtain ⟨m, hm, hcred⟩ := increaseEnergy_unlessZero h.1
      obtain ⟨s', hs', hall⟩ := ih (h.2 m hm)
      exact ⟨s', bind_eq_ok.mpr ⟨m, hm, hs'⟩, m, hcred, hall⟩

theorem CreditedAll.amounts {tick : BitVec 32} {s' : Spectrum} {vle : List LogEvent} :
    ∀ {s : Spectrum}, CreditedAll depth tick s' vle s → ∀ le ∈ vle,
      le.quTransfer.destinationPublicKey = m256i.zero ∨ 0 ≤ le.quTransfer.amount.toInt := by
  induction vle with
  | nil => exact fun _ le hle => absurd hle (List.not_mem_nil)
  | cons le vle ih =>
      intro s h le' hle'
      obtain ⟨m, hcred, hrest⟩ := h
      rcases List.mem_cons.mp hle' with rfl | hle'
      · rcases hcred with ⟨hz, _⟩ | ⟨_, hc⟩
        · exact Or.inl hz
        · exact Or.inr hc.1
      · exact ih hrest le' hle'

theorem creditsReady_of_creditAll {tick : BitVec 32} {s' : Spectrum} {vle : List LogEvent}
    (hamounts : ∀ le ∈ vle,
      le.quTransfer.destinationPublicKey = m256i.zero ∨ 0 ≤ le.quTransfer.amount.toInt) :
    ∀ {s : Spectrum}, creditAll depth tick vle s = .ok s' → CreditsReady depth tick vle s := by
  induction vle with
  | nil => exact fun _ => trivial
  | cons le vle ih =>
      intro s h
      rw [creditAll, bind_eq_ok] at h
      obtain ⟨m, hm, hrest⟩ := h
      refine ⟨?_, ?_⟩
      · by_cases hz : le.quTransfer.destinationPublicKey = m256i.zero
        · exact Or.inl hz
        · exact Or.inr (canReceive_of_increaseEnergy hz
            ((hamounts le List.mem_cons_self).resolve_left hz) hm)
      · intro m' hm'
        rw [hm] at hm'
        rw [← Except.ok.inj hm']
        exact ih (fun le' hle' => hamounts le' (List.mem_cons_of_mem _ hle')) hrest

theorem windowTransfers_eq_self {dd : List LogEvent} (h : ∀ le ∈ dd, le.getType = QU_TRANSFER) :
    windowTransfers dd = dd := by
  unfold windowTransfers
  rw [List.filter_eq_self]
  intro le hle
  simp [h le hle]

/-! What the source of a window pays, as the code sums it up and as an integer. -/

section payment

variable {source : m256i} {le : LogEvent} {vle : List LogEvent}

theorem paidBy_cons (h : le.quTransfer.sourcePublicKey = source) :
    paidBy source (le :: vle) = le.quTransfer.amount + paidBy source vle := by
  simp [paidBy, h]

theorem paidBy_cons_of_ne (h : le.quTransfer.sourcePublicKey ≠ source) :
    paidBy source (le :: vle) = paidBy source vle := by
  simp [paidBy, h]

theorem windowPayment_cons (h : le.quTransfer.sourcePublicKey = source) :
    windowPayment source (le :: vle) =
      le.quTransfer.amount.toInt + windowPayment source vle := by
  simp [windowPayment, h]

theorem windowPayment_cons_of_ne (h : le.quTransfer.sourcePublicKey ≠ source) :
    windowPayment source (le :: vle) = windowPayment source vle := by
  simp [windowPayment, h]

theorem windowPayment_nonneg (h : ∀ le ∈ vle, 0 ≤ le.quTransfer.amount.toInt) :
    0 ≤ windowPayment source vle := by
  refine List.sum_nonneg (fun a ha => ?_)
  obtain ⟨le, hle, rfl⟩ := List.mem_map.mp ha
  exact h le (List.mem_of_mem_filter hle)

/-- A payment that fits a `long long` is summed up without wrapping around. -/
theorem toInt_paidBy (hamounts : ∀ le ∈ vle, 0 ≤ le.quTransfer.amount.toInt)
    (hlt : windowPayment source vle < 2 ^ 63) :
    (paidBy source vle).toInt = windowPayment source vle := by
  induction vle with
  | nil => rfl
  | cons le vle ih =>
      rw [List.forall_mem_cons] at hamounts
      by_cases hkey : le.quTransfer.sourcePublicKey = source
      · have hnonneg : 0 ≤ windowPayment source vle := windowPayment_nonneg hamounts.2
        rw [windowPayment_cons hkey] at hlt ⊢
        have hrest := ih hamounts.2 (by omega)
        rw [paidBy_cons hkey, toInt_add_of_lt hamounts.1 (by omega) (by omega), hrest]
      · rw [windowPayment_cons_of_ne hkey] at hlt ⊢
        rw [paidBy_cons_of_ne hkey]
        exact ih hamounts.2 hlt

theorem paidBy_eq_ofInt (hamounts : ∀ le ∈ vle, 0 ≤ le.quTransfer.amount.toInt)
    (hlt : windowPayment source vle < 2 ^ 63) :
    paidBy source vle = BitVec.ofInt 64 (windowPayment source vle) := by
  rw [← toInt_paidBy hamounts hlt, BitVec.ofInt_toInt]

end payment

/-- The total loop succeeds exactly on transfers of one source, with what this source pays. -/
theorem dividendTotal_eq_some_iff {key : m256i} {ts : List LogEvent} : ∀ {total : BitVec 64},
    dividendTotal key ts = some total ↔
      (∀ le ∈ ts, le.quTransfer.sourcePublicKey = key) ∧ total = paidBy key ts := by
  induction ts with
  | nil =>
      intro total
      rw [dividendTotal, Option.some_inj, eq_comm]
      exact ⟨fun h => ⟨fun _ hle => absurd hle List.not_mem_nil, h⟩, fun h => h.2⟩
  | cons le ts ih =>
      intro total
      unfold dividendTotal
      -- one event of another source and there is no total at all
      by_cases hkey : le.quTransfer.sourcePublicKey = key
      · rw [if_pos hkey, Option.map_eq_some_iff]
        rw [paidBy_cons hkey, List.forall_mem_cons]
        constructor
        · rintro ⟨rest, hrest, rfl⟩
          obtain ⟨hall, rfl⟩ := ih.mp hrest
          exact ⟨⟨hkey, hall⟩, rfl⟩
        · rintro ⟨⟨_, hall⟩, rfl⟩
          exact ⟨paidBy key ts, ih.mpr ⟨hall, rfl⟩, rfl⟩
      · rw [if_neg hkey]
        constructor
        · intro h
          exact absurd h (by simp)
        · rintro ⟨hall, _⟩
          exact absurd (hall le List.mem_cons_self) hkey

theorem sourcesOf_eq_singleton {key : m256i} {le : LogEvent} {ts : List LogEvent}
    (h : ∀ e ∈ le :: ts, e.quTransfer.sourcePublicKey = key) : sourcesOf (le :: ts) = [key] := by
  have hmap : (le :: ts).map (fun e => e.quTransfer.sourcePublicKey)
      = List.replicate (ts.length + 1) key := by
    rw [List.eq_replicate_iff]
    refine ⟨by simp, ?_⟩
    intro k hk
    obtain ⟨e, he, rfl⟩ := List.mem_map.mp hk
    exact h e he
  unfold sourcesOf
  rw [hmap]
  exact List.replicate_dedup (Nat.succ_ne_zero _)

/-- A window with nothing to apply has no transfers. -/
theorem windowTransfers_eq_nil {dd : List LogEvent} (h : ∀ le ∈ dd, needsApplying le = false) :
    windowTransfers dd = [] := by
  unfold windowTransfers
  rw [List.filter_eq_nil_iff]
  intro le hle htype
  have hno := h le hle
  rw [show needsApplying le = true by simp [needsApplying, eq_of_beq htype]] at hno
  exact absurd hno (by decide)

/-- A window with nothing to apply is applied by doing nothing, which is what the handler does. -/
theorem processDistributeDividends_of_nothing {dd : List LogEvent}
    (h : ∀ le ∈ dd, needsApplying le = false) :
    (∃ b, processDistributeDividends depth s dd = .ok (s, b)) ∧ DividendsApplied depth s s dd := by
  refine ⟨?_, ?_, ?_, s, ?_, ?_⟩
  · cases dd with
    | nil => exact ⟨true, rfl⟩
    | cons first rest =>
        have hbad : (first :: rest).any (fun le => le.getType != QU_TRANSFER) = true := by
          have hfirst := h first List.mem_cons_self
          simp only [needsApplying, Bool.or_eq_false_iff, beq_eq_false_iff_ne] at hfirst
          simp [hfirst.1.1.1.1.1.1]
        refine ⟨false, ?_⟩
        simp only [processDistributeDividends, hbad, if_true]
        rfl
  · intro le hle hyes
    rw [h le hle] at hyes
    exact absurd hyes (by decide)
  · rw [windowTransfers_eq_nil h]
    exact fun _ hle => absurd hle List.not_mem_nil
  · rw [windowTransfers_eq_nil h]
    rfl
  · rw [windowTransfers_eq_nil h]
    rfl

/-- A window that is applied and has something to apply debits a source. -/
theorem DividendsApplied.not_sameOutgoing {s' : Spectrum} {dd : List LogEvent}
    (h : DividendsApplied depth s s' dd) (hsome : ∃ le ∈ dd, needsApplying le = true) :
    ¬ SameOutgoing s s' := by
  obtain ⟨honly, _, m, hdeb, hcred⟩ := h
  obtain ⟨le, hle, hyes⟩ := hsome
  have hsources : sourcesOf (windowTransfers dd) ≠ [] := by
    apply List.ne_nil_of_mem (a := le.quTransfer.sourcePublicKey)
    apply List.mem_dedup.mpr
    refine List.mem_map_of_mem (List.mem_filter.mpr ⟨hle, ?_⟩)
    simp [honly le hle hyes]
  intro hsame
  exact hdeb.not_sameOutgoing (List.nodup_dedup _) hsources (hsame.trans_symm hcred.sameOutgoing)

/-- The energy of an entity fits a `long long`, and so does what it can pay. -/
theorem windowPayment_lt {source : m256i} {vle : List LogEvent} {i : Nat}
    (h : windowPayment source vle ≤ (energy s i).toInt) : windowPayment source vle < 2 ^ 63 := by
  have hmax := BitVec.toInt_lt (x := energy s i)
  norm_num at hmax ⊢
  omega

/-- A dividend window is applied exactly when it has nothing to apply, or only transfers of one
source that has what they come to. -/
theorem processDistributeDividends_applied_iff (dd : List LogEvent) :
    (∃ s' b, processDistributeDividends depth s dd = .ok (s', b) ∧
      DividendsApplied depth s s' dd) ↔ DividendsReady depth s dd := by
  constructor
  · rintro ⟨s', b, hrun, happ⟩
    by_cases hnone : ∀ le ∈ dd, needsApplying le = false
    · exact Or.inl hnone
    right
    push Not at hnone
    have hcontra := happ.not_sameOutgoing (by simpa using hnone)
    rcases processDistributeDividends_cases hrun with
      rfl | ⟨first, rest, total, i, rfl, htypes, htotal, hi, hcr⟩
    · exact absurd (fun _ => rfl) hcontra
    · obtain ⟨hsources, rfl⟩ := dividendTotal_eq_some_iff.mp htotal
      obtain ⟨_, hamounts, m, hdeb, hcred⟩ := happ
      rw [windowTransfers_eq_self htypes] at hamounts hcred hdeb
      -- the one debit holds the payment, so the code has not wrapped around
      rw [sourcesOf_eq_singleton hsources] at hdeb
      obtain ⟨_, amount, hamount, hdebit, _⟩ := hdeb
      obtain ⟨j, _, _, _, _, henergy, _⟩ := hdebit
      rw [hamount] at henergy
      have hlt : windowPayment first.quTransfer.sourcePublicKey (first :: rest) < 2 ^ 63 :=
        windowPayment_lt henergy
      have hpaid := toInt_paidBy hamounts hlt
      refine ⟨first, rest, i, rfl, fun le hle => ⟨htypes le hle, hsources le hle, hamounts le hle⟩,
        hi, ?_, ?_⟩
      -- a source without the money is not debited, and the credits do not make up for it
      · by_contra hless
        rw [decreaseEnergy_failed (fun h => hless (hpaid ▸ h.2))] at hcr
        exact hcontra (creditAll_sameOutgoing hcr)
      · rw [← paidBy_eq_ofInt hamounts hlt]
        exact creditsReady_of_creditAll hcred.amounts hcr
  · rintro (hnone | ⟨first, rest, i, rfl, hwin, hi, henough, hcredits⟩)
    · obtain ⟨⟨b, hrun⟩, happ⟩ := processDistributeDividends_of_nothing hnone
      exact ⟨s, b, hrun, happ⟩
    · have htypes : ∀ le ∈ first :: rest, le.getType = QU_TRANSFER := fun le hle => (hwin le hle).1
      have hsources : ∀ le ∈ first :: rest, le.quTransfer.sourcePublicKey =
          first.quTransfer.sourcePublicKey := fun le hle => (hwin le hle).2.1
      have hamounts : ∀ le ∈ first :: rest, 0 ≤ le.quTransfer.amount.toInt :=
        fun le hle => (hwin le hle).2.2
      have hlt : windowPayment first.quTransfer.sourcePublicKey (first :: rest) < 2 ^ 63 :=
        windowPayment_lt henough
      have hpaid := toInt_paidBy hamounts hlt
      rw [← paidBy_eq_ofInt hamounts hlt] at hcredits
      obtain ⟨s', hs', hcred⟩ := creditAll_applied hcredits
      refine ⟨s', true, ?_, fun le hle _ => htypes le hle, ?_, (decreaseEnergy s i
        (paidBy first.quTransfer.sourcePublicKey (first :: rest)) first.getTick).1, ?_, ?_⟩
      · simp only [processDistributeDividends, all_transfers_iff.mpr htypes,
          dividendTotal_eq_some_iff.mpr ⟨hsources, rfl⟩, Bool.false_eq_true, if_false]
        rw [hi]
        simp only [bind, Except.bind, hs']
        rfl
      · rw [windowTransfers_eq_self htypes]
        exact hamounts
      · rw [windowTransfers_eq_self htypes, sourcesOf_eq_singleton hsources]
        have hnonneg : 0 ≤ windowPayment first.quTransfer.sourcePublicKey (first :: rest) :=
          windowPayment_nonneg hamounts
        rw [← hpaid] at henough hnonneg
        exact ⟨_, _, hpaid, decreaseEnergy_debited hi hnonneg henough, rfl⟩
      · rw [windowTransfers_eq_self htypes]
        exact hcred

end Handlers

end QubicBob
