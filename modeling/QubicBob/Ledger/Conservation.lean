import QubicBob.Ledger.SpectrumMap
import Mathlib.Algebra.BigOperators.Group.Finset.Basic
import Mathlib.Algebra.Order.BigOperators.Group.Finset

set_option autoImplicit false

/-! # Conservation of QUs

The total of the energies in the table, over runs of transfers, burns and dividend windows. Energies
are 64-bit numbers and the total is an integer: while it stays below `2 ^ 63`, no energy wraps around
and each event changes the total by what comes in from the zero key, what is burned, and what goes
out to the zero key.

The zero key is special in more than one way: as the source of a transfer it makes QUs, as the source
of a burn it does nothing, and a window from it is refused as a whole.
-/

namespace QubicBob

open Probe

/-! ## The total -/

def totalEnergy (depth : Nat) (s : Spectrum) : Int :=
  ∑ i ∈ Finset.range (2 ^ depth), (energy s i).toInt

/-- A well-formed table without negative energies. -/
structure Solvent (depth : Nat) (s : Spectrum) : Prop where
  wf : WellFormedSpectrum depth s
  nonneg : ∀ i, i < 2 ^ depth → 0 ≤ (energy s i).toInt

section total

variable {depth i : Nat} {s : Spectrum} {key : m256i} {amount : BitVec 64} {tick : BitVec 32}

/-- The energy of a record. -/
def EntityRecord.energy (r : EntityRecord) : BitVec 64 := r.incomingAmount - r.outgoingAmount

theorem energy_eq (s : Spectrum) (i : Nat) : energy s i = (s i).energy := rfl

theorem energy_update (s : Spectrum) (i j : Nat) (r : EntityRecord) :
    energy (Function.update s i r) j = if j = i then r.energy else energy s j := by
  rw [energy_eq]
  by_cases hj : j = i
  · rw [if_pos hj, hj, Function.update_self]
  · rw [if_neg hj, Function.update_of_ne hj]
    rfl

/-- A new record changes the total by its energy less that of the record before it. -/
theorem totalEnergy_update (hi : i < 2 ^ depth) (r : EntityRecord) :
    totalEnergy depth (Function.update s i r) =
      totalEnergy depth s - (energy s i).toInt + r.energy.toInt := by
  have hmem : i ∈ Finset.range (2 ^ depth) := Finset.mem_range.mpr hi
  unfold totalEnergy
  rw [← Finset.add_sum_erase _ _ hmem, ← Finset.add_sum_erase _ (fun j => (energy s j).toInt) hmem]
  have hrest : ∑ j ∈ (Finset.range (2 ^ depth)).erase i,
      (energy (Function.update s i r) j).toInt =
        ∑ j ∈ (Finset.range (2 ^ depth)).erase i, (energy s j).toInt := by
    refine Finset.sum_congr rfl (fun j hj => ?_)
    rw [energy_update, if_neg (Finset.ne_of_mem_erase hj)]
  rw [hrest, energy_update, if_pos rfl]
  ring

/-- No entity has more than there is. -/
theorem Solvent.energy_le_total (hs : Solvent depth s) (hi : i < 2 ^ depth) :
    (energy s i).toInt ≤ totalEnergy depth s := by
  unfold totalEnergy
  exact Finset.single_le_sum (fun j hj => hs.nonneg j (Finset.mem_range.mp hj))
    (Finset.mem_range.mpr hi)

theorem energy_receive (r : EntityRecord) :
    (r.receive amount tick).energy = r.energy + amount := by
  unfold EntityRecord.energy EntityRecord.receive
  exact add_sub_right_comm _ _ _

theorem energy_pay (r : EntityRecord) : (r.pay amount tick).energy = r.energy - amount := by
  unfold EntityRecord.energy EntityRecord.pay
  exact sub_add_eq_sub_sub _ _ _

theorem energy_create : (EntityRecord.empty.create key amount tick).energy = amount := by
  unfold EntityRecord.energy EntityRecord.create EntityRecord.empty
  exact sub_zero _

/-- Replacing one record keeps the other energies. -/
theorem nonneg_update (hs : Solvent depth s) {r : EntityRecord} (hr : 0 ≤ r.energy.toInt) :
    ∀ j, j < 2 ^ depth → 0 ≤ (energy (Function.update s i r) j).toInt := by
  intro j hj
  rw [energy_update]
  by_cases hji : j = i
  · rw [if_pos hji]
    exact hr
  · rw [if_neg hji]
    exact hs.nonneg j hj

/-! ## Debits -/

/-- A payment that its entity can make. -/
theorem Solvent.pay (hs : Solvent depth s) (hi : i < 2 ^ depth)
    (hkey : (s i).publicKey ≠ m256i.zero) (hamount : 0 ≤ amount.toInt)
    (hpay : amount.toInt ≤ (energy s i).toInt) (tick : BitVec 32) :
    ∃ s', decreaseEnergy s i amount tick = (s', true) ∧ Solvent depth s' ∧
      (∀ j, (s' j).publicKey = (s j).publicKey) ∧
      totalEnergy depth s' = totalEnergy depth s - amount.toInt := by
  have henergy : ((s i).pay amount tick).energy.toInt = (energy s i).toInt - amount.toInt := by
    rw [energy_pay, ← energy_eq, toInt_sub_of_le hamount hpay]
  refine ⟨Function.update s i ((s i).pay amount tick), ?_, ⟨?_, ?_⟩, ?_, ?_⟩
  · rw [decreaseEnergy, if_pos ⟨hamount, hpay⟩]
  · exact hs.wf.update rfl hkey
  · exact nonneg_update hs (by omega)
  · intro j
    by_cases hj : j = i
    · rw [hj, Function.update_self]
      rfl
    · rw [Function.update_of_ne hj]
  · rw [totalEnergy_update hi, henergy]
    ring

/-! ## Free slots -/

def freeSlots (depth : Nat) (s : Spectrum) : Finset Nat :=
  (Finset.range (2 ^ depth)).filter (fun i => (s i).publicKey = m256i.zero)

theorem mem_freeSlots : i ∈ freeSlots depth s ↔ i < 2 ^ depth ∧ (s i).publicKey = m256i.zero := by
  rw [freeSlots, Finset.mem_filter, Finset.mem_range]

/-- The keys of the list that have no slot yet are at most as many as the free slots. -/
def EnoughFree (depth : Nat) (s : Spectrum) (keys : List m256i) : Prop :=
  ∀ new : Finset m256i, (∀ k ∈ new, k ∈ keys ∧ k ≠ m256i.zero ∧ ¬ HasEntity depth s k) →
    new.card ≤ (freeSlots depth s).card

theorem EnoughFree.subset {keys keys' : List m256i} (h : EnoughFree depth s keys)
    (hsub : ∀ k ∈ keys', k ∈ keys) : EnoughFree depth s keys' :=
  fun new hnew => h new (fun k hk => ⟨hsub k (hnew k hk).1, (hnew k hk).2⟩)

/-- Free slots and entities are read off the keys alone. -/
theorem EnoughFree.congr {s' : Spectrum} {keys : List m256i}
    (hkeys : ∀ j, (s' j).publicKey = (s j).publicKey) (h : EnoughFree depth s keys) :
    EnoughFree depth s' keys := by
  unfold EnoughFree freeSlots HasEntity at h ⊢
  simp only [hkeys]
  exact h

theorem EnoughFree.hasFreeSlot {keys : List m256i} (h : EnoughFree depth s (key :: keys))
    (hkey : key ≠ m256i.zero) (habsent : ¬ HasEntity depth s key) : HasFreeSlot depth s := by
  have hone := h {key} (fun k hk => by
    rw [Finset.mem_singleton.mp hk]
    exact ⟨List.mem_cons_self, hkey, habsent⟩)
  rw [Finset.card_singleton] at hone
  obtain ⟨i, hi⟩ := Finset.card_pos.mp hone
  exact ⟨i, (mem_freeSlots.mp hi).1, (mem_freeSlots.mp hi).2⟩

/-- A new entity takes one free slot and is no longer a key without a slot. -/
theorem EnoughFree.newEntity {keys : List m256i} {r : EntityRecord}
    (h : EnoughFree depth s (key :: keys)) (hkey : key ≠ m256i.zero)
    (habsent : ¬ HasEntity depth s key) (hi : i < 2 ^ depth)
    (hzero : (s i).publicKey = m256i.zero) (hr : r.publicKey = key) :
    EnoughFree depth (Function.update s i r) keys := by
  intro new hnew
  have hsame : ∀ k, k ≠ m256i.zero →
      (HasEntity depth (Function.update s i r) k ↔ HasEntity depth s k ∨ r.publicKey = k) :=
    fun k hk => hasEntity_insert hi hzero hk
  have hnotmem : key ∉ new := by
    intro hmem
    obtain ⟨-, -, hnot⟩ := hnew key hmem
    exact hnot ((hsame key hkey).mpr (Or.inr hr))
  have hbefore := h (insert key new) (fun k hk => by
    rcases Finset.mem_insert.mp hk with rfl | hk
    · exact ⟨List.mem_cons_self, hkey, habsent⟩
    · obtain ⟨hk₁, hk₂, hk₃⟩ := hnew k hk
      refine ⟨List.mem_cons_of_mem _ hk₁, hk₂, fun hhas => ?_⟩
      exact hk₃ ((hsame k hk₂).mpr (Or.inl hhas)))
  have hfree : freeSlots depth (Function.update s i r) = (freeSlots depth s).erase i := by
    ext j
    rw [mem_freeSlots, Finset.mem_erase, mem_freeSlots]
    by_cases hj : j = i
    · rw [hj, Function.update_self, hr]
      simp [hkey]
    · rw [Function.update_of_ne hj]
      simp [hj]
  have hmem : i ∈ freeSlots depth s := mem_freeSlots.mpr ⟨hi, hzero⟩
  rw [Finset.card_insert_of_notMem hnotmem] at hbefore
  rw [hfree, Finset.card_erase_of_mem hmem]
  omega

/-! ## Credits -/

/-- What a credit adds to the total. -/
def creditedAmount (key : m256i) (amount : BitVec 64) : Int :=
  if key = m256i.zero then 0 else amount.toInt

theorem creditedAmount_nonneg (hamount : 0 ≤ amount.toInt) : 0 ≤ creditedAmount key amount := by
  unfold creditedAmount
  split
  · exact le_refl 0
  · exact hamount

/-- A credit that leaves the total below `2 ^ 63`. -/
theorem Solvent.credit {keys : List m256i} (hs : Solvent depth s)
    (hfree : EnoughFree depth s (key :: keys)) (hamount : 0 ≤ amount.toInt)
    (htotal : totalEnergy depth s + creditedAmount key amount < 2 ^ 63) (tick : BitVec 32) :
    ∃ s', increaseEnergy depth s key amount tick = .ok s' ∧ Solvent depth s' ∧
      EnoughFree depth s' keys ∧
      totalEnergy depth s' = totalEnergy depth s + creditedAmount key amount := by
  unfold creditedAmount at htotal ⊢
  by_cases hkey : key = m256i.zero
  · rw [if_pos hkey, hkey, add_zero]
    exact ⟨s, increaseEnergy_zero, hs, hfree.subset (fun k hk => List.mem_cons_of_mem _ hk), rfl⟩
  rw [if_neg hkey] at htotal ⊢
  obtain ⟨i, hi, ⟨hik, heq⟩ | ⟨habsent, hempty, hprobe, heq⟩⟩ :=
    increaseEnergy_eq hs.wf (hfree.hasFreeSlot hkey) hkey hamount tick
  · have hbound := hs.energy_le_total hi
    have henergy : ((s i).receive amount tick).energy.toInt =
        (energy s i).toInt + amount.toInt := by
      rw [energy_receive, ← energy_eq, toInt_add_of_lt (hs.nonneg i hi) hamount (by omega)]
    have hnonneg := hs.nonneg i hi
    refine ⟨_, heq, ⟨hs.wf.update rfl (hik ▸ hkey), nonneg_update hs (by omega)⟩, ?_, ?_⟩
    · refine (hfree.subset (fun k hk => List.mem_cons_of_mem _ hk)).congr (fun j => ?_)
      by_cases hj : j = i
      · rw [hj, Function.update_self]
        rfl
      · rw [Function.update_of_ne hj]
    · rw [totalEnergy_update hi, henergy]
      ring
  · have hzero : (s i).publicKey = m256i.zero := by
      rw [hempty]
      rfl
    have hold : (energy s i).toInt = 0 := by
      rw [energy_eq, hempty]
      rfl
    refine ⟨_, heq, ⟨hs.wf.insert hkey habsent hprobe rfl, nonneg_update hs ?_⟩, ?_, ?_⟩
    · rw [energy_create]
      exact hamount
    · exact hfree.newEntity hkey habsent hi hzero rfl
    · rw [totalEnergy_update hi, hold, energy_create]
      ring

/-- The credits of a window. -/
def creditedTotal (vle : List LogEvent) : Int :=
  (vle.map (fun le => creditedAmount le.quTransfer.destinationPublicKey le.quTransfer.amount)).sum

theorem Solvent.creditAll {keys : List m256i} {vle : List LogEvent} (hs : Solvent depth s)
    (hfree : EnoughFree depth s (vle.map (fun le => le.quTransfer.destinationPublicKey) ++ keys))
    (hamounts : ∀ le ∈ vle, 0 ≤ le.quTransfer.amount.toInt)
    (htotal : totalEnergy depth s + creditedTotal vle < 2 ^ 63) :
    ∃ s', QubicBob.creditAll depth tick vle s = .ok s' ∧ Solvent depth s' ∧
      EnoughFree depth s' keys ∧
      totalEnergy depth s' = totalEnergy depth s + creditedTotal vle := by
  induction vle generalizing s with
  | nil =>
      refine ⟨s, rfl, hs, hfree, ?_⟩
      simp [creditedTotal]
  | cons le vle ih =>
      rw [creditedTotal, List.map_cons, List.sum_cons, ← creditedTotal] at htotal ⊢
      rw [List.forall_mem_cons] at hamounts
      have hrest : 0 ≤ creditedTotal vle := by
        refine List.sum_nonneg (fun x hx => ?_)
        obtain ⟨le', hle', rfl⟩ := List.mem_map.mp hx
        exact creditedAmount_nonneg (hamounts.2 le' hle')
      have hhead : EnoughFree depth s (le.quTransfer.destinationPublicKey ::
          (vle.map (fun le => le.quTransfer.destinationPublicKey) ++ keys)) := hfree
      obtain ⟨m, hm, hms, hmfree, hmtotal⟩ := hs.credit hhead hamounts.1 (by omega) tick
      obtain ⟨s', hs', hss, hsfree, hstotal⟩ := ih hms hmfree hamounts.2 (by omega)
      refine ⟨s', ?_, hss, hsfree, by omega⟩
      rw [QubicBob.creditAll, hm]
      exact hs'

end total

/-! ## Events -/

/-- The events that move QUs, as the simulation hands them to their handlers. -/
inductive QuEvent where
  | transfer (le : LogEvent)
  | burn (le : LogEvent)
  | dividends (vle : List LogEvent)

namespace QuEvent

def apply (depth : Nat) (s : Spectrum) : QuEvent → Except Halt Spectrum
  | .transfer le => processQuTransfer depth s le
  | .burn le => processQuBurn depth s le
  -- the simulation does not look at the result of a window
  | .dividends vle => do
      let r ← processDistributeDividends depth s vle
      pure r.1

/-- The keys an event may credit. -/
def destinations : QuEvent → List m256i
  | .transfer le => [le.quTransfer.destinationPublicKey]
  | .burn _ => []
  | .dividends vle => vle.map (fun le => le.quTransfer.destinationPublicKey)

end QuEvent

/-- The sanity check of a window, and the check of its source: the window is not empty and holds
transfers of one key, which is not zero. -/
def windowAccepted : List LogEvent → Bool
  | [] => false
  | first :: rest =>
      (first :: rest).all (fun le => le.getType == QU_TRANSFER &&
        le.quTransfer.sourcePublicKey == first.quTransfer.sourcePublicKey) &&
      first.quTransfer.sourcePublicKey != m256i.zero

namespace QuEvent

/-- What comes in from the zero key. -/
def fromZero : QuEvent → Int
  | .transfer le =>
      if le.quTransfer.sourcePublicKey = m256i.zero then le.quTransfer.amount.toInt else 0
  | _ => 0

/-- What is burned; the zero key has nothing to burn. -/
def burned : QuEvent → Int
  | .burn le => if le.burning.sourcePublicKey = m256i.zero then 0 else le.burning.amount.toInt
  | _ => 0

/-- What goes out to the zero key. -/
def toZero : QuEvent → Int
  | .transfer le =>
      if le.quTransfer.destinationPublicKey = m256i.zero then le.quTransfer.amount.toInt else 0
  | .burn _ => 0
  | .dividends vle =>
      if windowAccepted vle then
        ((vle.filter (fun le => le.quTransfer.destinationPublicKey = m256i.zero)).map
          (fun le => le.quTransfer.amount.toInt)).sum
      else 0

/-- The change of the total. -/
def change (e : QuEvent) : Int := e.fromZero - e.burned - e.toZero

end QuEvent

/-- The entity has the amount. -/
def HasEnergy (depth : Nat) (s : Spectrum) (key : m256i) (amount : Int) : Prop :=
  ∃ i, i < 2 ^ depth ∧ (s i).publicKey = key ∧ amount ≤ (energy s i).toInt

/-- Amounts are not negative and every source but the zero key exists and can pay. -/
def QuEvent.Payable (depth : Nat) (s : Spectrum) : QuEvent → Prop
  | .transfer le => 0 ≤ le.quTransfer.amount.toInt ∧
      (le.quTransfer.sourcePublicKey ≠ m256i.zero →
        HasEnergy depth s le.quTransfer.sourcePublicKey le.quTransfer.amount.toInt)
  | .burn le => 0 ≤ le.burning.amount.toInt ∧
      (le.burning.sourcePublicKey ≠ m256i.zero →
        HasEnergy depth s le.burning.sourcePublicKey le.burning.amount.toInt)
  | .dividends vle => (∀ le ∈ windowTransfers vle, 0 ≤ le.quTransfer.amount.toInt) ∧
      ∀ key ∈ sourcesOf (windowTransfers vle), key ≠ m256i.zero →
        HasEnergy depth s key (windowPayment key (windowTransfers vle))

/-! ## One event -/

section event

variable {depth : Nat} {s : Spectrum} {keys : List m256i} {le : LogEvent} {vle : List LogEvent}

/-- The debit of a source that is zero or can pay. -/
theorem Solvent.debit {key : m256i} {amount : BitVec 64} (hs : Solvent depth s)
    (hamount : 0 ≤ amount.toInt) (hkey : key ≠ m256i.zero)
    (hpay : HasEnergy depth s key amount.toInt) (tick : BitVec 32) :
    ∃ i s', spectrumIndex depth s key = .ok (some i) ∧
      decreaseEnergy s i amount tick = (s', true) ∧ Solvent depth s' ∧
      (∀ j, (s' j).publicKey = (s j).publicKey) ∧
      totalEnergy depth s' = totalEnergy depth s - amount.toInt := by
  obtain ⟨i, hi, hik, hle⟩ := hpay
  obtain ⟨s', hdec, hss, hkeys, htotal⟩ := hs.pay hi (hik ▸ hkey) hamount hle tick
  exact ⟨i, s', spectrumIndex_present hs.wf hkey hi hik, hdec, hss, hkeys, htotal⟩

theorem Solvent.transfer (hs : Solvent depth s)
    (hfree : EnoughFree depth s ((QuEvent.transfer le).destinations ++ keys))
    (hpay : QuEvent.Payable depth s (.transfer le))
    (hafter : totalEnergy depth s + (QuEvent.transfer le).change < 2 ^ 63) :
    ∃ s', QuEvent.apply depth s (.transfer le) = .ok s' ∧ Solvent depth s' ∧
      EnoughFree depth s' keys ∧
      totalEnergy depth s' = totalEnergy depth s + (QuEvent.transfer le).change := by
  obtain ⟨hamount, hsource⟩ := hpay
  have hchange : (QuEvent.transfer le).change =
      (if le.quTransfer.sourcePublicKey = m256i.zero then le.quTransfer.amount.toInt else 0) -
      le.quTransfer.amount.toInt +
      creditedAmount le.quTransfer.destinationPublicKey le.quTransfer.amount := by
    dsimp only [QuEvent.change, QuEvent.fromZero, QuEvent.burned, QuEvent.toZero, creditedAmount]
    split_ifs <;> ring
  have hhead : EnoughFree depth s (le.quTransfer.destinationPublicKey :: keys) := hfree
  dsimp only [QuEvent.apply, processQuTransfer]
  by_cases hzero : le.quTransfer.sourcePublicKey = m256i.zero
  · rw [if_pos hzero] at hchange
    obtain ⟨s', hs', hss, hsfree, htotal⟩ :=
      hs.credit hhead hamount (by omega) le.getTick
    refine ⟨s', ?_, hss, hsfree, by omega⟩
    rw [hzero]
    exact hs'
  · rw [if_neg hzero] at hchange
    obtain ⟨i, m, hindex, hdec, hms, hkeys, hmtotal⟩ :=
      hs.debit hamount hzero (hsource hzero) le.getTick
    obtain ⟨s', hs', hss, hsfree, htotal⟩ :=
      hms.credit (hhead.congr hkeys) hamount (by omega) le.getTick
    refine ⟨s', ?_, hss, hsfree, by omega⟩
    rw [hindex]
    simp only [bind, Except.bind]
    rw [hdec]
    exact hs'

theorem Solvent.burn (hs : Solvent depth s) (hfree : EnoughFree depth s keys)
    (hpay : QuEvent.Payable depth s (.burn le)) :
    ∃ s', QuEvent.apply depth s (.burn le) = .ok s' ∧ Solvent depth s' ∧
      EnoughFree depth s' keys ∧
      totalEnergy depth s' = totalEnergy depth s + (QuEvent.burn le).change := by
  obtain ⟨hamount, hsource⟩ := hpay
  dsimp only [QuEvent.apply, processQuBurn, QuEvent.change, QuEvent.fromZero, QuEvent.burned,
    QuEvent.toZero]
  by_cases hzero : le.burning.sourcePublicKey = m256i.zero
  · refine ⟨s, ?_, hs, hfree, ?_⟩
    · rw [hzero]
      rfl
    · rw [if_pos hzero]
      ring
  · obtain ⟨i, m, hindex, hdec, hms, hkeys, hmtotal⟩ :=
      hs.debit hamount hzero (hsource hzero) le.getTick
    refine ⟨m, ?_, hms, hfree.congr hkeys, ?_⟩
    · rw [hindex]
      simp only [bind, Except.bind]
      rw [hdec]
      rfl
    · rw [if_neg hzero]
      omega

/-! ### Windows -/

theorem windowAccepted_iff : windowAccepted vle = true ↔ ∃ first rest, vle = first :: rest ∧
    (∀ le ∈ vle, le.getType = QU_TRANSFER) ∧
    (∀ le ∈ vle, le.quTransfer.sourcePublicKey = first.quTransfer.sourcePublicKey) ∧
    first.quTransfer.sourcePublicKey ≠ m256i.zero := by
  cases vle with
  | nil => simp [windowAccepted]
  | cons first rest =>
      rw [windowAccepted, Bool.and_eq_true, List.all_eq_true, bne_iff_ne]
      simp only [Bool.and_eq_true, beq_iff_eq]
      constructor
      · rintro ⟨hall, hne⟩
        exact ⟨first, rest, rfl, fun le hle => (hall le hle).1, fun le hle => (hall le hle).2, hne⟩
      · rintro ⟨first', rest', heq, htypes, hsame, hne⟩
        obtain ⟨rfl, rfl⟩ := List.cons.inj heq
        exact ⟨fun le hle => ⟨htypes le hle, hsame le hle⟩, hne⟩

/-- A window that is not accepted changes nothing. -/
theorem processDistributeDividends_refused (h : windowAccepted vle = false) :
    ∃ b, processDistributeDividends depth s vle = .ok (s, b) := by
  cases vle with
  | nil => exact ⟨true, rfl⟩
  | cons first rest =>
      unfold processDistributeDividends
      dsimp only
      by_cases hany : (first :: rest).any (fun le => le.getType != QU_TRANSFER) = true
      · exact ⟨false, by rw [if_pos hany]; rfl⟩
      rw [if_neg hany]
      cases htotal : dividendTotal first.quTransfer.sourcePublicKey (first :: rest) with
      | none => exact ⟨false, rfl⟩
      | some total =>
          -- the only check left to fail is that of the source
          have hzero : first.quTransfer.sourcePublicKey = m256i.zero := by
            by_contra hne
            have haccepted := windowAccepted_iff.mpr ⟨first, rest, rfl,
              all_transfers_iff.mp (Bool.eq_false_iff.mpr hany),
              (dividendTotal_eq_some_iff.mp htotal).1, hne⟩
            rw [h] at haccepted
            cases haccepted
          refine ⟨false, ?_⟩
          dsimp only
          rw [hzero]
          rfl

/-- In a window of one source, what is paid is what is credited and what goes to the zero key. -/
theorem windowPayment_eq {key : m256i} (hsame : ∀ le ∈ vle, le.quTransfer.sourcePublicKey = key) :
    windowPayment key vle = creditedTotal vle +
      ((vle.filter (fun le => le.quTransfer.destinationPublicKey = m256i.zero)).map
        (fun le => le.quTransfer.amount.toInt)).sum := by
  induction vle with
  | nil => rfl
  | cons le vle ih =>
      rw [List.forall_mem_cons] at hsame
      rw [windowPayment_cons hsame.1, ih hsame.2, creditedTotal, creditedTotal, List.map_cons, List.sum_cons,
        creditedAmount]
      by_cases hzero : le.quTransfer.destinationPublicKey = m256i.zero
      · rw [if_pos hzero, List.filter_cons_of_pos (by simpa using hzero), List.map_cons,
          List.sum_cons]
        ring
      · rw [if_neg hzero, List.filter_cons_of_neg (by simpa using hzero)]
        ring

theorem Solvent.dividends (hs : Solvent depth s)
    (hfree : EnoughFree depth s ((QuEvent.dividends vle).destinations ++ keys))
    (hpay : QuEvent.Payable depth s (.dividends vle))
    (hafter : totalEnergy depth s + (QuEvent.dividends vle).change < 2 ^ 63) :
    ∃ s', QuEvent.apply depth s (.dividends vle) = .ok s' ∧ Solvent depth s' ∧
      EnoughFree depth s' keys ∧
      totalEnergy depth s' = totalEnergy depth s + (QuEvent.dividends vle).change := by
  dsimp only [QuEvent.apply, QuEvent.change, QuEvent.fromZero, QuEvent.burned, QuEvent.toZero]
    at hafter ⊢
  cases haccepted : windowAccepted vle with
  | false =>
      obtain ⟨b, hb⟩ : ∃ b, processDistributeDividends depth s vle = .ok (s, b) :=
        processDistributeDividends_refused haccepted
      refine ⟨s, ?_, hs, hfree.subset (fun k hk => List.mem_append_right _ hk), ?_⟩
      · rw [hb]
        rfl
      · rw [if_neg Bool.false_ne_true]
        ring
  | true =>
      rw [haccepted, if_pos rfl] at hafter
      obtain ⟨first, rest, hvle, htypes, hsame, hne⟩ := windowAccepted_iff.mp haccepted
      obtain ⟨hamounts, hsources⟩ := hpay
      rw [windowTransfers_eq_self htypes] at hamounts hsources
      have hfirst : first ∈ vle := by
        rw [hvle]
        exact List.mem_cons_self
      have henergy := hsources first.quTransfer.sourcePublicKey
        (List.mem_dedup.mpr (List.mem_map.mpr ⟨first, hfirst, rfl⟩)) hne
      have hlt : windowPayment first.quTransfer.sourcePublicKey vle < 2 ^ 63 := by
        obtain ⟨i, -, -, hle⟩ := henergy
        exact windowPayment_lt hle
      have hpaid := toInt_paidBy hamounts hlt
      have hnonneg : 0 ≤ windowPayment first.quTransfer.sourcePublicKey vle :=
        windowPayment_nonneg hamounts
      have hsplit := windowPayment_eq hsame
      have hzero : 0 ≤ ((vle.filter (fun le => le.quTransfer.destinationPublicKey =
          m256i.zero)).map (fun le => le.quTransfer.amount.toInt)).sum := by
        refine List.sum_nonneg (fun x hx => ?_)
        obtain ⟨le, hle, rfl⟩ := List.mem_map.mp hx
        exact hamounts le (List.mem_of_mem_filter hle)
      rw [← hpaid] at henergy
      obtain ⟨i, m, hindex, hdec, hms, hkeys, hmtotal⟩ :=
        hs.debit (by omega) hne henergy first.getTick
      obtain ⟨s', hs', hss, hsfree, htotal⟩ : ∃ s',
          QubicBob.creditAll depth first.getTick vle m = .ok s' ∧ Solvent depth s' ∧
          EnoughFree depth s' keys ∧
          totalEnergy depth s' = totalEnergy depth m + creditedTotal vle :=
        hms.creditAll (hfree.congr hkeys) hamounts (by omega)
      refine ⟨s', ?_, hss, hsfree, ?_⟩
      · have hdividend : dividendTotal first.quTransfer.sourcePublicKey vle =
            some (paidBy first.quTransfer.sourcePublicKey vle) :=
          dividendTotal_eq_some_iff.mpr ⟨hsame, rfl⟩
        subst hvle
        simp only [processDistributeDividends, all_transfers_iff.mpr htypes, hdividend,
          Bool.false_eq_true, if_false]
        rw [hindex]
        simp only [bind, Except.bind, hdec, hs']
        rfl
      · rw [if_pos rfl]
        omega

/-- One event: it is applied, keeps the energies from going below zero, and changes the total by
what it says. -/
theorem Solvent.apply (hs : Solvent depth s) {e : QuEvent}
    (hfree : EnoughFree depth s (e.destinations ++ keys)) (hpay : e.Payable depth s)
    (hafter : totalEnergy depth s + e.change < 2 ^ 63) :
    ∃ s', e.apply depth s = .ok s' ∧ Solvent depth s' ∧ EnoughFree depth s' keys ∧
      totalEnergy depth s' = totalEnergy depth s + e.change := by
  cases e with
  | transfer le => exact hs.transfer hfree hpay hafter
  | burn le => exact hs.burn hfree hpay
  | dividends vle => exact hs.dividends hfree hpay hafter

end event

/-! ## Runs -/

/-- The event can be paid for, and the total stays below `2 ^ 63`. -/
def QuEvent.Covered (depth : Nat) (s : Spectrum) (e : QuEvent) : Prop :=
  e.Payable depth s ∧ totalEnergy depth s + e.change < 2 ^ 63

theorem Solvent.run {depth : Nat} {s : Spectrum} {events : List QuEvent} (hs : Solvent depth s)
    (hfree : EnoughFree depth s (events.flatMap QuEvent.destinations))
    (hok : Runs.GuardedExcept (QuEvent.apply depth) (QuEvent.Covered depth) s events) :
    ∃ s', Runs.runExcept (QuEvent.apply depth) s events = .ok s' ∧ Solvent depth s' ∧
      totalEnergy depth s' = totalEnergy depth s + (events.map QuEvent.change).sum := by
  induction events generalizing s with
  | nil => exact ⟨s, rfl, hs, by simp⟩
  | cons e events ih =>
      rw [List.flatMap_cons] at hfree
      obtain ⟨m, hm, hms, hmfree, hmtotal⟩ := hs.apply hfree hok.1.1 hok.1.2
      obtain ⟨s', hs', hss, htotal⟩ := ih hms hmfree (hok.2 m hm)
      refine ⟨s', ?_, hss, ?_⟩
      · rw [Runs.runExcept, List.foldlM_cons, hm]
        exact hs'
      · rw [htotal, hmtotal, List.map_cons, List.sum_cons, add_assoc]

theorem sum_change (events : List QuEvent) : (events.map QuEvent.change).sum =
    (events.map QuEvent.fromZero).sum - (events.map QuEvent.burned).sum -
      (events.map QuEvent.toZero).sum := by
  induction events with
  | nil => rfl
  | cons e events ih =>
      simp only [List.map_cons, List.sum_cons, ih, QuEvent.change]
      ring

/-- From every well-formed table without negative energies and with free slots for the new keys:
events whose amounts are not negative, whose sources other than the zero key exist and can pay, and
that leave the total below `2 ^ 63`, are all applied. No energy is negative afterwards, and the
total has changed by what was transferred from the zero key, burned, and transferred to the zero
key. -/
theorem totalEnergy_conserved (depth : Nat) (s : Spectrum) (hwf : WellFormedSpectrum depth s)
    (hnonneg : ∀ i, i < 2 ^ depth → 0 ≤ (energy s i).toInt) (events : List QuEvent)
    (hfree : EnoughFree depth s (events.flatMap QuEvent.destinations))
    (hok : Runs.GuardedExcept (QuEvent.apply depth) (QuEvent.Covered depth) s events) :
    ∃ s', Runs.runExcept (QuEvent.apply depth) s events = .ok s' ∧
      WellFormedSpectrum depth s' ∧ (∀ i, i < 2 ^ depth → 0 ≤ (energy s' i).toInt) ∧
      totalEnergy depth s' = totalEnergy depth s + (events.map QuEvent.fromZero).sum -
        (events.map QuEvent.burned).sum - (events.map QuEvent.toZero).sum := by
  have hs : Solvent depth s := ⟨hwf, hnonneg⟩
  obtain ⟨s', hs', hss, htotal⟩ := hs.run hfree hok
  refine ⟨s', hs', hss.wf, hss.nonneg, ?_⟩
  rw [htotal, sum_change]
  ring

/-- A transfer at tick 1. -/
def quTransferLog (source destination : m256i) (amount : BitVec 64) : LogEvent :=
  LogEvent.pack 1 1 QU_TRANSFER 1 0 (QuTransfer.bytes ⟨source, destination, amount⟩)

/-- Its last four bytes are the `contractIndexBurnedFor`. -/
def burningLog (source : m256i) (amount : BitVec 64) : LogEvent :=
  LogEvent.pack 1 1 BURNING 1 0 (source.bytes ++ leBytes 8 amount ++ leBytes 4 (0 : BitVec 32))

/-- Issue 100 to one entity, pay 30 from it to itself, burn 10 of it, and distribute 20 of it to
itself and to another entity. -/
def selfPayments : List QuEvent :=
  [.transfer (quTransferLog 0 5 100), .transfer (quTransferLog 5 5 30), .burn (burningLog 5 10),
    .dividends [quTransferLog 5 5 15, quTransferLog 5 6 5]]

theorem totalEnergy_conserved_at_selfPayments :
    ∃ s', Runs.runExcept (QuEvent.apply 2) zeroSpectrum selfPayments = .ok s' ∧
      (∀ i, i < 2 ^ 2 → 0 ≤ (energy s' i).toInt) ∧ totalEnergy 2 s' = 90 := by
  have hfree : EnoughFree 2 zeroSpectrum (selfPayments.flatMap QuEvent.destinations) := by
    intro new hnew
    have hsub : new ⊆ {5, 6} := by
      intro k hk
      have hmem := (hnew k hk).1
      rw [show selfPayments.flatMap QuEvent.destinations = [5, 5, 5, 6] by decide +kernel] at hmem
      simpa using hmem
    exact (Finset.card_le_card hsub).trans (by decide +kernel)
  have hok : Runs.GuardedExcept (QuEvent.apply 2) (QuEvent.Covered 2) zeroSpectrum
      selfPayments := by
    refine ⟨⟨⟨by decide +kernel, fun hne => absurd (by decide +kernel) hne⟩, by decide +kernel⟩,
      fun s₁ hs₁ => ?_⟩
    obtain rfl := Except.ok.inj hs₁
    refine ⟨⟨⟨by decide +kernel, fun _ => ⟨1, by decide +kernel⟩⟩, by decide +kernel⟩,
      fun s₂ hs₂ => ?_⟩
    obtain rfl := Except.ok.inj hs₂
    refine ⟨⟨⟨by decide +kernel, fun _ => ⟨1, by decide +kernel⟩⟩, by decide +kernel⟩,
      fun s₃ hs₃ => ?_⟩
    obtain rfl := Except.ok.inj hs₃
    refine ⟨⟨⟨by decide +kernel, fun key hkey _ => ?_⟩, by decide +kernel⟩, fun _ _ => trivial⟩
    have hfive : key = 5 := by
      rw [show sourcesOf (windowTransfers [quTransferLog 5 5 15, quTransferLog 5 6 5]) = [5] by
        decide +kernel] at hkey
      exact List.mem_singleton.mp hkey
    rw [hfive]
    exact ⟨1, by decide +kernel⟩
  obtain ⟨s', hs', -, hnonneg, htotal⟩ := totalEnergy_conserved 2 zeroSpectrum
    (wellFormedSpectrum_zero 2) (by decide +kernel) selfPayments hfree hok
  refine ⟨s', hs', hnonneg, ?_⟩
  rw [htotal]
  decide +kernel

/-- Two issues of `2 ^ 62` to one entity take its energy below zero; a window from the zero key to it
and a burn of the zero key leave the total as it is. -/
theorem totalEnergy_conserved_fails_at_zero_key :
    (∃ s', Runs.runExcept (QuEvent.apply 2) zeroSpectrum
        [.transfer (quTransferLog 0 5 0x4000000000000000),
          .transfer (quTransferLog 0 5 0x4000000000000000)] = .ok s' ∧
      (energy s' 1).toInt = -2 ^ 63) ∧
    (∃ s', Runs.runExcept (QuEvent.apply 2) zeroSpectrum [.dividends [quTransferLog 0 5 7]] =
        .ok s' ∧ totalEnergy 2 s' ≠ totalEnergy 2 zeroSpectrum + 7) ∧
    (∃ s', Runs.runExcept (QuEvent.apply 2) zeroSpectrum [.burn (burningLog 0 7)] = .ok s' ∧
      totalEnergy 2 s' ≠ totalEnergy 2 zeroSpectrum - 7) := by
  exact ⟨⟨_, rfl, by decide +kernel⟩, ⟨_, rfl, by decide +kernel⟩, ⟨_, rfl, by decide +kernel⟩⟩

end QubicBob
