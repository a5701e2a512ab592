import QubicBob.Ledger.Conservation

set_option autoImplicit false

/-! # A dividend window and its transfers one by one

A window takes the total from its source first and credits the events after that; handled one by one
each event is a debit and a credit. The two tables differ in the record of the source only, by what
is still to be paid: `prepaid` is that record with the rest of the payments taken off in advance.

A credit to any entity, the source included, commutes with `prepaid`, since it adds to other fields
or to other records, and a debit of one event takes its part off what is due. So the two ways go
side by side, event by event, and meet at the end with nothing due. Two things must not come between
them: a debit one by one must be accepted whenever the total was, which holds as the source only
gets more by credits to itself; and the lookups must end in both tables, which have the same keys.
What is left of the difference is the number of debits, one for the window and one for each event.
-/

namespace QubicBob

open Probe

/-- The events one by one. -/
def processQuTransfers (depth : Nat) : List LogEvent → Spectrum → Except Halt Spectrum
  | [], spectrum => pure spectrum
  | le :: vle, spectrum => do
      let spectrum ← processQuTransfer depth spectrum le
      processQuTransfers depth vle spectrum

/-! ## Credits by slot -/

section credits

variable {depth x : Nat} {s s' : Spectrum} {key : m256i} {keys : List m256i}
  {amount : BitVec 64} {tick : BitVec 32}

/-- The table after a credit: well-formed, with the record of the key grown where it has one, the
other entities as they were, and the key among them unless it is zero. -/
structure CreditedSlots (depth : Nat) (s s' : Spectrum) (key : m256i) (amount : BitVec 64)
    (tick : BitVec 32) : Prop where
  wf : WellFormedSpectrum depth s'
  slots : ∀ i, i < 2 ^ depth → (s i).publicKey ≠ m256i.zero →
    s' i = if (s i).publicKey = key then (s i).receive amount tick else s i
  present : key ≠ m256i.zero → HasEntity depth s' key

theorem CreditedSlots.publicKey (h : CreditedSlots depth s s' key amount tick) (hx : x < 2 ^ depth)
    (hkey : (s x).publicKey ≠ m256i.zero) : (s' x).publicKey = (s x).publicKey := by
  rw [h.slots x hx hkey]
  split
  · rfl
  · rfl

/-- A credit that finds a slot. -/
theorem increaseEnergy_slots (hs : WellFormedSpectrum depth s)
    (hfree : key ≠ m256i.zero → ¬ HasEntity depth s key → HasFreeSlot depth s)
    (hamount : 0 ≤ amount.toInt) :
    ∃ s', increaseEnergy depth s key amount tick = .ok s' ∧
      CreditedSlots depth s s' key amount tick := by
  by_cases hkey : key = m256i.zero
  · rw [hkey]
    refine ⟨s, increaseEnergy_zero, hs, fun i _ hi => (if_neg hi).symm, fun hne => absurd rfl hne⟩
  obtain ⟨x, hx, ⟨hxk, heq⟩ | ⟨habsent, hempty, hprobe, heq⟩⟩ :=
    increaseEnergy_eq hs (hfree hkey) hkey hamount tick
  · refine ⟨_, heq, hs.update rfl (hxk ▸ hkey), ?_, fun _ => ⟨x, hx, ?_⟩⟩
    · intro i hi hocc
      by_cases hix : i = x
      · rw [hix, Function.update_self, if_pos hxk]
      · rw [Function.update_of_ne hix, if_neg]
        exact fun hik => hix (hs.keyed.unique i x hi hx hocc (hik.trans hxk.symm))
    · rw [Function.update_self]
      exact hxk
  · refine ⟨_, heq, hs.insert hkey habsent hprobe rfl, ?_, fun _ => ⟨x, hx, ?_⟩⟩
    · intro i hi hocc
      have hix : i ≠ x := by
        rintro rfl
        exact hocc (by rw [hempty]; rfl)
      rw [Function.update_of_ne hix, if_neg]
      exact fun hik => habsent ⟨i, hi, hik⟩
    · rw [Function.update_self]
      rfl

/-- With room for the keys still to come, a credit leaves room for the rest of them. -/
theorem EnoughFree.credit (hs : WellFormedSpectrum depth s)
    (hfree : EnoughFree depth s (key :: keys)) (hamount : 0 ≤ amount.toInt) :
    ∃ s', increaseEnergy depth s key amount tick = .ok s' ∧
      CreditedSlots depth s s' key amount tick ∧ EnoughFree depth s' keys := by
  obtain ⟨s', hs', hslots⟩ := @increaseEnergy_slots _ _ _ _ tick hs
    (fun hkey habsent => hfree.hasFreeSlot hkey habsent) hamount
  refine ⟨s', hs', hslots, ?_⟩
  have htail : EnoughFree depth s keys := hfree.subset (fun k hk => List.mem_cons_of_mem _ hk)
  by_cases hkey : key = m256i.zero
  · rw [hkey, increaseEnergy_zero] at hs'
    rwa [← Except.ok.inj hs']
  obtain ⟨x, hx, ⟨hxk, heq⟩ | ⟨habsent, hempty, hprobe, heq⟩⟩ :=
    increaseEnergy_eq hs (hfree.hasFreeSlot hkey) hkey hamount tick
  · rw [heq] at hs'
    rw [← Except.ok.inj hs']
    refine htail.congr (fun j => ?_)
    by_cases hj : j = x
    · rw [hj, Function.update_self]
      rfl
    · rw [Function.update_of_ne hj]
  · rw [heq] at hs'
    rw [← Except.ok.inj hs']
    exact hfree.newEntity hkey habsent hx (by rw [hempty]; rfl) rfl

end credits

/-! ## Paying in advance -/

/-- The record with `due` more paid out, and the counters of a debit made before. -/
def EntityRecord.prepaid (r : EntityRecord) (due : BitVec 64) (count tick : BitVec 32) :
    EntityRecord :=
  { r with
    outgoingAmount := r.outgoingAmount + due
    numberOfOutgoingTransfers := count
    latestOutgoingTransferTick := tick }

/-- The table in which the entity at `x` has paid `due` in advance. -/
def Spectrum.prepaid (s : Spectrum) (x : Nat) (due : BitVec 64) (count tick : BitVec 32) :
    Spectrum :=
  Function.update s x ((s x).prepaid due count tick)

section prepaid

variable {depth x : Nat} {s : Spectrum} {key : m256i} {amount due : BitVec 64}
  {count tick tick' : BitVec 32}

theorem prepaid_keys (j : Nat) : (s.prepaid x due count tick j).publicKey = (s j).publicKey := by
  by_cases hj : j = x
  · rw [Spectrum.prepaid, hj, Function.update_self]
    rfl
  · rw [Spectrum.prepaid, Function.update_of_ne hj]

theorem prepaid_self : s.prepaid x due count tick x = (s x).prepaid due count tick :=
  Function.update_self ..

theorem prepaid_of_ne {j : Nat} (hj : j ≠ x) : s.prepaid x due count tick j = s j :=
  Function.update_of_ne hj _ _

/-- A debit of all that is due is the payment in advance. -/
theorem pay_eq_prepaid :
    Function.update s x ((s x).pay amount tick) =
      s.prepaid x amount ((s x).numberOfOutgoingTransfers + 1) tick := rfl

/-- A debit of a part of what is due leaves the rest. -/
theorem prepaid_pay :
    Spectrum.prepaid (Function.update s x ((s x).pay amount tick')) x due count tick =
      s.prepaid x (amount + due) count tick := by
  rw [Spectrum.prepaid, Function.update_self, Function.update_idem, Spectrum.prepaid]
  congr 1
  simp [EntityRecord.prepaid, EntityRecord.pay, BitVec.add_assoc]

/-- A new record in another slot. -/
theorem prepaid_update_of_ne {j : Nat} {r : EntityRecord} (hj : j ≠ x) :
    Spectrum.prepaid (Function.update s j r) x due count tick =
      Function.update (s.prepaid x due count tick) j r := by
  rw [Spectrum.prepaid, Function.update_of_ne (Ne.symm hj), Spectrum.prepaid,
    Function.update_comm hj]

/-- A credit commutes with a payment in advance. -/
theorem increaseEnergy_prepaid (hx : (s x).publicKey ≠ m256i.zero) :
    increaseEnergy depth (s.prepaid x due count tick) key amount tick' =
      (increaseEnergy depth s key amount tick').map (fun s' => s'.prepaid x due count tick) := by
  unfold increaseEnergy
  by_cases hcond : key.isZero = false ∧ 0 ≤ amount.toInt
  · rw [if_pos hcond, if_pos hcond, entityStop_congr (s := s) prepaid_keys]
    cases hprobe : probe (entityStop s key) depth (homeSlot depth key) with
    | none => rfl
    | some j =>
        simp only [orDiverge_some, bind, Except.bind, beq_iff_eq]
        rw [prepaid_keys]
        by_cases hjx : j = x
        · -- the entity that pays in advance is credited
          subst hjx
          have hstop := probe_stop (homeSlot_lt depth key) hprobe
          have hjk : (s j).publicKey = key := by
            rw [entityStop, Bool.or_eq_true, beq_iff_eq, m256i.isZero_iff] at hstop
            exact hstop.resolve_right hx
          rw [if_pos hjk, if_pos hjk, prepaid_self]
          show Except.ok _ = Except.ok (Spectrum.prepaid _ _ _ _ _)
          rw [Spectrum.prepaid, Spectrum.prepaid, Function.update_self, Function.update_idem,
            Function.update_idem]
          rfl
        · split
          · rw [prepaid_of_ne hjx, ← prepaid_update_of_ne hjx]
            rfl
          · rw [prepaid_of_ne hjx, ← prepaid_update_of_ne hjx]
            rfl
  · rw [if_neg hcond, if_neg hcond]
    rfl

end prepaid

/-! ## The two ways side by side -/

section simulation

variable {depth x : Nat} {s : Spectrum} {source : m256i} {count tick : BitVec 32}
  {le : LogEvent} {vle : List LogEvent}

/-- Transfers of one source at one tick, of amounts that are not negative. -/
structure WindowOf (source : m256i) (tick : BitVec 32) (vle : List LogEvent) : Prop where
  types : ∀ le ∈ vle, le.getType = QU_TRANSFER
  sources : ∀ le ∈ vle, le.quTransfer.sourcePublicKey = source
  ticks : ∀ le ∈ vle, le.getTick = tick
  amounts : ∀ le ∈ vle, 0 ≤ le.quTransfer.amount.toInt

theorem WindowOf.tail (h : WindowOf source tick (le :: vle)) : WindowOf source tick vle where
  types le hle := h.types le (List.mem_cons_of_mem _ hle)
  sources le hle := h.sources le (List.mem_cons_of_mem _ hle)
  ticks le hle := h.ticks le (List.mem_cons_of_mem _ hle)
  amounts le hle := h.amounts le (List.mem_cons_of_mem _ hle)

/-- A transfer whose source pays: the debit, then the credit. -/
theorem processQuTransfer_paid (hindex : spectrumIndex depth s le.quTransfer.sourcePublicKey =
      .ok (some x)) (hamount : 0 ≤ le.quTransfer.amount.toInt)
    (hpay : le.quTransfer.amount.toInt ≤ (energy s x).toInt) :
    processQuTransfer depth s le =
      increaseEnergy depth (Function.update s x ((s x).pay le.quTransfer.amount le.getTick))
        le.quTransfer.destinationPublicKey le.quTransfer.amount le.getTick := by
  unfold processQuTransfer
  dsimp only
  rw [hindex]
  show increaseEnergy depth (decreaseEnergy s x _ _).1 _ _ _ = _
  rw [decreaseEnergy, if_pos ⟨hamount, hpay⟩]

/-- A debited record that is credited again has what it had, one that is not has less. -/
theorem credited_energy_le {s' : Spectrum} {key : m256i} {amount : BitVec 64}
    (hx : x < 2 ^ depth) (hkey : (s x).publicKey ≠ m256i.zero) (hamount : 0 ≤ amount.toInt)
    (hpay : amount.toInt ≤ (energy s x).toInt)
    (h : CreditedSlots depth (Function.update s x ((s x).pay amount tick)) s' key amount tick) :
    (energy s x).toInt - amount.toInt ≤ (energy s' x).toInt := by
  have hpaid : ((s x).pay amount tick).energy = energy s x - amount := energy_pay _
  have hslot := h.slots x hx (by rw [Function.update_self]; exact hkey)
  rw [Function.update_self] at hslot
  rw [energy_eq s', hslot]
  split
  · rw [energy_receive, hpaid, BitVec.sub_add_cancel]
    omega
  · rw [hpaid, toInt_sub_of_le hamount hpay]

/-- Event by event the table of the window is that of the transfers with the rest paid in advance. -/
theorem transfers_simulate (hs : WellFormedSpectrum depth s) (hx : x < 2 ^ depth)
    (hsource : source ≠ m256i.zero) (hkey : (s x).publicKey = source)
    (hw : WindowOf source tick vle)
    (hpay : windowPayment source vle ≤ (energy s x).toInt)
    (hfree : EnoughFree depth s (vle.map (fun le => le.quTransfer.destinationPublicKey))) :
    ∃ s', processQuTransfers depth vle s = .ok s' ∧
      creditAll depth tick vle (s.prepaid x (paidBy source vle) count tick) =
        .ok (s'.prepaid x 0 count tick) ∧
      (s' x).numberOfOutgoingTransfers =
        (s x).numberOfOutgoingTransfers + BitVec.ofNat 32 vle.length ∧
      (s' x).latestOutgoingTransferTick =
        if vle = [] then (s x).latestOutgoingTransferTick else tick := by
  induction vle generalizing s with
  | nil => exact ⟨s, rfl, rfl, by simp, rfl⟩
  | cons le vle ih =>
      have hle : le.quTransfer.sourcePublicKey = source := hw.sources le List.mem_cons_self
      have htick : le.getTick = tick := hw.ticks le List.mem_cons_self
      have hamount : 0 ≤ le.quTransfer.amount.toInt := hw.amounts le List.mem_cons_self
      have hrest : 0 ≤ windowPayment source vle := windowPayment_nonneg hw.tail.amounts
      rw [windowPayment_cons hle] at hpay
      have hindex : spectrumIndex depth s le.quTransfer.sourcePublicKey = .ok (some x) := by
        rw [hle]
        exact spectrumIndex_present hs hsource hx hkey
      -- the debit of this event
      have hpaidwf : WellFormedSpectrum depth
          (Function.update s x ((s x).pay le.quTransfer.amount tick)) :=
        hs.update rfl (hkey ▸ hsource)
      have hpaidkeys : ∀ j, (Function.update s x ((s x).pay le.quTransfer.amount tick) j).publicKey
          = (s j).publicKey := prepaid_keys
      -- its credit
      obtain ⟨m, hm, hslots, hmfree⟩ :=
        @EnoughFree.credit _ _ _ _ _ tick hpaidwf (hfree.congr hpaidkeys) hamount
      have hmkey : (m x).publicKey = source := by
        rw [hslots.publicKey hx (by rw [hpaidkeys, hkey]; exact hsource), hpaidkeys, hkey]
      have henergy := credited_energy_le hx (hkey ▸ hsource) hamount (by omega) hslots
      obtain ⟨s', hs', hcredits, hcount, hlatest⟩ :=
        ih hslots.wf hmkey hw.tail (by omega) hmfree
      have hmx := hslots.slots x hx (by rw [hpaidkeys, hkey]; exact hsource)
      have hout : (m x).numberOfOutgoingTransfers = (s x).numberOfOutgoingTransfers + 1 ∧
          (m x).latestOutgoingTransferTick = tick := by
        rw [hmx, Function.update_self]
        split
        · exact ⟨rfl, rfl⟩
        · exact ⟨rfl, rfl⟩
      refine ⟨s', ?_, ?_, ?_, ?_⟩
      · rw [processQuTransfers, processQuTransfer_paid hindex hamount (by omega), htick, hm]
        exact hs'
      · rw [creditAll, paidBy_cons hle, ← @prepaid_pay _ _ _ _ _ _ tick,
          increaseEnergy_prepaid (by rw [hpaidkeys, hkey]; exact hsource), hm]
        exact hcredits
      · rw [hcount, hout.1, List.length_cons, Nat.add_comm vle.length, BitVec.ofNat_add,
          ← BitVec.add_assoc]
        rfl
      · rw [hlatest, hout.2, if_neg (List.cons_ne_nil _ _)]
        exact ite_self _

end simulation

/-- A window of payments that its source can make ends in the table of the transfers one by one, but
for the number of outgoing transfers of the source: one for the window, and one for each event. -/
theorem dividends_eq_transfers (depth : Nat) (s : Spectrum) (hs : WellFormedSpectrum depth s)
    (source : m256i) (tick : BitVec 32) (vle : List LogEvent) (hne : vle ≠ [])
    (hw : WindowOf source tick vle) (hsource : source ≠ m256i.zero) (x : Nat) (hx : x < 2 ^ depth)
    (hkey : (s x).publicKey = source)
    (hpay : (vle.map (fun le => le.quTransfer.amount.toInt)).sum ≤ (energy s x).toInt)
    (hfree : EnoughFree depth s (vle.map (fun le => le.quTransfer.destinationPublicKey))) :
    ∃ one, processQuTransfers depth vle s = .ok one ∧
      processDistributeDividends depth s vle =
        .ok (Function.update one x { one x with
          numberOfOutgoingTransfers := (s x).numberOfOutgoingTransfers + 1 }, true) ∧
      (one x).numberOfOutgoingTransfers =
        (s x).numberOfOutgoingTransfers + BitVec.ofNat 32 vle.length := by
  have hall : vle.filter (fun le => le.quTransfer.sourcePublicKey = source) = vle :=
    List.filter_eq_self.mpr (fun le hle => decide_eq_true (hw.sources le hle))
  have hpayment : windowPayment source vle =
      (vle.map (fun le => le.quTransfer.amount.toInt)).sum := by
    rw [windowPayment, hall]
  rw [← hpayment] at hpay
  have hpaid := toInt_paidBy hw.amounts (windowPayment_lt hpay)
  have hnonneg : 0 ≤ windowPayment source vle := windowPayment_nonneg hw.amounts
  obtain ⟨one, hone, hcredits, hcount, hlatest⟩ := @transfers_simulate _ _ _ _
    ((s x).numberOfOutgoingTransfers + 1) _ _ hs hx hsource hkey hw hpay hfree
  refine ⟨one, hone, ?_, hcount⟩
  have hlast : one.prepaid x 0 ((s x).numberOfOutgoingTransfers + 1) tick =
      Function.update one x { one x with
        numberOfOutgoingTransfers := (s x).numberOfOutgoingTransfers + 1 } := by
    rw [if_neg hne] at hlatest
    rw [Spectrum.prepaid, EntityRecord.prepaid, add_zero, ← hlatest]
  obtain ⟨first, rest, rfl⟩ := List.exists_cons_of_ne_nil hne
  have hfirst : first.quTransfer.sourcePublicKey = source := hw.sources first List.mem_cons_self
  have htotal : dividendTotal source (first :: rest) = some (paidBy source (first :: rest)) :=
    dividendTotal_eq_some_iff.mpr ⟨hw.sources, rfl⟩
  have hdebit : (decreaseEnergy s x (paidBy source (first :: rest)) tick).1 =
      s.prepaid x (paidBy source (first :: rest)) ((s x).numberOfOutgoingTransfers + 1) tick := by
    rw [decreaseEnergy, if_pos ⟨by omega, by omega⟩, pay_eq_prepaid]
  simp only [processDistributeDividends, all_transfers_iff.mpr hw.types, hfirst, htotal,
    hw.ticks first List.mem_cons_self, Bool.false_eq_true, if_false]
  rw [spectrumIndex_present hs hsource hx hkey]
  simp only [bind, Except.bind, hdebit, hcredits, hlast]
  rfl

/-- One entity with 100, in slot 1 of a table of four. -/
def oneEntity : Spectrum :=
  Function.update zeroSpectrum 1 (EntityRecord.empty.create 5 100 1)

theorem not_hasEntity_zeroSpectrum {depth : Nat} {key : m256i} (hkey : key ≠ m256i.zero) :
    ¬ HasEntity depth zeroSpectrum key := by
  rintro ⟨i, -, hik⟩
  exact hkey (hik.symm.trans rfl)

theorem wellFormedSpectrum_oneEntity : WellFormedSpectrum 2 oneEntity := by
  have hkey : (5 : m256i) ≠ m256i.zero := by decide
  exact (wellFormedSpectrum_zero 2).insert hkey (not_hasEntity_zeroSpectrum hkey)
    (by decide +kernel) rfl

/-- To itself, twice to a new entity, and to the zero key. -/
def mixedWindow : List LogEvent :=
  [quTransferLog 5 5 15, quTransferLog 5 6 5, quTransferLog 5 6 3, quTransferLog 5 0 7]

theorem dividends_eq_transfers_at_mixedWindow :
    ∃ one, processQuTransfers 2 mixedWindow oneEntity = .ok one ∧
      processDistributeDividends 2 oneEntity mixedWindow =
        .ok (Function.update one 1 { one 1 with numberOfOutgoingTransfers := 1 }, true) ∧
      (one 1).numberOfOutgoingTransfers = 4 := by
  have hfree : EnoughFree 2 oneEntity
      (mixedWindow.map (fun le => le.quTransfer.destinationPublicKey)) := by
    intro new hnew
    have hsub : new ⊆ {5, 6, 0} := by
      intro k hk
      have hmem := (hnew k hk).1
      rw [show mixedWindow.map (fun le => le.quTransfer.destinationPublicKey) = [5, 6, 6, 0] by
        decide +kernel] at hmem
      simpa using hmem
    exact (Finset.card_le_card hsub).trans (by decide +kernel)
  have hw : WindowOf 5 1 mixedWindow :=
    ⟨by decide +kernel, by decide +kernel, by decide +kernel, by decide +kernel⟩
  exact dividends_eq_transfers 2 oneEntity wellFormedSpectrum_oneEntity 5 1 mixedWindow
    (List.cons_ne_nil _ _) hw (by decide) 1 (by decide) (by decide) (by decide +kernel) hfree

end QubicBob
