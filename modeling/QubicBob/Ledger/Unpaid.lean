import QubicBob.Ledger.Dividends

set_option autoImplicit false

/-! # Transfers that cannot be paid

The handlers of transfers and of windows debit the source and credit the destinations in separate
calls, and go on to the credits when the debit has failed. What is left of a payment that its source
cannot make is then what the credits do by themselves.

One credit leaves the table alone only if it is refused, as it moves the counter of transfers of its
record. For the credits of a window this is a question about each record by itself: a credit that
has put its key into the table cannot be taken back, and to a record that was there the credits make
a sum of amounts and a number of transfers. Both are machine words, so they come to nothing also
where the sum wraps around to 0 and the number is a multiple of 2 ^ 32 (`CreditsCancel`). The debit
of a window is of a sum that wraps around as well, so a window the source cannot pay may be taken
off it in part.
-/

namespace QubicBob

open Probe

/-- The source is not zero, and is absent, or the amount is negative or more than it has. -/
def Unpaid (depth : Nat) (s : Spectrum) (source : m256i) (amount : Int) : Prop :=
  source ≠ m256i.zero ∧ (amount < 0 ∨ ¬ HasEnergy depth s source amount)

section unpaid

variable {depth x : Nat} {s s' : Spectrum} {key source : m256i} {amount : BitVec 64}
  {tick : BitVec 32} {le : LogEvent} {vle : List LogEvent}

/-! ## Lookups and debits -/

/-- The lookup of a key comes back when the key has a slot or some slot is free. -/
theorem spectrumIndex_returns_iff (hs : WellFormedSpectrum depth s) (hkey : key ≠ m256i.zero) :
    (∃ o, spectrumIndex depth s key = .ok o) ↔ HasEntity depth s key ∨ HasFreeSlot depth s := by
  constructor
  · intro h
    obtain ⟨i, hi⟩ := (spectrumIndex_ok_iff hkey).mp h
    have hlt := probe_lt (homeSlot_lt depth key) hi
    have hstop := probe_stop (homeSlot_lt depth key) hi
    rw [entityStop, Bool.or_eq_true, beq_iff_eq, m256i.isZero_iff] at hstop
    rcases hstop with hik | hzero
    · exact Or.inl ⟨i, hlt, hik⟩
    · exact Or.inr ⟨i, hlt, hzero⟩
  · rintro (⟨i, hi, hik⟩ | hfree)
    · exact ⟨_, spectrumIndex_present hs hkey hi hik⟩
    · exact spectrumIndex_returns hs hfree key

/-- A debit of more than there is, or of a negative amount, fails. -/
theorem Unpaid.decreaseEnergy (h : Unpaid depth s source amount.toInt)
    (hindex : spectrumIndex depth s source = .ok (some x)) :
    (decreaseEnergy s x amount tick).1 = s := by
  apply decreaseEnergy_failed
  rintro ⟨hamount, hpay⟩
  have hx := spectrumIndex_some hindex
  rcases h.2 with hneg | hnot
  · omega
  · exact hnot ⟨x, hx.2.1, hx.2.2, hpay⟩

/-! ## One credit -/

theorem increaseEnergy_self_iff :
    increaseEnergy depth s key amount tick = .ok s ↔ key = m256i.zero ∨ amount.toInt < 0 := by
  constructor
  · intro h
    by_contra hcon
    rw [not_or, not_lt] at hcon
    obtain ⟨-, i, -, ⟨-, hs⟩ | ⟨hzero, hs⟩⟩ := increaseEnergy_credited hcon.1 h hcon.2
    · have hcount := congrArg EntityRecord.numberOfIncomingTransfers (congrFun hs i)
      rw [Function.update_self] at hcount
      simp [EntityRecord.receive] at hcount
    · have hkey := congrArg EntityRecord.publicKey (congrFun hs i)
      rw [Function.update_self, hzero] at hkey
      exact hcon.1 hkey.symm
  · intro h
    refine increaseEnergy_refused (fun hc => ?_)
    rcases h with hzero | hneg
    · exact hc.1 hzero
    · omega

/-- A transfer that cannot be paid is its credit alone. -/
theorem Unpaid.processQuTransfer
    (h : Unpaid depth s le.quTransfer.sourcePublicKey le.quTransfer.amount.toInt) {o : Option Nat}
    (ho : spectrumIndex depth s le.quTransfer.sourcePublicKey = .ok o) :
    processQuTransfer depth s le =
      increaseEnergy depth s le.quTransfer.destinationPublicKey le.quTransfer.amount
        le.getTick := by
  unfold QubicBob.processQuTransfer
  dsimp only
  rw [ho]
  cases o with
  | none => rfl
  | some x =>
      show QubicBob.increaseEnergy depth (QubicBob.decreaseEnergy s x _ _).1 _ _ _ = _
      rw [h.decreaseEnergy ho]

theorem processQuTransfer_unpaid_iff (hs : WellFormedSpectrum depth s)
    (h : Unpaid depth s le.quTransfer.sourcePublicKey le.quTransfer.amount.toInt) :
    processQuTransfer depth s le = .ok s ↔
      (HasEntity depth s le.quTransfer.sourcePublicKey ∨ HasFreeSlot depth s) ∧
        (le.quTransfer.destinationPublicKey = m256i.zero ∨ le.quTransfer.amount.toInt < 0) := by
  rw [← spectrumIndex_returns_iff hs h.1]
  constructor
  · intro hrun
    have hreturns : ∃ o, spectrumIndex depth s le.quTransfer.sourcePublicKey = .ok o := by
      rw [processQuTransfer, bind_eq_ok] at hrun
      obtain ⟨o, ho, -⟩ := hrun
      exact ⟨o, ho⟩
    obtain ⟨o, ho⟩ := hreturns
    rw [h.processQuTransfer ho, increaseEnergy_self_iff] at hrun
    exact ⟨⟨o, ho⟩, hrun⟩
  · rintro ⟨⟨o, ho⟩, hrefused⟩
    rw [h.processQuTransfer ho, increaseEnergy_self_iff]
    exact hrefused

/-! ## The credits of a window

`creditsTo` is what a key is credited in a window, and `EntityRecord.receiveAll` what this makes of
its record. -/

/-- The amounts credited to a key. -/
def creditsTo (key : m256i) (vle : List LogEvent) : List (BitVec 64) :=
  (vle.filter (fun le => le.quTransfer.destinationPublicKey = key ∧
    0 ≤ le.quTransfer.amount.toInt)).map (fun le => le.quTransfer.amount)

/-- The record after a number of credits at one tick. -/
def EntityRecord.receiveAll (r : EntityRecord) (amounts : List (BitVec 64)) (tick : BitVec 32) :
    EntityRecord :=
  amounts.foldl (fun r amount => r.receive amount tick) r

theorem EntityRecord.receiveAll_eq (r : EntityRecord) {amounts : List (BitVec 64)}
    (hne : amounts ≠ []) (tick : BitVec 32) :
    r.receiveAll amounts tick =
      { r with
        incomingAmount := r.incomingAmount + amounts.sum
        numberOfIncomingTransfers := r.numberOfIncomingTransfers + BitVec.ofNat 32 amounts.length
        latestIncomingTransferTick := tick } := by
  induction amounts generalizing r with
  | nil => exact absurd rfl hne
  | cons amount amounts ih =>
      show (r.receive amount tick).receiveAll amounts tick = _
      by_cases hnil : amounts = []
      · subst hnil
        simp [receiveAll, receive]
      · rw [ih _ hnil, List.sum_cons, List.length_cons, Nat.add_comm amounts.length,
          BitVec.ofNat_add, receive]
        simp only [add_assoc]
        rfl

/-- A record is as it was after credits that came to nothing in every field. -/
theorem EntityRecord.receiveAll_self_iff (r : EntityRecord) (amounts : List (BitVec 64))
    (tick : BitVec 32) :
    r.receiveAll amounts tick = r ↔ amounts ≠ [] →
      amounts.sum = 0 ∧ 2 ^ 32 ∣ amounts.length ∧ r.latestIncomingTransferTick = tick := by
  have hlength : BitVec.ofNat 32 amounts.length = 0 ↔ 2 ^ 32 ∣ amounts.length := by
    rw [Nat.dvd_iff_mod_eq_zero, ← BitVec.toNat_inj, BitVec.toNat_ofNat]
    rfl
  by_cases hnil : amounts = []
  · rw [hnil]
    exact iff_of_true rfl (fun hne => absurd rfl hne)
  · rw [r.receiveAll_eq hnil, ← hlength]
    constructor
    · intro h _
      have hsum := congrArg incomingAmount h
      have hcount := congrArg numberOfIncomingTransfers h
      have htick := congrArg latestIncomingTransferTick h
      exact ⟨add_eq_left.mp hsum, add_eq_left.mp hcount, htick.symm⟩
    · intro h
      obtain ⟨hsum, hcount, htick⟩ := h hnil
      rw [hsum, hcount, add_zero, add_zero, ← htick]

theorem creditsTo_cons_accepted (hkey : le.quTransfer.destinationPublicKey = key)
    (hamount : 0 ≤ le.quTransfer.amount.toInt) :
    creditsTo key (le :: vle) = le.quTransfer.amount :: creditsTo key vle := by
  rw [creditsTo, List.filter_cons_of_pos (by simp [hkey, hamount]), List.map_cons, creditsTo]

theorem creditsTo_cons_other
    (h : ¬ (le.quTransfer.destinationPublicKey = key ∧ 0 ≤ le.quTransfer.amount.toInt)) :
    creditsTo key (le :: vle) = creditsTo key vle := by
  rw [creditsTo, List.filter_cons_of_neg (by simpa using h), creditsTo]

/-- The table with each record grown by its credits. -/
def creditedTable (depth : Nat) (s : Spectrum) (tick : BitVec 32) (vle : List LogEvent) :
    Spectrum :=
  fun i => if i < 2 ^ depth ∧ (s i).publicKey ≠ m256i.zero then
    (s i).receiveAll (creditsTo (s i).publicKey vle) tick else s i

/-- An event that credits nobody. -/
def Refused (le : LogEvent) : Prop :=
  le.quTransfer.destinationPublicKey = m256i.zero ∨ le.quTransfer.amount.toInt < 0

theorem creditsTo_cons_refused (h : Refused le) (hkey : key ≠ m256i.zero) :
    creditsTo key (le :: vle) = creditsTo key vle := by
  refine creditsTo_cons_other ?_
  rintro ⟨rfl, hamount⟩
  rcases h with hzero | hneg
  · exact hkey hzero
  · omega

theorem creditedTable_refused (h : Refused le) :
    creditedTable depth s tick (le :: vle) = creditedTable depth s tick vle := by
  funext i
  rw [creditedTable, creditedTable]
  by_cases hi : i < 2 ^ depth ∧ (s i).publicKey ≠ m256i.zero
  · rw [if_pos hi, if_pos hi, creditsTo_cons_refused h hi.2]
  · rw [if_neg hi, if_neg hi]

/-- The first credit made, and the rest of them on the table it leaves. -/
theorem creditedTable_receive (hs : WellFormedSpectrum depth s) (hx : x < 2 ^ depth)
    (hxk : (s x).publicKey = le.quTransfer.destinationPublicKey)
    (hkey : le.quTransfer.destinationPublicKey ≠ m256i.zero)
    (hamount : 0 ≤ le.quTransfer.amount.toInt) :
    creditedTable depth (Function.update s x ((s x).receive le.quTransfer.amount tick)) tick vle =
      creditedTable depth s tick (le :: vle) := by
  funext i
  rw [creditedTable, creditedTable]
  by_cases hix : i = x
  · subst hix
    have hreceive : ((s i).receive le.quTransfer.amount tick).publicKey = (s i).publicKey := rfl
    have hcond : i < 2 ^ depth ∧ (s i).publicKey ≠ m256i.zero := ⟨hx, hxk ▸ hkey⟩
    rw [Function.update_self, hreceive, if_pos hcond, if_pos hcond,
      creditsTo_cons_accepted hxk.symm hamount]
    rfl
  · rw [Function.update_of_ne hix]
    by_cases hi : i < 2 ^ depth ∧ (s i).publicKey ≠ m256i.zero
    · rw [if_pos hi, if_pos hi, creditsTo_cons_other]
      rintro ⟨hdest, -⟩
      exact hix (hs.keyed.unique i x hi.1 hx hi.2 (hdest.symm.trans hxk.symm))
    · rw [if_neg hi, if_neg hi]

/-- The credits of a window to entities that all have a slot. -/
theorem creditAll_present (hs : WellFormedSpectrum depth s)
    (h : ∀ key, key ≠ m256i.zero → creditsTo key vle ≠ [] → HasEntity depth s key) :
    creditAll depth tick vle s = .ok (creditedTable depth s tick vle) := by
  induction vle generalizing s with
  | nil =>
      have hsame : creditedTable depth s tick [] = s := by
        funext i
        exact ite_self _
      rw [hsame]
      rfl
  | cons le vle ih =>
      rw [creditAll]
      by_cases hrefused : Refused le
      · rw [increaseEnergy_self_iff.mpr hrefused, creditedTable_refused hrefused]
        refine ih hs (fun k hk hne => h k hk ?_)
        rwa [creditsTo_cons_refused hrefused hk]
      · rw [Refused, not_or, not_lt] at hrefused
        obtain ⟨hkey, hamount⟩ := hrefused
        have hhas : HasEntity depth s le.quTransfer.destinationPublicKey := by
          apply h _ hkey
          rw [creditsTo_cons_accepted rfl hamount]
          exact List.cons_ne_nil _ _
        obtain ⟨x, hx, ⟨hxk, heq⟩ | ⟨habsent, -⟩⟩ :=
          increaseEnergy_eq hs (fun habsent => absurd hhas habsent) hkey hamount tick
        · rw [heq, ← creditedTable_receive hs hx hxk hkey hamount]
          refine ih (hs.update rfl (hxk ▸ hkey)) (fun k hk hne => ?_)
          have hreceive : ((s x).receive le.quTransfer.amount tick).publicKey = (s x).publicKey :=
            rfl
          rw [hasEntity_update hreceive]
          apply h k hk
          by_cases hdest : le.quTransfer.destinationPublicKey = k
          · rw [creditsTo_cons_accepted hdest hamount]
            exact List.cons_ne_nil _ _
          · rwa [creditsTo_cons_other (fun hc => hdest hc.1)]
        · exact absurd hhas habsent

/-- A credit that came back has put its key into the table, and taken none out. -/
theorem increaseEnergy_entities (hs : WellFormedSpectrum depth s)
    (h : increaseEnergy depth s key amount tick = .ok s') :
    WellFormedSpectrum depth s' ∧
      (key ≠ m256i.zero → 0 ≤ amount.toInt → HasEntity depth s' key) ∧
      ∀ k, k ≠ m256i.zero → HasEntity depth s k → HasEntity depth s' k := by
  by_cases hrefused : key = m256i.zero ∨ amount.toInt < 0
  · rw [increaseEnergy_self_iff.mpr hrefused] at h
    rw [← Except.ok.inj h]
    refine ⟨hs, fun hkey hamount => ?_, fun k _ hk => hk⟩
    rcases hrefused with hzero | hneg
    · exact absurd hzero hkey
    · omega
  · rw [not_or, not_lt] at hrefused
    obtain ⟨hkey, hamount⟩ := hrefused
    -- the probe of a key without a slot has ended at a free one
    have hfree : key ≠ m256i.zero → ¬ HasEntity depth s key → HasFreeSlot depth s := by
      intro _ habsent
      obtain ⟨-, i, hi, ⟨hik, -⟩ | ⟨hzero, -⟩⟩ := increaseEnergy_credited hkey h hamount
      · exact absurd ⟨i, hi, hik⟩ habsent
      · exact ⟨i, hi, hzero⟩
    obtain ⟨t, ht, hslots⟩ := @increaseEnergy_slots _ _ _ _ tick hs hfree hamount
    rw [ht] at h
    rw [← Except.ok.inj h]
    refine ⟨hslots.wf, fun _ _ => hslots.present hkey, fun k hk => ?_⟩
    rintro ⟨i, hi, hik⟩
    exact ⟨i, hi, (hslots.publicKey hi (hik ▸ hk)).trans hik⟩

theorem creditAll_entities (hs : WellFormedSpectrum depth s)
    (h : creditAll depth tick vle s = .ok s') :
    (∀ key, key ≠ m256i.zero → creditsTo key vle ≠ [] → HasEntity depth s' key) ∧
      ∀ k, k ≠ m256i.zero → HasEntity depth s k → HasEntity depth s' k := by
  induction vle generalizing s with
  | nil =>
      rw [← Except.ok.inj h]
      exact ⟨fun key _ hne => absurd rfl hne, fun k _ hk => hk⟩
  | cons le vle ih =>
      rw [creditAll, bind_eq_ok] at h
      obtain ⟨m, hm, hrest⟩ := h
      obtain ⟨hmwf, hnew, hkept⟩ := increaseEnergy_entities hs hm
      obtain ⟨hnews, hkepts⟩ := ih hmwf hrest
      refine ⟨fun key hkey hne => ?_, fun k hk hhas => hkepts k hk (hkept k hk hhas)⟩
      by_cases haccepted : le.quTransfer.destinationPublicKey = key ∧
          0 ≤ le.quTransfer.amount.toInt
      · refine hkepts key hkey ?_
        rw [← haccepted.1]
        exact hnew (by rwa [haccepted.1]) haccepted.2
      · rw [creditsTo_cons_other haccepted] at hne
        exact hnews key hkey hne

/-- Nothing is credited to any entity; or, with `2 ^ 32` credits at least, sums and counters wrap
around to what they were. -/
def CreditsCancel (depth : Nat) (s : Spectrum) (tick : BitVec 32) (vle : List LogEvent) : Prop :=
  ∀ key, key ≠ m256i.zero → creditsTo key vle ≠ [] →
    ∃ i, i < 2 ^ depth ∧ (s i).publicKey = key ∧ (creditsTo key vle).sum = 0 ∧
      2 ^ 32 ∣ (creditsTo key vle).length ∧ (s i).latestIncomingTransferTick = tick

theorem creditAll_self_iff (hs : WellFormedSpectrum depth s) :
    creditAll depth tick vle s = .ok s ↔ CreditsCancel depth s tick vle := by
  constructor
  · intro h key hkey hne
    have hhas := (creditAll_entities hs h).1
    rw [creditAll_present hs hhas] at h
    obtain ⟨i, hi, hik⟩ := hhas key hkey hne
    have hslot := congrFun (Except.ok.inj h) i
    rw [creditedTable, if_pos ⟨hi, hik ▸ hkey⟩, hik, EntityRecord.receiveAll_self_iff] at hslot
    exact ⟨i, hi, hik, hslot hne⟩
  · intro h
    have hhas : ∀ key, key ≠ m256i.zero → creditsTo key vle ≠ [] → HasEntity depth s key := by
      intro key hkey hne
      obtain ⟨i, hi, hik, -⟩ := h key hkey hne
      exact ⟨i, hi, hik⟩
    have hsame : creditedTable depth s tick vle = s := by
      funext i
      by_cases hi : i < 2 ^ depth ∧ (s i).publicKey ≠ m256i.zero
      · rw [creditedTable, if_pos hi, EntityRecord.receiveAll_self_iff]
        intro hne
        obtain ⟨j, hj, hjk, hcancel⟩ := h _ hi.2 hne
        have hji : j = i := (hs.keyed.unique i j hi.1 hj hi.2 hjk.symm).symm
        rwa [hji] at hcancel
      · rw [creditedTable, if_neg hi]
    rw [creditAll_present hs hhas, hsame]

/-! ## A window -/

/-- The payment of a window as the code takes it off the source, mod `2 ^ 64`. -/
def windowTotal (vle : List LogEvent) : BitVec 64 := (vle.map (fun le => le.quTransfer.amount)).sum

/-- The wrapped-around payment is one that the source can make. -/
def WrappedPaid (depth : Nat) (s : Spectrum) (source : m256i) (vle : List LogEvent) : Prop :=
  0 ≤ (windowTotal vle).toInt ∧ HasEnergy depth s source (windowTotal vle).toInt

theorem paidBy_of_all (h : ∀ le ∈ vle, le.quTransfer.sourcePublicKey = source) :
    paidBy source vle = windowTotal vle := by
  rw [paidBy, List.filter_eq_self.mpr (fun le hle => decide_eq_true (h le hle)), windowTotal]

/-- A window is of transfers of the source. -/
def OneSource (source : m256i) (vle : List LogEvent) : Prop :=
  vle ≠ [] ∧ ∀ le ∈ vle, le.getType = QU_TRANSFER ∧ le.quTransfer.sourcePublicKey = source

/-- What a window of one source does, by where the lookup of the source ends. -/
theorem OneSource.cases (h : OneSource source vle) :
    (∀ e, spectrumIndex depth s source = .error e →
      processDistributeDividends depth s vle = .error e) ∧
    (spectrumIndex depth s source = .ok none →
      processDistributeDividends depth s vle = .ok (s, false)) ∧
    ∀ x, spectrumIndex depth s source = .ok (some x) →
      processDistributeDividends depth s vle =
        (creditAll depth (windowTick vle) vle
          (decreaseEnergy s x (windowTotal vle) (windowTick vle)).1).map (fun s' => (s', true)) := by
  obtain ⟨hne, hall⟩ := h
  obtain ⟨first, rest, rfl⟩ := List.exists_cons_of_ne_nil hne
  have hsources : ∀ le ∈ first :: rest, le.quTransfer.sourcePublicKey = source :=
    fun le hle => (hall le hle).2
  have htypes := all_transfers_iff.mpr (fun le hle => (hall le hle).1)
  have htotal : dividendTotal source (first :: rest) = some (windowTotal (first :: rest)) :=
    dividendTotal_eq_some_iff.mpr ⟨hsources, (paidBy_of_all hsources).symm⟩
  have htick : windowTick (first :: rest) = first.getTick := rfl
  simp only [processDistributeDividends, htypes, hsources first List.mem_cons_self, htotal,
    Bool.false_eq_true, if_false]
  refine ⟨fun e he => by rw [he]; rfl, fun hnone => by rw [hnone]; rfl, fun x hx => ?_⟩
  rw [hx, htick]
  show (creditAll depth first.getTick (first :: rest) _ >>= fun s' => pure (s', true)) = _
  cases creditAll depth first.getTick (first :: rest) _ with
  | error e => rfl
  | ok s' => rfl

theorem map_true_eq_ok {r : Except Halt Spectrum} :
    (∃ b, r.map (fun s' => (s', true)) = .ok (s, b)) ↔ r = .ok s := by
  cases r with
  | error e => simp [Except.map]
  | ok s' => simp [Except.map]

theorem processDistributeDividends_unpaid_iff (hs : WellFormedSpectrum depth s)
    (hw : OneSource source vle) (hsource : source ≠ m256i.zero) :
    (∃ b, processDistributeDividends depth s vle = .ok (s, b)) ↔
      (¬ HasEntity depth s source ∧ HasFreeSlot depth s) ∨
        (HasEntity depth s source ∧ ¬ WrappedPaid depth s source vle ∧
          CreditsCancel depth s (windowTick vle) vle) := by
  obtain ⟨herror, hnone, hsome⟩ := @OneSource.cases depth s _ _ hw
  by_cases hhas : HasEntity depth s source
  · have hpresent := hhas
    obtain ⟨x, hx, hxk⟩ := hhas
    have hindex := spectrumIndex_present hs hsource hx hxk
    rw [hsome x hindex, map_true_eq_ok]
    by_cases hpaid : WrappedPaid depth s source vle
    · -- the debit is made, and the credits do not take back that it was counted
      refine iff_of_false ?_ ?_
      · intro hrun
        obtain ⟨hamount, y, hy, hyk, hpay⟩ := hpaid
        have hyx : y = x := hs.keyed.unique y x hy hx (hyk ▸ hsource) (hyk.trans hxk.symm)
        rw [hyx] at hpay
        have hdebit : Debited depth s (decreaseEnergy s x (windowTotal vle) (windowTick vle)).1
            source (windowTotal vle) (windowTick vle) := decreaseEnergy_debited hindex hamount hpay
        have hsame : SameOutgoing s s := fun _ => rfl
        exact hdebit.not_sameOutgoing (hsame.trans_symm (creditAll_sameOutgoing hrun))
      · rintro (⟨habsent, -⟩ | ⟨-, hnot, -⟩)
        · exact habsent hpresent
        · exact hnot hpaid
    · have hfailed : (decreaseEnergy s x (windowTotal vle) (windowTick vle)).1 = s := by
        apply decreaseEnergy_failed
        rintro ⟨hamount, hpay⟩
        exact hpaid ⟨hamount, x, hx, hxk, hpay⟩
      rw [hfailed, ← creditAll_self_iff hs]
      constructor
      · exact fun hrun => Or.inr ⟨hpresent, hpaid, hrun⟩
      · rintro (⟨habsent, -⟩ | ⟨-, -, hcredits⟩)
        · exact absurd hpresent habsent
        · exact hcredits
  · constructor
    · rintro ⟨b, hrun⟩
      cases hindex : spectrumIndex depth s source with
      | error e =>
          rw [herror e hindex] at hrun
          cases hrun
      | ok o =>
          have hreturns := (spectrumIndex_returns_iff hs hsource).mp ⟨o, hindex⟩
          exact Or.inl ⟨hhas, hreturns.resolve_left hhas⟩
    · rintro (⟨-, hfree⟩ | ⟨hpresent, -⟩)
      · exact ⟨false, hnone (spectrumIndex_absent hhas hfree)⟩
      · exact absurd hpresent hhas

end unpaid

/-- A transfer or a window whose source cannot pay leaves the table as it was exactly when the
lookup of the source comes back and the credits come to nothing: for a transfer, the destination is
zero or the amount negative; for a window, the source is absent, or its wrapped-around total is not
paid either and the credits are none or cancel out. -/
theorem unpaid_unchanged_iff (depth : Nat) (s : Spectrum) (hs : WellFormedSpectrum depth s) :
    (∀ le : LogEvent, Unpaid depth s le.quTransfer.sourcePublicKey le.quTransfer.amount.toInt →
      (processQuTransfer depth s le = .ok s ↔
        (HasEntity depth s le.quTransfer.sourcePublicKey ∨ HasFreeSlot depth s) ∧
          (le.quTransfer.destinationPublicKey = m256i.zero ∨ le.quTransfer.amount.toInt < 0))) ∧
    ∀ (source : m256i) (vle : List LogEvent), OneSource source vle →
      Unpaid depth s source (vle.map (fun le => le.quTransfer.amount.toInt)).sum →
      ((∃ b, processDistributeDividends depth s vle = .ok (s, b)) ↔
        (¬ HasEntity depth s source ∧ HasFreeSlot depth s) ∨
          (HasEntity depth s source ∧ ¬ WrappedPaid depth s source vle ∧
            CreditsCancel depth s (windowTick vle) vle)) :=
  ⟨fun _ h => processQuTransfer_unpaid_iff hs h,
    fun _ _ hw h => processDistributeDividends_unpaid_iff hs hw h.1⟩

/-- An absent source: a transfer to the zero key, and a window that is dropped. -/
theorem unpaid_unchanged_iff_at_absent :
    processQuTransfer 2 oneEntity (quTransferLog 6 0 100) = .ok oneEntity ∧
      ∃ b, processDistributeDividends 2 oneEntity [quTransferLog 6 7 100] = .ok (oneEntity, b) := by
  have habsent : ¬ HasEntity 2 oneEntity 6 := by
    rintro ⟨i, hi, hik⟩
    revert hik
    revert i
    decide +kernel
  have hfree : HasFreeSlot 2 oneEntity := ⟨0, by decide, by decide⟩
  have hunpaid : ∀ amount, Unpaid 2 oneEntity 6 amount := fun amount =>
    ⟨by decide, Or.inr fun h => habsent ⟨h.choose, h.choose_spec.1, h.choose_spec.2.1⟩⟩
  have hboth := unpaid_unchanged_iff 2 oneEntity wellFormedSpectrum_oneEntity
  have hsource : (quTransferLog 6 0 100).quTransfer.sourcePublicKey = 6 := by decide +kernel
  have hwindow : OneSource 6 [quTransferLog 6 7 100] :=
    ⟨List.cons_ne_nil _ _, by decide +kernel⟩
  constructor
  · refine (hboth.1 (quTransferLog 6 0 100) ?_).mpr ⟨Or.inr hfree, Or.inl (by decide +kernel)⟩
    rw [hsource]
    exact hunpaid _
  · exact (hboth.2 6 _ hwindow (hunpaid _)).mpr (Or.inl ⟨habsent, hfree⟩)

/-- A source without a record is passed over and its destination credited; a window of twice 60 from
an entity that has 100 is not debited and credited twice. -/
theorem unpaid_unchanged_fails_at_credits :
    (WellFormedSpectrum 2 zeroSpectrum ∧ Unpaid 2 zeroSpectrum 5 100 ∧
      ∃ s', processQuTransfer 2 zeroSpectrum (quTransferLog 5 6 100) = .ok s' ∧
        s' ≠ zeroSpectrum ∧ (energy s' 2).toInt = 100) ∧
    WellFormedSpectrum 2 oneEntity ∧ OneSource 5 [quTransferLog 5 6 60, quTransferLog 5 6 60] ∧
      Unpaid 2 oneEntity 5 120 ∧
      ∃ s', processDistributeDividends 2 oneEntity
          [quTransferLog 5 6 60, quTransferLog 5 6 60] = .ok (s', true) ∧
        s' ≠ oneEntity ∧ (energy s' 1).toInt = 100 ∧ (energy s' 2).toInt = 120 := by
  have hzero : Unpaid 2 zeroSpectrum 5 100 :=
    ⟨by decide, Or.inr fun h => not_hasEntity_zeroSpectrum (by decide)
      ⟨h.choose, h.choose_spec.1, h.choose_spec.2.1⟩⟩
  have hone : Unpaid 2 oneEntity 5 120 := by
    refine ⟨by decide, Or.inr ?_⟩
    rintro ⟨i, hi, -, hpay⟩
    revert hpay
    revert i
    decide +kernel
  have hne : ∀ {s s' : Spectrum}, (s' 2).publicKey ≠ (s 2).publicKey → s' ≠ s := by
    rintro s s' h rfl
    exact h rfl
  refine ⟨⟨wellFormedSpectrum_zero 2, hzero, _, rfl, hne (by decide +kernel), by decide +kernel⟩,
    wellFormedSpectrum_oneEntity, ⟨List.cons_ne_nil _ _, by decide +kernel⟩, hone, _, rfl,
    hne (by decide +kernel), by decide +kernel, by decide +kernel⟩

end QubicBob
