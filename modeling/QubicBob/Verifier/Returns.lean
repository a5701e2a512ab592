import QubicBob.Ledger.Conservation
import QubicBob.Verifier.Skips
import QubicBob.Verifier.UnknownRecords

set_option autoImplicit false

/-! # When a handler comes back

A handler can fail to come back in two ways: a probe goes round a table in which nothing stops it,
or an index that was not found is used all the same. Both can be seen in the ledger before the call.
A probe ends when the table has the record it looks for or an empty slot; where a handler probes a
second time, in a table it has already written to, the slots it has taken are the ones its first
probes stop at. `Call.Returns` puts this down for each handler, and `Call.returns_iff` says that it
decides whether the handler comes back or stops the process.
-/

namespace QubicBob

open Probe BitWords

/-! ## The spectrum -/

/-- The keys of a table of entities. -/
def spectrumKeys (s : Spectrum) : Nat → m256i := fun i => (s i).publicKey

/-- The probe for a key has a slot to stop at: its own or an empty one. -/
def FindsSlot (depth : Nat) (keys : Nat → m256i) (key : m256i) : Prop :=
  ∃ i, i < 2 ^ depth ∧ (keys i = key ∨ keys i = m256i.zero)

/-- The key in the slot where its probe stops. -/
def claimSlot (depth : Nat) (keys : Nat → m256i) (key : m256i) : Nat → m256i :=
  match probe (keyStop m256i.zero keys key) depth (homeSlot depth key) with
  | some i => Function.update keys i key
  | none => keys

/-- One key after the other finds a slot and takes it. -/
def FindSlots (depth : Nat) : List m256i → (Nat → m256i) → Prop
  | [], _ => True
  | key :: rest, keys =>
      FindsSlot depth keys key ∧ FindSlots depth rest (claimSlot depth keys key)

/-- The transfer is looked up by its destination: the zero key and a negative amount are not. -/
def isCredited (le : LogEvent) : Bool :=
  le.quTransfer.destinationPublicKey != m256i.zero && decide (0 ≤ le.quTransfer.amount.toInt)

/-- The destinations that the crediting loop of a window looks up, in order. -/
def creditedKeys (vle : List LogEvent) : List m256i :=
  (vle.filter isCredited).map (fun le => le.quTransfer.destinationPublicKey)

def TransferReturns (depth : Nat) (s : Spectrum) (le : LogEvent) : Prop :=
  (le.quTransfer.sourcePublicKey = m256i.zero ∨
    FindsSlot depth (spectrumKeys s) le.quTransfer.sourcePublicKey) ∧
  (isCredited le = true → FindsSlot depth (spectrumKeys s) le.quTransfer.destinationPublicKey)

def BurnReturns (depth : Nat) (s : Spectrum) (le : LogEvent) : Prop :=
  le.burning.sourcePublicKey = m256i.zero ∨
    FindsSlot depth (spectrumKeys s) le.burning.sourcePublicKey

/-- A window that passes the checks looks up its source and, when this is there, its
destinations. -/
def DividendsReturn (depth : Nat) (s : Spectrum) (dd : List LogEvent) : Prop :=
  ∀ first rest, dd = first :: rest → windowAccepted dd = true →
    FindsSlot depth (spectrumKeys s) first.quTransfer.sourcePublicKey ∧
      ((∃ i, spectrumIndex depth s first.quTransfer.sourcePublicKey = .ok (some i)) →
        FindSlots depth (creditedKeys dd) (spectrumKeys s))

section Spectrum

variable {depth : Nat} {s s' : Spectrum} {key : m256i} {amount : BitVec 64} {tick : BitVec 32}

theorem findsSlot_iff : (∃ i, probe (entityStop s key) depth (homeSlot depth key) = some i) ↔
    FindsSlot depth (spectrumKeys s) key := by
  rw [probe_ends_iff (homeSlot_lt depth key), entityStop_eq]
  simp only [keyStop_eq_true_iff]
  rfl

theorem spectrumIndex_ends_iff : (∃ o, spectrumIndex depth s key = .ok o) ↔
    key = m256i.zero ∨ FindsSlot depth (spectrumKeys s) key := by
  by_cases hkey : key = m256i.zero
  · rw [hkey]
    exact iff_of_true ⟨none, rfl⟩ (Or.inl rfl)
  · rw [spectrumIndex_ok_iff hkey, findsSlot_iff, or_iff_right hkey]

/-- What an increase that looks up its key comes back with: the key has its slot. -/
theorem increaseEnergy_keys (hkey : key ≠ m256i.zero) (hamount : 0 ≤ amount.toInt)
    (h : increaseEnergy depth s key amount tick = .ok s') :
    spectrumKeys s' = claimSlot depth (spectrumKeys s) key := by
  have hz : key.isZero = false := Bool.eq_false_iff.mpr fun hc => hkey (m256i.isZero_iff.mp hc)
  rw [increaseEnergy, if_pos ⟨hz, hamount⟩, bind_eq_ok] at h
  obtain ⟨i, hi, h⟩ := h
  have hprobe : probe (keyStop m256i.zero (spectrumKeys s) key) depth (homeSlot depth key) =
      some i := orDiverge_eq_ok.mp hi
  rw [claimSlot, hprobe]
  funext j
  by_cases hown : ((s i).publicKey == key) = true
  · rw [if_pos hown] at h
    rw [← Except.ok.inj h]
    by_cases hj : j = i
    · simp [spectrumKeys, hj, EntityRecord.receive, beq_iff_eq.mp hown]
    · simp [spectrumKeys, Function.update_of_ne hj]
  · rw [if_neg hown] at h
    rw [← Except.ok.inj h]
    by_cases hj : j = i
    · simp [spectrumKeys, hj, EntityRecord.create]
    · simp [spectrumKeys, Function.update_of_ne hj]

theorem increaseEnergy_returns_iff (hkey : key ≠ m256i.zero) (hamount : 0 ≤ amount.toInt) :
    (∃ s', increaseEnergy depth s key amount tick = .ok s') ↔
      FindsSlot depth (spectrumKeys s) key := by
  rw [← findsSlot_iff]
  constructor
  · rintro ⟨s', h⟩
    exact (spectrumIndex_ok_iff hkey).mp (canReceive_of_increaseEnergy hkey hamount h).2
  · intro h
    exact increaseEnergy_returns hkey ⟨hamount, (spectrumIndex_ok_iff hkey).mpr h⟩

/-- A debit leaves the keys alone. -/
theorem spectrumKeys_debited {i : Nat} :
    spectrumKeys (decreaseEnergy s i amount tick).1 = spectrumKeys s :=
  funext (decreaseEnergy_keys i)

variable {le : LogEvent}

theorem isCredited_iff : isCredited le = true ↔
    le.quTransfer.destinationPublicKey ≠ m256i.zero ∧ 0 ≤ le.quTransfer.amount.toInt := by
  rw [isCredited, Bool.and_eq_true, bne_iff_ne, decide_eq_true_iff]

/-- A credit that is not looked up changes nothing. -/
theorem increaseEnergy_passed (h : ¬ isCredited le = true) :
    increaseEnergy depth s le.quTransfer.destinationPublicKey le.quTransfer.amount tick
      = .ok s := by
  refine if_neg fun hc => h (isCredited_iff.mpr ⟨?_, hc.2⟩)
  intro hzero
  rw [hzero] at hc
  exact absurd hc.1 (by decide)

theorem credit_returns_iff : (∃ s', increaseEnergy depth s le.quTransfer.destinationPublicKey
      le.quTransfer.amount tick = .ok s') ↔
    (isCredited le = true → FindsSlot depth (spectrumKeys s) le.quTransfer.destinationPublicKey) := by
  by_cases hc : isCredited le = true
  · obtain ⟨hkey, hamount⟩ := isCredited_iff.mp hc
    rw [increaseEnergy_returns_iff hkey hamount]
    exact ⟨fun h _ => h, fun h => h hc⟩
  · exact iff_of_true ⟨s, increaseEnergy_passed hc⟩ (fun h => absurd h hc)

/-- The crediting loop comes back exactly when one destination after the other finds a slot. -/
theorem creditAll_returns_iff {vle : List LogEvent} : ∀ {s : Spectrum},
    (∃ s', creditAll depth tick vle s = .ok s') ↔
      FindSlots depth (creditedKeys vle) (spectrumKeys s) := by
  induction vle with
  | nil => exact iff_of_true ⟨_, rfl⟩ trivial
  | cons le vle ih =>
      intro s
      have hcons : (∃ s', creditAll depth tick (le :: vle) s = .ok s') ↔
          ∃ m, increaseEnergy depth s le.quTransfer.destinationPublicKey le.quTransfer.amount tick
            = .ok m ∧ FindSlots depth (creditedKeys vle) (spectrumKeys m) := by
        simp only [creditAll, bind_eq_ok, ← ih]
        constructor
        · rintro ⟨s', m, hm, h⟩
          exact ⟨m, hm, s', h⟩
        · rintro ⟨m, hm, s', h⟩
          exact ⟨s', m, hm, h⟩
      rw [hcons]
      by_cases hc : isCredited le = true
      · obtain ⟨hkey, hamount⟩ := isCredited_iff.mp hc
        have hkeys : creditedKeys (le :: vle) =
            le.quTransfer.destinationPublicKey :: creditedKeys vle := by
          simp [creditedKeys, hc]
        rw [hkeys, FindSlots, ← @increaseEnergy_returns_iff depth s _ _ tick hkey hamount]
        constructor
        · rintro ⟨m, hm, hrest⟩
          rw [increaseEnergy_keys hkey hamount hm] at hrest
          exact ⟨⟨m, hm⟩, hrest⟩
        · rintro ⟨⟨m, hm⟩, hrest⟩
          rw [← increaseEnergy_keys hkey hamount hm] at hrest
          exact ⟨m, hm, hrest⟩
      · have hkeys : creditedKeys (le :: vle) = creditedKeys vle := by
          simp [creditedKeys, hc]
        rw [hkeys]
        constructor
        · rintro ⟨m, hm, hrest⟩
          rw [increaseEnergy_passed hc] at hm
          rwa [← Except.ok.inj hm] at hrest
        · exact fun hrest => ⟨s, increaseEnergy_passed hc, hrest⟩

theorem processQuTransfer_returns_iff :
    (∃ s', processQuTransfer depth s le = .ok s') ↔ TransferReturns depth s le := by
  have hcredit : ∀ {o : Option Nat}, (∃ s', increaseEnergy depth (match o with
        | some i => (decreaseEnergy s i le.quTransfer.amount le.getTick).1
        | none => s) le.quTransfer.destinationPublicKey le.quTransfer.amount le.getTick = .ok s') ↔
      (isCredited le = true →
        FindsSlot depth (spectrumKeys s) le.quTransfer.destinationPublicKey) := by
    intro o
    cases o with
    | none => exact credit_returns_iff
    | some i => exact credit_returns_iff.trans (by rw [spectrumKeys_debited])
  rw [TransferReturns, ← spectrumIndex_ends_iff]
  constructor
  · rintro ⟨s', h⟩
    obtain ⟨o, ho, h⟩ := bind_eq_ok.mp h
    exact ⟨⟨o, ho⟩, hcredit.mp ⟨s', h⟩⟩
  · rintro ⟨⟨o, ho⟩, h⟩
    obtain ⟨s', hs'⟩ := (@hcredit o).mpr h
    exact ⟨s', bind_eq_ok.mpr ⟨o, ho, hs'⟩⟩

theorem processQuBurn_returns_iff :
    (∃ s', processQuBurn depth s le = .ok s') ↔ BurnReturns depth s le := by
  rw [BurnReturns, ← spectrumIndex_ends_iff]
  constructor
  · rintro ⟨s', h⟩
    obtain ⟨o, ho, -⟩ := bind_eq_ok.mp h
    exact ⟨o, ho⟩
  · rintro ⟨o, ho⟩
    cases o with
    | none => exact ⟨_, bind_eq_ok.mpr ⟨none, ho, rfl⟩⟩
    | some i => exact ⟨_, bind_eq_ok.mpr ⟨some i, ho, rfl⟩⟩

/-- A window that passes the checks is its lookup followed by its credits. -/
theorem processDistributeDividends_accepted {first : LogEvent} {rest : List LogEvent}
    (h : windowAccepted (first :: rest) = true) :
    processDistributeDividends depth s (first :: rest) = (do
      match ← spectrumIndex depth s first.quTransfer.sourcePublicKey with
      | none => pure (s, false)
      | some i =>
          let s' ← creditAll depth first.getTick (first :: rest) (decreaseEnergy s i
            (paidBy first.quTransfer.sourcePublicKey (first :: rest)) first.getTick).1
          pure (s', true)) := by
  obtain ⟨first', rest', heq, htypes, hsame, -⟩ := windowAccepted_iff.mp h
  obtain ⟨rfl, rfl⟩ := List.cons.inj heq
  have hany := Bool.eq_false_iff.mp (all_transfers_iff.mpr htypes)
  have htotal := dividendTotal_eq_some_iff.mpr ⟨hsame, rfl⟩
  unfold processDistributeDividends
  dsimp only
  rewrite [if_neg hany, htotal]
  rfl

theorem processDistributeDividends_returns_iff {dd : List LogEvent} :
    (∃ r, processDistributeDividends depth s dd = .ok r) ↔ DividendsReturn depth s dd := by
  cases haccepted : windowAccepted dd with
  | false =>
      refine iff_of_true ?_ ?_
      · obtain ⟨b, hb⟩ := @processDistributeDividends_refused depth s dd haccepted
        exact ⟨_, hb⟩
      · intro first rest _ hacc
        rw [haccepted] at hacc
        cases hacc
  | true =>
      obtain ⟨first, rest, rfl, -, -, hsource⟩ := windowAccepted_iff.mp haccepted
      have hlookup := @spectrumIndex_ends_iff depth s first.quTransfer.sourcePublicKey
      rw [or_iff_right hsource] at hlookup
      have hcredits : ∀ i, (∃ s', creditAll depth first.getTick (first :: rest)
          (decreaseEnergy s i (paidBy first.quTransfer.sourcePublicKey (first :: rest))
            first.getTick).1 = .ok s') ↔
          FindSlots depth (creditedKeys (first :: rest)) (spectrumKeys s) := by
        intro i
        rw [creditAll_returns_iff, spectrumKeys_debited]
      rw [processDistributeDividends_accepted haccepted]
      constructor
      · rintro ⟨r, h⟩ first' rest' heq -
        obtain ⟨rfl, rfl⟩ := List.cons.inj heq
        obtain ⟨o, ho, h⟩ := bind_eq_ok.mp h
        refine ⟨hlookup.mp ⟨o, ho⟩, ?_⟩
        rintro ⟨i, hi⟩
        rw [hi] at ho
        rw [← Except.ok.inj ho] at h
        obtain ⟨s', hs', -⟩ := bind_eq_ok.mp h
        exact (hcredits i).mp ⟨s', hs'⟩
      · intro h
        obtain ⟨hfinds, hslots⟩ := h first rest rfl haccepted
        obtain ⟨o, ho⟩ := hlookup.mpr hfinds
        cases o with
        | none => exact ⟨_, bind_eq_ok.mpr ⟨none, ho, rfl⟩⟩
        | some i =>
            obtain ⟨s', hs'⟩ := (hcredits i).mpr (hslots ⟨i, ho⟩)
            exact ⟨_, bind_eq_ok.mpr ⟨some i, ho, bind_eq_ok.mpr ⟨s', hs', rfl⟩⟩⟩

end Spectrum

/-! ## The asset table -/

/-- The issuance is found, or three slots are empty. -/
def IssueReturns (depth : Nat) (A : Assets) (issuer : m256i) (name : BitVec 56) : Prop :=
  (∃ i : Nat, findIssuerIndex depth A issuer (name.zeroExtend 64) = .ok (i : Int)) ∨
    3 ≤ room depth A

/-- The probe for the destination ownership ends, and beside the slot it ends at there is one for
the possession: the possession's own or an empty one. -/
def MoveSlots (depth : Nat) (A : Assets) (issuanceIndex : BitVec 32) (ownerKey : m256i)
    (ownershipContract : BitVec 16) (possessorKey : m256i) (possessionContract : BitVec 16) : Prop :=
  ∃ dOwn, probeHolding depth A OWNERSHIP ownerKey ownershipContract issuanceIndex = .ok dOwn ∧
    ∃ j, j < 2 ^ depth ∧ j ≠ dOwn ∧ (isEmptySlot A j = true ∨
      (A j).isHolding POSSESSION possessorKey possessionContract (BitVec.ofNat 32 dOwn) = true)

/-- The lookups of the pair end, and when they find records that may give the shares, these are
burned or there are slots for them. -/
def ChangeOwnershipReturns (depth : Nat) (A : Assets) (le0 le1 : LogEvent) : Prop :=
  ChangeOwnershipStops le0 le1 ∨
  ∃ found, pairLookup depth A (ownershipHalf le0 le1) = .ok found ∧
    ∀ own poss, found = some (own, poss) →
      0 < (ownershipHalf le0 le1).numberOfShares.toInt →
      CanMove depth A own poss (ownershipHalf le0 le1).numberOfShares →
      (ownershipHalf le0 le1).destinationPublicKey ≠ m256i.zero →
      MoveSlots depth A (A own).index (ownershipHalf le0 le1).destinationPublicKey
        (A own).managingContractIndex (ownershipHalf le0 le1).destinationPublicKey
        (A poss).managingContractIndex

/-- The lookups of the pair end, and they have found what the transfer goes on to look at: nothing
when no shares are to move, else the ownership; when this has the shares also the possession; and
when both have them, slots to move them to. -/
def ChangeManagingReturns (depth : Nat) (A : Assets) (le0 le1 : LogEvent) : Prop :=
  ¬ managingPair le0 le1 ∨
  ∃ a b, managingLookup depth A (managingHalves le0 le1).1 (managingHalves le0 le1).2 = .ok (a, b) ∧
    ((managingHalves le0 le1).1.numberOfShares.toInt ≤ 0 ∨ a ≠ -1 ∧
      ((A a.toNat).shares < (managingHalves le0 le1).1.numberOfShares.toInt ∨ b ≠ -1 ∧
        ((A b.toNat).shares < (managingHalves le0 le1).1.numberOfShares.toInt ∨
          MoveSlots depth A (A a.toNat).index (A a.toNat).publicKey (managingDestination le0 le1)
            (A b.toNat).publicKey (managingDestination le0 le1))))

section Assets

variable {depth : Nat} {u : Universe} {A : Assets} {own poss dOwn j : Nat} {key ok pk : m256i}
  {oc pc : BitVec 16} {n : BitVec 64}

theorem issueAsset_returns_iff {issuer : m256i} {name : BitVec 56} {d : BitVec 8}
    {unit : BitVec 56} {c : BitVec 16} :
    (∃ r, issueAsset depth u issuer name d unit n c = .ok r) ↔
      IssueReturns depth u.assets issuer name := by
  have hfound : (∃ i : Nat, findIssuerIndex depth u.assets issuer (name.zeroExtend 64) =
      .ok (i : Int)) ↔ ∃ i, probeIssuance depth u.assets issuer (name.zeroExtend 64) = .ok i ∧
        isEmptySlot u.assets i = false := by
    simp only [findIssuerIndex, bind_eq_ok]
    constructor
    · rintro ⟨i, x, hx, h⟩
      refine ⟨x, hx, Bool.eq_false_iff.mpr fun hempty => ?_⟩
      rw [if_pos hempty] at h
      have := Except.ok.inj h
      omega
    · rintro ⟨i, hi, hfull⟩
      exact ⟨i, i, hi, by rw [hfull]; rfl⟩
  rw [IssueReturns, hfound]
  constructor
  · rintro ⟨⟨u', r⟩, hrun⟩
    rcases issueAsset_cases hrun with
      ⟨i, -, -, hi, hfull⟩ | ⟨iss, own, poss, -, hiss, hempty, hown, hposs, -⟩
    · exact Or.inl ⟨i, hi, hfull⟩
    · exact Or.inr (issued_applied hiss hempty hown hposs).room
  · rintro (⟨i, hi, hfull⟩ | hroom)
    · refine ⟨(u, .alreadyIssued i), ?_⟩
      rw [issueAsset, hi]
      simp only [bind, Except.bind, hfull, Bool.false_eq_true, if_false]
      rfl
    · obtain ⟨u', r, hrun⟩ := issueAsset_returns hroom issuer name d unit n c
      exact ⟨(u', r), hrun⟩

/-- The slots other than the destination, after a move of ownerships. -/
theorem moveBetween_of_ne (hj : j ≠ dOwn) :
    (moveBetween A own dOwn OWNERSHIP ok oc (A own).index.toNat n j).type = (A j).type ∧
    (moveBetween A own dOwn OWNERSHIP ok oc (A own).index.toNat n j).index = (A j).index ∧
    (moveBetween A own dOwn OWNERSHIP ok oc (A own).index.toNat n j).publicKey =
      (A j).publicKey ∧
    (moveBetween A own dOwn OWNERSHIP ok oc (A own).index.toNat n j).managingContractIndex =
      (A j).managingContractIndex := by
  have hdebit : ∀ B : Assets, B = Function.update A own ((A own).subShares n) →
      (B j).type = (A j).type ∧ (B j).index = (A j).index ∧ (B j).publicKey = (A j).publicKey ∧
        (B j).managingContractIndex = (A j).managingContractIndex := by
    rintro B rfl
    by_cases hown : j = own
    · rw [hown, Function.update_self]
      exact ⟨rfl, rfl, rfl, rfl⟩
    · rw [Function.update_of_ne hown]
      exact ⟨rfl, rfl, rfl, rfl⟩
  unfold moveBetween
  rw [Function.update_of_ne hj]
  split
  · rw [Function.update_of_ne hj]
    exact hdebit _ rfl
  · exact hdebit _ rfl

/-- The destination of a move of ownerships is one. -/
theorem moveBetween_self (hstop : isEmptySlot A dOwn = true ∨ (A dOwn).type = OWNERSHIP) :
    (moveBetween A own dOwn OWNERSHIP ok oc (A own).index.toNat n dOwn).type = OWNERSHIP := by
  have hdebit : (Function.update A own ((A own).subShares n) dOwn).type = (A dOwn).type := by
    by_cases hown : dOwn = own
    · rw [hown, Function.update_self]
      rfl
    · rw [Function.update_of_ne hown]
  unfold moveBetween
  rw [Function.update_self]
  split
  · rw [Function.update_self]
    rfl
  next hfull =>
    have htype : (A dOwn).type = OWNERSHIP := by
      refine hstop.resolve_left fun hempty => hfull ?_
      rw [isEmptySlot_iff] at hempty ⊢
      rw [hdebit, hempty]
    exact hdebit.trans htype

/-- The second probe of a move sees the table with the ownership already moved: what stops it there
is what stops it in the table before, beside the slot of the ownership. -/
theorem moveRoom_iff :
    MoveRoom depth A own ok oc pk pc n ↔ MoveSlots depth A (A own).index ok oc pk pc := by
  refine exists_congr fun dOwn => ?_
  rw [exists_and_left]
  refine and_congr_right fun hdOwn => ?_
  have hprobe := probeHolding_eq_ok.mp hdOwn
  have hstop := probe_stop (homeSlot_lt depth ok) hprobe
  rw [Bool.or_eq_true, AssetRecord.isHolding_iff] at hstop
  have hself := @moveBetween_self A own dOwn ok oc n (hstop.imp id fun h => h.1)
  simp only [probeHolding_eq_ok]
  rw [probe_ends_iff (homeSlot_lt depth pk)]
  refine exists_congr fun j => and_congr_right fun _ => ?_
  by_cases hj : j = dOwn
  · rw [hj, Bool.or_eq_true, isEmptySlot_iff, AssetRecord.isHolding_iff, hself]
    refine iff_of_false ?_ (fun h => h.1 rfl)
    rintro (h | ⟨h, -⟩)
    · exact absurd h (by decide)
    · exact absurd h (by decide)
  · obtain ⟨ht, hi, hk, hc⟩ := @moveBetween_of_ne A own dOwn j ok oc n hj
    rw [Bool.or_eq_true, isEmptySlot_iff, isEmptySlot_iff, AssetRecord.isHolding_iff,
      AssetRecord.isHolding_iff, ht, hi, hk, hc]
    exact ⟨fun h => ⟨hj, h⟩, fun h => h.2⟩

/-- The guard of a transfer between two slots of the table. -/
theorem checkedSource_of_not_canMove (hown : own < 2 ^ depth) (hposs : poss < 2 ^ depth)
    (h : ¬ CanMove depth A own poss n) : checkedSource depth A own poss n = .ok none := by
  obtain ⟨o, ho⟩ : ∃ o, checkedSource depth A own poss n = .ok o := by
    rw [checkedSource, slotOf_eq_ok.mpr ⟨rfl, hown⟩, slotOf_eq_ok.mpr ⟨rfl, hposs⟩]
    simp only [bind, Except.bind]
    split
    · split
      · exact ⟨_, rfl⟩
      · exact ⟨_, rfl⟩
    · exact ⟨_, rfl⟩
  cases o with
  | none => exact ho
  | some src =>
      obtain ⟨heq, heq', hmove⟩ := checkedSource_some ho
      rw [← Int.ofNat.inj heq, ← Int.ofNat.inj heq'] at hmove
      exact absurd hmove h

theorem transferSlots_returns_iff (hown : own < 2 ^ depth) (hposs : poss < 2 ^ depth)
    (hiss : (u.assets own).index.toNat < 2 ^ depth) :
    (∃ r, transferShareOwnershipAndPossession depth u own poss key n = .ok r) ↔
      (0 < n.toInt → CanMove depth u.assets own poss n → key ≠ m256i.zero →
        MoveSlots depth u.assets (u.assets own).index key (u.assets own).managingContractIndex key
          (u.assets poss).managingContractIndex) := by
  by_cases hn : 0 < n.toInt
  swap
  · refine iff_of_true ⟨(u, .failed), if_pos (not_lt.mp hn)⟩ (fun h => absurd h hn)
  by_cases hmove : CanMove depth u.assets own poss n
  swap
  · refine iff_of_true ⟨(u, .failed), ?_⟩ (fun _ h => absurd h hmove)
    rw [transferShareOwnershipAndPossession, if_neg (not_le.mpr hn),
      checkedSource_of_not_canMove hown hposs hmove]
    rfl
  rw [transferSlots_eq hn hmove]
  by_cases hkey : key = m256i.zero
  · -- the issuance of the ownership is in the table, so a burn comes back
    refine iff_of_true ?_ (fun _ _ h => absurd hkey h)
    rw [if_pos (m256i.isZero_iff.mpr hkey), burnShares, slotOf_eq_ok.mpr ⟨rfl, hiss⟩]
    simp only [bind, Except.bind]
    split
    · exact ⟨_, rfl⟩
    · exact ⟨_, rfl⟩
  · rw [if_neg (fun hc => hkey (m256i.isZero_iff.mp hc)), ← moveRoom_iff, ← moveShares_ok_iff]
    constructor
    · rintro ⟨⟨u', r⟩, h⟩ - - -
      exact ⟨u', r, h⟩
    · intro h
      obtain ⟨u', r, hr⟩ := h hn hmove hkey
      exact ⟨(u', r), hr⟩

variable {name : BitVec 64} {issuer owner possessor : m256i} {c : BitVec 64}

/-- What the lookups by key find is in the table, with its issuance. -/
theorem lookupByKey_some
    (h : lookupByKey depth A name issuer owner possessor c = .ok (some (own, poss))) :
    own < 2 ^ depth ∧ poss < 2 ^ depth ∧ (A own).index.toNat < 2 ^ depth := by
  rw [lookupByKey, bind_eq_ok] at h
  obtain ⟨iss, hiss, h⟩ := h
  split at h
  · cases Except.ok.inj h
  rw [bind_eq_ok] at h
  obtain ⟨own', hown, h⟩ := h
  split at h
  · cases Except.ok.inj h
  next hfull =>
  rw [bind_eq_ok] at h
  obtain ⟨poss', hposs, h⟩ := h
  split at h
  · cases Except.ok.inj h
  split at h
  swap
  · cases Except.ok.inj h
  obtain ⟨rfl, rfl⟩ := Prod.mk.inj (Option.some.inj (Except.ok.inj h))
  have hhome := homeSlot_lt depth
  have hissLt := probe_lt (hhome issuer) (probeIssuance_eq_ok.mp hiss)
  have hstop := probe_stop (hhome owner) (orDiverge_eq_ok.mp hown)
  rw [Bool.or_eq_true] at hstop
  have hindex := (AssetRecord.matchesHolding_iff.mp (hstop.resolve_left hfull)).2.1
  refine ⟨probe_lt (hhome owner) (orDiverge_eq_ok.mp hown),
    probe_lt (hhome possessor) (orDiverge_eq_ok.mp hposs), ?_⟩
  -- the link holds the low 32 bits of the slot
  calc (A own').index.toNat = iss % 2 ^ 32 := by
        rw [hindex]
        simp
    _ ≤ iss := Nat.mod_le _ _
    _ < 2 ^ depth := hissLt

/-- A lookup that has found nothing, and what comes back all the same. -/
theorem found_iff_of_none {α : Type} {r : α} {P : Nat → Nat → Prop} :
    (∃ r', (.ok r : Except Halt α) = .ok r') ↔
      ∃ found, (.ok none : Except Halt (Option (Nat × Nat))) = .ok found ∧
        ∀ own poss, found = some (own, poss) → P own poss := by
  refine iff_of_true ⟨r, rfl⟩ ⟨none, rfl, ?_⟩
  rintro own poss h
  cases h

/-- A lookup that does not come back. -/
theorem found_iff_of_error {α : Type} {e : Halt} {P : Nat → Nat → Prop} :
    (∃ r, (.error e : Except Halt α) = .ok r) ↔
      ∃ found, (.error e : Except Halt (Option (Nat × Nat))) = .ok found ∧
        ∀ own poss, found = some (own, poss) → P own poss := by
  refine iff_of_false ?_ ?_
  · rintro ⟨r, h⟩
    cases h
  · rintro ⟨found, h, -⟩
    cases h

/-- The transfer by key comes back exactly when its lookups do, and then the transfer between the
slots they have found. -/
theorem transferByKey_returns_iff :
    (∃ r, transferShareOwnershipAndPossessionByKey depth u name issuer owner possessor n c key
        = .ok r) ↔
      ∃ found, lookupByKey depth u.assets name issuer owner possessor c = .ok found ∧
        ∀ own poss, found = some (own, poss) → n.toInt ≤ (u.assets poss).numberOfShares.toInt →
          ∃ r, transferShareOwnershipAndPossession depth u own poss key n = .ok r := by
  -- the two go the same way up to the comparison of the shares
  rw [transferShareOwnershipAndPossessionByKey, lookupByKey]
  cases hiss : probeIssuance depth u.assets issuer name with
  | error e => exact found_iff_of_error
  | ok iss =>
  simp only [bind, Except.bind]
  split
  · exact found_iff_of_none
  cases hown : orDiverge (probe (fun i => isEmptySlot u.assets i ||
      (u.assets i).matchesHolding OWNERSHIP owner c.toInt iss) depth (homeSlot depth owner)) with
  | error e => exact found_iff_of_error
  | ok own =>
  dsimp only
  split
  · exact found_iff_of_none
  cases hposs : orDiverge (probe (fun i => isEmptySlot u.assets i ||
      (u.assets i).isPossessionOf possessor own) depth (homeSlot depth possessor)) with
  | error e => exact found_iff_of_error
  | ok poss =>
  dsimp only
  split
  · exact found_iff_of_none
  split
  swap
  · exact found_iff_of_none
  constructor
  · rintro ⟨r, hrun⟩
    refine ⟨some (own, poss), rfl, ?_⟩
    intro own' poss' heq hle
    obtain ⟨rfl, rfl⟩ := Prod.mk.inj (Option.some.inj heq)
    rw [if_pos hle] at hrun
    cases htransfer : transferShareOwnershipAndPossession depth u own poss key n with
    | error e =>
        rw [htransfer] at hrun
        cases hrun
    | ok r' => exact ⟨r', rfl⟩
  · rintro ⟨found, hfound, h⟩
    by_cases hle : n.toInt ≤ (u.assets poss).numberOfShares.toInt
    · obtain ⟨⟨u', result⟩, hr⟩ := h own poss (Except.ok.inj hfound).symm hle
      rw [if_pos hle, hr]
      dsimp only
      split
      · exact ⟨_, rfl⟩
      · exact ⟨_, rfl⟩
    · rw [if_neg hle]
      exact ⟨_, rfl⟩

variable {le0 le1 : LogEvent}

/-- The pair is refused with an exit, or the transfer by key comes back. -/
theorem processChangeOwnershipAndPossession_returns_iff :
    ((∃ r, processChangeOwnershipAndPossession depth u le0 le1 = .ok r) ∨
      ∃ code, processChangeOwnershipAndPossession depth u le0 le1 = .error (.exit code)) ↔
      ChangeOwnershipReturns depth u.assets le0 le1 := by
  by_cases hstop : ChangeOwnershipStops le0 le1
  · exact iff_of_true (Or.inr ⟨1, processChangeOwnershipAndPossession_stops hstop⟩) (Or.inl hstop)
  rw [processChangeOwnershipAndPossession_eq hstop, ChangeOwnershipReturns, or_iff_right hstop]
  rw [or_iff_left fun ⟨code, h⟩ => transferByKey_neverExits code h, transferByKey_returns_iff]
  refine exists_congr fun found => and_congr_right fun hlook => ?_
  refine forall_congr' fun own => forall_congr' fun poss => forall_congr' fun hfound => ?_
  rw [hfound] at hlook
  obtain ⟨hown, hposs, hiss⟩ := lookupByKey_some hlook
  rw [transferSlots_returns_iff hown hposs hiss]
  -- a possession that can give the shares has them
  exact ⟨fun h hn hmove => h hmove.poss_shares hn hmove, fun h _ => h⟩

/-- A change of managing contracts comes back when it has found what it goes on to look at. -/
theorem managementRights_returns_iff {omcc : AssetOwnershipManagingContractChange}
    {pmcc : AssetPossessionManagingContractChange} {a b : Int} {oc pc : BitVec 16}
    (hlook : managingLookup depth u.assets omcc pmcc = .ok (a, b)) :
    (∃ r, transferShareManagementRights depth u a b oc pc n = .ok r) ↔
      n.toInt ≤ 0 ∨ a ≠ -1 ∧ ((u.assets a.toNat).shares < n.toInt ∨ b ≠ -1 ∧
        ((u.assets b.toNat).shares < n.toInt ∨
          MoveSlots depth u.assets (u.assets a.toNat).index (u.assets a.toNat).publicKey oc
            (u.assets b.toNat).publicKey pc)) := by
  have herror : ∀ {e : Halt}, transferShareManagementRights depth u a b oc pc n = .error e →
      ¬ ∃ r, transferShareManagementRights depth u a b oc pc n = .ok r := by
    rintro e he ⟨r, hr⟩
    rw [he] at hr
    cases hr
  obtain ⟨hcasesA, hcasesB⟩ := managingLookup_cases hlook
  by_cases hn : n.toInt ≤ 0
  · exact iff_of_true ⟨_, managementRights_nothing hn⟩ (Or.inl hn)
  rw [or_iff_right hn]
  -- the ownership
  rcases hcasesA with rfl | ⟨o, rfl, ho, htO⟩
  · exact iff_of_false (herror (managementRights_error hn checkedSource_no_ownership))
      fun h => h.1 rfl
  rw [and_iff_right (show (o : Int) ≠ -1 by omega), Int.toNat_natCast]
  by_cases hpoorO : (u.assets o).shares < n.toInt
  · exact iff_of_true ⟨_, managementRights_none hn (checkedSource_poor_ownership ho hpoorO)⟩
      (Or.inl hpoorO)
  rw [or_iff_right hpoorO]
  -- the possession
  rcases hcasesB with rfl | ⟨p, rfl, hp, htP, hindexP⟩
  · exact iff_of_false (herror (managementRights_error hn (checkedSource_no_possession ho htO hpoorO)))
      fun h => h.1 rfl
  rw [and_iff_right (show (p : Int) ≠ -1 by omega), Int.toNat_natCast]
  by_cases hpoorP : (u.assets p).shares < n.toInt
  · exact iff_of_true ⟨_, managementRights_none hn
      (checkedSource_poor_possession ho htO hpoorO hp hpoorP)⟩ (Or.inl hpoorP)
  rw [or_iff_right hpoorP]
  -- both have the shares, so they are moved
  have hmove : CanMove depth u.assets o p n :=
    ⟨ho, hp, htO, not_lt.mp hpoorO, htP, not_lt.mp hpoorP, by rw [hindexP]; simp⟩
  rw [transferManagement_eq (not_le.mp hn) hmove, ← @moveRoom_iff depth u.assets o _ _ _ _ n,
    ← moveShares_ok_iff]
  constructor
  · rintro ⟨⟨u', r⟩, h⟩
    exact ⟨u', r, h⟩
  · rintro ⟨u', r, h⟩
    exact ⟨(u', r), h⟩

/-- A pair that belongs together is its lookups and the transfer; one that fails stops the process. -/
theorem processChangeManagingContract_settles_iff (hpair : managingPair le0 le1) :
    ((∃ r, processChangeManagingContract depth u le0 le1 = .ok r) ∨
      ∃ code, processChangeManagingContract depth u le0 le1 = .error (.exit code)) ↔
      ∃ a b, managingLookup depth u.assets (managingHalves le0 le1).1 (managingHalves le0 le1).2 =
        .ok (a, b) ∧
        ∃ r, transferShareManagementRights depth u a b (managingDestination le0 le1)
          (managingDestination le0 le1) (managingHalves le0 le1).1.numberOfShares = .ok r := by
  have hrun := @processChangeManagingContract_eq depth u le0 le1 hpair
  constructor
  · rintro (⟨r, h⟩ | ⟨code, h⟩)
    · rw [hrun] at h
      obtain ⟨⟨a, b⟩, hlook, h⟩ := bind_eq_ok.mp h
      obtain ⟨r', htransfer, -⟩ := bind_eq_ok.mp h
      exact ⟨a, b, hlook, r', htransfer⟩
    · rw [hrun] at h
      cases hlook : managingLookup depth u.assets (managingHalves le0 le1).1
          (managingHalves le0 le1).2 with
      | error e =>
          obtain rfl := managingLookup_error hlook
          rw [hlook] at h
          cases h
      | ok ab =>
      rw [hlook] at h
      -- neither the lookups nor the transfer stop the process
      obtain ⟨r', htransfer, -⟩ := transferShareManagementRights_neverExits.exit_of_bind h
      exact ⟨ab.1, ab.2, rfl, r', htransfer⟩
  · rintro ⟨a, b, hlook, ⟨u', r⟩, htransfer⟩
    rw [hlook] at hrun
    simp only [bind, Except.bind, htransfer] at hrun
    cases hvalue : r.returnValue with
    | true => exact Or.inl ⟨_, hrun.trans (if_pos hvalue)⟩
    | false => exact Or.inr ⟨1, hrun.trans (if_neg (Bool.eq_false_iff.mp hvalue))⟩

/-- The pair is refused with an exit, or its shares are moved. -/
theorem processChangeManagingContract_returns_iff :
    ((∃ r, processChangeManagingContract depth u le0 le1 = .ok r) ∨
      ∃ code, processChangeManagingContract depth u le0 le1 = .error (.exit code)) ↔
      ChangeManagingReturns depth u.assets le0 le1 := by
  by_cases hpair : managingPair le0 le1
  swap
  · exact iff_of_true (Or.inr ⟨1, processChangeManagingContract_not_pair hpair⟩) (Or.inl hpair)
  rw [processChangeManagingContract_settles_iff hpair, ChangeManagingReturns,
    or_iff_right (not_not.mpr hpair)]
  refine exists_congr fun a => exists_congr fun b => and_congr_right fun hlook => ?_
  exact managementRights_returns_iff hlook

end Assets

/-! ## The calls -/

/-- The handler comes back or stops the process: what it looks up in the ledger is there or there
is an empty slot to end the probe, and it goes on with nothing that was not found. -/
def Call.Returns (N : Node) (st : Ledger) : Call → Prop
  | .quTransfer le => TransferReturns N.spectrumDepth st.spectrum le
  | .issueAsset le =>
      IssueReturns N.assetsDepth st.assetUniverse.assets le.assetIssuance.issuerPublicKey
        le.assetIssuance.name
  | .changeOwnershipAndPossession le0 le1 =>
      ChangeOwnershipReturns N.assetsDepth st.assetUniverse.assets le0 le1
  | .changeManagingContract le0 le1 =>
      ChangeManagingReturns N.assetsDepth st.assetUniverse.assets le0 le1
  | .quBurn le => BurnReturns N.spectrumDepth st.spectrum le
  | .distributeDividends dd => DividendsReturn N.spectrumDepth st.spectrum dd
  | .endEpoch _ => True

/-- A call comes back or stops the process exactly when its handler does. -/
theorem settles_map {α β : Type} {x : Except Halt α} {f : α → β} :
    ((∃ b, (do let a ← x; pure (f a)) = Except.ok b) ∨
      ∃ code, (do let a ← x; pure (f a)) = Except.error (.exit code)) ↔
      (∃ a, x = .ok a) ∨ ∃ code, x = .error (.exit code) := by
  cases x with
  | error e => simp [bind, Except.bind]
  | ok a => exact iff_of_true (Or.inl ⟨f a, rfl⟩) (Or.inl ⟨a, rfl⟩)

theorem settles_of_neverExits {α : Type} {x : Except Halt α} (h : NeverExits x) :
    ((∃ a, x = .ok a) ∨ ∃ code, x = .error (.exit code)) ↔ ∃ a, x = .ok a :=
  or_iff_left fun ⟨code, hc⟩ => h code hc

/-- A call comes back or stops the process exactly when the lookups in the ledger it finds say
so. -/
theorem Call.returns_iff {N : Node} {st : Ledger} (call : Call) :
    ((∃ st', call.exec N st = .ok st') ∨ ∃ code, call.exec N st = .error (.exit code)) ↔
      call.Returns N st := by
  cases call with
  | quTransfer le =>
      exact (settles_map.trans (settles_of_neverExits
        (processQuTransfer_neverExits le))).trans processQuTransfer_returns_iff
  | issueAsset le =>
      exact (settles_map.trans (settles_of_neverExits issueAsset_neverExits)).trans
        issueAsset_returns_iff
  | changeOwnershipAndPossession le0 le1 =>
      exact settles_map.trans processChangeOwnershipAndPossession_returns_iff
  | changeManagingContract le0 le1 =>
      exact settles_map.trans processChangeManagingContract_returns_iff
  | quBurn le =>
      exact (settles_map.trans (settles_of_neverExits
        (processQuBurn_neverExits le))).trans processQuBurn_returns_iff
  | distributeDividends dd =>
      exact (settles_map.trans (settles_of_neverExits
        (processDistributeDividends_neverExits dd))).trans processDistributeDividends_returns_iff
  | endEpoch tick => exact iff_of_true (Or.inl ⟨_, rfl⟩) trivial

end QubicBob
