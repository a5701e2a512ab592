import QubicBob.Verifier.AssetRuns

set_option autoImplicit false

/-! # Changes of managing contracts for unknown records

`processChangeManagingContract` ignores what the three find functions return: the `-1` of one that
has found nothing goes into the next and at last into `assets[..]`. Here the table is any array at
all. `UnknownRejected` is what the handler should do with records that are not there, and
`LookupsSuffice` is exactly when it does.
-/

namespace QubicBob

open Probe BitWords

/-- The issuance, the ownership under it and the possession under that are in the table, and the two
holdings have the shares. -/
def RecordsThere (depth : Nat) (A : Assets) (omcc : AssetOwnershipManagingContractChange)
    (pmcc : AssetPossessionManagingContractChange) : Prop :=
  ∃ x o p, x < 2 ^ depth ∧ o < 2 ^ depth ∧ p < 2 ^ depth ∧
    (A x).isIssuance omcc.issuerPublicKey (omcc.assetName.zeroExtend 64) = true ∧
    (A o).matchesHolding OWNERSHIP omcc.ownershipPublicKey omcc.sourceContractIndex.toInt x = true ∧
    omcc.numberOfShares.toInt ≤ (A o).shares ∧
    (A p).matchesHolding POSSESSION pmcc.possessionPublicKey omcc.sourceContractIndex.toInt o
      = true ∧
    omcc.numberOfShares.toInt ≤ (A p).shares

/-- The handler takes the error exit, and the transfer it has made left the table as it was. -/
def RejectedUnchanged (depth : Nat) (u : Universe) (le0 le1 : LogEvent) : Prop :=
  processChangeManagingContract depth u le0 le1 = .error (.exit 1) ∧
  ∃ a b, managingLookup depth u.assets (managingHalves le0 le1).1 (managingHalves le0 le1).2
      = .ok (a, b) ∧
    transferShareManagementRights depth u a b (managingDestination le0 le1)
      (managingDestination le0 le1) (managingHalves le0 le1).1.numberOfShares = .ok (u, .failed)

/-- The handler stays inside the table, and rejects a change of records that are not there. -/
def UnknownRejected (depth : Nat) (u : Universe) (le0 le1 : LogEvent) : Prop :=
  processChangeManagingContract depth u le0 le1 ≠ .error .outOfBounds ∧
    (¬ RecordsThere depth u.assets (managingHalves le0 le1).1 (managingHalves le0 le1).2 →
      RejectedUnchanged depth u le0 le1)

/-- The lookups find what the transfer goes on to look at: nothing when no shares are to move, else
the ownership, and when this has the shares also the possession. When both have the shares, or when
a lookup never ends, there must be nothing to reject. -/
def LookupsSuffice (depth : Nat) (A : Assets) (omcc : AssetOwnershipManagingContractChange)
    (pmcc : AssetPossessionManagingContractChange) : Prop :=
  managingLookup depth A omcc pmcc = .error .diverge ∧ RecordsThere depth A omcc pmcc ∨
  ∃ a b, managingLookup depth A omcc pmcc = .ok (a, b) ∧
    (omcc.numberOfShares.toInt ≤ 0 ∨ a ≠ -1 ∧
      ((A a.toNat).shares < omcc.numberOfShares.toInt ∨ b ≠ -1 ∧
        ((A b.toNat).shares < omcc.numberOfShares.toInt ∨ RecordsThere depth A omcc pmcc)))

/-! ## What the lookups return -/

section Lookups

variable {depth : Nat} {A : Assets} {kind : BitVec 8} {key : m256i} {index managingIndex r : Int}

theorem findHoldingIndex_cases (h : findHoldingIndex depth A kind index key managingIndex = .ok r) :
    r = -1 ∨ ∃ x : Nat, r = x ∧ x < 2 ^ depth ∧
      (A x).matchesHolding kind key managingIndex index = true := by
  rw [findHoldingIndex, bind_eq_ok] at h
  obtain ⟨x, hx, h⟩ := h
  have hprobe := orDiverge_eq_ok.mp hx
  have hhome := homeSlot_lt depth key
  by_cases hempty : isEmptySlot A x = true
  · rw [if_pos hempty] at h
    exact Or.inl (Except.ok.inj h).symm
  · rw [if_neg hempty] at h
    refine Or.inr ⟨x, (Except.ok.inj h).symm, probe_lt hhome hprobe, ?_⟩
    have hstop := probe_stop hhome hprobe
    rw [Bool.or_eq_true] at hstop
    exact hstop.resolve_left hempty

variable {omcc : AssetOwnershipManagingContractChange}
  {pmcc : AssetPossessionManagingContractChange} {a b : Int}

/-- Each of the two indices is `-1` or the slot of a holding of its kind. -/
theorem managingLookup_cases (h : managingLookup depth A omcc pmcc = .ok (a, b)) :
    (a = -1 ∨ ∃ o : Nat, a = o ∧ o < 2 ^ depth ∧ (A o).type = OWNERSHIP) ∧
      (b = -1 ∨ ∃ p : Nat, b = p ∧ p < 2 ^ depth ∧ (A p).type = POSSESSION ∧
        (A p).index = BitVec.ofInt 32 a) := by
  rw [managingLookup, bind_eq_ok] at h
  obtain ⟨iss, _, h⟩ := h
  rw [bind_eq_ok] at h
  obtain ⟨own, hown, h⟩ := h
  rw [bind_eq_ok] at h
  obtain ⟨poss, hposs, h⟩ := h
  obtain ⟨rfl, rfl⟩ := Prod.mk.inj (Except.ok.inj h)
  constructor
  · rcases findHoldingIndex_cases hown with hmissing | ⟨o, ho, hlt, hmatch⟩
    · exact Or.inl hmissing
    · exact Or.inr ⟨o, ho, hlt, (AssetRecord.matchesHolding_iff.mp hmatch).1⟩
  · rcases findHoldingIndex_cases hposs with hmissing | ⟨p, hp, hlt, hmatch⟩
    · exact Or.inl hmissing
    · obtain ⟨htype, hindex, _⟩ := AssetRecord.matchesHolding_iff.mp hmatch
      exact Or.inr ⟨p, hp, hlt, htype, hindex⟩

theorem findIndex_error {o : Option Nat} {empty : Nat → Bool} {e : Halt}
    (h : (do
        let i ← orDiverge o
        if empty i then pure (-1) else pure (i : Int) : Except Halt Int) = .error e) :
    e = .diverge := by
  cases o with
  | none => exact (Except.error.inj h).symm
  | some i => cases hi : empty i <;> simp [hi, bind, Except.bind, pure, Except.pure] at h

/-- A probe that does not come back is the only error of a lookup. -/
theorem managingLookup_error {e : Halt} (h : managingLookup depth A omcc pmcc = .error e) :
    e = .diverge := by
  unfold managingLookup at h
  cases hiss : findIssuerIndex depth A omcc.issuerPublicKey (omcc.assetName.zeroExtend 64) with
  | error e' =>
      rw [hiss] at h
      rw [← Except.error.inj h]
      exact findIndex_error hiss
  | ok iss =>
  rw [hiss] at h
  cases hown : findOwnershipIndex depth A iss omcc.ownershipPublicKey
      omcc.sourceContractIndex.toInt with
  | error e' =>
      simp only [bind, Except.bind, hown] at h
      rw [← Except.error.inj h]
      exact findIndex_error hown
  | ok own =>
  cases hposs : findPossessionIndex depth A own pmcc.possessionPublicKey
      omcc.sourceContractIndex.toInt with
  | error e' =>
      simp only [bind, Except.bind, hown, hposs] at h
      rw [← Except.error.inj h]
      exact findIndex_error hposs
  | ok poss =>
      simp only [bind, Except.bind, hown, hposs] at h
      exact absurd h (by simp [pure, Except.pure])

end Lookups

/-! ## What the transfer makes of them -/

section Transfer

variable {depth : Nat} {u : Universe} {oc pc : BitVec 16} {n : BitVec 64} {a b : Int} {o p : Nat}

theorem slotOf_neg : slotOf depth (-1) = .error .outOfBounds :=
  if_neg (by omega)

theorem managementRights_nothing (hn : n.toInt ≤ 0) :
    transferShareManagementRights depth u a b oc pc n = .ok (u, .failed) :=
  if_pos hn

/-- Past the test of the share count the transfer looks at its two source records. -/
theorem managementRights_error {e : Halt} (hn : ¬ n.toInt ≤ 0)
    (hcheck : checkedSource depth u.assets a b n = .error e) :
    transferShareManagementRights depth u a b oc pc n = .error e := by
  rw [transferShareManagementRights, if_neg hn, hcheck]
  rfl

theorem managementRights_none (hn : ¬ n.toInt ≤ 0)
    (hcheck : checkedSource depth u.assets a b n = .ok none) :
    transferShareManagementRights depth u a b oc pc n = .ok (u, .failed) := by
  rw [transferShareManagementRights, if_neg hn, hcheck]
  rfl

theorem managementRights_some {own poss : Nat} (hn : ¬ n.toInt ≤ 0)
    (hcheck : checkedSource depth u.assets a b n = .ok (some (own, poss))) :
    transferShareManagementRights depth u a b oc pc n =
      moveShares depth u own poss (u.assets own).publicKey oc (u.assets poss).publicKey pc n := by
  rw [transferShareManagementRights, if_neg hn, hcheck]
  rfl

theorem checkedSource_no_ownership :
    checkedSource depth u.assets (-1) b n = .error .outOfBounds := by
  rw [checkedSource, slotOf_neg]
  rfl

theorem checkedSource_poor_ownership (ho : o < 2 ^ depth)
    (hpoor : (u.assets o).shares < n.toInt) :
    checkedSource depth u.assets o b n = .ok none := by
  have hgive : ownershipCanGive u.assets o n = false := by
    unfold ownershipCanGive
    rw [Bool.and_eq_false_iff]
    exact Or.inr (decide_eq_false (by unfold AssetRecord.shares at hpoor; omega))
  rw [checkedSource, slotOf_eq_ok.mpr ⟨rfl, ho⟩]
  simp [bind, Except.bind, hgive, pure, Except.pure]

theorem ownershipCanGive_of (ht : (u.assets o).type = OWNERSHIP)
    (hrich : ¬ (u.assets o).shares < n.toInt) : ownershipCanGive u.assets o n = true := by
  unfold AssetRecord.shares at hrich
  simp [ownershipCanGive, ht]
  omega

theorem checkedSource_no_possession (ho : o < 2 ^ depth) (ht : (u.assets o).type = OWNERSHIP)
    (hrich : ¬ (u.assets o).shares < n.toInt) :
    checkedSource depth u.assets o (-1) n = .error .outOfBounds := by
  rw [checkedSource, slotOf_eq_ok.mpr ⟨rfl, ho⟩, slotOf_neg]
  simp [bind, Except.bind, ownershipCanGive_of ht hrich]

theorem checkedSource_poor_possession (ho : o < 2 ^ depth) (ht : (u.assets o).type = OWNERSHIP)
    (hrich : ¬ (u.assets o).shares < n.toInt) (hp : p < 2 ^ depth)
    (hpoor : (u.assets p).shares < n.toInt) :
    checkedSource depth u.assets o p n = .ok none := by
  have hgive : possessionCanGive u.assets o p n = false := by
    unfold possessionCanGive
    rw [Bool.and_eq_false_iff, Bool.and_eq_false_iff]
    exact Or.inl (Or.inr (decide_eq_false (by unfold AssetRecord.shares at hpoor; omega)))
  rw [checkedSource, slotOf_eq_ok.mpr ⟨rfl, ho⟩, slotOf_eq_ok.mpr ⟨rfl, hp⟩]
  simp [bind, Except.bind, ownershipCanGive_of ht hrich, hgive, pure, Except.pure]

/-- A move comes back with the shares moved, or a probe goes round for ever. -/
theorem moveShares_outcome {own poss : Nat} {ok pk : m256i} :
    (∃ u' dOwn dPoss, moveShares depth u own poss ok oc pk pc n = .ok (u', .moved dOwn dPoss)) ∨
      moveShares depth u own poss ok oc pk pc n = .error .diverge := by
  cases hOwn : probeHolding depth u.assets OWNERSHIP ok oc (u.assets own).index with
  | error e =>
      refine Or.inr ?_
      rw [moveShares, hOwn, orDiverge_eq_error hOwn]
      rfl
  | ok dOwn =>
  cases hPoss : probeHolding depth (moveBetween u.assets own dOwn OWNERSHIP ok oc
      (u.assets own).index.toNat n) POSSESSION pk pc (BitVec.ofNat 32 dOwn) with
  | error e =>
      refine Or.inr ?_
      rw [moveShares, hOwn]
      simp only [bind, Except.bind, hPoss, orDiverge_eq_error hPoss]
  | ok dPoss =>
      rw [moveShares, hOwn]
      simp only [bind, Except.bind, hPoss]
      exact Or.inl ⟨_, _, _, rfl⟩

end Transfer

/-! ## The handler -/

section Handler

variable {depth : Nat} {u : Universe} {le0 le1 : LogEvent} {a b : Int}

/-- A transfer that fails is a rejection. -/
theorem rejected_of_failed (hpair : managingPair le0 le1)
    (hlook : managingLookup depth u.assets (managingHalves le0 le1).1 (managingHalves le0 le1).2
      = .ok (a, b))
    (hfail : transferShareManagementRights depth u a b (managingDestination le0 le1)
      (managingDestination le0 le1) (managingHalves le0 le1).1.numberOfShares = .ok (u, .failed)) :
    UnknownRejected depth u le0 le1 := by
  have hexit : processChangeManagingContract depth u le0 le1 = .error (.exit 1) := by
    rw [processChangeManagingContract_eq hpair, hlook]
    simp only [bind, Except.bind, hfail]
    rfl
  exact ⟨by rw [hexit]; simp, fun _ => ⟨hexit, a, b, hlook, hfail⟩⟩

/-- An index that is `-1` leaves the table. -/
theorem not_rejected_of_outOfBounds (hpair : managingPair le0 le1)
    (hlook : managingLookup depth u.assets (managingHalves le0 le1).1 (managingHalves le0 le1).2
      = .ok (a, b)) (hn : ¬ (managingHalves le0 le1).1.numberOfShares.toInt ≤ 0)
    (hcheck : checkedSource depth u.assets a b (managingHalves le0 le1).1.numberOfShares
      = .error .outOfBounds) : ¬ UnknownRejected depth u le0 le1 := by
  rintro ⟨hbounds, _⟩
  apply hbounds
  rw [processChangeManagingContract_eq hpair, hlook]
  simp only [bind, Except.bind, managementRights_error hn hcheck]

/-- When both source records have the shares, nothing is rejected. -/
theorem rejected_iff_of_move (hpair : managingPair le0 le1)
    (hlook : managingLookup depth u.assets (managingHalves le0 le1).1 (managingHalves le0 le1).2
      = .ok (a, b)) {own poss : Nat} (hn : ¬ (managingHalves le0 le1).1.numberOfShares.toInt ≤ 0)
    (hcheck : checkedSource depth u.assets a b (managingHalves le0 le1).1.numberOfShares
      = .ok (some (own, poss))) :
    UnknownRejected depth u le0 le1 ↔
      RecordsThere depth u.assets (managingHalves le0 le1).1 (managingHalves le0 le1).2 := by
  have htransfer : transferShareManagementRights depth u a b (managingDestination le0 le1)
      (managingDestination le0 le1) (managingHalves le0 le1).1.numberOfShares =
      moveShares depth u own poss (u.assets own).publicKey (managingDestination le0 le1)
        (u.assets poss).publicKey (managingDestination le0 le1)
        (managingHalves le0 le1).1.numberOfShares := managementRights_some hn hcheck
  have hbounds : processChangeManagingContract depth u le0 le1 ≠ .error .outOfBounds ∧
      ∀ code, processChangeManagingContract depth u le0 le1 ≠ .error (.exit code) := by
    rw [processChangeManagingContract_eq hpair, hlook]
    simp only [bind, Except.bind, htransfer]
    rcases moveShares_outcome with ⟨u', dOwn, dPoss, hmove⟩ | hmove
    · rw [hmove]
      simp [TransferResult.returnValue, pure, Except.pure]
    · rw [hmove]
      simp
  constructor
  · rintro ⟨_, hreject⟩
    by_contra hmissing
    exact hbounds.2 1 (hreject hmissing).1
  · intro hthere
    exact ⟨hbounds.1, fun hmissing => absurd hthere hmissing⟩

/-- **Unknown records.** For any array and any pair of events, the handler stays inside the table and
rejects a change of records that are not there exactly when its lookups suffice. -/
theorem unknownRejected_iff (hpair : managingPair le0 le1) :
    UnknownRejected depth u le0 le1 ↔
      LookupsSuffice depth u.assets (managingHalves le0 le1).1 (managingHalves le0 le1).2 := by
  cases hlook : managingLookup depth u.assets (managingHalves le0 le1).1
      (managingHalves le0 le1).2 with
  | error e =>
      obtain rfl := managingLookup_error hlook
      have hrun : processChangeManagingContract depth u le0 le1 = .error .diverge := by
        rw [processChangeManagingContract_eq hpair, hlook]
        rfl
      constructor
      · rintro ⟨_, hreject⟩
        refine Or.inl ⟨hlook, ?_⟩
        by_contra hmissing
        exact absurd (hrun.symm.trans (hreject hmissing).1) (by simp)
      · rintro (⟨_, hthere⟩ | ⟨a, b, hok, _⟩)
        · exact ⟨by rw [hrun]; simp, fun hmissing => absurd hthere hmissing⟩
        · exact absurd (hlook.symm.trans hok) (by simp)
  | ok ab =>
  obtain ⟨a, b⟩ := ab
  have hsuffice : LookupsSuffice depth u.assets (managingHalves le0 le1).1
      (managingHalves le0 le1).2 ↔
      ((managingHalves le0 le1).1.numberOfShares.toInt ≤ 0 ∨ a ≠ -1 ∧
        ((u.assets a.toNat).shares < (managingHalves le0 le1).1.numberOfShares.toInt ∨ b ≠ -1 ∧
          ((u.assets b.toNat).shares < (managingHalves le0 le1).1.numberOfShares.toInt ∨
            RecordsThere depth u.assets (managingHalves le0 le1).1 (managingHalves le0 le1).2))) := by
    constructor
    · rintro (⟨hdiverge, _⟩ | ⟨a', b', hok, hcond⟩)
      · exact absurd (hlook.symm.trans hdiverge) (by simp)
      · obtain ⟨rfl, rfl⟩ := Prod.mk.inj (Except.ok.inj (hlook.symm.trans hok))
        exact hcond
    · intro hcond
      exact Or.inr ⟨a, b, hlook, hcond⟩
  rw [hsuffice]
  by_cases hn : (managingHalves le0 le1).1.numberOfShares.toInt ≤ 0
  · exact iff_of_true (rejected_of_failed hpair hlook (managementRights_nothing hn)) (Or.inl hn)
  have hfailed : checkedSource depth u.assets a b (managingHalves le0 le1).1.numberOfShares
      = .ok none → UnknownRejected depth u le0 le1 := by
    intro hcheck
    exact rejected_of_failed hpair hlook (managementRights_none hn hcheck)
  obtain ⟨hcasesA, hcasesB⟩ := managingLookup_cases hlook
  -- the ownership
  rcases hcasesA with rfl | ⟨o, rfl, ho, htO⟩
  · refine iff_of_false (not_rejected_of_outOfBounds hpair hlook hn checkedSource_no_ownership) ?_
    rintro (hc | ⟨hc, _⟩)
    · exact hn hc
    · exact hc rfl
  have hneA : ((o : Int)) ≠ -1 := by omega
  simp only [hn, false_or, hneA, ne_eq, not_false_eq_true, true_and, Int.toNat_natCast]
  by_cases hpoorO : (u.assets o).shares < (managingHalves le0 le1).1.numberOfShares.toInt
  · exact iff_of_true (hfailed (checkedSource_poor_ownership ho hpoorO)) (Or.inl hpoorO)
  -- the possession
  rcases hcasesB with rfl | ⟨p, rfl, hp, htP, hindexP⟩
  · refine iff_of_false (not_rejected_of_outOfBounds hpair hlook hn
      (checkedSource_no_possession ho htO hpoorO)) ?_
    rintro (hc | ⟨hc, _⟩)
    · exact hpoorO hc
    · exact hc rfl
  have hneB : ((p : Int)) ≠ -1 := by omega
  simp only [hpoorO, false_or, hneB, not_false_eq_true, true_and, Int.toNat_natCast]
  by_cases hpoorP : (u.assets p).shares < (managingHalves le0 le1).1.numberOfShares.toInt
  · exact iff_of_true (hfailed (checkedSource_poor_possession ho htO hpoorO hp hpoorP))
      (Or.inl hpoorP)
  have hcan : CanMove depth u.assets o p (managingHalves le0 le1).1.numberOfShares :=
    ⟨ho, hp, htO, not_lt.mp hpoorO, htP, not_lt.mp hpoorP, by rw [hindexP]; simp⟩
  rw [rejected_iff_of_move hpair hlook hn (checkedSource_of_canMove hcan)]
  simp only [hpoorP, false_or]

end Handler

/-- The theorem at a change of 1000 shares of an issuance of 100: it is rejected. -/
theorem unknownRejected_iff_at_too_many :
    let omcc : AssetOwnershipManagingContractChange := ⟨1, 1, 2, 3, 1000, 0x41⟩
    ∃ u' r,
      processIssueAsset 4 emptyUniverse (.ofAssetIssuance 11 0 ⟨1, 100, 2, 0x41, 0, 0⟩)
        = .ok (u', r) ∧
      UnknownRejected 4 u' (.ofOwnershipManaging 11 1 omcc) (.ofPossessionManaging 11 2 1 omcc) := by
  intro omcc
  obtain ⟨⟨u', r⟩, hissue, hpoor⟩ :=
    @exists_ok_of_any _
      (processIssueAsset 4 emptyUniverse (.ofAssetIssuance 11 0 ⟨1, 100, 2, 0x41, 0, 0⟩))
      (fun p => decide (managingLookup 4 p.1.assets
          (managingHalves (.ofOwnershipManaging 11 1 omcc) (.ofPossessionManaging 11 2 1 omcc)).1
          (managingHalves (.ofOwnershipManaging 11 1 omcc) (.ofPossessionManaging 11 2 1 omcc)).2
          = .ok (2, 3)) && decide ((p.1.assets 2).shares < 1000)) (by decide +kernel)
  rw [Bool.and_eq_true, decide_eq_true_iff, decide_eq_true_iff] at hpoor
  have hpair : managingPair (.ofOwnershipManaging 11 1 omcc) (.ofPossessionManaging 11 2 1 omcc) :=
    ⟨by decide +kernel, by decide +kernel⟩
  have hn : (managingHalves (.ofOwnershipManaging 11 1 omcc)
      (.ofPossessionManaging 11 2 1 omcc)).1.numberOfShares.toInt = 1000 := by decide +kernel
  refine ⟨u', r, hissue, (unknownRejected_iff hpair).mpr (Or.inr ⟨2, 3, hpoor.1, Or.inr ?_⟩)⟩
  exact ⟨by decide, Or.inl (by rw [hn]; exact hpoor.2)⟩

/-- In a table without any record, a change of one share by an unknown owner reads
`assets[-1]`. -/
theorem unknownRejected_fails_at_empty :
    let omcc : AssetOwnershipManagingContractChange := ⟨5, 1, 2, 3, 1, 0x41⟩
    managingPair (.ofOwnershipManaging 11 0 omcc) (.ofPossessionManaging 11 1 5 omcc) ∧
      ¬ UnknownRejected 24 emptyUniverse (.ofOwnershipManaging 11 0 omcc)
        (.ofPossessionManaging 11 1 5 omcc) := by
  intro omcc
  have hpair : managingPair (.ofOwnershipManaging 11 0 omcc) (.ofPossessionManaging 11 1 5 omcc) :=
    ⟨by decide +kernel, by decide +kernel⟩
  refine ⟨hpair, ?_⟩
  have hlook : managingLookup 24 emptyUniverse.assets
      (managingHalves (.ofOwnershipManaging 11 0 omcc) (.ofPossessionManaging 11 1 5 omcc)).1
      (managingHalves (.ofOwnershipManaging 11 0 omcc) (.ofPossessionManaging 11 1 5 omcc)).2
      = .ok (-1, -1) := by decide +kernel
  exact not_rejected_of_outOfBounds hpair hlook (by decide +kernel) checkedSource_no_ownership

end QubicBob
