import QubicBob.Verifier.AssetRuns
import QubicBob.Ledger.AssetSettled

set_option autoImplicit false

/-! # Transfers by key

When the transfer by key succeeds, in the tables the event handlers make. Its last probe stops at the
first possession of the possessor under the ownership and only then compares the managing
contract; this hides no record, because a possession has the contract of its ownership.

`CanTransfer` are the conditions of the transfer, `TransferSucceeds` is what it does when they
hold, and `transferByKey_outcome` says what happens in each case.
-/

namespace QubicBob

open Probe BitWords

/-! ## The invariant of the handlers -/

section Reachable

variable {depth : Nat} {u u' : Universe} {dead : Nat → Bool} {acc : Accounts}

theorem settledInvariant_of_empty (h : ∀ i, i < 2 ^ depth → u.assets i = AssetRecord.empty) :
    SettledInvariant depth u.assets (fun _ => false) ⟨fun _ => 0, fun _ => 0⟩ := by
  have hsame : settle (fun _ => false) u.assets = u.assets := funext (fun _ => settle_alive rfl)
  constructor
  case table => rw [hsame]; exact tableInvariant_of_empty h
  case occupied => exact fun _ hc => absurd hc (by simp)
  case linked => exact fun _ _ _ => rfl
  case nonpos => exact fun _ hc => absurd hc (by simp)
  case contract =>
    intro i hi ht
    rw [h i hi] at ht
    exact absurd ht (by decide)

theorem SettledInvariant.transferSlots (hdepth : depth ≤ 31)
    (h : SettledInvariant depth u.assets dead acc) {a b : Int} {key : m256i} {n : BitVec 64}
    {r : TransferResult}
    (hrun : transferShareOwnershipAndPossession depth u a b key n = .ok (u', r)) :
    ∃ acc', SettledInvariant depth u'.assets dead acc' := by
  rcases transferShareOwnershipAndPossession_cases hrun with
    ⟨rfl, _⟩ | ⟨own, poss, _, _, hn, hm, ⟨_, hb⟩ | ⟨_, hmove⟩⟩
  · exact ⟨acc, h⟩
  · rcases h.burnShares hdepth hn hm hb with ⟨rfl, _⟩ | ⟨_, _, hinv⟩
    · exact ⟨acc, h⟩
    · exact ⟨_, hinv⟩
  · rw [h.contract poss hm.poss_lt hm.poss_type, hm.poss_index_toNat hdepth] at hmove
    exact ⟨acc, (h.moveShares hdepth hn hm hmove).1⟩

/-- The invariant of every table the handlers make. -/
theorem AssetReachable.settled (hdepth : depth ≤ 31) (h : AssetReachable depth u) :
    ∃ dead acc, SettledInvariant depth u.assets dead acc := by
  induction h with
  | start h => exact ⟨_, _, settledInvariant_of_empty h⟩
  | issueAsset _ hrun ih =>
      obtain ⟨dead, acc, hinv⟩ := ih
      exact hinv.issueAsset hdepth hrun
  | changeOwnershipAndPossession _ hrun ih =>
      obtain ⟨dead, acc, hinv⟩ := ih
      rcases transferByKey_cases (processChangeOwnershipAndPossession_cases hrun) with
        ⟨rfl, _⟩ | ⟨own, poss, t, ht, _⟩
      · exact ⟨dead, acc, hinv⟩
      · exact ⟨dead, hinv.transferSlots hdepth ht⟩
  | changeManagingContract _ hrun ih =>
      obtain ⟨dead, acc, hinv⟩ := ih
      obtain ⟨a, b, ht⟩ := processChangeManagingContract_cases hrun
      rcases transferShareManagementRights_cases ht with
        ⟨rfl, _⟩ | ⟨own, poss, _, _, hn, hm, hmove⟩
      · exact ⟨dead, acc, hinv⟩
      · exact ⟨dead, acc, (hinv.moveShares hdepth hn hm hmove).1⟩

/-- The shares of a possession are among those of its ownership. -/
theorem SettledInvariant.canMove (hdepth : depth ≤ 31)
    (h : SettledInvariant depth u.assets dead acc) {own poss : Nat} {n : BitVec 64}
    (hn : 0 < n.toInt) (hown : own < 2 ^ depth) (hposs : poss < 2 ^ depth)
    (htO : (u.assets own).type = OWNERSHIP) (htP : (u.assets poss).type = POSSESSION)
    (hindex : (u.assets poss).index = BitVec.ofNat 32 own)
    (hshares : n.toInt ≤ (u.assets poss).shares) : CanMove depth u.assets own poss n := by
  have hindex' : (u.assets poss).index.toNat = own := by
    rw [hindex, toNat_slot hdepth hown]
  have haliveP : dead poss = false := by
    by_contra hdead
    rw [Bool.not_eq_false] at hdead
    have hle := h.nonpos poss hdead (Or.inr htP)
    omega
  have haliveO : dead own = false := by
    rw [← hindex', ← h.linked poss hposs (Or.inr htP), haliveP]
  have hbooks := h.table.books.ownership own hown (by rw [settle_type, htO])
  have hle := shares_le_held (h.table.books.nonNegative (Or.inr rfl)) hposs
    (by rw [settle_type, htP])
  rw [settle_index, hindex', ← hbooks, settle_alive haliveP, settle_alive haliveO] at hle
  exact ⟨hown, hposs, htO, hshares.trans hle, htP, hshares, hindex⟩

end Reachable

/-! ## What a transfer by key can do -/

section Split

variable {depth : Nat} {u u' : Universe} {name : BitVec 64} {issuer owner possessor : m256i}
  {n c : BitVec 64} {key : m256i} {r : KeyTransferResult}

/-- The last two steps, once the possession is found. -/
def PossessionStep (depth : Nat) (u u' : Universe) (n c : BitVec 64) (key : m256i)
    (r : KeyTransferResult) (o p : Nat) : Prop :=
  (((u.assets p).managingContractIndex.toNat : Int) ≠ c.toInt ∧ u' = u ∧ r = .otherContract) ∨
  ((u.assets p).managingContractIndex.toNat : Int) = c.toInt ∧
    ((u.assets p).shares < n.toInt ∧ u' = u ∧ r = .notEnough p ∨
      n.toInt ≤ (u.assets p).shares ∧ ∃ t : TransferResult,
        transferShareOwnershipAndPossession depth u o p key n = .ok (u', t) ∧
        (t = .failed ∧ r = .refused ∨ t ≠ .failed ∧ r = .done o p t))

/-- One of the three probes has ended at an empty slot, or all have found their record. -/
theorem transferByKey_split
    (h : transferShareOwnershipAndPossessionByKey depth u name issuer owner possessor n c key
      = .ok (u', r)) :
    ∃ x, probeIssuance depth u.assets issuer name = .ok x ∧
      (isEmptySlot u.assets x = true ∧ u' = u ∧ r = .notFound ∨
       isEmptySlot u.assets x = false ∧ ∃ o, orDiverge (probe (fun i => isEmptySlot u.assets i
          || (u.assets i).matchesHolding OWNERSHIP owner c.toInt x) depth (homeSlot depth owner))
          = .ok o ∧
        (isEmptySlot u.assets o = true ∧ u' = u ∧ r = .notFound ∨
         isEmptySlot u.assets o = false ∧ ∃ p, orDiverge (probe (fun i => isEmptySlot u.assets i
            || (u.assets i).isPossessionOf possessor o) depth (homeSlot depth possessor)) = .ok p ∧
          (isEmptySlot u.assets p = true ∧ u' = u ∧ r = .notFound ∨
           isEmptySlot u.assets p = false ∧ PossessionStep depth u u' n c key r o p))) := by
  rw [transferShareOwnershipAndPossessionByKey, bind_eq_ok] at h
  obtain ⟨x, hx, h⟩ := h
  refine ⟨x, hx, ?_⟩
  have hout : ∀ {r'}, (pure (u, r') : Except Halt (Universe × KeyTransferResult)) = .ok (u', r) →
      u' = u ∧ r = r' := by
    intro r' hr
    have heq := Prod.mk.inj (Except.ok.inj hr)
    exact ⟨heq.1.symm, heq.2.symm⟩
  by_cases hex : isEmptySlot u.assets x = true
  · rw [if_pos hex] at h
    exact Or.inl ⟨hex, hout h⟩
  rw [if_neg hex, bind_eq_ok] at h
  obtain ⟨o, ho, h⟩ := h
  refine Or.inr ⟨Bool.not_eq_true _ ▸ hex, o, ho, ?_⟩
  by_cases heo : isEmptySlot u.assets o = true
  · rw [if_pos heo] at h
    exact Or.inl ⟨heo, hout h⟩
  rw [if_neg heo, bind_eq_ok] at h
  obtain ⟨p, hp, h⟩ := h
  refine Or.inr ⟨Bool.not_eq_true _ ▸ heo, p, hp, ?_⟩
  by_cases hep : isEmptySlot u.assets p = true
  · rw [if_pos hep] at h
    exact Or.inl ⟨hep, hout h⟩
  rw [if_neg hep] at h
  refine Or.inr ⟨Bool.not_eq_true _ ▸ hep, ?_⟩
  by_cases hc : ((u.assets p).managingContractIndex.toNat : Int) = c.toInt
  · rw [if_pos hc] at h
    refine Or.inr ⟨hc, ?_⟩
    by_cases hle : n.toInt ≤ (u.assets p).numberOfShares.toInt
    · rw [if_pos hle, bind_eq_ok] at h
      obtain ⟨⟨u₁, t⟩, h₁, h⟩ := h
      dsimp only at h
      obtain ⟨rfl, hr⟩ := keyResult_of_transfer h
      exact Or.inr ⟨hle, t, h₁, hr⟩
    · rw [if_neg hle] at h
      exact Or.inl ⟨not_le.mp hle, hout h⟩
  · rw [if_neg hc] at h
    exact Or.inl ⟨hc, hout h⟩

end Split

/-! ## The conditions of a transfer -/

/-- The issuance, the ownership and the possession of the given keys, in their slots. -/
structure SourceRecords (depth : Nat) (A : Assets) (name : BitVec 64)
    (issuer owner possessor : m256i) (c : BitVec 64) (x o p : Nat) : Prop where
  x_lt : x < 2 ^ depth
  o_lt : o < 2 ^ depth
  p_lt : p < 2 ^ depth
  issuance : (A x).isIssuance issuer name = true
  ownership : (A o).matchesHolding OWNERSHIP owner c.toInt x = true
  possession : (A p).matchesHolding POSSESSION possessor c.toInt o = true

/-- The transfer should be made: shares are to move, the records are there, the possession has the
shares, and no contract shares are to be burned. -/
def CanTransfer (depth : Nat) (A : Assets) (name : BitVec 64) (issuer owner possessor : m256i)
    (n c : BitVec 64) (key : m256i) : Prop :=
  0 < n.toInt ∧ ∃ x o p, SourceRecords depth A name issuer owner possessor c x o p ∧
    n.toInt ≤ (A p).shares ∧ ¬ (key = m256i.zero ∧ issuer = m256i.zero)

/-- The shares have gone from the source records, burned or to the records of the new key, and the
value returned is what the source possession has left. -/
def TransferSucceeds (depth : Nat) (u u' : Universe) (name : BitVec 64)
    (issuer owner possessor : m256i) (n c : BitVec 64) (key : m256i) (r : KeyTransferResult) :
    Prop :=
  ∃ x o p, SourceRecords depth u.assets name issuer owner possessor c x o p ∧
    (key = m256i.zero ∧ SharesBurned u.assets u'.assets o p n.toInt ∨
      key ≠ m256i.zero ∧ ∃ dOwn dPoss, SharesMoved u.assets u'.assets o p key key
        (u.assets o).managingContractIndex dOwn dPoss n.toInt) ∧
    r.returnValue u'.assets n = (u'.assets p).numberOfShares ∧ 0 ≤ (u'.assets p).shares

section Conditions

variable {depth : Nat} {u u' : Universe} {A : Assets} {name : BitVec 64}
  {issuer owner possessor : m256i} {n c : BitVec 64} {key : m256i} {r : KeyTransferResult}
  {x o p : Nat}

/-- There is one triple of source records at most. -/
theorem SourceRecords.unique (h : TableShape depth A)
    (hs : SourceRecords depth A name issuer owner possessor c x o p) {x' o' p' : Nat}
    (hs' : SourceRecords depth A name issuer owner possessor c x' o' p') :
    x' = x ∧ o' = o ∧ p' = p := by
  obtain rfl := h.issuance_unique hs'.x_lt hs.x_lt hs'.issuance hs.issuance
  obtain rfl := h.holding_unique (Or.inl rfl) hs'.o_lt hs.o_lt hs'.ownership hs.ownership
  obtain rfl := h.holding_unique (Or.inr rfl) hs'.p_lt hs.p_lt hs'.possession hs.possession
  exact ⟨rfl, rfl, rfl⟩

/-- A negative value is not what the source has left. -/
theorem not_succeeds_of_negative (hneg : (r.returnValue u'.assets n).toInt < 0) :
    ¬ TransferSucceeds depth u u' name issuer owner possessor n c key r := by
  rintro ⟨x, o, p, _, _, hreturn, hnonneg⟩
  rw [hreturn] at hneg
  unfold AssetRecord.shares at hnonneg
  omega

theorem not_succeeds_of_missing
    (hno : ∀ x o p, ¬ SourceRecords depth u.assets name issuer owner possessor c x o p) :
    ¬ TransferSucceeds depth u u' name issuer owner possessor n c key r := by
  rintro ⟨x, o, p, hs, _⟩
  exact hno x o p hs

theorem not_canTransfer_of_missing
    (hno : ∀ x o p, ¬ SourceRecords depth A name issuer owner possessor c x o p) :
    ¬ CanTransfer depth A name issuer owner possessor n c key := by
  rintro ⟨_, x, o, p, hs, _⟩
  exact hno x o p hs

theorem neg_toInt_of_pos (hn : 0 < n.toInt) : (-n).toInt < 0 := by
  have hbound := BitVec.toInt_lt (x := n)
  rw [BitVec.toInt_neg]
  rw [Int.bmod_eq_of_le_mul_two (by omega) (by omega)]
  omega

/-- A difference that stays in range is the exact one. -/
theorem sub_toInt_of_lt {a b : BitVec 64} (hlt : a.toInt < b.toInt)
    (hrange : -2 ^ 63 ≤ a.toInt - b.toInt) : (a - b).toInt < 0 := by
  rw [BitVec.toInt_sub, Int.bmod_eq_of_le_mul_two (by omega) (by omega)]
  omega

/-- A probe that ends at an empty slot has missed no record of its key. -/
theorem absent_of_probe (h : TableShape depth A) {isKey : Nat → Bool} {k : m256i} {z : Nat}
    (hkey : ∀ j, isKey j = true → (A j).type ≠ EMPTY ∧ (A j).publicKey = k)
    (hprobe : orDiverge (probe (fun i => isEmptySlot A i || isKey i) depth (homeSlot depth k))
      = .ok z) (hempty : isEmptySlot A z = true) {j : Nat} (hj : j < 2 ^ depth) :
    isKey j = false := by
  by_contra hcon
  rw [Bool.not_eq_false] at hcon
  have hz : isKey z = false := by
    by_contra hc
    rw [Bool.not_eq_false] at hc
    exact (hkey z hc).1 (isEmptySlot_iff.mp hempty)
  obtain ⟨hocc, hpk⟩ := hkey j hcon
  have hreach : Reachable depth A k j := hpk ▸ h.reach j hj hocc
  have hmissed := probe_absent (homeSlot_lt depth k) (orDiverge_eq_ok.mp hprobe) hz hreach
  exact absurd (hcon.symm.trans hmissed) (by decide)

/-- A probe that ends at an occupied slot has found its key. -/
theorem found_of_probe {isKey : Nat → Bool} {k : m256i} {z : Nat}
    (hprobe : orDiverge (probe (fun i => isEmptySlot A i || isKey i) depth (homeSlot depth k))
      = .ok z) (hocc : isEmptySlot A z = false) : z < 2 ^ depth ∧ isKey z = true := by
  have hsome := orDiverge_eq_ok.mp hprobe
  have hstop := probe_stop (homeSlot_lt depth k) hsome
  rw [Bool.or_eq_true, hocc] at hstop
  exact ⟨probe_lt (homeSlot_lt depth k) hsome, hstop.resolve_left (by simp)⟩

theorem AssetRecord.isPossessionOf_iff {rec : AssetRecord} {o : Nat} :
    rec.isPossessionOf possessor o = true ↔ rec.type = POSSESSION ∧
      rec.index = BitVec.ofNat 32 o ∧ rec.publicKey = possessor := by
  simp only [AssetRecord.isPossessionOf, Bool.and_eq_true, beq_iff_eq, and_assoc]

/-- The last probe looks for less than the key, but finds it. -/
theorem SettledInvariant.possession_contract {dead : Nat → Bool} {acc : Accounts}
    (hdepth : depth ≤ 31) (h : SettledInvariant depth A dead acc) (ho : o < 2 ^ depth)
    (hp : p < 2 ^ depth) (hown : (A o).matchesHolding OWNERSHIP owner c.toInt x = true)
    (hposs : (A p).isPossessionOf possessor o = true) :
    (A p).matchesHolding POSSESSION possessor c.toInt o = true := by
  obtain ⟨ht, hindex, hpk⟩ := AssetRecord.isPossessionOf_iff.mp hposs
  have hindex' : (A p).index.toNat = o := by
    rw [hindex, toNat_slot hdepth ho]
  have hc := (AssetRecord.matchesHolding_iff.mp hown).2.2.2
  have hcontract := h.contract p hp ht
  rw [hindex'] at hcontract
  exact AssetRecord.matchesHolding_iff.mpr
    ⟨ht, by rw [hindex]; simp, hpk, by rw [hcontract]; exact hc⟩

end Conditions

/-! ## The outcome -/

section Outcome

variable {depth : Nat} {u u' : Universe} {dead : Nat → Bool} {acc : Accounts} {name : BitVec 64}
  {issuer owner possessor : m256i} {n c : BitVec 64} {key : m256i} {r : KeyTransferResult}
  {x o p : Nat}

/-- The value is negative, as far as the difference it is computed as can be represented. -/
def ReturnsNegative (depth : Nat) (u u' : Universe) (name : BitVec 64)
    (issuer owner possessor : m256i) (n c : BitVec 64) (r : KeyTransferResult) : Prop :=
  (r.returnValue u'.assets n).toInt < 0 ∨
    ∃ x o p, SourceRecords depth u.assets name issuer owner possessor c x o p ∧
      (u.assets p).shares - n.toInt < -2 ^ 63

/-- A transfer whose conditions hold. -/
structure TransferMade (depth : Nat) (u u' : Universe) (name : BitVec 64)
    (issuer owner possessor : m256i) (n c : BitVec 64) (key : m256i) (r : KeyTransferResult) :
    Prop where
  can : CanTransfer depth u.assets name issuer owner possessor n c key
  succeeds : TransferSucceeds depth u u' name issuer owner possessor n c key r
  done : ∃ o p t, r = .done o p t

/-- What is left of a transfer whose conditions do not hold. -/
structure TransferRefused (depth : Nat) (u u' : Universe) (name : BitVec 64)
    (issuer owner possessor : m256i) (n c : BitVec 64) (key : m256i) (r : KeyTransferResult) :
    Prop where
  cannot : ¬ CanTransfer depth u.assets name issuer owner possessor n c key
  unchanged : u' = u
  negative : 0 < n.toInt → ReturnsNegative depth u u' name issuer owner possessor n c r
  failed : ¬ TransferSucceeds depth u u' name issuer owner possessor n c key r

theorem transferRefused_of_missing
    (hno : ∀ x o p, ¬ SourceRecords depth u.assets name issuer owner possessor c x o p)
    (hu : u' = u) (hr : r = .notFound) :
    TransferRefused depth u u' name issuer owner possessor n c key r where
  cannot := not_canTransfer_of_missing hno
  unchanged := hu
  negative hn := Or.inl (by rw [hr]; exact neg_toInt_of_pos hn)
  failed := not_succeeds_of_missing hno

theorem transferRefused_of_notEnough (hshape : TableShape depth u.assets)
    (hs : SourceRecords depth u.assets name issuer owner possessor c x o p)
    (hlt : (u.assets p).shares < n.toInt) (hu : u' = u) (hr : r = .notEnough p) :
    TransferRefused depth u u' name issuer owner possessor n c key r := by
  constructor
  case cannot =>
    rintro ⟨_, x', o', p', hs', hle, _⟩
    rw [(hs.unique hshape hs').2.2] at hle
    omega
  case unchanged => exact hu
  case negative =>
    intro _
    by_cases hrange : -2 ^ 63 ≤ (u.assets p).shares - n.toInt
    · refine Or.inl ?_
      rw [hr, hu]
      exact sub_toInt_of_lt hlt hrange
    · exact Or.inr ⟨x, o, p, hs, not_le.mp hrange⟩
  case failed =>
    rintro ⟨x', o', p', hs', _, hreturn, hnonneg⟩
    rw [(hs.unique hshape hs').2.2, hr, hu] at hreturn
    rw [(hs.unique hshape hs').2.2, hu] at hnonneg
    -- the difference is what the source has only if no shares were to move
    have hzero : n = 0 := by
      simp only [KeyTransferResult.returnValue] at hreturn
      generalize (u.assets p).numberOfShares = s at hreturn
      bv_omega
    rw [hzero] at hlt
    have hz : (0 : BitVec 64).toInt = 0 := by decide
    omega

theorem transferRefused_of_refused
    (hcannot : ¬ CanTransfer depth u.assets name issuer owner possessor n c key) (hu : u' = u)
    (hr : r = .refused) : TransferRefused depth u u' name issuer owner possessor n c key r := by
  have hneg : (r.returnValue u'.assets n).toInt < 0 := by
    rw [hr]
    exact (by decide : (-1 : BitVec 64).toInt < 0)
  exact ⟨hcannot, hu, fun _ => Or.inl hneg, not_succeeds_of_negative hneg⟩

/-- A burn is refused for the shares of a contract only. -/
theorem burnShares_failed_iff {t : TransferResult} {own poss x : Nat}
    (hindex : (u.assets own).index.toNat = x) (hx : x < 2 ^ depth)
    (hrun : burnShares depth u own poss n = .ok (u', t)) :
    t = .failed ↔ (u.assets x).publicKey = m256i.zero := by
  rw [burnShares, hindex, slotOf_eq_ok.mpr ⟨rfl, hx⟩] at hrun
  simp only [bind, Except.bind] at hrun
  by_cases hz : (u.assets x).publicKey.isZero = true
  · rw [if_pos hz] at hrun
    rw [← (Prod.mk.inj (Except.ok.inj hrun)).2]
    exact iff_of_true rfl (m256i.isZero_iff.mp hz)
  · rw [if_neg hz] at hrun
    rw [← (Prod.mk.inj (Except.ok.inj hrun)).2]
    exact iff_of_false (by simp) (fun hc => hz (m256i.isZero_iff.mpr hc))

/-- The transfer between the slots that were found. -/
theorem transferSlots_outcome (hdepth : depth ≤ 31)
    (h : SettledInvariant depth u.assets dead acc)
    (hs : SourceRecords depth u.assets name issuer owner possessor c x o p)
    (hle : n.toInt ≤ (u.assets p).shares) {t : TransferResult}
    (hrun : transferShareOwnershipAndPossession depth u o p key n = .ok (u', t))
    (hr : t = .failed ∧ r = .refused ∨ t ≠ .failed ∧ r = .done o p t) :
    TransferMade depth u u' name issuer owner possessor n c key r ∨
      TransferRefused depth u u' name issuer owner possessor n c key r := by
  by_cases hn : 0 < n.toInt
  swap
  -- no shares to move
  · rw [transferShareOwnershipAndPossession, if_pos (by omega)] at hrun
    obtain ⟨rfl, rfl⟩ := Prod.mk.inj (Except.ok.inj hrun)
    exact Or.inr (transferRefused_of_refused (fun hc => hn hc.1) rfl
      (hr.resolve_right (fun hc => hc.1 rfl)).2)
  obtain ⟨htO, hindexO, _, _⟩ := AssetRecord.matchesHolding_iff.mp hs.ownership
  obtain ⟨htP, hindexP, _, _⟩ := AssetRecord.matchesHolding_iff.mp hs.possession
  have hm : CanMove depth u.assets o p n :=
    h.canMove hdepth hn hs.o_lt hs.p_lt htO htP (by rw [hindexP]; simp) hle
  have hindex : (u.assets o).index.toNat = x := by
    rw [hindexO, BitVec.ofInt_natCast, toNat_slot hdepth hs.x_lt]
  rw [transferSlots_eq hn hm] at hrun
  by_cases hz : key = m256i.zero
  · rw [if_pos (m256i.isZero_iff.mpr hz)] at hrun
    have hfailed := burnShares_failed_iff hindex hs.x_lt hrun
    rw [(AssetRecord.isIssuance_eq_true_iff.mp hs.issuance).2.2] at hfailed
    rcases h.burnShares hdepth hn hm hrun with ⟨hu, ht⟩ | ⟨ht, hburned, _⟩
    -- contract shares
    · refine Or.inr (transferRefused_of_refused ?_ hu (hr.resolve_right (fun hc => hc.1 ht)).2)
      rintro ⟨_, _, _, _, _, _, hnot⟩
      exact hnot ⟨hz, hfailed.mp ht⟩
    · have hne : t ≠ .failed := by
        rw [ht]
        simp
      have hdone := (hr.resolve_left (fun hc => hne hc.1)).2
      refine Or.inl ⟨⟨hn, x, o, p, hs, hle, fun hc => hne (hfailed.mpr hc.2)⟩, ⟨x, o, p, hs,
        Or.inl ⟨hz, hburned⟩, by rw [hdone]; rfl, ?_⟩, o, p, t, hdone⟩
      · have hshares := hburned.shares p
        rw [if_neg hm.ne.symm, if_pos rfl] at hshares
        omega
  · have hzero : ¬ key.isZero = true := fun hc => hz (m256i.isZero_iff.mp hc)
    rw [if_neg hzero, h.contract p hm.poss_lt hm.poss_type, hm.poss_index_toNat hdepth] at hrun
    obtain ⟨_, dOwn, dPoss, ht, hmoved⟩ := h.moveShares hdepth hn hm hrun
    have hdone : r = .done o p t := by
      refine (hr.resolve_left ?_).2
      rw [ht]
      simp
    refine Or.inl ⟨⟨hn, x, o, p, hs, hle, fun hc => hz hc.1⟩, ⟨x, o, p, hs,
      Or.inr ⟨hz, dOwn, dPoss, hmoved⟩, by rw [hdone]; rfl, ?_⟩, o, p, t, hdone⟩
    · have hshares := hmoved.shares p
      rw [if_neg hm.ne.symm, if_pos rfl] at hshares
      split at hshares <;> split at hshares <;> omega

/-- A transfer by key that comes back has been made, or was refused. -/
theorem transferByKey_outcome (hdepth : depth ≤ 31) (hshape : TableShape depth u.assets)
    (h : SettledInvariant depth u.assets dead acc)
    (hrun : transferShareOwnershipAndPossessionByKey depth u name issuer owner possessor n c key
      = .ok (u', r)) :
    TransferMade depth u u' name issuer owner possessor n c key r ∨
      TransferRefused depth u u' name issuer owner possessor n c key r := by
  obtain ⟨x, hx, hrest⟩ := transferByKey_split hrun
  rcases hrest with ⟨hempty, hu, hr⟩ | ⟨hocc, o, ho, hrest⟩
  -- no issuance
  · refine Or.inr (transferRefused_of_missing ?_ hu hr)
    intro x' o' p' hs
    have habsent := absent_of_probe hshape (fun j hj => ?_) hx hempty hs.x_lt
    · exact absurd (hs.issuance.symm.trans habsent) (by decide)
    · obtain ⟨ht, _, hpk⟩ := AssetRecord.isIssuance_eq_true_iff.mp hj
      exact ⟨by rw [ht]; decide, hpk⟩
  obtain ⟨hxlt, hkeyX⟩ := found_of_probe hx hocc
  rcases hrest with ⟨hempty, hu, hr⟩ | ⟨hocc, p, hp, hrest⟩
  -- no ownership
  · refine Or.inr (transferRefused_of_missing ?_ hu hr)
    intro x' o' p' hs
    obtain rfl := hshape.issuance_unique hs.x_lt hxlt hs.issuance hkeyX
    have habsent := absent_of_probe hshape (fun j hj => ?_) ho hempty hs.o_lt
    · exact absurd (hs.ownership.symm.trans habsent) (by decide)
    · obtain ⟨ht, _, hpk, _⟩ := AssetRecord.matchesHolding_iff.mp hj
      exact ⟨by rw [ht]; decide, hpk⟩
  obtain ⟨holt, hkeyO⟩ := found_of_probe ho hocc
  rcases hrest with ⟨hempty, hu, hr⟩ | ⟨hocc, hstep⟩
  -- no possession
  · refine Or.inr (transferRefused_of_missing ?_ hu hr)
    intro x' o' p' hs
    obtain rfl := hshape.issuance_unique hs.x_lt hxlt hs.issuance hkeyX
    obtain rfl := hshape.holding_unique (Or.inl rfl) hs.o_lt holt hs.ownership hkeyO
    have habsent := absent_of_probe hshape (fun j hj => ?_) hp hempty hs.p_lt
    · obtain ⟨ht, hindex, hpk, _⟩ := AssetRecord.matchesHolding_iff.mp hs.possession
      have hyes : (u.assets p').isPossessionOf possessor o' = true :=
        AssetRecord.isPossessionOf_iff.mpr ⟨ht, by rw [hindex]; simp, hpk⟩
      exact absurd (hyes.symm.trans habsent) (by decide)
    · obtain ⟨ht, _, hpk⟩ := AssetRecord.isPossessionOf_iff.mp hj
      exact ⟨by rw [ht]; decide, hpk⟩
  obtain ⟨hplt, hkeyP⟩ := found_of_probe hp hocc
  have hposs := h.possession_contract hdepth holt hplt hkeyO hkeyP
  have hs : SourceRecords depth u.assets name issuer owner possessor c x o p :=
    ⟨hxlt, holt, hplt, hkeyX, hkeyO, hposs⟩
  rcases hstep with ⟨hother, _⟩ | ⟨_, ⟨hlt, hu, hr⟩ | ⟨hle, t, ht, hr⟩⟩
  · exact absurd (AssetRecord.matchesHolding_iff.mp hposs).2.2.2 hother
  · exact Or.inr (transferRefused_of_notEnough hshape hs hlt hu hr)
  · exact transferSlots_outcome hdepth h hs hle ht hr

/-- **Transfers by key.** In every table the handlers make, possessions have the managing contract of
their ownership. With two empty slots left a transfer by key comes back. One that comes back
succeeds exactly when its conditions hold; otherwise it changes nothing and returns a negative
value, as far as the difference it returns for a possession with too few shares can be
represented. -/
theorem transferByKey_exact (hdepth : depth ≤ 31) (h : AssetReachable depth u) :
    (∀ i, i < 2 ^ depth → (u.assets i).type = POSSESSION →
      (u.assets i).managingContractIndex
        = (u.assets (u.assets i).index.toNat).managingContractIndex) ∧
    ∀ (name : BitVec 64) (issuer owner possessor : m256i) (n c : BitVec 64) (key : m256i),
      (2 ≤ room depth u.assets → ∃ u' r, transferShareOwnershipAndPossessionByKey depth u name
        issuer owner possessor n c key = .ok (u', r)) ∧
      ∀ u' r, transferShareOwnershipAndPossessionByKey depth u name issuer owner possessor n c key
          = .ok (u', r) →
        (TransferSucceeds depth u u' name issuer owner possessor n c key r ↔
          CanTransfer depth u.assets name issuer owner possessor n c key) ∧
        (¬ CanTransfer depth u.assets name issuer owner possessor n c key → u' = u ∧
          (0 < n.toInt → ReturnsNegative depth u u' name issuer owner possessor n c r)) := by
  obtain ⟨dead, acc, hinv⟩ := h.settled hdepth
  have hshape := h.shape hdepth
  refine ⟨hinv.contract, fun name issuer owner possessor n c key => ⟨fun hroom => ?_, ?_⟩⟩
  · exact transferByKey_returns hshape hroom name issuer owner possessor n c key
  intro u' r hrun
  rcases transferByKey_outcome hdepth hshape hinv hrun with hmade | hrefused
  · exact ⟨iff_of_true hmade.succeeds hmade.can, fun hno => absurd hmade.can hno⟩
  · exact ⟨iff_of_false hrefused.failed hrefused.cannot,
      fun _ => ⟨hrefused.unchanged, hrefused.negative⟩⟩

end Outcome

/-- The theorem at 16 slots, after an issuance of 100 shares: a transfer of 40. -/
theorem transferByKey_exact_at_transfer :
    ∃ u₁ r₁ u₂ r₂,
      processIssueAsset 4 emptyUniverse (.ofAssetIssuance 11 0 ⟨1, 100, 2, 0x41, 0, 0⟩)
        = .ok (u₁, r₁) ∧
      transferShareOwnershipAndPossessionByKey 4 u₁ 0x41 1 1 1 40 2 17 = .ok (u₂, r₂) ∧
      (TransferSucceeds 4 u₁ u₂ 0x41 1 1 1 40 2 17 r₂ ↔
        CanTransfer 4 u₁.assets 0x41 1 1 1 40 2 17) := by
  obtain ⟨⟨u₁, r₁⟩, hissue, hok⟩ :=
    @exists_ok_of_any _
      (processIssueAsset 4 emptyUniverse (.ofAssetIssuance 11 0 ⟨1, 100, 2, 0x41, 0, 0⟩))
      (fun p => (transferShareOwnershipAndPossessionByKey 4 p.1 0x41 1 1 1 40 2 17).isOk)
      (by decide +kernel)
  obtain ⟨⟨u₂, r₂⟩, htransfer⟩ := exists_ok_of_isOk hok
  have hreach : AssetReachable 4 u₁ := .issueAsset (assetReachable_empty 4) hissue
  exact ⟨u₁, r₁, u₂, r₂, hissue, htransfer,
    (((transferByKey_exact (by decide) hreach).2 0x41 1 1 1 40 2 17).2 u₂ r₂ htransfer).1⟩

/-- A transfer by key always comes back, succeeds exactly when its conditions hold, and otherwise
changes nothing and returns a negative value. -/
def TransferExact (depth : Nat) (u : Universe) (name : BitVec 64) (issuer owner possessor : m256i)
    (n c : BitVec 64) (key : m256i) : Prop :=
  ∃ u' r, transferShareOwnershipAndPossessionByKey depth u name issuer owner possessor n c key
      = .ok (u', r) ∧
    (TransferSucceeds depth u u' name issuer owner possessor n c key r ↔
      CanTransfer depth u.assets name issuer owner possessor n c key) ∧
    (¬ CanTransfer depth u.assets name issuer owner possessor n c key → u' = u ∧
      (0 < n.toInt → (r.returnValue u'.assets n).toInt < 0))

/-- After an issuance of `-2 ^ 63` shares, a transfer of one share returns `2 ^ 63 - 1`; and in a
table of four slots, three of which an issuance has taken, one to a new holder never comes back. -/
theorem transferExact_fails :
    (∃ u, AssetReachable 24 u ∧ ¬ TransferExact 24 u 0x41 1 1 1 1 2 5) ∧
      ∃ u, AssetReachable 2 u ∧ ¬ TransferExact 2 u 0x41 1 1 1 1 2 5 := by
  constructor
  · obtain ⟨⟨u₁, r₁⟩, hissue, htest⟩ :=
      @exists_ok_of_any _
        (processIssueAsset 24 emptyUniverse (.ofAssetIssuance 11 0 ⟨1, 2 ^ 63, 2, 0x41, 0, 0⟩))
        (fun p => (transferShareOwnershipAndPossessionByKey 24 p.1 0x41 1 1 1 1 2 5).toOption.any
          (fun q : Universe × KeyTransferResult =>
            q.2 == .notEnough 3 && decide (0 < (q.2.returnValue q.1.assets 1).toInt)))
        (by decide +kernel)
    obtain ⟨⟨u₂, r₂⟩, hrun, hvalue⟩ := exists_ok_of_any htest
    rw [Bool.and_eq_true, beq_iff_eq, decide_eq_true_iff] at hvalue
    have hreach : AssetReachable 24 u₁ := .issueAsset (assetReachable_empty 24) hissue
    refine ⟨u₁, hreach, ?_⟩
    rintro ⟨u', r, hrun', _, hrefused⟩
    obtain ⟨rfl, rfl⟩ := Prod.mk.inj (Except.ok.inj (hrun.symm.trans hrun'))
    obtain ⟨dead, acc, hinv⟩ := hreach.settled (by decide)
    rcases transferByKey_outcome (by decide) (hreach.shape (by decide)) hinv hrun with hmade | hno
    · obtain ⟨o, p, t, hdone⟩ := hmade.done
      exact absurd (hvalue.1.symm.trans hdone) (by simp)
    · have hneg := (hrefused hno.cannot).2 (by decide)
      have hpos := hvalue.2
      dsimp only at hpos
      omega
  · obtain ⟨⟨u₁, r₁⟩, hissue, htest⟩ :=
      @exists_ok_of_any _
        (processIssueAsset 2 emptyUniverse (.ofAssetIssuance 11 0 ⟨1, 100, 2, 0x41, 0, 0⟩))
        (fun p => !(transferShareOwnershipAndPossessionByKey 2 p.1 0x41 1 1 1 1 2 5).isOk)
        (by decide +kernel)
    refine ⟨u₁, .issueAsset (assetReachable_empty 2) hissue, ?_⟩
    rintro ⟨u', r, hrun, _⟩
    dsimp only at htest
    rw [hrun] at htest
    exact absurd htest (by simp [Except.isOk, Except.toBool])

end QubicBob
