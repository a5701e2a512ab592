import QubicBob.Ledger.AssetInvariant

set_option autoImplicit false

/-! # Looking records up by key

`findIssuerIndex`, `findOwnershipIndex` and `findPossessionIndex` start at the home slot of a key and
stop at the first empty slot. In a table of the right shape with an empty slot left this finds
every record there is (`Finds`), and `getAssetBalances` reads the share counts of two of them.

Only the shape matters here, so the calls that write are followed by what they do to the shape
alone: any share count may be issued, also a negative one.
-/

namespace QubicBob

open Probe BitWords

/-! ## Calls that write keep the shape -/

section Writes

variable {depth : Nat} {assets : Assets} {u u' : Universe} {kind : BitVec 8} {key : m256i}
  {c : BitVec 16} {source d index own poss : Nat} {n : BitVec 64}

/-- A move keeps the shape, whatever becomes of the share counts. -/
theorem moveBetween_shape (h : TableShape depth assets)
    (hkind : kind = OWNERSHIP ∨ kind = POSSESSION) (hs : (assets source).type ≠ EMPTY)
    (hd : d < 2 ^ depth) (hdest : Destination depth assets kind key c (BitVec.ofNat 32 index) d)
    (hlink : ((assets d).holding kind key c index).Linked depth assets) :
    TableShape depth (moveBetween assets source d kind key c index n) ∧
      (moveBetween assets source d kind key c index n d).type = kind ∧
      ∀ i, (assets i).type ≠ EMPTY →
        (moveBetween assets source d kind key c index n i).header = (assets i).header := by
  obtain ⟨debited, hdebited⟩ :
      ∃ t, t = reshare assets source ((assets source).numberOfShares - n) := ⟨_, rfl⟩
  have hshape : TableShape depth debited := hdebited ▸ h.reshare hs
  have htype : ∀ i, (debited i).type = (assets i).type := by
    intro i
    rw [hdebited, reshare_type]
  obtain ⟨opened, hopened⟩ : ∃ t, t = openHolding debited d kind key c index := ⟨_, rfl⟩
  have hopen : Opened depth debited opened kind key c index d := by
    rw [hopened]
    refine openHolding_spec hshape hd hkind ?_ ?_
    · rw [hdebited]
      exact hdest.reshare
    · exact AssetRecord.Linked.mono hlink (fun i _ _ => htype i)
  have hkindOf : (opened d).type = kind := (AssetRecord.isHolding_iff.mp hopen.dest).1
  rw [moveBetween_eq hdebited hopened]
  refine ⟨hopen.shape.reshare ?_, ?_, ?_⟩
  · rw [hkindOf]
    rcases hkind with rfl | rfl <;> decide
  · rw [reshare_type, hkindOf]
  · intro i hi
    rw [reshare_header, hopen.keep i (by rw [htype]; exact hi), hdebited, reshare_header]

theorem moveShares_shape (hdepth : depth ≤ 31) (h : TableShape depth u.assets)
    (hm : CanMove depth u.assets own poss n) {ok pk : m256i} {oc pc : BitVec 16}
    {r : TransferResult} (hrun : moveShares depth u own poss ok oc pk pc n = .ok (u', r)) :
    TableShape depth u'.assets := by
  obtain ⟨dOwn, dPoss, _, hdOwn, hdPoss, rfl⟩ := moveShares_cases hrun
  obtain ⟨hlt, hdest⟩ := probeHolding_destination h (by decide) hdOwn
  have hlink := (h.linked own hm.own_lt).1 hm.own_type
  obtain ⟨hshape, htype, hkeep⟩ := moveBetween_shape (n := n) h (Or.inl rfl)
    (show (u.assets own).type ≠ EMPTY by rw [hm.own_type]; decide) hlt
    (show Destination depth u.assets OWNERSHIP ok oc
      (BitVec.ofNat 32 (u.assets own).index.toNat) dOwn by rw [ofNat_toNat_index]; exact hdest)
    (AssetRecord.linked_ownership (by rw [ofNat_toNat_index]) hlink)
  obtain ⟨hltP, hdestP⟩ := probeHolding_destination hshape (by decide) hdPoss
  refine (moveBetween_shape hshape (Or.inr rfl) ?_ hltP hdestP ?_).1
  · rw [(AssetRecord.fields_of_header (hkeep poss (by rw [hm.poss_type]; decide))).1, hm.poss_type]
    decide
  · exact AssetRecord.linked_possession (toNat_slot hdepth hlt) ⟨hlt, htype⟩

theorem burnShares_shape (h : TableShape depth u.assets) (hm : CanMove depth u.assets own poss n)
    {r : TransferResult} (hrun : burnShares depth u own poss n = .ok (u', r)) :
    TableShape depth u'.assets := by
  rcases burnShares_cases hrun with ⟨rfl, _⟩ | ⟨_, A, hA, rfl⟩
  · exact h
  · have hown : A = reshare u.assets own ((u.assets own).numberOfShares - n) := hA
    have hshape : TableShape depth A := hown ▸ h.reshare (by rw [hm.own_type]; decide)
    apply hshape.reshare
    rw [hown, reshare_type, hm.poss_type]
    decide

theorem transferSlots_shape (hdepth : depth ≤ 31) (h : TableShape depth u.assets) {a b : Int}
    {r : TransferResult}
    (hrun : transferShareOwnershipAndPossession depth u a b key n = .ok (u', r)) :
    TableShape depth u'.assets := by
  rcases transferShareOwnershipAndPossession_cases hrun with
    ⟨rfl, _⟩ | ⟨own, poss, _, _, _, hm, ⟨_, hb⟩ | ⟨_, hmove⟩⟩
  · exact h
  · exact burnShares_shape h hm hb
  · exact moveShares_shape hdepth h hm hmove

theorem transferByKey_shape (hdepth : depth ≤ 31) (h : TableShape depth u.assets)
    {name : BitVec 64} {issuer owner possessor : m256i} {managing : BitVec 64}
    {r : KeyTransferResult}
    (hrun : transferShareOwnershipAndPossessionByKey depth u name issuer owner possessor n managing
      key = .ok (u', r)) : TableShape depth u'.assets := by
  rcases transferByKey_cases hrun with ⟨rfl, _⟩ | ⟨own, poss, t, ht, _⟩
  · exact h
  · exact transferSlots_shape hdepth h ht

theorem managementRights_shape (hdepth : depth ≤ 31) (h : TableShape depth u.assets) {a b : Int}
    {oc pc : BitVec 16} {r : TransferResult}
    (hrun : transferShareManagementRights depth u a b oc pc n = .ok (u', r)) :
    TableShape depth u'.assets := by
  rcases transferShareManagementRights_cases hrun with ⟨rfl, _⟩ | ⟨own, poss, _, _, _, hm, hmove⟩
  · exact h
  · exact moveShares_shape hdepth h hm hmove

theorem issueAsset_shape (hdepth : depth ≤ 31) (h : TableShape depth u.assets) {issuer : m256i}
    {name : BitVec 56} {decimals : BitVec 8} {unit : BitVec 56} {r : IssueResult}
    (hrun : issueAsset depth u issuer name decimals unit n c = .ok (u', r)) :
    TableShape depth u'.assets := by
  rcases issueAsset_cases hrun with
    ⟨i, rfl, _⟩ | ⟨iss, own, poss, _, hiss, hempty, hown, hposs, rfl⟩
  · exact h
  · exact (issuedAssets_issued hdepth h rfl rfl rfl hiss (isEmptySlot_iff.mp hempty) hown
      hposs).shape

end Writes

/-! ## One record for each key -/

section Unique

variable {depth i j : Nat} {assets : Assets} {kind : BitVec 8} {key : m256i}

theorem AssetRecord.isIssuance_eq_true_iff {r : AssetRecord} {name : BitVec 64} :
    r.isIssuance key name = true ↔
      r.type = ISSUANCE ∧ r.name.zeroExtend 64 = name ∧ r.publicKey = key := by
  simp only [AssetRecord.isIssuance, Bool.and_eq_true, beq_iff_eq, and_assoc]

theorem AssetRecord.matchesHolding_iff {r : AssetRecord} {managingIndex index : Int} :
    r.matchesHolding kind key managingIndex index = true ↔ r.type = kind ∧
      r.index = BitVec.ofInt 32 index ∧ r.publicKey = key ∧
      (r.managingContractIndex.toNat : Int) = managingIndex := by
  simp only [AssetRecord.matchesHolding, Bool.and_eq_true, beq_iff_eq, decide_eq_true_eq, and_assoc]

theorem TableShape.issuance_unique (h : TableShape depth assets) {name : BitVec 64}
    (hi : i < 2 ^ depth) (hj : j < 2 ^ depth) (hkeyI : (assets i).isIssuance key name = true)
    (hkeyJ : (assets j).isIssuance key name = true) : i = j := by
  obtain ⟨htI, hnameI, hpkI⟩ := AssetRecord.isIssuance_eq_true_iff.mp hkeyI
  obtain ⟨htJ, hnameJ, hpkJ⟩ := AssetRecord.isIssuance_eq_true_iff.mp hkeyJ
  have hname : (assets i).name = (assets j).name := by
    have hlow := congrArg (BitVec.setWidth 56) (hnameI.trans hnameJ.symm)
    simpa using hlow
  exact h.unique i j hi hj ⟨htI.trans htJ.symm, hpkI.trans hpkJ.symm, Or.inl ⟨htI, hname⟩⟩

theorem TableShape.holding_unique (h : TableShape depth assets)
    (hkind : kind = OWNERSHIP ∨ kind = POSSESSION) {managingIndex index : Int}
    (hi : i < 2 ^ depth) (hj : j < 2 ^ depth)
    (hkeyI : (assets i).matchesHolding kind key managingIndex index = true)
    (hkeyJ : (assets j).matchesHolding kind key managingIndex index = true) : i = j := by
  obtain ⟨htI, hindexI, hpkI, hcI⟩ := AssetRecord.matchesHolding_iff.mp hkeyI
  obtain ⟨htJ, hindexJ, hpkJ, hcJ⟩ := AssetRecord.matchesHolding_iff.mp hkeyJ
  have hc : (assets i).managingContractIndex = (assets j).managingContractIndex := by
    apply BitVec.eq_of_toNat_eq
    omega
  exact h.unique i j hi hj ⟨htI.trans htJ.symm, hpkI.trans hpkJ.symm,
    Or.inr ⟨by rw [htI]; exact hkind, hc, hindexI.trans hindexJ.symm⟩⟩

end Unique

/-! ## The find functions -/

/-- The `bool` of the find functions: `false` at the exit that sets the index to `-1`, `true` at
the other. -/
def found (index : Int) : Bool := index != -1

/-- The index is the one slot whose record satisfies `key`, or `-1` when there is no such record. -/
def Finds (depth : Nat) (key : Nat → Bool) (index : Int) : Prop :=
  (∃ x : Nat, index = x ∧ found index = true ∧ x < 2 ^ depth ∧ key x = true ∧
      ∀ j, j < 2 ^ depth → key j = true → j = x) ∨
    index = -1 ∧ found index = false ∧ ∀ j, j < 2 ^ depth → key j = false

section Find

variable {depth : Nat} {assets : Assets} {kind : BitVec 8} {key : m256i}

theorem Finds.slot {key : Nat → Bool} {index : Int} (h : Finds depth key index) {x : Nat}
    (hx : x < 2 ^ depth) (hkey : key x = true) : index = x := by
  rcases h with ⟨y, hy, _, _, _, hunique⟩ | ⟨_, _, habsent⟩
  · rw [hy, hunique x hx hkey]
  · rw [habsent x hx] at hkey
    exact absurd hkey (by simp)

theorem Finds.absent {key : Nat → Bool} {index : Int} (h : Finds depth key index)
    (hno : ∀ j, j < 2 ^ depth → key j = false) : index = -1 := by
  rcases h with ⟨x, _, _, hx, hkey, _⟩ | ⟨hindex, _⟩
  · rw [hno x hx] at hkey
    exact absurd hkey (by simp)
  · exact hindex

/-- The exit of a find function, once its probe has ended. -/
def findResult (assets : Assets) (probed : Option Nat) : Except Halt Int := do
  let i ← orDiverge probed
  if isEmptySlot assets i then pure (-1) else pure (i : Int)

theorem findIssuerIndex_eq (issuer : m256i) (name : BitVec 64) :
    findIssuerIndex depth assets issuer name = findResult assets (probe (fun i =>
      isEmptySlot assets i || (assets i).isIssuance issuer name) depth (homeSlot depth issuer)) :=
  rfl

theorem findHoldingIndex_eq (index managingIndex : Int) :
    findHoldingIndex depth assets kind index key managingIndex
      = findResult assets (probe (fun i => isEmptySlot assets i ||
          (assets i).matchesHolding kind key managingIndex index) depth (homeSlot depth key)) :=
  rfl

/-- A find function answers right if something can stop it. -/
theorem finds_of_probe {isKey : Nat → Bool} {home : Nat} (hhome : home < 2 ^ depth)
    (hstops : ∃ z, z < 2 ^ depth ∧ ((assets z).type = EMPTY ∨ isKey z = true))
    (hocc : ∀ j, j < 2 ^ depth → isKey j = true → (assets j).type ≠ EMPTY)
    (hunique : ∀ i j, i < 2 ^ depth → j < 2 ^ depth → isKey i = true → isKey j = true → i = j)
    (hreach : ∀ j, j < 2 ^ depth → isKey j = true →
      Reach (fun i => isEmptySlot assets i = false) (2 ^ depth) home j) :
    ∃ index, findResult assets (probe (fun i => isEmptySlot assets i || isKey i) depth home)
      = .ok index ∧ Finds depth isKey index := by
  obtain ⟨z, hz, hstop⟩ := hstops
  rw [← isEmptySlot_iff] at hstop
  obtain ⟨x, hprobe, hx, hcases⟩ := probe_complete hhome hz hstop hreach
  have hrun : orDiverge (probe (fun i => isEmptySlot assets i || isKey i) depth home) = .ok x :=
    orDiverge_eq_ok.mpr hprobe
  unfold findResult
  rcases hcases with hkey | ⟨hslot, habsent⟩
  · refine ⟨x, ?_, Or.inl ⟨x, rfl, ?_, hx, hkey, fun j hj h => hunique j x hj hx h hkey⟩⟩
    · simp [hrun, bind, Except.bind, isEmptySlot_false_iff.mpr (hocc x hx hkey), pure, Except.pure]
    · simp only [found, bne_iff_ne]
      omega
  · refine ⟨-1, ?_, Or.inr ⟨rfl, rfl, habsent⟩⟩
    simp [hrun, bind, Except.bind, hslot, pure, Except.pure]

/-- What stopped a find function that has answered; in a full table this is what it looked for. -/
theorem stops_of_find {isKey : Nat → Bool} {home : Nat} {index : Int} (hhome : home < 2 ^ depth)
    (hrun : findResult assets (probe (fun i => isEmptySlot assets i || isKey i) depth home)
      = .ok index) (hfull : ∀ z, z < 2 ^ depth → (assets z).type ≠ EMPTY) :
    ∃ x : Nat, index = x ∧ x < 2 ^ depth ∧ isKey x = true := by
  rw [findResult, bind_eq_ok] at hrun
  obtain ⟨x, hprobe, hindex⟩ := hrun
  rw [orDiverge_eq_ok] at hprobe
  have hx := probe_lt hhome hprobe
  have hstop := probe_stop hhome hprobe
  simp only [isEmptySlot_false_iff.mpr (hfull x hx), Bool.false_or] at hstop
  rw [if_neg (by simp [isEmptySlot_false_iff.mpr (hfull x hx)])] at hindex
  exact ⟨x, (Except.ok.inj hindex).symm, hx, hstop⟩

theorem findIssuerIndex_finds (h : TableShape depth assets) (issuer : m256i) (name : BitVec 64)
    (hstops : ∃ z, z < 2 ^ depth ∧
      ((assets z).type = EMPTY ∨ (assets z).isIssuance issuer name = true)) :
    ∃ index, findIssuerIndex depth assets issuer name = .ok index ∧
      Finds depth (fun i => (assets i).isIssuance issuer name) index := by
  have hocc : ∀ j, j < 2 ^ depth → (assets j).isIssuance issuer name = true →
      (assets j).type ≠ EMPTY := by
    intro j _ hkey
    rw [(AssetRecord.isIssuance_eq_true_iff.mp hkey).1]
    decide
  refine finds_of_probe (homeSlot_lt depth issuer) hstops hocc
    (fun i j hi hj => h.issuance_unique hi hj) ?_
  intro j hj hkey
  have hreach := h.reach j hj (hocc j hj hkey)
  rwa [(AssetRecord.isIssuance_eq_true_iff.mp hkey).2.2] at hreach

theorem findHoldingIndex_finds (h : TableShape depth assets)
    (hkind : kind = OWNERSHIP ∨ kind = POSSESSION) (index : Int) (holder : m256i)
    (managingIndex : Int) (hstops : ∃ z, z < 2 ^ depth ∧ ((assets z).type = EMPTY ∨
      (assets z).matchesHolding kind holder managingIndex index = true)) :
    ∃ r, findHoldingIndex depth assets kind index holder managingIndex = .ok r ∧
      Finds depth (fun i => (assets i).matchesHolding kind holder managingIndex index) r := by
  have hocc : ∀ j, j < 2 ^ depth →
      (assets j).matchesHolding kind holder managingIndex index = true →
      (assets j).type ≠ EMPTY := by
    intro j _ hkey
    rw [(AssetRecord.matchesHolding_iff.mp hkey).1]
    rcases hkind with rfl | rfl <;> decide
  refine finds_of_probe (homeSlot_lt depth holder) hstops hocc
    (fun i j hi hj => h.holding_unique hkind hi hj) ?_
  intro j hj hkey
  have hreach := h.reach j hj (hocc j hj hkey)
  rwa [(AssetRecord.matchesHolding_iff.mp hkey).2.2.1] at hreach

end Find

/-! ## Balances -/

/-- Slot `o` is the ownership of the asset by `pk` under the managing contract. -/
def IsOwnership (depth : Nat) (assets : Assets) (pk issuer : m256i) (assetName : BitVec 64)
    (manageSCIndex : BitVec 32) (o : Nat) : Prop :=
  o < 2 ^ depth ∧ ∃ x, x < 2 ^ depth ∧ (assets x).isIssuance issuer assetName = true ∧
    (assets o).matchesHolding OWNERSHIP pk manageSCIndex.toInt x = true

/-- Slot `p` is the possession by `pk` under that ownership, with the same managing contract. -/
def IsPossession (depth : Nat) (assets : Assets) (pk issuer : m256i) (assetName : BitVec 64)
    (manageSCIndex : BitVec 32) (p : Nat) : Prop :=
  p < 2 ^ depth ∧ ∃ o, IsOwnership depth assets pk issuer assetName manageSCIndex o ∧
    (assets p).matchesHolding POSSESSION pk manageSCIndex.toInt o = true

/-- The balance is the share count of the one slot that satisfies `is`, or `-1`. -/
def BalanceOf (assets : Assets) (is : Nat → Prop) (balance : Int) : Prop :=
  (∃ x, is x ∧ (∀ y, is y → y = x) ∧ balance = (assets x).shares) ∨
    (∀ x, ¬ is x) ∧ balance = -1

section Balances

variable {depth : Nat} {assets : Assets} {pk issuer : m256i} {assetName : BitVec 64}
  {manageSCIndex : BitVec 32}

theorem BalanceOf.none {is : Nat → Prop} (h : ∀ x, ¬ is x) : BalanceOf assets is (-1) :=
  Or.inr ⟨h, rfl⟩

/-- The share count read at a slot that was looked up. -/
theorem Finds.balance {key : Nat → Bool} {index : Int} (h : Finds depth key index)
    {is : Nat → Prop} (his : ∀ x, is x ↔ x < 2 ^ depth ∧ key x = true) :
    BalanceOf assets is
      (if index = -1 then -1 else (assets index.toNat).numberOfShares.toInt) := by
  rcases h with ⟨x, rfl, _, hx, hkey, hunique⟩ | ⟨rfl, _, habsent⟩
  · rw [if_neg (by omega)]
    refine Or.inl ⟨x, (his x).mpr ⟨hx, hkey⟩, fun y hy => ?_, rfl⟩
    obtain ⟨hlt, hkeyY⟩ := (his y).mp hy
    exact hunique y hlt hkeyY
  · rw [if_pos rfl]
    refine BalanceOf.none (fun x hx => ?_)
    obtain ⟨hlt, hkey⟩ := (his x).mp hx
    exact absurd (hkey.symm.trans (habsent x hlt)) (by decide)

/-- With the issuance in slot `x`, an ownership of the asset is one that points there. -/
theorem isOwnership_iff {x : Nat} (hx : x < 2 ^ depth)
    (hkey : (assets x).isIssuance issuer assetName = true)
    (hunique : ∀ j, j < 2 ^ depth → (assets j).isIssuance issuer assetName = true → j = x)
    (o : Nat) : IsOwnership depth assets pk issuer assetName manageSCIndex o ↔ o < 2 ^ depth ∧
      (assets o).matchesHolding OWNERSHIP pk manageSCIndex.toInt x = true := by
  constructor
  · rintro ⟨ho, y, hy, hkeyY, hmatch⟩
    obtain rfl := hunique y hy hkeyY
    exact ⟨ho, hmatch⟩
  · rintro ⟨ho, hmatch⟩
    exact ⟨ho, x, hx, hkey, hmatch⟩

/-- With the ownership in slot `o`, a possession under it is one that points there. -/
theorem isPossession_iff {o : Nat}
    (ho : IsOwnership depth assets pk issuer assetName manageSCIndex o)
    (hunique : ∀ j, IsOwnership depth assets pk issuer assetName manageSCIndex j → j = o)
    (p : Nat) : IsPossession depth assets pk issuer assetName manageSCIndex p ↔ p < 2 ^ depth ∧
      (assets p).matchesHolding POSSESSION pk manageSCIndex.toInt o = true := by
  constructor
  · rintro ⟨hp, y, hy, hmatch⟩
    obtain rfl := hunique y hy
    exact ⟨hp, hmatch⟩
  · rintro ⟨hp, hmatch⟩
    exact ⟨hp, o, ho, hmatch⟩

/-- Without an ownership there is no possession under it. -/
theorem not_isPossession
    (hno : ∀ o, ¬ IsOwnership depth assets pk issuer assetName manageSCIndex o) (p : Nat) :
    ¬ IsPossession depth assets pk issuer assetName manageSCIndex p := by
  rintro ⟨_, o, ho, _⟩
  exact hno o ho

/-- Both balances are those of the records of the key. An empty slot ends every search; in a full
table the possession itself has to be there. -/
theorem getAssetBalances_spec (h : TableShape depth assets)
    (hstops : (∃ z, z < 2 ^ depth ∧ (assets z).type = EMPTY) ∨
      ∃ p, IsPossession depth assets pk issuer assetName manageSCIndex p) :
    ∃ b, getAssetBalances depth assets pk issuer assetName manageSCIndex = .ok b ∧
      BalanceOf assets (IsOwnership depth assets pk issuer assetName manageSCIndex) b.1 ∧
      BalanceOf assets (IsPossession depth assets pk issuer assetName manageSCIndex) b.2 := by
  obtain ⟨iss, hiss, hfindI⟩ := findIssuerIndex_finds h issuer assetName (by
    rcases hstops with ⟨z, hz, hempty⟩ | ⟨p, _, o, ⟨_, y, hy, hkey, _⟩, _⟩
    · exact ⟨z, hz, Or.inl hempty⟩
    · exact ⟨y, hy, Or.inr hkey⟩)
  unfold getAssetBalances findOwnershipIndex findPossessionIndex
  simp only [hiss, bind, Except.bind]
  rcases hfindI with ⟨x, rfl, _, hx, hkeyX, huniqueX⟩ | ⟨rfl, _, habsentX⟩
  swap
  -- no issuance
  · rw [if_pos rfl]
    have hno : ∀ o, ¬ IsOwnership depth assets pk issuer assetName manageSCIndex o := by
      rintro o ⟨_, y, hy, hkey, _⟩
      exact absurd (hkey.symm.trans (habsentX y hy)) (by decide)
    exact ⟨_, rfl, BalanceOf.none hno, BalanceOf.none (not_isPossession hno)⟩
  rw [if_neg (by omega)]
  have hisO : ∀ o, IsOwnership depth assets pk issuer assetName manageSCIndex o ↔ _ :=
    isOwnership_iff hx hkeyX huniqueX
  obtain ⟨own, hown, hfindO⟩ := findHoldingIndex_finds h (Or.inl rfl) (x : Int) pk
    manageSCIndex.toInt (by
      rcases hstops with ⟨z, hz, hempty⟩ | ⟨p, _, o, ho, _⟩
      · exact ⟨z, hz, Or.inl hempty⟩
      · exact ⟨o, ho.1, Or.inr ((hisO o).mp ho).2⟩)
  have howner : BalanceOf assets _ _ := hfindO.balance hisO
  simp only [hown]
  rcases hfindO with ⟨o, rfl, _, ho, hkeyO, huniqueO⟩ | ⟨rfl, _, habsentO⟩
  swap
  -- no ownership
  · rw [if_pos rfl] at howner ⊢
    have hno : ∀ o, ¬ IsOwnership depth assets pk issuer assetName manageSCIndex o := by
      intro o hc
      obtain ⟨ho, hkey⟩ := (hisO o).mp hc
      exact absurd (hkey.symm.trans (habsentO o ho)) (by decide)
    exact ⟨_, rfl, howner, BalanceOf.none (not_isPossession hno)⟩
  rw [if_neg (by omega)] at howner ⊢
  have hisP := isPossession_iff ((hisO o).mpr ⟨ho, hkeyO⟩)
    (fun j hj => huniqueO j ((hisO j).mp hj).1 ((hisO j).mp hj).2)
  obtain ⟨poss, hposs, hfindP⟩ := findHoldingIndex_finds h (Or.inr rfl) (o : Int) pk
    manageSCIndex.toInt (by
      rcases hstops with ⟨z, hz, hempty⟩ | ⟨p, hp⟩
      · exact ⟨z, hz, Or.inl hempty⟩
      · exact ⟨p, hp.1, Or.inr ((hisP p).mp hp).2⟩)
  have hpossessor : BalanceOf assets _ _ := hfindP.balance hisP
  simp only [hposs]
  by_cases hp : poss = -1
  · rw [if_pos hp] at hpossessor ⊢
    exact ⟨_, rfl, howner, hpossessor⟩
  · rw [if_neg hp] at hpossessor ⊢
    exact ⟨_, rfl, howner, hpossessor⟩

/-- A full table gives an answer only if the possession is there. -/
theorem stops_of_getAssetBalances {b : Int × Int}
    (hrun : getAssetBalances depth assets pk issuer assetName manageSCIndex = .ok b) :
    (∃ z, z < 2 ^ depth ∧ (assets z).type = EMPTY) ∨
      ∃ p, IsPossession depth assets pk issuer assetName manageSCIndex p := by
  by_cases hempty : ∃ z, z < 2 ^ depth ∧ (assets z).type = EMPTY
  · exact Or.inl hempty
  refine Or.inr ?_
  have hfull : ∀ z, z < 2 ^ depth → (assets z).type ≠ EMPTY :=
    fun z hz hc => hempty ⟨z, hz, hc⟩
  rw [getAssetBalances, bind_eq_ok] at hrun
  obtain ⟨iss, hiss, hrun⟩ := hrun
  rw [findIssuerIndex_eq] at hiss
  obtain ⟨x, rfl, hx, hkeyX⟩ := stops_of_find (homeSlot_lt depth issuer) hiss hfull
  rw [if_neg (by omega), bind_eq_ok] at hrun
  obtain ⟨own, hown, hrun⟩ := hrun
  rw [findOwnershipIndex, findHoldingIndex_eq] at hown
  obtain ⟨o, rfl, ho, hkeyO⟩ := stops_of_find (homeSlot_lt depth pk) hown hfull
  rw [if_neg (by omega), bind_eq_ok] at hrun
  obtain ⟨poss, hposs, _⟩ := hrun
  rw [findPossessionIndex, findHoldingIndex_eq] at hposs
  obtain ⟨p, _, hp, hkeyP⟩ := stops_of_find (homeSlot_lt depth pk) hposs hfull
  exact ⟨p, hp, o, ⟨ho, x, hx, hkeyX, hkeyO⟩, hkeyP⟩

/-- The balances that are returned are those of the records of the key. -/
theorem getAssetBalances_of_ok (h : TableShape depth assets) {b : Int × Int}
    (hrun : getAssetBalances depth assets pk issuer assetName manageSCIndex = .ok b) :
    BalanceOf assets (IsOwnership depth assets pk issuer assetName manageSCIndex) b.1 ∧
      BalanceOf assets (IsPossession depth assets pk issuer assetName manageSCIndex) b.2 := by
  obtain ⟨b', hrun', hown, hposs⟩ := getAssetBalances_spec h (stops_of_getAssetBalances hrun)
  obtain rfl := Except.ok.inj (hrun.symm.trans hrun')
  exact ⟨hown, hposs⟩

end Balances

end QubicBob
