import QubicBob.Ledger.AssetTable

set_option autoImplicit false

/-! # The invariant of the asset table

`TableBooks` is about share counts: an ownership has the shares of its possessions, and the
ownerships of an issuance have what was issued and not burned since. The books compare the table
with `Accounts`, which record the two numbers for each issuance. With the shape of the table this
is `TableInvariant`.

The invariant is also why share counts do not overflow: a destination together with what is on its
way to it never holds more than the supply. The main result is about whole runs of issuances,
transfers and changes of managing contracts.
-/

namespace QubicBob

open Probe BitWords Tally

/-! ## The books -/

/-- For each issuance, by slot, the number of shares issued and the number burned since. -/
structure Accounts where
  issued : Nat → Int
  burned : Nat → Int

def Accounts.issue (acc : Accounts) (i : Nat) (n : Int) : Accounts :=
  ⟨Function.update acc.issued i n, Function.update acc.burned i 0⟩

def Accounts.burn (acc : Accounts) (i : Nat) (n : Int) : Accounts :=
  { acc with burned := Function.update acc.burned i (acc.burned i + n) }

structure TableBooks (depth : Nat) (assets : Assets) (acc : Accounts) : Prop where
  nonneg : ∀ i, i < 2 ^ depth → ((assets i).type = OWNERSHIP ∨ (assets i).type = POSSESSION) →
    0 ≤ (assets i).shares
  /-- An ownership has the shares of its possessions. -/
  ownership : ∀ i, i < 2 ^ depth → (assets i).type = OWNERSHIP →
    (assets i).shares = held depth assets POSSESSION i
  /-- The ownerships of an issuance have what was issued and not burned. -/
  issuance : ∀ i, i < 2 ^ depth → (assets i).type = ISSUANCE →
    held depth assets OWNERSHIP i = acc.issued i - acc.burned i
  burned_nonneg : ∀ i, i < 2 ^ depth → (assets i).type = ISSUANCE → 0 ≤ acc.burned i
  /-- The number issued was a `long long`. -/
  issued_lt : ∀ i, i < 2 ^ depth → (assets i).type = ISSUANCE → acc.issued i < 2 ^ 63

/-- The invariant of the asset table. -/
structure TableInvariant (depth : Nat) (assets : Assets) (acc : Accounts) : Prop where
  shape : TableShape depth assets
  books : TableBooks depth assets acc

section Books

variable {depth : Nat} {assets assets' : Assets} {acc : Accounts}

theorem TableBooks.nonNegative (h : TableBooks depth assets acc) {kind : BitVec 8}
    (hkind : kind = OWNERSHIP ∨ kind = POSSESSION) : NonNegative depth assets kind := by
  intro i hi ht
  exact h.nonneg i hi (by rw [ht]; exact hkind)

/-- Nothing is held under an empty slot. -/
theorem TableShape.held_empty (h : TableShape depth assets) {kind : BitVec 8} {i : Nat}
    (hkind : kind = OWNERSHIP ∨ kind = POSSESSION) (hempty : (assets i).type = EMPTY) :
    held depth assets kind i = 0 := by
  refine tally_eq_zero ?_
  intro j hj
  refine if_neg ?_
  rintro ⟨ht, hi⟩
  exact h.index_ne hj hempty (by rw [ht]; exact hkind) hi

/-- The possessions under an ownership, or under a slot that is still empty. -/
theorem TableInvariant.held_possession (h : TableInvariant depth assets acc) {i : Nat}
    (hi : i < 2 ^ depth) (ht : (assets i).type = OWNERSHIP ∨ (assets i).type = EMPTY) :
    held depth assets POSSESSION i = (assets i).shares := by
  rcases ht with ht | ht
  · exact (h.books.ownership i hi ht).symm
  · rw [h.shape.held_empty (Or.inr rfl) ht, h.shape.empty i hi ht]
    rfl

variable {source d index : Nat} {kind : BitVec 8} {key : m256i} {c : BitVec 16} {n : Int}

/-- Records of another kind are not touched by a move. -/
theorem Moved.other (h : Moved depth assets assets' source kind key c index d n)
    (hst : (assets source).type = kind) {t : BitVec 8} (hkind : t ≠ kind) {i : Nat}
    (ht : (assets' i).type = t) :
    (assets i).type = t ∧ (assets' i).shares = (assets i).shares := by
  have hd : i ≠ d := by
    rintro rfl
    exact hkind (by rw [← ht, (AssetRecord.isHolding_iff.mp h.dest).1])
  have htype : (assets i).type = t := by
    rw [← (AssetRecord.fields_of_header (h.frame i hd)).1, ht]
  have hs : i ≠ source := by
    rintro rfl
    exact hkind (by rw [← htype, hst])
  refine ⟨htype, ?_⟩
  rw [h.shares, if_neg hs, if_neg hd]
  ring

/-- A record of the kind that is moved was there before, or its slot was empty. -/
theorem Moved.before (h : Moved depth assets assets' source kind key c index d n) {i : Nat}
    (ht : (assets' i).type = kind) : (assets i).type = kind ∨ (assets i).type = EMPTY := by
  by_cases hempty : (assets i).type = EMPTY
  · exact Or.inr hempty
  · exact Or.inl (by rw [← (AssetRecord.fields_of_header (h.header i hempty)).1, ht])

/-- A move keeps share counts non-negative. -/
theorem Moved.nonNegative (h : Moved depth assets assets' source kind key c index d n)
    (hshape : TableShape depth assets) (hst : (assets source).type = kind) (hn : 0 ≤ n)
    (hns : n ≤ (assets source).shares) {t : BitVec 8}
    (hnonneg : NonNegative depth assets t) : NonNegative depth assets' t := by
  intro i hi ht
  by_cases hkind : t = kind
  · have hold : 0 ≤ (assets i).shares := by
      rcases h.before (ht.trans hkind) with hk | hempty
      · exact hnonneg i hi (hk.trans hkind.symm)
      · rw [hshape.empty i hi hempty]
        exact le_refl _
    rw [h.shares]
    by_cases hs : i = source
    · rw [if_pos hs, hs]
      split <;> omega
    · rw [if_neg hs]
      split <;> omega
  · obtain ⟨htype, hshares⟩ := h.other hst hkind ht
    rw [hshares]
    exact hnonneg i hi htype

end Books

/-! ## Transfers -/

section Transfers

variable {depth : Nat} {u u' : Universe} {acc : Accounts} {own poss : Nat} {n : BitVec 64}

theorem AssetRecord.linked_ownership {assets : Assets} {r : AssetRecord} {key : m256i}
    {c : BitVec 16} {index : Nat} (hround : (BitVec.ofNat 32 index).toNat = index)
    (h : index < 2 ^ depth ∧ (assets index).type = ISSUANCE) :
    (r.holding OWNERSHIP key c index).Linked depth assets := by
  refine ⟨fun _ => ?_, fun hc => ?_⟩
  · simp only [AssetRecord.holding, hround]
    exact h
  · change OWNERSHIP = POSSESSION at hc
    exact absurd hc (by decide)

theorem AssetRecord.linked_possession {assets : Assets} {r : AssetRecord} {key : m256i}
    {c : BitVec 16} {index : Nat} (hround : (BitVec.ofNat 32 index).toNat = index)
    (h : index < 2 ^ depth ∧ (assets index).type = OWNERSHIP) :
    (r.holding POSSESSION key c index).Linked depth assets := by
  refine ⟨fun hc => ?_, fun _ => ?_⟩
  · change POSSESSION = OWNERSHIP at hc
    exact absurd hc (by decide)
  · simp only [AssetRecord.holding, hround]
    exact h

theorem ofNat_toNat_index (x : BitVec 32) : BitVec.ofNat 32 x.toNat = x := by simp

/-- The slot a possession of ownership `own` points to is `own`. -/
theorem CanMove.poss_index_toNat (h : CanMove depth u.assets own poss n) (hdepth : depth ≤ 31) :
    (u.assets poss).index.toNat = own := by
  rw [h.poss_index, toNat_slot hdepth h.own_lt]

/-- Moving the ownership leaves the possession that will be moved next. -/
theorem CanMove.possession_kept {A : Assets} {ok : m256i} {oc : BitVec 16} {index dOwn : Nat}
    (hm : CanMove depth u.assets own poss n) (hdepth : depth ≤ 31)
    (m₁ : Moved depth u.assets A own OWNERSHIP ok oc index dOwn n.toInt) :
    (A poss).type = POSSESSION ∧ (A poss).index.toNat = own ∧
      (A poss).shares = (u.assets poss).shares := by
  have hheader : (A poss).header = (u.assets poss).header :=
    m₁.header poss (by rw [hm.poss_type]; decide)
  have htype : (A poss).type = POSSESSION := by
    rw [(AssetRecord.fields_of_header hheader).1, hm.poss_type]
  refine ⟨htype, ?_, (m₁.other hm.own_type (by decide) htype).2⟩
  rw [(AssetRecord.fields_of_header hheader).2.2.2.2, hm.poss_index_toNat hdepth]

/-- The ownership is moved within its issuance, whose supply bounds the credit. -/
theorem moveOwnership_moved (hdepth : depth ≤ 31) (h : TableInvariant depth u.assets acc)
    (hn : 0 < n.toInt) (hm : CanMove depth u.assets own poss n) {ok : m256i} {oc : BitVec 16}
    {dOwn : Nat} (hd : probeHolding depth u.assets OWNERSHIP ok oc (u.assets own).index = .ok dOwn) :
    Moved depth u.assets
      (moveBetween u.assets own dOwn OWNERSHIP ok oc (u.assets own).index.toNat n) own OWNERSHIP ok
      oc (u.assets own).index.toNat dOwn n.toInt := by
  obtain ⟨hlt, hdest⟩ := probeHolding_destination h.shape (by decide) hd
  have hlink := (h.shape.linked own hm.own_lt).1 hm.own_type
  have hfit : held depth u.assets OWNERSHIP (u.assets own).index.toNat < 2 ^ 63 := by
    rw [h.books.issuance _ hlink.1 hlink.2]
    have hissued := h.books.issued_lt _ hlink.1 hlink.2
    have hburned := h.books.burned_nonneg _ hlink.1 hlink.2
    omega
  refine moveBetween_spec h.shape hdepth (Or.inl rfl) (h.books.nonNegative (Or.inl rfl))
    hm.own_lt hm.own_type hn hm.own_shares hlt (by rw [ofNat_toNat_index]; exact hdest) hlink.1 ?_ ?_
  · exact AssetRecord.linked_ownership (by rw [ofNat_toNat_index]) hlink
  · rw [if_pos rfl]
    omega

/-- The possession follows to the new ownership, whose share count bounds the credit. -/
theorem movePossession_moved (hdepth : depth ≤ 31) (h : TableInvariant depth u.assets acc)
    (hn : 0 < n.toInt) (hm : CanMove depth u.assets own poss n) {A : Assets} {ok pk : m256i}
    {oc pc : BitVec 16} {dOwn dPoss : Nat} (hlt : dOwn < 2 ^ depth)
    (m₁ : Moved depth u.assets A own OWNERSHIP ok oc (u.assets own).index.toNat dOwn n.toInt)
    (hd : probeHolding depth A POSSESSION pk pc (BitVec.ofNat 32 dOwn) = .ok dPoss) :
    Moved depth A (moveBetween A poss dPoss POSSESSION pk pc dOwn n) poss POSSESSION pk pc dOwn
      dPoss n.toInt := by
  obtain ⟨hdp, hdest⟩ := probeHolding_destination m₁.shape (by decide) hd
  obtain ⟨htype, hindex, hshares⟩ := hm.possession_kept hdepth m₁
  have hdt : (A dOwn).type = OWNERSHIP := (AssetRecord.isHolding_iff.mp m₁.dest).1
  have hfit : held depth A POSSESSION dOwn
      - (if (A poss).index.toNat = dOwn then n.toInt else 0) + n.toInt < 2 ^ 63 := by
    have hbound : (A dOwn).shares < 2 ^ 63 := BitVec.toInt_lt
    rw [m₁.shares, if_pos rfl] at hbound
    rw [m₁.held_other POSSESSION (by decide) (by decide), h.held_possession hlt (m₁.before hdt),
      hindex]
    simp only [eq_comm (a := own)]
    exact hbound
  refine moveBetween_spec m₁.shape hdepth (Or.inr rfl)
    (m₁.nonNegative h.shape hm.own_type hn.le hm.own_shares (h.books.nonNegative (Or.inr rfl)))
    hm.poss_lt htype hn (by rw [hshares]; exact hm.poss_shares) hdp hdest hlt ?_ hfit
  exact AssetRecord.linked_possession (toNat_slot hdepth hlt) ⟨hlt, hdt⟩

/-- An ownership and a possession that move together leave the books balanced. -/
theorem TableInvariant.moved (hdepth : depth ≤ 31) (h : TableInvariant depth u.assets acc)
    (hn : 0 < n.toInt) (hm : CanMove depth u.assets own poss n) {A B : Assets} {ok pk : m256i}
    {oc pc : BitVec 16} {dOwn dPoss : Nat}
    (m₁ : Moved depth u.assets A own OWNERSHIP ok oc (u.assets own).index.toNat dOwn n.toInt)
    (m₂ : Moved depth A B poss POSSESSION pk pc dOwn dPoss n.toInt) :
    TableInvariant depth B acc := by
  obtain ⟨htype, hindex, hshares⟩ := hm.possession_kept hdepth m₁
  have hiss : ∀ i, (B i).type = ISSUANCE → (u.assets i).type = ISSUANCE := by
    intro i ht
    exact (m₁.other hm.own_type (by decide) (m₂.other htype (by decide) ht).1).1
  refine ⟨m₂.shape, ?_⟩
  constructor
  case nonneg =>
    intro i hi ht
    have hpos : ∀ t, t = OWNERSHIP ∨ t = POSSESSION → NonNegative depth B t := by
      intro t ht
      exact m₂.nonNegative m₁.shape htype hn.le (by rw [hshares]; exact hm.poss_shares)
        (m₁.nonNegative h.shape hm.own_type hn.le hm.own_shares (h.books.nonNegative ht))
    exact hpos _ ht i hi rfl
  -- both sides of an ownership move by the same amount: its own shares with the first move, its
  -- possessions with the second
  case ownership =>
    intro i hi ht
    obtain ⟨htA, hsA⟩ := m₂.other htype (by decide) ht
    rw [hsA, m₁.shares, m₂.held, m₁.held_other POSSESSION (by decide) (by decide),
      h.held_possession hi (m₁.before htA), hindex]
    simp only [eq_comm (a := i)]
  -- the first move stays within one issuance
  case issuance =>
    intro i hi ht
    rw [m₂.held_other OWNERSHIP (by decide) (by decide), m₁.held,
      h.books.issuance i hi (hiss i ht)]
    ring
  case burned_nonneg =>
    intro i hi ht
    exact h.books.burned_nonneg i hi (hiss i ht)
  case issued_lt =>
    intro i hi ht
    exact h.books.issued_lt i hi (hiss i ht)

/-- Moving shares keeps the invariant. -/
theorem moveShares_invariant (hdepth : depth ≤ 31) (h : TableInvariant depth u.assets acc)
    (hn : 0 < n.toInt) (hm : CanMove depth u.assets own poss n) {ok pk : m256i} {oc pc : BitVec 16}
    {r : TransferResult} (hrun : moveShares depth u own poss ok oc pk pc n = .ok (u', r)) :
    TableInvariant depth u'.assets acc := by
  obtain ⟨dOwn, dPoss, _, hdOwn, hdPoss, hu'⟩ := moveShares_cases hrun
  have hlt := (probeHolding_destination h.shape (by decide) hdOwn).1
  have m₁ := moveOwnership_moved hdepth h hn hm hdOwn
  have m₂ := movePossession_moved hdepth h hn hm hlt m₁ hdPoss
  rw [hu']
  exact h.moved hdepth hn hm m₁ m₂

/-- What burning `n` shares leaves in the table. -/
structure Burned (depth : Nat) (assets assets' : Assets) (own poss : Nat) (n : Int) : Prop where
  shape : TableShape depth assets'
  type : ∀ i, (assets' i).type = (assets i).type
  shares : ∀ i, (assets' i).shares = (assets i).shares
    - (if i = own then n else 0) - (if i = poss then n else 0)
  held_ownership : ∀ i, held depth assets' OWNERSHIP i = held depth assets OWNERSHIP i
    - (if (assets own).index.toNat = i then n else 0)
  held_possession : ∀ i, held depth assets' POSSESSION i = held depth assets POSSESSION i
    - (if own = i then n else 0)

/-- The two writes of a burn. -/
theorem reshare_burned (hdepth : depth ≤ 31) (h : TableShape depth u.assets)
    (hn : 0 < n.toInt) (hm : CanMove depth u.assets own poss n) {A : Assets}
    (hA : A = reshare u.assets own ((u.assets own).numberOfShares - n)) :
    Burned depth u.assets (reshare A poss ((A poss).numberOfShares - n)) own poss n.toInt := by
  have hAposs : A poss = u.assets poss := by
    rw [hA, reshare, Function.update_of_ne hm.ne.symm]
  have hown : Reshared depth u.assets A own OWNERSHIP (-n.toInt) := by
    rw [hA]
    refine reshare_spec h hm.own_lt hm.own_type (by decide) ?_
    rw [toInt_sub_of_le hn.le hm.own_shares]
    exact sub_eq_add_neg _ _
  have hposs : Reshared depth A (reshare A poss ((A poss).numberOfShares - n)) poss POSSESSION
      (-n.toInt) := by
    rw [hAposs]
    refine reshare_spec hown.shape hm.poss_lt (by rw [hAposs, hm.poss_type]) (by decide) ?_
    rw [toInt_sub_of_le hn.le hm.poss_shares, hAposs]
    exact sub_eq_add_neg _ _
  constructor
  case shape => exact hposs.shape
  case type =>
    intro i
    rw [hposs.type, hown.type]
  case shares =>
    intro i
    rw [hposs.shares, hown.shares]
    split <;> split <;> ring
  case held_ownership =>
    intro i
    rw [hposs.held_other OWNERSHIP (by decide), hown.held]
    split <;> ring
  case held_possession =>
    intro i
    rw [hposs.held, hAposs, hm.poss_index_toNat hdepth, hown.held_other POSSESSION (by decide)]
    split <;> ring

/-- The shares burned leave the supply of the issuance. -/
theorem TableInvariant.burned (h : TableInvariant depth u.assets acc) (hn : 0 < n.toInt)
    (hm : CanMove depth u.assets own poss n) {B : Assets}
    (hb : Burned depth u.assets B own poss n.toInt) :
    TableInvariant depth B (acc.burn (u.assets own).index.toNat n.toInt) := by
  refine ⟨hb.shape, ?_⟩
  constructor
  case nonneg =>
    intro i hi ht
    rw [hb.type] at ht
    have hold := h.books.nonneg i hi ht
    rw [hb.shares]
    by_cases hip : i = poss
    · rw [if_pos hip, if_neg (by rw [hip]; exact hm.ne.symm), hip]
      have := hm.poss_shares
      unfold AssetRecord.shares
      omega
    · rw [if_neg hip]
      by_cases hio : i = own
      · rw [if_pos hio, hio]
        have := hm.own_shares
        unfold AssetRecord.shares
        omega
      · rw [if_neg hio]
        omega
  case ownership =>
    intro i hi ht
    rw [hb.type] at ht
    have hip : i ≠ poss := by
      rintro rfl
      exact absurd (ht.symm.trans hm.poss_type) (by decide)
    rw [hb.shares, hb.held_possession, h.books.ownership i hi ht, if_neg hip, sub_zero]
    simp only [eq_comm (a := i)]
  -- what the ownership has lost is on the account of its issuance as burned
  case issuance =>
    intro i hi ht
    rw [hb.type] at ht
    rw [hb.held_ownership, h.books.issuance i hi ht]
    by_cases hii : (u.assets own).index.toNat = i
    · rw [if_pos hii, hii]
      simp only [Accounts.burn, Function.update_self]
      ring
    · rw [if_neg hii]
      simp only [Accounts.burn, Function.update_of_ne (Ne.symm hii)]
      ring
  case burned_nonneg =>
    intro i hi ht
    rw [hb.type] at ht
    have hold := h.books.burned_nonneg i hi ht
    by_cases hii : i = (u.assets own).index.toNat
    · rw [hii] at hold ⊢
      simp only [Accounts.burn, Function.update_self]
      omega
    · simp only [Accounts.burn, Function.update_of_ne hii]
      exact hold
  case issued_lt =>
    intro i hi ht
    rw [hb.type] at ht
    exact h.books.issued_lt i hi ht

/-- A burn is refused, or takes the shares out of the supply of the issuance. -/
theorem burnShares_invariant (hdepth : depth ≤ 31) (h : TableInvariant depth u.assets acc)
    (hn : 0 < n.toInt) (hm : CanMove depth u.assets own poss n) {r : TransferResult}
    (hrun : burnShares depth u own poss n = .ok (u', r)) :
    (u' = u ∧ r = .failed) ∨ (r = .burned ∧
      TableInvariant depth u'.assets (acc.burn (u.assets own).index.toNat n.toInt)) := by
  rcases burnShares_cases hrun with hfail | ⟨hr, A, hA, hu'⟩
  · exact Or.inl hfail
  · refine Or.inr ⟨hr, ?_⟩
    rw [hu']
    exact h.burned hn hm (reshare_burned hdepth h.shape hn hm hA)

/-- A transfer between slots keeps the invariant, whatever it does. -/
theorem transferShareOwnershipAndPossession_invariant (hdepth : depth ≤ 31)
    (h : TableInvariant depth u.assets acc) {a b : Int} {key : m256i} {r : TransferResult}
    (hrun : transferShareOwnershipAndPossession depth u a b key n = .ok (u', r)) :
    (r = .burned ∧ TableInvariant depth u'.assets
        (acc.burn (u.assets a.toNat).index.toNat n.toInt)) ∨
      (r ≠ .burned ∧ TableInvariant depth u'.assets acc ∧ (r = .failed → u' = u)) := by
  rcases transferShareOwnershipAndPossession_cases hrun with
    ⟨rfl, rfl⟩ | ⟨own, poss, rfl, _, hn, hm, ⟨_, hb⟩ | ⟨_, hmove⟩⟩
  · exact Or.inr ⟨by simp, h, fun _ => rfl⟩
  · rcases burnShares_invariant hdepth h hn hm hb with ⟨rfl, rfl⟩ | ⟨hr, hinv⟩
    · exact Or.inr ⟨by simp, h, fun _ => rfl⟩
    · exact Or.inl ⟨hr, hinv⟩
  · obtain ⟨dOwn, dPoss, hr, _⟩ := moveShares_cases hmove
    refine Or.inr ⟨by rw [hr]; simp, moveShares_invariant hdepth h hn hm hmove, ?_⟩
    intro hc
    rw [hr] at hc
    exact absurd hc (by simp)

theorem transferShareManagementRights_invariant (hdepth : depth ≤ 31)
    (h : TableInvariant depth u.assets acc) {a b : Int} {oc pc : BitVec 16} {r : TransferResult}
    (hrun : transferShareManagementRights depth u a b oc pc n = .ok (u', r)) :
    TableInvariant depth u'.assets acc := by
  rcases transferShareManagementRights_cases hrun with ⟨rfl, _⟩ | ⟨own, poss, _, _, hn, hm, hmove⟩
  · exact h
  · exact moveShares_invariant hdepth h hn hm hmove

end Transfers

/-! ## Issuing -/

section Issuing

variable {depth : Nat} {assets : Assets} {acc : Accounts}

theorem AssetRecord.isIssuance_iff {r : AssetRecord} {issuer : m256i} {name : BitVec 56} :
    r.isIssuance issuer (name.zeroExtend 64) = true ↔
      r.type = ISSUANCE ∧ r.name = name ∧ r.publicKey = issuer := by
  have hname : r.name.zeroExtend 64 = name.zeroExtend 64 ↔ r.name = name := by
    constructor
    · intro h
      have hlow := congrArg (BitVec.setWidth 56) h
      simpa using hlow
    · intro h
      rw [h]
  simp only [AssetRecord.isIssuance, Bool.and_eq_true, beq_iff_eq, hname, and_assoc]

/-- The record of an asset that does not exist goes to the empty slot its probe found. -/
theorem issuance_insert (h : TableShape depth assets) {issuer : m256i} {name : BitVec 56}
    {d : BitVec 8} {unit : BitVec 56} {iss : Nat}
    (hp : probeIssuance depth assets issuer (name.zeroExtend 64) = .ok iss)
    (hempty : (assets iss).type = EMPTY) :
    iss < 2 ^ depth ∧ Reachable depth assets issuer iss ∧
      TableShape depth
        (Function.update assets iss (AssetRecord.issuance issuer name d unit)) := by
  rw [probeIssuance_eq_ok] at hp
  have hhome := homeSlot_lt depth issuer
  have hreach : Reachable depth assets issuer iss := by
    refine (probe_reach hhome hp).mono ?_ (Nat.two_pow_pos depth)
    intro i _ hi
    exact (Bool.or_eq_false_iff.mp hi).1
  refine ⟨probe_lt hhome hp, hreach, h.insert hempty (show ISSUANCE ≠ EMPTY by decide) ?_ hreach ?_⟩
  · refine ⟨fun hc => ?_, fun hc => ?_⟩
    · change ISSUANCE = OWNERSHIP at hc
      exact absurd hc (by decide)
    · change ISSUANCE = POSSESSION at hc
      exact absurd hc (by decide)
  · -- an equal issuance would have stopped the probe
    rintro j hj ⟨ht, hk, hrest⟩
    rcases hrest with ⟨_, hname⟩ | ⟨hc | hc, _⟩
    · rw [AssetRecord.name_issuance] at hname
      have hkey : (assets j).isIssuance issuer (name.zeroExtend 64) = true :=
        AssetRecord.isIssuance_iff.mpr ⟨ht.symm, hname.symm, hk.symm⟩
      have hnot : (assets iss).isIssuance issuer (name.zeroExtend 64) = false := by
        rw [Bool.eq_false_iff, Ne, AssetRecord.isIssuance_iff, hempty]
        exact fun hc => absurd hc.1 (by decide)
      have hr : Reachable depth assets (assets j).publicKey j :=
        h.reach j hj (by rw [← ht]; exact (by decide : ISSUANCE ≠ EMPTY))
      rw [← hk] at hr
      have habsent : (assets j).isIssuance issuer (name.zeroExtend 64) = false :=
        probe_absent hhome hp hnot hr
      rw [hkey] at habsent
      exact absurd habsent (by simp)
    · change ISSUANCE = OWNERSHIP at hc
      exact absurd hc (by decide)
    · change ISSUANCE = POSSESSION at hc
      exact absurd hc (by decide)

/-- The first empty slot behind a record just written is on the probe chain of its key. -/
theorem reachable_behind {key : m256i} {x y : Nat} {r : AssetRecord}
    (hempty : (assets x).type = EMPTY) (hr : r.type ≠ EMPTY) (hreach : Reachable depth assets key x)
    (hp : probeEmpty depth (Function.update assets x r) ((x + 1) &&& (2 ^ depth - 1)) = .ok y) :
    y < 2 ^ depth ∧ (Function.update assets x r y).type = EMPTY ∧
      Reachable depth (Function.update assets x r) key y := by
  rw [probeEmpty_eq_ok] at hp
  have hstart := and_mask_lt (x + 1) depth
  refine ⟨probe_lt hstart hp, isEmptySlot_iff.mp (probe_stop hstart hp), ?_⟩
  have hx : isEmptySlot (Function.update assets x r) x = false := by
    rw [isEmptySlot_false_iff, Function.update_self]
    exact hr
  have hfirst : Reachable depth (Function.update assets x r) key x := by
    refine hreach.mono ?_
    intro i _ hi
    have hix : i ≠ x := by
      rintro rfl
      exact hi hempty
    rw [Function.update_of_ne hix]
    exact hi
  have hsecond := probe_reach hstart hp
  rw [and_mask] at hsecond
  exact Reach.next hfirst hx hsecond

/-- A holding under a slot that was empty has a fresh key. -/
theorem fresh_under_new (h : TableShape depth assets) {x : Nat} {r r' : AssetRecord}
    (hempty : (assets x).type = EMPTY) (htype : r.type = OWNERSHIP ∨ r.type = POSSESSION)
    (hindex : r.index.toNat = x) (hr' : r.type ≠ r'.type) :
    ∀ j, j < 2 ^ depth → ¬ r.SameKey (Function.update assets x r' j) := by
  rintro j hj ⟨ht, _, hrest⟩
  by_cases hjx : j = x
  · rw [hjx, Function.update_self] at ht
    exact hr' ht
  · rw [Function.update_of_ne hjx] at ht hrest
    rcases hrest with ⟨hi, _⟩ | ⟨_, _, hi⟩
    · rcases htype with hk | hk <;> rw [hk] at hi <;> exact absurd hi (by decide)
    · refine h.index_ne hj hempty (by rw [← ht]; exact htype) ?_
      rw [← hi, hindex]

/-- The three writes of an issuance: `ri` into slot `iss`, its ownership `ro` into `own` and the
possession `rp` of that into `poss`, each slot empty when it is written. -/
structure Issued (depth : Nat) (assets : Assets) (iss own poss : Nat) (ri ro rp : AssetRecord)
    (n : Int) : Prop where
  shape : TableShape depth (Function.update (Function.update (Function.update assets iss ri) own ro)
    poss rp)
  iss_lt : iss < 2 ^ depth
  own_lt : own < 2 ^ depth
  poss_lt : poss < 2 ^ depth
  iss_empty : (assets iss).type = EMPTY
  own_empty : (Function.update assets iss ri own).type = EMPTY
  poss_empty : (Function.update (Function.update assets iss ri) own ro poss).type = EMPTY
  iss_type : ri.type = ISSUANCE
  own_type : ro.type = OWNERSHIP
  own_index : ro.index.toNat = iss
  own_shares : ro.shares = n
  poss_type : rp.type = POSSESSION
  poss_index : rp.index.toNat = own
  poss_shares : rp.shares = n

/-- The slots and records `issueAsset` writes. -/
theorem issuedAssets_issued (hdepth : depth ≤ 31) (h : TableShape depth assets)
    {issuer : m256i} {name : BitVec 56} {d : BitVec 8} {unit : BitVec 56} {n : BitVec 64}
    {c : BitVec 16} {iss own poss : Nat} {ri ro rp : AssetRecord}
    (hri : ri = AssetRecord.issuance issuer name d unit)
    (hro : ro = { (Function.update assets iss ri own).holding OWNERSHIP issuer c iss with
      numberOfShares := n })
    (hrp : rp = { (Function.update (Function.update assets iss ri) own ro poss).holding POSSESSION
      issuer c own with numberOfShares := n })
    (hiss : probeIssuance depth assets issuer (name.zeroExtend 64) = .ok iss)
    (hempty : (assets iss).type = EMPTY)
    (hown : probeEmpty depth (Function.update assets iss ri) ((iss + 1) &&& (2 ^ depth - 1))
      = .ok own)
    (hposs : probeEmpty depth (Function.update (Function.update assets iss ri) own ro)
      ((own + 1) &&& (2 ^ depth - 1)) = .ok poss) :
    Issued depth assets iss own poss ri ro rp n.toInt := by
  have hround : ∀ i, i < 2 ^ depth → (BitVec.ofNat 32 i).toNat = i := fun _ => toNat_slot hdepth
  have hriType : ri.type = ISSUANCE := by rw [hri]; rfl
  have hroType : ro.type = OWNERSHIP := by rw [hro]; rfl
  have hrpType : rp.type = POSSESSION := by rw [hrp]; rfl
  -- the issuance
  obtain ⟨hissLt, hreachI, hshapeA⟩ : iss < 2 ^ depth ∧ Reachable depth assets issuer iss ∧
      TableShape depth (Function.update assets iss ri) := by
    rw [hri]
    exact issuance_insert h hiss hempty
  -- its ownership: no holding can have pointed to the slot of the issuance before
  obtain ⟨hownLt, hemptyA, hreachO⟩ :=
    reachable_behind hempty (by rw [hriType]; decide) hreachI hown
  have hroIndex : ro.index.toNat = iss := by rw [hro]; exact hround iss hissLt
  have hshapeB : TableShape depth (Function.update (Function.update assets iss ri) own ro) := by
    refine hshapeA.insert hemptyA (by rw [hroType]; decide) ?_ (by rw [hro]; exact hreachO)
      (fresh_under_new h hempty (Or.inl hroType) hroIndex (by rw [hroType, hriType]; decide))
    refine ⟨fun _ => ?_, fun hc => absurd (hroType.symm.trans hc) (by decide)⟩
    rw [hroIndex, Function.update_self]
    exact ⟨hissLt, hriType⟩
  -- the possession, in the same way
  obtain ⟨hpossLt, hemptyB, hreachP⟩ :=
    reachable_behind hemptyA (by rw [hroType]; decide) hreachO hposs
  have hrpIndex : rp.index.toNat = own := by rw [hrp]; exact hround own hownLt
  refine ⟨?_, hissLt, hownLt, hpossLt, hempty, hemptyA, hemptyB, hriType, hroType, hroIndex,
    by rw [hro]; rfl, hrpType, hrpIndex, by rw [hrp]; rfl⟩
  refine hshapeB.insert hemptyB (by rw [hrpType]; decide) ?_ (by rw [hrp]; exact hreachP)
    (fresh_under_new hshapeA hemptyA (Or.inr hrpType) hrpIndex (by rw [hrpType, hroType]; decide))
  refine ⟨fun hc => absurd (hrpType.symm.trans hc) (by decide), fun _ => ?_⟩
  rw [hrpIndex, Function.update_self]
  exact ⟨hownLt, hroType⟩

section IssuedBooks

variable {iss own poss : Nat} {ri ro rp : AssetRecord} {n : Int}

theorem Issued.held_ownership (w : Issued depth assets iss own poss ri ro rp n) (i : Nat) :
    held depth (Function.update (Function.update (Function.update assets iss ri) own ro) poss rp)
      OWNERSHIP i = held depth assets OWNERSHIP i + (if iss = i then n else 0) := by
  have hri : ri.type ≠ OWNERSHIP := by rw [w.iss_type]; decide
  have hrp : rp.type ≠ OWNERSHIP := by rw [w.poss_type]; decide
  rw [held_insert w.poss_lt w.poss_empty _ (by decide), held_insert w.own_lt w.own_empty _
    (by decide), held_insert w.iss_lt w.iss_empty _ (by decide), part_of_type_ne hri,
    part_of_type_ne hrp, part_of_type w.own_type, w.own_index, w.own_shares]
  ring

theorem Issued.held_possession (w : Issued depth assets iss own poss ri ro rp n) (i : Nat) :
    held depth (Function.update (Function.update (Function.update assets iss ri) own ro) poss rp)
      POSSESSION i = held depth assets POSSESSION i + (if own = i then n else 0) := by
  have hri : ri.type ≠ POSSESSION := by rw [w.iss_type]; decide
  have hro : ro.type ≠ POSSESSION := by rw [w.own_type]; decide
  rw [held_insert w.poss_lt w.poss_empty _ (by decide), held_insert w.own_lt w.own_empty _
    (by decide), held_insert w.iss_lt w.iss_empty _ (by decide), part_of_type_ne hri,
    part_of_type_ne hro, part_of_type w.poss_type, w.poss_index, w.poss_shares]
  ring

/-- What stands in a slot after the three writes. -/
theorem lookup_of_writes {A : Assets}
    (hA : A = Function.update (Function.update (Function.update assets iss ri) own ro) poss rp)
    (i : Nat) : A i = rp ∨ (i = own ∧ A i = ro) ∨ (i = iss ∧ A i = ri) ∨
      (i ≠ own ∧ i ≠ iss ∧ A i = assets i) := by
  rw [hA]
  by_cases hip : i = poss
  · exact Or.inl (by rw [hip, Function.update_self])
  rw [Function.update_of_ne hip]
  by_cases hio : i = own
  · exact Or.inr (Or.inl ⟨hio, by rw [hio, Function.update_self]⟩)
  rw [Function.update_of_ne hio]
  by_cases hii : i = iss
  · exact Or.inr (Or.inr (Or.inl ⟨hii, by rw [hii, Function.update_self]⟩))
  · exact Or.inr (Or.inr (Or.inr ⟨hio, hii, Function.update_of_ne hii _ _⟩))

/-- An issuance opens an account with the shares issued and nothing burned. -/
theorem Issued.invariant (w : Issued depth assets iss own poss ri ro rp n)
    (h : TableInvariant depth assets acc) (hn : 0 ≤ n) (hlt : n < 2 ^ 63) :
    TableInvariant depth (Function.update (Function.update (Function.update assets iss ri) own ro)
      poss rp) (acc.issue iss n) := by
  obtain ⟨A, hA⟩ : ∃ t, t = Function.update (Function.update (Function.update assets iss ri) own ro)
    poss rp := ⟨_, rfl⟩
  have hheldO := w.held_ownership
  have hheldP := w.held_possession
  have hlook := lookup_of_writes hA
  have hshape := w.shape
  rw [← hA] at hheldO hheldP hshape ⊢
  have hownEmpty : (assets own).type = EMPTY := by
    have hne : own ≠ iss := by
      intro hc
      have hempty := w.own_empty
      rw [hc, Function.update_self, w.iss_type] at hempty
      exact absurd hempty (by decide)
    have hempty := w.own_empty
    rwa [Function.update_of_ne hne] at hempty
  -- an issuance in the new table is the new one or was there before
  have hissuance : ∀ i, (A i).type = ISSUANCE → i = iss ∨ i ≠ iss ∧ (assets i).type = ISSUANCE := by
    intro i ht
    rcases hlook i with hr | ⟨_, hr⟩ | ⟨hi, _⟩ | ⟨_, hi, hr⟩
    · rw [hr, w.poss_type] at ht
      exact absurd ht (by decide)
    · rw [hr, w.own_type] at ht
      exact absurd ht (by decide)
    · exact Or.inl hi
    · exact Or.inr ⟨hi, by rw [← hr, ht]⟩
  refine ⟨hshape, ?_⟩
  constructor
  case nonneg =>
    intro i hi ht
    rcases hlook i with hr | ⟨_, hr⟩ | ⟨_, hr⟩ | ⟨_, _, hr⟩
    · rw [hr, w.poss_shares]
      exact hn
    · rw [hr, w.own_shares]
      exact hn
    · rw [hr, w.iss_type] at ht
      exact absurd ht (by decide)
    · rw [hr] at ht ⊢
      exact h.books.nonneg i hi ht
  case ownership =>
    intro i hi ht
    rw [hheldP]
    rcases hlook i with hr | ⟨hio, hr⟩ | ⟨_, hr⟩ | ⟨hio, _, hr⟩
    · rw [hr, w.poss_type] at ht
      exact absurd ht (by decide)
    · rw [hr, w.own_shares, hio, if_pos rfl, h.shape.held_empty (Or.inr rfl) hownEmpty, zero_add]
    · rw [hr, w.iss_type] at ht
      exact absurd ht (by decide)
    · rw [hr] at ht ⊢
      rw [if_neg (Ne.symm hio), add_zero]
      exact h.books.ownership i hi ht
  case issuance =>
    intro i hi ht
    rw [hheldO]
    rcases hissuance i ht with rfl | ⟨hne, hold⟩
    · rw [if_pos rfl, h.shape.held_empty (Or.inl rfl) w.iss_empty]
      simp [Accounts.issue]
    · rw [if_neg (Ne.symm hne), h.books.issuance i hi hold]
      simp [Accounts.issue, hne]
  case burned_nonneg =>
    intro i hi ht
    rcases hissuance i ht with rfl | ⟨hne, hold⟩
    · simp [Accounts.issue]
    · simpa [Accounts.issue, hne] using h.books.burned_nonneg i hi hold
  case issued_lt =>
    intro i hi ht
    rcases hissuance i ht with rfl | ⟨hne, hold⟩
    · simpa [Accounts.issue] using hlt
    · simpa [Accounts.issue, hne] using h.books.issued_lt i hi hold

end IssuedBooks

theorem issueAsset_invariant (hdepth : depth ≤ 31) {u u' : Universe}
    (h : TableInvariant depth u.assets acc) {issuer : m256i} {name : BitVec 56} {d : BitVec 8}
    {unit : BitVec 56} {n : BitVec 64} {c : BitVec 16} (hn : 0 ≤ n.toInt) {r : IssueResult}
    (hrun : issueAsset depth u issuer name d unit n c = .ok (u', r)) :
    (∃ i, r = .alreadyIssued i ∧ u' = u) ∨
      ∃ iss own poss, r = .issued iss own poss ∧
        TableInvariant depth u'.assets (acc.issue iss n.toInt) := by
  rcases issueAsset_cases hrun with ⟨i, hu, hr, _⟩ | ⟨iss, own, poss, hr, hiss, hempty, hown, hposs, hu⟩
  · exact Or.inl ⟨i, hr, hu⟩
  · have w := issuedAssets_issued hdepth h.shape rfl rfl rfl hiss (isEmptySlot_iff.mp hempty) hown
      hposs
    refine Or.inr ⟨iss, own, poss, hr, ?_⟩
    rw [hu]
    exact w.invariant h hn BitVec.toInt_lt

end Issuing

/-! ## Calls return

A probe stops at the latest at an empty slot. An issuance fills three slots, a transfer at most
two. -/

section Progress

variable {depth : Nat} {assets : Assets} {u : Universe} {acc : Accounts}

/-- The number of empty slots. -/
def room (depth : Nat) (assets : Assets) : Nat := vacant (2 ^ depth) (isEmptySlot assets)

theorem probe_returns (hroom : 0 < room depth assets) {home : Nat} (hhome : home < 2 ^ depth)
    (key : Nat → Bool) :
    ∃ i, orDiverge (probe (fun i => isEmptySlot assets i || key i) depth home) = .ok i := by
  obtain ⟨x, hx, hempty⟩ := exists_of_vacant_pos hroom
  obtain ⟨y, hy⟩ := @probe_exists (fun i => isEmptySlot assets i || key i) depth home x hhome hx
    (by simp [hempty])
  exact ⟨y, orDiverge_eq_ok.mpr hy⟩

theorem probeEmpty_returns (hroom : 0 < room depth assets) {start : Nat}
    (hstart : start < 2 ^ depth) : ∃ i, probeEmpty depth assets start = .ok i := by
  obtain ⟨x, hx, hempty⟩ := exists_of_vacant_pos hroom
  obtain ⟨y, hy⟩ := probe_exists hstart hx hempty
  exact ⟨y, orDiverge_eq_ok.mpr hy⟩

theorem room_update (x : Nat) (r : AssetRecord) :
    room depth assets ≤ room depth (Function.update assets x r) + 1 := by
  refine vacant_le_succ x ?_
  intro i hi hempty
  unfold isEmptySlot
  rw [Function.update_of_ne hi]
  exact hempty

theorem issueAsset_returns (hroom : 3 ≤ room depth u.assets) (issuer : m256i) (name : BitVec 56)
    (d : BitVec 8) (unit : BitVec 56) (n : BitVec 64) (c : BitVec 16) :
    ∃ u' r, issueAsset depth u issuer name d unit n c = .ok (u', r) := by
  obtain ⟨iss, hiss⟩ : ∃ i, probeIssuance depth u.assets issuer (name.zeroExtend 64) = .ok i :=
    probe_returns (by omega) (homeSlot_lt _ _) _
  rw [issueAsset, hiss]
  simp only [bind, Except.bind]
  split
  · obtain ⟨A, hA⟩ : ∃ t, t = Function.update u.assets iss
      (AssetRecord.issuance issuer name d unit) := ⟨_, rfl⟩
    have hroomA : room depth u.assets ≤ room depth A + 1 := by
      rw [hA]
      exact room_update _ _
    obtain ⟨own, hown⟩ : ∃ i, probeEmpty depth A ((iss + 1) &&& (2 ^ depth - 1)) = .ok i :=
      probeEmpty_returns (by omega) (and_mask_lt _ _)
    rw [← hA, hown]
    dsimp only
    obtain ⟨B, hB⟩ : ∃ t, t = Function.update A own
      { (A own).holding OWNERSHIP issuer c iss with numberOfShares := n } := ⟨_, rfl⟩
    have hroomB : room depth A ≤ room depth B + 1 := by
      rw [hB]
      exact room_update _ _
    obtain ⟨poss, hposs⟩ : ∃ i, probeEmpty depth B ((own + 1) &&& (2 ^ depth - 1)) = .ok i :=
      probeEmpty_returns (by omega) (and_mask_lt _ _)
    rw [← hB, hposs]
    exact ⟨_, _, rfl⟩
  · exact ⟨_, _, rfl⟩

theorem moveShares_returns (hroom : 2 ≤ room depth u.assets) {own poss : Nat} {n : BitVec 64}
    (hm : CanMove depth u.assets own poss n) (ok pk : m256i) (oc pc : BitVec 16) :
    ∃ u' r, moveShares depth u own poss ok oc pk pc n = .ok (u', r) := by
  obtain ⟨dOwn, hdOwn⟩ : ∃ i, probeHolding depth u.assets OWNERSHIP ok oc (u.assets own).index
      = .ok i := probe_returns (by omega) (homeSlot_lt _ _) _
  obtain ⟨A, hA⟩ : ∃ t, t = moveBetween u.assets own dOwn OWNERSHIP ok oc
    (u.assets own).index.toNat n := ⟨_, rfl⟩
  have hroomA : room depth u.assets ≤ room depth A + 1 := by
    refine vacant_le_succ dOwn ?_
    intro i hi hempty
    have hsource : i ≠ own := by
      rintro rfl
      rw [isEmptySlot_iff, hm.own_type] at hempty
      exact absurd hempty (by decide)
    unfold isEmptySlot
    rw [hA, moveBetween_frame hsource hi]
    exact hempty
  obtain ⟨dPoss, hdPoss⟩ : ∃ i, probeHolding depth A POSSESSION pk pc (BitVec.ofNat 32 dOwn)
      = .ok i := probe_returns (by omega) (homeSlot_lt _ _) _
  rw [moveShares, hdOwn]
  simp only [bind, Except.bind]
  rw [← hA, hdPoss]
  exact ⟨_, _, rfl⟩

theorem burnShares_returns (h : TableShape depth u.assets) {own poss : Nat} {n : BitVec 64}
    (hm : CanMove depth u.assets own poss n) :
    ∃ u' r, burnShares depth u own poss n = .ok (u', r) := by
  have hlink := (h.linked own hm.own_lt).1 hm.own_type
  have hslot := slotOf_eq_ok.mpr ⟨rfl, hlink.1⟩
  rw [burnShares, hslot]
  simp only [bind, Except.bind]
  split
  · exact ⟨_, _, rfl⟩
  · exact ⟨_, _, rfl⟩

/-- The `int` is an index of the table. -/
def inRange (depth : Nat) (a : Int) : Bool := decide (0 ≤ a ∧ a < 2 ^ depth)

theorem slotOf_returns {a : Int} (ha : inRange depth a = true) : slotOf depth a = .ok a.toNat := by
  unfold inRange at ha
  unfold slotOf
  rw [if_pos (of_decide_eq_true ha)]

theorem checkedSource_returns {a b : Int} (ha : inRange depth a = true)
    (hb : inRange depth b = true) (n : BitVec 64) :
    ∃ o, checkedSource depth assets a b n = .ok o := by
  rw [checkedSource, slotOf_returns ha, slotOf_returns hb]
  simp only [bind, Except.bind]
  split
  · split
    · exact ⟨_, rfl⟩
    · exact ⟨_, rfl⟩
  · exact ⟨_, rfl⟩

theorem transferShareOwnershipAndPossession_returns (h : TableShape depth u.assets)
    (hroom : 2 ≤ room depth u.assets) {a b : Int} (ha : inRange depth a = true)
    (hb : inRange depth b = true) (key : m256i) (n : BitVec 64) :
    ∃ u' r, transferShareOwnershipAndPossession depth u a b key n = .ok (u', r) := by
  unfold transferShareOwnershipAndPossession
  by_cases hn : n.toInt ≤ 0
  · rw [if_pos hn]
    exact ⟨_, _, rfl⟩
  rw [if_neg hn]
  obtain ⟨o, ho⟩ : ∃ o, checkedSource depth u.assets a b n = .ok o :=
    checkedSource_returns ha hb n
  rw [ho]
  cases o with
  | none => exact ⟨_, _, rfl⟩
  | some src =>
      have hcan := (checkedSource_some ho).2.2
      simp only [bind, Except.bind]
      split
      · exact burnShares_returns h hcan
      · exact moveShares_returns hroom hcan _ _ _ _

theorem transferShareManagementRights_returns (hroom : 2 ≤ room depth u.assets) {a b : Int}
    (ha : inRange depth a = true) (hb : inRange depth b = true) (oc pc : BitVec 16)
    (n : BitVec 64) : ∃ u' r, transferShareManagementRights depth u a b oc pc n = .ok (u', r) := by
  unfold transferShareManagementRights
  by_cases hn : n.toInt ≤ 0
  · rw [if_pos hn]
    exact ⟨_, _, rfl⟩
  rw [if_neg hn]
  obtain ⟨o, ho⟩ : ∃ o, checkedSource depth u.assets a b n = .ok o :=
    checkedSource_returns ha hb n
  rw [ho]
  cases o with
  | none => exact ⟨_, _, rfl⟩
  | some src => exact moveShares_returns hroom (checkedSource_some ho).2.2 _ _ _ _

theorem inRange_of_lt {i : Nat} (hi : i < 2 ^ depth) : inRange depth (i : Int) = true := by
  unfold inRange
  rw [decide_eq_true_iff]
  exact ⟨Int.natCast_nonneg i, by exact_mod_cast hi⟩

theorem transferByKey_returns (h : TableShape depth u.assets) (hroom : 2 ≤ room depth u.assets)
    (name : BitVec 64) (issuer owner possessor : m256i) (n c : BitVec 64) (key : m256i) :
    ∃ u' r, transferShareOwnershipAndPossessionByKey depth u name issuer owner possessor n c key
      = .ok (u', r) := by
  obtain ⟨iss, hiss⟩ : ∃ i, probeIssuance depth u.assets issuer name = .ok i :=
    probe_returns (by omega) (homeSlot_lt _ _) _
  rw [transferShareOwnershipAndPossessionByKey, hiss]
  simp only [bind, Except.bind]
  split
  · exact ⟨_, _, rfl⟩
  have hroom' : 0 < room depth u.assets := by omega
  obtain ⟨own, hown⟩ := probe_returns hroom' (homeSlot_lt depth owner)
    (fun i => (u.assets i).matchesHolding OWNERSHIP owner c.toInt iss)
  have hownLt := probe_lt (homeSlot_lt depth owner) (orDiverge_eq_ok.mp hown)
  rw [hown]
  dsimp only
  split
  · exact ⟨_, _, rfl⟩
  obtain ⟨poss, hposs⟩ := probe_returns hroom' (homeSlot_lt depth possessor)
    (fun i => (u.assets i).isPossessionOf possessor own)
  have hpossLt := probe_lt (homeSlot_lt depth possessor) (orDiverge_eq_ok.mp hposs)
  rw [hposs]
  dsimp only
  split
  · exact ⟨_, _, rfl⟩
  -- the two indices are slots, so the transfer between slots returns
  split
  · split
    · obtain ⟨u', r, hrun⟩ := transferShareOwnershipAndPossession_returns h hroom
        (inRange_of_lt hownLt) (inRange_of_lt hpossLt) key n
      rw [hrun]
      dsimp only
      split
      · exact ⟨_, _, rfl⟩
      · exact ⟨_, _, rfl⟩
    · exact ⟨_, _, rfl⟩
  · exact ⟨_, _, rfl⟩

end Progress

/-! ## Runs -/

/-- The calls a run is made of. -/
inductive TableCall where
  | issueAsset (issuer : m256i) (name : BitVec 56) (decimals : BitVec 8) (unit : BitVec 56)
      (numberOfShares : BitVec 64) (contract : BitVec 16)
  | transferBySlot (own poss : Int) (destination : m256i) (numberOfShares : BitVec 64)
  | transferByKey (assetName : BitVec 64) (issuer owner possessor : m256i)
      (numberOfShares contract : BitVec 64) (destination : m256i)
  | managementRights (own poss : Int) (ownershipContract possessionContract : BitVec 16)
      (numberOfShares : BitVec 64)

/-- The table and the accounts after a call. The accounts follow the value the call reports: an
issuance that took place opens an account, a burn is booked to the issuance of the source. -/
def TableCall.run (depth : Nat) (u : Universe) (acc : Accounts) :
    TableCall → Except Halt (Universe × Accounts)
  | .issueAsset issuer name d unit n c => do
      let (u', r) ← QubicBob.issueAsset depth u issuer name d unit n c
      match r with
      | .issued iss _ _ => pure (u', acc.issue iss n.toInt)
      | .alreadyIssued _ => pure (u', acc)
  | .transferBySlot own poss key n => do
      let (u', r) ← transferShareOwnershipAndPossession depth u own poss key n
      match r with
      | .burned => pure (u', acc.burn (u.assets own.toNat).index.toNat n.toInt)
      | _ => pure (u', acc)
  | .transferByKey name issuer owner possessor n c key => do
      let (u', r) ←
        transferShareOwnershipAndPossessionByKey depth u name issuer owner possessor n c key
      match r with
      | .done own _ .burned => pure (u', acc.burn (u.assets own).index.toNat n.toInt)
      | _ => pure (u', acc)
  | .managementRights own poss oc pc n => do
      let (u', _) ← transferShareManagementRights depth u own poss oc pc n
      pure (u', acc)

/-- What a caller owes: a non-negative number of shares to issue, indices of the table, and room
for the records the call may create. -/
def TableCall.admissible (depth : Nat) (u : Universe) : TableCall → Bool
  | .issueAsset _ _ _ _ n _ => decide (0 ≤ n.toInt) && decide (3 ≤ room depth u.assets)
  | .transferBySlot own poss _ _ =>
      inRange depth own && inRange depth poss && decide (2 ≤ room depth u.assets)
  | .transferByKey _ _ _ _ _ _ _ => decide (2 ≤ room depth u.assets)
  | .managementRights own poss _ _ _ =>
      inRange depth own && inRange depth poss && decide (2 ≤ room depth u.assets)

/-- The states after each call of a run. -/
def runTableCalls (depth : Nat) :
    List TableCall → Universe → Accounts → Except Halt (List (Universe × Accounts))
  | [], _, _ => pure []
  | call :: calls, u, acc => do
      let (u', acc') ← call.run depth u acc
      let states ← runTableCalls depth calls u' acc'
      pure ((u', acc') :: states)

/-- Every call of the run is admissible when it is made. -/
def admissibleRun (depth : Nat) : List TableCall → Universe → Accounts → Bool
  | [], _, _ => true
  | call :: calls, u, acc => call.admissible depth u &&
      match call.run depth u acc with
      | .ok (u', acc') => admissibleRun depth calls u' acc'
      | .error _ => true

section Runs

variable {depth : Nat} {u : Universe} {acc : Accounts}

/-- An admissible call returns and keeps the invariant. -/
theorem TableCall.run_invariant (hdepth : depth ≤ 31) (h : TableInvariant depth u.assets acc)
    {call : TableCall} (hadm : call.admissible depth u = true) :
    ∃ u' acc', call.run depth u acc = .ok (u', acc') ∧ TableInvariant depth u'.assets acc' := by
  cases call with
  | issueAsset issuer name d unit n c =>
      simp only [TableCall.admissible, Bool.and_eq_true, decide_eq_true_eq] at hadm
      obtain ⟨u', r, hrun⟩ := issueAsset_returns hadm.2 issuer name d unit n c
      simp only [TableCall.run, hrun, bind, Except.bind]
      rcases issueAsset_invariant hdepth h hadm.1 hrun with
        ⟨i, rfl, rfl⟩ | ⟨iss, own, poss, rfl, hinv⟩
      · exact ⟨_, _, rfl, h⟩
      · exact ⟨_, _, rfl, hinv⟩
  | transferBySlot own poss key n =>
      simp only [TableCall.admissible, Bool.and_eq_true, decide_eq_true_eq] at hadm
      obtain ⟨u', r, hrun⟩ := transferShareOwnershipAndPossession_returns h.shape hadm.2 hadm.1.1
        hadm.1.2 key n
      simp only [TableCall.run, hrun, bind, Except.bind]
      rcases transferShareOwnershipAndPossession_invariant hdepth h hrun with
        ⟨rfl, hinv⟩ | ⟨hr, hinv, _⟩
      · exact ⟨_, _, rfl, hinv⟩
      -- only a burn changes the accounts
      · cases r with
        | failed => exact ⟨_, _, rfl, hinv⟩
        | burned => exact absurd rfl hr
        | moved dOwn dPoss => exact ⟨_, _, rfl, hinv⟩
  | transferByKey name issuer owner possessor n c key =>
      simp only [TableCall.admissible, decide_eq_true_eq] at hadm
      obtain ⟨u', r, hrun⟩ := transferByKey_returns h.shape hadm name issuer owner possessor n c key
      simp only [TableCall.run, hrun, bind, Except.bind]
      rcases transferByKey_cases hrun with ⟨rfl, hnot⟩ | ⟨own, poss, t, ht, hres⟩
      · split
        · next own poss => exact absurd rfl (hnot own poss .burned)
        · exact ⟨_, _, rfl, h⟩
      · rcases transferShareOwnershipAndPossession_invariant hdepth h ht with
          ⟨rfl, hinv⟩ | ⟨hb, hinv, _⟩
        · rcases hres with ⟨hc, _⟩ | ⟨_, rfl⟩
          · exact absurd hc (by simp)
          · exact ⟨_, _, rfl, hinv⟩
        · rcases hres with ⟨_, rfl⟩ | ⟨_, rfl⟩
          · exact ⟨_, _, rfl, hinv⟩
          · split
            · next heq => exact absurd (KeyTransferResult.done.inj heq).2.2 hb
            · exact ⟨_, _, rfl, hinv⟩
  | managementRights own poss oc pc n =>
      simp only [TableCall.admissible, Bool.and_eq_true, decide_eq_true_eq] at hadm
      obtain ⟨u', r, hrun⟩ := transferShareManagementRights_returns hadm.2 hadm.1.1 hadm.1.2 oc pc n
      simp only [TableCall.run, hrun, bind, Except.bind]
      exact ⟨_, _, rfl, transferShareManagementRights_invariant hdepth h hrun⟩

/-- An all-zero table has the right shape. -/
theorem shape_of_empty {assets : Assets} (h : ∀ i, i < 2 ^ depth → assets i = AssetRecord.empty) :
    TableShape depth assets := by
  have htype : ∀ i, i < 2 ^ depth → (assets i).type = EMPTY := by
    intro i hi
    rw [h i hi]
    rfl
  have hno : ∀ {t : BitVec 8} {i : Nat}, i < 2 ^ depth → t ≠ EMPTY → (assets i).type ≠ t := by
    intro t i hi ht hc
    exact ht (hc.symm.trans (htype i hi))
  constructor
  case empty => exact fun i hi _ => h i hi
  case linked =>
    intro i hi
    exact ⟨fun hc => absurd hc (hno hi (by decide)), fun hc => absurd hc (hno hi (by decide))⟩
  case unique =>
    intro i j _ hj hsame
    exact absurd (htype j hj) hsame.type_ne
  case reach => exact fun i hi hc => absurd (htype i hi) hc

/-- It satisfies the invariant, whatever the accounts say. -/
theorem tableInvariant_of_empty (h : ∀ i, i < 2 ^ depth → u.assets i = AssetRecord.empty) :
    TableInvariant depth u.assets acc := by
  have hno : ∀ {t : BitVec 8} {i : Nat}, i < 2 ^ depth → t ≠ EMPTY → (u.assets i).type ≠ t := by
    intro t i hi ht hc
    rw [h i hi] at hc
    exact ht hc.symm
  refine ⟨shape_of_empty h, ?_⟩
  constructor
  case nonneg =>
    intro i hi hc
    rcases hc with hc | hc
    · exact absurd hc (hno hi (by decide))
    · exact absurd hc (hno hi (by decide))
  case ownership => exact fun i hi hc => absurd hc (hno hi (by decide))
  case issuance => exact fun i hi hc => absurd hc (hno hi (by decide))
  case burned_nonneg => exact fun i hi hc => absurd hc (hno hi (by decide))
  case issued_lt => exact fun i hi hc => absurd hc (hno hi (by decide))

theorem runTableCalls_invariant (hdepth : depth ≤ 31) (calls : List TableCall) :
    ∀ {u : Universe} {acc : Accounts}, TableInvariant depth u.assets acc →
      admissibleRun depth calls u acc = true →
      ∃ states, runTableCalls depth calls u acc = .ok states ∧ states.length = calls.length ∧
        ∀ s ∈ states, TableInvariant depth s.1.assets s.2 := by
  induction calls with
  | nil =>
      intro u acc _ _
      exact ⟨[], rfl, rfl, by simp⟩
  | cons call calls ih =>
      intro u acc h hadm
      rw [admissibleRun, Bool.and_eq_true] at hadm
      obtain ⟨u', acc', hrun, hinv⟩ := TableCall.run_invariant hdepth h hadm.1
      have hadm' : admissibleRun depth calls u' acc' = true := by
        have := hadm.2
        rwa [hrun] at this
      obtain ⟨states, hstates, hlen, hall⟩ := ih hinv hadm'
      refine ⟨(u', acc') :: states, ?_, by simp [hlen], ?_⟩
      · simp only [runTableCalls, hrun, hstates, bind, Except.bind]
        rfl
      · intro s hs
        rcases List.mem_cons.mp hs with rfl | hs
        · exact hinv
        · exact hall s hs

/-- **The asset table invariant.** From an all-zero table, or any table that satisfies the
invariant, every run of admissible calls returns, and the invariant holds after each call. -/
theorem assetTable_invariant (hdepth : depth ≤ 31) (u : Universe) (acc : Accounts)
    (hinit : (∀ i, i < 2 ^ depth → u.assets i = AssetRecord.empty) ∨
      TableInvariant depth u.assets acc)
    (calls : List TableCall) (hadm : admissibleRun depth calls u acc = true) :
    ∃ states, runTableCalls depth calls u acc = .ok states ∧ states.length = calls.length ∧
      ∀ s ∈ states, TableInvariant depth s.1.assets s.2 := by
  rcases hinit with hempty | hinv
  · exact runTableCalls_invariant hdepth calls (tableInvariant_of_empty hempty) hadm
  · exact runTableCalls_invariant hdepth calls hinv hadm

/-- The theorem at 16 slots: an issuance, a transfer to a new holder, one to its own holder, a
burn, a refused transfer, one by key and a change of managing contracts. -/
theorem assetTable_invariant_at_seven_calls :
    let u : Universe := ⟨fun _ => AssetRecord.empty, fun _ => 0, fun _ => 0⟩
    let acc : Accounts := ⟨fun _ => 0, fun _ => 0⟩
    let calls : List TableCall :=
      [.issueAsset 1 0x41 0 0 100 2, .transferBySlot 2 3 (17 : m256i) 40,
        .transferBySlot 2 3 (1 : m256i) 5, .transferBySlot 2 3 0 10, .transferBySlot 2 3 9 1000,
        .transferByKey 0x41 1 17 17 15 2 1, .managementRights 2 3 4 4 5]
    ∃ states, runTableCalls 4 calls u acc = .ok states ∧ states.length = calls.length ∧
      ∀ s ∈ states, TableInvariant 4 s.1.assets s.2 := by
  intro u acc calls
  exact assetTable_invariant (by decide) u acc (Or.inl (fun _ _ => rfl)) calls (by decide +kernel)

end Runs

end QubicBob
