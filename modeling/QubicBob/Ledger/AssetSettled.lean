import QubicBob.Ledger.AssetLookup

set_option autoImplicit false

/-! # Tables with negative issuances

`issueAsset` takes any number of shares. Those of a negative issuance are never moved: no holding of
it has a positive share count. So the slots of such issuances are `dead`, and with their
share counts set to zero (`settle`) the table satisfies the invariant of `AssetInvariant`. The calls that
move shares touch live slots only, where the table and the settled one agree.

`SettledInvariant` is the invariant for any issuances. It also says that possessions have the managing
contract of their ownership, which holds as long as both rights are always moved together.
-/

namespace QubicBob

open Probe BitWords

/-- The table with the share counts of the dead slots set to zero. -/
def settle (dead : Nat → Bool) (A : Assets) : Assets :=
  fun i => if dead i then (A i).header else A i

/-- The same universe over the settled table. -/
def Universe.settle (dead : Nat → Bool) (u : Universe) : Universe :=
  { u with assets := QubicBob.settle dead u.assets }

section Settle

variable {depth : Nat} {dead : Nat → Bool} {A : Assets} {i s d index : Nat} {kind : BitVec 8}
  {key : m256i} {c : BitVec 16}

@[simp] theorem Universe.settle_assets (u : Universe) :
    (u.settle dead).assets = QubicBob.settle dead u.assets := rfl

theorem settle_alive (h : dead i = false) : settle dead A i = A i := by
  simp [settle, h]

theorem settle_dead (h : dead i = true) : settle dead A i = (A i).header := by
  simp [settle, h]

theorem alive_ne {j : Nat} (hi : dead i = true) (hj : dead j = false) : i ≠ j := by
  rintro rfl
  rw [hi] at hj
  exact absurd hj (by simp)

theorem settle_header (i : Nat) : (settle dead A i).header = (A i).header := by
  cases h : dead i with
  | false => rw [settle_alive h]
  | true => rw [settle_dead h]; rfl

theorem settle_type (i : Nat) : (settle dead A i).type = (A i).type :=
  (AssetRecord.fields_of_header (settle_header i)).1

theorem settle_index (i : Nat) : (settle dead A i).index = (A i).index :=
  (AssetRecord.fields_of_header (settle_header i)).2.2.2.2

theorem settle_update (h : dead i = false) (r : AssetRecord) :
    settle dead (Function.update A i r) = Function.update (settle dead A) i r := by
  funext j
  by_cases hj : j = i
  · rw [hj, settle_alive h, Function.update_self, Function.update_self]
  · simp only [settle, Function.update_of_ne hj]

/-- Probes look at headers only. -/
theorem isEmptySlot_congr {B : Assets} (h : ∀ i, (A i).type = (B i).type) :
    isEmptySlot A = isEmptySlot B := by
  funext i
  rw [isEmptySlot, isEmptySlot, h]

theorem isEmptySlot_settle : isEmptySlot (settle dead A) = isEmptySlot A :=
  isEmptySlot_congr settle_type

theorem probeEmpty_congr {B : Assets} (h : ∀ i, (A i).type = (B i).type) (start : Nat) :
    probeEmpty depth A start = probeEmpty depth B start := by
  rw [probeEmpty, probeEmpty, isEmptySlot_congr h]

theorem probeIssuance_settle (issuer : m256i) (name : BitVec 64) :
    probeIssuance depth (settle dead A) issuer name = probeIssuance depth A issuer name := by
  have hkey : ∀ i, (settle dead A i).isIssuance issuer name = (A i).isIssuance issuer name := by
    intro i
    obtain ⟨ht, hk, hn, _⟩ := AssetRecord.fields_of_header (@settle_header dead A i)
    simp only [AssetRecord.isIssuance, ht, hk, hn]
  simp only [probeIssuance, isEmptySlot_settle, hkey]

theorem probeHolding_settle (index : BitVec 32) :
    probeHolding depth (settle dead A) kind key c index = probeHolding depth A kind key c index := by
  have hkey : ∀ i, (settle dead A i).isHolding kind key c index
      = (A i).isHolding kind key c index := fun i => isHolding_of_header (settle_header i)
  simp only [probeHolding, isEmptySlot_settle, hkey]

/-- A move between live slots is the same move in the settled table. -/
theorem settle_moveBetween {n : BitVec 64} (hs : dead s = false) (hd : dead d = false) :
    settle dead (moveBetween A s d kind key c index n)
      = moveBetween (settle dead A) s d kind key c index n := by
  have hdebit : settle dead (Function.update A s ((A s).subShares n))
      = Function.update (settle dead A) s ((settle dead A s).subShares n) := by
    rw [settle_update hs, settle_alive hs]
  simp only [moveBetween]
  rw [← hdebit, isEmptySlot_settle]
  split
  · rw [settle_update hd, settle_update hd, settle_alive hd]
    simp only [Function.update_self]
  · rw [settle_update hd, settle_alive hd]

end Settle

/-! ## Moves in a table that is settled -/

/-- What one move does to headers and share counts. -/
structure Shifted (A A' : Assets) (source : Nat) (kind : BitVec 8) (key : m256i) (c : BitVec 16)
    (index d : Nat) (n : Int) : Prop where
  header : ∀ i, (A i).type ≠ EMPTY → (A' i).header = (A i).header
  frame : ∀ i, i ≠ d → (A' i).header = (A i).header
  dest : (A' d).isHolding kind key c (BitVec.ofNat 32 index) = true
  shares : ∀ i, (A' i).shares =
    (A i).shares - (if i = source then n else 0) + (if i = d then n else 0)

section Shifted

variable {depth : Nat} {dead : Nat → Bool} {A A' B : Assets} {s d index : Nat} {kind : BitVec 8}
  {key : m256i} {c : BitVec 16}

theorem Shifted.type {n : Int} (m : Shifted A A' s kind key c index d n) {i : Nat}
    (hi : (A i).type ≠ EMPTY) : (A' i).type = (A i).type :=
  (AssetRecord.fields_of_header (m.header i hi)).1

/-- A move of the settled table is one of the table. -/
theorem Moved.shifted {n : BitVec 64} (hs : dead s = false) (hd : dead d = false)
    (hA' : A' = moveBetween A s d kind key c index n)
    (m : Moved depth (settle dead A) (settle dead A') s kind key c index d n.toInt) :
    Shifted A A' s kind key c index d n.toInt := by
  have hheader : ∀ i, (settle dead A' i).header = (settle dead A i).header →
      (A' i).header = (A i).header := by
    intro i h
    rwa [settle_header, settle_header] at h
  constructor
  case header =>
    intro i hi
    exact hheader i (m.header i (by rw [settle_type]; exact hi))
  case frame => exact fun i hi => hheader i (m.frame i hi)
  case dest =>
    have hdest := m.dest
    rwa [isHolding_of_header (settle_header d)] at hdest
  case shares =>
    intro i
    cases hdead : dead i with
    | false =>
        have hshares := m.shares i
        rwa [settle_alive hdead, settle_alive hdead] at hshares
    | true =>
        -- the two slots of the move are alive
        have hne : ∀ j, dead j = false → i ≠ j := fun j => alive_ne hdead
        rw [hA', moveBetween_frame (hne s hs) (hne d hd), if_neg (hne s hs), if_neg (hne d hd)]
        omega

end Shifted

/-- The invariant, with the issuances of a negative number of shares set aside. -/
structure SettledInvariant (depth : Nat) (A : Assets) (dead : Nat → Bool) (acc : Accounts) :
    Prop where
  table : TableInvariant depth (settle dead A) acc
  occupied : ∀ i, dead i = true → (A i).type ≠ EMPTY
  /-- A holding is dead with the slot it points to. -/
  linked : ∀ i, i < 2 ^ depth → ((A i).type = OWNERSHIP ∨ (A i).type = POSSESSION) →
    dead i = dead (A i).index.toNat
  nonpos : ∀ i, dead i = true → ((A i).type = OWNERSHIP ∨ (A i).type = POSSESSION) →
    (A i).shares ≤ 0
  contract : ∀ i, i < 2 ^ depth → (A i).type = POSSESSION →
    (A i).managingContractIndex = (A (A i).index.toNat).managingContractIndex

/-- What moving `n` shares does: they leave slots `own` and `poss` and arrive in `dOwn` and
`dPoss`, which hold the records of the new keys. -/
structure SharesMoved (A B : Assets) (own poss : Nat) (ok pk : m256i) (c : BitVec 16)
    (dOwn dPoss : Nat) (n : Int) : Prop where
  header : ∀ i, (A i).type ≠ EMPTY → (B i).header = (A i).header
  frame : ∀ i, i ≠ dOwn → i ≠ dPoss → (B i).header = (A i).header
  ownership : (B dOwn).isHolding OWNERSHIP ok c (A own).index = true
  possession : (B dPoss).isHolding POSSESSION pk c (BitVec.ofNat 32 dOwn) = true
  shares : ∀ i, (B i).shares = (A i).shares - (if i = own then n else 0)
    - (if i = poss then n else 0) + (if i = dOwn then n else 0) + (if i = dPoss then n else 0)

section Moves

variable {depth : Nat} {u u' : Universe} {A A' B : Assets} {dead : Nat → Bool} {acc : Accounts}
  {own poss dOwn dPoss : Nat} {n : BitVec 64} {ok pk : m256i} {c : BitVec 16}

/-- Two moves, of the ownership and of the possession. -/
theorem Shifted.sharesMoved {n : Int}
    (m₁ : Shifted A A' own OWNERSHIP ok c (A own).index.toNat dOwn n)
    (m₂ : Shifted A' B poss POSSESSION pk c dOwn dPoss n) :
    SharesMoved A B own poss ok pk c dOwn dPoss n := by
  have htype : (A' dOwn).type ≠ EMPTY := by
    rw [(AssetRecord.isHolding_iff.mp m₁.dest).1]
    decide
  constructor
  case header =>
    intro i hi
    rw [m₂.header i (by rw [m₁.type hi]; exact hi), m₁.header i hi]
  case frame =>
    intro i hiO hiP
    rw [m₂.frame i hiP, m₁.frame i hiO]
  case ownership =>
    rw [isHolding_of_header (m₂.header dOwn htype)]
    have hdest := m₁.dest
    rwa [ofNat_toNat_index] at hdest
  case possession => exact m₂.dest
  case shares =>
    intro i
    rw [m₂.shares, m₁.shares]
    ring

theorem SettledInvariant.own_alive (h : SettledInvariant depth A dead acc) (hn : 0 < n.toInt)
    (hm : CanMove depth A own poss n) : dead own = false := by
  by_contra hdead
  rw [Bool.not_eq_false] at hdead
  have hle := h.nonpos own hdead (Or.inl hm.own_type)
  have hge := hm.own_shares
  unfold AssetRecord.shares at hle
  omega

theorem SettledInvariant.poss_alive (hdepth : depth ≤ 31)
    (h : SettledInvariant depth u.assets dead acc) (hn : 0 < n.toInt)
    (hm : CanMove depth u.assets own poss n) : dead poss = false := by
  rw [h.linked poss hm.poss_lt (Or.inr hm.poss_type), hm.poss_index_toNat hdepth]
  exact h.own_alive hn hm

theorem CanMove.settle (hm : CanMove depth u.assets own poss n) (ho : dead own = false)
    (hp : dead poss = false) : CanMove depth (u.settle dead).assets own poss n := by
  constructor
  case own_lt => exact hm.own_lt
  case poss_lt => exact hm.poss_lt
  case own_type => rw [Universe.settle_assets, settle_alive ho, hm.own_type]
  case own_shares => rw [Universe.settle_assets, settle_alive ho]; exact hm.own_shares
  case poss_type => rw [Universe.settle_assets, settle_alive hp, hm.poss_type]
  case poss_shares => rw [Universe.settle_assets, settle_alive hp]; exact hm.poss_shares
  case poss_index => rw [Universe.settle_assets, settle_alive hp, hm.poss_index]

/-- An empty slot is alive. -/
theorem SettledInvariant.empty_alive (h : SettledInvariant depth A dead acc) {i : Nat}
    (hempty : (A i).type = EMPTY) : dead i = false := by
  by_contra hdead
  rw [Bool.not_eq_false] at hdead
  exact h.occupied i hdead hempty

/-- A slot is alive if it is empty or holds a record that points to a live slot. -/
theorem SettledInvariant.destination_alive (h : SettledInvariant depth A dead acc)
    {kind : BitVec 8} {index : BitVec 32} {d : Nat} (hkind : kind = OWNERSHIP ∨ kind = POSSESSION)
    (hd : d < 2 ^ depth) (halive : dead index.toNat = false)
    (hdest : (A d).type = EMPTY ∨ (A d).isHolding kind ok c index = true) : dead d = false := by
  rcases hdest with hempty | hkey
  · exact h.empty_alive hempty
  · obtain ⟨ht, _, hi, _⟩ := AssetRecord.isHolding_iff.mp hkey
    rw [h.linked d hd (by rw [ht]; exact hkind), hi]
    exact halive

/-- The possession is looked for in the table with the ownership already moved. -/
theorem Shifted.before {n : Int} {index d : Nat}
    (m : Shifted A A' own OWNERSHIP ok c index dOwn n) {x : BitVec 32}
    (hstop : (A' d).type = EMPTY ∨ (A' d).isHolding POSSESSION pk c x = true) :
    (A d).type = EMPTY ∨ (A d).isHolding POSSESSION pk c x = true := by
  by_cases hempty : (A d).type = EMPTY
  · exact Or.inl hempty
  · refine Or.inr ?_
    have hne : (A' d).type ≠ EMPTY := by
      rw [m.type hempty]
      exact hempty
    rw [← isHolding_of_header (m.header d hempty)]
    exact hstop.resolve_left hne

theorem probeHolding_stop {kind : BitVec 8} {index : BitVec 32} {d : Nat}
    (h : probeHolding depth A kind ok c index = .ok d) :
    d < 2 ^ depth ∧ ((A d).type = EMPTY ∨ (A d).isHolding kind ok c index = true) := by
  have hprobe := probeHolding_eq_ok.mp h
  have hstop := probe_stop (homeSlot_lt depth ok) hprobe
  rw [Bool.or_eq_true, isEmptySlot_iff] at hstop
  exact ⟨probe_lt (homeSlot_lt depth ok) hprobe, hstop⟩

/-- The invariant behind a move within live slots, of both rights to one contract. -/
theorem SettledInvariant.of_sharesMoved (hdepth : depth ≤ 31)
    (h : SettledInvariant depth A dead acc) (hm : CanMove depth A own poss n)
    (m : SharesMoved A B own poss ok pk c dOwn dPoss n.toInt) (hdOwn : dOwn < 2 ^ depth)
    (ho : dead own = false) (hp : dead poss = false) (hdO : dead dOwn = false)
    (hdP : dead dPoss = false) (htable : TableInvariant depth (QubicBob.settle dead B) acc) :
    SettledInvariant depth B dead acc := by
  obtain ⟨htO, hcO, hiO, _⟩ := AssetRecord.isHolding_iff.mp m.ownership
  obtain ⟨htP, hcP, hiP, _⟩ := AssetRecord.isHolding_iff.mp m.possession
  have hiP' : (B dPoss).index.toNat = dOwn := by
    rw [hiP, toNat_slot hdepth hdOwn]
  -- every other record has its header from before
  have hcases : ∀ i, i = dOwn ∨ i = dPoss ∨ (B i).header = (A i).header := by
    intro i
    by_cases hid : i = dOwn
    · exact Or.inl hid
    by_cases hip : i = dPoss
    · exact Or.inr (Or.inl hip)
    · exact Or.inr (Or.inr (m.frame i hid hip))
  constructor
  case table => exact htable
  case occupied =>
    intro i hdead
    have hocc := h.occupied i hdead
    rw [(AssetRecord.fields_of_header (m.header i hocc)).1]
    exact hocc
  case linked =>
    intro i hi ht
    rcases hcases i with rfl | rfl | hheader
    · rw [hiO, hdO, ← h.linked own hm.own_lt (Or.inl hm.own_type), ho]
    · rw [hiP', hdO, hdP]
    · obtain ⟨htA, _, _, _, hiA⟩ := AssetRecord.fields_of_header hheader
      rw [htA] at ht
      rw [hiA]
      exact h.linked i hi ht
  case nonpos =>
    intro i hdead ht
    have hne : ∀ j, dead j = false → i ≠ j := fun j => alive_ne hdead
    have hshares := m.shares i
    rw [if_neg (hne _ ho), if_neg (hne _ hp), if_neg (hne _ hdO), if_neg (hne _ hdP)] at hshares
    have htA := (AssetRecord.fields_of_header (m.header i (h.occupied i hdead))).1
    have hold := h.nonpos i hdead (by rw [← htA]; exact ht)
    omega
  case contract =>
    intro i hi ht
    rcases hcases i with rfl | rfl | hheader
    · rw [htO] at ht
      exact absurd ht (by decide)
    · rw [hiP', hcP, hcO]
    · obtain ⟨htA, _, _, hcA, hiA⟩ := AssetRecord.fields_of_header hheader
      rw [htA] at ht
      -- the ownership it points to was there before
      have hlink := (h.table.shape.linked i hi).2 (by rw [settle_type]; exact ht)
      rw [settle_index, settle_type] at hlink
      have hheaderO := m.header (A i).index.toNat (by rw [hlink.2]; decide)
      rw [hcA, hiA, (AssetRecord.fields_of_header hheaderO).2.2.2.1]
      exact h.contract i hi ht

/-- Moving ownership and possession to one contract keeps the invariant. -/
theorem SettledInvariant.moveShares (hdepth : depth ≤ 31)
    (h : SettledInvariant depth u.assets dead acc) (hn : 0 < n.toInt)
    (hm : CanMove depth u.assets own poss n) {r : TransferResult}
    (hrun : moveShares depth u own poss ok c pk c n = .ok (u', r)) :
    SettledInvariant depth u'.assets dead acc ∧ ∃ dOwn dPoss, r = .moved dOwn dPoss ∧
      SharesMoved u.assets u'.assets own poss ok pk c dOwn dPoss n.toInt := by
  have hown := h.own_alive hn hm
  have hposs := h.poss_alive hdepth hn hm
  have hm' := hm.settle hown hposs
  have htable : TableInvariant depth (u.settle dead).assets acc := h.table
  obtain ⟨dOwn, dPoss, hr, hdOwn, hdPoss, rfl⟩ := moveShares_cases hrun
  obtain ⟨A, hA⟩ : ∃ t, t = moveBetween u.assets own dOwn OWNERSHIP ok c
    (u.assets own).index.toNat n := ⟨_, rfl⟩
  obtain ⟨B, hB⟩ : ∃ t, t = moveBetween A poss dPoss POSSESSION pk c dOwn n := ⟨_, rfl⟩
  have hindex : ((u.settle dead).assets own).index = (u.assets own).index := settle_index own
  -- the ownership
  obtain ⟨hltO, hstopO⟩ := probeHolding_stop hdOwn
  have hdO : dead dOwn = false := by
    refine h.destination_alive (Or.inl rfl) hltO ?_ hstopO
    rw [← h.linked own hm.own_lt (Or.inl hm.own_type), hown]
  have hdOwn' : probeHolding depth (u.settle dead).assets OWNERSHIP ok c
      ((u.settle dead).assets own).index = .ok dOwn := by
    rw [hindex, Universe.settle_assets, probeHolding_settle]
    exact hdOwn
  have m₁ := moveOwnership_moved hdepth htable hn hm' hdOwn'
  have hsettleA : QubicBob.settle dead A = moveBetween (u.settle dead).assets own dOwn OWNERSHIP ok
      c ((u.settle dead).assets own).index.toNat n := by
    rw [hA, settle_moveBetween hown hdO, hindex]
    rfl
  rw [← hsettleA] at m₁
  have s₁ : Shifted u.assets A own OWNERSHIP ok c (u.assets own).index.toNat dOwn n.toInt :=
    Moved.shifted hown hdO hA (hindex ▸ m₁)
  -- the possession
  rw [← hA] at hdPoss
  obtain ⟨hltP, hstopP⟩ := probeHolding_stop hdPoss
  have hdP : dead dPoss = false := by
    refine h.destination_alive (Or.inr rfl) hltP ?_ (s₁.before hstopP)
    rw [toNat_slot hdepth hltO, hdO]
  have m₂ := movePossession_moved hdepth htable hn hm' hltO m₁
    (show probeHolding depth (QubicBob.settle dead A) POSSESSION pk c (BitVec.ofNat 32 dOwn)
      = .ok dPoss by rw [probeHolding_settle]; exact hdPoss)
  rw [← settle_moveBetween hposs hdP, ← hB] at m₂
  have s₂ : Shifted A B poss POSSESSION pk c dOwn dPoss n.toInt := Moved.shifted hposs hdP hB m₂
  have hmoved := s₁.sharesMoved s₂
  have hfinal := h.of_sharesMoved hdepth hm hmoved hltO hown hposs hdO hdP
    (htable.moved hdepth hn hm' m₁ m₂)
  rw [hA] at hB
  rw [hB] at hfinal hmoved
  exact ⟨hfinal, dOwn, dPoss, hr, hmoved⟩

/-- What burning `n` shares does. -/
structure SharesBurned (A B : Assets) (own poss : Nat) (n : Int) : Prop where
  header : ∀ i, (B i).header = (A i).header
  shares : ∀ i, (B i).shares = (A i).shares - (if i = own then n else 0)
    - (if i = poss then n else 0)

/-- Burning keeps the invariant. -/
theorem SettledInvariant.burnShares (hdepth : depth ≤ 31)
    (h : SettledInvariant depth u.assets dead acc) (hn : 0 < n.toInt)
    (hm : CanMove depth u.assets own poss n) {r : TransferResult}
    (hrun : burnShares depth u own poss n = .ok (u', r)) :
    (u' = u ∧ r = .failed) ∨ (r = .burned ∧ SharesBurned u.assets u'.assets own poss n.toInt ∧
      SettledInvariant depth u'.assets dead
        (acc.burn (u.assets own).index.toNat n.toInt)) := by
  rcases burnShares_cases hrun with hfail | ⟨hr, A, hA, rfl⟩
  · exact Or.inl hfail
  have hown := h.own_alive hn hm
  have hposs := h.poss_alive hdepth hn hm
  have hm' := hm.settle hown hposs
  have htable : TableInvariant depth (u.settle dead).assets acc := h.table
  obtain ⟨B, hB⟩ : ∃ t, t = reshare A poss ((A poss).numberOfShares - n) := ⟨_, rfl⟩
  have hsettleA : QubicBob.settle dead A = reshare (u.settle dead).assets own
      (((u.settle dead).assets own).numberOfShares - n) := by
    rw [hA, settle_update hown]
    simp only [Universe.settle_assets, reshare, settle_alive hown]
    rfl
  have hb := reshare_burned hdepth htable.shape hn hm' hsettleA
  have hsettleB : QubicBob.settle dead B = reshare (QubicBob.settle dead A) poss
      ((QubicBob.settle dead A poss).numberOfShares - n) := by
    rw [hB]
    unfold reshare
    rw [settle_update hposs, settle_alive hposs]
  rw [← hsettleB] at hb
  have hheader : ∀ i, (B i).header = (u.assets i).header := by
    intro i
    rw [hB, reshare_header, hA]
    exact reshare_header (n := (u.assets own).numberOfShares - n) i
  have hshares : ∀ i, (B i).shares = (u.assets i).shares - (if i = own then n.toInt else 0)
      - (if i = poss then n.toInt else 0) := by
    intro i
    cases hdead : dead i with
    | false =>
        have hs := hb.shares i
        rwa [settle_alive hdead, Universe.settle_assets, settle_alive hdead] at hs
    | true =>
        have hne : ∀ j, dead j = false → i ≠ j := fun j => alive_ne hdead
        rw [hB, if_neg (hne _ hown), if_neg (hne _ hposs), reshare_shares, if_neg (hne _ hposs), hA,
          Function.update_of_ne (hne _ hown)]
        omega
  have hfields := fun i => AssetRecord.fields_of_header (hheader i)
  have htable' := htable.burned hn hm' hb
  rw [Universe.settle_assets, settle_index] at htable'
  refine Or.inr ⟨hr, ?_, ?_⟩
  · have hburned : SharesBurned u.assets B own poss n.toInt := ⟨hheader, hshares⟩
    rw [hB] at hburned
    exact hburned
  have hfinal : SettledInvariant depth B dead (acc.burn (u.assets own).index.toNat n.toInt) := by
    constructor
    case table => exact htable'
    case occupied =>
      intro i hdead
      rw [(hfields i).1]
      exact h.occupied i hdead
    case linked =>
      intro i hi ht
      rw [(hfields i).1] at ht
      rw [(hfields i).2.2.2.2]
      exact h.linked i hi ht
    case nonpos =>
      intro i hdead ht
      rw [(hfields i).1] at ht
      have hne : ∀ j, dead j = false → i ≠ j := fun j => alive_ne hdead
      have hs := hshares i
      rw [if_neg (hne _ hown), if_neg (hne _ hposs)] at hs
      have hold := h.nonpos i hdead ht
      omega
    case contract =>
      intro i hi ht
      rw [(hfields i).1] at ht
      rw [(hfields i).2.2.2.1, (hfields i).2.2.2.2, (hfields _).2.2.2.1]
      exact h.contract i hi ht
  rw [hB] at hfinal
  exact hfinal

end Moves

/-! ## Issuing any number of shares -/

/-- The three slots of a negative issuance join the dead ones. -/
def bury (dead : Nat → Bool) (iss own poss : Nat) : Nat → Bool :=
  fun i => dead i || i == iss || i == own || i == poss

theorem bury_other {dead : Nat → Bool} {iss own poss i : Nat} (hi : i ≠ iss) (ho : i ≠ own)
    (hp : i ≠ poss) : bury dead iss own poss i = dead i := by
  rw [bury, beq_eq_false_iff_ne.mpr hi, beq_eq_false_iff_ne.mpr ho, beq_eq_false_iff_ne.mpr hp,
    Bool.or_false, Bool.or_false, Bool.or_false]

section Issuing

variable {depth : Nat} {u u' : Universe} {A : Assets} {dead : Nat → Bool} {acc : Accounts}
  {iss own poss : Nat} {issuer : m256i} {name : BitVec 56} {d : BitVec 8} {unit : BitVec 56}
  {n : BitVec 64} {c : BitVec 16}

/-- The records of an issuance, and those that were there before. -/
structure IssuedRecords (depth : Nat) (A B : Assets) (iss own poss : Nat) (n : Int) : Prop where
  iss_type : (B iss).type = ISSUANCE
  own_type : (B own).type = OWNERSHIP
  own_index : (B own).index.toNat = iss
  own_shares : (B own).shares = n
  poss_type : (B poss).type = POSSESSION
  poss_index : (B poss).index.toNat = own
  poss_shares : (B poss).shares = n
  contract : (B poss).managingContractIndex = (B own).managingContractIndex
  empty : ∀ i, i = iss ∨ i = own ∨ i = poss → (A i).type = EMPTY
  frame : ∀ i, i ≠ iss → i ≠ own → i ≠ poss → B i = A i

/-- The invariant behind an issuance whose three slots are alike. -/
theorem SettledInvariant.of_issued (h : SettledInvariant depth A dead acc) {B : Assets}
    {m : Int} (hB : IssuedRecords depth A B iss own poss m) {dead' : Nat → Bool} {acc' : Accounts}
    (hdead : ∀ i, i ≠ iss → i ≠ own → i ≠ poss → dead' i = dead i)
    (hown : dead' own = dead' iss) (hposs : dead' poss = dead' own)
    (hm : dead' own = true → m ≤ 0)
    (htable : TableInvariant depth (settle dead' B) acc') :
    SettledInvariant depth B dead' acc' := by
  have hcases : ∀ i, i = iss ∨ i = own ∨ i = poss ∨
      (i ≠ iss ∧ i ≠ own ∧ i ≠ poss ∧ B i = A i ∧ dead' i = dead i) := by
    intro i
    by_cases hi : i = iss
    · exact Or.inl hi
    by_cases ho : i = own
    · exact Or.inr (Or.inl ho)
    by_cases hp : i = poss
    · exact Or.inr (Or.inr (Or.inl hp))
    · exact Or.inr (Or.inr (Or.inr ⟨hi, ho, hp, hB.frame i hi ho hp, hdead i hi ho hp⟩))
  -- a link that was there before does not lead to one of the three slots
  have hlink : ∀ i, i < 2 ^ depth → ((A i).type = OWNERSHIP ∨ (A i).type = POSSESSION) →
      B (A i).index.toNat = A (A i).index.toNat ∧ dead' (A i).index.toNat = dead (A i).index.toNat := by
    intro i hi ht
    have hocc : (A (A i).index.toNat).type ≠ EMPTY := by
      have hlinked := h.table.shape.linked i hi
      rw [AssetRecord.Linked, settle_type, settle_index, settle_type] at hlinked
      rcases ht with ht | ht
      · rw [(hlinked.1 ht).2]
        decide
      · rw [(hlinked.2 ht).2]
        decide
    rcases hcases (A i).index.toNat with hx | hx | hx | ⟨_, _, _, hrec, hd⟩
    · exact absurd (hB.empty _ (Or.inl hx)) hocc
    · exact absurd (hB.empty _ (Or.inr (Or.inl hx))) hocc
    · exact absurd (hB.empty _ (Or.inr (Or.inr hx))) hocc
    · exact ⟨hrec, hd⟩
  constructor
  case table => exact htable
  case occupied =>
    intro i hi
    rcases hcases i with rfl | rfl | rfl | ⟨_, _, _, hrec, hd⟩
    · rw [hB.iss_type]; decide
    · rw [hB.own_type]; decide
    · rw [hB.poss_type]; decide
    · rw [hrec]
      exact h.occupied i (hd ▸ hi)
  case linked =>
    intro i hi ht
    rcases hcases i with rfl | rfl | rfl | ⟨_, _, _, hrec, hd⟩
    · rw [hB.iss_type] at ht
      exact absurd ht (by decide)
    · rw [hB.own_index, hown]
    · rw [hB.poss_index, hposs]
    · rw [hrec] at ht ⊢
      rw [hd, (hlink i hi ht).2]
      exact h.linked i hi ht
  case nonpos =>
    intro i hi ht
    rcases hcases i with rfl | rfl | rfl | ⟨_, _, _, hrec, hd⟩
    · rw [hB.iss_type] at ht
      exact absurd ht (by decide)
    · rw [hB.own_shares]
      exact hm hi
    · rw [hB.poss_shares]
      exact hm (hposs ▸ hi)
    · rw [hrec] at ht ⊢
      exact h.nonpos i (hd ▸ hi) ht
  case contract =>
    intro i hi ht
    rcases hcases i with rfl | rfl | rfl | ⟨_, _, _, hrec, _⟩
    · rw [hB.iss_type] at ht
      exact absurd ht (by decide)
    · rw [hB.own_type] at ht
      exact absurd ht (by decide)
    · rw [hB.poss_index, hB.contract]
    · rw [hrec] at ht ⊢
      rw [(hlink i hi (Or.inr ht)).1]
      exact h.contract i hi ht

/-- The table after an issuance, slot by slot. -/
theorem issuedAssets_apply (hoi : own ≠ iss) (hpi : poss ≠ iss) (hpo : poss ≠ own) (i : Nat) :
    issuedAssets A issuer name d unit n c iss own poss i =
      if i = poss then
        { (A poss).holding POSSESSION issuer c own with numberOfShares := n }
      else if i = own then
        { (A own).holding OWNERSHIP issuer c iss with numberOfShares := n }
      else if i = iss then AssetRecord.issuance issuer name d unit
      else A i := by
  unfold issuedAssets
  by_cases hp : i = poss
  · simp [hp, hpi, hpo]
  by_cases ho : i = own
  · simp [ho, hoi, hpo.symm]
  by_cases hi : i = iss
  · simp [hi, hoi.symm, hpi.symm]
  · simp [hp, ho, hi]

theorem issuedAssets_records (hdepth : depth ≤ 31) (hi : iss < 2 ^ depth) (ho : own < 2 ^ depth)
    (hoi : own ≠ iss) (hpi : poss ≠ iss) (hpo : poss ≠ own)
    (hempty : ∀ i, i = iss ∨ i = own ∨ i = poss → (A i).type = EMPTY) :
    IssuedRecords depth A (issuedAssets A issuer name d unit n c iss own poss) iss own poss
      n.toInt := by
  have hround : ∀ i, i < 2 ^ depth → (BitVec.ofNat 32 i).toNat = i := fun _ => toNat_slot hdepth
  have hiss : issuedAssets A issuer name d unit n c iss own poss iss
      = AssetRecord.issuance issuer name d unit := by
    rw [issuedAssets_apply hoi hpi hpo, if_neg hpi.symm, if_neg hoi.symm, if_pos rfl]
  have hown : issuedAssets A issuer name d unit n c iss own poss own
      = { (A own).holding OWNERSHIP issuer c iss with numberOfShares := n } := by
    rw [issuedAssets_apply hoi hpi hpo, if_neg hpo.symm, if_pos rfl]
  have hposs : issuedAssets A issuer name d unit n c iss own poss poss
      = { (A poss).holding POSSESSION issuer c own with numberOfShares := n } := by
    rw [issuedAssets_apply hoi hpi hpo, if_pos rfl]
  constructor
  case iss_type => rw [hiss]; rfl
  case own_type => rw [hown]; rfl
  case own_index => rw [hown]; exact hround iss hi
  case own_shares => rw [hown]; rfl
  case poss_type => rw [hposs]; rfl
  case poss_index => rw [hposs]; exact hround own ho
  case poss_shares => rw [hposs]; rfl
  case contract => rw [hposs, hown]; rfl
  case empty => exact hempty
  case frame =>
    intro i hi ho hp
    rw [issuedAssets_apply hoi hpi hpo, if_neg hp, if_neg ho, if_neg hi]

/-- In the settled table a negative issuance is one of no shares. -/
theorem settle_issuedAssets_dead (hoi : own ≠ iss) (hpi : poss ≠ iss) (hpo : poss ≠ own) :
    settle (bury dead iss own poss) (issuedAssets A issuer name d unit n c iss own poss)
      = issuedAssets (settle dead A) issuer name 0 0 0 c iss own poss := by
  have hpadding : ∀ i, (settle dead A i).padding = (A i).padding := by
    intro i
    cases h : dead i with
    | false => rw [settle_alive h]
    | true => rw [settle_dead h]; rfl
  funext i
  rw [issuedAssets_apply hoi hpi hpo, settle, issuedAssets_apply hoi hpi hpo]
  by_cases hp : i = poss
  · simp [hp, bury, AssetRecord.header, AssetRecord.holding, hpadding]
  by_cases ho : i = own
  · simp [ho, hpo.symm, bury, AssetRecord.header, AssetRecord.holding, hpadding]
  by_cases hi : i = iss
  · simp [hi, hpi.symm, hoi.symm, bury, AssetRecord.header, AssetRecord.issuance]
  · simp [hp, ho, hi, bury, settle]

/-- Any other issuance is the same in the settled table. -/
theorem settle_issuedAssets_alive (hoi : own ≠ iss) (hpi : poss ≠ iss) (hpo : poss ≠ own)
    (hi : dead iss = false) (ho : dead own = false) (hp : dead poss = false) :
    settle dead (issuedAssets A issuer name d unit n c iss own poss)
      = issuedAssets (settle dead A) issuer name d unit n c iss own poss := by
  funext i
  rw [issuedAssets_apply hoi hpi hpo, settle, issuedAssets_apply hoi hpi hpo]
  by_cases hip : i = poss
  · simp [hip, hp, settle_alive hp]
  by_cases hio : i = own
  · simp [hio, hpo.symm, ho, settle_alive ho]
  by_cases hii : i = iss
  · simp [hii, hpi.symm, hoi.symm, hi]
  · simp [hip, hio, hii, settle]

/-- The slots of an issuance are taken from the settled table as well, whatever the share count. -/
theorem issued_in_settled (hdepth : depth ≤ 31) (h : TableShape depth (settle dead A))
    (hiss : probeIssuance depth A issuer (name.zeroExtend 64) = .ok iss)
    (hempty : (A iss).type = EMPTY)
    (hown : probeEmpty depth (Function.update A iss (AssetRecord.issuance issuer name d unit))
      ((iss + 1) &&& (2 ^ depth - 1)) = .ok own)
    (hposs : probeEmpty depth (Function.update (Function.update A iss
        (AssetRecord.issuance issuer name d unit)) own
      { (Function.update A iss (AssetRecord.issuance issuer name d unit) own).holding
          OWNERSHIP issuer c iss with numberOfShares := n })
      ((own + 1) &&& (2 ^ depth - 1)) = .ok poss)
    (d' : BitVec 8) (unit' : BitVec 56) (n' : BitVec 64) :
    ∃ ri ro rp, Issued depth (settle dead A) iss own poss ri ro rp n'.toInt ∧
      Function.update (Function.update (Function.update (settle dead A) iss ri) own ro) poss rp
        = issuedAssets (settle dead A) issuer name d' unit' n' c iss own poss := by
  refine ⟨_, _, _, issuedAssets_issued (d := d') (n := n') (c := c) hdepth h rfl rfl rfl
    (by rw [probeIssuance_settle]; exact hiss) (by rw [settle_type]; exact hempty) ?_ ?_, rfl⟩
  · rw [← hown]
    refine probeEmpty_congr (fun i => ?_) _
    by_cases hi : i = iss
    · rw [hi, Function.update_self, Function.update_self]
      rfl
    · rw [Function.update_of_ne hi, Function.update_of_ne hi, settle_type]
  · rw [← hposs]
    refine probeEmpty_congr (fun i => ?_) _
    by_cases ho : i = own
    · rw [ho, Function.update_self, Function.update_self]
      rfl
    rw [Function.update_of_ne ho, Function.update_of_ne ho]
    by_cases hi : i = iss
    · rw [hi, Function.update_self, Function.update_self]
      rfl
    · rw [Function.update_of_ne hi, Function.update_of_ne hi, settle_type]

/-- The three slots of an issuance are different empty slots. -/
theorem Issued.distinct {B : Assets} {ri ro rp : AssetRecord} {m : Int}
    (w : Issued depth B iss own poss ri ro rp m) : own ≠ iss ∧ poss ≠ iss ∧ poss ≠ own ∧
      ∀ i, i = iss ∨ i = own ∨ i = poss → (B i).type = EMPTY := by
  have hoi : own ≠ iss := by
    intro hc
    have hempty := w.own_empty
    rw [hc, Function.update_self, w.iss_type] at hempty
    exact absurd hempty (by decide)
  have hpo : poss ≠ own := by
    intro hc
    have hempty := w.poss_empty
    rw [hc, Function.update_self, w.own_type] at hempty
    exact absurd hempty (by decide)
  have hpi : poss ≠ iss := by
    intro hc
    have hempty := w.poss_empty
    rw [Function.update_of_ne hpo, hc, Function.update_self, w.iss_type] at hempty
    exact absurd hempty (by decide)
  refine ⟨hoi, hpi, hpo, ?_⟩
  have hown := w.own_empty
  have hposs := w.poss_empty
  rw [Function.update_of_ne hoi] at hown
  rw [Function.update_of_ne hpo, Function.update_of_ne hpi] at hposs
  rintro i (rfl | rfl | rfl)
  · exact w.iss_empty
  · exact hown
  · exact hposs

/-- An issuance of any number of shares keeps the invariant. -/
theorem SettledInvariant.issueAsset (hdepth : depth ≤ 31)
    (h : SettledInvariant depth u.assets dead acc) {r : IssueResult}
    (hrun : issueAsset depth u issuer name d unit n c = .ok (u', r)) :
    ∃ dead' acc', SettledInvariant depth u'.assets dead' acc' := by
  rcases issueAsset_cases hrun with
    ⟨i, rfl, _⟩ | ⟨iss, own, poss, _, hiss, hempty, hown, hposs, rfl⟩
  · exact ⟨dead, acc, h⟩
  have hissued := issued_in_settled hdepth h.table.shape hiss (isEmptySlot_iff.mp hempty) hown hposs
  obtain ⟨ri, ro, rp, w, hw⟩ := hissued d unit n
  obtain ⟨hoi, hpi, hpo, hemptySettled⟩ := w.distinct
  have hempties : ∀ i, i = iss ∨ i = own ∨ i = poss → (u.assets i).type = EMPTY := by
    intro i hi
    rw [← @settle_type dead u.assets i]
    exact hemptySettled i hi
  have halive : ∀ i, i = iss ∨ i = own ∨ i = poss → dead i = false :=
    fun i hi => h.empty_alive (hempties i hi)
  have hrecords : IssuedRecords depth u.assets
      (issuedAssets u.assets issuer name d unit n c iss own poss) iss own poss n.toInt :=
    issuedAssets_records hdepth w.iss_lt w.own_lt hoi hpi hpo hempties
  by_cases hn : 0 ≤ n.toInt
  · refine ⟨dead, acc.issue iss n.toInt, h.of_issued hrecords (fun _ _ _ _ => rfl) ?_ ?_ ?_ ?_⟩
    · rw [halive own (by simp), halive iss (by simp)]
    · rw [halive poss (by simp), halive own (by simp)]
    · intro hdead
      rw [halive own (by simp)] at hdead
      exact absurd hdead (by simp)
    · rw [settle_issuedAssets_alive hoi hpi hpo (halive iss (by simp)) (halive own (by simp))
        (halive poss (by simp)), ← hw]
      exact w.invariant h.table hn BitVec.toInt_lt
  -- the slots of a negative issuance are set aside, as if no shares had been issued
  · obtain ⟨ri', ro', rp', w', hw'⟩ := hissued 0 0 0
    refine ⟨bury dead iss own poss, acc.issue iss 0, h.of_issued hrecords ?_ ?_ ?_ ?_ ?_⟩
    · exact fun i hi ho hp => bury_other hi ho hp
    · simp [bury]
    · simp [bury]
    · intro _
      omega
    · rw [settle_issuedAssets_dead hoi hpi hpo, ← hw']
      exact w'.invariant h.table (by decide) (by decide)

end Issuing

end QubicBob
