import QubicBob.Ledger.Asset
import QubicBob.Lib.Tally

set_option autoImplicit false

/-! # The shape of the asset table

The table mixes three kinds of records that are linked by slot index, and every record has to be
found again by probing. `TableShape` says so: links, unique keys and unbroken probe chains.

Only two things ever happen to a slot: an empty one receives a record with a fresh key
(`TableShape.insert`), or a record changes its share count (`TableShape.reshare`). A transfer is
two of the moves of `moveBetween`, and `moveBetween_spec` is all that is used about them.
-/

namespace QubicBob

open Probe BitWords Tally

/-! ## Shape -/

/-- Two records of one kind with one key. An issuance is keyed by issuer and name, a holding by
holder, managing contract and the slot it points to. -/
def AssetRecord.SameKey (r s : AssetRecord) : Prop :=
  r.type = s.type ∧ r.publicKey = s.publicKey ∧
    (r.type = ISSUANCE ∧ r.name = s.name ∨
      (r.type = OWNERSHIP ∨ r.type = POSSESSION) ∧
        r.managingContractIndex = s.managingContractIndex ∧ r.index = s.index)

/-- The record points to a slot of the kind its own kind asks for. -/
def AssetRecord.Linked (r : AssetRecord) (depth : Nat) (assets : Assets) : Prop :=
  (r.type = OWNERSHIP → r.index.toNat < 2 ^ depth ∧ (assets r.index.toNat).type = ISSUANCE) ∧
    (r.type = POSSESSION → r.index.toNat < 2 ^ depth ∧ (assets r.index.toNat).type = OWNERSHIP)

/-- Slot `x` is reached from the home slot of `key` without crossing an empty slot. -/
def Reachable (depth : Nat) (assets : Assets) (key : m256i) (x : Nat) : Prop :=
  Reach (fun i => isEmptySlot assets i = false) (2 ^ depth) (homeSlot depth key) x

structure TableShape (depth : Nat) (assets : Assets) : Prop where
  /-- Empty slots are all-zero. -/
  empty : ∀ i, i < 2 ^ depth → (assets i).type = EMPTY → assets i = AssetRecord.empty
  linked : ∀ i, i < 2 ^ depth → (assets i).Linked depth assets
  unique : ∀ i j, i < 2 ^ depth → j < 2 ^ depth → (assets i).SameKey (assets j) → i = j
  reach : ∀ i, i < 2 ^ depth → (assets i).type ≠ EMPTY →
    Reachable depth assets (assets i).publicKey i

section Shape

variable {depth : Nat} {assets : Assets}

/-- A slot number fits the 32 bits of a link. -/
theorem toNat_slot (hdepth : depth ≤ 31) {i : Nat} (hi : i < 2 ^ depth) :
    (BitVec.ofNat 32 i).toNat = i := by
  have hcap : 2 ^ depth ≤ 2 ^ 31 := Nat.pow_le_pow_right (by decide) hdepth
  rw [BitVec.toNat_ofNat, Nat.mod_eq_of_lt (by omega)]

theorem isEmptySlot_iff {i : Nat} : isEmptySlot assets i = true ↔ (assets i).type = EMPTY := by
  rw [isEmptySlot, beq_iff_eq]

theorem isEmptySlot_false_iff {i : Nat} :
    isEmptySlot assets i = false ↔ (assets i).type ≠ EMPTY := by
  rw [isEmptySlot, beq_eq_false_iff_ne]

theorem AssetRecord.SameKey.symm {r s : AssetRecord} (h : r.SameKey s) : s.SameKey r := by
  obtain ⟨htype, hkey, hrest⟩ := h
  refine ⟨htype.symm, hkey.symm, ?_⟩
  rcases hrest with ⟨hi, hname⟩ | ⟨hk, hc, hx⟩
  · exact Or.inl ⟨htype ▸ hi, hname.symm⟩
  · exact Or.inr ⟨htype ▸ hk, hc.symm, hx.symm⟩

/-- A record with a key is not an empty slot. -/
theorem AssetRecord.SameKey.type_ne {r s : AssetRecord} (h : r.SameKey s) : s.type ≠ EMPTY := by
  obtain ⟨htype, _, hrest⟩ := h
  rw [← htype]
  rcases hrest with ⟨hi, _⟩ | ⟨hi | hi, _⟩ <;> rw [hi] <;> decide

/-- The record without its share count. -/
def AssetRecord.header (r : AssetRecord) : AssetRecord := { r with numberOfShares := 0 }

theorem AssetRecord.fields_of_header {r s : AssetRecord} (h : r.header = s.header) :
    r.type = s.type ∧ r.publicKey = s.publicKey ∧ r.name = s.name ∧
      r.managingContractIndex = s.managingContractIndex ∧ r.index = s.index := by
  unfold header at h
  obtain ⟨hkey, htype, hpadding, hcontract, hindex, _⟩ := AssetRecord.mk.inj h
  exact ⟨htype, hkey, by rw [name, name, hpadding, hcontract, hindex], hcontract, hindex⟩

/-- A link survives when the records it may point to keep their kind. -/
theorem AssetRecord.Linked.mono {r : AssetRecord} {assets' : Assets} (h : r.Linked depth assets)
    (hkeep : ∀ i, i < 2 ^ depth → (assets i).type ≠ EMPTY → (assets' i).type = (assets i).type) :
    r.Linked depth assets' := by
  refine ⟨?_, ?_⟩
  · intro ht
    obtain ⟨hlt, hi⟩ := h.1 ht
    exact ⟨hlt, by rw [hkeep _ hlt (by rw [hi]; decide), hi]⟩
  · intro ht
    obtain ⟨hlt, hi⟩ := h.2 ht
    exact ⟨hlt, by rw [hkeep _ hlt (by rw [hi]; decide), hi]⟩

/-- A probe chain survives when no record disappears. -/
theorem Reachable.mono {assets' : Assets} {key : m256i} {x : Nat}
    (h : Reachable depth assets key x)
    (hkeep : ∀ i, i < 2 ^ depth → (assets i).type ≠ EMPTY → (assets' i).type ≠ EMPTY) :
    Reachable depth assets' key x := by
  refine Reach.mono h ?_ (Nat.two_pow_pos depth)
  intro i hi hocc
  exact isEmptySlot_false_iff.mpr (hkeep i hi (isEmptySlot_false_iff.mp hocc))

/-- A record with a fresh key may be written into an empty slot on its probe chain. -/
theorem TableShape.insert (h : TableShape depth assets) {x : Nat} {r : AssetRecord}
    (hempty : (assets x).type = EMPTY) (hr : r.type ≠ EMPTY)
    (hlink : r.Linked depth assets) (hreach : Reachable depth assets r.publicKey x)
    (hfresh : ∀ j, j < 2 ^ depth → ¬ r.SameKey (assets j)) :
    TableShape depth (Function.update assets x r) := by
  -- nothing that was a record is overwritten
  have hne : ∀ i, (assets i).type ≠ EMPTY → i ≠ x := by
    rintro i hi rfl
    exact hi hempty
  have hold : ∀ i, (assets i).type ≠ EMPTY → Function.update assets x r i = assets i :=
    fun i hi => Function.update_of_ne (hne i hi) _ _
  have hkeep : ∀ i, i < 2 ^ depth → (assets i).type ≠ EMPTY →
      (Function.update assets x r i).type = (assets i).type :=
    fun i _ hi => by rw [hold i hi]
  have hocc : ∀ i, i < 2 ^ depth → (assets i).type ≠ EMPTY →
      (Function.update assets x r i).type ≠ EMPTY :=
    fun i hlt hi => by rw [hkeep i hlt hi]; exact hi
  constructor
  case empty =>
    intro i hi ht
    by_cases hix : i = x
    · rw [hix, Function.update_self] at ht
      exact absurd ht hr
    · rw [Function.update_of_ne hix] at ht ⊢
      exact h.empty i hi ht
  case linked =>
    intro i hi
    by_cases hix : i = x
    · rw [hix, Function.update_self]
      exact hlink.mono hkeep
    · rw [Function.update_of_ne hix]
      exact (h.linked i hi).mono hkeep
  case unique =>
    intro i j hi hj hsame
    by_cases hix : i = x
    · by_cases hjx : j = x
      · rw [hix, hjx]
      · rw [hix, Function.update_self, Function.update_of_ne hjx] at hsame
        exact absurd hsame (hfresh j hj)
    · by_cases hjx : j = x
      · rw [hjx, Function.update_self, Function.update_of_ne hix] at hsame
        exact absurd hsame.symm (hfresh i hi)
      · rw [Function.update_of_ne hix, Function.update_of_ne hjx] at hsame
        exact h.unique i j hi hj hsame
  case reach =>
    intro i hi ht
    by_cases hix : i = x
    · rw [hix, Function.update_self]
      exact hreach.mono hocc
    · rw [Function.update_of_ne hix] at ht ⊢
      exact (h.reach i hi ht).mono hocc

/-- No holding points to a slot that is not of the kind it needs. -/
theorem TableShape.index_ne (h : TableShape depth assets) {x j : Nat} (hj : j < 2 ^ depth)
    (hempty : (assets x).type = EMPTY)
    (ht : (assets j).type = OWNERSHIP ∨ (assets j).type = POSSESSION) :
    (assets j).index.toNat ≠ x := by
  rintro rfl
  rcases ht with ht | ht
  · rw [((h.linked j hj).1 ht).2] at hempty
    exact absurd hempty (by decide)
  · rw [((h.linked j hj).2 ht).2] at hempty
    exact absurd hempty (by decide)

end Shape

/-! ## Share counts -/

def AssetRecord.shares (r : AssetRecord) : Int := r.numberOfShares.toInt

/-- What the record adds to the holdings of kind `kind` under slot `i`. -/
def AssetRecord.part (kind : BitVec 8) (i : Nat) (r : AssetRecord) : Int :=
  if r.type = kind ∧ r.index.toNat = i then r.shares else 0

/-- The shares of all holdings of kind `kind` that point to slot `i`. -/
def held (depth : Nat) (assets : Assets) (kind : BitVec 8) (i : Nat) : Int :=
  tally (2 ^ depth) (AssetRecord.part kind i) assets

/-- `numberOfShares` of slot `x` becomes `n`. -/
def reshare (assets : Assets) (x : Nat) (n : BitVec 64) : Assets :=
  Function.update assets x { assets x with numberOfShares := n }

section Shares

variable {depth : Nat} {assets : Assets} {x : Nat} {n : BitVec 64}

theorem reshare_header (i : Nat) : (reshare assets x n i).header = (assets i).header := by
  unfold reshare
  by_cases hix : i = x
  · rw [hix, Function.update_self]
    rfl
  · rw [Function.update_of_ne hix]

theorem reshare_type (i : Nat) : (reshare assets x n i).type = (assets i).type :=
  (AssetRecord.fields_of_header (reshare_header i)).1

/-- A record may change its share count. -/
theorem TableShape.reshare (h : TableShape depth assets) (hx : (assets x).type ≠ EMPTY) :
    TableShape depth (reshare assets x n) := by
  have htype : ∀ i, (QubicBob.reshare assets x n i).type = (assets i).type := reshare_type
  constructor
  case empty =>
    intro i hi ht
    rw [htype] at ht
    have hix : i ≠ x := by
      rintro rfl
      exact hx ht
    rw [QubicBob.reshare, Function.update_of_ne hix]
    exact h.empty i hi ht
  case linked =>
    intro i hi
    have hl := (h.linked i hi).mono (fun j _ _ => htype j)
    have hindex := (AssetRecord.fields_of_header (@reshare_header assets x n i)).2.2.2.2
    unfold AssetRecord.Linked at hl ⊢
    rw [htype, hindex]
    exact hl
  case unique =>
    intro i j hi hj hij
    refine h.unique i j hi hj ?_
    obtain ⟨hti, hki, hni, hci, hxi⟩ := AssetRecord.fields_of_header (@reshare_header assets x n i)
    obtain ⟨htj, hkj, hnj, hcj, hxj⟩ := AssetRecord.fields_of_header (@reshare_header assets x n j)
    unfold AssetRecord.SameKey at hij ⊢
    rwa [hti, htj, hki, hkj, hni, hnj, hci, hcj, hxi, hxj] at hij
  case reach =>
    intro i hi ht
    rw [htype] at ht
    rw [(AssetRecord.fields_of_header (reshare_header i)).2.1]
    exact (h.reach i hi ht).mono (fun j _ hj => by rw [htype]; exact hj)

theorem reshare_shares (i : Nat) :
    (reshare assets x n i).shares = if i = x then n.toInt else (assets i).shares := by
  unfold reshare
  by_cases hix : i = x
  · rw [hix, Function.update_self, if_pos rfl]
    rfl
  · rw [Function.update_of_ne hix, if_neg hix]

/-- A changed share count changes the sum it belongs to. -/
theorem held_reshare (hx : x < 2 ^ depth) (kind : BitVec 8) (i : Nat) :
    held depth (reshare assets x n) kind i = held depth assets kind i +
      (if (assets x).type = kind ∧ (assets x).index.toNat = i then n.toInt - (assets x).shares
        else 0) := by
  unfold held reshare
  rw [tally_update hx]
  by_cases h : (assets x).type = kind ∧ (assets x).index.toNat = i
  · simp only [AssetRecord.part, if_pos h]
    unfold AssetRecord.shares
    ring
  · simp only [AssetRecord.part, if_neg h]
    ring

/-- A new record adds its shares to the sum it belongs to. -/
theorem held_insert (hx : x < 2 ^ depth) (hempty : (assets x).type = EMPTY) (r : AssetRecord)
    {kind : BitVec 8} (hkind : kind ≠ EMPTY) (i : Nat) :
    held depth (Function.update assets x r) kind i
      = held depth assets kind i + AssetRecord.part kind i r := by
  have hzero : AssetRecord.part kind i (assets x) = 0 := by
    refine if_neg ?_
    rintro ⟨ht, _⟩
    exact hkind (ht ▸ hempty)
  unfold held
  rw [tally_update hx, hzero]
  ring

theorem part_of_type_ne {kind : BitVec 8} {i : Nat} {r : AssetRecord} (h : r.type ≠ kind) :
    AssetRecord.part kind i r = 0 :=
  if_neg (fun hc => h hc.1)

theorem part_of_type {kind : BitVec 8} {i : Nat} {r : AssetRecord} (h : r.type = kind) :
    AssetRecord.part kind i r = if r.index.toNat = i then r.shares else 0 := by
  simp only [AssetRecord.part, h, true_and]

/-- The holdings of one kind have no negative share count. -/
def NonNegative (depth : Nat) (assets : Assets) (kind : BitVec 8) : Prop :=
  ∀ i, i < 2 ^ depth → (assets i).type = kind → 0 ≤ (assets i).shares

/-- One holding has at most what all holdings under its slot have. -/
theorem shares_le_held {kind : BitVec 8} (hnonneg : NonNegative depth assets kind)
    (hx : x < 2 ^ depth) (ht : (assets x).type = kind) :
    (assets x).shares ≤ held depth assets kind (assets x).index.toNat := by
  have hpart : AssetRecord.part kind (assets x).index.toNat (assets x) = (assets x).shares :=
    if_pos ⟨ht, rfl⟩
  rw [← hpart]
  refine le_tally (f := AssetRecord.part kind (assets x).index.toNat) hx ?_
  intro j hj
  unfold AssetRecord.part
  split
  · next h => exact hnonneg j hj h.1
  · exact le_refl 0

end Shares

/-! ## Where a holding goes -/

/-- Slot `d` holds the given holding, or is the empty slot where it belongs. -/
def Destination (depth : Nat) (assets : Assets) (kind : BitVec 8) (key : m256i) (c : BitVec 16)
    (index : BitVec 32) (d : Nat) : Prop :=
  (assets d).isHolding kind key c index = true ∨
    (assets d).type = EMPTY ∧ Reachable depth assets key d ∧
      ∀ j, j < 2 ^ depth → (assets j).isHolding kind key c index = false

section Destination

variable {depth : Nat} {assets : Assets} {kind : BitVec 8} {key : m256i} {c : BitVec 16}
  {index : BitVec 32} {d : Nat}

theorem AssetRecord.isHolding_iff {r : AssetRecord} : r.isHolding kind key c index = true ↔
    r.type = kind ∧ r.managingContractIndex = c ∧ r.index = index ∧ r.publicKey = key := by
  simp only [AssetRecord.isHolding, Bool.and_eq_true, beq_iff_eq, and_assoc]

theorem isHolding_of_header {r s : AssetRecord} (h : r.header = s.header) :
    r.isHolding kind key c index = s.isHolding kind key c index := by
  obtain ⟨ht, hk, _, hc, hi⟩ := AssetRecord.fields_of_header h
  unfold AssetRecord.isHolding
  rw [ht, hk, hc, hi]

/-- Probing for a holding ends at its destination. -/
theorem probeHolding_destination (h : TableShape depth assets) (hkind : kind ≠ EMPTY)
    (hp : probeHolding depth assets kind key c index = .ok d) :
    d < 2 ^ depth ∧ Destination depth assets kind key c index d := by
  rw [probeHolding_eq_ok] at hp
  have hhome := homeSlot_lt depth key
  refine ⟨probe_lt hhome hp, ?_⟩
  by_cases hkey : (assets d).isHolding kind key c index = true
  · exact Or.inl hkey
  · rw [Bool.not_eq_true] at hkey
    have hstop := probe_stop hhome hp
    rw [hkey, Bool.or_false] at hstop
    refine Or.inr ⟨isEmptySlot_iff.mp hstop, ?_, ?_⟩
    · refine (probe_reach hhome hp).mono ?_ (Nat.two_pow_pos depth)
      intro i _ hi
      exact (Bool.or_eq_false_iff.mp hi).1
    · -- every holding with this key would be on the chain that has been searched
      intro j hj
      by_contra hcon
      rw [Bool.not_eq_false] at hcon
      obtain ⟨ht, _, _, hpk⟩ := AssetRecord.isHolding_iff.mp hcon
      have hr : Reachable depth assets (assets j).publicKey j :=
        h.reach j hj (by rw [ht]; exact hkind)
      rw [hpk] at hr
      have habsent : (assets j).isHolding kind key c index = false :=
        probe_absent hhome hp hkey hr
      rw [hcon] at habsent
      exact absurd habsent (by simp)

theorem Destination.reshare {x : Nat} {n : BitVec 64}
    (h : Destination depth assets kind key c index d) :
    Destination depth (reshare assets x n) kind key c index d := by
  have hsame : ∀ j, (QubicBob.reshare assets x n j).isHolding kind key c index
      = (assets j).isHolding kind key c index := fun j => isHolding_of_header (reshare_header j)
  rcases h with hkey | ⟨hempty, hreach, hfresh⟩
  · exact Or.inl (by rw [hsame]; exact hkey)
  · refine Or.inr ⟨by rw [reshare_type]; exact hempty, ?_, fun j hj => by rw [hsame, hfresh j hj]⟩
    exact hreach.mono (fun j _ hj => by rw [reshare_type]; exact hj)

/-- `numberOfShares` aside: create the holding if its slot is empty. -/
def openHolding (assets : Assets) (d : Nat) (kind : BitVec 8) (key : m256i) (c : BitVec 16)
    (index : Nat) : Assets :=
  if isEmptySlot assets d then
    Function.update assets d ((assets d).holding kind key c index)
  else assets

/-- What creating a holding does. -/
structure Opened (depth : Nat) (assets assets' : Assets) (kind : BitVec 8) (key : m256i)
    (c : BitVec 16) (index : Nat) (d : Nat) : Prop where
  shape : TableShape depth assets'
  keep : ∀ i, (assets i).type ≠ EMPTY → assets' i = assets i
  frame : ∀ i, i ≠ d → assets' i = assets i
  dest : (assets' d).isHolding kind key c (BitVec.ofNat 32 index) = true
  shares : ∀ i, (assets' i).shares = (assets i).shares
  held : ∀ kind', kind' ≠ EMPTY → ∀ i, held depth assets' kind' i = held depth assets kind' i

theorem openHolding_spec {index : Nat} (h : TableShape depth assets) (hd : d < 2 ^ depth)
    (hkind : kind = OWNERSHIP ∨ kind = POSSESSION)
    (hdest : Destination depth assets kind key c (BitVec.ofNat 32 index) d)
    (hlink : ((assets d).holding kind key c index).Linked depth assets) :
    Opened depth assets (openHolding assets d kind key c index) kind key c index d := by
  have hne : kind ≠ EMPTY := by rcases hkind with rfl | rfl <;> decide
  rcases hdest with hkey | ⟨hempty, hreach, hfresh⟩
  -- the holding is there already, or its probe has ended at an empty slot
  · have hfull : ¬ isEmptySlot assets d = true := by
      rw [isEmptySlot_iff, (AssetRecord.isHolding_iff.mp hkey).1]
      exact hne
    unfold openHolding
    rw [if_neg hfull]
    exact ⟨h, fun _ _ => rfl, fun _ _ => rfl, hkey, fun _ => rfl, fun _ _ _ => rfl⟩
  · have hzero : (assets d).shares = 0 := by
      rw [h.empty d hd hempty]
      rfl
    unfold openHolding
    rw [if_pos (isEmptySlot_iff.mpr hempty)]
    constructor
    case shape =>
      refine h.insert hempty hne hlink hreach ?_
      rintro j hj ⟨ht, hk, hrest⟩
      have hnot := hfresh j hj
      -- a record of the same key would be a holding the probe has missed
      rcases hrest with ⟨hi, _⟩ | ⟨_, hc, hi⟩
      · change kind = ISSUANCE at hi
        rcases hkind with hk' | hk' <;> rw [hk'] at hi <;> exact absurd hi (by decide)
      · have hyes : (assets j).isHolding kind key c (BitVec.ofNat 32 index) = true :=
          AssetRecord.isHolding_iff.mpr ⟨ht.symm, hc.symm, hi.symm, hk.symm⟩
        rw [hnot] at hyes
        exact absurd hyes (by simp)
    case keep =>
      intro i hi
      refine Function.update_of_ne ?_ _ _
      rintro rfl
      exact hi hempty
    case frame =>
      intro i hi
      exact Function.update_of_ne hi _ _
    case dest =>
      rw [Function.update_self]
      exact AssetRecord.isHolding_iff.mpr ⟨rfl, rfl, rfl, rfl⟩
    case shares =>
      intro i
      by_cases hid : i = d
      · rw [hid, Function.update_self]
        rfl
      · rw [Function.update_of_ne hid]
    case held =>
      intro kind' hk' i
      rw [held_insert hd hempty _ hk']
      have hpart : AssetRecord.part kind' i ((assets d).holding kind key c index) = 0 := by
        unfold AssetRecord.part
        split
        · exact hzero
        · rfl
      rw [hpart, add_zero]

end Destination

/-! ## Moving shares -/

/-- The share count of the record in slot `x` has changed by `δ`. -/
structure Reshared (depth : Nat) (assets assets' : Assets) (x : Nat) (kind : BitVec 8) (δ : Int) :
    Prop where
  shape : TableShape depth assets'
  header : ∀ i, (assets' i).header = (assets i).header
  shares : ∀ i, (assets' i).shares = (assets i).shares + (if i = x then δ else 0)
  held : ∀ i, held depth assets' kind i = held depth assets kind i
    + (if (assets x).index.toNat = i then δ else 0)
  held_other : ∀ kind', kind' ≠ kind →
    ∀ i, QubicBob.held depth assets' kind' i = QubicBob.held depth assets kind' i

section Resharing

variable {depth : Nat} {assets assets' : Assets} {x : Nat} {kind : BitVec 8} {δ : Int}

/-- The one rule for debits and credits. -/
theorem reshare_spec (h : TableShape depth assets) (hx : x < 2 ^ depth)
    (ht : (assets x).type = kind) (hkind : kind ≠ EMPTY) {n : BitVec 64}
    (hn : n.toInt = (assets x).shares + δ) :
    Reshared depth assets (reshare assets x n) x kind δ := by
  constructor
  case shape => exact h.reshare (by rw [ht]; exact hkind)
  case header => exact reshare_header
  case shares =>
    intro i
    rw [reshare_shares, hn]
    by_cases hi : i = x
    · rw [if_pos hi, if_pos hi, hi]
    · rw [if_neg hi, if_neg hi, add_zero]
  case held =>
    intro i
    rw [held_reshare hx, hn]
    by_cases hi : (assets x).index.toNat = i
    · rw [if_pos ⟨ht, hi⟩, if_pos hi, add_sub_cancel_left]
    · rw [if_neg (fun hc => hi hc.2), if_neg hi]
  case held_other =>
    intro kind' hne i
    rw [held_reshare hx, if_neg (fun hc => hne (by rw [← hc.1, ht])), add_zero]

theorem Reshared.type (r : Reshared depth assets assets' x kind δ) (i : Nat) :
    (assets' i).type = (assets i).type := (AssetRecord.fields_of_header (r.header i)).1

/-- A debit of no more than there is keeps share counts non-negative. -/
theorem NonNegative.debited {n : Int} (h : NonNegative depth assets kind)
    (r : Reshared depth assets assets' x kind (-n)) (hn : n ≤ (assets x).shares) :
    NonNegative depth assets' kind := by
  intro i hi ht
  rw [r.type] at ht
  have hold := h i hi ht
  rw [r.shares]
  by_cases hix : i = x
  · rw [if_pos hix, hix]
    omega
  · rw [if_neg hix, add_zero]
    exact hold

/-- A new record has no shares yet. -/
theorem NonNegative.opened {key : m256i} {c : BitVec 16} {index d : Nat}
    (h : NonNegative depth assets kind) (hshape : TableShape depth assets)
    (o : Opened depth assets assets' kind key c index d) : NonNegative depth assets' kind := by
  intro i hi ht
  by_cases hempty : (assets i).type = EMPTY
  · rw [o.shares, hshape.empty i hi hempty]
    exact le_refl _
  · rw [o.keep i hempty] at ht ⊢
    exact h i hi ht

end Resharing

/-- What `moveBetween` does: `n` shares leave slot `source` and arrive in slot `d`. -/
structure Moved (depth : Nat) (assets assets' : Assets) (source : Nat) (kind : BitVec 8)
    (key : m256i) (c : BitVec 16) (index : Nat) (d : Nat) (n : Int) : Prop where
  shape : TableShape depth assets'
  header : ∀ i, (assets i).type ≠ EMPTY → (assets' i).header = (assets i).header
  frame : ∀ i, i ≠ d → (assets' i).header = (assets i).header
  dest : (assets' d).isHolding kind key c (BitVec.ofNat 32 index) = true
  shares : ∀ i, (assets' i).shares =
    (assets i).shares - (if i = source then n else 0) + (if i = d then n else 0)
  held : ∀ i, held depth assets' kind i = held depth assets kind i
    - (if (assets source).index.toNat = i then n else 0) + (if index = i then n else 0)
  held_other : ∀ kind', kind' ≠ EMPTY → kind' ≠ kind →
    ∀ i, QubicBob.held depth assets' kind' i = QubicBob.held depth assets kind' i

section Moving

variable {depth : Nat} {assets : Assets} {source d index : Nat} {kind : BitVec 8} {key : m256i}
  {c : BitVec 16} {n : BitVec 64}

theorem moveBetween_eq {debited opened : Assets}
    (hdebited : debited = reshare assets source ((assets source).numberOfShares - n))
    (hopened : opened = openHolding debited d kind key c index) :
    moveBetween assets source d kind key c index n
      = reshare opened d ((opened d).numberOfShares + n) := by
  rw [hopened, hdebited]
  rfl

/-- The credit does not overflow as long as the sum it belongs to fits. -/
theorem credit_reshared {debited opened : Assets} (hdepth : depth ≤ 31) (hne : kind ≠ EMPTY)
    (hn : 0 < n.toInt) (hd : d < 2 ^ depth) (hindex : index < 2 ^ depth)
    (hopen : Opened depth debited opened kind key c index d) (hshape : TableShape depth debited)
    (hnonneg : NonNegative depth debited kind)
    (hfit : held depth debited kind index + n.toInt < 2 ^ 63) :
    Reshared depth opened (reshare opened d ((opened d).numberOfShares + n)) d kind n.toInt := by
  obtain ⟨ht, _, hi, _⟩ := AssetRecord.isHolding_iff.mp hopen.dest
  have hopened : NonNegative depth opened kind := hnonneg.opened hshape hopen
  have hle := shares_le_held hopened hd ht
  rw [hi, toNat_slot hdepth hindex, hopen.held kind hne] at hle
  refine reshare_spec hopen.shape hd ht hne ?_
  exact toInt_add_of_lt (hopened d hd ht) hn.le (by unfold AssetRecord.shares at hle; omega)

/-- A move is a debit, a record for the destination if it has none, and a credit. -/
theorem moveBetween_spec (h : TableShape depth assets) (hdepth : depth ≤ 31)
    (hkind : kind = OWNERSHIP ∨ kind = POSSESSION) (hnonneg : NonNegative depth assets kind)
    (hs : source < 2 ^ depth) (hst : (assets source).type = kind)
    (hn : 0 < n.toInt) (hns : n.toInt ≤ (assets source).shares)
    (hd : d < 2 ^ depth) (hdest : Destination depth assets kind key c (BitVec.ofNat 32 index) d)
    (hindex : index < 2 ^ depth)
    (hlink : ((assets d).holding kind key c index).Linked depth assets)
    (hfit : held depth assets kind index
      - (if (assets source).index.toNat = index then n.toInt else 0) + n.toInt < 2 ^ 63) :
    Moved depth assets (moveBetween assets source d kind key c index n) source kind key c index d
      n.toInt := by
  have hne : kind ≠ EMPTY := by rcases hkind with rfl | rfl <;> decide
  obtain ⟨debited, hdebited⟩ :
      ∃ t, t = reshare assets source ((assets source).numberOfShares - n) := ⟨_, rfl⟩
  have hdebit : Reshared depth assets debited source kind (-n.toInt) := by
    rw [hdebited]
    refine reshare_spec h hs hst hne ?_
    rw [toInt_sub_of_le hn.le hns]
    exact sub_eq_add_neg _ _
  obtain ⟨opened, hopened⟩ : ∃ t, t = openHolding debited d kind key c index := ⟨_, rfl⟩
  have hopen : Opened depth debited opened kind key c index d := by
    rw [hopened]
    refine openHolding_spec hdebit.shape hd hkind ?_ ?_
    -- the debit has changed no key, so the destination is still the one that was probed for
    · rw [hdebited]
      exact hdest.reshare
    · exact AssetRecord.Linked.mono hlink (fun i _ _ => hdebit.type i)
  have hcredit : Reshared depth opened (moveBetween assets source d kind key c index n) d kind
      n.toInt := by
    rw [moveBetween_eq hdebited hopened]
    exact credit_reshared hdepth hne hn hd hindex hopen hdebit.shape
      (hnonneg.debited hdebit hns) (by rw [hdebit.held]; split at hfit <;> split <;> omega)
  obtain ⟨_, _, hdi, _⟩ := AssetRecord.isHolding_iff.mp hopen.dest
  have hdi' : (opened d).index.toNat = index := by
    rw [hdi, toNat_slot hdepth hindex]
  constructor
  case shape => exact hcredit.shape
  case header =>
    intro i hi
    rw [hcredit.header, hopen.keep i (by rw [hdebit.type]; exact hi), hdebit.header]
  case frame =>
    intro i hi
    rw [hcredit.header, hopen.frame i hi, hdebit.header]
  case dest => rw [isHolding_of_header (hcredit.header d)]; exact hopen.dest
  case shares =>
    intro i
    rw [hcredit.shares, hopen.shares, hdebit.shares]
    split <;> ring
  case held =>
    intro i
    rw [hcredit.held, hopen.held kind hne, hdebit.held, hdi']
    split <;> ring
  case held_other =>
    intro kind' hk' hne' i
    rw [hcredit.held_other kind' hne', hopen.held kind' hk', hdebit.held_other kind' hne']

end Moving

end QubicBob
