import QubicBob.Ledger.AssetLookup

set_option autoImplicit false

/-! # What a record stands for

Slot numbers mean something inside one table only. `AssetKey` says what a record is about in terms of
keys, names and contracts alone, and `keyOf` reads it off a table by following the links. In a table
of the right shape no two slots have the same key (`keyOf_inj`), and the conditions the probes test
are equalities of keys (`isIssuance_iff_keyOf`, `isHolding_iff_keyOf`).
-/

namespace QubicBob

open Probe BitWords

/-- An issuance, an ownership of it, or a possession under such an ownership. -/
inductive AssetKey where
  | issuance (issuer : m256i) (name : BitVec 56)
  | ownership (issuer : m256i) (name : BitVec 56) (owner : m256i) (ownershipContract : BitVec 16)
  | possession (issuer : m256i) (name : BitVec 56) (owner : m256i) (ownershipContract : BitVec 16)
      (possessor : m256i) (possessionContract : BitVec 16)
  deriving DecidableEq, Repr

/-- The type of the records with the key. -/
def AssetKey.kind : AssetKey → BitVec 8
  | .issuance _ _ => ISSUANCE
  | .ownership _ _ _ _ => OWNERSHIP
  | .possession _ _ _ _ _ _ => POSSESSION

/-- The key the record is looked up by: the issuer, the owner or the possessor. -/
def AssetKey.publicKey : AssetKey → m256i
  | .issuance issuer _ => issuer
  | .ownership _ _ owner _ => owner
  | .possession _ _ _ _ possessor _ => possessor

/-- The holding of a key under a record: an ownership under an issuance, a possession under an
ownership. -/
def AssetKey.holding : AssetKey → m256i → BitVec 16 → Option AssetKey
  | .issuance issuer name, key, c => some (.ownership issuer name key c)
  | .ownership issuer name owner oc, key, c => some (.possession issuer name owner oc key c)
  | .possession _ _ _ _ _ _, _, _ => none

/-- What the record in slot `i` stands for. -/
def keyOf (A : Assets) (i : Nat) : Option AssetKey :=
  if (A i).type = ISSUANCE then some (.issuance (A i).publicKey (A i).name)
  else if (A i).type = OWNERSHIP then
    some (.ownership (A (A i).index.toNat).publicKey (A (A i).index.toNat).name (A i).publicKey
      (A i).managingContractIndex)
  else if (A i).type = POSSESSION then
    some (.possession (A (A (A i).index.toNat).index.toNat).publicKey
      (A (A (A i).index.toNat).index.toNat).name (A (A i).index.toNat).publicKey
      (A (A i).index.toNat).managingContractIndex (A i).publicKey (A i).managingContractIndex)
  else none

section Keys

variable {depth : Nat} {A R : Assets} {i j l : Nat} {kind : BitVec 8} {K : AssetKey}

theorem keyOf_issuance (h : (A i).type = ISSUANCE) :
    keyOf A i = some (.issuance (A i).publicKey (A i).name) :=
  if_pos h

theorem keyOf_kind (h : keyOf A i = some K) : (A i).type = K.kind := by
  unfold keyOf at h
  split at h
  · next ht => rw [← Option.some.inj h]; exact ht
  split at h
  · next ht => rw [← Option.some.inj h]; exact ht
  split at h
  · next ht => rw [← Option.some.inj h]; exact ht
  · exact absurd h (by simp)

theorem exists_keyOf
    (h : (A i).type = ISSUANCE ∨ (A i).type = OWNERSHIP ∨ (A i).type = POSSESSION) :
    ∃ K, keyOf A i = some K := by
  unfold keyOf
  split
  · exact ⟨_, rfl⟩
  split
  · exact ⟨_, rfl⟩
  split
  · exact ⟨_, rfl⟩
  · next hi ho hp => rcases h with h | h | h <;> contradiction

theorem keyOf_publicKey (h : keyOf A i = some K) : (A i).publicKey = K.publicKey := by
  unfold keyOf at h
  split at h
  · rw [← Option.some.inj h]; rfl
  split at h
  · rw [← Option.some.inj h]; rfl
  split at h
  · rw [← Option.some.inj h]; rfl
  · exact absurd h (by simp)

theorem keyOf_type_ne (h : keyOf A i = some K) : (A i).type ≠ EMPTY := by
  rw [keyOf_kind h]
  cases K with
  | issuance => exact (by decide : ISSUANCE ≠ EMPTY)
  | ownership => exact (by decide : OWNERSHIP ≠ EMPTY)
  | possession => exact (by decide : POSSESSION ≠ EMPTY)

theorem AssetKey.holding_inj {P P' : AssetKey} {k k' : m256i} {c c' : BitVec 16}
    (h : P.holding k c = some K) (h' : P'.holding k' c' = some K) : P = P' ∧ k = k' ∧ c = c' := by
  cases P <;> cases P' <;> simp only [holding, Option.some.injEq, reduceCtorEq] at h h' <;>
    (rw [← h'] at h; simp only [reduceCtorEq, ownership.injEq, possession.injEq] at h)
  · obtain ⟨rfl, rfl, rfl, rfl⟩ := h
    exact ⟨rfl, rfl, rfl⟩
  · obtain ⟨rfl, rfl, rfl, rfl, rfl, rfl⟩ := h
    exact ⟨rfl, rfl, rfl⟩

/-- The key of a holding is made from that of the record it points to. -/
theorem keyOf_of_linked (h : (A i).Linked depth A)
    (ht : (A i).type = OWNERSHIP ∨ (A i).type = POSSESSION) :
    keyOf A i = (keyOf A (A i).index.toNat).bind
      (fun P => P.holding (A i).publicKey (A i).managingContractIndex) := by
  rcases ht with ht | ht
  · have hlink := (h.1 ht).2
    rw [keyOf_issuance hlink, keyOf, if_neg (by rw [ht]; decide), if_pos ht]
    rfl
  · have hlink := (h.2 ht).2
    have hkey : keyOf A (A i).index.toNat = some (.ownership
        (A (A (A i).index.toNat).index.toNat).publicKey (A (A (A i).index.toNat).index.toNat).name
        (A (A i).index.toNat).publicKey (A (A i).index.toNat).managingContractIndex) := by
      rw [keyOf, if_neg (by rw [hlink]; decide), if_pos hlink]
    rw [hkey, keyOf, if_neg (by rw [ht]; decide), if_neg (by rw [ht]; decide), if_pos ht]
    rfl

theorem TableShape.keyOf_holding (h : TableShape depth A) (hi : i < 2 ^ depth)
    (ht : (A i).type = OWNERSHIP ∨ (A i).type = POSSESSION) :
    keyOf A i = (keyOf A (A i).index.toNat).bind
      (fun P => P.holding (A i).publicKey (A i).managingContractIndex) :=
  keyOf_of_linked (h.linked i hi) ht

/-- The record a holding points to has a key. -/
theorem TableShape.keyOf_link (h : TableShape depth A) (hi : i < 2 ^ depth)
    (ht : (A i).type = OWNERSHIP ∨ (A i).type = POSSESSION) (hkey : keyOf A i = some K) :
    (A i).index.toNat < 2 ^ depth ∧ ∃ P, keyOf A (A i).index.toNat = some P ∧
      P.holding (A i).publicKey (A i).managingContractIndex = some K := by
  rw [h.keyOf_holding hi ht, Option.bind_eq_some_iff] at hkey
  refine ⟨?_, hkey⟩
  rcases ht with ht | ht
  · exact ((h.linked i hi).1 ht).1
  · exact ((h.linked i hi).2 ht).1

theorem keyOf_inj_issuance (h : TableShape depth A) (hi : i < 2 ^ depth) (hj : j < 2 ^ depth)
    {issuer : m256i} {name : BitVec 56} (hkeyI : keyOf A i = some (.issuance issuer name))
    (hkeyJ : keyOf A j = some (.issuance issuer name)) : i = j := by
  have htI : (A i).type = ISSUANCE := keyOf_kind hkeyI
  have htJ : (A j).type = ISSUANCE := keyOf_kind hkeyJ
  rw [keyOf_issuance htI] at hkeyI
  rw [keyOf_issuance htJ, ← hkeyI] at hkeyJ
  obtain ⟨hpk, hname⟩ := AssetKey.issuance.inj (Option.some.inj hkeyJ)
  exact h.unique i j hi hj ⟨htI.trans htJ.symm, hpk.symm, Or.inl ⟨htI, hname.symm⟩⟩

/-- Two holdings stand for the same only if they are one, when this holds of what they point to. -/
theorem keyOf_inj_holding (h : TableShape depth A) (hi : i < 2 ^ depth) (hj : j < 2 ^ depth)
    (ht : K.kind = OWNERSHIP ∨ K.kind = POSSESSION) (hkeyI : keyOf A i = some K)
    (hkeyJ : keyOf A j = some K)
    (hlinks : ∀ {x y : Nat} {P : AssetKey} {k : m256i} {c : BitVec 16}, x < 2 ^ depth →
      y < 2 ^ depth → P.holding k c = some K → keyOf A x = some P → keyOf A y = some P → x = y) :
    i = j := by
  have htI := keyOf_kind hkeyI
  have htJ := keyOf_kind hkeyJ
  obtain ⟨hltI, P, hP, hPK⟩ := h.keyOf_link hi (by rwa [htI]) hkeyI
  obtain ⟨hltJ, P', hP', hPK'⟩ := h.keyOf_link hj (by rwa [htJ]) hkeyJ
  obtain ⟨rfl, hpk, hc⟩ := AssetKey.holding_inj hPK hPK'
  have hindex := hlinks hltI hltJ hPK hP hP'
  exact h.unique i j hi hj ⟨htI.trans htJ.symm, hpk,
    Or.inr ⟨by rwa [htI], hc, BitVec.eq_of_toNat_eq hindex⟩⟩

theorem keyOf_inj_ownership (h : TableShape depth A) (hi : i < 2 ^ depth) (hj : j < 2 ^ depth)
    (ht : K.kind = OWNERSHIP) (hkeyI : keyOf A i = some K) (hkeyJ : keyOf A j = some K) :
    i = j := by
  refine keyOf_inj_holding h hi hj (Or.inl ht) hkeyI hkeyJ ?_
  intro x y P k c hx hy hP hkeyX hkeyY
  cases P with
  | issuance issuer name => exact keyOf_inj_issuance h hx hy hkeyX hkeyY
  | ownership =>
      rw [← Option.some.inj hP] at ht
      exact absurd ht (show ¬ POSSESSION = OWNERSHIP by decide)
  | possession => exact absurd hP (by simp [AssetKey.holding])

/-- No two slots stand for the same. -/
theorem keyOf_inj (h : TableShape depth A) (hi : i < 2 ^ depth) (hj : j < 2 ^ depth)
    (hkeyI : keyOf A i = some K) (hkeyJ : keyOf A j = some K) : i = j := by
  cases K with
  | issuance issuer name => exact keyOf_inj_issuance h hi hj hkeyI hkeyJ
  | ownership => exact keyOf_inj_ownership h hi hj rfl hkeyI hkeyJ
  | possession =>
      refine keyOf_inj_holding h hi hj (Or.inr rfl) hkeyI hkeyJ ?_
      intro x y P k c hx hy hP hkeyX hkeyY
      cases P with
      | issuance => exact absurd hP (by simp [AssetKey.holding])
      | ownership => exact keyOf_inj_ownership h hx hy rfl hkeyX hkeyY
      | possession => exact absurd hP (by simp [AssetKey.holding])

/-- Records that agree in what a probe compares stand for the same. -/
theorem keyOf_of_sameKey (h : (A i).SameKey (A j)) : keyOf A i = keyOf A j := by
  obtain ⟨ht, hpk, hrest⟩ := h
  rcases hrest with ⟨hiss, hname⟩ | ⟨hkind, hc, hindex⟩
  · rw [keyOf_issuance hiss, keyOf_issuance (ht ▸ hiss), hpk, hname]
  · have hne : ¬ (A i).type = ISSUANCE := by rcases hkind with hk | hk <;> rw [hk] <;> decide
    rw [keyOf, keyOf, ← ht, ← hpk, ← hc, ← hindex, if_neg hne, if_neg hne]

/-- Records keep their key when headers are kept. -/
theorem keyOf_congr (h : TableShape depth A)
    (hkeep : ∀ i, i < 2 ^ depth → (A i).type ≠ EMPTY → (R i).header = (A i).header)
    (hi : i < 2 ^ depth) (hocc : (A i).type ≠ EMPTY) : keyOf R i = keyOf A i := by
  obtain ⟨ht, hpk, hname, hc, hindex⟩ := AssetRecord.fields_of_header (hkeep i hi hocc)
  unfold keyOf
  rw [ht, hpk, hname, hc, hindex]
  split
  · rfl
  split
  · next hown =>
      obtain ⟨hlt, hiss⟩ := (h.linked i hi).1 hown
      obtain ⟨_, hpk', hname', _⟩ := AssetRecord.fields_of_header (hkeep _ hlt (by rw [hiss]; decide))
      rw [hpk', hname']
  split
  · next hposs =>
      obtain ⟨hlt, hown⟩ := (h.linked i hi).2 hposs
      obtain ⟨_, hpk', _, hc', hindex'⟩ :=
        AssetRecord.fields_of_header (hkeep _ hlt (by rw [hown]; decide))
      obtain ⟨hlt', hiss⟩ := (h.linked _ hlt).1 hown
      obtain ⟨_, hpk'', hname'', _⟩ :=
        AssetRecord.fields_of_header (hkeep _ hlt' (by rw [hiss]; decide))
      rw [hpk', hc', hindex', hpk'', hname'']
  · rfl

/-- The condition of the probe for an issuance. -/
theorem isIssuance_iff_keyOf (ht : (A i).type = ISSUANCE) :
    (R j).isIssuance (A i).publicKey ((A i).name.zeroExtend 64) = true ↔
      keyOf R j = keyOf A i := by
  rw [AssetRecord.isIssuance_iff, keyOf_issuance ht]
  constructor
  · rintro ⟨htR, hname, hpk⟩
    rw [keyOf_issuance htR, hname, hpk]
  · intro hkey
    have htR : (R j).type = ISSUANCE := keyOf_kind hkey
    rw [keyOf_issuance htR] at hkey
    obtain ⟨hpk, hname⟩ := AssetKey.issuance.inj (Option.some.inj hkey)
    exact ⟨htR, hname, hpk⟩

/-- The condition of the probe for a holding under slot `l`, which stands for the same as the slot
the old holding points to. -/
theorem isHolding_iff_keyOf (hdepth : depth ≤ 31) (hR : TableShape depth R)
    (hA : TableShape depth A) (hkind : kind = OWNERSHIP ∨ kind = POSSESSION) (hj : j < 2 ^ depth)
    (hl : l < 2 ^ depth) (hi : i < 2 ^ depth) (ht : (A i).type = kind)
    (hkey : keyOf A i = some K) (hlink : keyOf R l = keyOf A (A i).index.toNat) :
    (R j).isHolding kind (A i).publicKey (A i).managingContractIndex (BitVec.ofNat 32 l) = true ↔
      keyOf R j = keyOf A i := by
  have hl' : (BitVec.ofNat 32 l).toNat = l := toNat_slot hdepth hl
  have hht : ∀ {t : BitVec 8}, t = kind → t = OWNERSHIP ∨ t = POSSESSION := by
    rintro t rfl
    exact hkind
  rw [AssetRecord.isHolding_iff]
  constructor
  · rintro ⟨htR, hc, hindex, hpk⟩
    rw [hR.keyOf_holding hj (hht htR), hindex, hl', hlink, hpk, hc, hA.keyOf_holding hi (hht ht)]
  · intro hsame
    rw [hkey] at hsame
    have htR : (R j).type = kind := by rw [keyOf_kind hsame, ← keyOf_kind hkey, ht]
    obtain ⟨_, P, hP, hPK⟩ := hA.keyOf_link hi (hht ht) hkey
    obtain ⟨hlt, P', hP', hPK'⟩ := hR.keyOf_link hj (hht htR) hsame
    obtain ⟨rfl, hpk, hc⟩ := AssetKey.holding_inj hPK hPK'
    have hindex := keyOf_inj hR hlt hl hP' (hlink.trans hP)
    exact ⟨htR, hc.symm, BitVec.eq_of_toNat_eq (by rw [hindex, hl']), hpk.symm⟩

end Keys

end QubicBob
