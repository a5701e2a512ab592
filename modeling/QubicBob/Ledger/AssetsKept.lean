import QubicBob.Ledger.AssetEndEpoch

set_option autoImplicit false

/-! # Holdings across the end of an epoch

What a caller sees of the rebuild: the record of each key, its share count, and the balances of
`getAssetBalances`. A holding without shares is the only thing that can get lost, so the only
balance that can change is one of zero.
-/

namespace QubicBob

open Probe BitWords Tally

/-! ## Records by key -/

/-- The slot of the record with the key. -/
def slotOfKey (depth : Nat) (assets : Assets) (K : AssetKey) : Option Nat :=
  (List.range (2 ^ depth)).find? (fun i => decide (keyOf assets i = some K))

/-- The share count of the record with the key. -/
def sharesOf (depth : Nat) (assets : Assets) (K : AssetKey) : Option Int :=
  (slotOfKey depth assets K).map (fun i => (assets i).shares)

section Slots

variable {depth : Nat} {A R : Assets} {i j : Nat} {K : AssetKey}

theorem slotOfKey_eq_some (h : TableShape depth A) :
    slotOfKey depth A K = some i ↔ i < 2 ^ depth ∧ keyOf A i = some K := by
  rw [slotOfKey, List.find?_range_eq_some]
  constructor
  · rintro ⟨hkey, hmem, _⟩
    exact ⟨List.mem_range.mp hmem, of_decide_eq_true hkey⟩
  · rintro ⟨hi, hkey⟩
    refine ⟨decide_eq_true hkey, List.mem_range.mpr hi, ?_⟩
    intro j hj
    simp only [Bool.not_eq_true', decide_eq_false_iff_not]
    intro hc
    have heq := keyOf_inj h (by omega) hi hc hkey
    omega

/-- Twins are the records with one key. -/
theorem twin_of_slots (hA : TableShape depth A) (hR : TableShape depth R)
    (hi : slotOfKey depth A K = some i) (hj : slotOfKey depth R K = some j) :
    Twin depth A R i j := by
  obtain ⟨hlt, hkey⟩ := (slotOfKey_eq_some hA).mp hi
  obtain ⟨hlt', hkey'⟩ := (slotOfKey_eq_some hR).mp hj
  exact ⟨hlt, hlt', K, hkey, hkey'⟩

theorem Twin.slot (hR : TableShape depth R) (h : Twin depth A R i j) (hkey : keyOf A i = some K) :
    slotOfKey depth R K = some j :=
  (slotOfKey_eq_some hR).mpr ⟨h.2.1, h.keyOf_eq.trans hkey⟩

end Slots

section Kept

variable {depth : Nat} {A R : Assets} {acc : Accounts} {i j : Nat} {K : AssetKey}

/-- The new table has a record for the key if the old one has one with shares left. -/
theorem Rebuilt.slot_iff (hA : TableShape depth A) (h : Rebuilt depth A R) :
    (∃ j, slotOfKey depth R K = some j) ↔
      ∃ i, slotOfKey depth A K = some i ∧ 0 < remaining depth A i := by
  constructor
  · rintro ⟨j, hj⟩
    obtain ⟨hlt, hkey⟩ := (slotOfKey_eq_some h.shape).mp hj
    obtain ⟨i, hrem, ht⟩ := h.sound j hlt (keyOf_type_ne hkey)
    exact ⟨i, (slotOfKey_eq_some hA).mpr ⟨ht.1, ht.keyOf_eq ▸ hkey⟩, hrem.2.2⟩
  · rintro ⟨i, hi, hpos⟩
    obtain ⟨hlt, hkey⟩ := (slotOfKey_eq_some hA).mp hi
    obtain ⟨j, ht⟩ := h.complete i ⟨hlt, ⟨K, hkey⟩, hpos⟩
    exact ⟨j, ht.slot h.shape hkey⟩

/-- A holding keeps a positive share count, and goes without one. -/
theorem Rebuilt.sharesOf_eq (hA : TableShape depth A) (h : Rebuilt depth A R)
    (hK : K.kind ≠ ISSUANCE) :
    sharesOf depth R K = (sharesOf depth A K).filter (fun s => 0 < s) := by
  have hkind : ∀ i, slotOfKey depth A K = some i → (A i).type ≠ ISSUANCE := by
    intro i hi
    rwa [keyOf_kind ((slotOfKey_eq_some hA).mp hi).2]
  unfold sharesOf
  cases hi : slotOfKey depth A K with
  | none =>
      have hnone : slotOfKey depth R K = none := by
        rw [Option.eq_none_iff_forall_ne_some]
        intro j hj
        obtain ⟨i, hi', _⟩ := (h.slot_iff hA).mp ⟨j, hj⟩
        exact absurd (hi.symm.trans hi') (by simp)
      rw [hnone]
      rfl
  | some i =>
      have hrem : remaining depth A i = (A i).shares := remaining_holding (hkind i hi)
      by_cases hpos : 0 < (A i).shares
      · obtain ⟨j, hj⟩ := (h.slot_iff hA).mpr ⟨i, hi, by rw [hrem]; exact hpos⟩
        have ht := twin_of_slots hA h.shape hi hj
        rw [hj]
        simp only [Option.map_some, Option.filter_some, decide_eq_true hpos, if_true,
          h.shares i j ht (hkind i hi)]
      · have hnone : slotOfKey depth R K = none := by
          rw [Option.eq_none_iff_forall_ne_some]
          intro j hj
          obtain ⟨i', hi', hpos'⟩ := (h.slot_iff hA).mp ⟨j, hj⟩
          obtain rfl := Option.some.inj (hi.symm.trans hi')
          exact hpos (hrem ▸ hpos')
        rw [hnone, Option.map_some, Option.filter_some, decide_eq_false hpos]
        rfl

end Kept

/-! ## Balances -/

section Balances

variable {depth : Nat} {A R : Assets} {acc : Accounts} {i j o p : Nat} {kind : BitVec 8}
  {pk issuer : m256i} {assetName : BitVec 64} {manageSCIndex : BitVec 32} {P K : AssetKey}
  {c : BitVec 16}

theorem AssetKey.holding_kind (h : P.holding pk c = some K) :
    K.kind = OWNERSHIP ∨ K.kind = POSSESSION := by
  cases P with
  | issuance => exact Or.inl (by rw [← Option.some.inj h]; rfl)
  | ownership => exact Or.inr (by rw [← Option.some.inj h]; rfl)
  | possession => exact absurd h (by simp [AssetKey.holding])

/-- A holding is known by its own fields and by what it points to. -/
theorem keyOf_eq_holding_iff (h : TableShape depth A) (hi : i < 2 ^ depth)
    (hPK : P.holding pk c = some K) :
    keyOf A i = some K ↔ (A i).type = K.kind ∧ (A i).publicKey = pk ∧
      (A i).managingContractIndex = c ∧ (A i).index.toNat < 2 ^ depth ∧
        keyOf A (A i).index.toNat = some P := by
  have hkinds := AssetKey.holding_kind hPK
  constructor
  · intro hkey
    have ht := keyOf_kind hkey
    obtain ⟨hlt, P', hP', hPK'⟩ := h.keyOf_link hi (by rwa [ht]) hkey
    obtain ⟨rfl, hpk, hc⟩ := AssetKey.holding_inj hPK hPK'
    exact ⟨ht, hpk.symm, hc.symm, hlt, hP'⟩
  · rintro ⟨ht, hpk, hc, _, hP⟩
    rw [h.keyOf_holding hi (by rwa [ht]), hP, hpk, hc]
    exact hPK

/-- `matchesHolding` at a slot of the table. -/
theorem matchesHolding_slot (hdepth : depth ≤ 31) {r : AssetRecord} {x : Nat} (hx : x < 2 ^ depth)
    {managingIndex : Int} : r.matchesHolding kind pk managingIndex x = true ↔
      r.type = kind ∧ r.index.toNat = x ∧ r.publicKey = pk ∧
        (r.managingContractIndex.toNat : Int) = managingIndex := by
  have hindex : r.index = BitVec.ofInt 32 x ↔ r.index.toNat = x := by
    rw [BitVec.ofInt_natCast, ← BitVec.toNat_inj, toNat_slot hdepth hx]
  rw [AssetRecord.matchesHolding_iff, hindex]

theorem isOwnership_iff_keyOf (hdepth : depth ≤ 31) (h : TableShape depth A) :
    IsOwnership depth A pk issuer assetName manageSCIndex o ↔ o < 2 ^ depth ∧ ∃ n c,
      n.zeroExtend 64 = assetName ∧ (c.toNat : Int) = manageSCIndex.toInt ∧
        keyOf A o = some (.ownership issuer n pk c) := by
  constructor
  · rintro ⟨ho, x, hx, hiss, hmatch⟩
    obtain ⟨ht, hname, hpk⟩ := AssetRecord.isIssuance_eq_true_iff.mp hiss
    obtain ⟨htO, hindex, hpkO, hc⟩ := (matchesHolding_slot hdepth hx).mp hmatch
    refine ⟨ho, (A x).name, (A o).managingContractIndex, hname, hc, ?_⟩
    refine (keyOf_eq_holding_iff (P := .issuance issuer (A x).name) h ho rfl).mpr ?_
    rw [hindex, keyOf_issuance ht, hpk]
    exact ⟨htO, hpkO, rfl, hx, rfl⟩
  · rintro ⟨ho, n, c, hname, hc, hkey⟩
    obtain ⟨htO, hpkO, hcO, hlt, hP⟩ :=
      (keyOf_eq_holding_iff (P := .issuance issuer n) h ho rfl).mp hkey
    have ht : (A (A o).index.toNat).type = ISSUANCE := keyOf_kind hP
    rw [keyOf_issuance ht, Option.some.injEq, AssetKey.issuance.injEq] at hP
    refine ⟨ho, _, hlt, ?_, (matchesHolding_slot hdepth hlt).mpr ⟨htO, rfl, hpkO, ?_⟩⟩
    · exact AssetRecord.isIssuance_eq_true_iff.mpr ⟨ht, by rw [hP.2, hname], hP.1⟩
    · rw [hcO, hc]

theorem isPossession_iff_keyOf (hdepth : depth ≤ 31) (h : TableShape depth A) :
    IsPossession depth A pk issuer assetName manageSCIndex p ↔ p < 2 ^ depth ∧ ∃ n c,
      n.zeroExtend 64 = assetName ∧ (c.toNat : Int) = manageSCIndex.toInt ∧
        keyOf A p = some (.possession issuer n pk c pk c) := by
  constructor
  · rintro ⟨hp, o, hown, hmatch⟩
    obtain ⟨ho, n, c, hname, hc, hkey⟩ := (isOwnership_iff_keyOf hdepth h).mp hown
    obtain ⟨htP, hindex, hpkP, hcP⟩ := (matchesHolding_slot hdepth ho).mp hmatch
    refine ⟨hp, n, c, hname, hc, ?_⟩
    refine (keyOf_eq_holding_iff (P := .ownership issuer n pk c) h hp rfl).mpr ?_
    rw [hindex]
    exact ⟨htP, hpkP, BitVec.eq_of_toNat_eq (by omega), ho, hkey⟩
  · rintro ⟨hp, n, c, hname, hc, hkey⟩
    obtain ⟨htP, hpkP, hcP, hlt, hP⟩ :=
      (keyOf_eq_holding_iff (P := .ownership issuer n pk c) h hp rfl).mp hkey
    refine ⟨hp, _, (isOwnership_iff_keyOf hdepth h).mpr ⟨hlt, n, c, hname, hc, hP⟩, ?_⟩
    exact (matchesHolding_slot hdepth hlt).mpr ⟨htP, rfl, hpkP, by rw [hcP, hc]⟩

/-- A balance stays, or one of zero becomes `-1`. -/
theorem Rebuilt.balance (h : TableInvariant depth A acc) (hr : Rebuilt depth A R)
    {isA isR : Nat → Prop} {key : BitVec 56 → BitVec 16 → AssetKey}
    (hkey : ∀ n c, (key n c).kind ≠ ISSUANCE)
    (hisA : ∀ i, isA i ↔ i < 2 ^ depth ∧ ∃ n c, n.zeroExtend 64 = assetName ∧
      (c.toNat : Int) = manageSCIndex.toInt ∧ keyOf A i = some (key n c))
    (hisR : ∀ j, isR j ↔ j < 2 ^ depth ∧ ∃ n c, n.zeroExtend 64 = assetName ∧
      (c.toNat : Int) = manageSCIndex.toInt ∧ keyOf R j = some (key n c)) {b b' : Int}
    (hb : BalanceOf A isA b) (hb' : BalanceOf R isR b') : b' = b ∨ b = 0 ∧ b' = -1 := by
  have hback : ∀ j, isR j → ∃ i, isA i ∧ Twin depth A R i j := by
    intro j hj
    obtain ⟨hlt, n, c, hn, hc, hkeyJ⟩ := (hisR j).mp hj
    obtain ⟨i, -, ht⟩ := hr.sound j hlt (keyOf_type_ne hkeyJ)
    exact ⟨i, (hisA i).mpr ⟨ht.1, n, c, hn, hc, ht.keyOf_eq ▸ hkeyJ⟩, ht⟩
  rcases hb with ⟨i, hi, hunique, rfl⟩ | ⟨hno, rfl⟩
  swap
  -- no such record before, so none after
  · refine Or.inl ?_
    rcases hb' with ⟨j, hj, -, -⟩ | ⟨-, rfl⟩
    · obtain ⟨i, hi, -⟩ := hback j hj
      exact absurd hi (hno i)
    · rfl
  obtain ⟨hlt, n, c, hn, hc, hkeyI⟩ := (hisA i).mp hi
  have hne : (A i).type ≠ ISSUANCE := by
    rw [keyOf_kind hkeyI]
    exact hkey n c
  rcases hb' with ⟨j, hj, -, rfl⟩ | ⟨hno', rfl⟩
  · obtain ⟨i', hi', ht⟩ := hback j hj
    obtain rfl := hunique i' hi'
    exact Or.inl (hr.shares i' j ht hne)
  -- a record that is gone had no shares
  · refine Or.inr ⟨?_, rfl⟩
    have hnonneg : 0 ≤ (A i).shares := by
      refine h.books.nonneg i hlt ?_
      rcases keyOf_kinds hkeyI with ht | ht
      · exact absurd ht hne
      · exact ht
    by_contra hpos
    have hrem : Remains depth A i := by
      refine ⟨hlt, ⟨_, hkeyI⟩, ?_⟩
      rw [remaining_holding hne]
      omega
    obtain ⟨j, ht⟩ := hr.complete i hrem
    exact hno' j ((hisR j).mpr ⟨ht.2.1, n, c, hn, hc, ht.keyOf_eq.trans hkeyI⟩)

/-- The new table ends every search that the old one ends. -/
theorem Rebuilt.stops (hdepth : depth ≤ 31) (hA : TableShape depth A) (hr : Rebuilt depth A R)
    (hstops : (∃ z, z < 2 ^ depth ∧ (A z).type = EMPTY) ∨
      ∃ p, IsPossession depth A pk issuer assetName manageSCIndex p) :
    (∃ z, z < 2 ^ depth ∧ (R z).type = EMPTY) ∨
      ∃ p, IsPossession depth R pk issuer assetName manageSCIndex p := by
  rcases hstops with ⟨z, hz, hempty⟩ | ⟨p, hp⟩
  · refine Or.inl (exists_empty_of_missing hr.shape hr.sound hz ?_)
    rintro ⟨_, ⟨K, hK⟩, _⟩
    exact keyOf_type_ne hK hempty
  · obtain ⟨hlt, n, c, hname, hc, hkey⟩ := (isPossession_iff_keyOf hdepth hA).mp hp
    by_cases hrem : Remains depth A p
    · obtain ⟨j, ht⟩ := hr.complete p hrem
      exact Or.inr ⟨j, (isPossession_iff_keyOf hdepth hr.shape).mpr
        ⟨ht.2.1, n, c, hname, hc, ht.keyOf_eq.trans hkey⟩⟩
    · exact Or.inl (exists_empty_of_missing hr.shape hr.sound hlt hrem)

/-- `getAssetBalances` returns the same values, except that one of zero may become `-1`. -/
theorem Rebuilt.balances (hdepth : depth ≤ 31) (h : TableInvariant depth A acc)
    (hr : Rebuilt depth A R) {b : Int × Int}
    (hb : getAssetBalances depth A pk issuer assetName manageSCIndex = .ok b) :
    ∃ b', getAssetBalances depth R pk issuer assetName manageSCIndex = .ok b' ∧
      (b'.1 = b.1 ∨ b.1 = 0 ∧ b'.1 = -1) ∧ (b'.2 = b.2 ∨ b.2 = 0 ∧ b'.2 = -1) := by
  obtain ⟨hown, hposs⟩ := getAssetBalances_of_ok h.shape hb
  obtain ⟨b', hb', hown', hposs'⟩ := getAssetBalances_spec hr.shape
    (hr.stops hdepth h.shape (stops_of_getAssetBalances hb))
  refine ⟨b', hb', ?_, ?_⟩
  · have hkind : ∀ n c, (AssetKey.ownership issuer n pk c).kind ≠ ISSUANCE :=
      fun _ _ => (by decide : OWNERSHIP ≠ ISSUANCE)
    exact hr.balance h hkind (fun _ => isOwnership_iff_keyOf hdepth h.shape)
      (fun _ => isOwnership_iff_keyOf hdepth hr.shape) hown hown'
  · have hkind : ∀ n c, (AssetKey.possession issuer n pk c pk c).kind ≠ ISSUANCE :=
      fun _ _ => (by decide : POSSESSION ≠ ISSUANCE)
    exact hr.balance h hkind (fun _ => isPossession_iff_keyOf hdepth h.shape)
      (fun _ => isPossession_iff_keyOf hdepth hr.shape) hposs hposs'

end Balances

/-! ## The end of an epoch -/

/-- **Holdings survive the end of an epoch.** `assetsEndEpoch` returns, also for a full table, and
leaves a table that satisfies the invariant. A holding is there afterwards exactly if it had shares,
with as many as before; an issuance exactly if its ownerships have shares left. The slot references
point to the moved records, and no balance changes but one of zero. -/
theorem assetsEndEpoch_preserves {depth : Nat} (hdepth : depth ≤ 31) {u : Universe}
    {acc : Accounts} (h : TableInvariant depth u.assets acc) :
    ∃ u' acc', assetsEndEpoch depth u = .ok u' ∧ TableInvariant depth u'.assets acc' ∧
      (∀ K : AssetKey, K.kind ≠ ISSUANCE → sharesOf depth u'.assets K
        = (sharesOf depth u.assets K).filter (fun shares => 0 < shares)) ∧
      (∀ issuer name, (∃ j, slotOfKey depth u'.assets (.issuance issuer name) = some j) ↔
        ∃ i, slotOfKey depth u.assets (.issuance issuer name) = some i ∧
          0 < held depth u.assets OWNERSHIP i) ∧
      (∀ issuer name i j, slotOfKey depth u.assets (.issuance issuer name) = some i →
        slotOfKey depth u'.assets (.issuance issuer name) = some j →
          u'.assets j = u.assets i ∧ acc'.issued j = acc.issued i ∧
            acc'.burned j = acc.burned i) ∧
      (∀ (K : AssetKey) (i j : Nat), K.kind ≠ ISSUANCE →
        slotOfKey depth u.assets K = some i → slotOfKey depth u'.assets K = some j →
          ∃ P, slotOfKey depth u.assets P = some (u.assets i).index.toNat ∧
            slotOfKey depth u'.assets P = some (u'.assets j).index.toNat) ∧
      ∀ (pk issuer : m256i) (assetName : BitVec 64) (manageSCIndex : BitVec 32) (b : Int × Int),
        getAssetBalances depth u.assets pk issuer assetName manageSCIndex = .ok b →
          ∃ b', getAssetBalances depth u'.assets pk issuer assetName manageSCIndex = .ok b' ∧
            (b'.1 = b.1 ∨ b.1 = 0 ∧ b'.1 = -1) ∧ (b'.2 = b.2 ∨ b.2 = 0 ∧ b'.2 = -1) := by
  obtain ⟨R, hR, hm⟩ := reinsertAll_mirrors hdepth h (le_refl (2 ^ depth))
  have hrun : ∃ u', assetsEndEpoch depth u = .ok u' ∧ ∀ i, i < 2 ^ depth → u'.assets i = R i := by
    rw [assetsEndEpoch, hR]
    exact ⟨_, rfl, fun i hi => if_pos hi⟩
  obtain ⟨u', hu', hsame⟩ := hrun
  have hr : Rebuilt depth u.assets u'.assets := (rebuilt_of_mirrors h hm).congr hsame
  obtain ⟨acc', hinv, hacc⟩ := hr.invariant h
  have htwin : ∀ {K : AssetKey} {i j : Nat}, slotOfKey depth u.assets K = some i →
      slotOfKey depth u'.assets K = some j → Twin depth u.assets u'.assets i j :=
    fun hi hj => twin_of_slots h.shape hr.shape hi hj
  refine ⟨u', acc', hu', hinv, fun K hK => hr.sharesOf_eq h.shape hK, ?_, ?_, ?_,
    fun pk issuer name c b hb => hr.balances hdepth h hb⟩
  · intro issuer name
    rw [hr.slot_iff h.shape]
    refine exists_congr (fun i => and_congr_right (fun hi => ?_))
    rw [remaining_issuance (keyOf_kind ((slotOfKey_eq_some h.shape).mp hi).2)]
  · intro issuer name i j hi hj
    have ht := htwin hi hj
    exact ⟨hr.issuance i j ht (keyOf_kind ((slotOfKey_eq_some h.shape).mp hi).2), hacc i j ht⟩
  · intro K i j hK hi hj
    have hkey := ((slotOfKey_eq_some h.shape).mp hi).2
    have hkinds : (u.assets i).type = OWNERSHIP ∨ (u.assets i).type = POSSESSION := by
      rcases keyOf_kinds hkey with ht | ht
      · exact absurd ((keyOf_kind hkey).symm.trans ht) hK
      · exact ht
    obtain ⟨hlt, hlt', P, hP, hP'⟩ := hr.link h.shape (htwin hi hj) hkinds
    exact ⟨P, (slotOfKey_eq_some h.shape).mpr ⟨hlt, hP⟩,
      (slotOfKey_eq_some hr.shape).mpr ⟨hlt', hP'⟩⟩

/-- The theorem at a full table of 8 slots: two issuances, and a transfer of all shares of the first
that leaves an ownership and a possession without shares. -/
theorem assetsEndEpoch_preserves_at_full_table :
    let u₀ : Universe := ⟨fun _ => AssetRecord.empty, fun _ => 0, fun _ => 0⟩
    let acc₀ : Accounts := ⟨fun _ => 0, fun _ => 0⟩
    let calls : List TableCall := [.issueAsset 1 0x41 0 0 100 2, .issueAsset 4 0x42 0 0 7 2,
      .transferBySlot 2 3 (17 : m256i) 100]
    ∃ states u acc, runTableCalls 3 calls u₀ acc₀ = .ok states ∧ (u, acc) ∈ states ∧
      room 3 u.assets = 0 ∧
      ∃ u' acc', assetsEndEpoch 3 u = .ok u' ∧ TableInvariant 3 u'.assets acc' := by
  intro u₀ acc₀ calls
  obtain ⟨states, hstates, hany⟩ := @exists_ok_of_any _ (runTableCalls 3 calls u₀ acc₀)
    (fun states => states.any (fun s => room 3 s.1.assets == 0)) (by decide +kernel)
  obtain ⟨s, hs, hfull⟩ := List.any_eq_true.mp hany
  have hstart : TableInvariant 3 u₀.assets acc₀ := tableInvariant_of_empty (fun _ _ => rfl)
  obtain ⟨states', hstates', _, hinv⟩ :=
    runTableCalls_invariant (by decide) calls hstart (by decide +kernel)
  obtain rfl := Except.ok.inj (hstates.symm.trans hstates')
  obtain ⟨u', acc', hrun, hinv', _⟩ := assetsEndEpoch_preserves (by decide) (hinv s hs)
  exact ⟨states, s.1, s.2, hstates, hs, beq_iff_eq.mp hfull, u', acc', hrun, hinv'⟩

end QubicBob
