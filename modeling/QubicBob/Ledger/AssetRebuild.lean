import QubicBob.Ledger.AssetKeys

set_option autoImplicit false

/-! # Rebuilding the asset table

`assetsEndEpoch` goes through the possessions with shares left and finds or creates, in a new table,
the issuance, the ownership and the possession of each. `Mirrors` is the relation between the two
tables on the way: each record of the new table stands for the same as one of the old table
(`Twin`), at a slot of its own.

There is always a place for the next record, even when the old table is full: the records of the new
table are as many records of the old one, and the next is not among them.
-/

namespace QubicBob

open Probe BitWords Tally

/-! ## Twins -/

/-- Slot `j` of the new table stands for the same as slot `i` of the old one. -/
def Twin (depth : Nat) (A R : Assets) (i j : Nat) : Prop :=
  i < 2 ^ depth ∧ j < 2 ^ depth ∧ ∃ K, keyOf A i = some K ∧ keyOf R j = some K

section Twin

variable {depth : Nat} {A R R' : Assets} {i i' j j' : Nat}

theorem Twin.left (hA : TableShape depth A) (h : Twin depth A R i j) (h' : Twin depth A R i' j) :
    i = i' := by
  obtain ⟨hi, _, K, hKi, hKj⟩ := h
  obtain ⟨hi', _, K', hKi', hKj'⟩ := h'
  rw [hKj, Option.some.injEq] at hKj'
  exact keyOf_inj hA hi hi' hKi (hKj' ▸ hKi')

theorem Twin.right (hR : TableShape depth R) (h : Twin depth A R i j) (h' : Twin depth A R i j') :
    j = j' := by
  obtain ⟨_, hj, K, hKi, hKj⟩ := h
  obtain ⟨_, hj', K', hKi', hKj'⟩ := h'
  rw [hKi, Option.some.injEq] at hKi'
  exact keyOf_inj hR hj hj' hKj (hKi' ▸ hKj')

theorem Twin.keyOf_eq (h : Twin depth A R i j) : keyOf R j = keyOf A i := by
  obtain ⟨_, _, K, hKi, hKj⟩ := h
  rw [hKi, hKj]

theorem Twin.occupied (h : Twin depth A R i j) : (R j).type ≠ EMPTY := by
  obtain ⟨_, _, K, _, hKj⟩ := h
  exact keyOf_type_ne hKj

theorem Twin.type (h : Twin depth A R i j) : (R j).type = (A i).type := by
  obtain ⟨_, _, K, hKi, hKj⟩ := h
  rw [keyOf_kind hKi, keyOf_kind hKj]

/-- A twin stays one when the headers of the new table are kept. -/
theorem Twin.congr (hR : TableShape depth R)
    (hkeep : ∀ k, k < 2 ^ depth → (R k).type ≠ EMPTY → (R' k).header = (R k).header)
    (h : Twin depth A R i j) : Twin depth A R' i j := by
  have hocc := h.occupied
  obtain ⟨hi, hj, K, hKi, hKj⟩ := h
  exact ⟨hi, hj, K, hKi, by rw [keyOf_congr hR hkeep hj hocc, hKj]⟩

/-- When all records of the new table are twins of others than slot `i`, it has an empty slot: there
are fewer than slots. -/
theorem exists_empty_of_missing {moved : Nat → Prop} (hR : TableShape depth R)
    (hsound : ∀ j, j < 2 ^ depth → (R j).type ≠ EMPTY → ∃ i, moved i ∧ Twin depth A R i j)
    (hi : i < 2 ^ depth) (hmoved : ¬ moved i) : ∃ z, z < 2 ^ depth ∧ (R z).type = EMPTY := by
  obtain ⟨z, hz, hempty⟩ : ∃ z, z < 2 ^ depth ∧ ¬ (R z).type ≠ EMPTY := by
    refine @exists_vacant_of_missing _ (fun j => (R j).type ≠ EMPTY)
      (fun j i => Twin depth A R i j) i hi ?_ ?_
    · intro j hj hocc
      obtain ⟨k, hk, ht⟩ := hsound j hj hocc
      refine ⟨k, ht.1, ?_, ht⟩
      rintro rfl
      exact hmoved hk
    · intro j j' k _ _ hj hj'
      exact hj.right hR hj'
  exact ⟨z, hz, not_not.mp hempty⟩

end Twin

/-! ## The new table on the way -/

/-- The new table holds the records of the old one that satisfy `moved`; a holding has got back `W`
shares so far. -/
structure Mirrors (depth : Nat) (A R : Assets) (moved : Nat → Prop) (W : Nat → Int) : Prop where
  shape : TableShape depth R
  sound : ∀ j, j < 2 ^ depth → (R j).type ≠ EMPTY → ∃ i, moved i ∧ Twin depth A R i j
  complete : ∀ i, moved i → ∃ j, Twin depth A R i j
  issuance : ∀ i j, Twin depth A R i j → (A i).type = ISSUANCE → R j = A i
  shares : ∀ i j, Twin depth A R i j → (A i).type ≠ ISSUANCE → (R j).shares = W i
  fresh : ∀ i, ¬ moved i → W i = 0

section Mirrors

variable {depth : Nat} {A R : Assets} {moved : Nat → Prop} {W : Nat → Int} {i j d : Nat}
  {K : AssetKey}

theorem Mirrors.congr {moved' : Nat → Prop} (h : Mirrors depth A R moved W)
    (hiff : ∀ i, moved i ↔ moved' i) : Mirrors depth A R moved' W := by
  have heq : moved = moved' := funext (fun i => propext (hiff i))
  rwa [← heq]

theorem Mirrors.moved_of_twin (hA : TableShape depth A) (h : Mirrors depth A R moved W)
    (ht : Twin depth A R i j) : moved i := by
  obtain ⟨i', hmoved, ht'⟩ := h.sound j ht.2.1 ht.occupied
  rwa [ht.left hA ht']

/-- A record that has not been moved leaves an empty slot for it. -/
theorem Mirrors.exists_empty (h : Mirrors depth A R moved W)
    (hi : i < 2 ^ depth) (hmoved : ¬ moved i) : ∃ z, z < 2 ^ depth ∧ (R z).type = EMPTY :=
  exists_empty_of_missing h.shape h.sound hi hmoved

/-- The probe for a record ends at its twin, or at an empty slot when it has not been moved. -/
theorem Mirrors.probe (h : Mirrors depth A R moved W)
    (hi : i < 2 ^ depth) (hK : keyOf A i = some K) {isKey : Nat → Bool}
    (hkey : ∀ j, j < 2 ^ depth → (isKey j = true ↔ keyOf R j = keyOf A i)) :
    ∃ d, orDiverge (probe (fun j => isEmptySlot R j || isKey j) depth
        (homeSlot depth (A i).publicKey)) = .ok d ∧ d < 2 ^ depth ∧
      (isEmptySlot R d = false ∧ Twin depth A R i d ∨
        isEmptySlot R d = true ∧ ¬ moved i ∧ Reachable depth R (A i).publicKey d ∧
          ∀ j, j < 2 ^ depth → keyOf R j ≠ some K) := by
  have htwin : ∀ j, j < 2 ^ depth → isKey j = true → Twin depth A R i j :=
    fun j hj hc => ⟨hi, hj, K, hK, by rw [(hkey j hj).mp hc, hK]⟩
  obtain ⟨z, hz, hstops⟩ : ∃ z, z < 2 ^ depth ∧ (isEmptySlot R z = true ∨ isKey z = true) := by
    by_cases hmoved : moved i
    · obtain ⟨j, ht⟩ := h.complete i hmoved
      exact ⟨j, ht.2.1, Or.inr ((hkey j ht.2.1).mpr ht.keyOf_eq)⟩
    · obtain ⟨z, hz, hempty⟩ := h.exists_empty hi hmoved
      exact ⟨z, hz, Or.inl (isEmptySlot_iff.mpr hempty)⟩
  have hhome := homeSlot_lt depth (A i).publicKey
  have hreach : ∀ j, j < 2 ^ depth → isKey j = true →
      Reach (fun k => isEmptySlot R k = false) (2 ^ depth) (homeSlot depth (A i).publicKey) j := by
    intro j hj hc
    have ht := htwin j hj hc
    have hr := h.shape.reach j hj ht.occupied
    obtain ⟨_, _, K', hKi, hKj⟩ := ht
    rwa [keyOf_publicKey hKj, ← keyOf_publicKey hKi] at hr
  obtain ⟨d, hd, hlt, hcases⟩ := probe_complete hhome hz hstops hreach
  refine ⟨d, orDiverge_eq_ok.mpr hd, hlt, ?_⟩
  rcases hcases with hc | ⟨hempty, habsent⟩
  · have ht := htwin d hlt hc
    exact Or.inl ⟨isEmptySlot_false_iff.mpr ht.occupied, ht⟩
  · refine Or.inr ⟨hempty, ?_, ?_, ?_⟩
    · intro hmoved
      obtain ⟨j, ht⟩ := h.complete i hmoved
      exact absurd (((hkey j ht.2.1).mpr ht.keyOf_eq).symm.trans (habsent j ht.2.1)) (by decide)
    · refine (probe_reach hhome hd).mono ?_ (Nat.two_pow_pos depth)
      intro k _ hk
      exact (Bool.or_eq_false_iff.mp hk).1
    · intro j hj hc
      have hyes := (hkey j hj).mpr (hc.trans hK.symm)
      exact absurd (hyes.symm.trans (habsent j hj)) (by decide)

/-- A record that is missing is written into an empty slot on its chain. -/
theorem Mirrors.insert (hA : TableShape depth A) (h : Mirrors depth A R moved W)
    (hi : i < 2 ^ depth) (hK : keyOf A i = some K) {r : AssetRecord} (hd : d < 2 ^ depth)
    (hempty : (R d).type = EMPTY) (hmoved : ¬ moved i)
    (hreach : Reachable depth R r.publicKey d)
    (habsent : ∀ j, j < 2 ^ depth → keyOf R j ≠ some K) (hlink : r.Linked depth R)
    (hnew : keyOf (Function.update R d r) d = some K)
    (hissuance : (A i).type = ISSUANCE → r = A i)
    (hshares : (A i).type ≠ ISSUANCE → r.shares = 0) :
    Mirrors depth A (Function.update R d r) (fun k => moved k ∨ k = i) W ∧
      Twin depth A (Function.update R d r) i d ∧
      ∀ k j, Twin depth A R k j → Twin depth A (Function.update R d r) k j := by
  have hr : r.type ≠ EMPTY := by
    have hne := keyOf_type_ne hnew
    rwa [Function.update_self] at hne
  have hkeep : ∀ k, k < 2 ^ depth → (R k).type ≠ EMPTY →
      (Function.update R d r k).header = (R k).header := by
    intro k _ hk
    rw [Function.update_of_ne]
    rintro rfl
    exact hk hempty
  have htwin : Twin depth A (Function.update R d r) i d := ⟨hi, hd, K, hK, hnew⟩
  -- the other records are twins of what they were twins of before
  have hold : ∀ k j, j ≠ d → Twin depth A (Function.update R d r) k j → Twin depth A R k j := by
    intro k j hj ht
    have hocc := ht.occupied
    rw [Function.update_of_ne hj] at hocc
    obtain ⟨hk, hlt, K', hKk, hKj⟩ := ht
    exact ⟨hk, hlt, K', hKk, by rw [← keyOf_congr h.shape hkeep hlt hocc, hKj]⟩
  have hself : ∀ k j, j = d → Twin depth A (Function.update R d r) k j → k = i := by
    intro k j hj ht
    rw [hj] at ht
    exact ht.left hA htwin
  refine ⟨?_, htwin, fun k j ht => ht.congr h.shape hkeep⟩
  constructor
  case shape =>
    refine h.shape.insert hempty hr hlink hreach ?_
    intro j hj hsame
    have hocc := hsame.type_ne
    have hjd : j ≠ d := by
      rintro rfl
      exact hocc hempty
    refine habsent j hj ?_
    have hkeys : keyOf (Function.update R d r) d = keyOf (Function.update R d r) j := by
      refine keyOf_of_sameKey ?_
      rw [Function.update_self, Function.update_of_ne hjd]
      exact hsame
    rw [← keyOf_congr h.shape hkeep hj hocc, ← hkeys, hnew]
  case sound =>
    intro j hj hocc
    by_cases hjd : j = d
    · exact ⟨i, Or.inr rfl, hjd ▸ htwin⟩
    · rw [Function.update_of_ne hjd] at hocc
      obtain ⟨k, hk, ht⟩ := h.sound j hj hocc
      exact ⟨k, Or.inl hk, ht.congr h.shape hkeep⟩
  case complete =>
    rintro k (hk | rfl)
    · obtain ⟨j, ht⟩ := h.complete k hk
      exact ⟨j, ht.congr h.shape hkeep⟩
    · exact ⟨d, htwin⟩
  case issuance =>
    intro k j ht hk
    by_cases hjd : j = d
    · obtain rfl := hself k j hjd ht
      rw [hjd, Function.update_self]
      exact hissuance hk
    · rw [Function.update_of_ne hjd]
      exact h.issuance k j (hold k j hjd ht) hk
  case shares =>
    intro k j ht hk
    by_cases hjd : j = d
    · obtain rfl := hself k j hjd ht
      rw [hjd, Function.update_self, hshares hk, h.fresh k hmoved]
    · rw [Function.update_of_ne hjd]
      exact h.shares k j (hold k j hjd ht) hk
  case fresh =>
    intro k hk
    exact h.fresh k (fun hc => hk (Or.inl hc))

/-- A record found needs not be written. -/
theorem Mirrors.found (hA : TableShape depth A) (h : Mirrors depth A R moved W)
    (ht : Twin depth A R i j) : Mirrors depth A R (fun k => moved k ∨ k = i) W := by
  have hmoved := h.moved_of_twin hA ht
  refine h.congr (fun k => ⟨Or.inl, ?_⟩)
  rintro (hk | rfl)
  · exact hk
  · exact hmoved

/-- A holding gets back `s` more shares. -/
theorem Mirrors.add (hA : TableShape depth A) (h : Mirrors depth A R moved W)
    (ht : Twin depth A R i d) (htype : (A i).type ≠ ISSUANCE) {s : BitVec 64} (hs : 0 ≤ s.toInt)
    (hW : 0 ≤ W i) (hfit : W i + s.toInt < 2 ^ 63) :
    Mirrors depth A (Function.update R d ((R d).addShares s)) moved
        (Function.update W i (W i + s.toInt)) ∧
      ∀ k j, Twin depth A R k j → Twin depth A (Function.update R d ((R d).addShares s)) k j := by
  have hreshare : Function.update R d ((R d).addShares s)
      = reshare R d ((R d).numberOfShares + s) := rfl
  have hheader : ∀ k, (reshare R d ((R d).numberOfShares + s) k).header = (R k).header :=
    reshare_header
  have htwins : ∀ k j, Twin depth A R k j →
      Twin depth A (reshare R d ((R d).numberOfShares + s)) k j :=
    fun k j hk => hk.congr h.shape (fun l _ _ => hheader l)
  have hshape : TableShape depth (reshare R d ((R d).numberOfShares + s)) :=
    h.shape.reshare ht.occupied
  have hold : ∀ k j, Twin depth A (reshare R d ((R d).numberOfShares + s)) k j →
      Twin depth A R k j := fun k j hk => hk.congr hshape (fun l _ _ => (hheader l).symm)
  have hnew : ((R d).numberOfShares + s).toInt = W i + s.toInt := by
    have hsum := h.shares i d ht htype
    unfold AssetRecord.shares at hsum
    rw [← hsum]
    exact toInt_add_of_lt (by omega) hs (by omega)
  rw [hreshare]
  refine ⟨?_, htwins⟩
  constructor
  case shape => exact hshape
  case sound =>
    intro j hj hocc
    rw [reshare_type] at hocc
    obtain ⟨k, hk, hkj⟩ := h.sound j hj hocc
    exact ⟨k, hk, htwins k j hkj⟩
  case complete =>
    intro k hk
    obtain ⟨j, hkj⟩ := h.complete k hk
    exact ⟨j, htwins k j hkj⟩
  case issuance =>
    intro k j hkj hk
    have hjd : j ≠ d := by
      rintro rfl
      exact htype ((hold k j hkj).left hA ht ▸ hk)
    rw [reshare, Function.update_of_ne hjd]
    exact h.issuance k j (hold k j hkj) hk
  case shares =>
    intro k j hkj hk
    rw [reshare_shares]
    by_cases hjd : j = d
    · rw [hjd] at hkj
      rw [if_pos hjd, hnew, (hold k d hkj).left hA ht, Function.update_self]
    · have hki : k ≠ i := by
        rintro rfl
        exact hjd ((hold k j hkj).right h.shape ht)
      rw [if_neg hjd, Function.update_of_ne hki]
      exact h.shares k j (hold k j hkj) hk
  case fresh =>
    intro k hk
    have hki : k ≠ i := by
      rintro rfl
      exact hk (h.moved_of_twin hA ht)
    rw [Function.update_of_ne hki]
    exact h.fresh k hk

/-- Find or create the issuance in slot `x` of the old table. -/
theorem Mirrors.openIssuance (hA : TableShape depth A) (h : Mirrors depth A R moved W)
    (hi : i < 2 ^ depth) (ht : (A i).type = ISSUANCE) :
    ∃ d, probeIssuance depth R (A i).publicKey ((A i).name.zeroExtend 64) = .ok d ∧
      Mirrors depth A (if isEmptySlot R d then Function.update R d (A i) else R)
        (fun k => moved k ∨ k = i) W ∧
      Twin depth A (if isEmptySlot R d then Function.update R d (A i) else R) i d ∧
      ∀ k j, Twin depth A R k j →
        Twin depth A (if isEmptySlot R d then Function.update R d (A i) else R) k j := by
  have hK := keyOf_issuance ht
  obtain ⟨d, hprobe, hd, hcases⟩ := h.probe hi hK (fun j _ => isIssuance_iff_keyOf ht)
  refine ⟨d, hprobe, ?_⟩
  rcases hcases with ⟨hocc, htwin⟩ | ⟨hempty, hmoved, hreach, habsent⟩
  · rw [if_neg (by rw [hocc]; simp)]
    exact ⟨h.found hA htwin, htwin, fun _ _ hk => hk⟩
  · rw [if_pos hempty]
    refine h.insert hA hi hK hd (isEmptySlot_iff.mp hempty) hmoved hreach habsent ?_ ?_
      (fun _ => rfl) (fun hc => absurd ht hc)
    · refine ⟨fun hc => ?_, fun hc => ?_⟩
      · rw [ht] at hc
        exact absurd hc (by decide)
      · rw [ht] at hc
        exact absurd hc (by decide)
    · rw [keyOf_issuance (by rw [Function.update_self, ht]), Function.update_self]

/-- Find or create a holding, under the twin `l` of the record it points to. -/
theorem Mirrors.openHolding (hdepth : depth ≤ 31) (hA : TableShape depth A)
    (h : Mirrors depth A R moved W) {kind : BitVec 8}
    (hkind : kind = OWNERSHIP ∨ kind = POSSESSION) (hi : i < 2 ^ depth) (ht : (A i).type = kind)
    {l : Nat} (hl : Twin depth A R (A i).index.toNat l) :
    ∃ d, probeHolding depth R kind (A i).publicKey (A i).managingContractIndex (BitVec.ofNat 32 l)
        = .ok d ∧
      Mirrors depth A (if isEmptySlot R d then Function.update R d ((R d).holding kind
        (A i).publicKey (A i).managingContractIndex l) else R) (fun k => moved k ∨ k = i) W ∧
      Twin depth A (if isEmptySlot R d then Function.update R d ((R d).holding kind
        (A i).publicKey (A i).managingContractIndex l) else R) i d ∧
      ∀ k j, Twin depth A R k j → Twin depth A (if isEmptySlot R d then Function.update R d
        ((R d).holding kind (A i).publicKey (A i).managingContractIndex l) else R) k j := by
  have hlt := hl.2.1
  have hround : (BitVec.ofNat 32 l).toNat = l := toNat_slot hdepth hlt
  have htOP : (A i).type = OWNERSHIP ∨ (A i).type = POSSESSION := by rwa [ht]
  obtain ⟨K, hK⟩ : ∃ K, keyOf A i = some K := exists_keyOf (Or.inr htOP)
  obtain ⟨d, hprobe, hd, hcases⟩ := h.probe hi hK (fun j hj =>
    isHolding_iff_keyOf hdepth h.shape hA hkind hj hlt hi ht hK hl.keyOf_eq)
  refine ⟨d, hprobe, ?_⟩
  rcases hcases with ⟨hocc, htwin⟩ | ⟨hempty, hmoved, hreach, habsent⟩
  · rw [if_neg (by rw [hocc]; simp)]
    exact ⟨h.found hA htwin, htwin, fun _ _ hk => hk⟩
  rw [if_pos hempty]
  rw [isEmptySlot_iff] at hempty
  obtain ⟨r, hr⟩ : ∃ r, r = (R d).holding kind (A i).publicKey (A i).managingContractIndex l :=
    ⟨_, rfl⟩
  have hindex : r.index.toNat = l := by
    rw [hr]
    exact hround
  -- the new record points to a record of the kind it needs
  have hlink : r.Linked depth R := by
    have hlinkA := hA.linked i hi
    rw [hr]
    rcases hkind with rfl | rfl
    · exact AssetRecord.linked_ownership hround ⟨hlt, by rw [hl.type, (hlinkA.1 ht).2]⟩
    · exact AssetRecord.linked_possession hround ⟨hlt, by rw [hl.type, (hlinkA.2 ht).2]⟩
  have hkeep : ∀ k, k < 2 ^ depth → (R k).type ≠ EMPTY → Function.update R d r k = R k := by
    intro k _ hk
    refine Function.update_of_ne ?_ _ _
    rintro rfl
    exact hk hempty
  have hnew : keyOf (Function.update R d r) d = some K := by
    have hlinked : (Function.update R d r d).Linked depth (Function.update R d r) := by
      rw [Function.update_self]
      exact hlink.mono (fun k hk hocc => by rw [hkeep k hk hocc])
    have htype : r.type = OWNERSHIP ∨ r.type = POSSESSION := by
      rw [hr]
      exact hkind
    have hlinkKey : keyOf (Function.update R d r) l = keyOf A (A i).index.toNat := by
      rw [keyOf_congr h.shape (fun k hk hocc => by rw [hkeep k hk hocc]) hlt hl.occupied,
        hl.keyOf_eq]
    rw [keyOf_of_linked hlinked (by rw [Function.update_self]; exact htype), Function.update_self,
      hindex, hlinkKey, ← hK, hA.keyOf_holding hi htOP, hr]
    rfl
  rw [← hr]
  refine h.insert hA hi hK hd hempty hmoved ?_ habsent hlink hnew ?_ ?_
  · rw [hr]
    exact hreach
  · intro hc
    rw [hc] at htOP
    exact absurd htOP (by decide)
  · intro _
    rw [hr, h.shape.empty d hd hempty]
    rfl

/-- The body of the loop, for a possession with shares left. -/
theorem Mirrors.reinsert (hdepth : depth ≤ 31) (hA : TableShape depth A)
    (h : Mirrors depth A R moved W) {p o x : Nat} (hp : p < 2 ^ depth)
    (ht : (A p).type = POSSESSION) (ho : (A p).index.toNat = o) (hx : (A o).index.toNat = x)
    (hs : 0 < (A p).shares) (hWo : 0 ≤ W o) (hWp : 0 ≤ W p)
    (hfitO : W o + (A p).shares < 2 ^ 63) (hfitP : W p + (A p).shares < 2 ^ 63) :
    ∃ R', reinsert depth A R p = .ok R' ∧
      Mirrors depth A R' (fun k => ((moved k ∨ k = x) ∨ k = o) ∨ k = p)
        (Function.update (Function.update W o (W o + (A p).shares)) p (W p + (A p).shares)) := by
  obtain ⟨holt, htO⟩ := (hA.linked p hp).2 ht
  rw [ho] at holt htO
  obtain ⟨hxlt, htX⟩ := (hA.linked o holt).1 htO
  rw [hx] at hxlt htX
  have hop : o ≠ p := by
    rintro rfl
    exact absurd (htO.symm.trans ht) (by decide)
  have hsn : (A p).shares = (A p).numberOfShares.toInt := rfl
  -- the issuance
  obtain ⟨dX, hprobeX, m₁, tX, -⟩ := h.openIssuance hA hxlt htX
  obtain ⟨R₁, hR₁⟩ : ∃ t, t = if isEmptySlot R dX then Function.update R dX (A x) else R := ⟨_, rfl⟩
  rw [← hR₁] at m₁ tX
  -- the ownership, and its shares
  obtain ⟨dO, hprobeO, m₂, tO, -⟩ := m₁.openHolding hdepth hA (Or.inl rfl) holt htO (hx ▸ tX)
  obtain ⟨R₂, hR₂⟩ : ∃ t, t = if isEmptySlot R₁ dO then Function.update R₁ dO
    ((R₁ dO).holding OWNERSHIP (A o).publicKey (A o).managingContractIndex dX) else R₁ := ⟨_, rfl⟩
  rw [← hR₂] at m₂ tO
  obtain ⟨m₃, keep₃⟩ := m₂.add (s := (A p).numberOfShares) hA tO (by rw [htO]; decide)
    (by omega) hWo (by omega)
  obtain ⟨R₃, hR₃⟩ : ∃ t, t = Function.update R₂ dO ((R₂ dO).addShares (A p).numberOfShares) :=
    ⟨_, rfl⟩
  rw [← hR₃] at m₃ keep₃
  -- the possession, and its shares
  obtain ⟨dP, hprobeP, m₄, tP, -⟩ := m₃.openHolding hdepth hA (Or.inr rfl) hp ht
    (ho ▸ keep₃ o dO tO)
  obtain ⟨R₄, hR₄⟩ : ∃ t, t = if isEmptySlot R₃ dP then Function.update R₃ dP
    ((R₃ dP).holding POSSESSION (A p).publicKey (A p).managingContractIndex dO) else R₃ := ⟨_, rfl⟩
  rw [← hR₄] at m₄ tP
  have hWp' : Function.update W o (W o + (A p).numberOfShares.toInt) p = W p :=
    Function.update_of_ne hop.symm _ _
  obtain ⟨m₅, -⟩ := m₄.add (s := (A p).numberOfShares) hA tP (by rw [ht]; decide)
    (by omega) (by rw [hWp']; exact hWp) (by rw [hWp']; omega)
  rw [hWp'] at m₅
  refine ⟨_, ?_, m₅⟩
  have hslotO : slotOf depth (A p).index.toNat = .ok o :=
    slotOf_eq_ok.mpr ⟨by rw [ho], holt⟩
  have hslotX : slotOf depth (A o).index.toNat = .ok x :=
    slotOf_eq_ok.mpr ⟨by rw [hx], hxlt⟩
  rw [QubicBob.reinsert, hslotO]
  simp only [bind, Except.bind, hslotX, hprobeX]
  rw [← hR₁, hprobeO]
  simp only
  rw [← hR₂, ← hR₃, hprobeP]
  simp only
  rw [← hR₄]
  rfl

end Mirrors

end QubicBob
