import QubicBob.Digest.SpectrumDigest
import QubicBob.Ledger.Asset

set_option autoImplicit false

/-! # The universe digest

`getUniverseDigest` keeps the hash tree over the asset table. Here the writers mark the slots they
touch in `assetChangeFlags`, and the incremental mode rehashes the marked leaves and their
ancestors. The invariant of a run is `Universe.Tracked`: the stored tree is consistent, and the
leaf of every unmarked slot is the hash of its record. The mutators keep it because they mark what
they write (`Covers`), and a digest call turns it into a complete tree.
-/

namespace QubicBob

open BitWords HashTree

section Digest

variable (K : KangarooTwelve) (depth : Nat)

/-- The leaf of a slot: the hash of the 48 bytes of its record. -/
def assetDigest (assets : Assets) (i : Nat) : m256i := K.hash32 (assets i).bytes

/-- The level loops on rehashed leaves, and the root. -/
def Universe.refreshTree (u : Universe) (leaves : (Nat → m256i) × Words) : Universe × m256i :=
  let tree := refresh (kangarooTwelve64To32 K) depth leaves.1 leaves.2
  ({ u with assetDigests := tree.1, assetChangeFlags := tree.2 }, tree.1 (2 * 2 ^ depth - 1 - 1))

/-- The ticks only select the mode. -/
def getUniverseDigest (tickStart : BitVec 32) (_tickEnd : BitVec 32) (u : Universe) :
    Universe × m256i :=
  if tickStart ≠ UINT32_MAX then
    u.refreshTree K depth
      (rehash (fun i => getBit u.assetChangeFlags i) (assetDigest K u.assets) (2 ^ depth)
        u.assetDigests, u.assetChangeFlags)
  else
    u.refreshTree K depth
      (rehashAndMark (fun _ => true) (assetDigest K u.assets) (2 ^ depth) u.assetDigests
        u.assetChangeFlags)

/-- What a digest call leaves behind: the root of the tree over the current table, every node the
hash of its children, and no flag. -/
structure Universe.Digested (u : Universe) (root : m256i) : Prop where
  root_eq : root = HashTree.root (kangarooTwelve64To32 K) (assetDigest K u.assets) depth
  leaves : ∀ i, i < 2 ^ depth → u.assetDigests i = assetDigest K u.assets i
  nodes : Valid (kangarooTwelve64To32 K) (2 ^ depth) u.assetDigests
  flags : ∀ w, w < 2 ^ depth / 64 → u.assetChangeFlags w = 0#64

/-- The invariant between digest calls. -/
structure Universe.Tracked (u : Universe) : Prop where
  valid : Valid (kangarooTwelve64To32 K) (2 ^ depth) u.assetDigests
  leaves : ∀ i, i < 2 ^ depth → getBit u.assetChangeFlags i = false →
    u.assetDigests i = assetDigest K u.assets i

variable {K depth}

theorem Universe.Digested.tracked {u : Universe} {root : m256i} (h : u.Digested K depth root) :
    u.Tracked K depth :=
  ⟨h.nodes, fun i hi _ => h.leaves i hi⟩

theorem Universe.refreshTree_digested (hdepth : 6 ≤ depth) {u : Universe}
    {leaves : (Nat → m256i) × Words}
    (hr : Refreshed (kangarooTwelve64To32 K) depth leaves.1
      (refresh (kangarooTwelve64To32 K) depth leaves.1 leaves.2))
    (hleaf : ∀ i, i < 2 ^ depth → leaves.1 i = assetDigest K u.assets i) :
    (u.refreshTree K depth leaves).1.Digested K depth (u.refreshTree K depth leaves).2 := by
  have hl : ∀ i, i < 2 ^ depth →
      (refresh (kangarooTwelve64To32 K) depth leaves.1 leaves.2).1 i = assetDigest K u.assets i :=
    fun i hi => (hr.leaves i hi).trans (hleaf i hi)
  exact ⟨Valid.root_eq _ hr.valid hl, hl, hr.valid, Refreshed.word_eq_zero hr hdepth⟩

/-- The full mode computes the tree whatever was stored before. -/
theorem getUniverseDigest_full (hdepth : 6 ≤ depth) (b : BitVec 32) (u : Universe) :
    (getUniverseDigest K depth UINT32_MAX b u).1.Digested K depth
      (getUniverseDigest K depth UINT32_MAX b u).2 := by
  rw [getUniverseDigest, if_neg (by simp)]
  apply Universe.refreshTree_digested hdepth
  · apply refresh_of_all
    intro i hi
    rw [rehashAndMark_flags]
    simp [hi]
  · intro i hi
    rw [rehashAndMark_nodes, rehash_apply, if_pos ⟨hi, rfl⟩]

/-- The incremental mode completes a tracked tree. -/
theorem getUniverseDigest_incremental (hdepth : 6 ≤ depth) {a b : BitVec 32} {u : Universe}
    (ha : a ≠ UINT32_MAX) (h : u.Tracked K depth) :
    (getUniverseDigest K depth a b u).1.Digested K depth (getUniverseDigest K depth a b u).2 := by
  rw [getUniverseDigest, if_pos ha]
  apply Universe.refreshTree_digested hdepth
  · refine refresh_of_valid _ h.valid ?_ ?_
    · intro x hx
      show rehash _ _ _ _ x = _
      rw [rehash_apply, if_neg (by omega)]
    · intro x hx hbit
      show rehash _ _ _ _ x = _
      rw [rehash_apply, if_neg]
      rintro ⟨_, hset⟩
      exact absurd (hset.symm.trans hbit) (by simp)
  · intro i hi
    show rehash _ _ _ _ i = _
    rw [rehash_apply]
    by_cases hbit : getBit u.assetChangeFlags i = true
    · rw [if_pos ⟨hi, hbit⟩]
    · rw [if_neg (fun hc => hbit hc.2)]
      exact h.leaves i hi (by simpa using hbit)

/-! ## The mutators mark what they write -/

/-- From `u` to `u'` no digest is touched, no flag is lost, and every changed slot is marked. -/
structure Covers (depth : Nat) (u u' : Universe) : Prop where
  digests : u'.assetDigests = u.assetDigests
  marked : ∀ i, i < 2 ^ depth → getBit u'.assetChangeFlags i = false →
    u'.assets i = u.assets i ∧ getBit u.assetChangeFlags i = false

section Covers

variable {u u' u'' : Universe}

theorem Covers.refl (u : Universe) : Covers depth u u := ⟨rfl, fun _ _ h => ⟨rfl, h⟩⟩

theorem Covers.trans (h : Covers depth u u') (h' : Covers depth u' u'') : Covers depth u u'' := by
  refine ⟨h'.digests.trans h.digests, ?_⟩
  intro i hi hbit
  obtain ⟨heq', hbit'⟩ := h'.marked i hi hbit
  obtain ⟨heq, hbit₀⟩ := h.marked i hi hbit'
  exact ⟨heq'.trans heq, hbit₀⟩

theorem Covers.tracked (h : Covers depth u u') (ht : u.Tracked K depth) : u'.Tracked K depth := by
  refine ⟨by rw [h.digests]; exact ht.valid, ?_⟩
  intro i hi hbit
  obtain ⟨heq, hbit₀⟩ := h.marked i hi hbit
  rw [h.digests, ht.leaves i hi hbit₀, assetDigest, assetDigest, heq]

@[simp] theorem Universe.mark_digests (u : Universe) (i : Nat) :
    (u.mark i).assetDigests = u.assetDigests := rfl

@[simp] theorem Universe.getBit_mark (u : Universe) (i j : Nat) :
    getBit (u.mark i).assetChangeFlags j = (decide (j = i) || getBit u.assetChangeFlags j) :=
  getBit_setBit _ _ _

/-- Marking can only add marks. -/
theorem Covers.mark (h : Covers depth u u') (i : Nat) : Covers depth u (u'.mark i) := by
  refine ⟨h.digests, ?_⟩
  intro j hj hbit
  rw [Universe.getBit_mark, Bool.or_eq_false_iff] at hbit
  exact h.marked j hj hbit.2

theorem issueAsset_covers {issuer : m256i} {name : BitVec 56} {d : BitVec 8} {unit : BitVec 56}
    {n : BitVec 64} {c : BitVec 16} {r : IssueResult}
    (h : issueAsset depth u issuer name d unit n c = .ok (u', r)) : Covers depth u u' := by
  rcases issueAsset_cases h with ⟨i, rfl, _⟩ | ⟨iss, own, poss, _, _, _, _, _, rfl⟩
  · exact Covers.refl _
  · refine ⟨rfl, ?_⟩
    intro i _ hbit
    simp only [Universe.getBit_mark, Bool.or_eq_false_iff, decide_eq_false_iff_not] at hbit
    obtain ⟨hposs, hown, hiss, hflag⟩ := hbit
    refine ⟨?_, hflag⟩
    show issuedAssets u.assets issuer name d unit n c iss own poss i = u.assets i
    unfold issuedAssets
    rw [Function.update_of_ne hposs, Function.update_of_ne hown, Function.update_of_ne hiss]

theorem moveShares_covers {own poss : Nat} {ok pk : m256i} {oc pc : BitVec 16} {n : BitVec 64}
    {r : TransferResult} (h : moveShares depth u own poss ok oc pk pc n = .ok (u', r)) :
    Covers depth u u' := by
  obtain ⟨dOwn, dPoss, _, _, _, rfl⟩ := moveShares_cases h
  refine ⟨rfl, ?_⟩
  intro i _ hbit
  simp only [Universe.getBit_mark, Bool.or_eq_false_iff, decide_eq_false_iff_not] at hbit
  obtain ⟨hdPoss, hdOwn, hposs, hown, hflag⟩ := hbit
  refine ⟨?_, hflag⟩
  show moveBetween _ poss dPoss POSSESSION pk pc dOwn n i = u.assets i
  rw [moveBetween_frame hposs hdPoss, moveBetween_frame hown hdOwn]

theorem burnShares_covers {own poss : Nat} {n : BitVec 64} {r : TransferResult}
    (h : burnShares depth u own poss n = .ok (u', r)) : Covers depth u u' := by
  rcases burnShares_cases h with ⟨rfl, _⟩ | ⟨_, assets, hassets, rfl⟩
  · exact Covers.refl _
  · refine ⟨rfl, ?_⟩
    intro i _ hbit
    simp only [Universe.getBit_mark, Bool.or_eq_false_iff, decide_eq_false_iff_not] at hbit
    obtain ⟨hposs, hown, hflag⟩ := hbit
    refine ⟨?_, hflag⟩
    show Function.update assets poss _ i = u.assets i
    rw [Function.update_of_ne hposs, hassets, Function.update_of_ne hown]

theorem transferShareOwnershipAndPossession_covers {a b : Int} {key : m256i} {n : BitVec 64}
    {r : TransferResult} (h : transferShareOwnershipAndPossession depth u a b key n = .ok (u', r)) :
    Covers depth u u' := by
  rcases transferShareOwnershipAndPossession_cases h with
    ⟨rfl, _⟩ | ⟨own, poss, _, _, _, _, ⟨_, hb⟩ | ⟨_, hm⟩⟩
  · exact Covers.refl _
  · exact burnShares_covers hb
  · exact moveShares_covers hm

theorem transferShareManagementRights_covers {a b : Int} {oc pc : BitVec 16} {n : BitVec 64}
    {r : TransferResult} (h : transferShareManagementRights depth u a b oc pc n = .ok (u', r)) :
    Covers depth u u' := by
  rcases transferShareManagementRights_cases h with ⟨rfl, _⟩ | ⟨own, poss, _, _, _, _, hm⟩
  · exact Covers.refl _
  · exact moveShares_covers hm

theorem transferByKey_covers {name : BitVec 64} {issuer owner possessor : m256i} {n c : BitVec 64}
    {key : m256i} {r : KeyTransferResult}
    (h : transferShareOwnershipAndPossessionByKey depth u name issuer owner possessor n c key
      = .ok (u', r)) : Covers depth u u' := by
  rcases transferByKey_cases h with ⟨rfl, _⟩ | ⟨own, poss, t, h', _⟩
  · exact Covers.refl _
  · exact transferShareOwnershipAndPossession_covers h'

/-- The rebuild at the end of an epoch marks every slot. -/
theorem assetsEndEpoch_covers (hdepth : 6 ≤ depth) (h : assetsEndEpoch depth u = .ok u') :
    Covers depth u u' := by
  rw [assetsEndEpoch, bind_eq_ok] at h
  obtain ⟨reorg, _, h⟩ := h
  rw [← Except.ok.inj h]
  refine ⟨rfl, ?_⟩
  intro i hi hbit
  have hdvd : 64 ∣ 2 ^ depth := pow_dvd_pow 2 hdepth
  have hw : i / 64 < 2 ^ depth / 64 := by omega
  rw [getBit_eq] at hbit
  simp only [hw, if_true, BitVec.getLsbD_allOnes] at hbit
  have hlt : i % 64 < 64 := Nat.mod_lt _ (by decide)
  simp [hlt] at hbit

end Covers

/-! ## Runs -/

/-- The calls a run is made of. -/
inductive UniverseCall where
  | issueAsset (issuer : m256i) (name : BitVec 56) (decimals : BitVec 8) (unit : BitVec 56)
      (numberOfShares : BitVec 64) (contract : BitVec 16)
  | transferBySlot (own poss : Int) (destination : m256i) (numberOfShares : BitVec 64)
  | transferByKey (assetName : BitVec 64) (issuer owner possessor : m256i)
      (numberOfShares contract : BitVec 64) (destination : m256i)
  | managementRights (own poss : Int) (ownershipContract possessionContract : BitVec 16)
      (numberOfShares : BitVec 64)
  | endEpoch
  | incrementalDigest (tickStart tickEnd : BitVec 32) (h : tickStart ≠ UINT32_MAX)

def UniverseCall.run (K : KangarooTwelve) (depth : Nat) (u : Universe) :
    UniverseCall → Except Halt Universe
  | .issueAsset issuer name d unit n c =>
      (QubicBob.issueAsset depth u issuer name d unit n c).map Prod.fst
  | .transferBySlot own poss key n =>
      (transferShareOwnershipAndPossession depth u own poss key n).map Prod.fst
  | .transferByKey name issuer owner possessor n c key =>
      (transferShareOwnershipAndPossessionByKey depth u name issuer owner possessor n c key).map
        Prod.fst
  | .managementRights own poss oc pc n =>
      (transferShareManagementRights depth u own poss oc pc n).map Prod.fst
  | .endEpoch => assetsEndEpoch depth u
  | .incrementalDigest a b _ => pure (getUniverseDigest K depth a b u).1

def runUniverseCalls (K : KangarooTwelve) (depth : Nat) :
    List UniverseCall → Universe → Except Halt Universe
  | [], u => pure u
  | c :: cs, u => do
      let u ← c.run K depth u
      runUniverseCalls K depth cs u

/-- Every call of a run keeps the tree tracked. -/
theorem UniverseCall.run_tracked (hdepth : 6 ≤ depth) {u u' : Universe} {c : UniverseCall}
    (ht : u.Tracked K depth) (h : c.run K depth u = .ok u') : u'.Tracked K depth := by
  cases c with
  | issueAsset issuer name d unit n c =>
      obtain ⟨r, h⟩ := map_fst_eq_ok h
      exact (issueAsset_covers h).tracked ht
  | transferBySlot own poss key n =>
      obtain ⟨r, h⟩ := map_fst_eq_ok h
      exact (transferShareOwnershipAndPossession_covers h).tracked ht
  | transferByKey name issuer owner possessor n c key =>
      obtain ⟨r, h⟩ := map_fst_eq_ok h
      exact (transferByKey_covers h).tracked ht
  | managementRights own poss oc pc n =>
      obtain ⟨r, h⟩ := map_fst_eq_ok h
      exact (transferShareManagementRights_covers h).tracked ht
  | endEpoch => exact (assetsEndEpoch_covers hdepth h).tracked ht
  | incrementalDigest a b ha =>
      rw [← Except.ok.inj h]
      exact (getUniverseDigest_incremental hdepth ha ht).tracked

theorem runUniverseCalls_tracked (hdepth : 6 ≤ depth) (cs : List UniverseCall) :
    ∀ {u u' : Universe}, u.Tracked K depth → runUniverseCalls K depth cs u = .ok u' →
      u'.Tracked K depth := by
  induction cs with
  | nil =>
      intro u u' ht h
      rw [← Except.ok.inj h]
      exact ht
  | cons c cs ih =>
      intro u u' ht h
      rw [runUniverseCalls, bind_eq_ok] at h
      obtain ⟨u₁, h₁, h₂⟩ := h
      exact ih (UniverseCall.run_tracked hdepth ht h₁) h₂

/-- **Incremental equals full.** After one full digest, and any sequence of calls that all return,
an incremental digest returns the root of the tree over the current table, leaves every node the
hash of its two children, and no flag set. -/
theorem universeDigest_incremental_eq_full (hdepth : 6 ≤ depth) (u₀ : Universe)
    (fullEnd : BitVec 32) (cs : List UniverseCall) {u : Universe}
    (hrun : runUniverseCalls K depth cs (getUniverseDigest K depth UINT32_MAX fullEnd u₀).1 = .ok u)
    {tickStart : BitVec 32} (tickEnd : BitVec 32) (hinc : tickStart ≠ UINT32_MAX) :
    (getUniverseDigest K depth tickStart tickEnd u).1.assets = u.assets ∧
      (getUniverseDigest K depth tickStart tickEnd u).1.Digested K depth
        (getUniverseDigest K depth tickStart tickEnd u).2 := by
  have ht := runUniverseCalls_tracked hdepth cs
    (getUniverseDigest_full hdepth fullEnd u₀).tracked hrun
  refine ⟨?_, getUniverseDigest_incremental hdepth hinc ht⟩
  unfold getUniverseDigest
  split <;> rfl

/-- The theorem at 64 slots: an issuance, a transfer, a burn, a failing call, a change of managing
contracts, the end of an epoch and digests in between. -/
theorem universeDigest_incremental_eq_full_at_seven_calls :
    let K : KangarooTwelve := ⟨fun _ => 7, fun _ => 0⟩
    let name : BitVec 56 := 0x41
    let cs : List UniverseCall :=
      [.issueAsset 1 name 0 0 100 2, .transferBySlot 2 3 (65 : m256i) 40,
        .incrementalDigest 5 6 (by decide), .transferBySlot 2 3 0 10, .transferBySlot 2 3 9 1000,
        .managementRights 2 3 4 4 5, .endEpoch]
    ∃ u, runUniverseCalls K 6 cs (getUniverseDigest K 6 UINT32_MAX 0
        ⟨fun _ => AssetRecord.empty, fun _ => 0, fun _ => 0⟩).1 = .ok u ∧
      (getUniverseDigest K 6 7 8 u).1.Digested K 6 (getUniverseDigest K 6 7 8 u).2 := by
  intro K name cs
  obtain ⟨u, h⟩ := exists_ok_of_isOk (x := runUniverseCalls K 6 cs
    (getUniverseDigest K 6 UINT32_MAX 0
      ⟨fun _ => AssetRecord.empty, fun _ => 0, fun _ => 0⟩).1) (by decide +kernel)
  exact ⟨u, h, (universeDigest_incremental_eq_full (by decide) _ 0 cs h 8 (by decide)).2⟩

end Digest

end QubicBob
