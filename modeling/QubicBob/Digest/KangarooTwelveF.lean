import QubicBob.Lib.Loop
import QubicBob.Lib.Sponge
import QubicBob.Digest.KeccakP1600

set_option autoImplicit false

/-! # Absorbing into a node of the hash

`KangarooTwelve_F_Absorb` xors bytes into the state of a node in whichever way is fastest: whole
blocks with the lanes in variables, a part of a block from its beginning in groups of eight, four,
two and one lanes, and a part that begins inside the block lane by lane with a shift.

Xor is done bit by bit, so that it does not matter how the bytes are grouped: each of the loops is
an update of the state at some byte positions, given by the index alone, and updates at different
positions put together are one update. What is between two permutations is then one list of bytes
from a position on, and absorbing is a fold over single bytes, whatever way it takes. A fold does
not mind in which pieces its list comes, which is what the calls for one node rely on.
-/

namespace QubicBob

open Sponge

def K12_rateInBytes : Nat := 168

/-- `KangarooTwelve_F` -/
structure KangarooTwelveF where
  state : KeccakState
  byteIOIndex : Nat

/-! ## The code -/

/-- `state[k] ^= x` -/
def xorByte (state : KeccakState) (k : Nat) (x : Byte) : KeccakState :=
  Vector.ofFn fun i => if i.val = k then state[i] ^^^ x else state[i]

/-- `((unsigned long long *)state)[k] ^= w` -/
def xorLane (state : KeccakState) (k : Nat) (w : BitVec 64) : KeccakState :=
  let lane := leBytes 8 (u64At state.toList k ^^^ w)
  Vector.ofFn fun i => if i.val / 8 = k then lane.getD (i.val % 8) 0#8 else state[i]

/-- `unsigned long long lane = 0; memcpy(&lane, bytes, …)` -/
def copyToLane (bytes : List Byte) : BitVec 64 := BitVec.ofNat 64 (leNat bytes)

/-- A loop over the `lanes` whole lanes of the part, `width` of them at a time, with a bound on the
number of turns. -/
def xorLanes (data : List Byte) (lanes width : Nat) : Nat → KeccakState × Nat → KeccakState × Nat
  | 0, st => st
  | turns + 1, (state, j) =>
    if j + width ≤ lanes then
      xorLanes data lanes width turns
        ((List.range width).foldl (fun s k => xorLane s (j + k) (u64At data (j + k))) state, j + width)
    else (state, j)

/-- The branch for `byteIOIndex == 0`. -/
def xorFromStart (state : KeccakState) (data : List Byte) (partialBlock : Nat) : KeccakState :=
  let lanes := partialBlock >>> 3
  let byEight := xorLanes data lanes 8 (lanes + 1) (state, 0)
  let byFour := xorLanes data lanes 4 (lanes + 1) byEight
  let byTwo := xorLanes data lanes 2 (lanes + 1) byFour
  -- at most one lane is left, and `j` does not count it
  let whole := if byTwo.2 < lanes then xorLane byTwo.1 byTwo.2 (u64At data byTwo.2) else byTwo.1
  if partialBlock &&& 7 ≠ 0 then
    xorLane whole lanes
      (copyToLane ((data.drop (partialBlock &&& 0xFFFFFFF8)).take (partialBlock &&& 7)))
  else whole

/-- The loop of the branch for `byteIOIndex != 0`, with the `_sizeLeft` bytes of `curData` and a bound
on the number of turns. -/
def xorInside : Nat → KeccakState → Nat → Nat → List Byte → KeccakState
  | 0, state, _, _, _ => state
  | turns + 1, state, lanePosition, offsetInLane, curData =>
    if curData = [] then state
    else
      let bytesInLane := if 8 - offsetInLane > curData.length then curData.length else 8 - offsetInLane
      xorInside turns
        (xorLane state lanePosition (copyToLane (curData.take bytesInLane) <<< (offsetInLane <<< 3)))
        (lanePosition + 1) 0 (curData.drop bytesInLane)

/-- `Aba ^= ((unsigned long long *)data)[0]` … `Asa ^= ((unsigned long long *)data)[20]` -/
def KeccakLanes.xorBlock (A : KeccakLanes) (data : List Byte) : KeccakLanes :=
  let lane := u64At data
  { A with
    ba := A.ba ^^^ lane 0, be := A.be ^^^ lane 1, bi := A.bi ^^^ lane 2, bo := A.bo ^^^ lane 3
    bu := A.bu ^^^ lane 4, ga := A.ga ^^^ lane 5, ge := A.ge ^^^ lane 6, gi := A.gi ^^^ lane 7
    go := A.go ^^^ lane 8, gu := A.gu ^^^ lane 9, ka := A.ka ^^^ lane 10, ke := A.ke ^^^ lane 11
    ki := A.ki ^^^ lane 12, ko := A.ko ^^^ lane 13, ku := A.ku ^^^ lane 14, ma := A.ma ^^^ lane 15
    me := A.me ^^^ lane 16, mi := A.mi ^^^ lane 17, mo := A.mo ^^^ lane 18, mu := A.mu ^^^ lane 19
    sa := A.sa ^^^ lane 20 }

/-- The inner loop over whole blocks, with a bound on the number of turns: the lanes, and the data
behind the blocks. -/
def absorbBlocks : Nat → KeccakLanes → List Byte → KeccakLanes × List Byte
  | 0, A, data => (A, data)
  | turns + 1, A, data =>
    if K12_rateInBytes ≤ data.length then
      absorbBlocks turns (rounds12 (A.xorBlock data)) (data.drop K12_rateInBytes)
    else (A, data)

/-- One turn of the loop of `KangarooTwelve_F_Absorb`: the node, and the data that is left. -/
def absorbTurn (F : KangarooTwelveF) (data : List Byte) : KangarooTwelveF × List Byte :=
  if F.byteIOIndex = 0 ∧ K12_rateInBytes ≤ data.length then
    let blocks := absorbBlocks data.length (copyFromState F.state) data
    (⟨copyToState blocks.1, F.byteIOIndex⟩, blocks.2)
  else
    -- `partialBlock` and `byteIOIndex` are of type `uint8_t`
    let partialBlock := if data.length + F.byteIOIndex > K12_rateInBytes then
      K12_rateInBytes - F.byteIOIndex else data.length % 2 ^ 8
    let state := if F.byteIOIndex = 0 then xorFromStart F.state data partialBlock
      else xorInside (partialBlock + 1) F.state (F.byteIOIndex >>> 3) (F.byteIOIndex &&& 7)
        (data.take partialBlock)
    let byteIOIndex := (F.byteIOIndex + partialBlock) % 2 ^ 8
    (if byteIOIndex = K12_rateInBytes then ⟨keccakP1600_Permute_12rounds state, 0⟩
      else ⟨state, byteIOIndex⟩, data.drop partialBlock)

/-- `KangarooTwelve_F_Absorb` -/
def kangarooTwelve_F_Absorb (F : KangarooTwelveF) (data : List Byte) : Option KangarooTwelveF :=
  Loop.run (fun st : KangarooTwelveF × List Byte =>
    if st.2 = [] then .inl st.1 else .inr (absorbTurn st.1 st.2)) (data.length + 1) (F, data)

/-! ## Bits of a lane -/

theorem testBit_leNat (bs : List Byte) (q : Nat) {t : Nat} (ht : t < 8) :
    (leNat bs).testBit (8 * q + t) = (bs.getD q 0#8).getLsbD t := by
  induction bs generalizing q with
  | nil => simp [leNat]
  | cons b bs ih =>
      rw [leNat, Nat.add_comm, show (256 : Nat) = 2 ^ 8 from rfl,
        Nat.testBit_two_pow_mul_add _ b.isLt]
      cases q with
      | zero =>
          rw [if_pos (by omega), Nat.mul_zero, Nat.zero_add]
          rfl
      | succ q =>
          have hsub : 8 * (q + 1) + t - 8 = 8 * q + t := by omega
          rw [if_neg (by omega), hsub, ih]
          rfl

theorem getLsbD_copyToLane (bs : List Byte) {q t : Nat} (hq : q < 8) (ht : t < 8) :
    (copyToLane bs).getLsbD (8 * q + t) = (bs.getD q 0#8).getLsbD t := by
  have hlt : 8 * q + t < 64 := by omega
  rw [copyToLane, BitVec.getLsbD_ofNat, testBit_leNat bs q ht]
  simp [hlt]

theorem getLsbD_u64At (p : List Byte) (k : Nat) {q t : Nat} (hq : q < 8) (ht : t < 8) :
    (u64At p k).getLsbD (8 * q + t) = (p.getD (8 * k + q) 0#8).getLsbD t := by
  have hbyte : ((p.drop (8 * k)).take 8).getD q 0#8 = p.getD (8 * k + q) 0#8 := by
    rw [List.getD_eq_getElem?_getD, List.getD_eq_getElem?_getD, List.getElem?_take_of_lt hq,
      List.getElem?_drop]
  rw [← hbyte]
  exact getLsbD_copyToLane _ hq ht

theorem getD_toList (state : KeccakState) {i : Nat} (hi : i < 200) :
    state.toList.getD i 0#8 = state[i] := by
  rw [List.getD_eq_getElem _ _ (by rw [Vector.length_toList]; exact hi), Vector.getElem_toList]

theorem getLsbD_getD_leBytes (w : BitVec 64) {q t : Nat} (hq : q < 8) (ht : t < 8) :
    ((leBytes 8 w).getD q 0#8).getLsbD t = w.getLsbD (8 * q + t) := by
  have hbyte : (leBytes 8 w).getD q 0#8 = w.extractLsb' (8 * q) 8 := by
    rw [leBytes, List.getD_eq_getElem _ _ (by rw [List.length_map, List.length_range]; exact hq),
      List.getElem_map, List.getElem_range]
  rw [hbyte, BitVec.getLsbD_extractLsb']
  simp [ht]

/-! ## One byte, one lane -/

theorem xorByte_eq (state : KeccakState) (k : Nat) (x : Byte) :
    xorByte state k x = xorAt state k [x] := by
  ext i hi : 1
  rw [xorByte, Vector.getElem_ofFn, getElem_xorAt]
  dsimp only
  rcases Nat.lt_trichotomy i k with hlt | rfl | hgt
  · rw [if_neg (by omega), if_neg (by omega)]
    rfl
  · simp
  · rw [if_neg (by omega), if_pos (by omega), List.getD_eq_default _ _ (by simp; omega),
      BitVec.xor_zero]
    rfl

/-- A part of a lane, shifted to its place. -/
theorem xorLane_piece (state : KeccakState) (k : Nat) {o : Nat} {bs : List Byte}
    (hle : o + bs.length ≤ 8) :
    xorLane state k (copyToLane bs <<< (8 * o)) = xorAt state (8 * k + o) bs := by
  ext i hi t ht : 2
  rw [getElem_xorAt, xorLane, Vector.getElem_ofFn]
  have hdiv := Nat.div_add_mod i 8
  have hmod := Nat.mod_lt i (show 0 < 8 by decide)
  rw [← BitVec.getLsbD_eq_getElem, ← BitVec.getLsbD_eq_getElem]
  by_cases hk : i / 8 = k
  · have hplace : 8 * k + i % 8 = i := by omega
    rw [if_pos hk, getLsbD_getD_leBytes _ hmod ht, BitVec.getLsbD_xor, getLsbD_u64At _ _ hmod ht,
      hplace, getD_toList state hi, BitVec.getLsbD_shiftLeft]
    by_cases ho : i % 8 < o
    · have hout : ¬ 8 * k + o ≤ i := by omega
      have hlow : 8 * (i % 8) + t < 8 * o := by omega
      simp [hout, hlow]
    · have hin : 8 * k + o ≤ i := by omega
      have hlow : ¬ 8 * (i % 8) + t < 8 * o := by omega
      have hsub : 8 * (i % 8) + t - 8 * o = 8 * (i % 8 - o) + t := by omega
      have hindex : i - (8 * k + o) = i % 8 - o := by omega
      have hlt : 8 * (i % 8) + t < 64 := by omega
      rw [if_pos hin, BitVec.getLsbD_xor, hindex, hsub,
        getLsbD_copyToLane bs (by omega : i % 8 - o < 8) ht]
      simp [hlow, hlt]
  · rw [if_neg hk]
    by_cases hin : 8 * k + o ≤ i
    · rw [if_pos hin, List.getD_eq_default _ _ (by omega), BitVec.xor_zero]
      rfl
    · rw [if_neg hin]
      rfl

/-- A part of a lane from its beginning. -/
theorem xorLane_copyToLane (state : KeccakState) (k : Nat) {bs : List Byte} (hle : bs.length ≤ 8) :
    xorLane state k (copyToLane bs) = xorAt state (8 * k) bs := by
  have h := @xorLane_piece state k 0 bs (by omega)
  rwa [Nat.mul_zero, BitVec.shiftLeft_zero, Nat.add_zero] at h

/-! ## A part of a block from its beginning -/

/-- The state after `j` lanes of the data. -/
theorem xorLane_next (state : KeccakState) {data : List Byte} {j : Nat}
    (hle : 8 * (j + 1) ≤ data.length) :
    xorLane (xorAt state 0 (data.take (8 * j))) j (u64At data j) =
      xorAt state 0 (data.take (8 * (j + 1))) := by
  have hsplit : data.take (8 * (j + 1)) = data.take (8 * j) ++ (data.drop (8 * j)).take 8 := by
    rw [Nat.mul_succ, List.take_add]
  have hlength : (data.take (8 * j)).length = 8 * j := List.length_take_of_le (by omega)
  have hbs : ((data.drop (8 * j)).take 8).length ≤ 8 := List.length_take_le _ _
  have hword : u64At data j = copyToLane ((data.drop (8 * j)).take 8) := rfl
  rw [hsplit, xorAt_append, hlength, Nat.zero_add, hword, xorLane_copyToLane _ _ hbs]

theorem foldl_xorLane (state : KeccakState) {data : List Byte} {j : Nat} (width : Nat)
    (hle : 8 * (j + width) ≤ data.length) :
    (List.range width).foldl (fun s k => xorLane s (j + k) (u64At data (j + k)))
        (xorAt state 0 (data.take (8 * j))) =
      xorAt state 0 (data.take (8 * (j + width))) := by
  induction width with
  | zero => rfl
  | succ width ih =>
      rw [List.range_succ, List.foldl_append, ih (by omega)]
      exact xorLane_next state hle

/-- Each of the loops leaves fewer lanes than it takes at a time. -/
theorem xorLanes_eq (state : KeccakState) {data : List Byte} {lanes width : Nat}
    (hwidth : 0 < width) (hdata : 8 * lanes ≤ data.length) {j turns : Nat} (hj : j ≤ lanes)
    (hturns : lanes < j + turns) :
    ∃ j', xorLanes data lanes width turns (xorAt state 0 (data.take (8 * j)), j) =
        (xorAt state 0 (data.take (8 * j')), j') ∧ j' ≤ lanes ∧ lanes < j' + width := by
  induction turns generalizing j with
  | zero => exact absurd hj (Nat.not_le.mpr hturns)
  | succ turns ih =>
      rw [xorLanes]
      split
      · next hmore =>
        rw [foldl_xorLane state width (by omega)]
        exact ih hmore (by omega)
      · next hdone => exact ⟨j, rfl, hj, by omega⟩

theorem xorFromStart_eq (state : KeccakState) {data : List Byte} {partialBlock : Nat}
    (hle : partialBlock ≤ data.length) (hlt : partialBlock < 2 ^ 8) :
    xorFromStart state data partialBlock = xorAt state 0 (data.take partialBlock) := by
  have hshift : partialBlock >>> 3 = partialBlock / 8 := Nat.shiftRight_eq_div_pow _ 3
  have hmod : partialBlock &&& 7 = partialBlock % 8 := Nat.and_two_pow_sub_one_eq_mod _ 3
  have hmask : partialBlock &&& 0xFFFFFFF8 = 8 * (partialBlock / 8) := by
    interval_cases partialBlock <;> rfl
  have hdata : 8 * (partialBlock / 8) ≤ data.length := by omega
  have hstart : xorAt state 0 (data.take (8 * 0)) = state := xorAt_nil
  have hturns : ∀ j, partialBlock / 8 < j + (partialBlock / 8 + 1) := fun j => by omega
  obtain ⟨j₈, h₈, hle₈, -⟩ :=
    xorLanes_eq state (show 0 < 8 by decide) hdata (Nat.zero_le _) (hturns 0)
  obtain ⟨j₄, h₄, hle₄, -⟩ := xorLanes_eq state (show 0 < 4 by decide) hdata hle₈ (hturns j₈)
  obtain ⟨j₂, h₂, hle₂, hlt₂⟩ := xorLanes_eq state (show 0 < 2 by decide) hdata hle₄ (hturns j₄)
  rw [hstart] at h₈
  have hwhole : (if j₂ < partialBlock / 8 then
        xorLane (xorAt state 0 (data.take (8 * j₂))) j₂ (u64At data j₂)
      else xorAt state 0 (data.take (8 * j₂))) =
      xorAt state 0 (data.take (8 * (partialBlock / 8))) := by
    split
    · have hnext : j₂ + 1 = partialBlock / 8 := by omega
      rw [xorLane_next state (by omega), hnext]
    · rw [show j₂ = partialBlock / 8 by omega]
  have hsplit : data.take partialBlock = data.take (8 * (partialBlock / 8)) ++
      (data.drop (8 * (partialBlock / 8))).take (partialBlock % 8) := by
    rw [← List.take_add, Nat.div_add_mod]
  have hlength : (data.take (8 * (partialBlock / 8))).length = 8 * (partialBlock / 8) :=
    List.length_take_of_le hdata
  simp only [xorFromStart, hshift, hmod, hmask, h₈, h₄, h₂, hwhole]
  rw [hsplit, xorAt_append, hlength, Nat.zero_add]
  split
  · refine xorLane_copyToLane _ _ ((List.length_take_le _ _).trans ?_)
    exact (Nat.mod_lt _ (by decide)).le
  · next hzero =>
    rw [not_ne_iff.mp hzero, List.take_zero, xorAt_nil]

/-! ## A part that begins inside the block -/

theorem xorInside_eq (state : KeccakState) (lanePosition : Nat) {offsetInLane turns : Nat}
    {curData : List Byte} (hoffset : offsetInLane < 8) (hturns : curData.length < turns) :
    xorInside turns state lanePosition offsetInLane curData =
      xorAt state (8 * lanePosition + offsetInLane) curData := by
  induction turns generalizing state lanePosition offsetInLane curData with
  | zero => exact absurd hturns (Nat.not_lt_zero _)
  | succ turns ih =>
      rw [xorInside]
      split
      · next hnil => rw [hnil, xorAt_nil]
      · next hne =>
        have hpos := List.length_pos_iff.mpr hne
        have hshift : offsetInLane <<< 3 = 8 * offsetInLane := by
          rw [Nat.shiftLeft_eq, Nat.mul_comm]
        dsimp only
        rw [hshift]
        split
        · next hshort =>
          rw [List.take_length, List.drop_length, ih _ _ (by decide) (by simp; omega), xorAt_nil,
            xorLane_piece state lanePosition (by omega)]
        · next hlong =>
          have hfront : (curData.take (8 - offsetInLane)).length = 8 - offsetInLane :=
            List.length_take_of_le (by omega)
          have hplace : 8 * (lanePosition + 1) + 0 =
              8 * lanePosition + offsetInLane + (curData.take (8 - offsetInLane)).length := by
            rw [hfront]
            omega
          rw [ih _ _ (by decide) (by rw [List.length_drop]; omega),
            xorLane_piece state lanePosition (by omega), hplace, ← xorAt_append,
            List.take_append_drop]

/-! ## Whole blocks -/

theorem getLsbD_copyToState (A : KeccakLanes) {i t : Nat} (hi : i < 200) (ht : t < 8) :
    ((copyToState A)[i]).getLsbD t = (A.toVector[i / 8]).getLsbD (8 * (i % 8) + t) := by
  rw [copyToState, Keccak.ofLanes, Vector.getElem_ofFn, BitVec.getLsbD_extractLsb']
  simp [ht]

theorem u64At_copyToState (A : KeccakLanes) {k : Nat} (hk : k < 25) :
    u64At (copyToState A).toList k = A.toVector[k] := by
  ext m hm
  have hdiv := Nat.div_add_mod m 8
  have hmod := Nat.mod_lt m (show 0 < 8 by decide)
  have hi : 8 * k + m / 8 < 200 := by omega
  rw [← BitVec.getLsbD_eq_getElem, ← BitVec.getLsbD_eq_getElem]
  nth_rewrite 1 [← hdiv]
  rw [getLsbD_u64At _ _ (by omega : m / 8 < 8) hmod, getD_toList _ hi,
    getLsbD_copyToState A hi hmod]
  have hlane : (8 * k + m / 8) / 8 = k := by omega
  have hbit : 8 * ((8 * k + m / 8) % 8) + m % 8 = m := by omega
  simp only [hlane, hbit]

theorem copyToState_copyFromState (state : KeccakState) :
    copyToState (copyFromState state) = state := by
  ext i hi t ht : 2
  have hmod := Nat.mod_lt i (show 0 < 8 by decide)
  have hplace : 8 * (i / 8) + i % 8 = i := Nat.div_add_mod i 8
  rw [← BitVec.getLsbD_eq_getElem, ← BitVec.getLsbD_eq_getElem, getLsbD_copyToState _ hi ht,
    toVector_copyFromState state (by omega), getLsbD_u64At _ _ hmod ht, hplace, getD_toList state hi]

theorem KeccakLanes.ext_toVector {A B : KeccakLanes} (h : A.toVector = B.toVector) : A = B := by
  cases A
  cases B
  simpa [KeccakLanes.toVector] using h

theorem copyFromState_copyToState (A : KeccakLanes) : copyFromState (copyToState A) = A := by
  refine KeccakLanes.ext_toVector (Vector.ext fun k hk => ?_)
  rw [toVector_copyFromState _ hk, u64At_copyToState A hk]

theorem toVector_xorBlock (A : KeccakLanes) (data : List Byte) {k : Nat} (hk : k < 25) :
    (A.xorBlock data).toVector[k] =
      if k < 21 then A.toVector[k] ^^^ u64At data k else A.toVector[k] := by
  interval_cases k <;> rfl

/-- The lanes of a block, xored in the variables. -/
theorem copyToState_xorBlock (A : KeccakLanes) {data : List Byte}
    (hle : K12_rateInBytes ≤ data.length) :
    copyToState (A.xorBlock data) = xorAt (copyToState A) 0 (data.take K12_rateInBytes) := by
  unfold K12_rateInBytes at *
  ext i hi t ht : 2
  have hmod := Nat.mod_lt i (show 0 < 8 by decide)
  have hplace : 8 * (i / 8) + i % 8 = i := Nat.div_add_mod i 8
  rw [getElem_xorAt, if_pos (Nat.zero_le i), Nat.sub_zero, ← BitVec.getLsbD_eq_getElem,
    ← BitVec.getLsbD_eq_getElem, getLsbD_copyToState _ hi ht, toVector_xorBlock A data (by omega),
    BitVec.getLsbD_xor, getLsbD_copyToState A hi ht, List.getD_eq_getElem?_getD]
  by_cases hblock : i / 8 < 21
  · have hlt : i < 168 := by omega
    rw [if_pos hblock, BitVec.getLsbD_xor, getLsbD_u64At data _ hmod ht, hplace,
      List.getElem?_take_of_lt hlt, List.getD_eq_getElem?_getD]
  · have hge : 168 ≤ i := by omega
    rw [if_neg hblock, List.getElem?_eq_none (by rw [List.length_take]; omega)]
    simp

theorem absorbBlocks_eq (turns : Nat) (A : KeccakLanes) (data : List Byte) :
    absorb K12_rateInBytes keccakP1600_Permute_12rounds (copyToState A, 0) data =
      absorb K12_rateInBytes keccakP1600_Permute_12rounds
        (copyToState (absorbBlocks turns A data).1, 0) (absorbBlocks turns A data).2 := by
  induction turns generalizing A data with
  | zero => rfl
  | succ turns ih =>
      rw [absorbBlocks]
      split
      · next hle =>
        have hblock : copyToState (rounds12 (A.xorBlock data)) =
            keccakP1600_Permute_12rounds (xorAt (copyToState A) 0 (data.take K12_rateInBytes)) := by
          rw [keccakP1600_Permute_12rounds, ← copyToState_xorBlock A hle, copyFromState_copyToState]
        rw [← ih, hblock, ← absorb_block (by decide) (List.length_take_of_le hle), ← absorb_append,
          List.take_append_drop]
      · rfl

theorem length_absorbBlocks_le (turns : Nat) (A : KeccakLanes) (data : List Byte) :
    (absorbBlocks turns A data).2.length ≤ data.length := by
  induction turns generalizing A data with
  | zero => exact le_rfl
  | succ turns ih =>
      rw [absorbBlocks]
      split
      · exact (ih _ _).trans (by rw [List.length_drop]; omega)
      · exact le_rfl

/-- There is a whole block to take. -/
theorem length_absorbBlocks_lt {turns : Nat} (A : KeccakLanes) {data : List Byte}
    (hturns : 0 < turns) (hle : K12_rateInBytes ≤ data.length) :
    (absorbBlocks turns A data).2.length < data.length := by
  obtain ⟨turns, rfl⟩ := Nat.exists_eq_add_of_lt hturns
  have hrate : K12_rateInBytes = 168 := rfl
  rw [absorbBlocks, if_pos hle]
  exact (length_absorbBlocks_le _ _ _).trans_lt (by rw [List.length_drop]; omega)

/-! ## The loop -/

/-- The node as a place in the sponge. -/
def KangarooTwelveF.place (F : KangarooTwelveF) : KeccakState × Nat := (F.state, F.byteIOIndex)

theorem KangarooTwelveF.ext_place {F F' : KangarooTwelveF} (h : F.place = F'.place) : F = F' := by
  cases F
  cases F'
  obtain ⟨rfl, rfl⟩ := Prod.mk.inj h
  rfl

/-- What the slow branch xors into the state. -/
theorem xorPart_eq {F : KangarooTwelveF} {data : List Byte} {partialBlock : Nat}
    (hle : partialBlock ≤ data.length) (hlt : partialBlock < 2 ^ 8) :
    (if F.byteIOIndex = 0 then xorFromStart F.state data partialBlock
      else xorInside (partialBlock + 1) F.state (F.byteIOIndex >>> 3) (F.byteIOIndex &&& 7)
        (data.take partialBlock)) = xorAt F.state F.byteIOIndex (data.take partialBlock) := by
  split
  · next hzero => rw [xorFromStart_eq F.state hle hlt, hzero]
  · have hoffset : F.byteIOIndex &&& 7 = F.byteIOIndex % 8 := Nat.and_two_pow_sub_one_eq_mod _ 3
    have hplace : 8 * (F.byteIOIndex >>> 3) + F.byteIOIndex % 8 = F.byteIOIndex := by
      rw [Nat.shiftRight_eq_div_pow]
      exact Nat.div_add_mod _ 8
    have hturns : (data.take partialBlock).length < partialBlock + 1 :=
      Nat.lt_succ_of_le (List.length_take_le _ _)
    rw [hoffset, xorInside_eq _ _ (Nat.mod_lt _ (by decide)) hturns, hplace]

/-- One turn absorbs what it takes from the data, at least one byte. -/
theorem absorbTurn_eq {F : KangarooTwelveF} {data : List Byte} (hF : F.byteIOIndex < K12_rateInBytes)
    (hdata : data ≠ []) :
    absorb K12_rateInBytes keccakP1600_Permute_12rounds F.place data =
        absorb K12_rateInBytes keccakP1600_Permute_12rounds (absorbTurn F data).1.place
          (absorbTurn F data).2 ∧
      (absorbTurn F data).1.byteIOIndex < K12_rateInBytes ∧
      (absorbTurn F data).2.length < data.length := by
  have hpos := List.length_pos_iff.mpr hdata
  have hrate : K12_rateInBytes = 168 := rfl
  rw [absorbTurn]
  split
  · next hwhole =>
    have heq := absorbBlocks_eq data.length (copyFromState F.state) data
    rw [copyToState_copyFromState] at heq
    refine ⟨?_, hF, length_absorbBlocks_lt _ hpos hwhole.2⟩
    rw [KangarooTwelveF.place, KangarooTwelveF.place, hwhole.1]
    exact heq
  · next hpart =>
    dsimp only
    generalize hpb : (if data.length + F.byteIOIndex > K12_rateInBytes then
      K12_rateInBytes - F.byteIOIndex else data.length % 2 ^ 8) = partialBlock
    have htake : 0 < partialBlock ∧ partialBlock ≤ data.length ∧
        F.byteIOIndex + partialBlock ≤ K12_rateInBytes := by
      split at hpb <;> omega
    obtain ⟨hmore, hle, hroom⟩ := htake
    have hindex : (F.byteIOIndex + partialBlock) % 2 ^ 8 = F.byteIOIndex + partialBlock :=
      Nat.mod_eq_of_lt (by omega)
    have hlength : (data.take partialBlock).length = partialBlock := List.length_take_of_le hle
    have hpiece : absorb K12_rateInBytes keccakP1600_Permute_12rounds F.place
        (data.take partialBlock) = settle K12_rateInBytes keccakP1600_Permute_12rounds
          (xorAt F.state F.byteIOIndex (data.take partialBlock), F.byteIOIndex + partialBlock) := by
      rw [KangarooTwelveF.place, absorb_of_le hF (by rw [hlength]; exact hroom), hlength]
    rw [hindex, xorPart_eq hle (by omega)]
    refine ⟨?_, ?_, by rw [List.length_drop]; omega⟩
    · nth_rewrite 1 [← List.take_append_drop partialBlock data]
      rw [absorb_append, hpiece, settle]
      congr 1
      dsimp only
      split <;> rfl
    · split
      · exact (by decide : 0 < K12_rateInBytes)
      · dsimp only
        omega

theorem kangarooTwelve_F_Absorb_eq {F : KangarooTwelveF} (hF : F.byteIOIndex < K12_rateInBytes)
    (data : List Byte) :
    ∃ F', kangarooTwelve_F_Absorb F data = some F' ∧
      F'.place = absorb K12_rateInBytes keccakP1600_Permute_12rounds F.place data := by
  rw [kangarooTwelve_F_Absorb]
  -- a turn takes at least one byte, so that the bound is not reached
  generalize hturns : data.length + 1 = turns
  have hlt : data.length < turns := by omega
  clear hturns
  induction turns generalizing F data with
  | zero => exact absurd hlt (Nat.not_lt_zero _)
  | succ turns ih =>
      by_cases hdata : data = []
      · refine ⟨F, ?_, by rw [hdata]; rfl⟩
        exact Loop.run_inl (if_pos hdata)
      · obtain ⟨heq, hF', hshorter⟩ := absorbTurn_eq hF hdata
        obtain ⟨F', hrun, hF''⟩ := ih hF' (absorbTurn F data).2 (by omega)
        refine ⟨F', ?_, hF''.trans heq.symm⟩
        rw [← hrun]
        exact Loop.run_inr (if_neg hdata)

theorem byteIOIndex_lt_of_absorb {F F' : KangarooTwelveF} (hF : F.byteIOIndex < K12_rateInBytes)
    {data : List Byte}
    (h : F'.place = absorb K12_rateInBytes keccakP1600_Permute_12rounds F.place data) :
    F'.byteIOIndex < K12_rateInBytes := by
  have hindex : F'.byteIOIndex = (F.byteIOIndex + data.length) % K12_rateInBytes :=
    (congrArg Prod.snd h).trans (absorb_snd hF)
  rw [hindex]
  exact Nat.mod_lt _ (by decide)

/-- Data that comes in pieces, each absorbed by a call of its own: all the calls end, in the node that
one call on the whole data ends in. -/
theorem kangarooTwelve_F_Absorb_pieces {F : KangarooTwelveF}
    (hF : F.byteIOIndex < K12_rateInBytes) (pieces : List (List Byte)) :
    ∃ G, pieces.foldlM kangarooTwelve_F_Absorb F = some G ∧
      kangarooTwelve_F_Absorb F pieces.flatten = some G := by
  induction pieces generalizing F with
  | nil => exact ⟨F, rfl, rfl⟩
  | cons piece pieces ih =>
      obtain ⟨F', hrun, hF'⟩ := kangarooTwelve_F_Absorb_eq hF piece
      have hlt := byteIOIndex_lt_of_absorb hF hF'
      obtain ⟨G, hpieces, hrest⟩ := ih hlt
      obtain ⟨H, hrest', hH⟩ := kangarooTwelve_F_Absorb_eq hlt pieces.flatten
      obtain ⟨G', hwhole, hG'⟩ := kangarooTwelve_F_Absorb_eq hF (piece ++ pieces.flatten)
      have hH' : H = G := Option.some.inj (hrest'.symm.trans hrest)
      have hsame : G' = G := by
        refine KangarooTwelveF.ext_place ?_
        rw [hG', ← hH', hH, hF', absorb_append]
      refine ⟨G, ?_, ?_⟩
      · calc (piece :: pieces).foldlM kangarooTwelve_F_Absorb F
            = pieces.foldlM kangarooTwelve_F_Absorb F' := by
              rw [List.foldlM_cons, hrun]
              rfl
          _ = some G := hpieces
      · rw [List.flatten_cons, hwhole, hsame]

/-- A whole block and a part of one, into a node that is in the middle of a block. -/
theorem kangarooTwelve_F_Absorb_pieces_two :
    ∃ G, [List.replicate 200 1, List.replicate 50 2].foldlM kangarooTwelve_F_Absorb
          ⟨Vector.replicate 200 0, 100⟩ = some G ∧
      kangarooTwelve_F_Absorb ⟨Vector.replicate 200 0, 100⟩
          [List.replicate 200 1, List.replicate 50 2].flatten = some G :=
  kangarooTwelve_F_Absorb_pieces (by decide) _

end QubicBob
