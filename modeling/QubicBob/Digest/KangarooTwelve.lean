import QubicBob.Digest.KangarooTwelveF

set_option autoImplicit false

/-! # The hash function

`KangarooTwelve` of `K12AndKeyUtil.h` hashes a message in one pass: the first 8192 bytes go into
`finalNode`, each further chunk through `queueNode`, whose first 32 bytes then go into `finalNode`.
The customization string is empty; the byte that stands for its length is never stored, only
counted.

`K12.hash` is the construction: a tree of two levels over the chunks of the message. The loop of the
function keeps in `finalNode` what the construction has absorbed for the chunks so far, and in
`queueNode` nothing; one more round is one more chunk. Only the end needs care. The byte that is not
stored is zero, so it is enough that the position counts it, also where it is the first one of a
block or of a chunk of its own.
-/

namespace QubicBob

open Sponge

def K12_chunkSize : BitVec 32 := 8192
def K12_capacityInBytes : Nat := 32
def K12_suffixLeaf : Byte := 0x0B

/-! ## The construction -/

namespace K12

/-- The sponge over the twelve rounds, with a rate of 168 bytes. -/
def spongeState (suffix : Byte) (message : List Byte) : KeccakState :=
  sponge 168 (Keccak.permute 12) suffix message

/-- The chaining value of a chunk. -/
def chainingValue (chunk : List Byte) : List Byte := (spongeState 0x0B chunk).toList.take 32

/-- A length, the highest byte first, and the number of its bytes. -/
def lengthEncode (n : Nat) : List Byte :=
  ((Nat.digits 256 n).reverse ++ [(Nat.digits 256 n).length]).map (BitVec.ofNat 8)

/-- The chunks of a message behind which stands the length of the empty customization string. -/
def chunksOf (message : List Byte) : List (List Byte) := chunks 8192 (message ++ [0])

/-- The node over several chunks. -/
def finalMessage (first : List Byte) (rest : List (List Byte)) : List Byte :=
  first ++ [0x03, 0, 0, 0, 0, 0, 0, 0] ++ rest.flatMap chainingValue ++ lengthEncode rest.length ++
    [0xFF, 0xFF]

/-- The state that the digest is read from. -/
def hashState (message : List Byte) : KeccakState :=
  match chunksOf message with
  | [] => spongeState 0x07 []
  | [only] => spongeState 0x07 only
  | first :: rest => spongeState 0x06 (finalMessage first rest)

/-- The first bytes of the digest, as many as the sponge gives without a further permutation. -/
def hash (message : List Byte) : List Byte := (hashState message).toList.take 168

end K12

/-! ## The code -/

/-- `a ^ ((b ^ a) & -(c))`: `b` where the condition holds -/
def selectBy (a b : BitVec 32) (c : Bool) : BitVec 32 :=
  a ^^^ ((b ^^^ a) &&& -(BitVec.ofBool c).setWidth 32)

/-- `memset(&node, 0, sizeof(KangarooTwelve_F))` -/
def KangarooTwelveF.clear : KangarooTwelveF := ⟨Vector.replicate 200 0, 0⟩

/-- `if (++byteIOIndex == K12_rateInBytes)` with the permutation and the index reset. -/
def KangarooTwelveF.countByte (F : KangarooTwelveF) : KangarooTwelveF :=
  if F.byteIOIndex + 1 = K12_rateInBytes then ⟨keccakP1600_Permute_12rounds F.state, 0⟩
  else ⟨F.state, F.byteIOIndex + 1⟩

/-- The lines behind the first chunk of a longer message. -/
def KangarooTwelveF.closeFirst (F : KangarooTwelveF) : KangarooTwelveF :=
  let state := xorByte F.state F.byteIOIndex 0x03
  if F.byteIOIndex + 1 = K12_rateInBytes then ⟨keccakP1600_Permute_12rounds state, 0⟩
  else ⟨state, (F.byteIOIndex + 1 + 7) &&& 0xF8⟩

/-- The lines behind the only chunk of a message. -/
def KangarooTwelveF.closeOnly (F : KangarooTwelveF) : KangarooTwelveF :=
  if F.byteIOIndex + 1 = K12_rateInBytes then
    ⟨xorByte (keccakP1600_Permute_12rounds F.state) 0 0x07, F.byteIOIndex + 1⟩
  else ⟨xorByte F.state (F.byteIOIndex + 1) 0x07, F.byteIOIndex + 1⟩

/-- The variables of `KangarooTwelve`. -/
structure K12Nodes where
  finalNode : KangarooTwelveF
  queueNode : KangarooTwelveF
  blockNumber : BitVec 32
  queueAbsorbedLen : BitVec 32

/-- The lines that finish the queue node and absorb its first bytes into the final node. -/
def K12Nodes.leaf (N : K12Nodes) : Option K12Nodes :=
  let state := keccakP1600_Permute_12rounds
    (xorByte (xorByte N.queueNode.state N.queueNode.byteIOIndex K12_suffixLeaf)
      (K12_rateInBytes - 1) 0x80)
  (kangarooTwelve_F_Absorb N.finalNode (state.toList.take K12_capacityInBytes)).map fun finalNode =>
    ⟨finalNode, ⟨state, K12_capacityInBytes⟩, N.blockNumber + 1, N.queueAbsorbedLen⟩

/-- The loop over the chunks behind the first, with a bound on the number of turns. -/
def K12Nodes.absorbChunks : Nat → K12Nodes → List Byte → BitVec 32 → Option K12Nodes
  | 0, _, _, _ => none
  | turns + 1, N, input, inputByteLen =>
    if inputByteLen = 0 then some N
    else
      let len := selectBy K12_chunkSize inputByteLen (inputByteLen < K12_chunkSize)
      (kangarooTwelve_F_Absorb .clear (input.take len.toNat)).bind fun queueNode =>
        (if len = K12_chunkSize then { N with queueNode := queueNode }.leaf
          else some { N with queueNode := queueNode, queueAbsorbedLen := len }).bind fun N =>
          absorbChunks turns N (input.drop len.toNat) (inputByteLen - len)

/-- The lines behind the loop: the byte of the customization string. -/
def K12Nodes.closeQueue (N : K12Nodes) : Option K12Nodes :=
  if N.queueAbsorbedLen ≠ 0 then
    let counted : K12Nodes :=
      { N with queueNode := N.queueNode.countByte, queueAbsorbedLen := N.queueAbsorbedLen + 1 }
    if counted.queueAbsorbedLen = K12_chunkSize then { counted with queueAbsorbedLen := 0 }.leaf
    else some counted
  else some { N with queueNode := ⟨Vector.replicate 200 0, 1⟩, queueAbsorbedLen := 1 }

/-- `for (v = …; v && (n < sizeof(unsigned long long)); ++n, v >>= 8)`, from the number of turns that
`n` leaves: the turns made. -/
def byteCount : Nat → BitVec 64 → Nat
  | 0, _ => 0
  | turns + 1, v => if v = 0 then 0 else byteCount turns (v >>> 8) + 1

/-- `encbuf` -/
def encbuf (blockNumber : BitVec 32) : List Byte :=
  let n := byteCount 8 (blockNumber.setWidth 64)
  (List.range n).map (fun i => (blockNumber >>> (8 * (n - (i + 1)))).setWidth 8) ++
    [BitVec.ofNat 8 n, 0xFF, 0xFF]

/-- The lines under `if (blockNumber)`. -/
def K12Nodes.closeFinal (N : K12Nodes) : Option KangarooTwelveF :=
  (if N.queueAbsorbedLen ≠ 0 then N.leaf else some N).bind fun N =>
    (kangarooTwelve_F_Absorb N.finalNode (encbuf (N.blockNumber - 1))).map fun finalNode =>
      ⟨xorByte finalNode.state finalNode.byteIOIndex 0x06, finalNode.byteIOIndex⟩

/-- `KangarooTwelve`, with the bytes it writes to `output`. -/
def kangarooTwelve (input : List Byte) (outputByteLen : Nat) : Option (List Byte) :=
  let inputByteLen := BitVec.ofNat 32 input.length
  let len := selectBy inputByteLen K12_chunkSize (K12_chunkSize < inputByteLen)
  (kangarooTwelve_F_Absorb .clear (input.take len.toNat)).bind fun finalNode =>
    let left := inputByteLen - len
    -- a node without a value yet stands as zeros; no branch reads it
    (if len = K12_chunkSize ∧ left ≠ 0 then
        (K12Nodes.absorbChunks (left.toNat + 1) ⟨finalNode.closeFirst, .clear, 1, 0⟩
          (input.drop len.toNat) left).bind K12Nodes.closeQueue
      else if len = K12_chunkSize then
        some ⟨finalNode.closeFirst, ⟨Vector.replicate 200 0, 1⟩, 1, 1⟩
      else some ⟨finalNode.closeOnly, .clear, 0, 0⟩).bind fun N =>
      (if N.blockNumber ≠ 0 then N.closeFinal else some N.finalNode).map fun finalNode =>
        (keccakP1600_Permute_12rounds (xorByte finalNode.state (K12_rateInBytes - 1) 0x80)).toList.take
          outputByteLen

/-! ## Nodes -/

/-- The node that has absorbed a message. -/
def KangarooTwelveF.absorbed (message : List Byte) : KangarooTwelveF :=
  let place := absorb K12_rateInBytes keccakP1600_Permute_12rounds (Vector.replicate 200 0, 0) message
  ⟨place.1, place.2⟩

open KangarooTwelveF (absorbed)

variable {message : List Byte}

theorem rate_pos : 0 < K12_rateInBytes := by decide

theorem byteIOIndex_absorbed :
    (absorbed message).byteIOIndex = message.length % K12_rateInBytes := by
  have h : (absorbed message).byteIOIndex = (0 + message.length) % K12_rateInBytes :=
    absorb_snd rate_pos
  rwa [Nat.zero_add] at h

theorem byteIOIndex_absorbed_lt : (absorbed message).byteIOIndex < K12_rateInBytes := by
  rw [byteIOIndex_absorbed]
  exact Nat.mod_lt _ rate_pos

theorem absorbed_append (data : List Byte) : (absorbed (message ++ data)).place =
    absorb K12_rateInBytes keccakP1600_Permute_12rounds (absorbed message).place data :=
  absorb_append

/-- A node absorbs more of its message. -/
theorem kangarooTwelve_F_Absorb_absorbed (data : List Byte) :
    kangarooTwelve_F_Absorb (absorbed message) data = some (absorbed (message ++ data)) := by
  obtain ⟨F', hrun, hF'⟩ := kangarooTwelve_F_Absorb_eq byteIOIndex_absorbed_lt data
  rw [hrun, KangarooTwelveF.ext_place (hF'.trans (absorbed_append data).symm)]

/-- The byte that is only counted is a zero. -/
theorem countByte_absorbed : (absorbed message).countByte = absorbed (message ++ [0#8]) := by
  have hzero : xorAt (absorbed message).state (absorbed message).byteIOIndex [0#8] =
      (absorbed message).state := xorAt_replicate_zero 1
  have hplace : (absorbed (message ++ [0#8])).place =
      settle K12_rateInBytes keccakP1600_Permute_12rounds
        ((absorbed message).state, (absorbed message).byteIOIndex + 1) := by
    rw [absorbed_append, ← hzero]
    rfl
  refine KangarooTwelveF.ext_place (Eq.trans ?_ hplace.symm)
  rw [KangarooTwelveF.countByte, settle]
  split <;> rfl

/-- The first chunk ends in the middle of a block, at a whole lane. -/
theorem closeFirst_absorbed (hlength : message.length = 8192) :
    (absorbed message).closeFirst = absorbed (message ++ [0x03, 0, 0, 0, 0, 0, 0, 0]) := by
  have hindex : (absorbed message).byteIOIndex = 128 := by
    rw [byteIOIndex_absorbed, hlength]
    rfl
  have hzeros : xorAt (absorbed message).state 128 [0x03, 0, 0, 0, 0, 0, 0, 0] =
      xorAt (absorbed message).state 128 [0x03] := by
    have h := @xorAt_append 200 (absorbed message).state 128 [0x03] (List.replicate 7 0#8)
    rwa [xorAt_replicate_zero] at h
  refine KangarooTwelveF.ext_place (Eq.trans ?_ (absorbed_append _).symm)
  rw [KangarooTwelveF.closeFirst, KangarooTwelveF.place, KangarooTwelveF.place, hindex,
    absorb_of_le (by decide) (by decide), hzeros, xorByte_eq]
  rfl

/-- A node finished with a suffix. -/
theorem finish_absorbed (suffix : Byte) :
    keccakP1600_Permute_12rounds (xorByte (xorByte (absorbed message).state
        (absorbed message).byteIOIndex suffix) (K12_rateInBytes - 1) 0x80) =
      K12.spongeState suffix message := by
  have hpermute : keccakP1600_Permute_12rounds = Keccak.permute 12 :=
    funext keccakP1600_Permute_12rounds_eq
  rw [K12.spongeState, ← hpermute, xorByte_eq, xorByte_eq]
  exact (sponge_eq rate_pos suffix message).symm

theorem state_closeOnly (F : KangarooTwelveF) :
    F.closeOnly.state = xorByte F.countByte.state F.countByte.byteIOIndex 0x07 := by
  rw [KangarooTwelveF.closeOnly, KangarooTwelveF.countByte]
  split <;> rfl

/-! ## Chunks -/

theorem selectBy_eq (a b : BitVec 32) (c : Bool) : selectBy a b c = if c then b else a := by
  cases c
  · simp [selectBy]
  · have hmask : -(BitVec.ofBool true).setWidth 32 = BitVec.allOnes 32 := by decide
    rw [selectBy, hmask, BitVec.and_allOnes, BitVec.xor_comm b, ← BitVec.xor_assoc, BitVec.xor_self,
      BitVec.zero_xor]
    rfl

/-- A finished queue node is absorbed. -/
theorem K12Nodes.leaf_eq {N : K12Nodes} {front chunk : List Byte}
    (hfinal : N.finalNode = absorbed front) (hqueue : N.queueNode = absorbed chunk) :
    ∃ Q, N.leaf = some ⟨absorbed (front ++ K12.chainingValue chunk), Q, N.blockNumber + 1,
      N.queueAbsorbedLen⟩ := by
  refine ⟨⟨K12.spongeState 0x0B chunk, K12_capacityInBytes⟩, ?_⟩
  rw [K12Nodes.leaf, hqueue, hfinal]
  rw [show K12_suffixLeaf = 0x0B from rfl, finish_absorbed, kangarooTwelve_F_Absorb_absorbed]
  rfl

/-- With what `closeFinal` does first, the final node has absorbed the chaining values of the chunks
behind the first. -/
structure K12Nodes.Holds (N : K12Nodes) (front : List Byte) (rest : List (List Byte)) : Prop where
  blockNumber_ne : N.blockNumber ≠ 0
  last : ∃ N', (if N.queueAbsorbedLen ≠ 0 then N.leaf else some N) = some N' ∧
    N'.finalNode = absorbed (front ++ rest.flatMap K12.chainingValue) ∧
    N'.blockNumber = BitVec.ofNat 32 (rest.length + 1)

variable {front : List Byte} {done : List (List Byte)}

theorem ofNat_succ (n : Nat) : BitVec.ofNat 32 n + 1 = BitVec.ofNat 32 (n + 1) :=
  (BitVec.ofNat_add n 1).symm

theorem ofNat_ne_zero {n : Nat} (hpos : 0 < n) (hlt : n < 2 ^ 32) : BitVec.ofNat 32 n ≠ 0 := by
  intro h
  have hvalue := congrArg BitVec.toNat h
  rw [BitVec.toNat_ofNat, Nat.mod_eq_of_lt hlt] at hvalue
  exact hpos.ne' hvalue

theorem flatMap_concat (front : List Byte) (done : List (List Byte)) (chunk : List Byte) :
    front ++ done.flatMap K12.chainingValue ++ K12.chainingValue chunk =
      front ++ (done ++ [chunk]).flatMap K12.chainingValue := by
  rw [List.flatMap_append, List.flatMap_singleton, List.append_assoc]

/-- A last chunk that waits in the queue node. -/
theorem K12Nodes.holds_of_queue {N : K12Nodes} {chunk : List Byte}
    (hfinal : N.finalNode = absorbed (front ++ done.flatMap K12.chainingValue))
    (hqueue : N.queueNode = absorbed chunk) (hlen : N.queueAbsorbedLen ≠ 0)
    (hnumber : N.blockNumber = BitVec.ofNat 32 (done.length + 1)) (hlt : done.length + 1 < 2 ^ 32) :
    N.Holds front (done ++ [chunk]) := by
  obtain ⟨Q, hleaf⟩ := K12Nodes.leaf_eq hfinal hqueue
  refine ⟨hnumber ▸ ofNat_ne_zero (Nat.succ_pos _) hlt, _, (if_pos hlen).trans hleaf, ?_, ?_⟩
  · exact congrArg absorbed (flatMap_concat front done chunk)
  · rw [List.length_append, List.length_singleton, ← ofNat_succ, hnumber]

/-- A last chunk with the byte of the customization string. -/
theorem K12Nodes.holds_closeQueue {N : K12Nodes} {chunk : List Byte}
    (hfinal : N.finalNode = absorbed (front ++ done.flatMap K12.chainingValue))
    (hqueue : N.queueNode = absorbed chunk)
    (hlen : N.queueAbsorbedLen = BitVec.ofNat 32 chunk.length) (hpos : 0 < chunk.length)
    (hshort : chunk.length < 8192) (hnumber : N.blockNumber = BitVec.ofNat 32 (done.length + 1))
    (hlt : done.length + 2 < 2 ^ 32) :
    ∃ N', N.closeQueue = some N' ∧ N'.Holds front (done ++ [chunk ++ [0]]) := by
  have hne : N.queueAbsorbedLen ≠ 0 := hlen ▸ ofNat_ne_zero hpos (by omega)
  have hcount : N.queueNode.countByte = absorbed (chunk ++ [0]) := hqueue ▸ countByte_absorbed
  rw [K12Nodes.closeQueue, if_pos hne]
  dsimp only
  -- with that byte the chunk may be whole, and then it is absorbed here
  split
  · obtain ⟨Q, hleaf⟩ := @K12Nodes.leaf_eq ⟨N.finalNode, N.queueNode.countByte, N.blockNumber, 0⟩
      _ _ hfinal hcount
    refine ⟨_, hleaf, ?_, _, if_neg (not_not.mpr rfl), ?_, ?_⟩
    · rw [hnumber, ofNat_succ]
      exact ofNat_ne_zero (Nat.succ_pos _) hlt
    · exact congrArg absorbed (flatMap_concat front done (chunk ++ [0]))
    · rw [List.length_append, List.length_singleton, ← ofNat_succ, hnumber]
  · refine ⟨_, rfl, K12Nodes.holds_of_queue hfinal hcount ?_ hnumber (by omega)⟩
    rw [hlen, ofNat_succ]
    exact ofNat_ne_zero (Nat.succ_pos _) (by omega)

/-- The length of the next chunk, as the loop and as the first lines select it. -/
theorem selectBy_chunkSize {n : Nat} (hlt : n < 2 ^ 32) :
    selectBy K12_chunkSize (BitVec.ofNat 32 n) (BitVec.ofNat 32 n < K12_chunkSize) =
        BitVec.ofNat 32 (min n 8192) ∧
      selectBy (BitVec.ofNat 32 n) K12_chunkSize (K12_chunkSize < BitVec.ofNat 32 n) =
        BitVec.ofNat 32 (min n 8192) := by
  have hsize : K12_chunkSize.toNat = 8192 := rfl
  have hn : (BitVec.ofNat 32 n).toNat = n := by rw [BitVec.toNat_ofNat, Nat.mod_eq_of_lt hlt]
  simp only [selectBy_eq, BitVec.lt_def, hn, hsize, decide_eq_true_eq]
  rcases Nat.lt_trichotomy n 8192 with hlt' | rfl | hgt
  · rw [if_pos hlt', if_neg (by omega), Nat.min_eq_left hlt'.le]
    exact ⟨rfl, rfl⟩
  · exact ⟨rfl, rfl⟩
  · rw [if_neg (by omega), if_pos hgt, Nat.min_eq_right hgt.le]
    exact ⟨rfl, rfl⟩

theorem toNat_chunkLen (n : Nat) : (BitVec.ofNat 32 (min n 8192)).toNat = min n 8192 := by
  rw [BitVec.toNat_ofNat]
  exact Nat.mod_eq_of_lt (by omega)

theorem chunkLen_eq_iff (n : Nat) : BitVec.ofNat 32 (min n 8192) = K12_chunkSize ↔ 8192 ≤ n := by
  rw [← BitVec.toNat_inj, toNat_chunkLen, show K12_chunkSize.toNat = 8192 from rfl]
  omega

theorem sub_chunkLen {n : Nat} (hlt : n < 2 ^ 32) :
    BitVec.ofNat 32 n - BitVec.ofNat 32 (min n 8192) = BitVec.ofNat 32 (n - min n 8192) := by
  have hle : min n 8192 ≤ n := Nat.min_le_left _ _
  bv_omega

theorem absorb_clear (data : List Byte) :
    kangarooTwelve_F_Absorb .clear data = some (absorbed data) :=
  @kangarooTwelve_F_Absorb_absorbed [] data

/-- The queue node of a message of whole chunks. -/
theorem absorbed_zero : (⟨Vector.replicate 200 0, 1⟩ : KangarooTwelveF) = absorbed [0] := by
  have h : (absorbed []).countByte = absorbed [0] := countByte_absorbed
  rw [← h]
  rfl

theorem absorbChunks_zero (turns : Nat) (N : K12Nodes) (input : List Byte) :
    K12Nodes.absorbChunks (turns + 1) N input 0#32 = some N := if_pos rfl

/-- The loop over the chunks behind the first. -/
theorem absorbChunks_eq (Q : KangarooTwelveF) {input : List Byte} {turns : Nat}
    (hturns : input.length < turns) (hlt : done.length + input.length + 2 < 2 ^ 32) :
    ∃ N, (K12Nodes.absorbChunks turns
        ⟨absorbed (front ++ done.flatMap K12.chainingValue), Q, BitVec.ofNat 32 (done.length + 1), 0⟩
        input (BitVec.ofNat 32 input.length)).bind K12Nodes.closeQueue = some N ∧
      N.Holds front (done ++ chunks 8192 (input ++ [0])) := by
  induction turns generalizing done input Q with
  | zero => exact absurd hturns (Nat.not_lt_zero _)
  | succ turns ih =>
      have hsize : 0 < 8192 := by decide
      by_cases hinput : input = []
      · subst hinput
        have hchunks : chunks 8192 ([] ++ [(0 : Byte)]) = [[0]] :=
          chunks_of_length_le hsize (by decide) (by decide)
        have hlen : (1 : BitVec 32) ≠ 0 := by decide
        -- whole chunks only: the byte of the customization string is a chunk of its own
        rw [List.length_nil, absorbChunks_zero, hchunks]
        exact ⟨_, rfl, K12Nodes.holds_of_queue rfl absorbed_zero hlen rfl (by omega)⟩
      · have hpos := List.length_pos_iff.mpr hinput
        rw [K12Nodes.absorbChunks, if_neg (ofNat_ne_zero hpos (by omega)),
          (selectBy_chunkSize (by omega)).1]
        dsimp only
        rw [toNat_chunkLen, sub_chunkLen (by omega), absorb_clear, Option.bind_some]
        -- a short chunk is the last and stays in the queue node
        rcases Nat.lt_or_ge input.length 8192 with hshort | hlong
        · obtain ⟨turns, rfl⟩ : ∃ k, turns = k + 1 := ⟨turns - 1, by omega⟩
          have hchunks : chunks 8192 (input ++ [0]) = [input ++ [0]] := by
            refine chunks_of_length_le hsize (by simp) ?_
            rw [List.length_append, List.length_singleton]
            exact hshort
          rw [if_neg (fun h => absurd ((chunkLen_eq_iff _).mp h) (Nat.not_le.mpr hshort)),
            Nat.min_eq_left hshort.le, Nat.sub_self, List.take_length, Option.bind_some,
            absorbChunks_zero, hchunks]
          exact K12Nodes.holds_closeQueue rfl rfl rfl hpos hshort rfl (by omega)
        · have hfirst : (input.take 8192).length = 8192 := List.length_take_of_le hlong
          have hchunks : chunks 8192 (input ++ [0]) =
              input.take 8192 :: chunks 8192 (input.drop 8192 ++ [0]) := by
            rw [← chunks_append hsize hfirst, ← List.append_assoc, List.take_append_drop]
          obtain ⟨Q', hleaf⟩ := @K12Nodes.leaf_eq
            ⟨absorbed (front ++ done.flatMap K12.chainingValue), absorbed (input.take 8192),
              BitVec.ofNat 32 (done.length + 1), 0⟩ _ _ rfl rfl
          have hlength : (done ++ [input.take 8192]).length = done.length + 1 := by
            rw [List.length_append, List.length_singleton]
          have hdrop : (input.drop 8192).length = input.length - 8192 := List.length_drop
          obtain ⟨N, hrun, hN⟩ := @ih (done ++ [input.take 8192]) Q' (input.drop 8192) (by omega)
            (by omega)
          refine ⟨N, ?_, ?_⟩
          · rw [if_pos ((chunkLen_eq_iff _).mpr hlong), Nat.min_eq_right hlong, hleaf,
              Option.bind_some, ofNat_succ, flatMap_concat, ← hdrop, ← hrun, hlength]
          · rwa [hchunks, List.append_cons]

/-! ## The last lines -/

theorem byteCount_eq {turns : Nat} {v : BitVec 64} (hlt : v.toNat < 256 ^ turns) :
    byteCount turns v = (Nat.digits 256 v.toNat).length := by
  induction turns generalizing v with
  | zero =>
      rw [pow_zero, Nat.lt_one_iff] at hlt
      rw [hlt]
      rfl
  | succ turns ih =>
      rw [byteCount]
      have hshift : (v >>> 8).toNat = v.toNat / 256 := by
        rw [BitVec.toNat_ushiftRight, Nat.shiftRight_eq_div_pow]
      split
      · next hzero =>
        rw [hzero]
        rfl
      · next hne =>
        have hpos : 0 < v.toNat := Nat.pos_of_ne_zero fun h => hne (BitVec.eq_of_toNat_eq h)
        have hnext : (v >>> 8).toNat < 256 ^ turns := by
          rw [hshift]
          exact Nat.div_lt_of_lt_mul (by rwa [← pow_succ'])
        rw [ih hnext, hshift, Nat.digits_def' (by decide) hpos, List.length_cons]

theorem encbuf_eq {n : Nat} (hlt : n < 2 ^ 32) :
    encbuf (BitVec.ofNat 32 n) = K12.lengthEncode n ++ [0xFF, 0xFF] := by
  have hn : (BitVec.ofNat 32 n).toNat = n := by rw [BitVec.toNat_ofNat, Nat.mod_eq_of_lt hlt]
  have hwide : ((BitVec.ofNat 32 n).setWidth 64).toNat = n := by
    rw [BitVec.toNat_setWidth, hn]
    exact Nat.mod_eq_of_lt (by omega)
  have hcount : byteCount 8 ((BitVec.ofNat 32 n).setWidth 64) = (Nat.digits 256 n).length := by
    rw [byteCount_eq (by rw [hwide]; exact hlt.trans (by decide)), hwide]
  have hbytes : (List.range (Nat.digits 256 n).length).map (fun i =>
        (BitVec.ofNat 32 n >>> (8 * ((Nat.digits 256 n).length - (i + 1)))).setWidth 8) =
      (Nat.digits 256 n).reverse.map (BitVec.ofNat 8) := by
    refine List.ext_getElem (by simp) fun i hi hi' => ?_
    rw [List.length_map, List.length_range] at hi
    refine BitVec.eq_of_toNat_eq ?_
    rw [List.getElem_map, List.getElem_range, List.getElem_map, List.getElem_reverse,
      BitVec.toNat_setWidth, BitVec.toNat_ushiftRight, hn, BitVec.toNat_ofNat,
      Nat.shiftRight_eq_div_pow, pow_mul, ← List.getD_eq_getElem _ 0, Nat.getD_digits _ _ (by decide),
      Nat.mod_mod, Nat.sub_sub, Nat.add_comm 1]
    rfl
  rw [encbuf, hcount, hbytes, K12.lengthEncode, List.map_append, List.append_assoc]
  rfl

/-- The final node. -/
theorem K12Nodes.Holds.closeFinal {N : K12Nodes} {first : List Byte} {rest : List (List Byte)}
    (h : N.Holds (first ++ [0x03, 0, 0, 0, 0, 0, 0, 0]) rest) (hlt : rest.length < 2 ^ 32) :
    N.closeFinal.map (fun F =>
        keccakP1600_Permute_12rounds (xorByte F.state (K12_rateInBytes - 1) 0x80)) =
      some (K12.spongeState 0x06 (K12.finalMessage first rest)) := by
  obtain ⟨N', hlast, hfinal, hnumber⟩ := h.last
  have hrest : N'.blockNumber - 1 = BitVec.ofNat 32 rest.length := by
    rw [hnumber, ← ofNat_succ, BitVec.add_sub_cancel]
  have hmessage : first ++ [0x03, 0, 0, 0, 0, 0, 0, 0] ++ rest.flatMap K12.chainingValue ++
      (K12.lengthEncode rest.length ++ [0xFF, 0xFF]) = K12.finalMessage first rest := by
    rw [K12.finalMessage, ← List.append_assoc]
  rw [K12Nodes.closeFinal, hlast, Option.bind_some, hrest, encbuf_eq hlt, hfinal,
    kangarooTwelve_F_Absorb_absorbed, hmessage, Option.map_some, Option.map_some, finish_absorbed]

/-- A message of several chunks. -/
theorem K12.hashState_eq {first : List Byte} {rest : List (List Byte)}
    (hchunks : K12.chunksOf message = first :: rest) (hrest : rest ≠ []) :
    K12.hashState message = K12.spongeState 0x06 (K12.finalMessage first rest) := by
  obtain ⟨chunk, rest, rfl⟩ := List.exists_cons_of_ne_nil hrest
  rw [K12.hashState, hchunks]

/-- A message shorter than a chunk. -/
theorem kangarooTwelve_of_short {input : List Byte} (hshort : input.length < 8192)
    (outputByteLen : Nat) :
    kangarooTwelve input outputByteLen = some ((K12.hashState input).toList.take outputByteLen) := by
  have hlt : input.length < 2 ^ 32 := by omega
  have hchunks : K12.chunksOf input = [input ++ [0]] := by
    refine chunks_of_length_le (by decide) (by simp) ?_
    rw [List.length_append, List.length_singleton]
    exact hshort
  have hlen : ¬ BitVec.ofNat 32 (min input.length 8192) = K12_chunkSize := fun h =>
    absurd ((chunkLen_eq_iff _).mp h) (Nat.not_le.mpr hshort)
  have hstate : K12.hashState input = K12.spongeState 0x07 (input ++ [0]) := by
    rw [K12.hashState, hchunks]
  rw [kangarooTwelve]
  dsimp only
  rw [(selectBy_chunkSize hlt).2, toNat_chunkLen, Nat.min_eq_left hshort.le, List.take_length,
    absorb_clear, Option.bind_some]
  rw [Nat.min_eq_left hshort.le] at hlen
  rw [if_neg (fun h => hlen h.1), if_neg hlen, Option.bind_some, if_neg (not_not.mpr rfl),
    Option.map_some, state_closeOnly, countByte_absorbed, finish_absorbed, hstate]
  rfl

/-- The lines behind the chunks of a longer message. -/
theorem K12Nodes.Holds.output {N : K12Nodes} {first : List Byte} {rest : List (List Byte)}
    (h : N.Holds (first ++ [0x03, 0, 0, 0, 0, 0, 0, 0]) rest)
    (hchunks : K12.chunksOf message = first :: rest) (hrest : rest ≠ [])
    (hlt : rest.length < 2 ^ 32) (outputByteLen : Nat) :
    (if N.blockNumber ≠ 0 then N.closeFinal else some N.finalNode).map (fun F =>
        (keccakP1600_Permute_12rounds (xorByte F.state (K12_rateInBytes - 1) 0x80)).toList.take
          outputByteLen) =
      some ((K12.hashState message).toList.take outputByteLen) := by
  have hfinal := congrArg (Option.map fun state : KeccakState => state.toList.take outputByteLen)
    (h.closeFinal hlt)
  rw [Option.map_map, Option.map_some] at hfinal
  rw [if_pos h.blockNumber_ne, K12.hashState_eq hchunks hrest]
  exact hfinal

/-- A message of one chunk. -/
theorem kangarooTwelve_of_one {input : List Byte} (hone : input.length = 8192)
    (outputByteLen : Nat) :
    kangarooTwelve input outputByteLen = some ((K12.hashState input).toList.take outputByteLen) := by
  have hchunks : K12.chunksOf input = [input, [0]] := by
    rw [K12.chunksOf, chunks_append (by decide) hone,
      chunks_of_length_le (by decide) (by decide) (by decide)]
  have hholds : K12Nodes.Holds ⟨absorbed (input ++ [0x03, 0, 0, 0, 0, 0, 0, 0]), absorbed [0], 1, 1⟩
      (input ++ [0x03, 0, 0, 0, 0, 0, 0, 0]) [[0]] := by
    refine @K12Nodes.holds_of_queue _ [] _ [0] ?_ rfl (show (1 : BitVec 32) ≠ 0 by decide) rfl
      (by decide)
    rw [List.flatMap_nil, List.append_nil]
  have hlen : BitVec.ofNat 32 8192 = K12_chunkSize := rfl
  have hleft : ¬ (BitVec.ofNat 32 8192 = K12_chunkSize ∧ BitVec.ofNat 32 8192 -
      BitVec.ofNat 32 8192 ≠ 0) := fun h => h.2 (BitVec.sub_self _)
  rw [kangarooTwelve]
  dsimp only
  rw [(selectBy_chunkSize (by omega)).2, toNat_chunkLen, hone, Nat.min_self,
    List.take_of_length_le hone.le, absorb_clear, Option.bind_some, if_neg hleft, if_pos hlen,
    absorbed_zero, closeFirst_absorbed hone, Option.bind_some]
  exact hholds.output hchunks (by simp) (by decide) outputByteLen

/-- A message of several chunks. -/
theorem kangarooTwelve_of_long {input : List Byte} (hinput : input.length < 2 ^ 32)
    (hlong : 8192 < input.length) (outputByteLen : Nat) :
    kangarooTwelve input outputByteLen = some ((K12.hashState input).toList.take outputByteLen) := by
  have hfirst : (input.take 8192).length = 8192 := List.length_take_of_le hlong.le
  have hdrop : (input.drop 8192).length = input.length - 8192 := List.length_drop
  have hchunks : K12.chunksOf input = input.take 8192 :: chunks 8192 (input.drop 8192 ++ [0]) := by
    rw [K12.chunksOf, ← chunks_append (by decide) hfirst, ← List.append_assoc,
      List.take_append_drop]
  have hrest : chunks 8192 (input.drop 8192 ++ [0]) ≠ [] := by
    rw [chunks_of_ne_nil (by decide) (by simp)]
    exact List.cons_ne_nil _ _
  have hcount : (chunks 8192 (input.drop 8192 ++ [0])).length < 2 ^ 32 := by
    rw [length_chunks, List.length_append, List.length_singleton, hdrop]
    omega
  obtain ⟨N, hrun, hholds⟩ := @absorbChunks_eq
    (input.take 8192 ++ [0x03, 0, 0, 0, 0, 0, 0, 0]) [] .clear (input.drop 8192)
    (input.length - 8192 + 1) (by omega) (by rw [List.length_nil]; omega)
  rw [List.flatMap_nil, List.append_nil, hdrop] at hrun
  have hlen : BitVec.ofNat 32 8192 = K12_chunkSize := rfl
  have hsub := sub_chunkLen hinput
  rw [Nat.min_eq_right hlong.le] at hsub
  have hleft : BitVec.ofNat 32 (input.length - 8192) ≠ 0 := ofNat_ne_zero (by omega) (by omega)
  have hturns : (BitVec.ofNat 32 (input.length - 8192)).toNat = input.length - 8192 := by
    rw [BitVec.toNat_ofNat]
    exact Nat.mod_eq_of_lt (by omega)
  rw [kangarooTwelve]
  dsimp only
  rw [(selectBy_chunkSize hinput).2, toNat_chunkLen, Nat.min_eq_right hlong.le, absorb_clear,
    Option.bind_some, hsub, hturns, if_pos ⟨hlen, hleft⟩, closeFirst_absorbed hfirst]
  exact (congrArg (Option.bind · _) hrun).trans (hholds.output hchunks hrest hcount outputByteLen)

theorem kangarooTwelve_eq_take {input : List Byte} (hinput : input.length < 2 ^ 32)
    (outputByteLen : Nat) :
    kangarooTwelve input outputByteLen = some ((K12.hashState input).toList.take outputByteLen) := by
  rcases Nat.lt_trichotomy input.length 8192 with hshort | hone | hlong
  · exact kangarooTwelve_of_short hshort outputByteLen
  · exact kangarooTwelve_of_one hone outputByteLen
  · exact kangarooTwelve_of_long hinput hlong outputByteLen

/-- `KangarooTwelve` is the tree hash. -/
theorem kangarooTwelve_eq {input : List Byte} {outputByteLen : Nat} (hinput : input.length < 2 ^ 32)
    (houtput : outputByteLen ≤ 168) :
    kangarooTwelve input outputByteLen = some ((K12.hash input).take outputByteLen) := by
  rw [K12.hash, List.take_take, Nat.min_eq_left houtput]
  exact kangarooTwelve_eq_take hinput outputByteLen

/-- Three chunks, the last of them not whole. -/
theorem kangarooTwelve_eq_chunks : kangarooTwelve (List.replicate 20000 0) 32 =
    some ((K12.hash (List.replicate 20000 0)).take 32) :=
  kangarooTwelve_eq (by rw [List.length_replicate]; decide) (by decide)

/-! ## The hash of the other modules -/

/-- The two functions that the other modules have as a parameter. -/
def KangarooTwelve.source : KangarooTwelve where
  hash32 input := BitVec.ofNat 256 (leNat ((kangarooTwelve input 32).getD []))
  hash8 input := BitVec.ofNat 64 (leNat ((kangarooTwelve input 8).getD []))

/-- A value read from memory has the bytes it was read from. -/
theorem leBytes_leNat {n w : Nat} (hw : w = 8 * n) {bs : List Byte} (hlength : bs.length = n) :
    leBytes n (BitVec.ofNat w (leNat bs)) = bs := by
  refine List.ext_getElem (by rw [length_leBytes, hlength]) fun q hq hq' => ?_
  rw [length_leBytes] at hq
  refine BitVec.eq_of_getLsbD_eq fun t ht => ?_
  have hbit : 8 * q + t < w := by omega
  simp only [leBytes, List.getElem_map, List.getElem_range, BitVec.getLsbD_extractLsb', ht,
    BitVec.getLsbD_ofNat, hbit, decide_true, Bool.true_and]
  rw [testBit_leNat bs q ht, List.getD_eq_getElem _ _ hq']

theorem bytes_source {input : List Byte} (hinput : input.length < 2 ^ 32) :
    (KangarooTwelve.source.hash32 input).bytes = (K12.hash input).take 32 ∧
      leBytes 8 (KangarooTwelve.source.hash8 input) = (K12.hash input).take 8 := by
  have htake : ∀ n, n ≤ 168 →
      (kangarooTwelve input n).getD [] = (K12.hash input).take n ∧
        ((K12.hash input).take n).length = n := by
    intro n hn
    have hstate : (K12.hash input).take n = (K12.hashState input).toList.take n := by
      rw [K12.hash, List.take_take, Nat.min_eq_left hn]
    refine ⟨?_, ?_⟩
    · rw [kangarooTwelve_eq_take hinput, Option.getD_some, hstate]
    · rw [hstate, List.length_take_of_le]
      rw [Vector.length_toList]
      omega
  obtain ⟨h32, hlength32⟩ := htake 32 (by decide)
  obtain ⟨h8, hlength8⟩ := htake 8 (by decide)
  refine ⟨?_, ?_⟩
  · simp only [m256i.bytes, KangarooTwelve.source, h32]
    exact leBytes_leNat rfl hlength32
  · simp only [KangarooTwelve.source, h8]
    exact leBytes_leNat rfl hlength8

end QubicBob
