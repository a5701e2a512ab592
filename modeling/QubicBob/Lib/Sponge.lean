import Mathlib.Tactic
import Mathlib.Data.List.GetD

set_option autoImplicit false

/-! # The sponge construction

A sponge over a permutation `f` of `b` bytes xors a padded message into the first `r` bytes of its
state, block by block, with `f` after each block. `sponge` is the construction on a whole message.
`absorb` takes a message as it comes, in any number of pieces (`absorb_append`), and keeps the place in
the block; finished with a suffix it gives what `sponge` gives (`sponge_eq`).
-/

namespace Sponge

variable {α : Type*}

/-! ## Chunks -/

/-- The list in pieces of `n`, the last of them possibly shorter. -/
def chunks (n : Nat) (l : List α) : List (List α) :=
  (List.range ((l.length + n - 1) / n)).map fun k => (l.drop (n * k)).take n

variable {n : Nat} {l : List α}

@[simp] theorem chunks_nil (hn : 0 < n) : chunks n ([] : List α) = [] := by
  rw [chunks, List.length_nil, Nat.zero_add, Nat.div_eq_of_lt (by omega)]
  rfl

theorem length_chunks : (chunks n l).length = (l.length + n - 1) / n := by
  rw [chunks, List.length_map, List.length_range]

theorem chunks_of_ne_nil (hn : 0 < n) (hl : l ≠ []) :
    chunks n l = l.take n :: chunks n (l.drop n) := by
  have hpos := List.length_pos_iff.mpr hl
  have hcount : (l.length + n - 1) / n = ((l.drop n).length + n - 1) / n + 1 := by
    rw [List.length_drop]
    rcases Nat.le_total n l.length with hle | hle
    · rw [← Nat.add_div_right _ hn]
      congr 1
      omega
    · have hone : (l.length + n - 1) / n = 1 := Nat.div_eq_of_lt_le (by omega) (by omega)
      have hzero : (l.length - n + n - 1) / n = 0 := Nat.div_eq_of_lt (by omega)
      rw [hone, hzero]
  rw [chunks, hcount, List.range_succ_eq_map, List.map_cons, List.map_map, Nat.mul_zero,
    List.drop_zero, chunks]
  congr 1
  refine List.map_congr_left fun k _ => ?_
  rw [Function.comp_apply, List.drop_drop, Nat.succ_eq_add_one, Nat.mul_add, Nat.mul_one,
    Nat.add_comm]

/-- A whole first chunk. -/
theorem chunks_append (hn : 0 < n) {front : List α} (hfront : front.length = n) (l : List α) :
    chunks n (front ++ l) = front :: chunks n l := by
  have hne : front ++ l ≠ [] := by
    refine List.ne_nil_of_length_pos ?_
    rw [List.length_append]
    omega
  rw [chunks_of_ne_nil hn hne, ← hfront, List.take_left, List.drop_left]

theorem chunks_of_length_le (hn : 0 < n) (hl : l ≠ []) (hle : l.length ≤ n) :
    chunks n l = [l] := by
  rw [chunks_of_ne_nil hn hl, List.take_of_length_le hle, List.drop_of_length_le hle, chunks_nil hn]

/-! ## Bytes xored into the state -/

variable {b : Nat}

/-- The state with `bs` xored in from byte `p` on. -/
def xorAt (s : Vector (BitVec 8) b) (p : Nat) (bs : List (BitVec 8)) : Vector (BitVec 8) b :=
  Vector.ofFn fun i => if p ≤ i.val then s[i] ^^^ bs.getD (i.val - p) 0#8 else s[i]

variable {s : Vector (BitVec 8) b} {p : Nat} {bs cs : List (BitVec 8)}

@[simp] theorem getElem_xorAt {i : Nat} (hi : i < b) :
    (xorAt s p bs)[i] = if p ≤ i then s[i] ^^^ bs.getD (i - p) 0#8 else s[i] := by
  simp [xorAt]

@[simp] theorem xorAt_nil : xorAt s p [] = s := by
  ext i hi
  simp

theorem xorAt_append : xorAt s p (bs ++ cs) = xorAt (xorAt s p bs) (p + bs.length) cs := by
  ext i hi : 1
  rw [getElem_xorAt, getElem_xorAt, getElem_xorAt]
  by_cases hp : p ≤ i
  · by_cases hlt : i < p + bs.length
    · rw [if_pos hp, if_neg (by omega), if_pos hp, List.getD_append _ _ _ _ (by omega)]
    · rw [if_pos hp, if_pos (by omega), if_pos hp, List.getD_append_right _ _ _ _ (by omega),
        List.getD_eq_default bs _ (by omega), BitVec.xor_zero, Nat.sub_sub]
  · rw [if_neg hp, if_neg (by omega), if_neg hp]

/-- Zeros change nothing. -/
theorem xorAt_replicate_zero (k : Nat) : xorAt s p (List.replicate k 0#8) = s := by
  ext i hi : 1
  rw [getElem_xorAt]
  split_ifs with hp
  · rcases Nat.lt_or_ge (i - p) k with hlt | hge
    · rw [List.getD_replicate _ hlt, BitVec.xor_zero]
    · rw [List.getD_eq_default _ _ (by rw [List.length_replicate]; exact hge), BitVec.xor_zero]
  · rfl

/-! ## Absorbing -/

section Absorb

variable (r : Nat) (f : Vector (BitVec 8) b → Vector (BitVec 8) b)

/-- A full block is permuted. -/
def settle (st : Vector (BitVec 8) b × Nat) : Vector (BitVec 8) b × Nat :=
  if st.2 = r then (f st.1, 0) else st

/-- One byte more: the state, and the place in the block. -/
def absorbByte (st : Vector (BitVec 8) b × Nat) (x : BitVec 8) : Vector (BitVec 8) b × Nat :=
  settle r f (xorAt st.1 st.2 [x], st.2 + 1)

def absorb (st : Vector (BitVec 8) b × Nat) (bs : List (BitVec 8)) : Vector (BitVec 8) b × Nat :=
  bs.foldl (absorbByte r f) st

/-- The bytes behind a message that leaves room for `n` in its last block: the suffix comes first, and
the last bit of the block is set. -/
def padding (suffix : BitVec 8) : Nat → List (BitVec 8)
  | 0 => []
  | 1 => [suffix ^^^ 0x80]
  | n + 2 => suffix :: (List.replicate n 0#8 ++ [0x80])

def pad (suffix : BitVec 8) (bs : List (BitVec 8)) : List (BitVec 8) :=
  bs ++ padding suffix (r - bs.length % r)

/-- The state behind the padded message. -/
def sponge (suffix : BitVec 8) (bs : List (BitVec 8)) : Vector (BitVec 8) b :=
  (chunks r (pad r suffix bs)).foldl (fun s block => f (xorAt s 0 block)) (Vector.replicate b 0)

variable {r f} {st : Vector (BitVec 8) b × Nat}

theorem settle_of_lt (h : p < r) : settle r f (s, p) = (s, p) :=
  if_neg (Nat.ne_of_lt h)

theorem settle_full : settle r f (s, r) = (f s, 0) := if_pos rfl

theorem absorb_cons (x : BitVec 8) :
    absorb r f (s, p) (x :: bs) = absorb r f (settle r f (xorAt s p [x], p + 1)) bs := rfl

/-- Absorbing a message in two pieces. -/
theorem absorb_append : absorb r f st (bs ++ cs) = absorb r f (absorb r f st bs) cs :=
  List.foldl_append

/-- A piece that fits into the block. -/
theorem absorb_of_le (hp : p < r) (hle : p + bs.length ≤ r) :
    absorb r f (s, p) bs = settle r f (xorAt s p bs, p + bs.length) := by
  induction bs generalizing s p with
  | nil => rw [List.length_nil, Nat.add_zero, settle_of_lt hp, xorAt_nil]; rfl
  | cons x bs ih =>
      rw [List.length_cons] at hle
      have hcons : xorAt s p (x :: bs) = xorAt (xorAt s p [x]) (p + 1) bs :=
        @xorAt_append b s p [x] bs
      rw [absorb_cons, hcons, List.length_cons]
      rcases Nat.lt_or_eq_of_le (show p + 1 ≤ r by omega) with hlt | heq
      · rw [settle_of_lt hlt, ih hlt (by omega), Nat.add_assoc, Nat.add_comm 1]
      · obtain rfl : bs = [] := List.length_eq_zero_iff.mp (by omega)
        rw [xorAt_nil]
        rfl

/-- One block. -/
theorem absorb_block (hr : 0 < r) (hlength : bs.length = r) :
    absorb r f (s, 0) bs = (f (xorAt s 0 bs), 0) := by
  rw [absorb_of_le hr (by omega), Nat.zero_add, hlength, settle_full]

/-- The place in the block is that of the length. -/
theorem absorb_snd (hp : p < r) : (absorb r f (s, p) bs).2 = (p + bs.length) % r := by
  induction bs generalizing s p with
  | nil => exact (Nat.mod_eq_of_lt hp).symm
  | cons x bs ih =>
      rw [absorb_cons, List.length_cons]
      rcases Nat.lt_or_eq_of_le (show p + 1 ≤ r by omega) with hlt | heq
      · rw [settle_of_lt hlt, ih hlt, Nat.add_assoc, Nat.add_comm 1]
      · have hr : p + (bs.length + 1) = bs.length + r := by omega
        rw [heq, settle_full, ih (by omega), hr, Nat.zero_add, Nat.add_mod_right]

/-- A message of whole blocks. -/
theorem foldl_chunks (hr : 0 < r) (hdvd : r ∣ bs.length) :
    ((chunks r bs).foldl (fun s block => f (xorAt s 0 block)) s, 0) = absorb r f (s, 0) bs := by
  obtain ⟨k, hk⟩ := hdvd
  induction k generalizing s bs with
  | zero =>
      obtain rfl : bs = [] := List.length_eq_zero_iff.mp hk
      rw [chunks_nil hr]
      rfl
  | succ k ih =>
      rw [Nat.mul_succ] at hk
      have hfront : (bs.take r).length = r := by
        rw [List.length_take]
        omega
      have hrest : (bs.drop r).length = r * k := by
        rw [List.length_drop]
        omega
      have happend := List.take_append_drop r bs
      rw [← happend, chunks_append hr hfront, List.foldl_cons, ih hrest, absorb_append,
        absorb_block hr hfront]

theorem length_padding (suffix : BitVec 8) : (padding suffix n).length = n := by
  match n with
  | 0 => rfl
  | 1 => rfl
  | n + 2 => rw [padding, List.length_cons, List.length_append, List.length_replicate]; rfl

theorem xorAt_padding (suffix : BitVec 8) (hn : 0 < n) :
    xorAt s p (padding suffix n) = xorAt (xorAt s p [suffix]) (p + n - 1) [0x80] := by
  match n, hn with
  | 1, _ =>
      -- suffix and last bit meet in one byte
      ext i hi : 1
      rw [padding, getElem_xorAt, getElem_xorAt, getElem_xorAt, Nat.add_sub_cancel]
      by_cases hp : p ≤ i
      · rcases Nat.eq_or_lt_of_le hp with rfl | hlt
        · simp [BitVec.xor_assoc]
        · have hzero : ∀ x : BitVec 8, [x].getD (i - p) 0#8 = 0#8 := fun x =>
            List.getD_eq_default _ _ (by rw [List.length_singleton]; omega)
          rw [if_pos hp, if_pos hp, if_pos hp, hzero, hzero, hzero, BitVec.xor_zero, BitVec.xor_zero]
      · rw [if_neg hp, if_neg hp, if_neg hp]
  | n + 2, _ =>
      have hplace : p + (n + 2) - 1 = p + 1 + n := by omega
      calc xorAt s p (padding suffix (n + 2))
          = xorAt (xorAt s p [suffix]) (p + 1) (List.replicate n 0#8 ++ ([0x80] : List (BitVec 8))) :=
            @xorAt_append b s p [suffix] _
        _ = xorAt (xorAt s p [suffix]) (p + (n + 2) - 1) [0x80] := by
            rw [xorAt_append, xorAt_replicate_zero, List.length_replicate, hplace]

/-- Absorbing, finished with a suffix: the padding is two bytes xored into the state. -/
theorem sponge_eq (hr : 0 < r) (suffix : BitVec 8) (bs : List (BitVec 8)) :
    sponge r f suffix bs =
      f (xorAt (xorAt (absorb r f (Vector.replicate b 0, 0) bs).1
        (absorb r f (Vector.replicate b 0, 0) bs).2 [suffix]) (r - 1) [0x80]) := by
  have hplace : (absorb r f (Vector.replicate b 0, 0) bs).2 = bs.length % r := by
    rw [absorb_snd hr, Nat.zero_add]
  have hlt : bs.length % r < r := Nat.mod_lt _ hr
  have hdvd : r ∣ (pad r suffix bs).length := by
    refine ⟨bs.length / r + 1, ?_⟩
    have hdiv := Nat.div_add_mod bs.length r
    rw [pad, List.length_append, length_padding, Nat.mul_succ]
    omega
  have hfull : bs.length % r + (r - bs.length % r) = r := by omega
  have hst : absorb r f (Vector.replicate b 0, 0) bs =
      ((absorb r f (Vector.replicate b 0, 0) bs).1, bs.length % r) := Prod.ext rfl hplace
  calc sponge r f suffix bs
      = (absorb r f (Vector.replicate b 0, 0) (pad r suffix bs)).1 :=
        congrArg Prod.fst (foldl_chunks hr hdvd)
    _ = f (xorAt (xorAt (absorb r f (Vector.replicate b 0, 0) bs).1 (bs.length % r) [suffix])
          (r - 1) [0x80]) := by
        rw [pad, absorb_append, hst, absorb_of_le hlt (by rw [length_padding, hfull]),
          length_padding, hfull, settle_full, xorAt_padding suffix (by omega), hfull]
    _ = _ := by rw [hplace]

end Absorb

end Sponge
