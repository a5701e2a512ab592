import Mathlib.Tactic
import Mathlib.Logic.Function.Basic

set_option autoImplicit false

/-! # Bit sets kept in 64-bit words

A bit set is an array of 64-bit words; bit `i` is bit `i &&& 63` of word `i >>> 6`. Besides
the one-bit operations there are the two operations a tree scan needs: `testPair` asks whether
one of the bits `i`, `i + 1` is set and `clearPair` clears both (`i` even, so that the pair lies
in one word). Every operation is described by its effect on `getBit`.
-/

namespace BitWords

/-- The words of a bit set. -/
abbrev Words := Nat → BitVec 64

def getBit (f : Words) (i : Nat) : Bool := (f (i >>> 6)).getLsbD (i &&& 63)

def setBit (f : Words) (i : Nat) : Words :=
  Function.update f (i >>> 6) (f (i >>> 6) ||| (1#64 <<< (i &&& 63)))

def testPair (f : Words) (i : Nat) : Bool := (f (i >>> 6) &&& (3#64 <<< (i &&& 63))) != 0#64

def clearPair (f : Words) (i : Nat) : Words :=
  Function.update f (i >>> 6) (f (i >>> 6) &&& ~~~(3#64 <<< (i &&& 63)))

theorem shiftRight_six (i : Nat) : i >>> 6 = i / 64 := by
  rw [Nat.shiftRight_eq_div_pow]

theorem and_sixtyThree (i : Nat) : i &&& 63 = i % 64 :=
  Nat.and_two_pow_sub_one_eq_mod i 6

theorem getBit_eq (f : Words) (i : Nat) : getBit f i = (f (i / 64)).getLsbD (i % 64) := by
  rw [getBit, shiftRight_six, and_sixtyThree]

/-- Two bit positions are equal when word and offset are. -/
theorem index_ext {i j : Nat} (hw : i / 64 = j / 64) (ho : i % 64 = j % 64) : i = j := by
  omega

theorem getLsbD_three (m : Nat) : (3#64).getLsbD m = decide (m < 2) := by
  rcases m with _ | _ | m
  · rfl
  · rfl
  · have h3 : (3#64).toNat < 2 ^ (m + 2) := by
      have : 2 ^ 2 ≤ 2 ^ (m + 2) := Nat.pow_le_pow_right (by decide) (by omega)
      exact lt_of_lt_of_le (by decide) this
    rw [BitVec.getLsbD, Nat.testBit_lt_two_pow h3]
    simp

/-- The pair mask of an even position has exactly the two bits of the pair. -/
theorem getLsbD_pairMask {o m : Nat} (hm : m < 64) :
    (3#64 <<< o).getLsbD m = decide (m = o ∨ m = o + 1) := by
  rw [BitVec.getLsbD_shiftLeft, getLsbD_three]
  by_cases hlt : m < o
  · simp [hlt, hm]; omega
  · simp only [hm, hlt, decide_true, decide_false, Bool.not_false, Bool.true_and, Bool.and_true]
    rw [decide_eq_decide]
    omega

theorem getLsbD_bitMask {o m : Nat} (hm : m < 64) :
    (1#64 <<< o).getLsbD m = decide (m = o) := by
  rw [BitVec.getLsbD_shiftLeft, BitVec.getLsbD_one]
  by_cases hlt : m < o
  · simp [hlt, hm]; omega
  · simp only [hm, hlt, decide_true, decide_false, Bool.not_false, Bool.true_and]
    simp
    omega

/-- Setting a bit sets that bit and no other. -/
theorem getBit_setBit (f : Words) (i j : Nat) :
    getBit (setBit f i) j = (decide (j = i) || getBit f j) := by
  rw [getBit_eq, getBit_eq, setBit, shiftRight_six, and_sixtyThree]
  by_cases hw : j / 64 = i / 64
  · rw [hw, Function.update_self, BitVec.getLsbD_or, getLsbD_bitMask (Nat.mod_lt _ (by decide)),
      Bool.or_comm]
    congr 1
    rw [decide_eq_decide]
    constructor
    · exact index_ext hw
    · intro h; rw [h]
  · rw [Function.update_of_ne hw]
    have hne : j ≠ i := fun h => hw (by rw [h])
    simp [hne]

/-- A pair test on an even position reads the two bits of the pair. -/
theorem testPair_eq (f : Words) {i : Nat} (hi : i % 2 = 0) :
    testPair f i = (getBit f i || getBit f (i + 1)) := by
  have hw : (i + 1) / 64 = i / 64 := by omega
  have ho : (i + 1) % 64 = i % 64 + 1 := by omega
  rw [getBit_eq, getBit_eq, testPair, shiftRight_six, and_sixtyThree, hw, ho]
  rw [Bool.eq_iff_iff, bne_iff_ne, ne_eq, Bool.or_eq_true]
  -- an even position and its neighbour are in one word, and the mask has just these two bits
  constructor
  · intro hne
    by_contra hcon
    rw [not_or, Bool.not_eq_true, Bool.not_eq_true] at hcon
    apply hne
    apply BitVec.eq_of_getLsbD_eq
    intro m hm
    rw [BitVec.getLsbD_and, getLsbD_pairMask hm, BitVec.getLsbD_zero]
    by_cases h : m = i % 64 ∨ m = i % 64 + 1
    · rcases h with h | h
      · rw [h, hcon.1, Bool.false_and]
      · rw [h, hcon.2, Bool.false_and]
    · simp [h]
  · intro hbit hz
    have hmask : ∀ m, m < 64 → (m = i % 64 ∨ m = i % 64 + 1) →
        (f (i / 64)).getLsbD m = false := by
      intro m hm hor
      have hm' := congrArg (fun w => w.getLsbD m) hz
      simpa [BitVec.getLsbD_and, getLsbD_pairMask hm, hor] using hm'
    rcases hbit with hbit | hbit
    · rw [hmask _ (Nat.mod_lt _ (by decide)) (Or.inl rfl)] at hbit
      exact Bool.noConfusion hbit
    · rw [hmask _ (by omega) (Or.inr rfl)] at hbit
      exact Bool.noConfusion hbit

/-- Clearing the pair at an even position clears its two bits and no other. -/
theorem getBit_clearPair (f : Words) {i : Nat} (hi : i % 2 = 0) (j : Nat) :
    getBit (clearPair f i) j = (getBit f j && !decide (j = i ∨ j = i + 1)) := by
  rw [getBit_eq, getBit_eq, clearPair, shiftRight_six, and_sixtyThree]
  by_cases hw : j / 64 = i / 64
  · rw [hw, Function.update_self, BitVec.getLsbD_and, BitVec.getLsbD_not,
      getLsbD_pairMask (Nat.mod_lt _ (by decide))]
    have hj : j % 64 < 64 := Nat.mod_lt _ (by decide)
    simp only [hj, decide_true, Bool.true_and]
    congr 2
    rw [decide_eq_decide]
    omega
  · rw [Function.update_of_ne hw]
    have hne : ¬ (j = i ∨ j = i + 1) := by omega
    simp [hne]

/-- Zeroing word `w` clears exactly the bits of that word. -/
theorem getBit_update_zero (f : Words) (w j : Nat) :
    getBit (Function.update f w 0#64) j = (getBit f j && !decide (j / 64 = w)) := by
  rw [getBit_eq, getBit_eq]
  by_cases hw : j / 64 = w
  · rw [hw, Function.update_self]; simp
  · rw [Function.update_of_ne hw]; simp [hw]

/-- A word all of whose bits are clear is zero. -/
theorem word_eq_zero (f : Words) (w : Nat) (h : ∀ o, o < 64 → getBit f (64 * w + o) = false) :
    f w = 0#64 := by
  apply BitVec.eq_of_getLsbD_eq
  intro m hm
  have hbit := h m hm
  rw [getBit_eq] at hbit
  have hw : (64 * w + m) / 64 = w := by omega
  have ho : (64 * w + m) % 64 = m := by omega
  rw [hw, ho] at hbit
  rw [hbit, BitVec.getLsbD_zero]

end BitWords
