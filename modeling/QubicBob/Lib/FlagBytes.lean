import Mathlib.Data.Nat.Bitwise
import Mathlib.Tactic

set_option autoImplicit false

/-! # Flags kept in bytes

An array of flags packed into bytes: flag `i` is bit `i &&& 7` of byte `i >>> 3`. The byte is read as a
number and tested against the mask of the bit (`testFlag`), or the mask is or-ed into it (`setFlag`).
Setting a flag inside the array sets that flag and no other (`testFlag_setFlag`), so an array filled
from a list has the flags of its members (`testFlag_foldl_setFlag`).
-/

namespace FlagBytes

/-- The byte a flag is in, read as a number; past the end it is zero. -/
def flagByte (flags : List (BitVec 8)) (i : Nat) : Nat := (flags.getD (i >>> 3) 0).toNat

def testFlag (flags : List (BitVec 8)) (i : Nat) : Bool :=
  decide (flagByte flags i &&& (1 <<< (i &&& 7)) ≠ 0)

def setFlag (flags : List (BitVec 8)) (i : Nat) : List (BitVec 8) :=
  flags.modify (i >>> 3) fun b => b ||| BitVec.ofNat 8 (1 <<< (i &&& 7))

variable {flags : List (BitVec 8)} {i j : Nat}

theorem shiftRight_three (i : Nat) : i >>> 3 = i / 8 := by
  rw [Nat.shiftRight_eq_div_pow]

theorem and_seven (i : Nat) : i &&& 7 = i % 8 := Nat.and_two_pow_sub_one_eq_mod i 3

/-- A mask of one bit tests this bit. -/
theorem testFlag_eq (flags : List (BitVec 8)) (i : Nat) :
    testFlag flags i = (flags.getD (i / 8) 0).getLsbD (i % 8) := by
  rw [testFlag, flagByte, shiftRight_three, and_seven, Nat.one_shiftLeft, Nat.and_two_pow,
    BitVec.getLsbD]
  cases (flags.getD (i / 8) 0).toNat.testBit (i % 8) with
  | false => simp
  | true => simp

theorem length_setFlag (flags : List (BitVec 8)) (i : Nat) :
    (setFlag flags i).length = flags.length := List.length_modify _ _ _

theorem testFlag_setFlag (hi : i < 8 * flags.length) (j : Nat) :
    testFlag (setFlag flags i) j = (decide (j = i) || testFlag flags j) := by
  have hbyte : i / 8 < flags.length := by omega
  have hbit : j % 8 < 8 := Nat.mod_lt _ (by decide)
  rw [testFlag_eq, testFlag_eq, setFlag, shiftRight_three, and_seven, Nat.one_shiftLeft,
    List.getD_eq_getElem?_getD, List.getD_eq_getElem?_getD, List.getElem?_modify, Option.map_eq_map]
  by_cases hj : i / 8 = j / 8
  · simp only [hj, if_true]
    rw [hj] at hbyte
    rw [List.getElem?_eq_getElem hbyte, Option.map_some, Option.getD_some, Option.getD_some,
      BitVec.getLsbD_or, BitVec.getLsbD_ofNat, Nat.testBit_two_pow, Bool.or_comm,
      decide_eq_true hbit, Bool.true_and]
    congr 1
    rw [decide_eq_decide]
    omega
  · simp only [hj, if_false]
    rw [Option.map_id', decide_eq_false (by rintro rfl; exact hj rfl), Bool.false_or]

/-- An array filled from a list has the flags of its members besides its own. -/
theorem testFlag_foldl_setFlag {is : List Nat} (his : ∀ i ∈ is, i < 8 * flags.length) (j : Nat) :
    testFlag (is.foldl setFlag flags) j = (decide (j ∈ is) || testFlag flags j) := by
  induction is generalizing flags with
  | nil => simp
  | cons i is ih =>
      obtain ⟨hi, his⟩ := List.forall_mem_cons.mp his
      rw [List.foldl_cons, ih (by rwa [length_setFlag]), testFlag_setFlag hi]
      simp only [List.mem_cons, Bool.decide_or]
      rw [← Bool.or_assoc, Bool.or_comm (decide (j ∈ is))]

theorem length_foldl_setFlag (is : List Nat) (flags : List (BitVec 8)) :
    (is.foldl setFlag flags).length = flags.length := by
  induction is generalizing flags with
  | nil => rfl
  | cons i is ih => rw [List.foldl_cons, ih, length_setFlag]

theorem testFlag_replicate (n : Nat) (j : Nat) : testFlag (List.replicate n 0) j = false := by
  rw [testFlag_eq, List.getD_eq_getElem?_getD, List.getElem?_replicate]
  split
  · simp
  · simp

end FlagBytes
