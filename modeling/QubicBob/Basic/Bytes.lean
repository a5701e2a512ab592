import Mathlib.Tactic
import Mathlib.Logic.Function.Basic

set_option autoImplicit false

/-! # Bytes, 256-bit values and the hash

The fixed-width values of the node and their little-endian byte images. A `long long` is a
`BitVec 64` read with `toInt`, an `unsigned int` a `BitVec 32`, an `unsigned short` a `BitVec 16`.

The hash function is a parameter: `KangarooTwelve` is any function on byte strings, with the two
output lengths the node asks for.
-/

namespace QubicBob

abbrev Byte := BitVec 8

/-- The `n` low bytes of `x`, the lowest first: the memory image of a little-endian integer. -/
def leBytes {w : Nat} (n : Nat) (x : BitVec w) : List Byte :=
  (List.range n).map (fun k => x.extractLsb' (8 * k) 8)

/-- The value of a little-endian byte string. -/
def leNat : List Byte → Nat
  | [] => 0
  | b :: bs => b.toNat + 256 * leNat bs

/-- `memcpy` of `n` bytes at `offset` into an integer. Bytes past the end read as zero. -/
def readLE (bytes : List Byte) (offset n : Nat) : Nat := leNat ((bytes.drop offset).take n)

theorem leNat_lt (bs : List Byte) : leNat bs < 256 ^ bs.length := by
  induction bs with
  | nil => exact Nat.one_pos
  | cons b bs ih =>
      have hb := b.isLt
      rw [leNat, List.length_cons, Nat.pow_succ]
      omega

theorem readLE_lt (bytes : List Byte) (off n : Nat) : readLE bytes off n < 256 ^ n :=
  (leNat_lt _).trans_le (Nat.pow_le_pow_right (by decide) (List.length_take_le _ _))

theorem leNat_map_extract {w : Nat} (x : BitVec w) (n s : Nat) :
    leNat ((List.range n).map fun k => x.extractLsb' (s + 8 * k) 8) = x.toNat / 2 ^ s % 256 ^ n := by
  induction n generalizing s with
  | zero => simp [leNat, Nat.mod_one]
  | succ n ih =>
      have hshift : (fun k => x.extractLsb' (s + 8 * k) 8) ∘ Nat.succ =
          fun k => x.extractLsb' ((s + 8) + 8 * k) 8 := by
        funext k
        rw [Function.comp_apply, Nat.succ_eq_add_one, Nat.mul_add, Nat.mul_one,
          Nat.add_right_comm, Nat.add_assoc s]
      rw [List.range_succ_eq_map, List.map_cons, List.map_map, hshift, leNat, ih, Nat.mul_zero,
        Nat.add_zero, BitVec.extractLsb'_toNat, Nat.shiftRight_eq_div_pow, pow_succ' 256 n,
        Nat.mod_mul, pow_add, ← Nat.div_div_eq_div_mul]
      rfl

/-- The memory image of a value, read back. -/
theorem leNat_leBytes {w : Nat} (x : BitVec w) (n : Nat) :
    leNat (leBytes n x) = x.toNat % 256 ^ n := by
  have h := leNat_map_extract x n 0
  simp only [Nat.zero_add, pow_zero, Nat.div_one] at h
  exact h

theorem length_leBytes {w : Nat} (n : Nat) (x : BitVec w) : (leBytes n x).length = n := by
  rw [leBytes, List.length_map, List.length_range]

/-! ## `long long` without overflow -/

theorem toInt_sub_of_le {a b : BitVec 64} (hb : 0 ≤ b.toInt) (hle : b.toInt ≤ a.toInt) :
    (a - b).toInt = a.toInt - b.toInt := by
  have ha := BitVec.toInt_lt (x := a)
  rw [BitVec.toInt_sub]
  exact Int.bmod_eq_of_le (by omega) (by omega)

theorem toInt_add_of_lt {a b : BitVec 64} (ha : 0 ≤ a.toInt) (hb : 0 ≤ b.toInt)
    (hlt : a.toInt + b.toInt < 2 ^ 63) : (a + b).toInt = a.toInt + b.toInt := by
  rw [BitVec.toInt_add]
  exact Int.bmod_eq_of_le (by omega) (by omega)

/-! ## `m256i` -/

/-- The 256-bit union of `m256i.h`, as the little-endian value of its 32 bytes. -/
abbrev m256i := BitVec 256

namespace m256i

def zero : m256i := 0#256

def isZero (a : m256i) : Bool := a == zero

/-- `m256i_u32[0]`: the first four bytes. -/
def u32 (a : m256i) : Nat := (a.extractLsb' 0 32).toNat

def bytes (a : m256i) : List Byte := leBytes 32 a

theorem isZero_iff {a : m256i} : isZero a = true ↔ a = zero := by
  rw [isZero, beq_iff_eq]

end m256i

/-! ## The hash -/

/-- `KangarooTwelve(input, inputLen, output, outputLen)` for the output lengths 32 and 8. -/
structure KangarooTwelve where
  hash32 : List Byte → m256i
  hash8 : List Byte → BitVec 64

/-- `KangarooTwelve64To32` on two adjacent 32-byte values. -/
def kangarooTwelve64To32 (K : KangarooTwelve) (left right : m256i) : m256i :=
  K.hash32 (left.bytes ++ right.bytes)

/-! ## Ways a call can fail to return -/

/-- A call that does not come back: `exit(code)`, a probe loop that goes round for ever, or an
array access outside the array. -/
inductive Halt where
  | exit (code : Int)
  | diverge
  | outOfBounds
  deriving DecidableEq, Repr

/-- The value of an `Except` computation that was started with a `match` on an optional slot: a
probe that finds nothing never returns. -/
def orDiverge {α : Type} : Option α → Except Halt α
  | some a => .ok a
  | none => .error .diverge

@[simp] theorem orDiverge_some {α : Type} (a : α) : orDiverge (some a) = .ok a := rfl

@[simp] theorem orDiverge_none {α : Type} : orDiverge (none : Option α) = .error .diverge := rfl

theorem orDiverge_eq_ok {α : Type} {o : Option α} {a : α} : orDiverge o = .ok a ↔ o = some a := by
  cases o with
  | none => simp
  | some b => simp

theorem orDiverge_eq_error {α : Type} {o : Option α} {e : Halt} (h : orDiverge o = .error e) :
    e = .diverge := by
  cases o with
  | none => exact (Except.error.inj h).symm
  | some a => exact absurd h (by simp)

/-- A sequence of two calls returns when both do. -/
theorem bind_eq_ok {α β : Type} {x : Except Halt α} {f : α → Except Halt β} {b : β} :
    (x >>= f) = .ok b ↔ ∃ a, x = .ok a ∧ f a = .ok b := by
  cases x with
  | error e => simp [bind, Except.bind]
  | ok a => simp [bind, Except.bind]

theorem map_fst_eq_ok {α β : Type} {x : Except Halt (α × β)} {a : α}
    (h : x.map Prod.fst = .ok a) : ∃ b, x = .ok (a, b) := by
  cases x with
  | error e => exact absurd h (by simp [Except.map])
  | ok p => exact ⟨p.2, by rw [← Except.ok.inj h]⟩

theorem exists_ok_of_isOk {α : Type} {x : Except Halt α} (h : x.isOk = true) :
    ∃ a, x = .ok a := by
  cases x with
  | error e => exact absurd h (by simp [Except.isOk, Except.toBool])
  | ok a => exact ⟨a, rfl⟩

/-- A computation that comes back with a value that passes a test. -/
theorem exists_ok_of_any {α : Type} {x : Except Halt α} {test : α → Bool}
    (h : x.toOption.any test = true) : ∃ a, x = .ok a ∧ test a = true := by
  cases x with
  | error e => exact absurd h (by simp [Except.toOption])
  | ok a => exact ⟨a, rfl, by simpa [Except.toOption] using h⟩

end QubicBob
