import Mathlib.Tactic

set_option autoImplicit false

/-! # The permutation Keccak-p[1600]

The state is 5 × 5 lanes of 64 bits. A round is the composition of the five step mappings `theta`,
`rho`, `pi`, `chi` and `iota`; `keccakP n` is the last `n` of the 24 rounds. The round constants come
from a shift register of eight bits.

As a string of 200 bytes the state has lane `(x, y)` in the bytes from `8 * (5 * y + x)` on, the
lowest first.
-/

namespace Keccak

theorem five_ne_zero : NeZero 5 := ⟨by decide⟩

attribute [local instance] five_ne_zero

/-- The lanes, by column `x` and row `y`. -/
abbrev Lanes := Fin 5 → Fin 5 → BitVec 64

/-! ## The step mappings -/

/-- The parity of a column. -/
def parity (A : Lanes) (x : Fin 5) : BitVec 64 := A x 0 ^^^ A x 1 ^^^ A x 2 ^^^ A x 3 ^^^ A x 4

def theta (A : Lanes) : Lanes := fun x y =>
  A x y ^^^ (parity A (x - 1) ^^^ (parity A (x + 1)).rotateLeft 1)

/-- The rotation of each lane: row `x` of the table is column `x` of the state. -/
def rotations : Vector (Vector Nat 5) 5 :=
  #v[#v[0, 36, 3, 41, 18], #v[1, 44, 10, 45, 2], #v[62, 6, 43, 15, 61], #v[28, 55, 25, 21, 56],
    #v[27, 20, 39, 8, 14]]

def rho (A : Lanes) : Lanes := fun x y => (A x y).rotateLeft rotations[x][y]

def pi (A : Lanes) : Lanes := fun x y => A (x + 3 * y) x

def chi (A : Lanes) : Lanes := fun x y => A x y ^^^ (~~~A (x + 1) y &&& A (x + 2) y)

def iota (rc : BitVec 64) (A : Lanes) : Lanes := fun x y =>
  if x = 0 ∧ y = 0 then A x y ^^^ rc else A x y

def round (rc : BitVec 64) (A : Lanes) : Lanes := iota rc (chi (pi (rho (theta A))))

/-! ## The rounds -/

/-- The shift register after `t` steps. -/
def register : Nat → BitVec 8
  | 0 => 1
  | t + 1 => register t <<< 1 ^^^ if (register t).msb then 0x71 else 0

/-- The constant of round `i`: bit `2 ^ j - 1` is a bit of the shift register. -/
def roundConstant (i : Nat) : BitVec 64 :=
  (List.range 7).foldl (fun rc j => if (register (7 * i + j)).getLsbD 0 then
    rc ||| 1 <<< (2 ^ j - 1) else rc) 0

def keccakP (n : Nat) (A : Lanes) : Lanes :=
  (List.range n).foldl (fun A k => round (roundConstant (24 - n + k)) A) A

/-! ## The state as bytes -/

/-- A string of 200 bytes. -/
abbrev Bytes := Vector (BitVec 8) 200

/-- The value of lane `k`. -/
def lane (s : Bytes) (k : Nat) : BitVec 64 :=
  BitVec.ofNat 64 (Nat.ofDigits 256 (((s.toList.drop (8 * k)).take 8).map BitVec.toNat))

/-- The bytes of the lanes, in order. -/
def ofLanes (w : Fin 25 → BitVec 64) : Bytes :=
  Vector.ofFn fun i => (w ⟨i / 8, by omega⟩).extractLsb' (8 * (i % 8)) 8

def toLanes (s : Bytes) : Lanes := fun x y => lane s (5 * y + x)

def permute (n : Nat) (s : Bytes) : Bytes :=
  ofLanes fun k => keccakP n (toLanes s) ⟨k % 5, by omega⟩ ⟨k / 5, by omega⟩

end Keccak
