import QubicBob.Basic.Bytes

set_option autoImplicit false

/-! # Memory images of structs

The image of a struct is the images of its fields one after another, and that of an array the images
of its elements. A field is read back at its offset: what stands before it is skipped (`readLE_skip`,
`readLE_skip_array`), and the field itself is at the front (`readLE_front`, `readLE_array`).
-/

namespace QubicBob

section layout

variable {w : Nat} {x : BitVec w} {m n off : Nat} {rest : List Byte}

theorem readLE_append_right {front : List Byte} (h : front.length = m) (hle : m ≤ off) :
    readLE (front ++ rest) off n = readLE rest (off - m) n := by
  obtain ⟨k, rfl⟩ := Nat.exists_eq_add_of_le hle
  rw [Nat.add_sub_cancel_left, readLE, readLE, ← List.drop_drop, List.drop_left' h]

/-- A field in front of the one to be read. -/
theorem readLE_skip (hle : m ≤ off) :
    readLE (leBytes m x ++ rest) off n = readLE rest (off - m) n :=
  readLE_append_right (length_leBytes m x) hle

/-- The field is at the front. -/
theorem readLE_front (h : w = 8 * n) : readLE (leBytes n x ++ rest) 0 n = x.toNat := by
  have hlt : x.toNat < 256 ^ n := by
    have hpow : 2 ^ w = 256 ^ n := by rw [h, pow_mul]; rfl
    rw [← hpow]
    exact x.isLt
  rw [readLE, List.drop_zero, List.take_left' (length_leBytes n x), leNat_leBytes,
    Nat.mod_eq_of_lt hlt]

/-- The field is the last one. -/
theorem readLE_last (h : w = 8 * n) : readLE (leBytes n x) 0 n = x.toNat := by
  rw [← List.append_nil (leBytes n x)]
  exact readLE_front h

/-! ## Arrays -/

variable {k : Nat} {f : Fin k → BitVec w}

theorem length_flatMap_leBytes (l : List (BitVec w)) :
    (l.flatMap (leBytes m)).length = m * l.length := by
  induction l with
  | nil => rfl
  | cons a l ih =>
      rw [List.flatMap_cons, List.length_append, length_leBytes, ih, List.length_cons]
      ring

theorem drop_flatMap_leBytes (l : List (BitVec w)) (i : Nat) :
    (l.flatMap (leBytes m)).drop (m * i) = (l.drop i).flatMap (leBytes m) := by
  induction i generalizing l with
  | zero => rfl
  | succ i ih =>
      cases l with
      | nil => rw [List.drop_nil, List.flatMap_nil, List.drop_nil]
      | cons a l =>
          rw [Nat.mul_succ, Nat.add_comm, List.flatMap_cons, ← List.drop_drop,
            List.drop_left' (length_leBytes m a), ih, List.drop_succ_cons]

/-- An array in front of the field. -/
theorem readLE_skip_array (hle : m * k ≤ off) :
    readLE ((List.ofFn f).flatMap (leBytes m) ++ rest) off n = readLE rest (off - m * k) n :=
  readLE_append_right (by rw [length_flatMap_leBytes, List.length_ofFn]) hle

/-- An element of the array at the front. -/
theorem readLE_array (h : w = 8 * n) (i : Fin k) :
    readLE ((List.ofFn f).flatMap (leBytes n) ++ rest) (n * i.val) n = (f i).toNat := by
  have hi : i.val < (List.ofFn f).length := by rw [List.length_ofFn]; exact i.isLt
  have hdrop : ((List.ofFn f).flatMap (leBytes n) ++ rest).drop (n * i.val) =
      leBytes n (f i) ++ (((List.ofFn f).drop (i.val + 1)).flatMap (leBytes n) ++ rest) := by
    rw [List.drop_append_of_le_length, drop_flatMap_leBytes, List.drop_eq_getElem_cons hi,
      List.flatMap_cons, List.append_assoc, List.getElem_ofFn]
    rw [length_flatMap_leBytes]
    exact Nat.mul_le_mul_left n hi.le
  have hread := @readLE_front w (f i) n
    (((List.ofFn f).drop (i.val + 1)).flatMap (leBytes n) ++ rest) h
  rw [← hdrop, readLE, List.drop_zero] at hread
  rw [readLE]
  exact hread

end layout

end QubicBob
