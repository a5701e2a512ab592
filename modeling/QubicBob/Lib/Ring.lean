import Mathlib.Tactic
import Mathlib.Data.List.Rotate

set_option autoImplicit false

/-! # Circular buffers

A buffer of `C` cells is used as a ring: a run of cells that reaches the end goes on at cell 0.
Reading and writing are the two-part block copies an implementation makes. Both are described on
the view from the read position, `buf.rotate head`: reading takes its first cells, writing behind
the first `k` cells changes the cells from `k` on and no other.
-/

namespace Ring

variable {α : Type*}

/-- `n` cells from `off`. -/
def slice (buf : List α) (off n : Nat) : List α := (buf.drop off).take n

/-- The block `xs` copied over the cells from `off`. -/
def overwrite (buf : List α) (off : Nat) (xs : List α) : List α :=
  buf.take off ++ xs ++ buf.drop (off + xs.length)

/-- `n` cells from `head` in a ring of `C` cells, in one block or in two. -/
def read (C : Nat) (buf : List α) (head n : Nat) : List α :=
  if head + n ≤ C then slice buf head n
  else slice buf head (C - head) ++ slice buf 0 (n - (C - head))

/-- `xs` stored from `tail` in a ring of `C` cells, in one block or in two. -/
def write (C : Nat) (buf : List α) (tail : Nat) (xs : List α) : List α :=
  if tail + xs.length ≤ C then overwrite buf tail xs
  else overwrite (overwrite buf tail (xs.take (C - tail))) 0 (xs.drop (C - tail))

theorem length_overwrite {buf : List α} {off : Nat} {xs : List α}
    (h : off + xs.length ≤ buf.length) : (overwrite buf off xs).length = buf.length := by
  simp only [overwrite, List.length_append, List.length_take, List.length_drop]
  omega

section view

variable {C : Nat} {buf : List α}

/-- The view from `t`: the cells from `t` to the end, then the cells before `t`. -/
theorem rotate_eq {t : Nat} (hlen : buf.length = C) (ht : t < C) :
    buf.rotate t = buf.drop t ++ buf.take t :=
  List.rotate_eq_drop_append_take (by omega)

/-- Moving the point of view on by `k` cells, round the end if need be. -/
theorem rotate_advance {head k : Nat} (hlen : buf.length = C) :
    buf.rotate ((head + k) % C) = (buf.rotate head).rotate k := by
  rw [List.rotate_rotate, ← hlen, List.rotate_mod]

theorem rotate_append_of_length {l m : List α} {k : Nat} (h : l.length = k) :
    (l ++ m).rotate k = m ++ l := by
  rw [← h, List.rotate_append_length_eq]

/-- Reading from `head` takes the first cells of the view from `head`. -/
theorem read_eq {head n : Nat} (hlen : buf.length = C) (hh : head < C) (hn : n ≤ C) :
    read C buf head n = (buf.rotate head).take n := by
  have hdrop : (buf.drop head).length = C - head := by rw [List.length_drop, hlen]
  rw [rotate_eq hlen hh, List.take_append, hdrop, read]
  split
  · next h =>
    have h0 : n - (C - head) = 0 := by omega
    rw [h0, List.take_zero, List.append_nil, slice]
  · next h =>
    have hall : (buf.drop head).take n = (buf.drop head).take (C - head) := by
      rw [List.take_of_length_le (by omega), List.take_of_length_le (by omega)]
    have hmin : min (n - (C - head)) head = n - (C - head) := by omega
    rw [hall, List.take_take, hmin, slice, slice, List.drop_zero]

theorem length_write {t : Nat} {xs : List α} (hlen : buf.length = C) (ht : t < C)
    (hxs : xs.length ≤ C) : (write C buf t xs).length = C := by
  rw [write]
  split
  · next h => rw [length_overwrite (by omega), hlen]
  · next h =>
    have h1 : (xs.take (C - t)).length = C - t := by rw [List.length_take]; omega
    have h2 : (xs.drop (C - t)).length = xs.length - (C - t) := List.length_drop
    have hfst : (overwrite buf t (xs.take (C - t))).length = C := by
      rw [length_overwrite (by omega), hlen]
    rw [length_overwrite (by omega), hfst]

/-- After a write at `t` the view from `t` starts with the block and goes on as before. -/
theorem write_rotate_self {t : Nat} {xs : List α} (hlen : buf.length = C) (ht : t < C)
    (hxs : xs.length ≤ C) :
    (write C buf t xs).rotate t = xs ++ (buf.rotate t).drop xs.length := by
  have htake : (buf.take t).length = t := by rw [List.length_take]; omega
  rw [rotate_eq (length_write hlen ht hxs) ht, rotate_eq hlen ht, write]
  split
  · next h =>
    -- one block: the cells before `t` stay where they are
    have hd : (overwrite buf t xs).drop t = xs ++ buf.drop (t + xs.length) := by
      rw [overwrite, List.append_assoc, List.drop_left' htake]
    have hk : (overwrite buf t xs).take t = buf.take t := by
      rw [overwrite, List.append_assoc, List.take_left' htake]
    rw [hd, hk, List.drop_append_of_le_length (by rw [List.length_drop]; omega), List.drop_drop,
      List.append_assoc]
  · next h =>
    -- two blocks: the second overwrites the first cells, and every cell from `t` on is new
    have h1 : (xs.take (C - t)).length = C - t := by rw [List.length_take]; omega
    have h2 : (xs.drop (C - t)).length = xs.length - (C - t) := List.length_drop
    have hfst : overwrite buf t (xs.take (C - t)) = buf.take t ++ xs.take (C - t) := by
      rw [overwrite, h1, List.drop_of_length_le (by omega), List.append_nil]
    have hrest : (buf.take t ++ xs.take (C - t)).drop (xs.length - (C - t)) =
        (buf.take t).drop (xs.length - (C - t)) ++ xs.take (C - t) :=
      List.drop_append_of_le_length (by omega)
    have hall : overwrite (overwrite buf t (xs.take (C - t))) 0 (xs.drop (C - t)) =
        (xs.drop (C - t) ++ (buf.take t).drop (xs.length - (C - t))) ++ xs.take (C - t) := by
      rw [hfst, overwrite, List.take_zero, List.nil_append, h2, Nat.zero_add, hrest,
        List.append_assoc]
    have hmid : (xs.drop (C - t) ++ (buf.take t).drop (xs.length - (C - t))).length = t := by
      rw [List.length_append, h2, List.length_drop, htake]; omega
    have hgone : (buf.drop t).drop xs.length = [] :=
      List.drop_of_length_le (by rw [List.length_drop]; omega)
    have hlen' : xs.length - (buf.drop t).length = xs.length - (C - t) := by
      rw [List.length_drop, hlen]
    rw [hall, List.drop_left' hmid, List.take_left' hmid, List.drop_append, hgone, hlen',
      List.nil_append, ← List.append_assoc, List.take_append_drop]

/-- A write behind the first `k` cells of the view from `head` keeps those cells, puts the block
behind them and keeps what lies behind the block. -/
theorem write_rotate {head k : Nat} {xs : List α} (hlen : buf.length = C) (hC : 0 < C)
    (hk : k + xs.length ≤ C) :
    (write C buf ((head + k) % C) xs).rotate head =
      (buf.rotate head).take k ++ xs ++ (buf.rotate head).drop (k + xs.length) := by
  have ht : (head + k) % C < C := Nat.mod_lt _ hC
  have hw : (write C buf ((head + k) % C) xs).length = C := length_write hlen ht (by omega)
  have hvlen : (buf.rotate head).length = C := by rw [List.length_rotate, hlen]
  have htake : ((buf.rotate head).take k).length = k := by rw [List.length_take]; omega
  -- both sides seen `k` cells further on, that is, from the place of the write
  apply List.rotate_injective k
  change ((write C buf ((head + k) % C) xs).rotate head).rotate k =
    ((buf.rotate head).take k ++ xs ++ (buf.rotate head).drop (k + xs.length)).rotate k
  rw [← rotate_advance hw, write_rotate_self hlen ht (by omega), rotate_advance hlen,
    List.append_assoc, rotate_append_of_length htake, List.rotate_eq_drop_append_take (by omega),
    List.drop_append_of_le_length (by rw [List.length_drop]; omega), List.drop_drop,
    List.append_assoc]

/-- Moving the read position on by `n` drops the first `n` cells of the view. -/
theorem take_rotate_advance {head n k : Nat} (hlen : buf.length = C) (hk : n + k ≤ C) :
    (buf.rotate ((head + n) % C)).take k = ((buf.rotate head).drop n).take k := by
  have hvlen : (buf.rotate head).length = C := by rw [List.length_rotate, hlen]
  rw [rotate_advance hlen, List.rotate_eq_drop_append_take (by omega),
    List.take_append_of_le_length (by rw [List.length_drop]; omega)]

end view

end Ring
