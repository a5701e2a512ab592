import Mathlib.Tactic

set_option autoImplicit false

/-! # Streams that arrive in pieces

A stream is read in pieces whose sizes the reader does not choose. `Cuts` is one way of cutting it:
for the number of a read and the most it could give, the size of the piece, never empty when there
is something to give. What has been read and what is left are always the stream (`read_append`), so
that whatever a reader gathers does not depend on the cuts.

`repeated` is a receiver called several times. One that takes a frame off the front of any stream
that starts with it gives back a sequence of frames (`repeated_frames`).
-/

namespace Fragments

variable {α ρ σ φ : Type*}

/-- The size of each piece, by the number of the read and the most it could give. -/
structure Cuts where
  size : Nat → Nat → Nat
  pos : ∀ call limit, 0 < limit → 0 < size call limit
  le : ∀ call limit, size call limit ≤ limit

/-- One item at a time. -/
def Cuts.single : Cuts where
  size _ limit := min 1 limit
  pos _ limit h := by omega
  le _ limit := Nat.min_le_right 1 limit

/-- What is still to come, and the number of reads made so far. -/
structure Source (α : Type*) where
  items : List α
  reads : Nat

variable (c : Cuts) (s : Source α) (limit : Nat)

/-- The size of the next piece. -/
def pieceSize : Nat := c.size s.reads (min limit s.items.length)

/-- The next piece, of at most `limit` items. -/
def piece : List α := s.items.take (pieceSize c s limit)

/-- The stream behind the next piece. -/
def rest : Source α := ⟨s.items.drop (pieceSize c s limit), s.reads + 1⟩

variable {c s limit}

theorem read_append : piece c s limit ++ (rest c s limit).items = s.items :=
  List.take_append_drop _ _

theorem length_piece_add_rest :
    (piece c s limit).length + (rest c s limit).items.length = s.items.length := by
  rw [← List.length_append, read_append]

theorem length_piece : (piece c s limit).length = pieceSize c s limit := by
  have hle := c.le s.reads (min limit s.items.length)
  rw [piece, List.length_take, pieceSize]
  omega

theorem length_piece_le : (piece c s limit).length ≤ limit := by
  have hle := c.le s.reads (min limit s.items.length)
  rw [length_piece, pieceSize]
  omega

theorem length_piece_pos (hlimit : 0 < limit) (hs : s.items ≠ []) :
    0 < (piece c s limit).length := by
  have hlen := List.length_pos_of_ne_nil hs
  rw [length_piece]
  exact c.pos _ _ (by omega)

/-- The first `n` items: a piece, and then the rest of them from what is left. -/
theorem take_eq_piece_append {n : Nat} (h : limit ≤ n) :
    s.items.take n =
      piece c s limit ++ (rest c s limit).items.take (n - (piece c s limit).length) := by
  have hle : (piece c s limit).length ≤ limit := length_piece_le
  have hall : piece c s limit ++ (rest c s limit).items = s.items := read_append
  conv_lhs => rw [← hall]
  rw [List.take_append, List.take_of_length_le (hle.trans h)]

/-- The items behind the first `n`. -/
theorem drop_eq_rest_drop {n : Nat} (h : limit ≤ n) :
    s.items.drop n = (rest c s limit).items.drop (n - (piece c s limit).length) := by
  have hle : (piece c s limit).length ≤ limit := length_piece_le
  have hall : piece c s limit ++ (rest c s limit).items = s.items := read_append
  conv_lhs => rw [← hall]
  rw [List.drop_append, List.drop_of_length_le (hle.trans h), List.nil_append]

/-! ## A receiver called several times -/

/-- The results of `n` calls, and the state behind them. -/
def repeated (receive : σ → ρ × σ) : Nat → σ → List ρ × σ
  | 0, s => ([], s)
  | n + 1, s =>
      ((receive s).1 :: (repeated receive n (receive s).2).1, (repeated receive n (receive s).2).2)

/-- Frames come back as they were sent when each call takes the first of them off the stream.
`At s items` says that `items` is what the state `s` is still to receive. -/
theorem repeated_frames {receive : σ → ρ × σ} {At : σ → List α → Prop} {image : φ → List α}
    {result : φ → ρ}
    (hframe : ∀ (p : φ) (trailing : List α) (s : σ), At s (image p ++ trailing) →
      (receive s).1 = result p ∧ At (receive s).2 trailing)
    (frames : List φ) (trailing : List α) (s : σ) (hs : At s (frames.flatMap image ++ trailing)) :
    (repeated receive frames.length s).1 = frames.map result ∧
      At (repeated receive frames.length s).2 trailing := by
  induction frames generalizing s with
  | nil => exact ⟨rfl, hs⟩
  | cons p frames ih =>
      rw [List.flatMap_cons, List.append_assoc] at hs
      have hp := hframe p (frames.flatMap image ++ trailing) s hs
      have hrest := ih (receive s).2 hp.2
      constructor
      · show (receive s).1 :: _ = _
        rw [hp.1, hrest.1, List.map_cons]
      · exact hrest.2

end Fragments
