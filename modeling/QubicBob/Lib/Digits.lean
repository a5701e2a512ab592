import Mathlib.Tactic
import Mathlib.Data.BitVec

set_option autoImplicit false

/-! # Numbers written with letters

A number in base `b` stands in a buffer as a fixed number of letters, the lowest digit first.
`writeDigits` writes them by dividing, `readDigits` reads them from the last letter to the first by
Horner's rule. The reader calculates in any semiring, so that a machine word that wraps around is
one of its cases: wrapping around is a homomorphism from the natural numbers, and it commutes with
Horner's rule. What a word is read from is therefore decided by the number the letters stand for,
and a word whose digits fit into the cells is read back.

An `Alphabet` says which letter a digit is, and which digit a letter. The two are inverse to each
other, which carries every statement about digits over to letters.
-/

namespace Digits

variable {α R : Type*}

/-- The `n` lowest digits of `x`, the lowest first. -/
def digits (b : Nat) : Nat → Nat → List Nat
  | 0, _ => []
  | n + 1, x => x % b :: digits b n (x / b)

/-- `n` cells of a buffer. -/
def cells (buf : Nat → α) (pos n : Nat) : List α := (List.range' pos n).map buf

/-- The `n` lowest digits of `x`, written from `pos` on. -/
def writeDigits (b : Nat) (letter : Nat → α) : Nat → Nat → Nat → (Nat → α) → Nat → α
  | 0, _, _, buf => buf
  | n + 1, pos, x, buf =>
      writeDigits b letter n (pos + 1) (x / b) (Function.update buf pos (letter (x % b)))

/-- The numbers `f 0`, `f 1`, ... one behind the other, `n` letters each. -/
def writeNumbers (b : Nat) (letter : Nat → α) (n : Nat) (f : Nat → Nat) (count : Nat)
    (buf : Nat → α) : Nat → α :=
  (List.range count).foldl (fun buf i => writeDigits b letter n (i * n) (f i) buf) buf

/-- The `n` letters from `pos` on, read from the last to the first. A letter that is no digit ends
the reading. -/
def readDigits [Semiring R] (b : Nat) (digit? : α → Option Nat) (buf : Nat → α) (pos : Nat) :
    Nat → R → Option R
  | 0, value => some value
  | n + 1, value =>
      (digit? (buf (pos + n))).bind fun d => readDigits b digit? buf pos n (value * b + d)

/-- The number of a list of letters, with `start` for the digits behind them. -/
def numberFrom [Semiring R] (b : Nat) (digit? : α → Option Nat) (start : R) (letters : List α) :
    Option R :=
  letters.foldr
    (fun c acc => acc.bind fun value => (digit? c).map fun d : Nat => value * (b : R) + d)
    (some start)

/-! ## Digits -/

section digits

variable {b n x d : Nat}

theorem length_digits : (digits b n x).length = n := by
  induction n generalizing x with
  | zero => rfl
  | succ n ih => rw [digits, List.length_cons, ih]

theorem lt_of_mem_digits (hb : 0 < b) (h : d ∈ digits b n x) : d < b := by
  induction n generalizing x with
  | zero => exact absurd h List.not_mem_nil
  | succ n ih =>
      rcases List.mem_cons.mp h with rfl | h
      · exact Nat.mod_lt _ hb
      · exact ih h

theorem ofDigits_digits : Nat.ofDigits b (digits b n x) = x % b ^ n := by
  induction n generalizing x with
  | zero => rw [digits, Nat.ofDigits_nil, pow_zero, Nat.mod_one]
  | succ n ih => rw [digits, Nat.ofDigits_cons, ih, pow_succ', Nat.mod_mul]

/-- Digits are those of the number that they are read as. -/
theorem digits_ofDigits (hb : 1 < b) {ds : List Nat} (hlt : ∀ d ∈ ds, d < b) :
    digits b ds.length (Nat.ofDigits b ds) = ds := by
  have hvalue : Nat.ofDigits b ds < b ^ ds.length := Nat.ofDigits_lt_base_pow_length hb hlt
  refine Nat.ofDigits_inj_of_len_eq hb length_digits
    (fun d hd => lt_of_mem_digits (by omega) hd) hlt ?_
  rw [ofDigits_digits, Nat.mod_eq_of_lt hvalue]

end digits

/-! ## Cells -/

section cells

variable {buf buf' : Nat → α} {pos m n : Nat}

theorem length_cells : (cells buf pos n).length = n := by
  rw [cells, List.length_map, List.length_range']

theorem cells_succ : cells buf pos (n + 1) = buf pos :: cells buf (pos + 1) n := by
  rw [cells, List.range'_succ, List.map_cons, cells]

theorem cells_add : cells buf pos (m + n) = cells buf pos m ++ cells buf (pos + m) n := by
  have hrange : List.range' pos (m + n) = List.range' pos m ++ List.range' (pos + m) n := by
    rw [← List.range'_append, Nat.one_mul]
  rw [cells, hrange, List.map_append, cells, cells]

theorem take_cells (h : m ≤ n) : (cells buf pos n).take m = cells buf pos m := by
  obtain ⟨k, rfl⟩ := Nat.exists_eq_add_of_le h
  rw [cells_add, List.take_left' length_cells]

theorem drop_cells (h : m ≤ n) : (cells buf pos n).drop m = cells buf (pos + m) (n - m) := by
  obtain ⟨k, rfl⟩ := Nat.exists_eq_add_of_le h
  rw [cells_add, List.drop_left' length_cells, Nat.add_sub_cancel_left]

theorem cells_one : cells buf pos 1 = [buf pos] := rfl

/-- The cells of adjacent blocks. -/
theorem cells_blocks {count : Nat} :
    cells buf 0 (count * n) = (List.range count).flatMap (fun i => cells buf (i * n) n) := by
  induction count with
  | zero => rw [Nat.zero_mul]; rfl
  | succ count ih =>
      rw [Nat.succ_mul, cells_add, ih, Nat.zero_add, List.range_succ, List.flatMap_append,
        List.flatMap_cons, List.flatMap_nil, List.append_nil]

theorem cells_map {β : Type*} (g : α → β) :
    cells (fun k => g (buf k)) pos n = (cells buf pos n).map g := by
  rw [cells, cells, List.map_map]
  rfl

theorem cells_eq_iff :
    cells buf pos n = cells buf' pos n ↔ ∀ k, pos ≤ k → k < pos + n → buf k = buf' k := by
  rw [cells, cells, List.map_inj_left]
  refine forall_congr' (fun k => ?_)
  rw [List.mem_range'_1, and_imp]

theorem cells_congr (h : ∀ k, pos ≤ k → k < pos + n → buf k = buf' k) :
    cells buf pos n = cells buf' pos n :=
  cells_eq_iff.mpr h

end cells

/-! ## Writing -/

section write

variable {b : Nat} {letter : Nat → α} {n pos x : Nat} {buf : Nat → α}

/-- Nothing but the `n` cells is written. -/
theorem writeDigits_frame {k : Nat} (h : k < pos ∨ pos + n ≤ k) :
    writeDigits b letter n pos x buf k = buf k := by
  induction n generalizing pos x buf with
  | zero => rfl
  | succ n ih =>
      rw [writeDigits, ih (by omega), Function.update_of_ne (by omega)]

theorem cells_writeDigits :
    cells (writeDigits b letter n pos x buf) pos n = (digits b n x).map letter := by
  induction n generalizing pos x buf with
  | zero => rfl
  | succ n ih =>
      have hfirst : writeDigits b letter n (pos + 1) (x / b)
          (Function.update buf pos (letter (x % b))) pos = letter (x % b) := by
        rw [writeDigits_frame (Or.inl (Nat.lt_succ_self pos)), Function.update_self]
      rw [cells_succ, writeDigits, hfirst, ih, digits, List.map_cons]

variable {f : Nat → Nat} {count : Nat}

theorem writeNumbers_succ : writeNumbers b letter n f (count + 1) buf =
    writeDigits b letter n (count * n) (f count) (writeNumbers b letter n f count buf) := by
  rw [writeNumbers, List.range_succ, List.foldl_append, List.foldl_cons, List.foldl_nil,
    writeNumbers]

/-- Each number stands in its own cells. -/
theorem cells_writeNumbers_block {i : Nat} (hi : i < count) :
    cells (writeNumbers b letter n f count buf) (i * n) n = (digits b n (f i)).map letter := by
  induction count with
  | zero => exact absurd hi (Nat.not_lt_zero i)
  | succ count ih =>
      rw [writeNumbers_succ]
      rcases Nat.lt_succ_iff_lt_or_eq.mp hi with hlt | rfl
      · have hbefore : i * n + n ≤ count * n := by
          rw [← Nat.succ_mul]
          exact Nat.mul_le_mul_right n hlt
        rw [← ih hlt]
        exact cells_congr (fun k _ hk => writeDigits_frame (Or.inl (by omega)))
      · exact cells_writeDigits

end write

/-! ## Reading -/

section read

variable [CommSemiring R] {b n pos : Nat} {digit? : α → Option Nat} {buf : Nat → α}

theorem numberFrom_cons (c : α) (letters : List α) (start : R) :
    numberFrom b digit? start (c :: letters) =
      (numberFrom b digit? start letters).bind
        fun value => (digit? c).map fun d : Nat => value * (b : R) + d := rfl

theorem foldr_none (letters : List α) :
    letters.foldr (fun c acc => acc.bind fun value =>
      (digit? c).map fun d : Nat => value * (b : R) + d) none = none := by
  induction letters with
  | nil => rfl
  | cons c letters ih => rw [List.foldr_cons, ih, Option.bind_none]

/-- The reader calculates the number of the letters. -/
theorem readDigits_eq (start : R) : readDigits b digit? buf pos n start =
    numberFrom b digit? start (cells buf pos n) := by
  induction n generalizing start with
  | zero => rfl
  | succ n ih =>
      rw [readDigits, cells_add, cells_one, numberFrom, List.foldr_append, List.foldr_cons,
        List.foldr_nil, Option.bind_some]
      cases digit? (buf (pos + n)) with
      | none => exact (foldr_none _).symm
      | some d => exact ih (start * b + d)

/-- Wrapping around commutes with reading: the number in `R` is the number itself, cast to `R`. -/
theorem numberFrom_cast (start : Nat) (letters : List α) :
    numberFrom b digit? (start : R) letters =
      (numberFrom b digit? start letters).map (Nat.cast : Nat → R) := by
  induction letters with
  | nil => rfl
  | cons c letters ih =>
      rw [numberFrom_cons, numberFrom_cons, ih]
      cases numberFrom b digit? start letters with
      | none => rfl
      | some value =>
          rw [Option.map_some, Option.bind_some, Option.bind_some]
          cases digit? c with
          | none => rfl
          | some d =>
              rw [Option.map_some, Option.map_some, Option.map_some, Nat.cast_id, Nat.cast_add,
                Nat.cast_mul, Nat.cast_id]

end read

/-! ## Alphabets -/

/-- The letters of a base. -/
structure Alphabet (b : Nat) (α : Type*) where
  letter : Nat → α
  digit? : α → Option Nat
  digit?_letter : ∀ d < b, digit? (letter d) = some d
  letter_of_digit? : ∀ c d, digit? c = some d → d < b ∧ letter d = c

namespace Alphabet

variable {b : Nat} (A : Alphabet b α) {letters : List α} {n x : Nat}

/-- The number of the letters of digits. -/
theorem number_map_letter {ds : List Nat} (hds : ∀ d ∈ ds, d < b) :
    numberFrom b A.digit? 0 (ds.map A.letter) = some (Nat.ofDigits b ds) := by
  induction ds with
  | nil => rfl
  | cons d ds ih =>
      obtain ⟨hd, hds⟩ := List.forall_mem_cons.mp hds
      rw [List.map_cons, numberFrom_cons, ih hds, Option.bind_some, A.digit?_letter d hd,
        Option.map_some, Nat.ofDigits_cons, Nat.cast_id, Nat.cast_id, Nat.mul_comm, Nat.add_comm]

/-- Letters that can be read are letters of digits. -/
theorem exists_digits {value : Nat} (h : numberFrom b A.digit? 0 letters = some value) :
    ∃ ds : List Nat, (∀ d ∈ ds, d < b) ∧ letters = ds.map A.letter := by
  induction letters generalizing value with
  | nil => exact ⟨[], fun d hd => absurd hd List.not_mem_nil, rfl⟩
  | cons c letters ih =>
      obtain ⟨value', hletters, hc⟩ := Option.bind_eq_some_iff.mp h
      obtain ⟨d, hd, _⟩ := Option.map_eq_some_iff.mp hc
      obtain ⟨ds, hds, rfl⟩ := ih hletters
      obtain ⟨hlt, hletter⟩ := A.letter_of_digit? c d hd
      exact ⟨d :: ds, List.forall_mem_cons.mpr ⟨hlt, hds⟩, by rw [List.map_cons, hletter]⟩

/-- Letters are the digits of the number they are read as, and those of no other. -/
theorem number_eq_some_iff (hb : 1 < b) {value : Nat} :
    numberFrom b A.digit? 0 letters = some value ↔
      value < b ^ letters.length ∧ letters = (digits b letters.length value).map A.letter := by
  constructor
  · intro h
    obtain ⟨ds, hds, rfl⟩ := A.exists_digits h
    rw [A.number_map_letter hds] at h
    rw [← Option.some.inj h, List.length_map, digits_ofDigits hb hds]
    exact ⟨Nat.ofDigits_lt_base_pow_length hb hds, rfl⟩
  · rintro ⟨hlt, h⟩
    rw [h, A.number_map_letter (fun d hd => lt_of_mem_digits (by omega) hd), ofDigits_digits,
      Nat.mod_eq_of_lt hlt]

/-- A number of at most `n` digits is determined by its letters. -/
theorem digits_of_letters (hb : 0 < b) {x y : Nat} (hx : x < b ^ n) (hy : y < b ^ n)
    (h : (digits b n x).map A.letter = (digits b n y).map A.letter) : x = y := by
  have hnumber : ∀ z, z < b ^ n →
      numberFrom b A.digit? 0 ((digits b n z).map A.letter) = some z := by
    intro z hz
    rw [A.number_map_letter (fun d hd => lt_of_mem_digits hb hd), ofDigits_digits,
      Nat.mod_eq_of_lt hz]
  exact Option.some.inj (by rw [← hnumber x hx, h, hnumber y hy])

variable {w pos : Nat} {buf : Nat → α}

/-- A machine word whose digits fit into the cells is read back, whatever wraps around. -/
theorem readDigits_word (hb : 0 < b) (hfit : 2 ^ w ≤ b ^ n) (word : BitVec w)
    (h : cells buf pos n = (digits b n word.toNat).map A.letter) :
    readDigits b A.digit? buf pos n (0 : BitVec w) = some word := by
  have hlt : word.toNat < b ^ n := word.isLt.trans_le hfit
  have hstart : (0 : BitVec w) = ((0 : Nat) : BitVec w) := rfl
  rw [readDigits_eq, h, hstart, numberFrom_cast,
    A.number_map_letter (fun d hd => lt_of_mem_digits hb hd), ofDigits_digits,
    Nat.mod_eq_of_lt hlt, Option.map_some]
  exact congrArg some (BitVec.eq_of_toNat_eq (by simp))

/-- What a machine word is read from: letters of a number that is the word up to wrapping around. -/
theorem readDigits_eq_some_iff (hb : 1 < b) {word : BitVec w} :
    readDigits b A.digit? buf pos n (0 : BitVec w) = some word ↔
      ∃ value < b ^ n, cells buf pos n = (digits b n value).map A.letter ∧
        value % 2 ^ w = word.toNat := by
  have hstart : (0 : BitVec w) = ((0 : Nat) : BitVec w) := rfl
  rw [readDigits_eq, hstart, numberFrom_cast, Option.map_eq_some_iff]
  have hcast : ∀ value : Nat, (value : BitVec w) = word ↔ value % 2 ^ w = word.toNat := by
    intro value
    rw [BitVec.toNat_eq]
    exact Iff.of_eq (congrArg (· = word.toNat) (BitVec.toNat_ofNat value w))
  refine exists_congr (fun value => ?_)
  rw [A.number_eq_some_iff hb, length_cells, hcast, and_assoc]

end Alphabet

end Digits
