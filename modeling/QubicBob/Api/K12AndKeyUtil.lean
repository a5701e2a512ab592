import QubicBob.Storage.TickStore

set_option autoImplicit false

/-! # Keys and identities in their buffers

`getIdentityFromPublicKey` and `getIdentity` write fourteen letters for each 64-bit fragment of a
key and four letters of a checksum. `getPublicKeyFromIdentity` and `checkSumIdentity` read the
letters of a fragment from the last to the first into an `unsigned long long`. These are the loops
on the buffers; a `char *` is the memory behind it, `char` a signed byte.

A key is read back as its fragments have less than 26 ^ 14 values: their digits fit into the
letters, and Horner's rule never wraps around on the way. The other way round there is room left.
Fourteen letters may stand for a number of more than 64 bits, which is read as the fragment it wraps
around to, so every key has accepted strings besides its identity. The checksum is a hash of three
bytes in a variable of four; the fourth byte has no value, and the mask keeps it out of the letters.
-/

namespace QubicBob

open Digits

/-- The characters of a string as bytes. -/
def charBytes (str : List Char) : List Byte := str.map (fun c => BitVec.ofNat 8 c.toNat)

/-- The 60 digits behind the letters. -/
def identityDigits (K : KangarooTwelve) (publicKey : m256i) : List Nat :=
  (List.range 4).flatMap (fun i => base26 14 (publicKey.extractLsb' (64 * i) 64).toNat) ++
    base26 4 ((K.hash32 publicKey.bytes).toNat % 2 ^ 24 &&& 0x3FFFF)

theorem lt_of_mem_identityDigits {K : KangarooTwelve} {publicKey : m256i} {d : Nat}
    (h : d ∈ identityDigits K publicKey) : d < 26 := by
  rcases List.mem_append.mp h with hfragment | hchecksum
  · obtain ⟨i, _, hd⟩ := List.mem_flatMap.mp hfragment
    exact lt_of_mem_base26 hd
  · exact lt_of_mem_base26 hchecksum

namespace K12AndKeyUtil

/-! ## Letters -/

/-- `L'a'` or `L'A'` -/
def firstLetter (isLowerCase : Bool) : Nat := if isLowerCase then 97 else 65

def upperCaseLetter (d : Nat) : Byte := BitVec.ofNat 8 (d + 65)

/-- `c - 'A'` of a `char` between `'A'` and `'Z'` -/
def letterDigit (c : Byte) : Option Nat :=
  if c.toInt < 65 ∨ 90 < c.toInt then none else some (c.toInt - 65).toNat

theorem toNat_upperCaseLetter {d : Nat} (hd : d < 26) : (upperCaseLetter d).toNat = d + 65 := by
  rw [upperCaseLetter, BitVec.toNat_ofNat, Nat.mod_eq_of_lt (by omega)]

theorem letterDigit_eq_some_iff {c : Byte} {d : Nat} :
    letterDigit c = some d ↔ d < 26 ∧ c.toNat = d + 65 := by
  have hlt := c.isLt
  have hsigned : c.toInt = if 2 * c.toNat < 2 ^ 8 then (c.toNat : Int) else c.toNat - 256 :=
    BitVec.toInt_eq_toNat_cond c
  rw [letterDigit]
  constructor
  · intro h
    split_ifs at h
    have hd := Option.some.inj h
    split_ifs at hsigned <;> omega
  · rintro ⟨hd, hc⟩
    have hvalue : c.toInt = (d + 65 : Nat) := by
      rw [hsigned, if_pos (by omega), hc]
    rw [hvalue, if_neg (by omega)]
    congr 1
    omega

theorem letterDigit_letter (d : Nat) (hd : d < 26) : letterDigit (upperCaseLetter d) = some d :=
  letterDigit_eq_some_iff.mpr ⟨hd, toNat_upperCaseLetter hd⟩

theorem letter_of_letterDigit (c : Byte) (d : Nat) (h : letterDigit c = some d) :
    d < 26 ∧ upperCaseLetter d = c := by
  obtain ⟨hd, hc⟩ := letterDigit_eq_some_iff.mp h
  exact ⟨hd, BitVec.eq_of_toNat_eq ((toNat_upperCaseLetter hd).trans hc.symm)⟩

/-- The letters of the two readers. -/
def upperCase : Alphabet 26 Byte where
  letter := upperCaseLetter
  digit? := letterDigit
  digit?_letter := letterDigit_letter
  letter_of_digit? := letter_of_letterDigit

/-! ## The functions -/

/-- `*((unsigned long long*)&publicKey[i << 3])` -/
def publicKeyFragment (publicKey : m256i) (i : Nat) : BitVec 64 := publicKey.extractLsb' (64 * i) 64

/-- `KangarooTwelve(publicKey, 32, (uint8_t*)&identityBytesChecksum, 3)` and the mask. The top byte
is the one that the variable had before. -/
def identityBytesChecksum (K : KangarooTwelve) (unset : BitVec 32) (publicKey : m256i) :
    BitVec 32 :=
  (unset.extractLsb' 24 8 ++ (K.hash32 publicKey.bytes).extractLsb' 0 24 : BitVec 32) &&& 0x3FFFF#32

/-- The loops of `getIdentityFromPublicKey` and of `getIdentity`. -/
def writeIdentity {α : Type} (letter : Nat → α) (K : KangarooTwelve) (unset : BitVec 32)
    (publicKey : m256i) (identity : Nat → α) : Nat → α :=
  writeDigits 26 letter 4 56 (identityBytesChecksum K unset publicKey).toNat
    (writeNumbers 26 letter 14 (fun i => (publicKeyFragment publicKey i).toNat) 4 identity)

/-- The letters are made in an array of `uint16_t`, and 60 of them copied. -/
def getIdentityFromPublicKey (K : KangarooTwelve) (unset : BitVec 32) (pubkey : m256i)
    (dstIdentity : Nat → Byte) (isLowerCase : Bool) : Nat → Byte :=
  let identity : Nat → BitVec 16 := Function.update
    (writeIdentity (fun d => BitVec.ofNat 16 (d + firstLetter isLowerCase)) K unset pubkey
      (fun _ => 0)) 60 0
  fun i => if i < 60 then (identity i).setWidth 8 else dstIdentity i

/-- `std::string(buf)` of an array: the characters in front of the first that is zero. -/
def cString (size : Nat) (buf : Nat → Byte) : List Byte :=
  ((List.range size).map buf).takeWhile (fun c => c != 0)

def getIdentity (K : KangarooTwelve) (unset : BitVec 32) (pubkey : m256i) (isLowerCase : Bool) :
    List Byte :=
  cString 64 (Function.update
    (writeIdentity (fun d => BitVec.ofNat 8 (d + firstLetter isLowerCase)) K unset pubkey
      (fun _ => 0)) 60 0)

/-- `m256i::toQubicHash` -/
def toQubicHash (K : KangarooTwelve) (unset : BitVec 32) (hash : m256i) : List Byte :=
  cString 64 (getIdentityFromPublicKey K unset hash (fun _ => 0) true)

/-- `m256i::toQubicHashUpperCase` -/
def toQubicHashUpperCase (K : KangarooTwelve) (unset : BitVec 32) (hash : m256i) : List Byte :=
  cString 64 (getIdentityFromPublicKey K unset hash (fun _ => 0) false)

/-- The fourteen letters of a fragment, from the last on. -/
def readFragment (identity : Nat → Byte) (i : Nat) : Option (BitVec 64) :=
  readDigits 26 letterDigit identity (i * 14) 14 (0 : BitVec 64)

/-- `publicKeyBuffer`, unless a letter ends the call. -/
def readPublicKey (identity : Nat → Byte) : Option m256i := do
  let w0 ← readFragment identity 0
  let w1 ← readFragment identity 1
  let w2 ← readFragment identity 2
  let w3 ← readFragment identity 3
  return ((w3 ++ w2) ++ (w1 ++ w0) : BitVec 256)

/-- `publicKey` stays what it was when a letter is none. -/
def getPublicKeyFromIdentity (identity : Nat → Byte) (publicKey : m256i) : m256i :=
  (readPublicKey identity).getD publicKey

/-- The loop over the `n` letters of the checksum from `pos` on. -/
def checkLetters (identity : Nat → Byte) : Nat → Nat → BitVec 32 → Bool
  | 0, _, _ => true
  | n + 1, pos, checksum =>
      if checksum % 26 + 65 != (identity pos).signExtend 32 then false
      else checkLetters identity n (pos + 1) (checksum / 26)

def checkSumIdentity (K : KangarooTwelve) (unset : BitVec 32) (identity : Nat → Byte) : Bool :=
  match readPublicKey identity with
  | none => false
  | some publicKey => checkLetters identity 4 56 (identityBytesChecksum K unset publicKey)

/-! ## The letters in the buffer -/

/-- Of the variable only the bytes of the hash matter. -/
theorem toNat_identityBytesChecksum (K : KangarooTwelve) (unset : BitVec 32) (publicKey : m256i) :
    (identityBytesChecksum K unset publicKey).toNat =
      (K.hash32 publicKey.bytes).toNat % 2 ^ 24 &&& 0x3FFFF := by
  have hmask : (0x3FFFF#32).toNat = 2 ^ 18 - 1 := rfl
  have hlow : ∀ x : m256i, (x.extractLsb' 0 24).toNat = x.toNat % 2 ^ 24 := by
    intro x
    rw [BitVec.extractLsb'_toNat, Nat.shiftRight_zero]
  have hsplit : ∀ (top : BitVec 8) (low : BitVec 24),
      (top ++ low : BitVec 32).toNat % 2 ^ 18 = low.toNat % 2 ^ 18 := by
    intro top low
    show (top ++ low).toNat % 2 ^ 18 = low.toNat % 2 ^ 18
    rw [BitVec.toNat_append, ← Nat.shiftLeft_add_eq_or_of_lt low.isLt, Nat.shiftLeft_eq]
    omega
  rw [identityBytesChecksum, BitVec.toNat_and, hmask, Nat.and_two_pow_sub_one_eq_mod, hsplit, hlow]
  exact (Nat.and_two_pow_sub_one_eq_mod _ 18).symm

section buffer

variable {K : KangarooTwelve} {unset unset' : BitVec 32} {publicKey : m256i}
  {dstIdentity : Nat → Byte} {isLowerCase : Bool}

section write

variable {α : Type} {letter : Nat → α} {identity : Nat → α}

theorem cells_writeIdentity_fragment {i : Nat} (hi : i < 4) :
    cells (writeIdentity letter K unset publicKey identity) (i * 14) 14 =
      (digits 26 14 (publicKeyFragment publicKey i).toNat).map letter := by
  have hbefore : cells (writeIdentity letter K unset publicKey identity) (i * 14) 14 =
      cells (writeNumbers 26 letter 14 (fun i => (publicKeyFragment publicKey i).toNat) 4 identity)
        (i * 14) 14 :=
    cells_congr (fun k _ hk => writeDigits_frame (Or.inl (by omega)))
  rw [hbefore, cells_writeNumbers_block hi]

theorem cells_writeIdentity_checksum :
    cells (writeIdentity letter K unset publicKey identity) 56 4 =
      (digits 26 4 (identityBytesChecksum K unset publicKey).toNat).map letter :=
  cells_writeDigits

/-- The four fragments and the checksum are the 60 letters. -/
theorem cells_eq_identityDigits
    (hfragments : ∀ i < 4, cells identity (i * 14) 14 =
      (digits 26 14 (publicKeyFragment publicKey i).toNat).map letter)
    (hchecksum : cells identity 56 4 =
      (digits 26 4 (identityBytesChecksum K unset publicKey).toNat).map letter) :
    cells identity 0 60 = (identityDigits K publicKey).map letter := by
  have hfour : cells identity 0 (4 * 14) = ((List.range 4).flatMap
      (fun i => base26 14 (publicKey.extractLsb' (64 * i) 64).toNat)).map letter := by
    rw [cells_blocks, List.map_flatMap]
    refine List.flatMap_congr (fun i hi => ?_)
    rw [hfragments i (List.mem_range.mp hi), base26_eq_digits, publicKeyFragment]
  calc cells identity 0 (4 * 14 + 4) = cells identity 0 (4 * 14) ++ cells identity 56 4 := cells_add
    _ = (identityDigits K publicKey).map letter := by
        rw [hfour, hchecksum, toNat_identityBytesChecksum, identityDigits, List.map_append,
          base26_eq_digits 4]

theorem cells_writeIdentity :
    cells (writeIdentity letter K unset publicKey identity) 0 60 =
      (identityDigits K publicKey).map letter :=
  cells_eq_identityDigits (fun _ hi => cells_writeIdentity_fragment hi) cells_writeIdentity_checksum

end write

/-- The cell behind the letters does not matter for them. -/
theorem cells_update_end {α : Type} {buf : Nat → α} {a : α} {pos n : Nat} (h : pos + n ≤ 60) :
    cells (Function.update buf 60 a) pos n = cells buf pos n :=
  cells_congr (fun k _ hk => Function.update_of_ne (by omega) _ _)

theorem cells_getIdentityFromPublicKey :
    cells (getIdentityFromPublicKey K unset publicKey dstIdentity isLowerCase) 0 60 =
      (identityDigits K publicKey).map (fun d => BitVec.ofNat 8 (d + firstLetter isLowerCase)) := by
  have hcopy : cells (getIdentityFromPublicKey K unset publicKey dstIdentity isLowerCase) 0 60 =
      cells (fun k => (Function.update (writeIdentity
        (fun d => BitVec.ofNat 16 (d + firstLetter isLowerCase)) K unset publicKey (fun _ => 0))
          60 0 k).setWidth 8) 0 60 :=
    cells_congr (fun k _ hk => if_pos (by omega))
  rw [hcopy, cells_map (fun c : BitVec 16 => c.setWidth 8), cells_update_end (by omega),
    cells_writeIdentity, List.map_map]
  refine List.map_congr_left (fun d hd => ?_)
  exact BitVec.setWidth_ofNat_of_le (by decide) _

theorem getIdentityFromPublicKey_frame {k : Nat} (hk : 60 ≤ k) :
    getIdentityFromPublicKey K unset publicKey dstIdentity isLowerCase k = dstIdentity k :=
  if_neg (by omega)

theorem cString_eq {size n : Nat} {buf : Nat → Byte} (hn : n < size)
    (hletters : ∀ c ∈ cells buf 0 n, c ≠ 0) (hend : buf n = 0) :
    cString size buf = cells buf 0 n := by
  have hall : (List.range size).map buf =
      cells buf 0 n ++ (buf n :: cells buf (n + 1) (size - n - 1)) := by
    have hsize : size = n + ((size - n - 1) + 1) := by omega
    calc (List.range size).map buf = cells buf 0 size := by rw [cells, List.range_eq_range']
      _ = cells buf 0 (n + ((size - n - 1) + 1)) := by rw [← hsize]
      _ = cells buf 0 n ++ (buf n :: cells buf (n + 1) (size - n - 1)) := by
          rw [cells_add, Nat.zero_add, cells_succ]
  have hstop : (buf n :: cells buf (n + 1) (size - n - 1)).takeWhile (fun c => c != 0) = [] := by
    rw [List.takeWhile_cons, hend]
    rfl
  rw [cString, hall, List.takeWhile_append_of_pos (fun c hc => by simpa using hletters c hc),
    hstop, List.append_nil]

theorem letter_ne_zero {c : Byte} (h : c ∈ (identityDigits K publicKey).map
    (fun d => BitVec.ofNat 8 (d + firstLetter isLowerCase))) : c ≠ 0 := by
  have hletter : ∀ isLowerCase, ∀ d < 26, BitVec.ofNat 8 (d + firstLetter isLowerCase) ≠ 0 := by
    decide
  obtain ⟨d, hd, rfl⟩ := List.mem_map.mp h
  exact hletter isLowerCase d (lt_of_mem_identityDigits hd)

/-- The string of the 60 letters. -/
theorem getIdentity_eq : getIdentity K unset publicKey isLowerCase =
    (identityDigits K publicKey).map (fun d => BitVec.ofNat 8 (d + firstLetter isLowerCase)) := by
  have hcells : cells (Function.update (writeIdentity
      (fun d => BitVec.ofNat 8 (d + firstLetter isLowerCase)) K unset publicKey (fun _ => 0)) 60 0)
        0 60 =
      (identityDigits K publicKey).map (fun d => BitVec.ofNat 8 (d + firstLetter isLowerCase)) := by
    rw [cells_update_end (by omega), cells_writeIdentity]
  rw [getIdentity, cString_eq (by decide) (fun c hc => ?_) (Function.update_self _ _ _), hcells]
  rw [hcells] at hc
  exact letter_ne_zero hc

/-- The string made in an array that was zeroed. -/
theorem cString_getIdentityFromPublicKey :
    cString 64 (getIdentityFromPublicKey K unset publicKey (fun _ => 0) isLowerCase) =
      (identityDigits K publicKey).map (fun d => BitVec.ofNat 8 (d + firstLetter isLowerCase)) := by
  rw [cString_eq (by decide) (fun c hc => ?_) (getIdentityFromPublicKey_frame (le_refl 60)),
    cells_getIdentityFromPublicKey]
  rw [cells_getIdentityFromPublicKey] at hc
  exact letter_ne_zero hc

/-- `m256i` and `getIdentity` give the same strings. -/
theorem toQubicHash_eq_getIdentity :
    toQubicHash K unset publicKey = getIdentity K unset' publicKey true ∧
      toQubicHashUpperCase K unset publicKey = getIdentity K unset' publicKey false := by
  rw [toQubicHash, toQubicHashUpperCase, cString_getIdentityFromPublicKey,
    cString_getIdentityFromPublicKey, getIdentity_eq, getIdentity_eq]
  exact ⟨rfl, rfl⟩

/-- The characters of the identity. -/
theorem charBytes_getIdentityFromPublicKey :
    charBytes (QubicBob.getIdentityFromPublicKey K publicKey isLowerCase) =
      (identityDigits K publicKey).map (fun d => BitVec.ofNat 8 (d + firstLetter isLowerCase)) := by
  have hletter : ∀ isLowerCase, ∀ d < 26,
      BitVec.ofNat 8 (Char.ofNat (d + if isLowerCase then 97 else 65)).toNat =
        BitVec.ofNat 8 (d + firstLetter isLowerCase) := by
    decide
  have hdigits : QubicBob.getIdentityFromPublicKey K publicKey isLowerCase =
      (identityDigits K publicKey).map
        (fun d => Char.ofNat (d + if isLowerCase then 97 else 65)) := rfl
  rw [hdigits, charBytes, List.map_map]
  exact List.map_congr_left (fun d hd => hletter isLowerCase d (lt_of_mem_identityDigits hd))

end buffer

/-! ## Reading -/

section read

variable {K : KangarooTwelve} {unset unset' : BitVec 32} {publicKey : m256i}
  {identity : Nat → Byte}

/-- A value of 256 bits is its four words. -/
theorem append_words (x : m256i) :
    ((x.extractLsb' 192 64 ++ x.extractLsb' 128 64) ++
      (x.extractLsb' 64 64 ++ x.extractLsb' 0 64) : BitVec 256) = x := by
  have hhigh : x.extractLsb' 192 64 ++ x.extractLsb' 128 64 = x.extractLsb' 128 (64 + 64) :=
    BitVec.extractLsb'_append_extractLsb'_eq_extractLsb' rfl
  have hlow : x.extractLsb' 64 64 ++ x.extractLsb' 0 64 = x.extractLsb' 0 (64 + 64) :=
    BitVec.extractLsb'_append_extractLsb'_eq_extractLsb' rfl
  have hall : x.extractLsb' 128 (64 + 64) ++ x.extractLsb' 0 (64 + 64) = x.extractLsb' 0 256 :=
    BitVec.extractLsb'_append_extractLsb'_eq_extractLsb' rfl
  rw [hhigh, hlow]
  exact hall.trans BitVec.extractLsb'_eq_self

theorem fragment_append (w0 w1 w2 w3 : BitVec 64) :
    publicKeyFragment ((w3 ++ w2) ++ (w1 ++ w0) : BitVec 256) 0 = w0 ∧
    publicKeyFragment ((w3 ++ w2) ++ (w1 ++ w0) : BitVec 256) 1 = w1 ∧
    publicKeyFragment ((w3 ++ w2) ++ (w1 ++ w0) : BitVec 256) 2 = w2 ∧
    publicKeyFragment ((w3 ++ w2) ++ (w1 ++ w0) : BitVec 256) 3 = w3 := by
  have hlow : ∀ start, start + 64 ≤ 128 →
      ((w3 ++ w2) ++ (w1 ++ w0) : BitVec 256).extractLsb' start 64 =
        (w1 ++ w0).extractLsb' start 64 :=
    fun start h => BitVec.extractLsb'_append_eq_of_add_le h
  have hhigh : ∀ start, 128 ≤ start →
      ((w3 ++ w2) ++ (w1 ++ w0) : BitVec 256).extractLsb' start 64 =
        (w3 ++ w2).extractLsb' (start - 128) 64 :=
    fun start h => BitVec.extractLsb'_append_eq_of_le h
  have hfirst : ∀ x y : BitVec 64, (x ++ y).extractLsb' 0 64 = y := fun x y => by
    rw [BitVec.extractLsb'_append_eq_of_add_le (by decide), BitVec.extractLsb'_eq_self]
  have hsecond : ∀ x y : BitVec 64, (x ++ y).extractLsb' 64 64 = x := fun x y => by
    rw [BitVec.extractLsb'_append_eq_of_le (by decide), BitVec.extractLsb'_eq_self]
  unfold publicKeyFragment
  refine ⟨?_, ?_, ?_, ?_⟩
  · exact (hlow 0 (by decide)).trans (hfirst w1 w0)
  · exact (hlow 64 (by decide)).trans (hsecond w1 w0)
  · exact (hhigh 128 (by decide)).trans (hfirst w3 w2)
  · exact (hhigh 192 (by decide)).trans (hsecond w3 w2)

/-- The key that is read has the fragments that are read. -/
theorem readPublicKey_eq_some_iff : readPublicKey identity = some publicKey ↔
    ∀ i < 4, readFragment identity i = some (publicKeyFragment publicKey i) := by
  constructor
  · intro h
    obtain ⟨w0, h0, h⟩ := Option.bind_eq_some_iff.mp h
    obtain ⟨w1, h1, h⟩ := Option.bind_eq_some_iff.mp h
    obtain ⟨w2, h2, h⟩ := Option.bind_eq_some_iff.mp h
    obtain ⟨w3, h3, h⟩ := Option.bind_eq_some_iff.mp h
    obtain ⟨f0, f1, f2, f3⟩ := fragment_append w0 w1 w2 w3
    rw [← Option.some.inj h]
    intro i hi
    match i, hi with
    | 0, _ => rw [h0, f0]
    | 1, _ => rw [h1, f1]
    | 2, _ => rw [h2, f2]
    | 3, _ => rw [h3, f3]
  · intro h
    rw [readPublicKey, h 0 (by decide), h 1 (by decide), h 2 (by decide), h 3 (by decide)]
    exact congrArg some (append_words publicKey)

/-- A word fits into fourteen letters. -/
theorem two_pow_64_le : 2 ^ 64 ≤ 26 ^ 14 := by decide

theorem readFragment_of_cells {i : Nat} {word : BitVec 64}
    (h : cells identity (i * 14) 14 = (digits 26 14 word.toNat).map upperCaseLetter) :
    readFragment identity i = some word :=
  upperCase.readDigits_word (by decide) two_pow_64_le word h

theorem comparison_iff {checksum : BitVec 32} {c : Byte} :
    checksum % 26 + 65 = c.signExtend 32 ↔ c = upperCaseLetter (checksum.toNat % 26) := by
  have hlt : checksum.toNat % 26 < 26 := Nat.mod_lt _ (by decide)
  have hleft : (checksum % 26 + 65).toNat = checksum.toNat % 26 + 65 := by
    rw [BitVec.toNat_add, BitVec.toNat_umod]
    show (checksum.toNat % 26 + 65) % 2 ^ 32 = checksum.toNat % 26 + 65
    omega
  have hsigned : (checksum % 26 + 65).toInt = (checksum.toNat % 26 + 65 : Nat) := by
    rw [BitVec.toInt_eq_toNat_cond, hleft, if_pos (by omega)]
  have hextend : (c.signExtend 32).toInt = c.toInt := BitVec.toInt_signExtend_of_le (by decide)
  have hletter : (upperCaseLetter (checksum.toNat % 26)).toInt =
      (checksum.toNat % 26 + 65 : Nat) := by
    rw [BitVec.toInt_eq_toNat_cond, toNat_upperCaseLetter hlt, if_pos (by omega)]
  rw [← BitVec.toInt_inj, ← BitVec.toInt_inj, hsigned, hextend, hletter]
  exact eq_comm

/-- The loop compares the letters of the checksum. -/
theorem checkLetters_iff {n pos : Nat} {checksum : BitVec 32} :
    checkLetters identity n pos checksum = true ↔
      cells identity pos n = (digits 26 n checksum.toNat).map upperCaseLetter := by
  induction n generalizing pos checksum with
  | zero => exact iff_of_true rfl rfl
  | succ n ih =>
      have hdiv : (checksum / 26).toNat = checksum.toNat / 26 := BitVec.toNat_udiv
      rw [checkLetters, cells_succ, digits, List.map_cons, List.cons.injEq, ← comparison_iff,
        ← hdiv, ← ih]
      by_cases h : checksum % 26 + 65 = (identity pos).signExtend 32
      · rw [if_neg (by simpa using h)]
        exact (and_iff_right h).symm
      · rw [if_pos (by simpa using h)]
        exact iff_of_false Bool.false_ne_true (fun hboth => h hboth.1)

end read

/-! ## The identity of a key -/

section identity

variable {K : KangarooTwelve} {unset unset' : BitVec 32} {publicKey : m256i}
  {identity dstIdentity : Nat → Byte} {isLowerCase : Bool}

/-- The buffer holds the upper-case identity of the key. -/
def IsIdentity (K : KangarooTwelve) (publicKey : m256i) (identity : Nat → Byte) : Prop :=
  cells identity 0 60 = (identityDigits K publicKey).map upperCaseLetter

theorem isIdentity_getIdentityFromPublicKey :
    IsIdentity K publicKey (getIdentityFromPublicKey K unset publicKey dstIdentity false) :=
  cells_getIdentityFromPublicKey

theorem isIdentity_writeIdentity :
    IsIdentity K publicKey (writeIdentity upperCaseLetter K unset publicKey identity) :=
  cells_writeIdentity

/-- The letters stand where the loops write them. -/
theorem IsIdentity.eq_writeIdentity (h : IsIdentity K publicKey identity) (unset : BitVec 32)
    {k : Nat} (hk : k < 60) :
    identity k = writeIdentity upperCaseLetter K unset publicKey (fun _ => 0) k :=
  cells_eq_iff.mp (h.trans isIdentity_writeIdentity.symm) k (Nat.zero_le k) (by omega)

theorem IsIdentity.fragment (h : IsIdentity K publicKey identity) {i : Nat} (hi : i < 4) :
    cells identity (i * 14) 14 =
      (digits 26 14 (publicKeyFragment publicKey i).toNat).map upperCaseLetter := by
  rw [cells_congr (fun k _ hk => h.eq_writeIdentity 0 (by omega)),
    cells_writeIdentity_fragment hi]

theorem IsIdentity.checksum (h : IsIdentity K publicKey identity) :
    cells identity 56 4 =
      (digits 26 4 (identityBytesChecksum K unset publicKey).toNat).map upperCaseLetter := by
  rw [cells_congr (fun k _ hk => h.eq_writeIdentity unset (by omega)),
    cells_writeIdentity_checksum]

/-- The key is read back, whatever `publicKey` was. -/
theorem IsIdentity.readPublicKey (h : IsIdentity K publicKey identity) :
    readPublicKey identity = some publicKey :=
  readPublicKey_eq_some_iff.mpr (fun _ hi => readFragment_of_cells (h.fragment hi))

theorem IsIdentity.getPublicKeyFromIdentity (h : IsIdentity K publicKey identity) (old : m256i) :
    getPublicKeyFromIdentity identity old = publicKey := by
  rw [K12AndKeyUtil.getPublicKeyFromIdentity, h.readPublicKey, Option.getD_some]

theorem IsIdentity.checkSumIdentity (h : IsIdentity K publicKey identity) :
    checkSumIdentity K unset identity = true := by
  rw [K12AndKeyUtil.checkSumIdentity, h.readPublicKey]
  exact checkLetters_iff.mpr h.checksum

/-- Keys with the same 60 digits are the same. -/
theorem identityDigits_injective : Function.Injective (identityDigits K) := by
  intro x y h
  have hx : IsIdentity K x (writeIdentity upperCaseLetter K 0 x (fun _ => 0)) :=
    isIdentity_writeIdentity
  have hy : IsIdentity K y (writeIdentity upperCaseLetter K 0 x (fun _ => 0)) := by
    rw [IsIdentity, ← h]
    exact hx
  exact Option.some.inj (hx.readPublicKey.symm.trans hy.readPublicKey)

/-- The letters of either case give the digits. -/
theorem identityDigits_of_letters {x y : m256i}
    (h : (identityDigits K x).map (fun d => BitVec.ofNat 8 (d + firstLetter isLowerCase)) =
      (identityDigits K y).map (fun d => BitVec.ofNat 8 (d + firstLetter isLowerCase))) :
    x = y := by
  have hback : ∀ z, ((identityDigits K z).map
      (fun d => BitVec.ofNat 8 (d + firstLetter isLowerCase))).map
        (fun c => c.toNat - firstLetter isLowerCase) = identityDigits K z := by
    have hletter : ∀ isLowerCase, ∀ d < 26,
        (BitVec.ofNat 8 (d + firstLetter isLowerCase)).toNat - firstLetter isLowerCase = d := by
      decide
    intro z
    rw [List.map_map]
    calc (identityDigits K z).map _ = (identityDigits K z).map id :=
          List.map_congr_left
            (fun d hd => hletter isLowerCase d (lt_of_mem_identityDigits hd))
      _ = identityDigits K z := List.map_id _
  have hdigits : identityDigits K x = identityDigits K y := by rw [← hback x, h, hback y]
  exact identityDigits_injective hdigits

/-- The identities that name keys in the databases and in the index. -/
theorem identity_injective : Function.Injective
    (fun publicKey => QubicBob.getIdentityFromPublicKey K publicKey isLowerCase) := by
  intro x y h
  have hbytes := congrArg charBytes h
  rw [charBytes_getIdentityFromPublicKey, charBytes_getIdentityFromPublicKey] at hbytes
  exact identityDigits_of_letters hbytes

end identity

/-- Every key can be read back from its identity, and two keys have two identities, in lower case
as well. -/
theorem identity_decodable (K : KangarooTwelve) :
    (∀ (unset : BitVec 32) (publicKey : m256i) (dstIdentity : Nat → Byte),
      let identity := getIdentityFromPublicKey K unset publicKey dstIdentity false
      (∀ c ∈ cells identity 0 60, 65 ≤ c.toNat ∧ c.toNat ≤ 90) ∧
      (∀ k, 60 ≤ k → identity k = dstIdentity k) ∧
      (∀ unset', checkSumIdentity K unset' identity = true) ∧
      (∀ old, getPublicKeyFromIdentity identity old = publicKey) ∧
      (∀ unset', getIdentity K unset' publicKey false = cells identity 0 60)) ∧
    ∀ x y, x ≠ y → ∀ unset unset' dst dst',
      cells (getIdentityFromPublicKey K unset x dst true) 0 60 ≠
        cells (getIdentityFromPublicKey K unset' y dst' true) 0 60 ∧
      getIdentity K unset x true ≠ getIdentity K unset' y true ∧
      toQubicHash K unset x ≠ toQubicHash K unset' y ∧
      QubicBob.getIdentityFromPublicKey K x true ≠ QubicBob.getIdentityFromPublicKey K y true := by
  refine ⟨fun unset publicKey dstIdentity => ?_, fun x y hxy unset unset' dst dst' => ?_⟩
  · intro identity
    have hidentity : IsIdentity K publicKey identity := isIdentity_getIdentityFromPublicKey
    refine ⟨fun c hc => ?_, fun k hk => getIdentityFromPublicKey_frame hk,
      fun unset' => hidentity.checkSumIdentity, hidentity.getPublicKeyFromIdentity,
      fun unset' => getIdentity_eq.trans hidentity.symm⟩
    rw [hidentity] at hc
    obtain ⟨d, hd, rfl⟩ := List.mem_map.mp hc
    have hlt := lt_of_mem_identityDigits hd
    rw [toNat_upperCaseLetter hlt]
    omega
  · refine ⟨fun h => hxy ?_, fun h => hxy ?_, fun h => hxy ?_, fun h => hxy (identity_injective h)⟩
    · rw [cells_getIdentityFromPublicKey, cells_getIdentityFromPublicKey] at h
      exact identityDigits_of_letters h
    · rw [getIdentity_eq, getIdentity_eq] at h
      exact identityDigits_of_letters h
    · rw [toQubicHash, toQubicHash, cString_getIdentityFromPublicKey,
        cString_getIdentityFromPublicKey] at h
      exact identityDigits_of_letters h

/-- The keys 0 and 1, under a hash that is zero. -/
theorem identity_decodable_at_zero_one :
    let K : KangarooTwelve := ⟨fun _ => 0, fun _ => 0⟩
    checkSumIdentity K 0xFFFFFFFF (getIdentityFromPublicKey K 0 1 (fun _ => 0) false) = true ∧
      65 ≤ (getIdentityFromPublicKey K 0 1 (fun _ => 0) false 0).toNat ∧
      toQubicHash K 0 0 ≠ toQubicHash K 0 1 :=
  ⟨((identity_decodable _).1 0 1 (fun _ => 0)).2.2.1 0xFFFFFFFF,
    (((identity_decodable ⟨fun _ => 0, fun _ => 0⟩).1 0 1 (fun _ => 0)).1 _ List.mem_cons_self).1,
    ((identity_decodable _).2 0 1 (by decide) 0 0 (fun _ => 0) (fun _ => 0)).2.2.1⟩

/-! ## What is accepted -/

section accepted

variable {K : KangarooTwelve} {unset : BitVec 32} {identity : Nat → Byte}

/-- A fragment is read from letters of a number that is it up to wrapping around. -/
theorem readFragment_eq_some_iff {i : Nat} {word : BitVec 64} :
    readFragment identity i = some word ↔
      ∃ value < 26 ^ 14, cells identity (i * 14) 14 = (digits 26 14 value).map upperCaseLetter ∧
        value % 2 ^ 64 = word.toNat :=
  upperCase.readDigits_eq_some_iff (by decide)

/-- `readPublicKey` with the values of the letters. -/
theorem readPublicKey_iff {publicKey : m256i} : readPublicKey identity = some publicKey ↔
    ∀ i < 4, ∃ value < 26 ^ 14,
      cells identity (i * 14) 14 = (digits 26 14 value).map upperCaseLetter ∧
        value % 2 ^ 64 = (publicKeyFragment publicKey i).toNat := by
  rw [readPublicKey_eq_some_iff]
  exact forall₂_congr (fun i _ => readFragment_eq_some_iff)

/-- A string is accepted when its letters are read as a key and its last four are the checksum of
that key. -/
theorem checkSumIdentity_iff : checkSumIdentity K unset identity = true ↔
    ∃ publicKey, readPublicKey identity = some publicKey ∧
      cells identity 56 4 =
        (digits 26 4 (identityBytesChecksum K unset publicKey).toNat).map upperCaseLetter := by
  rw [checkSumIdentity]
  cases readPublicKey identity with
  | none =>
      refine iff_of_false Bool.false_ne_true ?_
      rintro ⟨_, ⟨⟩, _⟩
  | some publicKey =>
      constructor
      · exact fun h => ⟨publicKey, rfl, checkLetters_iff.mp h⟩
      · rintro ⟨_, ⟨⟩, hletters⟩
        exact checkLetters_iff.mpr hletters

/-- An accepted string is an identity unless the letters of a fragment wrap around. -/
theorem exists_isIdentity_iff : (∃ publicKey, IsIdentity K publicKey identity) ↔
    checkSumIdentity K unset identity = true ∧
      ∀ i < 4, ∃ value < 2 ^ 64,
        cells identity (i * 14) 14 = (digits 26 14 value).map upperCaseLetter := by
  constructor
  · rintro ⟨publicKey, h⟩
    exact ⟨h.checkSumIdentity, fun i hi =>
      ⟨(publicKeyFragment publicKey i).toNat, (publicKeyFragment publicKey i).isLt, h.fragment hi⟩⟩
  · rintro ⟨haccepted, hsmall⟩
    obtain ⟨publicKey, hread, hchecksum⟩ := checkSumIdentity_iff.mp haccepted
    refine ⟨publicKey, cells_eq_identityDigits (fun i hi => ?_) hchecksum⟩
    obtain ⟨value, hlt, hcells⟩ := hsmall i hi
    have hvalue : (BitVec.ofNat 64 value).toNat = value := by
      rw [BitVec.toNat_ofNat, Nat.mod_eq_of_lt hlt]
    have hword : readFragment identity i = some (BitVec.ofNat 64 value) :=
      readFragment_of_cells (by rw [hvalue, hcells])
    have hsame : publicKeyFragment publicKey i = BitVec.ofNat 64 value :=
      Option.some.inj ((readPublicKey_eq_some_iff.mp hread i hi).symm.trans hword)
    rw [hcells, hsame, hvalue]

/-- The first fragment of a key with `2 ^ 64` more than it has. -/
def wrappedIdentity (K : KangarooTwelve) (publicKey : m256i) : Nat → Byte :=
  writeDigits 26 upperCaseLetter 14 0 ((publicKeyFragment publicKey 0).toNat + 2 ^ 64)
    (writeIdentity upperCaseLetter K 0 publicKey (fun _ => 0))

/-- Every key has another string that is accepted and read as the key, but is no identity. -/
theorem checkSumIdentity_accepts_other (K : KangarooTwelve) (unset : BitVec 32)
    (publicKey : m256i) :
    checkSumIdentity K unset (wrappedIdentity K publicKey) = true ∧
      (∀ old, getPublicKeyFromIdentity (wrappedIdentity K publicKey) old = publicKey) ∧
      ∀ other, ¬ IsIdentity K other (wrappedIdentity K publicKey) := by
  have hfits : (publicKeyFragment publicKey 0).toNat + 2 ^ 64 < 26 ^ 14 := by
    have hlt := (publicKeyFragment publicKey 0).isLt
    omega
  have hbehind : ∀ pos n, 14 ≤ pos → cells (wrappedIdentity K publicKey) pos n =
      cells (writeIdentity upperCaseLetter K 0 publicKey (fun _ => 0)) pos n :=
    fun pos n hpos => cells_congr (fun k hk _ => writeDigits_frame (Or.inr (by omega)))
  have hfirst : cells (wrappedIdentity K publicKey) (0 * 14) 14 =
      (digits 26 14 ((publicKeyFragment publicKey 0).toNat + 2 ^ 64)).map upperCaseLetter :=
    cells_writeDigits
  have hread : readPublicKey (wrappedIdentity K publicKey) = some publicKey := by
    refine readPublicKey_iff.mpr (fun i hi => ?_)
    have hlt := (publicKeyFragment publicKey i).isLt
    rcases Nat.eq_zero_or_pos i with rfl | hpos
    · exact ⟨_, hfits, hfirst, by omega⟩
    · refine ⟨(publicKeyFragment publicKey i).toNat, lt_of_lt_of_le hlt two_pow_64_le, ?_,
        Nat.mod_eq_of_lt hlt⟩
      rw [hbehind _ _ (by omega), cells_writeIdentity_fragment hi]
  refine ⟨checkSumIdentity_iff.mpr ⟨publicKey, hread, ?_⟩, fun old => ?_, fun other h => ?_⟩
  · rw [hbehind _ _ (by omega), cells_writeIdentity_checksum, toNat_identityBytesChecksum,
      toNat_identityBytesChecksum]
  · rw [getPublicKeyFromIdentity, hread, Option.getD_some]
  · have hlt := (publicKeyFragment other 0).isLt
    have hdigits := h.fragment (i := 0) (by decide)
    rw [hfirst] at hdigits
    have hvalue : (publicKeyFragment publicKey 0).toNat + 2 ^ 64 =
        (publicKeyFragment other 0).toNat :=
      upperCase.digits_of_letters (by decide) hfits (lt_of_lt_of_le hlt two_pow_64_le) hdigits
    omega

end accepted

end K12AndKeyUtil

end QubicBob
