import QubicBob.Api.Balance
import QubicBob.Api.K12AndKeyUtil
import QubicBob.Indexer.Search

set_option autoImplicit false

/-! # Identities as keys and as topics

A query names an entity by its upper-case identity. `getPublicKeyFromIdentity` reads the key from
the first 56 letters; the search of the index takes the string itself, in lower case. The two can
disagree on a string that wraps around, but not on the identity of a key: this one is read back as
its key, and two keys have two identities, in lower case as well. So a topic that is found under the
string is the key that was read from it (`UpperCaseIdentity.eq_key`). The wildcard of the index is
the identity of the zero key in the same sense.
-/

namespace QubicBob

open Digits

/-- A string of 60 upper-case letters. -/
structure UpperCaseIdentity (identity : List Char) : Prop where
  length : identity.length = 60
  upper : ∀ c ∈ identity, c.isUpper = true

/-! ## Letters -/

theorem exists_letter_of_isUpper {c : Char} (h : c.isUpper = true) :
    ∃ d < 26, c = Char.ofNat (d + 65) := by
  have hvals : (65 : UInt32) ≤ c.val ∧ c.val ≤ 90 := of_decide_eq_true h
  have hrange : 65 ≤ c.toNat ∧ c.toNat ≤ 90 := hvals
  refine ⟨c.toNat - 65, by omega, ?_⟩
  rw [Nat.sub_add_cancel hrange.1, Char.ofNat_toNat]

theorem toLower_letter : ∀ d < 26, (Char.ofNat (d + 65)).toLower = Char.ofNat (d + 97) := by
  decide

theorem toUpper_letter : ∀ d < 26, (Char.ofNat (d + 97)).toUpper = Char.ofNat (d + 65) := by
  decide

theorem toUpper_toLower_of_isUpper {c : Char} (h : c.isUpper = true) : c.toLower.toUpper = c := by
  obtain ⟨d, hd, rfl⟩ := exists_letter_of_isUpper h
  rw [toLower_letter d hd, toUpper_letter d hd]

/-! ## The digits of an identity -/

section digits

variable {K : KangarooTwelve} {publicKey : m256i}

theorem identity_upper :
    getIdentityFromPublicKey K publicKey false =
      (identityDigits K publicKey).map (fun d => Char.ofNat (d + 65)) := rfl

theorem identity_lower :
    getIdentityFromPublicKey K publicKey true =
      (identityDigits K publicKey).map (fun d => Char.ofNat (d + 97)) := rfl

/-- The lower-case identity of a key is the upper-case one in lower case. -/
theorem toLowerCase_identity : toLowerCase (getIdentityFromPublicKey K publicKey false) =
    getIdentityFromPublicKey K publicKey true := by
  rw [identity_upper, identity_lower, toLowerCase, List.map_map]
  exact List.map_congr_left (fun d hd => toLower_letter d (lt_of_mem_identityDigits hd))

theorem toUpper_identity : (getIdentityFromPublicKey K publicKey true).map Char.toUpper =
    getIdentityFromPublicKey K publicKey false := by
  rw [identity_upper, identity_lower, List.map_map]
  exact List.map_congr_left (fun d hd => toUpper_letter d (lt_of_mem_identityDigits hd))

theorem toLowerCase_lower : toLowerCase (getIdentityFromPublicKey K publicKey true) =
    getIdentityFromPublicKey K publicKey true := by
  have hletter : ∀ d < 26, (Char.ofNat (d + 97)).toLower = Char.ofNat (d + 97) := by decide
  rw [identity_lower, toLowerCase, List.map_map]
  exact List.map_congr_left (fun d hd => hletter d (lt_of_mem_identityDigits hd))

theorem length_lower : (getIdentityFromPublicKey K publicKey true).length = 60 :=
  (plainName_identity publicKey).1

end digits

/-! ## Reading the key -/

/-- A letter is added to a word as the readers do. -/
theorem letterDigit_step (c : Byte) (w : BitVec 64) :
    (if c < 65 ∨ 90 < c then none else some (w * 26 + (c - 65).zeroExtend 64)) =
      (K12AndKeyUtil.letterDigit c).map fun d : Nat => w * (26 : Nat) + (d : BitVec 64) := by
  have hlt := c.isLt
  have hrange : (c < 65 ∨ 90 < c) ↔ (c.toNat < 65 ∨ 90 < c.toNat) := Iff.rfl
  by_cases h : c.toNat < 65 ∨ 90 < c.toNat
  · have hnone : K12AndKeyUtil.letterDigit c = none := by
      rw [Option.eq_none_iff_forall_ne_some]
      intro d hd
      have hdigit := K12AndKeyUtil.letterDigit_eq_some_iff.mp hd
      omega
    rw [if_pos (hrange.mpr h), hnone]
    rfl
  · have hsome : K12AndKeyUtil.letterDigit c = some (c.toNat - 65) :=
      K12AndKeyUtil.letterDigit_eq_some_iff.mpr (by omega)
    have hdigit : (c - 65).zeroExtend 64 = BitVec.ofNat 64 (c.toNat - 65) := by
      apply BitVec.eq_of_toNat_eq
      simp
      omega
    rw [if_neg (fun hc => h (hrange.mp hc)), hsome, Option.map_some, hdigit]
    rfl

theorem identityWord_eq (letters : List Byte) :
    identityWord letters = numberFrom 26 K12AndKeyUtil.letterDigit (0 : BitVec 64) letters := by
  unfold identityWord numberFrom
  simp only [letterDigit_step]

theorem identityWord_cells (identity : Nat → Byte) (i : Nat) :
    identityWord (cells identity (i * 14) 14) = K12AndKeyUtil.readFragment identity i := by
  rw [identityWord_eq, K12AndKeyUtil.readFragment, readDigits_eq]

/-- The call on a string is the one on its buffer, with a key that was zero before. -/
theorem getPublicKeyFromIdentity_cells (identity : Nat → Byte) {n : Nat} (hn : 56 ≤ n) :
    getPublicKeyFromIdentity (cells identity 0 n) =
      K12AndKeyUtil.getPublicKeyFromIdentity identity 0 := by
  have hword : ∀ i, i < 4 → identityWord (((cells identity 0 n).drop (i * 14)).take 14) =
      K12AndKeyUtil.readFragment identity i := by
    intro i hi
    rw [drop_cells (by omega), take_cells (by omega), Nat.zero_add, identityWord_cells]
  have h0 : identityWord ((cells identity 0 n).take 14) = K12AndKeyUtil.readFragment identity 0 :=
    hword 0 (by decide)
  unfold getPublicKeyFromIdentity K12AndKeyUtil.getPublicKeyFromIdentity
    K12AndKeyUtil.readPublicKey
  rw [h0, hword 1 (by decide), hword 2 (by decide), hword 3 (by decide)]
  cases K12AndKeyUtil.readFragment identity 0 with
  | none => rfl
  | some w0 =>
      cases K12AndKeyUtil.readFragment identity 1 with
      | none => rfl
      | some w1 =>
          cases K12AndKeyUtil.readFragment identity 2 with
          | none => rfl
          | some w2 =>
              cases K12AndKeyUtil.readFragment identity 3 with
              | none => rfl
              | some w3 => rfl

/-- The key is read back from its identity. -/
theorem getPublicKeyFromIdentity_identity (K : KangarooTwelve) (publicKey : m256i) :
    getPublicKeyFromIdentity (charBytes (getIdentityFromPublicKey K publicKey false)) =
      publicKey := by
  have hidentity : K12AndKeyUtil.IsIdentity K publicKey
      (K12AndKeyUtil.getIdentityFromPublicKey K 0 publicKey (fun _ => 0) false) :=
    K12AndKeyUtil.isIdentity_getIdentityFromPublicKey
  have hbytes : charBytes (getIdentityFromPublicKey K publicKey false) =
      cells (K12AndKeyUtil.getIdentityFromPublicKey K 0 publicKey (fun _ => 0) false) 0 60 :=
    K12AndKeyUtil.charBytes_getIdentityFromPublicKey.trans hidentity.symm
  rw [hbytes, getPublicKeyFromIdentity_cells _ (by decide), hidentity.getPublicKeyFromIdentity]

/-! ## Upper-case identities -/

theorem upperCaseIdentity_of_key (K : KangarooTwelve) (publicKey : m256i) :
    UpperCaseIdentity (getIdentityFromPublicKey K publicKey false) := by
  have hletter : ∀ d < 26, (Char.ofNat (d + 65)).isUpper = true := by decide
  refine ⟨?_, fun c hc => ?_⟩
  · have hlower := @length_lower K publicKey
    rw [identity_lower, List.length_map] at hlower
    rw [identity_upper, List.length_map, hlower]
  · rw [identity_upper] at hc
    obtain ⟨d, hd, rfl⟩ := List.mem_map.mp hc
    exact hletter d (lt_of_mem_identityDigits hd)

section upper

variable {K : KangarooTwelve} {identity : List Char}

theorem UpperCaseIdentity.toUpper_toLowerCase (h : UpperCaseIdentity identity) :
    (toLowerCase identity).map Char.toUpper = identity := by
  rw [toLowerCase, List.map_map]
  calc identity.map (Char.toUpper ∘ Char.toLower) = identity.map id :=
        List.map_congr_left (fun c hc => toUpper_toLower_of_isUpper (h.upper c hc))
    _ = identity := List.map_id identity

/-- A topic whose name the identity is, is the key the identity is read as. -/
theorem UpperCaseIdentity.eq_key (h : UpperCaseIdentity identity) {topic : m256i}
    (hname : getIdentityFromPublicKey K topic true = toLowerCase identity) :
    topic = getPublicKeyFromIdentity (charBytes identity) := by
  have hupper : getIdentityFromPublicKey K topic false = identity := by
    rw [← toUpper_identity, hname, h.toUpper_toLowerCase]
  rw [← hupper, getPublicKeyFromIdentity_identity]

/-- The wildcard is the identity of the zero key. -/
theorem UpperCaseIdentity.key_of_wildcard (h : UpperCaseIdentity identity)
    (hwild : IsWildcard identity) : getPublicKeyFromIdentity (charBytes identity) = m256i.zero := by
  have hupper : identity = WILDCARD.map Char.toUpper := by
    rw [← h.toUpper_toLowerCase, show toLowerCase identity = WILDCARD from hwild]
  rw [hupper]
  decide +kernel

end upper

end QubicBob
