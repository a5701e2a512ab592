import QubicBob.Lib.Keccak
import QubicBob.Basic.Bytes

set_option autoImplicit false

/-! # The permutation of the hash

`rounds12` of `K12AndKeyUtil.h` makes the twelve rounds with the lanes in 25 variables. Each round
but the last also computes the column parities that the next one starts from, and the rounds write
in turn to two sets of variables, so that no lane is overwritten before it has been read.

What the macros do is a map from one set of 25 lanes and five parities to another. Written with the
coordinates of the lanes it is one round of Keccak-p, each assignment one lane of χ after ρ and π,
if the parities are those of the lanes; and the parities it leaves are those of its result. The
invariant of the twelve rounds is that the five variables are right.
-/

namespace QubicBob

/-- `ROL64` -/
def rol64 (a : BitVec 64) (offset : Nat) : BitVec 64 := a <<< offset ^^^ a >>> (64 - offset)

/-- The variables `Aba` … `Asu`, or `Eba` … `Esu`, of `declareABCDE`. -/
structure KeccakLanes where
  ba : BitVec 64
  be : BitVec 64
  bi : BitVec 64
  bo : BitVec 64
  bu : BitVec 64
  ga : BitVec 64
  ge : BitVec 64
  gi : BitVec 64
  go : BitVec 64
  gu : BitVec 64
  ka : BitVec 64
  ke : BitVec 64
  ki : BitVec 64
  ko : BitVec 64
  ku : BitVec 64
  ma : BitVec 64
  me : BitVec 64
  mi : BitVec 64
  mo : BitVec 64
  mu : BitVec 64
  sa : BitVec 64
  se : BitVec 64
  si : BitVec 64
  so : BitVec 64
  su : BitVec 64

/-- The variables `Ca` … `Cu`. -/
structure KeccakColumns where
  a : BitVec 64
  e : BitVec 64
  i : BitVec 64
  o : BitVec 64
  u : BitVec 64

/-- `Ca` … `Cu` of the lanes, as the first lines of `rounds12` compute them. A round gathers them in
the same order while it writes its lanes. -/
def KeccakLanes.prepareTheta (A : KeccakLanes) : KeccakColumns where
  a := A.ba ^^^ A.ga ^^^ A.ka ^^^ A.ma ^^^ A.sa
  e := A.be ^^^ A.ge ^^^ A.ke ^^^ A.me ^^^ A.se
  i := A.bi ^^^ A.gi ^^^ A.ki ^^^ A.mi ^^^ A.si
  o := A.bo ^^^ A.go ^^^ A.ko ^^^ A.mo ^^^ A.so
  u := A.bu ^^^ A.gu ^^^ A.ku ^^^ A.mu ^^^ A.su

/-- The lanes that `thetaRhoPiChiIotaPrepareTheta` and the last lines of `rounds12` write. -/
def KeccakLanes.thetaRhoPiChiIota (rc : BitVec 64) (A : KeccakLanes) (C : KeccakColumns) :
    KeccakLanes :=
  let Da := C.u ^^^ rol64 C.e 1
  let De := C.a ^^^ rol64 C.i 1
  let Di := C.e ^^^ rol64 C.o 1
  let Do := C.i ^^^ rol64 C.u 1
  let Du := C.o ^^^ rol64 C.a 1
  let Bba := A.ba ^^^ Da
  let Bbe := rol64 (A.ge ^^^ De) 44
  let Bbi := rol64 (A.ki ^^^ Di) 43
  let Bbo := rol64 (A.mo ^^^ Do) 21
  let Bbu := rol64 (A.su ^^^ Du) 14
  let Bga := rol64 (A.bo ^^^ Do) 28
  let Bge := rol64 (A.gu ^^^ Du) 20
  let Bgi := rol64 (A.ka ^^^ Da) 3
  let Bgo := rol64 (A.me ^^^ De) 45
  let Bgu := rol64 (A.si ^^^ Di) 61
  let Bka := rol64 (A.be ^^^ De) 1
  let Bke := rol64 (A.gi ^^^ Di) 6
  let Bki := rol64 (A.ko ^^^ Do) 25
  let Bko := rol64 (A.mu ^^^ Du) 8
  let Bku := rol64 (A.sa ^^^ Da) 18
  let Bma := rol64 (A.bu ^^^ Du) 27
  let Bme := rol64 (A.ga ^^^ Da) 36
  let Bmi := rol64 (A.ke ^^^ De) 10
  let Bmo := rol64 (A.mi ^^^ Di) 15
  let Bmu := rol64 (A.so ^^^ Do) 56
  let Bsa := rol64 (A.bi ^^^ Di) 62
  let Bse := rol64 (A.go ^^^ Do) 55
  let Bsi := rol64 (A.ku ^^^ Du) 39
  let Bso := rol64 (A.ma ^^^ Da) 41
  let Bsu := rol64 (A.se ^^^ De) 2
  { ba := Bba ^^^ (~~~Bbe &&& Bbi) ^^^ rc
    be := Bbe ^^^ (~~~Bbi &&& Bbo)
    bi := Bbi ^^^ (~~~Bbo &&& Bbu)
    bo := Bbo ^^^ (~~~Bbu &&& Bba)
    bu := Bbu ^^^ (~~~Bba &&& Bbe)
    ga := Bga ^^^ (~~~Bge &&& Bgi)
    ge := Bge ^^^ (~~~Bgi &&& Bgo)
    gi := Bgi ^^^ (~~~Bgo &&& Bgu)
    go := Bgo ^^^ (~~~Bgu &&& Bga)
    gu := Bgu ^^^ (~~~Bga &&& Bge)
    ka := Bka ^^^ (~~~Bke &&& Bki)
    ke := Bke ^^^ (~~~Bki &&& Bko)
    ki := Bki ^^^ (~~~Bko &&& Bku)
    ko := Bko ^^^ (~~~Bku &&& Bka)
    ku := Bku ^^^ (~~~Bka &&& Bke)
    ma := Bma ^^^ (~~~Bme &&& Bmi)
    me := Bme ^^^ (~~~Bmi &&& Bmo)
    mi := Bmi ^^^ (~~~Bmo &&& Bmu)
    mo := Bmo ^^^ (~~~Bmu &&& Bma)
    mu := Bmu ^^^ (~~~Bma &&& Bme)
    sa := Bsa ^^^ (~~~Bse &&& Bsi)
    se := Bse ^^^ (~~~Bsi &&& Bso)
    si := Bsi ^^^ (~~~Bso &&& Bsu)
    so := Bso ^^^ (~~~Bsu &&& Bsa)
    su := Bsu ^^^ (~~~Bsa &&& Bse) }

/-- `thetaRhoPiChiIotaPrepareTheta(i, A, E)`: the lanes `E` and the parities of their columns. -/
def thetaRhoPiChiIotaPrepareTheta (rc : BitVec 64) (s : KeccakLanes × KeccakColumns) :
    KeccakLanes × KeccakColumns :=
  let E := s.1.thetaRhoPiChiIota rc s.2
  (E, E.prepareTheta)

/-- `KeccakF1600RoundConstant0` … `KeccakF1600RoundConstant10` -/
def keccakF1600RoundConstants : List (BitVec 64) :=
  [0x000000008000808b, 0x800000000000008b, 0x8000000000008089, 0x8000000000008003,
    0x8000000000008002, 0x8000000000000080, 0x000000000000800a, 0x800000008000000a,
    0x8000000080008081, 0x8000000000008080, 0x0000000080000001]

def rounds12 (A : KeccakLanes) : KeccakLanes :=
  let s := keccakF1600RoundConstants.foldl (fun s rc => thetaRhoPiChiIotaPrepareTheta rc s)
    (A, A.prepareTheta)
  s.1.thetaRhoPiChiIota 0x8000000080008008 s.2

/-! ## The lanes in memory -/

/-- The 200 bytes of `KangarooTwelve_F::state`. -/
abbrev KeccakState := Vector Byte 200

/-- `((unsigned long long *)p)[k]` -/
def u64At (p : List Byte) (k : Nat) : BitVec 64 := BitVec.ofNat 64 (readLE p (8 * k) 8)

def copyFromState (state : KeccakState) : KeccakLanes :=
  let lane := u64At state.toList
  { ba := lane 0, be := lane 1, bi := lane 2, bo := lane 3, bu := lane 4
    ga := lane 5, ge := lane 6, gi := lane 7, go := lane 8, gu := lane 9
    ka := lane 10, ke := lane 11, ki := lane 12, ko := lane 13, ku := lane 14
    ma := lane 15, me := lane 16, mi := lane 17, mo := lane 18, mu := lane 19
    sa := lane 20, se := lane 21, si := lane 22, so := lane 23, su := lane 24 }

/-- The lanes in the order in which `copyToState` writes them. -/
def KeccakLanes.toVector (A : KeccakLanes) : Vector (BitVec 64) 25 :=
  #v[A.ba, A.be, A.bi, A.bo, A.bu, A.ga, A.ge, A.gi, A.go, A.gu, A.ka, A.ke, A.ki, A.ko, A.ku,
    A.ma, A.me, A.mi, A.mo, A.mu, A.sa, A.se, A.si, A.so, A.su]

def copyToState (A : KeccakLanes) : KeccakState :=
  Keccak.ofLanes fun k => A.toVector[k]

def keccakP1600_Permute_12rounds (state : KeccakState) : KeccakState :=
  copyToState (rounds12 (copyFromState state))

/-! ## One round -/

/-- The lanes by column and row. -/
def KeccakLanes.toLanes (A : KeccakLanes) : Keccak.Lanes := fun x y =>
  A.toVector[5 * y.val + x.val]

theorem rol64_eq (a : BitVec 64) {n : Nat} (hn : n < 64) : rol64 a n = a.rotateLeft n := by
  rw [rol64, BitVec.rotateLeft_eq_rotateLeftAux_of_lt hn, BitVec.rotateLeftAux]
  ext i hi
  simp only [BitVec.getElem_xor, BitVec.getElem_or, BitVec.getElem_shiftLeft,
    BitVec.getElem_ushiftRight]
  by_cases hlt : i < n
  · simp [hlt]
  · have hout : a.getLsbD (64 - n + i) = false := BitVec.getLsbD_of_ge a _ (by omega)
    simp [hout]

theorem toLanes_thetaRhoPiChiIota (rc : BitVec 64) (A : KeccakLanes) :
    (A.thetaRhoPiChiIota rc A.prepareTheta).toLanes = Keccak.round rc A.toLanes := by
  have hba : A.ba ^^^ (A.prepareTheta.u ^^^ A.prepareTheta.e.rotateLeft 1) =
      (A.ba ^^^ (A.prepareTheta.u ^^^ A.prepareTheta.e.rotateLeft 1)).rotateLeft 0 := by
    ext i hi
    simp [BitVec.getElem_rotateLeft]
  funext x y
  simp (disch := decide) only [KeccakLanes.thetaRhoPiChiIota, rol64_eq]
  rw [hba]
  fin_cases x <;> fin_cases y <;> rfl

/-! ## The twelve rounds -/

/-- The rounds that prepare the next one. -/
theorem foldl_thetaRhoPiChiIotaPrepareTheta (rcs : List (BitVec 64)) (A : KeccakLanes) :
    ∃ E : KeccakLanes,
      rcs.foldl (fun s rc => thetaRhoPiChiIotaPrepareTheta rc s) (A, A.prepareTheta) =
        (E, E.prepareTheta) ∧
      E.toLanes = rcs.foldl (fun L rc => Keccak.round rc L) A.toLanes := by
  induction rcs generalizing A with
  | nil => exact ⟨A, rfl, rfl⟩
  | cons rc rcs ih =>
      rw [List.foldl_cons, List.foldl_cons, ← toLanes_thetaRhoPiChiIota]
      exact ih _

theorem roundConstants_eq : (List.range 12).map (fun k => Keccak.roundConstant (12 + k)) =
    keccakF1600RoundConstants ++ [0x8000000080008008] := by
  decide +kernel

theorem toLanes_rounds12 (A : KeccakLanes) :
    (rounds12 A).toLanes = Keccak.keccakP 12 A.toLanes := by
  obtain ⟨E, hfold, hE⟩ := foldl_thetaRhoPiChiIotaPrepareTheta keccakF1600RoundConstants A
  calc (rounds12 A).toLanes
      = (E.thetaRhoPiChiIota 0x8000000080008008 E.prepareTheta).toLanes := by
        rw [rounds12, hfold]
    _ = Keccak.round 0x8000000080008008 E.toLanes := toLanes_thetaRhoPiChiIota _ E
    _ = (keccakF1600RoundConstants ++ [0x8000000080008008]).foldl
          (fun L rc => Keccak.round rc L) A.toLanes := by
        rw [hE, List.foldl_append]
        rfl
    _ = Keccak.keccakP 12 A.toLanes := by
        rw [← roundConstants_eq, List.foldl_map]
        rfl

/-! ## The permutation on the bytes -/

theorem leNat_eq_ofDigits (bs : List Byte) : leNat bs = Nat.ofDigits 256 (bs.map BitVec.toNat) := by
  induction bs with
  | nil => rfl
  | cons b bs ih => rw [leNat, ih, List.map_cons, Nat.ofDigits_cons]

theorem u64At_toList (state : KeccakState) (k : Nat) :
    u64At state.toList k = Keccak.lane state k := by
  rw [u64At, readLE, leNat_eq_ofDigits, Keccak.lane]

theorem toVector_copyFromState (state : KeccakState) {k : Nat} (hk : k < 25) :
    (copyFromState state).toVector[k] = u64At state.toList k := by
  interval_cases k <;> rfl

theorem toLanes_copyFromState (state : KeccakState) :
    (copyFromState state).toLanes = Keccak.toLanes state := by
  funext x y
  rw [KeccakLanes.toLanes, toVector_copyFromState, u64At_toList, Keccak.toLanes]

theorem keccakP1600_Permute_12rounds_eq (state : KeccakState) :
    keccakP1600_Permute_12rounds state = Keccak.permute 12 state := by
  rw [keccakP1600_Permute_12rounds, copyToState, Keccak.permute, Keccak.ofLanes,
    ← toLanes_copyFromState, ← toLanes_rounds12]
  congr 1
  funext i
  have hindex : 5 * (i.val / 8 / 5) + i.val / 8 % 5 = i.val / 8 := Nat.div_add_mod _ _
  simp only [KeccakLanes.toLanes, hindex, Fin.getElem_fin]

end QubicBob
