import QubicBob.Ledger.SpectrumEffects
import QubicBob.Lib.Runs

set_option autoImplicit false

/-! # The spectrum is a map

What the table of entities is for: a map from public keys to what was credited to them and what was
taken from them. A caller looks a key up, credits a key, or debits a slot that an earlier lookup has
returned; `SpectrumHistory` keeps, beside the table, what the lookups have returned and which
credits and debits were accepted.

`WellFormedSpectrum` is the invariant of the open-addressing table: no empty slot between the home
slot of a key and its own. A probe that comes to an empty slot may then answer that the key is not
in the table, and a new key put there is found by its next probe. No call takes a key out or moves
it, which is why the invariant is kept, and why a slot that a lookup has returned is still that of
its key when it is debited. `RepresentsFrom` adds the sums of the history to this. It speaks of
slots, not of keys, so that a call has only to compare its own slot with the others; one free slot
is enough for every probe to end.
-/

namespace QubicBob

open Probe

/-! ## The invariant of the table -/

/-- Empty slots are all-zero, no key is in two slots, and no empty slot stands between the home slot
of a key and its own. -/
structure WellFormedSpectrum (depth : Nat) (s : Spectrum) : Prop where
  zeroed : ∀ i, i < 2 ^ depth → (s i).publicKey = m256i.zero → s i = EntityRecord.empty
  keyed : Keyed m256i.zero (homeSlot depth) (2 ^ depth) (fun i => (s i).publicKey)

/-- The table after start-up without a snapshot. -/
def zeroSpectrum : Spectrum := fun _ => EntityRecord.empty

theorem wellFormedSpectrum_zero (depth : Nat) : WellFormedSpectrum depth zeroSpectrum where
  zeroed _ _ _ := rfl
  keyed := Keyed.of_all_empty (fun _ _ => rfl)

def HasFreeSlot (depth : Nat) (s : Spectrum) : Prop :=
  ∃ i, i < 2 ^ depth ∧ (s i).publicKey = m256i.zero

/-- The key has a slot. -/
def HasEntity (depth : Nat) (s : Spectrum) (key : m256i) : Prop :=
  ∃ i, i < 2 ^ depth ∧ (s i).publicKey = key

section lookup

variable {depth i : Nat} {s : Spectrum} {key : m256i} {amount : BitVec 64} {tick : BitVec 32}

theorem entityStop_eq (s : Spectrum) (key : m256i) :
    entityStop s key = keyStop m256i.zero (fun i => (s i).publicKey) key := rfl

theorem isZero_eq_false (hkey : key ≠ m256i.zero) : key.isZero = false := by
  rw [Bool.eq_false_iff]
  exact fun hc => hkey (m256i.isZero_iff.mp hc)

/-- The lookup of a key other than zero, from where its probe ends. -/
theorem spectrumIndex_of_probe (hkey : key ≠ m256i.zero)
    (h : probe (entityStop s key) depth (homeSlot depth key) = some i) :
    spectrumIndex depth s key = .ok (if (s i).publicKey = key then some i else none) := by
  unfold spectrumIndex
  rw [isZero_eq_false hkey, if_neg Bool.false_ne_true, h]
  simp only [orDiverge_some, bind, Except.bind, beq_iff_eq]
  by_cases hi : (s i).publicKey = key
  · rw [if_pos hi, if_pos hi]
    rfl
  · rw [if_neg hi, if_neg hi]
    rfl

theorem probe_present (hs : WellFormedSpectrum depth s) (hkey : key ≠ m256i.zero)
    (hi : i < 2 ^ depth) (hik : (s i).publicKey = key) :
    probe (entityStop s key) depth (homeSlot depth key) = some i := by
  rw [entityStop_eq]
  exact hs.keyed.probe_present hi hik hkey (homeSlot_lt depth key)

theorem spectrumIndex_present (hs : WellFormedSpectrum depth s) (hkey : key ≠ m256i.zero)
    (hi : i < 2 ^ depth) (hik : (s i).publicKey = key) :
    spectrumIndex depth s key = .ok (some i) := by
  rw [spectrumIndex_of_probe hkey (probe_present hs hkey hi hik), if_pos hik]

/-- The probe for a key without a slot ends at a free one. -/
theorem probe_absent_free (hkey : ¬ HasEntity depth s key) (hfree : HasFreeSlot depth s) :
    ∃ x, probe (entityStop s key) depth (homeSlot depth key) = some x ∧ x < 2 ^ depth ∧
      (s x).publicKey = m256i.zero := by
  obtain ⟨z, hz, hzero⟩ := hfree
  rw [entityStop_eq]
  exact probe_free (homeSlot_lt depth key) hz hzero (fun i hi hik => hkey ⟨i, hi, hik⟩)

theorem spectrumIndex_absent (hkey : ¬ HasEntity depth s key) (hfree : HasFreeSlot depth s) :
    spectrumIndex depth s key = .ok none := by
  by_cases hz : key = m256i.zero
  · rw [hz]
    rfl
  · obtain ⟨x, hx, hlt, hzero⟩ := probe_absent_free hkey hfree
    rw [spectrumIndex_of_probe hz hx, if_neg]
    rw [hzero]
    exact Ne.symm hz

/-- A lookup returns the slot of the key, if it has one. -/
theorem spectrumIndex_eq_none_iff (hs : WellFormedSpectrum depth s) (hfree : HasFreeSlot depth s) :
    spectrumIndex depth s key = .ok none ↔ key = m256i.zero ∨ ¬ HasEntity depth s key := by
  constructor
  · intro h
    by_contra hcon
    rw [not_or, not_not] at hcon
    obtain ⟨hkey, i, hi, hik⟩ := hcon
    rw [spectrumIndex_present hs hkey hi hik] at h
    cases h
  · rintro (rfl | hkey)
    · rfl
    · exact spectrumIndex_absent hkey hfree

theorem spectrumIndex_returns (hs : WellFormedSpectrum depth s) (hfree : HasFreeSlot depth s)
    (key : m256i) : ∃ o, spectrumIndex depth s key = .ok o := by
  by_cases h : key = m256i.zero ∨ ¬ HasEntity depth s key
  · exact ⟨none, (spectrumIndex_eq_none_iff hs hfree).mpr h⟩
  · rw [not_or, not_not] at h
    obtain ⟨hkey, i, hi, hik⟩ := h
    exact ⟨some i, spectrumIndex_present hs hkey hi hik⟩

/-! ## Updates keep the invariant -/

theorem WellFormedSpectrum.zeroed_update {r : EntityRecord} (hs : WellFormedSpectrum depth s)
    (hr : r.publicKey ≠ m256i.zero) (j : Nat) (hj : j < 2 ^ depth)
    (hzero : (Function.update s i r j).publicKey = m256i.zero) :
    Function.update s i r j = EntityRecord.empty := by
  by_cases hji : j = i
  · rw [hji, Function.update_self] at hzero
    exact absurd hzero hr
  · rw [Function.update_of_ne hji] at hzero ⊢
    exact hs.zeroed j hj hzero

/-- A record is replaced by one of the same entity. -/
theorem WellFormedSpectrum.update {r : EntityRecord} (hs : WellFormedSpectrum depth s)
    (hr : r.publicKey = (s i).publicKey) (hkey : (s i).publicKey ≠ m256i.zero) :
    WellFormedSpectrum depth (Function.update s i r) := by
  have hkeys : (fun j => (Function.update s i r j).publicKey) = fun j => (s j).publicKey := by
    funext j
    by_cases hj : j = i
    · rw [hj, Function.update_self, hr]
    · rw [Function.update_of_ne hj]
  refine ⟨hs.zeroed_update (by rwa [hr]), ?_⟩
  rw [hkeys]
  exact hs.keyed

/-- A record of a new entity is written into the slot its probe ends at. -/
theorem WellFormedSpectrum.insert {r : EntityRecord} (hs : WellFormedSpectrum depth s)
    (hkey : key ≠ m256i.zero) (habsent : ¬ HasEntity depth s key)
    (hprobe : probe (entityStop s key) depth (homeSlot depth key) = some i)
    (hr : r.publicKey = key) : WellFormedSpectrum depth (Function.update s i r) := by
  have hkeys : (fun j => (Function.update s i r j).publicKey) =
      Function.update (fun j => (s j).publicKey) i key := by
    funext j
    by_cases hj : j = i
    · rw [hj, Function.update_self, Function.update_self, hr]
    · rw [Function.update_of_ne hj, Function.update_of_ne hj]
  refine ⟨hs.zeroed_update (by rwa [hr]), ?_⟩
  rw [hkeys]
  refine hs.keyed.insert (homeSlot_lt depth key) ?_ (fun j hj hjk => habsent ⟨j, hj, hjk⟩) hkey
  rw [entityStop_eq] at hprobe
  exact hprobe

/-- A credit to a key other than zero: its record grows, or it gets one in an all-zero slot. -/
theorem increaseEnergy_eq (hs : WellFormedSpectrum depth s)
    (hfree : ¬ HasEntity depth s key → HasFreeSlot depth s) (hkey : key ≠ m256i.zero)
    (hamount : 0 ≤ amount.toInt) (tick : BitVec 32) :
    ∃ i, i < 2 ^ depth ∧
      ((s i).publicKey = key ∧ increaseEnergy depth s key amount tick =
          .ok (Function.update s i ((s i).receive amount tick)) ∨
        ¬ HasEntity depth s key ∧ s i = EntityRecord.empty ∧
          probe (entityStop s key) depth (homeSlot depth key) = some i ∧
          increaseEnergy depth s key amount tick =
            .ok (Function.update s i (EntityRecord.empty.create key amount tick))) := by
  have hcond : key.isZero = false ∧ 0 ≤ amount.toInt := ⟨isZero_eq_false hkey, hamount⟩
  by_cases hhas : HasEntity depth s key
  · obtain ⟨i, hi, hik⟩ := hhas
    refine ⟨i, hi, Or.inl ⟨hik, ?_⟩⟩
    unfold increaseEnergy
    rw [if_pos hcond, probe_present hs hkey hi hik]
    simp only [orDiverge_some, bind, Except.bind, beq_iff_eq]
    rw [if_pos hik]
    rfl
  · obtain ⟨x, hx, hlt, hzero⟩ := probe_absent_free hhas (hfree hhas)
    have hempty := hs.zeroed x hlt hzero
    refine ⟨x, hlt, Or.inr ⟨hhas, hempty, hx, ?_⟩⟩
    unfold increaseEnergy
    rw [if_pos hcond, hx]
    simp only [orDiverge_some, bind, Except.bind, beq_iff_eq]
    rw [if_neg (by rw [hzero]; exact Ne.symm hkey), hempty]
    rfl

/-- A zero key or a negative amount is passed over. -/
theorem increaseEnergy_refused (h : ¬ (key ≠ m256i.zero ∧ 0 ≤ amount.toInt)) :
    increaseEnergy depth s key amount tick = .ok s := by
  unfold increaseEnergy
  refine if_neg (fun hc => h ⟨?_, hc.2⟩)
  rintro rfl
  exact absurd hc.1 (by decide)

end lookup

/-! ## Calls and what they leave behind -/

/-- The table, what lookups have returned so far, and the accepted credits and debits with their
keys. -/
structure SpectrumHistory where
  spectrum : Spectrum
  returned : List (m256i × Nat)
  credits : List (m256i × BitVec 64)
  debits : List (m256i × BitVec 64)

def SpectrumHistory.start (s : Spectrum) : SpectrumHistory := ⟨s, [], [], []⟩

/-- The calls on the table. A debit names the slot, and the key whose lookup has returned it. -/
inductive SpectrumCall where
  | spectrumIndex (publicKey : m256i)
  | increaseEnergy (publicKey : m256i) (amount : BitVec 64) (tick : BitVec 32)
  | decreaseEnergy (publicKey : m256i) (index : Nat) (amount : BitVec 64) (tick : BitVec 32)

namespace SpectrumHistory

def make (depth : Nat) (h : SpectrumHistory) : SpectrumCall → Except Halt SpectrumHistory
  | .spectrumIndex publicKey => do
      match ← spectrumIndex depth h.spectrum publicKey with
      | some i => pure { h with returned := (publicKey, i) :: h.returned }
      | none => pure h
  | .increaseEnergy publicKey amount tick => do
      let spectrum ← increaseEnergy depth h.spectrum publicKey amount tick
      -- the zero key and negative amounts are not accepted
      if publicKey ≠ m256i.zero ∧ 0 ≤ amount.toInt then
        pure { h with spectrum := spectrum, credits := (publicKey, amount) :: h.credits }
      else pure { h with spectrum := spectrum }
  | .decreaseEnergy publicKey index amount tick =>
      match decreaseEnergy h.spectrum index amount tick with
      | (spectrum, true) =>
          pure { h with spectrum := spectrum, debits := (publicKey, amount) :: h.debits }
      | (spectrum, false) => pure { h with spectrum := spectrum }

/-- A slot is free, and a debit goes to a slot that a lookup of its key has returned. -/
def Allowed (depth : Nat) (h : SpectrumHistory) (call : SpectrumCall) : Prop :=
  HasFreeSlot depth h.spectrum ∧
    match call with
    | .decreaseEnergy publicKey index _ _ => (publicKey, index) ∈ h.returned
    | _ => True

end SpectrumHistory

/-- The sum of the entries of a key. -/
def sumOf (key : m256i) (entries : List (m256i × BitVec 64)) : BitVec 64 :=
  ((entries.filter (fun e => e.1 = key)).map Prod.snd).sum

theorem sumOf_append (key : m256i) (new entries : List (m256i × BitVec 64)) :
    sumOf key (new ++ entries) = sumOf key new + sumOf key entries := by
  rw [sumOf, List.filter_append, List.map_append, List.sum_append, sumOf, sumOf]

theorem sumOf_singleton (key : m256i) (amount : BitVec 64) : sumOf key [(key, amount)] = amount := by
  simp [sumOf]

/-- No entry of the key. -/
theorem sumOf_eq_zero {key : m256i} {entries : List (m256i × BitVec 64)}
    (h : key ∉ entries.map Prod.fst) : sumOf key entries = 0 := by
  have hnil : entries.filter (fun e => e.1 = key) = [] := by
    refine List.filter_eq_nil_iff.mpr (fun e he heq => h ?_)
    rw [List.mem_map]
    exact ⟨e, he, by simpa using heq⟩
  rw [sumOf, hnil]
  rfl

theorem sumOf_of_other {key key' : m256i} {entries : List (m256i × BitVec 64)}
    (h : ∀ e ∈ entries, e.1 = key) (hne : key ≠ key') : sumOf key' entries = 0 := by
  refine sumOf_eq_zero (fun hmem => ?_)
  obtain ⟨e, he, hek⟩ := List.mem_map.mp hmem
  exact hne ((h e he).symm.trans hek)

/-- The record of a key, all-zero when it has none. -/
def recordOf (depth : Nat) (s : Spectrum) (key : m256i) : EntityRecord :=
  match spectrumIndex depth s key with
  | .ok (some i) => s i
  | _ => EntityRecord.empty

/-- The keys that have a slot are those of the first table and those credited since; their records
hold what they held in it and the accepted credits and debits since. -/
structure RepresentsFrom (depth : Nat) (s₀ : Spectrum) (h : SpectrumHistory) : Prop where
  wf : WellFormedSpectrum depth h.spectrum
  held : ∀ key, key ≠ m256i.zero → (HasEntity depth h.spectrum key ↔
    HasEntity depth s₀ key ∨ key ∈ h.credits.map Prod.fst)
  amounts : ∀ i, i < 2 ^ depth → (h.spectrum i).publicKey ≠ m256i.zero →
    (h.spectrum i).incomingAmount = (recordOf depth s₀ (h.spectrum i).publicKey).incomingAmount
      + sumOf (h.spectrum i).publicKey h.credits ∧
    (h.spectrum i).outgoingAmount = (recordOf depth s₀ (h.spectrum i).publicKey).outgoingAmount
      + sumOf (h.spectrum i).publicKey h.debits
  debited : ∀ e ∈ h.debits, e.1 ≠ m256i.zero ∧ HasEntity depth h.spectrum e.1
  returned : ∀ e ∈ h.returned, e.1 ≠ m256i.zero ∧ e.2 < 2 ^ depth ∧
    (h.spectrum e.2).publicKey = e.1

theorem recordOf_present {depth i : Nat} {s : Spectrum} (hs : WellFormedSpectrum depth s)
    (hi : i < 2 ^ depth) (hkey : (s i).publicKey ≠ m256i.zero) :
    recordOf depth s (s i).publicKey = s i := by
  rw [recordOf, spectrumIndex_present hs hkey hi rfl]

theorem recordOf_absent {depth : Nat} {s : Spectrum} {key : m256i}
    (h : ¬ HasEntity depth s key) : recordOf depth s key = EntityRecord.empty := by
  unfold recordOf
  split
  · next i hi =>
      obtain ⟨-, hlt, hik⟩ := spectrumIndex_some hi
      exact absurd ⟨i, hlt, hik⟩ h
  · rfl

theorem representsFrom_start {depth : Nat} {s : Spectrum} (hs : WellFormedSpectrum depth s) :
    RepresentsFrom depth s (SpectrumHistory.start s) where
  wf := hs
  held key _ := by
    rw [SpectrumHistory.start, List.map_nil]
    simp
  amounts i hi hkey := by
    dsimp only [SpectrumHistory.start]
    rw [recordOf_present hs hi hkey, sumOf_eq_zero List.not_mem_nil]
    simp
  debited e he := absurd he List.not_mem_nil
  returned e he := absurd he List.not_mem_nil

/-! ## Every call keeps the table in step with its history -/

section calls

variable {depth i : Nat} {s₀ s : Spectrum} {h h' : SpectrumHistory} {key : m256i}
  {amount : BitVec 64} {tick : BitVec 32}

theorem hasEntity_update {r : EntityRecord} (hr : r.publicKey = (s i).publicKey) :
    HasEntity depth (Function.update s i r) key ↔ HasEntity depth s key := by
  have hkeys : ∀ j, (Function.update s i r j).publicKey = (s j).publicKey := by
    intro j
    by_cases hj : j = i
    · rw [hj, Function.update_self, hr]
    · rw [Function.update_of_ne hj]
  unfold HasEntity
  simp only [hkeys]

theorem hasEntity_insert {r : EntityRecord} (hi : i < 2 ^ depth) (hzero : (s i).publicKey = m256i.zero)
    (hkey : key ≠ m256i.zero) :
    HasEntity depth (Function.update s i r) key ↔ HasEntity depth s key ∨ r.publicKey = key := by
  constructor
  · rintro ⟨j, hj, hjk⟩
    by_cases hji : j = i
    · rw [hji, Function.update_self] at hjk
      exact Or.inr hjk
    · rw [Function.update_of_ne hji] at hjk
      exact Or.inl ⟨j, hj, hjk⟩
  · rintro (⟨j, hj, hjk⟩ | hr)
    · have hji : j ≠ i := by
        rintro rfl
        exact hkey (hjk.symm.trans hzero)
      exact ⟨j, hj, by rw [Function.update_of_ne hji, hjk]⟩
    · exact ⟨i, hi, by rw [Function.update_self, hr]⟩

/-- Another slot than that of the key belongs to another key. -/
theorem WellFormedSpectrum.ne_key {j : Nat} (hs : WellFormedSpectrum depth s) (hi : i < 2 ^ depth)
    (hj : j < 2 ^ depth) (hji : j ≠ i) (hkey : (s j).publicKey ≠ m256i.zero) :
    (s i).publicKey ≠ (s j).publicKey :=
  fun heq => hji (hs.keyed.unique j i hj hi hkey heq.symm)

/-- The history after the record of an entity has changed by some credits and debits of its own. -/
theorem RepresentsFrom.update {r : EntityRecord} (hr : RepresentsFrom depth s₀ h)
    (credits debits : List (m256i × BitVec 64)) (hi : i < 2 ^ depth) (hik : (h.spectrum i).publicKey = key)
    (hkey : key ≠ m256i.zero) (hrk : r.publicKey = key) (hcredits : ∀ e ∈ credits, e.1 = key)
    (hdebits : ∀ e ∈ debits, e.1 = key)
    (hin : r.incomingAmount = (h.spectrum i).incomingAmount + sumOf key credits)
    (hout : r.outgoingAmount = (h.spectrum i).outgoingAmount + sumOf key debits) :
    RepresentsFrom depth s₀ { h with
      spectrum := Function.update h.spectrum i r
      credits := credits ++ h.credits
      debits := debits ++ h.debits } := by
  have hsame : r.publicKey = (h.spectrum i).publicKey := hrk.trans hik.symm
  have hhas : HasEntity depth h.spectrum key := ⟨i, hi, hik⟩
  constructor
  · exact hr.wf.update hsame (hik ▸ hkey)
  · intro k hk
    dsimp only
    rw [hasEntity_update hsame, hr.held k hk, List.map_append, List.mem_append]
    constructor
    · tauto
    · rintro (hl | hl | hl)
      · exact Or.inl hl
      · obtain ⟨e, he, rfl⟩ := List.mem_map.mp hl
        rw [hcredits e he, ← hr.held key hkey]
        exact hhas
      · exact Or.inr hl
  · intro j hj hjk
    dsimp only at hjk ⊢
    rw [sumOf_append, sumOf_append]
    by_cases hji : j = i
    · have hold := hr.amounts i hi (hik ▸ hkey)
      rw [hji, Function.update_self, hrk, hin, hout]
      rw [hik] at hold
      rw [hold.1, hold.2]
      constructor
      · rw [BitVec.add_assoc, BitVec.add_comm (sumOf key h.credits)]
      · rw [BitVec.add_assoc, BitVec.add_comm (sumOf key h.debits)]
    · rw [Function.update_of_ne hji] at hjk ⊢
      have hne := hr.wf.ne_key hi hj hji hjk
      rw [hik] at hne
      rw [sumOf_of_other hcredits hne, sumOf_of_other hdebits hne, zero_add, zero_add]
      exact hr.amounts j hj hjk
  · intro e he
    dsimp only at he ⊢
    rw [hasEntity_update hsame]
    rcases List.mem_append.mp he with hnew | hold
    · rw [hdebits e hnew]
      exact ⟨hkey, hhas⟩
    · exact hr.debited e hold
  · intro e he
    obtain ⟨hne, hlt, hek⟩ := hr.returned e he
    refine ⟨hne, hlt, ?_⟩
    dsimp only
    by_cases hei : e.2 = i
    · rw [hei, Function.update_self, hsame, ← hei]
      exact hek
    · rw [Function.update_of_ne hei]
      exact hek

/-- The history after an entity has got its first credit. -/
theorem RepresentsFrom.create (hr : RepresentsFrom depth s₀ h) (hi : i < 2 ^ depth)
    (hkey : key ≠ m256i.zero) (habsent : ¬ HasEntity depth h.spectrum key)
    (hempty : h.spectrum i = EntityRecord.empty)
    (hprobe : probe (entityStop h.spectrum key) depth (homeSlot depth key) = some i) :
    RepresentsFrom depth s₀ { h with
      spectrum := Function.update h.spectrum i (EntityRecord.empty.create key amount tick)
      credits := (key, amount) :: h.credits } := by
  have hzero : (h.spectrum i).publicKey = m256i.zero := by
    rw [hempty]
    rfl
  have hnew : ¬ HasEntity depth s₀ key ∧ key ∉ h.credits.map Prod.fst := by
    rw [← not_or, ← hr.held key hkey]
    exact habsent
  have hnodebit : key ∉ h.debits.map Prod.fst := by
    rw [List.mem_map]
    rintro ⟨e, he, rfl⟩
    exact habsent (hr.debited e he).2
  constructor
  · exact hr.wf.insert hkey habsent hprobe rfl
  · intro k hk
    dsimp only
    rw [hasEntity_insert hi hzero hk, hr.held k hk, List.map_cons, List.mem_cons]
    change _ ∨ key = k ↔ _
    rw [eq_comm (a := key)]
    tauto
  · intro j hj hjk
    dsimp only at hjk ⊢
    by_cases hji : j = i
    · rw [hji, Function.update_self]
      dsimp only [EntityRecord.create]
      rw [recordOf_absent hnew.1, ← List.singleton_append, sumOf_append, sumOf_singleton,
        sumOf_eq_zero hnew.2, sumOf_eq_zero hnodebit]
      simp [EntityRecord.empty]
    · rw [Function.update_of_ne hji] at hjk ⊢
      have hne : key ≠ (h.spectrum j).publicKey := by
        rintro rfl
        exact habsent ⟨j, hj, rfl⟩
      have hother : sumOf (h.spectrum j).publicKey [(key, amount)] = 0 :=
        sumOf_of_other (fun e he => congrArg Prod.fst (List.mem_singleton.mp he)) hne
      rw [← List.singleton_append, sumOf_append, hother, zero_add]
      exact hr.amounts j hj hjk
  · intro e he
    obtain ⟨hne, hhas⟩ := hr.debited e he
    exact ⟨hne, (hasEntity_insert hi hzero hne).mpr (Or.inl hhas)⟩
  · intro e he
    obtain ⟨hne, hlt, hek⟩ := hr.returned e he
    refine ⟨hne, hlt, ?_⟩
    have hei : e.2 ≠ i := by
      intro hei
      rw [hei, hzero] at hek
      exact hne hek.symm
    dsimp only
    rw [Function.update_of_ne hei]
    exact hek

theorem RepresentsFrom.increaseEnergy (hr : RepresentsFrom depth s₀ h)
    (hfree : ¬ HasEntity depth h.spectrum key → HasFreeSlot depth h.spectrum) :
    ∃ h', h.make depth (.increaseEnergy key amount tick) = .ok h' ∧ RepresentsFrom depth s₀ h' := by
  dsimp only [SpectrumHistory.make]
  by_cases hc : key ≠ m256i.zero ∧ 0 ≤ amount.toInt
  · simp only [if_pos hc]
    obtain ⟨i, hi, ⟨hik, heq⟩ | ⟨habsent, hempty, hprobe, heq⟩⟩ :=
      increaseEnergy_eq hr.wf hfree hc.1 hc.2 tick
    · rw [heq]
      refine ⟨_, rfl, ?_⟩
      exact hr.update [(key, amount)] [] hi hik hc.1 hik
        (fun e he => congrArg Prod.fst (List.mem_singleton.mp he))
        (fun e he => absurd he List.not_mem_nil) (by rw [sumOf_singleton]; rfl)
        (by rw [sumOf_eq_zero List.not_mem_nil]; exact (add_zero _).symm)
    · rw [heq]
      exact ⟨_, rfl, hr.create hi hc.1 habsent hempty hprobe⟩
  · rw [increaseEnergy_refused hc]
    simp only [if_neg hc]
    exact ⟨_, rfl, hr⟩

theorem RepresentsFrom.decreaseEnergy (hr : RepresentsFrom depth s₀ h)
    (hreturned : (key, i) ∈ h.returned) :
    ∃ h', h.make depth (.decreaseEnergy key i amount tick) = .ok h' ∧
      RepresentsFrom depth s₀ h' := by
  obtain ⟨hne, hi, hik⟩ := hr.returned _ hreturned
  dsimp only at hne hi hik
  dsimp only [SpectrumHistory.make]
  by_cases hc : 0 ≤ amount.toInt ∧ amount.toInt ≤ (energy h.spectrum i).toInt
  · rw [QubicBob.decreaseEnergy, if_pos hc]
    refine ⟨_, rfl, ?_⟩
    exact hr.update [] [(key, amount)] hi hik hne hik
      (fun e he => absurd he List.not_mem_nil)
      (fun e he => congrArg Prod.fst (List.mem_singleton.mp he))
      (by rw [sumOf_eq_zero List.not_mem_nil]; exact (add_zero _).symm)
      (by rw [sumOf_singleton]; rfl)
  · rw [QubicBob.decreaseEnergy, if_neg hc]
    exact ⟨_, rfl, hr⟩

theorem RepresentsFrom.spectrumIndex (hr : RepresentsFrom depth s₀ h)
    (hfree : HasFreeSlot depth h.spectrum) :
    ∃ h', h.make depth (.spectrumIndex key) = .ok h' ∧ RepresentsFrom depth s₀ h' := by
  dsimp only [SpectrumHistory.make]
  obtain ⟨o, ho⟩ := spectrumIndex_returns hr.wf hfree key
  rw [ho]
  cases o with
  | none => exact ⟨_, rfl, hr⟩
  | some i =>
      refine ⟨_, rfl, { hr with returned := ?_ }⟩
      intro e he
      rcases List.mem_cons.mp he with rfl | hold
      · exact spectrumIndex_some ho
      · exact hr.returned e hold

/-- One call: it returns, and the table it leaves stands for the history it leaves. -/
theorem RepresentsFrom.make (hr : RepresentsFrom depth s₀ h) {call : SpectrumCall}
    (hallowed : h.Allowed depth call) :
    ∃ h', h.make depth call = .ok h' ∧ RepresentsFrom depth s₀ h' := by
  obtain ⟨hfree, hreturned⟩ := hallowed
  cases call with
  | spectrumIndex key => exact hr.spectrumIndex hfree
  | increaseEnergy key amount tick => exact hr.increaseEnergy fun _ => hfree
  | decreaseEnergy key index amount tick => exact hr.decreaseEnergy hreturned

end calls

/-- From the all-zero table or any well-formed one, every sequence of lookups, credits and debits of
looked-up slots with a free slot throughout runs to its end, no probe going round for ever. The
table is then well-formed again, and a lookup of a key in it comes back: with no slot exactly for
the zero key and the keys that were not in the table and were never credited, and otherwise with the
slot of the key, whose amounts are those of the first table and the accepted credits and debits of
the key since, mod `2 ^ 64`. -/
theorem spectrum_represents_history (depth : Nat) (s₀ : Spectrum)
    (hs₀ : s₀ = zeroSpectrum ∨ WellFormedSpectrum depth s₀) (calls : List SpectrumCall)
    (hallowed : Runs.GuardedExcept (SpectrumHistory.make depth) (SpectrumHistory.Allowed depth)
      (SpectrumHistory.start s₀) calls)
    (hfree : ∀ h, Runs.runExcept (SpectrumHistory.make depth) (SpectrumHistory.start s₀) calls
      = .ok h → HasFreeSlot depth h.spectrum) :
    ∃ h, Runs.runExcept (SpectrumHistory.make depth) (SpectrumHistory.start s₀) calls = .ok h ∧
      WellFormedSpectrum depth h.spectrum ∧
      ∀ key,
        (spectrumIndex depth h.spectrum key = .ok none ↔ key = m256i.zero ∨
          ¬ HasEntity depth s₀ key ∧ key ∉ h.credits.map Prod.fst) ∧
        (¬ (key = m256i.zero ∨ ¬ HasEntity depth s₀ key ∧ key ∉ h.credits.map Prod.fst) →
          ∃ i, spectrumIndex depth h.spectrum key = .ok (some i) ∧ i < 2 ^ depth ∧
            (h.spectrum i).publicKey = key ∧
            (h.spectrum i).incomingAmount =
              (recordOf depth s₀ key).incomingAmount + sumOf key h.credits ∧
            (h.spectrum i).outgoingAmount =
              (recordOf depth s₀ key).outgoingAmount + sumOf key h.debits) := by
  have hwf : WellFormedSpectrum depth s₀ := by
    rcases hs₀ with rfl | hs₀
    · exact wellFormedSpectrum_zero depth
    · exact hs₀
  have hstep : ∀ h call, RepresentsFrom depth s₀ h → SpectrumHistory.Allowed depth h call →
      ∃ h', SpectrumHistory.make depth h call = .ok h' ∧ RepresentsFrom depth s₀ h' :=
    fun _ _ hr hcall => hr.make hcall
  obtain ⟨h, hrun, hr⟩ := Runs.runExcept_invariant hstep (representsFrom_start hwf) hallowed
  refine ⟨h, hrun, hr.wf, fun key => ?_⟩
  have hheld : (key = m256i.zero ∨ ¬ HasEntity depth h.spectrum key) ↔
      key = m256i.zero ∨ ¬ HasEntity depth s₀ key ∧ key ∉ h.credits.map Prod.fst := by
    by_cases hkey : key = m256i.zero
    · simp [hkey]
    · rw [hr.held key hkey, not_or]
  rw [← hheld]
  refine ⟨spectrumIndex_eq_none_iff hr.wf (hfree h hrun), fun hhas => ?_⟩
  rw [not_or, not_not] at hhas
  obtain ⟨hkey, i, hi, hik⟩ := hhas
  have hamounts := hr.amounts i hi (hik ▸ hkey)
  rw [hik] at hamounts
  exact ⟨i, spectrumIndex_present hr.wf hkey hi hik, hi, hik, hamounts.1, hamounts.2⟩

/-- Two keys with one home slot in a table of four; the second is found behind the first and pays. -/
def collidingCalls : List SpectrumCall :=
  [.increaseEnergy 5 100 1, .increaseEnergy 9 50 1, .spectrumIndex 9, .decreaseEnergy 9 2 20 2]

theorem spectrum_represents_history_at_collision :
    ∃ h, Runs.runExcept (SpectrumHistory.make 2) (SpectrumHistory.start zeroSpectrum)
        collidingCalls = .ok h ∧ WellFormedSpectrum 2 h.spectrum ∧
      spectrumIndex 2 h.spectrum 9 = .ok (some 2) ∧ (h.spectrum 2).incomingAmount = 50 ∧
      (h.spectrum 2).outgoingAmount = 20 := by
  have hallowed : Runs.GuardedExcept (SpectrumHistory.make 2) (SpectrumHistory.Allowed 2)
      (SpectrumHistory.start zeroSpectrum) collidingCalls := by
    refine ⟨⟨⟨3, by decide, rfl⟩, trivial⟩, fun h₁ hh₁ => ?_⟩
    obtain rfl := Except.ok.inj hh₁
    refine ⟨⟨⟨3, by decide, rfl⟩, trivial⟩, fun h₂ hh₂ => ?_⟩
    obtain rfl := Except.ok.inj hh₂
    refine ⟨⟨⟨3, by decide, rfl⟩, trivial⟩, fun h₃ hh₃ => ?_⟩
    obtain rfl := Except.ok.inj hh₃
    exact ⟨⟨⟨3, by decide, rfl⟩, List.mem_cons_self⟩, fun _ _ => trivial⟩
  obtain ⟨h, hrun, hwf, hkeys⟩ := spectrum_represents_history 2 zeroSpectrum (Or.inl rfl)
    collidingCalls hallowed (fun h hh => by
      obtain rfl := Except.ok.inj hh
      exact ⟨3, by decide, rfl⟩)
  refine ⟨h, hrun, hwf, ?_⟩
  obtain rfl := Except.ok.inj hrun
  exact ⟨rfl, rfl, rfl⟩

end QubicBob
