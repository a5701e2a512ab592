import QubicBob.Ledger.Dividends
import Mathlib.Algebra.BigOperators.Group.Multiset.Basic
import Mathlib.Data.Multiset.Range

set_option autoImplicit false

/-! # Reorganising the spectrum

At the end of an epoch the records with energy are put into a fresh table, in the order of their
slots, and the others are dropped.

The records of a table are compared as a multiset, since reorganising gives each of them another
slot. `Reorganized` is what holds after the first `n` slots: the fresh table is well-formed and its
records are those with energy among the first `n`. A key stands in one slot of the old table, so the
key of the next slot has not been moved yet and its probe ends at an empty slot, where a new key
keeps the table well-formed. There always is such a slot, even when the old table is full: the fresh
table has no more than `n` records in its `2 ^ depth` slots.
-/

namespace QubicBob

open Probe

/-- One round of the loop of `reorganizeSpectrum`: a record with a balance is copied to the first
empty slot from its home slot on. -/
def reorganizeSlot (depth : Nat) (spectrum : Spectrum) (reorgSpectrum : Spectrum) (i : Nat) :
    Except Halt Spectrum :=
  if energy spectrum i ≠ 0 then do
    let index ← orDiverge (probe (fun k => (reorgSpectrum k).publicKey.isZero) depth
      (homeSlot depth (spectrum i).publicKey))
    pure (Function.update reorgSpectrum index (spectrum i))
  else pure reorgSpectrum

def reorganizeSpectrum (depth : Nat) (spectrum : Spectrum) : Except Halt Spectrum :=
  (List.range (2 ^ depth)).foldlM (reorganizeSlot depth spectrum) zeroSpectrum

/-! ## The records of a table -/

/-- The records in use. -/
def entities (depth : Nat) (s : Spectrum) : Multiset EntityRecord :=
  ((Multiset.range (2 ^ depth)).map s).filter (fun r => r.publicKey ≠ m256i.zero)

/-- The records with energy among the first `n`. -/
def moving (s : Spectrum) (n : Nat) : Multiset EntityRecord :=
  ((Multiset.range n).map s).filter (fun r => r.energy ≠ 0)

section reorganize

variable {depth n x : Nat} {s reorg : Spectrum} {r : EntityRecord} {key : m256i}

theorem mem_entities : r ∈ entities depth s ↔
    ∃ i, i < 2 ^ depth ∧ s i = r ∧ (s i).publicKey ≠ m256i.zero := by
  simp only [entities, Multiset.mem_filter, Multiset.mem_map, Multiset.mem_range]
  constructor
  · rintro ⟨⟨i, hi, rfl⟩, hkey⟩
    exact ⟨i, hi, rfl, hkey⟩
  · rintro ⟨i, hi, rfl, hkey⟩
    exact ⟨⟨i, hi, rfl⟩, hkey⟩

theorem mem_moving : r ∈ moving s n ↔ ∃ i, i < n ∧ s i = r ∧ energy s i ≠ 0 := by
  simp only [moving, Multiset.mem_filter, Multiset.mem_map, Multiset.mem_range, energy_eq]
  constructor
  · rintro ⟨⟨i, hi, rfl⟩, henergy⟩
    exact ⟨i, hi, rfl, henergy⟩
  · rintro ⟨i, hi, rfl, henergy⟩
    exact ⟨⟨i, hi, rfl⟩, henergy⟩

theorem card_moving_le (s : Spectrum) (n : Nat) : (moving s n).card ≤ n := by
  have h := Multiset.card_le_card
    (Multiset.filter_le (fun r : EntityRecord => r.energy ≠ 0) ((Multiset.range n).map s))
  rwa [Multiset.card_map, Multiset.card_range] at h

theorem moving_succ : moving s (n + 1) =
    if energy s n ≠ 0 then s n ::ₘ moving s n else moving s n := by
  rw [moving, Multiset.range_succ, Multiset.map_cons]
  by_cases henergy : energy s n ≠ 0
  · rw [if_pos henergy,
      Multiset.filter_cons_of_pos (p := fun r : EntityRecord => r.energy ≠ 0) _ henergy, moving]
  · rw [if_neg henergy,
      Multiset.filter_cons_of_neg (p := fun r : EntityRecord => r.energy ≠ 0) _ henergy, moving]

theorem entities_zero : entities depth zeroSpectrum = 0 := by
  rw [entities, Multiset.filter_eq_nil]
  intro r hr
  obtain ⟨i, -, rfl⟩ := Multiset.mem_map.mp hr
  exact not_not.mpr rfl

/-- A record written into a free slot is one more. -/
theorem entities_insert (hx : x < 2 ^ depth) (hzero : (reorg x).publicKey = m256i.zero)
    (hr : r.publicKey ≠ m256i.zero) :
    entities depth (Function.update reorg x r) = r ::ₘ entities depth reorg := by
  have hmem : x ∈ Multiset.range (2 ^ depth) := Multiset.mem_range.mpr hx
  have hothers : ((Multiset.range (2 ^ depth)).erase x).map (Function.update reorg x r) =
      ((Multiset.range (2 ^ depth)).erase x).map reorg := by
    refine Multiset.map_congr rfl (fun i hi => Function.update_of_ne ?_ _ _)
    exact ((Multiset.nodup_range _).mem_erase_iff.mp hi).1
  rw [entities, entities, ← Multiset.cons_erase hmem, Multiset.map_cons, Multiset.map_cons,
    hothers, Function.update_self,
    Multiset.filter_cons_of_pos (p := fun r : EntityRecord => r.publicKey ≠ m256i.zero) _ hr,
    Multiset.filter_cons_of_neg (p := fun r : EntityRecord => r.publicKey ≠ m256i.zero) _
      (not_not.mpr hzero)]

/-- A table with fewer records than slots has a free slot. -/
theorem hasFreeSlot_of_card_lt (h : (entities depth s).card < 2 ^ depth) :
    HasFreeSlot depth s := by
  by_contra hfull
  have hall : entities depth s = (Multiset.range (2 ^ depth)).map s := by
    rw [entities, Multiset.filter_eq_self]
    intro r hr
    obtain ⟨i, hi, rfl⟩ := Multiset.mem_map.mp hr
    exact fun hzero => hfull ⟨i, Multiset.mem_range.mp hi, hzero⟩
  rw [hall, Multiset.card_map, Multiset.card_range] at h
  exact lt_irrefl _ h

/-- The total is a sum over the records in use. -/
theorem totalEnergy_eq_entities (hs : WellFormedSpectrum depth s) :
    totalEnergy depth s = ((entities depth s).map (fun r => r.energy.toInt)).sum := by
  have hall : ((Multiset.range (2 ^ depth)).map s).filter
      (fun r => ¬ r.publicKey ≠ m256i.zero) =
        Multiset.replicate (((Multiset.range (2 ^ depth)).map s).filter
          (fun r => ¬ r.publicKey ≠ m256i.zero)).card EntityRecord.empty := by
    rw [Multiset.eq_replicate_card]
    intro r hr
    obtain ⟨hmem, hzero⟩ := Multiset.mem_filter.mp hr
    obtain ⟨i, hi, rfl⟩ := Multiset.mem_map.mp hmem
    exact hs.zeroed i (Multiset.mem_range.mp hi) (not_not.mp hzero)
  have hsplit := Multiset.filter_add_not (fun r : EntityRecord => r.publicKey ≠ m256i.zero)
    ((Multiset.range (2 ^ depth)).map s)
  have hsum : totalEnergy depth s =
      (((Multiset.range (2 ^ depth)).map s).map (fun r => r.energy.toInt)).sum := by
    rw [Multiset.map_map]
    rfl
  rw [hsum, ← hsplit, Multiset.map_add, Multiset.sum_add, hall, Multiset.map_replicate,
    Multiset.sum_replicate, entities]
  simp [EntityRecord.energy, EntityRecord.empty]

/-- Records without energy make no difference to the total. -/
theorem sum_moving_entities (records : Multiset EntityRecord) :
    ((records.filter (fun r => r.energy ≠ 0)).map (fun r => r.energy.toInt)).sum =
      (records.map (fun r => r.energy.toInt)).sum := by
  have hzero : ((records.filter (fun r => ¬ r.energy ≠ 0)).map
      (fun r => r.energy.toInt)).sum = 0 := by
    refine Multiset.sum_eq_zero (fun a ha => ?_)
    obtain ⟨r, hr, rfl⟩ := Multiset.mem_map.mp ha
    rw [not_not.mp (Multiset.mem_filter.mp hr).2]
    rfl
  conv_rhs => rw [← Multiset.filter_add_not (fun r : EntityRecord => r.energy ≠ 0) records]
  rw [Multiset.map_add, Multiset.sum_add, hzero, add_zero]

/-! ## The loop -/

/-- A record with energy is in use. -/
theorem WellFormedSpectrum.key_of_energy (hs : WellFormedSpectrum depth s) (hx : x < 2 ^ depth)
    (henergy : energy s x ≠ 0) : (s x).publicKey ≠ m256i.zero := by
  intro hzero
  apply henergy
  rw [energy_eq, hs.zeroed x hx hzero]
  rfl

/-- After the first `n` slots the fresh table is well-formed and holds the records with energy among
them. -/
structure Reorganized (depth : Nat) (s : Spectrum) (n : Nat) (reorg : Spectrum) : Prop where
  wf : WellFormedSpectrum depth reorg
  records : entities depth reorg = moving s n

theorem reorganized_start : Reorganized depth s 0 zeroSpectrum where
  wf := wellFormedSpectrum_zero depth
  records := entities_zero

/-- The key of a later slot has not been moved. -/
theorem Reorganized.absent (h : Reorganized depth s n reorg) (hs : WellFormedSpectrum depth s)
    (hn : n < 2 ^ depth) (hkey : (s n).publicKey ≠ m256i.zero) :
    ¬ HasEntity depth reorg (s n).publicKey := by
  rintro ⟨j, hj, hjk⟩
  have hmem : reorg j ∈ moving s n := by
    rw [← h.records, mem_entities]
    exact ⟨j, hj, rfl, hjk ▸ hkey⟩
  obtain ⟨i, hi, hij, -⟩ := mem_moving.mp hmem
  have hin : n = i := hs.keyed.unique n i hn (by omega) hkey (hjk.symm.trans (by rw [hij]))
  omega

theorem reorganizeSlot_moved (henergy : energy s n ≠ 0)
    (hprobe : probe (fun j => (reorg j).publicKey.isZero) depth (homeSlot depth (s n).publicKey) =
      some x) :
    reorganizeSlot depth s reorg n = .ok (Function.update reorg x (s n)) := by
  rw [reorganizeSlot, if_pos henergy, hprobe]
  rfl

theorem reorganizeSlot_dropped (henergy : energy s n = 0) :
    reorganizeSlot depth s reorg n = .ok reorg :=
  if_neg (not_not.mpr henergy)

/-- One slot. -/
theorem Reorganized.step (h : Reorganized depth s n reorg) (hs : WellFormedSpectrum depth s)
    (hn : n < 2 ^ depth) :
    ∃ reorg', reorganizeSlot depth s reorg n = .ok reorg' ∧
      Reorganized depth s (n + 1) reorg' := by
  by_cases henergy : energy s n = 0
  · refine ⟨reorg, reorganizeSlot_dropped henergy, h.wf, ?_⟩
    rw [h.records, moving_succ, if_neg (not_not.mpr henergy)]
  · have hkey := hs.key_of_energy hn henergy
    have habsent := h.absent hs hn hkey
    have hfree : HasFreeSlot depth reorg := by
      apply hasFreeSlot_of_card_lt
      rw [h.records]
      exact lt_of_le_of_lt (card_moving_le s n) hn
    obtain ⟨x, hprobe, hx, hzero⟩ := probe_absent_free habsent hfree
    -- the key is not there, so that only an empty slot stops the probe
    have hstop : ∀ j, j < 2 ^ depth →
        (reorg j).publicKey.isZero = entityStop reorg (s n).publicKey j := by
      intro j hj
      have hne : ((reorg j).publicKey == (s n).publicKey) = false :=
        beq_eq_false_iff_ne.mpr (fun hjk => habsent ⟨j, hj, hjk⟩)
      rw [entityStop, hne, Bool.false_or]
    have hmoved := reorganizeSlot_moved henergy
      ((probe_congr hstop (homeSlot_lt depth _)).trans hprobe)
    refine ⟨_, hmoved, h.wf.insert hkey habsent hprobe rfl, ?_⟩
    rw [entities_insert hx hzero hkey, h.records, moving_succ, if_pos henergy]

/-- The first `n` slots. -/
theorem reorganize_run (hs : WellFormedSpectrum depth s) (hn : n ≤ 2 ^ depth) :
    ∃ reorg, (List.range n).foldlM (reorganizeSlot depth s) zeroSpectrum = .ok reorg ∧
      Reorganized depth s n reorg := by
  induction n with
  | zero => exact ⟨_, rfl, reorganized_start⟩
  | succ n ih =>
      obtain ⟨reorg, hrun, hreorg⟩ := ih (by omega)
      obtain ⟨reorg', hstep, hreorg'⟩ := hreorg.step hs (by omega)
      refine ⟨reorg', ?_, hreorg'⟩
      rw [List.range_succ, List.foldlM_append, hrun]
      show (List.foldlM (reorganizeSlot depth s) reorg [n] : Except Halt Spectrum) = _
      rw [List.foldlM_cons, hstep]
      rfl

/-- The records with energy are records in use. -/
theorem moving_all (hs : WellFormedSpectrum depth s) :
    moving s (2 ^ depth) = (entities depth s).filter (fun r => r.energy ≠ 0) := by
  rw [moving, entities, Multiset.filter_filter]
  refine Multiset.filter_congr (fun r hr => ?_)
  obtain ⟨i, hi, rfl⟩ := Multiset.mem_map.mp hr
  exact ⟨fun henergy => ⟨henergy, hs.key_of_energy (Multiset.mem_range.mp hi) henergy⟩,
    fun h => h.1⟩

end reorganize

/-- The reorganisation of a well-formed table, full or not, comes to its end with a well-formed
table: each record with energy is in it as it was and is found by probing, the keys without energy
are gone, the records are those with energy, each as often as before, and the total is the same. -/
theorem reorganizeSpectrum_preserves (depth : Nat) (s : Spectrum)
    (hs : WellFormedSpectrum depth s) :
    ∃ s', reorganizeSpectrum depth s = .ok s' ∧ WellFormedSpectrum depth s' ∧
      (∀ i, i < 2 ^ depth → energy s i ≠ 0 →
        ∃ j, spectrumIndex depth s' (s i).publicKey = .ok (some j) ∧ s' j = s i) ∧
      (∀ i, i < 2 ^ depth → energy s i = 0 → (s i).publicKey ≠ m256i.zero →
        ¬ HasEntity depth s' (s i).publicKey) ∧
      entities depth s' = (entities depth s).filter (fun r => r.energy ≠ 0) ∧
      totalEnergy depth s' = totalEnergy depth s := by
  obtain ⟨s', hrun, hwf, hrecords⟩ := reorganize_run hs (le_refl (2 ^ depth))
  refine ⟨s', hrun, hwf, ?_, ?_, ?_, ?_⟩
  · intro i hi henergy
    have hmem : s i ∈ entities depth s' := by
      rw [hrecords, mem_moving]
      exact ⟨i, hi, rfl, henergy⟩
    obtain ⟨j, hj, hji, hkey⟩ := mem_entities.mp hmem
    refine ⟨j, ?_, hji⟩
    rw [hji] at hkey
    exact spectrumIndex_present hwf hkey hj (by rw [hji])
  · rintro i hi henergy hkey ⟨j, hj, hjk⟩
    have hmem : s' j ∈ entities depth s' := mem_entities.mpr ⟨j, hj, rfl, hjk ▸ hkey⟩
    rw [hrecords] at hmem
    obtain ⟨k, hk, hkj, hmoved⟩ := mem_moving.mp hmem
    have hik : i = k := hs.keyed.unique i k hi hk hkey (hjk.symm.trans (by rw [hkj]))
    rw [← hik] at hmoved
    exact hmoved henergy
  · rw [hrecords, moving_all hs]
  · rw [totalEnergy_eq_entities hwf, totalEnergy_eq_entities hs, hrecords, moving_all hs,
      sum_moving_entities]

/-- A full table of two slots: a key with energy, and one without whose home is the same slot. -/
def fullSpectrum : Spectrum :=
  Function.update (Function.update zeroSpectrum 1 (EntityRecord.empty.create 7 0 1)) 0
    (EntityRecord.empty.create 5 100 1)

theorem reorganizeSpectrum_preserves_at_full :
    ∃ s', reorganizeSpectrum 1 fullSpectrum = .ok s' ∧ WellFormedSpectrum 1 s' ∧
      (∃ j, spectrumIndex 1 s' 5 = .ok (some j) ∧ s' j = EntityRecord.empty.create 5 100 1) ∧
      ¬ HasEntity 1 s' 7 ∧ totalEnergy 1 s' = 100 := by
  have hseven : WellFormedSpectrum 1
      (Function.update zeroSpectrum 1 (EntityRecord.empty.create 7 0 1)) :=
    (wellFormedSpectrum_zero 1).insert (show (7 : m256i) ≠ m256i.zero by decide)
      (not_hasEntity_zeroSpectrum (by decide)) (by decide +kernel) rfl
  have hfull : WellFormedSpectrum 1 fullSpectrum := by
    refine hseven.insert (show (5 : m256i) ≠ m256i.zero by decide) ?_ (by decide +kernel) rfl
    rintro ⟨i, hi, hik⟩
    revert hik
    revert i
    decide +kernel
  obtain ⟨s', hs', hwf, hfound, hgone, -, htotal⟩ := reorganizeSpectrum_preserves 1 fullSpectrum
    hfull
  refine ⟨s', hs', hwf, hfound 0 (by decide) (by decide +kernel),
    hgone 1 (by decide) (by decide +kernel) (by decide), ?_⟩
  rw [htotal]
  decide +kernel

end QubicBob
