import QubicBob.Api.LogQueries

set_option autoImplicit false

/-! # Right tags

The tag of a log should be the slot whose range has its id. Where the ranges of a tick follow each
other in the order of `sort()`, an id is past exactly the slots before its own, so the comparisons
of the cursor compare places: a cursor that moves by one gains one place for each log, and one that
scans goes to the place of the id it is moved for.

What each can do wrong follows from this. The first is at most as many places further as it has had
logs, so it falls behind where the ids skip slots (`KeepsPace`). The second never goes back, so it
is ahead where a log of an earlier slot comes after one of a later slot (`NotBehind`); and if it is
moved for another id, the slot of that id is what counts. A tick without tick data is a case of its
own: there the cursor is loaded anew for every log, and scans from the front.
-/

namespace QubicBob

/-! ## Contiguous ranges -/

namespace LogRangesPerTxInTick

/-- The range of the slot has the id. -/
def InSlot (lr : LogRangesPerTxInTick) (i : Fin LOG_TX_PER_TICK) (logId : Nat) : Prop :=
  (lr.fromLogId i).toInt ≤ logId ∧ (logId : Int) < (lr.fromLogId i).toInt + (lr.length i).toInt

/-- So does the range at the place `p` of the order. -/
def SlotAt (lr : LogRangesPerTxInTick) (p logId : Nat) : Prop :=
  ∃ i, lr.sort[p]? = some i ∧ lr.InSlot i logId

/-- Each range begins where the one before it in the order ends. Ranges may be empty. -/
structure Contiguous (lr : LogRangesPerTxInTick) : Prop where
  nonneg : ∀ i ∈ lr.sort, 0 ≤ (lr.fromLogId i).toInt ∧ 0 ≤ (lr.length i).toInt ∧
    (lr.fromLogId i).toInt + (lr.length i).toInt < 2 ^ 63
  next : ∀ p i j, lr.sort[p]? = some i → lr.sort[p + 1]? = some j →
    (lr.fromLogId j).toInt = (lr.fromLogId i).toInt + (lr.length i).toInt

section contiguous

variable {lr : LogRangesPerTxInTick} {p q logId logId' : Nat} {i j : Fin LOG_TX_PER_TICK}

theorem Contiguous.end_le (h : lr.Contiguous) (hpq : p < q) (hi : lr.sort[p]? = some i)
    (hj : lr.sort[q]? = some j) :
    (lr.fromLogId i).toInt + (lr.length i).toInt ≤ (lr.fromLogId j).toInt := by
  induction q generalizing j with
  | zero => omega
  | succ q ih =>
      have hlt : q < lr.sort.length := by
        have := (List.getElem?_eq_some_iff.mp hj).1
        omega
      have hq : lr.sort[q]? = some lr.sort[q] := List.getElem?_eq_getElem hlt
      rw [h.next q _ j hq hj]
      rcases Nat.lt_succ_iff_lt_or_eq.mp hpq with hpq | rfl
      · have hle := ih hpq hq
        have hnonneg := (h.nonneg _ (List.getElem_mem hlt)).2.1
        omega
      · rw [hi] at hq
        rw [Option.some.inj hq]

theorem Contiguous.slotAt_le (h : lr.Contiguous) (hp : lr.SlotAt p logId) (hq : lr.SlotAt q logId')
    (hle : logId ≤ logId') : p ≤ q := by
  obtain ⟨i, hi, hin⟩ := hp
  obtain ⟨j, hj, hjn⟩ := hq
  by_contra hlt
  have hend := h.end_le (Nat.lt_of_not_le hlt) hj hi
  have h₁ := hin.1
  have h₂ := hjn.2
  omega

theorem Contiguous.slotAt_unique (h : lr.Contiguous) (hp : lr.SlotAt p logId)
    (hq : lr.SlotAt q logId) : p = q :=
  Nat.le_antisymm (h.slotAt_le hp hq le_rfl) (h.slotAt_le hq hp le_rfl)

/-- The slot of an id is unique. -/
theorem Contiguous.inSlot_unique (h : lr.Contiguous) (hi : i ∈ lr.sort) (hj : j ∈ lr.sort)
    (hin : lr.InSlot i logId) (hjn : lr.InSlot j logId) : i = j := by
  obtain ⟨p, hp⟩ := List.mem_iff_getElem?.mp hi
  obtain ⟨q, hq⟩ := List.mem_iff_getElem?.mp hj
  obtain rfl := h.slotAt_unique ⟨i, hp, hin⟩ ⟨j, hq, hjn⟩
  rw [hp] at hq
  exact Option.some.inj hq

theorem SlotAt.exists_slot (h : lr.SlotAt p logId) : ∃ s, lr.sort[p]? = some s :=
  h.imp fun _ hi => hi.1

theorem SlotAt.lt_length (h : lr.SlotAt p logId) : p < lr.sort.length :=
  (List.getElem?_eq_some_iff.mp h.choose_spec.1).1

/-- An id in a range fits into a `long long`. -/
theorem Contiguous.logId_lt (h : lr.Contiguous) (hp : lr.SlotAt p logId) : logId < 2 ^ 63 := by
  obtain ⟨i, hi, hin⟩ := hp
  have hmax := (h.nonneg i (List.mem_of_getElem? hi)).2.2
  have hlt := hin.2
  omega

/-! ### In 64 bits -/

theorem toInt_ofNat_of_lt (h : logId < 2 ^ 63) : (BitVec.ofNat 64 logId).toInt = logId := by
  have hnat : (BitVec.ofNat 64 logId).toNat = logId := by
    rw [BitVec.toNat_ofNat]
    omega
  rw [BitVec.toInt_eq_toNat_of_lt (by omega), hnat]

theorem Contiguous.toInt_lastLogId (h : lr.Contiguous) (hi : i ∈ lr.sort) :
    (lr.lastLogId i).toInt = (lr.fromLogId i).toInt + (lr.length i).toInt - 1 := by
  obtain ⟨hfrom, hlen, hmax⟩ := h.nonneg i hi
  have hend : (lr.fromLogId i + lr.length i).toInt =
      (lr.fromLogId i).toInt + (lr.length i).toInt := by
    rw [BitVec.toInt_add, Int.bmod_eq_of_le (by omega) (by omega)]
  have hone : (1 : BitVec 64).toInt = 1 := by decide
  rw [lastLogId, BitVec.toInt_sub, hend, hone, Int.bmod_eq_of_le (by omega) (by omega)]

theorem Contiguous.inRange_iff (h : lr.Contiguous) (hi : i ∈ lr.sort) (hlt : logId < 2 ^ 63) :
    ((lr.fromLogId i).sle (BitVec.ofNat 64 logId) &&
      (BitVec.ofNat 64 logId).sle (lr.lastLogId i)) = true ↔ lr.InSlot i logId := by
  rw [Bool.and_eq_true, BitVec.sle_iff_toInt_le, BitVec.sle_iff_toInt_le, toInt_ofNat_of_lt hlt,
    h.toInt_lastLogId hi, InSlot]
  omega

/-- The scan finds the place of an id from every place before it. -/
theorem Contiguous.scanTxId_eq (h : lr.Contiguous) (hq : lr.SlotAt q logId) (hpq : p ≤ q) :
    lr.scanTxId lr.sort p (BitVec.ofNat 64 logId) = q := by
  have hlt := h.logId_lt hq
  have hlen := hq.lt_length
  have hfind : (lr.sort.drop p).findIdx? (fun i => (lr.fromLogId i).sle (BitVec.ofNat 64 logId) &&
      (BitVec.ofNat 64 logId).sle (lr.lastLogId i)) = some (q - p) := by
    rw [List.findIdx?_eq_some_iff_getElem]
    refine ⟨by rw [List.length_drop]; omega, ?_, fun k hk hin => ?_⟩
    · obtain ⟨i, hi, hin⟩ := hq
      have hget : (lr.sort.drop p)[q - p]? = some i := by
        rw [List.getElem?_drop, Nat.add_sub_cancel' hpq]
        exact hi
      rw [(List.getElem?_eq_some_iff.mp hget).2]
      exact (h.inRange_iff (List.mem_of_getElem? hi) hlt).mpr hin
    · have hklen : p + k < lr.sort.length := by omega
      have hk' : lr.sort[p + k]? = some lr.sort[p + k] := List.getElem?_eq_getElem hklen
      rw [List.getElem_drop, h.inRange_iff (List.getElem_mem hklen) hlt] at hin
      have heq := h.slotAt_unique ⟨_, hk', hin⟩ hq
      omega
  rw [scanTxId, hfind]
  exact Nat.add_sub_cancel' hpq

/-- Without a slot the scan gives 0. -/
theorem Contiguous.scanTxId_eq_zero (h : lr.Contiguous) (hlt : logId < 2 ^ 63)
    (hnone : ∀ p, ¬ lr.SlotAt p logId) : lr.scanTxId lr.sort 0 (BitVec.ofNat 64 logId) = 0 := by
  have hfind : (lr.sort.drop 0).findIdx? (fun i => (lr.fromLogId i).sle (BitVec.ofNat 64 logId) &&
      (BitVec.ofNat 64 logId).sle (lr.lastLogId i)) = none := by
    rw [List.drop_zero, List.findIdx?_eq_none_iff]
    intro i hi
    obtain ⟨p, hp⟩ := List.mem_iff_getElem?.mp hi
    exact Bool.eq_false_iff.mpr fun hin => hnone p ⟨i, hp, (h.inRange_iff hi hlt).mp hin⟩
  rw [scanTxId, hfind]

/-- An id is past the ranges before its own. -/
theorem Contiguous.signedPast_iff (h : lr.Contiguous) (hq : lr.SlotAt q logId) {k : Nat}
    {s : Fin LOG_TX_PER_TICK} (hs : lr.sort[k]? = some s) :
    signedPast (BitVec.ofNat 64 logId) (lr.lastLogId s) = true ↔ k < q := by
  have hlt := h.logId_lt hq
  obtain ⟨j, hj, hjn⟩ := hq
  rw [signedPast, BitVec.slt_iff_toInt_lt, toInt_ofNat_of_lt hlt,
    h.toInt_lastLogId (List.mem_of_getElem? hs)]
  constructor
  · intro hpassed
    by_contra hnot
    rcases Nat.lt_or_eq_of_le (Nat.le_of_not_lt hnot) with hqk | rfl
    · have hle := h.end_le hqk hj hs
      have hlen := (h.nonneg s (List.mem_of_getElem? hs)).2.1
      have hafter := hjn.2
      omega
    · rw [hs] at hj
      rw [← Option.some.inj hj] at hjn
      have hafter := hjn.2
      omega
  · intro hkq
    have hle := h.end_le hkq hs hj
    have hfrom := hjn.1
    omega

/-- The comparison without signs is the same, unless the range is empty and ends at -1. It does not
where it comes behind the range of some id. -/
theorem Contiguous.unsignedPast_eq (h : lr.Contiguous) (hp : lr.SlotAt p logId') {k : Nat}
    (hpk : p ≤ k) {s : Fin LOG_TX_PER_TICK} (hs : lr.sort[k]? = some s) (hlt : logId < 2 ^ 63) :
    unsignedPast (BitVec.ofNat 64 logId) (lr.lastLogId s) =
      signedPast (BitVec.ofNat 64 logId) (lr.lastLogId s) := by
  have hlast := h.toInt_lastLogId (List.mem_of_getElem? hs)
  have hnonneg : 0 ≤ (lr.lastLogId s).toInt := by
    obtain ⟨i, hi, hin⟩ := hp
    have hfrom := hin.1
    have hafter := hin.2
    rcases Nat.lt_or_eq_of_le hpk with hpk | rfl
    · have hle := h.end_le hpk hi hs
      have hlen := (h.nonneg s (List.mem_of_getElem? hs)).2.1
      omega
    · rw [hs] at hi
      rw [← Option.some.inj hi] at hfrom hafter
      omega
  have hnat : ((lr.lastLogId s).toNat : Int) = (lr.lastLogId s).toInt := by
    rw [BitVec.toInt_eq_toNat_cond] at hnonneg ⊢
    have hbound := (lr.lastLogId s).isLt
    split at hnonneg <;> omega
  rw [Bool.eq_iff_iff, unsignedPast, signedPast, BitVec.ult_iff_toNat_lt, BitVec.slt_iff_toInt_lt,
    toInt_ofNat_of_lt hlt, BitVec.toNat_ofNat, ← hnat]
  omega

/-- Both comparisons, from the range of some id on. -/
theorem Contiguous.past_iff (h : lr.Contiguous) {past : BitVec 64 → BitVec 64 → Bool}
    (hpast : past = signedPast ∨ past = unsignedPast) (hp : lr.SlotAt p logId')
    (hq : lr.SlotAt q logId) {k : Nat} (hpk : p ≤ k) {s : Fin LOG_TX_PER_TICK}
    (hs : lr.sort[k]? = some s) :
    past (BitVec.ofNat 64 logId) (lr.lastLogId s) = true ↔ k < q := by
  rcases hpast with rfl | rfl
  · exact h.signedPast_iff hq hs
  · rw [h.unsignedPast_eq hp hpk hs (h.logId_lt hq)]
    exact h.signedPast_iff hq hs

/-- An id below one with a slot has a slot itself, or is below all ranges. -/
theorem Contiguous.slotAt_or_below (h : lr.Contiguous) (hq : lr.SlotAt q logId)
    (hle : logId' ≤ logId) : (∃ p, lr.SlotAt p logId') ∨
      ∀ (k : Nat) s, lr.sort[k]? = some s → (logId' : Int) < (lr.fromLogId s).toInt := by
  obtain ⟨j, hj, hjn⟩ := hq
  have hbelow : (logId' : Int) < (lr.fromLogId j).toInt + (lr.length j).toInt := by
    have hafter := hjn.2
    omega
  clear hjn hle
  induction q generalizing j with
  | zero =>
      by_cases hfrom : (lr.fromLogId j).toInt ≤ logId'
      · exact .inl ⟨0, j, hj, hfrom, hbelow⟩
      · refine .inr fun k s hs => ?_
        rcases Nat.eq_zero_or_pos k with rfl | hk
        · rw [hs] at hj
          rw [Option.some.inj hj]
          omega
        · have hle := h.end_le hk hj hs
          have hlen := (h.nonneg j (List.mem_of_getElem? hj)).2.1
          omega
  | succ q ih =>
      by_cases hfrom : (lr.fromLogId j).toInt ≤ logId'
      · exact .inl ⟨q + 1, j, hj, hfrom, hbelow⟩
      · have hlt : q < lr.sort.length := by
          have hlen := (List.getElem?_eq_some_iff.mp hj).1
          omega
        have hget : lr.sort[q]? = some lr.sort[q] := List.getElem?_eq_getElem hlt
        refine ih _ hget ?_
        rw [← h.next q _ j hget hj]
        omega

end contiguous

/-- The place of an id, by the scan. -/
def place (lr : LogRangesPerTxInTick) (id : BitVec 64) : Nat := lr.scanTxId lr.sort 0 id

section place

variable {lr : LogRangesPerTxInTick} {q logId logId' : Nat}

theorem Contiguous.place_eq (h : lr.Contiguous) (hq : lr.SlotAt q logId) :
    lr.place (BitVec.ofNat 64 logId) = q := h.scanTxId_eq hq (Nat.zero_le q)

theorem Contiguous.slotAt_place (h : lr.Contiguous) (hq : lr.SlotAt q logId) :
    lr.SlotAt (lr.place (BitVec.ofNat 64 logId)) logId := by
  rw [h.place_eq hq]
  exact hq

/-- An id below one with a slot: the scan finds its place, or gives 0 and the id is past no range.
-/
theorem Contiguous.place_of_le (h : lr.Contiguous) (hq : lr.SlotAt q logId) (hle : logId' ≤ logId) :
    lr.place (BitVec.ofNat 64 logId') ≤ q ∧
    (∀ (k : Nat) s, lr.sort[k]? = some s →
      (signedPast (BitVec.ofNat 64 logId') (lr.lastLogId s) = true ↔
        k < lr.place (BitVec.ofNat 64 logId'))) ∧
    ∀ k, k < lr.place (BitVec.ofNat 64 logId') →
      lr.scanTxId lr.sort (k + 1) (BitVec.ofNat 64 logId') = lr.place (BitVec.ofNat 64 logId') := by
  rcases h.slotAt_or_below hq hle with ⟨p, hp⟩ | hbelow
  · rw [h.place_eq hp]
    exact ⟨h.slotAt_le hp hq hle, fun k s hs => h.signedPast_iff hp hs, fun k hk =>
      h.scanTxId_eq hp hk⟩
  · have hlt : logId' < 2 ^ 63 := lt_of_le_of_lt hle (h.logId_lt hq)
    have hplace : lr.place (BitVec.ofNat 64 logId') = 0 := by
      refine h.scanTxId_eq_zero hlt fun p hp => ?_
      obtain ⟨i, hi, hin⟩ := hp
      have hfrom := hin.1
      have hnot := hbelow p i hi
      omega
    rw [hplace]
    refine ⟨Nat.zero_le q, fun k s hs => ?_, fun k hk => absurd hk (Nat.not_lt_zero k)⟩
    have hfrom := hbelow k s hs
    have hlen := (h.nonneg s (List.mem_of_getElem? hs)).2.1
    rw [signedPast, BitVec.slt_iff_toInt_lt, toInt_ofNat_of_lt hlt,
      h.toInt_lastLogId (List.mem_of_getElem? hs)]
    omega

/-- Up to an id with a slot, places come in the order of the ids. -/
theorem Contiguous.place_mono (h : lr.Contiguous) (hq : lr.SlotAt q logId) {id id' : Nat}
    (hids : id ≤ id') (hle : id' ≤ logId) :
    lr.place (BitVec.ofNat 64 id) ≤ lr.place (BitVec.ofNat 64 id') := by
  rcases h.slotAt_or_below hq hle with ⟨p, hp⟩ | hbelow
  · rw [h.place_eq hp]
    exact (h.place_of_le hp hids).1
  · have hzero : lr.place (BitVec.ofNat 64 id) = 0 := by
      refine h.scanTxId_eq_zero (lt_of_le_of_lt (hids.trans hle) (h.logId_lt hq)) fun p hp => ?_
      obtain ⟨i, hi, hin⟩ := hp
      have hfrom := hin.1
      have hnot := hbelow p i hi
      omega
    rw [hzero]
    exact Nat.zero_le _

/-- The slot of the log is that of the other id as well; for an id below all ranges the scan gives
the first slot. -/
def SameSlot (lr : LogRangesPerTxInTick) (id logId : Nat) : Prop :=
  ∃ p, lr.SlotAt p logId ∧ (lr.SlotAt p id ∨ p = 0 ∧ ∀ q, ¬ lr.SlotAt q id)

theorem Contiguous.place_eq_iff (h : lr.Contiguous) (hq : lr.SlotAt q logId) {id : Nat}
    (hle : id ≤ logId) : lr.place (BitVec.ofNat 64 id) = q ↔ lr.SameSlot id logId := by
  have hlt : id < 2 ^ 63 := lt_of_le_of_lt hle (h.logId_lt hq)
  constructor
  · intro heq
    refine ⟨q, hq, ?_⟩
    by_cases hnone : ∀ p, ¬ lr.SlotAt p id
    · rw [place, h.scanTxId_eq_zero hlt hnone] at heq
      exact .inr ⟨heq.symm, hnone⟩
    · obtain ⟨p, hp⟩ := not_forall_not.mp hnone
      rw [h.place_eq hp] at heq
      exact .inl (heq ▸ hp)
  · rintro ⟨p, hp, hid | ⟨hzero, hnone⟩⟩
    · rw [h.place_eq hid]
      exact h.slotAt_unique hp hq
    · rw [place, h.scanTxId_eq_zero hlt hnone, ← hzero]
      exact h.slotAt_unique hp hq

end place

end LogRangesPerTxInTick

/-! ## The tags of one tick -/

section tags

variable {a : Archive} {rule : CursorRule} {move : TxCursor → Visit → TxCursor} {c : TxCursor}
  {vs ws : List Visit} {x : TaggedLog} {t : BitVec 32}

theorem mem_tagLogs_append (h : x ∈ (tagLogs rule move c (vs ++ ws)).1) :
    x ∈ (tagLogs rule move c vs).1 ∨
      ∃ c', (tagLogs rule move c vs).2 = .ok c' ∧ x ∈ (tagLogs rule move c' ws).1 := by
  induction vs generalizing c with
  | nil => exact .inr ⟨c, rfl, h⟩
  | cons v vs ih =>
      rw [List.cons_append] at h
      cases htake : (move c v).take rule v.id with
      | error e =>
          rw [tagLogs_of_error rfl htake] at h
          cases h
      | ok r =>
          rw [tagLogs_of_ok rfl htake] at h ⊢
          rcases List.mem_cons.mp h with rfl | h
          · exact .inl List.mem_cons_self
          · rcases ih h with h | h
            · exact .inl (List.mem_cons_of_mem _ h)
            · exact .inr h

theorem exists_visit (h : x ∈ (tagLogs rule move c vs).1) : ∃ v ∈ vs, v.log = x.log := by
  induction vs generalizing c with
  | nil => cases h
  | cons v vs ih =>
      cases htake : (move c v).take rule v.id with
      | error e =>
          rw [tagLogs_of_error rfl htake] at h
          cases h
      | ok r =>
          rw [tagLogs_of_ok rfl htake] at h
          rcases List.mem_cons.mp h with rfl | h
          · exact ⟨v, List.mem_cons_self, rfl⟩
          · obtain ⟨w, hw, hlog⟩ := ih h
            exact ⟨w, List.mem_cons_of_mem _ hw, hlog⟩

/-- The tags of logs that do not load the cursor. -/
theorem tags_of_walk (hstay : ∀ v ∈ vs, ∀ i, move { c with logTxOrderIndex := i } v =
      { c with logTxOrderIndex := i }) {ps : List Nat}
    (hwalk : c.walk rule (vs.map Visit.id) = some ps)
    (hx : x ∈ (tagLogs rule move c vs).1) :
    ∃ (j : Nat) (v : Visit) (p : Nat), vs[j]? = some v ∧ ps[j]? = some p ∧ x.log = v.log ∧
      c.logTxOrder[p]? = some x.txIndex := by
  induction vs generalizing c ps with
  | nil => cases hx
  | cons v vs ih =>
      have hmove : move c v = c := hstay v List.mem_cons_self c.logTxOrderIndex
      rw [List.map_cons] at hwalk
      rcases TxCursor.take_cases rule c v.id with ⟨htake, -⟩ | ⟨i, txIndex, hi, htake, hcons⟩
      · rw [tagLogs_of_error hmove htake] at hx
        cases hx
      · rw [hcons] at hwalk
        obtain ⟨ps', hps', rfl⟩ := Option.map_eq_some_iff.mp hwalk
        rw [tagLogs_of_ok hmove htake] at hx
        rcases List.mem_cons.mp hx with rfl | hx
        · exact ⟨0, v, i, rfl, rfl, rfl, hi⟩
        · obtain ⟨j, w, p, hw, hp, hlog, htx⟩ :=
            @ih { c with logTxOrderIndex := i } (fun w hw => hstay w (List.mem_cons_of_mem _ hw))
              ps' hps' hx
          exact ⟨j + 1, w, p, hw, hp, hlog, htx⟩

/-! ## Logs of one tick -/

/-- Only the tick's own record is of the tick, and a record that is not found is of no tick. -/
structure OwnRecord (a : Archive) (t : BitVec 32) : Prop where
  ne_zero : t ≠ 0
  vtick : ∀ u full, a.vtick u = some full → full.td.tick = t → u = t

/-- The records that the cleaner writes are of their own ticks. -/
theorem OwnRecord.compress (h : OwnRecord a t) (o : CompressOutcomes) (u : BitVec 32) :
    OwnRecord (Runs.run Archive.exec a (a.compressTickAndMoveToKVRocks o u)) t := by
  refine ⟨h.ne_zero, fun w full hfull htick => ?_⟩
  rw [(Archive.run_compress a o u).2] at hfull
  split at hfull
  · by_cases hw : w = u
    · subst hw
      rw [Function.update_self] at hfull
      rw [← Option.some.inj hfull, fullRead, answered] at htick
      cases hdata : dbGetTickData a.ticks w with
      | none =>
          rw [hdata, ite_self] at htick
          exact absurd htick.symm h.ne_zero
      | some td =>
          rw [hdata] at htick
          split at htick
          · exact (a.ticks.data_key hdata).symm.trans htick
          · exact absurd htick.symm h.ne_zero
    · rw [Function.update_of_ne hw] at hfull
      exact h.vtick w full hfull htick
  · exact h.vtick w full hfull htick

theorem OwnRecord.eq_of_loaded {u : BitVec 32} (h : OwnRecord a t)
    (hu : (a.loadedTickData u).tick = t) : u = t := by
  rw [Archive.loadedTickData, Archive.dbTryGetTickData_eq_or] at hu
  cases hdata : dbGetTickData a.ticks u with
  | some td =>
      rw [hdata] at hu
      have htick : td.tick = u := a.ticks.data_key hdata
      exact htick.symm.trans hu
  | none =>
      rw [hdata] at hu
      cases hfull : a.vtick u with
      | some full =>
          rw [hfull] at hu
          exact h.vtick u full hfull hu
      | none =>
          rw [hfull] at hu
          exact absurd hu.symm h.ne_zero

theorem take_td {id : BitVec 64} {r : TxCursor × Fin LOG_TX_PER_TICK} (h : c.take rule id = .ok r) :
    r.1.td = c.td := by
  rcases TxCursor.take_cases rule c id with ⟨htake, -⟩ | ⟨i, txIndex, -, htake, -⟩
  · rw [htake] at h
    cases h
  · rw [htake] at h
    rw [← Except.ok.inj h]

theorem moveTo_td_ne (h : OwnRecord a t) {v : Visit} (hv : v.log.getTick ≠ t) :
    (TxCursor.moveTo a c v).td.tick ≠ t := by
  rw [TxCursor.moveTo]
  split
  · exact fun hload => hv (h.eq_of_loaded hload)
  · next hsame =>
      rw [← not_not.mp hsame]
      exact hv

/-- Logs of other ticks do not load the tick. -/
theorem td_ne_of_others (h : OwnRecord a t) (hc : c.td.tick ≠ t) (hvs : ∀ v ∈ vs, v.log.getTick ≠ t)
    {c' : TxCursor} (hend : (tagLogs rule (TxCursor.moveTo a) c vs).2 = .ok c') :
    c'.td.tick ≠ t := by
  induction vs generalizing c with
  | nil =>
      obtain rfl := Except.ok.inj hend
      exact hc
  | cons v vs ih =>
      obtain ⟨hv, hvs⟩ := List.forall_mem_cons.mp hvs
      have hmoved := moveTo_td_ne (c := c) h hv
      cases htake : (TxCursor.moveTo a c v).take rule v.id with
      | error e =>
          rw [tagLogs_of_error rfl htake] at hend
          cases hend
      | ok r =>
          rw [tagLogs_of_ok rfl htake] at hend
          exact ih (by rw [take_td htake]; exact hmoved) hvs hend

/-- The tags of the tick are those of its own logs, with a cursor that is loaded for the first. -/
theorem exists_block (h : OwnRecord a t) {pre blk post : List Visit}
    (hpre : ∀ v ∈ pre, v.log.getTick ≠ t) (hpost : ∀ v ∈ post, v.log.getTick ≠ t)
    (hx : x ∈ (tagLogs rule (TxCursor.moveTo a) .init (pre ++ blk ++ post)).1)
    (ht : x.log.getTick = t) :
    ∃ c, c.td.tick ≠ t ∧ x ∈ (tagLogs rule (TxCursor.moveTo a) c blk).1 := by
  rcases mem_tagLogs_append hx with hx | ⟨c', -, hx⟩
  · rcases mem_tagLogs_append hx with hx | ⟨c', hend, hx⟩
    · obtain ⟨v, hv, hlog⟩ := exists_visit hx
      exact absurd (hlog ▸ ht) (hpre v hv)
    · exact ⟨c', td_ne_of_others h (fun hzero => h.ne_zero hzero.symm) hpre hend, hx⟩
  · obtain ⟨v, hv, hlog⟩ := exists_visit hx
    exact absurd (hlog ▸ ht) (hpost v hv)

theorem load_eq {lr : LogRangesPerTxInTick} (hload : a.loadedRanges t = lr) (id : BitVec 64) :
    TxCursor.load a t id = ⟨a.loadedTickData t, lr, lr.sort, lr.place id⟩ := by
  rw [← hload]
  rfl

theorem take_of_not_past {id : BitVec 64} {s : Fin LOG_TX_PER_TICK}
    (hs : c.logTxOrder[c.logTxOrderIndex]? = some s) (h : rule.past id (c.lr.lastLogId s) = false) :
    c.take rule id = .ok (c, s) := by
  rw [TxCursor.take, TxCursor.slot, hs]
  show (if rule.past id (c.lr.lastLogId s) = true then _ else _) = _
  rw [h]
  rfl

theorem take_of_past {id : BitVec 64} {s s' : Fin LOG_TX_PER_TICK} {i : Nat}
    (hs : c.logTxOrder[c.logTxOrderIndex]? = some s) (h : rule.past id (c.lr.lastLogId s) = true)
    (hi : rule.advance c.lr c.logTxOrder c.logTxOrderIndex id = i)
    (hs' : c.logTxOrder[i]? = some s') :
    c.take rule id = .ok ({ c with logTxOrderIndex := i }, s') := by
  rw [TxCursor.take, TxCursor.slot, hs]
  show (if rule.past id (c.lr.lastLogId s) = true then _ else _) = _
  rw [h, if_pos rfl]
  show (do let txIndex ← c.slot (rule.advance c.lr c.logTxOrder c.logTxOrderIndex id); _) = _
  rw [hi, TxCursor.slot, hs']
  rfl

theorem moveTo_of_ne {v : Visit} (hv : v.log.getTick = t) (hc : c.td.tick ≠ t) :
    TxCursor.moveTo a c v = .load a t v.id := by
  rw [TxCursor.moveTo, hv, if_pos hc.symm]

theorem moveTo_of_eq {v : Visit} (hv : v.log.getTick = t) (hc : c.td.tick = t) :
    TxCursor.moveTo a c v = c := by
  rw [TxCursor.moveTo, hv, if_neg (not_not.mpr hc.symm)]

variable {lr : LogRangesPerTxInTick} {blk : List Visit}

/-- What a rule needs of the ids it is used for, where the first of them has the place `i`. -/
structure Placed (rule : CursorRule) (lr : LogRangesPerTxInTick) (i : Nat)
    (ids : List (BitVec 64)) : Prop where
  levelled : SlotCursor.Levelled (fun id s => rule.past id (lr.lastLogId s)) lr.sort lr.place i ids
  sorted : ids.Pairwise fun id id' => lr.place id ≤ lr.place id'

theorem Placed.place_tail {i : Nat} {id : BitVec 64} {ids : List (BitVec 64)}
    (h : Placed rule lr i (id :: ids)) : Placed rule lr (lr.place id) ids :=
  ⟨h.levelled.tail (h.levelled id List.mem_cons_self).2.1 h.sorted le_rfl,
    (List.pairwise_cons.mp h.sorted).2⟩

theorem Placed.not_past {i : Nat} {id : BitVec 64} {ids : List (BitVec 64)}
    (h : Placed rule lr i ids) (hid : id ∈ ids) :
    ∃ s, lr.sort[lr.place id]? = some s ∧ rule.past id (lr.lastLogId s) = false := by
  obtain ⟨hlt, hle, hpast⟩ := h.levelled id hid
  have hs : lr.sort[lr.place id]? = some lr.sort[lr.place id] := List.getElem?_eq_getElem hlt
  exact ⟨_, hs, Bool.eq_false_iff.mpr fun htrue => lt_irrefl _ ((hpast _ _ hle hs).mp htrue)⟩

/-- Where the tick data is not found, each log loads the cursor and is tagged with the place of its
id. -/
theorem tag_of_reloads (hlr : a.loadedRanges t = lr) (htd : (a.loadedTickData t).tick ≠ t)
    (hc : c.td.tick ≠ t) (hblk : ∀ v ∈ blk, v.log.getTick = t) {i : Nat}
    (hplaced : Placed rule lr i (blk.map Visit.id))
    (hx : x ∈ (tagLogs rule (TxCursor.moveTo a) c blk).1) :
    ∃ v ∈ blk, x.log = v.log ∧ lr.sort[lr.place v.id]? = some x.txIndex := by
  induction blk generalizing c i with
  | nil => cases hx
  | cons v blk ih =>
      obtain ⟨hv, hblk⟩ := List.forall_mem_cons.mp hblk
      have hmove := moveTo_of_ne (a := a) hv hc
      obtain ⟨s, hs, hpast⟩ := hplaced.not_past List.mem_cons_self
      have htake : (TxCursor.load a t v.id).take rule v.id = .ok (.load a t v.id, s) := by
        rw [load_eq hlr]
        exact take_of_not_past hs hpast
      rw [tagLogs_of_ok hmove htake] at hx
      rcases List.mem_cons.mp hx with rfl | hx
      · exact ⟨v, List.mem_cons_self, rfl, hs⟩
      · obtain ⟨w, hw, hlog, htx⟩ := ih htd hblk hplaced.place_tail hx
        exact ⟨w, List.mem_cons_of_mem _ hw, hlog, htx⟩

/-- Where it is found, the first log loads the cursor and the others move it. -/
theorem tag_of_load (hlr : a.loadedRanges t = lr) (htd : (a.loadedTickData t).tick = t)
    (hc : c.td.tick ≠ t) (hblk : ∀ v ∈ blk, v.log.getTick = t) {v : Visit}
    (hfirst : blk.head? = some v) {ps : List Nat}
    (hwalk : SlotCursor.walk (fun id s => rule.past id (lr.lastLogId s))
      (fun i id => rule.advance lr lr.sort i id) lr.sort (lr.place v.id) (blk.map Visit.id) =
        some ps)
    (hx : x ∈ (tagLogs rule (TxCursor.moveTo a) c blk).1) :
    ∃ (j : Nat) (w : Visit) (p : Nat), blk[j]? = some w ∧ ps[j]? = some p ∧ x.log = w.log ∧
      lr.sort[p]? = some x.txIndex := by
  cases blk with
  | nil => cases hx
  | cons u rest =>
      obtain rfl := Option.some.inj hfirst
      have hu := hblk u List.mem_cons_self
      have hmove := moveTo_of_ne (a := a) hu hc
      have hsame : TxCursor.moveTo a (.load a t u.id) u = .load a t u.id := moveTo_of_eq hu htd
      have hload : tagLogs rule (TxCursor.moveTo a) c (u :: rest) =
          tagLogs rule (TxCursor.moveTo a) (.load a t u.id) (u :: rest) := by
        rw [tagLogs, tagLogs, hmove, hsame]
      rw [hload] at hx
      rw [load_eq hlr] at hx
      have hwalk' : TxCursor.walk rule ⟨a.loadedTickData t, lr, lr.sort, lr.place u.id⟩
          ((u :: rest).map Visit.id) = some ps := hwalk
      exact tags_of_walk (fun w hw i => moveTo_of_eq (hblk w hw) htd) hwalk' hx

/-- A rule that scans takes the cursor to the place of each id. -/
theorem walk_rescan_eq {past : BitVec 64 → BitVec 64 → Bool} {i : Nat}
    (hplaced : Placed (.rescan past) lr i (blk.map Visit.id))
    (hscan : ∀ v ∈ blk, ∀ k, k < lr.place v.id →
      lr.scanTxId lr.sort (k + 1) v.id = lr.place v.id) :
    SlotCursor.walk (fun id s => past id (lr.lastLogId s))
      (fun i id => lr.scanTxId lr.sort (i + 1) id) lr.sort i (blk.map Visit.id) =
        some ((blk.map Visit.id).map lr.place) := by
  refine SlotCursor.walk_advance_eq hplaced.levelled hplaced.sorted fun id hid k _ hk => ?_
  obtain ⟨v, hv, rfl⟩ := List.mem_map.mp hid
  exact hscan v hv k hk

/-- With a rule that scans, every log is tagged with the place of its id. -/
theorem tag_of_rescan {past : BitVec 64 → BitVec 64 → Bool} (hlr : a.loadedRanges t = lr)
    (hc : c.td.tick ≠ t) (hblk : ∀ v ∈ blk, v.log.getTick = t)
    (hplaced : ∀ v ∈ blk.head?, Placed (.rescan past) lr (lr.place v.id) (blk.map Visit.id))
    (hscan : ∀ v ∈ blk, ∀ k, k < lr.place v.id → lr.scanTxId lr.sort (k + 1) v.id = lr.place v.id)
    (hx : x ∈ (tagLogs (.rescan past) (TxCursor.moveTo a) c blk).1) :
    ∃ v ∈ blk, x.log = v.log ∧ lr.sort[lr.place v.id]? = some x.txIndex := by
  cases hhead : blk.head? with
  | none =>
      rw [List.head?_eq_none_iff.mp hhead] at hx
      cases hx
  | some v =>
      have hp := hplaced v hhead
      by_cases htd : (a.loadedTickData t).tick = t
      · obtain ⟨j, w, p, hw, hps, hlog, htx⟩ :=
          tag_of_load hlr htd hc hblk hhead (walk_rescan_eq hp hscan) hx
        rw [List.getElem?_map, List.getElem?_map, hw] at hps
        obtain rfl := Option.some.inj hps
        exact ⟨w, List.mem_of_getElem? hw, hlog, htx⟩
      · exact tag_of_reloads hlr htd hc hblk hp hx

/-! ## Logs moved for their own ids -/

/-- Logs of one tick in the order of their ids, each with a slot. -/
structure OwnBlock (lr : LogRangesPerTxInTick) (t : BitVec 32) (blk : List Visit) : Prop where
  tick : ∀ v ∈ blk, v.log.getTick = t
  own : ∀ v ∈ blk, v.id = BitVec.ofNat 64 v.log.getLogId
  slot : ∀ v ∈ blk, ∃ p, lr.SlotAt p v.log.getLogId
  sorted : blk.Pairwise fun v w => v.log.getLogId < w.log.getLogId

theorem OwnBlock.slotAt_place (h : OwnBlock lr t blk) (hlr : lr.Contiguous) {v : Visit}
    (hv : v ∈ blk) : lr.SlotAt (lr.place v.id) v.log.getLogId := by
  obtain ⟨p, hp⟩ := h.slot v hv
  rw [h.own v hv]
  exact hlr.slotAt_place hp

theorem OwnBlock.place_le (h : OwnBlock lr t blk) (hlr : lr.Contiguous) :
    (blk.map Visit.id).Pairwise fun id id' => lr.place id ≤ lr.place id' := by
  rw [List.pairwise_map]
  exact h.sorted.imp_of_mem fun hv hw hlt =>
    hlr.slotAt_le (h.slotAt_place hlr hv) (h.slotAt_place hlr hw) hlt.le

/-- Both comparisons will do, from the slot of some id on. -/
theorem OwnBlock.placed (h : OwnBlock lr t blk) (hlr : lr.Contiguous) (hpast :
    rule.past = signedPast ∨ rule.past = unsignedPast) {i logId : Nat} (hi : lr.SlotAt i logId)
    (hle : ∀ v ∈ blk, i ≤ lr.place v.id) : Placed rule lr i (blk.map Visit.id) := by
  refine ⟨fun id hid => ?_, h.place_le hlr⟩
  obtain ⟨v, hv, rfl⟩ := List.mem_map.mp hid
  have hslot := h.slotAt_place hlr hv
  refine ⟨hslot.lt_length, hle v hv, fun k s hk hs => ?_⟩
  rw [h.own v hv] at hslot ⊢
  exact hlr.past_iff hpast hi hslot hk hs

theorem OwnBlock.placed_head (h : OwnBlock lr t blk) (hlr : lr.Contiguous)
    (hpast : rule.past = signedPast ∨ rule.past = unsignedPast) :
    ∀ v ∈ blk.head?, Placed rule lr (lr.place v.id) (blk.map Visit.id) := by
  intro v hv
  cases blk with
  | nil => cases hv
  | cons u rest =>
      obtain rfl := Option.some.inj hv
      refine h.placed hlr hpast (h.slotAt_place hlr List.mem_cons_self) fun w hw => ?_
      rcases List.mem_cons.mp hw with rfl | hw
      · exact le_rfl
      · exact (List.pairwise_cons.mp (h.place_le hlr)).1 _ (List.mem_map_of_mem hw)

/-- The log is tagged with the slot that has its id. -/
def TaggedLog.RightTag (lr : LogRangesPerTxInTick) (x : TaggedLog) : Prop :=
  x.txIndex ∈ lr.sort ∧ lr.InSlot x.txIndex x.log.getLogId

theorem rightTag_iff (hlr : lr.Contiguous) {p q : Nat} (hq : lr.SlotAt q x.log.getLogId)
    (hp : lr.sort[p]? = some x.txIndex) : x.RightTag lr ↔ p = q := by
  constructor
  · exact fun h => hlr.slotAt_unique ⟨_, hp, h.2⟩ hq
  · rintro rfl
    obtain ⟨i, hi, hin⟩ := hq
    rw [hp] at hi
    rw [← Option.some.inj hi] at hin
    exact ⟨List.mem_of_getElem? hp, hin⟩

/-- From each log before it to the log, not more slots are passed than there are logs. -/
def KeepsPace (lr : LogRangesPerTxInTick) (logs : List LogEvent) (log : LogEvent) : Prop :=
  ∀ (i j : Nat) log', i ≤ j → logs[i]? = some log' → logs[j]? = some log →
    ∀ p q, lr.SlotAt p log'.getLogId → lr.SlotAt q log.getLogId → q ≤ p + (j - i)

theorem OwnBlock.index_unique (h : OwnBlock lr t blk) {i j : Nat} {log : LogEvent}
    (hi : (blk.map Visit.log)[i]? = some log) (hj : (blk.map Visit.log)[j]? = some log) :
    i = j := by
  have hsorted : (blk.map Visit.log).Pairwise fun log log' => log.getLogId < log'.getLogId :=
    List.pairwise_map.mpr h.sorted
  rw [List.pairwise_iff_getElem] at hsorted
  obtain ⟨hil, hi⟩ := List.getElem?_eq_some_iff.mp hi
  obtain ⟨hjl, hj⟩ := List.getElem?_eq_some_iff.mp hj
  rcases Nat.lt_trichotomy i j with hlt | heq | hlt
  · have hids := hsorted i j hil hjl hlt
    rw [hi, hj] at hids
    exact absurd hids (lt_irrefl _)
  · exact heq
  · have hids := hsorted j i hjl hil hlt
    rw [hi, hj] at hids
    exact absurd hids (lt_irrefl _)

/-- A rule that moves by one gives a log the right tag if it keeps pace, or if every log loads the
cursor. -/
theorem rightTag_iff_keepsPace {past : BitVec 64 → BitVec 64 → Bool} (h : OwnBlock lr t blk)
    (hlr : lr.Contiguous) (hpast : past = signedPast ∨ past = unsignedPast)
    (hload : a.loadedRanges t = lr) (hc : c.td.tick ≠ t)
    (hx : x ∈ (tagLogs (.next past) (TxCursor.moveTo a) c blk).1) :
    x.RightTag lr ↔
      ((a.loadedTickData t).tick = t → KeepsPace lr (blk.map Visit.log) x.log) := by
  cases hhead : blk.head? with
  | none =>
      rw [List.head?_eq_none_iff.mp hhead] at hx
      cases hx
  | some v =>
      have hplaced : Placed (.next past) lr (lr.place v.id) (blk.map Visit.id) :=
        h.placed_head hlr hpast v hhead
      by_cases htd : (a.loadedTickData t).tick = t
      · obtain ⟨ps, hps, -⟩ := SlotCursor.exists_walk_next hplaced.levelled hplaced.sorted
        obtain ⟨j, w, p, hw, hp, hlog, htx⟩ := tag_of_load hload htd hc h.tick hhead hps hx
        have hwid : (blk.map Visit.id)[j]? = some w.id := by rw [List.getElem?_map, hw]; rfl
        have hwlog : (blk.map Visit.log)[j]? = some x.log := by
          rw [List.getElem?_map, hw, hlog]
          rfl
        have hslot := h.slotAt_place hlr (List.mem_of_getElem? hw)
        rw [← hlog] at hslot
        rw [rightTag_iff hlr hslot htx,
          SlotCursor.walk_next_eq_iff hplaced.levelled hplaced.sorted hps hp hwid]
        constructor
        · rintro ⟨-, hpace⟩ - i j' log' hij hi hj p q hp hq
          obtain rfl := h.index_unique hj hwlog
          obtain ⟨u, hu, rfl⟩ : ∃ u, blk[i]? = some u ∧ u.log = log' := by
            rw [List.getElem?_map] at hi
            exact Option.map_eq_some_iff.mp hi
          have hle := hpace i u.id hij (by rw [List.getElem?_map, hu]; rfl)
          rw [hlr.slotAt_unique hq hslot,
            hlr.slotAt_unique hp (h.slotAt_place hlr (List.mem_of_getElem? hu))]
          exact hle
        · intro hpace
          have hall : ∀ k id, k ≤ j → (blk.map Visit.id)[k]? = some id →
              lr.place w.id ≤ lr.place id + (j - k) := by
            intro k id hkj hid
            rw [List.getElem?_map] at hid
            obtain ⟨u, hu, rfl⟩ := Option.map_eq_some_iff.mp hid
            exact hpace htd k j u.log hkj (by rw [List.getElem?_map, hu]; rfl) hwlog _ _
              (h.slotAt_place hlr (List.mem_of_getElem? hu)) hslot
          refine ⟨?_, hall⟩
          have hfirst := hall 0 v.id (Nat.zero_le j)
            (by rw [List.getElem?_map, ← List.head?_eq_getElem?, hhead]; rfl)
          omega
      · obtain ⟨w, hw, hlog, htx⟩ := tag_of_reloads hload htd hc h.tick hplaced hx
        have hslot := h.slotAt_place hlr hw
        rw [← hlog] at hslot
        exact ⟨fun _ hread => absurd hread htd, fun _ => (rightTag_iff hlr hslot htx).mpr rfl⟩

/-! ## Logs moved for an earlier id -/

/-- Logs of one tick in the order of their ids, with the id `start` says for each. -/
structure BatchBlock (lr : LogRangesPerTxInTick) (t : BitVec 32) (start : Nat → Nat)
    (blk : List Visit) : Prop where
  tick : ∀ v ∈ blk, v.log.getTick = t
  id : ∀ v ∈ blk, v.id = BitVec.ofNat 64 (start v.log.getLogId)
  start_le : ∀ v ∈ blk, start v.log.getLogId ≤ v.log.getLogId
  mono : Monotone start
  slot : ∀ v ∈ blk, ∃ p, lr.SlotAt p v.log.getLogId
  sorted : blk.Pairwise fun v w => v.log.getLogId < w.log.getLogId

section batch

variable {start : Nat → Nat}

theorem BatchBlock.place_le (h : BatchBlock lr t start blk) (hlr : lr.Contiguous) :
    (blk.map Visit.id).Pairwise fun id id' => lr.place id ≤ lr.place id' := by
  rw [List.pairwise_map]
  refine h.sorted.imp_of_mem fun {v w} hv hw hlt => ?_
  obtain ⟨q, hq⟩ := h.slot w hw
  rw [h.id v hv, h.id w hw]
  exact hlr.place_mono hq (h.mono hlt.le) (h.start_le w hw)

theorem BatchBlock.placed_head (h : BatchBlock lr t start blk) (hlr : lr.Contiguous) :
    ∀ v ∈ blk.head?, Placed (.rescan signedPast) lr (lr.place v.id) (blk.map Visit.id) := by
  intro v hv
  refine ⟨fun id hid => ?_, h.place_le hlr⟩
  obtain ⟨w, hw, rfl⟩ := List.mem_map.mp hid
  obtain ⟨q, hq⟩ := h.slot w hw
  obtain ⟨hplace, hpast, -⟩ := hlr.place_of_le hq (h.start_le w hw)
  refine ⟨?_, ?_, fun k s _ hs => ?_⟩
  · rw [h.id w hw]
    exact lt_of_le_of_lt hplace hq.lt_length
  · cases blk with
    | nil => cases hv
    | cons u rest =>
        obtain rfl := Option.some.inj hv
        rcases List.mem_cons.mp hw with rfl | hrest
        · exact le_rfl
        · exact (List.pairwise_cons.mp (h.place_le hlr)).1 _ (List.mem_map_of_mem hrest)
  · rw [h.id w hw]
    exact hpast k s hs

/-- A log has the right tag if the id it is moved for has the same slot. -/
theorem rightTag_iff_sameSlot (h : BatchBlock lr t start blk) (hlr : lr.Contiguous)
    (hload : a.loadedRanges t = lr) (hc : c.td.tick ≠ t)
    (hx : x ∈ (tagLogs (.rescan signedPast) (TxCursor.moveTo a) c blk).1) :
    x.RightTag lr ↔ lr.SameSlot (start x.log.getLogId) x.log.getLogId := by
  have hscan : ∀ v ∈ blk, ∀ k, k < lr.place v.id →
      lr.scanTxId lr.sort (k + 1) v.id = lr.place v.id := by
    intro v hv
    obtain ⟨q, hq⟩ := h.slot v hv
    rw [h.id v hv]
    exact (hlr.place_of_le hq (h.start_le v hv)).2.2
  obtain ⟨v, hv, hlog, htx⟩ := tag_of_rescan hload hc h.tick (h.placed_head hlr) hscan hx
  obtain ⟨q, hq⟩ := h.slot v hv
  rw [rightTag_iff hlr (hlog ▸ hq) htx, h.id v hv, hlog]
  exact hlr.place_eq_iff hq (h.start_le v hv)

end batch

end tags

/-! ## A rule that scans

Without any order of the logs: the cursor only moves forward, so it is right as long as no log since
the tick came up has a later slot.
-/

section scans

variable {a : Archive} {past : BitVec 64 → BitVec 64 → Bool} {c : TxCursor} {v : Visit}
  {vs : List Visit} {x : TaggedLog} {t : BitVec 32} {lr : LogRangesPerTxInTick} {i j logId : Nat}

/-- From `i` to `j` there are only logs of the tick. -/
def Since (t : BitVec 32) (logs : List LogEvent) (i j : Nat) : Prop :=
  ∀ (k : Nat) log, i ≤ k → k ≤ j → logs[k]? = some log → log.getTick = t

theorem since_succ {log : LogEvent} {logs : List LogEvent} :
    Since t (log :: logs) (i + 1) (j + 1) ↔ Since t logs i j := by
  constructor
  · exact fun h k log' hik hkj hlog => h (k + 1) log' (by omega) (by omega) hlog
  · intro h k log' hik hkj hlog
    obtain ⟨k, rfl⟩ : ∃ k', k = k' + 1 := ⟨k - 1, by omega⟩
    exact h k log' (by omega) (by omega) hlog

theorem since_zero {log : LogEvent} {logs : List LogEvent} :
    Since t (log :: logs) 0 (j + 1) ↔ log.getTick = t ∧ Since t logs 0 j := by
  constructor
  · exact fun h => ⟨h 0 log le_rfl (Nat.zero_le _) rfl, since_succ.mp fun k log' hk =>
      h k log' (Nat.zero_le k)⟩
  · rintro ⟨hlog, h⟩ k log' - hkj hlog'
    cases k with
    | zero => exact (Option.some.inj hlog') ▸ hlog
    | succ k => exact h k log' (Nat.zero_le k) (by omega) hlog'

/-- No log since the tick came up is in a later slot. -/
def NotBehind (lr : LogRangesPerTxInTick) (t : BitVec 32) (logs : List LogEvent) (j : Nat) : Prop :=
  ∀ (i : Nat) log log', i ≤ j → Since t logs i j → logs[i]? = some log → logs[j]? = some log' →
    ∀ p q, lr.SlotAt p log.getLogId → lr.SlotAt q log'.getLogId → p ≤ q

/-- The cursor is in the order of the tick, at a slot with ids. -/
structure TxCursor.At (a : Archive) (t : BitVec 32) (lr : LogRangesPerTxInTick) (c : TxCursor) :
    Prop where
  td : c.td = a.loadedTickData t
  ranges : c.lr = lr
  logTxOrder : c.logTxOrder = lr.sort
  slot : ∃ logId, lr.SlotAt c.logTxOrderIndex logId

/-- A log of the tick with its slot. -/
structure Visit.Own (lr : LogRangesPerTxInTick) (v : Visit) : Prop where
  id : v.id = BitVec.ofNat 64 v.log.getLogId
  slot : lr.SlotAt (lr.place v.id) v.log.getLogId

/-- The cursor moves to the slot of the log if that is not behind. -/
theorem take_rescan (hlr : lr.Contiguous) (hpast : past = signedPast ∨ past = unsignedPast)
    (hc : c.At a t lr) (hv : v.Own lr) :
    ∃ s, lr.sort[max c.logTxOrderIndex (lr.place v.id)]? = some s ∧ c.take (.rescan past) v.id =
      .ok ({ c with logTxOrderIndex := max c.logTxOrderIndex (lr.place v.id) }, s) := by
  obtain ⟨td, ranges, order, index⟩ := c
  obtain ⟨-, hranges, horder, logId, hslot⟩ := hc
  change ranges = lr at hranges
  change order = lr.sort at horder
  subst hranges horder
  obtain ⟨s₀, hi⟩ := hslot.exists_slot
  have hown := hv.slot
  have hiff := hlr.past_iff hpast hslot hown le_rfl hi
  rw [← hv.id] at hiff
  show ∃ s, ranges.sort[max index (ranges.place v.id)]? = some s ∧ _
  by_cases hlt : index < ranges.place v.id
  · obtain ⟨s, hs⟩ := hown.exists_slot
    have hscan : ranges.scanTxId ranges.sort (index + 1) v.id = ranges.place v.id := by
      rw [hv.id] at hlt hown ⊢
      exact hlr.scanTxId_eq hown hlt
    have hmax : max index (ranges.place v.id) = ranges.place v.id := Nat.max_eq_right hlt.le
    refine ⟨s, by rw [hmax]; exact hs, ?_⟩
    rw [hmax]
    exact take_of_past hi (hiff.mpr hlt) hscan hs
  · have hmax : max index (ranges.place v.id) = index := Nat.max_eq_left (Nat.le_of_not_lt hlt)
    refine ⟨s₀, by rw [hmax]; exact hi, ?_⟩
    rw [hmax]
    exact take_of_not_past hi (Bool.eq_false_iff.mpr fun h => hlt (hiff.mp h))

theorem at_load (hload : a.loadedRanges t = lr) (hv : v.Own lr) :
    (TxCursor.load a t v.id).At a t lr := by
  rw [load_eq hload]
  exact ⟨rfl, rfl, rfl, v.log.getLogId, hv.slot⟩

theorem TxCursor.At.max (hc : c.At a t lr) (hv : v.Own lr) :
    TxCursor.At a t lr { c with logTxOrderIndex := max c.logTxOrderIndex (lr.place v.id) } where
  td := hc.td
  ranges := hc.ranges
  logTxOrder := hc.logTxOrder
  slot := by
    show ∃ logId, lr.SlotAt (Max.max c.logTxOrderIndex (lr.place v.id)) logId
    rcases max_choice c.logTxOrderIndex (lr.place v.id) with hmax | hmax
    · rw [hmax]
      exact hc.slot
    · rw [hmax]
      exact ⟨_, hv.slot⟩

/-- A log of the tick finds the cursor in the order of the tick, loaded for it or from before. -/
theorem moveTo_at (hload : a.loadedRanges t = lr) (hc : c.td.tick = t → c.At a t lr)
    (ht : v.log.getTick = t) (hv : v.Own lr) : (TxCursor.moveTo a c v).At a t lr ∧
      (TxCursor.moveTo a c v).logTxOrderIndex =
        if c.td.tick = t then c.logTxOrderIndex else lr.place v.id := by
  by_cases htick : c.td.tick = t
  · rw [moveTo_of_eq ht htick, if_pos htick]
    exact ⟨hc htick, rfl⟩
  · rw [moveTo_of_ne ht htick, if_neg htick]
    exact ⟨at_load hload hv, by rw [load_eq hload]⟩

/-- Where each tag is: at the slot of the log, unless the cursor was further already. -/
theorem tag_of_scan (hown : OwnRecord a t) (hlr : lr.Contiguous)
    (hpast : past = signedPast ∨ past = unsignedPast) (hload : a.loadedRanges t = lr)
    (hvs : ∀ v ∈ vs, v.log.getTick = t → v.Own lr) (hc : c.td.tick = t → c.At a t lr)
    (hx : (tagLogs (.rescan past) (TxCursor.moveTo a) c vs).1[j]? = some x)
    (ht : x.log.getTick = t) :
    ∃ v p, vs[j]? = some v ∧ x.log = v.log ∧ lr.sort[p]? = some x.txIndex ∧
      (p = lr.place v.id ↔
        (Since t (vs.map Visit.log) 0 j → c.td.tick = t → c.logTxOrderIndex ≤ lr.place v.id) ∧
        ((a.loadedTickData t).tick = t → ∀ i u, i ≤ j → Since t (vs.map Visit.log) i j →
          vs[i]? = some u → lr.place u.id ≤ lr.place v.id)) := by
  induction vs generalizing c j with
  | nil => cases hx
  | cons w vs ih =>
      obtain ⟨hw, hvs⟩ := List.forall_mem_cons.mp hvs
      by_cases hwt : w.log.getTick = t
      · obtain ⟨hat, hindex⟩ := moveTo_at hload hc hwt (hw hwt)
        obtain ⟨s, hs, htake⟩ := take_rescan hlr hpast hat (hw hwt)
        rw [tagLogs_of_ok rfl htake] at hx
        cases j with
        | zero =>
            obtain rfl := Option.some.inj hx
            refine ⟨w, _, rfl, rfl, hs, ?_⟩
            rw [hindex]
            constructor
            · intro heq
              refine ⟨fun _ htick => ?_, fun _ i u hi _ hu => ?_⟩
              · rw [if_pos htick] at heq
                omega
              · obtain rfl := Nat.le_zero.mp hi
                rw [Option.some.inj hu]
            · rintro ⟨hle, -⟩
              by_cases htick : c.td.tick = t
              · rw [if_pos htick]
                refine Nat.max_eq_right (hle (fun k log _ hk hlog => ?_) htick)
                obtain rfl := Nat.le_zero.mp hk
                rw [← Option.some.inj hlog]
                exact hwt
              · rw [if_neg htick, Nat.max_self]
        | succ j =>
            obtain ⟨v, p, hv, hlog, hp, hiff⟩ := ih hvs (fun _ => hat.max (hw hwt)) hx
            refine ⟨v, p, hv, hlog, hp, hiff.trans ?_⟩
            have htd : (TxCursor.moveTo a c w).td.tick = (a.loadedTickData t).tick := by rw [hat.td]
            have hread : c.td.tick = t → (a.loadedTickData t).tick = t := fun htick => by
              rw [← htd, moveTo_of_eq hwt htick]
              exact htick
            show (Since t (vs.map Visit.log) 0 j → (TxCursor.moveTo a c w).td.tick = t →
              max (TxCursor.moveTo a c w).logTxOrderIndex (lr.place w.id) ≤ lr.place v.id) ∧ _ ↔ _
            rw [htd, hindex, List.map_cons]
            constructor
            · rintro ⟨hstart, hall⟩
              refine ⟨fun hsince htick => ?_, fun hread i u hi hsince hu => ?_⟩
              · have hle := hstart (since_zero.mp hsince).2 (hread htick)
                rw [if_pos htick] at hle
                omega
              · cases i with
                | zero =>
                    obtain rfl := Option.some.inj hu
                    exact (le_max_right _ _).trans (hstart (since_zero.mp hsince).2 hread)
                | succ i =>
                    exact hall hread i u (Nat.le_of_succ_le_succ hi) (since_succ.mp hsince) hu
            · rintro ⟨hstart, hall⟩
              refine ⟨fun hsince hread => ?_, fun hread i u hi hsince hu =>
                hall hread (i + 1) u (Nat.succ_le_succ hi) (since_succ.mpr hsince) hu⟩
              have hfirst := hall hread 0 w (Nat.zero_le _) (since_zero.mpr ⟨hwt, hsince⟩) rfl
              split
              · next htick => exact max_le (hstart (since_zero.mpr ⟨hwt, hsince⟩) htick) hfirst
              · exact max_le hfirst hfirst
      · cases htake : (TxCursor.moveTo a c w).take (.rescan past) w.id with
        | error e =>
            rw [tagLogs_of_error rfl htake] at hx
            cases hx
        | ok r =>
            obtain ⟨c', s⟩ := r
            rw [tagLogs_of_ok rfl htake] at hx
            cases j with
            | zero =>
                obtain rfl := Option.some.inj hx
                exact absurd ht hwt
            | succ j =>
                have hother : c'.td.tick ≠ t := by
                  rw [show c'.td = _ from take_td htake]
                  exact moveTo_td_ne hown hwt
                obtain ⟨v, p, hv, hlog, hp, hiff⟩ := ih hvs (fun h => absurd h hother) hx
                refine ⟨v, p, hv, hlog, hp, hiff.trans ?_⟩
                rw [List.map_cons]
                constructor
                · rintro ⟨-, hall⟩
                  refine ⟨fun hsince => absurd (since_zero.mp hsince).1 hwt,
                    fun hread i u hi hsince hu => ?_⟩
                  cases i with
                  | zero => exact absurd (since_zero.mp hsince).1 hwt
                  | succ i =>
                      exact hall hread i u (Nat.le_of_succ_le_succ hi) (since_succ.mp hsince) hu
                · rintro ⟨-, hall⟩
                  exact ⟨fun _ h => absurd h hother, fun hread i u hi hsince hu =>
                    hall hread (i + 1) u (Nat.succ_le_succ hi) (since_succ.mpr hsince) hu⟩

/-- A rule that scans gives a log the right tag if no log since the tick came up has a later slot,
or if every log loads the cursor. -/
theorem rightTag_iff_notBehind (hown : OwnRecord a t) (hlr : lr.Contiguous)
    (hpast : past = signedPast ∨ past = unsignedPast) (hload : a.loadedRanges t = lr)
    (hvs : ∀ v ∈ vs, v.log.getTick = t → v.Own lr)
    (hx : (tagLogs (.rescan past) (TxCursor.moveTo a) .init vs).1[j]? = some x)
    (ht : x.log.getTick = t) :
    x.RightTag lr ↔ ((a.loadedTickData t).tick = t → NotBehind lr t (vs.map Visit.log) j) := by
  have hinit : TxCursor.init.td.tick ≠ t := fun hzero => hown.ne_zero hzero.symm
  obtain ⟨v, p, hv, hlog, hp, hiff⟩ :=
    tag_of_scan hown hlr hpast hload hvs (fun h => absurd h hinit) hx ht
  have hslot := (hvs v (List.mem_of_getElem? hv) (hlog ▸ ht)).slot
  rw [rightTag_iff hlr (hlog ▸ hslot) hp, hiff]
  constructor
  · rintro ⟨-, hall⟩ hread i log log' hij hsince hi hj q q' hq hq'
    have hticks := hsince i log le_rfl hij hi
    rw [List.getElem?_map] at hi hj
    obtain ⟨u, hu, rfl⟩ := Option.map_eq_some_iff.mp hi
    rw [hv] at hj
    rw [← Option.some.inj hj] at hq'
    rw [hlr.slotAt_unique hq (hvs u (List.mem_of_getElem? hu) hticks).slot,
      hlr.slotAt_unique hq' hslot]
    exact hall hread i u hij hsince hu
  · intro hbehind
    refine ⟨fun _ hzero => absurd hzero hinit, fun hread i u hij hsince hu => ?_⟩
    have hi : (vs.map Visit.log)[i]? = some u.log := by rw [List.getElem?_map, hu]; rfl
    have hj : (vs.map Visit.log)[j]? = some v.log := by rw [List.getElem?_map, hv]; rfl
    exact hbehind hread i u.log v.log hij hsince hi hj _ _
      (hvs u (List.mem_of_getElem? hu) (hsince i u.log le_rfl hij hi)).slot hslot

/-- In the order of their ids no log of the tick is behind. -/
theorem notBehind_of_pairwise (hlr : lr.Contiguous) {logs : List LogEvent}
    (h : logs.Pairwise fun log log' => log.getTick = t → log'.getTick = t →
      log.getLogId < log'.getLogId) : NotBehind lr t logs j := by
  intro i log log' hij hsince hi hj p q hp hq
  rcases Nat.lt_or_eq_of_le hij with hlt | rfl
  · rw [List.pairwise_iff_getElem] at h
    obtain ⟨hil, hlog⟩ := List.getElem?_eq_some_iff.mp hi
    obtain ⟨hjl, hlog'⟩ := List.getElem?_eq_some_iff.mp hj
    have hids := h i j hil hjl hlt (hlog ▸ hsince i log le_rfl hij hi)
      (hlog' ▸ hsince j log' hij le_rfl hj)
    rw [hlog, hlog'] at hids
    exact hlr.slotAt_le hp hq hids.le
  · rw [hi] at hj
    rw [← Option.some.inj hj] at hq
    exact (hlr.slotAt_unique hp hq).le

end scans

end QubicBob
