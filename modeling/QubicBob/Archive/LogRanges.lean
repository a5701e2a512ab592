import QubicBob.Network.DataThread
import QubicBob.Lib.Runs

set_option autoImplicit false

/-! # The two log-range records of a tick

For every tick KeyDB keeps the struct with the log range of each transaction (`log_ranges:<tick>`)
and a summary of it, the first id and the length of all logs (`tick_log_range:<tick>`).
`db_insert_log_range` writes the struct only if there is none, but the summary each time; both writes,
and both deletions of `db_delete_log_ranges`, may fail by themselves.

`RangesAgree` says that the summary is the smallest interval over the ranges of the struct. It holds
along every run in which a tick that has a struct gets no summary of other ranges, and no call fails
between its two commands (`rangesAgree_of_guarded`).
-/

namespace QubicBob

/-! ## Smallest and largest in a loop -/

section folds

variable {α : Type} (f : α → Int)

theorem foldl_min_spec (xs : List α) (m : Int) :
    xs.foldl (fun m x => min m (f x)) m ≤ m ∧
      (∀ x ∈ xs, xs.foldl (fun m x => min m (f x)) m ≤ f x) ∧
      (xs.foldl (fun m x => min m (f x)) m = m ∨
        ∃ x ∈ xs, xs.foldl (fun m x => min m (f x)) m = f x) := by
  induction xs generalizing m with
  | nil => exact ⟨le_refl _, fun x hx => absurd hx List.not_mem_nil, Or.inl rfl⟩
  | cons a xs ih =>
      rw [List.foldl_cons]
      obtain ⟨hle, hall, hone⟩ := ih (min m (f a))
      refine ⟨le_trans hle (min_le_left _ _), ?_, ?_⟩
      · intro x hx
        rcases List.mem_cons.mp hx with rfl | hx
        · exact le_trans hle (min_le_right _ _)
        · exact hall x hx
      · rcases hone with hone | ⟨x, hx, hone⟩
        · rcases min_choice m (f a) with hmin | hmin
          · exact Or.inl (hone.trans hmin)
          · exact Or.inr ⟨a, List.mem_cons_self, hone.trans hmin⟩
        · exact Or.inr ⟨x, List.mem_cons_of_mem _ hx, hone⟩

theorem foldl_max_spec (xs : List α) (m : Int) :
    m ≤ xs.foldl (fun m x => max m (f x)) m ∧
      (∀ x ∈ xs, f x ≤ xs.foldl (fun m x => max m (f x)) m) ∧
      (xs.foldl (fun m x => max m (f x)) m = m ∨
        ∃ x ∈ xs, xs.foldl (fun m x => max m (f x)) m = f x) := by
  induction xs generalizing m with
  | nil => exact ⟨le_refl _, fun x hx => absurd hx List.not_mem_nil, Or.inl rfl⟩
  | cons a xs ih =>
      rw [List.foldl_cons]
      obtain ⟨hle, hall, hone⟩ := ih (max m (f a))
      refine ⟨le_trans (le_max_left _ _) hle, ?_, ?_⟩
      · intro x hx
        rcases List.mem_cons.mp hx with rfl | hx
        · exact le_trans (le_max_right _ _) hle
        · exact hall x hx
      · rcases hone with hone | ⟨x, hx, hone⟩
        · rcases max_choice m (f a) with hmax | hmax
          · exact Or.inl (hone.trans hmax)
          · exact Or.inr ⟨a, List.mem_cons_self, hone.trans hmax⟩
        · exact Or.inr ⟨x, List.mem_cons_of_mem _ hx, hone⟩

end folds

/-! ## The struct -/

theorem leNat_eq_zero_iff (bs : List Byte) : leNat bs = 0 ↔ ∀ b ∈ bs, b = 0 := by
  induction bs with
  | nil => exact ⟨fun _ b hb => absurd hb List.not_mem_nil, fun _ => rfl⟩
  | cons b bs ih =>
      have hb : b.toNat = 0 ↔ b = 0 := BitVec.toNat_inj (y := 0)
      rw [leNat, Nat.add_eq_zero_iff, hb, List.forall_mem_cons, ← ih, Nat.mul_eq_zero]
      simp

/-- The log range of each transaction of a tick and of its five special events. -/
structure LogRangesPerTxInTick where
  fromLogId : Fin LOG_TX_PER_TICK → BitVec 64
  length : Fin LOG_TX_PER_TICK → BitVec 64

/-- All ranges are `-1`. -/
def allUnused : LogRangesPerTxInTick := ⟨fun _ => -1, fun _ => -1⟩

namespace LogRangesPerTxInTick

/-- `memcpy(&logRange, ptr, sizeof(LogRangesPerTxInTick))`. -/
def ofBytes (ptr : List Byte) : LogRangesPerTxInTick where
  fromLogId i := BitVec.ofNat 64 (readLE ptr (8 * i.val) 8)
  length i := BitVec.ofNat 64 (readLE ptr (8 * LOG_TX_PER_TICK + 8 * i.val) 8)

/-- `isArrayZero` on the struct. -/
def isZero (lr : LogRangesPerTxInTick) : Bool :=
  (List.finRange LOG_TX_PER_TICK).all (fun i => lr.fromLogId i == 0 && lr.length i == 0)

/-- The ranges with neither number `-1`, as first id and length. -/
def used (lr : LogRangesPerTxInTick) : List (Int × Int) :=
  (List.finRange LOG_TX_PER_TICK).filterMap (fun i =>
    if (lr.fromLogId i).toInt = -1 ∨ (lr.length i).toInt = -1 then none
    else some ((lr.fromLogId i).toInt, (lr.length i).toInt))

/-- The struct is stored: it is not all-zero, and no used range has a negative number. -/
def accepted (lr : LogRangesPerTxInTick) : Bool :=
  !lr.isZero && !lr.used.any (fun r => r.1 < -1 || r.2 < -1)

/-- The summary `db_insert_log_range` computes. -/
def summary (lr : LogRangesPerTxInTick) : Int × Int :=
  let minId := lr.used.foldl (fun m r => min m r.1) (2 ^ 63 - 1)
  let maxId := lr.used.foldl (fun m r => max m (wrapLongLong (r.1 + r.2))) (-1)
  if minId = 2 ^ 63 - 1 then (-1, -1) else (minId, maxId - minId)

/-- The interval `[s.1, s.1 + s.2)` is the smallest one over the used ranges; `(-1, -1)` if there is
none. -/
def SmallestCover (lr : LogRangesPerTxInTick) (s : Int × Int) : Prop :=
  (lr.used = [] → s = (-1, -1)) ∧
  (lr.used ≠ [] →
    (∀ r ∈ lr.used, s.1 ≤ r.1 ∧ r.1 + r.2 ≤ s.1 + s.2) ∧
    (∃ r ∈ lr.used, r.1 = s.1) ∧ ∃ r ∈ lr.used, r.1 + r.2 = s.1 + s.2)

/-- No used range begins or ends past the largest `long long`. -/
def Fits (lr : LogRangesPerTxInTick) : Prop :=
  ∀ r ∈ lr.used, r.1 < 2 ^ 63 - 1 ∧ r.1 + r.2 ≤ 2 ^ 63 - 1

theorem wrapLongLong_of_lt {x : Int} (h₀ : 0 ≤ x) (h : x ≤ 2 ^ 63 - 1) : wrapLongLong x = x := by
  rw [wrapLongLong, BitVec.toInt_ofInt, Int.bmod_eq_of_le (by norm_num; omega) (by norm_num; omega)]

theorem nonneg_of_accepted {lr : LogRangesPerTxInTick} (h : lr.accepted = true) :
    ∀ r ∈ lr.used, 0 ≤ r.1 ∧ 0 ≤ r.2 := by
  rw [accepted, Bool.and_eq_true, Bool.not_eq_true', Bool.not_eq_true', List.any_eq_false] at h
  intro r hr
  have hneg := h.2 r hr
  simp only [Bool.or_eq_true, decide_eq_true_eq, not_or, not_lt] at hneg
  have hused : r.1 ≠ -1 ∧ r.2 ≠ -1 := by
    obtain ⟨i, -, hi⟩ := List.mem_filterMap.mp hr
    by_cases hskip : (lr.fromLogId i).toInt = -1 ∨ (lr.length i).toInt = -1
    · rw [if_pos hskip] at hi
      cases hi
    · rw [if_neg hskip] at hi
      rw [← Option.some.inj hi]
      exact not_or.mp hskip
  omega

/-- The summary of a struct that is stored and fits. -/
theorem smallestCover_summary {lr : LogRangesPerTxInTick} (h : lr.accepted = true)
    (hfits : lr.Fits) : lr.SmallestCover lr.summary := by
  have hnonneg := nonneg_of_accepted h
  obtain ⟨-, hminAll, hmin⟩ := foldl_min_spec (fun r : Int × Int => r.1) lr.used (2 ^ 63 - 1)
  obtain ⟨-, hmaxAll, hmax⟩ :=
    foldl_max_spec (fun r : Int × Int => wrapLongLong (r.1 + r.2)) lr.used (-1)
  have hwrap : ∀ r ∈ lr.used, wrapLongLong (r.1 + r.2) = r.1 + r.2 := by
    intro r hr
    obtain ⟨h₁, h₂⟩ := hnonneg r hr
    exact wrapLongLong_of_lt (by omega) (hfits r hr).2
  refine ⟨fun hnil => ?_, fun hne => ?_⟩
  · rw [summary, hnil]
    rfl
  obtain ⟨r₀, hr₀⟩ := List.exists_mem_of_ne_nil _ hne
  -- some range is used, so neither loop ends with its initial value
  have hminLt := hminAll r₀ hr₀
  have hmaxGt := hmaxAll r₀ hr₀
  have hr₀fits := (hfits r₀ hr₀).1
  have hr₀nonneg := hnonneg r₀ hr₀
  rw [hwrap r₀ hr₀] at hmaxGt
  unfold summary
  dsimp only at hminAll hmin hminLt hmaxAll hmax hmaxGt ⊢
  rw [if_neg (by omega)]
  dsimp only
  refine ⟨fun r hr => ⟨hminAll r hr, ?_⟩, ?_, ?_⟩
  · have hle := hmaxAll r hr
    rw [hwrap r hr] at hle
    omega
  · rcases hmin with hmin | ⟨r, hr, hmin⟩
    · omega
    · exact ⟨r, hr, hmin.symm⟩
  · rcases hmax with hmax | ⟨r, hr, hmax⟩
    · omega
    · rw [hwrap r hr] at hmax
      exact ⟨r, hr, by omega⟩

/-! ### As bytes -/

theorem used_ofBytes (b : List Byte) : (ofBytes b).used = DataStore.usedRanges b := by
  rw [used, DataStore.usedRanges, ← List.map_coe_finRange_eq_range, List.filterMap_map]
  rfl

/-- A number of the struct is zero. -/
theorem ofNat_readLE_eq_zero {b : List Byte} {offset : Nat} :
    BitVec.ofNat 64 (readLE b offset 8) = 0 ↔ ∀ x ∈ (b.drop offset).take 8, x = 0 := by
  have hlt : readLE b offset 8 < 2 ^ 64 := by
    refine lt_of_lt_of_le (leNat_lt _) ?_
    exact Nat.pow_le_pow_right (n := 256) (by decide) (List.length_take_le 8 _)
  rw [← leNat_eq_zero_iff, ← BitVec.toNat_inj, BitVec.toNat_ofNat, Nat.mod_eq_of_lt hlt]
  rfl

theorem forall_take_drop {b : List Byte} {offset : Nat} :
    (∀ x ∈ (b.drop offset).take 8, x = 0) ↔
      ∀ k, offset ≤ k → k < offset + 8 → ∀ x, b[k]? = some x → x = 0 := by
  constructor
  · intro h k hk hk' x hx
    refine h x (List.mem_iff_getElem?.mpr ⟨k - offset, ?_⟩)
    rw [List.getElem?_take_of_lt (by omega), List.getElem?_drop, Nat.add_sub_cancel' hk, hx]
  · intro h x hx
    obtain ⟨k, hk⟩ := List.mem_iff_getElem?.mp hx
    have hlt : k < 8 := by
      by_contra hge
      rw [List.getElem?_take_eq_none (by omega)] at hk
      cases hk
    rw [List.getElem?_take_of_lt hlt, List.getElem?_drop] at hk
    exact h (offset + k) (by omega) (by omega) x hk

theorem isZero_ofBytes {b : List Byte} (h : b.length = 16 * LOG_TX_PER_TICK) :
    (ofBytes b).isZero = b.all (fun x => x = 0) := by
  have hiff : (ofBytes b).isZero = true ↔ b.all (fun x => x = 0) = true := by
    rw [isZero, List.all_eq_true, List.all_eq_true]
    simp only [List.mem_finRange, true_implies, Bool.and_eq_true, beq_iff_eq, decide_eq_true_eq,
      ofBytes, ofNat_readLE_eq_zero, forall_take_drop]
    constructor
    · intro hz x hx
      obtain ⟨k, hk⟩ := List.mem_iff_getElem?.mp hx
      have hlen : k < b.length := (List.getElem?_eq_some_iff.mp hk).1
      by_cases hfirst : k < 8 * LOG_TX_PER_TICK
      · exact (hz ⟨k / 8, by omega⟩).1 k (by dsimp only; omega) (by dsimp only; omega) x hk
      · exact (hz ⟨(k - 8 * LOG_TX_PER_TICK) / 8, by omega⟩).2 k (by dsimp only; omega)
          (by dsimp only; omega) x hk
    · intro hz i
      exact ⟨fun k _ _ x hx => hz x (List.mem_of_getElem? hx),
        fun k _ _ x hx => hz x (List.mem_of_getElem? hx)⟩
  exact Bool.eq_iff_iff.mpr hiff

end LogRangesPerTxInTick

/-! ## The records -/

/-- `log_ranges:<tick>` and `tick_log_range:<tick>`. -/
structure LogRangeRecords where
  logRanges : Nat → Option LogRangesPerTxInTick
  tickLogRange : Nat → Option (Int × Int)

namespace LogRangeRecords

/-- The two commands of an insert in turn; the first that fails ends the call. What `SET … NX` finds
stays. -/
def dbInsertLogRange (r : LogRangeRecords) (tick : Nat) (logRange : LogRangesPerTxInTick)
    (set hmset : Bool) : Bool × LogRangeRecords :=
  if logRange.isZero then (false, r)
  else if logRange.used.any (fun r => r.1 < -1 || r.2 < -1) then (false, r)
  else if set = false then (false, r)
  else
    let r := { r with
      logRanges := Function.update r.logRanges tick (setNX (r.logRanges tick) logRange) }
    if hmset = false then (false, r)
    else (true,
      { r with tickLogRange := Function.update r.tickLogRange tick (some logRange.summary) })

def dbDeleteLogRanges (r : LogRangeRecords) (tick : Nat) (unlinkStruct unlinkSummary : Bool) :
    Bool × LogRangeRecords :=
  if unlinkStruct = false then (false, r)
  else
    let r := { r with logRanges := Function.update r.logRanges tick none }
    if unlinkSummary = false then (false, r)
    else (true, { r with tickLogRange := Function.update r.tickLogRange tick none })

/-- A call, with the outcome of each of its commands. -/
inductive Call where
  | insert (tick : Nat) (logRange : LogRangesPerTxInTick) (set hmset : Bool)
  | delete (tick : Nat) (unlinkStruct unlinkSummary : Bool)

def call (r : LogRangeRecords) : Call → Bool × LogRangeRecords
  | .insert tick logRange set hmset => r.dbInsertLogRange tick logRange set hmset
  | .delete tick unlinkStruct unlinkSummary => r.dbDeleteLogRanges tick unlinkStruct unlinkSummary

def step (r : LogRangeRecords) (c : Call) : LogRangeRecords := (r.call c).2

/-- Where both records exist, one is the summary of the other. -/
def RangesAgree (r : LogRangeRecords) : Prop :=
  ∀ tick lr s, r.logRanges tick = some lr → r.tickLogRange tick = some s → lr.SmallestCover s

/-- The two structs have the same smallest interval. -/
def SameCover (lr lr' : LogRangesPerTxInTick) : Prop :=
  ∀ s, lr.SmallestCover s ↔ lr'.SmallestCover s

/-- The condition on a call: a struct that passes the checks fits, and covers the same interval as
the one that is already there; and the second command does not fail after the first has changed
something. -/
def Kept (r : LogRangeRecords) : Call → Prop
  | .insert tick logRange set hmset => logRange.accepted = true → set = true →
      (hmset = true → logRange.Fits ∧
        ∀ stored, r.logRanges tick = some stored → SameCover stored logRange) ∧
      (hmset = false → r.logRanges tick ≠ none)
  | .delete tick unlinkStruct unlinkSummary =>
      unlinkStruct = true → unlinkSummary = false → r.logRanges tick = none

section calls

variable {r : LogRangeRecords} {tick : Nat} {lr : LogRangesPerTxInTick}

/-- What an insert does, by its checks and the outcomes of its commands. -/
theorem dbInsertLogRange_cases (r : LogRangeRecords) (tick : Nat) (lr : LogRangesPerTxInTick)
    (set hmset : Bool) :
    (r.dbInsertLogRange tick lr set hmset = (false, r) ∧ (lr.accepted = false ∨ set = false)) ∨
    (lr.accepted = true ∧ set = true ∧ hmset = false ∧
      r.dbInsertLogRange tick lr set hmset = (false, { r with
        logRanges := Function.update r.logRanges tick (setNX (r.logRanges tick) lr) })) ∨
    (lr.accepted = true ∧ set = true ∧ hmset = true ∧
      r.dbInsertLogRange tick lr set hmset = (true,
        { logRanges := Function.update r.logRanges tick (setNX (r.logRanges tick) lr)
          tickLogRange := Function.update r.tickLogRange tick (some lr.summary) })) := by
  unfold dbInsertLogRange LogRangesPerTxInTick.accepted
  cases lr.isZero with
  | true => exact Or.inl ⟨rfl, Or.inl rfl⟩
  | false =>
      cases lr.used.any (fun r => r.1 < -1 || r.2 < -1) with
      | true => exact Or.inl ⟨rfl, Or.inl rfl⟩
      | false =>
          cases set with
          | false => exact Or.inl ⟨rfl, Or.inr rfl⟩
          | true =>
              cases hmset with
              | false => exact Or.inr (Or.inl ⟨rfl, rfl, rfl, rfl⟩)
              | true => exact Or.inr (Or.inr ⟨rfl, rfl, rfl, rfl⟩)

theorem step_insert (h : lr.accepted = true) : r.step (.insert tick lr true true) =
    { logRanges := Function.update r.logRanges tick (setNX (r.logRanges tick) lr)
      tickLogRange := Function.update r.tickLogRange tick (some lr.summary) } := by
  rcases dbInsertLogRange_cases r tick lr true true with
    ⟨-, hrefused⟩ | ⟨-, -, hfalse, -⟩ | ⟨-, -, -, heq⟩
  · rw [h] at hrefused
    rcases hrefused with hrefused | hrefused
    · cases hrefused
    · cases hrefused
  · cases hfalse
  · exact congrArg Prod.snd heq

theorem step_refused {set hmset : Bool} (h : lr.accepted = false) :
    r.step (.insert tick lr set hmset) = r := by
  rcases dbInsertLogRange_cases r tick lr set hmset with ⟨heq, -⟩ | ⟨hacc, -⟩ | ⟨hacc, -⟩
  · exact congrArg Prod.snd heq
  · rw [h] at hacc
    cases hacc
  · rw [h] at hacc
    cases hacc

/-- `SET … NX` on a key that has a value. -/
theorem update_setNX_of_some {stored : LogRangesPerTxInTick}
    (h : r.logRanges tick = some stored) :
    Function.update r.logRanges tick (setNX (r.logRanges tick) lr) = r.logRanges := by
  rw [h]
  exact (Function.update_eq_self_iff).mpr h.symm

theorem rangesAgree_insert {set hmset : Bool} (h : r.RangesAgree)
    (hkept : r.Kept (.insert tick lr set hmset)) :
    (r.dbInsertLogRange tick lr set hmset).2.RangesAgree ∧
      ((r.dbInsertLogRange tick lr set hmset).1 = false →
        (r.dbInsertLogRange tick lr set hmset).2 = r) := by
  rcases dbInsertLogRange_cases r tick lr set hmset with
    ⟨heq, -⟩ | ⟨haccepted, hset, hhmset, heq⟩ | ⟨haccepted, hset, hhmset, heq⟩
  · rw [heq]
    exact ⟨h, fun _ => rfl⟩
  · -- the struct was there before, so the write has changed nothing
    obtain ⟨stored, hstored⟩ := Option.ne_none_iff_exists'.mp ((hkept haccepted hset).2 hhmset)
    rw [heq, update_setNX_of_some hstored]
    exact ⟨h, fun _ => rfl⟩
  · obtain ⟨hfits, hsame⟩ := (hkept haccepted hset).1 hhmset
    have hsummary := LogRangesPerTxInTick.smallestCover_summary haccepted hfits
    rw [heq]
    refine ⟨fun t lr' s hlr hs => ?_, fun hfalse => absurd hfalse (by simp)⟩
    dsimp only at hlr hs
    by_cases ht : t = tick
    · rw [ht, Function.update_self] at hlr hs
      rw [← Option.some.inj hs]
      cases hstored : r.logRanges tick with
      | none =>
          rw [hstored] at hlr
          rw [← Option.some.inj hlr]
          exact hsummary
      | some stored =>
          rw [hstored] at hlr
          rw [← Option.some.inj hlr]
          exact (hsame stored hstored lr.summary).mpr hsummary
    · rw [Function.update_of_ne ht] at hlr hs
      exact h t lr' s hlr hs

theorem rangesAgree_delete {unlinkStruct unlinkSummary : Bool} (h : r.RangesAgree)
    (hkept : r.Kept (.delete tick unlinkStruct unlinkSummary)) :
    (r.dbDeleteLogRanges tick unlinkStruct unlinkSummary).2.RangesAgree ∧
      ((r.dbDeleteLogRanges tick unlinkStruct unlinkSummary).1 = false →
        (r.dbDeleteLogRanges tick unlinkStruct unlinkSummary).2 = r) := by
  cases unlinkStruct with
  | false => exact ⟨h, fun _ => rfl⟩
  | true =>
      cases unlinkSummary with
      | false =>
          have hsame : Function.update r.logRanges tick none = r.logRanges :=
            Function.update_eq_self_iff.mpr (hkept rfl rfl).symm
          have heq : r.dbDeleteLogRanges tick true false = (false, r) := by
            unfold dbDeleteLogRanges
            rw [if_neg (by decide), if_pos rfl, hsame]
          rw [heq]
          exact ⟨h, fun _ => rfl⟩
      | true =>
          refine ⟨fun t lr' s hlr hs => ?_, fun hfalse => absurd (show true = false from hfalse) (by simp)⟩
          change Function.update r.logRanges tick none t = some lr' at hlr
          change Function.update r.tickLogRange tick none t = some s at hs
          by_cases ht : t = tick
          · rw [ht, Function.update_self] at hlr
            cases hlr
          · rw [Function.update_of_ne ht] at hlr hs
            exact h t lr' s hlr hs

theorem rangesAgree_call {c : Call} (h : r.RangesAgree) (hkept : r.Kept c) :
    (r.step c).RangesAgree ∧ ((r.call c).1 = false → (r.call c).2 = r) := by
  cases c with
  | insert tick lr set hmset => exact rangesAgree_insert h hkept
  | delete tick unlinkStruct unlinkSummary => exact rangesAgree_delete h hkept

end calls

/-- Along every sequence of inserts and deletions whose calls meet the condition, the two records
agree after every call, and a call that returns false has changed nothing. -/
theorem rangesAgree_of_guarded (r : LogRangeRecords) (hr : r.RangesAgree) (calls : List Call)
    (hkept : Runs.Guarded step Kept r calls) :
    ∀ before after, calls = before ++ after →
      (Runs.run step r before).RangesAgree ∧
      ∀ c, after.head? = some c → ((Runs.run step r before).call c).1 = false →
        ((Runs.run step r before).call c).2 = Runs.run step r before := by
  intro before after hsplit
  have hstep : ∀ r c, RangesAgree r → Kept r c → RangesAgree (step r c) :=
    fun _ _ h hk => (rangesAgree_call h hk).1
  rw [hsplit] at hkept
  have hagree : RangesAgree (Runs.run step r before) :=
    Runs.run_invariant hstep hr hkept.of_append
  refine ⟨hagree, fun c hc => ?_⟩
  obtain ⟨rest, rfl⟩ : ∃ rest, after = c :: rest := by
    cases after with
    | nil => cases hc
    | cons c' rest => exact ⟨rest, by rw [Option.some.inj hc]⟩
  exact (rangesAgree_call hagree hkept.at).2

end LogRangeRecords

/-- The two records as the data thread's store has them. -/
def DataStore.logRangeRecords (db : DataStore) : LogRangeRecords where
  logRanges tick := (db.logRanges tick).map LogRangesPerTxInTick.ofBytes
  tickLogRange := db.tickLogRange

/-- What `processLogRanges` stores is an insert whose commands succeed. -/
theorem DataStore.logRangeRecords_dbInsertLogRange (db : DataStore) (tick : Nat) {b : List Byte}
    (h : b.length = 16 * LOG_TX_PER_TICK) :
    (db.dbInsertLogRange tick b).logRangeRecords =
      db.logRangeRecords.step (.insert tick (LogRangesPerTxInTick.ofBytes b) true true) := by
  unfold LogRangeRecords.step LogRangeRecords.call LogRangeRecords.dbInsertLogRange
    DataStore.dbInsertLogRange
  dsimp only
  rw [LogRangesPerTxInTick.isZero_ofBytes h, LogRangesPerTxInTick.used_ofBytes]
  cases b.all (fun x => x = 0) with
  | true => rfl
  | false =>
      cases (usedRanges b).any (fun r => r.1 < -1 || r.2 < -1) with
      | true => rfl
      | false =>
          unfold logRangeRecords LogRangesPerTxInTick.summary
          rw [LogRangesPerTxInTick.used_ofBytes]
          refine LogRangeRecords.mk.injEq _ _ _ _ |>.mpr ⟨?_, rfl⟩
          funext t
          by_cases ht : t = tick
          · subst ht
            simp only [Bool.false_eq_true, if_false, Function.update_self]
            cases db.logRanges t with
            | none => rfl
            | some stored => rfl
          · simp [Function.update_of_ne ht]

/-- A struct with one range, for the first transaction. -/
def oneRange (fromLogId length : BitVec 64) : LogRangesPerTxInTick where
  fromLogId i := if i.val = 0 then fromLogId else -1
  length i := if i.val = 0 then length else -1

/-- Two records that are not there agree. -/
def noRecords : LogRangeRecords := ⟨fun _ => none, fun _ => none⟩

theorem rangesAgree_noRecords : noRecords.RangesAgree := by
  intro t lr s hlr _
  cases hlr

theorem used_oneRange_ten : (oneRange 10 5).used = [(10, 5)] := by decide +kernel

theorem accepted_oneRange_ten : (oneRange 10 5).accepted = true := by decide +kernel

open LogRangeRecords in
/-- The struct of the first insert stays. -/
theorem logRanges_after_first (lr : LogRangesPerTxInTick) (h : lr.accepted = true) :
    (Runs.run step noRecords [.insert 7 (oneRange 10 5) true true]).logRanges 7 =
        some (oneRange 10 5) ∧
      (Runs.run step noRecords [.insert 7 (oneRange 10 5) true true,
        .insert 7 lr true true]).logRanges 7 = some (oneRange 10 5) ∧
      (Runs.run step noRecords [.insert 7 (oneRange 10 5) true true,
        .insert 7 lr true true]).tickLogRange 7 = some lr.summary := by
  rw [Runs.run_cons, Runs.run_cons, Runs.run_cons, Runs.run_nil, Runs.run_nil, step_insert h,
    step_insert accepted_oneRange_ten]
  simp [noRecords, setNX]

open LogRangeRecords in
/-- The same struct from two nodes. -/
theorem rangesAgree_of_guarded_at_repeated_insert :
    (Runs.run step noRecords [.insert 7 (oneRange 10 5) true true,
      .insert 7 (oneRange 10 5) true true]).tickLogRange 7 = some (10, 5) ∧
    (Runs.run step noRecords [.insert 7 (oneRange 10 5) true true,
      .insert 7 (oneRange 10 5) true true]).RangesAgree := by
  have hfits : (oneRange 10 5).Fits := by
    intro r hr
    rw [used_oneRange_ten, List.mem_singleton] at hr
    rw [hr]
    decide
  have hkept : Runs.Guarded step Kept noRecords [.insert 7 (oneRange 10 5) true true,
      .insert 7 (oneRange 10 5) true true] := by
    refine ⟨fun _ _ => ⟨fun _ => ⟨hfits, ?_⟩, fun h => by cases h⟩,
      fun _ _ => ⟨fun _ => ⟨hfits, ?_⟩, fun h => by cases h⟩, trivial⟩
    · intro stored hstored
      cases hstored
    · intro stored hstored
      have hfirst := (logRanges_after_first _ accepted_oneRange_ten).1
      rw [Runs.run_cons, Runs.run_nil, hstored] at hfirst
      rw [Option.some.inj hfirst]
      exact fun _ => Iff.rfl
  refine ⟨?_, ?_⟩
  · rw [(logRanges_after_first _ accepted_oneRange_ten).2.2]
    decide +kernel
  · exact (rangesAgree_of_guarded noRecords rangesAgree_noRecords _ hkept _ []
      (List.append_nil _).symm).1

open LogRangeRecords in
/-- Two nodes answer for tick 7 with different ranges: the struct is the first answer, the summary
belongs to the second. -/
theorem rangesAgree_fails_on_second_answer :
    let r := Runs.run step noRecords [.insert 7 (oneRange 10 5) true true,
      .insert 7 (oneRange 20 3) true true]
    r.tickLogRange 7 = some (20, 3) ∧ (r.logRanges 7).map LogRangesPerTxInTick.used =
      some [(10, 5)] ∧ ¬ r.RangesAgree := by
  have hlast : (oneRange 20 3).summary = (20, 3) := by decide +kernel
  obtain ⟨-, hstruct, hsummary⟩ := logRanges_after_first (oneRange 20 3) (by decide +kernel)
  rw [hlast] at hsummary
  generalize Runs.run step noRecords [.insert 7 (oneRange 10 5) true true,
    .insert 7 (oneRange 20 3) true true] = r at hstruct hsummary ⊢
  refine ⟨hsummary, ?_, fun h => ?_⟩
  · rw [hstruct, Option.map_some, used_oneRange_ten]
  · have hcover := (h 7 _ _ hstruct hsummary).2
    rw [used_oneRange_ten] at hcover
    have hfirst := ((hcover (by simp)).1 (10, 5) List.mem_cons_self).1
    exact absurd hfirst (by decide)

end QubicBob
