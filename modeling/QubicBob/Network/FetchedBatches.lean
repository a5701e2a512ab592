import QubicBob.Network.LogSync

set_option autoImplicit false

/-! # The batches the verifier takes

`verifyLoggingEvent` takes a batch of ticks that the fetcher has left, reads its logs, and goes into
rescue mode when their number is not the width of the combined range.

For complete ticks the combined range is the hull of the summaries, and the logs read are those of
the ticks, one tick after the other. The two numbers agree for two reasons, one on each side. Where
the ids of later ticks are larger no id is counted for two ticks; and where the other nodes have all
ids in order, each id of the hull lies behind the first id of one tick and before the end of
another, so it belongs to a tick between them. Kvrocks is asked only for what KeyDB does not have,
and of a complete tick KeyDB has everything.
-/

namespace QubicBob

/-- The log stores as the verifier reads them. -/
def DataStore.logStore (db : DataStore) : LogStore where
  tickLogRange tick := (db.tickLogRange tick).bind fun r =>
    if h : (r.1 = -1 ∧ r.2 = -1) ∨ (0 ≤ r.1 ∧ 0 ≤ r.2 ∧ r.1 + r.2 < LLONG_MAX) then
      some ⟨r.1, r.2, h⟩
    else none
  log := db.logs

section history

variable {K : KangarooTwelve} (H : LogHistory K)

/-- The logs of a tick, in the order of their ids. -/
def LogHistory.logsOfTick (tick : Nat) : List LogEvent :=
  match H.summary tick with
  | none => []
  | some r => (List.range' r.1.toNat r.2.toNat).filterMap H.log

/-- An id between those of two ticks belongs to a tick between. -/
def LogHistory.Gapless : Prop :=
  ∀ {t t' r r'} {id : Nat}, t ≤ t' → H.summary t = some r → H.summary t' = some r' → r.1 ≠ -1 →
    r'.1 ≠ -1 → r.1 ≤ id → id < r'.1 + r'.2 →
      ∃ t'' r'', t ≤ t'' ∧ t'' ≤ t' ∧ H.summary t'' = some r'' ∧ r''.1 ≠ -1 ∧ r''.1 ≤ id ∧
        id < r''.1 + r''.2

/-- A log in the range of a tick is of this tick. -/
def LogHistory.InTick : Prop :=
  ∀ {t r le} {id : Nat}, H.summary t = some r → r.1 ≤ id → id < r.1 + r.2 → H.log id = some le →
    le.getTick.toNat = t

end history

section hull

variable {db : LogDB}

/-- The range of the tick is known, and it is not empty for lack of logs. -/
def HasRange (db : LogDB) (tick : Nat) (r : TickLogRange) : Prop :=
  dbTryGetLogRangeForTick db tick = some r ∧ r.fromLogId ≠ -1 ∧ r.length ≠ -1

/-- Both ends of the hull are ends of ranges. -/
theorem foldl_widen_ends (ticks : List Nat) (hull : Int × Int) :
    ((ticks.foldl (widen db) hull).1 = hull.1 ∨ ∃ t ∈ ticks, ∃ r, HasRange db t r ∧
        (ticks.foldl (widen db) hull).1 = r.fromLogId) ∧
      ((ticks.foldl (widen db) hull).2 = hull.2 ∨ ∃ t ∈ ticks, ∃ r, HasRange db t r ∧
        (ticks.foldl (widen db) hull).2 = r.fromLogId + r.length) := by
  induction ticks generalizing hull with
  | nil => exact ⟨.inl rfl, .inl rfl⟩
  | cons tick ticks ih =>
      -- one round takes each end over or moves it to the range of the tick
      have hround : ((widen db hull tick).1 = hull.1 ∨ ∃ r, HasRange db tick r ∧
            (widen db hull tick).1 = r.fromLogId) ∧
          ((widen db hull tick).2 = hull.2 ∨ ∃ r, HasRange db tick r ∧
            (widen db hull tick).2 = r.fromLogId + r.length) := by
        unfold widen
        split
        · exact ⟨.inl rfl, .inl rfl⟩
        · next r hr =>
          split
          · next hne =>
            exact ⟨(min_choice hull.1 r.fromLogId).imp id fun h => ⟨r, ⟨hr, hne⟩, h⟩,
              (max_choice hull.2 (r.fromLogId + r.length)).imp id fun h => ⟨r, ⟨hr, hne⟩, h⟩⟩
          · exact ⟨.inl rfl, .inl rfl⟩
      obtain ⟨hfirst, hlast⟩ := ih (widen db hull tick)
      refine ⟨?_, ?_⟩
      · rcases hfirst with hsame | ⟨t, ht, r, hr, heq⟩
        · rcases hround.1 with hold | ⟨r, hr, heq⟩
          · exact .inl (hsame.trans hold)
          · exact .inr ⟨tick, List.mem_cons_self, r, hr, hsame.trans heq⟩
        · exact .inr ⟨t, List.mem_cons_of_mem _ ht, r, hr, heq⟩
      · rcases hlast with hsame | ⟨t, ht, r, hr, heq⟩
        · rcases hround.2 with hold | ⟨r, hr, heq⟩
          · exact .inl (hsame.trans hold)
          · exact .inr ⟨tick, List.mem_cons_self, r, hr, hsame.trans heq⟩
        · exact .inr ⟨t, List.mem_cons_of_mem _ ht, r, hr, heq⟩

/-- An id of the hull is behind the first id of one range and before the end of another. -/
theorem ends_of_mem_hullIds {startTick endTick id : Nat} (h : id ∈ hullIds db startTick endTick) :
    (∃ t ∈ ticksFromTo startTick endTick, ∃ r, HasRange db t r ∧ r.fromLogId ≤ id) ∧
      ∃ t ∈ ticksFromTo startTick endTick, ∃ r, HasRange db t r ∧ id < r.fromLogId + r.length := by
  have hends := @foldl_widen_ends db (ticksFromTo startTick endTick) (LLONG_MAX, -1)
  rw [mem_hullIds] at h
  unfold dbGetCombinedLogRangeForTicks at h
  dsimp only at h hends
  split at h
  · dsimp only at h
    omega
  · next hne =>
    rw [not_or] at hne
    dsimp only at h
    obtain ⟨t, ht, r, hr, hfirst⟩ := hends.1.resolve_left hne.1
    obtain ⟨t', ht', r', hr', hlast⟩ := hends.2.resolve_left hne.2
    exact ⟨⟨t, ht, r, hr, by omega⟩, t', ht', r', hr', by omega⟩

end hull

section batches

variable {K : KangarooTwelve} {H : LogHistory K} {db : DataStore} {kv : LogStore}

/-- The range of the tick is read as its summary. -/
def LogHistory.ReadsRange (H : LogHistory K) (D : LogDB) (tick : Nat) : Prop :=
  ∃ r, H.summary tick = some r ∧ ∃ r' : TickLogRange,
    dbTryGetLogRangeForTick D tick = some r' ∧ r'.fromLogId = r.1 ∧ r'.length = r.2

/-- A summary in KeyDB is read. -/
theorem LogHistory.readsRange_of_summary {tick : Nat} {r : Int × Int}
    (hr : db.tickLogRange tick = some r) (hsummary : H.summary tick = some r) :
    H.ReadsRange ⟨db.logStore, kv⟩ tick := by
  have hwf : (r.1 = -1 ∧ r.2 = -1) ∨ (0 ≤ r.1 ∧ 0 ≤ r.2 ∧ r.1 + r.2 < LLONG_MAX) := by
    rcases H.summary_wf hsummary with rfl | hwf
    · exact .inl ⟨rfl, rfl⟩
    · exact .inr hwf
  refine ⟨r, hsummary, ⟨r.1, r.2, hwf⟩, ?_, rfl, rfl⟩
  rw [dbTryGetLogRangeForTick, DataStore.logStore]
  simp only [hr, Option.bind_some, dif_pos hwf]

/-- The range of a complete tick is its summary. -/
theorem LogHistory.Complete.readsRange {tick : Nat} (hholds : H.Holds db)
    (h : H.Complete db tick) : H.ReadsRange ⟨db.logStore, kv⟩ tick := by
  obtain ⟨r, hr⟩ := Option.isSome_iff_exists.mp (hholds.both h.ranges)
  exact readsRange_of_summary hr (hholds.summary hr)

/-- The ids of a tick whose range is its summary. -/
theorem LogHistory.tickIds_eq {D : LogDB} {tick : Nat} {r : Int × Int} (h : H.ReadsRange D tick)
    (hr : H.summary tick = some r) : tickIds D tick = List.range' r.1.toNat r.2.toNat := by
  obtain ⟨r₀, hr₀, r', hread, hfrom, hlen⟩ := h
  obtain rfl := Option.some.inj (hr₀.symm.trans hr)
  rw [tickIds, hread]
  dsimp only
  rw [TickLogRange.ids, hfrom, hlen]

/-- A log of a complete tick is read as the other nodes have it. -/
theorem LogHistory.Complete.log {tick : Nat} {r : Int × Int} (hholds : H.Holds db)
    (h : H.Complete db tick) (hr : H.summary tick = some r) {id : Nat} (hle : r.1 ≤ id)
    (hlt : id < r.1 + r.2) :
    ∃ le, H.log id = some le ∧ dbTryGetLog ⟨db.logStore, kv⟩ H.epoch id = some le := by
  obtain ⟨r', hr', hall⟩ := h.logs
  rw [hr] at hr'
  obtain rfl := Option.some.inj hr'
  have hwf := H.summary_wf hr
  have hexists : db.dbLogExists H.epoch id = true := by
    rcases hall with h₁ | h₂ | hall
    · rcases hwf with rfl | hwf
      · dsimp only at hle hlt
        omega
      · omega
    · rcases hwf with rfl | hwf
      · dsimp only at hle hlt
        omega
      · omega
    · exact hall id hle hlt
  have hid : (BitVec.ofInt 64 id).toNat = id := by
    have hcast := toNat_ofInt_of_lt (Int.natCast_nonneg id) (show (id : Int) < 2 ^ 63 by
      rcases hwf with rfl | hwf
      · dsimp only at hle hlt
        omega
      · omega)
    exact_mod_cast hcast
  rw [DataStore.dbLogExists, hid] at hexists
  obtain ⟨c, hc⟩ := Option.isSome_iff_exists.mp hexists
  obtain ⟨le, hlog, rfl⟩ := hholds.logs hc
  obtain ⟨hheader, hepoch, -, -⟩ := LogEvent.selfCheck_spec (H.log_checked hlog)
  refine ⟨le, hlog, ?_⟩
  have hread : dbGetLog db.logStore H.epoch id = some le := by
    rw [dbGetLog, DataStore.logStore]
    simp only [hc, hheader, Bool.true_eq_false, if_false, hepoch, H.log_id hlog, ne_eq,
      not_true_eq_false, or_self]
  rw [dbTryGetLog, hread]

/-- An id of the list is an id of the range. -/
theorem LogHistory.mem_range'_summary {tick : Nat} {r : Int × Int} (hr : H.summary tick = some r)
    {id : Nat} : id ∈ List.range' r.1.toNat r.2.toNat ↔ r.1 ≠ -1 ∧ r.1 ≤ id ∧ id < r.1 + r.2 := by
  rw [List.mem_range'_1]
  rcases H.summary_wf hr with rfl | hwf
  · dsimp only
    omega
  · omega

/-- The logs read for a complete tick. -/
theorem LogHistory.Complete.tickLogs_eq {tick : Nat} (hholds : H.Holds db) (h : H.Complete db tick) :
    tickLogs ⟨db.logStore, kv⟩ H.epoch tick = H.logsOfTick tick := by
  obtain ⟨r, hr, -⟩ := h.logs
  rw [tickLogs, LogHistory.tickIds_eq (h.readsRange hholds) hr, LogHistory.logsOfTick, hr]
  refine List.filterMap_congr fun id hid => ?_
  obtain ⟨-, hle, hlt⟩ := (H.mem_range'_summary hr).mp hid
  obtain ⟨le, hlog, hread⟩ := @LogHistory.Complete.log K H db kv tick r hholds h hr id hle hlt
  rw [hread, hlog]

/-- Each log of a tick is accepted for this tick. -/
theorem LogHistory.accepts_logsOfTick (htick : H.InTick) {tick : Nat} {le : LogEvent}
    (h : le ∈ H.logsOfTick tick) : acceptsLog K H.epoch tick tick le = true := by
  rw [LogHistory.logsOfTick] at h
  cases hr : H.summary tick with
  | none =>
      rw [hr] at h
      cases h
  | some r =>
      rw [hr] at h
      obtain ⟨id, hid, hlog⟩ := List.mem_filterMap.mp h
      obtain ⟨-, hle, hlt⟩ := (H.mem_range'_summary hr).mp hid
      obtain ⟨hheader, hepoch, -, -⟩ := LogEvent.selfCheck_spec (H.log_checked hlog)
      have htick' := htick hr hle hlt hlog
      simp only [acceptsLog, hheader, hepoch, htick', H.log_checked hlog, beq_self_eq_true,
        le_refl, and_self, decide_true, Bool.and_self]

/-- Where later ticks have larger ids, no id belongs to two ticks. -/
theorem LogHistory.Ordered.rangesDisjoint (hordered : H.Ordered) {D : LogDB}
    {startTick endTick : Nat} (h : ∀ t ∈ ticksFromTo startTick endTick, H.ReadsRange D t) :
    RangesDisjoint D startTick endTick := by
  have hapart : ∀ t t', t ∈ ticksFromTo startTick endTick → t' ∈ ticksFromTo startTick endTick →
      t < t' → ∀ id, id ∈ tickIds D t → id ∉ tickIds D t' := by
    intro t t' ht ht' hlt id hid hid'
    obtain ⟨r, hr, -⟩ := h t ht
    obtain ⟨r', hr', -⟩ := h t' ht'
    rw [tickIds_eq (h t ht) hr, H.mem_range'_summary hr] at hid
    rw [tickIds_eq (h t' ht') hr', H.mem_range'_summary hr'] at hid'
    have hle := hordered hlt hr hr' hid.1 hid'.1
    omega
  intro t t' ht ht' hne id hid hid'
  rcases Nat.lt_or_gt_of_ne hne with hlt | hlt
  · exact hapart t t' ht ht' hlt id hid hid'
  · exact hapart t' t ht' ht hlt id hid' hid

/-- **A batch of complete ticks** passes the gate, with the logs the other nodes have of it. -/
theorem complete_batch (hordered : H.Ordered) (hgapless : H.Gapless) (htick : H.InTick)
    (hholds : H.Holds db) {startTick endTick : Nat}
    (h : ∀ t, startTick ≤ t → t ≤ endTick → H.Complete db t) :
    dbGetLogsByTickRange K ⟨db.logStore, kv⟩ H.epoch startTick endTick =
        ((ticksFromTo startTick endTick).flatMap H.logsOfTick, true) ∧
      entersRescueMode K ⟨db.logStore, kv⟩ H.epoch startTick endTick = false := by
  have hcomplete : ∀ t ∈ ticksFromTo startTick endTick, H.Complete db t := fun t ht =>
    h t (mem_ticksFromTo.mp ht).1 (mem_ticksFromTo.mp ht).2
  have hsummary : ∀ t ∈ ticksFromTo startTick endTick, H.ReadsRange ⟨db.logStore, kv⟩ t :=
    fun t ht => (hcomplete t ht).readsRange hholds
  have hknown : ∀ t ∈ ticksFromTo startTick endTick,
      rangeKnown ⟨db.logStore, kv⟩ t = true := by
    intro t ht
    obtain ⟨r, -, r', hread, -, -⟩ := hsummary t ht
    rw [rangeKnown, hread]
    rfl
  have hlogs : ∀ t ∈ ticksFromTo startTick endTick,
      tickLogs ⟨db.logStore, kv⟩ H.epoch t = H.logsOfTick t :=
    fun t ht => (hcomplete t ht).tickLogs_eq hholds
  have haccepted : ∀ t ∈ ticksFromTo startTick endTick,
      ∀ le ∈ tickLogs ⟨db.logStore, kv⟩ H.epoch t, acceptsLog K H.epoch t t le = true := by
    intro t ht le hle
    rw [hlogs t ht] at hle
    exact H.accepts_logsOfTick htick hle
  have hbatch := dbGetLogsByTickRange_of_accepted hknown haccepted
  refine ⟨?_, (not_entersRescueMode_iff (hordered.rangesDisjoint hsummary)).mpr ?_⟩
  · rw [hbatch, List.flatMap_congr hlogs]
  · intro id hid
    -- the id lies between the ids of two ticks of the batch, so it belongs to a tick of the batch
    obtain ⟨⟨t, ht, r₁, hr₁, hfirst⟩, t', ht', r₂, hr₂, hlast⟩ := ends_of_mem_hullIds hid
    obtain ⟨r, hr, r₁', hread, hr₁from, hr₁len⟩ := hsummary t ht
    obtain ⟨r', hr', r₂', hread', hr₂from, hr₂len⟩ := hsummary t' ht'
    obtain rfl := Option.some.inj (hr₁.1.symm.trans hread)
    obtain rfl := Option.some.inj (hr₂.1.symm.trans hread')
    have hne := hr₁from ▸ hr₁.2.1
    have hne' := hr₂from ▸ hr₂.2.1
    rw [hr₁from] at hfirst
    rw [hr₂from, hr₂len] at hlast
    have hle : t ≤ t' := by
      by_contra hgt
      have := hordered (not_le.mp hgt) hr' hr hne' hne
      omega
    obtain ⟨t'', r'', hle₁, hle₂, hr'', hne'', hin₁, hin₂⟩ :=
      hgapless hle hr hr' hne hne' hfirst hlast
    obtain ⟨hstart, -⟩ := mem_ticksFromTo.mp ht
    obtain ⟨-, hend⟩ := mem_ticksFromTo.mp ht'
    have ht'' : t'' ∈ ticksFromTo startTick endTick :=
      mem_ticksFromTo.mpr ⟨hstart.trans hle₁, hle₂.trans hend⟩
    have hid'' : id ∈ tickIds ⟨db.logStore, kv⟩ t'' := by
      rw [LogHistory.tickIds_eq (hsummary t'' ht'') hr'']
      exact (H.mem_range'_summary hr'').mpr ⟨hne'', hin₁, hin₂⟩
    obtain ⟨le, -, hread''⟩ := @LogHistory.Complete.log K H db kv t'' r'' hholds (hcomplete t'' ht'')
      hr'' id hin₁ hin₂
    refine ⟨t'', hstart.trans hle₁, hle₂.trans hend, fun u hu₁ hu₂ => ?_, hid'', le, hread'', ?_⟩
    · exact hknown u (mem_ticksFromTo.mpr ⟨hu₁, hu₂.trans (hle₂.trans hend)⟩)
    · have hmem : le ∈ tickLogs ⟨db.logStore, kv⟩ H.epoch t'' :=
        List.mem_filterMap.mpr ⟨id, hid'', hread''⟩
      have hacc := haccepted t'' ht'' le hmem
      simp only [acceptsLog, Bool.and_eq_true, decide_eq_true_eq] at hacc ⊢
      exact ⟨⟨hacc.1.1, by omega⟩, hacc.2⟩

/-- A batch whose ranges are its summaries and whose logs are those of the epoch, as far as they are
there, passes the gate only if they are all there. -/
theorem batch_of_gate (hordered : H.Ordered) {D : LogDB} {startTick endTick : Nat}
    (hranges : ∀ t ∈ ticksFromTo startTick endTick, H.ReadsRange D t)
    (hlogs : ∀ id ∈ hullIds D startTick endTick, ∀ le, dbTryGetLog D H.epoch id = some le →
      H.log id = some le)
    (hgate : entersRescueMode K D H.epoch startTick endTick = false) :
    (dbGetLogsByTickRange K D H.epoch startTick endTick).1 =
      (ticksFromTo startTick endTick).flatMap H.logsOfTick := by
  have hcovered := (not_entersRescueMode_iff (hordered.rangesDisjoint hranges)).mp hgate
  have hseen : seenTicks D startTick endTick = ticksFromTo startTick endTick := by
    refine List.takeWhile_eq_self_iff.mpr fun t ht => ?_
    obtain ⟨r, -, r', hread, -, -⟩ := hranges t ht
    rw [rangeKnown, hread]
    rfl
  -- the log of an id that is covered is found, and it is accepted
  have hfound : ∀ t ∈ ticksFromTo startTick endTick, ∀ id ∈ tickIds D t, ∃ le,
      H.log id = some le ∧ dbTryGetLog D H.epoch id = some le ∧
        acceptsLog K H.epoch startTick endTick le = true := by
    intro t ht id hid
    have hhull := tickIds_subset_hull ht hid
    obtain ⟨_, -, -, -, -, le, hread, haccepted⟩ := hcovered id hhull
    exact ⟨le, hlogs id hhull le hread, hread, haccepted⟩
  rcases @dbGetLogsByTickRange_cases K D H.epoch startTick endTick with ⟨hvle, -⟩ | ⟨-, hbad⟩
  · rw [hvle, seenLogs, hseen]
    refine List.flatMap_congr fun t ht => ?_
    obtain ⟨r, hr, -⟩ := hranges t ht
    rw [tickLogs, LogHistory.logsOfTick, hr]
    dsimp only
    rw [← LogHistory.tickIds_eq (hranges t ht) hr]
    refine List.filterMap_congr fun id hid => ?_
    obtain ⟨le, hlog, hread, -⟩ := hfound t ht id hid
    rw [hread, hlog]
  · obtain ⟨t, ht, le, hle, hrefused⟩ := hbad
    rw [hseen] at ht
    obtain ⟨id, hid, hread⟩ := List.mem_filterMap.mp hle
    obtain ⟨le', -, hread', haccepted⟩ := hfound t ht id hid
    obtain rfl := Option.some.inj (hread.symm.trans hread')
    rw [haccepted] at hrefused
    cases hrefused

/-- **Fetched batches.** In every run, a batch of ticks that the fetcher has left and the cleaner has
not reached is read as the logs the other nodes have of it, whatever Kvrocks holds, and the verifier
does not go into rescue mode. -/
theorem fetched_batch {s : LogSync} {steps : List LogSyncStep} (hordered : H.Ordered)
    (hgapless : H.Gapless) (htick : H.InTick) (hs : s.Starts H)
    (hok : Runs.Guarded LogSync.step (fun s st => s.Ok H st) s steps) (kv : LogStore)
    {processFromTick processToTick : Nat}
    (hinitial : (Runs.run LogSync.step s steps).gInitialTick ≤ processFromTick)
    (hclean : (Runs.run LogSync.step s steps).lastClean < processFromTick)
    (hfetched : processToTick < (Runs.run LogSync.step s steps).fetcher.gCurrentFetchingLogTick) :
    dbGetLogsByTickRange K ⟨(Runs.run LogSync.step s steps).db.logStore, kv⟩ H.epoch
        processFromTick processToTick =
        ((ticksFromTo processFromTick processToTick).flatMap H.logsOfTick, true) ∧
      entersRescueMode K ⟨(Runs.run LogSync.step s steps).db.logStore, kv⟩ H.epoch
        processFromTick processToTick = false := by
  have hkept := LogSync.kept_of_run hordered hs hok
  exact complete_batch hordered hgapless htick hkept.holds fun t h₁ h₂ =>
    hkept.passed t (hinitial.trans h₁) (h₂.trans_lt hfetched) (hclean.trans_le h₁)

end batches

/-! ## One fetched tick -/

theorem gapless_oneTickHistory : oneTickHistory.Gapless := by
  intro t t' r r' id _ hr hr' hne _ hle hlt
  have hr₀ := hr
  rw [summary_oneTickHistory] at hr hr'
  obtain ⟨rfl, hr⟩ := Option.ite_none_right_eq_some.mp hr
  obtain ⟨rfl, hr'⟩ := Option.ite_none_right_eq_some.mp hr'
  obtain rfl := Option.some.inj (hr.symm.trans hr')
  exact ⟨1, r, le_rfl, le_rfl, hr₀, hne, hle, hlt⟩

theorem inTick_oneTickHistory : oneTickHistory.InTick := by
  intro t r le id hr _ _ hle
  rw [summary_oneTickHistory] at hr
  obtain ⟨rfl, -⟩ := Option.ite_none_right_eq_some.mp hr
  rw [← Option.some.inj (Option.ite_none_right_eq_some.mp hle).2]
  decide +kernel

/-- The batch of tick 1, whose log came with the answer. -/
theorem fetched_batch_oneTick :
    let s := Runs.run LogSync.step oneTickStart oneTickRun
    dbGetLogsByTickRange bareReceiver.K ⟨s.db.logStore, emptyLogDB.kvrocks⟩ 0 1 1 =
        ((ticksFromTo 1 1).flatMap oneTickHistory.logsOfTick, true) ∧
      entersRescueMode bareReceiver.K ⟨s.db.logStore, emptyLogDB.kvrocks⟩ 0 1 1 = false := by
  refine fetched_batch ordered_oneTickHistory gapless_oneTickHistory inTick_oneTickHistory
    starts_oneTickStart guarded_oneTickRun emptyLogDB.kvrocks ?_ ?_ ?_
  · decide +kernel
  · decide +kernel
  · rw [passed_oneTick]
    decide

end QubicBob
