import QubicBob.Api.LogQueries
import QubicBob.Decode.BodyReads
import QubicBob.Indexer.IndexTick

set_option autoImplicit false

/-! # The custom log search and the index

`indexTick` files each log under an SC index, a log type and three topics. `getCustomLog` looks for
logs by the same notions, but decides with a filter of its own. Both read the same fields of the
body, so the two can be compared log by log, as predicates on one log and one query: where the
filter compares what the index has, they agree. The filter does not compare the type of a contract
message and the topics of a protocol log, passes over a topic where the body is too short for it,
and takes 24 bytes for a whole third topic. Besides, the search must get through its logs, and the
logs that it is never handed must not be filed under the query.
-/

namespace QubicBob

open CustomLogQuery

/-! ## What the index has -/

/-- The log is filed under the SC index and the log type of the query, with all topics asked for. -/
def CustomLogQuery.filed (K : KangarooTwelve) (U : Unspecified) (q : CustomLogQuery)
    (le : LogEvent) : Bool :=
  (indexedEvent K U le).any (fun e => e.SC_index == q.scIndex && e.logType == q.logType &&
    decide (∀ i, q.topic i ≠ m256i.zero → e.topic i = q.topic i))

/-- The stored logs of the ticks, in their order. -/
def tickRangeLogs (db : LogDB) (epoch startTick endTick : Nat) : List LogEvent :=
  (ticksFromTo startTick endTick).flatMap (tickLogs db epoch)

/-- The search returns the logs of the ticks that the index has for the query, in order, and its
filter reads no byte behind a body. -/
def FiltersLikeIndex (K : KangarooTwelve) (U : Unspecified) (a : Archive) (epoch : Nat)
    (q : CustomLogQuery) (startTick endTick : Nat) : Prop :=
  ReadsInside ((dbGetLogsByTickRange K a.logStores epoch startTick endTick).1.flatMap
      (customLogReads q.scIndex q.logType q.topic)) ∧
    ∃ entries, getCustomLog K a epoch q startTick endTick = .ok entries ∧
      entries.map TaggedLog.log =
        (tickRangeLogs a.logStores epoch startTick endTick).filter (q.filed K U)

/-! ## One log -/

/-- The bytes of a message where topic `i` begins. -/
def topicOffset (i : Fin 3) : Nat := 8 + 32 * i.val

/-- Every topic asked for that lies in the body as a whole is there. -/
def CustomLogQuery.WholeTopicsMatch (q : CustomLogQuery) (le : LogEvent) : Prop :=
  ∀ i, q.topic i ≠ m256i.zero → topicOffset i + 32 ≤ le.getLogSize →
    le.field (topicOffset i) 32 = q.topic i

/-- Every other topic asked for is the rest of the body, filled up with zeros. -/
def CustomLogQuery.CutTopicsMatch (q : CustomLogQuery) (le : LogEvent) : Prop :=
  ∀ i, q.topic i ≠ m256i.zero → le.getLogSize < topicOffset i + 32 →
    le.topicAt (topicOffset i) = q.topic i

/-- The log is one on which the filter of the search does what the index does. -/
def CustomLogQuery.AgreesAt (K : KangarooTwelve) (U : Unspecified) (q : CustomLogQuery)
    (le : LogEvent) : Prop :=
  if le.isSCType = true then
    le.field 0 4 = q.scIndex →
      (q.topic topic3 ≠ m256i.zero → ¬ (96 ≤ le.getLogSize ∧ le.getLogSize < 104)) ∧
      (q.WholeTopicsMatch le → q.scIndex ≠ NO_INDEX ∧ 100000 ≤ q.logType.toNat ∧
        le.field 4 4 = q.logType ∧ q.CutTopicsMatch le)
  else
    q.scIndex = 0 → BitVec.ofNat 32 le.getType = q.logType →
      ∃ e, indexedEvent K U le = some e ∧ ∀ i, q.topic i ≠ m256i.zero → e.topic i = q.topic i

section OneLog

variable {K : KangarooTwelve} {U : Unspecified} {q : CustomLogQuery} {le : LogEvent}
  {e : IndexFields}

theorem filed_iff : q.filed K U le = true ↔ ∃ e, indexedEvent K U le = some e ∧
    e.SC_index = q.scIndex ∧ e.logType = q.logType ∧
      ∀ i, q.topic i ≠ m256i.zero → e.topic i = q.topic i := by
  simp only [filed, Option.any_eq_true, Bool.and_eq_true, beq_iff_eq, decide_eq_true_eq, and_assoc]

/-- The types of contract messages. -/
theorem isSCType_iff : le.isSCType = true ↔ 4 ≤ le.getType ∧ le.getType ≤ 7 := by
  simp only [LogEvent.isSCType, Bool.and_eq_true, decide_eq_true_eq]
  rfl

theorem readEvent_contract (hsc : le.isSCType = true) (s : IndexFields) :
    readEvent K U s le =
      if 8 ≤ le.getLogSize then
        if 100000 ≤ (le.field 4 4 : BitVec 32).toNat then
          ⟨le.field 0 4, le.field 4 4, ![le.topicAt 8, le.topicAt 40, le.topicAt 72]⟩
        else ⟨NO_INDEX, le.field 4 4, s.topic⟩
      else ⟨NO_INDEX, s.logType, s.topic⟩ := by
  obtain ⟨hlo, hhi⟩ := isSCType_iff.mp hsc
  unfold readEvent
  dsimp only
  rw [if_neg (by unfold QU_TRANSFER; omega), if_neg (by unfold ASSET_ISSUANCE; omega),
    if_neg (by unfold ASSET_OWNERSHIP_CHANGE ASSET_POSSESSION_CHANGE; omega),
    if_neg (by unfold ASSET_OWNERSHIP_MANAGING_CONTRACT_CHANGE; omega),
    if_neg (by unfold ASSET_POSSESSION_MANAGING_CONTRACT_CHANGE; omega),
    if_neg (by unfold BURNING; omega), if_neg (by unfold CONTRACT_RESERVE_DEDUCTION; omega),
    if_pos hsc]

/-- A message of a contract is indexed from its type 100000 on. -/
theorem indexedEvent_contract (hsc : le.isSCType = true) (hsize : 8 ≤ le.getLogSize) :
    indexedEvent K U le = some e ↔ 100000 ≤ (le.field 4 4 : BitVec 32).toNat ∧
      (le.field 0 4 : BitVec 32) ≠ NO_INDEX ∧
        e = ⟨le.field 0 4, le.field 4 4, ![le.topicAt 8, le.topicAt 40, le.topicAt 72]⟩ := by
  unfold indexedEvent
  rw [readEvent_contract hsc, if_pos hsize]
  by_cases htype : 100000 ≤ (le.field 4 4 : BitVec 32).toNat
  · rw [if_pos htype]
    by_cases hindex : (le.field 0 4 : BitVec 32) = NO_INDEX
    · simp [hindex]
    · simp [hindex, htype, eq_comm]
  · rw [if_neg htype]
    simp [htype]

/-- Not indexed, or indexed as a protocol log of the type. -/
def IndexFields.ProtocolOf (logType : BitVec 32) (e : IndexFields) : Prop :=
  e.SC_index = NO_INDEX ∨ e.SC_index = 0 ∧ e.logType = logType

theorem IndexFields.ProtocolOf.ite {p : Prop} [Decidable p] {logType : BitVec 32}
    {e e' : IndexFields} (he : p → e.ProtocolOf logType) (he' : ¬ p → e'.ProtocolOf logType) :
    (if p then e else e').ProtocolOf logType := by
  by_cases h : p
  · rw [if_pos h]
    exact he h
  · rw [if_neg h]
    exact he' h

theorem readEvent_protocolOf (hsc : le.isSCType = false) (s : IndexFields) :
    (readEvent K U s le).ProtocolOf (BitVec.ofNat 32 le.getType) := by
  unfold readEvent
  refine .ite (fun _ => .inr ⟨rfl, rfl⟩) fun _ => ?_
  refine .ite (fun _ => .inr ⟨rfl, rfl⟩) fun _ => ?_
  refine .ite (fun _ => .inr ⟨rfl, rfl⟩) fun _ => ?_
  refine .ite (fun _ => .inr ⟨rfl, rfl⟩) fun _ => ?_
  refine .ite (fun _ => .inr ⟨rfl, rfl⟩) fun _ => ?_
  refine .ite (fun _ => .inr ⟨rfl, rfl⟩) fun _ => ?_
  refine .ite (fun _ => .inr ⟨rfl, rfl⟩) fun _ => ?_
  refine .ite (fun hc => ?_) fun _ => .inl rfl
  rw [hsc] at hc
  exact absurd hc Bool.false_ne_true

/-- A protocol log is indexed under SC index 0 and its type. -/
theorem indexedEvent_protocol (hsc : le.isSCType = false) (h : indexedEvent K U le = some e) :
    e.SC_index = 0 ∧ e.logType = BitVec.ofNat 32 le.getType := by
  have hfields := readEvent_protocolOf (K := K) (U := U) hsc ⟨0, 0, U.topic⟩
  unfold indexedEvent at h
  dsimp only at h
  split at h
  · cases h
  · next hindex =>
      rw [← Option.some.inj h]
      exact hfields.resolve_left hindex

theorem topicAt_of_whole {offset : Nat} (h : offset + 32 ≤ le.getLogSize) :
    le.topicAt offset = le.field offset 32 := by
  rw [LogEvent.topicAt, if_pos (by omega), Nat.min_eq_left (by omega)]

/-- The topics of a message are those that lie in it as a whole and those that are cut. -/
theorem topics_match_iff :
    (∀ i, q.topic i ≠ m256i.zero →
      (![le.topicAt 8, le.topicAt 40, le.topicAt 72] : Fin 3 → m256i) i = q.topic i) ↔
      q.WholeTopicsMatch le ∧ q.CutTopicsMatch le := by
  have htopic : ∀ i : Fin 3, (![le.topicAt 8, le.topicAt 40, le.topicAt 72] : Fin 3 → m256i) i
      = le.topicAt (topicOffset i) := by
    intro i
    match i with
    | 0 => rfl
    | 1 => rfl
    | 2 => rfl
  simp only [htopic]
  constructor
  · intro h
    refine ⟨fun i hi hwhole => ?_, fun i hi _ => h i hi⟩
    rw [← topicAt_of_whole hwhole]
    exact h i hi
  · rintro ⟨hwhole, hcut⟩ i hi
    by_cases hsize : topicOffset i + 32 ≤ le.getLogSize
    · rw [topicAt_of_whole hsize]
      exact hwhole i hi hsize
    · exact hcut i hi (by omega)

theorem filed_contract (hsc : le.isSCType = true) (hsize : 8 ≤ le.getLogSize) :
    q.filed K U le = true ↔ le.field 0 4 = q.scIndex ∧ q.scIndex ≠ NO_INDEX ∧
      100000 ≤ q.logType.toNat ∧ le.field 4 4 = q.logType ∧
        q.WholeTopicsMatch le ∧ q.CutTopicsMatch le := by
  rw [filed_iff]
  simp only [indexedEvent_contract hsc hsize]
  constructor
  · rintro ⟨e, ⟨htype, hindex, rfl⟩, hsc, hlog, htopics⟩
    dsimp only at hsc hlog
    exact ⟨hsc, hsc ▸ hindex, hlog ▸ htype, hlog, topics_match_iff.mp htopics⟩
  · rintro ⟨hsc, hindex, htype, hlog, htopics⟩
    exact ⟨_, ⟨hlog.symm ▸ htype, hsc.symm ▸ hindex, rfl⟩, hsc, hlog, topics_match_iff.mpr htopics⟩

theorem filed_protocol (hsc : le.isSCType = false) :
    q.filed K U le = true ↔ q.scIndex = 0 ∧ BitVec.ofNat 32 le.getType = q.logType ∧
      ∃ e, indexedEvent K U le = some e ∧ ∀ i, q.topic i ≠ m256i.zero → e.topic i = q.topic i := by
  rw [filed_iff]
  constructor
  · rintro ⟨e, he, hindex, hlog, htopics⟩
    obtain ⟨hzero, htype⟩ := indexedEvent_protocol hsc he
    exact ⟨hindex.symm.trans hzero, htype.symm.trans hlog, e, he, htopics⟩
  · rintro ⟨hindex, hlog, e, he, htopics⟩
    obtain ⟨hzero, htype⟩ := indexedEvent_protocol hsc he
    exact ⟨e, he, hzero.trans hindex.symm, htype.trans hlog, htopics⟩

theorem reports_protocol (hsc : le.isSCType = false) :
    q.reports le = true ↔ q.scIndex = 0 ∧ BitVec.ofNat 32 le.getType = q.logType := by
  unfold reports
  by_cases hindex : q.scIndex = 0
  · rw [if_pos ⟨hindex, hsc⟩, beq_iff_eq, and_iff_right hindex]
  · rw [if_neg (fun hc => hindex hc.1), if_neg (by rw [hsc]; exact Bool.false_ne_true)]
    exact iff_of_false Bool.false_ne_true (fun hc => hindex hc.1)

theorem matchesTopic_iff {i : Fin 3} {minSize : Nat} : q.matchesTopic le i minSize = true ↔
    (q.topic i ≠ m256i.zero → minSize ≤ le.getLogSize →
      le.field (topicOffset i) 32 = q.topic i) := by
  simp only [matchesTopic, topicOffset, Bool.or_eq_true, beq_iff_eq, decide_eq_true_eq]
  constructor
  · rintro ((hzero | hsmall) | hsame) hne hsize
    · exact absurd hzero hne
    · omega
    · exact hsame.symm
  · intro h
    by_cases hne : q.topic i = m256i.zero
    · exact Or.inl (Or.inl hne)
    by_cases hsize : minSize ≤ le.getLogSize
    · exact Or.inr (h hne hsize).symm
    · exact Or.inl (Or.inr (by omega))

/-- Where no third topic is cut between 96 and 104 bytes, the sizes asked for are the right ones. -/
theorem reports_contract (hsc : le.isSCType = true) (hsize : 8 ≤ le.getLogSize)
    (hthird : q.topic topic3 ≠ m256i.zero → ¬ (96 ≤ le.getLogSize ∧ le.getLogSize < 104)) :
    q.reports le = true ↔ le.field 0 4 = q.scIndex ∧ q.WholeTopicsMatch le := by
  have htopics : (q.matchesTopic le topic1 40 = true ∧ q.matchesTopic le topic2 72 = true) ∧
      q.matchesTopic le topic3 96 = true ↔ q.WholeTopicsMatch le := by
    simp only [matchesTopic_iff]
    constructor
    · rintro ⟨⟨h₁, h₂⟩, h₃⟩ i hi hwhole
      match i with
      | 0 => exact h₁ hi hwhole
      | 1 => exact h₂ hi hwhole
      | 2 => exact h₃ hi (le_trans (by decide) hwhole)
    · intro h
      refine ⟨⟨h topic1, h topic2⟩, fun hne hlarge => h topic3 hne ?_⟩
      have hcut := hthird hne
      show 104 ≤ le.getLogSize
      omega
  unfold reports
  rw [if_neg (fun hc => absurd (hsc.symm.trans hc.2) (by decide)), if_pos hsc]
  simp only [Bool.and_eq_true, decide_eq_true_eq, beq_iff_eq, hsize, true_and]
  rw [htopics]

/-- The filter of the search does what the index does, without reading behind the body. -/
theorem agreesAt_iff (h : Checked K le) : q.AgreesAt K U le ↔
    ReadsInside (customLogReads q.scIndex q.logType q.topic le) ∧
      (q.reports le = true ↔ q.filed K U le = true) := by
  rw [readsInside_customLog h]
  unfold AgreesAt
  by_cases hsc : le.isSCType = true
  · rw [if_pos hsc]
    by_cases hindex : le.field 0 4 = q.scIndex
    · have hsize := h.eight
      by_cases hthird : q.topic topic3 ≠ m256i.zero →
          ¬ (96 ≤ le.getLogSize ∧ le.getLogSize < 104)
      · rw [reports_contract hsc hsize hthird, filed_contract hsc hsize]
        constructor
        · intro hagree
          refine ⟨fun _ _ hne hlarge => ?_, ?_, ?_⟩
          · have hcut := hthird hne
            omega
          · rintro ⟨_, hwhole⟩
            obtain ⟨hno, htype, hlog, hcut⟩ := (hagree hindex).2 hwhole
            exact ⟨hindex, hno, htype, hlog, hwhole, hcut⟩
          · rintro ⟨_, _, _, _, hwhole, _⟩
            exact ⟨hindex, hwhole⟩
        · rintro ⟨_, hiff⟩ _
          refine ⟨hthird, fun hwhole => ?_⟩
          obtain ⟨_, hno, htype, hlog, _, hcut⟩ := hiff.mp ⟨hindex, hwhole⟩
          exact ⟨hno, htype, hlog, hcut⟩
      · refine iff_of_false (fun hagree => hthird (hagree hindex).1) ?_
        rintro ⟨hreads, _⟩
        refine hthird (fun hne hcut => ?_)
        have hlarge := hreads hsc hindex hne hcut.1
        omega
    · refine iff_of_true (fun hc => absurd hc hindex) ⟨fun _ hc => absurd hc hindex, ?_⟩
      refine iff_of_false (fun hreports => ?_) (fun hfiled => ?_)
      · unfold reports at hreports
        rw [if_neg (fun hc => absurd (hsc.symm.trans hc.2) (by decide)), if_pos hsc] at hreports
        simp only [Bool.and_eq_true, beq_iff_eq] at hreports
        exact hindex hreports.1.2
      · exact hindex ((filed_contract hsc h.eight).mp hfiled).1
  · rw [if_neg hsc, and_iff_right (fun hc => absurd hc hsc)]
    rw [Bool.not_eq_true] at hsc
    rw [reports_protocol hsc, filed_protocol hsc]
    constructor
    · intro hagree
      refine ⟨?_, ?_⟩
      · rintro ⟨hzero, hlog⟩
        exact ⟨hzero, hlog, hagree hzero hlog⟩
      · rintro ⟨hzero, hlog, _⟩
        exact ⟨hzero, hlog⟩
    · intro hiff hzero hlog
      exact (hiff.mp ⟨hzero, hlog⟩).2.2

end OneLog

/-! ## The whole search -/

/-- What the walk over the ticks does not hand over: the logs behind a tick whose range is unknown,
and all of them when one before it is not accepted. -/
def unseenLogs (K : KangarooTwelve) (db : LogDB) (epoch startTick endTick : Nat) : List LogEvent :=
  if (seenLogs db epoch startTick endTick).all (acceptsLog K epoch startTick endTick) then
    ((ticksFromTo startTick endTick).dropWhile (rangeKnown db)).flatMap (tickLogs db epoch)
  else tickRangeLogs db epoch startTick endTick

section Search

variable {K : KangarooTwelve} {U : Unspecified} {a : Archive} {epoch startTick endTick : Nat}
  {q : CustomLogQuery}

theorem batch_append_unseenLogs (db : LogDB) :
    (dbGetLogsByTickRange K db epoch startTick endTick).1 ++
      unseenLogs K db epoch startTick endTick = tickRangeLogs db epoch startTick endTick := by
  rcases @dbGetLogsByTickRange_cases K db epoch startTick endTick with
    ⟨hbatch, hall⟩ | ⟨hbatch, t, ht, le, hle, hrejected⟩
  · rw [hbatch, unseenLogs, if_pos (List.all_eq_true.mpr hall), seenLogs, seenTicks,
      ← List.flatMap_append, List.takeWhile_append_dropWhile, tickRangeLogs]
  · have hnot : ¬ (seenLogs db epoch startTick endTick).all
        (acceptsLog K epoch startTick endTick) = true := by
      intro hall
      have hacc := List.all_eq_true.mp hall le (List.mem_flatMap.mpr ⟨t, ht, hle⟩)
      exact absurd (hacc.symm.trans hrejected) (by decide)
    rw [hbatch, unseenLogs, if_neg hnot, List.nil_append]

/-- A filter of the beginning of a list gives what another gives of the whole, if and only if they
agree there and the other gives nothing of the rest. -/
theorem filter_eq_filter_append_iff {α : Type} {p f : α → Bool} {xs ys : List α} :
    xs.filter p = (xs ++ ys).filter f ↔
      (∀ x ∈ xs, p x = true ↔ f x = true) ∧ ∀ y ∈ ys, f y = false := by
  constructor
  · intro h
    have hagree : ∀ x ∈ xs, p x = true ↔ f x = true := by
      intro x hx
      constructor
      · intro hp
        have hmem : x ∈ xs.filter p := List.mem_filter.mpr ⟨hx, hp⟩
        rw [h] at hmem
        exact (List.mem_filter.mp hmem).2
      · intro hf
        have hmem : x ∈ (xs ++ ys).filter f :=
          List.mem_filter.mpr ⟨List.mem_append_left _ hx, hf⟩
        rw [← h] at hmem
        exact (List.mem_filter.mp hmem).2
    refine ⟨hagree, fun y hy => ?_⟩
    have hsame : xs.filter p = xs.filter f :=
      List.filter_congr (fun x hx => Bool.eq_iff_iff.mpr (hagree x hx))
    rw [List.filter_append, hsame, List.self_eq_append_right, List.filter_eq_nil_iff] at h
    exact Bool.eq_false_iff.mpr (h y hy)
  · rintro ⟨hagree, hrest⟩
    have hsame : xs.filter p = xs.filter f :=
      List.filter_congr (fun x hx => Bool.eq_iff_iff.mpr (hagree x hx))
    have hnil : ys.filter f = [] :=
      List.filter_eq_nil_iff.mpr (fun y hy => Bool.eq_false_iff.mp (hrest y hy))
    rw [List.filter_append, hsame, hnil, List.append_nil]

/-- The tagged logs are the logs that were visited. -/
theorem tagLogs_logs {rule : CursorRule} {move : TxCursor → Visit → TxCursor} {c c' : TxCursor}
    {vs : List Visit} (h : (tagLogs rule move c vs).2 = .ok c') :
    (tagLogs rule move c vs).1.map TaggedLog.log = vs.map Visit.log := by
  induction vs generalizing c with
  | nil => rfl
  | cons v vs ih =>
      cases htake : (move c v).take rule v.id with
      | error e =>
          rw [tagLogs_of_error rfl htake] at h
          cases h
      | ok r =>
          obtain ⟨c₁, txIndex⟩ := r
          rw [tagLogs_of_ok rfl htake] at h ⊢
          rw [List.map_cons, List.map_cons, ih h]

/-- A search that is gone through returns the logs that pass its filter. -/
theorem getCustomLog_logs {entries : List TaggedLog}
    (h : getCustomLog K a epoch q startTick endTick = .ok entries) :
    entries.map TaggedLog.log =
      (dbGetLogsByTickRange K a.logStores epoch startTick endTick).1.filter q.reports := by
  unfold getCustomLog at h
  dsimp only at h
  cases hend : (tagLogs (.next unsignedPast) (TxCursor.moveTo a) .init
      (getCustomLogVisits K a epoch startTick endTick)).2 with
  | error e =>
      rw [hend] at h
      cases h
  | ok c =>
      rw [hend] at h
      have hlogs := tagLogs_logs hend
      have hvisits : (getCustomLogVisits K a epoch startTick endTick).map Visit.log
          = (dbGetLogsByTickRange K a.logStores epoch startTick endTick).1 := by
        rw [getCustomLogVisits, List.map_map]
        exact List.map_id _
      rw [← Except.ok.inj h, ← hvisits, ← hlogs, List.filter_map]
      rfl

end Search

/-- **The custom log search against the index.** It finds what the index has if and only if it goes
through the logs, does the same as the index on each, and none it is not handed is filed under the
query. -/
theorem filtersLikeIndex_iff (K : KangarooTwelve) (U : Unspecified) (a : Archive) (epoch : Nat)
    (q : CustomLogQuery) (startTick endTick : Nat) :
    FiltersLikeIndex K U a epoch q startTick endTick ↔
      (∀ le ∈ (dbGetLogsByTickRange K a.logStores epoch startTick endTick).1, q.AgreesAt K U le) ∧
      AllSegments a (fun seg => seg.RangesFound a ∧ seg.SlotsSuffice a unsignedPast)
        (getCustomLogVisits K a epoch startTick endTick) ∧
      ∀ le ∈ unseenLogs K a.logStores epoch startTick endTick, q.filed K U le = false := by
  have hreturns : (∃ entries, getCustomLog K a epoch q startTick endTick = .ok entries) ↔
      AllSegments a (fun seg => seg.RangesFound a ∧ seg.SlotsSuffice a unsignedPast)
        (getCustomLogVisits K a epoch startTick endTick) := by
    rw [← tagsInBounds_next_iff]
    exact map_ok_iff
  have hlogs : (∃ entries, getCustomLog K a epoch q startTick endTick = .ok entries ∧
      entries.map TaggedLog.log =
        (tickRangeLogs a.logStores epoch startTick endTick).filter (q.filed K U)) ↔
      (∃ entries, getCustomLog K a epoch q startTick endTick = .ok entries) ∧
        (dbGetLogsByTickRange K a.logStores epoch startTick endTick).1.filter q.reports =
          (tickRangeLogs a.logStores epoch startTick endTick).filter (q.filed K U) := by
    constructor
    · rintro ⟨entries, hrun, hsame⟩
      exact ⟨⟨entries, hrun⟩, (getCustomLog_logs hrun).symm.trans hsame⟩
    · rintro ⟨⟨entries, hrun⟩, hsame⟩
      exact ⟨entries, hrun, (getCustomLog_logs hrun).trans hsame⟩
  have hbatch : (∀ le ∈ (dbGetLogsByTickRange K a.logStores epoch startTick endTick).1,
      q.AgreesAt K U le) ↔
      ReadsInside ((dbGetLogsByTickRange K a.logStores epoch startTick endTick).1.flatMap
        (customLogReads q.scIndex q.logType q.topic)) ∧
      ∀ le ∈ (dbGetLogsByTickRange K a.logStores epoch startTick endTick).1,
        q.reports le = true ↔ q.filed K U le = true := by
    rw [readsInside_flatMap, ← forall₂_and]
    exact forall₂_congr (fun le hle => agreesAt_iff (checked_of_batch hle))
  unfold FiltersLikeIndex
  rw [hlogs, hreturns, ← batch_append_unseenLogs (K := K), filter_eq_filter_append_iff, hbatch]
  tauto

/-! ## A message of another type -/

/-- The first transaction of tick 11 has one log, of id 5. -/
def slotOfLog5 : LogRangesPerTxInTick where
  fromLogId i := if i.val = 0 then 5 else -1
  length i := if i.val = 0 then 1 else -1

/-- A message of contract 1 of type 100001. -/
def messageOfTick11 : LogEvent :=
  LogEvent.pack 1 11 CONTRACT_INFORMATION_MESSAGE 5 0
    (leBytes 4 (1 : BitVec 32) ++ leBytes 4 (100001 : BitVec 32))

def archiveOfMessage : Archive :=
  { archiveOfTick11 with
    logRanges := fun tick => if tick = 11 then some slotOfLog5 else none
    tickLogRange := fun tick => if tick = 11 then some (5, 1) else none
    logs := fun epoch logId =>
      if epoch = 1 ∧ logId = 5 then some messageOfTick11.content else none }

/-- A search for the type 100002 of contract 1 returns the message of type 100001. -/
theorem filtersLikeIndex_fails_at_message :
    let U : Unspecified := ⟨fun _ => 0, fun _ => 0⟩
    let q : CustomLogQuery := ⟨1, 100002, fun _ => m256i.zero⟩
    ∃ entries, getCustomLog constantHash archiveOfMessage 1 q 11 11 = .ok entries ∧
      entries.map TaggedLog.log = [messageOfTick11] ∧
      (tickRangeLogs archiveOfMessage.logStores 1 11 11).filter (q.filed constantHash U) = [] ∧
      ¬ FiltersLikeIndex constantHash U archiveOfMessage 1 q 11 11 := by
  intro U q
  obtain ⟨entries, hrun, htest⟩ :=
    @exists_ok_of_any _ (getCustomLog constantHash archiveOfMessage 1 q 11 11)
      (fun entries => entries.map TaggedLog.log == [messageOfTick11]) (by decide +kernel)
  have hreturned : entries.map TaggedLog.log = [messageOfTick11] := beq_iff_eq.mp htest
  have hnone : (tickRangeLogs archiveOfMessage.logStores 1 11 11).filter (q.filed constantHash U)
      = [] := by decide +kernel
  refine ⟨entries, hrun, hreturned, hnone, ?_⟩
  rintro ⟨_, entries', hrun', hsame⟩
  obtain rfl := Except.ok.inj (hrun.symm.trans hrun')
  rw [hreturned, hnone] at hsame
  exact absurd hsame (by simp)

end QubicBob
