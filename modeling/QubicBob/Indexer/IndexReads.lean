import QubicBob.Api.Identities
import QubicBob.Indexer.IndexRuns

set_option autoImplicit false

/-! # Reading behind the indexer

What `bobFindLog` and `db_get_indexed_tx` answer while the indexer runs. The writes in the store are
those of the ticks up to `last_indexed_tick`, and some of the next tick's (`IndexedBy`). For a
search this is all there is to know: an entry of the index names its tick, so a search that ends at
`last_indexed_tick` sees nothing of the tick that is being indexed, nor of attempts that were cut
off.

A record of a transaction does not name its tick, and the last write of a key counts. The record is
that of its tick if no other tick writes the key, which is so for a transaction that is listed in
one slot of one tick, and for special events, whose keys have the tick in them.
-/

namespace QubicBob

section writes

variable {K : KangarooTwelve} {tick : BitVec 32} {r : TickReads}

/-! ## The index -/

def IndexWrite.posting : IndexWrite → Option (List Char × BitVec 32)
  | .setIndexedTx _ _ => none
  | .addIndexer key tick => some (key, tick)

theorem indexed_foldl (ws : List IndexWrite) (s : IndexStore) :
    (ws.foldl IndexStore.apply s).indexed =
      InvertedIndex.addAll tickMember tickScore s.indexed (ws.filterMap IndexWrite.posting) := by
  induction ws generalizing s with
  | nil => rfl
  | cons w ws ih =>
      rw [List.foldl_cons, ih]
      cases w with
      | setIndexedTx key data => rfl
      | addIndexer key tick => rfl

theorem postings_eventWrites (U : Unspecified) (s : IndexFields) (vle : List LogEvent) :
    (eventWrites K tick U s vle).filterMap IndexWrite.posting = vle.flatMap (postings K U tick) := by
  induction vle generalizing s with
  | nil => rfl
  | cons le vle ih =>
      rw [eventWrites, List.filterMap_append, ih, List.flatMap_cons]
      refine congrArg (· ++ _) ?_
      by_cases hindexed : (readEvent K U s le).SC_index ≠ NO_INDEX
      · have hsame := readEvent_sameIfIndexed K U s ⟨0, 0, U.topic⟩ le hindexed
        rw [if_pos hindexed, List.filterMap_map]
        rw [hsame] at hindexed ⊢
        rw [postings, indexedEvent, if_neg hindexed]
        exact congrFun (@List.filterMap_eq_map _ _ fun key => (key, tick)) _
      · have hnone : indexedEvent K U le = none := by
          unfold indexedEvent
          dsimp only
          refine if_pos (not_not.mp fun hne => hindexed ?_)
          rwa [← readEvent_sameIfIndexed K U ⟨0, 0, U.topic⟩ s le hne]
        rw [if_neg hindexed, postings, hnone]
        rfl

theorem postings_writes :
    (r.writes K tick).filterMap IndexWrite.posting =
      r.vle.flatMap (postings K r.unspecified tick) := by
  have hrecords : (r.transactionWrites K tick ++ r.specialWrites tick).filterMap
      IndexWrite.posting = [] := by
    refine List.filterMap_eq_nil_iff.mpr fun w hw => ?_
    rcases List.mem_append.mp hw with htx | hspecial
    · obtain ⟨_, _, _, -, -, rfl⟩ := mem_transactionWrites.mp htx
      rfl
    · obtain ⟨_, rfl⟩ := mem_specialWrites.mp hspecial
      rfl
  rw [TickReads.writes, List.filterMap_append, hrecords, List.nil_append, postings_eventWrites]

/-- Ticks that have been indexed once leave the index of the calls of the last loop. -/
theorem indexed_foldl_ticks {first : BitVec 32} (n : Nat) (reads : Nat → TickReads)
    (rest : List IndexWrite) :
    ((((List.range n).flatMap fun i => (reads i).writes K (jobTick first i)) ++ rest).foldl
        IndexStore.apply .empty).indexed =
      InvertedIndex.addAll tickMember tickScore
        (indexTicks K ((List.range n).map fun i => (reads i).call (jobTick first i)))
        (rest.filterMap IndexWrite.posting) := by
  rw [indexed_foldl, List.filterMap_append, InvertedIndex.addAll_append, List.filterMap_flatMap,
    indexTicks_eq, List.flatMap_map]
  simp only [postings_writes]
  rfl

/-- Searches that end before the tick that is being indexed. -/
theorem dbSearchLog_settled {index : LogIndex} (hindex : InvertedIndex.OfDocuments tickMember
      tickScore index) {postings : List (List Char × BitVec 32)}
    {scIndex scLogType fromTick toTick : BitVec 32} (topic : Fin 3 → List Char)
    (habove : ∀ p ∈ postings, toTick < p.2) :
    dbSearchLog (InvertedIndex.addAll tickMember tickScore index postings) scIndex scLogType fromTick
        toTick topic = dbSearchLog index scIndex scLogType fromTick toTick topic := by
  rw [dbSearchLog, dbSearchLog, InvertedIndex.search_addAll_of_above hindex tickMember_injective
    tickScore_injective readTick_tickMember habove]

end writes

/-! ## Searches -/

section searches

variable {K : KangarooTwelve} {first : BitVec 32} {steps : List IndexerStep} {s : Indexer} {n : Nat}
  {reads : Nat → TickReads} {rest : List IndexWrite}

/-- The calls of `indexTick` that are left. -/
def indexCalls (first : BitVec 32) (n : Nat) (reads : Nat → TickReads) : List IndexCall :=
  (List.range n).map fun i => (reads i).call (jobTick first i)

theorem IndexedBy.toNat_jobTick (h : IndexedBy K first steps s n reads rest) {i : Nat}
    (hi : i ≤ n) : (jobTick first i).toNat = first.toNat + i := by
  have hroom := h.room
  rw [jobTick, BitVec.toNat_ofNat, Nat.mod_eq_of_lt (by omega)]

theorem IndexedBy.dbSearchLog_eq (h : IndexedBy K first steps s n reads rest)
    {scIndex scLogType fromTick toTick : BitVec 32} {topic : Fin 3 → List Char}
    (hto : (toTick.toNat : Int) ≤ s.last_indexed_tick) :
    dbSearchLog s.work.store.indexed scIndex scLogType fromTick toTick topic =
      dbSearchLog (indexTicks K (indexCalls first n reads)) scIndex scLogType fromTick toTick
        topic := by
  have hlast := h.marker
  rw [h.store, indexed_foldl_ticks]
  refine dbSearchLog_settled (ofDocuments_indexTicks _) topic fun p hp => ?_
  obtain ⟨x, hx, hposting⟩ := List.mem_filterMap.mp hp
  obtain ⟨r, -, hr⟩ := h.next x hx
  cases x with
  | setIndexedTx key data => cases hposting
  | addIndexer key tick =>
      obtain rfl := Option.some.inj hposting
      obtain rfl := tick_of_mem_writes hr
      rw [BitVec.lt_def, h.toNat_jobTick le_rfl]
      split at hlast
      · omega
      · omega

/-- **Searches while the indexer runs.** After every run, with restarts anywhere, a search that ends at
`last_indexed_tick` or before finds the ticks of its range whose logs, as they were when the tick was
indexed, have an event of the contract, the type and the topics, each tick once and in order. -/
theorem searches_while_indexing (hfirst : first ≠ 0)
    (hok : Runs.Guarded (Indexer.step K) (fun s st => s.Ok K st) (.fresh first) steps) :
    let s := Runs.run (Indexer.step K) (.fresh first) steps
    ∃ (n : Nat) (reads : Nat → TickReads) (rest : List IndexWrite),
      IndexedBy K first steps s n reads rest ∧
        ∀ (scIndex logType fromTick toTick : BitVec 32) (q : Fin 3 → List Char),
          (∀ i, (q i).length = 60) → logType ≠ 0xffffffff → fromTick ≤ toTick →
            (toTick.toNat : Int) ≤ s.last_indexed_tick →
              ∃ ids, bobFindLog s.work.store.indexed scIndex logType q fromTick toTick =
                idsToJson ids ∧ ids.Pairwise (· < ·) ∧
                ∀ tick, tick ∈ ids ↔ (fromTick ≤ tick ∧ tick ≤ toTick) ∧
                  HasEvent K (indexCalls first n reads) tick scIndex logType q ∧
                    ((∀ i, IsWildcard (q i)) → ¬(scIndex = 0 ∧ logType = 0)) := by
  intro s
  obtain ⟨n, reads, rest, h⟩ := (indexed_run hfirst hok).exists_indexedBy
  refine ⟨n, reads, rest, h, fun scIndex logType fromTick toTick q hlen htype hrange hto => ?_⟩
  refine ⟨_, ?_, pairwise_dbSearchLog hlen, fun tick => mem_dbSearchLog hlen htype⟩
  rw [bobFindLog, if_neg (BitVec.not_lt.mpr hrange), if_neg (fun h => h.2 (hlen topic1)),
    if_neg (fun h => h.2 (hlen topic2)), if_neg (fun h => h.2 (hlen topic3)), h.dbSearchLog_eq hto]

/-- Where tick 10 has been indexed, it has been indexed with these reads. -/
theorem IndexedBy.of_interrupted {r : TickReads}
    (h : IndexedBy K 10 (interrupted r) s n reads rest) (hlast : s.last_indexed_tick = 10) :
    n = 1 ∧ reads 0 = r := by
  have hmarker := h.marker
  have hone : n = 1 := by
    split at hmarker
    · omega
    · change s.last_indexed_tick = (10 + n - 1 : Int) at hmarker
      omega
  obtain ⟨v, -, hmem⟩ := h.called 0 (by omega)
  exact ⟨hone, (eq_of_begin_mem_interrupted hmem).2⟩

/-- A transfer from key 5, found in tick 10. -/
theorem searches_while_indexing_transfer :
    let K : KangarooTwelve := ⟨fun _ => 0, fun _ => 0⟩
    let s := Runs.run (Indexer.step K) (.fresh 10) (interrupted oneTransfer)
    let q := ![getIdentityFromPublicKey K 5 false, WILDCARD, WILDCARD]
    ∃ ids, bobFindLog s.work.store.indexed 0 0 q 10 10 = idsToJson ids ∧ 10 ∈ ids := by
  intro K s q
  obtain ⟨n, reads, rest, h, hsearch⟩ := searches_while_indexing (by decide)
    (@guarded_interrupted K oneTransfer)
  have hlast : s.last_indexed_tick = 10 := by decide +kernel
  obtain ⟨rfl, hreads⟩ := h.of_interrupted hlast
  obtain ⟨ids, hjson, -, hmem⟩ := hsearch 0 0 10 10 q (by decide +kernel) (by decide) (by decide)
    (le_of_eq hlast.symm)
  refine ⟨ids, hjson, (hmem 10).mpr ⟨by decide, ?_, ?_⟩⟩
  · refine ⟨(reads 0).call 10, List.mem_cons_self, rfl, oneTransferLog, ?_, ?_⟩
    · rw [hreads]
      exact List.mem_cons_self
    · rw [hreads]
      refine ⟨readEvent K oneTransfer.unspecified ⟨0, 0, fun _ => m256i.zero⟩ oneTransferLog, ?_,
        by decide +kernel, by decide +kernel, by decide +kernel⟩
      rw [indexedEvent]
      exact if_neg (by decide +kernel)
  · exact fun hall => absurd (hall 0) (by decide +kernel)

end searches

/-! ## Records -/

section keys

variable {K : KangarooTwelve} {tick : BitVec 32} {r : TickReads}

theorem underscore_notMem_toDecimal {n : Nat} : '_' ∉ toDecimal n := fun h =>
  isDigit_ne (isDigit_of_mem_toDecimal h) rfl rfl

theorem underscore_notMem_identity (digest : m256i) :
    '_' ∉ getIdentityFromPublicKey K digest true := by
  have hletter : ∀ d < 26, Char.ofNat (d + 97) ≠ '_' := by decide
  rw [identity_lower]
  intro h
  obtain ⟨d, hd, heq⟩ := List.mem_map.mp h
  exact hletter d (lt_of_mem_identityDigits hd) heq

theorem txKey_injective : Function.Injective (txKey K) := fun _ _ h =>
  K12AndKeyUtil.identity_injective (List.append_cancel_left h)

theorem txKey_ne_specialKey {digest : m256i} {k : Fin LOG_TX_PER_TICK} :
    txKey K digest ≠ specialKey tick k := by
  intro h
  refine @underscore_notMem_identity K digest ?_
  rw [List.append_cancel_left h]
  exact List.mem_append_right _ List.mem_cons_self

theorem specialKey_inj {tick' : BitVec 32} {k k' : Fin LOG_TX_PER_TICK}
    (h : specialKey tick k = specialKey tick' k') : tick = tick' ∧ k = k' := by
  obtain ⟨htick, hslot⟩ := append_separator_inj underscore_notMem_toDecimal
    underscore_notMem_toDecimal (List.append_cancel_left h)
  exact ⟨BitVec.eq_of_toNat_eq (toDecimal_injective htick), Fin.ext (toDecimal_injective hslot)⟩

theorem mem_writes_txKey {digest : m256i} {data : IndexedTx} :
    .setIndexedTx (txKey K digest) data ∈ r.writes K tick ↔
      ∃ slot isExecuted, r.Lists tick slot digest ∧ r.executed slot = some isExecuted ∧
        r.record (slot.castLE transactions_le_ranges) isExecuted = data := by
  rw [mem_writes_record, or_iff_left, mem_transactionWrites]
  · constructor
    · rintro ⟨slot, digest', isExecuted, hlists, hexecuted, heq⟩
      obtain ⟨hkey, hdata⟩ := IndexWrite.setIndexedTx.inj heq
      obtain rfl := txKey_injective hkey
      exact ⟨slot, isExecuted, hlists, hexecuted, hdata⟩
    · rintro ⟨slot, isExecuted, hlists, hexecuted, rfl⟩
      exact ⟨slot, digest, isExecuted, hlists, hexecuted, rfl⟩
  · intro hspecial
    obtain ⟨k, heq⟩ := mem_specialWrites.mp hspecial
    exact txKey_ne_specialKey (IndexWrite.setIndexedTx.inj heq).1.symm

theorem mem_writes_specialKey {tick' : BitVec 32} {k : Fin 5} {data : IndexedTx} :
    .setIndexedTx (specialKey tick' (specialEvent k)) data ∈ r.writes K tick ↔
      tick' = tick ∧ r.record (specialEvent k) true = data := by
  rw [mem_writes_record, or_iff_right, mem_specialWrites]
  · constructor
    · rintro ⟨k', heq⟩
      obtain ⟨hkey, hdata⟩ := IndexWrite.setIndexedTx.inj heq
      obtain ⟨rfl, hk⟩ := specialKey_inj hkey
      exact ⟨rfl, hk ▸ hdata⟩
    · rintro ⟨rfl, rfl⟩
      exact ⟨k, rfl⟩
  · intro htx
    obtain ⟨_, _, _, -, -, heq⟩ := mem_transactionWrites.mp htx
    exact txKey_ne_specialKey (IndexWrite.setIndexedTx.inj heq).1

/-! ### The last write counts -/

variable {key : List Char} {ws : List IndexWrite}

theorem itx_foldl_of_notMem (h : ∀ data, .setIndexedTx key data ∉ ws) (s : IndexStore) :
    (ws.foldl IndexStore.apply s).itx key = s.itx key := by
  induction ws generalizing s with
  | nil => rfl
  | cons w ws ih =>
      rw [List.foldl_cons, ih fun data hdata => h data (List.mem_cons_of_mem w hdata)]
      cases w with
      | setIndexedTx key' data =>
          have hne : key ≠ key' := fun heq => h data (heq ▸ List.mem_cons_self)
          exact Function.update_of_ne hne _ _
      | addIndexer key' tick => rfl

theorem itx_foldl_of_mem {data : IndexedTx} (hmem : .setIndexedTx key data ∈ ws)
    (hall : ∀ data', .setIndexedTx key data' ∈ ws → data' = data) (s : IndexStore) :
    (ws.foldl IndexStore.apply s).itx key = some data := by
  induction ws generalizing s with
  | nil => cases hmem
  | cons w ws ih =>
      have hrest := fun data' hdata' => hall data' (List.mem_cons_of_mem w hdata')
      rw [List.foldl_cons]
      by_cases hlater : .setIndexedTx key data ∈ ws
      · exact ih hlater hrest _
      · obtain rfl := (List.mem_cons.mp hmem).resolve_right hlater
        rw [itx_foldl_of_notMem fun data' hdata' => hlater (hrest data' hdata' ▸ hdata')]
        exact Function.update_self _ _ _

end keys

section records

variable {K : KangarooTwelve} {first : BitVec 32} {steps : List IndexerStep} {s : Indexer} {n : Nat}
  {reads : Nat → TickReads} {rest : List IndexWrite}

/-- A slot with the transaction, in a tick that has been indexed or in the one that is being indexed. -/
def ListedAt (first : BitVec 32) (steps : List IndexerStep) (n : Nat) (reads : Nat → TickReads)
    (digest : m256i) (i : Nat) (slot : Fin NUMBER_OF_TRANSACTIONS_PER_TICK) : Prop :=
  (i < n ∧ (reads i).Lists (jobTick first i) slot digest) ∨
    (i = n ∧ ∃ r, Called steps (jobTick first n) r ∧ r.Lists (jobTick first n) slot digest)

/-- Where a write that is in the store was made. -/
theorem IndexedBy.mem_store (h : IndexedBy K first steps s n reads rest) {x : IndexWrite}
    (hx : x ∈ ((List.range n).flatMap fun i => (reads i).writes K (jobTick first i)) ++ rest) :
    (∃ i < n, x ∈ (reads i).writes K (jobTick first i)) ∨
      ∃ r, Called steps (jobTick first n) r ∧ x ∈ r.writes K (jobTick first n) := by
  rcases List.mem_append.mp hx with hdone | hrest
  · obtain ⟨i, hi, hmem⟩ := List.mem_flatMap.mp hdone
    exact .inl ⟨i, List.mem_range.mp hi, hmem⟩
  · exact .inr (h.next x hrest)

/-- A record is found if it is written for one of the ticks, and no other is. -/
theorem IndexedBy.itx_eq (h : IndexedBy K first steps s n reads rest) {key : List Char}
    {data : IndexedTx} {i : Nat} (hi : i < n)
    (hmem : .setIndexedTx key data ∈ (reads i).writes K (jobTick first i))
    (hdone : ∀ j < n, ∀ data', .setIndexedTx key data' ∈ (reads j).writes K (jobTick first j) →
      data' = data)
    (hnext : ∀ r data', Called steps (jobTick first n) r →
      .setIndexedTx key data' ∉ r.writes K (jobTick first n)) :
    s.work.store.itx key = some data := by
  rw [h.store]
  refine itx_foldl_of_mem ?_ (fun data' hdata' => ?_) _
  · exact List.mem_append_left _ (List.mem_flatMap.mpr ⟨i, List.mem_range.mpr hi, hmem⟩)
  · rcases h.mem_store hdata' with ⟨j, hj, hmem'⟩ | ⟨r, hr, hmem'⟩
    · exact hdone j hj data' hmem'
    · exact absurd hmem' (hnext r data' hr)

theorem IndexedBy.itx_eq_none (h : IndexedBy K first steps s n reads rest) {key : List Char}
    (hdone : ∀ j < n, ∀ data, .setIndexedTx key data ∉ (reads j).writes K (jobTick first j))
    (hnext : ∀ r data, Called steps (jobTick first n) r →
      .setIndexedTx key data ∉ r.writes K (jobTick first n)) :
    s.work.store.itx key = none := by
  rw [h.store, itx_foldl_of_notMem]
  · rfl
  · intro data hdata
    rcases h.mem_store hdata with ⟨j, hj, hmem⟩ | ⟨r, hr, hmem⟩
    · exact hdone j hj data hmem
    · exact hnext r data hr hmem

/-- A transaction that is in one slot only. -/
theorem IndexedBy.dbGetIndexedTx_listed (h : IndexedBy K first steps s n reads rest) {i : Nat}
    (hi : i < n) {slot : Fin NUMBER_OF_TRANSACTIONS_PER_TICK} {digest : m256i}
    (hlists : (reads i).Lists (jobTick first i) slot digest)
    (honce : ∀ j slot', ListedAt first steps n reads digest j slot' → j = i ∧ slot' = slot) :
    dbGetIndexedTx s.work.store (getIdentityFromPublicKey K digest true) =
      ((reads i).executed slot).map ((reads i).record (slot.castLE transactions_le_ranges)) := by
  have hnext : ∀ r data, Called steps (jobTick first n) r →
      .setIndexedTx (txKey K digest) data ∉ r.writes K (jobTick first n) := by
    intro r data hr hmem
    obtain ⟨slot', _, hlists', -, -⟩ := mem_writes_txKey.mp hmem
    have hsame := (honce n slot' (.inr ⟨rfl, r, hr, hlists'⟩)).1
    omega
  cases hexecuted : (reads i).executed slot with
  | none =>
      refine h.itx_eq_none (fun j hj data hmem => ?_) hnext
      obtain ⟨slot', isExecuted, hlists', hexecuted', -⟩ := mem_writes_txKey.mp hmem
      obtain ⟨rfl, rfl⟩ := honce j slot' (.inl ⟨hj, hlists'⟩)
      rw [hexecuted] at hexecuted'
      cases hexecuted'
  | some isExecuted =>
      refine h.itx_eq hi (mem_writes_txKey.mpr ⟨slot, isExecuted, hlists, hexecuted, rfl⟩)
        (fun j hj data hmem => ?_) hnext
      obtain ⟨slot', isExecuted', hlists', hexecuted', rfl⟩ := mem_writes_txKey.mp hmem
      obtain ⟨rfl, rfl⟩ := honce j slot' (.inl ⟨hj, hlists'⟩)
      rw [hexecuted] at hexecuted'
      rw [Option.some.inj hexecuted']

theorem IndexedBy.dbGetIndexedTx_unlisted (h : IndexedBy K first steps s n reads rest)
    {digest : m256i} (hnone : ∀ j slot, ¬ListedAt first steps n reads digest j slot) :
    dbGetIndexedTx s.work.store (getIdentityFromPublicKey K digest true) = none := by
  refine h.itx_eq_none (fun j hj data hmem => ?_) fun r data hr hmem => ?_
  · obtain ⟨slot, _, hlists, -, -⟩ := mem_writes_txKey.mp hmem
    exact hnone j slot (.inl ⟨hj, hlists⟩)
  · obtain ⟨slot, _, hlists, -, -⟩ := mem_writes_txKey.mp hmem
    exact hnone n slot (.inr ⟨rfl, r, hr, hlists⟩)

theorem IndexedBy.dbGetIndexedTx_special (h : IndexedBy K first steps s n reads rest) {i : Nat}
    (hi : i < n) (k : Fin 5) :
    dbGetIndexedTx s.work.store
        (toDecimal (jobTick first i).toNat ++ '_' :: toDecimal (specialEvent k).val) =
      some ((reads i).record (specialEvent k) true) := by
  have hinj : ∀ j ≤ n, jobTick first i = jobTick first j → i = j := by
    intro j hj heq
    have hsame := congrArg BitVec.toNat heq
    rw [h.toNat_jobTick hi.le, h.toNat_jobTick hj] at hsame
    omega
  refine h.itx_eq hi (mem_writes_specialKey.mpr ⟨rfl, rfl⟩) (fun j hj data hmem => ?_)
    fun r data _ hmem => ?_
  · obtain ⟨htick, rfl⟩ := mem_writes_specialKey.mp hmem
    rw [hinj j hj.le htick]
  · obtain ⟨htick, -⟩ := mem_writes_specialKey.mp hmem
    have hsame := hinj n le_rfl htick
    omega

/-- **Transactions while the indexer runs.** After every run, a transaction that is listed in one slot
of one tick is found with the index, the log range and the time of that slot, and with whether its first
event is its own transfer, or it is not found if it is spam; a transaction that is not listed is not
found; and the special events of every tick up to `last_indexed_tick` are found under their slots. -/
theorem transactions_while_indexing (hfirst : first ≠ 0)
    (hok : Runs.Guarded (Indexer.step K) (fun s st => s.Ok K st) (.fresh first) steps) :
    let s := Runs.run (Indexer.step K) (.fresh first) steps
    ∃ n reads rest, IndexedBy K first steps s n reads rest ∧
      (∀ i < n, ∀ slot digest, (reads i).Lists (jobTick first i) slot digest →
        (∀ j slot', ListedAt first steps n reads digest j slot' → j = i ∧ slot' = slot) →
          dbGetIndexedTx s.work.store (getIdentityFromPublicKey K digest true) =
            ((reads i).executed slot).map
              ((reads i).record (slot.castLE transactions_le_ranges))) ∧
      (∀ digest, (∀ j slot, ¬ListedAt first steps n reads digest j slot) →
        dbGetIndexedTx s.work.store (getIdentityFromPublicKey K digest true) = none) ∧
      ∀ i < n, ∀ k : Fin 5,
        dbGetIndexedTx s.work.store
            (toDecimal (jobTick first i).toNat ++ '_' :: toDecimal (specialEvent k).val) =
          some ((reads i).record (specialEvent k) true) := by
  intro s
  obtain ⟨n, reads, rest, h⟩ := (indexed_run hfirst hok).exists_indexedBy
  exact ⟨n, reads, rest, h, fun i hi _ _ hlists honce => h.dbGetIndexedTx_listed hi hlists honce,
    fun _ hnone => h.dbGetIndexedTx_unlisted hnone, fun i hi k => h.dbGetIndexedTx_special hi k⟩

/-- The transaction of tick 10, found with its log and as executed, and the first of the special
events. -/
theorem transactions_while_indexing_transfer :
    let K : KangarooTwelve := ⟨fun _ => 0, fun _ => 0⟩
    let s := Runs.run (Indexer.step K) (.fresh 10) (interrupted oneTransfer)
    dbGetIndexedTx s.work.store (getIdentityFromPublicKey K 1 true) =
        some ⟨0, true, 3, 3, oneTransfer.timestamp⟩ ∧
      dbGetIndexedTx s.work.store "10_1024".toList =
        some (oneTransfer.record SC_INITIALIZE_TX true) := by
  intro K s
  obtain ⟨n, reads, rest, h, hlisted, -, hspecial⟩ := transactions_while_indexing (by decide)
    (@guarded_interrupted K oneTransfer)
  have hlast : s.last_indexed_tick = 10 := by decide +kernel
  obtain ⟨rfl, hreads⟩ := h.of_interrupted hlast
  have hslot : ∀ {slot : Fin NUMBER_OF_TRANSACTIONS_PER_TICK} {tick : BitVec 32},
      oneTransfer.Lists tick slot 1 → slot = ⟨0, by decide⟩ := by
    intro slot tick hlists
    by_contra hne
    have hzero : oneTransfer.td.transactionDigests slot = 0 :=
      if_neg fun hval => hne (Fin.ext hval)
    exact absurd (hzero.symm.trans hlists.2.1) (by decide)
  have honce : ∀ j slot', ListedAt 10 (interrupted oneTransfer) 1 reads 1 j slot' →
      j = 0 ∧ slot' = ⟨0, by decide⟩ := by
    rintro j slot' (⟨hj, hlists⟩ | ⟨rfl, r, ⟨v, hv, hbegin⟩, -⟩)
    · obtain rfl : j = 0 := by omega
      rw [hreads] at hlists
      exact ⟨rfl, hslot hlists⟩
    · -- tick 11 has not been verified
      rw [(eq_of_begin_mem_interrupted hbegin).1] at hv
      exact absurd hv (by decide)
  have hfound := hlisted 0 (by decide) ⟨0, by decide⟩ 1
    (by rw [hreads]; exact ⟨rfl, rfl, by decide⟩) honce
  have hspecial' := hspecial 0 (by decide) 0
  rw [hreads] at hfound hspecial'
  have hexecuted : oneTransfer.executed ⟨0, by decide⟩ = some true := by decide +kernel
  rw [hexecuted] at hfound
  exact ⟨hfound, hspecial'⟩

end records

end QubicBob
