import QubicBob.Storage.LogStore
import QubicBob.Storage.TickStore
import QubicBob.Lib.InvertedIndex
import Mathlib.Data.Char
import Mathlib.Data.List.Lex
import Mathlib.Data.Fin.VecNotation

set_option autoImplicit false

/-! # Indexing the log events of a tick

The last loop of `indexTick`. Each event is read into an SC index, a log type and three topics
(`readEvent`), by one layout for each type of event; unless the SC index is still the `0xffffffff`
it was set to, the tick is added to the sorted sets of the event: one for the contract, one for the
log type, and one for each way to ask for some of the topics that are not zero.

The keys are built as the source builds them; `namesKey_mem_indexKeys` says which of the keys of a
search an event is under.
-/

namespace QubicBob

/-! ## Strings -/

/-- `std::to_string`. -/
def toDecimal (n : Nat) : List Char := Nat.toDigits 10 n

theorem toDecimal_injective : Function.Injective toDecimal := by
  intro a b h
  have hparsed := congrArg (fun digits => Nat.ofDigitChars 10 digits 0) h
  simpa [toDecimal] using hparsed

theorem isDigit_of_mem_toDecimal {n : Nat} {c : Char} (h : c ∈ toDecimal n) : c.isDigit = true :=
  Nat.isDigit_of_mem_toDigits (by decide) (by decide) h

theorem colon_notMem_toDecimal {n : Nat} : ':' ∉ toDecimal n := by
  intro h
  exact absurd (isDigit_of_mem_toDecimal h) (by decide)

/-- What stands before the first separator, and after it. -/
theorem append_separator_inj {α : Type} {sep : α} {a b x y : List α} (ha : sep ∉ a) (hb : sep ∉ b)
    (h : a ++ sep :: x = b ++ sep :: y) : a = b ∧ x = y := by
  induction a generalizing b with
  | nil =>
      cases b with
      | nil => exact ⟨rfl, (List.cons.inj h).2⟩
      | cons d b => exact absurd (List.mem_cons.mpr (Or.inl (List.cons.inj h).1)) hb
  | cons c a ih =>
      cases b with
      | nil => exact absurd (List.mem_cons.mpr (Or.inl (List.cons.inj h).1.symm)) ha
      | cons d b =>
          obtain ⟨hcd, hrest⟩ := List.cons.inj h
          obtain ⟨hab, hxy⟩ := ih (fun hm => ha (List.mem_cons_of_mem _ hm))
            (fun hm => hb (List.mem_cons_of_mem _ hm)) hrest
          exact ⟨by rw [hcd, hab], hxy⟩

/-! ## Reading an event -/

/-- The variables the loop fills. -/
structure IndexFields where
  SC_index : BitVec 32
  logType : BitVec 32
  topic : Fin 3 → m256i

/-- What the language leaves open: the topics before the first event, and the four bytes
`contractIndex` is read from when the body of a deduction ends before them. -/
structure Unspecified where
  topic : Fin 3 → m256i
  contractIndex : LogEvent → BitVec 32

/-- Not to be indexed. -/
def NO_INDEX : BitVec 32 := 0xffffffff

/-- `m256i(0, 0, 0, ull3)`. -/
def m256i.ofLast (ull3 : Nat) : m256i := BitVec.ofNat 256 (ull3 * 2 ^ 192)

/-- The hash of the 39 bytes of an issuer and an asset name. -/
def assetHash (K : KangarooTwelve) (issuer : m256i) (name : BitVec 56) : m256i :=
  K.hash32 (issuer.bytes ++ leBytes 7 name)

/-- Up to 32 bytes of the body from `offset` on, the rest zero. -/
def LogEvent.topicAt (le : LogEvent) (offset : Nat) : m256i :=
  if offset < le.getLogSize then le.field offset (min 32 (le.getLogSize - offset)) else m256i.zero

/-- The `switch`. `logType` and the topics keep their values when a case does not set them. -/
def readEvent (K : KangarooTwelve) (U : Unspecified) (s : IndexFields) (le : LogEvent) :
    IndexFields :=
  let type := le.getType
  let logType := BitVec.ofNat 32 type
  if type = QU_TRANSFER then
    let e := le.quTransfer
    ⟨0, logType, ![e.sourcePublicKey, e.destinationPublicKey, m256i.zero]⟩
  else if type = ASSET_ISSUANCE then
    -- all of the body behind the issuer
    ⟨0, logType, ![le.assetIssuance.issuerPublicKey, le.field 32 31, m256i.zero]⟩
  else if type = ASSET_OWNERSHIP_CHANGE ∨ type = ASSET_POSSESSION_CHANGE then
    let e := le.assetOwnershipChange
    ⟨0, logType, ![e.sourcePublicKey, e.destinationPublicKey, assetHash K e.issuerPublicKey e.name]⟩
  else if type = ASSET_OWNERSHIP_MANAGING_CONTRACT_CHANGE then
    let e := le.assetOwnershipManagingContractChange
    ⟨0, logType, ![e.ownershipPublicKey, assetHash K e.issuerPublicKey e.assetName, m256i.zero]⟩
  else if type = ASSET_POSSESSION_MANAGING_CONTRACT_CHANGE then
    -- the owner here too, not the possessor
    let e := le.assetPossessionManagingContractChange
    ⟨0, logType, ![e.ownershipPublicKey, assetHash K e.issuerPublicKey e.assetName, m256i.zero]⟩
  else if type = BURNING then
    let contractIndexBurnedFor : BitVec 32 := le.field 40 4
    ⟨0, logType, ![le.burning.sourcePublicKey, m256i.ofLast contractIndexBurnedFor.toNat,
      m256i.zero]⟩
  else if type = CONTRACT_RESERVE_DEDUCTION then
    let contractIndex := if 20 ≤ le.getLogSize then le.field 16 4 else U.contractIndex le
    ⟨0, logType, ![m256i.ofLast contractIndex.toNat, m256i.zero, m256i.zero]⟩
  else if le.isSCType then
    if 8 ≤ le.getLogSize then
      if 100000 ≤ (le.field 4 4 : BitVec 32).toNat then
        ⟨le.field 0 4, le.field 4 4, ![le.topicAt 8, le.topicAt 40, le.topicAt 72]⟩
      else ⟨NO_INDEX, le.field 4 4, s.topic⟩
    else ⟨NO_INDEX, s.logType, s.topic⟩
  -- statistics, dust burning, custom messages and unknown types
  else ⟨NO_INDEX, s.logType, s.topic⟩

/-- The fields of an event that is indexed. -/
def indexedEvent (K : KangarooTwelve) (U : Unspecified) (le : LogEvent) : Option IndexFields :=
  let e := readEvent K U ⟨0, 0, U.topic⟩ le
  if e.SC_index = NO_INDEX then none else some e

/-- Two readings of an event are the same, if it is indexed at all. -/
def IndexFields.SameIfIndexed (e e' : IndexFields) : Prop := e.SC_index ≠ NO_INDEX → e = e'

theorem IndexFields.SameIfIndexed.refl (e : IndexFields) : e.SameIfIndexed e := fun _ => rfl

theorem IndexFields.SameIfIndexed.ite {p : Prop} [Decidable p] {a a' b b' : IndexFields}
    (ha : a.SameIfIndexed a') (hb : b.SameIfIndexed b') :
    (if p then a else b).SameIfIndexed (if p then a' else b') := by
  by_cases h : p
  · rwa [if_pos h, if_pos h]
  · rwa [if_neg h, if_neg h]

theorem IndexFields.sameIfIndexed_of_noIndex {e e' : IndexFields} (h : e.SC_index = NO_INDEX) :
    e.SameIfIndexed e' := fun hne => absurd h hne

/-- Nothing of the events before is left in the fields of an event that is indexed. -/
theorem readEvent_sameIfIndexed (K : KangarooTwelve) (U : Unspecified) (s s' : IndexFields)
    (le : LogEvent) : (readEvent K U s le).SameIfIndexed (readEvent K U s' le) := by
  unfold readEvent
  refine .ite (.refl _) (.ite (.refl _) (.ite (.refl _) (.ite (.refl _) (.ite (.refl _)
    (.ite (.refl _) (.ite (.refl _) (.ite (.ite (.ite (.refl _) ?_) ?_) ?_)))))))
  · exact IndexFields.sameIfIndexed_of_noIndex rfl
  · exact IndexFields.sameIfIndexed_of_noIndex rfl
  · exact IndexFields.sameIfIndexed_of_noIndex rfl

/-! ## The keys -/

/-- The sorted sets of the index, by key: decimal ticks with the tick as their score. A `double`
holds every 32-bit value. -/
abbrev LogIndex := List Char → SortedSet (List Char) Nat

def tickMember (tick : BitVec 32) : List Char := toDecimal tick.toNat
def tickScore (tick : BitVec 32) : Nat := tick.toNat

def dbAddIndexer (index : LogIndex) (key : List Char) (tick : BitVec 32) : LogIndex :=
  InvertedIndex.add tickMember tickScore index key tick

def ANY : List Char := ['A', 'N', 'Y']

/-- `"indexed:" + std::to_string(SC_index)`. -/
def contractKey (SC_index : BitVec 32) : List Char := "indexed:".toList ++ toDecimal SC_index.toNat

def typeKey (SC_index logType : BitVec 32) : List Char :=
  contractKey SC_index ++ ':' :: toDecimal logType.toNat

/-- One round of the loop over the topics, on the key and `isSet`. -/
def addTopic (K : KangarooTwelve) (e : IndexFields) (bit : Nat) (acc : List Char × Nat) (j : Fin 3) :
    List Char × Nat :=
  let separator := if j.val = 2 then [] else [':']
  if e.topic j = m256i.zero then (acc.1 ++ ANY ++ separator, acc.2)
  else if bit.testBit j.val then
    (acc.1 ++ getIdentityFromPublicKey K (e.topic j) true ++ separator, acc.2 + 1)
  else (acc.1 ++ ANY ++ separator, acc.2)

def topicsKey (K : KangarooTwelve) (e : IndexFields) (bit : Nat) : List Char × Nat :=
  (List.finRange 3).foldl (addTopic K e bit) (typeKey e.SC_index e.logType ++ [':'], 0)

/-- The keys of an event, in the order in which the tick is added to them. -/
def indexKeys (K : KangarooTwelve) (e : IndexFields) : List (List Char) :=
  (if ¬(e.SC_index = 0 ∧ e.logType = 0) then
      (if e.SC_index ≠ 0 then [contractKey e.SC_index] else []) ++ [typeKey e.SC_index e.logType]
    else []) ++
  -- the case without topics is handled above
  (List.range' 1 7).filterMap (fun bit =>
    if (topicsKey K e bit).2 ≠ 0 then some (topicsKey K e bit).1 else none)

/-- The loop over the events of a tick. -/
def indexEvents (K : KangarooTwelve) (U : Unspecified) (tick : BitVec 32) :
    IndexFields → List LogEvent → LogIndex → LogIndex
  | _, [], index => index
  | s, le :: vle, index =>
      let e := readEvent K U s le
      if e.SC_index ≠ NO_INDEX then
        indexEvents K U tick e vle
          ((indexKeys K e).foldl (fun index key => dbAddIndexer index key tick) index)
      else indexEvents K U tick e vle index

/-- A call of `indexTick`: the tick and its logs. -/
structure IndexCall where
  tick : BitVec 32
  vle : List LogEvent
  unspecified : Unspecified

/-- The logs of the tick in the database at the time. -/
def IndexCall.ofTick (K : KangarooTwelve) (db : LogDB) (gCurrentProcessingEpoch : Nat)
    (tick : BitVec 32) (unspecified : Unspecified) : IndexCall :=
  ⟨tick, (dbGetLogsByTickRange K db gCurrentProcessingEpoch tick.toNat tick.toNat).1, unspecified⟩

/-- They are self-checked logs of the tick. -/
theorem IndexCall.ofTick_logs {K : KangarooTwelve} {db : LogDB} {gCurrentProcessingEpoch : Nat}
    {tick : BitVec 32} {unspecified : Unspecified} {le : LogEvent}
    (h : le ∈ (IndexCall.ofTick K db gCurrentProcessingEpoch tick unspecified).vle) :
    le.getTick = tick ∧ le.selfCheck K gCurrentProcessingEpoch = true := by
  obtain ⟨hrange, hcheck⟩ := accepted_of_mem_batch h
  exact ⟨BitVec.eq_of_toNat_eq (le_antisymm hrange.2 hrange.1), hcheck⟩

def indexTick (K : KangarooTwelve) (index : LogIndex) (call : IndexCall) : LogIndex :=
  indexEvents K call.unspecified call.tick ⟨0, 0, call.unspecified.topic⟩ call.vle index

/-- The index after a run of calls. -/
def indexTicks (K : KangarooTwelve) (calls : List IndexCall) : LogIndex :=
  calls.foldl (indexTick K) (fun _ => SortedSet.empty)

/-! ## The keys of a search -/

/-- The names of the topics that are not zero. -/
def topicNames (K : KangarooTwelve) (e : IndexFields) : Fin 3 → Option (List Char) := fun j =>
  if e.topic j = m256i.zero then none else some (getIdentityFromPublicKey K (e.topic j) true)

def keyPart (name : Option (List Char)) : List Char := name.getD ANY

/-- The key of a contract, a log type and some names of topics. -/
def namesKey (SC_index logType : BitVec 32) (names : Fin 3 → Option (List Char)) : List Char :=
  typeKey SC_index logType ++ ':' :: (keyPart (names topic1) ++ ':' ::
    (keyPart (names topic2) ++ ':' :: keyPart (names topic3)))

/-- The names of the topics among some bits. -/
def namesOfBits (K : KangarooTwelve) (e : IndexFields) (bit : Nat) : Fin 3 → Option (List Char) :=
  InvertedIndex.restrict (topicNames K e) (fun j => bit.testBit j.val)

section keys

variable {K : KangarooTwelve} {e : IndexFields} {bit : Nat}

theorem addTopic_eq (acc : List Char × Nat) (j : Fin 3) :
    addTopic K e bit acc j =
      (acc.1 ++ keyPart (namesOfBits K e bit j) ++ (if j.val = 2 then [] else [':']),
        acc.2 + if (namesOfBits K e bit j).isSome then 1 else 0) := by
  unfold addTopic namesOfBits InvertedIndex.restrict topicNames
  by_cases hzero : e.topic j = m256i.zero
  · simp [hzero, keyPart]
  · by_cases hbit : bit.testBit j.val = true
    · simp [hzero, hbit, keyPart]
    · simp [hzero, hbit, keyPart]

theorem topicsKey_key :
    (topicsKey K e bit).1 = namesKey e.SC_index e.logType (namesOfBits K e bit) := by
  have hrange : List.finRange 3 = [0, 1, 2] := rfl
  unfold topicsKey namesKey topic1 topic2 topic3
  rw [hrange, List.foldl_cons, List.foldl_cons, List.foldl_cons, List.foldl_nil, addTopic_eq,
    addTopic_eq, addTopic_eq]
  simp

theorem topicsKey_isSet :
    (topicsKey K e bit).2 ≠ 0 ↔ ∃ j, (namesOfBits K e bit j).isSome = true := by
  have hrange : List.finRange 3 = [0, 1, 2] := rfl
  unfold topicsKey
  rw [hrange, List.foldl_cons, List.foldl_cons, List.foldl_cons, List.foldl_nil, addTopic_eq,
    addTopic_eq, addTopic_eq, Fin.exists_fin_succ, Fin.exists_fin_two]
  dsimp only
  change _ ↔ (namesOfBits K e bit 0).isSome = true ∨ (namesOfBits K e bit 1).isSome = true ∨
    (namesOfBits K e bit 2).isSome = true
  cases (namesOfBits K e bit 0).isSome <;> cases (namesOfBits K e bit 1).isSome <;>
    cases (namesOfBits K e bit 2).isSome <;> decide

/-- The values of `bit` are the sets of topics with a member. -/
theorem exists_bit (S : Fin 3 → Bool) (h : ∃ j, S j = true) :
    ∃ bit ∈ List.range' 1 7, ∀ j : Fin 3, bit.testBit j.val = S j := by
  revert S
  decide

/-! ### No two keys are the same -/

/-- A name of 60 characters that cannot be taken for `ANY`. -/
def PlainName (name : List Char) : Prop := name.length = 60 ∧ 'A' ∉ name

def PlainNames (names : Fin 3 → Option (List Char)) : Prop :=
  ∀ j name, names j = some name → PlainName name

theorem any_append_ne {name x y : List Char} (hname : PlainName name) : ANY ++ x ≠ name ++ y := by
  cases name with
  | nil => exact absurd hname.1 (by decide)
  | cons c name =>
      intro h
      exact hname.2 (List.mem_cons.mpr (Or.inl (List.cons.inj h).1))

theorem keyPart_append_inj {p p' : Option (List Char)} (hp : ∀ name, p = some name → PlainName name)
    (hp' : ∀ name, p' = some name → PlainName name) {x y : List Char}
    (h : keyPart p ++ x = keyPart p' ++ y) : p = p' ∧ x = y := by
  cases p with
  | none =>
      cases p' with
      | none => exact ⟨rfl, List.append_cancel_left h⟩
      | some name' => exact absurd h (any_append_ne (hp' name' rfl))
  | some name =>
      cases p' with
      | none => exact absurd h.symm (any_append_ne (hp name rfl))
      | some name' =>
          obtain ⟨hname, hxy⟩ := List.append_inj h ((hp name rfl).1.trans (hp' name' rfl).1.symm)
          exact ⟨congrArg some hname, hxy⟩

theorem typeKey_append_inj {sc sc' lt lt' : BitVec 32} {x y : List Char}
    (h : typeKey sc lt ++ ':' :: x = typeKey sc' lt' ++ ':' :: y) :
    sc = sc' ∧ lt = lt' ∧ x = y := by
  unfold typeKey contractKey at h
  simp only [List.append_assoc, List.cons_append] at h
  obtain ⟨hsc, hrest⟩ := append_separator_inj colon_notMem_toDecimal colon_notMem_toDecimal
    (List.append_cancel_left h)
  obtain ⟨hlt, hxy⟩ := append_separator_inj colon_notMem_toDecimal colon_notMem_toDecimal hrest
  exact ⟨BitVec.eq_of_toNat_eq (toDecimal_injective hsc),
    BitVec.eq_of_toNat_eq (toDecimal_injective hlt), hxy⟩

theorem namesKey_inj {sc sc' lt lt' : BitVec 32} {names names' : Fin 3 → Option (List Char)}
    (hn : PlainNames names) (hn' : PlainNames names')
    (h : namesKey sc lt names = namesKey sc' lt' names') :
    sc = sc' ∧ lt = lt' ∧ names = names' := by
  obtain ⟨hsc, hlt, hparts⟩ := typeKey_append_inj h
  obtain ⟨h₀, hparts⟩ := keyPart_append_inj (hn topic1) (hn' topic1) hparts
  obtain ⟨h₁, hparts⟩ := keyPart_append_inj (hn topic2) (hn' topic2) (List.cons.inj hparts).2
  have hlast : keyPart (names topic3) ++ [] = keyPart (names' topic3) ++ [] := by
    rw [(List.cons.inj hparts).2]
  have h₂ := (keyPart_append_inj (hn topic3) (hn' topic3) hlast).1
  refine ⟨hsc, hlt, funext fun j => ?_⟩
  match j with
  | 0 => exact h₀
  | 1 => exact h₁
  | 2 => exact h₂

theorem count_contractKey {sc : BitVec 32} : (contractKey sc).count ':' = 1 := by
  have hprefix : "indexed:".toList.count ':' = 1 := by decide
  unfold contractKey
  rw [List.count_append, List.count_eq_zero_of_not_mem colon_notMem_toDecimal, hprefix]

theorem count_typeKey {sc lt : BitVec 32} : (typeKey sc lt).count ':' = 2 := by
  unfold typeKey
  rw [List.count_append, List.count_cons_self,
    List.count_eq_zero_of_not_mem colon_notMem_toDecimal, count_contractKey]

/-- The keys of topics have more separators than the others. -/
theorem three_le_count_namesKey {sc lt : BitVec 32} {names : Fin 3 → Option (List Char)} :
    3 ≤ (namesKey sc lt names).count ':' := by
  unfold namesKey
  rw [List.count_append, List.count_cons_self, count_typeKey]
  omega

/-! ### The keys of an event -/

/-- An identity has 60 letters, all lower case. -/
theorem plainName_identity (publicKey : m256i) :
    PlainName (getIdentityFromPublicKey K publicKey true) := by
  have hletter : ∀ d < 26, Char.ofNat (d + 97) ≠ 'A' := by decide
  unfold getIdentityFromPublicKey
  dsimp only
  refine ⟨?_, fun hA => ?_⟩
  · simp [length_base26]
  · obtain ⟨d, hd, heq⟩ := List.mem_map.mp hA
    refine hletter d ?_ heq
    rcases List.mem_append.mp hd with hd | hd
    · obtain ⟨i, _, hd⟩ := List.mem_flatMap.mp hd
      exact lt_of_mem_base26 hd
    · exact lt_of_mem_base26 hd

theorem plainNames_namesOfBits : PlainNames (namesOfBits K e bit) := by
  intro j name h
  unfold namesOfBits InvertedIndex.restrict topicNames at h
  split at h
  · split at h
    · cases h
    · rw [← Option.some.inj h]
      exact plainName_identity _
  · cases h

/-- An event is under the key of a search for names exactly if the contract and the type are its own
and the names are names of its topics. -/
theorem namesKey_mem_indexKeys {sc lt : BitVec 32} {names : Fin 3 → Option (List Char)}
    (hplain : PlainNames names) (hsome : ∃ j, (names j).isSome = true) :
    namesKey sc lt names ∈ indexKeys K e ↔
      e.SC_index = sc ∧ e.logType = lt ∧ InvertedIndex.Matches names (topicNames K e) := by
  have hcount : 3 ≤ (namesKey sc lt names).count ':' := three_le_count_namesKey
  unfold indexKeys
  rw [List.mem_append]
  constructor
  · rintro (hshort | htopics)
    · -- a key without topics
      exfalso
      split at hshort
      · rcases List.mem_append.mp hshort with hshort | hshort
        · split at hshort
          · rw [List.mem_singleton.mp hshort, count_contractKey] at hcount
            omega
          · exact absurd hshort List.not_mem_nil
        · rw [List.mem_singleton.mp hshort, count_typeKey] at hcount
          omega
      · exact absurd hshort List.not_mem_nil
    · obtain ⟨bit, _, hkey⟩ := List.mem_filterMap.mp htopics
      split at hkey
      · rw [topicsKey_key] at hkey
        obtain ⟨hsc, hlt, hnames⟩ := namesKey_inj plainNames_namesOfBits hplain
          (Option.some.inj hkey)
        exact ⟨hsc, hlt, InvertedIndex.exists_restrict_eq_iff.mp ⟨_, hnames⟩⟩
      · cases hkey
  · rintro ⟨rfl, rfl, hmatch⟩
    obtain ⟨S, hS⟩ := InvertedIndex.exists_restrict_eq_iff.mpr hmatch
    obtain ⟨j, hj⟩ := hsome
    have hjS : S j = true := by
      rw [← hS] at hj
      unfold InvertedIndex.restrict at hj
      split at hj
      · assumption
      · cases hj
    obtain ⟨bit, hbit, htest⟩ := exists_bit S ⟨j, hjS⟩
    have hnames : namesOfBits K e bit = names := by
      rw [← hS]
      unfold namesOfBits
      rw [funext htest]
    refine Or.inr (List.mem_filterMap.mpr ⟨bit, hbit, ?_⟩)
    rw [if_pos (topicsKey_isSet.mpr ⟨j, by rw [hnames]; exact hj⟩), topicsKey_key, hnames]

/-- An event is under the key of its contract and type, unless both are zero. -/
theorem typeKey_mem_indexKeys {sc lt : BitVec 32} :
    typeKey sc lt ∈ indexKeys K e ↔
      ¬(sc = 0 ∧ lt = 0) ∧ e.SC_index = sc ∧ e.logType = lt := by
  have hcontract : ∀ sc', typeKey sc lt ≠ contractKey sc' := by
    intro sc' heq
    have hcount := congrArg (List.count ':') heq
    rw [count_typeKey, count_contractKey] at hcount
    omega
  have htopics : typeKey sc lt ∉ (List.range' 1 7).filterMap (fun bit =>
      if (topicsKey K e bit).2 ≠ 0 then some (topicsKey K e bit).1 else none) := by
    intro hmem
    obtain ⟨bit, _, hkey⟩ := List.mem_filterMap.mp hmem
    split at hkey
    · have hcount := congrArg (List.count ':') (Option.some.inj hkey)
      have hthree : 3 ≤ (topicsKey K e bit).1.count ':' := by
        rw [topicsKey_key]
        exact three_le_count_namesKey
      rw [count_typeKey] at hcount
      omega
    · cases hkey
  have hsame : typeKey sc lt = typeKey e.SC_index e.logType ↔ e.SC_index = sc ∧ e.logType = lt := by
    constructor
    · intro heq
      have happend := congrArg (fun key => key ++ ':' :: ([] : List Char)) heq
      obtain ⟨hsc, hlt, _⟩ := typeKey_append_inj happend
      exact ⟨hsc.symm, hlt.symm⟩
    · rintro ⟨rfl, rfl⟩
      rfl
  unfold indexKeys
  rw [List.mem_append, or_iff_left htopics]
  constructor
  · intro hmem
    split at hmem
    · next hpair =>
        rcases List.mem_append.mp hmem with hshort | hshort
        · split at hshort
          · exact absurd (List.mem_singleton.mp hshort) (hcontract _)
          · exact absurd hshort List.not_mem_nil
        · obtain ⟨rfl, rfl⟩ := hsame.mp (List.mem_singleton.mp hshort)
          exact ⟨hpair, rfl, rfl⟩
    · exact absurd hmem List.not_mem_nil
  · rintro ⟨hpair, rfl, rfl⟩
    rw [if_pos hpair]
    exact List.mem_append_right _ List.mem_cons_self

end keys

/-! ## The index after a run -/

/-- The tick under each key of an event. -/
def postings (K : KangarooTwelve) (U : Unspecified) (tick : BitVec 32) (le : LogEvent) :
    List (List Char × BitVec 32) :=
  match indexedEvent K U le with
  | none => []
  | some e => (indexKeys K e).map (fun key => (key, tick))

section run

variable {K : KangarooTwelve}

theorem tickMember_injective : Function.Injective tickMember := fun _ _ h =>
  BitVec.eq_of_toNat_eq (toDecimal_injective h)

theorem tickScore_injective : Function.Injective tickScore := fun _ _ h => BitVec.eq_of_toNat_eq h

theorem foldl_dbAddIndexer (keys : List (List Char)) (tick : BitVec 32) (index : LogIndex) :
    keys.foldl (fun index key => dbAddIndexer index key tick) index =
      InvertedIndex.addAll tickMember tickScore index (keys.map (fun key => (key, tick))) := by
  unfold InvertedIndex.addAll
  rw [List.foldl_map]
  rfl

/-- The loop over the events adds their postings. -/
theorem indexEvents_eq (U : Unspecified) (tick : BitVec 32) (vle : List LogEvent) :
    ∀ (s : IndexFields) (index : LogIndex), indexEvents K U tick s vle index =
      InvertedIndex.addAll tickMember tickScore index (vle.flatMap (postings K U tick)) := by
  induction vle with
  | nil => exact fun _ _ => rfl
  | cons le vle ih =>
      intro s index
      rw [indexEvents, List.flatMap_cons, InvertedIndex.addAll_append]
      by_cases hindexed : (readEvent K U s le).SC_index ≠ NO_INDEX
      · have hsame := readEvent_sameIfIndexed K U s ⟨0, 0, U.topic⟩ le hindexed
        rw [if_pos hindexed, ih, foldl_dbAddIndexer]
        rw [hsame] at hindexed ⊢
        rw [postings, indexedEvent, if_neg hindexed]
      · have hnone : indexedEvent K U le = none := by
          unfold indexedEvent
          dsimp only
          refine if_pos (not_not.mp fun hne => hindexed ?_)
          rwa [← readEvent_sameIfIndexed K U ⟨0, 0, U.topic⟩ s le hne]
        rw [if_neg hindexed, ih, postings, hnone]
        rfl

theorem indexTicks_eq (calls : List IndexCall) : indexTicks K calls =
    InvertedIndex.addAll tickMember tickScore (fun _ => SortedSet.empty)
      (calls.flatMap (fun call => call.vle.flatMap (postings K call.unspecified call.tick))) := by
  unfold indexTicks
  generalize (fun _ => SortedSet.empty : LogIndex) = index
  induction calls generalizing index with
  | nil => rfl
  | cons call calls ih =>
      rw [List.foldl_cons, ih, List.flatMap_cons, InvertedIndex.addAll_append, indexTick,
        indexEvents_eq]

/-- Only ticks are in the index. -/
theorem ofDocuments_indexTicks (calls : List IndexCall) :
    InvertedIndex.OfDocuments tickMember tickScore (indexTicks K calls) := by
  rw [indexTicks_eq]
  exact InvertedIndex.ofDocuments_empty.addAll

/-- The ticks under a key are those with an event that has the key. -/
theorem holds_indexTicks {calls : List IndexCall} {key : List Char} {tick : BitVec 32} :
    InvertedIndex.Holds tickMember tickScore (indexTicks K calls) key tick ↔
      ∃ call ∈ calls, call.tick = tick ∧ ∃ le ∈ call.vle, ∃ e,
        indexedEvent K call.unspecified le = some e ∧ key ∈ indexKeys K e := by
  rw [indexTicks_eq, InvertedIndex.holds_addAll tickMember_injective InvertedIndex.ofDocuments_empty,
    or_iff_right InvertedIndex.not_holds_empty, List.mem_flatMap]
  refine exists_congr fun call => and_congr_right fun _ => ?_
  rw [List.mem_flatMap]
  constructor
  · rintro ⟨le, hle, hposting⟩
    unfold postings at hposting
    split at hposting
    · exact absurd hposting List.not_mem_nil
    · next e he =>
        obtain ⟨key', hkey', heq⟩ := List.mem_map.mp hposting
        obtain ⟨rfl, rfl⟩ := Prod.mk.inj heq
        exact ⟨rfl, le, hle, e, he, hkey'⟩
  · rintro ⟨rfl, le, hle, e, he, hkey⟩
    refine ⟨le, hle, ?_⟩
    unfold postings
    rw [he]
    exact List.mem_map.mpr ⟨key, hkey, rfl⟩

end run

end QubicBob
