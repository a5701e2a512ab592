import QubicBob.Indexer.IndexTick

set_option autoImplicit false

/-! # Searching the index

`bobFindLog` and `db_search_log`. The search asks the sorted set of one key for the ticks of a range;
the key is built from the contract, the log type and the topics, with `ANY` for the identity of the
zero key.

A search for at least one topic finds exactly the ticks with an event that has the contract, the type
and the topics (`bobFindLog_exact`): every part of the topics of an event was written, and the keys
say which part it was.
-/

namespace QubicBob

/-! ## `db_search_log` -/

/-- The identity of the zero key, which stands for any topic. -/
def WILDCARD : List Char := "aaaaaaaaaaaaaaaaaaaaaaaaaaaaaaaaaaaaaaaaaaaaaaaaaaaaaaaafxib".toList

def toPart (topic : List Char) : List Char := if topic = WILDCARD then ANY else topic

/-- `isspace` in the C locale. -/
def isSpace (c : Char) : Bool := c ∈ [' ', '\t', '\n', '\x0b', '\x0c', '\r']

/-- `std::stoul`: blanks, a sign and decimal digits, where `none` stands for an exception. A value
with a minus is negated in 64 bits. -/
def stoul (str : List Char) : Option Nat :=
  let str := str.dropWhile isSpace
  let negative := str.head? = some '-'
  let digits := (if str.head? = some '-' ∨ str.head? = some '+' then str.tail else str).takeWhile
    Char.isDigit
  let value := Nat.ofDigitChars 10 digits 0
  if digits = [] then none
  else if 2 ^ 64 ≤ value then none
  else some (if negative then (2 ^ 64 - value) % 2 ^ 64 else value)

/-- The key of a search. -/
def searchKey (scIndex scLogType : BitVec 32) (topic : Fin 3 → List Char) : List Char :=
  if topic topic1 = WILDCARD ∧ topic topic2 = WILDCARD ∧ topic topic3 = WILDCARD then
    -- without topics the log type may be left out too
    if scLogType = 0xffffffff then contractKey scIndex else typeKey scIndex scLogType
  else typeKey scIndex scLogType ++ ':' :: (toPart (topic topic1) ++ ':' :: (toPart (topic topic2) ++
    ':' :: toPart (topic topic3)))

/-- Members that are not numbers are skipped. -/
def readTick (member : List Char) : Option (BitVec 32) := (stoul member).map (BitVec.ofNat 32)

def dbSearchLog (index : LogIndex) (scIndex scLogType fromTick toTick : BitVec 32)
    (topic : Fin 3 → List Char) : List (BitVec 32) :=
  if (topic topic1).length ≠ 60 then []
  else if (topic topic2).length ≠ 60 then []
  else if (topic topic3).length ≠ 60 then []
  else ((index (searchKey scIndex scLogType topic)).zrangeByScore fromTick.toNat
    toTick.toNat).filterMap readTick

/-! ## `bobFindLog` -/

/-- `std::transform` with `tolower`. -/
def toLowerCase (str : List Char) : List Char := str.map Char.toLower

/-- The compact JSON array of the ticks. -/
def idsToJson (ids : List (BitVec 32)) : String :=
  "[" ++ ",".intercalate (ids.map (fun id => toString id.toNat)) ++ "]"

def bobFindLog (index : LogIndex) (scIndex logType : BitVec 32) (t : Fin 3 → List Char)
    (fromTick toTick : BitVec 32) : String :=
  if toTick < fromTick then "\x7b\"error\":\"Wrong range\"\x7d"
  else if t topic1 ≠ [] ∧ (t topic1).length ≠ 60 then "\x7b\"error\":\"Invalid length topic1\"\x7d"
  else if t topic2 ≠ [] ∧ (t topic2).length ≠ 60 then "\x7b\"error\":\"Invalid length topic2\"\x7d"
  else if t topic3 ≠ [] ∧ (t topic3).length ≠ 60 then "\x7b\"error\":\"Invalid length topic3\"\x7d"
  else idsToJson (dbSearchLog index scIndex logType fromTick toTick (fun i => toLowerCase (t i)))

/-! ## Strings of the search -/

theorem toLower_ne_A (c : Char) : c.toLower ≠ 'A' := by
  unfold Char.toLower
  split
  · next h =>
      intro heq
      have hval : (c.val + ('a'.val - 'A'.val)).toNat = 65 := congrArg (fun d => d.val.toNat) heq
      have hshift : ('a'.val - 'A'.val).toNat = 32 := rfl
      have hlow : 65 ≤ c.val.toNat := h.1
      have hhigh : c.val.toNat ≤ 90 := h.2
      rw [UInt32.toNat_add, hshift] at hval
      omega
  · next h =>
      intro heq
      exact h (by rw [heq]; decide)

/-- A string of the query cannot be taken for `ANY`. -/
theorem plainName_toLowerCase {str : List Char} (h : str.length = 60) :
    PlainName (toLowerCase str) := by
  refine ⟨by rw [toLowerCase, List.length_map, h], fun hA => ?_⟩
  obtain ⟨c, _, hc⟩ := List.mem_map.mp hA
  exact toLower_ne_A c hc

theorem isDigit_ne {c d : Char} (hc : c.isDigit = true) (hd : d.isDigit = false) : c ≠ d := by
  rintro rfl
  rw [hc] at hd
  cases hd

theorem head?_toDecimal_ne {n : Nat} {d : Char} (hd : d.isDigit = false) :
    (toDecimal n).head? ≠ some d := fun heq =>
  isDigit_ne (isDigit_of_mem_toDecimal (List.mem_of_mem_head? heq)) hd rfl

theorem takeWhile_isDigit_toDecimal {n : Nat} :
    (toDecimal n).takeWhile Char.isDigit = toDecimal n :=
  List.takeWhile_eq_self_iff.mpr (fun _ hc => isDigit_of_mem_toDecimal hc)

/-- The first character is a digit, so that there is nothing to skip. -/
theorem dropWhile_isSpace_toDecimal {n : Nat} : (toDecimal n).dropWhile isSpace = toDecimal n := by
  cases hcs : toDecimal n with
  | nil => rfl
  | cons c cs =>
      have hc : c.isDigit = true :=
        isDigit_of_mem_toDecimal (n := n) (by rw [hcs]; exact List.mem_cons_self)
      have hnot : isSpace c = false := by
        simp [isSpace, isDigit_ne hc]
      rw [List.dropWhile_cons_of_neg (by rw [hnot]; decide)]

/-- Numbers are read back. -/
theorem stoul_toDecimal {n : Nat} (h : n < 2 ^ 64) : stoul (toDecimal n) = some n := by
  have hvalue : Nat.ofDigitChars 10 (toDecimal n) 0 = n := Nat.ofDigitChars_ten_toDigits
  have hne : toDecimal n ≠ [] := Nat.toDigits_ne_nil
  unfold stoul
  dsimp only
  rw [dropWhile_isSpace_toDecimal,
    if_neg (not_or.mpr ⟨head?_toDecimal_ne rfl, head?_toDecimal_ne rfl⟩),
    takeWhile_isDigit_toDecimal, if_neg hne, hvalue, if_neg (not_le.mpr h),
    if_neg (head?_toDecimal_ne rfl)]

/-- The members of the index are read back as the ticks they were written for. -/
theorem readTick_tickMember (tick : BitVec 32) : readTick (tickMember tick) = some tick := by
  unfold readTick tickMember
  rw [stoul_toDecimal (lt_trans tick.isLt (by decide)), Option.map_some, BitVec.ofNat_toNat,
    BitVec.setWidth_eq]

/-! ## What a search finds -/

/-- The topic is not asked for. -/
def IsWildcard (topic : List Char) : Prop := toLowerCase topic = WILDCARD

instance (topic : List Char) : Decidable (IsWildcard topic) :=
  inferInstanceAs (Decidable (toLowerCase topic = WILDCARD))

/-- The names a query asks for. -/
def queryNames (q : Fin 3 → List Char) : Fin 3 → Option (List Char) := fun i =>
  if IsWildcard (q i) then none else some (toLowerCase (q i))

theorem searchKey_eq_namesKey {scIndex logType : BitVec 32} {q : Fin 3 → List Char}
    (hq : ∃ i, ¬ IsWildcard (q i)) :
    searchKey scIndex logType (fun i => toLowerCase (q i)) =
      namesKey scIndex logType (queryNames q) := by
  have hpart : ∀ i, toPart (toLowerCase (q i)) = keyPart (queryNames q i) := by
    intro i
    unfold toPart queryNames
    by_cases hwild : IsWildcard (q i)
    · rw [if_pos hwild]
      exact if_pos hwild
    · rw [if_neg hwild]
      exact if_neg hwild
  unfold searchKey namesKey
  rw [if_neg, hpart, hpart, hpart]
  rintro ⟨h₀, h₁, h₂⟩
  obtain ⟨i, hi⟩ := hq
  match i with
  | 0 => exact hi h₀
  | 1 => exact hi h₁
  | 2 => exact hi h₂

theorem plainNames_queryNames {q : Fin 3 → List Char} (hlen : ∀ i, (q i).length = 60) :
    PlainNames (queryNames q) := by
  intro i name h
  unfold queryNames at h
  split at h
  · cases h
  · rw [← Option.some.inj h]
    exact plainName_toLowerCase (hlen i)

/-- The topics of the query are topics of the event. -/
theorem matches_queryNames {K : KangarooTwelve} {e : IndexFields} {q : Fin 3 → List Char} :
    InvertedIndex.Matches (queryNames q) (topicNames K e) ↔
      ∀ i, ¬ IsWildcard (q i) → e.topic i ≠ m256i.zero ∧
        getIdentityFromPublicKey K (e.topic i) true = toLowerCase (q i) := by
  unfold InvertedIndex.Matches queryNames topicNames
  refine forall_congr' fun i => ?_
  by_cases hwild : IsWildcard (q i)
  · simp [hwild]
  · by_cases hzero : e.topic i = m256i.zero
    · simp [hwild, hzero]
    · simp [hwild, hzero]

/-- The logs of the tick have an event with the contract, the type and the topics. -/
def HasEvent (K : KangarooTwelve) (calls : List IndexCall) (tick scIndex logType : BitVec 32)
    (q : Fin 3 → List Char) : Prop :=
  ∃ call ∈ calls, call.tick = tick ∧ ∃ le ∈ call.vle, ∃ e,
    indexedEvent K call.unspecified le = some e ∧ e.SC_index = scIndex ∧ e.logType = logType ∧
      ∀ i, ¬ IsWildcard (q i) → e.topic i ≠ m256i.zero ∧
        getIdentityFromPublicKey K (e.topic i) true = toLowerCase (q i)

/-! ## What is returned -/

section found

variable {K : KangarooTwelve} {calls : List IndexCall}
  {scIndex logType fromTick toTick tick : BitVec 32} {q : Fin 3 → List Char}

/-- The ticks of a search are those under its key. -/
theorem dbSearchLog_eq (hlen : ∀ i, (q i).length = 60) (index : LogIndex) :
    dbSearchLog index scIndex logType fromTick toTick (fun i => toLowerCase (q i)) =
      ((index (searchKey scIndex logType (fun i => toLowerCase (q i)))).zrangeByScore
        fromTick.toNat toTick.toNat).filterMap readTick := by
  have hlower : ∀ i, (toLowerCase (q i)).length = 60 := fun i => (plainName_toLowerCase (hlen i)).1
  unfold dbSearchLog
  rw [if_neg (not_not.mpr (hlower topic1)), if_neg (not_not.mpr (hlower topic2)),
    if_neg (not_not.mpr (hlower topic3))]

theorem pairwise_dbSearchLog (hlen : ∀ i, (q i).length = 60) :
    (dbSearchLog (indexTicks K calls) scIndex logType fromTick toTick
      (fun i => toLowerCase (q i))).Pairwise (· < ·) := by
  rw [dbSearchLog_eq hlen]
  exact InvertedIndex.sorted_search (ofDocuments_indexTicks calls) readTick_tickMember
    tickScore_injective

theorem mem_dbSearchLog_iff (hlen : ∀ i, (q i).length = 60) :
    tick ∈ dbSearchLog (indexTicks K calls) scIndex logType fromTick toTick
        (fun i => toLowerCase (q i)) ↔
      fromTick ≤ tick ∧ tick ≤ toTick ∧ ∃ call ∈ calls, call.tick = tick ∧ ∃ le ∈ call.vle, ∃ e,
        indexedEvent K call.unspecified le = some e ∧
          searchKey scIndex logType (fun i => toLowerCase (q i)) ∈ indexKeys K e := by
  rw [dbSearchLog_eq hlen, InvertedIndex.mem_search (ofDocuments_indexTicks calls)
    readTick_tickMember, holds_indexTicks, and_comm, and_assoc]
  rfl

/-- With a topic, the ticks are those with an event that has what is asked for. -/
theorem mem_dbSearchLog_of_topic (hlen : ∀ i, (q i).length = 60) (hq : ∃ i, ¬ IsWildcard (q i)) :
    tick ∈ dbSearchLog (indexTicks K calls) scIndex logType fromTick toTick
        (fun i => toLowerCase (q i)) ↔
      fromTick ≤ tick ∧ tick ≤ toTick ∧ HasEvent K calls tick scIndex logType q := by
  have hsome : ∃ i, (queryNames q i).isSome = true := by
    obtain ⟨i, hi⟩ := hq
    exact ⟨i, by rw [queryNames, if_neg hi]; rfl⟩
  rw [mem_dbSearchLog_iff hlen, searchKey_eq_namesKey hq]
  simp only [namesKey_mem_indexKeys (plainNames_queryNames hlen) hsome, matches_queryNames]
  rfl

/-- Without topics the ticks are those with an event of the contract and the type, but there is no
set for the pair 0, 0. -/
theorem mem_dbSearchLog_of_wildcards (hq : ∀ i, IsWildcard (q i)) (htype : logType ≠ 0xffffffff) :
    tick ∈ dbSearchLog (indexTicks K calls) scIndex logType fromTick toTick
        (fun i => toLowerCase (q i)) ↔
      fromTick ≤ tick ∧ tick ≤ toTick ∧ ¬(scIndex = 0 ∧ logType = 0) ∧
        HasEvent K calls tick scIndex logType q := by
  have hlen : ∀ i, (q i).length = 60 := by
    intro i
    rw [← List.length_map (f := Char.toLower)]
    exact congrArg List.length (hq i)
  have hkey : searchKey scIndex logType (fun i => toLowerCase (q i)) = typeKey scIndex logType := by
    rw [searchKey, if_pos ⟨hq topic1, hq topic2, hq topic3⟩, if_neg htype]
  rw [mem_dbSearchLog_iff hlen, hkey]
  simp only [typeKey_mem_indexKeys]
  unfold HasEvent
  constructor
  · rintro ⟨hfrom, hto, call, hcall, ht, le, hle, e, he, hpair, hsc, hlt⟩
    exact ⟨hfrom, hto, hpair, call, hcall, ht, le, hle, e, he, hsc, hlt,
      fun i hi => absurd (hq i) hi⟩
  · rintro ⟨hfrom, hto, hpair, call, hcall, ht, le, hle, e, he, hsc, hlt, _⟩
    exact ⟨hfrom, hto, call, hcall, ht, le, hle, e, he, hpair, hsc, hlt⟩

theorem mem_dbSearchLog (hlen : ∀ i, (q i).length = 60) (htype : logType ≠ 0xffffffff) :
    tick ∈ dbSearchLog (indexTicks K calls) scIndex logType fromTick toTick
        (fun i => toLowerCase (q i)) ↔
      (fromTick ≤ tick ∧ tick ≤ toTick) ∧ HasEvent K calls tick scIndex logType q ∧
        ((∀ i, IsWildcard (q i)) → ¬(scIndex = 0 ∧ logType = 0)) := by
  by_cases hq : ∀ i, IsWildcard (q i)
  · rw [mem_dbSearchLog_of_wildcards hq htype]
    tauto
  · rw [mem_dbSearchLog_of_topic hlen (not_forall.mp hq)]
    tauto

end found

/-- Index and search agree: after any run of `indexTick`, a query with topics of 60 characters, not
all of them the wildcard, is answered with the ticks of the range that have such an event, each once
and in order. -/
theorem bobFindLog_exact (K : KangarooTwelve) (calls : List IndexCall)
    (scIndex logType fromTick toTick : BitVec 32) (q : Fin 3 → List Char)
    (hlen : ∀ i, (q i).length = 60) (hq : ∃ i, ¬ IsWildcard (q i)) :
    let ids := dbSearchLog (indexTicks K calls) scIndex logType fromTick toTick
      (fun i => toLowerCase (q i))
    (fromTick ≤ toTick →
        bobFindLog (indexTicks K calls) scIndex logType q fromTick toTick = idsToJson ids) ∧
      ids.Pairwise (· < ·) ∧
        ∀ tick, tick ∈ ids ↔
          fromTick ≤ tick ∧ tick ≤ toTick ∧ HasEvent K calls tick scIndex logType q := by
  intro ids
  refine ⟨fun hrange => ?_, pairwise_dbSearchLog hlen, fun tick => mem_dbSearchLog_of_topic hlen hq⟩
  unfold bobFindLog
  rw [if_neg (BitVec.not_lt.mpr hrange), if_neg (fun h => h.2 (hlen topic1)),
    if_neg (fun h => h.2 (hlen topic2)), if_neg (fun h => h.2 (hlen topic3))]

/-- The theorem at a transfer from key 5 in tick 11, with the identity of the key in upper case. -/
theorem bobFindLog_exact_at_one_transfer :
    let K : KangarooTwelve := ⟨fun _ => 0, fun _ => 0⟩
    let le := LogEvent.pack 1 11 QU_TRANSFER 0 0 (QuTransfer.bytes ⟨5, 6, 30⟩)
    let U : Unspecified := ⟨fun _ => 0, fun _ => 0⟩
    let q := ![getIdentityFromPublicKey K 5 false, WILDCARD, WILDCARD]
    11 ∈ dbSearchLog (indexTicks K [⟨11, [le], U⟩]) 0 0 10 12 (fun i => toLowerCase (q i)) := by
  intro K le U q
  refine ((bobFindLog_exact K [⟨11, [le], U⟩] 0 0 10 12 q (by decide +kernel)
    ⟨0, by decide +kernel⟩).2.2 11).mpr ⟨by decide, by decide, ?_⟩
  refine ⟨_, List.mem_cons_self, rfl, le, List.mem_cons_self, readEvent K U ⟨0, 0, U.topic⟩ le,
    if_neg (by decide +kernel), by decide +kernel, by decide +kernel, by decide +kernel⟩

end QubicBob
