import Mathlib.Data.List.Sort
import Mathlib.Data.Prod.Lex
import Mathlib.Tactic

set_option autoImplicit false

/-! # Inverted indexes over sorted sets

A `SortedSet` is a set of members with a score each, in the order of the scores. An index is a map
from keys to sorted sets; documents are put under keys with `add`, and `mem_addAll` says which are
under a key after any number of additions.

A document with partial attributes is put under restrictions of them; `exists_restrict_eq_iff` says
that the restrictions are what a query can ask for: any part of the attributes.

An answer in two stages looks documents up and scans those it finds; `flatMap_found_eq_iff` says when
it has everything that a scan of all documents would have.
-/

/-! ## Sorted sets -/

/-- Members with their scores, ordered by score and then by member; no member occurs twice. -/
structure SortedSet (α β : Type*) [LinearOrder α] [LinearOrder β] where
  entries : List (β ×ₗ α)
  sorted : entries.Pairwise (· ≤ ·)
  nodup : (entries.map (fun e => (ofLex e).2)).Nodup

namespace SortedSet

variable {α β : Type*} [LinearOrder α] [LinearOrder β]

def empty : SortedSet α β := ⟨[], List.Pairwise.nil, List.nodup_nil⟩

def members (z : SortedSet α β) : List α := z.entries.map (fun e => (ofLex e).2)

/-- `ZADD key NX score member`: a member that is there keeps its score. -/
def zadd (z : SortedSet α β) (member : α) (score : β) : SortedSet α β :=
  if h : member ∈ z.members then z
  else
    { entries := z.entries.orderedInsert (· ≤ ·) (toLex (score, member))
      sorted := z.sorted.orderedInsert _ _
      nodup := by
        have hperm := (List.perm_orderedInsert (· ≤ ·) (toLex (score, member)) z.entries).map
          (fun e => (ofLex e).2)
        exact hperm.nodup_iff.mpr (List.nodup_cons.mpr ⟨h, z.nodup⟩) }

/-- `ZRANGEBYSCORE key min max`, both ends included. -/
def zrangeByScore (z : SortedSet α β) (min max : β) : List α :=
  (z.entries.filter (fun e => min ≤ (ofLex e).1 ∧ (ofLex e).1 ≤ max)).map (fun e => (ofLex e).2)

variable {z : SortedSet α β}

theorem mem_entries_zadd {member : α} {score : β} {e : β ×ₗ α} :
    e ∈ (z.zadd member score).entries ↔
      e ∈ z.entries ∨ member ∉ z.members ∧ e = toLex (score, member) := by
  unfold zadd
  by_cases h : member ∈ z.members
  · rw [dif_pos h]
    exact ⟨Or.inl, fun he => he.resolve_right (fun hnew => hnew.1 h)⟩
  · rw [dif_neg h, List.mem_orderedInsert]
    constructor
    · rintro (rfl | he)
      · exact Or.inr ⟨h, rfl⟩
      · exact Or.inl he
    · rintro (he | ⟨_, rfl⟩)
      · exact Or.inr he
      · exact Or.inl rfl

end SortedSet

/-! ## Indexes -/

namespace InvertedIndex

variable {κ τ α β : Type*} [LinearOrder α] [LinearOrder β] (member : τ → α) (score : τ → β)

/-- The document is under the key. -/
def Holds (index : κ → SortedSet α β) (key : κ) (t : τ) : Prop :=
  toLex (score t, member t) ∈ (index key).entries

/-- Only documents are in the index. -/
def OfDocuments (index : κ → SortedSet α β) : Prop :=
  ∀ key, ∀ e ∈ (index key).entries, ∃ t, e = toLex (score t, member t)

section search

variable {member : τ → α} {score : τ → β} {index : κ → SortedSet α β}

theorem ofDocuments_empty : OfDocuments member score (fun _ : κ => SortedSet.empty) :=
  fun _ _ he => absurd he List.not_mem_nil

theorem not_holds_empty {key : κ} {t : τ} :
    ¬ Holds member score (fun _ : κ => SortedSet.empty) key t := List.not_mem_nil

theorem OfDocuments.holds_of_member (h : OfDocuments member score index)
    (hinj : Function.Injective member) {key : κ} {t : τ} (ht : member t ∈ (index key).members) :
    Holds member score index key t := by
  obtain ⟨e, he, heq⟩ := List.mem_map.mp ht
  obtain ⟨t', rfl⟩ := h key e he
  have htt : t' = t := hinj heq
  rw [← htt]
  exact he

/-- A search by score, with the members read back as documents, finds the documents of the key. -/
theorem mem_search (h : OfDocuments member score index) {decode : α → Option τ}
    (hdecode : ∀ t, decode (member t) = some t) {key : κ} {min max : β} {t : τ} :
    t ∈ ((index key).zrangeByScore min max).filterMap decode ↔
      Holds member score index key t ∧ min ≤ score t ∧ score t ≤ max := by
  unfold SortedSet.zrangeByScore
  rw [List.mem_filterMap]
  constructor
  · rintro ⟨m, hm, hdec⟩
    obtain ⟨e, he, rfl⟩ := List.mem_map.mp hm
    obtain ⟨he, hrange⟩ := List.mem_filter.mp he
    obtain ⟨t', rfl⟩ := h key e he
    have htt : t' = t := Option.some.inj ((hdecode t').symm.trans hdec)
    rw [← htt]
    exact ⟨he, of_decide_eq_true hrange⟩
  · rintro ⟨he, hrange⟩
    refine ⟨member t, List.mem_map.mpr ⟨_, List.mem_filter.mpr ⟨he, ?_⟩, rfl⟩, hdecode t⟩
    exact decide_eq_true hrange

/-- They come in the order of the scores, each once. -/
theorem sorted_search (h : OfDocuments member score index) {decode : α → Option τ}
    (hdecode : ∀ t, decode (member t) = some t) (hinj : Function.Injective score) {key : κ}
    {min max : β} : (((index key).zrangeByScore min max).filterMap decode).Pairwise
      (fun t t' => score t < score t') := by
  have hboth := (index key).sorted.and (List.pairwise_map.mp (index key).nodup)
  unfold SortedSet.zrangeByScore
  rw [List.pairwise_filterMap, List.pairwise_map]
  refine (List.Pairwise.imp_of_mem ?_ (hboth.filter _))
  intro e e' he he' hlt t ht t' ht'
  obtain ⟨u, rfl⟩ := h key e (List.mem_of_mem_filter he)
  obtain ⟨u', rfl⟩ := h key e' (List.mem_of_mem_filter he')
  obtain rfl : u = t := Option.some.inj ((hdecode u).symm.trans ht)
  obtain rfl : u' = t' := Option.some.inj ((hdecode u').symm.trans ht')
  rcases Prod.Lex.toLex_le_toLex.mp hlt.1 with hscore | ⟨hscore, _⟩
  · exact hscore
  · -- equal scores are equal documents, but no member occurs twice
    exact absurd (congrArg member (hinj hscore)) hlt.2

end search

variable [DecidableEq κ]

/-- One document under one key. -/
def add (index : κ → SortedSet α β) (key : κ) (t : τ) : κ → SortedSet α β :=
  Function.update index key ((index key).zadd (member t) (score t))

def addAll (index : κ → SortedSet α β) (postings : List (κ × τ)) : κ → SortedSet α β :=
  postings.foldl (fun index p => add member score index p.1 p.2) index

section additions

variable {member : τ → α} {score : τ → β} {index : κ → SortedSet α β}

theorem OfDocuments.add (h : OfDocuments member score index) (key : κ) (t : τ) :
    OfDocuments member score (add member score index key t) := by
  intro key' e he
  by_cases hkey : key' = key
  · rw [hkey, InvertedIndex.add, Function.update_self] at he
    rcases SortedSet.mem_entries_zadd.mp he with he | ⟨_, rfl⟩
    · exact h key e he
    · exact ⟨t, rfl⟩
  · rw [InvertedIndex.add, Function.update_of_ne hkey] at he
    exact h key' e he

/-- What one addition does. -/
theorem holds_add (h : OfDocuments member score index) (hinj : Function.Injective member)
    {key key' : κ} {t t' : τ} :
    Holds member score (add member score index key t) key' t' ↔
      Holds member score index key' t' ∨ key' = key ∧ t' = t := by
  unfold Holds add
  by_cases hkey : key' = key
  · rw [hkey, Function.update_self, SortedSet.mem_entries_zadd]
    constructor
    · rintro (hold | ⟨_, heq⟩)
      · exact Or.inl hold
      · exact Or.inr ⟨rfl, hinj (Prod.mk.inj (toLex.injective heq)).2⟩
    · rintro (hold | ⟨_, rfl⟩)
      · exact Or.inl hold
      · by_cases hthere : member t' ∈ (index key).members
        · exact Or.inl (h.holds_of_member hinj hthere)
        · exact Or.inr ⟨hthere, rfl⟩
  · rw [Function.update_of_ne hkey]
    exact ⟨Or.inl, fun hor => hor.resolve_right (fun heq => hkey heq.1)⟩

theorem addAll_append (postings postings' : List (κ × τ)) :
    addAll member score index (postings ++ postings') =
      addAll member score (addAll member score index postings) postings' := List.foldl_append

theorem OfDocuments.addAll {postings : List (κ × τ)} :
    ∀ {index : κ → SortedSet α β}, OfDocuments member score index →
      OfDocuments member score (addAll member score index postings) := by
  induction postings with
  | nil => exact fun h => h
  | cons p postings ih => exact fun h => ih (h.add p.1 p.2)

/-- What any number of additions does. -/
theorem holds_addAll (hinj : Function.Injective member) {key : κ} {t : τ}
    {postings : List (κ × τ)} : ∀ {index : κ → SortedSet α β}, OfDocuments member score index →
      (Holds member score (addAll member score index postings) key t ↔
        Holds member score index key t ∨ (key, t) ∈ postings) := by
  induction postings with
  | nil => exact fun _ => ⟨Or.inl, fun h => h.resolve_right List.not_mem_nil⟩
  | cons p postings ih =>
      intro index h
      change Holds member score (InvertedIndex.addAll member score
        (InvertedIndex.add member score index p.1 p.2) postings) key t ↔ _
      rw [ih (h.add p.1 p.2), holds_add h hinj, List.mem_cons, Prod.ext_iff, or_assoc]

/-- A search does not see additions above its range. -/
theorem search_addAll_of_above (h : OfDocuments member score index)
    (hmember : Function.Injective member) (hscore : Function.Injective score)
    {decode : α → Option τ} (hdecode : ∀ t, decode (member t) = some t) {key : κ} {min max : β}
    {postings : List (κ × τ)} (habove : ∀ p ∈ postings, max < score p.2) :
    ((addAll member score index postings key).zrangeByScore min max).filterMap decode =
      ((index key).zrangeByScore min max).filterMap decode := by
  have : Std.Irrefl (fun t t' => score t < score t') := ⟨fun _ => lt_irrefl _⟩
  have : Std.Antisymm (fun t t' => score t < score t') :=
    ⟨fun _ _ hlt hgt => absurd hlt (lt_asymm hgt)⟩
  refine (sorted_search h.addAll hdecode hscore).eq_of_mem_iff (sorted_search h hdecode hscore)
    fun t => ?_
  rw [mem_search h.addAll hdecode, mem_search h hdecode, holds_addAll hmember h]
  refine and_congr_left fun hrange => or_iff_left fun hadded => ?_
  exact absurd hrange.2 (not_le.mpr (habove (key, t) hadded))

end additions

/-! ## Parts of an item -/

section restrict

variable {ι δ : Type*}

/-- The attributes of an item in a set. -/
def restrict (f : ι → Option δ) (S : ι → Bool) : ι → Option δ := fun i => if S i then f i else none

/-- An item has all attributes that are asked for. -/
def Matches (query f : ι → Option δ) : Prop := ∀ i a, query i = some a → f i = some a

theorem exists_restrict_eq_iff {query f : ι → Option δ} :
    (∃ S, restrict f S = query) ↔ Matches query f := by
  constructor
  · rintro ⟨S, rfl⟩ i a h
    unfold restrict at h
    split at h
    · exact h
    · cases h
  · intro h
    refine ⟨fun i => (query i).isSome, funext fun i => ?_⟩
    change (if (query i).isSome then f i else none) = query i
    cases hi : query i with
    | none => rfl
    | some a => exact h i a hi

end restrict

/-! ## Look-up and scan -/

section scan

variable {τ γ : Type*}

/-- Only documents with nothing to report may be passed over. -/
theorem flatMap_filter_eq_flatMap_iff {p : τ → Bool} {report : τ → List γ} {docs : List τ} :
    (docs.filter p).flatMap report = docs.flatMap report ↔
      ∀ t ∈ docs, report t ≠ [] → p t = true := by
  induction docs with
  | nil => simp
  | cons t docs ih =>
      rw [List.forall_mem_cons, ← ih]
      by_cases hp : p t = true
      · rw [List.filter_cons_of_pos hp, List.flatMap_cons, List.flatMap_cons,
          List.append_cancel_left_eq]
        simp [hp]
      · rw [List.filter_cons_of_neg hp, List.flatMap_cons]
        constructor
        · intro h
          -- the rest alone is not longer than with the passed document
          have hrest : ((docs.filter p).flatMap report).length ≤ (docs.flatMap report).length :=
            (List.filter_sublist.flatMap report).length_le
          have hlength := congrArg List.length h
          rw [List.length_append] at hlength
          have hnil : report t = [] := List.eq_nil_of_length_eq_zero (by omega)
          refine ⟨fun hne => absurd hnil hne, ?_⟩
          rw [h, hnil, List.nil_append]
        · rintro ⟨hreport, hrest⟩
          have hnil : report t = [] := by
            by_contra hne
            exact hp (hreport hne)
          rw [hrest, hnil, List.nil_append]

/-- The documents found are scanned in order, some without a result. The answer is that of a scan of
all documents exactly if each document with something to report is found and scanned. -/
theorem flatMap_found_eq_iff {r : τ → τ → Prop} [Std.Antisymm r] [Std.Irrefl r]
    {docs found : List τ} (hdocs : docs.Pairwise r) (hfound : found.Pairwise r)
    {P skipped : τ → Prop} [DecidablePred skipped]
    (hmem : ∀ t, t ∈ found ↔ t ∈ docs ∧ P t) {report scan : τ → List γ}
    (hscan : ∀ t ∈ docs, scan t = if skipped t then [] else report t) :
    found.flatMap scan = docs.flatMap report ↔
      ∀ t ∈ docs, report t ≠ [] → ¬ skipped t ∧ P t := by
  classical
  have hfilter : found = docs.filter (fun t => decide (P t)) := by
    refine hfound.eq_of_mem_iff (hdocs.filter _) (fun t => ?_)
    rw [hmem, List.mem_filter, decide_eq_true_eq]
  have hscanned : ∀ ts : List τ, (∀ t ∈ ts, t ∈ docs) →
      ts.flatMap scan = (ts.filter (fun t => decide ¬ skipped t)).flatMap report := by
    intro ts hts
    induction ts with
    | nil => rfl
    | cons t ts ih =>
        rw [List.flatMap_cons, ih (fun u hu => hts u (List.mem_cons_of_mem _ hu)),
          hscan t (hts t List.mem_cons_self)]
        by_cases hskip : skipped t
        · rw [if_pos hskip, List.filter_cons_of_neg (by simpa using hskip), List.nil_append]
        · rw [if_neg hskip, List.filter_cons_of_pos (by simpa using hskip), List.flatMap_cons]
  rw [hfilter, hscanned _ (fun t ht => List.mem_of_mem_filter ht), List.filter_filter,
    flatMap_filter_eq_flatMap_iff]
  simp only [Bool.and_eq_true, decide_eq_true_eq]

end scan

end InvertedIndex
