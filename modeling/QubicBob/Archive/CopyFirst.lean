import QubicBob.Archive.Move

set_option autoImplicit false

/-! # Copy before delete

What the cleaner removes from KeyDB should be in Kvrocks at that moment. The functions do not look
at each other's results: `cleanRawTick` unlinks a tick whether or not `compressTickAndMoveToKVRocks`
has written it, and a transaction is unlinked whether or not its copy was made.

`copyBeforeDelete_iff` says exactly when a round keeps the rule. For the raw ticks it is a condition
on the state at the start of the round (`TickSafe`), for the transactions one on the state in which
the loop comes to the transaction (`TransactionSafe`).
-/

namespace QubicBob

/-! ## Items -/

/-- What the cleaner moves. -/
inductive Item where
  | tickData (tick : BitVec 32)
  | vote (tick : BitVec 32) (computorIndex : Fin NUMBER_OF_COMPUTORS)
  | transaction (hash : List Char)
  | log (epoch logId : Nat)

inductive ItemValue where
  | tickData (td : TickData)
  | vote (v : TickVote)
  | bytes (value : List Byte)

namespace Archive

/-- The item in KeyDB. -/
def value (a : Archive) : Item → Option ItemValue
  | .tickData tick => (dbGetTickData a.ticks tick).map .tickData
  | .vote tick i => (dbGetTickVote a.ticks tick (BitVec.ofNat 16 i.val)).map .vote
  | .transaction hash => (a.transactions hash).map .bytes
  | .log epoch logId => (a.logs epoch logId).map .bytes

/-- The item in Kvrocks: tick data and votes are parts of the record of the tick. -/
def copy (a : Archive) : Item → Option ItemValue
  | .tickData tick => (a.vtick tick).map (fun full => .tickData full.td)
  | .vote tick i => (a.vtick tick).map (fun full => .vote (full.tv i))
  | .transaction hash => (a.kvTransactions hash).map .bytes
  | .log epoch logId => (a.kvLogs epoch logId).map .bytes

/-- An identical copy of the item, if KeyDB has it, is in Kvrocks. -/
def Copied (a : Archive) (item : Item) : Prop := ∀ x, a.value item = some x → a.copy item = some x

theorem copied_iff_of_value {a : Archive} {item : Item} {x : ItemValue}
    (h : a.value item = some x) : a.Copied item ↔ a.copy item = some x := by
  refine ⟨fun hcopied => hcopied x h, fun hcopy y hy => ?_⟩
  rw [h] at hy
  rw [← Option.some.inj hy]
  exact hcopy

theorem copied_of_value_none {a : Archive} {item : Item} (h : a.value item = none) :
    a.Copied item := by
  intro x hx
  rw [h] at hx
  cases hx

/-- The command removes only items with a copy. -/
def CopiedFirst (a : Archive) (c : Command) : Prop :=
  ∀ item, a.value item ≠ none → (a.exec c).value item = none → a.Copied item

/-- Every command of the list does, in the state it is made in. -/
def CopyBeforeDelete (a : Archive) (commands : List Command) : Prop :=
  Runs.Guarded exec CopiedFirst a commands

end Archive

/-! ## Commands and items -/

/-- The items whose keys the command unlinks. -/
def Command.Unlinks : Command → Item → Prop
  | .unlinkTickData tick, .tickData tick' => tick' = tick
  | .unlinkTickVote tick, .vote tick' _ => tick' = tick
  | .unlinkTransaction hash, .transaction hash' => hash' = hash
  | .unlinkLog epoch logId, .log epoch' logId' => epoch' = epoch ∧ logId' = logId
  | _, _ => False

/-- The command writes the value to Kvrocks under the key of the item. -/
def Command.Sets : Command → Item → ItemValue → Prop
  | .setVtick tick full, .tickData tick', x => tick' = tick ∧ x = .tickData full.td
  | .setVtick tick full, .vote tick' i, x => tick' = tick ∧ x = .vote (full.tv i)
  | .setTransaction hash value, .transaction hash', x => hash' = hash ∧ x = .bytes value
  | .setLog epoch logId value, .log epoch' logId', x =>
      (epoch' = epoch ∧ logId' = logId) ∧ x = .bytes value
  | _, _, _ => False

/-- The command goes to KeyDB. -/
def Command.OnKeyDB : Command → Prop
  | .setVtick .. | .setCLogRange .. | .setTickLogRange .. | .setTransaction .. | .setLog .. => False
  | _ => True

namespace Archive

section commands

variable {a : Archive} {c : Command} {cs : List Command} {item : Item}

theorem value_exec_of_unlinks (h : c.Unlinks item) : (a.exec c).value item = none := by
  cases item with
  | tickData t =>
      cases c with
      | unlinkTickData t' =>
          have ht : t = t' := h
          simp [ht, exec, value, dbDeleteTickData, dbGetTickData, Cell.read?]
      | _ => exact absurd h id
  | vote t i =>
      cases c with
      | unlinkTickVote t' =>
          have ht : t = t' := h
          have hi : i.val % 65536 < NUMBER_OF_COMPUTORS := lt_of_le_of_lt (Nat.mod_le _ _) i.isLt
          simp [ht, exec, value, dbDeleteTickVote, dbGetTickVote, hi, Cell.read?]
      | _ => exact absurd h id
  | transaction hash =>
      cases c with
      | unlinkTransaction hash' =>
          have ht : hash = hash' := h
          simp [ht, exec, value]
      | _ => exact absurd h id
  | log epoch logId =>
      cases c with
      | unlinkLog epoch' logId' =>
          obtain ⟨he, hl⟩ : epoch = epoch' ∧ logId = logId' := h
          simp [he, hl, exec, value]
      | _ => exact absurd h id

theorem value_exec_of_not_unlinks (h : ¬ c.Unlinks item) : (a.exec c).value item = a.value item := by
  cases item with
  | tickData t =>
      cases c with
      | unlinkTickData t' =>
          have ht : t ≠ t' := h
          simp [exec, value, dbDeleteTickData, dbGetTickData, ht]
      | _ => rfl
  | vote t i =>
      cases c with
      | unlinkTickVote t' =>
          have ht : t ≠ t' := h
          simp [exec, value, dbDeleteTickVote, dbGetTickVote, ht]
      | _ => rfl
  | transaction hash =>
      cases c with
      | unlinkTransaction hash' =>
          have ht : hash ≠ hash' := h
          simp [exec, value, Function.update_of_ne ht]
      | _ => rfl
  | log epoch logId =>
      cases c with
      | unlinkLog epoch' logId' =>
          have ht : ¬(epoch = epoch' ∧ logId = logId') := h
          by_cases he : epoch = epoch'
          · have hl : logId ≠ logId' := fun hl => ht ⟨he, hl⟩
            simp [exec, value, he, Function.update_of_ne hl]
          · simp [exec, value, Function.update_of_ne he]
      | _ => rfl

theorem copy_exec_of_onKeyDB (h : c.OnKeyDB) : (a.exec c).copy item = a.copy item := by
  cases c with
  | setVtick => exact absurd h id
  | setCLogRange => exact absurd h id
  | setTickLogRange => exact absurd h id
  | setTransaction => exact absurd h id
  | setLog => exact absurd h id
  | _ =>
      cases item with
      | _ => rfl

theorem copy_exec_of_sets {x : ItemValue} (h : c.Sets item x) :
    (a.exec c).copy item = some x := by
  cases item with
  | tickData t =>
      cases c with
      | setVtick t' full =>
          obtain ⟨ht, rfl⟩ : t = t' ∧ x = .tickData full.td := h
          simp [ht, exec, copy]
      | _ => exact absurd h id
  | vote t i =>
      cases c with
      | setVtick t' full =>
          obtain ⟨ht, rfl⟩ : t = t' ∧ x = .vote (full.tv i) := h
          simp [ht, exec, copy]
      | _ => exact absurd h id
  | transaction hash =>
      cases c with
      | setTransaction hash' value =>
          obtain ⟨ht, rfl⟩ : hash = hash' ∧ x = .bytes value := h
          simp [ht, exec, copy]
      | _ => exact absurd h id
  | log epoch logId =>
      cases c with
      | setLog epoch' logId' value =>
          obtain ⟨⟨he, hl⟩, rfl⟩ : (epoch = epoch' ∧ logId = logId') ∧ x = .bytes value := h
          simp [he, hl, exec, copy]
      | _ => exact absurd h id

theorem copy_exec_of_not_sets (h : ∀ x, ¬ c.Sets item x) : (a.exec c).copy item = a.copy item := by
  cases item with
  | tickData t =>
      cases c with
      | setVtick t' full =>
          have ht : t ≠ t' := fun ht => h _ ⟨ht, rfl⟩
          simp [exec, copy, Function.update_of_ne ht]
      | _ => rfl
  | vote t i =>
      cases c with
      | setVtick t' full =>
          have ht : t ≠ t' := fun ht => h _ ⟨ht, rfl⟩
          simp [exec, copy, Function.update_of_ne ht]
      | _ => rfl
  | transaction hash =>
      cases c with
      | setTransaction hash' value =>
          have ht : hash ≠ hash' := fun ht => h _ ⟨ht, rfl⟩
          simp [exec, copy, Function.update_of_ne ht]
      | _ => rfl
  | log epoch logId =>
      cases c with
      | setLog epoch' logId' value =>
          have ht : ¬(epoch = epoch' ∧ logId = logId') := fun ht => h _ ⟨ht, rfl⟩
          by_cases he : epoch = epoch'
          · have hl : logId ≠ logId' := fun hl => ht ⟨he, hl⟩
            simp [exec, copy, he, Function.update_of_ne hl]
          · simp [exec, copy, Function.update_of_ne he]
      | _ => rfl

theorem value_run_of_no_unlink (h : ∀ c ∈ cs, ∀ item, ¬ c.Unlinks item) :
    (Runs.run exec a cs).value item = a.value item := by
  induction cs generalizing a with
  | nil => rfl
  | cons c cs ih =>
      rw [Runs.run_cons, ih (fun c' hc' => h c' (List.mem_cons_of_mem _ hc')),
        value_exec_of_not_unlinks (h c List.mem_cons_self item)]

/-- Commands that write one value only under the key of the item. -/
theorem copy_run {x : ItemValue} (h : ∀ c ∈ cs, ∀ y, c.Sets item y → y = x) :
    (Runs.run exec a cs).copy item = some x ↔
      (∃ c ∈ cs, c.Sets item x) ∨ a.copy item = some x := by
  induction cs generalizing a with
  | nil => simp
  | cons c cs ih =>
      rw [Runs.run_cons, ih (fun c' hc' => h c' (List.mem_cons_of_mem _ hc')), List.exists_mem_cons_iff]
      by_cases hc : c.Sets item x
      · simp [hc, copy_exec_of_sets hc]
      · have hnot : ∀ y, ¬ c.Sets item y := by
          intro y hy
          rw [h c List.mem_cons_self y hy] at hy
          exact hc hy
        rw [copy_exec_of_not_sets hnot]
        simp [hc]

/-- Copies of what is in KeyDB. -/
theorem copied_run_iff (hno : ∀ c ∈ cs, ∀ item, ¬ c.Unlinks item)
    (hsets : ∀ c ∈ cs, ∀ y, c.Sets item y → a.value item = some y) :
    (Runs.run exec a cs).Copied item ↔
      ∀ x, a.value item = some x → (∃ c ∈ cs, c.Sets item x) ∨ a.copy item = some x := by
  unfold Copied
  rw [value_run_of_no_unlink hno]
  refine forall₂_congr (fun x hx => copy_run (fun c hc y hy => ?_))
  rw [hsets c hc y hy] at hx
  exact Option.some.inj hx

theorem copiedFirst_iff : a.CopiedFirst c ↔ ∀ item, c.Unlinks item → a.Copied item := by
  constructor
  · intro h item hitem x hx
    exact h item (by simp [hx]) (value_exec_of_unlinks hitem) x hx
  · intro h item hheld hgone
    by_cases hitem : c.Unlinks item
    · exact h item hitem
    · rw [value_exec_of_not_unlinks hitem] at hgone
      exact absurd hgone hheld

theorem copyBeforeDelete_append {cs' : List Command} : a.CopyBeforeDelete (cs ++ cs') ↔
    a.CopyBeforeDelete cs ∧ (Runs.run exec a cs).CopyBeforeDelete cs' := Runs.guarded_append

theorem copiedFirst_unlinkTickData {tick : BitVec 32} :
    a.CopiedFirst (.unlinkTickData tick) ↔ a.Copied (.tickData tick) := by
  rw [copiedFirst_iff]
  refine ⟨fun h => h _ rfl, fun h item hitem => ?_⟩
  cases item with
  | tickData tick' =>
      have htick : tick' = tick := hitem
      rw [htick]
      exact h
  | _ => exact absurd hitem id

theorem copiedFirst_unlinkTickVote {tick : BitVec 32} :
    a.CopiedFirst (.unlinkTickVote tick) ↔ ∀ i, a.Copied (.vote tick i) := by
  rw [copiedFirst_iff]
  refine ⟨fun h i => h _ rfl, fun h item hitem => ?_⟩
  cases item with
  | vote tick' i =>
      have htick : tick' = tick := hitem
      rw [htick]
      exact h i
  | _ => exact absurd hitem id

theorem copiedFirst_unlinkTransaction {hash : List Char} :
    a.CopiedFirst (.unlinkTransaction hash) ↔ a.Copied (.transaction hash) := by
  rw [copiedFirst_iff]
  refine ⟨fun h => h _ rfl, fun h item hitem => ?_⟩
  cases item with
  | transaction hash' =>
      have hhash : hash' = hash := hitem
      rw [hhash]
      exact h
  | _ => exact absurd hitem id

theorem copiedFirst_unlinkLog {epoch logId : Nat} :
    a.CopiedFirst (.unlinkLog epoch logId) ↔ a.Copied (.log epoch logId) := by
  rw [copiedFirst_iff]
  refine ⟨fun h => h _ ⟨rfl, rfl⟩, fun h item hitem => ?_⟩
  cases item with
  | log epoch' logId' =>
      obtain ⟨hepoch, hlogId⟩ : epoch' = epoch ∧ logId' = logId := hitem
      rw [hepoch, hlogId]
      exact h
  | _ => exact absurd hitem id

/-- Commands that unlink nothing keep the rule. -/
theorem copyBeforeDelete_of_no_unlink (h : ∀ c ∈ cs, ∀ item, ¬ c.Unlinks item) :
    a.CopyBeforeDelete cs := by
  induction cs generalizing a with
  | nil => exact trivial
  | cons c cs ih =>
      refine ⟨copiedFirst_iff.mpr (fun item hitem => ?_),
        ih (fun c' hc' => h c' (List.mem_cons_of_mem _ hc'))⟩
      exact absurd hitem (h c List.mem_cons_self item)

/-- A command on KeyDB that keeps the rule does not change what the next one has to meet. -/
theorem copied_exec_iff (hc : c.OnKeyDB) (hfirst : a.CopiedFirst c) :
    (a.exec c).Copied item ↔ a.Copied item := by
  by_cases hitem : c.Unlinks item
  · exact ⟨fun _ => copiedFirst_iff.mp hfirst item hitem,
      fun _ => copied_of_value_none (value_exec_of_unlinks hitem)⟩
  · unfold Copied
    rw [value_exec_of_not_unlinks hitem, copy_exec_of_onKeyDB hc]

/-- Deletions, one after the other: each may be judged in the state before the first. -/
theorem copyBeforeDelete_onKeyDB (h : ∀ c ∈ cs, c.OnKeyDB) :
    a.CopyBeforeDelete cs ↔ ∀ c ∈ cs, a.CopiedFirst c := by
  induction cs generalizing a with
  | nil => exact ⟨fun _ c hc => absurd hc List.not_mem_nil, fun _ => trivial⟩
  | cons c cs ih =>
      have hrest := ih (a := a.exec c) (fun c' hc' => h c' (List.mem_cons_of_mem _ hc'))
      rw [List.forall_mem_cons]
      refine and_congr_right (fun hfirst => hrest.trans (forall₂_congr (fun c' _ => ?_)))
      rw [copiedFirst_iff, copiedFirst_iff]
      exact forall₂_congr (fun item _ => copied_exec_iff (h c List.mem_cons_self) hfirst)

end commands

end Archive

/-! ## The raw ticks -/

/-- The packed entry of a computor: its vote, if it was read and has an epoch, and else what was
there. -/
theorem packVotes_filterMap (get : Fin NUMBER_OF_COMPUTORS → Option TickVote)
    (hget : ∀ i v, get i = some v → v.computorIndex.toNat = i.val)
    (l : List (Fin NUMBER_OF_COMPUTORS)) :
    ∀ (tv : Fin NUMBER_OF_COMPUTORS → TickVote) (i : Fin NUMBER_OF_COMPUTORS) (v : TickVote),
      get i = some v →
      packVotes (l.filterMap get) tv i = if i ∈ l ∧ v.epoch ≠ 0 then v else tv i := by
  induction l with
  | nil => simp [packVotes]
  | cons j l ih =>
      intro tv i v hi
      cases hj : get j with
      | none =>
          have hne : i ≠ j := by
            rintro rfl
            rw [hi] at hj
            cases hj
          rw [List.filterMap_cons_none hj, ih tv i v hi]
          simp [hne]
      | some w =>
          rw [List.filterMap_cons_some hj, packVotes]
          have hindex := hget j w hj
          have hlt : w.computorIndex.toNat < NUMBER_OF_COMPUTORS := hindex ▸ j.isLt
          have hplace : (⟨w.computorIndex.toNat, hlt⟩ : Fin NUMBER_OF_COMPUTORS) = j :=
            Fin.ext hindex
          by_cases hepoch : w.epoch = 0
          · rw [dif_neg (fun h => h.2 hepoch), ih tv i v hi]
            by_cases hij : i = j
            · subst hij
              rw [hi] at hj
              rw [if_neg (by rw [Option.some.inj hj]; simp [hepoch]),
                if_neg (by rw [Option.some.inj hj]; simp [hepoch])]
            · simp [hij]
          · rw [dif_pos ⟨hlt, hepoch⟩, hplace, ih _ i v hi]
            by_cases hij : i = j
            · subst hij
              rw [hi] at hj
              rw [Function.update_self, Option.some.inj hj, ite_self,
                if_pos ⟨List.mem_cons_self, hepoch⟩]
            · rw [Function.update_of_ne hij]
              simp [hij]

theorem dbGetTickVote_computorIndex {db : TickKeyDB} {tick : BitVec 32}
    (i : Fin NUMBER_OF_COMPUTORS) (v : TickVote)
    (h : dbGetTickVote db tick (BitVec.ofNat 16 i.val) = some v) :
    v.computorIndex.toNat = i.val := by
  have hi : i.val < 2 ^ 16 := lt_trans i.isLt (by decide)
  rw [(db.vote_key h).2, BitVec.toNat_ofNat, Nat.mod_eq_of_lt hi]

/-- The record of the tick is written: the tick data was read, or enough empty votes to do without,
and the write succeeds. -/
def WritesVtick (db : TickKeyDB) (o : CompressOutcomes) (tick : BitVec 32) : Prop :=
  ((o.getTickData = true ∧ (dbGetTickData db tick).isSome = true) ∨
    225 < emptyVotes (votesRead db tick o.mget)) ∧ o.setVtick = true

instance (db : TickKeyDB) (o : CompressOutcomes) (tick : BitVec 32) :
    Decidable (WritesVtick db o tick) := inferInstanceAs (Decidable (_ ∧ _))

/-- The record that is written. -/
def fullRead (db : TickKeyDB) (o : CompressOutcomes) (tick : BitVec 32) : FullTickStruct :=
  ⟨(answered o.getTickData (dbGetTickData db tick)).getD TickData.zero,
    packVotes (votesRead db tick o.mget) (fun _ => TickVote.zero)⟩

section record

variable {db : TickKeyDB} {o : CompressOutcomes} {tick : BitVec 32}

theorem writesVtick_iff : WritesVtick db o tick ↔
    ¬((answered o.getTickData (dbGetTickData db tick)).isNone ∧
      emptyVotes (votesRead db tick o.mget) ≤ 225) ∧ o.setVtick ≠ false := by
  unfold WritesVtick answered
  cases o.getTickData with
  | false => simp
  | true =>
      cases dbGetTickData db tick with
      | none => simp
      | some td => simp

theorem fullRead_td_eq_iff {td : TickData} (h : dbGetTickData db tick = some td) :
    (fullRead db o tick).td = td ↔ o.getTickData = true ∨ td = TickData.zero := by
  unfold fullRead answered
  rw [h]
  cases o.getTickData with
  | false => simp [eq_comm]
  | true => simp

theorem fullRead_tv_eq_iff {i : Fin NUMBER_OF_COMPUTORS} {v : TickVote}
    (h : dbGetTickVote db tick (BitVec.ofNat 16 i.val) = some v) :
    (fullRead db o tick).tv i = v ↔
      (i.val < VOTES_BATCH_SIZE * o.mget ∧ v.epoch ≠ 0) ∨ v = TickVote.zero := by
  have hmem : i ∈ (List.finRange NUMBER_OF_COMPUTORS).take (VOTES_BATCH_SIZE * o.mget) ↔
      i.val < VOTES_BATCH_SIZE * o.mget := by
    rw [List.mem_take_iff_idxOf_lt (List.mem_finRange i), List.idxOf_finRange]
  have hpack := packVotes_filterMap (fun i => dbGetTickVote db tick (BitVec.ofNat 16 i.val))
    dbGetTickVote_computorIndex ((List.finRange NUMBER_OF_COMPUTORS).take (VOTES_BATCH_SIZE * o.mget))
    (fun _ => TickVote.zero) i v h
  simp only [hmem] at hpack
  change packVotes (votesRead db tick o.mget) (fun _ => TickVote.zero) i = v ↔ _
  rw [votesRead, hpack]
  by_cases hread : i.val < VOTES_BATCH_SIZE * o.mget ∧ v.epoch ≠ 0
  · rw [if_pos hread]
    exact ⟨fun _ => Or.inl hread, fun _ => rfl⟩
  · rw [if_neg hread]
    exact ⟨fun hz => Or.inr hz.symm, fun hor => (hor.resolve_left hread).symm⟩

end record

namespace Archive

section compress

variable {a : Archive} {o : CompressOutcomes} {tick : BitVec 32}

/-- A call writes the record and copies of the log ranges, or nothing. -/
theorem compressTickAndMoveToKVRocks_cases (a : Archive) (o : CompressOutcomes) (tick : BitVec 32) :
    (¬ WritesVtick a.ticks o tick ∧ a.compressTickAndMoveToKVRocks o tick = []) ∨
    (WritesVtick a.ticks o tick ∧ ∃ ranges : List Command,
      a.compressTickAndMoveToKVRocks o tick = .setVtick tick (fullRead a.ticks o tick) :: ranges ∧
      ∀ c ∈ ranges, (∃ lr, c = .setCLogRange tick lr) ∨ ∃ range, c = .setTickLogRange tick range) := by
  by_cases hw : WritesVtick a.ticks o tick
  · obtain ⟨henough, hset⟩ := writesVtick_iff.mp hw
    refine Or.inr ⟨hw, ?_⟩
    unfold compressTickAndMoveToKVRocks
    dsimp only
    rw [if_neg henough, if_neg hset]
    refine ⟨_, rfl, fun c hc => ?_⟩
    rcases List.mem_append.mp hc with hc | hc
    · left
      split at hc
      · split at hc
        · exact ⟨_, List.mem_singleton.mp hc⟩
        · cases hc
      · cases hc
    · right
      split at hc
      · split at hc
        · exact ⟨_, List.mem_singleton.mp hc⟩
        · cases hc
      · cases hc
  · refine Or.inl ⟨hw, ?_⟩
    have hnot := mt writesVtick_iff.mpr hw
    unfold compressTickAndMoveToKVRocks
    dsimp only
    by_cases hless : (answered o.getTickData (dbGetTickData a.ticks tick)).isNone ∧
        emptyVotes (votesRead a.ticks tick o.mget) ≤ 225
    · rw [if_pos hless]
    · have hset : o.setVtick = false := by
        by_contra hset
        exact hnot ⟨hless, hset⟩
      rw [if_neg hless, if_pos hset]

theorem not_unlinks_compress {c : Command} (hc : c ∈ a.compressTickAndMoveToKVRocks o tick)
    (item : Item) : ¬ c.Unlinks item := by
  rcases compressTickAndMoveToKVRocks_cases a o tick with ⟨-, hnil⟩ | ⟨-, ranges, hcons, hranges⟩
  · rw [hnil] at hc
    cases hc
  · rw [hcons, List.mem_cons] at hc
    rcases hc with rfl | hc
    · exact id
    · rcases hranges c hc with ⟨lr, rfl⟩ | ⟨range, rfl⟩
      · exact id
      · exact id

/-- Copies of log ranges leave the ticks alone. -/
theorem run_ranges {ranges : List Command} (h : ∀ c ∈ ranges,
    (∃ lr, c = .setCLogRange tick lr) ∨ ∃ range, c = .setTickLogRange tick range) :
    (Runs.run exec a ranges).ticks = a.ticks ∧ (Runs.run exec a ranges).vtick = a.vtick := by
  induction ranges generalizing a with
  | nil => exact ⟨rfl, rfl⟩
  | cons c ranges ih =>
      obtain ⟨hticks, hvtick⟩ := ih (a := a.exec c) (fun c' hc' => h c' (List.mem_cons_of_mem _ hc'))
      rw [Runs.run_cons, hticks, hvtick]
      rcases h c List.mem_cons_self with ⟨lr, rfl⟩ | ⟨range, rfl⟩
      · exact ⟨rfl, rfl⟩
      · exact ⟨rfl, rfl⟩

theorem run_compress (a : Archive) (o : CompressOutcomes) (tick : BitVec 32) :
    (Runs.run exec a (a.compressTickAndMoveToKVRocks o tick)).ticks = a.ticks ∧
    (Runs.run exec a (a.compressTickAndMoveToKVRocks o tick)).vtick =
      if WritesVtick a.ticks o tick then
        Function.update a.vtick tick (some (fullRead a.ticks o tick))
      else a.vtick := by
  rcases compressTickAndMoveToKVRocks_cases a o tick with ⟨hw, hnil⟩ | ⟨hw, ranges, hcons, hranges⟩
  · rw [hnil, if_neg hw]
    exact ⟨rfl, rfl⟩
  · rw [hcons, if_pos hw, Runs.run_cons]
    exact run_ranges hranges

end compress

/-! ### A pass over several ticks -/

section passes

variable {K : KangarooTwelve} {o : RoundOutcomes} {a : Archive} {ticks : List Int}

/-- One call of the cleaner as a step. -/
def callStep (K : KangarooTwelve) (o : RoundOutcomes) : Archive → CleanerCall → Archive :=
  Runs.callStep exec (CleanerCall.commands K o)

/-- The call keeps the rule. -/
def CallKeeps (K : KangarooTwelve) (o : RoundOutcomes) (a : Archive) (call : CleanerCall) : Prop :=
  a.CopyBeforeDelete (call.commands K o a)

theorem copyBeforeDelete_script {calls : List CleanerCall} :
    a.CopyBeforeDelete (Runs.script exec (CleanerCall.commands K o) a calls) ↔
      Runs.Guarded (callStep K o) (CallKeeps K o) a calls := Runs.guarded_script

theorem callKeeps_compress (t : Int) : CallKeeps K o a (.compressTickAndMoveToKVRocks t) :=
  copyBeforeDelete_of_no_unlink (fun _ hc item => not_unlinks_compress hc item)

theorem guarded_compress (a : Archive) (ticks : List Int) : Runs.Guarded (callStep K o)
    (CallKeeps K o) a (ticks.map .compressTickAndMoveToKVRocks) := by
  induction ticks generalizing a with
  | nil => exact trivial
  | cons t ticks ih => exact ⟨callKeeps_compress t, ih _⟩

/-- After the compressing pass the record of each tick is the new one, where one was written. -/
theorem run_compress_ticks (a : Archive) (ticks : List Int) :
    (Runs.run (callStep K o) a (ticks.map .compressTickAndMoveToKVRocks)).ticks = a.ticks ∧
    ∀ tick, (Runs.run (callStep K o) a (ticks.map .compressTickAndMoveToKVRocks)).vtick tick =
      if tick ∈ ticks.map (BitVec.ofInt 32) ∧ WritesVtick a.ticks (o.compress tick) tick then
        some (fullRead a.ticks (o.compress tick) tick)
      else a.vtick tick := by
  induction ticks generalizing a with
  | nil => exact ⟨rfl, fun tick => by simp⟩
  | cons t ticks ih =>
      obtain ⟨hticks, hvtick⟩ :=
        run_compress a (o.compress (BitVec.ofInt 32 t)) (BitVec.ofInt 32 t)
      change (callStep K o a (.compressTickAndMoveToKVRocks t)).ticks = _ at hticks
      change (callStep K o a (.compressTickAndMoveToKVRocks t)).vtick = _ at hvtick
      obtain ⟨ihticks, ihvtick⟩ := ih (callStep K o a (.compressTickAndMoveToKVRocks t))
      rw [List.map_cons, Runs.run_cons]
      rw [hticks] at ihticks ihvtick
      refine ⟨ihticks, fun tick => ?_⟩
      rw [ihvtick tick, hvtick]
      by_cases hlater : tick ∈ ticks.map (BitVec.ofInt 32) ∧
          WritesVtick a.ticks (o.compress tick) tick
      · rw [if_pos hlater, if_pos ⟨List.mem_cons_of_mem _ hlater.1, hlater.2⟩]
      · rw [if_neg hlater]
        by_cases htick : tick = BitVec.ofInt 32 t
        · subst htick
          by_cases hw : WritesVtick a.ticks (o.compress (BitVec.ofInt 32 t)) (BitVec.ofInt 32 t)
          · rw [if_pos hw, Function.update_self, if_pos ⟨List.mem_cons_self, hw⟩]
          · rw [if_neg hw, if_neg (fun h => hw h.2)]
        · have hsame : (if WritesVtick a.ticks (o.compress (BitVec.ofInt 32 t)) (BitVec.ofInt 32 t)
              then Function.update a.vtick (BitVec.ofInt 32 t)
                (some (fullRead a.ticks (o.compress (BitVec.ofInt 32 t)) (BitVec.ofInt 32 t)))
              else a.vtick) tick = a.vtick tick := by
            split
            · exact Function.update_of_ne htick _ _
            · rfl
          rw [hsame, if_neg]
          rintro ⟨hmem, hw⟩
          rcases List.mem_cons.mp hmem with heq | hmem
          · exact htick heq
          · exact hlater ⟨hmem, hw⟩

theorem onKeyDB_cleanRawTick {unlinkTickData unlinkTickVote : Bool} {tick : BitVec 32} :
    ∀ c ∈ cleanRawTick unlinkTickData unlinkTickVote tick, c.OnKeyDB := by
  intro c hc
  rcases List.mem_append.mp hc with hc | hc
  · split at hc
    · rw [List.mem_singleton.mp hc]
      exact trivial
    · cases hc
  · split at hc
    · rw [List.mem_singleton.mp hc]
      exact trivial
    · cases hc

theorem callKeeps_cleanRawTick {t : Int} : CallKeeps K o a (.cleanRawTick t) ↔
    (o.unlinkTickData (BitVec.ofInt 32 t) = true → a.Copied (.tickData (BitVec.ofInt 32 t))) ∧
    (o.unlinkTickVote (BitVec.ofInt 32 t) = true → ∀ i, a.Copied (.vote (BitVec.ofInt 32 t) i)) := by
  unfold CallKeeps CleanerCall.commands
  rw [copyBeforeDelete_onKeyDB onKeyDB_cleanRawTick, cleanRawTick, List.forall_mem_append]
  refine and_congr ?_ ?_
  · cases o.unlinkTickData (BitVec.ofInt 32 t) with
    | false => simp
    | true => simp [copiedFirst_unlinkTickData]
  · cases o.unlinkTickVote (BitVec.ofInt 32 t) with
    | false => simp
    | true => simp [copiedFirst_unlinkTickVote]

theorem guarded_cleanRawTick {ticks : List Int} :
    Runs.Guarded (callStep K o) (CallKeeps K o) a (ticks.map .cleanRawTick) ↔
      ∀ t ∈ ticks, CallKeeps K o a (.cleanRawTick t) := by
  -- the deletions do not depend on the state, so they are one list of commands on KeyDB
  have hscript : ∀ a : Archive, Runs.script exec (CleanerCall.commands K o) a
      (ticks.map .cleanRawTick) = ticks.flatMap (fun t => cleanRawTick
        (o.unlinkTickData (BitVec.ofInt 32 t)) (o.unlinkTickVote (BitVec.ofInt 32 t))
        (BitVec.ofInt 32 t)) := by
    induction ticks with
    | nil => exact fun _ => rfl
    | cons t ticks ih =>
        intro a
        rw [List.map_cons, Runs.script, ih, List.flatMap_cons]
        rfl
  have hkeydb : ∀ t : Int, ∀ c ∈ CleanerCall.commands K o a (.cleanRawTick t), c.OnKeyDB :=
    fun t => onKeyDB_cleanRawTick
  rw [← copyBeforeDelete_script, hscript, copyBeforeDelete_onKeyDB]
  · simp only [CallKeeps, copyBeforeDelete_onKeyDB (hkeydb _), List.mem_flatMap]
    constructor
    · exact fun h t ht c hc => h c ⟨t, ht, hc⟩
    · rintro h c ⟨t, ht, hc⟩
      exact h t ht c hc
  · intro c hc
    obtain ⟨t, -, hc⟩ := List.mem_flatMap.mp hc
    exact onKeyDB_cleanRawTick c hc

/-- The condition on a tick, in the state at the start of the round. Where the record is written, the
tick data has been read, and so have the votes, and each vote has an epoch (an all-zero record is the
same as none). Where it is not, an earlier record has the same tick data and votes. -/
def TickSafe (o : RoundOutcomes) (a : Archive) (tick : BitVec 32) : Prop :=
  (o.unlinkTickData tick = true → ∀ td, dbGetTickData a.ticks tick = some td →
    if WritesVtick a.ticks (o.compress tick) tick then
      (o.compress tick).getTickData = true ∨ td = TickData.zero
    else a.Copied (.tickData tick)) ∧
  (o.unlinkTickVote tick = true → ∀ i v,
    dbGetTickVote a.ticks tick (BitVec.ofNat 16 i.val) = some v →
    if WritesVtick a.ticks (o.compress tick) tick then
      (i.val < VOTES_BATCH_SIZE * (o.compress tick).mget ∧ v.epoch ≠ 0) ∨ v = TickVote.zero
    else a.Copied (.vote tick i))

section written

variable {a₁ : Archive} {tick : BitVec 32} {oc : CompressOutcomes} (hticks : a₁.ticks = a.ticks)
  (hvtick : a₁.vtick tick = if WritesVtick a.ticks oc tick then some (fullRead a.ticks oc tick)
    else a.vtick tick)

include hticks hvtick

theorem copied_tickData_iff : a₁.Copied (.tickData tick) ↔
    ∀ td, dbGetTickData a.ticks tick = some td →
      if WritesVtick a.ticks oc tick then oc.getTickData = true ∨ td = TickData.zero
      else a.Copied (.tickData tick) := by
  cases htd : dbGetTickData a.ticks tick with
  | none =>
      refine ⟨fun _ td h => absurd h (by simp), fun _ => copied_of_value_none ?_⟩
      rw [value, hticks, htd]
      rfl
  | some td =>
      have hvalue : a.value (.tickData tick) = some (.tickData td) := by
        rw [value, htd]
        rfl
      have hvalue₁ : a₁.value (.tickData tick) = some (.tickData td) := by
        rw [value, hticks, htd]
        rfl
      rw [copied_iff_of_value hvalue₁, copy, hvtick]
      by_cases hw : WritesVtick a.ticks oc tick
      · rw [if_pos hw]
        simpa [if_pos hw] using fullRead_td_eq_iff (o := oc) htd
      · rw [if_neg hw]
        simp [if_neg hw, copied_iff_of_value hvalue, copy]

theorem copied_vote_iff : (∀ i, a₁.Copied (.vote tick i)) ↔
    ∀ i v, dbGetTickVote a.ticks tick (BitVec.ofNat 16 i.val) = some v →
      if WritesVtick a.ticks oc tick then
        (i.val < VOTES_BATCH_SIZE * oc.mget ∧ v.epoch ≠ 0) ∨ v = TickVote.zero
      else a.Copied (.vote tick i) := by
  refine forall_congr' (fun i => ?_)
  cases hv : dbGetTickVote a.ticks tick (BitVec.ofNat 16 i.val) with
  | none =>
      refine ⟨fun _ v h => absurd h (by simp), fun _ => copied_of_value_none ?_⟩
      rw [value, hticks, hv]
      rfl
  | some v =>
      have hvalue : a.value (.vote tick i) = some (.vote v) := by
        rw [value, hv]
        rfl
      have hvalue₁ : a₁.value (.vote tick i) = some (.vote v) := by
        rw [value, hticks, hv]
        rfl
      rw [copied_iff_of_value hvalue₁, copy, hvtick]
      by_cases hw : WritesVtick a.ticks oc tick
      · rw [if_pos hw]
        simpa [if_pos hw] using fullRead_tv_eq_iff (o := oc) hv
      · rw [if_neg hw]
        simp [if_neg hw, copied_iff_of_value hvalue, copy]

end written

/-- The raw part of a round keeps the rule if each of its ticks meets the condition. -/
theorem guarded_raw {ticks : List Int} :
    Runs.Guarded (callStep K o) (CallKeeps K o) a
      (ticks.map .compressTickAndMoveToKVRocks ++ ticks.map .cleanRawTick) ↔
      ∀ t ∈ ticks, TickSafe o a (BitVec.ofInt 32 t) := by
  rw [Runs.guarded_append, guarded_cleanRawTick]
  obtain ⟨hticks, hvtick⟩ := run_compress_ticks (K := K) (o := o) a ticks
  have hguarded := guarded_compress (K := K) (o := o) a ticks
  rw [and_iff_right hguarded]
  refine forall₂_congr (fun t ht => ?_)
  have hmem : BitVec.ofInt 32 t ∈ ticks.map (BitVec.ofInt 32) := List.mem_map_of_mem ht
  have hrecord := hvtick (BitVec.ofInt 32 t)
  simp only [hmem, true_and] at hrecord
  rw [callKeeps_cleanRawTick, copied_tickData_iff hticks hrecord, copied_vote_iff hticks hrecord]
  exact Iff.rfl

end passes

/-! ## The transactions -/

section transactions

variable {K : KangarooTwelve} {o : CleanOutcomes} {td : TickData} {lr : LogRangesPerTxInTick}
  {a a₀ : Archive} {i : Fin NUMBER_OF_TRANSACTIONS_PER_TICK}

/-- The hash of a transaction of the tick. -/
def hashOf (K : KangarooTwelve) (td : TickData) (i : Fin NUMBER_OF_TRANSACTIONS_PER_TICK) :
    List Char := getIdentityFromPublicKey K (td.transactionDigests i) true

/-- The condition on a transaction, in the state in which the loop comes to it: it is not unlinked, or
the copy is made, or the same value is already in Kvrocks; and so for each of its logs (of which those
after a failed `UNLINK` stay). -/
def TransactionSafe (K : KangarooTwelve) (o : CleanOutcomes) (td : TickData)
    (lr : LogRangesPerTxInTick) (a : Archive) (i : Fin NUMBER_OF_TRANSACTIONS_PER_TICK) : Prop :=
  td.transactionDigests i ≠ m256i.zero →
    (o.unlinkTransaction i = true → ∀ value, a.transactions (hashOf K td i) = some value →
      (o.getTransaction i = true ∧ o.setTransaction i = true) ∨
        a.kvTransactions (hashOf K td i) = some value) ∧
    ∀ logId ∈ (lr.logIds i).takeWhile (o.unlinkLog i), ∀ value,
      a.logs td.epoch.toNat logId = some value →
        (o.existsLog i logId = true ∧ o.getLog i logId = true ∧ o.setLog i logId = true) ∨
          a.kvLogs td.epoch.toNat logId = some value

/-- The part of the commands that copies. -/
def copyCommands (K : KangarooTwelve) (o : CleanOutcomes) (td : TickData)
    (lr : LogRangesPerTxInTick) (a : Archive) (i : Fin NUMBER_OF_TRANSACTIONS_PER_TICK) :
    List Command :=
  a.dbCopyTransactionToKvrocks (o.getTransaction i) (o.setTransaction i) (hashOf K td i) ++
    (lr.logIds i).flatMap (fun logId => a.dbMoveLogToKvrocks (o.existsLog i logId)
      (o.getLog i logId) (o.setLog i logId) td.epoch.toNat logId)

/-- The part that deletes. -/
def deleteCommands (K : KangarooTwelve) (o : CleanOutcomes) (td : TickData)
    (lr : LogRangesPerTxInTick) (i : Fin NUMBER_OF_TRANSACTIONS_PER_TICK) : List Command :=
  dbDeleteLogs (o.unlinkLog i) td.epoch.toNat (lr.logIds i) ++
    (if o.unlinkTransaction i then [.unlinkTransaction (hashOf K td i)] else [])

theorem cleanTransaction_eq (h : td.transactionDigests i ≠ m256i.zero) :
    cleanTransaction K o td lr a i = copyCommands K o td lr a i ++ deleteCommands K o td lr i := by
  rw [cleanTransaction, if_neg h, copyCommands, deleteCommands, List.append_assoc]
  rfl

theorem mem_dbCopyTransactionToKvrocks {get set : Bool} {hash : List Char} {c : Command} :
    c ∈ a.dbCopyTransactionToKvrocks get set hash ↔
      ∃ value, a.transactions hash = some value ∧ get = true ∧ set = true ∧
        c = .setTransaction hash value := by
  unfold dbCopyTransactionToKvrocks answered
  cases get with
  | false => simp
  | true =>
      cases a.transactions hash with
      | none => simp
      | some value =>
          cases set with
          | false => simp
          | true => simp

theorem mem_dbMoveLogToKvrocks {existsKey get set : Bool} {epoch logId : Nat} {c : Command} :
    c ∈ a.dbMoveLogToKvrocks existsKey get set epoch logId ↔
      ∃ value, a.logs epoch logId = some value ∧
        (existsKey = true ∧ get = true ∧ set = true) ∧ c = .setLog epoch logId value := by
  unfold dbMoveLogToKvrocks answered
  cases hfound : (existsKey && get) with
  | false =>
      have hnot : ¬(existsKey = true ∧ get = true ∧ set = true) := by
        rintro ⟨rfl, rfl, -⟩
        cases hfound
      simp [hnot]
  | true =>
      rw [Bool.and_eq_true] at hfound
      cases a.logs epoch logId with
      | none => simp
      | some value =>
          cases set with
          | false => simp
          | true => simp [hfound]

theorem mem_copyCommands {c : Command} : c ∈ copyCommands K o td lr a i ↔
    (∃ value, a.transactions (hashOf K td i) = some value ∧ o.getTransaction i = true ∧
      o.setTransaction i = true ∧ c = .setTransaction (hashOf K td i) value) ∨
    ∃ logId ∈ lr.logIds i, ∃ value, a.logs td.epoch.toNat logId = some value ∧
      (o.existsLog i logId = true ∧ o.getLog i logId = true ∧ o.setLog i logId = true) ∧
      c = .setLog td.epoch.toNat logId value := by
  rw [copyCommands, List.mem_append, mem_dbCopyTransactionToKvrocks, List.mem_flatMap]
  simp only [mem_dbMoveLogToKvrocks]

theorem not_unlinks_copyCommands {c : Command} (hc : c ∈ copyCommands K o td lr a i) (item : Item) :
    ¬ c.Unlinks item := by
  rcases mem_copyCommands.mp hc with ⟨value, -, -, -, rfl⟩ | ⟨logId, -, value, -, -, rfl⟩
  · exact id
  · exact id

theorem sets_copyCommands {c : Command} (hc : c ∈ copyCommands K o td lr a i) {item : Item}
    {y : ItemValue} (hy : c.Sets item y) : a.value item = some y := by
  rcases mem_copyCommands.mp hc with ⟨value, hvalue, -, -, rfl⟩ | ⟨logId, -, value, hvalue, -, rfl⟩
  · cases item with
    | transaction hash =>
        obtain ⟨rfl, rfl⟩ : hash = hashOf K td i ∧ y = .bytes value := hy
        rw [Archive.value, hvalue]
        rfl
    | _ => exact absurd hy id
  · cases item with
    | log epoch logId' =>
        obtain ⟨⟨rfl, rfl⟩, rfl⟩ : (epoch = td.epoch.toNat ∧ logId' = logId) ∧ y = .bytes value := hy
        rw [Archive.value, hvalue]
        rfl
    | _ => exact absurd hy id

theorem copied_transaction_iff :
    (Runs.run exec a (copyCommands K o td lr a i)).Copied (.transaction (hashOf K td i)) ↔
      ∀ value, a.transactions (hashOf K td i) = some value →
        (o.getTransaction i = true ∧ o.setTransaction i = true) ∨
          a.kvTransactions (hashOf K td i) = some value := by
  rw [copied_run_iff (fun c hc item => not_unlinks_copyCommands hc item)
    (fun c hc y hy => sets_copyCommands hc hy)]
  cases hheld : a.transactions (hashOf K td i) with
  | none => simp [value, hheld]
  | some v =>
      have hset : (∃ c ∈ copyCommands K o td lr a i,
          c.Sets (.transaction (hashOf K td i)) (.bytes v)) ↔
          o.getTransaction i = true ∧ o.setTransaction i = true := by
        constructor
        · rintro ⟨c, hc, hsets⟩
          rcases mem_copyCommands.mp hc with ⟨w, -, hget, hset, -⟩ | ⟨logId, -, w, -, -, rfl⟩
          · exact ⟨hget, hset⟩
          · exact absurd hsets id
        · rintro ⟨hget, hset⟩
          exact ⟨_, mem_copyCommands.mpr (Or.inl ⟨v, hheld, hget, hset, rfl⟩), rfl, rfl⟩
      simp [value, copy, hheld, hset]

theorem copied_log_iff {logId : Nat} (hid : logId ∈ lr.logIds i) :
    (Runs.run exec a (copyCommands K o td lr a i)).Copied (.log td.epoch.toNat logId) ↔
      ∀ value, a.logs td.epoch.toNat logId = some value →
        (o.existsLog i logId = true ∧ o.getLog i logId = true ∧ o.setLog i logId = true) ∨
          a.kvLogs td.epoch.toNat logId = some value := by
  rw [copied_run_iff (fun c hc item => not_unlinks_copyCommands hc item)
    (fun c hc y hy => sets_copyCommands hc hy)]
  cases hheld : a.logs td.epoch.toNat logId with
  | none => simp [value, hheld]
  | some v =>
      have hset : (∃ c ∈ copyCommands K o td lr a i,
          c.Sets (.log td.epoch.toNat logId) (.bytes v)) ↔
          o.existsLog i logId = true ∧ o.getLog i logId = true ∧ o.setLog i logId = true := by
        constructor
        · rintro ⟨c, hc, hsets⟩
          rcases mem_copyCommands.mp hc with ⟨w, -, -, -, rfl⟩ | ⟨logId', -, w, -, hmoved, rfl⟩
          · exact absurd hsets id
          · obtain ⟨⟨-, hsame⟩, -⟩ :
                (td.epoch.toNat = td.epoch.toNat ∧ logId = logId') ∧ _ := hsets
            rw [hsame]
            exact hmoved
        · intro hmoved
          exact ⟨_, mem_copyCommands.mpr (Or.inr ⟨logId, hid, v, hheld, hmoved, rfl⟩),
            ⟨rfl, rfl⟩, rfl⟩
      simp [value, copy, hheld, hset]

theorem onKeyDB_deleteCommands : ∀ c ∈ deleteCommands K o td lr i, c.OnKeyDB := by
  intro c hc
  rcases List.mem_append.mp hc with hc | hc
  · obtain ⟨logId, -, rfl⟩ := List.mem_map.mp hc
    exact trivial
  · split at hc
    · rw [List.mem_singleton.mp hc]
      exact trivial
    · cases hc

/-- A transaction keeps the rule exactly under its condition. -/
theorem copyBeforeDelete_cleanTransaction :
    a.CopyBeforeDelete (cleanTransaction K o td lr a i) ↔ TransactionSafe K o td lr a i := by
  by_cases hzero : td.transactionDigests i = m256i.zero
  · rw [cleanTransaction, if_pos hzero]
    exact ⟨fun _ h => absurd hzero h, fun _ => trivial⟩
  rw [cleanTransaction_eq hzero, copyBeforeDelete_append,
    and_iff_right (copyBeforeDelete_of_no_unlink (fun c hc item => not_unlinks_copyCommands hc item)),
    copyBeforeDelete_onKeyDB onKeyDB_deleteCommands, deleteCommands, dbDeleteLogs,
    List.forall_mem_append, List.forall_mem_map]
  have hlogs : (∀ logId ∈ (lr.logIds i).takeWhile (o.unlinkLog i),
      (Runs.run exec a (copyCommands K o td lr a i)).CopiedFirst (.unlinkLog td.epoch.toNat logId)) ↔
      ∀ logId ∈ (lr.logIds i).takeWhile (o.unlinkLog i), ∀ value,
        a.logs td.epoch.toNat logId = some value →
        (o.existsLog i logId = true ∧ o.getLog i logId = true ∧ o.setLog i logId = true) ∨
          a.kvLogs td.epoch.toNat logId = some value := by
    refine forall₂_congr (fun logId hid => ?_)
    rw [copiedFirst_unlinkLog, copied_log_iff ((List.takeWhile_prefix _).subset hid)]
  have htransaction : (∀ c ∈ (if o.unlinkTransaction i then
      [Command.unlinkTransaction (hashOf K td i)] else []),
      (Runs.run exec a (copyCommands K o td lr a i)).CopiedFirst c) ↔
      (o.unlinkTransaction i = true → ∀ value, a.transactions (hashOf K td i) = some value →
        (o.getTransaction i = true ∧ o.setTransaction i = true) ∨
          a.kvTransactions (hashOf K td i) = some value) := by
    cases o.unlinkTransaction i with
    | false => simp
    | true =>
        rw [if_pos rfl, List.forall_mem_singleton, copiedFirst_unlinkTransaction,
          copied_transaction_iff]
        exact ⟨fun h _ => h, fun h => h rfl⟩
  rw [hlogs, htransaction, and_comm]
  exact ⟨fun h _ => h, fun h => h hzero⟩

/-- The condition on a call of `cleanTransactionLogs`: each transaction meets its own in the state in
which the loop comes to it. -/
def CleanSafe (K : KangarooTwelve) (o : CleanOutcomes) (a : Archive) (tick : BitVec 32) : Prop :=
  ∀ td lr, a.dbTryGetTickData o.getTickData o.getVtick tick = some td →
    a.dbTryGetLogRanges o.getLogRanges o.getCLogRange tick = some lr →
    Runs.Guarded (Runs.callStep exec (cleanTransaction K o td lr)) (TransactionSafe K o td lr)
      (Runs.run exec a (dbDeleteLogRanges o tick)) (List.finRange NUMBER_OF_TRANSACTIONS_PER_TICK)

theorem not_unlinks_dbDeleteLogRanges {tick : BitVec 32} {c : Command}
    (hc : c ∈ dbDeleteLogRanges o tick) (item : Item) : ¬ c.Unlinks item := by
  unfold dbDeleteLogRanges at hc
  split at hc
  · cases hc
  · rcases List.mem_cons.mp hc with rfl | hc
    · exact id
    · split at hc
      · rw [List.mem_singleton.mp hc]
        exact id
      · cases hc

theorem copyBeforeDelete_cleanTransactions {is : List (Fin NUMBER_OF_TRANSACTIONS_PER_TICK)} :
    a.CopyBeforeDelete (Runs.script exec (cleanTransaction K o td lr) a is) ↔
      Runs.Guarded (Runs.callStep exec (cleanTransaction K o td lr)) (TransactionSafe K o td lr) a is :=
  Runs.guarded_script.trans (Runs.Guarded.congr (fun _ _ => copyBeforeDelete_cleanTransaction))

theorem copyBeforeDelete_cleanTransactionLogs {tick : BitVec 32} :
    a.CopyBeforeDelete (cleanTransactionLogs K o a tick) ↔ CleanSafe K o a tick := by
  unfold cleanTransactionLogs CleanSafe
  cases a.dbTryGetTickData o.getTickData o.getVtick tick with
  | none =>
      dsimp only
      refine ⟨fun _ td lr h => ?_, fun _ => trivial⟩
      cases h
  | some td =>
      cases a.dbTryGetLogRanges o.getLogRanges o.getCLogRange tick with
      | none =>
          dsimp only
          refine ⟨fun _ td lr _ h => ?_, fun _ => trivial⟩
          cases h
      | some lr =>
          dsimp only
          generalize List.finRange NUMBER_OF_TRANSACTIONS_PER_TICK = is
          rw [copyBeforeDelete_append, and_iff_right (copyBeforeDelete_of_no_unlink
            (fun c hc item => not_unlinks_dbDeleteLogRanges hc item)),
            copyBeforeDelete_cleanTransactions]
          refine ⟨fun h td' lr' htd hlr => ?_, fun h => h td lr rfl rfl⟩
          rw [← Option.some.inj htd, ← Option.some.inj hlr]
          exact h

end transactions

end Archive

/-! ## A round -/

theorem cleanerRound_calls (gTxTickToLive : Nat) (m : CleanerMarks) (r : IndexingReads) :
    (cleanerRound gTxTickToLive { m with calls := [] } r).calls =
      (ticksAfter m.lastCleanTickData (r.tickData - 5)).map .compressTickAndMoveToKVRocks ++
        (ticksAfter m.lastCleanTickData (r.tickData - 5)).map .cleanRawTick ++
        (ticksAfter m.lastCleanTransactionTick
          (min (r.transactions - 5) (r.transactionsTtl - 1 - gTxTickToLive))).map
            .cleanTransactionLogs := by
  have hraw : ∀ ticks : List Int, cleanRawTickCalls ticks false = ticks.map .cleanRawTick := by
    intro ticks
    rw [cleanRawTickCalls, ← List.flatMap_singleton' (ticks.map _), List.flatMap_map]
    rfl
  have hmove : ∀ (m : CleanerMarks) (cleanToTick : Int), (moveTicks m cleanToTick false).calls =
      m.calls ++ (ticksAfter m.lastCleanTickData cleanToTick).map .compressTickAndMoveToKVRocks ++
        (ticksAfter m.lastCleanTickData cleanToTick).map .cleanRawTick ∧
      (moveTicks m cleanToTick false).lastCleanTransactionTick = m.lastCleanTransactionTick := by
    intro m cleanToTick
    unfold moveTicks
    by_cases hlt : m.lastCleanTickData < cleanToTick
    · rw [if_pos hlt]
      dsimp only
      rw [hraw]
      exact ⟨rfl, rfl⟩
    · rw [if_neg hlt, ticksAfter_of_le (not_lt.mp hlt)]
      simp
  have htransactions : ∀ (m : CleanerMarks) (cleanToTick : Int),
      (moveTransactions m cleanToTick).calls = m.calls ++
        (ticksAfter m.lastCleanTransactionTick cleanToTick).map .cleanTransactionLogs := by
    intro m cleanToTick
    unfold moveTransactions
    by_cases hlt : m.lastCleanTransactionTick < cleanToTick
    · rw [if_pos hlt]
    · rw [if_neg hlt, ticksAfter_of_le (not_lt.mp hlt)]
      simp
  rw [cleanerRound, htransactions, (hmove _ _).1, (hmove _ _).2]
  rfl

namespace Archive

/-- The state after the raw part of a round. -/
def afterRaw (K : KangarooTwelve) (o : RoundOutcomes) (a : Archive) (ticks : List Int) : Archive :=
  Runs.run (callStep K o) a
    (ticks.map .compressTickAndMoveToKVRocks ++ ticks.map .cleanRawTick)

/-- When a round removes nothing that has no copy. -/
def RoundSafe (K : KangarooTwelve) (o : RoundOutcomes) (a : Archive) (ticks txTicks : List Int) :
    Prop :=
  (∀ t ∈ ticks, TickSafe o a (BitVec.ofInt 32 t)) ∧
  Runs.Guarded (fun a t => callStep K o a (.cleanTransactionLogs t))
    (fun a t => CleanSafe K (o.clean (BitVec.ofInt 32 t)) a (BitVec.ofInt 32 t))
    (afterRaw K o a ticks) txTicks

/-- For all outcomes of the commands, every state and every round: no item is removed without a copy
exactly if the round meets the condition. -/
theorem copyBeforeDelete_iff (K : KangarooTwelve) (o : RoundOutcomes) (gTxTickToLive : Nat)
    (m : CleanerMarks) (r : IndexingReads) (a : Archive) :
    a.CopyBeforeDelete (roundCommands K o gTxTickToLive m r a) ↔
      RoundSafe K o a (ticksAfter m.lastCleanTickData (r.tickData - 5))
        (ticksAfter m.lastCleanTransactionTick
          (min (r.transactions - 5) (r.transactionsTtl - 1 - gTxTickToLive))) := by
  rw [roundCommands, copyBeforeDelete_script, cleanerRound_calls, Runs.guarded_append, guarded_raw,
    Runs.guarded_map, RoundSafe]
  exact and_congr Iff.rfl (Runs.Guarded.congr (fun _ _ => copyBeforeDelete_cleanTransactionLogs))

end Archive

/-! ### A write that fails -/

/-- An archive without anything in it. -/
def emptyArchive : Archive where
  ticks :=
    { tickVote := fun _ _ => none
      tickData := fun _ => none
      hasTransaction := fun _ => false
      vote_key := @no_vote_key
      data_key := @no_data_key }
  logRanges _ := none
  tickLogRange _ := none
  transactions _ := none
  logs _ _ := none
  vtick _ := none
  cLogRange _ := none
  kvTickLogRange _ := none
  kvTransactions _ := none
  kvLogs _ _ := none

/-- KeyDB has the tick data of tick 11. -/
def archiveOfTick11 : Archive :=
  { emptyArchive with
    ticks := dbInsertTickData emptyArchive.ticks { TickData.zero with epoch := 1, tick := 11 } }

/-- All commands succeed, except that Kvrocks does not take the record. -/
def failedSetVtick : RoundOutcomes where
  compress _ := ⟨6, true, false, true, true, true, true, true, true⟩
  unlinkTickData _ := true
  unlinkTickVote _ := true
  clean _ := ⟨true, true, true, true, true, true, fun _ => true, fun _ => true, fun _ _ => true,
    fun _ _ => true, fun _ _ => true, fun _ _ => true, fun _ => true⟩

def constantHash : KangarooTwelve := ⟨fun _ => 0, fun _ => 0⟩

theorem roundCommands_failedSetVtick :
    roundCommands constantHash failedSetVtick 100 ⟨10, 10, []⟩ ⟨16, 16, 16⟩ archiveOfTick11 =
      [.unlinkTickData 11, .unlinkTickVote 11] := by
  have hcalls : (cleanerRound 100 ⟨10, 10, []⟩ ⟨16, 16, 16⟩).calls =
      [.compressTickAndMoveToKVRocks 11, .cleanRawTick 11] := by decide +kernel
  have hcompress : archiveOfTick11.compressTickAndMoveToKVRocks
      (failedSetVtick.compress (BitVec.ofInt 32 11)) (BitVec.ofInt 32 11) = [] := by
    rcases Archive.compressTickAndMoveToKVRocks_cases archiveOfTick11
      (failedSetVtick.compress (BitVec.ofInt 32 11)) (BitVec.ofInt 32 11) with ⟨-, hnil⟩ | ⟨hw, -⟩
    · exact hnil
    · exact absurd hw.2 (by decide)
  rw [roundCommands, hcalls, Runs.script, CleanerCall.commands, hcompress]
  rfl

/-- The tick data of tick 11 is removed, and there is no copy of it. -/
theorem copyBeforeDelete_fails_on_failed_set :
    archiveOfTick11.value (.tickData 11) ≠ none ∧
    (Runs.run Archive.exec archiveOfTick11 (roundCommands constantHash failedSetVtick 100
      ⟨10, 10, []⟩ ⟨16, 16, 16⟩ archiveOfTick11)).value (.tickData 11) = none ∧
    archiveOfTick11.copy (.tickData 11) = none ∧
    ¬ archiveOfTick11.CopyBeforeDelete (roundCommands constantHash failedSetVtick 100
      ⟨10, 10, []⟩ ⟨16, 16, 16⟩ archiveOfTick11) := by
  rw [roundCommands_failedSetVtick]
  have hheld : archiveOfTick11.value (.tickData 11) =
      some (.tickData { TickData.zero with epoch := 1, tick := 11 }) := rfl
  have hcopy : archiveOfTick11.copy (.tickData 11) = none := rfl
  refine ⟨by rw [hheld]; simp, ?_, hcopy, fun h => ?_⟩
  · have hunlinks : Command.Unlinks (.unlinkTickData 11) (.tickData 11) := rfl
    rw [Runs.run_cons, Runs.run_cons, Runs.run_nil, Archive.value_exec_of_not_unlinks id,
      Archive.value_exec_of_unlinks hunlinks]
  · have hcopied := Archive.copiedFirst_unlinkTickData.mp h.1
    rw [Archive.copied_iff_of_value hheld, hcopy] at hcopied
    cases hcopied

end QubicBob
