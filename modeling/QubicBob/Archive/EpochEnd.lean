import QubicBob.Archive.LogRanges

set_option autoImplicit false

/-! # The log ranges of the virtual tick

The events of the end of an epoch come under the tick after its last one. When the epoch is over,
`verifyLoggingEvent` renames `tick_log_range:<endTick>` and then `log_ranges:<endTick>`, so that the
next epoch finds neither. The request thread repeats its requests and the data threads insert what
is answered, each with two commands, while this is going on. `Transition` interleaves single
commands of all of them.

An insert writes the struct first and the summary second, the renames come in the other order. So an
insert that is not done at the first rename writes the summary behind it, whatever else happens
(`Late`), and no rename comes for the summary any more: the key is there in the end. If none is
left, nobody writes either key again and the renames take both away (`Free`). The two statements
exclude each other and every step behind the first rename keeps each of them, which gives both
directions.
-/

namespace QubicBob

/-! ## Commands -/

/-- The two records of every tick and the keys they are moved to. -/
structure EpochRecords where
  records : LogRangeRecords
  /-- `end_epoch:log_ranges:<epoch>` -/
  endEpochLogRanges : Nat → Option LogRangesPerTxInTick
  /-- `end_epoch:tick_log_range:<epoch>` -/
  endEpochTickLogRange : Nat → Option (Int × Int)

/-- A command of `db_insert_log_range`. -/
inductive InsertCommand where
  | setLogRanges (tick : Nat) (logRange : LogRangesPerTxInTick)
  | hmsetTickLogRange (tick : Nat) (summary : Int × Int)

namespace InsertCommand

def tick : InsertCommand → Nat
  | setLogRanges tick _ | hmsetTickLogRange tick _ => tick

def exec (db : EpochRecords) : InsertCommand → EpochRecords
  | setLogRanges tick logRange =>
      { db with records.logRanges :=
          Function.update db.records.logRanges tick (setNX (db.records.logRanges tick) logRange) }
  | hmsetTickLogRange tick summary =>
      { db with records.tickLogRange :=
          Function.update db.records.tickLogRange tick (some summary) }

end InsertCommand

/-- The renames of the transition. -/
inductive RenameCommand where
  | tickLogRange (tick epoch : Nat)
  | logRanges (tick epoch : Nat)

/-- A rename of a key that does not exist is an error and changes nothing. -/
def RenameCommand.exec (db : EpochRecords) : RenameCommand → EpochRecords
  | tickLogRange tick epoch =>
      match db.records.tickLogRange tick with
      | none => db
      | some summary =>
          { db with
            records.tickLogRange := Function.update db.records.tickLogRange tick none
            endEpochTickLogRange :=
              Function.update db.endEpochTickLogRange epoch (some summary) }
  | logRanges tick epoch =>
      match db.records.logRanges tick with
      | none => db
      | some logRange =>
          { db with
            records.logRanges := Function.update db.records.logRanges tick none
            endEpochLogRanges := Function.update db.endEpochLogRanges epoch (some logRange) }

/-- A response in the buffer of a data thread, with the requests it is mapped to. -/
structure Response where
  requestMapperFrom : RequestMap
  mem : List Byte

namespace Response

/-- The tick and the struct that `processLogRanges` inserts, if it gets that far. -/
def insert (r : Response) : Option (Nat × LogRangesPerTxInTick) :=
  let header := RequestResponseHeader.ofBytes r.mem
  let request := (r.requestMapperFrom.get header.getDejavu).getD []
  let logRange := LogRangesPerTxInTick.ofBytes (Ring.slice r.mem 8 LogRangesPerTxInTick.sizeOf)
  if (request.length = 48 ∧
      header.size = RequestResponseHeader.sizeOf + LogRangesPerTxInTick.sizeOf) ∧
      logRange.accepted = true then some (readLE request 40 4, logRange)
  else none

/-- The commands of `db_insert_log_range`. -/
def commands (r : Response) : List InsertCommand :=
  match r.insert with
  | none => []
  | some (tick, logRange) =>
      [.setLogRanges tick logRange, .hmsetTickLogRange tick logRange.summary]

/-- Without other commands in between they are what `processLogRanges` does. -/
theorem processLogRanges_eq (node : DataNode) {mem : List Byte} (db : EpochRecords)
    (hlen : 8 + LogRangesPerTxInTick.sizeOf ≤ mem.length)
    (hdb : db.records = node.db.logRangeRecords) :
    ((Response.commands ⟨node.requestMapperFrom, mem⟩).foldl InsertCommand.exec db).records =
      (processLogRanges node mem).2.db.logRangeRecords := by
  have hslice : (Ring.slice mem 8 LogRangesPerTxInTick.sizeOf).length = 16 * LOG_TX_PER_TICK := by
    rw [LogRangesPerTxInTick.sizeOf] at hlen ⊢
    rw [Ring.slice, List.length_take, List.length_drop, LOG_TX_PER_TICK]
    omega
  unfold commands insert processLogRanges
  dsimp only
  by_cases hmapped : ((node.requestMapperFrom.get
        (RequestResponseHeader.ofBytes mem).getDejavu).getD []).length = 48 ∧
      (RequestResponseHeader.ofBytes mem).size =
        RequestResponseHeader.sizeOf + LogRangesPerTxInTick.sizeOf
  · rw [if_pos hmapped]
    dsimp only
    rw [DataStore.logRangeRecords_dbInsertLogRange _ _ hslice, ← hdb]
    cases hacc : (LogRangesPerTxInTick.ofBytes
        (Ring.slice mem 8 LogRangesPerTxInTick.sizeOf)).accepted with
    | true =>
        rw [if_pos ⟨hmapped, rfl⟩, LogRangeRecords.step_insert hacc]
        rfl
    | false =>
        rw [if_neg fun h => Bool.false_ne_true h.2, LogRangeRecords.step_refused hacc]
        rfl
  · rw [if_neg hmapped, if_neg fun h => hmapped h.1]
    exact hdb

theorem commands_of_insert {r : Response} {tick : Nat} {logRange : LogRangesPerTxInTick}
    (h : r.insert = some (tick, logRange)) :
    r.commands = [.setLogRanges tick logRange, .hmsetTickLogRange tick logRange.summary] := by
  rw [commands, h]

theorem commands_eq (r : Response) : r.commands = [] ∨ ∃ tick logRange,
    r.commands = [.setLogRanges tick logRange, .hmsetTickLogRange tick logRange.summary] := by
  cases h : r.insert with
  | none => exact .inl (by rw [commands, h])
  | some p => exact .inr ⟨p.1, p.2, commands_of_insert h⟩

end Response

/-! ## The end of the epoch -/

/-- The renames the verifier has still to make, the responses no data thread has taken yet, and for
each thread that has one the commands left. -/
structure Transition where
  db : EpochRecords
  verifier : List RenameCommand
  inFlight : List Response
  jobs : List (List InsertCommand)

namespace Transition

/-- The epoch is over and nothing is renamed yet. -/
def start (db : EpochRecords) (endTick epoch : Nat) (inFlight : List Response) : Transition :=
  ⟨db, [.tickLogRange endTick epoch, .logRanges endTick epoch], inFlight, []⟩

inductive Action where
  | rename
  /-- a data thread takes the response at the position -/
  | take (k : Nat)
  /-- the thread with the job at the position makes a command -/
  | command (j : Nat)
  deriving DecidableEq

/-- An action that is not possible changes nothing. -/
def step (s : Transition) : Action → Transition
  | .rename =>
      match s.verifier with
      | [] => s
      | c :: cs => { s with db := c.exec s.db, verifier := cs }
  | .take k =>
      match s.inFlight[k]? with
      | none => s
      | some r => { s with inFlight := s.inFlight.eraseIdx k, jobs := r.commands :: s.jobs }
  | .command j =>
      match s.jobs[j]? with
      | some (c :: cs) => { s with db := c.exec s.db, jobs := s.jobs.set j cs }
      | _ => s

/-- The transition is complete and every response is processed. -/
def Done (s : Transition) : Prop :=
  s.verifier = [] ∧ s.inFlight = [] ∧ ∀ job ∈ s.jobs, job = []

/-- The commands the data threads have still to make. -/
def pending (s : Transition) : List InsertCommand :=
  s.inFlight.flatMap Response.commands ++ s.jobs.flatten

/-- Both keys of the tick are free. -/
def Cleared (s : Transition) (endTick : Nat) : Prop :=
  s.db.records.logRanges endTick = none ∧ s.db.records.tickLogRange endTick = none

/-- At the first rename no data thread has a command for the tick left. -/
def InTime (endTick : Nat) (s : Transition) (a : Action) : Prop :=
  a = .rename → s.verifier.length = 2 → ∀ c ∈ s.pending, c.tick ≠ endTick

section steps

variable {s : Transition} {endTick epoch : Nat} {c : InsertCommand} {cs : List InsertCommand}
  {db : EpochRecords}

/-- A command for another tick. -/
theorem exec_of_ne (h : c.tick ≠ endTick) :
    (c.exec db).records.logRanges endTick = db.records.logRanges endTick ∧
      (c.exec db).records.tickLogRange endTick = db.records.tickLogRange endTick := by
  cases c with
  | setLogRanges tick logRange => exact ⟨Function.update_of_ne (Ne.symm h) _ _, rfl⟩
  | hmsetTickLogRange tick summary => exact ⟨rfl, Function.update_of_ne (Ne.symm h) _ _⟩

/-- No insert removes a summary, and the second command of one for the tick writes it. -/
theorem exec_tickLogRange_ne_none (h : db.records.tickLogRange endTick ≠ none ∨
      ∃ summary, c = .hmsetTickLogRange endTick summary) :
    (c.exec db).records.tickLogRange endTick ≠ none := by
  cases c with
  | setLogRanges tick logRange =>
      rcases h with h | ⟨summary, hc⟩
      · exact h
      · cases hc
  | hmsetTickLogRange tick summary =>
      show Function.update db.records.tickLogRange tick (some summary) endTick ≠ none
      by_cases ht : endTick = tick
      · rw [ht, Function.update_self]
        exact Option.some_ne_none _
      · rw [Function.update_of_ne ht]
        rcases h with h | ⟨summary', hc⟩
        · exact h
        · exact absurd (InsertCommand.hmsetTickLogRange.inj hc).1.symm ht

theorem rename_tickLogRange (db : EpochRecords) (endTick epoch : Nat) :
    ((RenameCommand.tickLogRange endTick epoch).exec db).records.tickLogRange endTick = none := by
  unfold RenameCommand.exec
  dsimp only
  split
  · assumption
  · exact Function.update_self _ _ _

theorem rename_logRanges (db : EpochRecords) (endTick epoch : Nat) :
    ((RenameCommand.logRanges endTick epoch).exec db).records.logRanges endTick = none ∧
      ((RenameCommand.logRanges endTick epoch).exec db).records.tickLogRange =
        db.records.tickLogRange := by
  unfold RenameCommand.exec
  dsimp only
  split
  · next h => exact ⟨h, rfl⟩
  · exact ⟨Function.update_self _ _ _, rfl⟩

/-- Taking a response leaves the same commands to make. -/
theorem mem_pending_take {k : Nat} : c ∈ (s.step (.take k)).pending ↔ c ∈ s.pending := by
  unfold step
  dsimp only
  split
  · exact Iff.rfl
  · next r hr =>
      obtain ⟨hk, rfl⟩ := List.getElem?_eq_some_iff.mp hr
      have hperm := (List.getElem_cons_eraseIdx_perm hk).flatMap_right Response.commands
      rw [pending, pending, List.mem_append, List.mem_append, List.flatten_cons, List.mem_append,
        ← hperm.mem_iff, List.flatMap_cons, List.mem_append]
      tauto

/-- A command made is no longer to be made. -/
theorem mem_pending_command {j : Nat} (hj : s.jobs[j]? = some (c :: cs)) {c' : InsertCommand} :
    c' ∈ s.pending ↔ c' = c ∨ c' ∈ (s.step (.command j)).pending := by
  unfold step
  dsimp only
  rw [hj]
  dsimp only
  obtain ⟨hlt, hget⟩ := List.getElem?_eq_some_iff.mp hj
  have hold := (List.getElem_cons_eraseIdx_perm hlt).flatten
  have hnew := (List.set_perm_cons_eraseIdx hlt cs).flatten
  rw [pending, pending, List.mem_append, List.mem_append, ← hold.mem_iff, hnew.mem_iff, hget,
    List.flatten_cons, List.flatten_cons, List.mem_append, List.mem_append, List.mem_cons]
  tauto

/-- What a step does. -/
theorem step_cases (s : Transition) (a : Action) :
    (s.step a = s ∧ (a = .rename → s.verifier = [])) ∨
    (∃ c cs, a = .rename ∧ s.verifier = c :: cs ∧
      s.step a = { s with db := c.exec s.db, verifier := cs }) ∨
    (a ≠ .rename ∧ (s.step a).db = s.db ∧ (s.step a).verifier = s.verifier ∧
      ∀ c, c ∈ (s.step a).pending ↔ c ∈ s.pending) ∨
    (∃ c : InsertCommand, a ≠ .rename ∧ (s.step a).db = c.exec s.db ∧
      (s.step a).verifier = s.verifier ∧ ∀ c', c' ∈ s.pending ↔ c' = c ∨ c' ∈ (s.step a).pending) := by
  cases a with
  | rename =>
      cases hv : s.verifier with
      | nil => exact .inl ⟨by rw [step, hv], fun _ => rfl⟩
      | cons c cs => exact .inr (.inl ⟨c, cs, rfl, rfl, by rw [step, hv]⟩)
  | take k =>
      cases hk : s.inFlight[k]? with
      | none => exact .inl ⟨by rw [step, hk], nofun⟩
      | some r =>
          have hstep : s.step (.take k) =
              { s with inFlight := s.inFlight.eraseIdx k, jobs := r.commands :: s.jobs } := by
            rw [step, hk]
          refine .inr (.inr (.inl ⟨nofun, ?_, ?_, fun c => mem_pending_take⟩))
          · rw [hstep]
          · rw [hstep]
  | command j =>
      rcases hj : s.jobs[j]? with - | - | ⟨c, cs⟩
      · exact .inl ⟨by rw [step, hj], nofun⟩
      · exact .inl ⟨by rw [step, hj], nofun⟩
      · have hstep : s.step (.command j) =
            { s with db := c.exec s.db, jobs := s.jobs.set j cs } := by
          rw [step, hj]
        refine .inr (.inr (.inr ⟨c, nofun, ?_, ?_, fun c' => mem_pending_command hj⟩))
        · rw [hstep]
        · rw [hstep]

/-- Every job is what is left of the commands of a response. -/
def JobsBegun (s : Transition) : Prop := ∀ job ∈ s.jobs, ∃ r : Response, job <:+ r.commands

theorem jobsBegun_step (h : s.JobsBegun) (a : Action) : (s.step a).JobsBegun := by
  cases a with
  | rename =>
      unfold step
      dsimp only
      split
      · exact h
      · exact h
  | take k =>
      unfold step
      dsimp only
      split
      · exact h
      · next r hr =>
          intro job hjob
          rcases List.mem_cons.mp hjob with rfl | hjob
          · exact ⟨r, List.suffix_rfl⟩
          · exact h job hjob
  | command j =>
      unfold step
      dsimp only
      split
      · next c cs hj =>
          intro job hjob
          rcases List.mem_or_eq_of_mem_set hjob with hjob | rfl
          · exact h job hjob
          · obtain ⟨r, hr⟩ := h _ (List.mem_of_getElem? hj)
            exact ⟨r, (List.suffix_cons c _).trans hr⟩
      · exact h

/-- A job that has a command left has the summary left to write. -/
theorem exists_hmset {job : List InsertCommand} {r : Response} (hjob : job <:+ r.commands)
    (hc : c ∈ job) : ∃ summary, .hmsetTickLogRange c.tick summary ∈ job := by
  rcases r.commands_eq with hnil | ⟨tick, logRange, hcommands⟩
  · rw [hnil, List.suffix_nil] at hjob
    rw [hjob] at hc
    cases hc
  · rw [hcommands, List.suffix_cons_iff, List.suffix_cons_iff, List.suffix_nil] at hjob
    rcases hjob with rfl | rfl | rfl
    · refine ⟨logRange.summary, ?_⟩
      simp only [List.mem_cons, List.not_mem_nil, or_false] at hc ⊢
      rcases hc with rfl | rfl
      · exact .inr rfl
      · exact .inr rfl
    · rw [List.mem_singleton.mp hc]
      exact ⟨_, List.mem_singleton_self _⟩
    · cases hc

theorem exists_hmset_pending (h : s.JobsBegun) (hc : c ∈ s.pending) :
    ∃ summary, .hmsetTickLogRange c.tick summary ∈ s.pending := by
  rcases List.mem_append.mp hc with hc | hc
  · obtain ⟨r, hr, hc⟩ := List.mem_flatMap.mp hc
    obtain ⟨summary, hmem⟩ := exists_hmset List.suffix_rfl hc
    exact ⟨summary, List.mem_append_left _ (List.mem_flatMap.mpr ⟨r, hr, hmem⟩)⟩
  · obtain ⟨job, hjob, hc⟩ := List.mem_flatten.mp hc
    obtain ⟨r, hr⟩ := h job hjob
    obtain ⟨summary, hmem⟩ := exists_hmset hr hc
    exact ⟨summary, List.mem_append_right _ (List.mem_flatten.mpr ⟨job, hjob, hmem⟩)⟩

/-! ## Behind the first rename -/

/-- The first rename is made. -/
def Renamed (endTick epoch : Nat) (s : Transition) : Prop :=
  s.verifier = [.logRanges endTick epoch] ∨ s.verifier = []

/-- The summary is there, or it is still going to be written. -/
def Late (endTick epoch : Nat) (s : Transition) : Prop :=
  s.Renamed endTick epoch ∧ ((∃ summary, .hmsetTickLogRange endTick summary ∈ s.pending) ∨
    s.db.records.tickLogRange endTick ≠ none)

/-- The summary is gone, the struct too once it is renamed, and neither is written again. -/
def Free (endTick epoch : Nat) (s : Transition) : Prop :=
  s.Renamed endTick epoch ∧ s.db.records.tickLogRange endTick = none ∧
    (s.verifier = [] → s.db.records.logRanges endTick = none) ∧
    ∀ c ∈ s.pending, c.tick ≠ endTick

theorem late_step (h : s.Late endTick epoch) (a : Action) : (s.step a).Late endTick epoch := by
  obtain ⟨hrenamed, hlate⟩ := h
  rcases step_cases s a with ⟨hs, -⟩ | ⟨c, cs, -, hv, hs⟩ | ⟨-, hdb, hv, hpending⟩ | ⟨c, -, hdb, hv, hpending⟩
  · rw [hs]
    exact ⟨hrenamed, hlate⟩
  · rcases hrenamed with hr | hr
    · obtain ⟨rfl, rfl⟩ := List.cons.inj (hv.symm.trans hr)
      rw [hs]
      refine ⟨.inr rfl, ?_⟩
      dsimp only
      rw [(rename_logRanges s.db endTick epoch).2]
      exact hlate
    · rw [hr] at hv
      cases hv
  · refine ⟨by rw [Renamed, hv]; exact hrenamed, ?_⟩
    rw [hdb]
    exact hlate.imp_left fun ⟨summary, hmem⟩ => ⟨summary, (hpending _).mpr hmem⟩
  · refine ⟨by rw [Renamed, hv]; exact hrenamed, ?_⟩
    rw [hdb]
    rcases hlate with ⟨summary, hmem⟩ | hsome
    · rcases (hpending _).mp hmem with rfl | hmem
      · exact .inr (exec_tickLogRange_ne_none (.inr ⟨summary, rfl⟩))
      · exact .inl ⟨summary, hmem⟩
    · exact .inr (exec_tickLogRange_ne_none (.inl hsome))

theorem free_step (h : s.Free endTick epoch) (a : Action) : (s.step a).Free endTick epoch := by
  obtain ⟨hrenamed, hsummary, hstruct, hother⟩ := h
  rcases step_cases s a with ⟨hs, -⟩ | ⟨c, cs, -, hv, hs⟩ | ⟨-, hdb, hv, hpending⟩ | ⟨c, -, hdb, hv, hpending⟩
  · rw [hs]
    exact ⟨hrenamed, hsummary, hstruct, hother⟩
  · rcases hrenamed with hr | hr
    · obtain ⟨rfl, rfl⟩ := List.cons.inj (hv.symm.trans hr)
      obtain ⟨hgone, hsame⟩ := rename_logRanges s.db endTick epoch
      rw [hs]
      exact ⟨.inr rfl, by dsimp only; rw [hsame]; exact hsummary, fun _ => hgone, hother⟩
    · rw [hr] at hv
      cases hv
  · rw [Free, Renamed, hdb, hv]
    exact ⟨hrenamed, hsummary, hstruct, fun c hc => hother c ((hpending c).mp hc)⟩
  · have hne := hother c ((hpending c).mpr (.inl rfl))
    rw [Free, Renamed, hdb, hv, (exec_of_ne hne).1, (exec_of_ne hne).2]
    exact ⟨hrenamed, hsummary, hstruct, fun c' hc' => hother c' ((hpending c').mpr (.inr hc'))⟩

/-- Behind the first rename there is no condition any more. -/
theorem inTime_of_renamed (h : s.Renamed endTick epoch) (actions : List Action) :
    Runs.Guarded step (InTime endTick) s actions := by
  induction actions generalizing s with
  | nil => exact trivial
  | cons a as ih =>
      refine ⟨fun _ hlen => ?_, ih ?_⟩
      · rcases h with h | h
        · rw [h] at hlen
          cases hlen
        · rw [h] at hlen
          cases hlen
      · rcases step_cases s a with ⟨hs, -⟩ | ⟨c, cs, -, hv, hs⟩ | ⟨-, -, hv, -⟩ | ⟨c, -, -, hv, -⟩
        · rw [hs]
          exact h
        · rcases h with hr | hr
          · rw [hs]
            exact .inr (List.cons.inj (hv.symm.trans hr)).2
          · rw [hr] at hv
            cases hv
        · rw [Renamed, hv]
          exact h
        · rw [Renamed, hv]
          exact h

theorem Late.not_cleared (h : s.Late endTick epoch) (hdone : s.Done) : ¬ s.Cleared endTick := by
  rintro ⟨-, hsummary⟩
  obtain ⟨-, hinFlight, hjobs⟩ := hdone
  rcases h.2 with ⟨summary, hmem⟩ | hsome
  · rw [pending, hinFlight, List.flatMap_nil, List.nil_append, List.mem_flatten] at hmem
    obtain ⟨job, hjob, hmem⟩ := hmem
    rw [hjobs job hjob] at hmem
    cases hmem
  · exact hsome hsummary

/-- Before the first rename, from any state. -/
theorem cleared_iff_inTime (actions : List Action)
    (hv : s.verifier = [.tickLogRange endTick epoch, .logRanges endTick epoch]) (hjobs : s.JobsBegun)
    (hdone : (Runs.run step s actions).Done) :
    (Runs.run step s actions).Cleared endTick ↔ Runs.Guarded step (InTime endTick) s actions := by
  induction actions generalizing s with
  | nil =>
      rw [Runs.run_nil] at hdone
      rw [hdone.1] at hv
      cases hv
  | cons a as ih =>
      rw [Runs.run_cons] at hdone ⊢
      rcases step_cases s a with
        ⟨hs, hnil⟩ | ⟨c, cs, rfl, hc, hs⟩ | ⟨ha, -, hsame, -⟩ | ⟨c, ha, -, hsame, -⟩
      · have ha : a ≠ .rename := by
          intro ha
          rw [hnil ha] at hv
          cases hv
        rw [hs] at hdone ⊢
        rw [ih hv hjobs hdone, Runs.Guarded, hs]
        exact ⟨fun h => ⟨fun hrename => absurd hrename ha, h⟩, fun h => h.2⟩
      · -- the first rename
        obtain ⟨rfl, rfl⟩ := List.cons.inj (hc.symm.trans hv)
        have hrenamed : (s.step .rename).Renamed endTick epoch := by
          rw [hs]
          exact .inl rfl
        by_cases hnone : ∀ c ∈ s.pending, c.tick ≠ endTick
        · have hfree : (s.step .rename).Free endTick epoch := by
            rw [hs] at hrenamed ⊢
            exact ⟨hrenamed, rename_tickLogRange _ _ _, fun hnil => absurd hnil (List.cons_ne_nil _ _),
              hnone⟩
          have hend := Runs.run_keeps (fun s a (h : s.Free endTick epoch) => free_step h a) hfree as
          refine ⟨fun _ => ⟨fun _ _ => hnone, inTime_of_renamed hrenamed as⟩, fun _ => ?_⟩
          exact ⟨hend.2.2.1 hdone.1, hend.2.1⟩
        · have hlate : (s.step .rename).Late endTick epoch := by
            rw [hs] at hrenamed ⊢
            push Not at hnone
            obtain ⟨c, hmem, rfl⟩ := hnone
            exact ⟨hrenamed, .inl (exists_hmset_pending hjobs hmem)⟩
          have hend := Runs.run_keeps (fun s a (h : s.Late endTick epoch) => late_step h a) hlate as
          constructor
          · exact fun hcleared => absurd hcleared (hend.not_cleared hdone)
          · intro hguarded
            exact absurd (hguarded.1 rfl (by rw [hv]; rfl)) hnone
      · rw [ih (hsame.trans hv) (jobsBegun_step hjobs a) hdone]
        exact ⟨fun h => ⟨fun hrename => absurd hrename ha, h⟩, fun h => h.2⟩
      · rw [ih (hsame.trans hv) (jobsBegun_step hjobs a) hdone]
        exact ⟨fun h => ⟨fun hrename => absurd hrename ha, h⟩, fun h => h.2⟩

/-- A tick without records takes the ranges of the next epoch. -/
theorem stored_of_cleared (h : s.Cleared endTick) {logRange : LogRangesPerTxInTick}
    (hacc : logRange.accepted = true) :
    (s.db.records.step (.insert endTick logRange true true)).logRanges endTick = some logRange := by
  rw [LogRangeRecords.step_insert hacc, h.1]
  exact Function.update_self _ _ _

/-- **The virtual tick does not leak** exactly when, at the rename of `tick_log_range:<endTick>`, every
response for the tick that passes the checks is inserted to the end or not at all. Then the next epoch
can store its own ranges for the tick. -/
theorem endTick_cleared_iff (db : EpochRecords) (endTick epoch : Nat) (inFlight : List Response)
    (actions : List Action) (hdone : (Runs.run step (start db endTick epoch inFlight) actions).Done) :
    ((Runs.run step (start db endTick epoch inFlight) actions).Cleared endTick ↔
      Runs.Guarded step (InTime endTick) (start db endTick epoch inFlight) actions) ∧
    ((Runs.run step (start db endTick epoch inFlight) actions).Cleared endTick →
      ∀ logRange : LogRangesPerTxInTick, logRange.accepted = true →
        ((Runs.run step (start db endTick epoch inFlight) actions).db.records.step
          (.insert endTick logRange true true)).logRanges endTick = some logRange) :=
  ⟨cleared_iff_inTime actions rfl (fun _ hjob => absurd hjob List.not_mem_nil) hdone,
    fun hcleared _ hacc => stored_of_cleared hcleared hacc⟩

end steps

/-! ## A repeated answer -/

/-- The header of an answer to the request 7. -/
def answerHeader : List Byte := [0x58, 0x40, 0, 51, 7, 0, 0, 0]

/-- The stored request 7, for the ranges of tick 11. -/
def rangesRequest : List Byte :=
  List.replicate 40 0 ++ leBytes 4 (11 : BitVec 32) ++ List.replicate 4 0

/-- The answer of a node that has no logs for tick 11: all ranges are `-1`. -/
def noLogsAnswer : Response where
  requestMapperFrom := RequestMap.empty.add 0 7 rangesRequest none
  mem := answerHeader ++ List.replicate 16464 255

theorem readLE_replicate {n off : Nat} (h : off + 8 ≤ n) :
    readLE (List.replicate n 255) off 8 = 2 ^ 64 - 1 := by
  rw [readLE, List.drop_replicate, List.take_replicate, Nat.min_eq_left (by omega)]
  rfl

theorem ofNat_ones : BitVec.ofNat 64 (2 ^ 64 - 1) = -1 := by decide

theorem ofBytes_allUnused :
    LogRangesPerTxInTick.ofBytes (List.replicate 16464 255) = allUnused := by
  unfold LogRangesPerTxInTick.ofBytes allUnused
  refine LogRangesPerTxInTick.mk.injEq _ _ _ _ |>.mpr ⟨?_, ?_⟩
  · funext i
    have hi : i.val < 1029 := i.isLt
    rw [readLE_replicate (by omega)]
    exact ofNat_ones
  · funext i
    have hi : i.val < 1029 := i.isLt
    have hoff : 8 * LOG_TX_PER_TICK + 8 * i.val + 8 ≤ 16464 := by
      have hcount : LOG_TX_PER_TICK = 1029 := rfl
      omega
    rw [readLE_replicate hoff]
    exact ofNat_ones

theorem accepted_allUnused : allUnused.accepted = true := by decide +kernel

theorem noLogsAnswer_commands :
    noLogsAnswer.commands = [.setLogRanges 11 allUnused, .hmsetTickLogRange 11 (-1, -1)] := by
  have hslice : Ring.slice noLogsAnswer.mem 8 LogRangesPerTxInTick.sizeOf =
      List.replicate 16464 255 := by
    rw [Ring.slice, noLogsAnswer, List.drop_left' (show answerHeader.length = 8 from rfl),
      List.take_replicate, LogRangesPerTxInTick.sizeOf, Nat.min_self]
  have hheader : RequestResponseHeader.ofBytes noLogsAnswer.mem = ⟨16472, 51, 7⟩ := by
    rw [← ofBytes_take le_rfl, noLogsAnswer, List.take_left' (show answerHeader.length = 8 from rfl)]
    rfl
  have hrequest : (noLogsAnswer.requestMapperFrom.get (RequestResponseHeader.getDejavu
      ⟨16472, 51, 7⟩)).getD [] = rangesRequest := rfl
  have htick : readLE rangesRequest 40 4 = 11 := by decide
  have hinsert : noLogsAnswer.insert = some (11, allUnused) := by
    unfold Response.insert
    dsimp only
    rw [hslice, ofBytes_allUnused, hheader, hrequest, htick]
    rw [if_pos ⟨⟨rfl, rfl⟩, accepted_allUnused⟩]
  have hsummary : allUnused.summary = (-1, -1) := by decide +kernel
  rw [Response.commands_of_insert hinsert, hsummary]

/-- Tick 11 as the verifier has read it. -/
def storedRanges : EpochRecords :=
  ⟨⟨fun t => if t = 11 then some allUnused else none,
      fun t => if t = 11 then some (-1, -1) else none⟩, fun _ => none, fun _ => none⟩

theorem run_early {r : Response} {c c' : InsertCommand} (h : r.commands = [c, c']) :
    (Runs.run step (start storedRanges 11 3 [r])
      [.take 0, .command 0, .command 0, .rename, .rename]).Done := by
  simp [Runs.run, step, start, Done, h]

/-- The theorem where the repeated answer is inserted before the renames. -/
theorem endTick_cleared_iff_early :
    ((Runs.run step (start storedRanges 11 3 [noLogsAnswer])
        [.take 0, .command 0, .command 0, .rename, .rename]).Cleared 11 ↔
      Runs.Guarded step (InTime 11) (start storedRanges 11 3 [noLogsAnswer])
        [.take 0, .command 0, .command 0, .rename, .rename]) ∧
    ((Runs.run step (start storedRanges 11 3 [noLogsAnswer])
        [.take 0, .command 0, .command 0, .rename, .rename]).Cleared 11 →
      ∀ logRange : LogRangesPerTxInTick, logRange.accepted = true →
        ((Runs.run step (start storedRanges 11 3 [noLogsAnswer])
            [.take 0, .command 0, .command 0, .rename, .rename]).db.records.step
          (.insert 11 logRange true true)).logRanges 11 = some logRange) :=
  endTick_cleared_iff storedRanges 11 3 [noLogsAnswer] _ (run_early noLogsAnswer_commands)

theorem run_late {r : Response} {lr : LogRangesPerTxInTick} {summary : Int × Int}
    (h : r.commands = [.setLogRanges 11 lr, .hmsetTickLogRange 11 summary]) :
    let s := Runs.run step (start storedRanges 11 3 [r])
      [.rename, .rename, .take 0, .command 0, .command 0]
    s.Done ∧ s.db.records.logRanges 11 = some lr ∧
      s.db.records.tickLogRange 11 = some summary := by
  simp [Runs.run, step, start, Done, h, RenameCommand.exec, InsertCommand.exec, storedRanges, setNX]

/-- The repeated answer comes behind the renames: both keys are there again. -/
theorem lateAnswer_leaks :
    ¬ ∀ (db : EpochRecords) (endTick epoch : Nat) (inFlight : List Response) (actions : List Action),
      (Runs.run step (start db endTick epoch inFlight) actions).Done →
        (Runs.run step (start db endTick epoch inFlight) actions).Cleared endTick := by
  intro h
  obtain ⟨hdone, hstruct, -⟩ := run_late noLogsAnswer_commands
  have hcleared := (h storedRanges 11 3 [noLogsAnswer] _ hdone).1
  rw [hstruct] at hcleared
  cases hcleared

end Transition

end QubicBob
