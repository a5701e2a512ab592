import QubicBob.Network.FetchedBatches

set_option autoImplicit false

/-! # Rescue mode

What `verifyLoggingEvent` does with a batch whose logs are not as many as its combined range is
wide. It deletes the log ranges of the batch and waits for the fetcher to have them again, then
deletes the logs of the range they give and waits for these, until the batch is read with the right
number of logs. The fetcher, the data threads and the cleaner work meanwhile.

What KeyDB had before may be anything, so the invariant is about what has been deleted once: the log
ranges of these ticks and the logs under these ids can only have come back from other nodes, and are
theirs (`Rescue.Sound`). What the data threads store never disturbs it, as they store what is of the
epoch wherever it is. When the verifier has deleted all ranges of the batch and seen each again, the
combined range it reads is that of the other nodes; when it has done so with the ids of it, every
log in that range is theirs, and the count decides whether they are all there.

The fetcher need not be right for this. It only has to be asked, and an answer that never comes
keeps the verifier where it is.
-/

namespace QubicBob

/-! ## The thread -/

inductive RescuePhase where
  | deleteRanges (t : Nat)
  | waitRanges (t : Nat)
  /-- all log ranges are there -/
  | combine
  | deleteLogs (fromId length id : Int)
  | waitLogs (fromId length lid : Int)
  | reread (fromId length : Int)
  | done (vle : List LogEvent)

structure Rescue where
  processFromTick : Nat
  processToTick : Nat
  phase : RescuePhase

structure RescueSync where
  sync : LogSync
  /-- the last rescue since the program was started -/
  rescue : Option Rescue

inductive RescueStep where
  /-- the verifier enters rescue mode for a batch -/
  | enter (processFromTick processToTick : Nat)
  /-- a step of the verifier in rescue mode, with what Kvrocks has of the logs -/
  | rescue (kvrocks : LogStore)
  | other (st : LogSyncStep)

def checkLogExistAndVerify (K : KangarooTwelve) (db : LogDB) (epoch : Nat) (logId : Int) : Bool :=
  (dbTryGetLog db epoch (BitVec.ofInt 64 logId).toNat).any (·.selfCheck K epoch)

def LogSyncStep.isRestart : LogSyncStep → Bool
  | .restart _ => true
  | _ => false

def RescuePhase.isDone : RescuePhase → Bool
  | .done _ => true
  | _ => false

namespace RescueSync

variable (s : RescueSync)

def gCurrentProcessingEpoch : Nat := s.sync.fetcher.gCurrentProcessingEpoch

def setPhase (r : Rescue) (phase : RescuePhase) : RescueSync :=
  { s with rescue := some { r with phase := phase } }

/-- What the fetcher is asked to have again. -/
def setRefetch (fromTick toTick fromId toId : Int) : RescueSync :=
  { s with sync := { s.sync with fetcher := { s.sync.fetcher with
      refetchLogFromTick := fromTick, refetchLogToTick := toTick
      refetchFromId := fromId, refetchToId := toId } } }

/-- KeyDB answers the verifier. -/
def rescueStep (kvrocks : LogStore) (r : Rescue) : RescueSync :=
  let db : LogDB := ⟨s.sync.db.logStore, kvrocks⟩
  let epoch := s.gCurrentProcessingEpoch
  let K := s.sync.peer.env.K
  match r.phase with
  | .deleteRanges t =>
      if t ≤ r.processToTick then
        { s with sync := s.sync.withDb (s.sync.db.dbDeleteLogRanges t) }.setPhase r
          (.deleteRanges (t + 1))
      else
        (s.setRefetch r.processFromTick r.processToTick s.sync.fetcher.refetchFromId
          s.sync.fetcher.refetchToId).setPhase r (.waitRanges r.processFromTick)
  | .waitRanges t =>
      if t ≤ r.processToTick then
        if s.sync.db.dbCheckLogRange t then s.setPhase r (.waitRanges (t + 1))
        else s.setPhase r (.waitRanges r.processFromTick)
      else
        (s.setRefetch (-1) (-1) s.sync.fetcher.refetchFromId s.sync.fetcher.refetchToId).setPhase r
          .combine
  | .combine =>
      let range := dbGetCombinedLogRangeForTicks db r.processFromTick r.processToTick
      s.setPhase r (.deleteLogs range.1 range.2 range.1)
  | .deleteLogs fromId length id =>
      if id ≤ fromId + length - 1 then
        { s with sync := s.sync.withDb (s.sync.db.dbDeleteLogs epoch id id) }.setPhase r
          (.deleteLogs fromId length (id + 1))
      else
        (s.setRefetch s.sync.fetcher.refetchLogFromTick s.sync.fetcher.refetchLogToTick fromId
          (fromId + length - 1)).setPhase r (.waitLogs fromId length fromId)
  | .waitLogs fromId length lid =>
      if lid ≤ fromId + length - 1 then
        if checkLogExistAndVerify K db epoch lid then s.setPhase r (.waitLogs fromId length (lid + 1))
        else s.setPhase r (.waitLogs fromId length fromId)
      else s.setPhase r (.reread fromId length)
  | .reread fromId length =>
      let vle := (dbGetLogsByTickRange K db epoch r.processFromTick r.processToTick).1
      if (vle.length : Int) = length then
        (s.setRefetch s.sync.fetcher.refetchLogFromTick s.sync.fetcher.refetchLogToTick (-1)
          (-1)).setPhase r (.done vle)
      -- the logs are deleted once more
      else s.setPhase r (.deleteLogs fromId length fromId)
  | .done _ => s

def step : RescueStep → RescueSync
  | .enter processFromTick processToTick =>
      if s.rescue.all (·.phase.isDone) then
        ⟨s.sync, some ⟨processFromTick, processToTick, .deleteRanges processFromTick⟩⟩
      else s
  | .rescue kvrocks =>
      match s.rescue with
      | none => s
      | some r => s.rescueStep kvrocks r
  | .other st => ⟨s.sync.step st, if st.isRestart then none else s.rescue⟩

end RescueSync

/-! ## The conditions on a run -/

section conditions

variable {K : KangarooTwelve} (H : LogHistory K)

/-- The threads besides are as in `LogSync.Ok`; the cleaner is not at the batch, and what Kvrocks has of
the logs of the epoch are logs of the epoch. -/
def RescueSync.Ok (s : RescueSync) : RescueStep → Prop
  | .enter _ _ => True
  | .rescue kvrocks => ∀ {id c}, kvrocks.log H.epoch id = some c →
      ∃ le, H.log id = some le ∧ c = le.content
  | .other (.refetch _ _ _ _) => False
  | .other .delete => ∀ tick, s.sync.cleaning.head? = some (.deleteLogRanges tick) →
      ∀ r, s.rescue = some r → r.phase.isDone = false →
        ¬(r.processFromTick ≤ tick ∧ tick ≤ r.processToTick)
  | .other st => s.sync.Ok H st

/-- Whatever is in KeyDB. -/
structure RescueSync.Starts (s : RescueSync) : Prop where
  linked : s.sync.Linked H
  fetcherEpoch : s.gCurrentProcessingEpoch = H.epoch
  rescue : s.rescue = none

end conditions

/-! ## What is deleted -/

section deletions

variable {K : KangarooTwelve} {H : LogHistory K} {db db' : DataStore} {T I : Nat → Prop}

theorem LogHistory.HoldsOn.mono {T' I' : Nat → Prop} (h : H.HoldsOn T I db) (hT : ∀ t, T' t → T t)
    (hI : ∀ i, I' i → I i) : H.HoldsOn T' I' db where
  ranges ht := h.ranges (hT _ ht)
  summary ht := h.summary (hT _ ht)
  both ht := h.both (hT _ ht)
  logs hi := h.logs (hI _ hi)

/-- The log ranges of one more tick are deleted. -/
theorem LogHistory.HoldsOn.dbDeleteLogRanges (h : H.HoldsOn T I db) (tick : Nat) :
    H.HoldsOn (fun t => T t ∨ t = tick) I (db.dbDeleteLogRanges tick) := by
  have hrest := h.deletes (db.deletes_dbDeleteLogRanges tick)
  have hnone : (db.dbDeleteLogRanges tick).logRanges tick = none := Function.update_self _ _ _
  have hnone' : (db.dbDeleteLogRanges tick).tickLogRange tick = none := Function.update_self _ _ _
  refine ⟨fun ht hb => ?_, fun ht hr => ?_, fun ht hsome => ?_, hrest.logs⟩
  · rcases ht with ht | rfl
    · exact hrest.ranges ht hb
    · rw [hnone] at hb
      cases hb
  · rcases ht with ht | rfl
    · exact hrest.summary ht hr
    · rw [hnone'] at hr
      cases hr
  · rcases ht with ht | rfl
    · exact hrest.both ht hsome
    · rw [hnone] at hsome
      cases hsome

/-- One more log is deleted. -/
theorem LogHistory.HoldsOn.dbDeleteLog (h : H.HoldsOn T I db) (id : Int) :
    H.HoldsOn T (fun i => I i ∨ i = id) (db.dbDeleteLogs H.epoch id id) := by
  have hrest := h.deletes (db.deletes_dbDeleteLogs H.epoch id id)
  refine ⟨hrest.ranges, hrest.summary, hrest.both, fun {i c} hi hc => ?_⟩
  rcases hi with hi | heq
  · exact hrest.logs hi hc
  · rw [DataStore.dbDeleteLogs] at hc
    dsimp only at hc
    rw [if_pos ⟨rfl, by omega, by omega⟩] at hc
    cases hc

end deletions

/-! ## The invariant -/

section invariant

variable {K : KangarooTwelve} {H : LogHistory K} {s : RescueSync} {r : Rescue} {db db' : DataStore}

namespace RescuePhase

/-- The log ranges of these ticks of the batch have been deleted once. -/
def DeletedTick : RescuePhase → Nat → Prop
  | .deleteRanges t, u => u < t
  | _, _ => True

/-- The logs under these ids have been deleted once. -/
def DeletedId : RescuePhase → Nat → Prop
  | .deleteLogs fromId _ id, i => fromId ≤ i ∧ i < id
  | .waitLogs fromId length _, i => fromId ≤ i ∧ i < fromId + length
  | .reread fromId length, i => fromId ≤ i ∧ i < fromId + length
  | _, _ => False

/-- The log ranges of these ticks of the batch have been seen. -/
def SeenTick : RescuePhase → Nat → Prop
  | .deleteRanges _, _ => False
  | .waitRanges t, u => u < t
  | .done _, _ => False
  | _, _ => True

def range : RescuePhase → Option (Int × Int)
  | .deleteLogs fromId length _ => some (fromId, length)
  | .waitLogs fromId length _ => some (fromId, length)
  | .reread fromId length => some (fromId, length)
  | _ => none

end RescuePhase

/-- The batch has this combined range at the other nodes. -/
def LogHistory.CombinedRange (H : LogHistory K) (startTick endTick : Nat) (range : Int × Int) : Prop :=
  ∀ D : LogDB, (∀ t ∈ ticksFromTo startTick endTick, H.ReadsRange D t) →
    dbGetCombinedLogRangeForTicks D startTick endTick = range

/-- What has been deleted has only come back as it is at the other nodes. -/
structure Rescue.Sound (H : LogHistory K) (db : DataStore) (r : Rescue) : Prop where
  holds : H.HoldsOn
    (fun t => (r.processFromTick ≤ t ∧ t ≤ r.processToTick) ∧ r.phase.DeletedTick t)
    r.phase.DeletedId db
  seen : ∀ t, r.processFromTick ≤ t → t ≤ r.processToTick → r.phase.SeenTick t →
    (db.logRanges t).isSome = true
  range : ∀ x, r.phase.range = some x → H.CombinedRange r.processFromTick r.processToTick x
  result : ∀ vle, r.phase = .done vle →
    vle = (ticksFromTo r.processFromTick r.processToTick).flatMap H.logsOfTick

structure RescueSync.Kept (H : LogHistory K) (s : RescueSync) : Prop where
  linked : s.sync.Linked H
  fetcherEpoch : s.gCurrentProcessingEpoch = H.epoch
  sound : ∀ r, s.rescue = some r → r.Sound H s.sync.db

/-- Two databases that have the ranges of the batch have the same combined range. -/
theorem LogHistory.combinedRange_of_reads {D : LogDB} {startTick endTick : Nat}
    (h : ∀ t ∈ ticksFromTo startTick endTick, H.ReadsRange D t) :
    H.CombinedRange startTick endTick (dbGetCombinedLogRangeForTicks D startTick endTick) := by
  intro D' h'
  have hsame : ∀ t ∈ ticksFromTo startTick endTick,
      dbTryGetLogRangeForTick D' t = dbTryGetLogRangeForTick D t := by
    intro t ht
    obtain ⟨x, hx, ⟨f, l, hwf⟩, hread, hfrom, hlen⟩ := h t ht
    obtain ⟨x', hx', ⟨f', l', hwf'⟩, hread', hfrom', hlen'⟩ := h' t ht
    obtain rfl := Option.some.inj (hx.symm.trans hx')
    dsimp only at hfrom hlen hfrom' hlen'
    subst hfrom hlen hfrom' hlen'
    rw [hread, hread']
  have hfold : (ticksFromTo startTick endTick).foldl (widen D') (LLONG_MAX, -1) =
      (ticksFromTo startTick endTick).foldl (widen D) (LLONG_MAX, -1) := by
    refine List.foldl_ext _ _ _ fun hull t ht => ?_
    rw [widen, widen, hsame t ht]
  rw [dbGetCombinedLogRangeForTicks, dbGetCombinedLogRangeForTicks, hfold]

/-- Where the log ranges have been deleted and seen, they are read as they are at the other nodes. -/
theorem Rescue.Sound.readsRange (h : r.Sound H db) (hdeleted : ∀ t, r.phase.DeletedTick t)
    (hseen : ∀ t, r.phase.SeenTick t) (kv : LogStore) :
    ∀ t ∈ ticksFromTo r.processFromTick r.processToTick, H.ReadsRange ⟨db.logStore, kv⟩ t := by
  intro t ht
  have hbatch := mem_ticksFromTo.mp ht
  have hthere := h.seen t hbatch.1 hbatch.2 (hseen t)
  obtain ⟨x, hx⟩ := Option.isSome_iff_exists.mp (h.holds.both ⟨hbatch, hdeleted t⟩ hthere)
  exact LogHistory.readsRange_of_summary hx (h.holds.summary ⟨hbatch, hdeleted t⟩ hx)

/-- Other threads add what is of the epoch, or delete elsewhere. -/
theorem Rescue.Sound.of_holds (h : r.Sound H db)
    (hholds : ∀ {T I : Nat → Prop}, H.HoldsOn T I db → H.HoldsOn T I db')
    (hseen : r.phase.isDone = false → ∀ t, r.processFromTick ≤ t → t ≤ r.processToTick →
      (db.logRanges t).isSome = true → (db'.logRanges t).isSome = true) : r.Sound H db' where
  holds := hholds h.holds
  seen t hle hge hsee := by
    cases hdone : r.phase.isDone with
    | false => exact hseen hdone t hle hge (h.seen t hle hge hsee)
    | true =>
        cases hphase : r.phase with
        | done vle =>
            rw [hphase] at hsee
            exact hsee.elim
        | _ =>
            rw [hphase] at hdone
            cases hdone
  range := h.range
  result := h.result

/-- What rescue mode ends with. -/
theorem Rescue.Sound.reread (h : r.Sound H db) (hordered : H.Ordered) {kv : LogStore}
    (hkv : ∀ {id c}, kv.log H.epoch id = some c → ∃ le, H.log id = some le ∧ c = le.content)
    {fromId length : Int} (hphase : r.phase = .reread fromId length)
    (hlength : ((dbGetLogsByTickRange K ⟨db.logStore, kv⟩ H.epoch r.processFromTick
      r.processToTick).1.length : Int) = length) :
    (dbGetLogsByTickRange K ⟨db.logStore, kv⟩ H.epoch r.processFromTick r.processToTick).1 =
      (ticksFromTo r.processFromTick r.processToTick).flatMap H.logsOfTick := by
  have hreads := h.readsRange (fun t => by rw [hphase]; exact trivial)
    (fun t => by rw [hphase]; exact trivial) kv
  have hcombined := h.range (fromId, length) (by rw [hphase]; rfl) _ hreads
  refine batch_of_gate hordered hreads (fun id hid le hread => ?_) ?_
  · rw [mem_hullIds, hcombined] at hid
    have hdeleted : r.phase.DeletedId id := by
      rw [hphase]
      exact hid
    have hofContent : ∀ {store : LogStore}, (∀ {c}, store.log H.epoch id = some c →
        ∃ le, H.log id = some le ∧ c = le.content) → dbGetLog store H.epoch id = some le →
        H.log id = some le := by
      intro store hstore hget
      unfold dbGetLog at hget
      split at hget
      · cases hget
      · next c hc =>
        obtain ⟨le', hlog, rfl⟩ := hstore hc
        dsimp only at hget
        split at hget
        · cases hget
        split at hget
        · cases hget
        · rw [hlog, ← Option.some.inj hget]
    rw [dbTryGetLog] at hread
    split at hread
    · next log hkeydb =>
      obtain rfl := Option.some.inj hread
      exact hofContent (h.holds.logs hdeleted) hkeydb
    · exact hofContent hkv hread
  · rw [entersRescueMode, hcombined]
    exact decide_eq_false fun hne => hne.2.2 hlength

theorem RescueSync.kept_of_sound {s' : RescueSync} {r' : Rescue} (hlinked : s'.sync.Linked H)
    (hepoch : s'.gCurrentProcessingEpoch = H.epoch) (hrescue : s'.rescue = some r')
    (hsound : r'.Sound H s'.sync.db) : s'.Kept H :=
  ⟨hlinked, hepoch, fun _ hr => Option.some.inj (hrescue.symm.trans hr) ▸ hsound⟩

/-- Each step of the verifier. -/
theorem RescueSync.Kept.rescueStep (h : s.Kept H) (hordered : H.Ordered) {kv : LogStore}
    (hkv : ∀ {id c}, kv.log H.epoch id = some c → ∃ le, H.log id = some le ∧ c = le.content)
    (hr : s.rescue = some r) : (s.rescueStep kv r).Kept H := by
  have hsound := h.sound r hr
  have hlinked := h.linked
  have hepoch := h.fetcherEpoch
  obtain ⟨a, b, phase⟩ := r
  unfold RescueSync.rescueStep
  dsimp only
  cases phase with
  | deleteRanges t =>
      dsimp only
      split
      · refine RescueSync.kept_of_sound ⟨hlinked.hash, hlinked.epoch, hlinked.noted⟩ hepoch rfl
          ⟨?_, fun u _ _ hsee => hsee.elim, nofun, nofun⟩
        refine (hsound.holds.dbDeleteLogRanges t).mono (fun u hu => ?_) fun _ hi => hi
        rcases Nat.lt_succ_iff_lt_or_eq.mp hu.2 with hlt | heq
        · exact .inl ⟨hu.1, hlt⟩
        · exact .inr heq
      · next hend =>
        refine RescueSync.kept_of_sound ⟨hlinked.hash, hlinked.epoch, hlinked.noted⟩ hepoch rfl
          ⟨?_, fun u hle _ hsee => absurd hsee (Nat.not_lt.mpr hle), nofun, nofun⟩
        exact hsound.holds.mono (fun u hu => ⟨hu.1, hu.1.2.trans_lt (Nat.not_le.mp hend)⟩)
          fun _ hi => hi
  | waitRanges t =>
      dsimp only
      split
      · split
        · next hcheck =>
          refine RescueSync.kept_of_sound hlinked hepoch rfl ⟨hsound.holds, fun u hle hge hsee => ?_, nofun, nofun⟩
          rcases Nat.lt_succ_iff_lt_or_eq.mp hsee with hlt | rfl
          · exact hsound.seen u hle hge hlt
          · exact hcheck
        · exact RescueSync.kept_of_sound hlinked hepoch rfl ⟨hsound.holds,
            fun u hle _ hsee => absurd hsee (Nat.not_lt.mpr hle), nofun, nofun⟩
      · next hend =>
        exact RescueSync.kept_of_sound ⟨hlinked.hash, hlinked.epoch, hlinked.noted⟩ hepoch rfl
          ⟨hsound.holds, fun u hle hge _ => hsound.seen u hle hge (hge.trans_lt (Nat.not_le.mp hend)),
            nofun, nofun⟩
  | combine =>
      refine RescueSync.kept_of_sound hlinked hepoch rfl ⟨?_, hsound.seen, fun x hx => ?_, nofun⟩
      · exact hsound.holds.mono (fun _ ht => ht) fun i hi => absurd hi.1 (not_le.mpr hi.2)
      · rw [← Option.some.inj hx]
        exact LogHistory.combinedRange_of_reads
          (hsound.readsRange (fun _ => trivial) (fun _ => trivial) kv)
  | deleteLogs fromId length id =>
      dsimp only
      split
      · refine RescueSync.kept_of_sound ⟨hlinked.hash, hlinked.epoch, hlinked.noted⟩ hepoch rfl
          ⟨?_, hsound.seen, hsound.range, nofun⟩
        rw [hepoch]
        refine (hsound.holds.dbDeleteLog id).mono (fun _ ht => ht) fun i hi => ?_
        rcases Int.lt_or_eq_of_le (Int.lt_add_one_iff.mp hi.2) with hlt | heq
        · exact .inl ⟨hi.1, hlt⟩
        · exact .inr heq
      · next hend =>
        refine RescueSync.kept_of_sound ⟨hlinked.hash, hlinked.epoch, hlinked.noted⟩ hepoch rfl
          ⟨?_, hsound.seen, hsound.range, nofun⟩
        exact hsound.holds.mono (fun _ ht => ht) fun i hi => ⟨hi.1, by have := hi.2; omega⟩
  | waitLogs fromId length lid =>
      dsimp only
      split
      · split
        · exact RescueSync.kept_of_sound hlinked hepoch rfl ⟨hsound.holds, hsound.seen, hsound.range, nofun⟩
        · exact RescueSync.kept_of_sound hlinked hepoch rfl ⟨hsound.holds, hsound.seen, hsound.range, nofun⟩
      · exact RescueSync.kept_of_sound hlinked hepoch rfl ⟨hsound.holds, hsound.seen, hsound.range, nofun⟩
  | reread fromId length =>
      dsimp only
      rw [hlinked.hash, hepoch]
      split
      · next hlength =>
        refine RescueSync.kept_of_sound ⟨hlinked.hash, hlinked.epoch, hlinked.noted⟩ hepoch rfl
          ⟨hsound.holds.mono (fun _ ht => ht) fun _ hi => hi.elim, fun _ _ _ hsee => hsee.elim, nofun,
            fun vle hvle => ?_⟩
        obtain rfl := RescuePhase.done.inj hvle
        exact hsound.reread hordered hkv rfl hlength
      · refine RescueSync.kept_of_sound hlinked hepoch rfl ⟨?_, hsound.seen, hsound.range, nofun⟩
        exact hsound.holds.mono (fun _ ht => ht) fun i hi => absurd hi.1 (not_le.mpr hi.2)
  | done vle => exact h

/-- A batch of which nothing has been deleted yet. -/
theorem RescueSync.Kept.enter (h : s.Kept H) (processFromTick processToTick : Nat) :
    (s.step (.enter processFromTick processToTick)).Kept H := by
  rw [RescueSync.step]
  split
  · refine kept_of_sound h.linked h.fetcherEpoch rfl
      ⟨⟨fun ht => ?_, fun ht => ?_, fun ht => ?_, fun hi => hi.elim⟩, fun _ _ _ hsee => hsee.elim,
        nofun, nofun⟩
    · exact absurd ht.2 (Nat.not_lt.mpr ht.1.1)
    · exact absurd ht.2 (Nat.not_lt.mpr ht.1.1)
    · exact absurd ht.2 (Nat.not_lt.mpr ht.1.1)
  · exact h

/-- Each step of the other threads. -/
theorem RescueSync.Kept.other (h : s.Kept H) (st : LogSyncStep) (hok : s.Ok H (.other st)) :
    (s.step (.other st)).Kept H := by
  have hlinked := h.linked
  cases st with
  | fetch kvrocks up route =>
      have hfresh := hok.2
      obtain ⟨hepoch, -, -⟩ := @LogFetcher.step_frame ⟨s.sync.db, kvrocks, up⟩ s.sync.fetcher
      have hfetcher : LogSync.Linked H
          { s.sync with fetcher := (s.sync.fetcher.step ⟨s.sync.db, kvrocks, up⟩).2 } :=
        ⟨hlinked.hash, hlinked.epoch, hlinked.noted⟩
      rw [RescueSync.step, LogSync.step]
      split
      · exact ⟨hfetcher, hepoch.trans h.fetcherEpoch, h.sound⟩
      · next req hreq =>
        obtain ⟨hasked, hdb⟩ := hfetcher.ask (LogFetcher.step_request hreq) route (hfresh req hreq)
        obtain ⟨hsame, -, -⟩ := LogSync.ask_frame
          { s.sync with fetcher := (s.sync.fetcher.step ⟨s.sync.db, kvrocks, up⟩).2 }
          (LogFetcher.step_request hreq) route
        refine ⟨hasked, ?_, fun r hr => ?_⟩
        · rw [RescueSync.gCurrentProcessingEpoch, hsame]
          exact hepoch.trans h.fetcherEpoch
        · dsimp only
          rw [hdb]
          exact h.sound r hr
  | peer st =>
      have hnone : H.HoldsOn (fun _ => False) (fun _ => False) s.sync.db :=
        ⟨fun ht => ht.elim, fun ht => ht.elim, fun ht => ht.elim, fun hi => hi.elim⟩
      obtain ⟨hlinked', -, hgrow⟩ := hlinked.peer hnone st hok
      refine ⟨hlinked', h.fetcherEpoch, fun r hr => ?_⟩
      exact (h.sound r hr).of_holds (fun hon => (hlinked.peer hon st hok).2.1)
        fun _ t _ _ hsome => hgrow.ranges hsome
  | progressTick tick =>
      exact ⟨⟨hlinked.hash, hlinked.epoch, hlinked.noted⟩, h.fetcherEpoch, h.sound⟩
  | refetch fromTick toTick fromId toId => exact hok.elim
  | clean tick epoch kvrocks hasTransaction =>
      rw [RescueSync.step, LogSync.step]
      split
      · exact ⟨⟨hlinked.hash, hlinked.epoch, hlinked.noted⟩, h.fetcherEpoch, h.sound⟩
      · exact h
  | delete =>
      rw [RescueSync.step, LogSync.step]
      split
      · exact h
      · next d ds hcleaning =>
        refine ⟨⟨hlinked.hash, hlinked.epoch, hlinked.noted⟩, h.fetcherEpoch, fun r hr => ?_⟩
        refine (h.sound r hr).of_holds (fun hon => hon.deletes (d.deletes s.sync.db))
          fun hdone t hle hge hsome => ?_
        cases d with
        | deleteLogs epoch start last => exact hsome
        | deleteLogRanges tick =>
            -- the cleaner is not at the batch
            have hne : t ≠ tick := by
              rintro rfl
              exact hok t (by rw [hcleaning, List.head?_cons]) r hr hdone ⟨hle, hge⟩
            exact (congrArg Option.isSome (Function.update_of_ne hne _ _)).trans hsome
  | restart gCurrentFetchingTick =>
      exact ⟨⟨hlinked.hash, hlinked.epoch, fun a ha => absurd ha List.not_mem_nil⟩, h.fetcherEpoch,
        fun r hr => by cases hr⟩

theorem RescueSync.Kept.step (h : s.Kept H) (hordered : H.Ordered) (st : RescueStep)
    (hok : s.Ok H st) : (s.step st).Kept H := by
  cases st with
  | enter processFromTick processToTick => exact h.enter processFromTick processToTick
  | rescue kvrocks =>
      cases hr : s.rescue with
      | none =>
          rw [RescueSync.step]
          simp only [hr]
          exact h
      | some r =>
          rw [RescueSync.step]
          simp only [hr]
          exact h.rescueStep hordered hok hr
  | other st => exact h.other st hok

theorem RescueSync.Starts.kept (h : s.Starts H) : s.Kept H :=
  ⟨h.linked, h.fetcherEpoch, fun r hr => by rw [h.rescue] at hr; cases hr⟩

end invariant

/-- **Rescued batches.** In every run, whatever KeyDB had of ranges and logs when it began, each batch
that the verifier takes out of rescue mode has the logs the other nodes have of it. -/
theorem rescued_batch {K : KangarooTwelve} {H : LogHistory K} {s : RescueSync}
    {steps : List RescueStep} (hordered : H.Ordered) (hs : s.Starts H)
    (hok : Runs.Guarded RescueSync.step (fun s st => s.Ok H st) s steps)
    {processFromTick processToTick : Nat} {vle : List LogEvent}
    (hdone : (Runs.run RescueSync.step s steps).rescue =
      some ⟨processFromTick, processToTick, .done vle⟩) :
    vle = (ticksFromTo processFromTick processToTick).flatMap H.logsOfTick := by
  have hkept := @Runs.run_invariant _ _ RescueSync.step (fun s st => s.Ok H st)
    (RescueSync.Kept H) (fun _ st h hst => h.step hordered st hst) _ steps hs.kept hok
  exact (hkept.sound _ hdone).result vle rfl

/-! ## One rescued batch -/

/-- An answer that comes while its request is noted is stored. -/
theorem LogSync.db_step_logRanges (s : LogSync) {a : AskedRequest} {tick : Nat} {b : List Byte}
    (hreq : a.request = .RequestAllLogIdRangesFromTick tick)
    (hlen : b.length = LogRangesPerTxInTick.sizeOf)
    (hget : s.peer.node.requestMapperFrom.get a.dejavu.toNat = some a.packet) (k : Nat) :
    (s.step (.peer (.data true k
        (enqueueWithHeader a.dejavu.toNat LOG_RANGES_PER_TX_IN_TICK b)))).db =
      s.db.dbInsertLogRange (tick % 2 ^ 32) b := by
  obtain ⟨htype, hsize⟩ := header_enqueueWithHeader a.dejavu.toNat LOG_RANGES_PER_TX_IN_TICK b
    (by decide) (by rw [hlen]; decide)
  have hpacket := length_enqueueWithHeader a.dejavu.toNat LOG_RANGES_PER_TX_IN_TICK b
  have hstored := @processData_logRanges s.peer.env s.peer.node b hlen a.dejavu
    ((s.peer.bufs k).drop (enqueueWithHeader a.dejavu.toNat LOG_RANGES_PER_TX_IN_TICK b).length)
  dsimp only at hstored
  generalize enqueueWithHeader a.dejavu.toNat LOG_RANGES_PER_TX_IN_TICK b = packet
    at htype hsize hpacket hstored ⊢
  have hmax : packet.length < RequestResponseHeader.max_size := by
    rw [hpacket, hlen]
    decide
  have hadmitted : PeerNode.admittedData true packet = true := by
    rw [PeerNode.admittedData, htype, decide_eq_true hmax.le,
      decide_eq_true (show MutexRoundBuffer.IsPacket packet from ⟨by omega, hsize.trans hpacket.symm⟩)]
    decide
  rw [LogSync.step, PeerNode.step, if_pos hadmitted]
  dsimp only [LogSync.db]
  rw [PeerNode.dataProcessorThread_snd _ _ _ (by omega), if_neg (Nat.not_le.mpr hmax), htype,
    hstored, hget, Option.getD_some, if_pos (by rw [AskedRequest.length_packet, hreq]),
    AskedRequest.readLE_packet hreq]

/-- The two verifiers go the same way. -/
structure RescueSync.SameView (s s' : RescueSync) : Prop where
  hash : s.sync.peer.env.K = s'.sync.peer.env.K
  epoch : s.gCurrentProcessingEpoch = s'.gCurrentProcessingEpoch
  db : s.sync.db = s'.sync.db
  rescue : s.rescue = s'.rescue

theorem RescueSync.SameView.step {s s' : RescueSync} (h : s.SameView s') (kvrocks : LogStore) :
    (s.step (.rescue kvrocks)).SameView (s'.step (.rescue kvrocks)) := by
  rw [RescueSync.step, RescueSync.step, h.rescue]
  cases hrescue : s'.rescue with
  | none => exact h
  | some r =>
      obtain ⟨a, b, phase⟩ := r
      dsimp only
      rw [RescueSync.rescueStep, RescueSync.rescueStep, h.hash, h.epoch, h.db]
      cases phase with
      | done vle => exact h
      | combine => exact ⟨h.hash, h.epoch, h.db, rfl⟩
      | waitLogs fromId length lid =>
          dsimp only
          split
          · split <;> exact ⟨h.hash, h.epoch, h.db, rfl⟩
          · exact ⟨h.hash, h.epoch, h.db, rfl⟩
      | waitRanges t =>
          dsimp only
          split
          · split <;> exact ⟨h.hash, h.epoch, h.db, rfl⟩
          · exact ⟨h.hash, h.epoch, h.db, rfl⟩
      | deleteRanges t =>
          dsimp only
          split
          · exact ⟨h.hash, h.epoch, rfl, rfl⟩
          · exact ⟨h.hash, h.epoch, h.db, rfl⟩
      | deleteLogs fromId length id =>
          dsimp only
          split
          · exact ⟨h.hash, h.epoch, rfl, rfl⟩
          · exact ⟨h.hash, h.epoch, h.db, rfl⟩
      | reread fromId length =>
          dsimp only
          split <;> exact ⟨h.hash, h.epoch, h.db, rfl⟩

theorem RescueSync.SameView.run {s s' : RescueSync} (h : s.SameView s') (kvrocks : LogStore)
    (n : Nat) : (Runs.run RescueSync.step s (List.replicate n (.rescue kvrocks))).SameView
      (Runs.run RescueSync.step s' (List.replicate n (.rescue kvrocks))) := by
  induction n generalizing s s' with
  | zero => exact h
  | succ n ih => exact ih (h.step kvrocks)

/-- KeyDB has no log ranges, and the log 5 as an empty record. -/
def malformedStart : RescueSync where
  sync := { oneTickStart with peer := { oneTickStart.peer with
    node := { emptyNode with db := { emptyNode.db with
      logs := fun epoch id => if epoch = 0 ∧ id = 5 then some [] else none } } } }
  rescue := none

def oneTickRequest : AskedRequest := ⟨.RequestAllLogIdRangesFromTick 1, 0, 0, 1, trivial⟩

def oneTickRoute : Route := ⟨0, 0, 1, by decide⟩

def oneTickAnswer : List Byte :=
  enqueueWithHeader oneTickRequest.dejavu.toNat LOG_RANGES_PER_TX_IN_TICK (oneRange 5 1).bytes

/-- To the request for the log ranges of tick 1. -/
def untilAsked : List RescueStep :=
  [.enter 1 1, .rescue emptyLogDB.kvrocks, .rescue emptyLogDB.kvrocks,
    .other (.fetch (fun _ => none) true none), .other (.fetch (fun _ => none) true (some oneTickRoute))]

theorem asked_untilAsked :
    (Runs.run RescueSync.step malformedStart untilAsked).sync.asked = [oneTickRequest] := rfl

theorem noted_untilAsked : (Runs.run RescueSync.step malformedStart
    untilAsked).sync.peer.node.requestMapperFrom.get oneTickRequest.dejavu.toNat =
      some oneTickRequest.packet := by
  decide +kernel

theorem answerTo_oneTickRequest : oneTickHistory.AnswerTo oneTickRequest oneTickAnswer := by
  refine ⟨{ logServing emptyLogDB with
      tryGetLog := fun _ _ => none
      tryGetLogRanges := oneTickHistory.ranges
      gCurrentVerifyLoggingTick := 2 }, 0, 0,
    [reply 0 1 LOG_RANGES_PER_TX_IN_TICK (oneRange 5 1).bytes], ⟨rfl, id, nofun⟩, ?_, ?_⟩
  · have hptr : oneTickRequest.packet.drop 8 = oneTickRequest.request.bytes 0 0 :=
      drop_enqueueWithHeader _ _ _
    have htick : readLE (oneTickRequest.request.bytes 0 0) 32 4 = 1 := readLE_tick 0 0
    have hpasscode : passcodeIsZero (oneTickRequest.request.bytes 0 0) = true := by decide +kernel
    rw [hptr]
    refine (replyTo_logRange _ _ _ _).trans (congrArg Except.ok ?_)
    rw [replyLogRange, htick, hpasscode, if_neg (by decide), if_neg (by decide)]
    rfl
  · rw [oneTickAnswer, ← reply_eq_enqueueWithHeader 0]
    exact List.mem_singleton.mpr rfl

def afterAnswer : List RescueStep :=
  .other (.peer (.data true 0 oneTickAnswer)) :: List.replicate 8 (.rescue oneLogDB.keydb)

theorem guarded_malformedStart : Runs.Guarded RescueSync.step (fun s st => s.Ok oneTickHistory st)
    malformedStart (untilAsked ++ afterAnswer) := by
  have hkv : ∀ {id c}, oneLogDB.keydb.log oneTickHistory.epoch id = some c →
      ∃ le, oneTickHistory.log id = some le ∧ c = le.content := by
    intro id c h
    obtain ⟨⟨-, rfl⟩, h⟩ := Option.ite_none_right_eq_some.mp h
    exact ⟨storedLog, rfl, (Option.some.inj h).symm⟩
  refine Runs.guarded_append.mpr ⟨?_, ?_⟩
  · refine ⟨trivial, nofun, nofun, ⟨nofun, fun _ _ _ h => nomatch h⟩, ⟨nofun, ?_⟩, trivial⟩
    intro r _ ρ _ a ha
    cases ha
  · refine ⟨.inr ⟨oneTickRequest, ?_, answerTo_oneTickRequest⟩, ?_⟩
    · rw [asked_untilAsked]
      exact List.mem_singleton.mpr rfl
    · have hforall : ∀ st ∈ List.replicate 8 (RescueStep.rescue oneLogDB.keydb),
          ∀ s : RescueSync, s.Ok oneTickHistory st := by
        intro st hst s
        rw [List.eq_of_mem_replicate hst]
        exact hkv
      exact (Runs.guarded_of_forall hforall _).mono fun s _ hst => hst s

theorem RescueSync.sameView_answer (s : RescueSync) {a : AskedRequest} {tick : Nat} {b : List Byte}
    (hreq : a.request = .RequestAllLogIdRangesFromTick tick)
    (hlen : b.length = LogRangesPerTxInTick.sizeOf)
    (hget : s.sync.peer.node.requestMapperFrom.get a.dejavu.toNat = some a.packet) (k : Nat) :
    (s.step (.other (.peer (.data true k
        (enqueueWithHeader a.dejavu.toNat LOG_RANGES_PER_TX_IN_TICK b))))).SameView
      ⟨s.sync.withDb (s.sync.db.dbInsertLogRange (tick % 2 ^ 32) b), s.rescue⟩ := by
  have hdb := s.sync.db_step_logRanges hreq hlen hget k
  generalize enqueueWithHeader a.dejavu.toNat LOG_RANGES_PER_TX_IN_TICK b = packet at hdb ⊢
  refine ⟨?_, rfl, hdb, rfl⟩
  rw [RescueSync.step, LogSync.step, PeerNode.step]
  dsimp only
  split <;> rfl

/-- The log ranges are there again. -/
def answeredState : RescueSync :=
  let s := Runs.run RescueSync.step malformedStart untilAsked
  ⟨s.sync.withDb { s.sync.db with
      logRanges := Function.update s.sync.db.logRanges 1
        (setNX (s.sync.db.logRanges 1) (oneRange 5 1).bytes)
      tickLogRange := Function.update s.sync.db.tickLogRange 1 (some (5, 1)) }, s.rescue⟩

theorem sameView_answeredState : ((Runs.run RescueSync.step malformedStart untilAsked).step
    (.other (.peer (.data true 0 oneTickAnswer)))).SameView answeredState := by
  have hranges : ∀ tick, tick = 1 → oneTickHistory.ranges tick = some (oneRange 5 1).bytes :=
    fun tick htick => if_pos htick
  have hsummary := (@summary_oneTickHistory 1).trans (if_pos rfl)
  rw [LogHistory.summary, hranges 1 rfl, Option.map_some] at hsummary
  have hlen := oneTickHistory.ranges_length (hranges 1 rfl)
  have hview := RescueSync.sameView_answer _ rfl hlen noted_untilAsked 0
  rw [dbInsertLogRange_of_accepted _ hlen (oneTickHistory.ranges_accepted (hranges 1 rfl)),
    Option.some.inj hsummary] at hview
  exact hview

theorem done_answeredState : ((Runs.run RescueSync.step answeredState
    (List.replicate 8 (.rescue oneLogDB.keydb))).rescue.map fun r =>
      (r.processFromTick, r.processToTick, r.phase.isDone)) = some (1, 1, true) := by
  decide +kernel

/-- Tick 1 with an empty record for its log. -/
theorem rescued_batch_malformed : ∃ vle, (Runs.run RescueSync.step malformedStart
    (untilAsked ++ afterAnswer)).rescue = some ⟨1, 1, .done vle⟩ ∧
      vle = (ticksFromTo 1 1).flatMap oneTickHistory.logsOfTick := by
  have hview := (sameView_answeredState.run oneLogDB.keydb 8).rescue
  have hrun : Runs.run RescueSync.step malformedStart (untilAsked ++ afterAnswer) =
      Runs.run RescueSync.step ((Runs.run RescueSync.step malformedStart untilAsked).step
        (.other (.peer (.data true 0 oneTickAnswer))))
        (List.replicate 8 (.rescue oneLogDB.keydb)) := by
    rw [Runs.run_append, afterAnswer, Runs.run_cons]
  have hdone : ∃ vle, (Runs.run RescueSync.step malformedStart
      (untilAsked ++ afterAnswer)).rescue = some ⟨1, 1, .done vle⟩ := by
    obtain ⟨⟨a, b, phase⟩, hr, hend⟩ := Option.map_eq_some_iff.mp done_answeredState
    obtain ⟨rfl, hend⟩ := Prod.mk.inj hend
    obtain ⟨rfl, hphase⟩ := Prod.mk.inj hend
    rw [hrun, hview, hr]
    cases phase with
    | done vle => exact ⟨vle, rfl⟩
    | _ => cases hphase
  obtain ⟨vle, hvle⟩ := hdone
  exact ⟨vle, hvle, rescued_batch ordered_oneTickHistory
    ⟨⟨rfl, rfl, fun a ha => absurd ha List.not_mem_nil⟩, rfl, rfl⟩ guarded_malformedStart hvle⟩

end QubicBob
