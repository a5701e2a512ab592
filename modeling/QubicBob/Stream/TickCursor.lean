import QubicBob.Stream.Delivery

set_option autoImplicit false

/-! # A cursor by ticks

A client that subscribes with `lastTick = T` is to be sent what it missed and then what comes. The
replay goes up to the tick before `gCurrentVerifyLoggingTick`, which the verifier advances only
after all pushes of a batch, and the live push passes the client over while its replay is under way.
What is pushed in that time is above the end of the replay, and so is what was pushed of a batch
before the client's keys were there.

The proof follows the phase of the client's handler. `TickPhase` says for each phase which stretch
of ticks is delivered: while the client has no replay, all that has passed since its keys were set;
in a replay, the ticks up to the next batch, and what has passed beyond the end of the replay. When
the replay ends the two stretches meet, as every log up to its end is one that the replay went
through: `Progress` says that the logs below `gCurrentVerifyLoggingTick` are all among those that
have passed, and a range of present ticks is read in full. The condition `HandedOver` takes out the
two gaps of the code, a push during the replay and a replay that ends below what had passed.
-/

namespace QubicBob

/-! ## Ticks in order -/

/-- When the logs of a batch are in the order of their ticks so are its groups, and each group has
the tick of a log of the batch. -/
theorem groupLoop_increasing (vle : List LogEvent) {currentTick : Nat} {tickLogs : List LogEvent}
    (htick : ∀ log ∈ tickLogs, log.getTick.toNat = currentTick)
    (hsorted : (tickLogs ++ vle).Pairwise (fun log log' => log.getTick.toNat ≤ log'.getTick.toNat)) :
    (groupLoop currentTick tickLogs vle).Pairwise (fun group group' => group.1 < group'.1) ∧
      ∀ group ∈ groupLoop currentTick tickLogs vle,
        ∃ log ∈ tickLogs ++ vle, log.getTick.toNat = group.1 := by
  induction vle generalizing currentTick tickLogs with
  | nil =>
      rw [groupLoop]
      split
      · exact ⟨List.Pairwise.nil, fun _ hg => absurd hg List.not_mem_nil⟩
      · next hne =>
          obtain ⟨log, hlog⟩ := List.exists_mem_of_ne_nil _ hne
          refine ⟨List.pairwise_singleton _ _, fun group hg => ?_⟩
          rw [List.mem_singleton.mp hg]
          exact ⟨log, List.mem_append_left _ hlog, htick log hlog⟩
  | cons log vle ih =>
      rw [groupLoop]
      split
      · next hnew =>
          obtain ⟨first, hfirst⟩ := List.exists_mem_of_ne_nil _ hnew.2
          obtain ⟨-, hrest, hbetween⟩ := List.pairwise_append.mp hsorted
          have hcur : currentTick < log.getTick.toNat := by
            have hle := hbetween first hfirst log List.mem_cons_self
            rw [htick first hfirst] at hle
            exact lt_of_le_of_ne hle (fun heq => hnew.1 heq.symm)
          have hsingle : ∀ log' ∈ [log], log'.getTick.toNat = log.getTick.toNat :=
            fun log' hl => by rw [List.mem_singleton.mp hl]
          obtain ⟨hpairwise, hmem⟩ := ih hsingle hrest
          constructor
          · refine List.pairwise_cons.mpr ⟨fun group hg => ?_, hpairwise⟩
            obtain ⟨log', hlog', heq⟩ := hmem group hg
            rw [← heq]
            rcases List.mem_cons.mp hlog' with rfl | hlog'
            · exact hcur
            · exact lt_of_lt_of_le hcur ((List.pairwise_cons.mp hrest).1 log' hlog')
          · intro group hg
            rcases List.mem_cons.mp hg with rfl | hg
            · exact ⟨first, List.mem_append_left _ hfirst, htick first hfirst⟩
            · obtain ⟨log', hlog', heq⟩ := hmem group hg
              exact ⟨log', List.mem_append_right _ hlog', heq⟩
      · next hsame =>
          have htick' : ∀ log' ∈ tickLogs ++ [log], log'.getTick.toNat = log.getTick.toNat := by
            intro log' hl
            rcases List.mem_append.mp hl with hl | hl
            · rw [htick log' hl]
              by_contra hne
              exact hsame ⟨fun heq => hne heq.symm, List.ne_nil_of_mem hl⟩
            · rw [List.mem_singleton.mp hl]
          have happend : tickLogs ++ log :: vle = (tickLogs ++ [log]) ++ vle := by
            rw [List.append_assoc, List.singleton_append]
          rw [happend] at hsorted ⊢
          exact ih htick' hsorted

theorem groupByTick_increasing {vle : List LogEvent}
    (hsorted : vle.Pairwise (fun log log' => log.getTick.toNat ≤ log'.getTick.toNat)) :
    (groupByTick vle).Pairwise (fun group group' => group.1 < group'.1) ∧
      ∀ group ∈ groupByTick vle, ∃ log ∈ vle, log.getTick.toNat = group.1 :=
  groupLoop_increasing vle (fun _ h => absurd h List.not_mem_nil) hsorted

namespace StreamServer

variable (E : StreamEnv) (world : Nat → List LogEvent)

/-- A log of the epoch, given by the logs of each tick. -/
def OfWorld (log : LogEvent) : Prop := log ∈ world log.getTick.toNat

/-- The tick's range is known, and its logs are stored and pass the checks. -/
def Present (s : StreamServer) (tick : Nat) : Prop :=
  rangeKnown s.db tick = true ∧ tickLogs s.db E.epoch tick = world tick ∧
    ∀ log ∈ world tick, acceptsLog E.K E.epoch tick tick log = true

section present

variable {E world} {s : StreamServer} {startTick endTick : Nat}

theorem Present.tick {t : Nat} (h : Present E world s t) {log : LogEvent} (hlog : log ∈ world t) :
    log.getTick.toNat = t := by
  have hacc := h.2.2 log hlog
  unfold acceptsLog at hacc
  rw [Bool.and_eq_true, Bool.and_eq_true, decide_eq_true_eq] at hacc
  exact le_antisymm hacc.1.2.2 hacc.1.2.1

/-- A range of present ticks is read in full. -/
theorem dbGetLogsByTickRange_present
    (h : ∀ t ∈ ticksFromTo startTick endTick, Present E world s t) :
    dbGetLogsByTickRange E.K s.db E.epoch startTick endTick =
      ((ticksFromTo startTick endTick).flatMap world, true) := by
  have haccepted : ∀ t ∈ ticksFromTo startTick endTick, ∀ log ∈ tickLogs s.db E.epoch t,
      acceptsLog E.K E.epoch t t log = true := by
    intro t ht
    rw [(h t ht).2.1]
    exact (h t ht).2.2
  rw [dbGetLogsByTickRange_of_accepted (fun t ht => (h t ht).1) haccepted,
    List.flatMap_congr fun t ht => (h t ht).2.1]

theorem mem_flatMap_present (h : ∀ t ∈ ticksFromTo startTick endTick, Present E world s t)
    {log : LogEvent} : log ∈ (ticksFromTo startTick endTick).flatMap world ↔
      OfWorld world log ∧ startTick ≤ log.getTick.toNat ∧ log.getTick.toNat ≤ endTick := by
  rw [List.mem_flatMap]
  constructor
  · rintro ⟨t, ht, hlog⟩
    have heq := (h t ht).tick hlog
    rw [OfWorld, heq]
    exact ⟨hlog, mem_ticksFromTo.mp ht⟩
  · rintro ⟨hlog, hrange⟩
    exact ⟨log.getTick.toNat, mem_ticksFromTo.mpr hrange, hlog⟩

/-- The logs of a range come in the order of their ticks. -/
theorem sorted_present (h : ∀ t ∈ ticksFromTo startTick endTick, Present E world s t) :
    ((ticksFromTo startTick endTick).flatMap world).Pairwise
      (fun log log' => log.getTick.toNat ≤ log'.getTick.toNat) := by
  rw [List.pairwise_flatMap]
  constructor
  · intro t ht
    refine List.pairwise_of_forall_mem_list fun log hlog log' hlog' => ?_
    rw [(h t ht).tick hlog, (h t ht).tick hlog']
  · have hticks : (ticksFromTo startTick endTick).Pairwise (· < ·) := List.pairwise_lt_range' 1
    refine List.Pairwise.imp_of_mem ?_ hticks
    intro t t' ht ht' hlt log hlog log' hlog'
    rw [(h t ht).tick hlog, (h t' ht').tick hlog']
    exact le_of_lt hlt

end present

/-- Outside of a catch-up, every log of the client's keys above its cursor, up to the highest tick
pushed, is delivered. The cursor is not below the epoch. -/
def NothingLost (c : WsConn) (s : StreamServer) : Prop :=
  ∀ T st, s.cursor c = .tick T → E.gInitialTick ≤ T + 1 → s.link c = .connected →
    s.manager.client c = some st → catchesUp (s.handler c) = false →
    ∀ log, OfWorld world log → st.subscribed log = true → T < log.getTick.toNat →
      log.getTick.toNat < s.pushedEnd → Delivered c s log

/-! ## The conditions -/

/-- The ticks that the next step of a handler reads are present. -/
def HandlerReadsPresent (s : StreamServer) : Handler → Prop
  | .replaying _ tick toTick =>
      ∀ t ∈ ticksFromTo tick (batchEnd tick toTick), Present E world s t
  | _ => True

/-- All logs are present where the verifier reads a batch and where the client's replay does. -/
def ReadsPresent (c : WsConn) (s : StreamServer) : StreamStep → Prop
  | .fetchBatch processToTick =>
      ∀ t ∈ ticksFromTo s.gCurrentVerifyLoggingTick processToTick, Present E world s t
  | .work conn => conn = c → s.HandlerReadsPresent E world (s.handler c)
  | _ => True

/-- A push reaches the client: what it brings above the cursor does not come during its replay and
is not below its minimum amount. -/
def PushOutsideReplay (group : List LogEvent) : Option ClientState → Cursor → Prop
  | some st, .tick T => ∀ log ∈ group, st.subscribed log = true → T < log.getTick.toNat →
      st.catchUpInProgress = false ∧ st.belowMinAmount log = false
  | _, _ => True

/-- The next step of the handler of a client with a cursor: its message names keys; the replay that
is triggered ends above what had passed before the cursor was set or the key was added; and the
replay does not run over the end of its 32-bit counter. -/
def HandlerHandsOver (c : WsConn) (s : StreamServer) : Handler → Cursor → Prop
  | .settingAmount _ msg, .tick _ => msg.keys.isSome = true
  | .subscribing _ [], .tick T => ∀ key ∈ s.manager.keysOf c,
      ∀ log ∈ s.verified.take (s.since c key), extractSubscriptionKey log = some key →
        T < log.getTick.toNat → log.getTick.toNat < s.gCurrentVerifyLoggingTick
  | .entering toTick, .tick _ => toTick + BATCH_SIZE < 2 ^ 32
  | _, _ => True

/-- The condition on a step. -/
def HandedOver (c : WsConn) (s : StreamServer) : StreamStep → Prop
  | .fetchBatch processToTick => processToTick + 1 < 2 ^ 32
  | .push => ∀ group ∈ s.verifier.nextPush,
      PushOutsideReplay group.2 (s.manager.client c) (s.cursor c)
  | .work conn => conn = c → s.HandlerHandsOver c (s.handler c) (s.cursor c)
  | _ => True

instance (s : StreamServer) (tick : Nat) : Decidable (Present E world s tick) :=
  inferInstanceAs (Decidable (_ ∧ _ ∧ _))

instance (s : StreamServer) : ∀ h : Handler, Decidable (s.HandlerReadsPresent E world h)
  | .replaying _ tick toTick => inferInstanceAs (Decidable
      (∀ t ∈ ticksFromTo tick (batchEnd tick toTick), Present E world s t))
  | .idle | .settingCursor _ _ | .settingAmount _ _ | .subscribing _ _ | .entering _
  | .completing _ | .enteringByLogId _ | .replayingByLogId _ _ _ | .completingByLogId _ =>
      isTrue trivial

instance (c : WsConn) (s : StreamServer) : ∀ a : StreamStep, Decidable (ReadsPresent E world c s a)
  | .fetchBatch processToTick => inferInstanceAs (Decidable
      (∀ t ∈ ticksFromTo s.gCurrentVerifyLoggingTick processToTick, Present E world s t))
  | .work conn => inferInstanceAs (Decidable
      (conn = c → s.HandlerReadsPresent E world (s.handler c)))
  | .chunk _ | .updateLatest _ | .logRange _ _ | .accept | .push | .advance | .dispatch
  | .connect _ | .close _ | .disconnect _ | .message _ _ | .unsubscribe _ _ | .unsubscribeAll _ =>
      isTrue trivial

instance (group : List LogEvent) :
    ∀ (o : Option ClientState) (cursor : Cursor), Decidable (PushOutsideReplay group o cursor)
  | some st, .tick T => inferInstanceAs (Decidable (∀ log ∈ group, st.subscribed log = true →
      T < log.getTick.toNat → st.catchUpInProgress = false ∧ st.belowMinAmount log = false))
  | none, _ | some _, .unset | some _, .logId _ => isTrue trivial

instance (c : WsConn) (s : StreamServer) :
    ∀ (h : Handler) (cursor : Cursor), Decidable (s.HandlerHandsOver c h cursor)
  | .settingAmount _ msg, .tick _ => inferInstanceAs (Decidable (msg.keys.isSome = true))
  | .subscribing _ [], .tick T => inferInstanceAs (Decidable (∀ key ∈ s.manager.keysOf c,
      ∀ log ∈ s.verified.take (s.since c key), extractSubscriptionKey log = some key →
        T < log.getTick.toNat → log.getTick.toNat < s.gCurrentVerifyLoggingTick))
  | .entering toTick, .tick _ => inferInstanceAs (Decidable (toTick + BATCH_SIZE < 2 ^ 32))
  | .settingAmount _ _, .unset | .settingAmount _ _, .logId _ | .subscribing _ [], .unset
  | .subscribing _ [], .logId _ | .subscribing _ (_ :: _), _ | .entering _, .unset
  | .entering _, .logId _ | .idle, _ | .settingCursor _ _, _ | .replaying _ _ _, _
  | .completing _, _ | .enteringByLogId _, _ | .replayingByLogId _ _ _, _
  | .completingByLogId _, _ => isTrue trivial

instance (c : WsConn) (s : StreamServer) : ∀ a : StreamStep, Decidable (HandedOver c s a)
  | .fetchBatch processToTick => inferInstanceAs (Decidable (processToTick + 1 < 2 ^ 32))
  | .push => inferInstanceAs (Decidable (∀ group ∈ s.verifier.nextPush,
      PushOutsideReplay group.2 (s.manager.client c) (s.cursor c)))
  | .work conn => inferInstanceAs (Decidable
      (conn = c → s.HandlerHandsOver c (s.handler c) (s.cursor c)))
  | .chunk _ | .updateLatest _ | .logRange _ _ | .accept | .advance | .dispatch | .connect _
  | .close _ | .disconnect _ | .message _ _ | .unsubscribe _ _ | .unsubscribeAll _ => isTrue trivial

/-! ## The verifier's progress -/

/-- Where the batch at hand is. The pushes go through its ticks in order. -/
def BatchPhase (world : Nat → List LogEvent) (s : StreamServer) : Verifier → Prop
  | .idle => s.pushedEnd ≤ s.gCurrentVerifyLoggingTick
  | .simulating processToTick vle => s.pushedEnd ≤ s.gCurrentVerifyLoggingTick ∧
      s.gCurrentVerifyLoggingTick ≤ processToTick ∧ processToTick + 1 < 2 ^ 32 ∧
      vle.Pairwise (fun log log' => log.getTick.toNat ≤ log'.getTick.toNat) ∧
      ∀ log, log ∈ vle ↔ OfWorld world log ∧ s.gCurrentVerifyLoggingTick ≤ log.getTick.toNat ∧
        log.getTick.toNat ≤ processToTick
  | .pushing processToTick groups => s.gCurrentVerifyLoggingTick ≤ processToTick ∧
      processToTick + 1 < 2 ^ 32 ∧ s.pushedEnd ≤ processToTick + 1 ∧
      groups.Pairwise (fun group group' => group.1 < group'.1) ∧
      (∀ group ∈ groups, s.gCurrentVerifyLoggingTick ≤ group.1 ∧ group.1 ≤ processToTick ∧
        s.pushedEnd ≤ group.1) ∧
      ∀ log, OfWorld world log → s.gCurrentVerifyLoggingTick ≤ log.getTick.toNat →
        log.getTick.toNat ≤ processToTick →
        log ∈ s.verified ∨ ∃ group ∈ groups, group.1 = log.getTick.toNat ∧ log ∈ group.2

/-- All logs of the ticks from the start up to `gCurrentVerifyLoggingTick` have passed. -/
structure Progress (world : Nat → List LogEvent) (startTick : Nat) (s : StreamServer) : Prop where
  start : startTick ≤ s.gCurrentVerifyLoggingTick
  passed : ∀ log, OfWorld world log → startTick ≤ log.getTick.toNat →
    log.getTick.toNat < s.gCurrentVerifyLoggingTick → log ∈ s.verified
  batch : BatchPhase world s s.verifier

section progress

variable {E world} {s s' : StreamServer} {startTick : Nat}

/-- Every log of the epoch from the start up to the highest tick pushed has passed. -/
theorem Progress.verified (h : Progress world startTick s) {log : LogEvent}
    (hlog : OfWorld world log) (hstart : startTick ≤ log.getTick.toNat)
    (hpushed : log.getTick.toNat < s.pushedEnd) : log ∈ s.verified := by
  by_cases hlt : log.getTick.toNat < s.gCurrentVerifyLoggingTick
  · exact h.passed log hlog hstart hlt
  · have hbatch := h.batch
    cases hv : s.verifier with
    | idle =>
        rw [hv] at hbatch
        change s.pushedEnd ≤ s.gCurrentVerifyLoggingTick at hbatch
        omega
    | simulating processToTick vle =>
        rw [hv] at hbatch
        have := hbatch.1
        omega
    | pushing processToTick groups =>
        rw [hv] at hbatch
        obtain ⟨-, -, hend, -, hgroups, hall⟩ := hbatch
        rcases hall log hlog (by omega) (by omega) with hverified | ⟨group, hg, heq, -⟩
        · exact hverified
        · -- its group would still be to come
          have := (hgroups group hg).2.2
          omega

theorem SameVerifier.progress (hs : SameVerifier s s') (h : Progress world startTick s) :
    Progress world startTick s' where
  start := by
    rw [hs.gCurrentVerifyLoggingTick]
    exact h.start
  passed := by
    rw [hs.gCurrentVerifyLoggingTick, hs.verified]
    exact h.passed
  batch := by
    have hbatch := h.batch
    rw [hs.verifier]
    unfold BatchPhase at hbatch ⊢
    rw [hs.gCurrentVerifyLoggingTick, hs.verified, hs.pushedEnd]
    exact hbatch

theorem Progress.fetchBatch (h : Progress world startTick s) {processToTick : Nat}
    (hle : s.gCurrentVerifyLoggingTick ≤ processToTick) (hsmall : processToTick + 1 < 2 ^ 32)
    (hidle : s.verifier = .idle)
    (hpresent : ∀ t ∈ ticksFromTo s.gCurrentVerifyLoggingTick processToTick, Present E world s t) :
    Progress world startTick { s with
      verifier := .simulating processToTick (dbGetLogsByTickRange E.K s.db E.epoch
        s.gCurrentVerifyLoggingTick processToTick).1 } := by
  have hbatch := h.batch
  rw [hidle] at hbatch
  refine { h with batch := ⟨hbatch, hle, hsmall, ?_, ?_⟩ }
  · rw [dbGetLogsByTickRange_present hpresent]
    exact sorted_present hpresent
  · rw [dbGetLogsByTickRange_present hpresent]
    exact fun log => mem_flatMap_present hpresent

theorem Progress.accept (h : Progress world startTick s) {processToTick : Nat}
    {vle : List LogEvent} (hphase : s.verifier = .simulating processToTick vle) :
    Progress world startTick (s.acceptBatch processToTick vle) := by
  have hbatch := h.batch
  rw [hphase] at hbatch
  obtain ⟨hend, hle, hsmall, hsorted, hvle⟩ := hbatch
  obtain ⟨hincreasing, hticks⟩ := groupByTick_increasing hsorted
  unfold acceptBatch
  split
  · refine { h with batch := ⟨hle, hsmall, ?_, hincreasing, ?_, ?_⟩ }
    · change s.pushedEnd ≤ processToTick + 1
      omega
    · intro group hg
      obtain ⟨log, hlog, heq⟩ := hticks group hg
      obtain ⟨-, hge, hto⟩ := (hvle log).mp hlog
      change s.gCurrentVerifyLoggingTick ≤ group.1 ∧ group.1 ≤ processToTick ∧ s.pushedEnd ≤ group.1
      omega
    · intro log hlog hge hto
      have hmem := (hvle log).mpr ⟨hlog, hge, hto⟩
      rw [← groupByTick_flatMap vle] at hmem
      obtain ⟨group, hg, hin⟩ := List.mem_flatMap.mp hmem
      exact Or.inr ⟨group, hg, (groupByTick_tick vle group hg log hin).symm, hin⟩
  · refine { h with passed := ?_, batch := ⟨hle, hsmall, ?_, List.Pairwise.nil, ?_, ?_⟩ }
    · exact fun log hlog hs hlt => List.mem_append_left _ (h.passed log hlog hs hlt)
    · change s.pushedEnd ≤ processToTick + 1
      omega
    · exact fun _ hg => absurd hg List.not_mem_nil
    · exact fun log hlog hge hto =>
        Or.inl (List.mem_append_right _ ((hvle log).mpr ⟨hlog, hge, hto⟩))

theorem Progress.push (h : Progress world startTick s) {processToTick tick : Nat}
    {logs : List LogEvent} {groups : List (Nat × List LogEvent)}
    (hphase : s.verifier = .pushing processToTick ((tick, logs) :: groups)) :
    Progress world startTick { s with
      verifier := .pushing processToTick groups
      queue := s.queue ++ s.manager.pushVerifiedLogs tick logs
      verified := s.verified ++ logs
      pushedEnd := max s.pushedEnd (tick + 1) } := by
  have hbatch := h.batch
  rw [hphase] at hbatch
  obtain ⟨hle, hsmall, hend, hincreasing, hgroups, hall⟩ := hbatch
  obtain ⟨hfirst, hincreasing⟩ := List.pairwise_cons.mp hincreasing
  have htick := hgroups _ List.mem_cons_self
  refine { h with passed := ?_, batch := ⟨hle, hsmall, ?_, hincreasing, ?_, ?_⟩ }
  · exact fun log hlog hs hlt => List.mem_append_left _ (h.passed log hlog hs hlt)
  · change max s.pushedEnd (tick + 1) ≤ processToTick + 1
    omega
  · intro group hg
    obtain ⟨hge, hto, hpushed⟩ := hgroups group (List.mem_cons_of_mem _ hg)
    have hlt := hfirst group hg
    refine ⟨hge, hto, ?_⟩
    change max s.pushedEnd (tick + 1) ≤ group.1
    omega
  · intro log hlog hge hto
    rcases hall log hlog hge hto with hverified | ⟨group, hg, heq, hin⟩
    · exact Or.inl (List.mem_append_left _ hverified)
    · rcases List.mem_cons.mp hg with rfl | hg
      · exact Or.inl (List.mem_append_right _ hin)
      · exact Or.inr ⟨group, hg, heq, hin⟩

theorem Progress.advance (h : Progress world startTick s) {processToTick : Nat}
    (hphase : s.verifier = .pushing processToTick []) :
    Progress world startTick { s with
      verifier := .idle
      gCurrentVerifyLoggingTick := (processToTick + 1) % 2 ^ 32 } ∧
    s.gCurrentVerifyLoggingTick ≤ (processToTick + 1) % 2 ^ 32 := by
  have hbatch := h.batch
  rw [hphase] at hbatch
  obtain ⟨hle, hsmall, hend, -, -, hall⟩ := hbatch
  have hstart := h.start
  rw [Nat.mod_eq_of_lt hsmall]
  refine ⟨⟨?_, ?_, hend⟩, by omega⟩
  · change startTick ≤ processToTick + 1
    omega
  · intro log hlog hs hlt
    change log.getTick.toNat < processToTick + 1 at hlt
    by_cases hbefore : log.getTick.toNat < s.gCurrentVerifyLoggingTick
    · exact h.passed log hlog hs hbefore
    · rcases hall log hlog (by omega) (by omega) with hverified | ⟨_, hg, -⟩
      · exact hverified
      · exact absurd hg List.not_mem_nil

theorem progress_step {c : WsConn} (a : StreamStep) (h : Progress world startTick s)
    (hpresent : ReadsPresent E world c s a) (hok : HandedOver c s a) :
    Progress world startTick (s.step E a) ∧
      s.gCurrentVerifyLoggingTick ≤ (s.step E a).gCurrentVerifyLoggingTick := by
  cases ha : ofVerifier a with
  | false =>
      have hsame := @sameVerifier_step E s a ha
      exact ⟨hsame.progress h, le_of_eq hsame.gCurrentVerifyLoggingTick.symm⟩
  | true =>
      cases a with
      | fetchBatch processToTick =>
          rcases @fetchBatch_cases E s processToTick with heq | ⟨hidle, hle, -, heq⟩ <;> rw [heq]
          · exact ⟨h, le_rfl⟩
          · exact ⟨h.fetchBatch hle hok hidle hpresent, le_rfl⟩
      | accept =>
          rcases @accept_cases E s with heq | ⟨processToTick, vle, hphase, heq⟩ <;> rw [heq]
          · exact ⟨h, le_rfl⟩
          · refine ⟨h.accept hphase, ?_⟩
            unfold acceptBatch
            split <;> exact le_rfl
      | push =>
          rcases @push_cases E s with heq | ⟨processToTick, tick, logs, groups, hphase, heq⟩ <;>
            rw [heq]
          · exact ⟨h, le_rfl⟩
          · exact ⟨h.push hphase, le_rfl⟩
      | advance =>
          rcases @advance_cases E s with heq | ⟨processToTick, hphase, heq⟩ <;> rw [heq]
          · exact ⟨h, le_rfl⟩
          · exact h.advance hphase
      | _ => cases ha

theorem progress_start (db : LogDB) (latestLogId : Int) (tick : Nat) :
    Progress world tick (start db latestLogId tick) where
  start := le_rfl
  passed := by
    intro log _ hs hlt
    change log.getTick.toNat < tick at hlt
    omega
  batch := Nat.zero_le _

end progress

/-! ## Phases of a catch-up -/

def tickPos (log : LogEvent) : Int := log.getTick.toNat

/-- How far delivery has got in each phase of the handler. What was verified before the start is left
to the replay. -/
def TickPhase (world : Nat → List LogEvent) (startTick T : Nat) (c : WsConn) (s : StreamServer)
    (st : ClientState) : Handler → Prop
  | .idle | .settingCursor _ _ => st.lastLogId = -1 ∧
      (st.lastTick = T ∨ st.lastTick < s.gCurrentVerifyLoggingTick) ∧
      PassedDelivered tickPos T T c s st ∧
      ReplayedDelivered (OfWorld world) tickPos T (startTick - 1) c s st
  | .settingAmount useLogIdCatchUp _ | .subscribing useLogIdCatchUp _ =>
      useLogIdCatchUp = false ∧ st.lastLogId = -1 ∧ st.lastTick = T ∧
      SinceDelivered tickPos T c s st
  | .entering toTick => st.lastLogId = -1 ∧ st.lastTick = T ∧
      toTick < s.gCurrentVerifyLoggingTick ∧ startTick ≤ toTick + 1 ∧
      PassedDelivered tickPos T toTick c s st
  | .replaying subscriptions tick toTick => st.lastLogId = -1 ∧
      toTick < s.gCurrentVerifyLoggingTick ∧ startTick ≤ toTick + 1 ∧
      toTick + BATCH_SIZE < 2 ^ 32 ∧ tick ≤ toTick ∧ subscriptions = st.subscriptions ∧
      PassedDelivered tickPos T toTick c s st ∧
      ReplayedDelivered (OfWorld world) tickPos T (tick - 1) c s st
  | .completing toTick => st.lastLogId = -1 ∧ toTick < s.gCurrentVerifyLoggingTick ∧
      startTick ≤ toTick + 1 ∧ PassedDelivered tickPos T toTick c s st ∧
      ReplayedDelivered (OfWorld world) tickPos T toTick c s st
  | .enteringByLogId _ | .replayingByLogId _ _ _ | .completingByLogId _ => False

def TickKept (E : StreamEnv) (world : Nat → List LogEvent) (startTick : Nat) (c : WsConn)
    (s : StreamServer) (st : ClientState) (h : Handler) : Prop :=
  ∀ T, s.cursor c = .tick T → E.gInitialTick ≤ T + 1 → TickPhase world startTick T c s st h

section phases

variable {E world} {startTick T : Nat} {c : WsConn} {s s' : StreamServer}
variable {st : ClientState} {h : Handler}

theorem TickPhase.grows (hp : TickPhase world startTick T c s st h) (hg : Grows c s s')
    (hprogress : s.gCurrentVerifyLoggingTick ≤ s'.gCurrentVerifyLoggingTick) :
    TickPhase world startTick T c s' st h := by
  have hkeys : st.subscriptions ⊆ st.subscriptions := fun _ hkey => hkey
  have hmono : ∀ {t}, t < s.gCurrentVerifyLoggingTick → t < s'.gCurrentVerifyLoggingTick :=
    fun hlt => lt_of_lt_of_le hlt hprogress
  cases h with
  | idle =>
      obtain ⟨hid, htick, hpassed, hreplayed⟩ := hp
      exact ⟨hid, htick.imp_right hmono, hpassed.grows hg hkeys, hreplayed.grows hg hkeys⟩
  | settingCursor _ _ =>
      obtain ⟨hid, htick, hpassed, hreplayed⟩ := hp
      exact ⟨hid, htick.imp_right hmono, hpassed.grows hg hkeys, hreplayed.grows hg hkeys⟩
  | settingAmount _ _ => exact ⟨hp.1, hp.2.1, hp.2.2.1, hp.2.2.2.grows hg hkeys⟩
  | subscribing _ _ => exact ⟨hp.1, hp.2.1, hp.2.2.1, hp.2.2.2.grows hg hkeys⟩
  | entering _ =>
      obtain ⟨hid, htick, hlt, hstart, hpassed⟩ := hp
      exact ⟨hid, htick, hmono hlt, hstart, hpassed.grows hg hkeys⟩
  | replaying _ _ _ =>
      obtain ⟨hid, hlt, hstart, hsmall, hle, hsub, hpassed, hreplayed⟩ := hp
      exact ⟨hid, hmono hlt, hstart, hsmall, hle, hsub, hpassed.grows hg hkeys,
        hreplayed.grows hg hkeys⟩
  | completing _ =>
      obtain ⟨hid, hlt, hstart, hpassed, hreplayed⟩ := hp
      exact ⟨hid, hmono hlt, hstart, hpassed.grows hg hkeys, hreplayed.grows hg hkeys⟩
  | enteringByLogId _ => exact absurd hp id
  | replayingByLogId _ _ _ => exact absurd hp id
  | completingByLogId _ => exact absurd hp id

/-- Outside of a catch-up what has passed is delivered, and what was verified before the start. -/
theorem TickPhase.delivered (hp : TickPhase world startTick T c s st h)
    (hout : catchesUp h = false) (hprogress : Progress world startTick s) {log : LogEvent}
    (hlog : OfWorld world log) (hsub : st.subscribed log = true) (hT : T < log.getTick.toNat)
    (hpushed : log.getTick.toNat < s.pushedEnd) : Delivered c s log := by
  have hidle : PassedDelivered tickPos T T c s st ∧
      ReplayedDelivered (OfWorld world) tickPos T (startTick - 1) c s st := by
    cases h with
    | idle => exact hp.2.2
    | settingCursor _ _ => exact hp.2.2
    | _ => cases hout
  have hpos : (T : Int) < tickPos log := Int.ofNat_lt.mpr hT
  by_cases hstart : startTick ≤ log.getTick.toNat
  · exact hidle.1 log (hprogress.verified hlog hstart hpushed) hsub hpos hpos
  · refine hidle.2 log hlog hsub hpos ?_
    unfold tickPos
    omega

/-- A push of a group, which is of a tick that the verifier has not advanced over yet. -/
theorem TickPhase.push {tick : Nat} {group : List LogEvent} (hr : Registered s)
    (hst : s.manager.client c = some st) (hflag : FlagKept s st h)
    (htick : ∀ log ∈ group, log.getTick.toNat = tick) (hge : s.gCurrentVerifyLoggingTick ≤ tick)
    (houtside : PushOutsideReplay group (some st) (.tick T)) (hpushed : Pushed tick group s s')
    (hp : TickPhase world startTick T c s st h) : TickPhase world startTick T c s' st h := by
  have hnew : st.lastLogId = -1 → (st.lastTick = T ∨ st.lastTick < s.gCurrentVerifyLoggingTick) →
      ∀ log ∈ group, st.subscribed log = true → (T : Int) < tickPos log → Delivered c s' log := by
    intro hid hlast log hlog hsub hT
    have hT : T < log.getTick.toNat := Int.ofNat_lt.mp hT
    obtain ⟨hout, hamount⟩ := houtside log hlog hsub hT
    have heq := htick log hlog
    refine hpushed.delivered_new hr hst hlog hsub
      (ClientState.skips_eq_false_iff.mpr ⟨hout, ?_, ?_, hamount⟩)
    · omega
    · omega
  have hreplay : replays h = true →
      ∀ log ∈ group, st.subscribed log = true → (T : Int) < tickPos log → Delivered c s' log := by
    intro hreplays log hlog hsub hT
    have hout := (houtside log hlog hsub (Int.ofNat_lt.mp hT)).1
    exact absurd (hout.symm.trans (hflag.trans hreplays)) (by decide)
  have hprogress := hpushed.gCurrentVerifyLoggingTick
  cases h with
  | idle =>
      obtain ⟨hid, hlast, hpassed, hreplayed⟩ := hp
      refine ⟨hid, by rwa [hprogress], ?_, hreplayed.push hpushed⟩
      exact hpassed.push hpushed fun log hlog hsub hT _ => hnew hid hlast log hlog hsub hT
  | settingCursor _ _ =>
      obtain ⟨hid, hlast, hpassed, hreplayed⟩ := hp
      refine ⟨hid, by rwa [hprogress], ?_, hreplayed.push hpushed⟩
      exact hpassed.push hpushed fun log hlog hsub hT _ => hnew hid hlast log hlog hsub hT
  | settingAmount _ _ =>
      obtain ⟨hu, hid, hlast, hsince⟩ := hp
      exact ⟨hu, hid, hlast, hsince.push hpushed (hnew hid (Or.inl hlast))⟩
  | subscribing _ _ =>
      obtain ⟨hu, hid, hlast, hsince⟩ := hp
      exact ⟨hu, hid, hlast, hsince.push hpushed (hnew hid (Or.inl hlast))⟩
  | entering _ =>
      obtain ⟨hid, hlast, hlt, hstart, hpassed⟩ := hp
      refine ⟨hid, hlast, by rwa [hprogress], hstart, ?_⟩
      exact hpassed.push hpushed fun log hlog hsub hT _ =>
        hnew hid (Or.inl hlast) log hlog hsub hT
  | replaying _ _ _ =>
      obtain ⟨hid, hlt, hstart, hsmall, hle, hsub, hpassed, hreplayed⟩ := hp
      refine ⟨hid, by rwa [hprogress], hstart, hsmall, hle, hsub, ?_, hreplayed.push hpushed⟩
      exact hpassed.push hpushed fun log hlog hsub hT _ => hreplay rfl log hlog hsub hT
  | completing _ =>
      obtain ⟨hid, hlt, hstart, hpassed, hreplayed⟩ := hp
      refine ⟨hid, by rwa [hprogress], hstart, ?_, hreplayed.push hpushed⟩
      exact hpassed.push hpushed fun log hlog hsub hT _ => hreplay rfl log hlog hsub hT
  | enteringByLogId _ => exact absurd hp id
  | replayingByLogId _ _ _ => exact absurd hp id
  | completingByLogId _ => exact absurd hp id

/-! ## The handler's own steps -/

/-- A step that sets the client's state and its phase and keeps the cursor. -/
theorem tickKept_modify {f : ClientState → ClientState} {h' : Handler}
    (hst : s.manager.client c = some st)
    (hclient : s'.manager.client c = (s.manager.client c).map f) (hhandler : s'.handler c = h')
    (hcursor : s'.cursor c = s.cursor c)
    (hphase : ∀ T, s.cursor c = .tick T → E.gInitialTick ≤ T + 1 →
      TickPhase world startTick T c s' (f st) h') :
    ∀ st', s'.manager.client c = some st' → TickKept E world startTick c s' st' (s'.handler c) := by
  refine phase_modify hst hclient hhandler fun T hT => ?_
  rw [hcursor] at hT
  exact hphase T hT

/-- Setting a cursor: nothing has passed since. -/
theorem tickKept_applyCursor (msg : SubscribeMessage) (currentTick : Nat)
    (hst : s.manager.client c = some st) : ∀ st',
      (s.applyCursor c msg currentTick).manager.client c = some st' →
        TickKept E world startTick c (s.applyCursor c msg currentTick) st'
          ((s.applyCursor c msg currentTick).handler c) := by
  have hcursor : (s.applyCursor c msg currentTick).cursor c = msg.cursor.asked :=
    Function.update_self _ _ _
  refine phase_modify hst (client_applyCursor _ _) (setHandler_self _) fun T hT _ => ?_
  rw [hcursor] at hT
  cases hfield : msg.cursor with
  | lastTick value =>
      rw [hfield] at hT
      obtain rfl : value.toNat = T := Cursor.tick.inj hT
      exact ⟨rfl, rfl, rfl, sinceDelivered_applyCursor msg currentTick⟩
  | lastLogId value =>
      rw [hfield] at hT
      cases hT
  | lastLogIdInvalid =>
      rw [hfield] at hT
      cases hT
  | lastTickInvalid =>
      rw [hfield] at hT
      cases hT
  | absent =>
      rw [hfield] at hT
      cases hT

/-- The replay is triggered. It ends above what had passed before. -/
theorem TickPhase.trigger {useLogIdCatchUp : Bool}
    (hp : TickPhase world startTick T c s st (.subscribing useLogIdCatchUp []))
    (hst : s.manager.client c = some st) (hprogress : Progress world startTick s)
    (hbefore : s.HandlerHandsOver c (.subscribing useLogIdCatchUp []) (.tick T)) :
    TickPhase world startTick T c s st (s.trigger useLogIdCatchUp) := by
  obtain ⟨rfl, hid, hlast, hsince⟩ := hp
  rw [HandlerHandsOver, LogSubscriptionManager.keysOf_eq hst] at hbefore
  have hstart := hprogress.start
  have hpassed : PassedDelivered tickPos T ((s.gCurrentVerifyLoggingTick : Int) - 1) c s st := by
    refine hsince.passed fun key hkey log hlog hext hT => ?_
    have hlt := hbefore key hkey log hlog hext (Int.ofNat_lt.mp hT)
    unfold tickPos
    omega
  unfold StreamServer.trigger
  rw [if_neg (by decide)]
  split
  · refine ⟨hid, hlast, by omega, by omega, hpassed.mono ?_⟩
    omega
  · -- nothing has been verified
    refine ⟨hid, Or.inl hlast, hpassed.mono ?_, replayedDelivered_of_le ?_⟩
    · omega
    · omega

/-- No tick comes after the last one of 32 bits. -/
theorem tickPos_lt (log : LogEvent) : tickPos log < 2 ^ 32 := by
  have hlt := log.getTick.isLt
  unfold tickPos
  omega

theorem replayedDelivered_of_full (hfull : 2 ^ 32 ≤ T + 1) {W : LogEvent → Prop} {upTo : Int} :
    ReplayedDelivered W tickPos T upTo c s st := by
  intro log _ _ hT
  have hlt := tickPos_lt log
  omega

/-- The first lock of the replay. -/
theorem tickKept_enter {toTick : Nat} (hst : s.manager.client c = some st)
    (hphase : s.handler c = .entering toTick)
    (hok : s.HandlerHandsOver c (.entering toTick) (s.cursor c))
    (hp : TickKept E world startTick c s st (s.handler c)) : ∀ st',
      (s.enter E c toTick).manager.client c = some st' →
        TickKept E world startTick c (s.enter E c toTick) st' ((s.enter E c toTick).handler c) := by
  rw [hphase] at hp
  unfold enter
  rw [hst]
  dsimp only
  by_cases hnil : st.subscriptions = []
  · rw [if_pos hnil]
    refine tickKept_modify hst Option.map_id_apply.symm (setHandler_self _) rfl fun T hcur hT => ?_
    obtain ⟨hid, hlast, -⟩ := hp T hcur hT
    exact ⟨hid, Or.inl hlast, passedDelivered_of_nil hnil, replayedDelivered_of_nil hnil⟩
  · rw [if_neg hnil]
    refine tickKept_modify hst (client_modifyClient_self _ _) (setHandler_self _) rfl
      fun T hcur hT => ?_
    obtain ⟨hid, hlast, hlt, hstart, hpassed⟩ := hp T hcur hT
    rw [hcur] at hok
    change toTick + BATCH_SIZE < 2 ^ 32 at hok
    have hpassed' : ∀ h, PassedDelivered tickPos T toTick c
        ({ s with manager := s.manager.beginCatchUp c }.setHandler c h)
        { st with catchUpInProgress := true } :=
      fun h => hpassed.grows (grows_of_eq rfl rfl rfl rfl) (fun _ hkey => hkey)
    -- the replay starts right after the cursor
    have hfrom : ∀ {s' st'} {upTo : Int},
        upTo < max ((st.lastTick + 1) % 2 ^ 32) E.gInitialTick →
          ReplayedDelivered (OfWorld world) tickPos T upTo c s' st' := by
      intro s' st' upTo hlt
      by_cases hfull : 2 ^ 32 ≤ T + 1
      · exact replayedDelivered_of_full hfull
      · rw [hlast, Nat.mod_eq_of_lt (not_le.mp hfull), max_eq_left hT] at hlt
        exact replayedDelivered_of_le (by omega)
    split
    · next hend =>
        exact ⟨hid, hlt, hstart, hpassed' _, hfrom (Int.ofNat_lt.mpr hend)⟩
    · next hend =>
        exact ⟨hid, hlt, hstart, hok, not_lt.mp hend, rfl, hpassed' _, hfrom (by omega)⟩

/-- What a batch of the replay leaves, when its logs are sent and when there are none. -/
theorem TickPhase.replayed {subscriptions : List SubscriptionKey} {tick toTick : Nat}
    (hp : TickPhase world startTick T c s st (.replaying subscriptions tick toTick))
    (hpresent : ∀ t ∈ ticksFromTo tick (batchEnd tick toTick), Present E world s t)
    (hg : Grows c s s')
    (hsent : ∀ log ∈ (ticksFromTo tick (batchEnd tick toTick)).flatMap world,
      subscribedTo subscriptions log = true → Delivered c s' log) :
    ReplayedDelivered (OfWorld world) tickPos T (batchEnd tick toTick) c s' st := by
  obtain ⟨-, -, -, -, -, rfl, -, hreplayed⟩ := hp
  intro log hlog hsub hT hle
  unfold tickPos at hle
  by_cases htick : tick ≤ log.getTick.toNat
  · exact hsent log ((mem_flatMap_present hpresent).mpr ⟨hlog, htick, by omega⟩) hsub
  · refine hg.delivered log (hreplayed log hlog hsub hT ?_)
    unfold tickPos
    omega

/-- One batch further. -/
theorem TickPhase.onward {subscriptions : List SubscriptionKey} {tick toTick : Nat}
    (hp : TickPhase world startTick T c s st (.replaying subscriptions tick toTick))
    (hg : Grows c s s') (hprogress : s'.gCurrentVerifyLoggingTick = s.gCurrentVerifyLoggingTick)
    (hreplayed : ReplayedDelivered (OfWorld world) tickPos T (batchEnd tick toTick) c s' st) :
    TickPhase world startTick T c s' st
      (if toTick < (tick + BATCH_SIZE) % 2 ^ 32 then .completing toTick
      else .replaying subscriptions ((tick + BATCH_SIZE) % 2 ^ 32) toTick) := by
  obtain ⟨hid, hlt, hstart, hsmall, hle, hsub, hpassed, -⟩ := hp
  have hpassed := hpassed.grows hg (fun _ hkey => hkey : st.subscriptions ⊆ st.subscriptions)
  have hnext : (tick + BATCH_SIZE) % 2 ^ 32 = tick + BATCH_SIZE := Nat.mod_eq_of_lt (by omega)
  have hend : batchEnd tick toTick = min (tick + BATCH_SIZE - 1) toTick := by
    unfold batchEnd
    rw [Nat.mod_eq_of_lt (by omega)]
  rw [← hprogress] at hlt
  rw [hend] at hreplayed
  rw [hnext]
  unfold BATCH_SIZE at hreplayed ⊢
  split
  · exact ⟨hid, hlt, hstart, hpassed, hreplayed.mono (by omega)⟩
  · exact ⟨hid, hlt, hstart, hsmall, by omega, hsub, hpassed, hreplayed.mono (by omega)⟩

theorem tickKept_replay {subscriptions : List SubscriptionKey} {tick toTick : Nat}
    (hconn : s.link c = .connected) (hst : s.manager.client c = some st)
    (hphase : s.handler c = .replaying subscriptions tick toTick)
    (hpresent : ∀ t ∈ ticksFromTo tick (batchEnd tick toTick), Present E world s t)
    (hp : TickKept E world startTick c s st (s.handler c)) : ∀ st',
      (s.replay E c subscriptions tick toTick).manager.client c = some st' →
        TickKept E world startTick c (s.replay E c subscriptions tick toTick) st'
          ((s.replay E c subscriptions tick toTick).handler c) := by
  rw [hphase] at hp
  unfold replay
  dsimp only
  rw [dbGetLogsByTickRange_present hpresent]
  by_cases hempty : (ticksFromTo tick (batchEnd tick toTick)).flatMap world = []
  · rw [if_pos (Or.inl hempty)]
    refine tickKept_modify hst Option.map_id_apply.symm (setHandler_self _) rfl fun T hcur hT => ?_
    have hg := @grows_setHandler s c (if toTick < (tick + BATCH_SIZE) % 2 ^ 32 then .completing toTick
      else .replaying subscriptions ((tick + BATCH_SIZE) % 2 ^ 32) toTick)
    refine (hp T hcur hT).onward hg rfl ((hp T hcur hT).replayed hpresent hg fun log hlog => ?_)
    rw [hempty] at hlog
    exact absurd hlog List.not_mem_nil
  · rw [if_neg (not_or.mpr ⟨hempty, nofun⟩), if_pos hconn]
    refine tickKept_modify hst ((client_send _).trans Option.map_id_apply.symm) (setHandler_self _)
      (congrFun (send_cursor _) c) fun T hcur hT => ?_
    have hg := (@grows_send s c (performCatchUpSends c subscriptions
      ((ticksFromTo tick (batchEnd tick toTick)).flatMap world))).trans
        (grows_setHandler (if toTick < (tick + BATCH_SIZE) % 2 ^ 32 then .completing toTick
          else .replaying subscriptions ((tick + BATCH_SIZE) % 2 ^ 32) toTick))
    refine (hp T hcur hT).onward hg (onlyHandled_send _).gCurrentVerifyLoggingTick
      ((hp T hcur hT).replayed hpresent hg fun log hlog hsub => ?_)
    exact delivered_catchUpSends hconn hlog hsub _

theorem tickKept_work (hconn : s.link c = .connected) (hst : s.manager.client c = some st)
    (hworld : PassesOnly (OfWorld world) s) (hprogress : Progress world startTick s)
    (hpresent : ReadsPresent E world c s (.work c)) (hok : HandedOver c s (.work c))
    (hp : TickKept E world startTick c s st (s.handler c)) :
    ∀ st', (s.work E c).manager.client c = some st' →
      TickKept E world startTick c (s.work E c) st' ((s.work E c).handler c) := by
  have hok := hok rfl
  have hpresent := hpresent rfl
  have hsame : s.manager.client c = (s.manager.client c).map id := Option.map_id_apply.symm
  have hkeys : st.subscriptions ⊆ st.subscriptions := fun _ hkey => hkey
  -- the phases of a replay by log ids go with another kind of cursor
  have hother : (∀ T, ¬ TickPhase world startTick T c s st (s.handler c)) →
      (∀ msg currentTick, s.handler c ≠ .settingCursor msg currentTick) →
      ∀ st', (s.work E c).manager.client c = some st' →
        TickKept E world startTick c (s.work E c) st' ((s.work E c).handler c) := by
    intro hnot hset st' _ T hcur hT
    rw [work_cursor hset] at hcur
    exact absurd (hp T hcur hT) (hnot T)
  cases hphase : s.handler c with
  | idle =>
      rw [work, hphase]
      exact tickKept_modify hst hsame rfl rfl hp
  | settingCursor msg currentTick =>
      rw [work, hphase]
      exact tickKept_applyCursor msg currentTick hst
  | settingAmount useLogIdCatchUp msg =>
      rw [work, hphase]
      rw [hphase] at hp hok
      refine tickKept_modify hst (client_applyAmount _ _) (setHandler_self _) rfl
        fun T hcur hT => ?_
      obtain ⟨hu, hid, hlast, hsince⟩ := hp T hcur hT
      rw [hcur] at hok
      obtain ⟨keys, hkeysOf⟩ := Option.isSome_iff_exists.mp hok
      rw [hkeysOf]
      exact ⟨hu, hid, hlast, hsince.grows (grows_of_eq rfl rfl rfl rfl) hkeys⟩
  | subscribing useLogIdCatchUp keys =>
      rw [hphase] at hp hok
      cases keys with
      | nil =>
          rw [work, hphase]
          refine tickKept_modify hst hsame (setHandler_self _) rfl fun T hcur hT => ?_
          rw [hcur] at hok
          exact ((hp T hcur hT).trigger hst hprogress hok).grows (grows_setHandler _) le_rfl
      | cons key keys =>
          rw [work, hphase]
          refine tickKept_modify hst (client_addKey _ _ _) (setHandler_self _) rfl
            fun T hcur hT => ?_
          obtain ⟨hu, hid, hlast, hsince⟩ := hp T hcur hT
          exact ⟨hu, hid, hlast, hsince.addKey hst _ _ _⟩
  | entering toTick =>
      rw [work, hphase]
      rw [hphase] at hok
      exact tickKept_enter hst hphase hok hp
  | replaying subscriptions tick toTick =>
      rw [work, hphase]
      rw [hphase] at hpresent
      exact tickKept_replay hconn hst hphase hpresent hp
  | completing toTick =>
      rw [work, hphase]
      rw [hphase] at hp
      refine tickKept_modify hst (client_modifyClient_self _ _) (setHandler_self _) rfl
        fun T hcur hT => ?_
      obtain ⟨hid, hlt, hstart, hpassed, hreplayed⟩ := hp T hcur hT
      have hall := hpassed.complete hreplayed hworld.verified
      have hbefore := hreplayed.mono (show (startTick : Int) - 1 ≤ toTick by omega)
      exact ⟨hid, Or.inr hlt, hall.grows (grows_of_eq rfl rfl rfl rfl) hkeys,
        hbefore.grows (grows_of_eq rfl rfl rfl rfl) hkeys⟩
  | enteringByLogId toLogId =>
      rw [hphase] at hother
      exact hother (fun _ hfalse => hfalse) (fun _ _ hset => by cases hset)
  | replayingByLogId subscriptions id toLogId =>
      rw [hphase] at hother
      exact hother (fun _ hfalse => hfalse) (fun _ _ hset => by cases hset)
  | completingByLogId toLogId =>
      rw [hphase] at hother
      exact hother (fun _ hfalse => hfalse) (fun _ _ hset => by cases hset)

/-- The states in which the phases are kept. -/
structure TickGood (world : Nat → List LogEvent) (startTick : Nat) (c : WsConn) (s : StreamServer) :
    Prop where
  registered : Registered s
  ticked : s.verifier.Ticked
  flag : InPhase FlagKept c s
  passes : PassesOnly (OfWorld world) s
  progress : Progress world startTick s

theorem tickKept_rule (E : StreamEnv) (world : Nat → List LogEvent) (startTick : Nat) (c : WsConn) :
    PhaseRule E c (TickGood world startTick c)
      (fun s a => ReadsPresent E world c s a ∧ HandedOver c s a)
      (TickKept E world startTick c) where
  frame := by
    intro s a st h hgood hok hgrows hcursor hp T hcur hT
    rw [hcursor] at hcur
    exact (hp T hcur hT).grows hgrows (progress_step a hgood.progress hok.1 hok.2).2
  fresh := by
    intro s hunset T hcur
    rw [hunset] at hcur
    cases hcur
  message _ _ hp := hp
  fewer := by
    intro s st keys hkeys hp T hcur hT
    obtain ⟨hid, hlast, hpassed, hreplayed⟩ := hp T hcur hT
    exact ⟨hid, hlast, hpassed.grows (grows_of_eq rfl rfl rfl rfl) hkeys,
      hreplayed.grows (grows_of_eq rfl rfl rfl rfl) hkeys⟩
  push := by
    intro s s' tick group groups processToTick st hgood hok hphase hpushed hconn hst hp T hcur hT
    rw [hpushed.cursor] at hcur
    have hticked := hgood.ticked
    have hbatch := hgood.progress.batch
    rw [hphase] at hticked hbatch
    have hge := (hbatch.2.2.2.2.1 _ List.mem_cons_self).1
    have houtside : PushOutsideReplay group (s.manager.client c) (s.cursor c) :=
      hok.2 (tick, group) (by rw [hphase]; rfl)
    rw [hst, hcur] at houtside
    exact (hp T hcur hT).push hgood.registered hst (hgood.flag hconn st hst)
      (hticked _ List.mem_cons_self) hge houtside hpushed
  work hgood hok hconn hst hp :=
    tickKept_work hconn hst hgood.passes hgood.progress hok.1 hok.2 hp

end phases

/-- From any start, for every connection, with all logs present, in every run whose steps hand over
between push and replay, nothing above the client's cursor is lost. -/
theorem nothingLost_run (E : StreamEnv) (world : Nat → List LogEvent) (c : WsConn) (db : LogDB)
    (latestLogId : Int) (tick : Nat) (steps : List StreamStep)
    (hpresent : Runs.Guarded (step E) (ReadsPresent E world c) (start db latestLogId tick) steps)
    (hok : Runs.Guarded (step E) (HandedOver c) (start db latestLogId tick) steps) :
    NothingLost E world c ((start db latestLogId tick).run E steps) := by
  have hstep : ∀ s a, (TickGood world tick c s ∧ InPhase (TickKept E world tick c) c s) →
      (ReadsPresent E world c s a ∧ HandedOver c s a) →
      (TickGood world tick c (s.step E a) ∧ InPhase (TickKept E world tick c) c (s.step E a)) := by
    rintro s a ⟨hgood, hp⟩ hok
    refine ⟨⟨registered_step a hgood.registered, ticked_step a hgood.ticked, ?_, ?_,
      (progress_step a hgood.progress hok.1 hok.2).1⟩, ?_⟩
    · exact inPhase_step (flagKept_rule E c) a hgood.registered trivial trivial hgood.flag
    · refine hgood.passes.step a fun processToTick ha log hlog => ?_
      have hpresent := hok.1
      rw [ha] at hpresent
      rw [dbGetLogsByTickRange_present hpresent] at hlog
      exact ((mem_flatMap_present hpresent).mp hlog).1
    · exact inPhase_step (tickKept_rule E world tick c) a hgood.registered hgood hok hp
  have hstart : TickGood world tick c (start db latestLogId tick) ∧
      InPhase (TickKept E world tick c) c (start db latestLogId tick) :=
    ⟨⟨registered_start db latestLogId tick, trivial, nofun,
      passesOnly_start _ db latestLogId tick, progress_start db latestLogId tick⟩, nofun⟩
  obtain ⟨hgood, hp⟩ := Runs.run_invariant hstep hstart (hpresent.and hok)
  intro T st hcur hT hconn hst hout log hlog hsub hlt hpushed
  exact (hp hconn st hst T hcur hT).delivered hout hgood.progress hlog hsub hlt hpushed

/-- One log in tick 5 and one in tick 6. -/
def twoTicks (tick : Nat) : List LogEvent :=
  if tick = 5 then [streamLog 5 1] else if tick = 6 then [streamLog 6 2] else []

theorem nothingLost_run_replayed_then_pushed :
    Runs.Guarded (step streamEnv) (ReadsPresent streamEnv twoTicks 1) (start noLogs (-1) 5)
        replayedThenPushed ∧
      Runs.Guarded (step streamEnv) (HandedOver 1) (start noLogs (-1) 5) replayedThenPushed ∧
      ((start noLogs (-1) 5).run streamEnv replayedThenPushed).pushedEnd = 7 ∧
      NothingLost streamEnv twoTicks 1
        ((start noLogs (-1) 5).run streamEnv replayedThenPushed) := by
  have hpresent : Runs.Guarded (step streamEnv) (ReadsPresent streamEnv twoTicks 1)
      (start noLogs (-1) 5) replayedThenPushed := by decide +kernel
  have hok : Runs.Guarded (step streamEnv) (HandedOver 1) (start noLogs (-1) 5)
      replayedThenPushed := by decide +kernel
  have hend : ((start noLogs (-1) 5).run streamEnv replayedThenPushed).pushedEnd = 7 := by
    decide +kernel
  exact ⟨hpresent, hok, hend,
    @nothingLost_run streamEnv twoTicks 1 noLogs (-1) 5 replayedThenPushed hpresent hok⟩

/-- Tick 5 is verified, a client asks for what comes after tick 4, tick 6 is verified and pushed
while its replay is under way, and the replay, which ends at tick 5, completes. -/
def pushedDuringReplay : List StreamStep :=
  ([.chunk [streamLog 5 1, streamLog 6 2], .updateLatest 0, .logRange 5 (oneLog 1),
    .logRange 6 (oneLog 2), .fetchBatch 5, .accept, .advance, .connect 1] : List StreamStep) ++
    subscribeSteps (.lastTick 4) 5 ++
    ([.fetchBatch 6, .accept, .push, .advance, .work 1, .work 1] : List StreamStep)

/-- The log of tick 6 is lost. -/
theorem pushed_during_replay_lost :
    Runs.Guarded (step streamEnv) (ReadsPresent streamEnv twoTicks 1) (start noLogs (-1) 5)
        pushedDuringReplay ∧
      ¬ NothingLost streamEnv twoTicks 1
        ((start noLogs (-1) 5).run streamEnv pushedDuringReplay) := by
  have hpresent : Runs.Guarded (step streamEnv) (ReadsPresent streamEnv twoTicks 1)
      (start noLogs (-1) 5) pushedDuringReplay := by decide +kernel
  have hclient : ((start noLogs (-1) 5).run streamEnv pushedDuringReplay).manager.client 1 =
      some ⟨[streamKey], 5, -1, false, 0⟩ := by decide +kernel
  have hcursor : ((start noLogs (-1) 5).run streamEnv pushedDuringReplay).cursor 1 = .tick 4 := by
    decide +kernel
  have hlink : ((start noLogs (-1) 5).run streamEnv pushedDuringReplay).link 1 = .connected := by
    decide +kernel
  have hout : catchesUp (((start noLogs (-1) 5).run streamEnv pushedDuringReplay).handler 1) =
      false := by decide +kernel
  have hend : ((start noLogs (-1) 5).run streamEnv pushedDuringReplay).pushedEnd = 7 := by
    decide +kernel
  have hnot : ∀ msg ∈ ((start noLogs (-1) 5).run streamEnv pushedDuringReplay).sent ++
      ((start noLogs (-1) 5).run streamEnv pushedDuringReplay).queue,
      msg.log ≠ streamLog 6 2 := by decide +kernel
  refine ⟨hpresent, fun h => ?_⟩
  have hworld : streamLog 6 2 ∈ twoTicks (streamLog 6 2).getTick.toNat := by decide +kernel
  obtain ⟨msg, hmsg, -, hlog⟩ := h 4 _ hcursor (by decide) hlink hclient hout (streamLog 6 2)
    hworld (by decide +kernel) (by decide +kernel) (by rw [hend]; decide +kernel)
  exact hnot msg (List.mem_append.mpr hmsg) hlog

end StreamServer

end QubicBob
