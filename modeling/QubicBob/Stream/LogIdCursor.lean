import QubicBob.Stream.Delivery

set_option autoImplicit false

/-! # A cursor by log ids

A client that subscribes with `lastLogId = L` is to be sent every log of its keys above `L` that is
verified. The replay goes up to the largest id stored so far, sends what is stored and puts that id
into the client's `lastLogId`; the live push sends nothing up to there. An id that is not stored
when the replay comes by is then stepped over. A negative cursor starts no replay at all, and then a
log that was verified before the client came, by this process or an earlier one, is never sent.

As for a cursor by ticks, `LogIdPhase` gives for each phase of the handler the stretch that is
delivered: the ids of the epoch up to the next batch, and what is verified beyond the end of the
replay. There are two sources of verified logs, those that have passed the push of this process and
those below its first tick (`earlierLogs`), and the phase speaks of both. The condition
`NoneMissing` asks that the ids a batch reads are stored, and that a replay reaches up to all that
is verified when it is triggered; from then on the client's `lastLogId` never passes over an id that
is not delivered, so the live push may skip what is below it.
-/

namespace QubicBob

namespace StreamServer

/-- The position of a log in the epoch. -/
def logIdPos (log : LogEvent) : Int := log.getLogId

/-- How far the replay of a cursor goes; a negative one is not replayed. -/
def replayEnd (L toLogId : Int) : Int := if L < 0 then L else toLogId

/-- The logs of the epoch that an earlier process has verified: those of the ticks before the
start. -/
def earlierLogs (logs : List LogEvent) (startTick : Nat) : List LogEvent :=
  logs.filter (fun log => log.getTick.toNat < startTick)

/-- Outside of a catch-up, every log that is verified, before the start or since, of the client's keys
and above its cursor, is delivered; and at any time every log of the epoch between the cursor and the
client's `lastLogId`. -/
def NoneSteppedOver (logs : List LogEvent) (startTick : Nat) (c : WsConn) (s : StreamServer) :
    Prop :=
  ∀ L st, s.cursor c = .logId L → s.link c = .connected → s.manager.client c = some st →
    (catchesUp (s.handler c) = false → ∀ log ∈ earlierLogs logs startTick ++ s.verified,
      st.subscribed log = true → L < log.getLogId → Delivered c s log) ∧
    ∀ log ∈ logs, st.subscribed log = true → L < log.getLogId → log.getLogId ≤ st.lastLogId →
      Delivered c s log

/-! ## The condition -/

/-- The end of the replay that is under way. -/
def replayedTo : Handler → Int
  | .replayingByLogId _ _ toLogId | .completingByLogId toLogId => toLogId
  | _ => -1

/-- A push reaches the client: what it brings above the cursor is covered by the replay under way, or
there is none and neither the client's `lastTick` nor its minimum amount is in the way. -/
def PushTaken (h : Handler) (tick : Nat) (group : List LogEvent) :
    Option ClientState → Cursor → Prop
  | some st, .logId L => ∀ log ∈ group, st.subscribed log = true → L < log.getLogId →
      if st.catchUpInProgress then (log.getLogId : Int) ≤ replayedTo h
      else st.lastTick < tick ∧ st.belowMinAmount log = false
  | _, _ => True

/-- The next step of the handler of a client with a cursor: its message names keys; the replay that
is triggered reaches up to what was verified before the start or had passed before the cursor was set
or the key was added; and the logs of the ids that are replayed are stored. -/
def HandlerNoneMissing (E : StreamEnv) (logs : List LogEvent) (startTick : Nat) (c : WsConn)
    (s : StreamServer) : Handler → Cursor → Prop
  | .settingAmount _ msg, .logId _ => msg.keys.isSome = true
  | .subscribing _ [], .logId L => ∀ key ∈ s.manager.keysOf c,
      ∀ log ∈ earlierLogs logs startTick ++ s.verified.take (s.since c key),
        extractSubscriptionKey log = some key →
        L < log.getLogId → (log.getLogId : Int) ≤ replayEnd L s.latestLogId
  | .replayingByLogId subscriptions id toLogId, .logId _ => ∀ log ∈ logs,
      subscribedTo subscriptions log = true → id ≤ log.getLogId →
        (log.getLogId : Int) ≤ batchEndByLogId id toLogId →
          dbTryGetLog s.db E.epoch log.getLogId = some log
  | _, _ => True

/-- The condition on a step; `logs` are the logs of the epoch, those that come to be verified among
them. -/
def NoneMissing (E : StreamEnv) (logs : List LogEvent) (startTick : Nat) (c : WsConn)
    (s : StreamServer) : StreamStep → Prop
  | .fetchBatch processToTick =>
      ∀ log ∈ (dbGetLogsByTickRange E.K s.db E.epoch s.gCurrentVerifyLoggingTick processToTick).1,
        log ∈ logs
  | .push => ∀ group ∈ s.verifier.nextPush,
      PushTaken (s.handler c) group.1 group.2 (s.manager.client c) (s.cursor c)
  | .work conn => conn = c → s.HandlerNoneMissing E logs startTick c (s.handler c) (s.cursor c)
  | _ => True

instance (h : Handler) (tick : Nat) (group : List LogEvent) :
    ∀ (o : Option ClientState) (cursor : Cursor), Decidable (PushTaken h tick group o cursor)
  | some st, .logId L => inferInstanceAs (Decidable (∀ log ∈ group, st.subscribed log = true →
      L < log.getLogId → if st.catchUpInProgress then (log.getLogId : Int) ≤ replayedTo h
        else st.lastTick < tick ∧ st.belowMinAmount log = false))
  | none, _ | some _, .unset | some _, .tick _ => isTrue trivial

instance (E : StreamEnv) (logs : List LogEvent) (startTick : Nat) (c : WsConn) (s : StreamServer) :
    ∀ (h : Handler) (cursor : Cursor),
      Decidable (s.HandlerNoneMissing E logs startTick c h cursor)
  | .settingAmount _ msg, .logId _ => inferInstanceAs (Decidable (msg.keys.isSome = true))
  | .subscribing _ [], .logId L => inferInstanceAs (Decidable (∀ key ∈ s.manager.keysOf c,
      ∀ log ∈ earlierLogs logs startTick ++ s.verified.take (s.since c key),
        extractSubscriptionKey log = some key →
        L < log.getLogId → (log.getLogId : Int) ≤ replayEnd L s.latestLogId))
  | .replayingByLogId subscriptions id toLogId, .logId _ =>
      inferInstanceAs (Decidable (∀ log ∈ logs, subscribedTo subscriptions log = true →
        id ≤ log.getLogId → (log.getLogId : Int) ≤ batchEndByLogId id toLogId →
          dbTryGetLog s.db E.epoch log.getLogId = some log))
  | .settingAmount _ _, .unset | .settingAmount _ _, .tick _ | .subscribing _ [], .unset
  | .subscribing _ [], .tick _ | .subscribing _ (_ :: _), _ | .replayingByLogId _ _ _, .unset
  | .replayingByLogId _ _ _, .tick _ | .idle, _ | .settingCursor _ _, _ | .entering _, _
  | .replaying _ _ _, _ | .completing _, _ | .enteringByLogId _, _ | .completingByLogId _, _ =>
      isTrue trivial

instance (E : StreamEnv) (logs : List LogEvent) (startTick : Nat) (c : WsConn) (s : StreamServer) :
    ∀ a : StreamStep, Decidable (NoneMissing E logs startTick c s a)
  | .fetchBatch processToTick => inferInstanceAs (Decidable (∀ log ∈
      (dbGetLogsByTickRange E.K s.db E.epoch s.gCurrentVerifyLoggingTick processToTick).1,
        log ∈ logs))
  | .push => inferInstanceAs (Decidable (∀ group ∈ s.verifier.nextPush,
      PushTaken (s.handler c) group.1 group.2 (s.manager.client c) (s.cursor c)))
  | .work conn => inferInstanceAs (Decidable
      (conn = c → s.HandlerNoneMissing E logs startTick c (s.handler c) (s.cursor c)))
  | .chunk _ | .updateLatest _ | .logRange _ _ | .accept | .advance | .dispatch | .connect _
  | .close _ | .disconnect _ | .message _ _ | .unsubscribe _ _ | .unsubscribeAll _ => isTrue trivial

/-! ## Phases of a catch-up -/

/-- What was verified before the start, or has passed the push, beyond the end of the replay is
delivered. -/
structure LogIdPassed (logs : List LogEvent) (startTick : Nat) (L stop : Int) (c : WsConn)
    (s : StreamServer) (st : ClientState) : Prop where
  earlier : BeyondDelivered (· ∈ earlierLogs logs startTick) logIdPos L stop c s st
  passed : PassedDelivered logIdPos L stop c s st

/-- How far delivery has got in each phase of the handler. -/
def LogIdPhase (logs : List LogEvent) (startTick : Nat) (L : Int) (c : WsConn) (s : StreamServer)
    (st : ClientState) : Handler → Prop
  | .idle | .settingCursor _ _ => LogIdPassed logs startTick L L c s st ∧
      ReplayedDelivered (· ∈ logs) logIdPos L st.lastLogId c s st
  | .settingAmount useLogIdCatchUp _ | .subscribing useLogIdCatchUp _ =>
      useLogIdCatchUp = true ∧ st.lastLogId = L ∧ SinceDelivered logIdPos L c s st
  | .enteringByLogId toLogId => st.lastLogId = L ∧
      LogIdPassed logs startTick L (replayEnd L toLogId) c s st
  | .replayingByLogId subscriptions id toLogId => st.lastLogId = L ∧ 0 ≤ L ∧ L < id ∧
      id ≤ toLogId ∧ subscriptions = st.subscriptions ∧ LogIdPassed logs startTick L toLogId c s st ∧
      ReplayedDelivered (· ∈ logs) logIdPos L (id - 1) c s st
  | .completingByLogId toLogId => st.lastLogId = L ∧ LogIdPassed logs startTick L toLogId c s st ∧
      ReplayedDelivered (· ∈ logs) logIdPos L toLogId c s st
  | .entering _ | .replaying _ _ _ | .completing _ => False

def LogIdKept (logs : List LogEvent) (startTick : Nat) (c : WsConn) (s : StreamServer) (st : ClientState)
    (h : Handler) : Prop :=
  ∀ L, s.cursor c = .logId L → LogIdPhase logs startTick L c s st h

section phases

variable {E : StreamEnv} {logs : List LogEvent} {startTick : Nat} {L stop : Int} {c : WsConn}
variable {s s' : StreamServer} {st st' : ClientState} {h : Handler}

theorem mem_earlierLogs {log : LogEvent} :
    log ∈ earlierLogs logs startTick ↔ log ∈ logs ∧ log.getTick.toNat < startTick := by
  rw [earlierLogs, List.mem_filter, decide_eq_true_eq]

theorem LogIdPassed.grows (hp : LogIdPassed logs startTick L stop c s st) (hg : Grows c s s')
    (hkeys : st'.subscriptions ⊆ st.subscriptions) : LogIdPassed logs startTick L stop c s' st' :=
  ⟨hp.earlier.grows hg hkeys, hp.passed.grows hg hkeys⟩

theorem LogIdPassed.mono (hp : LogIdPassed logs startTick L stop c s st) {stop' : Int}
    (hle : stop ≤ stop') : LogIdPassed logs startTick L stop' c s st :=
  ⟨hp.earlier.mono hle, hp.passed.mono hle⟩

theorem LogIdPassed.push {tick : Nat} {group : List LogEvent}
    (hp : LogIdPassed logs startTick L stop c s st) (hpushed : Pushed tick group s s')
    (hnew : ∀ log ∈ group, st.subscribed log = true → L < logIdPos log → stop < logIdPos log →
      Delivered c s' log) : LogIdPassed logs startTick L stop c s' st :=
  ⟨hp.earlier.push hpushed, hp.passed.push hpushed hnew⟩

/-- At the end of the replay all that is verified is delivered: the logs of the epoch are those that
the replay goes through. -/
theorem LogIdPassed.complete (hp : LogIdPassed logs startTick L stop c s st)
    (hreplayed : ReplayedDelivered (· ∈ logs) logIdPos L stop c s st)
    (hlogs : ∀ log ∈ s.verified, log ∈ logs) : LogIdPassed logs startTick L L c s st :=
  ⟨hp.earlier.complete hreplayed fun _ hlog => (mem_earlierLogs.mp hlog).1,
    hp.passed.complete hreplayed hlogs⟩

theorem LogIdPhase.grows (hp : LogIdPhase logs startTick L c s st h) (hg : Grows c s s') :
    LogIdPhase logs startTick L c s' st h := by
  have hkeys : st.subscriptions ⊆ st.subscriptions := fun _ hkey => hkey
  cases h with
  | idle => exact ⟨hp.1.grows hg hkeys, hp.2.grows hg hkeys⟩
  | settingCursor _ _ => exact ⟨hp.1.grows hg hkeys, hp.2.grows hg hkeys⟩
  | settingAmount _ _ => exact ⟨hp.1, hp.2.1, hp.2.2.grows hg hkeys⟩
  | subscribing _ _ => exact ⟨hp.1, hp.2.1, hp.2.2.grows hg hkeys⟩
  | enteringByLogId _ => exact ⟨hp.1, hp.2.grows hg hkeys⟩
  | replayingByLogId _ _ _ =>
      obtain ⟨hL, hpos, hlt, hle, hsub, hpassed, hreplayed⟩ := hp
      exact ⟨hL, hpos, hlt, hle, hsub, hpassed.grows hg hkeys, hreplayed.grows hg hkeys⟩
  | completingByLogId _ => exact ⟨hp.1, hp.2.1.grows hg hkeys, hp.2.2.grows hg hkeys⟩
  | entering _ => exact absurd hp id
  | replaying _ _ _ => exact absurd hp id
  | completing _ => exact absurd hp id

/-- Both parts of `NoneSteppedOver` follow from the phase. -/
theorem LogIdPhase.noneSteppedOver (hp : LogIdPhase logs startTick L c s st h) :
    (catchesUp h = false → ∀ log ∈ earlierLogs logs startTick ++ s.verified,
      st.subscribed log = true → L < log.getLogId → Delivered c s log) ∧
    ∀ log ∈ logs, st.subscribed log = true → L < log.getLogId → log.getLogId ≤ st.lastLogId →
      Delivered c s log := by
  -- while the client catches up its `lastLogId` is still the cursor
  have hbelow : st.lastLogId = L → ∀ log ∈ logs, st.subscribed log = true →
      L < (log.getLogId : Int) → (log.getLogId : Int) ≤ st.lastLogId → Delivered c s log :=
    fun hL _ _ _ hlt hle => absurd (lt_of_lt_of_le hlt (hL ▸ hle)) (lt_irrefl _)
  have hidle : LogIdPassed logs startTick L L c s st →
      ∀ log ∈ earlierLogs logs startTick ++ s.verified, st.subscribed log = true →
        L < (log.getLogId : Int) → Delivered c s log := by
    intro hpassed log hlog hsub hlt
    rcases List.mem_append.mp hlog with hlog | hlog
    · exact hpassed.earlier log hlog hsub hlt hlt
    · exact hpassed.passed log hlog hsub hlt hlt
  cases h with
  | idle => exact ⟨fun _ => hidle hp.1, hp.2⟩
  | settingCursor _ _ => exact ⟨fun _ => hidle hp.1, hp.2⟩
  | settingAmount _ _ => exact ⟨nofun, hbelow hp.2.1⟩
  | subscribing _ _ => exact ⟨nofun, hbelow hp.2.1⟩
  | enteringByLogId _ => exact ⟨nofun, hbelow hp.1⟩
  | replayingByLogId _ _ _ => exact ⟨nofun, hbelow hp.1⟩
  | completingByLogId _ => exact ⟨nofun, hbelow hp.1⟩
  | entering _ => exact absurd hp id
  | replaying _ _ _ => exact absurd hp id
  | completing _ => exact absurd hp id

/-- A push of a group. What the client is passed over for is delivered already, or will be by the
replay under way. -/
theorem LogIdPhase.push {tick : Nat} {group : List LogEvent} (hr : Registered s)
    (hst : s.manager.client c = some st) (hflag : FlagKept s st h)
    (hlogs : ∀ log ∈ group, log ∈ logs) (htaken : PushTaken h tick group (some st) (.logId L))
    (hpushed : Pushed tick group s s') (hp : LogIdPhase logs startTick L c s st h) :
    LogIdPhase logs startTick L c s' st h := by
  have hnew : replays h = false → ∀ log ∈ group, st.subscribed log = true → L < logIdPos log →
      (0 ≤ st.lastLogId → st.lastLogId < log.getLogId) → Delivered c s' log := by
    intro hidle log hlog hsub hlt hid
    have hflag : st.catchUpInProgress = false := hflag.trans hidle
    have htaken := htaken log hlog hsub hlt
    rw [hflag, if_neg (by decide)] at htaken
    exact hpushed.delivered_new hr hst hlog hsub
      (ClientState.skips_eq_false_iff.mpr ⟨hflag, htaken.1, hid, htaken.2⟩)
  have hcovered : replays h = true → ∀ log ∈ group, st.subscribed log = true → L < logIdPos log →
      replayedTo h < logIdPos log → Delivered c s' log := by
    intro hreplays log hlog hsub hlt hstop
    have htaken := htaken log hlog hsub hlt
    rw [show st.catchUpInProgress = true from hflag.trans hreplays, if_pos rfl] at htaken
    exact absurd htaken (not_le.mpr hstop)
  have hatCursor : st.lastLogId = L → ∀ log : LogEvent, L < logIdPos log →
      (0 ≤ st.lastLogId → st.lastLogId < log.getLogId) := fun hL log hlt _ => hL ▸ hlt
  have hidle : replays h = false → LogIdPassed logs startTick L L c s st ∧
      ReplayedDelivered (· ∈ logs) logIdPos L st.lastLogId c s st →
      LogIdPassed logs startTick L L c s' st ∧
        ReplayedDelivered (· ∈ logs) logIdPos L st.lastLogId c s' st := by
    rintro hreplays ⟨hpassed, hreplayed⟩
    refine ⟨hpassed.push hpushed fun log hlog hsub hlt _ => ?_, hreplayed.push hpushed⟩
    by_cases hle : logIdPos log ≤ st.lastLogId
    · exact hpushed.delivered (hreplayed log (hlogs log hlog) hsub hlt hle)
    · exact hnew hreplays log hlog hsub hlt (fun _ => not_le.mp hle)
  cases h with
  | idle => exact hidle rfl hp
  | settingCursor _ _ => exact hidle rfl hp
  | settingAmount _ _ =>
      obtain ⟨hu, hL, hsince⟩ := hp
      exact ⟨hu, hL, hsince.push hpushed fun log hlog hsub hlt =>
        hnew rfl log hlog hsub hlt (hatCursor hL log hlt)⟩
  | subscribing _ _ =>
      obtain ⟨hu, hL, hsince⟩ := hp
      exact ⟨hu, hL, hsince.push hpushed fun log hlog hsub hlt =>
        hnew rfl log hlog hsub hlt (hatCursor hL log hlt)⟩
  | enteringByLogId _ =>
      obtain ⟨hL, hpassed⟩ := hp
      exact ⟨hL, hpassed.push hpushed fun log hlog hsub hlt _ =>
        hnew rfl log hlog hsub hlt (hatCursor hL log hlt)⟩
  | replayingByLogId _ _ _ =>
      obtain ⟨hL, hpos, hlt, hle, hsub, hpassed, hreplayed⟩ := hp
      exact ⟨hL, hpos, hlt, hle, hsub, hpassed.push hpushed (hcovered rfl),
        hreplayed.push hpushed⟩
  | completingByLogId _ =>
      exact ⟨hp.1, hp.2.1.push hpushed (hcovered rfl), hp.2.2.push hpushed⟩
  | entering _ => exact absurd hp id
  | replaying _ _ _ => exact absurd hp id
  | completing _ => exact absurd hp id

/-! ## The handler's own steps -/

/-- A step that sets the client's state and its phase and keeps the cursor. -/
theorem logIdKept_modify {f : ClientState → ClientState} {h' : Handler}
    (hst : s.manager.client c = some st)
    (hclient : s'.manager.client c = (s.manager.client c).map f) (hhandler : s'.handler c = h')
    (hcursor : s'.cursor c = s.cursor c)
    (hphase : ∀ L, s.cursor c = .logId L → LogIdPhase logs startTick L c s' (f st) h') :
    ∀ st', s'.manager.client c = some st' → LogIdKept logs startTick c s' st' (s'.handler c) := by
  refine phase_modify hst hclient hhandler fun L hL => ?_
  rw [hcursor] at hL
  exact hphase L hL

/-- Setting a cursor: nothing has passed since. -/
theorem logIdKept_applyCursor (msg : SubscribeMessage) (currentTick : Nat)
    (hst : s.manager.client c = some st) : ∀ st',
      (s.applyCursor c msg currentTick).manager.client c = some st' →
        LogIdKept logs startTick c (s.applyCursor c msg currentTick) st'
          ((s.applyCursor c msg currentTick).handler c) := by
  intro st' hst' L hL
  rw [client_applyCursor, hst] at hst'
  obtain rfl := Option.some.inj hst'
  have hcursor : (s.applyCursor c msg currentTick).cursor c = msg.cursor.asked :=
    Function.update_self _ _ _
  have hhandler : (s.applyCursor c msg currentTick).handler c =
      .settingAmount msg.cursor.useLogIdCatchUp msg := setHandler_self _
  rw [hcursor] at hL
  rw [hhandler]
  cases hfield : msg.cursor with
  | lastLogId value =>
      rw [hfield] at hL
      obtain rfl : value = L := Cursor.logId.inj hL
      exact ⟨rfl, rfl, sinceDelivered_applyCursor msg currentTick⟩
  | lastLogIdInvalid =>
      rw [hfield] at hL
      cases hL
  | lastTick value =>
      rw [hfield] at hL
      cases hL
  | lastTickInvalid =>
      rw [hfield] at hL
      cases hL
  | absent =>
      rw [hfield] at hL
      cases hL

/-- The replay is triggered. It reaches up to what had passed before. -/
theorem LogIdPhase.trigger {useLogIdCatchUp : Bool}
    (hp : LogIdPhase logs startTick L c s st (.subscribing useLogIdCatchUp []))
    (hst : s.manager.client c = some st)
    (hbefore : s.HandlerNoneMissing E logs startTick c (.subscribing useLogIdCatchUp []) (.logId L)) :
    LogIdPhase logs startTick L c s st (s.trigger useLogIdCatchUp) := by
  obtain ⟨rfl, hL, hsince⟩ := hp
  rw [HandlerNoneMissing, LogSubscriptionManager.keysOf_eq hst] at hbefore
  have hpassed : LogIdPassed logs startTick L (replayEnd L s.latestLogId) c s st := by
    refine ⟨fun log hlog hsub hlt hstop => ?_, hsince.passed fun key hkey log hlog =>
      hbefore key hkey log (List.mem_append_right _ hlog)⟩
    obtain ⟨key, hext, hkey⟩ := ClientState.subscribed_iff.mp hsub
    exact absurd (hbefore key hkey log (List.mem_append_left _ hlog) hext hlt) (not_le.mpr hstop)
  unfold StreamServer.trigger
  rw [if_pos rfl]
  split
  · exact ⟨hL, hpassed⟩
  · next hlatest =>
      have hend : replayEnd L s.latestLogId ≤ L := by
        unfold replayEnd
        split
        · exact le_rfl
        · omega
      exact ⟨hpassed.mono hend, replayedDelivered_of_le (le_of_eq hL)⟩

/-- The first lock of the replay. -/
theorem logIdKept_enterByLogId {toLogId : Int} (hst : s.manager.client c = some st)
    (hphase : s.handler c = .enteringByLogId toLogId)
    (hp : LogIdKept logs startTick c s st (s.handler c)) : ∀ st',
      (s.enterByLogId c toLogId).manager.client c = some st' →
        LogIdKept logs startTick c (s.enterByLogId c toLogId) st' ((s.enterByLogId c toLogId).handler c) := by
  rw [hphase] at hp
  unfold enterByLogId
  rw [hst]
  dsimp only
  by_cases hskip : st.subscriptions = [] ∨ st.lastLogId < 0
  · rw [if_pos hskip]
    refine logIdKept_modify hst (Option.map_id_apply.symm) (setHandler_self _) rfl fun L hcur => ?_
    obtain ⟨hL, hpassed⟩ := hp L hcur
    have hidle : LogIdPassed logs startTick L L c s st := by
      rcases hskip with hnil | hneg
      · exact ⟨beyondDelivered_of_nil hnil, passedDelivered_of_nil hnil⟩
      · rwa [replayEnd, if_pos (hL ▸ hneg)] at hpassed
    have hphase : LogIdPhase logs startTick L c s st .idle :=
      ⟨hidle, replayedDelivered_of_le (le_of_eq hL)⟩
    exact hphase.grows (grows_setHandler _)
  · rw [if_neg hskip]
    refine logIdKept_modify hst (client_modifyClient_self _ _) (setHandler_self _) rfl
      fun L hcur => ?_
    obtain ⟨hL, hpassed⟩ := hp L hcur
    have hpos : 0 ≤ L := by
      rw [← hL]
      exact not_lt.mp fun hneg => hskip (Or.inr hneg)
    rw [replayEnd, if_neg (not_lt.mpr hpos)] at hpassed
    have hpassed' : ∀ h, LogIdPassed logs startTick L toLogId c
        ({ s with manager := s.manager.beginCatchUp c }.setHandler c h)
        { st with catchUpInProgress := true } :=
      fun h => hpassed.grows (grows_of_eq rfl rfl rfl rfl) (fun _ hkey => hkey)
    split
    · exact ⟨hL, hpassed' _, replayedDelivered_of_le (by omega)⟩
    · exact ⟨hL, hpos, by omega, by omega, rfl, hpassed' _, replayedDelivered_of_le (by omega)⟩

/-- One batch of the replay, with all its logs stored. -/
theorem LogIdPhase.replay {subscriptions : List SubscriptionKey} {id toLogId : Int}
    (hp : LogIdPhase logs startTick L c s st (.replayingByLogId subscriptions id toLogId))
    (hconn : s.link c = .connected)
    (hstored : s.HandlerNoneMissing E logs startTick c (.replayingByLogId subscriptions id toLogId) (.logId L))
    (handler : Handler) :
    ReplayedDelivered (· ∈ logs) logIdPos L (batchEndByLogId id toLogId) c
      ((s.send c (performCatchUpByLogIdSends c subscriptions
        (dbTryGetLogsFromTo s.db E.epoch id (batchEndByLogId id toLogId)))).setHandler c handler)
      st := by
  obtain ⟨-, hpos, hlt, -, rfl, -, hreplayed⟩ := hp
  intro log hlog hsub hL hle
  unfold logIdPos at hL hle
  by_cases hid : id ≤ log.getLogId
  · -- a log of this batch
    have hread : log ∈ dbTryGetLogsFromTo s.db E.epoch id (batchEndByLogId id toLogId) := by
      refine mem_dbTryGetLogsFromTo.mpr ⟨hstored log hlog hsub hid hle, ?_⟩
      omega
    exact delivered_catchUpSends hconn hread hsub handler
  · have hbefore : logIdPos log ≤ id - 1 := by
      unfold logIdPos
      omega
    have hgrows := (grows_send (c := c) (s := s) (performCatchUpByLogIdSends c st.subscriptions
      (dbTryGetLogsFromTo s.db E.epoch id (batchEndByLogId id toLogId)))).trans
        (grows_setHandler handler)
    exact hgrows.delivered log (hreplayed log hlog hsub hL hbefore)

theorem logIdKept_replayByLogId {subscriptions : List SubscriptionKey} {id toLogId : Int}
    (hconn : s.link c = .connected) (hst : s.manager.client c = some st)
    (hphase : s.handler c = .replayingByLogId subscriptions id toLogId)
    (hok : s.HandlerNoneMissing E logs startTick c (.replayingByLogId subscriptions id toLogId) (s.cursor c))
    (hp : LogIdKept logs startTick c s st (s.handler c)) : ∀ st',
      (s.replayByLogId E c subscriptions id toLogId).manager.client c = some st' →
        LogIdKept logs startTick c (s.replayByLogId E c subscriptions id toLogId) st'
          ((s.replayByLogId E c subscriptions id toLogId).handler c) := by
  rw [hphase] at hp
  unfold replayByLogId
  dsimp only
  rw [if_pos hconn]
  refine logIdKept_modify hst ((client_send _).trans Option.map_id_apply.symm) (setHandler_self _)
    (congrFun (send_cursor _) c) fun L hcur => ?_
  have hp := hp L hcur
  rw [hcur] at hok
  have hreplayed := hp.replay hconn hok
    (if toLogId < id + BATCH_SIZE_BY_LOG_ID then .completingByLogId toLogId
    else .replayingByLogId subscriptions (id + BATCH_SIZE_BY_LOG_ID) toLogId)
  obtain ⟨hL, hpos, hlt, hle, hsub, hpassed, -⟩ := hp
  have hpassed := hpassed.grows ((grows_send (c := c) (s := s)
    (performCatchUpByLogIdSends c subscriptions
      (dbTryGetLogsFromTo s.db E.epoch id (batchEndByLogId id toLogId)))).trans
    (grows_setHandler (if toLogId < id + BATCH_SIZE_BY_LOG_ID then .completingByLogId toLogId
      else .replayingByLogId subscriptions (id + BATCH_SIZE_BY_LOG_ID) toLogId)))
    (fun _ hkey => hkey : st.subscriptions ⊆ st.subscriptions)
  unfold batchEndByLogId at hreplayed hpassed ⊢
  unfold BATCH_SIZE_BY_LOG_ID at hreplayed hpassed ⊢
  by_cases hend : toLogId < id + 1000
  · rw [if_pos hend] at hreplayed hpassed ⊢
    refine ⟨hL, hpassed, hreplayed.mono ?_⟩
    omega
  · rw [if_neg hend] at hreplayed hpassed ⊢
    refine ⟨hL, hpos, by omega, by omega, hsub, hpassed, hreplayed.mono ?_⟩
    omega

theorem logIdKept_work (hconn : s.link c = .connected) (hst : s.manager.client c = some st)
    (hlogs : PassesOnly (· ∈ logs) s) (hok : NoneMissing E logs startTick c s (.work c))
    (hp : LogIdKept logs startTick c s st (s.handler c)) : ∀ st', (s.work E c).manager.client c = some st' →
      LogIdKept logs startTick c (s.work E c) st' ((s.work E c).handler c) := by
  have hok := hok rfl
  have hsame : s.manager.client c = (s.manager.client c).map id := Option.map_id_apply.symm
  have hkeys : st.subscriptions ⊆ st.subscriptions := fun _ hkey => hkey
  -- the phases of a replay by ticks go with another kind of cursor
  have hother : (∀ L, ¬ LogIdPhase logs startTick L c s st (s.handler c)) →
      (∀ msg currentTick, s.handler c ≠ .settingCursor msg currentTick) →
      ∀ st', (s.work E c).manager.client c = some st' →
        LogIdKept logs startTick c (s.work E c) st' ((s.work E c).handler c) := by
    intro hnot hset st' _ L hcur
    rw [work_cursor hset] at hcur
    exact absurd (hp L hcur) (hnot L)
  cases hphase : s.handler c with
  | idle =>
      rw [work, hphase]
      exact logIdKept_modify hst hsame rfl rfl hp
  | settingCursor msg currentTick =>
      rw [work, hphase]
      exact logIdKept_applyCursor msg currentTick hst
  | settingAmount useLogIdCatchUp msg =>
      rw [work, hphase]
      rw [hphase] at hp hok
      refine logIdKept_modify hst (client_applyAmount _ _) (setHandler_self _) rfl fun L hcur => ?_
      obtain ⟨hu, hL, hsince⟩ := hp L hcur
      rw [hcur] at hok
      obtain ⟨keys, hkeysOf⟩ := Option.isSome_iff_exists.mp hok
      rw [hkeysOf]
      exact ⟨hu, hL, hsince.grows (grows_of_eq rfl rfl rfl rfl) hkeys⟩
  | subscribing useLogIdCatchUp keys =>
      rw [hphase] at hp hok
      cases keys with
      | nil =>
          rw [work, hphase]
          refine logIdKept_modify hst hsame (setHandler_self _) rfl fun L hcur => ?_
          rw [hcur] at hok
          exact ((hp L hcur).trigger hst hok).grows (grows_setHandler _)
      | cons key keys =>
          rw [work, hphase]
          refine logIdKept_modify hst (client_addKey _ _ _) (setHandler_self _) rfl
            fun L hcur => ?_
          obtain ⟨hu, hL, hsince⟩ := hp L hcur
          exact ⟨hu, hL, hsince.addKey hst _ _ _⟩
  | entering toTick =>
      rw [hphase] at hother
      exact hother (fun _ hfalse => hfalse) (fun _ _ hset => by cases hset)
  | replaying subscriptions tick toTick =>
      rw [hphase] at hother
      exact hother (fun _ hfalse => hfalse) (fun _ _ hset => by cases hset)
  | completing toTick =>
      rw [hphase] at hother
      exact hother (fun _ hfalse => hfalse) (fun _ _ hset => by cases hset)
  | enteringByLogId toLogId =>
      rw [work, hphase]
      exact logIdKept_enterByLogId hst hphase hp
  | replayingByLogId subscriptions id toLogId =>
      rw [work, hphase]
      rw [hphase] at hok
      exact logIdKept_replayByLogId hconn hst hphase hok hp
  | completingByLogId toLogId =>
      rw [work, hphase]
      rw [hphase] at hp
      refine logIdKept_modify hst (client_modifyClient_self _ _) (setHandler_self _) rfl
        fun L hcur => ?_
      obtain ⟨hL, hpassed, hreplayed⟩ := hp L hcur
      have hall := hpassed.complete hreplayed hlogs.verified
      exact ⟨hall.grows (grows_of_eq rfl rfl rfl rfl) hkeys,
        hreplayed.grows (grows_of_eq rfl rfl rfl rfl) hkeys⟩

/-- The states in which the phases are kept. -/
structure LogIdGood (logs : List LogEvent) (c : WsConn) (s : StreamServer) : Prop where
  registered : Registered s
  flag : InPhase FlagKept c s
  logs : PassesOnly (· ∈ logs) s

theorem logIdKept_rule (E : StreamEnv) (logs : List LogEvent) (startTick : Nat) (c : WsConn) :
    PhaseRule E c (LogIdGood logs c) (NoneMissing E logs startTick c) (LogIdKept logs startTick c) where
  frame := by
    intro s a st h _ _ hgrows hcursor hp L hL
    rw [hcursor] at hL
    exact (hp L hL).grows hgrows
  fresh := by
    intro s hunset L hL
    rw [hunset] at hL
    cases hL
  message _ _ hp := hp
  fewer := by
    intro s st keys hkeys hp L hL
    obtain ⟨hpassed, hreplayed⟩ := hp L hL
    exact ⟨hpassed.grows (grows_of_eq rfl rfl rfl rfl) hkeys,
      hreplayed.grows (grows_of_eq rfl rfl rfl rfl) hkeys⟩
  push := by
    intro s s' tick group groups processToTick st hgood hok hphase hpushed hconn hst hp L hL
    rw [hpushed.cursor] at hL
    have hlogs : ∀ log ∈ group, log ∈ logs := by
      have hpending := hgood.logs.pending
      rw [hphase] at hpending
      exact fun log hlog => hpending log (List.mem_append_left _ hlog)
    have htaken : PushTaken (s.handler c) tick group (s.manager.client c) (s.cursor c) :=
      hok (tick, group) (by rw [hphase]; rfl)
    rw [hst, hL] at htaken
    exact (hp L hL).push hgood.registered hst (hgood.flag hconn st hst) hlogs htaken hpushed
  work hgood hok hconn hst hp := logIdKept_work hconn hst hgood.logs hok hp

end phases

/-- From any start, for every connection, in every run whose steps miss no log, the client's
`lastLogId` does not step over a log. -/
theorem noneSteppedOver_run (E : StreamEnv) (logs : List LogEvent) (c : WsConn) (db : LogDB)
    (latestLogId : Int) (tick : Nat) (steps : List StreamStep)
    (hok : Runs.Guarded (step E) (NoneMissing E logs tick c) (start db latestLogId tick) steps) :
    NoneSteppedOver logs tick c ((start db latestLogId tick).run E steps) := by
  have hstep : ∀ s a, (LogIdGood logs c s ∧ InPhase (LogIdKept logs tick c) c s) →
      NoneMissing E logs tick c s a →
      (LogIdGood logs c (s.step E a) ∧ InPhase (LogIdKept logs tick c) c (s.step E a)) := by
    rintro s a ⟨hgood, hp⟩ hok
    refine ⟨⟨registered_step a hgood.registered, ?_, ?_⟩, ?_⟩
    · exact inPhase_step (flagKept_rule E c) a hgood.registered trivial trivial hgood.flag
    · refine hgood.logs.step a fun processToTick ha => ?_
      rw [ha] at hok
      exact hok
    · exact inPhase_step (logIdKept_rule E logs tick c) a hgood.registered hgood hok hp
  have hstart : LogIdGood logs c (start db latestLogId tick) ∧
      InPhase (LogIdKept logs tick c) c (start db latestLogId tick) :=
    ⟨⟨registered_start db latestLogId tick, nofun, passesOnly_start _ db latestLogId tick⟩, nofun⟩
  obtain ⟨-, hp⟩ := Runs.run_invariant hstep hstart hok
  intro L st hL hconn hst
  exact (hp hconn st hst L hL).noneSteppedOver

/-- A node that has verified tick 5 before it was started again, with the log of this tick. -/
def restarted : StreamServer := start (noLogs.dbInsertLog (streamLog 5 1)) 1 6

/-- The log of tick 6 is stored when a client asks for what comes after id 0 and is sent this one and
that of tick 5, then the log of tick 7 arrives, and ticks 6 and 7 are verified and pushed. -/
def replayedByLogIdThenPushed : List StreamStep :=
  ([.chunk [streamLog 6 2], .updateLatest 0, .logRange 6 (oneLog 2), .connect 1] :
      List StreamStep) ++
    subscribeSteps (.lastLogId 0) 7 ++
    ([.chunk [streamLog 7 3], .updateLatest 0, .logRange 7 (oneLog 3), .fetchBatch 7,
      .accept, .push, .push, .dispatch, .advance] : List StreamStep)

theorem noneSteppedOver_run_replayed_then_pushed :
    (restarted.run streamEnv replayedByLogIdThenPushed).sinceCursor 1 =
        [streamLog 5 1, streamLog 6 2, streamLog 7 3] ∧
      NoneSteppedOver [streamLog 5 1, streamLog 6 2, streamLog 7 3] 6 1
        (restarted.run streamEnv replayedByLogIdThenPushed) := by
  have hok : Runs.Guarded (step streamEnv)
      (NoneMissing streamEnv [streamLog 5 1, streamLog 6 2, streamLog 7 3] 6 1) restarted
      replayedByLogIdThenPushed := by decide +kernel
  refine ⟨by decide +kernel, ?_⟩
  exact noneSteppedOver_run streamEnv [streamLog 5 1, streamLog 6 2, streamLog 7 3] 1
    (noLogs.dbInsertLog (streamLog 5 1)) 1 6 replayedByLogIdThenPushed hok

/-- The log of tick 6 arrives first. A client asks for what comes after id 0 and is sent it; then the
log of tick 5 arrives, and both ticks are verified and pushed. -/
def chunksOutOfOrder : List StreamStep :=
  ([.chunk [streamLog 6 2], .updateLatest 0, .connect 1] : List StreamStep) ++
    subscribeSteps (.lastLogId 0) 7 ++
    ([.chunk [streamLog 5 1], .updateLatest 0, .logRange 5 (oneLog 1),
      .logRange 6 (oneLog 2), .fetchBatch 6, .accept, .push, .push, .advance] : List StreamStep)

/-- The log of tick 5 has passed and is not delivered: the client's `lastLogId` is 2. -/
theorem late_log_stepped_over :
    streamLog 5 1 ∈ ((start noLogs (-1) 5).run streamEnv chunksOutOfOrder).verified ∧
      ¬ NoneSteppedOver [streamLog 5 1, streamLog 6 2] 5 1
        ((start noLogs (-1) 5).run streamEnv chunksOutOfOrder) := by
  have hverified : streamLog 5 1 ∈
      ((start noLogs (-1) 5).run streamEnv chunksOutOfOrder).verified := by decide +kernel
  have hclient : ((start noLogs (-1) 5).run streamEnv chunksOutOfOrder).manager.client 1 =
      some ⟨[streamKey], 0, 2, false, 0⟩ := by decide +kernel
  have hcursor : ((start noLogs (-1) 5).run streamEnv chunksOutOfOrder).cursor 1 = .logId 0 := by
    decide +kernel
  have hlink : ((start noLogs (-1) 5).run streamEnv chunksOutOfOrder).link 1 = .connected := by
    decide +kernel
  have hnot : ∀ msg ∈ ((start noLogs (-1) 5).run streamEnv chunksOutOfOrder).sent ++
      ((start noLogs (-1) 5).run streamEnv chunksOutOfOrder).queue,
      msg.log ≠ streamLog 5 1 := by decide +kernel
  refine ⟨hverified, fun h => ?_⟩
  obtain ⟨-, hdelivered⟩ := h 0 _ hcursor hlink hclient
  obtain ⟨msg, hmsg, -, hlog⟩ := hdelivered (streamLog 5 1) List.mem_cons_self (by decide +kernel)
    (by decide +kernel) (by decide +kernel)
  exact hnot msg (List.mem_append.mpr hmsg) hlog

end StreamServer

end QubicBob
