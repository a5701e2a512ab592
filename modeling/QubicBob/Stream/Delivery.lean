import QubicBob.Stream.Server

set_option autoImplicit false

/-! # Delivery

What the two kinds of cursor have in common. A log is delivered to a client when it is sent to it or
waits in the queue of the event loop. Delivery to a client is handed over between the live push and
the replay, and three statements describe how far it has got, for a position `pos` of a log (its
tick or its id) and the client's cursor `V`: what has passed the push since the key was added is
delivered (`SinceDelivered`), so is what has passed beyond the end of the replay (`BeyondDelivered`,
and `PassedDelivered` of the logs pushed), and so is what the replay has covered
(`ReplayedDelivered`).

All three say that logs of some kind are among those delivered. A step in which what is sent and
queued only grows and no more logs have passed keeps them (`Grows`), and the push of a group adds to
them what it brings. Which of them holds depends on the phase of the client's handler (`InPhase`).
`PhaseRule` lists what a statement about phases has to meet for all steps to keep it, so that each
cursor only shows the steps of the client's own handler; its first use is `catchUpInProgress`.
-/

namespace QubicBob

theorem ClientState.subscribed_iff {st : ClientState} {log : LogEvent} :
    st.subscribed log = true ↔
      ∃ key, extractSubscriptionKey log = some key ∧ key ∈ st.subscriptions := subscribedTo_iff

/-- Fewer keys. -/
theorem ClientState.subscribed_mono {st st' : ClientState}
    (h : st'.subscriptions ⊆ st.subscriptions) {log : LogEvent}
    (hlog : st'.subscribed log = true) : st.subscribed log = true := by
  obtain ⟨key, hkey, hmem⟩ := subscribed_iff.mp hlog
  exact subscribed_iff.mpr ⟨key, hkey, h hmem⟩

/-- The logs of the batch at hand that have not passed the push yet. -/
def Verifier.pending : Verifier → List LogEvent
  | .idle => []
  | .simulating _ vle => vle
  | .pushing _ groups => groups.flatMap Prod.snd

/-- The tick and the logs of the next push. -/
def Verifier.nextPush : Verifier → Option (Nat × List LogEvent)
  | .pushing _ (group :: _) => some group
  | _ => none

namespace StreamServer

/-! ## What passes -/

/-- What has passed and what is about to has the property. -/
structure PassesOnly (W : LogEvent → Prop) (s : StreamServer) : Prop where
  verified : ∀ log ∈ s.verified, W log
  pending : ∀ log ∈ s.verifier.pending, W log

/-- It is enough that the logs of every batch that is read have it. -/
theorem PassesOnly.step {W : LogEvent → Prop} {E : StreamEnv} {s : StreamServer}
    (h : PassesOnly W s) (a : StreamStep) (hfetch : ∀ processToTick, a = .fetchBatch processToTick →
      ∀ log ∈ (dbGetLogsByTickRange E.K s.db E.epoch s.gCurrentVerifyLoggingTick processToTick).1,
        W log) : PassesOnly W (s.step E a) := by
  cases ha : ofVerifier a with
  | false =>
      have hsame := @sameVerifier_step E s a ha
      constructor
      · rw [hsame.verified]
        exact h.verified
      · rw [hsame.verifier]
        exact h.pending
  | true =>
      cases a with
      | fetchBatch processToTick =>
          rcases @fetchBatch_cases E s processToTick with heq | ⟨-, -, -, heq⟩ <;> rw [heq]
          · exact h
          · exact ⟨h.verified, hfetch processToTick rfl⟩
      | accept =>
          rcases @accept_cases E s with heq | ⟨processToTick, vle, hphase, heq⟩ <;> rw [heq]
          · exact h
          · have hvle := h.pending
            rw [hphase] at hvle
            unfold acceptBatch
            split
            · refine ⟨h.verified, ?_⟩
              change ∀ log ∈ (groupByTick vle).flatMap Prod.snd, W log
              rw [groupByTick_flatMap]
              exact hvle
            · refine ⟨?_, fun _ hlog => absurd hlog List.not_mem_nil⟩
              exact List.forall_mem_append.mpr ⟨h.verified, hvle⟩
      | push =>
          rcases @push_cases E s with heq | ⟨processToTick, tick, logs, groups, hphase, heq⟩ <;>
            rw [heq]
          · exact h
          · have hpending := h.pending
            rw [hphase] at hpending
            change ∀ log ∈ logs ++ groups.flatMap Prod.snd, W log at hpending
            obtain ⟨hlogs, hgroups⟩ := List.forall_mem_append.mp hpending
            exact ⟨List.forall_mem_append.mpr ⟨h.verified, hlogs⟩, hgroups⟩
      | advance =>
          rcases @advance_cases E s with heq | ⟨processToTick, -, heq⟩ <;> rw [heq]
          · exact h
          · exact ⟨h.verified, fun _ hlog => absurd hlog List.not_mem_nil⟩
      | _ => cases ha

theorem passesOnly_start (W : LogEvent → Prop) (db : LogDB) (latestLogId : Int) (tick : Nat) :
    PassesOnly W (start db latestLogId tick) :=
  ⟨fun _ h => absurd h List.not_mem_nil, fun _ h => absurd h List.not_mem_nil⟩

/-! ## Delivery to a client -/

/-- The log is sent to the client or waits to be. -/
def Delivered (c : WsConn) (s : StreamServer) (log : LogEvent) : Prop :=
  ∃ msg : LogMessage, (msg ∈ s.sent ∨ msg ∈ s.queue) ∧ msg.conn = c ∧ msg.log = log

/-- No delivery is lost and no more logs have passed. -/
structure Grows (c : WsConn) (s s' : StreamServer) : Prop where
  delivered : ∀ log, Delivered c s log → Delivered c s' log
  verified : s'.verified = s.verified
  since : s'.since c = s.since c

section grows

variable {E : StreamEnv} {s s' : StreamServer} {c : WsConn}

theorem SameFor.grows (h : SameFor c s s') : Grows c s s' where
  delivered := by
    rintro log ⟨msg, hmsg, hc, hlog⟩
    refine ⟨msg, ?_, hc, hlog⟩
    rw [h.queue]
    exact hmsg.imp_left (h.sent msg hc).mpr
  verified := h.verified
  since := h.since

theorem grows_of_eq (hsent : s'.sent = s.sent) (hqueue : s'.queue = s.queue)
    (hverified : s'.verified = s.verified) (hsince : s'.since c = s.since c) : Grows c s s' where
  delivered := by
    rintro log ⟨msg, hmsg, hc, hlog⟩
    refine ⟨msg, ?_, hc, hlog⟩
    rw [hsent, hqueue]
    exact hmsg
  verified := hverified
  since := hsince

theorem Grows.trans {s'' : StreamServer} (h : Grows c s s') (h' : Grows c s' s'') :
    Grows c s s'' where
  delivered log hlog := h'.delivered log (h.delivered log hlog)
  verified := h'.verified.trans h.verified
  since := h'.since.trans h.since

theorem grows_setHandler (handler : Handler) : Grows c s (s.setHandler c handler) :=
  grows_of_eq rfl rfl rfl rfl

theorem grows_send (msgs : List LogMessage) : Grows c s (s.send c msgs) := by
  unfold send
  split
  · refine ⟨?_, rfl, rfl⟩
    rintro log ⟨msg, hmsg, hc, hlog⟩
    exact ⟨msg, hmsg.imp_left (List.mem_append_left _), hc, hlog⟩
  · exact grows_of_eq rfl rfl rfl rfl

/-- What a connected client is sent is delivered. -/
theorem delivered_send (hlink : s.link c = .connected) {msgs : List LogMessage} {msg : LogMessage}
    (hmsg : msg ∈ msgs) (hc : msg.conn = c) : Delivered c (s.send c msgs) msg.log := by
  refine ⟨msg, Or.inl ?_, hc, rfl⟩
  unfold send
  rw [if_pos hlink]
  exact List.mem_append_right _ hmsg

/-- What a replay reads of the client's keys is delivered. -/
theorem delivered_catchUpSends (hlink : s.link c = .connected) {subscriptions : List SubscriptionKey}
    {logs : List LogEvent} {log : LogEvent} (hlog : log ∈ logs)
    (hsub : subscribedTo subscriptions log = true) (handler : Handler) :
    Delivered c ((s.send c (catchUpSends c subscriptions logs)).setHandler c handler) log := by
  obtain ⟨key, hext, hkey⟩ := subscribedTo_iff.mp hsub
  have hmsg : (⟨c, key, true, log⟩ : LogMessage) ∈ catchUpSends c subscriptions logs :=
    mem_catchUpSends.mpr ⟨rfl, hext, hkey, rfl, hlog⟩
  exact delivered_send hlink hmsg rfl

/-- The event loop takes a message from the queue and sends it, for a client that is connected. -/
theorem grows_dispatch (hlink : s.link c = .connected) : Grows c s (s.step E .dispatch) := by
  rcases dispatch_cases with heq | ⟨msg, queue, hq, heq⟩ <;> rw [heq]
  · exact grows_of_eq rfl rfl rfl rfl
  · refine ⟨?_, ?_, ?_⟩
    · rintro log ⟨m, hm, hc, hlog⟩
      rw [hq] at hm
      have hcases : (m = msg) ∨ (m ∈ s.sent ∨ m ∈ queue) := by
        rcases hm with hm | hm
        · exact Or.inr (Or.inl hm)
        · exact (List.mem_cons.mp hm).imp_right Or.inr
      unfold send
      rcases hcases with rfl | hm
      · refine ⟨m, Or.inl ?_, hc, hlog⟩
        rw [hc, if_pos hlink]
        exact List.mem_append_right _ (List.mem_singleton_self m)
      · refine ⟨m, ?_, hc, hlog⟩
        split
        · exact hm.imp_left (List.mem_append_left _)
        · exact hm
    · unfold send
      split <;> rfl
    · unfold send
      split <;> rfl

end grows

/-! ## How far delivery has got -/

section statements

variable (W : LogEvent → Prop) (pos : LogEvent → Int) (V : Int)

def SinceDelivered (c : WsConn) (s : StreamServer) (st : ClientState) : Prop :=
  ∀ key ∈ st.subscriptions, ∀ log ∈ s.verified.drop (s.since c key),
    extractSubscriptionKey log = some key → V < pos log → Delivered c s log

def BeyondDelivered (stop : Int) (c : WsConn) (s : StreamServer) (st : ClientState) : Prop :=
  ∀ log, W log → st.subscribed log = true → V < pos log → stop < pos log → Delivered c s log

def PassedDelivered (stop : Int) (c : WsConn) (s : StreamServer) (st : ClientState) : Prop :=
  BeyondDelivered (· ∈ s.verified) pos V stop c s st

def ReplayedDelivered (upTo : Int) (c : WsConn) (s : StreamServer) (st : ClientState) : Prop :=
  ∀ log, W log → st.subscribed log = true → V < pos log → pos log ≤ upTo → Delivered c s log

end statements

section preserve

variable {W : LogEvent → Prop} {pos : LogEvent → Int} {V stop upTo : Int}
variable {E : StreamEnv} {s s' : StreamServer} {c : WsConn} {st st' : ClientState}

theorem SinceDelivered.grows (h : SinceDelivered pos V c s st) (hg : Grows c s s')
    (hkeys : st'.subscriptions ⊆ st.subscriptions) : SinceDelivered pos V c s' st' := by
  intro key hkey log hlog hext hV
  rw [hg.verified, hg.since] at hlog
  exact hg.delivered log (h key (hkeys hkey) log hlog hext hV)

theorem BeyondDelivered.grows (h : BeyondDelivered W pos V stop c s st) (hg : Grows c s s')
    (hkeys : st'.subscriptions ⊆ st.subscriptions) : BeyondDelivered W pos V stop c s' st' :=
  fun log hW hsub hV hstop =>
    hg.delivered log (h log hW (ClientState.subscribed_mono hkeys hsub) hV hstop)

theorem PassedDelivered.grows (h : PassedDelivered pos V stop c s st) (hg : Grows c s s')
    (hkeys : st'.subscriptions ⊆ st.subscriptions) : PassedDelivered pos V stop c s' st' := by
  intro log hlog hsub hV hstop
  rw [hg.verified] at hlog
  exact hg.delivered log (h log hlog (ClientState.subscribed_mono hkeys hsub) hV hstop)

theorem ReplayedDelivered.grows (h : ReplayedDelivered W pos V upTo c s st) (hg : Grows c s s')
    (hkeys : st'.subscriptions ⊆ st.subscriptions) : ReplayedDelivered W pos V upTo c s' st' :=
  fun log hW hsub hV hle =>
    hg.delivered log (h log hW (ClientState.subscribed_mono hkeys hsub) hV hle)

theorem BeyondDelivered.mono (h : BeyondDelivered W pos V stop c s st) {stop' : Int}
    (hle : stop ≤ stop') : BeyondDelivered W pos V stop' c s st :=
  fun log hW hsub hV hstop => h log hW hsub hV (lt_of_le_of_lt hle hstop)

theorem PassedDelivered.mono (h : PassedDelivered pos V stop c s st) {stop' : Int}
    (hle : stop ≤ stop') : PassedDelivered pos V stop' c s st :=
  BeyondDelivered.mono h hle

theorem ReplayedDelivered.mono (h : ReplayedDelivered W pos V upTo c s st) {upTo' : Int}
    (hle : upTo' ≤ upTo) : ReplayedDelivered W pos V upTo' c s st :=
  fun log hW hsub hV hpos => h log hW hsub hV (le_trans hpos hle)

/-- A replay that has not covered anything yet. -/
theorem replayedDelivered_of_le (h : upTo ≤ V) : ReplayedDelivered W pos V upTo c s st :=
  fun _ _ _ hV hle => absurd (lt_of_lt_of_le hV (le_trans hle h)) (lt_irrefl _)

/-- When the cursor has just been set, nothing has passed since. -/
theorem sinceDelivered_applyCursor (msg : SubscribeMessage) (currentTick : Nat) :
    SinceDelivered pos V c (s.applyCursor c msg currentTick) st := by
  have hsince : (s.applyCursor c msg currentTick).since c = fun _ => s.verified.length :=
    Function.update_self _ _ _
  intro key _ log hlog
  rw [hsince] at hlog
  change log ∈ s.verified.drop s.verified.length at hlog
  rw [List.drop_length] at hlog
  exact absurd hlog List.not_mem_nil

/-- A key that is added starts at what has passed by then; one that was there stays as it is. -/
theorem SinceDelivered.addKey (h : SinceDelivered pos V c s st) (hst : s.manager.client c = some st)
    (useLogIdCatchUp : Bool) (key : SubscriptionKey) (keys : List SubscriptionKey) :
    SinceDelivered pos V c (s.addKey c useLogIdCatchUp key keys)
      { st with subscriptions := st.subscriptions.insert key } := by
  have hgrows : ∀ log, Delivered c s log → Delivered c (s.addKey c useLogIdCatchUp key keys) log :=
    fun _ hlog => hlog
  intro key' hkey' log hlog hext hV
  change log ∈ s.verified.drop ((s.addKey c useLogIdCatchUp key keys).since c key') at hlog
  by_cases hkey : key ∈ st.subscriptions
  · rw [List.insert_of_mem hkey] at hkey'
    have hsince : (s.addKey c useLogIdCatchUp key keys).since = s.since :=
      if_pos (by rwa [LogSubscriptionManager.keysOf_eq hst])
    rw [hsince] at hlog
    exact hgrows log (h key' hkey' log hlog hext hV)
  · have hsince : (s.addKey c useLogIdCatchUp key keys).since = Function.update s.since c
        (Function.update (s.since c) key s.verified.length) :=
      if_neg (by rwa [LogSubscriptionManager.keysOf_eq hst])
    rw [hsince, Function.update_self] at hlog
    rcases List.mem_insert_iff.mp hkey' with rfl | hold
    · rw [Function.update_self, List.drop_length] at hlog
      exact absurd hlog List.not_mem_nil
    · have hne : key' ≠ key := fun heq => hkey (heq ▸ hold)
      rw [Function.update_of_ne hne] at hlog
      exact hgrows log (h key' hold log hlog hext hV)

/-- Nothing is awaited without a subscription. -/
theorem not_subscribed_of_nil (h : st.subscriptions = []) (log : LogEvent) :
    ¬ st.subscribed log = true := by
  intro hsub
  obtain ⟨key, -, hkey⟩ := ClientState.subscribed_iff.mp hsub
  rw [h] at hkey
  exact absurd hkey List.not_mem_nil

theorem beyondDelivered_of_nil (h : st.subscriptions = []) :
    BeyondDelivered W pos V stop c s st :=
  fun log _ hsub => absurd hsub (not_subscribed_of_nil h log)

theorem passedDelivered_of_nil (h : st.subscriptions = []) : PassedDelivered pos V stop c s st :=
  beyondDelivered_of_nil h

theorem replayedDelivered_of_nil (h : st.subscriptions = []) :
    ReplayedDelivered W pos V upTo c s st :=
  fun log _ hsub => absurd hsub (not_subscribed_of_nil h log)

/-- The end of the replay is read: what had passed before a key was added lies below it. -/
theorem SinceDelivered.passed (h : SinceDelivered pos V c s st)
    (hbefore : ∀ key ∈ st.subscriptions, ∀ log ∈ s.verified.take (s.since c key),
      extractSubscriptionKey log = some key → V < pos log → pos log ≤ stop) :
    PassedDelivered pos V stop c s st := by
  intro log hlog hsub hV hstop
  obtain ⟨key, hext, hkey⟩ := ClientState.subscribed_iff.mp hsub
  rw [← List.take_append_drop (s.since c key) s.verified] at hlog
  rcases List.mem_append.mp hlog with hlog | hlog
  · exact absurd (hbefore key hkey log hlog hext hV) (not_le.mpr hstop)
  · exact h key hkey log hlog hext hV

/-- At the end of the replay everything is delivered that lay beyond it or that it has covered. -/
theorem BeyondDelivered.complete {W' : LogEvent → Prop} (h : BeyondDelivered W' pos V stop c s st)
    (hreplayed : ReplayedDelivered W pos V stop c s st) (hW : ∀ log, W' log → W log) :
    BeyondDelivered W' pos V V c s st := by
  intro log hlog hsub hV _
  by_cases hstop : stop < pos log
  · exact h log hlog hsub hV hstop
  · exact hreplayed log (hW log hlog) hsub hV (not_lt.mp hstop)

theorem PassedDelivered.complete (h : PassedDelivered pos V stop c s st)
    (hreplayed : ReplayedDelivered W pos V stop c s st) (hW : ∀ log ∈ s.verified, W log) :
    PassedDelivered pos V V c s st := BeyondDelivered.complete h hreplayed hW

/-- The state after a push. -/
structure Pushed (tick : Nat) (logs : List LogEvent) (s s' : StreamServer) : Prop where
  manager : s'.manager = s.manager
  sent : s'.sent = s.sent
  queue : s'.queue = s.queue ++ s.manager.pushVerifiedLogs tick logs
  verified : s'.verified = s.verified ++ logs
  since : s'.since = s.since
  cursor : s'.cursor = s.cursor
  gCurrentVerifyLoggingTick : s'.gCurrentVerifyLoggingTick = s.gCurrentVerifyLoggingTick

variable {tick : Nat} {logs : List LogEvent}

theorem Pushed.delivered (hp : Pushed tick logs s s') {log : LogEvent} (h : Delivered c s log) :
    Delivered c s' log := by
  obtain ⟨msg, hmsg, hc, hlog⟩ := h
  refine ⟨msg, ?_, hc, hlog⟩
  rw [hp.sent, hp.queue]
  exact hmsg.imp_right (List.mem_append_left _)

theorem SinceDelivered.push (h : SinceDelivered pos V c s st) (hp : Pushed tick logs s s')
    (hnew : ∀ log ∈ logs, st.subscribed log = true → V < pos log → Delivered c s' log) :
    SinceDelivered pos V c s' st := by
  intro key hkey log hlog hext hV
  rw [hp.verified, hp.since, List.drop_append] at hlog
  rcases List.mem_append.mp hlog with hlog | hlog
  · exact hp.delivered (h key hkey log hlog hext hV)
  · exact hnew log (List.mem_of_mem_drop hlog)
      (ClientState.subscribed_iff.mpr ⟨key, hext, hkey⟩) hV

theorem PassedDelivered.push (h : PassedDelivered pos V stop c s st) (hp : Pushed tick logs s s')
    (hnew : ∀ log ∈ logs, st.subscribed log = true → V < pos log → stop < pos log →
      Delivered c s' log) : PassedDelivered pos V stop c s' st := by
  intro log hlog hsub hV hstop
  rw [hp.verified] at hlog
  rcases List.mem_append.mp hlog with hlog | hlog
  · exact hp.delivered (h log hlog hsub hV hstop)
  · exact hnew log hlog hsub hV hstop

theorem BeyondDelivered.push (h : BeyondDelivered W pos V stop c s st)
    (hp : Pushed tick logs s s') : BeyondDelivered W pos V stop c s' st :=
  fun log hW hsub hV hstop => hp.delivered (h log hW hsub hV hstop)

theorem ReplayedDelivered.push (h : ReplayedDelivered W pos V upTo c s st)
    (hp : Pushed tick logs s s') : ReplayedDelivered W pos V upTo c s' st :=
  fun log hW hsub hV hle => hp.delivered (h log hW hsub hV hle)

/-- A subscriber that the push does not pass over gets the log. -/
theorem Pushed.delivered_new (hp : Pushed tick logs s s') (hr : Registered s)
    (hst : s.manager.client c = some st) {log : LogEvent} (hlog : log ∈ logs)
    (hsub : st.subscribed log = true) (hskip : st.skips tick log = false) :
    Delivered c s' log := by
  obtain ⟨key, hext, hkey⟩ := ClientState.subscribed_iff.mp hsub
  refine ⟨⟨c, key, false, log⟩, Or.inr ?_, rfl, rfl⟩
  rw [hp.queue]
  refine List.mem_append_right _ ((LogSubscriptionManager.mem_pushVerifiedLogs hr.mirror).mpr ?_)
  exact ⟨st, hst, hext, hkey, hskip, rfl, hlog⟩

end preserve

/-! ## Phases

A statement about a connected client goes with the phase its handler is in. The steps that are not of
the handler keep the phase, and for these one argument does for all such statements. -/

/-- What holds of a connected client in the phase its handler is in. -/
def InPhase (P : StreamServer → ClientState → Handler → Prop) (c : WsConn) (s : StreamServer) :
    Prop :=
  s.link c = .connected → ∀ st, s.manager.client c = some st → P s st (s.handler c)

/-- What is asked of a statement `P` for every step to keep it, in the states `Good` and for the
steps `ok`. -/
structure PhaseRule (E : StreamEnv) (c : WsConn) (Good : StreamServer → Prop)
    (ok : StreamServer → StreamStep → Prop) (P : StreamServer → ClientState → Handler → Prop) :
    Prop where
  frame : ∀ {s a st h}, Good s → ok s a → Grows c s (s.step E a) →
    (s.step E a).cursor c = s.cursor c → P s st h → P (s.step E a) st h
  fresh : ∀ {s}, s.cursor c = .unset → P s {} .idle
  message : ∀ {s st} msg tick, P s st .idle → P s st (.settingCursor msg tick)
  fewer : ∀ {s st keys}, keys ⊆ st.subscriptions → P s st .idle →
    P s { st with subscriptions := keys } .idle
  push : ∀ {s s' tick logs groups processToTick st}, Good s → ok s .push →
    s.verifier = .pushing processToTick ((tick, logs) :: groups) → Pushed tick logs s s' →
    s.link c = .connected → s.manager.client c = some st → P s st (s.handler c) →
    P s' st (s.handler c)
  work : ∀ {s st}, Good s → ok s (.work c) → s.link c = .connected → s.manager.client c = some st →
    P s st (s.handler c) →
    ∀ st', (s.work E c).manager.client c = some st' → P (s.work E c) st' ((s.work E c).handler c)

section phases

variable {E : StreamEnv} {c : WsConn} {Good : StreamServer → Prop}
variable {ok : StreamServer → StreamStep → Prop}
variable {P : StreamServer → ClientState → Handler → Prop} {s : StreamServer}

/-- A step that leaves the client and its handler as they are. -/
theorem PhaseRule.keeps (R : PhaseRule E c Good ok P) {a : StreamStep} (hgood : Good s)
    (hok : ok s a) (hgrows : s.link c = .connected → Grows c s (s.step E a))
    (hcursor : (s.step E a).cursor c = s.cursor c) (hlink : (s.step E a).link c = s.link c)
    (hclient : (s.step E a).manager.client c = s.manager.client c)
    (hhandler : (s.step E a).handler c = s.handler c) (h : InPhase P c s) :
    InPhase P c (s.step E a) := by
  intro hconn st hst
  rw [hlink] at hconn
  rw [hclient] at hst
  rw [hhandler]
  exact R.frame hgood hok (hgrows hconn) hcursor (h hconn st hst)

theorem LogSubscriptionManager.getClientCount_pos {m : LogSubscriptionManager} {st : ClientState}
    (h : m.client c = some st) : 0 < m.getClientCount := by
  unfold LogSubscriptionManager.getClientCount
  rw [List.length_pos_iff_exists_mem]
  exact ⟨⟨c, st⟩, AList.mem_lookup_iff.mp h⟩

theorem PhaseRule.accept (R : PhaseRule E c Good ok P) (hgood : Good s) (hok : ok s .accept)
    (h : InPhase P c s) : InPhase P c (s.step E .accept) := by
  rcases @accept_cases E s with heq | ⟨processToTick, vle, -, heq⟩
  · rwa [heq]
  · intro hconn st hst
    unfold acceptBatch at heq
    by_cases hcount : 0 < s.manager.getClientCount
    · rw [if_pos hcount] at heq
      have hkeeps := R.keeps hgood hok (fun _ => by rw [heq]; exact grows_of_eq rfl rfl rfl rfl)
        (by rw [heq]) (by rw [heq]) (by rw [heq]) (by rw [heq]) h
      exact hkeeps hconn st hst
    · -- somebody is registered
      rw [if_neg hcount] at heq
      rw [heq] at hst
      exact absurd (LogSubscriptionManager.getClientCount_pos hst) hcount

theorem PhaseRule.dispatch (R : PhaseRule E c Good ok P) (hgood : Good s) (hok : ok s .dispatch)
    (h : InPhase P c s) : InPhase P c (s.step E .dispatch) := by
  have hsend : ∀ (s : StreamServer) conn msgs, (s.send conn msgs).cursor = s.cursor ∧
      (s.send conn msgs).handler = s.handler := by
    intro s conn msgs
    unfold send
    split <;> exact ⟨rfl, rfl⟩
  refine R.keeps hgood hok grows_dispatch ?_ ?_ ?_ ?_ h
  all_goals rcases @dispatch_cases E s with heq | ⟨msg, queue, -, heq⟩ <;> rw [heq]
  · rw [(hsend _ _ _).1]
  · rw [send_link]
  · rw [send_manager]
  · rw [(hsend _ _ _).2]

theorem PhaseRule.connect (R : PhaseRule E c Good ok P) (hr : Registered s) (h : InPhase P c s) :
    InPhase P c (s.step E (.connect c)) := by
  rcases @connect_cases E s c with heq | ⟨hfresh, heq⟩ <;> rw [heq]
  · exact h
  · obtain ⟨hidle, hunset⟩ := hr.unasked c hfresh
    intro _ st hst
    change (s.manager.addClient c).client c = some st at hst
    rw [LogSubscriptionManager.client_addClient, if_pos rfl] at hst
    obtain rfl := Option.some.inj hst
    change P _ _ (s.handler c)
    rw [hidle]
    exact R.fresh hunset

/-- A step that sets the client's state and its phase. -/
theorem phase_modify {s' : StreamServer} {st : ClientState} {f : ClientState → ClientState}
    {h : Handler} (hst : s.manager.client c = some st)
    (hclient : s'.manager.client c = (s.manager.client c).map f) (hhandler : s'.handler c = h)
    (hP : P s' (f st) h) : ∀ st', s'.manager.client c = some st' → P s' st' (s'.handler c) := by
  intro st' hst'
  rw [hclient, hst] at hst'
  obtain rfl := Option.some.inj hst'
  rw [hhandler]
  exact hP

theorem inPhase_of_closed (h : s.link c = .closed) : InPhase P c s :=
  fun hconn => absurd (h.symm.trans hconn) (by decide)

/-- A step of an idle client that changes its keys. -/
theorem PhaseRule.keys (R : PhaseRule E c Good ok P) {a : StreamStep} (hgood : Good s)
    (hok : ok s a) (hidle : s.handler c = .idle) {m : LogSubscriptionManager}
    {f : List SubscriptionKey → List SubscriptionKey} (hf : ∀ keys, f keys ⊆ keys)
    (heq : s.step E a = { s with manager := m })
    (hclient : m.client c =
      (s.manager.client c).map (fun st => { st with subscriptions := f st.subscriptions }))
    (h : InPhase P c s) : InPhase P c (s.step E a) := by
  intro hconn st' hst'
  rw [heq] at hst' hconn
  rw [hclient] at hst'
  obtain ⟨st, hst, rfl⟩ := Option.map_eq_some_iff.mp hst'
  have hP := h hconn st hst
  rw [hidle] at hP
  have hframe := R.frame hgood hok (by rw [heq]; exact grows_of_eq rfl rfl rfl rfl)
    (by rw [heq]) hP
  have hhandler : (s.step E a).handler c = .idle := by
    rw [heq]
    exact hidle
  rw [hhandler]
  exact R.fewer (hf st.subscriptions) hframe

theorem inPhase_step (R : PhaseRule E c Good ok P) (a : StreamStep) (hr : Registered s)
    (hgood : Good s) (hok : ok s a) (h : InPhase P c s) : InPhase P c (s.step E a) := by
  by_cases hcon : a.Concerns c
  · cases a with
    | accept => exact R.accept hgood hok h
    | push =>
        rcases @push_cases E s with heq | ⟨processToTick, tick, logs, groups, hphase, heq⟩ <;>
          rw [heq]
        · exact h
        · intro hconn st hst
          have hP := h hconn st hst
          exact @PhaseRule.push E c Good ok P R s _ tick logs groups processToTick st hgood hok
            hphase ⟨rfl, rfl, rfl, rfl, rfl, rfl, rfl⟩ hconn hst hP
    | dispatch => exact R.dispatch hgood hok h
    | connect conn =>
        obtain rfl : conn = c := hcon
        exact R.connect hr h
    | close conn =>
        obtain rfl : conn = c := hcon
        rcases @close_cases E s conn with heq | ⟨-, heq⟩ <;> rw [heq]
        · exact h
        · exact inPhase_of_closed (Function.update_self _ _ _)
    | disconnect conn =>
        obtain rfl : conn = c := hcon
        rcases @disconnect_cases E s conn with heq | ⟨hclosed, -, heq⟩ <;> rw [heq]
        · exact h
        · exact inPhase_of_closed hclosed
    | message conn msg =>
        obtain rfl : conn = c := hcon
        rcases @message_cases E s conn msg with heq | ⟨hconn, hidle, heq⟩
        · rwa [heq]
        · intro _ st hst
          rw [heq] at hst
          have hP := h hconn st hst
          rw [hidle] at hP
          have hframe := R.frame hgood hok (by rw [heq]; exact grows_setHandler _)
            (by rw [heq]; rfl) hP
          have hhandler : (s.step E (.message conn msg)).handler conn =
              .settingCursor msg s.gCurrentVerifyLoggingTick := by
            rw [heq, setHandler_self]
          rw [hhandler]
          exact R.message msg _ hframe
    | unsubscribe conn key =>
        obtain rfl : conn = c := hcon
        rcases @unsubscribe_cases E s conn key with heq | ⟨-, hidle, heq⟩
        · rwa [heq]
        · exact R.keys hgood hok hidle (fun keys => List.filter_subset_self keys) heq
            ((LogSubscriptionManager.client_unsubscribe key).trans (if_pos rfl)) h
    | unsubscribeAll conn =>
        obtain rfl : conn = c := hcon
        rcases @unsubscribeAll_cases E s conn with heq | ⟨-, hidle, heq⟩
        · rwa [heq]
        · exact R.keys hgood hok hidle (fun keys => List.nil_subset keys) heq
            (LogSubscriptionManager.client_unsubscribeAll.trans (if_pos rfl)) h
    | work conn =>
        obtain rfl : conn = c := hcon
        intro hconn st' hst'
        change (s.work E conn).link conn = .connected at hconn
        rw [work_link] at hconn
        obtain ⟨st, hst⟩ := hr.connected conn hconn
        exact R.work hgood hok hconn hst (h hconn st hst) st' hst'
    | chunk events => exact absurd hcon id
    | updateLatest i => exact absurd hcon id
    | logRange tick range => exact absurd hcon id
    | fetchBatch processToTick => exact absurd hcon id
    | advance => exact absurd hcon id
  · have hsame := @sameFor_step E s c a hcon
    exact R.keeps hgood hok (fun _ => hsame.grows) hsame.cursor hsame.link hsame.client
      hsame.handler h

end phases

/-! ## The flag -/

/-- The phases in which the flag `catchUpInProgress` is set. -/
def replays : Handler → Bool
  | .replaying _ _ _ | .completing _ | .replayingByLogId _ _ _ | .completingByLogId _ => true
  | _ => false

/-- The phases from the setting of a cursor to the end of its replay. -/
def catchesUp : Handler → Bool
  | .idle | .settingCursor _ _ => false
  | _ => true

/-- The flag is set exactly while a replay is under way. -/
def FlagKept : StreamServer → ClientState → Handler → Prop :=
  fun _ st h => st.catchUpInProgress = replays h

theorem CursorField.set_catchUpInProgress (field : CursorField) (currentTick : Nat)
    (st : ClientState) :
    (field.set currentTick st).catchUpInProgress = st.catchUpInProgress := by
  cases field <;> rfl

theorem replays_trigger (s : StreamServer) (useLogIdCatchUp : Bool) :
    replays (s.trigger useLogIdCatchUp) = false := by
  unfold trigger
  split <;> split <;> rfl

section flag

variable {E : StreamEnv} {c : WsConn} {s : StreamServer} {st : ClientState}

/-- The flag does not depend on the rest of the state. -/
theorem flagKept_modify {s' : StreamServer} {f : ClientState → ClientState} {h : Handler}
    (hst : s.manager.client c = some st) (hclient : s'.manager.client c = (s.manager.client c).map f)
    (hhandler : s'.handler c = h) (hf : (f st).catchUpInProgress = replays h) :
    ∀ st', s'.manager.client c = some st' → FlagKept s' st' (s'.handler c) :=
  phase_modify hst hclient hhandler hf

theorem client_send {conn : WsConn} (msgs : List LogMessage) :
    (s.send conn msgs).manager.client c = s.manager.client c := by
  rw [send_manager]

theorem flagKept_work (hconn : s.link c = .connected) (hst : s.manager.client c = some st)
    (h : FlagKept s st (s.handler c)) : ∀ st', (s.work E c).manager.client c = some st' →
      FlagKept (s.work E c) st' ((s.work E c).handler c) := by
  have hsame : s.manager.client c = (s.manager.client c).map id := by rw [Option.map_id_fun, id_eq]
  cases hphase : s.handler c with
  | idle =>
      rw [work, hphase]
      rw [hphase] at h
      exact flagKept_modify hst hsame hphase h
  | settingCursor msg currentTick =>
      rw [work, hphase]
      rw [hphase] at h
      refine flagKept_modify hst (client_applyCursor _ _) (setHandler_self _) ?_
      rw [CursorField.set_catchUpInProgress]
      exact h
  | settingAmount useLogIdCatchUp msg =>
      rw [work, hphase]
      rw [hphase] at h
      refine flagKept_modify hst (client_applyAmount _ _) (setHandler_self _) ?_
      cases msg.keys with
      | none => exact h
      | some keys => exact h
  | subscribing useLogIdCatchUp keys =>
      rw [hphase] at h
      cases keys with
      | nil =>
          rw [work, hphase]
          refine flagKept_modify hst hsame (setHandler_self _) ?_
          rw [replays_trigger]
          exact h
      | cons key keys =>
          rw [work, hphase]
          exact flagKept_modify hst (client_addKey _ _ _) (setHandler_self _) h
  | entering toTick =>
      rw [work, hphase]
      rw [hphase] at h
      dsimp only
      unfold enter
      rw [hst]
      dsimp only
      by_cases hkeys : st.subscriptions = []
      · rw [if_pos hkeys]
        exact flagKept_modify hst hsame (setHandler_self _) h
      · rw [if_neg hkeys]
        refine flagKept_modify hst (client_modifyClient_self _ _) (setHandler_self _) ?_
        split <;> rfl
  | replaying subscriptions tick toTick =>
      rw [work, hphase]
      rw [hphase] at h
      dsimp only
      unfold replay
      dsimp only
      have hflag : ∀ next, st.catchUpInProgress = replays
          (if toTick < next then .completing toTick else .replaying subscriptions next toTick) := by
        intro next
        split <;> exact h
      split
      · exact flagKept_modify hst hsame (setHandler_self _) (hflag _)
      · exact flagKept_modify hst ((client_send _).trans hsame) (setHandler_self _) (hflag _)
  | completing toTick =>
      rw [work, hphase]
      exact flagKept_modify hst (client_modifyClient_self _ _) (setHandler_self _) rfl
  | enteringByLogId toLogId =>
      rw [work, hphase]
      rw [hphase] at h
      dsimp only
      unfold enterByLogId
      rw [hst]
      dsimp only
      by_cases hkeys : st.subscriptions = [] ∨ st.lastLogId < 0
      · rw [if_pos hkeys]
        exact flagKept_modify hst hsame (setHandler_self _) h
      · rw [if_neg hkeys]
        refine flagKept_modify hst (client_modifyClient_self _ _) (setHandler_self _) ?_
        split <;> rfl
  | replayingByLogId subscriptions id toLogId =>
      rw [work, hphase]
      rw [hphase] at h
      dsimp only
      unfold replayByLogId
      refine flagKept_modify hst ((client_send _).trans hsame) (setHandler_self _) ?_
      rw [if_pos hconn]
      split <;> exact h
  | completingByLogId toLogId =>
      rw [work, hphase]
      exact flagKept_modify hst (client_modifyClient_self _ _) (setHandler_self _) rfl

theorem flagKept_rule (E : StreamEnv) (c : WsConn) :
    PhaseRule E c (fun _ => True) (fun _ _ => True) FlagKept where
  frame _ _ _ _ h := h
  fresh _ := rfl
  message _ _ h := h
  fewer _ h := h
  push _ _ _ _ _ _ h := h
  work _ _ hconn hst h := flagKept_work hconn hst h

end flag

end StreamServer

end QubicBob
