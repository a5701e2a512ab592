import QubicBob.Stream.Server

set_option autoImplicit false

/-! # The client's cursor

A client that subscribes with `lastTick = T` (or `lastLogId = L`) has processed everything up to
there and is sent nothing up to there again. The cursor is kept in `lastTick` (or `lastLogId`),
which the completion of a replay overwrites with the end of the replay, also when the client was
ahead of it; and what was queued before the cursor was set is sent after.

What is sent comes from the queue, so `CursorInv` says of the queue what is claimed of the messages,
and of the client's state that its cursor field is not below the cursor it asked for
(`Cursor.Kept`): the live push looks at that field, and a replay starts from it. The only step that
lowers the field is the end of a replay. `WithinReach` asks for what the code does not test, that a
replay ends at or above the cursor it started from, and that nothing up to a new cursor is still in
the queue.
-/

namespace QubicBob

/-- The log is above the cursor. -/
def Cursor.Above : Cursor → LogEvent → Prop
  | .unset, _ => True
  | .tick T, log => T < log.getTick.toNat
  | .logId L, log => L < log.getLogId

instance : ∀ (cursor : Cursor) (log : LogEvent), Decidable (cursor.Above log)
  | .unset, _ => isTrue trivial
  | .tick T, log => inferInstanceAs (Decidable (T < log.getTick.toNat))
  | .logId L, log => inferInstanceAs (Decidable (L < log.getLogId))

/-- A replay by ticks up to `toTick` does not move the cursor back, and does not run over the end of
its 32-bit counter. -/
def Cursor.ReachedBy (toTick : Nat) : Cursor → Prop
  | .tick T => T ≤ toTick ∧ toTick + BATCH_SIZE < 2 ^ 32
  | _ => True

instance (toTick : Nat) : ∀ cursor : Cursor, Decidable (cursor.ReachedBy toTick)
  | .tick T => inferInstanceAs (Decidable (T ≤ toTick ∧ toTick + BATCH_SIZE < 2 ^ 32))
  | .unset | .logId _ => isTrue trivial

/-- The same for a replay by log ids, which a negative cursor does not start. -/
def Cursor.ReachedByLogId (toLogId : Int) : Cursor → Prop
  | .logId L => 0 ≤ L → L ≤ toLogId
  | _ => True

instance (toLogId : Int) : ∀ cursor : Cursor, Decidable (cursor.ReachedByLogId toLogId)
  | .logId L => inferInstanceAs (Decidable (0 ≤ L → L ≤ toLogId))
  | .unset | .tick _ => isTrue trivial

/-- What the client's state and its handler keep of the cursor. -/
def Cursor.Kept : Cursor → ClientState → Handler → Prop
  | .unset, _, _ => True
  | .tick T, st, h => T ≤ st.lastTick ∧
      match h with
      | .idle | .settingCursor _ _ => True
      | .settingAmount useLogIdCatchUp _ => useLogIdCatchUp = false ∧ st.lastTick = T
      | .subscribing useLogIdCatchUp _ => useLogIdCatchUp = false ∧ st.lastTick = T
      | .entering _ => st.lastTick = T
      | .replaying _ next toTick => T < next ∧ next ≤ toTick ∧ toTick + BATCH_SIZE < 2 ^ 32
      | .completing toTick => T ≤ toTick
      | .enteringByLogId _ | .replayingByLogId _ _ _ | .completingByLogId _ => False
  | .logId L, st, h => L ≤ st.lastLogId ∧
      match h with
      | .idle | .settingCursor _ _ => True
      | .settingAmount useLogIdCatchUp _ => useLogIdCatchUp = true ∧ st.lastLogId = L
      | .subscribing useLogIdCatchUp _ => useLogIdCatchUp = true ∧ st.lastLogId = L
      | .enteringByLogId _ => st.lastLogId = L
      | .replayingByLogId _ id toLogId => 0 ≤ L ∧ L < id ∧ id ≤ toLogId
      | .completingByLogId toLogId => L ≤ toLogId
      | .entering _ | .replaying _ _ _ | .completing _ => False

/-- Of the client's state only the two cursor fields matter. -/
theorem Cursor.Kept.congr {cursor : Cursor} {st st' : ClientState} {h : Handler}
    (hkept : cursor.Kept st h) (htick : st'.lastTick = st.lastTick)
    (hid : st'.lastLogId = st.lastLogId) : cursor.Kept st' h := by
  cases cursor with
  | unset => trivial
  | tick T =>
      unfold Cursor.Kept at hkept ⊢
      dsimp only at hkept ⊢
      rw [htick]
      exact hkept
  | logId L =>
      unfold Cursor.Kept at hkept ⊢
      dsimp only at hkept ⊢
      rw [hid]
      exact hkept

theorem Cursor.Kept.idle {cursor : Cursor} {st : ClientState} {h : Handler}
    (hkept : cursor.Kept st h) : cursor.Kept st .idle := by
  cases cursor with
  | unset => trivial
  | tick T => exact ⟨hkept.1, trivial⟩
  | logId L => exact ⟨hkept.1, trivial⟩

theorem Cursor.Kept.settingCursor {cursor : Cursor} {st : ClientState} {h : Handler}
    (hkept : cursor.Kept st h) (msg : SubscribeMessage) (currentTick : Nat) :
    cursor.Kept st (.settingCursor msg currentTick) := by
  cases cursor with
  | unset => trivial
  | tick T => exact ⟨hkept.1, trivial⟩
  | logId L => exact ⟨hkept.1, trivial⟩

/-- The cursor is set in the client's state. -/
theorem CursorField.kept_set (field : CursorField) (currentTick : Nat) (st : ClientState)
    (msg : SubscribeMessage) :
    field.asked.Kept (field.set currentTick st) (.settingAmount field.useLogIdCatchUp msg) := by
  cases field with
  | lastLogId value => exact ⟨le_rfl, rfl, rfl⟩
  | lastTick value => exact ⟨le_rfl, rfl, rfl⟩
  | _ => trivial

/-- On to the keys, and from one key to the next. -/
theorem Cursor.Kept.subscribing {cursor : Cursor} {st : ClientState} {useLogIdCatchUp : Bool}
    {msg : SubscribeMessage} (hkept : cursor.Kept st (.settingAmount useLogIdCatchUp msg))
    (keys : List SubscriptionKey) : cursor.Kept st (.subscribing useLogIdCatchUp keys) := by
  cases cursor with
  | unset => trivial
  | tick T => exact hkept
  | logId L => exact hkept

theorem Cursor.Kept.nextKey {cursor : Cursor} {st : ClientState} {useLogIdCatchUp : Bool}
    {keys : List SubscriptionKey} (hkept : cursor.Kept st (.subscribing useLogIdCatchUp keys))
    (keys' : List SubscriptionKey) : cursor.Kept st (.subscribing useLogIdCatchUp keys') := by
  cases cursor with
  | unset => trivial
  | tick T => exact hkept
  | logId L => exact hkept

/-- The replay that is triggered is of the cursor's own kind. -/
theorem Cursor.Kept.trigger {cursor : Cursor} {st : ClientState} {useLogIdCatchUp : Bool}
    {keys : List SubscriptionKey} (hkept : cursor.Kept st (.subscribing useLogIdCatchUp keys))
    (s : StreamServer) : cursor.Kept st (s.trigger useLogIdCatchUp) := by
  unfold StreamServer.trigger
  cases cursor with
  | unset => trivial
  | tick T =>
      obtain ⟨hle, rfl, heq⟩ := hkept
      rw [if_neg (by decide)]
      split
      · exact ⟨hle, heq⟩
      · exact ⟨hle, trivial⟩
  | logId L =>
      obtain ⟨hle, rfl, heq⟩ := hkept
      rw [if_pos rfl]
      split
      · exact ⟨hle, heq⟩
      · exact ⟨hle, trivial⟩

/-- A replay by ticks starts after the cursor. -/
theorem Cursor.Kept.enter {cursor : Cursor} {st : ClientState} {toTick : Nat}
    (hkept : cursor.Kept st (.entering toTick)) (hreach : cursor.ReachedBy toTick)
    (initialTick : Nat) (subscriptions : List SubscriptionKey) :
    cursor.Kept { st with catchUpInProgress := true }
      (if toTick < max ((st.lastTick + 1) % 2 ^ 32) initialTick then .completing toTick
      else .replaying subscriptions (max ((st.lastTick + 1) % 2 ^ 32) initialTick) toTick) := by
  cases cursor with
  | unset => trivial
  | tick T =>
      obtain ⟨hle, heq⟩ := hkept
      obtain ⟨hto, hsmall⟩ := hreach
      rw [BATCH_SIZE] at hsmall
      have hmod : (st.lastTick + 1) % 2 ^ 32 = T + 1 := by
        rw [heq, Nat.mod_eq_of_lt (by omega)]
      rw [hmod]
      split
      · exact ⟨hle, hto⟩
      · exact ⟨hle, by omega, by omega, hsmall⟩
  | logId L => exact absurd hkept.2 id

/-- One batch further. -/
theorem Cursor.Kept.replay {cursor : Cursor} {st : ClientState} {next toTick : Nat}
    {subscriptions : List SubscriptionKey}
    (hkept : cursor.Kept st (.replaying subscriptions next toTick)) :
    cursor.Kept st (if toTick < (next + BATCH_SIZE) % 2 ^ 32 then .completing toTick
      else .replaying subscriptions ((next + BATCH_SIZE) % 2 ^ 32) toTick) := by
  cases cursor with
  | unset => trivial
  | tick T =>
      obtain ⟨hle, hlt, hto, hsmall⟩ := hkept
      rw [Nat.mod_eq_of_lt (by omega)]
      split
      · exact ⟨hle, by omega⟩
      · exact ⟨hle, by omega, by omega, hsmall⟩
  | logId L => exact absurd hkept.2 id

theorem Cursor.Kept.complete {cursor : Cursor} {st : ClientState} {toTick : Nat}
    (hkept : cursor.Kept st (.completing toTick)) :
    cursor.Kept { st with catchUpInProgress := false, lastTick := toTick } .idle := by
  cases cursor with
  | unset => trivial
  | tick T => exact ⟨hkept.2, trivial⟩
  | logId L => exact absurd hkept.2 id

/-- A replay by log ids starts after the cursor. -/
theorem Cursor.Kept.enterByLogId {cursor : Cursor} {st : ClientState} {toLogId : Int}
    (hkept : cursor.Kept st (.enteringByLogId toLogId)) (hreach : cursor.ReachedByLogId toLogId)
    (hset : ¬ st.lastLogId < 0) (subscriptions : List SubscriptionKey) :
    cursor.Kept { st with catchUpInProgress := true }
      (if toLogId < st.lastLogId + 1 then .completingByLogId toLogId
      else .replayingByLogId subscriptions (st.lastLogId + 1) toLogId) := by
  cases cursor with
  | unset => trivial
  | tick T => exact absurd hkept.2 id
  | logId L =>
      obtain ⟨hle, heq⟩ := hkept
      have hto : L ≤ toLogId := hreach (by omega)
      split
      · exact ⟨hle, hto⟩
      · exact ⟨hle, by omega, by omega, by omega⟩

theorem Cursor.Kept.replayByLogId {cursor : Cursor} {st : ClientState} {next toLogId : Int}
    {subscriptions : List SubscriptionKey}
    (hkept : cursor.Kept st (.replayingByLogId subscriptions next toLogId)) :
    cursor.Kept st (if toLogId < next + BATCH_SIZE_BY_LOG_ID then .completingByLogId toLogId
      else .replayingByLogId subscriptions (next + BATCH_SIZE_BY_LOG_ID) toLogId) := by
  cases cursor with
  | unset => trivial
  | tick T => exact absurd hkept.2 id
  | logId L =>
      obtain ⟨hle, hpos, hlt, hto⟩ := hkept
      rw [BATCH_SIZE_BY_LOG_ID]
      split
      · exact ⟨hle, by omega⟩
      · exact ⟨hle, hpos, by omega, by omega⟩

theorem Cursor.Kept.completeByLogId {cursor : Cursor} {st : ClientState} {toLogId : Int}
    (hkept : cursor.Kept st (.completingByLogId toLogId)) :
    cursor.Kept { st with catchUpInProgress := false, lastLogId := toLogId } .idle := by
  cases cursor with
  | unset => trivial
  | tick T => exact absurd hkept.2 id
  | logId L => exact ⟨hkept.2, trivial⟩

/-- A log that the live push selects is above the cursor the client's state keeps. -/
theorem Cursor.Kept.above {cursor : Cursor} {st : ClientState} {h : Handler}
    (hkept : cursor.Kept st h) {log : LogEvent} (hskip : st.skips log.getTick.toNat log = false) :
    cursor.Above log := by
  obtain ⟨-, htick, hid, -⟩ := ClientState.skips_eq_false_iff.mp hskip
  cases cursor with
  | unset => trivial
  | tick T => exact lt_of_le_of_lt hkept.1 htick
  | logId L =>
      have hle := hkept.1
      change L < (log.getLogId : Int)
      by_cases hset : 0 ≤ st.lastLogId
      · exact lt_of_le_of_lt hle (hid hset)
      · omega

namespace StreamServer

/-- Everything sent to the client since it set its cursor is above the cursor. -/
def CursorRespected (c : WsConn) (s : StreamServer) : Prop :=
  ∀ log ∈ s.sinceCursor c, (s.cursor c).Above log

/-- What the next step of the client's handler has to meet. -/
def HandlerWithinReach (c : WsConn) (s : StreamServer) : Handler → Prop
  | .settingCursor msg _ => ∀ m ∈ s.queue, m.conn = c → msg.cursor.asked.Above m.log
  | .entering toTick => s.manager.keysOf c ≠ [] → (s.cursor c).ReachedBy toTick
  | .enteringByLogId toLogId => s.manager.keysOf c ≠ [] → (s.cursor c).ReachedByLogId toLogId
  | _ => True

/-- The condition on a step: when the client's cursor is set, no log up to it is waiting in the queue
for the client; and when its replay starts, the end of the replay is not below the cursor. -/
def WithinReach (c : WsConn) (s : StreamServer) : StreamStep → Prop
  | .work conn => conn = c → s.HandlerWithinReach c (s.handler c)
  | _ => True

instance (c : WsConn) (s : StreamServer) : ∀ h : Handler, Decidable (s.HandlerWithinReach c h)
  | .settingCursor msg _ =>
      inferInstanceAs (Decidable (∀ m ∈ s.queue, m.conn = c → msg.cursor.asked.Above m.log))
  | .entering toTick =>
      inferInstanceAs (Decidable (s.manager.keysOf c ≠ [] → (s.cursor c).ReachedBy toTick))
  | .enteringByLogId toLogId =>
      inferInstanceAs (Decidable (s.manager.keysOf c ≠ [] → (s.cursor c).ReachedByLogId toLogId))
  | .idle | .settingAmount _ _ | .subscribing _ _ | .replaying _ _ _ | .completing _
  | .replayingByLogId _ _ _ | .completingByLogId _ => isTrue trivial

instance (c : WsConn) (s : StreamServer) : ∀ st : StreamStep, Decidable (WithinReach c s st)
  | .work conn => inferInstanceAs (Decidable (conn = c → s.HandlerWithinReach c (s.handler c)))
  | .chunk _ | .updateLatest _ | .logRange _ _ | .fetchBatch _ | .accept | .push | .advance
  | .dispatch | .connect _ | .close _ | .disconnect _ | .message _ _ | .unsubscribe _ _
  | .unsubscribeAll _ => isTrue trivial

structure CursorInv (c : WsConn) (s : StreamServer) : Prop where
  sent : CursorRespected c s
  queue : ∀ m ∈ s.queue, m.conn = c → (s.cursor c).Above m.log
  client : ∀ st, s.manager.client c = some st → (s.cursor c).Kept st (s.handler c)

section steps

variable {E : StreamEnv} {s s' : StreamServer} {c : WsConn}

theorem cursorInv_start (c : WsConn) (db : LogDB) (latestLogId : Int) (tick : Nat) :
    CursorInv c (start db latestLogId tick) where
  sent _ h := absurd h List.not_mem_nil
  queue _ h := absurd h List.not_mem_nil
  client _ h := nomatch h

theorem SameFor.cursorInv (hs : SameFor c s s') (h : CursorInv c s) : CursorInv c s' where
  sent := by
    unfold CursorRespected
    rw [hs.sinceCursor, hs.cursor]
    exact h.sent
  queue := by
    rw [hs.queue, hs.cursor]
    exact h.queue
  client st hst := by
    rw [hs.client] at hst
    rw [hs.cursor, hs.handler]
    exact h.client st hst

/-- Messages to the client above its cursor. -/
theorem CursorInv.send (h : CursorInv c s) {msgs : List LogMessage}
    (hmsgs : s.link c = .connected → ∀ m ∈ msgs, (s.cursor c).Above m.log) :
    CursorInv c (s.send c msgs) := by
  unfold StreamServer.send
  split
  · next hlink =>
      refine { h with sent := fun log hlog => ?_ }
      simp only [Function.update_self] at hlog
      rcases List.mem_append.mp hlog with hlog | hlog
      · exact h.sent log hlog
      · obtain ⟨m, hm, rfl⟩ := List.mem_map.mp hlog
        exact hmsgs hlink m hm
  · exact h

/-- Nothing is sent; the client's state and the phase of its handler may change. -/
theorem CursorInv.change (h : CursorInv c s) (hsent : s'.sinceCursor c = s.sinceCursor c)
    (hcursor : s'.cursor c = s.cursor c) (hqueue : s'.queue = s.queue)
    (hkept : ∀ st, s'.manager.client c = some st → (s.cursor c).Kept st (s'.handler c)) :
    CursorInv c s' where
  sent := by
    unfold CursorRespected
    rw [hsent, hcursor]
    exact h.sent
  queue := by
    rw [hqueue, hcursor]
    exact h.queue
  client st hst := by
    rw [hcursor]
    exact hkept st hst

theorem CursorInv.push (h : CursorInv c s) (hr : Registered s) (ht : s.verifier.Ticked) :
    CursorInv c (s.step E .push) := by
  rcases push_cases with heq | ⟨processToTick, tick, logs, groups, hphase, heq⟩ <;> rw [heq]
  · exact h
  · rw [hphase] at ht
    refine { h with queue := fun m hm hc => ?_ }
    rcases List.mem_append.mp hm with hm | hm
    · exact h.queue m hm hc
    · obtain ⟨st, hst, -, -, hskip, -, hlog⟩ :=
        (LogSubscriptionManager.mem_pushVerifiedLogs hr.mirror).mp hm
      rw [hc] at hst
      have htick : m.log.getTick.toNat = tick := ht _ List.mem_cons_self m.log hlog
      rw [← htick] at hskip
      exact (h.client st hst).above hskip

theorem CursorInv.dispatch (h : CursorInv c s) : CursorInv c (s.step E .dispatch) := by
  rcases dispatch_cases with heq | ⟨msg, queue, hq, heq⟩ <;> rw [heq]
  · exact h
  · have hqueue := h.queue
    rw [hq] at hqueue
    have hrest : CursorInv c { s with queue := queue } :=
      { h with queue := fun m hm => hqueue m (List.mem_cons_of_mem _ hm) }
    by_cases hc : msg.conn = c
    · rw [hc]
      refine hrest.send (fun _ m hm => ?_)
      rw [List.mem_singleton.mp hm]
      exact hqueue msg List.mem_cons_self hc
    · refine (sameFor_send (fun heq => hc heq.symm) (fun m hm => ?_)).cursorInv hrest
      rw [List.mem_singleton.mp hm]

theorem cursorInv_applyCursor {msg : SubscribeMessage} {currentTick : Nat}
    (hqueue : ∀ m ∈ s.queue, m.conn = c → msg.cursor.asked.Above m.log) :
    CursorInv c (s.applyCursor c msg currentTick) := by
  have hcursor : (s.applyCursor c msg currentTick).cursor c = msg.cursor.asked :=
    Function.update_self _ _ _
  have hnil : (s.applyCursor c msg currentTick).sinceCursor c = [] := Function.update_self _ _ _
  refine ⟨?_, ?_, fun st hst => ?_⟩
  · unfold CursorRespected
    rw [hnil]
    exact fun _ hlog => absurd hlog List.not_mem_nil
  · rw [hcursor]
    exact hqueue
  · rw [client_applyCursor] at hst
    obtain ⟨st₀, -, rfl⟩ := Option.map_eq_some_iff.mp hst
    rw [hcursor, StreamServer.applyCursor, setHandler_self]
    exact msg.cursor.kept_set currentTick st₀ msg

/-- A phase in which only the client's state changes, by `f`. -/
theorem CursorInv.modify (h : CursorInv c s) {f : ClientState → ClientState} {handler : Handler}
    (hsent : s'.sinceCursor c = s.sinceCursor c) (hcursor : s'.cursor c = s.cursor c)
    (hqueue : s'.queue = s.queue) (hclient : s'.manager.client c = (s.manager.client c).map f)
    (hhandler : s'.handler c = handler)
    (hkept : ∀ st, s.manager.client c = some st → (s.cursor c).Kept (f st) handler) :
    CursorInv c s' := by
  refine h.change hsent hcursor hqueue (fun st hst => ?_)
  rw [hclient] at hst
  obtain ⟨st₀, hst₀, rfl⟩ := Option.map_eq_some_iff.mp hst
  rw [hhandler]
  exact hkept st₀ hst₀

/-- Only the phase of the client's handler changes. -/
theorem CursorInv.setHandler (h : CursorInv c s) {handler : Handler}
    (hkept : ∀ st, s.manager.client c = some st → (s.cursor c).Kept st handler) :
    CursorInv c (s.setHandler c handler) := by
  refine h.change rfl rfl rfl (fun st hst => ?_)
  rw [setHandler_self]
  exact hkept st hst

theorem CursorInv.enter (h : CursorInv c s) {toTick : Nat}
    (hphase : s.handler c = .entering toTick) (hok : WithinReach c s (.work c)) :
    CursorInv c (s.enter E c toTick) := by
  have hreach := hok rfl
  rw [hphase] at hreach
  have hkept := h.client
  rw [hphase] at hkept
  have hidle : CursorInv c (s.setHandler c .idle) := h.setHandler (fun st hst => (hkept st hst).idle)
  unfold StreamServer.enter
  cases hst : s.manager.client c with
  | none => exact hidle
  | some st =>
      dsimp only
      by_cases hsub : st.subscriptions = []
      · rw [if_pos hsub]
        exact hidle
      · rw [if_neg hsub]
        have hkeys : s.manager.keysOf c ≠ [] := by
          rwa [LogSubscriptionManager.keysOf_eq hst]
        refine h.modify rfl rfl rfl (client_modifyClient_self _ _) (setHandler_self _) ?_
        intro st' hst'
        obtain rfl := Option.some.inj (hst.symm.trans hst')
        exact (hkept _ hst).enter (hreach hkeys) E.gInitialTick _

theorem CursorInv.enterByLogId (h : CursorInv c s) {toLogId : Int}
    (hphase : s.handler c = .enteringByLogId toLogId) (hok : WithinReach c s (.work c)) :
    CursorInv c (s.enterByLogId c toLogId) := by
  have hreach := hok rfl
  rw [hphase] at hreach
  have hkept := h.client
  rw [hphase] at hkept
  have hidle : CursorInv c (s.setHandler c .idle) := h.setHandler (fun st hst => (hkept st hst).idle)
  unfold StreamServer.enterByLogId
  cases hst : s.manager.client c with
  | none => exact hidle
  | some st =>
      dsimp only
      by_cases hsub : st.subscriptions = [] ∨ st.lastLogId < 0
      · rw [if_pos hsub]
        exact hidle
      · rw [if_neg hsub]
        have hkeys : s.manager.keysOf c ≠ [] := by
          rw [LogSubscriptionManager.keysOf_eq hst]
          exact fun hnil => hsub (Or.inl hnil)
        refine h.modify rfl rfl rfl (client_modifyClient_self _ _) (setHandler_self _) ?_
        intro st' hst'
        obtain rfl := Option.some.inj (hst.symm.trans hst')
        exact (hkept _ hst).enterByLogId (hreach hkeys) (fun hneg => hsub (Or.inr hneg)) _

/-- A batch of a replay by ticks is above the cursor it started from. -/
theorem CursorInv.replay (h : CursorInv c s) (hr : Registered s)
    {subscriptions : List SubscriptionKey} {next toTick : Nat}
    (hphase : s.handler c = .replaying subscriptions next toTick) :
    CursorInv c (s.replay E c subscriptions next toTick) := by
  have hkept := h.client
  rw [hphase] at hkept
  unfold StreamServer.replay
  dsimp only
  split
  · exact h.setHandler (fun st hst => (hkept st hst).replay)
  · have hsend : CursorInv c (s.send c (performCatchUpSends c subscriptions
        (dbGetLogsByTickRange E.K s.db E.epoch next (batchEnd next toTick)).1)) := by
      refine h.send (fun hlink m hm => ?_)
      obtain ⟨st, hst⟩ := hr.connected c hlink
      obtain ⟨-, -, -, -, hlog⟩ := mem_catchUpSends.mp hm
      have hge := (dbGetLogsByTickRange_tick hlog).1
      have hst := hkept st hst
      cases hcur : s.cursor c with
      | unset => trivial
      | tick T =>
          rw [hcur] at hst
          exact lt_of_lt_of_le hst.2.1 hge
      | logId L =>
          rw [hcur] at hst
          exact absurd hst.2 id
    refine hsend.setHandler (fun st hst => ?_)
    rw [send_manager] at hst
    rw [send_cursor]
    split
    · exact (hkept st hst).replay
    · exact (hkept st hst).idle

theorem CursorInv.replayByLogId (h : CursorInv c s) (hr : Registered s)
    {subscriptions : List SubscriptionKey} {next toLogId : Int}
    (hphase : s.handler c = .replayingByLogId subscriptions next toLogId) :
    CursorInv c (s.replayByLogId E c subscriptions next toLogId) := by
  have hkept := h.client
  rw [hphase] at hkept
  unfold StreamServer.replayByLogId
  dsimp only
  have hsend : CursorInv c (s.send c (performCatchUpByLogIdSends c subscriptions
      (dbTryGetLogsFromTo s.db E.epoch next (batchEndByLogId next toLogId)))) := by
    refine h.send (fun hlink m hm => ?_)
    obtain ⟨st, hst⟩ := hr.connected c hlink
    obtain ⟨-, -, -, -, hlog⟩ := mem_catchUpSends.mp hm
    have hge := (mem_dbTryGetLogsFromTo.mp hlog).2.1
    have hst := hkept st hst
    cases hcur : s.cursor c with
    | unset => trivial
    | tick T =>
        rw [hcur] at hst
        exact absurd hst.2 id
    | logId L =>
        rw [hcur] at hst
        obtain ⟨-, hpos, hlt, -⟩ := hst
        change L < (m.log.getLogId : Int)
        omega
  refine hsend.setHandler (fun st hst => ?_)
  rw [send_manager] at hst
  rw [send_cursor]
  split
  · exact (hkept st hst).replayByLogId
  · exact (hkept st hst).idle

theorem CursorInv.applyAmount (h : CursorInv c s) {useLogIdCatchUp : Bool} {msg : SubscribeMessage}
    (hphase : s.handler c = .settingAmount useLogIdCatchUp msg) :
    CursorInv c (s.applyAmount c useLogIdCatchUp msg) := by
  refine h.modify rfl rfl rfl (client_applyAmount _ _) (setHandler_self _) (fun st hst => ?_)
  have hkept := h.client st hst
  rw [hphase] at hkept
  cases msg.keys with
  | none => exact hkept.idle.congr rfl rfl
  | some keys => exact (hkept.subscribing keys).congr rfl rfl

theorem CursorInv.addKey (h : CursorInv c s) {useLogIdCatchUp : Bool} {key : SubscriptionKey}
    {keys : List SubscriptionKey} (hphase : s.handler c = .subscribing useLogIdCatchUp (key :: keys)) :
    CursorInv c (s.addKey c useLogIdCatchUp key keys) := by
  refine h.modify rfl rfl rfl (client_addKey _ _ _) (setHandler_self _) (fun st hst => ?_)
  have hkept := h.client st hst
  rw [hphase] at hkept
  exact (hkept.nextKey keys).congr rfl rfl

theorem CursorInv.work (h : CursorInv c s) (hr : Registered s) (hok : WithinReach c s (.work c)) :
    CursorInv c (s.work E c) := by
  have hkept := h.client
  have hreach := hok rfl
  unfold StreamServer.work
  split
  · exact h
  · next msg currentTick hphase =>
      rw [hphase] at hreach
      exact cursorInv_applyCursor hreach
  · next hphase => exact h.applyAmount hphase
  · next hphase => exact h.addKey hphase
  · next hphase =>
      rw [hphase] at hkept
      exact h.setHandler (fun st hst => (hkept st hst).trigger s)
  · next hphase => exact h.enter hphase hok
  · next hphase => exact h.replay hr hphase
  · next hphase =>
      rw [hphase] at hkept
      refine h.modify rfl rfl rfl (client_modifyClient_self _ _) (setHandler_self _) ?_
      exact fun st hst => (hkept st hst).complete
  · next hphase => exact h.enterByLogId hphase hok
  · next hphase => exact h.replayByLogId hr hphase
  · next hphase =>
      rw [hphase] at hkept
      refine h.modify rfl rfl rfl (client_modifyClient_self _ _) (setHandler_self _) ?_
      exact fun st hst => (hkept st hst).completeByLogId

theorem cursorInv_step (st : StreamStep) (hr : Registered s) (ht : s.verifier.Ticked)
    (h : CursorInv c s) (hok : WithinReach c s st) : CursorInv c (s.step E st) := by
  by_cases hcon : st.Concerns c
  · cases st with
    | accept =>
        rcases accept_cases with heq | ⟨processToTick, vle, -, heq⟩ <;> rw [heq]
        · exact h
        · unfold acceptBatch
          split <;> exact { h with }
    | push => exact h.push hr ht
    | dispatch => exact h.dispatch
    | connect conn =>
        obtain rfl : conn = c := hcon
        rcases connect_cases with heq | ⟨hfresh, heq⟩ <;> rw [heq]
        · exact h
        · refine h.change rfl rfl rfl (fun st _ => ?_)
          rw [(hr.unasked conn hfresh).2]
          trivial
    | close conn =>
        rcases close_cases with heq | ⟨-, heq⟩ <;> rw [heq]
        · exact h
        · exact { h with }
    | disconnect conn =>
        obtain rfl : conn = c := hcon
        rcases disconnect_cases with heq | ⟨-, -, heq⟩ <;> rw [heq]
        · exact h
        · refine h.change rfl rfl rfl (fun st hst => ?_)
          change (s.manager.removeClient conn).client conn = some st at hst
          rw [LogSubscriptionManager.client_removeClient, if_pos rfl] at hst
          cases hst
    | message conn msg =>
        obtain rfl : conn = c := hcon
        rcases message_cases msg with heq | ⟨-, -, heq⟩ <;> rw [heq]
        · exact h
        · exact h.setHandler (fun st hst => (h.client st hst).settingCursor msg _)
    | unsubscribe conn key =>
        obtain rfl : conn = c := hcon
        rcases unsubscribe_cases key with heq | ⟨-, -, heq⟩ <;> rw [heq]
        · exact h
        · have hclient := (@LogSubscriptionManager.client_unsubscribe s.manager conn conn key).trans
            (if_pos rfl)
          exact h.modify rfl rfl rfl hclient rfl (fun st hst => (h.client st hst).congr rfl rfl)
    | unsubscribeAll conn =>
        obtain rfl : conn = c := hcon
        rcases unsubscribeAll_cases with heq | ⟨-, -, heq⟩ <;> rw [heq]
        · exact h
        · have hclient := (@LogSubscriptionManager.client_unsubscribeAll s.manager conn conn).trans
            (if_pos rfl)
          exact h.modify rfl rfl rfl hclient rfl (fun st hst => (h.client st hst).congr rfl rfl)
    | work conn =>
        obtain rfl : conn = c := hcon
        exact h.work hr hok
    | chunk events => exact absurd hcon id
    | updateLatest i => exact absurd hcon id
    | logRange tick range => exact absurd hcon id
    | fetchBatch processToTick => exact absurd hcon id
    | advance => exact absurd hcon id
  · exact (sameFor_step hcon).cursorInv h

end steps

/-- From any start, for every connection, in every run whose steps are within reach of its cursor,
nothing is sent to the client up to its cursor. -/
theorem cursorRespected_run (E : StreamEnv) (c : WsConn) (db : LogDB) (latestLogId : Int)
    (tick : Nat) (steps : List StreamStep)
    (hok : Runs.Guarded (step E) (WithinReach c) (start db latestLogId tick) steps) :
    CursorRespected c ((start db latestLogId tick).run E steps) := by
  have hstep : ∀ s st, (Registered s ∧ s.verifier.Ticked ∧ CursorInv c s) → WithinReach c s st →
      (Registered (s.step E st) ∧ (s.step E st).verifier.Ticked ∧ CursorInv c (s.step E st)) :=
    fun s st h hok => ⟨registered_step st h.1, ticked_step st h.2.1,
      cursorInv_step st h.1 h.2.1 h.2.2 hok⟩
  have h := Runs.run_invariant hstep
    ⟨registered_start db latestLogId tick, trivial, cursorInv_start c db latestLogId tick⟩ hok
  exact h.2.2.sent

theorem cursorRespected_run_replayed_then_pushed :
    Runs.Guarded (step streamEnv) (WithinReach 1) (start noLogs (-1) 5) replayedThenPushed ∧
      ((start noLogs (-1) 5).run streamEnv replayedThenPushed).sinceCursor 1 =
        [streamLog 5 1, streamLog 6 2] ∧
      CursorRespected 1 ((start noLogs (-1) 5).run streamEnv replayedThenPushed) := by
  have hok : Runs.Guarded (step streamEnv) (WithinReach 1) (start noLogs (-1) 5)
      replayedThenPushed := by decide +kernel
  have hsent : ((start noLogs (-1) 5).run streamEnv replayedThenPushed).sinceCursor 1 =
      [streamLog 5 1, streamLog 6 2] := by decide +kernel
  exact ⟨hok, hsent, @cursorRespected_run streamEnv 1 noLogs (-1) 5 replayedThenPushed hok⟩

/-- A client ahead of the server asks for what comes after tick 100 while the server is at tick 5,
and tick 5 is verified and pushed. -/
def aheadOfServer : List StreamStep :=
  ([.chunk [streamLog 5 1], .updateLatest 0, .logRange 5 (oneLog 1), .connect 1] :
      List StreamStep) ++
    subscribeSteps (.lastTick 100) 6 ++
    ([.fetchBatch 5, .accept, .push, .dispatch] : List StreamStep)

/-- The client is sent tick 5. -/
theorem client_ahead_sent_below_cursor :
    ((start noLogs (-1) 5).run streamEnv aheadOfServer).cursor 1 = .tick 100 ∧
      ¬ CursorRespected 1 ((start noLogs (-1) 5).run streamEnv aheadOfServer) := by
  have hcursor : ((start noLogs (-1) 5).run streamEnv aheadOfServer).cursor 1 = .tick 100 := by
    decide +kernel
  refine ⟨hcursor, fun h => ?_⟩
  have hsent : streamLog 5 1 ∈
      ((start noLogs (-1) 5).run streamEnv aheadOfServer).sinceCursor 1 := by decide +kernel
  have hlt := h _ hsent
  rw [hcursor] at hlt
  exact absurd hlt (by decide +kernel)

end StreamServer

end QubicBob
