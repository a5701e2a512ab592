import QubicBob.Storage.LogStore
import QubicBob.Network.DataThread
import QubicBob.Stream.Subscription

set_option autoImplicit false

/-! # The log stream as a system

The threads that meet in the stream, as steps on one state: data threads store log chunks and log
ranges; the verifier reads a batch, accepts it, pushes its ticks one by one and then advances
`gCurrentVerifyLoggingTick`; a handler for each WebSocket connection works through a `subscribe`
message one lock at a time, the replays included; and the event loop sends what the pushes have
queued. All within one epoch.

Some of the state is history that no thread reads: the ticks accepted, the logs that have passed the
push, what each connection has asked for and what it was sent since.
-/

namespace QubicBob

/-- What does not change in an epoch. -/
structure StreamEnv where
  K : KangarooTwelve
  epoch : Nat
  gInitialTick : Nat

/-- The verifier waits for a batch, has read the logs of one, or pushes the logs of an accepted one,
grouped by tick. -/
inductive Verifier where
  | idle
  | simulating (processToTick : Nat) (vle : List LogEvent)
  | pushing (processToTick : Nat) (groups : List (Nat × List LogEvent))

inductive Link where
  | fresh
  | connected
  | closed
  deriving DecidableEq

/-- The cursor fields of a `subscribe` message. `lastLogId` takes priority over `lastTick`; a field
that is there and not a number is invalid. -/
inductive CursorField where
  | lastLogId (value : Int)
  | lastLogIdInvalid
  | lastTick (value : BitVec 32)
  | lastTickInvalid
  | absent

/-- A `subscribe` message; `keys` is `none` when it does not name a valid key. -/
structure SubscribeMessage where
  cursor : CursorField
  transferMinAmount : Option Int
  keys : Option (List SubscriptionKey)

/-- Where the handler of a connection is: before each lock of `handleSubscribe` and of the replay it
ends with, and before each batch of that replay. -/
inductive Handler where
  | idle
  | settingCursor (msg : SubscribeMessage) (currentTick : Nat)
  | settingAmount (useLogIdCatchUp : Bool) (msg : SubscribeMessage)
  | subscribing (useLogIdCatchUp : Bool) (keys : List SubscriptionKey)
  | entering (toTick : Nat)
  | replaying (subscriptions : List SubscriptionKey) (tick toTick : Nat)
  | completing (toTick : Nat)
  | enteringByLogId (toLogId : Int)
  | replayingByLogId (subscriptions : List SubscriptionKey) (id toLogId : Int)
  | completingByLogId (toLogId : Int)

def Handler.isIdle : Handler → Bool
  | .idle => true
  | _ => false

/-- What a client has asked for. -/
inductive Cursor where
  | unset
  | tick (T : Nat)
  | logId (L : Int)
  deriving DecidableEq

structure StreamServer where
  db : LogDB
  latestLogId : Int
  /-- the largest ids of the chunks that are stored but not yet counted in `latestLogId` -/
  latestUpdates : List Nat
  gCurrentVerifyLoggingTick : Nat
  verifier : Verifier
  manager : LogSubscriptionManager
  link : WsConn → Link
  handler : WsConn → Handler
  queue : List LogMessage
  sent : List LogMessage
  /-- one more than the last tick accepted -/
  acceptedEnd : Nat
  /-- one more than the highest tick pushed -/
  pushedEnd : Nat
  /-- the logs of the accepted batches that are pushed, or skipped when nobody was there -/
  verified : List LogEvent
  cursor : WsConn → Cursor
  /-- how many logs had passed when a connection's cursor was set or the key was added -/
  since : WsConn → SubscriptionKey → Nat
  /-- the logs sent to a connection since its cursor was set -/
  sinceCursor : WsConn → List LogEvent

inductive StreamStep where
  | chunk (events : List LogEvent)
  | updateLatest (i : Nat)
  | logRange (tick : Nat) (range : TickLogRange)
  | fetchBatch (processToTick : Nat)
  | accept
  | push
  | advance
  | dispatch
  | connect (conn : WsConn)
  | close (conn : WsConn)
  | disconnect (conn : WsConn)
  | message (conn : WsConn) (msg : SubscribeMessage)
  | unsubscribe (conn : WsConn) (key : SubscriptionKey)
  | unsubscribeAll (conn : WsConn)
  | work (conn : WsConn)

/-- The steps that may concern a connection: its own, and those of the verifier and the event loop
that touch logs. -/
def StreamStep.Concerns (c : WsConn) : StreamStep → Prop
  | .accept | .push | .dispatch => True
  | .connect conn | .close conn | .disconnect conn | .message conn _ | .unsubscribe conn _
  | .unsubscribeAll conn | .work conn => conn = c
  | _ => False

/-! ## Pieces of the threads -/

/-- `db_insert_log` on KeyDB. -/
def LogDB.dbInsertLog (db : LogDB) (log : LogEvent) : LogDB :=
  { db with keydb := { db.keydb with
      log := Function.update db.keydb.log log.getEpoch
        (Function.update (db.keydb.log log.getEpoch) log.getLogId
          (setNX (db.keydb.log log.getEpoch log.getLogId) log.content)) } }

/-- The summary `db_insert_log_range` writes. -/
def LogDB.dbInsertLogRange (db : LogDB) (tick : Nat) (range : TickLogRange) : LogDB :=
  { db with keydb := { db.keydb with
      tickLogRange := Function.update db.keydb.tickLogRange tick (some range) } }

/-- The grouping loop of `verifyLoggingEvent`: the calls of `pushVerifiedLogs` it makes. -/
def groupLoop (currentTick : Nat) (tickLogs : List LogEvent) :
    List LogEvent → List (Nat × List LogEvent)
  | [] => if tickLogs = [] then [] else [(currentTick, tickLogs)]
  | log :: vle =>
      let logTick := log.getTick.toNat
      if logTick ≠ currentTick ∧ tickLogs ≠ [] then
        (currentTick, tickLogs) :: groupLoop logTick [log] vle
      else groupLoop logTick (tickLogs ++ [log]) vle

def groupByTick (vle : List LogEvent) : List (Nat × List LogEvent) := groupLoop 0 [] vle

/-- `db_try_get_logs`: the stored logs of the ids from `logIdStart` to `logIdEnd`. -/
def dbTryGetLogsFromTo (db : LogDB) (epoch : Nat) (logIdStart logIdEnd : Int) : List LogEvent :=
  (List.range' logIdStart.toNat (logIdEnd + 1 - logIdStart).toNat).filterMap (dbTryGetLog db epoch)

/-- The cursor a message asks for. -/
def CursorField.asked : CursorField → Cursor
  | .lastLogId value => .logId value
  | .lastTick value => .tick value.toNat
  | _ => .unset

def CursorField.useLogIdCatchUp : CursorField → Bool
  | .lastLogId _ => true
  | _ => false

/-- The first lock of `handleSubscribe`; without a cursor the client will only receive new events. -/
def LogSubscriptionManager.setCursor (m : LogSubscriptionManager) (conn : WsConn)
    (currentTick : Nat) : CursorField → LogSubscriptionManager
  | .lastLogId value => m.setClientLastLogId conn value
  | .lastLogIdInvalid => m.setClientLastLogId conn (-1)
  | .lastTick value => m.setClientLastTick conn value.toNat
  | .lastTickInvalid => m
  | .absent => m.setClientLastTick conn currentTick

/-- What setting the cursor does to the client's state. -/
def CursorField.set (currentTick : Nat) : CursorField → ClientState → ClientState
  | .lastLogId value, st => { st with lastLogId := value }
  | .lastLogIdInvalid, st => { st with lastLogId := -1 }
  | .lastTick value, st => { st with lastTick := value.toNat, lastLogId := -1 }
  | .lastTickInvalid, st => st
  | .absent, st => { st with lastTick := currentTick, lastLogId := -1 }

theorem LogSubscriptionManager.client_setCursor {m : LogSubscriptionManager} {conn c : WsConn}
    (currentTick : Nat) (field : CursorField) :
    (m.setCursor conn currentTick field).client c =
      if c = conn then (m.client c).map (field.set currentTick) else m.client c := by
  cases field with
  | lastTickInvalid =>
      change m.client c = if c = conn then (m.client c).map id else m.client c
      rw [Option.map_id_fun, id_eq, ite_self]
  | _ => exact client_modifyClient _

/-- The ticks one batch of `performCatchUp` covers, in 32 bits. -/
def BATCH_SIZE : Nat := 100

def BATCH_SIZE_BY_LOG_ID : Int := 1000

/-! ## Batches -/

/-- A batch has logs of its own ticks only. -/
theorem dbGetLogsByTickRange_tick {K : KangarooTwelve} {db : LogDB} {epoch startTick endTick : Nat}
    {log : LogEvent} (h : log ∈ (dbGetLogsByTickRange K db epoch startTick endTick).1) :
    startTick ≤ log.getTick.toNat ∧ log.getTick.toNat ≤ endTick := (accepted_of_mem_batch h).1

theorem mem_dbTryGetLogsFromTo {db : LogDB} {epoch : Nat} {logIdStart logIdEnd : Int}
    {log : LogEvent} : log ∈ dbTryGetLogsFromTo db epoch logIdStart logIdEnd ↔
      dbTryGetLog db epoch log.getLogId = some log ∧ logIdStart.toNat ≤ log.getLogId ∧
        log.getLogId < logIdStart.toNat + (logIdEnd + 1 - logIdStart).toNat := by
  unfold dbTryGetLogsFromTo
  rw [List.mem_filterMap]
  constructor
  · rintro ⟨id, hid, hlog⟩
    rw [List.mem_range'_1] at hid
    have hlogId := dbTryGetLog_id hlog
    rw [hlogId]
    exact ⟨hlog, hid⟩
  · rintro ⟨hlog, hid⟩
    exact ⟨log.getLogId, List.mem_range'_1.mpr hid, hlog⟩

theorem groupLoop_flatMap (vle : List LogEvent) (currentTick : Nat) (tickLogs : List LogEvent) :
    (groupLoop currentTick tickLogs vle).flatMap Prod.snd = tickLogs ++ vle := by
  induction vle generalizing currentTick tickLogs with
  | nil =>
      rw [groupLoop]
      by_cases h : tickLogs = []
      · rw [if_pos h, h]
        rfl
      · rw [if_neg h]
        simp
  | cons log vle ih =>
      rw [groupLoop]
      split
      · rw [List.flatMap_cons, ih]
        rfl
      · rw [ih, List.append_assoc]
        rfl

/-- The groups are the batch in order. -/
theorem groupByTick_flatMap (vle : List LogEvent) : (groupByTick vle).flatMap Prod.snd = vle := by
  rw [groupByTick, groupLoop_flatMap, List.nil_append]

theorem groupLoop_tick (vle : List LogEvent) {currentTick : Nat} {tickLogs : List LogEvent}
    (h : ∀ log ∈ tickLogs, log.getTick.toNat = currentTick) :
    ∀ group ∈ groupLoop currentTick tickLogs vle, ∀ log ∈ group.2,
      log.getTick.toNat = group.1 := by
  induction vle generalizing currentTick tickLogs with
  | nil =>
      rw [groupLoop]
      split
      · exact fun _ hg => absurd hg List.not_mem_nil
      · intro group hg
        rw [List.mem_singleton.mp hg]
        exact h
  | cons log vle ih =>
      rw [groupLoop]
      split
      · intro group hg
        rcases List.mem_cons.mp hg with rfl | hg
        · exact h
        · exact ih (fun _ hl => by rw [List.mem_singleton.mp hl]) group hg
      · next hsame =>
          refine ih (fun log' hl => ?_)
          rcases List.mem_append.mp hl with hl | hl
          · rw [h log' hl]
            by_contra hne
            exact hsame ⟨fun heq => hne heq.symm, List.ne_nil_of_mem hl⟩
          · rw [List.mem_singleton.mp hl]

/-- Every group has the logs of its tick. -/
theorem groupByTick_tick (vle : List LogEvent) :
    ∀ group ∈ groupByTick vle, ∀ log ∈ group.2, log.getTick.toNat = group.1 :=
  groupLoop_tick vle (fun _ h => absurd h List.not_mem_nil)

/-- Every group that is still to be pushed has logs of its tick. -/
def Verifier.Ticked : Verifier → Prop
  | .pushing _ groups => ∀ group ∈ groups, ∀ log ∈ group.2, log.getTick.toNat = group.1
  | _ => True

theorem mem_of_mem_group {vle : List LogEvent} {group : Nat × List LogEvent}
    (hg : group ∈ groupByTick vle) {log : LogEvent} (hlog : log ∈ group.2) : log ∈ vle := by
  rw [← groupByTick_flatMap vle]
  exact List.mem_flatMap.mpr ⟨group, hg, hlog⟩

namespace StreamServer

variable (E : StreamEnv)

def setHandler (s : StreamServer) (conn : WsConn) (h : Handler) : StreamServer :=
  { s with handler := Function.update s.handler conn h }

/-- `conn->send`: nothing goes out on a closed connection. -/
def send (s : StreamServer) (conn : WsConn) (msgs : List LogMessage) : StreamServer :=
  if s.link conn = .connected then
    { s with
      sent := s.sent ++ msgs
      sinceCursor := Function.update s.sinceCursor conn
        (s.sinceCursor conn ++ msgs.map LogMessage.log) }
  else s

/-- The end of the first lock of `performCatchUp` and the choice of its loop. -/
def enter (s : StreamServer) (conn : WsConn) (toTick : Nat) : StreamServer :=
  match s.manager.client conn with
  | none => s.setHandler conn .idle
  | some st =>
      -- No subscriptions, nothing to catch up
      if st.subscriptions = [] then s.setHandler conn .idle
      else
        let fromTick := max ((st.lastTick + 1) % 2 ^ 32) E.gInitialTick
        { s with manager := s.manager.beginCatchUp conn }.setHandler conn
          -- Already up to date
          (if toTick < fromTick then .completing toTick
          else .replaying st.subscriptions fromTick toTick)

def enterByLogId (s : StreamServer) (conn : WsConn) (toLogId : Int) : StreamServer :=
  match s.manager.client conn with
  | none => s.setHandler conn .idle
  | some st =>
      -- If lastLogId is not set (< 0), skip catch-up entirely
      if st.subscriptions = [] ∨ st.lastLogId < 0 then s.setHandler conn .idle
      else
        let fromLogId := st.lastLogId + 1
        { s with manager := s.manager.beginCatchUp conn }.setHandler conn
          (if toLogId < fromLogId then .completingByLogId toLogId
          else .replayingByLogId st.subscriptions fromLogId toLogId)

def batchEnd (tick toTick : Nat) : Nat := min ((tick + BATCH_SIZE - 1) % 2 ^ 32) toTick

def batchEndByLogId (id toLogId : Int) : Int := min (id + BATCH_SIZE_BY_LOG_ID - 1) toLogId

/-- One round of the loop of `performCatchUp`. The connection is only looked at after a batch that
had logs. -/
def replay (s : StreamServer) (conn : WsConn) (subscriptions : List SubscriptionKey)
    (tick toTick : Nat) : StreamServer :=
  let read := dbGetLogsByTickRange E.K s.db E.epoch tick (batchEnd tick toTick)
  let next := (tick + BATCH_SIZE) % 2 ^ 32
  let onward := if toTick < next then .completing toTick else .replaying subscriptions next toTick
  if read.1 = [] ∨ read.2 = false then s.setHandler conn onward
  else
    (s.send conn (performCatchUpSends conn subscriptions read.1)).setHandler conn
      (if s.link conn = .connected then onward else .idle)

def replayByLogId (s : StreamServer) (conn : WsConn) (subscriptions : List SubscriptionKey)
    (id toLogId : Int) : StreamServer :=
  let logs := dbTryGetLogsFromTo s.db E.epoch id (batchEndByLogId id toLogId)
  let next := id + BATCH_SIZE_BY_LOG_ID
  let onward :=
    if toLogId < next then .completingByLogId toLogId
    else .replayingByLogId subscriptions next toLogId
  (s.send conn (performCatchUpByLogIdSends conn subscriptions logs)).setHandler conn
    (if s.link conn = .connected then onward else .idle)

/-- The trigger at the end of `handleSubscribe`. -/
def trigger (s : StreamServer) (useLogIdCatchUp : Bool) : Handler :=
  if useLogIdCatchUp then
    if 0 < s.latestLogId then .enteringByLogId s.latestLogId else .idle
  else
    if 0 < s.gCurrentVerifyLoggingTick then .entering (s.gCurrentVerifyLoggingTick - 1) else .idle

/-- The cursor of the message is set; what is sent to the client from here on is noted. -/
def applyCursor (s : StreamServer) (conn : WsConn) (msg : SubscribeMessage) (currentTick : Nat) :
    StreamServer :=
  { s with
    manager := s.manager.setCursor conn currentTick msg.cursor
    cursor := Function.update s.cursor conn msg.cursor.asked
    since := Function.update s.since conn (fun _ => s.verified.length)
    sinceCursor := Function.update s.sinceCursor conn [] }.setHandler conn
      (.settingAmount msg.cursor.useLogIdCatchUp msg)

def applyAmount (s : StreamServer) (conn : WsConn) (useLogIdCatchUp : Bool)
    (msg : SubscribeMessage) : StreamServer :=
  { s with
    manager :=
      match msg.transferMinAmount with
      | none => s.manager
      | some amount => s.manager.setClientTransferMinAmount conn amount }.setHandler conn
    (match msg.keys with
    -- an error message; the cursor and the amount stay set
    | none => .idle
    | some keys => .subscribing useLogIdCatchUp keys)

def addKey (s : StreamServer) (conn : WsConn) (useLogIdCatchUp : Bool) (key : SubscriptionKey)
    (keys : List SubscriptionKey) : StreamServer :=
  { s with
    manager := (s.manager.subscribe conn key).2
    since :=
      if key ∈ s.manager.keysOf conn then s.since
      else Function.update s.since conn
        (Function.update (s.since conn) key s.verified.length) }.setHandler conn
      (.subscribing useLogIdCatchUp keys)

/-- The next step of a handler. -/
def work (s : StreamServer) (conn : WsConn) : StreamServer :=
  match s.handler conn with
  | .idle => s
  | .settingCursor msg currentTick => s.applyCursor conn msg currentTick
  | .settingAmount useLogIdCatchUp msg => s.applyAmount conn useLogIdCatchUp msg
  | .subscribing useLogIdCatchUp (key :: keys) => s.addKey conn useLogIdCatchUp key keys
  | .subscribing useLogIdCatchUp [] => s.setHandler conn (s.trigger useLogIdCatchUp)
  | .entering toTick => s.enter E conn toTick
  | .replaying subscriptions tick toTick => s.replay E conn subscriptions tick toTick
  | .completing toTick =>
      { s with manager := s.manager.completeCatchUp conn toTick }.setHandler conn .idle
  | .enteringByLogId toLogId => s.enterByLogId conn toLogId
  | .replayingByLogId subscriptions id toLogId => s.replayByLogId E conn subscriptions id toLogId
  | .completingByLogId toLogId =>
      { s with manager := s.manager.completeCatchUpByLogId conn toLogId }.setHandler conn .idle

/-- The accept branch up to the pushes. Without clients the batch is not pushed at all. -/
def acceptBatch (s : StreamServer) (processToTick : Nat) (vle : List LogEvent) : StreamServer :=
  if 0 < s.manager.getClientCount then
    { s with
      verifier := .pushing processToTick (groupByTick vle)
      acceptedEnd := max s.acceptedEnd (processToTick + 1) }
  else
    { s with
      verifier := .pushing processToTick []
      acceptedEnd := max s.acceptedEnd (processToTick + 1)
      verified := s.verified ++ vle }

/-- The connection is there and its handler can take a message: messages are handled one at a
time. -/
def free (s : StreamServer) (conn : WsConn) : Bool :=
  decide (s.link conn = .connected) && (s.handler conn).isIdle

def step (s : StreamServer) : StreamStep → StreamServer
  | .chunk events =>
      if events.all (fun log => log.selfCheck E.K E.epoch) then
        { s with
          db := events.foldl LogDB.dbInsertLog s.db
          latestUpdates := s.latestUpdates ++ [maxLogId events] }
      else s
  | .updateLatest i =>
      match s.latestUpdates[i]? with
      | none => s
      | some id =>
          { s with
            latestLogId := max s.latestLogId id
            latestUpdates := s.latestUpdates.eraseIdx i }
  | .logRange tick range => { s with db := s.db.dbInsertLogRange tick range }
  | .fetchBatch processToTick =>
      let processFromTick := s.gCurrentVerifyLoggingTick
      match s.verifier with
      | .idle =>
          if processFromTick ≤ processToTick ∧ processToTick < 2 ^ 32 ∧
              entersRescueMode E.K s.db E.epoch processFromTick processToTick = false then
            { s with
              verifier := .simulating processToTick
                (dbGetLogsByTickRange E.K s.db E.epoch processFromTick processToTick).1 }
          else s
      | _ => s
  | .accept =>
      match s.verifier with
      | .simulating processToTick vle => s.acceptBatch processToTick vle
      | _ => s
  | .push =>
      match s.verifier with
      | .pushing processToTick ((tick, logs) :: groups) =>
          { s with
            verifier := .pushing processToTick groups
            queue := s.queue ++ s.manager.pushVerifiedLogs tick logs
            verified := s.verified ++ logs
            pushedEnd := max s.pushedEnd (tick + 1) }
      | _ => s
  | .advance =>
      match s.verifier with
      | .pushing processToTick [] =>
          { s with
            verifier := .idle
            gCurrentVerifyLoggingTick := (processToTick + 1) % 2 ^ 32 }
      | _ => s
  | .dispatch =>
      match s.queue with
      | [] => s
      | msg :: queue => { s with queue := queue }.send msg.conn [msg]
  | .connect conn =>
      if s.link conn = .fresh then
        { s with
          manager := s.manager.addClient conn
          link := Function.update s.link conn .connected }
      else s
  | .close conn =>
      if s.link conn = .connected then { s with link := Function.update s.link conn .closed } else s
  | .disconnect conn =>
      if s.link conn = .closed ∧ (s.handler conn).isIdle = true then
        { s with manager := s.manager.removeClient conn }
      else s
  | .message conn msg =>
      if s.free conn then
        s.setHandler conn (.settingCursor msg s.gCurrentVerifyLoggingTick)
      else s
  | .unsubscribe conn key =>
      if s.free conn then { s with manager := (s.manager.unsubscribe conn key).2 } else s
  | .unsubscribeAll conn =>
      if s.free conn then { s with manager := s.manager.unsubscribeAll conn } else s
  | .work conn => s.work E conn

def run (s : StreamServer) (steps : List StreamStep) : StreamServer := Runs.run (step E) s steps

/-- The node when it begins to verify: what was verified before it started ends at
`gCurrentVerifyLoggingTick`, and nobody is connected. -/
def start (db : LogDB) (latestLogId : Int) (gCurrentVerifyLoggingTick : Nat) : StreamServer where
  db := db
  latestLogId := latestLogId
  latestUpdates := []
  gCurrentVerifyLoggingTick := gCurrentVerifyLoggingTick
  verifier := .idle
  manager := .empty
  link := fun _ => .fresh
  handler := fun _ => .idle
  queue := []
  sent := []
  acceptedEnd := gCurrentVerifyLoggingTick
  pushedEnd := 0
  verified := []
  cursor := fun _ => .unset
  since := fun _ _ => 0
  sinceCursor := fun _ => []

/-! ## What each step does

Each lemma says everything a step can do: it is not enabled, or what the new state is. -/

section cases

variable {E} {s : StreamServer} {conn : WsConn}

theorem fetchBatch_cases (processToTick : Nat) : s.step E (.fetchBatch processToTick) = s ∨
    (s.verifier = .idle ∧ s.gCurrentVerifyLoggingTick ≤ processToTick ∧ processToTick < 2 ^ 32 ∧
      s.step E (.fetchBatch processToTick) =
        { s with
          verifier := .simulating processToTick (dbGetLogsByTickRange E.K s.db E.epoch
            s.gCurrentVerifyLoggingTick processToTick).1 }) := by
  unfold step
  dsimp only
  split
  · next hv =>
      split
      · next h => exact Or.inr ⟨hv, h.1, h.2.1, rfl⟩
      · exact Or.inl rfl
  · exact Or.inl rfl

theorem accept_cases : s.step E .accept = s ∨ ∃ processToTick vle,
    s.verifier = .simulating processToTick vle ∧
      s.step E .accept = s.acceptBatch processToTick vle := by
  unfold step
  dsimp only
  split
  · next processToTick vle hv => exact Or.inr ⟨processToTick, vle, hv, rfl⟩
  · exact Or.inl rfl

theorem push_cases : s.step E .push = s ∨ ∃ processToTick tick logs groups,
    s.verifier = .pushing processToTick ((tick, logs) :: groups) ∧
      s.step E .push =
        { s with
          verifier := .pushing processToTick groups
          queue := s.queue ++ s.manager.pushVerifiedLogs tick logs
          verified := s.verified ++ logs
          pushedEnd := max s.pushedEnd (tick + 1) } := by
  unfold step
  dsimp only
  split
  · next processToTick tick logs groups hv =>
      exact Or.inr ⟨processToTick, tick, logs, groups, hv, rfl⟩
  · exact Or.inl rfl

theorem advance_cases : s.step E .advance = s ∨ ∃ processToTick,
    s.verifier = .pushing processToTick [] ∧
      s.step E .advance =
        { s with
          verifier := .idle
          gCurrentVerifyLoggingTick := (processToTick + 1) % 2 ^ 32 } := by
  unfold step
  dsimp only
  split
  · next processToTick hv => exact Or.inr ⟨processToTick, hv, rfl⟩
  · exact Or.inl rfl

theorem dispatch_cases : s.step E .dispatch = s ∨ ∃ msg queue, s.queue = msg :: queue ∧
    s.step E .dispatch = { s with queue := queue }.send msg.conn [msg] := by
  unfold step
  dsimp only
  split
  · exact Or.inl rfl
  · next msg queue hq => exact Or.inr ⟨msg, queue, hq, rfl⟩

theorem connect_cases : s.step E (.connect conn) = s ∨ (s.link conn = .fresh ∧
    s.step E (.connect conn) =
      { s with
        manager := s.manager.addClient conn
        link := Function.update s.link conn .connected }) := by
  unfold step
  dsimp only
  split
  · next h => exact Or.inr ⟨h, rfl⟩
  · exact Or.inl rfl

theorem close_cases : s.step E (.close conn) = s ∨ (s.link conn = .connected ∧
    s.step E (.close conn) = { s with link := Function.update s.link conn .closed }) := by
  unfold step
  dsimp only
  split
  · next h => exact Or.inr ⟨h, rfl⟩
  · exact Or.inl rfl

theorem isIdle_iff {h : Handler} : h.isIdle = true ↔ h = .idle := by
  cases h <;> simp [Handler.isIdle]

theorem free_iff : s.free conn = true ↔ s.link conn = .connected ∧ s.handler conn = .idle := by
  rw [free, Bool.and_eq_true, decide_eq_true_eq, isIdle_iff]

theorem disconnect_cases : s.step E (.disconnect conn) = s ∨
    (s.link conn = .closed ∧ s.handler conn = .idle ∧
      s.step E (.disconnect conn) = { s with manager := s.manager.removeClient conn }) := by
  unfold step
  dsimp only
  split
  · next h => exact Or.inr ⟨h.1, isIdle_iff.mp h.2, rfl⟩
  · exact Or.inl rfl

theorem message_cases (msg : SubscribeMessage) : s.step E (.message conn msg) = s ∨
    (s.link conn = .connected ∧ s.handler conn = .idle ∧
      s.step E (.message conn msg) =
        s.setHandler conn (.settingCursor msg s.gCurrentVerifyLoggingTick)) := by
  unfold step
  dsimp only
  split
  · next h => exact Or.inr ⟨(free_iff.mp h).1, (free_iff.mp h).2, rfl⟩
  · exact Or.inl rfl

theorem unsubscribe_cases (key : SubscriptionKey) : s.step E (.unsubscribe conn key) = s ∨
    (s.link conn = .connected ∧ s.handler conn = .idle ∧
      s.step E (.unsubscribe conn key) =
        { s with manager := (s.manager.unsubscribe conn key).2 }) := by
  unfold step
  dsimp only
  split
  · next h => exact Or.inr ⟨(free_iff.mp h).1, (free_iff.mp h).2, rfl⟩
  · exact Or.inl rfl

theorem unsubscribeAll_cases : s.step E (.unsubscribeAll conn) = s ∨
    (s.link conn = .connected ∧ s.handler conn = .idle ∧
      s.step E (.unsubscribeAll conn) =
        { s with manager := s.manager.unsubscribeAll conn }) := by
  unfold step
  dsimp only
  split
  · next h => exact Or.inr ⟨(free_iff.mp h).1, (free_iff.mp h).2, rfl⟩
  · exact Or.inl rfl

/-- The steps of the data threads change the databases and `latestLogId` only. -/
structure OnlyStored (s s' : StreamServer) : Prop where
  gCurrentVerifyLoggingTick : s'.gCurrentVerifyLoggingTick = s.gCurrentVerifyLoggingTick
  verifier : s'.verifier = s.verifier
  manager : s'.manager = s.manager
  link : s'.link = s.link
  handler : s'.handler = s.handler
  queue : s'.queue = s.queue
  sent : s'.sent = s.sent
  acceptedEnd : s'.acceptedEnd = s.acceptedEnd
  pushedEnd : s'.pushedEnd = s.pushedEnd
  verified : s'.verified = s.verified
  cursor : s'.cursor = s.cursor
  since : s'.since = s.since
  sinceCursor : s'.sinceCursor = s.sinceCursor

theorem onlyStored_chunk (events : List LogEvent) : OnlyStored s (s.step E (.chunk events)) := by
  unfold step
  dsimp only
  split <;> exact ⟨rfl, rfl, rfl, rfl, rfl, rfl, rfl, rfl, rfl, rfl, rfl, rfl, rfl⟩

theorem onlyStored_updateLatest (i : Nat) : OnlyStored s (s.step E (.updateLatest i)) := by
  unfold step
  dsimp only
  split <;> exact ⟨rfl, rfl, rfl, rfl, rfl, rfl, rfl, rfl, rfl, rfl, rfl, rfl, rfl⟩

theorem onlyStored_logRange (tick : Nat) (range : TickLogRange) :
    OnlyStored s (s.step E (.logRange tick range)) :=
  ⟨rfl, rfl, rfl, rfl, rfl, rfl, rfl, rfl, rfl, rfl, rfl, rfl, rfl⟩

end cases

/-! ## What a step leaves to a connection -/

section frame

variable {E} {s s' : StreamServer} {c conn : WsConn}

/-- Nothing that concerns the connection is different, and no more logs have passed. -/
structure SameFor (c : WsConn) (s s' : StreamServer) : Prop where
  client : s'.manager.client c = s.manager.client c
  handler : s'.handler c = s.handler c
  link : s'.link c = s.link c
  cursor : s'.cursor c = s.cursor c
  since : s'.since c = s.since c
  sinceCursor : s'.sinceCursor c = s.sinceCursor c
  verified : s'.verified = s.verified
  queue : s'.queue = s.queue
  sent : ∀ msg : LogMessage, msg.conn = c → (msg ∈ s'.sent ↔ msg ∈ s.sent)

theorem SameFor.refl (c : WsConn) (s : StreamServer) : SameFor c s s where
  client := rfl
  handler := rfl
  link := rfl
  cursor := rfl
  since := rfl
  sinceCursor := rfl
  verified := rfl
  queue := rfl
  sent := fun _ _ => Iff.rfl

theorem SameFor.trans {s'' : StreamServer} (h : SameFor c s s') (h' : SameFor c s' s'') :
    SameFor c s s'' where
  client := h'.client.trans h.client
  handler := h'.handler.trans h.handler
  link := h'.link.trans h.link
  cursor := h'.cursor.trans h.cursor
  since := h'.since.trans h.since
  sinceCursor := h'.sinceCursor.trans h.sinceCursor
  verified := h'.verified.trans h.verified
  queue := h'.queue.trans h.queue
  sent := fun msg hmsg => (h'.sent msg hmsg).trans (h.sent msg hmsg)

theorem sameFor_setHandler (hne : c ≠ conn) (h : Handler) : SameFor c s (s.setHandler conn h) :=
  { SameFor.refl c s with handler := Function.update_of_ne hne _ _ }

theorem sameFor_manager {m : LogSubscriptionManager} (hm : m.client c = s.manager.client c) :
    SameFor c s { s with manager := m } :=
  { SameFor.refl c s with client := hm }

theorem sameFor_send (hne : c ≠ conn) {msgs : List LogMessage}
    (hmsgs : ∀ msg ∈ msgs, msg.conn = conn) : SameFor c s (s.send conn msgs) := by
  unfold send
  split
  · refine { SameFor.refl c s with sinceCursor := Function.update_of_ne hne _ _, sent := ?_ }
    intro msg hmsg
    simp only [List.mem_append, or_iff_left_iff_imp]
    exact fun hin => absurd (hmsg.symm.trans (hmsgs msg hin)) hne
  · exact SameFor.refl c s

theorem client_modifyClient_ne (hne : c ≠ conn) (m : LogSubscriptionManager)
    (f : ClientState → ClientState) : (m.modifyClient conn f).client c = m.client c := by
  rw [LogSubscriptionManager.client_modifyClient, if_neg hne]

theorem setHandler_self (handler : Handler) : (s.setHandler c handler).handler c = handler :=
  Function.update_self _ _ _

theorem client_modifyClient_self (m : LogSubscriptionManager) (f : ClientState → ClientState) :
    (m.modifyClient c f).client c = (m.client c).map f := by
  rw [LogSubscriptionManager.client_modifyClient, if_pos rfl]

theorem client_applyCursor (msg : SubscribeMessage) (currentTick : Nat) :
    (s.applyCursor c msg currentTick).manager.client c =
      (s.manager.client c).map (msg.cursor.set currentTick) :=
  (LogSubscriptionManager.client_setCursor _ _).trans (if_pos rfl)

theorem client_applyAmount (useLogIdCatchUp : Bool) (msg : SubscribeMessage) :
    (s.applyAmount c useLogIdCatchUp msg).manager.client c =
      (s.manager.client c).map (fun st =>
        { st with
          transferMinAmount := msg.transferMinAmount.getD st.transferMinAmount }) := by
  unfold applyAmount
  cases msg.transferMinAmount with
  | none => exact Option.map_id_apply.symm
  | some amount => exact client_modifyClient_self _ _

theorem client_addKey (useLogIdCatchUp : Bool) (key : SubscriptionKey)
    (keys : List SubscriptionKey) :
    (s.addKey c useLogIdCatchUp key keys).manager.client c =
      (s.manager.client c).map (fun st =>
        { st with subscriptions := st.subscriptions.insert key }) :=
  (LogSubscriptionManager.client_subscribe key).trans (if_pos rfl)

theorem sameFor_enter (hne : c ≠ conn) (toTick : Nat) : SameFor c s (s.enter E conn toTick) := by
  unfold enter
  split
  · exact sameFor_setHandler hne _
  · split
    · exact sameFor_setHandler hne _
    · exact (sameFor_manager (client_modifyClient_ne hne _ _)).trans (sameFor_setHandler hne _)

theorem sameFor_enterByLogId (hne : c ≠ conn) (toLogId : Int) :
    SameFor c s (s.enterByLogId conn toLogId) := by
  unfold enterByLogId
  split
  · exact sameFor_setHandler hne _
  · split
    · exact sameFor_setHandler hne _
    · exact (sameFor_manager (client_modifyClient_ne hne _ _)).trans (sameFor_setHandler hne _)

theorem sameFor_catchUpSends (hne : c ≠ conn) (subscriptions : List SubscriptionKey)
    (logs : List LogEvent) (h : Handler) :
    SameFor c s ((s.send conn (catchUpSends conn subscriptions logs)).setHandler conn h) :=
  (sameFor_send hne fun _ hmsg => (mem_catchUpSends.mp hmsg).1).trans (sameFor_setHandler hne h)

theorem sameFor_work (hne : c ≠ conn) : SameFor c s (s.work E conn) := by
  unfold work
  split
  · exact SameFor.refl c s
  · next msg currentTick _ =>
      unfold applyCursor
      exact
        { SameFor.refl c s with
          client := (LogSubscriptionManager.client_setCursor _ _).trans (if_neg hne)
          handler := Function.update_of_ne hne _ _
          cursor := Function.update_of_ne hne _ _
          since := Function.update_of_ne hne _ _
          sinceCursor := Function.update_of_ne hne _ _ }
  · next useLogIdCatchUp msg _ =>
      unfold applyAmount
      refine (sameFor_manager ?_).trans (sameFor_setHandler hne _)
      cases msg.transferMinAmount with
      | none => rfl
      | some amount => exact client_modifyClient_ne hne _ _
  · next useLogIdCatchUp key keys _ =>
      unfold addKey
      refine
        { SameFor.refl c s with
          client := ?_
          handler := Function.update_of_ne hne _ _
          since := ?_ }
      · exact (LogSubscriptionManager.client_subscribe key).trans (if_neg hne)
      · change (if _ then s.since else _) c = s.since c
        split
        · rfl
        · exact Function.update_of_ne hne _ _
  · exact sameFor_setHandler hne _
  · exact sameFor_enter hne _
  · unfold replay
    dsimp only
    split
    · exact sameFor_setHandler hne _
    · exact sameFor_catchUpSends hne _ _ _
  · exact (sameFor_manager (client_modifyClient_ne hne _ _)).trans (sameFor_setHandler hne _)
  · exact sameFor_enterByLogId hne _
  · exact sameFor_catchUpSends hne _ _ _
  · exact (sameFor_manager (client_modifyClient_ne hne _ _)).trans (sameFor_setHandler hne _)

theorem OnlyStored.sameFor (h : OnlyStored s s') : SameFor c s s' where
  client := by rw [h.manager]
  handler := by rw [h.handler]
  link := by rw [h.link]
  cursor := by rw [h.cursor]
  since := by rw [h.since]
  sinceCursor := by rw [h.sinceCursor]
  verified := h.verified
  queue := h.queue
  sent := fun _ _ => by rw [h.sent]

/-- A step of another connection, or one that only touches the databases or the verifier's
progress. -/
theorem sameFor_step {st : StreamStep} (h : ¬ st.Concerns c) : SameFor c s (s.step E st) := by
  cases st with
  | chunk events => exact (onlyStored_chunk events).sameFor
  | updateLatest i => exact (onlyStored_updateLatest i).sameFor
  | logRange tick range => exact (onlyStored_logRange tick range).sameFor
  | fetchBatch processToTick =>
      rcases fetchBatch_cases processToTick with heq | ⟨-, -, -, heq⟩ <;> rw [heq]
      · exact SameFor.refl c s
      · exact { SameFor.refl c s with }
  | accept => exact absurd trivial h
  | push => exact absurd trivial h
  | advance =>
      rcases advance_cases with heq | ⟨_, -, heq⟩ <;> rw [heq]
      · exact SameFor.refl c s
      · exact { SameFor.refl c s with }
  | dispatch => exact absurd trivial h
  | connect conn =>
      have hne : c ≠ conn := fun hc => h hc.symm
      rcases connect_cases with heq | ⟨-, heq⟩ <;> rw [heq]
      · exact SameFor.refl c s
      · exact
          { SameFor.refl c s with
            client := LogSubscriptionManager.client_addClient.trans (if_neg hne)
            link := Function.update_of_ne hne _ _ }
  | close conn =>
      have hne : c ≠ conn := fun hc => h hc.symm
      rcases close_cases with heq | ⟨-, heq⟩ <;> rw [heq]
      · exact SameFor.refl c s
      · exact { SameFor.refl c s with link := Function.update_of_ne hne _ _ }
  | disconnect conn =>
      have hne : c ≠ conn := fun hc => h hc.symm
      rcases disconnect_cases with heq | ⟨-, -, heq⟩ <;> rw [heq]
      · exact SameFor.refl c s
      · exact sameFor_manager (LogSubscriptionManager.client_removeClient.trans (if_neg hne))
  | message conn msg =>
      rcases message_cases msg with heq | ⟨-, -, heq⟩ <;> rw [heq]
      · exact SameFor.refl c s
      · exact sameFor_setHandler (fun hc => h hc.symm) _
  | unsubscribe conn key =>
      have hne : c ≠ conn := fun hc => h hc.symm
      rcases unsubscribe_cases key with heq | ⟨-, -, heq⟩ <;> rw [heq]
      · exact SameFor.refl c s
      · exact sameFor_manager ((LogSubscriptionManager.client_unsubscribe key).trans (if_neg hne))
  | unsubscribeAll conn =>
      have hne : c ≠ conn := fun hc => h hc.symm
      rcases unsubscribeAll_cases with heq | ⟨-, -, heq⟩ <;> rw [heq]
      · exact SameFor.refl c s
      · exact sameFor_manager (LogSubscriptionManager.client_unsubscribeAll.trans (if_neg hne))
  | work conn => exact sameFor_work (fun hc => h hc.symm)

@[simp] theorem send_manager (msgs : List LogMessage) : (s.send conn msgs).manager = s.manager := by
  unfold send
  split <;> rfl

@[simp] theorem send_link (msgs : List LogMessage) : (s.send conn msgs).link = s.link := by
  unfold send
  split <;> rfl

theorem send_cursor (msgs : List LogMessage) : (s.send conn msgs).cursor = s.cursor := by
  unfold send
  split <;> rfl

/-- What a handler may do to the manager. -/
theorem work_manager : (s.work E conn).manager = s.manager ∨
    (∃ f : ClientState → ClientState, (s.work E conn).manager = s.manager.modifyClient conn f ∧
      ∀ st, (f st).subscriptions = st.subscriptions) ∨
    ∃ key, (s.work E conn).manager = (s.manager.subscribe conn key).2 := by
  unfold work
  split
  · exact Or.inl rfl
  · next msg currentTick _ =>
      unfold applyCursor
      cases hfield : msg.cursor with
      | lastLogId value => exact Or.inr (Or.inl ⟨_, rfl, fun _ => rfl⟩)
      | lastLogIdInvalid => exact Or.inr (Or.inl ⟨_, rfl, fun _ => rfl⟩)
      | lastTick value => exact Or.inr (Or.inl ⟨_, rfl, fun _ => rfl⟩)
      | lastTickInvalid => exact Or.inl rfl
      | absent => exact Or.inr (Or.inl ⟨_, rfl, fun _ => rfl⟩)
  · next useLogIdCatchUp msg _ =>
      unfold applyAmount
      cases hamount : msg.transferMinAmount with
      | none => exact Or.inl rfl
      | some amount => exact Or.inr (Or.inl ⟨_, rfl, fun _ => rfl⟩)
  · exact Or.inr (Or.inr ⟨_, rfl⟩)
  · exact Or.inl rfl
  · unfold enter
    split
    · exact Or.inl rfl
    · split
      · exact Or.inl rfl
      · exact Or.inr (Or.inl ⟨_, rfl, fun _ => rfl⟩)
  · unfold replay
    dsimp only
    split
    · exact Or.inl rfl
    · exact Or.inl (send_manager _)
  · exact Or.inr (Or.inl ⟨_, rfl, fun _ => rfl⟩)
  · unfold enterByLogId
    split
    · exact Or.inl rfl
    · split
      · exact Or.inl rfl
      · exact Or.inr (Or.inl ⟨_, rfl, fun _ => rfl⟩)
  · exact Or.inl (send_manager _)
  · exact Or.inr (Or.inl ⟨_, rfl, fun _ => rfl⟩)

/-- What the step of a handler leaves alone: the verifier's state, the queue and the connections. -/
structure OnlyHandled (s s' : StreamServer) : Prop where
  gCurrentVerifyLoggingTick : s'.gCurrentVerifyLoggingTick = s.gCurrentVerifyLoggingTick
  verifier : s'.verifier = s.verifier
  link : s'.link = s.link
  queue : s'.queue = s.queue
  acceptedEnd : s'.acceptedEnd = s.acceptedEnd
  pushedEnd : s'.pushedEnd = s.pushedEnd
  verified : s'.verified = s.verified

theorem onlyHandled_send (msgs : List LogMessage) : OnlyHandled s (s.send conn msgs) := by
  unfold send
  split <;> exact ⟨rfl, rfl, rfl, rfl, rfl, rfl, rfl⟩

theorem OnlyHandled.setHandler (h : OnlyHandled s s') (handler : Handler) :
    OnlyHandled s (s'.setHandler conn handler) :=
  ⟨h.gCurrentVerifyLoggingTick, h.verifier, h.link, h.queue, h.acceptedEnd, h.pushedEnd, h.verified⟩

theorem onlyHandled_work : OnlyHandled s (s.work E conn) := by
  unfold work
  split
  · exact ⟨rfl, rfl, rfl, rfl, rfl, rfl, rfl⟩
  · exact ⟨rfl, rfl, rfl, rfl, rfl, rfl, rfl⟩
  · exact ⟨rfl, rfl, rfl, rfl, rfl, rfl, rfl⟩
  · exact ⟨rfl, rfl, rfl, rfl, rfl, rfl, rfl⟩
  · exact ⟨rfl, rfl, rfl, rfl, rfl, rfl, rfl⟩
  · unfold enter
    split
    · exact ⟨rfl, rfl, rfl, rfl, rfl, rfl, rfl⟩
    · split <;> exact ⟨rfl, rfl, rfl, rfl, rfl, rfl, rfl⟩
  · unfold replay
    dsimp only
    split
    · exact ⟨rfl, rfl, rfl, rfl, rfl, rfl, rfl⟩
    · exact (onlyHandled_send _).setHandler _
  · exact ⟨rfl, rfl, rfl, rfl, rfl, rfl, rfl⟩
  · unfold enterByLogId
    split
    · exact ⟨rfl, rfl, rfl, rfl, rfl, rfl, rfl⟩
    · split <;> exact ⟨rfl, rfl, rfl, rfl, rfl, rfl, rfl⟩
  · exact (onlyHandled_send _).setHandler _
  · exact ⟨rfl, rfl, rfl, rfl, rfl, rfl, rfl⟩

@[simp] theorem work_link : (s.work E conn).link = s.link := onlyHandled_work.link

/-- Only the first lock of a message sets a cursor. -/
theorem work_cursor (h : ∀ msg currentTick, s.handler conn ≠ .settingCursor msg currentTick) :
    (s.work E conn).cursor = s.cursor := by
  unfold work
  split
  · rfl
  · next msg currentTick hphase => exact absurd hphase (h msg currentTick)
  · rfl
  · rfl
  · rfl
  · unfold enter
    split
    · rfl
    · split <;> rfl
  · unfold replay
    dsimp only
    split
    · rfl
    · exact send_cursor _
  · rfl
  · unfold enterByLogId
    split
    · rfl
    · split <;> rfl
  · exact send_cursor _
  · rfl

end frame

/-! ## Registered connections -/

/-- The index mirrors the clients; the clients are the connections that have been announced, and
before that a connection has not asked for anything. -/
structure Registered (s : StreamServer) : Prop where
  mirror : s.manager.Mirror
  fresh : ∀ c, s.link c = .fresh → s.manager.client c = none
  unasked : ∀ c, s.link c = .fresh → s.handler c = .idle ∧ s.cursor c = .unset
  connected : ∀ c, s.link c = .connected → ∃ st, s.manager.client c = some st

section registered

variable {E} {s s' : StreamServer} {conn : WsConn}

/-- A change of the manager that keeps who is registered. -/
theorem Registered.of_isSome (h : Registered s) (hm : s'.manager.Mirror) (hlink : s'.link = s.link)
    (hsome : ∀ c, (s'.manager.client c).isSome = (s.manager.client c).isSome)
    (hasked : ∀ c, s.link c = .fresh → s'.handler c = .idle ∧ s'.cursor c = .unset) :
    Registered s' where
  mirror := hm
  fresh c hc := by
    rw [hlink] at hc
    have hnone := hsome c
    rw [h.fresh c hc] at hnone
    simpa using hnone
  unasked c hc := by
    rw [hlink] at hc
    exact hasked c hc
  connected c hc := by
    rw [hlink] at hc
    obtain ⟨st, hst⟩ := h.connected c hc
    have hc' := hsome c
    rw [hst] at hc'
    exact Option.isSome_iff_exists.mp hc'

theorem Registered.same (h : Registered s) (hm : s'.manager = s.manager) (hlink : s'.link = s.link)
    (hhandler : s'.handler = s.handler) (hcursor : s'.cursor = s.cursor) : Registered s' := by
  refine h.of_isSome (by rw [hm]; exact h.mirror) hlink (fun c => by rw [hm]) (fun c hc => ?_)
  rw [hhandler, hcursor]
  exact h.unasked c hc

theorem OnlyStored.registered (hs : OnlyStored s s') (h : Registered s) : Registered s' :=
  h.same hs.manager hs.link hs.handler hs.cursor

theorem isSome_ite_map {c : WsConn} {o : Option ClientState} {f : ClientState → ClientState} :
    (if c = conn then o.map f else o).isSome = o.isSome := by
  split
  · exact Option.isSome_map
  · rfl

theorem Registered.work (h : Registered s) : Registered (s.work E conn) := by
  have hasked : ∀ c, s.link c = .fresh →
      (s.work E conn).handler c = .idle ∧ (s.work E conn).cursor c = .unset := by
    intro c hc
    obtain ⟨hidle, hunset⟩ := h.unasked c hc
    by_cases hcc : c = conn
    · -- a handler that has not been given a message does nothing
      have hwork : s.work E conn = s := by rw [StreamServer.work, ← hcc, hidle]
      rw [hwork]
      exact ⟨hidle, hunset⟩
    · have hsame := @sameFor_work E s c conn hcc
      rw [hsame.handler, hsame.cursor]
      exact ⟨hidle, hunset⟩
  rcases @work_manager E s conn with hm | ⟨f, hm, hf⟩ | ⟨key, hm⟩
  · exact h.of_isSome (by rw [hm]; exact h.mirror) work_link (fun c => by rw [hm]) hasked
  · refine h.of_isSome (by rw [hm]; exact h.mirror.modifyClient hf) work_link (fun c => ?_) hasked
    rw [hm, LogSubscriptionManager.client_modifyClient, isSome_ite_map]
  · refine h.of_isSome (by rw [hm]; exact h.mirror.subscribe key) work_link (fun c => ?_) hasked
    rw [hm, LogSubscriptionManager.client_subscribe, isSome_ite_map]

theorem Registered.connect (h : Registered s) (hfresh : s.link conn = .fresh) :
    Registered { s with
      manager := s.manager.addClient conn
      link := Function.update s.link conn .connected } := by
  have hclient := fun c => @LogSubscriptionManager.client_addClient s.manager conn c
  have hlink : ∀ c, Function.update s.link conn .connected c = .fresh → c ≠ conn ∧ s.link c = .fresh := by
    intro c hc
    by_cases hcc : c = conn
    · rw [hcc, Function.update_self] at hc
      cases hc
    · rw [Function.update_of_ne hcc] at hc
      exact ⟨hcc, hc⟩
  refine ⟨h.mirror.addClient (h.fresh conn hfresh), fun c hc => ?_, fun c hc => ?_, fun c hc => ?_⟩
  · obtain ⟨hcc, hc⟩ := hlink c hc
    exact (hclient c).trans ((if_neg hcc).trans (h.fresh c hc))
  · exact h.unasked c (hlink c hc).2
  · by_cases hcc : c = conn
    · exact ⟨{}, (hclient c).trans (if_pos hcc)⟩
    · simp only [Function.update_of_ne hcc] at hc
      obtain ⟨st, hst⟩ := h.connected c hc
      exact ⟨st, (hclient c).trans ((if_neg hcc).trans hst)⟩

theorem Registered.close (h : Registered s) :
    Registered { s with link := Function.update s.link conn .closed } := by
  have hlink : ∀ c l, l ≠ .closed → Function.update s.link conn .closed c = l → s.link c = l := by
    intro c l hl hc
    by_cases hcc : c = conn
    · rw [hcc, Function.update_self] at hc
      exact absurd hc.symm hl
    · rwa [Function.update_of_ne hcc] at hc
  exact
    { mirror := h.mirror
      fresh := fun c hc => h.fresh c (hlink c _ (by decide) hc)
      unasked := fun c hc => h.unasked c (hlink c _ (by decide) hc)
      connected := fun c hc => h.connected c (hlink c _ (by decide) hc) }

theorem Registered.disconnect (h : Registered s) (hclosed : s.link conn = .closed) :
    Registered { s with manager := s.manager.removeClient conn } := by
  have hclient := fun c => @LogSubscriptionManager.client_removeClient s.manager conn c
  refine ⟨h.mirror.removeClient, fun c hc => ?_, h.unasked, fun c hc => ?_⟩
  · rw [hclient c]
    split
    · rfl
    · exact h.fresh c hc
  · have hcc : c ≠ conn := by
      rintro rfl
      exact absurd (hclosed.symm.trans hc) (by decide)
    obtain ⟨st, hst⟩ := h.connected c hc
    exact ⟨st, (hclient c).trans ((if_neg hcc).trans hst)⟩

theorem Registered.message (h : Registered s) (hlink : s.link conn = .connected)
    (handler : Handler) : Registered (s.setHandler conn handler) := by
  refine h.of_isSome h.mirror rfl (fun _ => rfl) (fun c hc => ?_)
  have hcc : c ≠ conn := by
    rintro rfl
    exact absurd (hlink.symm.trans hc) (by decide)
  exact ⟨(Function.update_of_ne hcc _ _).trans (h.unasked c hc).1, (h.unasked c hc).2⟩

theorem registered_step (st : StreamStep) (h : Registered s) : Registered (s.step E st) := by
  cases st with
  | chunk events => exact (onlyStored_chunk events).registered h
  | updateLatest i => exact (onlyStored_updateLatest i).registered h
  | logRange tick range => exact (onlyStored_logRange tick range).registered h
  | fetchBatch processToTick =>
      rcases fetchBatch_cases processToTick with heq | ⟨-, -, -, heq⟩ <;> rw [heq]
      · exact h
      · exact h.same rfl rfl rfl rfl
  | accept =>
      rcases accept_cases with heq | ⟨_, _, -, heq⟩ <;> rw [heq]
      · exact h
      · unfold acceptBatch
        split
        · exact h.same rfl rfl rfl rfl
        · exact h.same rfl rfl rfl rfl
  | push =>
      rcases push_cases with heq | ⟨_, _, _, _, -, heq⟩ <;> rw [heq]
      · exact h
      · exact h.same rfl rfl rfl rfl
  | advance =>
      rcases advance_cases with heq | ⟨_, -, heq⟩ <;> rw [heq]
      · exact h
      · exact h.same rfl rfl rfl rfl
  | dispatch =>
      rcases dispatch_cases with heq | ⟨_, _, -, heq⟩ <;> rw [heq]
      · exact h
      · unfold send
        split
        · exact h.same rfl rfl rfl rfl
        · exact h.same rfl rfl rfl rfl
  | connect conn =>
      rcases connect_cases with heq | ⟨hfresh, heq⟩ <;> rw [heq]
      · exact h
      · exact h.connect hfresh
  | close conn =>
      rcases close_cases with heq | ⟨-, heq⟩ <;> rw [heq]
      · exact h
      · exact h.close
  | disconnect conn =>
      rcases disconnect_cases with heq | ⟨hclosed, -, heq⟩ <;> rw [heq]
      · exact h
      · exact h.disconnect hclosed
  | message conn msg =>
      rcases message_cases msg with heq | ⟨hlink, -, heq⟩ <;> rw [heq]
      · exact h
      · exact h.message hlink _
  | unsubscribe conn key =>
      rcases unsubscribe_cases key with heq | ⟨-, -, heq⟩ <;> rw [heq]
      · exact h
      · refine h.of_isSome (h.mirror.unsubscribe key) rfl (fun c => ?_) h.unasked
        rw [LogSubscriptionManager.client_unsubscribe, isSome_ite_map]
  | unsubscribeAll conn =>
      rcases unsubscribeAll_cases with heq | ⟨-, -, heq⟩ <;> rw [heq]
      · exact h
      · refine h.of_isSome h.mirror.unsubscribeAll rfl (fun c => ?_) h.unasked
        rw [LogSubscriptionManager.client_unsubscribeAll, isSome_ite_map]
  | work conn => exact h.work

theorem registered_start (db : LogDB) (latestLogId : Int) (tick : Nat) :
    Registered (start db latestLogId tick) where
  mirror := LogSubscriptionManager.mirror_empty
  fresh _ _ := rfl
  unasked _ _ := ⟨rfl, rfl⟩
  connected _ hc := nomatch hc

end registered

/-! ## The verifier's own state -/

/-- Nothing that the verifier works on is different. -/
structure SameVerifier (s s' : StreamServer) : Prop where
  verifier : s'.verifier = s.verifier
  verified : s'.verified = s.verified
  gCurrentVerifyLoggingTick : s'.gCurrentVerifyLoggingTick = s.gCurrentVerifyLoggingTick
  pushedEnd : s'.pushedEnd = s.pushedEnd

section verifier

variable {E} {s s' : StreamServer} {conn : WsConn}

theorem OnlyStored.sameVerifier (h : OnlyStored s s') : SameVerifier s s' :=
  ⟨h.verifier, h.verified, h.gCurrentVerifyLoggingTick, h.pushedEnd⟩

theorem OnlyHandled.sameVerifier (h : OnlyHandled s s') : SameVerifier s s' :=
  ⟨h.verifier, h.verified, h.gCurrentVerifyLoggingTick, h.pushedEnd⟩

/-- The steps the verifier makes. -/
def ofVerifier : StreamStep → Bool
  | .fetchBatch _ | .accept | .push | .advance => true
  | _ => false

theorem sameVerifier_step {st : StreamStep} (h : ofVerifier st = false) :
    SameVerifier s (s.step E st) := by
  cases st with
  | chunk events => exact (onlyStored_chunk events).sameVerifier
  | updateLatest i => exact (onlyStored_updateLatest i).sameVerifier
  | logRange tick range => exact (onlyStored_logRange tick range).sameVerifier
  | fetchBatch processToTick => cases h
  | accept => cases h
  | push => cases h
  | advance => cases h
  | dispatch =>
      rcases dispatch_cases with heq | ⟨msg, queue, -, heq⟩ <;> rw [heq]
      · exact ⟨rfl, rfl, rfl, rfl⟩
      · have hsend := @onlyHandled_send { s with queue := queue } msg.conn [msg]
        exact ⟨hsend.verifier, hsend.verified, hsend.gCurrentVerifyLoggingTick, hsend.pushedEnd⟩
  | connect conn =>
      rcases connect_cases with heq | ⟨-, heq⟩ <;> rw [heq] <;> exact ⟨rfl, rfl, rfl, rfl⟩
  | close conn =>
      rcases close_cases with heq | ⟨-, heq⟩ <;> rw [heq] <;> exact ⟨rfl, rfl, rfl, rfl⟩
  | disconnect conn =>
      rcases disconnect_cases with heq | ⟨-, -, heq⟩ <;> rw [heq] <;> exact ⟨rfl, rfl, rfl, rfl⟩
  | message conn msg =>
      rcases message_cases msg with heq | ⟨-, -, heq⟩ <;> rw [heq] <;> exact ⟨rfl, rfl, rfl, rfl⟩
  | unsubscribe conn key =>
      rcases unsubscribe_cases key with heq | ⟨-, -, heq⟩ <;> rw [heq] <;>
        exact ⟨rfl, rfl, rfl, rfl⟩
  | unsubscribeAll conn =>
      rcases unsubscribeAll_cases with heq | ⟨-, -, heq⟩ <;> rw [heq] <;>
        exact ⟨rfl, rfl, rfl, rfl⟩
  | work conn => exact onlyHandled_work.sameVerifier

theorem ticked_step (st : StreamStep) (h : s.verifier.Ticked) :
    (s.step E st).verifier.Ticked := by
  cases hst : ofVerifier st with
  | false =>
      rw [(sameVerifier_step hst).verifier]
      exact h
  | true =>
      cases st with
      | fetchBatch processToTick =>
          rcases fetchBatch_cases processToTick with heq | ⟨-, -, -, heq⟩ <;> rw [heq]
          · exact h
          · trivial
      | accept =>
          rcases accept_cases with heq | ⟨processToTick, vle, -, heq⟩ <;> rw [heq]
          · exact h
          · unfold acceptBatch
            split
            · exact groupByTick_tick vle
            · exact fun _ hg => absurd hg List.not_mem_nil
      | push =>
          rcases push_cases with heq | ⟨_, _, _, _, hphase, heq⟩ <;> rw [heq]
          · exact h
          · rw [hphase] at h
            exact fun group hg => h group (List.mem_cons_of_mem _ hg)
      | advance =>
          rcases advance_cases with heq | ⟨_, -, heq⟩ <;> rw [heq]
          · exact h
          · trivial
      | _ => cases hst

end verifier

/-! ## A small epoch -/

/-- An event of tick `tick` with log id `id`. -/
def streamLog (tick : BitVec 32) (id : BitVec 64) : LogEvent :=
  LogEvent.pack 1 tick SPECTRUM_STATS id 0 (List.replicate 8 0)

/-- Epoch 1, which begins at tick 5, with a hash that is 0 everywhere. -/
def streamEnv : StreamEnv := ⟨⟨fun _ => 0, fun _ => 0⟩, 1, 5⟩

def streamKey : SubscriptionKey := ⟨0, BitVec.ofNat 32 SPECTRUM_STATS⟩

/-- An empty KeyDB and an empty Kvrocks. -/
def noLogs : LogDB := LogDB.ofRanges (fun _ => none)

theorem oneLog_wf (id : BitVec 32) : ((id.toNat : Int) = -1 ∧ (1 : Int) = -1) ∨
    (0 ≤ (id.toNat : Int) ∧ (0 : Int) ≤ 1 ∧ (id.toNat : Int) + 1 < LLONG_MAX) := by
  have hlt := id.isLt
  unfold LLONG_MAX
  omega

/-- The range of a tick with one log. -/
def oneLog (id : BitVec 32) : TickLogRange := ⟨id.toNat, 1, oneLog_wf id⟩

/-- Connection 1 subscribes to the events, from after the given cursor, and its handler makes `n`
steps. -/
def subscribeSteps (cursor : CursorField) (n : Nat) : List StreamStep :=
  .message 1 ⟨cursor, none, some [streamKey]⟩ :: List.replicate n (.work 1)

/-- Tick 5 is verified, a client asks for what comes after tick 4 and is sent it, and tick 6 is
verified and pushed to it. -/
def replayedThenPushed : List StreamStep :=
  ([.chunk [streamLog 5 1, streamLog 6 2], .updateLatest 0, .logRange 5 (oneLog 1),
    .logRange 6 (oneLog 2), .fetchBatch 5, .accept, .advance, .connect 1] : List StreamStep) ++
    subscribeSteps (.lastTick 4) 7 ++
    ([.fetchBatch 6, .accept, .push, .dispatch, .advance] : List StreamStep)

end StreamServer

end QubicBob
