import QubicBob.Basic.LogEvent
import QubicBob.Lib.MultiMap
import QubicBob.Lib.Runs

set_option autoImplicit false

/-! # Subscriptions to the log stream

`LogSubscriptionManager`: the state of each WebSocket client and, in the other direction, the set of
connections subscribed to each key. Three places select the logs a client gets: the live push goes
from a log's key to its subscribers, the two replays go from the client's own keys.

The two directions are compared through one statement, `Mirror`: a connection is in the set of a key
exactly when the key is in the client's list. Every operation changes the client's list and the
index by the same key, or by all keys of the client's list when it goes, so what an operation does
to the clients (`client_subscribe` and its like) gives both sides. With `Mirror` the live push can
be read from the client's side too, and then it differs from the replays in the client's flags and
in the minimum amount alone. The amount is the one a replay never looks at: the three select the
same logs of a list exactly when no transfer in it is below the amount.
-/

namespace QubicBob

/-- A `WebSocketConnectionPtr`. -/
abbrev WsConn := Nat

structure SubscriptionKey where
  scIndex : BitVec 32
  logType : BitVec 32
  deriving DecidableEq, Repr

/-- Per-client state; `lastLogId` is `-1` when it is not set, `transferMinAmount` is 0 when there is
no filter. -/
structure ClientState where
  subscriptions : List SubscriptionKey := []
  lastTick : Nat := 0
  lastLogId : Int := -1
  catchUpInProgress : Bool := false
  transferMinAmount : Int := 0
  deriving DecidableEq, Repr

structure LogSubscriptionManager where
  clients_ : AList (fun _ : WsConn => ClientState)
  subscriptionIndex_ : MultiMap SubscriptionKey WsConn

/-- A message of type `log`. -/
structure LogMessage where
  conn : WsConn
  key : SubscriptionKey
  isCatchUp : Bool
  log : LogEvent
  deriving DecidableEq, Repr

/-- Smart contract messages carry their key in the body, and only custom events of 100000 and above
are streamed. -/
def extractSubscriptionKey (log : LogEvent) : Option SubscriptionKey :=
  let type := log.getType
  if type = CONTRACT_ERROR_MESSAGE ∨ type = CONTRACT_WARNING_MESSAGE ∨
      type = CONTRACT_INFORMATION_MESSAGE ∨ type = CONTRACT_DEBUG_MESSAGE then
    if 8 ≤ log.getLogSize then
      let key : SubscriptionKey := ⟨log.field 0 4, log.field 4 4⟩
      if 100000 ≤ key.logType.toNat then some key else none
    else none
  else some ⟨0, BitVec.ofNat 32 type⟩

/-! ## Operations -/

namespace LogSubscriptionManager

def empty : LogSubscriptionManager := ⟨∅, ∅⟩

def client (m : LogSubscriptionManager) (conn : WsConn) : Option ClientState :=
  m.clients_.lookup conn

def subscribers (m : LogSubscriptionManager) (key : SubscriptionKey) : List WsConn :=
  m.subscriptionIndex_.members key

def addClient (m : LogSubscriptionManager) (conn : WsConn) : LogSubscriptionManager :=
  { m with clients_ := m.clients_.insert conn {} }

def removeClient (m : LogSubscriptionManager) (conn : WsConn) : LogSubscriptionManager :=
  match m.client conn with
  | none => m
  | some st =>
      { clients_ := m.clients_.erase conn
        subscriptionIndex_ :=
          st.subscriptions.foldl (fun idx key => idx.remove conn key) m.subscriptionIndex_ }

/-- The common part of the setters: nothing happens for a connection that is not registered. -/
def modifyClient (m : LogSubscriptionManager) (conn : WsConn) (f : ClientState → ClientState) :
    LogSubscriptionManager :=
  match m.client conn with
  | none => m
  | some st => { m with clients_ := m.clients_.insert conn (f st) }

def setClientLastTick (m : LogSubscriptionManager) (conn : WsConn) (lastTick : Nat) :
    LogSubscriptionManager :=
  -- Clear log ID when tick is set
  m.modifyClient conn (fun st => { st with lastTick := lastTick, lastLogId := -1 })

def setClientLastLogId (m : LogSubscriptionManager) (conn : WsConn) (lastLogId : Int) :
    LogSubscriptionManager :=
  m.modifyClient conn (fun st => { st with lastLogId := lastLogId })

def setClientTransferMinAmount (m : LogSubscriptionManager) (conn : WsConn) (minAmount : Int) :
    LogSubscriptionManager :=
  m.modifyClient conn (fun st => { st with transferMinAmount := minAmount })

/-- The first lock of a replay, when it goes on. -/
def beginCatchUp (m : LogSubscriptionManager) (conn : WsConn) : LogSubscriptionManager :=
  m.modifyClient conn (fun st => { st with catchUpInProgress := true })

/-- The last lock of `performCatchUp`, which is also that of a client already up to date. -/
def completeCatchUp (m : LogSubscriptionManager) (conn : WsConn) (toTick : Nat) :
    LogSubscriptionManager :=
  m.modifyClient conn (fun st => { st with catchUpInProgress := false, lastTick := toTick })

def completeCatchUpByLogId (m : LogSubscriptionManager) (conn : WsConn) (toLogId : Int) :
    LogSubscriptionManager :=
  m.modifyClient conn (fun st => { st with catchUpInProgress := false, lastLogId := toLogId })

def subscribe (m : LogSubscriptionManager) (conn : WsConn) (key : SubscriptionKey) :
    Bool × LogSubscriptionManager :=
  match m.client conn with
  | none => (false, m)
  | some st =>
      -- already subscribed
      if key ∈ st.subscriptions then (true, m)
      else (true,
        { clients_ := m.clients_.insert conn { st with subscriptions := key :: st.subscriptions }
          subscriptionIndex_ := m.subscriptionIndex_.add key conn })

def unsubscribe (m : LogSubscriptionManager) (conn : WsConn) (key : SubscriptionKey) :
    Bool × LogSubscriptionManager :=
  match m.client conn with
  | none => (false, m)
  | some st =>
      if key ∈ st.subscriptions then (true,
        { clients_ :=
            m.clients_.insert conn { st with subscriptions := st.subscriptions.filter (· ≠ key) }
          subscriptionIndex_ := m.subscriptionIndex_.remove conn key })
      else (false, m)

def unsubscribeAll (m : LogSubscriptionManager) (conn : WsConn) : LogSubscriptionManager :=
  match m.client conn with
  | none => m
  | some st =>
      { clients_ := m.clients_.insert conn { st with subscriptions := [] }
        subscriptionIndex_ :=
          st.subscriptions.foldl (fun idx key => idx.remove conn key) m.subscriptionIndex_ }

def getClientCount (m : LogSubscriptionManager) : Nat := m.clients_.entries.length

end LogSubscriptionManager

/-! ## Selection -/

/-- A transfer below the client's minimum amount. -/
def ClientState.belowMinAmount (st : ClientState) (log : LogEvent) : Bool :=
  decide (log.getType = QU_TRANSFER ∧ 0 < st.transferMinAmount ∧
    log.quTransfer.amount.toInt < st.transferMinAmount)

/-- Why the live push passes a subscriber over. -/
def ClientState.skips (st : ClientState) (tick : Nat) (log : LogEvent) : Bool :=
  st.catchUpInProgress
    -- client is ahead of system
    || decide (tick ≤ st.lastTick)
    || decide (0 ≤ st.lastLogId ∧ (log.getLogId : Int) ≤ st.lastLogId)
    || st.belowMinAmount log

theorem ClientState.skips_eq_false_iff {st : ClientState} {tick : Nat} {log : LogEvent} :
    st.skips tick log = false ↔ st.catchUpInProgress = false ∧ st.lastTick < tick ∧
      (0 ≤ st.lastLogId → st.lastLogId < log.getLogId) ∧ st.belowMinAmount log = false := by
  unfold skips
  rw [Bool.or_eq_false_iff, Bool.or_eq_false_iff, Bool.or_eq_false_iff, decide_eq_false_iff_not,
    decide_eq_false_iff_not, not_le, not_and, and_assoc, and_assoc]
  simp only [not_le]

/-- The messages for one log. A connection that is in the index but not registered gets it. -/
def LogSubscriptionManager.pushLog (m : LogSubscriptionManager) (tick : Nat) (log : LogEvent) :
    List LogMessage :=
  match extractSubscriptionKey log with
  | none => []
  | some key =>
      ((m.subscribers key).filter (fun conn =>
        match m.client conn with
        | none => true
        | some st => !st.skips tick log)).map (fun conn => ⟨conn, key, false, log⟩)

/-- The sends that are collected under the lock. -/
def LogSubscriptionManager.pushVerifiedLogs (m : LogSubscriptionManager) (tick : Nat)
    (logs : List LogEvent) : List LogMessage :=
  if m.clients_.entries.isEmpty || m.subscriptionIndex_.entries.isEmpty then []
  else logs.flatMap (m.pushLog tick)

/-- The log is of one of the keys. -/
def subscribedTo (subscriptions : List SubscriptionKey) (log : LogEvent) : Bool :=
  match extractSubscriptionKey log with
  | none => false
  | some key => key ∈ subscriptions

def ClientState.subscribed (st : ClientState) (log : LogEvent) : Bool :=
  subscribedTo st.subscriptions log

/-- The body of both replay loops: the logs of a key the client is subscribed to. -/
def catchUpSends (conn : WsConn) (subscriptions : List SubscriptionKey) (logs : List LogEvent) :
    List LogMessage :=
  logs.filterMap (fun log =>
    match extractSubscriptionKey log with
    | none => none
    | some key => if key ∈ subscriptions then some ⟨conn, key, true, log⟩ else none)

def performCatchUpSends (conn : WsConn) (subscriptions : List SubscriptionKey)
    (logs : List LogEvent) : List LogMessage :=
  catchUpSends conn subscriptions logs

def performCatchUpByLogIdSends (conn : WsConn) (subscriptions : List SubscriptionKey)
    (logs : List LogEvent) : List LogMessage :=
  catchUpSends conn subscriptions logs

/-! ## The two directions agree -/

namespace LogSubscriptionManager

/-- The keys a connection is subscribed to. -/
def keysOf (m : LogSubscriptionManager) (conn : WsConn) : List SubscriptionKey :=
  ((m.client conn).map ClientState.subscriptions).getD []

structure Mirror (m : LogSubscriptionManager) : Prop where
  wf : m.subscriptionIndex_.WellFormed
  mem_iff : ∀ conn key, conn ∈ m.subscribers key ↔ key ∈ m.keysOf conn

section operations

variable {m : LogSubscriptionManager} {conn c : WsConn}

theorem keysOf_eq {st : ClientState} (h : m.client conn = some st) :
    m.keysOf conn = st.subscriptions := by
  rw [keysOf, h, Option.map_some, Option.getD_some]

theorem client_insert (st : ClientState) :
    AList.lookup c (m.clients_.insert conn st) = if c = conn then some st else m.client c := by
  split
  · next h => rw [h, AList.lookup_insert]
  · next h => rw [AList.lookup_insert_ne h, client]

/-- What an operation that applies `f` to a registered client leaves: for a connection that is not
registered nothing happens, for one that is its new state is inserted. -/
theorem client_of_none (h : m.client conn = none) (f : ClientState → ClientState) :
    m.client c = if c = conn then (m.client c).map f else m.client c := by
  by_cases hc : c = conn
  · rw [if_pos hc, hc, h, Option.map_none]
  · rw [if_neg hc]

theorem client_of_some {st : ClientState} (h : m.client conn = some st)
    (f : ClientState → ClientState) :
    AList.lookup c (m.clients_.insert conn (f st)) =
      if c = conn then (m.client c).map f else m.client c := by
  rw [client_insert]
  by_cases hc : c = conn
  · rw [if_pos hc, if_pos hc, hc, h, Option.map_some]
  · rw [if_neg hc, if_neg hc]

theorem client_addClient : (m.addClient conn).client c = if c = conn then some {} else m.client c :=
  client_insert {}

theorem client_removeClient :
    (m.removeClient conn).client c = if c = conn then none else m.client c := by
  unfold removeClient
  cases h : m.client conn with
  | none =>
      by_cases hc : c = conn
      · rw [if_pos hc, hc]
        exact h
      · rw [if_neg hc]
  | some st =>
      change AList.lookup c (m.clients_.erase conn) = _
      by_cases hc : c = conn
      · rw [if_pos hc, hc, AList.lookup_erase]
      · rw [if_neg hc, AList.lookup_erase_ne hc, client]

theorem client_modifyClient (f : ClientState → ClientState) :
    (m.modifyClient conn f).client c = if c = conn then (m.client c).map f else m.client c := by
  unfold modifyClient
  cases h : m.client conn with
  | none => exact client_of_none h f
  | some st => exact client_of_some h f

theorem client_subscribe (key : SubscriptionKey) :
    (m.subscribe conn key).2.client c =
      if c = conn then
        (m.client c).map (fun st => { st with subscriptions := st.subscriptions.insert key })
      else m.client c := by
  unfold subscribe
  cases h : m.client conn with
  | none => exact client_of_none h _
  | some st =>
      have hsome := client_of_some (c := c) h
        (fun st => { st with subscriptions := st.subscriptions.insert key })
      rw [← hsome]
      dsimp only
      by_cases hkey : key ∈ st.subscriptions
      · rw [if_pos hkey, List.insert_of_mem hkey, client_insert]
        by_cases hc : c = conn
        · rw [if_pos hc, hc]
          exact h
        · rw [if_neg hc]
      · rw [if_neg hkey, List.insert_of_not_mem hkey]
        rfl

theorem client_unsubscribe (key : SubscriptionKey) :
    (m.unsubscribe conn key).2.client c =
      if c = conn then
        (m.client c).map (fun st => { st with subscriptions := st.subscriptions.filter (· ≠ key) })
      else m.client c := by
  unfold unsubscribe
  cases h : m.client conn with
  | none => exact client_of_none h _
  | some st =>
      have hsome := client_of_some (c := c) h
        (fun st => { st with subscriptions := st.subscriptions.filter (· ≠ key) })
      rw [← hsome]
      dsimp only
      by_cases hkey : key ∈ st.subscriptions
      · rw [if_pos hkey]
        rfl
      · have hfilter : st.subscriptions.filter (· ≠ key) = st.subscriptions := by
          refine List.filter_eq_self.mpr (fun k hk => decide_eq_true ?_)
          rintro rfl
          exact hkey hk
        rw [if_neg hkey, hfilter, client_insert]
        by_cases hc : c = conn
        · rw [if_pos hc, hc]
          exact h
        · rw [if_neg hc]

theorem client_unsubscribeAll :
    (m.unsubscribeAll conn).client c =
      if c = conn then (m.client c).map (fun st => { st with subscriptions := [] })
      else m.client c := by
  unfold unsubscribeAll
  cases h : m.client conn with
  | none => exact client_of_none h _
  | some st => exact client_of_some h (fun st => { st with subscriptions := [] })

theorem keysOf_of_none (h : m.client conn = none) : m.keysOf conn = [] := by
  rw [keysOf, h, Option.map_none, Option.getD_none]

/-- A connection in the index is registered. -/
theorem Mirror.registered (h : m.Mirror) {key : SubscriptionKey} (hc : conn ∈ m.subscribers key) :
    ∃ st, m.client conn = some st ∧ key ∈ st.subscriptions := by
  rw [h.mem_iff] at hc
  cases hst : m.client conn with
  | none =>
      rw [keysOf_of_none hst] at hc
      exact absurd hc List.not_mem_nil
  | some st => exact ⟨st, rfl, by rwa [keysOf_eq hst] at hc⟩

theorem mirror_empty : Mirror empty where
  wf := MultiMap.wellFormed_empty
  mem_iff conn key := by
    change conn ∈ MultiMap.members ∅ key ↔ key ∈ keysOf empty conn
    rw [keysOf_of_none rfl]
    simp [MultiMap.members]

theorem Mirror.modifyClient (h : m.Mirror) {f : ClientState → ClientState}
    (hf : ∀ st, (f st).subscriptions = st.subscriptions) : (m.modifyClient conn f).Mirror := by
  have hidx : (m.modifyClient conn f).subscriptionIndex_ = m.subscriptionIndex_ := by
    unfold LogSubscriptionManager.modifyClient
    cases m.client conn <;> rfl
  refine ⟨by rw [hidx]; exact h.wf, fun c key => ?_⟩
  have hkeys : (m.modifyClient conn f).keysOf c = m.keysOf c := by
    rw [keysOf, keysOf, client_modifyClient]
    by_cases hc : c = conn
    · rw [if_pos hc, Option.map_map]
      congr 2
      exact funext hf
    · rw [if_neg hc]
  rw [subscribers, hidx, hkeys]
  exact h.mem_iff c key

theorem Mirror.addClient (h : m.Mirror) (hfresh : m.client conn = none) :
    (m.addClient conn).Mirror := by
  refine ⟨h.wf, fun c key => ?_⟩
  have hkeys : (m.addClient conn).keysOf c = m.keysOf c := by
    rw [keysOf, client_addClient]
    by_cases hc : c = conn
    · rw [if_pos hc, hc, keysOf_of_none hfresh]
      rfl
    · rw [if_neg hc, keysOf]
  rw [hkeys]
  exact h.mem_iff c key

/-- The index after the keys of a connection are taken out of it. -/
theorem Mirror.mem_foldl_remove (h : m.Mirror) {st : ClientState} (hst : m.client conn = some st)
    (key : SubscriptionKey) :
    c ∈ (st.subscriptions.foldl (fun idx k => MultiMap.remove idx conn k)
        m.subscriptionIndex_).members key ↔ c ≠ conn ∧ key ∈ m.keysOf c := by
  rw [MultiMap.mem_members_foldl_remove h.wf]
  have hmem := h.mem_iff c key
  rw [subscribers] at hmem
  rw [hmem]
  constructor
  · rintro ⟨hkey, hnot⟩
    refine ⟨fun hc => hnot ⟨?_, hc⟩, hkey⟩
    rwa [hc, keysOf_eq hst] at hkey
  · rintro ⟨hc, hkey⟩
    exact ⟨hkey, fun h => hc h.2⟩

theorem Mirror.removeClient (h : m.Mirror) : (m.removeClient conn).Mirror := by
  have hclient := fun c => @client_removeClient m conn c
  unfold LogSubscriptionManager.removeClient at hclient ⊢
  cases hst : m.client conn with
  | none => exact h
  | some st =>
      rw [hst] at hclient
      refine ⟨h.wf.foldl_remove conn st.subscriptions, fun c key => ?_⟩
      refine (h.mem_foldl_remove hst key).trans ?_
      rw [keysOf, keysOf, hclient c]
      by_cases hc : c = conn
      · rw [if_pos hc]
        simp [hc]
      · rw [if_neg hc]
        simp [hc]

theorem Mirror.unsubscribeAll (h : m.Mirror) : (m.unsubscribeAll conn).Mirror := by
  have hclient := fun c => @client_unsubscribeAll m conn c
  unfold LogSubscriptionManager.unsubscribeAll at hclient ⊢
  cases hst : m.client conn with
  | none => exact h
  | some st =>
      rw [hst] at hclient
      refine ⟨h.wf.foldl_remove conn st.subscriptions, fun c key => ?_⟩
      refine (h.mem_foldl_remove hst key).trans ?_
      rw [keysOf, keysOf, hclient c]
      by_cases hc : c = conn
      · rw [if_pos hc, hc, hst]
        simp
      · rw [if_neg hc]
        simp [hc]

theorem Mirror.subscribe (h : m.Mirror) (key : SubscriptionKey) :
    (m.subscribe conn key).2.Mirror := by
  have hclient := fun c => @client_subscribe m conn c key
  unfold LogSubscriptionManager.subscribe at hclient ⊢
  cases hst : m.client conn with
  | none => exact h
  | some st =>
      rw [hst] at hclient
      dsimp only at hclient ⊢
      by_cases hkey : key ∈ st.subscriptions
      · rw [if_pos hkey]
        exact h
      · rw [if_neg hkey] at hclient ⊢
        refine ⟨h.wf.add key conn, fun c k => ?_⟩
        refine MultiMap.mem_members_add.trans ?_
        have hmem := h.mem_iff c k
        rw [subscribers] at hmem
        rw [hmem, keysOf, keysOf, hclient c]
        by_cases hc : c = conn
        · rw [if_pos hc, hc, hst]
          simp
        · rw [if_neg hc]
          simp [hc]

theorem Mirror.unsubscribe (h : m.Mirror) (key : SubscriptionKey) :
    (m.unsubscribe conn key).2.Mirror := by
  have hclient := fun c => @client_unsubscribe m conn c key
  unfold LogSubscriptionManager.unsubscribe at hclient ⊢
  cases hst : m.client conn with
  | none => exact h
  | some st =>
      rw [hst] at hclient
      dsimp only at hclient ⊢
      by_cases hkey : key ∈ st.subscriptions
      · rw [if_pos hkey] at hclient ⊢
        refine ⟨h.wf.remove conn key, fun c k => ?_⟩
        refine (MultiMap.mem_members_remove h.wf).trans ?_
        have hmem := h.mem_iff c k
        rw [subscribers] at hmem
        rw [hmem, keysOf, keysOf, hclient c]
        by_cases hc : c = conn
        · rw [if_pos hc, hc, hst]
          simp
        · rw [if_neg hc]
          simp [hc]
      · rw [if_neg hkey]
        exact h

end operations

/-- The calls that change the manager. -/
inductive Call where
  | addClient (conn : WsConn)
  | removeClient (conn : WsConn)
  | setClientLastTick (conn : WsConn) (lastTick : Nat)
  | setClientLastLogId (conn : WsConn) (lastLogId : Int)
  | setClientTransferMinAmount (conn : WsConn) (minAmount : Int)
  | beginCatchUp (conn : WsConn)
  | completeCatchUp (conn : WsConn) (toTick : Nat)
  | completeCatchUpByLogId (conn : WsConn) (toLogId : Int)
  | subscribe (conn : WsConn) (key : SubscriptionKey)
  | unsubscribe (conn : WsConn) (key : SubscriptionKey)
  | unsubscribeAll (conn : WsConn)

def apply (m : LogSubscriptionManager) : Call → LogSubscriptionManager
  | .addClient conn => m.addClient conn
  | .removeClient conn => m.removeClient conn
  | .setClientLastTick conn lastTick => m.setClientLastTick conn lastTick
  | .setClientLastLogId conn lastLogId => m.setClientLastLogId conn lastLogId
  | .setClientTransferMinAmount conn minAmount => m.setClientTransferMinAmount conn minAmount
  | .beginCatchUp conn => m.beginCatchUp conn
  | .completeCatchUp conn toTick => m.completeCatchUp conn toTick
  | .completeCatchUpByLogId conn toLogId => m.completeCatchUpByLogId conn toLogId
  | .subscribe conn key => (m.subscribe conn key).2
  | .unsubscribe conn key => (m.unsubscribe conn key).2
  | .unsubscribeAll conn => m.unsubscribeAll conn

/-- A new connection is announced once. -/
def Announced (m : LogSubscriptionManager) : Call → Prop
  | .addClient conn => m.client conn = none
  | _ => True

theorem mirror_apply {m : LogSubscriptionManager} {call : Call} (h : m.Mirror)
    (hnew : m.Announced call) : (m.apply call).Mirror := by
  cases call with
  | addClient conn => exact h.addClient hnew
  | removeClient conn => exact h.removeClient
  | setClientLastTick conn lastTick => exact h.modifyClient (fun _ => rfl)
  | setClientLastLogId conn lastLogId => exact h.modifyClient (fun _ => rfl)
  | setClientTransferMinAmount conn minAmount => exact h.modifyClient (fun _ => rfl)
  | beginCatchUp conn => exact h.modifyClient (fun _ => rfl)
  | completeCatchUp conn toTick => exact h.modifyClient (fun _ => rfl)
  | completeCatchUpByLogId conn toLogId => exact h.modifyClient (fun _ => rfl)
  | subscribe conn key => exact h.subscribe key
  | unsubscribe conn key => exact h.unsubscribe key
  | unsubscribeAll conn => exact h.unsubscribeAll

theorem mirror_run {calls : List Call} (hnew : Runs.Guarded apply Announced empty calls) :
    (Runs.run apply empty calls).Mirror := by
  have hstep : ∀ m call, Mirror m → Announced m call → Mirror (apply m call) :=
    fun _ _ => mirror_apply
  exact Runs.run_invariant hstep mirror_empty hnew

/-! ## What each selection sends -/

section selection

variable {m : LogSubscriptionManager} {tick : Nat} {log : LogEvent} {logs : List LogEvent}

theorem mem_pushLog (h : m.Mirror) {msg : LogMessage} : msg ∈ m.pushLog tick log ↔
    ∃ st, m.client msg.conn = some st ∧ extractSubscriptionKey log = some msg.key ∧
      msg.key ∈ st.subscriptions ∧ st.skips tick log = false ∧ msg.isCatchUp = false ∧
      msg.log = log := by
  unfold pushLog
  cases hkey : extractSubscriptionKey log with
  | none => simp
  | some key =>
      simp only [List.mem_map, List.mem_filter]
      constructor
      · rintro ⟨conn, ⟨hconn, hskip⟩, rfl⟩
        obtain ⟨st, hst, hk⟩ := h.registered hconn
        rw [hst] at hskip
        exact ⟨st, hst, rfl, hk, by simpa using hskip, rfl, rfl⟩
      · rintro ⟨st, hst, hk, hmem, hskip, hlive, hlog⟩
        obtain rfl := Option.some.inj hk
        refine ⟨msg.conn, ⟨(h.mem_iff _ _).mpr ?_, by simp [hst, hskip]⟩, ?_⟩
        · rwa [keysOf_eq hst]
        · rw [← hlive, ← hlog]

/-- The early return changes nothing: without clients or without an index there is nobody to send
to. -/
theorem pushVerifiedLogs_eq (h : m.Mirror) :
    m.pushVerifiedLogs tick logs = logs.flatMap (m.pushLog tick) := by
  unfold pushVerifiedLogs
  split
  · next hempty =>
      symm
      rw [List.flatMap_eq_nil_iff]
      intro log _
      refine List.eq_nil_iff_forall_not_mem.mpr (fun msg hmsg => ?_)
      obtain ⟨st, hst, -, hkey, -⟩ := (mem_pushLog h).mp hmsg
      have hidx : msg.conn ∈ m.subscribers msg.key := by
        rw [h.mem_iff, keysOf_eq hst]
        exact hkey
      rw [Bool.or_eq_true] at hempty
      rcases hempty with hempty | hempty
      · have hnone : m.client msg.conn = none := by
          rw [client, AList.lookup, List.isEmpty_iff.mp hempty]
          rfl
        rw [hst] at hnone
        cases hnone
      · rw [subscribers, MultiMap.members, AList.lookup, List.isEmpty_iff.mp hempty] at hidx
        exact absurd hidx List.not_mem_nil
  · rfl

theorem mem_pushVerifiedLogs (h : m.Mirror) {msg : LogMessage} :
    msg ∈ m.pushVerifiedLogs tick logs ↔
      ∃ st, m.client msg.conn = some st ∧ extractSubscriptionKey msg.log = some msg.key ∧
        msg.key ∈ st.subscriptions ∧ st.skips tick msg.log = false ∧ msg.isCatchUp = false ∧
        msg.log ∈ logs := by
  rw [pushVerifiedLogs_eq h, List.mem_flatMap]
  constructor
  · rintro ⟨log, hlog, hmsg⟩
    obtain ⟨st, hst, hkey, hmem, hskip, hlive, rfl⟩ := (mem_pushLog h).mp hmsg
    exact ⟨st, hst, hkey, hmem, hskip, hlive, hlog⟩
  · rintro ⟨st, hst, hkey, hmem, hskip, hlive, hlog⟩
    exact ⟨msg.log, hlog, (mem_pushLog h).mpr ⟨st, hst, hkey, hmem, hskip, hlive, rfl⟩⟩

end selection

/-! ## Every reachable manager -/

/-- A connection that is not registered stays so until it is announced again. -/
theorem client_apply_of_none {m : LogSubscriptionManager} {call : Call} {c : WsConn}
    (h : m.client c = none) (hcall : call ≠ .addClient c) : (m.apply call).client c = none := by
  have hmodify : ∀ conn f, (m.modifyClient conn f).client c = none := by
    intro conn f
    rw [client_modifyClient, h, Option.map_none, ite_self]
  cases call with
  | addClient conn =>
      have hc : c ≠ conn := by
        rintro rfl
        exact hcall rfl
      exact client_addClient.trans ((if_neg hc).trans h)
  | removeClient conn =>
      refine client_removeClient.trans ?_
      rw [h, ite_self]
  | setClientLastTick conn lastTick => exact hmodify conn _
  | setClientLastLogId conn lastLogId => exact hmodify conn _
  | setClientTransferMinAmount conn minAmount => exact hmodify conn _
  | beginCatchUp conn => exact hmodify conn _
  | completeCatchUp conn toTick => exact hmodify conn _
  | completeCatchUpByLogId conn toLogId => exact hmodify conn _
  | subscribe conn key =>
      refine (client_subscribe key).trans ?_
      rw [h, Option.map_none, ite_self]
  | unsubscribe conn key =>
      refine (client_unsubscribe key).trans ?_
      rw [h, Option.map_none, ite_self]
  | unsubscribeAll conn =>
      refine client_unsubscribeAll.trans ?_
      rw [h, Option.map_none, ite_self]

theorem client_run_of_none {m : LogSubscriptionManager} {calls : List Call} {c : WsConn}
    (h : m.client c = none) (hcalls : Call.addClient c ∉ calls) :
    (Runs.run apply m calls).client c = none := by
  induction calls generalizing m with
  | nil => exact h
  | cons call calls ih =>
      rw [List.mem_cons, not_or] at hcalls
      exact ih (client_apply_of_none h (Ne.symm hcalls.1)) hcalls.2

/-- The connection was removed by one of the calls and not announced after it. -/
def Removed (calls : List Call) (c : WsConn) : Prop :=
  ∃ before after, calls = before ++ .removeClient c :: after ∧ .addClient c ∉ after

theorem client_run_of_removed {m : LogSubscriptionManager} {calls : List Call} {c : WsConn}
    (h : Removed calls c) : (Runs.run apply m calls).client c = none := by
  obtain ⟨before, after, rfl, hafter⟩ := h
  rw [Runs.run, List.foldl_append, List.foldl_cons]
  refine client_run_of_none ?_ hafter
  exact client_removeClient.trans (if_pos rfl)

/-- The key stands in the subscriptions of the connection's client. -/
def ClientHas (m : LogSubscriptionManager) (c : WsConn) (key : SubscriptionKey) : Prop :=
  ∃ st, m.client c = some st ∧ key ∈ st.subscriptions

/-- The connection stands in the entry of the key. -/
def IndexHas (m : LogSubscriptionManager) (key : SubscriptionKey) (c : WsConn) : Prop :=
  ∃ conns, m.subscriptionIndex_.lookup key = some conns ∧ c ∈ conns

theorem mem_subscribers_iff {m : LogSubscriptionManager} {key : SubscriptionKey} {c : WsConn} :
    c ∈ m.subscribers key ↔ m.IndexHas key c := by
  rw [subscribers, MultiMap.members, IndexHas]
  cases m.subscriptionIndex_.lookup key with
  | none => simp
  | some conns => simp

theorem Mirror.clientHas_iff {m : LogSubscriptionManager} (h : m.Mirror) {c : WsConn}
    {key : SubscriptionKey} : m.ClientHas c key ↔ c ∈ m.subscribers key := by
  constructor
  · rintro ⟨st, hst, hkey⟩
    rw [h.mem_iff, keysOf_eq hst]
    exact hkey
  · exact h.registered

/-- After every sequence of calls that announces a connection only while it is not registered, the
two directions hold the same pairs, no entry of the index is empty and a removed connection is
neither a client nor in the index. So the push of a list of logs picks, for each log, the clients
subscribed to its key, and of these it sends to the ones it does not pass over. -/
theorem subscriptionIndex_mirrors_clients (calls : List Call)
    (hnew : Runs.Guarded apply Announced empty calls) :
    let m := Runs.run apply empty calls
    (∀ c key, m.ClientHas c key ↔ m.IndexHas key c) ∧
    (∀ key conns, m.subscriptionIndex_.lookup key = some conns → conns ≠ []) ∧
    (∀ c, Removed calls c → m.client c = none ∧ ∀ key, ¬ m.IndexHas key c) ∧
    (∀ log key, extractSubscriptionKey log = some key →
      (m.subscribers key).Nodup ∧ ∀ c, c ∈ m.subscribers key ↔ m.ClientHas c key) ∧
    ∀ tick logs msg, msg ∈ m.pushVerifiedLogs tick logs ↔
      ∃ st, m.client msg.conn = some st ∧ extractSubscriptionKey msg.log = some msg.key ∧
        msg.key ∈ st.subscriptions ∧ st.skips tick msg.log = false ∧ msg.isCatchUp = false ∧
        msg.log ∈ logs := by
  intro m
  have hmirror : m.Mirror := mirror_run hnew
  have hboth : ∀ c key, m.ClientHas c key ↔ m.IndexHas key c := by
    intro c key
    rw [hmirror.clientHas_iff, mem_subscribers_iff]
  refine ⟨hboth, fun key conns h => (hmirror.wf key conns h).2, ?_, ?_, ?_⟩
  · intro c hremoved
    have hnone : m.client c = none := client_run_of_removed hremoved
    refine ⟨hnone, fun key hindex => ?_⟩
    obtain ⟨st, hst, -⟩ := (hboth c key).mpr hindex
    rw [hnone] at hst
    cases hst
  · intro log key _
    exact ⟨hmirror.wf.nodup_members key, fun c => hmirror.clientHas_iff.symm⟩
  · intro tick logs msg
    exact mem_pushVerifiedLogs hmirror

/-- Two clients of one key, of which the first leaves. -/
def twoClients : List Call :=
  [.addClient 1, .addClient 2, .subscribe 1 ⟨0, 0⟩, .subscribe 2 ⟨0, 0⟩, .removeClient 1]

theorem subscriptionIndex_mirrors_clients_at_twoClients :
    Runs.Guarded apply Announced empty twoClients ∧ Removed twoClients 1 ∧
      (Runs.run apply empty twoClients).subscribers ⟨0, 0⟩ = [2] ∧
      ∀ c key, (Runs.run apply empty twoClients).ClientHas c key ↔
        (Runs.run apply empty twoClients).IndexHas key c := by
  have hnew : Runs.Guarded apply Announced empty twoClients :=
    ⟨rfl, rfl, trivial, trivial, trivial, trivial⟩
  refine ⟨hnew, ⟨twoClients.take 4, [], rfl, List.not_mem_nil⟩, by decide +kernel, ?_⟩
  exact (subscriptionIndex_mirrors_clients twoClients hnew).1

end LogSubscriptionManager

theorem subscribedTo_iff {subscriptions : List SubscriptionKey} {log : LogEvent} :
    subscribedTo subscriptions log = true ↔
      ∃ key, extractSubscriptionKey log = some key ∧ key ∈ subscriptions := by
  unfold subscribedTo
  cases extractSubscriptionKey log with
  | none => simp
  | some key => simp

theorem mem_catchUpSends {conn : WsConn} {subscriptions : List SubscriptionKey}
    {logs : List LogEvent} {msg : LogMessage} : msg ∈ catchUpSends conn subscriptions logs ↔
      msg.conn = conn ∧ extractSubscriptionKey msg.log = some msg.key ∧
        msg.key ∈ subscriptions ∧ msg.isCatchUp = true ∧ msg.log ∈ logs := by
  unfold catchUpSends
  rw [List.mem_filterMap]
  constructor
  · rintro ⟨log, hlog, hmsg⟩
    cases hkey : extractSubscriptionKey log with
    | none =>
        rw [hkey] at hmsg
        cases hmsg
    | some key =>
        rw [hkey] at hmsg
        dsimp only at hmsg
        split at hmsg
        · next hmem =>
            obtain rfl := Option.some.inj hmsg
            exact ⟨rfl, hkey, hmem, rfl, hlog⟩
        · cases hmsg
  · rintro ⟨hconn, hkey, hmem, hcatch, hlog⟩
    refine ⟨msg.log, hlog, ?_⟩
    rw [hkey]
    dsimp only
    rw [if_pos hmem, ← hconn, ← hcatch]

/-! ## Live and replayed -/

/-- The logs a list of messages brings to a connection. -/
def logsTo (conn : WsConn) (msgs : List LogMessage) : List LogEvent :=
  (msgs.filter (fun msg => msg.conn = conn)).map LogMessage.log

/-- Both replays bring the client the logs the live push brings it. -/
def SelectsSame (m : LogSubscriptionManager) (conn : WsConn) (st : ClientState) (tick : Nat)
    (logs : List LogEvent) : Prop :=
  logsTo conn (performCatchUpSends conn st.subscriptions logs) =
      logsTo conn (m.pushVerifiedLogs tick logs) ∧
    logsTo conn (performCatchUpByLogIdSends conn st.subscriptions logs) =
      logsTo conn (m.pushVerifiedLogs tick logs)

section same

variable {m : LogSubscriptionManager} {conn : WsConn} {st : ClientState} {tick : Nat}

theorem logsTo_flatMap {α : Type} (f : α → List LogMessage) (xs : List α) :
    logsTo conn (xs.flatMap f) = xs.flatMap (fun x => logsTo conn (f x)) := by
  unfold logsTo
  rw [List.filter_flatMap, List.map_flatMap]

theorem flatMap_ite_singleton {α : Type} (p : α → Bool) (xs : List α) :
    xs.flatMap (fun x => if p x then [x] else []) = xs.filter p := by
  induction xs with
  | nil => rfl
  | cons x xs ih =>
      rw [List.flatMap_cons, List.filter_cons, ih]
      by_cases h : p x
      · rw [if_pos h, if_pos h]
        rfl
      · rw [if_neg h, if_neg h]
        rfl

theorem filter_eq_of_nodup {α : Type} [DecidableEq α] {xs : List α} (hxs : xs.Nodup)
    {p : α → Bool} {a : α} (hp : ∀ x, p x = true → x = a) :
    xs.filter p = if a ∈ xs ∧ p a = true then [a] else [] := by
  induction xs with
  | nil => rfl
  | cons x xs ih =>
      obtain ⟨hx, hxs⟩ := List.nodup_cons.mp hxs
      rw [List.filter_cons, ih hxs]
      by_cases hpx : p x = true
      · obtain rfl := hp x hpx
        rw [if_pos hpx, if_neg (fun h => hx h.1), if_pos ⟨List.mem_cons_self, hpx⟩]
      · have hne : p a = true → a ≠ x := fun ha hax => hpx (hax ▸ ha)
        rw [if_neg hpx]
        refine if_congr ?_ rfl rfl
        constructor
        · exact fun h => ⟨List.mem_cons_of_mem _ h.1, h.2⟩
        · exact fun h => ⟨List.mem_of_ne_of_mem (hne h.2) h.1, h.2⟩

theorem logsTo_catchUpSends (logs : List LogEvent) :
    logsTo conn (catchUpSends conn st.subscriptions logs) = logs.filter st.subscribed := by
  induction logs with
  | nil => rfl
  | cons log logs ih =>
      unfold catchUpSends at ih ⊢
      rw [List.filterMap_cons, List.filter_cons, ClientState.subscribed, subscribedTo]
      cases extractSubscriptionKey log with
      | none => exact ih
      | some key =>
          dsimp only
          by_cases hkey : key ∈ st.subscriptions
          · rw [if_pos hkey, if_pos (decide_eq_true hkey), ← ih]
            simp [logsTo]
          · rw [if_neg hkey, if_neg (by simpa using hkey)]
            exact ih

/-- A registered client gets each log once, if it is subscribed to it and not passed over. -/
theorem logsTo_pushLog (h : m.Mirror) (hst : m.client conn = some st) (log : LogEvent) :
    logsTo conn (m.pushLog tick log) =
      if st.subscribed log && !st.skips tick log then [log] else [] := by
  unfold LogSubscriptionManager.pushLog ClientState.subscribed subscribedTo
  cases hkey : extractSubscriptionKey log with
  | none => rfl
  | some key =>
      dsimp only
      have hmem : conn ∈ m.subscribers key ↔ key ∈ st.subscriptions := by
        rw [h.mem_iff, LogSubscriptionManager.keysOf_eq hst]
      have hnodup : (m.subscribers key).Nodup := h.wf.nodup_members key
      rw [logsTo, List.filter_map, List.map_map, List.filter_filter,
        filter_eq_of_nodup hnodup (a := conn) (by simp +contextual)]
      simp only [Function.comp_apply, decide_true, Bool.true_and, hst, hmem]
      by_cases hk : key ∈ st.subscriptions ∧ (!st.skips tick log) = true
      · rw [if_pos hk, if_pos (by simp only [hk.1, hk.2, decide_true, Bool.true_and])]
        rfl
      · rw [if_neg hk, if_neg (by rwa [Bool.and_eq_true, decide_eq_true_eq])]
        rfl

/-- With the client not in catch-up and its cursors below, only the amount filter is left. -/
theorem skips_eq_belowMinAmount (hlive : st.catchUpInProgress = false) (htick : st.lastTick < tick)
    {log : LogEvent} (hid : st.lastLogId < log.getLogId) :
    st.skips tick log = st.belowMinAmount log := by
  have h₁ : decide (tick ≤ st.lastTick) = false := decide_eq_false (by omega)
  have h₂ : decide (0 ≤ st.lastLogId ∧ (log.getLogId : Int) ≤ st.lastLogId) = false :=
    decide_eq_false (by omega)
  rw [ClientState.skips, hlive, h₁, h₂, Bool.false_or, Bool.false_or, Bool.false_or]

theorem logsTo_pushVerifiedLogs (h : m.Mirror) (hst : m.client conn = some st)
    (hlive : st.catchUpInProgress = false) (htick : st.lastTick < tick) {logs : List LogEvent}
    (hid : ∀ log ∈ logs, st.lastLogId < log.getLogId) :
    logsTo conn (m.pushVerifiedLogs tick logs) =
      (logs.filter st.subscribed).filter (fun log => !st.belowMinAmount log) := by
  rw [LogSubscriptionManager.pushVerifiedLogs_eq h, logsTo_flatMap, List.filter_filter,
    ← flatMap_ite_singleton]
  refine List.flatMap_congr (fun log hlog => ?_)
  rw [logsTo_pushLog h hst, skips_eq_belowMinAmount hlive htick (hid log hlog), Bool.and_comm]

end same

open LogSubscriptionManager in
/-- For every manager that calls have made, every registered client and every list of logs above its
cursors: replay and live push select the same logs exactly when no transfer the client is subscribed
to is below its minimum amount. -/
theorem selectsSame_iff (calls : List Call) (hnew : Runs.Guarded apply Announced empty calls)
    (conn : WsConn) (st : ClientState)
    (hst : (Runs.run apply empty calls).client conn = some st)
    (hlive : st.catchUpInProgress = false) (tick : Nat) (htick : st.lastTick < tick)
    (logs : List LogEvent) (hid : ∀ log ∈ logs, st.lastLogId < log.getLogId) :
    SelectsSame (Runs.run apply empty calls) conn st tick logs ↔
      ∀ log ∈ logs, st.subscribed log = true → log.getType = QU_TRANSFER →
        0 < st.transferMinAmount → st.transferMinAmount ≤ log.quTransfer.amount.toInt := by
  have hmirror := mirror_run hnew
  have hpush := logsTo_pushVerifiedLogs hmirror hst hlive htick hid
  have hamount : ∀ log, st.belowMinAmount log = false ↔ (log.getType = QU_TRANSFER →
      0 < st.transferMinAmount → st.transferMinAmount ≤ log.quTransfer.amount.toInt) := by
    intro log
    rw [ClientState.belowMinAmount, decide_eq_false_iff_not]
    constructor
    · intro hnot htype hpos
      by_contra hlt
      exact hnot ⟨htype, hpos, not_le.mp hlt⟩
    · rintro hle ⟨htype, hpos, hlt⟩
      exact absurd (hle htype hpos) (not_le.mpr hlt)
  rw [SelectsSame, performCatchUpSends, performCatchUpByLogIdSends, and_self, hpush,
    logsTo_catchUpSends, eq_comm, List.filter_eq_self]
  constructor
  · intro hall log hlog hsub
    have hnot := hall log (List.mem_filter.mpr ⟨hlog, hsub⟩)
    exact (hamount log).mp (by simpa using hnot)
  · intro hall log hlog
    obtain ⟨hlog, hsub⟩ := List.mem_filter.mp hlog
    rw [(hamount log).mpr (hall log hlog hsub)]
    rfl

/-- A transfer of `amount` at tick 5 with log id 1. -/
def transferLog (amount : BitVec 64) : LogEvent :=
  LogEvent.pack 1 5 QU_TRANSFER 1 0 (QuTransfer.bytes ⟨0, 0, amount⟩)

/-- A client of connection 1 that has asked for transfers of at least 10. -/
def filteredClient : List LogSubscriptionManager.Call :=
  [.addClient 1, .setClientLastTick 1 3, .setClientTransferMinAmount 1 10, .subscribe 1 ⟨0, 0⟩]

def filteredClientState : ClientState :=
  { subscriptions := [⟨0, 0⟩], lastTick := 3, transferMinAmount := 10 }

open LogSubscriptionManager in
theorem selectsSame_iff_at_large_transfer :
    (Runs.run apply empty filteredClient).client 1 = some filteredClientState ∧
      logsTo 1 ((Runs.run apply empty filteredClient).pushVerifiedLogs 5 [transferLog 12]) =
        [transferLog 12] ∧
      SelectsSame (Runs.run apply empty filteredClient) 1 filteredClientState 5
        [transferLog 12] := by
  have hst : (Runs.run apply empty filteredClient).client 1 = some filteredClientState := by
    decide +kernel
  have hnew : Runs.Guarded apply Announced empty filteredClient :=
    ⟨rfl, trivial, trivial, trivial, trivial⟩
  refine ⟨hst, by decide +kernel, (selectsSame_iff filteredClient hnew 1 _ hst rfl 5 (by decide)
    [transferLog 12] ?_).mpr ?_⟩
  · rintro log hlog
    rw [List.mem_singleton.mp hlog]
    decide +kernel
  · rintro log hlog - - -
    rw [List.mem_singleton.mp hlog]
    decide +kernel

open LogSubscriptionManager in
/-- A transfer of 2 is replayed to the client and not pushed to it. -/
theorem selectsSame_fails_on_small_transfer :
    (Runs.run apply empty filteredClient).client 1 = some filteredClientState ∧
      logsTo 1 ((Runs.run apply empty filteredClient).pushVerifiedLogs 5 [transferLog 2]) = [] ∧
      logsTo 1 (performCatchUpSends 1 filteredClientState.subscriptions [transferLog 2]) =
        [transferLog 2] ∧
      ¬ SelectsSame (Runs.run apply empty filteredClient) 1 filteredClientState 5
        [transferLog 2] := by
  have hpush : logsTo 1 ((Runs.run apply empty filteredClient).pushVerifiedLogs 5
      [transferLog 2]) = [] := by decide +kernel
  have hreplay : logsTo 1 (performCatchUpSends 1 filteredClientState.subscriptions
      [transferLog 2]) = [transferLog 2] := by decide +kernel
  refine ⟨by decide +kernel, hpush, hreplay, fun h => ?_⟩
  have hsame := h.1
  rw [hpush, hreplay] at hsame
  cases hsame

end QubicBob
