import QubicBob.Stream.Server

set_option autoImplicit false

/-! # Only verified logs are streamed

A log message is of a tick the verifier has accepted. The live push takes its logs from the accepted
batch and the replay by ticks stops below `gCurrentVerifyLoggingTick`; the replay by log ids goes up
to the largest id that is stored, whether its tick is accepted or not.

Every sender works with a bound it has read some steps before it sends: the end of the batch, the
`toTick` of a replay. The end of what is accepted only moves up, so a bound that was below it stays
below it, and `Bounded` carries all of them at once: the verifier's progress, its batch, the end of
each replay, the queue and what is sent. The replay by log ids has no such bound. There the
condition on a step, `NotAhead`, is about the batch of logs that the step is about to read.
-/

namespace QubicBob

/-- A batch of a replay by log ids that is about to be sent: its stored logs that the client is
subscribed to are of accepted ticks. -/
def Handler.NotAhead (E : StreamEnv) (s : StreamServer) (conn : WsConn) : Handler → Prop
  | .replayingByLogId subscriptions id toLogId => s.link conn = .connected →
      ∀ log ∈ dbTryGetLogsFromTo s.db E.epoch id (StreamServer.batchEndByLogId id toLogId),
        subscribedTo subscriptions log = true → log.getTick.toNat < s.acceptedEnd
  | _ => True

instance (E : StreamEnv) (s : StreamServer) (conn : WsConn) :
    ∀ h : Handler, Decidable (Handler.NotAhead E s conn h)
  | .replayingByLogId subscriptions id toLogId =>
      inferInstanceAs (Decidable (s.link conn = .connected →
        ∀ log ∈ dbTryGetLogsFromTo s.db E.epoch id (StreamServer.batchEndByLogId id toLogId),
          subscribedTo subscriptions log = true → log.getTick.toNat < s.acceptedEnd))
  | .idle | .settingCursor _ _ | .settingAmount _ _ | .subscribing _ _ | .entering _
  | .replaying _ _ _ | .completing _ | .enteringByLogId _ | .completingByLogId _ => isTrue trivial

/-- The ticks the verifier is about to push. -/
def Verifier.Below (acceptedEnd : Nat) : Verifier → Prop
  | .idle => True
  | .simulating processToTick vle => ∀ log ∈ vle, log.getTick.toNat ≤ processToTick
  | .pushing processToTick groups => processToTick < acceptedEnd ∧
      ∀ group ∈ groups, ∀ log ∈ group.2, log.getTick.toNat ≤ processToTick

/-- The end of a replay by ticks. -/
def Handler.Below (acceptedEnd : Nat) : Handler → Prop
  | .entering toTick => toTick < acceptedEnd
  | .replaying _ _ toTick => toTick < acceptedEnd
  | _ => True

theorem Handler.Below.mono {handler : Handler} {a b : Nat} (h : Handler.Below a handler)
    (hab : a ≤ b) : Handler.Below b handler := by
  cases handler with
  | entering toTick => exact lt_of_lt_of_le h hab
  | replaying subscriptions tick toTick => exact lt_of_lt_of_le h hab
  | _ => trivial

namespace StreamServer

/-- Every log message sent so far is of a tick whose batch has been accepted. -/
def OnlyVerified (s : StreamServer) : Prop :=
  ∀ msg ∈ s.sent, msg.log.getTick.toNat < s.acceptedEnd

/-- The condition on a step: where a replay by log ids sends, log fetching is not ahead of
verification. -/
def NotAhead (E : StreamEnv) (s : StreamServer) : StreamStep → Prop
  | .work conn => (s.handler conn).NotAhead E s conn
  | _ => True

instance (E : StreamEnv) (s : StreamServer) : ∀ st : StreamStep, Decidable (NotAhead E s st)
  | .work conn => inferInstanceAs (Decidable ((s.handler conn).NotAhead E s conn))
  | .chunk _ | .updateLatest _ | .logRange _ _ | .fetchBatch _ | .accept | .push | .advance
  | .dispatch | .connect _ | .close _ | .disconnect _ | .message _ _ | .unsubscribe _ _
  | .unsubscribeAll _ => isTrue trivial

/-- Each of the bounds the senders take is below the end of what is accepted. -/
structure Bounded (s : StreamServer) : Prop where
  progress : s.gCurrentVerifyLoggingTick ≤ s.acceptedEnd
  verifier : s.verifier.Below s.acceptedEnd
  handler : ∀ c, (s.handler c).Below s.acceptedEnd
  sent : OnlyVerified s
  queue : ∀ msg ∈ s.queue, msg.log.getTick.toNat < s.acceptedEnd

section steps

variable {E : StreamEnv} {s s' : StreamServer} {conn : WsConn}

theorem bounded_start (db : LogDB) (latestLogId : Int) (tick : Nat) :
    Bounded (start db latestLogId tick) where
  progress := le_rfl
  verifier := trivial
  handler _ := trivial
  sent _ h := absurd h List.not_mem_nil
  queue _ h := absurd h List.not_mem_nil

/-- The rest of the state plays no part. -/
theorem Bounded.congr (h : Bounded s)
    (hprogress : s'.gCurrentVerifyLoggingTick = s.gCurrentVerifyLoggingTick)
    (hverifier : s'.verifier = s.verifier) (hhandler : s'.handler = s.handler)
    (hqueue : s'.queue = s.queue) (hsent : s'.sent = s.sent)
    (hend : s'.acceptedEnd = s.acceptedEnd) : Bounded s' where
  progress := by
    rw [hprogress, hend]
    exact h.progress
  verifier := by
    rw [hend, hverifier]
    exact h.verifier
  handler c := by
    rw [hend, hhandler]
    exact h.handler c
  sent := by
    unfold OnlyVerified
    rw [hend, hsent]
    exact h.sent
  queue := by
    rw [hend, hqueue]
    exact h.queue

theorem OnlyStored.bounded (hs : OnlyStored s s') (h : Bounded s) : Bounded s' :=
  h.congr hs.gCurrentVerifyLoggingTick hs.verifier hs.handler hs.queue hs.sent hs.acceptedEnd

theorem Bounded.setHandler (h : Bounded s) {handler : Handler}
    (hh : handler.Below s.acceptedEnd) : Bounded (s.setHandler conn handler) := by
  refine { h with handler := fun c => ?_ }
  by_cases hc : c = conn
  · subst hc
    simpa [StreamServer.setHandler] using hh
  · simpa [StreamServer.setHandler, hc] using h.handler c

theorem Bounded.send (h : Bounded s) {msgs : List LogMessage}
    (hmsgs : s.link conn = .connected → ∀ msg ∈ msgs, msg.log.getTick.toNat < s.acceptedEnd) :
    Bounded (s.send conn msgs) := by
  unfold StreamServer.send
  split
  · next hlink =>
      refine { h with sent := fun msg hmsg => ?_ }
      rcases List.mem_append.mp hmsg with hmsg | hmsg
      · exact h.sent msg hmsg
      · exact hmsgs hlink msg hmsg
  · exact h

/-- A batch of a replay by ticks is below the end of the replay. -/
theorem Bounded.replay (h : Bounded s) {subscriptions : List SubscriptionKey} {tick toTick : Nat}
    (hto : toTick < s.acceptedEnd) : Bounded (s.replay E conn subscriptions tick toTick) := by
  have honward : Handler.Below s.acceptedEnd
      (if toTick < (tick + BATCH_SIZE) % 2 ^ 32 then .completing toTick
      else .replaying subscriptions ((tick + BATCH_SIZE) % 2 ^ 32) toTick) := by
    split
    · trivial
    · exact hto
  unfold StreamServer.replay
  dsimp only
  split
  · exact h.setHandler honward
  · refine Bounded.setHandler (h.send fun _ msg hmsg => ?_) ?_
    · obtain ⟨-, -, -, -, hlog⟩ := mem_catchUpSends.mp hmsg
      have hle := (dbGetLogsByTickRange_tick hlog).2
      have hend : batchEnd tick toTick ≤ toTick := min_le_right _ _
      omega
    · rw [(onlyHandled_send _).acceptedEnd]
      split
      · exact honward
      · trivial

theorem Bounded.work (h : Bounded s) (hok : NotAhead E s (.work conn)) :
    Bounded (s.work E conn) := by
  have hhandler := h.handler conn
  unfold StreamServer.work
  split
  · exact h
  · apply Bounded.setHandler
    · exact h.congr rfl rfl rfl rfl rfl rfl
    · trivial
  · next useLogIdCatchUp msg _ =>
      apply Bounded.setHandler
      · exact h.congr rfl rfl rfl rfl rfl rfl
      · cases msg.keys <;> trivial
  · apply Bounded.setHandler
    · exact h.congr rfl rfl rfl rfl rfl rfl
    · trivial
  · next useLogIdCatchUp _ =>
      refine h.setHandler ?_
      have hprogress := h.progress
      unfold trigger
      split
      · split <;> trivial
      · split
        · change s.gCurrentVerifyLoggingTick - 1 < s.acceptedEnd
          omega
        · trivial
  · next toTick heq =>
      rw [heq] at hhandler
      unfold enter
      split
      · exact h.setHandler trivial
      · split
        · exact h.setHandler trivial
        · apply Bounded.setHandler
          · exact h.congr rfl rfl rfl rfl rfl rfl
          · split
            · trivial
            · exact hhandler
  · next subscriptions tick toTick heq =>
      rw [heq] at hhandler
      exact h.replay hhandler
  · apply Bounded.setHandler
    · exact h.congr rfl rfl rfl rfl rfl rfl
    · trivial
  · unfold enterByLogId
    split
    · exact h.setHandler trivial
    · split
      · exact h.setHandler trivial
      · apply Bounded.setHandler
        · exact h.congr rfl rfl rfl rfl rfl rfl
        · split <;> trivial
  · next subscriptions id toLogId heq =>
      rw [NotAhead, heq] at hok
      unfold replayByLogId
      refine Bounded.setHandler (h.send fun hlink msg hmsg => ?_) ?_
      · obtain ⟨-, hkey, hmem, -, hlog⟩ := mem_catchUpSends.mp hmsg
        exact hok hlink msg.log hlog (subscribedTo_iff.mpr ⟨msg.key, hkey, hmem⟩)
      · split
        · split <;> trivial
        · trivial
  · apply Bounded.setHandler
    · exact h.congr rfl rfl rfl rfl rfl rfl
    · trivial

/-- Accepting a batch moves the end up and hands its logs to the pushes. -/
theorem Bounded.acceptBatch (h : Bounded s) {processToTick : Nat} {vle : List LogEvent}
    (hvle : ∀ log ∈ vle, log.getTick.toNat ≤ processToTick) :
    Bounded (s.acceptBatch processToTick vle) := by
  have hmono : s.acceptedEnd ≤ max s.acceptedEnd (processToTick + 1) := le_max_left _ _
  have hto : processToTick < max s.acceptedEnd (processToTick + 1) :=
    lt_of_lt_of_le (Nat.lt_succ_self _) (le_max_right _ _)
  have hsent : ∀ msg ∈ s.sent, msg.log.getTick.toNat < max s.acceptedEnd (processToTick + 1) :=
    fun msg hmsg => lt_of_lt_of_le (h.sent msg hmsg) hmono
  have hqueue : ∀ msg ∈ s.queue, msg.log.getTick.toNat < max s.acceptedEnd (processToTick + 1) :=
    fun msg hmsg => lt_of_lt_of_le (h.queue msg hmsg) hmono
  unfold StreamServer.acceptBatch
  split
  · exact
      { progress := le_trans h.progress hmono
        verifier := ⟨hto, fun group hg log hlog => hvle log (mem_of_mem_group hg hlog)⟩
        handler := fun c => (h.handler c).mono hmono
        sent := hsent
        queue := hqueue }
  · exact
      { progress := le_trans h.progress hmono
        verifier := ⟨hto, fun _ hg => absurd hg List.not_mem_nil⟩
        handler := fun c => (h.handler c).mono hmono
        sent := hsent
        queue := hqueue }

theorem bounded_step (st : StreamStep) (hr : Registered s) (h : Bounded s)
    (hok : NotAhead E s st) : Bounded (s.step E st) := by
  cases st with
  | chunk events => exact (onlyStored_chunk events).bounded h
  | updateLatest i => exact (onlyStored_updateLatest i).bounded h
  | logRange tick range => exact (onlyStored_logRange tick range).bounded h
  | fetchBatch processToTick =>
      rcases fetchBatch_cases processToTick with heq | ⟨-, -, -, heq⟩ <;> rw [heq]
      · exact h
      · exact { h with verifier := fun log hlog => (dbGetLogsByTickRange_tick hlog).2 }
  | accept =>
      have hv := h.verifier
      rcases accept_cases with heq | ⟨processToTick, vle, hphase, heq⟩ <;> rw [heq]
      · exact h
      · rw [hphase] at hv
        exact h.acceptBatch hv
  | push =>
      have hv := h.verifier
      rcases push_cases with heq | ⟨processToTick, tick, logs, groups, hphase, heq⟩ <;> rw [heq]
      · exact h
      · rw [hphase] at hv
        refine { h with verifier := ⟨hv.1, fun g hg => hv.2 g (List.mem_cons_of_mem _ hg)⟩, queue := ?_ }
        intro msg hmsg
        rcases List.mem_append.mp hmsg with hmsg | hmsg
        · exact h.queue msg hmsg
        · obtain ⟨-, -, -, -, -, -, hlog⟩ :=
            (LogSubscriptionManager.mem_pushVerifiedLogs hr.mirror).mp hmsg
          exact lt_of_le_of_lt (hv.2 _ List.mem_cons_self msg.log hlog) hv.1
  | advance =>
      have hv := h.verifier
      rcases advance_cases with heq | ⟨processToTick, hphase, heq⟩ <;> rw [heq]
      · exact h
      · rw [hphase] at hv
        refine { h with progress := ?_, verifier := trivial }
        exact le_trans (Nat.mod_le _ _) hv.1
  | dispatch =>
      rcases dispatch_cases with heq | ⟨msg, queue, hq, heq⟩ <;> rw [heq]
      · exact h
      · have hqueue := h.queue
        rw [hq] at hqueue
        have hrest : Bounded { s with queue := queue } :=
          { h with queue := fun m hm => hqueue m (List.mem_cons_of_mem _ hm) }
        refine hrest.send ?_
        intro _ m hm
        rw [List.mem_singleton.mp hm]
        exact hqueue msg List.mem_cons_self
  | connect conn =>
      rcases connect_cases with heq | ⟨-, heq⟩ <;> rw [heq]
      · exact h
      · exact { h with }
  | close conn =>
      rcases close_cases with heq | ⟨-, heq⟩ <;> rw [heq]
      · exact h
      · exact { h with }
  | disconnect conn =>
      rcases disconnect_cases with heq | ⟨-, -, heq⟩ <;> rw [heq]
      · exact h
      · exact { h with }
  | message conn msg =>
      rcases message_cases msg with heq | ⟨-, -, heq⟩ <;> rw [heq]
      · exact h
      · exact h.setHandler trivial
  | unsubscribe conn key =>
      rcases unsubscribe_cases key with heq | ⟨-, -, heq⟩ <;> rw [heq]
      · exact h
      · exact { h with }
  | unsubscribeAll conn =>
      rcases unsubscribeAll_cases with heq | ⟨-, -, heq⟩ <;> rw [heq]
      · exact h
      · exact { h with }
  | work conn => exact h.work hok

end steps

/-- From any start, in every run whose steps are not ahead of the verifier, every log message sent is
of an accepted tick. -/
theorem onlyVerified_run (E : StreamEnv) (db : LogDB) (latestLogId : Int) (tick : Nat)
    (steps : List StreamStep)
    (hok : Runs.Guarded (step E) (NotAhead E) (start db latestLogId tick) steps) :
    OnlyVerified ((start db latestLogId tick).run E steps) := by
  have hstep : ∀ s st, Registered s ∧ Bounded s → NotAhead E s st →
      Registered (s.step E st) ∧ Bounded (s.step E st) :=
    fun s st h hok => ⟨registered_step st h.1, bounded_step st h.1 h.2 hok⟩
  have h := Runs.run_invariant hstep
    ⟨registered_start db latestLogId tick, bounded_start db latestLogId tick⟩ hok
  exact h.2.sent

/-- The event of tick 5 is stored and verified before a client asks for what comes after id 0. -/
def verifiedThenReplayed : List StreamStep :=
  ([.chunk [streamLog 5 1], .updateLatest 0, .logRange 5 (oneLog 1), .fetchBatch 5, .accept,
    .advance, .connect 1] : List StreamStep) ++ subscribeSteps (.lastLogId 0) 7

theorem onlyVerified_run_after_verification :
    Runs.Guarded (step streamEnv) (NotAhead streamEnv) (start noLogs (-1) 5)
        verifiedThenReplayed ∧
      ((start noLogs (-1) 5).run streamEnv verifiedThenReplayed).sent.map LogMessage.log =
        [streamLog 5 1] ∧
      OnlyVerified ((start noLogs (-1) 5).run streamEnv verifiedThenReplayed) := by
  have hok : Runs.Guarded (step streamEnv) (NotAhead streamEnv) (start noLogs (-1) 5)
      verifiedThenReplayed := by decide +kernel
  exact ⟨hok, by decide +kernel, onlyVerified_run streamEnv noLogs (-1) 5 _ hok⟩

/-- The event of tick 5 is stored and nothing is verified. -/
def replayedUnverified : List StreamStep :=
  ([.chunk [streamLog 5 1], .updateLatest 0, .connect 1] : List StreamStep) ++
    subscribeSteps (.lastLogId 0) 7

/-- The event is sent all the same. -/
theorem unverified_log_replayed :
    ¬ OnlyVerified ((start noLogs (-1) 5).run streamEnv replayedUnverified) := by
  intro h
  have hsent : (⟨1, streamKey, true, streamLog 5 1⟩ : LogMessage) ∈
      ((start noLogs (-1) 5).run streamEnv replayedUnverified).sent := by decide +kernel
  have hend : ((start noLogs (-1) 5).run streamEnv replayedUnverified).acceptedEnd = 5 := by
    decide +kernel
  have hlt := h _ hsent
  rw [hend] at hlt
  exact absurd hlt (by decide +kernel)

end StreamServer

end QubicBob
