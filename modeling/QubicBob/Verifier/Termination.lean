import QubicBob.Lib.Loop
import QubicBob.Verifier.Returns

set_option autoImplicit false

/-! # The simulation loop, step by step

The `for` loop of `verifyLoggingEvent` and the `while` loop of the dividend window in it, with the
index both of them move. One step is one test of a loop condition and, where it holds, one run of
the body.

Every step but one kind moves the index or leaves the loop, so a loop that comes only to states
where the step is of that sort is left after as many steps as there are events, and an induction on
the events still to come shows it. The exception is a custom message in an open window that does not
end it: the body of the `while` loop goes past it without moving the index, and the state repeats
itself. The other way to stay is inside a handler whose lookups do not end, which `Call.Returns`
decides by the ledger the handler finds. A state without either is `Passable`. Where the loop is
left, what it has done is what `simulate` does on the list: each step takes over one event of what
is left to do.
-/

namespace QubicBob

/-- The index `i`, the dividend window and the pending pointers, and the ledger. -/
structure SimLoop where
  i : Nat
  control : Control
  ledger : Ledger

namespace SimLoop

/-- The loop before its first test. -/
def start (st : Ledger) : SimLoop := ⟨0, .neutral, st⟩

/-- Go on with the next event, with a new control. -/
def next (s : SimLoop) (c : Control) : SimLoop := { s with i := s.i + 1, control := c }

/-- Run a handler, then go on with the next event. -/
def nextBy (N : Node) (s : SimLoop) (c : Control) (call : Call) : Except Halt SimLoop := do
  let st ← call.exec N s.ledger
  pure { s.next c with ledger := st }

/-- The body of the `for` loop. -/
def forBody (N : Node) (s : SimLoop) (le : LogEvent) : Except Halt SimLoop :=
  if le.selfCheck N.K N.gCurrentProcessingEpoch = false then .error (.exit 2)
  else if le.getType = QU_TRANSFER then s.nextBy N s.control (.quTransfer le)
  else if le.getType = ASSET_ISSUANCE then s.nextBy N s.control (.issueAsset le)
  else if le.getType = ASSET_OWNERSHIP_CHANGE ∨ le.getType = ASSET_POSSESSION_CHANGE then
    match s.control.ple with
    | some ple =>
        s.nextBy N { s.control with ple := none } (.changeOwnershipAndPossession ple le)
    | none => pure (s.next { s.control with ple := some le })
  else if le.getType = ASSET_OWNERSHIP_MANAGING_CONTRACT_CHANGE ∨
      le.getType = ASSET_POSSESSION_MANAGING_CONTRACT_CHANGE then
    match s.control.ple1 with
    | some ple1 => s.nextBy N { s.control with ple1 := none } (.changeManagingContract ple1 le)
    | none => pure (s.next { s.control with ple1 := some le })
  else if le.getType = BURNING then s.nextBy N s.control (.quBurn le)
  else if le.getType = CUSTOM_MESSAGE then
    if le.getCustomMessage = CUSTOM_MESSAGE_OP_START_DISTRIBUTE_DIVIDENDS then
      pure (s.next { s.control with window := some [] })
    else if le.getCustomMessage = CUSTOM_MESSAGE_OP_END_EPOCH then
      s.nextBy N s.control (.endEpoch le.getTick)
    else pure (s.next s.control)
  else pure (s.next s.control)

/-- The body of the `while` loop, with the events collected so far. -/
def whileBody (N : Node) (s : SimLoop) (dd : List LogEvent) (le : LogEvent) :
    Except Halt SimLoop :=
  if le.selfCheck N.K N.gCurrentProcessingEpoch = false then .error (.exit 2)
  else if le.getType ≠ 255 then pure (s.next { s.control with window := some (dd ++ [le]) })
  else if le.getCustomMessage = CUSTOM_MESSAGE_OP_END_DISTRIBUTE_DIVIDENDS then
    s.nextBy N { s.control with window := none } (.distributeDividends dd)
  -- an error is logged, and `i` stays
  else pure s

def body (N : Node) (s : SimLoop) (le : LogEvent) : Except Halt SimLoop :=
  match s.control.window with
  | none => s.forBody N le
  | some dd => s.whileBody N dd le

/-- One step. The `while` loop leaves at the end of the list without the message it waits for. -/
def step (N : Node) (vle : List LogEvent) (s : SimLoop) : Except Halt Ledger ⊕ SimLoop :=
  match vle[s.i]? with
  | none =>
      if s.control.window.isSome then .inl (.error (.exit (-1))) else .inl (.ok s.ledger)
  | some le =>
      match s.body N le with
      | .error e => .inl (.error e)
      | .ok s' => .inr s'

/-- The event is a custom message inside a window and does not end it. -/
def Foreign (s : SimLoop) (le : LogEvent) : Prop :=
  s.control.window.isSome = true ∧ le.getType = CUSTOM_MESSAGE ∧
    le.getCustomMessage ≠ CUSTOM_MESSAGE_OP_END_DISTRIBUTE_DIVIDENDS

/-- What the loop does with a dispatched event. -/
def follow (N : Node) (s : SimLoop) : Control × Option Call → Except Halt SimLoop
  | (c, none) => pure (s.next c)
  | (c, some call) => s.nextBy N c call

variable {N : Node} {vle : List LogEvent} {s s' : SimLoop} {le : LogEvent}

/-- The two bodies are the dispatch and the handler, but for a message that is foreign. -/
theorem body_eq (h : ¬ s.Foreign le) :
    s.body N le = dispatch N s.control le >>= s.follow N := by
  obtain ⟨i, ⟨window, ple, ple1⟩, st⟩ := s
  unfold body dispatch
  cases window with
  | some dd =>
      dsimp only
      unfold whileBody
      split
      · rfl
      split
      · rfl
      · next ht =>
          have hend : le.getCustomMessage = CUSTOM_MESSAGE_OP_END_DISTRIBUTE_DIVIDENDS := by
            by_contra hne
            exact h ⟨rfl, not_not.mp ht, hne⟩
          rw [if_pos hend, if_pos hend]
          rfl
  | none =>
      dsimp only
      unfold forBody
      split
      · rfl
      split
      · rfl
      split
      · rfl
      split
      · cases ple with
        | none => rfl
        | some ple => rfl
      split
      · cases ple1 with
        | none => rfl
        | some ple1 => rfl
      split
      · rfl
      split
      · split
        · rfl
        split
        · rfl
        · rfl
      · rfl

/-- A foreign message is looked at again and again. -/
theorem body_foreign (h : s.Foreign le)
    (hself : le.selfCheck N.K N.gCurrentProcessingEpoch = true) :
    s.body N le = .ok s ∧ dispatch N s.control le = .error .diverge := by
  obtain ⟨hwin, ht, hne⟩ := h
  obtain ⟨dd, hdd⟩ := Option.isSome_iff_exists.mp hwin
  have hcheck : ¬ le.selfCheck N.K N.gCurrentProcessingEpoch = false := by rw [hself]; decide
  have ht' : ¬ le.getType ≠ 255 := not_not.mpr ht
  unfold body dispatch
  rw [hdd]
  dsimp only
  rw [whileBody, if_neg hcheck, if_neg ht', if_neg hne, if_neg hcheck, if_neg ht', if_neg hne]
  exact ⟨rfl, rfl⟩

theorem nextBy_ok {c : Control} {call : Call} {st : Ledger} (h : call.exec N s.ledger = .ok st) :
    s.nextBy N c call = .ok { s.next c with ledger := st } := by
  rw [nextBy, h]
  rfl

theorem nextBy_error {c : Control} {call : Call} {e : Halt} (h : call.exec N s.ledger = .error e) :
    s.nextBy N c call = .error e := by
  rw [nextBy, h]
  rfl

theorem step_end (h : vle[s.i]? = none) : s.step N vle =
    .inl (if s.control.window.isSome then .error (.exit (-1)) else .ok s.ledger) := by
  rw [step, h]
  dsimp only
  split <;> rfl

theorem step_error {e : Halt} (h : vle[s.i]? = some le) (hbody : s.body N le = .error e) :
    s.step N vle = .inl (.error e) := by
  rw [step, h]
  dsimp only
  rw [hbody]

theorem step_ok (h : vle[s.i]? = some le) (hbody : s.body N le = .ok s') :
    s.step N vle = .inr s' := by
  rw [step, h]
  dsimp only
  rw [hbody]

theorem body_unchecked (h : le.selfCheck N.K N.gCurrentProcessingEpoch = false) :
    s.body N le = .error (.exit 2) := by
  unfold body
  cases s.control.window with
  | none => exact if_pos h
  | some dd => exact if_pos h

/-- The loop gets past the state: its event, unless it stops the process by failing the check, is
not foreign to an open window, and what the handler called for it looks up in the ledger lets it come
back or stop the process. -/
def Passable (N : Node) (vle : List LogEvent) (s : SimLoop) : Prop :=
  ∀ le, vle[s.i]? = some le → le.selfCheck N.K N.gCurrentProcessingEpoch = true →
    ¬ s.Foreign le ∧ ∀ c call, dispatch N s.control le = .ok (c, some call) →
      call.Returns N s.ledger

/-- The list is consumed, or the process exits. -/
def Proper (r : Except Halt Ledger) : Prop := (∃ st, r = .ok st) ∨ ∃ code, r = .error (.exit code)

/-- From a passable state the loop is left properly, or goes on with the next event. -/
theorem Passable.step (h : s.Passable N vle) :
    (∃ r, s.step N vle = .inl r ∧ Proper r) ∨
      ∃ s', s.step N vle = .inr s' ∧ s.i < vle.length ∧ s'.i = s.i + 1 := by
  cases hle : vle[s.i]? with
  | none =>
      refine .inl ⟨_, step_end hle, ?_⟩
      split
      · exact .inr ⟨-1, rfl⟩
      · exact .inl ⟨s.ledger, rfl⟩
  | some le =>
      obtain ⟨hlt, -⟩ := List.getElem?_eq_some_iff.mp hle
      cases hself : le.selfCheck N.K N.gCurrentProcessingEpoch with
      | false => exact .inl ⟨_, step_error hle (body_unchecked hself), .inr ⟨2, rfl⟩⟩
      | true =>
          obtain ⟨hnot, hcalls⟩ := h le hle hself
          have hend : s.control.window.isSome = true → le.getType = CUSTOM_MESSAGE →
              le.getCustomMessage = CUSTOM_MESSAGE_OP_END_DISTRIBUTE_DIVIDENDS :=
            fun hw ht => by_contra fun hne => hnot ⟨hw, ht, hne⟩
          obtain ⟨c, call, hdisp⟩ := dispatch_returns hself hend
          have hbody : s.body N le = s.follow N (c, call) := by
            rw [body_eq hnot, hdisp]
            rfl
          cases call with
          | none => exact .inr ⟨_, step_ok hle hbody, hlt, rfl⟩
          | some call =>
              rcases (Call.returns_iff call).mpr (hcalls c call hdisp) with
                ⟨st', hexec⟩ | ⟨code, hexec⟩
              · exact .inr ⟨_, step_ok hle (hbody.trans (nextBy_ok hexec)), hlt, rfl⟩
              · exact .inl ⟨_, step_error hle (hbody.trans (nextBy_error hexec)), .inr ⟨code, rfl⟩⟩

/-- A state that is not passable repeats itself, or its handler does not come back. -/
theorem step_of_not_passable (h : ¬ s.Passable N vle) :
    s.step N vle = .inr s ∨ ∃ e, s.step N vle = .inl (.error e) ∧ ¬ Proper (.error e) := by
  unfold Passable at h
  push Not at h
  obtain ⟨le, hle, hself, hbad⟩ := h
  by_cases hforeign : s.Foreign le
  · exact .inl (step_ok hle (body_foreign hforeign hself).1)
  · obtain ⟨c, call, hdisp, hnot⟩ := hbad hforeign
    rw [← Call.returns_iff] at hnot
    right
    cases hexec : call.exec N s.ledger with
    | ok st' => exact absurd (.inl ⟨st', hexec⟩) hnot
    | error e =>
        have hbody : s.body N le = .error e := by
          rw [body_eq hforeign, hdisp]
          exact nextBy_error hexec
        refine ⟨e, step_error hle hbody, ?_⟩
        rintro (⟨st', hst'⟩ | ⟨code, hcode⟩)
        · cases hst'
        · exact hnot (.inr ⟨code, hexec.trans hcode⟩)

/-- The loop ends, at the end of the list or with the exit of the process. -/
def Stops (N : Node) (vle : List LogEvent) (st : Ledger) : Prop :=
  ∃ n r, Loop.run (step N vle) n (start st) = some r ∧ Proper r

/-- **The simulation loop stops** exactly when every state it comes to is passable: no custom message
other than the end stands in a window it is in, and every handler it calls finds the record it looks
up or an empty slot, and goes on with nothing that it has not found. -/
theorem simulationStops_iff (N : Node) (vle : List LogEvent) (st : Ledger) :
    Stops N vle st ↔
      ∀ n s, Loop.after (step N vle) n (start st) = some s → s.Passable N vle := by
  constructor
  · rintro ⟨n, r, hrun, hproper⟩ m s hafter
    by_contra hnot
    rcases step_of_not_passable hnot with hself | ⟨e, hleave, hbad⟩
    · have hloop : Loop.run (step N vle) n s = none :=
        Loop.run_eq_none (fun s' hs' => ⟨s, hs' ▸ hself, rfl⟩) rfl n
      have hmore := Loop.run_add m hrun
      rw [Nat.add_comm, Loop.run_after hafter, hloop] at hmore
      cases hmore
    · have hone : Loop.run (step N vle) (m + 1) (start st) = some (.error e) := by
        rw [Loop.run_after hafter, Loop.run_inl hleave]
      rw [Loop.run_unique hrun hone] at hproper
      exact hbad hproper
  · intro h
    -- every step takes the index on
    have hstep : ∀ n s, Loop.after (step N vle) n (start st) = some s →
        (∃ r, step N vle s = .inl r) ∨
          ∃ s', step N vle s = .inr s' ∧ vle.length - s'.i < vle.length - s.i := by
      intro n s hafter
      rcases (h n s hafter).step with ⟨r, hr, -⟩ | ⟨s', hs', hlt, hi⟩
      · exact .inl ⟨r, hr⟩
      · exact .inr ⟨s', hs', by omega⟩
    obtain ⟨n, r, hrun⟩ := Loop.exists_run (fun s : SimLoop => vle.length - s.i) hstep
    obtain ⟨m, s, hafter, hleave⟩ := Loop.exists_after_of_run hrun
    rcases (h m s hafter).step with ⟨r', hr', hproper⟩ | ⟨s', hs', -⟩
    · rw [hleave] at hr'
      exact ⟨n, r, hrun, Sum.inl.inj hr' ▸ hproper⟩
    · rw [hleave] at hs'
      cases hs'

/-! ## The loop and its result -/

/-- The end of the loop: a window that is still open stops the process. -/
def finish (p : Control × Ledger) : Except Halt Ledger :=
  if p.1.window.isSome then .error (.exit (-1)) else .ok p.2

theorem simulate_eq (N : Node) (vle : List LogEvent) (st : Ledger) :
    simulate N vle st = simulateFrom N .neutral vle st >>= finish := by
  unfold simulate
  cases simulateFrom N .neutral vle st with
  | error e => rfl
  | ok p =>
      obtain ⟨⟨window, ple, ple1⟩, st'⟩ := p
      cases window with
      | none => rfl
      | some dd => rfl

/-- What is left to do in a state, as `simulate` does it. -/
def rest (N : Node) (vle : List LogEvent) (s : SimLoop) : Except Halt Ledger :=
  simulateFrom N s.control (vle.drop s.i) s.ledger >>= finish

theorem rest_end (h : vle[s.i]? = none) : s.rest N vle = finish (s.control, s.ledger) := by
  rw [rest, List.drop_of_length_le (List.getElem?_eq_none_iff.mp h)]
  rfl

theorem rest_event {le : LogEvent} (h : vle[s.i]? = some le) :
    s.rest N vle = (dispatch N s.control le >>= s.follow N) >>= fun s' => s'.rest N vle := by
  obtain ⟨hlt, hget⟩ := List.getElem?_eq_some_iff.mp h
  rw [rest, List.drop_eq_getElem_cons hlt, hget, simulateFrom]
  cases dispatch N s.control le with
  | error e => rfl
  | ok p =>
      obtain ⟨c, call⟩ := p
      cases call with
      | none => rfl
      | some call =>
          simp only [bind, Except.bind, follow, nextBy]
          cases call.exec N s.ledger with
          | error e => rfl
          | ok st' => rfl

/-- A step leaves the loop with what `simulate` gives, goes on to a state with the same left to do, or
stands on a foreign message. -/
theorem step_rest (s : SimLoop) :
    (∃ r, s.step N vle = .inl r ∧ s.rest N vle = r) ∨
    (∃ s', s.step N vle = .inr s' ∧ s.rest N vle = s'.rest N vle) ∨
    (s.step N vle = .inr s ∧ s.rest N vle = .error .diverge) := by
  cases hle : vle[s.i]? with
  | none =>
      refine .inl ⟨_, step_end hle, ?_⟩
      rw [rest_end hle]
      rfl
  | some le =>
      rw [rest_event hle]
      cases hself : le.selfCheck N.K N.gCurrentProcessingEpoch with
      | false =>
          have hdisp : dispatch N s.control le = .error (.exit 2) := if_pos hself
          refine .inl ⟨_, step_error hle (body_unchecked hself), ?_⟩
          rw [hdisp]
          rfl
      | true =>
          by_cases hforeign : s.Foreign le
          · obtain ⟨hbody, hdisp⟩ := body_foreign hforeign hself
            refine .inr (.inr ⟨step_ok hle hbody, ?_⟩)
            rw [hdisp]
            rfl
          · rw [← body_eq hforeign]
            cases hbody : s.body N le with
            | error e => exact .inl ⟨_, step_error hle hbody, rfl⟩
            | ok s' => exact .inr (.inl ⟨s', step_ok hle hbody, rfl⟩)

/-- Where the loop ends, its result is that of `simulate`. -/
theorem loop_eq_simulate {n : Nat} {st : Ledger} {r : Except Halt Ledger}
    (h : Loop.run (step N vle) n (start st) = some r) : simulate N vle st = r := by
  have hrest : ∀ n (s : SimLoop), Loop.run (step N vle) n s = some r → s.rest N vle = r := by
    intro n
    induction n with
    | zero => exact fun s hs => nomatch hs
    | succ n ih =>
        intro s hs
        rcases @step_rest N vle s with ⟨r', hleave, hr'⟩ | ⟨s', hgo, hsame⟩ | ⟨hself, -⟩
        · rw [Loop.run_inl hleave] at hs
          rw [hr', Option.some.inj hs]
        · rw [Loop.run_inr hgo] at hs
          rw [hsame]
          exact ih s' hs
        · rw [Loop.run_inr hself] at hs
          exact ih s hs
  rw [simulate_eq]
  exact hrest n (start st) h

/-! ## A message that is not the end -/

/-- A dividend window with the custom message 7 in it. -/
def windowWithMessage : List LogEvent :=
  [.ofCustomMessage 11 0 CUSTOM_MESSAGE_OP_START_DISTRIBUTE_DIVIDENDS, .ofCustomMessage 11 1 7]

/-- A node at the epoch of the events. -/
def windowNode : Node := ⟨⟨fun _ => 7, fun _ => 0⟩, 2, 2, 1⟩

/-- The loop at the message. -/
def inWindow : SimLoop := ⟨1, { Control.neutral with window := some [] }, oneEntityLedger 100⟩

/-- Every event passes its check, and the loop stays at the message. -/
theorem windowWithMessage_loops :
    (∀ le ∈ windowWithMessage,
      le.selfCheck windowNode.K windowNode.gCurrentProcessingEpoch = true) ∧
    ¬ Stops windowNode windowWithMessage (oneEntityLedger 100) := by
  constructor
  · decide
  · rintro ⟨n, r, hrun, -⟩
    have hopen : step windowNode windowWithMessage (start (oneEntityLedger 100)) = .inr inWindow := rfl
    have hagain : ∀ s, s = inWindow →
        ∃ s', step windowNode windowWithMessage s = .inr s' ∧ s' = inWindow := by
      rintro s rfl
      exact ⟨inWindow, rfl, rfl⟩
    have hloop : Loop.run (step windowNode windowWithMessage) n inWindow = none :=
      Loop.run_eq_none hagain rfl n
    have hmore := Loop.run_add 1 hrun
    rw [Loop.run_inr hopen, hloop] at hmore
    cases hmore

end SimLoop

end QubicBob
