import QubicBob.Archive.LogRanges
import QubicBob.Network.LogReply
import QubicBob.Network.StructBytes

set_option autoImplicit false

/-! # The log fetcher

`EventRequestFromTrustedNode`, the thread that moves `gCurrentFetchingLogTick`. For the tick it is
at it asks for the log ranges, then for the logs, in chunks of 128 ids, and it goes to the next tick
when KeyDB has a range for the tick and a log under each of its ids. While the verifier is in rescue
mode it asks for what the verifier wants to have again and does nothing else.

Every access to the database is a step of its own, so that the other threads may work between any
two of them; an access that fails is taken for the answer no. What the thread has found out so far
is its phase: in the scan over the ids, those behind `fromId` have had a log (`FetchPhase.Scanned`).
As an answer yes is only given to what is there, and the logs of the tick stay, this is still so
when the scan ends, and then the tick is `Fetched`. No other phase leads to the next tick.
-/

namespace QubicBob

def BOB_LOG_EVENT_CHUNK_SIZE : Int := 128

/-! ## Requests -/

inductive LogRequest where
  | RequestAllLogIdRangesFromTick (tick : Nat)
  | RequestLog (fromid toid : Int)
  deriving DecidableEq, Repr

namespace LogRequest

def type : LogRequest → Nat
  | RequestAllLogIdRangesFromTick _ => REQUEST_ALL_LOG_ID_RANGES_FROM_TICK
  | RequestLog _ _ => REQUEST_LOG

/-- The struct, with the passcode of the connection at its start. Behind a tick are four bytes of
padding. -/
def bytes (passcode : m256i) (padding : BitVec 32) : LogRequest → List Byte
  | RequestAllLogIdRangesFromTick tick =>
      passcode.bytes ++ (leBytes 4 (BitVec.ofNat 32 tick) ++ leBytes 4 padding)
  | RequestLog fromid toid =>
      passcode.bytes ++ (leBytes 8 (BitVec.ofInt 64 fromid) ++ leBytes 8 (BitVec.ofInt 64 toid))

/-- A request for logs is for at least one id and for at most a chunk. -/
def OneChunk : LogRequest → Prop
  | RequestAllLogIdRangesFromTick _ => True
  | RequestLog fromid toid => fromid ≤ toid ∧ toid < fromid + BOB_LOG_EVENT_CHUNK_SIZE

end LogRequest

/-! ## Reading -/

namespace DataStore

def dbCheckLogRange (db : DataStore) (tick : Nat) : Bool := (db.logRanges tick).isSome

/-- A log id is turned into a `uint64_t`. -/
def dbLogExists (db : DataStore) (epoch : Nat) (logId : Int) : Bool :=
  (db.logs epoch (BitVec.ofInt 64 logId).toNat).isSome

/-- From KeyDB where it answers and has a range, else what Kvrocks has; a range with a number `-1`
is the range `(-1, -1)`. -/
def dbTryGetLogRangeForTick (db : DataStore) (kvrocks : Nat → Option (Int × Int)) (up : Bool)
    (tick : Nat) : Option (Int × Int) :=
  ((if up then db.tickLogRange tick else none).or (kvrocks tick)).map fun r =>
    if r.1 = -1 ∨ r.2 = -1 then (-1, -1) else r

end DataStore

/-! ## The thread -/

/-- Where the thread is in its loop. -/
inductive FetchPhase where
  /-- the head of the first rescue loop, which is also the head of the whole loop -/
  | refetchTicks
  | refetchTick (t : Int)
  /-- the head of the second rescue loop -/
  | refetchIds
  | refetchId (s : Int)
  | main
  /-- the log ranges of the tick are there -/
  | range
  /-- the loop over the ids that have a log -/
  | scan (fromId endId : Int)
  /-- the loop over the chunks, which begin at `s` -/
  | request (fromId endId s : Int)
  /-- the tick has been left, which is not recorded yet -/
  | passed
  | prefetch (i : Nat)
  deriving DecidableEq, Repr

structure LogFetcher where
  gCurrentProcessingEpoch : Nat
  gCurrentFetchingTick : Nat
  gCurrentFetchingLogTick : Nat
  refetchLogFromTick : Int := -1
  refetchLogToTick : Int := -1
  refetchFromId : Int := -1
  refetchToId : Int := -1
  /-- the fields `latest_event_tick` and `latest_event_epoch` of `db_status` -/
  latestEvent : Option (Nat × Nat) := none
  phase : FetchPhase := .refetchTicks
  deriving DecidableEq, Repr

/-- What the thread reads: the databases, and whether KeyDB answers. -/
structure FetchView where
  db : DataStore
  kvrocks : Nat → Option (Int × Int)
  up : Bool

namespace LogFetcher

/-- One step of the thread, with the request it sends. -/
def step (v : FetchView) (f : LogFetcher) : Option LogRequest × LogFetcher :=
  match f.phase with
  | .refetchTicks =>
      if f.refetchLogFromTick ≠ -1 ∧ f.refetchLogToTick ≠ -1 then
        (none, { f with phase := .refetchTick f.refetchLogFromTick })
      else (none, { f with phase := .refetchIds })
  | .refetchTick t =>
      if t ≤ f.refetchLogToTick then
        (if v.up && v.db.dbCheckLogRange t.toNat then none
          else some (.RequestAllLogIdRangesFromTick t.toNat),
          { f with phase := .refetchTick (t + 1) })
      else (none, { f with phase := .refetchTicks })
  | .refetchIds =>
      if f.refetchFromId ≠ -1 ∧ f.refetchToId ≠ -1 then
        (none, { f with phase := .refetchId f.refetchFromId })
      else (none, { f with phase := .main })
  | .refetchId s =>
      if s ≤ f.refetchToId then
        (some (.RequestLog s (min f.refetchToId (s + BOB_LOG_EVENT_CHUNK_SIZE - 1))),
          { f with phase := .refetchId (s + BOB_LOG_EVENT_CHUNK_SIZE) })
      else (none, { f with phase := .refetchIds })
  | .main =>
      if f.gCurrentFetchingTick + 1 ≤ f.gCurrentFetchingLogTick then
        (none, { f with phase := .refetchTicks })
      else if v.up && v.db.dbCheckLogRange f.gCurrentFetchingLogTick then
        (none, { f with phase := .range })
      else
        (some (.RequestAllLogIdRangesFromTick f.gCurrentFetchingLogTick),
          { f with phase := .prefetch 1 })
  | .range =>
      match v.db.dbTryGetLogRangeForTick v.kvrocks v.up f.gCurrentFetchingLogTick with
      | none => (none, { f with phase := .refetchTicks })
      | some (fromId, length) =>
          -- a tick without logs is left, and this is not recorded
          if fromId = -1 ∨ length = -1 then
            (none, { f with
              gCurrentFetchingLogTick := f.gCurrentFetchingLogTick + 1, phase := .refetchTicks })
          else (none, { f with phase := .scan fromId (fromId + length - 1) })
  | .scan fromId endId =>
      if v.up && v.db.dbLogExists f.gCurrentProcessingEpoch fromId && decide (fromId ≤ endId) then
        (none, { f with phase := .scan (fromId + 1) endId })
      else (none, { f with phase := .request fromId endId fromId })
  | .request fromId endId s =>
      if s ≤ endId then
        (some (.RequestLog s (min endId (s + BOB_LOG_EVENT_CHUNK_SIZE - 1))),
          { f with phase := .request fromId endId (s + BOB_LOG_EVENT_CHUNK_SIZE) })
      else if endId < fromId then
        (none, { f with
          gCurrentFetchingLogTick := f.gCurrentFetchingLogTick + 1, phase := .passed })
      else (none, { f with phase := .prefetch 1 })
  | .passed =>
      (none, { f with
        latestEvent :=
          if v.up then some (f.gCurrentFetchingLogTick, f.gCurrentProcessingEpoch)
          else f.latestEvent
        phase := .prefetch 1 })
  | .prefetch i =>
      if i < 5 then
        (if v.up && v.db.dbCheckLogRange (f.gCurrentFetchingLogTick + i) then none
          else some (.RequestAllLogIdRangesFromTick (f.gCurrentFetchingLogTick + i)),
          { f with phase := .prefetch (i + 1) })
      else (none, { f with phase := .refetchTicks })

end LogFetcher

/-! ## What the thread asks for -/

/-- A request of the thread, with what its packet needs besides. -/
structure AskedRequest where
  request : LogRequest
  passcode : m256i
  padding : BitVec 32
  dejavu : BitVec 32
  oneChunk : request.OneChunk

namespace AskedRequest

def packet (a : AskedRequest) : List Byte :=
  enqueueWithHeader a.dejavu.toNat a.request.type (a.request.bytes a.passcode a.padding)

end AskedRequest

section requests

variable {v : FetchView} {f : LogFetcher}

/-- A request for logs is for at most 128 ids. -/
theorem LogFetcher.step_request {r : LogRequest} (h : (f.step v).1 = some r) : r.OneChunk := by
  have hchunk : ∀ s endId : Int, s ≤ endId →
      s ≤ min endId (s + BOB_LOG_EVENT_CHUNK_SIZE - 1) ∧
        min endId (s + BOB_LOG_EVENT_CHUNK_SIZE - 1) < s + BOB_LOG_EVENT_CHUNK_SIZE := by
    intro s endId hle
    rw [BOB_LOG_EVENT_CHUNK_SIZE]
    omega
  unfold LogFetcher.step at h
  cases hphase : f.phase with
  | refetchTicks =>
      simp only [hphase] at h
      split at h
      · cases h
      · cases h
  | refetchTick t =>
      simp only [hphase] at h
      split at h
      · dsimp only at h
        split at h
        · cases h
        · rw [← Option.some.inj h]
          exact trivial
      · cases h
  | refetchIds =>
      simp only [hphase] at h
      split at h
      · cases h
      · cases h
  | refetchId s =>
      simp only [hphase] at h
      split at h
      · next hle =>
          rw [← Option.some.inj h]
          exact hchunk s f.refetchToId hle
      · cases h
  | main =>
      simp only [hphase] at h
      split at h
      · cases h
      split at h
      · cases h
      · rw [← Option.some.inj h]
        exact trivial
  | range =>
      simp only [hphase] at h
      split at h
      · cases h
      · split at h
        · cases h
        · cases h
  | scan fromId endId =>
      simp only [hphase] at h
      split at h
      · cases h
      · cases h
  | request fromId endId s =>
      simp only [hphase] at h
      split at h
      · next hle =>
          rw [← Option.some.inj h]
          exact hchunk s endId hle
      · split at h
        · cases h
        · cases h
  | passed =>
      simp only [hphase] at h
      cases h
  | prefetch i =>
      simp only [hphase] at h
      split at h
      · dsimp only at h
        split at h
        · cases h
        · rw [← Option.some.inj h]
          exact trivial
      · cases h

/-! ## What it goes by -/

/-- The tick has a range, and each id of it has a log. -/
def Fetched (range : Option (Int × Int)) (has : Int → Prop) : Prop :=
  ∃ r, range = some r ∧ (r.1 = -1 ∨ r.2 = -1 ∨ ∀ id, r.1 ≤ id → id < r.1 + r.2 → has id)

/-- What the thread has found out about its tick: the ids it has gone past have logs. -/
def FetchPhase.Scanned (range : Option (Int × Int)) (has : Int → Prop) : FetchPhase → Prop
  | .scan fromId endId => ∃ r, range = some r ∧ endId = r.1 + r.2 - 1 ∧
      ∀ id, r.1 ≤ id → id < r.1 + r.2 → id < fromId → has id
  | .request fromId endId _ => ∃ r, range = some r ∧ endId = r.1 + r.2 - 1 ∧
      ∀ id, r.1 ≤ id → id < r.1 + r.2 → id < fromId → has id
  | _ => True

/-- What has been found out is still so where the ids of the range keep their logs. -/
theorem FetchPhase.Scanned.mono_in {range : Option (Int × Int)} {has has' : Int → Prop}
    {p : FetchPhase} (hp : p.Scanned range has)
    (h : ∀ r, range = some r → ∀ id, r.1 ≤ id → id < r.1 + r.2 → has id → has' id) :
    p.Scanned range has' := by
  cases p with
  | scan fromId endId =>
      obtain ⟨r, hr, hend, hall⟩ := hp
      exact ⟨r, hr, hend, fun id h₁ h₂ h₃ => h r hr id h₁ h₂ (hall id h₁ h₂ h₃)⟩
  | request fromId endId s =>
      obtain ⟨r, hr, hend, hall⟩ := hp
      exact ⟨r, hr, hend, fun id h₁ h₂ h₃ => h r hr id h₁ h₂ (hall id h₁ h₂ h₃)⟩
  | _ => exact trivial

theorem FetchPhase.Scanned.mono {range : Option (Int × Int)} {has has' : Int → Prop}
    {p : FetchPhase} (hp : p.Scanned range has) (h : ∀ id, has id → has' id) :
    p.Scanned range has' :=
  hp.mono_in fun _ _ id _ _ hid => h id hid

/-- The thread stays at its tick, and what it has found out is still so; or it has fetched its tick
and is at the next one. -/
theorem LogFetcher.step_passes {range : Option (Int × Int)} {has : Int → Prop}
    (hrange : ∀ r, v.db.dbTryGetLogRangeForTick v.kvrocks v.up f.gCurrentFetchingLogTick = some r →
      range = some r)
    (hhas : ∀ id, v.db.dbLogExists f.gCurrentProcessingEpoch id = true → has id)
    (hphase : f.phase.Scanned range has) :
    ((f.step v).2.gCurrentFetchingLogTick = f.gCurrentFetchingLogTick ∧
        (f.step v).2.phase.Scanned range has) ∨
      ((f.step v).2.gCurrentFetchingLogTick = f.gCurrentFetchingLogTick + 1 ∧
        Fetched range has) := by
  unfold LogFetcher.step
  cases hp : f.phase with
  | refetchTicks => exact .inl (by dsimp only; split <;> exact ⟨rfl, trivial⟩)
  | refetchTick t => exact .inl (by dsimp only; split <;> exact ⟨rfl, trivial⟩)
  | refetchIds => exact .inl (by dsimp only; split <;> exact ⟨rfl, trivial⟩)
  | refetchId s => exact .inl (by dsimp only; split <;> exact ⟨rfl, trivial⟩)
  | main =>
      refine .inl ?_
      dsimp only
      split
      · exact ⟨rfl, trivial⟩
      split
      · exact ⟨rfl, trivial⟩
      · exact ⟨rfl, trivial⟩
  | range =>
      dsimp only
      split
      · exact .inl ⟨rfl, trivial⟩
      next fromId length hread =>
      have hr := hrange (fromId, length) hread
      split
      · next hnone =>
        exact .inr ⟨rfl, _, hr, hnone.imp_right .inl⟩
      · exact .inl ⟨rfl, _, hr, rfl, fun id h₁ _ h₃ => absurd h₃ (by omega)⟩
  | scan fromId endId =>
      rw [hp] at hphase
      obtain ⟨r, hr, hend, hall⟩ := hphase
      refine .inl ?_
      dsimp only
      split
      · next hfound =>
        simp only [Bool.and_eq_true, decide_eq_true_eq] at hfound
        refine ⟨rfl, r, hr, hend, fun id h₁ h₂ h₃ => ?_⟩
        rcases Int.lt_or_eq_of_le (Int.lt_add_one_iff.mp h₃) with hlt | rfl
        · exact hall id h₁ h₂ hlt
        · exact hhas id hfound.1.2
      · exact ⟨rfl, r, hr, hend, hall⟩
  | request fromId endId s =>
      rw [hp] at hphase
      obtain ⟨r, hr, hend, hall⟩ := hphase
      dsimp only
      split
      · exact .inl ⟨rfl, r, hr, hend, hall⟩
      split
      · next hpast =>
        exact .inr ⟨rfl, r, hr, .inr (.inr fun id h₁ h₂ => hall id h₁ h₂ (by omega))⟩
      · exact .inl ⟨rfl, trivial⟩
  | passed => exact .inl ⟨rfl, trivial⟩
  | prefetch i => exact .inl (by dsimp only; split <;> exact ⟨rfl, trivial⟩)

/-- The thread has found the log ranges of its tick. -/
def FetchPhase.ranged : FetchPhase → Bool
  | .range | .scan _ _ | .request _ _ _ => true
  | _ => false

/-- The thread stays at its tick, or it goes to the next one, which it does only where it has found
the log ranges; it then begins anew. -/
theorem LogFetcher.step_tick :
    ((f.step v).2.gCurrentFetchingLogTick = f.gCurrentFetchingLogTick ∧
        ((f.step v).2.phase.ranged = true →
          f.phase.ranged = true ∨ v.db.dbCheckLogRange f.gCurrentFetchingLogTick = true)) ∨
      ((f.step v).2.gCurrentFetchingLogTick = f.gCurrentFetchingLogTick + 1 ∧
        f.phase.ranged = true ∧
        ((f.step v).2.phase = .refetchTicks ∨ (f.step v).2.phase = .passed)) := by
  have hno : ∀ {P : Prop}, false = true → P := fun h => absurd h Bool.false_ne_true
  unfold LogFetcher.step
  cases hp : f.phase with
  | main =>
      refine .inl ?_
      dsimp only
      split
      · exact ⟨rfl, hno⟩
      split
      · next hcheck =>
        rw [Bool.and_eq_true] at hcheck
        exact ⟨rfl, fun _ => .inr hcheck.2⟩
      · exact ⟨rfl, hno⟩
  | range =>
      dsimp only
      split
      · exact .inl ⟨rfl, hno⟩
      split
      · exact .inr ⟨rfl, rfl, .inl rfl⟩
      · exact .inl ⟨rfl, fun _ => .inl rfl⟩
  | scan fromId endId =>
      dsimp only
      split <;> exact .inl ⟨rfl, fun _ => .inl rfl⟩
  | request fromId endId s =>
      dsimp only
      split
      · exact .inl ⟨rfl, fun _ => .inl rfl⟩
      split
      · exact .inr ⟨rfl, rfl, .inr rfl⟩
      · exact .inl ⟨rfl, hno⟩
  | passed => exact .inl ⟨rfl, hno⟩
  | refetchTicks => exact .inl (by dsimp only; split <;> exact ⟨rfl, hno⟩)
  | refetchTick t => exact .inl (by dsimp only; split <;> exact ⟨rfl, hno⟩)
  | refetchIds => exact .inl (by dsimp only; split <;> exact ⟨rfl, hno⟩)
  | refetchId s => exact .inl (by dsimp only; split <;> exact ⟨rfl, hno⟩)
  | prefetch i => exact .inl (by dsimp only; split <;> exact ⟨rfl, hno⟩)

/-- What the thread does not write. -/
theorem LogFetcher.step_frame :
    (f.step v).2.gCurrentProcessingEpoch = f.gCurrentProcessingEpoch ∧
      (f.step v).2.gCurrentFetchingTick = f.gCurrentFetchingTick ∧
      ((f.step v).2.latestEvent = f.latestEvent ∨
        (f.step v).2.latestEvent =
          some (f.gCurrentFetchingLogTick, f.gCurrentProcessingEpoch)) := by
  unfold LogFetcher.step
  split
  · split <;> exact ⟨rfl, rfl, .inl rfl⟩
  · split <;> exact ⟨rfl, rfl, .inl rfl⟩
  · split <;> exact ⟨rfl, rfl, .inl rfl⟩
  · split <;> exact ⟨rfl, rfl, .inl rfl⟩
  · split
    · exact ⟨rfl, rfl, .inl rfl⟩
    · split <;> exact ⟨rfl, rfl, .inl rfl⟩
  · split
    · exact ⟨rfl, rfl, .inl rfl⟩
    · split <;> exact ⟨rfl, rfl, .inl rfl⟩
  · split <;> exact ⟨rfl, rfl, .inl rfl⟩
  · split
    · exact ⟨rfl, rfl, .inl rfl⟩
    · split <;> exact ⟨rfl, rfl, .inl rfl⟩
  · refine ⟨rfl, rfl, ?_⟩
    cases v.up with
    | true => exact .inr rfl
    | false => exact .inl rfl
  · split <;> exact ⟨rfl, rfl, .inl rfl⟩

end requests

end QubicBob
