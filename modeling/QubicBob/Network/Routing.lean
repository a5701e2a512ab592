import QubicBob.Lib.Runs
import QubicBob.Network.RoundBuffer
import QubicBob.Network.RequestThread

set_option autoImplicit false

/-! # Routing of replies

The request side of the node: a receiver thread for each connection puts a request into
`MRB_Request` and, as a second step, notes its connection under the request's dejavu in
`requestMapperTo`; worker threads take requests from the queue, look the connection up and call the
handler; the main thread removes old entries. The dejavu is the client's choice.

The ring holds bytes only. Which request they belong to is kept beside it (`queued`), with the
history a statement about routing needs: the notes made so far, the requests taken and what became
of each.

The map has for each dejavu the latest note, unless this is older than the retention (`MapInv`). A
worker's look-up is therefore right exactly when the request's own note is there and is the latest
of its dejavu, and this is what `Orderly` asks of the step. All the rest is bookkeeping that no step
can break: the ring is the queue of the requests not yet taken, a worker's buffer has the bytes of
the request it took, and a handler sends on no connection but the one it is given.
-/

namespace QubicBob

/-- A request as it was put into the queue. -/
structure QueuedRequest where
  id : Nat
  conn : Conn
  packet : List Byte
  enqueuedAt : Nat
  deriving DecidableEq, Repr

def QueuedRequest.dejavu (r : QueuedRequest) : Nat :=
  (RequestResponseHeader.ofBytes r.packet).getDejavu

/-- A request with the time of one of its steps: its note in the map, or its removal from the
queue. -/
structure Timed where
  request : QueuedRequest
  time : Nat
  deriving DecidableEq, Repr

/-- Not more than the retention of the map after the request came in. -/
def Timed.InTime (d : Timed) : Prop := d.time ≤ d.request.enqueuedAt + 60

/-- A worker: the loop of `RequestProcessorThread` between `GetPacket` and the look-up, or stopped
in a handler that does not return or by a write behind its buffer. -/
structure Worker where
  thread : RequestThread := {}
  holding : Option (Timed × List Byte) := none
  stopped : Bool := false
  deriving DecidableEq, Repr

structure Routing where
  clock : Nat
  MRB_Request : MutexRoundBuffer
  requestMapperTo : RequestMap
  /-- the request a receiver has put into the queue and not yet noted in the map -/
  unnoted : Conn → Option QueuedRequest
  workers : Nat → Worker
  nextId : Nat
  queued : List QueuedRequest
  notes : List Timed
  taken : List Timed
  outcomes : List (Timed × Option (List Send))

inductive RoutingStep where
  | receive (conn : Conn) (packet : List Byte)
  | note (conn : Conn)
  | fetch (k : Nat)
  | answer (k : Nat) (S : Serving) (rnd : Nat) (stale : List Byte)
  | clean
  | elapse (seconds : Nat)

namespace Routing

open MutexRoundBuffer

/-- A queue of `C` bytes and no request yet. The node has 64 MiB. -/
def start (C : Nat) : Routing where
  clock := 0
  MRB_Request := MutexRoundBuffer.new C
  requestMapperTo := RequestMap.empty
  unnoted := fun _ => none
  workers := fun _ => {}
  nextId := 0
  queued := []
  notes := []
  taken := []
  outcomes := []

/-- What `connReceiver` lets through to the request queue: a packet as `receiveAFullPacket` fills
it, of a request type. -/
def admitted (packet : List Byte) : Bool :=
  decide (IsPacket packet) && decide (packet.length ≤ RequestResponseHeader.max_size)
    && isRequestType (RequestResponseHeader.ofBytes packet).type

def setWorker (s : Routing) (k : Nat) (w : Worker) : Routing :=
  { s with workers := Function.update s.workers k w }

/-- A request leaves the workers: its handler was called (with what it sent), or it was dropped. -/
def finish (s : Routing) (k : Nat) (w : Worker) (d : Timed) (result : Option (List Send)) :
    Routing :=
  { s.setWorker k w with outcomes := s.outcomes ++ [(d, result)] }

/-- The first half of an iteration on a packet that `GetPacket` has handed out. -/
def takeUp (s : Routing) (k : Nat) (d : Timed) (bytes : List Byte) : Routing :=
  let w := s.workers k
  let w' : Worker := { w with thread := w.thread.fetch bytes }
  if RequestResponseHeader.max_size < w.thread.ptr + bytes.length then
    -- the copy runs over the end of the buffer
    s.finish k { w' with stopped := true } d none
  else if RequestThread.malformed bytes.length then s.finish k w' d none
  else s.setWorker k { w' with holding := some (d, bytes) }

def step (s : Routing) : RoutingStep → Routing
  | .receive conn packet =>
      if (s.unnoted conn).isSome ∨ admitted packet = false then s
      else
        match s.MRB_Request.EnqueuePacket packet with
        | .refused => s
        | .waits => s
        | .stored rb =>
            let r : QueuedRequest :=
              { id := s.nextId, conn := conn, packet := packet, enqueuedAt := s.clock }
            { s with
              MRB_Request := rb
              nextId := s.nextId + 1
              queued := s.queued ++ [r]
              unnoted := Function.update s.unnoted conn (some r) }
  | .note conn =>
      match s.unnoted conn with
      | none => s
      | some r =>
          { s with
            requestMapperTo := s.requestMapperTo.add s.clock r.dejavu [] (some conn)
            notes := ⟨r, s.clock⟩ :: s.notes
            unnoted := Function.update s.unnoted conn none }
  | .fetch k =>
      if (s.workers k).stopped ∨ (s.workers k).holding.isSome then s
      else
        match s.MRB_Request.GetPacket, s.queued with
        | .packet bytes _ rb, r :: rest =>
            ({ s with
              MRB_Request := rb
              queued := rest
              taken := s.taken ++ [⟨r, s.clock⟩] } : Routing).takeUp k ⟨r, s.clock⟩ bytes
        | _, _ => s
  | .answer k S rnd stale =>
      match (s.workers k).holding with
      | none => s
      | some (d, bytes) =>
          let w : Worker := { s.workers k with holding := none }
          match RequestThread.answer S s.requestMapperTo rnd stale bytes with
          | none => s.finish k w d none
          | some (.ok sends) => s.finish k w d (some sends)
          | some (.error _) => s.finish k { w with stopped := true } d (some [])
  | .clean => { s with requestMapperTo := s.requestMapperTo.clean s.clock 60 }
  | .elapse seconds => { s with clock := s.clock + seconds }

def run (s : Routing) (steps : List RoutingStep) : Routing := Runs.run step s steps

/-- Every request taken within the retention has been handled, or a worker is about to look its
connection up; and what was sent for it went to its own connection. -/
structure Answered (s : Routing) : Prop where
  handled : ∀ d ∈ s.taken, d.InTime →
    (∃ k bytes, (s.workers k).holding = some (d, bytes)) ∨
      ∃ sends, (d, some sends) ∈ s.outcomes
  sent : ∀ d result, (d, result) ∈ s.outcomes → d.InTime →
    ∃ sends, result = some sends ∧ OnlyTo d.request.conn sends

/-- The condition on a step. A request is taken into a buffer that has room for it and is not of
the largest size; it is looked up within the retention, after its own note in the map and before
another connection notes the same dejavu. -/
def Orderly (s : Routing) : RoutingStep → Prop
  | .fetch k => ∀ r rest, s.queued = r :: rest → s.clock ≤ r.enqueuedAt + 60 →
      r.packet.length < RequestResponseHeader.max_size ∧
        (s.workers k).thread.ptr + r.packet.length ≤ RequestResponseHeader.max_size
  | .answer k _ _ _ => ∀ d bytes, (s.workers k).holding = some (d, bytes) → d.InTime →
      s.clock ≤ d.request.enqueuedAt + 60 ∧
        ∃ later own earlier, s.notes = later ++ own :: earlier ∧ own.request = d.request ∧
          ∀ a ∈ later, a.request.dejavu = d.request.dejavu → a.request.conn = d.request.conn
  | _ => True

def OrderlyRun (s : Routing) (steps : List RoutingStep) : Prop := Runs.Guarded step Orderly s steps

/-! ## The map -/

/-- The notes are in order of time, and the map has the latest note of each dejavu unless it is
older than the retention. -/
structure MapInv (s : Routing) : Prop where
  sorted : s.notes.Pairwise (fun a b => b.time ≤ a.time)
  times : ∀ a ∈ s.notes, a.request.enqueuedAt ≤ a.time ∧ a.time ≤ s.clock
  latest : ∀ dejavu a, s.notes.find? (fun a => a.request.dejavu = dejavu) = some a →
    s.clock ≤ a.time + 60 →
      s.requestMapperTo dejavu =
        some { timestamp := a.time, conn := some a.request.conn, data := [] }

section map

variable {s : Routing}

/-- A request looked up within the retention, after its own note and before another connection's,
finds its own connection. -/
theorem MapInv.getConn_eq (h : MapInv s) {r : QueuedRequest} {own : Timed}
    {later earlier : List Timed} (hnotes : s.notes = later ++ own :: earlier)
    (hown : own.request = r)
    (hlater : ∀ a ∈ later, a.request.dejavu = r.dejavu → a.request.conn = r.conn)
    (hclock : s.clock ≤ r.enqueuedAt + 60) :
    s.requestMapperTo.getConn r.dejavu = some r.conn := by
  have hsorted := h.sorted
  rw [hnotes, List.pairwise_append] at hsorted
  have htime : r.enqueuedAt ≤ own.time := by
    have := (h.times own (by rw [hnotes]; simp)).1
    rwa [hown] at this
  -- the latest note of the dejavu is this one, or a later one of the same connection
  have hfind : ∃ a, s.notes.find? (fun a => a.request.dejavu = r.dejavu) = some a ∧
      a.request.conn = r.conn ∧ own.time ≤ a.time := by
    rw [hnotes, List.find?_append]
    cases hl : later.find? (fun a => a.request.dejavu = r.dejavu) with
    | none =>
        refine ⟨own, ?_, by rw [hown], le_rfl⟩
        rw [Option.none_or, List.find?_cons_of_pos (by simp [hown])]
    | some a =>
        have hmem := List.mem_of_find?_eq_some hl
        have hdj : a.request.dejavu = r.dejavu := by simpa using List.find?_some hl
        exact ⟨a, rfl, hlater a hmem hdj, hsorted.2.2 a hmem own List.mem_cons_self⟩
  obtain ⟨a, ha, hconn, hage⟩ := hfind
  have hentry := h.latest r.dejavu a ha (by omega)
  rw [RequestMap.getConn, hentry, Option.bind_some, hconn]

theorem MapInv.note (h : MapInv s) {r : QueuedRequest} {conn : Conn}
    {unnoted : Conn → Option QueuedRequest} (hconn : r.conn = conn) (hr : r.enqueuedAt ≤ s.clock) :
    MapInv { s with
      requestMapperTo := s.requestMapperTo.add s.clock r.dejavu [] (some conn)
      notes := ⟨r, s.clock⟩ :: s.notes
      unnoted := unnoted } where
  sorted := List.pairwise_cons.mpr ⟨fun b hb => (h.times b hb).2, h.sorted⟩
  times := by
    intro a ha
    rcases List.mem_cons.mp ha with rfl | ha
    · exact ⟨hr, le_rfl⟩
    · exact h.times a ha
  latest := by
    intro dejavu a ha hclock
    change s.requestMapperTo.add s.clock r.dejavu [] (some conn) dejavu = _
    by_cases hd : r.dejavu = dejavu
    · rw [List.find?_cons_of_pos (by simpa using hd)] at ha
      rw [← Option.some.inj ha, ← hd, RequestMap.add, Function.update_self, hconn]
    · rw [List.find?_cons_of_neg (by simpa using hd)] at ha
      rw [RequestMap.add, Function.update_of_ne (Ne.symm hd)]
      exact h.latest dejavu a ha hclock

theorem MapInv.clean (h : MapInv s) :
    MapInv { s with requestMapperTo := s.requestMapperTo.clean s.clock 60 } where
  sorted := h.sorted
  times := h.times
  latest := by
    intro dejavu a ha hclock
    change s.clock ≤ a.time + 60 at hclock
    change s.requestMapperTo.clean s.clock 60 dejavu = _
    rw [RequestMap.clean, h.latest dejavu a ha hclock, Option.filter_some, if_pos]
    exact decide_eq_true (show s.clock - a.time ≤ 60 by omega)

theorem MapInv.elapse (h : MapInv s) (seconds : Nat) :
    MapInv { s with clock := s.clock + seconds } where
  sorted := h.sorted
  times := fun a ha => ⟨(h.times a ha).1, Nat.le_add_right_of_le (h.times a ha).2⟩
  latest := by
    intro dejavu a ha hclock
    change s.clock + seconds ≤ a.time + 60 at hclock
    exact h.latest dejavu a ha (by omega)

end map

/-! ## Runs -/

/-- A worker is about to look the request up, or its handler was called. -/
def InHand (s : Routing) (d : Timed) : Prop :=
  (∃ k bytes, (s.workers k).holding = some (d, bytes)) ∨ ∃ sends, (d, some sends) ∈ s.outcomes

def AnsweredRight (d : Timed) (result : Option (List Send)) : Prop :=
  ∃ sends, result = some sends ∧ OnlyTo d.request.conn sends

structure Inv (s : Routing) : Prop where
  ring : s.MRB_Request.Holds (s.queued.map QueuedRequest.packet)
  map : MapInv s
  unnoted : ∀ conn r, s.unnoted conn = some r → r.conn = conn ∧ r.enqueuedAt ≤ s.clock
  holding : ∀ k d bytes, (s.workers k).holding = some (d, bytes) → bytes = d.request.packet
  answered : Answered s

section steps

variable {s : Routing} {k : Nat} {d : Timed} {bytes : List Byte}

theorem inv_start {C : Nat} (hC : 0 < C) : Inv (start C) where
  ring := holds_new hC
  map := ⟨List.Pairwise.nil, fun _ h => absurd h List.not_mem_nil, fun _ _ h => nomatch h⟩
  unnoted := fun _ _ h => nomatch h
  holding := fun _ _ _ h => nomatch h
  answered := ⟨fun _ h => absurd h List.not_mem_nil, fun _ _ h => absurd h List.not_mem_nil⟩

theorem setWorker_holding {w : Worker} {j : Nat} (hj : j ≠ k) :
    ((s.setWorker k w).workers j).holding = (s.workers j).holding := by
  change (Function.update s.workers k w j).holding = _
  rw [Function.update_of_ne hj]

theorem setWorker_self (w : Worker) : (s.setWorker k w).workers k = w := by
  change Function.update s.workers k w k = w
  rw [Function.update_self]

/-- A request that another worker holds, or that was handled, stays so. -/
theorem InHand.finish {w : Worker} {d' : Timed} {result : Option (List Send)}
    (hk : ∀ bytes, (s.workers k).holding = some (d', bytes) → d' = d ∧ result.isSome)
    (h : InHand s d') : InHand (s.finish k w d result) d' := by
  rcases h with ⟨j, bytes', hj⟩ | ⟨sends, hs⟩
  · by_cases hjk : j = k
    · subst hjk
      obtain ⟨rfl, hres⟩ := hk bytes' hj
      obtain ⟨sends, rfl⟩ := Option.isSome_iff_exists.mp hres
      exact Or.inr ⟨sends, List.mem_append_right _ List.mem_cons_self⟩
    · exact Or.inl ⟨j, bytes', (setWorker_holding hjk).trans hj⟩
  · exact Or.inr ⟨sends, List.mem_append_left _ hs⟩

/-- The requests of the other workers are still what they were. -/
theorem holding_setWorker {w : Worker}
    (hw : ∀ d bytes, w.holding = some (d, bytes) → bytes = d.request.packet)
    (h : ∀ k d bytes, (s.workers k).holding = some (d, bytes) → bytes = d.request.packet) :
    ∀ j d bytes, ((s.setWorker k w).workers j).holding = some (d, bytes) →
      bytes = d.request.packet := by
  intro j d bytes hj
  by_cases hjk : j = k
  · subst hjk
    rw [setWorker_self] at hj
    exact hw d bytes hj
  · rw [setWorker_holding hjk] at hj
    exact h j d bytes hj

/-- A request leaves worker `k`, which held this request or none, with the given result. -/
theorem Inv.finish {w : Worker} {result : Option (List Send)} (h : Inv s) (hw : w.holding = none)
    (hk : ∀ d' bytes, (s.workers k).holding = some (d', bytes) → d'.InTime →
      d' = d ∧ result.isSome)
    (hres : d.InTime → AnsweredRight d result) : Inv (s.finish k w d result) where
  ring := h.ring
  map := ⟨h.map.sorted, h.map.times, h.map.latest⟩
  unnoted := h.unnoted
  holding := holding_setWorker (fun d bytes hd => by rw [hw] at hd; cases hd) h.holding
  answered := by
    constructor
    · intro d' hd' hin
      exact InHand.finish (fun b hb => hk d' b hb hin) (h.answered.handled d' hd' hin)
    · intro d' result' hmem hin
      rcases List.mem_append.mp hmem with hmem | hmem
      · exact h.answered.sent d' result' hmem hin
      · obtain ⟨rfl, rfl⟩ := Prod.mk.inj (List.mem_singleton.mp hmem)
        exact hres hin

/-- A free worker takes the request. -/
theorem Inv.hold {w : Worker} (h : Inv s) (hfree : (s.workers k).holding = none)
    (hw : w.holding = some (d, bytes)) (hbytes : bytes = d.request.packet) :
    Inv (s.setWorker k w) where
  ring := h.ring
  map := ⟨h.map.sorted, h.map.times, h.map.latest⟩
  unnoted := h.unnoted
  holding := by
    refine holding_setWorker (fun d' bytes' hd' => ?_) h.holding
    rw [hw] at hd'
    obtain ⟨rfl, rfl⟩ := Prod.mk.inj (Option.some.inj hd')
    exact hbytes
  answered := by
    refine ⟨fun d' hd' hin => ?_, h.answered.sent⟩
    rcases h.answered.handled d' hd' hin with ⟨j, bytes', hj⟩ | hdone
    · have hjk : j ≠ k := by
        rintro rfl
        rw [hfree] at hj
        cases hj
      exact Or.inl ⟨j, bytes', (setWorker_holding hjk).trans hj⟩
    · exact Or.inr hdone

/-- The request at the front of the queue is one of the requests taken. -/
theorem Inv.taken {rb : MutexRoundBuffer} {rest : List QueuedRequest} (h : Inv s)
    (hring : rb.Holds (rest.map QueuedRequest.packet)) (hd : d.InTime → InHand s d) :
    Inv { s with MRB_Request := rb, queued := rest, taken := s.taken ++ [d] } where
  ring := hring
  map := ⟨h.map.sorted, h.map.times, h.map.latest⟩
  unnoted := h.unnoted
  holding := h.holding
  answered := by
    refine ⟨fun d' hd' hin => ?_, h.answered.sent⟩
    rcases List.mem_append.mp hd' with hd' | hd'
    · exact h.answered.handled d' hd' hin
    · obtain rfl := List.mem_singleton.mp hd'
      exact hd hin

theorem Inv.receive (h : Inv s) (conn : Conn) (packet : List Byte) :
    Inv (s.step (.receive conn packet)) := by
  rw [step]
  split
  · exact h
  next hno =>
    have hpacket : IsPacket packet := by
      rw [not_or, Bool.not_eq_false] at hno
      simp only [admitted, Bool.and_eq_true, decide_eq_true_eq] at hno
      exact hno.2.1.1
    split
    · exact h
    · exact h
    · next rb hst =>
      constructor
      · change rb.Holds ((s.queued ++ [_]).map QueuedRequest.packet)
        rw [List.map_append, List.map_singleton]
        exact EnqueuePacket_stored h.ring hpacket hst
      · exact ⟨h.map.sorted, h.map.times, h.map.latest⟩
      · intro c r hr
        change Function.update s.unnoted conn _ c = some r at hr
        by_cases hc : c = conn
        · rw [hc, Function.update_self] at hr
          rw [← Option.some.inj hr]
          exact ⟨hc.symm, le_rfl⟩
        · rw [Function.update_of_ne hc] at hr
          exact h.unnoted c r hr
      · exact h.holding
      · exact ⟨h.answered.handled, h.answered.sent⟩

theorem Inv.note (h : Inv s) (conn : Conn) : Inv (s.step (.note conn)) := by
  rw [step]
  split
  · exact h
  next r hr =>
    obtain ⟨hconn, htime⟩ := h.unnoted conn r hr
    constructor
    · exact h.ring
    · exact h.map.note hconn htime
    · intro c r' hr'
      change Function.update s.unnoted conn none c = some r' at hr'
      by_cases hc : c = conn
      · rw [hc, Function.update_self] at hr'
        cases hr'
      · rw [Function.update_of_ne hc] at hr'
        exact h.unnoted c r' hr'
    · exact h.holding
    · exact ⟨h.answered.handled, h.answered.sent⟩

theorem Inv.fetch (h : Inv s) (hord : Orderly s (.fetch k)) : Inv (s.step (.fetch k)) := by
  rw [step]
  split
  · exact h
  next hfree =>
    have hnone : (s.workers k).holding = none := by
      rw [not_or, Bool.not_eq_true, Bool.not_eq_true, Option.isSome_eq_false_iff,
        Option.isNone_iff_eq_none] at hfree
      exact hfree.2
    cases hq : s.queued with
    | nil =>
        have hring := h.ring
        rw [hq] at hring
        simp only [GetPacket_nil hring]
        exact h
    | cons r rest =>
        have hring := h.ring
        rw [hq, List.map_cons] at hring
        have hord' := hord r rest hq
        have hrest := hring.take_front.2
        simp only [GetPacket_cons hring, takeUp]
        -- by the condition, a packet in time fits the buffer and passes the size check
        split
        · next hover =>
            have hlate : ¬(⟨r, s.clock⟩ : Timed).InTime := fun hin => by
              have := (hord' hin).2
              omega
            have hfin : Inv (s.finish k
                { s.workers k with
                  thread := (s.workers k).thread.fetch r.packet, stopped := true }
                ⟨r, s.clock⟩ none) :=
              h.finish hnone (fun d' b hb => by rw [hnone] at hb; cases hb)
                (fun hin => absurd hin hlate)
            exact hfin.taken hrest (fun hin => absurd hin hlate)
        split
        · next hbad =>
            have hlate : ¬(⟨r, s.clock⟩ : Timed).InTime := fun hin => by
              have hlt := (hord' hin).1
              have h8 := (hring.packets r.packet List.mem_cons_self).1
              simp only [RequestThread.malformed, Bool.or_eq_true, decide_eq_true_eq] at hbad
              omega
            have hfin : Inv (s.finish k
                { s.workers k with thread := (s.workers k).thread.fetch r.packet }
                ⟨r, s.clock⟩ none) :=
              h.finish hnone (fun d' b hb => by rw [hnone] at hb; cases hb)
                (fun hin => absurd hin hlate)
            exact hfin.taken hrest (fun hin => absurd hin hlate)
        · have hhold : Inv (s.setWorker k
              { s.workers k with
                thread := (s.workers k).thread.fetch r.packet
                holding := some (⟨r, s.clock⟩, r.packet) }) := h.hold hnone rfl rfl
          refine hhold.taken hrest (fun _ => Or.inl ⟨k, r.packet, ?_⟩)
          rw [setWorker_self]

theorem Inv.answer (h : Inv s) {S : Serving} {rnd : Nat} {stale : List Byte}
    (hord : Orderly s (.answer k S rnd stale)) : Inv (s.step (.answer k S rnd stale)) := by
  rw [step]
  split
  · exact h
  next d bytes hd =>
    obtain rfl := h.holding k d bytes hd
    have hsame : ∀ d' bytes', (s.workers k).holding = some (d', bytes') → d' = d := by
      intro d' bytes' hd'
      rw [hd] at hd'
      exact (Prod.mk.inj (Option.some.inj hd')).1.symm
    -- in time, the look-up gives the connection the request came from
    have hget : d.InTime → s.requestMapperTo.getConn
        (RequestResponseHeader.ofBytes d.request.packet).getDejavu = some d.request.conn := by
      intro hin
      obtain ⟨hclock, later, own, earlier, hnotes, hown, hlater⟩ := hord d _ hd hin
      exact h.map.getConn_eq hnotes hown hlater hclock
    dsimp only [RequestThread.answer]
    cases hconn : s.requestMapperTo.getConn
        (RequestResponseHeader.ofBytes d.request.packet).getDejavu with
    | none =>
        have hlate : ¬d.InTime := fun hin => by
          rw [hget hin] at hconn
          cases hconn
        refine h.finish rfl (fun d' b hb hin => absurd hin ?_) (fun hin => absurd hin hlate)
        rw [hsame d' b hb]
        exact hlate
    | some conn =>
        have heq : d.InTime → conn = d.request.conn := fun hin => by
          rw [hget hin] at hconn
          exact (Option.some.inj hconn).symm
        dsimp only
        split
        · next hnone => cases hnone
        · next sends hsends =>
            refine h.finish rfl (fun d' b hb _ => ⟨hsame d' b hb, rfl⟩) (fun hin => ?_)
            refine ⟨sends, rfl, ?_⟩
            rw [← heq hin]
            exact replyTo_conn (Option.some.inj hsends)
        · -- the handler does not return and has sent nothing
          refine h.finish rfl (fun d' b hb _ => ⟨hsame d' b hb, rfl⟩) (fun _ => ?_)
          exact ⟨[], rfl, fun x hx => absurd hx List.not_mem_nil⟩

/-- One step. -/
theorem inv_step (h : Inv s) (st : RoutingStep) (hord : Orderly s st) : Inv (s.step st) := by
  cases st with
  | receive conn packet => exact h.receive conn packet
  | note conn => exact h.note conn
  | fetch k => exact h.fetch hord
  | answer k S rnd stale => exact h.answer hord
  | clean => exact ⟨h.ring, h.map.clean, h.unnoted, h.holding, ⟨h.answered.handled, h.answered.sent⟩⟩
  | elapse seconds =>
      refine ⟨h.ring, h.map.elapse seconds, fun conn r hr => ?_, h.holding,
        ⟨h.answered.handled, h.answered.sent⟩⟩
      exact ⟨(h.unnoted conn r hr).1, Nat.le_add_right_of_le (h.unnoted conn r hr).2⟩

theorem inv_run (h : Inv s) {steps : List RoutingStep} (hord : OrderlyRun s steps) :
    Inv (s.run steps) := by
  have hstep : ∀ s st, Inv s → Orderly s st → Inv (s.step st) := fun _ st => (inv_step · st)
  exact Runs.run_invariant hstep h hord

end steps

/-- In every run whose steps are orderly, every request taken within the retention is handled and
everything its handler sends goes to the connection the request came from. -/
theorem orderly_run_answered (C : Nat) (hC : 0 < C) (steps : List RoutingStep)
    (hord : OrderlyRun (start C) steps) : Answered ((start C).run steps) :=
  (inv_run (inv_start hC) hord).answered

/-- `MRB_Request{64u * 1024u * 1024u}`. -/
def requestCapacity : Nat := 64 * 1024 * 1024

/-- A request for the tick info. -/
def tickInfoRequest (dejavu : Byte) : List Byte := [8, 0, 0, 27, dejavu, 0, 0, 0]

/-- The request with the given number and connection, from the first second of the run. -/
def firstSecond (id : Nat) (conn : Conn) : Timed :=
  ⟨{ id := id, conn := conn, packet := tickInfoRequest 7, enqueuedAt := 0 }, 0⟩

def notedInTime : List RoutingStep :=
  [.receive 1 (tickInfoRequest 7), .note 1, .fetch 0,
    .answer 0 RequestThread.emptyServing 1 []]

theorem orderly_run_answered_one :
    OrderlyRun (start requestCapacity) notedInTime ∧
      ((start requestCapacity).run notedInTime).outcomes.length = 1 ∧
      Answered ((start requestCapacity).run notedInTime) := by
  have hord : OrderlyRun (start requestCapacity) notedInTime := by
    refine ⟨trivial, trivial, ?_, ?_, trivial⟩
    · intro r rest hq _
      have hqueued : ((start requestCapacity).run (notedInTime.take 2)).queued =
          [(firstSecond 0 1).request] := by decide +kernel
      obtain ⟨rfl, -⟩ := List.cons.inj (hqueued.symm.trans hq)
      decide +kernel
    · intro d bytes hd _
      have hheld : (((start requestCapacity).run (notedInTime.take 3)).workers 0).holding =
          some (firstSecond 0 1, tickInfoRequest 7) := by decide +kernel
      obtain ⟨rfl, -⟩ := Prod.mk.inj (Option.some.inj (hheld.symm.trans hd))
      exact ⟨by decide +kernel, [], firstSecond 0 1, [], by decide +kernel, rfl,
        fun a ha => absurd ha List.not_mem_nil⟩
  exact ⟨hord, by decide +kernel, orderly_run_answered requestCapacity (by decide) _ hord⟩

/-- A worker takes the request before the receiver has noted its connection. -/
def lookedUpTooEarly : List RoutingStep :=
  [.receive 1 (tickInfoRequest 7), .fetch 0, .answer 0 RequestThread.emptyServing 1 [], .note 1]

/-- A second client uses the same dejavu before the request of the first is looked up. -/
def sameDejavu : List RoutingStep :=
  [.receive 1 (tickInfoRequest 7), .note 1, .receive 2 (tickInfoRequest 7), .note 2, .fetch 0,
    .answer 0 RequestThread.emptyServing 1 []]

/-- In the first run the request is dropped; in the second its reply goes to the other client. -/
theorem request_dropped_or_misrouted :
    ¬ Answered ((start requestCapacity).run lookedUpTooEarly) ∧
      ¬ Answered ((start requestCapacity).run sameDejavu) := by
  constructor
  · intro h
    have hout : (firstSecond 0 1, none) ∈
        ((start requestCapacity).run lookedUpTooEarly).outcomes := by decide +kernel
    obtain ⟨sends, hs, -⟩ := h.sent _ _ hout (Nat.zero_le _)
    cases hs
  · intro h
    let reply2 := reply 2 7 RESPOND_CURRENT_TICK_INFO (List.replicate 16 0)
    have hout : (firstSecond 0 1, some [reply2]) ∈
        ((start requestCapacity).run sameDejavu).outcomes := by decide +kernel
    obtain ⟨sends, hs, honly⟩ := h.sent _ _ hout (Nat.zero_le _)
    obtain rfl := Option.some.inj hs
    have hconn := honly reply2 List.mem_cons_self
    exact absurd hconn (by decide)

end Routing

end QubicBob
