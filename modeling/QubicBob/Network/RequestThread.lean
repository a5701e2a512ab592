import QubicBob.Network.Replies

set_option autoImplicit false

/-! # The request thread

The loop of `RequestProcessorThread`. A packet is copied to `ptr`, which starts at the beginning of
a buffer of `max_size` bytes; the thread then moves `ptr` behind the header to give the handler the
payload, and never moves it back. `writes` records where each packet was copied and its size.
-/

namespace QubicBob

structure RequestThread where
  ptr : Nat := 0
  writes : List (Nat × Nat) := []
  deriving DecidableEq, Repr

namespace RequestThread

/-- `packet_size == 0 || packet_size >= RequestResponseHeader::max_size`. -/
def malformed (packet_size : Nat) : Bool :=
  packet_size = 0 || RequestResponseHeader.max_size ≤ packet_size

/-- The first half of an iteration: `GetPacket`, the size check and the move behind the header. -/
def fetch (t : RequestThread) (packet : List Byte) : RequestThread :=
  { ptr := if malformed packet.length then t.ptr else t.ptr + 8
    writes := t.writes ++ [(t.ptr, packet.length)] }

/-- The second half: the connection is looked up and the handler called. `stale` is what follows
the packet in the buffer; `none` means that there is no connection. -/
def answer (S : Serving) (requestMapperTo : RequestMap) (rnd : Nat) (stale packet : List Byte) :
    Option (Except Halt (List Send)) :=
  let header := RequestResponseHeader.ofBytes packet
  match requestMapperTo.getConn header.getDejavu with
  | none => none
  | some conn =>
      some (replyTo S conn header.getDejavu rnd (packet.drop 8 ++ stale) header.type)

/-- What one iteration meets: the packet at the front of the queue, the state of the map, and what
the handler reads. -/
structure Request where
  packet : List Byte
  requestMapperTo : RequestMap
  serving : Serving
  rnd : Nat
  stale : List Byte

/-- One iteration, with the answer given. -/
def iterate (t : RequestThread) (r : Request) :
    RequestThread × Option (Except Halt (List Send)) :=
  if malformed r.packet.length then (t.fetch r.packet, none)
  else (t.fetch r.packet, answer r.serving r.requestMapperTo r.rnd r.stale r.packet)

def run (t : RequestThread) (requests : List Request) : RequestThread :=
  requests.foldl (fun t r => (t.iterate r).1) t

/-- A packet that passes the size check. -/
def wellSized (r : Request) : Bool := !malformed r.packet.length

theorem iterate_fst (t : RequestThread) (r : Request) : (t.iterate r).1 = t.fetch r.packet := by
  unfold iterate
  split
  · rfl
  · rfl

theorem fetch_ptr (t : RequestThread) (r : Request) :
    (t.fetch r.packet).ptr = t.ptr + if wellSized r then 8 else 0 := by
  unfold fetch wellSized
  cases malformed r.packet.length
  · rfl
  · rfl

/-- Where the packets of a run go: the packet of iteration `i` is eight bytes further on for every
well-sized packet before it. -/
theorem mem_run_writes (t : RequestThread) (requests : List Request) (w : Nat × Nat) :
    w ∈ (t.run requests).writes ↔ w ∈ t.writes ∨ ∃ i r, requests[i]? = some r ∧
      w = (t.ptr + 8 * (requests.take i).countP wellSized, r.packet.length) := by
  induction requests generalizing t with
  | nil => simp [run]
  | cons r rs ih =>
      have hrun : t.run (r :: rs) = (t.fetch r.packet).run rs := by
        rw [run, List.foldl_cons, iterate_fst]
        rfl
      have hw : w ∈ (t.fetch r.packet).writes ↔ w ∈ t.writes ∨ w = (t.ptr, r.packet.length) := by
        rw [fetch, List.mem_append, List.mem_singleton]
      rw [hrun, ih, hw, fetch_ptr]
      constructor
      · rintro ((h | rfl) | ⟨i, x, hx, rfl⟩)
        · exact Or.inl h
        · exact Or.inr ⟨0, r, rfl, by simp⟩
        · refine Or.inr ⟨i + 1, x, hx, ?_⟩
          rw [List.take_succ_cons, List.countP_cons]
          congr 1
          split <;> omega
      · rintro (h | ⟨i, x, hx, rfl⟩)
        · exact Or.inl (Or.inl h)
        · cases i with
          | zero =>
              have hr : r = x := by simpa using hx
              exact Or.inl (Or.inr (by simp [hr]))
          | succ i =>
              refine Or.inr ⟨i, x, by simpa using hx, ?_⟩
              rw [List.take_succ_cons, List.countP_cons]
              congr 1
              split <;> omega

/-- Every packet copied out in a run lands inside the buffer. -/
def WritesInBounds (t : RequestThread) : Prop :=
  ∀ w ∈ t.writes, w.1 + w.2 ≤ RequestResponseHeader.max_size

/-- The packets of a run all land inside the buffer exactly when each of them still fits behind
eight bytes for every well-sized packet before it. -/
theorem writesInBounds_iff (requests : List Request) :
    (run {} requests).WritesInBounds ↔ ∀ i r, requests[i]? = some r →
      8 * (requests.take i).countP wellSized + r.packet.length ≤
        RequestResponseHeader.max_size := by
  constructor
  · intro h i r hr
    have hw := h (8 * (requests.take i).countP wellSized, r.packet.length)
      ((mem_run_writes {} requests _).mpr (Or.inr ⟨i, r, hr, by simp⟩))
    exact hw
  · intro h w hw
    rcases (mem_run_writes {} requests w).mp hw with hw | ⟨i, r, hr, rfl⟩
    · exact absurd hw List.not_mem_nil
    · have := h i r hr
      change 0 + 8 * _ + _ ≤ _
      omega

/-- A node that has nothing to serve. -/
def emptyServing : Serving where
  K := ⟨fun _ => 0, fun _ => 0⟩
  gCurrentVerifyLoggingTick := 1
  gCurrentProcessingEpoch := 0
  gInitialTick := 0
  computorsEpoch := 0
  computors := []
  tryGetTickData := fun _ => none
  tryGetTickVote := fun _ => []
  tryGetTransaction := fun _ => none
  tryGetLog := fun _ _ => none
  tryGetLogRanges := fun _ => none

/-- A request for the tick info with `n` bytes behind its header. -/
def paddedRequest (n : Nat) : Request where
  packet := ({ _size := 8 + n, _type := REQUEST_CURRENT_TICK_INFO, _dejavu := 7 } :
    RequestResponseHeader).bytes ++ List.replicate n 0
  requestMapperTo := RequestMap.empty
  serving := emptyServing
  rnd := 1
  stale := []

theorem length_paddedRequest (n : Nat) : (paddedRequest n).packet.length = 8 + n := by
  rw [paddedRequest, List.length_append, List.length_replicate]
  rfl

/-- After one request of eight bytes, a request of `0xFFFFF8` bytes, which the size check admits,
runs over the end of the buffer. -/
theorem long_request_overruns :
    malformed (paddedRequest 0xFFFFF0).packet.length = false ∧
      ¬ (run {} [paddedRequest 0, paddedRequest 0xFFFFF0]).WritesInBounds := by
  constructor
  · rw [length_paddedRequest]
    decide
  · intro h
    have hw := h (8, 8 + 0xFFFFF0)
      ((mem_run_writes {} _ _).mpr (Or.inr ⟨1, paddedRequest 0xFFFFF0, rfl, by
        rw [length_paddedRequest]
        rfl⟩))
    revert hw
    decide

end RequestThread

end QubicBob
