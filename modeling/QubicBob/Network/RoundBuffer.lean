import QubicBob.Lib.Ring
import QubicBob.Lib.Runs
import QubicBob.Network.Packet

set_option autoImplicit false

/-! # The packet queue

`MutexRoundBuffer` of `SpecialBufferStructs.h`: packets of varying size, one behind the other in a
ring of bytes. Producers and consumers run their operations under one mutex, so a run is a list of
operations. A wait that is not satisfied releases the mutex: the operation has no effect and the
thread tries again later. Only the second wait of `GetPacket` keeps something across the wait, the
size read from the header; its waiters are part of the state.

The ring is read as a list (`Holds`): rotated to the read position it begins with the packets that
are pending, one behind the other, and these are all it has. So the header at the read position is
that of the first packet, wherever the ring wraps around, and taking or storing a packet is a step
on the list. A packet is stored as a whole, so a ring with a header has the rest of its packet as
well and the second wait never keeps a consumer; this is why its remembered size cannot go stale.
-/

namespace QubicBob

structure MutexRoundBuffer where
  buffer_ : List Byte
  capacity_ : Nat
  size_ : Nat
  head_ : Nat
  tail_ : Nat
  deriving DecidableEq, Repr

namespace MutexRoundBuffer

/-- The constructor: `buffer_.resize(capacity)`. -/
def new (capacity : Nat) : MutexRoundBuffer :=
  { buffer_ := List.replicate capacity 0, capacity_ := capacity, size_ := 0, head_ := 0, tail_ := 0 }

def peek_data (rb : MutexRoundBuffer) (len : Nat) : List Byte :=
  Ring.read rb.capacity_ rb.buffer_ rb.head_ len

/-- What a call of `EnqueuePacket` does at its first run: it returns `false`, it waits for room, or
it stores the packet. -/
inductive Enqueued where
  | refused
  | waits
  | stored (rb : MutexRoundBuffer)
  deriving DecidableEq, Repr

/-- `ptr` is the memory from the pointer on; the packet is its first `header.size()` bytes. -/
def EnqueuePacket (rb : MutexRoundBuffer) (ptr : List Byte) : Enqueued :=
  let packet_size := (RequestResponseHeader.ofBytes ptr).size
  if rb.capacity_ < packet_size then .refused
  else if rb.capacity_ - rb.size_ < packet_size then .waits
  else
    .stored { rb with
      buffer_ := Ring.write rb.capacity_ rb.buffer_ rb.tail_ (ptr.take packet_size)
      tail_ := (rb.tail_ + packet_size) % rb.capacity_
      size_ := rb.size_ + packet_size }

/-- The copy out and the update of the read position, for a packet of the given size. -/
def take (rb : MutexRoundBuffer) (packet_size : Nat) : List Byte × MutexRoundBuffer :=
  (Ring.read rb.capacity_ rb.buffer_ rb.head_ packet_size,
    { rb with head_ := (rb.head_ + packet_size) % rb.capacity_, size_ := rb.size_ - packet_size })

/-- The packet size in the header at the read position. -/
def peekSize (rb : MutexRoundBuffer) : Nat :=
  (RequestResponseHeader.ofBytes (rb.peek_data RequestResponseHeader.sizeOf)).size

/-- What a call of `GetPacket` does at its first run: it waits for a header, it waits for the
packet whose size it has read, or it hands out a packet. -/
inductive Got where
  | waitsForHeader
  | waitsForPacket (packet_size : Nat)
  | packet (bytes : List Byte) (size : Nat) (rb : MutexRoundBuffer)
  deriving DecidableEq, Repr

/-- The second wait of `GetPacket` and what follows it. -/
def finishGet (rb : MutexRoundBuffer) (packet_size : Nat) : Got :=
  if rb.size_ < packet_size then .waitsForPacket packet_size
  else .packet (rb.take packet_size).1 packet_size (rb.take packet_size).2

def GetPacket (rb : MutexRoundBuffer) : Got :=
  if rb.size_ < RequestResponseHeader.sizeOf then .waitsForHeader
  else rb.finishGet rb.peekSize

/-- `none` is the return value `false`. -/
def TryGetPacket (rb : MutexRoundBuffer) : Option (List Byte × Nat × MutexRoundBuffer) :=
  if rb.size_ < RequestResponseHeader.sizeOf then none
  else if rb.size_ < rb.peekSize then none
  else some ((rb.take rb.peekSize).1, rb.peekSize, (rb.take rb.peekSize).2)

/-! ## What the ring holds -/

/-- The bytes are one packet: a whole header and as many bytes as it says. -/
def IsPacket (p : List Byte) : Prop :=
  8 ≤ p.length ∧ (RequestResponseHeader.ofBytes p).size = p.length

instance (p : List Byte) : Decidable (IsPacket p) :=
  inferInstanceAs (Decidable (8 ≤ p.length ∧ (RequestResponseHeader.ofBytes p).size = p.length))

/-- The ring holds the packets `pending`, in this order, from the read position on. -/
structure Holds (rb : MutexRoundBuffer) (pending : List (List Byte)) : Prop where
  length_eq : rb.buffer_.length = rb.capacity_
  head_lt : rb.head_ < rb.capacity_
  size_le : rb.size_ ≤ rb.capacity_
  tail_eq : rb.tail_ = (rb.head_ + rb.size_) % rb.capacity_
  size_eq : rb.size_ = pending.flatten.length
  view : (rb.buffer_.rotate rb.head_).take rb.size_ = pending.flatten
  packets : ∀ p ∈ pending, IsPacket p

theorem holds_new {C : Nat} (hC : 0 < C) : (new C).Holds [] where
  length_eq := List.length_replicate
  head_lt := hC
  size_le := Nat.zero_le _
  tail_eq := (Nat.zero_mod C).symm
  size_eq := rfl
  view := rfl
  packets := fun _ h => absurd h List.not_mem_nil

section ops

variable {rb : MutexRoundBuffer} {pending : List (List Byte)} {p : List Byte}

theorem Holds.capacity_pos (h : rb.Holds pending) : 0 < rb.capacity_ :=
  lt_of_le_of_lt (Nat.zero_le _) h.head_lt

/-- A stored packet goes to the end of the queue. -/
theorem Holds.store {ptr : List Byte} {n : Nat} (h : rb.Holds pending)
    (hp : IsPacket (ptr.take n)) (hn : n ≤ ptr.length) (hroom : n ≤ rb.capacity_ - rb.size_) :
    Holds { rb with
      buffer_ := Ring.write rb.capacity_ rb.buffer_ rb.tail_ (ptr.take n)
      tail_ := (rb.tail_ + n) % rb.capacity_
      size_ := rb.size_ + n } (pending ++ [ptr.take n]) := by
  have hlen : (ptr.take n).length = n := by rw [List.length_take]; omega
  have hpos := h.capacity_pos
  have hsize := h.size_le
  have hfit : rb.size_ + (ptr.take n).length ≤ rb.capacity_ := by omega
  have hflat : (pending ++ [ptr.take n]).flatten = pending.flatten ++ ptr.take n := by
    rw [List.flatten_append, List.flatten_singleton]
  have hvlen : (pending.flatten ++ ptr.take n).length = rb.size_ + n := by
    rw [List.length_append, hlen, h.size_eq]
  constructor
  · exact Ring.length_write h.length_eq (by rw [h.tail_eq]; exact Nat.mod_lt _ hpos) (by omega)
  · exact h.head_lt
  · change rb.size_ + n ≤ rb.capacity_
    omega
  · change (rb.tail_ + n) % rb.capacity_ = (rb.head_ + (rb.size_ + n)) % rb.capacity_
    rw [h.tail_eq, Nat.mod_add_mod, Nat.add_assoc]
  · rw [hflat, hvlen]
  · -- the view keeps the packets that were there and has the new one behind them
    change ((Ring.write rb.capacity_ rb.buffer_ rb.tail_ (ptr.take n)).rotate rb.head_).take
      (rb.size_ + n) = _
    rw [h.tail_eq, Ring.write_rotate h.length_eq hpos hfit, h.view, hflat, ← hvlen,
      List.take_left]
  · intro q hq
    rcases List.mem_append.mp hq with hq | hq
    · exact h.packets q hq
    · rw [List.mem_singleton.mp hq]
      exact hp

/-- `EnqueuePacket` of a packet that fits the capacity waits or stores it at the end. -/
theorem EnqueuePacket_spec {ptr : List Byte} (h : rb.Holds pending)
    (h8 : 8 ≤ (RequestResponseHeader.ofBytes ptr).size)
    (hcap : (RequestResponseHeader.ofBytes ptr).size ≤ rb.capacity_)
    (hptr : (RequestResponseHeader.ofBytes ptr).size ≤ ptr.length) :
    rb.EnqueuePacket ptr = .waits ∨
      ∃ rb', rb.EnqueuePacket ptr = .stored rb' ∧ rb'.capacity_ = rb.capacity_ ∧
        rb'.Holds (pending ++ [ptr.take (RequestResponseHeader.ofBytes ptr).size]) := by
  have hp : IsPacket (ptr.take (RequestResponseHeader.ofBytes ptr).size) := by
    rw [IsPacket, ofBytes_take h8, List.length_take, Nat.min_eq_left hptr]
    exact ⟨h8, rfl⟩
  simp only [EnqueuePacket, if_neg (not_lt.mpr hcap)]
  split
  · exact Or.inl rfl
  · next hroom => exact Or.inr ⟨_, rfl, rfl, h.store hp hptr (not_lt.mp hroom)⟩

/-- A packet that was stored is at the end of the queue. -/
theorem EnqueuePacket_stored {rb' : MutexRoundBuffer} (h : rb.Holds pending) (hp : IsPacket p)
    (hst : rb.EnqueuePacket p = .stored rb') : rb'.Holds (pending ++ [p]) := by
  have hcap : (RequestResponseHeader.ofBytes p).size ≤ rb.capacity_ := by
    by_contra hlt
    simp only [EnqueuePacket, if_pos (not_le.mp hlt)] at hst
    cases hst
  rcases EnqueuePacket_spec h (hp.2 ▸ hp.1) hcap hp.2.le with hw | ⟨rb'', hst', _, hh⟩
  · rw [hw] at hst
    cases hst
  · rw [hst] at hst'
    rw [hp.2, List.take_length] at hh
    rw [Enqueued.stored.inj hst']
    exact hh

/-- The bytes at the read position are those of the first packet. -/
theorem Holds.read_front (h : rb.Holds (p :: pending)) {n : Nat} (hn : n ≤ p.length) :
    Ring.read rb.capacity_ rb.buffer_ rb.head_ n = p.take n := by
  have hsize : rb.size_ = p.length + pending.flatten.length := by
    rw [h.size_eq, List.flatten_cons, List.length_append]
  have hle := h.size_le
  have hview := congrArg (List.take n) h.view
  rw [List.take_take, Nat.min_eq_left (by omega), List.flatten_cons,
    List.take_append_of_le_length hn] at hview
  rw [Ring.read_eq h.length_eq h.head_lt (by omega), hview]

theorem Holds.peekSize_eq (h : rb.Holds (p :: pending)) : rb.peekSize = p.length := by
  have hp := h.packets p List.mem_cons_self
  rw [peekSize, peek_data, RequestResponseHeader.sizeOf, h.read_front hp.1, ofBytes_take le_rfl]
  exact hp.2

/-- Taking the first packet hands out its bytes and leaves the others. -/
theorem Holds.take_front (h : rb.Holds (p :: pending)) :
    (rb.take p.length).1 = p ∧ (rb.take p.length).2.Holds pending := by
  have hsize : rb.size_ = p.length + pending.flatten.length := by
    rw [h.size_eq, List.flatten_cons, List.length_append]
  have hle := h.size_le
  have hpos := h.capacity_pos
  constructor
  · rw [take, h.read_front le_rfl, List.take_length]
  · constructor
    · exact h.length_eq
    · exact Nat.mod_lt _ hpos
    · change rb.size_ - p.length ≤ rb.capacity_
      omega
    · change rb.tail_ =
        ((rb.head_ + p.length) % rb.capacity_ + (rb.size_ - p.length)) % rb.capacity_
      rw [h.tail_eq, Nat.mod_add_mod]
      congr 1
      omega
    · change rb.size_ - p.length = pending.flatten.length
      omega
    · change (rb.buffer_.rotate ((rb.head_ + p.length) % rb.capacity_)).take
        (rb.size_ - p.length) = pending.flatten
      rw [Ring.take_rotate_advance h.length_eq (by omega), ← List.drop_take, h.view,
        List.flatten_cons, List.drop_left]
    · exact fun q hq => h.packets q (List.mem_cons_of_mem p hq)

/-- A ring with no packet has no header either. -/
theorem Holds.size_nil (h : rb.Holds []) : rb.size_ = 0 := h.size_eq

/-- A ring with a packet has the whole of it. -/
theorem Holds.size_front (h : rb.Holds (p :: pending)) : 8 ≤ p.length ∧ p.length ≤ rb.size_ := by
  refine ⟨(h.packets p List.mem_cons_self).1, ?_⟩
  rw [h.size_eq, List.flatten_cons, List.length_append]
  exact Nat.le_add_right _ _

theorem GetPacket_nil (h : rb.Holds []) : rb.GetPacket = .waitsForHeader := by
  rw [GetPacket, if_pos (by rw [h.size_nil]; decide)]

theorem GetPacket_cons (h : rb.Holds (p :: pending)) :
    rb.GetPacket = .packet p p.length (rb.take p.length).2 := by
  have hsz := h.size_front
  rw [GetPacket, if_neg (by rw [RequestResponseHeader.sizeOf]; omega), h.peekSize_eq, finishGet,
    if_neg (by omega), h.take_front.1]

theorem TryGetPacket_nil (h : rb.Holds []) : rb.TryGetPacket = none := by
  rw [TryGetPacket, if_pos (by rw [h.size_nil]; decide)]

theorem TryGetPacket_cons (h : rb.Holds (p :: pending)) :
    rb.TryGetPacket = some (p, p.length, (rb.take p.length).2) := by
  have hsz := h.size_front
  rw [TryGetPacket, if_neg (by rw [RequestResponseHeader.sizeOf]; omega), h.peekSize_eq,
    if_neg (by omega), h.take_front.1]

end ops

end MutexRoundBuffer

/-! ## Producers and consumers -/

/-- The ring with its threads: the packets accepted and handed out so far, the latter with the size
reported, and the sizes remembered by the consumers in the second wait of `GetPacket`. -/
structure PacketQueue where
  rb : MutexRoundBuffer
  accepted : List (List Byte) := []
  handedOut : List (List Byte × Nat) := []
  waiting : List Nat := []
  deriving DecidableEq, Repr

/-- One atomic step of a producer or a consumer. A consumer in the second wait of `GetPacket` is
woken up with the size it remembers. -/
inductive QueueStep where
  | enqueuePacket (ptr : List Byte)
  | getPacket
  | tryGetPacket
  | wakeUp (i : Nat)
  deriving DecidableEq, Repr

namespace PacketQueue

open MutexRoundBuffer

def start (C : Nat) : PacketQueue := { rb := MutexRoundBuffer.new C }

/-- The packets accepted and not yet handed out. -/
def pending (s : PacketQueue) : List (List Byte) := s.accepted.drop s.handedOut.length

/-- The effect of `finishGet` for a consumer, new in the second wait or already there. -/
def hand (s : PacketQueue) (bytes : List Byte) (size : Nat) (rb : MutexRoundBuffer) : PacketQueue :=
  { s with rb := rb, handedOut := s.handedOut ++ [(bytes, size)] }

def step (s : PacketQueue) : QueueStep → PacketQueue
  | .enqueuePacket ptr =>
      match s.rb.EnqueuePacket ptr with
      | .refused => s
      | .waits => s
      | .stored rb =>
          { s with
            rb := rb
            accepted := s.accepted ++ [ptr.take (RequestResponseHeader.ofBytes ptr).size] }
  | .getPacket =>
      match s.rb.GetPacket with
      | .waitsForHeader => s
      | .waitsForPacket n => { s with waiting := s.waiting ++ [n] }
      | .packet bytes size rb => s.hand bytes size rb
  | .tryGetPacket =>
      match s.rb.TryGetPacket with
      | none => s
      | some (bytes, size, rb) => s.hand bytes size rb
  | .wakeUp i =>
      match s.waiting[i]? with
      | none => s
      | some n =>
          match s.rb.finishGet n with
          | .packet bytes size rb => { s.hand bytes size rb with waiting := s.waiting.eraseIdx i }
          | _ => s

def run (s : PacketQueue) (steps : List QueueStep) : PacketQueue := Runs.run step s steps

/-- A producer's packet: its header says at least 8 bytes and no more than the capacity, and the
memory at the pointer has them. -/
def Proper (C : Nat) : QueueStep → Prop
  | .enqueuePacket ptr =>
      8 ≤ (RequestResponseHeader.ofBytes ptr).size ∧
        (RequestResponseHeader.ofBytes ptr).size ≤ C ∧
        (RequestResponseHeader.ofBytes ptr).size ≤ ptr.length
  | _ => True

/-- The packets handed out are the first ones accepted, the ring holds the others, and nobody is in
the second wait of `GetPacket`. -/
structure Inv (C : Nat) (s : PacketQueue) (given rest : List (List Byte)) : Prop where
  capacity : s.rb.capacity_ = C
  holds : s.rb.Holds rest
  accepted_eq : s.accepted = given ++ rest
  handedOut_eq : s.handedOut = given.map (fun p => (p, p.length))
  packets : ∀ p ∈ s.accepted, IsPacket p
  nobodyWaits : s.waiting = []

theorem inv_start {C : Nat} (hC : 0 < C) : Inv C (start C) [] [] where
  capacity := rfl
  holds := holds_new hC
  accepted_eq := rfl
  handedOut_eq := rfl
  packets := fun _ h => absurd h List.not_mem_nil
  nobodyWaits := rfl

section steps

variable {C : Nat} {s : PacketQueue} {given rest : List (List Byte)} {p : List Byte}

theorem Inv.pending_eq (h : Inv C s given rest) : s.pending = rest := by
  rw [pending, h.accepted_eq, h.handedOut_eq, List.length_map, List.drop_left]

/-- Handing out the first pending packet. -/
theorem Inv.hand (h : Inv C s given (p :: rest)) :
    Inv C (s.hand p p.length (s.rb.take p.length).2) (given ++ [p]) rest where
  capacity := h.capacity
  holds := h.holds.take_front.2
  accepted_eq := by
    change s.accepted = _
    rw [h.accepted_eq, List.append_assoc, List.singleton_append]
  handedOut_eq := by
    change s.handedOut ++ [(p, p.length)] = _
    rw [h.handedOut_eq, List.map_append, List.map_singleton]
  packets := h.packets
  nobodyWaits := h.nobodyWaits

theorem Inv.enqueuePacket {ptr : List Byte} (h : Inv C s given rest)
    (hp : Proper C (.enqueuePacket ptr)) :
    ∃ rest', Inv C (s.step (.enqueuePacket ptr)) given rest' := by
  obtain ⟨h8, hcap, hptr⟩ := hp
  rw [← h.capacity] at hcap
  rcases EnqueuePacket_spec h.holds h8 hcap hptr with hw | ⟨rb', hst, hcap', hh⟩
  · exact ⟨rest, by simpa only [step, hw] using h⟩
  · refine ⟨rest ++ [ptr.take (RequestResponseHeader.ofBytes ptr).size], ?_⟩
    simp only [step, hst]
    constructor
    · exact hcap'.trans h.capacity
    · exact hh
    · change s.accepted ++ _ = _
      rw [h.accepted_eq, List.append_assoc]
    · exact h.handedOut_eq
    · intro q hq
      rcases List.mem_append.mp hq with hq | hq
      · exact h.packets q hq
      · exact hh.packets q (List.mem_append_right _ hq)
    · exact h.nobodyWaits

/-- One step of any thread. -/
theorem inv_step (h : Inv C s given rest) (st : QueueStep) (hst : Proper C st) :
    ∃ given' rest', Inv C (s.step st) given' rest' := by
  cases st with
  | enqueuePacket ptr => exact ⟨given, h.enqueuePacket hst⟩
  | getPacket =>
      cases rest with
      | nil => exact ⟨given, [], by simpa only [step, GetPacket_nil h.holds] using h⟩
      | cons p rest =>
          exact ⟨given ++ [p], rest, by simpa only [step, GetPacket_cons h.holds] using h.hand⟩
  | tryGetPacket =>
      cases rest with
      | nil => exact ⟨given, [], by simpa only [step, TryGetPacket_nil h.holds] using h⟩
      | cons p rest =>
          exact ⟨given ++ [p], rest, by simpa only [step, TryGetPacket_cons h.holds] using h.hand⟩
  | wakeUp i =>
      -- there is no one to wake up
      exact ⟨given, rest, by simpa only [step, h.nobodyWaits, List.getElem?_nil] using h⟩

theorem inv_run (h : Inv C s given rest) (steps : List QueueStep)
    (hsteps : ∀ st ∈ steps, Proper C st) :
    ∃ given' rest', Inv C (s.run steps) given' rest' := by
  induction steps generalizing s given rest with
  | nil => exact ⟨given, rest, h⟩
  | cons st sts ih =>
      obtain ⟨given', rest', h'⟩ := inv_step h st (hsteps st List.mem_cons_self)
      exact ih h' (fun st' hst' => hsteps st' (List.mem_cons_of_mem st hst'))

/-- `TryGetPacket` fails exactly on an empty queue. -/
theorem Inv.tryGetPacket_iff (h : Inv C s given rest) :
    s.rb.TryGetPacket = none ↔ rest = [] := by
  cases rest with
  | nil => simp [TryGetPacket_nil h.holds]
  | cons p rest => simp [TryGetPacket_cons h.holds]

theorem Inv.getPacket_ne (h : Inv C s given rest) (n : Nat) :
    s.rb.GetPacket ≠ .waitsForPacket n := by
  cases rest with
  | nil => rw [GetPacket_nil h.holds]; exact nofun
  | cons p rest => rw [GetPacket_cons h.holds]; exact nofun

end steps

/-- The queue is a FIFO of packets in every run of its operations: what was handed out is a prefix
of what was accepted, byte for byte and with the size of the packet; the counters describe the
pending packets; `TryGetPacket` fails exactly when there is none; and the second wait of `GetPacket`
is never entered. -/
theorem packetQueue_fifo (C : Nat) (hC : 0 < C) (steps : List QueueStep)
    (hsteps : ∀ st ∈ steps, Proper C st) :
    let s := (start C).run steps
    s.handedOut <+: s.accepted.map (fun p => (p, p.length)) ∧
      (∀ p ∈ s.accepted, (RequestResponseHeader.ofBytes p).size = p.length) ∧
      s.rb.capacity_ = C ∧
      s.rb.size_ ≤ s.rb.capacity_ ∧
      s.rb.tail_ = (s.rb.head_ + s.rb.size_) % s.rb.capacity_ ∧
      s.rb.size_ = (s.pending.map List.length).sum ∧
      (s.rb.TryGetPacket = none ↔ s.pending = []) ∧
      (∀ n, s.rb.GetPacket ≠ .waitsForPacket n) ∧
      s.waiting = [] := by
  intro s
  obtain ⟨given, rest, h⟩ := inv_run (inv_start hC) steps hsteps
  have hpre : given.map (fun p => (p, p.length)) <+:
      (given ++ rest).map (fun p : List Byte => (p, p.length)) := by
    rw [List.map_append]
    exact List.prefix_append _ _
  refine ⟨?_, fun p hp => (h.packets p hp).2, h.capacity, h.holds.size_le, h.holds.tail_eq, ?_, ?_,
    h.getPacket_ne, h.nobodyWaits⟩
  · rw [h.handedOut_eq, h.accepted_eq]
    exact hpre
  · rw [h.pending_eq, ← List.length_flatten]
    exact h.holds.size_eq
  · rw [h.pending_eq]
    exact h.tryGetPacket_iff

/-- A packet of 8 bytes goes round the end of a ring of 12. -/
def wrapSteps : List QueueStep :=
  [.enqueuePacket [8, 0, 0, 11, 1, 2, 3, 4], .getPacket, .enqueuePacket [8, 0, 0, 27, 5, 6, 7, 9],
    .tryGetPacket]

theorem packetQueue_fifo_wrap :
    (∀ st ∈ wrapSteps, Proper 12 st) ∧ ((start 12).run wrapSteps).handedOut.length = 2 ∧
      ((start 12).run wrapSteps).handedOut <+:
        ((start 12).run wrapSteps).accepted.map (fun p => (p, p.length)) := by
  have h : ∀ st ∈ wrapSteps, Proper 12 st := by
    simp only [wrapSteps, List.forall_mem_cons, Proper, List.not_mem_nil, false_imp_iff,
      implies_true, and_true]
    decide
  exact ⟨h, by decide, (packetQueue_fifo 12 (by decide) wrapSteps h).1⟩

end PacketQueue

end QubicBob
