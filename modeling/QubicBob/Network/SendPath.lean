import QubicBob.Network.Framing
import QubicBob.Network.RoundBuffer

set_option autoImplicit false

/-! # The send path of a connection

`enqueueSend` puts packets in the ring of the connection, and `sendThread` takes them out one at a
time and gives them to `send`, which may take a part of what is left, be interrupted, or fail. The
receiver thread of the connection closes the socket and opens a new one whenever it likes.

The thread tests `mSocket` before it takes a packet, before each `send`, and in the call; each of
these is a step of its own. A `send` that fails returns -1, and the thread adds that to its pointer
too. This does no harm while no new socket is open: the next test of `mSocket` fails and the packet
is given up.

The invariant `Sends` deals the packets out to the sockets: each was tried on one, in order, and
what is left is in the ring. On a socket that is closed the packets are `Cut`, all but the last of
them whole. On the open one the thread's variables say how far the last packet is (`InPacket`): the
pointer and the size left are the two sides of the part that is on the wire. A socket that is opened
while the thread is at a packet breaks this, as it begins with the rest of that packet, so the
condition `Ok` excludes it. The other end needs only that all packets but the last are whole, since
a part of a packet is none.
-/

namespace QubicBob

open Fragments

/-! ## The thread -/

/-- What `send` returns. -/
inductive SendResult where
  | accepted (n : Nat)
  /-- -1 with `EINTR` -/
  | interrupted
  /-- -1 otherwise -/
  | failed
  | zero
  deriving DecidableEq

inductive SendPhase where
  /-- the head of the outer loop -/
  | idle
  /-- the socket was open; `TryGetPacket` is next -/
  | get
  /-- the head of the loop over a packet -/
  | check
  | call
  /-- inside `send` on this socket -/
  | sending (socket : Option Nat)
  deriving DecidableEq

/-- A connection with its send thread. Sockets are numbered as they are opened. -/
structure SendPath where
  mBuffer : MutexRoundBuffer
  /-- the packets stored so far -/
  enqueued : List (List Byte)
  phase : SendPhase
  /-- `local_buf` and what lies around it -/
  memory : Int → Byte
  /-- where `buffer` points in it -/
  buffer : Int
  size : Nat
  mSocket : Option Nat
  opened : Nat
  /-- the bytes put on each socket -/
  wire : Nat → List Byte

inductive SendStep where
  /-- a producer at the mutex -/
  | enqueuePacket (ptr : List Byte)
  /-- `sendThread`, with what `send` returns if it is in the call -/
  | thread (result : SendResult)
  | disconnect
  /-- a `reconnect` that succeeds, after its close -/
  | connected

namespace SendPath

/-- Before the first connect. -/
def start : SendPath where
  mBuffer := .new 0xffffff
  enqueued := []
  phase := .idle
  memory := fun _ => 0
  buffer := 0
  size := 0
  mSocket := none
  opened := 0
  wire := fun _ => []

variable (s : SendPath)

/-- The bytes of `local_buf` from `buffer` on. -/
def bytesAt (n : Nat) : List Byte :=
  (List.range n).map fun i : Nat => s.memory (s.buffer + (i : Int))

/-- What follows `send` in the loop. -/
def returned (socket : Option Nat) (result : SendResult) : SendPath :=
  match socket, result with
  | some k, .accepted n =>
      if 0 < n ∧ n ≤ s.size then
        { s with
          phase := .check
          wire := Function.update s.wire k (s.wire k ++ s.bytesAt n)
          buffer := s.buffer + n
          size := s.size - n }
      else s
  | _, .interrupted => { s with phase := .check }
  | _, .zero => { s with phase := .check, mSocket := none }
  | _, _ => { s with phase := .check, mSocket := none, buffer := s.buffer - 1, size := s.size + 1 }

def step : SendStep → SendPath
  | .enqueuePacket ptr =>
      match s.mBuffer.EnqueuePacket ptr with
      | .refused => s
      | .waits => s
      | .stored rb =>
          { s with
            mBuffer := rb
            enqueued := s.enqueued ++ [ptr.take (RequestResponseHeader.ofBytes ptr).size] }
  | .thread result =>
      match s.phase with
      | .idle => if s.mSocket.isSome then { s with phase := .get } else s
      | .get =>
          match s.mBuffer.TryGetPacket with
          | none => { s with phase := .idle }
          | some (bytes, size, rb) =>
              { s with
                mBuffer := rb
                phase := .check
                memory := fun i =>
                  if 0 ≤ i ∧ i < bytes.length then bytes.getD i.toNat 0 else s.memory i
                buffer := 0
                size := size }
      | .check =>
          if 0 < s.size ∧ s.mSocket.isSome then { s with phase := .call }
          else { s with phase := .idle }
      | .call => { s with phase := .sending s.mSocket }
      | .sending socket => s.returned socket result
  | .disconnect => { s with mSocket := none }
  | .connected =>
      { s with
        mSocket := some s.opened
        opened := s.opened + 1
        wire := Function.update s.wire s.opened [] }

/-! ## What is on the sockets -/

/-- Only the last of the packets may be cut. -/
def Cut (wire : List Byte) (packets : List (List Byte)) : Prop :=
  packets.dropLast.flatten <+: wire ∧ wire <+: packets.flatten

/-- With these variables the thread is at the last of the packets, and what it has sent of it is on
the wire. -/
structure InPacket (memory : Int → Byte) (buffer : Int) (size : Nat) (wire : List Byte)
    (packets done : List (List Byte)) (p : List Byte) (sent : Nat) : Prop where
  packets_eq : packets = done ++ [p]
  wire_eq : wire = done.flatten ++ p.take sent
  buffer_eq : buffer = sent
  size_eq : sent + size = p.length
  memory_eq : ∀ i : Nat, i < p.length → memory i = p.getD i 0

/-- The thread is at the last of the packets. -/
def AtLast (wire : List Byte) (packets : List (List Byte)) : Prop :=
  ∃ done p sent, InPacket s.memory s.buffer s.size wire packets done p sent

/-- The last socket. -/
def Current (wire : List Byte) (packets : List (List Byte)) : Prop :=
  match s.phase with
  | .idle => if s.mSocket.isSome then wire = packets.flatten else Cut wire packets
  | .get => wire = packets.flatten
  | .check | .call =>
      if s.mSocket.isSome then s.AtLast wire packets else Cut wire packets
  | .sending (some _) => s.AtLast wire packets
  | .sending none => s.mSocket = none ∧ Cut wire packets

/-- `tried k` are the packets tried on the socket `k`, and `rest` those in the ring. -/
structure Sends (tried : Nat → List (List Byte)) (rest : List (List Byte)) : Prop where
  holds : s.mBuffer.Holds rest
  capacity : s.mBuffer.capacity_ = 0xffffff
  enqueued_eq : s.enqueued = (List.range s.opened).flatMap tried ++ rest
  packets : ∀ p ∈ s.enqueued, MutexRoundBuffer.IsPacket p ∧ p.length ≤ 0xffffff
  /-- the open socket is the last one -/
  socket : ∀ k, s.mSocket = some k → k + 1 = s.opened
  /-- the thread is at work on the last one -/
  working : s.phase ≠ .idle → ∃ k, k + 1 = s.opened ∧ ∀ j, s.phase = .sending (some j) → j = k
  earlier : ∀ k, k + 1 < s.opened → Cut (s.wire k) (tried k)
  current : ∀ k, k + 1 = s.opened → s.Current (s.wire k) (tried k)

/-- Packets are as long as they say, and a new socket is opened only when the thread is at none:
`connReceiver` waits a second between closing and opening. -/
def Ok : SendStep → Prop
  | .enqueuePacket ptr => PacketQueue.Proper 0xffffff (.enqueuePacket ptr)
  | .connected => s.phase = .idle
  | _ => True

section sends

variable {s : SendPath} {wire : List Byte} {packets done : List (List Byte)} {p : List Byte}
  {sent : Nat} {tried : Nat → List (List Byte)} {rest : List (List Byte)}

theorem cut_self (packets : List (List Byte)) : Cut packets.flatten packets :=
  ⟨(List.dropLast_prefix packets).flatten, List.prefix_rfl⟩

theorem AtLast.cut (h : s.AtLast wire packets) : Cut wire packets := by
  obtain ⟨done, p, sent, rfl, rfl, -⟩ := h
  rw [Cut, List.dropLast_concat, List.flatten_append, List.flatten_singleton]
  exact ⟨List.prefix_append _ _, (List.prefix_append_right_inj _).mpr (List.take_prefix _ _)⟩

/-- With nothing left the whole packet is on the wire. -/
theorem AtLast.whole (h : s.AtLast wire packets) (hsize : s.size = 0) : wire = packets.flatten := by
  obtain ⟨done, p, sent, hin⟩ := h
  have hsent : sent = p.length := by
    have heq := hin.size_eq
    omega
  rw [hin.wire_eq, hin.packets_eq, hsent, List.take_length, List.flatten_append,
    List.flatten_singleton]

theorem bytesAt_eq (h : InPacket s.memory s.buffer s.size wire packets done p sent) {n : Nat}
    (hn : n ≤ s.size) : s.bytesAt n = (p.drop sent).take n := by
  have hsize := h.size_eq
  refine List.ext_getElem ?_ fun i hi hi' => ?_
  · rw [bytesAt, List.length_map, List.length_range, List.length_take, List.length_drop]
    omega
  · rw [bytesAt, List.length_map, List.length_range] at hi
    have hmem := h.memory_eq (sent + i) (by omega)
    have hcast : s.buffer + (i : Int) = ((sent + i : Nat) : Int) := by
      rw [h.buffer_eq]
      omega
    simp only [bytesAt, List.getElem_map, List.getElem_range, List.getElem_take, List.getElem_drop]
    rw [hcast, hmem, ← List.getElem_eq_getD]

/-- What `send` has taken is on the wire. -/
theorem AtLast.accepted (h : s.AtLast wire packets) {n : Nat} (hn : n ≤ s.size) {s' : SendPath}
    (hmemory : s'.memory = s.memory) (hbuffer : s'.buffer = s.buffer + n)
    (hsize : s'.size = s.size - n) : s'.AtLast (wire ++ s.bytesAt n) packets := by
  obtain ⟨done, p, sent, hin⟩ := h
  have hleft := hin.size_eq
  refine ⟨done, p, sent + n, hin.packets_eq, ?_, ?_, ?_, ?_⟩
  · rw [bytesAt_eq hin hn, hin.wire_eq, List.append_assoc, ← List.take_add]
  · rw [hbuffer, hin.buffer_eq]
    omega
  · rw [hsize]
    omega
  · rw [hmemory]
    exact hin.memory_eq

theorem Current.cut (h : s.Current wire packets) : Cut wire packets := by
  rw [Current] at h
  split at h
  · split at h
    · rw [h]
      exact cut_self packets
    · exact h
  · rw [h]
    exact cut_self packets
  · split at h
    · exact h.cut
    · exact h
  · split at h
    · exact h.cut
    · exact h
  · exact h.cut
  · exact h.2

/-- Closing the socket cuts the packet the thread is at. -/
theorem Current.closed (h : s.Current wire packets) :
    Current { s with mSocket := none } wire packets := by
  have hcut := h.cut
  rw [Current] at h ⊢
  cases hp : s.phase with
  | get =>
      rw [hp] at h
      exact h
  | sending socket =>
      rw [hp] at h
      cases socket with
      | none => exact ⟨rfl, hcut⟩
      | some k => exact h
  | _ => exact hcut

/-! ## One step -/

/-- A step that leaves the ring alone and opens no socket. -/
theorem Sends.same (h : s.Sends tried rest) {s' : SendPath} (hbuffer : s'.mBuffer = s.mBuffer)
    (henqueued : s'.enqueued = s.enqueued) (hopened : s'.opened = s.opened)
    (hsocket : s'.mSocket = s.mSocket ∨ s'.mSocket = none)
    (hphase : s'.phase ≠ .idle → ∀ j, s'.phase = .sending (some j) → s'.mSocket = some j ∨
      s.phase = .sending (some j))
    (hopen : s'.phase ≠ .idle → 0 < s.opened)
    (hwire : ∀ k, k + 1 ≠ s.opened → s'.wire k = s.wire k)
    (hcurrent : ∀ k, k + 1 = s.opened → s'.Current (s'.wire k) (tried k)) : s'.Sends tried rest := by
  have hlast : ∀ k, s'.mSocket = some k → k + 1 = s.opened := by
    intro k hk
    rcases hsocket with hsame | hnone
    · exact h.socket k (hsame ▸ hk)
    · rw [hnone] at hk
      cases hk
  refine ⟨hbuffer ▸ h.holds, hbuffer ▸ h.capacity, ?_, henqueued ▸ h.packets, ?_, ?_, ?_, ?_⟩
  · rw [henqueued, hopened]
    exact h.enqueued_eq
  · rw [hopened]
    exact hlast
  · intro hne
    rw [hopened]
    obtain ⟨k, hk⟩ := Nat.exists_eq_succ_of_ne_zero (hopen hne).ne'
    refine ⟨k, hk.symm, fun j hj => ?_⟩
    have hj' : j + 1 = s.opened := by
      rcases hphase hne j hj with hopen' | hold
      · exact hlast j hopen'
      · obtain ⟨k', hk', hsending⟩ := h.working (by rw [hold]; nofun)
        rw [hsending j hold]
        exact hk'
    omega
  · rw [hopened]
    intro k hk
    rw [hwire k (by omega)]
    exact h.earlier k hk
  · rw [hopened]
    exact hcurrent

/-- The packets of the sockets up to the last one. -/
theorem flatMap_range_update (tried : Nat → List (List Byte)) (k : Nat) (packets : List (List Byte)) :
    (List.range (k + 1)).flatMap (Function.update tried k packets) =
      (List.range k).flatMap tried ++ packets := by
  have hbelow : ∀ j ∈ List.range k, Function.update tried k packets j = tried j := by
    intro j hj
    exact Function.update_of_ne (List.mem_range.mp hj).ne _ _
  rw [List.range_succ, List.flatMap_append, List.flatMap_singleton, Function.update_self,
    List.flatMap_congr hbelow]

theorem Sends.thread_get (h : s.Sends tried rest) (hphase : s.phase = .get) (result : SendResult) :
    ∃ tried' rest', (s.step (.thread result)).Sends tried' rest' := by
  obtain ⟨k, hk, -⟩ := h.working (by rw [hphase]; nofun)
  have hcurrent := h.current k hk
  rw [Current, hphase] at hcurrent
  cases rest with
  | nil =>
      refine ⟨tried, [], ?_⟩
      rw [step]
      simp only [hphase, MutexRoundBuffer.TryGetPacket_nil h.holds]
      refine h.same rfl rfl rfl (.inl rfl) (fun _ _ hj => absurd hj (by nofun)) (fun hne => ?_)
        (fun _ _ => rfl) fun j hj => ?_
      · exact absurd rfl hne
      · obtain rfl : j = k := by omega
        rw [Current]
        dsimp only
        split
        · exact hcurrent
        · rw [hcurrent]
          exact cut_self _
  | cons p rest =>
      refine ⟨Function.update tried k (tried k ++ [p]), rest, ?_⟩
      have hmem : p ∈ s.enqueued := by
        rw [h.enqueued_eq]
        exact List.mem_append_right _ List.mem_cons_self
      rw [step]
      simp only [hphase, MutexRoundBuffer.TryGetPacket_cons h.holds]
      constructor
      · exact h.holds.take_front.2
      · exact h.capacity
      · change s.enqueued = (List.range s.opened).flatMap _ ++ rest
        rw [h.enqueued_eq, ← hk, flatMap_range_update, List.range_succ, List.flatMap_append,
          List.flatMap_singleton, List.append_assoc, List.append_assoc, List.append_assoc,
          List.singleton_append]
      · exact h.packets
      · exact h.socket
      · exact fun _ => ⟨k, hk, fun _ hj => absurd hj (by nofun)⟩
      · intro j hj
        change j + 1 < s.opened at hj
        rw [Function.update_of_ne (by omega)]
        exact h.earlier j hj
      · intro j hj
        obtain rfl : j = k := by
          change j + 1 = s.opened at hj
          omega
        have hat : AtLast
            { s with
              mBuffer := (s.mBuffer.take p.length).2
              phase := .check
              memory := fun i => if 0 ≤ i ∧ i < p.length then p.getD i.toNat 0 else s.memory i
              buffer := 0
              size := p.length } (s.wire j) (tried j ++ [p]) := by
          refine ⟨tried j, p, 0, rfl, ?_, rfl, Nat.zero_add _, fun i hi => ?_⟩
          · rw [hcurrent, List.take_zero, List.append_nil]
          · have hrange : 0 ≤ (i : Int) ∧ (i : Int) < p.length := by omega
            dsimp only
            rw [if_pos hrange, Int.toNat_natCast]
        rw [Function.update_self, Current]
        dsimp only
        split
        · exact hat
        · exact hat.cut

theorem Sends.thread_sending (h : s.Sends tried rest) {socket : Option Nat}
    (hphase : s.phase = .sending socket) (result : SendResult) :
    (s.step (.thread result)).Sends tried rest := by
  have hopen : 0 < s.opened := by
    obtain ⟨k, hk, -⟩ := h.working (by rw [hphase]; nofun)
    omega
  rw [step]
  simp only [hphase]
  -- whatever happens to the socket, what is on the wire is cut at most in the last packet
  have hclosed : ∀ s' : SendPath, s'.phase = .check → s'.mSocket = none → s'.wire = s.wire →
      s'.mBuffer = s.mBuffer → s'.enqueued = s.enqueued → s'.opened = s.opened →
        s'.Sends tried rest := by
    intro s' hcheck hsocket hwire hbuffer henqueued hopened
    refine h.same hbuffer henqueued hopened (.inr hsocket)
      (fun _ j hj => by rw [hcheck] at hj; cases hj) (fun _ => hopen) (fun _ _ => by rw [hwire])
      fun j hj => ?_
    have hcurrent := h.current j hj
    rw [Current, hphase] at hcurrent
    rw [Current, hcheck, hsocket, hwire]
    cases socket with
    | none => exact hcurrent.2
    | some k => exact hcurrent.cut
  have hagain : (SendPath.Sends { s with phase := .check } tried rest) := by
    refine h.same rfl rfl rfl (.inl rfl) (fun _ j hj => absurd hj (by nofun)) (fun _ => hopen)
      (fun _ _ => rfl) fun j hj => ?_
    have hcurrent := h.current j hj
    rw [Current, hphase] at hcurrent
    rw [Current]
    dsimp only
    cases socket with
    | none =>
        rw [hcurrent.1]
        exact hcurrent.2
    | some k =>
        split
        · exact hcurrent
        · exact hcurrent.cut
  unfold returned
  split
  · next k n =>
    split
    · next hn =>
      obtain ⟨k', hk', hsame⟩ := h.working (by rw [hphase]; nofun)
      obtain rfl := hsame k hphase
      refine h.same rfl rfl rfl (.inl rfl) (fun _ j hj => absurd hj (by nofun)) (fun _ => hopen)
        (fun j hj => Function.update_of_ne (by rintro rfl; exact hj hk') _ _) fun j hj => ?_
      obtain rfl : j = k := by omega
      have hcurrent := h.current j hj
      rw [Current, hphase] at hcurrent
      have hmore : AtLast
          { s with
            phase := .check
            wire := Function.update s.wire j (s.wire j ++ s.bytesAt n)
            buffer := s.buffer + n
            size := s.size - n } (s.wire j ++ s.bytesAt n) (tried j) :=
        hcurrent.accepted hn.2 rfl rfl rfl
      rw [Current]
      dsimp only
      rw [Function.update_self]
      split
      · exact hmore
      · exact hmore.cut
    · exact h
  · exact hagain
  · exact hclosed _ rfl rfl rfl rfl rfl rfl
  · exact hclosed _ rfl rfl rfl rfl rfl rfl

theorem Sends.thread (h : s.Sends tried rest) (result : SendResult) :
    ∃ tried' rest', (s.step (.thread result)).Sends tried' rest' := by
  cases hphase : s.phase with
  | get => exact h.thread_get hphase result
  | sending socket => exact ⟨tried, rest, h.thread_sending hphase result⟩
  | idle =>
      refine ⟨tried, rest, ?_⟩
      rw [step]
      simp only [hphase]
      split
      · next hsome =>
        obtain ⟨k, hk⟩ := Option.isSome_iff_exists.mp hsome
        have hlast := h.socket k hk
        refine h.same rfl rfl rfl (.inl rfl) (fun _ _ hj => absurd hj (by nofun)) (fun _ => by omega)
          (fun _ _ => rfl) fun j hj => ?_
        have hcurrent := h.current j hj
        rw [Current, hphase] at hcurrent
        dsimp only at hcurrent
        rw [if_pos hsome] at hcurrent
        exact hcurrent
      · exact h
  | check =>
      refine ⟨tried, rest, ?_⟩
      obtain ⟨k, hk, -⟩ := h.working (by rw [hphase]; nofun)
      rw [step]
      simp only [hphase]
      split
      · next hgo =>
        refine h.same rfl rfl rfl (.inl rfl) (fun _ _ hj => absurd hj (by nofun)) (fun _ => by omega)
          (fun _ _ => rfl) fun j hj => ?_
        have hcurrent := h.current j hj
        rw [Current, hphase] at hcurrent
        rw [Current]
        dsimp only at hcurrent ⊢
        exact hcurrent
      · next hstop =>
        refine h.same rfl rfl rfl (.inl rfl) (fun hne => absurd rfl hne) (fun hne => absurd rfl hne)
          (fun _ _ => rfl) fun j hj => ?_
        have hcurrent := h.current j hj
        rw [Current, hphase] at hcurrent
        rw [Current]
        dsimp only at hcurrent ⊢
        split
        · next hsome =>
          rw [if_pos hsome] at hcurrent
          exact hcurrent.whole (by by_contra hpos; exact hstop ⟨by omega, hsome⟩)
        · next hnone =>
          rw [if_neg hnone] at hcurrent
          exact hcurrent
  | call =>
      refine ⟨tried, rest, ?_⟩
      obtain ⟨k, hk, -⟩ := h.working (by rw [hphase]; nofun)
      rw [step]
      simp only [hphase]
      refine h.same rfl rfl rfl (.inl rfl) (fun _ j hj => .inl (SendPhase.sending.inj hj))
        (fun _ => by omega) (fun _ _ => rfl) fun j hj => ?_
      have hcurrent := h.current j hj
      rw [Current, hphase] at hcurrent
      rw [Current]
      dsimp only at hcurrent ⊢
      cases hsocket : s.mSocket with
      | none =>
          rw [hsocket] at hcurrent
          exact ⟨rfl, hcurrent⟩
      | some k' =>
          rw [hsocket, if_pos Option.isSome_some] at hcurrent
          exact hcurrent

theorem Sends.enqueuePacket (h : s.Sends tried rest) {ptr : List Byte}
    (hok : s.Ok (.enqueuePacket ptr)) : ∃ rest', (s.step (.enqueuePacket ptr)).Sends tried rest' := by
  obtain ⟨h8, hcap, hptr⟩ := hok
  rcases MutexRoundBuffer.EnqueuePacket_spec h.holds h8 (hcap.trans h.capacity.ge) hptr with
    hwaits | ⟨rb, hstored, hsame, hholds⟩
  · refine ⟨rest, ?_⟩
    rw [step]
    simp only [hwaits]
    exact h
  · refine ⟨rest ++ [ptr.take (RequestResponseHeader.ofBytes ptr).size], ?_⟩
    rw [step]
    simp only [hstored]
    refine ⟨hholds, hsame.trans h.capacity, ?_, fun p hp => ?_, h.socket, h.working, h.earlier,
      fun k hk => ?_⟩
    · dsimp only
      rw [h.enqueued_eq, List.append_assoc]
    · rcases List.mem_append.mp hp with hold | hnew
      · exact h.packets p hold
      · obtain rfl := List.mem_singleton.mp hnew
        refine ⟨hholds.packets _ (List.mem_append_right _ List.mem_cons_self), ?_⟩
        exact (List.length_take_le _ _).trans hcap
    · exact h.current k hk

theorem Sends.disconnect (h : s.Sends tried rest) : (s.step .disconnect).Sends tried rest := by
  refine h.same rfl rfl rfl (.inr rfl) (fun _ j hj => .inr hj) (fun hne => ?_) (fun _ _ => rfl)
    fun k hk => (h.current k hk).closed
  obtain ⟨k, hk, -⟩ := h.working hne
  omega

theorem Sends.cut (h : s.Sends tried rest) {k : Nat} (hk : k < s.opened) :
    Cut (s.wire k) (tried k) := by
  rcases Nat.lt_or_ge (k + 1) s.opened with hlt | hge
  · exact h.earlier k hlt
  · exact (h.current k (by omega)).cut

theorem Sends.connected (h : s.Sends tried rest) (hidle : s.phase = .idle) :
    (s.step .connected).Sends (Function.update tried s.opened []) rest := by
  refine ⟨h.holds, h.capacity, ?_, h.packets, ?_, fun hne => absurd hidle hne, fun k hk => ?_,
    fun k hk => ?_⟩
  · change s.enqueued = (List.range (s.opened + 1)).flatMap _ ++ rest
    rw [flatMap_range_update, List.append_nil]
    exact h.enqueued_eq
  · rintro k hk
    rw [← Option.some.inj hk]
    rfl
  · change k + 1 < s.opened + 1 at hk
    change Cut (Function.update s.wire s.opened [] k) _
    rw [Function.update_of_ne (by omega), Function.update_of_ne (by omega)]
    exact h.cut (by omega)
  · obtain rfl : k = s.opened := Nat.succ.inj hk
    change Current _ (Function.update s.wire s.opened [] s.opened) _
    rw [Function.update_self, Function.update_self, Current, SendPath.step, hidle]
    rfl

theorem Sends.step (h : s.Sends tried rest) (st : SendStep) (hok : s.Ok st) :
    ∃ tried' rest', (s.step st).Sends tried' rest' := by
  cases st with
  | enqueuePacket ptr => exact ⟨tried, h.enqueuePacket hok⟩
  | thread result => exact h.thread result
  | disconnect => exact ⟨tried, rest, h.disconnect⟩
  | connected => exact ⟨_, rest, h.connected hok⟩

theorem sends_start : start.Sends (fun _ => []) [] where
  holds := MutexRoundBuffer.holds_new (by decide)
  capacity := rfl
  enqueued_eq := rfl
  packets := fun _ hp => absurd hp List.not_mem_nil
  socket := nofun
  working hne := absurd rfl hne
  earlier := nofun
  current := nofun

theorem sends_run {steps : List SendStep}
    (hok : Runs.Guarded SendPath.step (fun s st => s.Ok st) start steps) :
    ∃ tried rest, (Runs.run SendPath.step start steps).Sends tried rest := by
  refine @Runs.run_invariant _ _ SendPath.step (fun s st => s.Ok st)
    (fun s => ∃ tried rest, s.Sends tried rest) ?_ start steps ⟨_, _, sends_start⟩ hok
  rintro s st ⟨tried, rest, h⟩ hst
  exact h.step st hst

end sends

end SendPath

/-! ## The other end -/

section received

variable {c : Cuts} {wire : List Byte} {packets : List WirePacket}

theorem WirePacket.size_field (p : WirePacket) : p.header._size = p.bytes.length := by
  have hsized := p.sized
  have hfits := p.fits
  rw [RequestResponseHeader.max_size] at hfits
  rw [RequestResponseHeader.size] at hsized
  split at hsized
  · rw [RequestResponseHeader.broken] at hsized
    omega
  · exact hsized

/-- A part of a packet is not one. -/
theorem unframed_of_part (p : WirePacket) (hwire : wire <+: p.bytes)
    (hlt : wire.length < p.bytes.length) : QubicConnection.Unframed wire := by
  rcases Nat.lt_or_ge wire.length 8 with hshort | h8
  · exact .inl hshort
  · refine .inr (.inr ?_)
    have hheader : RequestResponseHeader.ofBytes wire = p.header := by
      have htake := @ofBytes_take p.bytes _ h8
      rw [← List.prefix_iff_eq_take.mp hwire] at htake
      exact htake
    rw [hheader, p.size_field]
    exact hlt

/-- A stream that breaks off somewhere: whole packets, and then a part of the next one. -/
theorem exists_whole_packets (hwire : wire <+: packets.flatMap WirePacket.bytes) :
    ∃ j ≤ packets.length, ∃ trailing, QubicConnection.Unframed trailing ∧
      wire = (packets.take j).flatMap WirePacket.bytes ++ trailing := by
  induction packets generalizing wire with
  | nil =>
      obtain rfl := List.prefix_nil.mp hwire
      exact ⟨0, le_rfl, [], .inl (by decide), rfl⟩
  | cons p packets ih =>
      rw [List.flatMap_cons] at hwire
      rcases Nat.lt_or_ge wire.length p.bytes.length with hlt | hge
      · have hpart : wire <+: p.bytes :=
          List.prefix_of_prefix_length_le hwire (List.prefix_append _ _) hlt.le
        exact ⟨0, Nat.zero_le _, wire, unframed_of_part p hpart hlt, rfl⟩
      · obtain ⟨rest, rfl⟩ := List.prefix_of_prefix_length_le (List.prefix_append _ _) hwire hge
        obtain ⟨j, hj, trailing, hunframed, rfl⟩ := ih ((List.prefix_append_right_inj _).mp hwire)
        refine ⟨j + 1, Nat.succ_le_succ hj, trailing, hunframed, ?_⟩
        rw [List.take_succ_cons, List.flatMap_cons, List.append_assoc]

/-- What is received of packets whose stream breaks off: the first ones, and then an error. -/
theorem receive_part (sock : Socket)
    (hsock : sock.incoming.items <+: packets.flatMap WirePacket.bytes) :
    ∃ j ≤ packets.length,
      (QubicConnection.receivePackets c j sock).1 =
          (packets.take j).map (fun p => .ok (p.header, p.bytes)) ∧
        ∃ text, (QubicConnection.receiveAFullPacket c
          (QubicConnection.receivePackets c j sock).2).1 = .error text := by
  obtain ⟨j, hj, trailing, hunframed, hitems⟩ := exists_whole_packets hsock
  have hlength : (packets.take j).length = j := List.length_take_of_le hj
  have hframe : ∀ (p : WirePacket) (trailing : List Byte) (sock : Socket),
      sock.incoming.items = p.bytes ++ trailing →
      (QubicConnection.receiveAFullPacket c sock).1 = .ok (p.header, p.bytes) ∧
        (QubicConnection.receiveAFullPacket c sock).2.incoming.items = trailing := by
    intro p trailing sock h
    obtain ⟨hgot, hleft, -⟩ := @QubicConnection.receiveAFullPacket_packet c sock p trailing h
    exact ⟨hgot, hleft⟩
  obtain ⟨hgot, hleft⟩ := repeated_frames hframe _ trailing sock hitems
  rw [hlength] at hgot hleft
  exact ⟨j, hj, hgot, QubicConnection.receiveAFullPacket_unframed (hleft ▸ hunframed)⟩

end received

theorem exists_wirePackets {packets : List (List Byte)}
    (h : ∀ p ∈ packets, MutexRoundBuffer.IsPacket p ∧ p.length ≤ 0xffffff) :
    ∃ ws : List WirePacket, ws.map WirePacket.bytes = packets := by
  induction packets with
  | nil => exact ⟨[], rfl⟩
  | cons p packets ih =>
      obtain ⟨ws, hws⟩ := ih fun q hq => h q (List.mem_cons_of_mem _ hq)
      obtain ⟨⟨h8, hsize⟩, hfits⟩ := h p List.mem_cons_self
      exact ⟨⟨p, h8, hsize, hfits⟩ :: ws, by rw [List.map_cons, hws]⟩

/-- **From ring to ring.** In every run, the packets put in the ring are tried on the sockets in order,
each on one of them, and on a socket only the last one may be cut; and what the other end receives on a
socket, however far the stream comes and however it is cut, are the first packets tried on it, and then
an error. -/
theorem sent_packets {steps : List SendStep}
    (hok : Runs.Guarded SendPath.step (fun s st => s.Ok st) SendPath.start steps) :
    let s := Runs.run SendPath.step SendPath.start steps
    ∃ tried : Nat → List WirePacket,
      ((List.range s.opened).flatMap fun k => (tried k).map WirePacket.bytes) <+: s.enqueued ∧
        ∀ k < s.opened, ((tried k).dropLast.flatMap WirePacket.bytes) <+: s.wire k ∧
          ∀ (sock : Socket) (c : Cuts), sock.incoming.items <+: s.wire k →
            ∃ j ≤ (tried k).length,
              (QubicConnection.receivePackets c j sock).1 =
                  ((tried k).take j).map (fun p => .ok (p.header, p.bytes)) ∧
                ∃ text, (QubicConnection.receiveAFullPacket c
                  (QubicConnection.receivePackets c j sock).2).1 = .error text := by
  intro s
  obtain ⟨tried, rest, h⟩ := SendPath.sends_run hok
  have hexists : ∀ k, ∃ ws : List WirePacket, k < s.opened → ws.map WirePacket.bytes = tried k := by
    intro k
    by_cases hk : k < s.opened
    · have hpackets : ∀ p ∈ tried k, MutexRoundBuffer.IsPacket p ∧ p.length ≤ 0xffffff := by
        intro p hp
        refine h.packets p ?_
        rw [h.enqueued_eq]
        exact List.mem_append_left _ (List.mem_flatMap.mpr ⟨k, List.mem_range.mpr hk, hp⟩)
      obtain ⟨ws, hws⟩ := exists_wirePackets hpackets
      exact ⟨ws, fun _ => hws⟩
    · exact ⟨[], fun hlt => absurd hlt hk⟩
  choose sent hsent using hexists
  refine ⟨sent, ?_, fun k hk => ?_⟩
  · rw [List.flatMap_congr fun k hk => hsent k (List.mem_range.mp hk)]
    exact ⟨rest, h.enqueued_eq.symm⟩
  · have hcut : SendPath.Cut (s.wire k) (tried k) := by
      rcases Nat.lt_or_ge (k + 1) s.opened with hlt | hge
      · exact h.earlier k hlt
      · exact (h.current k (le_antisymm hk hge)).cut
    rw [← hsent k hk, SendPath.Cut, ← List.map_dropLast, ← List.flatMap_def, ← List.flatMap_def]
      at hcut
    exact ⟨hcut.1, fun sock c hsock => receive_part sock (hsock.trans hcut.2)⟩

/-- A packet of 8 bytes, and the socket is closed after three of them. -/
theorem sent_packets_three_bytes :
    let s := Runs.run SendPath.step SendPath.start
      [.connected, .enqueuePacket [8, 0, 0, 27, 5, 6, 7, 9], .thread .zero, .thread .zero,
        .thread .zero, .thread .zero, .thread (.accepted 3), .disconnect]
    ∃ tried : Nat → List WirePacket,
      ((List.range s.opened).flatMap fun k => (tried k).map WirePacket.bytes) <+: s.enqueued ∧
        ∀ k < s.opened, ((tried k).dropLast.flatMap WirePacket.bytes) <+: s.wire k := by
  have hproper : PacketQueue.Proper 0xffffff (.enqueuePacket [8, 0, 0, 27, 5, 6, 7, 9]) := by
    rw [PacketQueue.Proper]
    decide
  obtain ⟨tried, hall, hsockets⟩ := @sent_packets
    [.connected, .enqueuePacket [8, 0, 0, 27, 5, 6, 7, 9], .thread .zero, .thread .zero,
      .thread .zero, .thread .zero, .thread (.accepted 3), .disconnect]
    ⟨rfl, hproper, trivial, trivial, trivial, trivial, trivial, trivial, trivial⟩
  exact ⟨tried, hall, fun k hk => (hsockets k hk).1⟩

/-- A socket opened while the thread is at a packet begins with the rest of it. -/
theorem rest_of_packet_on_next_socket {s : SendPath} {wire : List Byte}
    {packets done : List (List Byte)} {p : List Byte} {sent : Nat} (hphase : s.phase = .check)
    (h : SendPath.InPacket s.memory s.buffer s.size wire packets done p sent) (hleft : 0 < s.size)
    (result : SendResult) :
    (Runs.run SendPath.step s [.connected, .thread result, .thread result,
      .thread (.accepted s.size)]).wire s.opened = p.drop sent := by
  have hrest : p.drop sent = s.bytesAt s.size := by
    have hsize := h.size_eq
    rw [SendPath.bytesAt_eq h le_rfl, List.take_of_length_le]
    rw [List.length_drop]
    omega
  rw [hrest]
  simp [Runs.run, SendPath.step, SendPath.returned, hphase, hleft, SendPath.bytesAt]

end QubicBob
