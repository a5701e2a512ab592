import QubicBob.Lib.Fragments
import QubicBob.Network.DataThread

set_option autoImplicit false

/-! # Packets on a stream

`QubicConnection::receiveData` and `receiveAFullPacket` of `connection.cpp` over a socket that hands
out the stream in pieces of any size.

How the stream is cut does not matter for one reason: the loop of `receiveData` asks again for what
is still missing, so after each round the buffer holds the bytes of the stream up to `count`, and it
stops with all that was asked for or at the end of the stream. The bytes taken off are then a prefix
whose length was known before (`Behind`). One call is two such reads, the second as long as the
header of the first says, which is the length of the packet in front, and a sequence of packets is
taken apart by induction from the front. The size field has 24 bits, so what a sender must keep to
for its packets to come back is part of `WirePacket`.
-/

namespace QubicBob

open Fragments

/-! ## `setSize` -/

namespace RequestResponseHeader

/-- The three size bytes, from the low 24 bits. -/
def setSize (h : RequestResponseHeader) (size : Nat) : RequestResponseHeader :=
  { h with _size := size % 2 ^ 24 }

theorem length_bytes (h : RequestResponseHeader) : h.bytes.length = 8 := by
  simp [bytes, length_leBytes]

theorem size_eq (h : RequestResponseHeader) (hpos : h._size ≠ 0) : h.size = h._size :=
  if_neg hpos

/-- The size bytes of a header, read back. -/
theorem ofBytes_bytes_append_size (h : RequestResponseHeader) (body : List Byte) :
    (ofBytes (h.bytes ++ body))._size = h._size % 2 ^ 24 := by
  have hlen : (leBytes 3 (BitVec.ofNat 24 h._size)).length = 3 := length_leBytes _ _
  show leNat (((h.bytes ++ body).drop 0).take 3) = _
  rw [List.drop_zero, bytes, List.append_assoc, List.append_assoc,
    List.take_append_of_le_length hlen.ge, List.take_of_length_le hlen.le, leNat_leBytes,
    BitVec.toNat_ofNat]
  norm_num

end RequestResponseHeader

theorem setSize_bytes_length (h : RequestResponseHeader) (body : List Byte) :
    ((h.setSize (8 + body.length)).bytes ++ body).length = 8 + body.length := by
  rw [List.length_append, RequestResponseHeader.length_bytes]

/-- The size a receiver reads from the packet a sender makes. -/
theorem setSize_bytes_size (h : RequestResponseHeader) {body : List Byte}
    (hfits : 8 + body.length ≤ RequestResponseHeader.max_size) :
    (RequestResponseHeader.ofBytes ((h.setSize (8 + body.length)).bytes ++ body)).size =
      8 + body.length := by
  have hsmall : (8 + body.length) % 2 ^ 24 = 8 + body.length :=
    Nat.mod_eq_of_lt (by rw [RequestResponseHeader.max_size] at hfits; omega)
  have hsize := RequestResponseHeader.ofBytes_bytes_append_size (h.setSize (8 + body.length)) body
  have hfield : (h.setSize (8 + body.length))._size = 8 + body.length := hsmall
  rw [hfield, hsmall] at hsize
  rw [RequestResponseHeader.size_eq _ (by omega), hsize]

/-- A packet on the wire: as long as its header says. -/
structure WirePacket where
  bytes : List Byte
  holdsHeader : RequestResponseHeader.sizeOf ≤ bytes.length
  sized : (RequestResponseHeader.ofBytes bytes).size = bytes.length
  fits : bytes.length ≤ RequestResponseHeader.max_size

namespace WirePacket

def header (p : WirePacket) : RequestResponseHeader := RequestResponseHeader.ofBytes p.bytes

/-- The packet a sender makes of a header and a body. -/
def ofBody (h : RequestResponseHeader) (body : List Byte)
    (hfits : 8 + body.length ≤ RequestResponseHeader.max_size) : WirePacket where
  bytes := (h.setSize (8 + body.length)).bytes ++ body
  holdsHeader := (Nat.le_add_right 8 _).trans (setSize_bytes_length h body).ge
  sized := (setSize_bytes_size h hfits).trans (setSize_bytes_length h body).symm
  fits := (setSize_bytes_length h body).le.trans hfits

end WirePacket

/-! ## The socket -/

/-- What is still to arrive, and whether the stream ends with an error or an orderly close. -/
structure Socket where
  incoming : Source Byte
  broken : Bool

namespace Socket

/-- `recv(mSocket, buffer, len, 0)`: its value and the bytes it writes. -/
def recv (c : Cuts) (sock : Socket) (len : Nat) : Int × List Byte × Socket :=
  if sock.incoming.items = [] then (if sock.broken then -1 else 0, [], sock)
  else
    ((piece c sock.incoming len).length, piece c sock.incoming len,
      { sock with incoming := rest c sock.incoming len })

end Socket

namespace QubicConnection

variable (c : Cuts)

/-- The loop of `receiveData`. `buffer` is what has been written up to `count`. -/
def receiveLoop (sock : Socket) (buffer : List Byte) (count sz : Int) :
    Int × List Byte × Socket :=
  if sz > 0 then
    let ret := sock.recv c (min 1024 sz).toNat
    if ret.1 < 0 then (ret.1, buffer, ret.2.2)
    else if ret.1 = 0 then (count, buffer, ret.2.2)
    else receiveLoop ret.2.2 (buffer ++ ret.2.1) (count + ret.1) (sz - ret.1)
  else (count, buffer, sock)
termination_by sz.toNat
decreasing_by show (sz - ret.1).toNat < sz.toNat; omega

/-- The number of bytes received, or the error of `recv`, and what the buffer holds. -/
def receiveData (sock : Socket) (sz : Int) : Int × List Byte × Socket :=
  receiveLoop c sock [] 0 sz

/-- The exceptions are `std::logic_error` with these texts. -/
def receiveAFullPacket (sock : Socket) :
    Except String (RequestResponseHeader × List Byte) × Socket :=
  let head := receiveData c sock RequestResponseHeader.sizeOf
  if head.1 < 0 then (.error "Socket Error", head.2.2)
  else if head.1 ≠ RequestResponseHeader.sizeOf then (.error "Failed to get header.", head.2.2)
  else
    let header := RequestResponseHeader.ofBytes head.2.1
    let packet_size : Int := header.size
    if packet_size > RequestResponseHeader.max_size then
      (.error "Malformed header data.", head.2.2)
    else
      -- negative for a size below the header's: nothing is received and the counts differ
      let remaining_size := packet_size - RequestResponseHeader.sizeOf
      let body := receiveData c head.2.2 remaining_size
      if body.1 ≠ remaining_size then (.error "Not received enough data.", body.2.2)
      else (.ok (header, head.2.1 ++ body.2.1), body.2.2)

/-- The packets of `n` calls. -/
def receivePackets (n : Nat) (sock : Socket) :
    List (Except String (RequestResponseHeader × List Byte)) × Socket :=
  repeated (receiveAFullPacket c) n sock

/-! ## The loop

`receiveLoop_step` is one call of `recv` that got something; what has been gathered and what is left
are the stream all along. -/

section Loop

variable {c} {sock : Socket} {buffer : List Byte} {count : Int}

theorem receiveLoop_done {sz : Int} (h : sz ≤ 0) :
    receiveLoop c sock buffer count sz = (count, buffer, sock) := by
  rw [receiveLoop, if_neg (by omega)]

theorem receiveLoop_empty {sz : Int} (hsz : 0 < sz) (hitems : sock.incoming.items = []) :
    receiveLoop c sock buffer count sz =
      (if sock.broken then -1 else count, buffer, sock) := by
  rw [receiveLoop, if_pos hsz, Socket.recv, if_pos hitems]
  cases sock.broken <;> simp

theorem receiveLoop_step {n : Nat} (hn : 0 < n) (hitems : sock.incoming.items ≠ []) :
    receiveLoop c sock buffer count n =
      receiveLoop c { sock with incoming := rest c sock.incoming (min 1024 n) }
        (buffer ++ piece c sock.incoming (min 1024 n))
        (count + (piece c sock.incoming (min 1024 n)).length)
        (n - (piece c sock.incoming (min 1024 n)).length : Nat) := by
  have hlimit : (min 1024 (n : Int)).toNat = min 1024 n := by omega
  have hpos : 0 < (piece c sock.incoming (min 1024 n)).length :=
    length_piece_pos (by omega) hitems
  have hle : (piece c sock.incoming (min 1024 n)).length ≤ min 1024 n := length_piece_le
  rw [receiveLoop, if_pos (by omega), hlimit, Socket.recv, if_neg hitems]
  dsimp only
  rw [if_neg (by omega), if_neg (by omega), Int.ofNat_sub (by omega)]

/-- The socket behind the first `n` bytes. -/
def Behind (sock sock' : Socket) (n : Nat) : Prop :=
  sock'.incoming.items = sock.incoming.items.drop n ∧ sock'.broken = sock.broken

/-- With `n` bytes on their way the loop gathers them. -/
theorem receiveLoop_complete {n : Nat} (h : n ≤ sock.incoming.items.length) :
    (receiveLoop c sock buffer count n).1 = count + n ∧
      (receiveLoop c sock buffer count n).2.1 = buffer ++ sock.incoming.items.take n ∧
      Behind sock (receiveLoop c sock buffer count n).2.2 n := by
  induction n using Nat.strongRecOn generalizing sock buffer count with
  | ind n ih =>
      rcases Nat.eq_zero_or_pos n with hzero | hpos
      · rw [hzero, receiveLoop_done (by simp)]
        exact ⟨by simp, by simp, rfl, rfl⟩
      · have hitems : sock.incoming.items ≠ [] := by
          intro hnil
          rw [hnil] at h
          exact absurd h (by simp; omega)
        have hlimit : min 1024 n ≤ n := Nat.min_le_right 1024 n
        have hk : 0 < (piece c sock.incoming (min 1024 n)).length :=
          length_piece_pos (by omega) hitems
        have hle : (piece c sock.incoming (min 1024 n)).length ≤ min 1024 n := length_piece_le
        have hlen := @length_piece_add_rest _ c sock.incoming (min 1024 n)
        rw [receiveLoop_step hpos hitems, take_eq_piece_append (c := c) hlimit]
        have hrest := @ih (n - (piece c sock.incoming (min 1024 n)).length) (by omega)
          { sock with incoming := rest c sock.incoming (min 1024 n) }
          (buffer ++ piece c sock.incoming (min 1024 n))
          (count + (piece c sock.incoming (min 1024 n)).length)
          (by show _ ≤ (rest c sock.incoming (min 1024 n)).items.length; omega)
        refine ⟨?_, ?_, ?_, ?_⟩
        · rw [hrest.1]
          omega
        · rw [hrest.2.1, List.append_assoc]
        · rw [hrest.2.2.1, drop_eq_rest_drop (c := c) hlimit]
        · exact hrest.2.2.2

/-- With less than `n` bytes on their way the loop comes to the end of the stream. -/
theorem receiveLoop_short {n : Nat} (h : sock.incoming.items.length < n) :
    (receiveLoop c sock buffer count n).1 =
      if sock.broken then -1 else count + sock.incoming.items.length := by
  induction n using Nat.strongRecOn generalizing sock buffer count with
  | ind n ih =>
      by_cases hitems : sock.incoming.items = []
      · rw [receiveLoop_empty (by omega) hitems, hitems]
        simp
      · have hk : 0 < (piece c sock.incoming (min 1024 n)).length :=
          length_piece_pos (by omega) hitems
        have hle : (piece c sock.incoming (min 1024 n)).length ≤ min 1024 n := length_piece_le
        have hlen := @length_piece_add_rest _ c sock.incoming (min 1024 n)
        rw [receiveLoop_step (by omega) hitems, ih _ (by omega)
          (by show (rest c sock.incoming (min 1024 n)).items.length < _; omega)]
        show (if sock.broken then _ else _) = _
        split
        · rfl
        · show _ + _ + ((rest c sock.incoming (min 1024 n)).items.length : Int) = _
          omega

theorem receiveData_complete {n : Nat} (h : n ≤ sock.incoming.items.length) :
    (receiveData c sock n).1 = n ∧
      (receiveData c sock n).2.1 = sock.incoming.items.take n ∧
      Behind sock (receiveData c sock n).2.2 n := by
  have hloop := @receiveLoop_complete c sock [] 0 n h
  rw [receiveData]
  exact ⟨by rw [hloop.1, Int.zero_add], by rw [hloop.2.1, List.nil_append], hloop.2.2⟩

theorem receiveData_short {n : Nat} (h : sock.incoming.items.length < n) :
    (receiveData c sock n).1 =
      if sock.broken then -1 else (sock.incoming.items.length : Int) := by
  rw [receiveData, receiveLoop_short h, Int.zero_add]

theorem receiveData_negative {sz : Int} (h : sz ≤ 0) : receiveData c sock sz = (0, [], sock) :=
  receiveLoop_done h

end Loop

/-! ## One call -/

section Call

variable {c} {sock : Socket}

/-- No packet stands at the front of the stream: it ends inside the header or inside the packet, or
the size field is zero or below the header's. -/
def Unframed (stream : List Byte) : Prop :=
  stream.length < RequestResponseHeader.sizeOf ∨
    (RequestResponseHeader.ofBytes stream)._size < RequestResponseHeader.sizeOf ∨
    stream.length < (RequestResponseHeader.ofBytes stream)._size

theorem sizeField_le (stream : List Byte) :
    (RequestResponseHeader.ofBytes stream)._size ≤ RequestResponseHeader.max_size := by
  have hlt := readLE_lt stream 0 3
  show readLE stream 0 3 ≤ _
  rw [RequestResponseHeader.max_size]
  omega

/-- The call on a stream that holds a header: what is decided by its size. -/
theorem receiveAFullPacket_header (h : 8 ≤ sock.incoming.items.length) :
    ∃ sock', Behind sock sock' 8 ∧
      receiveAFullPacket c sock =
        if (RequestResponseHeader.ofBytes sock.incoming.items)._size = 0 then
          (.error "Malformed header data.", sock')
        else
          let header := RequestResponseHeader.ofBytes sock.incoming.items
          let body := receiveData c sock' (header._size - 8)
          if body.1 ≠ header._size - 8 then (.error "Not received enough data.", body.2.2)
          else (.ok (header, sock.incoming.items.take 8 ++ body.2.1), body.2.2) := by
  have hhead := receiveData_complete (c := c) h
  refine ⟨_, hhead.2.2, ?_⟩
  rw [receiveAFullPacket, RequestResponseHeader.sizeOf]
  dsimp only
  rw [if_neg (by rw [hhead.1]; decide), if_neg (by rw [hhead.1]; decide), hhead.2.1,
    ofBytes_take (le_refl 8)]
  have hmax := sizeField_le sock.incoming.items
  by_cases hzero : (RequestResponseHeader.ofBytes sock.incoming.items)._size = 0
  · rw [if_pos hzero, RequestResponseHeader.size, if_pos hzero, if_pos (by decide)]
  · rw [if_neg hzero, RequestResponseHeader.size_eq _ hzero, if_neg (by omega)]
    rfl

/-- One call takes one packet off the front of the stream. -/
theorem receiveAFullPacket_packet (p : WirePacket) (trailing : List Byte)
    (h : sock.incoming.items = p.bytes ++ trailing) :
    (receiveAFullPacket c sock).1 = .ok (p.header, p.bytes) ∧
      (receiveAFullPacket c sock).2.incoming.items = trailing ∧
      (receiveAFullPacket c sock).2.broken = sock.broken := by
  have h8 : 8 ≤ p.bytes.length := p.holdsHeader
  have hheader : RequestResponseHeader.ofBytes sock.incoming.items = p.header := by
    have htake := @ofBytes_take (p.bytes ++ trailing) _ h8
    rw [List.take_left' rfl] at htake
    rw [h, ← htake, WirePacket.header]
  have hsize : p.header._size = p.bytes.length := by
    have hsized := p.sized
    have hfits := p.fits
    rw [RequestResponseHeader.max_size] at hfits
    rw [RequestResponseHeader.size] at hsized
    split at hsized
    · rw [RequestResponseHeader.broken] at hsized
      omega
    · exact hsized
  obtain ⟨sock', hbehind, hcall⟩ := @receiveAFullPacket_header c sock
    (by rw [h, List.length_append]; omega)
  have hitems : sock'.incoming.items = p.bytes.drop 8 ++ trailing := by
    rw [hbehind.1, h, List.drop_append_of_le_length h8]
  have hbody := @receiveData_complete c sock' (p.bytes.length - 8)
    (by rw [hitems, List.length_append, List.length_drop]; omega)
  have hcast : (p.header._size : Int) - 8 = (p.bytes.length - 8 : Nat) := by omega
  have hlen : (p.bytes.drop 8).length = p.bytes.length - 8 := List.length_drop
  rw [hheader, hsize, if_neg (by omega)] at hcall
  dsimp only at hcall
  rw [hcast, if_neg (by rw [hbody.1]; exact not_not.mpr rfl), hbody.2.1, hitems,
    List.take_left' hlen, h, List.take_append_of_le_length h8, List.take_append_drop] at hcall
  rw [hcall]
  refine ⟨rfl, ?_, ?_⟩
  · show (receiveData c sock' _).2.2.incoming.items = trailing
    rw [hbody.2.2.1, hitems, List.drop_left' hlen]
  · show (receiveData c sock' _).2.2.broken = sock.broken
    rw [hbody.2.2.2, hbehind.2]

/-- Where no packet stands in front, the call throws. -/
theorem receiveAFullPacket_unframed (h : Unframed sock.incoming.items) :
    ∃ text, (receiveAFullPacket c sock).1 = .error text := by
  by_cases hlen : sock.incoming.items.length < 8
  · -- the header does not arrive
    have hhead := receiveData_short (c := c) hlen
    rw [receiveAFullPacket, RequestResponseHeader.sizeOf]
    dsimp only
    by_cases hneg : (receiveData c sock (8 : Nat)).1 < 0
    · exact ⟨_, by rw [if_pos hneg]⟩
    · have hne : (receiveData c sock (8 : Nat)).1 ≠ (8 : Nat) := by
        rw [hhead]
        split <;> omega
      exact ⟨_, by rw [if_neg hneg, if_pos hne]⟩
  · obtain ⟨sock', hbehind, hcall⟩ := @receiveAFullPacket_header c sock
      (not_lt.mp hlen)
    rw [hcall]
    by_cases hzero : (RequestResponseHeader.ofBytes sock.incoming.items)._size = 0
    · exact ⟨_, by rw [if_pos hzero]⟩
    · have hne : (receiveData c sock'
          ((RequestResponseHeader.ofBytes sock.incoming.items)._size - 8)).1 ≠
            (RequestResponseHeader.ofBytes sock.incoming.items)._size - 8 := by
        rcases h with hhead | hsmall | hcut
        · exact absurd hhead hlen
        · -- nothing is asked for, and nothing is not a negative number of bytes
          rw [RequestResponseHeader.sizeOf] at hsmall
          rw [receiveData_negative (by omega)]
          show (0 : Int) ≠ _
          omega
        · have hrest : sock'.incoming.items.length <
              (RequestResponseHeader.ofBytes sock.incoming.items)._size - 8 := by
            rw [hbehind.1, List.length_drop]
            omega
          have hcast : ((RequestResponseHeader.ofBytes sock.incoming.items)._size : Int) - 8 =
              ((RequestResponseHeader.ofBytes sock.incoming.items)._size - 8 : Nat) := by omega
          rw [hcast, receiveData_short hrest]
          split <;> omega
      rw [if_neg hzero]
      dsimp only
      exact ⟨_, by rw [if_pos hne]⟩

/-- Where a packet stands in front, its first `_size` bytes are one. -/
theorem exists_packet {stream : List Byte} (h : ¬ Unframed stream) :
    ∃ (p : WirePacket) (trailing : List Byte), stream = p.bytes ++ trailing := by
  simp only [Unframed, not_or, not_lt] at h
  obtain ⟨-, hsize, hlen⟩ := h
  have hmax := sizeField_le stream
  have htake : (stream.take (RequestResponseHeader.ofBytes stream)._size).length =
      (RequestResponseHeader.ofBytes stream)._size := by
    rw [List.length_take, Nat.min_eq_left hlen]
  refine ⟨⟨stream.take (RequestResponseHeader.ofBytes stream)._size, ?_, ?_, ?_⟩,
    stream.drop (RequestResponseHeader.ofBytes stream)._size,
    (List.take_append_drop _ _).symm⟩
  · rw [htake]
    exact hsize
  · rw [RequestResponseHeader.sizeOf] at hsize
    rw [ofBytes_take hsize, htake, RequestResponseHeader.size_eq _ (by omega)]
  · rw [htake]
    exact hmax

/-- The call throws exactly where no packet stands in front. -/
theorem receiveAFullPacket_throws_iff :
    (∃ text, (receiveAFullPacket c sock).1 = .error text) ↔ Unframed sock.incoming.items := by
  refine ⟨fun hthrows => ?_, receiveAFullPacket_unframed⟩
  by_contra hframed
  obtain ⟨p, trailing, hp⟩ := exists_packet hframed
  obtain ⟨text, htext⟩ := hthrows
  rw [(receiveAFullPacket_packet p trailing hp).1] at htext
  cases htext

/-- The call gives the packet that the receive path takes from the whole stream. -/
theorem receiveAFullPacket_whole :
    (receiveAFullPacket c sock).1.toOption.map Prod.snd =
      (QubicBob.receiveAFullPacket sock.incoming.items).2 := by
  by_cases hframed : Unframed sock.incoming.items
  · obtain ⟨text, htext⟩ := receiveAFullPacket_unframed (c := c) hframed
    rw [htext]
    by_cases hlen : sock.incoming.items.length < 8
    · rw [receiveAFullPacket_refused (Or.inl hlen)]
      rfl
    · rcases hframed with hhead | hsmall | hcut
      · exact absurd hhead hlen
      · rw [RequestResponseHeader.sizeOf] at hsmall
        by_cases hzero : (RequestResponseHeader.ofBytes sock.incoming.items)._size = 0
        · rw [receiveAFullPacket_refused (Or.inr ?_)]
          · rfl
          · rw [RequestResponseHeader.size, if_pos hzero]
            decide
        · have hsize := RequestResponseHeader.size_eq _ hzero
          rw [receiveAFullPacket_headerOnly (not_lt.mp hlen) (hsize ▸ sizeField_le _)
            (hsize ▸ hsmall)]
          rfl
      · have hsize := RequestResponseHeader.size_eq
          (RequestResponseHeader.ofBytes sock.incoming.items) (by omega)
        rw [receiveAFullPacket_incomplete (not_lt.mp hlen) (hsize ▸ sizeField_le _)
          (by omega) (hsize ▸ hcut)]
        rfl
  · obtain ⟨p, trailing, hp⟩ := exists_packet hframed
    have h8 : 8 ≤ p.bytes.length := p.holdsHeader
    have htake := @ofBytes_take (p.bytes ++ trailing) _ h8
    rw [List.take_left' rfl] at htake
    have hsize : (RequestResponseHeader.ofBytes (p.bytes ++ trailing)).size = p.bytes.length := by
      rw [← htake, p.sized]
    have hlen : p.bytes.length ≤ (p.bytes ++ trailing).length := by
      rw [List.length_append]
      omega
    rw [(receiveAFullPacket_packet p trailing hp).1, hp,
      receiveAFullPacket_ok (h8.trans hlen) (hsize ▸ p.fits) (hsize ▸ h8) (hsize ▸ hlen), hsize,
      List.take_left' rfl]
    rfl

end Call

/-! ## Many calls -/

/-- What is sent comes back, however it is cut, and where no packet stands in front of what is left
the call throws. -/
theorem receiveAFullPacket_framing :
    (∀ (packets : List WirePacket) (trailing : List Byte) (sock : Socket),
      sock.incoming.items = packets.flatMap WirePacket.bytes ++ trailing →
      (receivePackets c packets.length sock).1 = packets.map (fun p => .ok (p.header, p.bytes)) ∧
        (receivePackets c packets.length sock).2.incoming.items = trailing) ∧
    ∀ sock : Socket, Unframed sock.incoming.items →
      ∃ text, (receiveAFullPacket c sock).1 = .error text := by
  constructor
  · intro packets trailing sock hsock
    have hframe : ∀ (p : WirePacket) (trailing : List Byte) (sock : Socket),
        sock.incoming.items = p.bytes ++ trailing →
        (receiveAFullPacket c sock).1 = .ok (p.header, p.bytes) ∧
          (receiveAFullPacket c sock).2.incoming.items = trailing := by
      intro p trailing sock h
      have hcall := receiveAFullPacket_packet (c := c) p trailing h
      exact ⟨hcall.1, hcall.2.1⟩
    exact repeated_frames hframe packets trailing sock hsock
  · exact fun sock => receiveAFullPacket_unframed

/-- Two packets a byte at a time, and behind them the start of a third. -/
theorem receiveAFullPacket_framing_single :
    let p := WirePacket.ofBody ⟨0, 24, 1⟩ [1#8, 2#8] (by decide)
    let q := WirePacket.ofBody ⟨0, 35, 1⟩ [] (by decide)
    (receivePackets Cuts.single 2 ⟨⟨p.bytes ++ (q.bytes ++ [9#8]), 0⟩, false⟩).1 =
        [.ok (p.header, p.bytes), .ok (q.header, q.bytes)] ∧
      ∃ text, (receiveAFullPacket Cuts.single ⟨⟨[9#8], 18⟩, false⟩).1 = .error text := by
  intro p q
  have hboth := receiveAFullPacket_framing Cuts.single
  exact ⟨(hboth.1 [p, q] [9#8] _ (by simp)).1, hboth.2 _ (Or.inl (by decide))⟩

end QubicConnection

end QubicBob
