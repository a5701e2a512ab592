import QubicBob.Archive.LogRanges
import QubicBob.Basic.Layout
import QubicBob.Network.LogReply

set_option autoImplicit false

/-! # Structs on the wire

A node sends a vote, a tick data or the log ranges of a tick as the memory image of the struct, and
the node that receives it copies the image into a struct of its own. The copy is what was sent
(`TickVote.ofBytes_bytes`, `TickData.ofBytes_bytes`, `LogRangesPerTxInTick.ofBytes_bytes`).
-/

namespace QubicBob

variable (stale : List Byte)

/-! ## Votes -/

theorem TickVote.length_bytes (v : TickVote) : v.bytes.length = TickVote.sizeOf := by
  unfold TickVote.bytes m256i.bytes TickVote.sizeOf
  simp only [List.length_append, length_leBytes]

theorem TickVote.ofBytes_bytes (v : TickVote) : TickVote.ofBytes (v.bytes ++ stale) = v := by
  unfold TickVote.bytes m256i.bytes TickVote.ofBytes
  simp (disch := decide) only [List.append_assoc, readLE_skip, readLE_front, Nat.reduceSub,
    BitVec.ofNat_toNat, BitVec.setWidth_eq]

/-! ## Tick data -/

/-- The digests stand behind 48 bytes, the fees behind the digests, the signature at the end. -/
theorem TickData.bytes_split (td : TickData) : ∃ front : List Byte, front.length = 48 ∧
    td.bytes ++ stale = front ++ ((List.ofFn td.transactionDigests).flatMap (leBytes 32) ++
      ((List.ofFn td.contractFees).flatMap (leBytes 8) ++ (leBytes 64 td.signature ++ stale))) := by
  refine ⟨leBytes 2 td.computorIndex ++ leBytes 2 td.epoch ++ leBytes 4 td.tick
    ++ leBytes 2 td.millisecond ++ leBytes 1 td.second ++ leBytes 1 td.minute ++ leBytes 1 td.hour
    ++ leBytes 1 td.day ++ leBytes 1 td.month ++ leBytes 1 td.year ++ td.timelock.bytes, ?_, ?_⟩
  · unfold m256i.bytes
    simp only [List.length_append, length_leBytes]
  · have hbytes : m256i.bytes = leBytes 32 := rfl
    unfold TickData.bytes
    simp only [hbytes, List.append_assoc]

theorem TickData.length_bytes (td : TickData) : td.bytes.length = TickData.sizeOf := by
  obtain ⟨front, hfront, hsplit⟩ := td.bytes_split []
  rw [List.append_nil] at hsplit
  rw [hsplit, List.length_append, List.length_append, List.length_append, hfront,
    length_flatMap_leBytes, length_flatMap_leBytes, List.append_nil, length_leBytes,
    List.length_ofFn, List.length_ofFn]
  rfl

theorem TickData.ofBytes_bytes (td : TickData) : TickData.ofBytes (td.bytes ++ stale) = td := by
  have hcount : NUMBER_OF_TRANSACTIONS_PER_TICK = 1024 := rfl
  obtain ⟨front, hfront, hsplit⟩ := td.bytes_split stale
  have hdigests : ∀ i : Fin NUMBER_OF_TRANSACTIONS_PER_TICK,
      readLE (td.bytes ++ stale) (48 + 32 * i.val) 32 = (td.transactionDigests i).toNat := by
    intro i
    rw [hsplit, readLE_append_right hfront (by omega), Nat.add_sub_cancel_left, readLE_array rfl]
  have hfees : ∀ i : Fin NUMBER_OF_TRANSACTIONS_PER_TICK,
      readLE (td.bytes ++ stale) (32816 + 8 * i.val) 8 = (td.contractFees i).toNat := by
    intro i
    rw [hsplit, readLE_append_right hfront (by omega), readLE_skip_array (by omega),
      show 32816 + 8 * i.val - 48 - 32 * NUMBER_OF_TRANSACTIONS_PER_TICK = 8 * i.val by omega,
      readLE_array rfl]
  have hsignature : readLE (td.bytes ++ stale) 41008 64 = td.signature.toNat := by
    rw [hsplit, readLE_append_right hfront (by decide), readLE_skip_array (by decide),
      readLE_skip_array (by decide)]
    exact readLE_front rfl
  unfold TickData.ofBytes
  simp only [hdigests, hfees, hsignature]
  unfold TickData.bytes m256i.bytes
  simp (disch := decide) only [List.append_assoc, readLE_skip, readLE_front, Nat.reduceSub,
    BitVec.ofNat_toNat, BitVec.setWidth_eq]

/-! ## Log ranges -/

/-- The memory image of the struct. -/
def LogRangesPerTxInTick.bytes (lr : LogRangesPerTxInTick) : List Byte :=
  (List.ofFn lr.fromLogId).flatMap (leBytes 8) ++ (List.ofFn lr.length).flatMap (leBytes 8)

theorem LogRangesPerTxInTick.length_bytes (lr : LogRangesPerTxInTick) :
    lr.bytes.length = LogRangesPerTxInTick.sizeOf := by
  rw [LogRangesPerTxInTick.bytes, List.length_append, length_flatMap_leBytes,
    length_flatMap_leBytes, List.length_ofFn, List.length_ofFn]
  rfl

theorem LogRangesPerTxInTick.ofBytes_bytes (lr : LogRangesPerTxInTick) :
    LogRangesPerTxInTick.ofBytes (lr.bytes ++ stale) = lr := by
  have hfrom : ∀ i, readLE (lr.bytes ++ stale) (8 * i.val) 8 = (lr.fromLogId i).toNat := by
    intro i
    rw [LogRangesPerTxInTick.bytes, List.append_assoc, readLE_array rfl]
  have hlength : ∀ i, readLE (lr.bytes ++ stale) (8 * LOG_TX_PER_TICK + 8 * i.val) 8 =
      (lr.length i).toNat := by
    intro i
    rw [LogRangesPerTxInTick.bytes, List.append_assoc, readLE_skip_array (Nat.le_add_right _ _),
      Nat.add_sub_cancel_left, readLE_array rfl]
  simp only [LogRangesPerTxInTick.ofBytes, hfrom, hlength, BitVec.ofNat_toNat, BitVec.setWidth_eq]

/-! ## Packets around structs -/

/-- The packet `enqueueWithHeader` makes of a struct. -/
def enqueueWithHeader (dejavu type : Nat) (buffer : List Byte) : List Byte :=
  ({ _size := buffer.length + RequestResponseHeader.sizeOf, _type := type, _dejavu := dejavu } :
    RequestResponseHeader).bytes ++ buffer

theorem enqueueWithHeader_eq (dejavu type : Nat) (buffer : List Byte) :
    enqueueWithHeader dejavu type buffer =
      leBytes 3 (BitVec.ofNat 24 (buffer.length + 8)) ++ (leBytes 1 (BitVec.ofNat 8 type) ++
        (leBytes 4 (BitVec.ofNat 32 dejavu) ++ buffer)) := by
  simp only [enqueueWithHeader, RequestResponseHeader.bytes, RequestResponseHeader.sizeOf,
    List.append_assoc]

theorem drop_enqueueWithHeader (dejavu type : Nat) (buffer : List Byte) :
    (enqueueWithHeader dejavu type buffer).drop 8 = buffer := by
  rw [enqueueWithHeader_eq, ← List.append_assoc, ← List.append_assoc, List.drop_left']
  simp only [List.length_append, length_leBytes]

theorem length_enqueueWithHeader (dejavu type : Nat) (buffer : List Byte) :
    (enqueueWithHeader dejavu type buffer).length = 8 + buffer.length := by
  rw [enqueueWithHeader_eq]
  simp only [List.length_append, length_leBytes]
  omega

/-- A dejavu of 32 bits is read back from the packet. -/
theorem dejavu_enqueueWithHeader (dejavu : BitVec 32) (type : Nat) (buffer : List Byte) :
    (RequestResponseHeader.ofBytes
      (enqueueWithHeader dejavu.toNat type buffer)).getDejavu = dejavu.toNat := by
  rw [RequestResponseHeader.getDejavu, RequestResponseHeader.ofBytes, enqueueWithHeader_eq]
  dsimp only
  rw [readLE_skip (by decide), readLE_skip (by decide), readLE_front rfl, BitVec.ofNat_toNat,
    BitVec.setWidth_eq]

theorem reply_eq_enqueueWithHeader (conn : Conn) (dejavu type : Nat) (payload : List Byte) :
    (reply conn dejavu type payload).packet = enqueueWithHeader dejavu type payload := by
  rw [reply_packet, enqueueWithHeader_eq, Nat.add_comm]

theorem dejavu_reply (conn : Conn) (dejavu type : Nat) (payload : List Byte) :
    (RequestResponseHeader.ofBytes (reply conn dejavu type payload).packet).getDejavu =
      dejavu % 2 ^ 32 := by
  rw [RequestResponseHeader.getDejavu, RequestResponseHeader.ofBytes, reply_packet]
  dsimp only
  rw [readLE_skip (by decide), readLE_skip (by decide), readLE_front rfl, BitVec.toNat_ofNat]

end QubicBob
