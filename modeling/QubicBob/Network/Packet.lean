import QubicBob.Basic.Bytes
import Mathlib.Data.BitVec

set_option autoImplicit false

/-! # Packets

Every message on the wire starts with the 8-byte `RequestResponseHeader`: three bytes of size (the
header included), the type and the dejavu. The types are those of `defines.h` and `structs.h`.
-/

namespace QubicBob

/-! ## Message types -/

def RESPOND_COMPUTOR_LIST : Nat := 2
def BROADCAST_TICK_VOTE : Nat := 3
def TICK_DATA : Nat := 8
def REQUEST_COMPUTOR_LIST : Nat := 11
def REQUESTED_QUORUM_TICK : Nat := 14
def REQUEST_TICK_DATA : Nat := 16
def BROADCAST_TRANSACTION : Nat := 24
def REQUEST_CURRENT_TICK_INFO : Nat := 27
def RESPOND_CURRENT_TICK_INFO : Nat := 28
def REQUEST_TICK_TRANSACTIONS : Nat := 29
def END_RESPONSE : Nat := 35
def RESPOND_CONTRACT_FUNCTION : Nat := 43
def REQUEST_LOG : Nat := 44
def RESPOND_LOG : Nat := 45
def REQUEST_ALL_LOG_ID_RANGES_FROM_TICK : Nat := 50
def LOG_RANGES_PER_TX_IN_TICK : Nat := 51

/-- The types `connReceiver` takes from a connection that is not trusted. -/
def checkAllowedTypeForNonTrusted (type : Nat) : Bool :=
  if type = RESPOND_LOG then false
  else if type = LOG_RANGES_PER_TX_IN_TICK then false
  else true

def isRequestType (type : Nat) : Bool :=
  type = REQUEST_COMPUTOR_LIST || type = REQUESTED_QUORUM_TICK || type = REQUEST_TICK_DATA
    || type = REQUEST_CURRENT_TICK_INFO || type = REQUEST_TICK_TRANSACTIONS || type = REQUEST_LOG
    || type = REQUEST_ALL_LOG_ID_RANGES_FROM_TICK

def isDataType (type : Nat) : Bool :=
  type = BROADCAST_TICK_VOTE || type = TICK_DATA || type = BROADCAST_TRANSACTION
    || type = RESPOND_LOG || type = LOG_RANGES_PER_TX_IN_TICK || type = RESPOND_CONTRACT_FUNCTION

/-! ## The header -/

structure RequestResponseHeader where
  _size : Nat
  _type : Nat
  _dejavu : Nat
  deriving DecidableEq, Repr

namespace RequestResponseHeader

/-- `sizeof(RequestResponseHeader)`. -/
def sizeOf : Nat := 8

def max_size : Nat := 0xFFFFFF

/-- `INT32_MAX`, the size reported for a header whose size bytes are zero. -/
def broken : Nat := 2147483647

/-- The size of the whole packet. A zero stands for a broken packet. -/
def size (h : RequestResponseHeader) : Nat := if h._size = 0 then broken else h._size

def type (h : RequestResponseHeader) : Nat := h._type

def getDejavu (h : RequestResponseHeader) : Nat := h._dejavu

/-- `memcpy(&header, ptr, 8)`. -/
def ofBytes (ptr : List Byte) : RequestResponseHeader :=
  { _size := readLE ptr 0 3, _type := readLE ptr 3 1, _dejavu := readLE ptr 4 4 }

/-- The memory image of a header. -/
def bytes (h : RequestResponseHeader) : List Byte :=
  leBytes 3 (BitVec.ofNat 24 h._size) ++ leBytes 1 (BitVec.ofNat 8 h._type) ++
    leBytes 4 (BitVec.ofNat 32 h._dejavu)

end RequestResponseHeader

theorem readLE_take {ptr : List Byte} {off n m : Nat} (h : off + n ≤ m) :
    readLE (ptr.take m) off n = readLE ptr off n := by
  rw [readLE, readLE, List.drop_take, List.take_take, Nat.min_eq_left (by omega)]

/-- A header is read from its eight bytes only. -/
theorem ofBytes_take {ptr : List Byte} {m : Nat} (h : 8 ≤ m) :
    RequestResponseHeader.ofBytes (ptr.take m) = RequestResponseHeader.ofBytes ptr := by
  simp only [RequestResponseHeader.ofBytes, readLE_take (show 0 + 3 ≤ m by omega),
    readLE_take (show 3 + 1 ≤ m by omega), readLE_take (show 4 + 4 ≤ m by omega)]

/-! ## Maps from dejavu to request -/

/-- A connection (`QCPtr`), by its number. -/
abbrev Conn := Nat

structure RequestedData where
  timestamp : Nat
  conn : Option Conn
  data : List Byte
  deriving DecidableEq, Repr

/-- `RequestMap` of `RequestMap.h`. The clock is in whole seconds. -/
abbrev RequestMap := Nat → Option RequestedData

namespace RequestMap

def empty : RequestMap := fun _ => none

/-- An entry for the dejavu, in place of the one that was there. -/
def add (m : RequestMap) (now dejavu : Nat) (data : List Byte) (conn : Option Conn) : RequestMap :=
  Function.update m dejavu (some { timestamp := now, conn := conn, data := data })

def get (m : RequestMap) (dejavu : Nat) : Option (List Byte) := (m dejavu).map RequestedData.data

/-- The connection of an entry; no entry and an entry without one are both a null pointer. -/
def getConn (m : RequestMap) (dejavu : Nat) : Option Conn := (m dejavu).bind RequestedData.conn

/-- Removes the entries older than `period` seconds. One from the future has age zero. -/
def clean (m : RequestMap) (now period : Nat) : RequestMap :=
  fun d => (m d).filter (fun rd => decide (now - rd.timestamp ≤ period))

end RequestMap

end QubicBob
