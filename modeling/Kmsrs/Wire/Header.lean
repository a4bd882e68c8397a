import Kmsrs.Kms.Layout

/-! The sixteen bytes at the front of every PDU, the PDU types and flags, and
the fault PDU. A reply's header is built, never copied from the request: the
call ID is the only thing that is echoed. -/

namespace Kmsrs.Wire

open Kmsrs.Layout Kmsrs.Bytes

def headerLen : ℕ := 16
def rpcVersionMajor : UInt8 := 5
def rpcVersionMinor : UInt8 := 0

/-- Little-endian integers, ASCII, IEEE floats. -/
def dataRepresentation : Vector UInt8 4 := #v[0x10, 0x00, 0x00, 0x00]

/-! ### Packet types -/

inductive PacketType where
  | request
  | response
  | fault
  | bind
  | bindAck
  | bindNak
  | alterContext
  | alterContextResponse
deriving DecidableEq, Repr

namespace PacketType

def fromWire (raw : UInt8) : Option PacketType :=
  if raw = 0 then some .request
  else if raw = 2 then some .response
  else if raw = 3 then some .fault
  else if raw = 11 then some .bind
  else if raw = 12 then some .bindAck
  else if raw = 13 then some .bindNak
  else if raw = 14 then some .alterContext
  else if raw = 15 then some .alterContextResponse
  else none

def toWire : PacketType → UInt8
  | .request => 0
  | .response => 2
  | .fault => 3
  | .bind => 11
  | .bindAck => 12
  | .bindNak => 13
  | .alterContext => 14
  | .alterContextResponse => 15

theorem fromWire_toWire (type : PacketType) : fromWire type.toWire = some type := by
  cases type <;> decide

end PacketType

/-- The types a server sends. -/
def PacketType.emitted : List PacketType := [.bindAck, .alterContextResponse, .response, .fault, .bindNak]

/-! ### Flags -/

abbrev PacketFlags := UInt8

namespace PacketFlags

def firstFrag : PacketFlags := 0x01
def lastFrag : PacketFlags := 0x02
def concMpx : PacketFlags := 0x10
def didNotExecute : PacketFlags := 0x20

/-- A whole message in one fragment. -/
def complete : PacketFlags := 0x03

def contains (flags other : PacketFlags) : Bool := flags &&& other = other
def union (flags other : PacketFlags) : PacketFlags := flags ||| other
def intersection (flags other : PacketFlags) : PacketFlags := flags &&& other

end PacketFlags

/-! ### The header -/

structure RpcHeader where
  versionMajor : UInt8
  versionMinor : UInt8
  packetType : UInt8
  packetFlags : PacketFlags
  dataRepresentation : Vector UInt8 4
  fragLength : UInt16
  authLength : UInt16
  callId : UInt32
deriving DecidableEq

namespace RpcHeader

def layout : Layout RpcHeader :=
  (u8.pair (u8.pair (u8.pair (u8.pair ((Layout.bytes 4).pair (u16.pair (u16.pair u32))))))).iso
    (fun ⟨major, minor, type, flags, representation, frag, auth, call⟩ =>
      ⟨major, minor, type, flags, representation, frag, auth, call⟩)
    (fun ⟨major, minor, type, flags, representation, frag, auth, call⟩ =>
      ⟨major, minor, type, flags, representation, frag, auth, call⟩)
    (fun _ => rfl) (fun _ => rfl)

@[simp] theorem size_layout : layout.size = headerLen := rfl

def forReply (type : PacketType) (flags : PacketFlags) (callId : UInt32) (fragLength : UInt16) :
    RpcHeader where
  versionMajor := rpcVersionMajor
  versionMinor := rpcVersionMinor
  packetType := type.toWire
  packetFlags := flags
  dataRepresentation := Wire.dataRepresentation
  fragLength
  -- No trailer is ever sent, whatever the client declared.
  authLength := 0
  callId

/-- The type, when it is one the protocol defines. -/
def packetType? (header : RpcHeader) : Option PacketType := PacketType.fromWire header.packetType

def flags (header : RpcHeader) : PacketFlags := header.packetFlags

def versionIsSupported (header : RpcHeader) : Bool :=
  header.versionMajor = rpcVersionMajor ∧ header.versionMinor = rpcVersionMinor

theorem packetType?_forReply (type : PacketType) (flags : PacketFlags) (callId : UInt32)
    (fragLength : UInt16) : (forReply type flags callId fragLength).packetType? = some type :=
  type.fromWire_toWire

end RpcHeader

/-! ### Faults -/

inductive NcaStatus where
  | unknownInterface
  | protocolError
deriving DecidableEq, Repr

def NcaStatus.toWire : NcaStatus → UInt32
  | .unknownInterface => 0x1c010003
  | .protocolError => 0x1c01000b

namespace Fault

def faultLen : ℕ := headerLen + 16

/-- The call had no side effects, so a client may retry it. -/
def flags : PacketFlags := PacketFlags.complete.union .didNotExecute

def fields (callId : UInt32) (contextId : UInt16) (status : NcaStatus) : List (List UInt8) :=
  [RpcHeader.layout.encode (.forReply .fault flags callId (UInt16.ofNat faultLen)),
    -- The allocation hint counts the status and its reserved word.
    u32.encode 8, u16.encode contextId, u16.encode 0, u32.encode status.toWire, u32.encode 0]

def write (out : List UInt8) (callId : UInt32) (contextId : UInt16) (status : NcaStatus) :
    Option (ℕ × List UInt8) := writeRegion out faultLen (putAll (fields callId contextId status))

def bytes (callId : UInt32) (contextId : UInt16) (status : NcaStatus) : List UInt8 :=
  (fields callId contextId status).flatten

@[simp] theorem length_bytes (callId : UInt32) (contextId : UInt16) (status : NcaStatus) :
    (bytes callId contextId status).length = faultLen := by
  simp [bytes, fields, faultLen, headerLen]

theorem write_eq (out : List UInt8) (callId : UInt32) (contextId : UInt16) (status : NcaStatus) :
    write out callId contextId status =
      if faultLen ≤ out.length then some (faultLen, bytes callId contextId status ++ out.drop faultLen)
      else none :=
  writeRegion_eq (writes_putAll _) out (length_bytes callId contextId status)

end Fault

end Kmsrs.Wire
